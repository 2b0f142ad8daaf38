import Aletheia.WalRotationFlushes

/-!
# No acknowledged commit is lost to a rotation

Before `persist_indexes` has run, a rotation only moves frames from the ring buffers to a segment and
closes it; afterwards both files hold every frame of the segments it deletes.
-/

namespace Aletheia.WalRotation

open List Machine Option

open IndexPersistence (Known Nested Takes)

variable {s s' : WalRotation} {f g : LoggedFrame} {r : Rotation} {v : ℕ}

/-! ### The rotation -/

/-- The rotation goes on without having started to persist. What leaves the ring buffers and the
rotation has landed. -/
lemma Inv.rerotate (h : s.Inv) {ring : List LoggedFrame}
    (hs : s' = { s with ring := ring, rotation := some r })
    (hidle : ∀ v j, s.rotation ≠ some ⟨v, .persisting j⟩)
    (hsub : ∀ f, f ∈ ring ∨ f ∈ r.phase.held → f ∈ s.ring ∨ f ∈ s.held)
    (hleft : ∀ f, f ∈ s.ring ∨ f ∈ s.held → f ∈ ring ∨ f ∈ r.phase.held ∨ s.Landed f)
    (hok : s.RotationOk r) : s'.Inv := by
  subst hs
  have hqueued : ∀ f, f ∈ s.ring ∨ f ∈ s.held ∨ s.Landed f → f ∈ ring ∨ f ∈ r.phase.held ∨
      s.Landed f := by
    rintro f (hf | hf | hf)
    · exact hleft f (.inl hf)
    · exact hleft f (.inr hf)
    · exact .inr (.inr hf)
  refine ⟨h.index, h.nested, ?_, h.mode, h.onDisk, fun f hf => h.buffered f ?_, h.acknowledged,
    h.completed, fun f hf => hqueued f (h.members f hf), h.cycle,
    fun hc f phase hf => hqueued f (h.pending hc f phase hf), h.writing, h.retired, ?_⟩
  · intro j d hd htodo
    obtain ⟨v, hv⟩ := h.busy j d hd htodo
    exact absurd hv (hidle v j)
  · rw [mem_buffered] at hf ⊢
    rcases hf with hf | hf | hf | hf
    · exact (hsub f (.inl hf)).imp_right fun hf => .inr (.inr hf)
    · exact .inr (.inl hf)
    · exact .inr (.inr (.inl hf))
    · exact (hsub f (.inr hf)).imp_right fun hf => .inr (.inr hf)
  · intro r' hr'
    cases hr'
    exact ⟨hok.sealed, hok.persisting, hok.old⟩

lemma held_of_rotation (h : s.rotation = some r) : s.held = r.phase.held := by
  rw [held, h]
  rfl

lemma rotationOk_draining {held : List LoggedFrame} : s.RotationOk ⟨v, .draining held⟩ :=
  ⟨nofun, nofun, nofun⟩

lemma rotationOk_flushing {held : List LoggedFrame} : s.RotationOk ⟨v, .flushing held⟩ :=
  ⟨nofun, nofun, nofun⟩

lemma rotationOk_sealed (h : s.Flipped v) : s.RotationOk ⟨v, .sealed⟩ :=
  ⟨fun _ => h, nofun, nofun⟩

variable (h : s.Inv)

include h

lemma inv_startRotation (hstep : s.step (.startRotation v) = some s') : s'.Inv := by
  simp only [step, rotationStep] at hstep
  split_ifs at hstep with hnone
  cases hstep
  have hheld : s.held = [] := by rw [held, hnone]; rfl
  refine h.rerotate rfl (by simp [hnone]) ?_ ?_ rotationOk_draining
  · exact fun f hf => hf.imp_right (absurd · not_mem_nil)
  · intro f hf
    rw [hheld] at hf
    exact hf.imp_right (absurd · not_mem_nil)

lemma inv_rotationDrain {i : ℕ} (hstep : s.step (.rotationDrain i) = some s') : s'.Inv := by
  simp only [step, rotationStep] at hstep
  split at hstep
  next v taken f hrotation hf =>
    cases hstep
    have hheld : s.held = taken := held_of_rotation hrotation
    refine h.rerotate rfl (by simp [hrotation]) ?_ ?_ rotationOk_draining
    · rintro g (hg | hg)
      · exact .inl (eraseIdx_subset hg)
      · rcases mem_append.mp hg with hg | hg
        · exact .inr (hheld ▸ hg)
        · rw [mem_singleton.mp hg]
          exact .inl (mem_of_getElem? hf)
    · rintro g (hg | hg)
      · rcases IndexPersistence.eq_or_mem_eraseIdx hf hg with rfl | hg
        · exact .inr (.inl (mem_append_right _ mem_cons_self))
        · exact .inl hg
      · exact .inr (.inl (mem_append_left _ (hheld ▸ hg)))
  · cases hstep

lemma inv_rotationDrained (hstep : s.step .rotationDrained = some s') : s'.Inv := by
  simp only [step, rotationStep] at hstep
  split at hstep
  next v taken hrotation =>
    cases hstep
    have hheld : s.held = taken := held_of_rotation hrotation
    refine h.rerotate rfl (by simp [hrotation]) ?_ ?_ rotationOk_flushing
    · exact fun f hf => hf.imp_right fun hf => hheld ▸ hf
    · exact fun f hf => hf.imp_right fun hf => .inl (hheld ▸ hf)
  · cases hstep

lemma inv_rotationWrite (hstep : s.step .rotationWrite = some s') : s'.Inv := by
  simp only [step, rotationStep] at hstep
  split at hstep
  next v f taken hrotation =>
    cases hstep
    have hheld : s.held = f :: taken := held_of_rotation hrotation
    have hknown : s.index.Known f := h.buffered f (mem_buffered.mpr (.inr (.inr (.inr (by
      rw [hheld]
      exact mem_cons_self)))))
    have hw := h.write hknown
    obtain ⟨seg, id, hs, -, -⟩ := s.write_spec f
    have hr : (s.write f).rotation = some ⟨v, .flushing (f :: taken)⟩ := by rw [hs]; exact hrotation
    have hheld' : (s.write f).held = f :: taken := held_of_rotation hr
    refine hw.rerotate rfl (by simp [hr]) ?_ ?_ rotationOk_flushing
    · intro g hg
      refine hg.imp_right fun hg => ?_
      rw [hheld']
      exact mem_cons_of_mem _ hg
    · rintro g (hg | hg)
      · exact .inl hg
      · rw [hheld'] at hg
        rcases mem_cons.mp hg with rfl | hg
        · exact .inr (.inr landed_write)
        · exact .inr (.inl hg)
  · cases hstep

lemma inv_sealAndReopen (hstep : s.step .sealAndReopen = some s') : s'.Inv := by
  simp only [step, rotationStep] at hstep
  split at hstep
  next v hrotation =>
    cases hstep
    have hclosed := h.ensureSegmentOpen.sealCurrent
    obtain ⟨seg, id, hs, -, -⟩ := s.ensureSegmentOpen_spec
    have hr : s.ensureSegmentOpen.sealCurrent.rotation = some ⟨v, .flushing []⟩ := by
      rw [hs]
      exact hrotation
    have hflip : Inv { s.ensureSegmentOpen.sealCurrent with generation := v } := by
      refine hclosed.resegment rfl hclosed.onDisk ?_ ?_
      · exact fun f hf => hf
      · intro r hr'
        rw [hr] at hr'
        cases hr'
        exact rotationOk_flushing
    have hopen := hflip.ensureSegmentOpen
    have hr' : (s.sealActiveSegmentAndReopen v).rotation = some ⟨v, .flushing []⟩ := hr
    have hheld : (s.sealActiveSegmentAndReopen v).held = [] := held_of_rotation hr'
    refine Inv.rerotate (s := s.sealActiveSegmentAndReopen v) hopen rfl (by simp [hr']) ?_ ?_
      (rotationOk_sealed ⟨rfl, ?_⟩)
    · exact fun f hf => hf.imp_right (absurd · not_mem_nil)
    · intro f hf
      rw [hheld] at hf
      exact hf.imp_right (absurd · not_mem_nil)
    · intro seg' hseg'
      cases hseg'
      rfl
  · cases hstep

omit h

lemma snapshot_mem_program : Instr.snapshot ∈ DriverKind.persistIndexes.program := by
  decide

lemma save_mem_program (c : Component) : Instr.save c ∈ DriverKind.persistIndexes.program := by
  cases c <;> decide

lemma takes_program (index : IndexPersistence) (lsn : ℕ) (scanned : Both (List LoggedFrame))
    (safeLsn : ℕ) (f : LoggedFrame) :
    index.Takes ⟨lsn, DriverKind.persistIndexes.program, scanned, safeLsn⟩ f :=
  fun c => ⟨fun _ _ hsnap => absurd snapshot_mem_program hsnap,
    fun hsave => absurd (save_mem_program c) hsave⟩

/-- The lock is free when the LSN is read, so every frame in a closed segment is applied. -/
lemma inv_startPersist (h : s.Inv) (hstep : s.step .startPersist = some s') : s'.Inv := by
  simp only [step, rotationStep] at hstep
  split at hstep
  next v hrotation =>
    obtain ⟨t, ht, rfl⟩ := map_eq_some_iff.mp hstep
    obtain ⟨index, hindex, rfl⟩ := map_eq_some_iff.mp ht
    have hidle : ∀ d ∈ s.index.drivers, d.todo = [] := by
      intro d hd
      by_contra htodo
      obtain ⟨j, hj⟩ := mem_iff_getElem?.mp hd
      obtain ⟨v', hv'⟩ := h.busy j d hj htodo
      simp [hrotation] at hv'
    have hinv : index.Inv := h.index.startDriver ⟨hidle, fun hne => absurd rfl hne⟩ hindex
    simp only [IndexPersistence.step] at hindex
    obtain ⟨lsn, hlsn, rfl⟩ := map_eq_some_iff.mp hindex
    have hfree : s.index.holder = none := by
      simp only [IndexPersistence.startLsn] at hlsn
      split_ifs at hlsn with hnone
      exact isNone_iff_eq_none.mp hnone
    have hflipped : s.Flipped v := (h.rotation _ hrotation).sealed rfl
    have hheld : s.held = [] := held_of_rotation hrotation
    have hstored : ∀ f, s.Old v f → ∀ c, f ∈ s.index.stores.get c := by
      rintro f ⟨seg, hseg, -, hf⟩ c
      rcases h.onDisk f (mem_disk.mpr (.inl ⟨seg, hseg, hf⟩)) with hf | ⟨phase, -, hf⟩ | hf
      · exact h.index.stored f hf c
      · simp [hfree] at hf
      · exact h.nested.files c (hf c)
    refine ⟨hinv, ⟨h.nested.files, ?_⟩, ?_, h.mode, h.onDisk, fun f hf => h.buffered f ?_,
      h.acknowledged, h.completed, fun f hf => ?_, h.cycle, fun hc f phase hf => ?_, h.writing,
      h.retired, ?_⟩
    · intro d hd
      rcases mem_append.mp hd with hd | hd
      · exact h.nested.drivers d hd
      · rw [mem_singleton.mp hd]
        exact fun c _ _ hsnap => absurd snapshot_mem_program hsnap
    · intro j d hd htodo
      rcases lt_or_ge j s.index.drivers.length with hj | hj
      · dsimp only at hd
        rw [List.getElem?_append_left hj] at hd
        exact absurd (hidle d (mem_of_getElem? hd)) htodo
      · have hlt := (List.getElem?_eq_some_iff.mp hd).1
        simp only [length_append, length_singleton] at hlt
        exact ⟨v, by rw [Nat.le_antisymm (Nat.le_of_lt_succ hlt) hj]⟩
    · rw [mem_buffered] at hf ⊢
      rw [hheld]
      exact hf
    · have := h.members f hf
      rw [hheld] at this
      exact this
    · have := h.pending hc f phase hf
      rw [hheld] at this
      exact this
    · intro r hr
      cases hr
      refine ⟨by simp, fun _ _ => hflipped, fun i d hphase hd f hf => ⟨hstored f hf, ?_⟩⟩
      cases hphase
      simp only [List.getElem?_concat_length, some.injEq] at hd
      rw [← hd]
      exact takes_program _ _ _ _ f
  · cases hstep

lemma inv_runPersist (h : s.Inv) (hstep : s.step .runPersist = some s') : s'.Inv := by
  simp only [step, rotationStep] at hstep
  split at hstep
  next v i hrotation =>
    obtain ⟨index, hindex, rfl⟩ := map_eq_some_iff.mp hstep
    obtain ⟨d, d', hd, hdrivers, hnested, hsaves, hstores, hholder, hknown⟩ :=
      IndexPersistence.runDriver_spec h.index h.nested hindex
    have hlanded : ∀ f, s.Landed f → Landed { s with index := index } f := by
      rintro f (hf | hf | hf)
      · exact .inl hf
      · exact .inr (.inl hf)
      · exact .inr (.inr fun c => hsaves.grows c (hf c))
    refine ⟨h.index.runDriver hindex, hnested, ?_, h.mode, fun f hf => hknown f (h.onDisk f hf),
      fun f hf => hknown f (h.buffered f hf), fun f hf => hlanded f (h.acknowledged f hf),
      fun f hf => hlanded f (h.completed f hf),
      fun f hf => (h.members f hf).imp_right (Or.imp_right (hlanded f)),
      fun cy hcy f hf => (h.cycle cy hcy f hf).imp_right (hlanded f), ?_, ?_,
      fun f hf c => hsaves.grows c (h.retired f hf c), ?_⟩
    · intro j e he htodo
      dsimp only at he
      rw [hdrivers, List.getElem?_set] at he
      split_ifs at he with hij hlt
      · exact ⟨v, hij ▸ hrotation⟩
      · exact h.busy j e he htodo
    · intro hc f phase hf
      rw [hholder] at hf
      exact (h.pending hc f phase hf).imp_right (Or.imp_right (hlanded f))
    · intro entries hc f phase hf
      rw [hholder] at hf
      exact (h.writing entries hc f phase hf).imp_right (hlanded f)
    · intro r hr
      have hok := h.rotation r hr
      refine ⟨hok.sealed, hok.persisting, fun j e hphase he f hf => ?_⟩
      dsimp only at hr
      rw [hrotation] at hr
      cases hr
      cases hphase
      obtain ⟨hstored, htakes⟩ := hok.old i d rfl hd f hf
      dsimp only at he ⊢
      rw [hdrivers, List.getElem?_set_self (List.getElem?_eq_some_iff.mp hd).1] at he
      cases he
      exact ⟨fun c => hstores ▸ hstored c, hsaves.takes f hstored htakes⟩
  · cases hstep

lemma persistDriver_eq {d : Driver} (hr : s.rotation = some r) (hd : s.persistDriver = some d) :
    ∃ i, r.phase = .persisting i ∧ s.index.drivers[i]? = some d := by
  rw [persistDriver, hr, bind_some] at hd
  split at hd
  next i hphase => exact ⟨i, hphase, hd⟩
  all_goals cases hd

/-- Once `persist_indexes` has returned, both files hold what is to be retired. -/
lemma Inv.mem_file_of_old (h : s.Inv) {d : Driver} (hr : s.rotation = some r)
    (hd : s.persistDriver = some d) (hdone : d.todo = []) (hf : s.Old r.newVersion f)
    (c : Component) : f ∈ s.index.file c := by
  obtain ⟨i, hphase, hd⟩ := persistDriver_eq hr hd
  refine (((h.rotation r hr).old i d hphase hd f hf).2 c).2 ?_
  rw [hdone]
  exact not_mem_nil

lemma inv_retireSegment (h : s.Inv) {i : ℕ} (hstep : s.step (.retireSegment i) = some s') :
    s'.Inv := by
  simp only [step, rotationStep] at hstep
  split at hstep
  next v phase d seg hrotation hd hseg =>
    split_ifs at hstep with hguard
    cases hstep
    obtain ⟨hdone, hgen⟩ := hguard
    have hfile : ∀ f ∈ seg.frames, ∀ c, f ∈ s.index.file c := fun f hf =>
      h.mem_file_of_old hrotation hd hdone ⟨seg, mem_of_getElem? hseg, hgen, hf⟩
    have hlanded : ∀ f, s.Landed f → Landed { s with
        sealed := s.sealed.eraseIdx i, retired := s.retired ++ seg.frames } f := by
      rintro f (hf | hf | hf)
      · rcases mem_disk.mp hf with ⟨seg', hseg', hf⟩ | hf
        · rcases IndexPersistence.eq_or_mem_eraseIdx hseg hseg' with rfl | hseg'
          · exact .inr (.inr (hfile f hf))
          · exact .inl (mem_disk.mpr (.inl ⟨seg', hseg', hf⟩))
        · exact .inl (mem_disk.mpr (.inr hf))
      · exact .inr (.inl hf)
      · exact .inr (.inr hf)
    refine ⟨h.index, h.nested, h.busy, h.mode, fun f hf => h.onDisk f ?_, h.buffered,
      fun f hf => hlanded f (h.acknowledged f hf), fun f hf => hlanded f (h.completed f hf),
      fun f hf => (h.members f hf).imp_right (Or.imp_right (hlanded f)),
      fun cy hcy f hf => (h.cycle cy hcy f hf).imp_right (hlanded f),
      fun hc f phase hf => (h.pending hc f phase hf).imp_right (Or.imp_right (hlanded f)),
      fun entries hc f phase hf => (h.writing entries hc f phase hf).imp_right (hlanded f), ?_, ?_⟩
    · rw [mem_disk] at hf ⊢
      exact hf.imp_left (Exists.imp fun _ => And.imp_left (eraseIdx_subset ·))
    · intro f hf
      rcases mem_append.mp hf with hf | hf
      · exact h.retired f hf
      · exact hfile f hf
    · intro r hr
      have hok := h.rotation r hr
      refine ⟨hok.sealed, hok.persisting, fun j e hphase he f hf => hok.old j e hphase he f ?_⟩
      obtain ⟨seg', hseg', hf⟩ := hf
      exact ⟨seg', eraseIdx_subset hseg', hf⟩
  · cases hstep

lemma inv_endRotation (h : s.Inv) (hstep : s.step .endRotation = some s') : s'.Inv := by
  simp only [step, rotationStep] at hstep
  split at hstep
  next v phase d hrotation hd =>
    split_ifs at hstep with hguard
    cases hstep
    obtain ⟨i, hphase, hd⟩ := persistDriver_eq hrotation hd
    have hheld : s.held = [] := by
      rw [held_of_rotation hrotation]
      dsimp only at hphase ⊢
      rw [hphase]
      rfl
    refine ⟨h.index, h.nested, ?_, h.mode, h.onDisk, fun f hf => h.buffered f ?_, h.acknowledged,
      h.completed, fun f hf => ?_, h.cycle, fun hc f phase hf => ?_, h.writing, h.retired, by simp⟩
    · -- the driver of the rotation was the only busy one, and it is done
      intro j e he htodo
      obtain ⟨v', hv'⟩ := h.busy j e he htodo
      rw [hrotation] at hv'
      obtain ⟨-, rfl⟩ := Rotation.mk.inj (some.inj hv')
      cases hphase
      rw [some.inj (he.symm.trans hd)] at htodo
      exact absurd hguard.1 htodo
    · rw [mem_buffered] at hf ⊢
      rw [hheld]
      exact hf
    · have := h.members f hf
      rw [hheld] at this
      exact this
    · have := h.pending hc f phase hf
      rw [hheld] at this
      exact this
  · cases hstep

/-! ### Crashes -/

lemma survivors_crashed : s.crashed.survivors = s.disk :=
  take_length

lemma Inv.crashed (h : s.Inv) : s.crashed.Inv :=
  ⟨h.index.holder, h.index.inFlight, h.index.stored, h.index.tracker, h.index.manifest,
    h.index.strings, h.index.alone, fun d hd =>
      have hok := h.index.drivers d hd
      { hok with }⟩

/-- What has landed is there after a restart, unless the retention has deleted it. -/
lemma Inv.mem_stores_restart (h : s.Inv) (hf : s.Landed f) (hexpired : f ∉ s.expired)
    {loadedNodes : Bool} (hnodes : ¬ (loadedNodes = true ∧ s.index.files.graph.isNone = true))
    (c : Component) : f ∈ (s.crashed.restart loadedNodes).stores.get c := by
  rcases hf with hf | hf | hf
  · have hknown : s.crashed.Known f := h.onDisk f hf
    refine hknown.mem_stores_restart h.crashed ?_ hnodes c
    rw [survivors_crashed]
    exact hf
  · exact absurd hf hexpired
  · rw [IndexPersistence.stores_restart]
    exact mem_append_left _ (hf c)

lemma Inv.restart (h : s.Inv) {generation : ℕ} {loadedNodes : Bool}
    (hnodes : ¬ (loadedNodes = true ∧ s.index.files.graph.isNone = true)) :
    (s.restart generation loadedNodes).Inv := by
  have hdisk : (s.restart generation loadedNodes).disk = s.disk :=
    congrArg (flatMap _) (append_nil _)
  have hlanded : ∀ f, s.Landed f → (s.restart generation loadedNodes).Landed f := by
    rintro f (hf | hf | hf)
    · exact .inl (hdisk ▸ hf)
    · exact .inr (.inl hf)
    · exact .inr (.inr hf)
  refine ⟨h.crashed.restart hnodes, IndexPersistence.nested_restart loadedNodes, nofun, ?_,
    fun f hf => ?_, nofun, fun f hf => hlanded f (h.acknowledged f hf), nofun, nofun, nofun, nofun,
    nofun, h.retired, nofun⟩
  · cases hgrouped : s.grouped with
    | true => exact .inl ⟨hgrouped, rfl⟩
    | false => exact .inr ⟨hgrouped, rfl⟩
  · rw [hdisk] at hf
    have hknown : s.crashed.Known f := h.onDisk f hf
    refine hknown.restart h.crashed ?_ hnodes
    rw [survivors_crashed]
    exact hf

/-! ### Runs -/

lemma inv_init (grouped : Bool) (segmentsToRetain : ℕ) : (init grouped segmentsToRetain).Inv := by
  refine ⟨IndexPersistence.inv_init false, ⟨fun c => ?_, nofun⟩, nofun, ?_, nofun, nofun, nofun,
    nofun, nofun, nofun, nofun, nofun, nofun, nofun⟩
  · cases c <;> exact nil_subset _
  · cases grouped with
    | true => exact .inl ⟨rfl, rfl⟩
    | false => exact .inr ⟨rfl, rfl⟩

lemma inv_step {a : Action} (h : s.Inv) (hunheld : s.Unheld a) (hstep : s.step a = some s') :
    s'.Inv := by
  cases a with
  | appendBatch => exact inv_appendBatch h hstep
  | commitDrain => exact inv_commitDrain h hunheld hstep
  | commitWrite => exact inv_commitWrite h hstep
  | commitFlushed => exact inv_commitFlushed h hstep
  | register =>
    simp only [step, commitStep] at hstep
    split_ifs at hstep
    exact inv_stepIndex h (fun _ => IndexPersistence.moves_register h.index) hstep
  | applyChanges =>
    exact inv_stepIndex h (fun _ => IndexPersistence.moves_applyChanges h.index) hstep
  | release => exact inv_stepIndex h (fun _ => IndexPersistence.moves_release h.index) hstep
  | finish => exact inv_finish h hstep
  | openEpoch => exact inv_openEpoch h hunheld hstep
  | cycleWrite => exact inv_cycleWrite h hstep
  | cycleFinish => exact inv_cycleFinish h hstep
  | rollSegment =>
    cases hstep
    exact h.sealCurrent
  | startRotation => exact inv_startRotation h hstep
  | rotationDrain => exact inv_rotationDrain h hstep
  | rotationDrained => exact inv_rotationDrained h hstep
  | rotationWrite => exact inv_rotationWrite h hstep
  | sealAndReopen => exact inv_sealAndReopen h hstep
  | startPersist => exact inv_startPersist h hstep
  | runPersist => exact inv_runPersist h hstep
  | retireSegment => exact inv_retireSegment h hstep
  | endRotation => exact inv_endRotation h hstep
  | restart generation loadedNodes =>
    simp only [step] at hstep
    split_ifs at hstep with hnodes
    cases hstep
    exact h.restart hnodes

variable {grouped : Bool} {segmentsToRetain : ℕ} {as : List Action}

def synchronousCommit : List Action :=
  [.appendBatch 1, .commitDrain, .commitWrite, .commitFlushed, .register, .applyChanges, .release,
    .finish 0]

/-- A commit that waits for its epoch. -/
def waitingCommit : List Action := [.appendBatch 1, .register, .applyChanges, .release]

/-- `persist_indexes`, from its LSN to the manifest. -/
def persistRun : List Action :=
  .startPersist :: List.replicate DriverKind.persistIndexes.program.length .runPersist

/-- The rotation writes the frame of a waiting transaction and retires its segment. -/
def retiringRun : List Action :=
  waitingCommit ++ [Action.startRotation 1, .rotationDrain 0, .rotationDrained, .rotationWrite,
    .sealAndReopen] ++ persistRun ++ [Action.retireSegment 0]

/-- After that the epoch of the transaction ends. -/
def acknowledgingRun : List Action :=
  retiringRun ++ [Action.endRotation, .openEpoch, .cycleFinish, .finish 0]

/-- The retention deletes the segment of a commit before `persist_indexes` has run. -/
def expiringRun : List Action :=
  synchronousCommit ++ [Action.rollSegment] ++ synchronousCommit ++
    [Action.startRotation 1, .rotationDrained, .sealAndReopen, .restart 1 false, .startRotation 1,
      .rotationDrained, .sealAndReopen, .restart 1 false]

/-- The flusher closes an epoch on an empty drain while the rotation holds the frame. -/
def racingRun : List Action :=
  waitingCommit ++
    [Action.startRotation 1, .rotationDrain 0, .openEpoch, .cycleFinish, .finish 0, .restart 0 false]

end Aletheia.WalRotation
