import Aletheia.WalRotationSafety

/-!
# Commits and flushes beside a rotation

An acknowledged transaction has *landed*: its frame is in a segment, or both files hold the
transaction, or the retention by number has deleted its segment. The steps of the commits and of the
flushers keep this, unless a transaction is acknowledged on the strength of a drain that came after
the rotation's: frames that the rotation has taken out of the ring buffers are in memory only until
it writes them.
-/

namespace Aletheia.WalRotation

open List

open IndexPersistence (Known Nested Takes Advances Moves)

variable {s s' : WalRotation} {f g : LoggedFrame}

-- their equations are derived once, here
attribute [local simp] step commitStep flusherStep rotationStep

/-- A flush that acknowledges a transaction drains after the rotation has written what it took of
it. -/
def Unheld (s : WalRotation) : Action → Prop
  | .openEpoch => ∀ f ∈ s.epochMembers, f ∉ s.held
  | .commitDrain => ∀ h ∈ s.index.holder, h.1 ∉ s.held
  | _ => True

instance (s : WalRotation) (a : Action) : Decidable (s.Unheld a) := by
  unfold Unheld
  split <;> infer_instance

def Landed (s : WalRotation) (f : LoggedFrame) : Prop :=
  f ∈ s.disk ∨ f ∈ s.expired ∨ ∀ c, f ∈ s.index.file c

def CommitFlush.entries : CommitFlush → List LoggedFrame
  | .writing entries => entries
  | .pending | .done => []

/-- The frames that are on the way to a segment. -/
def buffered (s : WalRotation) : List LoggedFrame :=
  s.ring ++ CommitFlush.entries s.commitFlush ++ s.cycle.elim [] FlushCycle.entries ++ s.held

/-- Once the keyring is flipped, everything is written under the new generation. -/
def Flipped (s : WalRotation) (newVersion : ℕ) : Prop :=
  s.generation = newVersion ∧ ∀ seg ∈ s.active, seg.generation = newVersion

/-- The frames of the segments that are to be retired. -/
def Old (s : WalRotation) (newVersion : ℕ) (f : LoggedFrame) : Prop :=
  ∃ seg ∈ s.sealed, seg.generation ≠ newVersion ∧ f ∈ seg.frames

structure RotationOk (s : WalRotation) (r : Rotation) : Prop where
  sealed : r.phase = .sealed → s.Flipped r.newVersion
  persisting : ∀ i, r.phase = .persisting i → s.Flipped r.newVersion
  old : ∀ i d, r.phase = .persisting i → s.index.drivers[i]? = some d →
    ∀ f, s.Old r.newVersion f → (∀ c, f ∈ s.index.stores.get c) ∧ s.index.Takes d f

structure Inv (s : WalRotation) : Prop where
  index : s.index.Inv
  nested : s.index.Nested
  busy : ∀ j d, s.index.drivers[j]? = some d → d.todo ≠ [] →
    ∃ v, s.rotation = some ⟨v, .persisting j⟩
  mode : s.grouped = true ∧ s.commitFlush = .done ∨ s.grouped = false ∧ s.epochMembers = []
  onDisk : ∀ f ∈ s.disk, s.index.Known f
  buffered : ∀ f ∈ s.buffered, s.index.Known f
  acknowledged : ∀ f ∈ s.acknowledged, s.Landed f
  completed : ∀ f ∈ s.completed, s.Landed f
  members : ∀ f ∈ s.epochMembers, f ∈ s.ring ∨ f ∈ s.held ∨ s.Landed f
  cycle : ∀ cy ∈ s.cycle, ∀ f ∈ cy.members, f ∈ cy.entries ∨ s.Landed f
  pending : s.commitFlush = .pending → ∀ f phase, s.index.holder = some (f, phase) →
    f ∈ s.ring ∨ f ∈ s.held ∨ s.Landed f
  writing : ∀ entries, s.commitFlush = .writing entries →
    ∀ f phase, s.index.holder = some (f, phase) → f ∈ entries ∨ s.Landed f
  retired : ∀ f ∈ s.retired, ∀ c, f ∈ s.index.file c
  rotation : ∀ r ∈ s.rotation, s.RotationOk r

lemma mem_buffered : f ∈ s.buffered ↔ f ∈ s.ring ∨ f ∈ CommitFlush.entries s.commitFlush ∨
    f ∈ s.cycle.elim [] FlushCycle.entries ∨ f ∈ s.held := by
  simp only [WalRotation.buffered, mem_append, or_assoc]

lemma mem_disk : f ∈ s.disk ↔ (∃ seg ∈ s.sealed, f ∈ seg.frames) ∨
    ∃ seg ∈ s.active, f ∈ seg.frames := by
  simp only [disk, mem_flatMap, mem_append, Option.mem_toList, Option.mem_def, or_and_right,
    exists_or]

/-! ### The commits -/

section Moves

variable {index : IndexPersistence}

lemma file_advances (hs : Advances s.index index) (c : Component) :
    index.file c = s.index.file c := by
  rw [IndexPersistence.file, hs.files]
  rfl

lemma landed_advances (hs : Advances s.index index) :
    ∀ f, s.Landed f → Landed { s with index := index } f := by
  rintro f (hf | hf | hf)
  · exact .inl hf
  · exact .inr (.inl hf)
  · refine .inr (.inr fun c => ?_)
    rw [file_advances hs]
    exact hf c

lemma RotationOk.advances {r : Rotation} (h : s.RotationOk r) (hs : Advances s.index index) :
    RotationOk { s with index := index } r := by
  refine ⟨h.sealed, h.persisting, fun i d hphase hd f hf => ?_⟩
  rw [hs.drivers] at hd
  obtain ⟨hstored, htakes⟩ := h.old i d hphase hd f hf
  refine ⟨fun c => hs.grows c (hstored c), fun c => ⟨(htakes c).1, fun hsave => ?_⟩⟩
  rw [file_advances hs]
  exact (htakes c).2 hsave

lemma Inv.advances (h : s.Inv) (hs : Advances s.index index)
    (hpending : s.commitFlush = .pending → ∀ f phase, index.holder = some (f, phase) →
      f ∈ s.ring ∨ f ∈ s.held ∨ s.Landed f)
    (hwriting : ∀ entries, s.commitFlush = .writing entries →
      ∀ f phase, index.holder = some (f, phase) → f ∈ entries ∨ s.Landed f) :
    Inv { s with index := index } where
  index := h.index.commits hs.toCommits
  nested := h.nested.advances hs
  busy j d hd := h.busy j d (hs.drivers ▸ hd)
  mode := h.mode
  onDisk f hf := hs.known f (h.onDisk f hf)
  buffered f hf := hs.known f (h.buffered f hf)
  acknowledged f hf := landed_advances hs f (h.acknowledged f hf)
  completed f hf := landed_advances hs f (h.completed f hf)
  members f hf := (h.members f hf).imp_right (Or.imp_right (landed_advances hs f))
  cycle cy hcy f hf := (h.cycle cy hcy f hf).imp_right (landed_advances hs f)
  pending hc f phase hf :=
    (hpending hc f phase hf).imp_right (Or.imp_right (landed_advances hs f))
  writing entries hc f phase hf := (hwriting entries hc f phase hf).imp_right (landed_advances hs f)
  retired f hf c := by
    rw [file_advances hs]
    exact h.retired f hf c
  rotation r hr := (h.rotation r hr).advances hs

lemma Inv.moves (h : s.Inv) (hs : Moves s.index index) : Inv { s with index := index } := by
  refine h.advances hs.toAdvances ?_ ?_
  · intro hc f phase hf
    obtain ⟨phase', hf'⟩ := hs.same f phase hf
    exact h.pending hc f phase' hf'
  · intro entries hc f phase hf
    obtain ⟨phase', hf'⟩ := hs.same f phase hf
    exact h.writing entries hc f phase' hf'

end Moves

lemma inv_stepIndex (h : s.Inv) {a : IndexPersistence.Action}
    (hmoves : ∀ index, s.index.step a = some index → Moves s.index index)
    (hstep : s.stepIndex a = some s') : s'.Inv := by
  obtain ⟨index, hindex, rfl⟩ := Option.map_eq_some_iff.mp hstep
  exact h.moves (hmoves index hindex)

lemma inv_appendBatch (h : s.Inv) {operations : ℕ}
    (hstep : s.step (.appendBatch operations) = some s') : s'.Inv := by
  obtain ⟨index, hindex, rfl⟩ := Option.map_eq_some_iff.mp hstep
  have hs : Advances s.index index := IndexPersistence.advances_appendBatch h.index hindex
  simp only [IndexPersistence.step] at hindex
  split_ifs at hindex
  generalize hf : (⟨s.index.serial, s.index.nextLsn, operations⟩ : LoggedFrame) = f at *
  have hholder : index.holder = some (f, .appended) := by rw [← Option.some.inj hindex]
  have hknown : index.Known f := .inr (.inl ⟨.appended, by simp, hholder⟩)
  have hring : f ∈ s.ring ++ [f] := mem_append_right _ mem_cons_self
  refine ⟨h.index.commits hs.toCommits, h.nested.advances hs, fun j d hd => h.busy j d (hs.drivers ▸ hd),
    ?_, fun g hg => hs.known g (h.onDisk g hg), ?_, fun g hg => landed_advances hs g (h.acknowledged g hg),
    fun g hg => landed_advances hs g (h.completed g hg), ?_,
    fun cy hcy g hg => (h.cycle cy hcy g hg).imp_right (landed_advances hs g), ?_, ?_, ?_,
    fun r hr => ?_⟩
  · rcases h.mode with ⟨hgrouped, -⟩ | ⟨hgrouped, hmembers⟩
    · exact .inl ⟨hgrouped, if_pos hgrouped⟩
    · exact .inr ⟨hgrouped, by simp [hgrouped, hmembers]⟩
  · intro g hg
    rcases mem_buffered.mp hg with hg | hg | hg | hg
    · rcases mem_append.mp hg with hg | hg
      · exact hs.known g (h.buffered g (mem_buffered.mpr (.inl hg)))
      · rw [mem_singleton.mp hg]
        exact hknown
    · -- its own flush has not begun
      dsimp only at hg
      split_ifs at hg <;> cases hg
    · exact hs.known g (h.buffered g (mem_buffered.mpr (.inr (.inr (.inl hg)))))
    · exact hs.known g (h.buffered g (mem_buffered.mpr (.inr (.inr (.inr hg)))))
  · intro g hg
    have hg' : g ∈ s.epochMembers ∨ g = f := by
      dsimp only at hg
      split_ifs at hg
      · exact (mem_append.mp hg).imp_right mem_singleton.mp
      · exact .inl hg
    rcases hg' with hg | rfl
    · rcases h.members g hg with hg | hg | hg
      · exact .inl (mem_append_left _ hg)
      · exact .inr (.inl hg)
      · exact .inr (.inr (landed_advances hs g hg))
    · exact .inl hring
  · intro _ g phase hg
    rw [hholder] at hg
    cases hg
    exact .inl hring
  · intro entries hc
    dsimp only at hc
    split_ifs at hc
  · intro g hg c
    rw [file_advances hs]
    exact h.retired g hg c
  · have hok := (h.rotation r hr).advances hs
    exact ⟨hok.sealed, hok.persisting, hok.old⟩

/-! ### The segments -/

section Segments

variable {sealed : List KeyedSegment} {active : Option KeyedSegment} {id generation : ℕ}
  {expired : List LoggedFrame}

lemma Inv.resegment (h : s.Inv)
    (hs : s' = { s with
      sealed := sealed, active := active, currentSegmentId := id, generation := generation
      expired := expired })
    (hdisk : ∀ f ∈ s'.disk, s.index.Known f) (hlanded : ∀ f, s.Landed f → s'.Landed f)
    (hrotation : ∀ r ∈ s.rotation, s'.RotationOk r) : s'.Inv := by
  subst hs
  exact {
    index := h.index
    nested := h.nested
    busy := h.busy
    mode := h.mode
    onDisk := hdisk
    buffered := h.buffered
    acknowledged := fun f hf => hlanded f (h.acknowledged f hf)
    completed := fun f hf => hlanded f (h.completed f hf)
    members := fun f hf => (h.members f hf).imp_right (Or.imp_right (hlanded f))
    cycle := fun cy hcy f hf => (h.cycle cy hcy f hf).imp_right (hlanded f)
    pending := fun hc f phase hf => (h.pending hc f phase hf).imp_right (Or.imp_right (hlanded f))
    writing := fun entries hc f phase hf => (h.writing entries hc f phase hf).imp_right (hlanded f)
    retired := h.retired
    rotation := hrotation }

lemma RotationOk.reopen {r : Rotation} (h : s.RotationOk r) (hindex : s'.index = s.index)
    (hsealed : s'.sealed = s.sealed) (hflipped : s.Flipped r.newVersion → s'.Flipped r.newVersion) :
    s'.RotationOk r where
  sealed hphase := hflipped (h.sealed hphase)
  persisting i hphase := hflipped (h.persisting i hphase)
  old i d hphase hd f hf := by
    rw [hindex] at hd ⊢
    rw [Old, hsealed] at hf
    exact h.old i d hphase hd f hf

end Segments

lemma ensureSegmentOpen_spec (s : WalRotation) : ∃ seg id,
    s.ensureSegmentOpen = { s with active := some seg, currentSegmentId := id } ∧
      seg.frames = s.active.elim [] KeyedSegment.frames ∧
      seg.generation = s.active.elim s.generation KeyedSegment.generation := by
  unfold ensureSegmentOpen
  split
  next seg hseg => exact ⟨seg, s.currentSegmentId, by rw [← hseg], by simp [hseg], by simp [hseg]⟩
  next hnone => exact ⟨_, _, rfl, by simp [hnone], by simp [hnone]⟩

lemma Flipped.open {v id : ℕ} {seg : KeyedSegment} (h : s.Flipped v)
    (hgen : seg.generation = s.active.elim s.generation KeyedSegment.generation) :
    Flipped { s with active := some seg, currentSegmentId := id } v := by
  refine ⟨h.1, fun seg' hseg' => ?_⟩
  cases hseg'
  rw [hgen]
  cases hactive : s.active with
  | none => exact h.1
  | some seg' => exact h.2 seg' hactive

lemma Inv.ensureSegmentOpen (h : s.Inv) : s.ensureSegmentOpen.Inv := by
  obtain ⟨seg, id, hs, hframes, hgen⟩ := s.ensureSegmentOpen_spec
  have hdisk : ∀ f, f ∈ s.ensureSegmentOpen.disk ↔ f ∈ s.disk := by
    intro f
    rw [hs, mem_disk, mem_disk]
    cases hactive : s.active <;> simp [hframes, hactive]
  refine h.resegment hs (fun f hf => h.onDisk f ((hdisk f).mp hf)) ?_ ?_
  · rintro f (hf | hf | hf)
    · exact .inl ((hdisk f).mpr hf)
    · exact .inr (.inl (by rw [hs]; exact hf))
    · exact .inr (.inr (by rw [hs]; exact hf))
  · intro r hr
    rw [hs]
    exact (h.rotation r hr).reopen rfl rfl fun hflipped => hflipped.open hgen

lemma write_spec (s : WalRotation) (f : LoggedFrame) : ∃ seg id,
    s.write f = { s with active := some seg, currentSegmentId := id } ∧
      seg.frames = s.active.elim [] KeyedSegment.frames ++ [f] ∧
      seg.generation = s.active.elim s.generation KeyedSegment.generation := by
  obtain ⟨seg, id, hs, hframes, hgen⟩ := s.ensureSegmentOpen_spec
  refine ⟨{ seg with frames := seg.frames ++ [f] }, id, ?_, ?_, hgen⟩
  · rw [write, hs]
    rfl
  · rw [← hframes]

lemma mem_disk_write : g ∈ (s.write f).disk ↔ g ∈ s.disk ∨ g = f := by
  obtain ⟨seg, id, hs, hframes, -⟩ := s.write_spec f
  rw [hs, mem_disk, mem_disk]
  cases hactive : s.active <;> simp [hframes, hactive, or_assoc]

lemma Inv.write (h : s.Inv) (hf : s.index.Known f) : (s.write f).Inv := by
  obtain ⟨seg, id, hs, hframes, hgen⟩ := s.write_spec f
  refine h.resegment hs ?_ ?_ ?_
  · intro g hg
    rcases mem_disk_write.mp hg with hg | rfl
    · exact h.onDisk g hg
    · exact hf
  · rintro g (hg | hg | hg)
    · exact .inl (mem_disk_write.mpr (.inl hg))
    · exact .inr (.inl (by rw [hs]; exact hg))
    · exact .inr (.inr (by rw [hs]; exact hg))
  · intro r hr
    rw [hs]
    exact (h.rotation r hr).reopen rfl rfl fun hflipped => hflipped.open hgen

lemma landed_write : (s.write f).Landed f := .inl (mem_disk_write.mpr (.inr rfl))

lemma mem_disk_or_expired_sealCurrent (hf : f ∈ s.disk) :
    f ∈ s.sealCurrent.disk ∨ f ∈ s.sealCurrent.expired := by
  obtain ⟨seg, hseg, hf⟩ := mem_flatMap.mp hf
  by_cases hid : s.currentSegmentId - s.segmentsToRetain ≤ seg.id
  · refine .inl (mem_disk.mpr (.inl ⟨seg, ?_, hf⟩))
    exact mem_filter.mpr ⟨hseg, by simpa using hid⟩
  · refine .inr (mem_append_right _ (mem_flatMap.mpr ⟨seg, ?_, hf⟩))
    exact mem_filter.mpr ⟨hseg, decide_eq_true (Nat.lt_of_not_le hid)⟩

lemma old_sealCurrent {v : ℕ} (hflipped : s.Flipped v) (hf : s.sealCurrent.Old v f) : s.Old v f := by
  obtain ⟨seg, hseg, hgen, hf⟩ := hf
  rcases mem_append.mp (mem_of_mem_filter hseg) with hseg | hseg
  · exact ⟨seg, hseg, hgen, hf⟩
  · exact absurd (hflipped.2 seg (Option.mem_toList.mp hseg)) hgen

lemma Inv.sealCurrent (h : s.Inv) : s.sealCurrent.Inv := by
  refine h.resegment rfl ?_ ?_ ?_
  · intro f hf
    rcases mem_disk.mp hf with ⟨seg, hseg, hf⟩ | ⟨seg, hseg, -⟩
    · exact h.onDisk f (mem_flatMap.mpr ⟨seg, mem_of_mem_filter hseg, hf⟩)
    · cases hseg
  · rintro f (hf | hf | hf)
    · exact (mem_disk_or_expired_sealCurrent hf).imp_right .inl
    · exact .inr (.inl (mem_append_left _ hf))
    · exact .inr (.inr hf)
  · intro r hr
    have hok := h.rotation r hr
    refine ⟨fun hphase => ⟨(hok.sealed hphase).1, nofun⟩,
      fun i hphase => ⟨(hok.persisting i hphase).1, nofun⟩, fun i d hphase hd f hf => ?_⟩
    exact hok.old i d hphase hd f (old_sealCurrent (hok.persisting i hphase) hf)
/-! ### The flushes -/

variable (h : s.Inv)

include h

lemma Inv.requeue {ring : List LoggedFrame} {commitFlush : CommitFlush}
    {epochMembers completed acknowledged : List LoggedFrame} {cycle : Option FlushCycle}
    (hs : s' = { s with
      ring := ring, commitFlush := commitFlush, epochMembers := epochMembers, cycle := cycle
      completed := completed, acknowledged := acknowledged })
    (hmode : s.grouped = true ∧ commitFlush = .done ∨ s.grouped = false ∧ epochMembers = [])
    (hbuffered : ∀ f ∈ s'.buffered, f ∈ s.buffered) (hacknowledged : ∀ f ∈ acknowledged, s.Landed f)
    (hcompleted : ∀ f ∈ completed, s.Landed f)
    (hmembers : ∀ f ∈ epochMembers, f ∈ ring ∨ f ∈ s.held ∨ s.Landed f)
    (hcycle : ∀ cy ∈ cycle, ∀ f ∈ cy.members, f ∈ cy.entries ∨ s.Landed f)
    (hpending : commitFlush = .pending → ∀ f phase, s.index.holder = some (f, phase) →
      f ∈ ring ∨ f ∈ s.held ∨ s.Landed f)
    (hwriting : ∀ entries, commitFlush = .writing entries →
      ∀ f phase, s.index.holder = some (f, phase) → f ∈ entries ∨ s.Landed f) : s'.Inv := by
  subst hs
  exact {
    index := h.index
    nested := h.nested
    busy := h.busy
    mode := hmode
    onDisk := h.onDisk
    buffered := fun f hf => h.buffered f (hbuffered f hf)
    acknowledged := hacknowledged
    completed := hcompleted
    members := hmembers
    cycle := hcycle
    pending := hpending
    writing := hwriting
    retired := h.retired
    rotation := fun r hr =>
      ⟨(h.rotation r hr).sealed, (h.rotation r hr).persisting, (h.rotation r hr).old⟩ }

lemma inv_commitDrain (hunheld : s.Unheld .commitDrain) (hstep : s.step .commitDrain = some s') :
    s'.Inv := by
  simp only [step, commitStep] at hstep
  split at hstep
  next hpending =>
    cases hstep
    have hmode := h.mode.resolve_left fun hm => by simp [hpending] at hm
    refine h.requeue rfl (.inr hmode) ?_ h.acknowledged h.completed ?_ h.cycle nofun ?_
    · intro f hf
      rw [mem_buffered] at hf ⊢
      rcases hf with hf | hf | hf
      · cases hf
      · exact .inl hf
      · exact .inr (.inr hf)
    · simp [hmode.2]
    · intro entries hentries f phase hf
      cases hentries
      rcases h.pending hpending f phase hf with hring | hheld | hlanded
      · exact .inl hring
      · exact absurd hheld (hunheld _ hf)
      · exact .inr hlanded
  all_goals cases hstep

lemma inv_commitWrite (hstep : s.step .commitWrite = some s') : s'.Inv := by
  simp only [step, commitStep] at hstep
  split at hstep
  next f rest hwriting =>
    cases hstep
    have hknown : s.index.Known f := h.buffered f (mem_buffered.mpr (.inr (.inl (by
      rw [hwriting]
      exact mem_cons_self))))
    have hw := h.write hknown
    obtain ⟨seg, id, hs, -, -⟩ := s.write_spec f
    have hc : (s.write f).commitFlush = .writing (f :: rest) := by rw [hs]; exact hwriting
    have hmode := hw.mode.resolve_left fun hm => by simp [hc] at hm
    refine hw.requeue rfl (.inr hmode) ?_ hw.acknowledged hw.completed hw.members hw.cycle nofun ?_
    · intro g hg
      rw [mem_buffered] at hg ⊢
      refine hg.imp_right (Or.imp_left fun hg => ?_)
      rw [hc]
      exact mem_cons_of_mem _ hg
    · intro entries hentries g phase hg
      cases hentries
      rcases hw.writing _ hc g phase hg with hg | hg
      · rcases mem_cons.mp hg with rfl | hg
        · exact .inr landed_write
        · exact .inl hg
      · exact .inr hg
  all_goals cases hstep

lemma inv_commitFlushed (hstep : s.step .commitFlushed = some s') : s'.Inv := by
  simp only [step, commitStep] at hstep
  split at hstep
  next f phase hwriting hholder =>
    cases hstep
    have hmode := h.mode.resolve_left fun hm => by simp [hwriting] at hm
    refine h.requeue rfl (.inr hmode) ?_ ?_ h.completed h.members h.cycle nofun nofun
    · intro g hg
      rw [mem_buffered] at hg ⊢
      refine hg.imp_right (Or.imp_left fun hg => ?_)
      cases hg
    · intro g hg
      rcases mem_cons.mp hg with rfl | hg
      · exact (h.writing [] hwriting g phase hholder).resolve_left nofun
      · exact h.acknowledged g hg
  · cases hstep

lemma inv_finish {i : ℕ} (hstep : s.step (.finish i) = some s') : s'.Inv := by
  have hindex : ∀ {t}, s.stepIndex (.finish i true) = some t → t.Inv :=
    inv_stepIndex h fun index => IndexPersistence.moves_finish h.index
  simp only [step, commitStep] at hstep
  split at hstep
  next f hf =>
    split_ifs at hstep with hgrouped hcompleted
    · obtain ⟨t, ht, rfl⟩ := Option.map_eq_some_iff.mp hstep
      have hinv := hindex ht
      obtain ⟨index, -, rfl⟩ := Option.map_eq_some_iff.mp ht
      refine hinv.requeue rfl hinv.mode (fun f hf => hf) ?_ hinv.completed hinv.members hinv.cycle
        hinv.pending hinv.writing
      intro g hg
      rcases mem_cons.mp hg with rfl | hg
      · exact hinv.completed g hcompleted
      · exact hinv.acknowledged g hg
    · exact hindex hstep
  · cases hstep

lemma inv_openEpoch (hunheld : s.Unheld .openEpoch) (hstep : s.step .openEpoch = some s') :
    s'.Inv := by
  simp only [step, flusherStep] at hstep
  split_ifs at hstep with hguard
  cases hstep
  have hmode := h.mode.resolve_right fun hm => by simp [hguard.1] at hm
  refine h.requeue rfl (.inl hmode) ?_ h.acknowledged h.completed nofun ?_ ?_ ?_
  · intro f hf
    rw [mem_buffered] at hf ⊢
    rcases hf with hf | hf | hf | hf
    · cases hf
    · exact .inr (.inl hf)
    · exact .inl hf
    · exact .inr (.inr (.inr hf))
  · intro cy hcy f hf
    cases hcy
    rcases h.members f hf with hring | hheld | hlanded
    · exact .inl hring
    · exact absurd hheld (hunheld f hf)
    · exact .inr hlanded
  · exact fun hc => by simp [hmode.2] at hc
  · exact fun entries hc => by simp [hmode.2] at hc

lemma inv_cycleWrite (hstep : s.step .cycleWrite = some s') : s'.Inv := by
  simp only [step, flusherStep] at hstep
  split at hstep
  next f rest members hcycle =>
    cases hstep
    have hknown : s.index.Known f := h.buffered f (mem_buffered.mpr (.inr (.inr (.inl (by
      rw [hcycle]
      exact mem_cons_self)))))
    have hw := h.write hknown
    obtain ⟨seg, id, hs, -, -⟩ := s.write_spec f
    have hc : (s.write f).cycle = some ⟨f :: rest, members⟩ := by rw [hs]; exact hcycle
    refine hw.requeue rfl hw.mode ?_ hw.acknowledged hw.completed hw.members ?_ hw.pending hw.writing
    · intro g hg
      rw [mem_buffered] at hg ⊢
      refine hg.imp_right (Or.imp_right (Or.imp_left fun hg => ?_))
      rw [hc]
      exact mem_cons_of_mem _ hg
    · intro cy hcy g hg
      cases hcy
      rcases hw.cycle _ hc g hg with hg | hg
      · rcases mem_cons.mp hg with rfl | hg
        · exact .inr landed_write
        · exact .inl hg
      · exact .inr hg
  · cases hstep

lemma inv_cycleFinish (hstep : s.step .cycleFinish = some s') : s'.Inv := by
  simp only [step, flusherStep] at hstep
  split at hstep
  next members hcycle =>
    cases hstep
    refine h.requeue rfl h.mode ?_ h.acknowledged ?_ h.members nofun h.pending h.writing
    · intro g hg
      rw [mem_buffered] at hg ⊢
      refine hg.imp_right (Or.imp_right (Or.imp_left fun hg => ?_))
      cases hg
    · intro g hg
      rcases mem_append.mp hg with hg | hg
      · exact h.completed g hg
      · exact (h.cycle _ hcycle g hg).resolve_left nofun
  · cases hstep

end Aletheia.WalRotation
