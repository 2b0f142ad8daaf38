import Aletheia.ManifestSafety
import Aletheia.WalRotation

/-!
# What a rotation of the log's key may delete

A frame in a closed segment belongs to a transaction that has been applied by the time
`persist_indexes` holds the commit lock, since that lock is held from the append to the apply. So the
snapshot holds every frame of the segments that were closed before, whatever the LSN in the manifest
is, and deleting them loses nothing.
-/

namespace Aletheia

open List

namespace IndexPersistence

variable {s s' : IndexPersistence} {d : Driver} {f : LoggedFrame} {loadedNodes : Bool}

/-- The transaction is applied or about to be, or both files hold it. -/
def Known (s : IndexPersistence) (f : LoggedFrame) : Prop :=
  s.Applied f ∨ (∃ phase, phase ≠ .applied ∧ s.holder = some (f, phase)) ∨ ∀ c, f ∈ s.file c

/-- A step of a commit that does not fail. -/
structure Advances (s s' : IndexPersistence) : Prop extends Commits s s' where
  grows : ∀ c, s.stores.get c ⊆ s'.stores.get c
  known : ∀ f, s.Known f → s'.Known f

/-- A step of the transaction that holds the lock, or of one that has released it. -/
structure Moves (s s' : IndexPersistence) : Prop extends Advances s s' where
  same : ∀ f phase, s'.holder = some (f, phase) → ∃ phase', s.holder = some (f, phase')

lemma known_of_files (hfiles : s'.files = s.files) (happlied : ∀ f, s.Applied f → s'.Applied f)
    (hholder : ∀ f phase, phase ≠ .applied → s.holder = some (f, phase) → s'.Known f) :
    ∀ f, s.Known f → s'.Known f := by
  rintro f (hf | ⟨phase, hphase, hf⟩ | hf)
  · exact .inl (happlied f hf)
  · exact hholder f phase hphase hf
  · refine .inr (.inr fun c => ?_)
    rw [file, hfiles]
    exact hf c

lemma advances_appendBatch (h : s.Inv) {operations : ℕ}
    (hstep : s.step (.appendBatch operations) = some s') : Advances s s' := by
  have hcommits : Commits s s' := commits_appendBatch h hstep
  simp only [step] at hstep
  split_ifs at hstep with hfree
  cases hstep
  have hnone : s.holder = none := Option.isNone_iff_eq_none.mp hfree
  refine ⟨hcommits, fun c => List.Subset.refl _, known_of_files rfl ?_ ?_⟩
  · rintro f (hf | hf | hf)
    · exact .inl hf
    · exact .inr (.inl hf)
    · simp [hnone] at hf
  · intro f phase _ hf
    simp [hnone] at hf

lemma eq_or_mem_eraseIdx {α : Type} {l : List α} {i : ℕ} {a b : α} (hi : l[i]? = some a)
    (hb : b ∈ l) : b = a ∨ b ∈ l.eraseIdx i := by
  obtain ⟨j, hj⟩ := mem_iff_getElem?.mp hb
  by_cases hij : j = i
  · rw [hij, hi] at hj
    exact .inl (Option.some.inj hj).symm
  · exact .inr (mem_eraseIdx_iff_getElem?.mpr ⟨j, hij, hj⟩)

lemma moves_register (h : s.Inv) (hstep : s.step .register = some s') : Moves s s' := by
  have hcommits : Commits s s' := commits_register h hstep
  simp only [step] at hstep
  split at hstep
  next g hg =>
    cases hstep
    refine ⟨⟨hcommits, fun c => List.Subset.refl _, known_of_files rfl ?_ ?_⟩, ?_⟩
    · rintro f (hf | hf | hf)
      · exact .inl hf
      · exact .inr (.inl hf)
      · simp [hg] at hf
    · intro f phase _ hf
      rw [hg] at hf
      cases hf
      exact .inr (.inl ⟨.registered, by simp, rfl⟩)
    · intro f phase hf
      cases hf
      exact ⟨_, hg⟩
  · cases hstep

lemma moves_applyChanges (h : s.Inv) (hstep : s.step (.applyChanges true) = some s') :
    Moves s s' := by
  have hcommits : Commits s s' := commits_applyChanges h hstep
  simp only [step, if_true] at hstep
  split at hstep
  next g hg =>
    cases hstep
    refine ⟨⟨hcommits, ?_, known_of_files rfl ?_ ?_⟩, ?_⟩
    · intro c f hf
      cases c <;> exact mem_cons_of_mem _ hf
    · rintro f (hf | hf | hf)
      · exact .inl hf
      · exact .inr (.inl hf)
      · simp [hg] at hf
    · intro f phase _ hf
      rw [hg] at hf
      cases hf
      exact .inl (.inr (.inr rfl))
    · intro f phase hf
      cases hf
      exact ⟨_, hg⟩
  · cases hstep

lemma moves_release (h : s.Inv) (hstep : s.step .release = some s') : Moves s s' := by
  have hcommits : Commits s s' := commits_release h hstep
  simp only [step] at hstep
  split at hstep
  next g hg =>
    cases hstep
    refine ⟨⟨hcommits, fun c => List.Subset.refl _, known_of_files rfl ?_ ?_⟩, by simp⟩
    · rintro f (hf | hf | hf)
      · exact .inl hf
      · exact .inr (.inl (mem_append_left _ hf))
      · rw [hg] at hf
        cases hf
        exact .inr (.inl (mem_append_right _ mem_cons_self))
    · intro f phase hphase hf
      rw [hg] at hf
      exact absurd (Prod.mk.inj (Option.some.inj hf)).2.symm hphase
  · cases hstep

lemma moves_finish (h : s.Inv) {i : ℕ} (hstep : s.step (.finish i true) = some s') :
    Moves s s' := by
  have hcommits : Commits s s' := commits_finish h hstep
  simp only [step, if_true] at hstep
  split at hstep
  next g hg =>
    split_ifs at hstep
    cases hstep
    refine ⟨⟨hcommits, fun c => List.Subset.refl _, known_of_files rfl ?_ ?_⟩,
      fun f phase hf => ⟨phase, hf⟩⟩
    · rintro f (hf | hf | hf)
      · exact .inl (mem_cons_of_mem _ hf)
      · rcases eq_or_mem_eraseIdx hg hf with rfl | hf
        · exact .inl mem_cons_self
        · exact .inr (.inl hf)
      · exact .inr (.inr hf)
    · exact fun f phase hphase hf => .inr (.inl ⟨phase, hphase, hf⟩)
  · cases hstep

/-! ### What the files keep -/

/-- What the driver has scanned and not yet saved contains what the file holds. -/
def Rescans (s : IndexPersistence) (d : Driver) : Prop :=
  ∀ c, .save c ∈ d.todo → .scan c ∉ d.todo → .snapshot ∉ d.todo →
    s.file c ⊆ d.scanned.get c ∧ d.scanned.get c ⊆ s.stores.get c

/-- The files never lose a transaction, since the stores never do. -/
structure Nested (s : IndexPersistence) : Prop where
  files : ∀ c, s.file c ⊆ s.stores.get c
  drivers : ∀ d ∈ s.drivers, s.Rescans d

/-- The driver takes `f` along: it is in the scan until the file is saved, and then in the file. -/
def Takes (s : IndexPersistence) (d : Driver) (f : LoggedFrame) : Prop :=
  ∀ c, (.save c ∈ d.todo → .scan c ∉ d.todo → .snapshot ∉ d.todo → f ∈ d.scanned.get c) ∧
    (.save c ∉ d.todo → f ∈ s.file c)

lemma Nested.advances (h : s.Nested) (hs : Advances s s') : s'.Nested := by
  have hfile : ∀ c, s'.file c = s.file c := fun c => by rw [file, hs.files]; rfl
  refine ⟨fun c => ?_, fun d hd c hsave hscan hsnap => ?_⟩
  · rw [hfile]
    exact List.Subset.trans (h.files c) (hs.grows c)
  · rw [hs.drivers] at hd
    rw [hfile]
    exact (h.drivers d hd c hsave hscan hsnap).imp_right fun hsub =>
      List.Subset.trans hsub (hs.grows c)

/-- What an instruction of the driver `d` does to the files, and `d'` is what is left of it. -/
structure Saves (s s' : IndexPersistence) (d d' : Driver) : Prop where
  grows : ∀ c, s.file c ⊆ s'.file c
  files : ∀ c, s'.file c ⊆ s.stores.get c
  rescans : ∀ c, .save c ∈ d'.todo → .scan c ∉ d'.todo → .snapshot ∉ d'.todo →
    s'.file c ⊆ d'.scanned.get c ∧ d'.scanned.get c ⊆ s.stores.get c
  takes : ∀ f, (∀ c, f ∈ s.stores.get c) → s.Takes d f → s'.Takes d' f

section Exec

variable {instr : Instr} {rest : List Instr} {c : Component}

lemma Rescans.tail (h : s.Rescans d) (htodo : d.todo = instr :: rest) (hsave : .save c ∈ rest)
    (hscan : .scan c ∉ rest) (hsnap : .snapshot ∉ rest) (hne : .scan c ≠ instr)
    (hne' : .snapshot ≠ instr) : s.file c ⊆ d.scanned.get c ∧ d.scanned.get c ⊆ s.stores.get c := by
  refine h c ?_ ?_ ?_ <;> rw [htodo]
  · exact mem_cons_of_mem _ hsave
  · exact not_mem_cons_of_ne_of_not_mem hne hscan
  · exact not_mem_cons_of_ne_of_not_mem hne' hsnap

lemma Takes.scanned_tail (h : s.Takes d f) (htodo : d.todo = instr :: rest)
    (hsave : .save c ∈ rest) (hscan : .scan c ∉ rest) (hsnap : .snapshot ∉ rest)
    (hne : .scan c ≠ instr) (hne' : .snapshot ≠ instr) : f ∈ d.scanned.get c := by
  refine (h c).1 ?_ ?_ ?_ <;> rw [htodo]
  · exact mem_cons_of_mem _ hsave
  · exact not_mem_cons_of_ne_of_not_mem hne hscan
  · exact not_mem_cons_of_ne_of_not_mem hne' hsnap

lemma Takes.saved_tail (h : s.Takes d f) (htodo : d.todo = instr :: rest)
    (hsave : .save c ∉ rest) (hne : .save c ≠ instr) : f ∈ s.file c := by
  refine (h c).2 ?_
  rw [htodo]
  exact not_mem_cons_of_ne_of_not_mem hne hsave

lemma saves_of_same (hn : s.Nested) (hr : s.Rescans d) (htodo : d.todo = instr :: rest)
    (hscan : ∀ c, .scan c ≠ instr) (hsnap : .snapshot ≠ instr) (hsave : ∀ c, .save c ≠ instr)
    {d' : Driver} (hfiles : s'.files = s.files) (hrest : d'.todo = rest)
    (hscanned : d'.scanned = d.scanned) : Saves s s' d d' := by
  have hfile : ∀ c, s'.file c = s.file c := fun c => by rw [file, hfiles]; rfl
  refine ⟨fun c => by rw [hfile]; exact List.Subset.refl _, fun c => by rw [hfile]; exact hn.files c,
    fun c h1 h2 h3 => ?_, fun f _ hf c => ⟨fun h1 h2 h3 => ?_, fun h1 => ?_⟩⟩
  · rw [hrest] at h1 h2 h3
    rw [hfile, hscanned]
    exact hr.tail htodo h1 h2 h3 (hscan c) hsnap
  · rw [hrest] at h1 h2 h3
    rw [hscanned]
    exact hf.scanned_tail htodo h1 h2 h3 (hscan c) hsnap
  · rw [hrest] at h1
    rw [hfile]
    exact hf.saved_tail htodo h1 (hsave c)

lemma saves_exec (hn : s.Nested) (hok : s.DriverOk d) (hr : s.Rescans d)
    (htodo : d.todo = instr :: rest) :
    Saves s (s.exec { d with todo := rest } instr).1 d (s.exec { d with todo := rest } instr).2 := by
  cases instr with
  | snapshot =>
    refine ⟨fun c => List.Subset.refl _, hn.files, fun c _ _ _ => ⟨hn.files c, List.Subset.refl _⟩,
      fun f hstored hf c => ⟨fun _ _ _ => hstored c, fun h1 => ?_⟩⟩
    exact hf.saved_tail htodo h1 (by simp)
  | scan c =>
    refine ⟨fun c => List.Subset.refl _, hn.files, fun c' h1 h2 h3 => ?_,
      fun f hstored hf c' => ⟨fun h1 h2 h3 => ?_, fun h1 => ?_⟩⟩
    · simp only [exec, Both.get_set]
      split_ifs with hc
      · subst hc
        exact ⟨hn.files c', List.Subset.refl _⟩
      · exact hr.tail htodo h1 h2 h3 (fun heq => hc (Instr.scan.inj heq)) (by simp)
    · simp only [exec, Both.get_set]
      split_ifs with hc
      · subst hc
        exact hstored c'
      · exact hf.scanned_tail htodo h1 h2 h3 (fun heq => hc (Instr.scan.inj heq)) (by simp)
    · exact hf.saved_tail htodo h1 (by simp)
  | save c =>
    have hscan : .scan c ∉ Instr.save c :: rest := by
      simpa using hok.not_mem htodo (by simp [Instr.needs])
    have hsnap : .snapshot ∉ Instr.save c :: rest := by
      simpa using hok.not_mem htodo (by simp [Instr.needs])
    have hmem : .save c ∈ d.todo := htodo ▸ mem_cons_self
    obtain ⟨hsub, hsub'⟩ := hr c hmem (htodo ▸ hscan) (htodo ▸ hsnap)
    have hfile : ∀ c', (s.exec { d with todo := rest } (.save c)).1.file c' =
        if c' = c then d.scanned.get c else s.file c' := by
      intro c'
      simp only [exec, file, Both.get_set]
      split_ifs <;> rfl
    refine ⟨fun c' => ?_, fun c' => ?_, fun c' h1 h2 h3 => ?_,
      fun f _ hf c' => ⟨fun h1 h2 h3 => ?_, fun h1 => ?_⟩⟩
    · rw [hfile]
      split_ifs with hc
      · subst hc
        exact hsub
      · exact List.Subset.refl _
    · rw [hfile]
      split_ifs with hc
      · subst hc
        exact hsub'
      · exact hn.files c'
    · rw [hfile]
      split_ifs with hc
      · subst hc
        exact ⟨List.Subset.refl _, hsub'⟩
      · exact hr.tail htodo h1 h2 h3 (by simp) (by simp)
    · exact hf.scanned_tail htodo h1 h2 h3 (by simp) (by simp)
    · rw [hfile]
      split_ifs with hc
      · subst hc
        exact (hf c').1 hmem (htodo ▸ hscan) (htodo ▸ hsnap)
      · exact hf.saved_tail htodo h1 fun heq => hc (Instr.save.inj heq)
  | saveStringInterner | updateLsn | updateVectorLsn | updateStringLsn | getSafeManifestLsn
  | saveManifest => exact saves_of_same hn hr htodo (by simp) (by simp) (by simp) rfl rfl rfl

end Exec

lemma runDriver_spec (h : s.Inv) (hn : s.Nested) {i : ℕ} (hstep : s.step (.runDriver i) = some s') :
    ∃ d d', s.drivers[i]? = some d ∧ s'.drivers = s.drivers.set i d' ∧
      s'.Nested ∧ Saves s s' d d' ∧ s'.stores = s.stores ∧
      s'.holder = s.holder ∧ ∀ f, s.Known f → s'.Known f := by
  simp only [step] at hstep
  split at hstep
  next d hd =>
    split at hstep
    next instr rest htodo =>
      cases hstep
      obtain ⟨hsame, -, -⟩ := sameTransactions_exec s { d with todo := rest } instr
      have hmem : d ∈ s.drivers := mem_of_getElem? hd
      have hsaves := saves_exec hn (h.drivers d hmem) (hn.drivers d hmem) htodo
      refine ⟨d, _, hd, by rw [← hsame.drivers], ⟨?_, ?_⟩,
        ⟨hsaves.grows, hsaves.files, hsaves.rescans, hsaves.takes⟩, hsame.stores, hsame.holder, ?_⟩
      · dsimp only
        rw [hsame.stores]
        exact hsaves.files
      · intro e he c hsave hscan hsnap
        dsimp only
        rw [hsame.stores]
        obtain ⟨j, hj⟩ := mem_iff_getElem?.mp he
        rw [hsame.drivers, List.getElem?_set] at hj
        split_ifs at hj with hij hlt
        · cases hj
          exact hsaves.rescans c hsave hscan hsnap
        · -- the other drivers have nothing to do
          refine absurd (h.alone i j d e hd hj (by simp [htodo]) ?_) hij
          exact ne_nil_of_mem hsave
      · rintro f (hf | ⟨phase, hphase, hf⟩ | hf)
        · refine .inl ?_
          rw [Applied] at hf ⊢
          dsimp only
          rw [hsame.committed, hsame.waiting, hsame.holder]
          exact hf
        · exact .inr (.inl ⟨phase, hphase, hsame.holder.trans hf⟩)
        · exact .inr (.inr fun c => hsaves.grows c (hf c))
    · cases hstep
  · cases hstep

/-! ### Crashes -/

/-- A known transaction whose frame a crash leaves is in the files or replayed. -/
lemma Known.recovered (hf : s.Known f) (h : s.Inv)
    (hnodes : ¬ (loadedNodes = true ∧ s.files.graph.isNone = true)) :
    (∀ c, f ∈ s.file c) ∨ s.replayStart loadedNodes ≤ f.base := by
  refine (em (s.replayStart loadedNodes ≤ f.base)).symm.imp_left fun hreplay => ?_
  obtain ⟨lsn, hlsn, hlt⟩ := h.lt_loadedLsn hnodes hreplay
  have hbelow : ∀ c, f.base < s.tracker.components.get c := fun c =>
    hlt.trans_le (h.le_loadedLsn hlsn c)
  rcases hf with hf | ⟨phase, hphase, hf⟩ | hf
  · exact fun c => (h.tracker c).2 f hf (hbelow c)
  · intro c
    exact absurd (hbelow c) (not_lt.mpr ((h.tracker c).1.2 f phase hf hphase))
  · exact hf

lemma stores_restart (loadedNodes : Bool) (c : Component) : (s.restart loadedNodes).stores.get c =
      s.file c ++ s.survivors.filter fun f => s.replayStart loadedNodes ≤ f.base := by
  cases c <;> rfl

lemma Known.mem_stores_restart (hf : s.Known f) (h : s.Inv) (hmem : f ∈ s.survivors)
    (hnodes : ¬ (loadedNodes = true ∧ s.files.graph.isNone = true)) (c : Component) :
    f ∈ (s.restart loadedNodes).stores.get c := by
  rw [stores_restart, mem_append]
  rcases hf.recovered h hnodes with hf | hf
  · exact .inl (hf c)
  · exact .inr (mem_filter.mpr ⟨hmem, by simpa using hf⟩)

lemma Known.restart (hf : s.Known f) (h : s.Inv) (hmem : f ∈ s.survivors)
    (hnodes : ¬ (loadedNodes = true ∧ s.files.graph.isNone = true)) :
    (s.restart loadedNodes).Known f := by
  rcases hf.recovered h hnodes with hf | hf
  · exact .inr (.inr hf)
  · exact .inl (.inl (mem_append_right _ (mem_filter.mpr ⟨hmem, by simpa using hf⟩)))

lemma nested_restart (loadedNodes : Bool) : (s.restart loadedNodes).Nested := by
  refine ⟨fun c f hf => ?_, nofun⟩
  rw [stores_restart]
  exact mem_append_left _ hf

end IndexPersistence

end Aletheia
