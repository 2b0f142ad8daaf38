import Aletheia.IndexPersistence
import Mathlib.Order.MinMax

/-!
# When the manifest is a safe point to replay from

An LSN is *passed* when no transaction below it is still to be applied. `persist_indexes` reads its
LSN under the commit lock and so always reads a passed one; the worker and the shutdown read the
next LSN of the log without the lock, and a transaction between its append and its apply then lies
below an LSN that its writes have not reached. If no driver reads its LSN at such a moment, or while
another driver runs, every file covers the LSN its tracker entry names, and the manifest, which
names the smallest of them, is safe.
-/

namespace Aletheia

open List Option

/-- `a` relies on what an earlier `b` has left. -/
def Instr.needs : Instr → Instr → Bool
  | .save c, .scan c' => c = c'
  | .save _, .snapshot => true
  | .updateLsn c, .save c' => c = c'
  | .saveManifest, .getSafeManifestLsn => true
  | _, _ => false

namespace IndexPersistence

variable {s s' : IndexPersistence} {d : Driver} {lsn : ℕ} {frames : List LoggedFrame}
  {loadedNodes : Bool} {i : ℕ}

/-- What the file of a component contains. -/
def file (s : IndexPersistence) (c : Component) : List LoggedFrame := (s.files.get c).getD []

/-- Every committed transaction below the LSN of the manifest is in both files, and none is missing
in the stores. -/
def SafeManifest (s : IndexPersistence) : Prop :=
  (∀ lsn ∈ s.manifest, ∀ f ∈ s.committed, f.base < lsn → ∀ c, f ∈ s.file c) ∧
    ∀ f ∈ s.committed, ∀ c, f ∈ s.stores.get c

/-- A driver starts when no other one runs and, unless it takes the commit lock, when no transaction
holds it. -/
def Undisturbed (s : IndexPersistence) : Action → Prop
  | .startDriver kind =>
    (∀ d ∈ s.drivers, d.todo = []) ∧ (kind ≠ .persistIndexes → s.holder = none)
  | _ => True

instance (s : IndexPersistence) (a : Action) : Decidable (s.Undisturbed a) := by
  unfold Undisturbed
  split <;> infer_instance

/-! ### The invariant -/

/-- The writes of `f` are in the stores, and its commit has not failed. -/
def Applied (s : IndexPersistence) (f : LoggedFrame) : Prop :=
  f ∈ s.committed ∨ f ∈ s.waiting ∨ s.holder = some (f, .applied)

/-- No transaction below `lsn` is still to be applied. -/
def Passed (s : IndexPersistence) (lsn : ℕ) : Prop :=
  lsn ≤ s.nextLsn ∧
    ∀ f phase, s.holder = some (f, phase) → phase ≠ .applied → lsn ≤ f.base

/-- The applied transactions below `lsn` are among `frames`. -/
def Covers (s : IndexPersistence) (lsn : ℕ) (frames : List LoggedFrame) : Prop :=
  ∀ f, s.Applied f → f.base < lsn → f ∈ frames

/-- The interner is saved before the first of the files that refer to it. -/
def savesStringsFirst : List Instr → Bool
  | [] | .saveStringInterner :: _ => true
  | .save _ :: _ => false
  | _ :: rest => savesStringsFirst rest

/-- What a driver can rely on, given what it has still to do. -/
structure DriverOk (s : IndexPersistence) (d : Driver) : Prop where
  lsn : s.Passed d.lsn
  ordered : d.todo.Pairwise fun a b => a.needs b = false
  scanned : ∀ c, .save c ∈ d.todo → .scan c ∉ d.todo → .snapshot ∉ d.todo →
    s.Covers d.lsn (d.scanned.get c) ∧ s.Covers (s.tracker.components.get c) (d.scanned.get c)
  saved : ∀ c, .updateLsn c ∈ d.todo → .save c ∉ d.todo → s.Covers d.lsn (s.file c)
  safe : .saveManifest ∈ d.todo → .getSafeManifestLsn ∉ d.todo →
    ∀ c, d.safeLsn ≤ s.tracker.components.get c
  strings : s.strings = true ∨ savesStringsFirst d.todo = true

structure Inv (s : IndexPersistence) : Prop where
  holder : ∀ f phase, s.holder = some (f, phase) → f.base ≤ s.nextLsn
  inFlight : ∀ lsn ∈ s.inFlight, lsn ≤ s.nextLsn
  stored : ∀ f, s.Applied f → ∀ c, f ∈ s.stores.get c
  tracker : ∀ c, s.Passed (s.tracker.components.get c) ∧
    s.Covers (s.tracker.components.get c) (s.file c)
  manifest : ∀ lsn ∈ s.manifest, ∀ c, lsn ≤ s.tracker.components.get c
  strings : s.files.graph.isSome → s.strings = true
  alone : ∀ (i j : ℕ) (d d' : Driver), s.drivers[i]? = some d → s.drivers[j]? = some d' → d.todo ≠ [] →
    d'.todo ≠ [] → i = j
  drivers : ∀ d ∈ s.drivers, s.DriverOk d

lemma Covers.max {lsn' : ℕ} (h : s.Covers lsn frames) (h' : s.Covers lsn' frames) :
    s.Covers (max lsn lsn') frames := by
  intro f hf hlt
  rcases lt_max_iff.mp hlt with hlt | hlt
  · exact h f hf hlt
  · exact h' f hf hlt

lemma Inv.safeManifest (h : s.Inv) : s.SafeManifest := by
  refine ⟨fun lsn hlsn f hf hlt c => ?_, fun f hf => h.stored f (.inl hf)⟩
  exact (h.tracker c).2 f (.inl hf) (hlt.trans_le (h.manifest lsn hlsn c))

/-! ### The steps of a commit -/

/-- A step that only moves a transaction on. -/
structure Commits (s s' : IndexPersistence) : Prop where
  files : s'.files = s.files
  strings : s'.strings = s.strings
  tracker : s'.tracker = s.tracker
  manifest : s'.manifest = s.manifest
  drivers : s'.drivers = s.drivers
  holder : ∀ f phase, s'.holder = some (f, phase) → f.base ≤ s'.nextLsn
  inFlight : ∀ lsn ∈ s'.inFlight, lsn ≤ s'.nextLsn
  stored : ∀ f, s'.Applied f → ∀ c, f ∈ s'.stores.get c
  /-- a newly applied transaction is above every LSN that was passed -/
  applied : ∀ f, s'.Applied f → s.Applied f ∨ ∀ lsn, s.Passed lsn → lsn ≤ f.base
  passed : ∀ lsn, s.Passed lsn → s'.Passed lsn

lemma Commits.covers (h : Commits s s') (hp : s.Passed lsn) (hc : s.Covers lsn frames) :
    s'.Covers lsn frames := by
  intro f hf hlt
  rcases h.applied f hf with hold | hnew
  · exact hc f hold hlt
  · exact absurd hlt (not_lt.mpr (hnew lsn hp))

variable (h : s.Inv)

include h

lemma Inv.commits (hs : Commits s s') : s'.Inv := by
  have hfile : ∀ c, s'.file c = s.file c := fun c => by rw [file, hs.files]; rfl
  refine ⟨hs.holder, hs.inFlight, hs.stored, ?_, ?_, ?_, ?_, ?_⟩
  · intro c
    rw [hs.tracker, hfile]
    exact ⟨hs.passed _ (h.tracker c).1, hs.covers (h.tracker c).1 (h.tracker c).2⟩
  · rw [hs.tracker, hs.manifest]
    exact h.manifest
  · rw [hs.files, hs.strings]
    exact h.strings
  · rw [hs.drivers]
    exact h.alone
  · rw [hs.drivers]
    intro d hd
    have hok := h.drivers d hd
    refine ⟨hs.passed _ hok.lsn, hok.ordered, ?_, ?_, ?_, ?_⟩
    · intro c hsave hscan hsnap
      obtain ⟨h1, h2⟩ := hok.scanned c hsave hscan hsnap
      rw [hs.tracker]
      exact ⟨hs.covers hok.lsn h1, hs.covers (h.tracker c).1 h2⟩
    · intro c hupdate hsave
      rw [hfile]
      exact hs.covers hok.lsn (hok.saved c hupdate hsave)
    · rw [hs.tracker]
      exact hok.safe
    · rw [hs.strings]
      exact hok.strings

lemma commits_appendBatch {operations : ℕ} (hstep : s.step (.appendBatch operations) = some s') :
    Commits s s' := by
  simp only [step] at hstep
  split_ifs at hstep with hfree
  cases hstep
  have hnone : s.holder = none := isNone_iff_eq_none.mp hfree
  have hnext : s.nextLsn ≤ s.nextLsn + operations + 2 := by omega
  have happlied : ∀ f, Applied { s with
      serial := s.serial + 1
      nextLsn := s.nextLsn + operations + 2
      log := s.log ++ [⟨s.serial, s.nextLsn, operations⟩]
      holder := some (⟨s.serial, s.nextLsn, operations⟩, .appended) } f → s.Applied f := by
    rintro f (hf | hf | hf)
    · exact .inl hf
    · exact .inr (.inl hf)
    · simp at hf
  refine ⟨rfl, rfl, rfl, rfl, rfl, ?_, ?_, ?_, ?_, ?_⟩
  · intro f phase hf
    cases hf
    exact hnext
  · exact fun lsn hlsn => (h.inFlight lsn hlsn).trans hnext
  · exact fun f hf => h.stored f (happlied f hf)
  · exact fun f hf => .inl (happlied f hf)
  · intro lsn hp
    refine ⟨hp.1.trans hnext, fun f phase hf _ => ?_⟩
    cases hf
    exact hp.1

lemma commits_of_holder {holder : Option (LoggedFrame × HolderPhase)}
    {waiting committed : List LoggedFrame} {inFlight : List ℕ}
    (hholder : ∀ f phase, holder = some (f, phase) → ∃ phase', s.holder = some (f, phase') ∧
      (phase = .applied ↔ phase' = .applied)) (hinFlight : ∀ lsn ∈ inFlight, lsn ≤ s.nextLsn)
    (hcommitted : ∀ f ∈ committed, s.Applied f) (hwaiting : ∀ f ∈ waiting, s.Applied f) :
    Commits s { s with
      holder := holder, waiting := waiting, committed := committed, inFlight := inFlight } := by
  have happlied : ∀ f, f ∈ committed ∨ f ∈ waiting ∨ holder = some (f, .applied) → s.Applied f := by
    rintro f (hf | hf | hf)
    · exact hcommitted f hf
    · exact hwaiting f hf
    · obtain ⟨phase, hf, hiff⟩ := hholder f _ hf
      exact .inr (.inr (hiff.mp rfl ▸ hf))
  refine ⟨rfl, rfl, rfl, rfl, rfl, ?_, hinFlight, ?_, ?_, ?_⟩
  · intro f phase hf
    obtain ⟨phase', hf', -⟩ := hholder f phase hf
    exact h.holder f phase' hf'
  · exact fun f hf => h.stored f (happlied f hf)
  · exact fun f hf => .inl (happlied f hf)
  · intro lsn hp
    refine ⟨hp.1, fun f phase hf hphase => ?_⟩
    obtain ⟨phase', hf', hiff⟩ := hholder f phase hf
    exact hp.2 f phase' hf' (hiff.not.mp hphase)

lemma commits_appendFails (hstep : s.step .appendFails = some s') : Commits s s' := by
  simp only [step] at hstep
  split at hstep
  · cases hstep
    exact commits_of_holder h (by simp) h.inFlight (fun _ => .inl) fun _ hf => .inr (.inl hf)
  · cases hstep

lemma commits_register (hstep : s.step .register = some s') : Commits s s' := by
  simp only [step] at hstep
  split at hstep
  next f hf =>
    cases hstep
    refine commits_of_holder h ?_ ?_ (fun _ => .inl) fun _ hf => .inr (.inl hf)
    · intro g phase hg
      cases hg
      exact ⟨.appended, hf, by simp⟩
    · intro lsn hlsn
      rcases mem_cons.mp hlsn with rfl | hlsn
      · exact h.holder f .appended hf
      · exact h.inFlight lsn hlsn
  · cases hstep

lemma commits_applyChanges {ok : Bool} (hstep : s.step (.applyChanges ok) = some s') :
    Commits s s' := by
  simp only [step] at hstep
  split at hstep
  next f hf =>
    cases hstep
    split_ifs
    · -- the frame joins the applied ones; every passed LSN is at most its base
      have happlied : ∀ g, Applied { s with
          holder := some (f, .applied)
          stores := ⟨f :: s.stores.graph, f :: s.stores.temporal⟩ } g → s.Applied g ∨ g = f := by
        rintro g (hg | hg | hg)
        · exact .inl (.inl hg)
        · exact .inl (.inr (.inl hg))
        · exact .inr (Prod.mk.inj (some.inj hg)).1.symm
      refine ⟨rfl, rfl, rfl, rfl, rfl, ?_, h.inFlight, ?_, ?_, ?_⟩
      · intro g phase hg
        cases hg
        exact h.holder f _ hf
      · intro g hg c
        rcases happlied g hg with hold | rfl
        · have := h.stored g hold c
          cases c <;> exact mem_cons_of_mem _ this
        · cases c <;> exact mem_cons_self
      · intro g hg
        rcases happlied g hg with hold | rfl
        · exact .inl hold
        · exact .inr fun lsn hp => hp.2 g _ hf nofun
      · intro lsn hp
        refine ⟨hp.1, fun g phase hg hphase => ?_⟩
        cases hg
        exact absurd rfl hphase
    · refine commits_of_holder h (by simp) ?_ (fun _ => .inl) fun _ hf => .inr (.inl hf)
      exact fun lsn hlsn => h.inFlight lsn (mem_of_mem_erase hlsn)
  · cases hstep

lemma commits_release (hstep : s.step .release = some s') : Commits s s' := by
  simp only [step] at hstep
  split at hstep
  next f hf =>
    cases hstep
    refine commits_of_holder h (by simp) h.inFlight (fun _ => .inl) fun g hg => ?_
    rcases mem_append.mp hg with hg | hg
    · exact .inr (.inl hg)
    · rw [mem_singleton.mp hg]
      exact .inr (.inr hf)
  · cases hstep

lemma commits_finish {ok : Bool} (hstep : s.step (.finish i ok) = some s') : Commits s s' := by
  simp only [step] at hstep
  split at hstep
  next f hf =>
    split at hstep
    · cases hstep
    cases hstep
    refine commits_of_holder h (fun g phase hg => ⟨phase, hg, Iff.rfl⟩) ?_ ?_ ?_
    · exact fun lsn hlsn => h.inFlight lsn (mem_of_mem_erase hlsn)
    · intro g hg
      split_ifs at hg
      · rcases mem_cons.mp hg with rfl | hg
        · exact .inr (.inl (mem_of_getElem? hf))
        · exact .inl hg
      · exact .inl hg
    · exact fun g hg => .inr (.inl (eraseIdx_subset hg))
  · cases hstep

lemma commits_flush {durable : ℕ} (hstep : s.step (.flush durable) = some s') : Commits s s' := by
  simp only [step] at hstep
  split_ifs at hstep
  cases hstep
  exact ⟨rfl, rfl, rfl, rfl, rfl, h.holder, h.inFlight, h.stored, fun f hf => .inl hf,
    fun lsn hp => ⟨hp.1, hp.2⟩⟩

omit h

/-! ### The steps of a driver -/

lemma getSafeManifestLsn_le (t : PersistenceTracker) (c : Component) :
    t.getSafeManifestLsn ≤ t.components.get c := by
  cases c <;> simp only [PersistenceTracker.getSafeManifestLsn, Both.get] <;> omega

/-- A program does everything that one of its instructions relies on, and does it before. -/
lemma program_ordered (kind : DriverKind) : (kind.program.Pairwise fun a b => a.needs b = false) ∧
    (∀ c, .save c ∈ kind.program → .scan c ∈ kind.program ∨ .snapshot ∈ kind.program) ∧
    (∀ c, .updateLsn c ∈ kind.program → .save c ∈ kind.program) ∧
    (.saveManifest ∈ kind.program → .getSafeManifestLsn ∈ kind.program) ∧
    savesStringsFirst kind.program = true := by
  rcases kind with _ | ⟨_ | _, _ | _, _ | _, _ | _⟩ | ⟨_ | _, _ | _, _ | _, _ | _⟩ <;>
    exact ⟨by decide, fun c => by cases c <;> decide, fun c => by cases c <;> decide, by decide,
      by decide⟩

lemma passed_startLsn (h : s.Inv) {kind : DriverKind} (hfree : s.holder = none)
    (hlsn : s.startLsn kind = some lsn) : s.Passed lsn := by
  have hpassed : ∀ n ≤ s.nextLsn, s.Passed n := fun n hn =>
    ⟨hn, fun f phase hf => by rw [hfree] at hf; cases hf⟩
  refine hpassed lsn ?_
  cases kind with
  | persistIndexes =>
    simp only [startLsn, hfree, isNone_none, if_true] at hlsn
    cases hlsn
    cases hmin : s.inFlight.min? with
    | none => exact le_rfl
    | some n => exact h.inFlight n (List.min?_mem hmin)
  | workerCycle | persistAllIndexes => exact (some.inj hlsn).ge

lemma Inv.startDriver (h : s.Inv) {kind : DriverKind} (hcond : s.Undisturbed (.startDriver kind))
    (hstep : s.step (.startDriver kind) = some s') : s'.Inv := by
  obtain ⟨hidle, hlock⟩ := hcond
  simp only [step] at hstep
  obtain ⟨lsn, hlsn, rfl⟩ := map_eq_some_iff.mp hstep
  have hfree : s.holder = none := by
    by_cases hkind : kind = .persistIndexes
    · subst hkind
      simp only [startLsn] at hlsn
      split_ifs at hlsn with hnone
      exact isNone_iff_eq_none.mp hnone
    · exact hlock hkind
  obtain ⟨hordered, hscan, hsave, hsafe, hstrings⟩ := program_ordered kind
  refine ⟨h.holder, h.inFlight, h.stored, h.tracker, h.manifest, h.strings, ?_, ?_⟩
  · -- only the new driver has anything to do
    have hlast : ∀ (i : ℕ) (d : Driver), (s.drivers ++ [⟨lsn, kind.program, ⟨[], []⟩, 0⟩])[i]? =
        some d → d.todo ≠ [] → i = s.drivers.length := by
      intro i d hd htodo
      rcases lt_or_ge i s.drivers.length with hi | hi
      · rw [List.getElem?_append_left hi] at hd
        exact absurd (hidle d (mem_of_getElem? hd)) htodo
      · rw [List.getElem?_append_right hi] at hd
        have := (List.getElem?_eq_some_iff.mp hd).1
        simp only [length_singleton] at this
        omega
    intro i j d d' hi hj hd hd'
    rw [hlast i d hi hd, hlast j d' hj hd']
  · intro d hd
    rcases mem_append.mp hd with hd | hd
    · have hok := h.drivers d hd
      exact { hok with }
    · have hpassed : s.Passed lsn := passed_startLsn h hfree hlsn
      rw [mem_singleton.mp hd]
      refine ⟨hpassed, hordered, ?_, ?_, ?_, .inr hstrings⟩
      · intro c hmem hno hno'
        exact absurd (hscan c hmem) (not_or.mpr ⟨hno, hno'⟩)
      · exact fun c hmem hno => absurd (hsave c hmem) hno
      · exact fun hmem hno => absurd (hsafe hmem) hno

lemma DriverOk.of_done (hp : s.Passed d.lsn) (hdone : d.todo = []) : s.DriverOk d := by
  refine ⟨hp, ?_, ?_, ?_, ?_, ?_⟩ <;> simp [hdone, savesStringsFirst]

lemma Inv.stopDriver (h : s.Inv) (hstep : s.step (.stopDriver i) = some s') : s'.Inv := by
  simp only [step] at hstep
  obtain ⟨d, hd, rfl⟩ := map_eq_some_iff.mp hstep
  refine ⟨h.holder, h.inFlight, h.stored, h.tracker, h.manifest, h.strings, ?_, ?_⟩
  · have hold : ∀ (j : ℕ) (e : Driver), (s.drivers.set i { d with todo := [] })[j]? = some e →
        e.todo ≠ [] → s.drivers[j]? = some e := by
      intro j e he htodo
      rw [List.getElem?_set] at he
      split_ifs at he with hij hlt
      · cases he
        exact absurd rfl htodo
      · exact he
    intro j k e e' hj hk he he'
    exact h.alone j k e e' (hold j e hj he) (hold k e' hk he') he he'
  · intro e he
    rcases mem_or_eq_of_mem_set he with he | rfl
    · have hok := h.drivers e he
      exact { hok with }
    · have hpassed : s.Passed d.lsn := (h.drivers d (mem_of_getElem? hd)).lsn
      exact .of_done hpassed rfl

section Run

variable {instr : Instr} {rest : List Instr} {c : Component} (hok : s.DriverOk d)
  (htodo : d.todo = instr :: rest)

include hok htodo

lemma DriverOk.not_mem {b : Instr} (hneeds : instr.needs b = true) : b ∉ rest := by
  intro hb
  have hordered := hok.ordered
  rw [htodo, pairwise_cons] at hordered
  rw [hordered.1 b hb] at hneeds
  cases hneeds

lemma DriverOk.scanned_tail (hne : .scan c ≠ instr) (hne' : .snapshot ≠ instr)
    (hsave : .save c ∈ rest) (hscan : .scan c ∉ rest) (hsnap : .snapshot ∉ rest) :
    s.Covers d.lsn (d.scanned.get c) ∧ s.Covers (s.tracker.components.get c) (d.scanned.get c) := by
  refine hok.scanned c ?_ ?_ ?_ <;> rw [htodo]
  · exact mem_cons_of_mem _ hsave
  · exact not_mem_cons_of_ne_of_not_mem hne hscan
  · exact not_mem_cons_of_ne_of_not_mem hne' hsnap

lemma DriverOk.saved_tail (hne : .save c ≠ instr) (hupdate : .updateLsn c ∈ rest)
    (hsave : .save c ∉ rest) : s.Covers d.lsn (s.file c) := by
  refine hok.saved c ?_ ?_ <;> rw [htodo]
  · exact mem_cons_of_mem _ hupdate
  · exact not_mem_cons_of_ne_of_not_mem hne hsave

lemma DriverOk.safe_tail (hne : .getSafeManifestLsn ≠ instr) (hmanifest : .saveManifest ∈ rest)
    (hsafe : .getSafeManifestLsn ∉ rest) (c : Component) :
    d.safeLsn ≤ s.tracker.components.get c := by
  refine hok.safe ?_ ?_ c <;> rw [htodo]
  · exact mem_cons_of_mem _ hmanifest
  · exact not_mem_cons_of_ne_of_not_mem hne hsafe

lemma DriverOk.ordered_tail : rest.Pairwise fun a b => a.needs b = false := by
  have hordered := hok.ordered
  rw [htodo, pairwise_cons] at hordered
  exact hordered.2

end Run

/-- What an instruction of the driver `d` leaves of the invariant. -/
structure Executes (s s' : IndexPersistence) (d : Driver) : Prop where
  tracker : ∀ c, s.Passed (s'.tracker.components.get c) ∧
    s.Covers (s'.tracker.components.get c) (s'.file c)
  manifest : ∀ lsn ∈ s'.manifest, ∀ c, lsn ≤ s'.tracker.components.get c
  scanned : ∀ c, .save c ∈ d.todo → .scan c ∉ d.todo → .snapshot ∉ d.todo →
    s.Covers d.lsn (d.scanned.get c) ∧ s.Covers (s'.tracker.components.get c) (d.scanned.get c)
  saved : ∀ c, .updateLsn c ∈ d.todo → .save c ∉ d.todo → s.Covers d.lsn (s'.file c)
  safe : .saveManifest ∈ d.todo → .getSafeManifestLsn ∉ d.todo →
    ∀ c, d.safeLsn ≤ s'.tracker.components.get c

lemma executes (h : s.Inv) (hok : s.DriverOk d) {instr : Instr} {rest : List Instr}
    (htodo : d.todo = instr :: rest) :
    Executes s (s.exec { d with todo := rest } instr).1 (s.exec { d with todo := rest } instr).2 := by
  have hstored : ∀ lsn c, s.Covers lsn (s.stores.get c) := fun lsn c f hf _ => h.stored f hf c
  cases instr with
  | snapshot =>
    refine ⟨h.tracker, h.manifest, fun c _ _ _ => ⟨hstored _ c, hstored _ c⟩, ?_, ?_⟩
    · exact fun _ => hok.saved_tail htodo nofun
    · exact hok.safe_tail htodo nofun
  | scan c =>
    refine ⟨h.tracker, h.manifest, fun c' hsave hscan hsnap => ?_, ?_, ?_⟩
    · simp only [exec, Both.get_set]
      split_ifs with hc
      · exact ⟨hstored _ c, hstored _ c⟩
      · exact hok.scanned_tail htodo (fun heq => hc (Instr.scan.inj heq)) nofun hsave hscan hsnap
    · exact fun _ => hok.saved_tail htodo nofun
    · exact hok.safe_tail htodo nofun
  | save c =>
    have hscan : .scan c ∉ Instr.save c :: rest := by
      simpa using hok.not_mem htodo (by simp [Instr.needs])
    have hsnap : .snapshot ∉ Instr.save c :: rest := by
      simpa using hok.not_mem htodo (by simp [Instr.needs])
    obtain ⟨hlsn, htracker⟩ := hok.scanned c (htodo ▸ mem_cons_self) (htodo ▸ hscan) (htodo ▸ hsnap)
    have hfile : ∀ c', (s.exec { d with todo := rest } (.save c)).1.file c' =
        if c' = c then d.scanned.get c else s.file c' := by
      intro c'
      simp only [exec, file, Both.get_set]
      split_ifs <;> rfl
    refine ⟨fun c' => ?_, h.manifest, ?_, fun c' hupdate hsave => ?_, ?_⟩
    · rw [hfile]
      split_ifs with hc
      · subst hc
        exact ⟨(h.tracker c').1, htracker⟩
      · exact h.tracker c'
    · exact fun _ => hok.scanned_tail htodo nofun nofun
    · rw [hfile]
      split_ifs with hc
      · subst hc
        exact hlsn
      · exact hok.saved_tail htodo (fun heq => hc (Instr.save.inj heq)) hupdate hsave
    · exact hok.safe_tail htodo nofun
  | updateLsn c =>
    have hsave : .save c ∉ Instr.updateLsn c :: rest := by
      simpa using hok.not_mem htodo (by simp [Instr.needs])
    have hlsn : s.Covers d.lsn (s.file c) :=
      hok.saved c (htodo ▸ mem_cons_self) (htodo ▸ hsave)
    have hle : ∀ c', s.tracker.components.get c' ≤
        (s.tracker.updateLsn c d.lsn).components.get c' := by
      intro c'
      simp only [PersistenceTracker.updateLsn, Both.get_set]
      split_ifs with hc
      · rw [hc]
        exact le_max_left _ _
      · exact le_rfl
    refine ⟨fun c' => ?_, fun lsn hlsn c' => (h.manifest lsn hlsn c').trans (hle c'), ?_, ?_, ?_⟩
    · simp only [exec, PersistenceTracker.updateLsn, Both.get_set]
      split_ifs with hc
      · subst hc
        obtain ⟨hpassed, hcovers⟩ := h.tracker c'
        exact ⟨⟨max_le hpassed.1 hok.lsn.1, fun f phase hf hphase =>
          max_le (hpassed.2 f phase hf hphase) (hok.lsn.2 f phase hf hphase)⟩, hcovers.max hlsn⟩
      · exact h.tracker c'
    · intro c' hsave' hscan hsnap
      have hc : c' ≠ c := by
        rintro rfl
        exact hsave (mem_cons_of_mem _ hsave')
      simp only [exec, PersistenceTracker.updateLsn, Both.get_set, if_neg hc]
      exact hok.scanned_tail htodo nofun nofun hsave' hscan hsnap
    · exact fun _ => hok.saved_tail htodo nofun
    · intro hm hsafe c'
      exact (hok.safe_tail htodo nofun hm hsafe c').trans (hle c')
  | updateVectorLsn | updateStringLsn | saveStringInterner =>
    refine ⟨h.tracker, h.manifest, ?_, ?_, ?_⟩
    · exact fun _ => hok.scanned_tail htodo nofun nofun
    · exact fun _ => hok.saved_tail htodo nofun
    · exact hok.safe_tail htodo nofun
  | getSafeManifestLsn =>
    refine ⟨h.tracker, h.manifest, ?_, ?_, fun _ _ c => getSafeManifestLsn_le s.tracker c⟩
    · exact fun _ => hok.scanned_tail htodo nofun nofun
    · exact fun _ => hok.saved_tail htodo nofun
  | saveManifest =>
    have hread : .getSafeManifestLsn ∉ Instr.saveManifest :: rest := by
      simpa using hok.not_mem htodo (by simp [Instr.needs])
    have hsafe := hok.safe (htodo ▸ mem_cons_self) (htodo ▸ hread)
    refine ⟨h.tracker, fun lsn hlsn c => ?_, ?_, ?_, fun _ _ => hsafe⟩
    · cases hlsn
      exact hsafe c
    · exact fun _ => hok.scanned_tail htodo nofun nofun
    · exact fun _ => hok.saved_tail htodo nofun

/-- An instruction of a driver leaves the transactions alone. -/
structure SameTransactions (s s' : IndexPersistence) : Prop where
  nextLsn : s'.nextLsn = s.nextLsn
  holder : s'.holder = s.holder
  inFlight : s'.inFlight = s.inFlight
  stores : s'.stores = s.stores
  committed : s'.committed = s.committed
  waiting : s'.waiting = s.waiting
  drivers : s'.drivers = s.drivers

lemma sameTransactions_exec (s : IndexPersistence) (d : Driver) (instr : Instr) :
    SameTransactions s (s.exec d instr).1 ∧ (s.exec d instr).2.lsn = d.lsn ∧
      (s.exec d instr).2.todo = d.todo := by
  cases instr <;> exact ⟨⟨rfl, rfl, rfl, rfl, rfl, rfl, rfl⟩, rfl, rfl⟩

lemma Inv.setDriver (h : s.Inv) {d' : Driver} (hd : s.drivers[i]? = some d) (hbusy : d.todo ≠ [])
    (hsame : SameTransactions s s') (hx : Executes s s' d') (hlsn : d'.lsn = d.lsn)
    (hordered : d'.todo.Pairwise fun a b => a.needs b = false)
    (hstrings : (s'.files.graph.isSome → s'.strings = true) ∧
      (s'.strings = true ∨ savesStringsFirst d'.todo = true)) :
    Inv { s' with drivers := s'.drivers.set i d' } := by
  have happlied : ∀ f, s'.Applied f ↔ s.Applied f := fun f => by
    rw [Applied, Applied, hsame.committed, hsame.waiting, hsame.holder]
  have hpassed : ∀ lsn, s.Passed lsn → s'.Passed lsn := fun lsn hp => by
    rw [Passed, hsame.nextLsn, hsame.holder]
    exact hp
  have hcovers : ∀ lsn frames, s.Covers lsn frames → s'.Covers lsn frames :=
    fun lsn frames hc f hf => hc f ((happlied f).mp hf)
  -- the other drivers have nothing to do
  have hothers : ∀ (j : ℕ) (e : Driver), (s'.drivers.set i d')[j]? = some e →
      e = d' ∧ j = i ∨ e.todo = [] ∧ e ∈ s.drivers := by
    intro j e he
    rw [hsame.drivers, List.getElem?_set] at he
    split_ifs at he with hij hlt
    · exact .inl ⟨(some.inj he).symm, hij.symm⟩
    · refine .inr ⟨?_, mem_of_getElem? he⟩
      by_contra hbusy'
      exact hij (h.alone i j d e hd he hbusy hbusy')
  refine ⟨?_, ?_, ?_, ?_, hx.manifest, hstrings.1, ?_, ?_⟩
  · dsimp only
    rw [hsame.holder, hsame.nextLsn]
    exact h.holder
  · dsimp only
    rw [hsame.inFlight, hsame.nextLsn]
    exact h.inFlight
  · intro f hf
    dsimp only
    rw [hsame.stores]
    exact h.stored f ((happlied f).mp hf)
  · exact fun c => ⟨hpassed _ (hx.tracker c).1, hcovers _ _ (hx.tracker c).2⟩
  · intro j k e e' hj hk he he'
    rcases hothers j e hj with ⟨-, rfl⟩ | ⟨hdone, -⟩
    · rcases hothers k e' hk with ⟨-, rfl⟩ | ⟨hdone, -⟩
      · rfl
      · exact absurd hdone he'
    · exact absurd hdone he
  · intro e he
    obtain ⟨j, hj⟩ := mem_iff_getElem?.mp he
    rcases hothers j e hj with ⟨rfl, -⟩ | ⟨hdone, hold⟩
    · have hp : s'.Passed e.lsn := by
        rw [hlsn]
        exact hpassed _ (h.drivers d (mem_of_getElem? hd)).lsn
      refine ⟨hp, hordered, ?_, ?_, hx.safe, hstrings.2⟩
      · intro c hsave hscan hsnap
        exact (hx.scanned c hsave hscan hsnap).imp (hcovers _ _) (hcovers _ _)
      · exact fun c hupdate hsave => hcovers _ _ (hx.saved c hupdate hsave)
    · have hp : s'.Passed e.lsn := hpassed _ (h.drivers e hold).lsn
      exact .of_done hp hdone

lemma strings_exec (h : s.Inv) (hok : s.DriverOk d) {instr : Instr} {rest : List Instr}
    (htodo : d.todo = instr :: rest) :
    ((s.exec { d with todo := rest } instr).1.files.graph.isSome →
        (s.exec { d with todo := rest } instr).1.strings = true) ∧
      ((s.exec { d with todo := rest } instr).1.strings = true ∨
        savesStringsFirst (s.exec { d with todo := rest } instr).2.todo = true) := by
  have hok' := hok.strings
  rw [htodo] at hok'
  cases instr with
  | saveStringInterner => exact ⟨fun _ => rfl, .inl rfl⟩
  | save c =>
    have hstrings : s.strings = true := hok'.resolve_right (by simp [savesStringsFirst])
    exact ⟨fun _ => hstrings, .inl hstrings⟩
  | snapshot | scan | updateLsn | updateVectorLsn | updateStringLsn | getSafeManifestLsn
  | saveManifest => exact ⟨h.strings, hok'⟩

lemma Inv.runDriver (h : s.Inv) (hstep : s.step (.runDriver i) = some s') : s'.Inv := by
  simp only [step] at hstep
  split at hstep
  next d hd =>
    split at hstep
    next instr rest htodo =>
      cases hstep
      have hok := h.drivers d (mem_of_getElem? hd)
      obtain ⟨hsame, hlsn, htail⟩ := sameTransactions_exec s { d with todo := rest } instr
      refine h.setDriver hd (by simp [htodo]) hsame (executes h hok htodo) hlsn ?_
        (strings_exec h hok htodo)
      rw [htail]
      exact hok.ordered_tail htodo
    · cases hstep
  · cases hstep

/-! ### Crashes -/

lemma mem_replayed {f : LoggedFrame}
    (hf : f ∈ s.survivors.filter fun f => s.replayStart loadedNodes ≤ f.base) :
    s.replayStart loadedNodes ≤ f.base := by
  simpa using (mem_filter.mp hf).2

lemma Inv.le_loadedLsn (h : s.Inv) {lsn : ℕ} (hlsn : s.loadedLsn = some lsn) (c : Component) :
    lsn ≤ s.tracker.components.get c := by
  rcases or_eq_some_iff.mp hlsn with hm | ⟨-, hzero⟩
  · exact h.manifest lsn hm c
  · split_ifs at hzero
    rw [← some.inj hzero]
    exact Nat.zero_le _

/-- A frame that is not replayed is below the loaded LSN: without one everything is replayed, since
there is no graph file that could hold a node before there is an interner file. -/
lemma Inv.lt_loadedLsn (h : s.Inv) {f : LoggedFrame}
    (hnodes : ¬ (loadedNodes = true ∧ s.files.graph.isNone = true))
    (hreplay : ¬ s.replayStart loadedNodes ≤ f.base) :
    ∃ lsn, s.loadedLsn = some lsn ∧ f.base < lsn := by
  cases hm : s.loadedLsn with
  | none =>
    have hgraph : loadedNodes = false := by
      by_contra hloaded
      have hsome : s.files.graph.isSome = true := by
        cases hg : s.files.graph with
        | none => simp [hg, hloaded] at hnodes
        | some _ => rfl
      simp [loadedLsn, h.strings hsome] at hm
    simp [replayStart, hm, hgraph] at hreplay
  | some lsn =>
    simp only [replayStart, hm, not_le] at hreplay
    exact ⟨lsn, rfl, hreplay⟩

/-- After a crash a transaction that had committed is in the files or in the replayed part of the
log. -/
lemma Inv.restart (h : s.Inv) (hnodes : ¬ (loadedNodes = true ∧ s.files.graph.isNone = true)) :
    (s.restart loadedNodes).Inv := by
  have happlied : ∀ f, (s.restart loadedNodes).Applied f → (f ∈ s.committed ∧ f ∈ s.survivors) ∨
      f ∈ s.survivors.filter fun f => s.replayStart loadedNodes ≤ f.base := by
    rintro f (hf | hf | hf)
    · rcases mem_append.mp hf with hf | hf
      · rw [mem_filter] at hf
        exact .inl ⟨hf.1, by simpa using hf.2⟩
      · exact .inr hf
    · cases hf
    · cases hf
  have hfile : ∀ lsn, s.loadedLsn = some lsn → ∀ c,
      (s.restart loadedNodes).Covers lsn (s.file c) := by
    intro lsn hlsn c f hf hlt
    rcases happlied f hf with ⟨hold, -⟩ | hnew
    · exact (h.tracker c).2 f (.inl hold) (hlt.trans_le (h.le_loadedLsn hlsn c))
    · have := mem_replayed hnew
      rw [replayStart, hlsn] at this
      exact absurd hlt (not_lt.mpr this)
  have htracker : ∀ c, (s.restart loadedNodes).tracker.components.get c = s.loadedLsn.getD 0 := by
    intro c
    simp only [IndexPersistence.restart]
    cases s.loadedLsn <;> cases c <;> rfl
  refine ⟨nofun, nofun, ?_, ?_, ?_, h.strings, ?_, nofun⟩
  · intro f hf c
    have hstores : (s.restart loadedNodes).stores.get c = s.file c ++
        s.survivors.filter fun f => s.replayStart loadedNodes ≤ f.base := by
      cases c <;> rfl
    rw [hstores, mem_append]
    rcases happlied f hf with ⟨hold, hlog⟩ | hnew
    · by_cases hreplay : s.replayStart loadedNodes ≤ f.base
      · exact .inr (mem_filter.mpr ⟨hlog, by simpa using hreplay⟩)
      · obtain ⟨lsn, hm, hlt⟩ := h.lt_loadedLsn hnodes hreplay
        exact .inl (hfile lsn hm c f hf hlt)
    · exact .inr hnew
  · intro c
    rw [htracker]
    refine ⟨⟨le_max_right _ _, nofun⟩, ?_⟩
    cases hm : s.loadedLsn with
    | none => exact fun f _ hlt => absurd hlt (Nat.not_lt_zero _)
    | some lsn => exact hfile lsn hm c
  · intro lsn hlsn c
    have hloaded : s.loadedLsn = some lsn := or_eq_some_iff.mpr (.inl hlsn)
    rw [htracker, hloaded]
    exact le_rfl
  · intro i j d d' hd
    simp [IndexPersistence.restart] at hd

/-! ### Runs -/

lemma inv_init (waits : Bool) : (init waits).Inv := by
  have hnone : ∀ f, ¬ (init waits).Applied f := by
    rintro f (hf | hf | hf) <;> simp [init] at hf
  refine ⟨nofun, nofun, fun f hf => absurd hf (hnone f), fun c => ⟨⟨?_, nofun⟩, ?_⟩, nofun,
    nofun, ?_, nofun⟩
  · cases c <;> exact Nat.zero_le _
  · exact fun f hf => absurd hf (hnone f)
  · intro i j d d' hd
    simp [init] at hd

lemma inv_step (s : IndexPersistence) (a : Action) (s' : IndexPersistence) (h : s.Inv)
    (hcond : s.Undisturbed a) (hstep : s.step a = some s') : s'.Inv := by
  cases a with
  | appendBatch => exact h.commits (commits_appendBatch h hstep)
  | appendFails => exact h.commits (commits_appendFails h hstep)
  | register => exact h.commits (commits_register h hstep)
  | applyChanges => exact h.commits (commits_applyChanges h hstep)
  | release => exact h.commits (commits_release h hstep)
  | flush => exact h.commits (commits_flush h hstep)
  | finish => exact h.commits (commits_finish h hstep)
  | startDriver => exact h.startDriver hcond hstep
  | runDriver => exact h.runDriver hstep
  | stopDriver => exact h.stopDriver hstep
  | restart loadedNodes =>
    simp only [step] at hstep
    split_ifs at hstep with hnodes
    cases hstep
    exact h.restart hnodes

/-- **The manifest is safe, and no crash loses a committed transaction**, as long as no driver reads
its LSN while another one runs or, without the commit lock, while a transaction is being
applied. -/
theorem safeManifest_run (waits : Bool) (as : List Action)
    (hundisturbed : Machine.Along step Undisturbed (init waits) as)
    (hrun : Machine.run step (init waits) as = some s) : s.SafeManifest :=
  Inv.safeManifest (Machine.invariant_run inv_step (inv_init waits) hundisturbed hrun)

/-- A transaction is logged and applied without anything in between. -/
def applyOne : List Action := [.appendBatch 1, .register, .applyChanges true, .release]

/-- All instructions of driver `i`. -/
def runAll (i : ℕ) (kind : DriverKind) : List Action := kind.program.map fun _ => .runDriver i

/-- Two commits, a cycle of the worker over all components and a crash. -/
def workerPersists : List Action :=
  applyOne ++ applyOne ++ [Action.flush 2, .finish 0 true, .finish 0 true,
    .startDriver (.workerCycle true true true true)] ++
    runAll 0 (.workerCycle true true true true) ++ [Action.restart true]

theorem safeManifest_workerPersists : ∃ s : IndexPersistence,
    Machine.run step (init true) workerPersists = some s ∧ s.manifest = some 7 ∧
      s.committed.length = 2 ∧ s.SafeManifest := by
  refine ⟨_, rfl, by decide, by decide, ?_⟩
  exact safeManifest_run true workerPersists (by decide) rfl

/-- The worker reads its LSN between the append of a transaction and its apply. -/
def workerRaces : List Action :=
  [Action.appendBatch 1, .startDriver (.workerCycle true true true true)] ++
    runAll 0 (.workerCycle true true true true) ++
    [Action.register, .applyChanges true, .release, .flush 1, .finish 0 true]

/-- The worker writes the graph it scanned before a commit over the one that `persist_indexes` wrote
after it. -/
def driversRace : List Action :=
  [Action.startDriver (.workerCycle false true false false), .runDriver 0] ++ applyOne ++
    [Action.flush 1, .finish 0 true, .startDriver .persistIndexes] ++ runAll 1 .persistIndexes ++
    [Action.runDriver 0, .runDriver 0]

/-- In both runs a committed transaction below the manifest is missing in the graph file, and after
a crash it is gone from current storage. -/
theorem manifest_loses_commit :
    (∃ s : IndexPersistence, Machine.run step (init true) workerRaces = some s ∧
      s.manifest = some 4 ∧ ⟨0, 1, 1⟩ ∈ s.committed ∧ ⟨0, 1, 1⟩ ∉ s.file .graph ∧
      ⟨0, 1, 1⟩ ∉ (s.restart false).stores.graph ∧ ¬ s.SafeManifest) ∧
    ∃ s : IndexPersistence, Machine.run step (init true) driversRace = some s ∧
      s.manifest = some 4 ∧ ⟨0, 1, 1⟩ ∈ s.committed ∧ ⟨0, 1, 1⟩ ∉ s.file .graph ∧
      ⟨0, 1, 1⟩ ∉ (s.restart false).stores.graph ∧ ¬ s.SafeManifest := by
  refine ⟨⟨_, rfl, by decide, by decide, by decide, by decide, fun h => ?_⟩,
    _, rfl, by decide, by decide, by decide, by decide, fun h => ?_⟩
  · exact absurd (h.1 4 rfl ⟨0, 1, 1⟩ (by decide) (by decide) .graph) (by decide)
  · exact absurd (h.1 4 rfl ⟨0, 1, 1⟩ (by decide) (by decide) .graph) (by decide)

end IndexPersistence

end Aletheia
