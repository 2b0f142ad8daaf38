import Aletheia.ErasureRuns

/-!
# Runs of the keyring

A run designates, erases, re-wraps and reads keys, crashes and opens the files again; every write
may be refused or be cut short by a crash. An erasure that returned is permanent in the runs in
which no subject is erased while another erasure has still to reach the file, and in which a crash
meets no active subject that the file does not have.
-/

namespace Aletheia.CryptoShred

variable {w : Write} {targets : List DesignationTarget}

structure Shred where
  process : Option CryptoShredState
  files : Files
  /-- newest first -/
  events : List Event

inductive Action where
  | designate (mek : Mek) (s : SubjectId) (targets : List DesignationTarget) (key : SubjectKey)
      (w : Write)
  | erase (s : SubjectId) (now : ℤ) (w : EraseWrites)
  | rewrapKeyring (old new : Mek) (version : ℕ) (w : Write)
  | subjectKey (s : SubjectId) (mek : Mek)
  | openFiles (now : ℤ) (save clear : Write)
  | crash

/-- The call came back, with a result or an error. -/
def returned {α : Type} : EStateM.Result Stop World α → Bool
  | .error .crashed _ => false
  | _ => true

def succeeded {α : Type} : EStateM.Result Stop World α → Bool
  | .ok _ _ => true
  | .error _ _ => false

namespace Shred

def init : Shred := ⟨none, ⟨[], none⟩, []⟩

/-- A crash takes the process and leaves the files. -/
def settle {α : Type} (events : List Event) : EStateM.Result Stop World α → Shred
  | .ok _ x => ⟨some x.state, x.files, events⟩
  | .error (.failed _) x => ⟨some x.state, x.files, events⟩
  | .error .crashed x => ⟨none, x.files, events⟩

def step (d : Shred) (a : Action) : Option Shred :=
  match d.process, a with
  | some c, .designate mek s targets key w =>
    let r := (designate mek s targets key w).run ⟨c, d.files⟩
    some (settle
      (if c.keyring.get s = none ∧ returned r then .designated s key :: d.events else d.events) r)
  | some c, .erase s now w =>
    let r := (erase s now w).run ⟨c, d.files⟩
    let events := .eraseCalled s :: d.events
    some (settle (if succeeded r then .erased s :: events else events) r)
  | some c, .rewrapKeyring old new version w =>
    some (settle d.events ((rewrapKeyring old new version w).run ⟨c, d.files⟩))
  | some c, .subjectKey s mek =>
    match (subjectKey s mek).run ⟨c, d.files⟩ with
    | .ok key x => some ⟨some x.state, x.files, .used s key :: d.events⟩
    | .error _ x => some ⟨some x.state, x.files, d.events⟩
  | some _, .crash => some { d with process := none }
  | none, .openFiles now save clear =>
    -- a failed open leaves no process
    match openFiles d.files now save clear with
    | .ok _ x => some ⟨some x.state, x.files, d.events⟩
    | .error _ x => some { d with files := x.files }
  | _, _ => none

end Shred

/-! ### Permanence -/

/-- The subject is erased in the process for good: no wrapped key, no cached key, and neither a new
designation nor a read brings one back. -/
structure Gone (c : CryptoShredState) (s : SubjectId) : Prop where
  entry : ∃ e, c.keyring.get s = some e ∧ e.state = .erased ∧ e.wrappedKey = none
  cache : c.keyring.cache s = none
  designate : ∀ mek targets key w files,
    (designate mek s targets key w).run ⟨c, files⟩ = .error (.failed (.subjectErased s)) ⟨c, files⟩
  subjectKey : ∀ mek files,
    (subjectKey s mek).run ⟨c, files⟩ = .error (.failed (.subjectErased s)) ⟨c, files⟩

def HasKey (c : CryptoShredState) (s : SubjectId) (key : SubjectKey) : Prop :=
  ∃ e w, c.keyring.get s = some e ∧ e.state = .active ∧ e.wrappedKey = some w ∧
    w.wrapped.plaintext = key

/-- An erasure that returned holds in the process and in whatever the files can be opened as; the
key of a subject that was never to be erased is there, in the process or once it is opened. -/
structure Permanent (d : Shred) : Prop where
  gone : ∀ s, .erased s ∈ d.events → ∀ c ∈ d.process, Gone c s
  reopened : ∀ s, .erased s ∈ d.events → ∀ now save clear u x,
    openFiles d.files now save clear = .ok u x → Gone x.state s
  kept : ∀ s key, .designated s key ∈ d.events → .eraseCalled s ∉ d.events →
    (∀ c ∈ d.process, HasKey c s key) ∧
    (d.process = none → ∀ now save clear u x,
      openFiles d.files now save clear = .ok u x → HasKey x.state s key)

/-! ### The condition -/

/-- The file has every subject that is active in memory. -/
def Saved (x : World) : Prop :=
  ∀ e ∈ x.state.keyring.entries, e.state = .active → cellOf x.files.keyring e.subjectId = e.cell

def Write.crashes : Write → Bool
  | .crashed _ => true
  | _ => false

def EraseWrites.crashes (w : EraseWrites) : Bool :=
  w.breadcrumb.crashes || w.keyring.crashes || w.clear.crashes

namespace Action

/-- The process may end in this action. -/
def crashes : Action → Bool
  | designate _ _ _ _ w | rewrapKeyring _ _ _ w => w.crashes
  | erase _ _ w => w.crashes
  | subjectKey _ _ | openFiles _ _ _ => false
  | crash => true

def erases : Action → Option SubjectId
  | erase s _ _ => some s
  | _ => none

end Action

/-- A crash finds every active subject in the file, and an active subject is erased only when the
erasures before it have reached the file. -/
def Shred.Proper (d : Shred) (a : Action) : Prop :=
  ∀ c ∈ d.process,
    (a.crashes → Saved ⟨c, d.files⟩) ∧
    ∀ s ∈ a.erases, (c.keyring.get s).any (·.state = .active) → Flushed ⟨c, d.files⟩

instance (x : World) : Decidable (Flushed x) := inferInstanceAs (Decidable (∀ e ∈ _, _ → _))

instance (x : World) : Decidable (Saved x) := inferInstanceAs (Decidable (∀ e ∈ _, _ → _))

instance (d : Shred) (a : Action) : Decidable (d.Proper a) :=
  inferInstanceAs (Decidable (∀ c ∈ d.process, _))

/-! ### What the cells say -/

section Cells

open Exec

variable {c : CryptoShredState} {s : SubjectId} {key : SubjectKey}

lemma SubjectKeyring.Ok.gone (h : c.keyring.Ok) (hs : cellOf c.keyring.entries s = .erased) :
    Gone c s := by
  obtain ⟨e, hl, herased, hwrapped⟩ := h.entries.erased hs
  have hget : c.keyring.get s = some e := hl
  have hcache : c.keyring.cache s = none := by
    cases hc : c.keyring.cache s with
    | none => rfl
    | some key =>
      have := h.cache s key hc
      rw [hs] at this
      cases this
  refine ⟨⟨e, hget, herased, hwrapped⟩, hcache, ?_, ?_⟩
  · intro mek targets key w files
    refine run_bind_of_error (run_modifyE_of_error ?_)
    simp only [SubjectKeyring.designate, hget, herased, if_true]
  · intro mek files
    simp only [subjectKey, EStateM.run, SubjectKeyring.dekFromGuard, hcache, hget, herased, if_true]

lemma Saved.cells {x : World} (h : Saved x) (hs : cellOf x.state.keyring.entries s = .active key) :
    cellOf x.files.keyring s = .active key := by
  obtain ⟨e, w, hl, hactive, -, -⟩ := lookup_of_active hs
  obtain ⟨hmem, hid⟩ := mem_of_lookup hl
  have := h e hmem hactive
  rwa [hid, ← cellOf_of_lookup hl, hs] at this

end Cells

/-! ### Calls that come back -/

/-- The process survives the call. -/
def Stays {α : Type} (t : Task α) : Prop := ∀ x, returned (t.run x)

section Stays

open Exec

variable {α β : Type}

lemma Stays.bind {t : Task α} {f : α → Task β} (ht : Stays t) (hf : ∀ a, Stays (f a)) :
    Stays (t >>= f) := by
  intro x
  have hx := ht x
  cases hrun : t.run x with
  | ok a y =>
    rw [run_bind_of_ok hrun]
    exact hf a y
  | error e y =>
    rw [hrun] at hx
    rw [run_bind_of_error hrun]
    cases e <;> exact hx

lemma stays_pure {a : α} : Stays (pure a : Task α) := fun _ => rfl

lemma stays_get : Stays (get : Task World) := fun _ => rfl

lemma stays_modify {f : World → World} : Stays (modify f : Task Unit) := fun _ => rfl

lemma stays_updateKeyring {f : SubjectKeyring → Except CryptoShredError SubjectKeyring} :
    Stays (updateKeyring f) := by
  intro x
  simp only [updateKeyring, modifyE, EStateM.run]
  cases f x.state.keyring <;> rfl

lemma stays_writeDurable {effect : World → World} {error : CryptoShredError}
    (hw : w.crashes = false) : Stays (writeDurable effect error w) := by
  intro x
  cases w with
  | done => rfl
  | refused => rfl
  | crashed renamed => cases hw

lemma stays_clearBreadcrumb (hw : w.crashes = false) : Stays (clearBreadcrumb w) := by
  intro x
  cases w with
  | done => rfl
  | refused => rfl
  | crashed removed => cases hw

lemma stays_designate {mek : Mek} {s : SubjectId} {key : SubjectKey} (hw : w.crashes = false) :
    Stays (designate mek s targets key w) :=
  stays_updateKeyring.bind fun _ => (stays_writeDurable hw).bind fun _ => stays_modify

lemma stays_erase {s : SubjectId} {now : ℤ} {w : EraseWrites} (hw : w.crashes = false) :
    Stays (erase s now w) := by
  simp only [EraseWrites.crashes, Bool.or_eq_false_iff] at hw
  obtain ⟨⟨hcrumb, hkeyring⟩, hclear⟩ := hw
  refine stays_get.bind fun x => ?_
  cases x.state.keyring.get s with
  | none => exact fun _ => rfl
  | some e =>
    simp only
    split_ifs
    · unfold eraseAgain
      cases e.attestation with
      | some a => exact stays_pure
      | none =>
        exact stays_modify.bind fun _ => (stays_writeDurable hkeyring).bind fun _ => stays_pure
    · exact (stays_writeDurable hcrumb).bind fun _ => stays_modify.bind fun _ =>
        (stays_writeDurable hkeyring).bind fun _ => (stays_clearBreadcrumb hclear).bind fun _ =>
        stays_pure

lemma stays_rewrapKeyring {old new : Mek} {version : ℕ} (hw : w.crashes = false) :
    Stays (rewrapKeyring old new version w) := by
  refine stays_get.bind fun x => stays_updateKeyring.bind fun _ => Stays.bind ?_ fun _ => ?_
  · unfold onlyIf
    split_ifs
    · exact stays_writeDurable hw
    · exact stays_pure
  · exact stays_modify.bind fun _ => stays_pure

end Stays

/-! ### Runs -/

namespace Shred

open Exec

variable {b : Prop}

/-- An open process agrees with its files; without a process the files can be opened. -/
def Inv (d : Shred) : Prop :=
  match d.process with
  | some c => ∃ k, Holds False d.events k ⟨c, d.files⟩
  | none => Recoverable d.events d.files

variable {d d' : Shred} {a : Action} {ev : List Event} {k : SubjectKeyring} {x : World}
  {c : CryptoShredState} {files : Files} {s : SubjectId} {key : SubjectKey}

lemma Inv.holds (h : Inv d) (hc : d.process = some c) :
    ∃ k, Holds False d.events k ⟨c, d.files⟩ := by
  unfold Inv at h
  rwa [hc] at h

lemma Inv.recoverable (h : Inv d) (hc : d.process = none) : Recoverable d.events d.files := by
  unfold Inv at h
  rwa [hc] at h

lemma weaken (h : Holds b ev k x) : Holds False ev k x :=
  ⟨h.keyring, h.ok, h.file, h.agrees.mono False.elim⟩

lemma strengthen {b : Bool} (h : Holds False ev k x) (hsaved : b → Saved x) :
    Holds (b = true) ev k x := by
  refine ⟨h.keyring, h.ok, h.file, h.agrees.mono fun hb u key hmem => ?_⟩
  rw [← h.keyring] at hmem
  exact (hsaved hb).cells hmem

lemma inv_settle {α : Type} {b : Bool} {t : Task α} {P : World → Prop}
    (ht : b = false → Stays t) (hx : P x)
    (h : Triple P t (fun _ x => ∃ k, Holds (b = true) ev k x)
      (fun x => ∃ k, Holds (b = true) ev k x)) : Inv (settle ev (t.run x)) := by
  rcases hrun : t.run x with ⟨_, y⟩ | ⟨_ | _, y⟩
  · exact (h.of_ok hx hrun).imp fun _ => weaken
  · exact (h.of_error hx hrun).imp fun _ => weaken
  · obtain ⟨k, hk⟩ := h.of_error hx hrun
    cases b with
    | false =>
      have := ht rfl x
      rw [hrun] at this
      cases this
    | true =>
      have hk : Holds True ev k y := by simpa using hk
      exact hk.recoverable

lemma inv_designate {mek : Mek} (h : Holds False ev k ⟨c, files⟩)
    (hsaved : w.crashes → Saved ⟨c, files⟩) : Inv (settle (if c.keyring.get s = none ∧
        returned ((designate mek s targets key w).run ⟨c, files⟩) then .designated s key :: ev
        else ev) ((designate mek s targets key w).run ⟨c, files⟩)) := by
  have hkeyring : c.keyring = k := h.keyring
  -- a call that came back has given a new subject its key in memory
  have hback : ∀ {x : World}, (∃ k', Holds False ev k' x ∧
      (k.get s = none → cellOf k'.entries s = .active key)) →
      ∃ k', Holds False (if c.keyring.get s = none then .designated s key :: ev else ev) k' x := by
    rintro x ⟨k', hk', hkey⟩
    refine ⟨k', hk'.keyring, hk'.ok, hk'.file, ?_⟩
    split_ifs with hget
    · exact hk'.agrees.note_key rfl (hkey (hkeyring ▸ hget)) False.elim
    · exact hk'.agrees
  rcases hrun : (designate mek s targets key w).run ⟨c, files⟩ with ⟨_, y⟩ | ⟨_ | _, y⟩
  · obtain ⟨k', hk', -, hkey⟩ := designate_spec.of_ok h hrun
    simpa [returned, settle, Inv] using hback ⟨k', hk', hkey⟩
  · simpa [returned, settle, Inv] using hback (designate_spec.of_error h hrun)
  · obtain ⟨k', hk', -⟩ := designate_spec.of_error (strengthen h hsaved) hrun
    have hw : w.crashes = true := by
      by_contra hw
      have hstays : Stays (designate mek s targets key w) :=
        stays_designate (Bool.eq_false_iff.mpr hw)
      have := hstays ⟨c, files⟩
      rw [hrun] at this
      cases this
    simp only [hw] at hk'
    simpa [returned, settle, Inv] using hk'.recoverable

lemma inv_erase {now : ℤ} {w : EraseWrites} (h : Holds False ev k ⟨c, files⟩)
    (hsaved : w.crashes → Saved ⟨c, files⟩)
    (hflushed : (c.keyring.get s).any (·.state = .active) → Flushed ⟨c, files⟩) :
    Inv (settle (if succeeded ((erase s now w).run ⟨c, files⟩) then
        .erased s :: .eraseCalled s :: ev else .eraseCalled s :: ev)
      ((erase s now w).run ⟨c, files⟩)) := by
  have hkeyring : c.keyring = k := h.keyring
  have hcalled : Holds (w.crashes = true) (.eraseCalled s :: ev) k ⟨c, files⟩ := by
    have := strengthen h hsaved
    exact ⟨this.keyring, this.ok, this.file, this.agrees.note_eraseCalled⟩
  have hmem : Event.eraseCalled s ∈ Event.eraseCalled s :: ev := List.mem_cons_self
  have hspec : Triple _ (erase s now w) _ _ := erase_spec (b := w.crashes = true) (k := k) hmem
  have hpre := And.intro hcalled (hkeyring ▸ hflushed)
  rcases hrun : (erase s now w).run ⟨c, files⟩ with ⟨_, y⟩ | ⟨e, y⟩
  · obtain ⟨k', hk', hs⟩ := hspec.of_ok hpre hrun
    exact ⟨k', weaken ⟨hk'.keyring, hk'.ok, hk'.file, hk'.agrees.note_erased hs⟩⟩
  · have := inv_settle (fun hw => stays_erase hw) hpre
      (hspec.weaken (fun _ y ⟨k', hk', _⟩ => ⟨k', hk'⟩) fun _ => id)
    rw [hrun] at this
    exact this

/-- **Step lemma.** -/
lemma inv_step (hinv : Inv d) (hproper : d.Proper a) (hs : step d a = some d') : Inv d' := by
  unfold step at hs
  split at hs
  · next c mek s targets key w hc =>
    obtain ⟨k, h⟩ := hinv.holds hc
    cases hs
    exact inv_designate h (hproper c hc).1
  · next c s now w hc =>
    obtain ⟨k, h⟩ := hinv.holds hc
    cases hs
    exact inv_erase h (hproper c hc).1 ((hproper c hc).2 s rfl)
  · next c old new version w hc =>
    obtain ⟨k, h⟩ := hinv.holds hc
    cases hs
    exact inv_settle stays_rewrapKeyring (strengthen h (hproper c hc).1) rewrapKeyring_spec
  · next c s mek hc =>
    obtain ⟨k, h⟩ := hinv.holds hc
    split at hs
    · next key x hrun =>
      cases hs
      obtain ⟨k', hk', hcell⟩ := subjectKey_spec.of_ok h hrun
      exact ⟨k', hk'.keyring, hk'.ok, hk'.file, hk'.agrees.note_key rfl hcell False.elim⟩
    · next e x hrun =>
      cases hs
      exact subjectKey_spec.of_error h hrun
  · next c hc =>
    obtain ⟨k, h⟩ := hinv.holds hc
    cases hs
    have := strengthen h (hproper c hc).1
    exact Holds.recoverable (by simpa [Action.crashes] using this)
  · next now save clear hc =>
    have hfiles := hinv.recoverable hc
    split at hs
    · next u x hrun =>
      cases hs
      exact (hfiles.of_open_ok hrun).imp fun _ => weaken
    · next e x hrun =>
      cases hs
      unfold Inv
      simp only [hc]
      exact hfiles.of_open_error hrun
  · cases hs

lemma recoverable_erasures (h : Holds False ev k x) :
    Recoverable (ev.filter Event.isErasure) x.files := by
  have hholds : Holds True (ev.filter Event.isErasure) k x := by
    refine ⟨h.keyring, h.ok, h.file, h.agrees.pending, h.agrees.behind, ?_, ?_, ?_⟩
    · exact fun s hs => List.mem_filter.mpr ⟨h.agrees.called s hs, rfl⟩
    · exact fun s hs => h.agrees.erased s (List.mem_filter.mp hs).1
    · intro e he s key hs
      have := (List.mem_filter.mp he).2
      simp [Event.isErasure, hs] at this
  exact hholds.recoverable

lemma gone_of_holds (h : Holds b ev k x) (hs : .erased s ∈ ev) : Gone x.state s := by
  obtain ⟨rfl, hok, -, hagrees⟩ := h
  exact hok.gone (hagrees.erased s hs)

lemma hasKey_of_holds (h : Holds b ev k x) (hs : .designated s key ∈ ev) (hc : .eraseCalled s ∉ ev) :
    HasKey x.state s key := by
  obtain ⟨rfl, -, -, hagrees⟩ := h
  rcases hagrees.once _ hs s key rfl with hmem | hmem
  · exact lookup_of_active hmem.1
  · exact absurd (hagrees.called s (.inl hmem)) hc

lemma Inv.permanent (hinv : Inv d) : Permanent d := by
  cases hc : d.process with
  | some c =>
    obtain ⟨k, h⟩ := hinv.holds hc
    constructor
    · rintro s hs c' hc'
      cases hc.symm.trans hc'
      exact gone_of_holds h hs
    · intro s hs now save clear u x hopen
      obtain ⟨k', hk'⟩ := (recoverable_erasures h).of_open_ok hopen
      exact gone_of_holds hk' (List.mem_filter.mpr ⟨hs, rfl⟩)
    · rintro s key hs hcall
      refine ⟨fun c' hc' => ?_, fun hnone => by simp [hc] at hnone⟩
      cases hc.symm.trans hc'
      exact hasKey_of_holds h hs hcall
  | none =>
    constructor
    · exact fun s hs c' hc' => by simp [hc] at hc'
    · intro s hs now save clear u x hopen
      obtain ⟨k, hk⟩ := (hinv.recoverable hc).of_open_ok hopen
      exact gone_of_holds hk hs
    · refine fun s key hs hcall => ⟨fun c' hc' => by simp [hc] at hc', fun _ => ?_⟩
      intro now save clear u x hopen
      obtain ⟨k, hk⟩ := (hinv.recoverable hc).of_open_ok hopen
      exact hasKey_of_holds hk hs hcall

/-- In the runs that meet the condition at every step, erasures are permanent and no other key is
lost. -/
theorem permanent_run {as : List Action} (h : Machine.Along step Proper init as)
    (hrun : Machine.run step init as = some d) : Permanent d := by
  have hinit : Inv init :=
    ⟨⟨by simp [init], by simp [init]⟩, by simp [init, cellOf, lookup], by simp [init],
      by simp [init]⟩
  exact (Machine.invariant_run (fun _ _ _ => inv_step) hinit h hrun).permanent

/-- Erase `ann` with a refused keyring write, erase `ann` again, and crash while `bob` is being
erased. -/
def overwrittenBreadcrumb : List Action :=
  [.openFiles 0 .done .done,
    .designate 1 "ann" [.wholeNode 1] 11 .done,
    .designate 1 "bob" [.wholeNode 2] 12 .done,
    .erase "ann" 5 ⟨.done, .refused, .done⟩,
    .erase "ann" 6 ⟨.done, .done, .done⟩,
    .erase "bob" 7 ⟨.done, .crashed false, .done⟩]

/-- Crash after a designation whose write was refused. -/
def unsavedSubject : List Action :=
  [.openFiles 0 .done .done, .designate 1 "ann" [.wholeNode 1] 11 .refused, .crash]

/-- Erase with a failed keyring write, retry by a designation, erase the other subject, crash in the
last write and reopen. -/
def flushedErasures : List Action :=
  [.openFiles 0 .done .done,
    .designate 1 "ann" [.wholeNode 1] 11 .done,
    .designate 1 "bob" [.wholeNode 2] 12 .done,
    .erase "ann" 5 ⟨.done, .refused, .done⟩,
    .designate 1 "cyd" [.wholeNode 3] 13 .done,
    .erase "ann" 6 ⟨.done, .done, .done⟩,
    .rewrapKeyring 1 2 2 .done,
    .erase "bob" 7 ⟨.done, .crashed false, .done⟩,
    .openFiles 8 .done .done]

/-- **An erasure that returned is undone.** -/
theorem permanent_violated :
    (∃ d ∈ Machine.run step init overwrittenBreadcrumb, .erased "ann" ∈ d.events ∧
      ∃ x, openFiles d.files 9 .done .done = .ok () x ∧ HasKey x.state "ann" 11) ∧
    ∃ d ∈ Machine.run step init unsavedSubject, .designated "ann" 11 ∈ d.events ∧
      .eraseCalled "ann" ∉ d.events ∧
      ∃ x, openFiles d.files 9 .done .done = .ok () x ∧ x.state.keyring.get "ann" = none := by
  refine ⟨⟨_, rfl, by decide, _, rfl, _, _, rfl, rfl, rfl, rfl⟩,
    ⟨_, rfl, by decide, by decide, _, rfl, rfl⟩⟩

theorem permanent_run_flushed :
    ∃ d ∈ Machine.run step init flushedErasures, Permanent d ∧ .erased "ann" ∈ d.events ∧
      .eraseCalled "bob" ∈ d.events ∧ .designated "cyd" 13 ∈ d.events := by
  have hproper : Machine.Along step Proper init flushedErasures := by decide
  exact ⟨_, rfl, permanent_run hproper rfl, by decide, by decide, by decide⟩

end Shred

end Aletheia.CryptoShred
