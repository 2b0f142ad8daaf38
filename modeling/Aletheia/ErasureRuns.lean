import Aletheia.KeyringErasure

/-!
# Erasures over crashes and reopens

The keyring file may be behind memory. What keeps an erasure permanent is that a subject erased in
memory is erased in the file or named by the breadcrumb. A write that is refused leaves the call
with an error and memory changed, so a later erasure of another subject may overwrite the breadcrumb
while it is still needed.
-/

namespace Aletheia.CryptoShred

open Function List

variable {now : ℤ}

inductive Event where
  /-- a new subject was given this key -/
  | designated (s : SubjectId) (key : SubjectKey)
  /-- the key of a subject was read, to seal or unseal a value -/
  | used (s : SubjectId) (key : SubjectKey)
  | eraseCalled (s : SubjectId)
  /-- `erase` returned an attestation -/
  | erased (s : SubjectId)
deriving DecidableEq

namespace Event

/-- The key that the event shows a subject to have. -/
def key? : Event → Option (SubjectId × SubjectKey)
  | designated s key | used s key => some (s, key)
  | eraseCalled _ | erased _ => none

def isErasure (e : Event) : Bool := e.key?.isNone

end Event

/-- What memory, file and breadcrumb say, against the events so far. If `b`, the file has the keys
that were given out and not erased. -/
structure Agrees (b : Prop) (ev : List Event) (mem disk : SubjectId → Cell)
    (crumb : Option SubjectId) : Prop where
  pending : ∀ s, mem s = .erased → disk s = .erased ∨ crumb = some s
  behind : ∀ s, disk s = .absent ∨ disk s = mem s ∨ mem s = .erased
  called : ∀ s, mem s = .erased ∨ crumb = some s → .eraseCalled s ∈ ev
  erased : ∀ s, .erased s ∈ ev → mem s = .erased
  once : ∀ e ∈ ev, ∀ s key, e.key? = some (s, key) →
    mem s = .active key ∧ (b → disk s = .active key) ∨ mem s = .erased

namespace Agrees

variable {b : Prop} {ev : List Event} {mem disk : SubjectId → Cell} {crumb : Option SubjectId}
  {s : SubjectId} {key : SubjectKey}

lemma save (h : Agrees b ev mem disk crumb) : Agrees b ev mem mem crumb where
  pending _ hs := .inl hs
  behind _ := .inr (.inl rfl)
  called := h.called
  erased := h.erased
  once e he u v hu := (h.once e he u v hu).imp_left fun hmem => ⟨hmem.1, fun _ => hmem.1⟩

lemma setBreadcrumb (h : Agrees b ev mem disk crumb) (hs : .eraseCalled s ∈ ev)
    (hflushed : ∀ u, mem u = .erased → disk u = .erased) : Agrees b ev mem disk (some s) where
  pending u hu := .inl (hflushed u hu)
  behind := h.behind
  called u hu := by
    rcases hu with hu | hu
    · exact h.called u (.inl hu)
    · exact Option.some.inj hu ▸ hs
  erased := h.erased
  once := h.once

lemma clearBreadcrumb (h : Agrees b ev mem mem crumb) : Agrees b ev mem mem none where
  pending _ hu := .inl hu
  behind := h.behind
  called u hu := h.called u (hu.imp_right (by simp))
  erased := h.erased
  once := h.once

lemma erase (h : Agrees b ev mem disk (some s)) :
    Agrees b ev (update mem s .erased) disk (some s) where
  pending u hu := by
    by_cases hus : u = s
    · exact .inr (hus ▸ rfl)
    · rw [update_of_ne hus] at hu
      exact h.pending u hu
  behind u := by
    by_cases hus : u = s
    · subst hus
      exact .inr (.inr (update_self ..))
    · rw [update_of_ne hus]
      exact h.behind u
  called u hu := by
    by_cases hus : u = s
    · exact hus ▸ h.called s (.inr rfl)
    · rw [update_of_ne hus] at hu
      exact h.called u hu
  erased u hu := by
    by_cases hus : u = s
    · subst hus
      exact update_self ..
    · rw [update_of_ne hus]
      exact h.erased u hu
  once e he u v hu := by
    by_cases hus : u = s
    · subst hus
      exact .inr (update_self ..)
    · rw [update_of_ne hus]
      exact h.once e he u v hu

variable (h : Agrees b ev mem disk crumb)

include h

lemma designate (hs : mem s = .absent) :
    Agrees b ev (update mem s (.active key)) disk crumb where
  pending u hu := by
    by_cases hus : u = s
    · subst hus
      simp at hu
    · rw [update_of_ne hus] at hu
      exact h.pending u hu
  behind u := by
    by_cases hus : u = s
    · subst hus
      have := h.behind u
      simp only [hs, reduceCtorEq, or_false, or_self] at this
      exact .inl this
    · rw [update_of_ne hus]
      exact h.behind u
  called u hu := by
    by_cases hus : u = s
    · subst hus
      exact h.called u (hu.imp_left (by simp))
    · rw [update_of_ne hus] at hu
      exact h.called u hu
  erased u hu := by
    have hus : u ≠ s := by
      rintro rfl
      simp [h.erased u hu] at hs
    rw [update_of_ne hus]
    exact h.erased u hu
  once e he u v hu := by
    have hus : u ≠ s := by
      rintro rfl
      rcases h.once e he u v hu with hmem | hmem <;> simp [hmem] at hs
    rw [update_of_ne hus]
    exact h.once e he u v hu

lemma note_key {e : Event} (he : e.key? = some (s, key)) (hmem : mem s = .active key)
    (hdisk : b → disk s = .active key) :
    Agrees b (e :: ev) mem disk crumb where
  pending := h.pending
  behind := h.behind
  called u hu := mem_cons_of_mem _ (h.called u hu)
  erased u hu := by
    rcases mem_cons.mp hu with rfl | hu
    · simp [Event.key?] at he
    · exact h.erased u hu
  once d hd u v hu := by
    rcases mem_cons.mp hd with rfl | hd
    · cases he.symm.trans hu
      exact .inl ⟨hmem, hdisk⟩
    · exact h.once d hd u v hu

lemma note_eraseCalled :
    Agrees b (.eraseCalled s :: ev) mem disk crumb where
  pending := h.pending
  behind := h.behind
  called u hu := mem_cons_of_mem _ (h.called u hu)
  erased u hu := h.erased u (by simpa using hu)
  once d hd u v hu := by
    rcases mem_cons.mp hd with rfl | hd
    · simp [Event.key?] at hu
    · exact h.once d hd u v hu

lemma note_erased (hs : mem s = .erased) :
    Agrees b (.erased s :: ev) mem disk crumb where
  pending := h.pending
  behind := h.behind
  called u hu := mem_cons_of_mem _ (h.called u hu)
  erased u hu := by
    simp only [mem_cons, Event.erased.injEq] at hu
    rcases hu with rfl | hu
    · exact hs
    · exact h.erased u hu
  once d hd u v hu := by
    rcases mem_cons.mp hd with rfl | hd
    · simp [Event.key?] at hu
    · exact h.once d hd u v hu

lemma mono {b' : Prop} (hb : b' → ∀ u key, mem u = .active key → disk u = .active key) :
    Agrees b' ev mem disk crumb where
  pending := h.pending
  behind := h.behind
  called := h.called
  erased := h.erased
  once e he u v hu :=
    (h.once e he u v hu).imp_left fun hmem => ⟨hmem.1, fun hb' => hb hb' u v hmem.1⟩

end Agrees

/-! ### The calls -/

/-- The process has the keyring `k`, and memory, file and breadcrumb agree. -/
structure Holds (b : Prop) (ev : List Event) (k : SubjectKeyring) (x : World) : Prop where
  keyring : x.state.keyring = k
  ok : k.Ok
  file : EntriesOk x.files.keyring
  agrees : Agrees b ev (cellOf k.entries) (cellOf x.files.keyring) x.files.breadcrumb

section Calls

open Exec

variable {b : Prop} {ev : List Event} {k k' : SubjectKeyring} {x : World} {s : SubjectId}
  {w : Write}

variable (h : Holds b ev k x)

include h

lemma Holds.setKeyring (hok : k'.Ok)
    (hagrees : Agrees b ev (cellOf k'.entries) (cellOf x.files.keyring) x.files.breadcrumb) :
    Holds b ev k' (x.setKeyring k') :=
  ⟨rfl, hok, h.file, hagrees⟩

lemma Holds.setKeyring_same (hok : k'.Ok) (hcells : cellOf k'.entries = cellOf k.entries) :
    Holds b ev k' (x.setKeyring k') :=
  h.setKeyring hok (hcells ▸ h.agrees)

lemma Holds.saved_entries : x.saved.files.keyring = k.entries :=
  congrArg SubjectKeyring.entries h.keyring

lemma Holds.saved : Holds b ev k x.saved where
  keyring := h.keyring
  ok := h.ok
  file := by
    rw [h.saved_entries]
    exact h.ok.entries
  agrees := by
    rw [h.saved_entries]
    exact h.agrees.save

omit h

lemma triple_save (w : Write) : Triple (Holds b ev k) (saveKeyring w)
    (fun _ x => Holds b ev k x ∧ x.files.keyring = k.entries) (Holds b ev k) := by
  intro x h
  cases w with
  | done => exact ⟨h.saved, h.saved_entries⟩
  | refused => exact h
  | crashed renamed =>
    cases renamed with
    | true => exact h.saved
    | false => exact h

lemma Holds.refreshGates (h : Holds b ev k x) : Holds b ev k x.refreshGates :=
  ⟨h.keyring, h.ok, h.file, h.agrees⟩

/-- The error of a failed call is the one the update gives, and nothing has changed. -/
lemma triple_updateKeyring {f : SubjectKeyring → Except CryptoShredError SubjectKeyring}
    {P : World → Prop} (hf : f k = .ok k') (h : ∀ x, P x → x.state.keyring = k)
    (hk : ∀ x, P x → Holds b ev k' (x.setKeyring k')) :
    Triple P (updateKeyring f) (fun _ => Holds b ev k') (Holds b ev k') := by
  intro x hx
  have hrun : (updateKeyring f).run x = .ok () (x.setKeyring k') := by
    refine run_modifyE ?_
    rw [h x hx, hf]
  rw [hrun]
  exact hk x hx

lemma designate_spec {mek : Mek} {targets : List DesignationTarget} {key : SubjectKey} :
    Triple (Holds b ev k) (designate mek s targets key w)
      (fun _ x => ∃ k', Holds b ev k' x ∧ x.files.keyring = k'.entries ∧
        (k.get s = none → cellOf k'.entries s = .active key))
      (fun x => ∃ k', Holds b ev k' x ∧ (k.get s = none → cellOf k'.entries s = .active key)) := by
  intro x h
  cases hk : k.designate s mek targets key with
  | error err =>
    have hrun : (designate mek s targets key w).run x = .error (.failed err) x := by
      refine run_bind_of_error (run_modifyE_of_error ?_)
      simp only [h.keyring, hk]
    rw [hrun]
    refine ⟨k, h, fun hget => ?_⟩
    simp [SubjectKeyring.designate, hget] at hk
  | ok k' =>
    obtain ⟨hok, hnew, hold⟩ := h.ok.designate hk
    have hkey : k.get s = none → cellOf k'.entries s = .active key := by
      intro hget
      rw [hnew (cellOf_eq_absent.mpr hget), update_self]
    have hset : Triple (Holds b ev k) (updateKeyring fun k => k.designate s mek targets key)
        (fun _ => Holds b ev k') (Holds b ev k') := by
      refine triple_updateKeyring hk (fun x h => h.keyring) fun x h => ?_
      by_cases hs : cellOf k.entries s = .absent
      · refine h.setKeyring hok ?_
        rw [hnew hs]
        exact h.agrees.designate hs
      · exact h.setKeyring_same hok (hold hs)
    have hall : Triple (Holds b ev k) (designate mek s targets key w)
        (fun _ x => Holds b ev k' x ∧ x.files.keyring = k'.entries) (Holds b ev k') := by
      refine hset.bind fun _ => (triple_save w).bind fun _ => ?_
      exact triple_modify fun x hx => ⟨hx.1.refreshGates, hx.2⟩
    refine hall.weaken (fun _ x hx => ?_) (fun x hx => ?_) x h
    · exact ⟨k', hx.1, hx.2, hkey⟩
    · exact ⟨k', hx, hkey⟩

lemma triple_writeBreadcrumb (w : Write) (hs : .eraseCalled s ∈ ev)
    (hflushed : Holds b ev k x → ∀ u, cellOf k.entries u = .erased →
      cellOf x.files.keyring u = .erased) :
    Triple (fun y => y = x ∧ Holds b ev k y) (writeBreadcrumb s w)
      (fun _ y => Holds b ev k y ∧ y.files.breadcrumb = some s) (Holds b ev k) := by
  rintro y ⟨rfl, h⟩
  have hset : Holds b ev k (y.setBreadcrumb (some s)) :=
    ⟨h.keyring, h.ok, h.file, h.agrees.setBreadcrumb hs (hflushed h)⟩
  cases w with
  | done => exact ⟨hset, rfl⟩
  | refused => exact h
  | crashed renamed =>
    cases renamed with
    | true => exact hset
    | false => exact h

lemma triple_clearBreadcrumb (w : Write) :
    Triple (fun x => Holds b ev k x ∧ x.files.keyring = k.entries) (clearBreadcrumb w)
      (fun _ => Holds b ev k) (Holds b ev k) := by
  rintro x ⟨h, hsaved⟩
  have hset : Holds b ev k (x.setBreadcrumb none) := by
    refine ⟨h.keyring, h.ok, h.file, ?_⟩
    have hagrees := h.agrees
    simp only [World.setBreadcrumb, hsaved] at hagrees ⊢
    exact hagrees.clearBreadcrumb
  cases w with
  | done => exact hset
  | refused => exact h
  | crashed removed =>
    cases removed with
    | true => exact hset
    | false => exact h

/-- The subjects erased in memory are erased in the file. -/
def Flushed (x : World) : Prop :=
  ∀ e ∈ x.state.keyring.entries, e.state = .erased → cellOf x.files.keyring e.subjectId = .erased

lemma Flushed.cells (hf : Flushed x) (h : Holds b ev k x) (hs : cellOf k.entries s = .erased) :
    cellOf x.files.keyring s = .erased := by
  obtain ⟨e, hl, herased, -⟩ := h.ok.entries.erased hs
  obtain ⟨hmem, hid⟩ := mem_of_lookup hl
  exact hid ▸ hf e (h.keyring ▸ hmem) herased

lemma eraseActive_spec {e : SubjectEntry} {w : EraseWrites} (hget : k.get e.subjectId = some e)
    (hs : .eraseCalled e.subjectId ∈ ev) :
    Triple (fun x => Holds b ev k x ∧ Flushed x) (eraseActive e now w)
      (fun _ x => ∃ k', Holds b ev k' x ∧ cellOf k'.entries e.subjectId = .erased)
      (fun x => ∃ k', Holds b ev k' x) := by
  rintro x ⟨h, hflushed⟩
  let a : ErasureAttestation := ⟨e.subjectId, e.designation.length, now⟩
  let k' := k.eraseInMemory e.subjectId now a
  obtain ⟨hok, hcells⟩ : k'.Ok ∧ cellOf k'.entries = _ := h.ok.eraseInMemory (a := a) (by
    rw [cellOf_of_lookup hget]
    exact e.cell_ne_absent)
  have hcrumb := triple_writeBreadcrumb (b := b) (k := k) (x := x) w.breadcrumb hs
    fun h u => hflushed.cells h
  refine ((hcrumb.weaken (fun _ _ => id) fun _ hy => ⟨k, hy⟩).bind fun _ => ?_) x ⟨rfl, h⟩
  have hrest : Triple (Holds b ev k') (do
      saveKeyring w.keyring
      clearBreadcrumb w.clear
      pure a : Task ErasureAttestation) (fun _ => Holds b ev k') (Holds b ev k') :=
    (triple_save _).bind fun _ => (triple_clearBreadcrumb _).bind fun _ => triple_pure fun _ => id
  have hmod : Triple (fun y => Holds b ev k y ∧ y.files.breadcrumb = some e.subjectId)
      (modify fun y =>
        (y.setKeyring (y.state.keyring.eraseInMemory e.subjectId now a)).refreshGates : Task Unit)
      (fun _ => Holds b ev k') (Holds b ev k') := by
    refine triple_modify fun y hy => Holds.refreshGates ?_
    rw [hy.1.keyring]
    refine hy.1.setKeyring hok ?_
    have hagrees := hy.1.agrees
    rw [hy.2] at hagrees ⊢
    rw [hcells]
    exact hagrees.erase
  refine (hmod.bind fun _ => hrest).weaken (fun _ y hy => ?_) fun y hy => ⟨k', hy⟩
  exact ⟨k', hy, by rw [hcells, update_self]⟩

lemma eraseAgain_spec {e : SubjectEntry} (hget : k.get s = some e) (herased : e.state = .erased) :
    Triple (Holds b ev k) (eraseAgain e now w)
      (fun _ x => ∃ k', Holds b ev k' x ∧ cellOf k'.entries s = .erased)
      (fun x => ∃ k', Holds b ev k' x) := by
  have hs : cellOf k.entries s = .erased := by
    rw [cellOf_of_lookup hget, SubjectEntry.cell, herased]
  unfold eraseAgain
  cases e.attestation with
  | some a => exact triple_pure fun x h => ⟨k, h, hs⟩
  | none =>
    intro x h
    let a : ErasureAttestation := ⟨e.subjectId, e.designation.length, e.erasedAtMicros.getD now⟩
    let k' := k.upsert { e with attestation := some a }
    obtain ⟨hok, hcells⟩ : k'.Ok ∧ cellOf k'.entries = _ := h.ok.attest hget
    have hmod : Triple (Holds b ev k) (modify fun x =>
        x.setKeyring (x.state.keyring.upsert { e with attestation := some a }) : Task Unit)
        (fun _ => Holds b ev k') (Holds b ev k') := by
      refine triple_modify fun y hy => ?_
      rw [hy.keyring]
      exact hy.setKeyring_same hok hcells
    have hall := hmod.bind fun _ => (triple_save w).bind fun _ =>
      triple_pure (a := a) (Q := fun _ => Holds b ev k') fun _ hy => hy.1
    refine hall.weaken (fun _ y hy => ?_) (fun y hy => ⟨k', hy⟩) x h
    exact ⟨k', hy, by rw [hcells, hs]⟩

lemma erase_spec {w : EraseWrites} (hs : .eraseCalled s ∈ ev) :
    Triple (fun x => Holds b ev k x ∧ ((k.get s).any (·.state = .active) → Flushed x))
      (erase s now w) (fun _ x => ∃ k', Holds b ev k' x ∧ cellOf k'.entries s = .erased)
      (fun x => ∃ k', Holds b ev k' x) := by
  refine triple_get_bind fun x hx => ?_
  obtain ⟨h, hflushed⟩ := hx
  rw [h.keyring]
  cases hget : k.get s with
  | none => exact triple_throw fun y hy => ⟨k, hy ▸ h⟩
  | some e =>
    have hid : e.subjectId = s := (mem_of_lookup hget).2
    by_cases herased : e.state = .erased
    · simp only [herased, if_true]
      exact (eraseAgain_spec hget herased).at_state h
    · simp only [herased, if_false]
      rw [← hid] at hs hget ⊢
      refine (eraseActive_spec hget hs).at_state ⟨h, hflushed ?_⟩
      cases hstate : e.state <;> simp_all

lemma rewrapKeyring_spec {old new : Mek} {version : ℕ} :
    Triple (Holds b ev k) (rewrapKeyring old new version w) (fun _ x => ∃ k', Holds b ev k' x)
      (fun x => ∃ k', Holds b ev k' x) := by
  refine triple_get_bind fun x h => ?_
  cases hk : k.rewrap old new version with
  | error err =>
    rintro y rfl
    have hrun : (updateKeyring fun k => k.rewrap old new version).run y =
        .error (.failed err) y := by
      refine run_modifyE_of_error ?_
      simp only [h.keyring, hk]
    rw [run_bind_of_error hrun]
    exact ⟨k, h⟩
  | ok k' =>
    obtain ⟨hok, hcells⟩ := h.ok.rewrap hk
    have hset : Triple (Holds b ev k) (updateKeyring fun k => k.rewrap old new version)
        (fun _ => Holds b ev k') (Holds b ev k') :=
      triple_updateKeyring hk (fun x h => h.keyring) fun x h => h.setKeyring_same hok hcells
    refine Triple.weaken (Q := fun _ => Holds b ev k') (E := Holds b ev k') ?_
      (fun _ y hy => ⟨k', hy⟩) fun y hy => ⟨k', hy⟩
    refine (hset.at_state h).bind fun _ => ?_
    refine (triple_onlyIf fun _ => (triple_save w).weaken (fun _ _ => And.left) fun _ => id).bind
      fun _ => ?_
    exact (triple_modify fun y hy => ⟨hy.keyring, hy.ok, hy.file, hy.agrees⟩).bind fun _ =>
      triple_pure fun _ => id

lemma subjectKey_spec {mek : Mek} : Triple (Holds b ev k) (subjectKey s mek)
      (fun key x => ∃ k', Holds b ev k' x ∧ cellOf k'.entries s = .active key)
      (fun x => ∃ k', Holds b ev k' x) := by
  intro x h
  simp only [subjectKey, EStateM.run, h.keyring]
  cases hk : k.dekFromGuard s mek with
  | error err => exact ⟨k, h⟩
  | ok r =>
    obtain ⟨key, k'⟩ := r
    obtain ⟨hok, hentries, hcell⟩ := h.ok.dekFromGuard hk
    exact ⟨k', h.setKeyring_same hok (by rw [hentries]), by rw [hentries, hcell]⟩

end Calls

/-! ### Opening the files -/

/-- What the files alone say while no process is open. -/
structure Recoverable (ev : List Event) (files : Files) : Prop where
  file : EntriesOk files.keyring
  called : ∀ s, cellOf files.keyring s = .erased ∨ files.breadcrumb = some s → .eraseCalled s ∈ ev
  erased : ∀ s, .erased s ∈ ev → cellOf files.keyring s = .erased ∨ files.breadcrumb = some s
  once : ∀ e ∈ ev, ∀ s key, e.key? = some (s, key) → cellOf files.keyring s = .active key ∨
    cellOf files.keyring s = .erased ∨ files.breadcrumb = some s

section Open

open Exec

variable {ev : List Event} {k : SubjectKeyring} {x : World} {files : Files} {s : SubjectId}
  {save clear : Write}

lemma Holds.recoverable (h : Holds True ev k x) : Recoverable ev x.files where
  file := h.file
  called s hs := by
    refine h.agrees.called s (hs.imp_left fun hdisk => ?_)
    rcases h.agrees.behind s with habsent | hsame | hmem
    · rw [hdisk] at habsent
      cases habsent
    · rw [← hsame, hdisk]
    · exact hmem
  erased s hs := h.agrees.pending s (h.agrees.erased s hs)
  once e he s key hs := by
    rcases h.agrees.once e he s key hs with hmem | hmem
    · exact .inl (hmem.2 trivial)
    · exact .inr (h.agrees.pending s hmem)

lemma ok_load {es : List SubjectEntry} (h : EntriesOk es) : (SubjectKeyring.load es).Ok :=
  ⟨h, fun _ _ hcache => nomatch hcache⟩

variable (h : Recoverable ev files)

include h

lemma Recoverable.holds (hcrumb : files.breadcrumb = none) :
    Holds True ev (.load files.keyring) ⟨.load files.keyring, files⟩ where
  keyring := rfl
  ok := ok_load h.file
  file := h.file
  agrees :=
    { pending := fun _ hs => .inl hs
      behind := fun _ => .inr (.inl rfl)
      called := h.called
      erased := fun u hu => (h.erased u hu).resolve_right (by simp [hcrumb])
      once := fun e he u v hu => by
        rcases h.once e he u v hu with hactive | herased | hu
        · exact .inl ⟨hactive, fun _ => hactive⟩
        · exact .inr herased
        · simp [hcrumb] at hu }

/-- The subject that the breadcrumb names is erased before anything else is done. -/
lemma Recoverable.holds_forceErased (hcrumb : files.breadcrumb = some s) (now : ℤ) :
    Holds True ev ((SubjectKeyring.load files.keyring).forceErased s now)
      (World.setKeyring ⟨.load files.keyring, files⟩
        ((SubjectKeyring.load files.keyring).forceErased s now)) := by
  let k := SubjectKeyring.load files.keyring
  obtain ⟨hok, hcells⟩ : (k.forceErased s now).Ok ∧ cellOf (k.forceErased s now).entries = _ :=
    (ok_load h.file).forceErased
  refine ⟨rfl, hok, h.file, ?_⟩
  rw [hcells]
  change Agrees True ev (update (cellOf files.keyring) s .erased) _ files.breadcrumb
  rw [hcrumb]
  have hne : ∀ {u}, u ≠ s → files.breadcrumb ≠ some u := fun hus hu =>
    hus (Option.some.inj (hu.symm.trans hcrumb))
  constructor
  · intro u hu
    by_cases hus : u = s
    · exact .inr (hus ▸ rfl)
    · rw [update_of_ne hus] at hu
      exact .inl hu
  · intro u
    by_cases hus : u = s
    · subst hus
      exact .inr (.inr (update_self ..))
    · rw [update_of_ne hus]
      exact .inr (.inl rfl)
  · intro u hu
    by_cases hus : u = s
    · exact hus ▸ h.called s (.inr hcrumb)
    · rw [update_of_ne hus, ← hcrumb] at hu
      exact h.called u hu
  · intro u hu
    by_cases hus : u = s
    · subst hus
      exact update_self ..
    · rw [update_of_ne hus]
      exact (h.erased u hu).resolve_right (hne hus)
  · intro e he u v hu
    by_cases hus : u = s
    · subst hus
      exact .inr (update_self ..)
    · rw [update_of_ne hus]
      rcases h.once e he u v hu with hactive | herased | hu
      · exact .inl ⟨hactive, fun _ => hactive⟩
      · exact .inr herased
      · exact absurd hu (hne hus)

lemma Recoverable.recover_spec :
    Triple (· = ⟨.load files.keyring, files⟩) (recoverFromBreadcrumb now save clear)
      (fun _ x => ∃ k, Holds True ev k x) (fun x => ∃ k, Holds True ev k x) := by
  refine triple_get_bind fun x hx => ?_
  subst hx
  simp only
  cases hcrumb : files.breadcrumb with
  | none => exact triple_pure fun y hy => hy ▸ ⟨_, h.holds hcrumb⟩
  | some s =>
    let k := (SubjectKeyring.load files.keyring).forceErased s now
    refine Triple.weaken (Q := fun _ => Holds True ev k) (E := Holds True ev k) ?_
      (fun _ y hy => ⟨k, hy⟩) fun y hy => ⟨k, hy⟩
    refine Triple.bind (Q := fun _ => Holds True ev k) (triple_modify ?_) fun _ => ?_
    · rintro y rfl
      exact h.holds_forceErased hcrumb now
    refine (triple_save save).bind fun _ => ?_
    refine Triple.bind (Q := fun _ y => Holds True ev k y ∧ y.files.keyring = k.entries)
      (triple_modify fun y hy => ⟨hy.1.refreshGates, hy.2⟩) fun _ => ?_
    exact triple_clearBreadcrumb clear

lemma Recoverable.of_open_ok {u : Unit} (hrun : openFiles files now save clear = .ok u x) :
    ∃ k, Holds True ev k x :=
  h.recover_spec.of_ok rfl hrun

lemma Recoverable.of_open_error {e : Stop} (hrun : openFiles files now save clear = .error e x) :
    Recoverable ev x.files := by
  obtain ⟨k, hk⟩ := h.recover_spec.of_error rfl hrun
  exact hk.recoverable

end Open

end Aletheia.CryptoShred
