import Mathlib.Data.List.Nodup
import Aletheia.SubjectKeyring

/-!
# Erasure is permanent

What a keyring says about a subject is its cell: absent, erased, or active with a key. Memory and
file agree on the cells except for changes that could not be written yet; an erasure that could not
be written is named by the breadcrumb, which has room for one subject.
-/

namespace Aletheia.CryptoShred

open List Option

inductive Cell where
  | absent
  | erased
  | active (key : SubjectKey)
deriving DecidableEq

namespace SubjectEntry

/-- The key is there exactly while the subject is active. -/
def WellFormed (e : SubjectEntry) : Prop := e.state = .active ↔ e.wrappedKey.isSome

def cell (e : SubjectEntry) : Cell :=
  match e.state, e.wrappedKey with
  | .active, some w => .active w.wrapped.plaintext
  | _, _ => .erased

lemma cell_ne_absent (e : SubjectEntry) : e.cell ≠ .absent := by
  unfold cell
  split <;> simp

end SubjectEntry

def cellOf (es : List SubjectEntry) (s : SubjectId) : Cell :=
  match lookup s es with
  | none => .absent
  | some e => e.cell

section Lookup

variable {s : SubjectId} {e d : SubjectEntry} {es : List SubjectEntry}

lemma lookup_insert : lookup s (insert e es) = if s = e.subjectId then some e else lookup s es := by
  induction es with
  | nil =>
    simp only [insert, lookup]
    simp only [eq_comm]
  | cons d es ih =>
    by_cases hd : d.subjectId = e.subjectId
    · simp only [insert, hd, if_true, lookup]
      by_cases hs : s = e.subjectId
      · simp [hs]
      · simp [hs, Ne.symm hs]
    · simp only [insert, hd, if_false, lookup, ih]
      by_cases hs : s = e.subjectId
      · simp [hs, hd]
      · simp [hs]

lemma mem_of_lookup (h : lookup s es = some e) : e ∈ es ∧ e.subjectId = s := by
  induction es with
  | nil => cases h
  | cons d es ih =>
    simp only [lookup] at h
    split_ifs at h with hd
    · cases h
      exact ⟨mem_cons_self, hd⟩
    · obtain ⟨hmem, hid⟩ := ih h
      exact ⟨mem_cons_of_mem _ hmem, hid⟩

lemma of_mem_insert (h : d ∈ insert e es) : d = e ∨ d ∈ es := by
  induction es with
  | nil => exact .inl (mem_singleton.mp h)
  | cons c es ih =>
    simp only [insert] at h
    split_ifs at h with hc
    · rcases mem_cons.mp h with rfl | h
      · exact .inl rfl
      · exact .inr (mem_cons_of_mem _ h)
    · rcases mem_cons.mp h with rfl | h
      · exact .inr mem_cons_self
      · exact (ih h).imp_right (mem_cons_of_mem _)

lemma map_subjectId_insert : (insert e es).map SubjectEntry.subjectId =
    if e.subjectId ∈ es.map SubjectEntry.subjectId then es.map SubjectEntry.subjectId
    else (es.map SubjectEntry.subjectId).concat e.subjectId := by
  induction es with
  | nil => rfl
  | cons d es ih =>
    by_cases hd : d.subjectId = e.subjectId
    · simp [insert, hd]
    · simp only [insert, hd, if_false, map_cons, ih, mem_cons, Ne.symm hd, false_or]
      split_ifs <;> simp

lemma cellOf_insert : cellOf (insert e es) = Function.update (cellOf es) e.subjectId e.cell := by
  funext s
  by_cases hs : s = e.subjectId
  · simp [cellOf, lookup_insert, hs]
  · simp [cellOf, lookup_insert, hs]

lemma cellOf_of_lookup (h : lookup s es = some e) : cellOf es s = e.cell := by
  simp only [cellOf, h]

lemma cellOf_eq_absent : cellOf es s = .absent ↔ lookup s es = none := by
  unfold cellOf
  cases lookup s es with
  | none => simp
  | some e => simp [e.cell_ne_absent]

lemma lookup_of_cell (h : cellOf es s ≠ .absent) :
    ∃ e, lookup s es = some e ∧ cellOf es s = e.cell := by
  obtain ⟨e, he⟩ := ne_none_iff_exists'.mp (mt cellOf_eq_absent.mpr h)
  exact ⟨e, he, cellOf_of_lookup he⟩

end Lookup

lemma forall_mem_of_forall₂ {α β : Type} {P : α → Prop} {Q : β → Prop} {as : List α} {bs : List β}
    (h : List.Forall₂ (fun a b => P a → Q b) as bs) (has : ∀ a ∈ as, P a) : ∀ b ∈ bs, Q b := by
  induction h with
  | nil => exact fun _ hb => nomatch hb
  | cons hab _ ih =>
    obtain ⟨ha, has⟩ := forall_mem_cons.mp has
    exact forall_mem_cons.mpr ⟨hab ha, ih has⟩

lemma cellOf_eq_of_forall₂ {s : SubjectId} {es ds : List SubjectEntry}
    (h : List.Forall₂ (fun e d : SubjectEntry => d.subjectId = e.subjectId ∧ d.cell = e.cell)
      es ds) : cellOf ds s = cellOf es s := by
  induction h with
  | nil => rfl
  | cons hd _ ih =>
    unfold cellOf at ih ⊢
    simp only [lookup, hd.1]
    split_ifs with hs
    · exact hd.2
    · exact ih

/-- The entries of a keyring that the code can have written. -/
structure EntriesOk (es : List SubjectEntry) : Prop where
  wellFormed : ∀ e ∈ es, e.WellFormed
  nodup : (es.map SubjectEntry.subjectId).Nodup

structure SubjectKeyring.Ok (k : SubjectKeyring) : Prop where
  entries : EntriesOk k.entries
  cache : ∀ s key, k.cache s = some key → cellOf k.entries s = .active key

section Entries

variable {s : SubjectId} {e : SubjectEntry} {es : List SubjectEntry} {key : SubjectKey}

variable (h : EntriesOk es)

include h

lemma EntriesOk.insert (he : e.WellFormed) : EntriesOk (insert e es) where
  wellFormed d hd := by
    rcases of_mem_insert hd with rfl | hd
    · exact he
    · exact h.wellFormed d hd
  nodup := by
    rw [map_subjectId_insert]
    split_ifs with hmem
    · exact h.nodup
    · exact List.Nodup.concat hmem h.nodup

lemma EntriesOk.of_forall₂ {ds : List SubjectEntry}
    (hall : List.Forall₂ (fun e d : SubjectEntry =>
      d.subjectId = e.subjectId ∧ (e.WellFormed → d.WellFormed)) es ds) : EntriesOk ds := by
  have hids : ds.map SubjectEntry.subjectId = es.map SubjectEntry.subjectId := by
    clear h
    induction hall with
    | nil => rfl
    | cons hd _ ih => rw [map_cons, map_cons, hd.1, ih]
  refine ⟨forall_mem_of_forall₂ (hall.imp fun _ _ hd => hd.2) h.wellFormed, ?_⟩
  rw [hids]
  exact h.nodup

lemma EntriesOk.lookup_of_mem (he : e ∈ es) : lookup e.subjectId es = some e := by
  obtain ⟨-, hnodup⟩ := h
  induction es with
  | nil => cases he
  | cons d es ih =>
    obtain ⟨hd, hnodup⟩ := nodup_cons.mp hnodup
    simp only [lookup]
    rcases mem_cons.mp he with rfl | he
    · rw [if_pos rfl]
    · have hne : d.subjectId ≠ e.subjectId := by
        intro hid
        rw [hid] at hd
        exact hd (mem_map_of_mem he)
      rw [if_neg hne, ih he hnodup]

lemma EntriesOk.erased (hs : cellOf es s = .erased) :
    ∃ e, lookup s es = some e ∧ e.state = .erased ∧ e.wrappedKey = none := by
  obtain ⟨e, hl, hc⟩ := lookup_of_cell (by rw [hs]; simp)
  have hwf := h.wellFormed e (mem_of_lookup hl).1
  rw [hs] at hc
  refine ⟨e, hl, ?_⟩
  unfold SubjectEntry.WellFormed at hwf
  unfold SubjectEntry.cell at hc
  cases hstate : e.state <;> cases hkey : e.wrappedKey <;> simp [hstate, hkey] at hwf hc ⊢

omit h

lemma lookup_of_active (hs : cellOf es s = .active key) :
    ∃ e w, lookup s es = some e ∧ e.state = .active ∧ e.wrappedKey = some w ∧
      w.wrapped.plaintext = key := by
  obtain ⟨e, hl, hc⟩ := lookup_of_cell (by rw [hs]; simp)
  rw [hs] at hc
  unfold SubjectEntry.cell at hc
  cases hstate : e.state <;> cases hkey : e.wrappedKey <;>
    simp only [hstate, hkey, reduceCtorEq] at hc
  exact ⟨e, _, hl, hstate, hkey, (Cell.active.inj hc).symm⟩

end Entries

/-! ### What the operations do to the cells -/

namespace SubjectKeyring

variable {k k' : SubjectKeyring} {s : SubjectId} {e : SubjectEntry} {key : SubjectKey} {mek : Mek}
  {a : ErasureAttestation}

variable (h : k.Ok)

include h

lemma Ok.of_cells (hes : EntriesOk k'.entries) (hcells : cellOf k'.entries = cellOf k.entries)
    (hcache : k'.cache = k.cache) : k'.Ok where
  entries := hes
  cache := by
    rw [hcells, hcache]
    exact h.cache

lemma Ok.designate {targets : List DesignationTarget} (hk : k.designate s mek targets key = .ok k') :
    k'.Ok ∧ (cellOf k.entries s = .absent →
        cellOf k'.entries = Function.update (cellOf k.entries) s (.active key)) ∧
      (cellOf k.entries s ≠ .absent → cellOf k'.entries = cellOf k.entries) := by
  unfold SubjectKeyring.designate at hk
  cases hget : k.get s with
  | none =>
    rw [hget] at hk
    cases hk
    have habsent : cellOf k.entries s = .absent := cellOf_eq_absent.mpr hget
    have hcells : cellOf ((k.upsert ⟨s, some ⟨initialSubjectKeyVersion,
        encrypt mek key (s, initialSubjectKeyVersion)⟩, mergeTargets [] targets, .active, none,
        none⟩).cacheKey s key).entries = Function.update (cellOf k.entries) s (.active key) :=
      cellOf_insert
    refine ⟨⟨h.entries.insert (by simp [SubjectEntry.WellFormed]), fun u v hu => ?_⟩,
      fun _ => hcells, fun hne => absurd habsent hne⟩
    rw [hcells]
    simp only [cacheKey, upsert] at hu
    by_cases hus : u = s
    · subst hus
      rw [Function.update_self] at hu ⊢
      rw [some.inj hu]
    · rw [Function.update_of_ne hus] at hu ⊢
      exact h.cache u v hu
  | some existing =>
    rw [hget] at hk
    simp only at hk
    split_ifs at hk with herased
    cases hk
    have hid : existing.subjectId = s := (mem_of_lookup hget).2
    have hcell : cellOf k.entries s = existing.cell := cellOf_of_lookup hget
    have hcells : cellOf (k.upsert
        { existing with designation := mergeTargets existing.designation targets }).entries =
        cellOf k.entries := by
      refine cellOf_insert.trans ?_
      simp only [hid]
      exact Function.update_eq_self_iff.mpr hcell.symm
    refine ⟨h.of_cells (h.entries.insert ?_) hcells rfl, fun habsent => ?_, fun _ => hcells⟩
    · exact h.entries.wellFormed existing (mem_of_lookup hget).1
    · exact absurd (hcell.symm.trans habsent) existing.cell_ne_absent

lemma Ok.erase (he : e.cell = .erased) (hwf : e.WellFormed) (hid : e.subjectId = s)
    {index : Bool → ℕ → List SubjectId} :
    Ok ⟨insert e k.entries, Function.update k.cache s none, index⟩ ∧
      cellOf (insert e k.entries) = Function.update (cellOf k.entries) s .erased := by
  have hcells : cellOf (insert e k.entries) = Function.update (cellOf k.entries) s .erased := by
    rw [cellOf_insert, he, hid]
  refine ⟨⟨h.entries.insert hwf, fun u v hu => ?_⟩, hcells⟩
  simp only [hcells]
  by_cases hus : u = s
  · subst hus
    simp at hu
  · rw [Function.update_of_ne hus]
    exact h.cache u v ((Function.update_of_ne hus _ _).symm.trans hu)

lemma Ok.eraseInMemory {now : ℤ} (hs : cellOf k.entries s ≠ .absent) :
    (k.eraseInMemory s now a).Ok ∧
      cellOf (k.eraseInMemory s now a).entries = Function.update (cellOf k.entries) s .erased := by
  obtain ⟨e, hl, -⟩ := lookup_of_cell hs
  have hget : (k.dropCache s).get s = some e := hl
  simp only [SubjectKeyring.eraseInMemory, modifyEntry, hget]
  refine h.erase ?_ ?_ ?_
  · simp [SubjectEntry.cell]
  · simp [SubjectEntry.WellFormed]
  · exact (mem_of_lookup hl).2

lemma Ok.forceErased {now : ℤ} : (k.forceErased s now).Ok ∧
    cellOf (k.forceErased s now).entries = Function.update (cellOf k.entries) s .erased := by
  simp only [SubjectKeyring.forceErased]
  cases hget : (k.dropCache s).get s with
  | none =>
    refine h.erase ?_ ?_ rfl
    · simp [SubjectEntry.cell]
    · simp [SubjectEntry.WellFormed]
  | some e =>
    refine h.erase ?_ ?_ ?_
    · simp [SubjectEntry.cell]
    · simp [SubjectEntry.WellFormed]
    · exact (mem_of_lookup hget).2

lemma Ok.attest (hget : k.get s = some e) :
    (k.upsert { e with attestation := some a }).Ok ∧
      cellOf (k.upsert { e with attestation := some a }).entries = cellOf k.entries := by
  obtain ⟨hmem, hid⟩ := mem_of_lookup hget
  have hcells : cellOf (k.upsert { e with attestation := some a }).entries = cellOf k.entries := by
    refine cellOf_insert.trans ?_
    simp only [hid]
    exact Function.update_eq_self_iff.mpr (cellOf_of_lookup hget).symm
  exact ⟨h.of_cells (h.entries.insert (h.entries.wellFormed e hmem)) hcells rfl, hcells⟩

omit h

lemma rewrapEntry_eq_ok {d : SubjectEntry} {old new : Mek} {version : ℕ}
    (h : rewrapEntry old new version e = .ok d) :
    d.subjectId = e.subjectId ∧ d.cell = e.cell ∧ (e.WellFormed → d.WellFormed) := by
  unfold rewrapEntry at h
  split_ifs at h with herased
  · cases h
    exact ⟨rfl, rfl, id⟩
  split at h
  · cases h
    exact ⟨rfl, rfl, id⟩
  next w hw =>
  split_ifs at h with hversion
  · cases h
    exact ⟨rfl, rfl, id⟩
  split at h
  · cases h
  next key hkey =>
  cases h
  have hplain : w.wrapped.plaintext = key := by
    unfold decrypt at hkey
    split_ifs at hkey
    exact some.inj hkey
  refine ⟨rfl, ?_, ?_⟩
  · simp only [SubjectEntry.cell, hw, encrypt]
    cases e.state <;> simp [hplain]
  · simp [SubjectEntry.WellFormed, hw]

lemma Ok.rewrap (h : k.Ok) {old new : Mek} {version : ℕ} (hk : k.rewrap old new version = .ok k') :
    k'.Ok ∧ cellOf k'.entries = cellOf k.entries := by
  unfold SubjectKeyring.rewrap at hk
  cases hmap : k.entries.mapM (rewrapEntry old new version) with
  | error err =>
    rw [hmap] at hk
    cases hk
  | ok es =>
    rw [hmap] at hk
    cases hk
    have hall := (Exec.forall₂_of_mapM_eq_ok hmap).imp fun _ _ => rewrapEntry_eq_ok
    have hcells : cellOf es = cellOf k.entries := by
      funext u
      exact cellOf_eq_of_forall₂ (hall.imp fun _ _ hd => ⟨hd.1, hd.2.1⟩)
    refine ⟨h.of_cells ?_ hcells rfl, hcells⟩
    exact h.entries.of_forall₂ (hall.imp fun _ _ hd => ⟨hd.1, hd.2.2⟩)

lemma Ok.dekFromGuard (h : k.Ok) (hk : k.dekFromGuard s mek = .ok (key, k')) :
    k'.Ok ∧ k'.entries = k.entries ∧ cellOf k.entries s = .active key := by
  unfold SubjectKeyring.dekFromGuard at hk
  split at hk
  next cached hcached =>
    obtain ⟨rfl, rfl⟩ := Prod.mk.inj (Except.ok.inj hk)
    exact ⟨h, rfl, h.cache s cached hcached⟩
  split at hk
  · cases hk
  next e hget =>
  split_ifs at hk with hactive
  split at hk
  · cases hk
  next w hw =>
  split at hk
  · cases hk
  next unwrapped hkey =>
  obtain ⟨rfl, rfl⟩ := Prod.mk.inj (Except.ok.inj hk)
  have hcell : cellOf k.entries s = .active unwrapped := by
    unfold decrypt at hkey
    split_ifs at hkey
    have hstate : e.state = .active := by
      cases hstate : e.state with
      | active => rfl
      | erased => exact absurd hstate hactive
    rw [cellOf_of_lookup hget, SubjectEntry.cell, hstate, hw, ← some.inj hkey]
  refine ⟨⟨h.entries, fun u v hu => ?_⟩, rfl, hcell⟩
  simp only [cacheKey] at hu ⊢
  by_cases hus : u = s
  · subst hus
    rw [Function.update_self] at hu
    rw [hcell, some.inj hu]
  · rw [Function.update_of_ne hus] at hu
    exact h.cache u v hu

end SubjectKeyring

/-! ### Rules for the durable calls -/

section Rules

open Exec

variable {P Q E : World → Prop}

lemma triple_writeDurable {effect : World → World} {error : CryptoShredError} (w : Write)
    (hdone : ∀ x, P x → Q (effect x)) (hrefused : ∀ x, P x → E x)
    (hcrashed : ∀ x, P x → E (effect x)) :
    Triple P (writeDurable effect error w) (fun _ => Q) E := by
  intro x h
  cases w with
  | done => exact hdone x h
  | refused => exact hrefused x h
  | crashed renamed =>
    cases renamed with
    | true => exact hcrashed x h
    | false => exact hrefused x h

lemma triple_modifyKeyring {f : SubjectKeyring → Except CryptoShredError SubjectKeyring}
    (hok : ∀ x k, P x → f x.state.keyring = .ok k → Q (x.setKeyring k)) (herror : ∀ x, P x → E x) :
    Triple P (updateKeyring f) (fun _ => Q) E := by
  intro x hx
  simp only [updateKeyring, modifyE, EStateM.run]
  cases hk : f x.state.keyring with
  | error err => exact herror x hx
  | ok k => exact hok x k hx hk

end Rules

end Aletheia.CryptoShred
