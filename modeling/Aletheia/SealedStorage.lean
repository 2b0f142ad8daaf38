import Aletheia.SealedWrites

/-!
# What designated values are stored as

A write is stored in the dark if every value that an accepted designation covers is an envelope of
an active subject that designates it. The gate that decides on the sealing context is read when a
transaction begins and the keyring when a map is sealed, both before the write is stored; and a
delete, a retraction and the structural versions of an update store again what is stored already.
-/

namespace Aletheia.CryptoShred

open List PropertyStore

variable {β : Type} {now : ℤ}

/-- The value is an envelope of an active subject that designates the property. -/
def SubjectKeyring.isSealed (k : SubjectKeyring) (e : EntityId) (key : String) : Value β → Bool
  | .plain _ => false
  | .sealed s _ _ _ _ _ => (k.get s).any fun x => x.state = .active && x.covers e key

/-- A designation covers the property. -/
def covered (designated : List DesignationTarget) (e : EntityId) (key : String) : Bool :=
  anyShouldSeal designated e.isNode e.id key

def SealsMap (k : SubjectKeyring) (designated : List DesignationTarget) (e : EntityId)
    (m : Properties β) : Prop :=
  ∀ p ∈ m, covered designated e p.1 → k.isSealed e p.1 p.2

instance (k : SubjectKeyring) (designated : List DesignationTarget) (e : EntityId)
    (m : Properties β) : Decidable (SealsMap k designated e m) := by
  unfold SealsMap
  infer_instance

/-- All copies of the write are sealed: in the log, in the history and in current storage. -/
def StoredWrite.Sealed (w : StoredWrite β) : Prop :=
  ∀ m ∈ w.logged.toList ++ w.appended ++ w.current.toList,
    SealsMap w.keyring w.designated w.entity m

instance (w : StoredWrite β) : Decidable w.Sealed := by
  unfold StoredWrite.Sealed
  infer_instance

/-- What the entity has in current storage and in the history is sealed. -/
def EntityState.SealsAll (st : EntityState β) (k : SubjectKeyring)
    (designated : List DesignationTarget) (e : EntityId) : Prop :=
  ∀ m ∈ st.current.toList ++ st.versions, SealsMap k designated e m

instance (st : EntityState β) (k : SubjectKeyring) (designated : List DesignationTarget)
    (e : EntityId) : Decidable (st.SealsAll k designated e) := by
  unfold EntityState.SealsAll
  infer_instance

/-- The write stores maps that were stored before. -/
def PropertyWrite.storesAgain (w : PropertyWrite β) (choice : Choice) : Bool :=
  match w with
  | .create _ _ => false
  | .update _ _ _ => choice.carry.isSome || choice.reassert.isSome
  | .delete _ | .retract _ => true

namespace SealDb

/-- No designated value was ever stored in the clear. -/
def NeverInTheClear (d : SealDb β) : Prop := ∀ w ∈ d.stored, w.Sealed

instance (d : SealDb β) : Decidable d.NeverInTheClear := by
  unfold NeverInTheClear
  infer_instance

/-- The transaction has sealed maps that are not stored yet. -/
def holdsSealed (tx : WriteTx β) : Bool :=
  match tx.phase with
  | .sealing _ => tx.context.isSome
  | _ => false

/-- Without a sealing context a transaction may only write properties that nothing covers. -/
def PlainAllowed (d : SealDb β) (tx : WriteTx β) : Prop :=
  ∀ w ∈ tx.buffer, ∀ m ∈ w.properties?, ∀ p ∈ m, covered d.designated w.entity p.1 = false

instance (d : SealDb β) (tx : WriteTx β) : Decidable (d.PlainAllowed tx) := by
  unfold PlainAllowed
  infer_instance

/-- Designations and erasures keep out of the commits that have begun to seal; a transaction without
a context writes nothing that is designated; and what is stored again is sealed already. -/
def Proper (d : SealDb β) : SealAction β → Prop
  | .designate _ _ _ _ | .erase _ _ _ => ∀ tx ∈ d.store.txs, holdsSealed tx = false
  | .apply t choices => ∀ tx ∈ d.store.txs[t]?,
      (tx.context = none → d.PlainAllowed tx) ∧
        ∀ wc ∈ tx.buffer.zip choices, wc.1.storesAgain wc.2 →
          (d.store.entities wc.1.entity).SealsAll d.keyring d.designated wc.1.entity
  | _ => True

instance (d : SealDb β) (a : SealAction β) : Decidable (d.Proper a) := by
  cases a <;> unfold Proper <;> infer_instance

end SealDb

/-! ### The keyring knows the designations -/

/-- Every accepted target belongs to a subject that the index finds. -/
structure Covering (k : SubjectKeyring) (designated : List DesignationTarget) : Prop where
  entries : EntriesOk k.entries
  indexed : ∀ e ∈ k.entries, ∀ t ∈ e.designation,
    e.subjectId ∈ k.designationIndex t.isNode t.entityId
  designated : ∀ t ∈ designated, ∃ e ∈ k.entries, t ∈ e.designation

section Targets

variable {t : DesignationTarget} {e : EntityId} {key : String}

lemma mem_mergeTargets {old new : List DesignationTarget} :
    t ∈ mergeTargets old new ↔ t ∈ old ∨ t ∈ new := by
  unfold mergeTargets
  induction new generalizing old with
  | nil => simp
  | cons u new ih =>
    rw [foldl_cons, ih]
    split_ifs with hu
    · constructor
      · rintro (h | h)
        · exact .inl h
        · exact .inr (mem_cons_of_mem _ h)
      · rintro (h | h)
        · exact .inl h
        · rcases mem_cons.mp h with rfl | h
          · exact .inl hu
          · exact .inr h
    · rw [mem_append, mem_singleton, mem_cons, or_assoc]

variable (h : t.shouldSealKey e.isNode e.id key = true)

include h

lemma entity_of_shouldSealKey : t.isNode = e.isNode ∧ t.entityId = e.id := by
  unfold DesignationTarget.shouldSealKey at h
  split_ifs at h
  cases t <;> simp_all [DesignationTarget.isNode, DesignationTarget.entityId]

lemma not_reserved_of_shouldSealKey : isReservedKey key = false := by
  unfold DesignationTarget.shouldSealKey at h
  split_ifs at h with hr
  simpa using hr

omit h

lemma exists_of_covered {designated : List DesignationTarget} (h : covered designated e key) :
    ∃ t ∈ designated, t.shouldSealKey e.isNode e.id key = true := by
  simpa [covered, anyShouldSeal] using h

end Targets

section Index

variable {s : SubjectId} {isNode : Bool} {id : ℕ} {index : Bool → ℕ → List SubjectId}
  {t : DesignationTarget} {ts : List DesignationTarget}

lemma subset_indexTarget {u : SubjectId} (h : u ∈ index isNode id) :
    u ∈ SubjectKeyring.indexTarget s index t isNode id := by
  unfold SubjectKeyring.indexTarget
  split_ifs
  · exact mem_append_left _ h
  · exact h

lemma self_mem_indexTarget : s ∈ SubjectKeyring.indexTarget s index t t.isNode t.entityId := by
  unfold SubjectKeyring.indexTarget
  by_cases h : s ∈ index t.isNode t.entityId
  · simp [h]
  · simp [h]

lemma subset_foldl_indexTarget {u : SubjectId} (h : u ∈ index isNode id) :
    u ∈ ts.foldl (SubjectKeyring.indexTarget s) index isNode id := by
  induction ts generalizing index with
  | nil => exact h
  | cons t ts ih => exact ih (subset_indexTarget h)

lemma self_mem_foldl_indexTarget (ht : t ∈ ts) :
    s ∈ ts.foldl (SubjectKeyring.indexTarget s) index t.isNode t.entityId := by
  induction ts generalizing index with
  | nil => cases ht
  | cons u ts ih =>
    rcases mem_cons.mp ht with rfl | ht
    · rw [foldl_cons]
      exact subset_foldl_indexTarget self_mem_indexTarget
    · exact ih ht

end Index
namespace Covering

variable {k k' : SubjectKeyring} {designated targets : List DesignationTarget} {e : SubjectEntry}

lemma insert (h : Covering k designated) (hwf : e.WellFormed)
    (hold : ∀ d, lookup e.subjectId k.entries = some d → ∀ t ∈ d.designation, t ∈ e.designation)
    {index : Bool → ℕ → List SubjectId} {cache : SubjectId → Option SubjectKey}
    (hindex : ∀ isNode id u, u ∈ k.designationIndex isNode id → u ∈ index isNode id)
    (hself : ∀ t ∈ e.designation, e.subjectId ∈ index t.isNode t.entityId) :
    Covering ⟨CryptoShred.insert e k.entries, cache, index⟩ designated where
  entries := h.entries.insert hwf
  indexed d hd t ht := by
    rcases of_mem_insert hd with rfl | hd
    · exact hself t ht
    · exact hindex _ _ _ (h.indexed d hd t ht)
  designated t ht := by
    obtain ⟨d, hd, htd⟩ := h.designated t ht
    have hl := h.entries.lookup_of_mem hd
    have hnew : lookup d.subjectId (CryptoShred.insert e k.entries) =
        if d.subjectId = e.subjectId then some e else some d := by
      rw [lookup_insert, hl]
    split_ifs at hnew with hid
    · rw [hid] at hl
      exact ⟨e, (mem_of_lookup hnew).1, hold d hl t htd⟩
    · exact ⟨d, (mem_of_lookup hnew).1, htd⟩

lemma mono (h : Covering k (targets ++ designated)) : Covering k designated where
  entries := h.entries
  indexed := h.indexed
  designated t ht := h.designated t (mem_append_right _ ht)

variable (h : Covering k designated)

include h

lemma upsert (hwf : e.WellFormed)
    (hold : ∀ d, k.get e.subjectId = some d → ∀ t ∈ d.designation, t ∈ e.designation)
    (htargets : ∀ t ∈ targets, t ∈ e.designation) :
    Covering (k.upsert e) (targets ++ designated) := by
  have hins : Covering (k.upsert e) designated :=
    h.insert hwf hold (fun _ _ _ hu => subset_foldl_indexTarget hu)
      fun _ ht => self_mem_foldl_indexTarget ht
  have hmem : e ∈ (k.upsert e).entries := by
    have hl : lookup e.subjectId (CryptoShred.insert e k.entries) = some e :=
      lookup_insert.trans (if_pos rfl)
    exact (mem_of_lookup hl).1
  refine ⟨hins.entries, hins.indexed, fun t ht => ?_⟩
  rcases mem_append.mp ht with ht | ht
  · exact ⟨e, hmem, htargets t ht⟩
  · exact hins.designated t ht

lemma of_eq (hes : k'.entries = k.entries) (hindex : k'.designationIndex = k.designationIndex) :
    Covering k' designated where
  entries := hes ▸ h.entries
  indexed := by
    rw [hes, hindex]
    exact h.indexed
  designated := by
    rw [hes]
    exact h.designated

lemma designate {s : SubjectId} {mek : Mek} {key : SubjectKey}
    (hk : k.designate s mek targets key = .ok k') : Covering k' (targets ++ designated) := by
  unfold SubjectKeyring.designate at hk
  cases hget : k.get s with
  | none =>
    rw [hget] at hk
    cases hk
    refine (h.upsert ?_ ?_ fun t ht => ?_).of_eq rfl rfl
    · simp [SubjectEntry.WellFormed]
    · intro d hd
      rw [hget] at hd
      cases hd
    · exact mem_mergeTargets.mpr (.inr ht)
  | some existing =>
    rw [hget] at hk
    simp only at hk
    split_ifs at hk
    cases hk
    obtain ⟨hmem, hid⟩ := mem_of_lookup hget
    refine h.upsert (h.entries.wellFormed existing hmem) ?_ fun t ht => ?_
    · intro d hd t ht
      rw [hid, hget] at hd
      cases hd
      exact mem_mergeTargets.mpr (.inl ht)
    · exact mem_mergeTargets.mpr (.inr ht)

lemma eraseInMemory {s : SubjectId} {a : ErasureAttestation} :
    Covering (k.eraseInMemory s now a) designated := by
  unfold SubjectKeyring.eraseInMemory SubjectKeyring.modifyEntry
  cases hget : (k.dropCache s).get s with
  | none => exact h.of_eq rfl rfl
  | some d =>
    obtain ⟨hmem, hid⟩ := mem_of_lookup hget
    refine h.insert (by simp [SubjectEntry.WellFormed]) ?_ (fun _ _ _ hu => hu) fun t ht => ?_
    · intro c hc t ht
      rw [hid, show lookup s k.entries = some d from hget] at hc
      cases hc
      exact ht
    · exact h.indexed d hmem t ht

end Covering

section Calls

open Exec

variable {designated : List DesignationTarget} {s : SubjectId}

/-- What the keyring in memory covers. -/
def CoversWorld (designated : List DesignationTarget) (x : World) : Prop :=
  Covering x.state.keyring designated

lemma covers_save (w : Write) : Triple (CoversWorld designated) (saveKeyring w)
    (fun _ => CoversWorld designated) (CoversWorld designated) :=
  triple_writeDurable w (fun _ h => h) (fun _ h => h) fun _ h => h

lemma covers_writeBreadcrumb (w : Write) : Triple (CoversWorld designated) (writeBreadcrumb s w)
    (fun _ => CoversWorld designated) (CoversWorld designated) :=
  triple_writeDurable w (fun _ h => h) (fun _ h => h) fun _ h => h

lemma covers_clearBreadcrumb (w : Write) : Triple (CoversWorld designated) (clearBreadcrumb w)
    (fun _ => CoversWorld designated) (CoversWorld designated) := by
  intro x h
  cases w with
  | done => exact h
  | refused => exact h
  | crashed removed => cases removed <;> exact h

lemma covers_designate {mek : Mek} {targets : List DesignationTarget} {key : SubjectKey}
    {w : Write} : Triple (CoversWorld designated) (designate mek s targets key w)
      (fun _ => CoversWorld (targets ++ designated)) (CoversWorld designated) := by
  have hsave : Triple (CoversWorld (targets ++ designated)) (saveKeyring w)
      (fun _ => CoversWorld (targets ++ designated)) (CoversWorld designated) :=
    (covers_save w).weaken (fun _ _ h => h) fun _ h => Covering.mono h
  refine (triple_modifyKeyring ?_ fun x hx => hx).bind fun _ => hsave.bind fun _ =>
    triple_modify fun _ h => h
  intro x k h hk
  exact Covering.designate h hk

lemma covers_eraseAgain {e : SubjectEntry} {w : Write} :
    Triple (fun x => CoversWorld designated x ∧ x.state.keyring.get e.subjectId = some e)
      (eraseAgain e now w) (fun _ => CoversWorld designated) (CoversWorld designated) := by
  unfold eraseAgain
  cases e.attestation with
  | some a => exact triple_pure fun x hx => hx.1
  | none =>
    refine (triple_modify ?_).bind fun _ => (covers_save w).bind fun _ => triple_pure fun _ h => h
    rintro x ⟨h, hget⟩
    refine Covering.mono (?_ : Covering _ ([] ++ designated))
    refine Covering.upsert h ?_ ?_ ?_
    · exact h.entries.wellFormed e (mem_of_lookup hget).1
    · intro d hd t ht
      rw [hget] at hd
      cases hd
      exact ht
    · exact fun t ht => nomatch ht

lemma covers_eraseActive {e : SubjectEntry} {w : EraseWrites} :
    Triple (CoversWorld designated) (eraseActive e now w) (fun _ => CoversWorld designated)
      (CoversWorld designated) := by
  refine (covers_writeBreadcrumb w.breadcrumb).bind fun _ => ?_
  have herase : Triple (CoversWorld designated)
      (modify fun x => (x.setKeyring (x.state.keyring.eraseInMemory e.subjectId now
        ⟨e.subjectId, e.designation.length, now⟩)).refreshGates : Task Unit)
      (fun _ => CoversWorld designated) (CoversWorld designated) :=
    triple_modify fun x h => Covering.eraseInMemory h
  exact herase.bind fun _ => (covers_save w.keyring).bind fun _ =>
    (covers_clearBreadcrumb w.clear).bind fun _ => triple_pure fun _ h => h

lemma covers_erase {w : EraseWrites} :
    Triple (CoversWorld designated) (erase s now w) (fun _ => CoversWorld designated)
      (CoversWorld designated) := by
  refine triple_get_bind fun x h => ?_
  cases hget : x.state.keyring.get s with
  | none => exact triple_throw fun y hy => hy ▸ h
  | some e =>
    have hid : e.subjectId = s := (mem_of_lookup hget).2
    simp only
    split_ifs
    · refine covers_eraseAgain.at_state ⟨h, ?_⟩
      rw [hid]
      exact hget
    · exact covers_eraseActive.at_state h

end Calls

/-! ### What `seal_map` returns -/

/-- Up to the cache of unwrapped keys. -/
def SameEntries (k₀ k : SubjectKeyring) : Prop :=
  k.entries = k₀.entries ∧ k.designationIndex = k₀.designationIndex

section Sealing

open Exec

variable {k k₀ : SubjectKeyring} {designated : List DesignationTarget} {e : EntityId} {key : String}
  {mek : Mek} {plan : List ((String × Value β) × Option SubjectEntry)} {k' : SubjectKeyring}

lemma SubjectKeyring.isSealed_of_entries (h : k.entries = k₀.entries) (v : Value β) :
    k.isSealed e key v = k₀.isSealed e key v := by
  cases v with
  | plain v => rfl
  | sealed s => simp only [isSealed, get, h]

lemma SealsMap.of_entries {m : Properties β} (h : SealsMap k₀ designated e m)
    (hk : k.entries = k₀.entries) : SealsMap k designated e m := by
  intro p hp hc
  rw [SubjectKeyring.isSealed_of_entries hk]
  exact h p hp hc

lemma sameEntries_of_dekFromGuard {s : SubjectId} {dek : SubjectKey}
    (hk : k.dekFromGuard s mek = .ok (dek, k')) : SameEntries k k' := by
  unfold SubjectKeyring.dekFromGuard at hk
  split at hk
  · cases hk
    exact ⟨rfl, rfl⟩
  split at hk
  · cases hk
  split_ifs at hk
  split at hk
  · cases hk
  split at hk
  · cases hk
  cases hk
  exact ⟨rfl, rfl⟩

lemma SameEntries.trans (h : SameEntries k₀ k) (h' : SameEntries k k') : SameEntries k₀ k' :=
  ⟨h'.1.trans h.1, h'.2.trans h.2⟩

lemma sameEntries_dekFromGuard (s : SubjectId) : Triple (SameEntries k₀) (dekFromGuard s mek)
    (fun _ => SameEntries k₀) (SameEntries k₀) := by
  intro k h
  simp only [EStateM.run, dekFromGuard]
  cases hk : k.dekFromGuard s mek with
  | error err => exact h
  | ok r => exact h.trans (sameEntries_of_dekFromGuard hk)

lemma Covering.sealingSubject (h : Covering k designated) (hc : covered designated e key)
    {s : Option SubjectEntry} (hs : k.sealingSubject e key = .ok s) :
    ∃ x, s = some x ∧ k.get x.subjectId = some x ∧ x.state = .active ∧ x.covers e key := by
  obtain ⟨t, ht, hcovers⟩ := exists_of_covered hc
  obtain ⟨x, hx, htx⟩ := h.designated t ht
  obtain ⟨hnode, hid⟩ := entity_of_shouldSealKey hcovers
  have hget : k.get x.subjectId = some x := h.entries.lookup_of_mem hx
  have hmem : x ∈ k.designating e key := by
    refine mem_filter.mpr ⟨mem_filterMap.mpr ⟨x.subjectId, ?_, hget⟩, ?_⟩
    · have := h.indexed x hx t htx
      rwa [hnode, hid] at this
    · exact any_eq_true.mpr ⟨t, htx, hcovers⟩
  unfold SubjectKeyring.sealingSubject at hs
  rw [not_reserved_of_shouldSealKey hcovers] at hs
  simp only [Bool.false_eq_true, if_false] at hs
  split at hs
  next y hy =>
    cases hs
    obtain ⟨hsub, hcov⟩ := mem_filter.mp (mem_of_find?_eq_some hy)
    obtain ⟨u, -, hu⟩ := mem_filterMap.mp hsub
    have huy : y.subjectId = u := (mem_of_lookup hu).2
    refine ⟨y, rfl, by rw [huy, hu], ?_, hcov⟩
    simpa using List.find?_some hy
  next =>
    split at hs
    · cases hs
    next hnil =>
      rw [hnil] at hmem
      cases hmem

/-- The item has a subject if it needs one. -/
def PlannedItem (k : SubjectKeyring) (designated : List DesignationTarget) (e : EntityId)
    (i : (String × Value β) × Option SubjectEntry) : Prop :=
  covered designated e i.1.1 →
    ∃ x, i.2 = some x ∧ k.get x.subjectId = some x ∧ x.state = .active ∧ x.covers e i.1.1

lemma Covering.sealPlan (h : Covering k designated) {props : Properties β}
    (hplan : sealPlan k e props = .ok plan) : ∀ i ∈ plan, PlannedItem k designated e i := by
  have hall := forall₂_of_mapM_eq_ok hplan
  have himp : List.Forall₂ (fun p i => True → PlannedItem k designated e i) props plan := by
    refine hall.imp ?_
    rintro p i hi - hc
    cases hs : k.sealingSubject e p.1 with
    | error err =>
      rw [hs] at hi
      cases hi
    | ok s =>
      rw [hs] at hi
      cases hi
      exact h.sealingSubject hc hs
  exact forall_mem_of_forall₂ himp fun _ _ => trivial

lemma sealItems_spec (hplan : ∀ i ∈ plan, PlannedItem k₀ designated e i) :
    Triple (SameEntries k₀) (sealItems mek e plan)
      (fun m k => SameEntries k₀ k ∧ SealsMap k₀ designated e m) (SameEntries k₀) := by
  induction plan with
  | nil => exact triple_pure fun k hk => ⟨hk, fun p hp => nomatch hp⟩
  | cons i plan ih =>
    obtain ⟨hi, hrest⟩ := forall_mem_cons.mp hplan
    obtain ⟨p, s⟩ := i
    cases s with
    | none =>
      refine (ih hrest).bind fun m => triple_pure fun k hk => ⟨hk.1, ?_⟩
      refine forall_mem_cons.mpr ⟨fun hc => ?_, hk.2⟩
      obtain ⟨x, hx, -⟩ := hi hc
      cases hx
    | some s =>
      refine (sameEntries_dekFromGuard s.subjectId).bind fun dek => (ih hrest).bind fun m =>
        triple_pure fun k hk => ⟨hk.1, ?_⟩
      refine forall_mem_cons.mpr ⟨fun hc => ?_, hk.2⟩
      obtain ⟨x, hx, hget, hactive, hcov⟩ := hi hc
      cases hx
      simp [SubjectKeyring.isSealed, hget, hactive, hcov]

lemma Covering.not_covered (h : Covering k designated)
    (hs : k.subjectsForEntity e.isNode e.id = []) : covered designated e key = false := by
  by_contra hc
  obtain ⟨t, ht, hcovers⟩ := exists_of_covered (by simpa using hc)
  obtain ⟨x, hx, htx⟩ := h.designated t ht
  obtain ⟨hnode, hid⟩ := entity_of_shouldSealKey hcovers
  have hmem := h.indexed x hx t htx
  rw [hnode, hid, show k.designationIndex e.isNode e.id = [] from hs] at hmem
  cases hmem

/-- **`seal_map` leaves no covered value in the clear.** -/
theorem sealMap_spec (h : Covering k₀ designated) (m : Properties β) :
    Triple (SameEntries k₀) (sealMap mek e m)
      (fun m' k => SameEntries k₀ k ∧ SealsMap k₀ designated e m') (SameEntries k₀) := by
  refine triple_get_bind fun k hk => ?_
  have hcov : Covering k designated := h.of_eq hk.1 hk.2
  split_ifs with hs
  · refine triple_pure fun k' hk' => ⟨hk' ▸ hk, fun p _ hc => ?_⟩
    rw [hcov.not_covered hs] at hc
    cases hc
  · have hread : Triple (· = k) (readE fun k => sealPlan k e m)
        (fun plan k' => SameEntries k₀ k' ∧ ∀ i ∈ plan, PlannedItem k₀ designated e i)
        (SameEntries k₀) := by
      refine triple_readE ?_ fun k' hk' => hk' ▸ hk
      rintro k' plan rfl hplan
      refine ⟨hk, fun i hi hc => ?_⟩
      obtain ⟨x, hx, hget, hrest⟩ := hcov.sealPlan hplan i hi hc
      refine ⟨x, hx, ?_, hrest⟩
      rw [← hget, SubjectKeyring.get, SubjectKeyring.get, hk.1]
    refine hread.bind fun plan k' hk' => sealItems_spec hk'.2 k' hk'.1

end Sealing

/-! ### What a write stores -/

section Apply

variable {st : EntityState β} {m : Properties β} {choice : Choice} {w : PropertyWrite β}

lemma EntityState.mem_versions_of_version {i : Option ℕ} (h : m ∈ st.version i) :
    m ∈ st.versions ∧ i.isSome := by
  obtain ⟨j, rfl, hj⟩ := Option.bind_eq_some_iff.mp h
  exact ⟨mem_of_getElem? hj, rfl⟩

lemma EntityState.mem_update {m' : Properties β}
    (h : m' ∈ (st.update m choice).appended ∨ m' ∈ (st.update m choice).state.current) :
    m' = m ∨ (m' ∈ st.versions ∧ (choice.carry.isSome || choice.reassert.isSome)) := by
  have hversion : ∀ i, m' ∈ (st.version i).toList → m' ∈ st.versions ∧ i.isSome := by
    intro i hi
    exact mem_versions_of_version (Option.mem_toList.mp hi)
  simp only [update, mem_append, mem_cons, Option.mem_def, Option.some.injEq] at h
  rcases h with (h | rfl | h) | h
  · obtain ⟨hmem, hsome⟩ := hversion _ h
    exact .inr ⟨hmem, by simp [hsome]⟩
  · exact .inl rfl
  · obtain ⟨hmem, hsome⟩ := hversion _ h
    exact .inr ⟨hmem, by simp [hsome]⟩
  · cases hv : st.version choice.reassert with
    | none =>
      rw [hv] at h
      exact .inl h.symm
    | some v =>
      rw [hv] at h
      obtain rfl : v = m' := h
      obtain ⟨hmem, hsome⟩ := mem_versions_of_version hv
      exact .inr ⟨hmem, by simp [hsome]⟩

lemma EntityState.mem_apply {m' : Properties β}
    (h : m' ∈ (st.apply w choice).appended ∨ m' ∈ (st.apply w choice).state.current) :
    m' ∈ w.properties? ∨ (m' ∈ st.current.toList ++ st.versions ∧ w.storesAgain choice) := by
  cases w with
  | create e m =>
    simp only [apply, mem_singleton, Option.mem_def, Option.some.injEq] at h
    exact .inl (by rcases h with rfl | rfl <;> rfl)
  | update e m expected =>
    rcases mem_update h with rfl | ⟨hmem, hagain⟩
    · exact .inl rfl
    · exact .inr ⟨mem_append_right _ hmem, hagain⟩
  | delete e | retract e =>
    refine .inr ⟨?_, rfl⟩
    simp only [apply, close] at h
    cases hc : st.current with
    | none => simp [hc] at h
    | some c =>
      simp only [hc, mem_singleton, Option.mem_def, reduceCtorEq, or_false] at h
      simp [h]

lemma EntityState.versions_apply :
    (st.apply w choice).state.versions = (st.apply w choice).appended ++ st.versions := by
  cases w with
  | create e m => rfl
  | update e m expected => simp [apply, update]
  | delete e | retract e =>
    simp only [apply, close]
    cases st.current <;> simp

lemma EntityState.logged_apply : (st.apply w choice).logged = w.properties? := by
  cases w with
  | create e m => rfl
  | update e m expected => rfl
  | delete e | retract e =>
    simp only [apply, close, PropertyWrite.properties?]
    cases st.current <;> rfl

lemma EntityState.forall_apply {P : Properties β → Prop}
    (h : ∀ m ∈ st.current.toList ++ st.versions, P m) (hw : ∀ m ∈ w.properties?, P m) :
    ∀ m ∈ (st.apply w choice).state.current.toList ++ (st.apply w choice).state.versions, P m := by
  have hnew : ∀ m', m' ∈ (st.apply w choice).appended ∨ m' ∈ (st.apply w choice).state.current →
      P m' := by
    intro m' hm'
    rcases mem_apply hm' with hm' | ⟨hm', -⟩
    · exact hw m' hm'
    · exact h m' hm'
  intro m' hm'
  rw [versions_apply] at hm'
  rcases mem_append.mp hm' with hm' | hm'
  · exact hnew m' (.inr (Option.mem_toList.mp hm'))
  rcases mem_append.mp hm' with hm' | hm'
  · exact hnew m' (.inl hm')
  · exact h m' (mem_append_right _ hm')

lemma PropertyStore.txs_applyAll {st : PropertyStore β} (ws : List (PropertyWrite β × Choice)) :
    (st.applyAll ws).txs = st.txs := by
  induction ws generalizing st with
  | nil => rfl
  | cons wc ws ih => exact ih

/-- The transaction is closed, whether or not its preconditions hold. -/
lemma PropertyStore.of_apply {st st' : PropertyStore β} {t : ℕ} {tx : WriteTx β}
    {choices : List Choice} (htx : st.sealedTx t = some tx) (h : st.apply t choices = some st') :
    st' = (if st.preconditions tx then (st.setPhase t tx .closed).applyAll (tx.buffer.zip choices)
      else st.setPhase t tx .closed) ∧ st'.txs = (st.setPhase t tx .closed).txs := by
  unfold apply at h
  rw [htx, Option.bind_some] at h
  split_ifs at h ⊢ <;> cases h
  · exact ⟨rfl, txs_applyAll _⟩
  · exact ⟨rfl, rfl⟩

end Apply

end Aletheia.CryptoShred
