import Aletheia.Commit

/-!
# What a commit does to current storage

Conflict detection reads only the metadata of the current entries. These lemmas say how each step of
a commit changes it: a write leaves a pending entry or removes one, and changes no other entity; a
failed write leaves its entity as it was or pending; finalizing stamps the pending entries.
-/

namespace Aletheia

open Exec Stored EntityStore CurrentStorage

variable {e : StorageError}

namespace EntityStore

variable {K X : Type} [DecidableEq K] [EntityKind K X] {s s' : EntityStore K X} {k : K}
  {vid : VersionId} {content : Content X} {vf vt commit : Timestamp} {txId : TxId}
  {prov : Option Provenance} {f : CurrentStorage K X → Except StorageError (CurrentStorage K X)}
  {x : Entity X} {α : Type} {pre : EStateM StorageError (EntityStore K X) α}

section History

omit [DecidableEq K] [EntityKind K X]

lemma keeps_onHistory (x : EStateM StorageError (HistoricalStorage K X) α) :
    Exec.Keeps (fun s : EntityStore K X => s.current) (onHistory x) :=
  keeps_zoom _ (fun (s : EntityStore K X) h => { s with history := h }) x fun _ _ => rfl

lemma keeps_allocateStructuralIds (plan : UpdatePlan) :
    Exec.Keeps (fun s : EntityStore K X => s.current) (allocateStructuralIds plan) := by
  intro s
  simp only [allocateStructuralIds]
  split <;> split <;> rfl

end History

omit [EntityKind K X] in
lemma keeps_indexVersion (slice : Slice) :
    Exec.Keeps (fun s : EntityStore K X => s.current) (indexVersion k slice) :=
  keeps_onHistory _

/-- `s'` has a pending entry of `txId` for `k` and is `s` otherwise. -/
def Pending (txId : TxId) (k : K) (s s' : EntityStore K X) : Prop :=
  ∃ x : Entity X, x.metadata = ⟨txId, none⟩ ∧ s'.current = s.current.insert k x

lemma run_onCurrent_insert {u : Unit} (hf : ∀ c c', f c = .ok c' → c' = c.insert k x)
    (h : (onCurrent (modifyE f)).run s = .ok u s') : s'.current = s.current.insert k x := by
  obtain ⟨c, hc, rfl⟩ := run_zoom_eq_ok.mp h
  exact hf _ _ (run_modifyE_eq_ok.mp hc)

lemma insertDirect_eq_ok (c c' : CurrentStorage K X)
    (h : insertDirect k x c = .ok c') : c' = c.insert k x := by
  simp only [insertDirect, bind, Except.bind] at h
  split at h
  · cases h
  · exact (Except.ok.inj h).symm

lemma updateDirect_eq_ok (c c' : CurrentStorage K X)
    (h : updateDirect k x c = .ok c') : c' = c.insert k x := by
  simp only [updateDirect, bind, Except.bind] at h
  split at h
  · cases h
  · exact (Except.ok.inj h).symm

omit [DecidableEq K] [EntityKind K X] in
lemma run_onCurrent_error (h : (onCurrent (modifyE f)).run s = .error e s') :
    s'.current = s.current := by
  simp only [onCurrent, zoom, EStateM.run, modifyE] at h
  rcases hf : f s.current with e' | c
  · rw [hf] at h
    cases h
    rfl
  · rw [hf] at h
    cases h

/-- What a create or update leaves: if it succeeds a pending entry, if it fails that or nothing. -/
structure WritesPending (x : EStateM StorageError (EntityStore K X) Unit) (txId : TxId) (k : K) :
    Prop where
  ok : ∀ s u s', x.run s = .ok u s' → Pending txId k s s'
  error : ∀ s e s', x.run s = .error e s' → s'.current = s.current ∨ Pending txId k s s'

omit [DecidableEq K] [EntityKind K X] in
lemma current_of_keeps {y : EStateM StorageError (EntityStore K X) α}
    (h : Exec.Keeps (fun s : EntityStore K X => s.current) y) {s s' : EntityStore K X}
    (hs : after y s = s') : s'.current = s.current :=
  hs ▸ h s

lemma WritesPending.bind {f : α → EStateM StorageError (EntityStore K X) Unit}
    (hpre : Exec.Keeps (fun s : EntityStore K X => s.current) pre)
    (hf : ∀ a, WritesPending (f a) txId k) : WritesPending (pre >>= f) txId k where
  ok s u s' h := by
    obtain ⟨a, s₁, h1, h2⟩ := run_bind_eq_ok.mp h
    obtain ⟨x, hx, hc⟩ := (hf a).ok _ _ _ h2
    exact ⟨x, hx, by rw [hc, current_of_keeps hpre (after_of_ok h1)]⟩
  error s e s' h := by
    rcases h1 : pre.run s with ⟨a, s₁⟩ | ⟨e₁, s₁⟩
    · have hc₁ := current_of_keeps hpre (after_of_ok h1)
      rw [run_bind_of_ok h1] at h
      rcases (hf a).error _ _ _ h with hc | ⟨x, hx, hc⟩
      · exact .inl (hc.trans hc₁)
      · exact .inr ⟨x, hx, by rw [hc, hc₁]⟩
    · rw [run_bind_of_error h1] at h
      cases h
      exact .inl (current_of_keeps hpre (after_of_error h1))

lemma writesPending_insert {post : EStateM StorageError (EntityStore K X) Unit}
    (hx : x.metadata = ⟨txId, none⟩) (hf : ∀ c c', f c = .ok c' → c' = c.insert k x)
    (hpost : Exec.Keeps (fun s : EntityStore K X => s.current) post) :
    WritesPending (onCurrent (modifyE f) >>= fun _ => post) txId k where
  ok s u s' h := by
    obtain ⟨_, s₁, h1, h2⟩ := run_bind_eq_ok.mp h
    refine ⟨x, hx, ?_⟩
    rw [current_of_keeps hpost (after_of_ok h2), run_onCurrent_insert hf h1]
  error s e s' h := by
    rcases h1 : (onCurrent (modifyE f)).run s with ⟨_, s₁⟩ | ⟨e₁, s₁⟩
    · rw [run_bind_of_ok h1] at h
      refine .inr ⟨x, hx, ?_⟩
      rw [current_of_keeps hpost (after_of_error h), run_onCurrent_insert hf h1]
    · rw [run_bind_of_error h1] at h
      cases h
      exact .inl (run_onCurrent_error h1)

lemma writesPending_applyCreate : WritesPending (applyCreate txId k vid content vf commit) txId k :=
  writesPending_insert rfl insertDirect_eq_ok
    ((keeps_onHistory _).bind fun _ => keeps_readE.bind fun _ => keeps_indexVersion _)

lemma writesPending_applyUpdate :
    WritesPending (applyUpdate txId k vid content vf commit) txId k := by
  refine .bind (fun _ => rfl) fun s => ?_
  refine .bind (keeps_allocateStructuralIds _) fun ids => ?_
  refine .bind (keeps_onHistory _) fun applied => ?_
  refine writesPending_insert ?_ updateDirect_eq_ok (keeps_each keeps_indexVersion _)
  split <;> rfl

/-- What a delete or retraction does: it succeeds only on an entity that is there, and removes it
at the end. -/
structure Removes (x : EStateM StorageError (EntityStore K X) Unit) (k : K) : Prop where
  ok : ∀ s u s', x.run s = .ok u s' →
    ∃ e, s.current.get k = some e ∧ s'.current = s.current.remove k e
  error : ∀ s e s', x.run s = .error e s' → s'.current = s.current

lemma Removes.bind {f : α → EStateM StorageError (EntityStore K X) Unit}
    (hpre : Exec.Keeps (fun s : EntityStore K X => s.current) pre) (hf : ∀ a, Removes (f a) k) :
    Removes (pre >>= f) k where
  ok s u s' h := by
    obtain ⟨a, s₁, h1, h2⟩ := run_bind_eq_ok.mp h
    rw [← current_of_keeps hpre (after_of_ok h1)]
    exact (hf a).ok _ _ _ h2
  error s e s' h := by
    rcases h1 : pre.run s with ⟨a, s₁⟩ | ⟨e₁, s₁⟩
    · rw [run_bind_of_ok h1] at h
      exact ((hf a).error _ _ _ h).trans (current_of_keeps hpre (after_of_ok h1))
    · rw [run_bind_of_error h1] at h
      cases h
      exact current_of_keeps hpre (after_of_error h1)

lemma removes_deleteDirect :
    Removes (onCurrent (modifyE (deleteDirect (X := X) k))) k where
  ok s u s' h := by
    obtain ⟨c, hc, rfl⟩ := run_zoom_eq_ok.mp h
    have hdel := run_modifyE_eq_ok.mp hc
    rw [deleteDirect] at hdel
    split at hdel
    · cases hdel
    · rename_i e he
      exact ⟨e, he, (Except.ok.inj hdel).symm⟩
  error s e s' h := run_onCurrent_error h

lemma removes_applyDelete : Removes (applyDelete (X := X) k vf commit vid prov) k := by
  refine .bind keeps_readE fun x => ?_
  refine .bind (keeps_onHistory _) fun _ => ?_
  refine .bind keeps_readE fun _ => ?_
  refine .bind (keeps_onHistory _) fun _ => ?_
  exact .bind (keeps_indexVersion _) fun _ => removes_deleteDirect

lemma removes_applyRetract : Removes (applyRetract (X := X) k vt commit vid prov) k := by
  refine .bind keeps_readE fun x => ?_
  refine .bind (fun _ => rfl) fun s => ?_
  refine .bind (keeps_each (fun _ => keeps_onHistory _) _) fun _ => ?_
  refine .bind (keeps_onHistory _) fun _ => ?_
  refine .bind keeps_readE fun _ => ?_
  exact .bind (keeps_indexVersion _) fun _ => removes_deleteDirect

end EntityStore

/-! ### In the whole database -/

/-- The stores of a kind are a component of the database, and hold what `metadata` reads. -/
class LawfulStored (K X : Type) [DecidableEq K] [Stored K X] : Prop where
  ref_injective : Function.Injective (Stored.ref X : K → EntityRef)
  store_setStore : ∀ (db : Db) (s : EntityStore K X), Stored.store (Stored.setStore db s) = s
  metadata_ref : ∀ (db : Db) (k : K), db.metadata (Stored.ref X k) =
    ((Stored.store (X := X) db).current.get k).map (·.metadata)
  metadata_other : ∀ (db : Db) (s : EntityStore K X) (r : EntityRef),
    (∀ k : K, r ≠ Stored.ref X k) →
    (Stored.setStore db s).metadata r = db.metadata r
  ref_wrap : ∀ w : EntityWrite K X, (Stored.wrap w).ref = Stored.ref X w.key

instance : LawfulStored NodeId Unit where
  ref_injective _ _ h := EntityRef.node.inj h
  store_setStore _ _ := rfl
  metadata_ref _ _ := rfl
  metadata_other _ _ r hr := by
    cases r with
    | node id => exact absurd rfl (hr id)
    | edge id => rfl
  ref_wrap _ := rfl

instance : LawfulStored EdgeId Endpoints where
  ref_injective _ _ h := EntityRef.edge.inj h
  store_setStore _ _ := rfl
  metadata_ref _ _ := rfl
  metadata_other _ _ r hr := by
    cases r with
    | node id => rfl
    | edge id => exact absurd rfl (hr id)
  ref_wrap _ := rfl

namespace Db

/-- One entity changes at most. -/
def OnlyAt (r : EntityRef) (db db' : Db) : Prop := ∀ r' ≠ r, db'.metadata r' = db.metadata r'

section Kind

variable {K X : Type} [DecidableEq K] [Stored K X] [LawfulStored K X] {db : Db}
  {s : EntityStore K X} {k : K} {txId : TxId} {w : EntityWrite K X}

lemma metadata_setStore (k' : K) : (setStore db s).metadata (ref X k') =
    (s.current.get k').map (·.metadata) := by
  rw [LawfulStored.metadata_ref, LawfulStored.store_setStore]

lemma onlyAt_setStore (h : ∀ k' ≠ k, s.current.get k' = (store (X := X) db).current.get k') :
    OnlyAt (ref X k) db (setStore db s) := by
  intro r hr
  by_cases hk : ∃ k' : K, r = ref X k'
  · obtain ⟨k', rfl⟩ := hk
    rw [metadata_setStore, LawfulStored.metadata_ref, h k' fun heq => hr (by rw [heq])]
  · exact LawfulStored.metadata_other db s r fun k' heq => hk ⟨k', heq⟩

lemma setStore_of_current (h : s.current = (store (X := X) db).current) (r : EntityRef) :
    (setStore db s).metadata r = db.metadata r := by
  by_cases hk : ∃ k' : K, r = ref X k'
  · obtain ⟨k', rfl⟩ := hk
    rw [metadata_setStore, h, LawfulStored.metadata_ref]
  · exact LawfulStored.metadata_other db s r fun k' heq => hk ⟨k', heq⟩

lemma setStore_of_pending (h : EntityStore.Pending txId k (store db) s) :
    OnlyAt (ref X k) db (setStore db s) ∧
      (setStore db s).metadata (ref X k) = some ⟨txId, none⟩ := by
  obtain ⟨x, hx, hc⟩ := h
  refine ⟨onlyAt_setStore fun k' hne => ?_, ?_⟩
  · rw [hc, get_insert_of_ne hne]
  · rw [metadata_setStore, hc, get_insert_self, Option.map_some, hx]

lemma setStore_of_removed {e : Entity X} (hc : s.current = (store (X := X) db).current.remove k e) :
    OnlyAt (ref X k) db (setStore db s) ∧ (setStore db s).metadata (ref X k) = none := by
  refine ⟨onlyAt_setStore fun k' hne => ?_, ?_⟩
  · rw [hc, get_remove_of_ne hne]
  · rw [metadata_setStore, hc, get_remove_self]
    rfl

omit [DecidableEq K] [LawfulStored K X] in
lemma of_run_onStore_error {α β : Type} {x : EStateM StorageError (EntityStore K X) α} {f : α → β}
    {db' : Db} (h : (onStore x >>= fun a => pure (f a)).run db = .error e db') :
    ∃ s, x.run (store db) = .error e s ∧ db' = setStore db s := by
  rcases hx : x.run (store db) with ⟨a, s⟩ | ⟨e', s⟩
  · have hok : (onStore x).run db = .ok a (setStore db s) := run_zoom_of_ok hx
    rw [run_bind_of_ok hok] at h
    cases h
  · have herr : (onStore x).run db = .error e' (setStore db s) := run_zoom_of_error hx
    rw [run_bind_of_error herr] at h
    cases h
    exact ⟨s, rfl, rfl⟩

lemma metadata_of_applyWrite {commit : Timestamp} {ids ids' : List VersionId} {db' : Db}
    (h : (applyWrite txId commit w ids).run db = .ok ids' db') : OnlyAt (ref X w.key) db db' ∧
      if w.isClosing then db.metadata (ref X w.key) ≠ none ∧ db'.metadata (ref X w.key) = none
      else db'.metadata (ref X w.key) = some ⟨txId, none⟩ := by
  have hremoved : ∀ {x : EStateM StorageError (EntityStore K X) Unit} {k : K} {u : Unit},
      EntityStore.Removes x k → (onStore x).run db = .ok u db' →
      OnlyAt (ref X k) db db' ∧ db.metadata (ref X k) ≠ none ∧
        db'.metadata (ref X k) = none := by
    intro x k u hx hrun
    obtain ⟨s, hs, rfl⟩ := run_zoom_eq_ok.mp hrun
    obtain ⟨e, he, hc⟩ := hx.ok _ _ _ hs
    obtain ⟨h1, h2⟩ := setStore_of_removed hc
    exact ⟨h1, by rw [LawfulStored.metadata_ref, he]; exact Option.some_ne_none _, h2⟩
  have hpending : ∀ {x : EStateM StorageError (EntityStore K X) Unit} {k : K} {u : Unit},
      EntityStore.WritesPending x txId k → (onStore x).run db = .ok u db' →
      OnlyAt (ref X k) db db' ∧ db'.metadata (ref X k) = some ⟨txId, none⟩ := by
    intro x k u hx hrun
    obtain ⟨s, hs, rfl⟩ := run_zoom_eq_ok.mp hrun
    exact setStore_of_pending (hx.ok _ _ _ hs)
  cases w with
  | create k vid vf content =>
    obtain ⟨_, _, h1, h2⟩ := run_bind_eq_ok.mp h
    cases h2
    exact hpending writesPending_applyCreate h1
  | update k vid vf content =>
    obtain ⟨_, _, h1, h2⟩ := run_bind_eq_ok.mp h
    cases h2
    exact hpending writesPending_applyUpdate h1
  | delete k vf prov =>
    cases ids with
    | nil => cases h
    | cons id ids =>
      obtain ⟨_, _, h1, h2⟩ := run_bind_eq_ok.mp h
      cases h2
      exact hremoved removes_applyDelete h1
  | retract k vt prov =>
    cases ids with
    | nil => cases h
    | cons id ids =>
      obtain ⟨_, _, h1, h2⟩ := run_bind_eq_ok.mp h
      cases h2
      exact hremoved removes_applyRetract h1

lemma metadata_of_applyWrite_error {commit : Timestamp} {ids : List VersionId} {db' : Db}
    (h : (applyWrite txId commit w ids).run db = .error e db') : OnlyAt (ref X w.key) db db' ∧
      (db'.metadata (ref X w.key) = db.metadata (ref X w.key) ∨
        db'.metadata (ref X w.key) = some ⟨txId, none⟩) := by
  have hsame : ∀ {s : EntityStore K X} {k : K}, s.current = (store (X := X) db).current →
      OnlyAt (ref X k) db (setStore db s) ∧
        ((setStore db s).metadata (ref X k) = db.metadata (ref X k) ∨
          (setStore db s).metadata (ref X k) = some ⟨txId, none⟩) := fun hc =>
    ⟨fun r _ => setStore_of_current hc r, .inl (setStore_of_current hc _)⟩
  cases w with
  | create k vid vf content =>
    obtain ⟨s, hs, rfl⟩ := of_run_onStore_error h
    rcases writesPending_applyCreate.error _ _ _ hs with hc | hp
    · exact hsame hc
    · exact ⟨(setStore_of_pending hp).1, .inr (setStore_of_pending hp).2⟩
  | update k vid vf content =>
    obtain ⟨s, hs, rfl⟩ := of_run_onStore_error h
    rcases writesPending_applyUpdate.error _ _ _ hs with hc | hp
    · exact hsame hc
    · exact ⟨(setStore_of_pending hp).1, .inr (setStore_of_pending hp).2⟩
  | delete k vf prov =>
    cases ids with
    | nil =>
      cases h
      exact ⟨fun _ _ => rfl, .inl rfl⟩
    | cons id ids =>
      obtain ⟨s, hs, rfl⟩ := of_run_onStore_error h
      exact hsame (removes_applyDelete.error _ _ _ hs)
  | retract k vt prov =>
    cases ids with
    | nil =>
      cases h
      exact ⟨fun _ _ => rfl, .inl rfl⟩
    | cons id ids =>
      obtain ⟨s, hs, rfl⟩ := of_run_onStore_error h
      exact hsame (removes_applyRetract.error _ _ _ hs)

end Kind

variable {db db' : Db} {txId : TxId} {commit : Timestamp} {ids ids' : List VersionId}

lemma metadata_of_applySingleWrite {w : BufferedWrite}
    (h : (applySingleWrite txId commit w ids).run db = .ok ids' db') : OnlyAt w.ref db db' ∧
      if w.isClosing then db.metadata w.ref ≠ none ∧ db'.metadata w.ref = none
      else db'.metadata w.ref = some ⟨txId, none⟩ := by
  cases w with
  | node w => exact metadata_of_applyWrite h
  | edge w => exact metadata_of_applyWrite h

lemma metadata_of_applySingleWrite_error {w : BufferedWrite}
    (h : (applySingleWrite txId commit w ids).run db = .error e db') : OnlyAt w.ref db db' ∧
      (db'.metadata w.ref = db.metadata w.ref ∨ db'.metadata w.ref = some ⟨txId, none⟩) := by
  cases w with
  | node w => exact metadata_of_applyWrite_error h
  | edge w => exact metadata_of_applyWrite_error h

end Db

end Aletheia
