import Aletheia.CommitEffects

/-!
# Conflict detection against the loop of a commit

What `apply_changes` and `finalize_current_commit_timestamps` do to the metadata of an entity over
the whole buffer, and what a passed `detect_conflicts` says about it.
-/

namespace Aletheia

open List Stored

namespace Db

variable {db db' : Db} {txId : TxId} {commit : Timestamp} {ids ids' : List VersionId}
  {ws : List BufferedWrite} {r : EntityRef}

/-! ### `apply_changes` -/

/-- The entity is as before, pending, or gone. -/
def Touched (txId : TxId) (r : EntityRef) (db db' : Db) : Prop :=
  db'.metadata r = db.metadata r ∨ db'.metadata r = some ⟨txId, none⟩ ∨ db'.metadata r = none

lemma Touched.trans {db₁ : Db} (h : Touched txId r db db₁) (h' : Touched txId r db₁ db') :
    Touched txId r db db' := by
  rcases h' with h' | h' | h'
  · rwa [Touched, h']
  · exact .inr (.inl h')
  · exact .inr (.inr h')

lemma touched_of_applySingleWrite {w : BufferedWrite}
    (h : (applySingleWrite txId commit w ids).run db = .ok ids' db') : Touched txId r db db' := by
  obtain ⟨hother, hown⟩ := metadata_of_applySingleWrite h
  by_cases hr : r = w.ref
  · subst hr
    split at hown
    · exact .inr (.inr hown.2)
    · exact .inr (.inl hown)
  · exact .inl (hother r hr)

lemma touched_of_applySingleWrite_error {w : BufferedWrite} {e : StorageError}
    (h : (applySingleWrite txId commit w ids).run db = .error e db') : Touched txId r db db' := by
  obtain ⟨hother, hown⟩ := metadata_of_applySingleWrite_error h
  by_cases hr : r = w.ref
  · subst hr
    rcases hown with hown | hown
    · exact .inl hown
    · exact .inr (.inl hown)
  · exact .inl (hother r hr)

lemma after_applyChanges_cons (txId : TxId) (commit : Timestamp) (w : BufferedWrite)
    (ws : List BufferedWrite) (ids : List VersionId) (db : Db) :
    (∃ ids' db₁, (applySingleWrite txId commit w ids).run db = .ok ids' db₁ ∧
      Exec.after (applyChanges txId commit (w :: ws) ids) db =
        Exec.after (applyChanges txId commit ws ids') db₁) ∨
    ∃ e db₁, (applySingleWrite txId commit w ids).run db = .error e db₁ ∧
      Exec.after (applyChanges txId commit (w :: ws) ids) db = db₁ := by
  rcases hw : (applySingleWrite txId commit w ids).run db with ⟨ids', db₁⟩ | ⟨e, db₁⟩
  · exact .inl ⟨ids', db₁, rfl, by
      rw [Exec.after, applyChanges, Exec.run_bind_of_ok hw, ← Exec.after]⟩
  · exact .inr ⟨e, db₁, rfl, Exec.after_of_error (Exec.run_bind_of_error hw)⟩

lemma touched_after_applyChanges :
    Touched txId r db (Exec.after (applyChanges txId commit ws ids) db) := by
  induction ws generalizing db ids with
  | nil => exact .inl rfl
  | cons w ws ih =>
    rcases after_applyChanges_cons txId commit w ws ids db with
      ⟨ids', db₁, hw, heq⟩ | ⟨e, db₁, hw, heq⟩
    · rw [heq]
      exact (touched_of_applySingleWrite hw).trans ih
    · rw [heq]
      exact touched_of_applySingleWrite_error hw

lemma metadata_after_applyChanges (hr : ∀ w ∈ ws, w.ref ≠ r) :
    (Exec.after (applyChanges txId commit ws ids) db).metadata r = db.metadata r := by
  induction ws generalizing db ids with
  | nil => rfl
  | cons w ws ih =>
    have hw : r ≠ w.ref := Ne.symm (hr w mem_cons_self)
    have hws : ∀ w' ∈ ws, w'.ref ≠ r := fun w' h => hr w' (mem_cons_of_mem _ h)
    rcases after_applyChanges_cons txId commit w ws ids db with
      ⟨ids', db₁, hrun, heq⟩ | ⟨e, db₁, hrun, heq⟩
    · rw [heq, ih hws, (metadata_of_applySingleWrite hrun).1 r hw]
    · rw [heq, (metadata_of_applySingleWrite_error hrun).1 r hw]

lemma metadata_of_applyChanges {u : Unit} (h : (applyChanges txId commit ws ids).run db = .ok u db')
    (hr : ∃ w ∈ ws, w.ref = r) : db'.metadata r = some ⟨txId, none⟩ ∨ db'.metadata r = none := by
  induction ws generalizing db ids with
  | nil => simp at hr
  | cons w ws ih =>
    obtain ⟨ids', db₁, hw, hrest⟩ := Exec.run_bind_eq_ok.mp h
    by_cases hlater : ∃ w' ∈ ws, w'.ref = r
    · exact ih hrest hlater
    · -- the write at hand is the last one of the entity
      have hws : ∀ w' ∈ ws, w'.ref ≠ r := fun w' hmem heq => hlater ⟨w', hmem, heq⟩
      obtain ⟨w', hmem, hw'⟩ := hr
      obtain rfl : w' = w := by
        rcases mem_cons.mp hmem with rfl | hmem
        · rfl
        · exact absurd hw' (hws w' hmem)
      have hkeep : db'.metadata r = db₁.metadata r := by
        rw [← Exec.after_of_ok hrest]
        exact metadata_after_applyChanges hws
      obtain ⟨_, hown⟩ := metadata_of_applySingleWrite hw
      rw [hw'] at hown
      rw [hkeep]
      split at hown
      · exact .inr hown.2
      · exact .inl hown

lemma present_of_applyChanges {u : Unit}
    (h : (applyChanges txId commit ws ids).run db = .ok u db') (hr : ∃ w ∈ ws, w.ref = r)
    (hclosing : ∀ w ∈ ws, w.ref = r → w.isClosing) : db.metadata r ≠ none := by
  induction ws generalizing db ids with
  | nil => simp at hr
  | cons w ws ih =>
    obtain ⟨ids', db₁, hw, hrest⟩ := Exec.run_bind_eq_ok.mp h
    obtain ⟨hother, hown⟩ := metadata_of_applySingleWrite hw
    by_cases hwr : w.ref = r
    · rw [if_pos (hclosing w mem_cons_self hwr), hwr] at hown
      exact hown.1
    · obtain ⟨w', hmem, hw'⟩ := hr
      have hmem' : w' ∈ ws := by
        rcases mem_cons.mp hmem with rfl | hmem
        · exact absurd hw' hwr
        · exact hmem
      rw [← hother r (Ne.symm hwr)]
      exact ih hrest ⟨w', hmem', hw'⟩ fun w₁ h₁ => hclosing w₁ (mem_cons_of_mem _ h₁)

/-! ### `finalize_current_commit_timestamps` -/

lemma metadata_finalizeWrite (w : BufferedWrite) : (finalizeWrite commit db w).metadata r =
    if w.ref = r ∧ w.isClosing = false then
      (db.metadata r).map fun m => { m with commitTimestamp := some commit }
    else db.metadata r := by
  rcases w with (⟨k, _, _, _⟩ | ⟨k, _, _, _⟩ | ⟨k, _, _⟩ | ⟨k, _, _⟩) |
      (⟨k, _, _, _⟩ | ⟨k, _, _, _⟩ | ⟨k, _, _⟩ | ⟨k, _, _⟩) <;> rcases r with id | id <;>
    simp only [finalizeWrite, metadata, BufferedWrite.ref, BufferedWrite.isClosing, EntityWrite.key,
      EntityWrite.isClosing, CurrentStorage.get_setCommitTimestamp, EntityRef.node.injEq,
      EntityRef.edge.injEq, reduceCtorEq, and_true, and_false, if_false, eq_comm (a := id)] <;>
    split <;> simp_all [Option.map_map, Function.comp_def]

lemma metadata_finalize : (finalize commit ws db).metadata r =
    if ∃ w ∈ ws, w.ref = r ∧ w.isClosing = false then
      (db.metadata r).map fun m => { m with commitTimestamp := some commit }
    else db.metadata r := by
  induction ws generalizing db with
  | nil => simp [finalize]
  | cons w ws ih =>
    have hcons : finalize commit (w :: ws) db = finalize commit ws (finalizeWrite commit db w) := rfl
    rw [hcons, ih, metadata_finalizeWrite]
    by_cases hw : w.ref = r ∧ w.isClosing = false <;>
      by_cases hws : ∃ w ∈ ws, w.ref = r ∧ w.isClosing = false <;>
      simp [hw, hws, Function.comp_def]

end Db

/-! ### `detect_conflicts` -/

namespace WriteTransaction

variable {tx : WriteTransaction} {db : Db} {r : EntityRef}

/-- The transaction updates, deletes or retracts an entity that it neither creates nor writes by
compare-and-set. -/
def overwrites (tx : WriteTransaction) (r : EntityRef) : Bool :=
  (tx.buffer.any fun w => w.ref = r) && !tx.creates r && !tx.isCasTarget r

/-- What a passed check knows of an entity: its entry is not newer than the snapshot, unless that
entry is still without a commit timestamp; or it is gone. -/
def Fresh (tx : WriteTransaction) (db : Db) (r : EntityRef) : Prop :=
  ∀ m c, db.metadata r = some m → m.commitTimestamp = some c → c ≤ tx.snapshotTimestamp

lemma fresh_of_checkSnapshot {m : VersionMetadata} (hm : db.metadata r = some m)
    (h : tx.checkSnapshot r m = .ok ()) : tx.Fresh db r := by
  intro m' c hm' hc
  cases hm.symm.trans hm'
  rw [checkSnapshot, hc] at h
  simp only at h
  split at h
  · cases h
  · rename_i hle
    exact not_lt.mp hle

lemma of_checkPresent (h : tx.checkPresent db r = .ok ()) :
    tx.Fresh db r ∧ db.metadata r ≠ none := by
  rw [checkPresent] at h
  split at h
  · rename_i m hm
    exact ⟨fresh_of_checkSnapshot hm h, by simp [hm]⟩
  · cases h

lemma of_checkDelete (h : tx.checkDelete db r = .ok ()) : tx.Fresh db r := by
  rw [checkDelete] at h
  split at h
  · rename_i m hm
    exact fresh_of_checkSnapshot hm h
  · rename_i hm
    intro m c hm'
    simp [hm] at hm'

lemma of_detectWrite {K X : Type} [Stored K X] {w : EntityWrite K X}
    (h : tx.detectWrite db w = .ok ()) (hcreate : w.isCreate = false)
    (hcreates : tx.creates (ref X w.key) = false) (hcas : tx.isCasTarget (ref X w.key) = false) :
    tx.Fresh db (ref X w.key) ∧ (w.isClosing = false → db.metadata (ref X w.key) ≠ none) := by
  cases w with
  | create k vid vf content => cases hcreate
  | update k vid vf content =>
    rw [EntityWrite.key] at hcreates hcas
    rw [detectWrite, hcreates, hcas] at h
    exact ⟨(of_checkPresent h).1, fun _ => (of_checkPresent h).2⟩
  | delete k vf prov =>
    rw [EntityWrite.key] at hcreates
    rw [detectWrite, hcreates] at h
    exact ⟨of_checkDelete h, fun hc => by cases hc⟩
  | retract k vt prov =>
    rw [EntityWrite.key] at hcreates
    rw [detectWrite, hcreates] at h
    exact ⟨(of_checkPresent h).1, fun hc => by cases hc⟩

lemma overwrites_iff : tx.overwrites r = true ↔
    (∃ w ∈ tx.buffer, w.ref = r) ∧ tx.creates r = false ∧ tx.isCasTarget r = false := by
  simp [overwrites, and_assoc]

/-- **What `detect_conflicts` checks.** -/
theorem of_detectConflicts (h : tx.detectConflicts db = .ok ()) (hr : tx.overwrites r = true) :
    tx.Fresh db r ∧ (db.metadata r = none → ∀ w ∈ tx.buffer, w.ref = r → w.isClosing = true) := by
  obtain ⟨⟨w₀, hw₀, hr₀⟩, hcreates, hcas⟩ := overwrites_iff.mp hr
  have harm : ∀ w ∈ tx.buffer, w.ref = r →
      tx.Fresh db r ∧ (w.isClosing = false → db.metadata r ≠ none) := by
    intro w hw hwr
    obtain ⟨_, _, hloop⟩ := Exec.except_bind_eq_ok.mp h
    have hdetect := Exec.of_forM_eq_ok hloop hw
    subst hwr
    cases w with
    | node w =>
      refine of_detectWrite hdetect ?_ hcreates hcas
      by_contra hc
      simp only [creates, any_eq_false] at hcreates
      exact hcreates _ hw (by simpa [BufferedWrite.ref] using hc)
    | edge w =>
      refine of_detectWrite hdetect ?_ hcreates hcas
      by_contra hc
      simp only [creates, any_eq_false] at hcreates
      exact hcreates _ hw (by simpa [BufferedWrite.ref] using hc)
  refine ⟨(harm w₀ hw₀ hr₀).1, fun hnone w hw hwr => ?_⟩
  by_contra hclosing
  exact (harm w hw hwr).2 (Bool.eq_false_iff.mpr hclosing) hnone

end WriteTransaction

end Aletheia
