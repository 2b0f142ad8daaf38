import Aletheia.StoreOps

/-!
# Runs of committed writes

The writes that transactions commit, one entity at a time: each draws its version id and runs its
apply function at its commit timestamp. `runFrom` executes a list of them whose stamps do not
decrease. What the list has written to an entity is summarised by its `Status` and the least valid
time ever written; `Tracked` says how the store reflects that.
-/

namespace Aletheia

variable {K X : Type} [DecidableEq K] [EntityKind K X]

/-- A write of one entity; valid times have passed the constructor's range check. -/
inductive Write (K X : Type) where
  | create (k : K) (validFrom : ValidTimestamp) (content : Content X)
  | update (k : K) (validFrom : ValidTimestamp) (content : Content X)
  | delete (k : K) (validFrom : ValidTimestamp) (provenance : Option Provenance)
  | retract (k : K) (validTo : ValidTimestamp) (provenance : Option Provenance)

/-- A write with the transaction that committed it and its commit timestamp. -/
structure CommittedWrite (K X : Type) where
  txId : TxId
  stamp : ValidTimestamp
  write : Write K X

namespace Write

/-- Draw a version id and apply the write. -/
def exec (txId : TxId) (commit : Timestamp) : Write K X →
    EStateM StorageError (EntityStore K X) Unit
  | .create k vf content => do
    let n ← EntityStore.nextVersionId
    EntityStore.applyCreate txId k (.new n) content vf commit
  | .update k vf content => do
    let n ← EntityStore.nextVersionId
    EntityStore.applyUpdate txId k (.new n) content vf commit
  | .delete k vf prov => do
    let n ← EntityStore.nextVersionId
    EntityStore.applyDelete k vf commit (.new n) prov
  | .retract k vt prov => do
    let n ← EntityStore.nextVersionId
    EntityStore.applyRetract k vt commit (.new n) prov

def key : Write K X → K
  | .create k _ _ | .update k _ _ | .delete k _ _ | .retract k _ _ => k

/-- A created entity has an id that was never used before. -/
def CreatesFresh (s : EntityStore K X) : Write K X → Prop
  | .create k _ _ => s.history.heads k = none
  | _ => True

/-- An updated entity is in current storage. -/
def UpdatesLive (s : EntityStore K X) : Write K X → Prop
  | .update k _ _ => (s.current.get k).isSome = true
  | _ => True

instance (s : EntityStore K X) (w : Write K X) : Decidable (w.CreatesFresh s) :=
  match w with
  | .create k _ _ => inferInstanceAs (Decidable (s.history.heads k = none))
  | .update _ _ _ | .delete _ _ _ | .retract _ _ _ => isTrue trivial

instance (s : EntityStore K X) (w : Write K X) : Decidable (w.UpdatesLive s) :=
  match w with
  | .update k _ _ => inferInstanceAs (Decidable ((s.current.get k).isSome = true))
  | .create _ _ _ | .delete _ _ _ | .retract _ _ _ => isTrue trivial

end Write

/-- Execute committed writes in order; `none` if a stamp decreases, a create reuses an id, or a
write fails. -/
def runFrom : EntityStore K X → Timestamp → List (CommittedWrite K X) →
    Option (EntityStore K X × Timestamp)
  | s, clock, [] => some (s, clock)
  | s, clock, w :: ws =>
    if clock ≤ w.stamp.val ∧ w.write.CreatesFresh s then
      match (w.write.exec w.txId w.stamp).run s with
      | .ok () s' => runFrom s' w.stamp ws
      | .error _ _ => none
    else none

lemma runFrom_cons {s s' : EntityStore K X} {clock clock' : Timestamp} {w : CommittedWrite K X}
    {ws : List (CommittedWrite K X)} (h : runFrom s clock (w :: ws) = some (s', clock')) :
    clock ≤ w.stamp.val ∧ w.write.CreatesFresh s ∧
      ∃ s₁, (w.write.exec w.txId w.stamp).run s = .ok () s₁ ∧
        runFrom s₁ w.stamp ws = some (s', clock') := by
  rw [runFrom] at h
  split_ifs at h with hcond
  split at h
  · rename_i s₁ hexec
    exact ⟨hcond.1, hcond.2, s₁, hexec, h⟩
  · cases h

/-- Every update of the run is of an entity that is in current storage when it is made. -/
def UpdatesLive : EntityStore K X → List (CommittedWrite K X) → Prop
  | _, [] => True
  | s, w :: ws => w.write.UpdatesLive s ∧
    match (w.write.exec w.txId w.stamp).run s with
    | .ok () s' => UpdatesLive s' ws
    | .error _ _ => True

lemma updatesLive_append {ws ws' : List (CommittedWrite K X)} :
    ∀ {s s' : EntityStore K X} {clock clock' : Timestamp}, runFrom s clock ws = some (s', clock') →
      (UpdatesLive s (ws ++ ws') ↔ UpdatesLive s ws ∧ UpdatesLive s' ws') := by
  induction ws with
  | nil =>
    intro s s' clock clock' hrun
    cases hrun
    simp [UpdatesLive]
  | cons w ws ih =>
    intro s s' clock clock' hrun
    obtain ⟨-, -, s₁, hexec, hrest⟩ := runFrom_cons hrun
    simp only [List.cons_append, UpdatesLive, hexec, ih hrest, and_assoc]

instance decidableUpdatesLive : (s : EntityStore K X) → (ws : List (CommittedWrite K X)) →
    Decidable (UpdatesLive s ws)
  | _, [] => isTrue trivial
  | s, w :: ws =>
    have : Decidable (match (w.write.exec w.txId w.stamp).run s with
        | .ok () s' => UpdatesLive s' ws
        | .error _ _ => True) :=
      match (w.write.exec w.txId w.stamp).run s with
      | .ok () s' => decidableUpdatesLive s' ws
      | .error _ _ => isTrue trivial
    inferInstanceAs (Decidable (w.write.UpdatesLive s ∧ _))

def EntityStore.init (maxVersions : ℕ) (indexLimit : Option ℕ) (vectorIndexes : List VectorIndex)
    (gen : ℕ) : EntityStore K X :=
  ⟨.empty vectorIndexes, .empty maxVersions (indexLimit.map fun n => ⟨fun _ => [], n⟩), gen⟩

/-! ### What a run has written -/

inductive Status where
  | absent
  | live
  | retracted (validTo : Timestamp)
  | deleted
deriving DecidableEq

def Write.status : Write K X → Status
  | .create _ _ _ | .update _ _ _ => .live
  | .delete _ _ _ => .deleted
  | .retract _ vt _ => .retracted vt

/-- The least valid time written to an entity, after a write of it. -/
def Write.least (lo : Option Timestamp) : Write K X → Option Timestamp
  | .create _ vf _ | .update _ vf _ => some (lo.elim vf.val (min · vf.val))
  | .delete _ _ _ | .retract _ _ _ => lo

/-- Status and least valid time of `k`, folded over the writes from `p`. -/
def summary (k : K) (p : Status × Option Timestamp) (ws : List (CommittedWrite K X)) :
    Status × Option Timestamp :=
  ws.foldl (fun p w => if w.write.key = k then (w.write.status, w.write.least p.2) else p) p

omit [EntityKind K X] in
lemma summary_cons (k : K) (p : Status × Option Timestamp) (w : CommittedWrite K X)
    (ws : List (CommittedWrite K X)) :
    summary k p (w :: ws) =
      summary k (if w.write.key = k then (w.write.status, w.write.least p.2) else p) ws := rfl

/-- The status that the writes leave `k` in. -/
def statusOf (ws : List (CommittedWrite K X)) (k : K) : Status := (summary k (.absent, none) ws).1

/-- The least valid time the writes ever wrote to `k`. -/
def leastValidFrom (ws : List (CommittedWrite K X)) (k : K) : Option Timestamp :=
  (summary k (.absent, none) ws).2

end Aletheia
