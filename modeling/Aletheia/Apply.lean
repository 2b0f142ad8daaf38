import Aletheia.Current
import Aletheia.Slices

/-!
# Applying writes

`apply_node_write`, `apply_edge_write`, `apply_node_delete`, `apply_edge_delete`,
`apply_node_retract` and `apply_edge_retract`. Each runs its fallible steps in order on the current
storage, the history and the temporal index, and a step that fails leaves what the earlier ones
did. A node write and an edge write take the same steps, so the functions are generic like the
stores.
-/

namespace Aletheia

variable {K X : Type} [DecidableEq K] [EntityKind K X]

/-- The stores of one kind of entity, and the version-id generator that both kinds share. -/
structure EntityStore (K X : Type) where
  current : CurrentStorage K X
  history : HistoricalStorage K X
  versionIdGen : ℕ

namespace EntityStore

def onCurrent {α : Type} (x : EStateM StorageError (CurrentStorage K X) α) :
    EStateM StorageError (EntityStore K X) α :=
  Exec.zoom (·.current) (fun s c => { s with current := c }) x

def onHistory {α : Type} (x : EStateM StorageError (HistoricalStorage K X) α) :
    EStateM StorageError (EntityStore K X) α :=
  Exec.zoom (·.history) (fun s h => { s with history := h }) x

/-- `version_id_gen.next()`. -/
def nextVersionId : EStateM StorageError (EntityStore K X) ℕ := do
  let s ← get
  set { s with versionIdGen := s.versionIdGen + 1 }
  return s.versionIdGen

/-- `get_node` / `get_edge` of current storage. -/
def getCurrent (k : K) : EStateM StorageError (EntityStore K X) (Entity X) :=
  Exec.readE fun s =>
    match s.current.get k with
    | some x => .ok x
    | none => .error (EntityKind.notFound X k)

/-- `insert_node_version` / `insert_edge_version` of the temporal index. -/
def insertIndexVersion (k : K) (slice : Slice) (h : HistoricalStorage K X) :
    Except StorageError (HistoricalStorage K X) :=
  match h.temporalIndexes with
  | none => .ok h
  | some ix => do
    let ix ← ix.insertVersion k slice.1 slice.2
    return { h with temporalIndexes := some ix }

def indexVersion (k : K) (slice : Slice) : EStateM StorageError (EntityStore K X) Unit :=
  onHistory (Exec.modifyE (insertIndexVersion k slice))

def createTemporalInterval (validFrom txTime : Timestamp) (isTombstone : Bool) :
    Except StorageError BiTemporalInterval :=
  if isTombstone then HistoricalStorage.closedInterval validFrom txTime validFrom
  else .ok (.withValidTime validFrom txTime)

/-- The entry that current storage gets for a version of transaction `txId`; its commit timestamp
is set only after the whole transaction was applied. -/
def pendingEntity (txId : TxId) (vid : VersionId) (label : InternedString)
    (properties : PropertyMap) (ends : X) : Entity X :=
  { label, properties, ends, currentVersion := vid,
    metadata := { createdByTx := txId, commitTimestamp := none } }

/-- The `is_create` branch of `apply_node_write` / `apply_edge_write`. -/
def applyCreate (txId : TxId) (k : K) (vid : VersionId) (content : Content X)
    (validFrom commit : Timestamp) : EStateM StorageError (EntityStore K X) Unit := do
  onCurrent (Exec.modifyE (CurrentStorage.insertDirect k
    (pendingEntity txId vid content.label content.properties content.ends)))
  onHistory (Exec.modifyE (HistoricalStorage.addVersion k vid validFrom commit content false))
  let temporal ← Exec.readE fun _ => createTemporalInterval validFrom commit false
  indexVersion k (vid, temporal)

/-- `allocate_structural_ids`: one id for each structural version the plan needs. -/
def allocateStructuralIds (plan : UpdatePlan) :
    EStateM StorageError (EntityStore K X) (Option VersionId × Option VersionId) := do
  let carryId ←
    if plan.carryFrom.isSome then some <$> VersionId.structural <$> nextVersionId else pure none
  let reassertId ←
    if plan.reassert.isSome then some <$> VersionId.structural <$> nextVersionId else pure none
  return (carryId, reassertId)

/-- The update branch of `apply_node_write` / `apply_edge_write`. After a backfill current storage
gets the re-asserted head, else the new version. -/
def applyUpdate (txId : TxId) (k : K) (vid : VersionId) (content : Content X)
    (validFrom commit : Timestamp) : EStateM StorageError (EntityStore K X) Unit := do
  let plan := (← get).history.planEntityUpdate k validFrom
  let ids ← allocateStructuralIds plan
  let applied ← onHistory
    (HistoricalStorage.applyUpdate k plan validFrom commit vid content ids.1 ids.2)
  let entity :=
    match applied.reasserted with
    | some (headId, head) => pendingEntity txId headId head.label head.properties content.ends
    | none => pendingEntity txId vid content.label content.properties content.ends
  onCurrent (Exec.modifyE (CurrentStorage.updateDirect k entity))
  Exec.each (indexVersion k) applied.appended

/-- `apply_node_delete` / `apply_edge_delete`. -/
def applyDelete (k : K) (validFrom commit : Timestamp) (tombstoneId : VersionId)
    (provenance : Option Provenance) : EStateM StorageError (EntityStore K X) Unit := do
  let x ← getCurrent k
  onHistory (HistoricalStorage.closeAllSlices k commit)
  let temporal ← Exec.readE fun _ => createTemporalInterval validFrom commit true
  onHistory (Exec.modifyE (HistoricalStorage.addVersion k tombstoneId validFrom commit
    ⟨x.label, x.properties, x.ends, provenance⟩ true))
  indexVersion k (tombstoneId, temporal)
  onCurrent (Exec.modifyE (CurrentStorage.deleteDirect k))

def headValidFrom (h : HistoricalStorage K X) (k : K) (commit : Timestamp) : Timestamp :=
  (((h.heads k).bind h.getVersion).map (·.temporal.validTime.start)).getD commit

/-- `apply_node_retract` / `apply_edge_retract`. -/
def applyRetract (k : K) (validTo commit : Timestamp) (retractionId : VersionId)
    (provenance : Option Provenance) : EStateM StorageError (EntityStore K X) Unit := do
  let x ← getCurrent k
  let h := (← get).history
  let validFrom := headValidFrom h k commit
  Exec.each (fun head =>
      onHistory (Exec.modifyE (HistoricalStorage.closeVersionTransactionTime head commit)))
    (h.heads k).toList
  onHistory (Exec.modifyE (HistoricalStorage.addRetractedVersion k retractionId validFrom validTo
    commit ⟨x.label, x.properties, x.ends, provenance⟩))
  let temporal ← Exec.readE fun _ => HistoricalStorage.closedInterval validFrom commit validTo
  indexVersion k (retractionId, temporal)
  onCurrent (Exec.modifyE (CurrentStorage.deleteDirect k))

end EntityStore

end Aletheia
