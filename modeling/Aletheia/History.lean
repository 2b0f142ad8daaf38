import Mathlib.Data.Finmap
import Aletheia.Exec
import Aletheia.Version

/-!
# Historical storage

The version maps of `HistoricalStorage` with the temporal index attached to them. Every entity has
a chain of versions linked by `prevVersion`, newest first; the head of the chain and the entity's
other still-recorded valid-time slices are kept in side tables. The hash maps that are only read
with a default are total functions here. All operations are generic in the key `K` and the
endpoints `X`; nodes and edges are the two instances.
-/

namespace Aletheia

variable {K X : Type} [DecidableEq K]

/-! ### The temporal index -/

structure IndexEntry where
  versionId : VersionId
  temporal : BiTemporalInterval
deriving DecidableEq, Repr

/-- `TemporalIndexes`: per entity, the indexed versions in insertion order. The two sorted
timelines of the source are represented by the intervals of the entries. -/
structure TemporalIndexes (K : Type) where
  entries : K → List IndexEntry
  maxVersionsPerEntity : ℕ

namespace TemporalIndexes

def insertVersion (ix : TemporalIndexes K) (entity : K) (versionId : VersionId)
    (temporal : BiTemporalInterval) : Except StorageError (TemporalIndexes K) :=
  if ix.maxVersionsPerEntity ≤ (ix.entries entity).length then
    .error (.capacityExceeded (ix.entries entity).length ix.maxVersionsPerEntity)
  else if (ix.entries entity).any (fun x => x.versionId = versionId) then
    .error (.duplicateId versionId)
  else
    .ok { ix with
      entries := Function.update ix.entries entity (ix.entries entity ++ [⟨versionId, temporal⟩]) }

/-- Close the transaction interval of one indexed version; an unknown version is ignored. -/
def updateTransactionTimeEnd (ix : TemporalIndexes K) (entity : K) (versionId : VersionId)
    (stop : Timestamp) : TemporalIndexes K :=
  { ix with
    entries := Function.update ix.entries entity ((ix.entries entity).map fun x =>
      if x.versionId = versionId then
        { x with temporal.transactionTime.stop := stop }
      else x) }

def findVersionAtPoint (ix : TemporalIndexes K) (entity : K) (validTime txTime : Timestamp) :
    List VersionId :=
  ((ix.entries entity).filter fun x => x.temporal.isVisibleAt validTime txTime).map (·.versionId)

end TemporalIndexes

/-! ### The store -/

structure HistoricalStorage (K X : Type) where
  versions : Finmap (fun _ : VersionId => Version K X)
  heads : K → Option VersionId
  openSlices : K → List VersionId
  versionCounts : K → ℕ
  structuralCounts : K → ℕ
  maxVersionsPerEntity : ℕ
  temporalIndexes : Option (TemporalIndexes K)

/-- A still-recorded slice of current belief: transaction interval open, valid interval
non-empty. -/
def isOpenSlice (temporal : BiTemporalInterval) : Bool :=
  temporal.isCurrentlyRecorded && decide (temporal.validTime.start < temporal.validTime.stop)

namespace HistoricalStorage

def empty (maxVersions : ℕ) (ix : Option (TemporalIndexes K)) : HistoricalStorage K X where
  versions := ∅
  heads _ := none
  openSlices _ := []
  versionCounts _ := 0
  structuralCounts _ := 0
  maxVersionsPerEntity := maxVersions
  temporalIndexes := ix

def getVersion (h : HistoricalStorage K X) (vid : VersionId) : Option (Version K X) :=
  h.versions.lookup vid

/-- Versions that count against the per-entity cap: all but the structural ones. -/
def logicalVersionCount (h : HistoricalStorage K X) (entity : K) : ℕ :=
  h.versionCounts entity - h.structuralCounts entity

def isRecorded (h : HistoricalStorage K X) (vid : VersionId) : Bool :=
  (h.getVersion vid).any (·.temporal.isCurrentlyRecorded)

def trackSliceIfOpen (h : HistoricalStorage K X) (entity : K) (vid : VersionId) :
    HistoricalStorage K X :=
  if (h.getVersion vid).any (fun v => isOpenSlice v.temporal) ∧ vid ∉ h.openSlices entity then
    { h with openSlices := Function.update h.openSlices entity (h.openSlices entity ++ [vid]) }
  else h

def untrackSlice (h : HistoricalStorage K X) (entity : K) (vid : VersionId) :
    HistoricalStorage K X :=
  { h with
    openSlices := Function.update h.openSlices entity ((h.openSlices entity).filter (· ≠ vid)) }

/-- `close_node_version_transaction_time` / `close_edge_version_transaction_time`. -/
def closeVersionTransactionTime (vid : VersionId) (stop : Timestamp)
    (h : HistoricalStorage K X) : Except StorageError (HistoricalStorage K X) :=
  match h.getVersion vid with
  | none => .error (.versionNotFound vid)
  | some v =>
    match v.temporal.closeTransactionTime stop with
    | .error e => .error (.temporal e)
    | .ok t =>
      .ok <| untrackSlice
        { h with
          versions := h.versions.insert vid { v with temporal := t }
          temporalIndexes :=
            h.temporalIndexes.map (·.updateTransactionTimeEnd v.entity vid stop) }
        v.entity vid

/-- Link `prev` to its successor and close its transaction interval. The comparison is strict, so
a predecessor of the same commit stays recorded; the valid interval is never touched. -/
def closePreviousVersionIntervals (prev : Version K X) (newId : VersionId)
    (newTemporal : BiTemporalInterval) : Except TemporalError (Version K X) :=
  if prev.temporal.isCurrentlyRecorded ∧
      prev.temporal.transactionTime.start < newTemporal.transactionTime.start then do
    let t ← prev.temporal.closeTransactionTime newTemporal.transactionTime.start
    return { prev with nextVersion := some newId, temporal := t }
  else
    .ok { prev with nextVersion := some newId }

/-- Link the old head to the new version, update the index where its transaction interval was
closed, and keep it as an open slice if it still is one. -/
def supersedeHead (entity : K) (vid : VersionId) (temporal : BiTemporalInterval)
    (prev : Version K X) (prevId : VersionId) (h : HistoricalStorage K X) :
    Except StorageError (HistoricalStorage K X) :=
  match closePreviousVersionIntervals prev vid temporal with
  | .error e => .error (.temporal e)
  | .ok prev' =>
    .ok <| trackSliceIfOpen
      { h with
        versions := h.versions.insert prevId prev'
        temporalIndexes :=
          if prev.temporal.transactionTime.stop ≠ prev'.temporal.transactionTime.stop then
            h.temporalIndexes.map
              (·.updateTransactionTimeEnd entity prevId prev'.temporal.transactionTime.stop)
          else h.temporalIndexes }
      entity prevId

/-- Store `version` as the new head of its entity. -/
def pushHead (version : Version K X) (h : HistoricalStorage K X) : HistoricalStorage K X :=
  { h with
    versions := h.versions.insert version.id version
    heads := Function.update h.heads version.entity (some version.id)
    versionCounts :=
      Function.update h.versionCounts version.entity (h.versionCounts version.entity + 1)
    structuralCounts :=
      if version.id.isStructural then
        Function.update h.structuralCounts version.entity (h.structuralCounts version.entity + 1)
      else h.structuralCounts }

/-- `add_node_version_with_interval` / `add_edge_version_with_interval`. -/
def addVersionWithInterval (entity : K) (vid : VersionId) (temporal : BiTemporalInterval)
    (content : Content X) (h : HistoricalStorage K X) :
    Except StorageError (HistoricalStorage K X) :=
  let version : Version K X :=
    { id := vid, entity, temporal, content, prevVersion := h.heads entity, nextVersion := none }
  -- structural versions are exempt from the cap
  if vid.isStructural = false ∧ h.maxVersionsPerEntity ≤ h.logicalVersionCount entity then
    .error (.capacityExceeded (h.logicalVersionCount entity) h.maxVersionsPerEntity)
  else
    match h.heads entity with
    | none => .ok (pushHead version h)
    | some prevId =>
      match h.getVersion prevId with
      | none => .error (.versionNotFound prevId)
      | some prev => do
        let h ← supersedeHead entity vid temporal prev prevId h
        return pushHead version h

/-- `add_node_version_with_provenance` / `add_edge_version_with_provenance`: a tombstone gets the
empty valid interval `[validFrom, validFrom)`. -/
def addVersion (entity : K) (vid : VersionId) (validFrom txTime : Timestamp)
    (content : Content X) (isTombstone : Bool) (h : HistoricalStorage K X) :
    Except StorageError (HistoricalStorage K X) :=
  let temporal := BiTemporalInterval.withValidTime validFrom txTime
  if isTombstone then
    match temporal.closeValidTime validFrom with
    | .error e => .error (.temporal e)
    | .ok t => addVersionWithInterval entity vid t content h
  else addVersionWithInterval entity vid temporal content h

/-- `add_retracted_node_version_with_provenance` and its edge counterpart. -/
def addRetractedVersion (entity : K) (vid : VersionId) (validFrom validTo txTime : Timestamp)
    (content : Content X) (h : HistoricalStorage K X) :
    Except StorageError (HistoricalStorage K X) :=
  match (BiTemporalInterval.withValidTime validFrom txTime).closeValidTime validTo with
  | .error e => .error (.temporal e)
  | .ok t => addVersionWithInterval entity vid t content h

/-! ### Reads -/

/-- The chain walk of `find_node_version_at_time`; `fuel` is the number of links it may follow. -/
def walkVisible (h : HistoricalStorage K X) (validTime txTime : Timestamp) :
    ℕ → VersionId → Option VersionId
  | fuel, vid =>
    match h.getVersion vid with
    | none => none
    | some v =>
      if v.temporal.isVisibleAt validTime txTime then some vid
      else
        match v.prevVersion, fuel with
        | none, _ => none
        | some _, 0 => none
        | some p, fuel + 1 => walkVisible h validTime txTime fuel p

/-- `find_node_version_at_time` / `find_edge_version_at_time`: through the temporal index when one
is attached, else along the chain, following at most `versions.len() + 1` links. -/
def findVersionAtTime (h : HistoricalStorage K X) (entity : K) (validTime txTime : Timestamp) :
    Option VersionId :=
  match h.temporalIndexes with
  | some ix =>
    (ix.findVersionAtPoint entity validTime txTime).find? fun vid =>
      (h.getVersion vid).any (·.temporal.isVisibleAt validTime txTime)
  | none =>
    (h.heads entity).bind (h.walkVisible validTime txTime (h.versions.keys.card + 1))

/-- The walk of `node_creation_time` to the first version of a chain. -/
def walkCreation (h : HistoricalStorage K X) : ℕ → VersionId → Option Timestamp
  | fuel, vid =>
    match h.getVersion vid with
    | none => none
    | some v =>
      match v.prevVersion, fuel with
      | none, _ => some v.temporal.validTime.start
      | some _, 0 => none
      | some p, fuel + 1 => walkCreation h fuel p

/-- `node_creation_time` / `edge_creation_time`. The source's loop has no bound; on a chain without
a cycle it ends within the number of stored versions. -/
def creationTime (h : HistoricalStorage K X) (entity : K) : Option Timestamp :=
  (h.heads entity).bind (h.walkCreation h.versions.keys.card)

end HistoricalStorage

end Aletheia
