import Aletheia.History

/-!
# Valid-time slices

How an update supersedes the still-recorded slices of an entity. `planUpdate` reads the slices and
decides which are superseded; `applyUpdate` closes their transaction intervals and appends, in
chain order, the carry-forward of the predecessor's uncovered prefix, the new version and, after a
backfill, a copy of the open-ended head. Nothing recorded is rewritten.
-/

namespace Aletheia

variable {K X : Type} [DecidableEq K]

structure UpdatePlan where
  predecessor : Option VersionId
  carryFrom : Option Timestamp
  newValidTo : Option Timestamp
  reassert : Option VersionId
deriving DecidableEq, Repr

abbrev Slice := VersionId × BiTemporalInterval

/-- The planner's loop: the first open slice that contains `validFrom`, and the least start after
`validFrom` among the slices before it. -/
def scanSlices (validFrom : Timestamp) : Option Timestamp → List Slice →
    Option Slice × Option Timestamp
  | next, [] => (none, next)
  | next, s :: rest =>
    if isOpenSlice s.2 then
      if s.2.validTime.contains validFrom then (some s, next)
      else if validFrom < s.2.validTime.start then
        scanSlices validFrom (some (next.elim s.2.validTime.start (min · s.2.validTime.start))) rest
      else scanSlices validFrom next rest
    else scanSlices validFrom next rest

/-- Plan an update from the head and the other still-recorded slices. -/
def planUpdate (head : Option Slice) (otherSlices : List Slice) (validFrom : Timestamp) :
    UpdatePlan :=
  let headSlice := head.filter fun s => isOpenSlice s.2
  let found : Option Slice × Option Timestamp :=
    match headSlice.filter (fun s => s.2.validTime.contains validFrom) with
    | some s => (some s, none)
    | none => scanSlices validFrom none (headSlice.toList ++ otherSlices)
  let predecessor := found.1
  let newValidTo :=
    match predecessor with
    | some s => if s.2.validTime.isCurrent then none else some s.2.validTime.stop
    | none => found.2
  { predecessor := predecessor.map (·.1)
    carryFrom := (predecessor.map (·.2.validTime.start)).filter (· < validFrom)
    newValidTo
    reassert :=
      match newValidTo, headSlice with
      | some _, some h =>
        if h.2.validTime.isCurrent ∧ predecessor.map (·.1) ≠ some h.1 then some h.1 else none
      | _, _ => none }

/-- What `applyUpdate` appended, for the temporal index and for current storage. -/
structure AppliedUpdate (X : Type) where
  appended : List Slice
  reasserted : Option (VersionId × Content X)

namespace HistoricalStorage

/-- The version `vid` as a slice. -/
def sliceOf (h : HistoricalStorage K X) (vid : VersionId) : Option Slice :=
  (h.getVersion vid).map fun v => (vid, v.temporal)

/-- `plan_node_update` / `plan_edge_update`. -/
def planEntityUpdate (h : HistoricalStorage K X) (entity : K) (validFrom : Timestamp) :
    UpdatePlan :=
  planUpdate ((h.heads entity).bind h.sliceOf) ((h.openSlices entity).filterMap h.sliceOf) validFrom

/-- A structural version to append: its id, the start of its valid interval and the content it
copies. -/
abbrev Structural (X : Type) := VersionId × Timestamp × Content X

def requireId (id : Option VersionId) (what : String) : Except StorageError VersionId :=
  match id with
  | some id => .ok id
  | none => .error (.inconsistentState s!"update plan requires a {what} version id")

/-- The carry-forward's payload. An edge keeps the endpoints the update was given. -/
def carryPayload (plan : UpdatePlan) (ends : X) (carryId : Option VersionId)
    (h : HistoricalStorage K X) : Except StorageError (Option (Structural X)) :=
  match plan.predecessor, plan.carryFrom with
  | some pred, some start =>
    match h.getVersion pred with
    | none => .error (.versionNotFound pred)
    | some v => do
      let id ← requireId carryId "carry-forward"
      return some (id, start, { v.content with ends })
  | _, _ => .ok none

def reassertPayload (plan : UpdatePlan) (ends : X) (reassertId : Option VersionId)
    (h : HistoricalStorage K X) : Except StorageError (Option (Structural X)) :=
  match plan.reassert with
  | some head =>
    match h.getVersion head with
    | none => .error (.versionNotFound head)
    | some v => do
      let id ← requireId reassertId "re-assertion"
      return some (id, v.temporal.validTime.start, { v.content with ends })
  | none => .ok none

/-- Close the transaction interval of `vid` unless it is closed already. -/
def closeIfRecorded (commit : Timestamp) (vid : VersionId) :
    EStateM StorageError (HistoricalStorage K X) Unit := do
  if (← get).isRecorded vid then
    Exec.modifyE (closeVersionTransactionTime vid commit)

/-- The versions an update closes: the predecessor and the re-asserted head, or the head when
there is neither. -/
def toClose (plan : UpdatePlan) (head : Option VersionId) : List VersionId :=
  plan.predecessor.toList ++ plan.reassert.toList ++
    if plan.predecessor.isNone ∧ plan.reassert.isNone then head.toList else []

def closedInterval (validFrom txTime stop : Timestamp) :
    Except StorageError BiTemporalInterval :=
  match (BiTemporalInterval.withValidTime validFrom txTime).closeValidTime stop with
  | .error e => .error (.temporal e)
  | .ok t => .ok t

def append (entity : K) (vid : VersionId) (temporal : BiTemporalInterval) (content : Content X) :
    EStateM StorageError (HistoricalStorage K X) Slice := do
  Exec.modifyE (addVersionWithInterval entity vid temporal content)
  return (vid, temporal)

/-- Append the carry-forward `[from, validFrom)`, if there is one. -/
def appendCarry (entity : K) (validFrom commit : Timestamp) :
    Option (Structural X) → EStateM StorageError (HistoricalStorage K X) (List Slice)
  | none => return []
  | some (id, start, content) => do
    let temporal ← Exec.readE fun _ => closedInterval start commit validFrom
    return [← append entity id temporal content]

def newInterval (plan : UpdatePlan) (validFrom commit : Timestamp) :
    Except StorageError BiTemporalInterval :=
  match plan.newValidTo with
  | none => .ok (.withValidTime validFrom commit)
  | some stop => closedInterval validFrom commit stop

/-- Append the re-asserted head `[start, ∞)`, if there is one. -/
def appendReassert (entity : K) (commit : Timestamp) :
    Option (Structural X) → EStateM StorageError (HistoricalStorage K X) (List Slice)
  | none => return []
  | some (id, start, content) =>
    return [← append entity id (.withValidTime start commit) content]

/-- `apply_node_update` / `apply_edge_update`. The capacity check and the payloads come before any
mutation. -/
def applyUpdate (entity : K) (plan : UpdatePlan) (validFrom commit : Timestamp)
    (vid : VersionId) (content : Content X) (carryId reassertId : Option VersionId) :
    EStateM StorageError (HistoricalStorage K X) (AppliedUpdate X) := do
  let h ← get
  if h.maxVersionsPerEntity < h.logicalVersionCount entity + 1 then
    throw (.capacityExceeded (h.logicalVersionCount entity) h.maxVersionsPerEntity)
  let carry ← Exec.readE (carryPayload plan content.ends carryId)
  let reassert ← Exec.readE (reassertPayload plan content.ends reassertId)
  Exec.each (closeIfRecorded commit) (toClose plan (h.heads entity))
  let carried ← appendCarry entity validFrom commit carry
  let temporal ← Exec.readE fun _ => newInterval plan validFrom commit
  let new ← append entity vid temporal content
  let reasserted ← appendReassert entity commit reassert
  return { appended := carried ++ [new] ++ reasserted
           reasserted := reassert.map fun r => (r.1, r.2.2) }

/-- `close_all_node_slices` / `close_all_edge_slices`. -/
def closeAllSlices (entity : K) (commit : Timestamp) :
    EStateM StorageError (HistoricalStorage K X) Unit := do
  let h ← get
  Exec.each (closeIfRecorded commit) (h.openSlices entity ++ (h.heads entity).toList)

end HistoricalStorage

end Aletheia
