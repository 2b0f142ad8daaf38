import Aletheia.Machine
import Mathlib.Order.Lattice

/-!
# Persisting the indexes while transactions commit

Three drivers write the graph and the temporal file and then a manifest with the LSN from which
startup replays the log: `persist_indexes`, one cycle of the background worker, and
`persist_all_indexes` at shutdown. Nothing keeps them from running at the same time, and only the
first one takes the commit lock to read its LSN. A store or a file stands here for the transactions
that it is sure to contain: a scan that is not atomic may also see parts of later ones.
-/

namespace Aletheia

/-- The frame of a committing transaction, which takes the LSNs from `base` on: one for each
operation, one for `BeginTx` and one for `CommitTx`. The serial number tells apart the transactions
of all lifetimes of the process. -/
structure LoggedFrame where
  serial : ℕ
  base : ℕ
  operations : ℕ
deriving DecidableEq, Repr

/-- The LSN after the frame. -/
def LoggedFrame.next (f : LoggedFrame) : ℕ := f.base + f.operations + 2

/-- The two components whose files hold transactions. -/
inductive Component where
  | graph
  | temporal
deriving DecidableEq, Repr

structure Both (α : Type) where
  graph : α
  temporal : α
deriving DecidableEq, Repr

namespace Both

variable {α : Type}

def get (b : Both α) : Component → α
  | .graph => b.graph
  | .temporal => b.temporal

def set (b : Both α) (c : Component) (a : α) : Both α :=
  match c with
  | .graph => { b with graph := a }
  | .temporal => { b with temporal := a }

@[simp] lemma get_set (b : Both α) (c c' : Component) (a : α) :
    (b.set c a).get c' = if c' = c then a else b.get c' := by
  cases c <;> cases c' <;> rfl

end Both

/-- The LSNs up to which the indexes have been written; `components` are `last_graph_lsn` and
`last_temporal_lsn`. -/
structure PersistenceTracker where
  lastVectorLsn : ℕ
  components : Both ℕ
  lastStringLsn : ℕ
deriving DecidableEq, Repr

namespace PersistenceTracker

def new : PersistenceTracker := ⟨0, ⟨0, 0⟩, 0⟩

def setStartLsn (lsn : ℕ) : PersistenceTracker := ⟨lsn, ⟨lsn, lsn⟩, lsn⟩

def updateVectorLsn (t : PersistenceTracker) (lsn : ℕ) : PersistenceTracker :=
  { t with lastVectorLsn := max t.lastVectorLsn lsn }

/-- `update_graph_lsn` / `update_temporal_lsn`. -/
def updateLsn (t : PersistenceTracker) (c : Component) (lsn : ℕ) : PersistenceTracker :=
  { t with components := t.components.set c (max (t.components.get c) lsn) }

def updateStringLsn (t : PersistenceTracker) (lsn : ℕ) : PersistenceTracker :=
  { t with lastStringLsn := max t.lastStringLsn lsn }

def getSafeManifestLsn (t : PersistenceTracker) : ℕ :=
  min (min (min t.lastVectorLsn t.components.graph) t.components.temporal) t.lastStringLsn

end PersistenceTracker

/-! ### The drivers -/

/-- What a driver does, in the steps that other threads can come between. -/
inductive Instr where
  /-- `create_snapshot` of both stores under their locks -/
  | snapshot
  | scan (c : Component)
  | saveStringInterner
  | save (c : Component)
  | updateLsn (c : Component)
  | updateVectorLsn
  | updateStringLsn
  | getSafeManifestLsn
  | saveManifest
deriving DecidableEq, Repr

/-- `persist_graph_index` / `persist_temporal_index`. -/
def persistIndex (c : Component) : List Instr :=
  [.scan c, .saveStringInterner, .save c, .updateLsn c]

def persistGraphIndex : List Instr := persistIndex .graph

def persistTemporalIndex : List Instr := persistIndex .temporal

def persistVectorIndexes : List Instr := [.saveStringInterner, .updateVectorLsn]

def persistStringInterner : List Instr := [.saveStringInterner, .updateStringLsn]

def updateManifest : List Instr := [.getSafeManifestLsn, .saveManifest]

/-- A driver; the flags say which components are due and do not fail. -/
inductive DriverKind where
  | persistIndexes
  | workerCycle (vector graph temporal strings : Bool)
  | persistAllIndexes (strings graph temporal vector : Bool)
deriving DecidableEq, Repr

def DriverKind.program : DriverKind → List Instr
  | .persistIndexes =>
    [.snapshot] ++ persistStringInterner ++
      [.saveStringInterner, .save .graph, .updateLsn .graph] ++ persistVectorIndexes ++
      [.saveStringInterner, .save .temporal, .updateLsn .temporal] ++ updateManifest
  | .workerCycle vector graph temporal strings =>
    (if vector then persistVectorIndexes else []) ++ (if graph then persistGraphIndex else []) ++
      (if temporal then persistTemporalIndex else []) ++
      (if strings then persistStringInterner else []) ++
      (if vector || graph || temporal || strings then updateManifest else [])
  | .persistAllIndexes strings graph temporal vector =>
    (if strings then persistStringInterner else []) ++ (if graph then persistGraphIndex else []) ++
      (if temporal then persistTemporalIndex else []) ++
      (if vector then persistVectorIndexes else []) ++ updateManifest

/-- A running driver: the LSN that it stamps its components with, what is left to do, what it has
scanned and the LSN it will write into the manifest. -/
structure Driver where
  lsn : ℕ
  todo : List Instr
  scanned : Both (List LoggedFrame)
  safeLsn : ℕ
deriving DecidableEq, Repr

/-! ### The system -/

/-- How far the transaction that holds the commit lock has come. -/
inductive HolderPhase where
  /-- its frame is in the log, the LSNs are allocated -/
  | appended
  /-- its LSN is registered as in flight -/
  | registered
  | applied
deriving DecidableEq, Repr

/-- `durable` counts the frames that a crash leaves in the log, `waits` says whether a commit waits
for them. Transactions in `waiting` have released the lock and are still in flight; `committed`
holds the ones whose commit has returned, or that recovery has found in the log. -/
structure IndexPersistence where
  waits : Bool
  serial : ℕ
  nextLsn : ℕ
  log : List LoggedFrame
  durable : ℕ
  holder : Option (LoggedFrame × HolderPhase)
  waiting : List LoggedFrame
  inFlight : List ℕ
  committed : List LoggedFrame
  /-- current storage and the history -/
  stores : Both (List LoggedFrame)
  tracker : PersistenceTracker
  files : Both (Option (List LoggedFrame))
  /-- the file of the string interner is there -/
  strings : Bool
  manifest : Option ℕ
  drivers : List Driver
deriving DecidableEq, Repr

namespace IndexPersistence

inductive Action where
  /-- the batch of a transaction with so many operations -/
  | appendBatch (operations : ℕ)
  /-- the append or its flush returns an error -/
  | appendFails
  | register
  | applyChanges (ok : Bool)
  | release
  | flush (durable : ℕ)
  /-- the wait of the `i`-th released transaction ends, and its in-flight guard is dropped -/
  | finish (i : ℕ) (ok : Bool)
  | startDriver (kind : DriverKind)
  | runDriver (i : ℕ)
  /-- the driver returns an error -/
  | stopDriver (i : ℕ)
  /-- a crash and a restart; the flag says whether the graph file holds a node -/
  | restart (loadedNodes : Bool)
deriving DecidableEq, Repr

def init (waits : Bool) : IndexPersistence where
  waits := waits
  serial := 0
  nextLsn := 1
  log := []
  durable := 0
  holder := none
  waiting := []
  inFlight := []
  committed := []
  stores := ⟨[], []⟩
  tracker := .new
  files := ⟨none, none⟩
  strings := false
  manifest := none
  drivers := []

/-- The LSN a driver reads first: `persist_indexes` takes the smallest one in flight, under the
commit lock; the others take the next LSN of the log as it is. -/
def startLsn (s : IndexPersistence) : DriverKind → Option ℕ
  | .persistIndexes =>
    if s.holder.isNone then some (s.inFlight.min?.getD s.nextLsn) else none
  | .workerCycle _ _ _ _ | .persistAllIndexes _ _ _ _ => some s.nextLsn

/-- One instruction of the driver `d`. -/
def exec (s : IndexPersistence) (d : Driver) : Instr → IndexPersistence × Driver
  | .snapshot => (s, { d with scanned := s.stores })
  | .scan c => (s, { d with scanned := d.scanned.set c (s.stores.get c) })
  | .saveStringInterner => ({ s with strings := true }, d)
  | .save c => ({ s with files := s.files.set c (some (d.scanned.get c)) }, d)
  | .updateLsn c => ({ s with tracker := s.tracker.updateLsn c d.lsn }, d)
  | .updateVectorLsn => ({ s with tracker := s.tracker.updateVectorLsn d.lsn }, d)
  | .updateStringLsn => ({ s with tracker := s.tracker.updateStringLsn d.lsn }, d)
  | .getSafeManifestLsn => (s, { d with safeLsn := s.tracker.getSafeManifestLsn })
  | .saveManifest => ({ s with manifest := some d.safeLsn }, d)

def survivors (s : IndexPersistence) : List LoggedFrame := s.log.take s.durable

/-- What `load_indexes_startup` returns. Where only the manifest is missing it goes by one of
LSN 0. -/
def loadedLsn (s : IndexPersistence) : Option ℕ :=
  s.manifest.or (if s.strings then some 0 else none)

/-- The LSN with which the allocator goes on after a crash: after the last frame that is left, and
not below the manifest. -/
def recoveredLsn (s : IndexPersistence) : ℕ :=
  max ((s.survivors.map LoggedFrame.next).foldl max 1) (s.loadedLsn.getD 0)

/-- The LSN from which startup replays the log. Without a loaded one it replays everything, except
when the graph file has put a node into current storage: then nothing. -/
def replayStart (s : IndexPersistence) (loadedNodes : Bool) : ℕ :=
  match s.loadedLsn with
  | some lsn => lsn
  | none => if loadedNodes then s.recoveredLsn else 0

/-- A crash, and startup from the log, the files and the manifest. -/
def restart (s : IndexPersistence) (loadedNodes : Bool) : IndexPersistence :=
  let replayed := s.survivors.filter fun f => s.replayStart loadedNodes ≤ f.base
  { s with
    nextLsn := s.recoveredLsn
    log := s.survivors
    holder := none
    waiting := []
    inFlight := []
    committed := s.committed.filter (· ∈ s.survivors) ++ replayed
    stores := ⟨s.files.graph.getD [] ++ replayed, s.files.temporal.getD [] ++ replayed⟩
    tracker := s.loadedLsn.elim .new PersistenceTracker.setStartLsn
    drivers := [] }

def step (s : IndexPersistence) : Action → Option IndexPersistence
  | .appendBatch operations =>
    if s.holder.isNone then
      let f : LoggedFrame := ⟨s.serial, s.nextLsn, operations⟩
      some { s with
        serial := s.serial + 1
        nextLsn := f.next
        log := s.log ++ [f]
        holder := some (f, .appended) }
    else none
  | .appendFails =>
    match s.holder with
    | some (_, .appended) => some { s with holder := none }
    | _ => none
  | .register =>
    match s.holder with
    | some (f, .appended) =>
      some { s with holder := some (f, .registered), inFlight := f.base :: s.inFlight }
    | _ => none
  | .applyChanges ok =>
    match s.holder with
    | some (f, .registered) =>
      some (if ok then
          { s with
            holder := some (f, .applied)
            stores := ⟨f :: s.stores.graph, f :: s.stores.temporal⟩ }
        else { s with holder := none, inFlight := s.inFlight.erase f.base })
    | _ => none
  | .release =>
    match s.holder with
    | some (f, .applied) => some { s with holder := none, waiting := s.waiting ++ [f] }
    | _ => none
  | .flush durable =>
    if s.durable ≤ durable ∧ durable ≤ s.log.length then some { s with durable := durable }
    else none
  | .finish i ok =>
    match s.waiting[i]? with
    | some f =>
      if ok ∧ s.waits ∧ f ∉ s.survivors then none
      else
        some { s with
          waiting := s.waiting.eraseIdx i
          inFlight := s.inFlight.erase f.base
          committed := if ok then f :: s.committed else s.committed }
    | none => none
  | .startDriver kind =>
    (s.startLsn kind).map fun lsn =>
      { s with drivers := s.drivers ++ [⟨lsn, kind.program, ⟨[], []⟩, 0⟩] }
  | .runDriver i =>
    match s.drivers[i]? with
    | some d =>
      match d.todo with
      | instr :: rest =>
        let (s', d') := s.exec { d with todo := rest } instr
        some { s' with drivers := s'.drivers.set i d' }
      | [] => none
    | none => none
  | .stopDriver i =>
    (s.drivers[i]?).map fun d => { s with drivers := s.drivers.set i { d with todo := [] } }
  | .restart loadedNodes =>
    if loadedNodes ∧ s.files.graph.isNone then none else some (s.restart loadedNodes)

end IndexPersistence

end Aletheia
