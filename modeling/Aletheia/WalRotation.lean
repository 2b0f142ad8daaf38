import Aletheia.IndexPersistence

/-!
# Rotating the key of the log while transactions commit

`roll_and_retire_wal` drains the ring buffers and flushes what it found, closes the active segment,
flips the keyring, opens a segment of the new generation, persists the indexes and deletes the closed
segments of other generations. It takes none of the locks of a commit: only `persist_indexes` takes
the commit lock, and only to read its LSN. The transactions, the stores, the files and the manifest
are those of `IndexPersistence`; this module puts the ring buffers, the segments, the flush cycles
and the rotation beside them.
-/

namespace Aletheia

/-- A segment of the log, with the key generation that its header names. -/
structure KeyedSegment where
  id : ℕ
  generation : ℕ
  frames : List LoggedFrame
deriving DecidableEq, Repr

/-- How far the transaction at the commit lock has come with its own flush. With group commit there
is none: the frame joins an epoch in the step that appends it. -/
inductive CommitFlush where
  | pending
  | writing (entries : List LoggedFrame)
  | done
deriving DecidableEq, Repr

/-- A cycle of the group-commit flusher: what it has drained and not yet written, and the
transactions whose epoch it closes. -/
structure FlushCycle where
  entries : List LoggedFrame
  members : List LoggedFrame
deriving DecidableEq, Repr

inductive RotationPhase where
  /-- `drain_all`, one stripe after the other -/
  | draining (held : List LoggedFrame)
  | flushing (held : List LoggedFrame)
  /-- the old segment is closed and the keyring flipped -/
  | sealed
  /-- `persist_indexes`, and once that has returned the retirement -/
  | persisting (driver : ℕ)
deriving DecidableEq, Repr

/-- What the rotation has taken out of the ring buffers and not yet written. -/
def RotationPhase.held : RotationPhase → List LoggedFrame
  | .draining held | .flushing held => held
  | .sealed | .persisting _ => []

structure Rotation where
  newVersion : ℕ
  phase : RotationPhase
deriving DecidableEq, Repr

/-- `acknowledged` are the transactions whose flush was acknowledged, `expired` the frames of the
segments that the retention has deleted, `retired` those of the segments that a rotation has. -/
structure WalRotation where
  index : IndexPersistence
  grouped : Bool
  segmentsToRetain : ℕ
  /-- the generation that new segments are written under -/
  generation : ℕ
  ring : List LoggedFrame
  commitFlush : CommitFlush
  /-- the transactions registered for the open epoch -/
  epochMembers : List LoggedFrame
  cycle : Option FlushCycle
  /-- the transactions whose epoch has finished -/
  completed : List LoggedFrame
  sealed : List KeyedSegment
  active : Option KeyedSegment
  currentSegmentId : ℕ
  rotation : Option Rotation
  acknowledged : List LoggedFrame
  expired : List LoggedFrame
  retired : List LoggedFrame
deriving DecidableEq, Repr

namespace WalRotation

inductive Action where
  /-- the batch of a transaction with so many operations -/
  | appendBatch (operations : ℕ)
  /-- a synchronous commit drains the ring buffers, writes a frame, and has written them all -/
  | commitDrain
  | commitWrite
  | commitFlushed
  | register
  | applyChanges
  | release
  /-- the wait of the `i`-th released transaction ends -/
  | finish (i : ℕ)
  /-- the flusher closes the epoch and drains, writes a frame, and has written them all -/
  | openEpoch
  | cycleWrite
  | cycleFinish
  /-- the active segment has reached its size -/
  | rollSegment
  | startRotation (newVersion : ℕ)
  /-- the drain of the rotation comes to the `i`-th frame -/
  | rotationDrain (i : ℕ)
  | rotationDrained
  | rotationWrite
  | sealAndReopen
  | startPersist
  | runPersist
  /-- the `i`-th closed segment is deleted -/
  | retireSegment (i : ℕ)
  | endRotation
  /-- a crash and a restart under a generation of the keyring -/
  | restart (generation : ℕ) (loadedNodes : Bool)
deriving DecidableEq, Repr

def init (grouped : Bool) (segmentsToRetain : ℕ) : WalRotation where
  index := .init false
  grouped := grouped
  segmentsToRetain := segmentsToRetain
  generation := 0
  ring := []
  commitFlush := .done
  epochMembers := []
  cycle := none
  completed := []
  sealed := []
  active := none
  currentSegmentId := 0
  rotation := none
  acknowledged := []
  expired := []
  retired := []

def disk (s : WalRotation) : List LoggedFrame :=
  (s.sealed ++ s.active.toList).flatMap KeyedSegment.frames

def held (s : WalRotation) : List LoggedFrame := s.rotation.elim [] fun r => r.phase.held

def ensureSegmentOpen (s : WalRotation) : WalRotation :=
  match s.active with
  | some _ => s
  | none =>
    { s with
      active := some ⟨s.currentSegmentId + 1, s.generation, []⟩
      currentSegmentId := s.currentSegmentId + 1 }

def write (s : WalRotation) (f : LoggedFrame) : WalRotation :=
  let s := s.ensureSegmentOpen
  { s with active := s.active.map fun seg => { seg with frames := seg.frames ++ [f] } }

/-- The active segment is closed, and the retention deletes the segments that are too far behind it,
by number alone. -/
def sealCurrent (s : WalRotation) : WalRotation :=
  let retainFrom := s.currentSegmentId - s.segmentsToRetain
  let closed := s.sealed ++ s.active.toList
  { s with
    sealed := closed.filter fun seg => retainFrom ≤ seg.id
    active := none
    expired := s.expired ++
      (closed.filter fun seg => seg.id < retainFrom).flatMap KeyedSegment.frames }

/-- `seal_active_segment_and_reopen`: close, flip the keyring and open, under the writer lock. -/
def sealActiveSegmentAndReopen (s : WalRotation) (newVersion : ℕ) : WalRotation :=
  ensureSegmentOpen { s.ensureSegmentOpen.sealCurrent with generation := newVersion }

/-- The driver of the rotation's `persist_indexes`. -/
def persistDriver (s : WalRotation) : Option Driver :=
  s.rotation.bind fun r =>
    match r.phase with
    | .persisting i => s.index.drivers[i]?
    | .draining _ | .flushing _ | .sealed => none

/-- What startup finds in the segments and the files. -/
def crashed (s : WalRotation) : IndexPersistence :=
  { s.index with log := s.disk, durable := s.disk.length }

def restart (s : WalRotation) (generation : ℕ) (loadedNodes : Bool) : WalRotation :=
  { s with
    index := s.crashed.restart loadedNodes
    generation := generation
    ring := []
    commitFlush := .done
    epochMembers := []
    cycle := none
    completed := []
    sealed := s.sealed ++ s.active.toList
    active := none
    currentSegmentId := ((s.sealed ++ s.active.toList).map KeyedSegment.id).foldl max 0
    rotation := none }

/-- A step that only moves the transaction at the commit lock on. -/
def stepIndex (s : WalRotation) (a : IndexPersistence.Action) : Option WalRotation :=
  (s.index.step a).map fun index => { s with index := index }

def commitStep (s : WalRotation) : Action → Option WalRotation
  | .appendBatch operations =>
    let f : LoggedFrame := ⟨s.index.serial, s.index.nextLsn, operations⟩
    (s.index.step (.appendBatch operations)).map fun index =>
      { s with
        index := index
        ring := s.ring ++ [f]
        commitFlush := if s.grouped then .done else .pending
        epochMembers := if s.grouped then s.epochMembers ++ [f] else s.epochMembers }
  | .commitDrain =>
    match s.commitFlush with
    | .pending => some { s with ring := [], commitFlush := .writing s.ring }
    | .writing _ | .done => none
  | .commitWrite =>
    match s.commitFlush with
    | .writing (f :: rest) => some { s.write f with commitFlush := .writing rest }
    | .writing [] | .pending | .done => none
  | .commitFlushed =>
    match s.commitFlush, s.index.holder with
    | .writing [], some (f, _) =>
      some { s with commitFlush := .done, acknowledged := f :: s.acknowledged }
    | _, _ => none
  | .register => if s.commitFlush = .done then s.stepIndex .register else none
  | .applyChanges => s.stepIndex (.applyChanges true)
  | .release => s.stepIndex .release
  | .finish i =>
    match s.index.waiting[i]? with
    | some f =>
      if s.grouped then
        if f ∈ s.completed then
          (s.stepIndex (.finish i true)).map fun s => { s with acknowledged := f :: s.acknowledged }
        else none
      else s.stepIndex (.finish i true)
    | none => none
  | _ => none

def flusherStep (s : WalRotation) : Action → Option WalRotation
  | .openEpoch =>
    if s.grouped ∧ s.cycle = none then
      some { s with ring := [], epochMembers := [], cycle := some ⟨s.ring, s.epochMembers⟩ }
    else none
  | .cycleWrite =>
    match s.cycle with
    | some ⟨f :: rest, members⟩ => some { s.write f with cycle := some ⟨rest, members⟩ }
    | _ => none
  | .cycleFinish =>
    match s.cycle with
    | some ⟨[], members⟩ => some { s with cycle := none, completed := s.completed ++ members }
    | _ => none
  | .rollSegment => some s.sealCurrent
  | _ => none

def rotationStep (s : WalRotation) : Action → Option WalRotation
  | .startRotation newVersion =>
    if s.rotation = none then some { s with rotation := some ⟨newVersion, .draining []⟩ } else none
  | .rotationDrain i =>
    match s.rotation, s.ring[i]? with
    | some ⟨v, .draining held⟩, some f =>
      some { s with ring := s.ring.eraseIdx i, rotation := some ⟨v, .draining (held ++ [f])⟩ }
    | _, _ => none
  | .rotationDrained =>
    match s.rotation with
    | some ⟨v, .draining held⟩ => some { s with rotation := some ⟨v, .flushing held⟩ }
    | _ => none
  | .rotationWrite =>
    match s.rotation with
    | some ⟨v, .flushing (f :: held)⟩ =>
      some { s.write f with rotation := some ⟨v, .flushing held⟩ }
    | _ => none
  | .sealAndReopen =>
    match s.rotation with
    | some ⟨v, .flushing []⟩ =>
      some { s.sealActiveSegmentAndReopen v with rotation := some ⟨v, .sealed⟩ }
    | _ => none
  | .startPersist =>
    match s.rotation with
    | some ⟨v, .sealed⟩ =>
      (s.stepIndex (.startDriver .persistIndexes)).map fun s' =>
        { s' with rotation := some ⟨v, .persisting s.index.drivers.length⟩ }
    | _ => none
  | .runPersist =>
    match s.rotation with
    | some ⟨_, .persisting i⟩ => s.stepIndex (.runDriver i)
    | _ => none
  | .retireSegment i =>
    match s.rotation, s.persistDriver, s.sealed[i]? with
    | some ⟨v, _⟩, some d, some seg =>
      if d.todo = [] ∧ seg.generation ≠ v then
        some { s with sealed := s.sealed.eraseIdx i, retired := s.retired ++ seg.frames }
      else none
    | _, _, _ => none
  | .endRotation =>
    match s.rotation, s.persistDriver with
    | some ⟨v, _⟩, some d =>
      if d.todo = [] ∧ ∀ seg ∈ s.sealed, seg.generation = v then
        some { s with rotation := none }
      else none
    | _, _ => none
  | _ => none

def step (s : WalRotation) (a : Action) : Option WalRotation :=
  match a with
  | .appendBatch _ | .commitDrain | .commitWrite | .commitFlushed | .register | .applyChanges
  | .release | .finish _ => s.commitStep a
  | .openEpoch | .cycleWrite | .cycleFinish | .rollSegment => s.flusherStep a
  | .startRotation _ | .rotationDrain _ | .rotationDrained | .rotationWrite | .sealAndReopen
  | .startPersist | .runPersist | .retireSegment _ | .endRotation => s.rotationStep a
  | .restart generation loadedNodes =>
    if loadedNodes ∧ s.index.files.graph.isNone then none
    else some (s.restart generation loadedNodes)

end WalRotation

end Aletheia
