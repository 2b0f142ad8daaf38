import Aletheia.ClockWord
import Aletheia.Machine

/-!
# The commit clock

Any number of threads run `snapshot_for_read`, commits and `raise_to` against one frontier word. A
step is one atomic load, store, compare-exchange or read-modify-write, together with the local
computation after it; taking and releasing the serialization lock, reading the wallclock and
finishing the storage apply are steps of their own. The log records what callers get to see.
-/

namespace Aletheia.CommitClock

abbrev ThreadId := ℕ

/-- A timestamp as the source's types hold it. -/
abbrev Stamp := {ts : Timestamp // InRange ts}

inductive Pc where
  | idle
  /-- `snapshot_for_read`, at the head of its loop -/
  | readLoad
  /-- no commit was in flight; the wallclock is read next -/
  | readNow (state : Word)
  | readCas (state : Word) (snapshot : Timestamp)
  /-- `advance_with`, at the head of its loop, with the guard held -/
  | commitLoad
  | commitCas (observed : Word) (commit : Timestamp)
  /-- stamped; the writes go to storage -/
  | applying (commit : Timestamp)
  /-- the writes are in storage; `publish_applied` is next -/
  | publish (commit : Timestamp)
  /-- `publish_applied` has stored the visibility frontier -/
  | clearFlag (commit : Timestamp)
  /-- the lock is released next -/
  | unlock
  | raiseLoad (ts : Timestamp)
  | raiseStore (ts : Timestamp)
  | raiseApplied (ts : Timestamp)

inductive Event where
  | snapshot (ts : Timestamp)
  | stamp (commit : Timestamp)
  | applied (commit : Timestamp)
  | aborted (commit : Timestamp)
deriving DecidableEq

structure State where
  frontier : Word
  applied : Word
  /-- the holder of the serialization lock -/
  serial : Option ThreadId
  pc : ThreadId → Pc
  /-- newest first -/
  log : List Event

namespace State

def new (ts : Timestamp) : State := ⟨pack ts, pack ts, none, fun _ => .idle, []⟩

def frontierTs (s : State) : Timestamp := stateTimestamp s.frontier

def goto (s : State) (t : ThreadId) (pc : Pc) : State :=
  { s with pc := Function.update s.pc t pc }

def record (s : State) (e : Event) : State := { s with log := e :: s.log }

def answer (s : State) (t : ThreadId) (snapshot : Timestamp) : State :=
  (s.record (.snapshot snapshot)).goto t .idle

end State

inductive Choice where
  | read
  | commit
  | raise (ts : Stamp)
  /-- the next step of the call it is in -/
  | next
  /-- the next step, with what the wallclock or `compute` gives -/
  | given (ts : Stamp)
  /-- a weak compare-exchange fails spuriously, `compute` fails, or the commit aborts -/
  | fail

/-- The stamp after `last` on the logical axis; `none` on overflow. -/
def nextLogical (last : Timestamp) : Option Timestamp :=
  if last.logical + 1 < 2 ^ 32 then some ⟨last.wallclock, last.logical + 1⟩ else none

/-- `snapshot_for_read` after the wallclock was read. -/
def reserve (s : State) (t : ThreadId) (state : Word) (now : Timestamp) : State :=
  let last := stateTimestamp state
  if isReserved state ∧ now ≤ last then s.answer t last
  else if last < now then s.goto t (.readCas state now)
  else
    match nextLogical last with
    | some snapshot => s.goto t (.readCas state snapshot)
    | none => s.goto t .idle

/-- A commit that was stamped is given up: the guard's `Drop` takes the flag off. -/
def abort (s : State) (t : ThreadId) (commit : Timestamp) : State :=
  ({ s with frontier := s.frontier &&& ~~~inFlightBit }.record (.aborted commit)).goto t .unlock

def step (s : State) : ThreadId × Choice → Option State
  | (t, ch) =>
    match s.pc t, ch with
    | .idle, .read => some (s.goto t .readLoad)
    | .idle, .commit =>
      if s.serial = none then some ({ s with serial := some t }.goto t .commitLoad) else none
    | .idle, .raise ts =>
      if s.serial = none then some ({ s with serial := some t }.goto t (.raiseLoad ts)) else none
    -- `snapshot_for_read`
    | .readLoad, .next =>
      if isInFlight s.frontier then some (s.answer t s.frontierTs)
      else some (s.goto t (.readNow s.frontier))
    | .readNow state, .given now => some (reserve s t state now)
    | .readCas state snapshot, .next =>
      if s.frontier = state then
        some ({ s with frontier := pack snapshot ||| reservedBit }.answer t snapshot)
      else some (s.goto t .readLoad)
    | .readCas _ _, .fail => some (s.goto t .readLoad)
    -- a commit: `advance_with`, apply, `publish_applied`, drop
    | .commitLoad, .given commit =>
      if s.frontierTs < commit then some (s.goto t (.commitCas s.frontier commit)) else none
    | .commitLoad, .fail => some (s.goto t .unlock)
    | .commitCas observed commit, .next =>
      if s.frontier = observed then
        some (({ s with frontier := pack commit ||| inFlightBit }.record (.stamp commit)).goto t
          (.applying commit))
      else some (s.goto t .commitLoad)
    | .commitCas _ _, .fail => some (s.goto t .commitLoad)
    | .applying commit, .next => some ((s.record (.applied commit)).goto t (.publish commit))
    | .applying commit, .fail => some (abort s t commit)
    | .publish commit, .next => some ({ s with applied := pack commit }.goto t (.clearFlag commit))
    | .publish commit, .fail => some (abort s t commit)
    | .clearFlag _, .next =>
      some ({ s with frontier := s.frontier &&& ~~~inFlightBit }.goto t .unlock)
    | .unlock, .next => some ({ s with serial := none }.goto t .idle)
    -- `raise_to`
    | .raiseLoad ts, .next =>
      if ts ≤ s.frontierTs then some (s.goto t .unlock) else some (s.goto t (.raiseStore ts))
    | .raiseStore ts, .next => some ({ s with frontier := pack ts }.goto t (.raiseApplied ts))
    | .raiseApplied ts, .next => some ({ s with applied := pack ts }.goto t .unlock)
    | _, _ => none

/-- While a `raise_to` stands between its load and its store, no reservation above its timestamp is
installed. -/
def Unraced (s : State) : ThreadId × Choice → Prop
  | (t, ch) =>
    match s.pc t, ch, s.serial.map s.pc with
    | .readCas _ snapshot, .next, some (.raiseStore ts) => snapshot ≤ ts
    | _, _, _ => True

instance (s : State) (a : ThreadId × Choice) : Decidable (Unraced s a) := by
  obtain ⟨t, ch⟩ := a
  unfold Unraced
  simp only
  split <;> infer_instance

/-! ### What callers may rely on -/

/-- A commit that has been applied or has aborted. -/
def Settled (log : List Event) (c : Timestamp) : Prop := .applied c ∈ log ∨ .aborted c ∈ log

/-- A commit stamp is above every snapshot and stamp before it. -/
def Event.After : Event → Event → Prop
  | .stamp c, .snapshot ts => ts < c
  | .stamp c, .stamp c' => c' < c
  | _, _ => True

/-- When a snapshot was returned, every commit stamped below it was settled. -/
def SnapshotsSettled : List Event → Prop
  | [] => True
  | .snapshot ts :: log => (∀ c, .stamp c ∈ log → c < ts → Settled log c) ∧ SnapshotsSettled log
  | _ :: log => SnapshotsSettled log

end Aletheia.CommitClock
