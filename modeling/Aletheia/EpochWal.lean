import Aletheia.GroupCommit
import Aletheia.Machine
import Mathlib.Data.List.Sort

/-!
# Commits, flush cycles and explicit flushes

Committing threads place their batch and register in the current epoch under `commit_membership`.
The background flusher drains the stripes and opens the epoch under the same lock, flushes outside
of it and then delivers the outcome to the epoch. `ConcurrentWalSystem::flush` drains the stripes
without the lock and opens no epoch. Placing an entry, draining a stripe, every critical section of
the coordinator and every flush of the segments are steps of their own; an acquisition of the
coordinator's mutex can be refused. An entry is known by its LSN.
-/

namespace Aletheia

/-- A commit inside `append_batch_and_commit`. -/
structure Batch where
  stripe : ℕ
  firstLsn : ℕ
  size : ℕ
  placed : ℕ

structure Registration where
  epoch : ℕ
  firstLsn : ℕ
  size : ℕ

def Registration.lsns (r : Registration) : List ℕ := List.range' r.firstLsn r.size

/-- Where the background flusher stands in `perform_flush_cycle`. -/
inductive CycleState where
  | idle
  /-- inside `drain_pending_finishes` -/
  | retrying
  /-- about to take the membership lock -/
  | ready
  | draining (next : ℕ) (entries : List ℕ)
  | opening (entries : List ℕ)
  /-- with the epoch the entries belong to, unless `start_flush` was refused -/
  | flushing (entries : List ℕ) (opened : Option ℕ)
  | finishing (epoch : ℕ) (outcome : Except String Unit)
  /-- the flush thread has panicked -/
  | dead

/-- A caller inside `ConcurrentWalSystem::flush`. -/
inductive ExplicitFlush where
  | draining (next : ℕ) (entries : List ℕ)
  | flushing (entries : List ℕ)
  | returned

/-- The entries the caller has taken from the rings. -/
def ExplicitFlush.held : ExplicitFlush → List ℕ
  | .draining _ entries | .flushing entries => entries
  | .returned => []

structure EpochWal where
  stripeCapacity : ℕ
  stripes : List (List ℕ)
  nextLsn : ℕ
  batch : Option Batch
  groupCommit : GroupCommit
  cycle : CycleState
  /-- outcomes whose `finish_flush` was refused -/
  pendingFinishes : List (ℕ × Option String)
  carriedFailure : Option String
  explicitFlushes : List ExplicitFlush
  registered : List Registration
  /-- the entries of the coordinator's flushes that returned `Ok` -/
  durable : List ℕ

namespace EpochWal

def maxPendingFinishes : ℕ := 1024

inductive Action where
  | begin (stripe size : ℕ)
  | append
  /-- the ring stayed full for too long, or was closed -/
  | giveUp
  | register (accepted : Bool)
  | startCycle
  | retryFinish (accepted : Bool)
  | lockMembership
  | drainStripe
  | openEpoch (batchReadable accepted : Bool)
  | flushEntries (outcome : Except String Unit)
  | finish (accepted : Bool)
  | callFlush
  | callerDrains (caller : ℕ)
  | callerFlushes (caller : ℕ) (ok : Bool)

def init (recentErrorsCapacity stripeCount stripeCapacity : ℕ) : EpochWal where
  stripeCapacity := stripeCapacity
  stripes := List.replicate stripeCount []
  nextLsn := 1
  batch := none
  groupCommit := GroupCommit.new recentErrorsCapacity
  cycle := .idle
  pendingFinishes := []
  carriedFailure := none
  explicitFlushes := []
  registered := []
  durable := []

def begin (s : EpochWal) (stripe size : ℕ) : Option EpochWal :=
  match s.batch, s.cycle with
  -- the flusher holds the membership lock
  | _, .draining _ _ | _, .opening _ => none
  | none, _ =>
    if stripe < s.stripes.length then
      some { s with batch := some ⟨stripe, s.nextLsn, size, 0⟩, nextLsn := s.nextLsn + size }
    else none
  | some _, _ => none

def append (s : EpochWal) : Option EpochWal := do
  let b ← s.batch
  let ring ← s.stripes[b.stripe]?
  if b.placed < b.size ∧ ring.length < s.stripeCapacity then
    some { s with
      stripes := s.stripes.set b.stripe (ring ++ [b.firstLsn + b.placed])
      batch := some { b with placed := b.placed + 1 } }
  else none

def register (s : EpochWal) (accepted : Bool) : Option EpochWal := do
  let b ← s.batch
  if b.placed = b.size then
    if accepted then
      some { s with
        batch := none
        groupCommit := s.groupCommit.registerTransaction
        registered := s.registered ++ [⟨s.groupCommit.currentEpoch, b.firstLsn, b.size⟩] }
    else some { s with batch := none }
  else none

def outcome : Option String → Except String Unit
  | none => .ok ()
  | some message => .error message

def retryFinish (s : EpochWal) (accepted : Bool) : Option EpochWal :=
  match s.cycle, s.pendingFinishes with
  | .retrying, (epoch, stored) :: rest =>
    if accepted then
      some { s with
        groupCommit := s.groupCommit.finishFlush epoch (outcome stored)
        pendingFinishes := rest }
    else some { s with cycle := .ready }
  | _, _ => none

/-- The queue is empty or its retry was refused, and no commit holds the lock. -/
def lockMembership (s : EpochWal) : Option EpochWal :=
  match s.cycle, s.pendingFinishes, s.batch with
  | .retrying, [], none | .ready, _, none => some { s with cycle := .draining 0 [] }
  | _, _, _ => none

def drainStripe (s : EpochWal) : Option EpochWal :=
  match s.cycle with
  | .draining next entries =>
    match s.stripes[next]? with
    | some ring =>
      some { s with
        stripes := s.stripes.set next []
        cycle := .draining (next + 1) (entries ++ ring) }
    | none => some { s with cycle := .opening (entries.insertionSort (· ≤ ·)) }
  | _ => none

/-- A pending batch size that cannot be read counts as nothing pending. -/
def openEpoch (s : EpochWal) (batchReadable accepted : Bool) : Option EpochWal :=
  match s.cycle with
  | .opening entries =>
    if ¬ entries.isEmpty ∨ (batchReadable ∧ 0 < s.groupCommit.batchCount) then
      if accepted then
        some { s with
          groupCommit := s.groupCommit.startFlush
          cycle := .flushing entries (some s.groupCommit.currentEpoch) }
      else some { s with cycle := .flushing entries none }
    else some { s with cycle := .idle }
  | _ => none

/-- `carry_flush_outcome` keeps the first failure. -/
def carry (carried : Option String) : Except String Unit → Option String
  | .ok () => carried
  | .error message => some (carried.getD message)

def flushEntries (s : EpochWal) (result : Except String Unit) : Option EpochWal :=
  match s.cycle with
  | .flushing entries opened =>
    -- an empty drain is not given to the coordinator
    if entries.isEmpty ∧ ¬ result.isOk then none
    else
      let s := if result.isOk then { s with durable := s.durable ++ entries } else s
      match opened with
      | some epoch => some { s with cycle := .finishing epoch result }
      | none => some { s with cycle := .idle, carriedFailure := carry s.carriedFailure result }
  | _ => none

/-- A failure carried from a cycle without an epoch is folded into the outcome. -/
def fold : Option String → Except String Unit → Except String Unit
  | none, result => result
  | some earlier, .ok () => .error earlier
  | some earlier, .error current => .error (earlier ++ "; and then " ++ current)

def stored : Except String Unit → Option String
  | .ok () => none
  | .error message => some message

/-- `finish_flush_epoch`. -/
def finish (s : EpochWal) (accepted : Bool) : Option EpochWal :=
  match s.cycle with
  | .finishing epoch result =>
    let folded := fold s.carriedFailure result
    if accepted then
      some { s with
        groupCommit := s.groupCommit.finishFlush epoch folded
        cycle := .idle
        carriedFailure := none }
    else
      some { s with
        pendingFinishes := s.pendingFinishes ++ [(epoch, stored folded)]
        cycle := if maxPendingFinishes < s.pendingFinishes.length + 1 then .dead else .idle
        carriedFailure := none }
  | _ => none

def callerDrains (s : EpochWal) (caller : ℕ) : Option EpochWal :=
  match s.explicitFlushes[caller]? with
  | some (.draining next entries) =>
    match s.stripes[next]? with
    | some ring =>
      some { s with
        stripes := s.stripes.set next []
        explicitFlushes :=
          s.explicitFlushes.set caller (.draining (next + 1) (entries ++ ring)) }
    | none =>
      some { s with
        explicitFlushes :=
          s.explicitFlushes.set caller (.flushing (entries.insertionSort (· ≤ ·))) }
  | _ => none

/-- The outcome goes to the caller only. -/
def callerFlushes (s : EpochWal) (caller : ℕ) (ok : Bool) : Option EpochWal :=
  match s.explicitFlushes[caller]? with
  | some (.flushing entries) =>
    if ok then
      some { s with
        explicitFlushes := s.explicitFlushes.set caller .returned
        durable := s.durable ++ entries }
    else if entries.isEmpty then none
    else some { s with explicitFlushes := s.explicitFlushes.set caller .returned }
  | _ => none

def step (s : EpochWal) : Action → Option EpochWal
  | .begin stripe size => s.begin stripe size
  | .append => s.append
  | .giveUp => if s.batch.isSome then some { s with batch := none } else none
  | .register accepted => s.register accepted
  | .startCycle => match s.cycle with
    | .idle => some { s with cycle := .retrying }
    | _ => none
  | .retryFinish accepted => s.retryFinish accepted
  | .lockMembership => s.lockMembership
  | .drainStripe => s.drainStripe
  | .openEpoch batchReadable accepted => s.openEpoch batchReadable accepted
  | .flushEntries result => s.flushEntries result
  | .finish accepted => s.finish accepted
  | .callFlush => some { s with explicitFlushes := s.explicitFlushes ++ [.draining 0 []] }
  | .callerDrains caller => s.callerDrains caller
  | .callerFlushes caller ok => s.callerFlushes caller ok

end EpochWal

end Aletheia
