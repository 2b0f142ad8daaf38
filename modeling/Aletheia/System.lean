import Aletheia.Buffering
import Aletheia.Constraint
import Aletheia.Machine

/-!
# Concurrent transactions

Any number of write transactions over one database. Each goes through the steps of
`commit_with_timestamp_inner` in order, and the steps of different transactions interleave freely
except for the lock on the commit clock, which one transaction holds from `lock` to `release`.
Conflict detection and the constraint check come before the lock, the reservation guard is settled
after it.
-/

namespace Aletheia

inductive Phase where
  | active
  | validated
  /-- `detect_conflicts` has passed. -/
  | checked
  /-- `check_constraints` has passed and the closing version ids are drawn. -/
  | reserved
  | locked
  | stamped (commit : Timestamp)
  /-- The write-skew and compare-and-set guards have passed. -/
  | guarded (commit : Timestamp)
  | logged (commit : Timestamp)
  | applied (commit : Timestamp)
  | finalized (commit : Timestamp)
  | published (commit : Timestamp)
  | released (commit : Timestamp)
  | committed (commit : Timestamp)
  /-- Rolled back, or the commit has returned an error. -/
  | failed
deriving DecidableEq

structure Thread where
  tx : WriteTransaction
  phase : Phase
  closingIds : List VersionId
  guard : ReservationGuard

/-- `frontier` is the largest timestamp that the commit clock has given out; `frontierShared` says
that it was reserved for readers, so that the next snapshot may take it too. -/
structure System where
  db : Db
  registry : ConstraintRegistry
  frontier : Timestamp
  frontierShared : Bool
  lock : Option ℕ
  threads : List Thread

/-- The commits that a snapshot would have to wait for or be parked on. -/
def Phase.inFlight : Phase → Bool
  | .stamped _ | .guarded _ | .logged _ | .applied _ | .finalized _ => true
  | _ => false

namespace System

/-- `snapshot_for_read`: the stamp of the commit in flight, a shared reservation, or a new one. -/
def allowsSnapshot (s : System) (snapshot : Timestamp) : Bool :=
  if s.threads.any (·.phase.inFlight) then snapshot = s.frontier
  else s.frontier < snapshot || (s.frontierShared && snapshot = s.frontier)

/-- Thread `i` is `t`. -/
abbrev At (s : System) (i : ℕ) (t : Thread) : Prop := s.threads[i]? = some t

/-- Thread `i` becomes `t`. -/
def put (s : System) (i : ℕ) (t : Thread) : System := { s with threads := s.threads.set i t }

/-- The commit returns an error: the guard is dropped and the lock, if it is held, released. -/
def fail (s : System) (i : ℕ) (t : Thread) : System :=
  { s.put i { t with phase := .failed } with
    registry := s.registry.drop t.guard
    lock := if s.lock = some i then none else s.lock }

def pass {ε : Type} (s : System) (i : ℕ) (t : Thread) (phase : Phase) (check : Except ε Unit) :
    System :=
  match check with
  | .ok () => s.put i { t with phase := phase }
  | .error _ => s.fail i t

end System

/-- The steps; a Boolean or an optional timestamp says how a step outside the model comes out. -/
inductive Action where
  | begin (snapshot : Timestamp) (start : ValidTimestamp)
  | buffer (i : ℕ) (request : Request) (now : Timestamp)
  | rollback (i : ℕ)
  | validate (i : ℕ)
  | detectConflicts (i : ℕ)
  | checkConstraints (i : ℕ)
  | lock (i : ℕ)
  | advanceWith (i : ℕ) (commit : Option Timestamp)
  | guards (i : ℕ)
  | logOperations (i : ℕ) (ok : Bool)
  | applyChanges (i : ℕ)
  | finalize (i : ℕ)
  | publishApplied (i : ℕ)
  | release (i : ℕ)
  /-- The wait for the group commit and the temporal vector indexes, then the guard. -/
  | finish (i : ℕ) (ok : Bool)

namespace System

/-- A step of thread `i`, which is `t`. -/
def stepThread (s : System) (i : ℕ) (t : Thread) : Action → Option System
  | .buffer _ request now =>
    match t.phase with
    | .active =>
      match (request.exec t.tx now).run s.db with
      | .ok tx db => some { s.put i { t with tx := tx } with db := db }
      | .error _ db => some { s with db := db }
    | _ => none
  | .rollback _ => if t.phase = .active then some (s.fail i t) else none
  | .validate _ =>
    if t.phase = .active then some (s.pass i t .validated (t.tx.validate s.db)) else none
  | .detectConflicts _ =>
    if t.phase = .validated then some (s.pass i t .checked (t.tx.detectConflicts s.db)) else none
  | .checkConstraints _ =>
    if t.phase = .checked then
      match t.tx.checkConstraints s.db s.registry with
      | (.ok guard, registry) =>
        let (ids, db) := t.tx.pregenerateClosingVersionIds s.db
        some { s.put i ⟨t.tx, .reserved, ids, guard⟩ with db := db, registry := registry }
      | (.error _, registry) =>
        some { s.put i { t with phase := .failed } with registry := registry }
    else none
  | .lock _ =>
    if t.phase = .reserved ∧ s.lock = none then
      some { s.put i { t with phase := .locked } with lock := some i }
    else none
  | .advanceWith _ none => if t.phase = .locked then some (s.fail i t) else none
  | .advanceWith _ (some commit) =>
    if t.phase = .locked ∧ s.frontier < commit then
      some { s.put i { t with phase := .stamped commit } with
        frontier := commit, frontierShared := false }
    else none
  | .guards _ =>
    match t.phase with
    | .stamped commit => some (s.pass i t (.guarded commit) (t.tx.guards s.db commit))
    | _ => none
  | .logOperations _ ok =>
    match t.phase with
    | .guarded commit =>
      some (if ok then s.put i { t with phase := .logged commit } else s.fail i t)
    | _ => none
  | .applyChanges _ =>
    match t.phase with
    | .logged commit =>
      match (Db.applyChanges t.tx.txId commit t.tx.buffer t.closingIds).run s.db with
      | .ok _ db => some { s.put i { t with phase := .applied commit } with db := db }
      | .error _ db => some { s.fail i t with db := db }
    | _ => none
  | .finalize _ =>
    match t.phase with
    | .applied commit =>
      some { s.put i { t with phase := .finalized commit } with
        db := s.db.finalize commit t.tx.buffer }
    | _ => none
  | .publishApplied _ =>
    match t.phase with
    | .finalized commit => some (s.put i { t with phase := .published commit })
    | _ => none
  | .release _ =>
    match t.phase with
    | .published commit =>
      some { s.put i { t with phase := .released commit } with lock := none }
    | _ => none
  | .finish _ ok =>
    match t.phase with
    | .released commit =>
      some (if ok then
          { s.put i { t with phase := .committed commit } with
            registry := s.registry.commit t.guard }
        else s.fail i t)
    | _ => none
  | .begin _ _ => none

end System

def Action.thread : Action → Option ℕ
  | .begin _ _ => none
  | .buffer i _ _ | .rollback i | .validate i | .detectConflicts i | .checkConstraints i | .lock i
  | .advanceWith i _ | .guards i | .logOperations i _ | .applyChanges i | .finalize i
  | .publishApplied i | .release i | .finish i _ => some i

namespace System

def step (s : System) (a : Action) : Option System :=
  match a.thread with
  | some i => (s.threads[i]?).bind fun t => s.stepThread i t a
  | none =>
    match a with
    | .begin snapshot start =>
      if s.allowsSnapshot snapshot then
        some { s with
          frontier := snapshot
          frontierShared := s.frontierShared || s.frontier < snapshot
          threads := s.threads ++
            [⟨⟨⟨s.threads.length + 1⟩, snapshot, start, [], []⟩, .active, [], ⟨[], []⟩⟩] }
      else none
    | _ => none

lemma of_step {s s' : System} {a : Action} {i : ℕ} (ha : a.thread = some i)
    (h : s.step a = some s') : ∃ t, s.At i t ∧ s.stepThread i t a = some s' := by
  simp only [step, ha] at h
  exact Option.bind_eq_some_iff.mp h

def start (db : Db) (registry : ConstraintRegistry) (frontier : Timestamp) : System :=
  ⟨db, registry, frontier, false, none, []⟩

/-- All steps of the commit of thread `i`, if none of them fails. -/
def commitSteps (i : ℕ) (commit : Timestamp) : List Action :=
  [.validate i, .detectConflicts i, .checkConstraints i, .lock i, .advanceWith i (some commit),
    .guards i, .logOperations i true, .applyChanges i, .finalize i, .publishApplied i, .release i,
    .finish i true]

end System

end Aletheia
