import Aletheia.WalFrames
import Aletheia.Machine
import Mathlib.Data.List.Sort

/-!
# Commits and the flusher on the striped log

Commits are serialized by the commit clock, so one transaction at a time places the entries of its
frame on the ring of its thread's stripe. The background flusher drains the stripes one after
another, sorts what it took by LSN and writes it to the segments. Placing an entry and draining a
stripe are steps of their own. `commit_membership` keeps the two apart only where a group-commit
coordinator is configured: otherwise a commit does not take it.
-/

namespace Aletheia

variable {D C : Type}

/-- A commit inside `append_batch`. -/
structure Placement (D : Type) where
  transaction : LoggedTransaction D
  stripe : ℕ
  firstLsn : ℕ
  /-- how many entries are on the ring already -/
  placed : ℕ

def Placement.entry (p : Placement D) (now : Timestamp) (op : WalOperation D C) : WalEntry D C where
  lsn := p.firstLsn + p.placed
  timestamp := now
  operation := op
  framed := true

inductive Flusher (D C : Type) where
  | idle
  /-- inside `drain_all`, at the stripe `next` -/
  | draining (next : ℕ) (entries : List (WalEntry D C))
  /-- what the coordinator is given -/
  | flushing (entries : List (WalEntry D C))

def Flusher.isDraining : Flusher D C → Bool
  | .draining _ _ => true
  | _ => false

/-- The entries that are on no ring any more and in no segment yet. -/
def Flusher.held : Flusher D C → List (WalEntry D C)
  | .idle => []
  | .draining _ entries | .flushing entries => entries

structure WalSystem (D C : Type) where
  groupCommit : Bool
  stripeCapacity : ℕ
  /-- the rings, oldest entry first -/
  stripes : List (List (WalEntry D C))
  nextLsn : ℕ
  placement : Option (Placement D)
  flusher : Flusher D C
  /-- what the flushes that returned `Ok` have written -/
  segments : List (WalEntry D C)
  /-- the transactions whose batch is in the log, in commit order -/
  committed : List (LoggedTransaction D)

/-- `sort_by_key` on the LSN. -/
def sortByLsn (entries : List (WalEntry D C)) : List (WalEntry D C) :=
  entries.insertionSort fun a b => a.lsn ≤ b.lsn

namespace WalSystem

inductive Action (D : Type) where
  /-- a transaction on a thread of this stripe allocates the LSNs of its batch -/
  | begin (stripe : ℕ) (transaction : LoggedTransaction D)
  /-- the next entry of the batch goes to the ring -/
  | append (now : Timestamp)
  /-- the ring stayed full for too long, or was closed: `append_batch` fails -/
  | giveUp
  | startDrain
  | drainStripe
  | flush (ok : Bool)

def commitHoldsMembership (s : WalSystem D C) : Bool := s.groupCommit && s.placement.isSome

def begin (s : WalSystem D C) (stripe : ℕ) (t : LoggedTransaction D) : Option (WalSystem D C) :=
  if s.placement.isNone ∧ stripe < s.stripes.length ∧ ¬(s.groupCommit ∧ s.flusher.isDraining) then
    some { s with
      placement := some ⟨t, stripe, s.nextLsn, 0⟩
      nextLsn := s.nextLsn + (t.frame C).length }
  else none

def append (s : WalSystem D C) (now : Timestamp) : Option (WalSystem D C) := do
  let p ← s.placement
  let ring ← s.stripes[p.stripe]?
  let op ← (p.transaction.frame C)[p.placed]?
  if ring.length < s.stripeCapacity then
    let s := { s with
      stripes := s.stripes.set p.stripe (ring ++ [p.entry now op]) }
    if p.placed + 1 = (p.transaction.frame C).length then
      some { s with placement := none, committed := s.committed ++ [p.transaction] }
    else some { s with placement := some { p with placed := p.placed + 1 } }
  else none

def startDrain (s : WalSystem D C) : Option (WalSystem D C) :=
  match s.flusher with
  | .idle => if s.commitHoldsMembership then none else some { s with flusher := .draining 0 [] }
  | _ => none

def drainStripe (s : WalSystem D C) : Option (WalSystem D C) :=
  match s.flusher with
  | .draining next entries =>
    match s.stripes[next]? with
    | some ring =>
      some { s with
        stripes := s.stripes.set next []
        flusher := .draining (next + 1) (entries ++ ring) }
    | none => some { s with flusher := .flushing (sortByLsn entries) }
  | _ => none

/-- `flush_entries`: nothing is written for an empty drain, and the entries of a failed flush are
not put back. -/
def flush (s : WalSystem D C) (ok : Bool) : Option (WalSystem D C) :=
  match s.flusher with
  | .flushing entries =>
    if ok then some { s with flusher := .idle, segments := s.segments ++ entries }
    else if entries.isEmpty then none
    else some { s with flusher := .idle }
  | _ => none

def step (s : WalSystem D C) : Action D → Option (WalSystem D C)
  | .begin stripe t => s.begin stripe t
  | .append now => s.append now
  | .giveUp => if s.placement.isSome then some { s with placement := none } else none
  | .startDrain => s.startDrain
  | .drainStripe => s.drainStripe
  | .flush ok => s.flush ok

def init (groupCommit : Bool) (stripeCount stripeCapacity : ℕ) : WalSystem D C where
  groupCommit := groupCommit
  stripeCapacity := stripeCapacity
  stripes := List.replicate stripeCount []
  nextLsn := 1
  placement := none
  flusher := .idle
  segments := []
  committed := []

/-- What recovery reads after a crash: the segments' entries in LSN order. -/
def surviving (s : WalSystem D C) : List (WalEntry D C) := sortByLsn s.segments

end WalSystem

end Aletheia
