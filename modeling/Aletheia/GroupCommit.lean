import Mathlib.Data.Finset.Card

/-!
# The group-commit coordinator

A transaction registers in the current epoch and waits for it; the flusher opens the flush of an
epoch, which moves new transactions to the next one, and finishes it with the outcome. Failures are
kept in a bounded history. Below are the critical sections of the coordinator as functions on the
state its mutex protects.
-/

namespace Aletheia

open List

inductive WaitError where
  | timeout (epoch flushedEpoch : ℕ)
  | flushFailed (message : String)
  /-- the epoch is older than the error history -/
  | statusUnknown (epoch historyStart : ℕ)
deriving DecidableEq

structure GroupCommit where
  recentErrorsCapacity : ℕ
  currentEpoch : ℕ
  batchCount : ℕ
  flushedEpoch : ℕ
  /-- failed epochs with their message, oldest first -/
  recentErrors : List (ℕ × String)
  oldestErrorEpoch : ℕ
  /-- finished epochs ahead of `flushedEpoch` -/
  completedEpochs : Finset ℕ

namespace GroupCommit

variable {result : Except String Unit}

/-- `current_epoch` starts at `1`: a `flushed_epoch` of `0` means that nothing is flushed. -/
def new (recentErrorsCapacity : ℕ) : GroupCommit where
  recentErrorsCapacity := recentErrorsCapacity
  currentEpoch := 1
  batchCount := 0
  flushedEpoch := 0
  recentErrors := []
  oldestErrorEpoch := 0
  completedEpochs := ∅

/-- The transaction waits on the current epoch. -/
def registerTransaction (g : GroupCommit) : GroupCommit :=
  { g with batchCount := g.batchCount + 1 }

/-- What a wait returns that ends in this state; it may end by its deadline only before the epoch is
flushed. -/
def waitForFlush (g : GroupCommit) (epoch : ℕ) : Except WaitError Unit :=
  if g.flushedEpoch < epoch then .error (.timeout epoch g.flushedEpoch)
  else match g.recentErrors.find? (fun e => e.1 == epoch) with
    | some e => .error (.flushFailed e.2)
    | none =>
      if epoch < g.oldestErrorEpoch then .error (.statusUnknown epoch g.oldestErrorEpoch)
      else .ok ()

def startFlush (g : GroupCommit) : GroupCommit :=
  { g with currentEpoch := g.currentEpoch + 1, batchCount := 0 }

/-- Drop the front of the history while it is over capacity, remembering what is lost. -/
def evict (capacity : ℕ) : List (ℕ × String) → ℕ → List (ℕ × String) × ℕ
  | [], oldest => ([], oldest)
  | e :: es, oldest =>
    if capacity < (e :: es).length then evict capacity es (e.1 + 1) else (e :: es, oldest)

/-- Advance over a contiguous run of completed epochs; each turn removes one of them. -/
def advance : ℕ → Finset ℕ → ℕ → Finset ℕ × ℕ
  | 0, completed, flushed => (completed, flushed)
  | turns + 1, completed, flushed =>
    if flushed + 1 ∈ completed then advance turns (completed.erase (flushed + 1)) (flushed + 1)
    else (completed, flushed)

def recordError (g : GroupCommit) (epoch : ℕ) : Except String Unit → GroupCommit
  | .ok () => g
  | .error message =>
    let kept := evict g.recentErrorsCapacity (g.recentErrors ++ [(epoch, message)])
      g.oldestErrorEpoch
    { g with recentErrors := kept.1, oldestErrorEpoch := kept.2 }

def complete (g : GroupCommit) (epoch : ℕ) : GroupCommit :=
  let completed :=
    if g.flushedEpoch < epoch then insert epoch g.completedEpochs else g.completedEpochs
  let advanced := advance completed.card completed g.flushedEpoch
  { g with completedEpochs := advanced.1, flushedEpoch := advanced.2 }

def finishFlush (g : GroupCommit) (epoch : ℕ) (result : Except String Unit) : GroupCommit :=
  (g.recordError epoch result).complete epoch

/-- The failure of the epoch is on record, or may have been. -/
def Failed (g : GroupCommit) (epoch : ℕ) : Prop :=
  (∃ message, (epoch, message) ∈ g.recentErrors) ∨ epoch < g.oldestErrorEpoch

def Ordered (g : GroupCommit) : Prop :=
  (g.recentErrors.Pairwise fun a b => a.1 < b.1) ∧ ∀ e ∈ g.recentErrors, g.oldestErrorEpoch ≤ e.1

/-- No later failure than the epoch's is in the history, and none has left it. -/
def InOrder (g : GroupCommit) (epoch : ℕ) : Prop :=
  (∀ e ∈ g.recentErrors, e.1 < epoch) ∧ g.oldestErrorEpoch ≤ epoch

instance (g : GroupCommit) (epoch : ℕ) : Decidable (g.InOrder epoch) := by
  unfold InOrder
  infer_instance

def Unfinished (g : GroupCommit) (epoch : ℕ) : Prop :=
  g.flushedEpoch < epoch ∧ epoch ∉ g.completedEpochs

variable {g : GroupCommit} {epoch e : ℕ}

lemma waitForFlush_eq_ok :
    g.waitForFlush epoch = .ok () ↔ epoch ≤ g.flushedEpoch ∧ ¬ g.Failed epoch := by
  unfold waitForFlush Failed
  by_cases hflushed : g.flushedEpoch < epoch
  · simp [hflushed]
  · rw [if_neg hflushed, ← not_lt]
    split
    next e hfind =>
      have hepoch : e.1 = epoch := by simpa using List.find?_some hfind
      have hmem := mem_of_find?_eq_some hfind
      simp only [reduceCtorEq, false_iff, not_and, not_not]
      exact fun _ => .inl ⟨e.2, hepoch ▸ hmem⟩
    next hnone =>
      have hnot : ¬ ∃ message, (epoch, message) ∈ g.recentErrors := by
        rintro ⟨message, hmem⟩
        exact absurd (List.find?_eq_none.mp hnone _ hmem) (by simp)
      split_ifs with hlt <;> simp [hflushed, hnot, hlt]

lemma evict_spec (capacity : ℕ) {es : List (ℕ × String)} {oldest : ℕ}
    (hsorted : es.Pairwise fun a b => a.1 < b.1) (hold : ∀ e ∈ es, oldest ≤ e.1) :
    ((evict capacity es oldest).1.Pairwise fun a b => a.1 < b.1) ∧
      (∀ e ∈ (evict capacity es oldest).1, (evict capacity es oldest).2 ≤ e.1) ∧
      oldest ≤ (evict capacity es oldest).2 ∧
      ∀ e ∈ es, e ∈ (evict capacity es oldest).1 ∨ e.1 < (evict capacity es oldest).2 := by
  induction es generalizing oldest with
  | nil => exact ⟨List.Pairwise.nil, by simp [evict], le_rfl, by simp⟩
  | cons x xs ih =>
    obtain ⟨hx, hxs⟩ := pairwise_cons.mp hsorted
    unfold evict
    split_ifs with hcap
    · have hnext : ∀ e ∈ xs, x.1 + 1 ≤ e.1 := hx
      obtain ⟨h1, h2, h3, h4⟩ := ih hxs hnext
      have hle := hold x mem_cons_self
      refine ⟨h1, h2, by omega, ?_⟩
      intro e he
      rcases mem_cons.mp he with rfl | he
      · exact .inr (by omega)
      · exact h4 e he
    · exact ⟨hsorted, hold, le_rfl, fun e he => .inl he⟩

lemma advance_iff (turns : ℕ) (completed : Finset ℕ) (flushed e : ℕ) :
    (advance turns completed flushed).2 < e ∧ e ∉ (advance turns completed flushed).1 ↔
      flushed < e ∧ e ∉ completed := by
  induction turns generalizing completed flushed with
  | zero => rfl
  | succ turns ih =>
    unfold advance
    split_ifs with hmem
    · rw [ih, Finset.mem_erase]
      by_cases he : e = flushed + 1
      · simp [he, hmem]
      · have : flushed + 1 < e ↔ flushed < e := by omega
        simp [he, this]
    · rfl

@[simp] lemma currentEpoch_finishFlush (g : GroupCommit) (epoch : ℕ) (result : Except String Unit) :
    (g.finishFlush epoch result).currentEpoch = g.currentEpoch := by
  unfold finishFlush complete recordError
  cases result <;> rfl

lemma unfinished_finishFlush :
    (g.finishFlush epoch result).Unfinished e ↔ e ≠ epoch ∧ g.Unfinished e := by
  have hrecord : (g.recordError epoch result).flushedEpoch = g.flushedEpoch ∧
      (g.recordError epoch result).completedEpochs = g.completedEpochs := by
    unfold recordError
    split <;> exact ⟨rfl, rfl⟩
  unfold GroupCommit.finishFlush complete Unfinished
  rw [advance_iff, hrecord.1, hrecord.2]
  split_ifs with hlt
  · simp only [Finset.mem_insert, not_or, and_left_comm]
  · have : g.flushedEpoch < e → e ≠ epoch := by omega
    tauto

/-- A failure delivered in epoch order is put on record, and every failure stays on record. -/
lemma failed_finishFlush (hordered : g.Ordered)
    (hin : ∀ message, result = .error message → g.InOrder epoch) :
    (g.finishFlush epoch result).Ordered ∧
      (∀ e, g.Failed e → (g.finishFlush epoch result).Failed e) ∧
      (∀ message, result = .error message → (g.finishFlush epoch result).Failed epoch) := by
  cases result with
  | ok u => exact ⟨hordered, fun e h => h, fun _ h => absurd h (by simp)⟩
  | error message =>
    obtain ⟨hlast, hold⟩ := hin message rfl
    have hsorted : (g.recentErrors ++ [(epoch, message)]).Pairwise fun a b => a.1 < b.1 :=
      pairwise_append.mpr ⟨hordered.1, pairwise_singleton _ _,
        fun a ha b hb => mem_singleton.mp hb ▸ hlast a ha⟩
    have hbound : ∀ e ∈ g.recentErrors ++ [(epoch, message)], g.oldestErrorEpoch ≤ e.1 := by
      intro e he
      rcases mem_append.mp he with he | he
      · exact hordered.2 e he
      · rw [mem_singleton.mp he]
        exact hold
    obtain ⟨h1, h2, h3, h4⟩ := evict_spec g.recentErrorsCapacity hsorted hbound
    have hkept : ∀ e message', (e, message') ∈ g.recentErrors ++ [(epoch, message)] →
        (g.finishFlush epoch (.error message)).Failed e := by
      intro e message' hmem
      rcases h4 _ hmem with h | h
      · exact .inl ⟨message', h⟩
      · exact .inr h
    refine ⟨⟨h1, h2⟩, ?_, fun _ _ => hkept epoch message (by simp)⟩
    rintro e (⟨message', hmem⟩ | hlt)
    · exact hkept e message' (mem_append_left _ hmem)
    · exact .inr (lt_of_lt_of_le hlt h3)

end GroupCommit

end Aletheia
