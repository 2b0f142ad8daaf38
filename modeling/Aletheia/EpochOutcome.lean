import Aletheia.GroupCommit

/-!
# What a wait reports

The calls on the coordinator in any order, with the epochs finished in any order. The error history
and its boundary are functions of the failures so far: the history keeps the last of them, and the
boundary follows the last one that has left it.
-/

namespace Aletheia.GroupCommit

open List

inductive Call where
  | registerTransaction
  | startFlush
  | finishFlush (epoch : ℕ) (result : Except String Unit)

def call (g : GroupCommit) : Call → GroupCommit
  | .registerTransaction => g.registerTransaction
  | .startFlush => g.startFlush
  | .finishFlush epoch result => g.finishFlush epoch result

def afterCalls (recentErrorsCapacity : ℕ) (calls : List Call) : GroupCommit :=
  calls.foldl call (new recentErrorsCapacity)

def Call.failure : Call → Option (ℕ × String)
  | .finishFlush epoch (.error message) => some (epoch, message)
  | _ => none

/-- The failed epochs with their message, in the order of the calls. -/
def failures (calls : List Call) : List (ℕ × String) := calls.filterMap Call.failure

/-- The failures that no longer fit in the history. -/
def evicted (recentErrorsCapacity : ℕ) (calls : List Call) : List (ℕ × String) :=
  (failures calls).take ((failures calls).length - recentErrorsCapacity)

def Finished (calls : List Call) (epoch : ℕ) : Prop :=
  ∃ result, Call.finishFlush epoch result ∈ calls

/-- The epoch was finished, with `Ok` and not with an error. -/
def FinishedOk (calls : List Call) (epoch : ℕ) : Prop :=
  Call.finishFlush epoch (.ok ()) ∈ calls ∧
    ∀ message, Call.finishFlush epoch (.error message) ∉ calls

variable {g : GroupCommit} {capacity epoch e : ℕ} {calls : List Call}

lemma mem_failures {message : String} :
    (e, message) ∈ failures calls ↔ Call.finishFlush e (.error message) ∈ calls := by
  refine mem_filterMap.trans ⟨?_, fun h => ⟨_, h, rfl⟩⟩
  rintro ⟨c, hc, hfailure⟩
  unfold Call.failure at hfailure
  split at hfailure <;> cases hfailure
  exact hc

lemma failures_append (c : Call) :
    failures (calls ++ [c]) = failures calls ++ c.failure.toList := by
  rw [failures, filterMap_append]
  cases hc : c.failure <;> simp [failures, hc]

lemma finishedOk_iff :
    FinishedOk calls e ↔ Finished calls e ∧ ∀ message, (e, message) ∉ failures calls := by
  simp only [mem_failures]
  refine and_congr_left fun hnot => ⟨fun h => ⟨_, h⟩, ?_⟩
  rintro ⟨_ | u, h⟩
  · exact absurd h (hnot _)
  · exact h

lemma evict_append (es : List (ℕ × String)) (x : ℕ × String) (oldest : ℕ) :
    evict capacity ((evict capacity es oldest).1 ++ [x]) (evict capacity es oldest).2 =
      evict capacity (es ++ [x]) oldest := by
  induction es generalizing oldest with
  | nil => rfl
  | cons y ys ih =>
    by_cases hcap : capacity < (y :: ys).length
    · have hcap' : capacity < (y :: (ys ++ [x])).length := by
        simp only [length_cons, length_append] at hcap ⊢
        omega
      rw [cons_append, evict, if_pos hcap, ih, evict, if_pos hcap']
    · rw [evict, if_neg hcap]

/-- One past the epoch of the last failure. -/
def boundary (oldest : ℕ) (es : List (ℕ × String)) : ℕ := es.getLast?.elim oldest (·.1 + 1)

lemma evict_eq (es : List (ℕ × String)) (oldest : ℕ) : evict capacity es oldest =
      (es.drop (es.length - capacity), boundary oldest (es.take (es.length - capacity))) := by
  induction es generalizing oldest with
  | nil => simp [evict, boundary]
  | cons x xs ih =>
    unfold evict
    split_ifs with hcap
    · rw [length_cons] at hcap
      have hlength : xs.length + 1 - capacity = xs.length - capacity + 1 := by omega
      rw [ih, length_cons, hlength, drop_succ_cons, take_succ_cons, boundary,
        boundary, List.getLast?_cons]
      cases (xs.take (xs.length - capacity)).getLast? <;> rfl
    · rw [Nat.sub_eq_zero_of_le (not_lt.mp hcap)]
      rfl

lemma boundary_le_iff {es : List (ℕ × String)} (hordered : es.Pairwise fun a b => a.1 ≤ b.1) :
    boundary 0 es ≤ epoch ↔ ∀ e ∈ es, e.1 < epoch := by
  rcases es.eq_nil_or_concat' with rfl | ⟨front, last, rfl⟩
  · simp [boundary]
  · have hlast : ∀ e ∈ front, e.1 ≤ last.1 := fun e he =>
      (pairwise_append.mp hordered).2.2 e he last (mem_singleton_self _)
    have hboundary : boundary 0 (front ++ [last]) = last.1 + 1 := by simp [boundary]
    rw [hboundary]
    refine ⟨fun h e he => ?_, fun h => h last (by simp)⟩
    rcases mem_append.mp he with he | he
    · exact (hlast e he).trans_lt h
    · exact mem_singleton.mp he ▸ h

/-- The state says which calls have been made. -/
structure Reflects (capacity : ℕ) (calls : List Call) (g : GroupCommit) : Prop where
  capacity_eq : g.recentErrorsCapacity = capacity
  history : (g.recentErrors, g.oldestErrorEpoch) = evict capacity (failures calls) 0
  unfinished : ∀ e, 1 ≤ e → (g.Unfinished e ↔ ¬ Finished calls e)
  /-- the watermark stands before an epoch that is not finished -/
  stops : g.flushedEpoch + 1 ∉ g.completedEpochs

lemma reflects_new (capacity : ℕ) : Reflects capacity [] (new capacity) where
  capacity_eq := rfl
  history := rfl
  unfinished e he := by simpa [Unfinished, Finished, new] using Nat.pos_of_ne_zero (by omega)
  stops := Finset.notMem_empty _

lemma advance_stops (turns : ℕ) (completed : Finset ℕ) (flushed : ℕ)
    (hturns : completed.card ≤ turns) :
    (advance turns completed flushed).2 + 1 ∉ (advance turns completed flushed).1 := by
  induction turns generalizing completed flushed with
  | zero =>
    rw [Finset.card_eq_zero.mp (Nat.le_zero.mp hturns)]
    exact Finset.notMem_empty _
  | succ turns ih =>
    unfold advance
    split_ifs with hmem
    · apply ih
      rw [Finset.card_erase_of_mem hmem]
      omega
    · exact hmem

lemma recordError_history (g : GroupCommit) (epoch : ℕ) (result : Except String Unit)
    (hhistory : (g.recentErrors, g.oldestErrorEpoch) =
      evict g.recentErrorsCapacity (failures calls) 0) :
    ((g.recordError epoch result).recentErrors, (g.recordError epoch result).oldestErrorEpoch) =
      evict g.recentErrorsCapacity (failures (calls ++ [Call.finishFlush epoch result])) 0 := by
  rw [failures_append]
  cases result with
  | ok u => exact hhistory.trans (by simp [Call.failure])
  | error message =>
    obtain ⟨h1, h2⟩ := Prod.mk.inj hhistory
    change evict g.recentErrorsCapacity (g.recentErrors ++ [(epoch, message)]) _ = _
    rw [h1, h2]
    exact evict_append _ _ _

lemma Reflects.call (h : Reflects capacity calls g) (c : Call) :
    Reflects capacity (calls ++ [c]) (g.call c) := by
  cases c with
  | registerTransaction | startFlush =>
    refine ⟨h.capacity_eq, ?_, ?_, h.stops⟩
    · rw [failures_append]
      exact h.history.trans (by simp [Call.failure])
    · intro e he
      exact (h.unfinished e he).trans (by simp [Finished])
  | finishFlush epoch result =>
    refine ⟨?_, ?_, ?_, advance_stops _ _ _ le_rfl⟩
    · rw [← h.capacity_eq]
      cases result <;> rfl
    · obtain ⟨rfl, hhistory, -, -⟩ := h
      exact recordError_history g epoch result hhistory
    · intro e he
      have hfinished : Finished (calls ++ [Call.finishFlush epoch result]) e ↔
          Finished calls e ∨ e = epoch := by
        simp [Finished, exists_or]
      exact unfinished_finishFlush.trans (by rw [h.unfinished e he, hfinished]; tauto)

/-- **After every sequence of calls.** -/
theorem reflects_afterCalls (capacity : ℕ) (calls : List Call) :
    Reflects capacity calls (afterCalls capacity calls) := by
  induction calls using List.reverseRecOn with
  | nil => exact reflects_new capacity
  | append_singleton calls c ih =>
    rw [afterCalls, foldl_append]
    exact ih.call c

lemma Reflects.le_flushedEpoch_iff (h : Reflects capacity calls g) :
    epoch ≤ g.flushedEpoch ↔ ∀ e, 1 ≤ e → e ≤ epoch → Finished calls e := by
  constructor
  · intro hle e he hepoch
    by_contra hnot
    have := ((h.unfinished e he).mpr hnot).1
    omega
  · intro hall
    by_contra hlt
    have hnext := hall (g.flushedEpoch + 1) (by omega) (by omega)
    exact (h.unfinished _ (by omega)).not_left.mpr hnext ⟨Nat.lt_succ_self _, h.stops⟩

lemma Reflects.failed_iff (h : Reflects capacity calls g)
    (hordered : (evicted capacity calls).Pairwise fun a b => a.1 ≤ b.1) : ¬ g.Failed epoch ↔
      (∀ message, (epoch, message) ∉ failures calls) ∧
        ∀ e ∈ evicted capacity calls, e.1 < epoch := by
  obtain ⟨hrecent, holdest⟩ := Prod.mk.inj (h.history.trans (evict_eq _ _))
  unfold Failed
  rw [hrecent, holdest, not_or, not_exists, not_lt, ← evicted, boundary_le_iff hordered]
  refine and_congr_left fun hlt => forall_congr' fun message => not_congr ⟨mem_of_mem_drop, ?_⟩
  intro hmem
  rw [← take_append_drop ((failures calls).length - capacity) (failures calls)] at hmem
  exact (mem_append.mp hmem).resolve_left fun htake => lt_irrefl _ (hlt _ htake)

/-- As long as the failures leave the history in the order of their epochs, a wait reports `Ok` when
every epoch up to its own is finished, its own with `Ok`, and no failure that has left the history
is of its own epoch or of a later one. -/
theorem waitForFlush_ok_iff (hepoch : 1 ≤ epoch)
    (hordered : (evicted capacity calls).Pairwise fun a b => a.1 ≤ b.1) :
    (afterCalls capacity calls).waitForFlush epoch = .ok () ↔
      (∀ e, 1 ≤ e → e ≤ epoch → Finished calls e) ∧ FinishedOk calls epoch ∧
        ∀ e ∈ evicted capacity calls, e.1 < epoch := by
  have h := reflects_afterCalls capacity calls
  rw [waitForFlush_eq_ok, h.le_flushedEpoch_iff, h.failed_iff hordered, finishedOk_iff, and_assoc]
  exact and_congr_right fun hall => (and_iff_right (hall epoch hepoch le_rfl)).symm

/-- Epoch `2` waits on three finished epochs after the failure of `1` has left a history of one. -/
theorem waitForFlush_two_ok :
    let calls : List Call :=
      [.finishFlush 1 (.error "a"), .finishFlush 3 (.error "b"), .finishFlush 2 (.ok ())]
    (afterCalls 1 calls).waitForFlush 2 = .ok () :=
  (waitForFlush_ok_iff (by decide) (by decide)).mpr
    ⟨fun e h1 h2 => by
        obtain rfl | rfl : e = 1 ∨ e = 2 := by omega
        · exact ⟨_, mem_cons_self⟩
        · exact ⟨.ok (), by simp⟩,
      ⟨by simp, by simp⟩, by decide⟩

/-- Epoch `1` is finished with `Ok`, but a later failure has left the history; and where failures
leave it out of order, the wait of a failed epoch reports `Ok`. -/
theorem not_waitForFlush_exact :
    let started : List Call := [.startFlush, .startFlush, .startFlush]
    (afterCalls 1 (started ++ [Call.finishFlush 1 (.ok ()), .finishFlush 2 (.error "a"),
        .finishFlush 3 (.error "b")])).waitForFlush 1 = .error (.statusUnknown 1 3) ∧
      (afterCalls 1 (started ++ [Call.finishFlush 3 (.error "a"), .finishFlush 1 (.error "b"),
        .finishFlush 2 (.error "c")])).waitForFlush 3 = .ok () := by
  decide

end Aletheia.GroupCommit
