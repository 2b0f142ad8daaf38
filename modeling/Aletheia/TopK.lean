import Mathlib.Data.Multiset.Sort

/-!
# The largest elements of a multiset

The largest elements of a sum are found among the largest of its parts.
-/

namespace Aletheia

open List

variable {β : Type} {k m n : ℕ}

lemma take_merge (le : β → β → Bool) (hm : k ≤ m) (hn : k ≤ n) (x y : List β) :
    ((x.take m).merge (y.take n) le).take k = (x.merge y le).take k := by
  induction k generalizing m n x y with
  | zero => rw [take_zero, take_zero]
  | succ k ih =>
    obtain ⟨m, rfl⟩ := Nat.exists_eq_succ_of_ne_zero (by omega : m ≠ 0)
    obtain ⟨n, rfl⟩ := Nat.exists_eq_succ_of_ne_zero (by omega : n ≠ 0)
    cases x with
    | nil => simp [take_take, hn]
    | cons a x =>
      cases y with
      | nil => simp [take_take, Nat.min_eq_left (Nat.le_of_succ_le_succ hm)]
      | cons b y =>
        simp only [take_succ_cons, cons_merge_cons]
        split
        · exact congrArg (a :: ·) (ih (Nat.le_of_succ_le_succ hm) (Nat.le_of_succ_le hn) x (b :: y))
        · exact congrArg (b :: ·) (ih (Nat.le_of_succ_le hm) (Nat.le_of_succ_le_succ hn) (a :: x) y)

variable [LinearOrder β]

/-- The `k` largest elements, the largest first. -/
def topK (k : ℕ) (s : Multiset β) : List β := (s.sort (· ≥ ·)).take k

/-- A sorted list is the sort of its elements. -/
lemma sort_eq_of_pairwise {l : List β} {s : Multiset β} (h : l.Pairwise (· ≥ ·)) (hl : ↑l = s) :
    s.sort (· ≥ ·) = l := by
  refine (Multiset.coe_eq_coe.mp ((s.sort_eq (· ≥ ·)).trans hl.symm)).eq_of_pairwise ?_
    (s.pairwise_sort (· ≥ ·)) h
  exact fun a b _ _ hab hba => le_antisymm hba hab

theorem topK_add (hk : k ≤ m) (s t : Multiset β) :
    topK k ↑(topK m s ++ topK m t) = topK k (s + t) := by
  have hmerge : ∀ x y : List β, x.Pairwise (· ≥ ·) → y.Pairwise (· ≥ ·) →
      (↑(x ++ y) : Multiset β).sort (· ≥ ·) = x.merge y (· ≥ ·) := fun x y hx hy =>
    sort_eq_of_pairwise (hx.merge hy) (Multiset.coe_eq_coe.mpr (merge_perm_append _))
  have hs := s.pairwise_sort (· ≥ ·)
  have ht := t.pairwise_sort (· ≥ ·)
  unfold topK
  rw [hmerge _ _ (hs.sublist (take_sublist _ _)) (ht.sublist (take_sublist _ _)),
    take_merge _ hk hk, ← hmerge _ _ hs ht, ← Multiset.coe_add, Multiset.sort_eq, Multiset.sort_eq]

end Aletheia
