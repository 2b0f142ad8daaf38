import Mathlib.Data.List.Induction
import Mathlib.Data.Set.Function

/-!
# Hash chains

Digests folded one after another onto the digest of a first input. A hash function that has no
collision among the inputs of two chains gives them different digests, unless the chains are equal.
-/

namespace Aletheia.HashChain

open List

variable {I D : Type*} (sha : I → D) (step : D → D → I)

/-- The links folded onto `start`. -/
def digest (start : D) (links : List D) : D := links.foldl (fun acc d => sha (step acc d)) start

def inputs (start : D) (links : List D) : Set I :=
  { x | ∃ before d after, links = before ++ d :: after ∧ x = step (digest sha step start before) d }

variable {sha step} {start d : D} {l m : List D}

lemma digest_snoc : digest sha step start (l ++ [d]) = sha (step (digest sha step start l) d) := by
  simp [digest]

lemma inputs_append : inputs sha step start l ⊆ inputs sha step start (l ++ m) := by
  rintro x ⟨before, d, after, rfl, rfl⟩
  exact ⟨before, d, after ++ m, by simp, rfl⟩

lemma step_mem_inputs : step (digest sha step start l) d ∈ inputs sha step start (l ++ [d]) :=
  ⟨l, d, [], rfl, rfl⟩

/-- The chains are compared from their ends, and the shorter one cannot run out first, since a first
input is not that of a step. -/
theorem eq_of_digest_eq {s s' : I} (hstep : ∀ a b c d, step a b = step c d → a = c ∧ b = d)
    (hs : ∀ a b, step a b ≠ s) (hs' : ∀ a b, step a b ≠ s')
    (hinj : Set.InjOn sha ({s, s'} ∪ (inputs sha step (sha s) l ∪ inputs sha step (sha s') m)))
    (h : digest sha step (sha s) l = digest sha step (sha s') m) : s = s' ∧ l = m := by
  induction l using List.reverseRecOn generalizing m with
  | nil =>
    induction m using List.reverseRecOn with
    | nil => exact ⟨hinj (by simp) (by simp) h, rfl⟩
    | append_singleton m d _ =>
      rw [digest_snoc] at h
      have heq := hinj (by simp) (.inr (.inr step_mem_inputs)) h
      exact absurd heq.symm (hs _ _)
  | append_singleton l d ih =>
    induction m using List.reverseRecOn with
    | nil =>
      rw [digest_snoc] at h
      have heq := hinj (.inr (.inl step_mem_inputs)) (by simp) h
      exact absurd heq (hs' _ _)
    | append_singleton m d' _ =>
      rw [digest_snoc, digest_snoc] at h
      have heq := hinj (.inr (.inl step_mem_inputs)) (.inr (.inr step_mem_inputs)) h
      obtain ⟨hbefore, rfl⟩ := hstep _ _ _ _ heq
      have hl : inputs sha step (sha s) l ⊆ inputs sha step (sha s) (l ++ [d]) := inputs_append
      have hm : inputs sha step (sha s') m ⊆ inputs sha step (sha s') (m ++ [d]) := inputs_append
      have hsub := Set.union_subset_union_right {s, s'} (Set.union_subset_union hl hm)
      obtain ⟨hstart, rfl⟩ := ih (hinj.mono hsub) hbefore
      exact ⟨hstart, rfl⟩

lemma map_eq_of_injOn {α : Type*} {f : α → I} {inputs : Set I} (hinj : Set.InjOn sha inputs)
    {l m : List α} (hl : ∀ a ∈ l, f a ∈ inputs) (hm : ∀ a ∈ m, f a ∈ inputs)
    (h : l.map (fun a => sha (f a)) = m.map fun a => sha (f a)) : l.map f = m.map f := by
  induction l generalizing m with
  | nil =>
    rw [map_nil, nil_eq, map_eq_nil_iff] at h
    rw [h]
  | cons a l ih =>
    obtain ⟨b, m, rfl, hab, hrest⟩ := map_eq_cons_iff.mp h.symm
    obtain ⟨ha, hl⟩ := forall_mem_cons.mp hl
    obtain ⟨hb, hm⟩ := forall_mem_cons.mp hm
    rw [map_cons, map_cons, hinj ha hb hab.symm, ih hl hm hrest.symm]

end Aletheia.HashChain
