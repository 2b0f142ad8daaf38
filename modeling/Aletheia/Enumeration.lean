import Mathlib.Data.List.Nodup

/-!
# Searches that list their results

A nested search runs through the candidates for its first choice, and for each of them through what
follows. `Enumerates S R out` says that it lists one result for each way `S` to choose, and none
twice. The rules build the enumeration of a search from those of its levels; `Meets` takes along the
errors that may end it.
-/

namespace Aletheia.Enumeration

open List

variable {ε α β τ σ : Type}

/-- The outcome is a value with `P` or an error that is allowed. -/
def Meets (allowed : ε → Prop) (P : α → Prop) : Except ε α → Prop
  | .ok a => P a
  | .error e => allowed e

section Meets

variable {allowed : ε → Prop} {P P' : α → Prop} {Q : β → Prop} {x : Except ε α}

lemma Meets.bind {f : α → Except ε β} (hx : Meets allowed P x)
    (hf : ∀ a, P a → Meets allowed Q (f a)) : Meets allowed Q (x >>= f) := by
  cases x with
  | ok a => exact hf a hx
  | error e => exact hx

lemma Meets.imp (hx : Meets allowed P x) (h : ∀ a, P a → P' a) : Meets allowed P' x := by
  cases x with
  | ok a => exact h a hx
  | error e => exact hx

end Meets

/-- The results for all candidates, one after the other. -/
def flatMapE (f : α → Except ε (List β)) : List α → Except ε (List β)
  | [] => .ok []
  | a :: as => do return (← f a) ++ (← flatMapE f as)

/-- The list has one `b` with `R t b` for each `t` with `S t`. -/
def Enumerates (S : τ → Prop) (R : τ → β → Prop) (out : List β) : Prop :=
  ∃ ts : List τ, ts.Nodup ∧ (∀ t, t ∈ ts ↔ S t) ∧ List.Forall₂ R ts out

namespace Enumerates

variable {S S' : τ → Prop} {R R' : τ → β → Prop} {out : List β}

lemma nil (h : ∀ t, ¬S t) : Enumerates S R [] :=
  ⟨[], nodup_nil, fun t => by simp [h t], .nil⟩

lemma singleton {b : β} (t₀ : τ) (h : ∀ t, S t ↔ t = t₀) (hR : R t₀ b) : Enumerates S R [b] :=
  ⟨[t₀], nodup_singleton _, fun t => by simp [h t], .cons hR .nil⟩

variable (h : Enumerates S R out)

include h

lemma map {S' : σ → Prop} {R' : σ → β → Prop} (g : τ → σ)
    (hg : ∀ t t', S t → S t' → g t = g t' → t = t') (hS : ∀ u, S' u ↔ ∃ t, S t ∧ g t = u)
    (hR : ∀ t b, S t → R t b → R' (g t) b) : Enumerates S' R' out := by
  obtain ⟨ts, hnodup, hmem, hforall⟩ := h
  refine ⟨ts.map g, ?_, fun u => ?_, ?_⟩
  · refine hnodup.map_on fun t ht t' ht' heq => ?_
    exact hg t t' ((hmem t).mp ht) ((hmem t').mp ht') heq
  · simp [hS, hmem]
  · rw [forall₂_map_left_iff]
    have hall : ∀ t ∈ ts, S t := fun t ht => (hmem t).mp ht
    clear hnodup hmem
    induction hforall with
    | nil => exact .nil
    | @cons t b ts out hb _ ih =>
      rw [forall_mem_cons] at hall
      exact .cons (hR t b hall.1 hb) (ih hall.2)

lemma congr (hS : ∀ t, S' t ↔ S t) (hR : ∀ t b, S t → R t b → R' t b) : Enumerates S' R' out :=
  h.map id (fun _ _ _ _ heq => heq) (fun u => by simp [hS]) hR

lemma append {out' : List β} (h' : Enumerates S' R out') (hdisj : ∀ t, S t → ¬S' t) :
    Enumerates (fun t => S t ∨ S' t) R (out ++ out') := by
  obtain ⟨ts, hnodup, hmem, hforall⟩ := h
  obtain ⟨ts', hnodup', hmem', hforall'⟩ := h'
  refine ⟨ts ++ ts', ?_, fun t => by simp [hmem, hmem'], rel_append hforall hforall'⟩
  rw [nodup_append]
  refine ⟨hnodup, hnodup', fun t ht t' ht' heq => ?_⟩
  exact hdisj t ((hmem t).mp ht) (heq ▸ (hmem' t').mp ht')

end Enumerates

/-- **A search of two levels.** Candidates that differ lead to choices that differ. -/
lemma meets_flatMapE {allowed : ε → Prop} {f : α → Except ε (List β)} {S : τ → Prop}
    {R : τ → α → Prop} {R' : σ → β → Prop} {as : List α} (S' : τ → σ → Prop) (h : Enumerates S R as)
    (hf : ∀ t a, S t → R t a → Meets allowed (Enumerates (S' t) R') (f a))
    (hdisj : ∀ t t' u, S t → S t' → S' t u → S' t' u → t = t') :
    Meets allowed (Enumerates (fun u => ∃ t, S t ∧ S' t u) R') (flatMapE f as) := by
  obtain ⟨ts, hnodup, hmem, hforall⟩ := h
  have hall : ∀ t ∈ ts, S t := fun t ht => (hmem t).mp ht
  have hlist : Meets allowed (Enumerates (fun u => ∃ t ∈ ts, S' t u) R') (flatMapE f as) := by
    clear hmem
    induction hforall with
    | nil => exact .nil (by simp)
    | @cons t a ts as hta _ ih =>
      rw [forall_mem_cons] at hall
      rw [nodup_cons] at hnodup
      refine (hf t a hall.1 hta).bind fun out hout => ?_
      refine (ih hnodup.2 hall.2).bind fun out' hout' => ?_
      refine (hout.append hout' fun u hu hu' => ?_).congr (fun u => by simp) fun _ _ _ hR => hR
      obtain ⟨t', ht', hu'⟩ := hu'
      exact hnodup.1 (hdisj t t' u hall.1 (hall.2 t' ht') hu hu' ▸ ht')
  exact hlist.imp fun out hout => hout.congr (fun u => by simp [hmem]) fun _ _ _ hR => hR

end Aletheia.Enumeration
