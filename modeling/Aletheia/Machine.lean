import Mathlib.Data.List.Basic

/-!
# Runs of a machine

A machine takes actions one at a time; an action that is not enabled ends the run. An invariant that
every action keeps, in the states where it meets a side condition, holds after every run whose
actions all meet it.
-/

namespace Aletheia.Machine

variable {S A : Type} (step : S → A → Option S)

/-- Take the actions in order; `none` if one of them is not enabled. -/
def run : S → List A → Option S
  | s, [] => some s
  | s, a :: as => (step s a).bind fun s' => run s' as

/-- Every action of the run meets `P` in the state it is taken in. -/
def Along (P : S → A → Prop) : S → List A → Prop
  | _, [] => True
  | s, a :: as => P s a ∧
    match step s a with
    | some s' => Along P s' as
    | none => True

instance decidableAlong (P : S → A → Prop) [∀ s a, Decidable (P s a)] :
    (s : S) → (as : List A) → Decidable (Along step P s as)
  | _, [] => isTrue trivial
  | s, a :: as =>
    have : Decidable (match step s a with
        | some s' => Along step P s' as
        | none => True) :=
      match step s a with
      | some s' => decidableAlong P s' as
      | none => isTrue trivial
    inferInstanceAs (Decidable (P s a ∧ _))

variable {step} {P : S → A → Prop} {s s' : S} {as : List A}

lemma run_cons {a : A} (h : run step s (a :: as) = some s') :
    ∃ s₁, step s a = some s₁ ∧ run step s₁ as = some s' :=
  Option.bind_eq_some_iff.mp h

lemma run_append {bs : List A} (h : run step s (as ++ bs) = some s') :
    ∃ s₁, run step s as = some s₁ ∧ run step s₁ bs = some s' := by
  induction as generalizing s with
  | nil => exact ⟨s, rfl, h⟩
  | cons a as ih =>
    obtain ⟨s₁, hstep, hrest⟩ := run_cons h
    obtain ⟨s₂, hrun, hrun'⟩ := ih hrest
    exact ⟨s₂, by rw [run, hstep]; exact hrun, hrun'⟩

lemma Along.append {bs : List A} (h : Along step P s (as ++ bs)) (hrun : run step s as = some s') :
    Along step P s as ∧ Along step P s' bs := by
  induction as generalizing s with
  | nil =>
    cases hrun
    exact ⟨trivial, h⟩
  | cons a as ih =>
    obtain ⟨s₁, hstep, hrest⟩ := run_cons hrun
    obtain ⟨hp, h⟩ := h
    simp only [hstep] at h
    obtain ⟨h1, h2⟩ := ih h hrest
    refine ⟨⟨hp, ?_⟩, h2⟩
    simpa only [hstep] using h1

variable {Inv : S → Prop}

/-- **The invariant rule.** -/
theorem invariant_run (hstep : ∀ s a s', Inv s → P s a → step s a = some s' → Inv s') (hinv : Inv s)
    (hP : Along step P s as) (hrun : run step s as = some s') : Inv s' := by
  induction as generalizing s with
  | nil =>
    cases hrun
    exact hinv
  | cons a as ih =>
    obtain ⟨s₁, hs₁, hrest⟩ := run_cons hrun
    obtain ⟨hp, h⟩ := hP
    simp only [hs₁] at h
    exact ih (hstep s a s₁ hinv hp hs₁) h hrest

lemma along_of_forall (h : ∀ s a, P s a) : Along step P s as := by
  induction as generalizing s with
  | nil => trivial
  | cons a as ih =>
    refine ⟨h s a, ?_⟩
    cases step s a with
    | none => trivial
    | some s₁ => exact ih

lemma Along.imp {Q : S → A → Prop} (hstep : ∀ s a s', Inv s → P s a → step s a = some s' → Inv s')
    (himp : ∀ s a, Inv s → P s a → Q s a) (hinv : Inv s) (hP : Along step P s as) :
    Along step Q s as := by
  induction as generalizing s with
  | nil => trivial
  | cons a as ih =>
    obtain ⟨hp, h⟩ := hP
    refine ⟨himp s a hinv hp, ?_⟩
    cases hs : step s a with
    | none => trivial
    | some s₁ =>
      simp only [hs] at h
      exact ih (hstep s a s₁ hinv hp hs) h

/-- **The simulation rule**: a map of states that commutes with the steps commutes with the runs. -/
theorem simulation_run {T : Type} {step' : T → A → Option T} {f : S → T}
    (hstep : ∀ s a s', Inv s → P s a → step s a = some s' → Inv s' ∧ step' (f s) a = some (f s'))
    (hinv : Inv s) (hP : Along step P s as) (hrun : run step s as = some s') :
    Inv s' ∧ run step' (f s) as = some (f s') := by
  induction as generalizing s with
  | nil =>
    cases hrun
    exact ⟨hinv, rfl⟩
  | cons a as ih =>
    obtain ⟨s₁, hs₁, hrest⟩ := run_cons hrun
    obtain ⟨hp, h⟩ := hP
    simp only [hs₁] at h
    obtain ⟨hinv₁, hf⟩ := hstep s a s₁ hinv hp hs₁
    obtain ⟨hinv', hrun'⟩ := ih hinv₁ h hrest
    refine ⟨hinv', ?_⟩
    rw [run, hf]
    exact hrun'

/-- A relation that every step establishes holds between the ends of a run. -/
theorem relation_run {R : S → S → Prop} (hrefl : ∀ s, R s s)
    (htrans : ∀ s₁ s₂ s₃, R s₁ s₂ → R s₂ s₃ → R s₁ s₃)
    (hstep : ∀ s a s', Inv s → P s a → step s a = some s' → Inv s' ∧ R s s') (hinv : Inv s)
    (hP : Along step P s as) (hrun : run step s as = some s') : R s s' := by
  induction as generalizing s with
  | nil =>
    obtain rfl := Option.some.inj hrun
    exact hrefl s
  | cons a as ih =>
    obtain ⟨s₁, hs₁, hrest⟩ := run_cons hrun
    obtain ⟨hp, h⟩ := hP
    simp only [hs₁] at h
    obtain ⟨hinv₁, hR⟩ := hstep s a s₁ hinv hp hs₁
    exact htrans s s₁ s' hR (ih hinv₁ h hrest)

end Aletheia.Machine
