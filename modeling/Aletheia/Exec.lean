import Mathlib.Tactic.Common

/-!
# Fallible computations over a state

`EStateM ε σ` keeps the state that was reached when a computation fails, which is what a mutable
store without rollback does. These are the rules for running such computations: what a successful
sequence says about its parts, and how a computation on one component acts on the whole state.
-/

namespace Aletheia.Exec

open List

variable {ε σ τ υ α β : Type} {set : σ → τ → σ} {y : EStateM ε τ α} {l : List α} {u : Unit}

/-- Run a pure fallible update; a failed update leaves the state as it was. -/
def modifyE (f : σ → Except ε σ) : EStateM ε σ Unit := fun s =>
  match f s with
  | .ok s' => .ok () s'
  | .error e => .error e s

/-- A check that reads the state and changes nothing. -/
def readE (f : σ → Except ε α) : EStateM ε σ α := fun s =>
  match f s with
  | .ok a => .ok a s
  | .error e => .error e s

/-- Run a computation on the component that `get` and `set` focus on. -/
def zoom (get : σ → τ) (set : σ → τ → σ) (x : EStateM ε τ α) : EStateM ε σ α := fun s =>
  match x.run (get s) with
  | .ok a t => .ok a (set s t)
  | .error e t => .error e (set s t)

def onlyIf (c : Bool) (x : EStateM ε σ Unit) : EStateM ε σ Unit := if c then x else pure ()

/-- Do `f` for every element, in order. -/
def each (f : α → EStateM ε σ Unit) : List α → EStateM ε σ Unit
  | [] => pure ()
  | a :: rest => do
    f a
    each f rest

variable {x : EStateM ε σ α} {f : α → EStateM ε σ β} {s s' s₁ : σ} {a : α} {b : β} {e : ε}

lemma run_bind_eq_ok :
    (x >>= f).run s = .ok b s' ↔ ∃ a s₁, x.run s = .ok a s₁ ∧ (f a).run s₁ = .ok b s' := by
  simp only [EStateM.run, bind, EStateM.bind]
  cases x s <;> simp

lemma run_bind_of_ok (h : x.run s = .ok a s₁) : (x >>= f).run s = (f a).run s₁ := by
  simp only [EStateM.run] at h
  simp only [EStateM.run, bind, EStateM.bind, h]

lemma run_bind_ok (h : x.run s = .ok a s₁) (h' : (f a).run s₁ = .ok b s') :
    (x >>= f).run s = .ok b s' := by
  rw [run_bind_of_ok h, h']

lemma run_bind_of_error (h : x.run s = .error e s₁) : (x >>= f).run s = .error e s₁ := by
  simp only [EStateM.run] at h
  simp only [EStateM.run, bind, EStateM.bind, h]

@[simp] lemma run_pure : (pure a : EStateM ε σ α).run s = .ok a s := rfl

@[simp] lemma run_get : (get : EStateM ε σ σ).run s = .ok s s := rfl

variable {g : α → EStateM ε σ Unit}

lemma run_each_singleton : (each g [a]).run s = (g a).run s := by
  simp only [each, EStateM.run, bind, EStateM.bind]
  cases g a s <;> rfl

lemma each_map {γ : Type} {h : γ → α} (l : List γ) :
    each g (l.map h) = each (fun c => g (h c)) l := by
  induction l with
  | nil => rfl
  | cons c l ih => simp only [map_cons, each, ih]

lemma run_each_append {l l' : List α} {u u' : Unit} {s₂ : σ} (h : (each g l).run s = .ok u s₁)
    (h' : (each g l').run s₁ = .ok u' s₂) : (each g (l ++ l')).run s = .ok u' s₂ := by
  induction l generalizing s with
  | nil =>
    cases h
    exact h'
  | cons a l ih =>
    obtain ⟨_, s₃, hhead, hrest⟩ := run_bind_eq_ok.mp h
    exact run_bind_ok hhead (ih hrest)

lemma of_run_each_append {l l' : List α} {s₂ : σ} (h : (each g (l ++ l')).run s = .ok u s₂) :
    ∃ s₁, (each g l).run s = .ok () s₁ ∧ (each g l').run s₁ = .ok u s₂ := by
  induction l generalizing s with
  | nil => exact ⟨s, rfl, h⟩
  | cons a l ih =>
    obtain ⟨_, s₃, hhead, hrest⟩ := run_bind_eq_ok.mp h
    obtain ⟨s₁, hl, hl'⟩ := ih hrest
    exact ⟨s₁, run_bind_ok hhead hl, hl'⟩

lemma run_modifyE {g : σ → Except ε σ} (h : g s = .ok s') : (modifyE g).run s = .ok () s' := by
  simp only [EStateM.run, modifyE, h]

lemma run_modifyE_of_error {g : σ → Except ε σ} (h : g s = .error e) :
    (modifyE g).run s = .error e s := by
  simp only [EStateM.run, modifyE, h]

lemma run_readE {g : σ → Except ε α} (h : g s = .ok a) : (readE g).run s = .ok a s := by
  simp only [EStateM.run, readE, h]

lemma run_modifyE_eq_ok {g : σ → Except ε σ} : (modifyE g).run s = .ok u s' ↔ g s = .ok s' := by
  simp only [EStateM.run, modifyE]
  cases g s <;> simp

lemma run_readE_eq_ok {g : σ → Except ε α} : (readE g).run s = .ok a s' ↔ g s = .ok a ∧ s' = s := by
  simp only [EStateM.run, readE]
  cases g s <;> simp [eq_comm]

lemma run_zoom_of_ok {get : σ → τ} {t : τ} (h : y.run (get s) = .ok a t) :
    (zoom get set y).run s = .ok a (set s t) := by
  simp only [EStateM.run] at h
  simp only [EStateM.run, zoom, h]

lemma run_zoom_of_error {get : σ → τ} {t : τ} (h : y.run (get s) = .error e t) :
    (zoom get set y).run s = .error e (set s t) := by
  simp only [EStateM.run] at h
  simp only [EStateM.run, zoom, h]

lemma run_zoom_eq_ok {get : σ → τ} :
    (zoom get set y).run s = .ok a s' ↔ ∃ t, y.run (get s) = .ok a t ∧ s' = set s t := by
  simp only [EStateM.run, zoom]
  cases y (get s) <;> simp [eq_comm]

variable {g : α → Except ε β}

lemma except_bind_eq_ok {y : Except ε α} : y >>= g = .ok b ↔ ∃ a, y = .ok a ∧ g a = .ok b := by
  cases y <;> simp [bind, Except.bind]

lemma except_mapError_eq_ok {ε' : Type} {f : ε → ε'} {y : Except ε α} :
    y.mapError f = .ok a ↔ y = .ok a := by
  cases y <;> simp [Except.mapError]

lemma of_forM_eq_ok {g : α → Except ε Unit} (h : l.forM g = .ok u) {a : α} (ha : a ∈ l) :
    g a = .ok () := by
  induction l with
  | nil => cases ha
  | cons b l ih =>
    simp only [List.forM, bind, Except.bind] at h
    rcases hb : g b with e | ⟨⟩
    · rw [hb] at h
      cases h
    · rw [hb] at h
      rcases mem_cons.mp ha with rfl | ha
      · exact hb
      · exact ih h ha

lemma forall₂_of_mapM_eq_ok {l' : List β} (h : l.mapM g = .ok l') :
    List.Forall₂ (fun a b => g a = .ok b) l l' := by
  induction l generalizing l' with
  | nil =>
    cases h
    exact .nil
  | cons a l ih =>
    rw [mapM_cons] at h
    obtain ⟨b, hb, h⟩ := except_bind_eq_ok.mp h
    obtain ⟨bs, hbs, h⟩ := except_bind_eq_ok.mp h
    cases h
    exact .cons hb (ih hbs)

lemma mem_of_mapM_eq_error {e : ε} (h : l.mapM g = .error e) : ∃ a ∈ l, g a = .error e := by
  induction l with
  | nil => cases h
  | cons a l ih =>
    rw [mapM_cons] at h
    rcases ha : g a with e' | b
    · rw [ha] at h
      exact ⟨a, by simp, by rw [ha, Except.error.inj h]⟩
    · rcases hl : l.mapM g with e' | bs
      · rw [ha, hl] at h
        obtain ⟨x, hx, he⟩ := ih (hl.trans (congrArg _ (Except.error.inj h)))
        exact ⟨x, mem_cons_of_mem _ hx, he⟩
      · rw [ha, hl] at h
        cases h

lemma exists_mapM_eq_ok (h : ∀ a ∈ l, ∃ b, g a = .ok b) : ∃ l', l.mapM g = .ok l' := by
  induction l with
  | nil => exact ⟨[], rfl⟩
  | cons a l ih =>
    obtain ⟨⟨b, hb⟩, h⟩ := forall_mem_cons.mp h
    obtain ⟨bs, hbs⟩ := ih h
    refine ⟨b :: bs, ?_⟩
    rw [mapM_cons, hb, hbs]
    rfl

/-! ### Whatever the outcome -/

/-- The state that a computation leaves, whether it succeeds or fails. -/
def after (x : EStateM ε σ α) (s : σ) : σ :=
  match x.run s with
  | .ok _ s' => s'
  | .error _ s' => s'

lemma after_of_ok (h : x.run s = .ok a s') : after x s = s' := by simp only [after, h]

lemma after_of_error (h : x.run s = .error e s') : after x s = s' := by simp only [after, h]

/-- The computation leaves the component alone, in every outcome. -/
def Keeps (g : σ → τ) (x : EStateM ε σ α) : Prop := ∀ s, g (after x s) = g s

section Keeps

variable {g : σ → τ}

lemma keeps_pure : Keeps g (pure a : EStateM ε σ α) := fun _ => rfl

lemma Keeps.bind (hx : Keeps g x) (hf : ∀ a, Keeps g (f a)) : Keeps g (x >>= f) := by
  intro s
  rcases hrun : x.run s with ⟨a, s₁⟩ | ⟨e, s₁⟩
  · rw [after, run_bind_of_ok hrun, ← after, hf a s₁, ← hx s, after_of_ok hrun]
  · rw [after_of_error (run_bind_of_error hrun), ← hx s, after_of_error hrun]

lemma keeps_readE {h : σ → Except ε α} : Keeps g (readE h) := by
  intro s
  simp only [after, EStateM.run, readE]
  cases h s <;> rfl

lemma keeps_zoom (get : σ → υ) (set : σ → υ → σ) (y : EStateM ε υ α)
    (h : ∀ s u, g (set s u) = g s) : Keeps g (zoom get set y) := by
  intro s
  simp only [after, EStateM.run, zoom]
  cases y (get s) <;> exact h s _

lemma keeps_each {k : α → EStateM ε σ Unit} (h : ∀ a, Keeps g (k a)) :
    ∀ l, Keeps g (each k l)
  | [] => keeps_pure
  | a :: l => (h a).bind fun _ => keeps_each h l

end Keeps

/-! ### Triples -/

/-- From a state with `P` the computation returns with `Q`, or it fails in a state with `E`. -/
def Triple (P : σ → Prop) (x : EStateM ε σ α) (Q : α → σ → Prop) (E : σ → Prop) : Prop :=
  ∀ s, P s →
    match x.run s with
    | .ok a s' => Q a s'
    | .error _ s' => E s'

section Triple

variable {P P' E E' : σ → Prop} {Q Q' : α → σ → Prop} {R : β → σ → Prop}

variable (h : Triple P x Q E)

include h

lemma Triple.of_ok (hp : P s) (hrun : x.run s = .ok a s') : Q a s' := by
  have := h s hp
  rwa [hrun] at this

lemma Triple.of_error (hp : P s) (hrun : x.run s = .error e s') : E s' := by
  have := h s hp
  rwa [hrun] at this

lemma Triple.weaken (hq : ∀ a s, Q a s → Q' a s) (he : ∀ s, E s → E' s) : Triple P x Q' E' := by
  intro s hs
  have := h s hs
  cases hrun : x.run s with
  | ok a s' =>
    rw [hrun] at this
    exact hq a s' this
  | error e s' =>
    rw [hrun] at this
    exact he s' this

lemma Triple.imp (hp : ∀ s, P' s → P s) (hq : ∀ a s, Q a s → Q' a s) : Triple P' x Q' E :=
  fun s hs => h.weaken hq (fun _ he => he) s (hp s hs)

lemma Triple.pre (hp : ∀ s, P' s → P s) : Triple P' x Q E :=
  h.imp hp fun _ _ hq => hq

omit h

/-- **Sequencing.** -/
lemma Triple.bind (hx : Triple P x Q E) (hf : ∀ a, Triple (Q a) (f a) R E) :
    Triple P (x >>= f) R E := by
  intro s hs
  cases hrun : x.run s with
  | ok a s' =>
    rw [run_bind_of_ok hrun]
    exact hf a s' (hx.of_ok hs hrun)
  | error e s' =>
    rw [run_bind_of_error hrun]
    exact hx.of_error hs hrun

lemma triple_get_bind {g : σ → EStateM ε σ β} (h : ∀ s₀, P s₀ → Triple (· = s₀) (g s₀) R E) :
    Triple P (get >>= g) R E := by
  intro s hs
  rw [run_bind_of_ok run_get]
  exact h s hs s rfl

lemma Triple.at_state (h : Triple P x Q E) {s₀ : σ} (hs : P s₀) : Triple (· = s₀) x Q E :=
  h.pre fun _ heq => heq ▸ hs

lemma triple_pure (h : ∀ s, P s → Q a s) : Triple P (pure a : EStateM ε σ α) Q E := h

lemma triple_throw (h : ∀ s, P s → E s) : Triple P (throw e : EStateM ε σ α) Q E := h

lemma triple_modify {g : σ → σ} (h : ∀ s, P s → P' (g s)) :
    Triple P (modify g : EStateM ε σ Unit) (fun _ => P') E := h

lemma triple_readE {g : σ → Except ε α} (h : ∀ s a, P s → g s = .ok a → Q a s)
    (he : ∀ s, P s → E s) : Triple P (readE g) Q E := by
  intro s hs
  simp only [EStateM.run, readE]
  cases hg : g s with
  | ok a => exact h s a hs hg
  | error e => exact he s hs

lemma triple_onlyIf {c : Bool} {y : EStateM ε σ Unit}
    (h : c = true → Triple P y (fun _ => P) E) : Triple P (onlyIf c y) (fun _ => P) E := by
  cases c with
  | true => exact h rfl
  | false => exact triple_pure fun _ hs => hs

end Triple

end Aletheia.Exec
