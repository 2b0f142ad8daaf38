import Mathlib.Data.List.Forall2
import Mathlib.Algebra.Order.Ring.Nat

/-!
# Byte encodings that can be split off a text

An encoding splits when what follows it can be told from it: from two encodings followed by anything,
equal as texts, one gets back the encoded values and the two rests. Fixed-width numbers split, and so
do options, counted lists and whatever is put together from encodings that split.
-/

namespace Aletheia.ByteCode

open List

/-! ### Big-endian numbers -/

/-- The low `w` bytes of the number, the most significant one first. -/
def be : ℕ → ℕ → List UInt8
  | 0, _ => []
  | w + 1, n => UInt8.ofNat (n / 256 ^ w) :: be w n

@[simp] lemma length_be (w n : ℕ) : (be w n).length = w := by
  induction w with
  | zero => rfl
  | succ w ih => simp [be, ih]

lemma mod_eq_of_be_eq {w n m : ℕ} (h : be w n = be w m) : n % 256 ^ w = m % 256 ^ w := by
  induction w with
  | zero => simp [Nat.mod_one]
  | succ w ih =>
    obtain ⟨hhead, htail⟩ := List.cons.inj h
    have hbyte : n / 256 ^ w % 256 = m / 256 ^ w % 256 := by
      simpa using congrArg UInt8.toNat hhead
    rw [Nat.mod_pow_succ, Nat.mod_pow_succ, ih htail, hbyte]

lemma eq_of_be_eq {w n m : ℕ} (hn : n < 256 ^ w) (hm : m < 256 ^ w) (h : be w n = be w m) : n = m := by
  have hmod := mod_eq_of_be_eq h
  rwa [Nat.mod_eq_of_lt hn, Nat.mod_eq_of_lt hm] at hmod

/-! ### Little-endian numbers -/

/-- The low `w` bytes of the number, the least significant one first. -/
def le : ℕ → ℕ → List UInt8
  | 0, _ => []
  | w + 1, n => UInt8.ofNat n :: le w (n / 256)

/-- The number the bytes stand for. -/
def ofLe : List UInt8 → ℕ
  | [] => 0
  | b :: bs => b.toNat + 256 * ofLe bs

@[simp] lemma length_le (w n : ℕ) : (le w n).length = w := by
  induction w generalizing n with
  | zero => rfl
  | succ w ih => simp [le, ih]

lemma ofLe_le {w n : ℕ} (h : n < 256 ^ w) : ofLe (le w n) = n := by
  induction w generalizing n with
  | zero =>
    have : n = 0 := by simpa using h
    simp [le, ofLe, this]
  | succ w ih =>
    have hdiv : n / 256 < 256 ^ w := Nat.div_lt_of_lt_mul (by rwa [← pow_succ'])
    have hbyte : (UInt8.ofNat n).toNat = n % 256 := by simp
    rw [le, ofLe, ih hdiv, hbyte]
    omega

/-! ### Splitting -/

variable {α β : Type}

/-- On the values with `P`, encodings of different values, up to `R`, are told apart and split off
whatever follows them. -/
def SplitsOn (P : α → Prop) (R : α → α → Prop) (enc : α → List UInt8) : Prop :=
  ∀ a b, P a → P b → ∀ x y, enc a ++ x = enc b ++ y → R a b ∧ x = y

/-- On all values. -/
def Splits (R : α → α → Prop) (enc : α → List UInt8) : Prop := SplitsOn (fun _ => True) R enc

variable {P : α → Prop} {R : α → α → Prop} {enc : α → List UInt8}

lemma Splits.split (h : Splits R enc) {a b : α} {x y : List UInt8} (heq : enc a ++ x = enc b ++ y) :
    R a b ∧ x = y :=
  h a b trivial trivial x y heq

lemma Splits.rel (h : Splits R enc) {a b : α} (heq : enc a = enc b) : R a b :=
  (h.split (x := []) (y := []) (by rw [heq])).1

lemma splitsOn_of_width (w : ℕ) (hwidth : ∀ a, P a → (enc a).length = w)
    (hinj : ∀ a b, P a → P b → enc a = enc b → R a b) : SplitsOn P R enc := by
  intro a b ha hb x y h
  obtain ⟨henc, hrest⟩ := append_inj h (by rw [hwidth a ha, hwidth b hb])
  exact ⟨hinj a b ha hb henc, hrest⟩

lemma splitsOn_be (w : ℕ) : SplitsOn (· < 256 ^ w) Eq (be w) :=
  splitsOn_of_width w (fun n _ => length_be w n) fun _ _ => eq_of_be_eq

lemma SplitsOn.comap {Q : β → Prop} {S : β → β → Prop} {f : β → α} (h : SplitsOn P R enc)
    (hP : ∀ b, Q b → P (f b)) (hR : ∀ b c, Q b → Q c → R (f b) (f c) → S b c) :
    SplitsOn Q S fun b => enc (f b) := by
  intro b c hb hc x y heq
  obtain ⟨hrel, hrest⟩ := h (f b) (f c) (hP b hb) (hP c hc) x y heq
  exact ⟨hR b c hb hc hrel, hrest⟩

/-! ### Options -/

/-- A presence byte before the value. -/
def opt (enc : α → List UInt8) : Option α → List UInt8
  | none => [0]
  | some a => 1 :: enc a

lemma Splits.opt (h : Splits R enc) : Splits (Option.Rel R) (opt enc) := by
  rintro (_ | a) (_ | b) - - x y heq
  · exact ⟨.none, List.cons.inj heq |>.2⟩
  · exact absurd (List.cons.inj heq).1 (by decide)
  · exact absurd (List.cons.inj heq).1 (by decide)
  · obtain ⟨hrel, hrest⟩ := h.split (List.cons.inj heq).2
    exact ⟨.some hrel, hrest⟩

lemma Splits.opt_eq (h : Splits Eq enc) : Splits Eq (ByteCode.opt enc) := by
  intro a b _ _ x y heq
  obtain ⟨hrel, hrest⟩ := h.opt.split heq
  refine ⟨?_, hrest⟩
  cases hrel with
  | none => rfl
  | some hab => rw [hab]

/-! ### Lists -/

lemma SplitsOn.flatMap (h : SplitsOn P R enc) : ∀ (l m : List α), l.length = m.length →
    (∀ a ∈ l, P a) → (∀ a ∈ m, P a) → ∀ x y, l.flatMap enc ++ x = m.flatMap enc ++ y →
      List.Forall₂ R l m ∧ x = y := by
  intro l
  induction l with
  | nil =>
    intro m hlength _ _ x y heq
    obtain rfl := length_eq_zero_iff.mp hlength.symm
    exact ⟨.nil, heq⟩
  | cons a l ih =>
    intro m hlength hl hm x y heq
    obtain ⟨b, m, rfl⟩ := exists_cons_of_length_eq_add_one hlength.symm
    simp only [flatMap_cons, append_assoc] at heq
    obtain ⟨hhead, heq⟩ := h a b (hl a (by simp)) (hm b (by simp)) _ _ heq
    obtain ⟨htail, hrest⟩ := ih m (by simpa using hlength)
      (fun c hc => hl c (mem_cons_of_mem _ hc)) (fun c hc => hm c (mem_cons_of_mem _ hc))
      x y heq
    exact ⟨.cons hhead htail, hrest⟩

/-- The number of elements, eight bytes, and the elements. -/
def counted (enc : α → List UInt8) (l : List α) : List UInt8 := be 8 l.length ++ l.flatMap enc

lemma SplitsOn.counted (h : SplitsOn P R enc) :
    SplitsOn (fun l => l.length < 256 ^ 8 ∧ ∀ a ∈ l, P a) (List.Forall₂ R) (counted enc) := by
  rintro l m ⟨hl, hPl⟩ ⟨hm, hPm⟩ x y heq
  simp only [ByteCode.counted, append_assoc] at heq
  obtain ⟨hlength, heq⟩ := splitsOn_be 8 _ _ hl hm _ _ heq
  exact h.flatMap l m hlength hPl hPm x y heq

end Aletheia.ByteCode
