import Mathlib.Data.List.Basic
import Mathlib.Tactic.Ring

/-!
# Tumbling windows

`generate_windows` cuts a range into windows of one granularity step each; the last one is cut off
at the end of the range. Boundaries are microseconds in 64 bits. The arithmetic of the loop is
checked. That of the estimate before it is not: a range of `2 ^ 63` microseconds or more overflows,
and a range of exactly `MAX_WINDOWS` steps is refused.
-/

namespace Aletheia.TemporalWindow

open List Option

/-! ### The code -/

inductive WindowUnit where
  | minute
  | hour
  | day
  | week
  | month
  | quarter
  | year
deriving DecidableEq, Repr

def microsPerMinute : ℤ := 60 * 1000000

def microsPerHour : ℤ := 60 * microsPerMinute

def microsPerDay : ℤ := 24 * microsPerHour

def microsPerWeek : ℤ := 7 * microsPerDay

def maxWindows : ℕ := 100000

def WindowUnit.fixedMicros : WindowUnit → Option ℤ
  | .minute => some microsPerMinute
  | .hour => some microsPerHour
  | .day => some microsPerDay
  | .week => some microsPerWeek
  | _ => none

def WindowUnit.calendarMonths : WindowUnit → Option ℕ
  | .month => some 1
  | .quarter => some 3
  | .year => some 12
  | _ => none

structure WindowGranularity where
  count : ℕ
  unit : WindowUnit
deriving DecidableEq, Repr

structure Window where
  startMicros : ℤ
  endMicros : ℤ
deriving DecidableEq, Repr

inductive WindowError where
  | zeroCount
  | emptyRange
  | tooManyWindows (n : ℕ)
  | calendarOverflow
deriving DecidableEq, Repr

/-- The value of an operation on `i64`, if it does not overflow. -/
def checkedI64 (x : ℤ) : Option ℤ := if -2 ^ 63 ≤ x ∧ x < 2 ^ 63 then some x else none

/-- The value of an operation on `u32`, if it does not overflow. -/
def checkedU32 (n : ℕ) : Option ℕ := if n < 2 ^ 32 then some n else none

section Code

-- the addition of months to a timestamp, where the calendar has the result
variable (addMonths : ℤ → ℕ → Option ℤ)

/-- What a checked computation gives, or the error that `step` has for all of them. -/
def orOverflow {α : Type} (x : Option α) : Except WindowError α :=
  x.elim (.error .calendarOverflow) .ok

def step (boundary : ℤ) (gran : WindowGranularity) : Except WindowError ℤ :=
  match gran.unit.fixedMicros, gran.unit.calendarMonths with
  | some delta, _ =>
    orOverflow ((checkedI64 (delta * gran.count)).bind fun d => checkedI64 (boundary + d))
  | none, some months =>
    orOverflow ((checkedU32 (months * gran.count)).bind fun total => addMonths boundary total)
  -- no such unit
  | none, none => .error .calendarOverflow

/-- The loop of `generate_windows`, at the boundary `b` with the windows so far. -/
def windowsFrom (stop : ℤ) (gran : WindowGranularity) (b : ℤ) (windows : List Window) :
    Except WindowError (List Window) :=
  if b < stop then
    match step addMonths b gran with
    | .error e => .error e
    | .ok next =>
      if next ≤ b then .error .calendarOverflow
      else
        let windows := windows ++ [⟨b, min next stop⟩]
        if maxWindows < windows.length then .error (.tooManyWindows windows.length)
        else windowsFrom stop gran next windows
  else .ok windows
termination_by (stop - b).toNat
decreasing_by omega

/-- `none` if the subtraction of the estimate overflows, which is done in 64 bits. -/
def generateWindows (start stop : ℤ) (gran : WindowGranularity) :
    Option (Except WindowError (List Window)) :=
  if gran.count = 0 then some (.error .zeroCount)
  else if stop ≤ start then some (.error .emptyRange)
  else
    match gran.unit.fixedMicros with
    | some delta => do
      let span ← checkedI64 (stop - start)
      let approx := span / (delta * gran.count) + 1
      if maxWindows < approx then some (.error (.tooManyWindows approx.toNat))
      else some (windowsFrom addMonths stop gran start [])
    | none => some (windowsFrom addMonths stop gran start [])

end Code

/-! ### The contract -/

section Contract

variable (addMonths : ℤ → ℕ → Option ℤ) (stop : ℤ) (gran : WindowGranularity)

/-- Non-empty windows from `a` to `stop`, each but the last one step long. -/
def Tiles (a : ℤ) : List Window → Prop
  | [] => False
  | [w] => w = ⟨a, stop⟩ ∧ a < stop
  | w :: ws => w.startMicros = a ∧ a < w.endMicros ∧ step addMonths a gran = .ok w.endMicros ∧
    Tiles w.endMicros ws

/-- The call ends without an overflow, in an error or in at most `MAX_WINDOWS` windows that tile the
range; a fixed unit is refused only if `MAX_WINDOWS` steps do not reach the end. -/
def TilesOrFails (start : ℤ) : Prop :=
  ∃ r, generateWindows addMonths start stop gran = some r ∧
    (∀ ws, r = .ok ws → Tiles addMonths stop gran start ws ∧ ws.length ≤ maxWindows) ∧
    ∀ delta n, gran.unit.fixedMicros = some delta → r = .error (.tooManyWindows n) →
      start + maxWindows * (delta * gran.count) < stop

/-- Full steps from `a` to `b`. -/
def Steps : ℤ → List Window → ℤ → Prop
  | a, [], b => a = b
  | a, w :: ws, b => w.startMicros = a ∧ a < w.endMicros ∧
    step addMonths a gran = .ok w.endMicros ∧ Steps w.endMicros ws b

variable {addMonths stop gran} {a b next : ℤ} {ws : List Window}

lemma Steps.snoc (h : Steps addMonths gran a ws b) (hstep : step addMonths b gran = .ok next)
    (hlt : b < next) : Steps addMonths gran a (ws ++ [⟨b, next⟩]) next := by
  induction ws generalizing a with
  | nil =>
    obtain rfl : a = b := h
    exact ⟨rfl, hlt, hstep, rfl⟩
  | cons w ws ih =>
    obtain ⟨hstart, hne, hw, hrest⟩ := h
    exact ⟨hstart, hne, hw, ih hrest⟩

lemma Steps.tiles (h : Steps addMonths gran a ws b) (hlt : b < stop) :
    Tiles addMonths stop gran a (ws ++ [⟨b, stop⟩]) := by
  induction ws generalizing a with
  | nil =>
    obtain rfl : a = b := h
    exact ⟨rfl, hlt⟩
  | cons w ws ih =>
    obtain ⟨hstart, hne, hw, hrest⟩ := h
    obtain ⟨v, vs, hvs⟩ := exists_cons_of_ne_nil (append_ne_nil_of_right_ne_nil ws
      (cons_ne_nil (⟨b, stop⟩ : Window) []))
    rw [cons_append, hvs]
    exact ⟨hstart, hne, hw, hvs ▸ ih hrest⟩

lemma step_eq_error {e : WindowError} (h : step addMonths a gran = .error e) :
    e = .calendarOverflow := by
  have hflow : ∀ x : Option ℤ, orOverflow x = .error e → e = .calendarOverflow := by
    rintro (_ | x) hx
    · exact (Except.error.inj hx).symm
    · cases hx
  rw [step] at h
  split at h
  · exact hflow _ h
  · exact hflow _ h
  · exact (Except.error.inj h).symm

/-- What the loop does from a boundary it has reached in full steps. -/
lemma windowsFrom_spec {start : ℤ} (h : Steps addMonths gran start ws b) (hb : b < stop)
    (hlen : ws.length ≤ maxWindows) : (∀ out, windowsFrom addMonths stop gran b ws = .ok out →
      Tiles addMonths stop gran start out ∧ out.length ≤ maxWindows) ∧
    ∀ n, windowsFrom addMonths stop gran b ws = .error (.tooManyWindows n) →
      ∃ full c, Steps addMonths gran start full c ∧ full.length = maxWindows ∧ c < stop := by
  fun_induction windowsFrom addMonths stop gran b ws with
  | case1 b ws hlt e hstep =>
    refine ⟨by simp, fun n hn => ?_⟩
    rw [step_eq_error hstep] at hn
    cases hn
  | case2 => simp
  | case3 b ws hlt next hstep hnext windows hmany =>
    refine ⟨by simp, fun n _ => ⟨ws, b, h, ?_, hlt⟩⟩
    simp only [windows, length_append, length_singleton] at hmany
    omega
  | case4 b ws hlt next hstep hnext windows hmany ih =>
    by_cases hend : next < stop
    · refine ih ?_ hend (not_lt.mp hmany)
      simp only [windows, min_eq_left hend.le]
      exact h.snoc hstep (not_le.mp hnext)
    · have hlast : windows = ws ++ [⟨b, stop⟩] := by
        simp only [windows, min_eq_right (not_lt.mp hend)]
      rw [windowsFrom, if_neg hend]
      refine ⟨fun out hout => ?_, by simp⟩
      cases hout
      exact ⟨hlast ▸ h.tiles hlt, not_lt.mp hmany⟩
  | case5 b ws hlt => exact absurd hb hlt

variable {delta : ℤ}

variable (hfixed : gran.unit.fixedMicros = some delta)

include hfixed

lemma step_of_fixed (h : step addMonths a gran = .ok next) : next = a + delta * gran.count := by
  have hchecked : ∀ {x y : ℤ}, checkedI64 x = some y → y = x := by
    intro x y hxy
    rw [checkedI64] at hxy
    split_ifs at hxy
    exact (some.inj hxy).symm
  simp only [step, hfixed] at h
  cases hd : checkedI64 (delta * gran.count) with
  | none => simp [hd, orOverflow] at h
  | some d =>
    cases hn : checkedI64 (a + d) with
    | none => simp [hd, hn, orOverflow] at h
    | some n =>
      rw [hd, bind_some, hn] at h
      cases h
      rw [hchecked hn, hchecked hd]

lemma Steps.eq_of_fixed (h : Steps addMonths gran a ws b) :
    b = a + ws.length * (delta * gran.count) := by
  induction ws generalizing a with
  | nil => simpa using (show a = b from h).symm
  | cons w ws ih =>
    obtain ⟨-, -, hw, hrest⟩ := h
    rw [ih hrest, step_of_fixed hfixed hw, length_cons]
    push_cast
    ring

lemma fixedMicros_pos : 0 < delta := by
  cases hunit : gran.unit <;> rw [hunit] at hfixed <;> cases hfixed <;> decide

omit hfixed

/-- The estimate refuses one step too early. -/
lemma lt_estimate_iff {span : ℤ} {d : ℤ} (hd : 0 < d) :
    (maxWindows : ℤ) < span / d + 1 ↔ maxWindows * d ≤ span := by
  rw [Int.lt_add_one_iff, Int.le_ediv_iff_mul_le hd]

end Contract

/-- **The windows tile the range**, unless the unit is fixed and the range is as long as overflows
the estimate, or exactly `MAX_WINDOWS` steps long. -/
theorem tilesOrFails_iff (addMonths : ℤ → ℕ → Option ℤ) (start stop : ℤ)
    (gran : WindowGranularity) :
    TilesOrFails addMonths stop gran start ↔
      ∀ delta, gran.unit.fixedMicros = some delta → gran.count ≠ 0 → start < stop →
        stop - start < 2 ^ 63 ∧ stop - start ≠ maxWindows * (delta * gran.count) := by
  have hloop : start < stop → ∀ r, windowsFrom addMonths stop gran start [] = r →
      (∀ ws, r = .ok ws → Tiles addMonths stop gran start ws ∧ ws.length ≤ maxWindows) ∧
      ∀ delta n, gran.unit.fixedMicros = some delta → r = .error (.tooManyWindows n) →
        start + maxWindows * (delta * gran.count) < stop := by
    rintro hlt r rfl
    have hspec := windowsFrom_spec
      (show Steps addMonths gran start [] start from rfl) hlt (Nat.zero_le _)
    refine ⟨hspec.1, fun delta n hfixed hn => ?_⟩
    obtain ⟨full, c, hsteps, hfull, hc⟩ := hspec.2 n hn
    rwa [← hfull, ← hsteps.eq_of_fixed hfixed]
  by_cases hcount : gran.count = 0
  · refine iff_of_true ⟨_, if_pos hcount, by simp, by simp⟩ fun _ _ hne => absurd hcount hne
  by_cases hrange : stop ≤ start
  · refine iff_of_true ⟨.error .emptyRange, ?_, by simp, by simp⟩
      fun _ _ _ hlt => absurd hlt (not_lt.mpr hrange)
    rw [generateWindows, if_neg hcount, if_pos hrange]
  have hlt := not_le.mp hrange
  cases hunit : gran.unit.fixedMicros with
  | none =>
    refine iff_of_true ⟨windowsFrom addMonths stop gran start [], ?_, hloop hlt _ rfl⟩ (by simp)
    rw [generateWindows, if_neg hcount, if_neg hrange, hunit]
  | some delta =>
    have hd : 0 < delta * gran.count :=
      Int.mul_pos (fixedMicros_pos hunit) (by omega)
    have hrun : generateWindows addMonths start stop gran =
        (checkedI64 (stop - start)).bind fun span =>
          if (maxWindows : ℤ) < span / (delta * gran.count) + 1 then
            some (.error (.tooManyWindows (span / (delta * gran.count) + 1).toNat))
          else some (windowsFrom addMonths stop gran start []) := by
      rw [generateWindows, if_neg hcount, if_neg hrange, hunit]
      rfl
    simp only [some.injEq, forall_eq', hcount, hlt, ne_eq, not_false_iff, forall_const]
    rw [TilesOrFails, hrun]
    by_cases hspan : stop - start < 2 ^ 63
    · rw [checkedI64, if_pos ⟨by omega, hspan⟩, bind_some]
      simp only [lt_estimate_iff hd, hspan, true_and]
      split_ifs with hmany
      · -- refused before the loop: rightly, unless the range is exactly that long
        simp only [some.injEq, exists_eq_left', reduceCtorEq, false_implies, implies_true,
          true_and, hunit]
        constructor
        · intro h heq
          have := h delta _ rfl rfl
          omega
        · rintro hne _ n ⟨⟩ _
          omega
      · refine iff_of_true ⟨_, rfl, hloop hlt _ rfl⟩ fun heq => hmany heq.ge
    · rw [checkedI64, if_neg (by omega)]
      exact iff_of_false (by simp) fun h => hspan h.1

/-- The whole range of 64 bits, in days, overflows the estimate; 100000 days are refused although
100000 windows are allowed. -/
theorem not_tilesOrFails :
    ¬TilesOrFails (fun _ _ => none) (2 ^ 63 - 1) ⟨1, .day⟩ (-2 ^ 63) ∧
      ¬TilesOrFails (fun _ _ => none) (100000 * microsPerDay) ⟨1, .day⟩ 0 := by
  constructor
  · rintro ⟨r, hr, -⟩
    have hoverflow : generateWindows (fun _ _ => none) (-2 ^ 63) (2 ^ 63 - 1) ⟨1, .day⟩ = none := rfl
    cases hoverflow.symm.trans hr
  · rintro ⟨r, hr, -, hmany⟩
    have hrefused : generateWindows (fun _ _ => none) 0 (100000 * microsPerDay) ⟨1, .day⟩ =
      some (.error (.tooManyWindows 100001)) := rfl
    have := hmany microsPerDay 100001 rfl (some.inj (hr.symm.trans hrefused))
    exact absurd this (by decide)

end Aletheia.TemporalWindow
