import Mathlib.Algebra.Order.Ring.Int
import Mathlib.Tactic.Order

/-!
# Timestamps, time ranges and bi-temporal intervals

A `HybridTimestamp` is a wall clock reading in microseconds with a logical tie-breaker, ordered
lexicographically. A `TimeRange` is half open; its end is `timestampMax` while it is still
current. A `BiTemporalInterval` is a rectangle: the valid time of a fact and the transaction time
at which the database recorded it.
-/

namespace Aletheia

/-- A hybrid logical clock reading: `wallclock` is an `i64`, `logical` a `u32`. -/
structure HybridTimestamp where
  wallclock : ℤ
  logical : ℕ
deriving DecidableEq, Repr

namespace HybridTimestamp

variable {a b : HybridTimestamp}

instance : LE HybridTimestamp where
  le a b := a.wallclock < b.wallclock ∨ (a.wallclock = b.wallclock ∧ a.logical ≤ b.logical)

instance : LT HybridTimestamp where
  lt a b := a.wallclock < b.wallclock ∨ (a.wallclock = b.wallclock ∧ a.logical < b.logical)

lemma le_def :
    a ≤ b ↔ a.wallclock < b.wallclock ∨ (a.wallclock = b.wallclock ∧ a.logical ≤ b.logical) :=
  Iff.rfl

lemma lt_def :
    a < b ↔ a.wallclock < b.wallclock ∨ (a.wallclock = b.wallclock ∧ a.logical < b.logical) :=
  Iff.rfl

instance : DecidableLE HybridTimestamp := fun a b =>
  inferInstanceAs (Decidable (a.wallclock < b.wallclock ∨ _))

instance : DecidableLT HybridTimestamp := fun a b =>
  inferInstanceAs (Decidable (a.wallclock < b.wallclock ∨ _))

instance : LinearOrder HybridTimestamp where
  le_refl a := by simp [le_def]
  le_trans a b c := by simp only [le_def]; omega
  lt_iff_le_not_ge a b := by simp only [le_def, lt_def]; omega
  le_antisymm a b := by
    obtain ⟨aw, al⟩ := a
    obtain ⟨bw, bl⟩ := b
    simp only [le_def, mk.injEq]
    omega
  le_total a b := by simp only [le_def]; omega
  toDecidableLE := inferInstance

end HybridTimestamp

abbrev Timestamp := HybridTimestamp

/-- `i64::MAX`. -/
def i64Max : ℤ := 9223372036854775807

/-- `MAX_VALID_TIMESTAMP`: the last thousand microseconds of an `i64` are kept as a buffer. -/
def maxValidTimestamp : ℤ := i64Max - 1000

/-- `TIMESTAMP_MAX`, the sentinel end of a range that is still current. -/
def timestampMax : Timestamp := ⟨i64Max, 0⟩

/-- What `HybridTimestamp::new` accepts. -/
def HybridTimestamp.Valid (t : Timestamp) : Prop := t.wallclock ≤ maxValidTimestamp

instance (t : Timestamp) : Decidable t.Valid := inferInstanceAs (Decidable (_ ≤ _))

/-- A timestamp that `HybridTimestamp::new` can build. -/
abbrev ValidTimestamp := {t : Timestamp // t.Valid}

/-- The timestamp of a reading of the wall clock, or the last valid one. -/
def ValidTimestamp.ofWallclock (w : ℤ) : ValidTimestamp :=
  ⟨⟨min w maxValidTimestamp, 0⟩, min_le_right _ _⟩

lemma HybridTimestamp.Valid.lt_max {t : Timestamp} (h : t.Valid) : t < timestampMax := by
  simp only [Valid, maxValidTimestamp] at h
  simp only [lt_def, timestampMax]
  omega

lemma HybridTimestamp.Valid.ne_max {t : Timestamp} (h : t.Valid) : t ≠ timestampMax :=
  h.lt_max.ne

lemma HybridTimestamp.Valid.mono {s t : Timestamp} (h : t.Valid) (hle : s ≤ t) : s.Valid := by
  simp only [Valid, le_def] at *
  omega

inductive TemporalError where
  | invalidTimeRange (start stop : Timestamp)
  | invalidTimestamp (timestamp : Timestamp)
  | logicalCounterOverflow (wallclock : ℤ) (currentLogical : ℕ)
deriving DecidableEq, Repr

/-! ### Ranges -/

/-- The half-open range `[start, stop)`. -/
structure TimeRange where
  start : Timestamp
  stop : Timestamp
deriving DecidableEq, Repr

namespace TimeRange

/-- `TimeRange::from`: the range that starts at `start` and is still current. The source panics
above `MAX_VALID_TIMESTAMP`; every caller passes a checked timestamp. -/
def fromStart (start : Timestamp) : TimeRange := ⟨start, timestampMax⟩

def isCurrent (r : TimeRange) : Bool := r.stop = timestampMax

def contains (r : TimeRange) (t : Timestamp) : Bool := r.start ≤ t ∧ t < r.stop

def closeAt (r : TimeRange) (stop : Timestamp) : Except TemporalError TimeRange :=
  if stop < r.start then .error (.invalidTimeRange r.start stop)
  else if stop.wallclock > maxValidTimestamp ∧ stop ≠ timestampMax then
    .error (.invalidTimestamp stop)
  else .ok ⟨r.start, stop⟩

variable {r : TimeRange} {s t : Timestamp}

@[simp] lemma fromStart_start : (fromStart s).start = s := rfl
@[simp] lemma fromStart_stop : (fromStart s).stop = timestampMax := rfl

@[simp] lemma isCurrent_iff : r.isCurrent = true ↔ r.stop = timestampMax := by
  simp [isCurrent]

@[simp] lemma contains_iff : r.contains t = true ↔ r.start ≤ t ∧ t < r.stop := by
  simp [contains]

lemma closeAt_ok (hle : r.start ≤ s) (hs : s.Valid ∨ s = timestampMax) :
    r.closeAt s = .ok ⟨r.start, s⟩ := by
  have hv : ¬ (s.wallclock > maxValidTimestamp ∧ s ≠ timestampMax) := by
    rintro ⟨h1, h2⟩
    rcases hs with hs | hs
    · exact absurd hs (not_le.mpr h1)
    · exact h2 hs
  simp [closeAt, not_lt.mpr hle, hv]

lemma closeAt_eq_ok {r' : TimeRange} (h : r.closeAt s = .ok r') :
    r.start ≤ s ∧ (s.Valid ∨ s = timestampMax) ∧ r' = ⟨r.start, s⟩ := by
  simp only [closeAt] at h
  split_ifs at h with h1 h2
  refine ⟨not_lt.mp h1, ?_, ?_⟩
  · rw [not_and_or, not_not, not_lt] at h2
    exact h2
  · cases h
    rfl

end TimeRange

/-! ### Rectangles -/

structure BiTemporalInterval where
  validTime : TimeRange
  transactionTime : TimeRange
deriving DecidableEq, Repr

namespace BiTemporalInterval

def withValidTime (validFrom txTime : Timestamp) : BiTemporalInterval :=
  ⟨.fromStart validFrom, .fromStart txTime⟩

def isCurrentlyValid (b : BiTemporalInterval) : Bool := b.validTime.isCurrent

def isCurrentlyRecorded (b : BiTemporalInterval) : Bool := b.transactionTime.isCurrent

def isCurrent (b : BiTemporalInterval) : Bool := b.isCurrentlyValid && b.isCurrentlyRecorded

def isVisibleAt (b : BiTemporalInterval) (validTime txTime : Timestamp) : Bool :=
  b.validTime.contains validTime && b.transactionTime.contains txTime

def closeValidTime (b : BiTemporalInterval) (stop : Timestamp) :
    Except TemporalError BiTemporalInterval := do
  let v ← b.validTime.closeAt stop
  return { b with validTime := v }

def closeTransactionTime (b : BiTemporalInterval) (stop : Timestamp) :
    Except TemporalError BiTemporalInterval := do
  let t ← b.transactionTime.closeAt stop
  return { b with transactionTime := t }

variable {b b' : BiTemporalInterval} {s t v : Timestamp}

@[simp] lemma withValidTime_validTime : (withValidTime v t).validTime = .fromStart v := rfl
@[simp] lemma withValidTime_transactionTime :
    (withValidTime v t).transactionTime = .fromStart t := rfl

@[simp] lemma isCurrentlyRecorded_iff :
    b.isCurrentlyRecorded = true ↔ b.transactionTime.stop = timestampMax :=
  TimeRange.isCurrent_iff

@[simp] lemma isVisibleAt_iff :
    b.isVisibleAt v t = true ↔ (b.validTime.start ≤ v ∧ v < b.validTime.stop) ∧
      b.transactionTime.start ≤ t ∧ t < b.transactionTime.stop := by
  simp [isVisibleAt]

lemma closeValidTime_ok (hle : b.validTime.start ≤ s) (hs : s.Valid ∨ s = timestampMax) :
    b.closeValidTime s = .ok { b with validTime := ⟨b.validTime.start, s⟩ } := by
  simp [closeValidTime, TimeRange.closeAt_ok hle hs]

lemma withValidTime_closeValidTime (hle : v ≤ s) (hs : s.Valid) :
    (withValidTime v t).closeValidTime s = .ok ⟨⟨v, s⟩, .fromStart t⟩ :=
  closeValidTime_ok (b := withValidTime v t) hle (.inl hs)

lemma closeTransactionTime_ok (hle : b.transactionTime.start ≤ s)
    (hs : s.Valid ∨ s = timestampMax) :
    b.closeTransactionTime s =
      .ok { b with transactionTime := ⟨b.transactionTime.start, s⟩ } := by
  simp [closeTransactionTime, TimeRange.closeAt_ok hle hs]

lemma closeValidTime_eq_ok (h : b.closeValidTime s = .ok b') :
    b.validTime.start ≤ s ∧ (s.Valid ∨ s = timestampMax) ∧
      b' = { b with validTime := ⟨b.validTime.start, s⟩ } := by
  simp only [closeValidTime] at h
  rcases hc : b.validTime.closeAt s with e | r
  · rw [hc] at h
    cases h
  · obtain ⟨h1, h2, rfl⟩ := TimeRange.closeAt_eq_ok hc
    rw [hc] at h
    cases h
    exact ⟨h1, h2, rfl⟩

lemma closeTransactionTime_eq_ok (h : b.closeTransactionTime s = .ok b') :
    b' = { b with transactionTime := ⟨b.transactionTime.start, s⟩ } := by
  simp only [closeTransactionTime] at h
  rcases hc : b.transactionTime.closeAt s with e | r
  · rw [hc] at h
    cases h
  · obtain ⟨-, -, rfl⟩ := TimeRange.closeAt_eq_ok hc
    rw [hc] at h
    cases h
    rfl

end BiTemporalInterval

end Aletheia
