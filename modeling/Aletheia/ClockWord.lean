import Aletheia.Temporal

/-!
# The word of the commit clock

The frontier is one 128-bit cell: 96 bits of timestamp, with the wallclock's sign bit flipped, and
two flags above them. Everything the protocol needs of the encoding is that the timestamp and the
in-flight flag can be read back.
-/

namespace Aletheia.CommitClock

variable {i : ℕ}

abbrev Word := BitVec 128

/-- The wallclock is an `i64` and the logical counter a `u32`. -/
structure InRange (ts : Timestamp) : Prop where
  wallclock_ge : -2 ^ 63 ≤ ts.wallclock
  wallclock_lt : ts.wallclock < 2 ^ 63
  logical_lt : ts.logical < 2 ^ 32

instance (ts : Timestamp) : Decidable (InRange ts) :=
  decidable_of_iff (-2 ^ 63 ≤ ts.wallclock ∧ ts.wallclock < 2 ^ 63 ∧ ts.logical < 2 ^ 32)
    ⟨fun ⟨h1, h2, h3⟩ => ⟨h1, h2, h3⟩, fun h => ⟨h.1, h.2, h.3⟩⟩

/-- The wallclock as an unsigned number, with its sign bit flipped. -/
def biased (ts : Timestamp) : BitVec 64 := BitVec.ofInt 64 ts.wallclock ^^^ (1#64 <<< 63)

def pack (ts : Timestamp) : Word :=
  ((biased ts).setWidth 128 <<< 32) ||| (BitVec.ofNat 32 ts.logical).setWidth 128

def unpack (v : Word) : Timestamp :=
  ⟨((v >>> 32).setWidth 64 ^^^ (1#64 <<< 63)).toInt, (v &&& 0xFFFFFFFF#128).toNat⟩

/-- A commit is sequenced but not yet visible. -/
def inFlightBit : Word := 1#128 <<< 127

/-- The frontier holds a reader's reservation. -/
def reservedBit : Word := 1#128 <<< 126

def tsMask : Word := ~~~(inFlightBit ||| reservedBit)

def stateTimestamp (state : Word) : Timestamp := unpack (state &&& tsMask)

def isInFlight (state : Word) : Bool := state &&& inFlightBit != 0#128

def isReserved (state : Word) : Bool := state &&& reservedBit != 0#128

/-! ### Bits -/

lemma getLsbD_tsMask (hi : i < 126) : tsMask.getLsbD i = true := by
  have h : ∀ j : Fin 126, tsMask.getLsbD j = true := by decide
  exact h ⟨i, hi⟩

lemma getLsbD_low (i : ℕ) (hi : i < 128) : (0xFFFFFFFF#128).getLsbD i = decide (i < 32) := by
  have h : ∀ j : Fin 128, (0xFFFFFFFF#128).getLsbD j = decide (j.val < 32) := by decide
  exact h ⟨i, hi⟩

lemma getLsbD_inFlightBit (hi : i < 128) : inFlightBit.getLsbD i = decide (i = 127) := by
  have h : ∀ j : Fin 128, inFlightBit.getLsbD j = decide (j.val = 127) := by decide
  exact h ⟨i, hi⟩

lemma getLsbD_reservedBit (hi : i < 128) : reservedBit.getLsbD i = decide (i = 126) := by
  have h : ∀ j : Fin 128, reservedBit.getLsbD j = decide (j.val = 126) := by decide
  exact h ⟨i, hi⟩

lemma isInFlight_eq (state : Word) : isInFlight state = state.getLsbD 127 := by
  rw [isInFlight, Bool.eq_iff_iff, bne_iff_ne]
  constructor
  · intro hne
    by_contra hbit
    refine hne (BitVec.eq_of_getLsbD_eq fun i hi => ?_)
    rw [BitVec.getLsbD_and, getLsbD_inFlightBit hi, BitVec.getLsbD_zero]
    by_cases h : i = 127
    · subst h
      simp only [Bool.not_eq_true] at hbit
      rw [hbit, Bool.false_and]
    · rw [decide_eq_false h, Bool.and_false]
  · intro hbit hzero
    have h : (state &&& inFlightBit).getLsbD 127 = true := by
      rw [BitVec.getLsbD_and, hbit, getLsbD_inFlightBit (by decide)]
      rfl
    rw [hzero, BitVec.getLsbD_zero] at h
    cases h

lemma getLsbD_pack {ts : Timestamp} (hi : 96 ≤ i) : (pack ts).getLsbD i = false := by
  have h1 : (biased ts).getLsbD (i - 32) = false := BitVec.getLsbD_of_ge _ _ (by omega)
  have h2 : (BitVec.ofNat 32 ts.logical).getLsbD i = false := BitVec.getLsbD_of_ge _ _ (by omega)
  simp only [pack, BitVec.getLsbD_or, BitVec.getLsbD_shiftLeft, BitVec.getLsbD_setWidth, h1, h2,
    Bool.and_false, Bool.or_false]

/-! ### Reading a packed timestamp back -/

section Flags

variable {ts : Timestamp} {flags : Word} (hflags : ∀ i < 126, flags.getLsbD i = false)

include hflags

lemma high_word : (((pack ts ||| flags) &&& tsMask) >>> 32).setWidth 64 = biased ts := by
  refine BitVec.eq_of_getLsbD_eq fun i hi => ?_
  have h1 := hflags (32 + i) (by omega)
  have h2 := getLsbD_tsMask (i := 32 + i) (by omega)
  have h3 : decide (32 + i < 128) = true := decide_eq_true (by omega)
  have h4 : decide (32 + i < 32) = false := decide_eq_false (by omega)
  have h5 : decide (i < 128) = true := decide_eq_true (by omega)
  have h6 : (BitVec.ofNat 32 ts.logical).getLsbD (32 + i) = false :=
    BitVec.getLsbD_of_ge _ _ (by omega)
  simp only [BitVec.getLsbD_setWidth, BitVec.getLsbD_ushiftRight, BitVec.getLsbD_and,
    BitVec.getLsbD_or, h1, h2, h3, h4, h6, pack, BitVec.getLsbD_shiftLeft, hi, decide_true,
    Nat.add_sub_cancel_left, h5, Bool.true_and, Bool.and_true, Bool.or_false, Bool.not_false,
    Bool.and_false]

lemma low_word : ((pack ts ||| flags) &&& tsMask) &&& 0xFFFFFFFF#128 =
    (BitVec.ofNat 32 ts.logical).setWidth 128 := by
  refine BitVec.eq_of_getLsbD_eq fun i hi => ?_
  rw [BitVec.getLsbD_and, getLsbD_low i hi, BitVec.getLsbD_setWidth, decide_eq_true hi]
  by_cases h : i < 32
  · simp only [BitVec.getLsbD_and, BitVec.getLsbD_or, hflags i (by omega),
      getLsbD_tsMask (i := i) (by omega), pack, BitVec.getLsbD_shiftLeft, BitVec.getLsbD_setWidth,
      decide_eq_true h, decide_eq_true hi, Bool.not_true, Bool.false_and, Bool.and_false,
      Bool.false_or, Bool.or_false, Bool.and_true]
  · rw [decide_eq_false h, BitVec.getLsbD_of_ge _ _ (not_lt.mp h), Bool.and_false, Bool.and_false]

lemma stateTimestamp_pack (hts : InRange ts) : stateTimestamp (pack ts ||| flags) = ts := by
  have hwall : (BitVec.ofInt 64 ts.wallclock).toInt = ts.wallclock := by
    rw [BitVec.toInt_ofInt]
    exact Int.bmod_eq_of_le (by have := hts.wallclock_ge; omega)
      (by have := hts.wallclock_lt; omega)
  have hlog : (BitVec.ofNat 32 ts.logical).toNat = ts.logical := by
    rw [BitVec.toNat_ofNat]
    exact Nat.mod_eq_of_lt hts.logical_lt
  have hlow : ((BitVec.ofNat 32 ts.logical).setWidth 128).toNat = ts.logical := by
    rw [BitVec.toNat_setWidth, hlog]
    exact Nat.mod_eq_of_lt (hts.logical_lt.trans (by decide))
  rw [stateTimestamp, unpack, high_word hflags, low_word hflags, hlow, biased, BitVec.xor_assoc,
    BitVec.xor_self, BitVec.xor_zero, hwall]

end Flags

section Words

variable {ts : Timestamp}

@[simp] lemma stateTimestamp_plain (hts : InRange ts) : stateTimestamp (pack ts) = ts := by
  have h : stateTimestamp (pack ts ||| 0#128) = ts :=
    stateTimestamp_pack (fun _ _ => BitVec.getLsbD_zero) hts
  rwa [BitVec.or_zero] at h

@[simp] lemma stateTimestamp_inFlight (hts : InRange ts) :
    stateTimestamp (pack ts ||| inFlightBit) = ts := by
  refine stateTimestamp_pack (fun i hi => ?_) hts
  rw [getLsbD_inFlightBit (by omega), decide_eq_false (by omega)]

@[simp] lemma stateTimestamp_reserved (hts : InRange ts) :
    stateTimestamp (pack ts ||| reservedBit) = ts := by
  refine stateTimestamp_pack (fun i hi => ?_) hts
  rw [getLsbD_reservedBit (by omega), decide_eq_false (by omega)]

@[simp] lemma isInFlight_plain : isInFlight (pack ts) = false := by
  rw [isInFlight_eq, getLsbD_pack (by decide)]

@[simp] lemma isInFlight_inFlight : isInFlight (pack ts ||| inFlightBit) = true := by
  rw [isInFlight_eq, BitVec.getLsbD_or, getLsbD_inFlightBit (by decide), decide_eq_true rfl,
    Bool.or_true]

@[simp] lemma isInFlight_reserved : isInFlight (pack ts ||| reservedBit) = false := by
  rw [isInFlight_eq, BitVec.getLsbD_or, getLsbD_pack (by decide), getLsbD_reservedBit (by decide)]
  rfl

@[simp] lemma stateTimestamp_clear (w : Word) :
    stateTimestamp (w &&& ~~~inFlightBit) = stateTimestamp w := by
  have hmask : ~~~inFlightBit &&& tsMask = tsMask := by decide
  rw [stateTimestamp, BitVec.and_assoc, hmask, stateTimestamp]

@[simp] lemma isInFlight_clear (w : Word) : isInFlight (w &&& ~~~inFlightBit) = false := by
  have hbit : (~~~inFlightBit).getLsbD 127 = false := by decide
  rw [isInFlight_eq, BitVec.getLsbD_and, hbit, Bool.and_false]

lemma inRange_stateTimestamp (w : Word) : InRange (stateTimestamp w) where
  wallclock_ge := by
    have h := BitVec.le_toInt (((w &&& tsMask) >>> 32).setWidth 64 ^^^ (1#64 <<< 63))
    simpa [stateTimestamp, unpack] using h
  wallclock_lt := by
    have h := BitVec.toInt_lt (x := ((w &&& tsMask) >>> 32).setWidth 64 ^^^ (1#64 <<< 63))
    simpa [stateTimestamp, unpack] using h
  logical_lt := by
    have h : (w &&& tsMask &&& 0xFFFFFFFF#128).toNat ≤ (0xFFFFFFFF#128).toNat := by
      rw [BitVec.toNat_and]
      exact Nat.and_le_right
    exact h.trans_lt (by decide)

end Words

example : pack ⟨-1, 7⟩ = 0x7FFFFFFFFFFFFFFF00000007#128 := by decide

end Aletheia.CommitClock
