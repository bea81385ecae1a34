import RangePricer.FloatingPoint.Format

/-!
# Data of a format

Bit patterns split into sign and magnitude, with the operations of the hardware
on them: addition rounded to nearest even from the exact sum, comparison, and
conversion to a coarser format.  Finite data are ordered by a signed pattern,
their key, on which every operation is a monotone function of numbers.
-/

namespace FloatingPoint

/-- A bit pattern: the sign bit and the rest. -/
structure Datum (F : Format) where
  negative : Bool
  magnitude : ℕ
  fits : magnitude < 2 ^ (F.exponentBits + F.fractionBits)
  deriving DecidableEq

namespace Format

variable (F : Format)

/-- The datum with a positive sign and a magnitude. -/
def positive (m : ℕ) (fits : m < 2 ^ (F.exponentBits + F.fractionBits) := by decide) : Datum F :=
  ⟨false, m, fits⟩

theorem two_le_exponent : 2 ≤ 2 ^ F.exponentBits :=
  Nat.pow_le_pow_right (show 0 < 2 by decide) F.exponentBits_pos

theorem infinity_pos : 0 < F.infinity := by
  have htwo := F.two_le_exponent
  exact Nat.mul_pos (by omega) (Nat.two_pow_pos _)

/-- The NaNs above the infinities. -/
theorem infinity_add_lt {payload : ℕ} (hpayload : payload < 2 ^ F.fractionBits) :
    F.infinity + payload < 2 ^ (F.exponentBits + F.fractionBits) := by
  have hone : 1 ≤ 2 ^ F.exponentBits := Nat.one_le_two_pow
  have hsplit : 2 ^ (F.exponentBits + F.fractionBits) = F.infinity + 2 ^ F.fractionBits := by
    rw [infinity, Nat.pow_add, ← Nat.succ_mul, Nat.succ_eq_add_one, Nat.sub_add_cancel hone]
  omega

/-- A magnitude, or infinity if it is out of range. -/
def overflow (m : ℕ) : ℕ := min m F.infinity

theorem overflow_fits (m : ℕ) : F.overflow m < 2 ^ (F.exponentBits + F.fractionBits) :=
  (Nat.min_le_right _ _).trans_lt (F.infinity_add_lt (Nat.two_pow_pos _))

/-- The datum nearest to `x`, which counts units of `1 / 2 ^ k`; a zero result
has the sign `zeroNegative`. -/
def round (k : ℕ) (x : ℤ) (zeroNegative : Bool) : Datum F where
  negative := if x = 0 then zeroNegative else decide (x < 0)
  magnitude := F.overflow (F.roundIndex k x.natAbs)
  fits := F.overflow_fits _

end Format

namespace Datum

variable {F G : Format}

def isNaN (x : Datum F) : Bool := decide (F.infinity < x.magnitude)

def isFinite (x : Datum F) : Bool := decide (x.magnitude < F.infinity)

/-- The default NaN. -/
def nan : Datum F where
  negative := false
  magnitude := F.infinity + 2 ^ (F.fractionBits - 1)
  fits := F.infinity_add_lt (Nat.pow_lt_pow_right (by decide) (Nat.pred_lt F.fractionBits_pos.ne'))

/-- The value in units, of a finite datum. -/
def value (x : Datum F) : ℤ :=
  if x.negative then -(F.units x.magnitude : ℤ) else F.units x.magnitude

/-- The position in the order of the data, equal for the two zeros. -/
def key (x : Datum F) : ℤ := if x.negative then -(x.magnitude : ℤ) else x.magnitude

/-- `x + y`, rounded to nearest even. -/
def add (x y : Datum F) : Datum F :=
  if x.isNaN || y.isNaN then nan
  else if !x.isFinite then (if !y.isFinite && x.negative != y.negative then nan else x)
  else if !y.isFinite then y
  else F.round 0 (x.value + y.value) (x.negative && y.negative)

/-- The comparison `x <= y`, false whenever an operand is unordered. -/
def le (x y : Datum F) : Bool := !x.isNaN && !y.isNaN && decide (x.key ≤ y.key)

/-- Conversion to a format with larger units. -/
def narrow (G : Format) (x : Datum F) : Datum G :=
  if x.isNaN then nan
  else if !x.isFinite then ⟨x.negative, G.infinity, G.infinity_add_lt (Nat.two_pow_pos _)⟩
  else G.round (G.unitExponent - F.unitExponent).toNat x.value x.negative

/-- The zero with a positive sign. -/
def zero : Datum F := ⟨false, 0, Nat.two_pow_pos _⟩

/-! ## Keys -/

theorem value_eq (x : Datum F) : x.value = signed F.units x.key := by
  unfold value key
  cases x.negative with
  | false =>
      rw [if_neg Bool.false_ne_true, if_neg Bool.false_ne_true,
        signed_of_nonneg F.units_zero (Int.natCast_nonneg _), Int.natAbs_natCast]
  | true =>
      rw [if_pos rfl, if_pos rfl]
      rcases Nat.eq_zero_or_pos x.magnitude with hzero | hpos
      · rw [hzero, F.units_zero, Int.natCast_zero, Int.neg_zero, signed_zero]
      · rw [signed_of_neg (by omega), Int.natAbs_neg, Int.natAbs_natCast]

theorem natAbs_key (x : Datum F) : x.key.natAbs = x.magnitude := by
  unfold key
  split
  · rw [Int.natAbs_neg, Int.natAbs_natCast]
  · rw [Int.natAbs_natCast]

theorem isNaN_of_isFinite {x : Datum F} (hfinite : x.isFinite = true) : x.isNaN = false :=
  decide_eq_false (Nat.not_lt_of_lt (of_decide_eq_true hfinite))

theorem isFinite_iff (x : Datum F) :
    x.isFinite = true ↔ -F.infinity < x.key ∧ x.key < F.infinity := by
  have habs := x.natAbs_key
  rw [isFinite, decide_eq_true_eq]
  omega

theorem le_iff {x y : Datum F} (hx : x.isNaN = false) (hy : y.isNaN = false) :
    x.le y = true ↔ x.key ≤ y.key := by
  simp [le, hx, hy]

/-- Among finite data other than the zeros the key determines the datum. -/
theorem eq_of_key {x y : Datum F} (hkey : x.key = y.key) (hzero : x.key ≠ 0) : x = y := by
  obtain ⟨xs, xm, hx⟩ := x
  obtain ⟨ys, ym, hy⟩ := y
  simp only [key] at hkey hzero
  cases xs <;> cases ys <;> simp only [if_true, if_false, Bool.false_eq_true] at hkey hzero
  all_goals
    simp only [Datum.mk.injEq, true_and, reduceCtorEq, false_and]
    omega

end Datum

/-! ## Rounding on keys -/

namespace Format

variable (F : Format)

/-- The magnitude a number of units is rounded to. -/
def roundMagnitude (n : ℕ) : ℕ := F.overflow (F.roundIndex 0 n)

@[simp]
theorem roundIndex_zero (k : ℕ) : F.roundIndex k 0 = 0 := by
  have hzero := F.roundIndex_units k 0
  rwa [F.units_zero, Nat.zero_mul] at hzero

theorem roundMagnitude_zero : F.roundMagnitude 0 = 0 := by
  rw [roundMagnitude, roundIndex_zero, overflow, Nat.zero_min]

theorem roundMagnitude_mono : Monotone F.roundMagnitude := fun _ _ hmn =>
  min_le_min_right _ (F.roundIndex_mono 0 hmn)

theorem roundMagnitude_units {m : ℕ} (hm : m ≤ F.infinity) : F.roundMagnitude (F.units m) = m := by
  have hself := F.roundIndex_units 0 m
  rw [Nat.pow_zero, Nat.mul_one] at hself
  rw [roundMagnitude, hself]
  exact Nat.min_eq_left hm

theorem key_round (x : ℤ) (zeroNegative : Bool) :
    (F.round 0 x zeroNegative).key = signed F.roundMagnitude x := by
  have hmagnitude : (F.round 0 x zeroNegative).magnitude = F.roundMagnitude x.natAbs := rfl
  unfold Datum.key
  rw [hmagnitude]
  rcases lt_trichotomy x 0 with hneg | rfl | hpos
  · have hsign : (F.round 0 x zeroNegative).negative = true := by
      rw [round, if_neg hneg.ne, decide_eq_true hneg]
    rw [hsign, if_pos rfl, signed_of_neg hneg]
  · rw [Int.natAbs_zero, roundMagnitude_zero, signed_zero]
    split
    · rfl
    · rfl
  · have hsign : (F.round 0 x zeroNegative).negative = false := by
      rw [round, if_neg hpos.ne', decide_eq_false (not_lt_of_gt hpos)]
    rw [hsign, if_neg Bool.false_ne_true, signed_of_nonneg F.roundMagnitude_zero hpos.le]

end Format

end FloatingPoint
