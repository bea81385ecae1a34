import RangePricer.FloatingPoint.Accumulation

/-!
# Exact operations

An operation whose exact result is a finite datum returns it, whatever the
rounding.  Every finite number of binary32 is one of binary64, so that the two
formats agree for as long as the results are exact in the smaller one.
-/

namespace FloatingPoint

/-! ## A change of units -/

theorem scaled_neg_iff {a : ℤ} (k : ℕ) : a * 2 ^ k < 0 ↔ a < 0 := by
  have hscaled : a * 2 ^ k < 0 * 2 ^ k ↔ a < 0 := Int.mul_lt_mul_right (Int.pow_pos (by decide))
  rwa [Int.zero_mul] at hscaled

theorem scaled_pos_iff {a : ℤ} (k : ℕ) : 0 < a * 2 ^ k ↔ 0 < a := by
  have hscaled : 0 * 2 ^ k < a * 2 ^ k ↔ 0 < a := Int.mul_lt_mul_right (Int.pow_pos (by decide))
  rwa [Int.zero_mul] at hscaled

theorem scaled_eq_zero_iff {a : ℤ} (k : ℕ) : a * 2 ^ k = 0 ↔ a = 0 := by
  have hpos : (0 : ℤ) < 2 ^ k := Int.pow_pos (by decide)
  rw [Int.mul_eq_zero, or_iff_left hpos.ne']

namespace Datum

variable {F G : Format} {x y w : Datum F}

theorem value_le_iff (x y : Datum F) : x.value ≤ y.value ↔ x.key ≤ y.key := by
  rw [x.value_eq, y.value_eq]
  refine ⟨fun hvalue => ?_, signed_le_signed F.units_zero F.units_strictMono.monotone⟩
  by_contra hkey
  exact not_lt_of_ge hvalue (signed_lt_signed F.units_zero F.units_strictMono (not_le.mp hkey))

theorem value_pos_iff (x : Datum F) : 0 < x.value ↔ 0 < x.key := by
  have hzero : (zero : Datum F).value = 0 := by
    rw [value_eq]
    exact signed_zero _
  have hle := value_le_iff x zero
  rw [hzero] at hle
  exact lt_iff_lt_of_le_iff_le hle

theorem not_le_zero_iff (hx : x.isFinite = true) : x.le zero = false ↔ 0 < x.value := by
  have hzero : (zero : Datum F).isFinite = true := decide_eq_true F.infinity_pos
  rw [← Bool.not_eq_true, le_iff (isNaN_of_isFinite hx) (isNaN_of_isFinite hzero),
    x.value_pos_iff]
  exact Int.not_le

/-- What is lost on the largest number leaves every other finite. -/
theorem isFinite_add_tolerance (hy : y.isFinite = true) (hpos : 0 ≤ y.value)
    (hlost : F.advance y.value (F.infinity - 1) < F.infinity) (hx : x.isFinite = true) :
    (x.add y).isFinite = true := by
  obtain ⟨hlow, hhigh⟩ := (isFinite_iff x).mp hx
  rw [isFinite_iff, key_add hx hy]
  constructor
  · exact hlow.trans_le (F.le_advance hpos (by omega))
  · exact (F.advance_le_advance _ (Int.le_sub_one_of_lt hhigh)).trans_lt hlost

theorem natAbs_value (x : Datum F) : x.value.natAbs = F.units x.magnitude := by
  unfold value
  split
  · rw [Int.natAbs_neg, Int.natAbs_natCast]
  · rw [Int.natAbs_natCast]

/-- The sign of a datum other than the zeros shows in its value. -/
theorem negative_eq (hvalue : x.value ≠ 0) : x.negative = decide (x.value < 0) := by
  unfold value at hvalue ⊢
  cases hsign : x.negative with
  | false =>
      rw [if_neg Bool.false_ne_true]
      exact (decide_eq_false (by omega)).symm
  | true =>
      rw [hsign, if_pos rfl] at hvalue
      rw [if_pos rfl]
      exact (decide_eq_true (by omega)).symm

/-- Data with one sign and one value are equal. -/
theorem ext_value (hsign : x.negative = y.negative) (hvalue : x.value = y.value) : x = y := by
  have habs : F.units x.magnitude = F.units y.magnitude := by
    rw [← x.natAbs_value, ← y.natAbs_value, hvalue]
  have hmagnitude := F.units_strictMono.injective habs
  obtain ⟨xs, xm, hx⟩ := x
  obtain ⟨ys, ym, hy⟩ := y
  obtain rfl : xs = ys := hsign
  obtain rfl : xm = ym := hmagnitude
  rfl

/-! ## Rounding what is representable -/

theorem round_exact {k : ℕ} {s : ℤ} {b : Bool} (hw : w.isFinite = true)
    (hs : s = w.value * 2 ^ k) (hb : w.value = 0 → b = w.negative) : F.round k s b = w := by
  have habs : s.natAbs = F.units w.magnitude * 2 ^ k := by
    rw [hs, Int.natAbs_mul, w.natAbs_value, Int.natAbs_pow]
    rfl
  have hmagnitude : (F.round k s b).magnitude = w.magnitude := by
    change F.overflow (F.roundIndex k s.natAbs) = w.magnitude
    rw [habs, F.roundIndex_units, Format.overflow, Nat.min_eq_left (of_decide_eq_true hw).le]
  have hsign : (F.round k s b).negative = w.negative := by
    change (if s = 0 then b else decide (s < 0)) = _
    rw [hs]
    by_cases hzero : w.value = 0
    · rw [if_pos ((scaled_eq_zero_iff k).mpr hzero), hb hzero]
    · rw [if_neg fun hs => hzero ((scaled_eq_zero_iff k).mp hs), negative_eq hzero]
      exact decide_eq_decide.mpr (scaled_neg_iff k)
  apply ext_value hsign
  unfold value
  rw [hmagnitude, hsign]

/-- A finite value with any sign for zero. -/
theorem exists_signed (hw : w.isFinite = true) (b : Bool) :
    ∃ z : Datum F, z.isFinite = true ∧ z.value = w.value ∧ (z.value = 0 → b = z.negative) := by
  by_cases hzero : w.value = 0
  · refine ⟨⟨b, w.magnitude, w.fits⟩, hw, ?_, fun _ => rfl⟩
    have hunits : F.units w.magnitude = 0 := by
      rw [← w.natAbs_value, hzero, Int.natAbs_zero]
    unfold value
    simp [hunits]
  · exact ⟨w, hw, rfl, fun hw => absurd hw hzero⟩

/-- A sum that is some finite value is exact. -/
theorem add_exact (hx : x.isFinite = true) (hy : y.isFinite = true) (hw : w.isFinite = true)
    (hsum : w.value = x.value + y.value) :
    (x.add y).isFinite = true ∧ (x.add y).value = x.value + y.value := by
  obtain ⟨z, hz, hvalue, hsign⟩ := exists_signed hw (x.negative && y.negative)
  rw [add_of_isFinite hx hy, round_exact hz (by rw [hvalue, hsum, Int.pow_zero, Int.mul_one]) hsign]
  exact ⟨hz, hvalue.trans hsum⟩

theorem add_negative (hx : x.isFinite = true) (hy : y.isFinite = true) :
    (x.add y).negative = if x.value + y.value = 0 then x.negative && y.negative
      else decide (x.value + y.value < 0) := by
  rw [add_of_isFinite hx hy]
  rfl

/-! ## Conversion of what is representable -/

theorem narrow_of_isFinite (hx : x.isFinite = true) :
    x.narrow G = G.round (G.unitExponent - F.unitExponent).toNat x.value x.negative := by
  rw [narrow, isNaN_of_isFinite hx, hx]
  rfl

theorem key_round_nonpos {k : ℕ} {s : ℤ} {b : Bool} (hs : s ≤ 0) : (F.round k s b).key ≤ 0 := by
  rcases hs.lt_or_eq with hneg | rfl
  · have hsign : (F.round k s b).negative = true := by
      rw [Format.round, if_neg hneg.ne, decide_eq_true hneg]
    rw [key, hsign, if_pos rfl]
    omega
  · have hmagnitude : (F.round k 0 b).magnitude = 0 := by
      change F.overflow (F.roundIndex k 0) = 0
      rw [F.roundIndex_zero, Format.overflow, Nat.zero_min]
    have habs := (F.round k 0 b).natAbs_key
    omega

/-- Conversion moves nothing above zero. -/
theorem narrow_le_zero (hx : x.isFinite = true) (hle : x.le zero = true) :
    (x.narrow G).le zero = true := by
  have hvalue : x.value ≤ 0 := by
    apply Int.not_lt.mp
    intro hpos
    rw [← not_le_zero_iff hx, hle] at hpos
    cases hpos
  rw [narrow_of_isFinite hx, le_iff (not_isNaN_round _ _ _)
    (isNaN_of_isFinite (decide_eq_true G.infinity_pos))]
  exact key_round_nonpos hvalue

end Datum

namespace Format

variable (F : Format)

/-- A short significand is representable at any scale. -/
theorem exists_units {significand : ℕ} (hshort : significand < 2 ^ (F.fractionBits + 1)) (e : ℕ) :
    ∃ m, F.units m = significand * 2 ^ e := by
  induction e generalizing significand with
  | zero => exact ⟨significand, by rw [F.units_of_le hshort.le, Nat.pow_zero, Nat.mul_one]⟩
  | succ e ih =>
      rcases Nat.lt_or_ge significand (2 ^ F.fractionBits) with hsmall | hlarge
      · obtain ⟨m, hm⟩ := @ih (2 * significand) (by rw [Nat.pow_succ]; omega)
        exact ⟨m, by rw [hm, Nat.pow_succ, Nat.mul_comm 2, Nat.mul_assoc, Nat.mul_comm 2]⟩
      · exact ⟨_, F.units_binade (e + 1) hlarge hshort.le⟩

/-- Every magnitude has a short significand. -/
theorem exists_significand (m : ℕ) :
    ∃ significand < 2 ^ (F.fractionBits + 1), ∃ e, F.units m = significand * 2 ^ e := by
  rcases F.exists_binade m with hsmall | ⟨s, significand, hlow, hhigh, rfl⟩
  · have hshort := hsmall.trans_le (Nat.pow_le_pow_right (show 0 < 2 by decide) (Nat.le_succ _))
    exact ⟨m, hshort, 0, by rw [F.units_of_lt hsmall, Nat.pow_zero, Nat.mul_one]⟩
  · exact ⟨significand, hhigh, s, F.units_binade s hlow hhigh.le⟩

end Format

/-! ## One number in both formats -/

/-- The ratio of the units of the two formats, as a power of two. -/
def unitRatio : ℕ := (binary32.unitExponent - binary64.unitExponent).toNat

/-- The same number in both formats. -/
structure Same (x : Datum binary32) (y : Datum binary64) : Prop where
  left : x.isFinite = true
  right : y.isFinite = true
  negative : y.negative = x.negative
  value : y.value = x.value * 2 ^ unitRatio

/-- The largest numbers of binary32 are far below those of binary64. -/
theorem units_infinity_lt :
    binary32.units binary32.infinity * 2 ^ unitRatio < binary64.units binary64.infinity := by
  decide +kernel

/-- Every finite number of binary32 is one of binary64. -/
theorem exists_same {x : Datum binary32} (hx : x.isFinite = true) : ∃ y, Same x y := by
  obtain ⟨significand, hshort, e, hunits⟩ := binary32.exists_significand x.magnitude
  obtain ⟨m, hm⟩ := binary64.exists_units
    (hshort.trans_le (Nat.pow_le_pow_right (show 0 < 2 by decide) (show 23 + 1 ≤ 52 + 1 by decide)))
    (e + unitRatio)
  have hscaled : binary64.units m = binary32.units x.magnitude * 2 ^ unitRatio := by
    rw [hm, hunits, Nat.pow_add, Nat.mul_assoc]
  have hfinite : m < binary64.infinity := by
    refine binary64.units_strictMono.lt_iff_lt.mp (hscaled.trans_lt (lt_of_le_of_lt ?_
      units_infinity_lt))
    exact Nat.mul_le_mul_right _
      (binary32.units_strictMono.monotone (of_decide_eq_true hx).le)
  refine ⟨⟨x.negative, m, hfinite.trans (binary64.infinity_add_lt (Nat.two_pow_pos _))⟩, hx,
    decide_eq_true hfinite, rfl, ?_⟩
  unfold Datum.value
  rw [hscaled]
  split
  · rw [Int.neg_mul, Int.natCast_mul, Int.natCast_pow]
    rfl
  · rw [Int.natCast_mul, Int.natCast_pow]
    rfl

namespace Same

variable {x s : Datum binary32} {y t : Datum binary64}

/-- Narrowing gives back the number of binary32. -/
theorem narrow_eq (hsame : Same x y) : y.narrow binary32 = x := by
  rw [Datum.narrow_of_isFinite hsame.right]
  exact Datum.round_exact hsame.left hsame.value fun _ => hsame.negative

/-- Conversely, a number of binary64 that has the value of one of binary32. -/
theorem of_value {w : Datum binary32} (hy : y.isFinite = true) (hw : w.isFinite = true)
    (hvalue : y.value = w.value * 2 ^ unitRatio) : Same (y.narrow binary32) y := by
  obtain ⟨z, hz, hsame, hsign⟩ := Datum.exists_signed hw y.negative
  rw [← hsame] at hvalue
  have hnarrow : y.narrow binary32 = z := by
    rw [Datum.narrow_of_isFinite hy]
    exact Datum.round_exact hz hvalue hsign
  rw [hnarrow]
  refine ⟨hz, hy, ?_, hvalue⟩
  by_cases hzero : z.value = 0
  · exact hsign hzero
  · have hnonzero : y.value ≠ 0 := by
      rw [hvalue]
      exact fun hscaled => hzero ((scaled_eq_zero_iff _).mp hscaled)
    rw [Datum.negative_eq hnonzero, Datum.negative_eq hzero, hvalue]
    exact decide_eq_decide.mpr (scaled_neg_iff _)

/-- Sums that are exact in binary32 are the same in both formats. -/
theorem add (hsame : Same x y) (hstep : Same s t) {w : Datum binary32} (hw : w.isFinite = true)
    (hsum : w.value = x.value + s.value) :
    Same (x.add s) (y.add t) ∧ (y.add t).value = y.value + t.value := by
  obtain ⟨v, hv⟩ := exists_same hw
  have hsum' : v.value = y.value + t.value := by
    rw [hv.value, hsum, hsame.value, hstep.value, Int.add_mul]
  obtain ⟨hleft, hvalue⟩ := Datum.add_exact hsame.left hstep.left hw hsum
  obtain ⟨hright, hvalue'⟩ := Datum.add_exact hsame.right hstep.right hv.right hsum'
  refine ⟨⟨hleft, hright, ?_, ?_⟩, hvalue'⟩
  · rw [Datum.add_negative hsame.right hstep.right, Datum.add_negative hsame.left hstep.left,
      hsame.value, hstep.value, ← Int.add_mul, hsame.negative, hstep.negative]
    by_cases hzero : x.value + s.value = 0
    · rw [if_pos ((scaled_eq_zero_iff _).mpr hzero), if_pos hzero]
    · rw [if_neg fun hs => hzero ((scaled_eq_zero_iff _).mp hs), if_neg hzero]
      exact decide_eq_decide.mpr (scaled_neg_iff _)
  · rw [hvalue, hvalue', hsame.value, hstep.value, Int.add_mul]

end Same

end FloatingPoint
