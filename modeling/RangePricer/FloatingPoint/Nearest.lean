import Mathlib.Algebra.Order.Monoid.Unbundled.Basic
import Mathlib.Algebra.Order.Monoid.Defs
import Mathlib.Data.Int.Order.Basic
import Mathlib.Order.Monotone.Basic

/-!
# Rounding to nearest even

The representable values are listed by a strictly increasing sequence, and a
number is rounded to the index of one of its two neighbours.  Which of them is
nearer shows in a comparison of sums, so that an ordered monoid is enough.
-/

namespace FloatingPoint

/-! ## Unsigned rounding -/

section

variable {K : Type*} [LinearOrder K]

/-- `v m` is the last value that does not exceed `x`. -/
structure Bracket (v : ℕ → K) (m : ℕ) (x : K) : Prop where
  lower : v m ≤ x
  upper : x < v (m + 1)

variable {v : ℕ → K} {m n : ℕ} {x y : K}

theorem Bracket.le (hx : Bracket v m x) (hy : Bracket v n y) (hv : StrictMono v) (hxy : x ≤ y) :
    m ≤ n := by
  by_contra hlt
  have hnext : v (n + 1) ≤ v m := hv.monotone (Nat.lt_of_not_le hlt)
  exact absurd (hnext.trans (hx.lower.trans hxy)) (not_le_of_gt hy.upper)

variable [AddCommMonoid K]

/-- Of the neighbours `v m` and `v (m + 1)` the nearer one, in the middle the one
with the even index. -/
def nearestEven (v : ℕ → K) (m : ℕ) (x : K) : ℕ :=
  if x + x < v m + v (m + 1) then m
  else if v m + v (m + 1) < x + x then m + 1
  else if m % 2 = 0 then m else m + 1

theorem nearestEven_eq_or (v : ℕ → K) (m : ℕ) (x : K) :
    nearestEven v m x = m ∨ nearestEven v m x = m + 1 := by
  unfold nearestEven
  split
  · exact .inl rfl
  · split
    · exact .inr rfl
    · split
      · exact .inl rfl
      · exact .inr rfl

variable [IsOrderedCancelAddMonoid K]

/-- A representable value rounds to itself. -/
theorem nearestEven_self (hv : StrictMono v) : nearestEven v m (v m) = m := by
  have hlt : v m + v m < v m + v (m + 1) := add_lt_add_right (hv (Nat.lt_succ_self m)) _
  rw [nearestEven, if_pos hlt]

/-- Rounding is monotone. -/
theorem nearestEven_mono (hv : StrictMono v) (hx : Bracket v m x) (hy : Bracket v n y)
    (hxy : x ≤ y) : nearestEven v m x ≤ nearestEven v n y := by
  rcases Nat.lt_or_eq_of_le (hx.le hy hv hxy) with hlt | rfl
  · rcases nearestEven_eq_or v m x with hx | hx <;> rcases nearestEven_eq_or v n y with hy | hy
    all_goals omega
  · have hsum : x + x ≤ y + y := add_le_add hxy hxy
    unfold nearestEven
    split
    · split
      · exact le_rfl
      · split
        · exact Nat.le_succ m
        · split
          · exact le_rfl
          · exact Nat.le_succ m
    · next hx =>
        rw [if_neg fun hy => hx (hsum.trans_lt hy)]
        split
        · next hx' =>
            rw [if_pos (hx'.trans_le hsum)]
        · split
          · split
            · exact Nat.le_succ m
            · exact le_rfl
          · split
            · exact le_rfl
            · exact le_rfl

end

/-! ## Signs -/

/-- Extend a function of magnitudes to signed numbers. -/
def signed (g : ℕ → ℕ) (x : ℤ) : ℤ := x.sign * g x.natAbs

section

variable {g h : ℕ → ℕ} {x y : ℤ}

@[simp]
theorem signed_zero (g : ℕ → ℕ) : signed g 0 = 0 := by
  rw [signed, Int.sign_zero, Int.zero_mul]

theorem signed_of_nonneg (hzero : g 0 = 0) (hx : 0 ≤ x) : signed g x = g x.natAbs := by
  rcases hx.eq_or_lt with rfl | hpos
  · rw [signed, Int.sign_zero, Int.natAbs_zero, hzero]
    rfl
  · rw [signed, Int.sign_eq_one_of_pos hpos, Int.one_mul]

theorem signed_of_neg (hx : x < 0) : signed g x = -g x.natAbs := by
  rw [signed, Int.sign_eq_neg_one_of_neg hx, Int.neg_one_mul]

theorem signed_le_signed (hzero : g 0 = 0) (hg : Monotone g) (hxy : x ≤ y) :
    signed g x ≤ signed g y := by
  rcases le_or_gt 0 x with hx | hx
  · rw [signed_of_nonneg hzero hx, signed_of_nonneg hzero (hx.trans hxy)]
    exact Int.ofNat_le.mpr (hg (by omega))
  · rw [signed_of_neg hx]
    rcases le_or_gt 0 y with hy | hy
    · rw [signed_of_nonneg hzero hy]
      omega
    · rw [signed_of_neg hy]
      exact Int.neg_le_neg (Int.ofNat_le.mpr (hg (by omega)))

theorem signed_lt_signed (hzero : g 0 = 0) (hg : StrictMono g) (hxy : x < y) :
    signed g x < signed g y := by
  rcases le_or_gt 0 x with hx | hx
  · rw [signed_of_nonneg hzero hx, signed_of_nonneg hzero (hx.trans hxy.le)]
    exact Int.ofNat_lt.mpr (hg (by omega))
  · rw [signed_of_neg hx]
    rcases le_or_gt 0 y with hy | hy
    · rw [signed_of_nonneg hzero hy]
      have hpos := hg (show 0 < x.natAbs by omega)
      omega
    · rw [signed_of_neg hy]
      exact Int.neg_lt_neg (Int.ofNat_lt.mpr (hg (by omega)))

/-- Undoing a function of the magnitude undoes its extension. -/
theorem signed_signed (hzero : g 0 = 0) (hpos : 0 < x.natAbs → 0 < g x.natAbs) (hh : h 0 = 0)
    (hinv : h (g x.natAbs) = x.natAbs) : signed h (signed g x) = x := by
  rcases le_or_gt 0 x with hx | hx
  · rw [signed_of_nonneg hzero hx, signed_of_nonneg hh (Int.natCast_nonneg _), Int.natAbs_natCast,
      hinv]
    omega
  · have hnegative := hpos (by omega)
    rw [signed_of_neg hx, signed_of_neg (by omega), Int.natAbs_neg, Int.natAbs_natCast, hinv]
    omega

end

end FloatingPoint
