import Mathlib.Algebra.Order.Ring.Nat
import RangePricer.FloatingPoint.Nearest

/-!
# Binary interchange formats

A finite number of a format is a sign and a magnitude pattern.  Every magnitude
is a multiple of the smallest one, so that values are natural numbers of such
units and the pattern is their index in increasing order.
-/

namespace FloatingPoint

/-- The widths of a format's fields. -/
structure Format where
  fractionBits : ℕ
  exponentBits : ℕ
  fractionBits_pos : 0 < fractionBits
  exponentBits_pos : 0 < exponentBits

def binary32 : Format := ⟨23, 8, by decide, by decide⟩

def binary64 : Format := ⟨52, 11, by decide, by decide⟩

namespace Format

variable (F : Format)

/-- The magnitude pattern of the infinities; the finite ones are below it, the
NaNs above. -/
def infinity : ℕ := (2 ^ F.exponentBits - 1) * 2 ^ F.fractionBits

/-- The exponent of the smallest positive number. -/
def unitExponent : ℤ := 2 - 2 ^ (F.exponentBits - 1) - F.fractionBits

/-- The magnitude with a pattern, in units, as if exponents had no bound. -/
def units (m : ℕ) : ℕ :=
  let e := m / 2 ^ F.fractionBits
  let f := m % 2 ^ F.fractionBits
  if e = 0 then f else (2 ^ F.fractionBits + f) * 2 ^ (e - 1)

/-- The pattern of the last magnitude that does not exceed `x` units. -/
def floorIndex (x : ℕ) : ℕ :=
  let s := Nat.log2 x - F.fractionBits
  s * 2 ^ F.fractionBits + x >>> s

/-- The pattern nearest to `x`, which counts units of `1 / 2 ^ k`. -/
def roundIndex (k x : ℕ) : ℕ :=
  nearestEven (fun m => F.units m * 2 ^ k) (F.floorIndex (x >>> k)) x

/-! ## Magnitudes in increasing order -/

theorem units_of_lt {m : ℕ} (hm : m < 2 ^ F.fractionBits) : F.units m = m := by
  simp only [units, Nat.div_eq_of_lt hm, Nat.mod_eq_of_lt hm, if_true]

@[simp]
theorem units_zero : F.units 0 = 0 := F.units_of_lt (Nat.two_pow_pos _)

/-- A binade: significands of one exponent, the end of it included. -/
theorem units_binade (s : ℕ) {significand : ℕ} (hlow : 2 ^ F.fractionBits ≤ significand)
    (hhigh : significand ≤ 2 ^ (F.fractionBits + 1)) :
    F.units (s * 2 ^ F.fractionBits + significand) = significand * 2 ^ s := by
  have hpos := Nat.two_pow_pos F.fractionBits
  rw [Nat.pow_succ] at hhigh
  have hshift (d f : ℕ) (hf : f < 2 ^ F.fractionBits) :
      (s * 2 ^ F.fractionBits + (d * 2 ^ F.fractionBits + f)) / 2 ^ F.fractionBits = s + d ∧
        (s * 2 ^ F.fractionBits + (d * 2 ^ F.fractionBits + f)) % 2 ^ F.fractionBits = f := by
    rw [← Nat.add_assoc, ← Nat.add_mul, Nat.add_comm _ f, Nat.add_mul_div_right _ _ hpos,
      Nat.add_mul_mod_self_right, Nat.div_eq_of_lt hf, Nat.mod_eq_of_lt hf, Nat.zero_add]
    exact ⟨rfl, rfl⟩
  rcases Nat.lt_or_eq_of_le hhigh with hinside | hend
  · obtain ⟨f, hf, rfl⟩ : ∃ f < 2 ^ F.fractionBits, significand = 2 ^ F.fractionBits + f :=
      ⟨significand - 2 ^ F.fractionBits, by omega, by omega⟩
    obtain ⟨hdiv, hmod⟩ := hshift 1 f hf
    rw [Nat.one_mul] at hdiv hmod
    simp only [units, hdiv, hmod, Nat.succ_ne_zero, if_false, Nat.add_sub_cancel]
  · obtain ⟨hdiv, hmod⟩ := hshift 2 0 hpos
    rw [Nat.add_zero, Nat.mul_comm 2, ← hend] at hdiv hmod
    simp only [units, hdiv, hmod, Nat.succ_ne_zero, if_false, Nat.add_zero]
    rw [hend, show s + 2 - 1 = s + 1 from rfl, Nat.pow_succ, Nat.mul_assoc, Nat.mul_comm 2]

/-- Every pattern is below the first binade or inside one. -/
theorem exists_binade (m : ℕ) : m < 2 ^ F.fractionBits ∨
    ∃ s significand, 2 ^ F.fractionBits ≤ significand ∧ significand < 2 ^ (F.fractionBits + 1) ∧
      m = s * 2 ^ F.fractionBits + significand := by
  have hpos := Nat.two_pow_pos F.fractionBits
  rcases Nat.lt_or_ge m (2 ^ F.fractionBits) with hsmall | hlarge
  · exact .inl hsmall
  · have hdiv := Nat.div_add_mod m (2 ^ F.fractionBits)
    have hmod := Nat.mod_lt m hpos
    obtain ⟨s, hs⟩ : ∃ s, m / 2 ^ F.fractionBits = s + 1 :=
      ⟨m / 2 ^ F.fractionBits - 1, by
        have hone := Nat.div_pos hlarge hpos
        omega⟩
    refine .inr ⟨s, 2 ^ F.fractionBits + m % 2 ^ F.fractionBits, Nat.le_add_right _ _, ?_, ?_⟩
    · rw [Nat.pow_succ]
      omega
    · rw [hs, Nat.mul_comm, Nat.add_mul] at hdiv
      omega

theorem units_of_le {m : ℕ} (hm : m ≤ 2 ^ (F.fractionBits + 1)) : F.units m = m := by
  rcases Nat.lt_or_ge m (2 ^ F.fractionBits) with hsmall | hlarge
  · exact F.units_of_lt hsmall
  · have hfirst := F.units_binade 0 hlarge hm
    rwa [Nat.zero_mul, Nat.zero_add, Nat.pow_zero, Nat.mul_one] at hfirst

theorem units_strictMono : StrictMono F.units := by
  apply strictMono_nat_of_lt_succ
  intro m
  rcases F.exists_binade m with hsmall | ⟨s, significand, hlow, hhigh, rfl⟩
  · have hlarger : m + 1 ≤ 2 ^ (F.fractionBits + 1) :=
      hsmall.trans_le (Nat.pow_le_pow_right (by decide) (Nat.le_succ _))
    rw [F.units_of_lt hsmall, F.units_of_le hlarger]
    exact Nat.lt_succ_self m
  · rw [Nat.add_assoc, F.units_binade s hlow hhigh.le,
      F.units_binade s (Nat.le_succ_of_le hlow) (Nat.succ_le_of_lt hhigh)]
    exact Nat.mul_lt_mul_of_pos_right (Nat.lt_succ_self _) (Nat.two_pow_pos s)

/-! ## Rounding magnitudes -/

theorem floorIndex_bracket (x : ℕ) : Bracket F.units (F.floorIndex x) x := by
  rcases Nat.lt_or_ge F.fractionBits (Nat.log2 x) with hlarge | hsmall
  · have hzero : x ≠ 0 := by
      rintro rfl
      exact absurd hlarge (Nat.not_lt_zero _)
    obtain ⟨s, hs⟩ : ∃ s, Nat.log2 x = F.fractionBits + s :=
      ⟨Nat.log2 x - F.fractionBits, by omega⟩
    have hfloor : F.floorIndex x = s * 2 ^ F.fractionBits + x / 2 ^ s := by
      rw [floorIndex, hs, Nat.add_sub_cancel_left, Nat.shiftRight_eq_div_pow]
    have hlow : 2 ^ F.fractionBits ≤ x / 2 ^ s := by
      rw [Nat.le_div_iff_mul_le (Nat.two_pow_pos s), ← Nat.pow_add, ← hs]
      exact Nat.log2_self_le hzero
    have hhigh : x / 2 ^ s < 2 ^ (F.fractionBits + 1) := by
      rw [Nat.div_lt_iff_lt_mul (Nat.two_pow_pos s), ← Nat.pow_add, Nat.add_right_comm, ← hs]
      exact Nat.lt_log2_self
    constructor
    · rw [hfloor, F.units_binade s hlow hhigh.le]
      exact Nat.div_mul_le_self x _
    · rw [hfloor, Nat.add_assoc,
        F.units_binade s (Nat.le_succ_of_le hlow) (Nat.succ_le_of_lt hhigh)]
      exact Nat.lt_mul_of_div_lt (Nat.lt_succ_self _) (Nat.two_pow_pos s)
  · have hlt : x < 2 ^ (F.fractionBits + 1) :=
      Nat.lt_log2_self.trans_le (Nat.pow_le_pow_right (by decide) (Nat.succ_le_succ hsmall))
    have hfloor : F.floorIndex x = x := by
      rw [floorIndex, Nat.sub_eq_zero_of_le hsmall, Nat.zero_mul, Nat.zero_add,
        Nat.shiftRight_zero]
    constructor
    · rw [hfloor, F.units_of_le hlt.le]
    · rw [hfloor, F.units_of_le hlt]
      exact Nat.lt_succ_self x

theorem scaledUnits_strictMono (k : ℕ) : StrictMono fun m => F.units m * 2 ^ k := by
  intro m n hlt
  exact Nat.mul_lt_mul_of_pos_right (F.units_strictMono hlt) (Nat.two_pow_pos k)

theorem floorIndex_bracket_scaled (k x : ℕ) :
    Bracket (fun m => F.units m * 2 ^ k) (F.floorIndex (x >>> k)) x := by
  obtain ⟨hlower, hupper⟩ := F.floorIndex_bracket (x >>> k)
  rw [Nat.shiftRight_eq_div_pow] at hlower hupper ⊢
  constructor
  · exact (Nat.le_div_iff_mul_le (Nat.two_pow_pos k)).mp hlower
  · exact Nat.lt_mul_of_div_lt hupper (Nat.two_pow_pos k)

theorem roundIndex_mono (k : ℕ) : Monotone (F.roundIndex k) := by
  intro x y hxy
  exact nearestEven_mono (F.scaledUnits_strictMono k) (F.floorIndex_bracket_scaled k x)
    (F.floorIndex_bracket_scaled k y) hxy

/-- What is representable is not changed. -/
@[simp]
theorem roundIndex_units (k m : ℕ) : F.roundIndex k (F.units m * 2 ^ k) = m := by
  have hmono := F.scaledUnits_strictMono k
  have hself : Bracket (fun m => F.units m * 2 ^ k) m (F.units m * 2 ^ k) :=
    ⟨le_rfl, hmono (Nat.lt_succ_self m)⟩
  have hfloor : F.floorIndex ((F.units m * 2 ^ k) >>> k) = m := by
    have hbracket := F.floorIndex_bracket_scaled k (F.units m * 2 ^ k)
    exact le_antisymm (hbracket.le hself hmono le_rfl) (hself.le hbracket hmono le_rfl)
  rw [roundIndex, hfloor]
  exact nearestEven_self hmono

end Format

end FloatingPoint
