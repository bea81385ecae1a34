import Mathlib.Order.Interval.Finset.Defs
import Mathlib.Data.Int.Interval
import RangePricer.Arithmetic.Iteration
import RangePricer.FloatingPoint.Datum

/-!
# Adding a step again and again

On keys, adding a positive number is monotone and never goes down.  A loop that
adds it therefore leaves a bound behind unless some datum on the way absorbs it.
-/

namespace FloatingPoint

namespace Format

variable (F : Format)

/-- The key after `s` units have been added. -/
def advance (s j : ℤ) : ℤ := signed F.roundMagnitude (signed F.units j + s)

theorem advance_le_advance (s : ℤ) {i j : ℤ} (hij : i ≤ j) : F.advance s i ≤ F.advance s j :=
  signed_le_signed F.roundMagnitude_zero F.roundMagnitude_mono
    (Int.add_le_add_right (signed_le_signed F.units_zero F.units_strictMono.monotone hij) s)

/-- Nothing in range goes down. -/
theorem le_advance {s j : ℤ} (hs : 0 ≤ s) (hj : j.natAbs ≤ F.infinity) : j ≤ F.advance s j := by
  have hself : signed F.roundMagnitude (signed F.units j) = j := by
    refine signed_signed F.units_zero (fun hpos => ?_) F.roundMagnitude_zero
      (F.roundMagnitude_units hj)
    have hlt := F.units_strictMono hpos
    rwa [F.units_zero] at hlt
  calc j = signed F.roundMagnitude (signed F.units j) := hself.symm
    _ ≤ F.advance s j := signed_le_signed F.roundMagnitude_zero F.roundMagnitude_mono (by omega)

theorem advance_le_infinity (s j : ℤ) : F.advance s j ≤ F.infinity := by
  have hmost : F.roundMagnitude (signed F.units j + s).natAbs ≤ F.infinity := Nat.min_le_right _ _
  unfold advance
  rcases le_or_gt 0 (signed F.units j + s) with hx | hx
  · rw [signed_of_nonneg F.roundMagnitude_zero hx]
    omega
  · rw [signed_of_neg hx]
    omega

end Format

namespace Datum

variable {F : Format} {lo bound step x y : Datum F}

theorem add_of_isFinite (hx : x.isFinite = true) (hy : y.isFinite = true) :
    x.add y = F.round 0 (x.value + y.value) (x.negative && y.negative) := by
  rw [add, isNaN_of_isFinite hx, isNaN_of_isFinite hy, hx, hy]
  rfl

theorem key_add (hx : x.isFinite = true) (hy : y.isFinite = true) :
    (x.add y).key = F.advance y.value x.key := by
  rw [add_of_isFinite hx hy, F.key_round, x.value_eq]
  rfl

theorem not_isNaN_round (k : ℕ) (s : ℤ) (zeroNegative : Bool) :
    (F.round k s zeroNegative).isNaN = false :=
  decide_eq_false (Nat.not_lt_of_le (Nat.min_le_right _ _))

/-- A datum that is not a NaN and above minus infinity. -/
structure Above (x : Datum F) : Prop where
  not_isNaN : x.isNaN = false
  above : -F.infinity < x.key

theorem Above.of_isFinite (hfinite : x.isFinite = true) : x.Above :=
  ⟨isNaN_of_isFinite hfinite, ((isFinite_iff x).mp hfinite).1⟩

theorem Above.natAbs_key_le (hx : x.Above) : x.key.natAbs ≤ F.infinity := by
  rw [x.natAbs_key]
  exact Nat.le_of_not_lt (of_decide_eq_false hx.not_isNaN)

/-- One more step, infinity included. -/
theorem Above.add_step (hx : x.Above) (hstep : step.isFinite = true) (hpos : 0 ≤ step.value) :
    (x.add step).Above ∧ (x.add step).key = F.advance step.value x.key := by
  have hup := F.le_advance hpos hx.natAbs_key_le
  have habove := hx.above
  cases hfinite : x.isFinite with
  | true =>
      have hkey := key_add hfinite hstep
      refine ⟨⟨?_, by omega⟩, hkey⟩
      rw [add_of_isFinite hfinite hstep]
      exact not_isNaN_round _ _ _
  | false =>
      have hsame : x.add step = x := by
        rw [add, hx.not_isNaN, isNaN_of_isFinite hstep, hfinite, hstep]
        rfl
      have hlargest : ¬ x.key < F.infinity := fun hlt => by
        rw [(isFinite_iff x).mpr ⟨habove, hlt⟩] at hfinite
        cases hfinite
      have hmost := F.advance_le_infinity step.value x.key
      have hrange := hx.natAbs_key_le
      rw [hsame]
      exact ⟨hx, by omega⟩

theorem iterate_add_step (hlo : lo.isFinite = true) (hstep : step.isFinite = true)
    (hpos : 0 ≤ step.value) (n : ℕ) :
    ((fun x => x.add step)^[n] lo).Above ∧
      ((fun x => x.add step)^[n] lo).key = (F.advance step.value)^[n] lo.key := by
  induction n with
  | zero => exact ⟨.of_isFinite hlo, rfl⟩
  | succ n ih =>
      obtain ⟨habove, hkey⟩ := ih
      obtain ⟨hnext, hnextKey⟩ := habove.add_step hstep hpos
      rw [Function.iterate_succ_apply', Function.iterate_succ_apply']
      exact ⟨hnext, by rw [hnextKey, hkey]⟩

/-- The finite datum with a key. -/
theorem exists_of_key {j : ℤ} (hlow : -F.infinity < j) (hhigh : j < F.infinity) :
    ∃ z : Datum F, z.isFinite = true ∧ z.key = j := by
  have hfits : j.natAbs < 2 ^ (F.exponentBits + F.fractionBits) :=
    (show j.natAbs < F.infinity by omega).trans (F.infinity_add_lt (Nat.two_pow_pos _))
  refine ⟨⟨decide (j < 0), j.natAbs, hfits⟩, ?_, ?_⟩
  · exact decide_eq_true (by dsimp only; omega)
  · rw [key]
    dsimp only
    split
    · next hneg =>
        have hlt := of_decide_eq_true hneg
        omega
    · next hnonneg =>
        have hge : ¬ j < 0 := fun hneg => hnonneg (decide_eq_true hneg)
        omega

/-- Zero never absorbs a positive number. -/
theorem advance_zero_ne {s : ℤ} (hpos : 0 < s) : F.advance s 0 ≠ 0 := by
  have hone := F.roundMagnitude_units (m := 1) F.infinity_pos
  have hunit : F.units 1 = 1 := F.units_of_lt (Nat.one_lt_two_pow F.fractionBits_pos.ne')
  rw [hunit] at hone
  have hmono := F.roundMagnitude_mono (show 1 ≤ s.natAbs by omega)
  rw [Format.advance, signed_zero, Int.zero_add, signed_of_nonneg F.roundMagnitude_zero hpos.le]
  omega

/-- Where the key stays in place the datum does. -/
theorem add_eq_self_iff (hx : x.isFinite = true) (hstep : step.isFinite = true)
    (hpos : 0 < step.value) : x.add step = x ↔ F.advance step.value x.key = x.key := by
  have hkey := key_add hx hstep
  constructor
  · intro hfixed
    rw [← hkey, hfixed]
  · intro hfixed
    rw [hfixed] at hkey
    apply eq_of_key hkey
    intro hzero
    rw [hkey] at hzero
    rw [hzero] at hfixed
    exact advance_zero_ne hpos hfixed

/-- Adding the step leaves the bound behind exactly if nothing up to the bound
absorbs it. -/
theorem exists_iterate_gt_iff (hlo : lo.isFinite = true) (hstep : step.isFinite = true)
    (hbound : bound.isFinite = true) (hpos : 0 < step.value) :
    (∃ n, ((fun x => x.add step)^[n] lo).le bound = false) ↔
      ∀ z : Datum F, z.isFinite = true → lo.le z = true → z.le bound = true → z.add step ≠ z := by
  have htest (n : ℕ) : ((fun x => x.add step)^[n] lo).le bound = false ↔
      ¬ (F.advance step.value)^[n] lo.key ≤ bound.key := by
    obtain ⟨habove, hkey⟩ := iterate_add_step hlo hstep hpos.le n
    rw [← Bool.not_eq_true, le_iff habove.not_isNaN (isNaN_of_isFinite hbound), hkey]
  obtain ⟨hloLow, -⟩ := (isFinite_iff lo).mp hlo
  obtain ⟨-, hboundHigh⟩ := (isFinite_iff bound).mp hbound
  rw [exists_congr htest, Iteration.exists_iterate_not_le_iff
    (fun _ _ => F.advance_le_advance step.value)
    (fun z hloz hzbound => F.le_advance hpos.le (by omega)) (Set.finite_Icc _ _)]
  constructor
  · intro hmoves z hz hloz hzbound hfixed
    rw [le_iff (isNaN_of_isFinite hlo) (isNaN_of_isFinite hz)] at hloz
    rw [le_iff (isNaN_of_isFinite hz) (isNaN_of_isFinite hbound)] at hzbound
    exact hmoves z.key hloz hzbound ((add_eq_self_iff hz hstep hpos).mp hfixed)
  · intro hnone j hloj hjbound hfixed
    obtain ⟨z, hz, rfl⟩ := @exists_of_key F j (by omega) (by omega)
    apply hnone z hz
    · exact (le_iff (isNaN_of_isFinite hlo) (isNaN_of_isFinite hz)).mpr hloj
    · exact (le_iff (isNaN_of_isFinite hz) (isNaN_of_isFinite hbound)).mpr hjbound
    · exact (add_eq_self_iff hz hstep hpos).mpr hfixed

end Datum

end FloatingPoint
