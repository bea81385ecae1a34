import Mathlib.Tactic.IntervalCases
import RangePricer.Client.Grid
import RangePricer.FloatingPoint.Exact

/-!
# The values of one axis

Both clients step from the lower bound to the upper one, the C++ client in
binary32 and the Python client in binary64, which packs its values into binary32
when it writes them.  Either loop ends exactly if no number on the way absorbs
the step.  The two lists agree for as long as the points of the axis are numbers
of binary32, and need not go on agreeing.
-/

namespace RangePricer

open FloatingPoint

/-! ## The loop in one format -/

section

variable {F : Format}

/-- `grid_values`, with the tolerance `epsilon` on the upper bound. -/
def gridValues (epsilon : Datum F) (fuel : ℕ) (lo hi step : Datum F) : Option (List (Datum F)) :=
  if step.le Datum.zero then some [lo]
  else Iteration.collect (fun x => x.le (hi.add epsilon)) (fun x => x.add step) fuel lo

/-- Finite bounds and a finite positive step. -/
structure GridRange (F : Format) where
  lo : Datum F
  hi : Datum F
  step : Datum F
  lo_finite : lo.isFinite = true
  hi_finite : hi.isFinite = true
  step_finite : step.isFinite = true
  step_pos : step.le Datum.zero = false

/-- No finite number up to the bound absorbs the step. -/
def GridRange.Advances (epsilon : Datum F) (range : GridRange F) : Prop :=
  ∀ z : Datum F, z.isFinite = true → range.lo.le z = true →
    z.le (range.hi.add epsilon) = true → z.add range.step ≠ z

/-- The loop ends exactly if the step is never absorbed. -/
theorem GridRange.ends_iff {epsilon : Datum F} (range : GridRange F)
    (hbound : (range.hi.add epsilon).isFinite = true) :
    (∃ fuel values, gridValues epsilon fuel range.lo range.hi range.step = some values) ↔
      range.Advances epsilon := by
  have hpos := (Datum.not_le_zero_iff range.step_finite).mp range.step_pos
  simp only [gridValues, range.step_pos, if_neg Bool.false_ne_true]
  rw [Iteration.exists_collect_iff]
  exact Datum.exists_iterate_gt_iff range.lo_finite range.step_finite hbound hpos

end

/-! ## The two clients -/

/-- `1e-6f`. -/
def clientEpsilon : Datum binary32 := binary32.positive 0x358637bd

/-- `1e-6`. -/
def pyEpsilon : Datum binary64 := binary64.positive 0x3eb0c6f7a0b5ed8d

/-- `grid_values` of the C++ client. -/
def clientGridValues : ℕ → (lo hi step : Datum binary32) → Option (List (Datum binary32)) :=
  gridValues clientEpsilon

/-- `grid_values` of the Python client. -/
def pyGridValues : ℕ → (lo hi step : Datum binary64) → Option (List (Datum binary64)) :=
  gridValues pyEpsilon

theorem isFinite_clientBound {hi : Datum binary32} (hhi : hi.isFinite = true) :
    (hi.add clientEpsilon).isFinite = true := by
  have hlost :
      binary32.advance clientEpsilon.value (binary32.infinity - 1) < binary32.infinity := by
    decide +kernel
  exact Datum.isFinite_add_tolerance (by decide) (by decide +kernel) hlost hhi

theorem isFinite_pyBound {hi : Datum binary64} (hhi : hi.isFinite = true) :
    (hi.add pyEpsilon).isFinite = true := by
  have hlost : binary64.advance pyEpsilon.value (binary64.infinity - 1) < binary64.infinity := by
    decide +kernel
  exact Datum.isFinite_add_tolerance (by decide) (by decide +kernel) hlost hhi

/-- Each client leaves its loop exactly if no number on the way absorbs the step. -/
theorem grid_values_ends_iff (client : GridRange binary32) (py : GridRange binary64) :
    ((∃ fuel values, clientGridValues fuel client.lo client.hi client.step = some values) ↔
        client.Advances clientEpsilon) ∧
      ((∃ fuel values, pyGridValues fuel py.lo py.hi py.step = some values) ↔
        py.Advances pyEpsilon) := by
  constructor
  · exact client.ends_iff (isFinite_clientBound client.hi_finite)
  · exact py.ends_iff (isFinite_pyBound py.hi_finite)

/-- From the first number whose successors are two apart. -/
def clientStuck : GridRange binary32 where
  lo := binary32.positive 0x4b800000
  hi := binary32.positive 0x4b800000
  step := binary32.positive 0x3f800000
  lo_finite := by decide
  hi_finite := by decide
  step_finite := by decide
  step_pos := by decide

def pyStuck : GridRange binary64 where
  lo := binary64.positive 0x4340000000000000
  hi := binary64.positive 0x4340000000000000
  step := binary64.positive 0x3ff0000000000000
  lo_finite := by decide
  hi_finite := by decide
  step_finite := by decide
  step_pos := by decide

theorem not_grid_values_ends :
    (¬ ∀ client : GridRange binary32, ∃ fuel values,
        clientGridValues fuel client.lo client.hi client.step = some values) ∧
      ¬ ∀ py : GridRange binary64, ∃ fuel values,
        pyGridValues fuel py.lo py.hi py.step = some values := by
  constructor
  · intro hends
    have hadvances := (clientStuck.ends_iff (isFinite_clientBound clientStuck.hi_finite)).mp
      (hends clientStuck)
    exact hadvances clientStuck.lo (by decide) (by decide) (by decide +kernel) (by decide +kernel)
  · intro hends
    have hadvances := (pyStuck.ends_iff (isFinite_pyBound pyStuck.hi_finite)).mp (hends pyStuck)
    exact hadvances pyStuck.lo (by decide) (by decide) (by decide +kernel) (by decide +kernel)

/-! ## The lists on the wire -/

/-- The bit pattern of a datum. -/
def wire (x : Datum binary32) : Binary32 :=
  ⟨UInt32.ofNat (cond x.negative (2 ^ 31) 0 + x.magnitude)⟩

/-- `struct.pack('<f', y)`: a finite number that is out of range is an error. -/
def packFloat32 (y : Datum binary64) : Option Binary32 :=
  let x := y.narrow binary32
  if y.isFinite && !x.isFinite then none else some (wire x)

/-- Bounds and step as the user gives them. -/
structure Axis where
  lo : Datum binary64
  hi : Datum binary64
  step : Datum binary64

namespace Axis

structure IsFinite (axis : Axis) : Prop where
  lo : axis.lo.isFinite = true
  hi : axis.hi.isFinite = true
  step : axis.step.isFinite = true

/-- The flags are narrowed when they are passed as `float`. -/
def clientValues (axis : Axis) (fuel : ℕ) : Option (List (Datum binary32)) :=
  clientGridValues fuel (axis.lo.narrow binary32) (axis.hi.narrow binary32)
    (axis.step.narrow binary32)

def pyValues (axis : Axis) (fuel : ℕ) : Option (List (Datum binary64)) :=
  pyGridValues fuel axis.lo axis.hi axis.step

/-- Both loops end, with the values `xs` and `ys`. -/
structure Runs (axis : Axis) (xs : List (Datum binary32)) (ys : List (Datum binary64)) :
    Prop where
  client : ∃ fuel, axis.clientValues fuel = some xs
  py : ∃ fuel, axis.pyValues fuel = some ys

/-- A number of binary64, given by its value, that is one of binary32. -/
def Representable (value : ℤ) : Prop :=
  ∃ w : Datum binary32, w.isFinite = true ∧ value = w.value * 2 ^ unitRatio

/-- The point `lo + k * step`, without rounding. -/
def point (axis : Axis) (k : ℕ) : ℤ := axis.lo.value + k * axis.step.value

/-- `hi + 1e-6f` of the C++ client, in the units of binary64. -/
def clientBound (axis : Axis) : ℤ :=
  ((axis.hi.narrow binary32).add clientEpsilon).value * 2 ^ unitRatio

/-- `hi + 1e-6` of the Python client. -/
def pyBound (axis : Axis) : ℤ := (axis.hi.add pyEpsilon).value

/-- The points up to `k` are numbers of binary32 and on one side of both bounds. -/
structure Exact (axis : Axis) (k : ℕ) : Prop where
  step_pos : axis.step.le Datum.zero = false
  hi_narrow : (axis.hi.narrow binary32).isFinite = true
  step : Representable axis.step.value
  point : ∀ j ≤ k, Representable (axis.point j)
  bounds : ∀ j ≤ k, axis.point j ≤ axis.clientBound ↔ axis.point j ≤ axis.pyBound

/-- No rounding shows up to `k`: exact points, or a step that is not positive
and a lower bound in range. -/
def Plain (axis : Axis) (k : ℕ) : Prop :=
  axis.Exact k ∨ axis.step.le Datum.zero = true ∧ (axis.lo.narrow binary32).isFinite = true

variable {axis : Axis} {xs : List (Datum binary32)} {ys : List (Datum binary64)} {k : ℕ}

/-! ## Exact points -/

namespace Exact

theorem mono {j : ℕ} (hexact : axis.Exact k) (hj : j ≤ k) : axis.Exact j where
  step_pos := hexact.step_pos
  hi_narrow := hexact.hi_narrow
  step := hexact.step
  point i hi := hexact.point i (hi.trans hj)
  bounds i hi := hexact.bounds i (hi.trans hj)

theorem same_step (hexact : axis.Exact k) (hfinite : axis.IsFinite) :
    Same (axis.step.narrow binary32) axis.step := by
  obtain ⟨w, hw, hvalue⟩ := hexact.step
  exact Same.of_value hfinite.step hw hvalue

/-- The two loops hold the same number, which is the point. -/
theorem same_iterate (hexact : axis.Exact k) (hfinite : axis.IsFinite) :
    Same ((fun x => x.add (axis.step.narrow binary32))^[k] (axis.lo.narrow binary32))
        ((fun y => y.add axis.step)^[k] axis.lo) ∧
      ((fun y => y.add axis.step)^[k] axis.lo).value = axis.point k := by
  have hstep := hexact.same_step hfinite
  induction k with
  | zero =>
      obtain ⟨w, hw, hvalue⟩ := hexact.point 0 le_rfl
      have hlo : axis.point 0 = axis.lo.value := by
        rw [Axis.point, Int.natCast_zero, Int.zero_mul, Int.add_zero]
      rw [hlo] at hvalue
      exact ⟨Same.of_value hfinite.lo hw hvalue, hlo.symm⟩
  | succ k ih =>
      obtain ⟨hsame, hvalue⟩ := ih (hexact.mono (Nat.le_succ k))
      obtain ⟨w, hw, hpoint⟩ := hexact.point (k + 1) le_rfl
      have hnext : axis.point (k + 1) = axis.point k + axis.step.value := by
        rw [Axis.point, Axis.point, Int.natCast_succ, Int.add_mul, Int.one_mul, Int.add_assoc]
      rw [hnext, ← hvalue, hsame.value, hstep.value, ← Int.add_mul] at hpoint
      have hscale : (0 : ℤ) < 2 ^ unitRatio := Int.pow_pos (by decide)
      have hrepresents := Int.eq_of_mul_eq_mul_right hscale.ne' hpoint
      obtain ⟨hadd, hsum⟩ := hsame.add hstep hw hrepresents.symm
      rw [Function.iterate_succ_apply', Function.iterate_succ_apply']
      exact ⟨hadd, by rw [hsum, hvalue, hnext]⟩

/-- The two loops test the point, and against bounds that agree on it. -/
theorem tests_eq (hexact : axis.Exact k) (hfinite : axis.IsFinite) :
    ((fun x => x.add (axis.step.narrow binary32))^[k] (axis.lo.narrow binary32)).le
        ((axis.hi.narrow binary32).add clientEpsilon) =
      ((fun y => y.add axis.step)^[k] axis.lo).le (axis.hi.add pyEpsilon) := by
  obtain ⟨hsame, hvalue⟩ := hexact.same_iterate hfinite
  have hclient := isFinite_clientBound hexact.hi_narrow
  have hpy := isFinite_pyBound hfinite.hi
  have hscale : (0 : ℤ) < 2 ^ unitRatio := Int.pow_pos (by decide)
  rw [Bool.eq_iff_iff, Datum.le_iff (Datum.isNaN_of_isFinite hsame.left)
    (Datum.isNaN_of_isFinite hclient), Datum.le_iff (Datum.isNaN_of_isFinite hsame.right)
    (Datum.isNaN_of_isFinite hpy), ← Datum.value_le_iff, ← Datum.value_le_iff, hvalue,
    ← Int.mul_le_mul_right hscale, ← hsame.value, hvalue]
  exact hexact.bounds k le_rfl

/-- With a positive step in both formats the values are collected by the loops. -/
theorem collects (hexact : axis.Exact k) (hfinite : axis.IsFinite) (hruns : axis.Runs xs ys) :
    Iteration.Collects (fun x => x.le ((axis.hi.narrow binary32).add clientEpsilon))
        (fun x => x.add (axis.step.narrow binary32)) (axis.lo.narrow binary32) xs ∧
      Iteration.Collects (fun y => y.le (axis.hi.add pyEpsilon)) (fun y => y.add axis.step)
        axis.lo ys := by
  obtain ⟨⟨fuel, hxs⟩, fuel', hys⟩ := hruns
  have hsame := hexact.same_step hfinite
  have hstep : (axis.step.narrow binary32).le Datum.zero = false := by
    have hpos := (Datum.not_le_zero_iff hfinite.step).mp hexact.step_pos
    rw [hsame.value, scaled_pos_iff] at hpos
    exact (Datum.not_le_zero_iff hsame.left).mpr hpos
  rw [clientValues, clientGridValues, gridValues, hstep, if_neg Bool.false_ne_true] at hxs
  rw [pyValues, pyGridValues, gridValues, hexact.step_pos, if_neg Bool.false_ne_true] at hys
  exact ⟨Iteration.collects_of_collect hxs, Iteration.collects_of_collect hys⟩

/-- Both lists go on past an index, or neither. -/
theorem lt_length_iff (hexact : axis.Exact k) (hfinite : axis.IsFinite)
    (hruns : axis.Runs xs ys) : k < xs.length ↔ k < ys.length := by
  obtain ⟨hclient, hpy⟩ := hexact.collects hfinite hruns
  rw [hclient.lt_length_iff, hpy.lt_length_iff]
  refine forall₂_congr fun j hj => ?_
  rw [(hexact.mono hj).tests_eq hfinite]

end Exact

/-! ## Values on the wire -/

theorem packFloat32_eq {x : Datum binary32} {y : Datum binary64} (hsame : Same x y) :
    packFloat32 y = some (wire x) := by
  simp [packFloat32, hsame.narrow_eq, hsame.left]

theorem mapM_packFloat32 {x : ℕ → Datum binary32} {y : ℕ → Datum binary64} {ks : List ℕ}
    (hsame : ∀ k ∈ ks, Same (x k) (y k)) :
    (ks.map y).mapM packFloat32 = some ((ks.map x).map wire) := by
  induction ks with
  | nil => rfl
  | cons k rest ih =>
      rw [List.map_cons, List.mapM_cons, packFloat32_eq (hsame k List.mem_cons_self),
        ih fun other hother => hsame other (List.mem_cons_of_mem k hother)]
      rfl

/-- At an index up to which the points are exact both clients send the point, or
neither sends anything. -/
theorem Exact.getElem? (hexact : axis.Exact k) (hfinite : axis.IsFinite)
    (hruns : axis.Runs xs ys) : xs[k]?.map wire = ys[k]?.bind packFloat32 := by
  obtain ⟨hclient, hpy⟩ := hexact.collects hfinite hruns
  have hboth := hexact.lt_length_iff hfinite hruns
  rcases Nat.lt_or_ge k xs.length with hk | hend
  · rw [hclient.getElem? hk, hpy.getElem? (hboth.mp hk), Option.map_some, Option.bind_some,
      packFloat32_eq (hexact.same_iterate hfinite).1]
  · have hend' : ys.length ≤ k := Nat.le_of_not_lt fun hk => absurd (hboth.mpr hk) hend.not_gt
    rw [List.getElem?_eq_none hend, List.getElem?_eq_none hend']
    rfl

/-- If they are exact up to the end the lists are the same. -/
theorem Exact.mapM_eq (hexact : axis.Exact xs.length) (hfinite : axis.IsFinite)
    (hruns : axis.Runs xs ys) : ys.mapM packFloat32 = some (xs.map wire) := by
  obtain ⟨hclient, hpy⟩ := hexact.collects hfinite hruns
  have hlength : ys.length = xs.length := by
    refine le_antisymm (Nat.le_of_not_lt fun hmore => ?_) (Nat.le_of_not_lt fun hless => ?_)
    · exact absurd ((hexact.lt_length_iff hfinite hruns).mpr hmore) (Nat.lt_irrefl _)
    · have hlast := ((hexact.mono hless.le).lt_length_iff hfinite hruns).mp hless
      exact absurd hlast (Nat.lt_irrefl _)
  rw [hpy.eq, hlength, hclient.eq, List.length_map, List.length_range]
  apply mapM_packFloat32
  intro k hk
  exact ((hexact.mono (List.mem_range.mp hk).le).same_iterate hfinite).1

/-- Without a positive step both lists are the lower bound. -/
theorem Runs.eq_single (hruns : axis.Runs xs ys) (hfinite : axis.IsFinite)
    (hstep : axis.step.le Datum.zero = true) :
    xs = [axis.lo.narrow binary32] ∧ ys = [axis.lo] := by
  obtain ⟨⟨fuel, hxs⟩, fuel', hys⟩ := hruns
  have hnarrow := Datum.narrow_le_zero (G := binary32) hfinite.step hstep
  rw [clientValues, clientGridValues, gridValues, if_pos hnarrow] at hxs
  rw [pyValues, pyGridValues, gridValues, if_pos hstep] at hys
  exact ⟨(Option.some.inj hxs).symm, (Option.some.inj hys).symm⟩

theorem Plain.getElem? (hplain : axis.Plain k) (hfinite : axis.IsFinite)
    (hruns : axis.Runs xs ys) : xs[k]?.map wire = ys[k]?.bind packFloat32 := by
  rcases hplain with hexact | ⟨hstep, hnarrow⟩
  · exact hexact.getElem? hfinite hruns
  · obtain ⟨rfl, rfl⟩ := hruns.eq_single hfinite hstep
    cases k with
    | zero => simp [packFloat32, hnarrow]
    | succ k => rfl

theorem Plain.mapM_eq (hplain : axis.Plain xs.length) (hfinite : axis.IsFinite)
    (hruns : axis.Runs xs ys) : ys.mapM packFloat32 = some (xs.map wire) := by
  rcases hplain with hexact | ⟨hstep, hnarrow⟩
  · exact hexact.mapM_eq hfinite hruns
  · obtain ⟨rfl, rfl⟩ := hruns.eq_single hfinite hstep
    simp [packFloat32, hnarrow]

end Axis

/-! ## The same grid -/

/-- As long as no rounding shows both clients send the same values of an axis,
and, if none shows up to the end of both axes, the same pairs. -/
theorem plain_axes_agree {alpha beta : Axis} {xs xs' : List (Datum binary32)}
    {ys ys' : List (Datum binary64)} (halpha : alpha.IsFinite) (hbeta : beta.IsFinite)
    (hruns : alpha.Runs xs ys) (hruns' : beta.Runs xs' ys') :
    (∀ k, alpha.Plain k → xs[k]?.map wire = ys[k]?.bind packFloat32) ∧
      (alpha.Plain xs.length → ys.mapM packFloat32 = some (xs.map wire)) ∧
        (alpha.Plain xs.length → beta.Plain xs'.length →
          ∃ alphas betas, ys.mapM packFloat32 = some alphas ∧ ys'.mapM packFloat32 = some betas ∧
            (gridPairs (xs.map wire) (xs'.map wire)).map (fun pair => (pair.alpha, pair.beta)) =
              (gridLoop (· + 1) (0 : ℕ) alphas betas).map Prod.snd) := by
  refine ⟨fun k hplain => hplain.getElem? halpha hruns,
    fun hplain => hplain.mapM_eq halpha hruns, fun hplain hplain' => ?_⟩
  refine ⟨xs.map wire, xs'.map wire, hplain.mapM_eq halpha hruns, hplain'.mapM_eq hbeta hruns', ?_⟩
  rw [gridPairs, List.map_map, gridLoop_eq, gridLoop_eq, map_snd_numbered]
  exact map_snd_numbered (· + 1) (0 : UInt32) (xs.map wire ×ˢ xs'.map wire)

/-- From 0 to 1 in halves. -/
def halves : Axis where
  lo := binary64.positive 0
  hi := binary64.positive 0x3ff0000000000000
  step := binary64.positive 0x3fe0000000000000

theorem halves_exact : halves.Exact 3 where
  step_pos := by decide
  hi_narrow := by decide +kernel
  step := ⟨binary32.positive 0x3f000000, by decide, by decide +kernel⟩
  point j hj := by
    interval_cases j
    · exact ⟨binary32.positive 0, by decide, by decide +kernel⟩
    · exact ⟨binary32.positive 0x3f000000, by decide, by decide +kernel⟩
    · exact ⟨binary32.positive 0x3f800000, by decide, by decide +kernel⟩
    · exact ⟨binary32.positive 0x3fc00000, by decide, by decide +kernel⟩
  bounds := by decide +kernel

theorem halves_runs :
    halves.Runs
      [binary32.positive 0, binary32.positive 0x3f000000, binary32.positive 0x3f800000]
      [binary64.positive 0, halves.step, halves.hi] where
  client := ⟨4, by decide +kernel⟩
  py := ⟨4, by decide +kernel⟩

/-- One value, a quarter. -/
def quarter : Axis where
  lo := binary64.positive 0x3fd0000000000000
  hi := binary64.positive 0x3fd0000000000000
  step := binary64.positive 0

theorem quarter_runs : quarter.Runs [binary32.positive 0x3e800000] [quarter.lo] where
  client := ⟨0, by decide +kernel⟩
  py := ⟨0, by decide +kernel⟩

theorem plain_axes_agree_halves :
    ∃ alphas betas, [binary64.positive 0, halves.step, halves.hi].mapM packFloat32 = some alphas ∧
      [quarter.lo].mapM packFloat32 = some betas ∧
        (gridPairs [⟨0⟩, ⟨0x3f000000⟩, ⟨0x3f800000⟩] [⟨0x3e800000⟩]).map
            (fun pair => (pair.alpha, pair.beta)) =
          (gridLoop (· + 1) (0 : ℕ) alphas betas).map Prod.snd :=
  (plain_axes_agree ⟨by decide, by decide, by decide⟩ ⟨by decide, by decide, by decide⟩
    halves_runs quarter_runs).2.2 (.inl halves_exact) (.inr ⟨by decide, by decide +kernel⟩)

/-- The default flags of the C++ client: from 0 to 1 in tenths. -/
def tenths : Axis where
  lo := binary64.positive 0
  hi := binary64.positive 0x3ff0000000000000
  step := binary64.positive 0x3fb999999999999a

/-- The two sums of seven tenths are neighbours in binary32. -/
theorem not_axes_agree :
    ¬ ∀ (axis : Axis) (xs : List (Datum binary32)) (ys : List (Datum binary64)),
      axis.IsFinite → axis.Runs xs ys → ys.mapM packFloat32 = some (xs.map wire) := by
  intro hagree
  have hclient : (tenths.clientValues 12).bind (fun xs => (xs.map wire)[7]?) =
      some ⟨0x3f333334⟩ := by
    decide +kernel
  have hpy : (tenths.pyValues 12).bind (fun ys => (ys.mapM packFloat32).bind (·[7]?)) =
      some ⟨0x3f333333⟩ := by
    decide +kernel
  obtain ⟨xs, hxs, hseventh⟩ := Option.bind_eq_some_iff.mp hclient
  obtain ⟨ys, hys, hpacked⟩ := Option.bind_eq_some_iff.mp hpy
  have hsame := hagree tenths xs ys ⟨by decide, by decide, by decide⟩ ⟨⟨12, hxs⟩, 12, hys⟩
  rw [hsame, Option.bind_some, hseventh] at hpacked
  cases hpacked

end RangePricer
