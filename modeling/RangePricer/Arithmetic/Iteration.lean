import Mathlib.Data.Set.Finite.Basic
import Mathlib.Logic.Function.Iterate
import Mathlib.Order.Interval.Set.Defs
import Mathlib.Order.Monotone.Basic

/-!
# Loops that collect their values

A loop that appends a value, advances it and tests it again has the values
before the first failed test for its result.  If advancing is monotone and never
goes down, the test against a bound fails at last exactly if no value on the way
there is left in place.
-/

namespace Iteration

section

variable {α : Type*} {cond : α → Bool} {next : α → α} {x : α}

/-- `while cond x: append x; x = next x`, with fuel. -/
def collect (cond : α → Bool) (next : α → α) : ℕ → α → Option (List α)
  | 0, _ => none
  | fuel + 1, x => if cond x then (collect cond next fuel (next x)).map (x :: ·) else some []

/-- The loop ends if and only if some iterate fails the test. -/
theorem exists_collect_iff :
    (∃ fuel xs, collect cond next fuel x = some xs) ↔ ∃ n, cond (next^[n] x) = false := by
  constructor
  · rintro ⟨fuel, xs, hcollect⟩
    induction fuel generalizing x xs with
    | zero => cases hcollect
    | succ fuel ih =>
        rw [collect] at hcollect
        split at hcollect
        · obtain ⟨rest, hrest, -⟩ := Option.map_eq_some_iff.mp hcollect
          obtain ⟨n, hn⟩ := ih rest hrest
          exact ⟨n + 1, hn⟩
        · next hstop => exact ⟨0, Bool.not_eq_true _ ▸ hstop⟩
  · rintro ⟨n, hn⟩
    induction n generalizing x with
    | zero =>
        have hstop : cond x = false := hn
        exact ⟨1, [], by rw [collect, hstop, if_neg Bool.false_ne_true]⟩
    | succ n ih =>
        cases hx : cond x with
        | false => exact ⟨1, [], by rw [collect, if_neg (by simp [hx])]⟩
        | true =>
            obtain ⟨fuel, xs, hcollect⟩ := ih hn
            exact ⟨fuel + 1, x :: xs, by rw [collect, if_pos hx, hcollect]; rfl⟩

/-- The result is the iterates before the first one that fails. -/
structure Collects (cond : α → Bool) (next : α → α) (x : α) (xs : List α) : Prop where
  eq : xs = (List.range xs.length).map fun k => next^[k] x
  passed : ∀ k < xs.length, cond (next^[k] x) = true
  failed : cond (next^[xs.length] x) = false

theorem collects_of_collect {fuel : ℕ} {xs : List α}
    (hcollect : collect cond next fuel x = some xs) : Collects cond next x xs := by
  induction fuel generalizing x xs with
  | zero => cases hcollect
  | succ fuel ih =>
      rw [collect] at hcollect
      split at hcollect
      · next hx =>
          obtain ⟨rest, hrest, rfl⟩ := Option.map_eq_some_iff.mp hcollect
          obtain ⟨heq, hpassed, hfailed⟩ := ih hrest
          refine ⟨?_, ?_, hfailed⟩
          · rw [List.length_cons, List.range_succ_eq_map, List.map_cons, List.map_map]
            exact congrArg (x :: ·) heq
          · intro k hk
            cases k with
            | zero => exact hx
            | succ k => exact hpassed k (Nat.lt_of_succ_lt_succ hk)
      · next hstop =>
          cases hcollect
          exact ⟨rfl, fun k hk => absurd hk (Nat.not_lt_zero k), Bool.not_eq_true _ ▸ hstop⟩

theorem Collects.getElem? {xs : List α} (hcollects : Collects cond next x xs) {k : ℕ}
    (hk : k < xs.length) : xs[k]? = some (next^[k] x) := by
  rw [hcollects.eq, List.getElem?_map, List.getElem?_range hk]
  rfl

/-- A value is collected if it and all values before it pass. -/
theorem Collects.lt_length_iff {xs : List α} (hcollects : Collects cond next x xs) (k : ℕ) :
    k < xs.length ↔ ∀ j ≤ k, cond (next^[j] x) = true := by
  constructor
  · intro hk j hj
    exact hcollects.passed j (hj.trans_lt hk)
  · intro hall
    by_contra hend
    have hpassed := hall xs.length (Nat.le_of_not_lt hend)
    rw [hcollects.failed] at hpassed
    cases hpassed

end

/-! ## Steps that never go down -/

section

variable {α : Type*} [PartialOrder α] {f : α → α} {lo bound : α}

/-- What stays in place stays ahead. -/
theorem iterate_le_of_fixed (hmono : Monotone f) {z : α} (hlo : lo ≤ z) (hfixed : f z = z) (n : ℕ) :
    f^[n] lo ≤ z := by
  induction n with
  | zero => exact hlo
  | succ n ih =>
      rw [Function.iterate_succ_apply']
      exact (hmono ih).trans_eq hfixed

/-- The bound is exceeded exactly if nothing between is left in place. -/
theorem exists_iterate_not_le_iff (hmono : Monotone f)
    (hup : ∀ z, lo ≤ z → z ≤ bound → z ≤ f z) (hfinite : (Set.Icc lo bound).Finite) :
    (∃ n, ¬ f^[n] lo ≤ bound) ↔ ∀ z, lo ≤ z → z ≤ bound → f z ≠ z := by
  constructor
  · rintro ⟨n, hn⟩ z hlo hbound hfixed
    exact hn ((iterate_le_of_fixed hmono hlo hfixed n).trans hbound)
  · intro hmoves
    by_contra hnone
    have hstays : ∀ n, f^[n] lo ≤ bound := fun n => by_contra fun hn => hnone ⟨n, hn⟩
    have hlow : ∀ n, lo ≤ f^[n] lo := by
      intro n
      induction n with
      | zero => exact le_rfl
      | succ n ih =>
          rw [Function.iterate_succ_apply']
          exact ih.trans (hup _ ih (hstays n))
    have hstrict : StrictMono fun n => f^[n] lo := by
      apply strictMono_nat_of_lt_succ
      intro n
      rw [Function.iterate_succ_apply']
      exact lt_of_le_of_ne (hup _ (hlow n) (hstays n)) (hmoves _ (hlow n) (hstays n)).symm
    have hinside : ∀ n, f^[n] lo ∈ Set.Icc lo bound := fun n => ⟨hlow n, hstays n⟩
    exact Set.infinite_of_injective_forall_mem hstrict.injective hinside hfinite

end

end Iteration
