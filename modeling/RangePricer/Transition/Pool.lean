import Mathlib.Algebra.BigOperators.Fin
import Mathlib.Algebra.Order.BigOperators.Group.Finset
import Mathlib.Tactic.Abel

/-!
# Pools of components

A pool is a finite family of components of which one is changed at a time.  A
quantity carried by the components is summed over the pool; changing one
component changes the sum by exactly what that component gained or lost.
-/

namespace Transition

open Finset

variable {Component M : Type*} {n : Nat} [AddCommMonoid M]

/-- The total of a quantity over the pool. -/
def poolSum (quantity : Component → M) (pool : Fin n → Component) : M :=
  ∑ i, quantity (pool i)

/-- Replacing one component exchanges its contribution, also where the quantity
depends on the place in the pool. -/
theorem sum_update_add (quantity : Fin n → Component → M) (pool : Fin n → Component) (i : Fin n)
    (component : Component) :
    ∑ j, quantity j (Function.update pool i component j) + quantity i (pool i) =
      ∑ j, quantity j (pool j) + quantity i component := by
  have hrest : ∑ j ∈ univ.erase i, quantity j (Function.update pool i component j) =
      ∑ j ∈ univ.erase i, quantity j (pool j) := by
    apply sum_congr rfl
    intro j hj
    rw [Function.update_of_ne (ne_of_mem_erase hj)]
  rw [← add_sum_erase univ _ (mem_univ i), hrest, Function.update_self,
    ← add_sum_erase univ (fun j => quantity j (pool j)) (mem_univ i)]
  abel

/-- Replacing one component exchanges its contribution. -/
theorem poolSum_update_add (quantity : Component → M) (pool : Fin n → Component) (i : Fin n)
    (component : Component) :
    poolSum quantity (Function.update pool i component) + quantity (pool i) =
      poolSum quantity pool + quantity component :=
  sum_update_add (fun _ => quantity) pool i component

variable {quantity : Component → M} {pool : Fin n → Component} {i : Fin n}
  {component : Component}

theorem poolSum_update_eq [IsCancelAdd M] (hsame : quantity component = quantity (pool i)) :
    poolSum quantity (Function.update pool i component) = poolSum quantity pool := by
  have hexchange := poolSum_update_add quantity pool i component
  rw [hsame] at hexchange
  exact add_right_cancel hexchange

theorem poolSum_update_gain [IsCancelAdd M] {gain : M}
    (hgain : quantity component = quantity (pool i) + gain) :
    poolSum quantity (Function.update pool i component) = poolSum quantity pool + gain := by
  have hexchange := poolSum_update_add quantity pool i component
  rw [hgain, ← add_assoc, add_right_comm] at hexchange
  exact add_right_cancel hexchange

theorem poolSum_update_loss [IsCancelAdd M] {loss : M}
    (hloss : quantity (pool i) = quantity component + loss) :
    poolSum quantity (Function.update pool i component) + loss = poolSum quantity pool := by
  have hexchange := poolSum_update_add quantity pool i component
  rw [hloss, add_comm (quantity component), ← add_assoc] at hexchange
  exact add_right_cancel hexchange

/-- A bound on every component bounds the pool. -/
theorem poolSum_le {quantity : Component → Nat} {bound : Nat}
    (hbound : ∀ i, quantity (pool i) ≤ bound) : poolSum quantity pool ≤ n * bound := by
  have hsum := sum_le_card_nsmul univ (fun i => quantity (pool i)) bound fun i _ => hbound i
  simpa [poolSum] using hsum

end Transition
