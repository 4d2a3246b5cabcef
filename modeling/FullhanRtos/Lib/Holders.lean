import Mathlib.Algebra.BigOperators.Group.Finset.Basic
import Mathlib.Algebra.Order.BigOperators.Group.Finset

/-!
# What the threads hold together

Each thread stands at a place, and `weight` says how many references it has there. `holders` is the
sum over all threads; `holders_update` says how a step of one thread changes it.
-/

namespace Holders

open Function Finset

variable {τ β : Type*} [Fintype τ] {weight : β → Nat} {place : τ → β} {t : τ}

/-- The references of all threads. -/
def holders (weight : β → Nat) (place : τ → β) : Nat := ∑ t, weight (place t)

theorem weight_le_holders (weight : β → Nat) (place : τ → β) (t : τ) :
    weight (place t) ≤ holders weight place :=
  single_le_sum (f := fun t => weight (place t)) (fun _ _ => Nat.zero_le _)
    (mem_univ t)

theorem holders_eq_zero : holders weight place = 0 ↔ ∀ t, weight (place t) = 0 := by
  unfold holders
  rw [sum_eq_zero_iff]
  exact ⟨fun h t => h t (mem_univ t), fun h t _ => h t⟩

/-- A step of one thread, with the references that it gives up on the left. -/
theorem holders_update [DecidableEq τ] (weight : β → Nat) (place : τ → β) (t : τ) (p : β) :
    holders weight (update place t p) + weight (place t) = holders weight place + weight p := by
  have hrest : ∑ u ∈ univ.erase t, weight (update place t p u) =
      ∑ u ∈ univ.erase t, weight (place u) := by
    refine sum_congr rfl fun u hu => ?_
    rw [update_of_ne (ne_of_mem_erase hu)]
  unfold holders
  rw [← add_sum_erase _ _ (mem_univ t), ← add_sum_erase univ
    (fun u => weight (place u)) (mem_univ t), hrest, update_self]
  omega

end Holders
