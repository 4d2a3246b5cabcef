import Mathlib.Algebra.GroupWithZero.Nat
import Mathlib.Tactic.Common

/-!
# 32-bit arithmetic on natural numbers

Operations on `uint32_t` that wrap, and what they are while nothing wraps.
-/

namespace Word

open Nat

/-- Sum, difference and product of 32-bit numbers. -/
def add32 (a b : Nat) : Nat := (a + b) % 2 ^ 32

def sub32 (a b : Nat) : Nat := (a + (2 ^ 32 - b)) % 2 ^ 32

def mul32 (a b : Nat) : Nat := (a * b) % 2 ^ 32

variable {a b : Nat}

theorem add32_eq (h : a + b < 2 ^ 32) : add32 a b = a + b := mod_eq_of_lt h

theorem sub32_eq (h : b ≤ a) (ha : a < 2 ^ 32) : sub32 a b = a - b := by
  have hsum : a + (2 ^ 32 - b) = a - b + 2 ^ 32 := by omega
  rw [sub32, hsum, add_mod_right]
  exact mod_eq_of_lt (by omega)

theorem add32_assoc (a b c : Nat) : add32 (add32 a b) c = add32 a (b + c) := by
  rw [add32, add32, add32, mod_add_mod, Nat.add_assoc]

/-- A common summand drops out of a difference. -/
theorem sub32_add32 (c : Nat) (hb : b < 2 ^ 32) : sub32 (add32 c a) (add32 c b) = sub32 a b := by
  unfold sub32 add32
  omega

/-- A number is in a range exactly if its distance from the start is less than the length. -/
theorem sub32_lt_iff {n : Nat} (ha : a < 2 ^ 32) (hb : b + n ≤ 2 ^ 32) :
    sub32 a b < n ↔ b ≤ a ∧ a < b + n := by
  unfold sub32
  omega

theorem mul32_eq (h : a * b < 2 ^ 32) : mul32 a b = a * b := mod_eq_of_lt h

end Word
