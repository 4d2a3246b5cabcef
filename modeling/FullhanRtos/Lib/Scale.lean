import Mathlib.Algebra.Order.Ring.Nat
import Mathlib.Tactic.Ring

/-!
# Truncated conversions

A count of one unit in another, `n * mult / d` without the fraction. `scale_add_le` says what is
lost when a count is converted in parts.
-/

namespace Scale

def scale (mult d n : Nat) : Nat := n * mult / d

variable {mult d a b : Nat}

@[simp] theorem scale_zero : scale mult d 0 = 0 := by
  rw [scale, Nat.zero_mul, Nat.zero_div]

theorem scale_mono (h : a ≤ b) : scale mult d a ≤ scale mult d b :=
  Nat.div_le_div_right (Nat.mul_le_mul_right mult h)

theorem lt_scale_mul (mult : Nat) (hd : 0 < d) (n : Nat) : n * mult < (scale mult d n + 1) * d := by
  rw [add_mul, one_mul]
  exact Nat.lt_div_mul_add hd

/-- The parts of a count lose less than a unit more than the whole. -/
theorem scale_add_le (mult : Nat) (hd : 0 < d) (a b : Nat) :
    scale mult d (a + b) ≤ scale mult d a + scale mult d b + 1 := by
  have ha := lt_scale_mul mult hd a
  have hb := lt_scale_mul mult hd b
  have hsum : (a + b) * mult < (scale mult d a + scale mult d b + 1 + 1) * d := by
    calc (a + b) * mult = a * mult + b * mult := add_mul a b mult
      _ < (scale mult d a + 1) * d + (scale mult d b + 1) * d := Nat.add_lt_add ha hb
      _ = (scale mult d a + scale mult d b + 1 + 1) * d := by ring
  exact Nat.le_of_lt_succ ((Nat.div_lt_iff_lt_mul hd).mpr hsum)

end Scale
