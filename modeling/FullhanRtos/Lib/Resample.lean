import Mathlib.Algebra.Order.Ring.Nat
import Mathlib.Tactic.Ring

/-!
# Fixed-point resampling

Positions that advance by a truncated ratio of two sizes, and rounded blends of four samples with
weights that add up to a whole.
-/

namespace Resample

open Nat

/-- The distance of two positions, in fractions of `1 / whole`. -/
def step (whole size count : Nat) : Nat := size * whole / count

variable {whole size count i p00 p10 p01 p11 fx fy lo hi : Nat}

/-- The positions before `count` lie in front of the end of the `size` samples. -/
theorem mul_step_lt (hwhole : 0 < whole) (hsize : 0 < size) (hi : i < count) :
    i * step whole size count < size * whole := by
  have htotal : 0 < size * whole := Nat.mul_pos hsize hwhole
  rcases Nat.eq_zero_or_pos (step whole size count) with hzero | hpos
  · rwa [hzero, Nat.mul_zero]
  · calc i * step whole size count < count * step whole size count :=
        Nat.mul_lt_mul_of_pos_right hi hpos
      _ ≤ size * whole := mul_div_le _ _

theorem step_le {size' : Nat} (h : size ≤ size') : step whole size count ≤ step whole size' count :=
  Nat.div_le_div_right (Nat.mul_le_mul_right whole h)

theorem step_add_le (whole size d : Nat) (hcount : 0 < count) :
    step whole size count + step whole d count ≤ step whole (size + d) count := by
  rw [step, step, step, Nat.le_div_iff_mul_le hcount, Nat.add_mul, Nat.add_mul]
  exact Nat.add_le_add (div_mul_le_self _ _) (div_mul_le_self _ _)

/-- The blend of the samples at both lines and both columns; `fx` and `fy` are the weights of the
second column and line. -/
def blend (whole fx fy p00 p10 p01 p11 : Nat) : Nat :=
  (p00 * (whole - fy) * (whole - fx) + p10 * fy * (whole - fx) + p01 * (whole - fy) * fx +
    p11 * fy * fx + whole * whole / 2) / (whole * whole)

theorem weights_add (hx : fx ≤ whole) (hy : fy ≤ whole) :
    (whole - fy) * (whole - fx) + fy * (whole - fx) + (whole - fy) * fx + fy * fx =
      whole * whole := by
  calc (whole - fy) * (whole - fx) + fy * (whole - fx) + (whole - fy) * fx + fy * fx =
        (whole - fy + fy) * (whole - fx + fx) := by ring
    _ = whole * whole := by rw [Nat.sub_add_cancel hx, Nat.sub_add_cancel hy]

theorem sum_le (hx : fx ≤ whole) (hy : fy ≤ whole) (h00 : p00 ≤ hi) (h10 : p10 ≤ hi)
    (h01 : p01 ≤ hi) (h11 : p11 ≤ hi) :
    p00 * (whole - fy) * (whole - fx) + p10 * fy * (whole - fx) + p01 * (whole - fy) * fx +
      p11 * fy * fx ≤ hi * (whole * whole) := by
  calc p00 * (whole - fy) * (whole - fx) + p10 * fy * (whole - fx) + p01 * (whole - fy) * fx +
        p11 * fy * fx
      ≤ hi * (whole - fy) * (whole - fx) + hi * fy * (whole - fx) + hi * (whole - fy) * fx +
        hi * fy * fx := by gcongr
    _ = hi * ((whole - fy) * (whole - fx) + fy * (whole - fx) + (whole - fy) * fx + fy * fx) := by
        ring
    _ = hi * (whole * whole) := by rw [weights_add hx hy]

theorem le_sum (hx : fx ≤ whole) (hy : fy ≤ whole) (h00 : lo ≤ p00) (h10 : lo ≤ p10)
    (h01 : lo ≤ p01) (h11 : lo ≤ p11) :
    lo * (whole * whole) ≤ p00 * (whole - fy) * (whole - fx) + p10 * fy * (whole - fx) +
      p01 * (whole - fy) * fx + p11 * fy * fx := by
  calc lo * (whole * whole) =
        lo * ((whole - fy) * (whole - fx) + fy * (whole - fx) + (whole - fy) * fx + fy * fx) := by
        rw [weights_add hx hy]
    _ = lo * (whole - fy) * (whole - fx) + lo * fy * (whole - fx) + lo * (whole - fy) * fx +
        lo * fy * fx := by ring
    _ ≤ _ := by gcongr

/-- A blend lies between the least and the greatest of its samples. -/
theorem blend_bounds (hwhole : 0 < whole) (hx : fx ≤ whole) (hy : fy ≤ whole) :
    min (min p00 p10) (min p01 p11) ≤ blend whole fx fy p00 p10 p01 p11 ∧
      blend whole fx fy p00 p10 p01 p11 ≤ max (max p00 p10) (max p01 p11) := by
  have hpos : 0 < whole * whole := Nat.mul_pos hwhole hwhole
  have hlower := @le_sum whole p00 p10 p01 p11 fx fy (min (min p00 p10) (min p01 p11)) hx hy
    (by omega) (by omega) (by omega) (by omega)
  have hupper := @sum_le whole p00 p10 p01 p11 fx fy (max (max p00 p10) (max p01 p11)) hx hy
    (by omega) (by omega) (by omega) (by omega)
  constructor
  · rw [blend, Nat.le_div_iff_mul_le hpos]
    exact hlower.trans (Nat.le_add_right _ _)
  · rw [blend, ← Nat.lt_succ_iff, Nat.div_lt_iff_lt_mul hpos, succ_mul]
    exact Nat.add_lt_add_of_le_of_lt hupper (Nat.div_lt_self hpos (by omega))

theorem blend_first (hwhole : 0 < whole) : blend whole 0 0 p00 p10 p01 p11 = p00 := by
  have hpos : 0 < whole * whole := Nat.mul_pos hwhole hwhole
  rw [blend, Nat.sub_zero, Nat.mul_zero, Nat.mul_zero, Nat.zero_mul, Nat.mul_zero, Nat.add_zero,
    Nat.mul_assoc, Nat.add_comm, add_mul_div_right _ _ hpos,
    div_eq_of_lt (Nat.div_lt_self hpos (by omega)), Nat.zero_add]

end Resample
