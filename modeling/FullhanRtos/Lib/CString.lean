import FullhanRtos.Lib.Bytes
import Mathlib.Data.List.Infix
import Mathlib.Data.List.TakeWhile

/-!
# Strings of C

A string is the bytes in front of the terminator. `strstr` returns what stands from the first
occurrence on, so that the difference of two pointers is the difference of two lengths.
-/

namespace CString

open Bytes List

/-- The bytes of a text without characters beyond one byte. -/
def ascii (s : String) : List Byte := s.toList.map fun c => BitVec.ofNat 8 c.toNat

def cString (buf : List Byte) : List Byte := buf.takeWhile (· ≠ 0)

def strstr (needle : List Byte) : List Byte → Option (List Byte)
  | [] => if needle = [] then some [] else none
  | c :: s => if needle <+: c :: s then some (c :: s) else strstr needle s

variable {needle s : List Byte} {buf : List Byte}

theorem strstr_is_some : (strstr needle s).isSome ↔ needle <:+: s := by
  induction s with
  | nil =>
    unfold strstr
    rw [infix_nil]
    by_cases hnil : needle = []
    · rw [if_pos hnil]
      exact iff_of_true rfl hnil
    · rw [if_neg hnil]
      exact iff_of_false Bool.false_ne_true hnil
  | cons c s ih =>
    unfold strstr
    rw [infix_cons_iff]
    by_cases hprefix : needle <+: c :: s
    · rw [if_pos hprefix]
      exact iff_of_true rfl (Or.inl hprefix)
    · rw [if_neg hprefix, ih]
      exact (or_iff_right hprefix).symm

theorem strstr_eq_none : strstr needle s = none ↔ ¬ needle <:+: s := by
  rw [← strstr_is_some, Option.not_isSome_iff_eq_none]

theorem strstr_eq_some (h : needle <:+: s) : ∃ pos, strstr needle s = some pos :=
  Option.isSome_iff_exists.mp (strstr_is_some.mpr h)

theorem c_string_sub (h : needle <:+: cString buf) : needle <:+: buf :=
  h.trans (List.takeWhile_prefix _).isInfix

/-- A buffer without a terminator is all string. -/
theorem c_string_eq_self (h : 0 ∉ buf) : cString buf = buf := by
  refine takeWhile_eq_self_iff.mpr fun c hc => decide_eq_true ?_
  rintro rfl
  exact h hc

end CString
