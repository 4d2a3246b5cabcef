import Mathlib.Data.BitVec
import Mathlib.Tactic.Common

/-!
# Numbers as bytes

The bytes of a number, lowest or highest first, and the number that bytes stand for.
`le_value_bytes` and `be_value_bytes` say that reading gives back what was written.
-/

namespace Bytes

open List Nat BitVec

/-- An `unsigned char`. -/
abbrev Byte := BitVec 8

/-- The lowest `n` bytes, the lowest first. -/
def leBytes : Nat → Nat → List Byte
  | 0, _ => []
  | n + 1, v => BitVec.ofNat 8 v :: leBytes n (v / 256)

/-- The number whose lowest byte is the first. -/
def leValue : List Byte → Nat
  | [] => 0
  | b :: bs => b.toNat + 256 * leValue bs

/-- The same with the highest byte first. -/
def beBytes (n v : Nat) : List Byte := (leBytes n v).reverse

def beValue (bs : List Byte) : Nat := leValue bs.reverse

@[simp] theorem length_le_bytes (n v : Nat) : (leBytes n v).length = n := by
  induction n generalizing v with
  | zero => rfl
  | succ n ih => exact congrArg (· + 1) (ih (v / 256))

@[simp] theorem length_be_bytes (n v : Nat) : (beBytes n v).length = n := by
  rw [beBytes, length_reverse, length_le_bytes]

/-- Reading what was written, by induction on the number of bytes. -/
theorem le_value_bytes (n v : Nat) : leValue (leBytes n v) = v % 256 ^ n := by
  induction n generalizing v with
  | zero => exact (mod_one v).symm
  | succ n ih =>
    show (BitVec.ofNat 8 v).toNat + 256 * leValue (leBytes n (v / 256)) = _
    have hpow : 256 ^ (n + 1) = 256 * 256 ^ n := Nat.pow_succ'
    rw [ih, toNat_ofNat, hpow, mod_mul]

theorem be_value_bytes (n v : Nat) : beValue (beBytes n v) = v % 256 ^ n := by
  rw [beValue, beBytes, reverse_reverse, le_value_bytes]

/-- Writing what was read. -/
theorem le_bytes_value (bs : List Byte) : leBytes bs.length (leValue bs) = bs := by
  induction bs with
  | nil => rfl
  | cons b bs ih =>
    have hlow : BitVec.ofNat 8 (b.toNat + 256 * leValue bs) = b := by
      refine eq_of_toNat_eq ?_
      rw [toNat_ofNat]
      omega
    have hhigh : (b.toNat + 256 * leValue bs) / 256 = leValue bs := by
      omega
    rw [length_cons, leValue, leBytes, hlow, hhigh, ih]

theorem be_bytes_value (bs : List Byte) : beBytes bs.length (beValue bs) = bs := by
  rw [beBytes, beValue, ← length_reverse, le_bytes_value, reverse_reverse]

theorem le_value_bytes_of_lt {n v : Nat} (h : v < 256 ^ n) : leValue (leBytes n v) = v :=
  (le_value_bytes n v).trans (mod_eq_of_lt h)

theorem be_value_bytes_of_lt {n v : Nat} (h : v < 256 ^ n) : beValue (beBytes n v) = v :=
  (be_value_bytes n v).trans (mod_eq_of_lt h)

theorem shift_byte {w : Nat} (x : BitVec w) (k : Nat) :
    (x >>> k).setWidth 8 = BitVec.ofNat 8 (x.toNat / 2 ^ k) := by
  apply eq_of_toNat_eq
  rw [toNat_setWidth, toNat_ushiftRight, shiftRight_eq_div_pow, toNat_ofNat]

theorem be_bytes_word16 (x : BitVec 16) :
    [(x >>> 8).setWidth 8, x.setWidth 8] = beBytes 2 x.toNat := by
  rw [shift_byte]
  rfl

theorem be_bytes_word32 (x : BitVec 32) :
    [(x >>> 24).setWidth 8, (x >>> 16).setWidth 8, (x >>> 8).setWidth 8, x.setWidth 8] =
      beBytes 4 x.toNat := by
  have hthird : x.toNat / 2 ^ 16 = x.toNat / 256 / 256 := by omega
  have hfourth : x.toNat / 2 ^ 24 = x.toNat / 256 / 256 / 256 := by omega
  rw [shift_byte, shift_byte, shift_byte, hthird, hfourth]
  rfl

theorem le_value_lt (bs : List Byte) : leValue bs < 256 ^ bs.length := by
  induction bs with
  | nil => exact Nat.one_pos
  | cons b bs ih =>
    show b.toNat + 256 * leValue bs < 256 ^ (bs.length + 1)
    omega

end Bytes
