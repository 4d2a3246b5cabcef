import FullhanRtos.Lib.Bytes

/-!
# Base64

The encoding of bytes by characters of six bits, with padding, and its decoding.
-/

namespace Base64

open List Bytes

def alphabet : List Char :=
  "ABCDEFGHIJKLMNOPQRSTUVWXYZabcdefghijklmnopqrstuvwxyz0123456789+/".toList

def digit (n : Nat) : Char := alphabet.getD n '\x00'

/-- Three bytes are four digits; what is missing at the end is padding. -/
def encode : List Byte → List Char
  | a :: b :: c :: rest =>
    digit (a.toNat / 4) :: digit (a.toNat % 4 * 16 + b.toNat / 16) ::
      digit (b.toNat % 16 * 4 + c.toNat / 64) :: digit (c.toNat % 64) :: encode rest
  | [a, b] =>
    [digit (a.toNat / 4), digit (a.toNat % 4 * 16 + b.toNat / 16), digit (b.toNat % 16 * 4), '=']
  | [a] => [digit (a.toNat / 4), digit (a.toNat % 4 * 16), '=', '=']
  | [] => []

def value (c : Char) : Nat := alphabet.idxOf c

def decode : List Char → List Byte
  | p :: q :: r :: s :: rest =>
    BitVec.ofNat 8 (value p * 4 + value q / 16) ::
      if r = '=' then []
      else BitVec.ofNat 8 (value q % 16 * 16 + value r / 4) ::
        if s = '=' then [] else BitVec.ofNat 8 (value r % 4 * 64 + value s) :: decode rest
  | _ => []

theorem value_digit : ∀ n < 64, value (digit n) = n := by
  decide +kernel

theorem digit_ne_pad : ∀ n < 64, digit n ≠ '=' := by
  decide +kernel

theorem length_encode (bytes : List Byte) :
    (encode bytes).length = 4 * ((bytes.length + 2) / 3) := by
  induction bytes using encode.induct with
  | case1 a b c rest ih =>
    simp only [encode, length_cons, ih]
    omega
  | _ => simp [encode]

theorem byte_eq {b : Byte} {n : Nat} (h : n = b.toNat) : BitVec.ofNat 8 n = b := by
  rw [h, BitVec.ofNat_toNat, BitVec.setWidth_eq]

theorem decode_encode (bytes : List Byte) : decode (encode bytes) = bytes := by
  induction bytes using encode.induct with
  | case1 a b c rest ih =>
    simp (disch := omega) only [encode, decode, value_digit, digit_ne_pad, if_false, ih]
    rw [byte_eq (b := a) (by omega), byte_eq (b := b) (by omega), byte_eq (b := c) (by omega)]
  | case2 a b =>
    simp (disch := omega) only [encode, decode, value_digit, digit_ne_pad, if_false, if_true]
    rw [byte_eq (b := a) (by omega), byte_eq (b := b) (by omega)]
  | case3 a =>
    simp (disch := omega) only [encode, decode, value_digit, if_true]
    rw [byte_eq (b := a) (by omega)]
  | case4 => rfl

end Base64
