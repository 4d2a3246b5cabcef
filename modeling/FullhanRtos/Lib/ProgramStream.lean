import FullhanRtos.Lib.Crc

/-!
# Headers of a program stream

The pack header and the program stream map of an MPEG-2 program stream, as a decoder reads them. A
field of a header is so many bits at a place that is counted from its first bit.
-/

namespace ProgramStream

open Bytes Crc List

def bits (header : List Byte) (start n : Nat) : Nat :=
  beValue header / 2 ^ (8 * header.length - start - n) % 2 ^ n

theorem le_value_append (bs cs : List Byte) :
    leValue (bs ++ cs) = leValue bs + 256 ^ bs.length * leValue cs := by
  induction bs with
  | nil =>
    show leValue cs = 0 + 1 * leValue cs
    omega
  | cons b bs ih =>
    show b.toNat + 256 * leValue (bs ++ cs) =
      b.toNat + 256 * leValue bs + 256 ^ (bs.length + 1) * leValue cs
    rw [ih, Nat.pow_succ', mul_add, mul_assoc, add_assoc]

theorem be_value_append (bs cs : List Byte) :
    beValue (bs ++ cs) = beValue bs * 2 ^ (8 * cs.length) + beValue cs := by
  rw [beValue, reverse_append, le_value_append, length_reverse, Nat.pow_mul]
  show beValue cs + 256 ^ cs.length * beValue bs = _
  rw [add_comm, mul_comm]

theorem be_value_lt (bs : List Byte) : beValue bs < 2 ^ (8 * bs.length) := by
  have hlt := le_value_lt bs.reverse
  rw [length_reverse] at hlt
  rw [Nat.pow_mul]
  exact hlt

/-- A field of a header is a field of the bytes that it stands in. -/
theorem bits_middle (before bytes after : List Byte) (start n : Nat)
    (hfield : start + n ≤ 8 * bytes.length) :
    bits (before ++ (bytes ++ after)) (8 * before.length + start) n = bits bytes start n := by
  obtain ⟨rest, hrest⟩ : ∃ rest, 8 * bytes.length = rest + n + start :=
    ⟨8 * bytes.length - start - n, by omega⟩
  have hshift : 8 * (before ++ (bytes ++ after)).length - (8 * before.length + start) - n =
      8 * after.length + rest := by
    rw [length_append, length_append]
    omega
  have hown : 8 * bytes.length - start - n = rest := by omega
  -- The bytes behind are divided off, those in front are cut off.
  have hbehind : beValue (before ++ (bytes ++ after)) / 2 ^ (8 * after.length) =
      beValue (before ++ bytes) := by
    rw [← append_assoc, be_value_append, mul_comm, Nat.mul_add_div (Nat.two_pow_pos _),
      Nat.div_eq_of_lt (be_value_lt after), add_zero]
  have hfront : beValue (before ++ bytes) =
      2 ^ rest * (2 ^ n * (2 ^ start * beValue before)) + beValue bytes := by
    rw [be_value_append, hrest, Nat.pow_add, Nat.pow_add, mul_comm, mul_assoc, mul_assoc]
  rw [bits, bits, hshift, hown, Nat.pow_add, ← Nat.div_div_eq_div_mul, hbehind, hfront,
    Nat.mul_add_div (Nat.two_pow_pos _), Nat.mul_add_mod]

/-! ## The pack header -/

structure PackHeader where
  base : Nat
  extension : Nat
  muxRate : Nat
  stuffing : Nat
  markers : List Nat
  deriving DecidableEq

/-- The first 14 bytes: the clock reference as 3, 15 and 15 bits with an extension of 9 bits, and
the rate, with marker bits between them. -/
def packHeader? (stream : List Byte) : Option PackHeader :=
  let header := stream.take 14
  if header.length = 14 ∧ bits header 0 32 = 0x1ba ∧ bits header 32 2 = 1 then
    some
      { base := bits header 34 3 * 2 ^ 30 + bits header 38 15 * 2 ^ 15 + bits header 54 15
        extension := bits header 70 9
        muxRate := bits header 80 22
        stuffing := bits header 109 3
        markers := [37, 53, 69, 79, 102, 103].map (bits header · 1) }
  else none

/-! ## The program stream map -/

structure ProgramMap where
  info : List Byte
  /-- The type and the id of each stream. -/
  streams : List (Byte × Byte)
  deriving DecidableEq

/-- The streams of a map; each has a type, an id and a length of what is said about it. -/
def streams? : Nat → List Byte → Option (List (Byte × Byte))
  | _, [] => some []
  | rounds + 1, type :: id :: high :: low :: bytes =>
    let length := beValue [high, low]
    if length ≤ bytes.length then
      (streams? rounds (bytes.drop length)).map ((type, id) :: ·)
    else none
  | _, _ => none

/-- A map whose lengths describe it exactly, up to the four bytes of the checksum. -/
def programMap? : List Byte → Option ProgramMap
  | 0 :: 0 :: 1 :: 0xbc :: high :: low :: _ :: _ :: infoHigh :: infoLow :: bytes =>
    let info := bytes.take (beValue [infoHigh, infoLow])
    match bytes.drop (beValue [infoHigh, infoLow]) with
    | mapHigh :: mapLow :: bytes' =>
      let length := beValue [mapHigh, mapLow]
      if beValue [high, low] = bytes.length + 4 ∧ bytes'.length = length + 4 then
        (streams? length (bytes'.take length)).map (⟨info, ·⟩)
      else none
    | _ => none
  | _ => none

/-- The polynomial of the checksum. -/
def mpegPoly : BitVec 32 := 0x04c11db7

/-- What a decoder accepts: the lengths are right, and the remainder of the whole map is zero. -/
structure MapAccepted (bytes : List Byte) : Prop where
  lengths : (programMap? bytes).isSome
  remainder : crc mpegPoly 0xffffffff bytes = 0

end ProgramStream
