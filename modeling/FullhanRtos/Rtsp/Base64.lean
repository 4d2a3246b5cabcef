import FullhanRtos.Lib.Base64

/-!
# `base64_encode`

The encoder of the session description shifts the bits of its input through `chr` into `ok`.
-/

namespace FullhanRtos.Rtsp

open List Bytes Base64

def base64 : List Char :=
  "ABCDEFGHIJKLMNOPQRSTUVWXYZabcdefghijklmnopqrstuvwxyz0123456789+/".toList

/-- `chrbits` bits of `chr` are not used yet, and `okbits` bits are in `ok`. -/
structure Encoder where
  src : List Byte
  chr : Nat
  chrbits : Nat
  ok : Nat
  okbits : Nat
  dst : List Char

/-- The body of the loop. -/
def Encoder.turn (s : Encoder) : Encoder :=
  let s := if s.chrbits = 0
    then { s with src := s.src.tail, chr := (s.src.headD 0).toNat, chrbits := 8 } else s
  let bits := min (6 - s.okbits) s.chrbits
  let ok := (s.ok <<< bits ||| s.chr >>> (8 - bits)) % 256
  let s := { s with
    chr := (s.chr <<< bits) % 256, chrbits := s.chrbits - bits, ok, okbits := s.okbits + bits }
  if 6 ≤ s.okbits then
    { s with dst := s.dst ++ [base64.getD s.ok '\x00'], ok := 0, okbits := 0 }
  else s

def encodeLoop : Nat → Encoder → Option Encoder
  | 0, _ => none
  | fuel + 1, s => if s.src ≠ [] ∨ 0 < s.chrbits then encodeLoop fuel s.turn else some s

theorem count_and (count : Nat) : count &&& 3 = count % 4 := Nat.and_two_pow_sub_one_eq_mod count 2

def padLoop (dst : List Char) : List Char :=
  if dst.length &&& 3 ≠ 0 then padLoop (dst ++ ['=']) else dst
termination_by (4 - dst.length % 4) % 4
decreasing_by
  have := count_and dst.length
  rw [length_append, length_singleton]
  omega

/-- The last digit and the padding. -/
def Encoder.finish (s : Encoder) : List Char :=
  padLoop (if 0 < s.okbits
    then s.dst ++ [base64.getD ((s.ok <<< (6 - s.okbits)) % 256) '\x00'] else s.dst)

/-- What is in `dst` at the end, and the number that is returned. -/
def base64Encode (src : List Byte) : Option (List Char × Nat) :=
  (encodeLoop (2 * src.length + 1) ⟨src, 0, 0, 0, 0, []⟩).map fun s =>
    (s.finish ++ ['\x00'], s.finish.length)

theorem first_index (a : Byte) : a.toNat >>> 2 % 256 = a.toNat / 4 := by
  omega

theorem second_index (a b : Byte) :
    (((a.toNat <<< 6 % 256) >>> 6 % 256) <<< 4 ||| b.toNat >>> 4) % 256 =
      a.toNat % 4 * 16 + b.toNat / 16 := by
  rw [← Nat.shiftLeft_add_eq_or_of_lt] <;>
    simp only [Nat.shiftLeft_eq, Nat.shiftRight_eq_div_pow] <;> omega

theorem third_index (b c : Byte) :
    (((b.toNat <<< 4 % 256) >>> 4 % 256) <<< 2 ||| c.toNat >>> 6) % 256 =
      b.toNat % 16 * 4 + c.toNat / 64 := by
  rw [← Nat.shiftLeft_add_eq_or_of_lt] <;>
    simp only [Nat.shiftLeft_eq, Nat.shiftRight_eq_div_pow] <;> omega

theorem fourth_index (c : Byte) : (c.toNat <<< 2 % 256) >>> 2 % 256 = c.toNat % 64 := by
  omega

theorem pad_of_rem {dst : List Char} (h : dst.length % 4 = 0) : padLoop dst = dst := by
  rw [padLoop, count_and, if_neg (not_not.mpr h)]

theorem pad_step {dst : List Char} (h : dst.length % 4 ≠ 0) :
    padLoop dst = padLoop (dst ++ ['=']) := by
  rw [padLoop, count_and, if_pos h]

theorem encode_loop_spec (src : List Byte) {chr : Nat} {dst : List Char}
    (hdst : dst.length % 4 = 0) :
    ∃ s, encodeLoop (2 * src.length + 1) ⟨src, chr, 0, 0, 0, dst⟩ = some s ∧
      s.finish = dst ++ encode src := by
  have htable : base64 = alphabet := rfl
  induction src using encode.induct generalizing chr dst with
  | case1 a b c rest ih =>
    obtain ⟨s, hloop, hfinish⟩ := @ih ((c.toNat <<< 2 % 256) <<< 6 % 256)
      (dst ++ [digit (a.toNat / 4), digit (a.toNat % 4 * 16 + b.toNat / 16),
        digit (b.toNat % 16 * 4 + c.toNat / 64), digit (c.toNat % 64)]) (by simp; omega)
    refine ⟨s, ?_, by rw [hfinish, encode]; simp⟩
    rw [← hloop]
    -- two turns for each byte
    simp [mul_add, encodeLoop, Encoder.turn, first_index, second_index, third_index, fourth_index,
      htable, digit]
  | case2 a b =>
    have hlast : ((b.toNat <<< 4 % 256) >>> 4 % 256) <<< 2 % 256 = b.toNat % 16 * 4 := by
      simpa using third_index b 0
    simp [encodeLoop, Encoder.turn, Encoder.finish, first_index, second_index, hlast, htable,
      encode, digit]
    rw [pad_step (by simp; omega), pad_of_rem (by simp; omega)]
    simp
  | case3 a =>
    have hlast : ((a.toNat <<< 6 % 256) >>> 6 % 256) <<< 4 % 256 = a.toNat % 4 * 16 := by
      simpa using second_index a 0
    simp [encodeLoop, Encoder.turn, Encoder.finish, first_index, hlast, htable, encode, digit]
    rw [pad_step (by simp; omega), pad_step (by simp; omega), pad_of_rem (by simp; omega)]
    simp
  | case4 => exact ⟨_, rfl, by simp [Encoder.finish, pad_of_rem hdst, encode]⟩

/-- The output is the base64 encoding: its length is that of the input in groups of three bytes, and
decoding it gives the input back. -/
theorem base64_encode_ok (src : List Byte) : ∃ dst,
    base64Encode src = some (dst ++ ['\x00'], dst.length) ∧ dst = encode src ∧
      dst.length = 4 * ((src.length + 2) / 3) ∧ decode dst = src := by
  obtain ⟨s, hloop, hfinish⟩ := @encode_loop_spec src 0 [] rfl
  refine ⟨encode src, ?_, rfl, length_encode src, decode_encode src⟩
  rw [base64Encode, hloop, Option.map_some, hfinish, nil_append]

end FullhanRtos.Rtsp
