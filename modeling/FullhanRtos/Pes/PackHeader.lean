import FullhanRtos.Lib.ProgramStream
import Mathlib.Tactic.Ring
import FullhanRtos.Pes.Headers

/-!
# The pack header

What a decoder reads from the header that `PSMUX_fill_PSH` makes. The mask of the last byte of the
clock reference cuts its lowest bit off.
-/

namespace FullhanRtos.Pes

open Bytes ProgramStream BitVec

/-- The bytes of the clock reference, behind the start code. -/
def clockBytes (clock : BitVec 64) : List Byte :=
  [(0x40 ||| (clock >>> 27 &&& 0x38) ||| 0x04 ||| (clock >>> 28 &&& 0x03)).setWidth 8,
    (clock >>> 20).setWidth 8,
    ((clock >>> 12 &&& 0xf8) ||| 0x04 ||| (clock >>> 13 &&& 0x03)).setWidth 8,
    (clock >>> 5).setWidth 8, ((clock <<< 3 &&& 0xf0) ||| 0x04).setWidth 8, 0x01]

theorem field_toNat {x : Byte} {clock : BitVec 64} {i j n : Nat}
    (h : (x >>> i).setWidth n = (clock >>> j).setWidth n) :
    x.toNat / 2 ^ i % 2 ^ n = clock.toNat / 2 ^ j % 2 ^ n := by
  have htoNat := congrArg BitVec.toNat h
  simpa only [toNat_setWidth, toNat_ushiftRight, Nat.shiftRight_eq_div_pow] using htoNat

variable {a b c d e f : Byte}

theorem pack_header?_bytes (rest : List Byte) (ha : a.toNat / 2 ^ 6 = 1) :
    packHeader? ([0x00, 0x00, 0x01, 0xba, a, b, c, d, e, f, 0x00, 0x51, 0xef, 0xfe] ++ rest) =
      some
        { base := a.toNat / 2 ^ 3 % 2 ^ 3 * 2 ^ 30 +
            (a.toNat % 2 ^ 2 * 2 ^ 13 + b.toNat * 2 ^ 5 + c.toNat / 2 ^ 3) * 2 ^ 15 +
            (c.toNat % 2 ^ 2 * 2 ^ 13 + d.toNat * 2 ^ 5 + e.toNat / 2 ^ 3)
          extension := e.toNat % 2 ^ 2 * 2 ^ 7 + f.toNat / 2
          muxRate := 0x147b
          stuffing := 6
          markers := [a.toNat / 2 ^ 2 % 2, c.toNat / 2 ^ 2 % 2, e.toNat / 2 ^ 2 % 2, f.toNat % 2,
            1, 1] } := by
  let header : List Byte := [0x00, 0x00, 0x01, 0xba, a, b, c, d, e, f, 0x00, 0x51, 0xef, 0xfe]
  have hone : ∀ (before : List Byte) (x : Byte) (after : List Byte) start n, start + n ≤ 8 →
      bits (before ++ ([x] ++ after)) (8 * before.length + start) n =
        x.toNat / 2 ^ (8 - start - n) % 2 ^ n :=
    fun before x after start n h => bits_middle before [x] after start n h
  have hpre : bits header 0 32 = 0x1ba :=
    bits_middle [] [0x00, 0x00, 0x01, 0xba] (header.drop 4) 0 32 (by decide)
  have htwo : bits header 32 2 = 1 := by
    have hfield : bits header 32 2 = a.toNat / 2 ^ 6 % 2 ^ 2 :=
      hone (header.take 4) a (header.drop 5) 0 2 (by decide)
    rw [hfield, ha]
    rfl
  have hhigh : bits header 34 3 = a.toNat / 2 ^ 3 % 2 ^ 3 :=
    hone (header.take 4) a (header.drop 5) 2 3 (by decide)
  have hthree : ∀ x y z : Byte, bits [x, y, z] 6 15 =
      x.toNat % 2 ^ 2 * 2 ^ 13 + y.toNat * 2 ^ 5 + z.toNat / 2 ^ 3 := by
    intro x y z
    show (z.toNat + 256 * (y.toNat + 256 * x.toNat)) / 2 ^ 3 % 2 ^ 15 = _
    omega
  have hmiddle : bits header 38 15 =
      a.toNat % 2 ^ 2 * 2 ^ 13 + b.toNat * 2 ^ 5 + c.toNat / 2 ^ 3 :=
    (bits_middle (header.take 4) [a, b, c] (header.drop 7) 6 15 (show 21 ≤ 24 by omega)).trans
      (hthree a b c)
  have hlow : bits header 54 15 =
      c.toNat % 2 ^ 2 * 2 ^ 13 + d.toNat * 2 ^ 5 + e.toNat / 2 ^ 3 :=
    (bits_middle (header.take 6) [c, d, e] (header.drop 9) 6 15 (show 21 ≤ 24 by omega)).trans
      (hthree c d e)
  have hextension : bits header 70 9 = e.toNat % 2 ^ 2 * 2 ^ 7 + f.toNat / 2 := by
    have hfield : bits header 70 9 = (f.toNat + 256 * e.toNat) / 2 ^ 1 % 2 ^ 9 :=
      bits_middle (header.take 8) [e, f] (header.drop 10) 6 9 (show 15 ≤ 16 by omega)
    omega
  have hrate : bits header 80 22 = 0x147b :=
    bits_middle (header.take 10) [0x00, 0x51, 0xef] (header.drop 13) 0 22 (by decide)
  have hstuffing : bits header 109 3 = 6 := bits_middle (header.take 13) [0xfe] [] 5 3 (by decide)
  have hmarkers : [37, 53, 69, 79, 102, 103].map (bits header · 1) =
      [a.toNat / 2 ^ 2 % 2, c.toNat / 2 ^ 2 % 2, e.toNat / 2 ^ 2 % 2, f.toNat % 2, 1, 1] := by
    have h1 : bits header 37 1 = a.toNat / 2 ^ 2 % 2 :=
      hone (header.take 4) a (header.drop 5) 5 1 (by decide)
    have h2 : bits header 53 1 = c.toNat / 2 ^ 2 % 2 :=
      hone (header.take 6) c (header.drop 7) 5 1 (by decide)
    have h3 : bits header 69 1 = e.toNat / 2 ^ 2 % 2 :=
      hone (header.take 8) e (header.drop 9) 5 1 (by decide)
    have h4 : bits header 79 1 = f.toNat % 2 := by
      rw [← Nat.div_one f.toNat]
      exact hone (header.take 9) f (header.drop 10) 7 1 (by decide)
    have h5 : bits header 102 1 = 1 := hone (header.take 12) 0xef (header.drop 13) 6 1 (by decide)
    have h6 : bits header 103 1 = 1 := hone (header.take 12) 0xef (header.drop 13) 7 1 (by decide)
    show [bits header 37 1, bits header 53 1, bits header 69 1, bits header 79 1,
      bits header 102 1, bits header 103 1] = _
    rw [h1, h2, h3, h4, h5, h6]
  show (if header.length = 14 ∧ bits header 0 32 = 0x1ba ∧ bits header 32 2 = 1 then
    some (PackHeader.mk (bits header 34 3 * 2 ^ 30 + bits header 38 15 * 2 ^ 15 + bits header 54 15)
      (bits header 70 9) (bits header 80 22) (bits header 109 3)
      ([37, 53, 69, 79, 102, 103].map (bits header · 1))) else none) = _
  rw [if_pos ⟨rfl, hpre, htwo⟩, hhigh, hmiddle, hlow, hextension, hrate, hstuffing, hmarkers]

theorem clock_first (clock : BitVec 64) {a : Byte}
    (ha : a = (0x40 ||| (clock >>> 27 &&& 0x38) ||| 0x04 ||| (clock >>> 28 &&& 0x03)).setWidth 8) :
    a.toNat / 2 ^ 6 = 1 ∧ a.toNat / 2 ^ 2 % 2 = 1 ∧
      a.toNat / 2 ^ 3 % 2 ^ 3 = clock.toNat / 2 ^ 30 % 2 ^ 3 ∧
      a.toNat % 2 ^ 2 = clock.toNat / 2 ^ 28 % 2 ^ 2 := by
  have hmark : (a >>> 6).setWidth 2 = (0x40#64 >>> 6).setWidth 2 := by
    apply eq_of_getLsbD_eq
    intro i hi
    interval_cases i <;> simp [ha]
  have hmarker : (a >>> 2).setWidth 1 = (0x04#64 >>> 2).setWidth 1 := by
    apply eq_of_getLsbD_eq
    intro i hi
    interval_cases i
    simp [ha]
  have hhigh : (a >>> 3).setWidth 3 = (clock >>> 30).setWidth 3 := by
    apply eq_of_getLsbD_eq
    intro i hi
    interval_cases i <;> simp [ha]
  have hlow : (a >>> 0).setWidth 2 = (clock >>> 28).setWidth 2 := by
    apply eq_of_getLsbD_eq
    intro i hi
    interval_cases i <;> simp [ha]
  have hfirst : a.toNat / 2 ^ 6 % 2 ^ 2 = 1 := field_toNat hmark
  refine ⟨by omega, field_toNat hmarker, field_toNat hhigh, ?_⟩
  simpa only [Nat.pow_zero, Nat.div_one] using field_toNat hlow

theorem clock_third (clock : BitVec 64) {c : Byte}
    (hc : c = ((clock >>> 12 &&& 0xf8) ||| 0x04 ||| (clock >>> 13 &&& 0x03)).setWidth 8) :
    c.toNat / 2 ^ 2 % 2 = 1 ∧ c.toNat / 2 ^ 3 = clock.toNat / 2 ^ 15 % 2 ^ 5 ∧
      c.toNat % 2 ^ 2 = clock.toNat / 2 ^ 13 % 2 ^ 2 := by
  have hmarker : (c >>> 2).setWidth 1 = (0x04#64 >>> 2).setWidth 1 := by
    apply eq_of_getLsbD_eq
    intro i hi
    interval_cases i
    simp [hc]
  have hhigh : (c >>> 3).setWidth 5 = (clock >>> 15).setWidth 5 := by
    apply eq_of_getLsbD_eq
    intro i hi
    interval_cases i <;> simp [hc]
  have hlow : (c >>> 0).setWidth 2 = (clock >>> 13).setWidth 2 := by
    apply eq_of_getLsbD_eq
    intro i hi
    interval_cases i <;> simp [hc]
  have hfive : c.toNat / 2 ^ 3 % 2 ^ 5 = clock.toNat / 2 ^ 15 % 2 ^ 5 := field_toNat hhigh
  refine ⟨field_toNat hmarker, ?_, ?_⟩
  · rw [← hfive]
    omega
  · simpa only [Nat.pow_zero, Nat.div_one] using field_toNat hlow

theorem clock_fifth (clock : BitVec 64) {e : Byte}
    (he : e = ((clock <<< 3 &&& 0xf0) ||| 0x04).setWidth 8) :
    e.toNat / 2 ^ 2 % 2 = 1 ∧ e.toNat / 2 ^ 3 = clock.toNat / 2 % 2 ^ 4 * 2 := by
  have hmarker : (e >>> 2).setWidth 1 = (0x04#64 >>> 2).setWidth 1 := by
    apply eq_of_getLsbD_eq
    intro i hi
    interval_cases i
    simp [he]
  have hlost : (e >>> 3).setWidth 1 = (0x04#64 >>> 3).setWidth 1 := by
    apply eq_of_getLsbD_eq
    intro i hi
    interval_cases i
    simp [he]
  have hhigh : (e >>> 4).setWidth 4 = (clock >>> 1).setWidth 4 := by
    apply eq_of_getLsbD_eq
    intro i hi
    interval_cases i <;> simp [he]
  have hfour : e.toNat / 2 ^ 4 % 2 ^ 4 = clock.toNat / 2 ^ 1 % 2 ^ 4 := field_toNat hhigh
  have hzero : e.toNat / 2 ^ 3 % 2 ^ 1 = 0 := field_toNat hlost
  refine ⟨field_toNat hmarker, ?_⟩
  omega

theorem clock_fields (clock : BitVec 64) : ∃ a b c d e : Byte,
    clockBytes clock = [a, b, c, d, e, 0x01] ∧
      a.toNat / 2 ^ 6 = 1 ∧ a.toNat / 2 ^ 2 % 2 = 1 ∧ c.toNat / 2 ^ 2 % 2 = 1 ∧
      e.toNat / 2 ^ 2 % 2 = 1 ∧ a.toNat / 2 ^ 3 % 2 ^ 3 = clock.toNat / 2 ^ 30 % 2 ^ 3 ∧
      a.toNat % 2 ^ 2 = clock.toNat / 2 ^ 28 % 2 ^ 2 ∧ b.toNat = clock.toNat / 2 ^ 20 % 2 ^ 8 ∧
      c.toNat / 2 ^ 3 = clock.toNat / 2 ^ 15 % 2 ^ 5 ∧
      c.toNat % 2 ^ 2 = clock.toNat / 2 ^ 13 % 2 ^ 2 ∧ d.toNat = clock.toNat / 2 ^ 5 % 2 ^ 8 ∧
      e.toNat / 2 ^ 3 = clock.toNat / 2 % 2 ^ 4 * 2 := by
  obtain ⟨hmark, hm1, hhigh, hlow⟩ := clock_first clock rfl
  obtain ⟨hm2, hhigh', hlow'⟩ := clock_third clock rfl
  obtain ⟨hm3, hfifth⟩ := clock_fifth clock rfl
  have hb : ((clock >>> 20).setWidth 8).toNat = clock.toNat / 2 ^ 20 % 2 ^ 8 := by
    rw [toNat_setWidth, toNat_ushiftRight, Nat.shiftRight_eq_div_pow]
  have hd : ((clock >>> 5).setWidth 8).toNat = clock.toNat / 2 ^ 5 % 2 ^ 8 := by
    rw [toNat_setWidth, toNat_ushiftRight, Nat.shiftRight_eq_div_pow]
  exact ⟨_, _, _, _, _, rfl, hmark, hm1, hm2, hm3, hhigh, hlow, hb, hhigh', hlow', hd, hfifth⟩

theorem mod_pow_add (m i j : Nat) :
    m % 2 ^ (i + j) = m % 2 ^ i + 2 ^ i * (m / 2 ^ i % 2 ^ j) := by
  rw [Nat.pow_add, Nat.mod_mul]

theorem clock_ranges (m : Nat) :
    m % 2 ^ 33 = m / 2 ^ 30 % 2 ^ 3 * 2 ^ 30 +
      (m / 2 ^ 28 % 2 ^ 2 * 2 ^ 13 + m / 2 ^ 20 % 2 ^ 8 * 2 ^ 5 + m / 2 ^ 15 % 2 ^ 5) * 2 ^ 15 +
      (m / 2 ^ 13 % 2 ^ 2 * 2 ^ 13 + m / 2 ^ 5 % 2 ^ 8 * 2 ^ 5 + m / 2 % 2 ^ 4 * 2) + m % 2 := by
  have h1 : m % 2 ^ 33 = m % 2 ^ 30 + 2 ^ 30 * (m / 2 ^ 30 % 2 ^ 3) := mod_pow_add m 30 3
  have h2 : m % 2 ^ 30 = m % 2 ^ 28 + 2 ^ 28 * (m / 2 ^ 28 % 2 ^ 2) := mod_pow_add m 28 2
  have h3 : m % 2 ^ 28 = m % 2 ^ 20 + 2 ^ 20 * (m / 2 ^ 20 % 2 ^ 8) := mod_pow_add m 20 8
  have h4 : m % 2 ^ 20 = m % 2 ^ 15 + 2 ^ 15 * (m / 2 ^ 15 % 2 ^ 5) := mod_pow_add m 15 5
  have h5 : m % 2 ^ 15 = m % 2 ^ 13 + 2 ^ 13 * (m / 2 ^ 13 % 2 ^ 2) := mod_pow_add m 13 2
  have h6 : m % 2 ^ 13 = m % 2 ^ 5 + 2 ^ 5 * (m / 2 ^ 5 % 2 ^ 8) := mod_pow_add m 5 8
  have h7 : m % 2 ^ 5 = m % 2 + 2 * (m / 2 % 2 ^ 4) := mod_pow_add m 1 4
  rw [h1, h2, h3, h4, h5, h6, h7]
  ring

/-- A decoder reads the clock of 33 bits, with all marker bits set, exactly if the clock is even. -/
theorem pack_clock_iff (param : ProcessParam) :
    ∃ header, packHeader? (fillPsh param) = some header ∧
      (header.base = param.sysClkRef.toNat % 2 ^ 33 ∧ (∀ marker ∈ header.markers, marker = 1) ↔
        param.sysClkRef.toNat % 2 = 0) := by
  obtain ⟨a, b, c, d, e, hbytes, ha, hm1, hm2, hm3, h1, h2, h3, h4, h5, h6, h7⟩ :=
    clock_fields param.sysClkRef
  have hheader : fillPsh param = [0x00, 0x00, 0x01, 0xba, a, b, c, d, e, 0x01, 0x00, 0x51, 0xef,
      0xfe] ++ (fillPsh param).drop 14 := by
    obtain ⟨rfl, rfl, rfl, rfl, rfl⟩ := hbytes
    rfl
  rw [hheader, pack_header?_bytes _ ha]
  refine ⟨_, rfl, ?_⟩
  rw [hm1, hm2, hm3, h1, h2, h3, h4, h5, h6, h7, clock_ranges]
  constructor
  · intro ⟨hbase, _⟩
    exact Nat.left_eq_add.mp hbase
  · intro heven
    refine ⟨?_, fun marker hmarker => ?_⟩
    · rw [heven, add_zero]
    · simpa using hmarker

def firstPacket (encType : Byte) (clock : BitVec 64) : ProcessParam where
  encType := encType
  frameType := .iFrame
  isFirstUnit := true
  isLastUnit := true
  isKeyFrame := true
  isUnitStart := true
  isUnitEnd := true
  sysClkRef := clock
  ptimeStamp := clock
  frameNum := 0
  unitIn := ⟨[], by decide⟩
  encrypt := 0

/-- At clock 1 a decoder reads the base 0. -/
theorem odd_clock_lost :
    (packHeader? (fillPsh (firstPacket 0x1b 1))).map PackHeader.base = some 0 ∧
      (firstPacket 0x1b 1).sysClkRef.toNat % 2 ^ 33 = 1 := by
  decide +kernel

end FullhanRtos.Pes
