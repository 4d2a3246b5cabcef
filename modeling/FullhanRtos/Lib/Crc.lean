import FullhanRtos.Lib.Bytes
import Mathlib.Logic.Function.Iterate
import Mathlib.Tactic.IntervalCases

/-!
# Cyclic redundancy checks

A register of 32 bits that is divided by a polynomial bit by bit, the highest bit first.
`crc_append` says which bytes behind a message make its remainder zero, and `crc_byte_table` how a
byte is taken in one step with a table.
-/

namespace Crc

open Bytes BitVec

/-- One step of the division. -/
def crcBit (poly c : BitVec 32) : BitVec 32 := if c.msb then c <<< 1 ^^^ poly else c <<< 1

/-- A byte is added at the top. -/
def crcByte (poly c : BitVec 32) (b : Byte) : BitVec 32 :=
  (crcBit poly)^[8] (c ^^^ b.setWidth 32 <<< 24)

/-- The register after a message. -/
def crc (poly c : BitVec 32) (message : List Byte) : BitVec 32 := message.foldl (crcByte poly) c

/-- The bytes of a register, the highest first. -/
def crcBytes (c : BitVec 32) : List Byte :=
  [(c >>> 24).setWidth 8, (c >>> 16).setWidth 8, (c >>> 8).setWidth 8, c.setWidth 8]

/-- The register of four bytes. -/
def crcWord (a b d e : Byte) : BitVec 32 :=
  a.setWidth 32 <<< 24 ^^^ b.setWidth 32 <<< 16 ^^^ d.setWidth 32 <<< 8 ^^^ e.setWidth 32

variable {poly : BitVec 32} {message : List Byte} {c : BitVec 32}

theorem crc_append (c : BitVec 32) (message' : List Byte) :
    crc poly c (message ++ message') = crc poly (crc poly c message) message' :=
  List.foldl_append

/-! ## The division is linear -/

theorem crc_bit_xor (a b : BitVec 32) :
    crcBit poly (a ^^^ b) = crcBit poly a ^^^ crcBit poly b := by
  unfold crcBit
  rw [msb_xor, shiftLeft_xor_distrib]
  cases a.msb <;> cases b.msb
  · rfl
  · exact BitVec.xor_assoc _ _ _
  · show a <<< 1 ^^^ b <<< 1 ^^^ poly = a <<< 1 ^^^ poly ^^^ b <<< 1
    rw [BitVec.xor_assoc, BitVec.xor_comm (b <<< 1), BitVec.xor_assoc]
  · show a <<< 1 ^^^ b <<< 1 = a <<< 1 ^^^ poly ^^^ (b <<< 1 ^^^ poly)
    rw [BitVec.xor_assoc, BitVec.xor_comm (b <<< 1), ← BitVec.xor_assoc poly, BitVec.xor_self,
      BitVec.zero_xor]

theorem crc_bits_xor (n : Nat) (a b : BitVec 32) :
    (crcBit poly)^[n] (a ^^^ b) = (crcBit poly)^[n] a ^^^ (crcBit poly)^[n] b := by
  induction n generalizing a b with
  | zero => rfl
  | succ n ih => rw [Function.iterate_succ_apply, crc_bit_xor, ih]; rfl

/-- A polynomial that ends in 1 loses nothing. -/
theorem crc_bit_eq_zero (hpoly : poly.getLsbD 0 = true) :
    crcBit poly c = 0 ↔ c = 0 := by
  constructor
  · intro hzero
    unfold crcBit at hzero
    cases hmsb : c.msb with
    | true =>
      rw [hmsb, if_pos rfl] at hzero
      have hbit : (c <<< 1 ^^^ poly).getLsbD 0 = false := by
        rw [hzero]
        rfl
      rw [getLsbD_xor, hpoly] at hbit
      simp at hbit
    | false =>
      rw [hmsb, if_neg Bool.false_ne_true] at hzero
      apply eq_of_getLsbD_eq
      intro i hi
      rcases lt_or_ge i 31 with hlt | hge
      · have hbit := congrArg (·.getLsbD (i + 1)) hzero
        simp only [getLsbD_shiftLeft] at hbit
        simpa [Nat.succ_lt_succ hlt] using hbit
      · obtain rfl : i = 31 := by omega
        rw [msb_eq_getLsbD_last] at hmsb
        simpa using hmsb
  · rintro rfl
    rfl

theorem crc_bits_eq_zero (hpoly : poly.getLsbD 0 = true) (n : Nat) :
    (crcBit poly)^[n] c = 0 ↔ c = 0 := by
  induction n generalizing c with
  | zero => rfl
  | succ n ih => rw [Function.iterate_succ_apply, ih, crc_bit_eq_zero hpoly]

theorem crc_bits_shift (n : Nat) (hn : n ≤ 32) (hlow : c.toNat < 2 ^ (32 - n)) :
    (crcBit poly)^[n] c = c <<< n := by
  induction n generalizing c with
  | zero => exact (shiftLeft_zero c).symm
  | succ n ih =>
    have hhalf : 2 ^ (32 - n) = 2 * 2 ^ (32 - (n + 1)) := by
      rw [← Nat.pow_succ']
      congr 1
      omega
    have htop : 2 ^ (32 - (n + 1)) ≤ 2 ^ 31 := Nat.pow_le_pow_right (by omega) (by omega)
    have hmsb : c.msb = false := msb_eq_false_iff_two_mul_lt.mpr (by omega)
    have hstep : crcBit poly c = c <<< 1 := by
      rw [crcBit, hmsb]
      rfl
    have hshift : (c <<< 1).toNat < 2 ^ (32 - n) := by
      exact (Nat.mod_le _ _).trans_lt (by omega)
    rw [Function.iterate_succ_apply, hstep, ih (by omega) hshift, add_comm, shiftLeft_add]

/-- A byte is taken in one step: the entry of the byte on top of the register, and the rest of the
register moved up. -/
theorem crc_byte_table (c : BitVec 32) (b : Byte) :
    crcByte poly c b =
      (crcBit poly)^[8] (((c >>> 24).setWidth 8 ^^^ b).setWidth 32 <<< 24) ^^^ c <<< 8 := by
  have hsplit : c ^^^ b.setWidth 32 <<< 24 =
      ((c >>> 24).setWidth 8 ^^^ b).setWidth 32 <<< 24 ^^^ (c.setWidth 24).setWidth 32 := by
    apply eq_of_getLsbD_eq
    intro i hi
    interval_cases i <;> simp
  have hlow : ((c.setWidth 24).setWidth 32).toNat < 2 ^ (32 - 8) := by
    rw [toNat_setWidth, toNat_setWidth]
    omega
  have hmoved : (c.setWidth 24).setWidth 32 <<< 8 = c <<< 8 := by
    apply eq_of_getLsbD_eq
    intro i hi
    interval_cases i <;> simp
  rw [crcByte, hsplit, crc_bits_xor, crc_bits_shift 8 (by omega) hlow, hmoved]

/-! ## A message with its remainder -/

/-- A byte can be added before the steps that bring it to the top. -/
theorem crc_byte_ahead (c : BitVec 32) (b : Byte) {n : Nat} (hn : n ≤ 24) :
    crcByte poly ((crcBit poly)^[n] c) b =
      (crcBit poly)^[n + 8] (c ^^^ b.setWidth 32 <<< (24 - n)) := by
  have hroom : (b.setWidth 32 <<< (24 - n)).toNat < 2 ^ (32 - n) := by
    have hpow : 2 ^ (32 - n) = 2 ^ 8 * 2 ^ (24 - n) := by
      rw [← Nat.pow_add]
      congr 1
      omega
    rw [toNat_shiftLeft, Nat.shiftLeft_eq, toNat_setWidth, hpow]
    refine (Nat.mod_le _ _).trans_lt ((Nat.mul_lt_mul_right (Nat.two_pow_pos _)).mpr ?_)
    exact (Nat.mod_le _ _).trans_lt b.isLt
  have hmoved : (crcBit poly)^[n] (b.setWidth 32 <<< (24 - n)) = b.setWidth 32 <<< 24 := by
    rw [crc_bits_shift n (by omega) hroom, ← shiftLeft_add, Nat.sub_add_cancel hn]
  rw [crcByte, ← hmoved, ← crc_bits_xor, ← Function.iterate_add_apply, add_comm]

theorem crc_four (c : BitVec 32) (a b d e : Byte) :
    crc poly c [a, b, d, e] = (crcBit poly)^[32] (c ^^^ crcWord a b d e) := by
  have hfirst : crcByte poly c a = (crcBit poly)^[8] (c ^^^ a.setWidth 32 <<< 24) := rfl
  have hlast : e.setWidth 32 <<< (24 - (8 + 8 + 8)) = e.setWidth 32 := shiftLeft_zero _
  show crcByte poly (crcByte poly (crcByte poly (crcByte poly c a) b) d) e = _
  rw [hfirst, crc_byte_ahead _ b (by omega), crc_byte_ahead _ d (by omega),
    crc_byte_ahead _ e (by omega), crcWord, ← xor_assoc, ← xor_assoc, ← xor_assoc, hlast]

theorem crc_bytes_word (a b d e : Byte) : crcBytes (crcWord a b d e) = [a, b, d, e] := by
  have ha : (crcWord a b d e >>> 24).setWidth 8 = a := by
    apply eq_of_getLsbD_eq
    intro i hi
    interval_cases i <;> simp [crcWord]
  have hb : (crcWord a b d e >>> 16).setWidth 8 = b := by
    apply eq_of_getLsbD_eq
    intro i hi
    interval_cases i <;> simp [crcWord]
  have hd : (crcWord a b d e >>> 8).setWidth 8 = d := by
    apply eq_of_getLsbD_eq
    intro i hi
    interval_cases i <;> simp [crcWord]
  have he : (crcWord a b d e).setWidth 8 = e := by
    apply eq_of_getLsbD_eq
    intro i hi
    interval_cases i <;> simp [crcWord]
  rw [crcBytes, ha, hb, hd, he]

theorem crc_word_bytes (c : BitVec 32) :
    crcWord ((c >>> 24).setWidth 8) ((c >>> 16).setWidth 8) ((c >>> 8).setWidth 8)
      (c.setWidth 8) = c := by
  apply eq_of_getLsbD_eq
  intro i hi
  interval_cases i <;> simp [crcWord]

/-- The remainder is zero exactly if the last four bytes are the remainder of what stands before
them. -/
theorem crc_eq_zero_iff (hpoly : poly.getLsbD 0 = true) (c : BitVec 32) (message : List Byte)
    (a b d e : Byte) :
    crc poly c (message ++ [a, b, d, e]) = 0 ↔ [a, b, d, e] = crcBytes (crc poly c message) := by
  rw [crc_append, crc_four, crc_bits_eq_zero hpoly]
  generalize crc poly c message = r
  constructor
  · intro hzero
    have hword : r = crcWord a b d e := BitVec.xor_eq_zero_iff.mp hzero
    rw [hword, crc_bytes_word]
  · intro hbytes
    obtain ⟨rfl, rfl, rfl, rfl⟩ := hbytes
    rw [crc_word_bytes, BitVec.xor_self]
    rfl

/-! ## The register with its bytes in reverse -/

def crcSwap (c : BitVec 32) : BitVec 32 :=
  crcWord (c.setWidth 8) ((c >>> 8).setWidth 8) ((c >>> 16).setWidth 8) ((c >>> 24).setWidth 8)

theorem crc_swap_xor (a b : BitVec 32) : crcSwap (a ^^^ b) = crcSwap a ^^^ crcSwap b := by
  apply eq_of_getLsbD_eq
  intro i hi
  interval_cases i <;> simp [crcSwap, crcWord]

theorem crc_swap_shift (c : BitVec 32) : crcSwap (c <<< 8) = crcSwap c >>> 8 := by
  apply eq_of_getLsbD_eq
  intro i hi
  interval_cases i <;> simp [crcSwap, crcWord]

/-- The byte on top is then the lowest one. -/
theorem crc_swap_low (c : BitVec 32) : (crcSwap c).setWidth 8 = (c >>> 24).setWidth 8 := by
  apply eq_of_getLsbD_eq
  intro i hi
  interval_cases i <;> simp [crcSwap, crcWord]

/-- A table of swapped entries keeps the swapped register. -/
theorem crc_swap_table {table : Byte → BitVec 32}
    (htable : ∀ b, table b = crcSwap ((crcBit poly)^[8] (b.setWidth 32 <<< 24))) (c : BitVec 32)
    (message : List Byte) :
    message.foldl (fun (c : BitVec 32) b => table (c.setWidth 8 ^^^ b) ^^^ c >>> 8) (crcSwap c) =
      crcSwap (crc poly c message) := by
  induction message generalizing c with
  | nil => rfl
  | cons b message ih =>
    have hstep : table ((crcSwap c).setWidth 8 ^^^ b) ^^^ crcSwap c >>> 8 =
        crcSwap (crcByte poly c b) := by
      rw [htable, crc_swap_low, crc_byte_table, crc_swap_xor, crc_swap_shift]
    rw [List.foldl_cons, hstep, ih]
    rfl

theorem crc_bytes_inj {c c' : BitVec 32} (h : crcBytes c = crcBytes c') : c = c' := by
  simp only [crcBytes, List.cons.injEq, and_true] at h
  obtain ⟨ha, hb, hd, he⟩ := h
  rw [← crc_word_bytes c, ← crc_word_bytes c', ha, hb, hd, he]

/-! ## A table, the lowest bit first -/

section

/-- A byte is taken in at the bottom. -/
def tableStep (table : Byte → BitVec 32) (c : BitVec 32) (b : Byte) : BitVec 32 :=
  c >>> 8 ^^^ table (c.setWidth 8 ^^^ b)

variable {table : Byte → BitVec 32} {c c' : BitVec 32} {b b' : Byte} {bs bs' : List Byte}
  {k : Nat}

/-- The top byte of a register tells the entry that was added last. -/
theorem table_step_back (htop : ∀ i j, table i >>> 24 = table j >>> 24 → i = j) (hk : k ≤ 3)
    (h : tableStep table c b >>> (8 * k) = tableStep table c' b' >>> (8 * k)) :
    c.setWidth 8 ^^^ b = c'.setWidth 8 ^^^ b' ∧ c >>> (8 * (k + 1)) = c' >>> (8 * (k + 1)) := by
  have hentry : ∀ c b, tableStep table c b >>> 24 = table (c.setWidth 8 ^^^ b) >>> 24 := by
    intro c b
    rw [tableStep, ushiftRight_xor_distrib, ← shiftRight_add]
    have hzero : c >>> (8 + 24) = 0#32 := by
      apply eq_of_toNat_eq
      rw [toNat_ushiftRight, Nat.shiftRight_eq_div_pow, Nat.div_eq_of_lt c.isLt]
      rfl
    rw [hzero, zero_xor]
  have hindex : c.setWidth 8 ^^^ b = c'.setWidth 8 ^^^ b' := by
    apply htop
    rw [← hentry, ← hentry, show 24 = 8 * k + (24 - 8 * k) by omega, shiftRight_add, h,
      shiftRight_add]
  refine ⟨hindex, ?_⟩
  rw [tableStep, tableStep, hindex, ushiftRight_xor_distrib, ushiftRight_xor_distrib] at h
  have hshift := (xor_left_inj _).mp h
  rwa [← shiftRight_add, ← shiftRight_add, show 8 + 8 * k = 8 * (k + 1) by omega] at hshift

/-- At most four bytes are told from the register before and the one behind. -/
theorem table_fold_back (htop : ∀ i j, table i >>> 24 = table j >>> 24 → i = j)
    (hlen : bs.length = bs'.length) (hk : k + bs.length ≤ 4)
    (h : bs.foldl (tableStep table) c >>> (8 * k) = bs'.foldl (tableStep table) c' >>> (8 * k)) :
    c >>> (8 * (k + bs.length)) = c' >>> (8 * (k + bs.length)) ∧ (c = c' → bs = bs') := by
  induction bs generalizing c c' bs' with
  | nil =>
    obtain rfl := List.eq_nil_of_length_eq_zero hlen.symm
    exact ⟨h, fun _ => rfl⟩
  | cons b bs ih =>
    cases bs' with
    | nil => cases hlen
    | cons b' bs' =>
      rw [List.length_cons] at hk
      obtain ⟨hshift, hrest⟩ := ih (Nat.succ.inj hlen) (by omega) h
      obtain ⟨hindex, hbefore⟩ := table_step_back htop (by omega) hshift
      refine ⟨hbefore, fun heq => ?_⟩
      subst heq
      obtain rfl := (xor_right_inj _).mp hindex
      rw [hrest rfl]

/-- The same bytes lead from different registers to different ones. -/
theorem table_fold_inj (htop : ∀ i j, table i >>> 24 = table j >>> 24 → i = j)
    (h : bs.foldl (tableStep table) c = bs.foldl (tableStep table) c') : c = c' := by
  induction bs generalizing c c' with
  | nil => exact h
  | cons b bs ih =>
    have hstep : tableStep table c b >>> (8 * 0) = tableStep table c' b >>> (8 * 0) := by
      rw [ih h]
    obtain ⟨hindex, hbefore⟩ := table_step_back htop (Nat.zero_le 3) hstep
    have hlow := (xor_left_inj _).mp hindex
    have hdiv : c.toNat / 2 ^ 8 = c'.toNat / 2 ^ 8 := by
      rw [← Nat.shiftRight_eq_div_pow, ← Nat.shiftRight_eq_div_pow, ← toNat_ushiftRight,
        ← toNat_ushiftRight]
      exact congrArg BitVec.toNat hbefore
    have hmod : c.toNat % 2 ^ 8 = c'.toNat % 2 ^ 8 := by
      rw [← toNat_setWidth, ← toNat_setWidth, hlow]
    apply eq_of_toNat_eq
    omega

/-- Other bytes in the place of at most four bytes change the register. -/
theorem burst_detected (htop : ∀ i j, table i >>> 24 = table j >>> 24 → i = j)
    {pre post : List Byte} (hlen : bs.length = bs'.length) (hshort : bs.length ≤ 4)
    (h : (pre ++ (bs ++ post)).foldl (tableStep table) c =
      (pre ++ (bs' ++ post)).foldl (tableStep table) c) : bs = bs' := by
  simp only [List.foldl_append] at h
  have hbehind := table_fold_inj htop h
  have hshift : bs.foldl (tableStep table) (pre.foldl (tableStep table) c) >>> (8 * 0) =
      bs'.foldl (tableStep table) (pre.foldl (tableStep table) c) >>> (8 * 0) := by
    rw [hbehind]
  exact (table_fold_back htop hlen (by omega) hshift).2 rfl

end

end Crc
