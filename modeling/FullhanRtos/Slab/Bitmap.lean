import FullhanRtos.Lib.Bits
import FullhanRtos.Slab.Pool

/-!
# The trunk bitmap of a zone page

`trunk_bitmap` is a 64-bit word that the code reads and writes byte by byte, so bit `8 * x + y` of
the word is bit `y` of byte `x` (the target is little endian). `find_trunk_spec` says that the
search of `alloc_trunk` stops at the lowest clear bit, and `mark_trunk_get` and `clear_trunk_get`
say what the byte writes do to the word.
-/

namespace FullhanRtos.Slab

open BitVec

def bitmapByte (bm : BitVec 64) (x : Nat) : BitVec 8 := bm.extractLsb' (8 * x) 8

def setBitmapByte (bm : BitVec 64) (x : Nat) (v : BitVec 8) : BitVec 64 :=
  (bm &&& ~~~(0xff#64 <<< (8 * x))) ||| (v.setWidth 64 <<< (8 * x))

/-- The inner loop of the search: the first `y` from the given one with `!(mask & (1 << y))`. -/
def findBit (mask : BitVec 8) : Nat → Nat → Nat
  | 0, y => y
  | fuel + 1, y => if mask &&& (1#8 <<< y) = 0#8 then y else findBit mask fuel (y + 1)

/-- The outer loop of the search: the first byte that is not `0xff`, and its first clear bit. -/
def findByte (bm : BitVec 64) : Nat → Nat → Nat × Nat
  | 0, x => (x, 0)
  | fuel + 1, x =>
    if bitmapByte bm x ≠ 0xff#8 then (x, findBit (bitmapByte bm x) 8 0)
    else findByte bm fuel (x + 1)

/-- The search of `alloc_trunk` for an unused trunk: byte index and bit index. -/
def findTrunk (bm : BitVec 64) : Nat × Nat := findByte bm 8 0

def markTrunk (bm : BitVec 64) (x y : Nat) : BitVec 64 :=
  setBitmapByte bm x (bitmapByte bm x ||| (1#8 <<< y))

def trunkUsed (bm : BitVec 64) (t : Nat) : Bool :=
  bitmapByte bm (t >>> 3) &&& (1#8 <<< (t &&& 7)) ≠ 0#8

def clearTrunk (bm : BitVec 64) (t : Nat) : BitVec 64 :=
  setBitmapByte bm (t >>> 3) (bitmapByte bm (t >>> 3) &&& ~~~(1#8 <<< (t &&& 7)))

section

variable (bm : BitVec 64) {x y : Nat}

theorem bitmap_byte_get :
    (bitmapByte bm x).getLsbD y = (decide (y < 8) && bm.getLsbD (8 * x + y)) :=
  getLsbD_extractLsb' ..

theorem byte_mask_get (i : Nat) : (0xff#64).getLsbD i = decide (i < 8) := by
  have hlow : ∀ j : Fin 64, (0xff#64).getLsbD j = decide (j.val < 8) := by decide
  by_cases hi : i < 64
  · exact hlow ⟨i, hi⟩
  · simp [getLsbD_of_ge, show ¬ i < 8 by omega, show 64 ≤ i by omega]

theorem set_bitmap_byte_get (hx : x < 8) (v : BitVec 8) (i : Nat) :
    (setBitmapByte bm x v).getLsbD i =
      if 8 * x ≤ i ∧ i < 8 * x + 8 then v.getLsbD (i - 8 * x) else bm.getLsbD i := by
  rw [setBitmapByte, getLsbD_or, getLsbD_and, getLsbD_not,
    getLsbD_shiftLeft, getLsbD_shiftLeft, getLsbD_setWidth, byte_mask_get]
  by_cases hi : i < 64
  · by_cases hlow : i < 8 * x
    · simp [hi, hlow, show ¬ 8 * x ≤ i by omega]
    · by_cases hhigh : i < 8 * x + 8
      · simp [hi, hlow, hhigh, show 8 * x ≤ i by omega, show i - 8 * x < 8 by omega,
          show i - 8 * x < 64 by omega]
      · have hv : v.getLsbD (i - 8 * x) = false := getLsbD_of_ge v _ (by omega)
        simp [hi, hlow, hhigh, show ¬ i - 8 * x < 8 by omega, hv]
  · simp [hi, show ¬ i < 8 * x + 8 by omega, getLsbD_of_ge bm i (by omega)]

/-- The inner search stops at the lowest clear bit. -/
theorem find_bit_spec (mask : BitVec 8) (fuel : Nat) {j : Nat} (hle : y ≤ j) (hj : j < 8)
    (hfuel : y + fuel = 8) (hclear : mask.getLsbD j = false) :
    findBit mask fuel y ≤ j ∧ mask.getLsbD (findBit mask fuel y) = false := by
  induction fuel generalizing y with
  | zero => omega
  | succ fuel ih =>
    rw [findBit]
    by_cases hy : mask.getLsbD y = false
    · rw [if_pos ((Bits.and_one_shift_eq_zero_iff mask (by omega)).mpr hy)]
      exact ⟨hle, hy⟩
    · rw [if_neg fun h => hy ((Bits.and_one_shift_eq_zero_iff mask (by omega)).mp h)]
      have hne : y ≠ j := fun h => hy (h ▸ hclear)
      exact ih (by omega) (by omega)

theorem byte_full_iff (b : BitVec 8) : b = 0xff#8 ↔ ∀ i, i < 8 → b.getLsbD i = true := by
  have hmask : ∀ i : Fin 8, (0xff#8).getLsbD i = true := by decide
  constructor
  · rintro rfl i hi
    exact hmask ⟨i, hi⟩
  · intro h
    exact eq_of_getLsbD_eq fun i hi => by rw [h i hi, hmask ⟨i, hi⟩]

/-- The outer search stops at the byte of the lowest clear bit. -/
theorem find_byte_spec {fuel j : Nat} (hle : 8 * x ≤ j) (hj : j < 64) (hfuel : x + fuel = 8)
    (hclear : bm.getLsbD j = false) :
    (findByte bm fuel x).1 < 8 ∧ (findByte bm fuel x).2 < 8 ∧
      8 * (findByte bm fuel x).1 + (findByte bm fuel x).2 ≤ j ∧
      bm.getLsbD (8 * (findByte bm fuel x).1 + (findByte bm fuel x).2) = false := by
  induction fuel generalizing x with
  | zero => omega
  | succ fuel ih =>
    rw [findByte]
    by_cases hfull : bitmapByte bm x = 0xff#8
    · rw [if_neg (by simp [hfull])]
      have hbits := (byte_full_iff _).mp hfull
      have hnext : 8 * (x + 1) ≤ j := by
        by_contra hcon
        have := hbits (j - 8 * x) (by omega)
        rw [bitmap_byte_get, show 8 * x + (j - 8 * x) = j by omega, hclear] at this
        simp at this
      exact ih hnext (by omega)
    · rw [if_pos hfull]
      obtain ⟨b, hb, hclear'⟩ : ∃ b, b < 8 ∧ (bitmapByte bm x).getLsbD b = false := by
        by_contra hcon
        push Not at hcon
        exact hfull ((byte_full_iff _).mpr fun i hi => by simpa using hcon i hi)
      obtain ⟨hle', hbit⟩ := find_bit_spec (bitmapByte bm x) 8 (Nat.zero_le b) hb rfl
        hclear'
      have hlt : findBit (bitmapByte bm x) 8 0 < 8 := by omega
      refine ⟨by omega, hlt, ?_, ?_⟩
      · -- A clear bit of this byte is at most any clear bit of it, and `j` is in it or behind.
        by_cases hin : j < 8 * x + 8
        · have hj' : (bitmapByte bm x).getLsbD (j - 8 * x) = false := by
            rw [bitmap_byte_get, show 8 * x + (j - 8 * x) = j by omega, hclear]
            simp
          have := (find_bit_spec (bitmapByte bm x) 8 (Nat.zero_le _) (by omega) rfl
            hj').1
          omega
        · simp only
          omega
      · rw [bitmap_byte_get] at hbit
        simpa [hlt] using hbit

/-- The search finds a clear bit that no other clear bit precedes. -/
theorem find_trunk_spec {j : Nat} (hj : j < 64) (hclear : bm.getLsbD j = false) :
    (findTrunk bm).1 < 8 ∧ (findTrunk bm).2 < 8 ∧
      8 * (findTrunk bm).1 + (findTrunk bm).2 ≤ j ∧
      bm.getLsbD (8 * (findTrunk bm).1 + (findTrunk bm).2) = false :=
  find_byte_spec bm (Nat.zero_le j) hj rfl hclear

theorem mark_trunk_get (hx : x < 8) (hy : y < 8) (i : Nat) :
    (markTrunk bm x y).getLsbD i = (bm.getLsbD i || decide (i = 8 * x + y)) := by
  rw [markTrunk, set_bitmap_byte_get bm hx, Bits.or_one_shift_get _ hy, bitmap_byte_get]
  by_cases hin : 8 * x ≤ i ∧ i < 8 * x + 8
  · rw [if_pos hin, show 8 * x + (i - 8 * x) = i by omega]
    simp only [show i - 8 * x < 8 by omega, decide_true, Bool.true_and]
    congr 1
    simp only [decide_eq_decide]
    omega
  · rw [if_neg hin]
    simp [show ¬ i = 8 * x + y by omega]

theorem trunk_split (t : Nat) : t >>> 3 = t / 8 ∧ t &&& 7 = t % 8 :=
  ⟨Nat.shiftRight_eq_div_pow t 3, Nat.and_two_pow_sub_one_eq_mod t 3⟩

/-- The test of `free_r` reads the trunk's bit. -/
theorem trunk_used_iff (t : Nat) : trunkUsed bm t = bm.getLsbD t := by
  obtain ⟨hdiv, hmod⟩ := trunk_split t
  have hy : t % 8 < 8 := by omega
  have hbit : (bitmapByte bm (t / 8)).getLsbD (t % 8) = bm.getLsbD t := by
    rw [bitmap_byte_get, show 8 * (t / 8) + t % 8 = t by omega]
    simp [hy]
  rw [trunkUsed, hdiv, hmod, ← hbit]
  have := Bits.and_one_shift_eq_zero_iff (bitmapByte bm (t / 8)) hy
  cases hb : (bitmapByte bm (t / 8)).getLsbD (t % 8) <;> simp_all

theorem clear_trunk_get {t : Nat} (ht : t < 64) (i : Nat) :
    (clearTrunk bm t).getLsbD i = (bm.getLsbD i && !decide (i = t)) := by
  obtain ⟨hdiv, hmod⟩ := trunk_split t
  rw [clearTrunk, hdiv, hmod, set_bitmap_byte_get bm (by omega),
    Bits.and_not_one_shift_get _ (by omega), bitmap_byte_get]
  by_cases hin : 8 * (t / 8) ≤ i ∧ i < 8 * (t / 8) + 8
  · rw [if_pos hin, show 8 * (t / 8) + (i - 8 * (t / 8)) = i by omega]
    simp only [show i - 8 * (t / 8) < 8 by omega, decide_true, Bool.true_and]
    congr 2
    simp only [decide_eq_decide]
    omega
  · rw [if_neg hin]
    simp [show ¬ i = t by omega]

end

end FullhanRtos.Slab
