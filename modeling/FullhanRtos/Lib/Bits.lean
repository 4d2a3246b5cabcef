import Mathlib.Data.BitVec
import Mathlib.Data.Finset.Card
import Mathlib.Data.Finset.Range

/-!
# Bits of machine words

The C idioms `x & (1 << i)`, `x | (1 << i)` and `x & ~(1 << i)` on words of any width, read bit by
bit, the number of set bits of a word, and assignments to bit fields.
-/

namespace Bits

open BitVec Finset

variable {w : Nat} (x : BitVec w) {i j : Nat} {y : BitVec w} {n pos : Nat}

theorem one_shift_get (hi : i < w) : (1#w <<< i).getLsbD j = decide (j = i) := by
  rw [← twoPow_eq, getLsbD_twoPow]
  by_cases hij : i = j
  · simp [hij, hij ▸ hi]
  · simp [hij, Ne.symm hij]

/-- Testing one bit. -/
theorem and_one_shift_eq_zero_iff (hi : i < w) :
    x &&& (1#w <<< i) = 0#w ↔ x.getLsbD i = false := by
  constructor
  · intro h
    have := congrArg (getLsbD · i) h
    simpa [one_shift_get hi] using this
  · intro h
    refine eq_of_getLsbD_eq fun j hj => ?_
    rw [getLsbD_and, one_shift_get hi]
    by_cases hij : j = i
    · simp [hij, h]
    · simp [hij]

/-- Setting one bit. -/
theorem or_one_shift_get (hi : i < w) :
    (x ||| (1#w <<< i)).getLsbD j = (x.getLsbD j || decide (j = i)) := by
  rw [getLsbD_or, one_shift_get hi]

/-- Clearing one bit. -/
theorem and_not_one_shift_get (hi : i < w) :
    (x &&& ~~~(1#w <<< i)).getLsbD j = (x.getLsbD j && !decide (j = i)) := by
  rw [getLsbD_and, getLsbD_not, one_shift_get hi]
  by_cases hj : j < w
  · simp [hj]
  · simp [getLsbD_of_ge x j (by omega)]

/-- A word is zero exactly when none of its bits is set. -/
theorem eq_zero_iff : x = 0#w ↔ ∀ i, x.getLsbD i = false := by
  constructor
  · rintro rfl i
    simp
  · intro h
    exact eq_of_getLsbD_eq fun i _ => by simp [h i]

/-- The number of set bits. -/
def popcount (x : BitVec w) : Nat :=
  ((Finset.range w).filter fun k => x.getLsbD k = true).card

theorem popcount_set (hi : i < w) (hclear : x.getLsbD i = false)
    (hy : ∀ j, y.getLsbD j = (x.getLsbD j || decide (j = i))) :
    popcount y = popcount x + 1 := by
  have hset : (Finset.range w).filter (fun k => y.getLsbD k = true) =
      insert i ((Finset.range w).filter fun k => x.getLsbD k = true) := by
    ext k
    simp only [mem_filter, mem_range, mem_insert, hy, Bool.or_eq_true, decide_eq_true_eq]
    constructor
    · tauto
    · rintro (rfl | h)
      · exact ⟨hi, .inr rfl⟩
      · exact ⟨h.1, .inl h.2⟩
  unfold popcount
  rw [hset, card_insert_of_notMem (by simp [hclear])]

theorem popcount_clear (hi : i < w) (hset : x.getLsbD i = true)
    (hy : ∀ j, y.getLsbD j = (x.getLsbD j && !decide (j = i))) :
    popcount y + 1 = popcount x := by
  refine (popcount_set y (i := i) hi (by simp [hy]) fun j => ?_).symm
  by_cases hij : j = i <;> simp [hy, hij, hset]

/-- A positive count comes from a set bit. -/
theorem exists_of_popcount_pos (h : 0 < popcount x) : ∃ i, i < w ∧ x.getLsbD i = true := by
  obtain ⟨i, hi⟩ := card_pos.mp h
  exact ⟨i, by simpa using hi⟩

/-- A word with one set bit has no other. -/
theorem eq_of_popcount_one (h : popcount x = 1) (hi : x.getLsbD i = true)
    (hj : x.getLsbD j = true) : i = j := by
  have hlt : ∀ k, x.getLsbD k = true → k < w := by
    intro k hk
    by_contra hcon
    simp [getLsbD_of_ge x k (by omega)] at hk
  refine card_le_one.mp (le_of_eq h) i ?_ j ?_
  · simp [hlt i hi, hi]
  · simp [hlt j hj, hj]

theorem exists_clear {n : Nat} (hn : n ≤ w) (hlt : popcount x < n) :
    ∃ i, i < n ∧ x.getLsbD i = false := by
  by_contra hcon
  push Not at hcon
  have hsub : Finset.range n ⊆ (Finset.range w).filter fun k => x.getLsbD k = true := by
    intro k hk
    rw [mem_range] at hk
    have := hcon k hk
    simp only [mem_filter, mem_range]
    exact ⟨by omega, by simpa using this⟩
  have := card_le_card hsub
  rw [card_range] at this
  unfold popcount at hlt
  omega

/-! ## Bit fields -/

def setField {n : Nat} (pos : Nat) (v : BitVec n) : BitVec w :=
  (x &&& ~~~((allOnes n).setWidth w <<< pos)) ||| (v.setWidth w <<< pos)

theorem set_field_get (v : BitVec n) (hi : i < w) :
    (setField x pos v).getLsbD i =
      if pos ≤ i ∧ i < pos + n then v.getLsbD (i - pos) else x.getLsbD i := by
  unfold setField
  rw [getLsbD_or, getLsbD_and, getLsbD_not, getLsbD_shiftLeft, getLsbD_shiftLeft, getLsbD_setWidth,
    getLsbD_setWidth, getLsbD_allOnes]
  by_cases hbelow : i < pos
  · rw [if_neg (by omega)]
    simp [hi, hbelow]
  · by_cases habove : i < pos + n
    · rw [if_pos (by omega)]
      have hwidth : i - pos < w := by omega
      have hfield : i - pos < n := by omega
      simp [hi, hbelow, hwidth, hfield]
    · rw [if_neg (by omega)]
      have hfield : ¬ i - pos < n := by omega
      simp [hi, hfield, getLsbD_of_ge v (i - pos) (by omega)]

theorem set_field_same (v : BitVec n) (hfit : pos + n ≤ w) :
    (setField x pos v).extractLsb' pos n = v := by
  refine eq_of_getLsbD_eq fun k hk => ?_
  rw [getLsbD_extractLsb', set_field_get x v (by omega), if_pos (by omega), Nat.add_sub_cancel_left]
  simp [hk]

theorem set_field_apart {n m pos start : Nat} (v : BitVec n) (hfit : start + m ≤ w)
    (hapart : start + m ≤ pos ∨ pos + n ≤ start) :
    (setField x pos v).extractLsb' start m = x.extractLsb' start m := by
  refine eq_of_getLsbD_eq fun k hk => ?_
  rw [getLsbD_extractLsb', getLsbD_extractLsb', set_field_get x v (by omega), if_neg (by omega)]

end Bits
