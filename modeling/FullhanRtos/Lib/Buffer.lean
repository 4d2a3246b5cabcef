import Mathlib.Algebra.BigOperators.Group.List.Basic
import Mathlib.Algebra.GroupWithZero.Nat
import Mathlib.Data.List.Basic
import Mathlib.Tactic.Common

/-!
# Buffers

Writing into a buffer in place, and cutting one every `n` elements. `write_at_gap` joins two writes
with a gap between them, where the buffer keeps what it had. `cut_flatten` says that full segments
are cut where they were joined.
-/

namespace Buffer

open List

variable {α : Type*} {data src xs ys : List α} {pos n gap : Nat}

/-- Overwrite a segment. -/
def writeAt (data : List α) (pos : Nat) (xs : List α) : List α :=
  data.take pos ++ (xs ++ data.drop (pos + xs.length))

/-- Overwrite a segment, if it is inside the buffer. -/
def store (data : List α) (pos : Nat) (xs : List α) : Option (List α) :=
  if pos + xs.length ≤ data.length then some (writeAt data pos xs) else none

/-- Read a segment, if it is inside the buffer. -/
def load (src : List α) (pos n : Nat) : Option (List α) :=
  if pos + n ≤ src.length then some ((src.drop pos).take n) else none

theorem store_eq (h : pos + xs.length ≤ data.length) :
    store data pos xs = some (writeAt data pos xs) :=
  if_pos h

theorem load_eq (h : pos + n ≤ src.length) : load src pos n = some ((src.drop pos).take n) :=
  if_pos h

section

variable (h : pos + xs.length ≤ data.length)

include h

theorem length_write_at : (writeAt data pos xs).length = data.length := by
  simp only [writeAt, length_append, length_take, length_drop]
  omega

/-- The elements up to the end of the segment. -/
theorem take_write_at : (writeAt data pos xs).take (pos + xs.length) = data.take pos ++ xs := by
  have hlen : (data.take pos ++ xs).length = pos + xs.length := by
    rw [length_append, length_take]
    omega
  rw [writeAt, ← append_assoc, ← hlen, take_left]

/-- The elements behind the segment. -/
theorem drop_write_at :
    (writeAt data pos xs).drop (pos + xs.length) = data.drop (pos + xs.length) := by
  have hlen : (data.take pos ++ xs).length = pos + xs.length := by
    rw [length_append, length_take]
    omega
  rw [writeAt, ← append_assoc]
  nth_rewrite 1 [← hlen]
  rw [drop_left]

theorem getElem?_write_at (k : Nat) :
    (writeAt data pos xs)[k]? =
      if pos ≤ k ∧ k < pos + xs.length then xs[k - pos]? else data[k]? := by
  have htake : (data.take pos).length = pos := by
    rw [length_take]
    omega
  rw [writeAt, getElem?_append, htake]
  by_cases hlt : k < pos
  · rw [if_pos hlt, if_neg (by omega), getElem?_take_of_lt hlt]
  · rw [if_neg hlt, getElem?_append]
    by_cases hin : k - pos < xs.length
    · rw [if_pos hin, if_pos (by omega)]
    · have hindex : pos + xs.length + (k - pos - xs.length) = k := by omega
      rw [if_neg hin, if_neg (by omega), getElem?_drop, hindex]

end

theorem write_at_end (data xs : List α) : writeAt data data.length xs = data ++ xs := by
  rw [writeAt, take_length, drop_eq_nil_of_le (Nat.le_add_right _ _), append_nil]

theorem write_at_append (h : pos + xs.length ≤ data.length) (behind : List α) :
    writeAt (data ++ behind) pos xs = writeAt data pos xs ++ behind := by
  unfold writeAt
  rw [take_append_of_le_length (by omega), drop_append_of_le_length h]
  simp only [append_assoc]

/-- Overwriting one of several fields that stand one after the other. -/
theorem write_at_field {fields : List (List α)} {field new : List α} {k : Nat}
    (hfield : fields[k]? = some field) (hlen : field.length = new.length)
    (hpos : ((fields.map List.length).take k).sum = pos) :
    writeAt fields.flatten pos new = (fields.set k new).flatten := by
  subst hpos
  obtain ⟨hk, hget⟩ := List.getElem?_eq_some_iff.mp hfield
  have hnext : ((fields.map List.length).take k).sum + new.length =
      ((fields.map List.length).take (k + 1)).sum := by
    have hlt : k < (fields.map List.length).length := by rw [length_map]; exact hk
    rw [take_succ_eq_append_getElem hlt, sum_append, sum_singleton, getElem_map, hget, hlen]
  rw [writeAt, take_sum_flatten, hnext, drop_sum_flatten,
    set_eq_take_append_cons_drop, if_pos hk, flatten_append, flatten_cons]

/-- A write into the second part. -/
theorem store_append (pre data : List α) (pos : Nat) (xs : List α) :
    store (pre ++ data) (pre.length + pos) xs = (store data pos xs).map (pre ++ ·) := by
  have hle : pre.length + pos + xs.length ≤ (pre ++ data).length ↔
      pos + xs.length ≤ data.length := by
    rw [length_append]
    omega
  have hdrop : (pre ++ data).drop (pre.length + pos + xs.length) = data.drop (pos + xs.length) := by
    rw [add_assoc, drop_length_add_append]
  unfold store
  by_cases h : pos + xs.length ≤ data.length
  · rw [if_pos (hle.mpr h), if_pos h, Option.map_some, writeAt, writeAt,
      take_length_add_append, hdrop, append_assoc]
  · rw [if_neg (fun h' => h (hle.mp h')), if_neg h]
    rfl

theorem write_at_gap (h : pos + xs.length + gap + ys.length ≤ data.length) :
    writeAt (writeAt data pos xs) (pos + xs.length + gap) ys =
      writeAt data pos (xs ++ ((data.drop (pos + xs.length)).take gap ++ ys)) := by
  have hfirst : pos + xs.length ≤ data.length := by omega
  have hgap : ((data.drop (pos + xs.length)).take gap).length = gap := by
    rw [length_take, length_drop]
    omega
  have htake : (writeAt data pos xs).take (pos + xs.length + gap) =
      data.take pos ++ xs ++ (data.drop (pos + xs.length)).take gap := by
    rw [take_add, take_write_at hfirst, drop_write_at hfirst]
  have hdrop : (writeAt data pos xs).drop (pos + xs.length + gap + ys.length) =
      data.drop (pos + xs.length + gap + ys.length) := by
    rw [add_assoc (pos + xs.length), ← drop_drop, drop_write_at hfirst, drop_drop]
  have hend : pos + (xs ++ ((data.drop (pos + xs.length)).take gap ++ ys)).length =
      pos + xs.length + gap + ys.length := by
    rw [length_append, length_append, hgap]
    omega
  rw [writeAt, htake, hdrop, writeAt, hend]
  simp only [append_assoc]

/-! ## Cutting -/

def cut (n : Nat) (l : List α) : List (List α) :=
  if n = 0 ∨ l = [] then []
  else l.take n :: cut n (l.drop n)
  termination_by l.length
  decreasing_by
    rename_i h
    have hpos := length_pos_iff.mpr fun heq => h (.inr heq)
    rw [length_drop]
    omega

theorem cut_nil : cut n ([] : List α) = [] := by
  rw [cut]
  simp

theorem cut_append (hn : 0 < n) (hxs : xs.length = n) : cut n (xs ++ ys) = xs :: cut n ys := by
  have hne : ¬ (n = 0 ∨ xs ++ ys = []) := by
    rintro (hzero | hnil)
    · omega
    · rw [append_eq_nil_iff] at hnil
      rw [hnil.1, length_nil] at hxs
      omega
  rw [cut, if_neg hne]
  subst hxs
  rw [take_left, drop_left]

/-- A list that is not longer than a segment. -/
theorem cut_short (hpos : 0 < xs.length) (hxs : xs.length ≤ n) : cut n xs = [xs] := by
  have hne : ¬ (n = 0 ∨ xs = []) := by
    rintro (hzero | hnil)
    · omega
    · rw [hnil, length_nil] at hpos
      omega
  rw [cut, if_neg hne, take_of_length_le hxs, drop_eq_nil_of_le hxs, cut_nil]

theorem cut_flatten {xss : List (List α)} (hn : 0 < n) (hxss : ∀ xs ∈ xss, xs.length = n) :
    cut n (xss.flatten ++ ys) = xss ++ cut n ys := by
  induction xss with
  | nil => rfl
  | cons xs xss ih =>
    rw [flatten_cons, append_assoc, cut_append hn (hxss xs mem_cons_self),
      ih fun xs' hxs' => hxss xs' (mem_cons_of_mem xs hxs')]
    rfl

end Buffer
