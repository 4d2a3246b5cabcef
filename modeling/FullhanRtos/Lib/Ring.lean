import Mathlib.Data.List.Basic
import Mathlib.Logic.Function.Basic
import Mathlib.Algebra.Order.Ring.Nat
import Mathlib.Tactic.Common

/-!
# Rings of memory cells

Positions that only grow, of which position `p` is kept in the cell `p % size`. Within one round of
the ring two positions have different cells (`mod_ne_of_near`), so that what is stored behind a part
of the ring leaves this part as it is (`read_store_all_apart`).
-/

namespace Ring

open Function List Nat

variable {α : Type*} {size p q n m : Nat} {buf buf' : Nat → α} {bs cs : List α}
  {ws : List (Nat × α)} {p' q' : Nat}

/-! ## Positions and cells -/

/-- Less than one round apart. -/
theorem mod_ne_of_near (h : p < q) (hnear : q < p + size) : p % size ≠ q % size := by
  intro heq
  have hdvd : size ∣ q - p := dvd_of_mod_eq_zero (sub_mod_eq_zero_of_mod_eq heq.symm)
  have hle := le_of_dvd (Nat.sub_pos_of_lt h) hdvd
  omega

/-- The cell of a later position, which may be in the next round. -/
theorem add_mod_near (hn : n < size) :
    (p + n) % size = if p % size + n < size then p % size + n else p % size + n - size := by
  have hpos : 0 < size := zero_lt_of_lt hn
  have hp := mod_lt p hpos
  rw [add_mod, mod_eq_of_lt hn]
  split
  · exact mod_eq_of_lt ‹_›
  · rw [mod_eq_sub_mod (by omega), mod_eq_of_lt (by omega)]

/-- The round and the cell of a position at most one round later. -/
theorem wrap (hsize : 0 < size) (hn : n ≤ size) :
    (p % size + n < size → (p + n) / size = p / size ∧ (p + n) % size = p % size + n) ∧
      (size ≤ p % size + n →
        (p + n) / size = p / size + 1 ∧ (p + n) % size = p % size + n - size) := by
  have hp := mod_lt p hsize
  have hsplit : p + n = p % size + n + size * (p / size) := by
    have hdiv := mod_add_div p size
    omega
  refine ⟨fun hshort => ?_, fun hlong => ?_⟩
  · rw [hsplit, add_mul_div_left _ _ hsize, add_mul_mod_self_left,
      div_eq_of_lt hshort, mod_eq_of_lt hshort]
    exact ⟨zero_add _, rfl⟩
  · have hnext : p % size + n - size < size := by omega
    have hrest : p % size + n + size * (p / size) =
        p % size + n - size + size * (p / size + 1) := by
      rw [mul_succ]
      omega
    rw [hsplit, hrest, add_mul_div_left _ _ hsize, add_mul_mod_self_left,
      div_eq_of_lt hnext, mod_eq_of_lt hnext]
    exact ⟨zero_add _, rfl⟩

/-- The distance of two positions from their cells. -/
theorem distance (h : p ≤ q) (hnear : q < p + size) :
    (if p % size ≤ q % size then q % size - p % size else size - p % size + q % size) = q - p := by
  have hn : q - p < size := by omega
  have hcell : (p + (q - p)) % size = _ := add_mod_near hn
  have hp := mod_lt p (zero_lt_of_lt hn)
  rw [Nat.add_sub_cancel' h] at hcell
  split at hcell <;> split <;> omega

theorem room (h : p ≤ q) (hnear : q < p + size) :
    (if q % size < p % size then p % size - q % size else size - q % size + p % size) =
      size - (q - p) := by
  have hdistance := distance h hnear
  have hp := mod_lt p (show 0 < size by omega)
  have hq := mod_lt q (show 0 < size by omega)
  split at hdistance <;> split <;> omega

/-! ## Reading -/

/-- What is in the cells of `n` positions. -/
def read (size : Nat) (buf : Nat → α) (p n : Nat) : List α :=
  (List.range n).map fun i => buf ((p + i) % size)

@[simp] theorem length_read : (read size buf p n).length = n := by
  unfold read
  rw [length_map, length_range]

theorem read_add : read size buf p (n + m) = read size buf p n ++ read size buf (p + n) m := by
  unfold read
  rw [range_add, map_append, map_map]
  congr 1
  refine map_congr_left fun i _ => ?_
  show buf ((p + (n + i)) % size) = buf ((p + n + i) % size)
  rw [add_assoc]

theorem read_succ : read size buf p (n + 1) = buf (p % size) :: read size buf (p + 1) n := by
  rw [add_comm n 1, read_add]
  rfl

theorem getElem?_read {i : Nat} (hi : i < n) :
    (read size buf p n)[i]? = some (buf ((p + i) % size)) := by
  unfold read
  rw [getElem?_map, getElem?_range hi]
  rfl

/-- What is at `n` consecutive addresses. -/
def load (buf : Nat → α) (a n : Nat) : List α := (List.range n).map fun i => buf (a + i)

/-- Addresses up to the end of the ring. -/
theorem load_eq (h : p % size + n ≤ size) : load buf (p % size) n = read size buf p n := by
  refine map_congr_left fun i hi => ?_
  have hi' := mem_range.mp hi
  rw [add_mod_near (by omega), if_pos (by omega)]

/-- A part that goes on at the beginning of the ring, in its two pieces. -/
theorem load_wrap (hsize : 0 < size) (hn : n ≤ size) (hwrap : size - p % size ≤ n) :
    load buf (p % size) (size - p % size) ++ load buf 0 (n - (size - p % size)) =
      read size buf p n := by
  have hp := mod_lt p hsize
  have hend : (p + (size - p % size)) % size = 0 := by
    rw [← mod_add_mod, Nat.add_sub_cancel' (le_of_lt hp), mod_self]
  have hsecond : load buf 0 (n - (size - p % size)) =
      read size buf (p + (size - p % size)) (n - (size - p % size)) := by
    rw [← load_eq (by rw [hend]; omega), hend]
  rw [load_eq (by omega), hsecond, ← read_add, Nat.add_sub_cancel' hwrap]

def Agree (size : Nat) (buf buf' : Nat → α) (p q : Nat) : Prop :=
  ∀ i, p ≤ i → i < q → buf' (i % size) = buf (i % size)

theorem Agree.mono (h : Agree size buf buf' p q) (hp : p ≤ p') (hq : q' ≤ q) :
    Agree size buf buf' p' q' := fun i hi hi' =>
  h i (hp.trans hi) (lt_of_lt_of_le hi' hq)

theorem Agree.read (h : Agree size buf buf' p (p + n)) :
    read size buf' p n = read size buf p n := by
  refine map_congr_left fun i hi => ?_
  have hi' := mem_range.mp hi
  exact h (p + i) (Nat.le_add_right p i) (Nat.add_lt_add_left hi' p)

/-! ## Storing -/

/-- The memory after a store. -/
def store (buf : Nat → α) (w : Nat × α) : Nat → α := update buf w.1 w.2

/-- The memory after some stores, the first one first. -/
def storeAll (buf : Nat → α) (ws : List (Nat × α)) : Nat → α := ws.foldl store buf

/-- Stores to consecutive addresses. -/
def stores (a : Nat) : List α → List (Nat × α)
  | [] => []
  | b :: bs => (a, b) :: stores (a + 1) bs

/-- Stores to the cells of consecutive positions. -/
def ringStores (size p : Nat) : List α → List (Nat × α)
  | [] => []
  | b :: bs => (p % size, b) :: ringStores size (p + 1) bs

theorem store_all_append (ws' : List (Nat × α)) :
    storeAll buf (ws ++ ws') = storeAll (storeAll buf ws) ws' := foldl_append

theorem store_all_not_mem {a : Nat} (h : ∀ w ∈ ws, w.1 ≠ a) : storeAll buf ws a = buf a := by
  induction ws generalizing buf with
  | nil => rfl
  | cons w ws ih =>
    have hrest : storeAll (store buf w) ws a = store buf w a :=
      ih fun w' hw' => h w' (mem_cons_of_mem w hw')
    exact hrest.trans (update_of_ne (h w mem_cons_self).symm _ _)

theorem ring_stores_append :
    ringStores size p (bs ++ cs) = ringStores size p bs ++ ringStores size (p + bs.length) cs := by
  induction bs generalizing p with
  | nil => rfl
  | cons b bs ih =>
    rw [cons_append, ringStores, ih, ringStores, length_cons, cons_append, add_assoc, add_comm 1]

theorem mem_ring_stores {w : Nat × α} (h : w ∈ ringStores size p bs) :
    ∃ i < bs.length, w.1 = (p + i) % size := by
  induction bs generalizing p with
  | nil => cases h
  | cons b bs ih =>
    rcases mem_cons.mp h with rfl | hrest
    · exact ⟨0, succ_pos _, rfl⟩
    · obtain ⟨i, hi, hw⟩ := ih hrest
      refine ⟨i + 1, succ_lt_succ hi, ?_⟩
      rw [hw, add_assoc, add_comm 1]

/-- Addresses up to the end of the ring are the cells of positions. -/
theorem stores_eq (h : p % size + bs.length ≤ size) :
    stores (p % size) bs = ringStores size p bs := by
  induction bs generalizing p with
  | nil => rfl
  | cons b bs ih =>
    rw [length_cons] at h
    rw [stores, ringStores]
    congr 1
    cases bs with
    | nil => rfl
    | cons c bs =>
      rw [length_cons] at h
      have hnext : (p + 1) % size = p % size + 1 := by
        rw [add_mod_near (by omega), if_pos (by omega)]
      rw [← hnext]
      exact ih (by rw [hnext, length_cons]; omega)

/-- A part that goes on at the beginning of the ring, in its two pieces. -/
theorem stores_wrap (hsize : 0 < size) (hlen : bs.length ≤ size)
    (hwrap : size - p % size ≤ bs.length) :
    stores (p % size) (bs.take (size - p % size)) ++ stores 0 (bs.drop (size - p % size)) =
      ringStores size p bs := by
  have hp := mod_lt p hsize
  have hend : (p + (size - p % size)) % size = 0 := by
    rw [← mod_add_mod, Nat.add_sub_cancel' (le_of_lt hp), mod_self]
  have hfirst : (bs.take (size - p % size)).length = size - p % size := length_take_of_le hwrap
  have hsecond : stores ((p + (size - p % size)) % size) (bs.drop (size - p % size)) =
      ringStores size (p + (size - p % size)) (bs.drop (size - p % size)) :=
    stores_eq (by rw [hend, length_drop]; omega)
  rw [hend] at hsecond
  rw [stores_eq (by rw [hfirst]; omega), hsecond]
  conv_rhs => rw [← take_append_drop (size - p % size) bs, ring_stores_append, hfirst]

theorem agree_store_all (hws : ∀ w ∈ ws, ∃ i, p ≤ i ∧ i < q ∧ w.1 = i % size)
    (hapart : q' ≤ p ∧ q ≤ p' + size ∨ q ≤ p' ∧ q' ≤ p + size) :
    Agree size buf (storeAll buf ws) p' q' := by
  intro j hj hj'
  refine store_all_not_mem fun w hw => ?_
  obtain ⟨i, hi, hi', heq⟩ := hws w hw
  rw [heq]
  rcases hapart with ⟨h1, h2⟩ | ⟨h1, h2⟩
  · exact (mod_ne_of_near (by omega) (by omega)).symm
  · exact mod_ne_of_near (by omega) (by omega)

theorem Agree.store_all (h : Agree size buf buf' p q) (ws : List (Nat × α)) :
    Agree size (storeAll buf ws) (storeAll buf' ws) p q := by
  induction ws generalizing buf buf' with
  | nil => exact h
  | cons w ws ih =>
    refine @ih (store buf w) (store buf' w) fun i hi hi' => ?_
    by_cases hw : i % size = w.1
    · unfold store
      rw [hw, update_self, update_self]
    · unfold store
      rw [update_of_ne hw, update_of_ne hw]
      exact h i hi hi'

theorem read_ring_stores (buf : Nat → α) (p : Nat) (h : bs.length ≤ size) :
    read size (storeAll buf (ringStores size p bs)) p bs.length = bs := by
  induction bs generalizing p buf with
  | nil => rfl
  | cons b bs ih =>
    rw [length_cons] at h
    have hfirst : storeAll (store buf (p % size, b)) (ringStores size (p + 1) bs) (p % size) =
        b := by
      rw [store_all_not_mem]
      · exact update_self _ _ _
      · intro w hw
        obtain ⟨i, hi, heq⟩ := mem_ring_stores hw
        rw [heq]
        exact (mod_ne_of_near (by omega) (by omega)).symm
    rw [length_cons, read_succ]
    show storeAll (store buf (p % size, b)) (ringStores size (p + 1) bs) (p % size) :: read size
      (storeAll (store buf (p % size, b)) (ringStores size (p + 1) bs)) (p + 1) bs.length = _
    rw [hfirst, ih _ _ (by omega)]

end Ring
