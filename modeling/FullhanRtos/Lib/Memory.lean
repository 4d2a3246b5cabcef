import FullhanRtos.Lib.Buffer
import Mathlib.Logic.Function.Basic

/-!
# Memories

A memory has a value at every address. `read` and `write` transfer a range of it, one address after
the other. `read_write_same` and `read_write_disjoint` are what is found after a write, and
`write_read` says that writing back what was read changes nothing.
-/

namespace Memory

open Function List Nat

variable {β : Type*}

/-- The values in a range. -/
def read (m : Nat → β) : Nat → Nat → List β
  | _, 0 => []
  | addr, n + 1 => m addr :: read m (addr + 1) n

/-- Store values one after the other. -/
def write (m : Nat → β) : Nat → List β → Nat → β
  | _, [] => m
  | addr, b :: bs => write (update m addr b) (addr + 1) bs

variable {m : Nat → β} {p q n k : Nat} {bs xs ys : List β} {m' : Nat → β}

@[simp] theorem length_read : (read m p n).length = n := by
  induction n generalizing p with
  | zero => rfl
  | succ n ih => exact congrArg (· + 1) ih

theorem write_outside (h : q < p ∨ p + bs.length ≤ q) : write m p bs q = m q := by
  induction bs generalizing m p with
  | nil => rfl
  | cons b bs ih =>
    rw [length_cons] at h
    have hne : q ≠ p := by omega
    show write (update m p b) (p + 1) bs q = m q
    rw [ih (by omega), update_of_ne hne]

theorem write_inside {i : Nat} (h : i < bs.length) : bs[i]? = some (write m p bs (p + i)) := by
  induction bs generalizing m p i with
  | nil => exact absurd h (Nat.not_lt_zero i)
  | cons b bs ih =>
    show (b :: bs)[i]? = some (write (update m p b) (p + 1) bs (p + i))
    cases i with
    | zero =>
      show some b = some (write (update m p b) (p + 1) bs p)
      rw [write_outside (Or.inl (lt_succ_self p)), update_self]
    | succ i =>
      have hnext : p + (i + 1) = p + 1 + i := by omega
      rw [hnext]
      exact ih (lt_of_succ_lt_succ h)

theorem getElem?_read {i : Nat} (h : i < n) : (read m p n)[i]? = some (m (p + i)) := by
  induction n generalizing p i with
  | zero => exact absurd h (Nat.not_lt_zero i)
  | succ n ih =>
    show (m p :: read m (p + 1) n)[i]? = some (m (p + i))
    cases i with
    | zero => rfl
    | succ i =>
      have hnext : p + (i + 1) = p + 1 + i := by omega
      rw [hnext]
      exact ih (lt_of_succ_lt_succ h)

theorem read_write_same : read (write m p bs) p bs.length = bs := by
  induction bs generalizing m p with
  | nil => rfl
  | cons b bs ih =>
    show write (update m p b) (p + 1) bs p ::
      read (write (update m p b) (p + 1) bs) (p + 1) bs.length = b :: bs
    rw [ih, write_outside (Or.inl (lt_succ_self p)), update_self]

theorem read_write_read : read (write m p (read m' q n)) p n = read m' q n := by
  have hread := @read_write_same β m p (read m' q n)
  rwa [length_read] at hread

theorem read_write_disjoint (h : q + n ≤ p ∨ p + bs.length ≤ q) :
    read (write m p bs) q n = read m q n := by
  induction n generalizing q with
  | zero => rfl
  | succ n ih =>
    show write m p bs q :: read (write m p bs) (q + 1) n = m q :: read m (q + 1) n
    rw [write_outside (by omega), ih (by omega)]

theorem write_append : write m p (xs ++ ys) = write (write m p xs) (p + xs.length) ys := by
  induction xs generalizing m p with
  | nil => rfl
  | cons b xs ih =>
    show write (update m p b) (p + 1) (xs ++ ys) =
      write (write (update m p b) (p + 1) xs) (p + (xs.length + 1)) ys
    rw [ih, Nat.add_assoc, Nat.add_comm 1]

theorem write_read : write m p (read m p n) = m := by
  induction n generalizing p with
  | zero => rfl
  | succ n ih =>
    show write (update m p (m p)) (p + 1) (read m (p + 1) n) = m
    rw [update_eq_self, ih]

theorem read_add : read m p (n + k) = read m p n ++ read m (p + n) k := by
  induction n generalizing p with
  | zero => rw [Nat.zero_add, Nat.add_zero]; rfl
  | succ n ih =>
    rw [succ_add_eq_add_succ, add_succ]
    show m p :: read m (p + 1) (n + k) = m p :: (read m (p + 1) n ++ read m (p + (n + 1)) k)
    rw [ih, Nat.add_assoc, Nat.add_comm 1]

theorem take_read (h : n ≤ k) : (read m p k).take n = read m p n := by
  obtain ⟨d, rfl⟩ := Nat.exists_eq_add_of_le h
  rw [read_add, take_left' length_read]

theorem drop_read (h : n ≤ k) : (read m p k).drop n = read m (p + n) (k - n) := by
  obtain ⟨d, rfl⟩ := Nat.exists_eq_add_of_le h
  rw [read_add, drop_left' length_read, Nat.add_sub_cancel_left]

/-- A range that is read, changed in part and written back. -/
theorem write_patch (h : k + bs.length ≤ n) :
    write m p (Buffer.writeAt (read m p n) k bs) = write m (p + k) bs := by
  have hrest : (read m p n).drop (k + bs.length) =
      read (write m (p + k) bs) (p + k + bs.length) (n - (k + bs.length)) := by
    rw [drop_read h, ← Nat.add_assoc, read_write_disjoint (Or.inr (Nat.le_refl _))]
  rw [Buffer.writeAt, hrest, take_read (by omega), write_append, write_read, length_read,
    write_append, write_read]

/-- What is read depends on the range alone. -/
theorem read_congr (h : ∀ a, p ≤ a → a < p + n → m a = m' a) :
    read m p n = read m' p n := by
  induction n generalizing p with
  | zero => rfl
  | succ n ih =>
    show m p :: read m (p + 1) n = m' p :: read m' (p + 1) n
    rw [h p (Nat.le_refl p) (by omega), ih fun a hlo hhi => h a (by omega) (by omega)]

/-- Two ranges behind each other. -/
theorem read_append_iff :
    read m p (xs ++ ys).length = xs ++ ys ↔
      read m p xs.length = xs ∧ read m (p + xs.length) ys.length = ys := by
  rw [length_append, read_add]
  constructor
  · exact fun h => append_inj h length_read
  · rintro ⟨hxs, hys⟩
    rw [hxs, hys]

end Memory
