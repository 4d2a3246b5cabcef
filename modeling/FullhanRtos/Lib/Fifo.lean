import FullhanRtos.Lib.Transition
import Mathlib.Data.List.Basic

/-!
# Bounded queues

A queue of bounded capacity as an abstract machine. Its events are calls with their results, and it
gets stuck on a result that is not the right one. `exec_conserves` says that what is taken is what
was put, in order.
-/

namespace Fifo

open Transition List

variable {α : Type*}

/-- A queue never holds more than its capacity. -/
structure Queue (α : Type*) where
  capacity : Nat
  items : List α
  fits : items.length ≤ capacity

namespace Queue

def empty (capacity : Nat) : Queue α where
  capacity
  items := []
  fits := Nat.zero_le capacity

/-- The number of elements that there is room for. -/
def space (q : Queue α) : Nat := q.capacity - q.items.length

/-- As many of the elements as there is room for. -/
def put (q : Queue α) (xs : List α) : Queue α where
  capacity := q.capacity
  items := q.items ++ xs.take q.space
  fits := by
    have hfits := q.fits
    rw [length_append, length_take, space]
    omega

def drop (q : Queue α) (n : Nat) : Queue α where
  capacity := q.capacity
  items := q.items.drop n
  fits := by
    have hfits := q.fits
    rw [length_drop]
    omega

theorem put_full {q : Queue α} (h : q.space = 0) (xs : List α) : q.put xs = q := by
  unfold put
  simp only [h, take_zero, append_nil]

theorem drop_empty {q : Queue α} (h : q.items = []) (n : Nat) : q.drop n = q := by
  unfold drop
  simp only [h, drop_nil]
  cases q
  cases h
  rfl

end Queue

/-- A call with its result: how many elements were put, or which ones were taken. -/
inductive Event (α : Type*) where
  | put (xs : List α) (count : Nat)
  | take (n : Nat) (xs : List α) (count : Nat)
  | clear

/-- Elements are put while there is room, and taken in the order in which they were put. -/
def step [DecidableEq α] (q : Queue α) : Event α → Option (Queue α)
  | .put xs count => if count = min xs.length q.space then some (q.put xs) else none
  | .take n xs count =>
    if xs = q.items.take n ∧ count = xs.length then some (q.drop n) else none
  | .clear => some (Queue.empty q.capacity)

def Event.accepted : Event α → List α
  | .put xs count => xs.take count
  | .take _ _ _ => []
  | .clear => []

def Event.taken : Event α → List α
  | .put _ _ => []
  | .take _ xs _ => xs
  | .clear => []

section

variable [DecidableEq α] {q q' : Queue α} {event : Event α} {events : List (Event α)}

theorem step_capacity (h : step q event = some q') : q'.capacity = q.capacity := by
  cases event with
  | put xs count =>
    rw [step] at h
    split at h
    · cases h
      rfl
    · cases h
  | take n xs count =>
    rw [step] at h
    split at h
    · cases h
      rfl
    · cases h
  | clear =>
    cases h
    rfl

theorem exec_capacity (h : exec step q events = some q') : q'.capacity = q.capacity :=
  exec_keeps (I := fun p => p.capacity = q.capacity)
    (fun _ _ _ hp hstep => (step_capacity hstep).trans hp) rfl h

/-- One event takes nothing that is not next. -/
theorem step_conserves (hclear : event ≠ .clear) (h : step q event = some q') :
    q.items ++ event.accepted = event.taken ++ q'.items := by
  cases event with
  | put xs count =>
    rw [step] at h
    split at h
    · rename_i hcount
      cases h
      show q.items ++ xs.take count = q.items ++ xs.take q.space
      rw [hcount, Nat.min_comm, ← take_eq_take_min]
    · cases h
  | take n xs count =>
    rw [step] at h
    split at h
    · rename_i htaken
      cases h
      show q.items ++ [] = xs ++ q.items.drop n
      rw [htaken.1, append_nil, take_append_drop]
    · cases h
  | clear => exact absurd rfl hclear

/-- Without `clear`, what was there and what was put is taken in this order, or still there. -/
theorem exec_conserves (hclear : ∀ event ∈ events, event ≠ Event.clear)
    (h : exec step q events = some q') :
    q.items ++ events.flatMap Event.accepted = events.flatMap Event.taken ++ q'.items := by
  induction events generalizing q with
  | nil =>
    cases h
    exact append_nil _
  | cons event events ih =>
    obtain ⟨q1, hq1, hrest⟩ := exec_cons_eq_some.mp h
    obtain ⟨hne, hclear'⟩ := forall_mem_cons.mp hclear
    rw [flatMap_cons, flatMap_cons, ← append_assoc, step_conserves hne hq1,
      append_assoc, ih hclear' hrest, append_assoc]

end

end Fifo
