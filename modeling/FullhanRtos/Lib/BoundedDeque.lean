import FullhanRtos.Lib.Transition
import Mathlib.Data.List.Range
import Mathlib.Data.Nat.ModEq
import Mathlib.Logic.Function.Basic

/-!
# Bounded deques

A deque of bounded capacity whose elements are numbered as they are accepted, so that equal values
can be told apart. `Accounted` says that every accepted element is stored, taken or dropped, in
exactly one of these ways, and `exec_accounted` that it holds in every run.

`Holds pool size out l` says that a ring of `size` cells contains `l` from cell `out` on. Its edits
at both ends are the lemmas `Holds.push_back`, `Holds.push_front` and `Holds.pop`.
-/

namespace BoundedDeque

open Transition Function List Nat

variable {α ρ : Type*}

/-! ## The deque -/

/-- The elements that are stored, and all that were accepted, taken and dropped so far. -/
structure Deque (ρ α : Type*) where
  stored : List (Nat × α)
  accepted : List (Nat × α)
  taken : List (ρ × Nat × α)
  dropped : List (Nat × α)

/-- Elements go in at both ends; `who` takes the first one, which is `x`. -/
inductive Op (ρ α : Type*) where
  | pushBack (x : α)
  | pushFront (x : α)
  | pop (who : ρ) (x : α)
  | clear

def Deque.empty : Deque ρ α where
  stored := []
  accepted := []
  taken := []
  dropped := []

/-- The number of the next element. -/
def Deque.ticket (d : Deque ρ α) : Nat := d.accepted.length

/-- An element is accepted only while the deque is not full. -/
def step [DecidableEq α] (capacity : Nat) (d : Deque ρ α) : Op ρ α → Option (Deque ρ α)
  | .pushBack x =>
    if d.stored.length < capacity then
      some { d with
        stored := d.stored ++ [(d.ticket, x)]
        accepted := d.accepted ++ [(d.ticket, x)] }
    else none
  | .pushFront x =>
    if d.stored.length < capacity then
      some { d with
        stored := (d.ticket, x) :: d.stored
        accepted := d.accepted ++ [(d.ticket, x)] }
    else none
  | .pop who x =>
    match d.stored with
    | [] => none
    | (n, y) :: rest =>
      if y = x then some { d with stored := rest, taken := d.taken ++ [(who, n, y)] } else none
  | .clear => some { d with stored := [], dropped := d.dropped ++ d.stored }

/-- The accepted elements have different numbers, and each of them is stored, taken or dropped
once. -/
structure Accounted (d : Deque ρ α) : Prop where
  numbers : d.accepted.map Prod.fst = List.range d.accepted.length
  once : (d.stored ++ (d.taken.map Prod.snd ++ d.dropped)).Perm d.accepted

section

variable {capacity : Nat} {d d' : Deque ρ α}

theorem Accounted.empty : Accounted (Deque.empty : Deque ρ α) := ⟨rfl, Perm.refl _⟩

theorem numbers_append {l : List (Nat × α)} {x : α} (h : l.map Prod.fst = List.range l.length) :
    (l ++ [(l.length, x)]).map Prod.fst = List.range (l ++ [(l.length, x)]).length := by
  rw [map_append, h, length_append, length_singleton, range_succ]
  rfl

variable [DecidableEq α]

theorem step_accounted (op : Op ρ α) (h : Accounted d) (hrun : step capacity d op = some d') :
    Accounted d' := by
  cases op with
  | pushBack x =>
    simp only [step] at hrun
    split at hrun
    · cases hrun
      refine ⟨numbers_append h.numbers, ?_⟩
      show (d.stored ++ [(d.ticket, x)] ++ (d.taken.map Prod.snd ++ d.dropped)).Perm
        (d.accepted ++ [(d.ticket, x)])
      rw [append_assoc]
      refine (Perm.append_left _ perm_append_comm).trans ?_
      rw [← append_assoc]
      exact h.once.append_right _
    · cases hrun
  | pushFront x =>
    simp only [step] at hrun
    split at hrun
    · cases hrun
      refine ⟨numbers_append h.numbers, ?_⟩
      show ((d.ticket, x) :: (d.stored ++ (d.taken.map Prod.snd ++ d.dropped))).Perm
        (d.accepted ++ [(d.ticket, x)])
      exact (h.once.cons _).trans (perm_append_singleton _ _).symm
    · cases hrun
  | pop who x =>
    simp only [step] at hrun
    split at hrun
    · cases hrun
    · rename_i n y rest hstored
      split at hrun
      · cases hrun
        refine ⟨h.numbers, Perm.trans ?_ h.once⟩
        rw [hstored, map_append, append_assoc]
        show (rest ++ (d.taken.map Prod.snd ++ ([(n, y)] ++ d.dropped))).Perm
          ((n, y) :: (rest ++ (d.taken.map Prod.snd ++ d.dropped)))
        rw [← append_assoc, ← append_assoc rest]
        exact perm_middle
      · cases hrun
  | clear =>
    cases hrun
    refine ⟨h.numbers, Perm.trans ?_ h.once⟩
    show ([] ++ (d.taken.map Prod.snd ++ (d.dropped ++ d.stored))).Perm _
    rw [nil_append, ← append_assoc]
    exact perm_append_comm

/-- No element is lost or doubled in a run. -/
theorem exec_accounted {ops : List (Op ρ α)}
    (hrun : exec (step capacity) Deque.empty ops = some d) :
    Accounted d :=
  exec_keeps (fun _ op _ h hstep => step_accounted op h hstep) Accounted.empty hrun

/-- An element goes in at the back, or is taken. -/
def Op.InOrder : Op ρ α → Prop
  | .pushBack _ | .pop _ _ => True
  | .pushFront _ | .clear => False

/-- What was accepted was taken in this order, or is stored. -/
theorem exec_in_order {capacity : Nat} {d : Deque ρ α} {ops : List (Op ρ α)}
    (hops : ∀ op ∈ ops, op.InOrder) (hrun : exec (step capacity) Deque.empty ops = some d) :
    d.accepted = d.taken.map Prod.snd ++ d.stored := by
  refine exec_keeps_allowed (I := fun d => d.accepted = d.taken.map Prod.snd ++ d.stored)
    (fun d op d' hop h hstep => ?_) hops rfl hrun
  cases op with
  | pushBack x =>
    obtain ⟨-, hstep⟩ := Option.ite_none_right_eq_some.mp hstep
    cases hstep
    show d.accepted ++ _ = _ ++ (d.stored ++ _)
    rw [h, append_assoc]
  | pop who x =>
    simp only [step] at hstep
    split at hstep
    · cases hstep
    · rename_i n y rest hstored
      obtain ⟨-, hstep⟩ := Option.ite_none_right_eq_some.mp hstep
      cases hstep
      show d.accepted = (d.taken ++ [_]).map Prod.snd ++ rest
      rw [h, hstored, map_append, append_assoc]
      rfl
  | pushFront x | clear => cases hop

end

/-! ## Rings of cells -/

def Holds (pool : Nat → α) (size out : Nat) (l : List α) : Prop :=
  ∀ i x, l[i]? = some x → pool ((out + i) % size) = x

section

variable {pool : Nat → α} {size out out' : Nat} {l : List α} {x : α}

theorem cell_inj {i j : Nat} (hi : i < size) (hj : j < size)
    (h : (out + i) % size = (out + j) % size) : i = j := by
  have hmod : i ≡ j [MOD size] := ModEq.add_left_cancel' out h
  rwa [ModEq, mod_eq_of_lt hi, mod_eq_of_lt hj] at hmod

theorem Holds.nil : Holds pool size out [] := by
  intro i x h
  simp at h

theorem Holds.push_back (h : Holds pool size out l) (hroom : l.length < size) :
    Holds (update pool ((out + l.length) % size) x) size out (l ++ [x]) := by
  intro i y hi
  rcases lt_or_ge i l.length with hlt | hge
  · rw [getElem?_append_left hlt] at hi
    have hne : (out + i) % size ≠ (out + l.length) % size := fun heq =>
      absurd (cell_inj (by omega) hroom heq) (by omega)
    rw [update_of_ne hne]
    exact h i y hi
  · rw [getElem?_append_right hge, getElem?_singleton] at hi
    split at hi
    · have heq : i = l.length := by omega
      rw [heq, update_self]
      exact Option.some.inj hi
    · cases hi

theorem Holds.push_front (h : Holds pool size out l) (hroom : l.length < size) (hout : out' < size)
    (hback : out' + 1 ≡ out [MOD size]) :
    Holds (update pool out' x) size out' (x :: l) := by
  intro i y hi
  cases i with
  | zero =>
    rw [add_zero, mod_eq_of_lt hout, update_self]
    exact Option.some.inj hi
  | succ i =>
    rw [getElem?_cons_succ] at hi
    have hlt : i < l.length := (List.getElem?_eq_some_iff.mp hi).1
    have hcell : (out' + (i + 1)) % size = (out + i) % size := by
      rw [show out' + (i + 1) = out' + 1 + i by omega]
      exact hback.add_right i
    have hne : (out' + (i + 1)) % size ≠ out' := fun heq => by
      have hzero : (out' + (i + 1)) % size = (out' + 0) % size := by
        rw [heq, add_zero, mod_eq_of_lt hout]
      exact absurd (cell_inj (by omega) (by omega) hzero) (by omega)
    rw [update_of_ne hne, hcell]
    exact h i y hi

theorem Holds.head (h : Holds pool size out (x :: l)) (hout : out < size) : pool out = x := by
  have hfirst := h 0 x rfl
  rwa [add_zero, mod_eq_of_lt hout] at hfirst

theorem Holds.pop (h : Holds pool size out (x :: l)) (hnext : out' ≡ out + 1 [MOD size]) :
    Holds pool size out' l := by
  intro i y hi
  have hcell : (out' + i) % size = (out + (i + 1)) % size := by
    rw [show out + (i + 1) = out + 1 + i by omega]
    exact hnext.add_right i
  rw [hcell]
  exact h (i + 1) y (by rwa [getElem?_cons_succ])

end

end BoundedDeque
