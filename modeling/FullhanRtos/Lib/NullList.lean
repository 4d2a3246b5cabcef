import Mathlib.Logic.Function.Basic
import Mathlib.Tactic.Common

/-!
# Singly linked lists

`IsList next p l` says that the links `next` lead from the pointer `p` through the nodes of `l` to a
null pointer. The lemmas say how pushing, popping and appending a node change the list that a
pointer reaches; a node outside of the list may change its link freely.
-/

namespace NullList

open List

variable {ν : Type*} {next next' : ν → Option ν} {p : Option ν} {x y : ν} {l : List ν}

/-- The list of nodes that a pointer reaches. -/
def IsList (next : ν → Option ν) : Option ν → List ν → Prop
  | p, [] => p = none
  | p, x :: l => p = some x ∧ IsList next (next x) l

/-- Links of other nodes play no part. -/
theorem IsList.congr (h : IsList next p l) (heq : ∀ x ∈ l, next' x = next x) :
    IsList next' p l := by
  induction l generalizing p with
  | nil => exact h
  | cons x l ih =>
    refine ⟨h.1, ?_⟩
    rw [heq x mem_cons_self]
    exact ih h.2 fun y hy => heq y (mem_cons_of_mem x hy)

theorem IsList.eq_nil (h : IsList next none l) : l = [] := by
  cases l with
  | nil => rfl
  | cons x l => cases h.1

theorem IsList.eq_cons (h : IsList next (some x) l) :
    ∃ l', l = x :: l' ∧ IsList next (next x) l' := by
  cases l with
  | nil => cases h
  | cons y l =>
    obtain rfl : x = y := Option.some.inj h.1
    exact ⟨l, rfl, h.2⟩

/-- The pointer is the first node. -/
theorem IsList.head_eq (h : IsList next p l) : p = l.head? := by
  cases l with
  | nil => exact h
  | cons x l => exact h.1

variable [DecidableEq ν]

theorem IsList.update (h : IsList next p l) (hx : x ∉ l) (q : Option ν) :
    IsList (Function.update next x q) p l :=
  h.congr fun y hy => Function.update_of_ne (fun heq : y = x => hx (heq ▸ hy)) _ _

/-- A node that points to the list is its new first node. -/
theorem IsList.push (h : IsList next p l) (hx : x ∉ l) :
    IsList (Function.update next x p) (some x) (x :: l) := by
  refine ⟨rfl, ?_⟩
  rw [Function.update_self]
  exact h.update hx p

theorem IsList.splice {l' : List ν} (h : IsList next p l) (h' : IsList next (some x) l')
    (hnodup : l.Nodup) (hapart : ∀ z ∈ l, z ∉ l') (hlast : l.getLast? = some y) :
    IsList (Function.update next y (some x)) p (l ++ l') := by
  induction l generalizing p with
  | nil => cases hlast
  | cons z l ih =>
    obtain ⟨hz, hl⟩ := nodup_cons.mp hnodup
    refine ⟨h.1, ?_⟩
    cases l with
    | nil =>
      obtain rfl : z = y := by simpa using hlast
      rw [Function.update_self]
      exact h'.update (hapart z mem_cons_self) _
    | cons w l =>
      have hlast' : (w :: l).getLast? = some y := by simpa using hlast
      have hzy : z ≠ y := fun heq => hz (heq ▸ mem_of_getLast? hlast')
      rw [Function.update_of_ne hzy]
      exact ih h.2 hl (fun v hv => hapart v (mem_cons_of_mem z hv)) hlast'

/-- The last node of a list is made to point to a node without a successor. -/
theorem IsList.append (h : IsList next p l) (hnodup : l.Nodup) (hx : x ∉ l) (hnext : next x = none)
    (hlast : l.getLast? = some y) : IsList (Function.update next y (some x)) p (l ++ [x]) :=
  h.splice ⟨rfl, hnext⟩ hnodup
    (fun _ hz hzx => hx (mem_singleton.mp hzx ▸ hz)) hlast

end NullList
