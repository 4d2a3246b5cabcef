import FullhanRtos.Lib.Bytes
import FullhanRtos.Lib.DoubleList

/-!
# Objects of the OSD menu

The objects of a level are nodes of a doubly linked list, which `node_append` builds. `ChildList` is
the list of the children of a menu, and `append_linked` says that the function builds such lists.
The functions that move the focus change nothing but the `focused` members, which are kept apart
from the objects.
-/

namespace FullhanRtos.Osd

open Bytes DoubleList Function

/-! ## Nodes -/

def nodeMaxNum : Nat := 0xffff

/-- `node_t`, without the levels above and below. -/
structure Node where
  next : Option Nat
  prev : Option Nat

/-- The components, by the function that `method_op` calls. A textbox has none. -/
inductive Component where
  | textbox
  | menu
  | scrollbar
  | combobox
  | combobutton
  | button (type : Byte)
  deriving DecidableEq

/-- `osd_obj_t`, without `focused` and what is only drawn. -/
structure OsdObj where
  node : Node
  enable : Byte
  selectable : Byte
  component : Component

/-- The objects by address. -/
abbrev Objs := Nat → OsdObj

section

variable (objs : Objs)

def nodeGetNext (node : Nat) : Option Nat := (objs node).node.next

def nodeGetPrev (node : Nat) : Option Nat := (objs node).node.prev

def nodeSetNext (node : Nat) (next : Option Nat) : Objs :=
  update objs node { objs node with node := { (objs node).node with next } }

def nodeSetPrev (node : Nat) (prev : Option Nat) : Objs :=
  update objs node { objs node with node := { (objs node).node with prev } }

/-- `node_getHead`, which gives up after `NODE_MAX_NUM` nodes. -/
def nodeGetHead : Nat → Option Nat := toEnd (nodeGetPrev objs) nodeMaxNum

def nodeAppend (node next : Nat) : Objs :=
  match nodeGetNext objs node with
  | none => nodeSetPrev (nodeSetNext (nodeSetNext objs node next) next none) next node
  | some temp =>
    let objs := nodeSetPrev (nodeSetNext objs node next) temp next
    nodeSetPrev (nodeSetNext objs next temp) next node

def IsLevel (nodes : List Nat) : Prop := Linked (nodeGetNext objs) (nodeGetPrev objs) nodes

end

variable {objs : Objs} {a b nodes : List Nat} {node next prev x : Nat}

/-! ## Building a level -/

theorem next_set_next (objs : Objs) (node : Nat) (next : Option Nat) :
    nodeGetNext (nodeSetNext objs node next) = update (nodeGetNext objs) node next := by
  funext x
  by_cases heq : x = node
  · subst heq
    rw [nodeGetNext, nodeSetNext, update_self, update_self]
  · rw [nodeGetNext, nodeSetNext, update_of_ne heq, update_of_ne heq]
    rfl

theorem prev_set_next (objs : Objs) (node : Nat) (next : Option Nat) :
    nodeGetPrev (nodeSetNext objs node next) = nodeGetPrev objs := by
  funext x
  by_cases heq : x = node
  · subst heq
    rw [nodeGetPrev, nodeSetNext, update_self]
    rfl
  · rw [nodeGetPrev, nodeSetNext, update_of_ne heq]
    rfl

theorem prev_set_prev (objs : Objs) (node : Nat) (prev : Option Nat) :
    nodeGetPrev (nodeSetPrev objs node prev) = update (nodeGetPrev objs) node prev := by
  funext x
  by_cases heq : x = node
  · subst heq
    rw [nodeGetPrev, nodeSetPrev, update_self, update_self]
  · rw [nodeGetPrev, nodeSetPrev, update_of_ne heq, update_of_ne heq]
    rfl

theorem next_set_prev (objs : Objs) (node : Nat) (prev : Option Nat) :
    nodeGetNext (nodeSetPrev objs node prev) = nodeGetNext objs := by
  funext x
  by_cases heq : x = node
  · subst heq
    rw [nodeGetNext, nodeSetPrev, update_self]
    rfl
  · rw [nodeGetNext, nodeSetPrev, update_of_ne heq]
    rfl

theorem single_level (hnext : nodeGetNext objs x = none) (hprev : nodeGetPrev objs x = none) :
    IsLevel objs [x] where
  nodup := List.nodup_singleton x
  forward := ⟨rfl, hnext⟩
  backward := ⟨rfl, hprev⟩

theorem append_linked (h : IsLevel objs (a ++ node :: b)) (hx : next ∉ a ++ node :: b) :
    IsLevel (nodeAppend objs node next) (a ++ node :: next :: b) := by
  have hinsert := h.insert hx
  have hnext : nodeGetNext objs node = b.head? := h.next_eq
  unfold IsLevel nodeAppend
  cases b with
  | nil =>
    rw [hnext] at hinsert ⊢
    simp only [List.head?_nil, next_set_prev, next_set_next, prev_set_prev, prev_set_next]
    exact hinsert
  | cons d b =>
    rw [hnext] at hinsert ⊢
    simp only [List.head?_cons, next_set_prev, next_set_next, prev_set_prev, prev_set_next]
    exact hinsert

/-! ## The children of a menu -/

/-- The children of a menu, which has the address of one of them. -/
structure ChildList where
  objs : Objs
  nodes : List Nat
  level : IsLevel objs nodes
  length_le : nodes.length ≤ nodeMaxNum
  child : Nat
  child_mem : child ∈ nodes

end FullhanRtos.Osd
