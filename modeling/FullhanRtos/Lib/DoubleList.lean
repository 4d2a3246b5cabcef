import FullhanRtos.Lib.NullList
import Mathlib.Data.List.Nodup

/-!
# Doubly linked lists that are walked in a circle

`Linked next prev l` says that `next` leads through the nodes of `l` to a null pointer and `prev`
back. A walk that goes on at the other end when it comes to one visits the nodes in the order of
`around`, and `Linked.search_eq` says what a bounded search on such a walk finds. Everything holds
with the directions exchanged, for the list in reverse.
-/

namespace DoubleList

open NullList Function List

variable {ν : Type*} {next prev : ν → Option ν} {p : Option ν} {c x y : ν} {l a b : List ν}
  {n m : Nat}

structure Linked (next prev : ν → Option ν) (l : List ν) : Prop where
  nodup : l.Nodup
  forward : IsList next l.head? l
  backward : IsList prev l.reverse.head? l.reverse

theorem Linked.symm (h : Linked next prev l) : Linked prev next l.reverse where
  nodup := nodup_reverse.mpr h.nodup
  forward := h.backward
  backward := by
    rw [reverse_reverse]
    exact h.forward

/-- The links from a node on. -/
theorem drop_list (h : IsList next p (a ++ l)) : IsList next l.head? l := by
  induction a generalizing p with
  | nil =>
    obtain rfl := h.head_eq
    exact h
  | cons x a ih => exact ih h.2

theorem Linked.next_eq (h : Linked next prev (a ++ c :: b)) : next c = b.head? :=
  (drop_list h.forward).2.head_eq

/-! ## Walks -/

/-- Follow the links to the last node, at most `n - 1` of them. -/
def toEnd (next : ν → Option ν) : Nat → ν → Option ν
  | 0, _ => none
  | n + 1, c =>
    match next c with
    | none => some c
    | some d => toEnd next n d

theorem to_end_eq (h : IsList next (some c) (c :: b)) (hn : b.length < n) :
    toEnd next n c = (c :: b).getLast? := by
  induction b generalizing c n with
  | nil =>
    obtain ⟨n, rfl⟩ : ∃ k, n = k + 1 := ⟨n - 1, by omega⟩
    have hnext : next c = none := h.2
    rw [toEnd, hnext]
    rfl
  | cons d b ih =>
    obtain ⟨n, rfl⟩ : ∃ k, n = k + 1 := ⟨n - 1, by omega⟩
    have hnext : next c = some d := h.2.1
    rw [toEnd, hnext, getLast?_cons_cons]
    refine ih (hnext ▸ h.2) ?_
    rw [length_cons] at hn
    omega

/-- One step of a walk in a circle. -/
def turn (next prev : ν → Option ν) (n : Nat) (c : ν) : Option ν :=
  match next c with
  | none => toEnd prev n c
  | some d => some d

/-- The nodes in the order in which a walk from `c` visits them, `c` last. -/
def around (a : List ν) (c : ν) (b : List ν) : List ν := b ++ (a ++ [c])

theorem Linked.turn_eq (h : Linked next prev (a ++ c :: b)) (hn : (a ++ c :: b).length ≤ n) :
    turn next prev n c = (around a c b).head? := by
  rw [turn, h.next_eq, around]
  cases b with
  | cons d b => rfl
  | nil =>
    have hback := h.symm.forward
    rw [reverse_append, reverse_singleton, singleton_append] at hback
    have hlen : a.reverse.length < n := by
      rw [length_append] at hn
      rw [length_reverse]
      exact hn
    have hreverse : c :: a.reverse = (a ++ [c]).reverse := by
      rw [reverse_append, reverse_singleton, singleton_append]
    have hend := to_end_eq hback hlen
    rw [hreverse, getLast?_reverse] at hend
    exact hend

/-! ## Searches -/

/-- Search in a walk of `n` steps. The first option is a null pointer. -/
def search (move : ν → Option ν) (good : ν → Bool) : Nat → ν → Option (Option ν)
  | 0, _ => some none
  | n + 1, c =>
    match move c with
    | none => none
    | some d => if good d then some (some d) else search move good n d

/-- The walk visits these nodes. -/
def Visits (move : ν → Option ν) : ν → List ν → Prop
  | _, [] => True
  | c, d :: l => move c = some d ∧ Visits move d l

variable {move : ν → Option ν} {good : ν → Bool}

theorem Visits.append {l' : List ν} (h : Visits move c (l ++ [x])) (h' : Visits move x l') :
    Visits move c (l ++ x :: l') := by
  induction l generalizing c with
  | nil => exact ⟨h.1, h'⟩
  | cons d l ih => exact ⟨h.1, ih h.2⟩

/-- A walk that visits nothing good finds nothing, however often it goes around. -/
theorem search_none (hclosed : ∀ d ∈ l, ∃ d' ∈ l, move d = some d')
    (hnone : ∀ d ∈ l, good d = false) (hc : c ∈ l) (n : Nat) :
    search move good n c = some none := by
  induction n generalizing c with
  | zero => rfl
  | succ n ih =>
    obtain ⟨d, hd, hmove⟩ := hclosed c hc
    rw [search, hmove]
    dsimp only
    rw [hnone d hd, if_neg Bool.false_ne_true]
    exact ih hd

theorem search_visits (h : Visits move c l) (hn : l.length ≤ n) (hfound : l.find? good = some x) :
    search move good n c = some (some x) := by
  induction l generalizing c n with
  | nil => cases hfound
  | cons d l ih =>
    rw [length_cons] at hn
    obtain ⟨n, rfl⟩ : ∃ k, n = k + 1 := ⟨n - 1, by omega⟩
    rw [search, h.1]
    dsimp only
    rw [find?_cons] at hfound
    cases hgood : good d with
    | true =>
      rw [hgood] at hfound
      obtain rfl : d = x := Option.some.inj hfound
      rw [if_pos rfl]
    | false =>
      rw [hgood] at hfound
      exact ih h.2 (by omega) hfound

theorem Linked.visits_behind (h : Linked next prev (a ++ c :: b)) (m : Nat) :
    Visits (turn next prev m) c b := by
  induction b generalizing a c with
  | nil => trivial
  | cons d b ih =>
    refine ⟨?_, ih (a := a ++ [c]) (by rwa [append_assoc])⟩
    rw [turn, h.next_eq]
    rfl

theorem Linked.visits (h : Linked next prev (a ++ c :: b)) (hm : (a ++ c :: b).length ≤ m) :
    Visits (turn next prev m) c (around a c b) := by
  have hfront : ∀ d a', a ++ [c] = d :: a' → Visits (turn next prev m) d a' := by
    intro d a' ha
    have hall : Linked next prev ([] ++ d :: (a' ++ b)) := by
      rw [nil_append, ← cons_append, ← ha, append_assoc]
      exact h
    have hvisits := hall.visits_behind m
    clear hall ha
    induction a' generalizing d with
    | nil => trivial
    | cons e a' ih => exact ⟨hvisits.1, ih e hvisits.2⟩
  obtain ⟨d, a', ha⟩ : ∃ d a', a ++ [c] = d :: a' := exists_cons_of_ne_nil (by simp)
  rw [around, ha]
  rcases eq_nil_or_concat b with rfl | ⟨b, z, rfl⟩
  · refine ⟨?_, hfront d a' ha⟩
    rw [h.turn_eq hm, around, ha]
    rfl
  · rw [concat_eq_append] at h hm ⊢
    have hlast : Linked next prev (a ++ c :: b ++ z :: []) := by
      rw [append_assoc, cons_append]
      exact h
    rw [append_assoc, singleton_append]
    refine (h.visits_behind m).append ⟨?_, hfront d a' ha⟩
    rw [hlast.turn_eq (by rw [append_assoc, cons_append]; exact hm), around,
      nil_append, append_assoc, cons_append]
    cases a with
    | nil =>
      cases ha
      rfl
    | cons _ _ =>
      cases ha
      rfl

theorem mem_around : x ∈ around a c b ↔ x ∈ a ++ c :: b := by
  simp only [around, mem_append, mem_cons, not_mem_nil, or_false]
  tauto

/-- A search around the list finds the first good node behind `c`, which is `c` itself when no other
node is good. -/
theorem Linked.search_eq (h : Linked next prev (a ++ c :: b)) (hm : (a ++ c :: b).length ≤ m)
    (hn : (a ++ c :: b).length ≤ n) (good : ν → Bool) :
    search (turn next prev m) good n c = some ((around a c b).find? good) := by
  cases hfound : (around a c b).find? good with
  | some x =>
    refine search_visits (h.visits hm) ?_ hfound
    rw [around]
    simp only [length_append, length_cons, length_nil] at hn ⊢
    omega
  | none =>
    refine search_none (l := a ++ c :: b) (fun d hd => ?_) (fun d hd => ?_)
      (mem_append_right a mem_cons_self) n
    · obtain ⟨a', b', heq⟩ := append_of_mem hd
      rw [heq] at h hm ⊢
      obtain ⟨e, l, he⟩ : ∃ e l, around a' d b' = e :: l := exists_cons_of_ne_nil (by simp [around])
      refine ⟨e, mem_around.mp (he ▸ mem_cons_self), ?_⟩
      rw [h.turn_eq hm, he]
      rfl
    · exact Bool.eq_false_iff.mpr (find?_eq_none.mp hfound d (mem_around.mpr hd))

/-! ## Building a list -/

variable [DecidableEq ν]

theorem insert_list (h : IsList next p (a ++ c :: b)) (hnodup : (a ++ c :: b).Nodup)
    (hx : x ∉ a ++ c :: b) :
    IsList (update (update next c (some x)) x (next c)) p (a ++ c :: x :: b) := by
  have hnew : ∀ y ∈ a ++ c :: b, y ≠ x := fun y hy heq => hx (heq ▸ hy)
  induction a generalizing p with
  | nil =>
    have hc : c ∉ b := (nodup_cons.mp hnodup).1
    refine ⟨h.1, ?_, ?_⟩
    · rw [update_of_ne (hnew c mem_cons_self), update_self]
    · rw [update_self]
      refine h.2.congr fun y hy => ?_
      rw [update_of_ne (hnew y (mem_cons_of_mem c hy)),
        update_of_ne fun heq : y = c => hc (heq ▸ hy)]
  | cons d a ih =>
    obtain ⟨hd, hrest⟩ := nodup_cons.mp hnodup
    have hdc : d ≠ c := fun heq => hd (heq ▸ mem_append_right a mem_cons_self)
    refine ⟨h.1, ?_⟩
    rw [update_of_ne (hnew d mem_cons_self), update_of_ne hdc]
    exact ih h.2 hrest (fun hmem => hx (mem_cons_of_mem d hmem))
      fun y hy => hnew y (mem_cons_of_mem d hy)

/-- The back links when a node is put behind `c`. -/
def backLink (prev : ν → Option ν) (b : List ν) (x : ν) : ν → Option ν :=
  match b with
  | [] => prev
  | d :: _ => update prev d (some x)

theorem Linked.insert (h : Linked next prev (a ++ c :: b)) (hx : x ∉ a ++ c :: b) :
    Linked (update (update next c (some x)) x (next c))
      (update (backLink prev b x) x (some c)) (a ++ c :: x :: b) where
  nodup := by
    have hperm : (a ++ c :: x :: b).Perm (x :: (a ++ c :: b)) := by
      rw [show a ++ c :: x :: b = (a ++ [c]) ++ x :: b by rw [append_assoc]; rfl,
        show a ++ c :: b = (a ++ [c]) ++ b by rw [append_assoc]; rfl]
      exact perm_middle
    exact hperm.nodup_iff.mpr (nodup_cons.mpr ⟨hx, h.nodup⟩)
  forward := by
    have hlist := insert_list h.forward h.nodup hx
    rw [hlist.head_eq] at hlist
    exact hlist
  backward := by
    have hback := h.backward
    rw [reverse_append, reverse_cons, append_assoc, singleton_append] at hback
    have hx' : x ∉ b.reverse ++ c :: a.reverse := by
      simpa [or_comm, or_left_comm, or_assoc] using hx
    have hnodup : (b.reverse ++ c :: a.reverse).Nodup := by
      have hrev := nodup_reverse.mpr h.nodup
      rwa [reverse_append, reverse_cons, append_assoc, singleton_append] at hrev
    have heq : (a ++ c :: x :: b).reverse = b.reverse ++ x :: c :: a.reverse := by
      simp
    rw [heq]
    cases b with
    | nil => exact hback.push hx'
    | cons d b =>
      have hprev : prev d = some c := by
        rw [reverse_cons, append_assoc, singleton_append] at hback
        exact (drop_list hback).2.1
      rw [reverse_cons, append_assoc, singleton_append] at hback hx' hnodup ⊢
      have hlist := insert_list hback hnodup hx'
      rw [hprev] at hlist
      rw [hlist.head_eq] at hlist
      exact hlist

end DoubleList
