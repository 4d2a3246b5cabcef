import Mathlib.Data.List.Nodup
import Mathlib.Data.List.Basic
import Mathlib.Logic.Function.Basic

/-!
# Circular doubly linked lists held in two link arrays

A ring is a list of nodes that a `next` array and a `prev` array describe together: following
`next` from any node visits the list cyclically, and `prev` goes the other way round.
`IsRing next prev l` says the two arrays hold the ring `l`, with the head of `l` first.

The lemmas cover what code does with such a list: read the neighbours of a node, unlink a node
(`IsRing.erase`), insert at the tail (`IsRing.insert_last`), insert behind the head
(`IsRing.insert_second`), and leave it alone (`IsRing.congr`). New link arrays are described by
what they hold at the nodes concerned, so that a client proves the hypotheses from its own writes.
-/

namespace LinkedRing

open List

variable {ι : Type*} {next prev next' prev' : ι → ι} {m : List ι} {a b : ι} {xs : List ι}

/-- The links lead from `a` through the nodes of `m` to `b`, in both directions. -/
def Path (next prev : ι → ι) : ι → List ι → ι → Prop
  | a, [], b => next a = b ∧ prev b = a
  | a, c :: m, b => (next a = c ∧ prev c = a) ∧ Path next prev c m b

/-- The two arrays hold the circular list `l`. The empty list needs no links. -/
def IsRing (next prev : ι → ι) : List ι → Prop
  | [] => True
  | x :: xs => Path next prev x xs x

theorem path_append {a b c : ι} {m1 m2 : List ι} :
    Path next prev a (m1 ++ c :: m2) b ↔ Path next prev a m1 c ∧ Path next prev c m2 b := by
  induction m1 generalizing a with
  | nil => rfl
  | cons d m ih => simp only [cons_append, Path, ih, and_assoc]

section

variable (h : Path next prev a m b)

include h

theorem Path.congr (hnext : ∀ q ∈ a :: m, next' q = next q)
    (hprev : ∀ q ∈ b :: m, prev' q = prev q) : Path next' prev' a m b := by
  induction m generalizing a with
  | nil => exact ⟨(hnext a (by simp)).trans h.1, (hprev b (by simp)).trans h.2⟩
  | cons c m ih =>
    refine ⟨⟨(hnext a (by simp)).trans h.1.1, (hprev c (by simp)).trans h.1.2⟩, ?_⟩
    refine ih h.2 (fun q hq => hnext q (mem_cons_of_mem _ hq)) (fun q hq => hprev q ?_)
    rcases mem_cons.mp hq with rfl | hq <;> simp [*]

/-- The node before the end of a path is one of its sources. -/
theorem Path.prev_mem : prev b ∈ a :: m := by
  induction m generalizing a with
  | nil => simp [h.2]
  | cons c m ih => exact mem_cons_of_mem _ (ih h.2)

/-- The node behind the start of a path is one of its targets. -/
theorem Path.next_mem : next a ∈ b :: m := by
  cases m with
  | nil => simp [h.1]
  | cons c m => simp [h.1.1]

theorem Path.next_prev : next (prev b) = b := by
  induction m generalizing a with
  | nil => rw [h.2, h.1]
  | cons c m ih => exact ih h.2

theorem Path.prev_next : prev (next a) = a := by
  cases m with
  | nil => rw [h.1, h.2]
  | cons c m => rw [h.1.1, h.1.2]

end

/-- Redirecting the last link of a path gives a path to the new end. -/
theorem Path.retarget {a b c : ι} (h : Path next prev a m b) (hnd : (a :: m).Nodup)
    (hlast : next' (prev b) = c) (hback : prev' c = prev b)
    (hnext : ∀ q ∈ a :: m, q ≠ prev b → next' q = next q) (hprev : ∀ q ∈ m, prev' q = prev q) :
    Path next' prev' a m c := by
  induction m generalizing a with
  | nil =>
    rw [h.2] at hlast hback
    exact ⟨hlast, hback⟩
  | cons d m ih =>
    have hne : a ≠ prev b := by
      intro heq
      exact (nodup_cons.mp hnd).1 (heq ▸ h.2.prev_mem)
    refine ⟨⟨(hnext a (by simp) hne).trans h.1.1, (hprev d (by simp)).trans h.1.2⟩, ?_⟩
    exact ih h.2 (nodup_cons.mp hnd).2
      (fun q hq => hnext q (mem_cons_of_mem _ hq))
      (fun q hq => hprev q (mem_cons_of_mem _ hq))

/-- A path is given by its start, its end and the links. -/
theorem Path.unique {m m' : List ι} (h : Path next prev a m b) (h' : Path next prev a m' b)
    (hnot : b ∉ m) (hnot' : b ∉ m') : m = m' := by
  induction m generalizing a m' with
  | nil =>
    cases m' with
    | nil => rfl
    | cons c m' =>
      have heq : c = b := h'.1.1.symm.trans h.1
      exact absurd (heq ▸ mem_cons_self) hnot'
  | cons c m ih =>
    cases m' with
    | nil =>
      have heq : c = b := h.1.1.symm.trans h'.1
      exact absurd (heq ▸ mem_cons_self) hnot
    | cons d m' =>
      obtain rfl : c = d := h.1.1.symm.trans h'.1.1
      rw [ih h.2 h'.2 (fun hmem => hnot (mem_cons_of_mem _ hmem)) fun hmem =>
        hnot' (mem_cons_of_mem _ hmem)]

/-- A ring may be read from any of its nodes. -/
theorem isRing_rotate {p : ι} {l1 l2 : List ι} :
    IsRing next prev (l1 ++ p :: l2) ↔ IsRing next prev (p :: (l2 ++ l1)) := by
  cases l1 with
  | nil => simp
  | cons x m =>
    simp only [cons_append, IsRing, path_append]
    exact and_comm

/-- A ring survives any write that leaves the links of its own nodes alone. -/
theorem IsRing.congr {l : List ι} (h : IsRing next prev l)
    (hnext : ∀ q ∈ l, next' q = next q) (hprev : ∀ q ∈ l, prev' q = prev q) :
    IsRing next' prev' l := by
  cases l with
  | nil => trivial
  | cons x xs => exact Path.congr h hnext hprev

theorem isRing_singleton {p : ι} : IsRing next prev [p] ↔ next p = p ∧ prev p = p := Iff.rfl

section

variable {p : ι} {l : List ι}

section

variable (h : IsRing next prev l)

include h

/-- A ring, read from its node `p`. -/
theorem IsRing.path_of_mem (hp : p ∈ l) :
    ∃ l1 l2, l = l1 ++ p :: l2 ∧ Path next prev p (l2 ++ l1) p := by
  obtain ⟨l1, l2, rfl⟩ := append_of_mem hp
  exact ⟨l1, l2, rfl, isRing_rotate.mp h⟩

theorem IsRing.next_mem (hp : p ∈ l) : next p ∈ l := by
  obtain ⟨l1, l2, rfl, hpath⟩ := h.path_of_mem hp
  have := hpath.next_mem
  simp only [mem_cons, mem_append] at this ⊢
  tauto

theorem IsRing.prev_mem (hp : p ∈ l) : prev p ∈ l := by
  obtain ⟨l1, l2, rfl, hpath⟩ := h.path_of_mem hp
  have := hpath.prev_mem
  simp only [mem_cons, mem_append] at this ⊢
  tauto

theorem IsRing.next_prev (hp : p ∈ l) : next (prev p) = p := by
  obtain ⟨_, _, _, hpath⟩ := h.path_of_mem hp
  exact hpath.next_prev

theorem IsRing.prev_next (hp : p ∈ l) : prev (next p) = p := by
  obtain ⟨_, _, _, hpath⟩ := h.path_of_mem hp
  exact hpath.prev_next

/-- A node is its own successor exactly when it is alone. -/
theorem IsRing.next_eq_self_iff (hnd : l.Nodup) (hp : p ∈ l) : next p = p ↔ l = [p] := by
  obtain ⟨l1, l2, rfl, hpath⟩ := h.path_of_mem hp
  constructor
  · intro hself
    cases hrest : l2 ++ l1 with
    | nil =>
      obtain ⟨rfl, rfl⟩ := append_eq_nil_iff.mp hrest
      rfl
    | cons c m =>
      rw [hrest] at hpath
      have hc : c = p := hpath.1.1.symm.trans hself
      have hmem : p ∈ l2 ++ l1 := by rw [hrest, hc]; simp
      rw [nodup_append'] at hnd
      have hnot : p ∉ l2 := (nodup_cons.mp hnd.2.1).1
      have hnot' : p ∉ l1 := fun hp1 => hnd.2.2 hp1 (by simp)
      simp [hnot, hnot'] at hmem
  · intro hsingle
    rw [hsingle] at h
    exact h.1

end

/-- In a ring of more than one node the head's successor is the second node. -/
theorem IsRing.next_head {x y : ι} {ys : List ι} (h : IsRing next prev (x :: y :: ys)) :
    next x = y :=
  h.1.1

end

/-- Unlinking a node leaves the ring of the others. -/
theorem IsRing.erase [DecidableEq ι] {p : ι} {l : List ι} (h : IsRing next prev l)
    (hnd : l.Nodup) (hp : p ∈ l)
    (hlink : next' (prev p) = next p) (hback : prev' (next p) = prev p)
    (hnext : ∀ q ∈ l, q ≠ p → q ≠ prev p → next' q = next q)
    (hprev : ∀ q ∈ l, q ≠ p → q ≠ next p → prev' q = prev q) :
    IsRing next' prev' (l.erase p) := by
  obtain ⟨l1, l2, rfl, hpath⟩ := h.path_of_mem hp
  have hnd' : (p :: (l2 ++ l1)).Nodup := (perm_middle.trans
    ((perm_append_comm).cons p)).nodup_iff.mp hnd
  have hp1 : p ∉ l1 := fun hmem => (nodup_cons.mp hnd').1 (by simp [hmem])
  have hmem : ∀ q ∈ l2 ++ l1, q ∈ l1 ++ p :: l2 := by
    intro q hq
    simp only [mem_append, mem_cons] at hq ⊢
    tauto
  have hne : ∀ q ∈ l2 ++ l1, q ≠ p := by
    rintro q hq rfl
    exact (nodup_cons.mp hnd').1 hq
  rw [erase_append_right _ hp1, erase_cons_head]
  -- Read the ring from `p`: what is left starts at `next p` and its last link goes back there.
  suffices hrest : IsRing next' prev' (l2 ++ l1) by
    cases l2 with
    | nil => simpa using hrest
    | cons y ys => exact isRing_rotate.mpr hrest
  cases hlist : l2 ++ l1 with
  | nil => trivial
  | cons y ys =>
    rw [hlist] at hpath hnd' hmem hne
    have hy : next p = y := hpath.1.1
    rw [hy] at hlink hback hprev
    refine Path.retarget hpath.2 (nodup_cons.mp hnd').2 hlink hback ?_ ?_
    · exact fun q hq hlast => hnext q (hmem q hq) (hne q hq) hlast
    · intro q hq
      refine hprev q (hmem q (by simp [hq])) (hne q (by simp [hq])) ?_
      rintro rfl
      exact (nodup_cons.mp (nodup_cons.mp hnd').2).1 hq

/-- Linking a new node between the last node and the head appends it to the ring. -/
theorem IsRing.insert_last {p x : ι} (h : IsRing next prev (x :: xs)) (hnd : (x :: xs).Nodup)
    (hpnext : next' p = x) (hpprev : prev' p = prev x) (hlast : next' (prev x) = p)
    (hhead : prev' x = p) (hnext : ∀ q ∈ x :: xs, q ≠ prev x → next' q = next q)
    (hprev : ∀ q ∈ xs, prev' q = prev q) :
    IsRing next' prev' (x :: (xs ++ [p])) :=
  path_append.mpr ⟨Path.retarget h hnd hlast hpprev hnext hprev, hpnext, hhead⟩

/-- Linking a new node between the head and its successor makes it the second node. -/
theorem IsRing.insert_second {p x : ι} (h : IsRing next prev (x :: xs)) (hnd : (x :: xs).Nodup)
    (hhead : next' x = p) (hpprev : prev' p = x) (hpnext : next' p = next x)
    (hback : prev' (next x) = p) (hnext : ∀ q ∈ xs, next' q = next q)
    (hprev : ∀ q ∈ x :: xs, q ≠ next x → prev' q = prev q) :
    IsRing next' prev' (x :: p :: xs) := by
  refine ⟨⟨hhead, hpprev⟩, ?_⟩
  cases xs with
  | nil =>
    have hself : next x = x := h.1
    rw [hself] at hpnext hback
    exact ⟨hpnext, hback⟩
  | cons y ys =>
    have hy : next x = y := h.1.1
    rw [hy] at hpnext hback hprev
    have hnd' := nodup_cons.mp hnd
    refine ⟨⟨hpnext, hback⟩, Path.congr h.2 hnext ?_⟩
    intro q hq
    refine hprev q ?_ ?_
    · rcases mem_cons.mp hq with rfl | hq <;> simp [*]
    · rintro rfl
      rcases mem_cons.mp hq with rfl | hq
      · exact hnd'.1 (by simp)
      · exact (nodup_cons.mp hnd'.2).1 hq

end LinkedRing
