import Mathlib.Data.List.Pairwise
import Mathlib.Order.Lattice
import Mathlib.Data.List.Basic
import Mathlib.Tactic.Common

/-!
# Ranking a list and thinning it out

Bubble sort with passes from the end of the list, and `pwFilter` read from the end of a list:
the last element stays, and it drops those before it that are not related to it.
-/

namespace Ranking

open List

variable {α β : Type*} {l : List α}

section

variable [LinearOrder β] (key : α → β)

/-- One pass from the end: neighbours are exchanged where the first has the greater key. -/
def carry : List α → List α
  | [] => []
  | x :: xs =>
    match carry xs with
    | [] => [x]
    | y :: ys => if key y < key x then y :: x :: ys else x :: y :: ys

/-- `n` passes, each over what the one before has not placed. -/
def passes : Nat → List α → List α
  | 0, l => l
  | n + 1, l =>
    match carry key l with
    | [] => []
    | y :: ys => y :: passes n ys

theorem carry_perm (l : List α) : (carry key l).Perm l := by
  induction l with
  | nil => exact .nil
  | cons x xs ih =>
    rw [carry]
    cases hcarry : carry key xs with
    | nil =>
      rw [hcarry] at ih
      exact .cons x ih
    | cons y ys =>
      rw [hcarry] at ih
      dsimp only
      split
      · exact (Perm.swap x y ys).trans (.cons x ih)
      · exact .cons x ih

theorem length_carry (l : List α) : (carry key l).length = l.length := (carry_perm key l).length_eq

theorem carry_least {y : α} {ys : List α} (h : carry key l = y :: ys) :
    ∀ z ∈ ys, key y ≤ key z := by
  induction l generalizing y ys with
  | nil => exact absurd h (cons_ne_nil y ys).symm
  | cons x xs ih =>
    rw [carry] at h
    cases hcarry : carry key xs with
    | nil =>
      rw [hcarry] at h
      cases h
      exact fun z hz => absurd hz not_mem_nil
    | cons y' ys' =>
      rw [hcarry] at h
      dsimp only at h
      have hleast := ih hcarry
      split at h
      next hlt =>
        cases h
        intro z hz
        rcases mem_cons.mp hz with rfl | hz
        · exact le_of_lt hlt
        · exact hleast z hz
      next hnot =>
        cases h
        intro z hz
        rcases mem_cons.mp hz with rfl | hz
        · exact not_lt.mp hnot
        · exact le_trans (not_lt.mp hnot) (hleast z hz)

theorem passes_perm (n : Nat) (l : List α) : (passes key n l).Perm l := by
  induction n generalizing l with
  | zero => exact .refl l
  | succ n ih =>
    have hperm := carry_perm key l
    rw [passes]
    cases hcarry : carry key l with
    | nil => rwa [hcarry] at hperm
    | cons y ys =>
      rw [hcarry] at hperm
      exact (Perm.cons y (ih ys)).trans hperm

/-- One pass less than there are elements sorts them. -/
theorem passes_sorted {n : Nat} (h : l.length ≤ n + 1) :
    (passes key n l).Pairwise fun a b => key a ≤ key b := by
  induction n generalizing l with
  | zero =>
    match l with
    | [] => exact .nil
    | [a] => exact pairwise_singleton _ a
  | succ n ih =>
    have hlen := length_carry key l
    rw [passes]
    cases hcarry : carry key l with
    | nil => exact .nil
    | cons y ys =>
      rw [hcarry, length_cons] at hlen
      refine pairwise_cons.mpr ⟨fun z hz => ?_, ih (by omega)⟩
      exact carry_least key hcarry z ((passes_perm key n ys).mem_iff.mp hz)

end

section

variable {R : α → α → Prop} [DecidableRel R]

/-- The last element stays, and what is not related to it goes. -/
theorem pw_filter_concat (l : List α) (x : α) :
    pwFilter R (l ++ [x]) = pwFilter R (l.filter (R · x)) ++ [x] := by
  induction l with
  | nil => exact pwFilter_cons_of_pos fun b hb => absurd hb not_mem_nil
  | cons a l ih =>
    rw [cons_append]
    by_cases hax : R a x
    · rw [filter_cons, if_pos (decide_eq_true hax)]
      by_cases hrest : ∀ b ∈ pwFilter R (l.filter (R · x)), R a b
      · rw [pwFilter_cons_of_pos hrest, pwFilter_cons_of_pos, ih, cons_append]
        rw [ih]
        exact forall_mem_append.mpr ⟨hrest, forall_mem_singleton.mpr hax⟩
      · rw [pwFilter_cons_of_neg hrest, pwFilter_cons_of_neg, ih]
        rw [ih]
        exact fun h => hrest (forall_mem_append.mp h).1
    · rw [filter_cons, if_neg (by rwa [decide_eq_true_iff]), pwFilter_cons_of_neg, ih]
      rw [ih]
      exact fun h => hax (h x (mem_append_right _ (mem_singleton_self x)))

/-- What goes is behind an element that stays and is not related to it. -/
theorem pw_filter_covers {S : α → α → Prop} (hl : l.Pairwise S) {a : α} (ha : a ∈ l) :
    a ∈ pwFilter R l ∨ ∃ b ∈ pwFilter R l, S a b ∧ ¬ R a b := by
  induction l with
  | nil => exact absurd ha not_mem_nil
  | cons x l ih =>
    have hpair := pairwise_cons.mp hl
    by_cases hx : ∀ b ∈ pwFilter R l, R x b
    · rw [pwFilter_cons_of_pos hx]
      rcases mem_cons.mp ha with rfl | ha
      · exact .inl mem_cons_self
      · exact (ih hpair.2 ha).imp (mem_cons_of_mem x) fun ⟨b, hb, hrest⟩ =>
          ⟨b, mem_cons_of_mem x hb, hrest⟩
    · rw [pwFilter_cons_of_neg hx]
      rcases mem_cons.mp ha with rfl | ha
      · push Not at hx
        obtain ⟨b, hb, hab⟩ := hx
        exact .inr ⟨b, hb, hpair.1 b (pwFilter_subset l hb), hab⟩
      · exact ih hpair.2 ha

end

end Ranking
