import Mathlib.Logic.Relation

/-!
# Classes that grow edge by edge

`Joined edges` is the equivalence that a list of pairs generates. `joined_cons` says what one more
pair joins, `joined_isolated` that a vertex without a pair is on its own; these are the two steps of
an algorithm that takes vertices and edges one at a time.
-/

namespace Classes

open Relation

variable {ν : Type*} {edges : List (ν × ν)} {a b v x y : ν}

/-- Two vertices are joined by a chain of edges. -/
def Joined (edges : List (ν × ν)) : ν → ν → Prop := EqvGen fun a b => (a, b) ∈ edges

theorem joined_refl (edges : List (ν × ν)) (a : ν) : Joined edges a a := .refl a

theorem Joined.symm (h : Joined edges a b) : Joined edges b a := EqvGen.symm _ _ h

theorem Joined.trans (h : Joined edges a b) (h' : Joined edges b v) : Joined edges a v :=
  EqvGen.trans _ _ _ h h'

theorem joined_of_mem (h : (a, b) ∈ edges) : Joined edges a b := .rel _ _ h

theorem Joined.mono {edges' : List (ν × ν)} (h : Joined edges a b)
    (hsub : ∀ e ∈ edges, e ∈ edges') : Joined edges' a b :=
  EqvGen.mono (fun _ _ hab => hsub _ hab) _ _ h

theorem joined_cons : Joined ((x, y) :: edges) a b ↔ Joined edges a b ∨
    (Joined edges a x ∧ Joined edges y b) ∨ (Joined edges a y ∧ Joined edges x b) := by
  have hsub : ∀ e ∈ edges, e ∈ (x, y) :: edges := fun e he => List.mem_cons_of_mem _ he
  have hxy : Joined ((x, y) :: edges) x y := joined_of_mem List.mem_cons_self
  constructor
  · intro h
    induction h with
    | rel a b hab =>
      rcases List.mem_cons.mp hab with heq | hab
      · cases heq
        exact .inr (.inl ⟨joined_refl _ _, joined_refl _ _⟩)
      · exact .inl (joined_of_mem hab)
    | refl a => exact .inl (joined_refl _ _)
    | symm a b _ ih =>
      rcases ih with h | ⟨hx, hy⟩ | ⟨hy, hx⟩
      · exact .inl h.symm
      · exact .inr (.inr ⟨hy.symm, hx.symm⟩)
      · exact .inr (.inl ⟨hx.symm, hy.symm⟩)
    | trans a b c _ _ ihab ihbc =>
      rcases ihab with h | ⟨hx, hy⟩ | ⟨hy, hx⟩ <;> rcases ihbc with h' | ⟨hx', hy'⟩ | ⟨hy', hx'⟩
      · exact .inl (h.trans h')
      · exact .inr (.inl ⟨h.trans hx', hy'⟩)
      · exact .inr (.inr ⟨h.trans hy', hx'⟩)
      · exact .inr (.inl ⟨hx, hy.trans h'⟩)
      · exact .inr (.inl ⟨hx, hy'⟩)
      · exact .inl (hx.trans hx')
      · exact .inr (.inr ⟨hy, hx.trans h'⟩)
      · exact .inl (hy.trans hy')
      · exact .inr (.inr ⟨hy, hx'⟩)
  · rintro (h | ⟨hx, hy⟩ | ⟨hy, hx⟩)
    · exact h.mono hsub
    · exact (hx.mono hsub).trans (hxy.trans (hy.mono hsub))
    · exact (hy.mono hsub).trans (hxy.symm.trans (hx.mono hsub))

theorem joined_isolated (hv : ∀ e ∈ edges, e.1 ≠ v ∧ e.2 ≠ v) (h : Joined edges a b) :
    a = v ↔ b = v := by
  induction h with
  | rel a b hab => exact iff_of_false (hv _ hab).1 (hv _ hab).2
  | refl a => exact Iff.rfl
  | symm a b _ ih => exact ih.symm
  | trans a b c _ _ ihab ihbc => exact ihab.trans ihbc

theorem joined_leaf [DecidableEq ν] (hv : ∀ e ∈ edges, e.1 ≠ v ∧ e.2 ≠ v) :
    Joined ((x, v) :: edges) a b ↔
      Joined edges (if a = v then x else a) (if b = v then x else b) := by
  have hout : ∀ {c}, c ≠ v → ¬ Joined edges c v ∧ ¬ Joined edges v c := fun hc =>
    ⟨fun h => hc ((joined_isolated hv h).mpr rfl), fun h => hc ((joined_isolated hv h).mp rfl)⟩
  rw [joined_cons]
  by_cases ha : a = v <;> by_cases hb : b = v
  · subst ha hb
    exact iff_of_true (.inl (joined_refl _ _)) (joined_refl _ _)
  · subst ha
    rw [if_pos rfl, if_neg hb]
    constructor
    · rintro (h | ⟨-, h⟩ | ⟨-, h⟩)
      · exact absurd h (hout hb).2
      · exact absurd h (hout hb).2
      · exact h
    · exact fun h => .inr (.inr ⟨joined_refl _ _, h⟩)
  · subst hb
    rw [if_neg ha, if_pos rfl]
    constructor
    · rintro (h | ⟨h, -⟩ | ⟨h, -⟩)
      · exact absurd h (hout ha).1
      · exact h
      · exact absurd h (hout ha).1
    · exact fun h => .inr (.inl ⟨h, joined_refl _ _⟩)
  · rw [if_neg ha, if_neg hb]
    refine or_iff_left ?_
    rintro (⟨-, h⟩ | ⟨h, -⟩)
    · exact (hout hb).2 h
    · exact (hout ha).1 h

end Classes
