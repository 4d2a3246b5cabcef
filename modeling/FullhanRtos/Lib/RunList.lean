import Mathlib.Algebra.GroupWithZero.Nat
import Mathlib.Data.Finset.Card
import Mathlib.Data.Finset.Range
import Mathlib.Order.Interval.Finset.Nat
import Mathlib.Tactic.Common

/-!
# Sorted lists of separated runs

A set of natural numbers below a bound is kept as the list of its maximal runs `(start, length)`,
in increasing order and with a gap between neighbours. `firstFit` takes numbers from the first
long enough run, and `insertRun` gives a run back, joining it with the runs it touches.

`Separated lo hi rs` is the invariant: the runs are non-empty, lie in `[lo, hi)` and have gaps
between them. Both operations keep it, and `first_fit_covers` and `insert_run_covers` say which
numbers the new list covers.
-/

namespace RunList

open Finset

/-- A number lies in one of the runs. -/
def Covers (rs : List (Nat × Nat)) (p : Nat) : Prop :=
  ∃ r ∈ rs, r.1 ≤ p ∧ p < r.1 + r.2

instance (rs : List (Nat × Nat)) (p : Nat) : Decidable (Covers rs p) :=
  inferInstanceAs (Decidable (∃ r ∈ rs, _))

/-- Non-empty runs inside `[lo, hi)`, in increasing order, no two of them touching. -/
def Separated : Nat → Nat → List (Nat × Nat) → Prop
  | _, _, [] => True
  | lo, hi, (i, k) :: rs => lo ≤ i ∧ 0 < k ∧ i + k ≤ hi ∧ Separated (i + k + 1) hi rs

/-- How many numbers the runs hold. -/
def total (rs : List (Nat × Nat)) : Nat :=
  (rs.map Prod.snd).sum

/-- Take `n` numbers from the front of the first run that has as many. -/
def firstFit (n : Nat) : List (Nat × Nat) → Option (Nat × List (Nat × Nat))
  | [] => none
  | (i, k) :: rs =>
    if k < n then (firstFit n rs).map fun found => (found.1, (i, k) :: found.2)
    else if n < k then some (i, (i + n, k - n) :: rs)
    else some (i, rs)

/-- Give the `n` numbers from `f` back, joining them with the runs they touch. -/
def insertRun (f n : Nat) : List (Nat × Nat) → List (Nat × Nat)
  | [] => [(f, n)]
  | (i, k) :: rs =>
    if i + k < f then (i, k) :: insertRun f n rs
    else if i + k = f then
      match rs with
      | [] => [(i, k + n)]
      | (j, l) :: rest => if f + n = j then (i, k + n + l) :: rest else (i, k + n) :: rs
    else if f + n < i then (f, n) :: (i, k) :: rs
    else (f, k + n) :: rs

@[simp]
theorem covers_nil (p : Nat) : ¬ Covers [] p := by
  simp [Covers]

@[simp]
theorem covers_cons (r : Nat × Nat) (rs : List (Nat × Nat)) (p : Nat) :
    Covers (r :: rs) p ↔ (r.1 ≤ p ∧ p < r.1 + r.2) ∨ Covers rs p := by
  simp [Covers]

theorem Separated.mono {lo lo' hi : Nat} {rs : List (Nat × Nat)} (h : Separated lo hi rs)
    (hle : lo' ≤ lo) : Separated lo' hi rs := by
  cases rs with
  | nil => trivial
  | cons r rs => exact ⟨hle.trans h.1, h.2⟩

theorem Separated.covers_bounds {lo hi p : Nat} {rs : List (Nat × Nat)} (h : Separated lo hi rs)
    (hp : Covers rs p) : lo ≤ p ∧ p < hi := by
  induction rs generalizing lo with
  | nil => exact absurd hp (covers_nil p)
  | cons r rs ih =>
    obtain ⟨i, k⟩ := r
    obtain ⟨hlo, _, hhi, hrest⟩ := h
    rcases (covers_cons _ _ _).mp hp with hp | hp
    · exact ⟨hlo.trans hp.1, lt_of_lt_of_le hp.2 hhi⟩
    · have := ih hrest hp
      omega

/-- There are at most as many runs as numbers between the bounds. -/
theorem Separated.length_le {lo hi : Nat} {rs : List (Nat × Nat)} (h : Separated lo hi rs) :
    rs.length ≤ hi - lo := by
  induction rs generalizing lo with
  | nil => simp
  | cons r rs ih =>
    obtain ⟨i, k⟩ := r
    obtain ⟨_, _, _, hrest⟩ := h
    have := ih hrest
    simp only [List.length_cons]
    omega

/-- A covered number lies in one run only. -/
theorem Separated.covers_unique {lo hi p : Nat} {rs : List (Nat × Nat)} (h : Separated lo hi rs)
    {r s : Nat × Nat} (hr : r ∈ rs) (hs : s ∈ rs) (hpr : r.1 ≤ p ∧ p < r.1 + r.2)
    (hps : s.1 ≤ p ∧ p < s.1 + s.2) : r = s := by
  induction rs generalizing lo with
  | nil => simp at hr
  | cons t rs ih =>
    obtain ⟨i, k⟩ := t
    obtain ⟨_, _, _, hrest⟩ := h
    have hbound : ∀ u ∈ rs, u.1 ≤ p → p < u.1 + u.2 → i + k + 1 ≤ p := fun u hu h1 h2 =>
      (hrest.covers_bounds ⟨u, hu, h1, h2⟩).1
    rcases List.mem_cons.mp hr with rfl | hr <;> rcases List.mem_cons.mp hs with rfl | hs
    · rfl
    · have := hbound s hs hps.1 hps.2
      omega
    · have := hbound r hr hpr.1 hpr.2
      omega
    · exact ih hrest hr hs

/-- Taking numbers from the first long enough run. -/
theorem first_fit_covers {lo hi n i : Nat} {rs rs' : List (Nat × Nat)} (h : Separated lo hi rs)
    (hn : 0 < n) (hfit : firstFit n rs = some (i, rs')) :
    Separated lo hi rs' ∧ (∀ p, i ≤ p → p < i + n → Covers rs p) ∧
      ∀ p, Covers rs' p ↔ Covers rs p ∧ ¬ (i ≤ p ∧ p < i + n) := by
  induction rs generalizing lo i rs' with
  | nil => simp [firstFit] at hfit
  | cons r rs ih =>
    obtain ⟨j, k⟩ := r
    obtain ⟨hlo, hk, hhi, hrest⟩ := h
    simp only [firstFit] at hfit
    split at hfit
    · -- The run is too short: it stays, and what is taken lies behind it.
      simp only [Option.map_eq_some_iff, Prod.mk.injEq] at hfit
      obtain ⟨⟨i', rest⟩, hfound, rfl, rfl⟩ := hfit
      obtain ⟨hsep, hin, hcov⟩ := ih hrest hfound
      have hstart := (hrest.covers_bounds (hin i' le_rfl (by omega))).1
      refine ⟨⟨hlo, hk, hhi, hsep⟩, fun p h1 h2 => ?_, fun p => ?_⟩
      · exact (covers_cons _ _ _).mpr (.inr (hin p h1 h2))
      · simp only [covers_cons, hcov]
        constructor
        · rintro (hp | ⟨hp, hout⟩)
          · exact ⟨.inl hp, by omega⟩
          · exact ⟨.inr hp, hout⟩
        · rintro ⟨hp | hp, hout⟩
          · exact .inl hp
          · exact .inr ⟨hp, hout⟩
    · -- The run is long enough: its front goes, and the rest of it stays if there is one.
      have hbehind : ∀ p, Covers rs p → j + k + 1 ≤ p := fun p hp => (hrest.covers_bounds hp).1
      split at hfit
      · simp only [Option.some.injEq, Prod.mk.injEq] at hfit
        obtain ⟨rfl, rfl⟩ := hfit
        refine ⟨⟨by omega, by omega, by omega, hrest.mono (by omega)⟩, fun p h1 h2 => ?_,
          fun p => ?_⟩
        · exact (covers_cons _ _ _).mpr (.inl ⟨h1, by simp only; omega⟩)
        · have := hbehind p
          simp only [covers_cons]
          by_cases hp : Covers rs p <;> simp only [hp, true_implies, false_implies] at * <;>
            simp <;> omega
      · simp only [Option.some.injEq, Prod.mk.injEq] at hfit
        obtain ⟨rfl, rfl⟩ := hfit
        refine ⟨hrest.mono (by omega), fun p h1 h2 => ?_, fun p => ?_⟩
        · exact (covers_cons _ _ _).mpr (.inl ⟨h1, by simp only; omega⟩)
        · have := hbehind p
          simp only [covers_cons]
          by_cases hp : Covers rs p <;> simp only [hp, true_implies, false_implies] at * <;>
            simp <;> omega

theorem insert_run_covers {lo hi f n : Nat} {rs : List (Nat × Nat)} (h : Separated lo hi rs)
    (hlo : lo ≤ f) (hn : 0 < n) (hhi : f + n ≤ hi)
    (hfree : ∀ p, f ≤ p → p < f + n → ¬ Covers rs p) :
    Separated lo hi (insertRun f n rs) ∧
      ∀ p, Covers (insertRun f n rs) p ↔ Covers rs p ∨ (f ≤ p ∧ p < f + n) := by
  induction rs generalizing lo with
  | nil =>
    refine ⟨⟨hlo, hn, hhi, trivial⟩, fun p => ?_⟩
    simp [insertRun]
  | cons r rs ih =>
    obtain ⟨i, k⟩ := r
    obtain ⟨hi1, hk, hi2, hrest⟩ := h
    have hout : f + n ≤ i ∨ i + k ≤ f := by
      by_contra hcon
      have := hfree (max f i) (by omega) (by omega)
      exact this ((covers_cons _ _ _).mpr (.inl (by simp only; omega)))
    have hfree' : ∀ p, f ≤ p → p < f + n → ¬ Covers rs p := fun p h1 h2 hp =>
      hfree p h1 h2 ((covers_cons _ _ _).mpr (.inr hp))
    simp only [insertRun]
    split
    · rename_i hbefore
      obtain ⟨hsep, hcov⟩ := ih hrest (by omega) hfree'
      refine ⟨⟨hi1, hk, hi2, hsep⟩, fun p => ?_⟩
      simp only [covers_cons, hcov]
      tauto
    split
    · -- The run starts where `(i, k)` ends: it is joined to it, and maybe to the next one.
      rename_i _ htouch
      cases rs with
      | nil =>
        refine ⟨⟨hi1, by omega, by omega, trivial⟩, fun p => ?_⟩
        simp only [covers_cons, covers_nil, or_false]
        omega
      | cons s rest =>
        obtain ⟨j, l⟩ := s
        obtain ⟨hj1, hl, hj2, hrest'⟩ := hrest
        have hafter : f + n ≤ j := by
          by_contra hcon
          have := hfree' (max f j) (by omega) (by omega)
          exact this ((covers_cons _ _ _).mpr (.inl (by simp only; omega)))
        dsimp only
        by_cases hjoin : f + n = j
        · rw [if_pos hjoin]
          refine ⟨⟨hi1, by omega, by omega, hrest'.mono (by omega)⟩, fun p => ?_⟩
          simp only [covers_cons]
          by_cases hp : Covers rest p <;> simp only [hp, or_true, or_false, true_or]
          omega
        · rw [if_neg hjoin]
          refine ⟨⟨hi1, by omega, by omega, by omega, hl, hj2, hrest'⟩, fun p => ?_⟩
          simp only [covers_cons]
          by_cases hp : Covers rest p <;> simp only [hp, or_true, or_false, true_or]
          omega
    split
    · rename_i hbehind
      refine ⟨⟨hlo, hn, by omega, by omega, hk, hi2, hrest⟩, fun p => ?_⟩
      simp only [covers_cons]
      tauto
    · refine ⟨⟨hlo, by omega, by omega, hrest.mono (by omega)⟩, fun p => ?_⟩
      simp only [covers_cons]
      by_cases hp : Covers rs p <;> simp only [hp, or_true, or_false, true_or]
      omega

/-- The runs hold as many numbers as they cover. -/
theorem Separated.card_covers {lo hi : Nat} {rs : List (Nat × Nat)} (h : Separated lo hi rs) :
    ((Finset.range hi).filter (Covers rs)).card = total rs := by
  induction rs generalizing lo with
  | nil => simp [total]
  | cons r rs ih =>
    obtain ⟨i, k⟩ := r
    obtain ⟨_, _, hhi, hrest⟩ := h
    have hsplit : (Finset.range hi).filter (Covers ((i, k) :: rs)) =
        Ico i (i + k) ∪ (Finset.range hi).filter (Covers rs) := by
      ext p
      simp only [mem_filter, mem_range, mem_union, mem_Ico, covers_cons]
      constructor
      · tauto
      · rintro (hp | hp)
        · exact ⟨by omega, .inl hp⟩
        · exact ⟨hp.1, .inr hp.2⟩
    have hdisj : Disjoint (Ico i (i + k)) ((Finset.range hi).filter (Covers rs)) := by
      rw [disjoint_left]
      intro p hp hcov
      have := (hrest.covers_bounds (mem_filter.mp hcov).2).1
      rw [mem_Ico] at hp
      omega
    rw [hsplit, card_union_of_disjoint hdisj, ih hrest, Nat.card_Ico]
    simp [total]

end RunList
