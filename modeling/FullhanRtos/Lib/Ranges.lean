import Mathlib.Algebra.GroupWithZero.Nat
import Mathlib.Data.List.Basic
import Mathlib.Tactic.Common

/-!
# Ranges in a ring

Ranges of a buffer that do not overlap. `Ascending` is a list of ranges that lie one behind the
other between two bounds, and `Circular` a list that runs up to the end of the buffer once and goes
on from its start. `circular_append_behind`, `circular_append_start` and `circular_append_wrapped`
are the places where a range may be added behind the last one. `Joined` ranges have no gaps, so
that together they are one range.
-/

namespace Ranges

open List

/-- The positions from `start` on. -/
structure Span where
  start : Nat
  size : Nat
  deriving DecidableEq

def Span.stop (r : Span) : Nat := r.start + r.size

def Apart (r r' : Span) : Prop := r.stop ≤ r'.start ∨ r'.stop ≤ r.start

instance (r r' : Span) : Decidable (Apart r r') := inferInstanceAs (Decidable (_ ∨ _))

theorem Apart.symm {r r' : Span} (h : Apart r r') : Apart r' r := Or.symm h

/-- One behind the other, between two bounds. -/
def Ascending (lo hi : Nat) : List Span → Prop
  | [] => lo ≤ hi
  | r :: rs => lo ≤ r.start ∧ Ascending r.stop hi rs

variable {lo hi lo' hi' size : Nat} {r r' head last : Span} {rs rs' : List Span}

theorem start_le_stop (r : Span) : r.start ≤ r.stop := Nat.le_add_right r.start r.size

@[simp] theorem ascending_cons :
    Ascending lo hi (r :: rs) ↔ lo ≤ r.start ∧ Ascending r.stop hi rs := Iff.rfl

theorem Ascending.le (h : Ascending lo hi rs) : lo ≤ hi := by
  induction rs generalizing lo with
  | nil => exact h
  | cons r rs ih => exact Nat.le_trans h.1 (Nat.le_trans (start_le_stop r) (ih h.2))

theorem Ascending.lower (h : Ascending lo hi rs) (hlo : lo' ≤ lo) : Ascending lo' hi rs := by
  cases rs with
  | nil => exact Nat.le_trans hlo h
  | cons r rs => exact ⟨Nat.le_trans hlo h.1, h.2⟩

theorem ascending_append :
    Ascending lo hi (rs ++ rs') ↔ ∃ mid, Ascending lo mid rs ∧ Ascending mid hi rs' := by
  induction rs generalizing lo with
  | nil =>
    constructor
    · intro h
      exact ⟨lo, Nat.le_refl lo, h⟩
    · rintro ⟨mid, hmid, h⟩
      exact h.lower hmid
  | cons r rs ih =>
    simp only [cons_append, ascending_cons, ih]
    constructor
    · rintro ⟨hlo, mid, hrs, hrs'⟩
      exact ⟨mid, ⟨hlo, hrs⟩, hrs'⟩
    · rintro ⟨mid, ⟨hlo, hrs⟩, hrs'⟩
      exact ⟨hlo, mid, hrs, hrs'⟩

section

variable (h : Ascending lo hi rs)

include h

theorem Ascending.raise (hhi : hi ≤ hi') : Ascending lo hi' rs := by
  have hnil : Ascending lo hi' (rs ++ []) := ascending_append.mpr ⟨hi, h, hhi⟩
  rwa [append_nil] at hnil

theorem Ascending.sublist (hsub : rs'.Sublist rs) : Ascending lo hi rs' := by
  induction hsub generalizing lo with
  | slnil => exact h
  | cons r _ ih => exact ih (h.2.lower (Nat.le_trans h.1 (start_le_stop r)))
  | cons_cons r _ ih => exact ⟨h.1, ih h.2⟩

theorem Ascending.bounds (hr : r ∈ rs) : lo ≤ r.start ∧ r.stop ≤ hi := by
  have hone : Ascending lo hi [r] := h.sublist (singleton_sublist.mpr hr)
  exact hone

theorem Ascending.pairwise : rs.Pairwise Apart := by
  induction rs generalizing lo with
  | nil => exact List.Pairwise.nil
  | cons r rs ih =>
    refine List.Pairwise.cons (fun r' hr' => ?_) (ih h.2)
    exact Or.inl (h.2.bounds hr').1

/-- The bounds may be the ends of the list. -/
theorem Ascending.of_head (hhead : rs.head? = some head) : Ascending head.start hi rs := by
  cases rs with
  | nil => cases hhead
  | cons r rs =>
    obtain rfl := Option.some.inj hhead
    exact ⟨Nat.le_refl _, h.2⟩

theorem Ascending.to_last (hlast : rs.getLast? = some last) : Ascending lo last.stop rs := by
  obtain ⟨ys, rfl⟩ := getLast?_eq_some_iff.mp hlast
  obtain ⟨mid, hys, hmid, -⟩ := ascending_append.mp h
  exact ascending_append.mpr ⟨mid, hys, hmid, Nat.le_refl _⟩

theorem Ascending.head_le_last (hhead : rs.head? = some head) (hlast : rs.getLast? = some last) :
    head.start ≤ last.start := by
  have hmem : last ∈ rs := mem_of_getLast? hlast
  exact ((h.of_head hhead).bounds hmem).1

end

/-! ## Round the buffer -/

/-- The list runs up to the end of the buffer and goes on from its start up to where it began. -/
def Circular (size : Nat) (rs : List Span) : Prop :=
  ∃ upper lower mid, rs = upper ++ lower ∧ Ascending mid size upper ∧ Ascending 0 mid lower

theorem Ascending.circular (h : Ascending 0 size rs) : Circular size rs :=
  ⟨rs, [], 0, (append_nil rs).symm, h, Nat.le_refl 0⟩

theorem circular_nil (size : Nat) : Circular size [] := Ascending.circular (Nat.zero_le size)

section

variable (h : Circular size rs)

include h

theorem Circular.sublist (hsub : rs'.Sublist rs) : Circular size rs' := by
  obtain ⟨upper, lower, mid, rfl, hupper, hlower⟩ := h
  obtain ⟨upper', lower', rfl, hupper', hlower'⟩ := sublist_append_iff.mp hsub
  exact ⟨upper', lower', mid, rfl, hupper.sublist hupper', hlower.sublist hlower'⟩

theorem Circular.inside (hr : r ∈ rs) : r.stop ≤ size := by
  obtain ⟨upper, lower, mid, rfl, hupper, hlower⟩ := h
  rcases mem_append.mp hr with hr | hr
  · exact (hupper.bounds hr).2
  · exact Nat.le_trans (hlower.bounds hr).2 hupper.le

theorem Circular.pairwise : rs.Pairwise Apart := by
  obtain ⟨upper, lower, mid, rfl, hupper, hlower⟩ := h
  refine pairwise_append.mpr ⟨hupper.pairwise, hlower.pairwise, fun r hr r' hr' => ?_⟩
  exact Or.inr (Nat.le_trans (hlower.bounds hr').2 (hupper.bounds hr).1)

section

variable (hhead : rs.head? = some head)

include hhead

/-- Where the list has run over the end, its first part is not empty and lies behind its last. -/
theorem Circular.split (hlast : rs.getLast? = some last) :
    Ascending 0 size rs ∨ ∃ upper lower, rs = upper ++ lower ∧ Ascending head.start size upper ∧
      Ascending 0 last.stop lower ∧ last.stop ≤ head.start := by
  obtain ⟨upper, lower, mid, rfl, hupper, hlower⟩ := h
  cases upper with
  | nil => exact Or.inl (hlower.raise hupper)
  | cons r upper =>
    cases lower with
    | nil =>
      rw [append_nil]
      exact Or.inl (hupper.lower (Nat.zero_le mid))
    | cons r' lower =>
      obtain rfl := Option.some.inj hhead
      have hlast' : (r' :: lower).getLast? = some last := by
        rwa [getLast?_append_of_ne_nil _ (cons_ne_nil r' lower)] at hlast
      have hmem := mem_of_getLast? hlast'
      refine Or.inr ⟨r :: upper, r' :: lower, rfl, ⟨Nat.le_refl _, hupper.2⟩,
        hlower.to_last hlast', ?_⟩
      exact Nat.le_trans (hlower.bounds hmem).2 hupper.1

/-- A list whose ends are in order has not run over the end. -/
theorem Circular.ascending (hlast : rs.getLast? = some last) (hpos : 0 < last.size)
    (hle : head.start ≤ last.start) : Ascending 0 size rs := by
  rcases h.split hhead hlast with hasc | ⟨upper, lower, -, -, -, hover⟩
  · exact hasc
  · unfold Span.stop at hover
    omega

theorem circular_append_behind (hlast : rs.getLast? = some last) (hpos : 0 < last.size)
    (hle : head.start ≤ last.start) (hbehind : last.stop ≤ r.start) (hend : r.stop ≤ size) :
    Circular size (rs ++ [r]) := by
  have hasc := (h.ascending hhead hlast hpos hle).to_last hlast
  exact Ascending.circular (ascending_append.mpr ⟨last.stop, hasc, hbehind, hend⟩)

theorem circular_append_start (hlast : rs.getLast? = some last) (hpos : 0 < last.size)
    (hle : head.start ≤ last.start) (hend : r.stop ≤ head.start) :
    Circular size (rs ++ [r]) :=
  ⟨rs, [r], head.start, rfl, (h.ascending hhead hlast hpos hle).of_head hhead, Nat.zero_le _, hend⟩

/-- A range between the last one and the first, where the list has run over the end. -/
theorem circular_append_wrapped (hlast : rs.getLast? = some last) (hlt : last.start < head.start)
    (hbehind : last.stop ≤ r.start) (hend : r.stop ≤ head.start) : Circular size (rs ++ [r]) := by
  rcases h.split hhead hlast with hasc | ⟨upper, lower, rfl, hupper, hlower, -⟩
  · have hle := hasc.head_le_last hhead hlast
    omega
  · refine ⟨upper, lower ++ [r], head.start, append_assoc _ _ _, hupper, ?_⟩
    exact ascending_append.mpr ⟨last.stop, hlower, hbehind, hend⟩

end

end

/-! ## Ranges without gaps -/

/-- Each range begins where the one before ends. -/
def Joined (start : Nat) : List Span → Prop
  | [] => True
  | r :: rs => r.start = start ∧ Joined r.stop rs

instance decidableJoined : ∀ (start : Nat) (rs : List Span), Decidable (Joined start rs)
  | _, [] => .isTrue trivial
  | start, r :: rs =>
    have := decidableJoined r.stop rs
    inferInstanceAs (Decidable (r.start = start ∧ Joined r.stop rs))

/-- The range that they make up. -/
def whole (start : Nat) (rs : List Span) : Span := ⟨start, (rs.map Span.size).sum⟩

theorem whole_cons (hstart : r.start = lo) :
    (whole lo (r :: rs)).stop = (whole r.stop rs).stop := by
  simp only [whole, Span.stop, map_cons, sum_cons]
  omega

theorem whole_inside (h : Joined lo rs) (hne : rs ≠ []) (hinside : ∀ r ∈ rs, r.stop ≤ hi) :
    (whole lo rs).stop ≤ hi := by
  induction rs generalizing lo with
  | nil => exact absurd rfl hne
  | cons r rs ih =>
    rw [whole_cons h.1]
    cases rs with
    | nil => exact hinside r mem_cons_self
    | cons r' rs =>
      exact ih h.2 (cons_ne_nil r' rs) fun r hr => hinside r (mem_cons_of_mem _ hr)

theorem whole_apart (h : Joined lo rs) (hne : rs ≠ []) (hpos : 0 < r'.size)
    (hapart : ∀ r ∈ rs, Apart r r') : Apart (whole lo rs) r' := by
  induction rs generalizing lo with
  | nil => exact absurd rfl hne
  | cons r rs ih =>
    have hfirst := hapart r mem_cons_self
    unfold Apart
    rw [whole_cons h.1]
    cases rs with
    | nil =>
      have hstart : r.start = lo := h.1
      show r.stop ≤ r'.start ∨ r'.stop ≤ lo
      rwa [← hstart]
    | cons r2 rs =>
      have hrest := ih h.2 (cons_ne_nil r2 rs) fun r hr =>
        hapart r (mem_cons_of_mem _ hr)
      have hstart : r.start = lo := h.1
      have hstart' : (whole r.stop (r2 :: rs)).start = r.stop := rfl
      have hstop' : r'.stop = r'.start + r'.size := rfl
      show _ ∨ r'.stop ≤ lo
      rcases hfirst with hbefore | hbehind
      · rcases hrest with hbefore' | hbehind'
        · exact Or.inl hbefore'
        · omega
      · exact Or.inr (hstart ▸ hbehind)

end Ranges
