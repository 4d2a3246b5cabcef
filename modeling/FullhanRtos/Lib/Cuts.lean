import Mathlib.Data.List.Infix
import Mathlib.Data.List.Flatten
import Mathlib.Tactic.Common

/-!
# Frames in a stream that is read in pieces

A stream of frames is cut into reads. A reader that forgets between reads takes at most one frame
from a read, and only if the read has a mark, which every frame begins with, and an end. `reads_eq`
says that such a reader takes as many frames as there are only if the stream is cut at the frames.
-/

namespace Cuts

open List

variable {α : Type*} {starts : List α → Bool} {ends taken : List α → Bool}
  {frames reads : List (List α)}

def marks (starts : List α → Bool) : List α → Nat
  | [] => 0
  | a :: l => (if starts (a :: l) then 1 else 0) + marks starts l

/-- A mark stays one, whatever is behind it. -/
def Stable (starts : List α → Bool) : Prop :=
  ∀ l m, starts l = true → starts (l ++ m) = true

/-- A frame begins with the only mark in it and is over at its first end. -/
structure FrameOk (starts ends : List α → Bool) (frame : List α) : Prop where
  ne_nil : frame ≠ []
  marks : ∀ rest, marks starts (frame.tail ++ rest) = marks starts rest
  ends : ∀ l, l <+: frame → l ≠ frame → ends l = false

theorem marks_append_le (hstable : Stable starts) (l m : List α) :
    marks starts l + marks starts m ≤ marks starts (l ++ m) := by
  induction l with
  | nil => exact Nat.le_of_eq (Nat.zero_add _)
  | cons a l ih =>
    have hfirst : (if starts (a :: l) then 1 else 0) ≤
        if starts (a :: (l ++ m)) then 1 else 0 := by
      by_cases hmark : starts (a :: l) = true
      · have hwhole : starts (a :: (l ++ m)) = true := hstable (a :: l) m hmark
        rw [if_pos hmark, if_pos hwhole]
      · rw [if_neg hmark]
        exact Nat.zero_le _
    rw [cons_append, marks, marks]
    omega

theorem marks_suffix_le (hstable : Stable starts) (l m : List α) :
    marks starts m ≤ marks starts (l ++ m) :=
  (Nat.le_add_left _ _).trans (marks_append_le hstable l m)

theorem count_taken_le (hstable : Stable starts)
    (hmark : ∀ read, taken read = true → 1 ≤ marks starts read) (reads : List (List α)) :
    reads.countP taken ≤ marks starts reads.flatten := by
  induction reads with
  | nil => exact Nat.le_refl 0
  | cons read reads ih =>
    have hfirst : (if taken read then 1 else 0) ≤ marks starts read := by
      by_cases htaken : taken read = true
      · rw [if_pos htaken]
        exact hmark read htaken
      · rw [if_neg htaken]
        exact Nat.zero_le _
    have hparts := marks_append_le hstable read reads.flatten
    rw [countP_cons, flatten_cons]
    omega

theorem marks_frames_le {frames : List (List α)}
    (hframes : ∀ frame ∈ frames, FrameOk starts ends frame) :
    marks starts frames.flatten ≤ frames.length := by
  induction frames with
  | nil => exact Nat.le_refl 0
  | cons frame frames ih =>
    have hok := hframes frame mem_cons_self
    have hrest := ih fun frame' hmem => hframes frame' (mem_cons_of_mem frame hmem)
    obtain ⟨a, tail, rfl⟩ := exists_cons_of_ne_nil hok.ne_nil
    have htail : marks starts (tail ++ frames.flatten) = marks starts frames.flatten :=
      hok.marks frames.flatten
    have hone : (if starts (a :: (tail ++ frames.flatten)) then 1 else 0) ≤ 1 := by
      split <;> omega
    rw [flatten_cons, cons_append, marks, htail, length_cons]
    omega

theorem marks_inside_le (hstable : Stable starts) {frame : List α} {frames : List (List α)}
    (hframe : FrameOk starts ends frame) (hframes : ∀ frame ∈ frames, FrameOk starts ends frame)
    {l rest : List α} (hl : l ≠ []) (hsplit : l ++ rest = (frame :: frames).flatten) :
    marks starts rest ≤ frames.length := by
  obtain ⟨a, l, rfl⟩ := exists_cons_of_ne_nil hl
  obtain ⟨b, tail, rfl⟩ := exists_cons_of_ne_nil hframe.ne_nil
  have hinside : l ++ rest = tail ++ frames.flatten := (List.cons.inj hsplit).2
  calc marks starts rest ≤ marks starts (l ++ rest) := marks_suffix_le hstable l rest
    _ = marks starts frames.flatten := by
        rw [hinside]
        exact hframe.marks frames.flatten
    _ ≤ frames.length := marks_frames_le hframes

theorem first_read_eq (hstable : Stable starts)
    (htaken : ∀ read, taken read = true → 1 ≤ marks starts read ∧ ends read = true)
    {frame read : List α} (hread : read ≠ []) (hframe : FrameOk starts ends frame)
    (hframes : ∀ frame ∈ frames, FrameOk starts ends frame)
    (hcut : read ++ reads.flatten = frame ++ frames.flatten)
    (hcount : frames.length + 1 ≤ (read :: reads).countP taken) : read = frame := by
  have hmark : ∀ read, taken read = true → 1 ≤ marks starts read := fun read h => (htaken read h).1
  have hrest := count_taken_le hstable hmark reads
  have hfirst : (if taken read then 1 else 0) ≤ 1 := by split <;> omega
  rw [countP_cons] at hcount
  by_contra hne
  rcases append_eq_append_iff.mp hcut with ⟨l, hl, hstream⟩ | ⟨l, hl, hstream⟩
  · -- a part of the frame has no end
    have hinside := marks_inside_le hstable hframe hframes hread hcut
    have hnot : ¬ taken read = true := fun h => by
      have hend := hframe.ends read ⟨l, hl.symm⟩ hne
      exact Bool.false_ne_true (hend.symm.trans (htaken read h).2)
    rw [if_neg hnot] at hcount
    omega
  · -- a read that goes beyond the frame takes the next mark with it
    have hnil : l ≠ [] := by
      rintro rfl
      exact hne (hl.trans (append_nil frame))
    cases frames with
    | nil =>
      exact hnil (append_eq_nil_iff.mp hstream.symm).1
    | cons frame' frames =>
      have hbehind := marks_inside_le hstable (hframes frame' mem_cons_self)
        (fun g hg => hframes g (mem_cons_of_mem _ hg)) hnil hstream.symm
      rw [length_cons] at hcount
      omega

theorem reads_eq (hstable : Stable starts)
    (htaken : ∀ read, taken read = true → 1 ≤ marks starts read ∧ ends read = true)
    (hframes : ∀ frame ∈ frames, FrameOk starts ends frame) (hreads : ∀ read ∈ reads, read ≠ [])
    (hcut : reads.flatten = frames.flatten) (hcount : frames.length ≤ reads.countP taken) :
    reads = frames := by
  induction reads generalizing frames with
  | nil =>
    cases frames with
    | nil => rfl
    | cons frame frames => exact absurd hcount (Nat.not_succ_le_zero _)
  | cons read reads ih =>
    have hread := hreads read mem_cons_self
    cases frames with
    | nil =>
      exact absurd (append_eq_nil_iff.mp hcut).1 hread
    | cons frame frames =>
      have hothers : ∀ frame' ∈ frames, FrameOk starts ends frame' :=
        fun frame' hmem => hframes frame' (mem_cons_of_mem frame hmem)
      obtain rfl := first_read_eq hstable htaken hread (hframes frame mem_cons_self)
        hothers hcut hcount
      have hfirst : (if taken read then 1 else 0) ≤ 1 := by split <;> omega
      rw [countP_cons, length_cons] at hcount
      rw [ih hothers (fun read' hmem => hreads read' (mem_cons_of_mem _ hmem))
        (append_cancel_left hcut) (by omega)]

end Cuts
