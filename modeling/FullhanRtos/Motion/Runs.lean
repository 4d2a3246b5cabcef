import FullhanRtos.Motion.Labelling

/-!
# The runs of a row

`scan_row_ok`: the runs that a row is cut into cover exactly its foreground, have gaps between them,
and there is one for each pixel that a run starts at. The proof follows the scan pixel by pixel;
`Crosses` says that a run is open at a pixel.
-/

namespace FullhanRtos.Motion

open List Nat

variable {above : Nat → Bool} {W posLine n j : Nat} {s : Scan} {runs : List Run}

/-- A pixel of the foreground with none before it in its row. -/
def isStart (above : Nat → Bool) (posLine j : Nat) : Bool :=
  above (posLine + j) && (j == 0 || !above (posLine + j - 1))

def runStarts (above : Nat → Bool) (posLine n : Nat) : Nat :=
  (List.range n).countP (isStart above posLine)

def runCount (above : Nat → Bool) (W H : Nat) : Nat :=
  ((List.range H).map fun i => runStarts above (i * W) W).sum

/-- The runs of a row whose first pixel is at `posLine`. -/
structure RowRuns (above : Nat → Bool) (W posLine : Nat) (runs : List Run) : Prop where
  covers : ∀ c, (∃ r ∈ runs, r.head ≤ c ∧ c ≤ r.tail) ↔ c < W ∧ above (posLine + c)
  head_le : ∀ r ∈ runs, r.head ≤ r.tail
  tail_lt : ∀ r ∈ runs, r.tail < W
  apart : runs.Pairwise fun r r' => r.tail + 1 < r'.head
  length : runs.length = runStarts above posLine W

/-- A run goes on from the pixel before `n` to `n`. -/
def Crosses (above : Nat → Bool) (W posLine n : Nat) : Prop :=
  0 < n ∧ n < W ∧ above (posLine + n - 1) ∧ above (posLine + n)

structure Scanned (above : Nat → Bool) (W posLine n : Nat) (s : Scan) : Prop where
  covers : ∀ c, c < n ∧ above (posLine + c) ↔ (∃ r ∈ s.runs, r.head ≤ c ∧ c ≤ r.tail) ∨
    (Crosses above W posLine n ∧ s.head ≤ c ∧ c < n)
  head_le : ∀ r ∈ s.runs, r.head ≤ r.tail ∧ r.tail < n
  ends : ∀ r ∈ s.runs, r.tail + 1 = n → n < W → ¬ above (posLine + n)
  open_apart : Crosses above W posLine n → s.head < n ∧ ∀ r ∈ s.runs, r.tail + 1 < s.head
  apart : s.runs.Pairwise fun r r' => r.tail + 1 < r'.head
  length : (Crosses above W posLine n → s.runs.length + 1 = runStarts above posLine n) ∧
    (¬ Crosses above W posLine n → s.runs.length = runStarts above posLine n)

theorem run_starts_succ (above : Nat → Bool) (posLine n : Nat) :
    runStarts above posLine (n + 1) =
      runStarts above posLine n + if isStart above posLine n then 1 else 0 := by
  rw [runStarts, runStarts, range_succ, countP_append, countP_singleton]

theorem scanned_zero (above : Nat → Bool) (W posLine : Nat) :
    Scanned above W posLine 0 ⟨0, []⟩ where
  covers c := by simp
  head_le := by simp
  ends := by simp
  open_apart h := absurd h.1 (lt_irrefl 0)
  apart := List.Pairwise.nil
  length := ⟨fun h => absurd h.1 (lt_irrefl 0), fun _ => rfl⟩

/-- The first pixel of the run that a foreground pixel is in: the open run's, or the pixel. -/
def runHead (above : Nat → Bool) (posLine n head : Nat) : Nat :=
  if n = 0 then n else if above (posLine + n - 1) then head else n

theorem Scanned.run_head (h : Scanned above W posLine n s) (hn : n < W)
    (ha : above (posLine + n)) :
    runHead above posLine n s.head ≤ n ∧
      (∀ r ∈ s.runs, r.tail + 1 < runHead above posLine n s.head) ∧
      (∀ c, c < n + 1 ∧ above (posLine + c) ↔ (∃ r ∈ s.runs, r.head ≤ c ∧ c ≤ r.tail) ∨
        runHead above posLine n s.head ≤ c ∧ c ≤ n) ∧
      s.runs.length + 1 = runStarts above posLine (n + 1) := by
  have hcells : ∀ c, c < n + 1 ∧ above (posLine + c) ↔ (c < n ∧ above (posLine + c)) ∨ c = n := by
    intro c
    constructor
    · intro ⟨hc, hac⟩
      exact (Nat.lt_succ_iff_lt_or_eq.mp hc).imp (fun hlt => ⟨hlt, hac⟩) id
    · intro hor
      rcases hor with ⟨hlt, hac⟩ | rfl
      · exact ⟨lt_succ_of_lt hlt, hac⟩
      · exact ⟨lt_succ_self c, ha⟩
  by_cases hopen : Crosses above W posLine n
  · have hhead : runHead above posLine n s.head = s.head := by
      rw [runHead, if_neg hopen.1.ne', if_pos hopen.2.2.1]
    have hstart : isStart above posLine n = false := by
      simp [isStart, hopen.1.ne', hopen.2.2.1]
    obtain ⟨hlt, hapart⟩ := h.open_apart hopen
    rw [hhead, run_starts_succ, hstart, if_neg Bool.false_ne_true]
    refine ⟨hlt.le, hapart, fun c => ?_, h.length.1 hopen⟩
    rw [hcells, h.covers, or_assoc]
    refine or_congr_right ⟨fun hor => ?_, fun hc => ?_⟩
    · rcases hor with ⟨-, hle, hlt'⟩ | rfl
      · exact ⟨hle, hlt'.le⟩
      · exact ⟨hlt.le, le_rfl⟩
    · exact hc.2.lt_or_eq.imp (fun hlt' => ⟨hopen, hc.1, hlt'⟩) id
  · have hnew : n = 0 ∨ above (posLine + n - 1) = false := by
      by_cases hn0 : n = 0
      · exact .inl hn0
      · refine .inr (Bool.eq_false_iff.mpr fun hb => hopen ?_)
        exact ⟨Nat.pos_of_ne_zero hn0, hn, hb, ha⟩
    have hhead : runHead above posLine n s.head = n := by
      rcases hnew with rfl | hb
      · rfl
      · rw [runHead, if_neg (Bool.eq_false_iff.mp hb), ite_self]
    have hstart : isStart above posLine n = true := by
      rcases hnew with rfl | hb
      · simpa [isStart] using ha
      · simp [isStart, ha, hb]
    rw [hhead, run_starts_succ, hstart, if_pos rfl]
    refine ⟨le_rfl, fun r hr => ?_, fun c => ?_, by rw [h.length.2 hopen]⟩
    · have hlt := (h.head_le r hr).2
      have hne : r.tail + 1 ≠ n := fun heq => h.ends r hr heq hn ha
      omega
    · rw [hcells, h.covers]
      refine or_congr ?_ (by omega)
      exact or_iff_left fun hc => hopen hc.1

/-- One pixel, where columns fit the arrays of the row. -/
theorem Scanned.succ (h : Scanned above W posLine n s) (hn : n < W) (hW : W ≤ 65536) :
    Scanned above W posLine (n + 1) (scanPixel above W posLine s n) := by
  have hn16 : u16 n = n := mod_eq_of_lt (hn.trans_le hW)
  have hback : posLine + (n + 1) - 1 = posLine + n := by omega
  by_cases ha : above (posLine + n) = true
  · obtain ⟨hle, hapart, hcovers, hlen⟩ := h.run_head hn ha
    have hpixel : scanPixel above W posLine s n =
        if n + 1 = W ∨ ¬ above (posLine + n + 1) then
          ⟨runHead above posLine n s.head, s.runs ++ [⟨runHead above posLine n s.head, n⟩]⟩
        else ⟨runHead above posLine n s.head, s.runs⟩ := by
      rw [scanPixel, if_pos ha, hn16]
      rfl
    rw [hpixel]
    by_cases hend : n + 1 = W ∨ ¬ above (posLine + n + 1)
    · have hclosed : ¬ Crosses above W posLine (n + 1) := by
        intro hopen
        rcases hend with hend | hend
        · exact hopen.2.1.ne hend
        · exact hend hopen.2.2.2
      rw [if_pos hend]
      refine ⟨fun c => ?_, fun r hr => ?_, fun r hr heq hlt => ?_,
        fun hopen => absurd hopen hclosed, ?_, fun hopen => absurd hopen hclosed, fun _ => ?_⟩
      · simp only [hcovers, hclosed, false_and, or_false, mem_append, mem_singleton,
          or_and_right, exists_or, exists_eq_left]
      · rcases mem_append.mp hr with hr | hr
        · exact ⟨(h.head_le r hr).1, (h.head_le r hr).2.trans (lt_succ_self n)⟩
        · obtain rfl := mem_singleton.mp hr
          exact ⟨hle, lt_succ_self n⟩
      · exact hend.resolve_left hlt.ne
      · refine pairwise_append.mpr
          ⟨h.apart, pairwise_singleton _ _, fun r hr r' hr' => ?_⟩
        obtain rfl := mem_singleton.mp hr'
        exact hapart r hr
      · rw [length_append]
        exact hlen
    · obtain ⟨hne, ha'⟩ := not_or.mp hend
      have hopen : Crosses above W posLine (n + 1) :=
        ⟨succ_pos n, lt_of_le_of_ne hn hne, hback ▸ ha, not_not.mp ha'⟩
      rw [if_neg hend]
      refine ⟨fun c => ?_, fun r hr => ?_, fun r hr heq hlt => ?_, fun _ => ⟨lt_succ_of_le hle,
        hapart⟩, h.apart, fun _ => hlen, fun hno => absurd hopen hno⟩
      · rw [hcovers, and_iff_right hopen, Nat.lt_succ_iff]
      · exact ⟨(h.head_le r hr).1, (h.head_le r hr).2.trans (lt_succ_self n)⟩
      · have := (h.head_le r hr).2
        omega
  · have hclosed : ¬ Crosses above W posLine n := fun hopen => ha hopen.2.2.2
    have hclosed' : ¬ Crosses above W posLine (n + 1) := fun hopen => ha (hback ▸ hopen.2.2.1)
    have hstart : isStart above posLine n = false := by simp [isStart, ha]
    rw [scanPixel, if_neg ha]
    refine ⟨fun c => ?_, fun r hr => ?_, fun r hr heq hlt => ?_, fun hopen => absurd hopen hclosed',
      h.apart, fun hopen => absurd hopen hclosed', fun _ => ?_⟩
    · have hcover := h.covers c
      simp only [hclosed, hclosed', false_and, or_false] at hcover ⊢
      rw [← hcover]
      refine and_congr_left fun hac => ⟨fun hc => ?_, fun hc => lt_succ_of_lt hc⟩
      exact (Nat.lt_succ_iff_lt_or_eq.mp hc).resolve_right fun heq => ha (heq ▸ hac)
    · exact ⟨(h.head_le r hr).1, (h.head_le r hr).2.trans (lt_succ_self n)⟩
    · have := (h.head_le r hr).2
      omega
    · rw [run_starts_succ, hstart, if_neg Bool.false_ne_true]
      exact h.length.2 hclosed

theorem scanned (above : Nat → Bool) (posLine : Nat) (hW : W ≤ 65536) (hn : n ≤ W) :
    Scanned above W posLine n ((List.range n).foldl (scanPixel above W posLine) ⟨0, []⟩) := by
  induction n with
  | zero => exact scanned_zero above W posLine
  | succ n ih =>
    rw [range_succ, foldl_append]
    exact (ih (le_of_lt hn)).succ hn hW

theorem scan_row_ok (above : Nat → Bool) (posLine : Nat) (hW : W ≤ 65536) :
    RowRuns above W posLine (scanRow above W posLine) := by
  have h := scanned above posLine hW le_rfl
  have hclosed : ¬ Crosses above W posLine W := fun hopen => lt_irrefl W hopen.2.1
  refine ⟨fun c => ?_, fun r hr => (h.head_le r hr).1, fun r hr => (h.head_le r hr).2, h.apart,
    h.length.2 hclosed⟩
  rw [h.covers c]
  exact (or_iff_left fun hopen => hclosed hopen.1).symm

theorem two_mul_length_le (hle : ∀ r ∈ runs, r.head ≤ r.tail) (hlt : ∀ r ∈ runs, r.tail < W)
    (hapart : runs.Pairwise fun r r' => r.tail + 1 < r'.head) (hfirst : ∀ r ∈ runs, j ≤ r.head)
    (hj : j ≤ W + 1) : j + 2 * runs.length ≤ W + 1 := by
  induction runs generalizing j with
  | nil => exact hj
  | cons r runs ih =>
    obtain ⟨hr, hruns⟩ := pairwise_cons.mp hapart
    have hhead := hfirst r mem_cons_self
    have hle' := hle r mem_cons_self
    have hlt' := hlt r mem_cons_self
    have hrest := ih (fun r' hr' => hle r' (mem_cons_of_mem r hr'))
      (fun r' hr' => hlt r' (mem_cons_of_mem r hr')) hruns
      (fun r' hr' => succ_le_of_lt (hr r' hr')) (by omega)
    rw [length_cons]
    omega

/-- The runs of a row fit the arrays of a row, where the width is even. -/
theorem RowRuns.length_le (h : RowRuns above W posLine runs) (heven : W % 2 = 0) :
    runs.length ≤ W / 2 := by
  have hle := two_mul_length_le h.head_le h.tail_lt h.apart (fun r _ => Nat.zero_le r.head)
    (Nat.zero_le _)
  omega

end FullhanRtos.Motion
