import FullhanRtos.Motion.Connections
import FullhanRtos.Motion.Runs
import Mathlib.Data.Set.Function
import Mathlib.Tactic.Ring

/-!
# Root labels are components

The labelling phase of `getOrdFromGau` against the 8-connected components of the foreground:
`labels_components` for every map whose columns and rows fit the `FH_UINT16` of an entry and whose
tables fit a `malloc`, and `big_maps_fail` for three maps that do not.
-/

namespace FullhanRtos.Motion

open Bytes Classes Segments List Option Nat Nat

variable {above : Nat → Bool} {W H i : Nat} {t : Labels} {last : List (Run × Nat)}
  {V : List Placed} {edges : List (Placed × Placed)}

def foregroundCell (above : Nat → Bool) (W i : Nat) (p : Cell) : Prop :=
  p.1 < i ∧ p.2 < W ∧ above (p.1 * W + p.2)

/-- Root labels correspond to components, and their rectangles are the bounding boxes. -/
def LabelsComponents (fg : Cell → Prop) (t : Labels) : Prop :=
  ∃ component : Nat → Set Cell, Set.BijOn component {r | t.IsRoot r} (components fg) ∧
    ∀ r, t.IsRoot r → IsBoundingBox (component r) (t.rtable r).x1 (t.rtable r).x2 (t.rtable r).y1
      (t.rtable r).y2

/-- The labelling returns, and it returns the components. -/
def Segmented (foreground : Nat → Byte) (thresh : BitVec 32) (W H : Nat) (tables : Labels) : Prop :=
  ∃ t, getOrdFromGau foreground thresh W H tables = some t ∧
    LabelsComponents (foregroundCell (isForeground foreground thresh) W H) t

structure RowsDone (above : Nat → Bool) (W i : Nat) (t : Labels) (last : List (Run × Nat))
    (V : List Placed) (edges : List (Placed × Placed)) : Prop where
  placing : Placing t V edges
  exact : Exact V edges
  decomposes : Decomposes (foregroundCell above W i) {a | a ∈ V} Prod.fst
  last_mem : ∀ x ∈ last, i - 1 + 1 = i ∧ place (i - 1) x ∈ V
  last_all : ∀ a ∈ V, a.1.row + 1 = i → ∃ x ∈ last, a = place (i - 1) x
  last_apart : last.Pairwise fun x y => x.1.tail + 1 < y.1.head
  length : V.length = runCount above W i

theorem run_count_succ (above : Nat → Bool) (W i : Nat) :
    runCount above W (i + 1) = runCount above W i + runStarts above (i * W) W := by
  rw [runCount, runCount, range_succ, map_append, List.sum_append, map_singleton, sum_singleton]

theorem run_count_mono (above : Nat → Bool) (W : Nat) (h : i ≤ H) :
    runCount above W i ≤ runCount above W H := by
  induction H, h using le_induction with
  | base => exact le_rfl
  | succ n _ ih =>
    rw [run_count_succ]
    exact ih.trans (le_add_right _ _)

/-- A row of even width has at most one run for two columns. -/
theorem run_count_le (above : Nat → Bool) (heven : W % 2 = 0) (hW : W ≤ 65536) (i : Nat) :
    runCount above W i ≤ i * (W / 2) := by
  induction i with
  | zero => exact zero_le _
  | succ i ih =>
    have hrow := scan_row_ok above (i * W) hW
    have hle := hrow.length_le heven
    rw [hrow.length] at hle
    rw [run_count_succ, succ_mul]
    exact Nat.add_le_add ih hle

/-- Nothing is labelled before the first row. -/
theorem rows_done_zero (above : Nat → Bool) (W : Nat) (tables : Labels) :
    RowsDone above W 0 { tables with label := 0 } [] [] [] where
  placing := by
    refine ⟨⟨zero_le _, ?_, ?_, ?_⟩, le_rfl, ?_, ?_, ?_, ?_, ?_⟩
    · exact fun l hl => absurd hl (not_lt_zero l)
    · exact fun l hl => absurd hl (not_lt_zero l)
    · exact fun r hr => absurd hr.1 (not_lt_zero r)
    · exact fun l hl => absurd hl (not_lt_zero l)
    · exact fun a ha => absurd ha not_mem_nil
    · exact fun e he => absurd he not_mem_nil
    · exact fun a ha => absurd ha not_mem_nil
    · exact fun r hr => absurd hr.1 (not_lt_zero r)
  exact := fun a b => iff_of_false not_mem_nil fun h => not_mem_nil h.1
  decomposes := by
    refine ⟨fun p hp => absurd hp.1 (not_lt_zero _), ?_, ?_, ?_⟩
    · exact fun a ha => absurd ha not_mem_nil
    · exact fun a ha => absurd ha not_mem_nil
    · exact fun a ha => absurd ha not_mem_nil
  last_mem := fun x hx => absurd hx not_mem_nil
  last_all := fun a ha => absurd ha not_mem_nil
  last_apart := List.Pairwise.nil
  length := rfl

theorem RowsDone.row_lt (h : RowsDone above W i t last V edges) :
    ∀ a ∈ V, a.1.row < i := fun a ha =>
  (h.decomposes.foreground a ha _ (h.decomposes.covers_head ha)).1

theorem decomposes_row {labelled : List (Run × Nat)} {runs : List Run}
    (h : Decomposes (foregroundCell above W i) {a | a ∈ V} Prod.fst)
    (hrows : ∀ a ∈ V, a.1.row < i) (hrow : RowRuns above W (i * W) runs)
    (hmap : labelled.map Prod.fst = runs) :
    Decomposes (foregroundCell above W (i + 1))
      {a | a ∈ (labelled.map (place i)).reverse ++ V} Prod.fst := by
  have hcases : ∀ a ∈ (labelled.map (place i)).reverse ++ V,
      (∃ x ∈ labelled, a = place i x) ∨ a ∈ V := by
    intro a ha
    rcases mem_append.mp ha with ha | ha
    · obtain ⟨x, hx, rfl⟩ := List.mem_map.mp (mem_reverse.mp ha)
      exact .inl ⟨x, hx, rfl⟩
    · exact .inr ha
  have hplaced : ∀ x ∈ labelled, place i x ∈ (labelled.map (place i)).reverse ++ V := fun x hx =>
    mem_append_left _ (mem_reverse.mpr (List.mem_map_of_mem hx))
  have hrun : ∀ x ∈ labelled, x.1 ∈ runs := fun x hx => hmap ▸ List.mem_map_of_mem hx
  refine ⟨fun p hp => ?_, fun a ha p hp => ?_, fun a ha => ?_, fun a ha b hb hab => ?_⟩
  · obtain ⟨hpi, hpW, hpa⟩ := hp
    rcases Nat.lt_succ_iff_lt_or_eq.mp hpi with hlt | heq
    · obtain ⟨a, ha, hcover⟩ := h.covered p ⟨hlt, hpW, hpa⟩
      exact ⟨a, mem_append_right _ ha, hcover⟩
    · rw [heq] at hpa
      obtain ⟨r, hr, hcover⟩ := (hrow.covers p.2).mpr ⟨hpW, hpa⟩
      obtain ⟨x, hx, rfl⟩ := List.mem_map.mp (hmap.symm ▸ hr)
      exact ⟨place i x, hplaced x hx, heq, hcover⟩
  · rcases hcases a ha with ⟨x, hx, rfl⟩ | ha
    · obtain ⟨hpi, hcover⟩ := hp
      obtain ⟨hpW, hpa⟩ := (hrow.covers p.2).mp ⟨x.1, hrun x hx, hcover⟩
      have hpi' : p.1 = i := hpi
      exact ⟨hpi' ▸ lt_succ_self _, hpW, hpi' ▸ hpa⟩
    · obtain ⟨hpi, hfg⟩ := h.foreground a ha p hp
      exact ⟨hpi.trans (lt_succ_self i), hfg⟩
  · rcases hcases a ha with ⟨x, hx, rfl⟩ | ha
    · exact hrow.head_le x.1 (hrun x hx)
    · exact h.head_le a ha
  · rcases hcases a ha with ⟨x, hx, rfl⟩ | ha <;> rcases hcases b hb with ⟨y, hy, rfl⟩ | hb
    · have hpair : labelled.Pairwise fun x y => x.1.tail + 1 < y.1.head :=
        pairwise_map.mp (hmap.symm ▸ hrow.apart)
      have hapart : labelled.Pairwise fun x y =>
          x.1.tail + 1 < y.1.head ∨ y.1.tail + 1 < x.1.head := hpair.imp Or.inl
      have hsymm : Std.Symm fun x y : Run × Nat =>
          x.1.tail + 1 < y.1.head ∨ y.1.tail + 1 < x.1.head := ⟨fun _ _ => Or.symm⟩
      by_cases hxy : x = y
      · exact .inl (congrArg (place i) hxy)
      · exact .inr (hapart.forall hx hy hxy)
    · exact absurd hab (hrows b hb).ne'
    · exact absurd hab (hrows a ha).ne
    · exact h.apart a ha b hb hab

theorem RowsDone.succ (h : RowsDone above W i t last V edges) (heven : W % 2 = 0)
    (hW : W ≤ 65536) (hi : i < 65536)
    (hroom : ∀ l < runCount above W (i + 1), hasRoom W H l = true)
    (hcount : runCount above W (i + 1) ≤ 65535) :
    ∃ t' last' V' edges', labelRow above W H i t last = some (t', last') ∧
      RowsDone above W (i + 1) t' last' V' edges' := by
  have hrow := scan_row_ok above (i * W) hW
  have hlen := hrow.length
  have hlt := h.row_lt
  rw [run_count_succ, ← h.length, ← hlen] at hroom hcount
  have hstart : Between i (i - 1) last last (scanRow above W (i * W)) t V edges := by
    refine ⟨h.placing, h.exact, fun a ha => (hlt a ha).le, fun x hx => (h.last_mem x hx).1,
      fun x hx => (h.last_mem x hx).2, h.last_all, h.last_apart, ⟨[], rfl, ?_⟩, ?_, hrow.head_le,
      hrow.apart⟩
    · exact fun x hx => absurd hx not_mem_nil
    · exact fun a ha hai => absurd hai (hlt a ha).ne
  obtain ⟨t', labelled, edges', hruns, hmap, hplacing, hexact⟩ :=
    label_runs_ok hstart hroom hcount hi
  refine ⟨t', labelled, _, edges', (if_pos (hrow.length_le heven)).trans hruns, hplacing, hexact,
    decomposes_row h.decomposes hlt hrow hmap, fun x hx => ⟨rfl, ?_⟩, fun a ha hai => ?_, ?_, ?_⟩
  · exact mem_append_left _ (mem_reverse.mpr (List.mem_map_of_mem hx))
  · rcases mem_append.mp ha with ha | ha
    · obtain ⟨x, hx, rfl⟩ := List.mem_map.mp (mem_reverse.mp ha)
      exact ⟨x, hx, rfl⟩
    · exact absurd (succ.inj hai) (hlt a ha).ne
  · exact pairwise_map.mp (hmap.symm ▸ hrow.apart)
  · rw [length_append, length_reverse, length_map, run_count_succ, ← h.length,
      ← hlen, ← hmap, length_map, add_comm]

theorem label_rows_ok (tables : Labels) (heven : W % 2 = 0) (hW : W ≤ 65536) (hH : H ≤ 65536)
    (hroom : ∀ l < runCount above W H, hasRoom W H l = true)
    (hcount : runCount above W H ≤ 65535) (hi : i ≤ H) :
    ∃ t last V edges, labelRows above W H tables i = some (t, last) ∧
      RowsDone above W i t last V edges := by
  induction i with
  | zero => exact ⟨_, _, [], [], rfl, rows_done_zero above W tables⟩
  | succ i ih =>
    obtain ⟨t, last, V, edges, hrun, h⟩ := ih (le_of_lt hi)
    have hmono := run_count_mono above W hi
    obtain ⟨t', last', V', edges', hrow, h'⟩ := h.succ heven hW (lt_of_lt_of_le hi hH)
      (fun l hl => hroom l (hl.trans_le hmono)) (hmono.trans hcount)
    refine ⟨t', last', V', edges', ?_, h'⟩
    rw [labelRows, hrun, bind_some]
    exact hrow

/-- The cells under a root. -/
def componentOf (t : Labels) (V : List Placed) (r : Nat) : Set Cell :=
  {p | ∃ s ∈ t.runsOf V r, s.Covers p}

theorem RowsDone.component_eq {a : Placed} {p : Cell} (h : RowsDone above W i t last V edges)
    (ha : a ∈ V) (hp : a.1.Covers p) :
    componentOf t V (t.rootOf a.2) = {q | Connected (foregroundCell above W i) p q} := by
  have hfg := h.decomposes.foreground a ha p hp
  ext q
  constructor
  · rintro ⟨s, ⟨b, hb, rfl, hroot⟩, hq⟩
    exact (h.decomposes.connected_iff_joined h.exact ha hb hp hq).mpr
      ((h.placing.classes a ha b hb).mpr hroot.symm)
  · intro hconn
    obtain ⟨b, hb, hq⟩ := h.decomposes.covered q (hconn.foreground hfg)
    have hjoined := (h.decomposes.connected_iff_joined h.exact ha hb hp hq).mp hconn
    exact ⟨b.1, ⟨b, hb, rfl, ((h.placing.classes a ha b hb).mp hjoined).symm⟩, hq⟩

theorem RowsDone.roots_are_components (h : RowsDone above W i t last V edges) :
    LabelsComponents (foregroundCell above W i) t := by
  have hown : ∀ r, t.IsRoot r → ∃ a ∈ V, t.rootOf a.2 = r := fun r hr => by
    obtain ⟨a, ha, hal⟩ := h.placing.used r hr.1
    exact ⟨a, ha, hal ▸ hr.2⟩
  refine ⟨componentOf t V, ⟨fun r hr => ?_, fun r hr r' hr' heq => ?_, fun C hC => ?_⟩,
    fun r hr => ?_⟩
  · obtain ⟨a, ha, rfl⟩ := hown r hr
    have hcover := h.decomposes.covers_head ha
    exact ⟨_, h.decomposes.foreground a ha _ hcover, h.component_eq ha hcover⟩
  · obtain ⟨a, ha, rfl⟩ := hown r hr
    have hcover := h.decomposes.covers_head ha
    have hmem : (a.1.row, a.1.head) ∈ componentOf t V (t.rootOf a.2) :=
      ⟨a.1, ⟨a, ha, rfl, rfl⟩, hcover⟩
    rw [heq] at hmem
    obtain ⟨s, ⟨b, hb, rfl, hroot⟩, hcover'⟩ := hmem
    rw [h.decomposes.covers_unique ha hb hcover hcover']
    exact hroot
  · obtain ⟨p, hp, rfl⟩ := hC
    obtain ⟨a, ha, hcover⟩ := h.decomposes.covered p hp
    exact ⟨t.rootOf a.2, h.placing.rooted.isRoot (h.placing.below a ha), h.component_eq ha hcover⟩
  · refine (h.placing.boxes r hr).cells (fun s hs => ?_) fun p => Iff.rfl
    obtain ⟨a, ha, rfl, -⟩ := hs
    exact h.decomposes.head_le a ha

theorem table_room_eq {size : Nat} (hbytes : H * (W / 2) * 10 < 2 ^ 32) (hpos : 0 < size)
    (hsmall : size ≤ 10) : tableRoom W H size = H * (W / 2) := by
  have hle : H * (W / 2) * size ≤ H * (W / 2) * 10 := mul_le_mul_left _ hsmall
  rw [tableRoom, mod_eq_of_lt (a := H * (W / 2)) (by omega),
    mod_eq_of_lt (hle.trans_lt hbytes), Nat.mul_div_cancel _ hpos]

/-- Tables whose bytes a 32-bit size can say have an entry for each pair of columns. -/
theorem has_room_of_lt {l : Nat} (heven : W % 2 = 0) (hsize : 5 * W * H < 2 ^ 32)
    (hl : l < H * (W / 2)) : hasRoom W H l = true := by
  have hbytes : H * (W / 2) * 10 < 2 ^ 32 := by
    have hhalf : W / 2 * 2 = W := Nat.div_mul_cancel (dvd_of_mod_eq_zero heven)
    calc H * (W / 2) * 10 = 5 * (W / 2 * 2) * H := by ring
      _ = 5 * W * H := by rw [hhalf]
      _ < 2 ^ 32 := hsize
  rw [hasRoom, table_room_eq hbytes (by omega) le_rfl, table_room_eq hbytes (by omega) (by omega)]
  exact decide_eq_true ⟨hl, hl⟩

/-- Every map of even width with fewer than 65535 runs, whose coordinates fit an `FH_UINT16` and
whose tables fit a `malloc`. -/
theorem labels_components (foreground : Nat → Byte) (thresh : BitVec 32) (tables : Labels)
    (heven : W % 2 = 0) (hW : W ≤ 65536) (hH : H ≤ 65536) (hsize : 5 * W * H < 2 ^ 32)
    (hruns : runCount (isForeground foreground thresh) W H < 65535) :
    Segmented foreground thresh W H tables := by
  have hle := run_count_le (isForeground foreground thresh) heven hW H
  obtain ⟨t, last, V, edges, hrun, h⟩ := label_rows_ok tables heven hW hH
    (fun l hl => has_room_of_lt heven hsize (hl.trans_le hle)) hruns.le le_rfl
  refine ⟨t, ?_, h.roots_are_components⟩
  rw [getOrdFromGau, hrun, map_some]

/-- Tables as an allocator may return them. -/
def anyTables : Labels := ⟨0, fun _ => ⟨0, 0, 0, 0, 0⟩, fun _ => 0, fun _ => 0⟩

/-- Two pixels that touch at a corner. -/
theorem labels_components_corner :
    runCount (isForeground (fun pos => if pos % 5 = 0 then 1 else 0) 1) 4 2 < 65535 ∧
      Segmented (fun pos => if pos % 5 = 0 then 1 else 0) 1 4 2 anyTables :=
  have hruns : runCount (isForeground (fun pos => if pos % 5 = 0 then 1 else 0) 1) 4 2 < 65535 := by
    decide
  ⟨hruns, labels_components _ 1 anyTables (by decide) (by decide) (by decide) (by decide) hruns⟩

/-! ## One pixel -/

/-- A map with one foreground pixel. -/
def pixel (W r c pos : Nat) : Byte := if pos = r * W + c then 1 else 0

variable {r c n : Nat}

theorem is_foreground_pixel (W r c pos : Nat) :
    isForeground (pixel W r c) 1 pos = decide (pos = r * W + c) := by
  by_cases h : pos = r * W + c
  · rw [isForeground, pixel, if_pos h, decide_eq_true h]
    rfl
  · rw [isForeground, pixel, if_neg h, decide_eq_false h]
    rfl

/-- The position of a pixel tells its row and column. -/
theorem position_inj {j : Nat} (hj : j < W) (hc : c < W) (h : i * W + j = r * W + c) :
    i = r ∧ j = c := by
  have hpos : 0 < W := lt_of_le_of_lt (zero_le j) hj
  have hi : i = r := by
    calc i = (i * W + j) / W := by rw [mul_comm, mul_add_div hpos, div_eq_of_lt hj]; rfl
      _ = (r * W + c) / W := by rw [h]
      _ = r := by rw [mul_comm, mul_add_div hpos, div_eq_of_lt hc]; rfl
  subst hi
  exact ⟨rfl, add_left_cancel h⟩

theorem foreground_cell_pixel {p : Cell} (hr : r < H) (hc : c < W) :
    foregroundCell (isForeground (pixel W r c) 1) W H p ↔ p = (r, c) := by
  rw [foregroundCell, is_foreground_pixel, decide_eq_true_eq]
  constructor
  · intro ⟨_, hpW, hpos⟩
    obtain ⟨hi, hj⟩ := position_inj hpW hc hpos
    exact Prod.ext hi hj
  · rintro rfl
    exact ⟨hr, hc, rfl⟩

theorem scan_row_pixel_other (hc : c < W) (hi : i ≠ r) :
    scanRow (isForeground (pixel W r c) 1) W (i * W) = [] := by
  have hscan : ∀ n ≤ W, (List.range n).foldl
      (scanPixel (isForeground (pixel W r c) 1) W (i * W)) ⟨0, []⟩ = ⟨0, []⟩ := by
    intro n hn
    induction n with
    | zero => rfl
    | succ n ih =>
      have hblank : isForeground (pixel W r c) 1 (i * W + n) = false := by
        rw [is_foreground_pixel]
        exact decide_eq_false fun h => hi (position_inj hn hc h).1
      rw [range_succ, foldl_append, ih (le_of_lt hn), foldl_cons, scanPixel, hblank]
      rfl
  rw [scanRow, hscan W le_rfl]

theorem scan_row_pixel (hc : c < W) :
    scanRow (isForeground (pixel W r c) 1) W (r * W) = [⟨u16 c, u16 c⟩] := by
  have hscan : ∀ n ≤ W, (List.range n).foldl
      (scanPixel (isForeground (pixel W r c) 1) W (r * W)) ⟨0, []⟩ =
        if n ≤ c then ⟨0, []⟩ else ⟨u16 c, [⟨u16 c, u16 c⟩]⟩ := by
    intro n hn
    induction n with
    | zero => rfl
    | succ n ih =>
      rw [range_succ, foldl_append, ih (le_of_lt hn), foldl_cons, foldl_nil, scanPixel]
      simp only [is_foreground_pixel, decide_eq_true_eq, add_left_cancel_iff]
      rcases lt_trichotomy n c with hlt | rfl | hgt
      · rw [if_neg hlt.ne, if_pos hlt.le, if_pos (succ_le_of_lt hlt)]
      · have hback : ¬ (r * W + n - 1 = r * W + n ∧ n ≠ 0) := by omega
        have hend : n + 1 = W ∨ ¬ r * W + n + 1 = r * W + n := .inr (by omega)
        rw [if_pos rfl, if_pos le_rfl, if_pos hend, if_neg (not_succ_le_self n)]
        by_cases hn0 : n = 0
        · rw [if_pos hn0]
          rfl
        · rw [if_neg hn0, if_neg fun heq => hback ⟨heq, hn0⟩]
          rfl
      · rw [if_neg hgt.ne', if_neg hgt.not_ge, if_neg (lt_succ_of_lt hgt).not_ge]
  rw [scanRow, hscan W le_rfl, if_neg hc.not_ge]

theorem label_row_blank (hscan : scanRow above W (i * W) = []) (t : Labels)
    (last : List (Run × Nat)) : labelRow above W H i t last = some (t, []) := by
  simp only [labelRow, hscan, length_nil, zero_le, if_true, labelRuns]

theorem get_ord_pixel (hr : r < H) (hc : c < W) (hW : 2 ≤ W) (tables : Labels) :
    getOrdFromGau (pixel W r c) 1 W H tables =
      newLabel W H r ⟨u16 c, u16 c⟩ { tables with label := 0 } := by
  have hbefore : ∀ i ≤ r, labelRows (isForeground (pixel W r c) 1) W H tables i =
      some ({ tables with label := 0 }, []) := by
    intro i hi
    induction i with
    | zero => rfl
    | succ i ih =>
      rw [labelRows, ih (le_of_lt hi)]
      exact label_row_blank (scan_row_pixel_other hc (Nat.ne_of_lt hi)) _ _
  have hafter : ∀ i, r < i → (labelRows (isForeground (pixel W r c) 1) W H tables i).map Prod.fst =
      newLabel W H r ⟨u16 c, u16 c⟩ { tables with label := 0 } := by
    intro i hi
    induction i, hi using le_induction with
    | base =>
      have hlen : 1 ≤ W / 2 := by omega
      have hrow : labelRow (isForeground (pixel W r c) 1) W H r { tables with label := 0 } [] =
          labelRuns W H r { tables with label := 0 } [] [⟨u16 c, u16 c⟩] := by
        simp only [labelRow, scan_row_pixel hc]
        exact if_pos hlen
      rw [labelRows, hbefore r le_rfl, bind_some]
      refine (congrArg (Option.map Prod.fst) hrow).trans ?_
      rw [labelRuns, labelRun, scanPrev, bind_some]
      dsimp only
      cases newLabel W H r ⟨u16 c, u16 c⟩ { tables with label := 0 } with
      | none => rfl
      | some t => rfl
    | succ i hi ih =>
      rw [← ih, labelRows]
      cases labelRows (isForeground (pixel W r c) 1) W H tables i with
      | none => rfl
      | some state =>
        have hrow := label_row_blank (H := H) (scan_row_pixel_other hc (ne_of_gt hi))
          state.1 state.2
        refine (congrArg (Option.map Prod.fst) hrow).trans ?_
        rfl
  exact hafter H hr

/-- What the pixel's component says about its tables: an entry is there, and the coordinates are the
pixel's. -/
theorem pixel_fits (hr : r < H) (hc : c < W) (hW : 2 ≤ W) {tables : Labels}
    (h : Segmented (pixel W r c) 1 W H tables) :
    hasRoom W H 0 = true ∧ u16 r = r ∧ u16 c = c := by
  obtain ⟨t, hrun, component, hbij, hbox⟩ := h
  rw [get_ord_pixel hr hc hW] at hrun
  obtain ⟨hroom, hrun⟩ := ite_none_right_eq_some.mp hrun
  have hrun := some.inj hrun
  have hlabel : t.label = 1 := hrun ▸ rfl
  have hentry : t.rtable 0 = ⟨u16 c, u16 c, u16 r, u16 r, 0⟩ := hrun ▸ rfl
  have hroot : t.IsRoot 0 := ⟨hlabel ▸ zero_lt_one, congrArg OrdInfo.root hentry⟩
  have hbox := hbox 0 hroot
  rw [hentry] at hbox
  obtain ⟨p, hp, hC⟩ := hbij.mapsTo hroot
  have honly : ∀ q ∈ component 0, q = (r, c) := fun q hq => by
    rw [hC] at hq
    exact (foreground_cell_pixel hr hc).mp (hq.foreground hp)
  refine ⟨hroom, ?_, ?_⟩
  · obtain ⟨q, hq, hrow⟩ := hbox.top.1
    rw [honly q hq] at hrow
    exact hrow.symm
  · obtain ⟨q, hq, hcol⟩ := hbox.left.1
    rw [honly q hq] at hcol
    exact hcol.symm

theorem run_count_pixel (hc : c < W) (H : Nat) :
    runCount (isForeground (pixel W r c) 1) W H ≤ 1 := by
  have hother : ∀ i ≠ r, runStarts (isForeground (pixel W r c) 1) (i * W) W = 0 := fun i hi => by
    refine countP_eq_zero.mpr fun j hj => ?_
    have hblank : ¬ i * W + j = r * W + c := fun h =>
      hi (position_inj (mem_range.mp hj) hc h).1
    rw [isStart, is_foreground_pixel, decide_eq_false hblank, Bool.false_and]
    exact Bool.false_ne_true
  have hrow : runStarts (isForeground (pixel W r c) 1) (r * W) W ≤ 1 := by
    have hle : runStarts (isForeground (pixel W r c) 1) (r * W) W ≤ (List.range W).count c := by
      refine countP_mono_left fun j _ hstart => ?_
      simp only [isStart, is_foreground_pixel, Bool.and_eq_true, decide_eq_true_eq] at hstart
      exact beq_iff_eq.mpr (add_left_cancel hstart.1)
    exact hle.trans (nodup_iff_count_le_one.mp nodup_range c)
  have hrows : ∀ n, runCount (isForeground (pixel W r c) 1) W n ≤ if n ≤ r then 0 else 1 := by
    intro n
    induction n with
    | zero => exact zero_le _
    | succ n ih =>
      rw [run_count_succ]
      rcases lt_trichotomy n r with hlt | rfl | hgt
      · rw [hother n hlt.ne, if_pos (succ_le_of_lt hlt)]
        rw [if_pos hlt.le] at ih
        exact ih
      · rw [if_neg (not_succ_le_self n)]
        rw [if_pos le_rfl] at ih
        omega
      · rw [hother n hgt.ne', if_neg (lt_succ_of_lt hgt).not_ge]
        rw [if_neg hgt.not_ge] at ih
        exact ih
  refine (hrows H).trans ?_
  split
  · exact zero_le 1
  · exact le_rfl

/-- A pixel in row 65536 gets the row 0, one in column 65536 the column 0; and where the bytes of
`rtable` are 4 more than 2 ^ 32, the first entry is outside of it. -/
theorem big_maps_fail :
    (runCount (isForeground (pixel 2 65536 0) 1) 2 65537 < 65535 ∧
      ¬ Segmented (pixel 2 65536 0) 1 2 65537 anyTables) ∧
    (runCount (isForeground (pixel 65538 0 65536) 1) 65538 1 < 65535 ∧
      ¬ Segmented (pixel 65538 0 65536) 1 65538 1 anyTables) ∧
    (runCount (isForeground (pixel 65026 0 0) 1) 65026 13210 < 65535 ∧
      ¬ Segmented (pixel 65026 0 0) 1 65026 13210 anyTables) := by
  refine ⟨⟨?_, fun h => ?_⟩, ⟨?_, fun h => ?_⟩, ?_, fun h => ?_⟩
  · exact (run_count_pixel (by omega) 65537).trans_lt (by omega)
  · have hrow := (pixel_fits (by omega) (by omega) le_rfl h).2.1
    rw [u16] at hrow
    omega
  · exact (run_count_pixel (by omega) 1).trans_lt (by omega)
  · have hcol := (pixel_fits (by omega) (by omega) (by omega) h).2.2
    rw [u16] at hcol
    omega
  · exact (run_count_pixel (by omega) 13210).trans_lt (by omega)
  · have hroom := (pixel_fits (by omega) (by omega) (by omega) h).1
    cases hroom

end FullhanRtos.Motion
