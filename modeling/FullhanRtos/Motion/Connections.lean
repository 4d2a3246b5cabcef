import FullhanRtos.Motion.Placing

/-!
# Connections of the runs of a row

The walk over the row above finds exactly the runs that touch a run: the ones passed before end too
early for it, the ones behind the last that is looked at start too late. `label_runs_ok` carries
`Placing` and `Exact`, that all connections were found, through the runs of a row.
-/

namespace FullhanRtos.Motion

open Classes Segments List

variable {t : Labels} {i up : Nat} {curr : Run} {currentLabel : Option Nat} {V : List Placed}
  {edges : List (Placed × Placed)} {found : List Placed} {prev upper : List (Run × Nat)}
  {runs : List Run} {W H : Nat}

def place (i : Nat) (x : Run × Nat) : Placed := (x.1.inRow i, x.2)

/-- Connections are the pairs of placed runs that touch. -/
def Exact (V : List Placed) (edges : List (Placed × Placed)) : Prop :=
  ∀ a b, (a, b) ∈ edges ↔ a ∈ V ∧ b ∈ V ∧ a.1.Touches b.1

theorem is_connected_iff (last curr : Run) (up : Nat) :
    isConnected last curr = true ↔ (last.inRow up).Touches (curr.inRow (up + 1)) := by
  simp only [isConnected, decide_eq_true_eq, Segment.Touches, Run.inRow, true_and]
  omega

/-- A run with the connections found so far; it has a label from the first one on. -/
def Attached (t : Labels) (currentLabel : Option Nat) (V : List Placed)
    (edges : List (Placed × Placed)) (s : Segment) (found : List Placed) : Prop :=
  match currentLabel with
  | none => found = [] ∧ Placing t V edges
  | some l => Placing t ((s, l) :: V) (found.map (fun p => (p, (s, l))) ++ edges)

/-- One connection more. -/
theorem connect_ok {p : Placed} (h : Attached t currentLabel V edges (curr.inRow i) found)
    (hp : p ∈ V) (hnew : ∀ a ∈ V, a.1 ≠ curr.inRow i) (hrows : ∀ a ∈ V, a.1.row ≤ i)
    (hi : i < 65536) :
    ∃ t' label', connect i curr p.2 t currentLabel = some (t', label') ∧
      Attached t' label' V edges (curr.inRow i) (p :: found) := by
  cases currentLabel with
  | none =>
    obtain ⟨rfl, hplacing⟩ := h
    have hnot : (curr.inRow i, p.2) ∉ V := fun hmem => hnew _ hmem rfl
    exact ⟨_, _, rfl, hplacing.first hp hnot hrows hi⟩
  | some l =>
    obtain ⟨t', hconnect, hplacing⟩ := Placing.further h i curr (mem_cons_of_mem _ hp) mem_cons_self
    exact ⟨t', some l, hconnect, hplacing⟩

/-- The walk over the runs above that are left, by induction on them. -/
theorem scan_prev_ok (h : Attached t currentLabel V edges (curr.inRow i) found)
    (hup : ∀ x ∈ prev, place up x ∈ V) (hapart : prev.Pairwise fun x y => x.1.tail + 1 < y.1.head)
    (hnew : ∀ a ∈ V, a.1 ≠ curr.inRow i) (hrows : ∀ a ∈ V, a.1.row ≤ i) (hi : i < 65536) :
    ∃ t' label' passed rest found', prev = passed ++ rest ∧
      scanPrev i curr t currentLabel prev = some (t', label', rest) ∧
      Attached t' label' V edges (curr.inRow i) found' ∧
      (∀ p, p ∈ found' ↔ p ∈ found ∨ ∃ x ∈ prev, isConnected x.1 curr = true ∧ p = place up x) ∧
      ∀ x ∈ passed, x.1.tail ≤ curr.tail := by
  induction prev generalizing t currentLabel found with
  | nil =>
    refine ⟨t, currentLabel, [], [], found, rfl, rfl, h, fun p => ?_, fun x hx => ?_⟩
    · exact (or_iff_left fun ⟨x, hx, _⟩ => not_mem_nil hx).symm
    · cases hx
  | cons x prev ih =>
    obtain ⟨hx, hprev⟩ := pairwise_cons.mp hapart
    -- the tables after the connection to `x`, if there is one
    obtain ⟨t1, label1, found1, hstep, h1, hfound1⟩ : ∃ t1 label1 found1,
        (if isConnected x.1 curr then connect i curr x.2 t currentLabel
          else some (t, currentLabel)) = some (t1, label1) ∧
        Attached t1 label1 V edges (curr.inRow i) found1 ∧
        ∀ p, p ∈ found1 ↔ p ∈ found ∨ (isConnected x.1 curr = true ∧ p = place up x) := by
      by_cases hconn : isConnected x.1 curr = true
      · obtain ⟨t1, label1, hconnect, h1⟩ := connect_ok h (hup x mem_cons_self) hnew hrows hi
        refine ⟨t1, label1, _, (if_pos hconn).trans hconnect, h1, fun p => ?_⟩
        rw [mem_cons, and_iff_right hconn, or_comm]
      · refine ⟨t, currentLabel, found, if_neg hconn, h, fun p => ?_⟩
        exact (or_iff_left fun hor => hconn hor.1).symm
    have hmem : ∀ p, (∃ y ∈ x :: prev, isConnected y.1 curr = true ∧ p = place up y) ↔
        (isConnected x.1 curr = true ∧ p = place up x) ∨
          ∃ y ∈ prev, isConnected y.1 curr = true ∧ p = place up y := fun p => by
      simp only [mem_cons, exists_eq_or_imp]
    by_cases hskip : curr.tail ≤ x.1.tail
    · -- runs behind `x` start too late
      have hnone : ∀ p, ¬ ∃ y ∈ prev, isConnected y.1 curr = true ∧ p = place up y := by
        rintro p ⟨y, hy, hconn, -⟩
        have hlate := hx y hy
        simp only [isConnected, decide_eq_true_eq] at hconn
        omega
      have hfound : ∀ p, p ∈ found1 ↔ p ∈ found ∨
          ∃ y ∈ x :: prev, isConnected y.1 curr = true ∧ p = place up y := fun p => by
        rw [hfound1, hmem, or_iff_left (hnone p)]
      have hrun : scanPrev i curr t currentLabel (x :: prev) =
          some (t1, label1, if x.1.tail ≤ curr.tail then prev else x :: prev) := by
        rw [scanPrev, hstep, Option.bind_some]
        exact if_pos hskip
      by_cases hends : x.1.tail ≤ curr.tail
      · refine ⟨t1, label1, [x], prev, found1, rfl, ?_, h1, hfound, fun y hy => ?_⟩
        · rw [hrun, if_pos hends]
        · rw [mem_singleton.mp hy]
          exact hends
      · refine ⟨t1, label1, [], x :: prev, found1, rfl, ?_, h1, hfound, fun y hy => ?_⟩
        · rw [hrun, if_neg hends]
        · cases hy
    · obtain ⟨t', label', passed, rest, found', hsplit, hrun, h', hfound', hpassed⟩ :=
        ih h1 (fun y hy => hup y (mem_cons_of_mem x hy)) hprev
      refine ⟨t', label', x :: passed, rest, found', ?_, ?_, h', fun p => ?_, fun y hy => ?_⟩
      · rw [hsplit, cons_append]
      · rw [scanPrev, hstep, Option.bind_some]
        exact (if_neg hskip).trans hrun
      · rw [hfound', hfound1, hmem, or_assoc]
      · rcases mem_cons.mp hy with rfl | hy
        · omega
        · exact hpassed y hy

/-- All connections of one more run, which lies below the others. -/
theorem Exact.cons {c : Placed} (h : Exact V edges) (hc : c ∉ V)
    (hbelow : ∀ a ∈ V, a.1.row ≤ c.1.row)
    (hfound : ∀ p, p ∈ found ↔ p ∈ V ∧ p.1.Touches c.1) :
    Exact (c :: V) (found.map (fun p => (p, c)) ++ edges) := by
  have hnot : ∀ b ∈ c :: V, ¬ c.1.Touches b.1 := by
    intro b hb ht
    have hrow := ht.1
    rcases mem_cons.mp hb with rfl | hb
    · omega
    · have := hbelow b hb
      omega
  intro a b
  rw [mem_append, mem_map, h a b]
  constructor
  · rintro (⟨p, hp, heq⟩ | ⟨ha, hb, ht⟩)
    · obtain ⟨rfl, rfl⟩ := Prod.mk.inj heq
      obtain ⟨hpV, ht⟩ := (hfound p).mp hp
      exact ⟨mem_cons_of_mem _ hpV, mem_cons_self, ht⟩
    · exact ⟨mem_cons_of_mem _ ha, mem_cons_of_mem _ hb, ht⟩
  · intro ⟨ha, hb, ht⟩
    have haV : a ∈ V := by
      rcases mem_cons.mp ha with rfl | ha
      · exact absurd ht (hnot b hb)
      · exact ha
    rcases mem_cons.mp hb with rfl | hb
    · exact .inl ⟨a, (hfound a).mpr ⟨haV, ht⟩, rfl⟩
    · exact .inr ⟨haV, hb, ht⟩

/-- Between two runs of row `i`: `upper` are the runs of the row above, `prev` those that are left
of them, and `runs` are to come. -/
structure Between (i up : Nat) (upper prev : List (Run × Nat)) (runs : List Run) (t : Labels)
    (V : List Placed) (edges : List (Placed × Placed)) : Prop where
  placing : Placing t V edges
  exact : Exact V edges
  rows : ∀ a ∈ V, a.1.row ≤ i
  up_row : ∀ x ∈ upper, up + 1 = i
  upper_mem : ∀ x ∈ upper, place up x ∈ V
  upper_all : ∀ a ∈ V, a.1.row + 1 = i → ∃ x ∈ upper, a = place up x
  upper_apart : upper.Pairwise fun x y => x.1.tail + 1 < y.1.head
  left : ∃ passed, upper = passed ++ prev ∧ ∀ x ∈ passed, ∀ r ∈ runs, x.1.tail + 1 < r.head
  row_apart : ∀ a ∈ V, a.1.row = i → ∀ r ∈ runs, a.1.tail + 1 < r.head
  head_le : ∀ r ∈ runs, r.head ≤ r.tail
  runs_apart : runs.Pairwise fun r r' => r.tail + 1 < r'.head

theorem Between.fresh (h : Between i up upper prev (curr :: runs) t V edges) :
    ∀ a ∈ V, a.1 ≠ curr.inRow i := by
  intro a ha heq
  have hapart := h.row_apart a ha (heq ▸ rfl) curr mem_cons_self
  have hle := h.head_le curr mem_cons_self
  rw [heq] at hapart
  exact absurd hapart (by simp only [Run.inRow]; omega)

theorem Between.found_iff (h : Between i up upper prev (curr :: runs) t V edges) (p : Placed) :
    (∃ x ∈ prev, isConnected x.1 curr = true ∧ p = place up x) ↔
      p ∈ V ∧ p.1.Touches (curr.inRow i) := by
  obtain ⟨passed, hsplit, hpassed⟩ := h.left
  constructor
  · rintro ⟨x, hx, hconn, rfl⟩
    have hmem : x ∈ upper := hsplit ▸ mem_append_right passed hx
    refine ⟨h.upper_mem x hmem, ?_⟩
    rw [← h.up_row x hmem]
    exact (is_connected_iff x.1 curr up).mp hconn
  · intro ⟨hp, ht⟩
    obtain ⟨x, hx, rfl⟩ := h.upper_all p hp ht.1
    have hconn : isConnected x.1 curr = true := by
      rw [is_connected_iff x.1 curr up, h.up_row x hx]
      exact ht
    rcases mem_append.mp (hsplit ▸ hx) with hx | hx
    · -- a run that was passed ends before the current one starts
      have hearly := hpassed x hx curr mem_cons_self
      simp only [isConnected, decide_eq_true_eq] at hconn
      omega
    · exact ⟨x, hx, hconn, rfl⟩

theorem Between.placed {t' : Labels} {l : Nat} {passed rest : List (Run × Nat)}
    (h : Between i up upper prev (curr :: runs) t V edges) (hsplit : prev = passed ++ rest)
    (hpassed : ∀ x ∈ passed, x.1.tail ≤ curr.tail)
    (hfound : ∀ p, p ∈ found ↔ p ∈ V ∧ p.1.Touches (curr.inRow i))
    (hplacing : Placing t' (place i (curr, l) :: V)
      (found.map (fun p => (p, place i (curr, l))) ++ edges)) :
    Between i up upper rest runs t' (place i (curr, l) :: V)
      (found.map (fun p => (p, place i (curr, l))) ++ edges) := by
  obtain ⟨before, hupper, hbefore⟩ := h.left
  obtain ⟨hcurr, hruns⟩ := pairwise_cons.mp h.runs_apart
  have hnot : place i (curr, l) ∉ V := fun hmem => h.fresh _ hmem rfl
  refine ⟨hplacing, h.exact.cons hnot h.rows hfound, fun a ha => ?_, h.up_row,
    fun x hx => mem_cons_of_mem _ (h.upper_mem x hx), fun a ha hrow => ?_, h.upper_apart,
    ⟨before ++ passed, ?_, fun x hx r hr => ?_⟩, fun a ha hrow r hr => ?_,
    fun r hr => h.head_le r (mem_cons_of_mem _ hr), hruns⟩
  · rcases mem_cons.mp ha with rfl | ha
    · exact le_rfl
    · exact h.rows a ha
  · rcases mem_cons.mp ha with rfl | ha
    · exact absurd hrow (Nat.succ_ne_self i)
    · exact h.upper_all a ha hrow
  · rw [hupper, hsplit, append_assoc]
  · rcases mem_append.mp hx with hx | hx
    · exact hbefore x hx r (mem_cons_of_mem _ hr)
    · have := hpassed x hx
      have := hcurr r hr
      omega
  · rcases mem_cons.mp ha with rfl | ha
    · exact hcurr r hr
    · exact h.row_apart a ha hrow r (mem_cons_of_mem _ hr)

theorem label_run_ok (h : Between i up upper prev (curr :: runs) t V edges)
    (hroom : ∀ l ≤ V.length, hasRoom W H l = true) (hlt : V.length < 65535) (hi : i < 65536) :
    ∃ t' l prev' edges', labelRun W H i curr t prev = some (t', l, prev') ∧
      Between i up upper prev' runs t' (place i (curr, l) :: V) edges' := by
  obtain ⟨passed0, hupper, -⟩ := h.left
  have hprev : ∀ x ∈ prev, place up x ∈ V := fun x hx =>
    h.upper_mem x (hupper ▸ mem_append_right passed0 hx)
  have hapart : prev.Pairwise fun x y => x.1.tail + 1 < y.1.head :=
    (pairwise_append.mp (hupper ▸ h.upper_apart)).2.1
  have hstart : Attached t none V edges (curr.inRow i) [] := ⟨rfl, h.placing⟩
  obtain ⟨t', label', passed, rest, found, hsplit, hscan, hattached, hfound, hpassed⟩ :=
    scan_prev_ok hstart hprev hapart h.fresh h.rows hi
  have hfound' : ∀ p, p ∈ found ↔ p ∈ V ∧ p.1.Touches (curr.inRow i) := fun p => by
    rw [hfound, ← h.found_iff]
    exact or_iff_right not_mem_nil
  cases label' with
  | none =>
    obtain ⟨rfl, hplacing⟩ := hattached
    have hle := hplacing.label_le
    have hnot : (curr.inRow i, t'.label) ∉ V := fun hmem => h.fresh _ hmem rfl
    obtain ⟨t'', hopen, hplaced⟩ := hplacing.open_label hnot (hroom _ hle) (hle.trans_lt hlt) hi
    refine ⟨t'', t'.label, rest, edges, ?_, h.placed hsplit hpassed hfound' hplaced⟩
    rw [labelRun, hscan, Option.bind_some]
    simp only [hopen, Option.map_some]
  | some l =>
    refine ⟨t', l, rest, _, ?_, h.placed hsplit hpassed hfound' hattached⟩
    rw [labelRun, hscan, Option.bind_some]

theorem label_runs_ok (h : Between i up upper prev runs t V edges)
    (hroom : ∀ l < V.length + runs.length, hasRoom W H l = true)
    (hlt : V.length + runs.length ≤ 65535) (hi : i < 65536) :
    ∃ t' labelled edges', labelRuns W H i t prev runs = some (t', labelled) ∧
      labelled.map Prod.fst = runs ∧
      Placing t' ((labelled.map (place i)).reverse ++ V) edges' ∧
      Exact ((labelled.map (place i)).reverse ++ V) edges' := by
  induction runs generalizing t prev V edges with
  | nil => exact ⟨t, [], edges, rfl, rfl, h.placing, h.exact⟩
  | cons curr runs ih =>
    rw [length_cons] at hroom hlt
    obtain ⟨t1, l, prev1, edges1, hrun, h1⟩ :=
      label_run_ok h (fun l hl => hroom l (by omega)) (by omega) hi
    obtain ⟨t', labelled, edges', hruns, hmap, hplacing, hexact⟩ :=
      ih h1 (fun l hl => hroom l (by rw [length_cons] at hl; omega))
        (by rw [length_cons]; omega)
    refine ⟨t', (curr, l) :: labelled, edges', ?_, ?_, ?_, ?_⟩
    · rw [labelRuns, hrun, Option.bind_some]
      simp only [hruns, Option.map_some]
    · rw [map_cons, hmap]
    · rw [map_cons, reverse_cons, append_assoc]
      exact hplacing
    · rw [map_cons, reverse_cons, append_assoc]
      exact hexact

end FullhanRtos.Motion
