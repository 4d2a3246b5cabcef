import FullhanRtos.Motion.Roots

/-!
# Runs placed under labels

`Placing` relates the tables to the runs that have a label so far and to the connections that were
found: two runs have one root exactly if connections join them, and the box of a root is the box of
its runs. `Placing.open_label`, `Placing.first` and `Placing.further` are the three things that can
happen to a run.
-/

namespace FullhanRtos.Motion

open Classes Segments List Set

variable {t t' : Labels} {i root node : Nat} {curr : Run}

/-- A run of a row, with its label. -/
abbrev Placed := Segment × Nat

def Run.inRow (i : Nat) (run : Run) : Segment := ⟨i, run.head, run.tail⟩

/-- The runs under a root. -/
def Labels.runsOf (t : Labels) (V : List Placed) (r : Nat) : Set Segment :=
  {s | ∃ a ∈ V, a.1 = s ∧ t.rootOf a.2 = r}

/-- The rectangle of an entry is the box of the runs. -/
def OrdInfo.Bounds (ord : OrdInfo) (S : Set Segment) : Prop :=
  IsBox S ord.x1 ord.x2 ord.y1 ord.y2

structure Placing (t : Labels) (V : List Placed) (edges : List (Placed × Placed)) : Prop where
  rooted : Rooted t
  label_le : t.label ≤ V.length
  used : ∀ l < t.label, ∃ a ∈ V, a.2 = l
  below : ∀ a ∈ V, a.2 < t.label
  ends : ∀ e ∈ edges, e.1 ∈ V ∧ e.2 ∈ V
  classes : ∀ a ∈ V, ∀ b ∈ V, Joined edges a b ↔ t.rootOf a.2 = t.rootOf b.2
  boxes : ∀ r, t.IsRoot r → (t.rtable r).Bounds (t.runsOf V r)

variable {V : List Placed} {edges : List (Placed × Placed)} {p c : Placed}

theorem bounds_of_box {ord ord' : OrdInfo} {S : Set Segment} (h : ord.Bounds S)
    (heq : ord'.box = ord.box) : ord'.Bounds S := by
  simp only [OrdInfo.box, Prod.mk.injEq] at heq
  obtain ⟨h1, h2, h3, h4⟩ := heq
  rw [OrdInfo.Bounds, h1, h2, h3, h4]
  exact h

theorem runs_of_cons (t : Labels) (V : List Placed) (a : Placed) (r : Nat) :
    t.runsOf (a :: V) r = if t.rootOf a.2 = r then {a.1} ∪ t.runsOf V r else t.runsOf V r := by
  ext s
  simp only [Labels.runsOf, mem_cons, mem_ofPred_eq, exists_eq_or_imp]
  split
  · rename_i hroot
    simp only [hroot, and_true, mem_union, mem_singleton_iff, mem_ofPred_eq]
    exact or_congr_left eq_comm
  · rename_i hroot
    simp only [hroot, and_false, false_or]
    rfl

theorem runs_of_congr (hroot : ∀ a ∈ V, t'.rootOf a.2 = t.rootOf a.2) (r : Nat) :
    t'.runsOf V r = t.runsOf V r := by
  ext s
  refine exists_congr fun a => and_congr_right fun ha => ?_
  rw [hroot a ha]

theorem Placing.isolated (h : Placing t V edges) (hc : c ∉ V) :
    ∀ e ∈ edges, e.1 ≠ c ∧ e.2 ≠ c := fun e he =>
  ⟨fun heq => hc (heq ▸ (h.ends e he).1), fun heq => hc (heq ▸ (h.ends e he).2)⟩

theorem Placing.open_label {W H : Nat} (h : Placing t V edges)
    (hnew : (curr.inRow i, t.label) ∉ V) (hroom : hasRoom W H t.label = true)
    (hlt : t.label < 65535) (hi : i < 65536) :
    ∃ t', newLabel W H i curr t = some t' ∧ Placing t' ((curr.inRow i, t.label) :: V) edges := by
  obtain ⟨t', hopen, hrooted, hlabel, hold, hentry⟩ := new_label_ok i curr h.rooted hroom
    hlt
  have hkept : ∀ l < t.label, t'.rootOf l = t.rootOf l := fun l hl =>
    congrArg OrdInfo.root (hold l hl)
  have hroot : t'.rootOf t.label = t.label := congrArg OrdInfo.root hentry
  have hkeptV : ∀ a ∈ V, t'.rootOf a.2 = t.rootOf a.2 := fun a ha => hkept _ (h.below a ha)
  have hother : ∀ a ∈ V, t'.rootOf a.2 ≠ t.label := fun a ha =>
    hkeptV a ha ▸ (h.rooted.root_lt _ (h.below a ha)).ne
  have hcases : ∀ l < t'.label, l < t.label ∨ l = t.label := fun l hl =>
    Nat.lt_succ_iff_lt_or_eq.mp (hl.trans_eq hlabel)
  refine ⟨t', hopen, hrooted, ?_, fun l hl => ?_, fun a ha => ?_, fun e he => ?_,
    fun a ha b hb => ?_, fun r hr => ?_⟩
  · rw [hlabel, length_cons]
    exact Nat.succ_le_succ h.label_le
  · rcases hcases l hl with hl | rfl
    · obtain ⟨a, ha, hal⟩ := h.used l hl
      exact ⟨a, mem_cons_of_mem _ ha, hal⟩
    · exact ⟨_, mem_cons_self, rfl⟩
  · rw [hlabel]
    rcases mem_cons.mp ha with rfl | ha
    · exact Nat.lt_succ_self _
    · exact (h.below a ha).trans (Nat.lt_succ_self _)
  · exact ⟨mem_cons_of_mem _ (h.ends e he).1, mem_cons_of_mem _ (h.ends e he).2⟩
  · have hiso := h.isolated hnew
    rcases mem_cons.mp ha with rfl | ha <;> rcases mem_cons.mp hb with rfl | hb
    · exact iff_of_true (joined_refl _ _) rfl
    · refine iff_of_false (fun hj => hnew ?_) fun heq => hother b hb (heq.symm.trans hroot)
      exact (joined_isolated hiso hj).mp rfl ▸ hb
    · refine iff_of_false (fun hj => hnew ?_) fun heq => hother a ha (heq.trans hroot)
      exact (joined_isolated hiso hj).mpr rfl ▸ ha
    · rw [hkeptV a ha, hkeptV b hb]
      exact h.classes a ha b hb
  · rw [runs_of_cons, runs_of_congr hkeptV, hroot]
    rcases hcases r hr.1 with hlt' | rfl
    · rw [if_neg hlt'.ne', hold r hlt']
      exact h.boxes r ⟨hlt', hkept r hlt' ▸ hr.2⟩
    · have hempty : t.runsOf V t.label = ∅ := by
        refine eq_empty_of_forall_notMem fun s hs => ?_
        obtain ⟨a, ha, -, hra⟩ := hs
        exact (h.rooted.root_lt _ (h.below a ha)).ne hra
      rw [if_pos rfl, hempty, union_empty, hentry, OrdInfo.Bounds, u16_of_lt hi]
      exact IsBox.singleton (curr.inRow i)

/-- The first connection of a run places it under the label of the run above. -/
theorem Placing.first (h : Placing t V edges) (hp : p ∈ V) (hnew : (curr.inRow i, p.2) ∉ V)
    (hrows : ∀ a ∈ V, a.1.row ≤ i) (hi : i < 65536) :
    Placing (extendRoot i curr (t.rootOf p.2) t) ((curr.inRow i, p.2) :: V)
      ((p, (curr.inRow i, p.2)) :: edges) := by
  have hroot := root_of_extend_root i curr (t.rootOf p.2) t
  refine ⟨h.rooted.extend_root i curr _, h.label_le.trans (Nat.le_succ _), fun l hl => ?_,
    fun a ha => ?_, fun e he => ?_, fun a ha b hb => ?_, fun r hr => ?_⟩
  · obtain ⟨a, ha, hal⟩ := h.used l hl
    exact ⟨a, mem_cons_of_mem _ ha, hal⟩
  · rcases mem_cons.mp ha with rfl | ha
    · exact h.below p hp
    · exact h.below a ha
  · rcases mem_cons.mp he with rfl | he
    · exact ⟨mem_cons_of_mem _ hp, mem_cons_self⟩
    · exact ⟨mem_cons_of_mem _ (h.ends e he).1, mem_cons_of_mem _ (h.ends e he).2⟩
  · -- the new run has the label of the run above, which stands for it in the old connections
    have hold : ∀ a ∈ (curr.inRow i, p.2) :: V,
        (if a = (curr.inRow i, p.2) then p else a) ∈ V ∧
        (if a = (curr.inRow i, p.2) then p else a).2 = a.2 := by
      intro a ha
      split
      · rename_i heq
        exact ⟨hp, heq ▸ rfl⟩
      · rename_i hne
        exact ⟨(mem_cons.mp ha).resolve_left hne, rfl⟩
    rw [joined_leaf (h.isolated hnew), h.classes _ (hold a ha).1 _ (hold b hb).1, (hold a ha).2,
      (hold b hb).2, hroot, hroot]
  · have hr' : t.IsRoot r := ⟨hr.1, hroot r ▸ hr.2⟩
    have hbox := h.boxes r hr'
    rw [runs_of_cons, runs_of_congr fun a _ => hroot a.2, hroot]
    by_cases heq : t.rootOf p.2 = r
    · rw [if_pos heq, heq, OrdInfo.Bounds, extendRoot]
      simp only [Function.update_self]
      obtain ⟨s, ⟨a, ha, rfl, -⟩, htop⟩ := hbox.top.1
      obtain ⟨s, ⟨b, hb, rfl, -⟩, hbottom⟩ := hbox.bottom.1
      have htop' : min i (t.rtable r).y1 = (t.rtable r).y1 := min_eq_right (htop ▸ hrows a ha)
      have hbottom' : max i (t.rtable r).y2 = u16 i := by
        rw [u16_of_lt hi]
        exact max_eq_left (hbottom ▸ hrows b hb)
      have hunion := (IsBox.singleton (curr.inRow i)).union hbox
      rw [← htop', ← hbottom', min_comm (t.rtable r).x1, max_comm (t.rtable r).x2]
      exact hunion
    · rw [if_neg heq]
      refine bounds_of_box hbox (congrArg OrdInfo.box ?_)
      exact Function.update_of_ne (Ne.symm heq) _ _

theorem Joins.runs_of_root (hj : Joins t root node t')
    (hbelow : ∀ a ∈ V, a.2 < t.label) : t'.runsOf V root = t.runsOf V root ∪ t.runsOf V node := by
  ext s
  simp only [Labels.runsOf, mem_union, mem_ofPred_eq, ← exists_or, ← and_or_left]
  refine exists_congr fun a => and_congr_right fun ha => and_congr_right fun _ => ?_
  rw [hj.rootOf _ (hbelow a ha)]
  split
  · rename_i heq
    exact iff_of_true rfl (.inr heq)
  · rename_i hne
    exact (or_iff_left hne).symm

theorem Joins.runs_of_other (hj : Joins t root node t') {r : Nat} (hroot : r ≠ root)
    (hnode : r ≠ node) (hbelow : ∀ a ∈ V, a.2 < t.label) : t'.runsOf V r = t.runsOf V r := by
  ext s
  refine exists_congr fun a => and_congr_right fun ha => and_congr_right fun _ => ?_
  rw [hj.rootOf _ (hbelow a ha)]
  split
  · rename_i heq
    exact iff_of_false hroot.symm fun hr => hnode (hr.symm.trans heq)
  · exact Iff.rfl

theorem Placing.joins (h : Placing t V edges) (hj : Joins t root node t') (hr : t.IsRoot root)
    (hn : t.IsRoot node) (hne : root ≠ node)
    (hends : (t.rootOf p.2 = root ∧ t.rootOf c.2 = node) ∨
      (t.rootOf p.2 = node ∧ t.rootOf c.2 = root))
    (hp : p ∈ V) (hc : c ∈ V) : Placing t' V ((p, c) :: edges) := by
  refine ⟨hj.rooted, hj.label ▸ h.label_le, fun l hl => h.used l (hj.label ▸ hl),
    fun a ha => hj.label ▸ h.below a ha, fun e he => ?_, fun a ha b hb => ?_, fun r hr' => ?_⟩
  · rcases mem_cons.mp he with rfl | he
    · exact ⟨hp, hc⟩
    · exact h.ends e he
  · rw [joined_cons, h.classes a ha b hb, h.classes a ha p hp, h.classes c hc b hb,
      h.classes a ha c hc, h.classes p hp b hb, hj.rootOf _ (h.below a ha),
      hj.rootOf _ (h.below b hb)]
    rcases hends with ⟨hroot, hnode⟩ | ⟨hnode, hroot⟩
    · rw [hroot, hnode]
      split <;> split <;> omega
    · rw [hroot, hnode]
      split <;> split <;> omega
  · have hlt : r < t.label := hj.label ▸ hr'.1
    have hroot := hj.rootOf r hlt
    by_cases heq : r = root
    · subst heq
      have hbox := (h.boxes r hr).union (h.boxes node hn)
      have hsides := hj.box
      simp only [OrdInfo.box, Prod.mk.injEq] at hsides
      obtain ⟨h1, h2, h3, h4⟩ := hsides
      rw [hj.runs_of_root h.below, OrdInfo.Bounds, h1, h2, h3, h4]
      exact hbox
    · have hnot : t.rootOf r ≠ node := by
        intro hrn
        rw [if_pos hrn, hr'.2] at hroot
        exact heq hroot
      rw [if_neg hnot, hr'.2] at hroot
      have hrn : r ≠ node := fun hrn => hnot (hroot ▸ hrn)
      rw [hj.runs_of_other heq hrn h.below]
      exact bounds_of_box (h.boxes r ⟨hlt, hroot.symm⟩) (hj.others r heq)

theorem Placing.same_root (h : Placing t V edges) (hp : p ∈ V) (hc : c ∈ V)
    (heq : t.rootOf p.2 = t.rootOf c.2) : Placing t V ((p, c) :: edges) := by
  refine ⟨h.rooted, h.label_le, h.used, h.below, fun e he => ?_, fun a ha b hb => ?_, h.boxes⟩
  · rcases mem_cons.mp he with rfl | he
    · exact ⟨hp, hc⟩
    · exact h.ends e he
  · rw [joined_cons, h.classes a ha b hb, h.classes a ha p hp, h.classes c hc b hb,
      h.classes a ha c hc, h.classes p hp b hb, heq]
    refine or_iff_left_of_imp fun hor => ?_
    rcases hor with ⟨hac, hcb⟩ | ⟨hac, hcb⟩
    · exact hac.trans hcb
    · exact hac.trans hcb

theorem Placing.further (h : Placing t V edges) (i : Nat) (curr : Run) (hp : p ∈ V) (hc : c ∈ V) :
    ∃ t', connect i curr p.2 t (some c.2) = some (t', some c.2) ∧
      Placing t' V ((p, c) :: edges) := by
  have hu := h.rooted.isRoot (h.below p hp)
  have hv := h.rooted.isRoot (h.below c hc)
  rcases Nat.lt_trichotomy (t.rootOf p.2) (t.rootOf c.2) with hlt | heq | hgt
  · obtain ⟨t', hjoin, hj⟩ := join_roots_ok h.rooted hu hv hlt.ne
    refine ⟨t', ?_, h.joins hj hu hv hlt.ne (.inl ⟨rfl, rfl⟩) hp hc⟩
    rw [Labels.rootOf, Labels.rootOf] at hlt hjoin
    simp only [connect, if_neg hlt.ne, if_pos hlt, hjoin, Option.map_some]
  · refine ⟨t, ?_, h.same_root hp hc heq⟩
    rw [Labels.rootOf, Labels.rootOf] at heq
    simp only [connect, if_pos heq]
  · obtain ⟨t', hjoin, hj⟩ := join_roots_ok h.rooted hv hu hgt.ne
    refine ⟨t', ?_, h.joins hj hv hu hgt.ne (.inr ⟨rfl, rfl⟩) hp hc⟩
    rw [Labels.rootOf, Labels.rootOf] at hgt hjoin
    simp only [connect, if_neg hgt.ne', if_neg hgt.not_gt, hjoin, Option.map_some]

end FullhanRtos.Motion
