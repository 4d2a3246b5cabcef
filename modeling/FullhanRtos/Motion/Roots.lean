import FullhanRtos.Motion.Labelling
import Mathlib.Data.List.Range

/-!
# Roots of labels

`Rooted` is the invariant of `root`, `next` and `tail`: the root of a label is a root, and the chain
of a root runs through exactly the labels of that root and ends at its `tail`. Opening a label,
extending a box and joining two roots keep it; `join_roots_ok` says what joining does to the roots
and to the boxes.
-/

namespace FullhanRtos.Motion

open NullList Function List Nat

variable {t t' : Labels} {root node k l r : Nat} {chain : List Nat} {curr : Run}

/-- The pointer that a stored label is; 65535 is the null pointer. -/
def ptr (k : Nat) : Option Nat := if k = 65535 then none else some k

def Labels.link (t : Labels) (k : Nat) : Option Nat := ptr (t.next k)

def Labels.rootOf (t : Labels) (l : Nat) : Nat := (t.rtable l).root

def Labels.IsRoot (t : Labels) (r : Nat) : Prop := r < t.label ∧ t.rootOf r = r

structure IsChain (t : Labels) (r : Nat) (chain : List Nat) : Prop where
  list : IsList t.link (some r) chain
  nodup : chain.Nodup
  mem_iff : ∀ l, l ∈ chain ↔ l < t.label ∧ t.rootOf l = r
  last : chain.getLast? = some (t.tail r)

structure Rooted (t : Labels) : Prop where
  label_le : t.label ≤ 65535
  root_lt : ∀ l < t.label, t.rootOf l < t.label
  root_root : ∀ l < t.label, t.rootOf (t.rootOf l) = t.rootOf l
  chain : ∀ r, t.IsRoot r → ∃ chain, IsChain t r chain

theorem ptr_of_lt (h : k < 65535) : ptr k = some k := if_neg h.ne

theorem u16_of_lt {n : Nat} (h : n < 65536) : u16 n = n := mod_eq_of_lt h

theorem Rooted.isRoot (h : Rooted t) (hl : l < t.label) : t.IsRoot (t.rootOf l) :=
  ⟨h.root_lt l hl, h.root_root l hl⟩

theorem IsChain.length_le (h : IsChain t r chain) : chain.length ≤ t.label := by
  have hsub : chain ⊆ List.range t.label := fun l hl => mem_range.mpr ((h.mem_iff l).mp hl).1
  simpa using (subperm_of_subset h.nodup hsub).length_le

theorem IsChain.tail_mem (h : IsChain t r chain) : t.tail r < t.label ∧ t.rootOf (t.tail r) = r :=
  (h.mem_iff _).mp (mem_of_getLast? h.last)

theorem IsChain.not_mem (h : IsChain t r chain) (hl : t.rootOf l ≠ r) : l ∉ chain :=
  fun hmem => hl ((h.mem_iff l).mp hmem).2

/-- The loop over a chain ends and stores the root in each of its nodes, by induction on the
chain. -/
theorem relabel_chain {next : Nat → Nat} {fuel : Nat} {rtable : Nat → OrdInfo}
    (hlist : IsList (fun k => ptr (next k)) (ptr k) chain) (hfuel : chain.length < fuel) :
    relabel next root fuel k rtable = some fun l =>
      if l ∈ chain then { rtable l with root := u16 root } else rtable l := by
  induction chain generalizing k fuel rtable with
  | nil =>
    obtain ⟨fuel, rfl⟩ := exists_eq_succ_of_ne_zero hfuel.ne'
    have hk : k = 65535 := by
      by_contra hne
      have hnone : ptr k = none := hlist
      rw [ptr, if_neg hne] at hnone
      cases hnone
    rw [relabel, if_pos hk]
    simp
  | cons x chain ih =>
    obtain ⟨fuel, rfl⟩ := exists_eq_succ_of_ne_zero (Nat.ne_zero_of_lt hfuel)
    have hk : k ≠ 65535 := by
      intro heq
      have hsome : ptr k = some x := hlist.1
      rw [ptr, if_pos heq] at hsome
      cases hsome
    obtain rfl : k = x := by simpa [ptr, hk] using hlist.1
    rw [relabel, if_neg hk, ih hlist.2 (lt_of_succ_lt_succ hfuel)]
    refine congrArg some (funext fun l => ?_)
    by_cases hl : l = k
    · subst hl
      simp
    · simp [hl]

/-- The four sides of the rectangle of an entry. -/
def OrdInfo.box (ord : OrdInfo) : Nat × Nat × Nat × Nat := (ord.x1, ord.x2, ord.y1, ord.y2)

/-- Nothing but boxes changed. -/
theorem Rooted.of_same (h : Rooted t) (hlabel : t'.label = t.label) (hnext : t'.next = t.next)
    (htail : t'.tail = t.tail) (hroot : ∀ l, t'.rootOf l = t.rootOf l) : Rooted t' where
  label_le := hlabel ▸ h.label_le
  root_lt l hl := by
    rw [hlabel] at hl ⊢
    rw [hroot]
    exact h.root_lt l hl
  root_root l hl := by
    rw [hroot, hroot]
    exact h.root_root l (hlabel ▸ hl)
  chain r hr := by
    obtain ⟨chain, hc⟩ := h.chain r ⟨hlabel ▸ hr.1, hroot r ▸ hr.2⟩
    have hlink : t'.link = t.link := funext fun k => congrArg ptr (congrFun hnext k)
    refine ⟨chain, hlink ▸ hc.list, hc.nodup, fun l => ?_, htail ▸ hc.last⟩
    rw [hlabel, hroot]
    exact hc.mem_iff l

/-! ## Opening a label -/

theorem Rooted.opened (h : Rooted t) (hlt : t.label < 65535) (hlabel : t'.label = t.label + 1)
    (hold : ∀ l, l ≠ t.label → t'.rootOf l = t.rootOf l ∧ t'.next l = t.next l ∧
      t'.tail l = t.tail l)
    (hroot : t'.rootOf t.label = t.label) (hnext : t'.next t.label = 65535)
    (htail : t'.tail t.label = t.label) : Rooted t' := by
  have hcases : ∀ l < t'.label, l < t.label ∨ l = t.label := fun l hl =>
    Nat.lt_succ_iff_lt_or_eq.mp (hl.trans_eq hlabel)
  have hkept : ∀ l < t.label, t'.rootOf l = t.rootOf l := fun l hl => (hold l hl.ne).1
  refine ⟨hlabel ▸ hlt, fun l hl => ?_, fun l hl => ?_, fun r hr => ?_⟩
  · rcases hcases l hl with hl | rfl
    · rw [hkept l hl, hlabel]
      exact (h.root_lt l hl).trans (lt_succ_self _)
    · rw [hroot]
      exact hl
  · rcases hcases l hl with hl | rfl
    · rw [hkept l hl, hkept _ (h.root_lt l hl)]
      exact h.root_root l hl
    · rw [hroot, hroot]
  · rcases hcases r hr.1 with hlt' | rfl
    · obtain ⟨chain, hc⟩ := h.chain r ⟨hlt', hkept r hlt' ▸ hr.2⟩
      have hne : ∀ l ∈ chain, l ≠ t.label := fun l hl => ((hc.mem_iff l).mp hl).1.ne
      refine ⟨chain, hc.list.congr fun l hl => ?_, hc.nodup, fun l => ?_, ?_⟩
      · exact congrArg ptr (hold l (hne l hl)).2.1
      · rw [hc.mem_iff l]
        constructor
        · intro ⟨hl, hlr⟩
          exact ⟨hlabel ▸ hl.trans (lt_succ_self _), (hkept l hl).trans hlr⟩
        · intro ⟨hl, hlr⟩
          rcases hcases l hl with hl | rfl
          · exact ⟨hl, hkept l hl ▸ hlr⟩
          · exact absurd (hroot.symm.trans hlr) hlt'.ne'
      · rw [hc.last, (hold r hlt'.ne).2.2]
    · refine ⟨[t.label], ⟨rfl, ?_⟩, nodup_singleton _, fun l => ?_, ?_⟩
      · change ptr (t'.next t.label) = none
        rw [hnext]
        rfl
      · rw [mem_singleton]
        constructor
        · rintro rfl
          exact ⟨hr.1, hroot⟩
        · intro ⟨hl, hlr⟩
          rcases hcases l hl with hl | heq
          · rw [hkept l hl] at hlr
            exact absurd (hlr ▸ h.root_lt l hl) (lt_irrefl _)
          · exact heq
      · rw [htail]
        rfl

theorem new_label_ok {W H : Nat} (i : Nat) (curr : Run) (h : Rooted t)
    (hroom : hasRoom W H t.label = true) (hlt : t.label < 65535) :
    ∃ t', newLabel W H i curr t = some t' ∧ Rooted t' ∧ t'.label = t.label + 1 ∧
      (∀ l < t.label, t'.rtable l = t.rtable l) ∧
      t'.rtable t.label = ⟨curr.head, curr.tail, u16 i, u16 i, t.label⟩ := by
  have h16 : u16 t.label = t.label := u16_of_lt (hlt.trans (lt_succ_self _))
  have hself : ∀ {α : Type} (f : Nat → α) (v : α), update f t.label v t.label = v :=
    fun f v => update_self t.label v f
  refine ⟨_, if_pos hroom, ?_, rfl, fun l hl => update_of_ne hl.ne _ _, ?_⟩
  · refine h.opened hlt rfl (fun l hl => ⟨?_, ?_, ?_⟩) ?_ (hself _ _) ((hself _ _).trans h16)
    · exact congrArg OrdInfo.root (update_of_ne hl _ _)
    · exact update_of_ne hl _ _
    · exact update_of_ne hl _ _
    · exact (congrArg OrdInfo.root (hself _ _)).trans h16
  · exact (hself _ _).trans (by rw [h16])

/-! ## Extending a box -/

theorem root_of_extend_root (i : Nat) (curr : Run) (root : Nat) (t : Labels) (l : Nat) :
    (extendRoot i curr root t).rootOf l = t.rootOf l := by
  by_cases hl : l = root
  · subst hl
    simp only [Labels.rootOf, extendRoot, update_self]
  · exact congrArg OrdInfo.root (update_of_ne hl _ _)

theorem Rooted.extend_root (h : Rooted t) (i : Nat) (curr : Run) (root : Nat) :
    Rooted (extendRoot i curr root t) :=
  h.of_same rfl rfl rfl (root_of_extend_root i curr root t)

/-! ## Joining two roots -/

structure Joins (t : Labels) (root node : Nat) (t' : Labels) : Prop where
  rooted : Rooted t'
  label : t'.label = t.label
  rootOf : ∀ l < t.label, t'.rootOf l = if t.rootOf l = node then root else t.rootOf l
  box : (t'.rtable root).box =
    (min (t.rtable root).x1 (t.rtable node).x1, max (t.rtable root).x2 (t.rtable node).x2,
      min (t.rtable root).y1 (t.rtable node).y1, max (t.rtable root).y2 (t.rtable node).y2)
  others : ∀ l, l ≠ root → (t'.rtable l).box = (t.rtable l).box

theorem Rooted.joined (h : Rooted t) (hr : t.IsRoot root) (hn : t.IsRoot node) (hne : root ≠ node)
    (hlabel : t'.label = t.label)
    (hroot : ∀ l < t.label, t'.rootOf l = if t.rootOf l = node then root else t.rootOf l)
    (hnext : t'.next = update t.next (t.tail root) node)
    (htail : t'.tail = update t.tail root (t.tail node)) : Rooted t' := by
  obtain ⟨upper, hu⟩ := h.chain root hr
  obtain ⟨lower, hl⟩ := h.chain node hn
  have hptr : ptr node = some node := ptr_of_lt (hn.1.trans_le h.label_le)
  have hlink : t'.link = update t.link (t.tail root) (some node) := by
    have hcomp := Function.comp_update ptr t.next (t.tail root) node
    rw [hptr] at hcomp
    exact (funext fun k => congrArg ptr (congrFun hnext k)).trans hcomp
  have hroot' : t'.rootOf root = root := by rw [hroot root hr.1, hr.2, if_neg hne]
  refine ⟨hlabel ▸ h.label_le, fun l hl => ?_, fun l hl => ?_, fun r hr' => ?_⟩
  · rw [hlabel] at hl ⊢
    rw [hroot l hl]
    split
    · exact hr.1
    · exact h.root_lt l hl
  · rw [hlabel] at hl
    rw [hroot l hl]
    by_cases heq : t.rootOf l = node
    · rw [if_pos heq]
      exact hroot'
    · rw [if_neg heq, hroot _ (h.root_lt l hl), h.root_root l hl, if_neg heq]
  · by_cases heq : r = root
    · subst heq
      have hapart : ∀ l ∈ upper, l ∉ lower := fun l hmem hmem' =>
        hne (((hu.mem_iff l).mp hmem).2.symm.trans ((hl.mem_iff l).mp hmem').2)
      refine ⟨upper ++ lower, ?_, hu.nodup.append hl.nodup hapart, fun l => ?_, ?_⟩
      · rw [hlink]
        exact hu.list.splice hl.list hu.nodup hapart hu.last
      · rw [mem_append, hu.mem_iff, hl.mem_iff, hlabel, ← and_or_left]
        refine and_congr_right fun hlt => ?_
        rw [hroot l hlt]
        by_cases hln : t.rootOf l = node
        · rw [if_pos hln]
          exact iff_of_true (.inr hln) rfl
        · rw [if_neg hln]
          exact or_iff_left hln
      · rw [htail, update_self, getLast?_append, hl.last]
        rfl
    · have hr0 := hroot r (hlabel ▸ hr'.1)
      rw [hr'.2] at hr0
      have hrn : t.rootOf r ≠ node := by
        intro hrn
        rw [if_pos hrn] at hr0
        exact heq hr0
      rw [if_neg hrn] at hr0
      have hrne : r ≠ node := fun heq' => hrn (hr0 ▸ heq')
      obtain ⟨chain, hc⟩ := h.chain r ⟨hlabel ▸ hr'.1, hr0.symm⟩
      refine ⟨chain, ?_, hc.nodup, fun l => ?_, ?_⟩
      · rw [hlink]
        exact hc.list.update (hc.not_mem fun hmem => heq (hmem.symm.trans hu.tail_mem.2)) _
      · rw [hc.mem_iff, hlabel]
        refine and_congr_right fun hlt => ?_
        rw [hroot l hlt]
        by_cases hln : t.rootOf l = node
        · rw [if_pos hln]
          exact iff_of_false (fun hlr => hrne (hlr.symm.trans hln)) (fun hrr => heq hrr.symm)
        · rw [if_neg hln]
      · rw [htail, update_of_ne heq, hc.last]

theorem join_roots_tables {lower : List Nat} (hr : root ∉ lower) (hn : u16 node = node)
    (hloop : relabel t.next root (t.label + 1) node t.rtable = some fun l =>
      if l ∈ lower then { t.rtable l with root := root } else t.rtable l) :
    ∃ t', joinRoots root node t = some t' ∧ t'.label = t.label ∧
      t'.next = update t.next (t.tail root) node ∧
      t'.tail = update t.tail root (t.tail node) ∧
      (∀ l, t'.rootOf l = if l ∈ lower then root else t.rootOf l) ∧
      (t'.rtable root).box =
        (min (t.rtable root).x1 (t.rtable node).x1, max (t.rtable root).x2 (t.rtable node).x2,
          min (t.rtable root).y1 (t.rtable node).y1, max (t.rtable root).y2 (t.rtable node).y2) ∧
      ∀ l, l ≠ root → (t'.rtable l).box = (t.rtable l).box := by
  refine ⟨_, Option.map_eq_some_iff.mpr ⟨_, hloop, rfl⟩, rfl, ?_, rfl, fun l => ?_, ?_,
    fun l hl => ?_⟩
  · rw [hn]
  · by_cases hl : l = root
    · subst hl
      simp only [Labels.rootOf, update_self, if_neg hr]
    · simp only [Labels.rootOf, update_of_ne hl]
      split <;> rfl
  · simp only [update_self, OrdInfo.box, if_neg hr]
    split <;> rfl
  · simp only [update_of_ne hl]
    split <;> rfl

/-- Joining always ends: the chain of `node` is no longer than its loop may run. -/
theorem join_roots_ok (h : Rooted t) (hr : t.IsRoot root) (hn : t.IsRoot node)
    (hne : root ≠ node) : ∃ t', joinRoots root node t = some t' ∧ Joins t root node t' := by
  obtain ⟨lower, hl⟩ := h.chain node hn
  have hr16 : u16 root = root := u16_of_lt ((hr.1.trans_le h.label_le).trans (lt_succ_self _))
  have hn16 : u16 node = node := u16_of_lt ((hn.1.trans_le h.label_le).trans (lt_succ_self _))
  have hptr : ptr node = some node := ptr_of_lt (hn.1.trans_le h.label_le)
  have hout : root ∉ lower := hl.not_mem fun heq => hne (hr.2.symm.trans heq)
  have hloop := @relabel_chain root node lower t.next (t.label + 1) t.rtable
    (hptr ▸ hl.list) (lt_succ_of_le hl.length_le)
  rw [hr16] at hloop
  obtain ⟨t', hjoin, hlabel, hnext, htail, hroot, hbox, hothers⟩ :=
    join_roots_tables hout hn16 hloop
  have hroot' : ∀ l < t.label, t'.rootOf l = if t.rootOf l = node then root else t.rootOf l := by
    intro l hlt
    rw [hroot l]
    exact if_congr (by rw [hl.mem_iff, and_iff_right hlt]) rfl rfl
  exact ⟨t', hjoin, h.joined hr hn hne hlabel hroot' hnext htail, hlabel, hroot', hbox, hothers⟩

end FullhanRtos.Motion
