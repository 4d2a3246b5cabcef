import FullhanRtos.Lib.Ranking
import FullhanRtos.Motion.Roots
import FullhanRtos.Motion.Suppression
import Mathlib.Data.Nat.Count

/-!
# What the picked rectangles cover

The loops of the suppression phase return what their abstract counterparts compute: the sort the
passes of `Ranking`, the picking `List.pwFilter` over the sorted positions. From that,
`suppression_settled`: which rectangles can be candidates together such that every one of them is
picked, or covered to 70 % by a picked one that is at least as large.
-/

namespace FullhanRtos.Motion

open Faults Ranking Word List Nat List

variable {rects : List OrdInfo} {n : Nat} {alive : Nat → Bool} {c : List OrdInfo}

/-! ## Sort -/

theorem sort_step_ok (p s : List OrdInfo) (x y : OrdInfo) :
    sortStep (p ++ x :: y :: s) (p.length + 1) =
      .ok (p ++ if rectArea y < rectArea x then y :: x :: s else x :: y :: s) := by
  have hnext : ∀ z, p ++ z :: y :: s = (p ++ [z]) ++ y :: s := fun z => by
    rw [append_assoc, singleton_append]
  have hlen : ∀ z, p.length + 1 = (p ++ [z]).length := fun z => by
    rw [length_append, length_singleton]
  have hprev : fetch (p ++ x :: y :: s) (p.length + 1 - 1) = .ok x := fetch_append p _ x
  have hcurr : fetch (p ++ x :: y :: s) (p.length + 1) = .ok y := by
    rw [hnext, hlen x, fetch_append]
  rw [sortStep, hprev, hcurr]
  dsimp only [Except.bind]
  split
  · have hfirst : store (p ++ x :: y :: s) (p.length + 1 - 1) y = .ok (p ++ y :: y :: s) :=
      store_append p _ x y
    rw [hfirst]
    dsimp only
    rw [hnext, hlen y, store_append, append_assoc, singleton_append]
  · rfl

/-- The inner loop carries the smallest of the rest to its front. -/
theorem sort_pass_rest (p s : List OrdInfo) :
    (List.range' (p.length + 1) (s.length - 1)).reverse.foldlM sortStep (p ++ s) =
      .ok (p ++ carry rectArea s) := by
  induction s generalizing p with
  | nil => rfl
  | cons x s ih =>
    cases s with
    | nil => rfl
    | cons x' s =>
      have hrest := ih (p ++ [x])
      rw [length_append, length_singleton, append_assoc, singleton_append] at hrest
      have hrange : range' (p.length + 1) ((x :: x' :: s).length - 1) =
          (p.length + 1) :: range' (p.length + 1 + 1) ((x' :: s).length - 1) :=
        range'_succ
      have hlen := length_carry rectArea (x' :: s)
      rw [hrange, reverse_cons, foldlM_append, hrest]
      cases hcarry : carry rectArea (x' :: s) with
      | nil =>
        rw [hcarry] at hlen
        cases hlen
      | cons y ys =>
        have hstep := sort_step_ok p ys x y
        have hcons : carry rectArea (x :: x' :: s) =
            if rectArea y < rectArea x then y :: x :: ys else x :: y :: ys := by
          rw [carry, hcarry]
        rw [hcons, append_assoc p [x] (y :: ys), singleton_append]
        change (sortStep (p ++ x :: y :: ys) (p.length + 1)).bind pure = _
        rw [hstep]
        rfl

theorem sort_pass_ok (p s : List OrdInfo) :
    sortPass (p ++ s) (p.length + 1) = .ok (p ++ carry rectArea s) := by
  have hlen : (p ++ s).length - (p.length + 1) = s.length - 1 := by
    rw [length_append]
    omega
  rw [sortPass, hlen, sort_pass_rest]

theorem sort_passes_ok (p s : List OrdInfo) (hs : s.length = n + 1) :
    (List.range' (p.length + 1) n).foldlM sortPass (p ++ s) = .ok (p ++ passes rectArea n s) := by
  induction n generalizing p s with
  | zero => rfl
  | succ n ih =>
    have hlen := length_carry rectArea s
    rw [range'_succ, foldlM_cons, sort_pass_ok, passes]
    cases hcarry : carry rectArea s with
    | nil =>
      rw [hcarry, hs] at hlen
      cases hlen
    | cons y ys =>
      rw [hcarry, hs] at hlen
      have hrest := ih (p ++ [y]) ys (Nat.succ.inj hlen)
      rw [length_append, length_singleton, append_assoc, append_assoc,
        singleton_append, singleton_append] at hrest
      exact hrest

theorem sort_rects_ok (rects : List OrdInfo) :
    sortRects rects = .ok (passes rectArea (rects.length - 1) rects) := by
  cases rects with
  | nil => rfl
  | cons r rects => exact sort_passes_ok [] (r :: rects) rfl

/-! ## Picking -/

/-- `I` while the positions in `alive` remain. -/
def marks (n : Nat) (alive : Nat → Bool) : List (Option Nat) :=
  (List.range n).map fun p => if alive p then some p else none

theorem length_marks : (marks n alive).length = n := by
  rw [marks, length_map, length_range]

theorem fetch_marks {p : Nat} (hp : p < n) :
    fetch (marks n alive) p = .ok (if alive p then some p else none) := by
  rw [fetch_lt (by rwa [length_marks])]
  congr 1
  rw [getElem_of_eq (marks.eq_1 n alive), getElem_map, getElem_range]

theorem filter_range_last (n : Nat) (alive : Nat → Bool) :
    (List.range n).filter alive = [] ∨ ∃ last < n, alive last ∧
      (∀ p, last < p → p < n → alive p = false) ∧
      (List.range n).filter alive = (List.range last).filter alive ++ [last] := by
  induction n with
  | zero => exact .inl rfl
  | succ n ih =>
    rw [range_succ, filter_append]
    cases hn : alive n with
    | true =>
      refine .inr ⟨n, lt_succ_self n, hn, fun p hlt hle => by omega, ?_⟩
      rw [filter_cons_of_pos hn, filter_nil]
    | false =>
      rw [filter_cons_of_neg (by rw [hn]; exact Bool.false_ne_true), filter_nil, append_nil]
      refine ih.imp_right fun ⟨last, hlt, hlast, hnone, heq⟩ =>
        ⟨last, lt_succ_of_lt hlt, hlast, fun p hp hle => ?_, heq⟩
      rcases Nat.lt_succ_iff_lt_or_eq.mp hle with hle | rfl
      · exact hnone p hp hle
      · exact hn

theorem find_last_ok {last m : Nat} (hm : m ≤ n) (hlast : last < m) (halive : alive last)
    (hnone : ∀ p, last < p → p < m → alive p = false) :
    findLast (marks n alive) m = .ok (last, last) := by
  induction m with
  | zero => exact absurd hlast (Nat.not_lt_zero last)
  | succ m ih =>
    rw [findLast, fetch_marks hm]
    rcases Nat.lt_succ_iff_lt_or_eq.mp hlast with hlt | rfl
    · rw [hnone m hlt (lt_succ_self m)]
      exact ih (le_of_succ_le hm) hlt fun p hp hle => hnone p hp (lt_succ_of_lt hle)
    · rw [if_pos halive]
      rfl

/-- Whether rectangle `i` suppresses rectangle `j`. -/
def overlapsAt (rects : List OrdInfo) (i j : Nat) : Bool :=
  match rects[i]?, rects[j]? with
  | some ri, some rj => overlaps ri rj
  | _, _ => false

/-- The loop over the positions before `last` takes down what `i` overlaps. -/
theorem suppress_loop_ok {i m : Nat} (sup : List Nat) (hi : i < rects.length)
    (hm : m ≤ rects.length) (hroom : sup.length + m ≤ rectMidResultNumMax) :
    (List.range m).foldlM (suppressStep rects (marks rects.length alive) i) sup =
      .ok (sup ++ (List.range m).filter fun p => alive p && overlapsAt rects i p) := by
  induction m with
  | zero => exact congrArg Except.ok (append_nil sup).symm
  | succ m ih =>
    have hmlt : m < rects.length := hm
    have hfilter := length_filter_le (fun p => alive p && overlapsAt rects i p)
      (range m)
    have hov : overlapsAt rects i m = overlaps rects[i] rects[m] := by
      rw [overlapsAt, getElem?_eq_getElem hi, getElem?_eq_getElem hmlt]
    rw [length_range] at hfilter
    rw [range_succ, foldlM_append, ih (le_of_succ_le hm) (by omega), filter_append, ← append_assoc]
    change (suppressStep rects (marks rects.length alive) i _ m).bind pure = _
    rw [suppressStep, fetch_marks hmlt]
    cases halive : alive m with
    | false =>
      rw [filter_cons_of_neg (by rw [halive]; exact Bool.false_ne_true), filter_nil, append_nil]
      rfl
    | true =>
      rw [if_pos rfl, fetch_lt hi]
      dsimp only [Except.bind]
      rw [fetch_lt hmlt]
      dsimp only
      rw [← hov]
      cases hcase : overlapsAt rects i m with
      | false =>
        rw [filter_cons_of_neg (by rw [halive, hcase]; exact Bool.false_ne_true),
          filter_nil, append_nil]
        rfl
      | true =>
        rw [filter_cons_of_pos (by rw [halive, hcase]; rfl), filter_nil,
          if_pos rfl, push, if_pos (by rw [length_append]; omega)]
        rfl

theorem store_marks {p : Nat} (hp : p < n) :
    store (marks n alive) p none = .ok (marks n fun q => alive q && q != p) := by
  rw [store, if_pos (by rwa [length_marks])]
  congr 1
  refine ext_getElem (by rw [length_set, length_marks, length_marks]) fun q h1 h2 => ?_
  rw [getElem_set, getElem_of_eq (marks.eq_1 n alive),
    getElem_of_eq (marks.eq_1 n fun q => alive q && q != p), getElem_map,
    getElem_map, getElem_range]
  rcases eq_or_ne p q with rfl | hne
  · rw [if_pos rfl, bne_self_eq_false, Bool.and_false]
    rfl
  · rw [if_neg hne, bne_iff_ne.mpr hne.symm, Bool.and_true]

/-- Every position that was taken down is cleared and counted. -/
theorem clear_loop_ok {sup : List Nat} {Icnt : Int} (hsup : ∀ p ∈ sup, p < n) :
    sup.foldlM clearStep (marks n alive, Icnt) =
      .ok (marks n fun q => alive q && !sup.contains q, Icnt - sup.length) := by
  induction sup generalizing alive Icnt with
  | nil =>
    have halive : (fun q => alive q && !([] : List Nat).contains q) = alive :=
      funext fun q => Bool.and_true (alive q)
    rw [halive, length_nil, Int.natCast_zero, Int.sub_zero]
    rfl
  | cons p sup ih =>
    have hrest : ∀ q ∈ sup, q < n := fun q hq => hsup q (mem_cons_of_mem p hq)
    have halive : (fun q => (alive q && q != p) && !sup.contains q) =
        fun q => alive q && !(p :: sup).contains q := by
      funext q
      rw [contains_cons, Bool.not_or, Bool.and_assoc]
      rfl
    rw [foldlM_cons, clearStep, store_marks (hsup p mem_cons_self)]
    change sup.foldlM clearStep (_, Icnt - 1) = _
    rw [ih hrest, halive, length_cons]
    congr 2
    omega

/-- Two rectangles that can both be picked. -/
def Apart (rects : List OrdInfo) (j i : Nat) : Prop := overlapsAt rects i j = false

instance (rects : List OrdInfo) : DecidableRel (Apart rects) :=
  fun j i => inferInstanceAs (Decidable (overlapsAt rects i j = false))

/-- What remains once the last of the remaining positions is picked. -/
theorem filter_cleared {last : Nat} (h : (List.range n).filter alive =
      (List.range last).filter alive ++ [last]) :
    (List.range n).filter (fun q => alive q && !(last ::
        (List.range last).filter fun p => alive p && overlapsAt rects last p).contains q) =
      ((List.range last).filter alive).filter (Apart rects · last) := by
  have hcomm : (fun q => alive q && !(last ::
        (range last).filter fun p => alive p && overlapsAt rects last p).contains q) =
      fun q => !(last :: (range last).filter fun p =>
        alive p && overlapsAt rects last p).contains q && alive q :=
    funext fun q => Bool.and_comm _ _
  rw [hcomm, ← filter_filter, h, filter_append, filter_cons_of_neg, filter_nil, append_nil]
  · refine filter_congr fun q hq => ?_
    obtain ⟨hlt, halive⟩ := mem_filter.mp hq
    have hmem : (last :: (range last).filter fun p =>
        alive p && overlapsAt rects last p).contains q = overlapsAt rects last q := by
      rw [contains_cons, beq_eq_false_iff_ne.mpr (mem_range.mp hlt).ne, Bool.false_or]
      cases hov : overlapsAt rects last q with
      | true =>
        exact contains_iff_mem.mpr (mem_filter.mpr ⟨hlt, by rw [halive, hov]; rfl⟩)
      | false =>
        refine Bool.eq_false_iff.mpr fun hcon => ?_
        have hboth := (mem_filter.mp (contains_iff_mem.mp hcon)).2
        rw [halive, hov] at hboth
        cases hboth
    rw [hmem]
    cases hov : overlapsAt rects last q with
    | true => exact (decide_eq_false (by rw [Apart, hov]; exact Bool.noConfusion)).symm
    | false => exact (decide_eq_true (by rw [Apart, hov])).symm
  · rw [contains_cons, beq_self_eq_true, Bool.true_or]
    exact Bool.false_ne_true

/-- `Icnt` counts what remains, so the loop ends; and it picks `List.pwFilter` of it. -/
theorem pick_loop_ok {fuel : Nat} {pick : List Nat}
    (hroom : pick.length + ((List.range rects.length).filter alive).length ≤ rectMidResultNumMax)
    (hlen : rects.length ≤ rectMidResultNumMax) :
    Outcome (((List.range rects.length).filter alive).length < fuel) True
      (· = pick ++ (List.pwFilter (Apart rects)
        ((List.range rects.length).filter alive)).reverse)
      (pickLoop rects fuel (marks rects.length alive)
        ((List.range rects.length).filter alive).length pick) := by
  induction fuel generalizing alive pick with
  | zero => exact Nat.not_lt_zero _
  | succ fuel ih =>
    rw [pickLoop]
    rcases filter_range_last rects.length alive with hnil | ⟨last, hlt, hlast, hnone, hrest⟩
    · rw [hnil, length_nil, if_pos Int.natCast_zero, pwFilter_nil, reverse_nil, append_nil]
      exact ⟨trivial, rfl⟩
    · have hcount : ((range rects.length).filter alive).length =
          ((range last).filter alive).length + 1 := by
        rw [hrest, length_append, length_singleton]
      have hsplit := length_eq_length_filter_add (l := (range last).filter alive)
        (overlapsAt rects last)
      have hcleared := @filter_cleared rects _ alive last hrest
      have hleft : ((range last).filter alive).filter (!overlapsAt rects last ·) =
          ((range last).filter alive).filter (Apart rects · last) := by
        refine filter_congr fun q _ => ?_
        cases hov : overlapsAt rects last q with
        | true => exact (decide_eq_false (by rw [Apart, hov]; exact Bool.noConfusion)).symm
        | false => exact (decide_eq_true (by rw [Apart, hov])).symm
      have hsup : ((range last).filter alive).filter (overlapsAt rects last) =
          (range last).filter fun p => alive p && overlapsAt rects last p := by
        rw [filter_filter]
        exact filter_congr fun q _ => Bool.and_comm _ _
      rw [hleft, hsup] at hsplit
      have hbound : ∀ p ∈ last :: (range last).filter fun p =>
          alive p && overlapsAt rects last p, p < rects.length := by
        intro p hp
        rcases mem_cons.mp hp with rfl | hp
        · exact hlt
        · exact (mem_range.mp (mem_filter.mp hp).1).trans hlt
      rw [if_neg (by rw [hcount]; omega), find_last_ok le_rfl hlt hlast hnone]
      dsimp only [Except.bind]
      rw [push, if_pos (by omega)]
      rw [suppress_loop_ok [last] hlt hlt.le (by rw [length_singleton]; omega)]
      dsimp only [singleton_append]
      rw [clear_loop_ok hbound]
      have hIcnt : (((range rects.length).filter alive).length : Int) -
          (last :: (range last).filter fun p =>
            alive p && overlapsAt rects last p).length =
          (((range last).filter alive).filter (Apart rects · last)).length := by
        rw [hcount, length_cons, hsplit]
        omega
      have hnext := @ih _ (pick ++ [last])
        (by rw [hcleared, length_append, length_singleton]; omega)
      rw [hcleared, append_assoc] at hnext
      rw [hIcnt, hrest, pw_filter_concat, reverse_append, reverse_singleton]
      refine hnext.weaken fun hlt => ?_
      rw [length_append, length_singleton] at hlt
      omega

theorem pick_rects_ok (fuel : Nat) (hlen : rects.length ≤ rectMidResultNumMax) :
    Outcome (rects.length < fuel) True
      (· = (List.pwFilter (Apart rects) (List.range rects.length)).reverse)
      (pickRects fuel rects) := by
  have hall : (range rects.length).filter (fun _ => true) = range rects.length :=
    filter_eq_self.mpr fun _ _ => rfl
  have hloop := @pick_loop_ok rects (fun _ => true) fuel []
  rw [hall, length_range, length_nil, zero_add] at hloop
  exact hloop hlen hlen

/-! ## Filter and output -/

theorem filter_loop_ok {areaThW areaThH numOfLabels : Nat} (rtable : Nat → OrdInfo)
    (rectResult : List OrdInfo) (labels : List Nat)
    (hlabels : rectResult.length + labels.length ≤ numOfLabels) :
    filterLoop areaThW areaThH numOfLabels rtable rectResult labels =
      .ok (rectResult ++ (((labels.filter fun i => isCandidate areaThW areaThH i (rtable i)).take
        (rectMidResultNumMax - rectResult.length)).map rtable)) := by
  induction labels generalizing rectResult with
  | nil => exact congrArg Except.ok (by rw [filter_nil, take_nil, map_nil, append_nil])
  | cons i labels ih =>
    rw [length_cons] at hlabels
    rw [filterLoop]
    by_cases hcand : isCandidate areaThW areaThH i (rtable i) = true
    · rw [if_pos hcand, filter_cons, if_pos hcand]
      by_cases hfull : rectMidResultNumMax ≤ rectResult.length
      · rw [if_pos hfull, Nat.sub_eq_zero_of_le hfull, take_zero, map_nil, append_nil]
      · have hnext : rectMidResultNumMax - rectResult.length =
            rectMidResultNumMax - (rectResult.length + 1) + 1 := by omega
        rw [if_neg hfull, push, if_pos (by omega)]
        dsimp only [Except.bind]
        rw [ih _ (by rw [length_append, length_singleton]; omega), hnext, take_succ_cons, map_cons,
          length_append, length_singleton, append_assoc, singleton_append]
    · rw [if_neg hcand, filter_cons, if_neg hcand]
      exact ih rectResult (by omega)

theorem filter_rects_ok (areaThW areaThH : Nat) (t : Labels) :
    filterRects areaThW areaThH t =
      .ok ((((List.range t.label).filter fun i => isCandidate areaThW areaThH i (t.rtable i)).take
        rectMidResultNumMax).map t.rtable) :=
  filter_loop_ok t.rtable [] _ (by rw [length_nil, length_range, zero_add])

theorem report_loop_ok (rectNum : Nat) (rect : List Rect) {pick : List Nat}
    (hpick : ∀ i ∈ pick, i < rects.length) :
    reportLoop rectNum rects rect pick =
      .ok (rect ++ ((pick.filterMap (rects[·]?)).take (rectNum - rect.length)).map
        OrdInfo.toRect) := by
  induction pick generalizing rect with
  | nil => exact congrArg Except.ok (by rw [filterMap_nil, take_nil, map_nil, append_nil])
  | cons i pick ih =>
    have hi : i < rects.length := hpick i mem_cons_self
    rw [reportLoop]
    by_cases hfull : rectNum ≤ rect.length
    · rw [if_pos hfull, Nat.sub_eq_zero_of_le hfull, take_zero, map_nil, append_nil]
    · have hnext : rectNum - rect.length = rectNum - (rect.length + 1) + 1 := by omega
      rw [if_neg hfull, fetch_lt hi]
      dsimp only [Except.bind]
      rw [ih _ fun j hj => hpick j (mem_cons_of_mem i hj),
        filterMap_cons_some (getElem?_eq_getElem hi), hnext, take_succ_cons, map_cons,
        length_append, length_singleton, append_assoc, singleton_append]

/-! ## What is reported -/

def OrdInfo.area (r : OrdInfo) : Nat := (r.x2 + 1 - r.x1) * (r.y2 + 1 - r.y1)

def commonArea (a b : OrdInfo) : Nat :=
  (min a.x2 b.x2 + 1 - max a.x1 b.x1) * (min a.y2 b.y2 + 1 - max a.y1 b.y1)

/-- More than 70 % of `b` lies in `a`. -/
def Covers (a b : OrdInfo) : Prop := 7 * b.area < 10 * commonArea a b

instance (a b : OrdInfo) : Decidable (Covers a b) :=
  inferInstanceAs (Decidable (7 * b.area < 10 * commonArea a b))

/-- Rectangles as the filter leaves them: at most 1000, by ascending label. -/
structure Filtered (c : List OrdInfo) : Prop where
  room : c.length ≤ rectMidResultNumMax
  labels : c.Pairwise fun a b => a.root < b.root

/-- The rectangles `picked` from `c` are what the phase promises. -/
structure Suppression (rectNum : Nat) (c picked : List OrdInfo) : Prop where
  returns : ∃ rects pick, sortRects c = .ok rects ∧ pick.filterMap (rects[·]?) = picked ∧
    ∃ enough, ∀ fuel ≥ enough, pickRects fuel rects = .ok pick ∧
      reportRects fuel rectNum c = .ok ((picked.take rectNum).map OrdInfo.toRect)
  subset : picked.Subperm c
  ordered : picked.Pairwise fun a b => b.area ≤ a.area
  covered : ∀ b ∈ c, b ∈ picked ∨ ∃ a ∈ picked, b.area ≤ a.area ∧ Covers a b

theorem filter_rects_filtered (areaThW areaThH : Nat) (t : Labels) :
    ∃ c, filterRects areaThW areaThH t = .ok c ∧ Filtered c := by
  refine ⟨_, filter_rects_ok areaThW areaThH t, ?_, ?_⟩
  · rw [length_map]
    exact length_take_le _ _
  · rw [pairwise_map]
    refine List.Pairwise.imp_of_mem ?_ ((pairwise_lt_range.filter _).take)
    intro i j hi hj hij
    have hroot : ∀ k ∈ ((range t.label).filter fun i =>
        isCandidate areaThW areaThH i (t.rtable i)).take rectMidResultNumMax,
        k = (t.rtable k).root := fun k hk =>
      (of_decide_eq_true (mem_filter.mp (mem_of_mem_take hk)).2).1
    rwa [← hroot i hi, ← hroot j hj]

/-- The sorted candidates and those of them that are picked, the largest last. -/
def sorted (c : List OrdInfo) : List OrdInfo := passes rectArea (c.length - 1) c

def kept (rects : List OrdInfo) : List Nat :=
  List.pwFilter (Apart rects) (List.range rects.length)

theorem sorted_perm (c : List OrdInfo) : (sorted c).Perm c := passes_perm rectArea _ c

theorem sorted_sorted (c : List OrdInfo) :
    (sorted c).Pairwise fun a b => rectArea a ≤ rectArea b :=
  passes_sorted rectArea (by omega)

theorem kept_lt {i : Nat} (hi : i ∈ kept rects) : i < rects.length :=
  mem_range.mp (pwFilter_subset _ hi)

theorem filter_map_range (rects : List OrdInfo) :
    (List.range rects.length).filterMap (rects[·]?) = rects := by
  induction rects with
  | nil => rfl
  | cons r rects ih =>
    rw [length_cons, range_succ_eq_map, filterMap_cons, filterMap_map]
    exact congrArg (r :: ·) ih

/-- The picked rectangles in the order they are picked in. -/
def picked (c : List OrdInfo) : List OrdInfo :=
  ((kept (sorted c)).reverse).filterMap ((sorted c)[·]?)

theorem mem_picked {r : OrdInfo} :
    r ∈ picked c ↔ ∃ i ∈ kept (sorted c), (sorted c)[i]? = some r := by
  rw [picked, mem_filterMap]
  exact exists_congr fun i => and_congr_left' mem_reverse

/-- The phase returns for every list of candidates, and it reports the first `rect_num` that it
picks. -/
theorem suppression_returns (rectNum : Nat) (hroom : c.length ≤ rectMidResultNumMax) {fuel : Nat}
    (hfuel : c.length < fuel) :
    sortRects c = .ok (sorted c) ∧ pickRects fuel (sorted c) = .ok (kept (sorted c)).reverse ∧
      reportRects fuel rectNum c = .ok (((picked c).take rectNum).map OrdInfo.toRect) := by
  have hlen : (sorted c).length = c.length := (sorted_perm c).length_eq
  have hpick : pickRects fuel (sorted c) = .ok (kept (sorted c)).reverse :=
    (pick_rects_ok fuel (by rwa [hlen])).eq_ok (by rwa [hlen]) trivial
  refine ⟨sort_rects_ok c, hpick, ?_⟩
  rw [reportRects, sort_rects_ok]
  dsimp only [Except.bind]
  rw [← sorted, hpick]
  dsimp only
  rw [report_loop_ok rectNum [] fun i hi => kept_lt (mem_reverse.mp hi)]
  rfl

theorem picked_reverse_sublist (c : List OrdInfo) : ((picked c).reverse).Sublist (sorted c) := by
  rw [picked, filterMap_reverse, reverse_reverse]
  have hsub : ((kept (sorted c)).filterMap ((sorted c)[·]?)).Sublist
      ((range (sorted c).length).filterMap ((sorted c)[·]?)) :=
    (pwFilter_sublist _).filterMap _
  rwa [filter_map_range] at hsub

theorem picked_subperm (c : List OrdInfo) : (picked c).Subperm c :=
  (reverse_perm (picked c)).symm.subperm.trans
    ((picked_reverse_sublist c).subperm.trans (sorted_perm c).subperm)

theorem picked_ordered (c : List OrdInfo) :
    (picked c).Pairwise fun a b => rectArea b ≤ rectArea a :=
  pairwise_reverse.mp ((sorted_sorted c).sublist (picked_reverse_sublist c))

theorem picked_covers {b : OrdInfo} (hb : b ∈ c) :
    b ∈ picked c ∨ ∃ a ∈ picked c, rectArea b ≤ rectArea a ∧ overlaps a b := by
  obtain ⟨j, hj, rfl⟩ := getElem_of_mem ((sorted_perm c).mem_iff.mpr hb)
  have hget : (sorted c)[j]? = some (sorted c)[j] := getElem?_eq_getElem hj
  rcases pw_filter_covers (R := Apart (sorted c)) pairwise_lt_range
    (mem_range.mpr hj) with hkept | ⟨i, hkept, hji, hnot⟩
  · exact .inl (mem_picked.mpr ⟨j, hkept, hget⟩)
  · have hi : i < (sorted c).length := kept_lt hkept
    refine .inr ⟨(sorted c)[i], mem_picked.mpr ⟨i, hkept, getElem?_eq_getElem hi⟩,
      pairwise_iff_getElem.mp (sorted_sorted c) j i hj hi hji, ?_⟩
    rw [Apart, overlapsAt, getElem?_eq_getElem hi, hget] at hnot
    exact Bool.not_eq_false _ ▸ hnot

/-- A larger rectangle of `S` by its 32-bit area is one, and it overlaps what it covers. -/
def Judged (S : Set (Nat × Nat × Nat × Nat)) : Prop :=
  ∀ a b : OrdInfo, a.box ∈ S → b.box ∈ S → rectArea b ≤ rectArea a →
    b.area ≤ a.area ∧ (overlaps a b → Covers a b)

theorem suppression_of_judged {S : Set (Nat × Nat × Nat × Nat)} (hS : Judged S) (rectNum : Nat)
    (hc : Filtered c) (hmem : ∀ r ∈ c, r.box ∈ S) :
    Suppression rectNum c (picked c) where
  returns := by
    refine ⟨sorted c, (kept (sorted c)).reverse, sort_rects_ok c, rfl, c.length + 1, ?_⟩
    intro fuel hfuel
    exact (suppression_returns rectNum hc.room hfuel).2
  subset := picked_subperm c
  ordered := by
    refine (picked_ordered c).imp_of_mem fun {a b} ha hb hab => ?_
    have ha := (picked_subperm c).subset ha
    have hb := (picked_subperm c).subset hb
    exact (hS a b (hmem a ha) (hmem b hb) hab).1
  covered := by
    intro b hb
    refine (picked_covers hb).imp_right fun ⟨a, ha, hab, hover⟩ => ⟨a, ha, ?_⟩
    have hac := (picked_subperm c).subset ha
    have hpair := hS a b (hmem a hac) (hmem b hb) hab
    exact ⟨hpair.1, hpair.2 hover⟩

/-- The picked rectangles are those that the loops return. -/
theorem Suppression.picked_eq {rectNum : Nat} {c p : List OrdInfo} (h : Suppression rectNum c p)
    (hroom : c.length ≤ rectMidResultNumMax) : p = picked c := by
  obtain ⟨rects, pick, hsort, hpicked, enough, hruns⟩ := h.returns
  have hrun := suppression_returns rectNum hroom
    (show c.length < max enough (c.length + 1) by omega)
  have hpick := (hruns (max enough (c.length + 1)) (le_max_left _ _)).1
  obtain rfl := Except.ok.inj (hsort.symm.trans hrun.1)
  rw [hrun.2.1] at hpick
  rw [← hpicked, ← Except.ok.inj hpick, picked]

/-! ## When the pairs are judged rightly -/

/-! ## Exactly which candidates -/

/-- Of two candidates the second is picked first, if the first is not larger. -/
theorem sorted_pair {a b : OrdInfo} (h : rectArea b ≤ rectArea a) : sorted [b, a] = [b, a] := by
  rw [sorted, length_cons, length_singleton]
  simp only [Nat.add_sub_cancel, passes, carry, if_neg (not_lt.mpr h)]

theorem picked_pair {a b : OrdInfo} (h : rectArea b ≤ rectArea a) :
    picked [b, a] = if overlaps a b then [a] else [a, b] := by
  have hat : overlapsAt [b, a] 1 0 = overlaps a b := rfl
  rw [picked, sorted_pair h, kept]
  cases hover : overlaps a b with
  | true =>
    have hkept : pwFilter (Apart [b, a]) (range 2) = [1] := by
      refine (pwFilter_cons_of_neg fun hall => ?_)
      have happart := hall 1 (mem_singleton_self 1)
      rw [Apart, hat, hover] at happart
      cases happart
    exact congrArg (fun l : List Nat => l.reverse.filterMap ([b, a][·]?)) hkept
  | false =>
    have hkept : pwFilter (Apart [b, a]) (range 2) = [0, 1] := by
      refine (pwFilter_cons_of_pos fun i hi => ?_)
      obtain rfl := mem_singleton.mp hi
      rw [Apart, hat, hover]
    exact congrArg (fun l : List Nat => l.reverse.filterMap ([b, a][·]?)) hkept

/-- Exactly the rectangles of a set on which the 32-bit arithmetic judges every pair rightly can be
candidates together, in every number and order. -/
theorem suppression_settled (S : Set (Nat × Nat × Nat × Nat)) (rectNum : Nat) :
    (∀ c, Filtered c → (∀ r ∈ c, r.box ∈ S) → ∃ p, Suppression rectNum c p) ↔ Judged S := by
  constructor
  · intro hall a b haS hbS hab
    let a' : OrdInfo := { a with root := 1 }
    let b' : OrdInfo := { b with root := 0 }
    have hroom : [b', a'].length ≤ rectMidResultNumMax := by
      rw [length_cons, length_singleton, rectMidResultNumMax]
      omega
    have hfiltered : Filtered [b', a'] := ⟨hroom, pairwise_pair.mpr Nat.zero_lt_one⟩
    have hboxes : ∀ r ∈ [b', a'], r.box ∈ S := by
      intro r hr
      rcases mem_pair.mp hr with rfl | rfl
      · exact hbS
      · exact haS
    obtain ⟨p, hp⟩ := hall [b', a'] hfiltered hboxes
    obtain rfl := hp.picked_eq hroom
    have hpair := picked_pair (a := a') (b := b') hab
    by_cases hover : overlaps a b = true
    · have hone : picked [b', a'] = [a'] := hpair.trans (if_pos hover)
      rcases hp.covered b' mem_cons_self with hmem | ⟨r, hr, harea, hcovers⟩
      · rw [hone] at hmem
        have hroot := congrArg OrdInfo.root (mem_singleton.mp hmem)
        cases hroot
      · rw [hone] at hr
        obtain rfl := mem_singleton.mp hr
        exact ⟨harea, fun _ => hcovers⟩
    · have htwo : picked [b', a'] = [a', b'] := hpair.trans (if_neg hover)
      have hord := hp.ordered
      rw [htwo] at hord
      exact ⟨(pairwise_cons.mp hord).1 b' (mem_singleton_self b'), fun h => absurd h hover⟩
  · exact fun hS c hc hmem => ⟨picked c, suppression_of_judged hS rectNum hc hmem⟩

/-- The rectangles of two components of a map with 22000 rows of 20000: an angle at its first row
and column, and one at its last. They have 8800 rows in common. -/
def angles : List OrdInfo := [⟨0, 19999, 0, 15399, 0⟩, ⟨0, 19999, 6600, 21999, 1⟩]

/-- Seven times their area is no `int`, and the first is suppressed with 57 % of it covered. -/
theorem angles_suppressed :
    (∃ t, filterRects 0 0 t = .ok angles) ∧ Filtered angles ∧
      ∀ rectNum, ¬ ∃ p, Suppression rectNum angles p := by
  have hroom : angles.length ≤ rectMidResultNumMax := by
    rw [angles, length_cons, length_singleton, rectMidResultNumMax]
    omega
  refine ⟨⟨⟨2, fun l => if l = 0 then ⟨0, 19999, 0, 15399, 0⟩ else ⟨0, 19999, 6600, 21999, 1⟩,
    id, id⟩, rfl⟩, ⟨hroom, pairwise_pair.mpr Nat.zero_lt_one⟩, fun rectNum ⟨p, hp⟩ => ?_⟩
  obtain rfl := hp.picked_eq hroom
  have hcovered := hp.covered ⟨0, 19999, 0, 15399, 0⟩ mem_cons_self
  rcases hcovered with hmem | ⟨r, hr, -, hcovers⟩
  · cases congrArg OrdInfo.root (mem_singleton.mp hmem)
  · obtain rfl := mem_singleton.mp hr
    exact absurd hcovers (by decide)

end FullhanRtos.Motion
