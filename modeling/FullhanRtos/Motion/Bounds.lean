import FullhanRtos.Motion.Components
import FullhanRtos.Motion.Coverage

/-!
# Indices of the rectangle merge

`getOrdFromGau` as a whole, with every index into its run, label and rectangle arrays checked
against the entries they are allocated with. The row arrays have an entry for two columns, the label
tables one for two pixels; `merge_inside_iff` says for which maps that is enough.
-/

namespace FullhanRtos.Motion

open Bytes Faults Function List Nat Bool Option Nat

/-- The entries of `rtable`, and of `next` and `tail`. -/
structure Room where
  rtable : Nat
  next : Nat

/-- `FH_SINT32` counts; a loop up to a negative one does not run. -/
def extent (count : BitVec 32) : Nat := count.toInt.toNat

def Room.of (W H : Nat) : Room := ⟨tableRoom W H 10, tableRoom W H 2⟩

/-! ## The labelling with its indices checked -/

/-- `relabel` with checks and a bound on its length. -/
def relabelIn (room : Room) (next : Nat → Nat) (root : Nat) :
    Nat → Nat → (Nat → OrdInfo) → Except Fault (Nat → OrdInfo)
  | 0, _, _ => .error .endless
  | fuel + 1, k, rtable =>
    if k = 65535 then .ok rtable
    else (check room.rtable k).bind fun _ => (check room.next k).bind fun _ =>
      relabelIn room next root fuel (next k)
        (update rtable k { rtable k with root := u16 root })

/-- The stores of `joinRoots` behind its loop. -/
def joinTables (root node : Nat) (t : Labels) (rtable : Nat → OrdInfo) : Labels :=
  let ord := rtable root
  let other := rtable node
  { t with
    rtable := update rtable root
      { ord with y1 := min ord.y1 other.y1, y2 := max ord.y2 other.y2,
                 x1 := min ord.x1 other.x1, x2 := max ord.x2 other.x2 }
    next := update t.next (t.tail root) (u16 node)
    tail := update t.tail root (t.tail node) }

def joinRootsIn (room : Room) (fuel root node : Nat) (t : Labels) : Except Fault Labels :=
  (relabelIn room t.next root fuel node t.rtable).bind fun rtable =>
    (check room.next root).bind fun _ => (check room.next (t.tail root)).bind fun _ =>
      (check room.next node).bind fun _ => (check room.rtable root).bind fun _ =>
        (check room.rtable node).map fun _ => joinTables root node t rtable

def connectIn (room : Room) (fuel i : Nat) (curr : Run) (lastLabel : Nat) (t : Labels) :
    Option Nat → Except Fault (Labels × Option Nat)
  | none => (check room.rtable lastLabel).bind fun _ =>
    (check room.rtable (t.rtable lastLabel).root).map fun _ =>
      (extendRoot i curr (t.rtable lastLabel).root t, some lastLabel)
  | some currentLabel =>
    (check room.rtable lastLabel).bind fun _ => (check room.rtable currentLabel).bind fun _ =>
      let u := (t.rtable lastLabel).root
      let v := (t.rtable currentLabel).root
      if u = v then .ok (t, some currentLabel)
      else if u < v then (joinRootsIn room fuel u v t).map fun t => (t, some currentLabel)
      else (joinRootsIn room fuel v u t).map fun t => (t, some currentLabel)

def scanPrevIn (room : Room) (fuel i : Nat) (curr : Run) (t : Labels) (currentLabel : Option Nat) :
    List (Run × Nat) → Except Fault (Labels × Option Nat × List (Run × Nat))
  | [] => .ok (t, currentLabel, [])
  | (last, lastLabel) :: rest =>
    (if isConnected last curr then connectIn room fuel i curr lastLabel t currentLabel
      else .ok (t, currentLabel)).bind fun (t, currentLabel) =>
      if curr.tail ≤ last.tail then
        .ok (t, currentLabel, if last.tail ≤ curr.tail then rest else (last, lastLabel) :: rest)
      else scanPrevIn room fuel i curr t currentLabel rest

def labelRunIn (W H fuel i : Nat) (curr : Run) (t : Labels) (prev : List (Run × Nat)) :
    Except Fault (Labels × Nat × List (Run × Nat)) :=
  (scanPrevIn (.of W H) fuel i curr t none prev).bind fun
    | (t, some currentLabel, prev) => .ok (t, currentLabel, prev)
    | (t, none, prev) =>
      match newLabel W H i curr t with
      | some t' => .ok (t', t.label, prev)
      | none => .error .outside

def labelRunsIn (W H fuel i : Nat) (t : Labels) (prev : List (Run × Nat)) :
    List Run → Except Fault (Labels × List (Run × Nat))
  | [] => .ok (t, [])
  | curr :: runs =>
    (labelRunIn W H fuel i curr t prev).bind fun (t, currentLabel, prev) =>
      (labelRunsIn W H fuel i t prev runs).map fun (t, labelled) =>
        (t, (curr, currentLabel) :: labelled)

/-- The arrays of a row have `runLabelW` entries. -/
def labelRowIn (above : Nat → Bool) (W H fuel i : Nat) (t : Labels) (last : List (Run × Nat)) :
    Except Fault (Labels × List (Run × Nat)) :=
  let runs := scanRow above W (i * W)
  if runs.length ≤ W / 2 then labelRunsIn W H fuel i t last runs else .error .outside

def labelRowsIn (above : Nat → Bool) (W H fuel : Nat) (t : Labels) :
    Nat → Except Fault (Labels × List (Run × Nat))
  | 0 => .ok ({ t with label := 0 }, [])
  | i + 1 => (labelRowsIn above W H fuel t i).bind fun (t, last) =>
    labelRowIn above W H fuel i t last

/-- The whole of `getOrdFromGau`; the filter reads the entries of `rtable` before `label`. -/
def mergeRects (foreground : Nat → Byte) (thresh horizontalCount verticalCount : BitVec 32)
    (areaThW areaThH rectNum : Nat) (tables : Labels) (fuel : Nat) : Except Fault (List Rect) :=
  let W := extent horizontalCount
  let H := extent verticalCount
  (labelRowsIn (isForeground foreground thresh) W H fuel tables H).bind fun (t, _) =>
    if t.label ≤ (Room.of W H).rtable then
      (filterRects areaThW areaThH t).bind fun rectResult => reportRects fuel rectNum rectResult
    else .error .outside

/-! ## The runs of a row -/

variable {above : Nat → Bool} {W H i n m : Nat} {p : Nat → Bool}

/-- A pixel that a run ends at. -/
def isEnd (above : Nat → Bool) (W posLine j : Nat) : Bool :=
  above (posLine + j) && (j + 1 == W || !above (posLine + j + 1))

/-- Foreground at exactly every other pixel, from the first to the last. -/
def Alternating (above : Nat → Bool) (W posLine : Nat) : Prop :=
  W % 2 = 1 ∧ ∀ j < W, (above (posLine + j) = true ↔ j % 2 = 0)

theorem length_scan_row (above : Nat → Bool) (W posLine : Nat) :
    (scanRow above W posLine).length = (List.range W).countP (isEnd above W posLine) := by
  have hscan : ∀ n, ((List.range n).foldl (scanPixel above W posLine) ⟨0, []⟩).runs.length =
      (List.range n).countP (isEnd above W posLine) := by
    intro n
    induction n with
    | zero => rfl
    | succ n ih =>
      rw [range_succ, foldl_append, foldl_cons, foldl_nil,
        countP_append, countP_singleton, ← ih, scanPixel]
      cases habove : above (posLine + n) with
      | false =>
        rw [if_neg Bool.false_ne_true, isEnd, habove, Bool.false_and, if_neg Bool.false_ne_true]
        rfl
      | true =>
        by_cases hend : n + 1 = W ∨ ¬ above (posLine + n + 1) = true
        · have hisEnd : isEnd above W posLine n = true := by
            rw [isEnd, habove, Bool.true_and, or_eq_true, beq_iff_eq, not_eq_true']
            exact hend.imp_right eq_false_of_not_eq_true
          rw [if_pos hend, if_pos hisEnd]
          exact length_append
        · have hisEnd : ¬ isEnd above W posLine n = true := by
            rw [isEnd, habove, Bool.true_and, or_eq_true, beq_iff_eq, not_eq_true']
            exact fun h => hend (h.imp_right fun hf => by rw [hf]; exact Bool.false_ne_true)
          rw [if_neg hend, if_neg hisEnd]
          rfl
  exact hscan W

/-- Of two neighbours at most one is counted. -/
def Sparse (p : Nat → Bool) (n : Nat) : Prop := ∀ j, j + 1 < n → ¬ (p j = true ∧ p (j + 1) = true)

theorem count_two (p : Nat → Bool) (n : Nat) :
    (List.range (n + 2)).countP p = (List.range n).countP p +
      ((if p n then 1 else 0) + if p (n + 1) then 1 else 0) := by
  rw [range_succ, range_succ, countP_append, countP_append,
    countP_singleton, countP_singleton, add_assoc]

theorem Sparse.pair_le (h : Sparse p (n + 2)) :
    (if p n then 1 else 0) + (if p (n + 1) then 1 else 0) ≤ 1 := by
  have hn := h n (lt_succ_self _)
  cases hp : p n with
  | false =>
    rw [if_neg Bool.false_ne_true]
    split <;> omega
  | true =>
    rw [if_pos rfl, if_neg fun hp' => hn ⟨hp, hp'⟩]

theorem Sparse.mono (h : Sparse p n) (hm : m ≤ n) : Sparse p m :=
  fun j hj => h j (hj.trans_le hm)

theorem Sparse.count_even (h : Sparse p (2 * m)) :
    (List.range (2 * m)).countP p ≤ m := by
  induction m with
  | zero => exact le_refl 0
  | succ m ih =>
    have hrest := ih (h.mono (by omega))
    have hpair := Sparse.pair_le (n := 2 * m) h
    rw [mul_succ, count_two]
    omega

/-- An odd number of pixels has one more than half of them counted only if they alternate. -/
theorem Sparse.count_odd (h : Sparse p (2 * m + 1)) :
    (List.range (2 * m + 1)).countP p ≤ m + 1 ∧
      ((List.range (2 * m + 1)).countP p = m + 1 ↔ ∀ j < 2 * m + 1, (p j = true ↔ j % 2 = 0)) := by
  induction m with
  | zero =>
    have hone : (List.range (2 * 0 + 1)).countP p = if p 0 then 1 else 0 := countP_singleton
    rw [hone]
    refine ⟨by split <;> decide, fun heq j hj => ?_, fun hall => ?_⟩
    · obtain rfl : j = 0 := by omega
      refine iff_of_true ?_ rfl
      by_contra hp
      rw [if_neg hp] at heq
      cases heq
    · rw [if_pos ((hall 0 (by omega)).mpr rfl)]
  | succ m ih =>
    have hrest := ih (h.mono (by omega))
    have hpair := Sparse.pair_le (n := 2 * m + 1) h
    have hsparse := h (2 * m) (by omega)
    rw [show 2 * (m + 1) + 1 = 2 * m + 1 + 2 by omega, count_two]
    refine ⟨by omega, fun heq j hj => ?_, fun hall => ?_⟩
    · have hall := hrest.2.mp (by omega)
      have hlast : p (2 * m) = true := (hall (2 * m) (by omega)).mpr (by omega)
      have hmid : p (2 * m + 1) = false := eq_false_of_not_eq_true fun hp => hsparse ⟨hlast, hp⟩
      have hend : p (2 * m + 1 + 1) = true := by
        by_contra hp
        rw [hmid, if_neg hp, if_neg Bool.false_ne_true] at heq
        omega
      rcases lt_or_ge j (2 * m + 1) with hlt | hge
      · exact hall j hlt
      · rcases eq_or_lt_of_le hge with rfl | hgt
        · rw [hmid]
          exact iff_of_false Bool.false_ne_true (by omega)
        · obtain rfl : j = 2 * m + 1 + 1 := by omega
          exact iff_of_true hend (by omega)
    · have hcount := hrest.2.mpr fun j hj => hall j (by omega)
      have hmid : p (2 * m + 1) ≠ true := fun hp => by
        have hodd := (hall (2 * m + 1) (by omega)).mp hp
        omega
      rw [hcount, if_neg hmid, if_pos ((hall (2 * m + 1 + 1) (by omega)).mpr (by omega))]

theorem isEnd_sparse (above : Nat → Bool) (W posLine : Nat) : Sparse (isEnd above W posLine) W := by
  intro j hj ⟨hend, hnext⟩
  rw [isEnd, and_eq_true] at hend hnext
  rcases or_eq_true _ _ ▸ hend.2 with hlast | hnot
  · exact absurd (beq_iff_eq.mp hlast) hj.ne
  · rw [add_assoc] at hnot
    rw [hnext.1] at hnot
    cases hnot

/-- The pixels that runs end at alternate exactly if the foreground does. -/
theorem alternating_iff (above : Nat → Bool) (posLine : Nat) (hodd : W % 2 = 1) :
    (∀ j < W, (isEnd above W posLine j = true ↔ j % 2 = 0)) ↔ Alternating above W posLine := by
  constructor
  · refine fun hall => ⟨hodd, fun j hj => ⟨fun habove => ?_, fun heven => ?_⟩⟩
    · by_contra hne
      have hprev := (hall (j - 1) (by omega)).mpr (by omega)
      rw [isEnd, and_eq_true, or_eq_true, beq_iff_eq, not_eq_true',
        show posLine + (j - 1) + 1 = posLine + j by omega, habove] at hprev
      rcases hprev.2 with hlast | hfalse
      · omega
      · cases hfalse
    · have hend := (hall j hj).mpr heven
      rw [isEnd, and_eq_true] at hend
      exact hend.1
  · intro ⟨_, hall⟩ j hj
    rw [isEnd, and_eq_true, or_eq_true, beq_iff_eq, not_eq_true', hall j hj]
    refine ⟨fun h => h.1, fun heven => ⟨heven, ?_⟩⟩
    rcases eq_or_lt_of_le (succ_le_of_lt hj) with heq | hlt
    · exact .inl heq
    · refine .inr (eq_false_of_not_eq_true fun habove => ?_)
      have hnext := (hall (j + 1) hlt).mp habove
      omega

theorem row_fits_iff (above : Nat → Bool) (W posLine : Nat) :
    (scanRow above W posLine).length ≤ W / 2 ↔ ¬ Alternating above W posLine := by
  have hsparse := isEnd_sparse above W posLine
  rw [length_scan_row]
  rcases mod_two_eq_zero_or_one W with heven | hodd
  · have hW : W = 2 * (W / 2) := by omega
    have hcount : (List.range W).countP (isEnd above W posLine) ≤ W / 2 := by
      have hle := Sparse.count_even (m := W / 2) (hW ▸ hsparse)
      rwa [← hW] at hle
    exact iff_of_true hcount fun halt => by
      have hodd := halt.1
      omega
  · have hW : W = 2 * (W / 2) + 1 := by omega
    obtain ⟨hle, hiff⟩ := Sparse.count_odd (m := W / 2) (p := isEnd above W posLine) (hW ▸ hsparse)
    rw [← hW, alternating_iff above posLine hodd] at hiff
    rw [← hW] at hle
    rw [← hiff]
    omega

/-! ## The labels that are opened -/

/-- Whether a run is connected to one of the runs above that are left, and which are left for the
next one. -/
def reaches (curr : Run) : List Run → Bool × List Run
  | [] => (false, [])
  | last :: rest =>
    if curr.tail ≤ last.tail then
      (isConnected last curr, if last.tail ≤ curr.tail then rest else last :: rest)
    else (isConnected last curr || (reaches curr rest).1, (reaches curr rest).2)

def opens (curr : Run) (prev : List Run) : Nat := if (reaches curr prev).1 then 0 else 1

/-- The runs of a row that are connected to none above. -/
def openRuns (prev : List Run) : List Run → Nat
  | [] => 0
  | curr :: runs => opens curr prev + openRuns (reaches curr prev).2 runs

def rowAbove (above : Nat → Bool) (W : Nat) : Nat → List Run
  | 0 => []
  | i + 1 => scanRow above W (i * W)

/-- The labels that the rows before `i` open. -/
def openings (above : Nat → Bool) (W : Nat) : Nat → Nat
  | 0 => 0
  | i + 1 => openings above W i + openRuns (rowAbove above W i) (scanRow above W (i * W))

theorem openings_mono (above : Nat → Bool) (W : Nat) (h : i ≤ n) :
    openings above W i ≤ openings above W n := by
  induction n, h using le_induction with
  | base => exact le_rfl
  | succ n _ ih => exact ih.trans (le_add_right _ _)

/-- The tables have entries for the first `n` labels. -/
def Room.Fits (room : Room) (n : Nat) : Prop := n ≤ room.rtable ∧ n ≤ room.next

theorem Room.Fits.mono {room : Room} (h : room.Fits n) (hm : m ≤ n) : room.Fits m :=
  ⟨hm.trans h.1, hm.trans h.2⟩

theorem has_room_iff {l : Nat} : hasRoom W H l = true ↔ (Room.of W H).Fits (l + 1) :=
  decide_eq_true_iff

/-! ## Each step -/

/-- Every stored label is in use, and those in use have entries. -/
structure Inside (room : Room) (t : Labels) : Prop where
  fits : room.Fits t.label
  root_lt : ∀ l < t.label, t.rootOf l < t.label
  next_lt : ∀ l < t.label, t.next l = 65535 ∨ t.next l < t.label
  tail_lt : ∀ l < t.label, t.tail l < t.label

/-- What makes the loops over chains end. -/
def Ends (live : Prop) (fuel : Nat) (t : Labels) : Prop := live → 65536 ≤ fuel ∧ Rooted t

/-- The tables after a step that opens no label. -/
structure Kept (room : Room) (live : Prop) (fuel : Nat) (t t' : Labels) : Prop where
  inside : Inside room t'
  ends : Ends live fuel t'
  label : t'.label = t.label

variable {room : Room} {live : Prop} {fuel root node k : Nat} {t : Labels} {curr : Run}
  {prev : List (Run × Nat)} {currentLabel : Option Nat} {rtable : Nat → OrdInfo}

theorem u16_le (n : Nat) : u16 n ≤ n := mod_le n 65536

theorem relabel_in_ok (h : Inside room t) (hroot : root < t.label) (hk : k = 65535 ∨ k < t.label)
    (hrt : ∀ l < t.label, (rtable l).root < t.label)
    (hlive : live → ∃ chain, NullList.IsList t.link (ptr k) chain ∧ chain.length < fuel) :
    Outcome live True (fun rtable' => (∀ l < t.label, (rtable' l).root < t.label) ∧
        relabel t.next root fuel k rtable = some rtable')
      (relabelIn room t.next root fuel k rtable) := by
  induction fuel generalizing k rtable with
  | zero =>
    intro hl
    obtain ⟨chain, -, hlt⟩ := hlive hl
    exact not_lt_zero _ hlt
  | succ fuel ih =>
    rw [relabelIn, relabel]
    by_cases hend : k = 65535
    · rw [if_pos hend, if_pos hend]
      exact ⟨trivial, hrt, rfl⟩
    · have hlt := hk.resolve_left hend
      rw [if_neg hend, if_neg hend, check_lt (hlt.trans_le h.fits.1)]
      rw [check_lt (hlt.trans_le h.fits.2)]
      refine ih (h.next_lt k hlt) (fun l hl => ?_) fun hl => ?_
      · rcases eq_or_ne l k with rfl | hne
        · rw [update_self]
          exact (u16_le root).trans_lt hroot
        · rw [update_of_ne hne]
          exact hrt l hl
      · obtain ⟨chain, hlist, hlen⟩ := hlive hl
        rw [ptr, if_neg hend] at hlist
        cases chain with
        | nil => cases hlist
        | cons x chain =>
          obtain rfl : k = x := some.inj hlist.1
          exact ⟨chain, hlist.2, lt_of_succ_lt_succ hlen⟩

theorem join_roots_eq (root node : Nat) (t : Labels) :
    joinRoots root node t =
      (relabel t.next root (t.label + 1) node t.rtable).map (joinTables root node t) := rfl

theorem Inside.joined (h : Inside room t) (hr : root < t.label) (hn : node < t.label)
    (hrt : ∀ l < t.label, (rtable l).root < t.label) :
    Inside room (joinTables root node t rtable) where
  fits := h.fits
  root_lt l hl := by
    have hroot : (joinTables root node t rtable).rootOf l = (rtable l).root := by
      rcases eq_or_ne l root with rfl | hne
      · simp only [Labels.rootOf, joinTables, update_self]
      · exact congrArg OrdInfo.root (update_of_ne hne _ _)
    rw [hroot]
    exact hrt l hl
  next_lt l hl := by
    simp only [joinTables]
    rcases eq_or_ne l (t.tail root) with rfl | hne
    · rw [update_self]
      exact .inr ((u16_le node).trans_lt hn)
    · rw [update_of_ne hne]
      exact h.next_lt l hl
  tail_lt l hl := by
    simp only [joinTables]
    rcases eq_or_ne l root with rfl | hne
    · rw [update_self]
      exact h.tail_lt node hn
    · rw [update_of_ne hne]
      exact h.tail_lt l hl

theorem join_roots_in_ok (h : Inside room t) (hends : Ends live fuel t) (hr : root < t.label)
    (hn : node < t.label) (hroots : live → t.IsRoot root ∧ t.IsRoot node) (hne : root ≠ node) :
    Outcome live True (Kept room live fuel t) (joinRootsIn room fuel root node t) := by
  have hlist : live → ∃ chain, NullList.IsList t.link (ptr node) chain ∧
      chain.length ≤ t.label ∧ t.label < fuel := by
    intro hl
    obtain ⟨hfuel, hrooted⟩ := hends hl
    obtain ⟨chain, hchain⟩ := hrooted.chain node (hroots hl).2
    have hptr : ptr node = some node := ptr_of_lt (hn.trans_le hrooted.label_le)
    exact ⟨chain, hptr ▸ hchain.list, hchain.length_le,
      (lt_succ_of_le hrooted.label_le).trans_le hfuel⟩
  have hchains : live → ∃ chain, NullList.IsList t.link (ptr node) chain ∧ chain.length < fuel :=
    fun hl => by
      obtain ⟨chain, hchain, hlen, hfuel⟩ := hlist hl
      exact ⟨chain, hchain, hlen.trans_lt hfuel⟩
  refine (relabel_in_ok h hr (.inr hn) h.root_lt hchains).bind id ?_
  intro rtable _ ⟨hrt, hloop⟩
  have htail := h.tail_lt root hr
  rw [check_lt (hr.trans_le h.fits.2)]
  rw [check_lt (htail.trans_le h.fits.2)]
  rw [check_lt (hn.trans_le h.fits.2)]
  rw [check_lt (hr.trans_le h.fits.1)]
  rw [check_lt (hn.trans_le h.fits.1)]
  refine ⟨trivial, h.joined hr hn hrt, fun hl => ⟨(hends hl).1, ?_⟩, rfl⟩
  obtain ⟨chain, hchain, hlen, hfuel⟩ := hlist hl
  have hbig := @relabel_chain root node chain t.next fuel t.rtable hchain
    (hlen.trans_lt hfuel)
  have hsmall := @relabel_chain root node chain t.next (t.label + 1) t.rtable hchain
    (lt_succ_of_le hlen)
  obtain ⟨t', hjoin, hjoins⟩ := join_roots_ok (hends hl).2 (hroots hl).1 (hroots hl).2 hne
  have hrt' : rtable = fun l =>
      if l ∈ chain then { t.rtable l with root := u16 root } else t.rtable l :=
    some.inj (hloop.symm.trans hbig)
  rw [join_roots_eq, hsmall, ← hrt'] at hjoin
  exact some.inj hjoin ▸ hjoins.rooted

theorem Inside.extend_root (h : Inside room t) (i : Nat) (curr : Run) (root : Nat) :
    Inside room (extendRoot i curr root t) where
  fits := h.fits
  root_lt l hl := by
    rw [root_of_extend_root]
    exact h.root_lt l hl
  next_lt := h.next_lt
  tail_lt := h.tail_lt

theorem Inside.opened {t' : Labels} (h : Inside (.of W H) t)
    (hnew : newLabel W H i curr t = some t') :
    Inside (.of W H) t' ∧ t'.label = t.label + 1 := by
  rw [newLabel] at hnew
  split at hnew
  next hroom =>
    cases hnew
    have hself := (u16_le t.label).trans_lt (lt_succ_self t.label)
    refine ⟨⟨has_room_iff.mp hroom, fun l hl => ?_, fun l hl => ?_, fun l hl => ?_⟩, rfl⟩
    · rcases Nat.lt_succ_iff_lt_or_eq.mp hl with hlt | rfl
      · simp only [Labels.rootOf, update_of_ne hlt.ne]
        exact (h.root_lt l hlt).trans (lt_succ_self _)
      · simp only [Labels.rootOf, update_self]
        exact hself
    · rcases Nat.lt_succ_iff_lt_or_eq.mp hl with hlt | rfl
      · simp only [update_of_ne hlt.ne]
        exact (h.next_lt l hlt).imp_right fun hn => hn.trans (lt_succ_self _)
      · simp only [update_self]
        exact .inl trivial
    · rcases Nat.lt_succ_iff_lt_or_eq.mp hl with hlt | rfl
      · simp only [update_of_ne hlt.ne]
        exact (h.tail_lt l hlt).trans (lt_succ_self _)
      · simp only [update_self]
        exact hself
  next => cases hnew

theorem connect_in_ok {lastLabel : Nat} (i : Nat) (curr : Run) (h : Inside room t)
    (hends : Ends live fuel t) (hlast : lastLabel < t.label)
    (hcurr : ∀ l ∈ currentLabel, l < t.label) :
    Outcome live True (fun r => Kept room live fuel t r.1 ∧ r.2.isSome ∧ ∀ l ∈ r.2, l < t.label)
      (connectIn room fuel i curr lastLabel t currentLabel) := by
  have hu := h.root_lt lastLabel hlast
  cases currentLabel with
  | none =>
    rw [connectIn, check_lt (hlast.trans_le h.fits.1)]
    rw [Labels.rootOf] at hu
    rw [check_lt (hu.trans_le h.fits.1)]
    refine ⟨trivial, ⟨h.extend_root i curr _, fun hl => ?_, rfl⟩, rfl, fun l hl => ?_⟩
    · exact ⟨(hends hl).1, (hends hl).2.extend_root i curr _⟩
    · rw [← some.inj hl]
      exact hlast
  | some currentLabel =>
    have hin := hcurr currentLabel rfl
    have hv := h.root_lt currentLabel hin
    have hkept : Kept room live fuel t t := ⟨h, hends, rfl⟩
    have hstays : ∀ t', Kept room live fuel t t' →
        Kept room live fuel t t' ∧ (some currentLabel).isSome ∧
          ∀ l ∈ some currentLabel, l < t.label := fun t' hk =>
      ⟨hk, rfl, fun l hl => some.inj hl ▸ hin⟩
    rw [connectIn, check_lt (hlast.trans_le h.fits.1)]
    rw [check_lt (hin.trans_le h.fits.1)]
    dsimp only
    split
    · exact ⟨trivial, hstays t hkept⟩
    · rename_i hne
      split
      · refine (join_roots_in_ok h hends hu hv (fun hl => ?_) hne).map fun t' ht' => hstays t' ht'
        exact ⟨(hends hl).2.isRoot hlast, (hends hl).2.isRoot hin⟩
      · refine (join_roots_in_ok h hends hv hu (fun hl => ?_) (Ne.symm hne)).map
          fun t' ht' => hstays t' ht'
        exact ⟨(hends hl).2.isRoot hin, (hends hl).2.isRoot hlast⟩

/-! ## Each row -/

/-- What the walk over the runs above leaves. -/
structure Walked (room : Room) (live : Prop) (fuel : Nat) (curr : Run) (t : Labels)
    (currentLabel : Option Nat) (prev : List (Run × Nat)) (t' : Labels) (label' : Option Nat)
    (prev' : List (Run × Nat)) : Prop where
  kept : Kept room live fuel t t'
  found : label'.isSome = (currentLabel.isSome || (reaches curr (prev.map Prod.fst)).1)
  label_lt : ∀ l ∈ label', l < t.label
  rest : prev'.map Prod.fst = (reaches curr (prev.map Prod.fst)).2
  rest_lt : ∀ x ∈ prev', x.2 < t.label

/-- By induction on the runs above that are left. -/
theorem scan_prev_in_ok (i : Nat) (h : Inside room t) (hends : Ends live fuel t)
    (hcurr : ∀ l ∈ currentLabel, l < t.label) (hprev : ∀ x ∈ prev, x.2 < t.label) :
    Outcome live True
      (fun r => Walked room live fuel curr t currentLabel prev r.1 r.2.1 r.2.2)
      (scanPrevIn room fuel i curr t currentLabel prev) := by
  induction prev generalizing t currentLabel with
  | nil =>
    refine ⟨trivial, ⟨h, hends, rfl⟩, (Bool.or_false _).symm, hcurr, rfl, hprev⟩
  | cons x prev ih =>
    obtain ⟨last, lastLabel⟩ := x
    have hlast : lastLabel < t.label := hprev _ mem_cons_self
    have hrest : ∀ x ∈ prev, x.2 < t.label := fun x hx => hprev x (mem_cons_of_mem _ hx)
    have hstep : Outcome live True (fun r : Labels × Option Nat => Kept room live fuel t r.1 ∧
        r.2.isSome = (currentLabel.isSome || isConnected last curr) ∧ ∀ l ∈ r.2, l < t.label)
        (if isConnected last curr then connectIn room fuel i curr lastLabel t currentLabel
          else .ok (t, currentLabel)) := by
      split
      next hconn =>
        refine (connect_in_ok i curr h hends hlast hcurr).mono fun r ⟨hkept, hsome, hlt⟩ =>
          ⟨hkept, ?_, hlt⟩
        rw [hsome, hconn, Bool.or_true]
      next hconn =>
        refine ⟨trivial, ⟨h, hends, rfl⟩, ?_, hcurr⟩
        rw [eq_false_of_not_eq_true hconn, Bool.or_false]
    refine hstep.bind id fun ⟨t', label'⟩ _ ⟨hkept, hsome, hlt⟩ => ?_
    have hreaches : reaches curr (((last, lastLabel) :: prev).map Prod.fst) =
        if curr.tail ≤ last.tail then
          (isConnected last curr, if last.tail ≤ curr.tail then prev.map Prod.fst
            else last :: prev.map Prod.fst)
        else (isConnected last curr || (reaches curr (prev.map Prod.fst)).1,
          (reaches curr (prev.map Prod.fst)).2) := rfl
    dsimp only at hkept hsome hlt ⊢
    split
    next hskip =>
      rw [if_pos hskip] at hreaches
      refine ⟨trivial, hkept, ?_, hlt, ?_, ?_⟩
      · rw [hreaches]
        exact hsome
      · rw [hreaches]
        exact apply_ite (List.map Prod.fst) _ prev _
      · split
        · exact hrest
        · exact hprev
    next hskip =>
      rw [if_neg hskip] at hreaches
      have hlabel := hkept.label
      refine (ih hkept.inside hkept.ends (fun l hl => hlabel ▸ hlt l hl)
        fun x hx => hlabel ▸ hrest x hx).mono fun r hwalk => ?_
      refine ⟨⟨hwalk.kept.inside, hwalk.kept.ends, hwalk.kept.label.trans hlabel⟩, ?_,
        fun l hl => hlabel ▸ hwalk.label_lt l hl, ?_, fun x hx => hlabel ▸ hwalk.rest_lt x hx⟩
      · rw [hwalk.found, hsome, hreaches, Bool.or_assoc]
      · rw [hwalk.rest, hreaches]

/-- The tables while labels are opened, `count` of them so far. -/
structure Counted (W H : Nat) (live : Prop) (fuel count : Nat) (t : Labels) : Prop where
  inside : Inside (.of W H) t
  ends : Ends live fuel t
  label : t.label = count

theorem label_run_in_ok (i : Nat) (curr : Run) (h : Counted W H live fuel n t)
    (hprev : ∀ x ∈ prev, x.2 < n) (hcount : live → n + opens curr (prev.map Prod.fst) ≤ 65535) :
    Outcome live ((Room.of W H).Fits (n + opens curr (prev.map Prod.fst)))
      (fun r => Counted W H live fuel (n + opens curr (prev.map Prod.fst)) r.1 ∧
        r.2.1 < n + opens curr (prev.map Prod.fst) ∧
        r.2.2.map Prod.fst = (reaches curr (prev.map Prod.fst)).2 ∧ ∀ x ∈ r.2.2, x.2 < n)
      (labelRunIn W H fuel i curr t prev) := by
  obtain ⟨hin, hends, rfl⟩ := h
  have hnone : ∀ l ∈ (none : Option Nat), l < t.label := fun l hl =>
    absurd hl (not_mem_none l)
  refine (scan_prev_in_ok i hin hends hnone hprev).bind (fun _ => trivial)
    fun ⟨t', label', prev'⟩ _ hwalk => ?_
  have hkept := hwalk.kept
  have hfound := hwalk.found
  cases label' with
  | some l =>
    have hopens : opens curr (prev.map Prod.fst) = 0 := if_pos hfound.symm
    rw [hopens, add_zero]
    exact ⟨hkept.label ▸ hkept.inside.fits, ⟨hkept.inside, hkept.ends, hkept.label⟩,
      hwalk.label_lt l rfl, hwalk.rest, hwalk.rest_lt⟩
  | none =>
    have hopens : opens curr (prev.map Prod.fst) = 1 :=
      if_neg fun htrue => Bool.false_ne_true (hfound.trans htrue)
    rw [hopens] at hcount ⊢
    cases hroom : hasRoom W H t'.label with
    | false =>
      have hnone : newLabel W H i curr t' = none := if_neg (by rw [hroom]; exact Bool.false_ne_true)
      dsimp only
      rw [hnone]
      intro hfits
      rw [← hkept.label, ← has_room_iff, hroom] at hfits
      cases hfits
    | true =>
      have hnew : ∃ t'', newLabel W H i curr t' = some t'' := ⟨_, if_pos hroom⟩
      obtain ⟨t'', hnew⟩ := hnew
      obtain ⟨hin'', hlabel⟩ := hkept.inside.opened hnew
      dsimp only
      rw [hnew]
      refine ⟨hkept.label ▸ has_room_iff.mp hroom, ⟨hin'', fun hl => ⟨(hends hl).1, ?_⟩, ?_⟩,
        ?_, hwalk.rest, hwalk.rest_lt⟩
      · have hlt : t'.label < 65535 := by
          have hle := hcount hl
          rw [hkept.label]
          omega
        obtain ⟨_, hnew', hrooted, -⟩ := new_label_ok i curr (hkept.ends hl).2 hroom hlt
        exact some.inj (hnew.symm.trans hnew') ▸ hrooted
      · rw [hlabel, hkept.label]
      · exact hkept.label ▸ lt_succ_self _

/-- By induction on the runs of the row. -/
theorem label_runs_in_ok (i : Nat) (runs : List Run) (h : Counted W H live fuel n t)
    (hprev : ∀ x ∈ prev, x.2 < n) (hcount : live → n + openRuns (prev.map Prod.fst) runs ≤ 65535) :
    Outcome live ((Room.of W H).Fits (n + openRuns (prev.map Prod.fst) runs))
      (fun r => Counted W H live fuel (n + openRuns (prev.map Prod.fst) runs) r.1 ∧
        r.2.map Prod.fst = runs ∧ ∀ x ∈ r.2, x.2 < n + openRuns (prev.map Prod.fst) runs)
      (labelRunsIn W H fuel i t prev runs) := by
  induction runs generalizing t n prev with
  | nil => exact ⟨h.label ▸ h.inside.fits, h, rfl, fun x hx => absurd hx not_mem_nil⟩
  | cons curr runs ih =>
    rw [openRuns, ← add_assoc] at hcount ⊢
    refine (label_run_in_ok i curr h hprev fun hl => ?_).bind (fun hfits => ?_)
      fun ⟨t', l, prev'⟩ _ ⟨hcounted, hlt, hrest, hrest_lt⟩ => ?_
    · exact (le_add_right _ _).trans (hcount hl)
    · exact hfits.mono (le_add_right _ _)
    · dsimp only at hcounted hlt hrest hrest_lt ⊢
      rw [← hrest] at hcount ⊢
      refine (ih hcounted (fun x hx => ?_) hcount).map fun r ⟨hall, hmap, hbelow⟩ => ?_
      · exact (hrest_lt x hx).trans_le (le_add_right _ _)
      · refine ⟨hall, congrArg (curr :: ·) hmap, fun x hx => ?_⟩
        rcases mem_cons.mp hx with rfl | hx
        · exact hlt.trans_le (le_add_right _ _)
        · exact hbelow x hx

/-- No row before `i` alternates, and the labels that these rows open have entries. -/
def MapFits (above : Nat → Bool) (W H i : Nat) : Prop :=
  (∀ k < i, ¬ Alternating above W (k * W)) ∧ (Room.of W H).Fits (openings above W i)

theorem label_rows_in_ok (tables : Labels) (hfuel : live → 65536 ≤ fuel)
    (hcount : live → openings above W i ≤ 65535) :
    Outcome live (MapFits above W H i)
      (fun r => Counted W H live fuel (openings above W i) r.1 ∧
        r.2.map Prod.fst = rowAbove above W i ∧ ∀ x ∈ r.2, x.2 < openings above W i)
      (labelRowsIn above W H fuel tables i) := by
  induction i with
  | zero =>
    refine ⟨⟨fun k hk => absurd hk (not_lt_zero k), zero_le _, zero_le _⟩,
      ⟨⟨⟨zero_le _, zero_le _⟩, ?_, ?_, ?_⟩, fun hl => ⟨hfuel hl, ?_⟩, rfl⟩, rfl,
      fun x hx => absurd hx not_mem_nil⟩
    · exact fun l hl => absurd hl (not_lt_zero l)
    · exact fun l hl => absurd hl (not_lt_zero l)
    · exact fun l hl => absurd hl (not_lt_zero l)
    · exact (rows_done_zero above W tables).placing.rooted
  | succ i ih =>
    have hmono := openings_mono above W (le_succ i)
    refine (ih fun hl => hmono.trans (hcount hl)).bind (fun hfits => ?_)
      fun ⟨t, last⟩ hrows ⟨hcounted, hmap, hlt⟩ => ?_
    · exact ⟨fun k hk => hfits.1 k (lt_succ_of_lt hk), hfits.2.mono hmono⟩
    · have hrow := row_fits_iff above W (i * W)
      dsimp only at hcounted hmap hlt ⊢
      rw [labelRowIn]
      split
      next hle =>
        have hruns := label_runs_in_ok i (scanRow above W (i * W)) hcounted hlt
        rw [hmap] at hruns
        have hall : MapFits above W H (i + 1) ↔
            (Room.of W H).Fits (openings above W (i + 1)) := by
          refine and_iff_right fun k hk => ?_
          rcases Nat.lt_succ_iff_lt_or_eq.mp hk with hk | rfl
          · exact hrows.1 k hk
          · exact hrow.mp hle
        rw [hall]
        exact hruns hcount
      next hgt => exact fun hfits => hgt (hrow.mpr (hfits.1 i (lt_succ_self i)))

/-! ## The whole function -/

/-- Sort, suppression and output stay inside `rectResult`, `I`, `pick` and `suppress`. -/
theorem report_rects_in_ok {c : List OrdInfo} (fuel rectNum : Nat)
    (hroom : c.length ≤ rectMidResultNumMax) :
    Outcome (65536 ≤ fuel) True (fun _ => True) (reportRects fuel rectNum c) := by
  have hlen : (sorted c).length = c.length := (sorted_perm c).length_eq
  have hpick := (pick_rects_ok fuel (hlen.trans_le hroom)).weaken fun hfuel : 65536 ≤ fuel => by
      rw [rectMidResultNumMax] at hroom
      omega
  rw [reportRects, sort_rects_ok]
  refine hpick.bind id fun pick _ heq => ?_
  have hin : ∀ i ∈ pick, i < (sorted c).length := fun i hi => by
    rw [heq] at hi
    exact kept_lt (mem_reverse.mp hi)
  rw [← sorted, report_loop_ok rectNum [] hin]
  exact ⟨trivial, trivial⟩

theorem merge_rects_outcome (foreground : Nat → Byte)
    (thresh horizontalCount verticalCount : BitVec 32) (areaThW areaThH rectNum : Nat)
    (tables : Labels) (fuel : Nat) :
    Outcome (openings (isForeground foreground thresh) (extent horizontalCount)
        (extent verticalCount) ≤ 65535 ∧ 65536 ≤ fuel)
      (MapFits (isForeground foreground thresh) (extent horizontalCount) (extent verticalCount)
        (extent verticalCount)) (fun _ => True)
      (mergeRects foreground thresh horizontalCount verticalCount areaThW areaThH rectNum tables
        fuel) := by
  refine (label_rows_in_ok tables And.right And.left).bind id
    fun ⟨t, last⟩ hfits ⟨hcounted, _⟩ => ?_
  dsimp only at hcounted ⊢
  rw [if_pos hcounted.inside.fits.1]
  obtain ⟨c, hfilter, hc⟩ := filter_rects_filtered areaThW areaThH t
  rw [hfilter]
  exact ((report_rects_in_ok fuel rectNum hc.room).weaken And.right).imp_fits trivial hfits

/-- No run of the function, however long, indexes outside of its arrays. -/
def StaysInside (foreground : Nat → Byte) (thresh horizontalCount verticalCount : BitVec 32)
    (areaThW areaThH rectNum : Nat) (tables : Labels) : Prop :=
  ∀ fuel, mergeRects foreground thresh horizontalCount verticalCount areaThW areaThH rectNum tables
    fuel ≠ .error .outside

/-- A map whose rows do not alternate over an odd width, and whose labels the tables have entries
for; and only such a map, as long as there are labels for 16 bits. -/
theorem merge_inside_iff (foreground : Nat → Byte)
    (thresh horizontalCount verticalCount : BitVec 32) (areaThW areaThH rectNum : Nat)
    (tables : Labels) :
    (MapFits (isForeground foreground thresh) (extent horizontalCount) (extent verticalCount)
        (extent verticalCount) →
      StaysInside foreground thresh horizontalCount verticalCount areaThW areaThH rectNum tables) ∧
    (openings (isForeground foreground thresh) (extent horizontalCount)
        (extent verticalCount) ≤ 65535 →
      StaysInside foreground thresh horizontalCount verticalCount areaThW areaThH rectNum tables →
      MapFits (isForeground foreground thresh) (extent horizontalCount) (extent verticalCount)
        (extent verticalCount)) := by
  have hrun := merge_rects_outcome foreground thresh horizontalCount verticalCount areaThW areaThH
    rectNum tables
  constructor
  · exact fun hfits fuel => (hrun fuel).inside hfits
  · exact fun hcount hstays => (hrun 65536).fits_of_live ⟨hcount, le_rfl⟩ (hstays 65536)

/-- Two runs in a row of three pixels, whose arrays have one entry. -/
theorem two_runs_leave :
    ¬ StaysInside (fun pos => if pos = 1 then 0 else 1) 1 3 1 0 0 1 anyTables :=
  fun h => h 1 rfl

end FullhanRtos.Motion
