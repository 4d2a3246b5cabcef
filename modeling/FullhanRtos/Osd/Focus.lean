import FullhanRtos.Lib.Transition
import FullhanRtos.Osd.Objects

/-!
# The focus of the OSD menu

Each object says itself whether it is focused. `obj_focus_next` and `obj_focus_pre` take the flag of
one object away and give it to the next one that is enabled and selectable, `obj_focus_index` does
so from object to object, and the operation of a menu focuses an object when it finds none. A flag
that none of them looks at stays: that of another object than the one they start from, and that of
an object that is not selectable. `focus_unique_iff` says in which runs at most one object is
focused.
-/

namespace FullhanRtos.Osd

open Bytes DoubleList Transition Function List Option

/-! ## The functions -/

def objMaxNum : Nat := 0xffff

def eventEnterClick : Byte := 10

def eventUpClick : Byte := 11

def eventDownClick : Byte := 12

def buttonNormal : Byte := 1

/-- The `focused` members. -/
abbrev Focus := Nat → Byte

def objSetFocused (focus : Focus) (obj : Nat) (focused : Byte) : Focus :=
  update focus obj focused

def canFocus (objs : Objs) (obj : Nat) : Bool :=
  (objs obj).enable ≠ 0 && (objs obj).selectable ≠ 0

section

variable (objs : Objs)

/-- `obj_focus_next` and `obj_focus_pre`, with the step of their loop. -/
def focusMove (move : Nat → Option Nat) (focus : Focus) (this : Nat) : Option Focus :=
  let focus := objSetFocused focus this 0
  (search move (canFocus objs) objMaxNum this).map fun found =>
    found.elim focus fun c => objSetFocused focus c 1

def objFocusNext : Focus → Nat → Option Focus :=
  focusMove objs (turn (nodeGetNext objs) (nodeGetPrev objs) nodeMaxNum)

def objFocusPre : Focus → Nat → Option Focus :=
  focusMove objs (turn (nodeGetPrev objs) (nodeGetNext objs) nodeMaxNum)

def objFocusIndex : Nat → Focus → Nat → Option Focus
  | 0, focus, _ => some focus
  | n + 1, focus, c =>
    match nodeGetNext objs c with
    | none => some focus
    | some c => (objFocusNext objs focus c).bind fun focus => objFocusIndex n focus c

def findLoop (good : Nat → Bool) : Nat → Nat → Option Nat
  | 0, _ => none
  | n + 1, c =>
    if good c then some c
    else
      match nodeGetNext objs c with
      | none => none
      | some c => findLoop good n c

/-- The first option is a null pointer. -/
def findFocused (focus : Focus) (this : Nat) : Option (Option Nat) :=
  (nodeGetHead objs this).map
    (findLoop objs (fun c => (objs c).selectable = 1 && focus c = 1) objMaxNum)

def findSelectable (this : Nat) : Option (Option Nat) :=
  (nodeGetHead objs this).map (findLoop objs (fun c => (objs c).selectable = 1) objMaxNum)

def focusReset (focus : Focus) (this : Nat) : Option Focus :=
  (findFocused objs focus this).map fun found =>
    found.elim focus fun c => objSetFocused focus c 0

/-- `button_enter`, as far as it touches the level. -/
def buttonEnter (type : Byte) (focus : Focus) (this : Nat) : Option Focus :=
  if type = buttonNormal then
    (focusReset objs focus this).bind fun focus =>
      (nodeGetHead objs this).map fun head => objSetFocused focus head 1
  else some focus

/-- The operation of a component that takes the focus. Its own keys, and what is called back, leave
the level alone. -/
def objOpKeys (enter : Focus → Nat → Option Focus) (focus : Focus) (obj : Nat) (event : Byte) :
    Option Focus :=
  if focus obj ≠ 0 then
    if event = eventUpClick then objFocusPre objs focus obj
    else if event = eventDownClick then objFocusNext objs focus obj
    else if event = eventEnterClick then enter focus obj
    else some focus
  else some focus

def objOpScrollbar : Focus → Nat → Byte → Option Focus := objOpKeys objs fun focus _ => some focus

def objOpCombobox : Focus → Nat → Byte → Option Focus := objOpKeys objs fun focus _ => some focus

/-- The enter key sets another root menu. -/
def objOpCombobutton : Focus → Nat → Byte → Option Focus := objOpKeys objs fun focus _ => some focus

def objOpButton (type : Byte) : Focus → Nat → Byte → Option Focus :=
  objOpKeys objs (buttonEnter objs type)

/-- `method_op`. A menu works on the level of its own children. -/
def methodOp (focus : Focus) (obj : Nat) (event : Byte) : Option Focus :=
  match (objs obj).component with
  | .textbox | .menu => some focus
  | .scrollbar => objOpScrollbar objs focus obj event
  | .combobox => objOpCombobox objs focus obj event
  | .combobutton => objOpCombobutton objs focus obj event
  | .button type => objOpButton objs type focus obj event

def objMenuOp (child : Nat) (focus : Focus) (event : Byte) : Option Focus :=
  match findFocused objs focus child with
  | none => none
  | some none =>
    match findSelectable objs child with
    | none => none
    | some none => some focus
    | some (some selectable) => methodOp objs (objSetFocused focus selectable 1) selectable event
  | some (some focused) => methodOp objs focus focused event

end

/-! ## Runs and what is asked of them -/

/-- The calls on the children of a menu. -/
inductive Request (menu : ChildList) where
  | focusNext (this : { obj // obj ∈ menu.nodes })
  | focusPre (this : { obj // obj ∈ menu.nodes })
  | focusIndex (this : { obj // obj ∈ menu.nodes }) (index : BitVec 16)
  | menuOp (event : Byte)

def focusStep (menu : ChildList) (focus : Focus) : Request menu → Option Focus
  | .focusNext this => objFocusNext menu.objs focus this
  | .focusPre this => objFocusPre menu.objs focus this
  | .focusIndex this index => objFocusIndex menu.objs index.toNat focus this
  | .menuOp event => objMenuOp menu.objs menu.child focus event

/-- The cyclically next object that is enabled and selectable. -/
def nextSelectable (objs : Objs) (nodes : List Nat) (obj : Nat) : Option Nat :=
  let place := nodes.idxOf obj + 1
  (nodes.drop place ++ nodes.take place).find? (canFocus objs)

/-- The previous one. -/
def preSelectable (objs : Objs) (nodes : List Nat) (obj : Nat) : Option Nat :=
  nextSelectable objs nodes.reverse obj

/-- At most one object is focused. -/
def AtMostOne (nodes : List Nat) (focus : Focus) : Prop :=
  ∀ x ∈ nodes, ∀ y ∈ nodes, focus x ≠ 0 → focus y ≠ 0 → x = y

/-- The focus is on this object alone. -/
def FocusOn (nodes : List Nat) (focus : Focus) (obj : Nat) : Prop :=
  ∀ x ∈ nodes, focus x ≠ 0 ↔ x = obj

/-- At most one object is focused, and from there the focus moves to its neighbours in the circle.
-/
structure FocusOk (menu : ChildList) (focus : Focus) : Prop where
  one : AtMostOne menu.nodes focus
  next : ∀ x ∈ menu.nodes, focus x ≠ 0 → ∃ focus', objFocusNext menu.objs focus x = some focus' ∧
    ∀ y, nextSelectable menu.objs menu.nodes x = some y → FocusOn menu.nodes focus' y
  pre : ∀ x ∈ menu.nodes, focus x ≠ 0 → ∃ focus', objFocusPre menu.objs focus x = some focus' ∧
    ∀ y, preSelectable menu.objs menu.nodes x = some y → FocusOn menu.nodes focus' y

/-- The object that is focused is one of `left`, from which the flag is taken, or the one that gets
it, or none gets it. -/
def FocusLeaves (nodes : List Nat) (focus : Focus) (left : List Nat) (found : Option Nat) : Prop :=
  ∀ x ∈ nodes, focus x ≠ 0 → x ∈ left ∨ found = none ∨ found = some x

/-- Where the keys of a component move the focus. The first option leaves it where it is. -/
def landKeys (menu : ChildList) (event : Byte) (obj : Nat) (enter : Option (Option Nat)) :
    Option (Option Nat) :=
  if event = eventUpClick then some (preSelectable menu.objs menu.nodes obj)
  else if event = eventDownClick then some (nextSelectable menu.objs menu.nodes obj)
  else if event = eventEnterClick then enter
  else none

/-- Where the operation of an object that has the focus moves it. -/
def landing (menu : ChildList) (event : Byte) (obj : Nat) : Option (Option Nat) :=
  match (menu.objs obj).component with
  | .textbox | .menu => none
  | .scrollbar | .combobox | .combobutton => landKeys menu event obj none
  | .button type =>
    landKeys menu event obj (if type = buttonNormal then some menu.nodes.head? else none)

/-- The condition on a call. The menu does not find a focused object that is not selectable, and
then gives the focus to the first one that is, whose operation has to give it back or drop it. -/
def RequestCond (menu : ChildList) (focus : Focus) : Request menu → Prop
  | .focusNext this =>
    FocusLeaves menu.nodes focus [this.1] (nextSelectable menu.objs menu.nodes this)
  | .focusPre this =>
    FocusLeaves menu.nodes focus [this.1] (preSelectable menu.objs menu.nodes this)
  | .focusIndex this index =>
    let passed := (menu.nodes.drop (menu.nodes.idxOf this.1 + 1)).take index.toNat
    ∀ last, passed.getLast? = some last →
      FocusLeaves menu.nodes focus passed (nextSelectable menu.objs menu.nodes last)
  | .menuOp event =>
    ∀ focused ∈ menu.nodes, focus focused ≠ 0 → (menu.objs focused).selectable ≠ 1 →
      ∀ obj, menu.nodes.find? (fun c => (menu.objs c).selectable = 1) = some obj →
        ∃ found, landing menu event obj = some found ∧ (found = none ∨ found = some focused)

variable {menu : ChildList} {objs : Objs} {focus focus' : Focus} {nodes a b left : List Nat}
  {c d x y z : Nat} {found : Option Nat} {event : Byte}

def FocusFlags (nodes : List Nat) (focus : Focus) : Prop := ∀ x ∈ nodes, focus x = 0 ∨ focus x = 1

/-! ## Neighbours -/

theorem place_eq (hnodup : (a ++ c :: b).Nodup) :
    (a ++ c :: b).idxOf c + 1 = (a ++ [c]).length := by
  have hc : c ∉ a := fun hmem => disjoint_of_nodup_append hnodup hmem mem_cons_self
  rw [idxOf_append_of_notMem hc, idxOf_cons_self, length_append, length_singleton]

theorem split_behind (a b : List Nat) (c : Nat) : a ++ c :: b = (a ++ [c]) ++ b := by
  rw [append_assoc, singleton_append]

theorem around_eq (hnodup : (a ++ c :: b).Nodup) :
    (a ++ c :: b).drop ((a ++ c :: b).idxOf c + 1) ++
      (a ++ c :: b).take ((a ++ c :: b).idxOf c + 1) = around a c b := by
  rw [place_eq hnodup, split_behind a b c, drop_left, take_left, around]

theorem next_selectable_eq (hnodup : (a ++ c :: b).Nodup) :
    nextSelectable objs (a ++ c :: b) c = (around a c b).find? (canFocus objs) := by
  rw [nextSelectable, around_eq hnodup]

theorem next_selectable_mem (h : nextSelectable objs nodes x = some y) :
    y ∈ nodes := by
  rcases mem_append.mp (mem_of_find?_eq_some h) with hmem | hmem
  · exact mem_of_mem_drop hmem
  · exact mem_of_mem_take hmem

/-- What comes behind `c` comes behind the next object, unless it is this object. -/
theorem next_selectable_step (hnodup : (a ++ c :: d :: b).Nodup) :
    nextSelectable objs (a ++ c :: d :: b) c =
      if canFocus objs d then some d else nextSelectable objs (a ++ c :: d :: b) d := by
  have hsplit := split_behind a (d :: b) c
  have hd : nextSelectable objs (a ++ c :: d :: b) d =
      (around (a ++ [c]) d b).find? (canFocus objs) := by
    rw [hsplit] at hnodup ⊢
    exact next_selectable_eq hnodup
  rw [next_selectable_eq hnodup, hd, around, around, cons_append, find?_cons]
  cases hcan : canFocus objs d with
  | true => rfl
  | false =>
    rw [if_neg Bool.false_ne_true]
    simp only [find?_append, find?_cons, hcan, find?_nil, or_none]

/-! ## Moving the focus -/

/-- The flags of some objects are taken away, and another object is focused. -/
def landed (focus : Focus) (left : List Nat) (found : Option Nat) : Focus := fun x =>
  if found = some x then 1 else if x ∈ left then 0 else focus x

theorem set_landed (focus : Focus) (this : Nat) (found : Option Nat) :
    found.elim (objSetFocused focus this 0)
      (fun c => objSetFocused (objSetFocused focus this 0) c 1) = landed focus [this] found := by
  funext x
  unfold landed objSetFocused
  have hclear : update focus this 0 x = if x ∈ [this] then 0 else focus x := by
    rw [update_apply]
    simp only [mem_singleton]
  cases found with
  | none =>
    exact hclear
  | some c =>
    show update (update focus this 0) c 1 x = _
    rw [update_apply, hclear]
    by_cases heq : x = c
    · rw [if_pos heq, if_pos (congrArg some heq.symm)]
    · rw [if_neg heq, if_neg fun hsome => heq (some.inj hsome).symm]

theorem focus_next_eq (hlevel : IsLevel objs nodes) (hlen : nodes.length ≤ nodeMaxNum)
    (hx : x ∈ nodes) (focus : Focus) :
    objFocusNext objs focus x = some (landed focus [x] (nextSelectable objs nodes x)) := by
  obtain ⟨a, b, rfl⟩ := append_of_mem hx
  have hbound : (a ++ x :: b).length ≤ objMaxNum := hlen
  rw [objFocusNext, focusMove, Linked.search_eq hlevel hlen hbound,
    next_selectable_eq hlevel.nodup]
  exact congrArg some (set_landed focus x _)

/-- The same in the other direction. -/
theorem focus_pre_eq (hlevel : IsLevel objs nodes) (hlen : nodes.length ≤ nodeMaxNum)
    (hx : x ∈ nodes) (focus : Focus) :
    objFocusPre objs focus x = some (landed focus [x] (preSelectable objs nodes x)) := by
  have hflip := Linked.symm hlevel
  rw [preSelectable]
  rw [← length_reverse] at hlen
  rw [← mem_reverse] at hx
  generalize nodes.reverse = nodes' at hflip hlen hx
  obtain ⟨a, b, rfl⟩ := append_of_mem hx
  have hbound : (a ++ x :: b).length ≤ objMaxNum := hlen
  rw [objFocusPre, focusMove, hflip.search_eq hlen hbound, next_selectable_eq hflip.nodup]
  exact congrArg some (set_landed focus x _)

/-- After a move at most one object is focused exactly if the focus left its object. -/
theorem landed_one_iff (hone : AtMostOne nodes focus) (hfound : ∀ x, found = some x → x ∈ nodes) :
    AtMostOne nodes (landed focus left found) ↔ FocusLeaves nodes focus left found := by
  have hkept : ∀ x, x ∉ left → found ≠ some x → landed focus left found x = focus x := by
    intro x hleft hne
    rw [landed, if_neg hne, if_neg hleft]
  constructor
  · intro hafter x hx hfocus
    by_cases hleft : x ∈ left
    · exact Or.inl hleft
    · cases hcase : found with
      | none => exact Or.inr (Or.inl rfl)
      | some y =>
        by_cases heq : x = y
        · exact Or.inr (Or.inr (congrArg some heq.symm))
        · have hne : found ≠ some x := by
            rw [hcase]
            exact fun hsome => heq (some.inj hsome).symm
          refine absurd (hafter x hx y (hfound y hcase) ?_ ?_) heq
          · rwa [hkept x hleft hne]
          · rw [landed, if_pos hcase]
            decide
  · intro hleaves x hx y hy hfx hfy
    -- A flag that is set is the new one, or an old one of an object that is not left.
    have hcases : ∀ z ∈ nodes, landed focus left found z ≠ 0 →
        found = some z ∨ found = none ∧ focus z ≠ 0 := by
      intro z hz hfz
      by_cases hnew : found = some z
      · exact Or.inl hnew
      · by_cases hleft : z ∈ left
        · rw [landed, if_neg hnew, if_pos hleft] at hfz
          exact absurd rfl hfz
        · rw [hkept z hleft hnew] at hfz
          rcases hleaves z hz hfz with hmem | hnone | hsome
          · exact absurd hmem hleft
          · exact Or.inr ⟨hnone, hfz⟩
          · exact absurd hsome hnew
    rcases hcases x hx hfx with hx' | ⟨hnone, hx'⟩
    · rcases hcases y hy hfy with hy' | ⟨hnone, -⟩
      · exact some.inj (hx'.symm.trans hy')
      · exact absurd (hnone.symm.trans hx') nofun
    · rcases hcases y hy hfy with hy' | ⟨-, hy'⟩
      · exact absurd (hnone.symm.trans hy') nofun
      · exact hone x hx y hy hx' hy'

theorem landed_flags (hflags : FocusFlags nodes focus) :
    FocusFlags nodes (landed focus left found) := by
  intro x hx
  unfold landed
  split
  · exact Or.inr rfl
  · split
    · exact Or.inl rfl
    · exact hflags x hx

/-- The focus moves from its object to the one that is found. -/
theorem landed_focus_on (hone : AtMostOne nodes focus) (hx : x ∈ nodes) (hfocus : focus x ≠ 0) :
    FocusOn nodes (landed focus [x] (some y)) y := by
  intro z hz
  unfold landed
  by_cases heq : z = y
  · rw [if_pos (congrArg some heq.symm)]
    exact ⟨fun _ => heq, fun _ => by decide⟩
  · rw [if_neg fun hsome => heq (some.inj hsome).symm]
    refine ⟨fun hflag => ?_, fun h => absurd h heq⟩
    by_cases hzx : z = x
    · rw [if_pos (mem_singleton.mpr hzx)] at hflag
      exact absurd rfl hflag
    · rw [if_neg fun hmem => hzx (mem_singleton.mp hmem)] at hflag
      exact absurd (hone z hz x hx hflag hfocus) hzx

/-- Where at most one object is focused, the rest follows. -/
theorem focus_ok_iff : FocusOk menu focus ↔ AtMostOne menu.nodes focus := by
  refine ⟨fun h => h.one, fun hone => ⟨hone, fun x hx hfocus => ?_, fun x hx hfocus => ?_⟩⟩
  · refine ⟨_, focus_next_eq menu.level menu.length_le hx focus, fun y hy => ?_⟩
    rw [hy]
    exact landed_focus_on hone hx hfocus
  · refine ⟨_, focus_pre_eq menu.level menu.length_le hx focus, fun y hy => ?_⟩
    rw [hy]
    exact landed_focus_on hone hx hfocus

/-! ## From object to object -/

theorem next_passed {passed : List Nat} (hnodup : (a ++ d :: (passed ++ b)).Nodup)
    (hlast : passed.getLast? = some z)
    (hnext : nextSelectable objs (a ++ d :: (passed ++ b)) d = some y) :
    y ∈ passed ∨ nextSelectable objs (a ++ d :: (passed ++ b)) z = some y := by
  induction passed generalizing a d with
  | nil => cases hlast
  | cons e passed ih =>
    rw [cons_append] at hnodup hnext ⊢
    rw [next_selectable_step hnodup] at hnext
    cases hcan : canFocus objs e with
    | true =>
      rw [hcan, if_pos rfl] at hnext
      exact Or.inl (some.inj hnext ▸ mem_cons_self)
    | false =>
      rw [hcan, if_neg Bool.false_ne_true] at hnext
      cases passed with
      | nil =>
        obtain rfl : e = z := some.inj hlast
        exact Or.inr hnext
      | cons g passed =>
        have hsplit := split_behind a (e :: (g :: passed ++ b)) d
        rw [hsplit] at hnodup hnext ⊢
        rcases ih hnodup hlast hnext with hmem | hsame
        · exact Or.inl (mem_cons_of_mem e hmem)
        · exact Or.inr hsame

/-- The focus after passing some objects: only the last one counts. -/
def passedFocus (objs : Objs) (nodes : List Nat) (focus : Focus) (passed : List Nat) : Focus :=
  match passed.getLast? with
  | none => focus
  | some last => landed focus passed (nextSelectable objs nodes last)

theorem focus_index_loop_eq (hlevel : IsLevel objs (a ++ c :: b))
    (hlen : (a ++ c :: b).length ≤ nodeMaxNum) (n : Nat) (focus : Focus) :
    objFocusIndex objs n focus c = some (passedFocus objs (a ++ c :: b) focus (b.take n)) := by
  induction n generalizing a b c focus with
  | zero => rfl
  | succ n ih =>
    rw [objFocusIndex, Linked.next_eq hlevel]
    cases b with
    | nil => rfl
    | cons d b =>
      have hsplit := split_behind a (d :: b) c
      have hd : d ∈ a ++ c :: d :: b := mem_append_right a (mem_cons_of_mem c mem_cons_self)
      dsimp only [head?_cons]
      rw [focus_next_eq hlevel hlen hd, bind_some]
      rw [hsplit] at hlevel hlen ⊢
      rw [ih hlevel hlen, take_succ_cons]
      refine congrArg some ?_
      unfold passedFocus
      cases hlast : (b.take n).getLast? with
      | none =>
        rw [getLast?_eq_none_iff.mp hlast]
        rfl
      | some z =>
        have hlast' : (d :: b.take n).getLast? = some z := by
          obtain ⟨e, l, he⟩ := exists_cons_of_ne_nil
            (show b.take n ≠ [] from fun hnil => by rw [hnil] at hlast; cases hlast)
          rw [he] at hlast ⊢
          rwa [getLast?_cons_cons]
        rw [hlast']
        funext y
        unfold landed
        dsimp only
        by_cases hnew : nextSelectable objs ((a ++ [c]) ++ d :: b) z = some y
        · rw [if_pos hnew, if_pos hnew]
        by_cases hmem : y ∈ b.take n
        · rw [if_pos hmem, if_pos (mem_cons_of_mem d hmem)]
        rw [if_neg hmem]
        -- The flag that was put behind `d` has moved on.
        have hmoved : nextSelectable objs ((a ++ [c]) ++ d :: b) d ≠ some y := by
          intro hnext
          rw [← take_append_drop n b] at hnext hnew hlevel
          rcases next_passed (Linked.nodup hlevel) hlast hnext with hin | hsame
          · exact hmem hin
          · exact hnew hsame
        rw [if_neg hmoved]
        simp only [mem_cons, not_mem_nil, or_false, hmem]

theorem focus_index_eq (hlevel : IsLevel objs nodes) (hlen : nodes.length ≤ nodeMaxNum)
    (hx : x ∈ nodes) (n : Nat) (focus : Focus) :
    objFocusIndex objs n focus x =
      some (passedFocus objs nodes focus ((nodes.drop (nodes.idxOf x + 1)).take n)) := by
  obtain ⟨a, b, rfl⟩ := append_of_mem hx
  have hdrop : (a ++ x :: b).drop ((a ++ x :: b).idxOf x + 1) = b := by
    rw [place_eq (Linked.nodup hlevel), split_behind a b x, drop_left]
  rw [hdrop]
  exact focus_index_loop_eq hlevel hlen n focus

/-! ## Finding an object -/

theorem get_head_eq (hlevel : IsLevel objs nodes) (hlen : nodes.length ≤ nodeMaxNum)
    (hx : x ∈ nodes) : nodeGetHead objs x = nodes.head? := by
  obtain ⟨a, b, rfl⟩ := append_of_mem hx
  have hback := (Linked.symm hlevel).forward
  rw [reverse_append, reverse_cons, append_assoc, singleton_append] at hback
  have hlist := drop_list hback
  have hbound : a.reverse.length < nodeMaxNum := by
    rw [length_append, length_cons] at hlen
    rw [length_reverse]
    omega
  have hreverse : x :: a.reverse = (a ++ [x]).reverse := by
    rw [reverse_append, reverse_singleton, singleton_append]
  rw [nodeGetHead, to_end_eq hlist hbound, hreverse, getLast?_reverse]
  cases a with
  | nil => rfl
  | cons _ _ => rfl

theorem find_loop_eq (hlevel : IsLevel objs (a ++ c :: b)) {n : Nat} (hn : b.length < n)
    (good : Nat → Bool) : findLoop objs good n c = (c :: b).find? good := by
  induction b generalizing a c n with
  | nil =>
    obtain ⟨n, rfl⟩ : ∃ k, n = k + 1 := ⟨n - 1, by omega⟩
    rw [findLoop, Linked.next_eq hlevel, find?_cons]
    cases good c <;> rfl
  | cons d b ih =>
    obtain ⟨n, rfl⟩ : ∃ k, n = k + 1 := ⟨n - 1, by omega⟩
    have hsplit := split_behind a (d :: b) c
    rw [findLoop, Linked.next_eq hlevel, find?_cons]
    rw [hsplit] at hlevel
    rw [length_cons] at hn
    cases good c with
    | true => rfl
    | false =>
      exact ih hlevel (by omega)

theorem find_from_head (hlevel : IsLevel objs nodes) (hlen : nodes.length ≤ nodeMaxNum)
    (hx : x ∈ nodes) (good : Nat → Bool) :
    (nodeGetHead objs x).map (findLoop objs good objMaxNum) = some (nodes.find? good) := by
  rw [get_head_eq hlevel hlen hx]
  cases nodes with
  | nil => cases hx
  | cons c b =>
    have hbound : b.length < objMaxNum := hlen
    exact congrArg some (find_loop_eq (a := []) hlevel hbound good)

/-! ## The operation of a menu -/

theorem land_keys_mem {entered : Option (Option Nat)}
    (hentered : entered = some (some y) → y ∈ menu.nodes)
    (h : landKeys menu event x entered = some (some y)) : y ∈ menu.nodes := by
  unfold landKeys at h
  split at h
  · exact mem_reverse.mp (next_selectable_mem (some.inj h))
  split at h
  · exact next_selectable_mem (some.inj h)
  split at h
  · exact hentered h
  · cases h

theorem landing_mem (hland : landing menu event x = some found) :
    ∀ y, found = some y → y ∈ menu.nodes := by
  rintro y rfl
  unfold landing at hland
  cases hcomponent : (menu.objs x).component with
  | textbox | menu =>
    rw [hcomponent] at hland
    cases hland
  | scrollbar | combobox | combobutton =>
    rw [hcomponent] at hland
    exact land_keys_mem (fun hnone => by cases hnone) hland
  | button type =>
    rw [hcomponent] at hland
    refine land_keys_mem (fun hentered => ?_) hland
    split at hentered
    · exact mem_of_head? (some.inj hentered)
    · cases hentered

theorem op_keys_eq {enter : Focus → Nat → Option Focus} (entered : Option (Option Nat))
    (hx : x ∈ menu.nodes) (hfocus : focus x ≠ 0)
    (henter : enter focus x = some (entered.elim focus (landed focus [x]))) (event : Byte) :
    objOpKeys menu.objs enter focus x event =
      some ((landKeys menu event x entered).elim focus (landed focus [x])) := by
  rw [objOpKeys, if_pos hfocus, landKeys]
  split
  · exact focus_pre_eq menu.level menu.length_le hx focus
  split
  · exact focus_next_eq menu.level menu.length_le hx focus
  split
  · exact henter
  · rfl

theorem button_enter_eq (hx : x ∈ menu.nodes)
    (hfind : menu.nodes.find? (fun c => (menu.objs c).selectable = 1 && focus c = 1) = some x)
    (type : Byte) :
    buttonEnter menu.objs type focus x =
      some ((if type = buttonNormal then some menu.nodes.head? else none).elim focus
        (landed focus [x])) := by
  rw [buttonEnter]
  split
  · have hhead := get_head_eq menu.level menu.length_le hx
    obtain ⟨h, nodes', hnodes⟩ := exists_cons_of_ne_nil (ne_nil_of_mem hx)
    rw [focusReset, findFocused, find_from_head menu.level menu.length_le hx, hfind, hhead, hnodes]
    exact congrArg some (set_landed focus x (some h))
  · rfl

theorem method_op_eq (hx : x ∈ menu.nodes) (hfocus : focus x ≠ 0)
    (hfind : menu.nodes.find? (fun c => (menu.objs c).selectable = 1 && focus c = 1) = some x)
    (event : Byte) :
    methodOp menu.objs focus x event =
      some ((landing menu event x).elim focus (landed focus [x])) := by
  unfold methodOp landing
  cases (menu.objs x).component with
  | textbox | menu => rfl
  | scrollbar | combobox | combobutton => exact op_keys_eq none hx hfocus rfl event
  | button type => exact op_keys_eq _ hx hfocus (button_enter_eq hx hfind type) event

section

variable (hone : AtMostOne menu.nodes focus)

include hone

/-- The object that was found first has the only flag that the search sees. -/
theorem find_focused_of_one (hx : x ∈ menu.nodes) (hselectable : (menu.objs x).selectable = 1)
    (hfocus : focus x = 1) :
    menu.nodes.find? (fun c => (menu.objs c).selectable = 1 && focus c = 1) = some x := by
  cases hfind : menu.nodes.find? (fun c => (menu.objs c).selectable = 1 && focus c = 1) with
  | none =>
    have hnot := find?_eq_none.mp hfind x hx
    simp [hselectable, hfocus] at hnot
  | some y =>
    have hy := mem_of_find?_eq_some hfind
    have hgood := find?_some hfind
    simp only [Bool.and_eq_true, decide_eq_true_eq] at hgood
    exact congrArg some (hone y hy x hx (by rw [hgood.2]; decide) (by rw [hfocus]; decide))

theorem found_op_ok (hflags : FocusFlags menu.nodes focus)
    (hfind : menu.nodes.find? (fun c => (menu.objs c).selectable = 1 && focus c = 1) = some x)
    (event : Byte) : ∃ focus', methodOp menu.objs focus x event = some focus' ∧
      FocusFlags menu.nodes focus' ∧ AtMostOne menu.nodes focus' := by
  have hx := mem_of_find?_eq_some hfind
  have hgood := find?_some hfind
  simp only [Bool.and_eq_true, decide_eq_true_eq] at hgood
  have hfocus : focus x ≠ 0 := by
    rw [hgood.2]
    decide
  refine ⟨_, method_op_eq hx hfocus hfind event, ?_⟩
  cases hland : landing menu event x with
  | none => exact ⟨hflags, hone⟩
  | some found =>
    refine ⟨landed_flags hflags, (landed_one_iff hone (landing_mem hland)).mpr ?_⟩
    exact fun y hy hfy => Or.inl (mem_singleton.mpr (hone y hy x hx hfy hfocus))

/-- When the menu gives the focus to an object, at most one object is focused exactly if the
operation of this object moves it to one that was focused before. -/
theorem given_op_iff (hflags : FocusFlags menu.nodes focus)
    (hnone : menu.nodes.find? (fun c => (menu.objs c).selectable = 1 && focus c = 1) = none)
    (hfind : menu.nodes.find? (fun c => (menu.objs c).selectable = 1) = some x) (event : Byte) :
    ∃ focus', methodOp menu.objs (objSetFocused focus x 1) x event = some focus' ∧
      FocusFlags menu.nodes focus' ∧ (AtMostOne menu.nodes focus' ↔
        ∀ y ∈ menu.nodes, focus y ≠ 0 →
          ∃ found, landing menu event x = some found ∧ (found = none ∨ found = some y)) := by
  have hx := mem_of_find?_eq_some hfind
  have hselectable := find?_some hfind
  rw [decide_eq_true_eq] at hselectable
  have hhidden : ∀ y ∈ menu.nodes, focus y ≠ 0 → y ≠ x := by
    rintro y hy hfy rfl
    have hnot := find?_eq_none.mp hnone y hy
    simp [hselectable, (hflags y hy).resolve_left hfy] at hnot
  have hgiven : objSetFocused focus x 1 x = 1 := update_self _ _ _
  have hfind' : menu.nodes.find?
      (fun c => (menu.objs c).selectable = 1 && objSetFocused focus x 1 c = 1) = some x := by
    obtain ⟨-, a, b, hnodes, hfront⟩ := find?_eq_some_iff_append.mp hfind
    refine find?_eq_some_iff_append.mpr ⟨?_, a, b, hnodes, fun c hc => ?_⟩
    · rw [decide_eq_true hselectable, decide_eq_true hgiven]
      rfl
    · have hnot := hfront c hc
      rw [Bool.not_eq_true'] at hnot
      rw [hnot]
      rfl
  have hland : landed (objSetFocused focus x 1) [x] = landed focus [x] := by
    funext found y
    unfold landed objSetFocused
    by_cases heq : y = x
    · subst heq
      rw [update_self, if_pos (mem_singleton.mpr rfl), if_pos (mem_singleton.mpr rfl)]
    · rw [update_of_ne heq]
  refine ⟨_, method_op_eq hx (by rw [hgiven]; decide) hfind' event, ?_⟩
  rw [hland]
  cases hcase : landing menu event x with
  | none =>
    refine ⟨?_, ?_, ?_⟩
    · intro y hy
      show objSetFocused focus x 1 y = 0 ∨ objSetFocused focus x 1 y = 1
      unfold objSetFocused
      rw [update_apply]
      split
      · exact Or.inr rfl
      · exact hflags y hy
    · intro hafter y hy hfy
      refine absurd (hafter y hy x hx ?_ ?_) (hhidden y hy hfy)
      · show objSetFocused focus x 1 y ≠ 0
        rwa [objSetFocused, update_of_ne (hhidden y hy hfy)]
      · show objSetFocused focus x 1 x ≠ 0
        rw [hgiven]
        decide
    · intro hback y hy z hz hfy hfz
      have honly : ∀ w ∈ menu.nodes, objSetFocused focus x 1 w ≠ 0 → w = x := by
        intro w hw hfw
        by_contra hne
        rw [objSetFocused, update_of_ne hne] at hfw
        obtain ⟨found, hfound, -⟩ := hback w hw hfw
        cases hfound
      exact (honly y hy hfy).trans (honly z hz hfz).symm
  | some found =>
    refine ⟨landed_flags hflags, (landed_one_iff hone (landing_mem hcase)).trans ?_⟩
    constructor
    · intro hleaves y hy hfy
      refine ⟨found, rfl, (hleaves y hy hfy).resolve_left fun hmem => ?_⟩
      exact hhidden y hy hfy (mem_singleton.mp hmem)
    · intro hback y hy hfy
      obtain ⟨found', hfound, hto⟩ := hback y hy hfy
      obtain rfl := some.inj hfound
      exact Or.inr hto

theorem menu_op_iff (hflags : FocusFlags menu.nodes focus) (event : Byte) :
    ∃ focus', objMenuOp menu.objs menu.child focus event = some focus' ∧
      FocusFlags menu.nodes focus' ∧
      (AtMostOne menu.nodes focus' ↔ RequestCond menu focus (.menuOp event)) := by
  have hfocused := find_from_head menu.level menu.length_le menu.child_mem
    (fun c => (menu.objs c).selectable = 1 && focus c = 1)
  have hselectable := find_from_head menu.level menu.length_le menu.child_mem
    (fun c => (menu.objs c).selectable = 1)
  unfold objMenuOp findFocused findSelectable
  rw [hfocused, hselectable]
  cases hfound : menu.nodes.find? (fun c => (menu.objs c).selectable = 1 && focus c = 1) with
  | some x =>
    obtain ⟨focus', hop, hflags', hone'⟩ := found_op_ok hone hflags hfound event
    refine ⟨focus', hop, hflags', fun _ y hy hfy hhidden => ?_, fun _ => hone'⟩
    have hgood := find?_some hfound
    simp only [Bool.and_eq_true, decide_eq_true_eq] at hgood
    have heq := hone y hy x (mem_of_find?_eq_some hfound) hfy (by rw [hgood.2]; decide)
    exact absurd (heq ▸ hgood.1) hhidden
  | none =>
    cases hfirst : menu.nodes.find? (fun c => (menu.objs c).selectable = 1) with
    | none =>
      refine ⟨focus, rfl, hflags, fun _ y hy _ _ x hx => ?_, fun _ => hone⟩
      rw [hfirst] at hx
      cases hx
    | some x =>
      obtain ⟨focus', hop, hflags', hiff⟩ := given_op_iff hone hflags hfound hfirst event
      refine ⟨focus', hop, hflags', hiff.trans ⟨fun hback y hy hfy _ z hz => ?_, ?_⟩⟩
      · obtain rfl := some.inj (hfirst.symm.trans hz)
        exact hback y hy hfy
      · intro hcond y hy hfy
        refine hcond y hy hfy (fun hsel => ?_) x hfirst
        have hfind := find_focused_of_one hone hy hsel ((hflags y hy).resolve_left hfy)
        rw [hfound] at hfind
        cases hfind

end

/-! ## Runs -/

/-- Every call is carried out, and at most one object is focused after it exactly under its
condition. -/
theorem request_iff (request : Request menu) (hone : AtMostOne menu.nodes focus)
    (hflags : FocusFlags menu.nodes focus) :
    ∃ focus', focusStep menu focus request = some focus' ∧ FocusFlags menu.nodes focus' ∧
      (AtMostOne menu.nodes focus' ↔ RequestCond menu focus request) := by
  cases request with
  | focusNext this =>
    exact ⟨_, focus_next_eq menu.level menu.length_le this.2 focus, landed_flags hflags,
      landed_one_iff hone fun _ hfound => next_selectable_mem hfound⟩
  | focusPre this =>
    exact ⟨_, focus_pre_eq menu.level menu.length_le this.2 focus, landed_flags hflags,
      landed_one_iff hone fun _ hfound => mem_reverse.mp (next_selectable_mem hfound)⟩
  | focusIndex this index =>
    refine ⟨_, focus_index_eq menu.level menu.length_le this.2 index.toNat focus, ?_⟩
    unfold passedFocus RequestCond
    dsimp only
    cases hlast : ((menu.nodes.drop (menu.nodes.idxOf this.1 + 1)).take index.toNat).getLast? with
    | none => exact ⟨hflags, fun _ => nofun, fun _ => hone⟩
    | some last =>
      refine ⟨landed_flags hflags,
        (landed_one_iff hone fun _ hfound => next_selectable_mem hfound).trans ?_⟩
      exact ⟨fun hleaves last' heq => some.inj heq ▸ hleaves, fun hall => hall last rfl⟩
  | menuOp event => exact menu_op_iff hone hflags event

/-- No operation of an object fails, whatever is focused. -/
theorem method_op_total (hx : x ∈ menu.nodes) (focus : Focus) (event : Byte) :
    ∃ focus', methodOp menu.objs focus x event = some focus' := by
  have hkeys : ∀ {enter : Focus → Nat → Option Focus}, (∃ focus', enter focus x = some focus') →
      ∃ focus', objOpKeys menu.objs enter focus x event = some focus' := by
    intro enter henter
    unfold objOpKeys
    split
    · split
      · exact ⟨_, focus_pre_eq menu.level menu.length_le hx focus⟩
      split
      · exact ⟨_, focus_next_eq menu.level menu.length_le hx focus⟩
      split
      · exact henter
      · exact ⟨focus, rfl⟩
    · exact ⟨focus, rfl⟩
  unfold methodOp
  cases (menu.objs x).component with
  | textbox | menu => exact ⟨focus, rfl⟩
  | scrollbar | combobox | combobutton => exact hkeys ⟨focus, rfl⟩
  | button type =>
    refine hkeys ?_
    unfold buttonEnter
    split
    · obtain ⟨h, nodes', hnodes⟩ := exists_cons_of_ne_nil (ne_nil_of_mem hx)
      rw [focusReset, findFocused, find_from_head menu.level menu.length_le hx,
        get_head_eq menu.level menu.length_le hx, hnodes]
      exact ⟨_, rfl⟩
    · exact ⟨focus, rfl⟩

theorem request_total (focus : Focus) (request : Request menu) :
    ∃ focus', focusStep menu focus request = some focus' := by
  cases request with
  | focusNext this => exact ⟨_, focus_next_eq menu.level menu.length_le this.2 focus⟩
  | focusPre this => exact ⟨_, focus_pre_eq menu.level menu.length_le this.2 focus⟩
  | focusIndex this index =>
    exact ⟨_, focus_index_eq menu.level menu.length_le this.2 index.toNat focus⟩
  | menuOp event =>
    show ∃ focus', objMenuOp menu.objs menu.child focus event = some focus'
    unfold objMenuOp findFocused findSelectable
    rw [find_from_head menu.level menu.length_le menu.child_mem,
      find_from_head menu.level menu.length_le menu.child_mem]
    cases hfound : menu.nodes.find? (fun c => (menu.objs c).selectable = 1 && focus c = 1) with
    | some x => exact method_op_total (mem_of_find?_eq_some hfound) focus event
    | none =>
      cases hfirst : menu.nodes.find? (fun c => (menu.objs c).selectable = 1) with
      | none => exact ⟨focus, rfl⟩
      | some x => exact method_op_total (mem_of_find?_eq_some hfirst) _ event

/-- A level without a focus. -/
abbrev Unfocused (menu : ChildList) : Type := { focus : Focus // ∀ x ∈ menu.nodes, focus x = 0 }

/-- Every run is carried out, and the focus is right in all its states exactly if every call meets
the condition. -/
theorem focus_unique_iff (menu : ChildList) (start : Unfocused menu)
    (requests : List (Request menu)) :
    (∃ focus', exec (focusStep menu) start.1 requests = some focus') ∧
      (Always (focusStep menu) (FocusOk menu) start.1 requests ↔
        AllSteps (focusStep menu) (RequestCond menu) start.1 requests) := by
  obtain ⟨focus', hrun, -⟩ := exec_progress (I := fun _ => True) (C := fun _ _ => True)
    (fun focus request _ _ => (request_total focus request).imp fun _ h => ⟨h, trivial⟩) trivial
    (all_steps_of_forall (fun _ _ => trivial) start.1 requests)
  have hone : AtMostOne menu.nodes start.1 := fun x hx _ _ hfocus _ =>
    absurd (start.2 x hx) hfocus
  refine ⟨⟨focus', hrun⟩, always_iff (A := fun _ => True) (I := FocusFlags menu.nodes) ?_
    (fun _ _ => trivial) (fun x hx => Or.inl (start.2 x hx)) (focus_ok_iff.mpr hone) hrun⟩
  intro focus request focus' _ hflags hok hstep
  obtain ⟨focus1, hstep1, hflags1, hiff⟩ := request_iff request hok.one hflags
  obtain rfl := some.inj (hstep1.symm.trans hstep)
  exact ⟨hflags1, focus_ok_iff.trans hiff⟩

/-! ## A level of three buttons -/

def aloneButton : OsdObj := ⟨⟨none, none⟩, 1, 1, .button 0⟩

def threeButtons : ChildList where
  objs := nodeAppend (nodeAppend (fun _ => aloneButton) 1 2) 2 3
  nodes := [1, 2, 3]
  level := append_linked (a := [1]) (b := [])
    (append_linked (a := []) (b := []) (single_level rfl rfl) (by decide)) (by decide)
  length_le := by decide
  child := 1
  child_mem := by decide

/-- The menu focuses the first button, and `obj_focus_index` from there focuses the third one too.
-/
theorem two_focused : ¬ Always (focusStep threeButtons) (FocusOk threeButtons) (fun _ => 0)
    [.menuOp 0, .focusIndex ⟨1, by decide⟩ 1] := by
  intro halways
  have hlast := halways.last rfl
  exact absurd (hlast.one 1 (by decide) 3 (by decide) (by decide) (by decide)) (by decide)

end FullhanRtos.Osd
