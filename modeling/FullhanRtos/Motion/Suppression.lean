import FullhanRtos.Lib.Faults
import FullhanRtos.Lib.Word
import FullhanRtos.Motion.Labelling
import Mathlib.Data.Int.Order.Basic

/-!
# Suppression of overlapping rectangles

What `getOrdFromGau` does with the labelled rectangles: those that are large enough are copied to
`rectResult`, sorted by area, and picked from the largest down; a rectangle of which a picked one
covers more than 70 % is suppressed. The first `rect_num` picked ones are reported.

Every index is checked against the entries of the array that are written.
-/

namespace FullhanRtos.Motion

open Faults Word

def rectMidResultNumMax : Nat := 1000

/-! ## Filter -/

/-- A width or height, as the `FH_UINT32` it is compared as. -/
def rectSide (lo hi : Nat) : Nat := sub32 (hi + 1) lo

/-- An entry that is its own root and larger than the thresholds. -/
def isCandidate (areaThW areaThH i : Nat) (r : OrdInfo) : Bool :=
  i = r.root ∧ areaThW < rectSide r.x1 r.x2 ∧ areaThH < rectSide r.y1 r.y2

/-- The loop over the labels; it ends when `rectResult` is full. -/
def filterLoop (areaThW areaThH numOfLabels : Nat) (rtable : Nat → OrdInfo)
    (rectResult : List OrdInfo) : List Nat → Except Fault (List OrdInfo)
  | [] => .ok rectResult
  | i :: labels =>
    if isCandidate areaThW areaThH i (rtable i) then
      if rectMidResultNumMax ≤ rectResult.length then .ok rectResult
      else
        (push (min numOfLabels rectMidResultNumMax) rectResult (rtable i)).bind fun rectResult =>
          filterLoop areaThW areaThH numOfLabels rtable rectResult labels
    else filterLoop areaThW areaThH numOfLabels rtable rectResult labels

def filterRects (areaThW areaThH : Nat) (t : Labels) : Except Fault (List OrdInfo) :=
  filterLoop areaThW areaThH t.label t.rtable [] (List.range t.label)

/-! ## Sort -/

/-- The product of the sides as an `FH_UINT32`. -/
def rectArea (r : OrdInfo) : Nat := mul32 (rectSide r.x1 r.x2) (rectSide r.y1 r.y2)

/-- Elements `j - 1` and `j` are exchanged if the first is larger. -/
def sortStep (rects : List OrdInfo) (j : Nat) : Except Fault (List OrdInfo) :=
  (fetch rects (j - 1)).bind fun prev => (fetch rects j).bind fun curr =>
    if rectArea curr < rectArea prev then
      (store rects (j - 1) curr).bind fun rects => store rects j prev
    else .ok rects

/-- The inner loop, from the last element down to `i`. -/
def sortPass (rects : List OrdInfo) (i : Nat) : Except Fault (List OrdInfo) :=
  (List.range' i (rects.length - i)).reverse.foldlM sortStep rects

/-- Small to large. -/
def sortRects (rects : List OrdInfo) : Except Fault (List OrdInfo) :=
  (List.range' 1 (rects.length - 1)).foldlM sortPass rects

/-! ## Suppression -/

/-- `int` arithmetic that wraps. -/
def sint32 (z : Int) : Int := z.bmod (2 ^ 32)

/-- Whether the picked rectangle `i` suppresses `j`. -/
def overlaps (i j : OrdInfo) : Bool :=
  let xx1 : Int := max i.x1 j.x1
  let yy1 : Int := max i.y1 j.y1
  let xx2 : Int := min i.x2 j.x2
  let yy2 : Int := min i.y2 j.y2
  let w := xx2 - xx1 + 1
  let h := yy2 - yy1 + 1
  let areaJ := sint32 (((j.x2 : Int) - j.x1 + 1) * ((j.y2 : Int) - j.y1 + 1))
  0 < w ∧ 0 < h ∧ sint32 (areaJ * 7) < sint32 (sint32 (w * h) * 10)

/-- `while (I[last] == -1) last--`, from the argument down; `none` is -1. -/
def findLast (I : List (Option Nat)) : Nat → Except Fault (Nat × Nat)
  | 0 => .error .outside
  | last + 1 => (fetch I last).bind fun
    | none => findLast I last
    | some i => .ok (last, i)

/-- A position before `last`; it is suppressed if `i` overlaps it. -/
def suppressStep (rects : List OrdInfo) (I : List (Option Nat)) (i : Nat) (suppress : List Nat)
    (pos : Nat) : Except Fault (List Nat) :=
  (fetch I pos).bind fun
    | none => .ok suppress
    | some j => (fetch rects i).bind fun ri => (fetch rects j).bind fun rj =>
      if overlaps ri rj then push rectMidResultNumMax suppress pos else .ok suppress

/-- `I[suppress[k]] = -1; Icnt--`. -/
def clearStep (s : List (Option Nat) × Int) (pos : Nat) : Except Fault (List (Option Nat) × Int) :=
  (store s.1 pos none).map fun I => (I, s.2 - 1)

/-- `while (Icnt != 0)`. -/
def pickLoop (rects : List OrdInfo) :
    Nat → List (Option Nat) → Int → List Nat → Except Fault (List Nat)
  | 0, _, _, _ => .error .endless
  | fuel + 1, I, Icnt, pick =>
    if Icnt = 0 then .ok pick
    else
      (findLast I rects.length).bind fun (last, i) =>
        (push rectMidResultNumMax pick i).bind fun pick =>
          ((List.range last).foldlM (suppressStep rects I i) [last]).bind fun suppress =>
            (suppress.foldlM clearStep (I, Icnt)).bind fun (I, Icnt) =>
              pickLoop rects fuel I Icnt pick

def pickRects (fuel : Nat) (rects : List OrdInfo) : Except Fault (List Nat) :=
  pickLoop rects fuel ((List.range rects.length).map some) rects.length []

/-! ## Output -/

structure Rect where
  u32X : Nat
  u32Y : Nat
  u32Width : Nat
  u32Height : Nat
deriving DecidableEq

def OrdInfo.toRect (r : OrdInfo) : Rect :=
  ⟨r.x1, r.y1, rectSide r.x1 r.x2, rectSide r.y1 r.y2⟩

/-- The loop over `pick`; the length of the result is the new `rect_num`. -/
def reportLoop (rectNum : Nat) (rects : List OrdInfo) (rect : List Rect) :
    List Nat → Except Fault (List Rect)
  | [] => .ok rect
  | i :: pick =>
    if rectNum ≤ rect.length then .ok rect
    else (fetch rects i).bind fun r => reportLoop rectNum rects (rect ++ [r.toRect]) pick

/-- What follows the filter: sort, suppression and output. -/
def reportRects (fuel rectNum : Nat) (rectResult : List OrdInfo) : Except Fault (List Rect) :=
  (sortRects rectResult).bind fun rects => (pickRects fuel rects).bind fun pick =>
    reportLoop rectNum rects [] pick

end FullhanRtos.Motion
