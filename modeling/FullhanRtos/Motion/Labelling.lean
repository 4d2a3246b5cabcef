import FullhanRtos.Lib.Bytes
import FullhanRtos.Lib.NullList
import FullhanRtos.Lib.Segments

/-!
# Run labelling of a motion map

The labelling phase of `getOrdFromGau` (`librect_merge_by_gaus`). Each row is cut into runs of
foreground; a run takes the label of the first run of the row above that it is connected to, and
every further one is merged with it: the nodes of the larger root are relabelled along their chain
`next` and the boxes become one. A run connected to none opens a label.

The rows are walked with two cursors: `startPrevRunIdx`, the first run of the row above that later
runs can still be connected to, is here the rest of that row's list.
-/

namespace FullhanRtos.Motion

open Function

open Bytes Segments

/-- What a store to an `FH_UINT16` keeps. -/
def u16 (n : Nat) : Nat := n % 65536

/-- `ORD_INFO`, all fields `FH_UINT16`. -/
structure OrdInfo where
  x1 : Nat
  x2 : Nat
  y1 : Nat
  y2 : Nat
  root : Nat
deriving DecidableEq

/-- The tables of `getOrdFromGau` and the first label that is not used. -/
structure Labels where
  label : Nat
  rtable : Nat → OrdInfo
  next : Nat → Nat
  tail : Nat → Nat

/-- A run of a row, of `currentPosHeadW` and `currentPosTailW`. -/
structure Run where
  head : Nat
  tail : Nat
deriving DecidableEq

/-! ## Runs of a row -/

/-- `foreground[pos] >= confindence`, compared as `FH_SINT32`. -/
def isForeground (foreground : Nat → Byte) (thresh : BitVec 32) (pos : Nat) : Bool :=
  thresh.toInt ≤ (foreground pos).toNat

/-- The runs that ended so far, and `currentPosHeadW[num]` of the one after them. -/
structure Scan where
  head : Nat
  runs : List Run

variable (above : Nat → Bool)

def scanPixel (W posLine : Nat) (s : Scan) (j : Nat) : Scan :=
  if above (posLine + j) then
    let head := if j = 0 then u16 j else if above (posLine + j - 1) then s.head else u16 j
    if j + 1 = W ∨ ¬ above (posLine + j + 1) then
      ⟨head, s.runs ++ [⟨head, u16 j⟩]⟩
    else ⟨head, s.runs⟩
  else s

/-- The runs of a row, whose first pixel is at `posLine`. -/
def scanRow (W posLine : Nat) : List Run :=
  ((List.range W).foldl (scanPixel above W posLine) ⟨0, []⟩).runs

/-! ## Labels -/

/-- The entries of a table of `H_Bg * runLabelW` elements; `malloc` takes the bytes as an
`FH_UINT32`. -/
def tableRoom (W H size : Nat) : Nat := H * (W / 2) % 2 ^ 32 * size % 2 ^ 32 / size

/-- Whether `rtable` (10 bytes an entry), `next` and `tail` have an entry for the label. -/
def hasRoom (W H label : Nat) : Bool := label < tableRoom W H 10 ∧ label < tableRoom W H 2

/-- A run that is connected to no run above; `none` is a store outside of the tables. -/
def newLabel (W H i : Nat) (curr : Run) (t : Labels) : Option Labels :=
  if hasRoom W H t.label then
    some
      { label := t.label + 1
        rtable := update t.rtable t.label
          ⟨curr.head, curr.tail, u16 i, u16 i, u16 t.label⟩
        next := update t.next t.label 65535
        tail := update t.tail t.label (u16 t.label) }
  else none

/-- The first connection: the box of the root takes in the run. -/
def extendRoot (i : Nat) (curr : Run) (root : Nat) (t : Labels) : Labels :=
  let ord := t.rtable root
  { t with
    rtable := update t.rtable root
      { ord with y2 := u16 i, x1 := min ord.x1 curr.head, x2 := max ord.x2 curr.tail } }

/-- `while (k != 65535)`: every node of a chain gets the root. -/
def relabel (next : Nat → Nat) (root : Nat) : Nat → Nat → (Nat → OrdInfo) → Option (Nat → OrdInfo)
  | 0, _, _ => none
  | fuel + 1, k, rtable =>
    if k = 65535 then some rtable
    else relabel next root fuel (next k)
      (update rtable k { rtable k with root := u16 root })

/-- A further connection: the chain and the box of `node` go to `root`. -/
def joinRoots (root node : Nat) (t : Labels) : Option Labels :=
  (relabel t.next root (t.label + 1) node t.rtable).map fun rtable =>
    let ord := rtable root
    let other := rtable node
    { t with
      rtable := update rtable root
        { ord with y1 := min ord.y1 other.y1, y2 := max ord.y2 other.y2,
                   x1 := min ord.x1 other.x1, x2 := max ord.x2 other.x2 }
      next := update t.next (t.tail root) (u16 node)
      tail := update t.tail root (t.tail node) }

/-! ## Connections of a run -/

/-- `isPossibleConnected` and `isConnected`, compared as `int`. -/
def isConnected (last curr : Run) : Bool :=
  (curr.head : Int) - 2 < last.tail ∧ last.head < curr.tail + 2

/-- A connection to a run with label `lastLabel`; `currentLabel` is `none` while `connectedCnt` is
zero. -/
def connect (i : Nat) (curr : Run) (lastLabel : Nat) (t : Labels) :
    Option Nat → Option (Labels × Option Nat)
  | none => some (extendRoot i curr (t.rtable lastLabel).root t, some lastLabel)
  | some currentLabel =>
    let u := (t.rtable lastLabel).root
    let v := (t.rtable currentLabel).root
    if u = v then some (t, some currentLabel)
    else if u < v then (joinRoots u v t).map fun t => (t, some currentLabel)
    else (joinRoots v u t).map fun t => (t, some currentLabel)

/-- The runs above, from `startPrevRunIdx` on. The run that reaches the end of the current one is
the last to be looked at (`skipFlag`), and it stays for the next run if it reaches further. -/
def scanPrev (i : Nat) (curr : Run) (t : Labels) (currentLabel : Option Nat) :
    List (Run × Nat) → Option (Labels × Option Nat × List (Run × Nat))
  | [] => some (t, currentLabel, [])
  | (last, lastLabel) :: rest =>
    (if isConnected last curr then connect i curr lastLabel t currentLabel
      else some (t, currentLabel)).bind fun (t, currentLabel) =>
      if curr.tail ≤ last.tail then
        some (t, currentLabel, if last.tail ≤ curr.tail then rest else (last, lastLabel) :: rest)
      else scanPrev i curr t currentLabel rest

/-- A run of the current row, with its label and the runs above that are left. -/
def labelRun (W H i : Nat) (curr : Run) (t : Labels) (prev : List (Run × Nat)) :
    Option (Labels × Nat × List (Run × Nat)) :=
  (scanPrev i curr t none prev).bind fun
    | (t, some currentLabel, prev) => some (t, currentLabel, prev)
    | (t, none, prev) => (newLabel W H i curr t).map fun t' => (t', t.label, prev)

/-- The runs of the current row with their labels. -/
def labelRuns (W H i : Nat) (t : Labels) (prev : List (Run × Nat)) :
    List Run → Option (Labels × List (Run × Nat))
  | [] => some (t, [])
  | curr :: runs =>
    (labelRun W H i curr t prev).bind fun (t, currentLabel, prev) =>
      (labelRuns W H i t prev runs).map fun (t, labelled) => (t, (curr, currentLabel) :: labelled)

/-- A row: the tables and the runs of the row above become those of this row. The row's arrays have
`runLabelW` entries; `none` is a store behind them. -/
def labelRow (W H i : Nat) (t : Labels) (last : List (Run × Nat)) :
    Option (Labels × List (Run × Nat)) :=
  let runs := scanRow above W (i * W)
  if runs.length ≤ W / 2 then labelRuns W H i t last runs else none

/-- The rows before `i`, from tables with any content. -/
def labelRows (W H : Nat) (t : Labels) : Nat → Option (Labels × List (Run × Nat))
  | 0 => some ({ t with label := 0 }, [])
  | i + 1 => (labelRows W H t i).bind fun (t, last) => labelRow above W H i t last

/-- The labelling phase of `getOrdFromGau`; `tables` is what `malloc` returns. -/
def getOrdFromGau (foreground : Nat → Byte) (thresh : BitVec 32) (W H : Nat) (tables : Labels) :
    Option Labels :=
  (labelRows (isForeground foreground thresh) W H tables H).map Prod.fst

end FullhanRtos.Motion
