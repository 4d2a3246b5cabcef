import FullhanRtos.Lib.ListFamily
import FullhanRtos.Lib.Sizes
import FullhanRtos.Lib.Transition
import FullhanRtos.Pes.Headers
import Mathlib.Data.Fintype.Basic

/-!
# Units of a channel

The transport units of `libpes`: `libpes_stream_pack` cuts the program stream of a frame into units
of `tsUnitsMaxSize` bytes on a list of its own, and hands the list over to the channel at the end,
or gives the units back if a unit could not be allocated. A thread takes the units of the channels
one by one, sends them, and puts them back into a list of free units.

All calls hold the lock, so each is one step. The lists are linked through the units themselves.
-/

namespace FullhanRtos.Pes

open Bytes ListPair ListFamily

/-! ## State -/

/-- The lists: free units, the units of the frame that is packed, and those of the channels. -/
inductive Place
  | free
  | swap
  | channel (k : Fin 32)
  deriving DecidableEq

/-- What a `struct list_head *` points to. -/
inductive Node
  | null
  | poison1
  | poison2
  | head (place : Place)
  | unit (id : Nat)
  deriving DecidableEq

/-- `struct vlcview_info` without the list and the target address. -/
structure VlcviewInfo where
  tsListPktNum : Nat
  configured : Bool
  frameNum : BitVec 32
  memoryLimit : Nat

/-- The variables of the module. `data` is `buf` up to `len` of each unit. `blocks` are the units
that `malloc` has given out, `mallocs` is what it answers next, and `sending` is the unit that the
thread sends. -/
structure Libpes where
  links : Links Node
  data : Nat → List Byte
  freeTsPktNum : Nat
  swapTsPkt : Option Nat
  info : Fin 32 → VlcviewInfo
  inited : Bool
  blocks : List Nat
  mallocs : List (Option Nat)
  sending : Option Nat

def tsUnitsMaxSize : Nat := 1316

def freeCachedTsNumMax : Nat := 800

/-! ## Lists and units -/

variable (s : Libpes)

def listAddTail (place : Place) (id : Nat) : Libpes :=
  { s with links := s.links.insertBefore (.head place) (.unit id) }

def listDel (id : Nat) : Libpes :=
  { s with
    links := ((unlink s.links (.unit id)).setNext (.unit id) .poison1).setPrev (.unit id) .poison2 }

def initListHead (place : Place) : Libpes := { s with links := s.links.init (.head place) }

def visitUnit (visit : Nat → Libpes → Libpes) : Node → Libpes → Option Libpes
  | .unit id, s => some (visit id s)
  | _, _ => none

/-- Visit the units of a list, where a visit may move or free the unit. A walk that meets more nodes
than there are units is not on the way to the head. -/
def forEachUnit (place : Place) (visit : Nat → Libpes → Libpes) : Option Libpes :=
  forEachSafe Libpes.links (.head place) (visitUnit visit) s.blocks.length
    (s.links.next (.head place)) s

def setData (id : Nat) (bytes : List Byte) : Libpes :=
  { s with data := Function.update s.data id bytes }

def setInfo (k : Fin 32) (info : VlcviewInfo) : Libpes :=
  { s with info := Function.update s.info k info }

def freeBlock (id : Nat) : Libpes := { s with blocks := s.blocks.erase id }

/-- `malloc`. It does not give out a unit that is in use. -/
def malloc : Option Nat × Libpes :=
  match s.mallocs with
  | [] => (none, s)
  | answer :: rest =>
    match answer.filter (· ∉ s.blocks) with
    | none => (none, { s with mallocs := rest })
    | some id => (some id, { s with mallocs := rest, blocks := id :: s.blocks })

/-- The unit at the front of a list is unlinked. -/
def takeFirst (place : Place) : Option (Nat × Libpes) :=
  match s.links.next (.head place) with
  | .unit id => some (id, listDel s id)
  | _ => none

def allocTsPkt : Option (Option Nat × Libpes) :=
  if s.links.isEmpty (.head .free) then
    match malloc s with
    | (none, s) => some (none, s)
    | (some id, s) => some (some id, setData s id [])
  else
    (takeFirst s .free).map fun (id, s) =>
      (some id, setData { s with freeTsPktNum := s.freeTsPktNum - 1 } id [])

def freeTsPkt (id : Nat) : Libpes :=
  if s.freeTsPktNum < freeCachedTsNumMax then
    let s := listAddTail s .free id
    { s with freeTsPktNum := s.freeTsPktNum + 1 }
  else freeBlock s id

/-- A round of `ts_add_data`: bytes for the unit `id`, which is full then or stays `g_swap_ts_pkt`,
and the bytes that are left. -/
def fillUnit (id : Nat) (data : List Byte) : Libpes × List Byte :=
  let nbytes := min (tsUnitsMaxSize - (s.data id).length) data.length
  let s := setData s id (s.data id ++ data.take nbytes)
  (if (s.data id).length ≥ tsUnitsMaxSize then { listAddTail s .swap id with swapTsPkt := none }
    else { s with swapTsPkt := some id }, data.drop nbytes)

/-- `ts_add_data` in at most `fuel` rounds, and whether it succeeds. -/
def tsAddData : Nat → List Byte → Libpes → Option (Bool × Libpes)
  | _, [], s => some (true, s)
  | 0, _ :: _, _ => none
  | fuel + 1, b :: bs, s =>
    let unit : Option (Option Nat × Libpes) := match s.swapTsPkt with
      | some id => some (some id, s)
      | none => allocTsPkt s
    unit.bind fun (id, s) => match id with
      | none => some (false, s)
      | some id =>
        let (s, rest) := fillUnit s id (b :: bs)
        tsAddData fuel rest s

/-- A visit of `ts_add_data_end`. -/
def handOver (k : Fin 32) (id : Nat) (s : Libpes) : Libpes :=
  let s := listAddTail s (.channel k) id
  setInfo s k { s.info k with tsListPktNum := (s.info k).tsListPktNum + 1 }

/-- `ts_add_data_end` up to its loop: the last unit. -/
def flushSwapPkt : Libpes :=
  match s.swapTsPkt with
  | none => s
  | some id =>
    let s := if 0 < (s.data id).length then listAddTail s .swap id else freeTsPkt s id
    { s with swapTsPkt := none }

def tsAddDataEnd (k : Fin 32) : Option Libpes :=
  (forEachUnit (flushSwapPkt s) .swap (handOver k)).map (initListHead · .swap)

/-- `ts_add_data_abandom` up to its loop. -/
def dropSwapPkt : Libpes :=
  match s.swapTsPkt with
  | none => s
  | some id => { freeTsPkt s id with swapTsPkt := none }

def tsAddDataAbandom : Option Libpes :=
  forEachUnit (dropSwapPkt s) .swap fun id s => freeTsPkt (listDel s id) id

def tsGet (k : Fin 32) : Option (Option Nat × Libpes) :=
  if (s.info k).configured ∧ ¬ s.links.isEmpty (.head (.channel k)) then
    (takeFirst s (.channel k)).map fun (id, s) =>
      (some id, setInfo s k { s.info k with tsListPktNum := (s.info k).tsListPktNum - 1 })
  else some (none, s)

def channelInfoReset (k : Fin 32) : Option Libpes :=
  (if s.links.next (.head (.channel k)) = .null then some (initListHead s (.channel k))
    else forEachUnit s (.channel k) fun id s => freeBlock (listDel s id) id).map
      fun s => setInfo s k ⟨0, false, 0, 0⟩

def resetChannels : List (Fin 32) → Libpes → Option Libpes
  | [], s => some s
  | k :: ks, s => (channelInfoReset s k).bind (resetChannels ks)

/-! ## Calls -/

inductive EncType
  | h264
  | h265
  | other
  deriving DecidableEq

inductive EncFrameType
  | iFrame
  | pFrame
  | other
  deriving DecidableEq

/-- `struct vlcview_enc_stream_element` with the NAL units that it counts. -/
structure StreamElement where
  frameType : EncFrameType
  encType : EncType
  timeStamp : BitVec 64
  nalu : List Nalu

/-- How `libpes_stream_pack` ends: with -1, or with 0 and the list of units handed over or not. -/
inductive PackResult
  | error
  | abandoned
  | done
  deriving DecidableEq

def clock90k (element : StreamElement) : BitVec 64 := element.timeStamp * 9 / 100

def encTypeOf : EncType → Option Byte
  | .h264 => some streamTypeVideoH264
  | .h265 => some streamTypeVideoH265
  | .other => none

def frameTypeOf : EncFrameType → Option (FrameType × Bool)
  | .iFrame => some (.iFrame, true)
  | .pFrame => some (.pFrame, false)
  | .other => none

def psmuxParam (element : StreamElement) (encType : Byte) (frameType : FrameType × Bool)
    (frameNum : BitVec 32) (i : Nat) (nalu : Nalu) : ProcessParam where
  encType := encType
  frameType := frameType.1
  isFirstUnit := i = 0
  isLastUnit := i + 1 = element.nalu.length
  isKeyFrame := frameType.2
  isUnitStart := true
  isUnitEnd := true
  sysClkRef := clock90k element
  ptimeStamp := clock90k element
  frameNum := frameNum
  unitIn := nalu
  encrypt := 0

/-- The calls of `ts_add_data` for all NAL units. -/
def packPieces (element : StreamElement) (encType : Byte) (frameType : FrameType × Bool)
    (frameNum : BitVec 32) : List (List Byte) :=
  (element.nalu.mapIdx fun i nalu =>
    doPackNalu (psmuxParam element encType frameType frameNum i nalu)).flatten

/-- The calls one after the other, and whether all succeed. -/
def addPieces : List (List Byte) → Bool → Libpes → Option (Bool × Libpes)
  | [], ok, s => some (ok, s)
  | piece :: rest, ok, s =>
    (tsAddData piece.length piece s).bind fun (added, s) => addPieces rest (ok && added) s

/-- The zeros that fill up `total_len` to four bytes. -/
def padding (pieces : List (List Byte)) : List Byte :=
  let totalLen := (pieces.map List.length).sum % 2 ^ 32
  if totalLen % 4 = 0 then [] else List.replicate (4 - totalLen % 4) 0

/-- Whether the units that wait in the channel leave room for the frame. -/
def hasRoom (info : VlcviewInfo) (element : StreamElement) : Bool :=
  let len : BitVec 32 := (element.nalu.map fun nalu => BitVec.ofNat 32 nalu.data.length).sum
  Word.add32 (len.sdiv 1316).toNat info.tsListPktNum ≤ info.memoryLimit

def packFrame (k : Fin 32) (element : StreamElement) (encType : Byte)
    (frameType : FrameType × Bool) (frameNum : BitVec 32) : Option (PackResult × Libpes) :=
  if hasRoom (s.info k) element then
    let pieces := packPieces element encType frameType frameNum
    (addPieces pieces true s).bind fun (ok, s) =>
      (if ok then tsAddData (padding pieces).length (padding pieces) s
        else some (false, s)).bind fun (ok, s) =>
        if ok then (tsAddDataEnd s k).map (.done, ·)
        else (tsAddDataAbandom s).map (.abandoned, ·)
  else some (.error, s)

def packChannel (k : Fin 32) (element : StreamElement) : Option (PackResult × Libpes) :=
  if (s.info k).configured then
    let frameNum := (s.info k).frameNum + 1
    let s := setInfo s k { s.info k with frameNum := frameNum }
    match encTypeOf element.encType, frameTypeOf element.frameType with
    | some encType, some frameType => packFrame s k element encType frameType frameNum
    | _, _ => some (.error, s)
  else some (.error, s)

/-- The element of the array, if there is one. -/
def channelOf (channel : Int) : Option (Fin 32) :=
  if h : channel.toNat < 32 then if 0 ≤ channel then some ⟨channel.toNat, h⟩ else none else none

def streamPack (channel : Int) (element : StreamElement) : Option (PackResult × Libpes) :=
  match channelOf channel with
  | none => some (.error, s)
  | some k => packChannel s k element

/-- `CHN0_BUF_SIZE` and `OTHER_CHN_BUF_SIZE`, in units. -/
def memoryLimitOf (k : Fin 32) : Nat := (if k = 0 then 0x500000 else 0x300000) / tsUnitsMaxSize

def sendToVlc (channel : Int) (ip : Bool) (port : Int) : Option Libpes :=
  match channelOf channel with
  | none => some s
  | some k =>
    if ip ∧ 0 < port ∧ port < 2 ^ 16 ∧ s.inited ∧ ¬ (s.info k).configured then
      (channelInfoReset s k).map fun s =>
        setInfo s k { s.info k with memoryLimit := memoryLimitOf k, configured := true }
    else some s

/-- `libpes_init`, where `ok` says that the socket and the thread can be created. -/
def libpesInit (ok : Bool) : Option Libpes :=
  if ¬ s.inited ∧ ok then
    (resetChannels (List.finRange 32) (initListHead (initListHead s .free) .swap)).map fun s =>
      { s with inited := true }
  else some s

/-- `libpes_uninit`, which waits for the thread. The thread ends when it sends nothing. -/
def libpesUninit : Option Libpes :=
  if s.inited ∧ s.sending = none then
    (resetChannels (List.finRange 32) s).bind fun s =>
      (forEachUnit s .free fun id s => freeBlock (listDel s id) id).map fun s =>
        { s with freeTsPktNum := 0, inited := false }
  else some s

/-- The calls, and the two steps of the thread: it takes a unit of a channel and puts it back. -/
inductive LibpesOp
  | init (ok : Bool)
  | uninit
  | sendToVlc (channel : Int) (ip : Bool) (port : Int)
  | streamPack (channel : Int) (element : StreamElement) (mallocs : List (Option Nat))
  | get (k : Fin 32)
  | put

def libpesStep : LibpesOp → Option Libpes
  | .init ok => libpesInit s ok
  | .uninit => libpesUninit s
  | .sendToVlc channel ip port => sendToVlc s channel ip port
  | .streamPack channel element mallocs =>
    (streamPack { s with mallocs := mallocs } channel element).map Prod.snd
  | .get k =>
    if s.inited ∧ s.sending = none then
      (tsGet s k).map fun (id, s) => { s with sending := id }
    else some s
  | .put =>
    some (match s.sending with
      | none => s
      | some id => { freeTsPkt s id with sending := none })

/-- The variables before the first call. -/
def libpesStart : Libpes where
  links := ⟨fun _ => .null, fun _ => .null⟩
  data := fun _ => []
  freeTsPktNum := 0
  swapTsPkt := none
  info := fun _ => ⟨0, false, 0, 0⟩
  inited := false
  blocks := []
  mallocs := []
  sending := none

/-! ## What holds -/

def HoldsUnits (s : Libpes) (place : Place) (ids : List Nat) : Prop :=
  LinkedRing.IsRing s.links.next s.links.prev (.head place :: ids.map .unit) ∧ ids.Nodup

/-- The lists between two calls: linked, without common units, and counted. -/
structure ListsOk (s : Libpes) (lists : Place → List Nat) : Prop where
  holds : ∀ place, HoldsUnits s place (lists place)
  apart : ∀ place place', place ≠ place' → List.Disjoint (lists place) (lists place')
  sending : ∀ id, s.sending = some id → ∀ place, id ∉ lists place
  free : s.freeTsPktNum = (lists .free).length
  free_le : s.freeTsPktNum ≤ freeCachedTsNumMax
  channel : ∀ k, (s.info k).tsListPktNum = (lists (.channel k)).length

/-- The module is in order, if it is initialised. -/
def LibpesOk (s : Libpes) : Prop := s.inited → ∃ lists, ListsOk s lists

/-- The program stream of a frame: what the calls of `ts_add_data` get, and zeros up to a multiple
of four bytes. -/
def programStream (element : StreamElement) (frameNum : BitVec 32) : List Byte :=
  match encTypeOf element.encType, frameTypeOf element.frameType with
  | some encType, some frameType =>
    let bytes := (packPieces element encType frameType frameNum).flatten
    bytes ++ List.replicate ((4 - bytes.length % 4) % 4) 0
  | _, _ => []

/-- A pack that is done appends its program stream to the list of the channel, in units that are
full up to the last one. Every other pack leaves the list as it is. -/
def PackOk (s : Libpes) (k : Fin 32) (element : StreamElement) (result : PackResult)
    (s' : Libpes) : Prop :=
  ∀ ids, HoldsUnits s (.channel k) ids → (∀ id ∈ ids, s'.data id = s.data id) ∧
    if result = .done then
      ∃ new, HoldsUnits s' (.channel k) (ids ++ new) ∧
        new.flatMap s'.data = programStream element ((s.info k).frameNum + 1) ∧
        ∀ id ∈ new.dropLast, (s'.data id).length = tsUnitsMaxSize
    else HoldsUnits s' (.channel k) ids

/-- Every pack of a run is right. -/
def PacksOk (s : Libpes) (op : LibpesOp) : Prop :=
  ∀ channel element mallocs k result s', op = .streamPack channel element mallocs →
    channelOf channel = some k →
    streamPack { s with mallocs := mallocs } channel element = some (result, s') →
    PackOk s k element result s'

end FullhanRtos.Pes
