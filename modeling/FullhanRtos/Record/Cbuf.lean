import FullhanRtos.Lib.Bytes
import FullhanRtos.Lib.Ring
import FullhanRtos.Lib.Transition

/-!
# The record buffer

A producer writes frames into a ring with `cbuf_write`, and a consumer takes them out with
`cbuf_prefetch` and `cbuf_advance`, without a lock. Every store of the producer and every load of
the consumer is a step of its own.
-/

namespace FullhanRtos.Record

open Bytes Ring

/-! ## Frames in the buffer -/

/-- The arguments of `cbuf_write`. -/
structure RecordFrame where
  type : BitVec 32
  channel : BitVec 32
  data : List Byte
  deriving DecidableEq

structure StreamHead where
  magic : BitVec 32
  type : BitVec 32
  channel : BitVec 32
  dataLength : BitVec 32
  bufferLength : BitVec 32
  deriving DecidableEq

def streamMagic : BitVec 32 := 0x13769849

/-- `sizeof(struct stream_head)` -/
def headSize : Nat := 20

def intBytes (v : BitVec 32) : List Byte := leBytes 4 v.toNat

def loadInt (bytes : List Byte) : BitVec 32 := BitVec.ofNat 32 (leValue bytes)

def StreamHead.bytes (hdr : StreamHead) : List Byte :=
  intBytes hdr.magic ++ intBytes hdr.type ++ intBytes hdr.channel ++ intBytes hdr.dataLength ++
    intBytes hdr.bufferLength

def loadHead (bytes : List Byte) : StreamHead where
  magic := loadInt (bytes.take 4)
  type := loadInt ((bytes.drop 4).take 4)
  channel := loadInt ((bytes.drop 8).take 4)
  dataLength := loadInt ((bytes.drop 12).take 4)
  bufferLength := loadInt ((bytes.drop 16).take 4)

structure Cbuf where
  rd : Nat
  wr : Nat
  size : Nat
  buf : Nat → Byte

/-- `cbuf_init`. Nothing is known about the bytes of a new buffer. -/
def cbufInit (size : Int) (buf : Nat → Byte) : Option Cbuf :=
  if size ≤ 0 ∨ size > 20 * 1024 * 1024 then none
  else some { rd := 0, wr := 0, size := (size.toNat + 31) / 32 * 32, buf }

/-! ## The producer -/

/-- How `cbuf_write` goes on after its checks: with its stores in order and the new `wr`. -/
inductive CbufWrite
  | refused
  | internalError
  | stores (ws : List (Nat × Byte)) (wr : Nat)

def alignedLength (length : Nat) : Nat := (length + 3) / 4 * 4

/-- The two calls of `memcpy`. -/
def payloadStores (size wr : Nat) (data : List Byte) : List (Nat × Byte) :=
  let segsz := size - wr
  if segsz < data.length then stores wr (data.take segsz) ++ stores 0 (data.drop segsz)
  else stores wr data

def streamHead (frame : RecordFrame) (bufferLength : BitVec 32) : StreamHead where
  magic := streamMagic
  type := frame.type
  channel := frame.channel
  dataLength := BitVec.ofNat 32 frame.data.length
  bufferLength := bufferLength

/-- The part of `cbuf_write` behind its checks: the stores and the new `wr`. -/
def frameStores (size wr : Nat) (frame : RecordFrame) : List (Nat × Byte) × Nat :=
  let aligned := alignedLength frame.data.length
  let hdr := streamHead frame (BitVec.ofNat 32 aligned)
  let payload := if size ≤ wr + headSize then 0 else wr + headSize
  let ws := stores wr hdr.bytes ++ payloadStores size payload frame.data
  let next := (payload + aligned) % size
  if size - next < headSize then
    (ws ++ stores (wr + 16) (intBytes (hdr.bufferLength + BitVec.ofNat 32 (size - next))), 0)
  else (ws, next)

/-- `cbuf_write`, with the `rd` and `wr` that it has loaded. -/
def cbufWrite (cbuf : Cbuf) (frame : RecordFrame) : CbufWrite :=
  let rd := cbuf.rd
  let wr := cbuf.wr
  let size := cbuf.size
  let length := frame.data.length
  let room := if wr < rd then rd - wr else size - wr + rd
  if length = 0 ∨ (size : Int) - 1024 ≤ length then .refused
  else if room < headSize * 2 + alignedLength length + 1 then .refused
  else if size < wr + headSize then .internalError
  else
    let (ws, wr) := frameStores size wr frame
    .stores ws wr

/-! ## The consumer -/

/-- What `cbuf_prefetch` returns: the offsets and sizes of the segments instead of pointers. -/
structure Prefetched where
  type : BitVec 32
  channel : BitVec 32
  seg1 : Nat
  seg1sz : Nat
  seg2sz : Nat
  advanceLength : BitVec 32
  deriving DecidableEq

/-- `clen` -/
def cbufLength (cbuf : Cbuf) : Nat :=
  if cbuf.rd ≤ cbuf.wr then cbuf.wr - cbuf.rd else cbuf.size - cbuf.rd + cbuf.wr

/-- `cbuf_prefetch` with the header it has loaded, or none for the internal error. -/
def cbufPrefetch (cbuf : Cbuf) (clen : Nat) (hdr : StreamHead) : Option Prefetched :=
  if hdr.magic ≠ streamMagic ∨ hdr.dataLength.toInt ≤ 0 ∨ (cbuf.size : Int) ≤ hdr.dataLength.toInt ∨
      hdr.bufferLength.toInt < hdr.dataLength.toInt ∨
      clen < (BitVec.ofNat 32 headSize + hdr.bufferLength).toNat then
    none
  else
    let rd := if cbuf.size ≤ cbuf.rd + headSize then 0 else cbuf.rd + headSize
    let length := hdr.dataLength.toNat
    let seg1sz := if length ≤ cbuf.size - rd then length else cbuf.size - rd
    some
      { type := hdr.type
        channel := hdr.channel
        seg1 := rd
        seg1sz
        seg2sz := length - seg1sz
        advanceLength := BitVec.ofNat 32 headSize + hdr.bufferLength }

def cbufAdvance (cbuf : Cbuf) (advanceLength : BitVec 32) : Cbuf :=
  if advanceLength.toInt ≤ 0 then cbuf
  else { cbuf with rd := (cbuf.rd + advanceLength.toNat) % cbuf.size }

/-- Bytes at consecutive addresses. -/
def loadBytes (buf : Nat → Byte) (a n : Nat) : List Byte := (List.range n).map fun i => buf (a + i)

def segments (buf : Nat → Byte) (f : Prefetched) : List Byte :=
  loadBytes buf f.seg1 f.seg1sz ++ loadBytes buf 0 f.seg2sz

/-! ## Both together -/

/-- The producer is not in `cbuf_write`, or it has stores in front of it and then its update of
`wr`. -/
inductive Producer
  | idle
  | storing (frame : RecordFrame) (ws : List (Nat × Byte)) (wr : Nat)

/-- The consumer is not in `cbuf_prefetch`, loads the bytes of a header, or uses a frame. -/
inductive Consumer
  | idle
  | loading (clen : Nat) (bytes : List Byte)
  | inUse (f : Prefetched)

structure RecordState where
  cbuf : Cbuf
  producer : Producer
  consumer : Consumer
  /-- An internal error was printed. -/
  internalError : Bool

/-- The steps of the producer (`write`, `store`, `publish`) and of the consumer (`prefetch`,
`load`, `check`, `advance`). -/
inductive RecordOp
  | write (frame : RecordFrame)
  | store
  | publish
  | prefetch
  | load
  | check
  | advance

def recordStep (s : RecordState) : RecordOp → Option RecordState
  | .write frame =>
    match s.producer with
    | .idle =>
      match cbufWrite s.cbuf frame with
      | .refused => some s
      | .internalError => some { s with internalError := true }
      | .stores ws wr => some { s with producer := .storing frame ws wr }
    | _ => none
  | .store =>
    match s.producer with
    | .storing frame (w :: ws) wr =>
      some { s with
        cbuf := { s.cbuf with buf := Ring.store s.cbuf.buf w }
        producer := .storing frame ws wr }
    | _ => none
  | .publish =>
    match s.producer with
    | .storing _ [] wr => some { s with cbuf := { s.cbuf with wr }, producer := .idle }
    | _ => none
  | .prefetch =>
    match s.consumer with
    | .idle =>
      if s.cbuf.rd = s.cbuf.wr then some s
      else if s.cbuf.size < s.cbuf.rd + headSize then some { s with internalError := true }
      else some { s with consumer := .loading (cbufLength s.cbuf) [] }
    | _ => none
  | .load =>
    match s.consumer with
    | .loading clen bytes =>
      if bytes.length < headSize then
        some { s with
          consumer := .loading clen (bytes ++ [s.cbuf.buf (s.cbuf.rd + bytes.length)]) }
      else none
    | _ => none
  | .check =>
    match s.consumer with
    | .loading clen bytes =>
      if bytes.length < headSize then none
      else
        match cbufPrefetch s.cbuf clen (loadHead bytes) with
        | none => some { s with consumer := .idle, internalError := true }
        | some f =>
          some { s with
            cbuf := { s.cbuf with
              buf := storeAll s.cbuf.buf (stores s.cbuf.rd (intBytes 0)) }
            consumer := .inUse f }
    | _ => none
  | .advance =>
    match s.consumer with
    | .inUse f => some { s with cbuf := cbufAdvance s.cbuf f.advanceLength, consumer := .idle }
    | _ => none

def recordStart (cbuf : Cbuf) : RecordState := ⟨cbuf, .idle, .idle, false⟩

/-! ## What the buffer is for -/

/-- A queue with its history: the frames that were accepted and those that were taken out. -/
structure Fifo where
  accepted : List RecordFrame
  taken : List RecordFrame

inductive FifoEvent
  | push (frame : RecordFrame)
  | pop (frame : RecordFrame)
  deriving DecidableEq

/-- Only the first frame that was not taken yet can be taken. -/
def fifoStep (fifo : Fifo) : FifoEvent → Option Fifo
  | .push frame => some { fifo with accepted := fifo.accepted ++ [frame] }
  | .pop frame =>
    if fifo.accepted[fifo.taken.length]? = some frame then
      some { fifo with taken := fifo.taken ++ [frame] }
    else none

/-- A frame is in the queue when the producer is done with it, and out of it when `cbuf_prefetch`
returns it. -/
def fifoEvents (s : RecordState) (op : RecordOp) (s' : RecordState) : List FifoEvent :=
  match op, s.producer, s'.consumer with
  | .publish, .storing frame _ _, _ => [.push frame]
  | .check, _, .inUse f => [.pop ⟨f.type, f.channel, segments s'.cbuf.buf f⟩]
  | _, _, _ => []

def RecordOp.consumer : RecordOp → Bool
  | .prefetch | .load | .check | .advance => true
  | _ => false

/-- Whether a byte of the buffer is between `rd` and `wr`. -/
def Unread (cbuf : Cbuf) (a : Nat) : Prop :=
  if cbuf.rd ≤ cbuf.wr then cbuf.rd ≤ a ∧ a < cbuf.wr else cbuf.rd ≤ a ∨ a < cbuf.wr

structure RecordOk (s : RecordState) (fifo : Fifo) : Prop where
  noError : s.internalError = false
  /-- The frame in use stays what it was when it was taken. -/
  held : ∀ f, s.consumer = .inUse f →
    fifo.taken.getLast? = some ⟨f.type, f.channel, segments s.cbuf.buf f⟩
  /-- The producer stores to the buffer only, and not to unread bytes. -/
  fresh : ∀ frame ws wr, s.producer = .storing frame ws wr →
    ∀ w ∈ ws, w.1 < s.cbuf.size ∧ ¬ Unread s.cbuf w.1
  refused : ∀ frame s', recordStep s (.write frame) = some s' → s'.producer = .idle → s' = s
  /-- The consumer alone can take every frame. -/
  drained : ∃ ops s' fifo', (∀ op ∈ ops, op.consumer = true) ∧
    Transition.exec recordStep s ops = some s' ∧
    Transition.exec fifoStep fifo (Transition.trace recordStep fifoEvents s ops) = some fifo' ∧
    fifo'.accepted = fifo.accepted ∧ fifo'.taken = fifo.accepted

end FullhanRtos.Record
