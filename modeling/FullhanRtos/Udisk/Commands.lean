import FullhanRtos.Uvc.Controls

/-!
# The USB disk

The commands of `drivers/usb/device/class/mstorage.c`: the command block wrapper is read from the
buffer of the OUT endpoint, `_cb_len_calc` and `_cbw_verify` compare its length with the one in the
command block, and the handler of the command starts the data stage. A handler that has no data
stage returns 0, and the status is sent.

`UdiskState.exchanges` and `UdiskState.accesses` record what was observed. The code does not read
them.
-/

namespace FullhanRtos.Udisk

open Uvc (Byte byteAt leNat)

/-! ## Data -/

/-- `struct ustorage_cbw`. -/
structure Cbw where
  signature : BitVec 32
  tag : BitVec 32
  xferLen : BitVec 32
  dflags : BitVec 8
  cb : List Byte
  deriving DecidableEq

/-- `struct ustorage_csw`. -/
structure Csw where
  signature : BitVec 32
  tag : BitVec 32
  dataReside : BitVec 32
  status : BitVec 8
  deriving DecidableEq

abbrev cbwSignature : BitVec 32 := 0x43425355#32
abbrev cswSignature : BitVec 32 := 0x53425355#32
abbrev sizeofCbw : BitVec 32 := 0x1f#32
abbrev sizeofCsw : BitVec 32 := 0x0d#32

/-- The wrapper in the buffer of the OUT endpoint. -/
def cbwAt (data : List Byte) : Cbw where
  signature := BitVec.ofNat 32 (leNat data 4)
  tag := BitVec.ofNat 32 (leNat (data.drop 4) 4)
  xferLen := BitVec.ofNat 32 (leNat (data.drop 8) 4)
  dflags := BitVec.ofNat 8 (byteAt data 12)
  cb := (List.range 16).map fun i => BitVec.ofNat 8 (byteAt data (15 + i))

/-- A byte of the command block in an `int`. -/
def Cbw.byte (cbw : Cbw) (i : Nat) : BitVec 32 := (cbw.cb.getD i 0#8).setWidth 32

/-- The block address and the number of blocks in a command block of ten bytes. -/
def Cbw.lba (cbw : Cbw) : BitVec 32 :=
  cbw.byte 2 <<< 24 ||| cbw.byte 3 <<< 16 ||| cbw.byte 4 <<< 8 ||| cbw.byte 5 <<< 0

def Cbw.blocks (cbw : Cbw) : BitVec 32 := cbw.byte 7 <<< 8 ||| cbw.byte 8 <<< 0

inductive Stat where
  | cbw
  | cmd
  | csw
  | receive
  | send
  deriving DecidableEq

inductive CbSizeType where
  | fixed
  | count
  | blockCount
  deriving DecidableEq

inductive CbDir where
  | dirIn
  | dirOut
  | dirNone
  deriving DecidableEq

/-- The handlers of `cmd_data`. -/
inductive Handler where
  | testUnitReady
  | requestSense
  | inquiryCmd
  | allowRemoval
  | modeSense6
  | modeSense10
  | startStop
  | readCapacities
  | readCapacity
  | write10
  | read10
  | verify10
  deriving DecidableEq

structure ScsiCmd where
  cmd : BitVec 16
  handler : Handler
  cmdLen : Nat
  type : CbSizeType
  dataSize : BitVec 32
  dir : CbDir
  deriving DecidableEq

def cmdData : List ScsiCmd :=
  [⟨0x00, .testUnitReady, 6, .fixed, 0, .dirNone⟩,
    ⟨0x03, .requestSense, 6, .count, 0, .dirIn⟩,
    ⟨0x12, .inquiryCmd, 6, .count, 0, .dirIn⟩,
    ⟨0x1e, .allowRemoval, 6, .fixed, 0, .dirNone⟩,
    ⟨0x1a, .modeSense6, 6, .count, 0, .dirIn⟩,
    ⟨0x5a, .modeSense10, 10, .count, 0, .dirIn⟩,
    ⟨0x1b, .startStop, 6, .fixed, 0, .dirNone⟩,
    ⟨0x23, .readCapacities, 10, .count, 0, .dirNone⟩,
    ⟨0x25, .readCapacity, 10, .fixed, 8, .dirIn⟩,
    ⟨0x2a, .write10, 10, .blockCount, 0, .dirOut⟩,
    ⟨0x28, .read10, 10, .blockCount, 0, .dirIn⟩,
    ⟨0x2f, .verify10, 10, .fixed, 0, .dirNone⟩]

def findCbwCommand (cmd : BitVec 16) : Option ScsiCmd := cmdData.find? fun entry => entry.cmd = cmd

inductive RequestBuffer where
  | csw
  | data
  deriving DecidableEq

structure UioRequest where
  buffer : RequestBuffer
  size : BitVec 32
  deriving DecidableEq

/-- An endpoint: its request, the one that the controller works on, and whether it is halted. -/
structure UEp where
  request : UioRequest
  inFlight : Option UioRequest
  stalled : Bool

/-- The endpoints. -/
inductive EpDir where
  | epIn
  | epOut
  deriving DecidableEq

/-- The geometry of the disk, and the offset of its partition. The buffers have 256 sectors. -/
structure UdiskConfig where
  sectorCount : BitVec 32
  bytesPerSector : BitVec 32
  offset : BitVec 32
  bytesPerSector_pos : 0 < bytesPerSector.toNat
  buffer_lt : bytesPerSector.toNat * 256 < 2 ^ 32

/-- `rt_malloc(data->geometry.bytes_per_sector * 256)`. -/
def UdiskConfig.bufferSize (config : UdiskConfig) : Nat := config.bytesPerSector.toNat * 256

/-- A disk transfer with its first sector, or a request to the controller. -/
inductive Access where
  | disk (sector count : Nat)
  | request (request : UioRequest)

/-- What was observed of a wrapper: itself if it was valid, the disk before, the bytes of the data
stage, whether the disk failed, the status that the host received, and the number of events since
then. -/
structure Exchange where
  cbw : Option Cbw
  before : Nat → List Byte
  moved : Nat
  received : List Byte
  failed : Bool
  csws : List Csw
  age : Nat

/-- `struct mstorage`, `STOP_FLAG`, the endpoints with their buffers, the disk, the messages to the
thread, and what was observed, the last one first. -/
structure UdiskState where
  csw : Csw
  status : Stat
  cbDataSize : BitVec 32
  block : BitVec 32
  count : BitVec 32
  size : BitVec 32
  processing : Option ScsiCmd
  stopFlag : BitVec 8
  epIn : UEp
  epOut : UEp
  inBuffer : List Byte
  outBuffer : List Byte
  disk : Nat → List Byte
  mq : List (EpDir × BitVec 32)
  accesses : List Access
  exchanges : List Exchange

/-! ## Requests -/

/-- `rt_usbd_io_request`. A request to a halted endpoint is suspended: nothing clears
`ep->stalled`. -/
def UEp.ioRequest (ep : UEp) (request : UioRequest) : UEp :=
  if ep.stalled then { ep with request } else { ep with request, inFlight := some request }

/-- A request to the controller is recorded if it is made. -/
def UdiskState.ioRequest (state : UdiskState) (dir : EpDir) (request : UioRequest) : UdiskState :=
  match dir with
  | .epIn =>
    { state with
      epIn := state.epIn.ioRequest request
      accesses := if state.epIn.stalled then state.accesses
        else .request request :: state.accesses }
  | .epOut =>
    { state with
      epOut := state.epOut.ioRequest request
      accesses := if state.epOut.stalled then state.accesses
        else .request request :: state.accesses }

def UdiskState.setStall (state : UdiskState) (dir : EpDir) : UdiskState :=
  match dir with
  | .epIn => { state with epIn := { state.epIn with stalled := true } }
  | .epOut => { state with epOut := { state.epOut with stalled := true } }

def sendStatus (state : UdiskState) : UdiskState :=
  { state.ioRequest .epIn ⟨.csw, sizeofCsw⟩ with status := .csw }

/-- `data->csw_response.data_reside`. -/
def UdiskState.setReside (state : UdiskState) (reside : BitVec 32) : UdiskState :=
  { state with csw := { state.csw with dataReside := reside } }

def UdiskState.setCswStatus (state : UdiskState) (status : BitVec 8) : UdiskState :=
  { state with csw := { state.csw with status } }

/-- Change the last exchange. -/
def UdiskState.observe (state : UdiskState) (f : Exchange → Exchange) : UdiskState :=
  { state with exchanges := state.exchanges.modifyHead f }

/-! ## The disk -/

/-- The sector of the disk at a position of the partition. -/
def UdiskConfig.sector (config : UdiskConfig) (pos : BitVec 32) : Nat := (config.offset + pos).toNat

def readSectors (disk : Nat → List Byte) (sector count : Nat) : List Byte :=
  (List.range count).flatMap fun i => disk (sector + i)

def writeSectors (config : UdiskConfig) (disk : Nat → List Byte) (sector count : Nat)
    (data : List Byte) : Nat → List Byte :=
  fun i =>
    if sector ≤ i ∧ i < sector + count then
      (data.drop ((i - sector) * config.bytesPerSector.toNat)).take config.bytesPerSector.toNat
    else disk i

/-- `rt_device_read` into the buffer of the IN endpoint, where the driver reads `done` sectors. What
is written behind the buffer is left out. -/
def rtDeviceRead (config : UdiskConfig) (state : UdiskState) (pos count : BitVec 32) (done : Nat) :
    UdiskState :=
  let sector := config.sector pos
  let bytes := readSectors state.disk sector (min done count.toNat)
  { state with
    inBuffer := (bytes ++ state.inBuffer.drop bytes.length).take config.bufferSize
    accesses := .disk sector count.toNat :: state.accesses }.observe fun exchange =>
      { exchange with failed := exchange.failed || done != count.toNat }

def rtDeviceWrite (config : UdiskConfig) (state : UdiskState) (pos count : BitVec 32) (done : Nat) :
    UdiskState :=
  let sector := config.sector pos
  { state with
    disk := writeSectors config state.disk sector (min done count.toNat) state.outBuffer
    accesses := .disk sector count.toNat :: state.accesses }.observe fun exchange =>
      { exchange with failed := exchange.failed || done != count.toNat }

/-! ## The handlers -/

/-- Write bytes into the buffer of the IN endpoint. -/
def UdiskState.fill (state : UdiskState) (pos : Nat) (bytes : List Byte) : UdiskState :=
  { state with inBuffer := Buffer.writeAt state.inBuffer pos bytes }

/-- The handlers that send at most `limit` bytes of the buffer, with what they return. -/
def reply (state : UdiskState) (limit : BitVec 32) : UdiskState × BitVec 32 :=
  let cbDataSize := if state.cbDataSize < limit then state.cbDataSize else limit
  ({ { state with cbDataSize }.ioRequest .epIn ⟨.data, cbDataSize⟩ with status := .cmd },
    cbDataSize)

def replyReside (state : UdiskState) (limit : BitVec 32) : UdiskState × BitVec 32 :=
  let (next, size) := reply state limit
  (next.setReside size, size)

abbrev sizeofInquiryCmd : BitVec 32 := 0x24#32
abbrev sizeofModeSense6 : BitVec 32 := 0x4#32
abbrev sizeofModeSense10 : BitVec 32 := 0x8#32
abbrev sizeofReadCapacities : BitVec 32 := 0xc#32
abbrev sizeofReadCapacity : BitVec 32 := 0x8#32
abbrev sizeofRequestSense : BitVec 32 := 0x12#32

def text (chars : List Char) : List Byte :=
  (chars.map fun char => BitVec.ofNat 8 char.toNat) ++ [0]

/-- The bytes of a number, the highest one first. -/
def be32 (value : BitVec 32) : List Byte :=
  [(value >>> 24).setWidth 8, (value >>> 16).setWidth 8, (value >>> 8).setWidth 8,
    value.setWidth 8]

def testUnitReady (state : UdiskState) : UdiskState × BitVec 32 :=
  (state.setCswStatus state.stopFlag, 0)

def allowRemoval (state : UdiskState) : UdiskState × BitVec 32 := (state.setCswStatus 1, 0)

/-- `_verify_10` and `_start_stop`. -/
def verify10 (state : UdiskState) : UdiskState × BitVec 32 := (state.setCswStatus 0, 0)

def startStop (state : UdiskState) : UdiskState × BitVec 32 := (state.setCswStatus 0, 0)

def inquiryCmd (state : UdiskState) : UdiskState × BitVec 32 :=
  replyReside
    ((((state.fill 0 [0, 0x80, 0, 0, 31, 0, 0, 0]).fill 8 (List.replicate 28 0x20)).fill 8
      (text ['F', 'U', 'L', 'L', 'H', 'A', 'N'])).fill 16
        (text ['R', 'T', 'T', ' ', 'U', ' ', 'D', 'i', 's', 'k']))
    sizeofInquiryCmd

/-- `_request_sense`. `SenseKey` is the lower half of its byte. -/
def requestSense (state : UdiskState) : UdiskState × BitVec 32 :=
  let senseKey := (state.inBuffer.getD 2 0 &&& 0xf0) ||| 5
  reply (((state.fill 0 [0x70]).fill 2 [senseKey, 0, 0, 0, 0, 0x0a]).fill 12 [0x3a, 0])
    sizeofRequestSense

def modeSense6 (state : UdiskState) : UdiskState × BitVec 32 :=
  replyReside (state.fill 0 [3, 0, 0, 0]) sizeofModeSense6

def modeSense10 (state : UdiskState) : UdiskState × BitVec 32 :=
  replyReside (state.fill 0 [0, 7, 0, 0, 0, 0, 0, 0]) sizeofModeSense10

def readCapacities (config : UdiskConfig) (state : UdiskState) : UdiskState × BitVec 32 :=
  replyReside
    (state.fill 0 ([0, 0, 0, 8] ++ be32 config.sectorCount ++
      0x02 :: (be32 config.bytesPerSector).drop 1))
    sizeofReadCapacities

def readCapacity (config : UdiskConfig) (state : UdiskState) : UdiskState × BitVec 32 :=
  reply ((state.fill 0 (be32 (config.sectorCount - 1) ++
    0 :: (be32 config.bytesPerSector).drop 1)).setCswStatus state.stopFlag) sizeofReadCapacity

/-- `_read_10`: `none` at the assertion. -/
def read10 (config : UdiskConfig) (state : UdiskState) (cbw : Cbw) (done : Nat) :
    Option (UdiskState × BitVec 32) :=
  if cbw.blocks < config.sectorCount then
    let state := { state with block := cbw.lba, count := cbw.blocks }.setReside state.cbDataSize
    let size := config.bytesPerSector * state.count
    let state := (rtDeviceRead config state (state.block - config.offset) state.count
      done).ioRequest .epIn ⟨.data, size⟩
    some ({ state with status := .send }, size)
  else none

def write10 (config : UdiskConfig) (state : UdiskState) (cbw : Cbw) : UdiskState × BitVec 32 :=
  let size := config.bytesPerSector * cbw.blocks
  let state := { state with
    block := cbw.lba
    count := cbw.blocks
    size := size }.setReside state.cbDataSize
  ({ state.ioRequest .epOut ⟨.data, size⟩ with status := .receive }, size)

def cbwHandler (config : UdiskConfig) (state : UdiskState) (cmd : ScsiCmd) (cbw : Cbw)
    (done : Nat) : Option (UdiskState × BitVec 32) :=
  let state := { state with processing := some cmd }
  match cmd.handler with
  | .testUnitReady => some (testUnitReady state)
  | .requestSense => some (requestSense state)
  | .inquiryCmd => some (inquiryCmd state)
  | .allowRemoval => some (allowRemoval state)
  | .modeSense6 => some (modeSense6 state)
  | .modeSense10 => some (modeSense10 state)
  | .startStop => some (startStop state)
  | .readCapacities => some (readCapacities config state)
  | .readCapacity => some (readCapacity config state)
  | .write10 => some (write10 config state cbw)
  | .read10 => read10 config state cbw done
  | .verify10 => some (verify10 state)

/-! ## The wrapper -/

def cbLenCalc (config : UdiskConfig) (cmd : ScsiCmd) (cbw : Cbw) (old : BitVec 32) : BitVec 32 :=
  if cmd.cmdLen = 6 then
    match cmd.type with
    | .count => cbw.byte 4
    | .blockCount => cbw.byte 4 * config.bytesPerSector
    | .fixed => cmd.dataSize
  else if cmd.cmdLen = 10 then
    match cmd.type with
    | .count => cbw.blocks
    | .blockCount => cbw.blocks * config.bytesPerSector
    | .fixed => cmd.dataSize
  else old

/-- The direction of the wrapper is not the one of the command. -/
def dirError (cmd : ScsiCmd) (cbw : Cbw) : Bool :=
  (cbw.dflags &&& 0x80#8 ≠ 0#8 && cmd.dir = .dirOut) ||
    (cbw.dflags &&& 0x80#8 = 0#8 && cmd.dir = .dirIn)

/-- `_cbw_verify`: `none` when it returns `RT_FALSE`. -/
def cbwVerify (state : UdiskState) (cmd : ScsiCmd) (cbw : Cbw) : Option UdiskState :=
  if 0 < cbw.xferLen ∧ state.cbDataSize = 0 then none
  else if cbw.xferLen = 0 ∧ 0 < state.cbDataSize then none
  else if dirError cmd cbw then none
  else if state.cbDataSize < cbw.xferLen then none
  else if cbw.xferLen < state.cbDataSize then
    some ({ state with cbDataSize := cbw.xferLen }.setCswStatus 1)
  else some state

end FullhanRtos.Udisk
