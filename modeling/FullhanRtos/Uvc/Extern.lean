import FullhanRtos.Lib.Transition
import FullhanRtos.Lib.Word
import FullhanRtos.Usb.FlashBase

/-!
# Updates through the extension unit

Messages of the host to the extension unit go through a queue to the thread `uvc_extern_set`. A
begin message allocates a buffer of the size that it announces, data messages fill it, and an end
message checks the CRC and writes the flash. The buffer is freed after an error and after a write of
the ISP parameters while the announced size and the count of bytes stay, so a later data message may
store to a null pointer and a later end message may read from it. `updates_safe_iff` is the exact
condition under which a run of messages stays inside the buffer.

A message that saves the device record acts on data that no message of an update touches, and does
nothing here.
-/

namespace FullhanRtos.UvcExtern

open Bytes UsbUpdate Word List Option

/-! ## State -/

structure XuRecvData where
  type : Nat
  size : Nat
  crc : Nat
  recvCnt : Nat
  blkSize : Nat
  flashAddr : Nat
  writeResult : Nat
  pData : Option (List Byte)

/-- `struct uvc_extern_data`, the bytes that a message carries. -/
structure UvcExternData where
  buf : List Byte
  length_buf : 1 ≤ buf.length ∧ buf.length ≤ 64

/-- The values of `update_flash`. -/
inductive UvcUpdate where
  | wait
  | udisk
  | vcom
  | dfua
  | dfup
  | hid

inductive IsocDataMode where
  | stream
  | flash

/-- What a message did with the receive buffer: stored bytes behind the pointer, read bytes from it,
or called `uvc_flash_write` with a block. -/
inductive Access where
  | store (pData : Option (List Byte)) (offset count : Nat)
  | load (pData : Option (List Byte)) (count : Nat)
  | flashWrite (block : List Byte)
  deriving DecidableEq

/-- The globals and the variables of the thread, with the payloads since the last begin message and
the accesses of the last message. -/
structure ExternState where
  uvcExternMq : Option (List UvcExternData)
  data : List Byte
  gRecvData : XuRecvData
  updateFlash : UvcUpdate
  gFlashAddr : Nat
  gFlashSize : Nat
  gUsbTempBuf : Option (List Byte)
  gIoscDataMode : IsocDataMode
  payload : List Byte
  accesses : List Access

def ExternState.init : ExternState where
  uvcExternMq := none
  data := replicate 64 0
  gRecvData := ⟨0, 0, 0, 0, 0, 0, 0, none⟩
  updateFlash := .wait
  gFlashAddr := 0
  gFlashSize := 0
  gUsbTempBuf := none
  gIoscDataMode := .stream
  payload := []
  accesses := []

def Data_Type_Drv : Nat := 0xd

def Data_Type_Flash : Nat := 0xf

def USB_TEMP_BUF_SIZE : Nat := 68 * 1024

def BUF_FLASH_HEAD_SIZE : Nat := 16

/-- A number in the message. -/
def field (data : List Byte) (pos n : Nat) : Nat := leValue ((data.drop pos).take n)

def mallocOk (n : Nat) : Option (List Byte) → Bool
  | none => true
  | some block => block.length == n

/-- `memcpy` to a pointer. What is behind the end of the block does not change it. -/
def storeAt (pData : Option (List Byte)) (offset : Nat) (bytes : List Byte) : Option (List Byte) :=
  pData.map fun block => (Buffer.writeAt block offset bytes).take block.length

/-- The bytes behind a pointer, where `low` is the memory at the null pointer. -/
def readAt (low : Nat → Byte) (pData : Option (List Byte)) (n : Nat) : List Byte :=
  match pData with
  | some block => block.take n
  | none => Memory.read low 0 n

/-! ## Messages -/

/-- The cases of the switch in `uvc_extern_set`. -/
inductive Command where
  | saveInfo
  | reset
  | udisk
  | vcom
  | hid
  | dfu
  | flash
  | header
  | dataBegin
  | dataSending
  | dataOver
  | other
  deriving DecidableEq

def command (b : Byte) : Command :=
  if b = 0xa0 then .saveInfo
  else if b = 0xaa then .reset
  else if b = 0x52 then .udisk
  else if b = 0x43 then .vcom
  else if b = 0x48 then .hid
  else if b = 0x83 then .dfu
  else if b = 0x46 then .flash
  else if b = 0xda then .header
  else if b = 0xdb then .dataBegin
  else if b = 0xdd then .dataSending
  else if b = 0xde then .dataOver
  else .other

/-- The command that the thread reads from a message. -/
def commandOf (data : List Byte) : Command := command (data.getD 0 0)

/-- Case `'F'`: reading the flash through the stream, or its end. -/
def flashCommand (s : ExternState) (block : Option (List Byte)) : Option ExternState :=
  if s.data.getD 1 0 = 0x52 then
    let addr := field s.data 2 4
    let size := field s.data 6 4
    if addr < 0xffffff then
      let max := USB_TEMP_BUF_SIZE - BUF_FLASH_HEAD_SIZE
      if mallocOk USB_TEMP_BUF_SIZE block then
        some { s with
          gFlashAddr := addr
          gFlashSize := if size > max then max else size
          gUsbTempBuf := if s.gUsbTempBuf.isNone then block else s.gUsbTempBuf
          gIoscDataMode := .flash }
      else none
    else some { s with gFlashAddr := addr, gFlashSize := size, gIoscDataMode := .stream }
  else if s.data.getD 1 0 = 0x45 then
    some { s with gUsbTempBuf := none, gIoscDataMode := .stream }
  else some s

/-- Case `0xdb`: the old buffer is freed and one of the announced size allocated. -/
def dataBegin (s : ExternState) (block : Option (List Byte)) : Option ExternState :=
  let size := field s.data 2 4
  if mallocOk size block then
    some { s with
      gRecvData := { s.gRecvData with
        type := (s.data.getD 1 0).toNat
        size
        crc := field s.data 6 4
        pData := block
        recvCnt := 0 }
      payload := [] }
  else none

/-- One of the two copies of case `0xdd`. -/
def receiveBytes (s : ExternState) (blkSize count recvCnt : Nat) : ExternState :=
  let recv := s.gRecvData
  { s with
    gRecvData := { recv with
      blkSize
      pData := storeAt recv.pData recv.recvCnt ((s.data.drop 1).take count)
      recvCnt }
    payload := s.payload ++ (s.data.drop 1).take blkSize
    accesses := [.store recv.pData recv.recvCnt count] }

/-- Case `0xdd`, for a message of `msgSize` bytes. -/
def dataSending (s : ExternState) (msgSize : Nat) : ExternState :=
  let recv := s.gRecvData
  let blkSize := sub32 msgSize 1
  if add32 recv.recvCnt blkSize < recv.size then
    receiveBytes s blkSize blkSize (add32 recv.recvCnt blkSize)
  else receiveBytes s blkSize (sub32 recv.size recv.recvCnt) recv.size

def uvcFlashWrite (s : ExternState) (block : List Byte) (isp : Bool) : ExternState :=
  let recv := s.gRecvData
  let s := { s with accesses := s.accesses ++ [.flashWrite block] }
  if recv.type = Data_Type_Flash then
    { s with gRecvData := { recv with writeResult := Data_Type_Flash } }
  else if recv.type = Data_Type_Drv then
    { s with gRecvData := { recv with
        writeResult := if isp then Data_Type_Drv else recv.writeResult
        pData := none } }
  else s

/-- Case `0xde`. -/
def dataOver (crc32Table : List (BitVec 32)) (low : Nat → Byte) (s : ExternState) (isp : Bool) :
    ExternState :=
  let recv := s.gRecvData
  if recv.recvCnt = recv.size then
    let block := readAt low recv.pData recv.size
    let s := { s with accesses := [.load recv.pData recv.size] }
    if recv.crc = (calcCRC crc32Table block).toNat then uvcFlashWrite s block isp
    else { s with gRecvData := { recv with pData := none } }
  else { s with gRecvData := { recv with pData := none } }

/-- The message is copied to the variable of the thread. -/
def received (s : ExternState) (msg : UvcExternData) : ExternState :=
  { s with data := Buffer.writeAt s.data 0 msg.buf, accesses := [] }

def externSet (crc32Table : List (BitVec 32)) (low : Nat → Byte) (s : ExternState)
    (msg : UvcExternData) (block : Option (List Byte)) (isp : Bool) : Option ExternState :=
  let s := received s msg
  match commandOf s.data with
  | .saveInfo => some s
  | .reset => some (if s.data.getD 1 0 = 0x02 then ExternState.init else s)
  | .udisk =>
    let reset := s.data.take 5 = [0x52, 0x45, 0x53, 0x45, 0x54]
    some { s with updateFlash := if reset then .udisk else s.updateFlash }
  | .vcom =>
    let comupdate := s.data.take 9 = [0x43, 0x4f, 0x4d, 0x55, 0x50, 0x44, 0x41, 0x54, 0x45]
    some { s with updateFlash := if comupdate then .vcom else s.updateFlash }
  | .hid => some { s with updateFlash := if s.data.getD 1 0 = 0x55 then .hid else s.updateFlash }
  | .dfu => some { s with updateFlash := if s.data.getD 1 0 = 0x11 then .dfua else .dfup }
  | .flash => flashCommand s block
  | .header => some { s with gRecvData := { s.gRecvData with flashAddr := field s.data 1 4 } }
  | .dataBegin => dataBegin s block
  | .dataSending => some (dataSending s msg.buf.length)
  | .dataOver => some (dataOver crc32Table low s isp)
  | .other => some s

/-- `uvc_extern_intr_ctrl`. The controls of the device record do not go to the queue, and a message
that finds the queue full is lost. -/
def uvcExternIntrCtrl (s : ExternState) (msg : UvcExternData) (cs : Nat) : ExternState :=
  if (cs > 2 ∧ cs < 16) ∨ cs = 0x16 then s
  else
    match s.uvcExternMq with
    | none => s
    | some mq => if mq.length < 10 then { s with uvcExternMq := some (mq ++ [msg]) } else s

/-- The thread starts, the host sends, or the thread receives. -/
inductive Request where
  | start
  | control (msg : UvcExternData) (cs : Nat)
  | receive (block : Option (List Byte)) (isp : Bool)

def externStep (crc32Table : List (BitVec 32)) (low : Nat → Byte) (s : ExternState) :
    Request → Option ExternState
  | .start => if s.uvcExternMq.isNone then some { s with uvcExternMq := some [] } else none
  | .control msg cs => some (uvcExternIntrCtrl s msg cs)
  | .receive block isp =>
    match s.uvcExternMq with
    | some (msg :: mq) => externSet crc32Table low { s with uvcExternMq := some mq } msg block isp
    | _ => none

/-! ## The property and its condition -/

/-- An access inside the buffer of the announced size, or a write of the received bytes. -/
def AccessOk (crc32Table : List (BitVec 32)) (s : ExternState) : Access → Prop
  | .store pData offset count =>
    count = 0 ∨ ∃ block, pData = some block ∧ block.length = s.gRecvData.size ∧
      offset + count ≤ s.gRecvData.size
  | .load pData count =>
    count = 0 ∨ ∃ block, pData = some block ∧ block.length = s.gRecvData.size ∧
      count ≤ s.gRecvData.size
  | .flashWrite block =>
    block = s.payload.take s.gRecvData.size ∧ block.length = s.gRecvData.size ∧
      (calcCRC crc32Table block).toNat = s.gRecvData.crc

/-- All accesses of the last message are. -/
def Safe (crc32Table : List (BitVec 32)) (s : ExternState) : Prop :=
  ∀ access ∈ s.accesses, AccessOk crc32Table s access

/-- The condition on a message: a data message that brings bytes which are still to come finds the
buffer, and its count does not wrap; an end message that finds all bytes received finds the buffer
that holds them. -/
def MessageOk (s : ExternState) (msg : UvcExternData) : Prop :=
  let recv := s.gRecvData
  match commandOf (received s msg).data with
  | .dataSending =>
    recv.recvCnt + (msg.buf.length - 1) < 2 ^ 32 ∧
      (1 < msg.buf.length ∧ recv.recvCnt < recv.size → recv.pData.isSome)
  | .dataOver => recv.recvCnt = recv.size ∧ recv.size ≠ 0 → recv.pData.isSome
  | _ => True

def RequestOk (s : ExternState) : Request → Prop
  | .receive _ _ =>
    match s.uvcExternMq with
    | some (msg :: _) => MessageOk s msg
    | _ => True
  | _ => True

/-- What holds between the messages of a safe run. -/
structure ExternInv (s : ExternState) : Prop where
  data : s.data.length = 64
  size_lt : s.gRecvData.size < 2 ^ 32
  count : s.gRecvData.recvCnt = min s.payload.length s.gRecvData.size
  block : ∀ block, s.gRecvData.pData = some block →
    block.length = s.gRecvData.size ∧
      block.take s.gRecvData.recvCnt = s.payload.take s.gRecvData.size

variable {crc32Table : List (BitVec 32)} {low : Nat → Byte} {s s' : ExternState}
  {msg : UvcExternData} {block : Option (List Byte)} {isp : Bool} {msgSize : Nat}

theorem init_inv : ExternInv ExternState.init where
  data := length_replicate
  size_lt := Nat.two_pow_pos 32
  count := rfl
  block := nofun

theorem safe_of_nil (h : s.accesses = []) : Safe crc32Table s := by
  intro access haccess
  rw [h] at haccess
  cases haccess

theorem ExternInv.congr (h : ExternInv s) (hdata : s'.data.length = 64)
    (hsize : s'.gRecvData.size = s.gRecvData.size)
    (hcount : s'.gRecvData.recvCnt = s.gRecvData.recvCnt)
    (hpData : s'.gRecvData.pData = s.gRecvData.pData) (hpayload : s'.payload = s.payload) :
    ExternInv s' where
  data := hdata
  size_lt := by rw [hsize]; exact h.size_lt
  count := by rw [hcount, hpayload, hsize]; exact h.count
  block := by rw [hpData, hcount, hpayload, hsize]; exact h.block

/-- The buffer may be freed. -/
theorem ExternInv.freed (h : ExternInv s) (hdata : s'.data = s.data)
    (hsize : s'.gRecvData.size = s.gRecvData.size)
    (hcount : s'.gRecvData.recvCnt = s.gRecvData.recvCnt)
    (hpData : s'.gRecvData.pData = none) (hpayload : s'.payload = s.payload) : ExternInv s' where
  data := by rw [hdata]; exact h.data
  size_lt := by rw [hsize]; exact h.size_lt
  count := by rw [hcount, hpayload, hsize]; exact h.count
  block := by rw [hpData]; exact nofun

theorem ExternInv.count_le (h : ExternInv s) : s.gRecvData.recvCnt ≤ s.gRecvData.size := by
  rw [h.count]
  exact Nat.min_le_right _ _

/-- The message is copied over the start of the variable. -/
theorem length_received (h : ExternInv s) (msg : UvcExternData) :
    (Buffer.writeAt s.data 0 msg.buf).length = 64 := by
  have hle := msg.length_buf.2
  have hdata := h.data
  rw [Buffer.length_write_at (by omega), hdata]

theorem field_lt (data : List Byte) (pos : Nat) : field data pos 4 < 2 ^ 32 := by
  have hlt := le_value_lt ((data.drop pos).take 4)
  have hlen : ((data.drop pos).take 4).length ≤ 4 := length_take_le 4 _
  have hpow : 256 ^ ((data.drop pos).take 4).length ≤ 256 ^ 4 :=
    Nat.pow_le_pow_right (by decide) hlen
  exact lt_of_lt_of_le hlt hpow

/-! ## The messages of an update -/

theorem data_begin_ok (h : ExternInv s) (hnone : s.accesses = [])
    (hbegin : dataBegin s block = some s') : ExternInv s' ∧ Safe crc32Table s' := by
  obtain ⟨hmalloc, hs'⟩ := ite_none_right_eq_some.mp hbegin
  obtain rfl := some.inj hs'
  refine ⟨⟨h.data, field_lt s.data 2, (Nat.zero_min _).symm, ?_⟩, safe_of_nil hnone⟩
  rintro b rfl
  exact ⟨eq_of_beq hmalloc, take_nil.symm⟩

/-- While the count does not wrap, a data message stores what is still to come. -/
theorem data_sending_eq (h : ExternInv s) (hmsg : 1 ≤ msgSize ∧ msgSize ≤ 64)
    (hfit : s.gRecvData.recvCnt + (msgSize - 1) < 2 ^ 32) :
    ∃ count, count = min (msgSize - 1) (s.gRecvData.size - s.gRecvData.recvCnt) ∧
      dataSending s msgSize = receiveBytes s (msgSize - 1) count (s.gRecvData.recvCnt + count) := by
  have hle := h.count_le
  have hlt := h.size_lt
  refine ⟨_, rfl, ?_⟩
  rw [dataSending, sub32_eq hmsg.1 (by omega), add32_eq hfit]
  by_cases hmore : s.gRecvData.recvCnt + (msgSize - 1) < s.gRecvData.size
  · rw [if_pos hmore, Nat.min_eq_left (by omega)]
  · rw [if_neg hmore, sub32_eq hle hlt, Nat.min_eq_right (by omega), Nat.add_sub_cancel' hle]

theorem take_store {block xs payload : List Byte} {size cnt count : Nat}
    (hblock : block.length = size) (htake : block.take cnt = payload.take size)
      (hcnt : cnt = min payload.length size)
    (hcount : count = min xs.length (size - cnt)) :
    ((Buffer.writeAt block cnt (xs.take count)).take block.length).take (cnt + count) =
      (payload ++ xs).take size := by
  have hlen : (xs.take count).length = count := by
    rw [length_take]
    omega
  have hfit : cnt + (xs.take count).length ≤ block.length := by omega
  have hwrite : (Buffer.writeAt block cnt (xs.take count)).take (cnt + count) =
      block.take cnt ++ xs.take count := by
    have htaken := Buffer.take_write_at hfit
    rwa [hlen] at htaken
  rw [take_take, Nat.min_eq_left (by omega), hwrite, htake, take_append]
  by_cases hfull : size ≤ payload.length
  · have hzero : count = 0 := by omega
    rw [hzero, Nat.sub_eq_zero_of_le hfull]
  · have hrest : xs.take count = xs.take (size - payload.length) := by
      rw [hcount, min_comm, ← take_take, hcnt, Nat.min_eq_left (by omega), take_length]
    rw [hrest]

theorem data_sending_ok (h : ExternInv s) (hmsg : 1 ≤ msgSize ∧ msgSize ≤ 64)
    (hfit : s.gRecvData.recvCnt + (msgSize - 1) < 2 ^ 32) :
    ExternInv (dataSending s msgSize) ∧
      (Safe crc32Table (dataSending s msgSize) ↔
        (1 < msgSize ∧ s.gRecvData.recvCnt < s.gRecvData.size → s.gRecvData.pData.isSome)) := by
  obtain ⟨count, hcount, heq⟩ := data_sending_eq h hmsg hfit
  have hle := h.count_le
  have hfirst : count ≤ msgSize - 1 := hcount ▸ Nat.min_le_left _ _
  have hbytes : ((s.data.drop 1).take (msgSize - 1)).length = msgSize - 1 := by
    rw [length_take, length_drop, h.data]
    omega
  rw [heq]
  refine ⟨⟨h.data, h.size_lt, ?_, ?_⟩, ?_⟩
  · show s.gRecvData.recvCnt + count =
      min (s.payload ++ (s.data.drop 1).take (msgSize - 1)).length s.gRecvData.size
    rw [length_append, hbytes]
    have hold := h.count
    omega
  · intro b hb
    obtain ⟨block, hblock, rfl⟩ := map_eq_some_iff.mp hb
    obtain ⟨hlen, htake⟩ := h.block block hblock
    have hxs : (s.data.drop 1).take count = ((s.data.drop 1).take (msgSize - 1)).take count := by
      rw [take_take, Nat.min_eq_left hfirst]
    have hwritten : (Buffer.writeAt block s.gRecvData.recvCnt ((s.data.drop 1).take count)).length =
        block.length :=
      Buffer.length_write_at (by rw [hxs, length_take, hbytes, Nat.min_eq_left hfirst]; omega)
    refine ⟨?_, ?_⟩
    · rw [length_take, hwritten, Nat.min_self]
      exact hlen
    · show ((Buffer.writeAt block s.gRecvData.recvCnt ((s.data.drop 1).take count)).take
        block.length).take (s.gRecvData.recvCnt + count) = _
      rw [hxs]
      exact take_store hlen htake h.count (by rw [hbytes]; exact hcount)
  · have hstore : Safe crc32Table (receiveBytes s (msgSize - 1) count
        (s.gRecvData.recvCnt + count)) ↔
        (count = 0 ∨ ∃ block, s.gRecvData.pData = some block ∧
          block.length = s.gRecvData.size ∧
          s.gRecvData.recvCnt + count ≤ s.gRecvData.size) := forall_mem_singleton
    rw [hstore]
    clear hstore
    constructor
    · rintro (hzero | ⟨block, hblock, -⟩) ⟨hone, hmore⟩
      · omega
      · rw [hblock]
        rfl
    · intro hcond
      by_cases hzero : count = 0
      · exact Or.inl hzero
      · have hmore : 1 < msgSize ∧ s.gRecvData.recvCnt < s.gRecvData.size := by omega
        have hinside : s.gRecvData.recvCnt + count ≤ s.gRecvData.size := by omega
        obtain ⟨block, hblock⟩ := isSome_iff_exists.mp (hcond hmore)
        exact Or.inr ⟨block, hblock, (h.block block hblock).1, hinside⟩

/-- A count that wraps stores behind the buffer. -/
theorem data_sending_wraps (h : ExternInv s) (hmsg : 1 ≤ msgSize ∧ msgSize ≤ 64)
    (hwrap : ¬ s.gRecvData.recvCnt + (msgSize - 1) < 2 ^ 32) :
    ¬ Safe crc32Table (dataSending s msgSize) := by
  have hle := h.count_le
  have hlt := h.size_lt
  have hmore : add32 s.gRecvData.recvCnt (msgSize - 1) < s.gRecvData.size := by
    unfold add32
    omega
  rw [dataSending, sub32_eq hmsg.1 (by omega), if_pos hmore]
  intro hsafe
  rcases hsafe _ mem_cons_self with hzero | ⟨block, -, -, hinside⟩
  · omega
  · have hbehind : s.gRecvData.recvCnt + (msgSize - 1) ≤ s.gRecvData.size := hinside
    omega

theorem read_block (low : Nat → Byte) (h : ExternInv s)
    (hall : s.gRecvData.recvCnt = s.gRecvData.size)
    (hheld : s.gRecvData.size ≠ 0 → s.gRecvData.pData.isSome) :
    readAt low s.gRecvData.pData s.gRecvData.size = s.payload.take s.gRecvData.size ∧
      (readAt low s.gRecvData.pData s.gRecvData.size).length = s.gRecvData.size := by
  cases hpData : s.gRecvData.pData with
  | none =>
    have hzero : s.gRecvData.size = 0 := by
      by_contra hne
      rw [hpData] at hheld
      cases hheld hne
    rw [hzero]
    exact ⟨rfl, rfl⟩
  | some block =>
    obtain ⟨hlen, htake⟩ := h.block block hpData
    rw [hall] at htake
    show block.take s.gRecvData.size = _ ∧ (block.take s.gRecvData.size).length = _
    rw [length_take, hlen, Nat.min_self]
    exact ⟨htake, rfl⟩

/-- Reading the buffer for the CRC is safe exactly if it is held. -/
theorem load_ok (h : ExternInv s) :
    AccessOk crc32Table s (.load s.gRecvData.pData s.gRecvData.size) ↔
      (s.gRecvData.size ≠ 0 → s.gRecvData.pData.isSome) := by
  constructor
  · rintro (hzero | ⟨block, hblock, -⟩) hne
    · exact absurd hzero hne
    · rw [hblock]
      rfl
  · intro hheld
    by_cases hzero : s.gRecvData.size = 0
    · exact Or.inl hzero
    · obtain ⟨block, hblock⟩ := isSome_iff_exists.mp (hheld hzero)
      exact Or.inr ⟨block, hblock, (h.block block hblock).1, le_refl _⟩

theorem uvc_flash_write_cases (s : ExternState) (bytes : List Byte) (isp : Bool) :
    (uvcFlashWrite s bytes isp).accesses = s.accesses ++ [.flashWrite bytes] ∧
      (uvcFlashWrite s bytes isp).payload = s.payload ∧
      (uvcFlashWrite s bytes isp).data = s.data ∧
      ∃ writeResult pData, (pData = s.gRecvData.pData ∨ pData = none) ∧
        (uvcFlashWrite s bytes isp).gRecvData = { s.gRecvData with writeResult, pData } := by
  unfold uvcFlashWrite
  by_cases hflash : s.gRecvData.type = Data_Type_Flash
  · rw [if_pos hflash]
    exact ⟨rfl, rfl, rfl, Data_Type_Flash, s.gRecvData.pData, Or.inl rfl, rfl⟩
  · rw [if_neg hflash]
    by_cases hdrv : s.gRecvData.type = Data_Type_Drv
    · rw [if_pos hdrv]
      exact ⟨rfl, rfl, rfl, _, none, Or.inr rfl, rfl⟩
    · rw [if_neg hdrv]
      exact ⟨rfl, rfl, rfl, s.gRecvData.writeResult, s.gRecvData.pData, Or.inl rfl, rfl⟩

theorem uvc_flash_write_inv (h : ExternInv s) (bytes : List Byte) (isp : Bool) :
    ExternInv (uvcFlashWrite s bytes isp) := by
  obtain ⟨-, hpayload, hdata, writeResult, pData, hpData, hrecv⟩ :=
    uvc_flash_write_cases s bytes isp
  rcases hpData with rfl | rfl
  · exact h.congr (by rw [hdata, h.data]) (by rw [hrecv]) (by rw [hrecv]) (by rw [hrecv]) hpayload
  · exact h.freed hdata (by rw [hrecv]) (by rw [hrecv]) (by rw [hrecv]) hpayload

theorem access_ok_congr (hsize : s'.gRecvData.size = s.gRecvData.size)
    (hcrc : s'.gRecvData.crc = s.gRecvData.crc) (hpayload : s'.payload = s.payload)
    (access : Access) : AccessOk crc32Table s' access ↔ AccessOk crc32Table s access := by
  cases access <;> simp only [AccessOk, hsize, hcrc, hpayload]

theorem flash_write_safe_iff (h : ExternInv s)
    (hall : s.gRecvData.recvCnt = s.gRecvData.size) {bytes : List Byte}
    (hbytes : bytes = readAt low s.gRecvData.pData s.gRecvData.size)
    (hcrc : s.gRecvData.crc = (calcCRC crc32Table bytes).toNat)
    (haccesses : s.accesses = [.load s.gRecvData.pData s.gRecvData.size]) :
    Safe crc32Table (uvcFlashWrite s bytes isp) ↔
      AccessOk crc32Table s (.load s.gRecvData.pData s.gRecvData.size) := by
  obtain ⟨hlog, hpayload, -, writeResult, pData, -, hrecv⟩ := uvc_flash_write_cases s bytes isp
  have hsame : ∀ access, AccessOk crc32Table (uvcFlashWrite s bytes isp) access ↔
      AccessOk crc32Table s access :=
    access_ok_congr (by rw [hrecv]) (by rw [hrecv]) hpayload
  unfold Safe
  rw [hlog, haccesses, singleton_append]
  constructor
  · intro hsafe
    exact (hsame _).mp (hsafe _ mem_cons_self)
  · intro hload
    have hblock := read_block low h hall ((load_ok h).mp hload)
    rw [← hbytes] at hblock
    rintro access haccess
    rcases mem_pair.mp haccess with rfl | rfl
    · exact (hsame _).mpr hload
    · exact (hsame _).mpr ⟨hblock.1, hblock.2, hcrc.symm⟩

theorem data_over_ok (h : ExternInv s) (hnone : s.accesses = []) :
    ExternInv (dataOver crc32Table low s isp) ∧
      (Safe crc32Table (dataOver crc32Table low s isp) ↔
        (s.gRecvData.recvCnt = s.gRecvData.size ∧ s.gRecvData.size ≠ 0 →
          s.gRecvData.pData.isSome)) := by
  unfold dataOver
  by_cases hall : s.gRecvData.recvCnt = s.gRecvData.size
  · rw [if_pos hall]
    have hcond : (s.gRecvData.recvCnt = s.gRecvData.size ∧ s.gRecvData.size ≠ 0 →
        s.gRecvData.pData.isSome) ↔ (s.gRecvData.size ≠ 0 → s.gRecvData.pData.isSome) :=
      ⟨fun himp hne => himp ⟨hall, hne⟩, fun himp hboth => himp hboth.2⟩
    have hloaded : ExternInv { s with accesses := [.load s.gRecvData.pData s.gRecvData.size] } :=
      h.congr h.data rfl rfl rfl rfl
    have hload : AccessOk crc32Table s (.load s.gRecvData.pData s.gRecvData.size) ↔
        (s.gRecvData.size ≠ 0 → s.gRecvData.pData.isSome) := load_ok h
    rw [hcond, ← hload]
    by_cases hcrc : s.gRecvData.crc =
        (calcCRC crc32Table (readAt low s.gRecvData.pData s.gRecvData.size)).toNat
    · rw [if_pos hcrc]
      exact ⟨uvc_flash_write_inv hloaded _ isp, flash_write_safe_iff hloaded hall rfl hcrc rfl⟩
    · rw [if_neg hcrc]
      exact ⟨hloaded.freed rfl rfl rfl rfl rfl, forall_mem_singleton⟩
  · rw [if_neg hall]
    have hsafe : Safe crc32Table { s with gRecvData := { s.gRecvData with pData := none } } :=
      safe_of_nil hnone
    exact ⟨h.freed rfl rfl rfl rfl rfl, iff_of_true hsafe fun hboth => absurd hboth.1 hall⟩

/-! ## Steps and runs -/

/-- A message of another kind leaves the update as it is. -/
theorem flash_command_ok (h : ExternInv s) (hnone : s.accesses = [])
    (hflash : flashCommand s block = some s') : ExternInv s' ∧ Safe crc32Table s' := by
  unfold flashCommand at hflash
  by_cases hread : s.data.getD 1 0 = 0x52
  · rw [if_pos hread] at hflash
    by_cases haddr : field s.data 2 4 < 0xffffff
    · rw [if_pos haddr] at hflash
      obtain ⟨-, hs'⟩ := ite_none_right_eq_some.mp hflash
      obtain rfl := some.inj hs'
      exact ⟨h.congr h.data rfl rfl rfl rfl, safe_of_nil hnone⟩
    · rw [if_neg haddr] at hflash
      obtain rfl := some.inj hflash
      exact ⟨h.congr h.data rfl rfl rfl rfl, safe_of_nil hnone⟩
  · rw [if_neg hread] at hflash
    by_cases hend : s.data.getD 1 0 = 0x45
    · rw [if_pos hend] at hflash
      obtain rfl := some.inj hflash
      exact ⟨h.congr h.data rfl rfl rfl rfl, safe_of_nil hnone⟩
    · rw [if_neg hend] at hflash
      obtain rfl := some.inj hflash
      exact ⟨h, safe_of_nil hnone⟩

theorem received_inv (h : ExternInv s) (msg : UvcExternData) : ExternInv (received s msg) :=
  h.congr (length_received h msg) rfl rfl rfl rfl

theorem extern_set_ok (h : ExternInv s)
    (hset : externSet crc32Table low s msg block isp = some s') :
    (MessageOk s msg → ExternInv s') ∧ (Safe crc32Table s' ↔ MessageOk s msg) := by
  have hreceived := received_inv h msg
  have hnone : (received s msg).accesses = [] := rfl
  have hquiet : ∀ {s1 : ExternState}, ExternInv s1 ∧ Safe crc32Table s1 →
      (True → ExternInv s1) ∧ (Safe crc32Table s1 ↔ True) :=
    fun hok => ⟨fun _ => hok.1, iff_of_true hok.2 trivial⟩
  have hflag : ∀ update, ExternInv { received s msg with updateFlash := update } ∧
      Safe crc32Table { received s msg with updateFlash := update } :=
    fun _ => ⟨hreceived.congr hreceived.data rfl rfl rfl rfl, safe_of_nil hnone⟩
  unfold externSet at hset
  dsimp only at hset
  unfold MessageOk
  generalize commandOf (received s msg).data = command at hset
  cases command with
  | reset =>
    obtain rfl := some.inj hset
    by_cases hreboot : (received s msg).data.getD 1 0 = 0x02
    · rw [if_pos hreboot]
      exact hquiet ⟨init_inv, safe_of_nil rfl⟩
    · rw [if_neg hreboot]
      exact hquiet ⟨hreceived, safe_of_nil hnone⟩
  | udisk | vcom | hid | dfu =>
    obtain rfl := some.inj hset
    exact hquiet (hflag _)
  | flash =>
    exact hquiet (flash_command_ok hreceived hnone hset)
  | header =>
    obtain rfl := some.inj hset
    exact hquiet ⟨hreceived.congr hreceived.data rfl rfl rfl rfl, safe_of_nil hnone⟩
  | dataBegin =>
    exact hquiet (data_begin_ok hreceived hnone hset)
  | dataSending =>
    obtain rfl := some.inj hset
    by_cases hfit : s.gRecvData.recvCnt + (msg.buf.length - 1) < 2 ^ 32
    · obtain ⟨hinv, hsafe⟩ := data_sending_ok hreceived msg.length_buf hfit
      exact ⟨fun _ => hinv, hsafe.trans ⟨fun hheld => ⟨hfit, hheld⟩, And.right⟩⟩
    · have hunsafe : ¬ Safe crc32Table (dataSending (received s msg) msg.buf.length) :=
        data_sending_wraps hreceived msg.length_buf hfit
      exact ⟨fun hok => absurd hok.1 hfit, iff_of_false hunsafe fun hok => hfit hok.1⟩
  | dataOver =>
    obtain rfl := some.inj hset
    obtain ⟨hinv, hsafe⟩ := data_over_ok hreceived hnone
    exact ⟨fun _ => hinv, hsafe⟩
  | saveInfo | other =>
    obtain rfl := some.inj hset
    exact hquiet ⟨hreceived, safe_of_nil hnone⟩

theorem extern_step_ok (h : ExternInv s) (hsafe : Safe crc32Table s) {req : Request}
    (hstep : externStep crc32Table low s req = some s') :
    (RequestOk s req → ExternInv s') ∧ (Safe crc32Table s' ↔ RequestOk s req) := by
  cases req with
  | start =>
    obtain ⟨-, hs'⟩ := ite_none_right_eq_some.mp hstep
    obtain rfl := some.inj hs'
    exact ⟨fun _ => h.congr h.data rfl rfl rfl rfl, iff_of_true hsafe trivial⟩
  | control msg cs =>
    obtain rfl := some.inj hstep
    have hsame : uvcExternIntrCtrl s msg cs =
        { s with uvcExternMq := (uvcExternIntrCtrl s msg cs).uvcExternMq } := by
      unfold uvcExternIntrCtrl
      split
      · rfl
      · split
        · rfl
        · split <;> rfl
    rw [hsame]
    exact ⟨fun _ => h.congr h.data rfl rfl rfl rfl, iff_of_true hsafe trivial⟩
  | receive block isp =>
    cases hmq : s.uvcExternMq with
    | none =>
      rw [externStep, hmq] at hstep
      cases hstep
    | some mq =>
      cases mq with
      | nil =>
        rw [externStep, hmq] at hstep
        cases hstep
      | cons msg mq =>
        rw [externStep, hmq] at hstep
        have htaken : ExternInv { s with uvcExternMq := some mq } := h.congr h.data rfl rfl rfl rfl
        unfold RequestOk
        rw [hmq]
        have hok := extern_set_ok htaken hstep
        exact hok

/-- Every access of a run stays inside the buffer, and every write to the flash is of the bytes that
were received, exactly if all messages meet the condition. -/
theorem updates_safe_iff (crc32Table : List (BitVec 32)) (low : Nat → Byte)
    {requests : List Request}
    (hrun : Transition.exec (externStep crc32Table low) ExternState.init requests = some s') :
    Transition.Always (externStep crc32Table low) (Safe crc32Table) ExternState.init requests ↔
      Transition.AllSteps (externStep crc32Table low) RequestOk ExternState.init requests :=
  Transition.always_iff_of_kept (A := fun _ => True) (I := ExternInv)
    (fun _ _ _ _ hinv hsafe hstep => extern_step_ok hinv hsafe hstep) (fun _ _ => trivial) init_inv
    (safe_of_nil rfl) hrun

/-- A begin message for four bytes of type `Data_Type_Flash` with the CRC of `[1, 2, 3, 4]`. -/
def beginFour : UvcExternData :=
  ⟨[0xdb, 0x0f, 4, 0, 0, 0, 0x32, 0x04, 0xc3, 0x49], by decide⟩

def fourBytes : UvcExternData := ⟨[0xdd, 1, 2, 3, 4], by decide⟩

def endUpdate : UvcExternData := ⟨[0xde], by decide⟩

/-- The host sends messages and the thread receives them, with one result of `malloc` for all. -/
def updateRun (block : Option (List Byte)) (msgs : List UvcExternData) : List Request :=
  .start :: msgs.flatMap fun msg => [.control msg 2, .receive block false]

example : (Transition.exec (externStep (makeCRCTable CRC_SEED) fun _ => 0) ExternState.init
    (updateRun (some [0, 0, 0, 0]) [beginFour, fourBytes, endUpdate])).map
    (fun s => s.gRecvData.writeResult) = some Data_Type_Flash := by
  decide +kernel

theorem update_four_safe_iff :
    Transition.Always (externStep (makeCRCTable CRC_SEED) fun _ => 0) (Safe (makeCRCTable CRC_SEED))
        ExternState.init (updateRun (some [0, 0, 0, 0]) [beginFour, fourBytes, endUpdate]) ↔
      Transition.AllSteps (externStep (makeCRCTable CRC_SEED) fun _ => 0) RequestOk
        ExternState.init (updateRun (some [0, 0, 0, 0]) [beginFour, fourBytes, endUpdate]) := by
  have hsome : (Transition.exec (externStep (makeCRCTable CRC_SEED) fun _ => 0) ExternState.init
      (updateRun (some [0, 0, 0, 0]) [beginFour, fourBytes, endUpdate])).isSome := by
    decide +kernel
  obtain ⟨s', hrun⟩ := isSome_iff_exists.mp hsome
  exact updates_safe_iff (makeCRCTable CRC_SEED) (fun _ => 0) hrun

/-- An update that ends before its bytes came leaves a null pointer, and the next data message
stores to it. -/
theorem update_not_safe : ¬ Transition.Always (externStep (makeCRCTable CRC_SEED) fun _ => 0)
    (Safe (makeCRCTable CRC_SEED)) ExternState.init
    (updateRun (some [0, 0, 0, 0]) [beginFour, endUpdate, fourBytes]) := by
  have hlast : (Transition.exec (externStep (makeCRCTable CRC_SEED) fun _ => 0) ExternState.init
      (updateRun (some [0, 0, 0, 0]) [beginFour, endUpdate, fourBytes])).map
      (fun s => s.accesses) = some [.store none 0 4] := by
    decide +kernel
  obtain ⟨s', hrun, haccesses⟩ := map_eq_some_iff.mp hlast
  intro hsafe
  have hstore := hsafe.last hrun (.store none 0 4) (by rw [haccesses]; exact mem_cons_self)
  rcases hstore with hzero | ⟨block, hnull, -⟩
  · cases hzero
  · cases hnull

end FullhanRtos.UvcExtern
