import FullhanRtos.Lib.Buffer
import FullhanRtos.Lib.Word
import Mathlib.Data.BitVec

/-!
# Video frames

`uvc_frame_encode` of `drivers/usb/device/class/uvc_init.c` fills a buffer with packets of one
image: each packet has a payload header of 12 bytes and the next bytes of the image. A buffer holds
a whole number of packets, and the last packet of the last buffer may be shorter. The sizes are
32-bit numbers. The header of the Windows Hello stream is not modelled; `rt_memcpy` and
`fh_dma_memcpy` copy bytes.

`encode_spec` says what one call does: it does not leave the buffer or the image, and cutting the
buffer every packet size gives its packets back.
-/

namespace FullhanRtos.Uvc

open Buffer Word List Option Nat BitVec

/-! ## Data -/

abbrev Byte := BitVec 8

def uvcHeaderLen : Nat := 12

/-- `UVC_BUF_SIZE`, a constant of type `int`, and the packet size of a stream. -/
structure UvcConfig where
  bufSize : Nat
  packetSize : Nat
  header_lt : uvcHeaderLen < packetSize
  packet_le : packetSize ≤ bufSize
  buf_lt : bufSize < 2 ^ 31

/-- The fields of `struct uvc_video_buf` that change from image to image. -/
structure UvcVideoBuf where
  currentSize : Nat
  fid : BitVec 32
  streamPts : BitVec 32

structure UvcFrameBuf where
  data : List Byte
  uvcFrameSize : Nat

def uvcStillImageMagicFlag : BitVec 32 := 0x5d6b8797#32

/-! ## The functions -/

/-- The sizes that `uvc_frame_encode` computes for a buffer. `advance` is added to the position in
the image. -/
structure FramePlan where
  packetsInFrame : Nat
  lastPacketSize : Nat
  frameSize : Nat
  lastBuf : Bool
  advance : Nat

/-- Plan a buffer when `bufSize` bytes of the image are left. -/
def framePlan (config : UvcConfig) (bufSize : Nat) : FramePlan :=
  let dataPacketSize := sub32 config.packetSize uvcHeaderLen
  let remainder := config.bufSize % config.packetSize
  let payloadDataSize :=
    sub32 (sub32 config.bufSize (mul32 (config.bufSize / config.packetSize) uvcHeaderLen)) remainder
  if payloadDataSize < bufSize then
    { packetsInFrame := payloadDataSize / dataPacketSize
      lastPacketSize := 0
      frameSize := sub32 config.bufSize remainder
      lastBuf := false
      advance := payloadDataSize }
  else
    let packetsInFrame := sub32 (add32 bufSize dataPacketSize) 1 / dataPacketSize
    let lastPacketSize :=
      add32 (sub32 bufSize (mul32 (sub32 packetsInFrame 1) dataPacketSize)) uvcHeaderLen
    { packetsInFrame
      lastPacketSize
      frameSize := add32 (mul32 (sub32 packetsInFrame 1) config.packetSize) lastPacketSize
      lastBuf := true
      advance := bufSize }

def headerFlags (fid streamPts : BitVec 32) (eof : Bool) : Byte :=
  fid.setWidth 8 ||| (if streamPts = uvcStillImageMagicFlag then 0x20#8 else 0#8) |||
    (if streamPts ≠ 0#32 then 0x0c#8 else 0#8) ||| (if eof then 0x12#8 else 0#8)

/-- The time stamp, least byte first. -/
def ptsBytes (streamPts : BitVec 32) : List Byte :=
  [streamPts.setWidth 8, (streamPts >>> 8).setWidth 8, (streamPts >>> 16).setWidth 8,
    (streamPts >>> 24).setWidth 8]

/-- Write the time stamp, if one is set. -/
def writePts (data : List Byte) (pos : Nat) (streamPts : BitVec 32) : Option (List Byte) :=
  if streamPts ≠ 0#32 then store data (pos + 2) (ptsBytes streamPts) else some data

/-- Write a packet. What the header does not set keeps the bytes of the buffer. -/
def writePacket (data : List Byte) (pos : Nat) (fid streamPts : BitVec 32) (eof : Bool)
    (payload : List Byte) : Option (List Byte) := do
  let data ← store data pos [BitVec.ofNat 8 uvcHeaderLen, headerFlags fid streamPts eof]
  let data ← writePts data pos streamPts
  store data (pos + uvcHeaderLen) payload

/-- The variables of the loop over the packets: the buffer, `pBuf`, `picture_pos`, and the time
stamp of the stream. -/
structure PacketState where
  data : List Byte
  pos : Nat
  picturePos : Nat
  streamPts : BitVec 32

def endsImage (plan : FramePlan) (j : Nat) : Bool :=
  decide (j = sub32 plan.packetsInFrame 1) && plan.lastBuf

/-- One pass through the loop. The end of the image clears the time stamp. -/
def encodePacket (config : UvcConfig) (plan : FramePlan) (fid : BitVec 32) (img : List Byte)
    (currentSize j : Nat) (st : PacketState) : Option PacketState := do
  let eof := endsImage plan j
  let copyCount := if eof then plan.lastPacketSize else config.packetSize
  let payload ← load img (currentSize + st.picturePos) (sub32 copyCount uvcHeaderLen)
  let data ← writePacket st.data st.pos fid st.streamPts eof payload
  pure
    { data
      pos := st.pos + copyCount
      picturePos := st.picturePos + sub32 copyCount uvcHeaderLen
      streamPts := if eof then 0#32 else st.streamPts }

/-- The loop, for `n` packets from number `j` on. -/
def encodePackets (config : UvcConfig) (plan : FramePlan) (fid : BitVec 32) (img : List Byte)
    (currentSize : Nat) : Nat → Nat → PacketState → Option PacketState
  | 0, _, st => some st
  | n + 1, j, st => do
      let st ← encodePacket config plan fid img currentSize j st
      encodePackets config plan fid img currentSize n (j + 1) st

def uvcFrameEncode (config : UvcConfig) (buf : UvcVideoBuf) (data img : List Byte) :
    Option (UvcFrameBuf × UvcVideoBuf) := do
  let plan := framePlan config (sub32 img.length buf.currentSize)
  let st ← encodePackets config plan buf.fid img buf.currentSize plan.packetsInFrame 0
    { data, pos := 0, picturePos := 0, streamPts := buf.streamPts }
  pure ({ data := st.data, uvcFrameSize := plan.frameSize },
    { buf with
      currentSize := add32 buf.currentSize plan.advance
      streamPts := st.streamPts })

/-! ## Packets -/

/-- `bHeaderLength`. -/
def headerLength (packet : List Byte) : Nat := (packet.getD 0 0#8).toNat

/-- `bmHeaderInfo`. -/
def headerInfo (packet : List Byte) : Byte := packet.getD 1 0#8

/-- The frame identifier. -/
def packetFid (packet : List Byte) : Bool := (headerInfo packet).getLsbD 0

/-- The end-of-frame bit. -/
def packetEof (packet : List Byte) : Bool := (headerInfo packet).getLsbD 1

/-- The time stamp, if the packet has one. -/
def packetPts (packet : List Byte) : Option (BitVec 32) :=
  if (headerInfo packet).getLsbD 2 then
    some ((packet.getD 5 0#8) ++ (packet.getD 4 0#8) ++ (packet.getD 3 0#8) ++ (packet.getD 2 0#8))
  else none

/-- What follows the header. -/
def payload (packet : List Byte) : List Byte := packet.drop (headerLength packet)

/-- The packets of a buffer: it is cut every packet size. -/
def framePackets (config : UvcConfig) (frame : UvcFrameBuf) : List (List Byte) :=
  cut config.packetSize (frame.data.take frame.uvcFrameSize)

/-- The time stamp as it is sent: `0` stands for none. -/
def sentPts (streamPts : BitVec 32) : Option (BitVec 32) :=
  if streamPts = 0#32 then none else some streamPts

/-- A packet of an image: the length, a header of 12 bytes, the frame identifier, the time stamp
and the end-of-frame bit. -/
structure PacketOk (config : UvcConfig) (fid streamPts : BitVec 32) (eof : Bool)
    (packet : List Byte) : Prop where
  longer : uvcHeaderLen < packet.length
  length_le : packet.length ≤ config.packetSize
  header : headerLength packet = uvcHeaderLen
  fid : packetFid packet = fid.getLsbD 0
  pts : packetPts packet = sentPts streamPts
  eof : packetEof packet = eof

/-! ## The sizes -/

namespace UvcConfig

/-- The bytes of the image in a full packet. -/
def dataSize (config : UvcConfig) : Nat := config.packetSize - uvcHeaderLen

/-- The packets in a full buffer. -/
def packets (config : UvcConfig) : Nat := config.bufSize / config.packetSize

variable (config : UvcConfig)

theorem data_size_pos : 0 < config.dataSize := Nat.sub_pos_of_lt config.header_lt

theorem data_size_add : config.dataSize + uvcHeaderLen = config.packetSize :=
  Nat.sub_add_cancel (le_of_lt config.header_lt)

theorem packet_pos : 0 < config.packetSize :=
  lt_of_le_of_lt (Nat.zero_le _) config.header_lt

theorem packets_pos : 0 < config.packets :=
  Nat.div_pos config.packet_le config.packet_pos

theorem packets_mul_le : config.packets * config.packetSize ≤ config.bufSize :=
  div_mul_le_self ..

theorem packets_mul (n : Nat) :
    n * config.packetSize = n * config.dataSize + n * uvcHeaderLen := by
  rw [← data_size_add, Nat.mul_add]

end UvcConfig

section

variable {config : UvcConfig} {left : Nat}

theorem payload_data_size : sub32 (sub32 config.bufSize
    (mul32 (config.bufSize / config.packetSize) uvcHeaderLen))
      (config.bufSize % config.packetSize) = config.packets * config.dataSize := by
  have hdiv : config.packets * config.packetSize + config.bufSize % config.packetSize =
      config.bufSize := div_add_mod' ..
  have hsplit := config.packets_mul config.packets
  have hbuf := config.buf_lt
  have hmul : mul32 config.packets uvcHeaderLen = config.packets * uvcHeaderLen :=
    mul32_eq (by omega)
  have hsub : sub32 config.bufSize (config.packets * uvcHeaderLen) =
      config.bufSize - config.packets * uvcHeaderLen := sub32_eq (by omega) (by omega)
  show sub32 (sub32 config.bufSize (mul32 config.packets uvcHeaderLen)) _ = _
  rw [hmul, hsub, sub32_eq (by omega) (by omega)]
  omega

theorem plan_full (h : config.packets * config.dataSize < left) : framePlan config left =
    { packetsInFrame := config.packets
      lastPacketSize := 0
      frameSize := config.packets * config.packetSize
      lastBuf := false
      advance := config.packets * config.dataSize } := by
  have hbuf := config.buf_lt
  have hpacket := config.packet_le
  have hheader := config.header_lt
  have hdata : sub32 config.packetSize uvcHeaderLen = config.dataSize :=
    sub32_eq (by omega) (by omega)
  have hdiv : config.packets * config.packetSize + config.bufSize % config.packetSize =
      config.bufSize := div_add_mod' ..
  have hframe : sub32 config.bufSize (config.bufSize % config.packetSize) =
      config.packets * config.packetSize := by
    rw [sub32_eq (by omega) (by omega)]
    omega
  unfold framePlan
  dsimp only
  rw [payload_data_size, if_pos h, hdata, hframe, Nat.mul_div_cancel _ config.data_size_pos]

theorem plan_last (hpos : 0 < left) (h : left ≤ config.packets * config.dataSize) :
    ∃ n, n < config.packets ∧ n * config.dataSize < left ∧
      left ≤ n * config.dataSize + config.dataSize ∧
      framePlan config left =
        { packetsInFrame := n + 1
          lastPacketSize := left - n * config.dataSize + uvcHeaderLen
          frameSize := n * config.packetSize + (left - n * config.dataSize + uvcHeaderLen)
          lastBuf := true
          advance := left } := by
  have hbuf := config.buf_lt
  have hpacket := config.packet_le
  have hheader := config.header_lt
  have hmul := config.packets_mul_le
  have hsplit := config.packets_mul config.packets
  have hdpos := config.data_size_pos
  have hdata : sub32 config.packetSize uvcHeaderLen = config.dataSize :=
    sub32_eq (by omega) (by omega)
  have hadd := config.data_size_add
  -- the number of full packets before the last one
  have hlow := div_mul_le_self (left - 1) config.dataSize
  have hhigh := lt_div_mul_add (a := left - 1) hdpos
  generalize hn : (left - 1) / config.dataSize = n at hlow hhigh
  have hlt : n < config.packets := by
    by_contra hge
    have hle := Nat.mul_le_mul_right config.dataSize (not_lt.mp hge)
    omega
  have hnle := Nat.mul_le_mul_right config.packetSize hlt
  rw [Nat.succ_mul] at hnle
  have hcount : sub32 (add32 left config.dataSize) 1 / config.dataSize = n + 1 := by
    have hsum : left + config.dataSize - 1 = left - 1 + config.dataSize := by omega
    rw [add32_eq (by omega), sub32_eq (by omega) (by omega), hsum, add_div_right _ hdpos, hn]
  refine ⟨n, hlt, by omega, by omega, ?_⟩
  have hone : sub32 (n + 1) 1 = n := by
    rw [sub32_eq (by omega) ?_, Nat.add_sub_cancel]
    have hdiv : n ≤ left - 1 := hn ▸ Nat.div_le_self ..
    omega
  have hlast : add32 (sub32 left (mul32 n config.dataSize)) uvcHeaderLen =
      left - n * config.dataSize + uvcHeaderLen := by
    rw [mul32_eq (by omega), sub32_eq (by omega) (by omega), add32_eq (by omega)]
  have hframe : add32 (mul32 n config.packetSize) (left - n * config.dataSize + uvcHeaderLen) =
      n * config.packetSize + (left - n * config.dataSize + uvcHeaderLen) := by
    rw [mul32_eq (by omega), add32_eq (by omega)]
  unfold framePlan
  dsimp only
  rw [payload_data_size, if_neg (by omega), hdata, hcount, hone, hlast, hframe]

end

/-! ## One packet -/

section

variable {config : UvcConfig} {data rest bytes : List Byte} {pos : Nat} {fid streamPts : BitVec 32}
  {eof : Bool} {flags : Byte}

theorem write_packet (fid streamPts : BitVec 32) (eof : Bool)
    (h : pos + 12 + bytes.length ≤ data.length) :
    ∃ rest : List Byte, rest.length = 10 ∧
      (streamPts ≠ 0#32 → rest.take 4 = ptsBytes streamPts) ∧
      writePacket data pos fid streamPts eof bytes =
        some (writeAt data pos (12#8 :: headerFlags fid streamPts eof :: (rest ++ bytes))) := by
  let start := [12#8, headerFlags fid streamPts eof]
  have hstart : pos + start.length ≤ data.length := by
    show pos + 2 ≤ data.length
    omega
  have hlen := length_write_at hstart
  by_cases hpts : streamPts = 0#32
  · have hroom : pos + start.length + 10 + bytes.length ≤ data.length := h
    have hgap : writeAt (writeAt data pos start) (pos + 12) bytes =
        writeAt data pos (start ++ ((data.drop (pos + 2)).take 10 ++ bytes)) := write_at_gap hroom
    refine ⟨(data.drop (pos + 2)).take 10, ?_, fun hne => absurd hpts hne, ?_⟩
    · rw [length_take, length_drop]
      omega
    · show (store data pos start).bind (fun data' => (writePts data' pos streamPts).bind
        fun data' => store data' (pos + 12) bytes) = _
      rw [store_eq hstart, bind_some, writePts, if_neg (not_not_intro hpts),
        bind_some, store_eq (by rw [hlen]; exact h), hgap]
      rfl
  · -- the time stamp follows the two bytes directly
    have hstamp : pos + start.length + 0 + (ptsBytes streamPts).length ≤ data.length := by
      show pos + 2 + 0 + 4 ≤ data.length
      omega
    have hjoin : writeAt (writeAt data pos start) (pos + 2) (ptsBytes streamPts) =
        writeAt data pos (start ++ ptsBytes streamPts) := write_at_gap hstamp
    have hfirst : pos + (start ++ ptsBytes streamPts).length ≤ data.length := by
      show pos + 6 ≤ data.length
      omega
    have hroom : pos + (start ++ ptsBytes streamPts).length + 6 + bytes.length ≤ data.length := h
    have hgap : writeAt (writeAt data pos (start ++ ptsBytes streamPts)) (pos + 12) bytes =
        writeAt data pos ((start ++ ptsBytes streamPts) ++
          ((data.drop (pos + 6)).take 6 ++ bytes)) := write_at_gap hroom
    refine ⟨ptsBytes streamPts ++ (data.drop (pos + 6)).take 6, ?_, fun _ => rfl, ?_⟩
    · rw [length_append, length_take, length_drop]
      show 4 + min 6 (data.length - (pos + 6)) = 10
      omega
    · show (store data pos start).bind (fun data' => (writePts data' pos streamPts).bind
        fun data' => store data' (pos + 12) bytes) = _
      rw [store_eq hstart, bind_some, writePts, if_pos hpts, store_eq (by rw [hlen]; exact hstamp),
        bind_some, hjoin, store_eq (by rw [length_write_at hfirst]; exact h), hgap]
      rfl

/-- The bytes of a time stamp put together. -/
theorem pts_bytes_join (x : BitVec 32) :
    ((x >>> 24).setWidth 8 ++ (x >>> 16).setWidth 8 ++ (x >>> 8).setWidth 8 ++ x.setWidth 8 :
      BitVec 32) = x := by
  apply eq_of_getLsbD_eq
  intro i hi
  simp only [getLsbD_append, getLsbD_setWidth, getLsbD_ushiftRight]
  by_cases hfirst : i < 8
  · simp [hfirst]
  · by_cases hsecond : i - 8 < 8
    · simp [hfirst, hsecond]
      congr 1
      omega
    · by_cases hthird : i - 8 - 8 < 8
      · simp [hfirst, hsecond, hthird]
        congr 1
        omega
      · have hfourth : i - 8 - 8 - 8 < 8 := by omega
        simp [hfirst, hsecond, hthird, hfourth]
        congr 1
        omega

theorem header_flags_bits (hfid : fid = 0#32 ∨ fid = 1#32) (streamPts : BitVec 32) (eof : Bool) :
    (headerFlags fid streamPts eof).getLsbD 0 = fid.getLsbD 0 ∧
      (headerFlags fid streamPts eof).getLsbD 1 = eof ∧
      (headerFlags fid streamPts eof).getLsbD 2 = decide (streamPts ≠ 0#32) := by
  unfold headerFlags
  rcases hfid with rfl | rfl <;> cases eof <;> split_ifs <;> simp_all

theorem packet_pts (hflag : flags.getLsbD 2 = decide (streamPts ≠ 0#32))
    (hrest : streamPts ≠ 0#32 → rest.take 4 = ptsBytes streamPts) :
    packetPts (12#8 :: flags :: (rest ++ bytes)) = sentPts streamPts := by
  have hinfo : headerInfo (12#8 :: flags :: (rest ++ bytes)) = flags := rfl
  unfold packetPts sentPts
  rw [hinfo, hflag]
  by_cases hpts : streamPts = 0#32
  · simp [hpts]
  · have hsplit : rest = ptsBytes streamPts ++ rest.drop 4 := by
      rw [← hrest hpts, take_append_drop]
    rw [if_pos (decide_eq_true hpts), if_neg hpts, hsplit]
    exact congrArg some (pts_bytes_join streamPts)

theorem packet_ok (hfid : fid = 0#32 ∨ fid = 1#32) (hlen : rest.length = 10)
    (hrest : streamPts ≠ 0#32 → rest.take 4 = ptsBytes streamPts) (hpos : 0 < bytes.length)
    (hle : bytes.length ≤ config.dataSize) :
    PacketOk config fid streamPts eof
      (12#8 :: headerFlags fid streamPts eof :: (rest ++ bytes)) := by
  obtain ⟨hbit, heof, hstamp⟩ := header_flags_bits hfid streamPts eof
  have hadd : config.dataSize + 12 = config.packetSize := config.data_size_add
  have hsize : (12#8 :: headerFlags fid streamPts eof :: (rest ++ bytes)).length =
      12 + bytes.length := by
    rw [length_cons, length_cons, length_append, hlen]
    omega
  refine ⟨?_, ?_, rfl, hbit, packet_pts hstamp hrest, heof⟩
  · rw [hsize]
    exact Nat.lt_add_of_pos_right hpos
  · rw [hsize]
    omega

theorem payload_packet (hlen : rest.length = 10) :
    payload (12#8 :: flags :: (rest ++ bytes)) = bytes := by
  show (rest ++ bytes).drop 10 = bytes
  rw [← hlen, drop_left]

end

/-! ## The loop over the packets -/

section

variable {config : UvcConfig} {plan : FramePlan} {fid streamPts : BitVec 32} {img : List Byte}
  {currentSize size j n m : Nat} {st : PacketState} {packets : List (List Byte)}

theorem encode_packet {eof : Bool} {count : Nat} (hfid : fid = 0#32 ∨ fid = 1#32)
    (heof : endsImage plan j = eof)
    (hcount : (if eof then plan.lastPacketSize else config.packetSize) = count + uvcHeaderLen)
    (hpos : 0 < count) (hle : count ≤ config.dataSize)
    (hdata : st.pos + uvcHeaderLen + count ≤ st.data.length)
    (himg : currentSize + st.picturePos + count ≤ img.length) :
    ∃ packet, PacketOk config fid st.streamPts eof packet ∧
      packet.length = count + uvcHeaderLen ∧
      payload packet = (img.drop (currentSize + st.picturePos)).take count ∧
      encodePacket config plan fid img currentSize j st = some
        { data := writeAt st.data st.pos packet
          pos := st.pos + packet.length
          picturePos := st.picturePos + count
          streamPts := if eof then 0#32 else st.streamPts } := by
  have hadd := config.data_size_add
  have hpacket := config.packet_le
  have hbuf := config.buf_lt
  have hsub : sub32 (count + uvcHeaderLen) uvcHeaderLen = count := by
    rw [sub32_eq (by omega) (by omega), Nat.add_sub_cancel]
  have hlen : ((img.drop (currentSize + st.picturePos)).take count).length = count := by
    rw [length_take, length_drop]
    omega
  have hroom : st.pos + 12 + ((img.drop (currentSize + st.picturePos)).take count).length ≤
      st.data.length := by
    rw [hlen]
    exact hdata
  obtain ⟨rest, hrest, hstamp, hwrite⟩ := write_packet fid st.streamPts eof hroom
  have hpacketlen : (12#8 :: headerFlags fid st.streamPts eof ::
      (rest ++ (img.drop (currentSize + st.picturePos)).take count)).length =
      count + uvcHeaderLen := by
    rw [length_cons, length_cons, length_append, hrest, hlen]
    show 10 + count + 1 + 1 = count + 12
    omega
  refine ⟨_, packet_ok hfid hrest hstamp (by omega) (by omega), hpacketlen,
    payload_packet hrest, ?_⟩
  unfold encodePacket
  dsimp only
  rw [heof, hcount, hsub, load_eq himg]
  show (writePacket _ _ _ _ _ _).bind _ = _
  rw [hwrite, hpacketlen]
  rfl

/-- After a number of full packets: what the buffer has and where the loop is. -/
structure Filled (config : UvcConfig) (fid streamPts : BitVec 32) (img : List Byte)
    (currentSize size : Nat) (st : PacketState) (packets : List (List Byte)) : Prop where
  data_length : st.data.length = size
  data_take : st.data.take st.pos = packets.flatten
  pos : st.pos = packets.length * config.packetSize
  picture_pos : st.picturePos = packets.length * config.dataSize
  stream_pts : st.streamPts = streamPts
  packet : ∀ q ∈ packets, PacketOk config fid streamPts false q ∧ q.length = config.packetSize
  payloads : packets.flatMap payload =
    (img.drop currentSize).take (packets.length * config.dataSize)

theorem encode_packet_full (hfid : fid = 0#32 ∨ fid = 1#32) (heof : endsImage plan j = false)
    (hfilled : Filled config fid streamPts img currentSize size st packets)
    (hdata : (packets.length + 1) * config.packetSize ≤ size)
    (himg : currentSize + (packets.length + 1) * config.dataSize ≤ img.length) :
    ∃ st' packet, encodePacket config plan fid img currentSize j st = some st' ∧
      Filled config fid streamPts img currentSize size st' (packets ++ [packet]) := by
  have hadd := config.data_size_add
  have hlen := hfilled.data_length
  have hpos := hfilled.pos
  have hpicture := hfilled.picture_pos
  rw [Nat.succ_mul] at hdata himg
  have hend : st.pos + uvcHeaderLen + config.dataSize ≤ st.data.length := by omega
  have himgend : currentSize + st.picturePos + config.dataSize ≤ img.length := by omega
  obtain ⟨packet, hok, hsize, hpayload, hencode⟩ := encode_packet hfid heof hadd.symm
    config.data_size_pos (le_refl _) hend himgend
  rw [hfilled.stream_pts] at hok
  refine ⟨_, packet, hencode, ?_⟩
  have hroom : st.pos + packet.length ≤ st.data.length := by omega
  constructor
  case data_length => rw [length_write_at hroom, hlen]
  case data_take =>
    rw [take_write_at hroom, hfilled.data_take, flatten_append, flatten_singleton]
  case pos =>
    rw [length_append, length_singleton, Nat.succ_mul]
    show st.pos + packet.length = _
    omega
  case picture_pos =>
    rw [length_append, length_singleton, Nat.succ_mul]
    show st.picturePos + config.dataSize = _
    omega
  case stream_pts => exact hfilled.stream_pts
  case packet =>
    intro q hq
    rcases mem_append.mp hq with hold | hnew
    · exact hfilled.packet q hold
    · rw [mem_singleton.mp hnew]
      exact ⟨hok, by omega⟩
  case payloads =>
    rw [flatMap_append, flatMap_singleton, hfilled.payloads, hpayload, length_append,
      length_singleton, Nat.succ_mul, take_add, drop_drop, hpicture]

theorem encode_packets_full (hfid : fid = 0#32 ∨ fid = 1#32)
    (heof : ∀ i, j ≤ i → i < j + n → endsImage plan i = false)
    (hfilled : Filled config fid streamPts img currentSize size st packets)
    (hdata : (packets.length + n) * config.packetSize ≤ size)
    (himg : currentSize + (packets.length + n) * config.dataSize ≤ img.length) :
    ∃ st' packets', encodePackets config plan fid img currentSize n j st = some st' ∧
      Filled config fid streamPts img currentSize size st' packets' ∧
      packets'.length = packets.length + n := by
  induction n generalizing j st packets with
  | zero => exact ⟨st, packets, rfl, hfilled, rfl⟩
  | succ n ih =>
    have hcount : packets.length + 1 ≤ packets.length + (n + 1) := by omega
    obtain ⟨mid, packet, hstep, hmid⟩ := encode_packet_full hfid (heof j (by omega) (by omega))
      hfilled (le_trans (Nat.mul_le_mul_right _ hcount) hdata)
      (le_trans (Nat.add_le_add_left (Nat.mul_le_mul_right _ hcount) _) himg)
    have hlen : (packets ++ [packet]).length + n = packets.length + (n + 1) := by
      rw [length_append, length_singleton]
      omega
    rw [← hlen] at hdata himg
    have heof' : ∀ i, j + 1 ≤ i → i < j + 1 + n → endsImage plan i = false :=
      fun i hlow hhigh => heof i (by omega) (by omega)
    obtain ⟨st', packets', hrun, hfilled', hlen'⟩ := ih heof' hmid hdata himg
    refine ⟨st', packets', ?_, hfilled', hlen'.trans hlen⟩
    rw [encodePackets, hstep]
    exact hrun

/-- The loop in two parts. -/
theorem encode_packets_add : encodePackets config plan fid img currentSize (n + m) j st =
    (encodePackets config plan fid img currentSize n j st).bind
      (encodePackets config plan fid img currentSize m (j + n)) := by
  induction n generalizing j st with
  | zero => rw [zero_add, encodePackets, bind_some, add_zero]
  | succ n ih =>
    rw [succ_add, encodePackets, encodePackets]
    cases encodePacket config plan fid img currentSize j st with
    | none => rfl
    | some mid =>
      show encodePackets _ _ _ _ _ (n + m) (j + 1) mid = _
      rw [ih, Nat.add_right_comm j 1 n]
      rfl

end

/-! ## One buffer -/

structure Carried (config : UvcConfig) (fid streamPts : BitVec 32) (last : Bool) (bytes : List Byte)
    (packets : List (List Byte)) : Prop where
  packet : ∃ before end', packets = before ++ [end'] ∧
    (∀ q ∈ before, PacketOk config fid streamPts false q) ∧ PacketOk config fid streamPts last end'
  payloads : packets.flatMap payload = bytes

structure Encoded (config : UvcConfig) (buf : UvcVideoBuf) (img : List Byte) (n : Nat)
    (frame : UvcFrameBuf) (buf' : UvcVideoBuf) : Prop where
  moves : 0 < n
  current_size : buf'.currentSize = buf.currentSize + n
  current_le : buf'.currentSize ≤ img.length
  fid : buf'.fid = buf.fid
  stream_pts : buf'.streamPts = if buf'.currentSize = img.length then 0#32 else buf.streamPts
  frame_size : frame.uvcFrameSize ≤ config.bufSize
  packets : Carried config buf.fid buf.streamPts (decide (buf'.currentSize = img.length))
    ((img.drop buf.currentSize).take n) (framePackets config frame)

section

variable {config : UvcConfig} {buf : UvcVideoBuf} {data img : List Byte}

theorem filled_start {fid : BitVec 32} {currentSize : Nat} (streamPts : BitVec 32) :
    Filled config fid streamPts img currentSize data.length
      { data, pos := 0, picturePos := 0, streamPts } [] where
  data_length := rfl
  data_take := rfl
  pos := (Nat.zero_mul _).symm
  picture_pos := (Nat.zero_mul _).symm
  stream_pts := rfl
  packet := fun _ hq => absurd hq not_mem_nil
  payloads := by rw [length_nil, Nat.zero_mul, take_zero, flatMap_nil]

/-- More of the image is left than the buffer holds. -/
theorem encode_full (hfid : buf.fid = 0#32 ∨ buf.fid = 1#32) (hdata : config.bufSize ≤ data.length)
    (himg : img.length < 2 ^ 32)
    (hfull : config.packets * config.dataSize < img.length - buf.currentSize) :
    ∃ frame buf', uvcFrameEncode config buf data img = some (frame, buf') ∧
      Encoded config buf img (config.packets * config.dataSize) frame buf' := by
  have hpackets := config.packets_mul_le
  have hpos : 0 < config.packets * config.dataSize :=
    Nat.mul_pos config.packets_pos config.data_size_pos
  have hleft : sub32 img.length buf.currentSize = img.length - buf.currentSize :=
    sub32_eq (by omega) himg
  have hplan := plan_full hfull
  have hadvance : add32 buf.currentSize (config.packets * config.dataSize) =
      buf.currentSize + config.packets * config.dataSize := add32_eq (by omega)
  have hle : buf.currentSize + config.packets * config.dataSize ≤ img.length := by omega
  have hne : buf.currentSize + config.packets * config.dataSize ≠ img.length := by omega
  have heof : ∀ i, 0 ≤ i → i < 0 + config.packets →
      endsImage (framePlan config (img.length - buf.currentSize)) i = false := by
    intro i _ _
    rw [hplan, endsImage, Bool.and_false]
  have hroom : (([] : List (List Byte)).length + config.packets) * config.packetSize ≤
      data.length := by
    rw [length_nil, zero_add]
    omega
  have hrest : buf.currentSize + (([] : List (List Byte)).length + config.packets) *
      config.dataSize ≤ img.length := by
    rw [length_nil, zero_add]
    omega
  obtain ⟨st, packets, hrun, hfilled, hlen⟩ :=
    encode_packets_full hfid heof (filled_start buf.streamPts) hroom hrest
  rw [length_nil, zero_add] at hlen
  have hframe : framePackets config ⟨st.data, config.packets * config.packetSize⟩ = packets := by
    have hcut : cut config.packetSize (packets.flatten ++ []) =
        packets ++ cut config.packetSize [] :=
      cut_flatten config.packet_pos fun q hq => (hfilled.packet q hq).2
    unfold framePackets
    rw [← hlen, ← hfilled.pos, hfilled.data_take]
    rwa [append_nil, cut_nil, append_nil] at hcut
  refine ⟨⟨st.data, config.packets * config.packetSize⟩,
    { buf with currentSize := buf.currentSize + config.packets * config.dataSize }, ?_, ?_⟩
  · unfold uvcFrameEncode
    dsimp only
    rw [hleft]
    rw [hplan] at hrun ⊢
    rw [hrun, hadvance]
    show some _ = _
    rw [hfilled.stream_pts]
  · constructor
    case moves => exact hpos
    case current_size => rfl
    case current_le => exact hle
    case fid => rfl
    case stream_pts => exact (if_neg hne).symm
    case frame_size => exact hpackets
    case packets =>
      rw [hframe]
      have hnil : packets ≠ [] := by
        intro hnil
        rw [hnil, length_nil] at hlen
        exact absurd hlen.symm (Nat.ne_of_gt config.packets_pos)
      refine ⟨⟨packets.dropLast, packets.getLast hnil, (dropLast_append_getLast hnil).symm, ?_,
        ?_⟩, ?_⟩
      · intro q hq
        exact (hfilled.packet q (mem_of_mem_dropLast hq)).1
      · rw [decide_eq_false hne]
        exact (hfilled.packet _ (getLast_mem hnil)).1
      · rw [hfilled.payloads, hlen]

/-- The rest of the image fits. -/
theorem encode_last (hfid : buf.fid = 0#32 ∨ buf.fid = 1#32) (hdata : config.bufSize ≤ data.length)
    (himg : img.length < 2 ^ 32) (hcurrent : buf.currentSize < img.length)
    (hfits : img.length - buf.currentSize ≤ config.packets * config.dataSize) :
    ∃ frame buf', uvcFrameEncode config buf data img = some (frame, buf') ∧
      Encoded config buf img (img.length - buf.currentSize) frame buf' := by
  have hpackets := config.packets_mul_le
  have hadd := config.data_size_add
  have hleft : sub32 img.length buf.currentSize = img.length - buf.currentSize :=
    sub32_eq (by omega) himg
  obtain ⟨n, hn, hlow, hhigh, hplan⟩ := plan_last (by omega) hfits
  have hadvance : add32 buf.currentSize (img.length - buf.currentSize) = img.length := by
    rw [add32_eq (by omega)]
    omega
  have hmul := Nat.mul_le_mul_right config.packetSize hn
  rw [Nat.succ_mul] at hmul
  have hnle := Nat.le_mul_of_pos_right n config.data_size_pos
  have hone : sub32 (n + 1) 1 = n := by
    rw [sub32_eq (by omega) (by omega), Nat.add_sub_cancel]
  -- the packets before the last one
  have heof : ∀ i, 0 ≤ i → i < 0 + n →
      endsImage (framePlan config (img.length - buf.currentSize)) i = false := by
    intro i _ hi
    rw [hplan, endsImage, hone, decide_eq_false (by omega), Bool.false_and]
  have hroom : (([] : List (List Byte)).length + n) * config.packetSize ≤ data.length := by
    rw [length_nil, zero_add]
    omega
  have hrest : buf.currentSize + (([] : List (List Byte)).length + n) * config.dataSize ≤
      img.length := by
    rw [length_nil, zero_add]
    omega
  obtain ⟨mid, packets, hrun, hfilled, hlen⟩ :=
    encode_packets_full hfid heof (filled_start buf.streamPts) hroom hrest
  rw [length_nil, zero_add] at hlen
  have hmid := hfilled.data_length
  have hmidpos := hfilled.pos
  have hpicture := hfilled.picture_pos
  rw [hlen] at hmidpos hpicture
  -- the last one
  have hend : mid.pos + uvcHeaderLen + (img.length - buf.currentSize - n * config.dataSize) ≤
      mid.data.length := by omega
  have himgend : buf.currentSize + mid.picturePos +
      (img.length - buf.currentSize - n * config.dataSize) ≤ img.length := by omega
  have hlast : endsImage (framePlan config (img.length - buf.currentSize)) n = true := by
    rw [hplan, endsImage, hone, decide_eq_true rfl]
    rfl
  have hcount : (if true then (framePlan config (img.length - buf.currentSize)).lastPacketSize
      else config.packetSize) =
        img.length - buf.currentSize - n * config.dataSize + uvcHeaderLen := by
    rw [hplan]
    rfl
  have hpos : 0 < img.length - buf.currentSize - n * config.dataSize := by omega
  have hle : img.length - buf.currentSize - n * config.dataSize ≤ config.dataSize := by omega
  obtain ⟨packet, hok, hsize, hpayload, hencode⟩ :=
    encode_packet hfid hlast hcount hpos hle hend himgend
  have hloop : encodePackets config (framePlan config (img.length - buf.currentSize)) buf.fid img
      buf.currentSize (n + 1) 0 ⟨data, 0, 0, buf.streamPts⟩ = some
        { data := writeAt mid.data mid.pos packet
          pos := mid.pos + packet.length
          picturePos := mid.picturePos + (img.length - buf.currentSize - n * config.dataSize)
          streamPts := 0#32 } := by
    rw [encode_packets_add, hrun, bind_some, zero_add, encodePackets, hencode]
    rfl
  have hfit : mid.pos + packet.length ≤ mid.data.length := by omega
  have hframe : framePackets config ⟨writeAt mid.data mid.pos packet, n * config.packetSize +
      (img.length - buf.currentSize - n * config.dataSize + uvcHeaderLen)⟩ =
        packets ++ [packet] := by
    have hcut : cut config.packetSize (packets.flatten ++ packet) =
        packets ++ cut config.packetSize packet :=
      cut_flatten config.packet_pos fun q hq => (hfilled.packet q hq).2
    unfold framePackets
    rw [← hsize, ← hmidpos, take_write_at hfit, hfilled.data_take, hcut,
      cut_short (lt_of_le_of_lt (Nat.zero_le _) hok.longer) hok.length_le]
  refine ⟨⟨writeAt mid.data mid.pos packet, n * config.packetSize +
      (img.length - buf.currentSize - n * config.dataSize + uvcHeaderLen)⟩,
    { buf with currentSize := img.length, streamPts := 0#32 }, ?_, ?_⟩
  · unfold uvcFrameEncode
    dsimp only
    rw [hleft]
    rw [hplan] at hloop ⊢
    rw [hloop, hadvance]
    rfl
  · constructor
    case moves => omega
    case current_size => exact (Nat.add_sub_cancel' (le_of_lt hcurrent)).symm
    case current_le => exact le_refl _
    case fid => rfl
    case stream_pts => exact (if_pos rfl).symm
    case frame_size =>
      show n * config.packetSize + _ ≤ config.bufSize
      omega
    case packets =>
      rw [hframe, decide_eq_true rfl]
      rw [hfilled.stream_pts] at hok
      refine ⟨⟨packets, packet, rfl, fun q hq => (hfilled.packet q hq).1, hok⟩, ?_⟩
      have hsum : img.length - buf.currentSize = n * config.dataSize +
          (img.length - buf.currentSize - n * config.dataSize) := by omega
      rw [flatMap_append, flatMap_singleton, hfilled.payloads, hpayload, hlen, hpicture]
      rw [← drop_drop, ← take_add, ← hsum]

theorem encode_spec (hfid : buf.fid = 0#32 ∨ buf.fid = 1#32) (hdata : config.bufSize ≤ data.length)
    (himg : img.length < 2 ^ 32) (hcurrent : buf.currentSize < img.length) :
    ∃ frame buf' n, uvcFrameEncode config buf data img = some (frame, buf') ∧
      Encoded config buf img n frame buf' := by
  by_cases hfull : config.packets * config.dataSize < img.length - buf.currentSize
  · obtain ⟨frame, buf', hrun, hspec⟩ := encode_full hfid hdata himg hfull
    exact ⟨frame, buf', _, hrun, hspec⟩
  · obtain ⟨frame, buf', hrun, hspec⟩ := encode_last hfid hdata himg hcurrent (not_lt.mp hfull)
    exact ⟨frame, buf', _, hrun, hspec⟩

end

end FullhanRtos.Uvc
