import FullhanRtos.Lib.PesStream
import FullhanRtos.Lib.Word
import Mathlib.Tactic.IntervalCases

/-!
# Packing a NAL unit

The program stream that `libpes` makes of a NAL unit: a pack header and a program map before the
first unit of a frame, then PES packets of at most `maxPesPacketLen` bytes, each with a header that
is filled up to a multiple of four bytes. Every piece of a stream here is one call of `ts_add_data`.
-/

namespace FullhanRtos.Pes

open Bytes Word PesStream List BitVec

/-- A NAL unit in memory, beside the 32 bytes in which a header is made. -/
structure Nalu where
  data : List Byte
  inMemory : data.length + 32 ≤ 2 ^ 32

inductive FrameType
  | bFrame
  | pFrame
  | iFrame
  deriving DecidableEq

/-- `PSMUX_PROCESS_PARAM`, as far as it is input. -/
structure ProcessParam where
  encType : Byte
  frameType : FrameType
  isFirstUnit : Bool
  isLastUnit : Bool
  isKeyFrame : Bool
  isUnitStart : Bool
  isUnitEnd : Bool
  sysClkRef : BitVec 64
  ptimeStamp : BitVec 64
  frameNum : BitVec 32
  unitIn : Nalu
  encrypt : BitVec 32

/-- `PES_PACK_INFO` without the length of the payload, which `createPesHeader` returns. -/
structure PackInfo where
  streamId : Byte
  addPts : Bool
  totalDataLen : Nat
  restDataLen : Nat

def low (n : Nat) : Byte := BitVec.ofNat 8 n

def maxPesPacketLen : Nat := 65496

def minPesHeadStuffLen : Nat := 2

def streamTypeVideoH264 : Byte := 0x1b

def streamTypeVideoH265 : Byte := 0x24

def pesVideoBase : Byte := 0xe0

/-! ## PES headers -/

def pesHeaderBasicLen : Nat := 9

/-- The length of the time stamp, if there is one. -/
def ptsLen (pes : PackInfo) : Nat := if pes.addPts then 5 else 0

/-- `tmp` of `PSMUX_create_pes_header`: the packet with the least stuffing. -/
def packetLen (pes : PackInfo) : Nat :=
  add32 (pesHeaderBasicLen + ptsLen pes + minPesHeadStuffLen) pes.restDataLen

/-- The bytes of stuffing, at least two, which align the packet to four bytes. -/
def headerStuffLen (pes : PackInfo) : Nat :=
  if packetLen pes > maxPesPacketLen then 2
  else if packetLen pes = maxPesPacketLen ∨ packetLen pes % 4 = 0 then 2
  else 2 + (4 - packetLen pes % 4)

def headerExtLen (pes : PackInfo) : Nat := ptsLen pes + headerStuffLen pes

def payloadLen (pes : PackInfo) : Nat :=
  if packetLen pes > maxPesPacketLen then
    maxPesPacketLen - pesHeaderBasicLen - headerExtLen pes
  else pes.restDataLen

/-- The last byte of the stuffing. It tells where a unit and a frame start and end. -/
def stuffFlag (param : ProcessParam) (pes : PackInfo) : Byte :=
  let start : Byte := if pes.restDataLen = pes.totalDataLen ∧ param.isUnitStart then 0xfd else 0xff
  if packetLen pes > maxPesPacketLen then start
  else
    let last : Byte := if param.isUnitEnd then start &&& 0xfe else start
    if param.isLastUnit ∧ param.isUnitEnd then last &&& 0xfb else last

/-- The time stamp between its marker bits. -/
def ptsBytes (pts : BitVec 64) : List Byte :=
  [(pts >>> 29 &&& 0x0e).setWidth 8 ||| 0x21,
    (pts >>> 22).setWidth 8,
    (pts >>> 14 &&& 0xfe).setWidth 8 ||| 0x01,
    (pts >>> 7).setWidth 8,
    (pts <<< 1 &&& 0xfe).setWidth 8 ||| 0x01]

/-- What stands behind `PES_header_data_length`. -/
def pesFields (param : ProcessParam) (pes : PackInfo) : List Byte :=
  (if pes.addPts then ptsBytes param.ptimeStamp else []) ++
    List.replicate (headerStuffLen pes - 1) 0xff ++ [stuffFlag param pes]

/-- Byte 6 of the header: scrambling, priority and alignment. -/
def pesFlags (param : ProcessParam) (pes : PackInfo) : Byte :=
  0x80 ||| (param.encrypt &&& 3).setWidth 8 <<< 4 |||
    (if param.frameType = .bFrame then 0 else 0x08) ||| (~~~stuffFlag param pes <<< 1 &&& 0x04)

def createPesHeader (param : ProcessParam) (pes : PackInfo) : List Byte :=
  let length := sub32 (add32 (pesHeaderBasicLen + headerExtLen pes) (payloadLen pes)) 6
  [0x00, 0x00, 0x01, pes.streamId] ++ [low (length >>> 8), low length] ++
    [pesFlags param pes, if pes.addPts then 0x80 else 0, low (headerExtLen pes)] ++
    pesFields param pes

/-! ## Pack header and program map -/

/-- `MAX_BYTE_RATE / 50 + 1` -/
def muxRate : Nat := 256 * 1024 / 50 + 1

/-- The length of the system header, for four streams. -/
def systemHeaderLen : Nat := 6 + 3 * 4

def systemHeader : List Byte :=
  [0x00, 0x00, 0x01, 0xbb, low (systemHeaderLen >>> 8), low systemHeaderLen,
    low (0x80 ||| (muxRate >>> 15 &&& 0x7f)), low (muxRate >>> 7),
    low ((muxRate <<< 1 &&& 0xfe) ||| 0x01), 0x04, 0xe1, 0x7f,
    0xe0, 0xe0, 0x80, 0xc0, 0xc0, 0x08, 0xbd, 0xe0, 0x80, 0xbf, 0xe0, 0x80]

def fillPsh (param : ProcessParam) : List Byte :=
  let clock := param.sysClkRef
  [(0x00 : Byte), 0x00, 0x01, 0xba,
    (0x40 ||| (clock >>> 27 &&& 0x38) ||| 0x04 ||| (clock >>> 28 &&& 0x03)).setWidth 8,
    (clock >>> 20).setWidth 8,
    ((clock >>> 12 &&& 0xf8) ||| 0x04 ||| (clock >>> 13 &&& 0x03)).setWidth 8,
    (clock >>> 5).setWidth 8,
    ((clock <<< 3 &&& 0xf0) ||| 0x04).setWidth 8,
    0x01,
    low (muxRate >>> 14), low (muxRate >>> 6), low (muxRate <<< 2 ||| 0x03), 0xfe, 0xff, 0xff,
    (param.frameNum >>> 24).setWidth 8, (param.frameNum >>> 16).setWidth 8,
    (param.frameNum >>> 8).setWidth 8, param.frameNum.setWidth 8] ++
    if param.isKeyFrame then systemHeader else []

def psmuxCtx : List Nat :=
  [
   0x00000000, 0xb71dc104, 0x6e3b8209, 0xd926430d, 0xdc760413, 0x6b6bc517, 0xb24d861a, 0x0550471e,
   0xb8ed0826, 0x0ff0c922, 0xd6d68a2f, 0x61cb4b2b, 0x649b0c35, 0xd386cd31, 0x0aa08e3c, 0xbdbd4f38,
   0x70db114c, 0xc7c6d048, 0x1ee09345, 0xa9fd5241, 0xacad155f, 0x1bb0d45b, 0xc2969756, 0x758b5652,
   0xc836196a, 0x7f2bd86e, 0xa60d9b63, 0x11105a67, 0x14401d79, 0xa35ddc7d, 0x7a7b9f70, 0xcd665e74,
   0xe0b62398, 0x57abe29c, 0x8e8da191, 0x39906095, 0x3cc0278b, 0x8bdde68f, 0x52fba582, 0xe5e66486,
   0x585b2bbe, 0xef46eaba, 0x3660a9b7, 0x817d68b3, 0x842d2fad, 0x3330eea9, 0xea16ada4, 0x5d0b6ca0,
   0x906d32d4, 0x2770f3d0, 0xfe56b0dd, 0x494b71d9, 0x4c1b36c7, 0xfb06f7c3, 0x2220b4ce, 0x953d75ca,
   0x28803af2, 0x9f9dfbf6, 0x46bbb8fb, 0xf1a679ff, 0xf4f63ee1, 0x43ebffe5, 0x9acdbce8, 0x2dd07dec,
   0x77708634, 0xc06d4730, 0x194b043d, 0xae56c539, 0xab068227, 0x1c1b4323, 0xc53d002e, 0x7220c12a,
   0xcf9d8e12, 0x78804f16, 0xa1a60c1b, 0x16bbcd1f, 0x13eb8a01, 0xa4f64b05, 0x7dd00808, 0xcacdc90c,
   0x07ab9778, 0xb0b6567c, 0x69901571, 0xde8dd475, 0xdbdd936b, 0x6cc0526f, 0xb5e61162, 0x02fbd066,
   0xbf469f5e, 0x085b5e5a, 0xd17d1d57, 0x6660dc53, 0x63309b4d, 0xd42d5a49, 0x0d0b1944, 0xba16d840,
   0x97c6a5ac, 0x20db64a8, 0xf9fd27a5, 0x4ee0e6a1, 0x4bb0a1bf, 0xfcad60bb, 0x258b23b6, 0x9296e2b2,
   0x2f2bad8a, 0x98366c8e, 0x41102f83, 0xf60dee87, 0xf35da999, 0x4440689d, 0x9d662b90, 0x2a7bea94,
   0xe71db4e0, 0x500075e4, 0x892636e9, 0x3e3bf7ed, 0x3b6bb0f3, 0x8c7671f7, 0x555032fa, 0xe24df3fe,
   0x5ff0bcc6, 0xe8ed7dc2, 0x31cb3ecf, 0x86d6ffcb, 0x8386b8d5, 0x349b79d1, 0xedbd3adc, 0x5aa0fbd8,
   0xeee00c69, 0x59fdcd6d, 0x80db8e60, 0x37c64f64, 0x3296087a, 0x858bc97e, 0x5cad8a73, 0xebb04b77,
   0x560d044f, 0xe110c54b, 0x38368646, 0x8f2b4742, 0x8a7b005c, 0x3d66c158, 0xe4408255, 0x535d4351,
   0x9e3b1d25, 0x2926dc21, 0xf0009f2c, 0x471d5e28, 0x424d1936, 0xf550d832, 0x2c769b3f, 0x9b6b5a3b,
   0x26d61503, 0x91cbd407, 0x48ed970a, 0xfff0560e, 0xfaa01110, 0x4dbdd014, 0x949b9319, 0x2386521d,
   0x0e562ff1, 0xb94beef5, 0x606dadf8, 0xd7706cfc, 0xd2202be2, 0x653deae6, 0xbc1ba9eb, 0x0b0668ef,
   0xb6bb27d7, 0x01a6e6d3, 0xd880a5de, 0x6f9d64da, 0x6acd23c4, 0xddd0e2c0, 0x04f6a1cd, 0xb3eb60c9,
   0x7e8d3ebd, 0xc990ffb9, 0x10b6bcb4, 0xa7ab7db0, 0xa2fb3aae, 0x15e6fbaa, 0xccc0b8a7, 0x7bdd79a3,
   0xc660369b, 0x717df79f, 0xa85bb492, 0x1f467596, 0x1a163288, 0xad0bf38c, 0x742db081, 0xc3307185,
   0x99908a5d, 0x2e8d4b59, 0xf7ab0854, 0x40b6c950, 0x45e68e4e, 0xf2fb4f4a, 0x2bdd0c47, 0x9cc0cd43,
   0x217d827b, 0x9660437f, 0x4f460072, 0xf85bc176, 0xfd0b8668, 0x4a16476c, 0x93300461, 0x242dc565,
   0xe94b9b11, 0x5e565a15, 0x87701918, 0x306dd81c, 0x353d9f02, 0x82205e06, 0x5b061d0b, 0xec1bdc0f,
   0x51a69337, 0xe6bb5233, 0x3f9d113e, 0x8880d03a, 0x8dd09724, 0x3acd5620, 0xe3eb152d, 0x54f6d429,
   0x7926a9c5, 0xce3b68c1, 0x171d2bcc, 0xa000eac8, 0xa550add6, 0x124d6cd2, 0xcb6b2fdf, 0x7c76eedb,
   0xc1cba1e3, 0x76d660e7, 0xaff023ea, 0x18ede2ee, 0x1dbda5f0, 0xaaa064f4, 0x738627f9, 0xc49be6fd,
   0x09fdb889, 0xbee0798d, 0x67c63a80, 0xd0dbfb84, 0xd58bbc9a, 0x62967d9e, 0xbbb03e93, 0x0cadff97,
   0xb110b0af, 0x060d71ab, 0xdf2b32a6, 0x6836f3a2, 0x6d66b4bc, 0xda7b75b8, 0x035d36b5, 0xb440f7b1,
   0x00000001]

def psmuxMpeg2Crc (buffer : List Byte) : BitVec 32 :=
  buffer.foldl (fun crc byte =>
    BitVec.ofNat 32 (psmuxCtx.getD (crc.setWidth 8 ^^^ byte).toNat 0) ^^^ crc >>> 8) 0xffffffff

/-- The program map up to its checksum: the length of the map, and of the one stream in it. -/
def psmFields (param : ProcessParam) : List Byte :=
  [0x00, 0x00, 0x01, 0xbc, 0x00, 0x0e, 0xe0, 0xff, 0x00, 0x00, 0x00, 0x04,
    param.encType, pesVideoBase, 0x00, 0x00]

def fillPsm (param : ProcessParam) : List Byte :=
  let crc := psmuxMpeg2Crc (psmFields param)
  psmFields param ++ [(crc >>> 24).setWidth 8, (crc >>> 16).setWidth 8, (crc >>> 8).setWidth 8,
    crc.setWidth 8]

/-! ## The loop -/

/-- A PES packet as its two calls of `ts_add_data`. -/
structure PesPacket where
  header : List Byte
  payload : List Byte
  deriving DecidableEq

def PesPacket.bytes (packet : PesPacket) : List Byte := packet.header ++ packet.payload

/-- `pes` at the head of the loop, when `packed` bytes are packed. -/
def packInfo (param : ProcessParam) (addPts : Bool) (packed : Nat) : PackInfo where
  streamId := pesVideoBase
  addPts := addPts
  totalDataLen := param.unitIn.data.length
  restDataLen := param.unitIn.data.length - packed

theorem header_ext_len_le (pes : PackInfo) : headerExtLen pes ≤ 10 := by
  unfold headerExtLen headerStuffLen ptsLen
  split_ifs <;> omega

theorem payload_len_pos {pes : PackInfo} (hrest : 0 < pes.restDataLen) : 0 < payloadLen pes := by
  have hext := header_ext_len_le pes
  unfold payloadLen maxPesPacketLen pesHeaderBasicLen
  split_ifs
  · omega
  · exact hrest

/-- The loop of `do_pack_nalu`. Only its first packet gets a time stamp. -/
def packLoop (param : ProcessParam) (addPts : Bool) (packed : Nat) : List PesPacket :=
  if _h : packed < param.unitIn.data.length then
    let pes := packInfo param addPts packed
    ⟨createPesHeader param pes, (param.unitIn.data.drop packed).take (payloadLen pes)⟩ ::
      packLoop param false (packed + payloadLen pes)
  else []
termination_by param.unitIn.data.length - packed
decreasing_by
  have hpos : 0 < payloadLen (packInfo param addPts packed) :=
    payload_len_pos (Nat.sub_pos_of_lt _h)
  omega

/-- Whether a time stamp, and the headers of a frame, are due. -/
def startsFrame (param : ProcessParam) : Bool := param.isFirstUnit && param.isUnitStart

def pesPackets (param : ProcessParam) : List PesPacket := packLoop param (startsFrame param) 0

/-- `do_pack_nalu`, as the pieces that it hands to `ts_add_data`. -/
def doPackNalu (param : ProcessParam) : List (List Byte) :=
  (if startsFrame param then
    fillPsh param :: if param.isKeyFrame then [fillPsm param] else []
  else []) ++ (pesPackets param).flatMap fun packet => [packet.header, packet.payload]

/-! ## What a reader finds -/

/-- A packet of the right size, whose two lengths say what follows them, and which is read off the
front of any stream. -/
structure PacketOk (pts : Option Nat) (packet : PesPacket) : Prop where
  length_le : packet.bytes.length ≤ 65535 + 6
  packet_length : 6 + beValue ((packet.bytes.drop 4).take 2) = packet.bytes.length
  header_length : 9 + beValue ((packet.bytes.drop 8).take 1) = packet.header.length
  read : ∀ behind, packet? (packet.bytes ++ behind) =
    some (⟨pesVideoBase, pts, packet.payload⟩, behind)

def ptsDue (clock : BitVec 64) (stamped : Bool) (i : Nat) : Option Nat :=
  if stamped ∧ i = 0 then some (clock.toNat % 2 ^ 33) else none

/-- Packets that carry a NAL unit, with a time stamp in the first one at most. -/
structure PacketsOk (clock : BitVec 64) (stamped : Bool) (nal : List Byte)
    (packets : List PesPacket) : Prop where
  payloads : packets.flatMap (·.payload) = nal
  each : ∀ i packet, packets[i]? = some packet → PacketOk (ptsDue clock stamped i) packet

variable {pes : PackInfo} {payload : List Byte}

theorem pts_marks (pts : BitVec 64) :
    ((pts >>> 29 &&& 0x0e).setWidth 8 ||| 0x21) &&& 0xf1 = (0x21 : Byte) ∧
      ((pts >>> 14 &&& 0xfe).setWidth 8 ||| 0x01) &&& 1 = (1 : Byte) ∧
      ((pts <<< 1 &&& 0xfe).setWidth 8 ||| 0x01) &&& 1 = (1 : Byte) := by
  refine ⟨?high, ?middle, ?lowest⟩ <;>
    · apply eq_of_getLsbD_eq
      intro i hi
      interval_cases i <;> simp

theorem pts_read (pts : BitVec 64) : pts? (ptsBytes pts) = some (pts.toNat % 2 ^ 33) := by
  have hfirst : (((pts >>> 29 &&& 0x0e).setWidth 8 ||| 0x21) >>> 1 &&& 7 : Byte) =
      ((pts >>> 30).setWidth 3).setWidth 8 := by
    apply eq_of_getLsbD_eq
    intro i hi
    interval_cases i <;> simp
  have hthird : (((pts >>> 14 &&& 0xfe).setWidth 8 ||| 0x01) >>> 1 : Byte) =
      ((pts >>> 15).setWidth 7).setWidth 8 := by
    apply eq_of_getLsbD_eq
    intro i hi
    interval_cases i <;> simp
  have hfifth : (((pts <<< 1 &&& 0xfe).setWidth 8 ||| 0x01) >>> 1 : Byte) =
      (pts.setWidth 7).setWidth 8 := by
    apply eq_of_getLsbD_eq
    intro i hi
    interval_cases i <;> simp
  rw [ptsBytes, pts?_bytes (pts_marks pts), hfirst, hthird, hfifth]
  simp only [toNat_setWidth, toNat_ushiftRight, Nat.shiftRight_eq_div_pow]
  congr 1
  omega

theorem pes_flags_marker (param : ProcessParam) (pes : PackInfo) :
    pesFlags param pes &&& 0xc0 = 0x80 := by
  unfold pesFlags
  apply eq_of_getLsbD_eq
  intro i hi
  split_ifs <;> interval_cases i <;> simp

theorem length_pes_fields (param : ProcessParam) (pes : PackInfo) :
    (pesFields param pes).length = headerExtLen pes := by
  have hstuff : 2 ≤ headerStuffLen pes := by
    unfold headerStuffLen
    split_ifs <;> omega
  have hpts : (if pes.addPts then ptsBytes param.ptimeStamp else []).length = ptsLen pes := by
    unfold ptsLen
    split_ifs <;> rfl
  unfold pesFields headerExtLen
  rw [length_append, length_append, length_replicate, hpts]
  show ptsLen pes + (headerStuffLen pes - 1) + 1 = _
  omega

theorem pts_len_le (pes : PackInfo) : ptsLen pes ≤ 5 := by
  unfold ptsLen
  split_ifs <;> omega

theorem packet_len_eq (hrest : pes.restDataLen + 32 ≤ 2 ^ 32) :
    packetLen pes = 11 + ptsLen pes + pes.restDataLen := by
  have hpts := pts_len_le pes
  unfold packetLen pesHeaderBasicLen minPesHeadStuffLen
  rw [add32_eq (by omega)]
  omega

theorem packet_size_le (hrest : pes.restDataLen + 32 ≤ 2 ^ 32) :
    9 + headerExtLen pes + payloadLen pes ≤ 65496 := by
  have hpts := pts_len_le pes
  have hlen := packet_len_eq hrest
  unfold headerExtLen payloadLen headerStuffLen headerExtLen headerStuffLen
  unfold maxPesPacketLen pesHeaderBasicLen
  split_ifs <;> omega

theorem pes_fields_read (param : ProcessParam) (pes : PackInfo) :
    fields? (if pes.addPts then 0x80 else 0) (pesFields param pes) =
      some (if pes.addPts then some (param.ptimeStamp.toNat % 2 ^ 33) else none) := by
  unfold pesFields
  cases pes.addPts with
  | true =>
    have hfive : (ptsBytes param.ptimeStamp).length = 5 := rfl
    show (pts? ((ptsBytes param.ptimeStamp ++ _ ++ _).take 5)).map some = _
    rw [List.append_assoc, take_left' hfive, pts_read]
    rfl
  | false => rfl

theorem create_pes_header_eq (param : ProcessParam) (hrest : pes.restDataLen + 32 ≤ 2 ^ 32)
    (hpayload : payload.length = payloadLen pes) :
    createPesHeader param pes =
      [0, 0, 1, pes.streamId] ++ beBytes 2 (3 + (pesFields param pes).length + payload.length) ++
        [pesFlags param pes, if pes.addPts then 0x80 else 0,
          BitVec.ofNat 8 (pesFields param pes).length] ++ pesFields param pes := by
  have hsize := packet_size_le hrest
  have hlength : sub32 (add32 (pesHeaderBasicLen + headerExtLen pes) (payloadLen pes)) 6 =
      3 + headerExtLen pes + payloadLen pes := by
    unfold pesHeaderBasicLen
    rw [add32_eq (by omega), sub32_eq (by omega) (by omega)]
    omega
  unfold createPesHeader
  rw [hlength, length_pes_fields, hpayload]
  dsimp only
  rw [Nat.shiftRight_eq_div_pow]
  rfl

theorem header_packet_ok (param : ProcessParam) (hrest : pes.restDataLen + 32 ≤ 2 ^ 32)
    (hid : pes.streamId = pesVideoBase) (hpayload : payload.length = payloadLen pes) :
    PacketOk (if pes.addPts then some (param.ptimeStamp.toNat % 2 ^ 33) else none)
      ⟨createPesHeader param pes, payload⟩ := by
  have hsize := packet_size_le hrest
  have hext := header_ext_len_le pes
  have hfields := length_pes_fields param pes
  have heq := create_pes_header_eq param hrest hpayload
  have hvalue : beValue (beBytes 2 (3 + headerExtLen pes + payloadLen pes)) = _ :=
    be_value_bytes_of_lt (by omega)
  have hlength : (createPesHeader param pes).length = 9 + headerExtLen pes := by
    rw [heq]
    simp only [length_append, length_cons, length_nil, length_be_bytes, hfields]
  refine ⟨?size, ?packet, ?header, ?read⟩
  case size =>
    show (createPesHeader param pes ++ payload).length ≤ 65535 + 6
    rw [length_append, hlength, hpayload]
    omega
  case packet =>
    have hfour : [0, 0, 1, pes.streamId].length = 4 := rfl
    show 6 + beValue (((createPesHeader param pes ++ payload).drop 4).take 2) =
      (createPesHeader param pes ++ payload).length
    rw [length_append, hlength, heq, List.append_assoc, List.append_assoc, List.append_assoc,
      drop_left' hfour, take_left' (length_be_bytes 2 _), hfields, hpayload, hvalue]
    omega
  case header =>
    have hbyte : ((createPesHeader param pes ++ payload).drop 8).take 1 =
        beBytes 1 (headerExtLen pes) := rfl
    show 9 + beValue (((createPesHeader param pes ++ payload).drop 8).take 1) =
      (createPesHeader param pes).length
    rw [hbyte, be_value_bytes_of_lt (by omega), hlength]
  case read =>
    intro behind
    show packet? (createPesHeader param pes ++ payload ++ behind) = _
    rw [heq, packet?_fields (pes_flags_marker param pes) (by omega) (pes_fields_read param pes)
      (by omega), hid]

theorem payload_len_le (hrest : pes.restDataLen + 32 ≤ 2 ^ 32) :
    payloadLen pes ≤ pes.restDataLen := by
  have hlen := packet_len_eq hrest
  unfold payloadLen headerExtLen headerStuffLen maxPesPacketLen pesHeaderBasicLen
  split_ifs <;> omega

theorem pack_loop_ok (param : ProcessParam) (addPts : Bool) (packed : Nat) :
    PacketsOk param.ptimeStamp addPts (param.unitIn.data.drop packed)
      (packLoop param addPts packed) := by
  have hmemory := param.unitIn.inMemory
  fun_induction packLoop param addPts packed with
  | case1 addPts packed hless pes ih =>
    have hrest : pes.restDataLen + 32 ≤ 2 ^ 32 :=
      le_trans (Nat.add_le_add_right (Nat.sub_le _ _) 32) hmemory
    have hle : payloadLen pes ≤ param.unitIn.data.length - packed := payload_len_le hrest
    have hpayload : ((param.unitIn.data.drop packed).take (payloadLen pes)).length =
        payloadLen pes := by
      rw [length_take, length_drop]
      exact min_eq_left hle
    refine ⟨?payloads, ?each⟩
    case payloads =>
      rw [flatMap_cons, ih.payloads, ← drop_drop]
      exact take_append_drop _ _
    case each =>
      intro i packet hget
      cases i with
      | zero =>
        obtain rfl := Option.some.inj hget
        have hok := header_packet_ok param hrest rfl hpayload
        have hdue : ptsDue param.ptimeStamp addPts 0 =
            if pes.addPts then some (param.ptimeStamp.toNat % 2 ^ 33) else none := by
          exact if_congr (and_iff_left rfl) rfl rfl
        rw [hdue]
        exact hok
      | succ i =>
        have hok := ih.each i packet hget
        have hdue : ptsDue param.ptimeStamp addPts (i + 1) = ptsDue param.ptimeStamp false i :=
          (if_neg fun h => Nat.succ_ne_zero i h.2).trans (if_neg nofun).symm
        rw [hdue]
        exact hok
  | case2 addPts packed hmore =>
    rw [drop_of_length_le (Nat.le_of_not_lt hmore)]
    exact ⟨rfl, nofun⟩

/-- The packets of a unit carry it, each with the lengths it has, and only the first packet of a
frame has the time stamp. -/
theorem pes_packets_ok (param : ProcessParam) :
    PacketsOk param.ptimeStamp (startsFrame param) param.unitIn.data (pesPackets param) :=
  pack_loop_ok param (startsFrame param) 0

end FullhanRtos.Pes
