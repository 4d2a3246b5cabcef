import FullhanRtos.Lib.Rtp

/-!
# RTP packets of a NAL unit

The packets that `generate_rtp_video_packets_and_queue` makes of a NAL unit: one packet if the unit
fits, and otherwise fragments in which the header of the unit is spread over the fragment headers.
`packets_ok` says that a receiver gets back the unit.
-/

namespace FullhanRtos.Rtsp

open Bytes Rtp List Nat BitVec

/-! ## The packetiser -/

inductive RtpTransport
  | tcp
  | udp
  deriving DecidableEq

inductive VencFormat
  | h264
  | h265
  deriving DecidableEq

/-- `struct rtp_info`, as far as the packets depend on it. -/
structure RtpInfo where
  ssrc : BitVec 32
  videoSequenceNum : BitVec 16
  rtpTransport : RtpTransport

/-- `struct rtp_packet`, with `is_last_pkt` of the call that queues it. -/
structure RtpPacket where
  buf : List Byte
  isLast : Bool
  deriving DecidableEq

def headerOffset : RtpTransport → Nat
  | .tcp => 16
  | .udp => 12

def maxLen : RtpTransport → Nat
  | .tcp => 1460
  | .udp => 1472

def videoType : Byte := 96

def generateRtpHeader (info : RtpInfo) (pts : BitVec 32) (payloadLen : Nat) (markBit : Bool) :
    List Byte :=
  let seqNum := info.videoSequenceNum
  (match info.rtpTransport with
    | .tcp => [0x24, 0, BitVec.ofNat 8 ((payloadLen + 12) >>> 8), BitVec.ofNat 8 (payloadLen + 12)]
    | .udp => []) ++
  [0x80, (if markBit then 0x80 else 0) ||| videoType,
    (seqNum >>> 8).setWidth 8, seqNum.setWidth 8,
    (pts >>> 24).setWidth 8, (pts >>> 16).setWidth 8, (pts >>> 8).setWidth 8, pts.setWidth 8,
    (info.ssrc >>> 24).setWidth 8, (info.ssrc >>> 16).setWidth 8, (info.ssrc >>> 8).setWidth 8,
    info.ssrc.setWidth 8]

/-- `video_sequence_num++` -/
def nextSequence (info : RtpInfo) : RtpInfo :=
  { info with videoSequenceNum := info.videoSequenceNum + 1 }

def rulesOf : VencFormat → Rules
  | .h264 => Rtp.h264
  | .h265 => Rtp.h265

/-- The RTP packet in a packet. Over TCP it is a whole frame of channel 0. -/
def rtp? (transport : RtpTransport) (buf : List Byte) : Option Packet :=
  match transport with
  | .udp => packet? buf
  | .tcp =>
    match interleaved? buf with
    | some (0, data, []) => packet? data
    | _ => none

/-- A packet of the right size, with the fields that are due in packet `i`. -/
structure PacketOk (transport : RtpTransport) (sequence : BitVec 16) (pts ssrc : BitVec 32)
    (i : Nat) (marker : Bool) (buf payload : List Byte) : Prop where
  length_le : buf.length ≤ maxLen transport
  interleaved : transport = .tcp → beValue ((buf.drop 2).take 2) = buf.length - 4
  read : rtp? transport buf = some ⟨marker, videoType, (sequence + BitVec.ofNat 16 (i + 1)).toNat,
    pts.toNat, ssrc.toNat, payload⟩

/-- Packets that carry a unit, numbered behind the sequence number of `info`. `marked` says whether
the last one has the marker. -/
structure PacketsOk (info : RtpInfo) (pts : BitVec 32) (format : VencFormat) (nal : List Byte)
    (marked : Bool) (packets : List (List Byte)) : Prop where
  carried : ∃ payloads, payloads.length = packets.length ∧
    depacketize (rulesOf format) payloads = some nal ∧
    ∀ i buf payload, packets[i]? = some buf → payloads[i]? = some payload →
      PacketOk info.rtpTransport info.videoSequenceNum pts info.ssrc i
        (marked && i + 1 = packets.length) buf payload ∧
      (1 < packets.length → ∃ f, (rulesOf format).fragment? payload = some f ∧
        (f.start = true ↔ i = 0) ∧ (f.last = true ↔ i + 1 = packets.length))

variable {info : RtpInfo} {pts : BitVec 32} {format : VencFormat} {payload nal : List Byte}
  {type : Byte} {fragment : { n : Nat // 0 < n }} {start : Bool} {first : Byte}

/-- The RTP header without the frame of an interleaved stream. -/
def rtpHeader (info : RtpInfo) (pts : BitVec 32) (markBit : Bool) : List Byte :=
  [0x80, (if markBit then 0x80 else 0) ||| videoType] ++ beBytes 2 info.videoSequenceNum.toNat ++
    beBytes 4 pts.toNat ++ beBytes 4 info.ssrc.toNat

theorem length_rtp_header (info : RtpInfo) (pts : BitVec 32) (markBit : Bool) :
    (rtpHeader info pts markBit).length = 12 := by
  simp only [rtpHeader, length_append, length_be_bytes, length_cons, length_nil]

theorem generate_rtp_header_eq (info : RtpInfo) (pts : BitVec 32) (payloadLen : Nat)
    (markBit : Bool) :
    generateRtpHeader info pts payloadLen markBit =
      (match info.rtpTransport with
        | .tcp => [0x24, 0] ++ beBytes 2 (payloadLen + 12)
        | .udp => []) ++ rtpHeader info pts markBit := by
  have hlen : [BitVec.ofNat 8 ((payloadLen + 12) >>> 8), BitVec.ofNat 8 (payloadLen + 12)] =
      beBytes 2 (payloadLen + 12) := by
    rw [shiftRight_eq_div_pow]
    rfl
  unfold generateRtpHeader rtpHeader
  rw [← hlen, ← be_bytes_word16, ← be_bytes_word32, ← be_bytes_word32]
  rfl

theorem marker_bit (markBit : Bool) :
    ((if markBit then 0x80 else 0) ||| videoType : Byte).msb = markBit ∧
      ((if markBit then 0x80 else 0) ||| videoType : Byte) &&& 0x7f = videoType := by
  cases markBit with
  | true => exact ⟨rfl, rfl⟩
  | false => exact ⟨rfl, rfl⟩

theorem rtp_header_read (markBit : Bool) :
    packet? (rtpHeader info pts markBit ++ payload) =
      some ⟨markBit, videoType, info.videoSequenceNum.toNat, pts.toNat, info.ssrc.toNat,
        payload⟩ := by
  unfold rtpHeader
  rw [packet?_header, (marker_bit markBit).1, (marker_bit markBit).2]

theorem header_packet_ok (pts : BitVec 32) {sequence : BitVec 16} {i : Nat} (markBit : Bool)
    (hsize : headerOffset info.rtpTransport + payload.length ≤ maxLen info.rtpTransport)
    (hsequence : info.videoSequenceNum = sequence + BitVec.ofNat 16 (i + 1)) :
    PacketOk info.rtpTransport sequence pts info.ssrc i markBit
      (generateRtpHeader info pts payload.length markBit ++ payload) payload := by
  have hread : packet? (rtpHeader info pts markBit ++ payload) = _ := rtp_header_read markBit
  have hlen : (rtpHeader info pts markBit ++ payload).length = payload.length + 12 := by
    rw [length_append, length_rtp_header, add_comm]
  rw [hsequence] at hread
  rw [generate_rtp_header_eq]
  cases htransport : info.rtpTransport with
  | udp =>
    rw [htransport] at hsize
    refine ⟨?_, nofun, hread⟩
    show (rtpHeader info pts markBit ++ payload).length ≤ 1472
    have hmax : 12 + payload.length ≤ 1472 := hsize
    omega
  | tcp =>
    have hmax : 16 + payload.length ≤ 1460 := by rwa [htransport] at hsize
    have hbuf : (([0x24, 0] ++ beBytes 2 (payload.length + 12) ++ rtpHeader info pts markBit) ++
        payload).length = payload.length + 16 := by
      rw [List.append_assoc, length_append, hlen, length_append, length_be_bytes]
      show 2 + 2 + (payload.length + 12) = _
      omega
    refine ⟨?_, fun _ => ?_, ?_⟩
    · show List.length _ ≤ 1460
      rw [hbuf]
      omega
    · have hvalue : beValue (beBytes 2 (payload.length + 12)) = payload.length + 12 :=
        be_value_bytes_of_lt (by omega)
      rw [hbuf]
      show beValue (beBytes 2 (payload.length + 12)) = _
      omega
    · have hshort : (rtpHeader info pts markBit ++ payload).length < 2 ^ 16 := by
        omega
      have hframe := interleaved?_header 0 [] hshort
      rw [hlen, append_nil, ← List.append_assoc] at hframe
      unfold rtp?
      rw [hframe]
      exact hread

/-! ## Fragments -/

/-- A part of the unit: its packet, what the packet carries, and what a receiver makes of it. -/
structure Part where
  packet : RtpPacket
  payload : List Byte
  fragment : Fragment

variable {part : Part}

/-- The parts that the loop makes of `nal`. `start` says that the first one is the first of all. -/
structure PartsOk (info : RtpInfo) (pts : BitVec 32) (format : VencFormat) (header nal : List Byte)
    (start : Bool) (parts : List Part) : Prop where
  header : ∀ part ∈ parts, part.fragment.header = header
  data : (parts.map Part.fragment).flatMap Fragment.data = nal
  each : ∀ i part, parts[i]? = some part →
    PacketOk info.rtpTransport info.videoSequenceNum pts info.ssrc i (i + 1 = parts.length)
      part.packet.buf part.payload ∧
    (rulesOf format).fragment? part.payload = some part.fragment ∧
    part.packet.isLast = decide (i + 1 = parts.length) ∧
    (part.fragment.start = true ↔ start = true ∧ i = 0) ∧
    (part.fragment.last = true ↔ i + 1 = parts.length)

theorem sequence_succ (sequence : BitVec 16) (i : Nat) :
    sequence + 1 + BitVec.ofNat 16 (i + 1) = sequence + BitVec.ofNat 16 (i + 1 + 1) := by
  have hone : (1 : BitVec 16) + BitVec.ofNat 16 (i + 1) = BitVec.ofNat 16 (i + 1 + 1) := by
    rw [ofNat_add (i + 1) 1]
    exact add_comm _ _
  rw [add_assoc, hone]

/-- The parts behind the first one, seen from the first one. -/
theorem PartsOk.cons {header rest : List Byte} {parts : List Part}
    (h : PartsOk (nextSequence info) pts format header rest false parts) (hne : parts ≠ [])
    (hheader : part.fragment.header = header) (hdata : part.fragment.data ++ rest = nal)
    (hpacket : PacketOk info.rtpTransport info.videoSequenceNum pts info.ssrc 0 false
      part.packet.buf part.payload)
    (hfragment : (rulesOf format).fragment? part.payload = some part.fragment)
    (hlast : part.packet.isLast = false) (hbits : part.fragment.start = start)
    (hmore : part.fragment.last = false) :
    PartsOk info pts format header nal start (part :: parts) := by
  have hpos := length_pos_iff.mpr hne
  have hfirst : ¬ 0 + 1 = (part :: parts).length := by
    rw [length_cons]
    omega
  refine ⟨fun part' hmem => ?_, ?_, fun i part' hget => ?_⟩
  · rcases mem_cons.mp hmem with rfl | hmem
    · exact hheader
    · exact h.header part' hmem
  · rw [map_cons, flatMap_cons, h.data]
    exact hdata
  · cases i with
    | zero =>
      obtain rfl := Option.some.inj hget
      rw [decide_eq_false hfirst]
      refine ⟨hpacket, hfragment, hlast, ?_, ?_⟩
      · rw [hbits]
        exact (and_iff_left rfl).symm
      · rw [hmore]
        exact iff_of_false Bool.false_ne_true hfirst
    | succ i =>
      obtain ⟨hok, hfragment', hlast', hstart', hend'⟩ := h.each i part' hget
      have hcount : i + 1 + 1 = (part :: parts).length ↔ i + 1 = parts.length :=
        Nat.add_right_cancel_iff
      have hdecide : decide (i + 1 + 1 = (part :: parts).length) =
          decide (i + 1 = parts.length) := decide_eq_decide.mpr hcount
      rw [hdecide]
      refine ⟨?_, hfragment', hlast', ?_, hend'.trans hcount.symm⟩
      · have hread := hok.read
        have hsequence : (nextSequence info).videoSequenceNum + BitVec.ofNat 16 (i + 1) = _ :=
          sequence_succ info.videoSequenceNum i
        rw [hsequence] at hread
        exact ⟨hok.length_le, hok.interleaved, hread⟩
      · rw [hstart']
        exact iff_of_false (fun h => Bool.false_ne_true h.1) fun h => succ_ne_zero i h.2

def nalType (format : VencFormat) (nal : List Byte) : Byte :=
  match format with
  | .h264 => nal.getD 0 0 &&& 0x1f
  | .h265 => (nal.getD 0 0 >>> 1) &&& 0x3f

end FullhanRtos.Rtsp
