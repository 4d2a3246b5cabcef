import FullhanRtos.Lib.Bytes

/-!
# Packets of an elementary stream

A PES packet is a start code, a stream id, the length of what follows as 16 bits, two bytes of
flags, the length of the optional fields, these fields, and the payload. `packet?` reads one off the
front of a stream. Of the optional fields it knows the time stamp and steps over stuffing.
-/

namespace PesStream

open Bytes List

/-- What a reader takes from a packet. -/
structure Packet where
  streamId : Byte
  pts : Option Nat
  payload : List Byte
  deriving DecidableEq

/-- The 33 bits of a time stamp, if the bits around them are right. -/
def pts? : List Byte → Option Nat
  | [a, b, c, d, e] =>
    if a &&& 0xf1 = 0x21 ∧ c &&& 1 = 1 ∧ e &&& 1 = 1 then
      some ((a >>> 1 &&& 7).toNat * 2 ^ 30 + b.toNat * 2 ^ 22 + (c >>> 1).toNat * 2 ^ 15 +
        d.toNat * 2 ^ 7 + (e >>> 1).toNat)
    else none
  | _ => none

/-- The optional fields. The flags say whether they start with a time stamp. -/
def fields? (flags : Byte) (fields : List Byte) : Option (Option Nat) :=
  if flags = 0x80 then (pts? (fields.take 5)).map some
  else if flags = 0 then some none
  else none

/-- What follows the length. -/
def body? (streamId : Byte) : List Byte → Option Packet
  | flags :: optional :: size :: bytes =>
    if flags &&& 0xc0 = 0x80 ∧ size.toNat ≤ bytes.length then
      (fields? optional (bytes.take size.toNat)).map fun pts =>
        ⟨streamId, pts, bytes.drop size.toNat⟩
    else none
  | _ => none

/-- The first packet and what is behind it. -/
def packet? : List Byte → Option (Packet × List Byte)
  | 0 :: 0 :: 1 :: streamId :: high :: low :: bytes =>
    let length := beValue [high, low]
    if length ≤ bytes.length then
      (body? streamId (bytes.take length)).map (·, bytes.drop length)
    else none
  | _ => none

variable {streamId flags optional : Byte} {fields payload behind : List Byte} {pts : Option Nat}

theorem pts?_bytes {a b c d e : Byte} (h : a &&& 0xf1 = 0x21 ∧ c &&& 1 = 1 ∧ e &&& 1 = 1) :
    pts? [a, b, c, d, e] =
      some ((a >>> 1 &&& 7).toNat * 2 ^ 30 + b.toNat * 2 ^ 22 + (c >>> 1).toNat * 2 ^ 15 +
        d.toNat * 2 ^ 7 + (e >>> 1).toNat) := if_pos h

theorem body?_fields (hflags : flags &&& 0xc0 = 0x80) (hsize : fields.length < 2 ^ 8)
    (hfields : fields? optional fields = some pts) :
    body? streamId (flags :: optional :: BitVec.ofNat 8 fields.length :: (fields ++ payload)) =
      some ⟨streamId, pts, payload⟩ := by
  have hvalue : (BitVec.ofNat 8 fields.length).toNat = fields.length := Nat.mod_eq_of_lt hsize
  have hroom : fields.length ≤ (fields ++ payload).length := by
    rw [length_append]
    exact Nat.le_add_right _ _
  show (if _ ∧ (BitVec.ofNat 8 fields.length).toNat ≤ (fields ++ payload).length then
    (fields? optional (List.take (BitVec.ofNat 8 fields.length).toNat _)).map _ else none) = _
  rw [if_pos ⟨hflags, (le_of_eq hvalue).trans hroom⟩, hvalue, take_left, drop_left, hfields]
  rfl

/-- A packet whose two lengths are right is read back, with all that is behind it left over. -/
theorem packet?_fields (hflags : flags &&& 0xc0 = 0x80) (hsize : fields.length < 2 ^ 8)
    (hfields : fields? optional fields = some pts)
    (hlen : 3 + fields.length + payload.length < 2 ^ 16) :
    packet? ([0, 0, 1, streamId] ++ beBytes 2 (3 + fields.length + payload.length) ++
        [flags, optional, BitVec.ofNat 8 fields.length] ++ fields ++ payload ++ behind) =
      some (⟨streamId, pts, payload⟩, behind) := by
  have hvalue := be_value_bytes_of_lt (n := 2) hlen
  obtain ⟨high, low, hbytes⟩ : ∃ high low,
      beBytes 2 (3 + fields.length + payload.length) = [high, low] := ⟨_, _, rfl⟩
  have hbody : (flags :: optional :: BitVec.ofNat 8 fields.length ::
      (fields ++ payload)).length = 3 + fields.length + payload.length := by
    simp only [length_cons, length_append]
    omega
  have hshape : [0, 0, 1, streamId] ++ [high, low] ++
      [flags, optional, BitVec.ofNat 8 fields.length] ++ fields ++ payload ++ behind =
        0 :: 0 :: 1 :: streamId :: high :: low ::
          ((flags :: optional :: BitVec.ofNat 8 fields.length :: (fields ++ payload)) ++
            behind) := by
    simp only [cons_append, nil_append, append_assoc]
  rw [hbytes] at hvalue
  rw [hbytes, hshape]
  show (if beValue [high, low] ≤ _ then
    (body? streamId (List.take (beValue [high, low]) _)).map (·, List.drop (beValue [high, low]) _)
      else none) = _
  have hroom : beValue [high, low] ≤ ((flags :: optional :: BitVec.ofNat 8 fields.length ::
      (fields ++ payload)) ++ behind).length := by
    rw [length_append, hbody, hvalue]
    exact Nat.le_add_right _ _
  rw [if_pos hroom, hvalue, take_left' hbody, drop_left' hbody, body?_fields hflags hsize hfields]
  rfl

end PesStream
