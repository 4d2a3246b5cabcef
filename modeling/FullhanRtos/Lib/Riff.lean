import FullhanRtos.Lib.Bytes

/-!
# Files of chunks

A chunk of a RIFF file is a name of four bytes, the size of its data as 32 bits, the data, and one
more byte if the size is odd. `parse` takes bytes apart into chunks by their sizes.
-/

namespace Riff

open Bytes List

/-- A name and the data. -/
structure Chunk where
  id : List Byte
  data : List Byte
  deriving DecidableEq

/-- The name from its characters. -/
def fourcc (a b c d : Char) : List Byte := [a, b, c, d].map fun x => BitVec.ofNat 8 x.toNat

def Chunk.encode (chunk : Chunk) : List Byte :=
  chunk.id ++ leBytes 4 chunk.data.length ++ chunk.data ++
    replicate (chunk.data.length % 2) 0

/-- The first chunk and what is behind it. -/
def chunk? (bs : List Byte) : Option (Chunk × List Byte) :=
  let size := leValue ((bs.drop 4).take 4)
  let behind := bs.drop 8
  if 8 ≤ bs.length ∧ size + size % 2 ≤ behind.length then
    some (⟨bs.take 4, behind.take size⟩, behind.drop (size + size % 2))
  else none

/-- All chunks, at most `fuel`. -/
def chunks : Nat → List Byte → Option (List Chunk)
  | _, [] => some []
  | 0, _ :: _ => none
  | fuel + 1, b :: bs => do
      let (chunk, behind) ← chunk? (b :: bs)
      let rest ← chunks fuel behind
      pure (chunk :: rest)

/-- All chunks. Each takes eight bytes or more. -/
def parse (bs : List Byte) : Option (List Chunk) := chunks bs.length bs

variable {chunk : Chunk} {cs : List Chunk} {bs rest : List Byte} {fuel : Nat}

theorem encode_data_inj {first second : Chunk} (hid : first.id.length = second.id.length)
    (h : first.encode = second.encode) : first.data = second.data := by
  have hlen := congrArg List.length h
  unfold Chunk.encode at h hlen
  simp only [length_append, length_replicate, length_le_bytes, hid] at hlen
  simp only [append_assoc] at h
  obtain ⟨hsize, hrest⟩ := append_inj (append_inj h hid).2
    ((length_le_bytes 4 _).trans (length_le_bytes 4 _).symm)
  have hvalue := congrArg leValue hsize
  rw [le_value_bytes, le_value_bytes] at hvalue
  have heq : first.data.length = second.data.length := by omega
  exact (append_inj hrest heq).1

theorem chunk?_eq_some (h : chunk? bs = some (chunk, rest)) :
    8 ≤ bs.length ∧ leValue ((bs.drop 4).take 4) ≤ (bs.drop 8).length ∧ chunk.id = bs.take 4 ∧
      chunk.data = (bs.drop 8).take (leValue ((bs.drop 4).take 4)) := by
  unfold chunk? at h
  dsimp only at h
  split_ifs at h with hsize
  cases h
  exact ⟨hsize.1, le_trans (Nat.le_add_right _ _) hsize.2, rfl, rfl⟩

theorem parse_eq_cons (h : parse bs = some (chunk :: cs)) :
    ∃ rest, chunk? bs = some (chunk, rest) := by
  cases bs with
  | nil => cases h
  | cons b bs =>
    obtain ⟨⟨first, rest⟩, hfirst, hrest⟩ := Option.bind_eq_some_iff.mp h
    obtain ⟨others, -, hcons⟩ := Option.bind_eq_some_iff.mp hrest
    cases hcons
    exact ⟨rest, hfirst⟩

end Riff
