import FullhanRtos.Block.Device
import FullhanRtos.Lib.Bytes
import FullhanRtos.Lib.Memory
import Mathlib.Tactic.LinearCombination

/-!
# The bytes of block device files

`BlockDevice_Read` and `BlockDevice_Write` with the bytes that they move: the first and the last
block go through a scratch block, the blocks between them in one transfer. Each transfer may fail or
move fewer blocks than it was asked for.

`transfers_complete` says what the functions do when all goes well. `transfers_accounted_iff` says
for which failures the result, the file position and the bytes still agree: the position stays where
it was when a later part of a request fails, although the result counts the earlier parts, and a
failed transfer of whole blocks advances it.
-/

namespace FullhanRtos.BlockData

open Bytes BlockDevice Option Nat Int Memory Or
open BitVec hiding not_or

/-! ## Transfers -/

/-- What the driver does with a transfer: it fails, or moves this many blocks if so many are asked
for. -/
inductive Answer where
  | failed (error : { error : BitVec 32 // error.toInt < 0 })
  | moved (n : Nat)

def Answer.blocks (size : BitVec 32) : Answer → Nat
  | .failed _ => 0
  | .moved n => min n size.toNat

/-- What `rt_device_read` and `rt_device_write` return. -/
def Answer.result (size : BitVec 32) : Answer → BitVec 32
  | .failed error => error
  | .moved n => BitVec.ofNat 32 (min n size.toNat)

/-- What a request meets: the geometry or an error, whether there is memory for a block, and the
driver. -/
structure Env where
  geometry : Except { error : BitVec 32 // error.toInt < 0 } BlkGeometry
  malloc : Bool
  device : Nat → Answer

/-- `ret <= 0` after a transfer of `size` blocks. -/
def Env.fails (e : Env) (i : Nat) (size : BitVec 32) : Prop := ((e.device i).result size).toInt ≤ 0

instance (e : Env) (i : Nat) (size : BitVec 32) : Decidable (e.fails i size) :=
  inferInstanceAs (Decidable (_ ≤ _))

def bytesPer (g : BlkGeometry) : Nat := g.bytesPerSector.toNat

/-- `n` blocks of the device. -/
def diskRead (g : BlkGeometry) (content : Nat → Byte) (blk : BitVec 32) (n : Nat) : List Byte :=
  Memory.read content (blk.toNat * bytesPer g) (n * bytesPer g)

def diskWrite (g : BlkGeometry) (content : Nat → Byte) (blk : BitVec 32) (bytes : List Byte) :
    Nat → Byte :=
  Memory.write content (blk.toNat * bytesPer g) bytes

/-- `memcpy` from the scratch block. `none` runs out of it. -/
def copyFrom (temp : List Byte) (off n : BitVec 32) : Option (List Byte) :=
  if n = 0 then some [] else Buffer.load temp off.toNat n.toNat

/-- `memcpy` of `n` bytes to the scratch block. -/
def copyTo (temp : List Byte) (off n : BitVec 32) (buf : Nat → Byte) (pos : Nat) :
    Option (List Byte) :=
  if n = 0 then some temp else Buffer.store temp off.toNat (Memory.read buf pos n.toNat)

/-- What became of a part of a block: it was not read, not written, or moved. -/
inductive Stage where
  | notRead
  | notWritten
  | done (mem : Nat → Byte)

/-- How a part of a block and whole blocks are moved, with `mem` the buffer of a read and the device
of a write, `p` bytes behind the start of the request, from the `i`-th transfer on. A part takes
`perPart` transfers. -/
structure Direction where
  part : (Nat → Byte) → Nat → Nat → BitVec 32 → BitVec 32 → BitVec 32 → Option Stage
  blocks : (Nat → Byte) → Nat → BitVec 32 → Nat → Nat → Byte
  perPart : Nat

/-- A read copies the part of the block from the scratch block. -/
def reading (content : Nat → Byte) (e : Env) (g : BlkGeometry) : Direction where
  part := fun mem p i blk off n =>
    if e.fails i 1 then some .notRead
    else
      (copyFrom (diskRead g content blk 1) off n).map fun bytes =>
        .done (Memory.write mem p bytes)
  blocks := fun mem p blk n => Memory.write mem p (diskRead g content blk n)
  perPart := 1

/-- A write reads the block, copies the part to it, and writes it back. -/
def writing (buf : Nat → Byte) (e : Env) (g : BlkGeometry) : Direction where
  part := fun mem p i blk off n =>
    if e.fails i 1 then some .notRead
    else
      (copyTo (diskRead g mem blk 1) off n buf p).map fun temp =>
        if e.fails (i + 1) 1 then .notWritten else .done (diskWrite g mem blk temp)
  blocks := fun mem p blk n => diskWrite g mem blk (Memory.read buf p (n * bytesPer g))
  perPart := 2

/-- A call and what it changed: the buffer of a read, the device of a write. -/
structure Moved where
  mem : Nat → Byte
  result : BitVec 32
  file : DfsFd

/-- The number of the blocks between the first and the last one. -/
def middleSize (s : Span) : BitVec 32 := s.endBlk - s.startBlk - 1

section

variable (d : Direction) (g : BlkGeometry) (e : Env) (mem : Nat → Byte) (file : DfsFd) (s : Span)

/-- The part of the last block, behind the middle blocks. -/
def lastPart (i : Nat) (retSize : BitVec 32) : Option Moved :=
  if 0 < s.endOff then
    (d.part mem retSize.toNat i s.endBlk 0 s.endOff).map fun
      | .done mem' => ⟨mem', retSize + s.endOff, file.advance (retSize + s.endOff)⟩
      | .notRead | .notWritten => ⟨mem, retSize, file⟩
  else some ⟨mem, retSize, file.advance retSize⟩

/-- The middle blocks, in one transfer, and the part of the last block. -/
def restParts (mem : Nat → Byte) (retSize : BitVec 32) : Option Moved :=
  if 1 < s.endBlk - s.startBlk then
    if e.fails d.perPart (middleSize s) then some ⟨mem, retSize, file⟩
    else
      lastPart d
        (d.blocks mem retSize.toNat (s.startBlk + 1) ((e.device d.perPart).blocks (middleSize s)))
        file s (d.perPart + 1) (retSize + middleSize s * g.bytesPerSector)
  else lastPart d mem file s d.perPart retSize

/-- The functions behind their checks, with memory for a block. A failed write in one block also
advances the file. -/
def transferParts : Option Moved :=
  if s.startBlk = s.endBlk then
    let retSize := s.endOff - s.startOff
    (d.part mem 0 0 s.startBlk s.startOff retSize).map fun
      | .notRead => ⟨mem, rtError, file⟩
      | .notWritten => ⟨mem, rtError, file.advance rtError⟩
      | .done mem' => ⟨mem', retSize, file.advance retSize⟩
  else
    let retSize := g.bytesPerSector - s.startOff
    (d.part mem 0 0 s.startBlk s.startOff retSize).bind fun
      | .notRead | .notWritten => some ⟨mem, rtError, file⟩
      | .done mem' => restParts d g e file s mem' retSize

end

/-- What both functions do, with their error without a geometry. `none` is a signed overflow. -/
def transferBlocks (direction : Env → BlkGeometry → Direction) (e : Env) (mem : Nat → Byte)
    (file : DfsFd) (count : BitVec 32) (geometryError : BitVec 32 → BitVec 32) : Option Moved :=
  match e.geometry with
  | .error ret => some ⟨mem, geometryError ret, file⟩
  | .ok g =>
    if 2 ^ 63 ≤ file.pos64.toInt + count.toNat then none
    else
      let s := span g file.pos64.toInt count
      if s.behind g then some ⟨mem, rtEnomem, file⟩
      else if s.aligned then
        let size := count / g.bytesPerSector
        let retSize := (e.device 0).result size * g.bytesPerSector
        some ⟨(direction e g).blocks mem 0 s.startBlk ((e.device 0).blocks size), retSize,
          file.advance retSize⟩
      else if e.malloc = false then some ⟨mem, rtEnomem, file⟩
      else transferParts (direction e g) g e mem file s

def blockDeviceRead (e : Env) (content buf : Nat → Byte) (file : DfsFd) (count : BitVec 32) :
    Option Moved :=
  transferBlocks (reading content) e buf file count fun ret => ret

def blockDeviceWrite (e : Env) (content buf : Nat → Byte) (file : DfsFd) (count : BitVec 32) :
    Option Moved :=
  transferBlocks (writing buf) e content file count fun _ => rtEio

/-! ## What is promised -/

/-- The positions are advanced by a result that is not negative, and unchanged with a negative
one. -/
def Accounted (file : DfsFd) (r : Moved) : Prop :=
  if 0 ≤ r.result.toInt then
    r.file.pos = file.pos + r.result ∧ r.file.pos64.toInt = file.pos64.toInt + r.result.toInt
  else r.file = file

/-- The first bytes of a request are in the device and are moved there from `src`. -/
def Transferred (e : Env) (pos : Int) (src : Nat → Byte) (d q : Nat) (r : Moved) : Prop :=
  0 < r.result.toInt → ∃ g, e.geometry = .ok g ∧ Inside g pos r.result ∧
    Memory.read r.mem d r.result.toNat = Memory.read src q r.result.toNat

def Right (e : Env) (file : DfsFd) (src : Nat → Byte) (d q : Nat) (r : Moved) : Prop :=
  Accounted file r ∧ Transferred e file.pos64.toInt src d q r

/-- Whatever is on the device, the buffer gets the bytes of the result. -/
def ReadRight (e : Env) (file : DfsFd) (count : BitVec 32) : Prop :=
  ∀ content buf, ∃ r, blockDeviceRead e content buf file count = some r ∧
    Right e file content 0 file.pos64.toInt.toNat r

/-- Whatever is in the buffer, the device gets the bytes of the result. -/
def WriteRight (e : Env) (file : DfsFd) (count : BitVec 32) : Prop :=
  ∀ content buf, ∃ r, blockDeviceWrite e content buf file count = some r ∧
    Right e file buf file.pos64.toInt.toNat 0 r

/-- Every transfer moves all the blocks that it is asked for. -/
def Env.Complete (e : Env) : Prop := ∀ i (size : BitVec 32), (e.device i).result size = size

/-- There is memory for the scratch block, where one is needed. -/
def Env.HasScratch (e : Env) (g : BlkGeometry) (file : DfsFd) (count : BitVec 32) : Prop :=
  WholeBlocks g file.pos64.toInt count ∨ e.malloc = true

/-- A read and a write move the bytes of the range and no others, a read behind the write gets what
was written, and both advance the file by the count. -/
structure Exactly (g : BlkGeometry) (e : Env) (content buf : Nat → Byte) (file : DfsFd)
    (count : BitVec 32) : Prop where
  read : blockDeviceRead e content buf file count =
    some ⟨Memory.write buf 0 (Memory.read content file.pos64.toInt.toNat count.toNat), count,
      file.advance count⟩
  write : blockDeviceWrite e content buf file count =
    some ⟨Memory.write content file.pos64.toInt.toNat (Memory.read buf 0 count.toNat), count,
      file.advance count⟩
  readBack : ∀ e' buf', e'.geometry = .ok g → e'.Complete → e'.HasScratch g file count →
    ∃ r, blockDeviceRead e'
        (Memory.write content file.pos64.toInt.toNat (Memory.read buf 0 count.toNat)) buf' file
        count = some r ∧ Memory.read r.mem 0 count.toNat = Memory.read buf 0 count.toNat
  pos : (file.advance count).pos = file.pos + count
  pos64 : (file.advance count).pos64.toInt = file.pos64.toInt + count.toNat

/-! ## The conditions -/

def Counted (g : BlkGeometry) (pos : Int) (count : BitVec 32) : Prop :=
  0 ≤ count.toInt ∧ (count ≠ 0 → Inside g pos count)

/-- There are blocks between the first and the last one. -/
abbrev HasMiddle (s : Span) : Prop := 1 < s.endBlk - s.startBlk

/-- The first transfer of the part of the last block. -/
def lastIndex (s : Span) (k : Nat) : Nat := if HasMiddle s then k + 1 else k

def MiddleFails (e : Env) (s : Span) (k : Nat) : Prop := HasMiddle s ∧ e.fails k (middleSize s)

def MiddleMoved (e : Env) (s : Span) (k : Nat) : Prop :=
  HasMiddle s → (e.device k).blocks (middleSize s) = (middleSize s).toNat

/-- The blocks of all parts are read and written. -/
def Passes (e : Env) (written : Nat → Prop) (k : Nat) (s : Span) : Prop :=
  (¬ e.fails 0 1 ∧ written 0) ∧ (s.startBlk ≠ s.endBlk → ¬ MiddleFails e s k ∧
    (0 < s.endOff → ¬ e.fails (lastIndex s k) 1 ∧ written (lastIndex s k)))

/-- The bytes before the part that fails are none as an `int`. -/
def StoppedEarly (g : BlkGeometry) (s : Span) (count : BitVec 32) (middleFails : Prop) : Prop :=
  (middleFails → (g.bytesPerSector - s.startOff).toInt ≤ 0) ∧
    (¬ middleFails → (count - s.endOff).toInt ≤ 0)

/-- The condition on the parts, of which each takes `k` transfers and is `written` at the end. -/
def PartsFit (written : Nat → Prop) (k : Nat) (g : BlkGeometry) (e : Env) (pos : Int)
    (count : BitVec 32) : Prop :=
  let s := span g pos count
  e.fails 0 1 ∨ Passes e written k s ∧ Counted g pos count ∧ MiddleMoved e s k ∨
    ¬ Passes e written k s ∧ s.startBlk ≠ s.endBlk ∧ s.startOff ≤ g.bytesPerSector ∧
      (¬ written 0 ∨
        (¬ MiddleFails e s k → ¬ e.fails (lastIndex s k) 1 → s.endOff ≤ g.bytesPerSector) ∧
        StoppedEarly g s count (MiddleFails e s k))

def ReadPartsFit (g : BlkGeometry) (e : Env) : Int → BitVec 32 → Prop :=
  PartsFit (fun _ => True) 1 g e

def WritePartsFit (g : BlkGeometry) (e : Env) : Int → BitVec 32 → Prop :=
  PartsFit (fun i => ¬ e.fails (i + 1) 1) 2 g e

/-- The condition on a transfer of whole blocks: an error that is nothing in bytes, or blocks in the
device. -/
def WholeFit (g : BlkGeometry) (e : Env) (pos : Int) (count : BitVec 32) : Prop :=
  match e.device 0 with
  | .failed error => error.val * g.bytesPerSector = 0
  | .moved n =>
    Counted g pos (BitVec.ofNat 32 (min n (count / g.bytesPerSector).toNat) * g.bytesPerSector)

/-- The condition on a request with such a condition on its parts. -/
def TransferFits (e : Env) (file : DfsFd) (count : BitVec 32)
    (partsFit : BlkGeometry → Env → Int → BitVec 32 → Prop) : Prop :=
  match e.geometry with
  | .error _ => True
  | .ok g =>
    file.pos64.toInt + count.toNat < 2 ^ 63 ∧
      (CutBehind g file.pos64.toInt count ∨
        WholeBlocks g file.pos64.toInt count ∧ WholeFit g e file.pos64.toInt count ∨
        ¬ WholeBlocks g file.pos64.toInt count ∧
          (e.malloc = false ∨ partsFit g e file.pos64.toInt count))

variable {g : BlkGeometry} {e : Env} {content buf : Nat → Byte} {file : DfsFd} {s : Span}
  {p : Nat} {pos : Int} {count : BitVec 32} {blk off n : BitVec 32} {c : Nat}
  {direction : (Nat → Byte) → Env → BlkGeometry → Direction} {geometryError : BitVec 32 → BitVec 32}
  {temp : List Byte} {failed : Prop}

/-! ## Numbers of a range -/

/-- The numbers of the blocks of a range and its offsets in them are exact. -/
structure Words (g : BlkGeometry) (p c : Nat) (s : Span) : Prop where
  startBlk : s.startBlk.toNat = p / bytesPer g
  startOff : s.startOff.toNat = p % bytesPer g
  endBlk : s.endBlk.toNat = (p + c) / bytesPer g
  endOff : s.endOff.toNat = (p + c) % bytesPer g

theorem bytes_per_pos (g : BlkGeometry) : 0 < bytesPer g := g.bytes_pos

theorem offset_of_nat (g : BlkGeometry) (p : Nat) : (offsetOf g p).toNat = p % bytesPer g := by
  have hless : p % bytesPer g < 2 ^ 32 :=
    Nat.lt_trans (mod_lt p (bytes_per_pos g)) g.bytesPerSector.isLt
  exact mod_eq_of_lt hless

theorem span_words (h : p + count.toNat < 2 ^ 32 * bytesPer g) :
    Words g p count.toNat (span g p count) where
  startBlk := block_of_nat (by unfold bytesPer at h; omega)
  startOff := offset_of_nat g p
  endBlk := block_of_nat (p := p + count.toNat) h
  endOff := offset_of_nat g (p + count.toNat)

/-- A range in the device has numbers of 32 bits. -/
theorem inside_lt (h : Inside g p count) : p + count.toNat < 2 ^ 32 * bytesPer g := by
  have hend : p + count.toNat ≤ g.sectorCount.toNat * bytesPer g := by exact_mod_cast h.2
  have hsectors := Nat.mul_lt_mul_of_pos_right g.sectorCount.isLt (bytes_per_pos g)
  omega

theorem block_offset_word (g : BlkGeometry) (pos : Int) :
    blockOf g pos * g.bytesPerSector + offsetOf g pos = BitVec.ofInt 32 pos := by
  have hbytes : g.bytesPerSector = BitVec.ofInt 32 g.bytesPerSector.toNat := by
    rw [ofInt_natCast, BitVec.ofNat_toNat, setWidth_eq]
  unfold blockOf offsetOf
  nth_rewrite 2 [hbytes]
  rw [← ofInt_mul, ← ofInt_add]
  congr 1
  exact tdiv_mul_add_tmod _ _

/-- The bytes in one block, and those of all parts, as words. -/
theorem word_same (h : (span g pos count).startBlk = (span g pos count).endBlk) :
    (span g pos count).endOff - (span g pos count).startOff = count := by
  have hstart := block_offset_word g pos
  have hend := block_offset_word g (pos + count.toNat)
  have hcount : BitVec.ofInt 32 (pos + count.toNat) = BitVec.ofInt 32 pos + count := by
    rw [ofInt_add, ofInt_natCast, BitVec.ofNat_toNat, setWidth_eq]
  change blockOf g pos = blockOf g (pos + count.toNat) at h
  show offsetOf g (pos + count.toNat) - offsetOf g pos = count
  rw [hcount, ← h] at hend
  linear_combination hend - hstart

theorem word_parts (g : BlkGeometry) (pos : Int) (count : BitVec 32) :
    g.bytesPerSector - (span g pos count).startOff +
        middleSize (span g pos count) * g.bytesPerSector + (span g pos count).endOff = count := by
  have hstart := block_offset_word g pos
  have hend := block_offset_word g (pos + count.toNat)
  have hcount : BitVec.ofInt 32 (pos + count.toNat) = BitVec.ofInt 32 pos + count := by
    rw [ofInt_add, ofInt_natCast, BitVec.ofNat_toNat, setWidth_eq]
  rw [hcount] at hend
  show g.bytesPerSector - offsetOf g pos +
    (blockOf g (pos + count.toNat) - blockOf g pos - 1) * g.bytesPerSector +
      offsetOf g (pos + count.toNat) = count
  linear_combination hend - hstart

/-- The parts of a range in several blocks: the rest of the first block, the middle blocks, and what
is in the last block. -/
structure Parts (g : BlkGeometry) (p c : Nat) (s : Span) : Prop where
  headFits : p % bytesPer g < bytesPer g
  head : (g.bytesPerSector - s.startOff).toNat = bytesPer g - p % bytesPer g
  next : (s.startBlk + 1).toNat * bytesPer g = p + (bytesPer g - p % bytesPer g)
  last : s.endBlk.toNat * bytesPer g =
    p + (bytesPer g - p % bytesPer g) + (middleSize s).toNat * bytesPer g
  retSize : (g.bytesPerSector - s.startOff + middleSize s * g.bytesPerSector).toNat =
    bytesPer g - p % bytesPer g + (middleSize s).toNat * bytesPer g
  whole : c = bytesPer g - p % bytesPer g + (middleSize s).toNat * bytesPer g + s.endOff.toNat
  endFits : s.endOff.toNat < bytesPer g

theorem words_parts (h : Words g p c s) (hc : c < 2 ^ 32) (hne : s.startBlk ≠ s.endBlk) :
    Parts g p c s := by
  obtain ⟨hstart, hoff, hend, hendOff⟩ := h
  have hpos := bytes_per_pos g
  have hmod := mod_lt p hpos
  have hmod' := mod_lt (p + c) hpos
  have hdiv := div_add_mod' p (bytesPer g)
  have hdiv' := div_add_mod' (p + c) (bytesPer g)
  have hle : p / bytesPer g ≤ (p + c) / bytesPer g := Nat.div_le_div_right (Nat.le_add_right p c)
  have hless : s.startBlk.toNat < s.endBlk.toNat := by
    have hne' : s.startBlk.toNat ≠ s.endBlk.toNat := fun heq => hne (eq_of_toNat_eq heq)
    omega
  have hmiddle : (middleSize s).toNat = s.endBlk.toNat - s.startBlk.toNat - 1 := by
    unfold middleSize
    bv_omega
  have hnext : (s.startBlk + 1).toNat = s.startBlk.toNat + 1 := by bv_omega
  have hhead : (g.bytesPerSector - s.startOff).toNat = bytesPer g - p % bytesPer g := by
    have hbytes : g.bytesPerSector.toNat = bytesPer g := rfl
    rw [BitVec.toNat_sub, hoff, hbytes]
    have hwrap : 2 ^ 32 - p % bytesPer g + bytesPer g =
        2 ^ 32 + (bytesPer g - p % bytesPer g) := by omega
    rw [hwrap, add_mod_left, mod_eq_of_lt (by omega)]
  have hblocks : s.endBlk.toNat * bytesPer g =
      (s.startBlk.toNat + 1) * bytesPer g + (middleSize s).toNat * bytesPer g := by
    rw [← Nat.add_mul, hmiddle]
    congr 1
    omega
  rw [Nat.add_mul, Nat.one_mul] at hblocks
  rw [← hstart] at hdiv
  rw [← hend, ← hendOff] at hdiv'
  have hproduct : (middleSize s * g.bytesPerSector).toNat =
      (middleSize s).toNat * bytesPer g := by
    exact mod_eq_of_lt (by show (middleSize s).toNat * bytesPer g < 2 ^ 32; omega)
  refine ⟨hmod, hhead, ?_, by omega, ?_, by omega, by omega⟩
  · rw [hnext, Nat.add_mul, Nat.one_mul]
    omega
  · rw [BitVec.toNat_add, hhead, hproduct]
    exact mod_eq_of_lt (by omega)

/-! ## The scratch block -/

theorem length_disk_read (g : BlkGeometry) (content : Nat → Byte) (blk : BitVec 32) :
    (diskRead g content blk 1).length = bytesPer g := by
  rw [diskRead, length_read, Nat.one_mul]

/-- What is copied from a block is what the device has there. -/
theorem copy_from_eq (h : off.toNat + n.toNat ≤ bytesPer g) :
    copyFrom (diskRead g content blk 1) off n =
      some (Memory.read content (blk.toNat * bytesPer g + off.toNat) n.toNat) := by
  unfold copyFrom
  split
  · rename_i hzero
    rw [hzero]
    rfl
  · rw [Buffer.load_eq (by rwa [length_disk_read]), diskRead, Nat.one_mul,
      drop_read (by omega), take_read (by omega)]

/-- A block that is changed in part and written back changes the device in this part. -/
theorem copy_to_eq {q : Nat} (h : off.toNat + n.toNat ≤ bytesPer g) :
    ∃ temp, copyTo (diskRead g content blk 1) off n buf q = some temp ∧
      diskWrite g content blk temp =
        Memory.write content (blk.toNat * bytesPer g + off.toNat) (Memory.read buf q n.toNat) := by
  unfold copyTo
  split
  · rename_i hzero
    refine ⟨_, rfl, ?_⟩
    rw [hzero, diskWrite, diskRead, write_read]
    rfl
  · refine ⟨_, Buffer.store_eq (by rw [length_disk_read, length_read]; exact h), ?_⟩
    rw [diskWrite, diskRead, Nat.one_mul, write_patch (by rw [length_read]; exact h)]

theorem copy_from_none {off n : BitVec 32} (h : temp.length < off.toNat + n.toNat) (hn : n ≠ 0) :
    copyFrom temp off n = none := by
  unfold copyFrom
  rw [if_neg hn]
  exact if_neg (by omega)

theorem copy_to_none {off n : BitVec 32} {q : Nat} (h : temp.length < off.toNat + n.toNat)
    (hn : n ≠ 0) : copyTo temp off n buf q = none := by
  unfold copyTo
  rw [if_neg hn]
  exact if_neg (by rw [length_read]; omega)

/-- The rest of the first block, also with an offset that is none. -/
theorem head_fits (h : s.startOff ≤ g.bytesPerSector) :
    s.startOff.toNat + (g.bytesPerSector - s.startOff).toNat ≤ bytesPer g := by
  unfold bytesPer
  bv_omega

theorem no_middle (hne : s.startBlk ≠ s.endBlk) (h : ¬ HasMiddle s) : middleSize s = 0#32 := by
  unfold middleSize
  bv_omega

theorem same_no_middle (h : s.startBlk = s.endBlk) : ¬ HasMiddle s := by
  unfold HasMiddle
  rw [h, BitVec.sub_self]
  decide

theorem stopped_middle (h : failed) :
    StoppedEarly g s count failed ↔ (g.bytesPerSector - s.startOff).toInt ≤ 0 :=
  ⟨fun hstopped => hstopped.1 h, fun hle => ⟨fun _ => hle, fun hnot => absurd h hnot⟩⟩

theorem stopped_end (h : ¬ failed) :
    StoppedEarly g s count failed ↔ (count - s.endOff).toInt ≤ 0 :=
  ⟨fun hstopped => hstopped.2 h, fun hle => ⟨fun hfailed => absurd hfailed h, fun _ => hle⟩⟩

/-! ## The parts of a transfer -/

section

variable (dst src : Nat → Byte) (d q head k middle tail : Nat)

/-- Three parts of a range behind each other, of which only `k` bytes of the middle one are moved.
-/
def join : Nat → Byte :=
  Memory.write
    (Memory.write (Memory.write dst d (Memory.read src q head)) (d + head)
      (Memory.read src (q + head) k))
    (d + (head + middle)) (Memory.read src (q + (head + middle)) tail)

theorem join_complete :
    join dst src d q head middle middle tail =
      Memory.write dst d (Memory.read src q (head + middle + tail)) := by
  unfold join
  rw [read_add, read_add, write_append, write_append,
    List.length_append, length_read, length_read]

end

theorem join_short {d q head k middle tail : Nat} (h : k < middle) :
    ∃ dst src, Memory.read (join dst src d q head k middle tail) d (head + middle + tail) ≠
      Memory.read src q (head + middle + tail) := by
  refine ⟨fun _ => 255, fun _ => 0, ?_⟩
  intro heq
  have hbyte := congrArg (fun bytes => bytes[head + k]?) heq
  rw [getElem?_read (by omega), getElem?_read (by omega)] at hbyte
  unfold join at hbyte
  rw [write_outside (inl (by omega)),
    write_outside (inr (by rw [length_read]; omega)),
    write_outside (inr (by rw [length_read]; omega))] at hbyte
  exact absurd hbyte (by decide)

def movedBytes (g : BlkGeometry) (e : Env) (s : Span) (i : Nat) : Nat :=
  if HasMiddle s then (e.device i).blocks (middleSize s) * bytesPer g else 0

theorem blocks_le (answer : Answer) (size : BitVec 32) : answer.blocks size ≤ size.toNat := by
  cases answer with
  | failed error => exact Nat.zero_le _
  | moved n => exact Nat.min_le_right _ _

theorem moved_bytes_le {i : Nat} : movedBytes g e s i ≤ (middleSize s).toNat * bytesPer g := by
  unfold movedBytes
  split
  · exact Nat.mul_le_mul_right _ (blocks_le _ _)
  · exact Nat.zero_le _

theorem moved_bytes_iff {i : Nat} (hne : s.startBlk ≠ s.endBlk) :
    movedBytes g e s i = (middleSize s).toNat * bytesPer g ↔ MiddleMoved e s i := by
  unfold movedBytes MiddleMoved
  by_cases hmiddle : HasMiddle s
  · rw [if_pos hmiddle, Nat.mul_left_inj (Nat.ne_of_gt (bytes_per_pos g))]
    exact ⟨fun h _ => h, fun h => h hmiddle⟩
  · rw [if_neg hmiddle, no_middle hne hmiddle, BitVec.toNat_zero, Nat.zero_mul]
    exact ⟨fun _ h => absurd h hmiddle, fun _ => rfl⟩

structure Lengths (e : Env) (s : Span) (i c head k middle tail : Nat) : Prop where
  sum : head + middle + tail = c
  le : k ≤ middle
  moved_iff : k = middle ↔ MiddleMoved e s i

/-- All bytes are in the first part. -/
theorem lengths_same {i c : Nat} (hsame : s.startBlk = s.endBlk) : Lengths e s i c c 0 0 0 :=
  ⟨rfl, Nat.le_refl 0, fun _ hmiddle => absurd hmiddle (same_no_middle hsame), fun _ => rfl⟩

theorem Parts.lengths {c i : Nat} (h : Parts g p c s) (hne : s.startBlk ≠ s.endBlk) :
    Lengths e s i c (bytesPer g - p % bytesPer g) (movedBytes g e s i)
      ((middleSize s).toNat * bytesPer g) s.endOff.toNat :=
  ⟨h.whole.symm, moved_bytes_le, moved_bytes_iff hne⟩

theorem Parts.off_le (h : Parts g p c s) (hwords : Words g p c s) :
    s.startOff ≤ g.bytesPerSector := by
  have hfits := h.headFits
  rw [← hwords.startOff] at hfits
  exact BitVec.le_def.mpr (Nat.le_of_lt hfits)

/-- A range in one block. -/
theorem Words.same_fits (h : Words g p c s) (hsame : s.startBlk = s.endBlk) :
    s.startOff.toNat + c ≤ bytesPer g := by
  have hmod := mod_lt (p + c) (bytes_per_pos g)
  have hdiv := div_add_mod' p (bytesPer g)
  have hdiv' := div_add_mod' (p + c) (bytesPer g)
  have hblk : p / bytesPer g = (p + c) / bytesPer g := by
    rw [← h.startBlk, ← h.endBlk, hsame]
  rw [← hblk] at hdiv'
  rw [h.startOff]
  omega

theorem Words.start (h : Words g p c s) :
    s.startBlk.toNat * bytesPer g + s.startOff.toNat = p := by
  rw [h.startBlk, h.startOff]
  exact div_add_mod' p (bytesPer g)

/-! ## Results -/

section

variable {mem src : Nat → Byte} {d q : Nat} {w : BitVec 32} {r : Moved}

/-- A file that stays where it is needs a result that counts nothing. -/
theorem kept_right_iff : Right e file src d q ⟨mem, w, file⟩ ↔ w.toInt ≤ 0 := by
  constructor
  · intro h
    by_contra hpos
    have haccounted := h.1
    unfold Accounted at haccounted
    rw [if_pos (by show 0 ≤ w.toInt; omega)] at haccounted
    have hsame := haccounted.2
    change file.pos64.toInt = file.pos64.toInt + w.toInt at hsame
    omega
  · intro hle
    refine ⟨?_, fun hless => absurd hless (Int.not_lt.mpr hle)⟩
    unfold Accounted
    split
    · rename_i hge
      change 0 ≤ w.toInt at hge
      have hzero : w = 0 := eq_of_toInt_eq (Int.le_antisymm hle hge)
      show file.pos = file.pos + w ∧ file.pos64.toInt = file.pos64.toInt + w.toInt
      rw [hzero]
      exact ⟨(BitVec.add_zero _).symm, (Int.add_zero _).symm⟩
    · rfl

theorem toNat_of_nonneg (h : 0 ≤ w.toInt) : (w.toNat : Int) = w.toInt := by
  rw [toInt_eq_toNat_cond] at h ⊢
  split at h <;> omega

/-- The position behind a request whose end fits. -/
theorem advance_exact (hfit : file.pos64.toInt + count.toNat < 2 ^ 63) :
    (file.advance count).pos64.toInt = file.pos64.toInt + count.toNat := by
  have hlow := le_toInt file.pos64
  have hcast : (BitVec.ofNat 64 count.toNat).toInt = count.toNat := by
    have htoNat : (BitVec.ofNat 64 count.toNat).toNat = count.toNat := by
      exact mod_eq_of_lt (by omega)
    rw [toInt_eq_toNat_of_lt (by rw [htoNat]; omega), htoNat]
  show (file.pos64 + BitVec.ofNat 64 count.toNat).toInt = _
  rw [toInt_add, hcast]
  exact bmod_eq_of_le (by omega) (by omega)

theorem advanced_nonneg (hresult : r.result = w) (hfile : r.file = file.advance w)
    (h : Right e file src d q r) : 0 ≤ w.toInt := by
  by_contra hneg
  have haccounted := h.1
  unfold Accounted at haccounted
  rw [hresult, if_neg hneg, hfile] at haccounted
  have hpos := congrArg DfsFd.pos haccounted
  change file.pos + w = file.pos at hpos
  have hzero : w = 0 := by
    linear_combination hpos
  rw [hzero] at hneg
  exact hneg (by decide)

theorem advanced_accounted (hresult : r.result = w) (hfile : r.file = file.advance w)
    (hge : 0 ≤ w.toInt) (hfit : file.pos64.toInt + w.toNat < 2 ^ 63) : Accounted file r := by
  unfold Accounted
  rw [hresult, if_pos hge, hfile]
  refine ⟨rfl, ?_⟩
  rw [advance_exact hfit, toNat_of_nonneg hge]

theorem advanced_counted (hg : e.geometry = .ok g) (hresult : r.result = w)
    (hfile : r.file = file.advance w) (h : Right e file src d q r) :
    Counted g file.pos64.toInt w := by
  have hge := advanced_nonneg hresult hfile h
  refine ⟨hge, fun hne => ?_⟩
  have hpos : 0 < w.toInt := by
    refine lt_of_le_of_ne hge fun hzero => hne ?_
    exact eq_of_toInt_eq hzero.symm
  obtain ⟨g', hg', hin, -⟩ := h.2 (by rw [hresult]; exact hpos)
  rw [hg] at hg'
  rw [← hresult, Except.ok.inj hg']
  exact hin

theorem advanced_right (hg : e.geometry = .ok g) (hfit : file.pos64.toInt + w.toNat < 2 ^ 63)
    (hcounted : Counted g file.pos64.toInt w)
    (hbytes : Memory.read mem d w.toNat = Memory.read src q w.toNat) :
    Right e file src d q ⟨mem, w, file.advance w⟩ := by
  refine ⟨advanced_accounted rfl rfl hcounted.1 hfit, fun hpos => ?_⟩
  refine ⟨g, hg, hcounted.2 ?_, hbytes⟩
  intro hzero
  change 0 < w.toInt at hpos
  rw [hzero] at hpos
  exact absurd hpos (by decide)

theorem joined_right_iff {c head k middle tail i : Nat} (d q : Nat) (hg : e.geometry = .ok g)
    (hfit : file.pos64.toInt + w.toNat < 2 ^ 63) (hcounted : Counted g file.pos64.toInt w)
    (hc : c = w.toNat) (hlengths : Lengths e s i c head k middle tail) :
    (∀ src dst, Right e file src d q ⟨join dst src d q head k middle tail, w, file.advance w⟩) ↔
      MiddleMoved e s i := by
  rw [← hlengths.moved_iff]
  have hsum := hlengths.sum
  have hle := hlengths.le
  subst hc
  constructor
  · intro h
    by_contra hne
    have hless : k < middle := lt_of_le_of_ne hle hne
    obtain ⟨dst, src, hshort⟩ := @join_short d q head k middle tail hless
    have hcast := toNat_of_nonneg hcounted.1
    obtain ⟨g', -, -, hbytes⟩ := (h src dst).2 (by show 0 < w.toInt; omega)
    rw [hsum] at hshort
    exact hshort hbytes
  · intro heq src dst
    refine advanced_right hg hfit hcounted ?_
    rw [heq, join_complete, hsum, read_write_read]

end

/-! ## Parts of blocks -/

section

variable {dir : Direction} {move : (Nat → Byte) → Direction} {mem src : Nat → Byte}
  {d q p i k : Nat} {w : BitVec 32} {r : Moved} {written : Nat → Prop} {src' : Nat → Byte}
  {d' q' : Nat}

/-- The part is in the block, or empty. -/
def Fits (g : BlkGeometry) (off n : BitVec 32) : Prop :=
  n = 0 ∨ off.toNat + n.toNat ≤ bytesPer g

structure Moves (dir : Direction) (g : BlkGeometry) (e : Env) (src : Nat → Byte) (pos d q : Nat)
    (written : Nat → Prop) : Prop where
  notRead : ∀ mem p i blk off n, e.fails i 1 → dir.part mem p i blk off n = some .notRead
  runsOut : ∀ mem p i blk off n, ¬ e.fails i 1 → ¬ Fits g off n →
    dir.part mem p i blk off n = none
  notWritten : ∀ mem p i blk off n, ¬ e.fails i 1 → Fits g off n → ¬ written i →
    dir.part mem p i blk off n = some .notWritten
  done : ∀ mem p i blk off n, ¬ e.fails i 1 → Fits g off n → written i →
    ∃ mem', dir.part mem p i blk off n = some (.done mem') ∧
      (n = 0 ∨ blk.toNat * bytesPer g + off.toNat = pos + p →
        mem' = Memory.write mem (d + p) (Memory.read src (q + p) n.toNat))
  blocks : ∀ mem p (blk : BitVec 32) n, n = 0 ∨ blk.toNat * bytesPer g = pos + p →
    dir.blocks mem p blk n = Memory.write mem (d + p) (Memory.read src (q + p) (n * bytesPer g))

theorem reading_moves (content : Nat → Byte) (e : Env) (g : BlkGeometry) (pos : Nat) :
    Moves (reading content e g) g e content pos 0 pos fun _ => True where
  notRead mem p i blk off n h := if_pos h
  runsOut mem p i blk off n h hfits := by
    obtain ⟨hne, hless⟩ := not_or.mp hfits
    show (if e.fails i 1 then _ else _) = _
    rw [if_neg h, copy_from_none (by rw [length_disk_read]; omega) hne]
    rfl
  notWritten mem p i blk off n _ _ h := absurd trivial h
  done mem p i blk off n h hfits _ := by
    show ∃ mem', (if e.fails i 1 then _ else _) = _ ∧ _
    rw [if_neg h]
    rcases hfits with rfl | hfits
    · exact ⟨_, rfl, fun _ => rfl⟩
    · rw [copy_from_eq hfits]
      refine ⟨_, rfl, ?_⟩
      rintro (rfl | hplace)
      · rfl
      · rw [hplace, Nat.zero_add]
  blocks mem p blk n h := by
    show write mem p (diskRead g content blk n) = _
    rw [Nat.zero_add]
    rcases h with rfl | h
    · rw [diskRead, Nat.zero_mul]
      rfl
    · rw [diskRead, h]

theorem writing_moves (buf : Nat → Byte) (e : Env) (g : BlkGeometry) (pos : Nat) :
    Moves (writing buf e g) g e buf pos pos 0 fun i => ¬ e.fails (i + 1) 1 where
  notRead mem p i blk off n h := if_pos h
  runsOut mem p i blk off n h hfits := by
    obtain ⟨hne, hless⟩ := not_or.mp hfits
    show (if e.fails i 1 then _ else _) = _
    rw [if_neg h, copy_to_none (by rw [length_disk_read]; omega) hne]
    rfl
  notWritten mem p i blk off n h hfits hwritten := by
    show (if e.fails i 1 then _ else _) = _
    rw [if_neg h]
    rcases hfits with rfl | hfits
    · exact congrArg some (if_pos (not_not.mp hwritten))
    · obtain ⟨temp, htemp, -⟩ := copy_to_eq hfits
      rw [htemp, map_some, if_pos (not_not.mp hwritten)]
  done mem p i blk off n h hfits hwritten := by
    show ∃ mem', (if e.fails i 1 then _ else _) = _ ∧ _
    rw [if_neg h]
    rcases hfits with rfl | hfits
    · refine ⟨_, congrArg some (if_neg hwritten), fun _ => ?_⟩
      rw [diskWrite, diskRead, write_read]
      rfl
    · obtain ⟨temp, htemp, hmem⟩ := @copy_to_eq g mem buf blk off n p hfits
      rw [htemp, map_some, if_neg hwritten, hmem]
      refine ⟨_, rfl, ?_⟩
      rintro (rfl | hplace)
      · rfl
      · rw [hplace, Nat.zero_add]
  blocks mem p blk n h := by
    show diskWrite g mem blk (read buf p (n * bytesPer g)) = _
    rw [Nat.zero_add]
    rcases h with rfl | h
    · rw [diskWrite, Nat.zero_mul]
      rfl
    · rw [diskWrite, h]

theorem Moves.part_done {pos : Nat} {st : Stage} (h : Moves dir g e src pos d q written)
    (hread : ¬ e.fails i 1) (hwritten : written i) (hst : dir.part mem p i blk off n = some st) :
    ∃ mem', st = .done mem' := by
  by_cases hfits : Fits g off n
  · obtain ⟨mem', hdone, -⟩ := h.done mem p i blk off n hread hfits hwritten
    rw [hdone] at hst
    exact ⟨mem', (some.inj hst).symm⟩
  · rw [h.runsOut mem p i blk off n hread hfits] at hst
    cases hst

/-! ## The part of the last block -/

theorem last_stopped_iff {pos : Nat} (h : Moves dir g e src pos d q written) (hoff : 0 < s.endOff)
    (hstop : ¬ (¬ e.fails i 1 ∧ written i)) :
    (∃ r, lastPart dir mem file s i w = some r ∧ Right e file src' d' q' r) ↔
      (¬ e.fails i 1 → s.endOff ≤ g.bytesPerSector) ∧ w.toInt ≤ 0 := by
  unfold lastPart
  rw [if_pos hoff]
  by_cases hread : e.fails i 1
  · rw [h.notRead mem _ i _ _ _ hread]
    constructor
    · rintro ⟨r, hr, hright⟩
      rw [← some.inj hr] at hright
      exact ⟨fun hnot => absurd hread hnot, kept_right_iff.mp hright⟩
    · exact fun h => ⟨_, rfl, kept_right_iff.mpr h.2⟩
  · have hwritten : ¬ written i := fun hwritten => hstop ⟨hread, hwritten⟩
    have hiff : Fits g 0 s.endOff ↔ s.endOff ≤ g.bytesPerSector := by
      unfold Fits bytesPer
      constructor <;> intro h <;> bv_omega
    by_cases hfits : s.endOff ≤ g.bytesPerSector
    · rw [h.notWritten mem _ i _ _ _ hread (hiff.mpr hfits) hwritten]
      constructor
      · rintro ⟨r, hr, hright⟩
        rw [← some.inj hr] at hright
        exact ⟨fun _ => hfits, kept_right_iff.mp hright⟩
      · exact fun h => ⟨_, rfl, kept_right_iff.mpr h.2⟩
    · rw [h.runsOut mem _ i _ _ _ hread fun h => hfits (hiff.mp h)]
      constructor
      · rintro ⟨r, hr, -⟩
        cases hr
      · exact fun h => absurd (h.1 hread) hfits

theorem last_result {pos : Nat} (h : Moves dir g e src pos d q written)
    (hok : 0 < s.endOff → ¬ e.fails i 1 ∧ written i)
    (hr : lastPart dir mem file s i w = some r) :
    r.result = w + s.endOff ∧ r.file = file.advance (w + s.endOff) := by
  unfold lastPart at hr
  by_cases hoff : 0 < s.endOff
  · rw [if_pos hoff] at hr
    obtain ⟨st, hst, rfl⟩ := map_eq_some_iff.mp hr
    obtain ⟨mem', rfl⟩ := h.part_done (hok hoff).1 (hok hoff).2 hst
    exact ⟨rfl, rfl⟩
  · have hzero : s.endOff = 0#32 := by bv_omega
    rw [if_neg hoff] at hr
    rw [← some.inj hr, hzero, BitVec.add_zero]
    exact ⟨rfl, rfl⟩

theorem last_eq {pos : Nat} (h : Moves dir g e src pos d q written)
    (hlast : s.endBlk.toNat * bytesPer g = pos + w.toNat) (hfit : s.endOff.toNat ≤ bytesPer g)
    (hok : 0 < s.endOff → ¬ e.fails i 1 ∧ written i) :
    lastPart dir mem file s i w =
      some ⟨Memory.write mem (d + w.toNat) (Memory.read src (q + w.toNat) s.endOff.toNat),
        w + s.endOff, file.advance (w + s.endOff)⟩ := by
  unfold lastPart
  by_cases hoff : 0 < s.endOff
  · obtain ⟨mem', hdone, hmem⟩ := h.done mem w.toNat i s.endBlk 0 s.endOff (hok hoff).1
      (inr (by show 0 + _ ≤ _; omega)) (hok hoff).2
    rw [if_pos hoff, hdone, ← hmem (inr hlast)]
    rfl
  · have hzero : s.endOff = 0#32 := by bv_omega
    rw [if_neg hoff, hzero, BitVec.add_zero]
    rfl

/-! ## All parts -/

theorem parts_stopped_iff {pos : Nat} (h : Moves dir g e src pos d q written) (hk : dir.perPart = k)
    (h0 : ¬ e.fails 0 1) (hstop : ¬ Passes e written k s)
    (hcount : g.bytesPerSector - s.startOff + middleSize s * g.bytesPerSector + s.endOff = count) :
    (∃ r, transferParts dir g e mem file s = some r ∧ Right e file src' d' q' r) ↔
      s.startBlk ≠ s.endBlk ∧ s.startOff ≤ g.bytesPerSector ∧
        (¬ written 0 ∨
          (¬ MiddleFails e s k → ¬ e.fails (lastIndex s k) 1 → s.endOff ≤ g.bytesPerSector) ∧
          StoppedEarly g s count (MiddleFails e s k)) := by
  have hbefore : g.bytesPerSector - s.startOff + middleSize s * g.bytesPerSector =
      count - s.endOff := by
    linear_combination hcount
  unfold transferParts restParts lastIndex
  subst hk
  by_cases hsame : s.startBlk = s.endBlk
  · -- the error of the write is also added to the position
    have hwritten : ¬ written 0 := fun hok => hstop ⟨⟨h0, hok⟩, fun hne => absurd hsame hne⟩
    rw [if_pos hsame]
    constructor
    · rintro ⟨r, hr, hright⟩
      obtain ⟨st, hst, hr⟩ := map_eq_some_iff.mp hr
      by_cases hfits : Fits g s.startOff (s.endOff - s.startOff)
      · rw [h.notWritten mem 0 0 _ _ _ h0 hfits hwritten] at hst
        rw [← some.inj hst] at hr
        have hresult : r.result = rtError := by rw [← hr]
        have hfile : r.file = file.advance rtError := by rw [← hr]
        exact absurd (advanced_nonneg hresult hfile hright) (by decide)
      · rw [h.runsOut mem 0 0 _ _ _ h0 hfits] at hst
        cases hst
    · exact fun h => absurd hsame h.1
  have hiff : Fits g s.startOff (g.bytesPerSector - s.startOff) ↔
      s.startOff ≤ g.bytesPerSector := by
    unfold Fits bytesPer
    constructor <;> intro h <;> bv_omega
  rw [if_neg hsame, and_iff_right hsame]
  dsimp only
  by_cases hoff : s.startOff ≤ g.bytesPerSector
  · rw [and_iff_right hoff]
    by_cases hwritten : written 0
    · obtain ⟨mem', hdone, -⟩ := h.done mem 0 0 s.startBlk _ _ h0 (hiff.mpr hoff) hwritten
      rw [hdone, bind_some, or_iff_right (not_not.mpr hwritten)]
      dsimp only
      by_cases hfail : MiddleFails e s dir.perPart
      · rw [if_pos hfail.1, if_pos hfail.2, stopped_middle hfail]
        constructor
        · rintro ⟨r, hr, hright⟩
          rw [← some.inj hr] at hright
          exact ⟨fun hnot => absurd hfail hnot, kept_right_iff.mp hright⟩
        · exact fun h => ⟨_, rfl, kept_right_iff.mpr h.2⟩
      · have hlast : 0 < s.endOff ∧
            ¬ (¬ e.fails (lastIndex s dir.perPart) 1 ∧ written (lastIndex s dir.perPart)) := by
          by_contra hnot
          exact hstop ⟨⟨h0, hwritten⟩, fun _ => ⟨hfail, fun hpos =>
            not_not.mp fun hfails => hnot ⟨hpos, hfails⟩⟩⟩
        unfold lastIndex at hlast
        rw [stopped_end hfail, forall_prop_of_true hfail]
        by_cases hmiddle : HasMiddle s
        · rw [if_pos hmiddle] at hlast
          rw [if_pos hmiddle, if_neg fun hfails => hfail ⟨hmiddle, hfails⟩, if_pos hmiddle,
            last_stopped_iff h hlast.1 hlast.2, hbefore]
        · rw [if_neg hmiddle] at hlast
          rw [no_middle hsame hmiddle, zero_mul, BitVec.add_zero] at hbefore
          rw [if_neg hmiddle, if_neg hmiddle, last_stopped_iff h hlast.1 hlast.2, hbefore]
    · rw [h.notWritten mem 0 0 _ _ _ h0 (hiff.mpr hoff) hwritten]
      exact ⟨fun _ => inl hwritten, fun _ => ⟨_, rfl, kept_right_iff.mpr (by decide)⟩⟩
  · rw [h.runsOut mem 0 0 _ _ _ h0 fun h => hoff (hiff.mp h)]
    constructor
    · rintro ⟨r, hr, -⟩
      cases hr
    · exact fun h => absurd h.1 hoff

theorem parts_result {p : Nat} (h : Moves dir g e src p d q written) (hk : dir.perPart = k)
    (hpass : Passes e written k (span g pos count))
    (hr : transferParts dir g e mem file (span g pos count) = some r) :
    r.result = count ∧ r.file = file.advance count := by
  have hcount := word_parts g pos count
  have hsame' := @word_same g pos count
  subst hk
  generalize hs : span g pos count = s at hpass hr hcount hsame'
  unfold transferParts restParts at hr
  obtain ⟨⟨hread, hwritten⟩, hrest⟩ := hpass
  by_cases hsame : s.startBlk = s.endBlk
  · rw [if_pos hsame, hsame' hsame] at hr
    obtain ⟨st, hst, rfl⟩ := map_eq_some_iff.mp hr
    obtain ⟨mem', rfl⟩ := h.part_done hread hwritten hst
    exact ⟨rfl, rfl⟩
  · obtain ⟨hmoves, hends⟩ := hrest hsame
    rw [if_neg hsame] at hr
    obtain ⟨st, hst, hr⟩ := bind_eq_some_iff.mp hr
    obtain ⟨mem', rfl⟩ := h.part_done hread hwritten hst
    dsimp only at hr
    unfold lastIndex at hends
    by_cases hmiddle : HasMiddle s
    · rw [if_pos hmiddle, if_neg fun hfails => hmoves ⟨hmiddle, hfails⟩] at hr
      rw [if_pos hmiddle] at hends
      have hresult := last_result h hends hr
      rwa [hcount] at hresult
    · rw [if_neg hmiddle] at hr hends
      have hresult := last_result h hends hr
      rw [no_middle hsame hmiddle, zero_mul, BitVec.add_zero] at hcount
      rwa [hcount] at hresult

theorem parts_eq (h : ∀ src, Moves (move src) g e src pos.toNat d q written)
    (hk : ∀ src, (move src).perPart = k) (hin : count ≠ 0 → Inside g pos count)
    (hpass : Passes e written k (span g pos count)) :
    ∃ head n middle tail, Lengths e (span g pos count) k count.toNat head n middle tail ∧
      ∀ src mem, transferParts (move src) g e mem file (span g pos count) =
        some ⟨join mem src d q head n middle tail, count, file.advance count⟩ := by
  have hsame' := @word_same g pos count
  have hcount := word_parts g pos count
  obtain ⟨⟨hread, hwritten⟩, hrest⟩ := hpass
  by_cases hone : (span g pos count).startBlk = (span g pos count).endBlk
  · refine ⟨count.toNat, 0, 0, 0, lengths_same hone, fun src mem => ?_⟩
    have hplace : Fits g (span g pos count).startOff count ∧ (count = 0 ∨
        (span g pos count).startBlk.toNat * bytesPer g + (span g pos count).startOff.toNat =
          pos.toNat) := by
      by_cases hzero : count = 0
      · exact ⟨inl hzero, inl hzero⟩
      · obtain ⟨p, rfl⟩ := eq_ofNat_of_zero_le (hin hzero).1
        have hwords := span_words (inside_lt (hin hzero))
        exact ⟨inr (hwords.same_fits hone), inr hwords.start⟩
    obtain ⟨mem', hdone, hmem⟩ := (h src).done mem 0 0 _ _ _ hread hplace.1 hwritten
    unfold transferParts
    rw [if_pos hone]
    dsimp only
    rw [hsame' hone, hdone, map_some, hmem hplace.2]
    rfl
  · have hzero : count ≠ 0 := by
      intro hzero
      refine hone ?_
      rw [hzero]
      show blockOf g pos = blockOf g (pos + 0)
      rw [Int.add_zero]
    obtain ⟨p, rfl⟩ := eq_ofNat_of_zero_le (hin hzero).1
    have hwords := span_words (inside_lt (hin hzero))
    obtain ⟨hmoves, hends⟩ := hrest hone
    generalize hs : span g (p : Int) count = s at hone hcount hwords hmoves hends
    have hparts := words_parts hwords count.isLt hone
    refine ⟨_, _, _, _, hparts.lengths hone, fun src mem => ?_⟩
    obtain ⟨mem', hdone, hmem⟩ := (h src).done mem 0 0 s.startBlk s.startOff _ hread
      (inr (head_fits (hparts.off_le hwords))) hwritten
    unfold transferParts restParts
    rw [if_neg hone]
    dsimp only
    rw [hdone, bind_some, hmem (inr hwords.start), hk src]
    dsimp only
    rw [hparts.head]
    unfold join movedBytes
    unfold lastIndex at hends
    by_cases hmiddle : HasMiddle s
    · have hlast : s.endBlk.toNat * bytesPer g =
          p + (g.bytesPerSector - s.startOff + middleSize s * g.bytesPerSector).toNat := by
        rw [hparts.retSize, hparts.last, Nat.add_assoc]
      rw [if_pos hmiddle] at hends
      rw [if_pos hmiddle, if_neg fun hfails => hmoves ⟨hmiddle, hfails⟩,
        last_eq (h src) hlast (Nat.le_of_lt hparts.endFits) hends, hcount, hparts.retSize,
        (h src).blocks _ _ _ _ (inr hparts.next), if_pos hmiddle]
      rfl
    · have hnone := no_middle hone hmiddle
      have hlast := hparts.last
      rw [hnone, BitVec.toNat_zero, Nat.zero_mul, Nat.add_zero, ← hparts.head] at hlast
      rw [hnone, zero_mul, BitVec.add_zero] at hcount
      rw [if_neg hmiddle] at hends
      rw [if_neg hmiddle, last_eq (h src) hlast (Nat.le_of_lt hparts.endFits) hends, hcount,
        hparts.head, if_neg hmiddle, hnone, BitVec.toNat_zero, Nat.zero_mul, Nat.add_zero]
      rfl

theorem parts_right_iff (h : ∀ src, Moves (move src) g e src file.pos64.toInt.toNat d q written)
    (hk : ∀ src, (move src).perPart = k) (hg : e.geometry = .ok g)
    (hfit : file.pos64.toInt + count.toNat < 2 ^ 63) :
    (∀ src dst, ∃ r,
        transferParts (move src) g e dst file (span g file.pos64.toInt count) = some r ∧
          Right e file src d q r) ↔
      PartsFit written k g e file.pos64.toInt count := by
  have hcount := word_parts g file.pos64.toInt count
  by_cases h0 : e.fails 0 1
  · refine ⟨fun _ => inl h0, fun _ src dst => ⟨⟨dst, rtError, file⟩, ?_, ?_⟩⟩
    · unfold transferParts
      simp only [(h src).notRead dst 0 0 _ _ _ h0, map_some, bind_some, ite_self]
    · exact kept_right_iff.mpr (by decide)
  by_cases hpass : Passes e written k (span g file.pos64.toInt count)
  · constructor
    · intro hall
      obtain ⟨r, hr, hright⟩ := hall (fun _ => 0) (fun _ => 0)
      obtain ⟨hresult, hfile⟩ := parts_result (h _) (hk _) hpass hr
      have hcounted := advanced_counted hg hresult hfile hright
      obtain ⟨head, n, middle, tail, hlengths, heq⟩ := parts_eq h hk hcounted.2 hpass
      refine inr (inl ⟨hpass, hcounted, ?_⟩)
      refine (joined_right_iff d q hg hfit hcounted rfl hlengths).mp fun src dst => ?_
      obtain ⟨r', hr', hright'⟩ := hall src dst
      rw [heq] at hr'
      rwa [← some.inj hr'] at hright'
    · rintro (hfail | ⟨-, hcounted, hmoved⟩ | ⟨hstop, -⟩)
      · exact absurd hfail h0
      · intro src dst
        obtain ⟨head, n, middle, tail, hlengths, heq⟩ := parts_eq h hk hcounted.2 hpass
        exact ⟨_, heq src dst,
          (joined_right_iff d q hg hfit hcounted rfl hlengths).mpr hmoved src dst⟩
      · exact absurd hpass hstop
  · constructor
    · intro hall
      have hstop := (parts_stopped_iff (h _) (hk _) h0 hpass hcount).mp
        (hall (fun _ => 0) (fun _ => 0))
      exact inr (inr ⟨hpass, hstop⟩)
    · rintro (hfail | ⟨hpasses, -⟩ | ⟨-, hstop⟩)
      · exact absurd hfail h0
      · exact absurd hpasses hpass
      · exact fun src dst => (parts_stopped_iff (h src) (hk src) h0 hpass hcount).mpr hstop

end

/-! ## Whole blocks -/

theorem whole_to_nat {n : Nat} :
    (BitVec.ofNat 32 (min n (count / g.bytesPerSector).toNat) * g.bytesPerSector).toNat =
        min n (count / g.bytesPerSector).toNat * bytesPer g ∧
      min n (count / g.bytesPerSector).toNat * bytesPer g ≤ count.toNat := by
  have hle : min n (count / g.bytesPerSector).toNat * bytesPer g ≤ count.toNat := by
    refine le_trans (Nat.mul_le_mul_right _ (Nat.min_le_right _ _)) ?_
    exact div_mul_le_self _ _
  have hcast : (BitVec.ofNat 32 (min n (count / g.bytesPerSector).toNat)).toNat =
      min n (count / g.bytesPerSector).toNat := by
    exact mod_eq_of_lt (by omega)
  refine ⟨?_, hle⟩
  rw [BitVec.toNat_mul, hcast]
  exact mod_eq_of_lt (Nat.lt_of_le_of_lt hle count.isLt)

theorem whole_start {w : BitVec 32} (hwhole : WholeBlocks g pos count) (hin : Inside g pos w) :
    (span g pos count).startBlk.toNat * bytesPer g = pos.toNat := by
  obtain ⟨p, rfl⟩ := eq_ofNat_of_zero_le hin.1
  have hdvd : bytesPer g ∣ p := natCast_dvd_natCast.mp hwhole.1
  have hless := inside_lt hin
  show (blockOf g p).toNat * bytesPer g = p
  rw [block_of_nat (by show p < 2 ^ 32 * bytesPer g; omega)]
  exact Nat.div_mul_cancel hdvd

theorem nothing_right {d q : Nat} {src mem : Nat → Byte} (hg : e.geometry = .ok g)
    (hfit : file.pos64.toInt + count.toNat < 2 ^ 63) :
    Right e file src d q ⟨mem, 0, file.advance 0⟩ := by
  refine advanced_right hg ?_ ⟨by decide, fun hne => absurd rfl hne⟩ rfl
  show file.pos64.toInt + (0 : Nat) < 2 ^ 63
  omega

theorem whole_right_iff {move : (Nat → Byte) → Direction} {d q : Nat} {written : Nat → Prop}
    (h : ∀ src, Moves (move src) g e src file.pos64.toInt.toNat d q written)
    (hg : e.geometry = .ok g) (hfit : file.pos64.toInt + count.toNat < 2 ^ 63)
    (hwhole : WholeBlocks g file.pos64.toInt count) :
    (∀ src dst, Right e file src d q
        ⟨(move src).blocks dst 0 (span g file.pos64.toInt count).startBlk
            ((e.device 0).blocks (count / g.bytesPerSector)),
          (e.device 0).result (count / g.bytesPerSector) * g.bytesPerSector,
          file.advance ((e.device 0).result (count / g.bytesPerSector) * g.bytesPerSector)⟩) ↔
      WholeFit g e file.pos64.toInt count := by
  unfold WholeFit
  cases e.device 0 with
  | failed error =>
    show (∀ src dst, Right e file src d q ⟨(move src).blocks dst 0 _ 0,
      error.val * g.bytesPerSector, file.advance (error.val * g.bytesPerSector)⟩) ↔
        error.val * g.bytesPerSector = 0
    generalize error.val * g.bytesPerSector = w
    constructor
    · intro hall
      have hge := advanced_nonneg rfl rfl (hall (fun _ => 0) (fun _ => 255))
      refine eq_of_toInt_eq (Int.le_antisymm ?_ hge)
      by_contra hpos
      have hcast := toNat_of_nonneg hge
      obtain ⟨g', -, -, hbytes⟩ := (hall (fun _ => 0) (fun _ => 255)).2 (Int.not_le.mp hpos)
      have hless : 0 < w.toNat := by
        change ¬ w.toInt ≤ 0 at hpos
        change (w.toNat : Int) = w.toInt at hcast
        omega
      have hbyte := congrArg (fun bytes => bytes[0]?) hbytes
      rw [(h _).blocks _ _ _ _ (inl rfl), Nat.zero_mul] at hbyte
      change (read (fun _ => 255) d w.toNat)[0]? = _ at hbyte
      rw [getElem?_read hless, getElem?_read hless] at hbyte
      exact absurd hbyte (by decide)
    · intro hzero src dst
      rw [hzero]
      exact nothing_right hg hfit
  | moved n =>
    obtain ⟨hcast, hle⟩ := @whole_to_nat g count n
    show (∀ src dst, Right e file src d q ⟨(move src).blocks dst 0
        (span g file.pos64.toInt count).startBlk (min n (count / g.bytesPerSector).toNat),
        BitVec.ofNat 32 (min n (count / g.bytesPerSector).toNat) * g.bytesPerSector,
        file.advance
          (BitVec.ofNat 32 (min n (count / g.bytesPerSector).toNat) * g.bytesPerSector)⟩) ↔
      Counted g file.pos64.toInt
        (BitVec.ofNat 32 (min n (count / g.bytesPerSector).toNat) * g.bytesPerSector)
    generalize BitVec.ofNat 32 (min n (count / g.bytesPerSector).toNat) * g.bytesPerSector = w
      at hcast
    generalize min n (count / g.bytesPerSector).toNat = blocks at hcast hle
    constructor
    · intro hall
      exact advanced_counted hg rfl rfl (hall (fun _ => 0) (fun _ => 0))
    · intro hcounted src dst
      by_cases hw : w = 0
      · rw [hw]
        exact nothing_right hg hfit
      · refine advanced_right hg (by omega) hcounted ?_
        rw [(h src).blocks _ _ _ _ (inr (whole_start hwhole (hcounted.2 hw))), ← hcast]
        exact read_write_read

/-! ## Requests -/

theorem transfer_right_iff {d q k : Nat} {written : Env → Nat → Prop}
    (h : ∀ src g, Moves (direction src e g) g e src file.pos64.toInt.toNat d q (written e))
    (hk : ∀ src g, (direction src e g).perPart = k)
    (herror : ∀ error : BitVec 32, error.toInt < 0 → (geometryError error).toInt ≤ 0) :
    (∀ src dst, ∃ r, transferBlocks (direction src) e dst file count geometryError = some r ∧
        Right e file src d q r) ↔
      TransferFits e file count fun g e => PartsFit (written e) k g e := by
  unfold transferBlocks TransferFits
  cases hg : e.geometry with
  | error ret =>
    refine ⟨fun _ => trivial, fun _ src dst => ⟨_, rfl, ?_⟩⟩
    exact kept_right_iff.mpr (herror ret ret.property)
  | ok g =>
    dsimp only
    by_cases hover : 2 ^ 63 ≤ file.pos64.toInt + count.toNat
    · constructor
      · intro hall
        obtain ⟨r, hr, -⟩ := hall (fun _ => 0) (fun _ => 0)
        rw [if_pos hover] at hr
        cases hr
      · exact fun h => absurd h.1 (Int.not_lt.mpr hover)
    have hfit : file.pos64.toInt + count.toNat < 2 ^ 63 := Int.not_le.mp hover
    simp only [if_neg hover]
    rw [and_iff_right hfit]
    by_cases hbehind : (span g file.pos64.toInt count).behind g
    · simp only [if_pos hbehind]
      refine ⟨fun _ => inl (behind_iff.mp hbehind), fun _ src dst => ⟨_, rfl, ?_⟩⟩
      exact kept_right_iff.mpr (by decide)
    simp only [if_neg hbehind]
    rw [or_iff_right fun hcut => hbehind (behind_iff.mpr hcut)]
    by_cases haligned : (span g file.pos64.toInt count).aligned
    · have hwhole := aligned_iff.mp haligned
      simp only [if_pos haligned]
      rw [or_iff_left fun h => h.1 hwhole, and_iff_right hwhole,
        ← whole_right_iff (fun src => h src g) hg hfit hwhole]
      refine forall_congr' fun src => forall_congr' fun dst => ?_
      constructor
      · rintro ⟨r, hr, hright⟩
        rwa [← some.inj hr] at hright
      · exact fun hright => ⟨_, rfl, hright⟩
    have hnot : ¬ WholeBlocks g file.pos64.toInt count :=
      fun hwhole => haligned (aligned_iff.mpr hwhole)
    simp only [if_neg haligned]
    rw [or_iff_right fun h => hnot h.1, and_iff_right hnot]
    by_cases hmalloc : e.malloc = false
    · simp only [if_pos hmalloc]
      refine ⟨fun _ => inl hmalloc, fun _ src dst => ⟨_, rfl, ?_⟩⟩
      exact kept_right_iff.mpr (by decide)
    · simp only [if_neg hmalloc]
      rw [or_iff_right hmalloc]
      exact parts_right_iff (fun src => h src g) (fun src => hk src g) hg hfit

theorem Env.Complete.passes {i : Nat} {size : BitVec 32} (h : e.Complete) (hpos : 0 < size.toInt) :
    ¬ e.fails i size := by
  unfold Env.fails
  rw [h i size]
  exact Int.not_le.mpr hpos

theorem Env.Complete.blocks_eq (h : e.Complete) (i : Nat) (size : BitVec 32) :
    (e.device i).blocks size = size.toNat := by
  have hresult := h i size
  cases hanswer : e.device i with
  | failed error =>
    have hzero := h i 0
    rw [hanswer] at hzero
    have hneg := error.property
    change error.val = 0 at hzero
    rw [hzero] at hneg
    exact absurd hneg (by decide)
  | moved n =>
    rw [hanswer] at hresult
    change BitVec.ofNat 32 (min n size.toNat) = size at hresult
    have hvalue := congrArg BitVec.toNat hresult
    rw [toNat_ofNat, mod_eq_of_lt (by omega)] at hvalue
    exact hvalue

theorem middle_positive (hin : Inside g pos count) (hwhole : ¬ WholeBlocks g pos count)
    (hne : (span g pos count).startBlk ≠ (span g pos count).endBlk)
    (hmiddle : HasMiddle (span g pos count)) : 0 < (middleSize (span g pos count)).toInt := by
  obtain ⟨p, rfl⟩ := eq_ofNat_of_zero_le hin.1
  have hparts := words_parts (span_words (inside_lt hin)) count.isLt hne
  have hsize : 0 < (middleSize (span g (p : Int) count)).toNat := by
    unfold middleSize
    bv_omega
  have hbytes : 2 ≤ bytesPer g := by
    by_contra hless
    have hone : g.bytesPerSector.toNat = 1 := by
      have hpos := bytes_per_pos g
      change ¬ 2 ≤ g.bytesPerSector.toNat at hless
      change 0 < g.bytesPerSector.toNat at hpos
      omega
    refine hwhole ⟨?_, ?_⟩ <;> rw [hone] <;> exact one_dvd _
  have htotal := hparts.whole
  have hdouble := Nat.mul_le_mul_left (middleSize (span g (p : Int) count)).toNat hbytes
  rw [toInt_eq_toNat_of_lt (by omega)]
  omega

theorem complete_moved (h : e.Complete) (i : Nat) : MiddleMoved e s i :=
  fun _ => h.blocks_eq i _

theorem complete_passes {written : Nat → Prop} {k : Nat} (h : e.Complete)
    (hwritten : ∀ i, written i) (hin : Inside g pos count) (hwhole : ¬ WholeBlocks g pos count) :
    Passes e written k (span g pos count) :=
  ⟨⟨h.passes (by decide), hwritten 0⟩, fun hne =>
    ⟨fun hfails => h.passes (middle_positive hin hwhole hne hfails.1) hfails.2,
      fun _ => ⟨h.passes (by decide), hwritten _⟩⟩⟩

theorem transfer_complete {d q k : Nat} {written : Nat → Prop} {dst src : Nat → Byte}
    (hmoves : ∀ src, Moves (direction src e g) g e src file.pos64.toInt.toNat d q written)
    (hk : ∀ src, (direction src e g).perPart = k) (hwritten : ∀ i, written i)
    (hg : e.geometry = .ok g) (hin : Inside g file.pos64.toInt count)
    (hfit : file.pos64.toInt + count.toNat < 2 ^ 63) (h : e.Complete)
    (hscratch : e.HasScratch g file count) :
    transferBlocks (direction src) e dst file count geometryError =
      some ⟨Memory.write dst d (Memory.read src q count.toNat), count, file.advance count⟩ := by
  have hbehind : ¬ (span g file.pos64.toInt count).behind g := by
    rw [behind_iff]
    obtain ⟨p, hp⟩ := eq_ofNat_of_zero_le hin.1
    rw [hp] at hin ⊢
    exact fun hcut => (cut_behind_iff (inside_lt hin)).mp hcut hin
  unfold transferBlocks
  rw [hg]
  dsimp only
  rw [if_neg (Int.not_le.mpr hfit), if_neg hbehind]
  by_cases hwhole : WholeBlocks g file.pos64.toInt count
  · have hcount : (count / g.bytesPerSector).toNat * bytesPer g = count.toNat := by
      have hdvd := (Int.dvd_add_right hwhole.1).mp hwhole.2
      exact Nat.div_mul_cancel (natCast_dvd_natCast.mp hdvd)
    have hresult : count / g.bytesPerSector * g.bytesPerSector = count := by
      refine eq_of_toNat_eq ?_
      change (count / g.bytesPerSector).toNat * bytesPer g % 2 ^ 32 = count.toNat
      rw [hcount]
      exact mod_eq_of_lt count.isLt
    rw [if_pos (aligned_iff.mpr hwhole), h.blocks_eq, h,
      (hmoves src).blocks _ _ _ _ (inr (whole_start hwhole hin)), hcount, hresult]
    rfl
  · rw [if_neg fun haligned => hwhole (aligned_iff.mp haligned), hscratch.resolve_left hwhole,
      if_neg (by decide)]
    obtain ⟨head, n, middle, tail, hlengths, heq⟩ :=
      parts_eq hmoves hk (fun _ => hin) (complete_passes h hwritten hin hwhole)
    rw [heq, hlengths.moved_iff.mpr (complete_moved h k), join_complete, hlengths.sum]

theorem complete_read (hg : e.geometry = .ok g) (hin : Inside g file.pos64.toInt count)
    (hfit : file.pos64.toInt + count.toNat < 2 ^ 63) (h : e.Complete)
    (hscratch : e.HasScratch g file count) :
    blockDeviceRead e content buf file count =
      some ⟨Memory.write buf 0 (Memory.read content file.pos64.toInt.toNat count.toNat), count,
        file.advance count⟩ :=
  transfer_complete (fun src => reading_moves src e g _) (fun _ => rfl) (fun _ => trivial) hg hin
    hfit h hscratch

/-- What is moved when a range is in the device, no transfer fails and there is memory. -/
theorem transfers_complete (g : BlkGeometry) (e : Env) (content buf : Nat → Byte) (file : DfsFd)
    (count : BitVec 32) (hg : e.geometry = .ok g) (hin : Inside g file.pos64.toInt count)
    (hcomplete : e.Complete) (hfit : file.pos64.toInt + count.toNat < 2 ^ 63)
    (hscratch : e.HasScratch g file count) : Exactly g e content buf file count where
  read := complete_read hg hin hfit hcomplete hscratch
  write := transfer_complete (fun src => writing_moves src e g _) (fun _ => rfl)
    (fun _ => hcomplete.passes (by decide)) hg hin hfit hcomplete hscratch
  readBack := by
    intro e' buf' hg' hcomplete' hscratch'
    refine ⟨_, complete_read hg' hin hfit hcomplete' hscratch', ?_⟩
    rw [read_write_read]
    exact read_write_read
  pos := rfl
  pos64 := advance_exact hfit

/-- A device of four blocks of four bytes whose transfers are complete. -/
def wholeDevice (malloc : Bool) : Env where
  geometry := .ok ⟨4, 4, by decide⟩
  malloc := malloc
  device := fun _ => .moved (2 ^ 32)

theorem whole_device_complete (malloc : Bool) : (wholeDevice malloc).Complete := by
  intro i size
  have hless := size.isLt
  show BitVec.ofNat 32 (min (2 ^ 32) size.toNat) = size
  rw [Nat.min_eq_right (Nat.le_of_lt hless), BitVec.ofNat_toNat, setWidth_eq]

theorem parts_moved :
    Exactly ⟨4, 4, by decide⟩ (wholeDevice true) (fun _ => 1) (fun _ => 0) ⟨1, 1⟩ 9 :=
  transfers_complete _ (wholeDevice true) _ _ _ _ rfl ⟨by decide, by decide⟩
    (whole_device_complete true) (by decide) (Or.inr rfl)

/-- Without memory for the scratch block, nothing of a part of a block is read. -/
theorem no_scratch :
    ¬ ∀ (g : BlkGeometry) (e : Env) (content buf : Nat → Byte) (file : DfsFd) (count : BitVec 32),
      e.geometry = .ok g → Inside g file.pos64.toInt count → e.Complete →
        Exactly g e content buf file count := by
  intro hall
  have hread := (hall _ (wholeDevice false) (fun _ => 0) (fun _ => 0) ⟨1, 1⟩ 1 rfl
    ⟨by decide, by decide⟩ (whole_device_complete false)).read
  have hresult := congrArg (fun r => r.map Moved.result) hread
  exact absurd hresult (by decide)

/-- For which failures of its transfers a request accounts for the bytes that it moved. -/
theorem transfers_accounted_iff (e : Env) (file : DfsFd) (count : BitVec 32) :
    (ReadRight e file count ↔ TransferFits e file count ReadPartsFit) ∧
      (WriteRight e file count ↔ TransferFits e file count WritePartsFit) := by
  constructor
  · have hmoves : ∀ src g, Moves (reading src e g) g e src file.pos64.toInt.toNat 0
        file.pos64.toInt.toNat ((fun _ _ => True) e) := fun src g => reading_moves src e g _
    exact transfer_right_iff hmoves (fun _ _ => rfl) fun _ herror => Int.le_of_lt herror
  · rw [WriteRight, forall_comm]
    exact transfer_right_iff (fun src g => writing_moves src e g _) (fun _ _ => rfl)
      fun _ _ => by decide

/-- A device of four blocks of four bytes whose second transfer fails. -/
def secondFails : Env where
  geometry := .ok ⟨4, 4, by decide⟩
  malloc := true
  device := fun i => if i = 1 then .failed ⟨-1, by decide⟩ else .moved 4

/-- Three bytes of two blocks are read and returned, and the file stays where it is. -/
theorem position_behind : ¬ ReadRight secondFails ⟨1, 1⟩ 4 := by
  intro hright
  obtain ⟨r, hr, haccounted, -⟩ := hright (fun _ => 0) (fun _ => 0)
  have hresult : (blockDeviceRead secondFails (fun _ => 0) (fun _ => 0) ⟨1, 1⟩ 4).map
      (fun r => (r.result, r.file.pos)) = some (3, 1) := by decide
  rw [hr] at hresult
  obtain ⟨hthree, hpos⟩ := Prod.mk.inj (some.inj hresult)
  unfold Accounted at haccounted
  rw [hthree, if_pos (by decide), hpos] at haccounted
  exact absurd haccounted.1 (by decide)

end FullhanRtos.BlockData
