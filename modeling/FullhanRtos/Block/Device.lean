import FullhanRtos.Lib.Transition
import Mathlib.Data.BitVec

/-!
# Files on block devices

`BlockDevice_Read` and `BlockDevice_Write` turn a 64-bit file position into block numbers and
offsets of 32 bits, and compare these with the size of the device. `file_requests_ok_iff` says
exactly when the requests of a run touch only blocks of their own ranges. The bytes that are copied
between the blocks and the caller are left out.
-/

namespace FullhanRtos.BlockDevice

open Transition Nat Int
open List hiding count

/-! ## Requests -/

/-- `struct rt_device_blk_geometry` of a device with positive blocks. -/
structure BlkGeometry where
  sectorCount : BitVec 32
  bytesPerSector : BitVec 32
  bytesPerSector_pos : 0 < bytesPerSector

/-- The position of `struct dfs_fd`, which it has twice. -/
structure DfsFd where
  pos : BitVec 32
  pos64 : BitVec 64

inductive Direction where
  | read
  | write
  deriving DecidableEq

/-- A call of `rt_device_read` or `rt_device_write`. -/
structure Transfer where
  direction : Direction
  pos : BitVec 32
  size : BitVec 32
  deriving DecidableEq

/-- What a request gets from the device and the heap: the geometry or a negative error, whether
there is memory for a block, and the result of each transfer. -/
structure Answers where
  geometry : Except { error : BitVec 32 // error.toInt < 0 } BlkGeometry
  malloc : Bool
  device : Nat → BitVec 32

/-- The transfers of a request, its result and the file behind it. -/
structure Reply where
  transfers : List Transfer
  result : BitVec 32
  file : DfsFd

def rtError : BitVec 32 := -1

def rtEnomem : BitVec 32 := -5

def rtEio : BitVec 32 := -8

/-- The quotient and the remainder of a position, as `rt_uint32_t`. -/
def blockOf (g : BlkGeometry) (pos : Int) : BitVec 32 :=
  BitVec.ofInt 32 (pos.tdiv g.bytesPerSector.toNat)

def offsetOf (g : BlkGeometry) (pos : Int) : BitVec 32 :=
  BitVec.ofInt 32 (pos.tmod g.bytesPerSector.toNat)

def DfsFd.advance (file : DfsFd) (retSize : BitVec 32) : DfsFd where
  pos := file.pos + retSize
  pos64 := file.pos64 + BitVec.ofNat 64 retSize.toNat

def fails (a : Answers) (done : List Transfer) : Prop := (a.device done.length).toInt ≤ 0

instance (a : Answers) (done : List Transfer) : Decidable (fails a done) :=
  inferInstanceAs (Decidable (_ ≤ _))

/-- The block numbers and offsets of a request. -/
structure Span where
  startBlk : BitVec 32
  startOff : BitVec 32
  endBlk : BitVec 32
  endOff : BitVec 32

/-- The check of the size. -/
def Span.behind (g : BlkGeometry) (s : Span) : Prop :=
  g.sectorCount < s.endBlk ∨ s.endBlk = g.sectorCount ∧ 0 < s.endOff

instance (g : BlkGeometry) (s : Span) : Decidable (s.behind g) :=
  inferInstanceAs (Decidable (_ ∨ _))

/-- No block is transferred in part. -/
def Span.aligned (s : Span) : Prop := s.startOff = 0 ∧ s.endOff = 0

instance (s : Span) : Decidable s.aligned := inferInstanceAs (Decidable (_ ∧ _))

def span (g : BlkGeometry) (pos : Int) (count : BitVec 32) : Span where
  startBlk := blockOf g pos
  startOff := offsetOf g pos
  endBlk := blockOf g (pos + count.toNat)
  endOff := offsetOf g (pos + count.toNat)

/-- The blocks between the first and the last one, in one transfer. -/
def Span.middle (s : Span) (direction : Direction) : Transfer :=
  ⟨direction, s.startBlk + 1, s.endBlk - s.startBlk - 1⟩

/-- The last part of `BlockDevice_Read`, behind the middle blocks. -/
def readEnd (a : Answers) (file : DfsFd) (s : Span) (done : List Transfer) (retSize : BitVec 32) :
    Reply :=
  if 0 < s.endOff then
    let done' := done ++ [⟨.read, s.endBlk, 1⟩]
    if fails a done then ⟨done', retSize, file⟩
    else ⟨done', retSize + s.endOff, file.advance (retSize + s.endOff)⟩
  else ⟨done, retSize, file.advance retSize⟩

/-- `BlockDevice_Read` behind its checks, with memory for a block. -/
def readParts (g : BlkGeometry) (a : Answers) (file : DfsFd) (s : Span) : Reply :=
  let first : Transfer := ⟨.read, s.startBlk, 1⟩
  if fails a [] then ⟨[first], rtError, file⟩
  else if s.startBlk = s.endBlk then
    ⟨[first], s.endOff - s.startOff, file.advance (s.endOff - s.startOff)⟩
  else
    let retSize := g.bytesPerSector - s.startOff
    if 1 < s.endBlk - s.startBlk then
      if fails a [first] then ⟨[first, s.middle .read], retSize, file⟩
      else
        readEnd a file s [first, s.middle .read]
          (retSize + (s.endBlk - s.startBlk - 1) * g.bytesPerSector)
    else readEnd a file s [first] retSize

/-- The last part of `BlockDevice_Write`: the last block is read before it is written. -/
def writeEnd (a : Answers) (file : DfsFd) (s : Span) (done : List Transfer) (retSize : BitVec 32) :
    Reply :=
  if 0 < s.endOff then
    let done' := done ++ [⟨.read, s.endBlk, 1⟩]
    if fails a done then ⟨done', retSize, file⟩
    else
      let done'' := done' ++ [⟨.write, s.endBlk, 1⟩]
      if fails a done' then ⟨done'', retSize, file⟩
      else ⟨done'', retSize + s.endOff, file.advance (retSize + s.endOff)⟩
  else ⟨done, retSize, file.advance retSize⟩

/-- `BlockDevice_Write` behind its checks, with memory for a block. -/
def writeParts (g : BlkGeometry) (a : Answers) (file : DfsFd) (s : Span) : Reply :=
  let first : List Transfer := [⟨.read, s.startBlk, 1⟩, ⟨.write, s.startBlk, 1⟩]
  if fails a [] then ⟨[⟨.read, s.startBlk, 1⟩], rtError, file⟩
  else if s.startBlk = s.endBlk then
    let retSize := if fails a [⟨.read, s.startBlk, 1⟩] then rtError else s.endOff - s.startOff
    ⟨first, retSize, file.advance retSize⟩
  else if fails a [⟨.read, s.startBlk, 1⟩] then ⟨first, rtError, file⟩
  else
    let retSize := g.bytesPerSector - s.startOff
    if 1 < s.endBlk - s.startBlk then
      let done := first ++ [s.middle .write]
      if fails a first then ⟨done, retSize, file⟩
      else
        writeEnd a file s done (retSize + (s.endBlk - s.startBlk - 1) * g.bytesPerSector)
    else writeEnd a file s first retSize

/-- What both functions do, with their transfers of whole blocks, their error without a geometry and
their transfers of parts. `none` is a signed overflow. -/
def transferBlocks (direction : Direction) (geometryError : BitVec 32 → BitVec 32)
    (parts : BlkGeometry → Answers → DfsFd → Span → Reply) (a : Answers) (file : DfsFd)
    (count : BitVec 32) : Option Reply :=
  match a.geometry with
  | .error ret => some ⟨[], geometryError ret, file⟩
  | .ok g =>
    if 2 ^ 63 ≤ file.pos64.toInt + count.toNat then none
    else
      let s := span g file.pos64.toInt count
      if s.behind g then some ⟨[], rtEnomem, file⟩
      else if s.aligned then
        let retSize := a.device 0 * g.bytesPerSector
        some
          ⟨[⟨direction, s.startBlk, count / g.bytesPerSector⟩], retSize, file.advance retSize⟩
      else if a.malloc = false then some ⟨[], rtEnomem, file⟩
      else some (parts g a file s)

def blockDeviceRead (a : Answers) (file : DfsFd) (count : BitVec 32) : Option Reply :=
  transferBlocks .read (fun ret => ret) readParts a file count

def blockDeviceWrite (a : Answers) (file : DfsFd) (count : BitVec 32) : Option Reply :=
  transferBlocks .write (fun _ => rtEio) writeParts a file count

/-- A file is positioned, read or written. -/
inductive FileRequest where
  | seek (pos : BitVec 64)
  | read (count : BitVec 32) (a : Answers)
  | write (count : BitVec 32) (a : Answers)

def call (file : DfsFd) : FileRequest → Option Reply
  | .seek pos => some ⟨[], 0, ⟨pos.truncate 32, pos⟩⟩
  | .read count a => blockDeviceRead a file count
  | .write count a => blockDeviceWrite a file count

def fileStep (file : DfsFd) (request : FileRequest) : Option DfsFd :=
  (call file request).map Reply.file

/-! ## The ranges -/

/-- The range is in the device. -/
def Inside (g : BlkGeometry) (pos : Int) (count : BitVec 32) : Prop :=
  0 ≤ pos ∧ pos + count.toNat ≤ g.sectorCount.toNat * g.bytesPerSector.toNat

/-- A byte of the range is in the block. -/
def Overlaps (g : BlkGeometry) (pos : Int) (count : BitVec 32) (block : Nat) : Prop :=
  ∃ x : Int, pos ≤ x ∧ x < pos + count.toNat ∧
    block * g.bytesPerSector.toNat ≤ x ∧ x < (block + 1) * g.bytesPerSector.toNat

def Transfer.touches (t : Transfer) (block : Nat) : Prop :=
  t.pos.toNat ≤ block ∧ block < t.pos.toNat + t.size.toNat

/-- A request that is not in the device is rejected without a transfer, and the others transfer only
blocks of their ranges. -/
structure ReplyOk (g : BlkGeometry) (pos : Int) (count : BitVec 32) (reply : Reply) : Prop where
  rejected : ¬ Inside g pos count → reply.transfers = [] ∧ reply.result.toInt < 0
  overlaps : ∀ t ∈ reply.transfers, ∀ block, t.touches block → Overlaps g pos count block

/-- A request to a device that does not give its geometry is rejected too. -/
def AnswersOk (a : Answers) (file : DfsFd) (count : BitVec 32) (reply : Reply) : Prop :=
  match a.geometry with
  | .error _ => reply.transfers = [] ∧ reply.result.toInt < 0
  | .ok g => ReplyOk g file.pos64.toInt count reply

def RequestOk (file : DfsFd) (request : FileRequest) : Prop :=
  match request with
  | .seek _ => True
  | .read count a | .write count a => ∃ reply, call file request = some reply ∧
      AnswersOk a file count reply

def CutBehind (g : BlkGeometry) (pos : Int) (count : BitVec 32) : Prop :=
  g.sectorCount.toNat < (pos + count.toNat).tdiv g.bytesPerSector.toNat % 2 ^ 32 ∨
    (pos + count.toNat).tdiv g.bytesPerSector.toNat % 2 ^ 32 = g.sectorCount.toNat ∧
      ¬ (g.bytesPerSector.toNat : Int) ∣ pos + count.toNat

def WholeBlocks (g : BlkGeometry) (pos : Int) (count : BitVec 32) : Prop :=
  (g.bytesPerSector.toNat : Int) ∣ pos ∧ (g.bytesPerSector.toNat : Int) ∣ pos + count.toNat

/-- The condition. When the numbers of the blocks of the range fit in 32 bits, only an empty range
inside of a block of the device goes wrong; otherwise the request is rejected only by chance, or for
want of memory. -/
def RangeOk (g : BlkGeometry) (malloc : Bool) (pos : Int) (count : BitVec 32) : Prop :=
  pos + count.toNat < 2 ^ 63 ∧
    if 0 ≤ pos ∧ pos + count.toNat < 2 ^ 32 * g.bytesPerSector.toNat then
      ¬ (count = 0 ∧ ¬ (g.bytesPerSector.toNat : Int) ∣ pos ∧ Inside g pos count ∧ malloc = true)
    else CutBehind g pos count ∨ ¬ WholeBlocks g pos count ∧ malloc = false

def AnswersFit (a : Answers) (file : DfsFd) (count : BitVec 32) : Prop :=
  match a.geometry with
  | .error _ => True
  | .ok g => RangeOk g a.malloc file.pos64.toInt count

def RequestFits (file : DfsFd) (request : FileRequest) : Prop :=
  match request with
  | .seek _ => True
  | .read count a | .write count a => AnswersFit a file count

/-! ## Block numbers and offsets -/

variable {g : BlkGeometry} {pos : Int} {count : BitVec 32} {s : Span} {a : Answers}
  {file : DfsFd}

theorem BlkGeometry.bytes_pos (g : BlkGeometry) : 0 < g.bytesPerSector.toNat :=
  BitVec.lt_def.mp g.bytesPerSector_pos

/-- An offset is the exact remainder, up to its sign. -/
theorem offset_eq_zero_iff :
    offsetOf g pos = 0 ↔ (g.bytesPerSector.toNat : Int) ∣ pos := by
  have hbytes := g.bytes_pos
  have hbound : (pos.tmod g.bytesPerSector.toNat).natAbs < g.bytesPerSector.toNat := by
    rw [natAbs_tmod, natAbs_natCast]
    exact mod_lt _ hbytes
  rw [dvd_iff_tmod_eq_zero]
  unfold offsetOf
  rw [← BitVec.toNat_inj, BitVec.toNat_ofInt]
  show ((pos.tmod g.bytesPerSector.toNat) % (2 ^ 32 : Nat)).toNat = 0 ↔ _
  omega

theorem block_of_eq :
    ((blockOf g pos).toNat : Int) = pos.tdiv g.bytesPerSector.toNat % 2 ^ 32 := by
  unfold blockOf
  rw [BitVec.toNat_ofInt]
  omega

theorem behind_iff : (span g pos count).behind g ↔ CutBehind g pos count := by
  have hblock : ((span g pos count).endBlk.toNat : Int) = _ := block_of_eq
  have hoffset : (span g pos count).endOff = 0 ↔ _ := offset_eq_zero_iff
  unfold Span.behind CutBehind
  rw [← hblock, ← hoffset, Int.ofNat_lt, natCast_inj, ← BitVec.lt_def, BitVec.toNat_inj]
  refine or_congr Iff.rfl (and_congr_right fun _ => ?_)
  constructor
  · intro hpos hzero
    rw [hzero] at hpos
    exact absurd hpos (by decide)
  · intro hne
    bv_omega

theorem aligned_iff : (span g pos count).aligned ↔ WholeBlocks g pos count :=
  and_congr offset_eq_zero_iff offset_eq_zero_iff

/-! ## The transfers -/

/-- A transfer of the first block, of the middle blocks or of the last block. -/
def Near (s : Span) (t : Transfer) : Prop :=
  t.pos = s.startBlk ∧ t.size = 1 ∨
    s.startBlk ≠ s.endBlk ∧ t.pos = s.startBlk + 1 ∧ t.size = s.endBlk - s.startBlk - 1 ∨
    s.startBlk ≠ s.endBlk ∧ 0 < s.endOff ∧ t.pos = s.endBlk ∧ t.size = 1

/-- The first block is transferred, and no other blocks. -/
structure PartsOk (s : Span) (ts : List Transfer) : Prop where
  first : ∃ t ∈ ts, t.pos = s.startBlk ∧ t.size = 1
  near : ∀ t ∈ ts, Near s t

theorem PartsOk.append {done : List Transfer} {t : Transfer} (h : PartsOk s done) (ht : Near s t) :
    PartsOk s (done ++ [t]) := by
  obtain ⟨t0, hmem, hfirst⟩ := h.first
  refine ⟨⟨t0, mem_append_left _ hmem, hfirst⟩, ?_⟩
  intro t' ht'
  rcases mem_append.mp ht' with hdone | hlast
  · exact h.near t' hdone
  · rw [mem_singleton.mp hlast]
    exact ht

theorem PartsOk.singleton (s : Span) (direction : Direction) :
    PartsOk s [⟨direction, s.startBlk, 1⟩] := by
  refine ⟨⟨_, mem_singleton_self _, rfl, rfl⟩, ?_⟩
  intro t ht
  rw [mem_singleton.mp ht]
  exact Or.inl ⟨rfl, rfl⟩

section

variable {done : List Transfer} {retSize : BitVec 32}

theorem near_last (hblk : s.startBlk ≠ s.endBlk) (hoff : 0 < s.endOff) (direction : Direction) :
    Near s ⟨direction, s.endBlk, 1⟩ := Or.inr (Or.inr ⟨hblk, hoff, rfl, rfl⟩)

theorem near_middle (hblk : s.startBlk ≠ s.endBlk) (direction : Direction) :
    Near s (s.middle direction) := Or.inr (Or.inl ⟨hblk, rfl, rfl⟩)

theorem read_end_ok (hblk : s.startBlk ≠ s.endBlk) (h : PartsOk s done) :
    PartsOk s (readEnd a file s done retSize).transfers := by
  unfold readEnd
  split
  · rename_i hoff
    have hlast := h.append (near_last hblk hoff .read)
    split <;> exact hlast
  · exact h

theorem read_parts_ok : PartsOk s (readParts g a file s).transfers := by
  have hfirst := PartsOk.singleton s .read
  unfold readParts
  split
  · exact hfirst
  · split
    · exact hfirst
    · rename_i hblk
      have hmiddle := hfirst.append (near_middle hblk .read)
      split
      · dsimp only
        split
        · exact hmiddle
        · exact read_end_ok hblk hmiddle
      · exact read_end_ok hblk hfirst

theorem write_end_ok (hblk : s.startBlk ≠ s.endBlk) (h : PartsOk s done) :
    PartsOk s (writeEnd a file s done retSize).transfers := by
  unfold writeEnd
  split
  · rename_i hoff
    have hread := h.append (near_last hblk hoff .read)
    have hwritten := hread.append (near_last hblk hoff .write)
    split
    · exact hread
    · dsimp only
      split <;> exact hwritten
  · exact h

theorem write_parts_ok : PartsOk s (writeParts g a file s).transfers := by
  have hread := PartsOk.singleton s .read
  have hfirst : PartsOk s [⟨.read, s.startBlk, 1⟩, ⟨.write, s.startBlk, 1⟩] :=
    hread.append (Or.inl ⟨rfl, rfl⟩)
  unfold writeParts
  dsimp only
  split
  · exact hread
  · split
    · exact hfirst
    · rename_i hblk
      have hmiddle := hfirst.append (near_middle hblk .write)
      split
      · exact hfirst
      · split
        · split
          · exact hmiddle
          · exact write_end_ok hblk hmiddle
        · exact write_end_ok hblk hfirst

end

/-! ## Ranges whose block numbers fit -/

/-- The block numbers and offsets of a range are exact. -/
structure Exact (g : BlkGeometry) (pos count : Nat) (s : Span) : Prop where
  startBlk : s.startBlk.toNat = pos / g.bytesPerSector.toNat
  endBlk : s.endBlk.toNat = (pos + count) / g.bytesPerSector.toNat
  endOff : 0 < s.endOff ↔ 0 < (pos + count) % g.bytesPerSector.toNat

variable {p : Nat}

theorem block_of_nat (h : p < 2 ^ 32 * g.bytesPerSector.toNat) :
    (blockOf g p).toNat = p / g.bytesPerSector.toNat := by
  have hfits : p / g.bytesPerSector.toNat < 2 ^ 32 := Nat.div_lt_of_lt_mul (by rwa [Nat.mul_comm])
  have hblock := @block_of_eq g p
  rw [← ofNat_tdiv, emod_eq_of_lt (natCast_nonneg _) (by exact_mod_cast hfits)]
    at hblock
  exact_mod_cast hblock

theorem exact_span (h : p + count.toNat < 2 ^ 32 * g.bytesPerSector.toNat) :
    Exact g p count.toNat (span g p count) := by
  refine ⟨block_of_nat (by omega), block_of_nat h, ?_⟩
  have hzero : (span g p count).endOff = 0 ↔ _ := offset_eq_zero_iff
  rw [← natCast_add, natCast_dvd_natCast, dvd_iff_mod_eq_zero] at hzero
  have hiff : 0 < (span g p count).endOff ↔ ¬ (span g p count).endOff = 0 := by
    constructor <;> intro h <;> bv_omega
  rw [hiff, hzero]
  omega

theorem cut_behind_iff (h : p + count.toNat < 2 ^ 32 * g.bytesPerSector.toNat) :
    CutBehind g p count ↔ ¬ Inside g p count := by
  have hbytes := g.bytes_pos
  have hfits : (p + count.toNat) / g.bytesPerSector.toNat < 2 ^ 32 :=
    Nat.div_lt_of_lt_mul (by rwa [Nat.mul_comm])
  have hquotient : ((p : Int) + count.toNat).tdiv g.bytesPerSector.toNat % 2 ^ 32 =
      ((p + count.toNat) / g.bytesPerSector.toNat : Nat) := by
    rw [← natCast_add, ← ofNat_tdiv]
    exact emod_eq_of_lt (natCast_nonneg _) (by exact_mod_cast hfits)
  have hinside : Inside g p count ↔
      p + count.toNat ≤ g.sectorCount.toNat * g.bytesPerSector.toNat := by
    exact ⟨fun h => by exact_mod_cast h.2, fun h => ⟨by omega, by exact_mod_cast h⟩⟩
  unfold CutBehind
  rw [hquotient, hinside, ← natCast_add, natCast_dvd_natCast, Int.ofNat_lt, natCast_inj, Nat.not_le]
  constructor
  · rintro (hless | ⟨heq, hpart⟩)
    · have hnext := (Nat.le_div_iff_mul_le hbytes).mp hless
      exact Nat.lt_of_lt_of_le (Nat.mul_lt_mul_of_pos_right (Nat.lt_succ_self _) hbytes) hnext
    · refine Nat.lt_of_le_of_ne ((Nat.le_div_iff_mul_le hbytes).mp heq.ge) fun hsame => hpart ?_
      exact ⟨_, (Nat.mul_comm _ _ ▸ hsame.symm)⟩
  · intro hbehind
    have hle := (Nat.le_div_iff_mul_le hbytes).mpr hbehind.le
    rcases Nat.lt_or_eq_of_le hle with hless | heq
    · exact Or.inl hless
    · refine Or.inr ⟨heq.symm, fun hwhole => ?_⟩
      have hexact := Nat.div_mul_cancel hwhole
      rw [← heq] at hexact
      omega

variable {t : Transfer} {block : Nat}

theorem overlaps_of_nat {x : Nat} (hge : p ≤ x) (hless : x < p + count.toNat)
    (hblock : block * g.bytesPerSector.toNat ≤ x)
    (hnext : x < (block + 1) * g.bytesPerSector.toNat) : Overlaps g p count block :=
  ⟨x, by exact_mod_cast hge, by exact_mod_cast hless, by exact_mod_cast hblock,
    by exact_mod_cast hnext⟩

theorem near_overlaps (h : Exact g p count.toNat s) (hcount : 0 < count.toNat) (hnear : Near s t)
    (ht : t.touches block) : Overlaps g p count block := by
  have hbytes := g.bytes_pos
  have hfirst := div_mul_le_self p g.bytesPerSector.toNat
  have hnext : p < (p / g.bytesPerSector.toNat + 1) * g.bytesPerSector.toNat :=
    lt_mul_of_div_lt (Nat.lt_succ_self _) hbytes
  have hlast := div_mul_le_self (p + count.toNat) g.bytesPerSector.toNat
  have hle : p / g.bytesPerSector.toNat ≤ (p + count.toNat) / g.bytesPerSector.toNat :=
    Nat.div_le_div_right (Nat.le_add_right _ _)
  have hself : block * g.bytesPerSector.toNat < (block + 1) * g.bytesPerSector.toNat :=
    Nat.mul_lt_mul_of_pos_right (Nat.lt_succ_self _) hbytes
  have hless : s.startBlk ≠ s.endBlk → s.startBlk.toNat < s.endBlk.toNat := fun hne => by
    have hne' : s.startBlk.toNat ≠ s.endBlk.toNat := fun heq => hne (BitVec.eq_of_toNat_eq heq)
    rw [h.startBlk, h.endBlk] at hne' ⊢
    omega
  -- a block behind the first one begins in the range
  have hinside : p / g.bytesPerSector.toNat + 1 ≤ block →
      block * g.bytesPerSector.toNat < p + count.toNat → Overlaps g p count block := by
    intro hbehind hbefore
    have hmul := Nat.mul_le_mul_right g.bytesPerSector.toNat hbehind
    exact overlaps_of_nat (by omega) hbefore (Nat.le_refl _) hself
  obtain ⟨hfrom, hto⟩ := ht
  rcases hnear with ⟨hpos, hsize⟩ | ⟨hne, hpos, hsize⟩ | ⟨hne, hoff, hpos, hsize⟩
  · rw [hpos, h.startBlk] at hfrom hto
    rw [hsize] at hto
    have hblock : block = p / g.bytesPerSector.toNat := Nat.le_antisymm (le_of_lt_succ hto) hfrom
    rw [hblock]
    exact overlaps_of_nat (Nat.le_refl p) (by omega) hfirst hnext
  · have horder := hless hne
    have hpos' : t.pos.toNat = s.startBlk.toNat + 1 := by
      bv_omega
    have hsize' : t.size.toNat = s.endBlk.toNat - s.startBlk.toNat - 1 := by
      bv_omega
    rw [hpos', h.startBlk] at hfrom
    refine hinside hfrom (Nat.lt_of_lt_of_le (Nat.mul_lt_mul_of_pos_right ?_ hbytes) hlast)
    rw [← h.endBlk]
    omega
  · have horder := hless hne
    have hblock : block = (p + count.toNat) / g.bytesPerSector.toNat := by
      rw [hpos, h.endBlk] at hfrom hto
      rw [hsize] at hto
      exact Nat.le_antisymm (le_of_lt_succ hto) hfrom
    have hmod := div_add_mod' (p + count.toNat) g.bytesPerSector.toNat
    have hpart := h.endOff.mp hoff
    rw [h.startBlk, h.endBlk, ← hblock] at horder
    refine hinside horder ?_
    rw [hblock]
    omega

theorem whole_overlaps (h : Exact g p count.toNat s) (hwhole : g.bytesPerSector.toNat ∣ p)
    (hpos : t.pos = s.startBlk) (hsize : t.size = count / g.bytesPerSector)
    (ht : t.touches block) : Overlaps g p count block := by
  have hbytes := g.bytes_pos
  obtain ⟨hfrom, hto⟩ := ht
  rw [hpos, h.startBlk] at hfrom hto
  rw [hsize, BitVec.toNat_udiv] at hto
  have hstart := Nat.div_mul_cancel hwhole
  have hcount := div_mul_le_self count.toNat g.bytesPerSector.toNat
  have hself : block * g.bytesPerSector.toNat < (block + 1) * g.bytesPerSector.toNat :=
    Nat.mul_lt_mul_of_pos_right (Nat.lt_succ_self _) hbytes
  have hge := Nat.mul_le_mul_right g.bytesPerSector.toNat hfrom
  have hle := Nat.mul_le_mul_right g.bytesPerSector.toNat (succ_le_of_lt hto)
  rw [Nat.add_mul] at hle
  refine overlaps_of_nat (by omega) ?_ (Nat.le_refl _) hself
  have hnext : (block + 1) * g.bytesPerSector.toNat = (block.succ) * g.bytesPerSector.toNat := rfl
  omega

/-! ## When a reply is right -/

/-- What a request to a device with a geometry does, from what is asked for. -/
structure ReplyCases (g : BlkGeometry) (malloc : Bool) (pos : Int) (count : BitVec 32)
    (reply : Reply) : Prop where
  behind : CutBehind g pos count → reply.transfers = [] ∧ reply.result.toInt < 0
  whole : ¬ CutBehind g pos count → WholeBlocks g pos count →
    ∃ direction, reply.transfers =
      [⟨direction, (span g pos count).startBlk, count / g.bytesPerSector⟩]
  noMemory : ¬ CutBehind g pos count → ¬ WholeBlocks g pos count → malloc = false →
    reply.transfers = [] ∧ reply.result.toInt < 0
  parts : ¬ CutBehind g pos count → ¬ WholeBlocks g pos count → malloc = true →
    PartsOk (span g pos count) reply.transfers

variable {malloc : Bool} {reply : Reply}

/-- A range that does not fit is rejected exactly if the check rejects it, or there is no memory. -/
theorem reply_ok_outside (h : ReplyCases g malloc pos count reply) (hout : ¬ Inside g pos count) :
    ReplyOk g pos count reply ↔
      CutBehind g pos count ∨ ¬ WholeBlocks g pos count ∧ malloc = false := by
  have hrejected : reply.transfers = [] ∧ reply.result.toInt < 0 → ReplyOk g pos count reply := by
    intro hreply
    refine ⟨fun _ => hreply, fun t ht => ?_⟩
    rw [hreply.1] at ht
    cases ht
  constructor
  · intro hok
    obtain ⟨hnone, -⟩ := hok.rejected hout
    by_contra hcontra
    obtain ⟨hnot, hmemory⟩ := not_or.mp hcontra
    by_cases hwhole : WholeBlocks g pos count
    · obtain ⟨direction, htransfers⟩ := h.whole hnot hwhole
      rw [htransfers] at hnone
      cases hnone
    · have hmalloc : malloc = true := by
        cases malloc with
        | true => rfl
        | false => exact absurd ⟨hwhole, rfl⟩ hmemory
      obtain ⟨t, ht, -⟩ := (h.parts hnot hwhole hmalloc).first
      rw [hnone] at ht
      cases ht
  · rintro (hbehind | ⟨hpart, hmalloc⟩)
    · exact hrejected (h.behind hbehind)
    · by_cases hbehind : CutBehind g pos count
      · exact hrejected (h.behind hbehind)
      · exact hrejected (h.noMemory hbehind hpart hmalloc)

/-- A range in the device is served right unless it is empty and inside of a block. -/
theorem reply_ok_inside (h : ReplyCases g malloc p count reply) (hin : Inside g p count)
    (hfits : p + count.toNat < 2 ^ 32 * g.bytesPerSector.toNat) :
    ReplyOk g p count reply ↔
      ¬ (count = 0 ∧ ¬ (g.bytesPerSector.toNat : Int) ∣ p ∧ malloc = true) := by
  have hexact := exact_span hfits
  have hbehind : ¬ CutBehind g p count := by
    rw [cut_behind_iff hfits, not_not]
    exact hin
  constructor
  · rintro hok ⟨hzero, hpart, hmalloc⟩
    have hwhole : ¬ WholeBlocks g p count := fun hwhole => hpart hwhole.1
    obtain ⟨t, ht, hpos, hsize⟩ := (h.parts hbehind hwhole hmalloc).first
    have htouch : t.touches t.pos.toNat := by
      refine ⟨Nat.le_refl _, ?_⟩
      rw [hsize]
      exact Nat.lt_succ_self _
    obtain ⟨x, hge, hless, -⟩ := hok.overlaps t ht _ htouch
    rw [hzero] at hless
    change x < p + 0 at hless
    omega
  · intro hsome
    refine ⟨fun hout => absurd hin hout, fun t ht block htouch => ?_⟩
    by_cases hwhole : WholeBlocks g p count
    · obtain ⟨direction, htransfers⟩ := h.whole hbehind hwhole
      rw [htransfers] at ht
      obtain rfl := mem_singleton.mp ht
      exact whole_overlaps hexact (natCast_dvd_natCast.mp hwhole.1) rfl rfl htouch
    · cases hmalloc : malloc with
      | false =>
        rw [(h.noMemory hbehind hwhole hmalloc).1] at ht
        cases ht
      | true =>
        have hnear := (h.parts hbehind hwhole hmalloc).near t ht
        refine near_overlaps hexact ?_ hnear htouch
        by_contra hnone
        have hzero : count = 0 := BitVec.eq_of_toNat_eq (Nat.eq_zero_of_not_pos hnone)
        refine hsome ⟨hzero, fun hdvd => hwhole ⟨hdvd, ?_⟩, hmalloc⟩
        rw [hzero]
        exact (Int.add_zero _).symm ▸ hdvd

theorem reply_ok_iff (h : ReplyCases g malloc pos count reply)
    (hsum : pos + count.toNat < 2 ^ 63) :
    ReplyOk g pos count reply ↔ RangeOk g malloc pos count := by
  unfold RangeOk
  by_cases hfits : 0 ≤ pos ∧ pos + count.toNat < 2 ^ 32 * g.bytesPerSector.toNat
  · rw [if_pos hfits]
    obtain ⟨p, rfl⟩ := eq_ofNat_of_zero_le hfits.1
    have hfits' : p + count.toNat < 2 ^ 32 * g.bytesPerSector.toNat := by
      exact_mod_cast hfits.2
    by_cases hin : Inside g p count
    · rw [reply_ok_inside h hin hfits']
      constructor
      · intro hsome
        exact ⟨hsum, fun hempty => hsome ⟨hempty.1, hempty.2.1, hempty.2.2.2⟩⟩
      · rintro ⟨-, hsome⟩ ⟨hzero, hpart, hmalloc⟩
        exact hsome ⟨hzero, hpart, hin, hmalloc⟩
    · rw [reply_ok_outside h hin, cut_behind_iff hfits']
      exact ⟨fun _ => ⟨hsum, fun hempty => hin hempty.2.2.1⟩, fun _ => Or.inl hin⟩
  · rw [if_neg hfits]
    have hout : ¬ Inside g pos count := by
      rintro ⟨hnonneg, hle⟩
      refine hfits ⟨hnonneg, Int.lt_of_le_of_lt hle ?_⟩
      have hbytes : (0 : Int) < g.bytesPerSector.toNat := by exact_mod_cast g.bytes_pos
      refine Int.mul_lt_mul_of_pos_right ?_ hbytes
      exact_mod_cast g.sectorCount.isLt
    rw [reply_ok_outside h hout]
    exact ⟨fun hok => ⟨hsum, hok⟩, fun hok => hok.2⟩

/-! ## Runs -/

variable {direction : Direction} {geometryError : BitVec 32 → BitVec 32}
  {parts : BlkGeometry → Answers → DfsFd → Span → Reply}

theorem transfer_cases (hparts : ∀ g a file s, PartsOk s (parts g a file s).transfers)
    (hgeometry : a.geometry = .ok g) (hsum : file.pos64.toInt + count.toNat < 2 ^ 63) :
    ∃ reply, transferBlocks direction geometryError parts a file count = some reply ∧
      ReplyCases g a.malloc file.pos64.toInt count reply := by
  have hrejected : ([] : List Transfer) = [] ∧ rtEnomem.toInt < 0 := ⟨rfl, by decide⟩
  unfold transferBlocks
  rw [hgeometry]
  dsimp only
  rw [if_neg (Int.not_le.mpr hsum)]
  by_cases hbehind : CutBehind g file.pos64.toInt count
  · rw [if_pos (behind_iff.mpr hbehind)]
    exact ⟨_, rfl, fun _ => hrejected, fun h => absurd hbehind h, fun h => absurd hbehind h,
      fun h => absurd hbehind h⟩
  · rw [if_neg (mt behind_iff.mp hbehind)]
    by_cases hwhole : WholeBlocks g file.pos64.toInt count
    · rw [if_pos (aligned_iff.mpr hwhole)]
      exact ⟨_, rfl, fun h => absurd h hbehind, fun _ _ => ⟨direction, rfl⟩,
        fun _ h => absurd hwhole h, fun _ h => absurd hwhole h⟩
    · rw [if_neg (mt aligned_iff.mp hwhole)]
      cases hmalloc : a.malloc with
      | false =>
        exact ⟨_, rfl, fun h => absurd h hbehind, fun _ h => absurd h hwhole,
          fun _ _ _ => hrejected, fun _ _ h => by cases h⟩
      | true =>
        exact ⟨_, rfl, fun h => absurd h hbehind, fun _ h => absurd h hwhole,
          fun _ _ h => (by cases h), fun _ _ _ => hparts g a file _⟩

theorem transfer_ok_iff (hparts : ∀ g a file s, PartsOk s (parts g a file s).transfers)
    (herror : ∀ ret : BitVec 32, ret.toInt < 0 → (geometryError ret).toInt < 0) :
    (∃ reply, transferBlocks direction geometryError parts a file count = some reply ∧
      AnswersOk a file count reply) ↔ AnswersFit a file count := by
  unfold AnswersOk AnswersFit
  cases hgeometry : a.geometry with
  | error ret =>
    refine ⟨fun _ => trivial, fun _ => ?_⟩
    unfold transferBlocks
    rw [hgeometry]
    exact ⟨_, rfl, rfl, herror ret.val ret.property⟩
  | ok g =>
    by_cases hsum : file.pos64.toInt + count.toNat < 2 ^ 63
    · have hserved : ∃ reply,
          transferBlocks direction geometryError parts a file count = some reply ∧
            ReplyCases g a.malloc file.pos64.toInt count reply :=
        transfer_cases hparts hgeometry hsum
      obtain ⟨reply, hreply, hcases⟩ := hserved
      have hiff := reply_ok_iff hcases hsum
      constructor
      · rintro ⟨reply', hreply', hok⟩
        obtain rfl := Option.some.inj (hreply.symm.trans hreply')
        exact hiff.mp hok
      · intro hrange
        exact ⟨reply, hreply, hiff.mpr hrange⟩
    · refine ⟨?_, fun hrange => absurd hrange.1 hsum⟩
      rintro ⟨reply, hreply, -⟩
      unfold transferBlocks at hreply
      rw [hgeometry] at hreply
      dsimp only at hreply
      rw [if_pos (Int.not_lt.mp hsum)] at hreply
      cases hreply

theorem request_ok_iff (file : DfsFd) (request : FileRequest) :
    RequestOk file request ↔ RequestFits file request := by
  cases request with
  | seek pos => exact Iff.rfl
  | read count a =>
    show (∃ reply, transferBlocks .read (fun ret => ret) readParts a file count = some reply ∧
      AnswersOk a file count reply) ↔ AnswersFit a file count
    exact transfer_ok_iff (fun _ _ _ _ => read_parts_ok) fun _ h => h
  | write count a =>
    have herror : rtEio.toInt < 0 := by decide
    show (∃ reply, transferBlocks .write (fun _ => rtEio) writeParts a file count = some reply ∧
      AnswersOk a file count reply) ↔ AnswersFit a file count
    exact transfer_ok_iff (fun _ _ _ _ => write_parts_ok) fun _ _ => herror

/-- The requests of a run are right, from whatever positions, exactly if they fit. -/
theorem file_requests_ok_iff (file : DfsFd) (requests : List FileRequest) :
    AllSteps fileStep RequestOk file requests ↔ AllSteps fileStep RequestFits file requests :=
  ⟨fun h => h.imp fun f r => (request_ok_iff f r).mp,
    fun h => h.imp fun f r => (request_ok_iff f r).mpr⟩

/-- A device of 1000 blocks of 512 bytes that does what it is asked for. -/
def smallDevice : Answers where
  geometry := .ok ⟨1000, 512, by decide⟩
  malloc := true
  device := fun _ => 1

/-- Behind `2 ^ 32` blocks, the first block of the device is read. -/
theorem read_behind_device :
    ¬ AllSteps fileStep RequestOk ⟨0, 0⟩
      [.seek (BitVec.ofNat 64 (2 ^ 41)), .read 512 smallDevice] := by
  rintro ⟨-, hrest⟩
  obtain ⟨⟨reply, hreply, hok⟩, -⟩ := hrest _ rfl
  have hout : ¬ Inside ⟨1000, 512, by decide⟩ (2 ^ 41) 512 := by
    rintro ⟨-, hle⟩
    revert hle
    decide
  obtain ⟨hnone, -⟩ := ReplyOk.rejected hok hout
  cases hreply
  cases hnone

end FullhanRtos.BlockDevice
