import FullhanRtos.Flash.Sfud

/-!
# Partitions of a flash

The flash abstraction layer of `drivers/flash/fal/src`: the table of partitions, the calls
`fal_partition_read`, `fal_partition_write` and `fal_partition_erase` on them, and the block and
character devices over a partition. Addresses, sizes and results are 32-bit words; a call returns
its result with the accesses to the flash that it made.
-/

namespace FullhanRtos.Fal

open Sfud Nat BitVec

/-! ## The partition table -/

/-- A `fal_flash_dev` with the chip behind it; a chip without a block size is not probed. -/
structure FalFlash where
  len : BitVec 32
  blkSize : BitVec 32
  sfud : SfudFlash
  blkSize_pos : 0 < blkSize.toNat

/-- A `fal_partition`; `userData` is the flash that it is connected to. -/
structure Partition where
  flashName : String
  offset : BitVec 32
  len : BitVec 32
  eraseBlockSize : BitVec 32
  userData : Option FalFlash

/-! ## The calls on a partition -/

/-- The result and the accesses of a call. -/
abbrev Outcome := BitVec 32 × List Access

/-- The operations of the adapter return the size that they are given, or -1. -/
def opsResult (size : BitVec 32) (effect : Effect) : Outcome :=
  (if effect.1 then size else -1, effect.2)

/-- What the three calls have in common: the check of the range, and the operation of the flash. -/
def falPartition (part : Partition) (addr size : BitVec 32)
    (ops : SfudFlash → Nat → Nat → Effect) : Outcome :=
  if part.len < addr + size then (-1, [])
  else
    match part.userData with
    | none => (-1, [])
    | some flash => opsResult size (ops flash.sfud (part.offset + addr).toNat size.toNat)

variable (eraseOk ok : Nat → Bool)

def falPartitionRead (part : Partition) (addr size : BitVec 32) : Outcome :=
  falPartition part addr size fun flash => sfudRead flash ok

def falPartitionWrite (part : Partition) (addr size : BitVec 32) : Outcome :=
  falPartition part addr size fun flash => sfudWrite flash ok

def falPartitionErase (part : Partition) (addr size : BitVec 32) : Outcome :=
  falPartition part addr size fun flash => sfudErase flash eraseOk part.eraseBlockSize

def falPartitionEraseAll (part : Partition) : Outcome :=
  falPartitionErase eraseOk part 0 part.len

/-! ## The block device -/

structure BlkDevice where
  part : Partition
  bytesPerSector : BitVec 32
  blockSize : BitVec 32

def falBlkDeviceCreate (part : Partition) (flash : FalFlash) : BlkDevice where
  part := part
  bytesPerSector := flash.blkSize
  blockSize := flash.blkSize

def blkDevRead (dev : BlkDevice) (pos size : BitVec 32) : Outcome :=
  let (ret, accesses) := falPartitionRead ok dev.part (pos * dev.blockSize) (size * dev.blockSize)
  (if ret = size * dev.blockSize then size else 0, accesses)

def blkDevWrite (dev : BlkDevice) (pos size : BitVec 32) : Outcome :=
  let phyPos := pos * dev.bytesPerSector
  let phySize := size * dev.bytesPerSector
  let (ret, erased) := falPartitionErase eraseOk dev.part phyPos phySize
  if ret = phySize then
    let (ret, written) := falPartitionWrite ok dev.part phyPos phySize
    (if ret = phySize then size else 0, erased ++ written)
  else (0, erased)

def blkDevErase (dev : BlkDevice) (startAddr endAddr : BitVec 32) : Outcome :=
  if endAddr < startAddr then (-1, [])
  else
    let endAddr := if endAddr = startAddr then endAddr + 1 else endAddr
    let (ret, erased) := falPartitionErase eraseOk dev.part (startAddr * dev.bytesPerSector)
      ((endAddr - startAddr) * dev.bytesPerSector)
    (if ret.toInt < 0 then -1 else 0, erased)

/-! ## The character device -/

def charDevRead (part : Partition) (pos size : BitVec 32) : Outcome :=
  let size := if part.len < pos + size then part.len - pos else size
  let (ret, accesses) := falPartitionRead ok part pos size
  (if ret = size then ret else 0, accesses)

/-- A write to the start erases the partition, and is the one that is not cut to it. -/
def charDevWrite (part : Partition) (pos size : BitVec 32) : Outcome :=
  let erased := if pos = 0 then (falPartitionEraseAll eraseOk part).2 else []
  let size := if pos ≠ 0 ∧ part.len < pos + size then part.len - pos else size
  let (ret, written) := falPartitionWrite ok part pos size
  (if ret = size then ret else 0, erased ++ written)

/-! ## Requests -/

/-- A request to a partition, its block device or its character device. -/
inductive Request where
  | read (addr size : BitVec 32)
  | write (addr size : BitVec 32)
  | erase (addr size : BitVec 32)
  | blkRead (pos size : BitVec 32)
  | blkWrite (pos size : BitVec 32)
  | blkErase (startAddr endAddr : BitVec 32)
  | charRead (pos size : BitVec 32)
  | charWrite (pos size : BitVec 32)

def Request.run (part : Partition) (flash : FalFlash) : Request → Outcome
  | .read addr size => falPartitionRead ok part addr size
  | .write addr size => falPartitionWrite ok part addr size
  | .erase addr size => falPartitionErase eraseOk part addr size
  | .blkRead pos size => blkDevRead ok (falBlkDeviceCreate part flash) pos size
  | .blkWrite pos size => blkDevWrite eraseOk ok (falBlkDeviceCreate part flash) pos size
  | .blkErase startAddr endAddr =>
    blkDevErase eraseOk (falBlkDeviceCreate part flash) startAddr endAddr
  | .charRead pos size => charDevRead ok part pos size
  | .charWrite pos size => charDevWrite eraseOk ok part pos size

/-- The range that a request names lies in the partition. -/
def Request.Inside (part : Partition) (flash : FalFlash) : Request → Prop
  | .read addr size | .write addr size | .erase addr size
  | .charRead addr size | .charWrite addr size => addr.toNat + size.toNat ≤ part.len.toNat
  | .blkRead pos size | .blkWrite pos size =>
    (pos.toNat + size.toNat) * flash.blkSize.toNat ≤ part.len.toNat
  | .blkErase startAddr endAddr =>
    startAddr.toNat ≤ endAddr.toNat ∧
      max endAddr.toNat (startAddr.toNat + 1) * flash.blkSize.toNat ≤ part.len.toNat

def Request.errorResult : Request → BitVec 32
  | .read .. | .write .. | .erase .. | .blkErase .. => -1
  | .blkRead .. | .blkWrite .. | .charRead .. | .charWrite .. => 0

def Request.OfChar : Request → Prop
  | .charRead .. | .charWrite .. => True
  | _ => False

def Partition.WritesPairs (part : Partition) : Prop :=
  ∃ flash, part.userData = some flash ∧ flash.sfud.writeMode &&& sfudWmAai ≠ 0

/-- The numbers of a request fit into 32 bits: no sum and no product of it wraps, no block size is
the -1 of an error, no position is behind the partition, and pairs of bytes are not written
without a byte. -/
def Request.Fits (part : Partition) (flash : FalFlash) : Request → Prop
  | .read addr size | .erase addr size => addr.toNat + size.toNat < 2 ^ 32
  | .write addr size => addr.toNat + size.toNat < 2 ^ 32 ∧ (part.WritesPairs → 0 < size.toNat)
  | .blkRead pos size =>
    (pos.toNat + size.toNat) * flash.blkSize.toNat < 2 ^ 32 ∧
      size.toNat * flash.blkSize.toNat ≠ 2 ^ 32 - 1
  | .blkWrite pos size =>
    (pos.toNat + size.toNat) * flash.blkSize.toNat < 2 ^ 32 ∧
      size.toNat * flash.blkSize.toNat ≠ 2 ^ 32 - 1 ∧ (part.WritesPairs → 0 < size.toNat)
  | .blkErase startAddr endAddr =>
    max endAddr.toNat (startAddr.toNat + 1) * flash.blkSize.toNat < 2 ^ 32
  | .charRead pos size => pos.toNat ≤ part.len.toNat ∧ pos.toNat + size.toNat < 2 ^ 32
  | .charWrite pos size =>
    pos.toNat ≤ part.len.toNat ∧ pos.toNat + size.toNat < 2 ^ 32 ∧
      (part.WritesPairs → pos.toNat < part.len.toNat ∧ 0 < size.toNat)

/-! ## What a call touches -/

/-- Reads and programming stay in a range; an erase is of a whole block with an address of it. -/
structure Confined (lo hi : Nat) (a : Access) : Prop where
  bytes : a.kind ≠ .erase → lo ≤ a.start ∧ a.start + a.length ≤ hi
  block : a.kind = .erase →
    a.length ∣ a.start ∧ ∃ x, lo ≤ x ∧ x < hi ∧ a.start ≤ x ∧ x < a.start + a.length

variable {eraseOk ok} {part : Partition} {flash : FalFlash} {addr size : BitVec 32}
  {lo hi lo' hi' : Nat} {accesses : List Access}

theorem Confined.mono {a : Access} (h : Confined lo hi a) (hlo : lo' ≤ lo) (hhi : hi ≤ hi') :
    Confined lo' hi' a where
  bytes hkind := ⟨hlo.trans (h.bytes hkind).1, (h.bytes hkind).2.trans hhi⟩
  block hkind := by
    obtain ⟨hdvd, x, hx, hx', hblock⟩ := h.block hkind
    exact ⟨hdvd, x, hlo.trans hx, hx'.trans_le hhi, hblock⟩

theorem aligned_block_inside {n start x : Nat} (hstart : n ∣ start) (hlo : n ∣ lo) (hhi : n ∣ hi)
    (hx : lo ≤ x) (hx' : x < hi) (hblock : start ≤ x) (hblock' : x < start + n) :
    lo ≤ start ∧ start + n ≤ hi := by
  obtain ⟨s, rfl⟩ := hstart
  obtain ⟨l, rfl⟩ := hlo
  obtain ⟨h, rfl⟩ := hhi
  have hbelow : l < s + 1 := by
    have hlt : n * l < n * (s + 1) := by
      exact hx.trans_lt hblock'
    exact Nat.lt_of_mul_lt_mul_left hlt
  have habove : s < h := Nat.lt_of_mul_lt_mul_left (hblock.trans_lt hx')
  refine ⟨Nat.mul_le_mul_left n (Nat.lt_succ_iff.mp hbelow), ?_⟩
  exact Nat.mul_le_mul_left n habove

/-- In a range that is aligned to its erase blocks everything stays in the range. -/
theorem Confined.inside {a : Access} (h : Confined lo hi a) (hlo : a.length ∣ lo)
    (hhi : a.length ∣ hi) : lo ≤ a.start ∧ a.start + a.length ≤ hi := by
  by_cases hkind : a.kind = .erase
  · obtain ⟨hdvd, x, hx, hx', hblock, hblock'⟩ := h.block hkind
    exact aligned_block_inside hdvd hlo hhi hx hx' hblock hblock'
  · exact h.bytes hkind

theorem confined_of_within {kind : AccessKind} (h : Within kind lo hi accesses)
    (hkind : kind ≠ .erase) : ∀ a ∈ accesses, Confined lo hi a := by
  intro a ha
  obtain ⟨hof, hstart, hend⟩ := h a ha
  exact ⟨fun _ => ⟨hstart, hend⟩, fun herase => absurd (hof.symm.trans herase) hkind⟩

theorem confined_of_blocks (h : Blocks lo hi accesses) : ∀ a ∈ accesses, Confined lo hi a := by
  intro a ha
  obtain ⟨hof, hblock⟩ := h a ha
  exact ⟨fun hkind => absurd hof hkind, fun _ => hblock⟩

def Outcome.InPartition (part : Partition) (outcome : Outcome) : Prop :=
  ∀ a ∈ outcome.2, Confined part.offset.toNat (part.offset.toNat + part.len.toNat) a

/-! ## The calls on a partition -/

theorem fal_partition_in_partition {ops : SfudFlash → Nat → Nat → Effect}
    (hend : part.offset.toNat + part.len.toNat < 2 ^ 32)
    (hfits : addr.toNat + size.toNat < 2 ^ 32)
    (hops : ∀ flash, part.userData = some flash → ∀ start, start + size.toNat ≤ 2 ^ 32 →
      ∀ a ∈ (ops flash.sfud start size.toNat).2, Confined start (start + size.toNat) a) :
    (falPartition part addr size ops).InPartition part := by
  unfold falPartition
  split
  · exact nofun
  · rename_i hcheck
    split
    · exact nofun
    · rename_i flash hflash
      have hinside : addr.toNat + size.toNat ≤ part.len.toNat := by
        have hsum : (addr + size).toNat = addr.toNat + size.toNat := by
          exact mod_eq_of_lt hfits
        rw [← hsum]
        exact not_lt.mp hcheck
      have hstart : (part.offset + addr).toNat = part.offset.toNat + addr.toNat := by
        exact mod_eq_of_lt (by omega)
      intro a ha
      have hconfined := hops flash hflash (part.offset + addr).toNat (by omega) a ha
      exact hconfined.mono (by omega) (by omega)

theorem fal_partition_refuses {ops : SfudFlash → Nat → Nat → Effect}
    (hfits : addr.toNat + size.toNat < 2 ^ 32)
    (hout : part.len.toNat < addr.toNat + size.toNat) :
    falPartition part addr size ops = (-1, []) := by
  have hcheck : part.len < addr + size := by
    show part.len.toNat < (addr + size).toNat
    rw [toNat_add, mod_eq_of_lt hfits]
    exact hout
  rw [falPartition, if_pos hcheck]

theorem fal_partition_read_in_partition (ok : Nat → Bool)
    (hend : part.offset.toNat + part.len.toNat < 2 ^ 32)
    (hfits : addr.toNat + size.toNat < 2 ^ 32) :
    (falPartitionRead ok part addr size).InPartition part :=
  fal_partition_in_partition hend hfits fun _ _ _ _ =>
    confined_of_within sfud_read_within nofun

theorem fal_partition_write_in_partition (ok : Nat → Bool)
    (hend : part.offset.toNat + part.len.toNat < 2 ^ 32)
    (hfits : addr.toNat + size.toNat < 2 ^ 32) (hpairs : part.WritesPairs → 0 < size.toNat) :
    (falPartitionWrite ok part addr size).InPartition part :=
  fal_partition_in_partition hend hfits fun flash hflash _ hstart =>
    confined_of_within
      (sfud_write_within hstart fun haai => hpairs ⟨flash, hflash, haai⟩) nofun

theorem fal_partition_erase_in_partition (eraseOk : Nat → Bool)
    (hend : part.offset.toNat + part.len.toNat < 2 ^ 32)
    (hfits : addr.toNat + size.toNat < 2 ^ 32) :
    (falPartitionErase eraseOk part addr size).InPartition part :=
  fal_partition_in_partition hend hfits fun _ _ _ hstart =>
    confined_of_blocks (sfud_erase_blocks part.eraseBlockSize hstart)

theorem fal_partition_erase_all_in_partition (eraseOk : Nat → Bool)
    (hend : part.offset.toNat + part.len.toNat < 2 ^ 32) :
    (falPartitionEraseAll eraseOk part).InPartition part :=
  fal_partition_erase_in_partition eraseOk hend (by
    show 0 + part.len.toNat < 2 ^ 32
    omega)

/-! ## The devices -/

variable {pos startAddr endAddr : BitVec 32}

theorem sectors_range (pos size : BitVec 32) (flash : FalFlash)
    (hfits : (pos.toNat + size.toNat) * flash.blkSize.toNat < 2 ^ 32) :
    (pos * flash.blkSize).toNat = pos.toNat * flash.blkSize.toNat ∧
      (size * flash.blkSize).toNat = size.toNat * flash.blkSize.toNat ∧
      (pos * flash.blkSize).toNat + (size * flash.blkSize).toNat =
        (pos.toNat + size.toNat) * flash.blkSize.toNat := by
  have hsum := Nat.add_mul pos.toNat size.toNat flash.blkSize.toNat
  have hpos : (pos * flash.blkSize).toNat = pos.toNat * flash.blkSize.toNat := by
    exact mod_eq_of_lt (by omega)
  have hsize : (size * flash.blkSize).toNat = size.toNat * flash.blkSize.toNat := by
    exact mod_eq_of_lt (by omega)
  exact ⟨hpos, hsize, by rw [hpos, hsize, hsum]⟩

theorem blk_dev_read_in_partition (hend : part.offset.toNat + part.len.toNat < 2 ^ 32)
    (hfits : (pos.toNat + size.toNat) * flash.blkSize.toNat < 2 ^ 32) :
    (blkDevRead ok (falBlkDeviceCreate part flash) pos size).InPartition part := by
  obtain ⟨-, -, hrange⟩ := sectors_range pos size flash hfits
  exact fal_partition_read_in_partition ok hend (hrange ▸ hfits)

/-- A size in bytes that is not the -1 of an error. -/
theorem minus_one_ne_size (hsize : (size * flash.blkSize).toNat = size.toNat * flash.blkSize.toNat)
    (hone : size.toNat * flash.blkSize.toNat ≠ 2 ^ 32 - 1) :
    (-1 : BitVec 32) ≠ size * flash.blkSize := by
  intro heq
  exact hone (hsize.symm.trans (congrArg BitVec.toNat heq).symm)

theorem blk_dev_read_refuses
    (hfits : (pos.toNat + size.toNat) * flash.blkSize.toNat < 2 ^ 32)
    (hone : size.toNat * flash.blkSize.toNat ≠ 2 ^ 32 - 1)
    (hout : part.len.toNat < (pos.toNat + size.toNat) * flash.blkSize.toNat) :
    blkDevRead ok (falBlkDeviceCreate part flash) pos size = (0, []) := by
  obtain ⟨-, hsize, hrange⟩ := sectors_range pos size flash hfits
  have hrefuses : falPartitionRead ok part (pos * flash.blkSize) (size * flash.blkSize) =
      (-1, []) :=
    fal_partition_refuses (hrange ▸ hfits) (hrange ▸ hout)
  simp only [blkDevRead, falBlkDeviceCreate, hrefuses]
  rw [if_neg (minus_one_ne_size hsize hone)]

theorem blk_dev_write_in_partition (hend : part.offset.toNat + part.len.toNat < 2 ^ 32)
    (hfits : (pos.toNat + size.toNat) * flash.blkSize.toNat < 2 ^ 32)
    (hpairs : part.WritesPairs → 0 < size.toNat) :
    (blkDevWrite eraseOk ok (falBlkDeviceCreate part flash) pos size).InPartition part := by
  obtain ⟨-, hsize, hrange⟩ := sectors_range pos size flash hfits
  have herased := fal_partition_erase_in_partition eraseOk hend (hrange ▸ hfits)
  have hwritten : (falPartitionWrite ok part (pos * flash.blkSize)
      (size * flash.blkSize)).InPartition part := by
    refine fal_partition_write_in_partition ok hend (hrange ▸ hfits) fun h => ?_
    rw [hsize]
    exact Nat.mul_pos (hpairs h) flash.blkSize_pos
  unfold blkDevWrite falBlkDeviceCreate
  dsimp only
  split
  · exact List.forall_mem_append.mpr ⟨herased, hwritten⟩
  · exact herased

theorem blk_dev_write_refuses
    (hfits : (pos.toNat + size.toNat) * flash.blkSize.toNat < 2 ^ 32)
    (hone : size.toNat * flash.blkSize.toNat ≠ 2 ^ 32 - 1)
    (hout : part.len.toNat < (pos.toNat + size.toNat) * flash.blkSize.toNat) :
    blkDevWrite eraseOk ok (falBlkDeviceCreate part flash) pos size = (0, []) := by
  obtain ⟨-, hsize, hrange⟩ := sectors_range pos size flash hfits
  have hrefuses : falPartitionErase eraseOk part (pos * flash.blkSize) (size * flash.blkSize) =
      (-1, []) :=
    fal_partition_refuses (hrange ▸ hfits) (hrange ▸ hout)
  simp only [blkDevWrite, falBlkDeviceCreate, hrefuses]
  rw [if_neg (minus_one_ne_size hsize hone)]

/-- The range in bytes of an erase from a sector to another; from a sector to itself it is that
sector. -/
theorem erase_sectors_range (flash : FalFlash) (hle : startAddr.toNat ≤ endAddr.toNat)
    (hfits : max endAddr.toNat (startAddr.toNat + 1) * flash.blkSize.toNat < 2 ^ 32) :
    (startAddr * flash.blkSize).toNat +
        (((if endAddr = startAddr then endAddr + 1 else endAddr) - startAddr) *
          flash.blkSize).toNat =
      max endAddr.toNat (startAddr.toNat + 1) * flash.blkSize.toNat := by
  have hlast : max endAddr.toNat (startAddr.toNat + 1) < 2 ^ 32 :=
    (Nat.le_mul_of_pos_right _ flash.blkSize_pos).trans_lt hfits
  have hend : (if endAddr = startAddr then endAddr + 1 else endAddr).toNat =
      max endAddr.toNat (startAddr.toNat + 1) := by
    split
    · rename_i heq
      subst heq
      rw [toNat_add, Nat.max_eq_right (by omega)]
      exact mod_eq_of_lt (by
        show endAddr.toNat + 1 < 2 ^ 32
        omega)
    · rename_i hne
      have hne' : endAddr.toNat ≠ startAddr.toNat := fun h => hne (eq_of_toNat_eq h)
      omega
  generalize (if endAddr = startAddr then endAddr + 1 else endAddr) = last at hend ⊢
  rw [← hend] at hfits hlast ⊢
  have hcount : (last - startAddr).toNat = last.toNat - startAddr.toNat := by
    refine toNat_sub_of_le ?_
    show startAddr.toNat ≤ last.toNat
    omega
  have hsum : startAddr.toNat + (last - startAddr).toNat = last.toNat := by omega
  obtain ⟨-, -, hrange⟩ := sectors_range startAddr (last - startAddr) flash (hsum ▸ hfits)
  rw [hrange, hsum]

theorem blk_dev_erase_in_partition (hend : part.offset.toNat + part.len.toNat < 2 ^ 32)
    (hfits : max endAddr.toNat (startAddr.toNat + 1) * flash.blkSize.toNat < 2 ^ 32) :
    (blkDevErase eraseOk (falBlkDeviceCreate part flash) startAddr endAddr).InPartition part := by
  unfold blkDevErase falBlkDeviceCreate
  split
  · exact nofun
  · rename_i hle
    have hrange := erase_sectors_range flash (not_lt.mp hle) hfits
    exact fal_partition_erase_in_partition eraseOk hend (hrange ▸ hfits)

theorem blk_dev_erase_refuses
    (hfits : max endAddr.toNat (startAddr.toNat + 1) * flash.blkSize.toNat < 2 ^ 32)
    (hout : startAddr.toNat ≤ endAddr.toNat →
      part.len.toNat < max endAddr.toNat (startAddr.toNat + 1) * flash.blkSize.toNat) :
    blkDevErase eraseOk (falBlkDeviceCreate part flash) startAddr endAddr = (-1, []) := by
  unfold blkDevErase falBlkDeviceCreate
  dsimp only
  split
  · rfl
  · rename_i hle
    have hle' : startAddr.toNat ≤ endAddr.toNat := not_lt.mp hle
    have hrange := erase_sectors_range flash hle' hfits
    have hrefuses : falPartitionErase eraseOk part (startAddr * flash.blkSize)
        (((if endAddr = startAddr then endAddr + 1 else endAddr) - startAddr) * flash.blkSize) =
        (-1, []) :=
      fal_partition_refuses (hrange ▸ hfits) (hrange ▸ hout hle')
    rw [hrefuses]
    rfl

theorem cut_size (hpos : pos.toNat ≤ part.len.toNat) :
    pos.toNat + (part.len - pos).toNat = part.len.toNat ∧ pos + (part.len - pos) = part.len := by
  have hsub : (part.len - pos).toNat = part.len.toNat - pos.toNat := toNat_sub_of_le hpos
  refine ⟨by omega, ?_⟩
  rw [add_comm, BitVec.sub_add_cancel]

theorem cut_fits {n : BitVec 32} (hpos : pos.toNat ≤ part.len.toNat)
    (hfits : pos.toNat + size.toNat < 2 ^ 32) (hn : n = part.len - pos ∨ n = size) :
    pos.toNat + n.toNat < 2 ^ 32 := by
  rcases hn with rfl | rfl
  · rw [(cut_size hpos).1]
    exact part.len.isLt
  · exact hfits

theorem char_dev_read_in_partition (hend : part.offset.toNat + part.len.toNat < 2 ^ 32)
    (hpos : pos.toNat ≤ part.len.toNat) (hfits : pos.toNat + size.toNat < 2 ^ 32) :
    (charDevRead ok part pos size).InPartition part :=
  fal_partition_read_in_partition ok hend (cut_fits hpos hfits (ite_eq_or_eq _ _ _))

theorem char_dev_read_cut (hfits : pos.toNat + size.toNat < 2 ^ 32)
    (hout : part.len.toNat < pos.toNat + size.toNat) :
    charDevRead ok part pos size = charDevRead ok part pos (part.len - pos) := by
  have hcut : part.len < pos + size := by
    show part.len.toNat < (pos + size).toNat
    rw [toNat_add, mod_eq_of_lt hfits]
    exact hout
  simp only [charDevRead, if_pos hcut, ite_self]

theorem char_dev_write_in_partition (hend : part.offset.toNat + part.len.toNat < 2 ^ 32)
    (hpos : pos.toNat ≤ part.len.toNat) (hfits : pos.toNat + size.toNat < 2 ^ 32)
    (hpairs : part.WritesPairs → pos.toNat < part.len.toNat ∧ 0 < size.toNat) :
    (charDevWrite eraseOk ok part pos size).InPartition part := by
  refine List.forall_mem_append.mpr ⟨?_, ?_⟩
  · split
    · exact fal_partition_erase_all_in_partition eraseOk hend
    · exact nofun
  · have hcut := ite_eq_or_eq (pos ≠ 0 ∧ part.len < pos + size) (part.len - pos) size
    generalize (if pos ≠ 0 ∧ part.len < pos + size then part.len - pos else size) = n at hcut ⊢
    refine fal_partition_write_in_partition ok hend (cut_fits hpos hfits hcut) fun h => ?_
    obtain ⟨hbefore, hsize⟩ := hpairs h
    rcases hcut with rfl | rfl
    · have hleft := (cut_size hpos).1
      omega
    · exact hsize

/-- A write over the end of the partition from behind its start is the write up to its end. -/
theorem char_dev_write_cut (hfits : pos.toNat + size.toNat < 2 ^ 32)
    (hout : part.len.toNat < pos.toNat + size.toNat) (hne : pos ≠ 0) :
    charDevWrite eraseOk ok part pos size = charDevWrite eraseOk ok part pos (part.len - pos) := by
  have hcut : part.len < pos + size := by
    show part.len.toNat < (pos + size).toNat
    rw [toNat_add, mod_eq_of_lt hfits]
    exact hout
  simp only [charDevWrite, if_pos (And.intro hne hcut), ite_self]

/-! ## All requests -/

theorem request_in_partition (hend : part.offset.toNat + part.len.toNat < 2 ^ 32) {r : Request}
    (hfits : r.Fits part flash) : (r.run eraseOk ok part flash).InPartition part := by
  cases r with
  | read addr size => exact fal_partition_read_in_partition ok hend hfits
  | write addr size => exact fal_partition_write_in_partition ok hend hfits.1 hfits.2
  | erase addr size => exact fal_partition_erase_in_partition eraseOk hend hfits
  | blkRead pos size => exact blk_dev_read_in_partition hend hfits.1
  | blkWrite pos size => exact blk_dev_write_in_partition hend hfits.1 hfits.2.2
  | blkErase startAddr endAddr => exact blk_dev_erase_in_partition hend hfits
  | charRead pos size => exact char_dev_read_in_partition hend hfits.1 hfits.2
  | charWrite pos size => exact char_dev_write_in_partition hend hfits.1 hfits.2.1 hfits.2.2

theorem request_refused {r : Request} (hfits : r.Fits part flash) (hout : ¬ r.Inside part flash)
    (hchar : ¬ r.OfChar) : r.run eraseOk ok part flash = (r.errorResult, []) := by
  cases r with
  | read addr size =>
    show falPartitionRead ok part addr size = (-1, [])
    exact fal_partition_refuses hfits (Nat.lt_of_not_le hout)
  | write addr size =>
    show falPartitionWrite ok part addr size = (-1, [])
    exact fal_partition_refuses hfits.1 (Nat.lt_of_not_le hout)
  | erase addr size =>
    show falPartitionErase eraseOk part addr size = (-1, [])
    exact fal_partition_refuses hfits (Nat.lt_of_not_le hout)
  | blkRead pos size => exact blk_dev_read_refuses hfits.1 hfits.2 (Nat.lt_of_not_le hout)
  | blkWrite pos size => exact blk_dev_write_refuses hfits.1 hfits.2.1 (Nat.lt_of_not_le hout)
  | blkErase startAddr endAddr =>
    refine blk_dev_erase_refuses hfits fun hle => Nat.lt_of_not_le fun hin => ?_
    exact hout ⟨hle, hin⟩
  | charRead pos size => exact absurd trivial hchar
  | charWrite pos size => exact absurd trivial hchar

/-- A request whose numbers fit touches only its partition, except for the erase blocks that reach
over its ends. Outside of the partition it is refused before it touches the flash, and on the
character device it is cut to the partition. -/
theorem requests_stay_in_partition (eraseOk ok : Nat → Bool) (part : Partition) (flash : FalFlash)
    (r : Request) (hend : part.offset.toNat + part.len.toNat < 2 ^ 32)
    (hfits : r.Fits part flash) :
    (∀ a ∈ (r.run eraseOk ok part flash).2,
      Confined part.offset.toNat (part.offset.toNat + part.len.toNat) a ∧
        (a.length ∣ part.offset.toNat → a.length ∣ part.offset.toNat + part.len.toNat →
          part.offset.toNat ≤ a.start ∧ a.start + a.length ≤ part.offset.toNat + part.len.toNat)) ∧
    (¬ r.Inside part flash → ¬ r.OfChar → r.run eraseOk ok part flash = (r.errorResult, [])) ∧
    (¬ r.Inside part flash → ∀ pos size, r = .charRead pos size →
      r.run eraseOk ok part flash =
        (Request.charRead pos (part.len - pos)).run eraseOk ok part flash) ∧
    (¬ r.Inside part flash → ∀ pos size, r = .charWrite pos size → pos ≠ 0 →
      r.run eraseOk ok part flash =
        (Request.charWrite pos (part.len - pos)).run eraseOk ok part flash) := by
  refine ⟨fun a ha => ?_, request_refused hfits, ?_, ?_⟩
  · have hconfined := request_in_partition hend hfits a ha
    exact ⟨hconfined, hconfined.inside⟩
  · rintro hout pos size rfl
    exact char_dev_read_cut hfits.2 (Nat.lt_of_not_le hout)
  · rintro hout pos size rfl hne
    exact char_dev_write_cut hfits.2.1 (Nat.lt_of_not_le hout) hne

/-- A chip of 64 KiB in erase blocks of 4 KiB. -/
def someChip : SfudFlash where
  capacity := 0x10000
  writeMode := sfudWmPage256b
  eraseGran := 0x1000
  eraser := none
  capacity_pos := by decide
  eraseGran_pos := by decide
  eraser_pos := nofun

def someFlash : FalFlash where
  len := 0x10000
  blkSize := 0x1000
  sfud := someChip
  blkSize_pos := by decide

/-- A partition that begins and ends within an erase block. -/
def somePart : Partition where
  flashName := "flash"
  offset := 0x1800
  len := 0x1000
  eraseBlockSize := 0
  userData := some someFlash

theorem write_stays_in_partition :
    somePart.offset.toNat + somePart.len.toNat < 2 ^ 32 ∧
      (Request.charWrite 0xF00 0x200).Fits somePart someFlash ∧
      ((Request.charWrite 0xF00 0x200).run (fun _ => true) (fun _ => true) somePart someFlash).2 =
        [⟨.program, 0x2700, 0x100⟩] ∧
      (¬ (Request.charWrite 0xF00 0x200).Inside somePart someFlash →
        (Request.charWrite 0xF00 0x200).run (fun _ => true) (fun _ => true) somePart someFlash =
          (Request.charWrite 0xF00 (somePart.len - 0xF00)).run (fun _ => true) (fun _ => true)
            somePart someFlash) := by
  have hend : somePart.offset.toNat + somePart.len.toNat < 2 ^ 32 := by decide
  have hfits : (Request.charWrite 0xF00 0x200).Fits somePart someFlash := by
    refine ⟨by decide, by decide, ?_⟩
    rintro ⟨flash, hflash, haai⟩
    obtain rfl := Option.some.inj hflash
    exact absurd rfl haai
  refine ⟨hend, hfits, by decide +kernel, fun hout => ?_⟩
  exact (requests_stay_in_partition (fun _ => true) (fun _ => true) somePart someFlash
    (.charWrite 0xF00 0x200) hend hfits).2.2.2 hout _ _ rfl (by decide)

/-- A read over the end of the partition on the character device gives the byte that is inside, and
an erase of one byte erases bytes before the partition. -/
theorem read_over_end_not_refused :
    ¬ (Request.charRead 0xFFF 2).Inside somePart someFlash ∧
      (Request.charRead 0xFFF 2).run (fun _ => true) (fun _ => true) somePart someFlash =
        (1, [⟨.read, 0x27FF, 1⟩]) ∧
      (Request.erase 0 1).Inside somePart someFlash ∧
      (Request.erase 0 1).run (fun _ => true) (fun _ => true) somePart someFlash =
        (1, [⟨.erase, 0x1000, 0x1000⟩]) := by
  have hover : ¬ 0xFFF + 2 ≤ 0x1000 := by omega
  have hbyte : 0 + 1 ≤ 0x1000 := by omega
  exact ⟨hover, by decide +kernel, hbyte, by decide +kernel⟩

end FullhanRtos.Fal
