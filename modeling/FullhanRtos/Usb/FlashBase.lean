import FullhanRtos.Lib.Bytes
import FullhanRtos.Lib.Memory

/-!
# The flash behind the USB application

The CRC of the USB application, and its access to the flash, which reads and writes whole blocks of
512 bytes. `flash_base_read_eq` and `flash_base_write_eq` say that a range is read and written as if
there were no blocks: what stands around it in its blocks is written back as it was.
-/

namespace FullhanRtos.UsbUpdate

open Bytes

/-! ## The CRC -/

def CRC_SEED : BitVec 32 := 0xEDB88320

def crcBit (seed c : BitVec 32) : BitVec 32 :=
  if c &&& 1 ≠ 0 then (c >>> 1) ^^^ seed else c >>> 1

def makeCRCTable (seed : BitVec 32) : List (BitVec 32) :=
  (List.range 256).map fun i => (crcBit seed)^[8] (BitVec.ofNat 32 i)

/-- The entry of the table that a byte selects. -/
def crcIndex (crc : BitVec 32) (b : Byte) : Nat := ((crc ^^^ b.setWidth 32) &&& 0xff).toNat

def calcCRC (crc32Table : List (BitVec 32)) (buf : List Byte) : BitVec 32 :=
  buf.foldl (fun crc b => (crc >>> 8) ^^^ crc32Table.getD (crcIndex crc b) 0) 0xffffffff

-- The check value of this CRC, the sum of the nine digits.
example : calcCRC (makeCRCTable CRC_SEED) [0x31, 0x32, 0x33, 0x34, 0x35, 0x36, 0x37, 0x38, 0x39] =
    0x340bc6d9 := by
  decide +kernel

/-! ## The flash -/

/-- The flash device and whether it is opened. -/
structure FlashBase where
  sFlashBaseInited : Bool
  flash : Nat → Byte

/-- The flash with a range overwritten. -/
def FlashBase.store (base : FlashBase) (addr : Nat) (bytes : List Byte) : FlashBase :=
  { base with flash := Memory.write base.flash addr bytes }

def flashBaseInit (base : FlashBase) : FlashBase := { base with sFlashBaseInited := true }

/-- The blocks around a range: their start, the place of the range in them and their length. -/
def alignOffset (offset : Nat) : Nat := offset / 512 * 512

def remaOffset (offset : Nat) : Nat := offset % 512

def tempSize (offset size : Nat) : Nat := (remaOffset offset + size + 511) % 2 ^ 32 / 512 * 512

def flashBaseRead (base : FlashBase) (offset : Nat) (buffer : List Byte) : List Byte × Nat :=
  if base.sFlashBaseInited then
    let tempBuf := Memory.read base.flash (alignOffset offset) (tempSize offset buffer.length)
    ((tempBuf.drop (remaOffset offset)).take buffer.length, buffer.length)
  else (buffer, 0)

/-- `Flash_Base_Write`: the blocks are read, changed and written back. -/
def flashBaseWrite (base : FlashBase) (offset : Nat) (buffer : List Byte) : FlashBase × Nat :=
  if base.sFlashBaseInited then
    let tempBuf := Memory.read base.flash (alignOffset offset) (tempSize offset buffer.length)
    let tempBuf := Buffer.writeAt tempBuf (remaOffset offset) buffer
    (base.store (alignOffset offset) tempBuf, buffer.length)
  else (base, 0)

/-- A write that lost its power: the blocks have any content. -/
def flashBaseTorn (base : FlashBase) (offset : Nat) (content : List Byte) : FlashBase :=
  base.store (alignOffset offset) content

variable {base : FlashBase} {offset size : Nat} {buffer : List Byte}

theorem flash_store (base : FlashBase) (addr : Nat) (bytes : List Byte) :
    (base.store addr bytes).flash = Memory.write base.flash addr bytes := rfl

theorem inited_store (base : FlashBase) (addr : Nat) (bytes : List Byte) :
    (base.store addr bytes).sFlashBaseInited = base.sFlashBaseInited := rfl

theorem inited_torn (base : FlashBase) (offset : Nat) (content : List Byte) :
    (flashBaseTorn base offset content).sFlashBaseInited = base.sFlashBaseInited := rfl

theorem align_add_rema (offset : Nat) : alignOffset offset + remaOffset offset = offset := by
  unfold alignOffset remaOffset
  omega

theorem rema_lt (offset : Nat) : remaOffset offset < 512 := Nat.mod_lt offset (by decide)

/-- The blocks hold the range. -/
theorem le_temp_size (offset : Nat) (hsize : size + 1022 < 2 ^ 32) :
    remaOffset offset + size ≤ tempSize offset size := by
  have hrema := rema_lt offset
  rw [tempSize, Nat.mod_eq_of_lt (by omega)]
  omega

theorem flash_base_read_eq (hinit : base.sFlashBaseInited = true)
    (hsize : buffer.length + 1022 < 2 ^ 32) :
    flashBaseRead base offset buffer =
      (Memory.read base.flash offset buffer.length, buffer.length) := by
  have hfit := le_temp_size offset hsize
  rw [flashBaseRead, if_pos hinit]
  dsimp only
  rw [Memory.drop_read (by omega), align_add_rema, Memory.take_read (by omega)]

theorem flash_base_write_eq (hinit : base.sFlashBaseInited = true)
    (hsize : buffer.length + 1022 < 2 ^ 32) :
    flashBaseWrite base offset buffer = (base.store offset buffer, buffer.length) := by
  rw [flashBaseWrite, if_pos hinit]
  dsimp only
  -- The bytes before and behind the range are the ones that are there.
  rw [FlashBase.store, Memory.write_patch (le_temp_size offset hsize), align_add_rema]
  rfl

end FullhanRtos.UsbUpdate
