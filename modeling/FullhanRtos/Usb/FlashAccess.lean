import FullhanRtos.Usb.FlashBase

/-!
# Flash accesses that do not complete

`Flash_Base_Read` and `Flash_Base_Write` with a device that may fail or transfer less than it was
asked for, a `malloc` that may fail and an `lseek` that refuses a negative offset.
`flash_base_write_complete` says that a write is that of `Usb.FlashBase` when all goes well, and
`write_ok_iff` for which offsets, sizes and outcomes it writes the range and nothing else.
-/

namespace FullhanRtos.FlashAccess

open Bytes List BitVec Memory List
open UsbUpdate (alignOffset remaOffset tempSize)

/-- The descriptor `flash_fd`, with `sFlashBaseInited` and the flash behind it. -/
structure FlashFile where
  inited : Bool
  flash : Nat → Byte
  pos : Nat

/-- What becomes of an access: whether `malloc` succeeds, and how many bytes the device reads and
writes, if it does not fail. -/
structure Outcome where
  malloc : Bool
  read : Option Nat
  write : Option Nat

/-- `lseek` with `SEEK_SET`. `off_t` is signed, and a negative offset is refused. -/
def FlashFile.lseek (file : FlashFile) (offset : Nat) : FlashFile :=
  if offset < 2 ^ 31 then { file with pos := offset } else file

/-- `read` of `count` bytes into a buffer, of which the device transfers `n` at most. -/
def FlashFile.read (file : FlashFile) (count n : Nat) (tempBuf : List Byte) :
    List Byte × FlashFile :=
  let done := min n count
  (Memory.read file.flash file.pos done ++ tempBuf.drop done,
    { file with pos := file.pos + done })

def FlashFile.write (file : FlashFile) (n : Nat) (tempBuf : List Byte) : FlashFile :=
  let done := min n tempBuf.length
  { file with
    flash := Memory.write file.flash file.pos (tempBuf.take done)
    pos := file.pos + done }

/-- `-ENOMEM` and `-EIO` as they are returned. -/
def enomem : BitVec 32 := -12
def eio : BitVec 32 := -5

def flashBaseRead (file : FlashFile) (offset size : BitVec 32) (buffer block : List Byte)
    (outcome : Outcome) : Option (List Byte × FlashFile × BitVec 32) :=
  if !file.inited then some (buffer, file, 0)
  else
    let count := tempSize offset.toNat size.toNat
    let file := file.lseek (alignOffset offset.toNat)
    if !outcome.malloc then some (buffer, file, enomem)
    else
      match outcome.read with
      | none => some (buffer, file, eio)
      | some n =>
        let (tempBuf, file) := file.read count n block
        if count < remaOffset offset.toNat + size.toNat then none
        else some ((tempBuf.drop (remaOffset offset.toNat)).take size.toNat, file, size)

def flashBaseWrite (file : FlashFile) (offset size : BitVec 32) (buffer block : List Byte)
    (outcome : Outcome) : Option (FlashFile × BitVec 32) :=
  if !file.inited then some (file, 0)
  else
    let count := tempSize offset.toNat size.toNat
    let file := file.lseek (alignOffset offset.toNat)
    if !outcome.malloc then some (file, enomem)
    else
      match outcome.read with
      | none => some (file, eio)
      | some n =>
        let (tempBuf, file) := file.read count n block
        if count < remaOffset offset.toNat + size.toNat then none
        else
          let tempBuf := Buffer.writeAt tempBuf (remaOffset offset.toNat) buffer
          let file := file.lseek (alignOffset offset.toNat)
          match outcome.write with
          | none => some (file, eio)
          | some m => some (file.write m tempBuf, size)

/-! ## What is asked for -/

def InRange (offset size : BitVec 32) (addr : Nat) : Prop :=
  offset.toInt ≤ addr ∧ (addr : Int) < offset.toInt + size.toNat

def Holds (flash : Nat → Byte) (offset : BitVec 32) (buffer : List Byte) : Prop :=
  ∀ i < buffer.length, ∃ addr : Nat, (addr : Int) = offset.toInt + i ∧
    buffer[i]? = some (flash addr)

/-- Whatever is in the flash, in the buffer and in the new blocks: a write changes nothing outside
of the range, and if it returns the size, the range has the bytes of the buffer, and a read that
returns the size as well gives them back. -/
def WriteOk (offset size : BitVec 32) (outcome after : Outcome) : Prop :=
  ∀ (file : FlashFile) (buffer block : List Byte), buffer.length = size.toNat →
    block.length = tempSize offset.toNat size.toNat →
    ∃ file' ret, flashBaseWrite file offset size buffer block outcome = some (file', ret) ∧
      (∀ addr, ¬ InRange offset size addr → file'.flash addr = file.flash addr) ∧
      (ret = size → Holds file'.flash offset buffer ∧
        ∀ target block', target.length = size.toNat →
          block'.length = tempSize offset.toNat size.toNat →
          ∀ bytes file'', flashBaseRead file' offset size target block' after =
            some (bytes, file'', size) → bytes = buffer)

/-- The offsets, sizes and outcomes for which a write is right. An error must not look like the
size. The blocks have a size of 32 bits, `lseek` must not refuse the offset, the device writes the
whole range, it has read what it writes around the range, and afterwards it reads the whole range.
-/
def WriteSafe (offset size : BitVec 32) (outcome after : Outcome) : Prop :=
  let rema := remaOffset offset.toNat
  let count := tempSize offset.toNat size.toNat
  if outcome.malloc = false then size ≠ enomem
  else
    match outcome.read with
    | none => size ≠ eio
    | some n =>
      rema + size.toNat + 511 < 2 ^ 32 ∧
        match outcome.write with
        | none => True
        | some m =>
          if offset.toNat < 2 ^ 31 then
            (∀ i < min m count, ¬ (rema ≤ i ∧ i < rema + size.toNat) → i < n) ∧
              (size = 0 ∨ rema + size.toNat ≤ m ∧
                (after.malloc = true → ∀ k, after.read = some k → rema + size.toNat ≤ k))
          else size = 0 ∧ min m count = 0

variable {file : FlashFile} {offset size : BitVec 32} {buffer block bytes : List Byte}
  {outcome after : Outcome} {flash : Nat → Byte} {p n m i : Nat}

/-! ## The blocks -/

/-- The blocks hold the range, unless their size wraps. -/
theorem temp_size_lt_iff : tempSize offset.toNat size.toNat <
    remaOffset offset.toNat + size.toNat ↔ 2 ^ 32 ≤ remaOffset offset.toNat + size.toNat + 511 := by
  rw [tempSize]
  omega

theorem align_lt_iff : alignOffset offset.toNat < 2 ^ 31 ↔ offset.toNat < 2 ^ 31 := by
  rw [alignOffset]
  omega

/-- The block after the read and the copy of the buffer into it. -/
def merged (flash : Nat → Byte) (p done rema : Nat) (block buffer : List Byte) : List Byte :=
  Buffer.writeAt (Memory.read flash p done ++ block.drop done) rema buffer

theorem length_merged {done rema : Nat} (hdone : done ≤ block.length)
    (hfit : rema + buffer.length ≤ block.length) :
    (merged flash p done rema block buffer).length = block.length := by
  have hlen : (read flash p done ++ block.drop done).length = block.length := by
    rw [length_append, length_read, length_drop]
    omega
  rw [merged, Buffer.length_write_at (hlen ▸ hfit), hlen]

theorem merged_get {done rema : Nat} (hdone : done ≤ block.length)
    (hfit : rema + buffer.length ≤ block.length) (i : Nat) :
    (merged flash p done rema block buffer)[i]? =
      if rema ≤ i ∧ i < rema + buffer.length then buffer[i - rema]?
      else if i < done then some (flash (p + i)) else block[i]? := by
  have hlen : (read flash p done ++ block.drop done).length = block.length := by
    rw [length_append, length_read, length_drop]
    omega
  rw [merged, Buffer.getElem?_write_at (hlen ▸ hfit), getElem?_append, length_read]
  split_ifs with hin hread
  · rfl
  · exact getElem?_read hread
  · have hindex : done + (i - done) = i := by omega
    rw [getElem?_drop, hindex]

/-! ## Runs of the functions -/

/-- Where the device is accessed. -/
def FlashFile.place (file : FlashFile) (offset : BitVec 32) : Nat :=
  if offset.toNat < 2 ^ 31 then alignOffset offset.toNat else file.pos

theorem lseek_eq (file : FlashFile) (offset : BitVec 32) :
    file.lseek (alignOffset offset.toNat) = { file with pos := file.place offset } := by
  rw [FlashFile.lseek, FlashFile.place]
  by_cases hseek : offset.toNat < 2 ^ 31
  · rw [if_pos hseek, if_pos (align_lt_iff.mpr hseek)]
  · rw [if_neg hseek, if_neg (align_lt_iff.not.mpr hseek)]

/-- A write whose device accesses do not fail. If the offset is refused, what is written is behind
what was read. -/
theorem write_eq (hinited : file.inited = true) (hmalloc : outcome.malloc = true)
    (hread : outcome.read = some n) (hwrite : outcome.write = some m)
    (hfit : remaOffset offset.toNat + size.toNat + 511 < 2 ^ 32)
    (hblock : block.length = tempSize offset.toNat size.toNat)
    (hbuffer : buffer.length = size.toNat) :
    ∃ file', flashBaseWrite file offset size buffer block outcome = some (file', size) ∧
      file'.inited = true ∧
      file'.flash = Memory.write file.flash
        (if offset.toNat < 2 ^ 31 then alignOffset offset.toNat
          else file.pos + min n block.length)
        ((merged file.flash (file.place offset) (min n block.length) (remaOffset offset.toNat) block
          buffer).take (min m block.length)) := by
  have hroom : ¬ block.length < remaOffset offset.toNat + size.toNat := by
    rw [hblock, temp_size_lt_iff]
    omega
  have hlen : (merged file.flash (file.place offset) (min n block.length)
      (remaOffset offset.toNat) block buffer).length = block.length :=
    length_merged (min_le_right _ _) (by omega)
  refine ⟨(({ file with pos := file.place offset + min n block.length } : FlashFile).lseek
    (alignOffset offset.toNat)).write m (merged file.flash (file.place offset)
      (min n block.length) (remaOffset offset.toNat) block buffer), ?_, ?_, ?_⟩
  · rw [flashBaseWrite, lseek_eq, ← hblock]
    simp only [hinited, Bool.not_true, Bool.false_eq_true, if_false, hmalloc, hread, hwrite]
    rw [if_neg hroom]
    rfl
  · rw [lseek_eq]
    exact hinited
  · rw [lseek_eq, FlashFile.write, hlen]
    rw [FlashFile.place, FlashFile.place]
    split_ifs
    · rfl
    · rfl

theorem read_eq (hinited : file.inited = true) (hmalloc : outcome.malloc = true)
    (hread : outcome.read = some n) (hseek : offset.toNat < 2 ^ 31)
    (hfit : remaOffset offset.toNat + size.toNat + 511 < 2 ^ 32)
    (hblock : block.length = tempSize offset.toNat size.toNat) :
    ∃ file', flashBaseRead file offset size buffer block outcome =
      some (((Memory.read file.flash (alignOffset offset.toNat) (min n block.length) ++
        block.drop (min n block.length)).drop (remaOffset offset.toNat)).take size.toNat,
          file', size) := by
  have hroom : ¬ block.length < remaOffset offset.toNat + size.toNat := by
    rw [hblock, temp_size_lt_iff]
    omega
  refine ⟨{ file with pos := file.place offset + min n block.length }, ?_⟩
  rw [flashBaseRead, lseek_eq, ← hblock]
  simp only [hinited, Bool.not_true, Bool.false_eq_true, if_false, hmalloc, hread]
  rw [if_neg hroom, FlashFile.read, FlashFile.place, if_pos hseek]

theorem read_eq_some {file' : FlashFile}
    (h : flashBaseRead file offset size buffer block outcome = some (bytes, file', size)) :
    (size = 0 ∧ file.inited = false ∧ bytes = buffer) ∨ (size = enomem ∧ bytes = buffer) ∨
      (size = eio ∧ bytes = buffer) ∨
        file.inited = true ∧ outcome.malloc = true ∧ ∃ n, outcome.read = some n := by
  rw [flashBaseRead] at h
  cases hinited : file.inited with
  | false =>
    rw [hinited] at h
    cases h
    exact .inl ⟨rfl, rfl, rfl⟩
  | true =>
    rw [hinited] at h
    cases hmalloc : outcome.malloc with
    | false =>
      rw [hmalloc] at h
      cases h
      exact .inr (.inl ⟨rfl, rfl⟩)
    | true =>
      cases hread : outcome.read with
      | none =>
        rw [hmalloc, hread] at h
        cases h
        exact .inr (.inr (.inl ⟨rfl, rfl⟩))
      | some n => exact .inr (.inr (.inr ⟨rfl, rfl, n, rfl⟩))

/-! ## When a write is right -/

theorem to_int_eq (hseek : offset.toNat < 2 ^ 31) : offset.toInt = offset.toNat := by
  rw [toInt_eq_toNat_cond, if_pos (by omega)]

/-- The range as a list. -/
theorem Holds.read_eq (h : Holds flash offset buffer) (hseek : offset.toNat < 2 ^ 31) :
    Memory.read flash offset.toNat buffer.length = buffer := by
  refine ext_getElem? fun i => ?_
  by_cases hi : i < buffer.length
  · obtain ⟨addr, haddr, hbyte⟩ := h i hi
    have hsame : addr = offset.toNat + i := by
      rw [to_int_eq hseek] at haddr
      omega
    rw [getElem?_read hi, hbyte, hsame]
  · rw [List.getElem?_eq_none (length_read.trans_le (not_lt.mp hi)),
      List.getElem?_eq_none (not_lt.mp hi)]

theorem write_nothing {file' : FlashFile} {ret : BitVec 32}
    (hrun : flashBaseWrite file offset size buffer block outcome = some (file', ret))
    (hflash : file'.flash = file.flash) (hne : ret ≠ size) :
    ∃ file' ret, flashBaseWrite file offset size buffer block outcome = some (file', ret) ∧
      (∀ addr, ¬ InRange offset size addr → file'.flash addr = file.flash addr) ∧
      (ret = size → Holds file'.flash offset buffer ∧
        ∀ target block', target.length = size.toNat →
          block'.length = tempSize offset.toNat size.toNat →
          ∀ bytes file'', flashBaseRead file' offset size target block' after =
            some (bytes, file'', size) → bytes = buffer) := by
  refine ⟨file', ret, hrun, fun addr _ => ?_, fun heq => absurd heq hne⟩
  rw [hflash]

theorem written_range (hseek : offset.toNat < 2 ^ 31) {done written : Nat}
    (hdone : done ≤ block.length) (hwritten : written ≤ block.length)
    (hfit : remaOffset offset.toNat + buffer.length ≤ block.length)
    (haround : ∀ i < written, ¬ (remaOffset offset.toNat ≤ i ∧
      i < remaOffset offset.toNat + buffer.length) → i < done)
    (hbuffer : buffer.length = size.toNat) {flash' : Nat → Byte}
    (hflash : flash' = Memory.write flash (alignOffset offset.toNat)
      ((merged flash (alignOffset offset.toNat) done (remaOffset offset.toNat) block buffer).take
        written)) :
    (∀ addr, ¬ InRange offset size addr → flash' addr = flash addr) ∧
      (remaOffset offset.toNat + buffer.length ≤ written → Holds flash' offset buffer) := by
  have hstart : alignOffset offset.toNat + remaOffset offset.toNat = offset.toNat :=
    UsbUpdate.align_add_rema offset.toNat
  have hlen : ((merged flash (alignOffset offset.toNat) done (remaOffset offset.toNat) block
      buffer).take written).length = written := by
    rw [length_take, length_merged hdone hfit, min_eq_left hwritten]
  have hinside (i : Nat) (hi : i < written) :
      some (flash' (alignOffset offset.toNat + i)) =
        if remaOffset offset.toNat ≤ i ∧ i < remaOffset offset.toNat + buffer.length then
          buffer[i - remaOffset offset.toNat]?
        else if i < done then some (flash (alignOffset offset.toNat + i)) else block[i]? := by
    rw [hflash, ← write_inside (hlen.symm ▸ hi), getElem?_take_of_lt hi,
      merged_get hdone hfit]
  constructor
  · intro addr hout
    by_cases hin : alignOffset offset.toNat ≤ addr ∧ addr < alignOffset offset.toNat + written
    · obtain ⟨i, rfl⟩ := Nat.exists_eq_add_of_le hin.1
      have hi : i < written := by omega
      have hrange : ¬ (remaOffset offset.toNat ≤ i ∧
          i < remaOffset offset.toNat + buffer.length) := by
        intro hboth
        refine hout ⟨?_, ?_⟩
        · rw [to_int_eq hseek]
          omega
        · rw [to_int_eq hseek]
          omega
      have hbyte := hinside i hi
      rw [if_neg hrange, if_pos (haround i hi hrange)] at hbyte
      exact Option.some.inj hbyte
    · rw [hflash, write_outside]
      omega
  · intro hwhole i hi
    refine ⟨offset.toNat + i, ?_, ?_⟩
    · rw [to_int_eq hseek]
      rfl
    · have hbyte := hinside (remaOffset offset.toNat + i) (by omega)
      rw [if_pos ⟨Nat.le_add_right _ _, by omega⟩, Nat.add_sub_cancel_left, ← add_assoc,
        hstart] at hbyte
      exact hbyte.symm

theorem read_empty {file' : FlashFile} {ret : BitVec 32} (hsize : size = 0) (hbuffer : buffer = [])
    (h : flashBaseRead file offset size buffer block outcome = some (bytes, file', ret)) :
    bytes = [] := by
  rw [flashBaseRead] at h
  dsimp only at h
  split_ifs at h
  · cases h
    exact hbuffer
  · cases h
    exact hbuffer
  · cases hread : outcome.read with
    | none =>
      rw [hread] at h
      cases h
      exact hbuffer
    | some n =>
      rw [hread] at h
      cases h
  · cases hread : outcome.read with
    | none =>
      rw [hread] at h
      cases h
      exact hbuffer
    | some n =>
      rw [hread] at h
      cases h
      rw [hsize]
      exact take_zero

theorem holds_nil (hbuffer : buffer = []) : Holds flash offset buffer := by
  rw [hbuffer]
  nofun

theorem read_back {target : List Byte} {file' : FlashFile} (hinited : file.inited = true)
    (hseek : offset.toNat < 2 ^ 31)
    (hfit : remaOffset offset.toNat + size.toNat + 511 < 2 ^ 32)
    (hblock : block.length = tempSize offset.toNat size.toNat)
    (hbuffer : buffer.length = size.toNat) (hholds : Holds file.flash offset buffer)
    (hwhole : outcome.malloc = true → ∀ k, outcome.read = some k →
      remaOffset offset.toNat + size.toNat ≤ k)
    (hread : flashBaseRead file offset size target block outcome = some (bytes, file', size)) :
    bytes = buffer := by
  have hsize := hfit
  obtain ⟨-, hnot, -⟩ | ⟨herror, -⟩ | ⟨herror, -⟩ | ⟨-, hmalloc, n, hdone⟩ := read_eq_some hread
  · rw [hinited] at hnot
    cases hnot
  · rw [herror] at hsize
    have hvalue : enomem.toNat = 4294967284 := rfl
    omega
  · rw [herror] at hsize
    have hvalue : eio.toNat = 4294967291 := rfl
    omega
  · have hroom : ¬ block.length < remaOffset offset.toNat + size.toNat := by
      rw [hblock, temp_size_lt_iff]
      omega
    have hall : remaOffset offset.toNat + size.toNat ≤ min n block.length :=
      le_min (hwhole hmalloc n hdone) (not_lt.mp hroom)
    obtain ⟨file'', heq⟩ := @read_eq _ _ _ target _ _ _ hinited hmalloc hdone hseek hfit hblock
    have hbytes := congrArg Prod.fst (Option.some.inj (heq.symm.trans hread))
    dsimp only at hbytes
    rw [← hbytes, drop_append_of_le_length, take_append_of_le_length, drop_read (by omega),
      UsbUpdate.align_add_rema, take_read (by omega), ← hbuffer, hholds.read_eq hseek]
    · rw [length_drop, length_read]
      omega
    · rw [length_read]
      omega

theorem write_ok_of_safe (hsafe : WriteSafe offset size outcome after) :
    WriteOk offset size outcome after := by
  intro file buffer block hbuffer hblock
  cases hinited : file.inited with
  | false =>
    have hrun : flashBaseWrite file offset size buffer block outcome = some (file, 0) := by
      rw [flashBaseWrite, hinited]
      rfl
    refine ⟨file, 0, hrun, fun _ _ => rfl, fun hzero => ?_⟩
    have hnil : buffer = [] := eq_nil_of_length_eq_zero (by rw [hbuffer, ← hzero]; rfl)
    refine ⟨holds_nil hnil, fun target block' htarget _ bytes file'' hread => ?_⟩
    rw [hnil]
    refine read_empty hzero.symm (eq_nil_of_length_eq_zero ?_) hread
    rw [htarget, ← hzero]
    rfl
  | true =>
    unfold WriteSafe at hsafe
    cases hmalloc : outcome.malloc with
    | false =>
      rw [hmalloc, if_pos rfl] at hsafe
      have hrun : flashBaseWrite file offset size buffer block outcome =
          some (file.lseek (alignOffset offset.toNat), enomem) := by
        rw [flashBaseWrite, hinited, hmalloc]
        rfl
      exact write_nothing hrun (by rw [lseek_eq]) hsafe.symm
    | true =>
      rw [hmalloc, if_neg Bool.noConfusion] at hsafe
      cases hread : outcome.read with
      | none =>
        rw [hread] at hsafe
        have hrun : flashBaseWrite file offset size buffer block outcome =
            some (file.lseek (alignOffset offset.toNat), eio) := by
          rw [flashBaseWrite, hinited, hmalloc, hread]
          rfl
        exact write_nothing hrun (by rw [lseek_eq]) hsafe.symm
      | some n =>
        rw [hread] at hsafe
        obtain ⟨hfit, hwrite⟩ := hsafe
        have hroom : ¬ block.length < remaOffset offset.toNat + size.toNat := by
          rw [hblock, temp_size_lt_iff]
          omega
        cases hdone : outcome.write with
        | none =>
          have hne : eio ≠ size := by
            rintro rfl
            have hvalue : eio.toNat = 4294967291 := rfl
            omega
          have hrun : ∃ file', flashBaseWrite file offset size buffer block outcome =
              some (file', eio) ∧ file'.flash = file.flash := by
            refine ⟨({ file with
              pos := file.place offset + min n block.length } : FlashFile).lseek
                (alignOffset offset.toNat), ?_, by rw [lseek_eq]⟩
            rw [flashBaseWrite, lseek_eq, ← hblock]
            simp only [hinited, Bool.not_true, Bool.false_eq_true, if_false, hmalloc, hread, hdone]
            rw [if_neg hroom]
            rfl
          obtain ⟨file', hrun, hflash⟩ := hrun
          exact write_nothing hrun hflash hne
        | some m =>
          rw [hdone] at hwrite
          dsimp only at hwrite
          obtain ⟨file', hrun, hinited', hflash⟩ :=
            write_eq hinited hmalloc hread hdone hfit hblock hbuffer
          refine ⟨file', size, hrun, ?_⟩
          have hbytes (hzero : size = 0) : buffer = [] := by
            refine eq_nil_of_length_eq_zero ?_
            rw [hbuffer, hzero]
            rfl
          have htarget {target : List Byte} (hlen : target.length = size.toNat)
              (hzero : size = 0) : target = [] := by
            refine eq_nil_of_length_eq_zero ?_
            rw [hlen, hzero]
            rfl
          by_cases hseek : offset.toNat < 2 ^ 31
          · rw [if_pos hseek, ← hblock] at hwrite
            rw [if_pos hseek, FlashFile.place, if_pos hseek] at hflash
            obtain ⟨haround, hwhole⟩ := hwrite
            rw [← hbuffer] at haround
            obtain ⟨hframe, hholds⟩ := written_range hseek (min_le_right n block.length)
              (min_le_right m block.length) (by omega)
              (fun i hi hout => lt_min (haround i hi hout)
                (hi.trans_le (min_le_right _ _))) hbuffer hflash
            refine ⟨hframe, fun _ => ?_⟩
            obtain hzero | ⟨hwritten, hback⟩ := hwhole
            · refine ⟨holds_nil (hbytes hzero), fun target block' hlen _ bytes file''
                hread' => ?_⟩
              rw [hbytes hzero]
              exact read_empty hzero (htarget hlen hzero) hread'
            · have hthere := hholds (by omega)
              exact ⟨hthere, fun target block' _ hblock' bytes file'' hread' =>
                read_back hinited' hseek hfit hblock' hbuffer hthere hback hread'⟩
          · rw [if_neg hseek, ← hblock] at hwrite
            obtain ⟨hzero, hnothing⟩ := hwrite
            rw [hnothing, take_zero] at hflash
            have hsame : file'.flash = file.flash := hflash
            refine ⟨fun addr _ => congrFun hsame addr, fun _ => ?_⟩
            refine ⟨holds_nil (hbytes hzero), fun target block' hlen _ bytes file''
              hread' => ?_⟩
            rw [hbytes hzero]
            exact read_empty hzero (htarget hlen hzero) hread'

/-! ## When it is not -/

theorem toNat_pos (hsize : size ≠ 0) : 0 < size.toNat :=
  Nat.pos_of_ne_zero fun hzero => hsize (eq_of_toNat_eq hzero)

/-- A buffer of other bytes than the flash has. -/
theorem not_holds_zeros (hsize : size ≠ 0) :
    ¬ Holds (fun _ => 0) offset (List.replicate size.toNat 2) := by
  intro hholds
  obtain ⟨addr, -, hbyte⟩ := hholds 0 (length_replicate.symm ▸ toNat_pos hsize)
  rw [getElem?_replicate_of_lt (toNat_pos hsize)] at hbyte
  cases hbyte

def zeros : FlashFile := ⟨true, fun _ => 0, 0⟩

/-- A block that is full of ones before it is read. -/
def ones (offset size : BitVec 32) : List Byte :=
  List.replicate (tempSize offset.toNat size.toNat) 1

theorem length_ones : (ones offset size).length = tempSize offset.toNat size.toNat :=
  length_replicate

theorem written_ones {written : Nat} (hi : i < written)
    (hwritten : written ≤ (ones offset size).length)
    (hout : ¬ (remaOffset offset.toNat ≤ i ∧ i < remaOffset offset.toNat + size.toNat))
    (hdone : n ≤ i) (hfit : remaOffset offset.toNat + size.toNat ≤ (ones offset size).length) :
    Memory.write flash p ((merged flash p (min n (ones offset size).length)
      (remaOffset offset.toNat) (ones offset size) (List.replicate size.toNat 2)).take written)
        (p + i) = 1 := by
  have hbuffer : (List.replicate size.toNat (2 : Byte)).length = size.toNat := length_replicate
  have hlen : (merged flash p (min n (ones offset size).length) (remaOffset offset.toNat)
      (ones offset size) (replicate size.toNat 2)).length = (ones offset size).length :=
    length_merged (min_le_right _ _) (hbuffer.symm ▸ hfit)
  refine Option.some.inj (Eq.trans (write_inside ?_).symm ?_)
  · rw [length_take, hlen]
    omega
  · rw [getElem?_take_of_lt hi, merged_get (min_le_right _ _) (hbuffer.symm ▸ hfit), hbuffer,
      if_neg hout, if_neg (by omega), ones, getElem?_replicate_of_lt]
    rw [← length_ones]
    omega

/-- With an offset that is not refused, a write of twos onto zeros is right only if the device has
read what it writes around the range and reads the range afterwards. -/
theorem near_safe {file' : FlashFile} (hseek : offset.toNat < 2 ^ 31)
    (hfit : remaOffset offset.toNat + size.toNat + 511 < 2 ^ 32) (hinited : file'.inited = true)
    (hflash : file'.flash = Memory.write (fun _ => 0) (alignOffset offset.toNat)
      ((merged (fun _ => 0) (alignOffset offset.toNat) (min n (ones offset size).length)
        (remaOffset offset.toNat) (ones offset size) (List.replicate size.toNat 2)).take
          (min m (ones offset size).length)))
    (hframe : ∀ addr, ¬ InRange offset size addr → file'.flash addr = 0)
    (hholds : Holds file'.flash offset (List.replicate size.toNat 2))
    (hback : ∀ bytes file'', flashBaseRead file' offset size (List.replicate size.toNat 2)
      (ones offset size) after = some (bytes, file'', size) → bytes = List.replicate size.toNat 2) :
    (∀ i < min m (ones offset size).length, ¬ (remaOffset offset.toNat ≤ i ∧
        i < remaOffset offset.toNat + size.toNat) → i < n) ∧
      (size = 0 ∨ remaOffset offset.toNat + size.toNat ≤ m ∧
        (after.malloc = true → ∀ k, after.read = some k →
          remaOffset offset.toNat + size.toNat ≤ k)) := by
  have hstart : alignOffset offset.toNat + remaOffset offset.toNat = offset.toNat :=
    UsbUpdate.align_add_rema offset.toNat
  have hroom : remaOffset offset.toNat + size.toNat ≤ (ones offset size).length := by
    rw [length_ones, ← not_lt, temp_size_lt_iff]
    omega
  refine ⟨fun i hi hout => ?_, or_iff_not_imp_left.mpr fun hne => ⟨?_, fun hmalloc k hread => ?_⟩⟩
  · by_contra hdone
    have hone : file'.flash (alignOffset offset.toNat + i) = 1 := by
      rw [hflash]
      exact written_ones hi (min_le_right _ _) hout (not_lt.mp hdone) hroom
    rw [hframe] at hone
    · cases hone
    · rintro ⟨hlo, hhi⟩
      rw [to_int_eq hseek] at hlo hhi
      omega
  · -- the last byte of the range is not written
    by_contra hshort
    have hpos := toNat_pos hne
    obtain ⟨addr, haddr, hbyte⟩ := hholds (size.toNat - 1) (by rw [length_replicate]; omega)
    rw [to_int_eq hseek] at haddr
    rw [getElem?_replicate_of_lt (by omega), hflash, write_outside] at hbyte
    · cases hbyte
    · right
      rw [length_take]
      omega
  · -- the last byte of the range is not read
    by_contra hshort
    have hpos := toNat_pos hne
    obtain ⟨file'', heq⟩ := @read_eq _ _ _ (replicate size.toNat 2) _ _ _ hinited hmalloc hread
      hseek hfit length_ones
    have hbytes := congrArg (·[size.toNat - 1]?) (hback _ _ heq)
    rw [getElem?_take_of_lt (by omega), getElem?_drop, getElem?_append_right, length_read,
      getElem?_drop, ones, getElem?_replicate_of_lt, getElem?_replicate_of_lt (by omega)] at hbytes
    · cases hbytes
    · rw [← length_ones]
      omega
    · rw [length_read]
      omega

/-- A flash with threes before the place of the write, and zeros from there on. -/
def threes (done : Nat) : FlashFile :=
  ⟨true, fun addr => if addr < 2 ^ 33 + done then 3 else 0, 2 ^ 33⟩

theorem to_int_neg (hseek : ¬ offset.toNat < 2 ^ 31) : offset.toInt < 0 := by
  rw [toInt_eq_toNat_cond, if_neg (by omega)]
  omega

/-- With an offset that is refused, the descriptor stays where it was, and only nothing may be
written. -/
theorem far_safe {file' : FlashFile} {done : Nat} (hseek : ¬ offset.toNat < 2 ^ 31)
    (hdone : done ≤ (ones offset size).length)
    (hroom : remaOffset offset.toNat + size.toNat ≤ (ones offset size).length)
    (hflash : file'.flash = Memory.write (threes done).flash (2 ^ 33 + done)
      ((merged (threes done).flash (2 ^ 33) done (remaOffset offset.toNat) (ones offset size)
        (List.replicate size.toNat 2)).take (min m (ones offset size).length)))
    (hframe : ∀ addr, ¬ InRange offset size addr → file'.flash addr = (threes done).flash addr)
    (hholds : Holds file'.flash offset (List.replicate size.toNat 2)) :
    size = 0 ∧ min m (ones offset size).length = 0 := by
  have hneg := to_int_neg hseek
  constructor
  · by_contra hne
    obtain ⟨addr, haddr, -⟩ := hholds 0 (length_replicate.symm ▸ toNat_pos hne)
    omega
  · by_contra hwritten
    have hbuffer : (List.replicate size.toNat (2 : Byte)).length = size.toNat := length_replicate
    have hlen : (merged (threes done).flash (2 ^ 33) done (remaOffset offset.toNat)
        (ones offset size) (replicate size.toNat 2)).length = (ones offset size).length :=
      length_merged hdone (hbuffer.symm ▸ hroom)
    have hzero : file'.flash (2 ^ 33 + done) = 0 := by
      rw [hframe]
      · exact if_neg (lt_irrefl _)
      · rintro ⟨-, hhi⟩
        omega
    -- the first byte of the block is a two, a three or a one
    have hfirst : some (file'.flash (2 ^ 33 + done)) = (merged (threes done).flash (2 ^ 33) done
        (remaOffset offset.toNat) (ones offset size) (replicate size.toNat 2))[0]? := by
      rw [hflash, ← getElem?_take_of_lt (Nat.pos_of_ne_zero hwritten)]
      refine (write_inside (i := 0) ?_).symm
      rw [length_take, hlen]
      omega
    rw [hzero, merged_get hdone (hbuffer.symm ▸ hroom), hbuffer] at hfirst
    split_ifs at hfirst with hin hread
    · rw [getElem?_replicate_of_lt (by omega)] at hfirst
      cases hfirst
    · have hthree : (threes done).flash (2 ^ 33 + 0) = 3 := if_pos (by omega)
      rw [hthree] at hfirst
      cases hfirst
    · rw [ones, getElem?_replicate_of_lt] at hfirst
      · cases hfirst
      · rw [← length_ones]
        omega

theorem write_safe_of_ok (hok : WriteOk offset size outcome after) :
    WriteSafe offset size outcome after := by
  obtain ⟨file', ret, hrun, hframe, hreturns⟩ := hok zeros (replicate size.toNat 2)
    (ones offset size) length_replicate length_ones
  unfold WriteSafe
  dsimp only
  cases hmalloc : outcome.malloc with
  | false =>
    intro hsize
    have hrun' : flashBaseWrite zeros offset size (replicate size.toNat 2)
        (ones offset size) outcome = some (zeros.lseek (alignOffset offset.toNat), enomem) := by
      rw [flashBaseWrite, hmalloc]
      rfl
    cases hrun.symm.trans hrun'
    obtain ⟨hholds, -⟩ := hreturns hsize.symm
    rw [lseek_eq] at hholds
    refine not_holds_zeros ?_ hholds
    rw [hsize]
    decide
  | true =>
    cases hread : outcome.read with
    | none =>
      intro hsize
      have hrun' : flashBaseWrite zeros offset size (replicate size.toNat 2)
          (ones offset size) outcome = some (zeros.lseek (alignOffset offset.toNat), eio) := by
        rw [flashBaseWrite, hmalloc, hread]
        rfl
      cases hrun.symm.trans hrun'
      obtain ⟨hholds, -⟩ := hreturns hsize.symm
      rw [lseek_eq] at hholds
      refine not_holds_zeros ?_ hholds
      rw [hsize]
      decide
    | some n =>
      have hfit : remaOffset offset.toNat + size.toNat + 511 < 2 ^ 32 := by
        by_contra hwrap
        have hnone : flashBaseWrite zeros offset size (replicate size.toNat 2)
            (ones offset size) outcome = none := by
          rw [flashBaseWrite, hmalloc, hread]
          exact if_pos (temp_size_lt_iff.mpr (not_lt.mp hwrap))
        cases hrun.symm.trans hnone
      refine ⟨hfit, ?_⟩
      cases hdone : outcome.write with
      | none => trivial
      | some m =>
        dsimp only
        obtain ⟨file'', hrun', hinited, hflash⟩ :=
          @write_eq zeros _ _ (replicate size.toNat 2) (ones offset size) _ _ _ rfl
            hmalloc hread hdone hfit length_ones length_replicate
        cases hrun.symm.trans hrun'
        by_cases hseek : offset.toNat < 2 ^ 31
        · rw [if_pos hseek, FlashFile.place, if_pos hseek] at hflash
          obtain ⟨hholds, hback⟩ := hreturns rfl
          rw [if_pos hseek, ← length_ones]
          exact near_safe hseek hfit hinited hflash hframe hholds
            (hback _ _ length_replicate length_ones)
        · rw [if_neg hseek, ← length_ones]
          obtain ⟨refused, ret, hrun, hframe, hreturns⟩ :=
            hok (threes (min n (ones offset size).length)) (replicate size.toNat 2)
              (ones offset size) length_replicate length_ones
          obtain ⟨refused', hrun', -, hflash⟩ :=
            @write_eq (threes (min n (ones offset size).length)) _ _
              (replicate size.toNat 2) (ones offset size) _ _ _ rfl hmalloc hread hdone
              hfit length_ones length_replicate
          cases hrun.symm.trans hrun'
          rw [if_neg hseek, FlashFile.place, if_neg hseek] at hflash
          refine far_safe hseek (min_le_right _ _) ?_ hflash hframe (hreturns rfl).1
          rw [length_ones, ← not_lt, temp_size_lt_iff]
          omega

/-- For which offsets, sizes and outcomes a write is right. -/
theorem write_ok_iff : WriteOk offset size outcome after ↔ WriteSafe offset size outcome after :=
  ⟨write_safe_of_ok, write_ok_of_safe⟩

/-- The device reports a failed read as a transfer of no bytes. -/
def readNothing : Outcome := ⟨true, some 0, some 512⟩

/-- Everything is transferred. -/
def complete (offset size : BitVec 32) : Outcome :=
  ⟨true, some (tempSize offset.toNat size.toNat), some (tempSize offset.toNat size.toNat)⟩

/-- What was in the new block is written around the range. -/
theorem short_read_spreads : ¬ WriteOk 0x1a4000 4 readNothing (complete 0x1a4000 4) := by
  intro hok
  obtain ⟨-, haround, -⟩ := write_safe_of_ok hok
  exact absurd (haround 5 (by decide) (by decide)) (by decide)

/-! ## Complete accesses -/

/-- It does what a flash without failures does. -/
theorem flash_base_write_complete (hinited : file.inited = true) (hseek : offset.toNat < 2 ^ 31)
    (hfit : remaOffset offset.toNat + size.toNat + 511 < 2 ^ 32)
    (hblock : block.length = tempSize offset.toNat size.toNat)
    (hbuffer : buffer.length = size.toNat) :
    ∃ file', flashBaseWrite file offset size buffer block (complete offset size) =
        some (file', size) ∧
      file'.flash =
        (UsbUpdate.flashBaseWrite ⟨file.inited, file.flash⟩ offset.toNat buffer).1.flash := by
  obtain ⟨file', hrun, -, hflash⟩ := @write_eq file offset size buffer block (complete offset size)
    _ _ hinited rfl rfl rfl hfit hblock hbuffer
  have hroom : remaOffset offset.toNat + buffer.length ≤ block.length := by
    rw [hblock, hbuffer, ← not_lt, temp_size_lt_iff]
    omega
  have hall : merged file.flash (alignOffset offset.toNat) block.length (remaOffset offset.toNat)
      block buffer = Buffer.writeAt (read file.flash (alignOffset offset.toNat)
        block.length) (remaOffset offset.toNat) buffer := by
    rw [merged, drop_length, append_nil]
  refine ⟨file', hrun, ?_⟩
  rw [← hblock, min_self, if_pos hseek, FlashFile.place, if_pos hseek,
    take_of_length_le (length_merged (le_refl _) hroom).le, hall, hblock] at hflash
  rw [hflash, UsbUpdate.flashBaseWrite, if_pos hinited, hbuffer]
  rfl

end FullhanRtos.FlashAccess
