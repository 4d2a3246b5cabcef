import FullhanRtos.Lib.Transition
import FullhanRtos.Usb.FlashBase

/-!
# The device record in flash

The record of the device is saved to a main copy and then to a backup copy, and a restart loads the
main copy if it passes its CRC, else the backup copy. A power loss inside one of the writes leaves
the blocks of this copy in a state that does not pass. Since a save begins with the main copy
whether or not the backup copy is good, a save that is cut after the main copy leaves the only good
copy where the next save writes first. `info_kept_iff` is the exact condition under which every
restart loads the last or the previously saved record.
-/

namespace FullhanRtos.InfoRecord

open Bytes UsbUpdate List Option Memory

/-! ## The record -/

/-- The two layouts of the flash. -/
inductive Arch where
  | mc632x
  | other
  deriving DecidableEq

def flashAddrUvcConfigData : Arch → Nat
  | .mc632x => 0xe0000
  | .other => 0x1a0000

def uvcInfoAddr (arch : Arch) : Nat := flashAddrUvcConfigData arch + 0x4000

def uvcInfoBakAddr (arch : Arch) : Nat := flashAddrUvcConfigData arch + 0x6000

@[ext] structure UvcInfo where
  size : BitVec 32
  crc : BitVec 32
  uvcinfoChange : BitVec 32
  data : List Byte
  length_data : data.length = 1012
  deriving DecidableEq

/-- `sizeof(struct UvcInfo)`. -/
def infoSize : Nat := 1024

/-- The bytes behind `size` and `crc`, which the CRC is over. -/
def UvcInfo.payload (info : UvcInfo) : List Byte := leBytes 4 info.uvcinfoChange.toNat ++ info.data

def UvcInfo.bytes (info : UvcInfo) : List Byte :=
  leBytes 4 info.size.toNat ++ (leBytes 4 info.crc.toNat ++ info.payload)

/-- The record that stands in memory. -/
def UvcInfo.ofBytes (bytes : List Byte) (h : bytes.length = infoSize) : UvcInfo where
  size := BitVec.ofNat 32 (leValue (bytes.take 4))
  crc := BitVec.ofNat 32 (leValue ((bytes.drop 4).take 4))
  uvcinfoChange := BitVec.ofNat 32 (leValue ((bytes.drop 8).take 4))
  data := bytes.drop 12
  length_data := by rw [length_drop, h]; rfl

/-- The default, all bytes zero. -/
def UvcInfo.zero : UvcInfo := ⟨0, 0, 0, replicate 1012 0, length_replicate⟩

def infoCRC (info : UvcInfo) : BitVec 32 := calcCRC (makeCRCTable CRC_SEED) info.payload

variable {arch : Arch} {info : UvcInfo} {base : FlashBase} {flash : Nat → Byte} {addr : Nat}
  {content : List Byte}

open UvcInfo

@[simp] theorem length_bytes (info : UvcInfo) : info.bytes.length = infoSize := by
  simp only [bytes, payload, length_append, length_le_bytes, info.length_data]
  rfl

theorem word_of_bytes (x : BitVec 32) : BitVec.ofNat 32 (leValue (leBytes 4 x.toNat)) = x := by
  rw [le_value_bytes_of_lt x.isLt, BitVec.ofNat_toNat, BitVec.setWidth_eq]

theorem of_bytes_bytes (info : UvcInfo) :
    UvcInfo.ofBytes info.bytes (length_bytes info) = info := by
  have hsize : info.bytes.take 4 = leBytes 4 info.size.toNat := take_left' (length_le_bytes 4 _)
  have hbehind : info.bytes.drop 4 = leBytes 4 info.crc.toNat ++ info.payload :=
    drop_left' (length_le_bytes 4 _)
  have hpayload : info.bytes.drop 8 = info.payload := by
    rw [show (8 : Nat) = 4 + 4 from rfl, ← drop_drop, hbehind]
    exact drop_left' (length_le_bytes 4 _)
  have hdata : info.bytes.drop 12 = info.data := by
    rw [show (12 : Nat) = 8 + 4 from rfl, ← drop_drop, hpayload]
    exact drop_left' (length_le_bytes 4 _)
  apply UvcInfo.ext
  · show BitVec.ofNat 32 (leValue (info.bytes.take 4)) = info.size
    rw [hsize, word_of_bytes]
  · show BitVec.ofNat 32 (leValue ((info.bytes.drop 4).take 4)) = info.crc
    rw [hbehind, take_left' (length_le_bytes 4 _), word_of_bytes]
  · show BitVec.ofNat 32 (leValue ((info.bytes.drop 8).take 4)) = info.uvcinfoChange
    rw [hpayload, payload, take_left' (length_le_bytes 4 _), word_of_bytes]
  · exact hdata

/-! ## Loading and saving -/

theorem length_flash_base_read (base : FlashBase) (addr : Nat) (info : UvcInfo) :
    (flashBaseRead base addr info.bytes).1.length = infoSize := by
  cases hinit : base.sFlashBaseInited with
  | true =>
    rw [flash_base_read_eq hinit (by rw [length_bytes]; decide), length_read, length_bytes]
  | false =>
    rw [flashBaseRead, if_neg (by rw [hinit]; decide), length_bytes]

def readInfoData (base : FlashBase) (flashAddr : Nat) (uvcInfoData : UvcInfo) : UvcInfo × Int :=
  let info := UvcInfo.ofBytes (flashBaseRead base flashAddr uvcInfoData.bytes).1
    (length_flash_base_read base flashAddr uvcInfoData)
  if info.size = BitVec.ofNat 32 (infoSize - 8) then
    if info.crc = infoCRC info then (info, 0)
    else (UvcInfo.zero, -1)
  else (UvcInfo.zero, -1)

def uvcInfoOption (arch : Arch) (base : FlashBase) (uvcInfoData : UvcInfo) : FlashBase × UvcInfo :=
  let base := flashBaseInit base
  let main := readInfoData base (uvcInfoAddr arch) uvcInfoData
  if main.2 ≠ 0 then (base, (readInfoData base (uvcInfoBakAddr arch) main.1).1)
  else (base, main.1)

def checkFlashMemData (base : FlashBase) (flashAddr : Nat) (mem : List Byte) : Int :=
  if (flashBaseRead base flashAddr (replicate mem.length 0)).1 ≠ mem then -1 else 0

/-- The record with the fields that a save fills in. -/
def stamp (info : UvcInfo) : UvcInfo :=
  let info := { info with
    size := BitVec.ofNat 32 (infoSize - 8)
    uvcinfoChange := 1 }
  { info with crc := infoCRC info }

def uvcInfoSaveData (arch : Arch) (base : FlashBase) (uvcInfoData : UvcInfo) :
    FlashBase × UvcInfo × Int :=
  let info := stamp uvcInfoData
  let base := (flashBaseWrite base (uvcInfoAddr arch) info.bytes).1
  if checkFlashMemData base (uvcInfoAddr arch) info.bytes ≠ 0 then (base, info, -1)
  else
    let base := (flashBaseWrite base (uvcInfoBakAddr arch) info.bytes).1
    if checkFlashMemData base (uvcInfoBakAddr arch) info.bytes ≠ 0 then (base, info, -1)
    else (base, info, 0)

/-! ## Copies

A copy is the record at an address, if it passes the checks of `readInfoData`. -/

/-- What `readInfoData` accepts. -/
def Good (info : UvcInfo) : Prop :=
  info.size = BitVec.ofNat 32 (infoSize - 8) ∧ info.crc = infoCRC info

instance (info : UvcInfo) : Decidable (Good info) := inferInstanceAs (Decidable (_ ∧ _))

def recordAt (flash : Nat → Byte) (addr : Nat) : UvcInfo :=
  UvcInfo.ofBytes (Memory.read flash addr infoSize) Memory.length_read

def copyAt (flash : Nat → Byte) (addr : Nat) : Option UvcInfo :=
  if Good (recordAt flash addr) then some (recordAt flash addr) else none

theorem stamp_good (info : UvcInfo) : Good (stamp info) := ⟨rfl, rfl⟩

theorem zero_not_good : ¬ Good UvcInfo.zero := fun h => absurd h.1 (by decide)

theorem good_ne_zero (h : Good info) : info ≠ UvcInfo.zero := by
  rintro rfl
  exact zero_not_good h

theorem copy_good (h : copyAt flash addr = some info) : Good info := by
  obtain ⟨hgood, hrecord⟩ := ite_none_right_eq_some.mp h
  exact some.inj hrecord ▸ hgood

theorem copy_of_record (hrecord : recordAt flash addr = info) (hgood : Good info) :
    copyAt flash addr = some info := by
  rw [copyAt, hrecord, if_pos hgood]

theorem copy_write_same (hgood : Good info) :
    copyAt (Memory.write flash addr info.bytes) addr = some info := by
  have hbytes : read (write flash addr info.bytes) addr infoSize = info.bytes := by
    rw [← length_bytes info]
    exact read_write_same
  refine copy_of_record ?_ hgood
  rw [recordAt]
  simp only [hbytes]
  exact of_bytes_bytes info

theorem copy_write_other {other : Nat} (hlen : content.length = infoSize)
    (h : addr + infoSize ≤ other ∨ other + infoSize ≤ addr) :
    copyAt (Memory.write flash other content) addr = copyAt flash addr := by
  have hsame : read (write flash other content) addr infoSize =
      read flash addr infoSize :=
    read_write_disjoint (by rw [hlen]; exact h)
  have hrecord : recordAt (write flash other content) addr = recordAt flash addr := by
    unfold recordAt
    simp only [hsame]
  rw [copyAt, hrecord, ← copyAt]

theorem copies_apart (arch : Arch) : uvcInfoAddr arch + infoSize ≤ uvcInfoBakAddr arch := by
  unfold uvcInfoAddr uvcInfoBakAddr infoSize
  omega

/-- `readInfoData` checks the record at the address. -/
theorem read_info_data_eq (hinit : base.sFlashBaseInited = true) (addr : Nat) (info : UvcInfo) :
    readInfoData base addr info =
      if Good (recordAt base.flash addr) then (recordAt base.flash addr, 0)
      else (UvcInfo.zero, -1) := by
  have hbytes : (flashBaseRead base addr info.bytes).1 = read base.flash addr infoSize := by
    rw [flash_base_read_eq hinit (by rw [length_bytes]; decide), length_bytes]
  have hrecord : ofBytes (flashBaseRead base addr info.bytes).1
      (length_flash_base_read base addr info) = recordAt base.flash addr := by
    unfold recordAt
    simp only [hbytes]
  rw [readInfoData, hrecord]
  by_cases hgood : Good (recordAt base.flash addr)
  · rw [if_pos hgood.1, if_pos hgood.2, if_pos hgood]
  · rw [if_neg hgood]
    by_cases hsize : (recordAt base.flash addr).size = BitVec.ofNat 32 (infoSize - 8)
    · rw [if_pos hsize, if_neg (fun hcrc => hgood ⟨hsize, hcrc⟩)]
    · rw [if_neg hsize]

/-- It loads the copy, and the default where there is none. -/
theorem read_info_data_some {copy : UvcInfo} (hinit : base.sFlashBaseInited = true)
    (hcopy : copyAt base.flash addr = some copy) : readInfoData base addr info = (copy, 0) := by
  obtain ⟨hgood, hrecord⟩ := ite_none_right_eq_some.mp hcopy
  rw [read_info_data_eq hinit, if_pos hgood, some.inj hrecord]

theorem read_info_data_none (hinit : base.sFlashBaseInited = true)
    (hcopy : copyAt base.flash addr = none) : readInfoData base addr info = (UvcInfo.zero, -1) := by
  rw [read_info_data_eq hinit, if_neg (by simpa [copyAt] using hcopy)]

/-- The record that a restart loads, if one of the copies is good. -/
def loaded (arch : Arch) (flash : Nat → Byte) : Option UvcInfo :=
  (copyAt flash (uvcInfoAddr arch)).or (copyAt flash (uvcInfoBakAddr arch))

theorem uvc_info_option_eq (arch : Arch) (base : FlashBase) (info : UvcInfo) :
    uvcInfoOption arch base info =
      (flashBaseInit base, (loaded arch base.flash).getD UvcInfo.zero) := by
  have hinit : (flashBaseInit base).sFlashBaseInited = true := rfl
  cases hmain : copyAt base.flash (uvcInfoAddr arch) with
  | some main =>
    rw [uvcInfoOption, read_info_data_some hinit hmain, loaded, hmain]
    rfl
  | none =>
    rw [uvcInfoOption, read_info_data_none hinit hmain, loaded, hmain, none_or]
    cases hbak : copyAt base.flash (uvcInfoBakAddr arch) with
    | some bak =>
      rw [read_info_data_some hinit hbak]
      rfl
    | none =>
      rw [read_info_data_none hinit hbak]
      rfl

theorem check_flash_mem_data_store {mem : List Byte} (hinit : base.sFlashBaseInited = true)
    (hlen : mem.length = infoSize) : checkFlashMemData (base.store addr mem) addr mem = 0 := by
  have hinit' : (base.store addr mem).sFlashBaseInited = true := hinit
  have hsize : (replicate mem.length (0 : Byte)).length + 1022 < 2 ^ 32 := by
    rw [length_replicate, hlen]
    decide
  have hread : flashBaseRead (base.store addr mem) addr (replicate mem.length 0) =
      (read (base.store addr mem).flash addr (replicate mem.length (0 : Byte)).length,
        (replicate mem.length (0 : Byte)).length) :=
    flash_base_read_eq hinit' hsize
  rw [checkFlashMemData, hread, length_replicate, flash_store, read_write_same]
  exact if_neg fun hne => hne rfl

/-- The flash after both copies are written. -/
def storeCopies (arch : Arch) (base : FlashBase) (info : UvcInfo) : FlashBase :=
  (base.store (uvcInfoAddr arch) info.bytes).store (uvcInfoBakAddr arch) info.bytes

theorem write_info (addr : Nat) (hinit : base.sFlashBaseInited = true) (info : UvcInfo) :
    flashBaseWrite base addr info.bytes = (base.store addr info.bytes, infoSize) := by
  rw [flash_base_write_eq hinit (by rw [length_bytes]; decide), length_bytes]

theorem uvc_info_save_data_eq (arch : Arch) (hinit : base.sFlashBaseInited = true)
    (info : UvcInfo) :
    uvcInfoSaveData arch base info = (storeCopies arch base (stamp info), stamp info, 0) := by
  have hlen : (stamp info).bytes.length = infoSize := length_bytes (stamp info)
  have hzero : ¬ ((0 : Int) ≠ 0) := fun hne => hne rfl
  have hmain : (base.store (uvcInfoAddr arch) (stamp info).bytes).sFlashBaseInited = true := hinit
  rw [uvcInfoSaveData, write_info _ hinit, check_flash_mem_data_store hinit hlen, if_neg hzero,
    write_info _ hmain]
  dsimp only
  rw [check_flash_mem_data_store hmain hlen, if_neg hzero]
  rfl

/-! ## Saves and power losses -/

/-- The application over its restarts: the flash, `g_UvcInfoData`, the record whose main copy was
written last and the one before, and whether some save has completed. -/
structure InfoState where
  base : FlashBase
  uvcInfoData : UvcInfo
  last : Option UvcInfo
  previous : Option UvcInfo
  completed : Bool

/-- Where a save loses its power: before it writes, in the write of the main copy, between the
copies or in the write of the backup copy. The blocks that a cut write leaves are any bytes. -/
inductive Cut where
  | before
  | main (content : List Byte)
  | between
  | bak (content : List Byte)

/-- A save that returns, a save that loses its power, or a restart between saves. -/
inductive Request where
  | save (info : UvcInfo)
  | lose (info : UvcInfo) (cut : Cut)
  | restart

/-- What a cut write may leave: its own blocks, in a state that does not pass. -/
def Torn (base : FlashBase) (addr : Nat) (content : List Byte) : Prop :=
  content.length = tempSize addr infoSize ∧
    (readInfoData (flashBaseTorn base addr content) addr UvcInfo.zero).2 ≠ 0

instance (base : FlashBase) (addr : Nat) (content : List Byte) :
    Decidable (Torn base addr content) :=
  inferInstanceAs (Decidable (_ ∧ _))

def mainWritten (arch : Arch) (s : InfoState) (info : UvcInfo) : InfoState :=
  { s with
    base := (flashBaseWrite s.base (uvcInfoAddr arch) (stamp info).bytes).1
    last := some (stamp info)
    previous := s.last }

/-- The flash after the cut. -/
def powerLoss (arch : Arch) (s : InfoState) (info : UvcInfo) : Cut → Option InfoState
  | .before => some s
  | .main content =>
    if Torn s.base (uvcInfoAddr arch) content then
      some { s with base := flashBaseTorn s.base (uvcInfoAddr arch) content }
    else none
  | .between => some (mainWritten arch s info)
  | .bak content =>
    let s := mainWritten arch s info
    if Torn s.base (uvcInfoBakAddr arch) content then
      some { s with base := flashBaseTorn s.base (uvcInfoBakAddr arch) content }
    else none

/-- The device starts with the flash that is there. -/
def restart (arch : Arch) (s : InfoState) : InfoState :=
  let option := uvcInfoOption arch { s.base with sFlashBaseInited := false } UvcInfo.zero
  { s with base := option.1, uvcInfoData := option.2 }

def infoStep (arch : Arch) (s : InfoState) : Request → Option InfoState
  | .save info =>
    let saved := uvcInfoSaveData arch s.base info
    some {
      base := saved.1
      uvcInfoData := saved.2.1
      last := some saved.2.1
      previous := s.last
      completed := s.completed || decide (saved.2.2 = 0) }
  | .lose info cut => (powerLoss arch s info cut).map (restart arch)
  | .restart => some (restart arch s)

/-- The first start. A record that is on the flash counts as saved. -/
def boot (arch : Arch) (flash : Nat → Byte) : InfoState :=
  restart arch {
    base := { sFlashBaseInited := false, flash }
    uvcInfoData := UvcInfo.zero
    last := loaded arch flash
    previous := loaded arch flash
    completed := (loaded arch flash).isSome }

/-- The loaded record is the last or the previously saved one, and not the default once some save
has completed. -/
structure Kept (s : InfoState) : Prop where
  saved : s.last = some s.uvcInfoData ∨ s.previous = some s.uvcInfoData ∨
    s.uvcInfoData = UvcInfo.zero ∧ s.completed = false
  nonzero : s.completed = true → s.uvcInfoData ≠ UvcInfo.zero

/-- A copy that may be loaded. -/
def CopyKept (s : InfoState) : Option UvcInfo → Prop
  | some copy => s.last = some copy ∨ s.previous = some copy
  | none => s.completed = false

/-- The condition on a step: where the write of the main copy loses its power, the backup copy may
be loaded. -/
def LossOk (arch : Arch) (s : InfoState) : Request → Prop
  | .lose _ (.main _) => CopyKept s (copyAt s.base.flash (uvcInfoBakAddr arch))
  | _ => True

/-- What holds between the requests. -/
structure InfoInv (arch : Arch) (s : InfoState) : Prop where
  inited : s.base.sFlashBaseInited = true
  option : s.uvcInfoData = (loaded arch s.base.flash).getD UvcInfo.zero
  last : ∀ info, s.last = some info → Good info
  previous : ∀ info, s.previous = some info → Good info

variable {s s' : InfoState} {req : Request}

theorem copy_kept_base (s : InfoState) (base : FlashBase) (copy : Option UvcInfo) :
    CopyKept { s with base } copy ↔ CopyKept s copy := by
  cases copy <;> rfl

theorem loaded_good (h : loaded arch flash = some info) : Good info := by
  rcases or_eq_some_iff.mp h with hmain | ⟨-, hbak⟩
  · exact copy_good hmain
  · exact copy_good hbak

theorem loaded_of_main (h : copyAt flash (uvcInfoAddr arch) = some info) :
    loaded arch flash = some info := by
  rw [loaded, h]
  rfl

theorem kept_iff (h : InfoInv arch s) : Kept s ↔ CopyKept s (loaded arch s.base.flash) := by
  have hoption := h.option
  cases hload : loaded arch s.base.flash with
  | some copy =>
    have hne := good_ne_zero (loaded_good hload)
    rw [hload] at hoption
    obtain rfl : s.uvcInfoData = copy := hoption
    constructor
    · rintro ⟨hlast | hprevious | ⟨hzero, -⟩, -⟩
      · exact Or.inl hlast
      · exact Or.inr hprevious
      · exact absurd hzero hne
    · rintro (hlast | hprevious)
      · exact ⟨Or.inl hlast, fun _ => hne⟩
      · exact ⟨Or.inr (Or.inl hprevious), fun _ => hne⟩
  | none =>
    rw [hload] at hoption
    replace hoption : s.uvcInfoData = zero := hoption
    constructor
    · intro hkept
      show s.completed = false
      by_contra hcompleted
      exact hkept.nonzero (Bool.not_eq_false _ ▸ hcompleted) hoption
    · intro hcompleted
      refine ⟨Or.inr (Or.inr ⟨hoption, hcompleted⟩), fun htrue => ?_⟩
      rw [show s.completed = false from hcompleted] at htrue
      cases htrue

theorem restart_eq (arch : Arch) (s : InfoState) :
    restart arch s = { s with
      base := flashBaseInit s.base
      uvcInfoData := (loaded arch s.base.flash).getD UvcInfo.zero } := by
  rw [restart, uvc_info_option_eq]
  rfl

theorem restart_flash (arch : Arch) (s : InfoState) :
    (restart arch s).base.flash = s.base.flash := by
  rw [restart_eq]
  rfl

theorem restart_completed (arch : Arch) (s : InfoState) :
    (restart arch s).completed = s.completed := by
  rw [restart_eq]

theorem restart_inv (hlast : ∀ info, s.last = some info → Good info)
    (hprevious : ∀ info, s.previous = some info → Good info) : InfoInv arch (restart arch s) := by
  rw [restart_eq]
  exact ⟨rfl, rfl, hlast, hprevious⟩

theorem restart_kept_iff (hlast : ∀ info, s.last = some info → Good info)
    (hprevious : ∀ info, s.previous = some info → Good info) {copy : Option UvcInfo}
    (hcopy : loaded arch s.base.flash = copy) : Kept (restart arch s) ↔ CopyKept s copy := by
  have hinv : InfoInv arch (restart arch s) := restart_inv hlast hprevious
  rw [kept_iff hinv, restart_flash, hcopy, restart_eq]
  cases copy <;> rfl

/-! ### What the writes leave -/

theorem align_main (arch : Arch) : alignOffset (uvcInfoAddr arch) = uvcInfoAddr arch := by
  cases arch <;> rfl

theorem align_bak (arch : Arch) : alignOffset (uvcInfoBakAddr arch) = uvcInfoBakAddr arch := by
  cases arch <;> rfl

theorem temp_size_main (arch : Arch) : tempSize (uvcInfoAddr arch) infoSize = infoSize := by
  cases arch <;> rfl

theorem temp_size_bak (arch : Arch) : tempSize (uvcInfoBakAddr arch) infoSize = infoSize := by
  cases arch <;> rfl

theorem torn_copy (hinit : base.sFlashBaseInited = true) (htorn : Torn base addr content) :
    copyAt (flashBaseTorn base addr content).flash addr = none := by
  cases hcopy : copyAt (flashBaseTorn base addr content).flash addr with
  | none => rfl
  | some copy =>
    have hinit' : (flashBaseTorn base addr content).sFlashBaseInited = true :=
      (inited_torn _ _ _).trans hinit
    have hbad := htorn.2
    rw [read_info_data_some hinit' hcopy] at hbad
    exact absurd rfl hbad

theorem loaded_torn_main (hinit : base.sFlashBaseInited = true)
    (htorn : Torn base (uvcInfoAddr arch) content) :
    loaded arch (flashBaseTorn base (uvcInfoAddr arch) content).flash =
      copyAt base.flash (uvcInfoBakAddr arch) := by
  have hlen : content.length = infoSize := htorn.1.trans (temp_size_main arch)
  rw [loaded, torn_copy hinit htorn, none_or, flashBaseTorn, align_main, flash_store]
  exact copy_write_other hlen (Or.inr (copies_apart arch))

theorem copy_store_main (arch : Arch) (base : FlashBase) (info : UvcInfo) :
    copyAt (base.store (uvcInfoAddr arch) (stamp info).bytes).flash (uvcInfoAddr arch) =
      some (stamp info) := by
  rw [flash_store]
  exact copy_write_same (stamp_good info)

/-- The main copy is left as it is where the backup copy is written or torn. -/
theorem loaded_store_bak (arch : Arch) (base : FlashBase) (info : UvcInfo)
    (hlen : content.length = infoSize) :
    loaded arch ((base.store (uvcInfoAddr arch) (stamp info).bytes).store (uvcInfoBakAddr arch)
      content).flash = some (stamp info) := by
  apply loaded_of_main
  rw [flash_store, copy_write_other hlen (Or.inl (copies_apart arch))]
  exact copy_store_main arch base info

theorem main_written_base (hinit : s.base.sFlashBaseInited = true) (info : UvcInfo) :
    (mainWritten arch s info).base = s.base.store (uvcInfoAddr arch) (stamp info).bytes := by
  rw [mainWritten, write_info _ hinit]

/-! ### Steps and runs -/

/-- A step from a good state leads to a good state exactly if it meets the condition. -/
theorem info_step_ok (h : InfoInv arch s) (hkept : Kept s) (hstep : infoStep arch s req = some s') :
    InfoInv arch s' ∧ (Kept s' ↔ LossOk arch s req) := by
  have hold : CopyKept s (loaded arch s.base.flash) := (kept_iff h).mp hkept
  have hagain : Kept (restart arch s) ↔ CopyKept s (loaded arch s.base.flash) :=
    restart_kept_iff h.last h.previous rfl
  have hstamped : ∀ info info', some (stamp info) = some info' → Good info' := by
    rintro info info' heq
    exact some.inj heq ▸ stamp_good info
  cases req with
  | restart =>
    obtain rfl := some.inj hstep
    exact ⟨restart_inv h.last h.previous, hagain.trans (iff_of_true hold trivial)⟩
  | save info =>
    rw [infoStep, uvc_info_save_data_eq arch h.inited] at hstep
    obtain rfl := some.inj hstep
    have hload : loaded arch (storeCopies arch s.base (stamp info)).flash = some (stamp info) :=
      loaded_store_bak arch s.base info (length_bytes _)
    have hinv : InfoInv arch { s with
        base := storeCopies arch s.base (stamp info)
        uvcInfoData := stamp info
        last := some (stamp info)
        previous := s.last
        completed := s.completed || true } :=
      ⟨h.inited, by rw [hload]; rfl, hstamped info, h.last⟩
    refine ⟨hinv, iff_of_true ((kept_iff hinv).mpr ?_) trivial⟩
    rw [hload]
    exact Or.inl rfl
  | lose info cut =>
    obtain ⟨s1, hloss, rfl⟩ := map_eq_some_iff.mp hstep
    cases cut with
    | before =>
      obtain rfl := some.inj hloss
      exact ⟨restart_inv h.last h.previous, hagain.trans (iff_of_true hold trivial)⟩
    | main content =>
      obtain ⟨htorn, hs1⟩ := ite_none_right_eq_some.mp hloss
      obtain rfl := some.inj hs1
      have hiff := restart_kept_iff
        (s := { s with base := flashBaseTorn s.base (uvcInfoAddr arch) content })
        h.last h.previous (loaded_torn_main h.inited htorn)
      exact ⟨restart_inv h.last h.previous, hiff.trans (copy_kept_base s _ _)⟩
    | between =>
      obtain rfl := some.inj hloss
      have hload : loaded arch (mainWritten arch s info).base.flash = some (stamp info) := by
        rw [main_written_base h.inited]
        exact loaded_of_main (copy_store_main arch s.base info)
      have hiff := restart_kept_iff (hstamped info) h.last hload
      exact ⟨restart_inv (hstamped info) h.last, hiff.trans (iff_of_true (Or.inl rfl) trivial)⟩
    | bak content =>
      obtain ⟨htorn, hs1⟩ := ite_none_right_eq_some.mp hloss
      obtain rfl := some.inj hs1
      have hload : loaded arch (flashBaseTorn (mainWritten arch s info).base
          (uvcInfoBakAddr arch) content).flash = some (stamp info) := by
        rw [main_written_base h.inited, flashBaseTorn, align_bak]
        exact loaded_store_bak arch s.base info (htorn.1.trans (temp_size_bak arch))
      have hiff := restart_kept_iff
        (s := { mainWritten arch s info with base := flashBaseTorn _ _ _ })
        (hstamped info) h.last hload
      exact ⟨restart_inv (hstamped info) h.last, hiff.trans (iff_of_true (Or.inl rfl) trivial)⟩

theorem boot_inv (arch : Arch) (flash : Nat → Byte) : InfoInv arch (boot arch flash) :=
  restart_inv (fun _ h => loaded_good h) fun _ h => loaded_good h

theorem boot_kept (arch : Arch) (flash : Nat → Byte) : Kept (boot arch flash) := by
  have hiff : Kept (boot arch flash) ↔ CopyKept _ (loaded arch flash) :=
    restart_kept_iff (fun _ h => loaded_good h) (fun _ h => loaded_good h) rfl
  rw [hiff]
  cases hload : loaded arch flash with
  | some copy => exact Or.inl rfl
  | none => rfl

/-- In a run from any flash, every restart loads the last or the previously saved record exactly if
the backup copy may be loaded whenever the write of the main copy loses its power. -/
theorem info_kept_iff (arch : Arch) (flash : Nat → Byte) {requests : List Request}
    (hrun : Transition.exec (infoStep arch) (boot arch flash) requests = some s') :
    Transition.Always (infoStep arch) Kept (boot arch flash) requests ↔
      Transition.AllSteps (infoStep arch) (LossOk arch) (boot arch flash) requests :=
  Transition.always_iff (A := fun _ => True) (I := InfoInv arch)
    (fun _ _ _ _ hinv hkept hstep => info_step_ok hinv hkept hstep) (fun _ _ => trivial)
    (boot_inv arch flash) (boot_kept arch flash) hrun

theorem info_kept_between :
    Transition.Always (infoStep .other) Kept (boot .other fun _ => 0xff)
        [.save UvcInfo.zero, .lose UvcInfo.zero .between, .restart] ↔
      Transition.AllSteps (infoStep .other) (LossOk .other) (boot .other fun _ => 0xff)
        [.save UvcInfo.zero, .lose UvcInfo.zero .between, .restart] :=
  info_kept_iff .other (fun _ => 0xff) rfl

/-! ### A record that is lost -/

/-- A cut write may leave zeros. -/
theorem torn_zero (hinit : base.sFlashBaseInited = true) (halign : alignOffset addr = addr)
    (hsize : tempSize addr infoSize = infoSize) : Torn base addr UvcInfo.zero.bytes := by
  have hrecord : recordAt (flashBaseTorn base addr zero.bytes).flash addr =
      zero := by
    have hbytes : read (write base.flash addr zero.bytes) addr infoSize =
        zero.bytes := by
      rw [← length_bytes zero]
      exact read_write_same
    rw [flashBaseTorn, halign, flash_store, recordAt]
    simp only [hbytes]
    exact of_bytes_bytes zero
  have hinit' : (flashBaseTorn base addr zero.bytes).sFlashBaseInited = true :=
    (inited_torn _ _ _).trans hinit
  refine ⟨(length_bytes _).trans hsize.symm, ?_⟩
  rw [read_info_data_eq hinit', hrecord, if_neg zero_not_good]
  decide

def cutSaves : List Request :=
  [.save UvcInfo.zero, .lose UvcInfo.zero (.bak UvcInfo.zero.bytes),
    .lose UvcInfo.zero (.main UvcInfo.zero.bytes)]

theorem save_ok (h : InfoInv arch s) (hkept : Kept s) (info : UvcInfo) :
    ∃ s', infoStep arch s (.save info) = some s' ∧ InfoInv arch s' ∧ s'.completed = true := by
  have hstep : infoStep arch s (.save info) = some _ := rfl
  refine ⟨_, hstep, (info_step_ok h hkept hstep).1, ?_⟩
  rw [uvc_info_save_data_eq arch h.inited]
  exact Bool.or_true _

theorem main_written_inited (hinit : s.base.sFlashBaseInited = true) (info : UvcInfo) :
    (mainWritten arch s info).base.sFlashBaseInited = true := by
  rw [main_written_base hinit, inited_store]
  exact hinit

theorem lose_bak_ok (hinit : s.base.sFlashBaseInited = true) {info : UvcInfo}
    (htorn : Torn (mainWritten arch s info).base (uvcInfoBakAddr arch) content) :
    ∃ s', infoStep arch s (.lose info (.bak content)) = some s' ∧
      s'.base.sFlashBaseInited = true ∧ copyAt s'.base.flash (uvcInfoBakAddr arch) = none ∧
      s'.completed = s.completed := by
  have hstep : infoStep arch s (.lose info (.bak content)) = some (restart arch {
      mainWritten arch s info with
      base := flashBaseTorn (mainWritten arch s info).base (uvcInfoBakAddr arch) content }) := by
    rw [infoStep, powerLoss, if_pos htorn, map_some]
  refine ⟨_, hstep, ?_, ?_, ?_⟩
  · rw [restart_eq]
    rfl
  · rw [restart_flash]
    exact torn_copy (main_written_inited hinit info) htorn
  · rw [restart_completed]
    rfl

theorem lose_main_ok (hinit : s.base.sFlashBaseInited = true) (info : UvcInfo)
    (htorn : Torn s.base (uvcInfoAddr arch) content)
    (hbak : copyAt s.base.flash (uvcInfoBakAddr arch) = none) :
    ∃ s', infoStep arch s (.lose info (.main content)) = some s' ∧
      s'.completed = s.completed ∧ s'.uvcInfoData = UvcInfo.zero := by
  have hstep : infoStep arch s (.lose info (.main content)) = some (restart arch {
      s with base := flashBaseTorn s.base (uvcInfoAddr arch) content }) := by
    rw [infoStep, powerLoss, if_pos htorn, map_some]
  refine ⟨_, hstep, restart_completed _ _, ?_⟩
  rw [restart_eq]
  rw [loaded_torn_main hinit htorn, hbak]
  rfl

/-- After these saves the device loads the default, though the first save completed. -/
theorem record_lost : ∃ s', Transition.exec (infoStep .other) (boot .other fun _ => 0xff) cutSaves =
    some s' ∧ s'.completed = true ∧ s'.uvcInfoData = UvcInfo.zero := by
  obtain ⟨s1, hsave, hinv, hcompleted⟩ :=
    save_ok (boot_inv .other fun _ => 0xff) (boot_kept .other fun _ => 0xff) zero
  obtain ⟨s2, hbak, hinit, hnone, hsame⟩ := lose_bak_ok hinv.inited
    (torn_zero (main_written_inited hinv.inited zero) (align_bak .other)
      (temp_size_bak .other))
  obtain ⟨s3, hmain, hsame', hzero⟩ := lose_main_ok hinit zero
    (torn_zero hinit (align_main .other) (temp_size_main .other)) hnone
  refine ⟨s3, ?_, hsame'.trans (hsame.trans hcompleted), hzero⟩
  rw [cutSaves, Transition.exec_cons_eq_some]
  refine ⟨s1, hsave, ?_⟩
  rw [Transition.exec_cons_eq_some]
  refine ⟨s2, hbak, ?_⟩
  rw [Transition.exec_cons_eq_some]
  exact ⟨s3, hmain, rfl⟩

end FullhanRtos.InfoRecord
