import FullhanRtos.Lib.Sizes
import FullhanRtos.Lib.Word

/-!
# Serial flash

`sfud_read`, `sfud_write` and `sfud_erase` of `drivers/flash/sfud/src/sfud.c`, as the accesses to
the chip that their commands make. A read and a program command access the bytes that they are
given; an erase command erases the whole erase block in which its address lies. The outcome of each
command on the SPI bus, with the waiting for the chip, is an input.
-/

namespace FullhanRtos.Sfud

open List Word

/-! ## The chip -/

/-- What a command does to the bytes from `start` on. -/
inductive AccessKind where
  | read
  | program
  | erase
  deriving DecidableEq

structure Access where
  kind : AccessKind
  start : Nat
  length : Nat
  deriving DecidableEq

/-- The fields of `sfud_flash` of a chip that was found: its capacity, its erase granularity and, if
it has SFDP parameters, the sizes of its erasers, the smallest first. -/
structure SfudFlash where
  capacity : BitVec 32
  writeMode : BitVec 16
  eraseGran : BitVec 32
  eraser : Option (Fin 4 → BitVec 32)
  capacity_pos : 0 < capacity.toNat
  eraseGran_pos : 0 < eraseGran.toNat
  eraser_pos : ∀ sizes, eraser = some sizes → 0 < (sizes 0).toNat

def sfudWmPage256b : BitVec 16 := 1

def sfudWmByte : BitVec 16 := 2

def sfudWmAai : BitVec 16 := 4

/-- Whether the commands succeed, and the accesses they make. -/
abbrev Effect := Bool × List Access

/-- The check of the address bound, in 32 bits. -/
def outOfBound (flash : SfudFlash) (addr size : Nat) : Prop :=
  flash.capacity.toNat < Word.add32 addr size

instance (flash : SfudFlash) (addr size : Nat) : Decidable (outOfBound flash addr size) :=
  inferInstanceAs (Decidable (_ < _))

variable (flash : SfudFlash) (ok : Nat → Bool)

/-! ## Reading and erasing -/

def sfudRead (addr size : Nat) : Effect :=
  if outOfBound flash addr size then (false, []) else (ok 0, [⟨.read, addr, size⟩])

def sfudSfdpGetSuitableEraser (sizes : Fin 4 → BitVec 32) (addr eraseSize : Nat) : Fin 4 :=
  let fits (i : Fin 4) : Prop :=
    (sizes i).toNat ≠ 0 ∧ (sizes i).toNat ≤ eraseSize ∧ addr % (sizes i).toNat = 0
  if addr % (sizes 0).toNat ≠ 0 then 0
  else if fits 3 then 3
  else if fits 2 then 2
  else if fits 1 then 1
  else 0

/-- `cur_erase_size`; a partition may ask for 4 or 64 KiB. -/
def curEraseSize (eraseBlockSize : BitVec 32) (addr size : Nat) : Nat :=
  if eraseBlockSize = 0x1000 then 0x1000
  else if eraseBlockSize = 0x10000 then 0x10000
  else
    match flash.eraser with
    | some sizes => (sizes (sfudSfdpGetSuitableEraser sizes addr size)).toNat
    | none => flash.eraseGran.toNat

/-- The erase block of a size in which an address lies. -/
def eraseBlock (cur addr : Nat) : Access := ⟨.erase, addr / cur * cur, cur⟩

/-- The loop of `sfud_erase`, for at most as many rounds as there are bytes. -/
def eraseLoop (eraseBlockSize : BitVec 32) : Nat → Nat → Nat → Effect
  | 0, _, _ => (true, [])
  | rounds + 1, addr, size =>
    if size = 0 then (true, [])
    else
      let cur := curEraseSize flash eraseBlockSize addr size
      let next := if addr % cur ≠ 0 then cur - addr % cur else cur
      if ok rounds then
        if next < size then
          let (result, rest) :=
            eraseLoop eraseBlockSize rounds (Word.add32 addr next) (size - next)
          (result, eraseBlock cur addr :: rest)
        else (true, [eraseBlock cur addr])
      else (false, [eraseBlock cur addr])

def sfudErase (eraseBlockSize : BitVec 32) (addr size : Nat) : Effect :=
  if outOfBound flash addr size then (false, [])
  else if addr = 0 ∧ size = flash.capacity.toNat then
    (ok 0, [⟨.erase, 0, flash.capacity.toNat⟩])
  else eraseLoop flash ok eraseBlockSize size addr size

/-! ## Writing -/

def pageLoop (writeGran : Nat) : Nat → Nat → Nat → Effect
  | 0, _, _ => (true, [])
  | rounds + 1, addr, size =>
    if size = 0 then (true, [])
    else
      let room := if addr % writeGran ≠ 0 then writeGran - addr % writeGran else writeGran
      let dataSize := if room < size then room else size
      if ok rounds then
        let (result, rest) :=
          pageLoop writeGran rounds (Word.add32 addr dataSize) (size - dataSize)
        (result, ⟨.program, addr, dataSize⟩ :: rest)
      else (false, [⟨.program, addr, dataSize⟩])

def page256Or1ByteWrite (writeGran addr size : Nat) : Effect :=
  if outOfBound flash addr size then (false, []) else pageLoop ok writeGran size addr size

/-- The loop of `aai_write` over pairs of bytes, with the address and size that it leaves. -/
def aaiLoop : Nat → Nat → Nat → Effect × Nat × Nat
  | 0, addr, size => ((true, []), addr, size)
  | rounds + 1, addr, size =>
    if size < 2 then ((true, []), addr, size)
    else if ok rounds then
      let ((result, rest), addr', size') := aaiLoop rounds (Word.add32 addr 2) (size - 2)
      ((result, ⟨.program, addr, 2⟩ :: rest), addr', size')
    else ((false, [⟨.program, addr, 2⟩]), addr, size)

/-- The part of `aai_write` from an even address on. -/
def aaiEven (addr size : Nat) : Effect :=
  let ((result, accesses), addr, size) := aaiLoop ok (size / 2) addr size
  if result = true ∧ size = 1 then
    let (result, last) := page256Or1ByteWrite flash ok 1 addr 1
    (result, accesses ++ last)
  else (result, accesses)

def aaiWrite (addr size : Nat) : Effect :=
  if outOfBound flash addr size then (false, [])
  else if addr % 2 ≠ 0 then
    let (result, first) := page256Or1ByteWrite flash ok 1 addr 1
    if result then
      let (result, rest) := aaiEven flash ok (Word.add32 addr 1) (Word.sub32 size 1)
      (result, first ++ rest)
    else (false, first)
  else aaiEven flash ok addr size

/-- The mode `SFUD_WM_DUAL_BUFFER` is not implemented, and writes nothing. -/
def sfudWrite (addr size : Nat) : Effect :=
  if flash.writeMode &&& sfudWmPage256b ≠ 0 ∨ flash.writeMode &&& sfudWmByte ≠ 0 then
    page256Or1ByteWrite flash ok 256 addr size
  else if flash.writeMode &&& sfudWmAai ≠ 0 then aaiWrite flash ok addr size
  else (true, [])

/-! ## What is accessed -/

/-- All accesses are of a kind and lie in a range. -/
def Within (kind : AccessKind) (lo hi : Nat) (accesses : List Access) : Prop :=
  ∀ a ∈ accesses, a.kind = kind ∧ lo ≤ a.start ∧ a.start + a.length ≤ hi

/-- All accesses erase whole blocks, each with an address of a range in it. -/
def Blocks (lo hi : Nat) (accesses : List Access) : Prop :=
  ∀ a ∈ accesses, a.kind = .erase ∧ a.length ∣ a.start ∧
    ∃ x, lo ≤ x ∧ x < hi ∧ a.start ≤ x ∧ x < a.start + a.length

variable {flash ok} {kind : AccessKind} {lo hi lo' hi' addr size : Nat}
  {accesses rest : List Access}

theorem within_nil : Within kind lo hi [] := nofun

theorem within_cons {a : Access} :
    Within kind lo hi (a :: rest) ↔
      (a.kind = kind ∧ lo ≤ a.start ∧ a.start + a.length ≤ hi) ∧ Within kind lo hi rest :=
  forall_mem_cons

theorem within_append :
    Within kind lo hi (accesses ++ rest) ↔ Within kind lo hi accesses ∧ Within kind lo hi rest :=
  forall_mem_append

theorem Within.mono (h : Within kind lo hi accesses) (hlo : lo' ≤ lo) (hhi : hi ≤ hi') :
    Within kind lo' hi' accesses := by
  intro a ha
  obtain ⟨hkind, hstart, hend⟩ := h a ha
  exact ⟨hkind, hlo.trans hstart, hend.trans hhi⟩

theorem Blocks.mono (h : Blocks lo hi accesses) (hlo : lo' ≤ lo) (hhi : hi ≤ hi') :
    Blocks lo' hi' accesses := by
  intro a ha
  obtain ⟨hkind, hdvd, x, hx, hx', hblock⟩ := h a ha
  exact ⟨hkind, hdvd, x, hlo.trans hx, hx'.trans_le hhi, hblock⟩

theorem cur_erase_size_pos (flash : SfudFlash) (eraseBlockSize : BitVec 32) (addr size : Nat) :
    0 < curEraseSize flash eraseBlockSize addr size := by
  unfold curEraseSize
  split
  · omega
  · split
    · omega
    · split
      · rename_i sizes heraser
        unfold sfudSfdpGetSuitableEraser
        dsimp only
        split
        · exact flash.eraser_pos sizes heraser
        · split
          · rename_i hfits
            exact Nat.pos_of_ne_zero hfits.1
          · split
            · rename_i hfits
              exact Nat.pos_of_ne_zero hfits.1
            · split
              · rename_i hfits
                exact Nat.pos_of_ne_zero hfits.1
              · exact flash.eraser_pos sizes heraser
      · exact flash.eraseGran_pos

theorem erase_block_blocks {cur : Nat} (hcur : 0 < cur) (hlo : lo ≤ addr) (hhi : addr < hi) :
    Blocks lo hi [eraseBlock cur addr] := by
  intro a ha
  obtain rfl := mem_singleton.mp ha
  refine ⟨rfl, Nat.dvd_mul_left _ _, addr, hlo, hhi, Nat.div_mul_le_self _ _, ?_⟩
  exact Nat.lt_div_mul_add hcur

theorem erase_loop_blocks (eraseBlockSize : BitVec 32) (rounds : Nat)
    (hfits : addr + size ≤ 2 ^ 32) :
    Blocks addr (addr + size) (eraseLoop flash ok eraseBlockSize rounds addr size).2 := by
  induction rounds generalizing addr size with
  | zero => exact nofun
  | succ rounds ih =>
    rw [eraseLoop]
    split
    · exact nofun
    · rename_i hsize
      dsimp only
      have hcur := cur_erase_size_pos flash eraseBlockSize addr size
      generalize curEraseSize flash eraseBlockSize addr size = cur at hcur
      have hblock : Blocks addr (addr + size) [eraseBlock cur addr] :=
        erase_block_blocks hcur (le_refl _) (by omega)
      split
      · generalize (if addr % cur ≠ 0 then cur - addr % cur else cur) = next
        split
        · rename_i hnext
          have hadd : add32 addr next = addr + next := add32_eq (by omega)
          have hrest : Blocks addr (addr + size)
              (eraseLoop flash ok eraseBlockSize rounds (addr + next) (size - next)).2 :=
            (ih (by omega)).mono (by omega) (by omega)
          rw [hadd]
          exact forall_mem_cons.mpr ⟨hblock _ (mem_singleton_self _), hrest⟩
        · exact hblock
      · exact hblock

theorem sfud_erase_blocks (eraseBlockSize : BitVec 32) (hfits : addr + size ≤ 2 ^ 32) :
    Blocks addr (addr + size) (sfudErase flash ok eraseBlockSize addr size).2 := by
  unfold sfudErase
  split
  · exact nofun
  · split
    · rename_i hchip
      obtain ⟨rfl, rfl⟩ := hchip
      intro a ha
      obtain rfl := mem_singleton.mp ha
      have hpos := flash.capacity_pos
      exact ⟨rfl, Nat.dvd_zero _, 0, le_refl 0, by omega, le_refl 0, by simpa using hpos⟩
    · exact erase_loop_blocks eraseBlockSize size hfits

theorem sfud_read_within : Within .read addr (addr + size) (sfudRead flash ok addr size).2 := by
  unfold sfudRead
  split
  · exact within_nil
  · exact within_cons.mpr ⟨⟨rfl, le_refl _, le_refl _⟩, within_nil⟩

theorem page_loop_within (writeGran rounds : Nat) (hfits : addr + size ≤ 2 ^ 32) :
    Within .program addr (addr + size) (pageLoop ok writeGran rounds addr size).2 := by
  induction rounds generalizing addr size with
  | zero => exact within_nil
  | succ rounds ih =>
    rw [pageLoop]
    split
    · exact within_nil
    · rename_i hsize
      dsimp only
      generalize (if addr % writeGran ≠ 0 then writeGran - addr % writeGran else writeGran) = room
      generalize hdata : (if room < size then room else size) = dataSize
      have hle : dataSize ≤ size := by
        rw [← hdata]
        split <;> omega
      have hfirst : AccessKind.program = .program ∧ addr ≤ addr ∧ addr + dataSize ≤ addr + size :=
        ⟨rfl, le_refl _, by omega⟩
      split
      · by_cases hall : dataSize = size
        · -- Nothing is left to write behind the last part.
          have hrest : (pageLoop ok writeGran rounds (add32 addr dataSize)
              (size - dataSize)).2 = [] := by
            rw [hall, Nat.sub_self]
            cases rounds with
            | zero => rfl
            | succ rounds => rw [pageLoop, if_pos rfl]
          exact within_cons.mpr ⟨hfirst, hrest ▸ within_nil⟩
        · have hadd : add32 addr dataSize = addr + dataSize := add32_eq (by omega)
          exact within_cons.mpr ⟨hfirst, (ih (by omega)).mono (by omega) (by omega)⟩
      · exact within_cons.mpr ⟨hfirst, within_nil⟩

theorem page_write_within (writeGran : Nat) (hfits : addr + size ≤ 2 ^ 32) :
    Within .program addr (addr + size) (page256Or1ByteWrite flash ok writeGran addr size).2 := by
  unfold page256Or1ByteWrite
  split
  · exact within_nil
  · exact page_loop_within writeGran size hfits

/-- The loop over pairs stays in its range and leaves the rest of it. -/
theorem aai_loop_within (ok : Nat → Bool) (rounds : Nat) (hfits : addr + size ≤ 2 ^ 32) :
    Within .program addr (addr + size) (aaiLoop ok rounds addr size).1.2 ∧
      ((aaiLoop ok rounds addr size).2.2 ≠ 0 → addr ≤ (aaiLoop ok rounds addr size).2.1 ∧
        (aaiLoop ok rounds addr size).2.1 + (aaiLoop ok rounds addr size).2.2 = addr + size) := by
  induction rounds generalizing addr size with
  | zero => exact ⟨within_nil, fun _ => ⟨le_refl _, rfl⟩⟩
  | succ rounds ih =>
    rw [aaiLoop]
    split
    · exact ⟨within_nil, fun _ => ⟨le_refl _, rfl⟩⟩
    · rename_i hsize
      have hfirst : AccessKind.program = .program ∧ addr ≤ addr ∧ addr + 2 ≤ addr + size :=
        ⟨rfl, le_refl _, by omega⟩
      split
      · dsimp only
        by_cases hall : size = 2
        · have hrest : aaiLoop ok rounds (add32 addr 2) (size - 2) =
              ((true, []), add32 addr 2, 0) := by
            rw [hall]
            cases rounds with
            | zero => rfl
            | succ rounds => rw [aaiLoop, if_pos (by omega)]
          rw [hrest]
          exact ⟨within_cons.mpr ⟨hfirst, within_nil⟩, fun hne => absurd rfl hne⟩
        · have hadd : add32 addr 2 = addr + 2 := add32_eq (by omega)
          rw [hadd]
          have hpair : addr + 2 + (size - 2) ≤ 2 ^ 32 := by omega
          obtain ⟨hwithin, hleft⟩ := ih hpair
          refine ⟨within_cons.mpr ⟨hfirst, hwithin.mono (by omega) (by omega)⟩, fun hne => ?_⟩
          obtain ⟨hstart, hend⟩ := hleft hne
          exact ⟨(Nat.le_add_right _ _).trans hstart, hend.trans (by omega)⟩
      · exact ⟨within_cons.mpr ⟨hfirst, within_nil⟩, fun _ => ⟨le_refl _, rfl⟩⟩

theorem aai_even_within (hfits : addr + size ≤ 2 ^ 32) :
    Within .program addr (addr + size) (aaiEven flash ok addr size).2 := by
  have hloop := aai_loop_within ok (size / 2) hfits
  unfold aaiEven
  generalize aaiLoop ok (size / 2) addr size = loop at hloop ⊢
  rcases loop with ⟨⟨result, accesses⟩, addr', size'⟩
  obtain ⟨hwithin, hleft⟩ := hloop
  dsimp only at hwithin hleft ⊢
  split
  · rename_i hlast
    obtain ⟨hstart, hend⟩ := hleft (by omega)
    refine within_append.mpr ⟨hwithin, (page_write_within 1 ?_).mono hstart ?_⟩
    · omega
    · omega
  · exact hwithin

theorem aai_even_zero : aaiEven flash ok addr 0 = (true, []) := by
  simp [aaiEven, aaiLoop]

/-- The part behind a first byte at an odd address. -/
theorem aai_rest_within (hfits : addr + size ≤ 2 ^ 32) (hsize : 0 < size)
    (hodd : addr % 2 ≠ 0) :
    Within .program addr (addr + size)
      (aaiEven flash ok (Word.add32 addr 1) (Word.sub32 size 1)).2 := by
  by_cases hone : size = 1
  · have hsub : sub32 size 1 = 0 := by
      rw [sub32_eq hsize (by omega), hone]
    rw [hsub, aai_even_zero]
    exact within_nil
  · have hadd : add32 addr 1 = addr + 1 := add32_eq (by omega)
    have hsub : sub32 size 1 = size - 1 := sub32_eq hsize (by omega)
    exact (aai_even_within (by omega)).mono (by omega) (by omega)

theorem aai_write_within (hfits : addr + size ≤ 2 ^ 32) (hsize : 0 < size) :
    Within .program addr (addr + size) (aaiWrite flash ok addr size).2 := by
  have hfirst : Within .program addr (addr + size) (page256Or1ByteWrite flash ok 1 addr 1).2 :=
    (page_write_within 1 (by omega)).mono (le_refl _) (by omega)
  have hrest : addr % 2 ≠ 0 → Within .program addr (addr + size)
      (aaiEven flash ok (add32 addr 1) (sub32 size 1)).2 :=
    aai_rest_within hfits hsize
  unfold aaiWrite
  -- The two parts are named before the cases: a loop over 32-bit numbers is never unfolded.
  generalize page256Or1ByteWrite flash ok 1 addr 1 = byte at hfirst ⊢
  generalize aaiEven flash ok (add32 addr 1) (sub32 size 1) = even at hrest ⊢
  obtain ⟨result, first⟩ := byte
  obtain ⟨result', rest⟩ := even
  split
  · exact within_nil
  · split
    · rename_i hodd
      dsimp only
      split
      · exact within_append.mpr ⟨hfirst, hrest hodd⟩
      · exact hfirst
    · exact aai_even_within hfits

/-- A write of no byte to an AAI chip is left out: at an odd address it writes without end. -/
theorem sfud_write_within (hfits : addr + size ≤ 2 ^ 32)
    (hsize : flash.writeMode &&& sfudWmAai ≠ 0 → 0 < size) :
    Within .program addr (addr + size) (sfudWrite flash ok addr size).2 := by
  unfold sfudWrite
  split
  · exact page_write_within 256 hfits
  · split
    · rename_i haai
      exact aai_write_within hfits (hsize haai)
    · exact within_nil

end FullhanRtos.Sfud
