import FullhanRtos.Lib.Transition
import FullhanRtos.Lib.Word
import Mathlib.Order.Lattice

/-!
# Loading a code image from flash

`load_code` of `platform/loader/flash_load.c` with its consumer, the thread that copies or
decompresses what is loaded so far. The image is loaded up to the next block boundary of the flash,
then four blocks, then block by block, and after each load the loader adds to `loaded_size`. The
consumer polls that counter.

A step of the loader is a load or an assignment of the counter; `reads` records the loads.
`load_ok_iff` says for which images the counter is right in every interleaving.
-/

namespace FullhanRtos.Loader

open Transition Word Nat

/-! ## The image -/

abbrev flashLoadSize : Nat := 0x1000
abbrev hdrMagicNumber : Nat := 0xa7b4c9f8

abbrev cryptoNone : Nat := 0
abbrev cryptoLzo : Nat := 1
abbrev cryptoGzip : Nat := 2

/-- `struct tag_codeheader`, as it is in flash. -/
structure CodeHeader where
  magic : BitVec 32
  hdrlen : BitVec 32
  szcode : BitVec 32
  compressed : BitVec 32

/-- The image in `struct tag_codeloader`. -/
structure CodeLoader where
  mtdOffset : Nat
  bufHeadlen : Nat
  ldsize : Nat
  compressed : Nat
  mtdOffset_lt : mtdOffset < 2 ^ 32
  headlen_le : bufHeadlen ≤ flashLoadSize
  ldsize_lt : ldsize < 2 ^ 32

def getCodePartInfo (sflOffset : BitVec 32) (hdrbuf : CodeHeader) : Except Int CodeLoader :=
  if hdrbuf.magic.toNat ≠ hdrMagicNumber then .error (-5)
  else if hlen : hdrbuf.hdrlen.toNat ≤ flashLoadSize then
    .ok
      { mtdOffset := sflOffset.toNat
        bufHeadlen := hdrbuf.hdrlen.toNat
        ldsize := hdrbuf.szcode.toNat
        compressed := hdrbuf.compressed.toNat
        mtdOffset_lt := sflOffset.isLt
        headlen_le := hlen
        ldsize_lt := hdrbuf.szcode.isLt }
  else .error (-6)

def flAlignup (a : Nat) : Nat := add32 a (flashLoadSize - 1) / flashLoadSize * flashLoadSize

namespace CodeLoader

variable (info : CodeLoader)

def bufSize : Nat := flAlignup (add32 info.ldsize info.bufHeadlen)

/-- `preldsize`, up to the next block boundary of the flash. -/
def preldsize : Nat :=
  let preldsize := (0x10000 - info.mtdOffset % 0x10000) % 0x10000
  if info.ldsize < preldsize then add32 info.ldsize info.bufHeadlen else preldsize

/-- What is loaded after that. -/
def rest : Nat := sub32 (add32 info.ldsize info.bufHeadlen) info.preldsize

def blk64K : Nat := info.rest / 0x10000

def sztail : Nat := info.rest % 0x10000

def preldcnt : Nat := if 4 < info.blk64K then 4 else info.blk64K

/-- The address of a byte of the image in the flash. -/
def address (k : Nat) : Nat := add32 info.mtdOffset k

end CodeLoader

/-! ## The loader and the consumer -/

/-- Where `load_code` is: a load and the assignment after it are two steps. It ends in
`wait_decompress_done`, and `returned` is its return for an empty image. -/
inductive LoaderPc where
  | preload
  | preloaded
  | initial
  | initialLoaded
  | startup
  | block (i : Nat)
  | blockLoaded (i : Nat)
  | tailLoaded
  | waiting
  | returned
  deriving DecidableEq

/-- The decompressor's thread in `fbv_decompress`: it is in the loop of `copy_mem_code` or of
`pull_datum_size`, or works on what is there. -/
inductive Consumer where
  | off
  | started
  | copying
  | decompressing
  | pulling (ptr size : Nat)
  | done
  deriving DecidableEq

/-- The loader's data: `loaded_size`, what `st2buf` and the code's memory hold, and the loads so far
as offset and length. -/
structure LoaderState where
  pc : LoaderPc
  loadedSize : Nat
  buffer : Nat → Option UInt8
  reads : List (Nat × Nat)
  consumer : Consumer
  code : Nat → Option UInt8

def loadFlashCode (flash : Nat → UInt8) (s : LoaderState) (offset at' len : Nat) : LoaderState :=
  { s with
    buffer := fun j =>
      if at' ≤ j ∧ j < at' + len then some (flash (add32 offset (j - at'))) else s.buffer j
    reads := (offset, len) :: s.reads }

def loaderStep (info : CodeLoader) (flash : Nat → UInt8) (s : LoaderState) : Option LoaderState :=
  let behind := add32 info.mtdOffset info.preldsize
  match s.pc with
  | .preload =>
    if 0 < info.preldsize then
      some { loadFlashCode flash s info.mtdOffset 0 info.preldsize with pc := .preloaded }
    else some { s with loadedSize := 0, pc := .initial }
  | .preloaded =>
    some { s with loadedSize := sub32 info.preldsize info.bufHeadlen, pc := .initial }
  | .initial =>
    some
      { loadFlashCode flash s behind info.preldsize (info.preldcnt * 0x10000) with
        pc := .initialLoaded }
  | .initialLoaded =>
    some
      { s with loadedSize := add32 s.loadedSize (info.preldcnt * 0x10000), pc := .startup }
  | .startup => some { s with consumer := .started, pc := .block info.preldcnt }
  | .block i =>
    if i < info.blk64K then
      some
        { loadFlashCode flash s (add32 behind (i * 0x10000))
            (add32 info.preldsize (i * 0x10000)) 0x10000 with
          pc := .blockLoaded i }
    else if 0 < info.sztail then
      some
        { loadFlashCode flash s (add32 behind (i * 0x10000))
            (add32 info.preldsize (i * 0x10000)) info.sztail with
          pc := .tailLoaded }
    else some { s with pc := .waiting }
  | .blockLoaded i =>
    some { s with loadedSize := add32 s.loadedSize 0x10000, pc := .block (i + 1) }
  | .tailLoaded => some { s with loadedSize := add32 s.loadedSize info.sztail, pc := .waiting }
  | .waiting => none
  | .returned => none

/-- The condition of the loop the consumer is in. `st2buf` is the address of the buffer. -/
def Waits (info : CodeLoader) (st2buf : Nat) (s : LoaderState) : Prop :=
  let ramBuffer := add32 st2buf info.bufHeadlen
  match s.consumer with
  | .copying => s.loadedSize ≠ info.ldsize
  | .pulling ptr size =>
    add32 ramBuffer s.loadedSize < min (add32 ptr size) (add32 ramBuffer info.ldsize)
  | _ => False

instance (info : CodeLoader) (st2buf : Nat) (s : LoaderState) :
    Decidable (Waits info st2buf s) := by
  unfold Waits
  cases s.consumer <;> infer_instance

/-- A step of the consumer: a round of its loop, or to its end. -/
def consumerStep (info : CodeLoader) (st2buf : Nat) (s : LoaderState) : Option LoaderState :=
  match s.consumer with
  | .off => none
  | .started =>
    if info.compressed = cryptoNone then some { s with consumer := .copying }
    else if info.compressed = cryptoLzo ∨ info.compressed = cryptoGzip then
      some { s with consumer := .decompressing }
    else some { s with consumer := .done }
  | .copying =>
    if Waits info st2buf s then some s
    else
      some
        { s with
          code := fun k =>
            if k < info.ldsize then s.buffer (info.bufHeadlen + k) else s.code k
          consumer := .done }
  | .pulling _ _ =>
    if Waits info st2buf s then some s else some { s with consumer := .decompressing }
  | .decompressing => some { s with consumer := .done }
  | .done => none

/-- A step of one of the two, or a call of `pull_datum_size` by `unlzo`. -/
inductive LoadEvent where
  | load
  | consume
  | pull (ptr size : Nat)

def loadStep (info : CodeLoader) (flash : Nat → UInt8) (st2buf : Nat) (s : LoaderState) :
    LoadEvent → Option LoaderState
  | .load => loaderStep info flash s
  | .consume => consumerStep info st2buf s
  | .pull ptr size =>
    if s.consumer = .decompressing ∧ info.compressed = cryptoLzo then
      some { s with consumer := .pulling ptr size }
    else none

/-- `load_code` with the image known and `st2buf` allocated. -/
def loadStart (info : CodeLoader) : LoaderState where
  pc := if info.ldsize = 0 then .returned else .preload
  loadedSize := 0
  buffer := fun _ => none
  reads := []
  consumer := .off
  code := fun _ => none

/-! ## What should hold -/

/-- How often a byte of the image was read. -/
def readCount (info : CodeLoader) (s : LoaderState) (k : Nat) : Nat :=
  s.reads.countP fun read => sub32 (info.address k) read.1 < read.2

/-- The first `loaded_size` bytes of the RAM buffer are those of the image, a copied code is that of
the image, no byte is read twice, and when loading has ended all is loaded, every byte of the code
was read and the consumer's loop ends. -/
structure LoadOk (info : CodeLoader) (flash : Nat → UInt8) (st2buf : Nat) (s : LoaderState) :
    Prop where
  data : ∀ k < s.loadedSize, info.bufHeadlen + k < info.bufSize ∧
    s.buffer (info.bufHeadlen + k) = some (flash (info.address (info.bufHeadlen + k)))
  copied : s.consumer = .done → info.compressed = cryptoNone →
    ∀ k < info.ldsize, s.code k = some (flash (info.address (info.bufHeadlen + k)))
  once : ∀ k < info.bufHeadlen + info.ldsize, readCount info s k ≤ 1
  loaded : s.pc = .waiting → s.loadedSize = info.ldsize
  read : s.pc = .waiting → ∀ k < info.bufHeadlen + info.ldsize, readCount info s k = 1
  ends : s.pc = .waiting → ¬ Waits info st2buf s

/-- The header is in the first chunk, and the size of the buffer does not wrap. The first chunk is
the whole image if this ends before the next block boundary, and is empty if the image starts at
one. -/
def ChunksFit (info : CodeLoader) : Prop :=
  info.ldsize = 0 ∨
    info.ldsize + info.bufHeadlen + (flashLoadSize - 1) < 2 ^ 32 ∧
      (info.mtdOffset % 0x10000 = 0 → info.bufHeadlen = 0) ∧
      (info.mtdOffset % 0x10000 ≠ 0 → 0x10000 - info.mtdOffset % 0x10000 ≤ info.ldsize →
        info.bufHeadlen ≤ 0x10000 - info.mtdOffset % 0x10000)

variable {info : CodeLoader} {flash : Nat → UInt8} {st2buf : Nat} {s s' : LoaderState}
  {pc : LoaderPc} {offset at' len : Nat} {i : Nat}

/-! ## Images that fit -/

open CodeLoader

theorem preldsize_eq : info.preldsize =
    if info.mtdOffset % 0x10000 = 0 then 0
    else if info.ldsize < 0x10000 - info.mtdOffset % 0x10000 then
      add32 info.ldsize info.bufHeadlen
    else 0x10000 - info.mtdOffset % 0x10000 := by
  unfold preldsize
  by_cases haligned : info.mtdOffset % 0x10000 = 0
  · rw [haligned, if_pos rfl, Nat.sub_zero, mod_self]
    exact if_neg (Nat.not_lt_zero _)
  · have hmod := mod_lt info.mtdOffset (show 0 < 0x10000 by decide)
    rw [if_neg haligned, mod_eq_of_lt (by omega)]

theorem blocks_eq (info : CodeLoader) :
    info.blk64K * 0x10000 + info.sztail = info.rest := by
  exact div_add_mod' ..

/-- The parts of an image that fits. -/
structure Chunks (info : CodeLoader) : Prop where
  head : info.bufHeadlen ≤ info.preldsize
  parts : info.preldsize + (info.blk64K * 0x10000 + info.sztail) = info.bufHeadlen + info.ldsize
  cnt : info.preldcnt ≤ info.blk64K
  size : info.bufHeadlen + info.ldsize ≤ info.bufSize
  size_lt : info.bufHeadlen + info.ldsize < 2 ^ 32

theorem preldcnt_le : info.preldcnt ≤ info.blk64K := by
  unfold preldcnt
  split_ifs with hlarge
  · exact hlarge.le
  · exact le_refl _

theorem ChunksFit.chunks (h : ChunksFit info) (hsize : info.ldsize ≠ 0) : Chunks info := by
  obtain hzero | ⟨hlt, haligned, hunaligned⟩ := h
  · exact absurd hzero hsize
  have hsum : add32 info.ldsize info.bufHeadlen = info.ldsize + info.bufHeadlen :=
    add32_eq (by omega)
  obtain ⟨hhead, hle⟩ : info.bufHeadlen ≤ info.preldsize ∧
      info.preldsize ≤ info.ldsize + info.bufHeadlen := by
    rw [preldsize_eq, hsum]
    split_ifs with hboundary hsmall
    · exact ⟨(haligned hboundary).le, Nat.zero_le _⟩
    · exact ⟨Nat.le_add_left _ _, le_refl _⟩
    · exact ⟨hunaligned hboundary (not_lt.mp hsmall), by omega⟩
  have hrest : info.rest = info.ldsize + info.bufHeadlen - info.preldsize := by
    unfold rest
    rw [hsum]
    exact sub32_eq hle (by omega)
  refine ⟨hhead, ?_, preldcnt_le, ?_, by omega⟩
  · rw [blocks_eq]
    omega
  · unfold bufSize flAlignup
    rw [hsum, add32_eq hlt]
    show _ ≤ (_ + 0xfff) / 0x1000 * 0x1000
    omega

/-! ## The loop over the blocks -/

theorem loader_step_block (hat : s.pc = .block i) (hblk : i < info.blk64K) :
    loaderStep info flash s = some
      { loadFlashCode flash s (add32 (add32 info.mtdOffset info.preldsize) (i * 0x10000))
          (add32 info.preldsize (i * 0x10000)) 0x10000 with
        pc := .blockLoaded i } := by
  unfold loaderStep
  rw [hat]
  exact if_pos hblk

theorem loader_step_tail (hat : s.pc = .block i) (hblk : ¬ i < info.blk64K)
    (htail : 0 < info.sztail) :
    loaderStep info flash s = some
      { loadFlashCode flash s (add32 (add32 info.mtdOffset info.preldsize) (i * 0x10000))
          (add32 info.preldsize (i * 0x10000)) info.sztail with
        pc := .tailLoaded } := by
  unfold loaderStep
  rw [hat]
  exact (if_neg hblk).trans (if_pos htail)

theorem loader_step_end (hat : s.pc = .block i) (hblk : ¬ i < info.blk64K)
    (htail : ¬ 0 < info.sztail) : loaderStep info flash s = some { s with pc := .waiting } := by
  unfold loaderStep
  rw [hat]
  exact (if_neg hblk).trans (if_neg htail)

/-! ## The bytes that were loaded -/

/-- The first `n` bytes of the image were loaded, each once, and no others. -/
structure Loaded (info : CodeLoader) (flash : Nat → UInt8) (s : LoaderState) (n : Nat) : Prop where
  buffer : ∀ j < n, s.buffer j = some (flash (info.address j))
  reads : ∀ k < info.bufHeadlen + info.ldsize, readCount info s k = if k < n then 1 else 0

theorem Loaded.load {n len m offset at' : Nat} (h : Loaded info flash s n) (hchunks : Chunks info)
    (hoffset : offset = info.address n) (hat : at' = n) (hm : m = n + len)
    (hlen : m ≤ info.bufHeadlen + info.ldsize) (pc : LoaderPc) :
    Loaded info flash { loadFlashCode flash s offset at' len with pc } m where
  buffer := by
    subst hoffset hat hm
    intro j hj
    unfold loadFlashCode
    dsimp only
    split_ifs with hin
    · unfold address
      rw [add32_assoc, Nat.add_sub_cancel' hin.1]
    · exact h.buffer j (by omega)
  reads := by
    subst hoffset hat hm
    intro k hk
    have hcover : sub32 (info.address k) (info.address at') < len ↔ at' ≤ k ∧ k < at' + len := by
      have hlt := hchunks.size_lt
      unfold address
      rw [sub32_add32 _ (by omega)]
      exact sub32_lt_iff (by omega) (by omega)
    have hbefore := h.reads k hk
    unfold readCount at hbefore ⊢
    unfold loadFlashCode
    rw [List.countP_cons, hbefore]
    simp only [decide_eq_true_eq, hcover]
    split_ifs <;> omega

theorem Loaded.of_eq {n : Nat} (h : Loaded info flash s n) (hbuffer : s'.buffer = s.buffer)
    (hreads : s'.reads = s.reads) : Loaded info flash s' n where
  buffer := by
    rw [hbuffer]
    exact h.buffer
  reads := by
    unfold readCount
    rw [hreads]
    exact h.reads

/-- How much of the image is loaded, and how much of it `loaded_size` covers. -/
def filled (info : CodeLoader) : LoaderPc → Nat
  | .preload => 0
  | .preloaded => info.preldsize
  | .initial => info.preldsize
  | .initialLoaded => info.preldsize + info.preldcnt * 0x10000
  | .startup => info.preldsize + info.preldcnt * 0x10000
  | .block i => info.preldsize + i * 0x10000
  | .blockLoaded i => info.preldsize + (i * 0x10000 + 0x10000)
  | .tailLoaded => info.bufHeadlen + info.ldsize
  | .waiting => info.bufHeadlen + info.ldsize
  | .returned => 0

def published (info : CodeLoader) : LoaderPc → Nat
  | .preload => 0
  | .preloaded => 0
  | .initial => info.preldsize
  | .initialLoaded => info.preldsize
  | .startup => info.preldsize + info.preldcnt * 0x10000
  | .block i => info.preldsize + i * 0x10000
  | .blockLoaded i => info.preldsize + i * 0x10000
  | .tailLoaded => info.preldsize + info.blk64K * 0x10000
  | .waiting => info.bufHeadlen + info.ldsize
  | .returned => 0

/-- A code that is only copied is not decompressed. -/
def Consumer.decompresses : Consumer → Bool
  | .decompressing => true
  | .pulling _ _ => true
  | _ => false

/-- The index of the loop over the blocks is in its range. -/
def PcOk (info : CodeLoader) : LoaderPc → Prop
  | .block i => i ≤ info.blk64K
  | .blockLoaded i => i < info.blk64K
  | .returned => False
  | _ => True

/-- What holds between two steps. -/
structure LoadInv (info : CodeLoader) (flash : Nat → UInt8) (s : LoaderState) : Prop where
  pc : PcOk info s.pc
  counter : s.loadedSize = published info s.pc - info.bufHeadlen
  loaded : Loaded info flash s (filled info s.pc)
  copied : s.consumer = .done → info.compressed = cryptoNone →
    ∀ k < info.ldsize, s.code k = some (flash (info.address (info.bufHeadlen + k)))
  kind : s.consumer.decompresses = true → info.compressed ≠ cryptoNone

/-- The counter covers only what is loaded. -/
theorem published_le_filled (hchunks : Chunks info) (hpc : PcOk info pc) :
    published info pc ≤ filled info pc ∧ filled info pc ≤ info.bufHeadlen + info.ldsize := by
  have hparts := hchunks.parts
  have hcnt := hchunks.cnt
  cases pc
  case returned => exact absurd hpc not_false
  all_goals
    simp only [PcOk, published, filled] at hpc ⊢
    omega

theorem LoadInv.load_ok (hinv : LoadInv info flash s) (hchunks : Chunks info) :
    LoadOk info flash st2buf s := by
  obtain ⟨hpublished, hfilled⟩ := published_le_filled hchunks hinv.pc
  have hcounter := hinv.counter
  have hsize := hchunks.size
  have hended : s.pc = .waiting → s.loadedSize = info.ldsize := by
    intro hpc
    rw [hcounter, hpc]
    exact Nat.add_sub_cancel_left ..
  constructor
  case data =>
    intro k hk
    exact ⟨by omega, hinv.loaded.buffer _ (by omega)⟩
  case copied => exact hinv.copied
  case once =>
    intro k hk
    rw [hinv.loaded.reads k hk]
    split_ifs <;> omega
  case loaded => exact hended
  case read =>
    intro hpc k hk
    rw [hinv.loaded.reads k hk, hpc]
    exact if_pos hk
  case ends =>
    intro hpc
    unfold Waits
    rw [hended hpc]
    cases s.consumer with
    | copying => exact not_not.mpr rfl
    | pulling ptr size => exact not_lt.mpr (min_le_right _ _)
    | _ => exact not_false

theorem address_zero : info.address 0 = info.mtdOffset :=
  mod_eq_of_lt info.mtdOffset_lt

section

variable (hinv : LoadInv info flash s)

include hinv

theorem LoadInv.chunk (hchunks : Chunks info) (hpc : PcOk info pc)
    (hpublished : published info pc = published info s.pc)
    (hfilled : filled info pc = filled info s.pc + len)
    (hoffset : offset = info.address (filled info s.pc)) (hat : at' = filled info s.pc) :
    LoadInv info flash { loadFlashCode flash s offset at' len with pc } where
  pc := hpc
  counter := hinv.counter.trans (congrArg (· - info.bufHeadlen) hpublished.symm)
  loaded := hinv.loaded.load hchunks hoffset hat hfilled (published_le_filled hchunks hpc).2 pc
  copied := hinv.copied
  kind := hinv.kind

theorem LoadInv.assign {loadedSize : Nat} (hpc : PcOk info pc)
    (hfilled : filled info pc = filled info s.pc)
    (hcounter : loadedSize = published info pc - info.bufHeadlen) :
    LoadInv info flash { s with loadedSize, pc } where
  pc := hpc
  counter := hcounter
  loaded := (hfilled ▸ hinv.loaded).of_eq rfl rfl
  copied := hinv.copied
  kind := hinv.kind

theorem LoadInv.loader (hchunks : Chunks info) (hstep : loaderStep info flash s = some s') :
    LoadInv info flash s' := by
  have hpc := hinv.pc
  have hcounter := hinv.counter
  have hhead := hchunks.head
  have hparts := hchunks.parts
  have hcnt := hchunks.cnt
  have hlt := hchunks.size_lt
  unfold loaderStep at hstep
  generalize hat : s.pc = pc at hstep
  cases pc with
  | preload =>
    dsimp only at hstep
    split_ifs at hstep with hpos
    · cases hstep
      refine hinv.chunk hchunks trivial ?_ ?_ ?_ ?_
      all_goals rw [hat]
      · rfl
      · exact (Nat.zero_add _).symm
      · exact address_zero.symm
      · rfl
    · cases hstep
      have hpre : info.preldsize = 0 := Nat.eq_zero_of_not_pos hpos
      refine hinv.assign trivial ?_ ?_
      · rw [hat]
        exact hpre
      · show 0 = info.preldsize - info.bufHeadlen
        rw [hpre, Nat.zero_sub]
  | preloaded =>
    cases hstep
    exact hinv.assign trivial (by rw [hat]; rfl) (sub32_eq hhead (by omega))
  | initial =>
    cases hstep
    refine hinv.chunk hchunks trivial ?_ ?_ ?_ ?_
    all_goals rw [hat]
    · rfl
    · rfl
    · rfl
    · rfl
  | initialLoaded =>
    cases hstep
    refine hinv.assign trivial (by rw [hat]; rfl) ?_
    rw [hcounter, hat]
    simp only [published]
    rw [add32_eq (by omega)]
    omega
  | startup =>
    cases hstep
    rw [hat] at hcounter
    have hloaded := hinv.loaded
    rw [hat] at hloaded
    exact ⟨hcnt, hcounter, hloaded.of_eq rfl rfl, nofun, nofun⟩
  | block i =>
    rw [hat] at hpc
    have hle : i ≤ info.blk64K := hpc
    have hoffset : add32 (add32 info.mtdOffset info.preldsize) (i * 0x10000) =
        info.address (info.preldsize + i * 0x10000) := add32_assoc ..
    have hat' : add32 info.preldsize (i * 0x10000) = info.preldsize + i * 0x10000 :=
      add32_eq (by omega)
    dsimp only at hstep
    by_cases hblk : i < info.blk64K
    · rw [if_pos hblk] at hstep
      cases hstep
      refine hinv.chunk hchunks hblk ?_ ?_ ?_ ?_
      all_goals rw [hat]
      · rfl
      · exact (Nat.add_assoc ..).symm
      · exact hoffset
      · exact hat'
    · rw [if_neg hblk] at hstep
      have hi : i = info.blk64K := by omega
      subst hi
      by_cases htail : 0 < info.sztail
      · rw [if_pos htail] at hstep
        cases hstep
        refine hinv.chunk hchunks trivial ?_ ?_ ?_ ?_
        all_goals rw [hat]
        · rfl
        · exact hparts.symm.trans (Nat.add_assoc ..).symm
        · exact hoffset
        · exact hat'
      · rw [if_neg htail] at hstep
        cases hstep
        rw [Nat.eq_zero_of_not_pos htail, Nat.add_zero] at hparts
        refine hinv.assign trivial ?_ ?_
        · rw [hat]
          exact hparts.symm
        · rw [hcounter, hat]
          exact congrArg (· - info.bufHeadlen) hparts
  | blockLoaded i =>
    rw [hat] at hpc
    have hi : i < info.blk64K := hpc
    have hnext : info.preldsize + (i + 1) * 0x10000 =
        info.preldsize + (i * 0x10000 + 0x10000) := by omega
    cases hstep
    refine hinv.assign hi ?_ ?_
    · rw [hat]
      exact hnext
    · rw [hcounter, hat]
      simp only [published]
      rw [add32_eq (by omega)]
      omega
  | tailLoaded =>
    cases hstep
    refine hinv.assign trivial (by rw [hat]; rfl) ?_
    rw [hcounter, hat]
    simp only [published]
    rw [add32_eq (by omega)]
    omega
  | waiting | returned =>
    cases hstep

/-- A step of the consumer. It copies when the counter has the full size, and then all is there. -/
theorem LoadInv.consumer (hchunks : Chunks info) (hstep : consumerStep info st2buf s = some s') :
    LoadInv info flash s' := by
  have hok : LoadOk info flash st2buf s := hinv.load_ok hchunks
  obtain ⟨hpc, hcounter, hloaded, hcopied, hkind⟩ := hinv
  unfold consumerStep at hstep
  generalize hat : s.consumer = consumer at hstep hkind
  cases consumer with
  | started =>
    dsimp only at hstep
    split_ifs at hstep with hnone hknown
    · cases hstep
      refine ⟨hpc, hcounter, hloaded.of_eq rfl rfl, nofun, ?_⟩
      nofun
    · cases hstep
      refine ⟨hpc, hcounter, hloaded.of_eq rfl rfl, nofun, ?_⟩
      exact fun _ => hnone
    · cases hstep
      refine ⟨hpc, hcounter, hloaded.of_eq rfl rfl, fun _ hkind => absurd hkind hnone, ?_⟩
      nofun
  | copying =>
    dsimp only at hstep
    split_ifs at hstep with hwaits
    · cases hstep
      exact ⟨hpc, hcounter, hloaded, hcopied, hat ▸ hkind⟩
    · cases hstep
      have hfull : s.loadedSize = info.ldsize := by
        unfold Waits at hwaits
        rw [hat] at hwaits
        exact not_not.mp hwaits
      refine ⟨hpc, hcounter, hloaded.of_eq rfl rfl, fun _ _ k hk => ?_, ?_⟩
      · dsimp only
        rw [if_pos hk]
        exact (hok.data k (hfull ▸ hk)).2
      · nofun
  | pulling ptr size =>
    dsimp only at hstep
    split_ifs at hstep
    · cases hstep
      exact ⟨hpc, hcounter, hloaded, hcopied, hat ▸ hkind⟩
    · cases hstep
      exact ⟨hpc, hcounter, hloaded.of_eq rfl rfl, nofun, hkind⟩
  | decompressing =>
    cases hstep
    refine ⟨hpc, hcounter, hloaded.of_eq rfl rfl, fun _ hnone => absurd hnone (hkind rfl), ?_⟩
    nofun
  | off | done =>
    cases hstep

theorem LoadInv.step {event : LoadEvent} (hchunks : Chunks info)
    (hstep : loadStep info flash st2buf s event = some s') : LoadInv info flash s' := by
  cases event with
  | load => exact hinv.loader hchunks hstep
  | consume => exact hinv.consumer hchunks hstep
  | pull ptr size =>
    unfold loadStep at hstep
    split_ifs at hstep with hpull
    cases hstep
    refine ⟨hinv.pc, hinv.counter, hinv.loaded.of_eq rfl rfl, nofun, ?_⟩
    intro _
    rw [hpull.2]
    decide

end

theorem load_start_inv (hsize : info.ldsize ≠ 0) : LoadInv info flash (loadStart info) := by
  have hpc : (loadStart info).pc = .preload := if_neg hsize
  refine ⟨?_, ?_, ⟨?_, ?_⟩, nofun, nofun⟩
  · rw [hpc]
    trivial
  · rw [hpc]
    exact (Nat.zero_sub _).symm
  · rw [hpc]
    exact fun j hj => absurd hj (Nat.not_lt_zero j)
  · rw [hpc]
    exact fun k _ => (if_neg (Nat.not_lt_zero k)).symm

/-- In every interleaving, for an image that fits. -/
theorem ChunksFit.load_ok (h : ChunksFit info) {events : List LoadEvent}
    (hrun : exec (loadStep info flash st2buf) (loadStart info) events = some s) :
    LoadOk info flash st2buf s := by
  by_cases hsize : info.ldsize = 0
  · -- nothing happens
    have hsame : s = loadStart info := by
      have hpc : (loadStart info).pc = .returned := if_pos hsize
      refine exec_keeps (I := fun s => s = loadStart info) ?_ rfl hrun
      rintro _ event s' rfl hstep
      cases event with
      | load =>
        unfold loadStep loaderStep at hstep
        rw [hpc] at hstep
        cases hstep
      | consume => cases hstep
      | pull ptr size => cases hstep
    rw [hsame]
    have hpc : (loadStart info).pc ≠ .waiting := by
      rw [loadStart, if_pos hsize]
      decide
    refine ⟨fun k hk => absurd hk (Nat.not_lt_zero k), nofun, ?_, ?_, ?_, ?_⟩
    · exact fun _ _ => Nat.zero_le _
    all_goals exact fun hwaiting => absurd hwaiting hpc
  · have hchunks := h.chunks hsize
    exact LoadInv.load_ok
      (exec_keeps (fun _ _ _ hinv hstep => hinv.step hchunks hstep) (load_start_inv hsize) hrun)
      hchunks

/-! ## Images that do not fit -/

/-- What is added to the counter after the first assignment. -/
def counted (info : CodeLoader) : LoaderPc → Nat
  | .startup => info.preldcnt * 0x10000
  | .block i => i * 0x10000
  | .blockLoaded i => i * 0x10000
  | .tailLoaded => info.blk64K * 0x10000
  | .waiting => info.rest
  | _ => 0

/-- The first value of the counter. -/
def firstCount (info : CodeLoader) : Nat :=
  if 0 < info.preldsize then sub32 info.preldsize info.bufHeadlen else 0

/-- The counter of any image. -/
structure CountInv (info : CodeLoader) (s : LoaderState) : Prop where
  pc : PcOk info s.pc
  counter : s.pc ≠ .preload → s.pc ≠ .preloaded →
    s.loadedSize = add32 (firstCount info) (counted info s.pc)
  preloaded : s.pc = .preloaded → 0 < info.preldsize

def stepsLeft (info : CodeLoader) : LoaderPc → Nat
  | .preload => 2 * info.blk64K + 8
  | .preloaded => 2 * info.blk64K + 7
  | .initial => 2 * info.blk64K + 6
  | .initialLoaded => 2 * info.blk64K + 5
  | .startup => 2 * info.blk64K + 4
  | .block i => 2 * (info.blk64K - i) + 2
  | .blockLoaded i => 2 * (info.blk64K - i) + 1
  | .tailLoaded => 1
  | .waiting => 0
  | .returned => 0

theorem first_count_lt : firstCount info < 2 ^ 32 := by
  unfold firstCount
  split_ifs
  · exact mod_lt _ (by decide)
  · decide

theorem CountInv.chunk (hinv : CountInv info s) (hpc : PcOk info pc)
    (hold : s.pc ≠ .preload ∧ s.pc ≠ .preloaded) (hnew : pc ≠ .preloaded)
    (hcounted : counted info pc = counted info s.pc) :
    CountInv info { loadFlashCode flash s offset at' len with pc } where
  pc := hpc
  counter := fun _ _ =>
    (hinv.counter hold.1 hold.2).trans (congrArg (add32 (firstCount info)) hcounted.symm)
  preloaded := fun heq => absurd heq hnew

theorem CountInv.add {len : Nat} (hinv : CountInv info s) (hpc : PcOk info pc)
    (hold : s.pc ≠ .preload ∧ s.pc ≠ .preloaded) (hnew : pc ≠ .preloaded)
    (hcounted : counted info s.pc + len = counted info pc) :
    CountInv info { s with loadedSize := add32 s.loadedSize len, pc } where
  pc := hpc
  counter := fun _ _ => by
    dsimp only
    rw [hinv.counter hold.1 hold.2, add32_assoc, hcounted]
  preloaded := fun heq => absurd heq hnew

/-- The loader goes on, whatever the image. -/
theorem CountInv.step (hinv : CountInv info s) (hend : s.pc ≠ .waiting) :
    ∃ s', loaderStep info flash s = some s' ∧ CountInv info s' ∧
      stepsLeft info s'.pc < stepsLeft info s.pc := by
  have hpc := hinv.pc
  have hcounter := hinv.counter
  have hrest := blocks_eq info
  cases hat : s.pc with
  | preload =>
    rw [loaderStep, hat]
    by_cases hpos : 0 < info.preldsize
    · refine ⟨_, if_pos hpos, ⟨trivial, fun _ hne => absurd rfl hne, fun _ => hpos⟩, ?_⟩
      exact lt_succ_self _
    · refine ⟨_, if_neg hpos, ⟨trivial, fun _ _ => ?_, nofun⟩, ?_⟩
      · rw [firstCount, if_neg hpos]
        rfl
      · show 2 * info.blk64K + 6 < 2 * info.blk64K + 8
        omega
  | preloaded =>
    rw [loaderStep, hat]
    refine ⟨_, rfl, ⟨trivial, fun _ _ => ?_, nofun⟩, lt_succ_self _⟩
    show sub32 info.preldsize info.bufHeadlen = add32 (firstCount info) 0
    rw [add32_eq first_count_lt, firstCount, if_pos (hinv.preloaded hat)]
    rfl
  | initial =>
    have hold : s.pc ≠ .preload ∧ s.pc ≠ .preloaded := by rw [hat]; exact ⟨nofun, nofun⟩
    rw [loaderStep, hat]
    exact ⟨_, rfl, hinv.chunk trivial hold nofun (by rw [hat]; rfl), lt_succ_self _⟩
  | initialLoaded =>
    have hold : s.pc ≠ .preload ∧ s.pc ≠ .preloaded := by rw [hat]; exact ⟨nofun, nofun⟩
    rw [loaderStep, hat]
    refine ⟨_, rfl, hinv.add trivial hold nofun ?_, lt_succ_self _⟩
    rw [hat]
    exact Nat.zero_add _
  | startup =>
    rw [hat] at hcounter
    rw [loaderStep, hat]
    refine ⟨_, rfl, ⟨preldcnt_le, fun _ _ => hcounter nofun nofun, nofun⟩, ?_⟩
    show 2 * (info.blk64K - info.preldcnt) + 2 < 2 * info.blk64K + 4
    omega
  | block i =>
    have hold : s.pc ≠ .preload ∧ s.pc ≠ .preloaded := by rw [hat]; exact ⟨nofun, nofun⟩
    rw [hat] at hcounter hpc
    have hle : i ≤ info.blk64K := hpc
    by_cases hblk : i < info.blk64K
    · rw [loader_step_block hat hblk]
      exact ⟨_, rfl, hinv.chunk hblk hold nofun (by rw [hat]; rfl), lt_succ_self _⟩
    · have hi : i = info.blk64K := by omega
      subst hi
      by_cases htail : 0 < info.sztail
      · rw [loader_step_tail hat hblk htail]
        refine ⟨_, rfl, hinv.chunk trivial hold nofun (by rw [hat]; rfl), ?_⟩
        exact lt_succ_of_le (Nat.le_add_left 1 _)
      · rw [loader_step_end hat hblk htail]
        rw [Nat.eq_zero_of_not_pos htail, Nat.add_zero] at hrest
        refine ⟨_, rfl, ⟨trivial, fun _ _ => ?_, nofun⟩, succ_pos _⟩
        show s.loadedSize = add32 (firstCount info) info.rest
        rw [← hrest]
        exact hcounter nofun nofun
  | blockLoaded i =>
    have hold : s.pc ≠ .preload ∧ s.pc ≠ .preloaded := by rw [hat]; exact ⟨nofun, nofun⟩
    rw [hat] at hpc
    have hlt : i < info.blk64K := hpc
    rw [loaderStep, hat]
    refine ⟨_, rfl, hinv.add hlt hold nofun ?_, ?_⟩
    · rw [hat]
      exact (succ_mul ..).symm
    · show 2 * (info.blk64K - (i + 1)) + 2 < 2 * (info.blk64K - i) + 1
      omega
  | tailLoaded =>
    have hold : s.pc ≠ .preload ∧ s.pc ≠ .preloaded := by rw [hat]; exact ⟨nofun, nofun⟩
    rw [loaderStep, hat]
    refine ⟨_, rfl, hinv.add trivial hold nofun ?_, succ_pos _⟩
    rw [hat]
    exact hrest
  | waiting => exact absurd hat hend
  | returned =>
    rw [hat] at hpc
    exact absurd hpc not_false

end FullhanRtos.Loader
