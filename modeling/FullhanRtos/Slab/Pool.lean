import Mathlib.Logic.Function.Basic
import Mathlib.Data.BitVec
import Mathlib.Tactic.Common

/-!
# The page pool of the kernel heap

Data of `kernel/src/slab_fh.c` in the configuration of `out/rtconfig/rtconfig.h`: 4 KiB pages,
`RT_USING_MM_TRACE` off, `RT_MEM_STATS` on, and the single pool of `slab_config.h`
(`MM_POOL_NUM` is 1 and every entry of `g_mem_pool_map` is 0, so the state is that one pool).

Addresses and 32-bit words are naturals, reduced by `u32` where the code can leave the range;
the 16-, 20- and 12-bit fields are reduced where they are written. `M` is the monad of the
allocator: a `BUG` stops it and leaves the pool as it is at that moment.
-/

namespace FullhanRtos.Slab

open Function EStateM

/-! ## Machine words -/

/-- A value stored in 32 bits. -/
@[irreducible]
def u32 (n : Nat) : Nat := n % 2 ^ 32

/-- A value stored in an `rt_uint16_t`. -/
def u16 (n : Nat) : Nat := n % 2 ^ 16

/-- A value stored in a 20-bit field of `page_man`. -/
def u20 (n : Nat) : Nat := n % 2 ^ 20

/-- A value stored in a 12-bit field of `page_man`. -/
def u12 (n : Nat) : Nat := n % 2 ^ 12

/-- Subtraction of 32-bit words. -/
@[irreducible]
def sub32 (a b : Nat) : Nat := u32 (a + 2 ^ 32 - b)

def rtAlignDown (x align : Nat) : Nat := x - (x &&& (align - 1))

def rtAlign (x align : Nat) : Nat := rtAlignDown (u32 (x + align - 1)) align

/-! ## Constants -/

def mmPageBits : Nat := 12

def mmPageSize : Nat := 1 <<< mmPageBits

def mmPageMask : Nat := mmPageSize - 1

def mmAlign4 : Nat := 2

/-- `ZONE_RELEASE_THRESH`: how many empty zone pages are kept. -/
def zoneReleaseThresh : Nat := 8

def endFlag : Nat := 0xffff

def gZoneSizes : List Nat :=
  [64, 96, 128, 192, 256, 292, 340, 408, 512, 584, 680, 816, 1024, 1364, mmPageSize / 2]

def nzones : Nat := gZoneSizes.length

def zoneSize (zi : Nat) : Nat := gZoneSizes.getD zi 0

/-- `MM_PAGE_SIZE / g_zone_sizes[zi]`. -/
def trunksPerPage (zi : Nat) : Nat := mmPageSize / zoneSize zi

def fhmemTypeMax : Nat := 7

def gMemPoolConfig : List Nat := [0]

def gMemPoolMap : List Nat := List.replicate fhmemTypeMax 0

def rtNull : Nat := 0

@[simp] theorem mm_page_size_eq : mmPageSize = 4096 := rfl
@[simp] theorem mm_page_mask_eq : mmPageMask = 4095 := rfl
@[simp] theorem mm_page_bits_eq : mmPageBits = 12 := rfl
@[simp] theorem mm_align4_eq : mmAlign4 = 2 := rfl
@[simp] theorem end_flag_eq : endFlag = 65535 := rfl
@[simp] theorem nzones_eq : nzones = 15 := rfl
@[simp] theorem zone_release_thresh_eq : zoneReleaseThresh = 8 := rfl
@[simp] theorem fhmem_type_max_eq : fhmemTypeMax = 7 := rfl
@[simp] theorem rt_null_eq : rtNull = 0 := rfl

/-! ## The pool -/

/-- `struct page_allocator`: the entry of the first page of a free run. -/
structure PageAllocator where
  page : Nat
  next : Nat
  deriving DecidableEq

inductive PageType where
  | free
  | page
  | zone
  | cache
  deriving DecidableEq

structure PageMan where
  pageType : PageType
  zoneIndex : Nat
  pagePrev : Nat
  freeTrunks : Nat
  pageNext : Nat
  trunkBitmap : BitVec 64
  deriving DecidableEq

/-- `struct mem_pool`. The two metadata arrays are functions of the page index. -/
structure MemPool where
  inited : Bool
  pageNum : Nat
  heapStart : Nat
  heapEnd : Nat
  pageAlloctor : Nat → PageAllocator
  alloctorList : Nat
  pgmanArray : Nat → PageMan
  zoneAllocList : Nat → Int
  zoneCacheList : Int
  zoneCacheCount : Int
  usedMem : Int
  maxMem : Int
  blockUsedBytes : Int
  blockUsedBytesMax : Int
  zoneNum : Nat → Int
  zoneNumMax : Nat → Int
  zoneUsedBytes : Nat → Int
  zoneUsedBytesMax : Nat → Int

/-- A `BUG` assertion, named by the source line that reports it. -/
structure Bug where
  line : Nat
  deriving DecidableEq

/-- The allocator runs on the pool and may stop at a `BUG`. -/
abbrev M := EStateM Bug MemPool

def bugIf (c : Prop) [Decidable c] (line : Nat) : M Unit :=
  if c then throw ⟨line⟩ else pure ()

inductive PageList where
  | cache
  | zone (zi : Nat)
  deriving DecidableEq

/-- The head field of a page list: `zone_cache_list` or `zone_alloc_list[zi]`, -1 when empty. -/
def MemPool.listHead (pool : MemPool) : PageList → Int
  | .cache => pool.zoneCacheList
  | .zone zi => pool.zoneAllocList zi

def MemPool.withListHead (pool : MemPool) (list : PageList) (head : Int) : MemPool :=
  match list with
  | .cache => { pool with zoneCacheList := head }
  | .zone zi => { pool with zoneAllocList := update pool.zoneAllocList zi head }

def setListHead (list : PageList) (head : Int) : M Unit :=
  modify fun pool => pool.withListHead list head

/-- Update `pgman_array[i]`. -/
def modifyPgm (i : Nat) (f : PageMan → PageMan) : M Unit :=
  modify fun pool =>
    { pool with pgmanArray := update pool.pgmanArray i (f (pool.pgmanArray i)) }

def setAlloctor (i : Nat) (entry : PageAllocator) : M Unit :=
  modify fun pool => { pool with pageAlloctor := update pool.pageAlloctor i entry }

@[irreducible]
def addr2Pgidx (pool : MemPool) (addr : Nat) : Nat :=
  sub32 addr pool.heapStart >>> mmPageBits

def pgidx2Addr (pool : MemPool) (pgidx : Nat) : Nat :=
  u32 (pool.heapStart + (pgidx <<< mmPageBits))

section

variable {pool : MemPool} {line : Nat} {c : Prop} [Decidable c]

/-- An assertion as a conditional; rewriting goes on inside the condition. -/
theorem bug_if_def : bugIf c line = if c then throw ⟨line⟩ else pure () := rfl

/-- An assertion that holds is passed without effect. -/
theorem bug_if_run_of_not (h : ¬ c) : (bugIf c line).run pool = .ok () pool := by
  rw [bug_if_def, if_neg h, run_pure]

/-- An assertion that fails stops the allocator. -/
theorem bug_if_run_of (h : c) : (bugIf c line).run pool = .error ⟨line⟩ pool := by
  rw [bug_if_def, if_pos h, run_throw]

/-- What follows an assertion runs only if it holds. -/
theorem bug_if_bind_run {α : Type} (k : Unit → M α) :
    (bugIf c line >>= k).run pool = if c then .error ⟨line⟩ pool else (k ()).run pool := by
  split
  · rename_i h
    rw [run_bind, bug_if_run_of h]
  · rename_i h
    rw [run_bind, bug_if_run_of_not h]

@[simp] theorem modify_pgm_run (i : Nat) (f : PageMan → PageMan) :
    (modifyPgm i f).run pool = .ok ()
      { pool with pgmanArray := update pool.pgmanArray i (f (pool.pgmanArray i)) } := rfl

@[simp] theorem set_list_head_run (list : PageList) (head : Int) :
    (setListHead list head).run pool = .ok () (pool.withListHead list head) := rfl

@[simp] theorem set_alloctor_run (i : Nat) (entry : PageAllocator) :
    (setAlloctor i entry).run pool = .ok ()
      { pool with pageAlloctor := update pool.pageAlloctor i entry } := rfl

end

end FullhanRtos.Slab
