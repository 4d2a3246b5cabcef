import FullhanRtos.Slab.Bitmap
import FullhanRtos.Slab.PageList

/-!
# Allocation and release of heap blocks

`pool_init`, `rt_system_heap_init`, `alloc_trunk`, `malloc_r`, `free_r`, `fhkmalloc` and `fhkfree`
of `kernel/src/slab_fh.c`. Small requests are served from trunks of zone pages, large ones from
runs of pages; empty zone pages are kept on the cache list. Interrupts are disabled around
`malloc_r` and `free_r`, so each call is one step of the pool. Console output is left out.
-/

namespace FullhanRtos.Slab

open Function

/-! ## Page lists -/

/-- `verify_pglist`: the page is linked with both neighbours and has the type and zone of the
list. -/
def verifyPglist (pgidx : Nat) (type : PageType) (zi : Nat) : M Unit := do
  let pool ← get
  bugIf (pool.pageNum ≤ pgidx) 965
  let pgm := pool.pgmanArray pgidx
  bugIf (pool.pageNum ≤ pgm.pagePrev ∨ pool.pageNum ≤ pgm.pageNext ∨
    (pool.pgmanArray pgm.pagePrev).pageNext ≠ pgidx ∨
    (pool.pgmanArray pgm.pageNext).pagePrev ≠ pgidx ∨
    pgm.pageType ≠ type ∨ pgm.zoneIndex ≠ zi) 978

/-- Link the neighbours of a page with each other. -/
def bypass (prev next : Nat) : M Unit := do
  modifyPgm prev fun pgm => { pgm with pageNext := u20 next }
  modifyPgm next fun pgm => { pgm with pagePrev := u20 prev }

def unlinkHead (list : PageList) (pgidx prev next : Nat) : M Unit :=
  if pgidx = next then setListHead list (-1)
  else do
    bypass prev next
    setListHead list next

/-! ## `alloc_trunk` -/

/-- The statistics of a trunk handed out. -/
def accountTrunk (zi : Nat) : M Unit :=
  modify fun pool =>
    let used : Int := pool.zoneUsedBytes zi + zoneSize zi
    let mem : Int := pool.usedMem + zoneSize zi
    { pool with
      zoneUsedBytes := update pool.zoneUsedBytes zi used
      zoneUsedBytesMax := update pool.zoneUsedBytesMax zi
        (max (pool.zoneUsedBytesMax zi) used)
      usedMem := mem
      maxMem := max pool.maxMem mem }

/-- A page whose last free trunk goes leaves its alloc list and points at itself. -/
def dropFullPage (zi pgidx prev next freeTrunks : Nat) : M Unit :=
  if freeTrunks = 0 then do
    modifyPgm pgidx fun pgm => { pgm with pagePrev := u20 pgidx, pageNext := u20 pgidx }
    unlinkHead (.zone zi) pgidx prev next
  else pure ()

/-- Take a trunk from the first page of the zone's alloc list. -/
def allocTrunkFromList (zi pgidx : Nat) : M Nat := do
  verifyPglist pgidx .zone zi
  let pool ← get
  let pgm := pool.pgmanArray pgidx
  let found := findTrunk pgm.trunkBitmap
  let trunkIndex := (found.1 <<< 3) + found.2
  bugIf (trunksPerPage zi ≤ trunkIndex ∨ pgm.freeTrunks = 0 ∨
    trunksPerPage zi ≤ pgm.freeTrunks) 1029
  dropFullPage zi pgidx pgm.pagePrev pgm.pageNext (pgm.freeTrunks - 1)
  modifyPgm pgidx fun m =>
    { m with
      trunkBitmap := markTrunk m.trunkBitmap found.1 found.2
      freeTrunks := u12 (pgm.freeTrunks - 1) }
  pure (u32 (pgidx2Addr pool pgidx + trunkIndex * zoneSize zi))

def takeCachePage (pgidx : Nat) : M Nat := do
  verifyPglist pgidx .cache 0
  let pool ← get
  let pgm := pool.pgmanArray pgidx
  unlinkHead .cache pgidx pgm.pagePrev pgm.pageNext
  modify fun pool => { pool with zoneCacheCount := pool.zoneCacheCount - 1 }
  pure (pgidx2Addr pool pgidx)

def takeNewPage : M Nat := do
  modify fun pool => { pool with zoneCacheCount := 0 }
  let trunk ← rtPageAllocNolock 1
  if trunk = rtNull then pure rtNull
  else
    let pool ← get
    bugIf ((pool.pgmanArray (addr2Pgidx pool trunk)).pageType ≠ .free) 1094
    pure trunk

/-- Make the page a zone page with its first trunk used, and the zone's alloc list. -/
def linkZonePage (zi pgidx : Nat) : M Unit := do
  modifyPgm pgidx fun _ =>
    { pageType := .zone
      zoneIndex := zi
      freeTrunks := u12 (trunksPerPage zi - 1)
      trunkBitmap := setBitmapByte 0#64 0 1#8
      pagePrev := u20 pgidx
      pageNext := u20 pgidx }
  setListHead (.zone zi) pgidx
  modify fun pool =>
    let num := pool.zoneNum zi + 1
    { pool with
      zoneNum := update pool.zoneNum zi num
      zoneNumMax := update pool.zoneNumMax zi (max (pool.zoneNumMax zi) num) }

def startZonePage (zi trunk : Nat) : M Nat := do
  if trunk = rtNull then pure rtNull
  else
    let pool ← get
    linkZonePage zi (addr2Pgidx pool trunk)
    accountTrunk zi
    pure trunk

def allocTrunk (zi : Nat) : M Nat := do
  let pool ← get
  if 0 ≤ pool.zoneAllocList zi then
    let trunk ← allocTrunkFromList zi (pool.zoneAllocList zi).toNat
    accountTrunk zi
    pure trunk
  else if 0 ≤ pool.zoneCacheList then
    let trunk ← takeCachePage pool.zoneCacheList.toNat
    startZonePage zi trunk
  else
    let trunk ← takeNewPage
    startZonePage zi trunk

/-! ## `malloc_r` -/

/-- `zoneindex`: the first zone from `zi` on that is large enough and aligned, or `NZONES`. -/
def zoneIndexFrom (bytes align : Nat) : List Nat → Nat → Nat
  | [], zi => zi
  | zonesize :: rest, zi =>
    if bytes ≤ zonesize ∧ zonesize &&& (align - 1) = 0 then zi
    else zoneIndexFrom bytes align rest (zi + 1)

/-- `zoneindex`. -/
def zoneIndex (bytes align : Nat) : Nat := zoneIndexFrom bytes align gZoneSizes 0

/-- The multi-page branch of `malloc_r`. -/
def mallocPages (size : Nat) : M Nat := do
  let size := rtAlign size mmPageSize
  let trunk ← rtPageAllocNolock (size >>> mmPageBits)
  if trunk = rtNull then pure rtNull
  else
    let pool ← get
    let pgidx := addr2Pgidx pool trunk
    bugIf ((pool.pgmanArray pgidx).pageType ≠ .free) 1152
    modifyPgm pgidx fun pgm =>
      { pgm with pageType := .page, pagePrev := u20 (size >>> mmPageBits) }
    modify fun pool =>
      let block : Int := pool.blockUsedBytes + size
      let mem : Int := pool.usedMem + size
      { pool with
        blockUsedBytes := block
        blockUsedBytesMax := max pool.blockUsedBytesMax block
        usedMem := mem
        maxMem := max pool.maxMem mem }
    pure trunk

def mallocR (size alignBits : Nat) : M Nat := do
  let align := 1 <<< alignBits
  if zoneSize (nzones - 1) < size ∨ alignBits = mmPageBits then mallocPages size
  else
    let zi := zoneIndex size align
    if nzones ≤ zi then pure rtNull
    else allocTrunk zi

/-! ## `free_r` -/

/-- The `PAGE_TYPE_PAGE` branch of `free_r`. -/
def freeBlock (ptr pgidx : Nat) : M Unit := do
  let pool ← get
  let npages := (pool.pgmanArray pgidx).pagePrev
  bugIf (ptr &&& mmPageMask ≠ 0 ∨ npages = 0 ∨ sub32 pool.pageNum pgidx < npages) 1210
  rtPageFreeNolock ptr npages
  modifyPgm pgidx fun pgm => { pgm with pageType := .free }
  modify fun pool =>
    { pool with
      blockUsedBytes := pool.blockUsedBytes - (npages <<< mmPageBits : Nat)
      usedMem := pool.usedMem - (npages <<< mmPageBits : Nat) }

/-- A full page that gets its first free trunk goes back to its alloc list, behind the head. -/
def relinkPage (zi pgidx : Nat) : M Unit := do
  let pool ← get
  let pgm := pool.pgmanArray pgidx
  bugIf (¬ (pgm.pagePrev = pgidx ∧ pgm.pageNext = pgidx)) 1253
  let head := pool.zoneAllocList zi
  if head < 0 then setListHead (.zone zi) pgidx
  else
    verifyPglist head.toNat .zone zi
    let next := (pool.pgmanArray head.toNat).pageNext
    modifyPgm pgidx fun pgm => { pgm with pagePrev := u20 head.toNat, pageNext := u20 next }
    modifyPgm next fun pgm => { pgm with pagePrev := u20 pgidx }
    modifyPgm head.toNat fun pgm => { pgm with pageNext := u20 pgidx }

/-- Take a page whose last used trunk is freed off its alloc list. -/
def unlinkZonePage (zi pgidx : Nat) : M Unit := do
  let pool ← get
  let pgm := pool.pgmanArray pgidx
  let head := pool.zoneAllocList zi
  bugIf (head < 0 ∨ pool.pageNum ≤ pgm.pagePrev ∨ pool.pageNum ≤ pgm.pageNext ∨
    (pool.pgmanArray pgm.pagePrev).pageNext ≠ pgidx ∨
    (pool.pgmanArray pgm.pageNext).pagePrev ≠ pgidx) 1284
  if pgidx = pgm.pageNext then do
    bugIf (head ≠ pgidx) 1293
    setListHead (.zone zi) (-1)
  else do
    bypass pgm.pagePrev pgm.pageNext
    if head = pgidx then setListHead (.zone zi) pgm.pageNext else pure ()

/-- Append an empty page to the cache list. -/
def insertCachePage (pgidx : Nat) : M Unit := do
  let pool ← get
  let head := pool.zoneCacheList
  if 0 ≤ head then
    verifyPglist head.toNat .cache 0
    let prev := (pool.pgmanArray head.toNat).pagePrev
    modifyPgm pgidx fun pgm => { pgm with pagePrev := u20 prev, pageNext := u20 head.toNat }
    modifyPgm prev fun pgm => { pgm with pageNext := u20 pgidx }
    modifyPgm head.toNat fun pgm => { pgm with pagePrev := u20 pgidx }
  else
    modifyPgm pgidx fun pgm => { pgm with pagePrev := u20 pgidx, pageNext := u20 pgidx }
    setListHead .cache pgidx

/-- An empty zone page goes to the cache list, or to the free page list when the cache is full. -/
def retirePage (zi ptr pgidx : Nat) : M Unit := do
  unlinkZonePage zi pgidx
  modify fun pool =>
    { pool with zoneNum := update pool.zoneNum zi (pool.zoneNum zi - 1) }
  let pool ← get
  if pool.zoneCacheCount < zoneReleaseThresh then
    insertCachePage pgidx
    modifyPgm pgidx fun pgm => { pgm with zoneIndex := 0, pageType := .cache }
    modify fun pool => { pool with zoneCacheCount := pool.zoneCacheCount + 1 }
  else
    rtPageFreeNolock (rtAlignDown ptr mmPageSize) 1
    modifyPgm pgidx fun pgm => { pgm with pageType := .free }

/-- What happens to the page of a freed trunk: it enters its alloc list when it was full, leaves
it when it becomes empty, and stays on it otherwise. -/
def movePage (zi ptr pgidx freeTrunks : Nat) : M Unit :=
  if freeTrunks = 0 then relinkPage zi pgidx
  else if freeTrunks + 1 = trunksPerPage zi then retirePage zi ptr pgidx
  else pure ()

/-- The `PAGE_TYPE_ZONE` branch of `free_r`. -/
def freeTrunk (ptr pgidx : Nat) : M Unit := do
  let pool ← get
  let pgm := pool.pgmanArray pgidx
  let offset := ptr &&& mmPageMask
  let zi := pgm.zoneIndex
  bugIf (nzones ≤ zi) 1234
  let trunkidx := offset / zoneSize zi
  bugIf (trunksPerPage zi ≤ pgm.freeTrunks ∨ trunkidx * zoneSize zi ≠ offset ∨
    trunkUsed pgm.trunkBitmap trunkidx = false) 1244
  movePage zi ptr pgidx pgm.freeTrunks
  modifyPgm pgidx fun m =>
    { m with
      freeTrunks := u12 (pgm.freeTrunks + 1)
      trunkBitmap := clearTrunk m.trunkBitmap trunkidx }
  modify fun pool =>
    { pool with
      zoneUsedBytes := update pool.zoneUsedBytes zi (pool.zoneUsedBytes zi - zoneSize zi)
      usedMem := pool.usedMem - zoneSize zi }

def freeR (ptr : Nat) : M Unit := do
  let pool ← get
  let pgidx := addr2Pgidx pool ptr
  match (pool.pgmanArray pgidx).pageType with
  | .page => freeBlock ptr pgidx
  | .zone => freeTrunk ptr pgidx
  | _ => throw ⟨1349⟩

/-! ## The interface -/

def fhkmalloc (moduleId size alignBits : Nat) : M Nat := do
  let pool ← get
  bugIf (fhmemTypeMax ≤ moduleId ∨ pool.inited = false ∨ mmPageBits < alignBits) 1521
  if size = 0 ∨ u32 (pool.pageNum <<< mmPageBits) < size then pure rtNull
  else mallocR (rtAlign size 4) (if alignBits < mmAlign4 then mmAlign4 else alignBits)

def fhkfree (moduleId ptr : Nat) : M Unit := do
  if ptr = rtNull then pure ()
  else
    let pool ← get
    bugIf (fhmemTypeMax ≤ moduleId ∨ pool.inited = false) 1552
    bugIf (ptr &&& 3 ≠ 0 ∨ ptr < pool.heapStart ∨ pool.heapEnd ≤ ptr) 1559
    freeR ptr

/-- `rt_memory_info`: total, used and maximal used bytes. -/
def rtMemoryInfo (pool : MemPool) : Int × Int × Int :=
  if pool.inited then ((pool.heapEnd : Int) - pool.heapStart, pool.usedMem, pool.maxMem)
  else (0, 0, 0)

/-! ## Initialisation -/

/-- The memory that becomes the metadata of a pool, with whatever it held before. -/
structure RawMemory where
  alloctor : Nat → PageAllocator
  pgman : Nat → PageMan

/-- The pool before `pool_init`, in zeroed static storage. -/
def emptyPool : MemPool where
  inited := false
  pageNum := 0
  heapStart := 0
  heapEnd := 0
  pageAlloctor := fun _ => ⟨0, 0⟩
  alloctorList := 0
  pgmanArray := fun _ => ⟨.free, 0, 0, 0, 0, 0#64⟩
  zoneAllocList := fun _ => 0
  zoneCacheList := 0
  zoneCacheCount := 0
  usedMem := 0
  maxMem := 0
  blockUsedBytes := 0
  blockUsedBytesMax := 0
  zoneNum := fun _ => 0
  zoneNumMax := fun _ => 0
  zoneUsedBytes := fun _ => 0
  zoneUsedBytesMax := fun _ => 0

/-- The part of `pool_init` behind its checks: lay out the metadata at `heapStart` and free all
pages behind it. -/
def poolSetup (raw : RawMemory) (heapStart heapEnd manageSize : Nat) : M Unit := do
  let start := u32 (heapStart + manageSize)
  let npages := sub32 heapEnd start >>> mmPageBits
  modify fun pool =>
    { pool with
      pageNum := npages
      heapStart := start
      heapEnd := heapEnd
      pageAlloctor := raw.alloctor
      alloctorList := endFlag
      pgmanArray := fun i =>
        if i < npages then { raw.pgman i with pageType := .free } else raw.pgman i
      zoneAllocList := fun _ => -1
      zoneCacheList := -1
      zoneCacheCount := 0 }
  rtPageFreeNolock start npages
  modify fun pool => { pool with inited := true }

/-- `pool_init`. An entry of `page_allocator` has 4 bytes and one of `page_man` has 16. -/
def poolInit (raw : RawMemory) (beginAddr endAddr : Nat) : M Unit := do
  let pool ← get
  if pool.inited then pure ()
  else
    let heapStart := rtAlign beginAddr mmPageSize
    let heapEnd := rtAlignDown endAddr mmPageSize
    bugIf (heapEnd ≤ heapStart ∨ heapStart < beginAddr) 774
    let npages := sub32 heapEnd heapStart >>> mmPageBits
    let manageSize := rtAlign (u32 (u32 (npages * 4) + u32 (npages * 16))) mmPageSize
    bugIf (sub32 heapEnd heapStart < u32 (manageSize + 4 * mmPageSize)) 784
    poolSetup raw heapStart heapEnd manageSize

/-- The loop that checks the zone sizes: increasing multiples of the word size. -/
def zoneSizesOk : Nat → List Nat → Bool
  | _, [] => true
  | presz, zonesize :: rest => presz < zonesize ∧ zonesize &&& 3 = 0 ∧ zoneSizesOk zonesize rest

/-- `rt_system_heap_init`, for the one pool of the configuration: the loop over the further pools
adds nothing to `sz`. -/
def rtSystemHeapInit (raw : RawMemory) (beginAddr endAddr : Nat) : M Unit := do
  let heapStart := rtAlign beginAddr mmPageSize
  let heapEnd := rtAlignDown endAddr mmPageSize
  bugIf (heapEnd ≤ heapStart ∨ heapStart < beginAddr) 852
  let totalsz := sub32 heapEnd heapStart
  bugIf (zoneSizesOk 0 gZoneSizes = false) 901
  bugIf (nzones = 0 ∨ mmPageSize / 2 < zoneSize (nzones - 1) ∨ zoneSize 0 * 64 < mmPageSize) 910
  let sz := ((gMemPoolConfig.drop 1).map fun c => rtAlign c mmPageSize).sum
  bugIf (totalsz ≤ sz) 922
  let sz := rtAlign (totalsz - sz) mmPageSize
  if sz ≠ 0 then poolInit raw heapStart (u32 (heapStart + sz)) else pure ()
  bugIf (gMemPoolMap.any fun poolid => gMemPoolConfig.length ≤ poolid ∨ totalsz = 0) 945

end FullhanRtos.Slab
