import FullhanRtos.Slab.Free

/-!
# Setting up a pool

`pool_init` takes its metadata from the front of a memory range and frees all pages behind it.
The free page list of the new pool is one run (`pool_init_run`). A range with more pages than
16-bit links can name never gets so far: the first look at the list takes `END_FLAG` for a page
and an assertion stops the walk (`page_free_walk_overflow`).
-/

namespace FullhanRtos.Slab

open RunList LinkedRing EStateM Finset

section

variable {pool : MemPool}

/-- With more than 65535 pages the end of the list looks like a page, and the freeing walk that
starts at page 0 stops at an assertion whatever the entry of that page holds. -/
theorem page_free_walk_overflow (fuel : Nat) {n : Nat} (hlist : pool.alloctorList = endFlag)
    (hpages : 65535 < pool.pageNum) (hn : n = pool.pageNum) :
    ∃ bug, (pageFreeWalk 0 n (fuel + 1) .list (-1)).run pool = .error bug pool := by
  have hread : LinkRef.list.read pool = 65535 := hlist
  generalize hb : pool.pageAlloctor 65535 = b
  simp only [pageFreeWalk, run_bind, run_get, hread, if_pos hpages, hb, ↓bug_if_def]
  by_cases hzero : b.page = 0
  · have horder : ((65535 : Nat) : Int) ≤ -1 ∨ b.page = 0 := .inr hzero
    exact ⟨⟨685⟩, by simp only [if_pos horder, run_throw]⟩
  · have horder : ¬ (((65535 : Nat) : Int) ≤ -1 ∨ b.page = 0) := by
      omega
    simp only [if_neg horder, run_pure, if_neg (show ¬ 65535 + b.page < 0 by omega), run_bind]
    by_cases hend : pool.pageNum < 65535 + b.page
    · exact ⟨⟨696⟩, by simp only [if_pos hend, run_throw]⟩
    · refine ⟨⟨737⟩, ?_⟩
      simp only [if_neg hend, run_pure, if_neg (show ¬ 0 = 65535 + b.page by omega),
        if_neg (show ¬ 0 + n < 65535 by omega), if_neg (show ¬ 0 + n = 65535 by omega), run_throw]

end

section

theorem rt_align_page_wrap {x : Nat} (hx : x < 4294967296) (h : 4294967296 ≤ x + 4095) :
    rtAlign x mmPageSize = 0 := by
  have hdown := rt_align_down_eq (u32 (x + 4095)) 12
  rw [rtAlign, mm_page_size_eq, Nat.add_sub_assoc (by omega)]
  show rtAlignDown _ (2 ^ 12) = 0
  rw [hdown]
  unfold u32
  omega

theorem rt_align_down_page (x : Nat) : rtAlignDown x mmPageSize = 4096 * (x / 4096) :=
  rt_align_down_eq x 12

theorem sub32_page_count {a b : Nat} (hle : a ≤ b) (hb : b < 4294967296) :
    sub32 b a >>> mmPageBits = (b - a) / 4096 := by
  rw [sub32_of_le hle hb, mm_page_bits_eq, Nat.shiftRight_eq_div_pow]

end

section

variable {raw : RawMemory} {pool : MemPool}

/-- The pool right before its pages are freed. -/
def bareMemory (raw : RawMemory) (start heapEnd npages : Nat) : MemPool :=
  { emptyPool with
    pageNum := npages
    heapStart := start
    heapEnd := heapEnd
    pageAlloctor := raw.alloctor
    alloctorList := endFlag
    pgmanArray := fun i =>
      if i < npages then { raw.pgman i with pageType := .free } else raw.pgman i
    zoneAllocList := fun _ => -1
    zoneCacheList := -1
    zoneCacheCount := 0 }

theorem pool_inv_of_free {start heapEnd npages : Nat}
    (hg : Geometry (bareMemory raw start heapEnd npages))
    (hsame : SameButFreeList (bareMemory raw start heapEnd npages) pool)
    (hfree : FreeListOk pool [(0, npages)]) :
    PoolInv { pool with inited := true } [(0, npages)] fun _ => [] := by
  obtain ⟨alloctor, first, rfl⟩ := hsame
  have htype : ∀ p, p < npages → (bareMemory raw start heapEnd npages).type p = .free := by
    intro p hp
    simp [MemPool.type, bareMemory, hp]
  refine ⟨⟨rfl, by simp, fun zi => ?_, by simp [bareMemory, emptyPool]⟩, rfl,
    hg.congr rfl rfl rfl, hfree.congr rfl rfl rfl, fun list => ?_, by simp, fun h q _ _ _ _ => ?_,
    fun p hp _ => ?_⟩
  · refine (Int.natCast_eq_zero.mpr (card_eq_zero.mpr ?_)).symm
    rw [zonePages, filter_eq_empty_iff]
    intro p hp
    have := htype p (mem_range.mp hp)
    rw [this]
    simp
  · refine ⟨List.nodup_nil, by simp, ?_, trivial⟩
    cases list <;> rfl
  · simp [not_held_zero]
  · have hp' := htype p hp
    refine ⟨fun _ => .inl ?_, fun _ => hp', fun hc => ?_, fun hz => ?_, fun hb => ?_, by simp⟩
    · exact (covers_cons _ _ _).mpr (.inl ⟨Nat.zero_le p, lt_of_lt_of_eq hp (zero_add npages).symm⟩)
    · simp only [MemPool.type, hp'] at hc
      simp at hc
    · simp only [MemPool.type, hp'] at hz
      simp at hz
    · simp only [MemPool.type, hp'] at hb
      simp at hb

theorem pool_setup_run (raw : RawMemory) (heapStart heapEnd manageSize start npages : Nat)
    (hstart : u32 (heapStart + manageSize) = start)
    (hnpages : sub32 heapEnd start >>> mmPageBits = npages) :
    (poolSetup raw heapStart heapEnd manageSize).run emptyPool =
      match (rtPageFreeNolock start npages).run (bareMemory raw start heapEnd npages) with
      | .ok _ s => .ok () { s with inited := true }
      | .error bug s => .error bug s := by
  subst hstart hnpages
  simp only [poolSetup, run_bind, run_modify, bareMemory]
  split <;> rename_i hfree <;> rw [hfree]

theorem pool_setup_accepts {heapStart heapEnd manageSize : Nat} (hpos : 0 < heapStart + manageSize)
    (hpages : (heapStart + manageSize) % 4096 = 0) (hend : heapEnd % 4096 = 0)
    (hlt : heapStart + manageSize < heapEnd) (htop : heapEnd < 4294967296)
    (hrun : (poolSetup raw heapStart heapEnd manageSize).run emptyPool = .ok () pool) :
    0 < pool.pageNum ∧ pool.usedMem = 0 ∧ PoolInv pool [(0, pool.pageNum)] fun _ => [] := by
  have hstart : u32 (heapStart + manageSize) = heapStart + manageSize := u32_of_lt (by omega)
  have hnpages := sub32_page_count (show heapStart + manageSize ≤ heapEnd by omega) htop
  rw [pool_setup_run raw heapStart heapEnd manageSize _ _ hstart hnpages] at hrun
  generalize hs : heapStart + manageSize = start at hrun hpos hpages hlt
  generalize hn : (heapEnd - start) / 4096 = n at hrun
  have hnpos : 0 < n := by omega
  by_cases hfits : n ≤ 65535
  · have hg : Geometry (bareMemory raw start heapEnd n) :=
      ⟨hfits, hpos, hpages, by simp only [bareMemory]; omega, htop⟩
    have hlist : FreeListOk (bareMemory raw start heapEnd n) [] := ⟨trivial, rfl⟩
    obtain ⟨pool1, hfree, hsame, hok⟩ := rt_page_free_nolock_run (f := 0) (n := n) hg hlist hnpos
      (by simp [bareMemory]) (by simp)
    have haddr : (bareMemory raw start heapEnd n).pageAddr 0 = start := by
      simp [MemPool.pageAddr, bareMemory]
    rw [haddr] at hfree
    rw [hfree] at hrun
    have hpool : pool = { pool1 with inited := true } := by
      injection hrun with _ hpool
      exact hpool.symm
    have hinv := pool_inv_of_free hg hsame (hok (by simp [TailMerge]))
    obtain ⟨alloctor, first, rfl⟩ := hsame
    subst hpool
    exact ⟨hnpos, rfl, hinv⟩
  · -- The walk stops at an assertion.
    have herror : ∃ bug s, (rtPageFreeNolock start n).run (bareMemory raw start heapEnd n) =
        .error bug s := by
      have hpgidx : addr2Pgidx (bareMemory raw start heapEnd n) start = 0 := by
        unfold addr2Pgidx
        rw [show (bareMemory raw start heapEnd n).heapStart = start from rfl,
          sub32_of_le (le_refl start) (by omega), Nat.sub_self, Nat.zero_shiftRight]
      rw [rtPageFreeNolock, run_bind, run_get]
      dsimp only
      rw [bug_if_bind_run, hpgidx]
      have hlist : (bareMemory raw start heapEnd n).alloctorList = endFlag := rfl
      have hnum : (bareMemory raw start heapEnd n).pageNum = n := rfl
      obtain ⟨bug, hwalk⟩ := page_free_walk_overflow n hlist (by omega) hnum.symm
      split
      · exact ⟨_, _, rfl⟩
      · exact ⟨bug, _, hwalk⟩
    obtain ⟨bug, s, herror⟩ := herror
    rw [herror] at hrun
    cases hrun

theorem aligned_range {beginAddr endAddr : Nat} (hbegin : beginAddr < 4294967296)
    (hcheck : ¬ (rtAlignDown endAddr mmPageSize ≤ rtAlign beginAddr mmPageSize ∨
      rtAlign beginAddr mmPageSize < beginAddr)) :
    rtAlign beginAddr mmPageSize = 4096 * ((beginAddr + 4095) / 4096) ∧
      rtAlign beginAddr mmPageSize < rtAlignDown endAddr mmPageSize := by
  rcases lt_or_ge (beginAddr + 4095) 4294967296 with hlt | hge
  · exact ⟨rt_align_page hlt, by omega⟩
  · -- The address was rounded up past the end of memory, to 0.
    rw [rt_align_page_wrap hbegin hge] at hcheck
    omega

theorem pool_init_accepts {beginAddr endAddr : Nat} (hbegin : beginAddr < 4294967296)
    (hend : endAddr < 4294967296)
    (hrun : (poolInit raw beginAddr endAddr).run emptyPool = .ok () pool) :
    0 < pool.pageNum ∧ pool.usedMem = 0 ∧ PoolInv pool [(0, pool.pageNum)] fun _ => [] := by
  rw [poolInit, run_bind, run_get] at hrun
  dsimp only at hrun
  rw [if_neg (by simp [emptyPool]), bug_if_bind_run] at hrun
  split at hrun
  · cases hrun
  · rename_i hrange
    obtain ⟨hstart, hlt⟩ := aligned_range hbegin hrange
    have hdown := rt_align_down_page endAddr
    rw [bug_if_bind_run] at hrun
    split at hrun
    · cases hrun
    · rename_i hroom
      generalize rtAlign beginAddr mmPageSize = s at hrun hroom hstart hlt
      generalize rtAlignDown endAddr mmPageSize = e at hrun hroom hdown hlt
      have hcount := sub32_page_count (le_of_lt hlt) (show e < 4294967296 by omega)
      rw [hcount] at hrun hroom
      generalize hnp : (e - s) / 4096 = np at hrun hroom
      have hmanage : rtAlign (u32 (u32 (np * 4) + u32 (np * 16))) mmPageSize =
          4096 * ((np * 4 + np * 16 + 4095) / 4096) := by
        rw [u32_of_lt (n := np * 4) (by omega), u32_of_lt (n := np * 16) (by omega),
          u32_of_lt (by omega), rt_align_page (by omega)]
      rw [hmanage] at hrun hroom
      rw [sub32_of_le (le_of_lt hlt) (by omega), mm_page_size_eq, u32_of_lt (by omega)] at hroom
      exact pool_setup_accepts (by omega) (by omega) (by omega) (by omega) (by omega) hrun

theorem heap_init_accepts {beginAddr endAddr : Nat} (hbegin : beginAddr < 4294967296)
    (hend : endAddr < 4294967296)
    (hrun : (rtSystemHeapInit raw beginAddr endAddr).run emptyPool = .ok () pool) :
    0 < pool.pageNum ∧ pool.usedMem = 0 ∧ PoolInv pool [(0, pool.pageNum)] fun _ => [] := by
  rw [rtSystemHeapInit] at hrun
  rw [bug_if_bind_run] at hrun
  split at hrun
  · cases hrun
  · rename_i hrange
    obtain ⟨hstart, hlt⟩ := aligned_range hbegin hrange
    have hdown := rt_align_down_page endAddr
    rw [bug_if_bind_run] at hrun
    split at hrun
    · cases hrun
    · rw [bug_if_bind_run] at hrun
      split at hrun
      · cases hrun
      · rw [bug_if_bind_run] at hrun
        split at hrun
        · cases hrun
        · have hsum : ((gMemPoolConfig.drop 1).map fun c => rtAlign c mmPageSize).sum = 0 := rfl
          rw [hsum, Nat.sub_zero] at hrun
          generalize rtAlign beginAddr mmPageSize = s at hrun hstart hlt
          generalize rtAlignDown endAddr mmPageSize = e at hrun hdown hlt
          rw [sub32_of_le (le_of_lt hlt) (by omega)] at hrun
          have hsize : rtAlign (e - s) mmPageSize ≠ 0 := by
            rw [rt_align_page (by omega)]
            omega
          rw [if_pos hsize, run_bind] at hrun
          have hend' : u32 (s + rtAlign (e - s) mmPageSize) < 4294967296 := by
            unfold u32
            omega
          cases hinit : (poolInit raw s (u32 (s + rtAlign (e - s) mmPageSize))).run emptyPool with
          | error bug pool1 =>
            rw [hinit] at hrun
            cases hrun
          | ok _ pool1 =>
            rw [hinit] at hrun
            dsimp only at hrun
            rw [bug_if_def] at hrun
            split at hrun
            · rw [run_throw] at hrun
              cases hrun
            · rw [run_pure] at hrun
              cases hrun
              exact pool_init_accepts (by omega) hend' hinit

/-- `pool_init` or `rt_system_heap_init` accepts the range and leaves `pool`. -/
def Accepted (raw : RawMemory) (beginAddr endAddr : Nat) (pool : MemPool) : Prop :=
  (poolInit raw beginAddr endAddr).run emptyPool = .ok () pool ∨
    (rtSystemHeapInit raw beginAddr endAddr).run emptyPool = .ok () pool

theorem Accepted.pool_inv {beginAddr endAddr : Nat} (haccept : Accepted raw beginAddr endAddr pool)
    (hbegin : beginAddr < 4294967296) (hend : endAddr < 4294967296) :
    0 < pool.pageNum ∧ pool.usedMem = 0 ∧ PoolInv pool [(0, pool.pageNum)] fun _ => [] := by
  rcases haccept with hrun | hrun
  · exact pool_init_accepts hbegin hend hrun
  · exact heap_init_accepts hbegin hend hrun

theorem PoolInv.malloc_all (h : PoolInv pool [(0, pool.pageNum)] fun _ => [])
    (hpos : 0 < pool.pageNum) {moduleId : Nat} (hmodule : moduleId < fhmemTypeMax) :
    ∃ pool' a, (fhkmalloc moduleId (4096 * pool.pageNum) 0).run pool = .ok a pool' ∧
      a ≠ rtNull := by
  have hpages := h.wf.geometry.pages
  have hword : rtAlign (4096 * pool.pageNum) 4 = 4096 * pool.pageNum := by
    rw [rt_align_word (by omega)]
    omega
  have hlarge : zoneSize (nzones - 1) < 4096 * pool.pageNum ∨ mmAlign4 = mmPageBits := by
    left
    show 2048 < _
    omega
  rw [fhkmalloc_at h hmodule (Nat.zero_le _), if_neg (by omega), hword, if_pos (by decide), mallocR,
    if_pos hlarge]
  rcases malloc_pages_run h (show 0 < 4096 * pool.pageNum by omega) le_rfl with
    ⟨-, hnone⟩ | ⟨pool', a, _, hrun, hnull, _⟩
  · rw [show (4096 * pool.pageNum + 4095) / 4096 = pool.pageNum by omega] at hnone
    simp [firstFit] at hnone
  · exact ⟨pool', a, hrun, hnull⟩

/-- Whatever range is accepted, the pool starts as one free run of all its pages, which 16-bit
links can name, and all of them can be allocated at once. -/
theorem accepted_pool_is_one_free_run {beginAddr endAddr : Nat} (hbegin : beginAddr < 4294967296)
    (hend : endAddr < 4294967296) (haccept : Accepted raw beginAddr endAddr pool) :
    0 < pool.pageNum ∧ FreeListOk pool [(0, pool.pageNum)] ∧
      pool.freeRuns = [(0, pool.pageNum)] ∧
      (∀ p, p < pool.pageNum → u16 p = p ∧ p ≠ endFlag) ∧
      pool.heapStart ≠ rtNull ∧
      (∃ pool', (rtPageAllocNolock pool.pageNum).run pool = .ok pool.heapStart pool') ∧
      ∀ moduleId, moduleId < fhmemTypeMax →
        ∃ pool' a, (fhkmalloc moduleId (4096 * pool.pageNum) 0).run pool = .ok a pool' ∧
          a ≠ rtNull := by
  obtain ⟨hpos, -, hinv⟩ := haccept.pool_inv hbegin hend
  have hg := hinv.wf.geometry
  have hpages := hg.pages
  refine ⟨hpos, hinv.wf.free, hinv.wf.free.free_runs_eq hg, fun p hp => ?_, ?_, ?_,
    fun moduleId hmodule => hinv.malloc_all hpos hmodule⟩
  · exact ⟨u16_of_lt (by omega), by rw [end_flag_eq]; omega⟩
  · have hstart := hg.start_pos
    rw [rt_null_eq]
    omega
  · have halloc := rt_page_alloc_nolock_run hg hinv.wf.free hpos
    rw [show firstFit pool.pageNum [(0, pool.pageNum)] = some (0, []) by simp [firstFit]] at halloc
    obtain ⟨pool', hrun, -⟩ := halloc
    exact ⟨pool', hrun⟩

def clearedMemory : RawMemory where
  alloctor := fun _ => ⟨0, 0⟩
  pgman := fun _ => ⟨.free, 0, 0, 0, 0, 0#64⟩

def testPool (raw : RawMemory) (beginAddr endAddr : Nat) (test : MemPool → Bool) : Bool :=
  match (poolInit raw beginAddr endAddr).run emptyPool with
  | .ok _ pool => test pool
  | .error _ _ => false

theorem of_test_pool {beginAddr endAddr : Nat} {test : MemPool → Bool}
    (h : testPool raw beginAddr endAddr test = true) :
    ∃ pool, Accepted raw beginAddr endAddr pool ∧ test pool = true := by
  unfold testPool at h
  split at h
  · rename_i pool hrun
    exact ⟨pool, .inl hrun, h⟩
  · cases h

/-- A range of five pages is accepted: one for the metadata and four to hand out. -/
theorem five_pages_accepted : ∃ pool, Accepted clearedMemory 1048576 1069056 pool ∧
    pool.freeRuns = [(0, 4)] := by
  have htest : testPool clearedMemory 1048576 1069056 (fun pool => pool.pageNum = 4) = true := by
    decide +kernel
  obtain ⟨pool, haccept, hnum⟩ := of_test_pool htest
  have hone := accepted_pool_is_one_free_run (by decide) (by decide) haccept
  exact ⟨pool, haccept, of_decide_eq_true hnum ▸ hone.2.2.1⟩

end

end FullhanRtos.Slab
