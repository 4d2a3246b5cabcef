import FullhanRtos.Slab.Safety

/-!
# The roles of the pages and the statistics

After safe calls every page of a pool is free, cached, a zone page or part of one live block, and
the lists and counters of the pool say the same (`PageRoles`, `StatsOk`). Both are read off the
invariant of `Safety`. On a pool of 65535 pages both can fail after a call that is not safe
(`two_block_calls_lose_pages`, `two_block_calls_lose_stats`).
-/

namespace FullhanRtos.Slab

open RunList Transition List

/-! ## Roles -/

/-- What a page is used for. -/
inductive Role where
  | free (run : Nat × Nat)
  | cached
  | zone
  | block (head : Nat)

def HasRole (s : State) (ring : PageList → List Nat) (p : Nat) : Role → Prop
  | .free run => run ∈ s.pool.freeRuns ∧ run.1 ≤ p ∧ p < run.1 + run.2
  | .cached => p ∈ ring .cache
  | .zone =>
    s.pool.type p = .zone ∧ (s.pool.pgmanArray p).zoneIndex < nzones ∧
      (s.pool.pgmanArray p).freeTrunks + Bits.popcount (s.pool.pgmanArray p).trunkBitmap =
        trunksPerPage (s.pool.pgmanArray p).zoneIndex
  | .block head =>
    s.pool.type head = .page ∧ head ≤ p ∧ p < head + s.pool.prev head ∧
      ∃ b ∈ s.live, b.addr = s.pool.pageAddr head ∧ b.len = 4096 * s.pool.prev head

structure PageRoles (s : State) (ring : PageList → List Nat) : Prop where
  lists : ∀ list, RingOk s.pool list (ring list)
  free : FreeListOk s.pool s.pool.freeRuns
  roles : ∀ p, p < s.pool.pageNum → ∃! role, HasRole s ring p role
  cache : s.pool.zoneCacheCount = (ring .cache).length ∧ (ring .cache).length ≤ zoneReleaseThresh
  alloc : ∀ p zi, p < s.pool.pageNum →
    (p ∈ ring (.zone zi) ↔ s.pool.type p = .zone ∧ (s.pool.pgmanArray p).zoneIndex = zi ∧
      0 < (s.pool.pgmanArray p).freeTrunks ∧ 0 < Bits.popcount (s.pool.pgmanArray p).trunkBitmap)

section

variable {init : MemPool} {s : State} {runs : List (Nat × Nat)} {ring : PageList → List Nat}
  {p h : Nat}

theorem Inv.block_live (hinv : Inv init s) (hwf : Wf s.pool runs ring 0 0)
    (hp : p < s.pool.pageNum) (htype : s.pool.type p = .page) :
    ∃ b ∈ s.live, b.addr = s.pool.pageAddr p ∧ b.len = 4096 * s.pool.prev p := by
  have hu : Used s.pool p 0 := ⟨hp, .inl ⟨htype, rfl⟩⟩
  obtain ⟨b, hb, haddr⟩ := hinv.live.block p 0 hu
  obtain ⟨q, j, hu', haddr', hlen⟩ := hinv.live.slot b hb
  obtain ⟨rfl, rfl⟩ := slot_addr_injective hwf hu hu' (haddr'.trans haddr)
  refine ⟨b, hb, ?_, ?_⟩
  · simpa [slotAddr] using haddr
  · rw [← hlen, slotLen, if_pos htype]

theorem Wf.block_page (hwf : Wf s.pool runs ring 0 0) (hp : p < s.pool.pageNum)
    (htype : s.pool.type h = .page) (hle : h ≤ p) (hlt : p < h + s.pool.prev h) :
    h = p ∨ s.pool.type p = .free ∧ ¬ Covers runs p := by
  rcases Nat.eq_or_lt_of_le hle with heq | hlt'
  · exact .inl heq
  · exact .inr (((hwf.ok_at (by omega)).page htype).body p hlt' hlt)

theorem Wf.role_of_type (hwf : Wf s.pool runs ring 0 0) (hruns : s.pool.freeRuns = runs)
    (hp : p < s.pool.pageNum) {role : Role} (hrole : HasRole s ring p role) :
    match s.pool.type p with
    | .free => role ≠ .cached ∧ role ≠ .zone
    | .cache => role = .cached
    | .zone => role = .zone
    | .page => role = .block p := by
  have hok := hwf.ok_at hp
  cases role with
  | free run =>
    have hfree := hok.covered ⟨run, hruns ▸ hrole.1, hrole.2⟩
    simp [hfree]
  | cached =>
    have hcache : s.pool.type p = .cache := hok.member .cache hrole
    simp [hcache]
  | zone => simp [hrole.1]
  | block head =>
    obtain ⟨htype, hle, hlt, -⟩ := hrole
    rcases hwf.block_page hp htype hle hlt with rfl | ⟨hfree, -⟩
    · simp [htype]
    · simp [hfree]

theorem Wf.block_unique (hwf : Wf s.pool runs ring 0 0) {h' : Nat} (hp : p < s.pool.pageNum)
    (htype : s.pool.type h = .page) (hle : h ≤ p) (hlt : p < h + s.pool.prev h)
    (htype' : s.pool.type h' = .page) (hle' : h' ≤ p) (hlt' : p < h' + s.pool.prev h') :
    h = h' := by
  have hapart : ∀ {a b}, s.pool.type a = .page → s.pool.type b = .page → a < b →
      b < a + s.pool.prev a → b < s.pool.pageNum → False := by
    intro a b ha hb hab hin hbound
    have hfree := (((hwf.ok_at (by omega)).page ha).body b hab hin).1
    exact absurd (hfree.symm.trans hb) (by decide)
  rcases Nat.lt_trichotomy h h' with hlt1 | heq | hlt1
  · exact (hapart htype htype' hlt1 (by omega) (by omega)).elim
  · exact heq
  · exact (hapart htype' htype hlt1 (by omega) (by omega)).elim

theorem Inv.exists_unique_role (hinv : Inv init s) (hwf : Wf s.pool runs ring 0 0)
    (hruns : s.pool.freeRuns = runs) (hp : p < s.pool.pageNum) :
    ∃! role, HasRole s ring p role := by
  have hok := hwf.ok_at hp
  have hother := fun role (hrole : HasRole s ring p role) => hwf.role_of_type hruns hp hrole
  cases htype : s.pool.type p with
  | free =>
    simp only [htype] at hother
    rcases hok.free htype with hcov | ⟨h, hlt, hpage, hin⟩
    · obtain ⟨run, hmem, hin⟩ := id hcov
      refine ⟨.free run, ⟨hruns ▸ hmem, hin⟩, fun role hrole => ?_⟩
      cases role with
      | free run' =>
        rw [hwf.free.separated.covers_unique (hruns ▸ hrole.1) hmem hrole.2 hin]
      | cached => exact absurd rfl (hother _ hrole).1
      | zone => exact absurd rfl (hother _ hrole).2
      | block head =>
        obtain ⟨hhead, hle, hlt, -⟩ := hrole
        rcases hwf.block_page hp hhead hle hlt with rfl | ⟨-, hnot⟩
        · exact absurd (htype.symm.trans hhead) (by decide)
        · exact absurd hcov hnot
    · have hlive := hinv.block_live hwf (by omega) hpage
      refine ⟨.block h, ⟨hpage, hlt.le, hin, hlive⟩, fun role hrole => ?_⟩
      cases role with
      | free run =>
        have hnot := (((hwf.ok_at (by omega)).page hpage).body p hlt hin).2
        exact absurd ⟨run, hruns ▸ hrole.1, hrole.2⟩ hnot
      | cached => exact absurd rfl (hother _ hrole).1
      | zone => exact absurd rfl (hother _ hrole).2
      | block head =>
        obtain ⟨hhead, hle', hlt', -⟩ := hrole
        rw [hwf.block_unique hp hhead hle' hlt' hpage hlt.le hin]
  | cache =>
    simp only [htype] at hother
    exact ⟨.cached, (hok.cache htype).2, hother⟩
  | zone =>
    simp only [htype] at hother
    have hzone := hok.zone htype
    exact ⟨.zone, ⟨htype, hzone.zone, hzone.count⟩, hother⟩
  | page =>
    simp only [htype] at hother
    have hpos := (hok.page htype).pos
    exact ⟨.block p, ⟨htype, le_rfl, by omega, hinv.block_live hwf hp htype⟩, hother⟩

theorem Inv.page_roles (hinv : Inv init s) : ∃ ring, PageRoles s ring := by
  obtain ⟨runs, ring, hpool⟩ := hinv.pool
  have hwf := hpool.wf
  have hruns := hwf.free.free_runs_eq hwf.geometry
  refine ⟨ring, hwf.rings, hruns ▸ hwf.free, fun p hp => hinv.exists_unique_role hwf hruns hp,
    ⟨hpool.count, hpool.count_le⟩, fun p zi hp => ⟨fun hmem => ?_, ?_⟩⟩
  · obtain ⟨htype, hzi, hpos⟩ := (hwf.ok_at hp).member (.zone zi) hmem
    exact ⟨htype, hzi, hpos, ((hwf.ok_at hp).zone htype).used⟩
  · rintro ⟨htype, rfl, hpos, -⟩
    exact ((hwf.ok_at hp).zone htype).linked hpos

end

/-! ## Statistics -/

def cachedPages (pool : MemPool) : Finset Nat :=
  (Finset.range pool.pageNum).filter fun p => pool.type p = .cache

/-- The statistics of a pool agree with the blocks and pages, and no page is lost when every block
was given back. -/
structure StatsOk (s : State) : Prop where
  used_mem : s.pool.usedMem = (s.live.map Block.len).sum
  info : (rtMemoryInfo s.pool).2.1 = (s.live.map Block.len).sum
  parts : s.pool.usedMem =
    s.pool.blockUsedBytes + ∑ zi ∈ Finset.range nzones, s.pool.zoneUsedBytes zi
  zone_num : ∀ zi, s.pool.zoneNum zi = (zonePages s.pool zi).card
  cached : s.pool.zoneCacheCount = (cachedPages s.pool).card
  all_free : s.live = [] → s.pool.usedMem = 0 ∧
    (total s.pool.freeRuns : Int) + s.pool.zoneCacheCount = s.pool.pageNum

section

variable {init : MemPool} {s : State} {runs : List (Nat × Nat)} {ring : PageList → List Nat}

theorem Inv.free_or_cached (hinv : Inv init s) (hwf : Wf s.pool runs ring 0 0)
    (hlive : s.live = []) {p : Nat} (hp : p < s.pool.pageNum) :
    Covers runs p ∧ s.pool.type p ≠ .cache ∨ ¬ Covers runs p ∧ s.pool.type p = .cache := by
  have hunused : ∀ q k, ¬ Used s.pool q k := by
    intro q k hu
    obtain ⟨b, hb, -⟩ := hinv.live.block q k hu
    simp [hlive] at hb
  have hok := hwf.ok_at hp
  cases htype : s.pool.type p with
  | free =>
    rcases hok.free htype with hcov | ⟨h, hlt, hpage, -⟩
    · exact .inl ⟨hcov, by decide⟩
    · exact absurd ⟨hlt.trans hp, .inl ⟨hpage, rfl⟩⟩ (hunused h 0)
  | page => exact absurd ⟨hp, .inl ⟨htype, rfl⟩⟩ (hunused p 0)
  | zone =>
    -- A zone page has a used trunk.
    obtain ⟨k, -, hset⟩ := Bits.exists_of_popcount_pos _ (hok.zone htype).used
    exact absurd ⟨hp, .inr ⟨htype, hset⟩⟩ (hunused p k)
  | cache => exact .inr ⟨fun hcov => absurd ((hok.covered hcov).symm.trans htype) (by decide), rfl⟩

theorem PoolInv.cached_pages {pool : MemPool} (h : PoolInv pool runs ring) :
    pool.zoneCacheCount = (cachedPages pool).card := by
  have hpages : cachedPages pool = (ring .cache).toFinset := by
    ext p
    simp only [cachedPages, Finset.mem_filter, Finset.mem_range, mem_toFinset]
    refine ⟨fun hp => ((h.wf.ok_at hp.1).cache hp.2).2, fun hmem => ?_⟩
    have hp := (h.wf.rings .cache).bound p hmem
    exact ⟨hp, (h.wf.ok_at hp).member .cache hmem⟩
  rw [hpages, toFinset_card_of_nodup (h.wf.rings .cache).nodup, h.count]

theorem Inv.stats_ok (hinv : Inv init s) : StatsOk s := by
  obtain ⟨runs, ring, hpool⟩ := hinv.pool
  have hwf := hpool.wf
  have hruns := hwf.free.free_runs_eq hwf.geometry
  refine ⟨hinv.used_mem, ?_, hpool.used_mem, hpool.zone_num, hpool.cached_pages,
    fun hlive => ⟨?_, ?_⟩⟩
  · rw [rtMemoryInfo, if_pos hwf.inited]
    exact hinv.used_mem
  · rw [hinv.used_mem, hlive]
    rfl
  · have hcached : cachedPages s.pool =
        (Finset.range s.pool.pageNum).filter fun p => ¬ Covers runs p := by
      refine Finset.filter_congr fun p hp => ?_
      rcases hinv.free_or_cached hwf hlive (Finset.mem_range.mp hp) with ⟨hcov, htype⟩ |
        ⟨hcov, htype⟩
      · simp [hcov, htype]
      · simp [hcov, htype]
    have hsum := Finset.card_filter_add_card_filter_not (s := Finset.range s.pool.pageNum)
      (Covers runs)
    rw [hwf.free.separated.card_covers, Finset.card_range] at hsum
    rw [hruns, hpool.cached_pages, hcached]
    exact_mod_cast hsum

end

/-! ## Whole runs -/

section

variable {raw : RawMemory} {beginAddr endAddr : Nat} {init : MemPool} {calls : List Call}
  {s : State}

/-- After safe calls on a new pool every page has exactly one role, and the page lists are well
formed. -/
theorem safe_calls_keep_page_roles (hbegin : beginAddr < 4294967296) (hend : endAddr < 4294967296)
    (haccept : Accepted raw beginAddr endAddr init)
    (hsafe : AllSteps step SafeCall ⟨init, []⟩ calls)
    (hrun : exec step ⟨init, []⟩ calls = some s) : ∃ ring, PageRoles s ring :=
  (safe_run_inv hbegin hend haccept hsafe hrun).page_roles

/-- After safe calls on a new pool the statistics are right. -/
theorem safe_calls_keep_stats (hbegin : beginAddr < 4294967296) (hend : endAddr < 4294967296)
    (haccept : Accepted raw beginAddr endAddr init)
    (hsafe : AllSteps step SafeCall ⟨init, []⟩ calls)
    (hrun : exec step ⟨init, []⟩ calls = some s) : StatsOk s :=
  (safe_run_inv hbegin hend haccept hsafe hrun).stats_ok

theorem some_calls_served : ∃ init s, Accepted clearedMemory 1048576 1069056 init ∧
    AllSteps step SafeCall ⟨init, []⟩ someCalls ∧ exec step ⟨init, []⟩ someCalls = some s := by
  have htest : testPool clearedMemory 1048576 1069056 (fun pool =>
      AllSteps step SafeCall ⟨pool, []⟩ someCalls ∧
        (exec step ⟨pool, []⟩ someCalls).isSome) = true := by decide +kernel
  obtain ⟨init, haccept, hcalls⟩ := of_test_pool htest
  obtain ⟨hsafe, hsome⟩ := of_decide_eq_true hcalls
  obtain ⟨s, hrun⟩ := Option.isSome_iff_exists.mp hsome
  exact ⟨init, s, haccept, hsafe, hrun⟩

theorem some_calls_keep_page_roles : ∃ init s ring,
    Accepted clearedMemory 1048576 1069056 init ∧ exec step ⟨init, []⟩ someCalls = some s ∧
      PageRoles s ring := by
  obtain ⟨init, s, haccept, hsafe, hrun⟩ := some_calls_served
  obtain ⟨ring, hroles⟩ := safe_calls_keep_page_roles (by decide) (by decide) haccept hsafe hrun
  exact ⟨init, s, ring, haccept, hrun, hroles⟩

theorem some_calls_keep_stats : ∃ init s, Accepted clearedMemory 1048576 1069056 init ∧
    exec step ⟨init, []⟩ someCalls = some s ∧ StatsOk s := by
  obtain ⟨init, s, haccept, hsafe, hrun⟩ := some_calls_served
  exact ⟨init, s, haccept, hrun, safe_calls_keep_stats (by decide) (by decide) haccept hsafe hrun⟩

/-- On a pool of 65535 pages: page 0 and all pages behind it as two blocks, both given back. -/
def twoBlockCalls : List Call :=
  [.malloc 0 4096 12, .malloc 0 268427264 12, .free 0 2367488, .free 0 2371584]

/-- The second free adds the length found in the entry behind the last page, and the sum wraps to
a run of four pages: page 4 has no role. -/
theorem two_block_calls_lose_pages : ∃ init s,
    Accepted (usedMemory ⟨5, 65535⟩) 1048576 270798848 init ∧ init.pageNum = 65535 ∧
      AllSteps step ValidCall ⟨init, []⟩ twoBlockCalls ∧
      exec step ⟨init, []⟩ twoBlockCalls = some s ∧ ¬ ∃ ring, PageRoles s ring := by
  have htest : testPool (usedMemory ⟨5, 65535⟩) 1048576 270798848 (fun pool =>
      pool.pageNum = 65535 ∧ AllSteps step ValidCall ⟨pool, []⟩ twoBlockCalls ∧
        (exec step ⟨pool, []⟩ twoBlockCalls).any fun s =>
          4 < s.pool.pageNum ∧ s.pool.freeRuns = [(0, 4)] ∧ s.pool.zoneCacheCount = 0 ∧
            s.pool.type 4 = .free ∧ ∀ h < 5, s.pool.type h ≠ .page) = true := by decide +kernel
  obtain ⟨init, haccept, hcalls⟩ := of_test_pool htest
  obtain ⟨hnum, hvalid, hany⟩ := of_decide_eq_true hcalls
  obtain ⟨s, hrun, hs⟩ := (Option.any_eq_true _ _).mp hany
  obtain ⟨hfour, hruns, hcache, htype, hpage⟩ := of_decide_eq_true hs
  refine ⟨init, s, haccept, hnum, hvalid, hrun, fun hroles => ?_⟩
  obtain ⟨ring, hroles⟩ := hroles
  obtain ⟨role, hrole, -⟩ := hroles.roles 4 hfour
  cases role with
  | free run =>
    have hmem := hrole.1
    rw [hruns, mem_singleton] at hmem
    subst hmem
    exact absurd hrole.2.2 (by decide)
  | cached =>
    have hlen := hroles.cache.1
    rw [hcache, eq_comm, Int.natCast_eq_zero, length_eq_zero_iff] at hlen
    have hmem : 4 ∈ ring .cache := hrole
    simp [hlen] at hmem
  | zone => exact absurd (htype.symm.trans hrole.1) (by decide)
  | block head => exact hpage head (by have := hrole.2.1; omega) hrole.1

/-- No block is live, but the free list holds four pages and none is cached. -/
theorem two_block_calls_lose_stats : ∃ init s,
    Accepted (usedMemory ⟨5, 65535⟩) 1048576 270798848 init ∧ init.pageNum = 65535 ∧
      AllSteps step ValidCall ⟨init, []⟩ twoBlockCalls ∧
      exec step ⟨init, []⟩ twoBlockCalls = some s ∧ s.live = [] ∧
      (total s.pool.freeRuns : Int) + s.pool.zoneCacheCount ≠ s.pool.pageNum := by
  have htest : testPool (usedMemory ⟨5, 65535⟩) 1048576 270798848 (fun pool =>
      pool.pageNum = 65535 ∧ AllSteps step ValidCall ⟨pool, []⟩ twoBlockCalls ∧
        (exec step ⟨pool, []⟩ twoBlockCalls).any fun s =>
          s.live = [] ∧ (total s.pool.freeRuns : Int) + s.pool.zoneCacheCount ≠
            s.pool.pageNum) = true := by decide +kernel
  obtain ⟨init, haccept, hcalls⟩ := of_test_pool htest
  obtain ⟨hnum, hvalid, hany⟩ := of_decide_eq_true hcalls
  obtain ⟨s, hrun, hs⟩ := (Option.any_eq_true _ _).mp hany
  obtain ⟨hlive, hlost⟩ := of_decide_eq_true hs
  exact ⟨init, s, haccept, hnum, hvalid, hrun, hlive, hlost⟩

end

end FullhanRtos.Slab
