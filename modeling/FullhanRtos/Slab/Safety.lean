import FullhanRtos.Lib.Transition
import FullhanRtos.Slab.Init

/-!
# Runs of `fhkmalloc` and `fhkfree`

`State` pairs a pool with the blocks its users hold, and `step` is one call. A call is valid when
its arguments are in range and a freed address is a null pointer or the start of a block that is
held (`ValidCall`). `Inv` ties the blocks to the slots that the page table marks as used; every
valid call is served and keeps it, as long as a free does not give back pages that end at
`END_FLAG` right behind a free run (`SafeCall`). The results about whole runs follow from it.
-/

namespace FullhanRtos.Slab

open RunList Transition List

/-! ## Blocks and calls -/

/-- A block in the hands of a user, with the request that it answers. -/
structure Block where
  addr : Nat
  size : Nat
  alignBits : Nat
  deriving DecidableEq

/-- The length of a block: a trunk, or whole pages. -/
def Block.len (b : Block) : Nat := grantedLen b.size b.alignBits

/-- A pool and the blocks it has handed out. -/
structure State where
  pool : MemPool
  live : List Block

inductive Call where
  | malloc (moduleId size alignBits : Nat)
  | free (moduleId ptr : Nat)

/-- One call, or `none` if it stops at a `BUG`. -/
def step (s : State) : Call → Option State
  | .malloc moduleId size alignBits =>
    match (fhkmalloc moduleId size alignBits).run s.pool with
    | .ok a pool =>
      some ⟨pool, if a = rtNull then s.live else ⟨a, size, alignBits⟩ :: s.live⟩
    | .error _ _ => none
  | .free moduleId ptr =>
    match (fhkfree moduleId ptr).run s.pool with
    | .ok _ pool => some ⟨pool, s.live.eraseP fun b => b.addr = ptr⟩
    | .error _ _ => none

/-- The arguments are in range, and a freed address is a null pointer or starts a live block. -/
def ValidCall (s : State) : Call → Prop
  | .malloc moduleId _ alignBits => moduleId < fhmemTypeMax ∧ alignBits ≤ mmPageBits
  | .free moduleId ptr => moduleId < fhmemTypeMax ∧ (ptr = rtNull ∨ ∃ b ∈ s.live, b.addr = ptr)

instance (s : State) : ∀ call, Decidable (ValidCall s call)
  | .malloc _ _ _ => inferInstanceAs (Decidable (_ ∧ _))
  | .free _ _ => inferInstanceAs (Decidable (_ ∧ _))

/-- A valid call that gives no pages back that end at `END_FLAG` right behind a free run. -/
def SafeCall (s : State) : Call → Prop
  | .malloc moduleId size alignBits => ValidCall s (.malloc moduleId size alignBits)
  | .free moduleId ptr => ValidCall s (.free moduleId ptr) ∧ (ptr ≠ rtNull → FreeSafe s.pool ptr)

instance (s : State) : ∀ call, Decidable (SafeCall s call)
  | .malloc moduleId size alignBits =>
    inferInstanceAs (Decidable (ValidCall s (.malloc moduleId size alignBits)))
  | .free _ _ => inferInstanceAs (Decidable (_ ∧ _))

/-! ## The invariant -/

structure LiveOk (pool : MemPool) (live : List Block) : Prop where
  slot : ∀ b ∈ live, ∃ p k, Used pool p k ∧ slotAddr pool p k = b.addr ∧
    slotLen (pool.pgmanArray p) = b.len
  block : ∀ p k, Used pool p k → ∃ b ∈ live, b.addr = slotAddr pool p k
  nodup : (live.map Block.addr).Nodup

/-- The request of a block is met. -/
def Block.Meets (b : Block) : Prop := b.size ≤ b.len ∧ b.addr % 2 ^ b.alignBits = 0

/-- The invariant of runs that start with `init`. -/
structure Inv (init : MemPool) (s : State) : Prop where
  num : s.pool.pageNum = init.pageNum
  start : s.pool.heapStart = init.heapStart
  top : s.pool.heapEnd = init.heapEnd
  pool : ∃ runs ring, PoolInv s.pool runs ring
  live : LiveOk s.pool s.live
  meets : ∀ b ∈ s.live, b.Meets
  used_mem : s.pool.usedMem = (s.live.map Block.len).sum

section

variable {pool pool' init : MemPool} {live : List Block} {s : State} {a : Nat}
  {runs : List (Nat × Nat)} {ring : PageList → List Nat} {b : Block}

theorem inv_init (h : PoolInv pool runs fun _ => []) (hruns : runs = [(0, pool.pageNum)])
    (hmem : pool.usedMem = 0) : Inv pool ⟨pool, []⟩ := by
  refine ⟨rfl, rfl, rfl, ⟨runs, _, h⟩, ⟨by simp, fun p k hu => ?_, by simp⟩, by simp, by simpa⟩
  -- Every page is covered by the free run, and a slot would be on a page of another type.
  have hcov : Covers runs p := by
    rw [hruns, covers_cons]
    exact .inl ⟨Nat.zero_le p, by rw [zero_add]; exact hu.1⟩
  have hfree := (h.wf.ok_at hu.1).covered hcov
  rcases hu.2 with ⟨htype, _⟩ | ⟨htype, _⟩
  · exact absurd (hfree.symm.trans htype) (by decide)
  · exact absurd (hfree.symm.trans htype) (by decide)

/-- No block starts at a null pointer. -/
theorem LiveOk.addr_ne_null (h : LiveOk pool live) (hinv : PoolInv pool runs ring) (hb : b ∈ live) :
    b.addr ≠ rtNull := by
  obtain ⟨p, k, hu, haddr, -⟩ := h.slot b hb
  have hlo := (hinv.wf.slot_inside hu).1
  have hpos := hinv.wf.geometry.start_pos
  rw [rt_null_eq]
  omega

theorem LiveOk.add (h : LiveOk pool live) (hinv : PoolInv pool' runs ring)
    (hadded : BlockAdded pool pool' b.addr b.len) :
    LiveOk pool' (b :: live) := by
  obtain ⟨-, -, -, p, k, hslot, haddr, hlen⟩ := hadded
  have hnew : Used pool' p k := (hslot.used p k).mpr (.inr ⟨rfl, rfl⟩)
  refine ⟨fun c hc => ?_, fun q j hu => ?_, ?_⟩
  · rcases mem_cons.mp hc with rfl | hc
    · exact ⟨p, k, hnew, haddr, hlen⟩
    · obtain ⟨q, j, hu, haddr', hlen'⟩ := h.slot c hc
      exact ⟨q, j, (hslot.used q j).mpr (.inl hu), (hslot.addr q j hu).trans haddr',
        (hslot.len q j hu).trans hlen'⟩
  · rcases (hslot.used q j).mp hu with hu | ⟨rfl, rfl⟩
    · obtain ⟨c, hc, haddr'⟩ := h.block q j hu
      exact ⟨c, mem_cons_of_mem b hc, haddr'.trans (hslot.addr q j hu).symm⟩
    · exact ⟨b, mem_cons_self, haddr.symm⟩
  · rw [map_cons, nodup_cons]
    refine ⟨fun hmem => ?_, h.nodup⟩
    obtain ⟨c, hc, hcb⟩ := mem_map.mp hmem
    obtain ⟨q, j, hu, haddr', -⟩ := h.slot c hc
    have hsame : slotAddr pool' q j = slotAddr pool' p k := by
      rw [hslot.addr q j hu, haddr', hcb, haddr]
    obtain ⟨rfl, rfl⟩ := slot_addr_injective hinv.wf hnew ((hslot.used q j).mpr (.inl hu)) hsame
    exact hslot.fresh hu

theorem LiveOk.remove {l1 l2 : List Block} (h : LiveOk pool (l1 ++ b :: l2))
    (hinv : PoolInv pool runs ring) {len : Nat} (hremoved : BlockAdded pool' pool b.addr len) :
    LiveOk pool' (l1 ++ l2) := by
  obtain ⟨-, -, -, p, k, hslot, haddr, -⟩ := hremoved
  have hold : Used pool p k := (hslot.used p k).mpr (.inr ⟨rfl, rfl⟩)
  have hnodup := h.nodup
  rw [map_append, map_cons, nodup_middle, nodup_cons, ← map_append]
    at hnodup
  have hmem : ∀ c, c ∈ l1 ++ b :: l2 ↔ c = b ∨ c ∈ l1 ++ l2 := fun c => by
    simp only [mem_append, mem_cons]
    tauto
  refine ⟨fun c hc => ?_, fun q j hu => ?_, hnodup.2⟩
  · obtain ⟨q, j, hu, haddr', hlen'⟩ := h.slot c ((hmem c).mpr (.inr hc))
    rcases (hslot.used q j).mp hu with hu' | ⟨rfl, rfl⟩
    · exact ⟨q, j, hu', (hslot.addr q j hu').symm.trans haddr',
        (hslot.len q j hu').symm.trans hlen'⟩
    · refine absurd (mem_map.mpr ⟨c, hc, ?_⟩) hnodup.1
      exact haddr'.symm.trans haddr
  · have hu' : Used pool q j := (hslot.used q j).mpr (.inl hu)
    obtain ⟨c, hc, haddr'⟩ := h.block q j hu'
    rcases (hmem c).mp hc with rfl | hc
    · have hsame : slotAddr pool q j = slotAddr pool p k := haddr'.symm.trans haddr.symm
      obtain ⟨rfl, rfl⟩ := slot_addr_injective hinv.wf hold hu' hsame
      exact absurd hu hslot.fresh
    · exact ⟨c, hc, haddr'.trans (hslot.addr q j hu)⟩

/-- A valid `fhkmalloc` is served or refused, and keeps the invariant. -/
theorem malloc_step (h : Inv init s) {moduleId size alignBits : Nat}
    (hvalid : ValidCall s (.malloc moduleId size alignBits)) :
    ∃ s', step s (.malloc moduleId size alignBits) = some s' ∧ Inv init s' := by
  obtain ⟨runs, ring, hpool⟩ := h.pool
  have hcall := @fhkmalloc_run s.pool runs ring size alignBits moduleId hpool hvalid.1 hvalid.2
  rcases hcall with
    hrun | ⟨pool', a, runs', ring', hrun, hnull, hinv, hadded, hmem, hsize, halign⟩
  · exact ⟨s, by simp [step, hrun], h⟩
  · refine ⟨⟨pool', ⟨a, size, alignBits⟩ :: s.live⟩, by simp only [step, hrun, if_neg hnull],
      hadded.num.trans h.num, hadded.start.trans h.start, hadded.top.trans h.top,
      ⟨runs', ring', hinv⟩, h.live.add hinv hadded, fun b hb => ?_, ?_⟩
    · rcases mem_cons.mp hb with rfl | hb
      · exact ⟨hsize, halign⟩
      · exact h.meets b hb
    · simp only [map_cons, sum_cons, hmem, h.used_mem, Block.len]
      omega

theorem Inv.free_live (h : Inv init s) (hpool : PoolInv s.pool runs ring) {moduleId : Nat}
    (hmodule : moduleId < fhmemTypeMax) (hb : b ∈ s.live) :
    ∃ pool', (fhkfree moduleId b.addr).run s.pool = .ok () pool' ∧
      (FreeSafe s.pool b.addr → ∃ runs' ring', PoolInv pool' runs' ring' ∧
        BlockAdded pool' s.pool b.addr b.len ∧ pool'.usedMem = s.pool.usedMem - b.len) := by
  obtain ⟨p, k, hu, haddr, hlen⟩ := h.live.slot b hb
  obtain ⟨hlo, hhi, hpos, hword⟩ := hpool.wf.slot_inside hu
  obtain ⟨pool', hrun, hrest⟩ := free_r_run hpool hu
  rw [haddr] at hrun hrest hlo hhi hword
  rw [hlen] at hrest hhi hpos
  exact ⟨pool', (fhkfree_at hpool hmodule hlo (by omega) hword).trans hrun, hrest⟩

theorem free_step (h : Inv init s) {moduleId ptr : Nat}
    (hvalid : ValidCall s (.free moduleId ptr)) :
    ∃ s', step s (.free moduleId ptr) = some s' ∧
      ((ptr ≠ rtNull → FreeSafe s.pool ptr) → Inv init s') := by
  obtain ⟨runs, ring, hpool⟩ := h.pool
  obtain ⟨hmodule, rfl | ⟨b, hb, rfl⟩⟩ := hvalid
  · have hkeep : s.live.eraseP (fun b => b.addr = rtNull) = s.live :=
      eraseP_of_forall_not fun b hb => mt of_decide_eq_true (h.live.addr_ne_null hpool hb)
    exact ⟨s, by simp only [step, fhkfree_null, hkeep], fun _ => h⟩
  · obtain ⟨pool', hrun, hrest⟩ := h.free_live hpool hmodule hb
    obtain ⟨c, l1, l2, hfirst, hc, hlive, herase⟩ :=
      exists_of_eraseP (p := fun c => decide (c.addr = b.addr)) hb (by simp)
    have hcb : c = b := by
      have hmem : c ∈ s.live := by simp [hlive]
      exact inj_on_of_nodup_map h.live.nodup hmem hb (by simpa using hc)
    subst hcb
    refine ⟨⟨pool', l1 ++ l2⟩, by simp only [step, hrun, herase], fun hsafe => ?_⟩
    obtain ⟨runs', ring', hinv, hadded, hmem⟩ := hrest (hsafe (h.live.addr_ne_null hpool hb))
    have hmembers : ∀ d ∈ l1 ++ l2, d ∈ s.live := fun d hd => by
      rw [hlive]
      exact mem_append.mpr ((mem_append.mp hd).imp_right (mem_cons_of_mem c))
    refine ⟨hadded.num.symm.trans h.num, hadded.start.symm.trans h.start,
      hadded.top.symm.trans h.top, ⟨runs', ring', hinv⟩,
      LiveOk.remove (hlive ▸ h.live) hpool hadded, fun d hd => h.meets d (hmembers d hd), ?_⟩
    have hsum := h.used_mem
    rw [hlive] at hsum
    simp only [map_append, map_cons, sum_append, sum_cons] at hsum ⊢
    omega

theorem safe_step (call : Call) (h : Inv init s) (hsafe : SafeCall s call) :
    ∃ s', step s call = some s' ∧ Inv init s' := by
  cases call with
  | malloc moduleId size alignBits => exact malloc_step h hsafe
  | free moduleId ptr =>
    obtain ⟨s', hrun, hinv⟩ := free_step h hsafe.1
    exact ⟨s', hrun, hinv hsafe.2⟩

end

/-! ## Whole runs -/

section

variable {raw : RawMemory} {beginAddr endAddr : Nat} {init : MemPool} {calls : List Call}
  {s : State}

theorem safe_run (hbegin : beginAddr < 4294967296) (hend : endAddr < 4294967296)
    (haccept : Accepted raw beginAddr endAddr init)
    (hsafe : AllSteps step SafeCall ⟨init, []⟩ calls) :
    ∃ s, exec step ⟨init, []⟩ calls = some s ∧ Inv init s := by
  obtain ⟨-, hmem, hinv⟩ := haccept.pool_inv hbegin hend
  exact exec_progress (fun s call => safe_step call) (inv_init hinv rfl hmem) hsafe

theorem safe_run_inv (hbegin : beginAddr < 4294967296) (hend : endAddr < 4294967296)
    (haccept : Accepted raw beginAddr endAddr init)
    (hsafe : AllSteps step SafeCall ⟨init, []⟩ calls)
    (hrun : exec step ⟨init, []⟩ calls = some s) : Inv init s := by
  obtain ⟨s', hrun', hinv⟩ := safe_run hbegin hend haccept hsafe
  rwa [Option.some.inj (hrun.symm.trans hrun')]

/-! ### Disjoint blocks -/

/-- What users may rely on: their blocks are disjoint, inside the heap of the new pool, aligned as
requested and to words, and long enough. -/
structure BlocksSafe (init : MemPool) (live : List Block) : Prop where
  disjoint : live.Pairwise fun b c => b.addr + b.len ≤ c.addr ∨ c.addr + c.len ≤ b.addr
  inside : ∀ b ∈ live, init.heapStart ≤ b.addr ∧ b.addr + b.len ≤ init.heapEnd
  aligned : ∀ b ∈ live, b.addr % 2 ^ b.alignBits = 0 ∧ b.addr % 2 ^ mmAlign4 = 0
  long : ∀ b ∈ live, b.size ≤ b.len

theorem Inv.blocks_safe (h : Inv init s) : BlocksSafe init s.live := by
  obtain ⟨runs, ring, hpool⟩ := h.pool
  have hwf := hpool.wf
  refine ⟨?_, fun b hb => ?_, fun b hb => ?_, fun b hb => (h.meets b hb).1⟩
  · have haddrs := h.live.nodup
    rw [nodup_iff_pairwise_ne, pairwise_map] at haddrs
    refine haddrs.imp_of_mem fun {b c} hb hc hne => ?_
    obtain ⟨p, k, hu, haddr, hlen⟩ := h.live.slot b hb
    obtain ⟨q, j, hu', haddr', hlen'⟩ := h.live.slot c hc
    rw [← haddr, ← haddr', ← hlen, ← hlen']
    refine slot_ranges_disjoint hwf hu hu' fun hsame => hne ?_
    rw [← haddr, ← haddr', hsame.1, hsame.2]
  · obtain ⟨p, k, hu, haddr, hlen⟩ := h.live.slot b hb
    obtain ⟨hlo, hhi, -⟩ := hwf.slot_inside hu
    rw [← haddr, ← hlen, ← h.start, ← h.top]
    exact ⟨hlo, hhi⟩
  · obtain ⟨p, k, hu, haddr, -⟩ := h.live.slot b hb
    refine ⟨(h.meets b hb).2, ?_⟩
    rw [← haddr]
    exact (hwf.slot_inside hu).2.2.2

/-- Safe calls on a new pool reach no assertion, and the live blocks are disjoint, inside the
heap, aligned and long enough after every one of them. -/
theorem safe_calls_keep_blocks_disjoint (hbegin : beginAddr < 4294967296)
    (hend : endAddr < 4294967296) (haccept : Accepted raw beginAddr endAddr init)
    (hsafe : AllSteps step SafeCall ⟨init, []⟩ calls) :
    ∃ s, exec step ⟨init, []⟩ calls = some s ∧ BlocksSafe init s.live := by
  obtain ⟨s, hrun, hinv⟩ := safe_run hbegin hend haccept hsafe
  exact ⟨s, hrun, hinv.blocks_safe⟩

/-- Two trunks and a block of two pages on four pages, one of the trunks given back. -/
def someCalls : List Call :=
  [.malloc 0 100 2, .malloc 0 5000 12, .malloc 1 60 0, .free 0 1052672]

theorem some_calls_keep_blocks_disjoint : ∃ init s,
    Accepted clearedMemory 1048576 1069056 init ∧
      AllSteps step SafeCall ⟨init, []⟩ someCalls ∧
      exec step ⟨init, []⟩ someCalls = some s ∧ BlocksSafe init s.live := by
  have htest : testPool clearedMemory 1048576 1069056
      (fun pool => AllSteps step SafeCall ⟨pool, []⟩ someCalls) = true := by decide +kernel
  obtain ⟨init, haccept, hsafe⟩ := of_test_pool htest
  have hsafe := of_decide_eq_true hsafe
  obtain ⟨s, hrun, hblocks⟩ := safe_calls_keep_blocks_disjoint (by decide) (by decide) haccept hsafe
  exact ⟨init, s, haccept, hsafe, hrun, hblocks⟩

/-- On a pool of 65535 pages: page 0 and all pages behind it as two blocks, both given back, and
one more page asked for. -/
def fullPoolCalls : List Call :=
  [.malloc 0 4096 12, .malloc 0 268427264 12, .free 0 2367488, .free 0 2371584, .malloc 0 4096 12]

/-- The second free takes `END_FLAG` for the run behind its pages and links the list into a cycle,
so the last call stops at an assertion. -/
theorem full_pool_calls_stop : ∃ init, Accepted clearedMemory 1048576 270798848 init ∧
    init.pageNum = 65535 ∧ AllSteps step ValidCall ⟨init, []⟩ fullPoolCalls ∧
      exec step ⟨init, []⟩ fullPoolCalls = none := by
  have htest : testPool clearedMemory 1048576 270798848 (fun pool =>
      pool.pageNum = 65535 ∧ AllSteps step ValidCall ⟨pool, []⟩ fullPoolCalls ∧
        (exec step ⟨pool, []⟩ fullPoolCalls).isNone) = true := by decide +kernel
  obtain ⟨init, haccept, hrun⟩ := of_test_pool htest
  have hrun := of_decide_eq_true hrun
  exact ⟨init, haccept, hrun.1, hrun.2.1, Option.isNone_iff_eq_none.mp hrun.2.2⟩

/-! ### Frees of other addresses -/

/-- On a consistent pool `fhkfree` accepts the starts of live blocks, and an assertion that stops
it has found the pool unchanged. -/
theorem Inv.fhkfree_iff (h : Inv init s) {moduleId a : Nat} (hmodule : moduleId < fhmemTypeMax)
    (hlo : s.pool.heapStart ≤ a) (hhi : a < s.pool.heapEnd) (hword : a % 4 = 0) :
    ((∃ pool', (fhkfree moduleId a).run s.pool = .ok () pool') ↔ ∃ b ∈ s.live, b.addr = a) ∧
      ∀ bug pool', (fhkfree moduleId a).run s.pool = .error bug pool' → pool' = s.pool := by
  obtain ⟨runs, ring, hpool⟩ := h.pool
  by_cases hlive : ∃ b ∈ s.live, b.addr = a
  · obtain ⟨b, hb, rfl⟩ := id hlive
    obtain ⟨pool', hrun, -⟩ := h.free_live hpool hmodule hb
    refine ⟨⟨fun _ => hlive, fun _ => ⟨pool', hrun⟩⟩, fun bug pool'' herror => ?_⟩
    rw [hrun] at herror
    cases herror
  · have hnot : ∀ p k, Used s.pool p k → slotAddr s.pool p k ≠ a := by
      intro p k hu haddr
      obtain ⟨b, hb, hbaddr⟩ := h.live.block p k hu
      exact hlive ⟨b, hb, hbaddr.trans haddr⟩
    obtain ⟨bug, hrun⟩ := free_r_rejects hpool hlo hhi hnot
    rw [fhkfree_at hpool hmodule hlo hhi hword, hrun]
    refine ⟨⟨fun hok => ?_, fun hok => absurd hok hlive⟩, fun bug' pool' herror => ?_⟩
    · obtain ⟨pool', hok⟩ := hok
      cases hok
    · cases herror
      rfl

/-- After safe calls on a new pool, `fhkfree` of a word address of the heap completes exactly if a
live block starts there, and otherwise stops before its first write. -/
theorem free_completes_iff_live (hbegin : beginAddr < 4294967296) (hend : endAddr < 4294967296)
    (haccept : Accepted raw beginAddr endAddr init)
    (hsafe : AllSteps step SafeCall ⟨init, []⟩ calls)
    (hrun : exec step ⟨init, []⟩ calls = some s) {moduleId a : Nat}
    (hmodule : moduleId < fhmemTypeMax) (hlo : s.pool.heapStart ≤ a) (hhi : a < s.pool.heapEnd)
    (hword : a &&& 3 = 0) :
    ((∃ pool', (fhkfree moduleId a).run s.pool = .ok () pool') ↔ ∃ b ∈ s.live, b.addr = a) ∧
      ∀ bug pool', (fhkfree moduleId a).run s.pool = .error bug pool' → pool' = s.pool :=
  (safe_run_inv hbegin hend haccept hsafe hrun).fhkfree_iff hmodule hlo hhi
    ((Nat.and_two_pow_sub_one_eq_mod a 2).symm.trans hword)

/-- The first trunk of the zone page was given back, the second has not been handed out. -/
theorem some_calls_reject_freed_trunk : ∃ init s,
    Accepted clearedMemory 1048576 1069056 init ∧
      exec step ⟨init, []⟩ someCalls = some s ∧
      ¬ ∃ pool', (fhkfree 0 1052800).run s.pool = .ok () pool' := by
  have htest : testPool clearedMemory 1048576 1069056 (fun pool =>
      AllSteps step SafeCall ⟨pool, []⟩ someCalls ∧
        (exec step ⟨pool, []⟩ someCalls).any fun s =>
          s.pool.heapStart ≤ 1052800 ∧ 1052800 < s.pool.heapEnd ∧
            ∀ b ∈ s.live, b.addr ≠ 1052800) = true := by decide +kernel
  obtain ⟨init, haccept, hcalls⟩ := of_test_pool htest
  obtain ⟨hsafe, hany⟩ := of_decide_eq_true hcalls
  obtain ⟨s, hrun, hs⟩ := (Option.any_eq_true _ _).mp hany
  obtain ⟨hlo, hhi, hnone⟩ := of_decide_eq_true hs
  have hfree := (free_completes_iff_live (by decide) (by decide) haccept hsafe hrun
    (by decide : 0 < fhmemTypeMax) hlo hhi (by decide)).1
  refine ⟨init, s, haccept, hrun, fun hok => ?_⟩
  obtain ⟨b, hb, haddr⟩ := hfree.mp hok
  exact hnone b hb haddr

/-- Memory that was in use before: what becomes entry 65535 of the page list is `last`. -/
def usedMemory (last : PageAllocator) : RawMemory :=
  { clearedMemory with alloctor := fun i => if i = 65535 then last else ⟨0, 0⟩ }

/-- On a pool of 65535 pages: page 0, page 1 and the pages behind as three blocks, the second and
the third given back. -/
def threeBlockCalls : List Call :=
  [.malloc 0 4096 12, .malloc 0 4096 12, .malloc 0 268423168 12, .free 0 2371584, .free 0 2375680]

/-- The free list then holds a run that is one page too long, and the free of the first block stops
at an assertion although the block is live. -/
theorem three_block_calls_reject_live_block : ∃ init s,
    Accepted (usedMemory ⟨1, 65535⟩) 1048576 270798848 init ∧ init.pageNum = 65535 ∧
      AllSteps step ValidCall ⟨init, []⟩ threeBlockCalls ∧
      exec step ⟨init, []⟩ threeBlockCalls = some s ∧
      (∃ b ∈ s.live, b.addr = 2367488) ∧ s.pool.heapStart ≤ 2367488 ∧ 2367488 < s.pool.heapEnd ∧
      ¬ ∃ pool', (fhkfree 0 2367488).run s.pool = .ok () pool' := by
  have htest : testPool (usedMemory ⟨1, 65535⟩) 1048576 270798848 (fun pool =>
      pool.pageNum = 65535 ∧ AllSteps step ValidCall ⟨pool, []⟩ threeBlockCalls ∧
        (exec step ⟨pool, []⟩ threeBlockCalls).any fun s =>
          (∃ b ∈ s.live, b.addr = 2367488) ∧ s.pool.heapStart ≤ 2367488 ∧
            2367488 < s.pool.heapEnd ∧ (step s (.free 0 2367488)).isNone) =
              true := by decide +kernel
  obtain ⟨init, haccept, hcalls⟩ := of_test_pool htest
  obtain ⟨hnum, hvalid, hany⟩ := of_decide_eq_true hcalls
  obtain ⟨s, hrun, hs⟩ := (Option.any_eq_true _ _).mp hany
  obtain ⟨hlive, hlo, hhi, hfree⟩ := of_decide_eq_true hs
  refine ⟨init, s, haccept, hnum, hvalid, hrun, hlive, hlo, hhi, fun hok => ?_⟩
  obtain ⟨pool', hok⟩ := hok
  simp [step, hok] at hfree

end

end FullhanRtos.Slab
