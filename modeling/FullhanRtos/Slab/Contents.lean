import FullhanRtos.Lib.Bytes
import FullhanRtos.Lib.Memory
import FullhanRtos.Slab.Safety

/-!
# `rt_realloc` and `rt_calloc`

`rt_realloc` and `rt_calloc` of `kernel/src/slab_fh.c` and their copies for other memory types in
`slab_customer.c`, with the bytes of the blocks. `rt_realloc` copies as many bytes as the new block
is to have, from whatever lies behind the old one, and `rt_calloc` forms its product in 32 bits.
-/

namespace FullhanRtos.Slab

open Bytes Memory Transition List Function

/-! ## The functions -/

/-- The memory types of the callers. -/
def fhmemTypeKernel : Nat := 0
def fhmemTypeNet : Nat := 1
def fhmemTypeApp : Nat := 3

/-- The pool and the bytes of the memory. -/
structure Heap where
  state : State
  mem : Nat → Byte

/-- The pointer that a call returns, the heap behind it, and how many bytes it has read from its
argument on. -/
structure Reply where
  ptr : Nat
  heap : Heap
  reads : Nat

def mallocOf (moduleId size : Nat) (s : State) : Option (Nat × State) :=
  match (fhkmalloc moduleId size mmAlign4).run s.pool with
  | .ok a pool => some (a, ⟨pool, if a = rtNull then s.live else ⟨a, size, mmAlign4⟩ :: s.live⟩)
  | .error _ _ => none

def rtMemcpy (mem : Nat → Byte) (dst src : Nat) : Nat → Nat → Byte
  | 0 => mem
  | n + 1 =>
    let copied := rtMemcpy mem dst src n
    update copied (dst + n) (copied (src + n))

def reallocOf (moduleId ptr size : Nat) (h : Heap) : Option Reply :=
  if ptr = rtNull then
    (mallocOf moduleId size h.state).map fun r => ⟨r.1, ⟨r.2, h.mem⟩, 0⟩
  else if size = 0 then
    (step h.state (.free moduleId ptr)).map fun s => ⟨rtNull, ⟨s, h.mem⟩, 0⟩
  else
    (mallocOf moduleId size h.state).bind fun r =>
      if r.1 = rtNull then some ⟨rtNull, ⟨r.2, h.mem⟩, 0⟩
      else (step r.2 (.free moduleId ptr)).map fun s =>
        ⟨r.1, ⟨s, rtMemcpy h.mem r.1 ptr size⟩, size⟩

def rtRealloc : Nat → Nat → Heap → Option Reply := reallocOf fhmemTypeKernel

def appRealloc : Nat → Nat → Heap → Option Reply := reallocOf fhmemTypeApp

/-- `len` in `rt_calloc`: the product of two words is a word. -/
def callocLen (count size : Nat) : Nat := u32 (count * size)

def callocOf (moduleId count size : Nat) (h : Heap) : Option Reply :=
  let len := callocLen count size
  if 1 * 1024 * 1024 * 1024 < len then some ⟨rtNull, h, 0⟩
  else (mallocOf moduleId len h.state).map fun r =>
    ⟨r.1, ⟨r.2, if r.1 = rtNull then h.mem else write h.mem r.1 (replicate len 0)⟩, 0⟩

def rtCalloc : Nat → Nat → Heap → Option Reply := callocOf fhmemTypeKernel

def lwipCalloc : Nat → Nat → Heap → Option Reply := callocOf fhmemTypeNet

def appCalloc : Nat → Nat → Heap → Option Reply := callocOf fhmemTypeApp

/-! ## What is to hold -/

def State.without (s : State) (ptr : Nat) : List Block := s.live.eraseP fun b => b.addr = ptr

/-- `rt_realloc` of the block `b` to `size` bytes: it reads the block only, moves its bytes and
frees it once, or changes nothing. -/
structure Reallocated (h : Heap) (b : Block) (size : Nat) (r : Reply) : Prop where
  reads : r.reads ≤ b.len
  moved : r.ptr ≠ rtNull → ∃ c : Block, c.addr = r.ptr ∧ size ≤ c.len ∧
    r.heap.state.live = c :: h.state.without b.addr ∧
    read r.heap.mem r.ptr (min b.len size) = read h.mem b.addr (min b.len size)
  freed : size = 0 → r.ptr = rtNull ∧ r.heap.mem = h.mem ∧
    r.heap.state.live = h.state.without b.addr
  refused : 0 < size → r.ptr = rtNull → r.heap = h

/-- A block of `rt_calloc` has room for `count` times `size` bytes, which are zero. -/
def Cleared (count size : Nat) (r : Reply) : Prop :=
  r.ptr ≠ rtNull → ∃ b ∈ r.heap.state.live, b.addr = r.ptr ∧ count * size ≤ b.len ∧
    read r.heap.mem r.ptr (count * size) = replicate (count * size) 0

/-- `fhkmalloc` has a block of this size. -/
def Serves (s : State) (moduleId size : Nat) : Prop :=
  ∃ a s', mallocOf moduleId size s = some (a, s') ∧ a ≠ rtNull

/-- The product fits in 32 bits, or what is left of it there gets no block. -/
def CallocFits (s : State) (moduleId count size : Nat) : Prop :=
  count * size < 4294967296 ∨ 1073741824 < callocLen count size ∨
    ¬ Serves s moduleId (callocLen count size)

section

variable {init : MemPool} {h : Heap} {s : State} {b : Block} {moduleId size count n dst src : Nat}
  {mem : Nat → Byte}

theorem malloc_of_cases (hinv : Inv init s) (hmodule : moduleId < fhmemTypeMax) (size : Nat) :
    (mallocOf moduleId size s = some (rtNull, s) ∧ ¬ Serves s moduleId size) ∨
      ∃ c s', mallocOf moduleId size s = some (c.addr, s') ∧ c.addr ≠ rtNull ∧ Inv init s' ∧
        size ≤ c.len ∧ s'.live = c :: s.live := by
  obtain ⟨runs, ring, hpool⟩ := hinv.pool
  have halign : mmAlign4 ≤ mmPageBits := by decide
  have hvalid : ValidCall s (.malloc moduleId size mmAlign4) := ⟨hmodule, halign⟩
  obtain ⟨s', hstep, hinv'⟩ := malloc_step hinv hvalid
  unfold Serves mallocOf
  rcases @fhkmalloc_run s.pool runs ring size mmAlign4 moduleId hpool hmodule halign with
    hrun | ⟨pool', a, _, _, hrun, hnull, -⟩
  · rw [hrun]
    refine .inl ⟨rfl, ?_⟩
    rintro ⟨a, s', heq, hnull⟩
    cases heq
    exact hnull rfl
  · simp only [step, hrun, if_neg hnull] at hstep ⊢
    cases hstep
    exact .inr ⟨_, _, rfl, hnull, hinv', (hinv'.meets _ mem_cons_self).1, rfl⟩

theorem memcpy_outside {a : Nat} (ha : a < dst ∨ dst + n ≤ a) :
    rtMemcpy mem dst src n a = mem a := by
  induction n with
  | zero => rfl
  | succ n ih => exact (update_of_ne (by omega) ..).trans (ih (by omega))

theorem memcpy_inside {i : Nat} (hi : i < n) (hsrc : src + i < dst ∨ dst + n ≤ src) :
    rtMemcpy mem dst src n (dst + i) = mem (src + i) := by
  induction n with
  | zero => exact absurd hi (Nat.not_lt_zero i)
  | succ n ih =>
    by_cases hlast : i = n
    · rw [hlast] at hsrc ⊢
      exact (update_self ..).trans (memcpy_outside (by omega))
    · exact (update_of_ne (by omega) ..).trans (ih (by omega) (by omega))

/-- Bytes that do not overlap are moved. -/
theorem memcpy_read {k : Nat} (hk : k ≤ n) (hdisjoint : src + k ≤ dst ∨ dst + n ≤ src) :
    read (rtMemcpy mem dst src n) dst k = read mem src k := by
  refine ext_getElem? fun i => ?_
  by_cases hi : i < k
  · rw [getElem?_read hi, getElem?_read hi, memcpy_inside (by omega) (by omega)]
  · rw [getElem?_eq_none (by rw [length_read]; omega),
      getElem?_eq_none (by rw [length_read]; omega)]

/-- `rt_realloc` of a live block reads too much exactly if the new block is longer than the old
one. -/
theorem realloc_of_iff (hinv : Inv init h.state) (hmodule : moduleId < fhmemTypeMax)
    (hb : b ∈ h.state.live) (size : Nat) :
    (∃ r, reallocOf moduleId b.addr size h = some r ∧ Reallocated h b size r) ↔
      (size ≤ b.len ∨ ¬ Serves h.state moduleId size) := by
  obtain ⟨runs, ring, hpool⟩ := hinv.pool
  have hptr := hinv.live.addr_ne_null hpool hb
  unfold reallocOf
  rw [if_neg hptr]
  by_cases hzero : size = 0
  · obtain ⟨s', hstep, -⟩ := free_step hinv ⟨hmodule, .inr ⟨b, hb, rfl⟩⟩
    rw [if_pos hzero, hstep]
    refine iff_of_true ⟨_, rfl, Nat.zero_le _, fun hnull => absurd rfl hnull, fun _ => ?_,
      fun hpos => absurd hzero hpos.ne'⟩ (.inl (hzero ▸ Nat.zero_le _))
    obtain ⟨pool', hrun, -⟩ := hinv.free_live hpool hmodule hb
    simp only [step, hrun] at hstep
    cases hstep
    exact ⟨rfl, rfl, rfl⟩
  rw [if_neg hzero]
  rcases malloc_of_cases hinv hmodule size with
    ⟨hnone, hserves⟩ | ⟨c, s', hmalloc, hnull, hinv', hlen, hlive⟩
  · rw [hnone]
    exact iff_of_true ⟨_, rfl, Nat.zero_le _, fun hnull => absurd rfl hnull,
      fun heq => absurd heq hzero, fun _ _ => rfl⟩ (.inr hserves)
  · obtain ⟨runs', ring', hpool'⟩ := hinv'.pool
    have hb' : b ∈ s'.live := hlive ▸ mem_cons_of_mem c hb
    obtain ⟨pool', hrun, -⟩ := hinv'.free_live hpool' hmodule hb'
    have hblocks := hinv'.blocks_safe.disjoint
    rw [hlive] at hblocks
    have hdisjoint := rel_of_pairwise_cons hblocks hb
    have hother : c.addr ≠ b.addr := by
      have hnodup := hinv'.live.nodup
      rw [hlive] at hnodup
      exact fun heq => (nodup_cons.mp hnodup).1 (heq ▸ mem_map_of_mem hb)
    have hserves : Serves h.state moduleId size := ⟨_, _, hmalloc, hnull⟩
    simp only [hmalloc, Option.bind_some, if_neg hnull, step, hrun, Option.map_some]
    constructor
    · rintro ⟨r, heq, hright⟩
      cases heq
      exact .inl hright.reads
    · intro hfits
      have hfits := hfits.resolve_right (not_not_intro hserves)
      refine ⟨_, rfl, hfits, fun _ => ⟨c, rfl, hlen, ?_, ?_⟩, fun heq => absurd heq hzero,
        fun _ heq => absurd heq hnull⟩
      · show s'.live.eraseP _ = _
        rw [hlive, eraseP_cons_of_neg (by simpa using hother)]
        rfl
      · exact memcpy_read (Nat.min_le_right _ _) (by omega)

/-- `rt_calloc` meets its promise exactly if the product fits in 32 bits, or nothing is returned. -/
theorem calloc_of_iff (hinv : Inv init h.state) (hmodule : moduleId < fhmemTypeMax)
    (count size : Nat) :
    (∃ r, callocOf moduleId count size h = some r ∧ Cleared count size r) ↔
      CallocFits h.state moduleId count size := by
  unfold callocOf CallocFits
  by_cases hbig : 1 * 1024 * 1024 * 1024 < callocLen count size
  · rw [if_pos hbig]
    exact iff_of_true ⟨_, rfl, fun hnull => absurd rfl hnull⟩ (.inr (.inl hbig))
  rw [if_neg hbig]
  rcases malloc_of_cases hinv hmodule (callocLen count size) with
    ⟨hnone, hserves⟩ | ⟨c, s', hmalloc, hnull, hinv', hlen, hlive⟩
  · rw [hnone]
    exact iff_of_true ⟨_, rfl, fun hnull => absurd rfl hnull⟩ (.inr (.inr hserves))
  have hc : c ∈ s'.live := hlive ▸ mem_cons_self
  have hserves : Serves h.state moduleId (callocLen count size) := ⟨_, _, hmalloc, hnull⟩
  rw [hmalloc, Option.map_some, if_neg hnull]
  constructor
  · rintro ⟨r, heq, hcleared⟩
    cases heq
    obtain ⟨d, hd, haddr, hroom, -⟩ := hcleared hnull
    obtain ⟨runs, ring, hpool⟩ := hinv'.pool
    have htop := hpool.wf.geometry.top
    have hinside := (hinv'.blocks_safe.inside d hd).2
    rw [← hinv'.top] at hinside
    exact .inl (by omega)
  · intro hfits
    rcases hfits with hfits | hbig' | hnot
    · have hproduct : callocLen count size = count * size := u32_of_lt hfits
      rw [hproduct] at hlen ⊢
      refine ⟨_, rfl, fun _ => ⟨c, hc, rfl, hlen, ?_⟩⟩
      have hread := @read_write_same _ h.mem c.addr (replicate (count * size) 0)
      rwa [length_replicate] at hread
    · exact absurd hbig' hbig
    · exact absurd hserves hnot

end

/-! ## Whole runs -/

section

variable {raw : RawMemory} {beginAddr endAddr : Nat} {init : MemPool} {calls : List Call}
  {h : Heap} {b : Block}

/-- After safe calls on a new pool `rt_realloc` and `app_realloc` do what they should with a live
block exactly if the new size is at most the length of the block, or there is no memory. -/
theorem realloc_ok_iff (hbegin : beginAddr < 4294967296) (hend : endAddr < 4294967296)
    (haccept : Accepted raw beginAddr endAddr init)
    (hsafe : AllSteps step SafeCall ⟨init, []⟩ calls)
    (hrun : exec step ⟨init, []⟩ calls = some h.state) (hb : b ∈ h.state.live) (size : Nat) :
    ((∃ r, rtRealloc b.addr size h = some r ∧ Reallocated h b size r) ↔
      (size ≤ b.len ∨ ¬ Serves h.state fhmemTypeKernel size)) ∧
    ((∃ r, appRealloc b.addr size h = some r ∧ Reallocated h b size r) ↔
      (size ≤ b.len ∨ ¬ Serves h.state fhmemTypeApp size)) :=
  have hinv := safe_run_inv hbegin hend haccept hsafe hrun
  ⟨realloc_of_iff hinv (by decide) hb size, realloc_of_iff hinv (by decide) hb size⟩

/-- A block of 100 bytes, for which 128 are granted. -/
def oneBlock : List Call := [.malloc 0 100 2]

theorem block_shrunk : ∃ init h b, Accepted clearedMemory 1048576 1069056 init ∧
    exec step ⟨init, []⟩ oneBlock = some h.state ∧ b ∈ h.state.live ∧
      ∃ r, rtRealloc b.addr 60 h = some r ∧ Reallocated h b 60 r := by
  have htest : testPool clearedMemory 1048576 1069056 (fun pool =>
      AllSteps step SafeCall ⟨pool, []⟩ oneBlock ∧
        (exec step ⟨pool, []⟩ oneBlock).any fun s => ∃ b ∈ s.live, b.len = 128) = true := by
    decide +kernel
  obtain ⟨init, haccept, hcalls⟩ := of_test_pool htest
  obtain ⟨hsafe, hany⟩ := of_decide_eq_true hcalls
  obtain ⟨s, hrun, hs⟩ := (Option.any_eq_true _ _).mp hany
  obtain ⟨b, hb, hlen⟩ := of_decide_eq_true hs
  have hiff := (realloc_ok_iff (h := ⟨s, fun _ => 0⟩) (by decide) (by decide) haccept hsafe hrun hb
    60).1
  exact ⟨init, ⟨s, fun _ => 0⟩, b, haccept, hrun, hb, hiff.mpr (.inl (by omega))⟩

/-- For 200 bytes the copy goes on behind the block. -/
theorem block_grown : ∃ init h b, Accepted clearedMemory 1048576 1069056 init ∧
    exec step ⟨init, []⟩ oneBlock = some h.state ∧ b ∈ h.state.live ∧
      ¬ ∃ r, rtRealloc b.addr 200 h = some r ∧ Reallocated h b 200 r := by
  have htest : testPool clearedMemory 1048576 1069056 (fun pool =>
      (exec step ⟨pool, []⟩ oneBlock).any fun s => ∃ b ∈ s.live,
        (rtRealloc b.addr 200 ⟨s, fun _ => 0⟩).all fun r => b.len < r.reads) = true := by
    decide +kernel
  obtain ⟨init, haccept, hany⟩ := of_test_pool htest
  obtain ⟨s, hrun, hs⟩ := (Option.any_eq_true _ _).mp hany
  obtain ⟨b, hb, hall⟩ := of_decide_eq_true hs
  refine ⟨init, ⟨s, fun _ => 0⟩, b, haccept, hrun, hb, ?_⟩
  rintro ⟨r, hr, hright⟩
  rw [hr] at hall
  exact absurd hright.reads (Nat.not_le.mpr (of_decide_eq_true hall))

/-- After safe calls on a new pool `rt_calloc`, `lwip_calloc` and `app_calloc` return blocks that
are long enough and cleared exactly if the product fits in 32 bits, or nothing is returned. -/
theorem calloc_cleared_iff (hbegin : beginAddr < 4294967296) (hend : endAddr < 4294967296)
    (haccept : Accepted raw beginAddr endAddr init)
    (hsafe : AllSteps step SafeCall ⟨init, []⟩ calls)
    (hrun : exec step ⟨init, []⟩ calls = some h.state) (count size : Nat) :
    ((∃ r, rtCalloc count size h = some r ∧ Cleared count size r) ↔
      CallocFits h.state fhmemTypeKernel count size) ∧
    ((∃ r, lwipCalloc count size h = some r ∧ Cleared count size r) ↔
      CallocFits h.state fhmemTypeNet count size) ∧
    ((∃ r, appCalloc count size h = some r ∧ Cleared count size r) ↔
      CallocFits h.state fhmemTypeApp count size) :=
  have hinv := safe_run_inv hbegin hend haccept hsafe hrun
  ⟨calloc_of_iff hinv (by decide) count size, calloc_of_iff hinv (by decide) count size,
    calloc_of_iff hinv (by decide) count size⟩

theorem block_cleared : ∃ init h, Accepted clearedMemory 1048576 1069056 init ∧
    exec step ⟨init, []⟩ oneBlock = some h.state ∧
      ∃ r, rtCalloc 3 40 h = some r ∧ Cleared 3 40 r := by
  have htest : testPool clearedMemory 1048576 1069056 (fun pool =>
      AllSteps step SafeCall ⟨pool, []⟩ oneBlock ∧
        (exec step ⟨pool, []⟩ oneBlock).isSome) = true := by decide +kernel
  obtain ⟨init, haccept, hcalls⟩ := of_test_pool htest
  obtain ⟨hsafe, hsome⟩ := of_decide_eq_true hcalls
  obtain ⟨s, hrun⟩ := Option.isSome_iff_exists.mp hsome
  have hiff := (calloc_cleared_iff (h := ⟨s, fun _ => 0⟩) (by decide) (by decide) haccept hsafe hrun
    3 40).1
  exact ⟨init, ⟨s, fun _ => 0⟩, haccept, hrun, hiff.mpr (.inl (by decide))⟩

/-- The product of 2147483649 and 2 is 2 in 32 bits. -/
theorem short_block_returned : ∃ init, Accepted clearedMemory 1048576 1069056 init ∧
    ¬ ∃ r, rtCalloc 2147483649 2 ⟨⟨init, []⟩, fun _ => 0⟩ = some r ∧ Cleared 2147483649 2 r := by
  have htest : testPool clearedMemory 1048576 1069056 (fun pool =>
      (rtCalloc 2147483649 2 ⟨⟨pool, []⟩, fun _ => 0⟩).all fun r =>
        r.ptr ≠ rtNull ∧ ∀ b ∈ r.heap.state.live, b.len < 2147483649 * 2) = true := by
    decide +kernel
  obtain ⟨init, haccept, hall⟩ := of_test_pool htest
  refine ⟨init, haccept, ?_⟩
  rintro ⟨r, hr, hcleared⟩
  rw [hr] at hall
  obtain ⟨hnull, hshort⟩ := of_decide_eq_true hall
  obtain ⟨b, hb, -, hlen, -⟩ := hcleared hnull
  exact absurd hlen (Nat.not_le.mpr (hshort b hb))

end

end FullhanRtos.Slab
