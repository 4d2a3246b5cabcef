import FullhanRtos.Lib.NullList
import FullhanRtos.Lib.Word
import FullhanRtos.Sched.Waiters

/-!
# Memory pools

`rt_mp_init`, `rt_mp_alloc` and `rt_mp_free` of `kernel/src/mempool.c` on one pool. A block is named
by its number: the pointer in front of block `n` lies at `start_address + n * stride`, where the
strides of all blocks fit into `size` bytes. That pointer leads to the next free block, or to the
pool while the block is allocated. `allocated` lists the blocks that callers have and did not free.

A thread that finds no free block sleeps inside `rt_mp_alloc` and goes on with `again` when it runs
the next time. The timer of a thread takes it off the suspend list of the pool and knows nothing of
`suspend_thread_count`; `pool_ok_iff` says that this is the only thing that goes wrong.
-/

namespace FullhanRtos.Ipc

open Sched Transition NullList Function List Option

set_option linter.unusedSectionVars false

/-! ## The pool -/

/-- The pointer in front of a block: to a free block, `RT_NULL`, or to the pool. -/
inductive Header where
  | link (next : Option Nat)
  | pool
  deriving DecidableEq

/-- The block that a pointer leads to. -/
def Header.next : Header → Option Nat
  | .link next => next
  | .pool => none

/-- The fields of `struct rt_mempool` and the pointers of its blocks. -/
structure MemPool where
  blockTotalCount : Nat
  blockFreeCount : Nat
  blockList : Option Nat
  header : Nat → Header
  suspendThreadCount : Nat

/-- `block_total_count` of `rt_mp_init`. -/
def mpBlocks (size blockSize : BitVec 32) : Nat :=
  (size &&& ~~~3#32).toNat / (((blockSize + 4#32 - 1#32) &&& ~~~3#32) + 4#32).toNat

/-- The loop of `rt_mp_init` over the first blocks: each leads to the one behind it. -/
def linkLoop (header : Nat → Header) : Nat → Nat → Header
  | 0 => header
  | offset + 1 =>
    update (linkLoop header offset) offset (.link (some (offset + 1)))

/-- `rt_mp_init` in memory with any content. Without a block it writes in front of the pool. -/
def rtMpInit (header : Nat → Header) (size blockSize : BitVec 32) : MemPool where
  blockTotalCount := mpBlocks size blockSize
  blockFreeCount := mpBlocks size blockSize
  blockList := some 0
  header :=
    update (linkLoop header (mpBlocks size blockSize))
      (Word.sub32 (mpBlocks size blockSize) 1) (.link none)
  suspendThreadCount := 0

/-- What is left of the pool behind its first free block. -/
def takenFrom (p : MemPool) (b : Nat) : MemPool :=
  { p with
    blockFreeCount := p.blockFreeCount - 1
    blockList := (p.header b).next
    header := update p.header b .pool }

/-- The end of `rt_mp_alloc`, with its assertion. -/
def takeBlock (p : MemPool) : Option (Nat × MemPool) :=
  p.blockList.map fun b => (b, takenFrom p b)

/-- The beginning of `rt_mp_free`. -/
def giveBlock (p : MemPool) (b : Nat) : MemPool :=
  { p with
    blockFreeCount := p.blockFreeCount + 1
    blockList := some b
    header := update p.header b (.link p.blockList) }

/-! ## The functions -/

variable {τ ι : Type} [DecidableEq τ] [DecidableEq ι]

/-- The variables `time` and `before_sleep` of a thread that sleeps in `rt_mp_alloc`. -/
structure MpSleep where
  time : BitVec 32
  beforeSleep : BitVec 32

/-- The threads, the pool and the ticks. `takenEmpty` says that `rt_mp_free` took the first entry of
an empty suspend list for a thread. -/
structure MpSys (τ ι : Type) where
  kernel : Kernel τ ι
  pool : MemPool
  tick : BitVec 32
  sleeping : τ → Option MpSleep
  allocated : List Nat
  result : Agent τ → Option Nat
  takenEmpty : Bool

/-- A call of a kernel function, a tick, or a call or a step of the functions on the pool. -/
inductive MpOp (τ ι : Type) where
  | kernel (op : KernelOp τ ι)
  | tick
  | alloc (caller : Agent τ) (time : BitVec 32)
  | again (t : τ)
  | free (caller : Agent τ) (block : Nat)

/-- Suspend a thread and put it first on the list of an object (`rt_list_insert_after`). -/
def suspendFirst (k : Kernel τ ι) (o : ι) (t : τ) (timed : Bool) : Option (Kernel τ ι) := do
  let k := k.updateThread t fun th => { th with error := .eok }
  let k ← rtThreadSuspend k t
  let k := k.withQueue (.wait o) (t :: k.queue (.wait o))
  rtSchedule (if timed then startTimer k t else k)

/-- The waiting time that is left at a tick. -/
def MpSleep.remaining (w : MpSleep) (tick : BitVec 32) : BitVec 32 :=
  if (0#32).slt w.time then
    let time := w.time - (tick - w.beforeSleep)
    if time.slt 0#32 then 0#32 else time
  else w.time

section

variable (pool : ι) (s : MpSys τ ι)

/-- Return from `rt_mp_alloc`. -/
def MpSys.leave (caller : Agent τ) (block : Option Nat) : MpSys τ ι :=
  { s with result := update s.result caller block }

/-- `rt_mp_alloc` from the test of its loop on. Interrupts must not wait. -/
def rtMpAlloc (caller : Agent τ) (time : BitVec 32) : Option (MpSys τ ι) :=
  if s.pool.blockFreeCount = 0 then
    if time = 0#32 then some (s.leave caller none)
    else
      match caller with
      | .isr _ => none
      | .thread t =>
        (suspendFirst s.kernel pool t ((0#32).slt time)).map fun k =>
          { s with
            kernel := k
            pool.suspendThreadCount := s.pool.suspendThreadCount + 1
            sleeping := update s.sleeping t
              (some { time, beforeSleep := if (0#32).slt time then s.tick else 0#32 }) }
  else
    (takeBlock s.pool).map fun (b, p) =>
      { s with pool := p, allocated := b :: s.allocated }.leave caller (some b)

/-- `rt_mp_alloc` behind its `rt_schedule`. -/
def mpAgain (t : τ) : Option (MpSys τ ι) :=
  match s.sleeping t with
  | none => none
  | some w =>
    let s := { s with sleeping := update s.sleeping t none }
    if (s.kernel.thread t).error ≠ .eok then some (s.leave (.thread t) none)
    else rtMpAlloc pool s (.thread t) (w.remaining s.tick)

/-- `rt_mp_free`. The first entry of an empty list is the list itself and not a thread. -/
def rtMpFree (b : Nat) : Option (MpSys τ ι) :=
  let s := { s with pool := giveBlock s.pool b, allocated := s.allocated.erase b }
  if 0 < s.pool.suspendThreadCount then
    match s.kernel.queue (.wait pool) with
    | [] => some { s with takenEmpty := true }
    | t :: _ =>
      let k := s.kernel.updateThread t fun th => { th with error := .eok }
      (rtSchedule (rtThreadResume k t)).map fun k =>
        { s with
          kernel := k
          pool.suspendThreadCount := s.pool.suspendThreadCount - 1 }
  else some s

/-- A thread that sleeps in `rt_mp_alloc` calls nothing else. -/
def MpSys.Free : Agent τ → Prop
  | .thread t => s.sleeping t = none
  | .isr _ => True

instance MpSys.decidableFree (a : Agent τ) : Decidable (s.Free a) :=
  match a with
  | .thread t => decidable_of_iff ((s.sleeping t).isNone = true) isNone_iff_eq_none
  | .isr _ => .isTrue trivial

/-- One step. Only allocated blocks are freed; `rt_mp_free` finds the pool in front of the block. -/
def mpStep : MpOp τ ι → Option (MpSys τ ι)
  | .kernel op => (kernelStep s.kernel op).map fun k => { s with kernel := k }
  | .tick => some { s with tick := s.tick + 1#32 }
  | .alloc a time => if s.kernel.Acts a ∧ s.Free a then rtMpAlloc pool s a time else none
  | .again t => if s.kernel.Acts (.thread t) then mpAgain pool s t else none
  | .free a b =>
    if s.kernel.Acts a ∧ s.Free a ∧ b ∈ s.allocated ∧ s.pool.header b = .pool then
      rtMpFree pool s b
    else none

end

/-- The state that `rt_mp_init` leaves, before the first thread is created. -/
def mpStart (header : Nat → Header) (size blockSize : BitVec 32) : MpSys τ ι where
  kernel := boot
  pool := rtMpInit header size blockSize
  tick := 0#32
  sleeping := fun _ => none
  allocated := []
  result := fun _ => none
  takenEmpty := false

/-! ## The lists of the pool -/

structure BlocksOk (p : MemPool) (allocated free : List Nat) : Prop where
  list : IsList (fun b => (p.header b).next) p.blockList free
  count : free.length = p.blockFreeCount
  all : (free ++ allocated).Perm (List.range p.blockTotalCount)
  owner : ∀ b ∈ allocated, p.header b = .pool

/-- Blocks and waiting threads are counted right, and no entry was taken from an empty list. -/
structure PoolOk (pool : ι) (s : MpSys τ ι) : Prop where
  blocks : ∃ free, BlocksOk s.pool s.allocated free
  waiters : s.pool.suspendThreadCount = (s.kernel.queue (.wait pool)).length
  taken : s.takenEmpty = false

section

variable {p p' : MemPool} {allocated free : List Nat} {b : Nat} {size blockSize : BitVec 32}
  {header : Nat → Header}

theorem BlocksOk.nodup (h : BlocksOk p allocated free) : (free ++ allocated).Nodup :=
  h.all.nodup_iff.mpr nodup_range

theorem next_update (header : Nat → Header) (b : Nat) (x : Header) :
    (fun n => (update header b x n).next) = update (fun n => (header n).next) b x.next := by
  funext n
  by_cases hn : n = b
  · rw [hn, update_self, update_self]
  · rw [update_of_ne hn, update_of_ne hn]

theorem take_block_ok (h : BlocksOk p allocated free) (hfree : p.blockFreeCount ≠ 0) :
    ∃ b rest, takeBlock p = some (b, takenFrom p b) ∧ b ∉ allocated ∧
      BlocksOk (takenFrom p b) (b :: allocated) rest := by
  have hnodup := h.nodup
  obtain ⟨hlist, hcount, hall, howner⟩ := h
  cases free with
  | nil => exact absurd hcount.symm hfree
  | cons b rest =>
    have hb : b ∉ rest ++ allocated := (nodup_cons.mp hnodup).1
    refine ⟨b, rest, by rw [takeBlock, hlist.1]; rfl, fun hmem => hb ?_, ?_, ?_, ?_, ?_⟩
    · exact mem_append_right rest hmem
    · show IsList (fun n => (update p.header b .pool n).next) (p.header b).next rest
      rw [next_update]
      exact hlist.2.update (fun hmem => hb (mem_append_left allocated hmem)) _
    · show rest.length = p.blockFreeCount - 1
      rw [← hcount, length_cons, Nat.add_sub_cancel]
    · exact perm_middle.trans hall
    · intro c hc
      show update p.header b .pool c = .pool
      by_cases hcb : c = b
      · rw [hcb, update_self]
      · rw [update_of_ne hcb]
        exact howner c (mem_of_ne_of_mem hcb hc)

theorem give_block_ok (h : BlocksOk p allocated free) (hb : b ∈ allocated) :
    BlocksOk (giveBlock p b) (allocated.erase b) (b :: free) := by
  have hnot : b ∉ free := fun hmem => (nodup_append.mp h.nodup).2.2 b hmem b hb rfl
  have hnodup : allocated.Nodup := (nodup_append.mp h.nodup).2.1
  refine ⟨?_, ?_, ?_, fun c hc => ?_⟩
  · show IsList (fun n => (update p.header b (.link p.blockList) n).next) (some b) _
    rw [next_update]
    exact h.list.push hnot
  · show free.length + 1 = p.blockFreeCount + 1
    rw [h.count]
  · have hback : (b :: free ++ allocated.erase b).Perm (free ++ allocated) :=
      perm_middle.symm.trans ((perm_cons_erase hb).symm.append_left free)
    exact hback.trans h.all
  · show update p.header b _ c = .pool
    rw [update_of_ne fun heq : c = b => hnodup.not_mem_erase (heq ▸ hc)]
    exact h.owner c (mem_of_mem_erase hc)

/-- Behind the loop of `rt_mp_init` each block leads to the next one. -/
theorem link_loop_eq (header : Nat → Header) (n : Nat) :
    ∀ b < n, linkLoop header n b = .link (some (b + 1)) := by
  induction n with
  | zero =>
    intro b hb
    omega
  | succ n ih =>
    intro b hb
    rw [linkLoop]
    by_cases hbn : b = n
    · rw [hbn, update_self]
    · rw [update_of_ne hbn]
      exact ih b (by omega)

/-- Links from each number to the next one, up to the last. -/
theorem is_list_range {next : Nat → Option Nat} {i n : Nat}
    (hnext : ∀ b, i ≤ b → b < i + n → next b = some (b + 1)) (hlast : next (i + n) = none) :
    IsList next (some i) (range' i (n + 1)) := by
  induction n generalizing i with
  | zero => exact ⟨rfl, hlast⟩
  | succ n ih =>
    refine ⟨rfl, ?_⟩
    rw [hnext i (le_refl i) (by omega)]
    refine ih (fun b hle hlt => hnext b (by omega) (by omega)) ?_
    rw [show i + 1 + n = i + (n + 1) by omega]
    exact hlast

theorem mp_blocks_lt (size blockSize : BitVec 32) : mpBlocks size blockSize < 2 ^ 32 :=
  lt_of_le_of_lt (Nat.div_le_self _ _) (BitVec.isLt _)

theorem mp_init_ok (hblocks : 0 < mpBlocks size blockSize) :
    BlocksOk (rtMpInit header size blockSize) [] (List.range (mpBlocks size blockSize)) := by
  have hlt := mp_blocks_lt size blockSize
  refine ⟨?_, length_range, by rw [append_nil]; exact Perm.refl _, fun _ hb => ?_⟩
  rotate_left
  · cases hb
  obtain ⟨n, hn⟩ : ∃ n, mpBlocks size blockSize = n + 1 := ⟨_, (Nat.sub_add_cancel hblocks).symm⟩
  rw [hn] at hlt
  have hlast : Word.sub32 (n + 1) 1 = n := Word.sub32_eq (Nat.succ_pos n) hlt
  have hheader : (rtMpInit header size blockSize).header =
      update (linkLoop header (n + 1)) n (.link none) := by
    simp only [rtMpInit, hn, hlast]
  rw [hheader, hn, range_eq_range']
  refine is_list_range (fun b _ hb => ?_) ?_
  · rw [update_of_ne (by omega : b ≠ n), link_loop_eq header (n + 1) b (by omega)]
    rfl
  · rw [zero_add, update_self]
    rfl

theorem mp_init_empty {free : List Nat} (hblocks : mpBlocks size blockSize = 0) :
    ¬ BlocksOk (rtMpInit header size blockSize) [] free := by
  intro h
  have hnil : free = [] := length_eq_zero_iff.mp (h.count.trans hblocks)
  have hlist := h.list
  rw [hnil] at hlist
  cases hlist

end

/-! ## Steps -/

/-- The kernel calls are not about the pool. -/
def MpOp.Gentle (pool : ι) : MpOp τ ι → Prop
  | .kernel op => op.Spares pool
  | _ => True

/-- No timer takes a thread off the suspend list of the pool. -/
def WaitersStay (pool : ι) (s : MpSys τ ι) : MpOp τ ι → Prop
  | .kernel (.timeout t) => t ∉ s.kernel.queue (.wait pool)
  | _ => True

section

variable {pool : ι} {s s' : MpSys τ ι} {k k' : Kernel τ ι} {t : τ} {timed : Bool}

theorem suspend_first_spec {o : ι} (h : KernelInv k) (hready : (k.thread t).stat = .ready)
    (hrun : suspendFirst k o t timed = some k') :
    KernelInv k' ∧ k'.queue (.wait o) = t :: k.queue (.wait o) := by
  obtain ⟨k1, hsuspend, hrun⟩ := bind_eq_some_iff.mp hrun
  generalize hk0 : (k.updateThread t fun th => { th with error := Err.eok }) = k0 at hsuspend
  have hc0 : Consistent k0 [] := by
    rw [← hk0]
    exact (kernel_inv_error h).consistent
  have hready0 : (k0.thread t).stat = .ready := by
    rw [← hk0, update_thread_self]
    exact hready
  have hk1 : k1 = rtThreadSuspend.suspended k0 t := by
    rw [rtThreadSuspend, hready0] at hsuspend
    exact (some.inj hsuspend).symm
  subst hk1
  have hqueue : (rtThreadSuspend.suspended k0 t).queue (.wait o) = k.queue (.wait o) := by
    rw [rtThreadSuspend.suspended, update_thread_queue, remove_thread_queue, ← hk0,
      update_thread_queue, erase_of_not_mem (h.consistent.not_waiting hready o)]
  have hlinked := (hc0.suspended (by simp) hready0).link (q := .wait o) (by simp)
    (Perm.refl _) (.inl ⟨suspended_stat, o, rfl⟩)
  have hrunning := hrun
  obtain ⟨v, hpick, rfl⟩ := map_eq_some_iff.mp hrun
  refine ⟨kernel_inv_schedule ?_ hrunning, ?_⟩
  · split
    · exact hlinked.update_keep rfl rfl fun hm => ⟨hm.number, hm.numberMask, hm.highMask⟩
    · exact hlinked
  · show (if timed then startTimer _ t else _).queue _ = _
    rw [← hqueue]
    cases timed with
    | true => exact update_self _ _ _
    | false => exact update_self _ _ _

/-- What the pool and its counters need is kept where the suspend list keeps its length. -/
theorem PoolOk.congr (h : PoolOk pool s) (hpool : s'.pool = s.pool)
    (hallocated : s'.allocated = s.allocated) (htaken : s'.takenEmpty = s.takenEmpty)
    (hwait : s'.kernel.queue (.wait pool) = s.kernel.queue (.wait pool)) : PoolOk pool s' := by
  obtain ⟨free, hfree⟩ := h.blocks
  refine ⟨⟨free, ?_⟩, ?_, htaken.trans h.taken⟩
  · rw [hpool, hallocated]
    exact hfree
  · rw [hpool, hwait]
    exact h.waiters

theorem kernel_pool_iff {op : KernelOp τ ι} (hop : op.Spares pool) (h : KernelInv s.kernel)
    (hgood : PoolOk pool s) (hrun : mpStep pool s (.kernel op) = some s') :
    KernelInv s'.kernel ∧ (PoolOk pool s' ↔ WaitersStay pool s (.kernel op)) := by
  obtain ⟨k, hk, rfl⟩ := map_eq_some_iff.mp hrun
  refine ⟨kernel_step_inv op h hk, ?_⟩
  cases kernel_step_waiters_cases hop h hk with
  | same _ hwait _ =>
    refine ⟨fun _ => ?_, fun _ => hgood.congr rfl rfl rfl hwait⟩
    cases op with
    | timeout t =>
      intro hmem
      have hlen := congrArg List.length ((timeout_wait hk pool).symm.trans hwait)
      rw [length_erase_of_mem hmem] at hlen
      have hpos := length_pos_of_mem hmem
      omega
    | _ => trivial
  | timeout t hmem hwait hstat herror hother =>
    constructor
    · intro hkept
      have hcount : s.pool.suspendThreadCount = (k.queue (.wait pool)).length := hkept.waiters
      rw [hwait, length_erase_of_mem hmem, hgood.waiters] at hcount
      have hpos := length_pos_of_mem hmem
      omega
    · exact fun hstays => absurd hmem hstays

theorem alloc_pool_ok {a : Agent τ} {time : BitVec 32} (h : KernelInv s.kernel)
    (hgood : PoolOk pool s) (hacts : s.kernel.Acts a) (hrun : rtMpAlloc pool s a time = some s') :
    KernelInv s'.kernel ∧ PoolOk pool s' := by
  obtain ⟨free, hfree⟩ := hgood.blocks
  unfold rtMpAlloc at hrun
  split at hrun
  · split at hrun
    · cases hrun
      exact ⟨h, ⟨free, hfree⟩, hgood.waiters, hgood.taken⟩
    · cases a with
      | isr n => cases hrun
      | thread t =>
        obtain ⟨k, hk, rfl⟩ := map_eq_some_iff.mp hrun
        obtain ⟨hinv, hwait⟩ := suspend_first_spec h hacts.2 hk
        refine ⟨hinv, ⟨free, hfree.list, hfree.count, hfree.all, hfree.owner⟩, ?_, hgood.taken⟩
        show s.pool.suspendThreadCount + 1 = (k.queue (.wait pool)).length
        rw [hwait, length_cons, hgood.waiters]
  · rename_i hsome
    obtain ⟨b, rest, htake, -, hrest⟩ := take_block_ok hfree hsome
    rw [htake] at hrun
    cases hrun
    exact ⟨h, ⟨rest, hrest⟩, hgood.waiters, hgood.taken⟩

theorem free_pool_ok {b : Nat} (h : KernelInv s.kernel) (hgood : PoolOk pool s)
    (hb : b ∈ s.allocated) (hrun : rtMpFree pool s b = some s') :
    KernelInv s'.kernel ∧ PoolOk pool s' := by
  obtain ⟨free, hfree⟩ := hgood.blocks
  have hgiven := give_block_ok hfree hb
  have hwaiters := hgood.waiters
  unfold rtMpFree at hrun
  dsimp only at hrun
  split at hrun
  · rename_i hpos
    split at hrun
    · rename_i hnil
      rw [hnil] at hwaiters
      exact absurd hwaiters (Nat.ne_of_gt hpos)
    · rename_i t rest hlist
      obtain ⟨k, hk, rfl⟩ := map_eq_some_iff.mp hrun
      rw [hlist] at hwaiters
      -- The kernel with the error number set is the one that `rt_thread_resume` finds.
      generalize hk0 : (s.kernel.updateThread t fun th => { th with error := Err.eok }) = k0 at hk
      have hinv0 : KernelInv k0 := hk0 ▸ kernel_inv_error h
      have hlist0 : k0.queue (.wait pool) = t :: rest := by
        rw [← hk0, update_thread_queue]
        exact hlist
      have hresume : rtIpcListResume k0 pool = rtThreadResume k0 t := by
        rw [rtIpcListResume, hlist0]
      have hresumed := ipc_list_resume_resumed hinv0.consistent hlist0
      rw [hresume] at hresumed
      obtain ⟨v, hpick, rfl⟩ := map_eq_some_iff.mp hk
      refine ⟨kernel_inv_schedule (consistent_resume hinv0.consistent (by simp)) hk,
        ⟨b :: free, hgiven.list, hgiven.count, hgiven.all, hgiven.owner⟩, ?_, hgood.taken⟩
      show s.pool.suspendThreadCount - 1 = ((rtThreadResume k0 t).queue (.wait pool)).length
      rw [hresumed.wait, hlist0, erase_cons_head, hwaiters, length_cons, Nat.add_sub_cancel]
  · cases hrun
    exact ⟨h, ⟨b :: free, hgiven⟩, hgood.waiters, hgood.taken⟩

theorem mp_step_iff {op : MpOp τ ι} (hop : op.Gentle pool) (h : KernelInv s.kernel)
    (hgood : PoolOk pool s) (hrun : mpStep pool s op = some s') :
    KernelInv s'.kernel ∧ (PoolOk pool s' ↔ WaitersStay pool s op) := by
  cases op with
  | kernel op => exact kernel_pool_iff hop h hgood hrun
  | tick =>
    cases hrun
    exact ⟨h, fun _ => trivial, fun _ => hgood.congr rfl rfl rfl rfl⟩
  | alloc a time =>
    obtain ⟨⟨hacts, -⟩, hrun⟩ := ite_none_right_eq_some.mp hrun
    obtain ⟨hinv, hkept⟩ := alloc_pool_ok h hgood hacts hrun
    exact ⟨hinv, fun _ => trivial, fun _ => hkept⟩
  | again t =>
    obtain ⟨hacts, hrun⟩ := ite_none_right_eq_some.mp hrun
    unfold mpAgain at hrun
    split at hrun
    · cases hrun
    · dsimp only at hrun
      split at hrun
      · cases hrun
        exact ⟨h, fun _ => trivial, fun _ => hgood.congr rfl rfl rfl rfl⟩
      · generalize hs1 : { s with sleeping := update s.sleeping t none } = s1 at hrun
        have hinv1 : KernelInv s1.kernel := by rwa [← hs1]
        have hgood1 : PoolOk pool s1 := by
          rw [← hs1]
          exact hgood.congr rfl rfl rfl rfl
        have hacts1 : s1.kernel.Acts (.thread t) := by rwa [← hs1]
        obtain ⟨hinv, hkept⟩ := alloc_pool_ok hinv1 hgood1 hacts1 hrun
        exact ⟨hinv, fun _ => trivial, fun _ => hkept⟩
  | free a b =>
    obtain ⟨⟨-, -, hb, -⟩, hrun⟩ := ite_none_right_eq_some.mp hrun
    obtain ⟨hinv, hkept⟩ := free_pool_ok h hgood hb hrun
    exact ⟨hinv, fun _ => trivial, fun _ => hkept⟩

end

/-! ## Runs -/

/-- In every state of a run the blocks and the waiting threads are counted right and no entry is
taken from an empty suspend list, exactly if the pool has a block and no timer takes a thread off
the list. -/
theorem pool_ok_iff {pool : ι} {header : Nat → Header} {size blockSize : BitVec 32}
    {ops : List (MpOp τ ι)} {s : MpSys τ ι} (hops : ∀ op ∈ ops, op.Gentle pool)
    (hrun : exec (mpStep pool) (mpStart header size blockSize) ops = some s) :
    Always (mpStep pool) (PoolOk pool) (mpStart header size blockSize) ops ↔
      0 < mpBlocks size blockSize ∧
      AllSteps (mpStep pool) (WaitersStay pool) (mpStart header size blockSize) ops := by
  by_cases hblocks : 0 < mpBlocks size blockSize
  · have hgood : PoolOk pool (mpStart header size blockSize : MpSys τ ι) :=
      ⟨⟨_, mp_init_ok hblocks⟩, rfl, rfl⟩
    have hinit : KernelInv (mpStart header size blockSize : MpSys τ ι).kernel := kernel_inv_boot
    have hiff := always_iff (I := fun s : MpSys τ ι => KernelInv s.kernel)
      (P := PoolOk pool) (C := WaitersStay pool)
      (fun s op s' hop h hgood hstep => mp_step_iff hop h hgood hstep) hops hinit hgood hrun
    exact hiff.trans ⟨fun hsteps => ⟨hblocks, hsteps⟩, fun hsteps => hsteps.2⟩
  · constructor
    · intro halways
      obtain ⟨free, hfree⟩ := halways.head.blocks
      exact absurd hfree (mp_init_empty (Nat.eq_zero_of_not_pos hblocks))
    · exact fun hsteps => absurd hsteps.1 hblocks

/-- Thread 1 takes the only block, and thread 2 waits for it. -/
def someMpOps : List (MpOp (Fin 3) Unit) :=
  [.kernel (.init 0 255 none true false), .kernel (.init 1 10 none true false),
   .kernel (.init 2 5 none true false), .kernel (.startup 0), .kernel .schedule,
   .kernel (.startup 1), .alloc (.thread 1) 0, .kernel (.startup 2), .alloc (.thread 2) 10]

/-- Thread 2 gets the block that thread 1 frees. -/
theorem some_mp_ops_ok : ∃ s, exec (mpStep ()) (mpStart (fun _ => .pool) 8 4)
      (someMpOps ++ [.free (.thread 1) 0, .again 2]) = some s ∧
    Always (mpStep ()) (PoolOk ()) (mpStart (fun _ => .pool) 8 4)
      (someMpOps ++ [.free (.thread 1) 0, .again 2]) := by
  have hrun : (exec (mpStep ()) (mpStart (fun _ => .pool) 8 4)
      (someMpOps ++ [.free (.thread 1) 0, .again 2])).isSome = true := by decide +kernel
  obtain ⟨s, hs⟩ := isSome_iff_exists.mp hrun
  refine ⟨s, hs, (pool_ok_iff ?_ hs).mpr ⟨by decide +kernel, ?_⟩⟩
  · simp [someMpOps, MpOp.Gentle, KernelOp.Spares]
  · refine all_steps_of_mem ?_ _
    simp [someMpOps, WaitersStay]

/-- When thread 2 has waited in vain, `rt_mp_free` takes a thread from the empty list. -/
theorem timed_out_waiter_is_counted : ∃ s : MpSys (Fin 3) Unit,
    exec (mpStep ()) (mpStart (fun _ => .pool) 8 4)
      (someMpOps ++ [.kernel (.timeout 2), .again 2, .kernel .sleep, .free (.thread 1) 0]) =
        some s ∧
    ¬ PoolOk () s := by
  have hrun : (exec (mpStep ()) (mpStart (fun _ => .pool) 8 4)
      (someMpOps ++ [.kernel (.timeout 2), .again 2, .kernel .sleep, .free (.thread 1) 0])).any
      (fun s => s.takenEmpty) = true := by decide +kernel
  obtain ⟨s, hs, htaken⟩ := (Option.any_eq_true _ _).mp hrun
  exact ⟨s, hs, fun hgood => Bool.false_ne_true (hgood.taken.symm.trans htaken)⟩

end FullhanRtos.Ipc
