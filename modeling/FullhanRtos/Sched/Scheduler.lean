import FullhanRtos.Lib.Transition
import FullhanRtos.Sched.Threads

/-!
# Runs of the scheduler

`KernelOp` lists the calls that threads, interrupts and the idle thread make, in any order, and
`kernelStep` is one of them. `block`, `wake` and `wakeAll` stand for the IPC functions, which
suspend the running thread on an object and resume its waiters. `KernelInv` holds in every state
that a run from `boot` reaches, and with it the bits, lists and states of the ready queue agree and
`rt_schedule` picks a thread of the smallest priority value. Threads of this priority that yield
take turns (`best_threads_take_turns`).
-/

namespace FullhanRtos.Sched

open Transition Option

set_option linter.unusedSectionVars false

variable {τ ι : Type} [DecidableEq τ] [DecidableEq ι]

/-! ## Calls -/

/-- A call of the scheduler or of a thread function. -/
inductive KernelOp (τ ι : Type) where
  | init (t : τ) (priority : Fin 256) (lock : Option ι) (systemObject cleanup : Bool)
  | startup (t : τ)
  | schedule
  | suspend (t : τ)
  | resume (t : τ)
  | sleep
  | timeout (t : τ)
  | yield
  | changePriority (t : τ) (priority : Fin 256)
  | detach (t : τ)
  | delete (t : τ)
  | exit
  | reap
  | block (object : ι) (flag : IpcFlag) (timed : Bool)
  | wake (object : ι)
  | wakeAll (object : ι)

/-- The waiting time of a call on an IPC object: 0, negative or positive. -/
inductive WaitTime where
  | no
  | forever
  | ticks
  deriving DecidableEq

/-- What a call returns; a thread that blocks gets its result later. -/
inductive Outcome where
  | ok
  | failed
  | blocked
  deriving DecidableEq

/-- Who calls: a thread, or an interrupt. -/
inductive Agent (τ : Type) where
  | thread (t : τ)
  | isr (n : Nat)
  deriving DecidableEq

/-- A thread takes a step when it runs, an interrupt at any time. -/
def Kernel.Acts (k : Kernel τ ι) : Agent τ → Prop
  | .thread t => k.current = some t ∧ (k.thread t).stat = .ready
  | .isr _ => True

instance (k : Kernel τ ι) (a : Agent τ) : Decidable (k.Acts a) :=
  match a with
  | .thread t => inferInstanceAs (Decidable (k.current = some t ∧ (k.thread t).stat = .ready))
  | .isr _ => .isTrue trivial

/-- Suspend the running thread, which is ready, on an object; `timed` starts its timer. -/
def blockCurrent (k : Kernel τ ι) (o : ι) (flag : IpcFlag) (timed : Bool) :
    Option (Kernel τ ι) := do
  let t ← k.current
  if (k.thread t).stat = .ready then
    let k := k.updateThread t fun th => { th with error := .eok }
    let k ← rtIpcListSuspend k o t flag
    rtSchedule (if timed then startTimer k t else k)
  else none

/-- Resume the first thread of a list, if there is one, and schedule. -/
def resumeFirst (k : Kernel τ ι) (o : ι) : Option (Kernel τ ι) :=
  match k.queue (.wait o) with
  | _ :: _ => rtSchedule (rtIpcListResume k o)
  | [] => some k

/-- One call. `rt_system_scheduler_start` picks the first thread as `rt_schedule` does. -/
def kernelStep (k : Kernel τ ι) : KernelOp τ ι → Option (Kernel τ ι)
  | .init t priority lock systemObject cleanup =>
    rtThreadInit k t priority lock systemObject cleanup
  | .startup t => rtThreadStartup k t
  | .schedule => rtSchedule k
  | .suspend t => rtThreadSuspend k t
  | .resume t => some (rtThreadResume k t)
  | .sleep => rtThreadSleep k
  | .timeout t => rtThreadTimeout k t
  | .yield => rtThreadYield k
  | .changePriority t p => some (rtThreadChangePriority k t p)
  | .detach t => rtThreadDetach k t
  | .delete t => rtThreadDelete k t
  | .exit => rtThreadExit k
  | .reap => some (rtThreadDefunctDequeue k)
  | .block o flag timed => blockCurrent k o flag timed
  | .wake o => rtSchedule (rtIpcListResume k o)
  | .wakeAll o => rtSchedule (rtIpcListResumeAll k o)

/-- The record of a thread object that is not in use. -/
def noThread : Thread ι where
  stat := .close
  error := .eok
  currentPriority := 0
  initPriority := 0
  number := 0
  numberMask := 0#32
  highMask := 0#8
  timerActive := false
  systemObject := false
  cleanup := false
  lock := none

/-- The state that `rt_system_scheduler_init` leaves, before the first thread is created. -/
def boot : Kernel τ ι where
  thread := fun _ => noThread
  queue := fun _ => []
  readyTable := fun _ => 0#8
  group := 0#32
  current := none

/-! ## The invariant -/

/-- The invariant of all runs. -/
structure KernelInv (k : Kernel τ ι) : Prop where
  consistent : Consistent k []
  current : CurrentOk k

section

variable {k k' : Kernel τ ι} {t : τ}

theorem kernel_inv_boot : KernelInv (boot : Kernel τ ι) := by
  refine ⟨⟨fun p => ?_, fun n => ?_, fun q => List.nodup_nil, ?_, fun t _ => ?_, by simp, ?_,
    ?_⟩, ?_⟩
  · simp [readyBit, boot]
  · simp [boot]
  · intro t q q' hq
    simp [boot] at hq
  · intro q hq
    simp [boot] at hq
  · simp [boot, noThread]
  · simp [boot, noThread]
  · intro t ht
    simp [boot] at ht

theorem kernel_inv_schedule (h : Consistent k []) (hrun : rtSchedule k = some k') : KernelInv k' :=
  ⟨consistent_schedule h hrun, (current_schedule h hrun).1⟩

/-- The same, from what the call leaves. -/
theorem kernel_inv_scheduled (h : Consistent k' []) (hrun : rtSchedule k = some k') :
    KernelInv k' := by
  obtain ⟨t, hpick, rfl⟩ := map_eq_some_iff.mp hrun
  exact ⟨h, (current_schedule h (map_eq_some_iff.mpr ⟨t, hpick, rfl⟩)).1⟩

section

variable (h : KernelInv k)

include h

theorem kernel_inv_of_calm (hconsistent : Consistent k' []) (hcalm : Calm k k')
    (hcurrent : k'.current = k.current) : KernelInv k' :=
  ⟨hconsistent, h.current.of_calm hcalm hcurrent⟩

theorem kernel_inv_init {priority : Fin 256} {lock : Option ι} {systemObject cleanup : Bool}
    (hrun : rtThreadInit k t priority lock systemObject cleanup = some k') : KernelInv k' := by
  refine ⟨consistent_init h.consistent hrun, ?_⟩
  unfold rtThreadInit at hrun
  split at hrun
  · rename_i hfree
    cases hrun
    intro u hu
    have hut : u ≠ t := fun heq => hfree.2.2 (heq ▸ hu)
    rw [update_thread_of_ne hut]
    exact h.current u hu
  · cases hrun

theorem kernel_inv_startup (hrun : rtThreadStartup k t = some k') : KernelInv k' := by
  have hconsistent := consistent_startup h.consistent hrun
  unfold rtThreadStartup at hrun
  split at hrun
  · rename_i hinit
    have hresumed := consistent_resume (t := t) (consistent_starting h.consistent hinit) (by simp)
    dsimp only at hrun
    split at hrun
    · rename_i hnone
      cases hrun
      refine ⟨hconsistent, fun u hu => ?_⟩
      rw [hnone] at hu
      cases hu
    · exact kernel_inv_schedule hresumed hrun
  · cases hrun

theorem kernel_inv_yield (hrun : rtThreadYield k = some k') : KernelInv k' := by
  have hconsistent := consistent_yield h.consistent hrun
  obtain ⟨t, hcurrent, hrun⟩ := bind_eq_some_iff.mp hrun
  dsimp only at hrun
  split at hrun
  · exact kernel_inv_scheduled hconsistent hrun
  · cases hrun
    exact h

/-- A thread that is put on a suspend list leaves the processor. -/
theorem kernel_inv_block {o : ι} {flag : IpcFlag} {timed : Bool}
    (hrun : blockCurrent k o flag timed = some k') : KernelInv k' := by
  obtain ⟨t, hcurrent, hrun⟩ := bind_eq_some_iff.mp hrun
  dsimp only at hrun
  split at hrun
  · rename_i hready
    obtain ⟨k1, hsuspend, hrun⟩ := bind_eq_some_iff.mp hrun
    have hupdated := h.consistent.update_keep (t := t) (f := fun th => { th with error := .eok })
      rfl rfl fun hm => ⟨hm.number, hm.numberMask, hm.highMask⟩
    have hblocked := consistent_ipc_list_suspend hupdated (by rw [update_thread_self]; exact hready)
      hsuspend
    refine kernel_inv_schedule ?_ hrun
    split
    · exact hblocked.update_keep rfl rfl fun hm => ⟨hm.number, hm.numberMask, hm.highMask⟩
    · exact hblocked
  · cases hrun

theorem kernel_inv_error {e : Err} :
    KernelInv (k.updateThread t fun th => { th with error := e }) := by
  have hmasks (hm : HasMasks (k.thread t)) : HasMasks { k.thread t with error := e } :=
    ⟨hm.number, hm.numberMask, hm.highMask⟩
  exact kernel_inv_of_calm h (h.consistent.update_keep rfl rfl hmasks)
    (calm_update rfl rfl hmasks fun hstat => hstat) rfl

theorem kernel_inv_resume_first {o : ι} (hrun : resumeFirst k o = some k') : KernelInv k' := by
  unfold resumeFirst at hrun
  split at hrun
  · exact kernel_inv_schedule (consistent_ipc_list_resume h.consistent o) hrun
  · cases hrun
    exact h

end

/-- Every call keeps the invariant. -/
theorem kernel_step_inv (op : KernelOp τ ι) (h : KernelInv k) (hrun : kernelStep k op = some k') :
    KernelInv k' := by
  have hc := h.consistent
  cases op with
  | init t priority lock systemObject cleanup => exact kernel_inv_init h hrun
  | startup t => exact kernel_inv_startup h hrun
  | schedule => exact kernel_inv_schedule hc hrun
  | suspend t =>
    exact kernel_inv_of_calm h (consistent_suspend hc (by simp) hrun) (calm_suspend hrun)
      (suspend_current hrun)
  | resume t =>
    cases hrun
    exact kernel_inv_of_calm h (consistent_resume hc (by simp)) calm_resume resume_current
  | sleep =>
    obtain ⟨t, hcurrent, hrun⟩ := bind_eq_some_iff.mp hrun
    obtain ⟨k1, hsuspend, hrun⟩ := bind_eq_some_iff.mp hrun
    refine kernel_inv_schedule ?_ hrun
    exact (consistent_suspend hc (by simp) hsuspend).update_keep rfl rfl fun hm =>
      ⟨hm.number, hm.numberMask, hm.highMask⟩
  | timeout t =>
    have hconsistent := consistent_timeout hc hrun
    simp only [kernelStep] at hrun
    unfold rtThreadTimeout at hrun
    split at hrun
    · exact kernel_inv_scheduled hconsistent hrun
    · cases hrun
  | yield => exact kernel_inv_yield h hrun
  | changePriority t p =>
    cases hrun
    exact ⟨consistent_change_priority hc p, current_change_priority h.current p⟩
  | detach t =>
    simp only [kernelStep] at hrun
    unfold rtThreadDetach at hrun
    split at hrun
    · cases hrun
      exact kernel_inv_of_calm h (consistent_retire hc) calm_retire retire_current
    · cases hrun
  | delete t =>
    simp only [kernelStep] at hrun
    unfold rtThreadDelete at hrun
    split at hrun
    · cases hrun
    · cases hrun
      exact kernel_inv_of_calm h (consistent_retire hc) calm_retire retire_current
  | exit =>
    have hconsistent := consistent_exit hc h.current hrun
    obtain ⟨t, hcurrent, hrun⟩ := bind_eq_some_iff.mp hrun
    exact kernel_inv_scheduled hconsistent hrun
  | reap =>
    cases hrun
    refine kernel_inv_of_calm h (consistent_defunct_dequeue hc) ?_ ?_
    · unfold rtThreadDefunctDequeue
      split
      · exact Calm.refl k
      · exact calm_list_remove
    · unfold rtThreadDefunctDequeue
      split <;> rfl
  | block o flag timed => exact kernel_inv_block h hrun
  | wake o => exact kernel_inv_schedule (consistent_ipc_list_resume hc o) hrun
  | wakeAll o => exact kernel_inv_schedule (consistent_resume_all_loop _ hc) hrun

end

/-! ## Every reachable state -/

/-- The lists, the two levels of bits and the states of the threads agree, and `rt_schedule` picks
a ready thread of the smallest priority value whenever there is a ready thread. -/
structure ReadyQueueOk (k : Kernel τ ι) : Prop where
  table : ∀ (n : Fin 32) (b : Fin 8), (k.readyTable n).getLsbD b = true ↔
    k.queue (.ready ⟨8 * n.val + b.val, by omega⟩) ≠ []
  group : ∀ n : Fin 32, k.group.getLsbD n = true ↔ k.readyTable n ≠ 0#8
  ready : ∀ t, (k.thread t).stat = .ready ∨ (k.thread t).stat = .running →
    (k.queue (.ready (k.thread t).currentPriority)).count t = 1 ∧
      ∀ p, t ∈ k.queue (.ready p) → p = (k.thread t).currentPriority
  other : ∀ t, (k.thread t).stat ≠ .ready → (k.thread t).stat ≠ .running →
    ∀ p, t ∉ k.queue (.ready p)
  picked : ∀ k', rtSchedule k = some k' → ∃ t, k'.current = some t ∧
    (k.thread t).stat = .ready ∧ ∀ u, (k.thread u).stat = .ready ∨ (k.thread u).stat = .running →
      (k.thread t).currentPriority ≤ (k.thread u).currentPriority
  picks : ∀ u, (k.thread u).stat = .ready → (rtSchedule k).isSome = true

theorem KernelInv.ready_queue_ok {k : Kernel τ ι} (h : KernelInv k) : ReadyQueueOk k := by
  have hc := h.consistent
  refine ⟨fun n b => ?_, hc.group, fun t ht => ⟨?_, fun p hp => ?_⟩, fun t hready hrunning => ?_,
    fun k' hrun => ?_, fun u hu => ?_⟩
  · obtain ⟨p, hnumber, hbit, hval⟩ := exists_prio n b.isLt
    have hp : (⟨8 * n.val + b.val, by omega⟩ : Fin 256) = p := Fin.ext hval.symm
    rw [hp, ← hc.bits, readyBit, hnumber, hbit]
  · refine List.count_eq_one_of_mem (hc.nodup _) ?_
    have hloc := hc.located t (by simp)
    unfold Located at hloc
    rcases ht with ht | ht
    · rw [ht] at hloc
      exact (hloc _).mpr rfl
    · exact absurd ht (hc.not_running t)
  · exact ((hc.located t (by simp)).ready_prio hp).1
  · exact (hc.located t (by simp)).not_ready hready hrunning
  · obtain ⟨t, hpick, rfl⟩ := map_eq_some_iff.mp hrun
    obtain ⟨hstat, -, hmin⟩ := hc.picked hpick
    exact ⟨t, rfl, hstat.resolve_right (hc.not_running t), hmin⟩
  · obtain ⟨t, hpick⟩ := hc.picks hu
    simp [rtSchedule, hpick]

/-- In every state that calls reach from the start, the ready queue is right. -/
theorem reachable_ready_queue_ok {ops : List (KernelOp τ ι)} {k : Kernel τ ι}
    (hrun : exec kernelStep boot ops = some k) : ReadyQueueOk k := by
  have hinv : KernelInv k :=
    exec_keeps (fun k op k' h hstep => kernel_step_inv op h hstep) kernel_inv_boot hrun
  exact hinv.ready_queue_ok

/-- Three threads: 0 is the idle thread, 1 sleeps and is woken by its timer, 2 gets another
priority while it is ready and is detached while it waits. -/
def someKernelOps : List (KernelOp Nat Nat) :=
  [.init 0 255 none true false, .init 1 20 none true false, .init 2 30 (some 9) true false,
   .startup 0, .startup 1, .startup 2, .schedule, .sleep, .changePriority 2 8,
   .timeout 1, .block 5 .prio true, .yield, .detach 2, .suspend 1, .resume 1, .schedule]

theorem some_kernel_ops_ready_queue_ok : ∃ k : Kernel Nat Nat,
    exec kernelStep boot someKernelOps = some k ∧ ReadyQueueOk k := by
  have hrun : (exec kernelStep boot someKernelOps).isSome = true := by decide +kernel
  obtain ⟨k, hk⟩ := isSome_iff_exists.mp hrun
  exact ⟨k, hk, reachable_ready_queue_ok hk⟩

/-! ## Taking turns -/

/-- The running thread goes behind the others of its priority, and the next one runs. -/
theorem yield_turn {k : Kernel τ ι} {t u : τ} {us : List τ} (h : KernelInv k)
    (hpick : k.current = highestPriorityThread k)
    (hbest : k.queue (.ready (highestReadyPriority k)) = t :: u :: us) :
    ∃ k', rtThreadYield k = some k' ∧ k'.current = highestPriorityThread k' ∧
      k'.thread = k.thread ∧ k'.queue (.ready (highestReadyPriority k')) = u :: (us ++ [t]) := by
  have hfirst : highestPriorityThread k = some t := by
    rw [highestPriorityThread, hbest]
    rfl
  obtain ⟨hprio, hstat⟩ := (h.consistent.located t (by simp)).ready_prio
    (List.mem_of_mem_head? hfirst)
  have hready : (k.thread t).stat = .ready := hstat.resolve_right (h.consistent.not_running t)
  let k' : Kernel τ ι := { rtListInsertBefore (rtListRemove k t)
    (.ready (highestReadyPriority k)) t with current := some u }
  have hqueue : k'.queue (.ready (highestReadyPriority k)) = u :: (us ++ [t]) := by
    simp [k', rtListInsertBefore, Kernel.withQueue, rtListRemove, hbest]
  have hnext : highestPriorityThread k' = some u := congrArg List.head? hqueue
  refine ⟨k', bind_eq_some_iff.mpr ⟨t, hpick.trans hfirst, ?_⟩, hnext.symm, rfl, hqueue⟩
  have hlen : 2 ≤ (k.queue (.ready (highestReadyPriority k))).length := by simp [hbest]
  dsimp only
  rw [← hprio, if_pos ⟨hready, hlen⟩]
  exact map_eq_some_iff.mpr ⟨u, hnext, rfl⟩

/-- While the running threads yield, the ready threads of the best priority take turns: the one in
place `i` of their list runs after `i` calls, which change no thread. -/
theorem best_threads_take_turns {ops : List (KernelOp τ ι)} {k : Kernel τ ι} {u : τ} {i : Nat}
    (hrun : exec kernelStep boot ops = some k) (hpick : k.current = highestPriorityThread k)
    (hu : (k.queue (.ready (highestReadyPriority k)))[i]? = some u) :
    ∃ k', exec kernelStep k (List.replicate i .yield) = some k' ∧ k'.current = some u ∧
      k'.thread = k.thread := by
  have hinv : KernelInv k :=
    exec_keeps (fun k op k' h hstep => kernel_step_inv op h hstep) kernel_inv_boot hrun
  clear hrun
  induction i generalizing k with
  | zero => exact ⟨k, rfl, hpick.trans (List.head?_eq_getElem?.trans hu), rfl⟩
  | succ i ih =>
    rcases hbest : k.queue (.ready (highestReadyPriority k)) with _ | ⟨t, _ | ⟨v, us⟩⟩
    case cons.cons =>
      obtain ⟨k1, hyield, hpick1, hthread, hbest1⟩ := yield_turn hinv hpick hbest
      have hplace : (k1.queue (.ready (highestReadyPriority k1)))[i]? = some u := by
        rw [hbest, List.getElem?_cons_succ] at hu
        rw [hbest1, ← List.cons_append]
        exact (List.getElem?_append_left (List.getElem?_eq_some_iff.mp hu).1).trans hu
      obtain ⟨k', hrest, hcurrent, hkept⟩ := ih hpick1 hplace (kernel_inv_yield hinv hyield)
      exact ⟨k', exec_cons_eq_some.mpr ⟨k1, hyield, hrest⟩, hcurrent, hkept.trans hthread⟩
    all_goals
      rw [hbest] at hu
      cases hu

/-- Three threads of one priority. -/
def equalOps : List (KernelOp Nat Nat) :=
  [.init 0 9 none true false, .init 1 9 none true false, .init 2 9 none true false,
   .startup 0, .startup 1, .startup 2, .schedule]

theorem third_thread_runs : ∃ k k' : Kernel Nat Nat, exec kernelStep boot equalOps = some k ∧
    exec kernelStep k [.yield, .yield] = some k' ∧ k'.current = some 2 := by
  have hrun : (exec kernelStep boot equalOps).any (fun k => k.current = highestPriorityThread k ∧
      (k.queue (.ready (highestReadyPriority k)))[2]? = some 2) = true := by decide +kernel
  obtain ⟨k, hk, hturn⟩ := (Option.any_eq_true _ _).mp hrun
  obtain ⟨hpick, hu⟩ := of_decide_eq_true hturn
  obtain ⟨k', hyields, hcurrent, -⟩ := best_threads_take_turns hk hpick hu
  exact ⟨k, k', hk, hyields, hcurrent⟩

end FullhanRtos.Sched
