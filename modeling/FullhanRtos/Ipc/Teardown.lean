import FullhanRtos.Ipc.Event
import FullhanRtos.Ipc.Mailbox
import FullhanRtos.Ipc.MessageQueue
import FullhanRtos.Ipc.Mutex
import FullhanRtos.Ipc.Semaphore

/-!
# The end of IPC objects

The detach, delete and reset functions of `kernel/src/ipc.c` for the five kinds of objects. All of
them wake the waiters with `rt_ipc_list_resume_all`, whose effect is `resume_all_spec`; mailboxes
and message queues have two lists. `tear_down_iff` says after which calls no waiter is left behind,
and `ipc_runs_keep_queues` that the lists of the threads agree whatever is called.

A call is one step here, also where the source enables interrupts between two waiters. The memory
and the name of the object are left out.
-/

namespace FullhanRtos.Ipc

open Sched Transition List Option

set_option linter.unusedSectionVars false

variable {τ μ ι : Type} [DecidableEq τ] [DecidableEq μ] [DecidableEq ι] {config : MqConfig}

/-! ## Objects of all kinds -/

/-- An object of each kind, with the threads. The objects of one kind share their type with those
that the mutexes know as `Obj`. -/
inductive IpcSys (τ μ ι : Type) where
  | sem (o : Obj μ ι) (flag : IpcFlag) (s : SemSys τ (Obj μ ι))
  | mutex (m : μ) (s : Sys τ μ ι)
  | event (o : Obj μ ι) (flag : IpcFlag) (s : EventSys τ (Obj μ ι))
  | mailbox (config : MbConfig (Obj μ ι)) (s : MbSys τ (Obj μ ι))
  | queue (config : MqConfig) (receivers senders : Obj μ ι) (lists : receivers ≠ senders)
      (flag : IpcFlag) (s : MqSys τ (Obj μ ι))

namespace IpcSys

/-- The threads. -/
def kernel : IpcSys τ μ ι → Kernel τ (Obj μ ι)
  | .sem _ _ s => s.kernel
  | .mutex _ s => s.kernel
  | .event _ _ s => s.kernel
  | .mailbox _ s => s.kernel
  | .queue _ _ _ _ _ s => s.kernel

/-- The suspend lists of the object. -/
def lists : IpcSys τ μ ι → List (Obj μ ι)
  | .sem o _ _ => [o]
  | .mutex m _ => [.mutex m]
  | .event o _ _ => [o]
  | .mailbox config _ => [config.receivers, config.senders]
  | .queue _ receivers senders _ _ _ => [receivers, senders]

end IpcSys

/-! ## Detach and delete -/

def rtSemDetach (sem : ι) (s : SemSys τ ι) : SemSys τ ι :=
  { s with kernel := rtIpcListResumeAll s.kernel sem }

def rtSemDelete (sem : ι) (s : SemSys τ ι) : SemSys τ ι :=
  { s with kernel := rtIpcListResumeAll s.kernel sem }

def rtMutexDetach (m : μ) (s : Sys τ μ ι) : Sys τ μ ι :=
  { s with kernel := rtIpcListResumeAll s.kernel (.mutex m) }

def rtMutexDelete (m : μ) (s : Sys τ μ ι) : Sys τ μ ι :=
  { s with kernel := rtIpcListResumeAll s.kernel (.mutex m) }

def rtEventDetach (event : ι) (s : EventSys τ ι) : EventSys τ ι :=
  { s with kernel := rtIpcListResumeAll s.kernel event }

def rtEventDelete (event : ι) (s : EventSys τ ι) : EventSys τ ι :=
  { s with kernel := rtIpcListResumeAll s.kernel event }

def rtMbDetach (config : MbConfig ι) (s : MbSys τ ι) : MbSys τ ι :=
  { s with
    kernel := rtIpcListResumeAll (rtIpcListResumeAll s.kernel config.receivers) config.senders }

def rtMbDelete (config : MbConfig ι) (s : MbSys τ ι) : MbSys τ ι :=
  { s with
    kernel := rtIpcListResumeAll (rtIpcListResumeAll s.kernel config.receivers) config.senders }

def rtMqDetach (senders : ι) (s : MqSys τ ι) : MqSys τ ι :=
  { s with kernel := rtIpcListResumeAll s.kernel senders }

def rtMqDelete (receivers senders : ι) (s : MqSys τ ι) : MqSys τ ι :=
  { s with kernel := rtIpcListResumeAll (rtIpcListResumeAll s.kernel receivers) senders }

namespace IpcSys

/-- The detach function of the object. -/
def detach : IpcSys τ μ ι → IpcSys τ μ ι
  | .sem o flag s => .sem o flag (rtSemDetach o s)
  | .mutex m s => .mutex m (rtMutexDetach m s)
  | .event o flag s => .event o flag (rtEventDetach o s)
  | .mailbox config s => .mailbox config (rtMbDetach config s)
  | .queue config receivers senders h flag s =>
    .queue config receivers senders h flag (rtMqDetach senders s)

/-- The delete function of the object. -/
def delete : IpcSys τ μ ι → IpcSys τ μ ι
  | .sem o flag s => .sem o flag (rtSemDelete o s)
  | .mutex m s => .mutex m (rtMutexDelete m s)
  | .event o flag s => .event o flag (rtEventDelete o s)
  | .mailbox config s => .mailbox config (rtMbDelete config s)
  | .queue config receivers senders h flag s =>
    .queue config receivers senders h flag (rtMqDelete receivers senders s)

/-- The control function of the object with `RT_IPC_CMD_RESET`; that of a mutex knows no command. A
semaphore gets a new value. -/
def reset (a : Agent τ) (value : Nat) : IpcSys τ μ ι → Option (IpcSys τ μ ι)
  | .sem o flag s => (rtSemReset o s value).map (.sem o flag)
  | .mutex _ _ => none
  | .event o flag s => (rtEventReset o s).map (.event o flag)
  | .mailbox config s => (rtMbReset config s a).map (.mailbox config)
  | .queue config receivers senders h flag s =>
    (rtMqReset config receivers senders s).map (.queue config receivers senders h flag)

end IpcSys

/-- The calls that end or reset an object. -/
inductive Teardown (τ : Type) where
  | detach
  | delete
  | reset (a : Agent τ) (value : Nat)

/-- One such call. Static objects are detached and the others deleted. -/
def tearDown (systemObject : Bool) (s : IpcSys τ μ ι) : Teardown τ → Option (IpcSys τ μ ι)
  | .detach => if systemObject then some s.detach else none
  | .delete => if systemObject then none else some s.delete
  | .reset a value => s.reset a value

/-! ## Runs -/

/-- A call on the object, or one that ends or resets it. -/
inductive IpcOp (τ μ ι : Type) where
  | sem (op : SemOp τ (Obj μ ι))
  | mutex (op : Op τ μ ι)
  | event (op : EventOp τ (Obj μ ι))
  | mailbox (op : MbOp τ (Obj μ ι))
  | queue (op : MqOp τ (Obj μ ι))
  | tearDown (what : Teardown τ)

def ipcStep (systemObject : Bool) : IpcSys τ μ ι → IpcOp τ μ ι → Option (IpcSys τ μ ι)
  | .sem o flag s, .sem op => (semCall o flag s op).map fun r => .sem o flag r.2
  | .mutex m s, .mutex op => (step s op).map (.mutex m)
  | .event o flag s, .event op => (eventStep o flag s op).map (.event o flag)
  | .mailbox config s, .mailbox op => (mbStep config s op).map (.mailbox config)
  | .queue config receivers senders h flag s, .queue op =>
    (mqStep config receivers senders flag s op).map (.queue config receivers senders h flag)
  | s, .tearDown what => tearDown systemObject s what
  | _, _ => none

/-- The states in which a run begins: a new object, before the first thread is created. -/
inductive IsStart : IpcSys τ μ ι → Prop where
  | sem (o flag value) : IsStart (.sem o flag { kernel := boot, value })
  | mutex (m) : IsStart (.mutex m start)
  | event (o flag) : IsStart (.event o flag eventStart)
  | mailbox (config pool) : IsStart (.mailbox config (mbStart pool))
  | queue (config receivers senders h flag next data) :
      IsStart (.queue config receivers senders h flag (mqStart config next data))

/-! ## No waiter is left -/

/-- The suspend lists of the object are empty, and the threads that were on them are ready with
`RT_ERROR`. -/
def TornDown (s s' : IpcSys τ μ ι) : Prop :=
  ∀ o ∈ s.lists, s'.kernel.queue (.wait o) = [] ∧ ∀ t ∈ s.kernel.queue (.wait o),
    (s'.kernel.thread t).stat = .ready ∧ (s'.kernel.thread t).error = .error

/-- The call is `rt_mq_detach` on a queue with a suspended receiver. -/
def Forgets : IpcSys τ μ ι → Teardown τ → Prop
  | .queue _ receivers _ _ _ s, .detach => s.kernel.queue (.wait receivers) ≠ []
  | _, _ => False

section

variable {o o1 o2 : ι} {k k' : Kernel τ ι}

/-- `rt_ipc_list_resume_all` on both lists of an object. -/
structure ResumedBoth (k k' : Kernel τ ι) (o1 o2 : ι) : Prop where
  consistent : Consistent k' []
  empty1 : k'.queue (.wait o1) = []
  empty2 : k'.queue (.wait o2) = []
  woken : ∀ t, t ∈ k.queue (.wait o1) ∨ t ∈ k.queue (.wait o2) →
    (k'.thread t).stat = .ready ∧ (k'.thread t).error = .error

/-- The threads of the first list are ready when the second list is emptied, so they are not on
it. -/
theorem resume_both_spec (h : Consistent k []) (hlists : o1 ≠ o2) :
    ResumedBoth k (rtIpcListResumeAll (rtIpcListResumeAll k o1) o2) o1 o2 := by
  have hfirst := resume_all_spec (o := o1) h
  have hsecond := resume_all_spec (o := o2) hfirst.consistent
  refine ⟨hsecond.consistent, ?_, hsecond.empty, fun t ht => ?_⟩
  · rw [hsecond.touches.wait o1 fun u hu => ?_, hfirst.empty]
    rw [hfirst.empty] at hu
    cases hu
  · rcases ht with ht | ht
    · have hready := hfirst.woken t ht
      rw [hsecond.touches.thread t (hfirst.consistent.not_waiting hready.1 o2)]
      exact hready
    · refine hsecond.woken t ?_
      rw [hfirst.touches.wait o2 fun u hu hmem => ?_]
      · exact ht
      · exact hlists (Queue.wait.inj (h.unique u _ _ hmem hu))

theorem kernel_inv_resume_all (h : KernelInv k) : KernelInv (rtIpcListResumeAll k o) :=
  kernel_inv_of_calm h (consistent_resume_all_loop _ h.consistent) (calm_resume_all_loop o _ k)
    (resume_all_loop_current o _ k)

end

/-! ### One call -/

section

variable {s s' : IpcSys τ μ ι} {k : Kernel τ (Obj μ ι)} {o o1 o2 : Obj μ ι} {what : Teardown τ}
  {systemObject : Bool}

theorem torn_down_one (s' : IpcSys τ μ ι) (h : KernelInv s.kernel) (hlists : s.lists = [o])
    (hk : s'.kernel = rtIpcListResumeAll s.kernel o) : TornDown s s' := by
  have hall := resume_all_spec (o := o) h.consistent
  intro o' ho'
  rw [hlists, mem_singleton] at ho'
  rw [hk, ho']
  exact ⟨hall.empty, hall.woken⟩

theorem torn_down_both (s' : IpcSys τ μ ι) (h : KernelInv s.kernel)
    (hlists : s.lists = [o1, o2]) (hne : o1 ≠ o2)
    (hk : s'.kernel = rtIpcListResumeAll (rtIpcListResumeAll s.kernel o1) o2) :
    TornDown s s' := by
  have hboth := resume_both_spec h.consistent hne
  intro o' ho'
  rw [hlists, mem_cons, mem_singleton] at ho'
  rw [hk]
  rcases ho' with rfl | rfl
  · exact ⟨hboth.empty1, fun t ht => hboth.woken t (.inl ht)⟩
  · exact ⟨hboth.empty2, fun t ht => hboth.woken t (.inr ht)⟩

/-- A schedule at the end of the call changes no list and no thread. -/
theorem TornDown.schedule {s1 : IpcSys τ μ ι} (h : TornDown s s1)
    (hrun : rtSchedule s1.kernel = some s'.kernel) : TornDown s s' := by
  obtain ⟨t, -, hk⟩ := map_eq_some_iff.mp hrun
  intro o ho
  rw [← hk]
  exact h o ho

theorem torn_down_forgotten {lists : o1 ≠ o2} {flag : IpcFlag} {q : MqSys τ (Obj μ ι)}
    (h : KernelInv q.kernel) :
    TornDown (.queue config o1 o2 lists flag q)
      (.queue config o1 o2 lists flag (rtMqDetach o2 q) : IpcSys τ μ ι) ↔
    q.kernel.queue (.wait o1) = [] := by
  have hall := resume_all_spec (o := o2) h.consistent
  have hkept : (rtIpcListResumeAll q.kernel o2).queue (.wait o1) = q.kernel.queue (.wait o1) :=
    hall.touches.wait o1 fun u hu hmem => lists (Queue.wait.inj (h.consistent.unique u _ _ hu hmem))
  constructor
  · intro htorn
    rw [← hkept]
    exact (htorn o1 mem_cons_self).1
  · intro hnone o ho
    rcases mem_cons.mp ho with rfl | ho
    · refine ⟨hkept.trans hnone, fun t ht => ?_⟩
      have hmem : t ∈ q.kernel.queue (.wait o) := ht
      rw [hnone] at hmem
      cases hmem
    · rw [mem_singleton.mp ho]
      exact ⟨hall.empty, hall.woken⟩

theorem torn_down_reset {a : Agent τ} {value : Nat} (h : KernelInv s.kernel)
    (hrun : s.reset a value = some s') : TornDown s s' := by
  cases s with
  | sem o flag s =>
    obtain ⟨r, hreset, rfl⟩ := map_eq_some_iff.mp hrun
    obtain ⟨k, hschedule, rfl⟩ := map_eq_some_iff.mp hreset
    exact (torn_down_one (.sem o flag (rtSemDetach o s)) h rfl rfl).schedule hschedule
  | mutex m s => cases hrun
  | event o flag s =>
    obtain ⟨r, hreset, rfl⟩ := map_eq_some_iff.mp hrun
    obtain ⟨k, hschedule, rfl⟩ := map_eq_some_iff.mp hreset
    exact (torn_down_one (.event o flag (rtEventDetach o s)) h rfl rfl).schedule hschedule
  | mailbox config s =>
    obtain ⟨r, hreset, rfl⟩ := map_eq_some_iff.mp hrun
    obtain ⟨k, hschedule, rfl⟩ := map_eq_some_iff.mp hreset
    exact (torn_down_both (.mailbox config (rtMbDetach config s)) h rfl config.lists
      rfl).schedule hschedule
  | queue config receivers senders lists flag s =>
    obtain ⟨r, hreset, rfl⟩ := map_eq_some_iff.mp hrun
    obtain ⟨k, hschedule, rfl⟩ := map_eq_some_iff.mp hreset
    exact (torn_down_both (.queue config receivers senders lists flag
      (rtMqDelete receivers senders s)) h rfl lists rfl).schedule hschedule

theorem tear_down_iff_of_inv (h : KernelInv s.kernel)
    (hrun : tearDown systemObject s what = some s') : TornDown s s' ↔ ¬ Forgets s what := by
  cases what with
  | detach =>
    obtain ⟨-, hrun⟩ := ite_none_right_eq_some.mp hrun
    cases hrun
    cases s with
    | sem o flag s => exact iff_of_true (torn_down_one _ h rfl rfl) not_false
    | mutex m s => exact iff_of_true (torn_down_one _ h rfl rfl) not_false
    | event o flag s => exact iff_of_true (torn_down_one _ h rfl rfl) not_false
    | mailbox config s => exact iff_of_true (torn_down_both _ h rfl config.lists rfl) not_false
    | queue config receivers senders lists flag s =>
      exact (torn_down_forgotten h).trans not_not.symm
  | delete =>
    obtain ⟨-, hrun⟩ := ite_none_left_eq_some.mp hrun
    cases hrun
    cases s with
    | sem o flag s => exact iff_of_true (torn_down_one _ h rfl rfl) not_false
    | mutex m s => exact iff_of_true (torn_down_one _ h rfl rfl) not_false
    | event o flag s => exact iff_of_true (torn_down_one _ h rfl rfl) not_false
    | mailbox config s => exact iff_of_true (torn_down_both _ h rfl config.lists rfl) not_false
    | queue config receivers senders lists flag s =>
      exact iff_of_true (torn_down_both _ h rfl lists rfl) not_false
  | reset a value =>
    refine iff_of_true (torn_down_reset h hrun) ?_
    cases s <;> exact not_false

end

/-! ### Every reachable state -/

section

variable {k : Kernel τ ι} {o receivers senders : ι} {flag : IpcFlag} {t : τ} {a : Agent τ}
  {s s' : MqSys τ ι}

theorem sem_call_inv {s s' : SemSys τ ι} {r : Outcome} (op : SemOp τ ι) (h : KernelInv s.kernel)
    (hrun : semCall o flag s op = some (r, s')) : KernelInv s'.kernel := by
  have htake : ∀ time, rtSemTake o flag s time = some (r, s') → KernelInv s'.kernel := by
    intro time hrun
    unfold rtSemTake at hrun
    split at hrun
    · cases hrun
      exact h
    · split at hrun
      · cases hrun
        exact h
      · obtain ⟨k, hblock, heq⟩ := map_eq_some_iff.mp hrun
        cases heq
        exact kernel_inv_block h hblock
  cases op with
  | kernel op =>
    obtain ⟨k, hk, heq⟩ := map_eq_some_iff.mp hrun
    cases heq
    exact kernel_step_inv op h hk
  | take time => exact htake time hrun
  | trytake => exact htake .no hrun
  | release =>
    obtain ⟨s1, hrelease, heq⟩ := map_eq_some_iff.mp hrun
    cases heq
    unfold rtSemRelease at hrelease
    split at hrelease
    · obtain ⟨k, hschedule, rfl⟩ := map_eq_some_iff.mp hrelease
      exact kernel_inv_schedule (consistent_ipc_list_resume h.consistent o) hschedule
    · cases hrelease
      exact h

theorem mutex_step_kernel {s s' : Sys τ μ ι} (op : Op τ μ ι) (h : KernelInv s.kernel)
    (hrun : step s op = some s') : KernelInv s'.kernel := by
  cases op with
  | kernel op =>
    obtain ⟨k, hk, rfl⟩ := map_eq_some_iff.mp hrun
    exact kernel_step_inv op h hk
  | take m time =>
    obtain ⟨t, -, hrun⟩ := bind_eq_some_iff.mp hrun
    obtain ⟨⟨r, s1⟩, htake, rfl⟩ := map_eq_some_iff.mp hrun
    cases take_cases htake with
    | again howner => exact with_error_inv h
    | acquires howner hvalue => exact with_error_inv h
    | refused e howner hvalue hno => exact with_error_inv h
    | blocks o k howner hne hvalue htime hblock =>
      exact kernel_inv_block (lend_priority_inv (with_error_inv h) o t) hblock
  | release m =>
    obtain ⟨t, -, hrun⟩ := bind_eq_some_iff.mp hrun
    obtain ⟨⟨r, s1⟩, hrelease, rfl⟩ := map_eq_some_iff.mp hrun
    cases release_cases h hrelease with
    | refused howner => exact with_error_inv h
    | keeps howner hhold => exact h
    | passes w rest k howner hhold hlist hpass =>
      have hinv := restore_priority_inv h t (s.mutex m).originalPriority
      exact kernel_inv_schedule (consistent_ipc_list_resume hinv.consistent _) hpass
    | frees howner hhold hlist => exact restore_priority_inv h t _

theorem event_step_kernel {s s' : EventSys τ ι} (op : EventOp τ ι) (h : KernelInv s.kernel)
    (hrun : eventStep o flag s op = some s') : KernelInv s'.kernel := by
  cases op with
  | kernel op =>
    obtain ⟨k, hk, rfl⟩ := map_eq_some_iff.mp hrun
    exact kernel_step_inv op h hk
  | send a set =>
    obtain ⟨-, hrun⟩ := ite_none_right_eq_some.mp hrun
    exact event_send_kernel h hrun
  | recv t set option time =>
    obtain ⟨-, hrun⟩ := ite_none_right_eq_some.mp hrun
    exact event_recv_kernel h hrun
  | again t =>
    obtain ⟨-, hrun⟩ := ite_none_right_eq_some.mp hrun
    cases hrun
    unfold eventAgain
    split
    · exact h
    · exact h
  | reset a =>
    obtain ⟨-, hrun⟩ := ite_none_right_eq_some.mp hrun
    obtain ⟨k, hschedule, rfl⟩ := map_eq_some_iff.mp hrun
    exact kernel_inv_schedule (consistent_resume_all_loop _ h.consistent) hschedule

theorem mq_receive_inv {size : Nat} {time : WaitTime} (h : KernelInv s.kernel)
    (hrun : mqReceive receivers flag s a size time = some s') : KernelInv s'.kernel := by
  unfold mqReceive at hrun
  split at hrun
  · split at hrun
    · cases hrun
    · split at hrun
      · cases hrun
        exact kernel_inv_error h
      · obtain ⟨k, hblock, rfl⟩ := map_eq_some_iff.mp hrun
        exact kernel_inv_block h hblock
  · obtain ⟨⟨node, mq⟩, -, rfl⟩ := map_eq_some_iff.mp hrun
    exact h

theorem mq_step_inv (op : MqOp τ ι) (h : KernelInv s.kernel)
    (hrun : mqStep config receivers senders flag s op = some s') : KernelInv s'.kernel := by
  cases op with
  | kernel op =>
    obtain ⟨k, hk, rfl⟩ := map_eq_some_iff.mp hrun
    exact kernel_step_inv op h hk
  | send a urgent buffer =>
    simp only [mqStep] at hrun
    split at hrun
    · obtain ⟨-, hrun⟩ := ite_none_right_eq_some.mp hrun
      cases hrun
      unfold mqSend
      split
      · exact h
      · split
        · exact h
        · exact h
    · cases hrun
  | fill a =>
    simp only [mqStep] at hrun
    split at hrun
    · obtain ⟨-, hrun⟩ := ite_none_right_eq_some.mp hrun
      cases hrun
      exact h
    · cases hrun
  | link a =>
    simp only [mqStep] at hrun
    split at hrun
    · obtain ⟨-, hrun⟩ := ite_none_right_eq_some.mp hrun
      obtain ⟨k, hresume, rfl⟩ := map_eq_some_iff.mp hrun
      exact kernel_inv_resume_first h hresume
    · cases hrun
  | recv a size time =>
    simp only [mqStep] at hrun
    split at hrun
    · obtain ⟨-, hrun⟩ := ite_none_right_eq_some.mp hrun
      split at hrun
      · cases hrun
        exact h
      · exact mq_receive_inv h hrun
    · cases hrun
  | again t expired =>
    simp only [mqStep] at hrun
    split at hrun
    · obtain ⟨-, hrun⟩ := ite_none_right_eq_some.mp hrun
      split at hrun
      · cases hrun
        exact h
      · exact mq_receive_inv h hrun
    · cases hrun
  | copy a =>
    simp only [mqStep] at hrun
    split at hrun
    · obtain ⟨-, hrun⟩ := ite_none_right_eq_some.mp hrun
      cases hrun
      exact h
    · cases hrun
  | free a =>
    simp only [mqStep] at hrun
    split at hrun
    · obtain ⟨-, hrun⟩ := ite_none_right_eq_some.mp hrun
      obtain ⟨k, hresume, rfl⟩ := map_eq_some_iff.mp hrun
      exact kernel_inv_resume_first h hresume
    · cases hrun
  | reset a =>
    simp only [mqStep] at hrun
    split at hrun
    · obtain ⟨-, hrun⟩ := ite_none_right_eq_some.mp hrun
      obtain ⟨k, hschedule, rfl⟩ := map_eq_some_iff.mp hrun
      exact kernel_inv_schedule (consistent_resume_all_loop _
        (consistent_resume_all_loop _ h.consistent)) hschedule
    · cases hrun

end

section

variable {s s' : IpcSys τ μ ι} {what : Teardown τ} {systemObject : Bool}

theorem tear_down_inv (h : KernelInv s.kernel) (hrun : tearDown systemObject s what = some s') :
    KernelInv s'.kernel := by
  cases what with
  | detach =>
    obtain ⟨-, hrun⟩ := ite_none_right_eq_some.mp hrun
    cases hrun
    cases s with
    | sem | mutex | event | queue => exact kernel_inv_resume_all h
    | mailbox => exact kernel_inv_resume_all (kernel_inv_resume_all h)
  | delete =>
    obtain ⟨-, hrun⟩ := ite_none_left_eq_some.mp hrun
    cases hrun
    cases s with
    | sem | mutex | event => exact kernel_inv_resume_all h
    | mailbox | queue => exact kernel_inv_resume_all (kernel_inv_resume_all h)
  | reset a value =>
    cases s with
    | mutex => cases hrun
    | sem | event =>
      obtain ⟨r, hreset, rfl⟩ := map_eq_some_iff.mp hrun
      obtain ⟨k, hschedule, rfl⟩ := map_eq_some_iff.mp hreset
      exact kernel_inv_schedule (kernel_inv_resume_all h).consistent hschedule
    | mailbox | queue =>
      obtain ⟨r, hreset, rfl⟩ := map_eq_some_iff.mp hrun
      obtain ⟨k, hschedule, rfl⟩ := map_eq_some_iff.mp hreset
      exact kernel_inv_schedule
        (kernel_inv_resume_all (kernel_inv_resume_all h)).consistent hschedule

theorem ipc_step_inv (op : IpcOp τ μ ι) (h : KernelInv s.kernel)
    (hrun : ipcStep systemObject s op = some s') : KernelInv s'.kernel := by
  cases op with
  | sem op =>
    cases s with
    | sem o flag s =>
      obtain ⟨r, hcall, rfl⟩ := map_eq_some_iff.mp hrun
      exact sem_call_inv op h hcall
    | _ => cases hrun
  | mutex op =>
    cases s with
    | mutex m s =>
      obtain ⟨r, hstep, rfl⟩ := map_eq_some_iff.mp hrun
      exact mutex_step_kernel op h hstep
    | _ => cases hrun
  | event op =>
    cases s with
    | event o flag s =>
      obtain ⟨r, hstep, rfl⟩ := map_eq_some_iff.mp hrun
      exact event_step_kernel op h hstep
    | _ => cases hrun
  | mailbox op =>
    cases s with
    | mailbox config s =>
      obtain ⟨r, hstep, rfl⟩ := map_eq_some_iff.mp hrun
      exact mb_step_inv op h hstep
    | _ => cases hrun
  | queue op =>
    cases s with
    | queue config receivers senders lists flag s =>
      obtain ⟨r, hstep, rfl⟩ := map_eq_some_iff.mp hrun
      exact mq_step_inv op h hstep
    | _ => cases hrun
  | tearDown what =>
    have htear : tearDown systemObject s what = some s' := by
      cases s with
      | _ => exact hrun
    exact tear_down_inv h htear

theorem is_start_inv (h : IsStart s) : KernelInv s.kernel := by
  cases h with
  | _ => exact kernel_inv_boot

end

/-- In every state that a run reaches, a call that ends or resets an object leaves no waiter behind,
exactly if it is not `rt_mq_detach` on a queue with a suspended receiver. -/
theorem tear_down_iff {systemObject : Bool} {s0 s s' : IpcSys τ μ ι} {ops : List (IpcOp τ μ ι)}
    {what : Teardown τ} (hstart : IsStart s0) (hrun : exec (ipcStep systemObject) s0 ops = some s)
    (htear : tearDown systemObject s what = some s') : TornDown s s' ↔ ¬ Forgets s what := by
  have hinv : KernelInv s.kernel := exec_keeps (I := fun s => KernelInv s.kernel)
    (fun _ op _ h hstep => ipc_step_inv op h hstep) (is_start_inv hstart) hrun
  exact tear_down_iff_of_inv hinv htear

/-- A queue of two messages. -/
def someQueue : IpcSys (Fin 2) Unit Bool :=
  .queue smallMq (.other true) (.other false) (by simp) .fifo (mqStart smallMq (fun _ => none)
    fun _ _ => 0)

/-- Thread 1 waits for a message. -/
def someQueueOps : List (IpcOp (Fin 2) Unit Bool) :=
  [.queue (.kernel (.init 0 255 none true false)), .queue (.kernel (.init 1 10 none true false)),
   .queue (.kernel (.startup 0)), .queue (.kernel .schedule), .queue (.kernel (.startup 1)),
   .queue (.recv (.thread 1) 4 .forever)]

theorem some_queue_delete : ∃ s s', exec (ipcStep false) someQueue someQueueOps = some s ∧
    tearDown false s .delete = some s' ∧ TornDown s s' := by
  have hrun : (exec (ipcStep false) someQueue someQueueOps).isSome = true := by decide +kernel
  obtain ⟨s, hs⟩ := isSome_iff_exists.mp hrun
  have hforgets : ¬ Forgets s .delete := by cases s <;> exact not_false
  exact ⟨s, s.delete, hs, rfl, (tear_down_iff (.queue ..) hs rfl).mpr hforgets⟩

/-- Thread 1 stays on the list of the receivers when the queue is detached. -/
theorem detached_queue_keeps_receiver : ∃ s s',
    exec (ipcStep true) someQueue someQueueOps = some s ∧ tearDown true s .detach = some s' ∧
    ¬ TornDown s s' := by
  have hrun : (exec (ipcStep true) someQueue someQueueOps).any (fun s =>
      (.other true) ∈ s.lists ∧ s.detach.kernel.queue (.wait (.other true)) = [1]) = true := by
    decide +kernel
  obtain ⟨s, hs, hkept⟩ := (Option.any_eq_true _ _).mp hrun
  obtain ⟨hlist, hkept⟩ := of_decide_eq_true hkept
  refine ⟨s, s.detach, hs, rfl, fun htorn => ?_⟩
  rw [(htorn _ hlist).1] at hkept
  cases hkept

/-- Whatever is called on an object, and however it ends, the ready queue is right in every state,
and a thread that is on a suspend list is suspended and on no other list. -/
theorem ipc_runs_keep_queues {systemObject : Bool} {s0 s : IpcSys τ μ ι} {ops : List (IpcOp τ μ ι)}
    (hstart : IsStart s0) (hrun : exec (ipcStep systemObject) s0 ops = some s) :
    ReadyQueueOk s.kernel ∧ ∀ t o, t ∈ s.kernel.queue (.wait o) →
      (s.kernel.thread t).stat = .suspend ∧ ∀ q, t ∈ s.kernel.queue q → q = .wait o := by
  have hinv : KernelInv s.kernel := exec_keeps (I := fun s => KernelInv s.kernel)
    (fun _ op _ h hstep => ipc_step_inv op h hstep) (is_start_inv hstart) hrun
  refine ⟨hinv.ready_queue_ok, fun t o ht => ⟨?_, fun q hq => ?_⟩⟩
  · exact (hinv.consistent.located t (by simp)).waiting ht
  · exact hinv.consistent.unique t q _ hq ht

theorem some_queue_ops_keep_queues : ∃ s, exec (ipcStep false) someQueue someQueueOps = some s ∧
    ReadyQueueOk s.kernel := by
  have hrun : (exec (ipcStep false) someQueue someQueueOps).isSome = true := by decide +kernel
  obtain ⟨s, hs⟩ := isSome_iff_exists.mp hrun
  exact ⟨s, hs, (ipc_runs_keep_queues (.queue ..) hs).1⟩

end FullhanRtos.Ipc
