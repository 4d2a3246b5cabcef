import FullhanRtos.Sched.Scheduler

/-!
# What the calls change

For each kind of call, which priorities and suspend lists it changes. A call that neither starts a
thread, nor changes a priority, nor blocks is `Calm` (`kernel_step_calm`); the others have a lemma
of their own, and `kernel_step_cases` collects them. `kernel_step_lively` says which calls end no
thread.
-/

namespace FullhanRtos.Sched

open Function List Option

set_option linter.unusedSectionVars false

variable {τ ι : Type} [DecidableEq τ] [DecidableEq ι] {k k' : Kernel τ ι} {t u : τ}
  {op : KernelOp τ ι} {o : ι} {flag : IpcFlag}

/-- The call neither starts a thread, nor changes a priority, nor blocks. -/
def KernelOp.IsCalm : KernelOp τ ι → Prop
  | .init _ _ _ _ _ | .startup _ | .changePriority _ _ | .block _ _ _ => False
  | _ => True

/-- The call starts a thread. -/
def KernelOp.IsStart : KernelOp τ ι → Prop
  | .init _ _ _ _ _ | .startup _ => True
  | _ => False

theorem Consistent.not_waiting (h : Consistent k []) (hready : (k.thread t).stat = .ready) (o : ι) :
    t ∉ k.queue (.wait o) := by
  intro hmem
  have hstat := (h.located t (by simp)).waiting hmem
  rw [hready] at hstat
  cases hstat

theorem Consistent.not_waiting_of_init (h : Consistent k [])
    (hstat : (k.thread t).stat = .init ∨ (k.thread t).stat = .close) (o : ι) :
    t ∉ k.queue (.wait o) := by
  intro hmem
  have hwait := (h.located t (by simp)).waiting hmem
  rcases hstat with hstat | hstat
  · rw [hwait] at hstat
    cases hstat
  · rw [hwait] at hstat
    cases hstat

/-! ## Calm calls -/

theorem kernel_step_calm (hop : op.IsCalm) (hrun : kernelStep k op = some k') :
    Calm k k' := by
  cases op with
  | init | startup | changePriority | block => exact hop.elim
  | schedule => exact calm_schedule hrun
  | suspend t => exact calm_suspend hrun
  | resume t =>
    cases hrun
    exact calm_resume
  | sleep =>
    obtain ⟨t, -, hrun⟩ := bind_eq_some_iff.mp hrun
    obtain ⟨k1, hsuspend, hrun⟩ := bind_eq_some_iff.mp hrun
    exact ((calm_suspend hsuspend).trans (calm_update rfl rfl
      (fun h => ⟨h.number, h.numberMask, h.highMask⟩) (fun h => h))).trans (calm_schedule hrun)
  | timeout t =>
    simp only [kernelStep] at hrun
    unfold rtThreadTimeout at hrun
    split at hrun
    · exact (((calm_update rfl rfl (fun h => ⟨h.number, h.numberMask, h.highMask⟩)
        (fun h => h)).trans calm_list_remove).trans calm_insert).trans (calm_schedule hrun)
    · cases hrun
  | yield =>
    obtain ⟨t, -, hrun⟩ := bind_eq_some_iff.mp hrun
    dsimp only at hrun
    split at hrun
    · exact (calm_list_remove.trans (calm_with_queue (by simp))).trans (calm_schedule hrun)
    · cases hrun
      exact Calm.refl k
  | detach t =>
    simp only [kernelStep] at hrun
    unfold rtThreadDetach at hrun
    split at hrun
    · cases hrun
      exact calm_retire
    · cases hrun
  | delete t =>
    simp only [kernelStep] at hrun
    unfold rtThreadDelete at hrun
    split at hrun
    · cases hrun
    · cases hrun
      exact calm_retire
  | exit =>
    obtain ⟨t, -, hrun⟩ := bind_eq_some_iff.mp hrun
    exact ((calm_delete_lock.trans calm_remove).trans calm_close).trans (calm_schedule hrun)
  | reap =>
    cases hrun
    unfold rtThreadDefunctDequeue
    split
    · exact Calm.refl k
    · exact calm_list_remove
  | wake o =>
    refine Calm.trans ?_ (calm_schedule hrun)
    unfold rtIpcListResume
    split
    · exact Calm.refl k
    · exact calm_resume
  | wakeAll o => exact (calm_resume_all_loop _ _ _).trans (calm_schedule hrun)

/-! ## Starting a thread -/

/-- `t` was not started before, and is the only thread whose priority changes; it has its initial
priority then. -/
structure Starts (k k' : Kernel τ ι) (t : τ) : Prop where
  fresh : ¬ Alive k t
  other : ∀ u, u ≠ t → (k'.thread u).currentPriority = (k.thread u).currentPriority ∧
    (k'.thread u).initPriority = (k.thread u).initPriority
  prio : (k'.thread t).currentPriority = (k'.thread t).initPriority
  wait : ∀ o, k'.queue (.wait o) = k.queue (.wait o)
  waits : ∀ o, t ∉ k.queue (.wait o)

theorem init_starts {priority : Fin 256} {lock : Option ι} {systemObject cleanup : Bool}
    (h : Consistent k []) (hrun : rtThreadInit k t priority lock systemObject cleanup = some k') :
    Starts k k' t := by
  unfold rtThreadInit at hrun
  split at hrun
  · rename_i hfree
    cases hrun
    refine ⟨fun halive => halive.2 hfree.1, fun u hu => ?_, ?_, fun o => rfl,
      h.not_waiting_of_init (.inr hfree.1)⟩
    · rw [update_thread_of_ne hu]
      exact ⟨rfl, rfl⟩
    · rw [update_thread_self]
  · cases hrun

theorem startup_starts (h : Consistent k []) (hrun : rtThreadStartup k t = some k') :
    Starts k k' t := by
  unfold rtThreadStartup at hrun
  split at hrun
  · rename_i hinit
    have hnot := h.not_waiting_of_init (.inl hinit)
    generalize hk1 : (k.updateThread t fun th =>
      { th.withPriority th.initPriority with stat := .suspend }) = k1 at hrun
    have hresume : rtThreadResume k1 t = rtScheduleInsertThread
        ((rtListRemove k1 t).updateThread t fun th => { th with timerActive := false }) t := by
      rw [rtThreadResume, if_pos]
      rw [← hk1, update_thread_self]
    have hcalm : Calm k1 k' := by
      dsimp only at hrun
      split at hrun
      · cases hrun
        exact calm_resume
      · exact calm_resume.trans (calm_schedule hrun)
    have hwait : ∀ o, k'.queue (.wait o) = k.queue (.wait o) := by
      intro o
      have hlist : (rtThreadResume k1 t).queue (.wait o) = k.queue (.wait o) := by
        rw [hresume, insert_thread_queue, if_neg (by simp), update_thread_queue]
        show (k1.queue (.wait o)).erase t = _
        rw [← hk1, update_thread_queue, erase_of_not_mem (hnot o)]
      dsimp only at hrun
      split at hrun
      · cases hrun
        exact hlist
      · obtain ⟨v, -, rfl⟩ := map_eq_some_iff.mp hrun
        exact hlist
    refine ⟨fun halive => halive.1 hinit, fun u hu => ?_, ?_, hwait, hnot⟩
    · rw [hcalm.prio, hcalm.initPrio, ← hk1, update_thread_of_ne hu]
      exact ⟨rfl, rfl⟩
    · rw [hcalm.prio, hcalm.initPrio, ← hk1, update_thread_self]
      rfl
  · cases hrun

/-! ## Changing a priority -/

/-- Only the priority of `t` changes, and all threads stay on their suspend lists. -/
structure PriorityChanged (k k' : Kernel τ ι) (t : τ) (p : Fin 256) : Prop where
  prio : (k'.thread t).currentPriority = p
  other : ∀ u, u ≠ t → (k'.thread u).currentPriority = (k.thread u).currentPriority
  initPrio : ∀ u, (k'.thread u).initPriority = (k.thread u).initPriority
  stat : ∀ u, (k'.thread u).stat = (k.thread u).stat
  err : ∀ u, (k'.thread u).error = (k.thread u).error
  wait : ∀ o, k'.queue (.wait o) = k.queue (.wait o)
  current : k'.current = k.current

theorem change_priority_changed (h : Consistent k []) (t : τ) (p : Fin 256) :
    PriorityChanged k (rtThreadChangePriority k t p) t p := by
  unfold rtThreadChangePriority
  split
  · rename_i hready
    refine ⟨?_, fun u hu => ?_, fun u => ?_, fun u => ?_, fun u => ?_, fun o => ?_, ?_⟩
    · rw [insert_thread_self, update_thread_self]
      rfl
    · rw [insert_thread_of_ne hu, update_thread_of_ne hu, remove_thread_thread]
    · by_cases hu : u = t
      · rw [hu, insert_thread_self, update_thread_self, remove_thread_thread]
        rfl
      · rw [insert_thread_of_ne hu, update_thread_of_ne hu, remove_thread_thread]
    · by_cases hu : u = t
      · rw [hu, insert_thread_self, hready]
      · rw [insert_thread_of_ne hu, update_thread_of_ne hu, remove_thread_thread]
    · by_cases hu : u = t
      · rw [hu, insert_thread_self, update_thread_self, remove_thread_thread]
        rfl
      · rw [insert_thread_of_ne hu, update_thread_of_ne hu, remove_thread_thread]
    · rw [insert_thread_queue, if_neg (by simp), update_thread_queue, remove_thread_queue,
        erase_of_not_mem (h.not_waiting hready o)]
    · rw [insert_thread_current, update_thread_current, remove_thread_current]
  · refine ⟨?_, fun u hu => ?_, fun u => ?_, fun u => ?_, fun u => ?_, fun o => rfl, rfl⟩
    · rw [update_thread_self]
      rfl
    · rw [update_thread_of_ne hu]
    · by_cases hu : u = t
      · rw [hu, update_thread_self]
        rfl
      · rw [update_thread_of_ne hu]
    · by_cases hu : u = t
      · rw [hu, update_thread_self]
        rfl
      · rw [update_thread_of_ne hu]
    · by_cases hu : u = t
      · rw [hu, update_thread_self]
        rfl
      · rw [update_thread_of_ne hu]

/-! ## Blocking -/

def joined (k : Kernel τ ι) (flag : IpcFlag) (t : τ) (l : List τ) : List τ :=
  match flag with
  | .fifo => l ++ [t]
  | .prio => insertByPriority (fun u => (k.thread u).currentPriority) t l

/-- The running thread `t` has joined the suspend list of `o`; nothing else changes on suspend lists
and priorities. -/
structure Blocked (k k' : Kernel τ ι) (o : ι) (flag : IpcFlag) (t : τ) : Prop where
  current : k.current = some t
  ready : (k.thread t).stat = .ready
  prio : ∀ u, (k'.thread u).currentPriority = (k.thread u).currentPriority
  initPrio : ∀ u, (k'.thread u).initPriority = (k.thread u).initPriority
  err : (k'.thread t).error = .eok
  stat : (k'.thread t).stat = .suspend
  other : ∀ u, u ≠ t → k'.thread u = k.thread u
  join : k'.queue (.wait o) = joined k flag t (k.queue (.wait o))
  wait : ∀ o', o' ≠ o → k'.queue (.wait o') = k.queue (.wait o')

theorem block_blocked {timed : Bool} (h : Consistent k [])
    (hrun : blockCurrent k o flag timed = some k') : ∃ t, Blocked k k' o flag t := by
  obtain ⟨t, hcurrent, hrun⟩ := bind_eq_some_iff.mp hrun
  split at hrun
  · rename_i hready
    refine ⟨t, ?_⟩
    obtain ⟨k2, hsuspend, hrun⟩ := bind_eq_some_iff.mp hrun
    obtain ⟨v, -, rfl⟩ := map_eq_some_iff.mp hrun
    generalize hk1 : (k.updateThread t fun th => { th with error := Err.eok }) = k1 at hsuspend
    have hready1 : (k1.thread t).stat = .ready := by
      rw [← hk1, update_thread_self]
      exact hready
    obtain ⟨l, -, hk2⟩ := ipc_list_suspend_run hready1 hsuspend
    have hthread1 : ∀ u, u ≠ t → k1.thread u = k.thread u := fun u hu => by
      rw [← hk1, update_thread_of_ne hu]
    have hqueue1 : ∀ q, (rtThreadSuspend.suspended k1 t).queue q = (k.queue q).erase t :=
      fun q => by
      rw [rtThreadSuspend.suspended, update_thread_queue, remove_thread_queue, ← hk1,
        update_thread_queue]
    have hthread2 : ∀ u, u ≠ t → k2.thread u = k.thread u := fun u hu => by
      rw [hk2, show ((rtThreadSuspend.suspended k1 t).withQueue (.wait o) l).thread u =
        (rtThreadSuspend.suspended k1 t).thread u from rfl, rtThreadSuspend.suspended,
        update_thread_of_ne hu, remove_thread_thread, hthread1 u hu]
    have hself2 : k2.thread t =
        { k.thread t with error := .eok, stat := .suspend, timerActive := false } := by
      rw [hk2, show ((rtThreadSuspend.suspended k1 t).withQueue (.wait o) l).thread t =
        (rtThreadSuspend.suspended k1 t).thread t from rfl, rtThreadSuspend.suspended,
        update_thread_self, remove_thread_thread, ← hk1, update_thread_self]
    -- The timer is the only difference between the two branches.
    have hthread3 : ∀ u, u ≠ t → (if timed then startTimer k2 t else k2).thread u = k.thread u := by
      intro u hu
      split
      · rw [startTimer, update_thread_of_ne hu, hthread2 u hu]
      · exact hthread2 u hu
    have hself3 : ∃ active, (if timed then startTimer k2 t else k2).thread t =
        { k.thread t with error := .eok, stat := .suspend, timerActive := active } := by
      split
      · exact ⟨true, by rw [startTimer, update_thread_self, hself2]⟩
      · exact ⟨false, hself2⟩
    have hqueue3 : (if timed then startTimer k2 t else k2).queue = k2.queue := by
      split <;> rfl
    obtain ⟨active, hself3⟩ := hself3
    have hnot := h.not_waiting hready
    refine ⟨hcurrent, hready, fun u => ?_, fun u => ?_, ?_, ?_, hthread3, ?_, fun o' ho' => ?_⟩
    · by_cases hu : u = t
      · simp only [hu, hself3]
      · simp only [hthread3 u hu]
    · by_cases hu : u = t
      · simp only [hu, hself3]
      · simp only [hthread3 u hu]
    · simp only [hself3]
    · simp only [hself3]
    · show (if timed then startTimer k2 t else k2).queue _ = _
      rw [hqueue3]
      obtain ⟨k3, hk3, hlist⟩ := bind_eq_some_iff.mp hsuspend
      have hk3 : k3 = rtThreadSuspend.suspended k1 t := by
        rw [rtThreadSuspend, hready1] at hk3
        exact (some.inj hk3).symm
      subst hk3
      have hprio : (fun u => ((rtThreadSuspend.suspended k1 t).thread u).currentPriority) =
          fun u => (k.thread u).currentPriority := by
        funext u
        by_cases hu : u = t
        · rw [hu, rtThreadSuspend.suspended, update_thread_self, remove_thread_thread, ← hk1,
            update_thread_self]
        · rw [rtThreadSuspend.suspended, update_thread_of_ne hu, remove_thread_thread,
            hthread1 u hu]
      cases flag with
      | fifo =>
        rw [← some.inj hlist]
        simp only [rtListInsertBefore, Kernel.withQueue, update_self, joined, hqueue1]
        rw [erase_of_not_mem (hnot o)]
      | prio =>
        rw [← some.inj hlist]
        simp only [Kernel.withQueue, update_self, joined, hqueue1, hprio]
        rw [erase_of_not_mem (hnot o)]
    · show (if timed then startTimer k2 t else k2).queue _ = _
      have hne : Queue.wait o' ≠ Queue.wait o := fun heq => ho' (Queue.wait.inj heq)
      rw [hqueue3, hk2, Kernel.withQueue]
      simp only [update_of_ne hne]
      rw [hqueue1, erase_of_not_mem (hnot o')]
  · cases hrun

/-- What a call can do to the priorities and the suspend lists. -/
inductive StepCase (k k' : Kernel τ ι) : KernelOp τ ι → Prop where
  | calm (op : KernelOp τ ι) (hop : op.IsCalm) (h : Calm k k') : StepCase k k' op
  | starts (op : KernelOp τ ι) (hop : op.IsStart) (t : τ) (h : Starts k k' t) : StepCase k k' op
  | changes (t : τ) (p : Fin 256) (h : PriorityChanged k k' t p) :
      StepCase k k' (.changePriority t p)
  | blocks (o : ι) (flag : IpcFlag) (timed : Bool) (t : τ) (h : Blocked k k' o flag t) :
      StepCase k k' (.block o flag timed)

theorem kernel_step_cases (h : Consistent k []) (hrun : kernelStep k op = some k') :
    StepCase k k' op := by
  cases op with
  | init t priority lock systemObject cleanup => exact .starts _ trivial t (init_starts h hrun)
  | startup t => exact .starts _ trivial t (startup_starts h hrun)
  | changePriority t p =>
    cases hrun
    exact .changes t p (change_priority_changed h t p)
  | block o flag timed =>
    obtain ⟨t, hblocked⟩ := block_blocked h hrun
    exact .blocks o flag timed t hblocked
  | _ =>
    refine .calm _ ?_ (kernel_step_calm ?_ hrun)
    · trivial
    · trivial

/-- The call suspends no thread on the object. -/
def KernelOp.Avoids (o : ι) : KernelOp τ ι → Prop
  | .block o' _ _ => o' ≠ o
  | _ => True

/-- A call that avoids an object adds no waiter to it. -/
theorem kernel_step_avoids (hop : op.Avoids o) (h : Consistent k [])
    (hrun : kernelStep k op = some k') : (k'.queue (.wait o)).Sublist (k.queue (.wait o)) := by
  cases kernel_step_cases h hrun with
  | calm op hcalm hk => exact hk.wait o
  | starts op hstart t hk =>
    rw [hk.wait]
  | changes t p hk =>
    rw [hk.wait]
  | blocks o' flag timed t hk =>
    rw [hk.wait o hop.symm]

/-! ## Resuming a waiter -/

/-- The suspended thread `t` has left its suspend list and is ready. -/
structure Resumed (k k' : Kernel τ ι) (t : τ) : Prop where
  stat : (k'.thread t).stat = .ready
  err : ∀ u, (k'.thread u).error = (k.thread u).error
  prio : ∀ u, (k'.thread u).currentPriority = (k.thread u).currentPriority
  initPrio : ∀ u, (k'.thread u).initPriority = (k.thread u).initPriority
  other : ∀ u, u ≠ t → k'.thread u = k.thread u
  wait : ∀ o, k'.queue (.wait o) = (k.queue (.wait o)).erase t
  current : k'.current = k.current

theorem resume_resumed (hstat : (k.thread t).stat = .suspend) :
    Resumed k (rtThreadResume k t) t := by
  rw [rtThreadResume, if_pos hstat]
  refine ⟨?_, fun u => ?_, fun u => ?_, fun u => ?_, fun u hu => ?_, fun o => ?_, ?_⟩
  · rw [insert_thread_self]
  · by_cases hu : u = t
    · rw [hu, insert_thread_self, update_thread_self, list_remove_thread]
    · rw [insert_thread_of_ne hu, update_thread_of_ne hu, list_remove_thread]
  · by_cases hu : u = t
    · rw [hu, insert_thread_self, update_thread_self, list_remove_thread]
    · rw [insert_thread_of_ne hu, update_thread_of_ne hu, list_remove_thread]
  · by_cases hu : u = t
    · rw [hu, insert_thread_self, update_thread_self, list_remove_thread]
    · rw [insert_thread_of_ne hu, update_thread_of_ne hu, list_remove_thread]
  · rw [insert_thread_of_ne hu, update_thread_of_ne hu, list_remove_thread]
  · rw [insert_thread_queue, if_neg (by simp), update_thread_queue]
    rfl
  · rw [insert_thread_current, update_thread_current]
    rfl

theorem ipc_list_resume_resumed {rest : List τ} (h : Consistent k [])
    (hlist : k.queue (.wait o) = t :: rest) : Resumed k (rtIpcListResume k o) t := by
  have hmem : t ∈ k.queue (.wait o) := by rw [hlist]; exact mem_cons_self
  simp only [rtIpcListResume, hlist]
  exact resume_resumed ((h.located t (by simp)).waiting hmem)

/-- The suspend lists only lose threads when a call wakes one. -/
theorem calm_resume_first (hrun : resumeFirst k o = some k') : Calm k k' := by
  unfold resumeFirst at hrun
  split at hrun
  · rename_i t rest hlist
    refine Calm.trans ?_ (calm_schedule hrun)
    simp only [rtIpcListResume, hlist]
    exact calm_resume
  · cases hrun
    exact Calm.refl k

/-- A thread is on one suspend list, so only that one changes. -/
theorem Consistent.erase_waiter (h : Consistent k []) {o o' : ι} (hmem : t ∈ k.queue (.wait o))
    (ho' : o' ≠ o) : (k.queue (.wait o')).erase t = k.queue (.wait o') := by
  refine erase_of_not_mem fun hmem' => ho' ?_
  exact Queue.wait.inj (h.unique t _ _ hmem' hmem)

/-! ## Calls that end no thread -/

/-- The call ends no thread. -/
def KernelOp.EndsNone : KernelOp τ ι → Prop
  | .detach _ | .delete _ | .exit => False
  | _ => True

theorem Lively.trans {k'' : Kernel τ ι} (h : Lively k k') (h' : Lively k' k'') : Lively k k'' :=
  fun t ht => h' t (h t ht)

/-- A record that stays alive. -/
theorem lively_update {f : Thread ι → Thread ι}
    (hf : (f (k.thread t)).stat = (k.thread t).stat ∨ (f (k.thread t)).stat = .suspend) :
    Lively k (k.updateThread t f) := by
  intro u hu
  unfold Alive at hu ⊢
  by_cases hut : u = t
  · subst hut
    rw [update_thread_self]
    rcases hf with hf | hf
    · rw [hf]
      exact hu
    · simp [hf]
  · rwa [update_thread_of_ne hut]

theorem lively_of_thread (h : k'.thread = k.thread) : Lively k k' := fun t ht => by
  unfold Alive at ht ⊢
  rwa [h]

theorem lively_list_remove : Lively k (rtListRemove k t) := lively_of_thread rfl

theorem lively_with_queue {q : Queue ι} {l : List τ} : Lively k (k.withQueue q l) :=
  lively_of_thread rfl

theorem lively_remove : Lively k (rtScheduleRemoveThread k t) := fun u hu => by
  unfold Alive at hu ⊢
  rwa [remove_thread_thread]

theorem lively_insert : Lively k (rtScheduleInsertThread k t) := fun u hu => by
  unfold Alive at hu ⊢
  by_cases hut : u = t
  · rw [hut, insert_thread_self]
    simp
  · rwa [insert_thread_of_ne hut]

theorem lively_schedule (hrun : rtSchedule k = some k') : Lively k k' := by
  obtain ⟨t, -, rfl⟩ := map_eq_some_iff.mp hrun
  exact lively_of_thread rfl

theorem lively_suspend (hrun : rtThreadSuspend k t = some k') : Lively k k' := by
  have hsuspended : Lively k (rtThreadSuspend.suspended k t) :=
    lively_remove.trans (lively_update (.inr rfl))
  unfold rtThreadSuspend at hrun
  split at hrun
  · cases hrun
    exact hsuspended
  · split at hrun
    · cases hrun
      exact hsuspended
    · cases hrun
  · cases hrun
    exact lively_of_thread rfl

theorem lively_resume : Lively k (rtThreadResume k t) := by
  unfold rtThreadResume
  split
  · exact (lively_list_remove.trans (lively_update (.inl rfl))).trans lively_insert
  · exact lively_of_thread rfl

theorem lively_resume_all_loop (o : ι) (n : Nat) (k : Kernel τ ι) :
    Lively k (resumeAllLoop o n k) := by
  induction n generalizing k with
  | zero => exact lively_of_thread rfl
  | succ n ih =>
    rw [resumeAllLoop]
    split
    · exact lively_of_thread rfl
    · exact ((lively_update (.inl rfl)).trans lively_resume).trans (ih _)

theorem Blocked.lively (h : Blocked k k' o flag t) : Lively k k' := by
  intro u hu
  unfold Alive at hu ⊢
  by_cases hut : u = t
  · rw [hut, h.stat]
    simp
  · rwa [h.other u hut]

theorem PriorityChanged.lively {p : Fin 256} (h : PriorityChanged k k' t p) : Lively k k' := by
  intro u hu
  unfold Alive at hu ⊢
  rwa [h.stat u]

theorem kernel_step_lively (hop : op.EndsNone) (h : Consistent k [])
    (hrun : kernelStep k op = some k') : Lively k k' := by
  cases op with
  | detach | delete | exit => exact hop.elim
  | init t priority lock systemObject cleanup =>
    simp only [kernelStep] at hrun
    unfold rtThreadInit at hrun
    split at hrun
    · rename_i hfree
      cases hrun
      intro u hu
      have hut : u ≠ t := fun heq => hu.2 (heq ▸ hfree.1)
      unfold Alive at hu ⊢
      rwa [update_thread_of_ne hut]
    · cases hrun
  | startup t =>
    simp only [kernelStep] at hrun
    unfold rtThreadStartup at hrun
    split at hrun
    · have hresumed := (lively_update (k := k) (t := t)
        (f := fun th => { th.withPriority th.initPriority with stat := .suspend })
        (.inr rfl)).trans (lively_resume (t := t))
      dsimp only at hrun
      split at hrun
      · cases hrun
        exact hresumed
      · exact hresumed.trans (lively_schedule hrun)
    · cases hrun
  | schedule => exact lively_schedule hrun
  | suspend t => exact lively_suspend hrun
  | resume t =>
    cases hrun
    exact lively_resume
  | sleep =>
    obtain ⟨t, -, hrun⟩ := bind_eq_some_iff.mp hrun
    obtain ⟨k1, hsuspend, hrun⟩ := bind_eq_some_iff.mp hrun
    exact ((lively_suspend hsuspend).trans (lively_update (.inl rfl))).trans
      (lively_schedule hrun)
  | timeout t =>
    simp only [kernelStep] at hrun
    unfold rtThreadTimeout at hrun
    split at hrun
    · exact (((lively_update (.inl rfl)).trans lively_list_remove).trans lively_insert).trans
        (lively_schedule hrun)
    · cases hrun
  | yield =>
    obtain ⟨t, -, hrun⟩ := bind_eq_some_iff.mp hrun
    dsimp only at hrun
    split at hrun
    · exact (lively_list_remove.trans lively_with_queue).trans (lively_schedule hrun)
    · cases hrun
      exact lively_of_thread rfl
  | changePriority t p =>
    cases hrun
    exact (change_priority_changed h t p).lively
  | reap =>
    cases hrun
    refine lively_of_thread ?_
    unfold rtThreadDefunctDequeue
    split <;> rfl
  | block o flag timed =>
    obtain ⟨t, hblocked⟩ := block_blocked h hrun
    exact hblocked.lively
  | wake o =>
    refine Lively.trans ?_ (lively_schedule hrun)
    unfold rtIpcListResume
    split
    · exact lively_of_thread rfl
    · exact lively_resume
  | wakeAll o => exact (lively_resume_all_loop _ _ _).trans (lively_schedule hrun)

end FullhanRtos.Sched
