import FullhanRtos.Sched.Effects

/-!
# What a call does to the waiters of an object

A call that is not about an object leaves its suspend list and the error numbers of its waiters
alone, unless it is the timer of one of them (`kernel_step_waiters_cases`). A waiter that is woken
and finds `RT_EOK` in its error number has got what it was waiting for; `woken` lists these.
-/

namespace FullhanRtos.Sched

open List Option

set_option linter.unusedSectionVars false

variable {τ ι : Type} [DecidableEq τ] [DecidableEq ι] {k k' k'' : Kernel τ ι} {t : τ} {o : ι}
  {S : τ → Prop} {op : KernelOp τ ι} {flag : IpcFlag}

/-- Only threads in `S` are touched: the records of the others stay, and so does a suspend list
without a thread in `S`. -/
structure Touches (S : τ → Prop) (k k' : Kernel τ ι) : Prop where
  thread : ∀ u, ¬ S u → k'.thread u = k.thread u
  wait : ∀ o, (∀ u ∈ k.queue (.wait o), ¬ S u) → k'.queue (.wait o) = k.queue (.wait o)

theorem Touches.refl (k : Kernel τ ι) : Touches S k k := ⟨fun _ _ => rfl, fun _ _ => rfl⟩

theorem Touches.trans (h : Touches S k k') (h' : Touches S k' k'') : Touches S k k'' := by
  refine ⟨fun u hu => (h'.thread u hu).trans (h.thread u hu), fun o ho => ?_⟩
  have hsame := h.wait o ho
  exact (h'.wait o (by rwa [hsame])).trans hsame

theorem Touches.mono {S' : τ → Prop} (h : Touches S k k') (hS : ∀ u, S u → S' u) :
    Touches S' k k' :=
  ⟨fun u hu => h.thread u fun hu' => hu (hS u hu'),
    fun o ho => h.wait o fun u hu hu' => ho u hu (hS u hu')⟩

theorem touches_update {f : Thread ι → Thread ι} (ht : S t) : Touches S k (k.updateThread t f) :=
  ⟨fun _ hu => update_thread_of_ne fun heq => hu (heq ▸ ht), fun _ _ => rfl⟩

theorem touches_list_remove (ht : S t) : Touches S k (rtListRemove k t) :=
  ⟨fun _ _ => rfl, fun _ ho => erase_of_not_mem fun hmem => ho t hmem ht⟩

theorem touches_remove (ht : S t) : Touches S k (rtScheduleRemoveThread k t) := by
  refine ⟨fun _ _ => by rw [remove_thread_thread], fun o ho => ?_⟩
  rw [remove_thread_queue]
  exact erase_of_not_mem fun hmem => ho t hmem ht

theorem touches_insert (ht : S t) : Touches S k (rtScheduleInsertThread k t) := by
  refine ⟨fun u hu => insert_thread_of_ne fun heq => hu (heq ▸ ht), fun o _ => ?_⟩
  rw [insert_thread_queue, if_neg (by simp)]

theorem touches_insert_before {p : Fin 256} :
    Touches S k (rtListInsertBefore k (.ready p) t) :=
  ⟨fun _ _ => rfl, fun o _ => by simp [rtListInsertBefore, Kernel.withQueue]⟩

theorem touches_schedule (hrun : rtSchedule k = some k') : Touches S k k' := by
  obtain ⟨t, -, rfl⟩ := map_eq_some_iff.mp hrun
  exact ⟨fun _ _ => rfl, fun _ _ => rfl⟩

theorem touches_suspend (ht : S t) (hrun : rtThreadSuspend k t = some k') : Touches S k k' := by
  have hsuspended : Touches S k (rtThreadSuspend.suspended k t) :=
    (touches_remove ht).trans (touches_update ht)
  unfold rtThreadSuspend at hrun
  split at hrun
  · cases hrun
    exact hsuspended
  · split at hrun
    · cases hrun
      exact hsuspended
    · cases hrun
  · cases hrun
    exact Touches.refl k

theorem touches_resume (ht : S t) : Touches S k (rtThreadResume k t) := by
  unfold rtThreadResume
  split
  · exact ((touches_list_remove ht).trans (touches_update ht)).trans (touches_insert ht)
  · exact Touches.refl k

theorem touches_startup (ht : S t) (hrun : rtThreadStartup k t = some k') : Touches S k k' := by
  unfold rtThreadStartup at hrun
  split at hrun
  · have hresumed := (touches_update (k := k) (t := t)
      (f := fun th => { th.withPriority th.initPriority with stat := .suspend }) ht).trans
      (touches_resume ht)
    dsimp only at hrun
    split at hrun
    · cases hrun
      exact hresumed
    · exact hresumed.trans (touches_schedule hrun)
  · cases hrun

theorem touches_timeout (ht : S t) (hrun : rtThreadTimeout k t = some k') : Touches S k k' := by
  unfold rtThreadTimeout at hrun
  split at hrun
  · exact (((touches_update ht).trans (touches_list_remove ht)).trans (touches_insert ht)).trans
      (touches_schedule hrun)
  · cases hrun

theorem touches_resume_all_loop (n : Nat) (k : Kernel τ ι)
    (hS : ∀ u ∈ k.queue (.wait o), S u) : Touches S k (resumeAllLoop o n k) := by
  induction n generalizing k with
  | zero => exact Touches.refl k
  | succ n ih =>
    rw [resumeAllLoop]
    split
    · exact Touches.refl k
    · rename_i t rest hlist
      have ht : S t := hS t (by rw [hlist]; exact mem_cons_self)
      refine ((touches_update ht).trans (touches_resume ht)).trans (ih _ fun u hu => hS u ?_)
      have hsub := calm_resume (k := k.updateThread t fun th => { th with error := .error })
        (t := t)
      exact (hsub.wait o).subset hu

/-- The call is not about the object and ends or resumes no thread; timers may fire. -/
def KernelOp.Spares (o : ι) : KernelOp τ ι → Prop
  | .resume _ | .detach _ | .delete _ | .exit => False
  | .block o' _ _ | .wake o' | .wakeAll o' => o' ≠ o
  | _ => True

/-- What a call that spares the object can do to its waiters. -/
inductive WaitersCase (k k' : Kernel τ ι) (o : ι) : KernelOp τ ι → Prop where
  | same (op : KernelOp τ ι) (hwait : k'.queue (.wait o) = k.queue (.wait o))
      (herror : ∀ u ∈ k.queue (.wait o), (k'.thread u).error = (k.thread u).error) :
      WaitersCase k k' o op
  | timeout (t : τ) (hmem : t ∈ k.queue (.wait o))
      (hwait : k'.queue (.wait o) = (k.queue (.wait o)).erase t)
      (hstat : (k'.thread t).stat = .ready) (herror : (k'.thread t).error = .etimeout)
      (hother : ∀ u, u ≠ t → k'.thread u = k.thread u) :
      WaitersCase k k' o (.timeout t)

theorem Touches.waiters_same (h : Touches S k k') (hS : ∀ u ∈ k.queue (.wait o), ¬ S u) :
    WaitersCase k k' o op :=
  .same op (h.wait o hS) fun u hu => congrArg Thread.error (h.thread u (hS u hu))

theorem Touches.waiters_same_of_not_mem (h : Touches (· = t) k k') (ht : t ∉ k.queue (.wait o)) :
    WaitersCase k k' o op :=
  h.waiters_same fun _ hu heq => ht (heq ▸ hu)

/-- The timer of a thread takes it off the suspend lists. -/
theorem timeout_wait (hrun : rtThreadTimeout k t = some k') (o : ι) :
    k'.queue (.wait o) = (k.queue (.wait o)).erase t := by
  unfold rtThreadTimeout at hrun
  split at hrun
  · obtain ⟨v, -, rfl⟩ := map_eq_some_iff.mp hrun
    show (rtScheduleInsertThread _ t).queue (.wait o) = _
    rfl
  · cases hrun

theorem timeout_timed_out (ht : t ∈ k.queue (.wait o)) (hrun : rtThreadTimeout k t = some k') :
    WaitersCase k k' o (.timeout t) := by
  have htouches := touches_timeout (S := (· = t)) rfl hrun
  have hwait := timeout_wait hrun o
  unfold rtThreadTimeout at hrun
  split at hrun
  · obtain ⟨v, -, rfl⟩ := map_eq_some_iff.mp hrun
    refine .timeout t ht hwait ?_ ?_ htouches.thread
    · show ((rtScheduleInsertThread _ t).thread t).stat = _
      rw [insert_thread_self]
    · show ((rtScheduleInsertThread _ t).thread t).error = _
      rw [insert_thread_self, list_remove_thread, update_thread_self]
  · cases hrun

theorem kernel_step_waiters_cases (hop : op.Spares o) (h : KernelInv k)
    (hrun : kernelStep k op = some k') : WaitersCase k k' o op := by
  have hc := h.consistent
  cases op with
  | resume | detach | delete | exit => exact hop.elim
  | init t priority lock systemObject cleanup =>
    simp only [kernelStep] at hrun
    unfold rtThreadInit at hrun
    split at hrun
    · rename_i hfree
      cases hrun
      exact (touches_update (S := (· = t)) rfl).waiters_same_of_not_mem
        (hc.not_waiting_of_init (.inr hfree.1) o)
    · cases hrun
  | startup t =>
    have hinit : (k.thread t).stat = .init := by
      simp only [kernelStep] at hrun
      unfold rtThreadStartup at hrun
      split at hrun
      · assumption
      · cases hrun
    exact (touches_startup (S := (· = t)) rfl hrun).waiters_same_of_not_mem
      (hc.not_waiting_of_init (.inl hinit) o)
  | schedule => exact (touches_schedule (S := fun _ => False) hrun).waiters_same fun _ _ hf => hf
  | suspend t =>
    by_cases ht : t ∈ k.queue (.wait o)
    · -- A waiter is suspended already.
      have hstat := (hc.located t (by simp)).waiting ht
      simp only [kernelStep, rtThreadSuspend, hstat] at hrun
      cases hrun
      exact .same _ rfl fun _ _ => rfl
    · exact (touches_suspend (S := (· = t)) rfl hrun).waiters_same_of_not_mem ht
  | sleep =>
    obtain ⟨t, hcurrent, hrun⟩ := bind_eq_some_iff.mp hrun
    obtain ⟨k1, hsuspend, hrun⟩ := bind_eq_some_iff.mp hrun
    exact (((touches_suspend (S := (· = t)) rfl hsuspend).trans (touches_update rfl)).trans
      (touches_schedule hrun)).waiters_same_of_not_mem ((h.current t hcurrent).2.2 o)
  | timeout t =>
    by_cases ht : t ∈ k.queue (.wait o)
    · exact timeout_timed_out ht hrun
    · exact (touches_timeout (S := (· = t)) rfl hrun).waiters_same_of_not_mem ht
  | yield =>
    obtain ⟨t, hcurrent, hrun⟩ := bind_eq_some_iff.mp hrun
    dsimp only at hrun
    split at hrun
    · have hremoved : Touches (· = t) k (rtListRemove k t) := touches_list_remove rfl
      exact ((hremoved.trans touches_insert_before).trans
        (touches_schedule hrun)).waiters_same_of_not_mem ((h.current t hcurrent).2.2 o)
    · cases hrun
      exact .same _ rfl fun _ _ => rfl
  | changePriority t p =>
    cases hrun
    have hchanged := change_priority_changed hc t p
    exact .same _ (hchanged.wait o) fun u _ => hchanged.err u
  | reap =>
    cases hrun
    unfold rtThreadDefunctDequeue
    split
    · exact .same _ rfl fun _ _ => rfl
    · rename_i t rest hlist
      refine (touches_list_remove (S := (· = t)) rfl).waiters_same_of_not_mem fun hmem => ?_
      have hdefunct : t ∈ k.queue .defunct := by rw [hlist]; exact mem_cons_self
      cases hc.unique t _ _ hmem hdefunct
  | block o' flag timed =>
    obtain ⟨t, hblocked⟩ := block_blocked hc hrun
    refine .same _ (hblocked.wait o (Ne.symm hop)) fun u hu => ?_
    rw [hblocked.other u fun heq => hc.not_waiting hblocked.ready o (heq ▸ hu)]
  | wake o' =>
    have htouches : Touches (· ∈ k.queue (.wait o')) k (rtIpcListResume k o') := by
      unfold rtIpcListResume
      split
      · exact Touches.refl k
      · rename_i t rest hlist
        exact touches_resume (by rw [hlist]; exact mem_cons_self)
    refine (htouches.trans (touches_schedule hrun)).waiters_same fun u hu hu' => ?_
    exact hop (Queue.wait.inj (hc.unique u _ _ hu' hu))
  | wakeAll o' =>
    have htouches := touches_resume_all_loop (o := o') (S := (· ∈ k.queue (.wait o')))
      (k.queue (.wait o')).length k fun u hu => hu
    refine (htouches.trans (touches_schedule hrun)).waiters_same fun u hu hu' => ?_
    exact hop (Queue.wait.inj (hc.unique u _ _ hu' hu))

/-! ## Waiters that are woken -/

/-- The waiters of `o` that a call wakes with `RT_EOK`. -/
def woken (k k' : Kernel τ ι) (o : ι) : List τ :=
  (k.queue (.wait o)).filter fun w => w ∉ k'.queue (.wait o) ∧ (k'.thread w).error = .eok

def WaitersEok (k : Kernel τ ι) (o : ι) : Prop :=
  ∀ w ∈ k.queue (.wait o), (k.thread w).error = .eok

theorem woken_eq_nil (h : ∀ w ∈ k.queue (.wait o), w ∈ k'.queue (.wait o)) :
    woken k k' o = [] := by
  refine filter_eq_nil_iff.mpr fun w hw => ?_
  simp [h w hw]

theorem WaitersCase.woken_eq_nil (h : WaitersCase k k' o op) :
    woken k k' o = [] := by
  cases h with
  | same _ hwait _ => exact Sched.woken_eq_nil fun w hw => by rwa [hwait]
  | timeout t hmem hwait hstat herror hother =>
    refine filter_eq_nil_iff.mpr fun w hw => ?_
    by_cases hwt : w = t
    · simp [hwt, herror]
    · have hstays : w ∈ k'.queue (.wait o) := by
        rw [hwait]
        exact (mem_erase_of_ne hwt).mpr hw
      simp [hstays]

theorem WaitersCase.waiters_eok (h : WaitersCase k k' o op) (hc : Consistent k [])
    (heok : WaitersEok k o) : WaitersEok k' o := by
  intro w hw
  cases h with
  | same _ hwait herror =>
    rw [hwait] at hw
    rw [herror w hw]
    exact heok w hw
  | timeout t hmem hwait hstat herror hother =>
    rw [hwait] at hw
    have hne : w ≠ t := fun heq => (hc.nodup _).not_mem_erase (heq ▸ hw)
    rw [hother w hne]
    exact heok w (mem_of_mem_erase hw)

theorem mem_joined {u : τ} {l : List τ} :
    u ∈ joined k flag t l ↔ u = t ∨ u ∈ l := by
  cases flag with
  | fifo => simp [joined, or_comm]
  | prio => rw [joined, (insert_by_priority_perm _ _ _).mem_iff, mem_cons]

theorem Blocked.woken_eq_nil (h : Blocked k k' o flag t) : woken k k' o = [] :=
  Sched.woken_eq_nil fun w hw => by
    rw [h.join]
    exact mem_joined.mpr (.inr hw)

theorem Blocked.waiters_eok (h : Blocked k k' o flag t) (hc : Consistent k [])
    (heok : WaitersEok k o) : WaitersEok k' o := by
  intro w hw
  rw [h.join] at hw
  rcases mem_joined.mp hw with rfl | hw
  · exact h.err
  · rw [h.other w fun heq => hc.not_waiting h.ready o (heq ▸ hw)]
    exact heok w hw

theorem Resumed.woken_eq {rest : List τ} (h : Resumed k k' t)
    (hc : Consistent k []) (hlist : k.queue (.wait o) = t :: rest) (heok : WaitersEok k o) :
    woken k k' o = [t] := by
  have hnodup := hc.nodup (.wait o)
  rw [hlist] at hnodup
  have hnot : t ∉ rest := (nodup_cons.mp hnodup).1
  have hwait : k'.queue (.wait o) = rest := by rw [h.wait, hlist, erase_cons_head]
  have herror : (k'.thread t).error = .eok := by
    rw [h.err]
    exact heok t (by rw [hlist]; exact mem_cons_self)
  rw [woken, hlist, hwait, filter_cons_of_pos (by simp [hnot, herror]),
    filter_eq_nil_iff.mpr fun w hw => by simp [hw]]

theorem Resumed.waiters_eok (h : Resumed k k' t) (heok : WaitersEok k o) : WaitersEok k' o := by
  intro w hw
  rw [h.wait] at hw
  rw [h.err]
  exact heok w (mem_of_mem_erase hw)

/-! ## All waiters of an object -/

/-- The waiters of `o` are ready with `RT_ERROR`, and nothing else has changed. -/
structure ResumedAll (k k' : Kernel τ ι) (o : ι) : Prop where
  consistent : Consistent k' []
  empty : k'.queue (.wait o) = []
  woken : ∀ t ∈ k.queue (.wait o), (k'.thread t).stat = .ready ∧ (k'.thread t).error = .error
  touches : Touches (· ∈ k.queue (.wait o)) k k'

/-- The loop wakes the first waiter and goes on with the others. -/
theorem resume_all_loop_spec (n : Nat) (h : Consistent k [])
    (hn : (k.queue (.wait o)).length = n) : ResumedAll k (resumeAllLoop o n k) o := by
  induction n generalizing k with
  | zero =>
    have hnil := length_eq_zero_iff.mp hn
    refine ⟨h, hnil, fun t ht => ?_, Touches.refl k⟩
    rw [hnil] at ht
    cases ht
  | succ n ih =>
    cases hlist : k.queue (.wait o) with
    | nil => simp [hlist] at hn
    | cons t rest =>
      have hmem : t ∈ k.queue (.wait o) := by rw [hlist]; exact mem_cons_self
      have hstat := (h.located t (by simp)).waiting hmem
      generalize hk1 : k.updateThread t (fun th => { th with error := .error }) = k1
      have hk1c : Consistent k1 [] := by
        rw [← hk1]
        exact h.update_keep rfl rfl fun hm => ⟨hm.number, hm.numberMask, hm.highMask⟩
      have herror1 : (k1.thread t).error = .error := by rw [← hk1, update_thread_self]
      have hqueue1 : k1.queue = k.queue := by rw [← hk1, update_thread_queue]
      have hresumed : Resumed k1 (rtThreadResume k1 t) t := by
        refine resume_resumed ?_
        rw [← hk1, update_thread_self]
        exact hstat
      have hrest : (rtThreadResume k1 t).queue (.wait o) = rest := by
        rw [hresumed.wait, hqueue1, hlist, erase_cons_head]
      have hnot : t ∉ rest := by
        have hnodup := h.nodup (.wait o)
        rw [hlist] at hnodup
        exact (nodup_cons.mp hnodup).1
      have hloop : resumeAllLoop o (n + 1) k = resumeAllLoop o n (rtThreadResume k1 t) := by
        rw [resumeAllLoop, hlist]
        simp only [hk1]
      rw [hloop]
      have hall := ih (consistent_resume hk1c (by simp)) (by
        rw [hrest]
        rw [hlist, length_cons] at hn
        omega)
      have htouches := hall.touches
      have hready := hall.woken
      rw [hrest] at htouches hready
      refine ⟨hall.consistent, hall.empty, fun u hu => ?_, ?_⟩
      · rw [hlist] at hu
        rcases mem_cons.mp hu with rfl | hu
        · rw [htouches.thread u hnot, hresumed.err]
          exact ⟨hresumed.stat, herror1⟩
        · exact hready u hu
      · rw [hlist]
        have hfirst : Touches (· ∈ t :: rest) k (rtThreadResume k1 t) := by
          have hupdate : Touches (· ∈ t :: rest) k k1 := by
            rw [← hk1]
            exact touches_update mem_cons_self
          exact hupdate.trans (touches_resume mem_cons_self)
        exact hfirst.trans (htouches.mono fun u hu => mem_cons_of_mem t hu)

theorem resume_all_spec (h : Consistent k []) : ResumedAll k (rtIpcListResumeAll k o) o :=
  resume_all_loop_spec _ h rfl

end FullhanRtos.Sched
