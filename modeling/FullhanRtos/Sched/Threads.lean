import FullhanRtos.Sched.Ready

/-!
# The thread functions keep the ready queue consistent

For every function of `Kernel` one lemma says that it keeps `Consistent`, and one what it leaves
alone (`Calm`): all but the functions that start a thread or change its priority keep all
priorities, and suspend lists only lose threads. `Lively` says that no thread ends.
-/

namespace FullhanRtos.Sched

open Function List Option

set_option linter.unusedSectionVars false

variable {τ ι : Type} [DecidableEq τ] [DecidableEq ι] {defunct : Bool}

/-- The priorities stay, suspend lists only lose threads and no thread goes back to its initial
state. -/
structure Calm (k k' : Kernel τ ι) : Prop where
  prio : ∀ t, (k'.thread t).currentPriority = (k.thread t).currentPriority
  initPrio : ∀ t, (k'.thread t).initPriority = (k.thread t).initPriority
  masks : ∀ t, HasMasks (k.thread t) → HasMasks (k'.thread t)
  started : ∀ t, (k.thread t).stat ≠ .init → (k'.thread t).stat ≠ .init
  wait : ∀ o, (k'.queue (.wait o)).Sublist (k.queue (.wait o))

/-- The thread has been started and has not ended. -/
def Alive (k : Kernel τ ι) (t : τ) : Prop :=
  (k.thread t).stat ≠ .init ∧ (k.thread t).stat ≠ .close

/-- No thread ends. -/
def Lively (k k' : Kernel τ ι) : Prop := ∀ t, Alive k t → Alive k' t

/-! ## What a function leaves alone -/

section

variable {k k' k'' : Kernel τ ι} {t : τ} {f : Thread ι → Thread ι}

theorem Calm.refl (k : Kernel τ ι) : Calm k k :=
  ⟨fun _ => rfl, fun _ => rfl, fun _ h => h, fun _ h => h, fun _ => Sublist.refl _⟩

theorem Calm.trans (h : Calm k k') (h' : Calm k' k'') : Calm k k'' :=
  ⟨fun t => (h'.prio t).trans (h.prio t), fun t => (h'.initPrio t).trans (h.initPrio t),
    fun t ht => h'.masks t (h.masks t ht), fun t ht => h'.started t (h.started t ht),
    fun o => (h'.wait o).trans (h.wait o)⟩

/-- A change of a record that keeps the priorities and masks. -/
theorem calm_update (hprio : (f (k.thread t)).currentPriority = (k.thread t).currentPriority)
    (hinit : (f (k.thread t)).initPriority = (k.thread t).initPriority)
    (hmasks : HasMasks (k.thread t) → HasMasks (f (k.thread t)))
    (hstarted : (k.thread t).stat ≠ .init → (f (k.thread t)).stat ≠ .init) :
    Calm k (k.updateThread t f) := by
  refine ⟨fun u => ?_, fun u => ?_, fun u hu => ?_, fun u hu => ?_, fun o => Sublist.refl _⟩
  all_goals
    by_cases hut : u = t
    · subst hut
      rw [update_thread_self]
      first | exact hprio | exact hinit | exact hmasks hu | exact hstarted hu
    · rw [update_thread_of_ne hut]
      try assumption

theorem calm_list_remove : Calm k (rtListRemove k t) :=
  ⟨fun _ => rfl, fun _ => rfl, fun _ h => h, fun _ h => h, fun _ => erase_sublist⟩

theorem calm_remove : Calm k (rtScheduleRemoveThread k t) := by
  refine ⟨fun u => ?_, fun u => ?_, fun u hu => ?_, fun u hu => ?_, fun o => ?_⟩
  · rw [remove_thread_thread]
  · rw [remove_thread_thread]
  · rwa [remove_thread_thread]
  · rwa [remove_thread_thread]
  · rw [remove_thread_queue]
    exact erase_sublist

theorem calm_insert : Calm k (rtScheduleInsertThread k t) := by
  refine ⟨fun u => ?_, fun u => ?_, fun u hu => ?_, fun u hu => ?_, fun o => ?_⟩
  · by_cases hut : u = t
    · rw [hut, insert_thread_self]
    · rw [insert_thread_of_ne hut]
  · by_cases hut : u = t
    · rw [hut, insert_thread_self]
    · rw [insert_thread_of_ne hut]
  · by_cases hut : u = t
    · subst hut
      rw [insert_thread_self]
      exact ⟨hu.number, hu.numberMask, hu.highMask⟩
    · rwa [insert_thread_of_ne hut]
  · by_cases hut : u = t
    · subst hut
      simp
    · rwa [insert_thread_of_ne hut]
  · rw [insert_thread_queue, if_neg (by simp)]

theorem calm_with_queue {q : Queue ι} {l : List τ} (hq : ∀ o, q ≠ .wait o) :
    Calm k (k.withQueue q l) := by
  refine ⟨fun _ => rfl, fun _ => rfl, fun _ h => h, fun _ h => h, fun o => ?_⟩
  rw [Kernel.withQueue]
  simp [update_of_ne (hq o).symm]

theorem calm_schedule (hrun : rtSchedule k = some k') : Calm k k' := by
  obtain ⟨t, -, rfl⟩ := map_eq_some_iff.mp hrun
  exact ⟨fun _ => rfl, fun _ => rfl, fun _ h => h, fun _ h => h, fun _ => Sublist.refl _⟩

theorem calm_suspended : Calm k (rtThreadSuspend.suspended k t) :=
  calm_remove.trans (calm_update rfl rfl (fun h => ⟨h.number, h.numberMask, h.highMask⟩) (by simp))

theorem calm_suspend (hrun : rtThreadSuspend k t = some k') : Calm k k' := by
  unfold rtThreadSuspend at hrun
  split at hrun
  · cases hrun
    exact calm_suspended
  · split at hrun
    · cases hrun
      exact calm_suspended
    · cases hrun
  · cases hrun
    exact Calm.refl k

theorem calm_resume : Calm k (rtThreadResume k t) := by
  unfold rtThreadResume
  split
  · exact (calm_list_remove.trans (calm_update rfl rfl
      (fun h => ⟨h.number, h.numberMask, h.highMask⟩) (fun h => h))).trans calm_insert
  · exact Calm.refl k

theorem calm_resume_all_loop (o : ι) (n : Nat) (k : Kernel τ ι) : Calm k (resumeAllLoop o n k) := by
  induction n generalizing k with
  | zero => exact Calm.refl k
  | succ n ih =>
    rw [resumeAllLoop]
    split
    · exact Calm.refl k
    · exact ((calm_update rfl rfl (fun h => ⟨h.number, h.numberMask, h.highMask⟩)
        (fun h => h)).trans calm_resume).trans (ih _)

theorem calm_delete_lock : Calm k (deleteLock k t) := by
  unfold deleteLock
  split
  · exact Calm.refl k
  · exact (calm_update rfl rfl (fun h => ⟨h.number, h.numberMask, h.highMask⟩)
      (fun h => h)).trans (calm_resume_all_loop _ _ _)

theorem calm_close : Calm k (closeThread k t defunct) := by
  have hupdate : Calm k (k.updateThread t fun th =>
      { th with stat := .close, timerActive := false }) :=
    calm_update rfl rfl (fun h => ⟨h.number, h.numberMask, h.highMask⟩) (by simp)
  unfold closeThread
  split
  · exact hupdate.trans (calm_with_queue (by simp))
  · exact hupdate

theorem calm_retire : Calm k (retireThread k t defunct) := by
  unfold retireThread
  split
  · exact Calm.refl k
  · split
    · exact ((calm_update rfl rfl (fun h => ⟨h.number, h.numberMask, h.highMask⟩)
        (fun h => h)).trans calm_delete_lock).trans calm_close
    · exact ((calm_remove.trans (calm_update rfl rfl
        (fun h => ⟨h.number, h.numberMask, h.highMask⟩) (fun h => h))).trans
        calm_delete_lock).trans calm_close

end

/-! ## Consistency -/

section

variable {k k' : Kernel τ ι} {t : τ} {held : List τ} {flag : IpcFlag} {o : ι}

/-- A thread on no list may be held. -/
theorem Consistent.hold_unlinked (h : Consistent k held) (hnot : ∀ q, t ∉ k.queue q) :
    Consistent k (t :: held) := by
  refine ⟨h.bits, h.group, h.nodup, h.unique, fun u hu => ?_, fun u hu => ?_, h.not_running,
    h.masks⟩
  · exact h.located u fun hmem => hu (mem_cons_of_mem t hmem)
  · rcases mem_cons.mp hu with rfl | hu
    · exact hnot
    · exact h.unlinked u hu

/-- Reordering a list keeps the kernel consistent. -/
theorem Consistent.permute (h : Consistent k held) (hthread : k'.thread = k.thread)
    (htable : k'.readyTable = k.readyTable) (hgroup : k'.group = k.group)
    (hqueue : ∀ q, (k'.queue q).Perm (k.queue q)) : Consistent k' held := by
  refine ⟨fun p => ?_, fun n => ?_, fun q => ?_, fun u q q' hq hq' => ?_, fun u hu => ?_,
    fun u hu q hq => ?_, by rw [hthread]; exact h.not_running, by rw [hthread]; exact h.masks⟩
  · rw [readyBit, htable]
    refine (h.bits p).trans (not_congr ⟨fun hnil => ?_, fun hnil => ?_⟩)
    · exact ((hnil ▸ hqueue (.ready p)) : (k'.queue (.ready p)).Perm []).eq_nil
    · exact ((hnil ▸ (hqueue (.ready p)).symm) : (k.queue (.ready p)).Perm []).eq_nil
  · rw [hgroup, htable]
    exact h.group n
  · exact (hqueue q).nodup_iff.mpr (h.nodup q)
  · exact h.unique u q q' ((hqueue q).mem_iff.mp hq) ((hqueue q').mem_iff.mp hq')
  · exact (h.located u hu).congr (fun q => (hqueue q).mem_iff) (by rw [hthread]) (by rw [hthread])
  · exact h.unlinked u hu q ((hqueue q).mem_iff.mp hq)

/-- The running thread plays no part in it. -/
theorem consistent_schedule (h : Consistent k held) (hrun : rtSchedule k = some k') :
    Consistent k' held := by
  obtain ⟨t, -, rfl⟩ := map_eq_some_iff.mp hrun
  exact h.permute rfl rfl rfl fun q => Perm.refl _

theorem current_schedule (h : Consistent k []) (hrun : rtSchedule k = some k') :
    CurrentOk k' ∧ ∃ t, k'.current = some t ∧ (k'.thread t).stat = .ready := by
  obtain ⟨t, hpick, rfl⟩ := map_eq_some_iff.mp hrun
  obtain ⟨hstat, hlist, -⟩ := h.picked hpick
  have hready : (k.thread t).stat = .ready := hstat.resolve_right (h.not_running t)
  refine ⟨fun u hu => ?_, t, rfl, hready⟩
  obtain rfl := some.inj hu
  refine ⟨h.masks t (by simp [hready]) (by simp [hready]), by simp [hready], fun o hmem => ?_⟩
  cases (hlist _).mp hmem

theorem Consistent.suspended (h : Consistent k held) (ht : t ∉ held)
    (hready : (k.thread t).stat = .ready) :
    Consistent (rtThreadSuspend.suspended k t) (t :: held) := by
  have hmasks := h.masks t (by simp [hready]) (by simp [hready])
  refine (h.hold_ready ht hmasks).update_record (absurd mem_cons_self) (by simp) fun _ _ => ?_
  rw [remove_thread_thread]
  exact ⟨hmasks.number, hmasks.numberMask, hmasks.highMask⟩

theorem suspended_stat : ((rtThreadSuspend.suspended k t).thread t).stat = .suspend := by
  rw [rtThreadSuspend.suspended, update_thread_self]

theorem consistent_suspend (h : Consistent k held) (ht : t ∉ held)
    (hrun : rtThreadSuspend k t = some k') : Consistent k' held := by
  unfold rtThreadSuspend at hrun
  split at hrun
  · rename_i hstat
    cases hrun
    exact (h.suspended ht hstat).release (by rw [suspended_stat]; simp)
  · rename_i hstat
    exact absurd hstat (h.not_running t)
  · cases hrun
    exact h

theorem consistent_resume (h : Consistent k held) (ht : t ∉ held) :
    Consistent (rtThreadResume k t) held := by
  unfold rtThreadResume
  split
  · rename_i hstat
    have hnot := (h.located t ht).not_ready (by simp [hstat]) (by simp [hstat])
    have hmasks := h.masks t (by simp [hstat]) (by simp [hstat])
    refine ((h.hold_waiting hnot).update_keep rfl rfl fun hm => ?_).insert_ready ht ?_
    · exact ⟨hm.number, hm.numberMask, hm.highMask⟩
    · rw [update_thread_self]
      exact ⟨hmasks.number, hmasks.numberMask, hmasks.highMask⟩
  · exact h

theorem consistent_init {priority : Fin 256} {lock : Option ι} {systemObject cleanup : Bool}
    (h : Consistent k []) (hrun : rtThreadInit k t priority lock systemObject cleanup = some k') :
    Consistent k' [] := by
  unfold rtThreadInit at hrun
  split at hrun
  · rename_i hfree
    cases hrun
    have hloc := h.located t (by simp)
    unfold Located at hloc
    rw [hfree.1] at hloc
    have hnot : ∀ q, t ∉ k.queue q := fun q hq => hfree.2.1 (hloc q hq ▸ hq)
    have hheld := (h.hold_unlinked hnot).update_record (f := fun _ =>
      { stat := .init, error := .eok, currentPriority := priority, initPriority := priority
        number := 0, numberMask := 0#32, highMask := 0#8, timerActive := false
        systemObject, cleanup, lock }) (absurd mem_cons_self) (by simp) (by simp)
    exact hheld.release (by rw [update_thread_self]; simp)
  · cases hrun

theorem consistent_starting (h : Consistent k []) (hinit : (k.thread t).stat = .init) :
    Consistent (k.updateThread t fun th =>
      { th.withPriority th.initPriority with stat := .suspend }) [] := by
  have hloc := h.located t (by simp)
  unfold Located at hloc
  rw [hinit] at hloc
  have hheld := (h.hold_unlinked hloc).update_record (f := fun th =>
    { th.withPriority th.initPriority with stat := .suspend }) (absurd mem_cons_self) (by simp)
    fun _ _ => ⟨rfl, rfl, rfl⟩
  exact hheld.release (by rw [update_thread_self]; simp)

theorem consistent_startup (h : Consistent k []) (hrun : rtThreadStartup k t = some k') :
    Consistent k' [] := by
  unfold rtThreadStartup at hrun
  split at hrun
  · rename_i hinit
    have hresumed := consistent_resume (t := t) (consistent_starting h hinit) (by simp)
    dsimp only at hrun
    split at hrun
    · cases hrun
      exact hresumed
    · exact consistent_schedule hresumed hrun
  · cases hrun

theorem consistent_yield (h : Consistent k []) (hrun : rtThreadYield k = some k') :
    Consistent k' [] := by
  obtain ⟨t, hcurrent, hrun⟩ := bind_eq_some_iff.mp hrun
  dsimp only at hrun
  split at hrun
  · rename_i hready
    refine consistent_schedule (h.permute ?_ ?_ ?_ fun q => ?_) hrun
    · rfl
    · rfl
    · rfl
    · have hloc := h.located t (by simp)
      unfold Located at hloc
      rw [hready.1] at hloc
      by_cases hq : q = .ready (k.thread t).currentPriority
      · subst hq
        simp only [rtListInsertBefore, Kernel.withQueue, update_self]
        exact (perm_append_singleton t _).trans
          (perm_cons_erase ((hloc _).mpr rfl)).symm
      · simp only [rtListInsertBefore, Kernel.withQueue, update_of_ne hq, rtListRemove]
        rw [erase_of_not_mem fun hmem => hq ((hloc q).mp hmem)]
  · cases hrun
    exact h

theorem consistent_timeout (h : Consistent k []) (hrun : rtThreadTimeout k t = some k') :
    Consistent k' [] := by
  unfold rtThreadTimeout at hrun
  split at hrun
  · rename_i hfires
    have hmasks := h.masks t (by simp [hfires.2]) (by simp [hfires.2])
    have hnot := (h.located t (by simp)).not_ready (by simp [hfires.2]) (by simp [hfires.2])
    have hupdated := h.update_keep (t := t)
      (f := fun th => { th with timerActive := false, error := .etimeout }) rfl rfl
      fun hm => ⟨hm.number, hm.numberMask, hm.highMask⟩
    refine consistent_schedule ((hupdated.hold_waiting hnot).insert_ready (by simp) ?_) hrun
    rw [list_remove_thread, update_thread_self]
    exact ⟨hmasks.number, hmasks.numberMask, hmasks.highMask⟩
  · cases hrun

theorem Consistent.update_priority (h : Consistent k held) (hready : (k.thread t).stat ≠ .ready)
    (p : Fin 256) : Consistent (k.updateThread t fun th => th.withPriority p) held := by
  refine ⟨h.bits, h.group, h.nodup, h.unique, fun u hu => ?_, h.unlinked, fun u => ?_,
    fun u hinit hclose => ?_⟩
  · by_cases hut : u = t
    · subst hut
      have hloc := h.located u hu
      unfold Located at hloc ⊢
      rw [update_thread_self, show ((k.thread u).withPriority p).stat = (k.thread u).stat from rfl]
      cases hstat : (k.thread u).stat with
      | init | suspend | close =>
        rw [hstat] at hloc
        exact hloc
      | ready => exact absurd hstat hready
      | running => exact absurd hstat (h.not_running u)
    · exact (h.located u hu).congr (fun q => Iff.rfl) (by rw [update_thread_of_ne hut])
        (by rw [update_thread_of_ne hut])
  · by_cases hut : u = t
    · rw [hut, update_thread_self]
      exact h.not_running t
    · rw [update_thread_of_ne hut]
      exact h.not_running u
  · by_cases hut : u = t
    · subst hut
      rw [update_thread_self]
      exact with_priority_masks _ p
    · rw [update_thread_of_ne hut] at hinit hclose ⊢
      exact h.masks u hinit hclose

theorem consistent_change_priority (h : Consistent k []) (p : Fin 256) :
    Consistent (rtThreadChangePriority k t p) [] := by
  unfold rtThreadChangePriority
  split
  · rename_i hready
    have hmasks := h.masks t (by simp [hready]) (by simp [hready])
    have hheld := (h.hold_ready (by simp) hmasks).update_record (t := t)
      (f := fun th => th.withPriority p) (absurd mem_cons_self)
      (by rw [remove_thread_thread]; exact h.not_running t)
      fun _ _ => with_priority_masks _ p
    refine hheld.insert_ready (by simp) ?_
    rw [update_thread_self]
    exact with_priority_masks _ p
  · rename_i hready
    exact h.update_priority hready p

theorem insert_by_priority_perm (prio : τ → Fin 256) (t : τ) (l : List τ) :
    (insertByPriority prio t l).Perm (t :: l) := by
  induction l with
  | nil => exact Perm.refl _
  | cons u us ih =>
    rw [insertByPriority]
    split
    · exact Perm.refl _
    · exact (ih.cons u).trans (Perm.swap t u us)

theorem ipc_list_suspend_run (hready : (k.thread t).stat = .ready)
    (hrun : rtIpcListSuspend k o t flag = some k') :
    ∃ l, l.Perm (t :: (rtThreadSuspend.suspended k t).queue (.wait o)) ∧
      k' = (rtThreadSuspend.suspended k t).withQueue (.wait o) l := by
  obtain ⟨k1, hsuspend, hrun⟩ := bind_eq_some_iff.mp hrun
  have hk1 : k1 = rtThreadSuspend.suspended k t := by
    rw [rtThreadSuspend, hready] at hsuspend
    exact (some.inj hsuspend).symm
  subst hk1
  cases flag with
  | fifo => exact ⟨_, perm_append_singleton _ _, (some.inj hrun).symm⟩
  | prio => exact ⟨_, insert_by_priority_perm _ _ _, (some.inj hrun).symm⟩

theorem consistent_ipc_list_suspend (h : Consistent k []) (hready : (k.thread t).stat = .ready)
    (hrun : rtIpcListSuspend k o t flag = some k') :
    Consistent k' [] := by
  obtain ⟨l, hl, rfl⟩ := ipc_list_suspend_run hready hrun
  exact (h.suspended (by simp) hready).link (by simp) hl (.inl ⟨suspended_stat, o, rfl⟩)

theorem consistent_ipc_list_resume (h : Consistent k []) (o : ι) :
    Consistent (rtIpcListResume k o) [] := by
  unfold rtIpcListResume
  split
  · exact h
  · exact consistent_resume h (by simp)

theorem consistent_resume_all_loop (n : Nat) (h : Consistent k held) :
    Consistent (resumeAllLoop o n k) held := by
  induction n generalizing k with
  | zero => exact h
  | succ n ih =>
    rw [resumeAllLoop]
    split
    · exact h
    · rename_i t rest hlist
      have ht : t ∉ held := fun hmem => h.unlinked t hmem (.wait o) (by simp [hlist])
      refine ih (consistent_resume (h.update_keep rfl rfl fun hm => ?_) ht)
      exact ⟨hm.number, hm.numberMask, hm.highMask⟩

theorem consistent_delete_lock (h : Consistent k held) : Consistent (deleteLock k t) held := by
  unfold deleteLock
  split
  · exact h
  · exact consistent_resume_all_loop _ (h.update_keep rfl rfl fun hm =>
      ⟨hm.number, hm.numberMask, hm.highMask⟩)

theorem consistent_close (h : Consistent k [t]) :
    Consistent (closeThread k t defunct) [] := by
  have hheld := h.update_record (t := t)
    (f := fun th => { th with stat := .close, timerActive := false }) (absurd mem_cons_self)
      (by simp)
    (by simp)
  unfold closeThread
  split
  · exact hheld.link (by simp) (Perm.refl _) (.inr ⟨by rw [update_thread_self], rfl⟩)
  · exact hheld.release (by rw [update_thread_self]; simp)

theorem consistent_retire (h : Consistent k []) :
    Consistent (retireThread k t defunct) [] := by
  unfold retireThread
  split
  · exact h
  · rename_i hclose
    refine consistent_close (consistent_delete_lock (Consistent.update_keep ?_ rfl rfl fun hm =>
      ⟨hm.number, hm.numberMask, hm.highMask⟩))
    split
    · rename_i hinit
      have hloc := h.located t (by simp)
      unfold Located at hloc
      rw [hinit] at hloc
      exact h.hold_unlinked hloc
    · rename_i hinit
      exact h.hold_ready (by simp) (h.masks t hinit hclose)

theorem consistent_exit (h : Consistent k []) (hcurrent : CurrentOk k)
    (hrun : rtThreadExit k = some k') : Consistent k' [] := by
  obtain ⟨t, ht, hrun⟩ := bind_eq_some_iff.mp hrun
  refine consistent_schedule (consistent_close ?_) hrun
  exact (consistent_delete_lock h).hold_ready (by simp)
    (calm_delete_lock.masks t (hcurrent t ht).1)

theorem consistent_defunct_dequeue (h : Consistent k []) :
    Consistent (rtThreadDefunctDequeue k) [] := by
  unfold rtThreadDefunctDequeue
  split
  · exact h
  · rename_i t rest hlist
    have hmem : t ∈ k.queue .defunct := by simp [hlist]
    have hnot : ∀ p, t ∉ k.queue (.ready p) := fun p hp => by
      cases h.unique t _ _ hp hmem
    refine (h.hold_waiting hnot).release ?_
    -- A ready thread is on a priority list, not on the defunct list.
    intro hready
    rw [list_remove_thread] at hready
    have hloc := h.located t (by simp)
    unfold Located at hloc
    rw [hready] at hloc
    cases (hloc _).mp hmem

end

/-! ## The running thread -/

section

variable {k k' : Kernel τ ι} {t : τ}

/-- The running thread stays as it is when nothing is scheduled. -/
theorem CurrentOk.of_calm (h : CurrentOk k) (hcalm : Calm k k')
    (hcurrent : k'.current = k.current) :
    CurrentOk k' := by
  intro u hu
  obtain ⟨hmasks, hinit, hwait⟩ := h u (hcurrent ▸ hu)
  exact ⟨hcalm.masks u hmasks, hcalm.started u hinit, fun o hmem =>
    hwait o ((hcalm.wait o).subset hmem)⟩

theorem suspend_current (hrun : rtThreadSuspend k t = some k') : k'.current = k.current := by
  unfold rtThreadSuspend at hrun
  split at hrun
  · cases hrun
    exact remove_thread_current
  · split at hrun
    · cases hrun
      exact remove_thread_current
    · cases hrun
  · cases hrun
    rfl

theorem resume_current : (rtThreadResume k t).current = k.current := by
  unfold rtThreadResume
  split <;> rfl

theorem resume_all_loop_current (o : ι) (n : Nat) (k : Kernel τ ι) :
    (resumeAllLoop o n k).current = k.current := by
  induction n generalizing k with
  | zero => rfl
  | succ n ih =>
    rw [resumeAllLoop]
    split
    · rfl
    · rw [ih, resume_current]
      rfl

theorem delete_lock_current : (deleteLock k t).current = k.current := by
  unfold deleteLock
  split
  · rfl
  · exact resume_all_loop_current _ _ _

theorem close_current : (closeThread k t defunct).current = k.current := by
  unfold closeThread
  split <;> rfl

theorem retire_current : (retireThread k t defunct).current = k.current := by
  unfold retireThread
  split
  · rfl
  · rw [close_current, delete_lock_current, update_thread_current]
    split
    · rfl
    · exact remove_thread_current

theorem current_change_priority (h : CurrentOk k) (p : Fin 256) :
    CurrentOk (rtThreadChangePriority k t p) := by
  unfold rtThreadChangePriority
  intro u hu
  split at hu
  · rename_i hready
    rw [if_pos hready]
    obtain ⟨hmasks, hinit, hwait⟩ := h u (by simpa using hu)
    refine ⟨?_, ?_, fun o hmem => hwait o ?_⟩
    · by_cases hut : u = t
      · subst hut
        rw [insert_thread_self, update_thread_self]
        exact ⟨rfl, rfl, rfl⟩
      · rw [insert_thread_of_ne hut, update_thread_of_ne hut, remove_thread_thread]
        exact hmasks
    · by_cases hut : u = t
      · subst hut
        simp
      · rwa [insert_thread_of_ne hut, update_thread_of_ne hut, remove_thread_thread]
    · rw [insert_thread_queue, if_neg (by simp), update_thread_queue, remove_thread_queue] at hmem
      exact mem_of_mem_erase hmem
  · rename_i hready
    rw [if_neg hready]
    obtain ⟨hmasks, hinit, hwait⟩ := h u hu
    refine ⟨?_, ?_, hwait⟩
    · by_cases hut : u = t
      · rw [hut, update_thread_self]
        exact with_priority_masks _ p
      · rwa [update_thread_of_ne hut]
    · by_cases hut : u = t
      · subst hut
        rw [update_thread_self]
        exact hinit
      · rwa [update_thread_of_ne hut]

end

end FullhanRtos.Sched
