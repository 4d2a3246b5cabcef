import FullhanRtos.Ipc.Mutex

/-!
# Priorities of mutex owners

A mutex stores the priority that its owner had when it took the mutex, and gives it back on the last
release. `restored_iff` says when this brings a thread without a mutex back to its initial priority,
and `no_inversion_iff` when no waiter has a smaller priority value than the owner. Both compare
whole runs: the property holds in every state exactly if every step meets a condition on the state
before it.
-/

namespace FullhanRtos.Ipc

open Sched Transition List Option

set_option linter.unusedSectionVars false

variable {τ μ ι : Type} [DecidableEq τ] [DecidableEq μ] [DecidableEq ι] {k : Kernel τ (Obj μ ι)}
  {op : Op τ μ ι}

/-! ## Threads without a mutex -/

/-- A thread that owns no mutex has its initial priority. -/
def PrioritiesRestored (s : Sys τ μ ι) : Prop :=
  ∀ t, (∀ m, (s.mutex m).owner ≠ some t) →
    (s.kernel.thread t).currentPriority = (s.kernel.thread t).initPriority

/-- When a thread gives up its last mutex, that mutex stores its initial priority. -/
def LastReleaseRestores (s : Sys τ μ ι) : Op τ μ ι → Prop
  | .release m => ∀ t, s.caller = some t → (s.mutex m).owner = some t → (s.mutex m).hold = 1 →
      (∀ m', m' ≠ m → (s.mutex m').owner ≠ some t) →
      (s.mutex m).originalPriority = (s.kernel.thread t).initPriority
  | _ => True

section

variable {s s' : Sys τ μ ι} {t : τ} {m : μ} {time : WaitTime} {r : Outcome}

theorem kernel_step_restored {op : KernelOp τ (Obj μ ι)}
    (hop : Op.KeepsPriorities (.kernel op : Op τ μ ι)) (h : MutexInv s)
    (hgood : PrioritiesRestored s) (hrun : kernelStep s.kernel op = some k) :
    PrioritiesRestored { s with kernel := k } := by
  intro t hnone
  cases kernel_step_cases h.kernel.consistent hrun with
  | calm _ _ hcalm =>
    rw [hcalm.prio, hcalm.initPrio]
    exact hgood t hnone
  | starts _ _ u hstarts =>
    by_cases htu : t = u
    · rw [htu]
      exact hstarts.prio
    · rw [(hstarts.other t htu).1, (hstarts.other t htu).2]
      exact hgood t hnone
  | changes u p hchanged => exact hop.elim
  | blocks o flag timed u hblocked =>
    rw [hblocked.prio, hblocked.initPrio]
    exact hgood t hnone

theorem take_restored (h : MutexInv s) (hcaller : s.caller = some t) (hgood : PrioritiesRestored s)
    (hrun : rtMutexTake s t m time = some (r, s')) : PrioritiesRestored s' := by
  intro u hnone
  cases take_cases hrun with
  | again howner =>
    rw [with_mutex_kernel, with_error_thread]
    refine hgood u fun m' hm' => hnone m' ?_
    by_cases hm : m' = m
    · subst hm
      rw [with_mutex_self]
      exact hm'
    · rw [with_mutex_of_ne hm]
      exact hm'
  | acquires howner hvalue =>
    rw [with_mutex_kernel, with_error_thread]
    refine hgood u fun m' hm' => hnone m' ?_
    by_cases hm : m' = m
    · subst hm
      rw [(h.mutex m').owner_of_pos hvalue] at hm'
      cases hm'
    · rw [with_mutex_of_ne hm]
      exact hm'
  | refused e howner hvalue hno =>
    rw [with_error_thread]
    exact hgood u hnone
  | blocks o k howner hne hvalue htime hblock =>
    have hlends := take_lends h.kernel hne (caller_eq_some.mp hcaller).1 hblock
    -- Only the owner gets another priority, and it has a mutex.
    have huo : u ≠ o := fun heq => hnone m (heq ▸ howner)
    show (k.thread u).currentPriority = (k.thread u).initPriority
    rw [hlends.prio, hlends.initPrio, if_neg fun hand => huo hand.1]
    exact hgood u hnone

/-- The last release of a mutex by `t`, to a waiter or to nobody. -/
structure Finished (s s' : Sys τ μ ι) (t : τ) (m : μ) : Prop where
  owned : (s.mutex m).owner = some t
  hold : (s.mutex m).hold = 1
  owner : (s'.mutex m).owner ≠ some t
  other : ∀ m', m' ≠ m → s'.mutex m' = s.mutex m'
  prio : ∀ u, (s'.kernel.thread u).currentPriority =
    if u = t then (s.mutex m).originalPriority else (s.kernel.thread u).currentPriority
  initPrio : ∀ u, (s'.kernel.thread u).initPriority = (s.kernel.thread u).initPriority

theorem release_finished (h : MutexInv s) (hcaller : s.caller = some t)
    (hrun : rtMutexRelease s t m = some (r, s')) :
    Finished s s' t m ∨ ((s.mutex m).owner = some t → (s.mutex m).hold ≠ 1) ∧
      (∀ m', (s'.mutex m').owner = (s.mutex m').owner) ∧
      (∀ u, (s'.kernel.thread u).currentPriority = (s.kernel.thread u).currentPriority ∧
        (s'.kernel.thread u).initPriority = (s.kernel.thread u).initPriority) ∧
      s'.kernel.queue = s.kernel.queue := by
  have hlt := (h.mutex m).hold
  cases release_cases h.kernel hrun with
  | refused howner =>
    refine .inr ⟨fun heq => absurd heq howner, fun m' => rfl, fun u => ?_, rfl⟩
    rw [with_error_thread]
    exact ⟨rfl, rfl⟩
  | keeps howner hhold =>
    refine .inr ⟨fun _ => by omega, fun m' => ?_, fun u => ⟨rfl, rfl⟩, rfl⟩
    by_cases hm : m' = m
    · subst hm
      rw [with_mutex_self]
    · rw [with_mutex_of_ne hm]
  | passes w rest k howner hhold hlist hpass =>
    have hpassed := schedule_passed h.kernel (caller_eq_some.mp hcaller).2 hlist hpass
    refine .inl ⟨howner, by omega, ?_, fun m' hm => with_mutex_of_ne hm, hpassed.prio,
      hpassed.initPrio⟩
    rw [with_mutex_self]
    exact fun heq => hpassed.ne (some.inj heq)
  | frees howner hhold hlist =>
    have hrestored := restore_priority_changed h.kernel.consistent t (s.mutex m).originalPriority
    refine .inl ⟨howner, by omega, ?_, fun m' hm => with_mutex_of_ne hm, fun u => ?_,
      hrestored.initPrio⟩
    · rw [with_mutex_self]
      exact fun heq => by cases heq
    · split
      · rename_i hu
        rw [hu]
        exact hrestored.prio
      · rename_i hu
        exact hrestored.other u hu

theorem release_restored_iff (h : MutexInv s) (hcaller : s.caller = some t)
    (hgood : PrioritiesRestored s) (hrun : rtMutexRelease s t m = some (r, s')) :
    PrioritiesRestored s' ↔ LastReleaseRestores s (.release m : Op τ μ ι) := by
  rcases release_finished h hcaller hrun with hfinished | ⟨hnot, howner, hprio, -⟩
  · constructor
    · intro hrestored t' hcaller' howner _ hother
      obtain rfl : t = t' := some.inj (hcaller.symm.trans hcaller')
      have hnone : ∀ m', (s'.mutex m').owner ≠ some t := fun m' => by
        by_cases hm : m' = m
        · rw [hm]
          exact hfinished.owner
        · rw [hfinished.other m' hm]
          exact hother m' hm
      have heq := hrestored t hnone
      rwa [hfinished.prio, if_pos rfl, hfinished.initPrio] at heq
    · intro hlast u hnone
      rw [hfinished.prio, hfinished.initPrio]
      split
      · rename_i hu
        subst hu
        refine hlast u hcaller hfinished.owned hfinished.hold fun m' hm => ?_
        rw [← hfinished.other m' hm]
        exact hnone m'
      · rename_i hu
        refine hgood u fun m' hm' => ?_
        by_cases hm : m' = m
        · rw [hm, hfinished.owned] at hm'
          exact hu (some.inj hm').symm
        · rw [← hfinished.other m' hm] at hm'
          exact hnone m' hm'
  · refine ⟨fun _ t' hcaller' howner' hhold => ?_, fun _ u hnone => ?_⟩
    · obtain rfl : t = t' := some.inj (hcaller.symm.trans hcaller')
      exact absurd hhold (hnot howner')
    · rw [(hprio u).1, (hprio u).2]
      exact hgood u fun m' => howner m' ▸ hnone m'

theorem step_restored_iff (hop : op.Proper ∧ op.KeepsPriorities) (h : MutexInv s)
    (hgood : PrioritiesRestored s) (hrun : step s op = some s') :
    MutexInv s' ∧ (PrioritiesRestored s' ↔ LastReleaseRestores s op) := by
  refine ⟨mutex_step_inv hop.1 h hrun, ?_⟩
  cases op with
  | kernel op =>
    obtain ⟨k, hk, rfl⟩ := map_eq_some_iff.mp hrun
    exact ⟨fun _ => trivial, fun _ => kernel_step_restored hop.2 h hgood hk⟩
  | take m time =>
    obtain ⟨t, hcaller, hrun⟩ := bind_eq_some_iff.mp hrun
    obtain ⟨⟨r, s1⟩, htake, rfl⟩ := map_eq_some_iff.mp hrun
    exact ⟨fun _ => trivial, fun _ => take_restored h hcaller hgood htake⟩
  | release m =>
    obtain ⟨t, hcaller, hrun⟩ := bind_eq_some_iff.mp hrun
    obtain ⟨⟨r, s1⟩, hrelease, rfl⟩ := map_eq_some_iff.mp hrun
    exact release_restored_iff h hcaller hgood hrelease

end

/-- In a run without explicit changes of a priority, a thread without a mutex always has its initial
priority exactly if the last mutex that a thread gives up always stores that priority. -/
theorem restored_iff {ops : List (Op τ μ ι)} {s : Sys τ μ ι}
    (hops : ∀ op ∈ ops, op.Proper ∧ op.KeepsPriorities) (hrun : exec step start ops = some s) :
    Always step PrioritiesRestored start ops ↔ AllSteps step LastReleaseRestores start ops :=
  always_iff (fun _ _ _ hop h hgood hstep => step_restored_iff hop h hgood hstep) hops
    mutex_inv_start (fun _ _ => rfl) hrun

/-- Thread 0 is the idle thread; thread 1 of priority 10 has taken mutex 0, and thread 2 of priority
5 waits for it. -/
def inheritOps : List (Op (Fin 3) (Fin 2) Unit) :=
  [.kernel (.init 0 255 none true false), .kernel (.init 1 10 none true false),
   .kernel (.init 2 5 none true false), .kernel (.startup 0), .kernel (.startup 1),
   .kernel .schedule, .take 0 .no, .kernel (.startup 2), .take 0 .forever]

/-- Thread 1 takes mutex 1 with the priority that it was lent, gives mutex 0 to thread 2, and gives
up mutex 1 while thread 2 sleeps. -/
def crossedOps : List (Op (Fin 3) (Fin 2) Unit) :=
  inheritOps ++ [.take 1 .no, .release 0, .kernel .sleep, .release 1]

/-- The same with the mutexes given up in the opposite order. -/
def nestedOps : List (Op (Fin 3) (Fin 2) Unit) :=
  inheritOps ++ [.take 1 .no, .release 1, .release 0, .kernel .sleep, .kernel (.timeout 2),
    .release 0]

instance [Fintype τ] [Fintype μ] (s : Sys τ μ ι) (op : Op τ μ ι) :
    Decidable (LastReleaseRestores s op) :=
  match op with
  | .release m => inferInstanceAs (Decidable (∀ t, s.caller = some t →
      (s.mutex m).owner = some t → (s.mutex m).hold = 1 →
      (∀ m', m' ≠ m → (s.mutex m').owner ≠ some t) →
      (s.mutex m).originalPriority = (s.kernel.thread t).initPriority))
  | .kernel _ | .take _ _ => inferInstanceAs (Decidable True)

theorem nested_ops_restored : ∃ s, exec step start nestedOps = some s ∧
    Always step PrioritiesRestored start nestedOps := by
  have hrun : (exec step start nestedOps).isSome = true := by decide +kernel
  obtain ⟨s, hs⟩ := isSome_iff_exists.mp hrun
  refine ⟨s, hs, (restored_iff ?_ hs).mpr (by decide +kernel)⟩
  simp [nestedOps, inheritOps, Op.Proper, Op.KeepsPriorities, ForeignTo]

/-- After `crossedOps` thread 1 owns no mutex and keeps the priority 5. -/
theorem crossed_ops_not_restored :
    (∀ op ∈ crossedOps, op.Proper ∧ op.KeepsPriorities) ∧
      ∃ s, exec step start crossedOps = some s ∧ ¬ PrioritiesRestored s := by
  refine ⟨by simp [crossedOps, inheritOps, Op.Proper, Op.KeepsPriorities, ForeignTo], ?_⟩
  have hend : (exec step start crossedOps).any (fun s =>
      decide ((∀ m, (s.mutex m).owner ≠ some 1) ∧ (s.kernel.thread 1).currentPriority = 5 ∧
        (s.kernel.thread 1).initPriority = 10)) = true := by decide +kernel
  obtain ⟨s, hs, hlost⟩ := (Option.any_eq_true _ _).mp hend
  obtain ⟨hnone, hprio, hinit⟩ := of_decide_eq_true hlost
  refine ⟨s, hs, fun hrestored => ?_⟩
  have heq := hrestored 1 hnone
  rw [hprio, hinit] at heq
  cases heq

/-! ## Owners and waiters -/

/-- The owner of a mutex has at most the priority value of every waiter. -/
def NoInversion (s : Sys τ μ ι) : Prop :=
  ∀ m o, (s.mutex m).owner = some o → ∀ w ∈ s.kernel.queue (.wait (.mutex m)),
    (s.kernel.thread o).currentPriority ≤ (s.kernel.thread w).currentPriority

/-- The priority that `t` gets back for `m` suits the waiters of its other mutexes. -/
def RestoreSuits (s : Sys τ μ ι) (t : τ) (m : μ) : Prop :=
  ∀ m', m' ≠ m → (s.mutex m').owner = some t → ∀ w ∈ s.kernel.queue (.wait (.mutex m')),
    (s.mutex m).originalPriority ≤ (s.kernel.thread w).currentPriority

/-- The first waiter has the smallest priority. -/
def FirstIsLeast (s : Sys τ μ ι) (m : μ) : Prop :=
  ∀ first, (s.kernel.queue (.wait (.mutex m))).head? = some first →
    ∀ w ∈ s.kernel.queue (.wait (.mutex m)),
      (s.kernel.thread first).currentPriority ≤ (s.kernel.thread w).currentPriority

/-- An owner that is lent a priority does not itself wait for an owner with a larger one. The last
release of a mutex restores a priority that suits the waiters of the other mutexes of the thread,
and its first waiter has the smallest priority. -/
def LoansReachOwners (s : Sys τ μ ι) : Op τ μ ι → Prop
  | .take m time => ∀ t o, s.caller = some t → (s.mutex m).owner = some o → o ≠ t → time ≠ .no →
      (s.kernel.thread t).currentPriority < (s.kernel.thread o).currentPriority →
      ∀ m' o', o ∈ s.kernel.queue (.wait (.mutex m')) → (s.mutex m').owner = some o' →
        (s.kernel.thread o').currentPriority ≤ (s.kernel.thread t).currentPriority
  | .release m => ∀ t, s.caller = some t → (s.mutex m).owner = some t → (s.mutex m).hold = 1 →
      RestoreSuits s t m ∧ FirstIsLeast s m
  | .kernel _ => True

/-- No explicit change of a priority, and no thread ends. -/
def Op.TakesAndReleases : Op τ μ ι → Prop
  | .kernel op => ForeignTo μ op ∧ op.EndsNone ∧ Op.KeepsPriorities (.kernel op : Op τ μ ι)
  | _ => True

/-- The invariant for owners: they are alive. -/
structure OwnersInv (s : Sys τ μ ι) : Prop extends MutexInv s where
  alive : ∀ m o, (s.mutex m).owner = some o → Alive s.kernel o

section

variable {s s' : Sys τ μ ι} {t : τ} {m : μ} {time : WaitTime} {r : Outcome}

theorem alive_of_stat (h : (k.thread t).stat = .ready ∨ (k.thread t).stat = .suspend) :
    Alive k t := by
  unfold Alive
  rcases h with h | h
  · simp [h]
  · simp [h]

theorem take_alive (h : OwnersInv s) (hcaller : s.caller = some t)
    (hrun : rtMutexTake s t m time = some (r, s')) :
    ∀ m o, (s'.mutex m).owner = some o → Alive s'.kernel o := by
  obtain ⟨hcurrent, hready⟩ := caller_eq_some.mp hcaller
  intro m' o ho
  have herror : ∀ e u, Alive s.kernel u → Alive (s.withError t e).kernel u := fun e u hu => by
    unfold Alive at hu ⊢
    rwa [with_error_thread]
  cases take_cases hrun with
  | again howner =>
    refine herror _ o (h.alive m' o ?_)
    by_cases hm : m' = m
    · subst hm
      rwa [with_mutex_self] at ho
    · rwa [with_mutex_of_ne hm] at ho
  | acquires howner hvalue =>
    refine herror _ o ?_
    by_cases hm : m' = m
    · subst hm
      rw [with_mutex_self] at ho
      cases ho
      exact alive_of_stat (.inl hready)
    · rw [with_mutex_of_ne hm] at ho
      exact h.alive m' o ho
  | refused e howner hvalue hno => exact herror _ o (h.alive m' o ho)
  | blocks o' k howner hne hvalue htime hblock =>
    have hlends := take_lends h.kernel hne hcurrent hblock
    show Alive k o
    by_cases hot : o = t
    · exact alive_of_stat (.inr (hot ▸ hlends.stat))
    · have halive := h.alive m' o ho
      unfold Alive at halive ⊢
      rwa [(hlends.other o hot).1]

theorem release_alive (h : OwnersInv s) (hcaller : s.caller = some t)
    (hrun : rtMutexRelease s t m = some (r, s')) :
    ∀ m o, (s'.mutex m).owner = some o → Alive s'.kernel o := by
  obtain ⟨hcurrent, hready⟩ := caller_eq_some.mp hcaller
  intro m' o ho
  cases release_cases h.kernel hrun with
  | refused howner =>
    have halive := h.alive m' o ho
    unfold Alive at halive ⊢
    rwa [with_error_thread]
  | keeps howner hhold =>
    refine h.alive m' o ?_
    by_cases hm : m' = m
    · subst hm
      rwa [with_mutex_self] at ho
    · rwa [with_mutex_of_ne hm] at ho
  | passes w rest k howner hhold hlist hpass =>
    have hpassed := schedule_passed h.kernel hready hlist hpass
    show Alive k o
    by_cases how : o = w
    · exact alive_of_stat (.inl (how ▸ hpassed.stat))
    · have halive : Alive s.kernel o := by
        by_cases hm : m' = m
        · subst hm
          rw [with_mutex_self] at ho
          exact absurd (some.inj ho).symm how
        · rw [with_mutex_of_ne hm] at ho
          exact h.alive m' o ho
      unfold Alive at halive ⊢
      rwa [hpassed.other o how]
  | frees howner hhold hlist =>
    have hrestored := restore_priority_changed h.kernel.consistent t (s.mutex m).originalPriority
    refine hrestored.lively o ?_
    by_cases hm : m' = m
    · subst hm
      rw [with_mutex_self] at ho
      cases ho
    · rw [with_mutex_of_ne hm] at ho
      exact h.alive m' o ho

theorem owners_step_inv (hop : op.TakesAndReleases) (h : OwnersInv s) (hrun : step s op = some s') :
    OwnersInv s' := by
  have hproper : op.Proper := by
    cases op with
    | kernel op => exact hop.1
    | take m time => trivial
    | release m => trivial
  refine ⟨mutex_step_inv hproper h.toMutexInv hrun, ?_⟩
  cases op with
  | kernel op =>
    obtain ⟨k, hk, rfl⟩ := map_eq_some_iff.mp hrun
    exact fun m o ho => kernel_step_lively hop.2.1 h.kernel.consistent hk o (h.alive m o ho)
  | take m time =>
    obtain ⟨t, hcaller, hrun⟩ := bind_eq_some_iff.mp hrun
    obtain ⟨⟨r, s1⟩, htake, rfl⟩ := map_eq_some_iff.mp hrun
    exact take_alive h hcaller htake
  | release m =>
    obtain ⟨t, hcaller, hrun⟩ := bind_eq_some_iff.mp hrun
    obtain ⟨⟨r, s1⟩, hrelease, rfl⟩ := map_eq_some_iff.mp hrun
    exact release_alive h hcaller hrelease

theorem kernel_step_no_inversion {op : KernelOp τ (Obj μ ι)}
    (hop : Op.TakesAndReleases (.kernel op : Op τ μ ι)) (h : OwnersInv s) (hgood : NoInversion s)
    (hrun : kernelStep s.kernel op = some k) : NoInversion { s with kernel := k } := by
  intro m o howner w hw
  have hw := (kernel_step_waiters hop.1 h.kernel.consistent hrun m).subset hw
  cases kernel_step_cases h.kernel.consistent hrun with
  | calm _ _ hcalm =>
    rw [hcalm.prio, hcalm.prio]
    exact hgood m o howner w hw
  | starts _ _ u hstarts =>
    have hou : o ≠ u := fun heq => hstarts.fresh (heq ▸ h.alive m o howner)
    have hwu : w ≠ u := fun heq => hstarts.waits (.mutex m) (heq ▸ hw)
    rw [(hstarts.other o hou).1, (hstarts.other w hwu).1]
    exact hgood m o howner w hw
  | changes u p hchanged => exact hop.2.2.elim
  | blocks object flag timed u hblocked =>
    rw [hblocked.prio, hblocked.prio]
    exact hgood m o howner w hw

theorem Lends.owner_prio_le {k k' : Kernel τ (Obj μ ι)} {o : τ} (h : Lends k k' t o m) :
    (k'.thread o).currentPriority ≤ (k.thread o).currentPriority ∧
      (k'.thread o).currentPriority ≤ (k.thread t).currentPriority := by
  rw [h.prio]
  split
  · rename_i hlt
    exact ⟨hlt.2.le, le_rfl⟩
  · rename_i hlt
    exact ⟨le_rfl, not_lt.mp fun hlt' => hlt ⟨rfl, hlt'⟩⟩

theorem Lends.other_prio {k k' : Kernel τ (Obj μ ι)} {o u : τ} (h : Lends k k' t o m)
    (hu : u ≠ o) : (k'.thread u).currentPriority = (k.thread u).currentPriority := by
  rw [h.prio, if_neg fun hand => hu hand.1]

theorem blocks_no_inversion_iff {o : τ} (h : OwnersInv s) (howner : (s.mutex m).owner = some o)
    (hne : o ≠ t) (hgood : NoInversion s) (hlends : Lends s.kernel k t o m) :
    NoInversion { s with kernel := k } ↔
      ((s.kernel.thread t).currentPriority < (s.kernel.thread o).currentPriority →
        ∀ m' o', o ∈ s.kernel.queue (.wait (.mutex m')) → (s.mutex m').owner = some o' →
          (s.kernel.thread o').currentPriority ≤ (s.kernel.thread t).currentPriority) := by
  have hnot : ∀ m' o', (s.mutex m').owner = some o' → o' ∉ s.kernel.queue (.wait (.mutex m')) :=
    fun m' o' ho' => ((h.mutex m').taken o' ho').2
  constructor
  · intro hnew hlt m' o' hmem ho'
    have ho'o : o' ≠ o := fun heq => hnot m' o' ho' (heq ▸ hmem)
    have hle := hnew m' o' ho' o (hlends.waiting.mpr (.inr hmem))
    have hlent : (k.thread o).currentPriority = (s.kernel.thread t).currentPriority := by
      rw [hlends.prio, if_pos ⟨rfl, hlt⟩]
    rwa [hlends.other_prio ho'o, hlent] at hle
  · intro hcond m' o' ho' w hw
    show (k.thread o').currentPriority ≤ (k.thread w).currentPriority
    rcases hlends.waiting.mp hw with ⟨rfl, rfl⟩ | hw
    · -- The new waiter itself.
      obtain rfl : o = o' := some.inj (howner.symm.trans ho')
      rw [hlends.other_prio hne.symm]
      exact hlends.owner_prio_le.2
    · by_cases hwo : w = o
      · subst hwo
        have ho'w : o' ≠ w := fun heq => hnot m' o' ho' (heq ▸ hw)
        rw [hlends.other_prio ho'w, hlends.prio]
        split
        · rename_i hlt
          exact hcond hlt.2 m' o' hw ho'
        · exact hgood m' o' ho' w hw
      · rw [hlends.other_prio hwo]
        refine le_trans ?_ (hgood m' o' ho' w hw)
        by_cases ho'o : o' = o
        · rw [ho'o]
          exact hlends.owner_prio_le.1
        · rw [hlends.other_prio ho'o]

theorem take_no_inversion_iff (h : OwnersInv s) (hcaller : s.caller = some t)
    (hgood : NoInversion s) (hrun : rtMutexTake s t m time = some (r, s')) :
    NoInversion s' ↔ LoansReachOwners s (.take m time : Op τ μ ι) := by
  obtain ⟨hcurrent, hready⟩ := caller_eq_some.mp hcaller
  cases take_cases hrun with
  | again howner =>
    refine ⟨fun _ t' o ht' ho hne => ?_, fun _ m' o ho w hw => ?_⟩
    · obtain rfl : t = t' := some.inj (hcaller.symm.trans ht')
      exact absurd (some.inj (ho.symm.trans howner)) hne
    · simp only [with_mutex_kernel, with_error_thread]
      refine hgood m' o ?_ w hw
      by_cases hm : m' = m
      · subst hm
        rwa [with_mutex_self] at ho
      · rwa [with_mutex_of_ne hm] at ho
  | acquires howner hvalue =>
    have hnone := (h.mutex m).owner_of_pos hvalue
    refine ⟨fun _ t' o ht' ho => ?_, fun _ m' o ho w hw => ?_⟩
    · rw [hnone] at ho
      cases ho
    · simp only [with_mutex_kernel, with_error_thread]
      by_cases hm : m' = m
      · subst hm
        rw [with_mutex_kernel, with_error_queue, ((h.mutex m').free hnone).2] at hw
        cases hw
      · rw [with_mutex_of_ne hm] at ho
        exact hgood m' o ho w hw
  | refused e howner hvalue hno =>
    refine ⟨fun _ t' o ht' ho hne htime => ?_, fun _ m' o ho w hw => ?_⟩
    · rcases hno with hno | hno
      · exact absurd hno htime
      · rw [hno] at ho
        cases ho
    · simp only [with_error_thread]
      exact hgood m' o ho w hw
  | blocks o k howner hne hvalue htime hblock =>
    have hlends := take_lends h.kernel hne hcurrent hblock
    refine (blocks_no_inversion_iff h howner hne hgood hlends).trans ⟨fun hcond => ?_, ?_⟩
    · intro t' o' ht' ho' _ _
      obtain rfl : t = t' := some.inj (hcaller.symm.trans ht')
      obtain rfl : o = o' := some.inj (howner.symm.trans ho')
      exact hcond
    · exact fun hcond => hcond t o hcaller howner hne htime

theorem finished_no_inversion_iff (h : OwnersInv s) (hcaller : s.caller = some t)
    (hgood : NoInversion s) (hfinished : Finished s s' t m)
    (hother : ∀ m', m' ≠ m → s'.kernel.queue (.wait (.mutex m')) =
      s.kernel.queue (.wait (.mutex m')))
    (hlist : s'.kernel.queue (.wait (.mutex m)) = (s.kernel.queue (.wait (.mutex m))).tail)
    (howner : (s'.mutex m).owner = (s.kernel.queue (.wait (.mutex m))).head?) :
    NoInversion s' ↔ LoansReachOwners s (.release m : Op τ μ ι) := by
  have hnot : ∀ m', t ∉ s.kernel.queue (.wait (.mutex m')) := fun m' =>
    h.kernel.consistent.not_waiting (caller_eq_some.mp hcaller).2 _
  have hwaiter : ∀ m', ∀ w ∈ s.kernel.queue (.wait (.mutex m')),
      (s'.kernel.thread w).currentPriority = (s.kernel.thread w).currentPriority :=
        fun m' w hw => by
    rw [hfinished.prio, if_neg fun heq : w = t => hnot m' (heq ▸ hw)]
  constructor
  · intro hnew t' ht' _ _
    obtain rfl : t = t' := some.inj (hcaller.symm.trans ht')
    refine ⟨fun m' hm ho w hw => ?_, fun first hfirst w hw => ?_⟩
    · have hle := hnew m' t (by rwa [hfinished.other m' hm]) w (by rwa [hother m' hm])
      rwa [hfinished.prio t, if_pos rfl, hwaiter m' w hw] at hle
    · cases hqueue : s.kernel.queue (.wait (.mutex m)) with
      | nil =>
        rw [hqueue] at hw
        cases hw
      | cons v rest =>
        rw [hqueue] at hfirst howner hlist hw
        cases hfirst
        rcases mem_cons.mp hw with rfl | hrest
        · exact le_rfl
        · have hmem : ∀ u, u ∈ first :: rest → u ∈ s.kernel.queue (.wait (.mutex m)) :=
            fun u hu => hqueue ▸ hu
          have hle := hnew m first howner w (by rw [hlist]; exact hrest)
          rwa [hwaiter m first (hmem first mem_cons_self), hwaiter m w (hmem w hw)] at hle
  · intro hcond m' o ho w hw
    obtain ⟨hothers, hfirst⟩ := hcond t hcaller hfinished.owned hfinished.hold
    by_cases hm : m' = m
    · subst hm
      rw [howner] at ho
      have hw : w ∈ s.kernel.queue (.wait (.mutex m')) := mem_of_mem_tail (hlist ▸ hw)
      rw [hwaiter m' o (mem_of_mem_head? ho), hwaiter m' w hw]
      exact hfirst o ho w hw
    · rw [hfinished.other m' hm] at ho
      rw [hother m' hm] at hw
      rw [hwaiter m' w hw, hfinished.prio]
      split
      · rename_i hot
        exact hothers m' hm (hot ▸ ho) w hw
      · exact hgood m' o ho w hw

theorem release_no_inversion_iff (h : OwnersInv s) (hcaller : s.caller = some t)
    (hgood : NoInversion s) (hrun : rtMutexRelease s t m = some (r, s')) :
    NoInversion s' ↔ LoansReachOwners s (.release m : Op τ μ ι) := by
  rcases release_finished h.toMutexInv hcaller hrun with hfinished | ⟨hnot, howner, hprio, hqueue⟩
  · have hone := hfinished.hold
    cases release_cases h.kernel hrun with
    | refused howner => exact absurd hfinished.owned howner
    | keeps howner hhold => exact absurd (by omega) hhold
    | passes w rest k howner hhold hlist hpass =>
      have hpassed := schedule_passed h.kernel (caller_eq_some.mp hcaller).2 hlist hpass
      have hmem : w ∈ s.kernel.queue (.wait (.mutex m)) := hlist ▸ mem_cons_self
      refine finished_no_inversion_iff h hcaller hgood hfinished (fun m' hm => ?_) ?_ ?_
      · rw [with_mutex_kernel, hpassed.wait]
        exact h.kernel.consistent.erase_waiter hmem fun heq => hm (Obj.mutex.inj heq)
      · rw [with_mutex_kernel, hpassed.wait, hlist, erase_cons_head, tail_cons]
      · rw [with_mutex_self, hlist, head?_cons]
    | frees howner hhold hlist =>
      have hrestored := restore_priority_changed h.kernel.consistent t
        (s.mutex m).originalPriority
      refine finished_no_inversion_iff h hcaller hgood hfinished (fun m' hm => ?_) ?_ ?_
      · rw [with_mutex_kernel, hrestored.wait]
      · rw [with_mutex_kernel, hrestored.wait, hlist, tail_nil]
      · rw [with_mutex_self, hlist, head?_nil]
  · refine ⟨fun _ t' ht' ho hhold => ?_, fun _ m' o ho w hw => ?_⟩
    · obtain rfl : t = t' := some.inj (hcaller.symm.trans ht')
      exact absurd hhold (hnot ho)
    · rw [(hprio o).1, (hprio w).1]
      rw [hqueue] at hw
      exact hgood m' o (by rw [← howner]; exact ho) w hw

theorem step_no_inversion_iff (hop : op.TakesAndReleases) (h : OwnersInv s) (hgood : NoInversion s)
    (hrun : step s op = some s') :
    OwnersInv s' ∧ (NoInversion s' ↔ LoansReachOwners s op) := by
  refine ⟨owners_step_inv hop h hrun, ?_⟩
  cases op with
  | kernel op =>
    obtain ⟨k, hk, rfl⟩ := map_eq_some_iff.mp hrun
    exact ⟨fun _ => trivial, fun _ => kernel_step_no_inversion hop h hgood hk⟩
  | take m time =>
    obtain ⟨t, hcaller, hrun⟩ := bind_eq_some_iff.mp hrun
    obtain ⟨⟨r, s1⟩, htake, rfl⟩ := map_eq_some_iff.mp hrun
    exact take_no_inversion_iff h hcaller hgood htake
  | release m =>
    obtain ⟨t, hcaller, hrun⟩ := bind_eq_some_iff.mp hrun
    obtain ⟨⟨r, s1⟩, hrelease, rfl⟩ := map_eq_some_iff.mp hrun
    exact release_no_inversion_iff h hcaller hgood hrelease

theorem owners_inv_start : OwnersInv (start : Sys τ μ ι) :=
  ⟨mutex_inv_start, fun _ _ ho => by cases ho⟩

theorem no_inversion_start : NoInversion (start : Sys τ μ ι) := fun _ _ ho => by cases ho

end

/-- In a run of takes and releases no priority inversion is ever left exactly if every loan reaches
an owner that can use it and every last release restores a priority that suits the waiters. -/
theorem no_inversion_iff {ops : List (Op τ μ ι)} {s : Sys τ μ ι}
    (hops : ∀ op ∈ ops, op.TakesAndReleases) (hrun : exec step start ops = some s) :
    Always step NoInversion start ops ↔ AllSteps step LoansReachOwners start ops :=
  always_iff (fun _ _ _ hop h hgood hstep => step_no_inversion_iff hop h hgood hstep) hops
    owners_inv_start no_inversion_start hrun

instance [Fintype μ] (s : Sys τ μ ι) (t : τ) (m : μ) : Decidable (RestoreSuits s t m) := by
  unfold RestoreSuits
  infer_instance

instance [Fintype τ] (s : Sys τ μ ι) (m : μ) : Decidable (FirstIsLeast s m) := by
  unfold FirstIsLeast
  infer_instance

instance [Fintype τ] [Fintype μ] (s : Sys τ μ ι) (op : Op τ μ ι) :
    Decidable (LoansReachOwners s op) :=
  match op with
  | .take m time => inferInstanceAs (Decidable (∀ t o, s.caller = some t →
      (s.mutex m).owner = some o → o ≠ t → time ≠ .no →
      (s.kernel.thread t).currentPriority < (s.kernel.thread o).currentPriority →
      ∀ m' o', o ∈ s.kernel.queue (.wait (.mutex m')) → (s.mutex m').owner = some o' →
        (s.kernel.thread o').currentPriority ≤ (s.kernel.thread t).currentPriority))
  | .release m => inferInstanceAs (Decidable (∀ t, s.caller = some t →
      (s.mutex m).owner = some t → (s.mutex m).hold = 1 →
      RestoreSuits s t m ∧ FirstIsLeast s m))
  | .kernel _ => inferInstanceAs (Decidable True)

theorem nested_ops_no_inversion : ∃ s, exec step start nestedOps = some s ∧
    Always step NoInversion start nestedOps := by
  have hrun : (exec step start nestedOps).isSome = true := by decide +kernel
  obtain ⟨s, hs⟩ := isSome_iff_exists.mp hrun
  refine ⟨s, hs, (no_inversion_iff ?_ hs).mpr (by decide +kernel)⟩
  simp [nestedOps, inheritOps, Op.TakesAndReleases, Op.KeepsPriorities, KernelOp.EndsNone,
    ForeignTo]

/-- Thread 3 of priority 5 waits for a mutex of thread 2, which waits for a mutex of thread 1. -/
def chainedOps : List (Op (Fin 4) (Fin 2) Unit) :=
  [.kernel (.init 0 255 none true false), .kernel (.init 1 20 none true false),
   .kernel (.init 2 10 none true false), .kernel (.init 3 5 none true false),
   .kernel (.startup 0), .kernel .schedule, .kernel (.startup 1), .take 0 .no,
   .kernel (.startup 2), .take 1 .no, .take 0 .forever, .kernel (.startup 3), .take 1 .forever]

/-- After `chainedOps` thread 2, with the priority 5, waits for thread 1, which has the priority
10. -/
theorem chained_ops_inversion :
    (∀ op ∈ chainedOps, op.TakesAndReleases) ∧
      ∃ s, exec step start chainedOps = some s ∧ ¬ NoInversion s := by
  refine ⟨by simp [chainedOps, Op.TakesAndReleases, Op.KeepsPriorities, KernelOp.EndsNone,
    ForeignTo], ?_⟩
  have hend : (exec step start chainedOps).any (fun s =>
      decide ((s.mutex 0).owner = some 1 ∧ 2 ∈ s.kernel.queue (.wait (.mutex 0)) ∧
        (s.kernel.thread 1).currentPriority = 10 ∧ (s.kernel.thread 2).currentPriority = 5)) =
      true := by
    decide +kernel
  obtain ⟨s, hs, hlost⟩ := (Option.any_eq_true _ _).mp hend
  obtain ⟨howner, hwaits, hprio, hprio'⟩ := of_decide_eq_true hlost
  refine ⟨s, hs, fun hgood => ?_⟩
  have hle := hgood 0 1 howner 2 hwaits
  rw [hprio, hprio'] at hle
  exact absurd hle (by decide)

end FullhanRtos.Ipc
