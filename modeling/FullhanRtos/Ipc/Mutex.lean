import FullhanRtos.Sched.Effects

/-!
# Mutexes

`rt_mutex_take` and `rt_mutex_release` of `kernel/src/ipc.c`, over any set of threads, mutexes and
further IPC objects. A mutex lists its waiters by priority and lends its owner the priority of a
waiter. `hold` is an 8-bit field and `value` a 16-bit field. Both functions are called by the
running thread, which is ready. Signals are off, so a waiter is woken by a release or by its timer
and does not try again.

`take_cases` and `release_cases` list what a call can do, and `Lends`, `Restored` and `Passed` say
what becomes of the priorities and the suspend lists.
-/

namespace FullhanRtos.Ipc

open Sched Transition Function List Option Nat

set_option linter.unusedSectionVars false

/-- `struct rt_mutex`. -/
structure Mutex (τ : Type) where
  value : Nat
  originalPriority : Fin 256
  hold : Nat
  owner : Option τ

/-- The objects with a suspend list: mutexes and others. -/
inductive Obj (μ ι : Type) where
  | mutex (m : μ)
  | other (o : ι)
  deriving DecidableEq

/-- The threads and the mutexes. -/
structure Sys (τ μ ι : Type) where
  kernel : Kernel τ (Obj μ ι)
  mutex : μ → Mutex τ

variable {τ μ ι : Type} [DecidableEq τ] [DecidableEq μ] [DecidableEq ι]

def Sys.withMutex (s : Sys τ μ ι) (m : μ) (mutex : Mutex τ) : Sys τ μ ι :=
  { s with mutex := update s.mutex m mutex }

/-- Set the error number of a thread. -/
def Sys.withError (s : Sys τ μ ι) (t : τ) (err : Err) : Sys τ μ ι :=
  { s with kernel := s.kernel.updateThread t fun th => { th with error := err } }

def lendPriority (k : Kernel τ (Obj μ ι)) (owner t : τ) : Kernel τ (Obj μ ι) :=
  if (k.thread t).currentPriority < (k.thread owner).currentPriority then
    rtThreadChangePriority k owner (k.thread t).currentPriority
  else k

def rtMutexTake (s : Sys τ μ ι) (t : τ) (m : μ) (time : WaitTime) :
    Option (Outcome × Sys τ μ ι) :=
  let s := s.withError t .eok
  let mutex := s.mutex m
  if mutex.owner = some t then
    some (.ok, s.withMutex m { mutex with hold := (mutex.hold + 1) % 256 })
  else if 0 < mutex.value then
    some (.ok, s.withMutex m
      { value := mutex.value - 1
        originalPriority := (s.kernel.thread t).currentPriority
        hold := (mutex.hold + 1) % 256
        owner := some t })
  else if time = .no then some (.failed, s.withError t .etimeout)
  else
    match mutex.owner with
    | none => some (.failed, s)
    | some owner =>
      (blockCurrent (lendPriority s.kernel owner t) (.mutex m) .prio (time = .ticks)).map
        fun k => (.blocked, { s with kernel := k })

/-- The part of `rt_mutex_release` that gives the mutex to its first waiter, or frees it. -/
def passMutex (s : Sys τ μ ι) (m : μ) : Option (Sys τ μ ι) :=
  match s.kernel.queue (.wait (.mutex m)) with
  | w :: _ =>
    (rtSchedule (rtIpcListResume s.kernel (.mutex m))).map fun k =>
      { s with kernel := k }.withMutex m
        { s.mutex m with
          owner := some w
          originalPriority := (s.kernel.thread w).currentPriority
          hold := ((s.mutex m).hold + 1) % 256 }
  | [] =>
    some (s.withMutex m
      { s.mutex m with
        value := ((s.mutex m).value + 1) % 65536
        owner := none
        originalPriority := 255 })

/-- Give a thread the priority that it had when it took the mutex. -/
def restorePriority (k : Kernel τ (Obj μ ι)) (t : τ) (p : Fin 256) : Kernel τ (Obj μ ι) :=
  if p ≠ (k.thread t).currentPriority then rtThreadChangePriority k t p else k

def rtMutexRelease (s : Sys τ μ ι) (t : τ) (m : μ) : Option (Outcome × Sys τ μ ι) :=
  let mutex := s.mutex m
  if mutex.owner ≠ some t then some (.failed, s.withError t .error)
  else
    let hold := (mutex.hold + 255) % 256
    let s := s.withMutex m { mutex with hold }
    if hold = 0 then
      (passMutex { s with kernel := restorePriority s.kernel t mutex.originalPriority } m).map
        fun s => (.ok, s)
    else some (.ok, s)

/-! ## Runs -/

/-- A call of a kernel function or of a mutex function by the running thread. -/
inductive Op (τ μ ι : Type) where
  | kernel (op : KernelOp τ (Obj μ ι))
  | take (m : μ) (time : WaitTime)
  | release (m : μ)

/-- The call does not handle a mutex as an object of another kind. -/
def ForeignTo (μ : Type) {τ ι : Type} : KernelOp τ (Obj μ ι) → Prop
  | .init _ _ lock _ _ => ∀ m : μ, lock ≠ some (.mutex m)
  | .block object _ _ => ∀ m : μ, object ≠ .mutex m
  | .wake object => ∀ m : μ, object ≠ .mutex m
  | .wakeAll object => ∀ m : μ, object ≠ .mutex m
  | _ => True

/-- The running thread, if it is ready. -/
def Sys.caller (s : Sys τ μ ι) : Option τ :=
  s.kernel.current.filter fun t => (s.kernel.thread t).stat = .ready

/-- One call. -/
def step (s : Sys τ μ ι) : Op τ μ ι → Option (Sys τ μ ι)
  | .kernel op => (kernelStep s.kernel op).map fun k => { s with kernel := k }
  | .take m time => s.caller.bind fun t => (rtMutexTake s t m time).map Prod.snd
  | .release m => s.caller.bind fun t => (rtMutexRelease s t m).map Prod.snd

/-- A mutex that `rt_mutex_init` leaves. -/
def freeMutex : Mutex τ where
  value := 1
  originalPriority := 255
  hold := 0
  owner := none

/-- The state before the first thread is created. -/
def start : Sys τ μ ι where
  kernel := boot
  mutex := fun _ => freeMutex

/-! ## What a take does -/

section

variable {s s' : Sys τ μ ι} {t u : τ} {m : μ} {e : Err} {time : WaitTime} {r : Outcome}
  {k k' : Kernel τ (Obj μ ι)}

@[simp]
theorem with_error_queue : (s.withError t e).kernel.queue = s.kernel.queue := rfl

@[simp]
theorem with_mutex_kernel {mutex : Mutex τ} : (s.withMutex m mutex).kernel = s.kernel := rfl

@[simp]
theorem with_mutex_self {mutex : Mutex τ} : (s.withMutex m mutex).mutex m = mutex :=
  update_self ..

theorem with_mutex_of_ne {mutex : Mutex τ} {m' : μ} (h : m' ≠ m) :
    (s.withMutex m mutex).mutex m' = s.mutex m' :=
  update_of_ne h ..

/-- The error number is the only field that changes. -/
theorem with_error_thread : (s.withError t e).kernel.thread u =
    { s.kernel.thread u with error := if u = t then e else (s.kernel.thread u).error } := by
  simp only [Sys.withError]
  by_cases hu : u = t
  · rw [if_pos hu, hu, update_thread_self]
  · rw [if_neg hu, update_thread_of_ne hu]

theorem with_error_twice {e' : Err} : (s.withError t e).withError t e' = s.withError t e' := by
  simp [Sys.withError, Kernel.updateThread]

theorem with_error_inv (h : KernelInv s.kernel) : KernelInv (s.withError t e).kernel :=
  kernel_inv_error h

/-- What `rt_mutex_take` can do. -/
inductive TakeCase (s : Sys τ μ ι) (t : τ) (m : μ) (time : WaitTime) :
    Outcome → Sys τ μ ι → Prop where
  | again (howner : (s.mutex m).owner = some t) :
      TakeCase s t m time .ok ((s.withError t .eok).withMutex m
        { s.mutex m with hold := ((s.mutex m).hold + 1) % 256 })
  | acquires (howner : (s.mutex m).owner ≠ some t) (hvalue : 0 < (s.mutex m).value) :
      TakeCase s t m time .ok ((s.withError t .eok).withMutex m
        { value := (s.mutex m).value - 1
          originalPriority := (s.kernel.thread t).currentPriority
          hold := ((s.mutex m).hold + 1) % 256
          owner := some t })
  | refused (e : Err) (howner : (s.mutex m).owner ≠ some t) (hvalue : (s.mutex m).value = 0)
      (hno : time = .no ∨ (s.mutex m).owner = none) :
      TakeCase s t m time .failed (s.withError t e)
  | blocks (o : τ) (k : Kernel τ (Obj μ ι)) (howner : (s.mutex m).owner = some o) (hne : o ≠ t)
      (hvalue : (s.mutex m).value = 0) (htime : time ≠ .no)
      (hrun : blockCurrent (lendPriority (s.withError t .eok).kernel o t) (.mutex m) .prio
        (time = .ticks) = some k) :
      TakeCase s t m time .blocked { s with kernel := k }

theorem take_cases (hrun : rtMutexTake s t m time = some (r, s')) : TakeCase s t m time r s' := by
  simp only [rtMutexTake] at hrun
  split at hrun
  · rename_i howner
    cases hrun
    exact .again howner
  · rename_i howner
    split at hrun
    · rename_i hvalue
      cases hrun
      rw [with_error_thread]
      exact .acquires howner hvalue
    · rename_i hvalue
      have hvalue : (s.mutex m).value = 0 := Nat.eq_zero_of_not_pos hvalue
      split at hrun
      · rename_i htime
        cases hrun
        rw [with_error_twice]
        exact .refused .etimeout howner hvalue (.inl htime)
      · rename_i htime
        split at hrun
        · rename_i hnone
          cases hrun
          exact .refused .eok howner hvalue (.inr hnone)
        · rename_i o ho
          obtain ⟨k, hblock, heq⟩ := map_eq_some_iff.mp hrun
          cases heq
          have hne : o ≠ t := fun heq => howner (heq ▸ ho)
          exact .blocks o k ho hne hvalue htime hblock

/-- The thread `t` waits for the mutex, and its owner `o` has got the priority of `t` if that is
smaller. -/
structure Lends (k k' : Kernel τ (Obj μ ι)) (t o : τ) (m : μ) : Prop where
  current : k.current = some t
  ready : (k.thread t).stat = .ready
  prio : ∀ u, (k'.thread u).currentPriority =
    if u = o ∧ (k.thread t).currentPriority < (k.thread o).currentPriority then
      (k.thread t).currentPriority
    else (k.thread u).currentPriority
  initPrio : ∀ u, (k'.thread u).initPriority = (k.thread u).initPriority
  join : k'.queue (.wait (.mutex m)) =
    insertByPriority (fun u => (k'.thread u).currentPriority) t (k.queue (.wait (.mutex m)))
  wait : ∀ o', o' ≠ .mutex m → k'.queue (.wait o') = k.queue (.wait o')
  stat : (k'.thread t).stat = .suspend
  err : (k'.thread t).error = .eok
  other : ∀ u, u ≠ t → (k'.thread u).stat = (k.thread u).stat ∧
    (k'.thread u).error = (k.thread u).error

theorem lend_priority_changed (h : Consistent k []) (o t : τ) :
    PriorityChanged k (lendPriority k o t) o
      (if (k.thread t).currentPriority < (k.thread o).currentPriority then
        (k.thread t).currentPriority else (k.thread o).currentPriority) := by
  unfold lendPriority
  split
  · exact change_priority_changed h o _
  · exact ⟨rfl, fun _ _ => rfl, fun _ => rfl, fun _ => rfl, fun _ => rfl, fun _ => rfl, rfl⟩

theorem lend_priority_inv (h : KernelInv k) (o t : τ) : KernelInv (lendPriority k o t) := by
  unfold lendPriority
  split
  · exact ⟨consistent_change_priority h.consistent _, current_change_priority h.current _⟩
  · exact h

theorem block_lends {o : τ} {timed : Bool} (h : KernelInv k) (hne : o ≠ t)
    (hcurrent : k.current = some t)
    (hrun : blockCurrent (lendPriority k o t) (.mutex m) .prio timed = some k') :
    Lends k k' t o m := by
  have hlent := lend_priority_changed h.consistent o t
  obtain ⟨t', hblocked⟩ := block_blocked (lend_priority_inv h o t).consistent hrun
  have ht' : t' = t := by
    have hcur := hblocked.current
    rw [hlent.current, hcurrent] at hcur
    exact (some.inj hcur).symm
  subst ht'
  have hprio : ∀ u, (k'.thread u).currentPriority =
      if u = o ∧ (k.thread t').currentPriority < (k.thread o).currentPriority then
        (k.thread t').currentPriority
      else (k.thread u).currentPriority := by
    intro u
    rw [hblocked.prio]
    by_cases hu : u = o
    · subst hu
      rw [hlent.prio]
      simp
    · rw [hlent.other u hu, if_neg fun hand => hu hand.1]
  refine ⟨hcurrent, ?_, hprio, fun u => ?_, ?_, fun o' ho' => ?_, hblocked.stat, hblocked.err,
    fun u hu => ?_⟩
  · rw [← hlent.stat]
    exact hblocked.ready
  · rw [hblocked.initPrio, hlent.initPrio]
  · rw [hblocked.join, joined, hlent.wait]
    simp only [hblocked.prio]
  · rw [hblocked.wait o' ho', hlent.wait]
  · rw [hblocked.other u hu, hlent.stat, hlent.err]
    exact ⟨rfl, rfl⟩

theorem take_lends {o : τ} {timed : Bool} (h : KernelInv s.kernel) (hne : o ≠ t)
    (hcurrent : s.kernel.current = some t)
    (hrun : blockCurrent (lendPriority (s.withError t .eok).kernel o t) (.mutex m) .prio timed =
      some k') : Lends s.kernel k' t o m := by
  have hlends := block_lends (with_error_inv h) hne hcurrent hrun
  refine ⟨hcurrent, ?_, fun u => ?_, fun u => ?_, hlends.join, hlends.wait, hlends.stat,
    hlends.err, fun u hu => ?_⟩
  · simpa only [with_error_thread] using hlends.ready
  · simpa only [with_error_thread] using hlends.prio u
  · simpa only [with_error_thread] using hlends.initPrio u
  · simpa only [with_error_thread, if_neg hu] using hlends.other u hu

theorem Lends.waiting {o w : τ} (h : Lends k k' t o m) {m' : μ} :
    w ∈ k'.queue (.wait (.mutex m')) ↔ m' = m ∧ w = t ∨ w ∈ k.queue (.wait (.mutex m')) := by
  by_cases hm : m' = m
  · subst hm
    rw [h.join, (insert_by_priority_perm _ _ _).mem_iff, mem_cons]
    simp
  · rw [h.wait _ fun heq => hm (Obj.mutex.inj heq)]
    simp [hm]

/-! ## What a release does -/

theorem restore_priority_changed (h : Consistent k []) (t : τ) (p : Fin 256) :
    PriorityChanged k (restorePriority k t p) t p := by
  unfold restorePriority
  split
  · exact change_priority_changed h t p
  · rename_i hsame
    exact ⟨(not_not.mp hsame).symm, fun _ _ => rfl, fun _ => rfl, fun _ => rfl, fun _ => rfl,
      fun _ => rfl, rfl⟩

theorem restore_priority_inv (h : KernelInv k) (t : τ) (p : Fin 256) :
    KernelInv (restorePriority k t p) := by
  unfold restorePriority
  split
  · exact ⟨consistent_change_priority h.consistent _, current_change_priority h.current _⟩
  · exact h

/-- What `rt_mutex_release` can do. -/
inductive ReleaseCase (s : Sys τ μ ι) (t : τ) (m : μ) : Outcome → Sys τ μ ι → Prop where
  | refused (howner : (s.mutex m).owner ≠ some t) :
      ReleaseCase s t m .failed (s.withError t .error)
  | keeps (howner : (s.mutex m).owner = some t) (hhold : ((s.mutex m).hold + 255) % 256 ≠ 0) :
      ReleaseCase s t m .ok
        (s.withMutex m { s.mutex m with hold := ((s.mutex m).hold + 255) % 256 })
  | passes (w : τ) (rest : List τ) (k : Kernel τ (Obj μ ι))
      (howner : (s.mutex m).owner = some t) (hhold : ((s.mutex m).hold + 255) % 256 = 0)
      (hlist : s.kernel.queue (.wait (.mutex m)) = w :: rest)
      (hrun : rtSchedule (rtIpcListResume
        (restorePriority s.kernel t (s.mutex m).originalPriority) (.mutex m)) = some k) :
      ReleaseCase s t m .ok ({ s with kernel := k }.withMutex m
        { value := (s.mutex m).value
          originalPriority := ((restorePriority s.kernel t
            (s.mutex m).originalPriority).thread w).currentPriority
          hold := 1
          owner := some w })
  | frees (howner : (s.mutex m).owner = some t) (hhold : ((s.mutex m).hold + 255) % 256 = 0)
      (hlist : s.kernel.queue (.wait (.mutex m)) = []) :
      ReleaseCase s t m .ok
        ({ s with kernel :=
            restorePriority s.kernel t (s.mutex m).originalPriority }.withMutex m
          { value := ((s.mutex m).value + 1) % 65536
            originalPriority := 255
            hold := 0
            owner := none })

theorem release_cases (h : KernelInv s.kernel) (hrun : rtMutexRelease s t m = some (r, s')) :
    ReleaseCase s t m r s' := by
  simp only [rtMutexRelease] at hrun
  split at hrun
  · rename_i howner
    cases hrun
    exact .refused howner
  · rename_i howner
    have howner : (s.mutex m).owner = some t := not_not.mp howner
    split at hrun
    · rename_i hhold
      obtain ⟨s1, hpass, heq⟩ := map_eq_some_iff.mp hrun
      cases heq
      have hwait := (restore_priority_changed h.consistent t (s.mutex m).originalPriority).wait
        (.mutex m)
      simp only [passMutex, with_mutex_kernel] at hpass
      split at hpass
      · rename_i w rest hlist
        obtain ⟨k, hschedule, rfl⟩ := map_eq_some_iff.mp hpass
        have hcase := ReleaseCase.passes w rest k howner hhold (hwait.symm.trans hlist) hschedule
        simp only [Sys.withMutex, update_self, update_idem, hhold] at hcase ⊢
        exact hcase
      · rename_i hlist
        cases hpass
        have hcase := ReleaseCase.frees howner hhold (hwait.symm.trans hlist)
        simp only [Sys.withMutex, update_self, update_idem, hhold] at hcase ⊢
        exact hcase
    · rename_i hhold
      cases hrun
      exact .keeps howner hhold

/-- The mutex has gone from `t`, whose priority is `p` now, to the waiter `w`. -/
structure Passed (k k' : Kernel τ (Obj μ ι)) (t w : τ) (p : Fin 256) : Prop where
  ne : w ≠ t
  prio : ∀ u, (k'.thread u).currentPriority = if u = t then p else (k.thread u).currentPriority
  initPrio : ∀ u, (k'.thread u).initPriority = (k.thread u).initPriority
  wait : ∀ o, k'.queue (.wait o) = (k.queue (.wait o)).erase w
  stat : (k'.thread w).stat = .ready
  err : ∀ u, (k'.thread u).error = (k.thread u).error
  other : ∀ u, u ≠ w → (k'.thread u).stat = (k.thread u).stat

theorem schedule_passed {w : τ} {rest : List τ} {p : Fin 256} (h : KernelInv k)
    (hready : (k.thread t).stat = .ready) (hlist : k.queue (.wait (.mutex m)) = w :: rest)
    (hrun : rtSchedule (rtIpcListResume (restorePriority k t p) (.mutex m)) = some k') :
    Passed k k' t w p := by
  have hrestored := restore_priority_changed h.consistent t p
  have hresumed := ipc_list_resume_resumed (restore_priority_inv h t p).consistent
    ((hrestored.wait (.mutex m)).trans hlist)
  obtain ⟨v, -, rfl⟩ := map_eq_some_iff.mp hrun
  have hne : w ≠ t := fun heq => h.consistent.not_waiting hready (.mutex m)
    (by rw [hlist, heq]; exact mem_cons_self)
  refine ⟨hne, fun u => ?_, fun u => ?_, fun o => ?_, hresumed.stat, fun u => ?_, fun u hu => ?_⟩
  · rw [hresumed.prio]
    split
    · rename_i hu
      rw [hu, hrestored.prio]
    · rename_i hu
      rw [hrestored.other u hu]
  · rw [hresumed.initPrio, hrestored.initPrio]
  · rw [hresumed.wait, hrestored.wait]
  · rw [hresumed.err, hrestored.err]
  · rw [hresumed.other u hu, hrestored.stat]

end

/-! ## The invariant of all runs -/

/-- The call is not an explicit change of a priority. -/
def Op.KeepsPriorities : Op τ μ ι → Prop
  | .kernel (.changePriority _ _) => False
  | _ => True

/-- The call does not handle a mutex as an object of another kind. -/
def Op.Proper : Op τ μ ι → Prop
  | .kernel op => ForeignTo μ op
  | _ => True

/-- What a mutex is in every run: free with the value 1 and no waiter, or taken with the value 0 by
a thread that does not wait for it. -/
structure MutexOk (mutex : Mutex τ) (waiters : List τ) : Prop where
  free : mutex.owner = none → mutex.value = 1 ∧ waiters = []
  taken : ∀ t, mutex.owner = some t → mutex.value = 0 ∧ t ∉ waiters
  hold : mutex.hold < 256

/-- The invariant of all runs. -/
structure MutexInv (s : Sys τ μ ι) : Prop where
  kernel : KernelInv s.kernel
  mutex : ∀ m, MutexOk (s.mutex m) (s.kernel.queue (.wait (.mutex m)))

section

variable {s s' : Sys τ μ ι} {t : τ} {m : μ} {time : WaitTime} {r : Outcome}

theorem MutexOk.sublist {mutex : Mutex τ} {waiters waiters' : List τ} (h : MutexOk mutex waiters)
    (hsub : waiters'.Sublist waiters) : MutexOk mutex waiters' := by
  refine ⟨fun hnone => ⟨(h.free hnone).1, ?_⟩, fun t ht => ⟨(h.taken t ht).1, fun hmem => ?_⟩,
    h.hold⟩
  · rw [(h.free hnone).2] at hsub
    exact sublist_nil.mp hsub
  · exact (h.taken t ht).2 (hsub.subset hmem)

theorem MutexOk.owner_of_pos {mutex : Mutex τ} {waiters : List τ} (h : MutexOk mutex waiters)
    (hvalue : 0 < mutex.value) : mutex.owner = none := by
  cases howner : mutex.owner with
  | none => rfl
  | some t =>
    rw [(h.taken t howner).1] at hvalue
    exact absurd hvalue (lt_irrefl 0)

theorem caller_eq_some : s.caller = some t ↔
    s.kernel.current = some t ∧ (s.kernel.thread t).stat = .ready := by
  simp only [Sys.caller, filter_eq_some_iff, decide_eq_true_eq]

theorem kernel_step_waiters {k k' : Kernel τ (Obj μ ι)} {op : KernelOp τ (Obj μ ι)}
    (hop : ForeignTo μ op) (h : Consistent k []) (hrun : kernelStep k op = some k') (m : μ) :
    (k'.queue (.wait (.mutex m))).Sublist (k.queue (.wait (.mutex m))) := by
  cases kernel_step_cases h hrun with
  | calm _ _ hcalm => exact hcalm.wait _
  | starts _ _ t hstarts => rw [hstarts.wait]
  | changes t p hchanged => rw [hchanged.wait]
  | blocks o flag timed t hblocked => rw [hblocked.wait _ fun heq => hop m heq.symm]

/-- One mutex is stored and its list changed; the lists of the others only lose threads. -/
theorem MutexInv.with_mutex (h : MutexInv s) {k : Kernel τ (Obj μ ι)} {mutex : Mutex τ}
    (hk : KernelInv k) (hmutex : MutexOk mutex (k.queue (.wait (.mutex m))))
    (hwait : ∀ m', m' ≠ m →
      (k.queue (.wait (.mutex m'))).Sublist (s.kernel.queue (.wait (.mutex m')))) :
    MutexInv ({ s with kernel := k }.withMutex m mutex) := by
  refine ⟨hk, fun m' => ?_⟩
  by_cases hm : m' = m
  · subst hm
    rw [with_mutex_self]
    exact hmutex
  · rw [with_mutex_of_ne hm]
    exact (h.mutex m').sublist (hwait m' hm)

theorem MutexInv.with_error (h : MutexInv s) (t : τ) (e : Err) : MutexInv (s.withError t e) :=
  ⟨with_error_inv h.kernel, h.mutex⟩

theorem mutex_inv_take (h : MutexInv s) (hcaller : s.caller = some t)
    (hrun : rtMutexTake s t m time = some (r, s')) : MutexInv s' := by
  obtain ⟨hcurrent, hready⟩ := caller_eq_some.mp hcaller
  have hm := h.mutex m
  cases take_cases hrun with
  | again howner =>
    refine (h.with_error t .eok).with_mutex (with_error_inv h.kernel) ?_
      fun m' _ => Sublist.refl _
    exact ⟨hm.free, hm.taken, mod_lt _ (by decide)⟩
  | acquires howner hvalue =>
    have hfree := hm.free (hm.owner_of_pos hvalue)
    refine (h.with_error t .eok).with_mutex (with_error_inv h.kernel) ?_
      fun m' _ => Sublist.refl _
    refine ⟨fun hnone => (by cases hnone), fun u _ => ⟨?_, ?_⟩, mod_lt _ (by decide)⟩
    · rw [hfree.1]
    · rw [update_thread_queue, hfree.2]
      exact not_mem_nil
  | refused e howner hvalue hno => exact h.with_error t e
  | blocks o k howner hne hvalue htime hblock =>
    have hinv := lend_priority_inv (with_error_inv h.kernel (t := t) (e := .eok)) o t
    have hlends := take_lends h.kernel hne hcurrent hblock
    refine ⟨kernel_inv_block hinv hblock, fun m' => ?_⟩
    by_cases hm' : m' = m
    · subst hm'
      refine ⟨fun hnone => ?_, fun u hu => ⟨hvalue, fun hmem => ?_⟩, hm.hold⟩
      · rw [howner] at hnone
        cases hnone
      · obtain rfl : o = u := some.inj (howner.symm.trans hu)
        rw [hlends.join, (insert_by_priority_perm _ _ _).mem_iff] at hmem
        rcases mem_cons.mp hmem with heq | hmem
        · exact hne heq
        · exact (hm.taken o howner).2 hmem
    · have hobj : Obj.mutex m' ≠ (.mutex m : Obj μ ι) := fun heq => hm' (Obj.mutex.inj heq)
      show MutexOk (s.mutex m') (k.queue (.wait (.mutex m')))
      rw [hlends.wait _ hobj]
      exact h.mutex m'

theorem mutex_inv_release (h : MutexInv s) (hcaller : s.caller = some t)
    (hrun : rtMutexRelease s t m = some (r, s')) : MutexInv s' := by
  obtain ⟨hcurrent, hready⟩ := caller_eq_some.mp hcaller
  have hm := h.mutex m
  cases release_cases h.kernel hrun with
  | refused howner => exact h.with_error t .error
  | keeps howner hhold =>
    refine h.with_mutex h.kernel ?_ fun m' _ => Sublist.refl _
    exact ⟨hm.free, hm.taken, mod_lt _ (by decide)⟩
  | passes w rest k howner hhold hlist hpass =>
    have hpassed := schedule_passed h.kernel hready hlist hpass
    have hinv := restore_priority_inv h.kernel t (s.mutex m).originalPriority
    refine h.with_mutex (kernel_inv_schedule
      (consistent_ipc_list_resume hinv.consistent _) hpass) ?_ fun m' _ => ?_
    · refine ⟨fun hnone => (by cases hnone), fun u hu => ⟨(hm.taken t howner).1, ?_⟩,
        succ_lt_succ (zero_lt_succ 254)⟩
      obtain rfl : w = u := some.inj hu
      rw [hpassed.wait]
      exact (h.kernel.consistent.nodup _).not_mem_erase
    · rw [hpassed.wait]
      exact erase_sublist
  | frees howner hhold hlist =>
    have hrestored := restore_priority_changed h.kernel.consistent t
      (s.mutex m).originalPriority
    refine h.with_mutex (restore_priority_inv h.kernel t _) ?_ fun m' _ => ?_
    · refine ⟨fun _ => ⟨?_, ?_⟩, fun u hu => (by cases hu), zero_lt_succ 255⟩
      · rw [(hm.taken t howner).1]
      · rw [hrestored.wait, hlist]
    · rw [hrestored.wait]

/-- Every call keeps the invariant. -/
theorem mutex_step_inv {op : Op τ μ ι} (hop : op.Proper) (h : MutexInv s)
    (hrun : step s op = some s') : MutexInv s' := by
  cases op with
  | kernel op =>
    obtain ⟨k, hk, rfl⟩ := map_eq_some_iff.mp hrun
    exact ⟨kernel_step_inv op h.kernel hk, fun m =>
      (h.mutex m).sublist (kernel_step_waiters hop h.kernel.consistent hk m)⟩
  | take m time =>
    obtain ⟨t, hcaller, hrun⟩ := bind_eq_some_iff.mp hrun
    obtain ⟨⟨r, s1⟩, htake, rfl⟩ := map_eq_some_iff.mp hrun
    exact mutex_inv_take h hcaller htake
  | release m =>
    obtain ⟨t, hcaller, hrun⟩ := bind_eq_some_iff.mp hrun
    obtain ⟨⟨r, s1⟩, hrelease, rfl⟩ := map_eq_some_iff.mp hrun
    exact mutex_inv_release h hcaller hrelease

theorem mutex_inv_start : MutexInv (start : Sys τ μ ι) :=
  ⟨kernel_inv_boot, fun m => ⟨fun _ => ⟨rfl, rfl⟩, fun t ht => (by cases ht), zero_lt_succ 255⟩⟩

end

end FullhanRtos.Ipc
