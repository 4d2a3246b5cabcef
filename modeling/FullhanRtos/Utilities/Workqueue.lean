import FullhanRtos.Sched.Scheduler

/-!
# Work queues

The worker thread of `kernel/utilities/workqueue.c` and the calls on its queue, in steps that end
where interrupts are enabled: the worker tests the list, suspends itself and takes an entry in three
steps, and `rt_workqueue_dowork` resumes the worker in a step of its own.
`rt_workqueue_cancel_all_work` locks the scheduler but leaves interrupts enabled, so each round of
its loop is a step. Calls of the function of a work are calls of other threads while the worker
stands at `running`.

A work that is submitted again while it is on the list moves to its end. `submitted`, `cancelled`
and `ran` count, for each work, the times that it came on the list, was taken off by a cancel, and
was run. `works_kept` says in which runs the queue does what it should.
-/

namespace FullhanRtos.Workqueue

open Sched Transition Function List Option

set_option linter.unusedSectionVars false

/-! ## The worker and its callers -/

/-- Where the worker stands: before its test, its `rt_thread_suspend`, the section that takes an
entry, in the function of a work, before the section that clears `work_current`, and before
`_workqueue_work_completion`. At `astray` it runs what it took from an empty list. -/
inductive WorkerPlace (ω : Type) where
  | test
  | suspend
  | take
  | running (work : ω)
  | finished
  | completion
  | astray
  deriving DecidableEq

/-- Where a caller stands: nowhere, before the `rt_thread_resume` of a submit, or in the
`rt_sem_take` of `rt_workqueue_cancel_work_sync`. -/
inductive CallerPlace where
  | idle
  | resuming
  | waiting
  deriving DecidableEq

variable {τ ω : Type} [DecidableEq τ] [DecidableEq ω]

/-- `struct rt_workqueue` with its worker, the callers and the counts. `cancelling` is the thread
in `rt_workqueue_cancel_all_work` with `node`, where `none` is the head of the list. -/
structure WqSys (τ ω : Type) where
  workList : List ω
  workCurrent : Option ω
  semValue : Nat
  semWaiters : List τ
  suspended : Bool
  worker : WorkerPlace ω
  caller : Agent τ → CallerPlace
  cancelling : Option (τ × Option ω)
  submitted : ω → Nat
  cancelled : ω → Nat
  ran : ω → Nat
  takenEmpty : Bool

/-- The steps of the worker, and the calls with their later steps. -/
inductive WqOp (τ ω : Type) where
  | test
  | suspend
  | take
  | run
  | clear
  | complete
  | dowork (caller : Agent τ) (work : ω)
  | resume (caller : Agent τ)
  | cancel (caller : Agent τ) (work : ω)
  | cancelSync (t : τ) (work : ω)
  | cancelAll (t : τ)
  | cancelNext (t : τ)

/-- The entry behind another one. -/
def nextOf (work : ω) : List ω → Option ω
  | [] => none
  | w :: ws => if w = work then ws.head? else nextOf work ws

/-- The loop of `_workqueue_work_completion`: `rt_sem_trytake` and `rt_sem_release` in turn. -/
def completionLoop : Nat → Nat → List τ → (Agent τ → CallerPlace) →
    Option (Nat × (Agent τ → CallerPlace))
  | 0, _, _, _ => none
  | fuel + 1, value, waiters, caller =>
    if 0 < value then some (value - 1, caller)
    else
      match waiters with
      | [] => completionLoop fuel (value + 1) [] caller
      | t :: rest =>
        completionLoop fuel value rest (update caller (.thread t) .idle)

section

variable (s : WqSys τ ω)

def bump (count : ω → Nat) (work : ω) : ω → Nat := update count work (count work + 1)

/-- `rt_list_remove` of a work that is cancelled. -/
def WqSys.remove (work : ω) : WqSys τ ω :=
  { s with
    workList := s.workList.erase work
    cancelled := if work ∈ s.workList then bump s.cancelled work else s.cancelled }

def rtWorkqueueDowork (a : Agent τ) (work : ω) : WqSys τ ω :=
  if s.workCurrent = some work then s
  else
    { s with
      workList := s.workList.erase work ++ [work]
      submitted := if work ∈ s.workList then s.submitted else bump s.submitted work
      caller :=
        if s.workCurrent = none then update s.caller a .resuming else s.caller }

def resumeWorker (a : Agent τ) : WqSys τ ω :=
  { s with suspended := false, caller := update s.caller a .idle }

def rtWorkqueueCancelWork (work : ω) : WqSys τ ω :=
  if s.workCurrent = some work then s else s.remove work

def rtWorkqueueCancelWorkSync (t : τ) (work : ω) : WqSys τ ω :=
  if s.workCurrent = some work then
    if 0 < s.semValue then { s with semValue := s.semValue - 1 }
    else
      { s with
        semWaiters := s.semWaiters ++ [t]
        caller := update s.caller (.thread t) .waiting }
  else s.remove work

/-- A round of the loop of `rt_workqueue_cancel_all_work`. A removed entry leads to itself. -/
def cancelNext (t : τ) : Option ω → WqSys τ ω
  | none => { s with cancelling := none }
  | some work =>
    let next := if work ∈ s.workList then nextOf work s.workList else some work
    { s.remove work with cancelling := some (t, next) }

/-- The section that takes the first entry. The entry of an empty list is the list itself. -/
def takeWork : WqSys τ ω :=
  match s.workList with
  | [] => { s with worker := .astray, takenEmpty := true }
  | work :: rest =>
    { s with workList := rest, workCurrent := some work, worker := .running work }

def workCompletion : Option (WqSys τ ω) :=
  (completionLoop (s.semWaiters.length + 2) s.semValue s.semWaiters s.caller).map
    fun (semValue, caller) => { s with semValue, semWaiters := [], caller, worker := .test }

/-- A thread takes steps when the scheduler is not locked, an interrupt at any time. -/
def WqSys.Acts : Agent τ → Prop
  | .thread t => s.caller (.thread t) = .idle ∧ s.cancelling = none
  | .isr n => s.caller (.isr n) = .idle

instance (a : Agent τ) : Decidable (s.Acts a) :=
  match a with
  | .thread _ => inferInstanceAs (Decidable (_ ∧ _))
  | .isr n => inferInstanceAs (Decidable (s.caller (.isr n) = .idle))

/-- The same for the second step of a submit. -/
def WqSys.Resumes : Agent τ → Prop
  | .thread t => s.caller (.thread t) = .resuming ∧ s.cancelling = none
  | .isr n => s.caller (.isr n) = .resuming

instance (a : Agent τ) : Decidable (s.Resumes a) :=
  match a with
  | .thread _ => inferInstanceAs (Decidable (_ ∧ _))
  | .isr n => inferInstanceAs (Decidable (s.caller (.isr n) = .resuming))

def WqSys.At (place : WorkerPlace ω) : Prop :=
  s.worker = place ∧ s.suspended = false ∧ s.cancelling = none

instance (place : WorkerPlace ω) : Decidable (s.At place) :=
  inferInstanceAs (Decidable (_ ∧ _ ∧ _))

def wqStep : WqOp τ ω → Option (WqSys τ ω)
  | .test =>
    if s.At .test then
      some { s with worker := if s.workList = [] then .suspend else .take }
    else none
  | .suspend => if s.At .suspend then some { s with worker := .take, suspended := true } else none
  | .take => if s.At .take then some (takeWork s) else none
  | .run =>
    match s.worker with
    | .running work =>
      if s.cancelling = none then
        some { s with worker := .finished, ran := bump s.ran work }
      else none
    | _ => none
  | .clear =>
    if s.At .finished then some { s with worker := .completion, workCurrent := none } else none
  | .complete => if s.At .completion then workCompletion s else none
  | .dowork a work => if s.Acts a then some (rtWorkqueueDowork s a work) else none
  | .resume a => if s.Resumes a then some (resumeWorker s a) else none
  | .cancel a work => if s.Acts a then some (rtWorkqueueCancelWork s work) else none
  | .cancelSync t work =>
    if s.Acts (.thread t) then some (rtWorkqueueCancelWorkSync s t work) else none
  | .cancelAll t =>
    if s.Acts (.thread t) then some { s with cancelling := some (t, s.workList.head?) } else none
  | .cancelNext t =>
    match s.cancelling with
    | some (u, node) => if u = t then some (cancelNext s t node) else none
    | none => none

end

/-- The queue that `rt_workqueue_create` leaves. -/
def wqStart : WqSys τ ω where
  workList := []
  workCurrent := none
  semValue := 0
  semWaiters := []
  suspended := false
  worker := .test
  caller := fun _ => .idle
  cancelling := none
  submitted := fun _ => 0
  cancelled := fun _ => 0
  ran := fun _ => 0
  takenEmpty := false

/-! ## What the queue should do -/

/-- The worker has taken the work and not run it yet. -/
def WqSys.held (s : WqSys τ ω) (work : ω) : Nat := if s.worker = .running work then 1 else 0

/-- Each time that a work was submitted it was cancelled or run once, or is on the list or about to
run. The worker took no entry from an empty list and is not left suspended before a list with
entries, and the loop of `rt_workqueue_cancel_all_work` comes to an end. -/
structure WorksKept (s : WqSys τ ω) : Prop where
  account : ∀ work, s.submitted work =
    s.cancelled work + s.ran work + s.workList.count work + s.held work
  taken : s.takenEmpty = false
  awake : s.suspended = true → s.workList ≠ [] → ∃ a, s.caller a = .resuming
  ends : ∀ t work, s.cancelling = some (t, some work) → work ∈ s.workList

/-- The worker will take an entry without looking at the list again. -/
def WqSys.Committed (s : WqSys τ ω) : Prop := s.worker = .take ∧ s.suspended = false

instance (s : WqSys τ ω) : Decidable s.Committed := inferInstanceAs (Decidable (_ ∧ _))

/-- The schedule is a good one: a submit resumes the worker only before a list with entries, and not
when it has found the list empty and not yet suspended itself; a cancel does not take the last entry
from a worker that is about to take it; and an interrupt does not cancel the entry at which
`rt_workqueue_cancel_all_work` stands. -/
def GoodSchedule (s : WqSys τ ω) : WqOp τ ω → Prop
  | .resume _ =>
    (s.worker = .suspend → s.workList = []) ∧ (s.suspended = true → s.workList ≠ [])
  | .cancel _ work =>
    (s.Committed → s.workList ≠ [work]) ∧ (s.cancelling.bind Prod.snd ≠ some work)
  | .cancelSync _ work => s.Committed → s.workList ≠ [work]
  | .cancelNext _ => s.Committed → s.workList.map some ≠ [s.cancelling.bind Prod.snd]
  | _ => True

/-- The invariant of the runs with a good schedule. -/
structure WqInv (s : WqSys τ ω) : Prop where
  kept : WorksKept s
  nodup : s.workList.Nodup
  busy : s.workCurrent ≠ none → (∃ work, s.worker = .running work) ∨ s.worker = .finished
  rests : s.suspended = true → s.worker = .take
  committed : s.Committed → s.workList ≠ []
  seen : s.worker = .suspend → s.workList ≠ [] → ∃ a, s.caller a = .resuming

section

variable {s s' : WqSys τ ω} {a : Agent τ} {t : τ} {work : ω}

theorem resuming_update {caller : Agent τ → CallerPlace} {place : CallerPlace}
    (h : ∃ b, caller b = .resuming) (ha : caller a ≠ .resuming) :
    ∃ b, update caller a place b = .resuming := by
  obtain ⟨b, hb⟩ := h
  refine ⟨b, ?_⟩
  rw [update_of_ne fun heq : b = a => ha (heq ▸ hb)]
  exact hb

theorem bump_self (count : ω → Nat) (work : ω) : bump count work work = count work + 1 :=
  update_self _ _ _

theorem bump_of_ne {count : ω → Nat} {v : ω} (hv : v ≠ work) : bump count work v = count v :=
  update_of_ne hv _ _

theorem remove_account (s : WqSys τ ω) (work v : ω) :
    (s.remove work).cancelled v + (s.remove work).workList.count v =
      s.cancelled v + s.workList.count v := by
  show (if work ∈ s.workList then bump s.cancelled work else s.cancelled) v +
    (s.workList.erase work).count v = _
  by_cases hmem : work ∈ s.workList
  · rw [if_pos hmem]
    by_cases hv : v = work
    · subst hv
      have hpos := count_pos_iff.mpr hmem
      rw [bump_self, count_erase_self]
      omega
    · rw [bump_of_ne hv, count_erase_of_ne hv]
  · rw [if_neg hmem, erase_of_not_mem hmem]

theorem dowork_account (s : WqSys τ ω) (work v : ω) :
    (if work ∈ s.workList then s.submitted else bump s.submitted work) v + s.workList.count v =
      s.submitted v + (s.workList.erase work ++ [work]).count v := by
  rw [count_append]
  by_cases hv : v = work
  · subst hv
    rw [count_erase_self, count_singleton_self]
    by_cases hmem : v ∈ s.workList
    · have hpos := count_pos_iff.mpr hmem
      rw [if_pos hmem]
      omega
    · rw [if_neg hmem, bump_self, count_eq_zero.mpr hmem]
  · have hnone : List.count v [work] = 0 := count_eq_zero.mpr fun hmem => hv (mem_singleton.mp hmem)
    rw [count_erase_of_ne hv, hnone, add_zero]
    split
    · rfl
    · rw [bump_of_ne hv]

/-- The entry behind a removed one stays on the list. -/
theorem next_of_mem {l : List ω} {v : ω} (hnodup : l.Nodup) (hnext : nextOf work l = some v) :
    v ∈ l.erase work := by
  induction l with
  | nil => cases hnext
  | cons w ws ih =>
    rw [nextOf] at hnext
    by_cases hw : w = work
    · rw [if_pos hw] at hnext
      rw [hw, erase_cons_head]
      exact mem_of_mem_head? hnext
    · rw [if_neg hw] at hnext
      rw [erase_cons_tail (by simpa using hw)]
      exact mem_cons_of_mem w (ih (nodup_cons.mp hnodup).2 hnext)

theorem WqInv.not_busy (h : WqInv s) (hrunning : ∀ work, s.worker ≠ .running work)
    (hfinished : s.worker ≠ .finished) : s.workCurrent = none := by
  by_contra hcurrent
  rcases h.busy hcurrent with ⟨work, hplace⟩ | hplace
  · exact hrunning work hplace
  · exact hfinished hplace

/-- A work comes off the list. The worker that is about to take an entry must find another one, and
so must the loop of `rt_workqueue_cancel_all_work`. -/
theorem remove_inv (h : WqInv s) (hcommitted : s.Committed → s.workList ≠ [work])
    (hends : ∀ t v, s.cancelling = some (t, some v) → v ∈ s.workList.erase work) :
    WqInv (s.remove work) := by
  have hsub : ∀ {l : List ω}, l.erase work ≠ [] → l ≠ [] := fun hne hnil => hne (by rw [hnil]; rfl)
  refine ⟨⟨fun v => ?_, h.kept.taken, fun hsuspended hne => ?_, hends⟩, h.nodup.erase work, h.busy,
    h.rests, fun hcomm hnil => ?_, fun hplace hne => ?_⟩
  · have haccount := h.kept.account v
    have hremove := remove_account s work v
    have hheld : (s.remove work).held v = s.held v := rfl
    show s.submitted v = _ + s.ran v + _ + _
    omega
  · exact h.kept.awake hsuspended (hsub hne)
  · have hempty : s.workList.erase work = [] := hnil
    have hlen := length_erase_add_one (a := work) (l := s.workList)
    by_cases hmem : work ∈ s.workList
    · have hone := hlen hmem
      rw [hempty] at hone
      obtain ⟨v, hv⟩ := length_eq_one_iff.mp hone.symm
      rw [hv, mem_singleton] at hmem
      exact hcommitted hcomm (by rw [hv, hmem])
    · rw [erase_of_not_mem hmem] at hempty
      exact h.committed hcomm hempty
  · exact h.seen hplace (hsub hne)

theorem dowork_inv (h : WqInv s) : WqInv (rtWorkqueueDowork s a work) := by
  unfold rtWorkqueueDowork
  split
  · exact h
  · have hmem : ∀ v ∈ s.workList, v ∈ s.workList.erase work ++ [work] := fun v hv => by
      by_cases hvw : v = work
      · rw [hvw]
        exact mem_append_right _ (mem_singleton_self work)
      · exact mem_append_left _ ((mem_erase_of_ne hvw).mpr hv)
    -- Whoever submits while the worker is not busy will resume it.
    have hresumes : s.workCurrent = none →
        ∃ b, (if s.workCurrent = none then update s.caller a .resuming else s.caller) b =
          .resuming := fun hnone => ⟨a, by rw [if_pos hnone, update_self]⟩
    refine ⟨⟨fun v => ?_, h.kept.taken, fun hsuspended _ => ?_, fun u v hcancelling => ?_⟩, ?_,
      h.busy, h.rests, fun _ => by simp, fun hplace _ => ?_⟩
    · have haccount := h.kept.account v
      have hdowork := dowork_account s work v
      show (if work ∈ s.workList then s.submitted else bump s.submitted work) v =
        s.cancelled v + s.ran v + (s.workList.erase work ++ [work]).count v + s.held v
      omega
    · exact hresumes (h.not_busy (h.rests hsuspended ▸ nofun) (h.rests hsuspended ▸ nofun))
    · exact hmem v (h.kept.ends u v hcancelling)
    · refine nodup_append.mpr ⟨h.nodup.erase work, nodup_singleton work, ?_⟩
      intro v hv w hw heq
      rw [mem_singleton.mp hw] at heq
      exact h.nodup.not_mem_erase (heq ▸ hv)
    · exact hresumes (h.not_busy (hplace ▸ nofun) (hplace ▸ nofun))

theorem resume_inv (h : WqInv s) (hgood : GoodSchedule s (.resume a)) :
    WqInv (resumeWorker s a) := by
  obtain ⟨hsuspend, hsuspended⟩ := hgood
  refine ⟨⟨h.kept.account, h.kept.taken, nofun, h.kept.ends⟩, h.nodup, h.busy, nofun, ?_, ?_⟩
  · rintro ⟨hplace, -⟩
    cases hs : s.suspended with
    | true => exact hsuspended hs
    | false => exact h.committed ⟨hplace, hs⟩
  · exact fun hplace hne => absurd (hsuspend hplace) hne

/-- An agent that acts was not about to resume the worker. -/
theorem acts_idle (h : s.Acts a) : s.caller a = .idle := by
  cases a with
  | thread t => exact h.1
  | isr n => exact h

theorem cancel_inv (h : WqInv s) (hgood : GoodSchedule s (.cancel a work)) :
    WqInv (rtWorkqueueCancelWork s work) := by
  unfold rtWorkqueueCancelWork
  split
  · exact h
  · refine remove_inv h hgood.1 fun t v hcancelling => ?_
    have hne : v ≠ work := by
      rintro rfl
      exact hgood.2 (by rw [hcancelling]; rfl)
    exact (mem_erase_of_ne hne).mpr (h.kept.ends t v hcancelling)

theorem cancel_sync_inv (h : WqInv s) (hacts : s.Acts (.thread t))
    (hgood : GoodSchedule s (.cancelSync t work)) :
    WqInv (rtWorkqueueCancelWorkSync s t work) := by
  have hidle : s.caller (.thread t) ≠ .resuming := by
    rw [acts_idle hacts]
    exact nofun
  unfold rtWorkqueueCancelWorkSync
  split
  · split
    · exact ⟨⟨h.kept.account, h.kept.taken, h.kept.awake, h.kept.ends⟩, h.nodup, h.busy, h.rests,
        h.committed, h.seen⟩
    · exact ⟨⟨h.kept.account, h.kept.taken,
          fun hs hne => resuming_update (h.kept.awake hs hne) hidle, h.kept.ends⟩,
        h.nodup, h.busy, h.rests, h.committed,
        fun hplace hne => resuming_update (h.seen hplace hne) hidle⟩
  · refine remove_inv h hgood fun u v hcancelling => ?_
    rw [hacts.2] at hcancelling
    cases hcancelling

theorem cancel_next_inv {node : Option ω} (h : WqInv s)
    (hcancelling : s.cancelling = some (t, node))
    (hgood : GoodSchedule s (.cancelNext t)) : WqInv (cancelNext s t node) := by
  cases node with
  | none =>
    exact ⟨⟨h.kept.account, h.kept.taken, h.kept.awake, nofun⟩, h.nodup, h.busy, h.rests,
      h.committed, h.seen⟩
  | some work =>
    have hmem := h.kept.ends t work hcancelling
    have hcommitted : s.Committed → s.workList ≠ [work] := by
      intro hcomm hlist
      refine hgood hcomm ?_
      rw [hlist, hcancelling]
      rfl
    -- The invariant of the list, from a state in which the loop stands nowhere.
    have hinv : WqInv ({ s with cancelling := none }.remove work) := by
      refine remove_inv ⟨⟨h.kept.account, h.kept.taken, h.kept.awake, nofun⟩, h.nodup, h.busy,
        h.rests, h.committed, h.seen⟩ hcommitted nofun
    refine ⟨⟨hinv.kept.account, hinv.kept.taken, hinv.kept.awake, fun u v hnext => ?_⟩, hinv.nodup,
      hinv.busy, hinv.rests, hinv.committed, hinv.seen⟩
    have hpair : (t, if work ∈ s.workList then nextOf work s.workList else some work) =
      (u, some v) := some.inj hnext
    rw [if_pos hmem] at hpair
    exact next_of_mem h.nodup (Prod.mk.inj hpair).2

/-- The worker takes the first entry of the list that it was resumed for or has seen. -/
theorem take_inv (h : WqInv s) (hat : s.At .take) : WqInv (takeWork s) := by
  obtain ⟨hplace, hawake, hlock⟩ := hat
  have hne := h.committed ⟨hplace, hawake⟩
  unfold takeWork
  cases hlist : s.workList with
  | nil => exact absurd hlist hne
  | cons work rest =>
    have hnodup := h.nodup
    rw [hlist] at hnodup
    obtain ⟨hnot, hrest⟩ := nodup_cons.mp hnodup
    refine ⟨⟨fun v => ?_, h.kept.taken, fun hs => ?_, fun u v hcancelling => ?_⟩, hrest,
      fun _ => .inl ⟨work, rfl⟩, fun hs => ?_, fun hcomm => ?_, nofun⟩
    · have haccount := h.kept.account v
      have hheld : s.held v = 0 := by
        rw [WqSys.held, hplace, if_neg (by simp)]
      rw [hlist, count_cons, hheld] at haccount
      show s.submitted v = s.cancelled v + s.ran v + rest.count v +
        (if WorkerPlace.running work = .running v then 1 else 0)
      by_cases hv : work = v
      · subst hv
        simpa [add_assoc] using haccount
      · simpa [hv] using haccount
    · exact absurd (hs.symm.trans hawake) nofun
    · exact absurd (hcancelling.symm.trans hlock) nofun
    · exact absurd (hs.symm.trans hawake) nofun
    · exact absurd hcomm.1 nofun

theorem run_inv (h : WqInv s) (hplace : s.worker = .running work) :
    WqInv { s with worker := .finished, ran := bump s.ran work } := by
  refine ⟨⟨fun v => ?_, h.kept.taken, h.kept.awake, h.kept.ends⟩, h.nodup, fun _ => .inr rfl,
    fun hs => ?_, fun hcomm => absurd hcomm.1 nofun, nofun⟩
  · have haccount := h.kept.account v
    show s.submitted v = s.cancelled v + bump s.ran work v + s.workList.count v +
      (if WorkerPlace.finished = .running v then 1 else 0)
    rw [WqSys.held, hplace] at haccount
    by_cases hv : v = work
    · subst hv
      rw [if_pos rfl] at haccount
      rw [bump_self, if_neg nofun]
      omega
    · have hne : WorkerPlace.running work ≠ .running v := fun heq =>
        hv (WorkerPlace.running.inj heq).symm
      rw [if_neg hne] at haccount
      rw [bump_of_ne hv, if_neg nofun]
      exact haccount
  · exact absurd ((h.rests hs).symm.trans hplace) nofun

theorem place_inv {place : WorkerPlace ω} (h : WqInv s) (hawake : s.suspended = false)
    (hcurrent : s.workCurrent = none) (hheld : ∀ v, s.worker ≠ .running v)
    (hplace : ∀ v, place ≠ .running v)
    (hcommitted : place = .take → s.workList ≠ []) (hseen : place = .suspend → s.workList = []) :
    WqInv { s with worker := place } := by
  have hrests : s.suspended ≠ true := by
    rw [hawake]
    exact nofun
  refine ⟨⟨fun v => ?_, h.kept.taken, fun hs => absurd hs hrests, h.kept.ends⟩, h.nodup,
    fun hcur => absurd hcurrent hcur, fun hs => absurd hs hrests, fun hcomm => hcommitted hcomm.1,
    fun hsuspend hne => absurd (hseen hsuspend) hne⟩
  have haccount := h.kept.account v
  rw [WqSys.held, if_neg (hheld v)] at haccount
  show s.submitted v = s.cancelled v + s.ran v + s.workList.count v +
    (if place = .running v then 1 else 0)
  rw [if_neg (hplace v)]
  exact haccount

theorem wq_step_inv {op : WqOp τ ω} (h : WqInv s) (hgood : GoodSchedule s op)
    (hrun : wqStep s op = some s') : WqInv s' := by
  cases op with
  | test =>
    obtain ⟨⟨hplace, hawake, -⟩, heq⟩ := ite_none_right_eq_some.mp hrun
    cases heq
    have hheld : ∀ v, s.worker ≠ .running v := hplace ▸ nofun
    have hcurrent := h.not_busy hheld (hplace ▸ nofun)
    by_cases hnil : s.workList = []
    · rw [if_pos hnil]
      exact place_inv h hawake hcurrent hheld nofun nofun fun _ => hnil
    · rw [if_neg hnil]
      exact place_inv h hawake hcurrent hheld nofun (fun _ => hnil) nofun
  | suspend =>
    obtain ⟨⟨hplace, hawake, -⟩, heq⟩ := ite_none_right_eq_some.mp hrun
    cases heq
    refine ⟨⟨fun v => ?_, h.kept.taken, fun _ hne => h.seen hplace hne, h.kept.ends⟩, h.nodup,
      fun hcur => absurd (h.not_busy (hplace ▸ nofun) (hplace ▸ nofun)) hcur, fun _ => rfl,
      fun hcomm => absurd hcomm.2 nofun, nofun⟩
    have haccount := h.kept.account v
    rw [WqSys.held, hplace, if_neg nofun] at haccount
    show s.submitted v = s.cancelled v + s.ran v + s.workList.count v +
      (if WorkerPlace.take = .running v then 1 else 0)
    exact haccount
  | take =>
    obtain ⟨hat, heq⟩ := ite_none_right_eq_some.mp hrun
    cases heq
    exact take_inv h hat
  | run =>
    simp only [wqStep] at hrun
    split at hrun
    · rename_i work hplace
      obtain ⟨-, heq⟩ := ite_none_right_eq_some.mp hrun
      cases heq
      exact run_inv h hplace
    · cases hrun
  | clear =>
    obtain ⟨⟨hplace, hawake, -⟩, heq⟩ := ite_none_right_eq_some.mp hrun
    cases heq
    have hcleared : WqInv { s with workCurrent := none } :=
      ⟨⟨h.kept.account, h.kept.taken, h.kept.awake, h.kept.ends⟩, h.nodup,
        fun hcur => absurd rfl hcur, h.rests, h.committed, h.seen⟩
    have hheld : ∀ v, s.worker ≠ .running v := hplace ▸ nofun
    exact place_inv hcleared hawake rfl hheld nofun nofun nofun
  | complete =>
    obtain ⟨⟨hplace, hawake, -⟩, hrun⟩ := ite_none_right_eq_some.mp hrun
    obtain ⟨⟨value, caller⟩, -, rfl⟩ := map_eq_some_iff.mp hrun
    have hheld : ∀ v, s.worker ≠ .running v := hplace ▸ nofun
    have hinv : WqInv { s with worker := .test } :=
      place_inv h hawake (h.not_busy hheld (hplace ▸ nofun)) hheld nofun nofun nofun
    refine ⟨⟨hinv.kept.account, hinv.kept.taken, fun hs => ?_, hinv.kept.ends⟩, hinv.nodup,
      hinv.busy, hinv.rests, hinv.committed, nofun⟩
    exact absurd (hs.symm.trans hawake) nofun
  | dowork a work =>
    obtain ⟨-, heq⟩ := ite_none_right_eq_some.mp hrun
    cases heq
    exact dowork_inv h
  | resume a =>
    obtain ⟨-, heq⟩ := ite_none_right_eq_some.mp hrun
    cases heq
    exact resume_inv h hgood
  | cancel a work =>
    obtain ⟨-, heq⟩ := ite_none_right_eq_some.mp hrun
    cases heq
    exact cancel_inv h hgood
  | cancelSync t work =>
    obtain ⟨hacts, heq⟩ := ite_none_right_eq_some.mp hrun
    cases heq
    exact cancel_sync_inv h hacts hgood
  | cancelAll t =>
    obtain ⟨hacts, heq⟩ := ite_none_right_eq_some.mp hrun
    cases heq
    refine ⟨⟨h.kept.account, h.kept.taken, h.kept.awake, fun u v hcancelling => ?_⟩, h.nodup,
      h.busy, h.rests, h.committed, h.seen⟩
    have hhead := (Prod.mk.inj (some.inj hcancelling)).2
    exact mem_of_mem_head? hhead
  | cancelNext t =>
    simp only [wqStep] at hrun
    split at hrun
    · rename_i u node hcancelling
      obtain ⟨rfl, heq⟩ := ite_none_right_eq_some.mp hrun
      cases heq
      exact cancel_next_inv h hcancelling hgood
    · cases hrun

end

theorem wq_start_inv : WqInv (wqStart : WqSys τ ω) :=
  ⟨⟨fun _ => rfl, rfl, nofun, nofun⟩, nodup_nil, fun h => absurd rfl h, nofun,
    fun h => absurd h.1 nofun, nofun⟩

/-- In every run with a good schedule, every state keeps the works. -/
theorem works_kept {ops : List (WqOp τ ω)}
    (hsteps : AllSteps wqStep GoodSchedule (wqStart : WqSys τ ω) ops) :
    Always wqStep WorksKept wqStart ops :=
  always_of_invariant (fun _ _ _ h hgood hstep => wq_step_inv h hgood hstep)
    (fun _ h => h.kept) wq_start_inv hsteps

instance (s : WqSys τ ω) (op : WqOp τ ω) : Decidable (GoodSchedule s op) :=
  match op with
  | .resume _ =>
    inferInstanceAs (Decidable ((s.worker = .suspend → s.workList = []) ∧
      (s.suspended = true → s.workList ≠ [])))
  | .cancel _ work =>
    inferInstanceAs (Decidable ((s.Committed → s.workList ≠ [work]) ∧
      s.cancelling.bind Prod.snd ≠ some work))
  | .cancelSync _ work => inferInstanceAs (Decidable (s.Committed → s.workList ≠ [work]))
  | .cancelNext _ =>
    inferInstanceAs (Decidable (s.Committed →
      s.workList.map some ≠ [s.cancelling.bind Prod.snd]))
  | .test | .suspend | .take | .run | .clear | .complete | .dowork _ _ | .cancelAll _ =>
    .isTrue trivial

/-- Work 7 is submitted to the suspended worker, and work 8 while it runs and then cancelled. -/
def someWqOps : List (WqOp Nat Nat) :=
  [.test, .suspend, .dowork (.thread 1) 7, .resume (.thread 1), .take, .dowork (.isr 0) 8, .run,
   .cancelSync 1 7, .clear, .complete, .cancelAll 1, .cancelNext 1, .cancelNext 1, .test, .suspend]

theorem some_wq_ops_kept : (exec wqStep (wqStart : WqSys Nat Nat) someWqOps).isSome = true ∧
    Always wqStep WorksKept (wqStart : WqSys Nat Nat) someWqOps :=
  ⟨by decide +kernel, works_kept (by decide +kernel)⟩

/-- When a cancel comes between the resume and the worker, it takes from the empty list. -/
theorem cancelled_work_is_taken : ∃ s : WqSys Nat Nat, exec wqStep wqStart
      [.test, .suspend, .dowork (.thread 1) 7, .resume (.thread 1), .cancel (.isr 0) 7, .take] =
        some s ∧ ¬ WorksKept s := by
  have hrun : (exec wqStep (wqStart : WqSys Nat Nat)
      [.test, .suspend, .dowork (.thread 1) 7, .resume (.thread 1), .cancel (.isr 0) 7, .take]).any
      (fun s => s.takenEmpty) = true := by decide +kernel
  obtain ⟨s, hs, htaken⟩ := (Option.any_eq_true _ _).mp hrun
  exact ⟨s, hs, fun hkept => Bool.false_ne_true (hkept.taken.symm.trans htaken)⟩

end FullhanRtos.Workqueue
