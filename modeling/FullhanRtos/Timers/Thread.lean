import FullhanRtos.Timers.Check

/-!
# The timer thread

`rt_thread_timer_entry` of `kernel/src/timer.c`: the thread reads the next deadline of the soft
list, reads the tick, sleeps until the deadline and runs the soft check. These are separate steps,
and a start in between does not wake the thread, because it is not asleep yet. A deadline of
`RT_TICK_MAX` is taken for an empty list.

`thread_wakes_in_time` says that otherwise, and if no tick passes between the reading of the tick
and the sleep, the thread never sleeps beyond a deadline.
-/

namespace FullhanRtos.Timers

open SkipList Transition List Option

set_option linter.unusedSectionVars false

variable {τ : Type} [DecidableEq τ]

/-! ## Data -/

/-- Where the timer thread is. `sleeping` has the deadline of the thread timer. -/
inductive ThreadPhase where
  | loop
  | read (nextTimeout : BitVec 32)
  | current (nextTimeout currentTick : BitVec 32)
  | suspended
  | sleeping (wakeup : BitVec 32)
  | checking
  deriving DecidableEq

/-- The timers, the checks and the timer thread. -/
structure ThreadSys (τ : Type) where
  check : CheckSys τ
  thread : ThreadPhase

def rtTickMax : BitVec 32 := 0xffffffff#32

def rtTimerListNextTimeout (s : TimerSys τ) (soft : Bool) : BitVec 32 :=
  match (bottom (s.rows soft)).head? with
  | none => rtTickMax
  | some t => (s.timer t).timeoutTick

/-! ## Runs -/

/-- The steps of the timers and the checks, and those of the timer thread. -/
inductive ThreadOp (τ : Type) where
  | check (op : CheckOp τ)
  | readTimeout
  | suspend
  | readTick
  | delay
  | wake

def ThreadPhase.asleep : ThreadPhase → Bool
  | .suspended | .sleeping _ => true
  | _ => false

/-- The timer thread after a step of the timers: the start of a soft timer resumes it, and the end
of the soft check leads back to the head of the loop. -/
def threadAfter (x : ThreadSys τ) (after : CheckSys τ) : CheckOp τ → ThreadPhase
  | .call (.start t) =>
    if (x.check.sys.timer t).soft = true ∧ x.thread.asleep = true then .checking else x.thread
  | .softNext => if after.soft = .idle then .loop else x.thread
  | _ => x.thread

/-- A step of the thread itself. `rt_thread_delay` starts the thread timer. -/
def threadNext (s : TimerSys τ) (thread : ThreadPhase) (op : ThreadOp τ) : Option ThreadPhase :=
  match op, thread with
  | .readTimeout, .loop => some (.read (rtTimerListNextTimeout s true))
  | .suspend, .read nextTimeout => if nextTimeout = rtTickMax then some .suspended else none
  | .readTick, .read nextTimeout =>
    if nextTimeout = rtTickMax then none else some (.current nextTimeout s.tick)
  | .delay, .current nextTimeout currentTick =>
    if nextTimeout - currentTick < tickMaxHalf then
      some (.sleeping (s.tick + (nextTimeout - currentTick)))
    else some .checking
  | .wake, .sleeping wakeup => if s.tick - wakeup < tickMaxHalf then some .checking else none
  | _, _ => none

/-- One step. The soft check is run by the thread only, and the thread does not run while
`rt_timer_check` does. -/
def threadStep (config : TimerConfig) (x : ThreadSys τ) : ThreadOp τ → Option (ThreadSys τ)
  | .check op =>
    if op.outer = true ∨ x.thread = .checking then
      (checkStep config x.check op).map fun check => { check, thread := threadAfter x check op }
    else none
  | .wake => (threadNext x.check.sys x.thread .wake).map fun thread => { x with thread }
  | op =>
    if x.check.hard = .idle then
      (threadNext x.check.sys x.thread op).map fun thread => { x with thread }
    else none

def threadStart (config : TimerConfig) (periodic soft : τ → Bool) (initTick : τ → BitVec 32)
    (tick : BitVec 32) : ThreadSys τ where
  check := checkStart config periodic soft initTick tick
  thread := .loop

def NoneEarlier (s : TimerSys τ) (deadline : BitVec 32) : Prop :=
  ∀ t ∈ bottom (s.rows true), (s.timer t).timeoutTick - deadline < tickMaxHalf

/-- A thread that sleeps will wake up at the earliest deadline or before, and it is suspended for
ever only if there is no soft timer. -/
def WakesInTime (x : ThreadSys τ) : Prop :=
  match x.thread with
  | .suspended => bottom (x.check.sys.rows true) = []
  | .sleeping wakeup => NoneEarlier x.check.sys wakeup
  | _ => True

/-! ## The condition -/

def deadlines (s : TimerSys τ) (t : τ) : List (BitVec 32) :=
  (s.tick + (s.timer t).initTick) ::
    ((bottom (s.rows (s.timer t).soft)).erase t).map fun u => (s.timer u).timeoutTick

/-- They are all less than half the tick range after one of them. -/
def Near (s : TimerSys τ) (t : τ) : Prop :=
  ∃ first ∈ deadlines s t, ∀ deadline ∈ deadlines s t, deadline - first < tickMaxHalf

/-- A deadline of a timer that is started now does not matter for what the thread has read. -/
def InWindow (deadline : BitVec 32) : ThreadPhase → Prop
  | .read nextTimeout => nextTimeout ≠ rtTickMax ∧ deadline - nextTimeout < tickMaxHalf
  | .current nextTimeout currentTick =>
    nextTimeout - currentTick < tickMaxHalf → deadline - nextTimeout < tickMaxHalf
  | _ => True

def NoTickPassed (tick : BitVec 32) : ThreadPhase → Prop
  | .current nextTimeout currentTick => nextTimeout - currentTick < tickMaxHalf → tick = currentTick
  | _ => True

/-- The condition on a step: deadlines are near when a soft timer is started, and the start is not
an earlier one that the thread misses; the first deadline is not `RT_TICK_MAX` when the thread reads
it; and no tick has passed when the thread goes to sleep. -/
def ThreadOk (x : ThreadSys τ) : ThreadOp τ → Prop
  | .check (.call (.start t)) => (x.check.sys.timer t).soft = true →
      Near x.check.sys t ∧ InWindow (x.check.sys.tick + (x.check.sys.timer t).initTick) x.thread
  | .check .softReturn => ∀ t, x.check.soft.timer = some t →
      (x.check.sys.timer t).periodic = true → (x.check.sys.timer t).activated = true →
      Near x.check.sys t
  | .readTimeout => ∀ t, (bottom (x.check.sys.rows true)).head? = some t →
      (x.check.sys.timer t).timeoutTick ≠ rtTickMax
  | .delay => NoTickPassed x.check.sys.tick x.thread
  | _ => True

/-! ## Sorted soft timers -/

structure SoftSorted (s : TimerSys τ) : Prop where
  layered : Layered (s.rows true)
  sorted : (bottom (s.rows true)).Pairwise (NotLater s)

/-- Soft timers are only taken out of the list. -/
structure Shrinks (s s' : TimerSys τ) : Prop where
  layered : Layered (s.rows true) → Layered (s'.rows true)
  sublist : (bottom (s'.rows true)).Sublist (bottom (s.rows true))
  deadline : ∀ t ∈ bottom (s'.rows true), (s'.timer t).timeoutTick = (s.timer t).timeoutTick

section

variable {config : TimerConfig} {x x' : CheckSys τ} {s s' : TimerSys τ} {t u : τ}
  {d : BitVec 32}

theorem Shrinks.none_earlier (h : Shrinks s s') (hnone : NoneEarlier s d) : NoneEarlier s' d := by
  intro t ht
  rw [h.deadline t ht]
  exact hnone t (h.sublist.subset ht)

theorem Shrinks.soft_sorted (h : Shrinks s s') (hsorted : SoftSorted s) : SoftSorted s' := by
  refine ⟨h.layered hsorted.layered, ?_⟩
  refine (List.Pairwise.sublist h.sublist hsorted.sorted).imp_of_mem ?_
  intro u v hu hv hnot
  unfold NotLater
  rw [h.deadline u hu, h.deadline v hv]
  exact hnot

theorem shrinks_erase (h : RowsOk config s) (hrows : s'.rows true = eraseRows t (s.rows true))
    (hother : ∀ u, u ≠ t → (s'.timer u).timeoutTick = (s.timer u).timeoutTick) :
    Shrinks s s' := by
  refine ⟨fun hlayered => ?_, ?_, fun u hu => ?_⟩
  · rw [hrows]
    exact erase_rows_layered hlayered
  · rw [hrows, bottom_erase]
    exact erase_sublist
  · rw [hrows, bottom_erase] at hu
    have hnodup := (h.nested true).nodup _ (bottom_mem h.ne_nil)
    exact hother u (hnodup.mem_erase_iff.mp hu).1

theorem shrinks_same (hrows : s'.rows true = s.rows true)
    (hdeadline : ∀ u, (s'.timer u).timeoutTick = (s.timer u).timeoutTick) : Shrinks s s' := by
  refine ⟨fun hlayered => ?_, ?_, fun u _ => hdeadline u⟩
  · rw [hrows]
    exact hlayered
  · rw [hrows]

theorem shrinks_start (h : RowsOk config s) (ht : (s.timer t).soft = false)
    (hrun : rtTimerStart config s t = some s') : Shrinks s s' := by
  have hspec := start_spec h hrun
  refine shrinks_erase (t := t) h (start_other_rows h (by rw [ht]; decide) hrun) ?_
  intro u hu
  rw [hspec.other u hu]

theorem shrinks_call {op : RowOp τ} (h : RowsOk config s)
    (hop : ∀ t, op = .start t → (s.timer t).soft = false)
    (hrun : callTimer config s op = some s') : Shrinks s s' := by
  cases op with
  | start t => exact shrinks_start h (hop t rfl) hrun
  | stop t =>
    cases hrun
    rcases stop_spec (s := s) (t := t) with ⟨-, hstop⟩ | ⟨-, hstop⟩
    · rw [hstop]
      refine shrinks_erase (t := t) h rfl ?_
      intro u hu
      rw [deactivate, update_other hu, remove_timer]
    · rw [hstop]
      exact shrinks_same rfl fun u => rfl
  | control t setting =>
    cases hrun
    refine shrinks_same (by cases setting <;> rfl) ?_
    intro u
    by_cases hut : u = t
    · subst hut
      cases setting <;> simp [rtTimerControl]
    · cases setting <;> simp [rtTimerControl, update_other hut]
  | tick ticks =>
    cases hrun
    exact shrinks_same rfl fun u => rfl

theorem shrinks_remove (h : RowsOk config s) : Shrinks s (rtTimerRemove s t) :=
  shrinks_erase (t := t) h rfl fun _ _ => rfl

theorem shrinks_deactivated :
    Shrinks s (s.update t fun timer => { timer with activated := false }) := by
  refine shrinks_same rfl ?_
  intro u
  by_cases hut : u = t
  · rw [hut, update_self]
  · rw [update_other hut]

theorem Shrinks.trans {s1 : TimerSys τ} (h : Shrinks s s1) (h' : Shrinks s1 s') : Shrinks s s' := by
  refine ⟨fun hlayered => h'.layered (h.layered hlayered), h'.sublist.trans h.sublist, ?_⟩
  intro u hu
  exact (h'.deadline u hu).trans (h.deadline u (h'.sublist.subset hu))

theorem shrinks_exit (h : RowsOk config s)
    (hnot : (s.timer t).soft = true →
      ¬ ((s.timer t).periodic = true ∧ (s.timer t).activated = true))
    (hrun : exitTimer config s t = some s') : Shrinks s s' := by
  unfold exitTimer at hrun
  split at hrun
  · rename_i hrestart
    have hsoft : (s.timer t).soft = false := Bool.eq_false_iff.mpr fun hsoft => hnot hsoft hrestart
    refine shrinks_deactivated.trans (shrinks_start (h.update rfl) ?_ hrun)
    rw [update_self]
    exact hsoft
  · cases hrun
    exact shrinks_deactivated

theorem sorted_start (h : RowsOk config s) (hsorted : SoftSorted s)
    (ht : (s.timer t).soft = true) (hnear : Near s t) (hrun : rtTimerStart config s t = some s') :
    SoftSorted s' := by
  have hspec := start_spec h hrun
  have hnodup := (h.nested true).nodup _ (bottom_mem (h.ne_nil (b := true)))
  obtain ⟨first, -, hfirst⟩ := hnear
  have hself : s.tick + (s.timer t).initTick - first < tickMaxHalf := hfirst _ mem_cons_self
  have hothers : ∀ u ∈ bottom (s.rows true), u ≠ t →
      (s.timer u).timeoutTick - first < tickMaxHalf := by
    intro u hu hut
    refine hfirst _ (mem_cons_of_mem _ (List.mem_map.mpr ⟨u, ?_, rfl⟩))
    rw [ht]
    exact hnodup.mem_erase_iff.mpr ⟨hut, hu⟩
  have hdeadline : (s'.timer t).timeoutTick = s.tick + (s.timer t).initTick := by rw [hspec.self]
  have hplaces := start_places first (t := t) h (by rw [ht]; exact hsorted.layered)
    (by rw [ht]; exact hsorted.sorted) (by rw [ht]; exact hothers) hself hrun
  rw [ht] at hplaces
  refine ⟨hplaces.1, hplaces.2 _ ?_ ?_ ?_⟩
  · refine (List.Pairwise.sublist erase_sublist hsorted.sorted).imp_of_mem ?_
    intro u v hu hv hnot
    unfold NotLater
    rw [hspec.other u (hnodup.mem_erase_iff.mp hu).1, hspec.other v (hnodup.mem_erase_iff.mp hv).1]
    exact hnot
  · intro u hu hut hle
    unfold NotLater
    rw [hspec.other u hut, hdeadline]
    exact (sub_lt_half_iff (hothers u hu hut) hself).mpr hle
  · intro u hu hut hlt
    unfold NotLater
    rw [hspec.other u hut, hdeadline]
    exact (sub_lt_half_iff hself (hothers u hu hut)).mpr (BitVec.le_of_lt hlt)

theorem near_deactivated :
    Near (s.update t fun timer => { timer with activated := false }) t ↔ Near s t := by
  have hsame : deadlines (s.update t fun timer => { timer with activated := false }) t =
      deadlines s t := by
    unfold deadlines
    rw [update_self, update_rows, update_tick]
    refine congrArg _ (map_congr_left ?_)
    intro u _
    by_cases hut : u = t
    · rw [hut, update_self]
    · rw [update_other hut]
  unfold Near
  rw [hsame]

theorem sorted_exit (h : RowsOk config s) (hsorted : SoftSorted s) (ht : (s.timer t).soft = true)
    (hnear : (s.timer t).periodic = true → (s.timer t).activated = true → Near s t)
    (hrun : exitTimer config s t = some s') : SoftSorted s' := by
  by_cases hrestart : (s.timer t).periodic = true ∧ (s.timer t).activated = true
  · have hstart : rtTimerStart config
        (s.update t fun timer => { timer with activated := false }) t = some s' := by
      rw [← hrun]
      exact (if_pos hrestart).symm
    refine sorted_start (h.update rfl) (shrinks_deactivated.soft_sorted hsorted) ?_ ?_ hstart
    · rw [update_self]
      exact ht
    · exact near_deactivated.mpr (hnear hrestart.1 hrestart.2)
  · exact (shrinks_exit h (fun _ => hrestart) hrun).soft_sorted hsorted

end

/-! ## The invariant -/

/-- What the thread relies on: nothing earlier than what it has read. -/
def PhaseOk (s : TimerSys τ) : ThreadPhase → Prop
  | .read nextTimeout =>
    (nextTimeout = rtTickMax → bottom (s.rows true) = []) ∧
      (nextTimeout ≠ rtTickMax → NoneEarlier s nextTimeout)
  | .current nextTimeout currentTick =>
    nextTimeout - currentTick < tickMaxHalf → NoneEarlier s nextTimeout
  | .suspended => bottom (s.rows true) = []
  | .sleeping wakeup => NoneEarlier s wakeup
  | .loop | .checking => True

structure ThreadInv (config : TimerConfig) (x : ThreadSys τ) : Prop where
  kinds : KindsOk config x.check
  sorted : SoftSorted x.check.sys
  phase : PhaseOk x.check.sys x.thread

section

variable {config : TimerConfig} {x x' : ThreadSys τ} {s s' : TimerSys τ} {t : τ}
  {thread : ThreadPhase} {op : ThreadOp τ}

theorem ThreadInv.wakes_in_time (h : ThreadInv config x) : WakesInTime x := by
  have hphase := h.phase
  unfold WakesInTime
  cases hthread : x.thread with
  | suspended =>
    rw [hthread] at hphase
    exact hphase
  | sleeping wakeup =>
    rw [hthread] at hphase
    exact hphase
  | loop | read nextTimeout | current nextTimeout currentTick | checking => trivial

theorem Shrinks.phase_ok (h : Shrinks s s') (hphase : PhaseOk s thread) : PhaseOk s' thread := by
  have hempty : bottom (s.rows true) = [] → bottom (s'.rows true) = [] := by
    intro hnil
    exact eq_nil_of_sublist_nil (hnil ▸ h.sublist)
  cases thread with
  | read nextTimeout =>
    exact ⟨fun hmax => hempty (hphase.1 hmax), fun hmax => h.none_earlier (hphase.2 hmax)⟩
  | current nextTimeout currentTick => exact fun hnear => h.none_earlier (hphase hnear)
  | suspended => exact hempty hphase
  | sleeping wakeup => exact h.none_earlier hphase
  | loop => trivial
  | checking => trivial

theorem phase_ok_start (h : RowsOk config s) (ht : (s.timer t).soft = true)
    (hrun : rtTimerStart config s t = some s') (hasleep : thread.asleep = false)
    (hwindow : InWindow (s.tick + (s.timer t).initTick) thread) (hphase : PhaseOk s thread) :
    PhaseOk s' thread := by
  have hspec := start_spec h hrun
  have hnone : ∀ d, s.tick + (s.timer t).initTick - d < tickMaxHalf → NoneEarlier s d →
      NoneEarlier s' d := by
    intro d hd hold u hu
    rcases (hspec.linked true u).mp hu with ⟨rfl, -⟩ | ⟨hut, hu⟩
    · rw [hspec.self]
      exact hd
    · rw [hspec.other u hut]
      exact hold u hu
  cases thread with
  | read nextTimeout =>
    obtain ⟨hmax, hd⟩ := hwindow
    exact ⟨fun heq => absurd heq hmax, fun _ => hnone _ hd (hphase.2 hmax)⟩
  | current nextTimeout currentTick => exact fun hnear => hnone _ (hwindow hnear) (hphase hnear)
  | suspended => cases hasleep
  | sleeping wakeup => cases hasleep
  | loop => trivial
  | checking => trivial

theorem ThreadInv.start (h : ThreadInv config x) (ht : (x.check.sys.timer t).soft = true)
    (hnear : Near x.check.sys t)
    (hwindow : InWindow (x.check.sys.tick + (x.check.sys.timer t).initTick) x.thread)
    (hrun : rtTimerStart config x.check.sys t = some s') :
    SoftSorted s' ∧ PhaseOk s' (if x.thread.asleep = true then .checking else x.thread) := by
  refine ⟨sorted_start h.kinds.ok h.sorted ht hnear hrun, ?_⟩
  split
  · trivial
  · rename_i hasleep
    exact phase_ok_start h.kinds.ok ht hrun (Bool.eq_false_iff.mpr hasleep) hwindow h.phase

theorem head_none_earlier {l : List τ} (hsorted : (t :: l).Pairwise (NotLater s)) :
    ∀ u ∈ t :: l, (s.timer u).timeoutTick - (s.timer t).timeoutTick < tickMaxHalf := by
  intro u hu
  rcases mem_cons.mp hu with rfl | hu
  · rw [BitVec.sub_self]
    decide
  · exact (pairwise_cons.mp hsorted).1 u hu

theorem read_phase_ok (hsorted : SoftSorted s)
    (hmax : ∀ t, (bottom (s.rows true)).head? = some t → (s.timer t).timeoutTick ≠ rtTickMax) :
    PhaseOk s (.read (rtTimerListNextTimeout s true)) := by
  have hpair := hsorted.sorted
  unfold PhaseOk rtTimerListNextTimeout
  cases hrow : bottom (s.rows true) with
  | nil => simp
  | cons t l =>
    rw [hrow] at hmax hpair
    refine ⟨fun heq => absurd heq (hmax t rfl), fun _ => ?_⟩
    unfold NoneEarlier
    rw [hrow]
    exact head_none_earlier hpair

theorem thread_next_phase (hsorted : SoftSorted x.check.sys) (hphase : PhaseOk x.check.sys x.thread)
    (hok : ThreadOk x op) (hrun : threadNext x.check.sys x.thread op = some thread) :
    PhaseOk x.check.sys thread := by
  unfold threadNext at hrun
  split at hrun
  · cases hrun
    exact read_phase_ok hsorted hok
  · rename_i nextTimeout hthread
    obtain ⟨hmax, heq⟩ := ite_none_right_eq_some.mp hrun
    cases heq
    rw [hthread] at hphase
    exact hphase.1 hmax
  · rename_i nextTimeout hthread
    obtain ⟨hmax, heq⟩ := ite_none_left_eq_some.mp hrun
    cases heq
    rw [hthread] at hphase
    exact fun _ => hphase.2 hmax
  · rename_i nextTimeout currentTick hthread
    rw [hthread] at hphase
    split at hrun
    · rename_i hnear
      cases hrun
      -- no tick has passed, so the thread wakes up at the deadline that it has read
      have htick : x.check.sys.tick = currentTick := by
        have hpassed : NoTickPassed x.check.sys.tick x.thread := hok
        rw [hthread] at hpassed
        exact hpassed hnear
      have hwakeup : x.check.sys.tick + (nextTimeout - currentTick) = nextTimeout := by
        rw [htick, add_comm, BitVec.sub_add_cancel]
      rw [hwakeup]
      exact hphase hnear
    · cases hrun
      trivial
  · obtain ⟨-, heq⟩ := ite_none_right_eq_some.mp hrun
    cases heq
    trivial
  · cases hrun

theorem thread_check_inv {op : CheckOp τ} {check : CheckSys τ} (h : ThreadInv config x)
    (hok : ThreadOk x (.check op)) (hthread : op.outer = true ∨ x.thread = .checking)
    (hrun : checkStep config x.check op = some check) :
    SoftSorted check.sys ∧ PhaseOk check.sys (threadAfter x check op) := by
  have hshrinks : Shrinks x.check.sys check.sys → threadAfter x check op = x.thread →
      SoftSorted check.sys ∧ PhaseOk check.sys (threadAfter x check op) := by
    intro hshrinks hsame
    rw [hsame]
    exact ⟨hshrinks.soft_sorted h.sorted, hshrinks.phase_ok h.phase⟩
  cases check_step_cases hrun with
  | @call op s hcall =>
    cases op with
    | start t =>
      by_cases ht : (x.check.sys.timer t).soft = true
      · have hafter : threadAfter x { x.check with sys := s } (.call (.start t)) =
            if x.thread.asleep = true then .checking else x.thread := by
          simp [threadAfter, ht]
        rw [hafter]
        exact h.start ht (hok ht).1 (hok ht).2 hcall
      · refine hshrinks (shrinks_start h.kinds.ok (Bool.eq_false_iff.mpr ht) hcall) ?_
        exact if_neg fun hboth => ht hboth.1
    | stop t => exact hshrinks (shrinks_call h.kinds.ok (by intro u heq; cases heq) hcall) rfl
    | control t setting =>
      exact hshrinks (shrinks_call h.kinds.ok (by intro u heq; cases heq) hcall) rfl
    | tick ticks => exact hshrinks (shrinks_call h.kinds.ok (by intro u heq; cases heq) hcall) rfl
  | check hhard => exact hshrinks (shrinks_same rfl fun _ => rfl) rfl
  | @next currentTick hhard =>
    rcases hard_next_cases x.check currentTick with hidle | ⟨t, -, hfire⟩
    · rw [hidle] at hshrinks ⊢
      exact hshrinks (shrinks_same rfl fun _ => rfl) rfl
    · rw [hfire] at hshrinks ⊢
      exact hshrinks (shrinks_remove h.kinds.ok) rfl
  | @checkReturn t s hhard hexit =>
    refine hshrinks (shrinks_exit h.kinds.ok (fun hsoft => ?_) hexit) rfl
    have hkind := h.kinds.hard t (by rw [hhard]; rfl)
    exact absurd (hsoft.symm.trans hkind) (by decide)
  | softCheck hsoft => exact hshrinks (shrinks_same rfl fun _ => rfl) rfl
  | softBegin hsoft => exact hshrinks (shrinks_same rfl fun _ => rfl) rfl
  | @softNext n currentTick hsoft =>
    have hchecking : x.thread = .checking := hthread.resolve_left fun houter => nomatch houter
    have hphase : ∀ s : TimerSys τ,
        PhaseOk s (threadAfter x (softNext x.check n currentTick) .softNext) := by
      intro s
      unfold threadAfter
      dsimp only
      split
      · trivial
      · rw [hchecking]
        trivial
    refine ⟨?_, hphase _⟩
    rcases soft_next_cases x.check n currentTick with ⟨-, hidle⟩ | ⟨t, -, -, hfire⟩
    · rw [hidle]
      exact h.sorted
    · rw [hfire]
      exact (shrinks_remove h.kinds.ok).soft_sorted h.sorted
  | softReread hsoft => exact hshrinks (shrinks_same rfl fun _ => rfl) rfl
  | @softReturn t n currentTick s hsoft hexit =>
    have hchecking : x.thread = .checking := hthread.resolve_left fun houter => nomatch houter
    have htimer : x.check.soft.timer = some t := by rw [hsoft]; rfl
    refine ⟨?_, ?_⟩
    · exact sorted_exit h.kinds.ok h.sorted (h.kinds.soft t htimer) (hok t htimer) hexit
    · show PhaseOk s x.thread
      rw [hchecking]
      trivial

/-- Every step that meets the condition keeps the invariant. -/
theorem thread_step_inv (h : ThreadInv config x) (hok : ThreadOk x op)
    (hrun : threadStep config x op = some x') : ThreadInv config x' := by
  have hown : ∀ op' thread, ThreadOk x op' →
      threadNext x.check.sys x.thread op' = some thread →
      ThreadInv config { x with thread := thread } := by
    intro op' thread hok' hnext
    have hphase : PhaseOk x.check.sys thread := thread_next_phase h.sorted h.phase hok' hnext
    exact ⟨h.kinds, h.sorted, hphase⟩
  cases op with
  | check op =>
    obtain ⟨hthread, hstep⟩ := ite_none_right_eq_some.mp hrun
    obtain ⟨check, hcheck, rfl⟩ := map_eq_some_iff.mp hstep
    obtain ⟨hsorted, hphase⟩ := thread_check_inv h hok hthread hcheck
    exact ⟨check_step_kinds h.kinds hcheck, hsorted, hphase⟩
  | wake =>
    obtain ⟨thread, hnext, rfl⟩ := map_eq_some_iff.mp hrun
    exact hown .wake thread hok hnext
  | readTimeout =>
    obtain ⟨-, hstep⟩ := ite_none_right_eq_some.mp hrun
    obtain ⟨thread, hnext, rfl⟩ := map_eq_some_iff.mp hstep
    exact hown .readTimeout thread hok hnext
  | suspend =>
    obtain ⟨-, hstep⟩ := ite_none_right_eq_some.mp hrun
    obtain ⟨thread, hnext, rfl⟩ := map_eq_some_iff.mp hstep
    exact hown .suspend thread hok hnext
  | readTick =>
    obtain ⟨-, hstep⟩ := ite_none_right_eq_some.mp hrun
    obtain ⟨thread, hnext, rfl⟩ := map_eq_some_iff.mp hstep
    exact hown .readTick thread hok hnext
  | delay =>
    obtain ⟨-, hstep⟩ := ite_none_right_eq_some.mp hrun
    obtain ⟨thread, hnext, rfl⟩ := map_eq_some_iff.mp hstep
    exact hown .delay thread hok hnext

theorem thread_start_inv {periodic soft : τ → Bool} {initTick : τ → BitVec 32} {tick : BitVec 32} :
    ThreadInv config (threadStart config periodic soft initTick tick) := by
  refine ⟨check_start_kinds, ⟨?_, ?_⟩, trivial⟩
  · exact pairwise_replicate.mpr (.inr (Sublist.refl _))
  · have hbottom : bottom ((threadStart config periodic soft initTick tick).check.sys.rows true) =
        [] := bottom_replicate
    rw [hbottom]
    exact .nil

end

/-- In every run whose steps meet the condition, a timer thread that sleeps wakes up at the earliest
deadline of the soft timers or before, and is suspended for ever only if there is none. -/
theorem thread_wakes_in_time {config : TimerConfig} {periodic soft : τ → Bool}
    {initTick : τ → BitVec 32} {tick : BitVec 32} {ops : List (ThreadOp τ)}
    (hsteps : AllSteps (threadStep config) ThreadOk (threadStart config periodic soft initTick tick)
      ops) :
    Always (threadStep config) WakesInTime (threadStart config periodic soft initTick tick) ops :=
  always_of_invariant (fun _ _ _ => thread_step_inv) (fun _ h => h.wakes_in_time) thread_start_inv
    hsteps

instance (deadline : BitVec 32) (thread : ThreadPhase) : Decidable (InWindow deadline thread) :=
  match thread with
  | .read _ => inferInstanceAs (Decidable (_ ∧ _))
  | .current .. => inferInstanceAs (Decidable (_ → _))
  | .loop | .suspended | .sleeping _ | .checking => .isTrue trivial

instance (tick : BitVec 32) (thread : ThreadPhase) : Decidable (NoTickPassed tick thread) :=
  match thread with
  | .current .. => inferInstanceAs (Decidable (_ → _))
  | .loop | .read _ | .suspended | .sleeping _ | .checking => .isTrue trivial

-- over the list, and not over all 32-bit values
instance (s : TimerSys τ) (t : τ) : Decidable (Near s t) :=
  decidable_of_iff
    (((deadlines s t).any fun first => (deadlines s t).all fun d =>
      decide (d - first < tickMaxHalf)) = true)
    (by simp [Near])

instance (x : ThreadSys τ) (op : ThreadOp τ) : Decidable (ThreadOk x op) :=
  match op with
  | .check (.call (.start _)) => inferInstanceAs (Decidable (_ → _ ∧ _))
  | .check .softReturn =>
    inferInstanceAs (Decidable (∀ t ∈ x.check.soft.timer,
      (x.check.sys.timer t).periodic = true → (x.check.sys.timer t).activated = true →
      Near x.check.sys t))
  | .readTimeout =>
    inferInstanceAs (Decidable (∀ t ∈ (bottom (x.check.sys.rows true)).head?,
      (x.check.sys.timer t).timeoutTick ≠ rtTickMax))
  | .delay => inferInstanceAs (Decidable (NoTickPassed _ _))
  | .check (.call (.stop _)) | .check (.call (.control ..)) | .check (.call (.tick _)) |
    .check .check | .check .next | .check .checkReturn | .check .softCheck | .check .softBegin |
    .check .softNext | .check .softReread | .suspend | .readTick | .wake => .isTrue trivial

instance (x : ThreadSys τ) : Decidable (WakesInTime x) :=
  match h : x.thread with
  | .suspended => decidable_of_iff (bottom (x.check.sys.rows true) = []) (by simp [WakesInTime, h])
  | .sleeping wakeup =>
    decidable_of_iff (∀ t ∈ bottom (x.check.sys.rows true),
      (x.check.sys.timer t).timeoutTick - wakeup < tickMaxHalf)
      (by simp [WakesInTime, h, NoneEarlier])
  | .loop | .read _ | .current .. | .checking => .isTrue (by simp [WakesInTime, h])

/-- Two soft timers, and timer 0 is periodic. -/
def someThreadStart (tick : BitVec 32) : ThreadSys (Fin 2) :=
  threadStart someRowConfig (fun t => decide (t.val = 0)) (fun _ => true)
    (fun t => [50#32, 5#32][t.val]!) tick

/-- The thread is suspended, resumed by a start, sleeps until the deadline and runs the check; then
it sleeps again, and an earlier timer wakes it. -/
def someThreadOps : List (ThreadOp (Fin 2)) :=
  [.readTimeout, .suspend, .check (.call (.start 0)), .check .softCheck, .check .softBegin,
    .check .softNext, .readTimeout, .readTick, .delay, .check (.call (.tick 50#32)), .wake,
    .check .softCheck, .check .softBegin, .check .softNext, .check .softReread, .check .softReturn,
    .check .softNext, .readTimeout, .readTick, .delay, .check (.call (.start 1)), .check .softCheck,
    .check .softBegin, .check .softNext, .readTimeout, .readTick, .delay]

theorem some_thread_ops_in_time :
    (∃ x, exec (threadStep someRowConfig) (someThreadStart 0xffffffd8#32) someThreadOps = some x ∧
        x.thread = .sleeping 15#32) ∧
      Always (threadStep someRowConfig) WakesInTime (someThreadStart 0xffffffd8#32)
        someThreadOps := by
  constructor
  · have hrun : Option.any (fun x : ThreadSys (Fin 2) => decide (x.thread = .sleeping 15#32))
        (exec (threadStep someRowConfig) (someThreadStart 0xffffffd8#32) someThreadOps) = true := by
      decide +kernel
    obtain ⟨x, hx, hthread⟩ := (Option.any_eq_true _ _).mp hrun
    exact ⟨x, hx, of_decide_eq_true hthread⟩
  · exact thread_wakes_in_time (by decide +kernel)

/-- A deadline of `RT_TICK_MAX`. -/
def lastTickOps : List (ThreadOp (Fin 2)) := [.check (.call (.start 1)), .readTimeout, .suspend]

/-- An earlier timer is started after the thread has read the deadline. -/
def missedStartOps : List (ThreadOp (Fin 2)) :=
  [.check (.call (.start 0)), .readTimeout, .readTick, .check (.call (.start 1)), .delay]

/-- Three ticks pass before the thread sleeps. -/
def lateSleepOps : List (ThreadOp (Fin 2)) :=
  [.check (.call (.start 0)), .readTimeout, .readTick, .check (.call (.tick 3#32)), .delay]

/-- The thread goes to sleep like this and will be late. -/
def Oversleeps (start : ThreadSys (Fin 2)) (ops : List (ThreadOp (Fin 2))) (thread : ThreadPhase) :
    Prop :=
  ∃ x, exec (threadStep someRowConfig) start ops = some x ∧ x.thread = thread ∧ ¬ WakesInTime x

theorem oversleeps_of_run {start : ThreadSys (Fin 2)} {ops : List (ThreadOp (Fin 2))}
    {thread : ThreadPhase}
    (hrun : Option.any (fun x : ThreadSys (Fin 2) => decide (x.thread = thread ∧ ¬ WakesInTime x))
      (exec (threadStep someRowConfig) start ops) = true) : Oversleeps start ops thread := by
  obtain ⟨x, hx, hlate⟩ := (Option.any_eq_true _ _).mp hrun
  exact ⟨x, hx, of_decide_eq_true hlate⟩

/-- The thread sleeps for ever, or beyond the deadline. -/
theorem thread_oversleeps :
    Oversleeps (someThreadStart 0xfffffffa#32) lastTickOps .suspended ∧
      Oversleeps (someThreadStart 0#32) missedStartOps (.sleeping 50#32) ∧
      Oversleeps (someThreadStart 0#32) lateSleepOps (.sleeping 53#32) := by
  refine ⟨oversleeps_of_run ?_, oversleeps_of_run ?_, oversleeps_of_run ?_⟩
  · decide +kernel
  · decide +kernel
  · decide +kernel

end FullhanRtos.Timers
