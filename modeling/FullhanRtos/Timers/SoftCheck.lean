import FullhanRtos.Timers.Check

/-!
# Calls of the soft timer check

One call of `rt_soft_timer_check` whose timeout functions do what they like: `Behaviour` gives the
steps that are taken while each of them runs. `softPasses` is the state after a number of passes
through the loop.

The check goes on from the node that it saved before it called the timeout function. If that timer
was stopped meanwhile, its node points to itself: the check runs the timeout function of a stopped
timer and never leaves the node. `soft_check_ok` says that otherwise the check never runs a stopped
timer, and that it ends unless a timer that was started in the call is due in the same call.
-/

namespace FullhanRtos.Timers

open SkipList Transition List Option

set_option linter.unusedSectionVars false

variable {τ : Type} [DecidableEq τ] {currentTick : BitVec 32}

/-! ## Runs with a history -/

/-- Who started a timer: a caller of `rt_timer_start`, or a check after the timeout function. -/
inductive Starter where
  | caller
  | check
  deriving DecidableEq

/-- The checks with their history: the timers that were stopped with `RT_EOK` and not started since,
and the last start of each timer since `rt_soft_timer_check` was entered. -/
structure CheckRun (τ : Type) where
  check : CheckSys τ
  stopped : τ → Bool
  starter : τ → Option Starter

namespace CheckRun

/-- The step starts a timer. -/
def started (y : CheckRun τ) (x : CheckSys τ) (starter : Starter) (t : τ) : CheckRun τ where
  check := x
  stopped := Function.update y.stopped t false
  starter := Function.update y.starter t (some starter)

/-- The step stops a timer. -/
def halted (y : CheckRun τ) (x : CheckSys τ) (t : τ) : CheckRun τ :=
  if (rtTimerStop y.check.sys t).1 = true then
    { y with check := x, stopped := Function.update y.stopped t true }
  else { y with check := x }

/-- The step ends a check with this timer. -/
def exited (y : CheckRun τ) (x : CheckSys τ) : Option τ → CheckRun τ
  | some t =>
    if (y.check.sys.timer t).periodic = true ∧ (y.check.sys.timer t).activated = true then
      y.started x .check t
    else { y with check := x }
  | none => { y with check := x }

/-- The history after a step to `x`. -/
def record (y : CheckRun τ) (x : CheckSys τ) : CheckOp τ → CheckRun τ
  | .call (.start t) => y.started x .caller t
  | .call (.stop t) => y.halted x t
  | .checkReturn => y.exited x y.check.hard.timer
  | .softReturn => y.exited x y.check.soft.timer
  | .softCheck => { y with check := x, starter := fun _ => none }
  | _ => { y with check := x }

end CheckRun

def runStep (config : TimerConfig) (y : CheckRun τ) (op : CheckOp τ) : Option (CheckRun τ) :=
  (checkStep config y.check op).map fun x => y.record x op

def runStart (config : TimerConfig) (periodic soft : τ → Bool) (initTick : τ → BitVec 32)
    (tick : BitVec 32) : CheckRun τ where
  check := checkStart config periodic soft initTick tick
  stopped := fun _ => false
  starter := fun _ => none

/-! ## One call -/

/-- What happens while the soft check has interrupts enabled: before it disables them for the first
time, in the timeout function of pass `k`, and after the check has read the tick again. -/
structure Behaviour (τ : Type) where
  before : List (CheckOp τ)
  during : Nat → List (CheckOp τ)
  after : Nat → List (CheckOp τ)
  before_outer : ∀ op ∈ before, op.outer = true
  during_outer : ∀ k, ∀ op ∈ during k, op.outer = true
  after_outer : ∀ k, ∀ op ∈ after k, op.outer = true

/-- The steps of the check from a call of a timeout function to the next pass. -/
def Behaviour.callback (β : Behaviour τ) (k : Nat) : List (CheckOp τ) :=
  β.during k ++ .softReread :: (β.after k ++ [.softReturn])

/-- A pass through the loop, with the timeout function if one is called. -/
def softPass (config : TimerConfig) (β : Behaviour τ) (k : Nat) (y : CheckRun τ) :
    Option (CheckRun τ) :=
  match y.check.soft with
  | .scanning .. => do
      let z ← runStep config y .softNext
      match z.check.soft with
      | .calling .. => exec (runStep config) z (β.callback k)
      | _ => pure z
  | _ => some y

def softPasses (config : TimerConfig) (β : Behaviour τ) (y : CheckRun τ) : Nat → Option (CheckRun τ)
  | 0 => exec (runStep config) y (.softCheck :: (β.before ++ [.softBegin]))
  | n + 1 => softPasses config β y n >>= softPass config β n

/-- The next pass calls the timeout function of the timer. -/
def FiresNext (y : CheckRun τ) (t : τ) : Prop :=
  ∃ currentTick, y.check.soft = .scanning (some t) currentTick ∧
    due y.check.sys currentTick t = true

/-- No timeout function of a stopped timer is called. -/
def NeverStopped (config : TimerConfig) (β : Behaviour τ) (y : CheckRun τ) : Prop :=
  ∀ n z t, softPasses config β y n = some z → FiresNext z t → z.stopped t = false

/-- No timer that was started since the call began is due when its turn comes. -/
def NeverStartedDue (starter : Starter) (config : TimerConfig) (β : Behaviour τ) (y : CheckRun τ) :
    Prop :=
  ∀ n z t, softPasses config β y n = some z → FiresNext z t → z.starter t ≠ some starter

/-- The call returns. A failed assertion ends it as well. -/
def Terminates (config : TimerConfig) (β : Behaviour τ) (y : CheckRun τ) : Prop :=
  ∃ n, ∀ z, softPasses config β y n = some z → z.check.soft = .idle

/-- What is asked of a call: no stopped timer is run, and the call returns if no timer is due that
was started by a timeout function in this call. -/
structure CallOk (config : TimerConfig) (β : Behaviour τ) (y : CheckRun τ) : Prop where
  never_stopped : NeverStopped config β y
  terminates : NeverStartedDue .caller config β y → Terminates config β y

/-- The timer that follows in the list is still linked when a timeout function has returned, or it
is not due. -/
def NextKept (config : TimerConfig) (β : Behaviour τ) (y : CheckRun τ) : Prop :=
  ∀ n z t, softPasses config β y n = some z → FiresNext z t → z.check.sys.Linked t

/-! ## What happens to a timer -/

inductive Fate (y z : CheckRun τ) (t : τ) : Prop where
  | started (hlinked : z.check.sys.Linked t) (hstopped : z.stopped t = false)
      (hstarter : z.starter t ≠ none)
  | stopped (hlinked : ¬ z.check.sys.Linked t) (hstopped : z.stopped t = true)
  | same (hlinked : z.check.sys.Linked t ↔ y.check.sys.Linked t)
      (hstopped : z.stopped t = y.stopped t) (hstarter : z.starter t = y.starter t)

section

variable {config : TimerConfig} {y z w : CheckRun τ} {x : CheckSys τ} {s : TimerSys τ} {t u : τ}
  {op : CheckOp τ} {ops : List (CheckOp τ)}

theorem Fate.trans (h : Fate y z t) (h' : Fate z w t) : Fate y w t := by
  cases h' with
  | started hlinked hstopped hstarter => exact .started hlinked hstopped hstarter
  | stopped hlinked hstopped => exact .stopped hlinked hstopped
  | same hlinked hstopped hstarter =>
    cases h with
    | started hlinked' hstopped' hstarter' =>
      refine .started (hlinked.mpr hlinked') (hstopped.trans hstopped') ?_
      rw [hstarter]
      exact hstarter'
    | stopped hlinked' hstopped' =>
      exact .stopped (fun hmem => hlinked' (hlinked.mp hmem)) (hstopped.trans hstopped')
    | same hlinked' hstopped' hstarter' =>
      exact .same (hlinked.trans hlinked') (hstopped.trans hstopped') (hstarter.trans hstarter')

theorem Fate.linked_not_stopped (h : Fate y z t)
    (hy : y.check.sys.Linked t → y.stopped t = false) :
    z.check.sys.Linked t → z.stopped t = false := by
  intro hlinked
  cases h with
  | started _ hstopped _ => exact hstopped
  | stopped hnot _ => exact absurd hlinked hnot
  | same hsame hstopped _ => exact hstopped.trans (hy (hsame.mp hlinked))

/-- A timer leaves the list only by being stopped. -/
theorem Fate.linked_or_stopped (h : Fate y z t) (hy : y.check.sys.Linked t ∨ y.stopped t = true) :
    z.check.sys.Linked t ∨ z.stopped t = true := by
  cases h with
  | started hlinked _ _ => exact .inl hlinked
  | stopped _ hstopped => exact .inr hstopped
  | same hsame hstopped _ =>
    rcases hy with hlinked | hy
    · exact .inl (hsame.mpr hlinked)
    · exact .inr (hstopped.trans hy)

theorem Fate.fresh (h : Fate y z t) (hlinked : z.check.sys.Linked t) (hfresh : z.starter t = none) :
    y.check.sys.Linked t ∧ y.starter t = none := by
  cases h with
  | started _ _ hstarter => exact absurd hfresh hstarter
  | stopped hnot _ => exact absurd hlinked hnot
  | same hsame _ hstarter => exact ⟨hsame.mp hlinked, hstarter.symm.trans hfresh⟩

theorem halted_check : (y.halted x t).check = x := by
  unfold CheckRun.halted
  split <;> rfl

theorem exited_check {o : Option τ} : (y.exited x o).check = x := by
  cases o with
  | none => rfl
  | some t =>
    unfold CheckRun.exited
    dsimp only
    split <;> rfl

theorem record_check : (y.record x op).check = x := by
  cases op with
  | call op =>
    cases op with
    | stop t => exact halted_check
    | start t => rfl
    | control t setting => rfl
    | tick ticks => rfl
  | checkReturn => exact exited_check
  | softReturn => exact exited_check
  | check | next | softCheck | softBegin | softNext | softReread => rfl

theorem run_step_check (hrun : runStep config y op = some z) :
    checkStep config y.check op = some z.check ∧ z = y.record z.check op := by
  obtain ⟨x, hstep, rfl⟩ := map_eq_some_iff.mp hrun
  rw [record_check]
  exact ⟨hstep, rfl⟩

theorem exited_fate (h : RowsOk config y.check.sys) (hsys : x.sys = s)
    (hexit : exitTimer config y.check.sys t = some s) : Fate y (y.exited x (some t)) u := by
  have hstopped : OnlyTimer y.check.sys
      (y.check.sys.update t fun timer => { timer with activated := false }) t := only_update rfl
  have hok : RowsOk config (y.check.sys.update t fun timer => { timer with activated := false }) :=
    h.update rfl
  unfold exitTimer at hexit
  unfold CheckRun.exited
  dsimp only
  split
  · rename_i hperiodic
    rw [if_pos hperiodic] at hexit
    have hspec := start_spec hok hexit
    by_cases hut : u = t
    · subst hut
      refine .started ?_ (Function.update_self ..) ?_
      · show x.sys.Linked u
        rw [hsys]
        exact hspec.agree.1
      · simp [CheckRun.started]
    · refine .same ?_ (Function.update_of_ne hut ..) (Function.update_of_ne hut ..)
      show x.sys.Linked u ↔ _
      rw [hsys]
      exact (hstopped.trans hspec.only).linked u hut
  · rename_i hnot
    rw [if_neg hnot] at hexit
    cases hexit
    refine .same ?_ rfl rfl
    show x.sys.Linked u ↔ _
    rw [hsys]
    unfold TimerSys.Linked
    rw [update_rows, hstopped.soft]

theorem call_fate {op : RowOp τ} (h : RowsOk config y.check.sys) (hsys : x.sys = s)
    (hcall : callTimer config y.check.sys op = some s) : Fate y (y.record x (.call op)) u := by
  cases op with
  | start t =>
    have hspec := start_spec h hcall
    by_cases hut : u = t
    · subst hut
      refine .started ?_ (Function.update_self ..) ?_
      · show x.sys.Linked u
        rw [hsys]
        exact hspec.agree.1
      · simp [CheckRun.record, CheckRun.started]
    · refine .same ?_ (Function.update_of_ne hut ..) (Function.update_of_ne hut ..)
      show x.sys.Linked u ↔ _
      rw [hsys]
      exact hspec.only.linked u hut
  | stop t =>
    cases hcall
    show Fate y (y.halted x t) u
    unfold CheckRun.halted
    rcases stop_spec (s := y.check.sys) (t := t) with ⟨-, hstop⟩ | ⟨-, hstop⟩
    · rw [hstop] at hsys
      rw [hstop, if_pos rfl]
      have honly : OnlyTimer y.check.sys (deactivate y.check.sys t) t :=
        (only_remove h).trans (only_update rfl)
      by_cases hut : u = t
      · subst hut
        refine .stopped ?_ (Function.update_self ..)
        show ¬ x.sys.Linked u
        rw [hsys]
        exact fun hlinked => ((mem_bottom_deactivate h).mp hlinked).1 rfl
      · refine .same ?_ (Function.update_of_ne hut ..) rfl
        show x.sys.Linked u ↔ _
        rw [hsys]
        exact honly.linked u hut
    · rw [hstop] at hsys
      rw [hstop, if_neg Bool.false_ne_true]
      refine .same ?_ rfl rfl
      show x.sys.Linked u ↔ _
      rw [hsys]
  | control t setting =>
    obtain ⟨-, hsoft, -⟩ := call_spec h hcall
    cases hcall
    refine .same ?_ rfl rfl
    show x.sys.Linked u ↔ _
    have hrows : x.sys.rows = y.check.sys.rows := by
      rw [hsys]
      cases setting <;> rfl
    rw [← hsys] at hsoft
    unfold TimerSys.Linked
    rw [hsoft, hrows]
  | tick ticks =>
    cases hcall
    refine .same ?_ rfl rfl
    show x.sys.Linked u ↔ _
    rw [hsys]
    rfl

theorem outer_fate (h : KindsOk config y.check) (houter : op.outer = true)
    (hrun : runStep config y op = some z) (hu : (y.check.sys.timer u).soft = true) :
    Fate y z u := by
  obtain ⟨hstep, hz⟩ := run_step_check hrun
  rw [hz]
  generalize z.check = x at *
  cases check_step_cases hstep with
  | call op hcall => exact call_fate h.ok rfl hcall
  | check hhard => exact .same Iff.rfl rfl rfl
  | @next currentTick hhard =>
    rcases hard_next_cases y.check currentTick with
      hidle | ⟨t, hhead, hfire⟩
    · rw [hidle]
      exact .same Iff.rfl rfl rfl
    · rw [hfire]
      refine .same ?_ rfl rfl
      -- the timer that was taken out is a hard one
      have hut : u ≠ t := by
        intro heq
        subst heq
        have hkind := h.ok.kind false u (mem_of_head? hhead)
        exact Bool.false_ne_true (hkind.symm.trans hu)
      exact (only_remove h.ok).linked u hut
  | @checkReturn t s hhard hexit =>
    show Fate y (y.exited _ y.check.hard.timer) u
    rw [hhard]
    exact exited_fate h.ok rfl hexit
  | softCheck hsoft => cases houter
  | softBegin hsoft => cases houter
  | softNext hsoft => cases houter
  | softReread hsoft => cases houter
  | softReturn hsoft hexit => cases houter

/-- The steps from `y` to `z` keep the kinds, and do with each soft timer one of these things. -/
structure Follows (config : TimerConfig) (y z : CheckRun τ) : Prop where
  kinds : KindsOk config z.check
  soft : ∀ u, (z.check.sys.timer u).soft = (y.check.sys.timer u).soft
  fate : ∀ u, (y.check.sys.timer u).soft = true → Fate y z u

theorem Follows.refl (h : KindsOk config y.check) : Follows config y y :=
  ⟨h, fun _ => rfl, fun _ _ => .same Iff.rfl rfl rfl⟩

theorem Follows.trans (h : Follows config y z) (h' : Follows config z w) : Follows config y w := by
  refine ⟨h'.kinds, fun u => (h'.soft u).trans (h.soft u), fun u hu => ?_⟩
  exact (h.fate u hu).trans (h'.fate u ((h.soft u).trans hu))

theorem outer_soft (houter : op.outer = true) (hrun : checkStep config y.check op = some x) :
    x.soft = y.check.soft := by
  cases check_step_cases hrun with
  | call op hcall => rfl
  | check hhard => rfl
  | @next currentTick hhard =>
    rcases hard_next_cases y.check currentTick with
      hidle | ⟨t, -, hfire⟩
    · rw [hidle]
    · rw [hfire]
  | checkReturn hhard hexit => rfl
  | softCheck hsoft => cases houter
  | softBegin hsoft => cases houter
  | softNext hsoft => cases houter
  | softReread hsoft => cases houter
  | softReturn hsoft hexit => cases houter

section

variable (h : KindsOk config y.check)

include h

theorem outer_step (houter : op.outer = true) (hrun : runStep config y op = some z) :
    Follows config y z ∧ z.check.soft = y.check.soft := by
  have hstep := (run_step_check hrun).1
  refine ⟨⟨check_step_kinds h hstep, ?_, ?_⟩, outer_soft houter hstep⟩
  · intro u
    exact check_step_soft h hstep
  · intro u hu
    exact outer_fate h houter hrun hu

theorem outer_run (houter : ∀ op ∈ ops, op.outer = true)
    (hrun : exec (runStep config) y ops = some z) :
    Follows config y z ∧ z.check.soft = y.check.soft := by
  induction ops generalizing y with
  | nil =>
    cases hrun
    exact ⟨.refl h, rfl⟩
  | cons op ops ih =>
    obtain ⟨w, hstep, hrest⟩ := exec_cons_eq_some.mp hrun
    obtain ⟨hfirst, hsoft⟩ := outer_step h (houter op mem_cons_self) hstep
    obtain ⟨hlast, hsoft'⟩ := ih hfirst.kinds
      (fun op' hop' => houter op' (mem_cons_of_mem op hop')) hrest
    exact ⟨hfirst.trans hlast, hsoft'.trans hsoft⟩

theorem reread_step {n : Option τ} (hsoft : y.check.soft = .calling t n)
    (hrun : runStep config y .softReread = some z) :
    Follows config y z ∧ ∃ currentTick, z.check.soft = .returned t n currentTick := by
  obtain ⟨hstep, hz⟩ := run_step_check hrun
  have hkinds := check_step_kinds h hstep
  rw [hz] at hkinds ⊢
  generalize z.check = x at *
  cases check_step_cases hstep with
  | softReread hsoft' =>
    cases hsoft.symm.trans hsoft'
    exact ⟨⟨hkinds, (fun u => rfl), fun u _ => .same Iff.rfl rfl rfl⟩, _, rfl⟩

theorem return_step {n : Option τ} (hsoft : y.check.soft = .returned t n currentTick)
    (hrun : runStep config y .softReturn = some z) :
    Follows config y z ∧ z.check.soft = .scanning n currentTick := by
  obtain ⟨hstep, hz⟩ := run_step_check hrun
  have hkinds := check_step_kinds h hstep
  have hsame : ∀ u, (z.check.sys.timer u).soft = (y.check.sys.timer u).soft := fun u =>
    check_step_soft h hstep
  rw [hz] at hkinds hsame ⊢
  generalize z.check = x at *
  rw [record_check] at hkinds hsame ⊢
  refine ⟨⟨by rw [record_check]; exact hkinds, by rw [record_check]; exact hsame, ?_⟩, ?_⟩
  · intro u _
    cases check_step_cases hstep with
    | softReturn hsoft' hexit =>
      show Fate y (y.exited _ y.check.soft.timer) u
      rw [hsoft']
      exact exited_fate h.ok rfl hexit
  · cases check_step_cases hstep with
    | softReturn hsoft' hexit =>
      cases hsoft.symm.trans hsoft'
      rfl

/-- The timeout function of a timer, up to the next pass. -/
theorem callback_run {β : Behaviour τ} {k : Nat} {n : Option τ}
    (hsoft : y.check.soft = .calling t n) (hrun : exec (runStep config) y (β.callback k) = some z) :
    Follows config y z ∧ ∃ currentTick, z.check.soft = .scanning n currentTick := by
  rw [Behaviour.callback, exec_append] at hrun
  obtain ⟨y1, hduring, hrun⟩ := bind_eq_some_iff.mp hrun
  obtain ⟨y2, hreread, hrun⟩ := exec_cons_eq_some.mp hrun
  rw [exec_append] at hrun
  obtain ⟨y3, hafter, hrun⟩ := bind_eq_some_iff.mp hrun
  obtain ⟨y4, hreturn, hlast⟩ := exec_cons_eq_some.mp hrun
  cases hlast
  obtain ⟨h1, hsoft1⟩ := outer_run h (β.during_outer k) hduring
  obtain ⟨h2, currentTick, hsoft2⟩ := reread_step h1.kinds (hsoft1.trans hsoft) hreread
  obtain ⟨h3, hsoft3⟩ := outer_run h2.kinds (β.after_outer k) hafter
  obtain ⟨h4, hsoft4⟩ := return_step h3.kinds (hsoft3.trans hsoft2) hreturn
  exact ⟨((h1.trans h2).trans h3).trans h4, currentTick, hsoft4⟩

end

end

/-! ## Passes -/

section

variable {config : TimerConfig} {β : Behaviour τ} {y z w : CheckRun τ} {t u : τ} {k n : Nat}

/-- The state in which the timeout function of a timer is called. -/
def fired (y : CheckRun τ) (t : τ) : CheckRun τ :=
  { y with
    check :=
      { y.check with
        sys := rtTimerRemove y.check.sys t, soft := .calling t (nextNode y.check.sys t) } }

theorem soft_next_step {n : Option τ} {x : CheckSys τ}
    (hsoft : y.check.soft = .scanning n currentTick)
    (hrun : checkStep config y.check .softNext = some x) : x = softNext y.check n currentTick := by
  cases check_step_cases hrun with
  | softNext hsoft' =>
    cases hsoft.symm.trans hsoft'
    rfl

/-- A soft timer that is linked is not one that was stopped. -/
structure RunInv (config : TimerConfig) (y : CheckRun τ) : Prop where
  kinds : KindsOk config y.check
  stopped : ∀ t, (y.check.sys.timer t).soft = true → y.check.sys.Linked t → y.stopped t = false

/-- The states between the passes of a call. -/
structure PassInv (config : TimerConfig) (y : CheckRun τ) : Prop extends RunInv config y where
  phase : (∃ n currentTick, y.check.soft = .scanning n currentTick) ∨ y.check.soft = .idle

/-- What a pass does: it calls a timeout function and scans on from the saved node, or the call is
over. -/
theorem pass_cases (h : PassInv config y) (hrun : softPass config β k y = some z) :
    z = { y with check := { y.check with soft := .idle } } ∨
      ∃ t currentTick, FiresNext y t ∧ KindsOk config (fired y t).check ∧
        Follows config (fired y t) z ∧
        z.check.soft = .scanning (nextNode y.check.sys t) currentTick := by
  unfold softPass at hrun
  rcases h.phase with ⟨n, currentTick, hsoft⟩ | hsoft
  · rw [hsoft] at hrun
    obtain ⟨w, hstep, hrun⟩ := bind_eq_some_iff.mp hrun
    obtain ⟨hcheck, hw⟩ := run_step_check hstep
    have hkinds := check_step_kinds h.kinds hcheck
    have hnext := soft_next_step hsoft hcheck
    rcases soft_next_cases y.check n currentTick with
      ⟨-, hidle⟩ | ⟨t, rfl, hdue, hfire⟩
    · rw [hnext, hidle] at hw
      rw [hw] at hrun
      cases hrun
      exact .inl rfl
    · rw [hnext, hfire] at hkinds hw
      have hfired : w = fired y t := hw
      subst hfired
      obtain ⟨hfollows, currentTick', hsoft'⟩ := callback_run hkinds rfl hrun
      exact .inr ⟨t, currentTick', ⟨currentTick, hsoft, hdue⟩, hkinds, hfollows, hsoft'⟩
  · rw [hsoft] at hrun
    cases hrun
    exact .inl (by rw [← hsoft])

/-- A call that is over stays so. -/
theorem passes_mono {m n : Nat} (hle : m ≤ n) (hrun : softPasses config β y n = some z) :
    ∃ w, softPasses config β y m = some w ∧ (w.check.soft = .idle → z = w) := by
  induction hle generalizing z with
  | refl => exact ⟨z, hrun, fun _ => rfl⟩
  | step hle ih =>
    obtain ⟨v, hv, hpass⟩ := bind_eq_some_iff.mp hrun
    obtain ⟨w, hw, hsame⟩ := ih hv
    refine ⟨w, hw, ?_⟩
    intro hidle
    obtain rfl := hsame hidle
    unfold softPass at hpass
    rw [hidle] at hpass
    exact (some.inj hpass).symm

theorem FiresNext.soft (h : PassInv config y) (hfires : FiresNext y t) :
    (y.check.sys.timer t).soft = true := by
  obtain ⟨currentTick, hsoft, -⟩ := hfires
  exact h.kinds.next t (by rw [hsoft]; rfl)

/-- Taking a timer out leaves the others linked. -/
theorem fired_linked (h : PassInv config y) :
    (fired y t).check.sys.Linked u ↔ u ≠ t ∧ y.check.sys.Linked u :=
  mem_bottom_remove h.kinds.ok

theorem Follows.run_inv (h : RunInv config y) (hfollows : Follows config y z) :
    RunInv config z := by
  refine ⟨hfollows.kinds, ?_⟩
  intro u hu
  have husoft := (hfollows.soft u).symm.trans hu
  exact (hfollows.fate u husoft).linked_not_stopped (h.stopped u husoft)

theorem RunInv.idle (h : RunInv config y) :
    RunInv config { y with check := { y.check with soft := .idle } } :=
  ⟨⟨h.kinds.ok, h.kinds.hard, (fun _ ht => nomatch ht), fun _ ht => nomatch ht⟩, h.stopped⟩

theorem RunInv.fired (h : RunInv config y) (hkinds : KindsOk config (fired y t).check) :
    RunInv config (fired y t) := by
  refine ⟨hkinds, ?_⟩
  intro u hu hlinked
  exact h.stopped u hu ((mem_bottom_remove h.kinds.ok).mp hlinked).2

theorem pass_inv (h : PassInv config y) (hrun : softPass config β k y = some z) :
    PassInv config z := by
  rcases pass_cases h hrun with rfl | ⟨t, currentTick, -, hkinds, hfollows, hsoft⟩
  · exact ⟨h.toRunInv.idle, .inr rfl⟩
  · exact ⟨hfollows.run_inv (h.toRunInv.fired hkinds), .inl ⟨_, _, hsoft⟩⟩

theorem run_step_inv {op : CheckOp τ} (h : RunInv config y) (hrun : runStep config y op = some z) :
    RunInv config z := by
  by_cases houter : op.outer = true
  · exact (outer_step h.kinds houter hrun).1.run_inv h
  · obtain ⟨hstep, hz⟩ := run_step_check hrun
    have hkinds := check_step_kinds h.kinds hstep
    cases op with
    | call op => exact absurd rfl houter
    | check | next | checkReturn => exact absurd rfl houter
    | softReturn =>
      generalize hx : z.check = x at *
      cases check_step_cases hstep with
      | softReturn hsoft hexit => exact (return_step h.kinds hsoft hrun).1.run_inv h
    | softNext =>
      generalize hx : z.check = x at *
      cases check_step_cases hstep with
      | @softNext n currentTick hsoft =>
        rcases soft_next_cases y.check n currentTick with
          ⟨-, hidle⟩ | ⟨t, rfl, -, hfire⟩
        · rw [hz, hidle]
          exact h.idle
        · rw [hfire] at hkinds hz
          rw [hz]
          exact h.fired hkinds
    | softCheck =>
      generalize hx : z.check = x at *
      cases check_step_cases hstep with
      | softCheck hsoft =>
        rw [hz]
        exact ⟨hkinds, h.stopped⟩
    | softBegin =>
      generalize hx : z.check = x at *
      cases check_step_cases hstep with
      | softBegin hsoft =>
        rw [hz]
        exact ⟨hkinds, h.stopped⟩
    | softReread =>
      generalize hx : z.check = x at *
      cases check_step_cases hstep with
      | softReread hsoft =>
        rw [hz]
        exact ⟨hkinds, h.stopped⟩

theorem run_start_inv {periodic soft : τ → Bool} {initTick : τ → BitVec 32} {tick : BitVec 32} :
    RunInv config (runStart config periodic soft initTick tick) :=
  ⟨check_start_kinds, fun _ _ _ => rfl⟩

/-- The call begins at the first timer of the list. -/
theorem entry_inv (h : RunInv config y) (hrun : softPasses config β y 0 = some z) :
    PassInv config z ∧ ∀ t currentTick, z.check.soft = .scanning (some t) currentTick →
      z.check.sys.Linked t := by
  have hinv : RunInv config z := exec_keeps (fun _ _ _ => run_step_inv) h hrun
  have hrun' : exec (runStep config) y ((.softCheck :: β.before) ++ [.softBegin]) = some z := hrun
  rw [exec_append] at hrun'
  obtain ⟨w, hbefore, hlast⟩ := bind_eq_some_iff.mp hrun'
  obtain ⟨z', hbegin, heq⟩ := exec_cons_eq_some.mp hlast
  cases heq
  obtain ⟨hstep, hz⟩ := run_step_check hbegin
  obtain ⟨currentTick, hsoft, hrows⟩ : ∃ currentTick,
      z.check.soft = .scanning (bottom (z.check.sys.rows true)).head? currentTick ∧
        RowsOk config z.check.sys := by
    have hok := hinv.kinds.ok
    generalize z.check = x at hstep hok ⊢
    cases check_step_cases hstep with
    | softBegin hsoft => exact ⟨_, rfl, hok⟩
  refine ⟨⟨hinv, .inl ⟨_, _, hsoft⟩⟩, ?_⟩
  intro t currentTick' hscanning
  have hhead : (bottom (z.check.sys.rows true)).head? = some t := by
    have hphase := hsoft.symm.trans hscanning
    injection hphase
  have hmem := mem_of_head? hhead
  unfold TimerSys.Linked
  rw [hrows.kind true t hmem]
  exact hmem

/-- The node from which the check goes on is linked, or its timer was stopped. -/
def NextKnown (y : CheckRun τ) : Prop :=
  ∀ t currentTick, y.check.soft = .scanning (some t) currentTick →
    y.check.sys.Linked t ∨ y.stopped t = true

theorem pass_known (h : PassInv config y) (hlinked : ∀ t, FiresNext y t → y.check.sys.Linked t)
    (hrun : softPass config β k y = some z) : NextKnown z := by
  rcases pass_cases h hrun with rfl | ⟨t, currentTick, hfires, hkinds, hfollows, hsoft⟩
  · intro u _ hidle
    cases hidle
  · intro u _ hscanning
    have hnext : nextNode y.check.sys t = some u := by
      have hphase := hsoft.symm.trans hscanning
      injection hphase
    obtain ⟨hut, hu⟩ := next_node_linked h.kinds.ok (hlinked t hfires) hnext
    have husoft : (y.check.sys.timer u).soft = true :=
      next_node_soft h.kinds.ok (hfires.soft h) hnext
    exact (hfollows.fate u husoft).linked_or_stopped (.inl ((fired_linked h).mpr ⟨hut, hu⟩))

/-- The timers of the soft list that were not started in this call. -/
def fresh (y : CheckRun τ) : List τ :=
  (bottom (y.check.sys.rows true)).filter fun t => (y.starter t).isNone

theorem mem_fresh (h : KindsOk config y.check) : t ∈ fresh y ↔
    (y.check.sys.timer t).soft = true ∧ y.check.sys.Linked t ∧ y.starter t = none := by
  unfold fresh TimerSys.Linked
  rw [mem_filter, isNone_iff_eq_none]
  constructor
  · rintro ⟨hmem, hnone⟩
    have hsoft := h.ok.kind true t hmem
    exact ⟨hsoft, by rw [hsoft]; exact hmem, hnone⟩
  · rintro ⟨hsoft, hmem, hnone⟩
    rw [hsoft] at hmem
    exact ⟨hmem, hnone⟩

theorem fresh_nodup (h : KindsOk config y.check) : (fresh y).Nodup :=
  ((h.ok.nested true).nodup _ (bottom_mem h.ok.ne_nil)).filter _

/-- Each pass that calls a timeout function uses up a timer. -/
theorem pass_fresh (h : PassInv config y)
    (hfresh : ∀ t, FiresNext y t → y.check.sys.Linked t ∧ y.starter t = none)
    (hrun : softPass config β k y = some z) :
    z.check.soft = .idle ∨ (fresh z).length < (fresh y).length := by
  rcases pass_cases h hrun with rfl | ⟨t, currentTick, hfires, hkinds, hfollows, hsoft⟩
  · exact .inl rfl
  · obtain ⟨hlinked, hnone⟩ := hfresh t hfires
    have ht : t ∈ fresh y := (mem_fresh h.kinds).mpr ⟨hfires.soft h, hlinked, hnone⟩
    have hsubset : fresh z ⊆ (fresh y).erase t := by
      intro u hu
      obtain ⟨husoft, hulinked, hunone⟩ := (mem_fresh hfollows.kinds).mp hu
      have husoft' : (y.check.sys.timer u).soft = true := (hfollows.soft u).symm.trans husoft
      obtain ⟨hmem, hold⟩ := (hfollows.fate u husoft').fresh hulinked hunone
      obtain ⟨hut, hmem⟩ := (fired_linked h).mp hmem
      exact (fresh_nodup h.kinds).mem_erase_iff.mpr
        ⟨hut, (mem_fresh h.kinds).mpr ⟨husoft', hmem, hold⟩⟩
    have hle : (fresh z).length ≤ ((fresh y).erase t).length :=
      (subperm_of_subset (fresh_nodup hfollows.kinds) hsubset).length_le
    rw [length_erase_of_mem ht] at hle
    have hpos := length_pos_of_mem ht
    exact .inr (by omega)

end

/-! ## The call -/

section

variable {config : TimerConfig} {β : Behaviour τ} {y z : CheckRun τ} {n : Nat}

section

variable (h : RunInv config y)

include h

theorem soft_passes_inv (hrun : softPasses config β y n = some z) : PassInv config z := by
  induction n generalizing z with
  | zero => exact (entry_inv h hrun).1
  | succ n ih =>
    obtain ⟨w, hw, hpass⟩ := bind_eq_some_iff.mp hrun
    exact pass_inv (ih hw) hpass

theorem soft_passes_known (hnever : NeverStopped config β y)
    (hrun : softPasses config β y n = some z) : NextKnown z := by
  induction n generalizing z with
  | zero => exact fun t currentTick hsoft => .inl ((entry_inv h hrun).2 t currentTick hsoft)
  | succ n ih =>
    obtain ⟨w, hw, hpass⟩ := bind_eq_some_iff.mp hrun
    refine pass_known (soft_passes_inv h hw) (fun t hfires => ?_) hpass
    obtain ⟨currentTick, hsoft, -⟩ := id hfires
    refine (ih hw t currentTick hsoft).resolve_right ?_
    rw [hnever n w t hw hfires]
    exact Bool.false_ne_true

theorem NeverStopped.next_kept (hnever : NeverStopped config β y) : NextKept config β y := by
  intro n z t hrun hfires
  obtain ⟨currentTick, hsoft, -⟩ := id hfires
  refine (soft_passes_known h hnever hrun t currentTick hsoft).resolve_right ?_
  rw [hnever n z t hrun hfires]
  exact Bool.false_ne_true

theorem NextKept.never_stopped (hkept : NextKept config β y) : NeverStopped config β y := by
  intro n z t hrun hfires
  have hinv := soft_passes_inv h hrun
  exact hinv.stopped t (hfires.soft hinv) (hkept n z t hrun hfires)

/-- The number of passes is bounded by the number of timers in the list. -/
theorem NextKept.passes_bounded (hkept : NextKept config β y)
    (hcaller : NeverStartedDue .caller config β y) (hcheck : NeverStartedDue .check config β y)
    {z0 : CheckRun τ} (hentry : softPasses config β y 0 = some z0)
    (hrun : softPasses config β y n = some z) :
    z.check.soft = .idle ∨ (fresh z).length + n ≤ (fresh z0).length := by
  induction n generalizing z with
  | zero =>
    cases hentry.symm.trans hrun
    exact .inr (le_refl _)
  | succ n ih =>
    obtain ⟨w, hw, hpass⟩ := bind_eq_some_iff.mp hrun
    have hinv := soft_passes_inv h hw
    have hfresh : ∀ t, FiresNext w t → w.check.sys.Linked t ∧ w.starter t = none := by
      intro t hfires
      refine ⟨hkept n w t hw hfires, ?_⟩
      cases hstarter : w.starter t with
      | none => rfl
      | some starter =>
        cases starter with
        | caller => exact absurd hstarter (hcaller n w t hw hfires)
        | check => exact absurd hstarter (hcheck n w t hw hfires)
    rcases pass_fresh hinv hfresh hpass with hidle | hless
    · exact .inl hidle
    · rcases ih hw with hidle | hbound
      · -- the call was over already
        obtain ⟨v, hv, hsame⟩ := passes_mono (Nat.le_succ n) hrun
        cases hw.symm.trans hv
        exact .inl (by rw [hsame hidle]; exact hidle)
      · exact .inr (by omega)

theorem NextKept.terminates (hkept : NextKept config β y)
    (hcaller : NeverStartedDue .caller config β y) (hcheck : NeverStartedDue .check config β y) :
    Terminates config β y := by
  cases hentry : softPasses config β y 0 with
  | none =>
    refine ⟨0, fun z hz => ?_⟩
    rw [hentry] at hz
    cases hz
  | some z0 =>
    refine ⟨(fresh z0).length + 1, fun z hz => ?_⟩
    refine (hkept.passes_bounded h hcaller hcheck hentry hz).resolve_right ?_
    omega

end

end

/-- In every state that a run reaches, a call of the soft check that runs no stopped timer keeps the
node from which it goes on in the list, or finds it not due; and such a call runs no stopped timer
and returns unless a timer is due that was started in this call. -/
theorem soft_check_ok {config : TimerConfig} {periodic soft : τ → Bool} {initTick : τ → BitVec 32}
    {tick : BitVec 32} {ops : List (CheckOp τ)} {y : CheckRun τ}
    (hrun : exec (runStep config) (runStart config periodic soft initTick tick) ops = some y)
    (β : Behaviour τ) :
    (CallOk config β y → NextKept config β y) ∧
      (NeverStartedDue .check config β y → NextKept config β y → CallOk config β y) := by
  have hinv : RunInv config y := exec_keeps (fun _ _ _ => run_step_inv) run_start_inv hrun
  constructor
  · intro hcall
    exact hcall.never_stopped.next_kept hinv
  · intro hcheck hkept
    refine ⟨hkept.never_stopped hinv, ?_⟩
    intro hcaller
    exact hkept.terminates hinv hcaller hcheck

/-! ## A call that goes wrong, and one that does not -/

section

variable {config : TimerConfig} {β : Behaviour τ} {y z : CheckRun τ} {t : τ} {k n : Nat}

/-- The check is at a node that is not linked, and its timer is due and not activated. -/
structure Spinning (y : CheckRun τ) (t : τ) : Prop where
  hard : y.check.hard = .idle
  soft : y.check.soft = .scanning (some t) y.check.sys.tick
  due : due y.check.sys y.check.sys.tick t = true
  linked : ¬ y.check.sys.Linked t
  activated : (y.check.sys.timer t).activated = false

/-- If the timeout function does nothing, the check does not leave the node. -/
theorem Spinning.pass (config : TimerConfig) (h : Spinning y t) (hduring : β.during k = [])
    (hafter : β.after k = []) :
    ∃ z, softPass config β k y = some z ∧ Spinning z t := by
  have hnext : nextNode y.check.sys t = some t := if_neg h.linked
  have hstep : runStep config y .softNext = some (fired y t) := by
    simp [runStep, checkStep, h.hard, h.soft, softNext, h.due, CheckRun.record, fired]
  have hexit : exitTimer config (rtTimerRemove y.check.sys t) t =
      some ((rtTimerRemove y.check.sys t).update t fun timer =>
        { timer with activated := false }) := by
    refine if_neg ?_
    rintro ⟨-, hactive⟩
    have hflag : (y.check.sys.timer t).activated = true := hactive
    rw [h.activated] at hflag
    cases hflag
  have hreread : runStep config (fired y t) .softReread = some
      { fired y t with
        check := { (fired y t).check with soft := .returned t (some t) y.check.sys.tick } } := by
    simp [runStep, checkStep, fired, h.hard, hnext, CheckRun.record, rtTimerRemove]
  have hreturn : runStep config
      { fired y t with
        check := { (fired y t).check with soft := .returned t (some t) y.check.sys.tick } }
      .softReturn = some
      { y with
        check :=
          { y.check with
            sys := (rtTimerRemove y.check.sys t).update t fun timer =>
              { timer with activated := false }
            soft := .scanning (some t) y.check.sys.tick } } := by
    simp [runStep, checkStep, fired, h.hard, hexit, CheckRun.record, CheckRun.exited,
      SoftPhase.timer, h.activated]
  refine ⟨{ y with
    check :=
      { y.check with
        sys := (rtTimerRemove y.check.sys t).update t fun timer => { timer with activated := false }
        soft := .scanning (some t) y.check.sys.tick } }, ?_, h.hard, rfl, ?_, ?_, ?_⟩
  · simp only [softPass, h.soft, hstep, bind_eq_bind, bind_some]
    show exec (runStep config) (fired y t) (β.callback k) = _
    rw [Behaviour.callback, hduring, hafter]
    exact exec_cons_eq_some.mpr ⟨_, hreread, exec_cons_eq_some.mpr ⟨_, hreturn, rfl⟩⟩
  · simpa [Timers.due, rtTimerRemove] using h.due
  · intro hlinked
    have hmem : t ∈ bottom (eraseRows t (y.check.sys.rows (y.check.sys.timer t).soft)) := by
      simpa [TimerSys.Linked, rtTimerRemove] using hlinked
    rw [bottom_erase] at hmem
    exact h.linked (mem_of_mem_erase hmem)
  · simp

/-- Such a call does not return. -/
theorem Spinning.not_terminates (hrun : softPasses config β y n = some z) (h : Spinning z t)
    (hduring : ∀ k, n ≤ k → β.during k = []) (hafter : ∀ k, n ≤ k → β.after k = []) :
    ¬ Terminates config β y := by
  have hspins : ∀ m, ∃ w, softPasses config β y (n + m) = some w ∧ Spinning w t := by
    intro m
    induction m with
    | zero => exact ⟨z, hrun, h⟩
    | succ m ih =>
      obtain ⟨w, hw, hspinning⟩ := ih
      obtain ⟨w', hpass, hspinning'⟩ := hspinning.pass config
        (hduring (n + m) (by omega)) (hafter (n + m) (by omega))
      exact ⟨w', bind_eq_some_iff.mpr ⟨w, hw, hpass⟩, hspinning'⟩
  rintro ⟨m, hidle⟩
  obtain ⟨v, hv, hspinning⟩ := hspins m
  obtain ⟨w, hw, hsame⟩ := passes_mono (Nat.le_add_left m n) hv
  have hsoft := hspinning.soft
  rw [hsame (hidle w hw), hidle w hw] at hsoft
  cases hsoft

end

/-- The timer whose timeout function the next pass calls. -/
def firesNext (y : CheckRun τ) : Option τ :=
  match y.check.soft with
  | .scanning (some t) currentTick => if due y.check.sys currentTick t then some t else none
  | _ => none

theorem fires_next_iff {y : CheckRun τ} {t : τ} : FiresNext y t ↔ firesNext y = some t := by
  unfold FiresNext firesNext
  constructor
  · rintro ⟨currentTick, hsoft, hdue⟩
    rw [hsoft]
    exact if_pos hdue
  · intro hfires
    split at hfires
    · rename_i u currentTick hsoft
      obtain ⟨hdue, heq⟩ := ite_none_right_eq_some.mp hfires
      cases heq
      exact ⟨currentTick, hsoft, hdue⟩
    · cases hfires

instance (y : CheckRun τ) (t : τ) : Decidable (FiresNext y t) :=
  decidable_of_iff (firesNext y = some t) fires_next_iff.symm

theorem call_ok_of_passes {config : TimerConfig} {β : Behaviour τ} {y z : CheckRun τ} {m : Nat}
    {Q : CheckRun τ → τ → Prop} (hover : softPasses config β y m = some z)
    (hidle : z.check.soft = .idle)
    (hpasses : ∀ n, n < m → ∀ w ∈ softPasses config β y n, ∀ t ∈ firesNext w, Q w t) :
    ∀ n w t, softPasses config β y n = some w → FiresNext w t → Q w t := by
  intro n w t hrun hfires
  have hfirst : n < m := by
    by_contra hle
    obtain ⟨v, hv, hsame⟩ := passes_mono (not_lt.mp hle) hrun
    cases hover.symm.trans hv
    obtain ⟨currentTick, hsoft, -⟩ := hfires
    rw [hsame hidle, hidle] at hsoft
    cases hsoft
  exact hpasses n hfirst w hrun t (fires_next_iff.mp hfires)

/-- Four soft timers, and timer 0 is periodic. -/
def someSoftStart : CheckRun (Fin 4) :=
  runStart someRowConfig (fun t => decide (t.val = 0)) (fun _ => true) (fun _ => 5#32) 0xfffffffe#32

def someSoftOps : List (CheckOp (Fin 4)) :=
  [.call (.start 0), .call (.start 1), .call (.start 2), .call (.start 3), .call (.stop 3),
    .call (.tick 5#32)]

/-- The timeout function of timer 0 stops timer 2, which is not the next one, and starts timer 3. -/
def stopLater : Behaviour (Fin 4) where
  before := []
  during := fun k => if k = 0 then [.call (.stop 2), .call (.start 3)] else []
  after := fun _ => []
  before_outer := fun _ h => nomatch h
  during_outer := by
    intro k op hop
    split at hop
    · rcases mem_cons.mp hop with rfl | hop
      · rfl
      · rw [mem_singleton.mp hop]
        rfl
    · cases hop
  after_outer := fun _ _ h => nomatch h

/-- The timeout function of timer 0 stops timer 1, which is the next one. -/
def stopNext : Behaviour (Fin 4) where
  before := []
  during := fun k => if k = 0 then [.call (.stop 1)] else []
  after := fun _ => []
  before_outer := fun _ h => nomatch h
  during_outer := by
    intro k op hop
    split at hop
    · rw [mem_singleton.mp hop]
      rfl
    · cases hop
  after_outer := fun _ _ h => nomatch h

/-- The next pass fires a linked timer that was not started by the check itself. -/
def FiresKept (y : CheckRun τ) : Prop :=
  ∀ t ∈ firesNext y, y.check.sys.Linked t ∧ y.starter t ≠ some .check

instance (y : CheckRun τ) : Decidable (FiresKept y) :=
  inferInstanceAs (Decidable (∀ t ∈ firesNext y, _ ∧ _))

theorem some_soft_run : ∃ y, exec (runStep someRowConfig) someSoftStart someSoftOps = some y ∧
    (∃ z, softPasses someRowConfig stopLater y 3 = some z ∧ z.check.soft = .idle) ∧
    ∀ n, n < 3 → ∀ w ∈ softPasses someRowConfig stopLater y n, FiresKept w := by
  have hrun : Option.any (fun y : CheckRun (Fin 4) =>
      Option.any (fun z => decide (z.check.soft = .idle))
        (softPasses someRowConfig stopLater y 3) &&
      decide (∀ n : Fin 3, ∀ w ∈ softPasses someRowConfig stopLater y n, FiresKept w))
      (exec (runStep someRowConfig) someSoftStart someSoftOps) = true := by
    decide +kernel
  obtain ⟨y, hy, hcall⟩ := (Option.any_eq_true _ _).mp hrun
  obtain ⟨hover, hpasses⟩ := Bool.and_eq_true_iff.mp hcall
  obtain ⟨z, hz, hidle⟩ := (Option.any_eq_true _ _).mp hover
  refine ⟨y, hy, ⟨z, hz, of_decide_eq_true hidle⟩, ?_⟩
  intro n hn
  exact of_decide_eq_true hpasses ⟨n, hn⟩

theorem stop_later_ok : ∃ y, exec (runStep someRowConfig) someSoftStart someSoftOps = some y ∧
    CallOk someRowConfig stopLater y := by
  obtain ⟨y, hy, ⟨z, hz, hidle⟩, hpasses⟩ := some_soft_run
  have hkept := call_ok_of_passes hz hidle hpasses
  refine ⟨y, hy, (soft_check_ok hy stopLater).2 ?_ ?_⟩
  · exact fun n w t hw hfires => (hkept n w t hw hfires).2
  · exact fun n w t hw hfires => (hkept n w t hw hfires).1

/-- Afterwards the check runs the timeout function of the stopped timer, over and over. -/
theorem stop_next_not_ok : ∃ y, exec (runStep someRowConfig) someSoftStart someSoftOps = some y ∧
    (∃ z, softPasses someRowConfig stopNext y 1 = some z ∧ FiresNext z 1 ∧ z.stopped 1 = true) ∧
    ¬ Terminates someRowConfig stopNext y ∧ ¬ CallOk someRowConfig stopNext y := by
  have hrun : Option.any (fun y : CheckRun (Fin 4) =>
      Option.any (fun z => decide ((z.stopped 1 = true ∧ z.check.hard = .idle) ∧
          z.check.soft = .scanning (some 1) z.check.sys.tick ∧
          due z.check.sys z.check.sys.tick 1 = true ∧ ¬ z.check.sys.Linked 1 ∧
          (z.check.sys.timer 1).activated = false))
        (softPasses someRowConfig stopNext y 1))
      (exec (runStep someRowConfig) someSoftStart someSoftOps) = true := by
    decide +kernel
  obtain ⟨y, hy, hcall⟩ := (Option.any_eq_true _ _).mp hrun
  obtain ⟨z, hz, hstate⟩ := (Option.any_eq_true _ _).mp hcall
  obtain ⟨⟨hstopped, hhard⟩, hsoft, hdue, hlinked, hactive⟩ := of_decide_eq_true hstate
  have hfires : FiresNext z 1 := ⟨_, hsoft, hdue⟩
  have hspinning : Spinning z 1 := ⟨hhard, hsoft, hdue, hlinked, hactive⟩
  refine ⟨y, hy, ⟨z, hz, hfires, hstopped⟩, ?_, ?_⟩
  · refine hspinning.not_terminates hz ?_ fun _ _ => rfl
    intro k hk
    exact if_neg (by omega)
  · intro hok
    rw [hok.never_stopped 1 z 1 hz hfires] at hstopped
    cases hstopped

end FullhanRtos.Timers
