import FullhanRtos.Timers.Rows

/-!
# The timer checks

`rt_timer_check` and `rt_soft_timer_check` of `kernel/src/timer.c`. A check takes the first timer of
its list out if it is due, calls its timeout function and starts it again if it is periodic. The
soft check calls the timeout function with interrupts enabled and goes on from a node that it saved
before the call. While a timeout function runs, and between the checks, any timer may be started,
stopped or set, by the function itself, an interrupt or another thread.

A timer that is not periodic and starts itself in its timeout function is linked again, but the
check clears its flag, so that `rt_timer_stop` refuses it. `linked_iff_activated` says that this is
the only way in which the flag and the list come to disagree.
-/

namespace FullhanRtos.Timers

open SkipList Transition List Option

set_option linter.unusedSectionVars false

variable {τ : Type} [DecidableEq τ]

/-! ## Data -/

/-- Where `rt_timer_check` is: interrupts are disabled all the time. -/
inductive HardPhase (τ : Type) where
  | idle
  | scanning (currentTick : BitVec 32)
  | calling (t : τ)
  deriving DecidableEq

/-- Where `rt_soft_timer_check` is. `n` is the next node, where `none` is the head of the list. Only
in `scanning` are interrupts disabled. -/
inductive SoftPhase (τ : Type) where
  | idle
  | entered (currentTick : BitVec 32)
  | scanning (n : Option τ) (currentTick : BitVec 32)
  | calling (t : τ) (n : Option τ)
  | returned (t : τ) (n : Option τ) (currentTick : BitVec 32)
  deriving DecidableEq

/-- The timer whose timeout function was called. -/
def HardPhase.timer : HardPhase τ → Option τ
  | .calling t => some t
  | _ => none

def SoftPhase.timer : SoftPhase τ → Option τ
  | .calling t _ => some t
  | .returned t _ _ => some t
  | _ => none

/-- The node that the soft check goes on from. -/
def SoftPhase.next : SoftPhase τ → Option τ
  | .scanning n _ => n
  | .calling _ n => n
  | .returned _ n _ => n
  | _ => none

/-- The timers and the two checks. -/
structure CheckSys (τ : Type) where
  sys : TimerSys τ
  hard : HardPhase τ
  soft : SoftPhase τ

/-! ## The functions -/

def due (s : TimerSys τ) (currentTick : BitVec 32) (t : τ) : Bool :=
  decide (currentTick - (s.timer t).timeoutTick < tickMaxHalf)

/-- `n->next` of a timer in the bottom row of its list; an unlinked node points to itself. -/
def nextNode (s : TimerSys τ) (t : τ) : Option τ :=
  let row := bottom (s.rows (s.timer t).soft)
  if t ∈ row then (behind row (some t)).head? else some t

/-- What a check does with a timer when its timeout function has returned. -/
def exitTimer (config : TimerConfig) (s : TimerSys τ) (t : τ) : Option (TimerSys τ) :=
  let stopped := s.update t fun timer => { timer with activated := false }
  if (s.timer t).periodic = true ∧ (s.timer t).activated = true then rtTimerStart config stopped t
  else some stopped

/-- A call of a timer function, or a change of the tick. -/
def callTimer (config : TimerConfig) (s : TimerSys τ) : RowOp τ → Option (TimerSys τ)
  | .start t => rtTimerStart config s t
  | .stop t => some (rtTimerStop s t).2
  | .control t setting => some (rtTimerControl s t setting)
  | .tick ticks => some { s with tick := s.tick + ticks }

/-- A pass through the loop of `rt_timer_check`. -/
def hardNext (x : CheckSys τ) (currentTick : BitVec 32) : CheckSys τ :=
  match (bottom (x.sys.rows false)).head? with
  | none => { x with hard := .idle }
  | some t =>
    if due x.sys currentTick t then { x with sys := rtTimerRemove x.sys t, hard := .calling t }
    else { x with hard := .idle }

/-- A pass through the loop of `rt_soft_timer_check`. -/
def softNext (x : CheckSys τ) (n : Option τ) (currentTick : BitVec 32) : CheckSys τ :=
  match n with
  | none => { x with soft := .idle }
  | some t =>
    if due x.sys currentTick t then
      { x with sys := rtTimerRemove x.sys t, soft := .calling t (nextNode x.sys t) }
    else { x with soft := .idle }

/-! ## Runs -/

/-- The steps. A check is entered (`check`, `softCheck`), passes through its loop (`next`,
`softNext`), and goes on when the timeout function has returned (`checkReturn`, `softReturn`). The
soft check reads the tick before it disables interrupts. -/
inductive CheckOp (τ : Type) where
  | call (op : RowOp τ)
  | check
  | next
  | checkReturn
  | softCheck
  | softBegin
  | softNext
  | softReread
  | softReturn

/-- The steps that do not belong to `rt_soft_timer_check`. -/
def CheckOp.outer : CheckOp τ → Bool
  | .call _ | .check | .next | .checkReturn => true
  | _ => false

/-- One step. While a check scans its list nothing else runs, and the soft check goes on only when
the interrupt is over. -/
def checkStep (config : TimerConfig) (x : CheckSys τ) (op : CheckOp τ) : Option (CheckSys τ) :=
  match op, x.hard, x.soft with
  | .softNext, .idle, .scanning n currentTick => some (softNext x n currentTick)
  | _, _, .scanning .. => none
  | .next, .scanning currentTick, _ => some (hardNext x currentTick)
  | _, .scanning _, _ => none
  | .call op, _, _ => (callTimer config x.sys op).map fun s => { x with sys := s }
  | .check, .idle, _ => some { x with hard := .scanning x.sys.tick }
  | .checkReturn, .calling t, _ =>
    (exitTimer config x.sys t).map fun s => { x with sys := s, hard := .scanning x.sys.tick }
  | .softCheck, .idle, .idle => some { x with soft := .entered x.sys.tick }
  | .softBegin, .idle, .entered currentTick =>
    some { x with soft := .scanning (bottom (x.sys.rows true)).head? currentTick }
  | .softReread, .idle, .calling t n => some { x with soft := .returned t n x.sys.tick }
  | .softReturn, .idle, .returned t n currentTick =>
    (exitTimer config x.sys t).map fun s => { x with sys := s, soft := .scanning n currentTick }
  | _, _, _ => none

def checkStart (config : TimerConfig) (periodic soft : τ → Bool) (initTick : τ → BitVec 32)
    (tick : BitVec 32) : CheckSys τ where
  sys := timerStart config periodic soft initTick tick
  hard := .idle
  soft := .idle

/-- A check has called the timeout function of the timer and is not done with it. -/
def Firing (x : CheckSys τ) (t : τ) : Prop := x.hard.timer = some t ∨ x.soft.timer = some t

/-- The list and the flags agree, but for a timer whose timeout function was called. -/
def FlagsAgree (x : CheckSys τ) : Prop :=
  ∀ t, ¬ Firing x t → (x.sys.Linked t ↔ (x.sys.timer t).activated = true)

/-- Outside the checks a timer is linked in its list exactly if it is activated. -/
def OutsideAgree (x : CheckSys τ) : Prop :=
  x.hard = .idle → x.soft = .idle → ∀ t, x.sys.Linked t ↔ (x.sys.timer t).activated = true

/-- A timer with which a check ends is periodic, or it is not linked. -/
def ReturnOk (x : CheckSys τ) : CheckOp τ → Prop
  | .checkReturn => ∀ t, x.hard.timer = some t →
      (x.sys.timer t).periodic = true ∨ ¬ x.sys.Linked t
  | .softReturn => ∀ t, x.soft.timer = some t →
      (x.sys.timer t).periodic = true ∨ ¬ x.sys.Linked t
  | _ => True

/-! ## What a step does to a timer -/

/-- A step that is about one timer only. -/
structure OnlyTimer (s s' : TimerSys τ) (t : τ) : Prop where
  soft : ∀ u, (s'.timer u).soft = (s.timer u).soft
  timer : ∀ u, u ≠ t → s'.timer u = s.timer u
  linked : ∀ u, u ≠ t → (s'.Linked u ↔ s.Linked u)

section

variable {config : TimerConfig} {s s' : TimerSys τ} {t u : τ} {op : RowOp τ}

theorem OnlyTimer.trans {s1 : TimerSys τ} (h : OnlyTimer s s1 t) (h' : OnlyTimer s1 s' t) :
    OnlyTimer s s' t :=
  ⟨fun u => (h'.soft u).trans (h.soft u), fun u hu => (h'.timer u hu).trans (h.timer u hu),
    fun u hu => (h'.linked u hu).trans (h.linked u hu)⟩

theorem only_update {f : Timer → Timer} (hsoft : (f (s.timer t)).soft = (s.timer t).soft) :
    OnlyTimer s (s.update t f) t := by
  refine ⟨fun u => ?_, fun u hu => update_other hu, fun u hu => ?_⟩
  · by_cases hut : u = t
    · rw [hut, update_self, hsoft]
    · rw [update_other hut]
  · unfold TimerSys.Linked
    rw [update_other hu, update_rows]

@[simp]
theorem remove_timer : (rtTimerRemove s t).timer = s.timer := rfl

theorem only_remove (h : RowsOk config s) : OnlyTimer s (rtTimerRemove s t) t := by
  refine ⟨fun u => rfl, fun u _ => rfl, fun u hu => ?_⟩
  exact (mem_bottom_remove h).trans (and_iff_right hu)

theorem not_linked_remove (h : RowsOk config s) : ¬ (rtTimerRemove s t).Linked t := by
  intro hlinked
  exact ((mem_bottom_remove h).mp hlinked).1 rfl

theorem Starts.only (h : Starts config s s' t) : OnlyTimer s s' t := by
  refine ⟨fun u => ?_, h.other, fun u hu => ?_⟩
  · by_cases hut : u = t
    · rw [hut, h.self]
    · rw [h.other u hut]
  · unfold TimerSys.Linked
    rw [h.other u hu, h.linked]
    simp [hu]

theorem Starts.agree (h : Starts config s s' t) :
    s'.Linked t ∧ (s'.timer t).activated = true := by
  refine ⟨(h.linked _ t).mpr (.inl ⟨rfl, ?_⟩), ?_⟩
  · rw [h.self]
  · rw [h.self]

/-- After a call the list and the flag of each timer agree, or they are what they were. -/
theorem call_spec (h : RowsOk config s) (hrun : callTimer config s op = some s') :
    RowsOk config s' ∧ (∀ u, (s'.timer u).soft = (s.timer u).soft) ∧
      ∀ u, (s'.Linked u ↔ (s'.timer u).activated = true) ∨
        ((s'.Linked u ↔ s.Linked u) ∧ (s'.timer u).activated = (s.timer u).activated) := by
  cases op with
  | start t =>
    have hspec := start_spec h hrun
    refine ⟨hspec.ok, hspec.only.soft, fun u => ?_⟩
    by_cases hut : u = t
    · subst hut
      exact .inl (iff_of_true hspec.agree.1 hspec.agree.2)
    · exact .inr ⟨hspec.only.linked u hut, by rw [hspec.other u hut]⟩
  | stop t =>
    cases hrun
    rcases stop_spec (s := s) (t := t) with ⟨-, hstop⟩ | ⟨-, hstop⟩
    · rw [hstop]
      have honly : OnlyTimer s (deactivate s t) t := (only_remove h).trans (only_update rfl)
      refine ⟨h.deactivate, honly.soft, fun u => ?_⟩
      by_cases hut : u = t
      · subst hut
        refine .inl (iff_of_false (fun hlinked => ?_) ?_)
        · exact ((mem_bottom_deactivate h).mp hlinked).1 rfl
        · simp [deactivate]
      · exact .inr ⟨honly.linked u hut, by rw [honly.timer u hut]⟩
    · rw [hstop]
      exact ⟨h, fun u => rfl, fun u => .inr ⟨Iff.rfl, rfl⟩⟩
  | control t setting =>
    cases hrun
    -- none of the settings is about the kind, the flag or the list
    obtain ⟨f, hcontrol, hf⟩ : ∃ f : Timer → Timer, rtTimerControl s t setting = s.update t f ∧
        (f (s.timer t)).soft = (s.timer t).soft ∧
        (f (s.timer t)).activated = (s.timer t).activated := by
      cases setting with
      | time initTick => exact ⟨fun timer => { timer with initTick }, rfl, rfl, rfl⟩
      | oneshot => exact ⟨fun timer => { timer with periodic := false }, rfl, rfl, rfl⟩
      | periodic => exact ⟨fun timer => { timer with periodic := true }, rfl, rfl, rfl⟩
    rw [hcontrol]
    have honly : OnlyTimer s (s.update t f) t := only_update hf.1
    refine ⟨h.update hf.1, honly.soft, fun u => .inr ?_⟩
    by_cases hut : u = t
    · subst hut
      refine ⟨?_, ?_⟩
      · unfold TimerSys.Linked
        rw [update_rows, honly.soft]
      · rw [update_self, hf.2]
    · exact ⟨honly.linked u hut, by rw [honly.timer u hut]⟩
  | tick ticks =>
    cases hrun
    exact ⟨⟨h.length, h.nested, h.kind⟩, fun u => rfl, fun u => .inr ⟨Iff.rfl, rfl⟩⟩

end

/-! ## The invariant -/

structure KindsOk (config : TimerConfig) (x : CheckSys τ) : Prop where
  ok : RowsOk config x.sys
  hard : ∀ t, x.hard.timer = some t → (x.sys.timer t).soft = false
  soft : ∀ t, x.soft.timer = some t → (x.sys.timer t).soft = true
  next : ∀ t, x.soft.next = some t → (x.sys.timer t).soft = true

/-- A timer whose timeout function was called and that is linked again is activated. -/
structure CheckInv (config : TimerConfig) (x : CheckSys τ) : Prop where
  kinds : KindsOk config x
  active : ∀ t, Firing x t → x.sys.Linked t → (x.sys.timer t).activated = true

section

variable {config : TimerConfig} {x x' : CheckSys τ} {s s' : TimerSys τ} {t u : τ}

inductive CheckStep (config : TimerConfig) (x : CheckSys τ) : CheckOp τ → CheckSys τ → Prop where
  | call (op : RowOp τ) {s : TimerSys τ} (hrun : callTimer config x.sys op = some s) :
      CheckStep config x (.call op) { x with sys := s }
  | check (hhard : x.hard = .idle) :
      CheckStep config x .check { x with hard := .scanning x.sys.tick }
  | next {currentTick : BitVec 32} (hhard : x.hard = .scanning currentTick) :
      CheckStep config x .next (hardNext x currentTick)
  | checkReturn {t : τ} {s : TimerSys τ} (hhard : x.hard = .calling t)
      (hrun : exitTimer config x.sys t = some s) :
      CheckStep config x .checkReturn { x with sys := s, hard := .scanning x.sys.tick }
  | softCheck (hsoft : x.soft = .idle) :
      CheckStep config x .softCheck { x with soft := .entered x.sys.tick }
  | softBegin {currentTick : BitVec 32} (hsoft : x.soft = .entered currentTick) :
      CheckStep config x .softBegin
        { x with soft := .scanning (bottom (x.sys.rows true)).head? currentTick }
  | softNext {n : Option τ} {currentTick : BitVec 32} (hsoft : x.soft = .scanning n currentTick) :
      CheckStep config x .softNext (softNext x n currentTick)
  | softReread {t : τ} {n : Option τ} (hsoft : x.soft = .calling t n) :
      CheckStep config x .softReread { x with soft := .returned t n x.sys.tick }
  | softReturn {t : τ} {n : Option τ} {currentTick : BitVec 32} {s : TimerSys τ}
      (hsoft : x.soft = .returned t n currentTick) (hrun : exitTimer config x.sys t = some s) :
      CheckStep config x .softReturn { x with sys := s, soft := .scanning n currentTick }

theorem check_step_cases {op : CheckOp τ} (hrun : checkStep config x op = some x') :
    CheckStep config x op x' := by
  unfold checkStep at hrun
  split at hrun
  · cases hrun
    exact .softNext ‹_›
  · cases hrun
  · cases hrun
    exact .next ‹_›
  · cases hrun
  · obtain ⟨s, hcall, rfl⟩ := map_eq_some_iff.mp hrun
    exact .call _ hcall
  · cases hrun
    exact .check ‹_›
  · obtain ⟨s, hexit, rfl⟩ := map_eq_some_iff.mp hrun
    exact .checkReturn ‹_› hexit
  · cases hrun
    exact .softCheck ‹_›
  · cases hrun
    exact .softBegin ‹_›
  · cases hrun
    exact .softReread ‹_›
  · obtain ⟨s, hexit, rfl⟩ := map_eq_some_iff.mp hrun
    exact .softReturn ‹_› hexit
  · cases hrun

theorem hard_next_cases (x : CheckSys τ) (currentTick : BitVec 32) :
    hardNext x currentTick = { x with hard := .idle } ∨
      ∃ t, (bottom (x.sys.rows false)).head? = some t ∧
        hardNext x currentTick = { x with sys := rtTimerRemove x.sys t, hard := .calling t } := by
  unfold hardNext
  split
  · exact .inl rfl
  · rename_i t hhead
    split
    · exact .inr ⟨t, hhead, rfl⟩
    · exact .inl rfl

theorem soft_next_cases (x : CheckSys τ) (n : Option τ) (currentTick : BitVec 32) :
    ((∀ t, n = some t → due x.sys currentTick t = false) ∧
        softNext x n currentTick = { x with soft := .idle }) ∨
      ∃ t, n = some t ∧ due x.sys currentTick t = true ∧ softNext x n currentTick =
        { x with sys := rtTimerRemove x.sys t, soft := .calling t (nextNode x.sys t) } := by
  cases n with
  | none => exact .inl ⟨(fun t ht => nomatch ht), rfl⟩
  | some t =>
    unfold softNext
    dsimp only
    split
    · rename_i hdue
      exact .inr ⟨t, rfl, hdue, rfl⟩
    · rename_i hdue
      refine .inl ⟨?_, rfl⟩
      intro u hu
      cases hu
      exact Bool.eq_false_iff.mpr hdue

theorem next_node_linked (h : RowsOk config s) (hlinked : s.Linked t)
    (hnext : nextNode s t = some u) : u ≠ t ∧ s.Linked u := by
  have ht : t ∈ bottom (s.rows (s.timer t).soft) := hlinked
  have hnodup := (h.nested (s.timer t).soft).nodup _ (bottom_mem h.ne_nil)
  obtain ⟨xs, ys, hrow⟩ := append_of_mem ht
  have hxs : t ∉ xs := by
    intro hmem
    rw [hrow] at hnodup
    exact (nodup_append.mp hnodup).2.2 t hmem t mem_cons_self rfl
  have hys : t ∉ ys := by
    rw [hrow] at hnodup
    exact (nodup_cons.mp (nodup_append.mp hnodup).2.1).1
  unfold nextNode at hnext
  rw [if_pos ht, hrow, behind_split hxs] at hnext
  have hu : u ∈ ys := mem_of_head? hnext
  have hmem : u ∈ bottom (s.rows (s.timer t).soft) := by
    rw [hrow]
    exact mem_append_right xs (mem_cons_of_mem t hu)
  refine ⟨fun heq => hys (heq ▸ hu), ?_⟩
  unfold TimerSys.Linked
  rw [h.kind _ u hmem]
  exact hmem

theorem next_node_soft (h : RowsOk config s) (ht : (s.timer t).soft = true)
    (hnext : nextNode s t = some u) : (s.timer u).soft = true := by
  unfold nextNode at hnext
  dsimp only at hnext
  rw [ht] at hnext
  split at hnext
  · exact h.kind true u (behind_subset (mem_of_head? hnext))
  · cases hnext
    exact ht

theorem KindsOk.congr (h : KindsOk config x) (hok : RowsOk config s')
    (hsoft : ∀ u, (s'.timer u).soft = (x.sys.timer u).soft) :
    KindsOk config { x with sys := s' } := by
  refine ⟨hok, ?_, ?_, ?_⟩
  · intro t ht
    exact (hsoft t).trans (h.hard t ht)
  · intro t ht
    exact (hsoft t).trans (h.soft t ht)
  · intro t ht
    exact (hsoft t).trans (h.next t ht)

theorem exit_ok (h : RowsOk config s) (hrun : exitTimer config s t = some s') :
    RowsOk config s' ∧ OnlyTimer s s' t := by
  have hstopped : OnlyTimer s (s.update t fun timer => { timer with activated := false }) t :=
    only_update rfl
  have hok : RowsOk config (s.update t fun timer => { timer with activated := false }) :=
    h.update rfl
  unfold exitTimer at hrun
  split at hrun
  · have hspec := start_spec hok hrun
    exact ⟨hspec.ok, hstopped.trans hspec.only⟩
  · cases hrun
    exact ⟨hok, hstopped⟩

theorem check_step_kinds {op : CheckOp τ} (h : KindsOk config x)
    (hrun : checkStep config x op = some x') : KindsOk config x' := by
  cases check_step_cases hrun with
  | call op hcall =>
    obtain ⟨hok, hsoft, -⟩ := call_spec h.ok hcall
    exact h.congr hok hsoft
  | check hhard => exact ⟨h.ok, (fun t ht => nomatch ht), h.soft, h.next⟩
  | @next currentTick hhard =>
    rcases hard_next_cases x currentTick with hidle | ⟨t, hhead, hfire⟩
    · rw [hidle]
      exact ⟨h.ok, (fun t ht => nomatch ht), h.soft, h.next⟩
    · rw [hfire]
      refine ⟨h.ok.remove, ?_, h.soft, h.next⟩
      intro u hu
      cases hu
      exact h.ok.kind false t (mem_of_head? hhead)
  | checkReturn hhard hexit =>
    obtain ⟨hok, honly⟩ := exit_ok h.ok hexit
    have hkinds := h.congr hok honly.soft
    exact ⟨hok, (fun t ht => nomatch ht), hkinds.soft, hkinds.next⟩
  | softCheck hsoft =>
    exact ⟨h.ok, h.hard, (fun t ht => nomatch ht), fun t ht => nomatch ht⟩
  | softBegin hsoft =>
    refine ⟨h.ok, h.hard, (fun t ht => nomatch ht), ?_⟩
    intro t ht
    exact h.ok.kind true t (mem_of_head? ht)
  | @softNext n currentTick hsoft =>
    rcases soft_next_cases x n currentTick with
      ⟨-, hidle⟩ | ⟨t, rfl, -, hfire⟩
    · rw [hidle]
      exact ⟨h.ok, h.hard, (fun t ht => nomatch ht), fun t ht => nomatch ht⟩
    · have hkind : (x.sys.timer t).soft = true := h.next t (by rw [hsoft]; rfl)
      rw [hfire]
      refine ⟨h.ok.remove, h.hard, ?_, ?_⟩
      · intro u hu
        cases hu
        exact hkind
      · intro u hu
        have hsoft' : (x.sys.timer u).soft = true := next_node_soft h.ok hkind hu
        exact hsoft'
  | softReread hsoft =>
    refine ⟨h.ok, h.hard, ?_, ?_⟩
    · intro u hu
      exact h.soft u (by rw [hsoft]; exact hu)
    · intro u hu
      exact h.next u (by rw [hsoft]; exact hu)
  | softReturn hsoft hexit =>
    obtain ⟨hok, honly⟩ := exit_ok h.ok hexit
    have hkinds := h.congr hok honly.soft
    refine ⟨hok, hkinds.hard, (fun t ht => nomatch ht), ?_⟩
    intro u hu
    exact hkinds.next u (by rw [hsoft]; exact hu)

theorem check_step_soft {op : CheckOp τ} (h : KindsOk config x)
    (hrun : checkStep config x op = some x') : (x'.sys.timer t).soft = (x.sys.timer t).soft := by
  cases check_step_cases hrun with
  | call op hcall => exact (call_spec h.ok hcall).2.1 t
  | @next currentTick hhard =>
    rcases hard_next_cases x currentTick with hidle | ⟨u, -, hfire⟩
    · rw [hidle]
    · rw [hfire]
      rfl
  | checkReturn hhard hexit => exact (exit_ok h.ok hexit).2.soft t
  | @softNext n currentTick hsoft =>
    rcases soft_next_cases x n currentTick with
      ⟨-, hidle⟩ | ⟨u, -, -, hfire⟩
    · rw [hidle]
    · rw [hfire]
      rfl
  | softReturn hsoft hexit => exact (exit_ok h.ok hexit).2.soft t
  | check hhard => rfl
  | softCheck hsoft => rfl
  | softBegin hsoft => rfl
  | softReread hsoft => rfl

end

/-! ## List and flags -/

section

variable {config : TimerConfig} {x x' : CheckSys τ} {s s' : TimerSys τ} {t u : τ}
  {periodic soft : τ → Bool} {initTick : τ → BitVec 32} {tick : BitVec 32}

theorem CheckInv.linked_active (h : CheckInv config x) (hagree : FlagsAgree x) (t : τ) :
    x.sys.Linked t → (x.sys.timer t).activated = true := by
  by_cases hfiring : Firing x t
  · exact h.active t hfiring
  · exact (hagree t hfiring).mp

/-- When a check ends with a timer that is not linked without being activated, the list and the flag
agree exactly if the timer is periodic or not linked. -/
theorem exit_agree (h : RowsOk config s) (hactive : s.Linked t → (s.timer t).activated = true)
    (hrun : exitTimer config s t = some s') : (s'.Linked t ↔ (s'.timer t).activated = true) ↔
      (s.timer t).periodic = true ∨ ¬ s.Linked t := by
  have hstopped : OnlyTimer s (s.update t fun timer => { timer with activated := false }) t :=
    only_update rfl
  have hok : RowsOk config (s.update t fun timer => { timer with activated := false }) :=
    h.update rfl
  unfold exitTimer at hrun
  split at hrun
  · rename_i hperiodic
    have hspec := start_spec hok hrun
    refine iff_of_true ?_ (.inl hperiodic.1)
    exact iff_of_true hspec.agree.1 hspec.agree.2
  · rename_i hnot
    cases hrun
    have hlinked : (s.update t fun timer => { timer with activated := false }).Linked t ↔
        s.Linked t := by
      unfold TimerSys.Linked
      rw [update_rows, hstopped.soft]
    rw [hlinked, update_self]
    constructor
    · intro hiff
      exact .inr fun hmem => Bool.false_ne_true (hiff.mp hmem)
    · intro hcases
      refine iff_of_false (fun hmem => ?_) Bool.false_ne_true
      exact hnot ⟨hcases.resolve_right (not_not_intro hmem), hactive hmem⟩

theorem CheckInv.call {op : RowOp τ} (h : CheckInv config x) (hagree : FlagsAgree x)
    (hkinds : KindsOk config { x with sys := s' }) (hrun : callTimer config x.sys op = some s') :
    CheckInv config { x with sys := s' } ∧ FlagsAgree { x with sys := s' } := by
  obtain ⟨-, -, hflags⟩ := call_spec h.kinds.ok hrun
  refine ⟨⟨hkinds, ?_⟩, ?_⟩
  · intro t hfiring hlinked
    rcases hflags t with hiff | ⟨hsame, hflag⟩
    · exact hiff.mp hlinked
    · rw [hflag]
      exact h.active t hfiring (hsame.mp hlinked)
  · intro t hfiring
    rcases hflags t with hiff | ⟨hsame, hflag⟩
    · exact hiff
    · rw [hsame, hflag]
      exact hagree t hfiring

/-- A change of the phases in which no timeout function is called or returns. -/
theorem CheckInv.phase (h : CheckInv config x) (hagree : FlagsAgree x) (hkinds : KindsOk config x')
    (hsys : x'.sys = x.sys) (hsame : ∀ u, Firing x' u ↔ Firing x u) :
    CheckInv config x' ∧ FlagsAgree x' := by
  refine ⟨⟨hkinds, ?_⟩, ?_⟩
  · intro u hu
    rw [hsys]
    exact h.active u ((hsame u).mp hu)
  · intro u hnot
    rw [hsys]
    exact hagree u fun hu => hnot ((hsame u).mpr hu)

theorem CheckInv.fire (h : CheckInv config x) (hagree : FlagsAgree x) (hkinds : KindsOk config x')
    (hsys : x'.sys = rtTimerRemove x.sys t) (hfired : ∀ u, Firing x' u ↔ Firing x u ∨ u = t) :
    CheckInv config x' ∧ FlagsAgree x' := by
  have honly := only_remove (t := t) h.kinds.ok
  rw [← hsys] at honly
  refine ⟨⟨hkinds, ?_⟩, ?_⟩
  · intro u _ hlinked
    by_cases hut : u = t
    · subst hut
      rw [hsys] at hlinked
      exact absurd hlinked (not_linked_remove h.kinds.ok)
    · rw [honly.timer u hut]
      exact h.linked_active hagree u ((honly.linked u hut).mp hlinked)
  · intro u hnot
    have hut : u ≠ t := fun heq => hnot ((hfired u).mpr (.inr heq))
    rw [honly.linked u hut, honly.timer u hut]
    exact hagree u fun hfiring => hnot ((hfired u).mpr (.inl hfiring))

theorem CheckInv.exit (h : CheckInv config x) (hagree : FlagsAgree x) (hkinds : KindsOk config x')
    (ht : Firing x t) (hleft : ∀ u, Firing x' u ↔ Firing x u ∧ u ≠ t)
    (hrun : exitTimer config x.sys t = some x'.sys) :
    CheckInv config x' ∧ (FlagsAgree x' ↔ (x.sys.timer t).periodic = true ∨ ¬ x.sys.Linked t) := by
  obtain ⟨-, honly⟩ := exit_ok h.kinds.ok hrun
  have hiff := exit_agree h.kinds.ok (h.active t ht) hrun
  refine ⟨⟨hkinds, ?_⟩, ?_⟩
  · intro u hu hlinked
    obtain ⟨hold, hut⟩ := (hleft u).mp hu
    rw [honly.timer u hut]
    exact h.active u hold ((honly.linked u hut).mp hlinked)
  · rw [← hiff]
    constructor
    · intro hall
      exact hall t fun hfired => ((hleft t).mp hfired).2 rfl
    · intro hself u hnot
      by_cases hut : u = t
      · subst hut
        exact hself
      · rw [honly.linked u hut, honly.timer u hut]
        exact hagree u fun hfired => hnot ((hleft u).mpr ⟨hfired, hut⟩)

/-- The two checks never have the same timer. -/
theorem KindsOk.hard_ne_soft (h : KindsOk config x) (ht : x.hard.timer = some t)
    (hu : x.soft.timer = some u) : t ≠ u := by
  intro heq
  subst heq
  exact Bool.false_ne_true ((h.hard t ht).symm.trans (h.soft t hu))

/-- A step from a state in which the list and the flags agree leads to such a state exactly if it
does not end a check with a timer that is linked and not periodic. -/
theorem check_step_agree {op : CheckOp τ} (h : CheckInv config x) (hagree : FlagsAgree x)
    (hrun : checkStep config x op = some x') :
    CheckInv config x' ∧ (FlagsAgree x' ↔ ReturnOk x op) := by
  have hkinds := check_step_kinds h.kinds hrun
  -- only a return can end the agreement
  have hgood : (CheckInv config x' ∧ FlagsAgree x') → ReturnOk x op →
      CheckInv config x' ∧ (FlagsAgree x' ↔ ReturnOk x op) :=
    fun hafter hok => ⟨hafter.1, iff_of_true hafter.2 hok⟩
  cases check_step_cases hrun with
  | call op hcall => exact hgood (h.call hagree hkinds hcall) trivial
  | check hhard =>
    refine hgood (h.phase hagree hkinds rfl ?_) trivial
    intro u
    simp [Firing, HardPhase.timer, hhard]
  | @next currentTick hhard =>
    rcases hard_next_cases x currentTick with hidle | ⟨t, -, hfire⟩
    · rw [hidle] at hkinds hgood ⊢
      refine hgood (h.phase hagree hkinds rfl ?_) trivial
      intro u
      simp [Firing, HardPhase.timer, hhard]
    · rw [hfire] at hkinds hgood ⊢
      refine hgood (h.fire (t := t) hagree hkinds rfl ?_) trivial
      intro u
      simp [Firing, HardPhase.timer, hhard, or_comm, eq_comm]
  | @checkReturn t s hhard hexit =>
    have htimer : x.hard.timer = some t := by rw [hhard]; rfl
    have hresult := h.exit (t := t) hagree hkinds (.inl htimer) ?_ hexit
    · refine ⟨hresult.1, hresult.2.trans ⟨fun hcase u hu => ?_, fun hall => hall t htimer⟩⟩
      cases htimer.symm.trans hu
      exact hcase
    · intro u
      constructor
      · intro hu
        have hsoft : x.soft.timer = some u := hu.resolve_left fun hu => nomatch hu
        exact ⟨.inr hsoft, (h.kinds.hard_ne_soft htimer hsoft).symm⟩
      · rintro ⟨hu, hut⟩
        refine .inr (hu.resolve_left fun hu => hut ?_)
        exact some.inj (hu.symm.trans htimer)
  | softCheck hsoft =>
    refine hgood (h.phase hagree hkinds rfl ?_) trivial
    intro u
    simp [Firing, SoftPhase.timer, hsoft]
  | softBegin hsoft =>
    refine hgood (h.phase hagree hkinds rfl ?_) trivial
    intro u
    simp [Firing, SoftPhase.timer, hsoft]
  | @softNext n currentTick hsoft =>
    rcases soft_next_cases x n currentTick with
      ⟨-, hidle⟩ | ⟨t, rfl, -, hfire⟩
    · rw [hidle] at hkinds hgood ⊢
      refine hgood (h.phase hagree hkinds rfl ?_) trivial
      intro u
      simp [Firing, SoftPhase.timer, hsoft]
    · rw [hfire] at hkinds hgood ⊢
      refine hgood (h.fire (t := t) hagree hkinds rfl ?_) trivial
      intro u
      simp [Firing, SoftPhase.timer, hsoft, eq_comm]
  | softReread hsoft =>
    refine hgood (h.phase hagree hkinds rfl ?_) trivial
    intro u
    simp [Firing, SoftPhase.timer, hsoft]
  | @softReturn t n currentTick s hsoft hexit =>
    have htimer : x.soft.timer = some t := by rw [hsoft]; rfl
    have hresult := h.exit (t := t) hagree hkinds (.inr htimer) ?_ hexit
    · refine ⟨hresult.1, hresult.2.trans ⟨fun hcase u hu => ?_, fun hall => hall t htimer⟩⟩
      cases htimer.symm.trans hu
      exact hcase
    · intro u
      constructor
      · intro hu
        have hhard : x.hard.timer = some u := hu.resolve_right fun hu => nomatch hu
        exact ⟨.inl hhard, h.kinds.hard_ne_soft hhard htimer⟩
      · rintro ⟨hu, hut⟩
        refine .inl (hu.resolve_right fun hu => hut ?_)
        exact some.inj (hu.symm.trans htimer)

theorem check_start_kinds : KindsOk config (checkStart config periodic soft initTick tick) :=
  ⟨timer_start_ok, (fun _ ht => nomatch ht), (fun _ ht => nomatch ht), fun _ ht => nomatch ht⟩

theorem check_start_inv :
    CheckInv config (checkStart config periodic soft initTick tick) ∧
      FlagsAgree (checkStart config periodic soft initTick tick) := by
  have hnone : ∀ t, ¬ (checkStart config periodic soft initTick tick).sys.Linked t := by
    intro t hlinked
    have hmem : t ∈ bottom (replicate config.levels ([] : List τ)) := hlinked
    rw [bottom_replicate] at hmem
    cases hmem
  constructor
  · refine ⟨check_start_kinds, ?_⟩
    intro t _ hlinked
    exact absurd hlinked (hnone t)
  · intro t _
    exact iff_of_false (hnone t) Bool.false_ne_true

theorem FlagsAgree.outside (h : FlagsAgree x) : OutsideAgree x := by
  intro hhard hsoft t
  refine h t fun hfiring => ?_
  unfold Firing at hfiring
  rw [hhard, hsoft] at hfiring
  rcases hfiring with ht | ht <;> cases ht

end

/-- The list and the flags agree in every state of a run, but for the timers whose timeout functions
were called, exactly if no check ends with a timer that is linked again and not periodic. In such a
run a timer is linked exactly if it is activated, in every state outside the checks. -/
theorem linked_iff_activated {config : TimerConfig} {periodic soft : τ → Bool}
    {initTick : τ → BitVec 32} {tick : BitVec 32} {ops : List (CheckOp τ)} {x : CheckSys τ}
    (hrun : exec (checkStep config) (checkStart config periodic soft initTick tick) ops = some x) :
    (Always (checkStep config) FlagsAgree (checkStart config periodic soft initTick tick) ops ↔
      AllSteps (checkStep config) ReturnOk (checkStart config periodic soft initTick tick) ops) ∧
    (AllSteps (checkStep config) ReturnOk (checkStart config periodic soft initTick tick) ops →
      Always (checkStep config) OutsideAgree
        (checkStart config periodic soft initTick tick) ops) := by
  have hiff : Always (checkStep config) FlagsAgree (checkStart config periodic soft initTick tick)
      ops ↔ AllSteps (checkStep config) ReturnOk (checkStart config periodic soft initTick tick)
        ops := by
    refine always_iff (A := fun _ => True) (I := CheckInv config) ?_ (fun _ _ => trivial)
      check_start_inv.1 check_start_inv.2 hrun
    intro s op s' _ hinv hagree hstep
    exact check_step_agree hinv hagree hstep
  refine ⟨hiff, fun hsteps => ?_⟩
  exact (hiff.mpr hsteps).imp fun s hagree => hagree.outside

instance (x : CheckSys τ) (op : CheckOp τ) : Decidable (ReturnOk x op) :=
  match op with
  | .checkReturn =>
    inferInstanceAs (Decidable (∀ t ∈ x.hard.timer,
      (x.sys.timer t).periodic = true ∨ ¬ x.sys.Linked t))
  | .softReturn =>
    inferInstanceAs (Decidable (∀ t ∈ x.soft.timer,
      (x.sys.timer t).periodic = true ∨ ¬ x.sys.Linked t))
  | .call _ | .check | .next | .softCheck | .softBegin | .softNext | .softReread => .isTrue trivial

/-- Timers 0 and 2 are periodic, timers 2 and 3 are soft. -/
def someCheckStart : CheckSys (Fin 4) :=
  checkStart someRowConfig (fun t => t.val % 2 == 0) (fun t => decide (2 ≤ t.val)) (fun _ => 5#32)
    0xfffffffe#32

/-- Both checks run; a periodic timer starts itself and a soft one stops itself. -/
def someCheckOps : List (CheckOp (Fin 4)) :=
  [.call (.start 0), .call (.start 1), .call (.start 2), .call (.start 3), .call (.tick 5#32),
    .softCheck, .softBegin, .softNext, .check, .next, .call (.start 0), .checkReturn, .next,
    .checkReturn, .next, .call (.stop 2), .softReread, .softReturn, .softNext, .softReread,
    .softReturn, .softNext]

theorem some_check_ops_agree :
    Always (checkStep someRowConfig) OutsideAgree someCheckStart someCheckOps := by
  have hrun : (exec (checkStep someRowConfig) someCheckStart someCheckOps).isSome = true := by
    decide +kernel
  obtain ⟨x, hx⟩ := isSome_iff_exists.mp hrun
  exact (linked_iff_activated hx).2 (by decide +kernel)

/-- A timer that is not periodic starts itself in its timeout function. -/
def restartOps : List (CheckOp (Fin 4)) :=
  [.call (.start 1), .call (.tick 5#32), .check, .next, .call (.start 1), .checkReturn, .next]

/-- Afterwards it is linked and cannot be stopped. -/
theorem restarted_timer_not_activated :
    ∃ x, exec (checkStep someRowConfig) someCheckStart restartOps = some x ∧
      (x.hard = .idle ∧ x.soft = .idle ∧ x.sys.Linked 1 ∧ (x.sys.timer 1).activated = false) ∧
      ¬ OutsideAgree x ∧ (rtTimerStop x.sys 1).1 = false := by
  have hrun : Option.any (fun x => decide ((x.hard = .idle ∧ x.soft = .idle ∧ x.sys.Linked 1 ∧
      (x.sys.timer 1).activated = false) ∧ (rtTimerStop x.sys 1).1 = false))
      (exec (checkStep someRowConfig) someCheckStart restartOps) = true := by
    decide +kernel
  obtain ⟨x, hx, hstate⟩ := (Option.any_eq_true _ _).mp hrun
  obtain ⟨hflags, hstop⟩ := of_decide_eq_true hstate
  refine ⟨x, hx, hflags, fun hagree => ?_, hstop⟩
  obtain ⟨hhard, hsoft, hlinked, hflag⟩ := hflags
  have hactive := (hagree hhard hsoft 1).mp hlinked
  rw [hflag] at hactive
  cases hactive

end FullhanRtos.Timers
