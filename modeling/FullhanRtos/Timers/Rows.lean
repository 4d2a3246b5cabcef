import FullhanRtos.Lib.Sizes
import FullhanRtos.Lib.SkipList
import FullhanRtos.Lib.Transition

/-!
# Timers

`rt_timer_start`, `rt_timer_stop` and the settings of `rt_timer_control` of `kernel/src/timer.c`.
The running timers of one kind, hard or soft, are in the rows of a skip list, and the number of rows
(`RT_TIMER_SKIP_LIST_LEVEL`) is a parameter. Ticks have 32 bits and wrap, so deadlines are compared
by their difference. Each call is one step; what a start does to the timer thread is left to
`Timers.Thread`.

`timer_rows_ordered` says that the rows stay sorted by deadline as long as no timer is started while
another one of its kind is overdue.
-/

namespace FullhanRtos.Timers

open SkipList Transition List Option Function

set_option linter.unusedSectionVars false

/-! ## Data -/

/-- `struct rt_timer`. The three Booleans are bits of `parent.flag`. -/
structure Timer where
  activated : Bool
  periodic : Bool
  soft : Bool
  initTick : BitVec 32
  timeoutTick : BitVec 32

/-- `RT_TIMER_SKIP_LIST_LEVEL` and `RT_TIMER_SKIP_LIST_MASK`. -/
structure TimerConfig where
  levels : Nat
  levels_pos : 0 < levels
  mask : BitVec 32

/-- The timers, the two lists (`true` is `rt_soft_timer_list`) with their rows from top to bottom,
the counter `random_nr` and the tick. -/
structure TimerSys (τ : Type) where
  timer : τ → Timer
  rows : Bool → List (List τ)
  randomNr : BitVec 32
  tick : BitVec 32

def tickMaxHalf : BitVec 32 := 0x7fffffff#32

variable {τ : Type} [DecidableEq τ]

namespace TimerSys

/-- Change the record of a timer. -/
def update (s : TimerSys τ) (t : τ) (f : Timer → Timer) : TimerSys τ :=
  { s with timer := Function.update s.timer t (f (s.timer t)) }

def Linked (s : TimerSys τ) (t : τ) : Prop := t ∈ bottom (s.rows (s.timer t).soft)

instance (s : TimerSys τ) (t : τ) : Decidable (s.Linked t) :=
  inferInstanceAs (Decidable (t ∈ bottom _))

end TimerSys

/-! ## The functions -/

def rtTimerRemove (s : TimerSys τ) (t : τ) : TimerSys τ :=
  { s with rows := fun soft => eraseRows t (s.rows soft) }

/-- The search for the place of a timer goes past the timer `u`. -/
def passes (s : TimerSys τ) (t u : τ) : Bool :=
  let delta := (s.timer u).timeoutTick - (s.timer t).timeoutTick
  if delta = 0#32 then true
  else if delta < tickMaxHalf then false
  else true

/-- The rows above the bottom row in which a timer is linked, for at most `n` rows. -/
def upperRows (mask : BitVec 32) : Nat → BitVec 32 → Nat
  | 0, _ => 0
  | n + 1, tstNr =>
    if tstNr &&& mask = 0#32 then upperRows mask n (tstNr >>> ((mask + 1#32) >>> 1)) + 1 else 0

/-- Find the place of a timer and link it in. -/
def insertTimer (config : TimerConfig) (s : TimerSys τ) (t : τ) : TimerSys τ :=
  let soft := (s.timer t).soft
  let rowHead := heads (passes s t) (s.rows soft) none
  let randomNr := s.randomNr + 1#32
  { s with
    randomNr
    rows := Function.update s.rows soft
      (insertRows (upperRows config.mask (config.levels - 1) randomNr + 1) t (s.rows soft) rowHead)
        }

/-- Take a timer out of its list. -/
def deactivate (s : TimerSys τ) (t : τ) : TimerSys τ :=
  (rtTimerRemove s t).update t fun timer => { timer with activated := false }

/-- Compute the deadline of a timer. -/
def setTimeout (s : TimerSys τ) (t : τ) : TimerSys τ :=
  s.update t fun timer => { timer with timeoutTick := s.tick + timer.initTick }

def rtTimerStart (config : TimerConfig) (s : TimerSys τ) (t : τ) : Option (TimerSys τ) :=
  if (s.timer t).initTick < tickMaxHalf then
    some ((insertTimer config (setTimeout (deactivate s t) t) t).update t fun timer =>
      { timer with activated := true })
  else none

def rtTimerStop (s : TimerSys τ) (t : τ) : Bool × TimerSys τ :=
  if (s.timer t).activated then (true, deactivate s t) else (false, s)

/-- The settings of `rt_timer_control`. -/
inductive TimerSetting where
  | time (initTick : BitVec 32)
  | oneshot
  | periodic

def rtTimerControl (s : TimerSys τ) (t : τ) : TimerSetting → TimerSys τ
  | .time initTick => s.update t fun timer => { timer with initTick }
  | .oneshot => s.update t fun timer => { timer with periodic := false }
  | .periodic => s.update t fun timer => { timer with periodic := true }

/-- The state before the first start: every timer is initialised and not active. -/
def timerStart (config : TimerConfig) (periodic soft : τ → Bool) (initTick : τ → BitVec 32)
    (tick : BitVec 32) : TimerSys τ where
  timer := fun t =>
    { activated := false, periodic := periodic t, soft := soft t, initTick := initTick t
      timeoutTick := 0#32 }
  rows := fun _ => List.replicate config.levels []
  randomNr := 0#32
  tick := tick

/-! ## What a call does -/

/-- The rows are nested, and a timer is linked in the list of its kind only. -/
structure RowsOk (config : TimerConfig) (s : TimerSys τ) : Prop where
  length : ∀ b, (s.rows b).length = config.levels
  nested : ∀ b, Nested (s.rows b)
  kind : ∀ b, ∀ t ∈ bottom (s.rows b), (s.timer t).soft = b

section

variable {config : TimerConfig} {s s' : TimerSys τ} {t u : τ} {b : Bool} {f : Timer → Timer}

@[simp]
theorem update_rows : (s.update t f).rows = s.rows := rfl

@[simp]
theorem update_tick : (s.update t f).tick = s.tick := rfl

@[simp]
theorem update_self : (s.update t f).timer t = f (s.timer t) :=
  Function.update_self ..

theorem update_other (hu : u ≠ t) : (s.update t f).timer u = s.timer u :=
  Function.update_of_ne hu ..

/-- A change that keeps the kind. -/
theorem RowsOk.update (h : RowsOk config s) (hsoft : (f (s.timer t)).soft = (s.timer t).soft) :
    RowsOk config (s.update t f) := by
  refine ⟨h.length, h.nested, fun b u hu => ?_⟩
  by_cases hut : u = t
  · rw [hut, update_self, hsoft]
    exact h.kind b t (hut ▸ hu)
  · rw [update_other hut]
    exact h.kind b u hu

theorem RowsOk.remove (h : RowsOk config s) : RowsOk config (rtTimerRemove s t) := by
  refine ⟨fun b => ?_, fun b => erase_rows_nested (h.nested b), fun b u hu => h.kind b u ?_⟩
  · exact (length_map _).trans (h.length b)
  · have hmem : u ∈ bottom (eraseRows t (s.rows b)) := hu
    rw [bottom_erase] at hmem
    exact mem_of_mem_erase hmem

theorem RowsOk.ne_nil (h : RowsOk config s) : s.rows b ≠ [] := by
  intro hnil
  have hlen := h.length b
  rw [hnil, length_nil] at hlen
  exact absurd config.levels_pos (by omega)

theorem mem_bottom_remove (h : RowsOk config s) :
    u ∈ bottom ((rtTimerRemove s t).rows b) ↔ u ≠ t ∧ u ∈ bottom (s.rows b) := by
  show u ∈ bottom (eraseRows t (s.rows b)) ↔ _
  rw [bottom_erase]
  exact ((h.nested b).nodup _ (bottom_mem h.ne_nil)).mem_erase_iff

/-- What a start does: the timer is linked in the list of its kind with a new deadline. -/
structure Starts (config : TimerConfig) (s s' : TimerSys τ) (t : τ) : Prop where
  ok : RowsOk config s'
  self : s'.timer t =
    { s.timer t with activated := true, timeoutTick := s.tick + (s.timer t).initTick }
  other : ∀ u, u ≠ t → s'.timer u = s.timer u
  linked : ∀ b u, u ∈ bottom (s'.rows b) ↔
    u = t ∧ b = (s.timer t).soft ∨ u ≠ t ∧ u ∈ bottom (s.rows b)
  tick : s'.tick = s.tick
  time : (s.timer t).initTick < tickMaxHalf

section

variable (h : RowsOk config s)

include h

theorem insert_timer_ok (ht : ∀ row ∈ s.rows (s.timer t).soft, t ∉ row) :
    RowsOk config (insertTimer config s t) ∧ ∀ b u, u ∈ bottom ((insertTimer config s t).rows b) ↔
      u = t ∧ b = (s.timer t).soft ∨ u ∈ bottom (s.rows b) := by
  have hheads : List.Forall₂ (fun row pos => ∀ p, pos = some p → p ∈ row)
      (s.rows (s.timer t).soft) (heads (passes s t) (s.rows (s.timer t).soft) none) :=
    heads_mem (h.nested _).subset fun p hp => nomatch hp
  have hmem : ∀ b u, u ∈ bottom ((insertTimer config s t).rows b) ↔
      u = t ∧ b = (s.timer t).soft ∨ u ∈ bottom (s.rows b) := by
    intro b u
    by_cases hb : b = (s.timer t).soft
    · subst hb
      simp only [insertTimer, Function.update_self]
      rw [mem_bottom_insert_rows (Nat.succ_pos _) h.ne_nil hheads]
      simp
    · simp only [insertTimer, update_of_ne hb, hb, and_false, false_or]
  refine ⟨⟨fun b => ?_, fun b => ?_, fun b u hu => ?_⟩, hmem⟩
  · by_cases hb : b = (s.timer t).soft
    · subst hb
      simp only [insertTimer, Function.update_self]
      rw [insert_rows_length]
      exact h.length _
    · simp only [insertTimer, update_of_ne hb]
      exact h.length b
  · by_cases hb : b = (s.timer t).soft
    · subst hb
      simp only [insertTimer, Function.update_self]
      exact insert_rows_nested (h.nested _) ht hheads
    · simp only [insertTimer, Function.update_of_ne hb]
      exact h.nested b
  · rcases (hmem b u).mp hu with ⟨rfl, rfl⟩ | hu
    · rfl
    · exact h.kind b u hu

theorem RowsOk.deactivate : RowsOk config (deactivate s t) :=
  h.remove.update rfl

theorem mem_bottom_deactivate :
    u ∈ bottom ((deactivate s t).rows b) ↔ u ≠ t ∧ u ∈ bottom (s.rows b) :=
  mem_bottom_remove h

theorem prepared_ok :
    RowsOk config (setTimeout (deactivate s t) t) ∧
      (∀ b, ∀ row ∈ (setTimeout (deactivate s t) t).rows b, t ∉ row) ∧
      (setTimeout (deactivate s t) t).timer t =
        { s.timer t with activated := false, timeoutTick := s.tick + (s.timer t).initTick } ∧
      ∀ u, u ≠ t → (setTimeout (deactivate s t) t).timer u = s.timer u := by
  refine ⟨h.deactivate.update rfl, fun b => not_mem_erase_rows (h.nested b), ?_, fun u hu => ?_⟩
  · simp [setTimeout, Timers.deactivate, rtTimerRemove]
  · rw [setTimeout, update_other hu, Timers.deactivate, update_other hu]
    rfl

theorem start_spec (hrun : rtTimerStart config s t = some s') : Starts config s s' t := by
  obtain ⟨htime, hrun⟩ := ite_none_right_eq_some.mp hrun
  cases hrun
  obtain ⟨hok, hnot, hself, hother⟩ := prepared_ok (t := t) h
  obtain ⟨hinserted, hmem⟩ := insert_timer_ok hok (hnot _)
  have hsoft : ((setTimeout (deactivate s t) t).timer t).soft = (s.timer t).soft := by rw [hself]
  refine ⟨hinserted.update rfl, ?_, fun u hu => ?_, fun b u => ?_, rfl, htime⟩
  · rw [update_self]
    show { (setTimeout (deactivate s t) t).timer t with activated := true } = _
    rw [hself]
  · rw [update_other hu]
    exact hother u hu
  · rw [update_rows, hmem b u, hsoft]
    exact or_congr_right (mem_bottom_deactivate h)

theorem start_other_rows (hb : b ≠ (s.timer t).soft) (hrun : rtTimerStart config s t = some s') :
    s'.rows b = eraseRows t (s.rows b) := by
  obtain ⟨-, hrun⟩ := ite_none_right_eq_some.mp hrun
  cases hrun
  have hsoft : ((setTimeout (deactivate s t) t).timer t).soft = (s.timer t).soft := by
    rw [(prepared_ok (t := t) h).2.2.1]
  simp only [update_rows, insertTimer, hsoft, update_of_ne hb]
  rfl

end

theorem stop_spec : ((s.timer t).activated = true ∧ rtTimerStop s t = (true, deactivate s t)) ∨
    ((s.timer t).activated = false ∧ rtTimerStop s t = (false, s)) := by
  unfold rtTimerStop
  cases (s.timer t).activated with
  | true => exact .inl ⟨rfl, rfl⟩
  | false => exact .inr ⟨rfl, rfl⟩

end

/-! ## Runs of starts and stops -/

/-- A call, or a change of the tick. -/
inductive RowOp (τ : Type) where
  | start (t : τ)
  | stop (t : τ)
  | control (t : τ) (setting : TimerSetting)
  | tick (ticks : BitVec 32)

/-- The timers, and for each timer the number of its last start unless it was stopped since. -/
structure RowRun (τ : Type) where
  sys : TimerSys τ
  order : τ → Option Nat
  count : Nat

def rowStep (config : TimerConfig) (x : RowRun τ) : RowOp τ → Option (RowRun τ)
  | .start t =>
    (rtTimerStart config x.sys t).map fun s =>
      { sys := s, order := Function.update x.order t (some x.count), count := x.count + 1 }
  | .stop t =>
    some { x with sys := (rtTimerStop x.sys t).2, order := Function.update x.order t none }
  | .control t setting => some { x with sys := rtTimerControl x.sys t setting }
  | .tick ticks => some { x with sys := { x.sys with tick := x.sys.tick + ticks } }

def rowStart (config : TimerConfig) (periodic soft : τ → Bool) (initTick : τ → BitVec 32)
    (tick : BitVec 32) : RowRun τ where
  sys := timerStart config periodic soft initTick tick
  order := fun _ => none
  count := 0

/-- The ticks that are left until the deadline of a timer. -/
def remaining (s : TimerSys τ) (t : τ) : BitVec 32 := (s.timer t).timeoutTick - s.tick

/-- No other timer of the list is overdue at a start. -/
def NoneOverdue (x : RowRun τ) : RowOp τ → Prop
  | .start t => ∀ u ∈ bottom (x.sys.rows (x.sys.timer t).soft), u ≠ t →
      remaining x.sys u < tickMaxHalf
  | _ => True

/-- `u` comes before `v`: its deadline is earlier, or it is the same and `u` was started earlier. -/
def Before (s : TimerSys τ) (order : τ → Option Nat) (u v : τ) : Prop :=
  (s.timer v).timeoutTick - (s.timer u).timeoutTick < tickMaxHalf ∧
    ((s.timer u).timeoutTick = (s.timer v).timeoutTick →
      ∃ m n, order u = some m ∧ order v = some n ∧ m < n)

structure RowsOrdered (x : RowRun τ) : Prop where
  before : ∀ b, (bottom (x.sys.rows b)).Pairwise (Before x.sys x.order)
  remaining : ∀ b, (∀ t ∈ bottom (x.sys.rows b), remaining x.sys t < tickMaxHalf) →
    (bottom (x.sys.rows b)).Pairwise fun u v => remaining x.sys u ≤ remaining x.sys v
  layered : ∀ b, Layered (x.sys.rows b)
  started : ∀ t, x.order t ≠ none → x.sys.Linked t
  stopped : ∀ t, x.order t = none → ∀ b, ∀ row ∈ x.sys.rows b, t ∉ row

/-- The invariant of these runs. -/
structure RowInv (config : TimerConfig) (x : RowRun τ) : Prop where
  ok : RowsOk config x.sys
  before : ∀ b, (bottom (x.sys.rows b)).Pairwise (Before x.sys x.order)
  layered : ∀ b, Layered (x.sys.rows b)
  active : ∀ t, (x.sys.timer t).activated = true ↔ x.order t ≠ none
  linked : ∀ t b, t ∈ bottom (x.sys.rows b) ↔ x.order t ≠ none ∧ b = (x.sys.timer t).soft
  count : ∀ t n, x.order t = some n → n < x.count

section

variable {x y n now : BitVec 32}

/-- While two deadlines are less than half the range away, their difference orders them. -/
theorem sub_lt_half_iff (hx : x - now < tickMaxHalf) (hy : y - now < tickMaxHalf) :
    y - x < tickMaxHalf ↔ x - now ≤ y - now := by
  unfold tickMaxHalf at *
  bv_omega

theorem passes_iff {τ : Type} {s : TimerSys τ} {t u : τ} {now : BitVec 32}
    (ht : (s.timer t).timeoutTick - now < tickMaxHalf)
    (hu : (s.timer u).timeoutTick - now < tickMaxHalf) :
    passes s t u = true ↔ (s.timer u).timeoutTick - now ≤ (s.timer t).timeoutTick - now := by
  unfold passes tickMaxHalf at *
  generalize (s.timer u).timeoutTick = x at *
  generalize (s.timer t).timeoutTick = n at *
  dsimp only
  split
  · rename_i heq
    simp only [true_iff]
    bv_omega
  · split
    · simp only [Bool.false_eq_true, false_iff]
      bv_omega
    · simp only [true_iff]
      bv_omega

end

section

variable {config : TimerConfig} {x x' : RowRun τ} {p : TimerSys τ} {t u v : τ} {b : Bool}

theorem before_congr {s s' : TimerSys τ} {order order' : τ → Option Nat}
    (hu : (s'.timer u).timeoutTick = (s.timer u).timeoutTick ∧ order' u = order u)
    (hv : (s'.timer v).timeoutTick = (s.timer v).timeoutTick ∧ order' v = order v) :
    Before s' order' u v ↔ Before s order u v := by
  unfold Before
  rw [hu.1, hu.2, hv.1, hv.2]

def NotLater (s : TimerSys τ) (u v : τ) : Prop :=
  (s.timer v).timeoutTick - (s.timer u).timeoutTick < tickMaxHalf

/-- The rows without the timer that is started. All deadlines are less than half the range after
`base`. -/
structure Prepared (config : TimerConfig) (s : TimerSys τ) (t : τ) (base : BitVec 32)
    (p : TimerSys τ) : Prop where
  ok : RowsOk config p
  rows : ∀ b, p.rows b = eraseRows t (s.rows b)
  other : ∀ u, u ≠ t → p.timer u = s.timer u
  soft : (p.timer t).soft = (s.timer t).soft
  not_mem : ∀ b, ∀ row ∈ p.rows b, t ∉ row
  near : ∀ u ∈ bottom (p.rows (s.timer t).soft), (p.timer u).timeoutTick - base < tickMaxHalf
  self : (p.timer t).timeoutTick - base < tickMaxHalf

section

variable {s s' : TimerSys τ} {base : BitVec 32}

theorem Prepared.ne (h : Prepared config s t base p) (hu : u ∈ bottom (p.rows b)) : u ≠ t :=
  fun heq => h.not_mem b _ (bottom_mem h.ok.ne_nil) (heq ▸ hu)

theorem prepared (h : RowsOk config s)
    (hnear : ∀ u ∈ bottom (s.rows (s.timer t).soft), u ≠ t →
      (s.timer u).timeoutTick - base < tickMaxHalf)
    (hself : s.tick + (s.timer t).initTick - base < tickMaxHalf) :
    Prepared config s t base (setTimeout (deactivate s t) t) := by
  obtain ⟨hok, hnot, htimer, hother⟩ := prepared_ok (t := t) h
  refine ⟨hok, fun b => rfl, hother, by rw [htimer], hnot, fun u hu => ?_, ?_⟩
  · obtain ⟨hut, hu⟩ := (mem_bottom_deactivate h).mp hu
    rw [hother u hut]
    exact hnear u hu hut
  · rw [htimer]
    exact hself

theorem Prepared.bottom (hp : Prepared config s t base p) (b : Bool) :
    bottom (p.rows b) = (SkipList.bottom (s.rows b)).erase t := by
  rw [hp.rows, bottom_erase]

theorem Prepared.passes_iff (hp : Prepared config s t base p)
    (hu : u ∈ SkipList.bottom (p.rows (s.timer t).soft)) : passes p t u = true ↔
      (p.timer u).timeoutTick - base ≤ (p.timer t).timeoutTick - base :=
  Timers.passes_iff hp.self (hp.near u hu)

theorem Prepared.passed_first (hp : Prepared config s t base p)
    (hsorted : (SkipList.bottom (p.rows (s.timer t).soft)).Pairwise (NotLater p))
    (hlayered : Layered (p.rows (s.timer t).soft)) :
    ∀ row ∈ p.rows (s.timer t).soft, PassedFirst (passes p t) row := by
  have hbottom : PassedFirst (passes p t) (SkipList.bottom (p.rows (s.timer t).soft)) := by
    refine hsorted.imp_of_mem fun {u v} hu hv hnot hpass => ?_
    have hle := (sub_lt_half_iff (hp.near u hu) (hp.near v hv)).mp hnot
    exact (hp.passes_iff hu).mpr (BitVec.le_trans hle ((hp.passes_iff hv).mp hpass))
  exact fun row hrow => hbottom.sublist (hlayered.sublist_bottom hrow)

/-- In sorted rows a start links the timer behind the last one whose deadline is not later. An order
of the other timers that fits the new one holds of the new bottom row. -/
theorem start_places (base : BitVec 32) (h : RowsOk config s)
    (hlayered : Layered (s.rows (s.timer t).soft))
    (hsorted : (bottom (s.rows (s.timer t).soft)).Pairwise (NotLater s))
    (hnear : ∀ u ∈ bottom (s.rows (s.timer t).soft), u ≠ t →
      (s.timer u).timeoutTick - base < tickMaxHalf)
    (hself : s.tick + (s.timer t).initTick - base < tickMaxHalf)
    (hrun : rtTimerStart config s t = some s') :
    Layered (s'.rows (s.timer t).soft) ∧
      ∀ R : τ → τ → Prop, ((bottom (s.rows (s.timer t).soft)).erase t).Pairwise R →
        (∀ u ∈ bottom (s.rows (s.timer t).soft), u ≠ t → (s.timer u).timeoutTick - base ≤
          s.tick + (s.timer t).initTick - base → R u t) →
        (∀ u ∈ bottom (s.rows (s.timer t).soft), u ≠ t → s.tick + (s.timer t).initTick - base <
          (s.timer u).timeoutTick - base → R t u) →
        (bottom (s'.rows (s.timer t).soft)).Pairwise R := by
  obtain ⟨-, hrun⟩ := ite_none_right_eq_some.mp hrun
  have hp := prepared h hnear hself
  have htimer := (prepared_ok (t := t) h).2.2.1
  have hdeadline : ((setTimeout (deactivate s t) t).timer t).timeoutTick =
      s.tick + (s.timer t).initTick := by rw [htimer]
  generalize setTimeout (deactivate s t) t = p at hp hrun hdeadline
  have hbottom := hp.bottom (s.timer t).soft
  have hold : ∀ u ∈ bottom (p.rows (s.timer t).soft),
      u ∈ bottom (s.rows (s.timer t).soft) ∧ u ≠ t := by
    intro u hu
    refine ⟨?_, hp.ne hu⟩
    rw [hbottom] at hu
    exact mem_of_mem_erase hu
  have hlayered' : Layered (p.rows (s.timer t).soft) := by
    rw [hp.rows]
    exact erase_rows_layered hlayered
  have hsorted' : (bottom (p.rows (s.timer t).soft)).Pairwise (NotLater p) := by
    have hpair := List.Pairwise.sublist (erase_sublist (a := t)) hsorted
    rw [← hbottom] at hpair
    refine hpair.imp_of_mem fun hu hv hnot => ?_
    unfold NotLater
    rw [hp.other _ (hold _ hu).2, hp.other _ (hold _ hv).2]
    exact hnot
  have hpassed := hp.passed_first hsorted' hlayered'
  have hinsert : insertRows (upperRows config.mask (config.levels - 1) (p.randomNr + 1#32) + 1) t
      (p.rows (s.timer t).soft) (heads (passes p t) (p.rows (s.timer t).soft) none) =
      placeRows (passes p t) (upperRows config.mask (config.levels - 1) (p.randomNr + 1#32) + 1) t
        (p.rows (s.timer t).soft) :=
    insert_rows_eq_place (hp.ok.nested _) hpassed fun q hq => nomatch hq
  have hrows : s'.rows = update p.rows (s.timer t).soft (placeRows (passes p t)
      (upperRows config.mask (config.levels - 1) (p.randomNr + 1#32) + 1) t
      (p.rows (s.timer t).soft)) := by
    cases hrun
    simp only [update_rows, insertTimer, hp.soft]
    rw [hinsert]
  refine ⟨?_, fun R hR hbefore hafter => ?_⟩
  · rw [hrows, Function.update_self]
    exact place_rows_layered hlayered' hpassed
  · rw [hrows, Function.update_self, bottom_place_rows (Nat.succ_pos _) hp.ok.ne_nil]
    rw [← hbottom] at hR
    refine place_pairwise hR (hpassed _ (bottom_mem hp.ok.ne_nil)) ?_ ?_
    · intro u hu hpass
      have hle := (hp.passes_iff hu).mp hpass
      rw [hdeadline, hp.other u (hold u hu).2] at hle
      exact hbefore u (hold u hu).1 (hold u hu).2 hle
    · intro u hu hpass
      refine hafter u (hold u hu).1 (hold u hu).2 (BitVec.not_le.mp fun hle => ?_)
      rw [← hdeadline, ← hp.other u (hold u hu).2] at hle
      rw [(hp.passes_iff hu).mpr hle] at hpass
      cases hpass

end

theorem init_tick_sub {s : TimerSys τ} (htime : (s.timer t).initTick < tickMaxHalf) :
    s.tick + (s.timer t).initTick - s.tick < tickMaxHalf := by
  rw [BitVec.add_comm, BitVec.add_sub_cancel]
  exact htime

/-- A start links the timer behind the last one whose deadline is not later. -/
theorem RowInv.start (h : RowInv config x) (hover : NoneOverdue x (.start t)) {s : TimerSys τ}
    (hrun : rtTimerStart config x.sys t = some s) :
    RowInv config
      { sys := s, order := Function.update x.order t (some x.count), count := x.count + 1 } := by
  have hspec := start_spec h.ok hrun
  have hself := init_tick_sub hspec.time
  obtain ⟨hlayered, hplaced⟩ := start_places x.sys.tick h.ok (h.layered _)
    ((h.before _).imp fun hbefore => hbefore.1) hover hself hrun
  have hother : ∀ b, b ≠ (x.sys.timer t).soft → s.rows b = eraseRows t (x.sys.rows b) :=
    fun b hb => start_other_rows h.ok hb hrun
  have hdeadline : (s.timer t).timeoutTick = x.sys.tick + (x.sys.timer t).initTick := by
    rw [hspec.self]
  -- the other timers keep their deadlines and their numbers
  have hkept : ∀ b, ((bottom (x.sys.rows b)).erase t).Pairwise
      (Before s (update x.order t (some x.count))) := by
    intro b
    have hne : ∀ u ∈ (bottom (x.sys.rows b)).erase t, u ≠ t := fun u hu =>
      (((h.ok.nested b).nodup _ (bottom_mem h.ok.ne_nil)).mem_erase_iff.mp hu).1
    refine (List.Pairwise.sublist erase_sublist (h.before b)).imp_of_mem ?_
    intro u v hu hv hbefore
    refine (before_congr ?_ ?_).mpr hbefore
    · exact ⟨by rw [hspec.other _ (hne _ hu)], update_of_ne (hne _ hu) ..⟩
    · exact ⟨by rw [hspec.other _ (hne _ hv)], update_of_ne (hne _ hv) ..⟩
  refine ⟨hspec.ok, fun b => ?_, fun b => ?_, fun u => ?_, fun u b => ?_, fun u n hn => ?_⟩
  · by_cases hb : b = (x.sys.timer t).soft
    · subst hb
      refine hplaced _ (hkept _) ?_ ?_
      · intro u hu hut hle
        unfold Before
        rw [hspec.other u hut, hdeadline]
        refine ⟨(sub_lt_half_iff (hover u hu hut) hself).mpr hle, fun _ => ?_⟩
        obtain ⟨n, hn⟩ := ne_none_iff_exists'.mp ((h.linked u _).mp hu).1
        refine ⟨n, x.count, ?_, Function.update_self .., h.count u n hn⟩
        exact (Function.update_of_ne hut ..).trans hn
      · intro u hu hut hlt
        unfold Before
        rw [hspec.other u hut, hdeadline]
        refine ⟨(sub_lt_half_iff hself (hover u hu hut)).mpr (BitVec.le_of_lt hlt), fun heq => ?_⟩
        rw [heq] at hlt
        exact absurd hlt (BitVec.lt_irrefl _)
    · rw [hother b hb, bottom_erase]
      exact hkept b
  · by_cases hb : b = (x.sys.timer t).soft
    · subst hb
      exact hlayered
    · show Layered (s.rows b)
      rw [hother b hb]
      exact erase_rows_layered (h.layered b)
  · show (s.timer u).activated = true ↔ update x.order t (some x.count) u ≠ none
    by_cases hut : u = t
    · subst hut
      simp [hspec.self]
    · rw [hspec.other u hut, update_of_ne hut]
      exact h.active u
  · show u ∈ bottom (s.rows b) ↔
      update x.order t (some x.count) u ≠ none ∧ b = (s.timer u).soft
    rw [hspec.linked]
    by_cases hut : u = t
    · subst hut
      simp [hspec.self]
    · rw [hspec.other u hut, update_of_ne hut, ← h.linked]
      simp [hut]
  · by_cases hut : u = t
    · subst hut
      have hcount : some x.count = some n := by simpa using hn
      exact Option.some.inj hcount ▸ Nat.lt_succ_self _
    · exact Nat.lt_succ_of_lt (h.count u n (by simpa [hut] using hn))

theorem RowInv.stop (h : RowInv config x) :
    RowInv config
      { x with sys := (rtTimerStop x.sys t).2, order := Function.update x.order t none } := by
  rcases stop_spec (s := x.sys) (t := t) with ⟨hactive, hstop⟩ | ⟨hactive, hstop⟩
  · rw [hstop]
    have hother : ∀ u, u ≠ t → (deactivate x.sys t).timer u = x.sys.timer u := fun u hu =>
      update_other hu
    refine ⟨h.ok.deactivate, fun b => ?_, fun b => erase_rows_layered (h.layered b), fun u => ?_,
      fun u b => ?_, fun u n hn => ?_⟩
    · have hbottom : bottom ((deactivate x.sys t).rows b) = (bottom (x.sys.rows b)).erase t :=
        bottom_erase
      have hmem : ∀ u ∈ bottom ((deactivate x.sys t).rows b), u ≠ t := fun u hu =>
        ((mem_bottom_deactivate h.ok).mp hu).1
      have hpair := List.Pairwise.sublist (erase_sublist (a := t)) (h.before b)
      rw [← hbottom] at hpair
      refine hpair.imp_of_mem fun hu hv hbefore => ?_
      refine (before_congr ?_ ?_).mpr hbefore
      · exact ⟨by rw [hother _ (hmem _ hu)], update_of_ne (hmem _ hu) ..⟩
      · exact ⟨by rw [hother _ (hmem _ hv)], update_of_ne (hmem _ hv) ..⟩
    · show ((deactivate x.sys t).timer u).activated = true ↔ update x.order t none u ≠ none
      by_cases hut : u = t
      · subst hut
        simp [deactivate]
      · rw [hother u hut, update_of_ne hut]
        exact h.active u
    · show u ∈ bottom ((deactivate x.sys t).rows b) ↔ _
      rw [mem_bottom_deactivate h.ok, h.linked]
      show _ ↔ update x.order t none u ≠ none ∧ b = ((deactivate x.sys t).timer u).soft
      by_cases hut : u = t
      · subst hut
        simp
      · rw [hother u hut, update_of_ne hut]
        exact and_iff_right hut
    · by_cases hut : u = t
      · subst hut
        simp at hn
      · exact h.count u n (by simpa [hut] using hn)
  · have hnone : x.order t = none := by
      by_contra hsome
      rw [(h.active t).mpr hsome] at hactive
      cases hactive
    have hsame : update x.order t none = x.order := by
      rw [← hnone]
      exact update_eq_self t x.order
    rw [hstop, hsame]
    exact h

theorem RowInv.control (h : RowInv config x) (t : τ) (setting : TimerSetting) :
    RowInv config { x with sys := rtTimerControl x.sys t setting } := by
  have hrows : (rtTimerControl x.sys t setting).rows = x.sys.rows := by cases setting <;> rfl
  have htimer : ∀ u, ((rtTimerControl x.sys t setting).timer u).timeoutTick =
      (x.sys.timer u).timeoutTick ∧
      ((rtTimerControl x.sys t setting).timer u).activated = (x.sys.timer u).activated ∧
      ((rtTimerControl x.sys t setting).timer u).soft = (x.sys.timer u).soft := by
    intro u
    by_cases hut : u = t
    · subst hut
      cases setting <;> simp [rtTimerControl]
    · cases setting <;> simp [rtTimerControl, update_other hut]
  refine ⟨⟨?_, ?_, fun b u hu => ?_⟩, fun b => ?_, ?_, fun u => ?_, fun u b => ?_, h.count⟩
  · simpa only [hrows] using h.ok.length
  · simpa only [hrows] using h.ok.nested
  · rw [(htimer u).2.2]
    exact h.ok.kind b u (by simpa only [hrows] using hu)
  · simp only [hrows]
    refine (h.before b).imp fun hbefore => ?_
    exact (before_congr ⟨(htimer _).1, rfl⟩ ⟨(htimer _).1, rfl⟩).mpr hbefore
  · simpa only [hrows] using h.layered
  · rw [(htimer u).2.1]
    exact h.active u
  · simp only [hrows, (htimer u).2.2]
    exact h.linked u b

theorem RowInv.tick (h : RowInv config x) (ticks : BitVec 32) :
    RowInv config { x with sys := { x.sys with tick := x.sys.tick + ticks } } :=
  ⟨⟨h.ok.length, h.ok.nested, h.ok.kind⟩, h.before, h.layered, h.active, h.linked, h.count⟩

theorem row_step_inv {op : RowOp τ} (h : RowInv config x) (hover : NoneOverdue x op)
    (hrun : rowStep config x op = some x') : RowInv config x' := by
  cases op with
  | start t =>
    obtain ⟨s, hstart, rfl⟩ := map_eq_some_iff.mp hrun
    exact h.start hover hstart
  | stop t =>
    cases hrun
    exact h.stop
  | control t setting =>
    cases hrun
    exact h.control t setting
  | tick ticks =>
    cases hrun
    exact h.tick ticks

theorem bottom_replicate {n : Nat} : bottom (List.replicate n ([] : List τ)) = [] := by
  induction n with
  | zero => rfl
  | succ n ih =>
    cases n with
    | zero => rfl
    | succ n => exact ih

theorem timer_start_ok {periodic soft : τ → Bool} {initTick : τ → BitVec 32} {tick : BitVec 32} :
    RowsOk config (timerStart config periodic soft initTick tick) := by
  refine ⟨fun b => length_replicate, fun b => ⟨?_, ?_⟩, fun b t ht => ?_⟩
  · exact pairwise_replicate.mpr (.inr fun x hx => hx)
  · intro row hrow
    rw [eq_of_mem_replicate hrow]
    exact nodup_nil
  · have hmem : t ∈ bottom (List.replicate config.levels ([] : List τ)) := ht
    rw [bottom_replicate] at hmem
    cases hmem

theorem row_start_inv {periodic soft : τ → Bool} {initTick : τ → BitVec 32} {tick : BitVec 32} :
    RowInv config (rowStart config periodic soft initTick tick) := by
  have hbottom : ∀ b, bottom ((rowStart config periodic soft initTick tick).sys.rows b) = [] :=
    fun b => bottom_replicate
  refine ⟨timer_start_ok, fun b => ?_, fun b => ?_, fun t => ?_, fun t b => ?_, fun t n hn => ?_⟩
  · rw [hbottom]
    exact .nil
  · exact pairwise_replicate.mpr (.inr (List.Sublist.refl _))
  · simp [rowStart, timerStart]
  · rw [hbottom]
    simp [rowStart]
  · cases hn

theorem RowInv.rows_ordered (h : RowInv config x) : RowsOrdered x := by
  refine ⟨h.before, fun b hnear => ?_, h.layered, fun t ht => ?_, fun t ht b row hrow hmem => ?_⟩
  · refine (h.before b).imp_of_mem fun hu hv hbefore => ?_
    exact (sub_lt_half_iff (hnear _ hu) (hnear _ hv)).mp hbefore.1
  · exact (h.linked t _).mpr ⟨ht, rfl⟩
  · exact ((h.linked t b).mp ((h.ok.nested b).subset_bottom hrow hmem)).1 ht

end

/-- In every run in which no other timer of the list is overdue at a start, the timers of each list
are in the order of their deadlines and those with the same deadline in the order of their starts;
every row is a sublist of the rows below, and a timer that is stopped is in no row. -/
theorem timer_rows_ordered {config : TimerConfig} {periodic soft : τ → Bool}
    {initTick : τ → BitVec 32} {tick : BitVec 32} {ops : List (RowOp τ)} {x : RowRun τ}
    (hover : AllSteps (rowStep config) NoneOverdue
      (rowStart config periodic soft initTick tick) ops)
    (hrun : exec (rowStep config) (rowStart config periodic soft initTick tick) ops = some x) :
    RowsOrdered x :=
  (exec_invariant (fun _ _ _ => row_step_inv) row_start_inv hover hrun).rows_ordered

instance (x : RowRun τ) (op : RowOp τ) : Decidable (NoneOverdue x op) :=
  match op with
  | .start t =>
    inferInstanceAs (Decidable (∀ u ∈ bottom (x.sys.rows (x.sys.timer t).soft), u ≠ t →
      remaining x.sys u < tickMaxHalf))
  | .stop _ | .control .. | .tick _ => .isTrue trivial

/-- Three rows, and timers that run across the end of the tick range. -/
def someRowConfig : TimerConfig := ⟨3, by omega, 3#32⟩

def someRowOps : List (RowOp (Fin 4)) :=
  [.start 0, .start 1, .tick 20#32, .start 2, .start 3, .control 1 (.time 9#32), .start 1, .stop 2]

def someRowStart : RowRun (Fin 4) :=
  rowStart someRowConfig (fun _ => false) (fun _ => true)
    (fun t => [40#32, 30#32, 10#32, 20#32][t.val]!) 0xfffffff0#32

theorem some_rows_run : ∃ x, exec (rowStep someRowConfig) someRowStart someRowOps = some x ∧
    x.sys.rows true = [[], [3], [1, 0, 3]] := by
  refine (Option.any_eq_true _ _).mp (?_ : Option.any (fun x => decide _) _ = true) |>.imp
    fun x hx => ⟨hx.1, of_decide_eq_true hx.2⟩
  decide +kernel

theorem some_rows_ordered : ∃ x, exec (rowStep someRowConfig) someRowStart someRowOps = some x ∧
    x.sys.rows true = [[], [3], [1, 0, 3]] ∧ RowsOrdered x := by
  obtain ⟨x, hrun, hrows⟩ := some_rows_run
  exact ⟨x, hrun, hrows, timer_rows_ordered (by decide +kernel) hrun⟩

end FullhanRtos.Timers
