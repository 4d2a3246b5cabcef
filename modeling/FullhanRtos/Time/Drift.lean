import FullhanRtos.Time.Timekeeping
import Mathlib.Algebra.Order.Field.Basic
import Mathlib.Data.Rat.Cast.Order
import Mathlib.Tactic.FieldSimp

/-!
# The drift of the wall time

`update_wall_time` rounds the shifted nanoseconds up to whole ones, and starts from whole ones at
the next call: the remainder in `xtime_nsec` is overwritten. Every call gains what it rounds.
-/

namespace FullhanRtos.Timekeeping

open List Option

variable {cs : Clocksource} {s s' : Timekeeper} {t : Timespec} {c : Nat} {events : List Event}

/-- How far the wall time is ahead of the time at the start and the cycles that have passed. -/
def wallError (cs : Clocksource) (start : Timekeeper) (s : Timekeeper) : ℚ :=
  ((s.xtime.ns + timekeepingGetNs cs s : Int) : ℚ) -
    ((start.xtime.ns : ℚ) + (s.counter - start.counter) * cs.mult / 2 ^ cs.shift)

/-- The number of calls of `update_wall_time`. -/
def updates (events : List Event) : Nat :=
  events.countP fun
    | .updateWallTime => true
    | _ => false

/-- What is gained so far, in shifted nanoseconds, with the fraction of the offset. -/
def shiftedGain (cs : Clocksource) (start s : Timekeeper) : Int :=
  s.xtime.ns * 2 ^ cs.shift + cycleDelta cs s.counter s.cycleLast * cs.mult -
    (start.xtime.ns * 2 ^ cs.shift + (s.counter - start.counter) * cs.mult)

theorem gain_step (hhz : cs.AtLeastHz) (start : Timekeeper) {e : Event} (h : TimeOk s)
    (hnear : e.Near cs s) (hsets : ¬ e.Sets) (hstep : timeStep cs s e = some s') :
    shiftedGain cs start s + updates [e] ≤ shiftedGain cs start s' := by
  cases e with
  | advance cycles =>
    obtain rfl := some.inj hstep
    have hroom : cycleDelta cs s.counter s.cycleLast + cycles < 2 ^ cs.maskBits :=
      (Nat.le_sub_one_iff_lt (Nat.two_pow_pos _)).mp hnear
    have hdelta := cycle_delta_advance h.last hroom
    show shiftedGain cs start s + ((0 : Nat) : Int) ≤ s.xtime.ns * 2 ^ cs.shift +
      cycleDelta cs (s.counter + cycles) s.cycleLast * cs.mult -
        (start.xtime.ns * 2 ^ cs.shift + (((s.counter + cycles : Nat) : Int) - start.counter) *
          cs.mult)
    rw [hdelta]
    unfold shiftedGain
    push_cast
    linarith
  | updateWallTime =>
    obtain rfl := some.inj hstep
    obtain ⟨k, hk, -, hdelta, -, hns⟩ := update_wall_time_spec hhz h.last h.xtime
    have hround := Scale.lt_scale_mul cs.mult (Nat.two_pow_pos cs.shift) k
    show shiftedGain cs start s + ((1 : Nat) : Int) ≤
      (updateWallTime cs s).xtime.ns * 2 ^ cs.shift +
        cycleDelta cs s.counter (updateWallTime cs s).cycleLast * cs.mult -
          (start.xtime.ns * 2 ^ cs.shift + (s.counter - start.counter) * cs.mult)
    rw [hdelta, hns]
    have hcast : (k : Int) * cs.mult + 1 ≤ (clocksourceCyc2ns cs k + 1) * 2 ^ cs.shift := by
      exact_mod_cast hround
    unfold shiftedGain
    push_cast [Nat.cast_sub hk]
    linarith
  | settimeofday tv => exact absurd trivial hsets

theorem gain_run (hhz : cs.AtLeastHz) (start : Timekeeper) (h : TimeOk s)
    (hsets : ∀ e ∈ events, ¬ e.Sets)
    (hnear : Transition.AllSteps (timeStep cs) (fun s e => e.Near cs s) s events)
    (hrun : Transition.exec (timeStep cs) s events = some s') :
    shiftedGain cs start s + updates events ≤ shiftedGain cs start s' := by
  induction events generalizing s with
  | nil =>
    obtain rfl := some.inj hrun
    exact (add_zero _).le
  | cons e events ih =>
    obtain ⟨he, hevents⟩ := forall_mem_cons.mp hsets
    obtain ⟨s1, hstep, hrest⟩ := Transition.exec_cons_eq_some.mp hrun
    obtain ⟨hok, -⟩ := time_step_ok hhz h hnear.1 hstep
    have hfirst := gain_step hhz start h hnear.1 he hstep
    have hlater := ih hok hevents (hnear.2 s1 hstep) hrest
    have hcount : updates (e :: events) = updates [e] + updates events := by
      show ([e] ++ events).countP _ = _
      rw [countP_append]
      rfl
    rw [hcount]
    push_cast
    linarith

theorem gain_lt_error (cs : Clocksource) (start s : Timekeeper) :
    (shiftedGain cs start s : ℚ) / 2 ^ cs.shift - 1 < wallError cs start s := by
  have hd : (0 : ℚ) < 2 ^ cs.shift := pow_pos (by norm_num) _
  have hoffset := Scale.lt_scale_mul cs.mult (Nat.two_pow_pos cs.shift)
    (cycleDelta cs s.counter s.cycleLast)
  have hcast : (cycleDelta cs s.counter s.cycleLast : ℚ) * cs.mult <
      (timekeepingGetNs cs s + 1) * 2 ^ cs.shift := by
    exact_mod_cast hoffset
  have hquot : (cycleDelta cs s.counter s.cycleLast : ℚ) * cs.mult / 2 ^ cs.shift <
      timekeepingGetNs cs s + 1 := (div_lt_iff₀ hd).mpr hcast
  have hgain : (shiftedGain cs start s : ℚ) / 2 ^ cs.shift =
      s.xtime.ns + cycleDelta cs s.counter s.cycleLast * cs.mult / 2 ^ cs.shift -
        (start.xtime.ns + (s.counter - start.counter) * cs.mult / 2 ^ cs.shift) := by
    unfold shiftedGain
    push_cast
    field_simp
  rw [hgain, wallError]
  push_cast
  linarith

/-! ## Without cycles -/

/-- Even without a cycle an update adds a nanosecond, of every clock source. -/
theorem update_idle (hidle : cycleDelta cs s.counter s.cycleLast = 0) (hxtime : s.xtime.Normal) :
    (updateWallTime cs s).cycleLast = s.cycleLast ∧ (updateWallTime cs s).xtime.Normal ∧
      (updateWallTime cs s).xtime.ns = s.xtime.ns + 1 := by
  have hd : (0 : Int) < 2 ^ cs.shift := pow_pos (by omega) _
  have hquot : s.xtime.nsec * 2 ^ cs.shift / 2 ^ cs.shift = s.xtime.nsec :=
    Int.mul_ediv_cancel _ hd.ne'
  have hloop : accumulate cs 0 0 s.cycleLast (s.xtime.nsec * 2 ^ cs.shift) s.xtime.sec =
      (s.cycleLast, s.xtime.nsec * 2 ^ cs.shift, s.xtime.sec) := rfl
  unfold updateWallTime
  dsimp only
  rw [hidle, hloop]
  rw [hquot]
  exact ⟨rfl, round_up_spec s.xtime.sec hxtime.nonneg hxtime.lt⟩

theorem idle_run (n : Nat) (hidle : cycleDelta cs s.counter s.cycleLast = 0)
    (hxtime : s.xtime.Normal) :
    ∃ s', Transition.exec (timeStep cs) s (replicate n .updateWallTime) = some s' ∧
      s'.counter = s.counter ∧ cycleDelta cs s'.counter s'.cycleLast = 0 ∧
      s'.xtime.ns = s.xtime.ns + n := by
  induction n generalizing s with
  | zero => exact ⟨s, rfl, rfl, hidle, (add_zero _).symm⟩
  | succ n ih =>
    obtain ⟨hlast, hnormal, hns⟩ := update_idle hidle hxtime
    have hidle' : cycleDelta cs (updateWallTime cs s).counter (updateWallTime cs s).cycleLast =
      0 := by
      rw [hlast]
      exact hidle
    obtain ⟨s', hrun, hcounter, hend, hsum⟩ := ih hidle' hnormal
    refine ⟨s', Transition.exec_cons_eq_some.mpr ⟨_, rfl, hrun⟩, hcounter, hend, ?_⟩
    rw [hsum, hns]
    push_cast
    ring

theorem idle_error (cs : Clocksource) (c n : Nat) (ht : t.Normal) :
    ∃ s, Transition.exec (timeStep cs) (timekeepingInit cs c t)
        (replicate n .updateWallTime) = some s ∧
      wallError cs (timekeepingInit cs c t) s = n := by
  obtain ⟨s, hrun, hcounter, hidle, hns⟩ := idle_run n
    (show cycleDelta cs (timekeepingInit cs c t).counter (timekeepingInit cs c t).cycleLast = 0 from
      cycle_delta_read cs c) ht
  refine ⟨s, hrun, ?_⟩
  have hzero : timekeepingGetNs cs s = 0 := by
    unfold timekeepingGetNs clocksourceCyc2ns
    rw [hidle, Scale.scale_zero]
  rw [wallError, hcounter, hns, hzero]
  push_cast
  ring

theorem idle_events_near (n : Nat) :
    Transition.AllSteps (timeStep cs) (fun s e => e.Near cs s) s
      (replicate n .updateWallTime) := by
  refine Transition.all_steps_of_mem (fun e he s => ?_) s
  rw [eq_of_mem_replicate he]
  trivial

/-- No bound holds for the error. Updates alone exceed it, of every clock source; and with a source
of at least 1 Hz every run with enough updates does, however the counter goes on. -/
theorem wall_error_unbounded (cs : Clocksource) (c : Nat) (ht : t.Normal) (bound : Nat) :
    (∃ events s, (∀ e ∈ events, ¬ e.Sets) ∧
      Transition.AllSteps (timeStep cs) (fun s e => e.Near cs s) (timekeepingInit cs c t) events ∧
      Transition.exec (timeStep cs) (timekeepingInit cs c t) events = some s ∧
      bound < wallError cs (timekeepingInit cs c t) s) ∧
    (cs.AtLeastHz → ∃ n, ∀ events s, (∀ e ∈ events, ¬ e.Sets) →
      Transition.AllSteps (timeStep cs) (fun s e => e.Near cs s) (timekeepingInit cs c t) events →
      Transition.exec (timeStep cs) (timekeepingInit cs c t) events = some s →
      n ≤ updates events → bound < wallError cs (timekeepingInit cs c t) s) := by
  constructor
  · obtain ⟨s, hrun, herror⟩ := idle_error cs c (bound + 1) ht
    refine ⟨replicate (bound + 1) .updateWallTime, s, fun e he => ?_,
      idle_events_near (bound + 1), hrun, ?_⟩
    · rw [eq_of_mem_replicate he]
      exact not_false
    · rw [herror]
      exact_mod_cast Nat.lt_succ_self bound
  · intro hhz
    refine ⟨(bound + 1) * 2 ^ cs.shift, fun events s hsets hnear hrun hcount => ?_⟩
    have hgain := gain_run hhz (timekeepingInit cs c t) (timekeeping_init_ok cs c ht) hsets hnear
      hrun
    have hstart : shiftedGain cs (timekeepingInit cs c t) (timekeepingInit cs c t) = 0 := by
      show t.ns * 2 ^ cs.shift + cycleDelta cs c (cs.read c) * cs.mult -
        (t.ns * 2 ^ cs.shift + ((c : Int) - c) * cs.mult) = 0
      rw [cycle_delta_read]
      ring
    rw [hstart, zero_add] at hgain
    have hd : (0 : ℚ) < 2 ^ cs.shift := pow_pos (by norm_num) _
    have henough : ((bound + 1 : Nat) : ℚ) * 2 ^ cs.shift ≤
        shiftedGain cs (timekeepingInit cs c t) s := by
      have hle : (((bound + 1) * 2 ^ cs.shift : Nat) : Int) ≤
          shiftedGain cs (timekeepingInit cs c t) s := (Int.ofNat_le.mpr hcount).trans hgain
      exact_mod_cast hle
    have hquot := (le_div_iff₀ hd).mpr henough
    have herror := gain_lt_error cs (timekeepingInit cs c t) s
    push_cast at hquot
    linarith

/-- The counter of 1 MHz and 32 bits that the platform registers. -/
def clocksourcePts : Clocksource where
  mult := 4194304000
  shift := 22
  maskBits := 32
  width := 64
  mult_pos := by decide
  maskBits_le := by decide
  width_le := width_64_le

theorem pts_error_unbounded :
    (∃ events s, (∀ e ∈ events, ¬ e.Sets) ∧
      Transition.AllSteps (timeStep clocksourcePts) (fun s e => e.Near clocksourcePts s)
        (timekeepingInit clocksourcePts 0 ⟨0, 0⟩) events ∧
      Transition.exec (timeStep clocksourcePts) (timekeepingInit clocksourcePts 0 ⟨0, 0⟩) events =
        some s ∧
      1000 < wallError clocksourcePts (timekeepingInit clocksourcePts 0 ⟨0, 0⟩) s) := by
  have ht : (⟨0, 0⟩ : Timespec).Normal := ⟨le_refl 0, show (0 : Int) < 1000000000 by omega⟩
  exact (wall_error_unbounded clocksourcePts 0 ht 1000).1

theorem pts_error_has_no_bound :
    ¬ ∃ bound : Nat, ∀ n s, Transition.exec (timeStep clocksourcePts)
        (timekeepingInit clocksourcePts 0 ⟨0, 0⟩) (replicate n .updateWallTime) = some s →
      |wallError clocksourcePts (timekeepingInit clocksourcePts 0 ⟨0, 0⟩) s| ≤ bound := by
  rintro ⟨bound, hbound⟩
  have ht : (⟨0, 0⟩ : Timespec).Normal := ⟨le_refl 0, show (0 : Int) < 1000000000 by omega⟩
  obtain ⟨s, hrun, herror⟩ := idle_error clocksourcePts 0 (bound + 1) ht
  have hle := (le_abs_self _).trans (hbound (bound + 1) s hrun)
  rw [herror] at hle
  have hlt : bound + 1 ≤ bound := by exact_mod_cast hle
  omega

end FullhanRtos.Timekeeping
