import FullhanRtos.Time.Timekeeping
import Mathlib.Data.Fintype.Basic

/-!
# Readers of the clocks

`getnstimeofday`, `ktime_get` and `do_settimeofday` of threads, one load or store of a shared
variable at a time, with `update_wall_time` in the tick interrupt between any two of them. The mutex
`timekeeping_mutex` keeps the threads apart, but `ktime_get` does not take it, and the interrupt
cannot.

`lastWall` and `lastKtime` are what the calls of each thread returned last, forgotten when the time
is set, and `inOrder` whether no result was before the last one. `results_in_order` says in which
runs they are in order.
-/

namespace FullhanRtos.Timekeeping

open Transition Function Option

instance (t u : Timespec) : Decidable (t.Le u) := inferInstanceAs (Decidable (_ ∨ _))

/-! ## The calls in steps -/

/-- Where a thread stands, with what it has loaded and computed. At `wallStart` and `setStart` it
has the mutex; at `setNow` it has read the clock when the counter stood at `counter`. -/
inductive Place where
  | idle
  | wallStart
  | wallSec (sec : Int)
  | wallXtime (ts : Timespec)
  | wallLast (ts : Timespec) (cycleLast : Nat)
  | wallDone
  | ktimeSec (sec : Int)
  | ktimeSecs (sec wallSec : Int)
  | ktimeNsec (xtime : Timespec) (wallSec : Int)
  | ktimeTimes (xtime wall : Timespec)
  | ktimeLast (xtime wall : Timespec) (cycleLast : Nat)
  | setStart (tv : Timespec)
  | setNow (tv : Timespec) (counter : Nat)
  | setDelta (tv : Timespec) (counter delta : Nat)
  | setLast (tv : Timespec) (delta : Nat)
  | setForward (tv xtime : Timespec)
  | setForwardNsec (tv : Timespec) (nsec : Int)
  | setForwarded (tv : Timespec)
  | setWall (tv wall : Timespec)
  | setWallNsec (tv : Timespec) (nsec : Int)
  | setXtime (tv : Timespec)
  | setXtimeNsec (tv : Timespec)
  | setDone
  deriving DecidableEq

variable {τ : Type} [DecidableEq τ]

/-- The variables of the module, the owner of the mutex, and the threads. -/
structure ClockSys (τ : Type) where
  time : Timekeeper
  mutex : Option τ
  place : τ → Place
  lastWall : τ → Option Timespec
  lastKtime : τ → Option Int
  inOrder : Bool

inductive ClockOp (τ : Type) where
  | advance (cycles : Nat)
  | tick
  | getnstimeofday (t : τ)
  | ktimeGet (t : τ)
  | settimeofday (t : τ) (tv : Timespec)
  | step (t : τ)

/-- A thread goes on without a store. -/
def ClockSys.goto (s : ClockSys τ) (t : τ) (place : Place) : ClockSys τ :=
  { s with place := update s.place t place }

/-- A step of `do_settimeofday` that stores. -/
def ClockSys.store (s : ClockSys τ) (t : τ) (place : Place) (time : Timekeeper) : ClockSys τ :=
  { s with
    time := time
    place := update s.place t place
    lastWall := fun _ => none
    lastKtime := fun _ => none }

def ClockSys.release (s : ClockSys τ) (t : τ) : ClockSys τ := { s.goto t .idle with mutex := none }

/-- The result of `getnstimeofday` with a time and a `cycle_last` that were loaded before. -/
def wallResult (cs : Clocksource) (counter : Nat) (ts : Timespec) (cycleLast : Nat) : Timespec :=
  timespecAddNs ts (clocksourceCyc2ns cs (cycleDelta cs counter cycleLast))

def ktimeResult (cs : Clocksource) (counter : Nat) (xtime wall : Timespec) (cycleLast : Nat) :
    Int :=
  (xtime.sec + wall.sec) * nsecPerSec +
    (long (xtime.nsec + wall.nsec) + clocksourceCyc2ns cs (cycleDelta cs counter cycleLast))

variable (cs : Clocksource)

def returnWall (s : ClockSys τ) (t : τ) (result : Timespec) : ClockSys τ :=
  { s.goto t .wallDone with
    lastWall := update s.lastWall t (some result)
    inOrder := s.inOrder && (s.lastWall t).all fun last => decide (last.Le result) }

def returnKtime (s : ClockSys τ) (t : τ) (result : Int) : ClockSys τ :=
  { s.goto t .idle with
    lastKtime := update s.lastKtime t (some result)
    inOrder := s.inOrder && (s.lastKtime t).all fun last => decide (last ≤ result) }

/-- The next step of a thread in a call, if it stands in one. -/
def stepThread (s : ClockSys τ) (t : τ) : Option (ClockSys τ) :=
  let time := s.time
  match s.place t with
  | .idle => none
  | .wallStart => some (s.goto t (.wallSec time.xtime.sec))
  | .wallSec sec => some (s.goto t (.wallXtime ⟨sec, time.xtime.nsec⟩))
  | .wallXtime ts => some (s.goto t (.wallLast ts time.cycleLast))
  | .wallLast ts last => some (returnWall s t (wallResult cs time.counter ts last))
  | .wallDone => some (s.release t)
  | .ktimeSec sec => some (s.goto t (.ktimeSecs sec time.wallToMonotonic.sec))
  | .ktimeSecs sec wallSec => some (s.goto t (.ktimeNsec ⟨sec, time.xtime.nsec⟩ wallSec))
  | .ktimeNsec xtime wallSec =>
    some (s.goto t (.ktimeTimes xtime ⟨wallSec, time.wallToMonotonic.nsec⟩))
  | .ktimeTimes xtime wall => some (s.goto t (.ktimeLast xtime wall time.cycleLast))
  | .ktimeLast xtime wall last =>
    some (returnKtime s t (ktimeResult cs time.counter xtime wall last))
  | .setStart tv => some (s.goto t (.setNow tv time.counter))
  | .setNow tv counter =>
    some (s.goto t (.setDelta tv counter (cycleDelta cs counter time.cycleLast)))
  | .setDelta tv counter delta =>
    some (s.store t (.setLast tv delta) { time with cycleLast := cs.read counter })
  | .setLast tv delta =>
    some (s.goto t (.setForward tv (timespecAddNs time.xtime (clocksourceCyc2ns cs delta))))
  | .setForward tv xtime =>
    some (s.store t (.setForwardNsec tv xtime.nsec)
      { time with xtime := ⟨xtime.sec, time.xtime.nsec⟩ })
  | .setForwardNsec tv nsec =>
    some (s.store t (.setForwarded tv) { time with xtime := ⟨time.xtime.sec, nsec⟩ })
  | .setForwarded tv =>
    some (s.goto t (.setWall tv (timespecSub time.wallToMonotonic
      ⟨tv.sec - time.xtime.sec, long (tv.nsec - time.xtime.nsec)⟩)))
  | .setWall tv wall =>
    some (s.store t (.setWallNsec tv wall.nsec)
      { time with wallToMonotonic := ⟨wall.sec, time.wallToMonotonic.nsec⟩ })
  | .setWallNsec tv nsec =>
    some (s.store t (.setXtime tv)
      { time with wallToMonotonic := ⟨time.wallToMonotonic.sec, nsec⟩ })
  | .setXtime tv =>
    some (s.store t (.setXtimeNsec tv) { time with xtime := ⟨tv.sec, time.xtime.nsec⟩ })
  | .setXtimeNsec tv =>
    some (s.store t .setDone { time with xtime := ⟨time.xtime.sec, tv.nsec⟩ })
  | .setDone => some (s.release t)

def clockStep (s : ClockSys τ) : ClockOp τ → Option (ClockSys τ)
  | .advance cycles => some { s with time := { s.time with counter := s.time.counter + cycles } }
  | .tick => some { s with time := updateWallTime cs s.time }
  | .getnstimeofday t =>
    if s.place t = .idle ∧ s.mutex = none then
      some { s.goto t .wallStart with mutex := some t }
    else none
  | .ktimeGet t =>
    if s.place t = .idle then some (s.goto t (.ktimeSec s.time.xtime.sec)) else none
  | .settimeofday t tv =>
    -- A time that fails the check of the call takes no further step.
    if s.place t = .idle ∧ s.mutex = none ∧ long tv.nsec = tv.nsec ∧
        ¬ (nsecPerSec : Int) ≤ tv.nsec % 2 ^ 32 then
      some { s.goto t (.setStart tv) with mutex := some t }
    else none
  | .step t => stepThread cs s t

def clocksInit (counter : Nat) (now : Timespec) : ClockSys τ where
  time := timekeepingInit cs counter now
  mutex := none
  place _ := .idle
  lastWall _ := none
  lastKtime _ := none
  inOrder := true

/-! ## Where nothing may come between -/

/-- Between the first load of a clock and the load of `cycle_last`. -/
def Place.loading : Place → Bool
  | .wallSec _ | .wallXtime _ | .ktimeSec _ | .ktimeSecs .. | .ktimeNsec .. | .ktimeTimes .. => true
  | _ => false

/-- Between the first load of `ktime_get` and its result. -/
def Place.inKtime : Place → Bool
  | .ktimeSec _ | .ktimeSecs .. | .ktimeNsec .. | .ktimeTimes .. | .ktimeLast .. => true
  | _ => false

/-- Before a store of `do_settimeofday`. -/
def Place.stores : Place → Bool
  | .setDelta .. | .setForward .. | .setForwardNsec .. | .setWall .. | .setWallNsec .. | .setXtime _
  | .setXtimeNsec _ => true
  | _ => false

def Place.cycleLast : Place → Option Nat
  | .wallLast _ last => some last
  | .ktimeLast _ _ last => some last
  | _ => none

/-- The counter stays within its mask of every `cycle_last`; no tick comes while a reader loads the
times; and nothing is stored while a reader is in `ktime_get`. -/
def Undisturbed (cs : Clocksource) (s : ClockSys τ) : ClockOp τ → Prop
  | .advance cycles =>
    cycleDelta cs s.time.counter s.time.cycleLast + cycles ≤ cs.mask ∧
      ∀ t, ∀ last ∈ (s.place t).cycleLast, cycleDelta cs s.time.counter last + cycles ≤ cs.mask
  | .tick => ∀ t, ¬ (s.place t).loading
  | .step t => (s.place t).stores → ∀ t', ¬ (s.place t').inKtime
  | .getnstimeofday _ | .ktimeGet _ | .settimeofday .. => True

instance [Fintype τ] (cs : Clocksource) (s : ClockSys τ) :
    (op : ClockOp τ) → Decidable (Undisturbed cs s op)
  | .advance _ => inferInstanceAs (Decidable (_ ∧ ∀ t, ∀ last ∈ (s.place t).cycleLast, _))
  | .tick => inferInstanceAs (Decidable (∀ t, ¬ (s.place t).loading))
  | .step _ => inferInstanceAs (Decidable (_ → ∀ t', ¬ (s.place t').inKtime))
  | .getnstimeofday _ | .ktimeGet _ | .settimeofday .. => .isTrue trivial

/-! ## What holds in every state -/

variable {cs} {s s' : ClockSys τ} {t : τ} {op : ClockOp τ} {delta delta' : Nat} {time : Timekeeper}
  {base base' : Int}

/-- A base with its cycles is not ahead of another one, now and after any further cycles. -/
def Behind (cs : Clocksource) (base : Int) (delta : Nat) (base' : Int) (delta' : Nat) : Prop :=
  ∀ n, base + clocksourceCyc2ns cs (delta + n) ≤ base' + clocksourceCyc2ns cs (delta' + n)

/-- What the thread has loaded is what the variables hold, or what they held before. -/
def PlaceOk (cs : Clocksource) (s : ClockSys τ) (t : τ) : Place → Prop
  | .wallSec sec => sec = s.time.xtime.sec
  | .wallXtime ts => ts = s.time.xtime
  | .wallLast ts last => last < 2 ^ 64 ∧
      Behind cs ts.ns (cycleDelta cs s.time.counter last) s.time.xtime.ns
        (cycleDelta cs s.time.counter s.time.cycleLast) ∧
      ∀ w, s.lastWall t = some w →
        w.ns ≤ ts.ns + clocksourceCyc2ns cs (cycleDelta cs s.time.counter last)
  | .ktimeSec sec => sec = s.time.xtime.sec
  | .ktimeSecs sec wallSec => sec = s.time.xtime.sec ∧ wallSec = s.time.wallToMonotonic.sec
  | .ktimeNsec xtime wallSec => xtime = s.time.xtime ∧ wallSec = s.time.wallToMonotonic.sec
  | .ktimeTimes xtime wall => xtime = s.time.xtime ∧ wall = s.time.wallToMonotonic
  | .ktimeLast xtime wall last => last < 2 ^ 64 ∧ xtime.Normal ∧ wall.Normal ∧
      Behind cs (xtime.ns + wall.ns) (cycleDelta cs s.time.counter last)
        (s.time.xtime.ns + s.time.wallToMonotonic.ns)
        (cycleDelta cs s.time.counter s.time.cycleLast) ∧
      ∀ k, s.lastKtime t = some k →
        k ≤ xtime.ns + wall.ns + clocksourceCyc2ns cs (cycleDelta cs s.time.counter last)
  | .setStart tv | .setNow tv _ | .setDelta tv _ _ | .setLast tv _ | .setForwarded tv
  | .setXtime tv | .setXtimeNsec tv => tv.Normal
  | .setForward tv xtime => tv.Normal ∧ xtime.Normal
  | .setForwardNsec tv nsec => tv.Normal ∧ (⟨0, nsec⟩ : Timespec).Normal
  | .setWall tv wall => tv.Normal ∧ wall.Normal
  | .setWallNsec tv nsec => tv.Normal ∧ (⟨0, nsec⟩ : Timespec).Normal
  | .idle | .wallStart | .wallDone | .setDone => True

/-- The thread has the mutex. -/
def Place.Holds : Place → Prop
  | .idle | .ktimeSec _ | .ktimeSecs .. | .ktimeNsec .. | .ktimeTimes .. | .ktimeLast .. => False
  | _ => True

/-- The results so far are in order and not ahead of the clocks. -/
structure ClocksOk (cs : Clocksource) (s : ClockSys τ) : Prop where
  time : TimeOk s.time
  order : s.inOrder = true
  wall : ∀ t w, s.lastWall t = some w →
    w.Normal ∧ w.ns ≤ s.time.xtime.ns + timekeepingGetNs cs s.time
  ktime : ∀ t k, s.lastKtime t = some k →
    k ≤ s.time.xtime.ns + s.time.wallToMonotonic.ns + timekeepingGetNs cs s.time
  place : ∀ t, PlaceOk cs s t (s.place t)
  mutex : ∀ t, (s.place t).Holds → s.mutex = some t

omit [DecidableEq τ] in
theorem clocks_init_ok (c : Nat) {now : Timespec} (hnow : now.Normal) :
    ClocksOk cs (clocksInit cs c now : ClockSys τ) where
  time := timekeeping_init_ok cs c hnow
  order := rfl
  wall := nofun
  ktime := nofun
  place _ := trivial
  mutex _ := False.elim

theorem update_behind (hhz : cs.AtLeastHz) (h : TimeOk time) (base : Int) :
    Behind cs (time.xtime.ns + base) (cycleDelta cs time.counter time.cycleLast)
      ((updateWallTime cs time).xtime.ns + base)
      (cycleDelta cs time.counter (updateWallTime cs time).cycleLast) := by
  obtain ⟨k, hk, -, hdelta, -, hns⟩ := update_wall_time_spec hhz h.last h.xtime
  intro n
  have hsplit := Scale.scale_add_le cs.mult (Nat.two_pow_pos cs.shift) k
    (cycleDelta cs time.counter time.cycleLast - k + n)
  have hsum : k + (cycleDelta cs time.counter time.cycleLast - k + n) =
      cycleDelta cs time.counter time.cycleLast + n := by omega
  rw [hsum] at hsplit
  rw [hns, hdelta]
  unfold clocksourceCyc2ns
  omega

theorem Behind.trans {base base' base'' : Int} {delta delta' delta'' : Nat}
    (h : Behind cs base delta base' delta') (h' : Behind cs base' delta' base'' delta'') :
    Behind cs base delta base'' delta'' := fun n => (h n).trans (h' n)

theorem Behind.now (h : Behind cs base delta base' delta') :
    base + clocksourceCyc2ns cs delta ≤ base' + clocksourceCyc2ns cs delta' := h 0

theorem Behind.advance (h : Behind cs base delta base' delta') (cycles : Nat) :
    Behind cs base (delta + cycles) base' (delta' + cycles) := by
  intro n
  rw [add_assoc, add_assoc]
  exact h (cycles + n)

/-! ## The counter and the interrupt -/

omit [DecidableEq τ] in
theorem advance_ok (h : ClocksOk cs s) {cycles : Nat} (hnear : Undisturbed cs s (.advance cycles)) :
    ClocksOk cs { s with time := { s.time with counter := s.time.counter + cycles } } := by
  have hroom : ∀ delta, delta + cycles ≤ cs.mask → delta + cycles < 2 ^ cs.maskBits :=
    fun delta => (Nat.le_sub_one_iff_lt (Nat.two_pow_pos _)).mp
  obtain ⟨hok, hforward⟩ := advance_forward h.time (hroom _ hnear.1)
  have hktime := hforward.ktime
  rw [ktime_get_eq h.time, ktime_get_eq hok] at hktime
  have hdelta := cycle_delta_advance h.time.last (hroom _ hnear.1)
  refine ⟨hok, h.order, fun t w hw => ?_, fun t k hk => ?_, fun t => ?_, h.mutex⟩
  · obtain ⟨hnormal, hle⟩ := h.wall t w hw
    exact ⟨hnormal, hle.trans hforward.wall⟩
  · exact (h.ktime t k hk).trans hktime
  · have hplace := h.place t
    have hlast := hnear.2 t
    show PlaceOk cs { s with time := { s.time with counter := s.time.counter + cycles } } t
      (s.place t)
    generalize s.place t = place at hplace hlast ⊢
    cases place with
    | wallLast ts last =>
      obtain ⟨hlt, hbehind, hresult⟩ := hplace
      have hsnap := cycle_delta_advance hlt (hroom _ (hlast last rfl))
      refine ⟨hlt, ?_, fun w hw => ?_⟩
      · show Behind cs ts.ns (cycleDelta cs (s.time.counter + cycles) last) s.time.xtime.ns
          (cycleDelta cs (s.time.counter + cycles) s.time.cycleLast)
        rw [hsnap, hdelta]
        exact hbehind.advance cycles
      · have hle := hresult w hw
        have hmono : clocksourceCyc2ns cs (cycleDelta cs s.time.counter last) ≤
            clocksourceCyc2ns cs (cycleDelta cs s.time.counter last + cycles) :=
          Scale.scale_mono (Nat.le_add_right _ _)
        show w.ns ≤ ts.ns + clocksourceCyc2ns cs (cycleDelta cs (s.time.counter + cycles) last)
        rw [hsnap]
        omega
    | ktimeLast xtime wall last =>
      obtain ⟨hlt, hxtime, hwtm, hbehind, hresult⟩ := hplace
      have hsnap := cycle_delta_advance hlt (hroom _ (hlast last rfl))
      refine ⟨hlt, hxtime, hwtm, ?_, fun k hk => ?_⟩
      · show Behind cs (xtime.ns + wall.ns) (cycleDelta cs (s.time.counter + cycles) last)
          (s.time.xtime.ns + s.time.wallToMonotonic.ns)
          (cycleDelta cs (s.time.counter + cycles) s.time.cycleLast)
        rw [hsnap, hdelta]
        exact hbehind.advance cycles
      · have hle := hresult k hk
        have hmono : clocksourceCyc2ns cs (cycleDelta cs s.time.counter last) ≤
            clocksourceCyc2ns cs (cycleDelta cs s.time.counter last + cycles) :=
          Scale.scale_mono (Nat.le_add_right _ _)
        show k ≤ xtime.ns + wall.ns +
          clocksourceCyc2ns cs (cycleDelta cs (s.time.counter + cycles) last)
        rw [hsnap]
        omega
    | _ => exact hplace

omit [DecidableEq τ] in
theorem tick_ok (hhz : cs.AtLeastHz) (h : ClocksOk cs s) (hquiet : Undisturbed cs s .tick) :
    ClocksOk cs { s with time := updateWallTime cs s.time } := by
  obtain ⟨hok, hforward⟩ := update_wall_time_forward hhz h.time
  have hktime := hforward.ktime
  rw [ktime_get_eq h.time, ktime_get_eq hok] at hktime
  have hbehind := update_behind hhz h.time
  refine ⟨hok, h.order, fun t w hw => ?_, fun t k hk => ?_, fun t => ?_, h.mutex⟩
  · obtain ⟨hnormal, hle⟩ := h.wall t w hw
    exact ⟨hnormal, hle.trans hforward.wall⟩
  · exact (h.ktime t k hk).trans hktime
  · have hplace := h.place t
    have hload := hquiet t
    show PlaceOk cs { s with time := updateWallTime cs s.time } t (s.place t)
    generalize s.place t = place at hplace hload ⊢
    cases place with
    | wallSec _ | wallXtime _ | ktimeSec _ | ktimeSecs _ _ | ktimeNsec _ _ | ktimeTimes _ _ =>
      exact absurd rfl hload
    | wallLast ts last =>
      obtain ⟨hlt, hsnap, hresult⟩ := hplace
      refine ⟨hlt, hsnap.trans ?_, hresult⟩
      have hmove := hbehind 0
      rw [add_zero, add_zero] at hmove
      exact hmove
    | ktimeLast xtime wall last =>
      obtain ⟨hlt, hxtime, hwtm, hsnap, hresult⟩ := hplace
      exact ⟨hlt, hxtime, hwtm, hsnap.trans (hbehind s.time.wallToMonotonic.ns), hresult⟩
    | _ => exact hplace

/-! ## The threads -/

theorem goto_ok (t : τ) (place : Place) (h : ClocksOk cs s) (hplace : PlaceOk cs s t place)
    (hmutex : place.Holds → s.mutex = some t) : ClocksOk cs (s.goto t place) := by
  refine ⟨h.time, h.order, h.wall, h.ktime, fun t' => ?_, fun t' => ?_⟩
  · show PlaceOk cs (s.goto t place) t' (update s.place t place t')
    by_cases ht : t' = t
    · subst ht
      rw [update_self]
      cases place <;> exact hplace
    · rw [update_of_ne ht]
      have hother := h.place t'
      generalize s.place t' = place' at hother ⊢
      cases place' <;> exact hother
  · show (update s.place t place t').Holds → s.mutex = some t'
    by_cases ht : t' = t
    · subst ht
      rw [update_self]
      exact hmutex
    · rw [update_of_ne ht]
      exact h.mutex t'

variable {place : Place} {last : Nat}

theorem take_ok (h : ClocksOk cs s) (hfree : s.mutex = none) (hplace : PlaceOk cs s t place) :
    ClocksOk cs { s.goto t place with mutex := some t } := by
  have hnobody : ∀ t', ¬ (s.place t').Holds := by
    intro t' hholds
    have howner := h.mutex t' hholds
    rw [hfree] at howner
    exact absurd howner nofun
  -- The threads keep their places, and nobody else has the mutex.
  have hplaces : ∀ t', PlaceOk cs s t' (update s.place t place t') := by
    intro t'
    by_cases ht : t' = t
    · subst ht
      rw [update_self]
      exact hplace
    · rw [update_of_ne ht]
      exact h.place t'
  refine ⟨h.time, h.order, h.wall, h.ktime, fun t' => ?_, fun t' => ?_⟩
  · have hother := hplaces t'
    show PlaceOk cs { s.goto t place with mutex := some t } t' (update s.place t place t')
    generalize update s.place t place t' = place' at hother ⊢
    cases place' <;> exact hother
  · show (update s.place t place t').Holds → some t = some t'
    by_cases ht : t' = t
    · exact fun _ => by rw [ht]
    · rw [update_of_ne ht]
      exact fun hholds => absurd hholds (hnobody t')

theorem release_ok (h : ClocksOk cs s) (howner : s.mutex = some t) :
    ClocksOk cs (s.release t) := by
  have hidle := goto_ok t .idle h trivial False.elim
  refine ⟨h.time, h.order, h.wall, h.ktime, fun t' => ?_, fun t' hholds => ?_⟩
  · have hother := hidle.place t'
    show PlaceOk cs (s.release t) t' (update s.place t .idle t')
    have hsame : (s.goto t .idle).place t' = update s.place t .idle t' := rfl
    rw [hsame] at hother
    generalize update s.place t .idle t' = place' at hother ⊢
    cases place' <;> exact hother
  · have hmutex := hidle.mutex t' hholds
    have ht : t' = t := some.inj (hmutex.symm.trans howner)
    subst ht
    have hnot : ¬ (update s.place t' Place.idle t').Holds := by
      rw [update_self]
      exact not_false
    exact absurd hholds hnot

theorem return_wall_ok (h : ClocksOk cs s) {ts : Timespec}
    (hplace : s.place t = .wallLast ts last) :
    ClocksOk cs (returnWall s t (wallResult cs s.time.counter ts last)) := by
  have hloaded := h.place t
  rw [hplace] at hloaded
  obtain ⟨-, hbehind, hresult⟩ := hloaded
  have howner : s.mutex = some t := h.mutex t (by rw [hplace]; trivial)
  obtain ⟨hnormal, hns⟩ :=
    add_ns_normal ts (clocksourceCyc2ns cs (cycleDelta cs s.time.counter last))
  have hnow : (wallResult cs s.time.counter ts last).ns ≤
      s.time.xtime.ns + timekeepingGetNs cs s.time := hns.le.trans hbehind.now
  have hmoved := goto_ok t .wallDone h trivial fun _ => howner
  refine ⟨h.time, ?_, fun t' w => ?_, h.ktime, fun t' => ?_, hmoved.mutex⟩
  · show (s.inOrder && (s.lastWall t).all fun w =>
      decide (w.Le (wallResult cs s.time.counter ts last))) = true
    rw [h.order, Bool.true_and]
    cases hlast : s.lastWall t with
    | none => rfl
    | some w =>
      have hle := hresult w hlast
      exact decide_eq_true (le_of_ns_le (h.wall t w hlast).1 hnormal (hle.trans hns.ge))
  · show update s.lastWall t _ t' = some w → _
    by_cases ht : t' = t
    · subst ht
      rw [update_self]
      intro hw
      obtain rfl := some.inj hw
      exact ⟨hnormal, hnow⟩
    · rw [update_of_ne ht]
      exact h.wall t' w
  · show PlaceOk cs _ t' (update s.place t .wallDone t')
    by_cases ht : t' = t
    · subst ht
      rw [update_self]
      trivial
    · have hother := h.place t'
      rw [update_of_ne ht]
      generalize s.place t' = place' at hother ⊢
      cases place' with
      | wallLast ts' last' =>
        refine ⟨hother.1, hother.2.1, fun w hw => hother.2.2 w ?_⟩
        exact (update_of_ne ht _ _).symm.trans hw
      | _ => exact hother

theorem return_ktime_ok (h : ClocksOk cs s) {xtime wall : Timespec}
    (hplace : s.place t = .ktimeLast xtime wall last) :
    ClocksOk cs (returnKtime s t (ktimeResult cs s.time.counter xtime wall last)) := by
  have hloaded := h.place t
  rw [hplace] at hloaded
  obtain ⟨-, hxtime, hwall, hbehind, hresult⟩ := hloaded
  have hns : ktimeResult cs s.time.counter xtime wall last =
      xtime.ns + wall.ns + clocksourceCyc2ns cs (cycleDelta cs s.time.counter last) := by
    obtain ⟨hx, hx'⟩ := hxtime
    obtain ⟨hw, hw'⟩ := hwall
    unfold nsecPerSec at hx' hw'
    have hlong : long (xtime.nsec + wall.nsec) = xtime.nsec + wall.nsec :=
      long_eq (by omega) (by omega)
    rw [ktimeResult, hlong]
    unfold Timespec.ns
    ring
  have hnow : ktimeResult cs s.time.counter xtime wall last ≤
      s.time.xtime.ns + s.time.wallToMonotonic.ns + timekeepingGetNs cs s.time :=
    hns.le.trans hbehind.now
  have hmoved := goto_ok t .idle h trivial False.elim
  refine ⟨h.time, ?_, h.wall, fun t' k => ?_, fun t' => ?_, hmoved.mutex⟩
  · show (s.inOrder && (s.lastKtime t).all fun k =>
      decide (k ≤ ktimeResult cs s.time.counter xtime wall last)) = true
    rw [h.order, Bool.true_and]
    cases hlast : s.lastKtime t with
    | none => rfl
    | some k => exact decide_eq_true ((hresult k hlast).trans hns.ge)
  · show update s.lastKtime t _ t' = some k → _
    by_cases ht : t' = t
    · subst ht
      rw [update_self]
      intro hk
      obtain rfl := some.inj hk
      exact hnow
    · rw [update_of_ne ht]
      exact h.ktime t' k
  · show PlaceOk cs _ t' (update s.place t .idle t')
    by_cases ht : t' = t
    · subst ht
      rw [update_self]
      trivial
    · have hother := h.place t'
      rw [update_of_ne ht]
      generalize s.place t' = place' at hother ⊢
      cases place' with
      | ktimeLast xtime' wall' last' =>
        refine ⟨hother.1, hother.2.1, hother.2.2.1, hother.2.2.2.1, fun k hk =>
          hother.2.2.2.2 k ?_⟩
        exact (update_of_ne ht _ _).symm.trans hk
      | _ => exact hother

/-- When the owner of the mutex stores and nobody is in `ktime_get`, all other threads are idle. -/
theorem store_ok (h : ClocksOk cs s) (howner : s.mutex = some t)
    (hquiet : ∀ t', ¬ (s.place t').inKtime) (htime : TimeOk time)
    (hplace : PlaceOk cs (s.store t place time) t place) :
    ClocksOk cs (s.store t place time) := by
  have hidle : ∀ t', t' ≠ t → s.place t' = .idle := by
    intro t' ht
    have hholds : ¬ (s.place t').Holds := fun hholds =>
      ht (some.inj ((h.mutex t' hholds).symm.trans howner))
    have hktime := hquiet t'
    generalize s.place t' = place' at hholds hktime ⊢
    cases place' with
    | idle => rfl
    | ktimeSec _ | ktimeSecs _ _ | ktimeNsec _ _ | ktimeTimes _ _ | ktimeLast _ _ _ =>
      exact absurd rfl hktime
    | _ => exact absurd trivial hholds
  refine ⟨htime, h.order, fun _ _ hw => absurd hw nofun, fun _ _ hk => absurd hk nofun,
    fun t' => ?_, fun t' => ?_⟩
  · show PlaceOk cs (s.store t place time) t' (update s.place t place t')
    by_cases ht : t' = t
    · subst ht
      rw [update_self]
      exact hplace
    · rw [update_of_ne ht, hidle t' ht]
      trivial
  · show (update s.place t place t').Holds → s.mutex = some t'
    by_cases ht : t' = t
    · exact fun _ => ht ▸ howner
    · rw [update_of_ne ht, hidle t' ht]
      exact False.elim

/-- The time that is set, after the check of `do_settimeofday`. -/
theorem settimeofday_normal {tv : Timespec} (hlong : long tv.nsec = tv.nsec)
    (hcheck : ¬ (nsecPerSec : Int) ≤ tv.nsec % 2 ^ 32) : tv.Normal := by
  unfold nsecPerSec at hcheck
  unfold long at hlong
  constructor
  · omega
  · show tv.nsec < 1000000000
    omega

theorem Timespec.Normal.of_nsec {sec sec' nsec : Int} (h : (⟨sec, nsec⟩ : Timespec).Normal) :
    (⟨sec', nsec⟩ : Timespec).Normal := ⟨h.nonneg, h.lt⟩

/-- The offset that `do_settimeofday` computes has normal nanoseconds, whatever it has loaded. -/
theorem set_wall_normal {tv xtime wall : Timespec} (htv : tv.Normal) (hxtime : xtime.Normal)
    (hwall : wall.Normal) :
    (timespecSub wall ⟨tv.sec - xtime.sec, long (tv.nsec - xtime.nsec)⟩).Normal := by
  obtain ⟨ht, ht'⟩ := htv
  obtain ⟨hx, hx'⟩ := hxtime
  unfold nsecPerSec at ht' hx'
  have hlong : long (tv.nsec - xtime.nsec) = tv.nsec - xtime.nsec := long_eq (by omega) (by omega)
  exact (timespec_sub_ge hwall _ (by omega) (by omega)).1

theorem step_thread_ok (h : ClocksOk cs s) (hquiet : Undisturbed cs s (.step t))
    (hstep : stepThread cs s t = some s') : ClocksOk cs s' := by
  have hloaded := h.place t
  have hholds := h.mutex t
  have hstores : (s.place t).stores → ∀ t', ¬ (s.place t').inKtime := hquiet
  unfold stepThread at hstep
  generalize hplace : s.place t = place at hstep hloaded hholds hstores
  cases place with
  | idle =>
    exact absurd hstep nofun
  | wallStart =>
    obtain rfl := some.inj hstep
    exact goto_ok t _ h rfl fun _ => hholds trivial
  | wallSec sec =>
    obtain rfl := some.inj hstep
    obtain rfl : sec = s.time.xtime.sec := hloaded
    exact goto_ok t _ h rfl fun _ => hholds trivial
  | wallXtime ts =>
    obtain rfl := some.inj hstep
    obtain rfl : ts = s.time.xtime := hloaded
    refine goto_ok t _ h ⟨h.time.last, fun _ => le_refl _, fun w hw => ?_⟩
      fun _ => hholds trivial
    exact (h.wall t w hw).2
  | wallLast ts last =>
    obtain rfl := some.inj hstep
    exact return_wall_ok h hplace
  | wallDone | setDone =>
    obtain rfl := some.inj hstep
    exact release_ok h (hholds trivial)
  | ktimeSec sec =>
    obtain rfl := some.inj hstep
    exact goto_ok t _ h ⟨hloaded, rfl⟩ False.elim
  | ktimeSecs sec wallSec =>
    obtain rfl := some.inj hstep
    obtain ⟨rfl, hwallSec⟩ := hloaded
    exact goto_ok t _ h ⟨rfl, hwallSec⟩ False.elim
  | ktimeNsec xtime wallSec =>
    obtain rfl := some.inj hstep
    obtain ⟨hxtime, rfl⟩ := hloaded
    exact goto_ok t _ h ⟨hxtime, rfl⟩ False.elim
  | ktimeTimes xtime wall =>
    obtain rfl := some.inj hstep
    obtain ⟨rfl, rfl⟩ := hloaded
    refine goto_ok t _ h ⟨h.time.last, h.time.xtime, h.time.wall, fun _ => le_refl _,
      fun k hk => ?_⟩ False.elim
    exact h.ktime t k hk
  | ktimeLast xtime wall last =>
    obtain rfl := some.inj hstep
    exact return_ktime_ok h hplace
  | setStart tv =>
    obtain rfl := some.inj hstep
    exact goto_ok t _ h hloaded fun _ => hholds trivial
  | setNow tv counter =>
    obtain rfl := some.inj hstep
    exact goto_ok t _ h hloaded fun _ => hholds trivial
  | setDelta tv counter delta =>
    obtain rfl := some.inj hstep
    exact store_ok h (hholds trivial) (hstores rfl)
      ⟨read_lt cs counter, h.time.xtime, h.time.wall⟩ hloaded
  | setLast tv delta =>
    obtain rfl := some.inj hstep
    exact goto_ok t _ h ⟨hloaded, (add_ns_normal _ _).1⟩ fun _ => hholds trivial
  | setForward tv xtime =>
    obtain rfl := some.inj hstep
    exact store_ok h (hholds trivial) (hstores rfl)
      ⟨h.time.last, h.time.xtime.of_nsec, h.time.wall⟩ ⟨hloaded.1, hloaded.2.of_nsec⟩
  | setForwardNsec tv nsec =>
    obtain rfl := some.inj hstep
    exact store_ok h (hholds trivial) (hstores rfl)
      ⟨h.time.last, hloaded.2.of_nsec, h.time.wall⟩ hloaded.1
  | setForwarded tv =>
    obtain rfl := some.inj hstep
    exact goto_ok t _ h ⟨hloaded, set_wall_normal hloaded h.time.xtime h.time.wall⟩
      fun _ => hholds trivial
  | setWall tv wall =>
    obtain rfl := some.inj hstep
    exact store_ok h (hholds trivial) (hstores rfl)
      ⟨h.time.last, h.time.xtime, h.time.wall.of_nsec⟩ ⟨hloaded.1, hloaded.2.of_nsec⟩
  | setWallNsec tv nsec =>
    obtain rfl := some.inj hstep
    exact store_ok h (hholds trivial) (hstores rfl)
      ⟨h.time.last, h.time.xtime, hloaded.2.of_nsec⟩ hloaded.1
  | setXtime tv =>
    obtain rfl := some.inj hstep
    exact store_ok h (hholds trivial) (hstores rfl)
      ⟨h.time.last, h.time.xtime.of_nsec, h.time.wall⟩ hloaded
  | setXtimeNsec tv =>
    obtain rfl := some.inj hstep
    exact store_ok h (hholds trivial) (hstores rfl)
      ⟨h.time.last, hloaded.of_nsec, h.time.wall⟩ trivial

theorem clock_step_ok (hhz : cs.AtLeastHz) (h : ClocksOk cs s) (hquiet : Undisturbed cs s op)
    (hstep : clockStep cs s op = some s') : ClocksOk cs s' := by
  cases op with
  | advance cycles =>
    obtain rfl := some.inj hstep
    exact advance_ok h hquiet
  | tick =>
    obtain rfl := some.inj hstep
    exact tick_ok hhz h hquiet
  | getnstimeofday t =>
    obtain ⟨⟨-, hfree⟩, hcall⟩ := ite_none_right_eq_some.mp hstep
    obtain rfl := some.inj hcall
    exact take_ok h hfree trivial
  | ktimeGet t =>
    obtain ⟨-, hcall⟩ := ite_none_right_eq_some.mp hstep
    obtain rfl := some.inj hcall
    exact goto_ok t _ h rfl False.elim
  | settimeofday t tv =>
    obtain ⟨⟨-, hfree, hlong, hcheck⟩, hcall⟩ := ite_none_right_eq_some.mp hstep
    obtain rfl := some.inj hcall
    exact take_ok h hfree (settimeofday_normal hlong hcheck)
  | step t => exact step_thread_ok h hquiet hstep

/-- In a run whose steps are not disturbed, no result is before the last one of its thread. -/
theorem results_in_order (hhz : cs.AtLeastHz) (c : Nat) {now : Timespec} (hnow : now.Normal)
    {ops : List (ClockOp τ)}
    (hsteps : AllSteps (clockStep cs) (Undisturbed cs) (clocksInit cs c now) ops) :
    Always (clockStep cs) (fun s => s.inOrder = true) (clocksInit cs c now) ops :=
  always_of_invariant (fun _ _ _ h hquiet hstep => clock_step_ok hhz h hquiet hstep)
    (fun _ h => h.order) (clocks_init_ok c hnow) hsteps

/-- An update while two threads read the clocks, and then one sets the time. -/
def someOps : List (ClockOp Bool) :=
  [.advance 10, .getnstimeofday false, .ktimeGet true, .step false, .step true, .step false,
    .step true, .step false, .step true, .step true, .tick, .step false, .step false, .step true,
    .settimeofday false ⟨100, 5⟩, .step false, .step false, .step false]

theorem some_results_in_order :
    ∃ s, exec (clockStep someSource) (clocksInit someSource 0 ⟨0, 0⟩) someOps = some s ∧
      s.inOrder = true := by
  have hhz : someSource.AtLeastHz := by
    show 1000000 ≤ 1000000000 * 2 ^ 0
    omega
  have hnow : (⟨0, 0⟩ : Timespec).Normal := ⟨le_refl 0, show (0 : Int) < 1000000000 by omega⟩
  have hsteps : AllSteps (clockStep someSource) (Undisturbed someSource)
      (clocksInit someSource 0 ⟨0, 0⟩) someOps := by decide +kernel
  exact ⟨_, rfl, (results_in_order hhz 0 hnow hsteps).last rfl⟩

/-- The update comes when the second call has the time but not yet `cycle_last`: the 10 ms that it
moves from one to the other are in neither of what the call adds. -/
theorem update_between_loads :
    ∃ s, exec (clockStep someSource) (clocksInit someSource 0 ⟨0, 0⟩)
        [.advance 10, .getnstimeofday (), .step (), .step (), .step (), .step (), .step (),
          .getnstimeofday (), .step (), .step (), .tick, .step (), .step ()] = some s ∧
      s.inOrder = false := by
  refine ⟨_, rfl, ?_⟩
  decide +kernel

end FullhanRtos.Timekeeping
