import FullhanRtos.Lib.Scale
import FullhanRtos.Lib.Transition
import Mathlib.Algebra.Order.Ring.Int
import Mathlib.Data.Nat.Bitwise
import Mathlib.Tactic.Linarith

/-!
# Time keeping

`timekeeping.c` of `kernel/libc/time/hrtime`: the wall time `xtime`, which `update_wall_time` brings
forward by whole tick intervals of the cycle counter, the offset `wall_to_monotonic`, and the clocks
`getnstimeofday` and `ktime_get`, which add the cycles since then. A `long` has 32 bits and
`NSEC_PER_SEC` is an `unsigned long long`; seconds and products of cycles have no bound here.
-/

namespace FullhanRtos.Timekeeping

open Scale Nat Int Option

/-! ## The clock source -/

/-- A `clocksource` that counts with `width` bits, of which `mask` keeps the lowest `maskBits`. -/
structure Clocksource where
  mult : Nat
  shift : Nat
  maskBits : Nat
  width : Nat
  mult_pos : 0 < mult
  maskBits_le : maskBits ≤ width
  width_le : width ≤ 64

def Clocksource.read (cs : Clocksource) (counter : Nat) : Nat := counter % 2 ^ cs.width

def Clocksource.mask (cs : Clocksource) : Nat := 2 ^ cs.maskBits - 1

/-- `(cycle_now - cycle_last) & clock->mask`, in 64 bits. -/
def cycleDelta (cs : Clocksource) (counter cycleLast : Nat) : Nat :=
  (cs.read counter + (2 ^ 64 - cycleLast)) % 2 ^ 64 &&& cs.mask

def clocksourceCyc2ns (cs : Clocksource) (cycles : Nat) : Nat := scale cs.mult (2 ^ cs.shift) cycles

def nsecPerSec : Nat := 1000000000

def rtTickPerSecond : Nat := 100

def ntpIntervalLength : Nat := nsecPerSec / rtTickPerSecond

/-- `timekeeper.cycle_interval` and `timekeeper.xtime_interval`, of `timekeeper_setup_internals` -/
def Clocksource.cycleInterval (cs : Clocksource) : Nat :=
  let tmp := (ntpIntervalLength * 2 ^ cs.shift + cs.mult / 2) / cs.mult
  if tmp = 0 then 1 else tmp

def Clocksource.xtimeInterval (cs : Clocksource) : Nat := cs.cycleInterval * cs.mult

/-! ## Times -/

structure Timespec where
  sec : Int
  nsec : Int
  deriving DecidableEq

def long (x : Int) : Int := (x + 2 ^ 31) % 2 ^ 32 - 2 ^ 31

/-- The first loop of `set_normalized_timespec`. In its test a negative number is a large one. -/
def normalizeDown : Nat → Timespec → Timespec
  | 0, t => t
  | rounds + 1, t =>
    if (nsecPerSec : Int) ≤ t.nsec % 2 ^ 64 then
      normalizeDown rounds ⟨t.sec + 1, long (t.nsec - nsecPerSec)⟩
    else t

def normalizeUp : Nat → Timespec → Timespec
  | 0, t => t
  | rounds + 1, t =>
    if t.nsec < 0 then normalizeUp rounds ⟨t.sec - 1, long (t.nsec + nsecPerSec)⟩ else t

/-- `set_normalized_timespec`; no loop takes more than five rounds. -/
def setNormalizedTimespec (sec nsec : Int) : Timespec :=
  normalizeUp 5 (normalizeDown 5 ⟨sec, nsec⟩)

def timespecSub (lhs rhs : Timespec) : Timespec :=
  setNormalizedTimespec (lhs.sec - rhs.sec) (long (lhs.nsec - rhs.nsec))

def timespecAddNs (a : Timespec) (ns : Nat) : Timespec :=
  ⟨a.sec + (a.nsec + ns) / nsecPerSec, (a.nsec + ns) % nsecPerSec⟩

/-! ## The time keeper -/

/-- The variables of the module, with the counter of the hardware. -/
structure Timekeeper where
  counter : Nat
  cycleLast : Nat
  xtime : Timespec
  wallToMonotonic : Timespec
  xtimeNsec : Int
  deriving DecidableEq

variable (cs : Clocksource)

/-- `timekeeping_init` with the time of the persistent clock. -/
def timekeepingInit (counter : Nat) (now : Timespec) : Timekeeper where
  counter := counter
  cycleLast := cs.read counter
  xtime := now
  wallToMonotonic := setNormalizedTimespec (-now.sec) (long (-now.nsec))
  xtimeNsec := 0

def timekeepingForwardNow (s : Timekeeper) : Timekeeper :=
  { s with
    cycleLast := cs.read s.counter
    xtime := timespecAddNs s.xtime (clocksourceCyc2ns cs (cycleDelta cs s.counter s.cycleLast)) }

def timekeepingGetNs (s : Timekeeper) : Nat :=
  clocksourceCyc2ns cs (cycleDelta cs s.counter s.cycleLast)

def ktimeGet (s : Timekeeper) : Int :=
  (s.xtime.sec + s.wallToMonotonic.sec) * nsecPerSec +
    (long (s.xtime.nsec + s.wallToMonotonic.nsec) + timekeepingGetNs cs s)

def getnstimeofday (s : Timekeeper) : Timespec := timespecAddNs s.xtime (timekeepingGetNs cs s)

def doSettimeofday (s : Timekeeper) (tv : Timespec) : Int × Timekeeper :=
  if (nsecPerSec : Int) ≤ tv.nsec % 2 ^ 32 then (-1, s)
  else
    let s := timekeepingForwardNow cs s
    let delta : Timespec := ⟨tv.sec - s.xtime.sec, long (tv.nsec - s.xtime.nsec)⟩
    (0, { s with wallToMonotonic := timespecSub s.wallToMonotonic delta, xtime := tv })

/-- The loop of `update_wall_time`, for at most as many rounds as there are cycles: what becomes of
`cycle_last`, `xtime_nsec` and the seconds. -/
def accumulate : Nat → Nat → Nat → Int → Int → Nat × Int × Int
  | 0, _, cycleLast, xtimeNsec, sec => (cycleLast, xtimeNsec, sec)
  | rounds + 1, offset, cycleLast, xtimeNsec, sec =>
    if offset < cs.cycleInterval then (cycleLast, xtimeNsec, sec)
    else
      let xtimeNsec := xtimeNsec + cs.xtimeInterval
      let second : Int := nsecPerSec * 2 ^ cs.shift
      if second ≤ xtimeNsec then
        accumulate rounds (offset - cs.cycleInterval) ((cycleLast + cs.cycleInterval) % 2 ^ 64)
          (xtimeNsec - second) (sec + 1)
      else
        accumulate rounds (offset - cs.cycleInterval) ((cycleLast + cs.cycleInterval) % 2 ^ 64)
          xtimeNsec sec

def updateWallTime (s : Timekeeper) : Timekeeper :=
  let offset := cycleDelta cs s.counter s.cycleLast
  -- What the last call left of `xtime_nsec` is overwritten here.
  let (cycleLast, xtimeNsec, sec) :=
    accumulate cs offset offset s.cycleLast (s.xtime.nsec * 2 ^ cs.shift) s.xtime.sec
  let nsec := long (xtimeNsec / 2 ^ cs.shift + 1)
  { s with
    cycleLast := cycleLast
    xtimeNsec := xtimeNsec - nsec * 2 ^ cs.shift
    xtime :=
      if (nsecPerSec : Int) ≤ nsec % 2 ^ 64 then ⟨sec + 1, long (nsec - nsecPerSec)⟩
      else ⟨sec, nsec⟩ }

/-! ## Runs -/

inductive Event where
  | advance (cycles : Nat)
  | updateWallTime
  | settimeofday (tv : Timespec)

/-- The time to set has nanoseconds in a `long`. -/
def timeStep (s : Timekeeper) : Event → Option Timekeeper
  | .advance cycles => some { s with counter := s.counter + cycles }
  | .updateWallTime => some (updateWallTime cs s)
  | .settimeofday tv => if long tv.nsec = tv.nsec then some (doSettimeofday cs s tv).2 else none

/-! ## Cycles -/

variable {cs} {s s' : Timekeeper} {c last n : Nat}

theorem cycle_delta_eq (cs : Clocksource) (c : Nat) (hlast : last < 2 ^ 64) :
    (cycleDelta cs c last : Int) = ((c : Int) - last) % 2 ^ cs.maskBits := by
  have hmask : 2 ^ cs.maskBits ∣ 2 ^ 64 := Nat.pow_dvd_pow 2 (cs.maskBits_le.trans cs.width_le)
  have hwidth : 2 ^ cs.maskBits ∣ 2 ^ cs.width := Nat.pow_dvd_pow 2 cs.maskBits_le
  have hdelta : cycleDelta cs c last = (c + (2 ^ 64 - last)) % 2 ^ cs.maskBits := by
    rw [cycleDelta, Clocksource.mask, and_two_pow_sub_one_eq_mod, mod_mod_of_dvd _ hmask,
      Clocksource.read, add_mod, mod_mod_of_dvd _ hwidth, ← add_mod]
  have hcast : ((2 ^ 64 : Nat) : Int) % ((2 ^ cs.maskBits : Nat) : Int) = 0 :=
    emod_eq_zero_of_dvd (natCast_dvd_natCast.mpr hmask)
  rw [hdelta, natCast_mod, Nat.cast_add, Nat.cast_sub hlast.le]
  push_cast at hcast ⊢
  have hshape : (c : Int) + (18446744073709551616 - last) =
      (c - last) + 18446744073709551616 := by ring
  rw [hshape, add_emod, hcast, add_zero, emod_emod]

theorem cycle_delta_lt (cs : Clocksource) (c : Nat) (hlast : last < 2 ^ 64) :
    cycleDelta cs c last < 2 ^ cs.maskBits := by
  have hpos : (0 : Int) < 2 ^ cs.maskBits := pow_pos (by omega) _
  have hlt := emod_lt_of_pos ((c : Int) - last) hpos
  rw [← cycle_delta_eq cs c hlast] at hlt
  exact_mod_cast hlt

/-- The counter goes on, by no more than the mask has room for. -/
theorem cycle_delta_advance (hlast : last < 2 ^ 64)
    (hroom : cycleDelta cs c last + n < 2 ^ cs.maskBits) :
    cycleDelta cs (c + n) last = cycleDelta cs c last + n := by
  have hdelta : (cycleDelta cs (c + n) last : Int) = cycleDelta cs c last + n := by
    have hshape : ((c + n : Nat) : Int) - last = (c - last) + n := by
      push_cast
      ring
    rw [cycle_delta_eq cs (c + n) hlast, hshape, ← emod_add_emod, ← cycle_delta_eq cs c hlast]
    exact emod_eq_of_lt (by omega) (by exact_mod_cast hroom)
  exact_mod_cast hdelta

theorem cycle_delta_accumulate (hlast : last < 2 ^ 64) (hle : n ≤ cycleDelta cs c last) :
    cycleDelta cs c ((last + n) % 2 ^ 64) = cycleDelta cs c last - n := by
  have hmask : (2 ^ cs.maskBits : Int) ∣ 2 ^ 64 := pow_dvd_pow 2 (cs.maskBits_le.trans cs.width_le)
  have hlt := cycle_delta_lt cs c hlast
  have hdelta : (cycleDelta cs c ((last + n) % 2 ^ 64) : Int) = cycleDelta cs c last - n := by
    have hnext : (((last + n) % 2 ^ 64 : Nat) : Int) = ((last : Int) + n) % 2 ^ 64 := by
      rfl
    have hshape : (c : Int) - (last + n) = (c - last) - n := by ring
    rw [cycle_delta_eq cs c (mod_lt _ (by omega)), hnext, sub_emod, emod_emod_of_dvd _ hmask,
      ← sub_emod, hshape, ← emod_sub_emod, ← cycle_delta_eq cs c hlast]
    refine emod_eq_of_lt (by omega) ?_
    have hcast : (cycleDelta cs c last : Int) < 2 ^ cs.maskBits := by exact_mod_cast hlt
    omega
  omega

theorem read_lt (cs : Clocksource) (c : Nat) : cs.read c < 2 ^ 64 :=
  (mod_lt _ (Nat.two_pow_pos _)).trans_le (Nat.pow_le_pow_right (by omega) cs.width_le)

theorem cycle_delta_read (cs : Clocksource) (c : Nat) : cycleDelta cs c (cs.read c) = 0 := by
  have hlt := read_lt cs c
  rw [cycleDelta, Nat.add_sub_cancel' hlt.le, mod_self, zero_and]

/-! ## Times -/

/-- The nanoseconds of a time. -/
def Timespec.ns (t : Timespec) : Int := t.sec * nsecPerSec + t.nsec

/-- The nanoseconds are less than a second. -/
structure Timespec.Normal (t : Timespec) : Prop where
  nonneg : 0 ≤ t.nsec
  lt : t.nsec < nsecPerSec

/-- The order of times. -/
def Timespec.Le (t u : Timespec) : Prop := t.sec < u.sec ∨ t.sec = u.sec ∧ t.nsec ≤ u.nsec

variable {t u : Timespec} {sec nsec : Int}

theorem le_of_ns_le (ht : t.Normal) (hu : u.Normal) (h : t.ns ≤ u.ns) : t.Le u := by
  obtain ⟨htn, htl⟩ := ht
  obtain ⟨hun, hul⟩ := hu
  unfold Timespec.ns nsecPerSec at *
  unfold Timespec.Le
  omega

theorem add_ns_normal (t : Timespec) (n : Nat) :
    (timespecAddNs t n).Normal ∧ (timespecAddNs t n).ns = t.ns + n := by
  refine ⟨⟨?_, ?_⟩, ?_⟩
  · show 0 ≤ (t.nsec + n) % 1000000000
    omega
  · show (t.nsec + n) % 1000000000 < 1000000000
    omega
  · show (t.sec + (t.nsec + n) / 1000000000) * 1000000000 + (t.nsec + n) % 1000000000 =
      t.sec * 1000000000 + t.nsec + n
    omega

theorem long_eq {x : Int} (hlo : -2 ^ 31 ≤ x) (hhi : x < 2 ^ 31) : long x = x := by
  unfold long
  omega

/-- One round on negative nanoseconds, which wraps below the smallest `long`. -/
theorem normalize_down_neg (rounds : Nat) (hlo : -2 ^ 31 ≤ nsec) (hneg : nsec < 0) :
    normalizeDown (rounds + 1) ⟨sec, nsec⟩ = normalizeDown rounds ⟨sec + 1,
      if nsec - 1000000000 < -2 ^ 31 then nsec - 1000000000 + 2 ^ 32 else nsec - 1000000000⟩ := by
  have hlarge : (nsecPerSec : Int) ≤ nsec % 2 ^ 64 := by
    show 1000000000 ≤ _
    omega
  have hnext : long (nsec - nsecPerSec) =
      if nsec - 1000000000 < -2 ^ 31 then nsec - 1000000000 + 2 ^ 32 else nsec - 1000000000 := by
    unfold long nsecPerSec
    split <;> omega
  show (if (nsecPerSec : Int) ≤ nsec % 2 ^ 64 then _ else _) = _
  rw [if_pos hlarge, hnext]

theorem normalize_down_large (rounds : Nat) (hlo : 1000000000 ≤ nsec) (hhi : nsec < 2 ^ 31) :
    normalizeDown (rounds + 1) ⟨sec, nsec⟩ = normalizeDown rounds ⟨sec + 1, nsec - 1000000000⟩ := by
  have hlarge : (nsecPerSec : Int) ≤ nsec % 2 ^ 64 := by
    show 1000000000 ≤ _
    omega
  have hnext : long (nsec - nsecPerSec) = nsec - 1000000000 := long_eq (by
    show -2 ^ 31 ≤ nsec - 1000000000
    omega) (by
    show nsec - 1000000000 < 2 ^ 31
    omega)
  show (if (nsecPerSec : Int) ≤ nsec % 2 ^ 64 then _ else _) = _
  rw [if_pos hlarge, hnext]

theorem normalize_down_done (rounds : Nat) (hlo : 0 ≤ nsec) (hhi : nsec < 1000000000) :
    normalizeDown rounds ⟨sec, nsec⟩ = ⟨sec, nsec⟩ := by
  cases rounds with
  | zero => rfl
  | succ rounds =>
    refine if_neg ?_
    show ¬ 1000000000 ≤ nsec % 2 ^ 64
    omega

theorem normalize_up_done (rounds : Nat) (hlo : 0 ≤ nsec) :
    normalizeUp rounds ⟨sec, nsec⟩ = ⟨sec, nsec⟩ := by
  cases rounds with
  | zero => rfl
  | succ rounds => exact if_neg (not_lt.mpr hlo)

/-- Negative nanoseconds come out 2^32 too large: the loop that subtracts seconds runs on them until
the `long` wraps. -/
theorem set_normalized_timespec_neg (sec : Int) {nsec : Int} (hlo : -1000000000 < nsec)
    (hneg : nsec < 0) :
    (setNormalizedTimespec sec nsec).Normal ∧
      (setNormalizedTimespec sec nsec).ns = sec * nsecPerSec + nsec + 2 ^ 32 := by
  have hresult : ∃ k : Int,
      normalizeDown 5 ⟨sec, nsec⟩ = ⟨sec + k, nsec + 2 ^ 32 - k * 1000000000⟩ ∧
      0 ≤ nsec + 2 ^ 32 - k * 1000000000 ∧ nsec + 2 ^ 32 - k * 1000000000 < 1000000000 := by
    rw [normalize_down_neg 4 (by omega) hneg, if_neg (by omega),
      normalize_down_neg 3 (by omega) (by omega)]
    by_cases hwraps : nsec - 1000000000 - 1000000000 < -2 ^ 31
    · rw [if_pos hwraps, normalize_down_large 2 (by omega) (by omega)]
      by_cases hthree : nsec - 1000000000 - 1000000000 + 2 ^ 32 - 1000000000 < 1000000000
      · rw [normalize_down_done 2 (by omega) hthree]
        exact ⟨3, by congr 1 <;> omega, by omega, by omega⟩
      · rw [normalize_down_large 1 (by omega) (by omega),
          normalize_down_done 1 (by omega) (by omega)]
        exact ⟨4, by congr 1 <;> omega, by omega, by omega⟩
    · rw [if_neg hwraps, normalize_down_neg 2 (by omega) (by omega), if_pos (by omega),
        normalize_down_large 1 (by omega) (by omega), normalize_down_done 1 (by omega) (by omega)]
      exact ⟨4, by congr 1 <;> omega, by omega, by omega⟩
  obtain ⟨k, hdown, hnonneg, hlt⟩ := hresult
  rw [setNormalizedTimespec, hdown, normalize_up_done 5 hnonneg]
  refine ⟨⟨hnonneg, hlt⟩, ?_⟩
  show (sec + k) * 1000000000 + (nsec + 2 ^ 32 - k * 1000000000) = sec * 1000000000 + nsec + 2 ^ 32
  omega

theorem set_normalized_timespec_pos (sec : Int) {nsec : Int} (hlo : 0 ≤ nsec)
    (hhi : nsec < 2000000000) :
    (setNormalizedTimespec sec nsec).Normal ∧
      (setNormalizedTimespec sec nsec).ns = sec * nsecPerSec + nsec := by
  rw [setNormalizedTimespec]
  by_cases hlarge : nsec < 1000000000
  · rw [normalize_down_done 5 hlo hlarge, normalize_up_done 5 hlo]
    exact ⟨⟨hlo, hlarge⟩, rfl⟩
  · rw [normalize_down_large 4 (by omega) (by omega), normalize_down_done 4 (by omega) (by omega),
      normalize_up_done 5 (by omega)]
    refine ⟨⟨?_, ?_⟩, ?_⟩
    · show 0 ≤ nsec - 1000000000
      omega
    · show nsec - 1000000000 < 1000000000
      omega
    · show (sec + 1) * 1000000000 + (nsec - 1000000000) = sec * 1000000000 + nsec
      omega

/-- A difference of times is never too small. -/
theorem timespec_sub_ge (ht : t.Normal) (sec : Int) {nsec : Int} (hlo : -1000000000 < nsec)
    (hhi : nsec < 1000000000) :
    (timespecSub t ⟨sec, nsec⟩).Normal ∧
      t.ns - (sec * nsecPerSec + nsec) ≤ (timespecSub t ⟨sec, nsec⟩).ns := by
  obtain ⟨hnonneg, hlt⟩ := ht
  unfold nsecPerSec at hlt
  have hlong : long (t.nsec - nsec) = t.nsec - nsec := long_eq (by omega) (by omega)
  show (setNormalizedTimespec (t.sec - sec) (long (t.nsec - nsec))).Normal ∧
    _ ≤ (setNormalizedTimespec (t.sec - sec) (long (t.nsec - nsec))).ns
  rw [hlong]
  by_cases hneg : t.nsec - nsec < 0
  · obtain ⟨hnormal, hns⟩ := set_normalized_timespec_neg (t.sec - sec) (by omega) hneg
    refine ⟨hnormal, ?_⟩
    rw [hns]
    unfold Timespec.ns nsecPerSec
    omega
  · obtain ⟨hnormal, hns⟩ := set_normalized_timespec_pos (t.sec - sec) (by omega)
      (show t.nsec - nsec < 2000000000 by omega)
    refine ⟨hnormal, ?_⟩
    rw [hns]
    unfold Timespec.ns nsecPerSec
    omega

/-! ## The calls -/

/-- A cycle takes at most a second. -/
def Clocksource.AtLeastHz (cs : Clocksource) : Prop := cs.mult ≤ nsecPerSec * 2 ^ cs.shift

theorem cycle_interval_pos (cs : Clocksource) : 0 < cs.cycleInterval := by
  unfold Clocksource.cycleInterval
  dsimp only
  split
  · exact Nat.one_pos
  · rename_i hne
    exact Nat.pos_of_ne_zero hne

/-- Then the loop of `update_wall_time` does not have to carry more than one second in a round. -/
theorem xtime_interval_le (hhz : cs.AtLeastHz) : cs.xtimeInterval ≤ nsecPerSec * 2 ^ cs.shift := by
  unfold Clocksource.AtLeastHz at hhz
  unfold Clocksource.xtimeInterval Clocksource.cycleInterval
  dsimp only
  split
  · rw [one_mul]
    exact hhz
  · have hdiv := div_mul_le_self (ntpIntervalLength * 2 ^ cs.shift + cs.mult / 2) cs.mult
    have hlen : ntpIntervalLength = 10000000 := rfl
    have hsec : nsecPerSec = 1000000000 := rfl
    rw [hlen] at hdiv ⊢
    rw [hsec] at hhz ⊢
    generalize 2 ^ cs.shift = d at *
    omega

/-- What the loop takes over is added to the time, without a rounding. -/
theorem accumulate_spec (hhz : cs.AtLeastHz) (c rounds : Nat) {offset : Nat} {x : Int} (sec : Int)
    (hrounds : offset ≤ rounds) (hlast : last < 2 ^ 64) (hoffset : cycleDelta cs c last = offset)
    (hx : 0 ≤ x) (hx' : x < nsecPerSec * 2 ^ cs.shift) :
    ∃ k last' x' sec', accumulate cs rounds offset last x sec = (last', x', sec') ∧
      k ≤ offset ∧ last' < 2 ^ 64 ∧ cycleDelta cs c last' = offset - k ∧
      0 ≤ x' ∧ x' < nsecPerSec * 2 ^ cs.shift ∧
      sec' * (nsecPerSec * 2 ^ cs.shift) + x' =
        sec * (nsecPerSec * 2 ^ cs.shift) + x + k * cs.mult := by
  induction rounds generalizing offset last x sec with
  | zero =>
    refine ⟨0, last, x, sec, rfl, Nat.zero_le _, hlast, by omega, hx, hx', ?_⟩
    ring
  | succ rounds ih =>
    rw [accumulate]
    by_cases hdone : offset < cs.cycleInterval
    · rw [if_pos hdone]
      refine ⟨0, last, x, sec, rfl, Nat.zero_le _, hlast, by omega, hx, hx', ?_⟩
      ring
    · rw [if_neg hdone]
      dsimp only
      have hpos := cycle_interval_pos cs
      have hinterval : (cs.xtimeInterval : Int) ≤ nsecPerSec * 2 ^ cs.shift := by
        exact_mod_cast xtime_interval_le hhz
      have hle : cs.cycleInterval ≤ cycleDelta cs c last := by omega
      have hdelta := cycle_delta_accumulate hlast hle
      rw [hoffset] at hdelta
      have hlast' : (last + cs.cycleInterval) % 2 ^ 64 < 2 ^ 64 := mod_lt _ (by omega)
      have hadded : (cs.xtimeInterval : Int) = cs.cycleInterval * cs.mult := by
        rfl
      split
      · obtain ⟨k, last', x', sec', hloop, hk, hlt, hleft, hx1, hx2, hsum⟩ :=
          ih (sec + 1) (by omega) hlast' hdelta
            (show 0 ≤ x + cs.xtimeInterval - nsecPerSec * 2 ^ cs.shift by omega) (by omega)
        refine ⟨k + cs.cycleInterval, last', x', sec', hloop, by omega, hlt, by omega, hx1, hx2, ?_⟩
        rw [hsum, hadded]
        push_cast
        ring
      · obtain ⟨k, last', x', sec', hloop, hk, hlt, hleft, hx1, hx2, hsum⟩ :=
          ih sec (by omega) hlast' hdelta
            (show 0 ≤ x + (cs.xtimeInterval : Int) by omega) (by omega)
        refine ⟨k + cs.cycleInterval, last', x', sec', hloop, by omega, hlt, by omega, hx1, hx2, ?_⟩
        rw [hsum, hadded]
        push_cast
        ring

/-- The state in which the calls find the variables. -/
structure TimeOk (s : Timekeeper) : Prop where
  last : s.cycleLast < 2 ^ 64
  xtime : s.xtime.Normal
  wall : s.wallToMonotonic.Normal

/-- The end of `update_wall_time`: the nanoseconds are rounded up, and may carry a second. -/
theorem round_up_spec (sec : Int) {q : Int} (hq : 0 ≤ q) (hq' : q < nsecPerSec) :
    Timespec.Normal (if (nsecPerSec : Int) ≤ long (q + 1) % 2 ^ 64
      then ⟨sec + 1, long (long (q + 1) - nsecPerSec)⟩ else ⟨sec, long (q + 1)⟩) ∧
    Timespec.ns (if (nsecPerSec : Int) ≤ long (q + 1) % 2 ^ 64
      then ⟨sec + 1, long (long (q + 1) - nsecPerSec)⟩ else ⟨sec, long (q + 1)⟩) =
        sec * nsecPerSec + q + 1 := by
  unfold nsecPerSec at hq'
  have hlong : long (q + 1) = q + 1 := long_eq (by omega) (by omega)
  rw [hlong]
  by_cases hcarry : (nsecPerSec : Int) ≤ (q + 1) % 2 ^ 64
  · rw [if_pos hcarry]
    unfold nsecPerSec at hcarry
    have hend : q + 1 - nsecPerSec = 0 := by
      show q + 1 - 1000000000 = 0
      omega
    rw [hend]
    refine ⟨⟨le_refl 0, show (0 : Int) < 1000000000 by omega⟩, ?_⟩
    show (sec + 1) * 1000000000 + 0 = sec * 1000000000 + q + 1
    omega
  · rw [if_neg hcarry]
    unfold nsecPerSec at hcarry
    refine ⟨⟨le_add_one hq, ?_⟩, (add_assoc _ _ _).symm⟩
    show q + 1 < 1000000000
    omega

theorem update_wall_time_spec (hhz : cs.AtLeastHz) (hlast : s.cycleLast < 2 ^ 64)
    (hxtime : s.xtime.Normal) :
    ∃ k, k ≤ cycleDelta cs s.counter s.cycleLast ∧
      (updateWallTime cs s).cycleLast < 2 ^ 64 ∧
      cycleDelta cs s.counter (updateWallTime cs s).cycleLast =
        cycleDelta cs s.counter s.cycleLast - k ∧
      (updateWallTime cs s).xtime.Normal ∧
      (updateWallTime cs s).xtime.ns = s.xtime.ns + clocksourceCyc2ns cs k + 1 := by
  obtain ⟨hnonneg, hlt⟩ := hxtime
  have hd : (0 : Int) < 2 ^ cs.shift := pow_pos (by omega) _
  obtain ⟨k, last', x', sec', hloop, hk, hlast', hleft, hx, hx', hsum⟩ :=
    accumulate_spec hhz s.counter (cycleDelta cs s.counter s.cycleLast) s.xtime.sec
      (le_refl _) hlast rfl (Int.mul_nonneg hnonneg hd.le)
      (Int.mul_lt_mul_of_pos_right hlt hd)
  have hdiv : sec' * nsecPerSec + x' / 2 ^ cs.shift = s.xtime.ns + clocksourceCyc2ns cs k := by
    have hscaled : x' + (sec' * nsecPerSec) * 2 ^ cs.shift =
        k * cs.mult + s.xtime.ns * 2 ^ cs.shift := by
      unfold Timespec.ns
      linarith
    have hquot : (x' + (sec' * nsecPerSec) * 2 ^ cs.shift) / 2 ^ cs.shift =
        (k * cs.mult + s.xtime.ns * 2 ^ cs.shift) / 2 ^ cs.shift := by rw [hscaled]
    rw [add_mul_ediv_right _ _ hd.ne', add_mul_ediv_right _ _ hd.ne'] at hquot
    have hcast : ((clocksourceCyc2ns cs k : Nat) : Int) = k * cs.mult / 2 ^ cs.shift := by
      rfl
    linarith
  have hq : 0 ≤ x' / 2 ^ cs.shift := ediv_nonneg hx hd.le
  have hq' : x' / 2 ^ cs.shift < nsecPerSec := Int.ediv_lt_of_lt_mul hd hx'
  unfold updateWallTime
  dsimp only
  rw [hloop]
  refine ⟨k, hk, hlast', hleft, ?_⟩
  obtain ⟨hnormal, hns⟩ := round_up_spec sec' hq hq'
  exact ⟨hnormal, by rw [hns, hdiv]⟩

theorem timekeeping_init_ok (cs : Clocksource) (c : Nat) (ht : t.Normal) :
    TimeOk (timekeepingInit cs c t) := by
  obtain ⟨hnonneg, hlt⟩ := ht
  unfold nsecPerSec at hlt
  have hlong : long (-t.nsec) = -t.nsec := long_eq (by omega) (by omega)
  refine ⟨read_lt cs c, ⟨hnonneg, hlt⟩, ?_⟩
  show (setNormalizedTimespec (-t.sec) (long (-t.nsec))).Normal
  rw [hlong]
  by_cases hneg : -t.nsec < 0
  · exact (set_normalized_timespec_neg (-t.sec) (by omega) hneg).1
  · exact (set_normalized_timespec_pos (-t.sec) (by omega) (by omega)).1

/-- Both clocks are the time with the cycles since `cycle_last`. -/
theorem getnstimeofday_ns (cs : Clocksource) (s : Timekeeper) :
    (getnstimeofday cs s).Normal ∧ (getnstimeofday cs s).ns = s.xtime.ns + timekeepingGetNs cs s :=
  add_ns_normal s.xtime (timekeepingGetNs cs s)

theorem ktime_get_eq (h : TimeOk s) :
    ktimeGet cs s = s.xtime.ns + s.wallToMonotonic.ns + timekeepingGetNs cs s := by
  obtain ⟨-, ⟨hx, hx'⟩, ⟨hw, hw'⟩⟩ := h
  unfold nsecPerSec at hx' hw'
  have hlong : long (s.xtime.nsec + s.wallToMonotonic.nsec) =
      s.xtime.nsec + s.wallToMonotonic.nsec := long_eq (by omega) (by omega)
  rw [ktimeGet, hlong]
  unfold Timespec.ns
  ring

/-- How far the clocks have come from one state to another. -/
structure Forward (cs : Clocksource) (s s' : Timekeeper) : Prop where
  ktime : ktimeGet cs s ≤ ktimeGet cs s'
  wall : s.xtime.ns + timekeepingGetNs cs s ≤ s'.xtime.ns + timekeepingGetNs cs s'

theorem advance_forward (h : TimeOk s)
    (hroom : cycleDelta cs s.counter s.cycleLast + n < 2 ^ cs.maskBits) :
    TimeOk { s with counter := s.counter + n } ∧
      Forward cs s { s with counter := s.counter + n } := by
  have hok : TimeOk { s with counter := s.counter + n } := ⟨h.last, h.xtime, h.wall⟩
  have hns : timekeepingGetNs cs s ≤ timekeepingGetNs cs { s with counter := s.counter + n } := by
    unfold timekeepingGetNs
    rw [cycle_delta_advance h.last hroom]
    exact scale_mono (Nat.le_add_right _ _)
  refine ⟨hok, ?_, ?_⟩
  · rw [ktime_get_eq h, ktime_get_eq hok]
    show s.xtime.ns + s.wallToMonotonic.ns + _ ≤ s.xtime.ns + s.wallToMonotonic.ns + _
    omega
  · show s.xtime.ns + _ ≤ s.xtime.ns + _
    omega

theorem update_wall_time_forward (hhz : cs.AtLeastHz) (h : TimeOk s) :
    TimeOk (updateWallTime cs s) ∧ Forward cs s (updateWallTime cs s) := by
  obtain ⟨k, hk, hlast, hdelta, hnormal, hns⟩ := update_wall_time_spec hhz h.last h.xtime
  have hok : TimeOk (updateWallTime cs s) := ⟨hlast, hnormal, h.wall⟩
  -- The parts of the elapsed cycles are less than a nanosecond short of the whole.
  have hparts : timekeepingGetNs cs s ≤
      clocksourceCyc2ns cs k + timekeepingGetNs cs (updateWallTime cs s) + 1 := by
    have hsplit := scale_add_le cs.mult (Nat.two_pow_pos cs.shift) k
      (cycleDelta cs s.counter s.cycleLast - k)
    rw [Nat.add_sub_cancel' hk] at hsplit
    show clocksourceCyc2ns cs (cycleDelta cs s.counter s.cycleLast) ≤
      clocksourceCyc2ns cs k +
        clocksourceCyc2ns cs (cycleDelta cs s.counter (updateWallTime cs s).cycleLast) + 1
    rw [hdelta]
    exact hsplit
  refine ⟨hok, ?_, ?_⟩
  · rw [ktime_get_eq h, ktime_get_eq hok]
    show _ ≤ (updateWallTime cs s).xtime.ns + s.wallToMonotonic.ns + _
    omega
  · omega

theorem do_settimeofday_spec (cs : Clocksource) (h : TimeOk s) (hlong : long t.nsec = t.nsec)
    (hcheck : ¬ (nsecPerSec : Int) ≤ t.nsec % 2 ^ 32) :
    ∃ wall, (doSettimeofday cs s t).2 = ⟨s.counter, cs.read s.counter, t, wall, s.xtimeNsec⟩ ∧
      t.Normal ∧ wall.Normal ∧
      s.xtime.ns + s.wallToMonotonic.ns + timekeepingGetNs cs s ≤ t.ns + wall.ns := by
  obtain ⟨hnormal, hns⟩ := add_ns_normal s.xtime (timekeepingGetNs cs s)
  have hset : (doSettimeofday cs s t).2 = ⟨s.counter, cs.read s.counter, t,
      timespecSub s.wallToMonotonic
        ⟨t.sec - (timespecAddNs s.xtime (timekeepingGetNs cs s)).sec,
          long (t.nsec - (timespecAddNs s.xtime (timekeepingGetNs cs s)).nsec)⟩, s.xtimeNsec⟩ := by
    rw [doSettimeofday, if_neg hcheck]
    rfl
  have ht : t.Normal := by
    unfold nsecPerSec at hcheck
    unfold long at hlong
    constructor
    · omega
    · show t.nsec < 1000000000
      omega
  generalize timespecAddNs s.xtime (timekeepingGetNs cs s) = now at hset hnormal hns
  have hdelta : long (t.nsec - now.nsec) = t.nsec - now.nsec := by
    have hnow := hnormal.lt
    have hnow' := hnormal.nonneg
    have ht1 := ht.lt
    have ht2 := ht.nonneg
    unfold nsecPerSec at hnow ht1
    exact long_eq (by omega) (by omega)
  obtain ⟨hwall, hge⟩ :
      (timespecSub s.wallToMonotonic ⟨t.sec - now.sec, t.nsec - now.nsec⟩).Normal ∧
      s.wallToMonotonic.ns - ((t.sec - now.sec) * nsecPerSec + (t.nsec - now.nsec)) ≤
        (timespecSub s.wallToMonotonic ⟨t.sec - now.sec, t.nsec - now.nsec⟩).ns := by
    have hnow := hnormal.lt
    have hnow' := hnormal.nonneg
    have ht1 := ht.lt
    have ht2 := ht.nonneg
    unfold nsecPerSec at hnow ht1
    exact timespec_sub_ge h.wall (t.sec - now.sec) (by omega) (by omega)
  rw [hdelta] at hset
  refine ⟨_, hset, ht, hwall, ?_⟩
  unfold Timespec.ns nsecPerSec at *
  omega

theorem do_settimeofday_forward (h : TimeOk s) (hlong : long t.nsec = t.nsec) :
    TimeOk (doSettimeofday cs s t).2 ∧ ktimeGet cs s ≤ ktimeGet cs (doSettimeofday cs s t).2 := by
  by_cases hcheck : (nsecPerSec : Int) ≤ t.nsec % 2 ^ 32
  · rw [doSettimeofday, if_pos hcheck]
    exact ⟨h, le_refl _⟩
  · obtain ⟨wall, hset, ht, hwall, hge⟩ := do_settimeofday_spec cs h hlong hcheck
    rw [hset]
    have hok : TimeOk ⟨s.counter, cs.read s.counter, t, wall, s.xtimeNsec⟩ :=
      ⟨read_lt cs s.counter, ht, hwall⟩
    have hzero : timekeepingGetNs cs ⟨s.counter, cs.read s.counter, t, wall, s.xtimeNsec⟩ = 0 := by
      show clocksourceCyc2ns cs (cycleDelta cs s.counter (cs.read s.counter)) = 0
      rw [cycle_delta_read]
      exact scale_zero
    refine ⟨hok, ?_⟩
    rw [ktime_get_eq h, ktime_get_eq hok, hzero]
    show _ ≤ t.ns + wall.ns + (0 : Int)
    rw [add_zero]
    exact hge

/-- The counter stays within its mask of `cycle_last`. -/
def Event.Near (cs : Clocksource) (s : Timekeeper) : Event → Prop
  | .advance cycles => cycleDelta cs s.counter s.cycleLast + cycles ≤ cs.mask
  | _ => True

instance (cs : Clocksource) (s : Timekeeper) : (e : Event) → Decidable (e.Near cs s)
  | .advance _ => inferInstanceAs (Decidable (_ ≤ _))
  | .updateWallTime => .isTrue trivial
  | .settimeofday _ => .isTrue trivial

def Event.Sets : Event → Prop
  | .settimeofday _ => True
  | _ => False

theorem time_step_ok (hhz : cs.AtLeastHz) {e : Event} (h : TimeOk s) (hnear : e.Near cs s)
    (hstep : timeStep cs s e = some s') :
    TimeOk s' ∧ ktimeGet cs s ≤ ktimeGet cs s' ∧
      (¬ e.Sets → s.xtime.ns + timekeepingGetNs cs s ≤ s'.xtime.ns + timekeepingGetNs cs s') := by
  cases e with
  | advance cycles =>
    obtain rfl := some.inj hstep
    have hroom : cycleDelta cs s.counter s.cycleLast + cycles < 2 ^ cs.maskBits :=
      (Nat.le_sub_one_iff_lt (Nat.two_pow_pos _)).mp hnear
    obtain ⟨hok, hforward⟩ := advance_forward h hroom
    exact ⟨hok, hforward.ktime, fun _ => hforward.wall⟩
  | updateWallTime =>
    obtain rfl := some.inj hstep
    obtain ⟨hok, hforward⟩ := update_wall_time_forward hhz h
    exact ⟨hok, hforward.ktime, fun _ => hforward.wall⟩
  | settimeofday tv =>
    obtain ⟨hlong, hset⟩ := ite_none_right_eq_some.mp hstep
    obtain rfl := some.inj hset
    obtain ⟨hok, hktime⟩ := do_settimeofday_forward h hlong
    exact ⟨hok, hktime, fun hsets => absurd trivial hsets⟩

theorem run_forward (hhz : cs.AtLeastHz) {events : List Event} (h : TimeOk s)
    (hnear : Transition.AllSteps (timeStep cs) (fun s e => e.Near cs s) s events)
    (hrun : Transition.exec (timeStep cs) s events = some s') :
    TimeOk s' ∧ ktimeGet cs s ≤ ktimeGet cs s' ∧
      ((∀ e ∈ events, ¬ e.Sets) →
        s.xtime.ns + timekeepingGetNs cs s ≤ s'.xtime.ns + timekeepingGetNs cs s') := by
  induction events generalizing s with
  | nil =>
    obtain rfl := some.inj hrun
    exact ⟨h, le_refl _, fun _ => le_refl _⟩
  | cons e events ih =>
    obtain ⟨s1, hstep, hrest⟩ := Transition.exec_cons_eq_some.mp hrun
    obtain ⟨hok, hktime, hwall⟩ := time_step_ok hhz h hnear.1 hstep
    obtain ⟨hok', hktime', hwall'⟩ := ih hok (hnear.2 s1 hstep) hrest
    refine ⟨hok', hktime.trans hktime', fun hsets => ?_⟩
    obtain ⟨he, hevents⟩ := List.forall_mem_cons.mp hsets
    exact (hwall he).trans (hwall' hevents)

/-- `ktime_get` never goes back, and `getnstimeofday` does not while the time is not set. -/
theorem clocks_never_go_back (counter : Nat) {before events : List Event} (hhz : cs.AtLeastHz)
    (hnow : t.Normal)
    (hbefore : Transition.exec (timeStep cs) (timekeepingInit cs counter t) before = some s)
    (hnearBefore : Transition.AllSteps (timeStep cs) (fun s e => e.Near cs s)
      (timekeepingInit cs counter t) before)
    (hrun : Transition.exec (timeStep cs) s events = some s')
    (hnear : Transition.AllSteps (timeStep cs) (fun s e => e.Near cs s) s events) :
    ktimeGet cs s ≤ ktimeGet cs s' ∧
      ((∀ e ∈ events, ¬ e.Sets) → (getnstimeofday cs s).Le (getnstimeofday cs s')) := by
  obtain ⟨hok, -, -⟩ := run_forward hhz (timekeeping_init_ok cs counter hnow) hnearBefore hbefore
  obtain ⟨-, hktime, hwall⟩ := run_forward hhz hok hnear hrun
  refine ⟨hktime, fun hsets => ?_⟩
  obtain ⟨hnormal, hns⟩ := getnstimeofday_ns cs s
  obtain ⟨hnormal', hns'⟩ := getnstimeofday_ns cs s'
  refine le_of_ns_le hnormal hnormal' ?_
  rw [hns, hns']
  exact hwall hsets

theorem width_64_le : 64 ≤ 64 := le_refl 64

/-- A counter of 4 bits at 1 kHz. -/
def someSource : Clocksource where
  mult := 1000000
  shift := 0
  maskBits := 4
  width := 64
  mult_pos := by decide
  maskBits_le := by decide
  width_le := width_64_le

/-- What it shows 9 ms later, after an update. -/
def someTime : Timekeeper :=
  updateWallTime someSource { timekeepingInit someSource 0 ⟨0, 0⟩ with counter := 9 }

theorem some_clocks_go_on :
    ∃ s, Transition.exec (timeStep someSource) someTime
        [.advance 5, .settimeofday ⟨100, 5⟩, .updateWallTime] = some s ∧
      ktimeGet someSource someTime ≤ ktimeGet someSource s := by
  have hhz : someSource.AtLeastHz := by
    show 1000000 ≤ 1000000000 * 2 ^ 0
    omega
  have hnow : (⟨0, 0⟩ : Timespec).Normal := ⟨le_refl 0, show (0 : Int) < 1000000000 by omega⟩
  have hbefore : Transition.exec (timeStep someSource) (timekeepingInit someSource 0 ⟨0, 0⟩)
      [.advance 9, .updateWallTime] = some someTime := rfl
  have hnearBefore : Transition.AllSteps (timeStep someSource) (fun s e => e.Near someSource s)
      (timekeepingInit someSource 0 ⟨0, 0⟩) [.advance 9, .updateWallTime] := by decide +kernel
  have hnear : Transition.AllSteps (timeStep someSource) (fun s e => e.Near someSource s)
      someTime [.advance 5, .settimeofday ⟨100, 5⟩, .updateWallTime] := by decide +kernel
  exact ⟨_, rfl, (clocks_never_go_back 0 hhz hnow hbefore hnearBefore rfl hnear).1⟩

/-- Each advance is smaller than the mask, but with the cycles that the update leaves the second one
goes over it. -/
theorem cycles_of_update_lost :
    ∃ s s', Transition.exec (timeStep someSource) (timekeepingInit someSource 0 ⟨0, 0⟩)
        [.advance 9, .updateWallTime] = some s ∧
      Transition.exec (timeStep someSource) s [.advance 9] = some s' ∧ 9 < someSource.mask ∧
      ktimeGet someSource s' < ktimeGet someSource s := by
  refine ⟨_, _, rfl, rfl, ?_, ?_⟩
  · decide
  · decide +kernel

end FullhanRtos.Timekeeping
