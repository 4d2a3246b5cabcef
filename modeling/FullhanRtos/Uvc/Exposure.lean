import FullhanRtos.Lib.Transition
import Mathlib.Data.BitVec

/-!
# Manual exposure

`Uvc_SetAEMode` puts the levels of the exposure time and of the gain to their defaults when it
enters the manual mode, and `Uvc_SetExposure` and `Uvc_SetGain` change them there. Either setter
drops a request for the value that it saw last, which it remembers across modes, so the first
request in manual mode is lost when it repeats the last one of an earlier time. `levels_current_iff`
says in which runs the ISP has the levels that were asked for last.
-/

namespace FullhanRtos.UvcExposure

open Transition Function Option

/-! ## State -/

/-- The two levels, each with a setter. -/
inductive AELevel where
  | time
  | gain
  deriving DecidableEq

/-- The arguments of `FHAdv_Isp_SetAEMode`. -/
structure AECall where
  mode : BitVec 32
  inttUs : BitVec 32
  gainLevel : BitVec 32
  deriving DecidableEq

/-- `g_AE_mode`, the levels, `last_time_v` of each setter, the user parameters that are saved, the
count of their changes and the last call of the ISP. -/
structure ExposureState where
  gAEMode : BitVec 32
  gAELevel : AELevel → BitVec 32
  lastTimeV : AELevel → BitVec 32
  gUvcUsparaSave : Nat → BitVec 32
  gUsparaChange : BitVec 32
  isp : Option AECall

def gainDef : BitVec 32 := 0

def userParamGain : Nat := 0

def userParamAEMode : Nat := 11

def userParamExposure : Nat := 12

/-- The loop of `ct_ae_exp_time2level`, with the steps that are left. -/
def timeBits (time : BitVec 32) : Nat → Nat → Nat
  | 0, i => i
  | n + 1, i => if time >>> i = 0 then i else timeBits time n (i + 1)

def ctAeExpTime2level (time : BitVec 32) : BitVec 32 := 15 - BitVec.ofNat 32 (timeBits time 31 0)

/-- The levels that `Uvc_SetAEMode` sets. -/
def AELevel.default : AELevel → BitVec 32
  | .time => 3
  | .gain => gainDef

def AELevel.ofValue : AELevel → BitVec 32 → BitVec 32
  | .time, value => ctAeExpTime2level value
  | .gain, value => value

/-- The user parameter of a level. -/
def AELevel.param : AELevel → Nat
  | .time => userParamExposure
  | .gain => userParamGain

/-! ## Requests -/

/-- The call of the ISP with the mode and the levels, and the change of a user parameter. -/
def ExposureState.apply (s : ExposureState) (param : Nat) (value : BitVec 32) : ExposureState :=
  { s with
    isp := some ⟨s.gAEMode, s.gAELevel .time, s.gAELevel .gain⟩
    gUvcUsparaSave := update s.gUvcUsparaSave param value
    gUsparaChange := s.gUsparaChange + 1 }

def uvcSetAEMode (s : ExposureState) (mode : BitVec 32) : ExposureState :=
  if mode = 4 ∨ mode = 1 then
    if s.gAEMode ≠ 3 then
      { s with gAEMode := 3, gAELevel := AELevel.default }.apply userParamAEMode mode
    else s
  else
    if s.gAEMode ≠ 0 then { s with gAEMode := 0 }.apply userParamAEMode mode else s

def ExposureState.take (s : ExposureState) (level : AELevel) (value : BitVec 32) : ExposureState :=
  { s with
    lastTimeV := update s.lastTimeV level value
    gAELevel := update s.gAELevel level (level.ofValue value) }.apply level.param value

def setLevel (level : AELevel) (s : ExposureState) (value : BitVec 32) : ExposureState :=
  if s.gAEMode = 3 then
    if s.lastTimeV level = value then s else s.take level value
  else s

def uvcSetExposure : ExposureState → BitVec 32 → ExposureState := setLevel .time

def uvcSetGain : ExposureState → BitVec 32 → ExposureState := setLevel .gain

inductive Request where
  | setAEMode (mode : BitVec 32)
  | setExposure (timeValue : BitVec 32)
  | setGain (gainLevel : BitVec 32)

def call (s : ExposureState) : Request → ExposureState
  | .setAEMode mode => uvcSetAEMode s mode
  | .setExposure timeValue => uvcSetExposure s timeValue
  | .setGain gainLevel => uvcSetGain s gainLevel

/-! ## What is asked for -/

/-- Whether manual mode is asked for, and the last value of each level since it is. -/
structure Asked where
  manual : Bool
  value : AELevel → Option (BitVec 32)

def Asked.note (asked : Asked) (level : AELevel) (value : BitVec 32) : Asked where
  manual := asked.manual
  value := update asked.value level (some value)

def Asked.ask (asked : Asked) (level : AELevel) (value : BitVec 32) : Asked :=
  if asked.manual then asked.note level value else asked

def Asked.request (asked : Asked) : Request → Asked
  | .setAEMode mode =>
    if mode = 4 ∨ mode = 1 then if asked.manual then asked else ⟨true, fun _ => none⟩
    else { asked with manual := false }
  | .setExposure timeValue => asked.ask .time timeValue
  | .setGain gainLevel => asked.ask .gain gainLevel

def Asked.level (asked : Asked) (level : AELevel) : BitVec 32 :=
  (asked.value level).elim level.default level.ofValue

/-- The device and what was asked of it. -/
structure Exposure where
  device : ExposureState
  asked : Asked

def exposureStep (s : Exposure) (request : Request) : Option Exposure :=
  some ⟨call s.device request, s.asked.request request⟩

/-- The start in automatic mode, with the user parameters that were loaded. -/
def start (save : Nat → BitVec 32) : Exposure where
  device := ⟨0, fun _ => 0, fun _ => 0, save, 0, none⟩
  asked := ⟨false, fun _ => none⟩

/-- In manual mode the ISP has the levels that were asked for, and their values are saved. -/
def Current (s : Exposure) : Prop :=
  s.device.gAEMode = 3 →
    s.device.isp = some ⟨3, s.asked.level .time, s.asked.level .gain⟩ ∧
      ∀ level value, s.asked.value level = some value →
        s.device.gUvcUsparaSave level.param = value

/-- The first request for a level in manual mode may repeat the value that the setter remembers only
if this has the default level and is the one that is saved. -/
def NotLost (s : Exposure) (level : AELevel) (value : BitVec 32) : Prop :=
  s.device.gAEMode = 3 → s.device.lastTimeV level = value → s.asked.value level = none →
    level.ofValue value = level.default ∧ s.device.gUvcUsparaSave level.param = value

def RequestCond (s : Exposure) : Request → Prop
  | .setAEMode _ => True
  | .setExposure timeValue => NotLost s .time timeValue
  | .setGain gainLevel => NotLost s .gain gainLevel

/-- The device is in the mode that was asked for, the ISP has its levels, and each setter remembers
the last value that was asked for. -/
structure ExposureInv (s : Exposure) : Prop where
  manual : s.asked.manual = true → s.device.gAEMode = 3 ∧
    s.device.isp = some ⟨3, s.device.gAELevel .time, s.device.gAELevel .gain⟩
  auto : s.asked.manual = false → s.device.gAEMode = 0
  remembered : ∀ level value, s.asked.manual = true → s.asked.value level = some value →
    s.device.lastTimeV level = value

variable {s s' : Exposure} {level level' : AELevel} {value : BitVec 32}

/-! ## Levels -/

/-! ## One request -/

theorem param_injective : Function.Injective AELevel.param := by
  intro level level' hparam
  cases level <;> cases level' <;> first | rfl | cases hparam

theorem value_note_self (asked : Asked) (level : AELevel) (value : BitVec 32) :
    (asked.note level value).value level = some value :=
  update_self _ _ _

theorem value_note_of_ne (hne : level' ≠ level) (asked : Asked) (value : BitVec 32) :
    (asked.note level value).value level' = asked.value level' :=
  update_of_ne hne _ _

theorem level_note_self (asked : Asked) (level : AELevel) (value : BitVec 32) :
    (asked.note level value).level level = level.ofValue value := by
  rw [Asked.level, value_note_self]
  rfl

theorem level_note_of_ne (hne : level' ≠ level) (asked : Asked) (value : BitVec 32) :
    (asked.note level value).level level' = asked.level level' := by
  rw [Asked.level, value_note_of_ne hne, Asked.level]

section

variable (hinv : ExposureInv s)

include hinv

/-- In manual mode the ISP is current when each level is the one that was asked for and its value is
saved. -/
theorem current_iff (hmanual : s.asked.manual = true) :
    Current s ↔ ∀ level, s.device.gAELevel level = s.asked.level level ∧
      ∀ value, s.asked.value level = some value → s.device.gUvcUsparaSave level.param = value := by
  obtain ⟨hmode, hisp⟩ := hinv.manual hmanual
  constructor
  · intro hcurrent
    obtain ⟨hlevels, hsaved⟩ := hcurrent hmode
    have hcall := some.inj (hisp.symm.trans hlevels)
    intro level
    cases level with
    | time => exact ⟨congrArg AECall.inttUs hcall, hsaved .time⟩
    | gain => exact ⟨congrArg AECall.gainLevel hcall, hsaved .gain⟩
  · intro hlevels _
    refine ⟨?_, fun level => (hlevels level).2⟩
    rw [hisp, (hlevels .time).1, (hlevels .gain).1]

/-- In automatic mode nothing is asked of the levels. -/
theorem current_of_auto (hauto : s.asked.manual = false) : Current s := by
  intro hmode
  rw [hinv.auto hauto] at hmode
  cases hmode

theorem set_mode_ok (hcurrent : Current s) (mode : BitVec 32) :
    ExposureInv ⟨uvcSetAEMode s.device mode, s.asked.request (.setAEMode mode)⟩ ∧
      Current ⟨uvcSetAEMode s.device mode, s.asked.request (.setAEMode mode)⟩ := by
  have hthree : (3 : BitVec 32) ≠ 0 := by decide
  unfold uvcSetAEMode Asked.request
  dsimp only
  by_cases hentry : mode = 4 ∨ mode = 1
  · rw [if_pos hentry, if_pos hentry]
    cases hmanual : s.asked.manual with
    | true =>
      rw [if_neg fun hne => hne (hinv.manual hmanual).1, if_pos rfl]
      exact ⟨hinv, hcurrent⟩
    | false =>
      have hmode : s.device.gAEMode ≠ 3 := by
        rw [hinv.auto hmanual]
        exact hthree.symm
      rw [if_pos hmode, if_neg Bool.false_ne_true]
      exact ⟨⟨fun _ => ⟨rfl, rfl⟩, nofun, nofun⟩, fun _ => ⟨rfl, nofun⟩⟩
  · rw [if_neg hentry, if_neg hentry]
    have hinv' : ∀ device : ExposureState, device.gAEMode = 0 →
        ExposureInv ⟨device, { s.asked with manual := false }⟩ :=
      fun device hzero => ⟨nofun, fun _ => hzero, nofun⟩
    by_cases hmode : s.device.gAEMode = 0
    · rw [if_neg fun hne => hne hmode]
      exact ⟨hinv' _ hmode, current_of_auto (hinv' _ hmode) rfl⟩
    · rw [if_pos hmode]
      exact ⟨hinv' _ rfl, current_of_auto (hinv' _ rfl) rfl⟩

/-- A request that the setter drops: the ISP stays current when an earlier request in manual mode or
the default has the level. -/
theorem drop_iff (hcurrent : Current s) (hmanual : s.asked.manual = true)
    (hlast : s.device.lastTimeV level = value) :
    ExposureInv ⟨s.device, s.asked.note level value⟩ ∧
      (Current ⟨s.device, s.asked.note level value⟩ ↔ NotLost s level value) := by
  obtain ⟨hmode, hisp⟩ := hinv.manual hmanual
  have hlevels := (current_iff hinv hmanual).mp hcurrent
  have hinv' : ExposureInv ⟨s.device, s.asked.note level value⟩ := by
    refine ⟨fun _ => ⟨hmode, hisp⟩, fun hauto => absurd (hmanual.symm.trans hauto) nofun, ?_⟩
    intro level' value' _ hvalue
    by_cases heq : level' = level
    · subst heq
      exact hlast.trans (some.inj ((value_note_self _ _ _).symm.trans hvalue))
    · exact hinv.remembered level' value' hmanual ((value_note_of_ne heq _ _).symm.trans hvalue)
  refine ⟨hinv', (current_iff hinv' hmanual).trans ?_⟩
  constructor
  · intro hnow _ _ hnone
    obtain ⟨hlevel, hsaved⟩ := hnow level
    have hdefault := (hlevels level).1
    rw [level_note_self] at hlevel
    rw [Asked.level, hnone] at hdefault
    exact ⟨hlevel.symm.trans hdefault, hsaved value (value_note_self _ _ _)⟩
  · intro hkept level'
    by_cases heq : level' = level
    · subst heq
      have hlevel : s.device.gAELevel level' = level'.ofValue value ∧
          s.device.gUvcUsparaSave level'.param = value := by
        cases hvalue : s.asked.value level' with
        | none =>
          obtain ⟨hdefault, hsaved⟩ := hkept hmode hlast hvalue
          have hlevel := (hlevels level').1
          rw [Asked.level, hvalue] at hlevel
          exact ⟨hlevel.trans hdefault.symm, hsaved⟩
        | some value' =>
          have hsame : value' = value :=
            (hinv.remembered level' value' hmanual hvalue).symm.trans hlast
          obtain ⟨hlevel, hsaved⟩ := hlevels level'
          rw [Asked.level, hvalue, hsame] at hlevel
          exact ⟨hlevel, (hsaved value' hvalue).trans hsame⟩
      refine ⟨hlevel.1.trans (level_note_self _ _ _).symm, fun value' hvalue => ?_⟩
      exact hlevel.2.trans (some.inj ((value_note_self _ _ _).symm.trans hvalue))
    · refine ⟨(hlevels level').1.trans (level_note_of_ne heq _ _).symm, fun value' hvalue => ?_⟩
      exact (hlevels level').2 value' ((value_note_of_ne heq _ _).symm.trans hvalue)

theorem take_ok (hcurrent : Current s) (hmanual : s.asked.manual = true) (level : AELevel)
    (value : BitVec 32) :
    ExposureInv ⟨s.device.take level value, s.asked.note level value⟩ ∧
      Current ⟨s.device.take level value, s.asked.note level value⟩ := by
  obtain ⟨hmode, -⟩ := hinv.manual hmanual
  have hlevels := (current_iff hinv hmanual).mp hcurrent
  have hinv' : ExposureInv ⟨s.device.take level value, s.asked.note level value⟩ := by
    refine ⟨fun _ => ⟨hmode, ?_⟩, fun hauto => absurd (hmanual.symm.trans hauto) nofun, ?_⟩
    · show some (AECall.mk s.device.gAEMode _ _) = _
      rw [hmode]
      rfl
    · intro level' value' _ hvalue
      show update s.device.lastTimeV level value level' = value'
      by_cases heq : level' = level
      · subst heq
        rw [update_self]
        exact some.inj ((value_note_self _ _ _).symm.trans hvalue)
      · rw [update_of_ne heq]
        exact hinv.remembered level' value' hmanual ((value_note_of_ne heq _ _).symm.trans hvalue)
  refine ⟨hinv', (current_iff hinv' hmanual).mpr fun level' => ?_⟩
  show update s.device.gAELevel level (level.ofValue value) level' =
      (s.asked.note level value).level level' ∧
    ∀ value', (s.asked.note level value).value level' = some value' →
      update s.device.gUvcUsparaSave level.param value level'.param = value'
  by_cases heq : level' = level
  · subst heq
    rw [update_self, update_self, level_note_self, value_note_self]
    exact ⟨rfl, fun value' hvalue => some.inj hvalue⟩
  · rw [update_of_ne heq, update_of_ne (param_injective.ne heq),
      level_note_of_ne heq, value_note_of_ne heq]
    exact hlevels level'

theorem set_level_iff (hcurrent : Current s) (level : AELevel) (value : BitVec 32) :
    ExposureInv ⟨setLevel level s.device value, s.asked.ask level value⟩ ∧
      (Current ⟨setLevel level s.device value, s.asked.ask level value⟩ ↔
        NotLost s level value) := by
  unfold setLevel Asked.ask
  by_cases hmanual : s.asked.manual = true
  · rw [if_pos (hinv.manual hmanual).1, if_pos hmanual]
    by_cases hlast : s.device.lastTimeV level = value
    · rw [if_pos hlast]
      exact drop_iff hinv hcurrent hmanual hlast
    · rw [if_neg hlast]
      obtain ⟨hinv', hcurrent'⟩ := take_ok hinv hcurrent hmanual level value
      exact ⟨hinv', fun _ _ heq => absurd heq hlast, fun _ => hcurrent'⟩
  · have hmode : s.device.gAEMode ≠ 3 := by
      rw [hinv.auto (Bool.eq_false_iff.mpr hmanual)]
      decide
    rw [if_neg hmode, if_neg hmanual]
    exact ⟨hinv, fun _ hthree => absurd hthree hmode, fun _ => hcurrent⟩

end

/-! ## Runs -/

theorem request_iff (request : Request) (hinv : ExposureInv s) (hcurrent : Current s)
    (hstep : exposureStep s request = some s') :
    ExposureInv s' ∧ (Current s' ↔ RequestCond s request) := by
  obtain rfl := some.inj hstep
  cases request with
  | setAEMode mode =>
    obtain ⟨hinv', hcurrent'⟩ := set_mode_ok hinv hcurrent mode
    exact ⟨hinv', fun _ => trivial, fun _ => hcurrent'⟩
  | setExposure timeValue => exact set_level_iff hinv hcurrent .time timeValue
  | setGain gainLevel => exact set_level_iff hinv hcurrent .gain gainLevel

/-- The levels are current in every state of a run exactly if none of its requests is lost. -/
theorem levels_current_iff (save : Nat → BitVec 32) (requests : List Request) :
    Always exposureStep Current (start save) requests ↔
      AllSteps exposureStep RequestCond (start save) requests := by
  have hinit : ExposureInv (start save) := ⟨nofun, fun _ => rfl, nofun⟩
  obtain ⟨s', hrun, -⟩ := exec_progress (I := fun _ => True) (C := fun _ _ => True)
    (fun s request _ _ => ⟨_, rfl, trivial⟩) trivial
    (all_steps_of_forall (fun _ _ => trivial) (start save) requests)
  exact always_iff (A := fun _ => True)
    (fun s request s' _ hinv hcurrent hstep => request_iff request hinv hcurrent hstep)
    (fun _ _ => trivial) hinit (current_of_auto hinit rfl) hrun

/-- An exposure of 100 is set, and again after a time in automatic mode, where the level stays at
its default. -/
theorem exposure_lost :
    ¬ Always exposureStep Current (start fun _ => 0)
      [.setAEMode 1, .setExposure 100, .setAEMode 2, .setAEMode 1, .setExposure 100] := by
  intro halways
  have hlast := halways.last rfl
  exact absurd (hlast rfl).1 (by decide)

end FullhanRtos.UvcExposure
