import FullhanRtos.Uvc.Requests

/-!
# The thread that applies controls

A `SET_CUR` that is accepted stores the value in the control table and posts a message to
`g_uvc_event_mq`, which holds eight. `uvc_event_proc` of `drivers/usb/device/class/uvc_init.c`
takes the messages and calls the function that the application registered for the control, with the
value in the message or with the one in the table.

`callbacks_current` says for which runs every control that was set has reached its function with
the value that `GET_CUR` reports, when the queue is empty and the thread waits.
-/

namespace FullhanRtos.Uvc

open Transition Function List Option Int

/-! ## Data -/

/-- The control whose value a message is about. -/
def EventFunc.name : EventFunc → ControlName
  | .setAeMode => .ct Ct.aeModeControl
  | .setExposure => .ct Ct.exposureTimeAbsoluteControl
  | .setGain => .pu Pu.gainControl
  | .setBrightness => .pu Pu.brightnessControl
  | .setContrast => .pu Pu.contrastControl
  | .setSaturation => .pu Pu.saturationControl
  | .setSharpeness => .pu Pu.sharpnessControl
  | .setAwbGain => .pu Pu.whiteBalanceTemperatureControl
  | .setAwbMode => .pu Pu.whiteBalanceTemperatureAutoControl
  | .setGammaCfg => .pu Pu.gammaControl
  | .setBacklight => .pu Pu.backlightCompensationControl
  | .hueAuto => .pu Pu.hueAutoControl
  | .hueGain => .pu Pu.hueControl
  | .powerLine => .pu Pu.powerLineFrequencyControl
  | .aePriority => .ct Ct.aePriorityControl
  | .focusMode => .ct Ct.focusAutoControl
  | .focusAbs => .ct Ct.focusAbsoluteControl
  | .zoomAbs => .ct Ct.zoomAbsoluteControl
  | .panTiltAbs => .ct Ct.pantiltAbsoluteControl
  | .rollAbs => .ct Ct.rollAbsoluteControl
  | .setIris => .ct Ct.irisAbsoluteControl

/-- A message: of a control, or another one. -/
inductive Message where
  | ctrl (event : CtrlEvent)
  | other

/-- Where `uvc_event_proc` is: at `rt_mq_recv`, with a message, or at the call of a function with
its arguments. -/
inductive EventPhase where
  | waiting
  | received (message : Message)
  | calling (func : EventFunc) (args : List Int)

/-- The control tables, the queue and the thread, which controls were set, and what each function
was called with last. -/
structure EventState where
  values : ControlValues
  queue : List Message
  phase : EventPhase
  wasSet : ControlName → Bool
  passed : EventFunc → Option (List Int)

/-- The number of messages in `uvc_mq_pool`. -/
def uvcMqSize : Nat := 8

/-! ## The functions -/

/-- The truth of a C expression. -/
def truth (value : Int) : Int := if value = 0 then 0 else 1

/-- The arguments with which `uvc_event_proc` calls the function of a message. Those of pan and
tilt are truth values, from `&&` with `0xff`. -/
def eventArgs (values : ControlValues) (event : CtrlEvent) : List Int :=
  match event.funcNum with
  | .setAeMode | .setAwbMode | .hueAuto | .powerLine | .aePriority | .focusMode => [event.parm1]
  | .setExposure => [values.ct Ct.exposureTimeAbsoluteControl]
  | .setIris => [values.ct Ct.irisAbsoluteControl]
  | .setGain => [values.pu Pu.gainControl]
  | .setBrightness => [values.pu Pu.brightnessControl]
  | .setContrast => [values.pu Pu.contrastControl]
  | .setSaturation => [values.pu Pu.saturationControl]
  | .setSharpeness => [values.pu Pu.sharpnessControl]
  | .setGammaCfg => [values.pu Pu.gammaControl]
  | .setAwbGain => [values.pu Pu.whiteBalanceTemperatureControl]
  | .setBacklight => [values.pu Pu.backlightCompensationControl]
  | .hueGain => [values.pu Pu.hueControl]
  | .focusAbs => [values.ct Ct.focusAbsoluteControl]
  | .zoomAbs => [values.ct Ct.zoomAbsoluteControl]
  | .panTiltAbs =>
    let cur := values.ct Ct.pantiltAbsoluteControl
    [truth cur, truth (cur / 256)]
  | .rollAbs => [values.ct Ct.rollAbsoluteControl]

def controlOps : ControlName → Option ControlOps
  | .ct cs => uvcControlCt[cs]?
  | .pu cs => uvcControlPu[cs]?

def getCur (values : ControlValues) (name : ControlName) : List Byte :=
  match controlOps name with
  | some ops =>
    match ops.handler with
    | some handler => (handler.fsetup (values.get name)).take ops.len
    | none => []
  | none => []

/-- The value that `GET_CUR` reports: two signed words in seconds of arc for pan and tilt, and the
number in the bytes for other controls. -/
def reported (values : ControlValues) (name : ControlName) : List Int :=
  let bytes := getCur values name
  if name = .ct Ct.pantiltAbsoluteControl then
    [toInt32 (leNat bytes 4) / 3600, toInt32 (leNat (bytes.drop 4) 4) / 3600]
  else [(leNat bytes bytes.length : Int)]

def setCurAccepted (config : RequestConfig) (values : ControlValues) (name : ControlName)
    (data : List Byte) : Bool :=
  match name with
  | .ct cs => uvcCameraTerminalSupported config cs && ctDisabled values uvcSetCur cs ≠ some true &&
      uvcControlCt[cs]?.any fun ops => data.length = ops.len && !ctRefuses ops cs data
  | .pu cs => uvcProcessingUnitSupported config cs &&
      uvcControlPu[cs]?.any fun ops => data.length = ops.len && puRefuses values ops cs data = none

def controlData (values : ControlValues) (name : ControlName) (data : List Byte) :
    Option DataStage :=
  match name with
  | .ct cs => uvcCameraTerminalData values cs data
  | .pu cs => uvcProcessingUnitData values cs data

/-- `rt_mq_send`, which fails when the queue is full. -/
def send (queue : List Message) (message : Message) : List Message :=
  if queue.length < uvcMqSize then queue ++ [message] else queue

/-- A step of `uvc_event_proc`: receive a message, work out the arguments of the function if there
is one, and call it. -/
def uvcEventProc (registered : EventFunc → Bool) (state : EventState) : EventState :=
  match state.phase with
  | .waiting =>
    match state.queue with
    | [] => state
    | message :: queue => { state with queue, phase := .received message }
  | .received (.ctrl event) =>
    if registered event.funcNum then
      { state with phase := .calling event.funcNum (eventArgs state.values event) }
    else { state with phase := .waiting }
  | .received .other => { state with phase := .waiting }
  | .calling func args =>
    { state with
      passed := update state.passed func (some args)
      phase := .waiting }

/-- A `SET_CUR` with its data, a step of the thread, and another message. -/
inductive ControlEvent where
  | setCur (name : ControlName) (data : List Byte)
  | thread
  | post

def eventStep (config : RequestConfig) (registered : EventFunc → Bool) (state : EventState) :
    ControlEvent → Option EventState
  | .setCur name data =>
    if setCurAccepted config state.values name data then
      (controlData state.values name data).map fun stage =>
        { state with
          values := stage.values
          queue := stage.event.elim state.queue fun event => send state.queue (.ctrl event)
          wasSet := update state.wasSet name true }
    else some state
  | .thread => some (uvcEventProc registered state)
  | .post => some { state with queue := send state.queue .other }

/-- Before the first request. -/
def eventStart (values : ControlValues) : EventState where
  values := values
  queue := []
  phase := .waiting
  wasSet := fun _ => false
  passed := fun _ => none

/-! ## What holds -/

/-- When the queue is empty and the thread waits, the function of every control that was set was
called with the value that `GET_CUR` reports. -/
def Current (registered : EventFunc → Bool) (state : EventState) : Prop :=
  state.queue = [] → state.phase = .waiting → ∀ func, registered func = true →
    state.wasSet func.name = true → state.passed func = some (reported state.values func.name)

def EventFunc.readsTable : EventFunc → Bool
  | .setAeMode | .setAwbMode | .hueAuto | .powerLine | .aePriority | .focusMode => false
  | _ => true

/-- The messages that the thread has not looked at yet. -/
def EventState.pending (state : EventState) : List Message :=
  match state.phase with
  | .received message => message :: state.queue
  | _ => state.queue

def Message.isOf (func : EventFunc) : Message → Bool
  | .ctrl event => event.funcNum = func
  | .other => false

def controlSetter (name : ControlName) : Option ControlSetter :=
  (controlOps name).bind fun ops => ops.handler.bind ControlHandler.fdata

/-- A `SET_CUR` that a registered function is to learn of: an exposure mode that is set already was
set by a request, and otherwise there is room for the message, or the thread still has one of this
control to look at and will read the table. Pan and tilt are 0 and 0, 1 and 0, or 1 and 1. -/
def EventSuits (config : RequestConfig) (registered : EventFunc → Bool) (state : EventState) :
    ControlEvent → Prop
  | .setCur name data => setCurAccepted config state.values name data = true →
      ∀ setter ∈ controlSetter name, registered setter.funcNum = true →
        (if setter.ignoresRepeat = true ∧ setter.value data = state.values.get name then
          state.wasSet name = true
        else
          state.queue.length < uvcMqSize ∨
            (setter.funcNum.readsTable = true ∧
              state.pending.any (Message.isOf setter.funcNum) = true)) ∧
        (setter.funcNum = .panTiltAbs →
          setter.value data = 0 ∨ setter.value data = 1 ∨ setter.value data = 0x101)
  | _ => True

/-! ## What the controls store and report -/

structure Takes (values : ControlValues) (name : ControlName) (ops : ControlOps)
    (data : List Byte) : Prop where
  length : data.length = ops.len
  allowed : match name with
    | .ct cs => ctRefuses ops cs data = false
    | .pu cs => puRefuses values ops cs data = none

/-- A control that reports the number that `fdata` reads from the data, and takes it as the
parameter of the message. -/
structure Plain (func : EventFunc) (ops : ControlOps) (handler : ControlHandler)
    (setter : ControlSetter) : Prop where
  entry : controlOps func.name = some ops
  functions : ops.handler = some handler
  stores : handler.fdata = some setter
  sends : setter.funcNum = func
  parm1 : setter.parm1 = setter.value
  bytes : ∃ n, ops.len ≤ n ∧ handler.fsetup = leBytes n
  range : ∀ values data, Takes values func.name ops data →
    0 ≤ setter.value data ∧ setter.value data < 256 ^ ops.len

theorem number_range (value : Int) {k n : Nat} (hnonneg : 0 ≤ value) (hlt : value < 256 ^ k)
    (hkn : k ≤ n) : 0 ≤ value ∧ value < 256 ^ n :=
  ⟨hnonneg, lt_of_lt_of_le hlt (by exact_mod_cast Nat.pow_le_pow_right (by decide) hkn)⟩

theorem uchar_range (data : List Byte) {n : Nat} (hn : 0 < n) :
    0 ≤ ucharData data ∧ ucharData data < 256 ^ n := by
  have hbyte := byte_at_lt data 0
  refine number_range (ucharData data) ?_ ?_ hn
  · exact natCast_nonneg _
  · rw [ucharData]
    omega

theorem ushort_range (data : List Byte) {n : Nat} (hn : 2 ≤ n) :
    0 ≤ ushortData data ∧ ushortData data < 256 ^ n := by
  have hlt := le_nat_lt data 2
  refine number_range (ushortData data) ?_ ?_ hn
  · exact natCast_nonneg _
  · rw [ushortData]
    omega

/-- A number that is not negative and not large is its own `int`. -/
theorem to_int32_eq {n : Nat} (h : n < 2 ^ 31) : toInt32 n = n := by
  exact bmod_eq_of_le_mul_two (by omega) (by omega)

theorem to_int16_eq {n : Nat} (h : n < 2 ^ 15) : toInt16 n = n := by
  exact bmod_eq_of_le_mul_two (by omega) (by omega)

theorem Takes.within {values : ControlValues} {name : ControlName} {ops : ControlOps}
    {data : List Byte} (h : Takes values name ops data)
    (hname : name ≠ .ct Ct.pantiltAbsoluteControl) :
    ops.min ≤ dataValue data ∧ dataValue data ≤ ops.max := by
  cases name with
  | ct cs =>
    have hallowed : ctRefuses ops cs data = false := h.allowed
    have hcs : cs ≠ Ct.pantiltAbsoluteControl := fun hcs => hname (hcs ▸ rfl)
    simp only [ctRefuses, if_neg hcs, Bool.or_eq_false_iff, decide_eq_false_iff_not] at hallowed
    omega
  | pu cs =>
    have hallowed : puRefuses values ops cs data = none := h.allowed
    unfold puRefuses at hallowed
    split at hallowed
    · exact absurd hallowed (some_ne_none _)
    · omega

theorem Takes.int_data {values : ControlValues} {name : ControlName} {ops : ControlOps}
    {data : List Byte} (h : Takes values name ops data)
    (hname : name ≠ .ct Ct.pantiltAbsoluteControl) (hlen : ops.len ≤ 4) :
    ops.min ≤ intData data ∧ intData data ≤ ops.max := by
  have hwithin := h.within hname
  have hle : data.length ≤ 4 := le_of_eq_of_le h.length hlen
  have hvalue : dataValue data = intData data := by
    rw [dataValue, Nat.min_eq_left hle, intData, le_nat_of_length rfl hle]
  rwa [hvalue] at hwithin

theorem plain_control (func : EventFunc) (hfunc : func ≠ .panTiltAbs) :
    ∃ ops handler setter, Plain func ops handler setter := by
  cases func with
  | panTiltAbs => exact absurd rfl hfunc
  | setExposure =>
    refine ⟨_, _, _, rfl, rfl, rfl, rfl, rfl, ⟨4, le_rfl, rfl⟩, fun values data h => ?_⟩
    have hwithin : 3 ≤ intData data ∧ intData data ≤ 1047 := h.int_data nofun le_rfl
    have hlt : intData data < 256 ^ 2 := by omega
    dsimp only
    exact number_range (intData data) (by omega) hlt (Nat.le_add_left 2 2)
  | setAwbGain =>
    refine ⟨_, _, _, rfl, rfl, rfl, rfl, rfl, ⟨4, Nat.le_add_left 2 2, rfl⟩,
      fun values data h => ?_⟩
    have hwithin : 2000 ≤ intData data ∧ intData data ≤ 7500 :=
      h.int_data nofun (Nat.le_add_left 2 2)
    have hlt : intData data < 256 ^ 2 := by omega
    dsimp only
    exact number_range (intData data) (by omega) hlt le_rfl
  | rollAbs =>
    refine ⟨_, _, _, rfl, rfl, rfl, rfl, rfl, ⟨2, le_rfl, rfl⟩, fun values data h => ?_⟩
    have hlength : data.length = 2 := h.length
    have hwithin : -180 ≤ dataValue data ∧ dataValue data ≤ 180 := h.within (by decide)
    have hlt := le_nat_lt data 2
    rw [dataValue, hlength, Nat.min_eq_left (Nat.le_add_left 2 2),
      to_int32_eq (lt_trans hlt (by decide))] at hwithin
    have hshort : shortData data = leNat data 2 := to_int16_eq (by omega)
    have hsmall : shortData data < 256 ^ 2 := by omega
    dsimp only
    exact number_range (shortData data) (by omega) hsmall le_rfl
  | setGain | focusAbs =>
    refine ⟨_, _, _, rfl, rfl, rfl, rfl, rfl, ⟨2, le_rfl, rfl⟩, fun _ data _ => ?_⟩
    exact ushort_range data le_rfl
  | zoomAbs =>
    refine ⟨_, _, _, rfl, rfl, rfl, rfl, rfl, ⟨4, Nat.le_add_left 2 2, rfl⟩, fun _ data _ => ?_⟩
    exact ushort_range data le_rfl
  | _ =>
    refine ⟨_, _, _, rfl, rfl, rfl, rfl, rfl, ⟨_, le_rfl, rfl⟩, fun _ data _ => ?_⟩
    exact uchar_range data (Nat.succ_pos _)

theorem setter_name {name : ControlName} {setter : ControlSetter}
    (hsetter : controlSetter name = some setter) : setter.funcNum.name = name := by
  have htable (table : List ControlOps) (named : Nat → ControlName)
      (hall : (table.zipIdx.all fun entry => entry.1.handler.all fun handler =>
        handler.fdata.all fun setter => setter.funcNum.name = named entry.2) = true)
      {cs : Nat} (h : (table[cs]?.bind fun ops => ops.handler.bind ControlHandler.fdata) =
        some setter) : setter.funcNum.name = named cs := by
    obtain ⟨ops, hops, h⟩ := bind_eq_some_iff.mp h
    obtain ⟨handler, hhandler, hfdata⟩ := bind_eq_some_iff.mp h
    have hentry := List.all_eq_true.mp hall (ops, cs) (mk_mem_zipIdx_iff_getElem?.mpr hops)
    rw [hhandler, all_some, hfdata, all_some] at hentry
    exact of_decide_eq_true hentry
  cases name with
  | ct cs => exact htable uvcControlCt .ct (by decide) hsetter
  | pu cs => exact htable uvcControlPu .pu (by decide) hsetter

theorem setter_of (func : EventFunc) :
    ∃ setter, controlSetter func.name = some setter ∧ setter.funcNum = func := by
  cases func <;> exact ⟨_, rfl, rfl⟩

theorem name_injective {func func' : EventFunc} (h : func.name = func'.name) : func = func' := by
  obtain ⟨setter, hsetter, hfunc⟩ := setter_of func
  obtain ⟨setter', hsetter', hfunc'⟩ := setter_of func'
  rw [h, hsetter'] at hsetter
  rw [← hfunc, ← hfunc', some.inj hsetter]

/-! ## What the functions are called with -/

/-- The arguments of a function, from the value in the table and the one in the message. -/
def argsOf (func : EventFunc) (cur parm1 : Int) : List Int :=
  if func = .panTiltAbs then [truth cur, truth (cur / 256)]
  else [if func.readsTable then cur else parm1]

theorem event_args_eq (values : ControlValues) (event : CtrlEvent) :
    eventArgs values event = argsOf event.funcNum (values.get event.funcNum.name) event.parm1 := by
  obtain ⟨func, parm1⟩ := event
  cases func <;> rfl

theorem args_of_reads {func : EventFunc} (hreads : func.readsTable = true)
    (cur parm1 parm1' : Int) : argsOf func cur parm1 = argsOf func cur parm1' := by
  unfold argsOf
  rw [if_pos hreads, if_pos hreads]

theorem reported_congr {values values' : ControlValues} {name : ControlName}
    (h : values.get name = values'.get name) : reported values name = reported values' name := by
  unfold reported getCur
  rw [h]

theorem reported_plain {func : EventFunc} {ops : ControlOps} {handler : ControlHandler}
    {setter : ControlSetter} {values : ControlValues} (hplain : Plain func ops handler setter)
    (hfunc : func ≠ .panTiltAbs)
    (hrange : 0 ≤ values.get func.name ∧ values.get func.name < 256 ^ ops.len) :
    reported values func.name = [values.get func.name] := by
  obtain ⟨n, hn, hbytes⟩ := hplain.bytes
  obtain ⟨value, hvalue⟩ := eq_ofNat_of_zero_le hrange.1
  have hlt : value < 256 ^ ops.len := by
    have h := hvalue ▸ hrange.2
    exact_mod_cast h
  have hname : func.name ≠ .ct Ct.pantiltAbsoluteControl := fun h =>
    hfunc (name_injective h)
  have hlength : ((leBytes n value).take ops.len).length = ops.len := by
    rw [length_take, leBytes, length_map, length_range, Nat.min_eq_left hn]
  have hcur : getCur values func.name = (leBytes n value).take ops.len := by
    rw [getCur, hplain.entry]
    dsimp only
    rw [hplain.functions]
    dsimp only
    rw [hbytes, hvalue]
  unfold reported
  rw [if_neg hname, hcur, hlength, le_nat_take le_rfl, le_nat_bytes value hn,
    Nat.mod_eq_of_lt hlt, hvalue]

theorem args_reported {values values' : ControlValues} {setter : ControlSetter} {ops : ControlOps}
    {data : List Byte} {func : EventFunc} (hsetter : controlSetter func.name = some setter)
    (hops : controlOps func.name = some ops) (htakes : Takes values func.name ops data)
    (hvalue : values'.get func.name = setter.value data)
    (hpan : func = .panTiltAbs →
      setter.value data = 0 ∨ setter.value data = 1 ∨ setter.value data = 0x101) :
    argsOf func (setter.value data) (setter.parm1 data) = reported values' func.name := by
  by_cases hfunc : func = .panTiltAbs
  · have hreported (value : Int) (hcur : values'.get func.name = value) :
        reported values' func.name =
          [toInt32 (leNat ((pantilt2Buf value).take 8) 4) / 3600,
            toInt32 (leNat (((pantilt2Buf value).take 8).drop 4) 4) / 3600] := by
      subst hfunc
      unfold reported getCur
      rw [hcur]
      rfl
    rw [hreported _ hvalue, argsOf, if_pos hfunc]
    obtain h | h | h := hpan hfunc
    all_goals
      rw [h]
      decide
  · obtain ⟨ops', handler, setter', hplain⟩ := plain_control func hfunc
    obtain rfl : ops' = ops := some.inj (hplain.entry.symm.trans hops)
    obtain rfl : setter' = setter := by
      rw [controlSetter, hplain.entry, bind_some, hplain.functions, bind_some,
        hplain.stores] at hsetter
      exact some.inj hsetter
    have hrange := hplain.range values data htakes
    rw [reported_plain hplain hfunc (hvalue ▸ hrange), hvalue, argsOf, if_neg hfunc,
      hplain.parm1, ite_self]

/-! ## The data stage of a control -/

/-- What an accepted `SET_CUR` does: nothing where `fdata` only prints or the mode is set already,
or it stores the value and posts a message. -/
inductive Stored (values : ControlValues) (name : ControlName) (data : List Byte) :
    DataStage → Prop where
  | printed (hnone : controlSetter name = none) : Stored values name data ⟨values, none, none⟩
  | ignored (setter : ControlSetter) (hsetter : controlSetter name = some setter)
      (hrepeat : setter.ignoresRepeat = true ∧ setter.value data = values.get name) :
      Stored values name data ⟨values, none, none⟩
  | stored (setter : ControlSetter) (values' : ControlValues)
      (hsetter : controlSetter name = some setter)
      (hnew : ¬ (setter.ignoresRepeat = true ∧ setter.value data = values.get name))
      (hget : ∀ name', values'.get name' =
        if name' = name then setter.value data else values.get name') :
      Stored values name data ⟨values', none, some ⟨setter.funcNum, setter.parm1 data⟩⟩

section

variable {values : ControlValues} {data : List Byte} {ops : ControlOps} {handler : ControlHandler}
  {cs : Nat}

theorem ct_stored (hops : uvcControlCt[cs]? = some ops) (hhandler : ops.handler = some handler) :
    Stored values (.ct cs) data
      ⟨{ values with ct := (handler.store data values.ct).1 }, none,
        (handler.store data values.ct).2⟩ := by
  have hsetter : controlSetter (.ct cs) = handler.fdata := by
    rw [controlSetter, controlOps, hops, bind_some, hhandler, bind_some]
  unfold ControlHandler.store
  cases hfdata : handler.fdata with
  | none => exact .printed (hsetter.trans hfdata)
  | some setter =>
    have hcs : setter.cs = cs := (ct_entry hops).own handler hhandler setter hfdata
    dsimp only
    unfold ControlSetter.store
    rw [hcs]
    by_cases hrepeat : setter.ignoresRepeat = true ∧ setter.value data = values.ct cs
    · rw [if_pos hrepeat]
      exact .ignored setter (hsetter.trans hfdata) hrepeat
    · rw [if_neg hrepeat]
      refine .stored setter _ (hsetter.trans hfdata) hrepeat ?_
      rintro (i | i)
      · simp only [ControlValues.get, update_apply, ControlName.ct.injEq]
      · rfl

theorem pu_stored (hops : uvcControlPu[cs]? = some ops) (hhandler : ops.handler = some handler) :
    Stored values (.pu cs) data
      ⟨{ values with pu := (handler.store data values.pu).1 }, none,
        (handler.store data values.pu).2⟩ := by
  have hsetter : controlSetter (.pu cs) = handler.fdata := by
    rw [controlSetter, controlOps, hops, bind_some, hhandler, bind_some]
  unfold ControlHandler.store
  cases hfdata : handler.fdata with
  | none => exact .printed (hsetter.trans hfdata)
  | some setter =>
    have hcs : setter.cs = cs := (pu_entry hops).own handler hhandler setter hfdata
    dsimp only
    unfold ControlSetter.store
    rw [hcs]
    by_cases hrepeat : setter.ignoresRepeat = true ∧ setter.value data = values.pu cs
    · rw [if_pos hrepeat]
      exact .ignored setter (hsetter.trans hfdata) hrepeat
    · rw [if_neg hrepeat]
      refine .stored setter _ (hsetter.trans hfdata) hrepeat ?_
      rintro (i | i)
      · rfl
      · simp only [ControlValues.get, update_apply, ControlName.pu.injEq]

theorem accepted_stored {config : RequestConfig} {name : ControlName}
    (haccepted : setCurAccepted config values name data = true) :
    (∃ stage, controlData values name data = some stage ∧ Stored values name data stage) ∧
      ∃ ops, controlOps name = some ops ∧ Takes values name ops data := by
  cases name with
  | ct cs =>
    simp only [setCurAccepted, Bool.and_eq_true] at haccepted
    obtain ⟨⟨hsupported, -⟩, hall⟩ := haccepted
    obtain ⟨ops, hops, hhandler⟩ := ct_supported hsupported
    obtain ⟨handler, hhandler⟩ := isSome_iff_exists.mp hhandler
    rw [hops, any_some, Bool.and_eq_true, decide_eq_true_iff, Bool.not_eq_true'] at hall
    obtain ⟨hlength, hrefuses⟩ := hall
    refine ⟨⟨_, ?_, ct_stored hops hhandler⟩, ops, hops, hlength, hrefuses⟩
    rw [controlData, uvcCameraTerminalData, hops, bind_some, if_neg (not_not.mpr hlength),
      if_neg (Bool.eq_false_iff.mp hrefuses), hhandler, map_some]
  | pu cs =>
    simp only [setCurAccepted, Bool.and_eq_true] at haccepted
    obtain ⟨hsupported, hall⟩ := haccepted
    obtain ⟨ops, hops, hhandler⟩ := pu_supported hsupported
    obtain ⟨handler, hhandler⟩ := isSome_iff_exists.mp hhandler
    rw [hops, any_some, Bool.and_eq_true, decide_eq_true_iff, decide_eq_true_iff] at hall
    obtain ⟨hlength, hrefuses⟩ := hall
    refine ⟨⟨_, ?_, pu_stored hops hhandler⟩, ops, hops, hlength, hrefuses⟩
    rw [controlData, uvcProcessingUnitData, hops, bind_some,
      if_neg (not_not.mpr hlength), hrefuses, hhandler]
    rfl

end

/-! ## The invariant -/

/-- The arguments with which a function is called last, when the thread has looked at all messages
and the table stays as it is. -/
def EventState.lastArgs (state : EventState) (func : EventFunc) : Option (List Int) :=
  match (state.pending.filter (Message.isOf func)).getLast? with
  | some (.ctrl event) => some (eventArgs state.values event)
  | _ =>
    match state.phase with
    | .calling func' args => if func' = func then some args else state.passed func
    | _ => state.passed func

/-- The function of each control that was set is called last with the value reported now. -/
def EventInv (registered : EventFunc → Bool) (state : EventState) : Prop :=
  ∀ func, registered func = true → state.wasSet func.name = true →
    state.lastArgs func = some (reported state.values func.name)

open EventState

theorem EventInv.current {registered : EventFunc → Bool} {state : EventState}
    (h : EventInv registered state) : Current registered state := by
  intro hqueue hphase func hregistered hset
  have hlast := h func hregistered hset
  unfold lastArgs pending at hlast
  rw [hphase, hqueue] at hlast
  exact hlast

section

variable {config : RequestConfig} {registered : EventFunc → Bool} {state state' : EventState}
  {func : EventFunc} {message : Message}

open Message

theorem last_cases (pending : List Message) (func : EventFunc) :
    pending.filter (Message.isOf func) = [] ∨
      ∃ event, (pending.filter (Message.isOf func)).getLast? = some (.ctrl event) ∧
        event.funcNum = func := by
  by_cases hnil : pending.filter (isOf func) = []
  · exact .inl hnil
  · have hlast := getLast?_eq_some_getLast hnil
    have hof := (mem_filter.mp (getLast_mem hnil)).2
    cases hmessage : (pending.filter (isOf func)).getLast hnil with
    | ctrl event =>
      rw [hmessage] at hlast hof
      exact .inr ⟨event, hlast, of_decide_eq_true hof⟩
    | other =>
      rw [hmessage] at hof
      exact absurd hof Bool.false_ne_true

theorem last_args_some {event : CtrlEvent}
    (h : (state.pending.filter (Message.isOf func)).getLast? = some (.ctrl event)) :
    state.lastArgs func = some (eventArgs state.values event) := by
  unfold lastArgs
  rw [h]

/-- What is not touched by an event of another control. -/
theorem last_args_congr (hphase : state'.phase = state.phase)
    (hpassed : state'.passed = state.passed)
    (hpending : state'.pending.filter (Message.isOf func) =
      state.pending.filter (Message.isOf func))
    (hget : state'.values.get func.name = state.values.get func.name) :
    state'.lastArgs func = state.lastArgs func := by
  obtain hnil | ⟨event, hlast, hfunc⟩ := last_cases state.pending func
  · unfold lastArgs
    rw [hpending, hphase, hpassed, hnil]
    rfl
  · rw [last_args_some hlast, last_args_some (hpending ▸ hlast), event_args_eq, event_args_eq,
      hfunc, hget]

theorem pending_append (hphase : state'.phase = state.phase)
    (hqueue : state'.queue = state.queue ++ [message]) :
    state'.pending = state.pending ++ [message] := by
  unfold pending
  rw [hphase, hqueue]
  cases state.phase <;> rfl

theorem pending_congr (hphase : state'.phase = state.phase) (hqueue : state'.queue = state.queue) :
    state'.pending = state.pending := by
  unfold pending
  rw [hphase, hqueue]

/-- A step of the thread: the arguments that it works out are those of the message that it takes. -/
theorem thread_last_args (hregistered : registered func = true) :
    (uvcEventProc registered state).lastArgs func = state.lastArgs func := by
  obtain ⟨values, queue, phase, wasSet, passed⟩ := state
  cases phase with
  | waiting =>
    cases queue with
    | nil => rfl
    | cons message queue => rfl
  | received message =>
    cases message with
    | other => rfl
    | ctrl event =>
      by_cases hfunc : event.funcNum = func
      · have hreg : registered event.funcNum = true := hfunc ▸ hregistered
        have hof : isOf func (.ctrl event) = true := decide_eq_true hfunc
        unfold uvcEventProc lastArgs pending
        dsimp only
        rw [if_pos hreg]
        dsimp only
        rw [filter_cons_of_pos hof]
        cases hrest : queue.filter (isOf func) with
        | nil =>
          rw [if_pos hfunc]
          rfl
        | cons message rest =>
          rw [getLast?_cons_cons]
          obtain hnil | ⟨event', hlast, -⟩ := last_cases queue func
          · exact absurd (hrest.symm.trans hnil) (cons_ne_nil _ _)
          · rw [← hrest, hlast]
      · have hof : isOf func (.ctrl event) ≠ true := fun h =>
          hfunc (of_decide_eq_true h)
        unfold uvcEventProc lastArgs pending
        dsimp only
        rw [filter_cons_of_neg hof]
        by_cases hreg : registered event.funcNum = true
        · rw [if_pos hreg]
          dsimp only
          rw [if_neg hfunc]
        · rw [if_neg hreg]
  | calling func' args =>
    unfold uvcEventProc lastArgs pending
    dsimp only
    rw [update_apply]
    simp only [eq_comm]

theorem thread_frame (registered : EventFunc → Bool) (state : EventState) :
    (uvcEventProc registered state).values = state.values ∧
      (uvcEventProc registered state).wasSet = state.wasSet := by
  unfold uvcEventProc
  split
  · split <;> exact ⟨rfl, rfl⟩
  · split <;> exact ⟨rfl, rfl⟩
  · exact ⟨rfl, rfl⟩
  · exact ⟨rfl, rfl⟩

theorem send_pending (hphase : state'.phase = state.phase)
    (hqueue : state'.queue = send state.queue message) :
    (state.queue.length < uvcMqSize ∧ state'.pending = state.pending ++ [message]) ∨
      (¬ state.queue.length < uvcMqSize ∧ state'.pending = state.pending) := by
  unfold send at hqueue
  by_cases hroom : state.queue.length < uvcMqSize
  · rw [if_pos hroom] at hqueue
    exact .inl ⟨hroom, pending_append hphase hqueue⟩
  · rw [if_neg hroom] at hqueue
    exact .inr ⟨hroom, pending_congr hphase hqueue⟩

theorem send_filter (hphase : state'.phase = state.phase)
    (hqueue : state'.queue = send state.queue message)
    (hmessage : Message.isOf func message = false) :
    state'.pending.filter (Message.isOf func) = state.pending.filter (Message.isOf func) := by
  have hnot : ¬ isOf func message = true := Bool.eq_false_iff.mp hmessage
  obtain ⟨-, hpending⟩ | ⟨-, hpending⟩ := send_pending hphase hqueue
  · rw [hpending, filter_append, filter_cons_of_neg hnot, filter_nil, append_nil]
  · rw [hpending]

/-- A message of the function is looked at last, or there is another one for which the function
reads the table. -/
theorem send_last_args {parm1 : Int} (hphase : state'.phase = state.phase)
    (hqueue : state'.queue = send state.queue (.ctrl ⟨func, parm1⟩))
    (hroom : state.queue.length < uvcMqSize ∨
      (func.readsTable = true ∧ state.pending.any (Message.isOf func) = true)) :
    state'.lastArgs func = some (argsOf func (state'.values.get func.name) parm1) := by
  have hof : isOf func (.ctrl ⟨func, parm1⟩) = true := decide_eq_true rfl
  obtain ⟨-, hpending⟩ | ⟨hfull, hpending⟩ := send_pending hphase hqueue
  · have hlast : (state'.pending.filter (isOf func)).getLast? =
        some (.ctrl ⟨func, parm1⟩) := by
      rw [hpending, filter_append, filter_cons_of_pos hof, filter_nil,
        getLast?_append, getLast?_singleton, some_or]
    rw [last_args_some hlast, event_args_eq]
  · obtain ⟨hreads, hany⟩ := hroom.resolve_left hfull
    obtain hnil | ⟨event, hlast, hfunc⟩ := last_cases state.pending func
    · obtain ⟨message, hmem, hmessage⟩ := List.any_eq_true.mp hany
      exact absurd hmessage (filter_eq_nil_iff.mp hnil message hmem)
    · rw [last_args_some (hpending ▸ hlast), event_args_eq, hfunc,
        args_of_reads hreads _ event.parm1 parm1]

theorem set_cur_inv {name : ControlName} {data : List Byte} {stage : DataStage}
    (hinv : EventInv registered state)
    (hsuits : EventSuits config registered state (.setCur name data))
    (haccepted : setCurAccepted config state.values name data = true)
    (hstored : Stored state.values name data stage) (hvalues : state'.values = stage.values)
    (hphase : state'.phase = state.phase) (hpassed : state'.passed = state.passed)
    (hqueue : state'.queue = stage.event.elim state.queue fun event =>
      send state.queue (.ctrl event))
    (hset : state'.wasSet = update state.wasSet name true) :
    EventInv registered state' := by
  intro func hregistered hwas
  rw [hset, update_apply] at hwas
  cases hstored with
  | printed hnone =>
    have hname : func.name ≠ name := by
      intro hname
      obtain ⟨setter, hsetter, -⟩ := setter_of func
      rw [hname, hnone] at hsetter
      exact absurd hsetter.symm (some_ne_none setter)
    rw [if_neg hname] at hwas
    rw [last_args_congr hphase hpassed (by rw [pending_congr hphase hqueue]) (by rw [hvalues]),
      hinv func hregistered hwas, hvalues]
  | ignored setter hsetter hrepeat =>
    have hold : state.wasSet func.name = true := by
      by_cases hname : func.name = name
      · subst hname
        have hfunc : setter.funcNum = func := name_injective (setter_name hsetter)
        have hsuits' := (hsuits haccepted setter hsetter (hfunc ▸ hregistered)).1
        rwa [if_pos hrepeat] at hsuits'
      · rwa [if_neg hname] at hwas
    rw [last_args_congr hphase hpassed (by rw [pending_congr hphase hqueue]) (by rw [hvalues]),
      hinv func hregistered hold, hvalues]
  | stored setter values' hsetter hnew hget =>
    replace hqueue : state'.queue =
      send state.queue (.ctrl ⟨setter.funcNum, setter.parm1 data⟩) := hqueue
    replace hvalues : state'.values = values' := hvalues
    by_cases hname : func.name = name
    · subst hname
      have hfunc : setter.funcNum = func := name_injective (setter_name hsetter)
      have hvalue : state'.values.get func.name = setter.value data := by
        rw [hvalues, hget, if_pos rfl]
      obtain ⟨hroom, hpan⟩ := hsuits haccepted setter hsetter (hfunc ▸ hregistered)
      rw [if_neg hnew] at hroom
      rw [hfunc] at hqueue hroom hpan
      obtain ⟨-, ops, hops, htakes⟩ := accepted_stored haccepted
      rw [send_last_args hphase hqueue hroom, hvalue, args_reported hsetter hops htakes hvalue hpan]
    · rw [if_neg hname] at hwas
      have hother : state'.values.get func.name = state.values.get func.name := by
        rw [hvalues, hget, if_neg hname]
      have hmessage : isOf func (.ctrl ⟨setter.funcNum, setter.parm1 data⟩) = false := by
        refine decide_eq_false ?_
        rintro rfl
        exact hname (setter_name hsetter)
      rw [last_args_congr hphase hpassed (send_filter hphase hqueue hmessage) hother,
        hinv func hregistered hwas, reported_congr hother]

theorem event_step_inv {event : ControlEvent} (hinv : EventInv registered state)
    (hsuits : EventSuits config registered state event)
    (hstep : eventStep config registered state event = some state') :
    EventInv registered state' := by
  cases event with
  | setCur name data =>
    unfold eventStep at hstep
    dsimp only at hstep
    by_cases haccepted : setCurAccepted config state.values name data = true
    · obtain ⟨⟨stage, hstage, hstored⟩, -⟩ := accepted_stored haccepted
      rw [if_pos haccepted, hstage, map_some, some.injEq] at hstep
      subst hstep
      exact set_cur_inv hinv hsuits haccepted hstored rfl rfl rfl rfl rfl
    · rw [if_neg haccepted, some.injEq] at hstep
      exact hstep ▸ hinv
  | thread =>
    obtain rfl : uvcEventProc registered state = state' := some.inj hstep
    intro func hregistered hset
    obtain ⟨hvalues, hwas⟩ := thread_frame registered state
    rw [thread_last_args hregistered, hvalues]
    exact hinv func hregistered (hwas ▸ hset)
  | post =>
    have hstep' := some.inj hstep
    intro func hregistered hset
    have hvalues : state'.values = state.values := by rw [← hstep']
    have hlast : state'.lastArgs func = state.lastArgs func := by
      refine last_args_congr ?_ ?_ (send_filter ?_ ?_ (rfl : isOf func .other = false)) ?_
      all_goals rw [← hstep']
    rw [hlast, hvalues]
    refine hinv func hregistered ?_
    rw [← hstep'] at hset
    exact hset

end

/-- When every request suits, then in every state in which the queue is empty and the thread waits,
the function of each control that was set was called last with the value that `GET_CUR` reports. -/
theorem callbacks_current (config : RequestConfig) (registered : EventFunc → Bool)
    (values : ControlValues) (events : List ControlEvent)
    (hsuits : AllSteps (eventStep config registered) (EventSuits config registered)
      (eventStart values) events) :
    Always (eventStep config registered) (Current registered) (eventStart values) events := by
  have hstart : EventInv registered (eventStart values) := fun _ _ hset =>
    absurd hset Bool.false_ne_true
  refine always_of_invariant ?_ (fun _ h => h.current) hstart hsuits
  exact fun _ _ _ hinv hsuits hstep => event_step_inv hinv hsuits hstep

/-- The brightness is set twice before the thread runs. -/
theorem brightness_current :
    Always (eventStep defaultControls fun _ => true) (Current fun _ => true)
      (eventStart requestStart.values)
      ([.setCur (.pu Pu.brightnessControl) [10#8, 0#8],
        .setCur (.pu Pu.brightnessControl) [20#8, 0#8]] ++ replicate 6 .thread) := by
  refine callbacks_current defaultControls (fun _ => true) requestStart.values _ ?_
  refine ⟨fun _ setter hsetter _ => ?_, fun state hstate => ⟨fun _ setter hsetter _ => ?_, ?_⟩⟩
  · obtain rfl := some.inj hsetter
    exact ⟨.inl (by decide), nofun⟩
  · obtain rfl := some.inj hsetter
    have hlength : (some state).map (fun state => state.queue.length) = some 1 := hstate ▸ rfl
    have hroom : state.queue.length = 1 := some.inj hlength
    exact ⟨.inl (hroom ▸ by decide), nofun⟩
  · exact fun _ _ => ⟨trivial, fun _ _ => ⟨trivial, fun _ _ => ⟨trivial, fun _ _ => ⟨trivial,
      fun _ _ => ⟨trivial, fun _ _ => ⟨trivial, fun _ _ => trivial⟩⟩⟩⟩⟩⟩

/-- A run that ends with the thread waiting, after a `SET_CUR` whose value the function did not get:
the exposure mode that is set at the start, and the last of nine in a row. -/
theorem some_callback_not_current :
    ¬ Always (eventStep defaultControls fun _ => true) (Current fun _ => true)
        (eventStart requestStart.values) [.setCur (.ct Ct.aeModeControl) [2#8]] ∧
      ¬ Always (eventStep defaultControls fun _ => true) (Current fun _ => true)
        (eventStart requestStart.values)
        (replicate 8 (.setCur (.pu Pu.powerLineFrequencyControl) [1#8]) ++
          [.setCur (.pu Pu.powerLineFrequencyControl) [2#8]] ++ replicate 24 .thread) := by
  refine ⟨fun hall => ?_, fun hall => ?_⟩
  · have hcurrent := Always.last hall rfl rfl rfl .setAeMode rfl rfl
    exact absurd hcurrent (some_ne_none _).symm
  · have hcurrent := Always.last hall rfl rfl rfl .powerLine rfl rfl
    exact absurd hcurrent (by decide)

end FullhanRtos.Uvc
