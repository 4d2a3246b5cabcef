import FullhanRtos.Uvc.Alt
import FullhanRtos.Uvc.Controls

/-!
# Class requests

The setup and data stages of class requests: `uvc_function_setup` and `read_out_data_done` of
`f_uvc.c`, the dispatch of `libuvc.c`, and the units of `libuvc_ctrl.c`. The setup stage of a
`SET_CUR` that is accepted leaves the selector, the unit and the interface in the context of the
stream, and the data stage reads them there. Other setup stages write the unit only. An OUT request
is not stalled when its setup stage is rejected, so its data stage meets the selector of an earlier
request.

`requests_ok` says for which requests the tables are accessed inside, and a `SET_CUR` changes no
other control than its own and none when it is rejected.
-/

namespace FullhanRtos.Uvc

open Transition Function List Option

/-! ## Data -/

/-- `bRequest`. -/
abbrev uvcSetCur : Nat := 0x01
abbrev uvcGetCur : Nat := 0x81
abbrev uvcGetMin : Nat := 0x82
abbrev uvcGetMax : Nat := 0x83
abbrev uvcGetRes : Nat := 0x84
abbrev uvcGetLen : Nat := 0x85
abbrev uvcGetInfo : Nat := 0x86
abbrev uvcGetDef : Nat := 0x87

/-- Units, interfaces and errors. -/
abbrev uvcCtrlInterfaceId : Nat := 0
abbrev uvcCtrlCameralTerminalId : Nat := 1
abbrev uvcCtrlProcessingUnitId : Nat := 2
abbrev uvcCtrlH264ExtensionUnitId : Nat := 3
abbrev uvcCtrlMsxuFaceExtensionUnitId : Nat := 6

abbrev uvcIntfControl : Nat := 0
abbrev uvcIntfStreaming : Nat := 1
abbrev uvcIntfStreaming2 : Nat := 2

abbrev uvcReqErrorNo : Nat := 0
abbrev uvcReqErrorOutOfRange : Nat := 4
abbrev uvcReqErrorInvalidUnit : Nat := 5
abbrev uvcReqErrorInvalidControl : Nat := 6
abbrev uvcReqErrorInvalidReq : Nat := 7

/-- Selectors of the streaming interface. -/
abbrev uvcVsProbeControl : Nat := 0x01
abbrev uvcVsCommitControl : Nat := 0x02
abbrev uvcVsStillProbeControl : Nat := 0x03
abbrev uvcVsStillCommitControl : Nat := 0x04
abbrev uvcVsStillImageTriggerControl : Nat := 0x05
abbrev uvcVsUserDef : Nat := 0xcc

/-- A build: `CAMERA_TERMINAL_CONTROLS`, `PROCESSING_UNIT_CONTROLS`,
`MSXU_EXTENSION_UNIT_CONTROLS`, `UVC_STILL_IMAGE_CAPTURE_METHOD2`, and the streaming interface of
the second stream in a build with two. The application registers `uvc_extern_intr` and
`uvc_extern_data` or not, or no functions at all. -/
structure RequestConfig where
  ctControls : Nat
  puControls : Nat
  msxuControls : Nat
  stillImage : Bool
  streamingIntf2 : Option Nat
  ops : Bool
  externIntr : Bool

structure ControlContext where
  cs : Nat
  id : Nat
  intf : Nat
  size : Nat

/-- What requests use of `struct uvc_stream_info`. -/
structure StreamInfo where
  context : ControlContext
  errorCode : Nat

/-- The values of the camera terminal and of the processing unit. -/
structure ControlValues where
  ct : Nat → Int
  pu : Nat → Int

/-- The values and the streams. -/
structure RequestState where
  values : ControlValues
  streamInfo : StreamId → StreamInfo

/-- `struct uvc_request_data` of a response. What is not written is 0. -/
structure Response where
  length : Int
  data : List Byte

/-- `struct usb_ctrlrequest`, and the data that the host sends after it if it does. -/
structure CtrlRequest where
  requestType : BitVec 8
  request : BitVec 8
  value : BitVec 16
  index : BitVec 16
  length : BitVec 16
  sends : Bool
  data : List Byte

/-! ## Support -/

/-- The bit of each selector in `CAMERA_TERMINAL_CONTROLS`. -/
def ctControlBits : List (Option Nat) :=
  [none, some 0, some 1, some 2, some 3, some 4, some 5, some 6, some 17, some 7, some 8, some 9,
    some 10, some 11, some 12, some 13, some 14, some 18]

/-- The bit of each selector in `PROCESSING_UNIT_CONTROLS`. -/
def puControlBits : List (Option Nat) :=
  [none, some 8, some 0, some 1, some 9, some 10, some 2, some 3, some 4, some 5, some 6, some 12,
    some 7, some 13, some 14, some 15, some 11, some 16, some 17]

def uvcCameraTerminalSupported (config : RequestConfig) (cs : Nat) : Bool :=
  (ctControlBits.getD cs none).any config.ctControls.testBit

def uvcProcessingUnitSupported (config : RequestConfig) (cs : Nat) : Bool :=
  (puControlBits.getD cs none).any config.puControls.testBit

def uvcMsxuUnitSupported (config : RequestConfig) (cs : Nat) : Bool :=
  cs ≠ 0 && config.msxuControls.testBit (cs - 1)

/-! ## The setup stage -/

def reject (error : Nat) (resp : Response) (info : StreamInfo) : Response × StreamInfo :=
  ({ resp with length := -1 }, { info with errorCode := error })

/-- The value that `GET_MIN`, `GET_MAX`, `GET_DEF` and `GET_RES` ask for. -/
def ControlOps.limit (ops : ControlOps) (req : Nat) : Option Int :=
  if req = uvcGetMin then some ops.min
  else if req = uvcGetMax then some ops.max
  else if req = uvcGetDef then some ops.default
  else if req = uvcGetRes then some ops.res
  else none

/-- The context that an accepted `SET_CUR` leaves. -/
def StreamInfo.select (info : StreamInfo) (cs id intf : Nat) : StreamInfo :=
  { info with context := { info.context with cs, id, intf } }

/-- The `switch` over the requests to the camera terminal and to the processing unit. -/
def unitSetup (id : Nat) (ops : ControlOps) (cur : Int) (encode : Int → List Byte) (req cs : Nat)
    (resp : Response) (info : StreamInfo) : Option (Response × StreamInfo) :=
  if req = uvcSetCur then some (resp, info.select cs id uvcIntfControl)
  else if req = uvcGetLen then some ({ resp with data := leBytes 1 resp.length }, info)
  else if req = uvcGetCur then
    -- the call of `fsetup`
    ops.handler.map fun handler => ({ resp with data := handler.fsetup cur }, info)
  else if req = uvcGetInfo then some ({ resp with data := [3#8] }, info)
  else
    match ops.limit req with
    | some value => some ({ resp with data := encode value }, info)
    | none => some (resp, info)

/-- Whether an automatic mode disables a control, for the controls that look at one. `SET_CUR` of
the iris looks at one mode more than `GET_INFO`. -/
def ctDisabled (values : ControlValues) (req cs : Nat) : Option Bool :=
  let aeMode := values.ct Ct.aeModeControl
  if cs = Ct.exposureTimeAbsoluteControl then some (aeMode = 2 || aeMode = 8)
  else if cs = Ct.irisAbsoluteControl then
    some (aeMode = 2 || aeMode = 4 || (req = uvcSetCur && aeMode = 8))
  else if cs = Ct.focusAbsoluteControl then some (values.ct Ct.focusAutoControl = 1)
  else none

/-- `uvc_camera_terminal_setup`. The test of the selector lets the length of the table through. -/
def uvcCameraTerminalSetup (config : RequestConfig) (values : ControlValues) (req cs : Nat)
    (resp : Response) (info : StreamInfo) : Option (Response × StreamInfo) :=
  if uvcControlCt.length < cs then some (reject uvcReqErrorInvalidControl resp info)
  else
    uvcControlCt[cs]?.bind fun ops =>
      let resp := { resp with length := ops.len }
      if uvcCameraTerminalSupported config cs = false then
        some (reject uvcReqErrorInvalidControl resp info)
      else if req = uvcGetInfo ∧ (ctDisabled values req cs).isSome then
        let info3 := if ctDisabled values req cs = some true then 0x0f#8 else 0x0b#8
        some ({ resp with data := [info3] }, info)
      else if req = uvcSetCur ∧ ctDisabled values req cs = some true then
        some (reject uvcReqErrorInvalidReq resp info)
      else
        let encode := if cs = Ct.pantiltAbsoluteControl then pantilt2Buf else leBytes 4
        unitSetup uvcCtrlCameralTerminalId ops (values.ct cs) encode req cs resp info

def sizeofControlPu : Nat := 32 * uvcControlPu.length

def uvcProcessingUnitSetup (config : RequestConfig) (values : ControlValues) (req cs : Nat)
    (resp : Response) (info : StreamInfo) : Option (Response × StreamInfo) :=
  if sizeofControlPu - 1 < cs then some (resp, info)
  else
    uvcControlPu[cs]?.bind fun ops =>
      let resp := { resp with length := ops.len }
      if uvcProcessingUnitSupported config cs = false then
        some (reject uvcReqErrorInvalidControl resp info)
      else if cs = Pu.whiteBalanceTemperatureControl ∧ req = uvcGetInfo then
        let auto := values.pu Pu.whiteBalanceTemperatureAutoControl
        some ({ resp with data := [if auto = 1 then 0x0f#8 else 0x0b#8] }, info)
      else if cs = Pu.whiteBalanceTemperatureAutoControl ∧
          (req = uvcGetMin ∨ req = uvcGetMax ∨ req = uvcGetRes) then
        some (reject uvcReqErrorInvalidReq resp info)
      else unitSetup uvcCtrlProcessingUnitId ops (values.pu cs) (leBytes 4) req cs resp info

def uvcH264ExtensionSetup (config : RequestConfig) (req cs : Nat) (resp : Response)
    (info : StreamInfo) : Response × StreamInfo :=
  if config.ops = false ∨ config.externIntr = false then reject uvcReqErrorInvalidUnit resp info
  else if req = uvcSetCur then
    (resp, info.select cs uvcCtrlH264ExtensionUnitId uvcIntfControl)
  else (resp, info)

def uvcMsxuFaceExtensionSetup (config : RequestConfig) (req cs : Nat) (resp : Response)
    (info : StreamInfo) : Option (Response × StreamInfo) :=
  uvcMsxuFace[cs]?.map fun ops =>
    let resp := { resp with length := ops.len }
    if uvcMsxuUnitSupported config cs = false then reject uvcReqErrorInvalidControl resp info
    else if req = uvcSetCur then
      (resp, info.select cs uvcCtrlMsxuFaceExtensionUnitId uvcIntfControl)
    else if req = uvcGetLen then ({ resp with data := leBytes 1 resp.length }, info)
    else if req = uvcGetCur then
      match ops.handler with
      | some handler => ({ resp with data := handler.fsetup ops.cur }, info)
      | none => (resp, info)
    else if req = uvcGetInfo then
      if cs = 0x06 then ({ resp with data := [3#8] }, info)
      else if cs = 0x09 then ({ resp with data := [1#8] }, info)
      else (resp, info)
    else
      match ops.limit req with
      | some value => ({ resp with data := leBytes 3 value }, info)
      | none => (resp, info)

/-- `uvc_interface_setup` gives the last error and forgets it. -/
def uvcInterfaceSetup (resp : Response) (info : StreamInfo) : Response × StreamInfo :=
  if info.errorCode ≠ uvcReqErrorNo then
    (⟨1, leBytes 1 info.errorCode⟩, { info with errorCode := uvcReqErrorNo })
  else (resp, info)

def uvcEventsProcessVcSetup (config : RequestConfig) (values : ControlValues) (req cs id : Nat)
    (resp : Response) (info : StreamInfo) : Option (Response × StreamInfo) :=
  if id = uvcCtrlInterfaceId then some (uvcInterfaceSetup resp info)
  else if id = uvcCtrlCameralTerminalId then uvcCameraTerminalSetup config values req cs resp info
  else if id = uvcCtrlProcessingUnitId then uvcProcessingUnitSetup config values req cs resp info
  else if id = uvcCtrlH264ExtensionUnitId then some (uvcH264ExtensionSetup config req cs resp info)
  else if id = uvcCtrlMsxuFaceExtensionUnitId then
    uvcMsxuFaceExtensionSetup config req cs resp info
  else some (resp, info)

/-- The selectors of the streaming interface that a request may name. -/
def vsSelects (config : RequestConfig) (cs : Nat) : Bool :=
  cs = uvcVsProbeControl || cs = uvcVsCommitControl || cs = uvcVsUserDef ||
    (config.stillImage && (cs = uvcVsStillProbeControl || cs = uvcVsStillCommitControl ||
      cs = uvcVsStillImageTriggerControl))

def uvcEventsProcessVsSetup (config : RequestConfig) (req cs : Nat) (info : StreamInfo) :
    StreamInfo :=
  if vsSelects config cs ∧ req = uvcSetCur then
    info.select cs uvcCtrlInterfaceId uvcIntfStreaming
  else info

/-- The fields of a request: `bRequest`, the selector in `wValue`, and the unit and the interface in
`wIndex`. -/
def CtrlRequest.req (request : CtrlRequest) : Nat := request.request.toNat

def CtrlRequest.cs (request : CtrlRequest) : Nat := request.value.toNat / 256

def CtrlRequest.id (request : CtrlRequest) : Nat := request.index.toNat / 256

def CtrlRequest.intf (request : CtrlRequest) : Nat := request.index.toNat % 256

def CtrlRequest.toInterface (request : CtrlRequest) : Bool :=
  request.requestType &&& 0x1f#8 = 0x01#8

/-- `context.id`, which every request to an interface writes. -/
def StreamInfo.setId (info : StreamInfo) (id : Nat) : StreamInfo :=
  { info with context := { info.context with id } }

def uvcEventsProcessClass (config : RequestConfig) (values : ControlValues) (request : CtrlRequest)
    (info : StreamInfo) : Option (Response × StreamInfo) :=
  if request.toInterface = false then some (⟨0, []⟩, info)
  else
    let info :=
      { info with context := { info.context with size := request.length.toNat % 256 } }
    if request.intf = uvcIntfControl then
      (uvcEventsProcessVcSetup config values request.req request.cs request.id ⟨0, []⟩ info).map
        fun answer => (answer.1, answer.2.setId request.id)
    else if request.intf = uvcIntfStreaming ∨ request.intf = uvcIntfStreaming2 then
      some (⟨0, []⟩, (uvcEventsProcessVsSetup config request.req request.cs info).setId
        request.intf)
    else some (⟨0, []⟩, info)

/-! ## The data stage -/

/-- What a data stage does: the values, an error, and a message. -/
structure DataStage where
  values : ControlValues
  error : Option Nat
  event : Option CtrlEvent

/-- `fdata`. -/
def ControlSetter.store (setter : ControlSetter) (data : List Byte) (cur : Nat → Int) :
    (Nat → Int) × Option CtrlEvent :=
  if setter.ignoresRepeat ∧ setter.value data = cur setter.cs then (cur, none)
  else
    (update cur setter.cs (setter.value data),
      some ⟨setter.funcNum, setter.parm1 data⟩)

/-- The call of `fdata`. -/
def ControlHandler.store (handler : ControlHandler) (data : List Byte) (cur : Nat → Int) :
    (Nat → Int) × Option CtrlEvent :=
  match handler.fdata with
  | some setter => setter.store data cur
  | none => (cur, none)

/-- The number in the data that is compared with the limits. -/
def dataValue (data : List Byte) : Int := toInt32 (leNat data (min data.length 4))

/-- What `uvc_camera_terminal_data` does not take. -/
def ctRefuses (ops : ControlOps) (cs : Nat) (data : List Byte) : Bool :=
  if cs = Ct.pantiltAbsoluteControl then
    toInt8 ops.max < bufPan data || bufPan data < toInt8 ops.min ||
      toInt8 (ops.max / 256) < bufTilt data || bufTilt data < toInt8 (ops.min / 256)
  else
    ops.max < dataValue data || dataValue data < ops.min ||
      (cs = Ct.aeModeControl && dataValue data ≠ 1 && dataValue data ≠ 2 && dataValue data ≠ 4 &&
        dataValue data ≠ 8)

def uvcCameraTerminalData (values : ControlValues) (cs : Nat) (data : List Byte) :
    Option DataStage :=
  uvcControlCt[cs]?.bind fun ops =>
    if data.length ≠ ops.len then some ⟨values, none, none⟩
    else if ctRefuses ops cs data then some ⟨values, some uvcReqErrorOutOfRange, none⟩
    else
      ops.handler.map fun handler =>
        let (ct, event) := handler.store data values.ct
        ⟨{ values with ct }, none, event⟩

/-- What `uvc_processing_unit_data` does not take. -/
def puRefuses (values : ControlValues) (ops : ControlOps) (cs : Nat) (data : List Byte) :
    Option Nat :=
  if ops.max < dataValue data ∨ dataValue data < ops.min then some uvcReqErrorOutOfRange
  else if cs = Pu.whiteBalanceTemperatureControl ∧
      values.pu Pu.whiteBalanceTemperatureAutoControl = 1 then some uvcReqErrorInvalidControl
  else none

def uvcProcessingUnitData (values : ControlValues) (cs : Nat) (data : List Byte) :
    Option DataStage :=
  uvcControlPu[cs]?.bind fun ops =>
    if data.length ≠ ops.len then some ⟨values, none, none⟩
    else
      match puRefuses values ops cs data with
      | some error => some ⟨values, some error, none⟩
      | none =>
        ops.handler.map fun handler =>
          let (pu, event) := handler.store data values.pu
          ⟨{ values with pu }, none, event⟩

/-- `uvc_events_process_vc_data`. The extension unit of the application calls `uvc_extern_data`,
which the application registered or not; without any functions it reads through a null pointer. -/
def uvcEventsProcessVcData (config : RequestConfig) (values : ControlValues)
    (context : ControlContext) (data : List Byte) : Option DataStage :=
  if context.id = uvcCtrlCameralTerminalId then uvcCameraTerminalData values context.cs data
  else if context.id = uvcCtrlProcessingUnitId then uvcProcessingUnitData values context.cs data
  else if context.id = uvcCtrlH264ExtensionUnitId then
    if config.ops then some ⟨values, none, none⟩ else none
  else if context.id = uvcCtrlMsxuFaceExtensionUnitId then
    uvcMsxuFace[context.cs]?.map fun _ => ⟨values, none, none⟩
  else some ⟨values, none, none⟩

def uvcEventsProcessData (config : RequestConfig) (values : ControlValues)
    (context : ControlContext) (data : List Byte) : Option DataStage :=
  if context.intf = uvcIntfControl then uvcEventsProcessVcData config values context data
  else some ⟨values, none, none⟩

/-! ## Requests -/

def uvcMaxRequestSize : Nat := 64

/-- `uvc_function_setup` does not refuse the request. -/
def CtrlRequest.isClass (request : CtrlRequest) : Bool :=
  request.requestType &&& 0x60#8 = 0x20#8 && decide (request.length.toNat ≤ uvcMaxRequestSize)

/-- The host sends data after the setup stage. -/
def CtrlRequest.hasData (request : CtrlRequest) : Bool :=
  request.requestType &&& 0x80#8 = 0#8 && decide (0 < request.length.toNat) && request.sends

/-- What is in the receive buffer after the data stage. -/
def CtrlRequest.received (request : CtrlRequest) : List Byte :=
  (List.range request.length.toNat).map fun i => request.data.getD i 0#8

def CtrlRequest.stream (config : RequestConfig) (request : CtrlRequest) : StreamId :=
  if config.streamingIntf2 = some request.intf then .two else .one

def RequestState.setInfo (state : RequestState) (stream : StreamId) (info : StreamInfo) :
    RequestState :=
  { state with streamInfo := update state.streamInfo stream info }

def setupStage (config : RequestConfig) (state : RequestState) (request : CtrlRequest) :
    Option (Response × StreamInfo) :=
  uvcEventsProcessClass config state.values request
    (state.streamInfo (request.stream config))

def readOutDataDone (config : RequestConfig) (state : RequestState) (stream : StreamId)
    (data : List Byte) : Option RequestState :=
  let info := state.streamInfo stream
  (uvcEventsProcessData config state.values info.context data).map fun stage =>
    { state.setInfo stream { info with errorCode := stage.error.getD uvcReqErrorNo } with
      values := stage.values }

/-- A request: `uvc_function_setup`, and the data stage if there is one. -/
def requestStep (config : RequestConfig) (state : RequestState) (request : CtrlRequest) :
    Option RequestState :=
  if request.isClass = false then some state
  else
    (setupStage config state request).bind fun (_, info) =>
      let stream := request.stream config
      let state := state.setInfo stream info
      if request.hasData then readOutDataDone config state stream request.received
      else some state

/-! ## What holds -/

/-- A control of the camera terminal or of the processing unit. -/
inductive ControlName where
  | ct (cs : Nat)
  | pu (cs : Nat)
  deriving DecidableEq

def ControlValues.get (values : ControlValues) : ControlName → Int
  | .ct cs => values.ct cs
  | .pu cs => values.pu cs

def CtrlRequest.Names (request : CtrlRequest) (name : ControlName) : Prop :=
  request.toInterface = true ∧ request.intf = uvcIntfControl ∧
    ((request.id = uvcCtrlCameralTerminalId ∧ name = .ct request.cs) ∨
      (request.id = uvcCtrlProcessingUnitId ∧ name = .pu request.cs))

def SetupRejects (config : RequestConfig) (state : RequestState) (request : CtrlRequest) : Prop :=
  ∃ resp info, setupStage config state request = some (resp, info) ∧ resp.length = -1

/-- No table is accessed outside and no null pointer is called or read through. A `SET_CUR` changes
at most the control that it names, and none when its setup stage is rejected. -/
structure RequestOk (config : RequestConfig) (state : RequestState) (request : CtrlRequest) :
    Prop where
  inside : (requestStep config state request).isSome
  named : ∀ state', requestStep config state request = some state' → request.req = uvcSetCur →
    ∀ name, state'.values.get name ≠ state.values.get name → request.Names name
  rejected : ∀ state', requestStep config state request = some state' → request.isClass = true →
    request.req = uvcSetCur → SetupRejects config state request → state'.values = state.values

/-- The selector is in the table of the unit. -/
def CtrlRequest.InTable (request : CtrlRequest) : Prop :=
  request.toInterface = true → request.intf = uvcIntfControl →
    (request.id = uvcCtrlCameralTerminalId → request.cs ≠ uvcControlCt.length) ∧
    (request.id = uvcCtrlProcessingUnitId → request.cs < uvcControlPu.length) ∧
    (request.id = uvcCtrlMsxuFaceExtensionUnitId → request.cs < uvcMsxuFace.length)

/-- The request is a `SET_CUR` that its setup stage accepts. -/
def CtrlRequest.Accepted (config : RequestConfig) (values : ControlValues)
    (request : CtrlRequest) : Prop :=
  request.toInterface = true ∧ request.req = uvcSetCur ∧
    ((request.intf = uvcIntfControl ∧
      ((request.id = uvcCtrlCameralTerminalId ∧
          uvcCameraTerminalSupported config request.cs = true ∧
          ctDisabled values uvcSetCur request.cs ≠ some true) ∨
        (request.id = uvcCtrlProcessingUnitId ∧
          uvcProcessingUnitSupported config request.cs = true) ∨
        (request.id = uvcCtrlH264ExtensionUnitId ∧ config.ops = true ∧ config.externIntr = true) ∨
        (request.id = uvcCtrlMsxuFaceExtensionUnitId ∧
          uvcMsxuUnitSupported config request.cs = true))) ∨
      ((request.intf = uvcIntfStreaming ∨ request.intf = uvcIntfStreaming2) ∧
        vsSelects config request.cs = true))

/-- The unit in the context after the setup stage of the request. -/
def CtrlRequest.contextId (request : CtrlRequest) (context : ControlContext) : Nat :=
  if request.toInterface = false then context.id
  else if request.intf = uvcIntfControl then request.id
  else if request.intf = uvcIntfStreaming ∨ request.intf = uvcIntfStreaming2 then request.intf
  else context.id

/-- A `fdata` leaves the values alone: it only prints, or it gets the value that is there. -/
def StoresNothing (ops : ControlOps) (data : List Byte) (cur : Nat → Int) : Prop :=
  ∀ handler ∈ ops.handler, ∀ setter ∈ handler.fdata, setter.value data = cur setter.cs

/-- Data that meets the selector of an earlier request does no harm: that selector is in the table
of the unit, and in a `SET_CUR` the control has another length, does not take the data, or has the
value already. -/
def CtrlRequest.Harmless (config : RequestConfig) (state : RequestState) (request : CtrlRequest) :
    Prop :=
  let context := (state.streamInfo (request.stream config)).context
  let id := request.contextId context
  let data := request.received
  context.intf = uvcIntfControl →
    (id = uvcCtrlCameralTerminalId → ∃ ops ∈ uvcControlCt[context.cs]?, request.req = uvcSetCur →
      data.length = ops.len → ctRefuses ops context.cs data = false →
      StoresNothing ops data state.values.ct) ∧
    (id = uvcCtrlProcessingUnitId → ∃ ops ∈ uvcControlPu[context.cs]?, request.req = uvcSetCur →
      data.length = ops.len → puRefuses state.values ops context.cs data = none →
      StoresNothing ops data state.values.pu) ∧
    (id = uvcCtrlH264ExtensionUnitId → config.ops = true) ∧
    (id = uvcCtrlMsxuFaceExtensionUnitId → context.cs < uvcMsxuFace.length)

/-- The selector is in the table, and data is sent only after a `SET_CUR` that its setup stage
accepts, or does no harm. -/
def RequestSuits (config : RequestConfig) (state : RequestState) (request : CtrlRequest) : Prop :=
  request.isClass = true → request.InTable ∧
    (request.hasData = true →
      request.Accepted config state.values ∨ request.Harmless config state)

/-! ## The tables -/

/-- A control with a length has functions, and its `fdata` writes its own value. -/
def ownEntry (entry : ControlOps × Nat) : Bool :=
  (entry.1.len = 0 || entry.1.handler.isSome) &&
    entry.1.handler.all fun handler => handler.fdata.all fun setter => setter.cs = entry.2

/-- The same as a property. -/
structure EntryOk (cs : Nat) (ops : ControlOps) : Prop where
  handler : ops.len ≠ 0 → ops.handler.isSome
  own : ∀ handler ∈ ops.handler, ∀ setter ∈ handler.fdata, setter.cs = cs

theorem table_entry {table : List ControlOps} (htable : table.zipIdx.all ownEntry = true)
    {cs : Nat} {ops : ControlOps} (hops : table[cs]? = some ops) : EntryOk cs ops := by
  have hentry := List.all_eq_true.mp htable (ops, cs) (mk_mem_zipIdx_iff_getElem?.mpr hops)
  rw [ownEntry, Bool.and_eq_true, Bool.or_eq_true, decide_eq_true_iff] at hentry
  refine ⟨fun hlen => hentry.1.resolve_left hlen, fun handler hhandler setter hsetter => ?_⟩
  have hown := hentry.2
  rw [hhandler, all_some, hsetter, all_some] at hown
  exact of_decide_eq_true hown

theorem ct_entry {cs : Nat} {ops : ControlOps} (hops : uvcControlCt[cs]? = some ops) :
    EntryOk cs ops :=
  table_entry (by decide) hops

theorem pu_entry {cs : Nat} {ops : ControlOps} (hops : uvcControlPu[cs]? = some ops) :
    EntryOk cs ops :=
  table_entry (by decide) hops

theorem supported_entry (bits : List (Option Nat)) {table : List ControlOps}
    (hbits : (bits.zipIdx.all fun entry =>
      entry.1.isNone || table[entry.2]?.any fun ops => ops.handler.isSome) = true)
    {controls cs : Nat} (h : (bits.getD cs none).any controls.testBit = true) :
    ∃ ops, table[cs]? = some ops ∧ ops.handler.isSome := by
  rw [getD_eq_getElem?_getD] at h
  cases hbit : bits[cs]? with
  | none =>
    rw [hbit] at h
    exact absurd h Bool.false_ne_true
  | some bit =>
    rw [hbit, getD_some] at h
    have hentry := List.all_eq_true.mp hbits (bit, cs)
      (mk_mem_zipIdx_iff_getElem?.mpr hbit)
    have hsome : bit.isNone = false := by
      cases bit with
      | none => exact absurd h Bool.false_ne_true
      | some n => rfl
    rw [hsome, Bool.false_or, Option.any_eq_true] at hentry
    exact hentry

theorem ct_supported {config : RequestConfig} {cs : Nat}
    (h : uvcCameraTerminalSupported config cs = true) :
    ∃ ops, uvcControlCt[cs]? = some ops ∧ ops.handler.isSome :=
  supported_entry ctControlBits (by decide) h

theorem pu_supported {config : RequestConfig} {cs : Nat}
    (h : uvcProcessingUnitSupported config cs = true) :
    ∃ ops, uvcControlPu[cs]? = some ops ∧ ops.handler.isSome :=
  supported_entry puControlBits (by decide) h

/-! ## The setup stage -/

section

variable {config : RequestConfig} {values : ControlValues} {resp : Response} {info : StreamInfo}
  {req cs id : Nat} {accepts : Prop}

/-- What the setup stage of a unit does: an accepted `SET_CUR` is left in the context, and another
one is rejected. -/
inductive UnitEffect (accepts : Prop) (req cs id : Nat) (info : StreamInfo) :
    Option (Response × StreamInfo) → Prop
  | accepted (resp : Response) (hreq : req = uvcSetCur) (haccepts : accepts)
      (hlength : resp.length ≠ -1) :
      UnitEffect accepts req cs id info (some (resp, info.select cs id uvcIntfControl))
  | other (resp : Response) (info' : StreamInfo) (hnot : ¬ (req = uvcSetCur ∧ accepts))
      (hcontext : info'.context = info.context) (hlength : req = uvcSetCur → resp.length = -1) :
      UnitEffect accepts req cs id info (some (resp, info'))

theorem reject_effect (error : Nat) (hnot : ¬ (req = uvcSetCur ∧ accepts)) :
    UnitEffect accepts req cs id info (some (reject error resp info)) :=
  .other _ _ hnot rfl fun _ => rfl

theorem unit_setup_effect {ops : ControlOps} {cur : Int} {encode : Int → List Byte}
    (haccepts : req = uvcSetCur → accepts) (hhandler : ops.handler.isSome)
    (hlength : resp.length ≠ -1) :
    UnitEffect accepts req cs id info (unitSetup id ops cur encode req cs resp info) := by
  unfold unitSetup
  by_cases hset : req = uvcSetCur
  · rw [if_pos hset]
    exact .accepted resp hset (haccepts hset) hlength
  · have hother : ∀ resp', UnitEffect accepts req cs id info (some (resp', info)) := fun resp' =>
      .other resp' info (fun h => hset h.1) rfl fun h => absurd h hset
    rw [if_neg hset]
    obtain ⟨handler, hsome⟩ := isSome_iff_exists.mp hhandler
    rw [hsome]
    split
    · exact hother _
    · split
      · exact hother _
      · split
        · exact hother _
        · split <;> exact hother _

/-- What the camera terminal accepts. -/
def CtAccepts (config : RequestConfig) (values : ControlValues) (cs : Nat) : Prop :=
  uvcCameraTerminalSupported config cs = true ∧ ctDisabled values uvcSetCur cs ≠ some true

theorem ops_length (resp : Response) (ops : ControlOps) :
    ({ resp with length := ops.len } : Response).length ≠ -1 := by
  show (ops.len : Int) ≠ -1
  omega

theorem ct_setup_effect (hcs : cs ≠ uvcControlCt.length) :
    UnitEffect (CtAccepts config values cs) req cs uvcCtrlCameralTerminalId info
      (uvcCameraTerminalSetup config values req cs resp info) := by
  unfold uvcCameraTerminalSetup
  by_cases hlarge : uvcControlCt.length < cs
  · rw [if_pos hlarge]
    refine reject_effect _ fun h => ?_
    obtain ⟨ops, hops, -⟩ := ct_supported h.2.1
    exact absurd (List.getElem?_eq_some_iff.mp hops).1 (not_lt.mpr (le_of_lt hlarge))
  · rw [if_neg hlarge]
    have hin : cs < uvcControlCt.length := lt_of_le_of_ne (not_lt.mp hlarge) hcs
    obtain ⟨ops, hops⟩ : ∃ ops, uvcControlCt[cs]? = some ops := ⟨_, getElem?_eq_getElem hin⟩
    rw [hops, bind_some]
    by_cases hsupported : uvcCameraTerminalSupported config cs = false
    · rw [if_pos hsupported]
      refine reject_effect _ fun h => ?_
      exact Bool.false_ne_true (hsupported.symm.trans h.2.1)
    · rw [if_neg hsupported]
      have hyes : uvcCameraTerminalSupported config cs = true := Bool.not_eq_false _ ▸ hsupported
      split
      case isTrue hinfo =>
        have hreq : req ≠ uvcSetCur := hinfo.1 ▸ by decide
        exact .other _ _ (fun h => hreq h.1) rfl fun h => absurd h hreq
      case isFalse =>
        split
        case isTrue hauto =>
          refine reject_effect _ fun h => h.2.2 ?_
          rw [← hauto.1]
          exact hauto.2
        case isFalse hauto =>
          obtain ⟨ops', hops', hhandler⟩ := ct_supported hyes
          obtain rfl := some.inj (hops.symm.trans hops')
          refine unit_setup_effect (fun hreq => ⟨hyes, fun h => hauto ⟨hreq, ?_⟩⟩) hhandler
            (ops_length resp ops)
          rw [hreq]
          exact h

theorem pu_setup_effect (hcs : cs < uvcControlPu.length) :
    UnitEffect (uvcProcessingUnitSupported config cs = true) req cs uvcCtrlProcessingUnitId info
      (uvcProcessingUnitSetup config values req cs resp info) := by
  unfold uvcProcessingUnitSetup
  have hsmall : ¬ sizeofControlPu - 1 < cs := by
    have hlength : uvcControlPu.length = 19 := rfl
    rw [sizeofControlPu, hlength]
    omega
  obtain ⟨ops, hops⟩ : ∃ ops, uvcControlPu[cs]? = some ops := ⟨_, getElem?_eq_getElem hcs⟩
  rw [if_neg hsmall, hops, bind_some]
  by_cases hsupported : uvcProcessingUnitSupported config cs = false
  · rw [if_pos hsupported]
    refine reject_effect _ fun h => ?_
    exact Bool.false_ne_true (hsupported.symm.trans h.2)
  · rw [if_neg hsupported]
    have hyes : uvcProcessingUnitSupported config cs = true := Bool.not_eq_false _ ▸ hsupported
    split
    case isTrue hinfo =>
      have hreq : req ≠ uvcSetCur := hinfo.2 ▸ by decide
      exact .other _ _ (fun h => hreq h.1) rfl fun h => absurd h hreq
    case isFalse =>
      split
      case isTrue hlimit =>
        have hreq : req ≠ uvcSetCur := by
          rintro rfl
          rcases hlimit.2 with h | h | h <;> exact absurd h (by decide)
        exact reject_effect _ fun h => hreq h.1
      case isFalse =>
        obtain ⟨ops', hops', hhandler⟩ := pu_supported hyes
        obtain rfl := some.inj (hops.symm.trans hops')
        exact unit_setup_effect (fun _ => hyes) hhandler (ops_length resp ops)

theorem h264_setup_effect :
    UnitEffect (config.ops = true ∧ config.externIntr = true) req cs uvcCtrlH264ExtensionUnitId info
      (some (uvcH264ExtensionSetup config req cs ⟨0, []⟩ info)) := by
  unfold uvcH264ExtensionSetup
  split
  case isTrue hmissing =>
    refine reject_effect _ fun h => ?_
    rcases hmissing with hops | hintr
    · exact Bool.false_ne_true (hops.symm.trans h.2.1)
    · exact Bool.false_ne_true (hintr.symm.trans h.2.2)
  case isFalse hthere =>
    rw [not_or, Bool.not_eq_false, Bool.not_eq_false] at hthere
    split
    case isTrue hreq => exact .accepted _ hreq hthere (by decide)
    case isFalse hreq => exact .other _ _ (fun h => hreq h.1) rfl fun h => absurd h hreq

theorem msxu_setup_effect (hcs : cs < uvcMsxuFace.length) :
    UnitEffect (uvcMsxuUnitSupported config cs = true) req cs uvcCtrlMsxuFaceExtensionUnitId info
      (uvcMsxuFaceExtensionSetup config req cs resp info) := by
  unfold uvcMsxuFaceExtensionSetup
  obtain ⟨ops, hops⟩ : ∃ ops, uvcMsxuFace[cs]? = some ops := ⟨_, getElem?_eq_getElem hcs⟩
  rw [hops, map_some]
  split
  case isTrue hsupported =>
    refine reject_effect _ fun h => ?_
    exact Bool.false_ne_true (hsupported.symm.trans h.2)
  case isFalse hsupported =>
    have hyes : uvcMsxuUnitSupported config cs = true := Bool.not_eq_false _ ▸ hsupported
    split
    case isTrue hreq => exact .accepted _ hreq hyes (ops_length resp ops)
    case isFalse hreq =>
      have hother : ∀ resp', UnitEffect (uvcMsxuUnitSupported config cs = true) req cs
          uvcCtrlMsxuFaceExtensionUnitId info (some (resp', info)) := fun resp' =>
        .other resp' info (fun h => hreq h.1) rfl fun h => absurd h hreq
      split
      · exact hother _
      · split
        · split <;> exact hother _
        · split
          · split
            · exact hother _
            · split <;> exact hother _
          · split <;> exact hother _

end

section

variable {config : RequestConfig} {state : RequestState} {request : CtrlRequest}

structure SetupEffect (config : RequestConfig) (values : ControlValues) (request : CtrlRequest)
    (context : ControlContext) (resp : Response) (context' : ControlContext) : Prop where
  id : context'.id = request.contextId context
  accepted : request.Accepted config values → context'.cs = request.cs ∧
    context'.intf = (if request.intf = uvcIntfControl then uvcIntfControl else uvcIntfStreaming) ∧
    resp.length ≠ -1
  other : ¬ request.Accepted config values →
    context'.cs = context.cs ∧ context'.intf = context.intf
  rejected : ¬ request.Accepted config values → request.req = uvcSetCur →
    ∀ name, request.Names name → resp.length = -1

open CtrlRequest

theorem UnitEffect.setup {accepts : Prop} {id : Nat} {info : StreamInfo}
    {result : Option (Response × StreamInfo)}
    (h : UnitEffect accepts request.req request.cs id info result)
    (hinterface : request.toInterface = true) (hintf : request.intf = uvcIntfControl)
    (haccepts : request.Accepted config state.values ↔ request.req = uvcSetCur ∧ accepts) :
    ∃ resp info', (result.map fun answer => (answer.1, answer.2.setId request.id)) =
        some (resp, info') ∧
      SetupEffect config state.values request info.context resp info'.context := by
  have hcontext : request.contextId info.context = request.id := by
    rw [contextId, if_neg (by rw [hinterface]; exact Bool.noConfusion), if_pos hintf]
  cases h with
  | accepted resp hreq hyes hlength =>
    refine ⟨resp, _, rfl, hcontext.symm, fun _ => ⟨rfl, (if_pos hintf).symm, hlength⟩, ?_, ?_⟩
    · exact fun hnot => absurd (haccepts.mpr ⟨hreq, hyes⟩) hnot
    · exact fun hnot => absurd (haccepts.mpr ⟨hreq, hyes⟩) hnot
  | other resp info' hnot hsame hlength =>
    refine ⟨resp, _, rfl, hcontext.symm, fun hyes => absurd (haccepts.mp hyes) hnot, ?_, ?_⟩
    · intro _
      show info'.context.cs = _ ∧ info'.context.intf = _
      rw [hsame]
      exact ⟨rfl, rfl⟩
    · exact fun _ hreq _ _ => hlength hreq

theorem other_setup {context context' : ControlContext} (resp : Response)
    (hnot : ¬ request.Accepted config state.values) (hnames : ∀ name, ¬ request.Names name)
    (hid : context'.id = request.contextId context) (hcs : context'.cs = context.cs)
    (hintf : context'.intf = context.intf) :
    SetupEffect config state.values request context resp context' :=
  ⟨hid, fun h => absurd h hnot, fun _ => ⟨hcs, hintf⟩,
    fun _ _ name hname => absurd hname (hnames name)⟩

theorem accepted_control (config : RequestConfig) (state : RequestState)
    (hinterface : request.toInterface = true)
    (hintf : request.intf = uvcIntfControl) :
    request.Accepted config state.values ↔ request.req = uvcSetCur ∧
      ((request.id = uvcCtrlCameralTerminalId ∧ CtAccepts config state.values request.cs) ∨
        (request.id = uvcCtrlProcessingUnitId ∧
          uvcProcessingUnitSupported config request.cs = true) ∨
        (request.id = uvcCtrlH264ExtensionUnitId ∧ config.ops = true ∧ config.externIntr = true) ∨
        (request.id = uvcCtrlMsxuFaceExtensionUnitId ∧
          uvcMsxuUnitSupported config request.cs = true)) := by
  constructor
  · rintro ⟨-, hreq, ⟨-, hunit⟩ | ⟨hstreaming, -⟩⟩
    · exact ⟨hreq, hunit⟩
    · rw [hintf] at hstreaming
      exact absurd hstreaming (by decide)
  · rintro ⟨hreq, hunit⟩
    exact ⟨hinterface, hreq, .inl ⟨hintf, hunit⟩⟩

theorem control_setup_effect (hin : request.InTable) (hinterface : request.toInterface = true)
    (hintf : request.intf = uvcIntfControl) (info : StreamInfo) :
    ∃ resp info', ((uvcEventsProcessVcSetup config state.values request.req request.cs request.id
        ⟨0, []⟩ info).map fun answer => (answer.1, answer.2.setId request.id)) =
          some (resp, info') ∧
      SetupEffect config state.values request info.context resp info'.context := by
  obtain ⟨hct, hpu, hmsxu⟩ := hin hinterface hintf
  have haccepted := accepted_control config state hinterface hintf
  have hcontext : request.contextId info.context = request.id := by
    rw [contextId, if_neg (by rw [hinterface]; exact Bool.noConfusion), if_pos hintf]
  unfold uvcEventsProcessVcSetup
  by_cases hct1 : request.id = uvcCtrlCameralTerminalId
  · rw [if_neg (by rw [hct1]; decide), if_pos hct1]
    refine (ct_setup_effect (hct hct1)).setup hinterface hintf (haccepted.trans ?_)
    simp [hct1]
  by_cases hpu1 : request.id = uvcCtrlProcessingUnitId
  · rw [if_neg (by rw [hpu1]; decide), if_neg hct1, if_pos hpu1]
    refine (pu_setup_effect (hpu hpu1)).setup hinterface hintf (haccepted.trans ?_)
    simp [hpu1]
  by_cases hh264 : request.id = uvcCtrlH264ExtensionUnitId
  · rw [if_neg (by rw [hh264]; decide), if_neg hct1, if_neg hpu1, if_pos hh264]
    refine h264_setup_effect.setup hinterface hintf (haccepted.trans ?_)
    simp [hh264]
  by_cases hms1 : request.id = uvcCtrlMsxuFaceExtensionUnitId
  · rw [if_neg (by rw [hms1]; decide), if_neg hct1, if_neg hpu1, if_neg hh264, if_pos hms1]
    refine (msxu_setup_effect (hmsxu hms1)).setup hinterface hintf (haccepted.trans ?_)
    simp [hms1]
  -- no unit with controls
  have hnot : ¬ request.Accepted config state.values := by
    rw [haccepted]
    simp [hct1, hpu1, hh264, hms1]
  have hnames : ∀ name, ¬ request.Names name := by
    rintro name ⟨-, -, hname | hname⟩
    · exact hct1 hname.1
    · exact hpu1 hname.1
  rw [if_neg hct1, if_neg hpu1, if_neg hh264, if_neg hms1]
  by_cases hid : request.id = uvcCtrlInterfaceId
  · rw [if_pos hid]
    unfold uvcInterfaceSetup
    split
    · exact ⟨_, _, rfl, other_setup _ hnot hnames hcontext.symm rfl rfl⟩
    · exact ⟨_, _, rfl, other_setup _ hnot hnames hcontext.symm rfl rfl⟩
  · rw [if_neg hid]
    exact ⟨_, _, rfl, other_setup _ hnot hnames hcontext.symm rfl rfl⟩

theorem setup_stage_effect (config : RequestConfig) (state : RequestState)
    (hin : request.InTable) :
    ∃ resp info', setupStage config state request = some (resp, info') ∧
      SetupEffect config state.values request
        (state.streamInfo (request.stream config)).context resp info'.context := by
  unfold setupStage uvcEventsProcessClass
  generalize state.streamInfo (request.stream config) = info
  by_cases hinterface : request.toInterface = false
  · rw [if_pos hinterface]
    have hnot : ¬ request.Accepted config state.values := fun h =>
      Bool.false_ne_true (hinterface.symm.trans h.1)
    have hnames : ∀ name, ¬ request.Names name := fun name hname =>
      Bool.false_ne_true (hinterface.symm.trans hname.1)
    refine ⟨_, info, rfl, other_setup _ hnot hnames ?_ rfl rfl⟩
    rw [contextId, if_pos hinterface]
  rw [if_neg hinterface]
  have hyes : request.toInterface = true := Bool.not_eq_false _ ▸ hinterface
  by_cases hcontrol : request.intf = uvcIntfControl
  · rw [if_pos hcontrol]
    obtain ⟨resp, info', hresult, heffect⟩ := control_setup_effect hin hyes hcontrol
      { info with context := { info.context with size := request.length.toNat % 256 } }
    exact ⟨resp, info', hresult, heffect.id, heffect.accepted, heffect.other, heffect.rejected⟩
  rw [if_neg hcontrol]
  have hnames : ∀ name, ¬ request.Names name := fun name hname => hcontrol hname.2.1
  by_cases hstreaming : request.intf = uvcIntfStreaming ∨ request.intf = uvcIntfStreaming2
  · rw [if_pos hstreaming]
    have hcontext : request.contextId info.context = request.intf := by
      rw [contextId, if_neg hinterface, if_neg hcontrol, if_pos hstreaming]
    unfold uvcEventsProcessVsSetup
    by_cases hselects : vsSelects config request.cs = true ∧ request.req = uvcSetCur
    · rw [if_pos hselects]
      have haccepted : request.Accepted config state.values :=
        ⟨hyes, hselects.2, .inr ⟨hstreaming, hselects.1⟩⟩
      refine ⟨_, _, rfl, hcontext.symm, fun _ => ⟨rfl, (if_neg hcontrol).symm, by decide⟩, ?_, ?_⟩
      · exact fun hnot => absurd haccepted hnot
      · exact fun hnot => absurd haccepted hnot
    · rw [if_neg hselects]
      have hnot : ¬ request.Accepted config state.values := by
        rintro ⟨-, hreq, ⟨hintf, -⟩ | ⟨-, hvs⟩⟩
        · exact hcontrol hintf
        · exact hselects ⟨hvs, hreq⟩
      exact ⟨_, _, rfl, other_setup _ hnot hnames hcontext.symm rfl rfl⟩
  · rw [if_neg hstreaming]
    have hnot : ¬ request.Accepted config state.values := by
      rintro ⟨-, -, ⟨hintf, -⟩ | ⟨hintf, -⟩⟩
      · exact hcontrol hintf
      · exact hstreaming hintf
    refine ⟨_, _, rfl, other_setup _ hnot hnames ?_ rfl rfl⟩
    rw [contextId, if_neg hinterface, if_neg hcontrol, if_neg hstreaming]

theorem cs_lt (request : CtrlRequest) : request.cs < 256 := by
  rw [cs]
  omega

/-- A selector that is not in the table is looked up outside of it. -/
theorem setup_stage_none (hout : ¬ request.InTable) : setupStage config state request = none := by
  unfold CtrlRequest.InTable at hout
  push Not at hout
  obtain ⟨hinterface, hintf, hunits⟩ := hout
  have hnone : ∀ info, uvcEventsProcessVcSetup config state.values request.req request.cs request.id
      ⟨0, []⟩ info = none := by
    intro info
    unfold uvcEventsProcessVcSetup
    by_cases hct : request.id = uvcCtrlCameralTerminalId ∧ request.cs = uvcControlCt.length
    · rw [if_neg (by rw [hct.1]; decide), if_pos hct.1, uvcCameraTerminalSetup,
        if_neg (not_lt.mpr (le_of_eq hct.2)), getElem?_eq_none (le_of_eq hct.2.symm)]
      rfl
    by_cases hpu : request.id = uvcCtrlProcessingUnitId ∧ uvcControlPu.length ≤ request.cs
    · have hsmall : ¬ sizeofControlPu - 1 < request.cs := by
        have hlength : uvcControlPu.length = 19 := rfl
        have hcs := cs_lt request
        rw [sizeofControlPu, hlength]
        omega
      rw [if_neg (by rw [hpu.1]; decide), if_neg (by rw [hpu.1]; decide), if_pos hpu.1,
        uvcProcessingUnitSetup, if_neg hsmall, getElem?_eq_none hpu.2]
      rfl
    · obtain ⟨hid, hcs⟩ := hunits (fun hid heq => hct ⟨hid, heq⟩) fun hid =>
        Nat.lt_of_not_le fun hle => hpu ⟨hid, hle⟩
      rw [if_neg (by rw [hid]; decide), if_neg (by rw [hid]; decide), if_neg (by rw [hid]; decide),
        if_neg (by rw [hid]; decide), if_pos hid, uvcMsxuFaceExtensionSetup, getElem?_eq_none hcs]
      rfl
  unfold setupStage uvcEventsProcessClass
  rw [if_neg (by rw [hinterface]; exact Bool.noConfusion)]
  rw [if_pos hintf, hnone]
  rfl

end

/-! ## The data stage -/

section

variable {cs : Nat} {ops : ControlOps} {data : List Byte}

theorem store_effect (data : List Byte) (cur : Nat → Int) {handler : ControlHandler}
    (hentry : EntryOk cs ops)
    (hhandler : ops.handler = some handler) :
    (∀ i, (handler.store data cur).1 i ≠ cur i → i = cs) ∧
      ((handler.store data cur).1 = cur ↔ StoresNothing ops data cur) := by
  have hnothing : StoresNothing ops data cur ↔
      ∀ setter ∈ handler.fdata, setter.value data = cur setter.cs := by
    constructor
    · exact fun h => h handler hhandler
    · intro h handler' hhandler'
      obtain rfl := some.inj (hhandler.symm.trans hhandler')
      exact h
  rw [hnothing]
  unfold ControlHandler.store
  cases hdata : handler.fdata with
  | none => exact ⟨fun i h => absurd rfl h, fun _ => nofun, fun _ => rfl⟩
  | some setter =>
    have hown : setter.cs = cs := hentry.own handler hhandler setter hdata
    have hall : (∀ setter' ∈ some setter, setter'.value data = cur setter'.cs) ↔
        setter.value data = cur setter.cs :=
      ⟨fun h => h setter rfl, fun h setter' h' => by
        obtain rfl := some.inj h'
        exact h⟩
    rw [hall]
    dsimp only
    unfold ControlSetter.store
    split
    case isTrue hrepeat => exact ⟨fun i h => absurd rfl h, fun _ => hrepeat.2, fun _ => rfl⟩
    case isFalse =>
      constructor
      · intro i hne
        by_contra hother
        rw [← hown] at hother
        exact hne (update_of_ne hother _ _)
      · exact update_eq_self_iff

theorem ct_data_effect (values : ControlValues) (hops : uvcControlCt[cs]? = some ops)
    (hdata : data.length ≠ 0) :
    ∃ stage, uvcCameraTerminalData values cs data = some stage ∧
      (∀ name, stage.values.get name ≠ values.get name → name = .ct cs) ∧
      (stage.values = values ↔ (data.length = ops.len → ctRefuses ops cs data = false →
        StoresNothing ops data values.ct)) := by
  have hentry := ct_entry hops
  unfold uvcCameraTerminalData
  rw [hops, bind_some]
  by_cases hlength : data.length = ops.len
  · rw [if_neg (not_not.mpr hlength)]
    by_cases hrefuses : ctRefuses ops cs data = true
    · rw [if_pos hrefuses]
      refine ⟨_, rfl, fun name h => absurd rfl h, fun _ _ hok => ?_, fun _ => rfl⟩
      exact absurd (hrefuses.symm.trans hok) Bool.noConfusion
    · rw [if_neg hrefuses]
      obtain ⟨handler, hhandler⟩ := isSome_iff_exists.mp
        (hentry.handler (hlength ▸ hdata))
      obtain ⟨hown, hsame⟩ := store_effect data values.ct hentry hhandler
      rw [hhandler]
      refine ⟨_, rfl, ?_, ?_⟩
      · rintro (i | i) hne
        · exact congrArg ControlName.ct (hown i hne)
        · exact absurd rfl hne
      · rw [forall_prop_of_true hlength, forall_prop_of_true (Bool.eq_false_iff.mpr hrefuses),
          ← hsame]
        exact ⟨fun h => congrArg ControlValues.ct h, fun h => by
          show ({ values with ct := (handler.store data values.ct).1 } : ControlValues) = values
          rw [h]⟩
  · rw [if_pos hlength]
    exact ⟨_, rfl, fun name h => absurd rfl h, fun _ h => absurd h hlength, fun _ => rfl⟩

theorem pu_data_effect (values : ControlValues) (hops : uvcControlPu[cs]? = some ops)
    (hdata : data.length ≠ 0) :
    ∃ stage, uvcProcessingUnitData values cs data = some stage ∧
      (∀ name, stage.values.get name ≠ values.get name → name = .pu cs) ∧
      (stage.values = values ↔ (data.length = ops.len → puRefuses values ops cs data = none →
        StoresNothing ops data values.pu)) := by
  have hentry := pu_entry hops
  unfold uvcProcessingUnitData
  rw [hops, bind_some]
  by_cases hlength : data.length = ops.len
  · rw [if_neg (not_not.mpr hlength)]
    cases hrefuses : puRefuses values ops cs data with
    | some error =>
      refine ⟨_, rfl, fun name h => absurd rfl h, fun _ _ hok => ?_, fun _ => rfl⟩
      exact absurd hok (some_ne_none error)
    | none =>
      obtain ⟨handler, hhandler⟩ := isSome_iff_exists.mp
        (hentry.handler (hlength ▸ hdata))
      obtain ⟨hown, hsame⟩ := store_effect data values.pu hentry hhandler
      rw [hhandler]
      refine ⟨_, rfl, ?_, ?_⟩
      · rintro (i | i) hne
        · exact absurd rfl hne
        · exact congrArg ControlName.pu (hown i hne)
      · rw [forall_prop_of_true hlength, forall_prop_of_true rfl, ← hsame]
        exact ⟨fun h => congrArg ControlValues.pu h, fun h => by
          show ({ values with pu := (handler.store data values.pu).1 } : ControlValues) = values
          rw [h]⟩
  · rw [if_pos hlength]
    exact ⟨_, rfl, fun name h => absurd rfl h, fun _ h => absurd h hlength, fun _ => rfl⟩

end

section

variable {config : RequestConfig} {state : RequestState} {request : CtrlRequest}
  {context : ControlContext} {data : List Byte} {info : StreamInfo} {resp : Response}

theorem accepted_data (haccepted : request.Accepted config state.values) (hin : request.InTable)
    (hdata : data.length ≠ 0) (hcs : context.cs = request.cs)
    (hid : request.toInterface = true → request.intf = uvcIntfControl → context.id = request.id)
    (hintf : context.intf =
      if request.intf = uvcIntfControl then uvcIntfControl else uvcIntfStreaming) :
    ∃ stage, uvcEventsProcessData config state.values context data = some stage ∧
      ∀ name, stage.values.get name ≠ state.values.get name → request.Names name := by
  unfold uvcEventsProcessData
  by_cases hcontrol : request.intf = uvcIntfControl
  · rw [if_pos hcontrol] at hintf
    have hinterface := haccepted.1
    have hid := hid hinterface hcontrol
    rw [if_pos hintf]
    unfold uvcEventsProcessVcData
    rw [hid, hcs]
    rcases ((accepted_control config state hinterface hcontrol).mp haccepted).2 with
      ⟨hunit, hct⟩ | ⟨hunit, hpu⟩ | ⟨hunit, hops, -⟩ | ⟨hunit, -⟩
    · rw [if_pos hunit]
      obtain ⟨ops, hops, -⟩ := ct_supported hct.1
      obtain ⟨stage, hstage, hnamed, -⟩ := ct_data_effect state.values hops hdata
      exact ⟨stage, hstage, fun name hne => ⟨hinterface, hcontrol, .inl ⟨hunit, hnamed name hne⟩⟩⟩
    · rw [if_neg (by rw [hunit]; decide), if_pos hunit]
      obtain ⟨ops, hops, -⟩ := pu_supported hpu
      obtain ⟨stage, hstage, hnamed, -⟩ := pu_data_effect state.values hops hdata
      exact ⟨stage, hstage, fun name hne => ⟨hinterface, hcontrol, .inr ⟨hunit, hnamed name hne⟩⟩⟩
    · rw [if_neg (by rw [hunit]; decide), if_neg (by rw [hunit]; decide), if_pos hunit, if_pos hops]
      exact ⟨_, rfl, fun name hne => absurd rfl hne⟩
    · have hcs' := ((hin hinterface hcontrol).2.2) hunit
      rw [if_neg (by rw [hunit]; decide), if_neg (by rw [hunit]; decide),
        if_neg (by rw [hunit]; decide), if_pos hunit, getElem?_eq_getElem hcs']
      exact ⟨_, rfl, fun name hne => absurd rfl hne⟩
  · rw [if_neg hcontrol] at hintf
    rw [if_neg (by rw [hintf]; decide)]
    exact ⟨_, rfl, fun name hne => absurd rfl hne⟩

/-- Data that meets the context of an earlier request does no harm exactly if nothing outside of the
tables is read, and a `SET_CUR` changes nothing. -/
theorem harmless_iff (hlength : request.received.length ≠ 0)
    (hcs : context.cs = (state.streamInfo (request.stream config)).context.cs)
    (hintf : context.intf = (state.streamInfo (request.stream config)).context.intf)
    (hid : context.id = request.contextId (state.streamInfo (request.stream config)).context) :
    request.Harmless config state ↔
      ∃ stage, uvcEventsProcessData config state.values context request.received = some stage ∧
        (request.req = uvcSetCur → stage.values = state.values) := by
  unfold CtrlRequest.Harmless uvcEventsProcessData
  dsimp only
  rw [← hcs, ← hintf, ← hid]
  by_cases hcontrol : context.intf = uvcIntfControl
  · rw [if_pos hcontrol, forall_prop_of_true hcontrol]
    unfold uvcEventsProcessVcData
    by_cases hct : context.id = uvcCtrlCameralTerminalId
    · rw [if_pos hct]
      constructor
      · rintro ⟨h, -⟩
        obtain ⟨ops, hops, hnothing⟩ := h hct
        obtain ⟨stage, hstage, -, hsame⟩ := ct_data_effect state.values hops hlength
        exact ⟨stage, hstage, fun hreq => hsame.mpr (hnothing hreq)⟩
      · rintro ⟨stage, hstage, hnothing⟩
        have hother : ∀ id, id ≠ uvcCtrlCameralTerminalId → context.id ≠ id := fun id hne h =>
          hne (h.symm.trans hct)
        refine ⟨fun _ => ?_, fun h => absurd h (hother _ (by decide)),
          fun h => absurd h (hother _ (by decide)), fun h => absurd h (hother _ (by decide))⟩
        cases hops : uvcControlCt[context.cs]? with
        | none =>
          rw [uvcCameraTerminalData, hops] at hstage
          exact absurd hstage (some_ne_none stage).symm
        | some ops =>
          obtain ⟨stage', hstage', -, hsame⟩ := ct_data_effect state.values hops hlength
          obtain rfl := some.inj (hstage.symm.trans hstage')
          exact ⟨ops, rfl, fun hreq => hsame.mp (hnothing hreq)⟩
    by_cases hpu : context.id = uvcCtrlProcessingUnitId
    · rw [if_neg hct, if_pos hpu]
      constructor
      · rintro ⟨-, h, -⟩
        obtain ⟨ops, hops, hnothing⟩ := h hpu
        obtain ⟨stage, hstage, -, hsame⟩ := pu_data_effect state.values hops hlength
        exact ⟨stage, hstage, fun hreq => hsame.mpr (hnothing hreq)⟩
      · rintro ⟨stage, hstage, hnothing⟩
        have hother : ∀ id, id ≠ uvcCtrlProcessingUnitId → context.id ≠ id := fun id hne h =>
          hne (h.symm.trans hpu)
        refine ⟨fun h => absurd h hct, fun _ => ?_,
          fun h => absurd h (hother _ (by decide)), fun h => absurd h (hother _ (by decide))⟩
        cases hops : uvcControlPu[context.cs]? with
        | none =>
          rw [uvcProcessingUnitData, hops] at hstage
          exact absurd hstage (some_ne_none stage).symm
        | some ops =>
          obtain ⟨stage', hstage', -, hsame⟩ := pu_data_effect state.values hops hlength
          obtain rfl := some.inj (hstage.symm.trans hstage')
          exact ⟨ops, rfl, fun hreq => hsame.mp (hnothing hreq)⟩
    rw [if_neg hct, if_neg hpu]
    by_cases hh264 : context.id = uvcCtrlH264ExtensionUnitId
    · rw [if_pos hh264]
      have hmsxu : context.id ≠ uvcCtrlMsxuFaceExtensionUnitId := by
        rw [hh264]
        decide
      constructor
      · rintro ⟨-, -, h, -⟩
        rw [if_pos (h hh264)]
        exact ⟨_, rfl, fun _ => rfl⟩
      · rintro ⟨stage, hstage, -⟩
        refine ⟨fun h => absurd h hct, fun h => absurd h hpu, fun _ => ?_, fun h => absurd h hmsxu⟩
        by_contra hops
        rw [if_neg hops] at hstage
        exact absurd hstage (some_ne_none stage).symm
    rw [if_neg hh264]
    by_cases hmsxu : context.id = uvcCtrlMsxuFaceExtensionUnitId
    · rw [if_pos hmsxu]
      constructor
      · rintro ⟨-, -, -, h⟩
        rw [getElem?_eq_getElem (h hmsxu)]
        exact ⟨_, rfl, fun _ => rfl⟩
      · rintro ⟨stage, hstage, -⟩
        refine ⟨fun h => absurd h hct, fun h => absurd h hpu, fun h => absurd h hh264, fun _ => ?_⟩
        obtain ⟨ops, hops, -⟩ := map_eq_some_iff.mp hstage
        exact (List.getElem?_eq_some_iff.mp hops).1
    · rw [if_neg hmsxu]
      exact ⟨fun _ => ⟨_, rfl, fun _ => rfl⟩, fun _ => ⟨fun h => absurd h hct,
        fun h => absurd h hpu, fun h => absurd h hh264, fun h => absurd h hmsxu⟩⟩
  · rw [if_neg hcontrol]
    exact ⟨fun _ => ⟨_, rfl, fun _ => rfl⟩, fun _ h => absurd h hcontrol⟩

theorem received_length (request : CtrlRequest) :
    request.received.length = request.length.toNat := by
  rw [CtrlRequest.received, length_map, length_range]

theorem values_eq {values values' : ControlValues}
    (h : ∀ name, values'.get name = values.get name) : values' = values := by
  have hct : values'.ct = values.ct := funext fun cs => h (.ct cs)
  have hpu : values'.pu = values.pu := funext fun cs => h (.pu cs)
  cases values
  cases values'
  exact congrArg₂ ControlValues.mk hct hpu

theorem unchanged_ok {state' : RequestState}
    (hstep : requestStep config state request = some state')
    (hsame : request.req = uvcSetCur → state'.values = state.values) :
    RequestOk config state request := by
  have hall : ∀ state'', requestStep config state request = some state'' →
      request.req = uvcSetCur → state''.values = state.values := by
    intro state'' hstep' hreq
    obtain rfl := some.inj (hstep.symm.trans hstep')
    exact hsame hreq
  refine ⟨isSome_iff_exists.mpr ⟨state', hstep⟩, fun state'' hstep' hreq name hne => ?_,
    fun state'' hstep' _ hreq _ => hall state'' hstep' hreq⟩
  rw [hall state'' hstep' hreq] at hne
  exact absurd rfl hne

theorem step_without_data (hclass : request.isClass = true)
    (hsetup : setupStage config state request = some (resp, info))
    (hdata : request.hasData = false) :
    ∃ state', requestStep config state request = some state' ∧ state'.values = state.values := by
  refine ⟨state.setInfo (request.stream config) info, ?_, rfl⟩
  rw [requestStep, if_neg (by rw [hclass]; exact Bool.noConfusion), hsetup, bind_some]
  exact if_neg (by rw [hdata]; exact Bool.false_ne_true)

theorem step_with_data (hclass : request.isClass = true)
    (hsetup : setupStage config state request = some (resp, info))
    (hdata : request.hasData = true) :
    (requestStep config state request).map RequestState.values =
      (uvcEventsProcessData config state.values info.context request.received).map
        DataStage.values := by
  have hinfo : (state.setInfo (request.stream config) info).streamInfo (request.stream config) =
      info := update_self ..
  rw [requestStep, if_neg (by rw [hclass]; exact Bool.noConfusion), hsetup, bind_some]
  dsimp only
  rw [if_pos hdata, readOutDataDone, hinfo, Option.map_map]
  rfl

theorem has_data_length (hdata : request.hasData = true) : request.received.length ≠ 0 := by
  rw [CtrlRequest.hasData, Bool.and_eq_true, Bool.and_eq_true, decide_eq_true_iff] at hdata
  rw [received_length]
  exact Nat.ne_of_gt (of_decide_eq_true hdata.1.2)

theorem RequestOk.suits (hok : RequestOk config state request) :
    RequestSuits config state request := by
  intro hclass
  obtain ⟨state', hstep⟩ := isSome_iff_exists.mp hok.inside
  have hin : request.InTable := by
    by_contra hout
    rw [requestStep, if_neg (by rw [hclass]; exact Bool.noConfusion), setup_stage_none hout]
      at hstep
    exact absurd hstep (some_ne_none state').symm
  refine ⟨hin, fun hdata => ?_⟩
  by_cases haccepted : request.Accepted config state.values
  · exact .inl haccepted
  · obtain ⟨resp, info, hsetup, heffect⟩ := setup_stage_effect config state hin
    obtain ⟨hcs, hintf⟩ := heffect.other haccepted
    have hvalues := step_with_data hclass hsetup hdata
    rw [hstep] at hvalues
    obtain ⟨stage, hstage, hstate⟩ := map_eq_some_iff.mp hvalues.symm
    refine .inr ((harmless_iff (has_data_length hdata) hcs hintf heffect.id).mpr
      ⟨stage, hstage, fun hreq => ?_⟩)
    rw [hstate]
    by_cases hnames : ∃ name, request.Names name
    · -- the control of a rejected request keeps its value
      obtain ⟨name, hname⟩ := hnames
      have hlength := heffect.rejected haccepted hreq name hname
      exact hok.rejected state' hstep hclass hreq ⟨resp, info, hsetup, hlength⟩
    · refine values_eq fun name => ?_
      by_contra hne
      exact hnames ⟨name, hok.named state' hstep hreq name hne⟩

theorem RequestSuits.ok (hsuits : RequestSuits config state request) :
    RequestOk config state request := by
  by_cases hclass : request.isClass = true
  · obtain ⟨hin, hallowed⟩ := hsuits hclass
    obtain ⟨resp, info, hsetup, heffect⟩ := setup_stage_effect config state hin
    by_cases hdata : request.hasData = true
    · have hvalues := step_with_data hclass hsetup hdata
      have hlength := has_data_length hdata
      by_cases haccepted : request.Accepted config state.values
      · obtain ⟨hcs, hintf, hkept⟩ := heffect.accepted haccepted
        have hid : request.toInterface = true → request.intf = uvcIntfControl →
            info.context.id = request.id := by
          intro hinterface hcontrol
          rw [heffect.id, CtrlRequest.contextId,
            if_neg (by rw [hinterface]; exact Bool.noConfusion), if_pos hcontrol]
        obtain ⟨stage, hstage, hnamed⟩ := accepted_data haccepted hin hlength hcs hid hintf
        rw [hstage] at hvalues
        obtain ⟨state', hstep, hstate⟩ := map_eq_some_iff.mp hvalues
        refine ⟨isSome_iff_exists.mpr ⟨state', hstep⟩, ?_, ?_⟩
        · intro state'' hstep' _ name hne
          obtain rfl := some.inj (hstep.symm.trans hstep')
          rw [hstate] at hne
          exact hnamed name hne
        · rintro state'' - - - ⟨resp', info', hsetup', hreject⟩
          have hsame := some.inj (hsetup.symm.trans hsetup')
          exact absurd ((congrArg (fun answer => answer.1.length) hsame).trans hreject) hkept
      · have hharmless := (hallowed hdata).resolve_left haccepted
        obtain ⟨hcs, hintf⟩ := heffect.other haccepted
        obtain ⟨stage, hstage, hsame⟩ := (harmless_iff hlength hcs hintf heffect.id).mp hharmless
        rw [hstage] at hvalues
        obtain ⟨state', hstep, hstate⟩ := map_eq_some_iff.mp hvalues
        exact unchanged_ok hstep fun hreq => hstate.trans (hsame hreq)
    · obtain ⟨state', hstep, hstate⟩ := step_without_data hclass hsetup (Bool.not_eq_true _ ▸ hdata)
      exact unchanged_ok hstep fun _ => hstate
  · have hstep : requestStep config state request = some state :=
      if_pos (Bool.not_eq_true _ ▸ hclass)
    exact unchanged_ok hstep fun _ => rfl

/-- Every request of a run is all right exactly if every request suits. -/
theorem requests_ok_iff (config : RequestConfig) (state : RequestState)
    (requests : List CtrlRequest) :
    AllSteps (requestStep config) (RequestOk config) state requests ↔
      AllSteps (requestStep config) (RequestSuits config) state requests :=
  ⟨fun h => h.imp fun _ _ => RequestOk.suits, fun h => h.imp fun _ _ => RequestSuits.ok⟩

end

/-- The masks of `uvc_init.h`, with one stream and no extension. -/
def defaultControls : RequestConfig where
  ctControls := 0x20e
  puControls := 0x165b
  msxuControls := 0
  stillImage := false
  streamingIntf2 := none
  ops := true
  externIntr := false

/-- The tables and the streams before the first request. -/
def requestStart : RequestState where
  values := ⟨fun cs => (uvcControlCt[cs]?.map ControlOps.cur).getD 0,
    fun cs => (uvcControlPu[cs]?.map ControlOps.cur).getD 0⟩
  streamInfo := fun _ => ⟨⟨0, 0, 0, 0⟩, uvcReqErrorNo⟩

/-- A request to the processing unit. -/
def puRequest (requestType request : BitVec 8) (cs : BitVec 16) (data : List Byte) : CtrlRequest :=
  ⟨requestType, request, cs <<< 8, 0x0200#16, BitVec.ofNat 16 data.length, true, data⟩

/-- A `SET_CUR` of the hue, which the device does not support, changes the brightness that was set
before. A request with a selector behind the table reads outside of it. -/
theorem some_requests_not_ok :
    ¬ AllSteps (requestStep defaultControls) (RequestOk defaultControls) requestStart
        [puRequest 0x21#8 0x01#8 0x02#16 [200#8, 0#8],
          puRequest 0x21#8 0x01#8 0x06#16 [10#8, 0#8]] ∧
      ¬ AllSteps (requestStep defaultControls) (RequestOk defaultControls) requestStart
        [puRequest 0xa1#8 0x85#8 0x13#16 [0#8]] := by
  refine ⟨fun hall => ?_, fun hall => ?_⟩
  · have hok := (hall.2 _ rfl).1
    have hsame := hok.rejected _ rfl rfl rfl ⟨_, _, rfl, rfl⟩
    exact absurd (congrArg (fun values => values.pu Pu.brightnessControl) hsame) (by decide)
  · exact Bool.false_ne_true hall.1.inside

end FullhanRtos.Uvc
