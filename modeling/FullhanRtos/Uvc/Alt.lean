import FullhanRtos.Lib.Transition
import Mathlib.Data.BitVec

/-!
# Alternate settings

The isochronous UVC function of `f_uvc.c` and the requests that `core.c` passes on to it:
`uvc_function_set_alt`, `uvc_function_get_alt` and `uvc_function_disable`, called for
`SET_CONFIGURATION` and `SET_INTERFACE`. Four pieces describe a stream: the alternate number, the
state, the endpoint descriptor and the packet size. The number is stored before the state is looked
at.

`alt_ok_iff` says which requests keep the pieces together.
-/

namespace FullhanRtos.Uvc

open Transition Nat
open Option hiding or_assoc

/-! ## Descriptors -/

def maxConfigInterfaces : Nat := 16

def uvcPacketSize : Nat := 1024

/-- A build and a device: `ISOC_HIGH_BANDWIDTH_EP`, `UVC_DOUBLE_STREAM`, the number of the control
interface, which the streaming interfaces follow, `bNumConfigurations`, and whether `ep_disable` of
the controller's driver disables the endpoint. The one of `drv_usbd.c` does nothing. -/
structure IsocConfig where
  highBandwidth : Bool
  doubleStream : Bool
  controlIntf : Nat
  numConfigurations : Nat
  disables : Bool
  intf_lt : controlIntf + 2 < maxConfigInterfaces

inductive StreamId where
  | one
  | two
  deriving DecidableEq

/-- The endpoint descriptors: `uvc_streaming1_ep` with `uvc_streaming1_ep_alt2` to
`uvc_streaming1_ep_alt8`, and `uvc_streaming2_ep`. -/
inductive EpDesc where
  | streaming1 (alt : Nat)
  | streaming2
  deriving DecidableEq

def isocCnt (config : IsocConfig) : Nat := if config.highBandwidth then 3 else 1

def uvcPacketSizeAlt (config : IsocConfig) : Nat → Nat
  | 1 => uvcPacketSize * isocCnt config
  | 2 => if config.highBandwidth then uvcPacketSize / 8 * 6 * isocCnt config else uvcPacketSize
  | 3 => if config.highBandwidth then uvcPacketSize / 8 * 4 * isocCnt config else uvcPacketSize
  | 4 => uvcPacketSize
  | 5 => uvcPacketSize / 8 * 6
  | 6 => uvcPacketSize / 2
  | 7 => uvcPacketSize / 4
  | 8 => uvcPacketSize / 8
  | _ => 0

/-- The packets in a microframe that an alternate setting allows. -/
def altCnt (config : IsocConfig) (alt : Nat) : Nat := if alt ≤ 3 then isocCnt config else 1

/-- `wMaxPacketSize`. -/
def EpDesc.wMaxPacketSize (config : IsocConfig) : EpDesc → BitVec 16
  | .streaming1 alt =>
    BitVec.ofNat 16 (altCnt config alt - 1) <<< 11 |||
      BitVec.ofNat 16 (uvcPacketSizeAlt config alt / altCnt config alt)
  | .streaming2 => BitVec.ofNat 16 uvcPacketSize

def EpDesc.packetSize (config : IsocConfig) (desc : EpDesc) : Nat :=
  (desc.wMaxPacketSize config &&& 0x7ff#16).toNat *
    (((desc.wMaxPacketSize config >>> 11) &&& 0x3#16).toNat + 1)

/-- The alternate settings that the descriptors advertise: eight of the first stream and one of the
second stream. -/
def altDescriptor (id : StreamId) (alt : Nat) : Option EpDesc :=
  match id with
  | .one => if 1 ≤ alt ∧ alt ≤ 8 then some (.streaming1 alt) else none
  | .two => if alt = 1 then some .streaming2 else none

/-! ## The function -/

inductive UvcState where
  | disconnected
  | connected
  | streaming
  deriving DecidableEq

/-- `struct uvc_device`, its endpoint and the packet size of its `struct uvc_video_buf`. -/
structure UvcDevice where
  state : UvcState
  alt : Nat
  epDesc : EpDesc
  epEnabled : Bool
  packetSize : Nat

/-- `struct uvc_common`, and whether the device is configured. A build with one stream has no
`uvc2`. -/
structure UvcCommon where
  configured : Bool
  uvc1 : UvcDevice
  uvc2 : Option UvcDevice

def uvcEpAltCfg (desc : EpDesc) (alt : Nat) : EpDesc :=
  if 1 ≤ alt ∧ alt ≤ 8 then .streaming1 alt else desc

/-- The packet size after `uvc_driver_buf_reinit`. -/
def reinitPacketSize : StreamId → Nat → Nat
  | .one, altSize => altSize
  | .two, _ => uvcPacketSize

/-- Alternate setting 0 while the stream is on. -/
def streamOff (config : IsocConfig) (id : StreamId) (uvc : UvcDevice) : UvcDevice :=
  { uvc with
    packetSize := reinitPacketSize id 0
    epEnabled := uvc.epEnabled && !config.disables
    state := .connected }

/-- Alternate settings 1 to 8 while the stream is off. -/
def streamOn (config : IsocConfig) (id : StreamId) (alt : Nat) (uvc : UvcDevice) : UvcDevice :=
  match id with
  | .one =>
    let epDesc := uvcEpAltCfg uvc.epDesc alt
    { uvc with
      epDesc
      packetSize := reinitPacketSize .one (epDesc.packetSize config)
      epEnabled := true
      state := .streaming }
  | .two =>
    { uvc with
      packetSize := reinitPacketSize .two uvcPacketSize
      epEnabled := true
      state := .streaming }

def einval : Int := -22

def setStreamAlt (config : IsocConfig) (id : StreamId) (alt : Nat) (uvc : UvcDevice) :
    UvcDevice × Int :=
  let uvc := { uvc with alt }
  if alt = 0 then
    if uvc.state ≠ .streaming then (uvc, 0) else (streamOff config id uvc, 0)
  else if alt ≤ 8 then
    if uvc.state ≠ .connected then (uvc, 0) else (streamOn config id alt uvc, 0)
  else (uvc, einval)

/-- `UVC_STATE_CONNECTED` by alternate setting 0 of the control interface. -/
def connect (uvc : UvcDevice) : UvcDevice :=
  if uvc.state = .disconnected then { uvc with state := .connected } else uvc

/-- The numbers of the streaming interfaces. -/
def IsocConfig.streamingIntf (config : IsocConfig) : StreamId → Nat
  | .one => config.controlIntf + 1
  | .two => config.controlIntf + 2

/-- `uvc_function_set_alt`: `none` when it reads the interface number of an absent second stream. -/
def uvcFunctionSetAlt (config : IsocConfig) (interface alt : Nat) (comm : UvcCommon) :
    Option (UvcCommon × Int) :=
  if interface = config.controlIntf then
    if alt ≠ 0 then some (comm, einval)
    else some ({ comm with uvc1 := connect comm.uvc1, uvc2 := comm.uvc2.map connect }, 0)
  else if interface = config.streamingIntf .one then
    let (uvc1, value) := setStreamAlt config .one alt comm.uvc1
    some ({ comm with uvc1 }, value)
  else
    -- `interface != uvc2->streaming_intf` is there in both builds
    match comm.uvc2 with
    | none => none
    | some uvc2 =>
      if interface = config.streamingIntf .two then
        let (uvc2, value) := setStreamAlt config .two alt uvc2
        some ({ comm with uvc2 := some uvc2 }, value)
      else some (comm, einval)

def uvcFunctionGetAlt (config : IsocConfig) (interface : Nat) (comm : UvcCommon) : Int :=
  if interface = config.controlIntf then 0
  else if interface = config.streamingIntf .one then comm.uvc1.alt
  else
    match comm.uvc2 with
    | none => einval
    | some uvc2 => if interface = config.streamingIntf .two then uvc2.alt else einval

def uvcFunctionDisable (comm : UvcCommon) : UvcCommon :=
  { comm with
    uvc1 := { comm.uvc1 with state := .disconnected }
    uvc2 := comm.uvc2.map fun uvc2 => { uvc2 with state := .disconnected } }

/-! ## Requests -/

/-- The interfaces of the function in the configuration. -/
def IsocConfig.ownsInterface (config : IsocConfig) (intf : Nat) : Bool :=
  decide (intf = config.controlIntf) || decide (intf = config.streamingIntf .one) ||
    (config.doubleStream && decide (intf = config.streamingIntf .two))

/-- `_set_interface`: the interface is found by the low byte of `wIndex`, but the whole `wIndex` is
passed on. -/
def setInterface (config : IsocConfig) (wIndex wValue : BitVec 16) (comm : UvcCommon) :
    Option UvcCommon :=
  let intf := wIndex.toNat % 256
  if comm.configured = false ∨ maxConfigInterfaces ≤ intf then some comm
  else if config.ownsInterface intf then
    (uvcFunctionSetAlt config wIndex.toNat wValue.toNat comm).map (·.1)
  else some comm

/-- `_set_config`: alternate setting 0 for every interface. -/
def setConfig (config : IsocConfig) (wValue : BitVec 16) (comm : UvcCommon) : Option UvcCommon :=
  if config.numConfigurations < wValue.toNat then some comm
  else if wValue = 0#16 then some { comm with configured := false }
  else do
    let (comm, _) ← uvcFunctionSetAlt config config.controlIntf 0 comm
    let (comm, _) ← uvcFunctionSetAlt config (config.streamingIntf .one) 0 comm
    let (comm, _) ←
      (if config.doubleStream then uvcFunctionSetAlt config (config.streamingIntf .two) 0 comm
        else some (comm, 0))
    pure { comm with configured := true }

/-- What the host and the controller do. -/
inductive UvcEvent where
  | setConfiguration (wValue : BitVec 16)
  | setInterface (wIndex wValue : BitVec 16)
  | disable

def altStep (config : IsocConfig) (comm : UvcCommon) : UvcEvent → Option UvcCommon
  | .setConfiguration wValue => setConfig config wValue comm
  | .setInterface wIndex wValue => setInterface config wIndex wValue comm
  | .disable => some (uvcFunctionDisable comm)

/-- A stream after `uvc_function_bind`, with the packet size of `uvc_driver_buf_init`. -/
def boundStream (desc : EpDesc) (packetSize : Nat) : UvcDevice where
  state := .disconnected
  alt := 0
  epDesc := desc
  epEnabled := false
  packetSize := packetSize

def altStart (config : IsocConfig) : UvcCommon where
  configured := false
  uvc1 := boundStream (.streaming1 1) (uvcPacketSize * isocCnt config)
  uvc2 := if config.doubleStream then some (boundStream .streaming2 uvcPacketSize) else none

/-! ## The pieces of a stream -/

/-- The stream with a number, if there is one. -/
def UvcCommon.stream (comm : UvcCommon) : StreamId → Option UvcDevice
  | .one => some comm.uvc1
  | .two => comm.uvc2

/-- While the stream is on, the alternate setting that is reported is one of 1 to 8, and the
descriptor and the packet size are its own. Otherwise the endpoint is disabled. -/
structure StreamOk (config : IsocConfig) (id : StreamId) (reported : Int) (uvc : UvcDevice) :
    Prop where
  streaming : uvc.state = .streaming → ∃ alt : Nat, reported = alt ∧ 1 ≤ alt ∧ alt ≤ 8 ∧
    altDescriptor id alt = some uvc.epDesc ∧ uvc.packetSize = uvc.epDesc.packetSize config
  other : uvc.state ≠ .streaming → uvc.epEnabled = false

/-- All streams are in order. -/
def AltOk (config : IsocConfig) (comm : UvcCommon) : Prop :=
  ∀ id, ∀ uvc ∈ comm.stream id,
    StreamOk config id (uvcFunctionGetAlt config (config.streamingIntf id) comm) uvc

/-- `SET_INTERFACE` keeps a stream in order: a stream that is on gets its own number again, or it is
stopped by a driver that disables the endpoint, and the second stream is started with its only
setting. -/
def StreamSuits (config : IsocConfig) (id : StreamId) (alt : Nat) (uvc : UvcDevice) : Prop :=
  match uvc.state with
  | .disconnected => True
  | .connected => id = .two → 1 ≤ alt → alt ≤ 8 → alt = 1
  | .streaming => if alt = 0 then config.disables = true else alt = uvc.alt

/-- The events that keep the streams in order. -/
def Suits (config : IsocConfig) (comm : UvcCommon) : UvcEvent → Prop
  | .setConfiguration wValue => wValue.toNat ≤ config.numConfigurations → wValue ≠ 0#16 →
      ∀ id, ∀ uvc ∈ comm.stream id, uvc.state = .streaming → config.disables = true
  | .setInterface wIndex wValue => comm.configured = true →
      (config.doubleStream = false → config.ownsInterface (wIndex.toNat % 256) →
        wIndex.toNat < 256) ∧
      ∀ id, ∀ uvc ∈ comm.stream id, wIndex.toNat = config.streamingIntf id →
        StreamSuits config id wValue.toNat uvc
  | .disable => ∀ id, ∀ uvc ∈ comm.stream id, uvc.state ≠ .streaming

/-! ## One stream -/

section

variable {config : IsocConfig} {id : StreamId} {uvc : UvcDevice} {alt : Nat} {desc : EpDesc}

/-- What holds of a stream in every run. -/
structure StreamInv (id : StreamId) (uvc : UvcDevice) : Prop where
  enabled : uvc.state = .streaming → uvc.epEnabled = true
  desc : id = .two → uvc.epDesc = .streaming2

theorem stream_inv_bound {packetSize : Nat} (hdesc : id = .two → desc = .streaming2) :
    StreamInv id (boundStream desc packetSize) :=
  ⟨fun h => UvcState.noConfusion h, hdesc⟩

/-- What a request does: it stops a stream that is on, starts one that is connected, or only stores
the number. -/
theorem set_stream_alt_eq : (setStreamAlt config id alt uvc).1 =
    if uvc.state = .streaming ∧ alt = 0 then streamOff config id { uvc with alt }
    else if uvc.state = .connected ∧ 1 ≤ alt ∧ alt ≤ 8 then streamOn config id alt { uvc with alt }
    else { uvc with alt } := by
  unfold setStreamAlt
  cases hstate : uvc.state <;> grind

theorem StreamInv.set_alt (h : StreamInv id uvc) :
    StreamInv id (setStreamAlt config id alt uvc).1 := by
  rw [set_stream_alt_eq]
  split
  case isTrue => exact ⟨fun hstate => UvcState.noConfusion hstate, h.desc⟩
  case isFalse =>
    split
    case isTrue =>
      cases id with
      | one => exact ⟨fun _ => rfl, fun hid => StreamId.noConfusion hid⟩
      | two => exact ⟨fun _ => rfl, h.desc⟩
    case isFalse => exact ⟨h.enabled, h.desc⟩

theorem StreamInv.connect (h : StreamInv id uvc) : StreamInv id (connect uvc) := by
  unfold Uvc.connect
  split
  · exact ⟨fun hstate => UvcState.noConfusion hstate, h.desc⟩
  · exact h

theorem packet_size_two : EpDesc.streaming2.packetSize config = uvcPacketSize := by
  show (BitVec.ofNat 16 uvcPacketSize &&& 0x7ff#16).toNat *
    (((BitVec.ofNat 16 uvcPacketSize >>> 11) &&& 0x3#16).toNat + 1) = uvcPacketSize
  decide

theorem alt_descriptor_one (h : altDescriptor .one alt = some desc) :
    (1 ≤ alt ∧ alt ≤ 8) ∧ desc = .streaming1 alt := by
  by_cases hrange : 1 ≤ alt ∧ alt ≤ 8
  · rw [altDescriptor, if_pos hrange] at h
    exact ⟨hrange, (some.inj h).symm⟩
  · rw [altDescriptor, if_neg hrange] at h
    exact absurd h.symm (some_ne_none _)

theorem alt_descriptor_two (h : altDescriptor .two alt = some desc) : alt = 1 := by
  by_contra hne
  rw [altDescriptor, if_neg hne] at h
  exact absurd h.symm (some_ne_none _)

/-- The alternate settings of a stream have different descriptors. -/
theorem alt_descriptor_inj {alt' : Nat} (h : altDescriptor id alt = some desc)
    (h' : altDescriptor id alt' = some desc) : alt = alt' := by
  cases id with
  | one =>
    have heq := (alt_descriptor_one h).2.symm.trans (alt_descriptor_one h').2
    exact EpDesc.streaming1.inj heq
  | two => rw [alt_descriptor_two h, alt_descriptor_two h']

/-- A stream that is started has the pieces of its alternate setting, if there is such a setting. -/
theorem stream_on_ok_iff (hinv : StreamInv id uvc) (hlow : 1 ≤ alt) (hhigh : alt ≤ 8) :
    StreamOk config id alt (streamOn config id alt uvc) ↔ (id = .two → alt = 1) := by
  cases id with
  | one =>
    refine ⟨fun _ hid => StreamId.noConfusion hid, fun _ => ⟨fun _ => ?_, fun h => absurd rfl h⟩⟩
    refine ⟨alt, rfl, hlow, hhigh, ?_, rfl⟩
    show altDescriptor .one alt = some (uvcEpAltCfg uvc.epDesc alt)
    rw [altDescriptor, uvcEpAltCfg, if_pos ⟨hlow, hhigh⟩, if_pos ⟨hlow, hhigh⟩]
  | two =>
    have hdesc := hinv.desc rfl
    constructor
    · intro hok _
      obtain ⟨alt', halt, -, -, hset, -⟩ := hok.streaming rfl
      obtain rfl : alt = alt' := Int.ofNat.inj halt
      exact alt_descriptor_two hset
    · intro hone
      obtain rfl := hone rfl
      refine ⟨fun _ => ⟨1, rfl, hlow, hhigh, ?_, ?_⟩, fun h => absurd rfl h⟩
      · show altDescriptor .two 1 = some uvc.epDesc
        rw [hdesc]
        rfl
      · show uvcPacketSize = uvc.epDesc.packetSize config
        rw [hdesc, packet_size_two]

theorem StreamOk.store_alt {reported : Int} (h : StreamOk config id reported uvc)
    (hstate : uvc.state ≠ .streaming) : StreamOk config id alt { uvc with alt } :=
  ⟨fun hon => absurd hon hstate, h.other⟩

theorem stream_suits_disconnected (h : uvc.state = .disconnected) :
    StreamSuits config id alt uvc := by
  rw [StreamSuits, h]
  trivial

theorem stream_suits_connected (h : uvc.state = .connected) :
    StreamSuits config id alt uvc ↔ (id = .two → 1 ≤ alt → alt ≤ 8 → alt = 1) := by
  rw [StreamSuits, h]

theorem stream_suits_streaming (h : uvc.state = .streaming) : StreamSuits config id alt uvc ↔
    if alt = 0 then config.disables = true else alt = uvc.alt := by
  rw [StreamSuits, h]

theorem stream_off_ok_iff {reported : Int} (henabled : uvc.epEnabled = true) :
    StreamOk config id reported (streamOff config id uvc) ↔ config.disables = true := by
  have hoff : (streamOff config id uvc).epEnabled = !config.disables := by
    show (uvc.epEnabled && !config.disables) = _
    rw [henabled, Bool.true_and]
  constructor
  · intro hstopped
    have hdisabled := hstopped.other fun h => UvcState.noConfusion h
    rw [hoff] at hdisabled
    exact Bool.not_eq_eq_eq_not.mp hdisabled
  · intro hdisables
    refine ⟨fun h => UvcState.noConfusion h, fun _ => ?_⟩
    rw [hoff, hdisables]
    rfl

theorem set_alt_ok_iff (hinv : StreamInv id uvc) (hok : StreamOk config id uvc.alt uvc) :
    StreamOk config id alt (setStreamAlt config id alt uvc).1 ↔ StreamSuits config id alt uvc := by
  rw [set_stream_alt_eq]
  by_cases hon : uvc.state = .streaming
  · rw [stream_suits_streaming hon]
    by_cases hzero : alt = 0
    · rw [if_pos ⟨hon, hzero⟩, if_pos hzero]
      exact stream_off_ok_iff (hinv.enabled hon)
    · -- the request is ignored, but the number is stored
      have hnot : ¬ (uvc.state = .connected ∧ 1 ≤ alt ∧ alt ≤ 8) :=
        fun h => UvcState.noConfusion (hon.symm.trans h.1)
      rw [if_neg fun h => hzero h.2, if_neg hnot, if_neg hzero]
      obtain ⟨old, hold, hlow, hhigh, hdesc, hsize⟩ := hok.streaming hon
      obtain rfl : uvc.alt = old := Int.ofNat.inj hold
      constructor
      · intro hstored
        obtain ⟨new, hnew, -, -, hdesc', -⟩ := hstored.streaming hon
        obtain rfl : alt = new := Int.ofNat.inj hnew
        exact alt_descriptor_inj hdesc' hdesc
      · intro hsame
        rw [hsame]
        exact ⟨fun _ => ⟨uvc.alt, rfl, hlow, hhigh, hdesc, hsize⟩, fun h => absurd hon h⟩
  · rw [if_neg fun h => hon h.1]
    by_cases hstart : uvc.state = .connected ∧ 1 ≤ alt ∧ alt ≤ 8
    · obtain ⟨hconnected, hlow, hhigh⟩ := hstart
      have hinv' : StreamInv id { uvc with alt } := ⟨hinv.enabled, hinv.desc⟩
      rw [if_pos ⟨hconnected, hlow, hhigh⟩, stream_on_ok_iff hinv' hlow hhigh,
        stream_suits_connected hconnected]
      exact ⟨fun hone hid _ _ => hone hid, fun hone hid => hone hid hlow hhigh⟩
    · rw [if_neg hstart]
      refine iff_of_true (hok.store_alt hon) ?_
      cases hstate : uvc.state with
      | disconnected => exact stream_suits_disconnected hstate
      | connected =>
        refine (stream_suits_connected hstate).mpr fun _ hlow hhigh => ?_
        exact absurd ⟨hstate, hlow, hhigh⟩ hstart
      | streaming => exact absurd hstate hon

end

/-! ## Both streams -/

section

variable {config : IsocConfig} {comm comm' : UvcCommon} {id : StreamId} {uvc : UvcDevice}
  {event : UvcEvent} {alt : Nat} {f g : StreamId → UvcDevice → UvcDevice} {reported : Int}

theorem streaming_intf_ne_control : config.streamingIntf id ≠ config.controlIntf := by
  cases id with
  | one => exact Nat.succ_ne_self _
  | two => exact (Nat.lt_add_of_pos_right (succ_pos 1)).ne'

theorem streaming_intf_two_ne_one : config.streamingIntf .two ≠ config.streamingIntf .one :=
  Nat.succ_ne_self _

theorem streaming_intf_inj {id' : StreamId}
    (h : config.streamingIntf id = config.streamingIntf id') :
    id = id' := by
  cases id <;> cases id'
  · rfl
  · exact absurd h.symm streaming_intf_two_ne_one
  · exact absurd h streaming_intf_two_ne_one
  · rfl

theorem streaming_intf_lt : config.streamingIntf id < maxConfigInterfaces := by
  have hlt := config.intf_lt
  cases id with
  | one => exact lt_trans (lt_succ_self _) hlt
  | two => exact hlt

/-- What holds in every run: the second stream is there in a double-stream build only. -/
structure AltInv (config : IsocConfig) (comm : UvcCommon) : Prop where
  two : comm.uvc2.isSome = config.doubleStream
  stream : ∀ id, ∀ uvc ∈ comm.stream id, StreamInv id uvc

/-- The numbers that are reported. -/
theorem get_alt_stream (huvc : uvc ∈ comm.stream id) :
    uvcFunctionGetAlt config (config.streamingIntf id) comm = uvc.alt := by
  unfold uvcFunctionGetAlt
  rw [if_neg streaming_intf_ne_control]
  cases id with
  | one =>
    obtain rfl := some.inj huvc
    exact if_pos rfl
  | two =>
    have hsome : comm.uvc2 = some uvc := huvc
    rw [if_neg streaming_intf_two_ne_one, hsome]
    exact if_pos rfl

/-- An event changes every stream by a function. -/
def Maps (comm comm' : UvcCommon) (f : StreamId → UvcDevice → UvcDevice) : Prop :=
  ∀ id, comm'.stream id = (comm.stream id).map (f id)

theorem Maps.settings_iff {f : StreamId → UvcDevice → UvcDevice} (h : Maps comm comm' f) :
    AltOk config comm' ↔
      ∀ id, ∀ uvc ∈ comm.stream id, StreamOk config id (f id uvc).alt (f id uvc) := by
  constructor
  · intro hok id uvc huvc
    have hmem : f id uvc ∈ comm'.stream id := by
      rw [h id, mem_def.mp huvc]
      rfl
    rw [← get_alt_stream hmem]
    exact hok id _ hmem
  · intro hok id uvc' huvc'
    rw [get_alt_stream huvc']
    rw [h id] at huvc'
    obtain ⟨uvc, huvc, rfl⟩ := mem_map.mp huvc'
    exact hok id uvc huvc

theorem Maps.alt_inv {f : StreamId → UvcDevice → UvcDevice} (h : Maps comm comm' f)
    (hinv : AltInv config comm)
    (hstream : ∀ id, ∀ uvc ∈ comm.stream id, StreamInv id uvc → StreamInv id (f id uvc)) :
    AltInv config comm' := by
  refine ⟨?_, fun id uvc' huvc' => ?_⟩
  · have htwo : comm'.uvc2 = comm.uvc2.map (f .two) := h .two
    rw [htwo, isSome_map]
    exact hinv.two
  · rw [h id] at huvc'
    obtain ⟨uvc, huvc, rfl⟩ := mem_map.mp huvc'
    exact hstream id uvc huvc (hinv.stream id uvc huvc)

theorem Maps.trans {comm'' : UvcCommon} (h : Maps comm comm' f) (h' : Maps comm' comm'' g) :
    Maps comm comm'' fun id uvc => g id (f id uvc) := by
  intro id
  rw [h' id, h id, map_map]
  rfl

theorem Maps.congr (h : Maps comm comm' f)
    (hfg : ∀ id, ∀ uvc ∈ comm.stream id, f id uvc = g id uvc) :
    Maps comm comm' g := by
  intro id
  rw [h id]
  exact Option.map_congr fun uvc huvc => hfg id uvc huvc

theorem maps_refl : Maps comm comm fun _ uvc => uvc := fun _ => (congrFun map_id_fun' _).symm

theorem AltOk.stream (hok : AltOk config comm) : ∀ id, ∀ uvc ∈ comm.stream id,
    StreamOk config id uvc.alt uvc :=
  maps_refl.settings_iff.mp hok

theorem set_alt_stream (config : IsocConfig) (alt : Nat) (huvc : uvc ∈ comm.stream id) :
    ∃ comm' value, uvcFunctionSetAlt config (config.streamingIntf id) alt comm =
      some (comm', value) ∧
      comm'.configured = comm.configured ∧ Maps comm comm' fun other uvc =>
        if other = id then (setStreamAlt config id alt uvc).1 else uvc := by
  unfold uvcFunctionSetAlt
  rw [if_neg streaming_intf_ne_control]
  cases id with
  | one =>
    rw [if_pos rfl]
    refine ⟨_, _, rfl, rfl, fun other => ?_⟩
    cases other with
    | one => rfl
    | two => exact (congrFun map_id_fun' _).symm
  | two =>
    have hsome : comm.uvc2 = some uvc := huvc
    rw [if_neg streaming_intf_two_ne_one, hsome]
    dsimp only
    rw [if_pos rfl]
    refine ⟨_, _, rfl, rfl, fun other => ?_⟩
    cases other with
    | one => rfl
    | two =>
      show some _ = comm.uvc2.map _
      rw [hsome]
      rfl

theorem set_alt_control (config : IsocConfig) (comm : UvcCommon) (alt : Nat) : ∃ comm' value,
    uvcFunctionSetAlt config config.controlIntf alt comm = some (comm', value) ∧
      comm'.configured = comm.configured ∧
      Maps comm comm' fun _ uvc => if alt = 0 then connect uvc else uvc := by
  unfold uvcFunctionSetAlt
  rw [if_pos rfl]
  by_cases hzero : alt = 0
  · rw [if_neg (not_not_intro hzero)]
    refine ⟨_, _, rfl, rfl, fun other => ?_⟩
    rw [hzero]
    cases other <;> rfl
  · rw [if_pos hzero]
    refine ⟨_, _, rfl, rfl, fun other => ?_⟩
    simp only [if_neg hzero]
    exact (congrFun map_id_fun' _).symm

theorem set_alt_unknown {interface : Nat} (hcontrol : interface ≠ config.controlIntf)
    (hstream : ∀ id, interface ≠ config.streamingIntf id) :
    uvcFunctionSetAlt config interface alt comm =
      if comm.uvc2.isSome then some (comm, einval) else none := by
  unfold uvcFunctionSetAlt
  rw [if_neg hcontrol, if_neg (hstream .one)]
  cases comm.uvc2 with
  | none => rfl
  | some uvc2 => exact if_neg (hstream .two)

/-! ## Steps -/

theorem owns_interface_iff {intf : Nat} : config.ownsInterface intf = true ↔
    intf = config.controlIntf ∨ intf = config.streamingIntf .one ∨
      (config.doubleStream = true ∧ intf = config.streamingIntf .two) := by
  unfold IsocConfig.ownsInterface
  rw [Bool.or_eq_true, Bool.or_eq_true, Bool.and_eq_true, decide_eq_true_iff, decide_eq_true_iff,
    decide_eq_true_iff, or_assoc]

theorem AltInv.double (hinv : AltInv config comm) (huvc : uvc ∈ comm.stream .two) :
    config.doubleStream = true := by
  have hsome : comm.uvc2 = some uvc := huvc
  rw [← hinv.two, hsome]
  rfl

theorem AltInv.owns (hinv : AltInv config comm) (huvc : uvc ∈ comm.stream id) :
    config.ownsInterface (config.streamingIntf id) = true := by
  refine owns_interface_iff.mpr ?_
  cases id with
  | one => exact .inr (.inl rfl)
  | two => exact .inr (.inr ⟨hinv.double huvc, rfl⟩)

/-- What `SET_INTERFACE` does: it reaches a stream, or it changes no stream but may connect all, or
it reads an absent stream. -/
inductive SetInterfaceEffect (config : IsocConfig) (comm : UvcCommon) (wIndex wValue : BitVec 16) :
    Option UvcCommon → Prop where
  | stream (id : StreamId) (uvc : UvcDevice) (comm' : UvcCommon)
    (hconfigured : comm.configured = true)
      (huvc : uvc ∈ comm.stream id) (hindex : wIndex.toNat = config.streamingIntf id)
      (hmaps : Maps comm comm' fun other uvc =>
        if other = id then (setStreamAlt config id wValue.toNat uvc).1 else uvc) :
      SetInterfaceEffect config comm wIndex wValue (some comm')
  | quiet (f : UvcDevice → UvcDevice) (comm' : UvcCommon)
      (hother : comm.configured = true →
        ∀ id, ∀ uvc ∈ comm.stream id, wIndex.toNat ≠ config.streamingIntf id)
      (hpresent : comm.configured = true → config.doubleStream = false →
        config.ownsInterface (wIndex.toNat % 256) = true → wIndex.toNat < 256)
      (hf : ∀ uvc, f uvc = uvc ∨ f uvc = connect uvc)
      (hmaps : Maps comm comm' fun _ => f) :
        SetInterfaceEffect config comm wIndex wValue (some comm')
  | absent (hconfigured : comm.configured = true) (hsingle : config.doubleStream = false)
      (howns : config.ownsInterface (wIndex.toNat % 256) = true) (hindex : 256 ≤ wIndex.toNat) :
      SetInterfaceEffect config comm wIndex wValue none

theorem set_interface_effect (hinv : AltInv config comm) (wIndex wValue : BitVec 16) :
    SetInterfaceEffect config comm wIndex wValue (setInterface config wIndex wValue comm) := by
  have hmax : maxConfigInterfaces < 256 := by decide
  have hkeep : ∀ uvc : UvcDevice, uvc = uvc ∨ uvc = connect uvc := fun _ => .inl rfl
  -- an index that is a stream's number reaches that stream
  have howned : ∀ id, ∀ uvc ∈ comm.stream id, wIndex.toNat = config.streamingIntf id →
      config.ownsInterface (wIndex.toNat % 256) = true := by
    intro id uvc huvc hindex
    rw [hindex, mod_eq_of_lt (lt_trans streaming_intf_lt hmax)]
    exact hinv.owns huvc
  unfold setInterface
  dsimp only
  split
  case isTrue hignored =>
    rcases hignored with hstate | hlarge
    · have hnot : comm.configured ≠ true := by
        rw [hstate]
        exact Bool.false_ne_true
      exact .quiet _ comm (fun h => absurd h hnot) (fun h => absurd h hnot) hkeep maps_refl
    · refine .quiet _ comm (fun _ id uvc _ hindex => ?_) (fun _ _ howns => ?_) hkeep maps_refl
      · have hlt := mod_le wIndex.toNat 256
        have hless : config.streamingIntf id < maxConfigInterfaces := streaming_intf_lt
        omega
      · have hlt := config.intf_lt
        rcases owns_interface_iff.mp howns with h | h | ⟨-, h⟩
        · omega
        · have hless : config.streamingIntf .one < maxConfigInterfaces := streaming_intf_lt
          omega
        · have hless : config.streamingIntf .two < maxConfigInterfaces := streaming_intf_lt
          omega
  case isFalse hreached =>
    have hconfigured : comm.configured = true := by
      by_contra hnot
      exact hreached (.inl (Bool.not_eq_true _ ▸ hnot))
    split
    case isFalse howns =>
      refine .quiet _ comm (fun _ id uvc huvc hindex => ?_) (fun _ _ h => absurd h howns) hkeep
        maps_refl
      exact howns (howned id uvc huvc hindex)
    case isTrue howns =>
      by_cases hlow : wIndex.toNat < 256
      · have hpresent : comm.configured = true → config.doubleStream = false →
            config.ownsInterface (wIndex.toNat % 256) = true → wIndex.toNat < 256 :=
          fun _ _ _ => hlow
        have hintf := owns_interface_iff.mp howns
        rw [mod_eq_of_lt hlow] at hintf
        have hreach : ∀ id, ∀ uvc ∈ comm.stream id, wIndex.toNat = config.streamingIntf id →
            SetInterfaceEffect config comm wIndex wValue
              ((uvcFunctionSetAlt config wIndex.toNat wValue.toNat comm).map (·.1)) := by
          intro id uvc huvc hindex
          obtain ⟨comm', value, hset, -, hmaps⟩ := set_alt_stream config wValue.toNat huvc
          rw [hindex, hset]
          exact .stream id uvc comm' hconfigured huvc hindex hmaps
        rcases hintf with hcontrol | hone | ⟨hdouble, htwo⟩
        · obtain ⟨comm', value, hset, -, hmaps⟩ := set_alt_control config comm wValue.toNat
          rw [hcontrol, hset]
          refine .quiet _ comm' (fun _ id uvc _ hindex => ?_) hpresent (fun uvc => ?_) hmaps
          · exact streaming_intf_ne_control (hindex.symm.trans hcontrol)
          · split
            · exact .inr rfl
            · exact .inl rfl
        · exact hreach .one comm.uvc1 rfl hone
        · obtain ⟨uvc2, huvc2⟩ := isSome_iff_exists.mp (hinv.two.trans hdouble)
          exact hreach .two uvc2 huvc2 htwo
      · -- the index has more bits than the interfaces have
        have hunknown : ∀ id, wIndex.toNat ≠ config.streamingIntf id := by
          intro id hindex
          have hlt : config.streamingIntf id < maxConfigInterfaces := streaming_intf_lt
          omega
        have hcontrol : wIndex.toNat ≠ config.controlIntf := by
          have hlt := config.intf_lt
          omega
        rw [set_alt_unknown hcontrol hunknown]
        cases htwo : comm.uvc2 with
        | none =>
          have hsingle := hinv.two
          rw [htwo] at hsingle
          exact .absent hconfigured hsingle.symm howns (not_lt.mp hlow)
        | some uvc2 =>
          have hdouble := hinv.two
          rw [htwo] at hdouble
          refine .quiet _ comm (fun _ id _ _ => hunknown id) (fun _ hsingle => ?_) hkeep maps_refl
          exact Bool.noConfusion (hdouble.trans hsingle)

theorem connect_ok_iff :
    StreamOk config id reported (connect uvc) ↔ StreamOk config id reported uvc := by
  unfold connect
  split
  case isTrue hstate =>
    have hoff : uvc.state ≠ .streaming := fun h => UvcState.noConfusion (hstate.symm.trans h)
    constructor
    · intro hok
      exact ⟨fun h => absurd h hoff, fun _ => hok.other fun h => UvcState.noConfusion h⟩
    · intro hok
      exact ⟨fun h => UvcState.noConfusion h, fun _ => hok.other hoff⟩
  case isFalse => exact Iff.rfl

theorem connect_alt : (connect uvc).alt = uvc.alt := by
  unfold connect
  split <;> rfl

theorem connect_streaming_iff : (connect uvc).state = .streaming ↔ uvc.state = .streaming := by
  unfold connect
  split
  case isTrue hstate =>
    exact ⟨fun h => UvcState.noConfusion h, fun h => UvcState.noConfusion (hstate.symm.trans h)⟩
  case isFalse => exact Iff.rfl

theorem set_alt_stores : (setStreamAlt config id alt uvc).1.alt = alt := by
  rw [set_stream_alt_eq]
  split
  · rfl
  · split
    · cases id <;> rfl
    · rfl

theorem suits_zero_iff : StreamSuits config id 0 uvc ↔
    (uvc.state = .streaming → config.disables = true) := by
  cases hstate : uvc.state with
  | disconnected =>
    exact iff_of_true (stream_suits_disconnected hstate) fun h => UvcState.noConfusion h
  | connected =>
    refine iff_of_true ((stream_suits_connected hstate).mpr fun _ hlow _ => ?_)
      fun h => UvcState.noConfusion h
    exact absurd hlow (not_succ_le_zero 0)
  | streaming =>
    rw [stream_suits_streaming hstate, if_pos rfl]
    exact ⟨fun h _ => h, fun h => h rfl⟩

section

variable (hinv : AltInv config comm) {wValue : BitVec 16}

include hinv

theorem set_config_maps (hle : wValue.toNat ≤ config.numConfigurations) (hne : wValue ≠ 0#16) :
    ∃ comm', setConfig config wValue comm = some comm' ∧
      Maps comm comm' fun id uvc => (setStreamAlt config id 0 (connect uvc)).1 := by
  obtain ⟨comm1, value1, hcontrol, -, hmaps1⟩ := set_alt_control config comm 0
  have hone : comm1.uvc1 ∈ comm1.stream .one := rfl
  obtain ⟨comm2, value2, hset2, -, hmaps2⟩ := set_alt_stream config 0 hone
  have hmaps := hmaps1.trans hmaps2
  -- the last assignment changes no stream
  have hmark : ∀ comm : UvcCommon, Maps comm { comm with configured := true } fun _ uvc => uvc :=
    fun comm id => by cases id <;> exact (congrFun map_id_fun' _).symm
  unfold setConfig
  rw [if_neg (not_lt.mpr hle), if_neg hne, hcontrol]
  show ∃ comm', ((uvcFunctionSetAlt config (config.streamingIntf .one) 0 comm1).bind _) = _ ∧ _
  rw [hset2]
  cases hdouble : config.doubleStream with
  | false =>
    refine ⟨{ comm2 with configured := true }, rfl, (hmaps.trans (hmark comm2)).congr ?_⟩
    intro id uvc huvc
    cases id with
    | one => rfl
    | two => exact Bool.noConfusion ((hinv.double huvc).symm.trans hdouble)
  | true =>
    obtain ⟨uvc2, huvc2⟩ := isSome_iff_exists.mp (hinv.two.trans hdouble)
    have htwo : ∃ uvc, uvc ∈ comm2.stream .two := by
      have hmem : uvc2 ∈ comm.stream .two := huvc2
      rw [hmaps .two, mem_def.mp hmem]
      exact ⟨_, rfl⟩
    obtain ⟨uvc, huvc⟩ := htwo
    obtain ⟨comm3, value3, hset3, -, hmaps3⟩ := set_alt_stream config 0 huvc
    refine ⟨{ comm3 with configured := true }, ?_,
      ((hmaps.trans hmaps3).trans (hmark comm3)).congr ?_⟩
    · show ((uvcFunctionSetAlt config (config.streamingIntf .two) 0 comm2).bind _) = _
      rw [hset3]
      rfl
    · intro id uvc _
      cases id <;> rfl

theorem set_config_step (hok : AltOk config comm)
    (hstep : setConfig config wValue comm = some comm') :
    AltInv config comm' ∧ (AltOk config comm' ↔ Suits config comm (.setConfiguration wValue)) := by
  by_cases hlarge : config.numConfigurations < wValue.toNat
  · rw [setConfig, if_pos hlarge] at hstep
    obtain rfl := some.inj hstep
    exact ⟨hinv, iff_of_true hok fun hle => absurd hlarge (not_lt.mpr hle)⟩
  · by_cases hzero : wValue = 0#16
    · rw [setConfig, if_neg hlarge, if_pos hzero] at hstep
      obtain rfl := some.inj hstep
      have hmaps : Maps comm { comm with configured := false } fun _ uvc => uvc := by
        intro id
        cases id <;> exact (congrFun map_id_fun' _).symm
      exact ⟨hmaps.alt_inv hinv fun _ _ _ h => h,
        iff_of_true (hmaps.settings_iff.mpr hok.stream) fun _ hne => absurd hzero hne⟩
    · obtain ⟨final, hfinal, hmaps⟩ := set_config_maps hinv (not_lt.mp hlarge) hzero
      obtain rfl := some.inj (hfinal.symm.trans hstep)
      refine ⟨hmaps.alt_inv hinv fun _ _ _ h => h.connect.set_alt, ?_⟩
      rw [hmaps.settings_iff]
      -- every stream gets alternate setting 0
      have hstream : ∀ id, ∀ uvc ∈ comm.stream id,
          (StreamOk config id ((setStreamAlt config id 0 (connect uvc)).1.alt : Nat)
            (setStreamAlt config id 0 (connect uvc)).1 ↔
            (uvc.state = .streaming → config.disables = true)) := by
        intro id uvc huvc
        have hconnected : StreamOk config id (connect uvc).alt (connect uvc) := by
          rw [connect_alt, connect_ok_iff]
          exact hok.stream id uvc huvc
        rw [set_alt_stores, set_alt_ok_iff (hinv.stream id uvc huvc).connect hconnected,
          suits_zero_iff, connect_streaming_iff]
      constructor
      · intro h _ _ id uvc huvc
        exact (hstream id uvc huvc).mp (h id uvc huvc)
      · intro h id uvc huvc
        exact (hstream id uvc huvc).mpr (h (not_lt.mp hlarge) hzero id uvc huvc)

theorem set_interface_step (hok : AltOk config comm) {wIndex wValue : BitVec 16}
    (hstep : setInterface config wIndex wValue comm = some comm') :
    AltInv config comm' ∧
      (AltOk config comm' ↔ Suits config comm (.setInterface wIndex wValue)) := by
  have heffect := set_interface_effect hinv wIndex wValue
  rw [hstep] at heffect
  cases heffect with
  | stream id uvc _ hconfigured huvc hindex hmaps =>
    refine ⟨hmaps.alt_inv hinv fun other uvc _ h => ?_, ?_⟩
    · split
      case isTrue hid =>
        rw [hid] at h ⊢
        exact h.set_alt
      case isFalse => exact h
    · rw [hmaps.settings_iff]
      have hiff : StreamOk config id (setStreamAlt config id wValue.toNat uvc).1.alt
          (setStreamAlt config id wValue.toNat uvc).1 ↔
          StreamSuits config id wValue.toNat uvc := by
        rw [set_alt_stores]
        exact set_alt_ok_iff (hinv.stream id uvc huvc) (hok.stream id uvc huvc)
      have hsmall : wIndex.toNat < 256 := by
        rw [hindex]
        exact lt_trans streaming_intf_lt (by decide)
      constructor
      · intro h _
        refine ⟨fun _ _ => hsmall, fun other uvc' huvc' hother => ?_⟩
        obtain rfl := streaming_intf_inj (hindex.symm.trans hother)
        obtain rfl := mem_unique huvc huvc'
        have hnew := h id uvc huvc
        rw [if_pos rfl] at hnew
        exact hiff.mp hnew
      · intro h other uvc' huvc'
        split
        case isTrue hid =>
          obtain rfl := hid
          obtain rfl := mem_unique huvc huvc'
          exact hiff.mpr ((h hconfigured).2 other uvc huvc hindex)
        case isFalse => exact hok.stream other uvc' huvc'
  | quiet f _ hother hpresent hf hmaps =>
    refine ⟨hmaps.alt_inv hinv fun _ uvc _ h => ?_, ?_⟩
    · rcases hf uvc with hkeep | hconnect
      · rwa [hkeep]
      · rw [hconnect]
        exact h.connect
    · refine iff_of_true (hmaps.settings_iff.mpr fun id uvc huvc => ?_) fun hconfigured =>
        ⟨hpresent hconfigured, fun id uvc huvc hindex =>
          absurd hindex (hother hconfigured id uvc huvc)⟩
      rcases hf uvc with hkeep | hconnect
      · rw [hkeep]
        exact hok.stream id uvc huvc
      · rw [hconnect, connect_alt, connect_ok_iff]
        exact hok.stream id uvc huvc

theorem disable_step (hok : AltOk config comm) :
    AltInv config (uvcFunctionDisable comm) ∧
      (AltOk config (uvcFunctionDisable comm) ↔ Suits config comm .disable) := by
  have hmaps : Maps comm (uvcFunctionDisable comm) fun _ uvc =>
    { uvc with state := .disconnected } := by
    intro id
    cases id <;> rfl
  refine ⟨hmaps.alt_inv hinv fun _ _ _ h => ⟨fun hstate => UvcState.noConfusion hstate, h.desc⟩, ?_⟩
  rw [hmaps.settings_iff]
  constructor
  · intro h id uvc huvc hon
    -- the endpoint of a stream that is on is enabled
    have hdisabled := (h id uvc huvc).other fun hstate => UvcState.noConfusion hstate
    rw [(hinv.stream id uvc huvc).enabled hon] at hdisabled
    exact Bool.noConfusion hdisabled
  · intro h id uvc huvc
    refine ⟨fun hstate => UvcState.noConfusion hstate, fun _ => ?_⟩
    exact (hok.stream id uvc huvc).other (h id uvc huvc)

theorem alt_step_spec (hok : AltOk config comm) (hstep : altStep config comm event = some comm') :
    AltInv config comm' ∧ (AltOk config comm' ↔ Suits config comm event) := by
  cases event with
  | setConfiguration wValue => exact set_config_step hinv hok hstep
  | setInterface wIndex wValue => exact set_interface_step hinv hok hstep
  | disable =>
    obtain rfl := some.inj hstep
    exact disable_step hinv hok

theorem alt_step_progress (hsuits : Suits config comm event) :
    ∃ comm', altStep config comm event = some comm' := by
  cases event with
  | setConfiguration wValue =>
    by_cases hlarge : config.numConfigurations < wValue.toNat
    · exact ⟨comm, if_pos hlarge⟩
    · by_cases hzero : wValue = 0#16
      · refine ⟨{ comm with configured := false }, ?_⟩
        show setConfig config wValue comm = _
        rw [setConfig, if_neg hlarge, if_pos hzero]
      · obtain ⟨comm', hset, -⟩ := set_config_maps hinv (not_lt.mp hlarge) hzero
        exact ⟨comm', hset⟩
  | setInterface wIndex wValue =>
    have heffect := set_interface_effect hinv wIndex wValue
    cases hset : setInterface config wIndex wValue comm with
    | some comm' => exact ⟨comm', hset⟩
    | none =>
      rw [hset] at heffect
      cases heffect with
      | absent hconfigured hsingle howns hindex =>
        exact absurd ((hsuits hconfigured).1 hsingle howns) (not_lt.mpr hindex)
  | disable => exact ⟨uvcFunctionDisable comm, rfl⟩

end

/-! ## Runs -/

theorem alt_start_inv : AltInv config (altStart config) := by
  unfold altStart
  refine ⟨?_, fun id uvc huvc => ?_⟩
  · dsimp only
    cases config.doubleStream <;> rfl
  · cases id with
    | one =>
      obtain rfl := some.inj huvc
      exact stream_inv_bound fun h => StreamId.noConfusion h
    | two =>
      split at huvc
      · obtain rfl := some.inj huvc
        exact stream_inv_bound fun _ => rfl
      · exact absurd huvc (not_mem_none uvc)

theorem bound_stream_ok {desc : EpDesc} {packetSize : Nat} :
    StreamOk config id reported (boundStream desc packetSize) :=
  ⟨fun h => UvcState.noConfusion h, fun _ => rfl⟩

theorem alt_start_ok : AltOk config (altStart config) := by
  intro id uvc huvc
  cases id with
  | one =>
    obtain rfl := some.inj huvc
    exact bound_stream_ok
  | two =>
    dsimp only [UvcCommon.stream, altStart] at huvc
    split at huvc
    · obtain rfl := some.inj huvc
      exact bound_stream_ok
    · exact absurd huvc (not_mem_none uvc)

/-- No absent stream is read and all streams are in order in every state of a run exactly if every
event of it suits. -/
theorem alt_ok_iff (config : IsocConfig) (events : List UvcEvent) :
    ((exec (altStep config) (altStart config) events).isSome ∧
      Always (altStep config) (AltOk config) (altStart config) events) ↔
      AllSteps (altStep config) (Suits config) (altStart config) events := by
  have hiff : ∀ final, exec (altStep config) (altStart config) events = some final →
      (Always (altStep config) (AltOk config) (altStart config) events ↔
        AllSteps (altStep config) (Suits config) (altStart config) events) := by
    intro final hrun
    refine always_iff (A := fun _ => True) (I := AltInv config) ?_ (fun _ _ => trivial)
      alt_start_inv alt_start_ok hrun
    intro comm event comm' _ hinv hok hstep
    exact alt_step_spec hinv hok hstep
  constructor
  · rintro ⟨hsome, halways⟩
    obtain ⟨final, hrun⟩ := isSome_iff_exists.mp hsome
    exact (hiff final hrun).mp halways
  · intro hsteps
    have hprogress : ∀ comm event, (AltInv config comm ∧ AltOk config comm) →
        Suits config comm event → ∃ comm', altStep config comm event = some comm' ∧
          (AltInv config comm' ∧ AltOk config comm') := by
      intro comm event hcomm hsuits
      obtain ⟨comm', hstep⟩ := alt_step_progress hcomm.1 hsuits
      obtain ⟨hinv, hok⟩ := alt_step_spec hcomm.1 hcomm.2 hstep
      exact ⟨comm', hstep, hinv, hok.mpr hsuits⟩
    obtain ⟨final, hrun, -⟩ := exec_progress hprogress ⟨alt_start_inv, alt_start_ok⟩ hsteps
    exact ⟨isSome_iff_exists.mpr ⟨final, hrun⟩, (hiff final hrun).mpr hsteps⟩

end

/-- A build with one stream, and a driver that disables endpoints. -/
def singleStream : IsocConfig where
  highBandwidth := false
  doubleStream := false
  controlIntf := 0
  numConfigurations := 1
  disables := true
  intf_lt := by decide

/-- `SET_INTERFACE` with the index `0x0101` reads the absent second stream, and a second
`SET_INTERFACE` of a stream that is on leaves another alternate number. -/
theorem some_events_not_alt_ok :
    exec (altStep singleStream) (altStart singleStream)
        [.setConfiguration 1#16, .setInterface 0x0101#16 1#16] = none ∧
      ¬ Always (altStep singleStream) (AltOk singleStream) (altStart singleStream)
        [.setConfiguration 1#16, .setInterface 1#16 2#16, .setInterface 1#16 3#16] := by
  refine ⟨rfl, fun halways => ?_⟩
  have hok := (((halways.2 _ rfl).2 _ rfl).2 _ rfl) .one _ rfl
  obtain ⟨alt, hreported, -, -, hdesc, -⟩ := hok.streaming rfl
  obtain rfl : 3 = alt := Int.ofNat.inj hreported
  exact absurd hdesc (by decide)

end FullhanRtos.Uvc
