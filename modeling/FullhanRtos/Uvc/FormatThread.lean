import FullhanRtos.Uvc.Formats

/-!
# The thread that starts a format

`video_driver_proc` of `drivers/usb/device/class/uvc_init.c` waits for a semaphore, reads the format
of its stream and calls `format_change` of the application. The data stage of a commit writes the
format in the interrupt; `SET_INTERFACE`, and with bulk endpoints the setup stage of a commit,
release the semaphore.

`format_thread_ok` says for which runs the thread finds an entry of the format table.
-/

namespace FullhanRtos.Uvc

open Transition Function
open List hiding format
open Option hiding format

/-! ## Data -/

/-- A build and the tables given to `fh_uvc_init`: the interfaces, the controls, `UVC_BUF_SIZE` of a
build with bulk endpoints, and whether the application registered `format_change`. -/
structure FormatConfig where
  alt : IsocConfig
  request : RequestConfig
  bulkBufSize : Option Nat
  formatChange : Bool
  tables : StreamId → List FormatInfo
  stream2 : request.streamingIntf2 =
    if alt.doubleStream then some (alt.streamingIntf .two) else none
  table_ok : ∀ id, ∃ format ∈ tables id, format.frames ≠ []

/-- The format in `struct uvc_stream_info`. -/
structure FormatRecord where
  fcc : BitVec 32
  width : BitVec 32
  height : BitVec 32
  iframe : BitVec 32
  finterval : BitVec 32
  deriving DecidableEq

/-- The arguments of `format_change`. -/
inductive StreamField where
  | fcc
  | width
  | height
  | rate
  deriving DecidableEq

/-- Where `video_driver_proc` is: at `rt_sem_take`, or at the arguments of `format_change`, with
those it has read. -/
inductive DriverPhase where
  | waiting
  | reading (args : StreamField → Option (BitVec 32))

/-- A stream: the controls, the format, what the last commit selected, `uvc_format_sem` and the
thread. -/
structure StreamFormat where
  probe : StreamingControl
  commit : StreamingControl
  record : FormatRecord
  selected : Option Selected
  sem : BitVec 16
  phase : DriverPhase

/-- The interfaces, the controls, `gEventData` while a data stage is to come, and the streams. -/
structure FormatState where
  comm : UvcCommon
  requests : RequestState
  eventData : Option (StreamId × Nat)
  streams : StreamId → StreamFormat

/-! ## The data stage of probe and commit -/

def uvcSetaltSelect (config : IsocConfig) (altSet : Nat) : Nat :=
  if 1 ≤ altSet ∧ altSet ≤ 8 then uvcPacketSizeAlt config altSet else uvcPacketSizeAlt config 1

/-- `dwMaxPayloadTransferSize`. -/
def maxPayload (config : FormatConfig) (id : StreamId) (frame : FrameInfo) : Nat :=
  match config.bulkBufSize, id with
  | some size, _ => size * 2
  | none, .one => uvcSetaltSelect config.alt frame.altSet.toNat
  | none, .two => uvcPacketSize

def Selected.record (selected : Selected) : FormatRecord where
  fcc := selected.format.fcc
  width := selected.frame.width
  height := selected.frame.height
  iframe := BitVec.ofNat 32 (selected.iframe - 1)
  finterval := selected.interval

def fillTarget (config : FormatConfig) (id : StreamId) (selected : Selected)
    (old : StreamingControl) : StreamingControl where
  bFormatIndex := BitVec.ofNat 8 selected.iformat
  bFrameIndex := BitVec.ofNat 8 selected.iframe
  dwFrameInterval := selected.interval
  dwMaxVideoFrameSize :=
    maxVideoFrameSize selected.format selected.frame old.dwMaxVideoFrameSize
  dwMaxPayloadTransferSize := BitVec.ofNat 32 (maxPayload config id selected.frame)

/-- `rt_sem_release`. The thread that it wakes takes the semaphore when it runs. -/
def StreamFormat.release (stream : StreamFormat) : StreamFormat :=
  { stream with sem := stream.sem + 1 }

/-- `uvc_events_process_vs_data`. The still image controls and the printing of user data do nothing
here. -/
def uvcEventsProcessVsData (config : FormatConfig) (id : StreamId) (cs : Nat) (data : List Byte)
    (stream : StreamFormat) : Option StreamFormat :=
  let interval (control : StreamingControl) (selected : Selected) :=
    { control with dwFrameInterval := selected.interval }
  if cs = uvcVsProbeControl then
    (negotiate (config.tables id) (streamingControl data)).map fun selected =>
      { stream with
        probe := fillTarget config id selected stream.probe
        commit := interval stream.commit selected }
  else if cs = uvcVsCommitControl then
    (negotiate (config.tables id) (streamingControl data)).map fun selected =>
      { stream with
        probe := interval stream.probe selected
        commit := fillTarget config id selected stream.commit
        record := selected.record
        selected := some selected }
  else if cs = uvcVsUserDef ∧ byteAt data 0 = 2 then some stream.release
  else some stream

/-! ## Requests -/

/-- The host sends data, `gLastDirOut`. -/
def CtrlRequest.isOut (request : CtrlRequest) : Bool :=
  request.requestType &&& 0x80#8 = 0#8

/-- The setup stage of a commit with bulk endpoints releases the semaphore. -/
def commitReleases (config : FormatConfig) (request : CtrlRequest) : Bool :=
  config.bulkBufSize.isSome && request.isOut && request.request = 1#8 &&
    request.value = 0x200#16 && request.index &&& 0xf#16 ≠ 0#16

def functionSetup (config : FormatConfig) (state : FormatState) (request : CtrlRequest) :
    Option FormatState :=
  if request.isClass = false then some state
  else
    (setupStage config.request state.requests request).map fun answer =>
      let id := request.stream config.request
      { state with
        requests := state.requests.setInfo id answer.2
        eventData :=
          if request.isOut ∧ 0 < request.length.toNat then some (id, request.length.toNat) else none
        streams :=
          if commitReleases config request then
            update state.streams id (state.streams id).release
          else state.streams }

def receivedBytes (length : Nat) (data : List Byte) : List Byte :=
  (List.range length).map fun i => data.getD i 0#8

def FormatState.vsData (state : FormatState) (data : List Byte) :
    Option (StreamId × Nat × List Byte) :=
  match state.eventData with
  | none => none
  | some (id, length) =>
    let context := (state.requests.streamInfo id).context
    if context.intf = uvcIntfStreaming ∨ context.intf = uvcIntfStreaming2 then
      some (id, context.cs, receivedBytes length data)
    else none

/-- `read_out_data_done`, when a data stage is to come. -/
def dataStage (config : FormatConfig) (state : FormatState) (data : List Byte) :
    Option FormatState :=
  match state.eventData with
  | none => some state
  | some (id, length) =>
    (readOutDataDone config.request state.requests id (receivedBytes length data)).bind
      fun requests =>
        let next := { state with requests, eventData := none }
        match state.vsData data with
        | none => some next
        | some (id, cs, received) =>
          (uvcEventsProcessVsData config id cs received (state.streams id)).map fun stream =>
            { next with streams := update state.streams id stream }

def setAltReleases (config : IsocConfig) (comm : UvcCommon) (interface alt : Nat) (id : StreamId) :
    Bool :=
  interface = config.streamingIntf id && 1 ≤ alt && alt ≤ 8 &&
    (comm.stream id).any fun uvc => uvc.state = .connected

/-- The same for an event of the interfaces. `SET_CONFIGURATION` selects alternate setting 0 only.
-/
def UvcEvent.releases (config : IsocConfig) (comm : UvcCommon) (id : StreamId) : UvcEvent → Bool
  | .setInterface wIndex wValue =>
    comm.configured && wIndex.toNat % 256 < maxConfigInterfaces &&
      config.ownsInterface (wIndex.toNat % 256) &&
      setAltReleases config comm wIndex.toNat wValue.toNat id
  | _ => false

/-! ## The thread -/

/-- An argument of `format_change`; the rate is `10000000/finterval`. -/
def FormatRecord.field (record : FormatRecord) : StreamField → Option (BitVec 32)
  | .fcc => some record.fcc
  | .width => some record.width
  | .height => some record.height
  | .rate => if record.finterval = 0#32 then none else some (10000000#32 / record.finterval)

/-- The thread gets the semaphore. -/
def StreamFormat.take (formatChange : Bool) (stream : StreamFormat) : StreamFormat :=
  match stream.phase with
  | .waiting =>
    if stream.sem = 0#16 then stream
    else
      { stream with
        sem := stream.sem - 1
        phase := if formatChange then .reading fun _ => none else .waiting }
  | .reading _ => stream

/-- The thread reads an argument. The order is the compiler's. -/
def StreamFormat.read (field : StreamField) (stream : StreamFormat) : Option StreamFormat :=
  match stream.phase with
  | .waiting => some stream
  | .reading args =>
    if (args field).isSome then some stream
    else
      (stream.record.field field).map fun value =>
        { stream with phase := .reading (update args field (some value)) }

/-- The arguments of the call, when all of them were read. -/
def DriverPhase.call : DriverPhase → Option (BitVec 32 × BitVec 32 × BitVec 32 × BitVec 32)
  | .waiting => none
  | .reading args =>
    (args .fcc).bind fun fcc => (args .width).bind fun width => (args .height).bind fun height =>
      (args .rate).map fun rate => (fcc, width, height, rate)

def StreamFormat.call (stream : StreamFormat) : StreamFormat :=
  if stream.phase.call.isSome then { stream with phase := .waiting } else stream

/-! ## Runs -/

/-- What the host, the controller and the threads do. -/
inductive FormatEvent where
  | alt (event : UvcEvent)
  | setup (request : CtrlRequest)
  | data (data : List Byte)
  | take (id : StreamId)
  | read (id : StreamId) (field : StreamField)
  | call (id : StreamId)

def FormatState.setStream (state : FormatState) (id : StreamId) (stream : StreamFormat) :
    FormatState :=
  { state with streams := update state.streams id stream }

def formatStep (config : FormatConfig) (state : FormatState) : FormatEvent → Option FormatState
  | .alt event =>
    (altStep config.alt state.comm event).map fun comm =>
      { state with
        comm
        streams := fun id =>
          if event.releases config.alt state.comm id then (state.streams id).release
          else state.streams id }
  | .setup request => functionSetup config state request
  | .data data => dataStage config state data
  | .take id => some (state.setStream id ((state.streams id).take config.formatChange))
  | .read id field => ((state.streams id).read field).map (state.setStream id)
  | .call id => some (state.setStream id (state.streams id).call)

def fillFirst (config : FormatConfig) (id : StreamId) : StreamingControl :=
  let empty : StreamingControl := ⟨0, 0, 0, 0, 0⟩
  match config.tables id with
  | [] => empty
  | format :: _ =>
    match format.frames with
    | [] => empty
    | frame :: _ =>
      { bFormatIndex := 1
        bFrameIndex := 1
        dwFrameInterval := 0
        dwMaxVideoFrameSize :=
          if format.fcc = v4l2PixFmtYuy2 ∨ format.fcc = v4l2PixFmtNv12 then
            frame.width * frame.height * 2
          else if format.fcc = v4l2PixFmtIr then frame.width * frame.height
          else 0
        dwMaxPayloadTransferSize :=
          match config.bulkBufSize, id with
          | some size, _ => BitVec.ofNat 32 (size * 2)
          | none, .one => BitVec.ofNat 32 (uvcPacketSize * isocCnt config.alt)
          | none, .two => BitVec.ofNat 32 uvcPacketSize }

/-- After `fh_uvc_init`, which allocates the streams with `rt_calloc`. -/
def formatStart (config : FormatConfig) (requests : RequestState) : FormatState where
  comm := altStart config.alt
  requests := requests
  eventData := none
  streams := fun id =>
    { probe := fillFirst config id
      commit := fillFirst config id
      record := ⟨0, 0, 0, 0, 0⟩
      selected := none
      sem := 0
      phase := .waiting }

/-! ## What holds -/

/-- The call has the fourcc and the size of an entry of the table, and a rate of one of its
intervals. -/
def CallOk (table : List FormatInfo)
    (call : BitVec 32 × BitVec 32 × BitVec 32 × BitVec 32) : Prop :=
  ∃ format ∈ table, ∃ frame ∈ format.frames, ∃ interval ∈ frame.intervalList,
    call = (format.fcc, frame.width, frame.height, 10000000#32 / interval)

/-- The thread does not divide by 0, and calls `format_change` with an entry of the table. -/
def FormatStepOk (config : FormatConfig) (state : FormatState) : FormatEvent → Prop
  | .read id field => ((state.streams id).read field).isSome = true
  | .call id => ∀ call ∈ (state.streams id).phase.call, CallOk (config.tables id) call
  | _ => True

/-- The arguments in the order of the call. -/
def streamFields : List StreamField := [.fcc, .width, .height, .rate]

/-- The thread has read some arguments but not all. -/
def DriverPhase.midRead : DriverPhase → Bool
  | .waiting => false
  | .reading args =>
    (streamFields.any fun field => (args field).isSome) &&
      streamFields.any fun field => (args field).isNone

/-- The thread reads a format after a commit, of a frame with an interval. The data stage of a
probe or commit selects inside the table and the frame, and one of a commit that comes while the
thread reads keeps the format. -/
def FormatSuits (config : FormatConfig) (state : FormatState) : FormatEvent → Prop
  | .read id field =>
    match (state.streams id).phase with
    | .waiting => True
    | .reading args => args field = none →
        ((state.streams id).selected.any fun selected =>
          selected.frame.intervals.head? ≠ some 0#32) = true
  | .data data =>
    match state.vsData data with
    | none => True
    | some (id, cs, received) =>
      (cs = uvcVsProbeControl ∨ cs = uvcVsCommitControl →
        (negotiate (config.tables id) (streamingControl received)).isSome = true) ∧
      (cs = uvcVsCommitControl → (state.streams id).phase.midRead = true →
        (negotiate (config.tables id) (streamingControl received)).map Selected.record =
          some (state.streams id).record)
  | _ => True

instance (config : FormatConfig) (state : FormatState) :
    ∀ event, Decidable (FormatSuits config state event)
  | .alt _ | .setup _ | .take _ | .call _ => .isTrue trivial
  | .read id field => by
    unfold FormatSuits
    dsimp only
    split <;> infer_instance
  | .data data => by
    unfold FormatSuits
    dsimp only
    split <;> infer_instance

/-! ## The invariant -/

def RecordOk (table : List FormatInfo) (record : FormatRecord) : Prop :=
  ∃ format ∈ table, ∃ frame ∈ format.frames, record.fcc = format.fcc ∧ record.width = frame.width ∧
    record.height = frame.height ∧ record.finterval ∈ frame.intervalList

/-- The format is what the last commit selected in the table. What the thread has read is of one
format of the table, which is the current one until all is read. -/
structure FormatInv (table : List FormatInfo) (stream : StreamFormat) : Prop where
  selected : ∀ selected ∈ stream.selected, stream.record = selected.record ∧
    selected.format ∈ table ∧ selected.frame ∈ selected.format.frames ∧
    ∃ value, selectInterval selected.frame.intervals value = some selected.interval
  read : ∀ args, stream.phase = .reading args → (∀ field, args field = none) ∨
    ∃ record, RecordOk table record ∧
      (∀ field value, args field = some value → record.field field = some value) ∧
      (stream.phase.midRead = true → stream.record = record)

section

variable {config : FormatConfig} {id : StreamId} {table : List FormatInfo} {stream : StreamFormat}
  {field : StreamField} {stream' : StreamFormat} {args : StreamField → Option (BitVec 32)}
  {record : FormatRecord}

theorem interval_ne_zero {frame : FrameInfo} {interval : BitVec 32}
    (h : interval ∈ frame.intervalList) : interval ≠ 0#32 :=
  of_decide_eq_true (List.all_eq_true.mp all_takeWhile interval h)

/-- A format of the table has all arguments. -/
theorem RecordOk.field_some (h : RecordOk table record) (field : StreamField) :
    (record.field field).isSome = true := by
  obtain ⟨-, -, frame, -, -, -, -, hinterval⟩ := h
  cases field with
  | rate =>
    rw [FormatRecord.field, if_neg (interval_ne_zero hinterval)]
    rfl
  | _ => rfl

theorem RecordOk.call_ok (h : RecordOk table record)
    (hargs : ∀ field value, args field = some value → record.field field = some value)
    {call : BitVec 32 × BitVec 32 × BitVec 32 × BitVec 32}
    (hcall : (DriverPhase.reading args).call = some call) : CallOk table call := by
  obtain ⟨format, hformat, frame, hframe, hfcc, hwidth, hheight, hinterval⟩ := h
  obtain ⟨fcc, hfccArg, hcall⟩ := bind_eq_some_iff.mp hcall
  obtain ⟨width, hwidthArg, hcall⟩ := bind_eq_some_iff.mp hcall
  obtain ⟨height, hheightArg, hcall⟩ := bind_eq_some_iff.mp hcall
  obtain ⟨rate, hrateArg, rfl⟩ := map_eq_some_iff.mp hcall
  have hfcc' : record.fcc = fcc := some.inj (hargs _ _ hfccArg)
  have hwidth' : record.width = width := some.inj (hargs _ _ hwidthArg)
  have hheight' : record.height = height := some.inj (hargs _ _ hheightArg)
  have hrate := hargs _ _ hrateArg
  rw [FormatRecord.field, if_neg (interval_ne_zero hinterval), some.injEq] at hrate
  refine ⟨format, hformat, frame, hframe, record.finterval, hinterval, ?_⟩
  rw [← hfcc', ← hwidth', ← hheight', ← hrate, hfcc, hwidth, hheight]

theorem FormatInv.record_ok (h : FormatInv table stream)
    (hselected : (stream.selected.any fun selected =>
      selected.frame.intervals.head? ≠ some 0#32) = true) : RecordOk table stream.record := by
  cases hs : stream.selected with
  | none =>
    rw [hs] at hselected
    exact absurd hselected Bool.false_ne_true
  | some selected =>
    rw [hs, any_some, decide_eq_true_iff] at hselected
    obtain ⟨hrecord, hformat, hframe, value, hinterval⟩ := h.selected selected hs
    obtain ⟨interval, hinterval', hmem⟩ :=
      select_interval_mem value selected.frame.terminated hselected
    obtain rfl : interval = selected.interval := some.inj (hinterval'.symm.trans hinterval)
    exact ⟨selected.format, hformat, selected.frame, hframe, by rw [hrecord]; rfl,
      by rw [hrecord]; rfl, by rw [hrecord]; rfl, by rw [hrecord]; exact hmem⟩

theorem FormatInv.congr (h : FormatInv table stream) (hrecord : stream'.record = stream.record)
    (hselected : stream'.selected = stream.selected) (hphase : stream'.phase = stream.phase) :
    FormatInv table stream' := by
  constructor
  · rw [hselected, hrecord]
    exact h.selected
  · rw [hphase, hrecord]
    exact h.read

theorem FormatInv.release (h : FormatInv table stream) : FormatInv table stream.release :=
  h.congr rfl rfl rfl

theorem FormatInv.take (h : FormatInv table stream) (formatChange : Bool) :
    FormatInv table (stream.take formatChange) := by
  unfold StreamFormat.take
  cases hphase : stream.phase with
  | reading args => exact h
  | waiting =>
    dsimp only
    split
    · exact h
    · refine ⟨h.selected, fun args hargs => ?_⟩
      cases formatChange with
      | false => exact DriverPhase.noConfusion hargs
      | true =>
        obtain rfl := DriverPhase.reading.inj hargs
        exact .inl fun _ => rfl

theorem mem_stream_fields (field : StreamField) : field ∈ streamFields := by
  cases field <;> decide

theorem mid_read {field' : StreamField} (hread : (args field).isSome = true)
    (hunread : args field' = none) :
    (DriverPhase.reading args).midRead = true := by
  have hsome : (streamFields.any fun field => (args field).isSome) = true :=
    List.any_eq_true.mpr ⟨field, mem_stream_fields field, hread⟩
  have hnone : (streamFields.any fun field => (args field).isNone) = true :=
    List.any_eq_true.mpr ⟨field', mem_stream_fields field', isNone_iff_eq_none.mpr hunread⟩
  rw [DriverPhase.midRead, hsome, hnone]
  rfl

theorem FormatInv.read_arg (h : FormatInv table stream)
    (hsuits : ∀ args, stream.phase = .reading args → args field = none →
      RecordOk table stream.record)
    (hread : stream.read field = some stream') : FormatInv table stream' := by
  unfold StreamFormat.read at hread
  cases hphase : stream.phase with
  | waiting =>
    rw [hphase] at hread
    exact some.inj hread ▸ h
  | reading args =>
    rw [hphase] at hread
    dsimp only at hread
    by_cases hsome : (args field).isSome = true
    · rw [if_pos hsome] at hread
      exact some.inj hread ▸ h
    · rw [if_neg hsome] at hread
      have hnone : args field = none := not_isSome_iff_eq_none.mp hsome
      obtain ⟨value, hvalue, rfl⟩ := map_eq_some_iff.mp hread
      -- the arguments so far are those of the current format
      have hargs : ∀ field' value', args field' = some value' →
          stream.record.field field' = some value' := by
        intro field' value' hvalue'
        obtain hall | ⟨record, -, hfields, hcurrent⟩ := h.read args hphase
        · rw [hall field'] at hvalue'
          exact absurd hvalue' (some_ne_none _).symm
        · have hmid : stream.phase.midRead = true :=
            hphase ▸ mid_read (isSome_iff_exists.mpr ⟨value', hvalue'⟩) hnone
          rw [hcurrent hmid]
          exact hfields field' value' hvalue'
      refine ⟨h.selected, fun args' hargs' => ?_⟩
      obtain rfl := DriverPhase.reading.inj hargs'
      refine .inr ⟨stream.record, hsuits args hphase hnone, ?_, fun _ => rfl⟩
      intro field' value' hvalue'
      rw [update_apply] at hvalue'
      split at hvalue'
      case isTrue hfield => rw [hfield, hvalue, hvalue']
      case isFalse => exact hargs field' value' hvalue'

theorem FormatInv.call_waiting (h : FormatInv table stream) : FormatInv table stream.call := by
  unfold StreamFormat.call
  split
  · exact ⟨h.selected, fun args hargs => DriverPhase.noConfusion hargs⟩
  · exact h

theorem FormatInv.vs_data {cs : Nat} {data : List Byte} (h : FormatInv (config.tables id) stream)
    (hkeeps : cs = uvcVsCommitControl → stream.phase.midRead = true → (negotiate (config.tables id)
      (streamingControl data)).map Selected.record = some stream.record)
    (hstep : uvcEventsProcessVsData config id cs data stream = some stream') :
    FormatInv (config.tables id) stream' := by
  unfold uvcEventsProcessVsData at hstep
  by_cases hprobe : cs = uvcVsProbeControl
  · rw [if_pos hprobe] at hstep
    obtain ⟨selected, -, rfl⟩ := map_eq_some_iff.mp hstep
    exact h.congr rfl rfl rfl
  · rw [if_neg hprobe] at hstep
    by_cases hcommit : cs = uvcVsCommitControl
    · rw [if_pos hcommit] at hstep
      obtain ⟨selected, hselected, rfl⟩ := map_eq_some_iff.mp hstep
      obtain ⟨hformat, hframe, hinterval⟩ := negotiate_mem hselected
      constructor
      · intro selected' hselected'
        obtain rfl := some.inj hselected'
        exact ⟨rfl, hformat, hframe, _, hinterval⟩
      · intro args hargs
        obtain hall | ⟨record, hok, hfields, hcurrent⟩ := h.read args hargs
        · exact .inl hall
        · refine .inr ⟨record, hok, hfields, fun hmid => ?_⟩
          have hsame := hkeeps hcommit hmid
          rw [hselected, map_some, some.injEq] at hsame
          exact hsame.trans (hcurrent hmid)
    · rw [if_neg hcommit] at hstep
      split at hstep
      · exact some.inj hstep ▸ h.release
      · exact some.inj hstep ▸ h

end

/-- All streams. -/
def FormatState.Inv (config : FormatConfig) (state : FormatState) : Prop :=
  ∀ id, FormatInv (config.tables id) (state.streams id)

section

variable {config : FormatConfig} {state state' : FormatState} {event : FormatEvent}

theorem FormatState.Inv.set_stream {id : StreamId} {stream : StreamFormat} (h : state.Inv config)
    (hstream : FormatInv (config.tables id) stream) :
    ∀ id', FormatInv (config.tables id') (update state.streams id stream id') := by
  intro id'
  by_cases hid : id' = id
  · subst hid
    rw [update_self]
    exact hstream
  · rw [update_of_ne hid]
    exact h id'

theorem format_step_inv (h : state.Inv config) (hsuits : FormatSuits config state event)
    (hstep : formatStep config state event = some state') : state'.Inv config := by
  cases event with
  | alt event =>
    obtain ⟨comm, -, rfl⟩ := map_eq_some_iff.mp hstep
    intro id
    dsimp only
    split
    · exact (h id).release
    · exact h id
  | setup request =>
    unfold formatStep functionSetup at hstep
    dsimp only at hstep
    split at hstep
    · exact some.inj hstep ▸ h
    · obtain ⟨answer, -, rfl⟩ := map_eq_some_iff.mp hstep
      intro id
      dsimp only
      split
      · exact h.set_stream (h _).release id
      · exact h id
  | data data =>
    unfold formatStep dataStage at hstep
    dsimp only at hstep
    split at hstep
    · exact some.inj hstep ▸ h
    · obtain ⟨requests, -, hstep⟩ := bind_eq_some_iff.mp hstep
      cases hdata : state.vsData data with
      | none =>
        rw [hdata] at hstep
        exact some.inj hstep ▸ h
      | some stage =>
        obtain ⟨id, cs, received⟩ := stage
        rw [hdata] at hstep
        obtain ⟨stream, hstream, rfl⟩ := map_eq_some_iff.mp hstep
        unfold FormatSuits at hsuits
        dsimp only at hsuits
        rw [hdata] at hsuits
        exact h.set_stream ((h id).vs_data hsuits.2 hstream)
  | take id =>
    obtain rfl := some.inj hstep
    exact h.set_stream ((h id).take config.formatChange)
  | read id field =>
    obtain ⟨stream, hstream, rfl⟩ := map_eq_some_iff.mp hstep
    refine h.set_stream ((h id).read_arg (fun args hargs hnone => ?_) hstream)
    unfold FormatSuits at hsuits
    dsimp only at hsuits
    rw [hargs] at hsuits
    exact (h id).record_ok (hsuits hnone)
  | call id =>
    obtain rfl := some.inj hstep
    exact h.set_stream (h id).call_waiting

/-- What the invariant says about the next step of the thread. -/
theorem format_step_ok (h : state.Inv config) (hsuits : FormatSuits config state event) :
    FormatStepOk config state event := by
  cases event with
  | read id field =>
    show ((state.streams id).read field).isSome = true
    unfold StreamFormat.read
    cases hphase : (state.streams id).phase with
    | waiting => rfl
    | reading args =>
      unfold FormatSuits at hsuits
      dsimp only at hsuits
      rw [hphase] at hsuits
      dsimp only
      split
      · rfl
      case isFalse hread =>
        have hok := (h id).record_ok (hsuits (not_isSome_iff_eq_none.mp hread))
        rw [isSome_map]
        exact hok.field_some field
  | call id =>
    intro call hcall
    cases hphase : (state.streams id).phase with
    | waiting =>
      rw [hphase] at hcall
      exact absurd hcall (some_ne_none _).symm
    | reading args =>
      rw [hphase] at hcall
      obtain hall | ⟨record, hok, hfields, -⟩ := (h id).read args hphase
      · unfold DriverPhase.call at hcall
        dsimp only at hcall
        rw [hall .fcc] at hcall
        exact absurd hcall (some_ne_none _).symm
      · exact hok.call_ok hfields hcall
  | _ => trivial

end

/-- When every event suits, the thread never divides by 0, and every call of `format_change` has the
fourcc and the size of an entry of the table and a rate of one of its intervals. -/
theorem format_thread_ok (config : FormatConfig) (requests : RequestState)
    (events : List FormatEvent)
    (hsuits : AllSteps (formatStep config) (FormatSuits config) (formatStart config requests)
      events) :
    AllSteps (formatStep config) (FormatStepOk config) (formatStart config requests) events := by
  have hstart : (formatStart config requests).Inv config := fun id =>
    ⟨fun _ h => absurd h (some_ne_none _).symm, fun _ h => DriverPhase.noConfusion h⟩
  exact hsuits.of_invariant (fun _ _ _ h hsuits hstep => format_step_inv h hsuits hstep)
    (fun _ _ h hsuits => format_step_ok h hsuits) hstart

def twoFrames : FormatConfig where
  alt := singleStream
  request := defaultControls
  bulkBufSize := none
  formatChange := true
  tables := fun _ =>
    [⟨v4l2PixFmtMjpeg,
      [oneInterval 1280 720 width_1280_ne, oneInterval 1920 1080 width_1920_ne], 1⟩]
  stream2 := rfl
  table_ok := fun _ => ⟨_, mem_cons_self, cons_ne_nil _ _⟩

def commitFrame (index : BitVec 8) : List FormatEvent :=
  [.setup ⟨0x21#8, 0x01#8, 0x0200#16, 0x0001#16, 26#16, true, []⟩, .data [1#8, 0#8, 1#8, index]]

/-- A commit, the start of the stream, and the call. -/
theorem committed_format_ok :
    AllSteps (formatStep twoFrames) (FormatStepOk twoFrames) (formatStart twoFrames requestStart)
      ([.alt (.setConfiguration 1#16)] ++ commitFrame 2#8 ++ [.alt (.setInterface 1#16 1#16),
        .take .one, .read .one .rate, .read .one .fcc, .read .one .width, .read .one .height,
        .call .one]) :=
  format_thread_ok twoFrames requestStart _ (by decide +kernel)

/-- A commit of the first frame, the start of the stream, and a commit of the second frame while the
thread reads. -/
def tornRead : List FormatEvent :=
  [.alt (.setConfiguration 1#16)] ++ commitFrame 1#8 ++ [.alt (.setInterface 1#16 1#16),
    .take .one, .read .one .rate, .read .one .fcc, .read .one .width] ++ commitFrame 2#8 ++
    [.read .one .height]

/-- The stream is started without a commit, and a read is torn. -/
theorem some_formats_not_ok :
    ¬ AllSteps (formatStep twoFrames) (FormatStepOk twoFrames) (formatStart twoFrames requestStart)
        [.alt (.setConfiguration 1#16), .alt (.setInterface 1#16 1#16), .take .one,
          .read .one .rate] ∧
      ¬ AllSteps (formatStep twoFrames) (FormatStepOk twoFrames)
        (formatStart twoFrames requestStart)
        (tornRead ++ [.call .one]) := by
  refine ⟨fun hall => ?_, fun hall => ?_⟩
  · exact Bool.false_ne_true (((hall.2 _ rfl).2 _ rfl).2 _ rfl).1
  · have hrun : ((exec (formatStep twoFrames) (formatStart twoFrames requestStart) tornRead).bind
        fun state => (state.streams .one).phase.call) =
          some (v4l2PixFmtMjpeg, 1280#32, 1080#32, 30#32) := by
      decide +kernel
    obtain ⟨state, hexec, hcall⟩ := bind_eq_some_iff.mp hrun
    obtain ⟨format, hformat, frame, hframe, interval, -, hmixed⟩ := AllSteps.last hall hexec _ hcall
    obtain rfl := mem_singleton.mp hformat
    have hsize : (1280#32, 1080#32) = (frame.width, frame.height) := by
      rw [Prod.mk.injEq, Prod.mk.injEq, Prod.mk.injEq] at hmixed
      rw [hmixed.2.1, hmixed.2.2.1]
    obtain rfl | hframe := mem_cons.mp hframe
    · exact absurd hsize (by decide)
    · obtain rfl := mem_singleton.mp hframe
      exact absurd hsize (by decide)

end FullhanRtos.Uvc
