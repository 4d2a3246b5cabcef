import FullhanRtos.Lib.Transition
import FullhanRtos.Udisk.Commands

/-!
# The thread of the USB disk

`_ep_in_handler` and `_ep_out_handler` send the completions of the endpoints to a thread, which
handles them one after the other. `udiskStep` is one event: a request of an endpoint is completed,
or the thread handles a message.
-/

namespace FullhanRtos.Udisk

open Uvc (Byte byteAt)

/-- `exit:` of `ep_out_handler_process`, with `cbw->dflags`. -/
def cbwExit (state : UdiskState) (dflags : BitVec 8) : UdiskState :=
  let halted :=
    if state.csw.dataReside = 0 then state
    else if dflags &&& 0x80#8 ≠ 0#8 then state.setStall .epIn
    else (state.setStall .epIn).setStall .epOut
  sendStatus (halted.setCswStatus 1)

/-- The case `STAT_CBW` of `ep_out_handler_process`: `none` at a failed assertion. -/
def cbwProcess (config : UdiskConfig) (state : UdiskState) (size : BitVec 32) (done : Nat) :
    Option UdiskState :=
  let cbw := cbwAt state.outBuffer
  if cbw.signature ≠ cbwSignature ∨ size ≠ sizeofCbw then some (cbwExit state cbw.dflags)
  else
    let state := { state with csw := ⟨cswSignature, cbw.tag, cbw.xferLen, 0⟩ }
    match findCbwCommand ((cbw.cb.getD 0 0#8).setWidth 16) with
    | none => some (cbwExit state cbw.dflags)
    | some cmd =>
      let state := { state with cbDataSize := cbLenCalc config cmd cbw state.cbDataSize }
      match cbwVerify state cmd cbw with
      | none => some (cbwExit state cbw.dflags)
      | some state =>
        (cbwHandler config state cmd cbw done).map fun (state, len) =>
          if len = 0 then
            let state := sendStatus state
            if cmd.handler = .startStop then { state with stopFlag := 1 } else state
          else state

/-- `ep_out_handler_process`, where the disk driver transfers `done` sectors if it is called. -/
def epOutHandlerProcess (config : UdiskConfig) (state : UdiskState) (size : BitVec 32)
    (done : Nat) : Option UdiskState :=
  match state.status with
  | .cbw => cbwProcess config state size done
  | .receive =>
    let state := { state with size := state.size - size }.setReside (state.csw.dataReside - size)
    some (sendStatus
      (rtDeviceWrite config state (state.block - config.offset) state.count done))
  | _ => some (cbwExit state (cbwAt state.outBuffer).dflags)

/-- The read of the next wrapper. -/
def readCbw (state : UdiskState) : UdiskState :=
  { state.ioRequest .epOut ⟨.data, sizeofCbw⟩ with status := .cbw }

def epInHandlerProcess (state : UdiskState) : UdiskState :=
  match state.status with
  | .csw => if state.epIn.request.size ≠ sizeofCsw then state.setStall .epIn else readCbw state
  | .cmd =>
    if state.csw.dataReside = 0xff then sendStatus (state.setReside 0)
    else
      let reside := state.csw.dataReside - state.epIn.request.size
      if reside = 0 then sendStatus (state.setReside 0)
      else
        let dirOut := (state.processing.map ScsiCmd.dir) = some .dirOut
        sendStatus ((state.setStall (if dirOut then .epOut else .epIn)).setReside 0)
  | .send =>
    sendStatus ({ state with block := state.block + state.count, count := 0 }.setReside
      (state.csw.dataReside - state.epIn.request.size))
  | _ => state

/-- The messages that `udisk_mq_pool` holds. -/
abbrev udiskMqNum : Nat := 8

/-- `rt_mq_send`. A message to a full queue is lost. -/
def UdiskState.send (state : UdiskState) (dir : EpDir) (size : BitVec 32) : UdiskState :=
  if state.mq.length < udiskMqNum then { state with mq := state.mq ++ [(dir, size)] } else state

/-- What happens: a request of the IN endpoint is completed, one of the OUT endpoint with the bytes
of the host, or the thread handles a message and the disk driver, if it is called, transfers a
number of sectors. -/
inductive UdiskEvent where
  | inDone
  | outDone (data : List Byte)
  | handle (done : Nat)

/-- The host has received a status or data. -/
def Exchange.sent (exchange : Exchange) (request : UioRequest) (csw : Csw) : Exchange :=
  match request.buffer with
  | .csw => { exchange with csws := exchange.csws ++ [csw] }
  | .data => { exchange with moved := exchange.moved + request.size.toNat }

/-- A new exchange when the thread looks for a wrapper. -/
def UdiskState.begin (state : UdiskState) (size : BitVec 32) : UdiskState :=
  let cbw := cbwAt state.outBuffer
  let valid := cbw.signature = cbwSignature ∧ size = sizeofCbw
  { state with
    exchanges := ⟨if valid then some cbw else none, state.disk, 0, [], false, [], 0⟩ ::
      state.exchanges }

/-- One more event of the last exchange. -/
def UdiskState.later (state : UdiskState) : UdiskState :=
  state.observe fun exchange => { exchange with age := exchange.age + 1 }

/-- The completion of a read, with the data in the buffer. What is written behind the buffer is left
out. -/
def UdiskState.received (state : UdiskState) (request : UioRequest) (data : List Byte) :
    UdiskState :=
  let next : UdiskState :=
    { state with
      epOut := { state.epOut with inFlight := none }
      outBuffer := (data ++ state.outBuffer.drop data.length).take state.outBuffer.length }
  let next :=
    if state.status = .receive then
      next.observe fun exchange =>
        { exchange with moved := exchange.moved + data.length, received := data }
    else next
  next.send .epOut request.size

def handleMessage (config : UdiskConfig) (state : UdiskState) (done : Nat) : Option UdiskState :=
  match state.mq with
  | [] => none
  | (.epIn, _) :: mq => some (epInHandlerProcess { state with mq }.later)
  | (.epOut, size) :: mq =>
    let state := { state with mq }
    let state := if state.status = .cbw then state.begin size else state.later
    epOutHandlerProcess config state size done

/-- One event. A read is completed when all bytes have come; one of no bytes is not reported. -/
def udiskStep (config : UdiskConfig) (state : UdiskState) : UdiskEvent → Option UdiskState
  | .inDone =>
    state.epIn.inFlight.map fun request =>
      (({ state with epIn := { state.epIn with inFlight := none } }.later.observe fun exchange =>
        exchange.sent request state.csw).send .epIn request.size)
  | .outDone data =>
    state.epOut.inFlight.bind fun request =>
      if request.size ≠ 0 ∧ data.length = request.size.toNat then
        some (state.later.received request data)
      else none
  | .handle done => handleMessage config state done

/-- After `_function_enable`, with anything in the buffers and on the disk. -/
def udiskStart (inBuffer outBuffer : List Byte) (disk : Nat → List Byte) : UdiskState where
  csw := ⟨0, 0, 0, 0⟩
  status := .cbw
  cbDataSize := 0
  block := 0
  count := 0
  size := 0
  processing := none
  stopFlag := 0
  epIn := ⟨⟨.data, 0⟩, none, false⟩
  epOut := ⟨⟨.data, sizeofCbw⟩, some ⟨.data, sizeofCbw⟩, false⟩
  inBuffer := inBuffer
  outBuffer := outBuffer
  disk := disk
  mq := []
  accesses := [.request ⟨.data, sizeofCbw⟩]
  exchanges := []

end FullhanRtos.Udisk
