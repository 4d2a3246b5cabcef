import FullhanRtos.Udisk.Thread

/-!
# Exchanges

What the host and the disk see of each wrapper: `Answered` says that one status with the right tag
and residue was sent, and that the disk has changed as the wrapper says. A request and its
completion alternate, which `Phase` describes.

`udisk_ok` says for which runs all wrappers are answered.
-/

namespace FullhanRtos.Udisk

open Transition BitVec

open Uvc (Byte byteAt)

/-! ## What the host and the disk see -/

/-- A disk transfer is inside the buffers and the disk, and a request is inside its buffer. -/
def Access.Inside (config : UdiskConfig) : Access → Prop
  | .disk sector count => count ≤ 256 ∧ sector + count ≤ config.sectorCount.toNat
  | .request ⟨.csw, size⟩ => size.toNat ≤ sizeofCsw.toNat
  | .request ⟨.data, size⟩ => size.toNat ≤ config.bufferSize

def Cbw.command (cbw : Cbw) : Option ScsiCmd := findCbwCommand ((cbw.cb.getD 0 0#8).setWidth 16)

def Cbw.handler (cbw : Cbw) : Option Handler := cbw.command.map ScsiCmd.handler

/-- The status fits to the wrapper. Only a `WRITE(10)` with the status 0 has changed the disk. -/
structure StatusOk (config : UdiskConfig) (exchange : Exchange) (cbw : Cbw) (csw : Csw)
    (after : Nat → List Byte) : Prop where
  signature : csw.signature = cswSignature
  tag : csw.tag = cbw.tag
  reside : csw.dataReside.toNat + exchange.moved = cbw.xferLen.toNat
  failed : exchange.failed = true → csw.status ≠ 0
  written : cbw.handler = some .write10 → csw.status = 0 →
    exchange.received.length = cbw.blocks.toNat * config.bytesPerSector.toNat ∧
      after = writeSectors config exchange.before cbw.lba.toNat cbw.blocks.toNat exchange.received
  kept : cbw.handler ≠ some .write10 ∨ csw.status ≠ 0 → after = exchange.before

/-- A valid wrapper has one status. Another one has not changed the disk. -/
def Exchange.Answered (config : UdiskConfig) (exchange : Exchange) (after : Nat → List Byte) :
    Prop :=
  match exchange.cbw with
  | some cbw => ∃ csw, exchange.csws = [csw] ∧ StatusOk config exchange cbw csw after
  | none => after = exchange.before

def AllAnswered (config : UdiskConfig) : List Exchange → (Nat → List Byte) → Prop
  | [], _ => True
  | exchange :: rest, after =>
    exchange.Answered config after ∧ AllAnswered config rest exchange.before

/-- Every access is inside, all wrappers but the last are answered, the status of the last is sent
with the third event after it at the latest, and there always is a next event. -/
structure UdiskOk (config : UdiskConfig) (state : UdiskState) : Prop where
  inside : ∀ access ∈ state.accesses, access.Inside config
  answered : ∀ exchange rest, state.exchanges = exchange :: rest →
    (exchange.Answered config state.disk ∨ exchange.csws = [] ∧ exchange.age ≤ 2) ∧
      AllAnswered config rest exchange.before
  live : ∃ event next, udiskStep config state event = some next

/-! ## The wrappers that are answered -/

/-- The commands without a data stage. -/
def Handler.noData : Handler → Bool
  | .testUnitReady | .allowRemoval | .startStop | .verify10 => true
  | _ => false

/-- The bytes that a reply has at most. -/
def Handler.limit : Handler → BitVec 32
  | .requestSense => sizeofRequestSense
  | .inquiryCmd => sizeofInquiryCmd
  | .modeSense6 => sizeofModeSense6
  | .modeSense10 => sizeofModeSense10
  | .readCapacities => sizeofReadCapacities
  | .readCapacity => sizeofReadCapacity
  | _ => 0

/-- The blocks are in the buffer and on the disk, and the length of the wrapper is theirs. -/
structure BlocksFit (config : UdiskConfig) (cbw : Cbw) : Prop where
  count : cbw.blocks.toNat ≤ 256
  range : cbw.lba.toNat + cbw.blocks.toNat ≤ config.sectorCount.toNat
  length : cbw.xferLen = config.bytesPerSector * cbw.blocks

/-- The data stage of a command. -/
def DataFits (config : UdiskConfig) (cmd : ScsiCmd) (cbw : Cbw) : Prop :=
  match cmd.handler with
  | .read10 => BlocksFit config cbw ∧ cbw.blocks < config.sectorCount
  | .write10 => BlocksFit config cbw
  | handler => cbw.xferLen ≤ handler.limit

/-- A wrapper without data has a command without data, or is refused; one with data has the
direction of its command, not more bytes than the command block says, and a data stage that
fits. -/
def CbwSuits (config : UdiskConfig) (cbw : Cbw) : Prop :=
  match cbw.command with
  | none => cbw.xferLen = 0
  | some cmd =>
    if cbw.xferLen = 0 then
      cbLenCalc config cmd cbw 0 ≠ 0 ∨ dirError cmd cbw = true ∨ cmd.handler.noData = true
    else
      dirError cmd cbw = false ∧ cbw.xferLen ≤ cbLenCalc config cmd cbw 0 ∧
        DataFits config cmd cbw

/-- The host sends such wrappers, and the disk transfers all sectors. -/
def UdiskSuits (config : UdiskConfig) (state : UdiskState) : UdiskEvent → Prop
  | .inDone => True
  | .outDone data =>
    state.status = .cbw → (cbwAt data).signature = cbwSignature → CbwSuits config (cbwAt data)
  | .handle done =>
    (state.status = .receive → done = state.count.toNat) ∧
      (state.status = .cbw → (cbwAt state.outBuffer).handler = some .read10 →
        done = (cbwAt state.outBuffer).blocks.toNat)

instance (config : UdiskConfig) (cbw : Cbw) : Decidable (BlocksFit config cbw) :=
  decidable_of_iff (cbw.blocks.toNat ≤ 256 ∧
      cbw.lba.toNat + cbw.blocks.toNat ≤ config.sectorCount.toNat ∧
      cbw.xferLen = config.bytesPerSector * cbw.blocks)
    ⟨fun ⟨hcount, hrange, hlength⟩ => ⟨hcount, hrange, hlength⟩,
      fun ⟨hcount, hrange, hlength⟩ => ⟨hcount, hrange, hlength⟩⟩

instance (config : UdiskConfig) (cmd : ScsiCmd) (cbw : Cbw) :
    Decidable (DataFits config cmd cbw) := by
  unfold DataFits
  split <;> infer_instance

instance (config : UdiskConfig) (cbw : Cbw) : Decidable (CbwSuits config cbw) := by
  unfold CbwSuits
  split <;> infer_instance

instance (config : UdiskConfig) (state : UdiskState) :
    ∀ event, Decidable (UdiskSuits config state event)
  | .inDone => .isTrue trivial
  | .outDone data => inferInstanceAs (Decidable (state.status = .cbw →
      (cbwAt data).signature = cbwSignature → CbwSuits config (cbwAt data)))
  | .handle done => inferInstanceAs (Decidable (
      (state.status = .receive → done = state.count.toNat) ∧
      (state.status = .cbw → (cbwAt state.outBuffer).handler = some .read10 →
        done = (cbwAt state.outBuffer).blocks.toNat)))

/-! ## Phases -/

structure DataStage (config : UdiskConfig) (state : UdiskState) (exchange : Exchange) (cbw : Cbw)
    (moved : Nat) : Prop where
  current : exchange.cbw = some cbw
  before : exchange.before = state.disk
  moved : exchange.moved = moved
  failed : exchange.failed = false
  csws : exchange.csws = []
  signature : state.csw.signature = cswSignature
  tag : state.csw.tag = cbw.tag
  reside : state.csw.dataReside = cbw.xferLen
  length : cbw.xferLen ≠ 0

/-- Where the thread, the endpoints and the last wrapper are. -/
inductive Phase (config : UdiskConfig) (state : UdiskState) : Prop
  /-- The next wrapper is read. -/
  | waiting (hstatus : state.status = .cbw) (hin : state.epIn.inFlight = none)
      (hout : state.epOut.inFlight = some ⟨.data, sizeofCbw⟩) (hmq : state.mq = [])
      (hreside : state.csw.dataReside = 0)
      (hanswered : AllAnswered config state.exchanges state.disk)
  /-- A wrapper is in the buffer. -/
  | wrapper (hstatus : state.status = .cbw) (hin : state.epIn.inFlight = none)
      (hout : state.epOut.inFlight = none) (hmq : state.mq = [(.epOut, sizeofCbw)])
      (hreside : state.csw.dataReside = 0)
      (hanswered : AllAnswered config state.exchanges state.disk)
      (hsuits : (cbwAt state.outBuffer).signature = cbwSignature →
        CbwSuits config (cbwAt state.outBuffer))
  /-- Data is sent. -/
  | sending (exchange : Exchange) (rest : List Exchange) (cbw : Cbw)
      (hstatus : state.status = .cmd ∧ cbw.xferLen ≠ 0xff ∨ state.status = .send)
      (hin : state.epIn.inFlight = some ⟨.data, cbw.xferLen⟩)
      (hrequest : state.epIn.request = ⟨.data, cbw.xferLen⟩)
      (hout : state.epOut.inFlight = none) (hmq : state.mq = [])
      (hexchanges : state.exchanges = exchange :: rest) (hage : exchange.age = 0)
      (hstage : DataStage config state exchange cbw 0) (hread : cbw.handler ≠ some .write10)
      (hanswered : AllAnswered config rest exchange.before)
  /-- Data was sent. -/
  | sent (exchange : Exchange) (rest : List Exchange) (cbw : Cbw)
      (hstatus : state.status = .cmd ∧ cbw.xferLen ≠ 0xff ∨ state.status = .send)
      (hin : state.epIn.inFlight = none) (hrequest : state.epIn.request = ⟨.data, cbw.xferLen⟩)
      (hout : state.epOut.inFlight = none) (hmq : state.mq = [(.epIn, cbw.xferLen)])
      (hexchanges : state.exchanges = exchange :: rest) (hage : exchange.age = 1)
      (hstage : DataStage config state exchange cbw cbw.xferLen.toNat)
      (hread : cbw.handler ≠ some .write10)
      (hanswered : AllAnswered config rest exchange.before)
  /-- Data is received. -/
  | receiving (exchange : Exchange) (rest : List Exchange) (cbw : Cbw)
      (hstatus : state.status = .receive) (hin : state.epIn.inFlight = none)
      (hout : state.epOut.inFlight = some ⟨.data, cbw.xferLen⟩) (hmq : state.mq = [])
      (hexchanges : state.exchanges = exchange :: rest) (hage : exchange.age = 0)
      (hstage : DataStage config state exchange cbw 0) (hwrite : cbw.handler = some .write10)
      (hcsw : state.csw.status = 0) (hblock : state.block = cbw.lba)
      (hcount : state.count = cbw.blocks) (hfits : BlocksFit config cbw)
      (hanswered : AllAnswered config rest exchange.before)
  /-- Data was received. -/
  | received (exchange : Exchange) (rest : List Exchange) (cbw : Cbw)
      (hstatus : state.status = .receive) (hin : state.epIn.inFlight = none)
      (hout : state.epOut.inFlight = none) (hmq : state.mq = [(.epOut, cbw.xferLen)])
      (hexchanges : state.exchanges = exchange :: rest) (hage : exchange.age = 1)
      (hstage : DataStage config state exchange cbw cbw.xferLen.toNat)
      (hwrite : cbw.handler = some .write10) (hcsw : state.csw.status = 0)
      (hblock : state.block = cbw.lba) (hcount : state.count = cbw.blocks)
      (hfits : BlocksFit config cbw)
      (hdata : exchange.received.length = cbw.xferLen.toNat ∧
        state.outBuffer.take cbw.xferLen.toNat = exchange.received)
      (hanswered : AllAnswered config rest exchange.before)
  /-- The status is sent. -/
  | status (exchange : Exchange) (rest : List Exchange) (hstatus : state.status = .csw)
      (hin : state.epIn.inFlight = some ⟨.csw, sizeofCsw⟩)
      (hrequest : state.epIn.request = ⟨.csw, sizeofCsw⟩)
      (hout : state.epOut.inFlight = none) (hmq : state.mq = [])
      (hreside : state.csw.dataReside = 0) (hexchanges : state.exchanges = exchange :: rest)
      (hcsws : exchange.csws = []) (hage : exchange.age ≤ 2)
      (hok : match exchange.cbw with
        | some cbw => StatusOk config exchange cbw state.csw state.disk
        | none => state.disk = exchange.before)
      (hanswered : AllAnswered config rest exchange.before)
  /-- The status was sent. -/
  | answered (hstatus : state.status = .csw) (hin : state.epIn.inFlight = none)
      (hrequest : state.epIn.request = ⟨.csw, sizeofCsw⟩)
      (hout : state.epOut.inFlight = none) (hmq : state.mq = [(.epIn, sizeofCsw)])
      (hreside : state.csw.dataReside = 0)
      (hanswered : AllAnswered config state.exchanges state.disk)

/-- What holds in all phases. -/
structure UdiskInv (config : UdiskConfig) (state : UdiskState) : Prop where
  inStalled : state.epIn.stalled = false
  outStalled : state.epOut.stalled = false
  length : state.outBuffer.length = config.bufferSize
  inside : ∀ access ∈ state.accesses, access.Inside config
  phase : Phase config state

/-! ## Requests of the endpoints -/

section

variable {config : UdiskConfig} {state next : UdiskState} {exchange : Exchange}
  {rest : List Exchange} {cbw : Cbw} {cmd : ScsiCmd} {done : Nat} {after : Nat → List Byte}
  {csw : Csw}

theorem io_in (h : state.epIn.stalled = false) (request : UioRequest) :
    state.ioRequest .epIn request =
      { state with
        epIn := { state.epIn with request, inFlight := some request }
        accesses := .request request :: state.accesses } := by
  unfold UdiskState.ioRequest UEp.ioRequest
  rw [if_neg (ne_true_of_eq_false h), if_neg (ne_true_of_eq_false h)]

theorem io_out (h : state.epOut.stalled = false) (request : UioRequest) :
    state.ioRequest .epOut request =
      { state with
        epOut := { state.epOut with request, inFlight := some request }
        accesses := .request request :: state.accesses } := by
  unfold UdiskState.ioRequest UEp.ioRequest
  rw [if_neg (ne_true_of_eq_false h), if_neg (ne_true_of_eq_false h)]

theorem inside_cons {access : Access} (haccess : access.Inside config)
    (h : ∀ access ∈ state.accesses, access.Inside config) :
    ∀ access' ∈ access :: state.accesses, access'.Inside config := by
  intro access' hmem
  obtain rfl | hmem := List.mem_cons.mp hmem
  · exact haccess
  · exact h access' hmem

/-- The number of events does not matter for an answer. -/
theorem status_ok_congr {other : Exchange} (h : StatusOk config exchange cbw csw after)
    (hmoved : other.moved = exchange.moved) (hfailed : other.failed = exchange.failed)
    (hreceived : other.received = exchange.received) (hbefore : other.before = exchange.before) :
    StatusOk config other cbw csw after where
  signature := h.signature
  tag := h.tag
  reside := hmoved ▸ h.reside
  failed := hfailed ▸ h.failed
  written := by
    rw [hreceived, hbefore]
    exact h.written
  kept := hbefore ▸ h.kept

theorem all_answered_later {exchanges : List Exchange} (h : AllAnswered config exchanges after) :
    AllAnswered config
      (exchanges.modifyHead fun exchange => { exchange with age := exchange.age + 1 }) after := by
  cases exchanges with
  | nil => trivial
  | cons exchange rest =>
    refine ⟨?_, h.2⟩
    have hfirst := h.1
    unfold Exchange.Answered at hfirst ⊢
    cases hcbw : exchange.cbw with
    | none =>
      rw [hcbw] at hfirst
      exact hfirst
    | some cbw =>
      rw [hcbw] at hfirst
      obtain ⟨csw, hcsws, hok⟩ := hfirst
      exact ⟨csw, hcsws, status_ok_congr hok rfl rfl rfl rfl⟩

theorem StatusOk.current (h : StatusOk config exchange cbw csw after)
    (hcurrent : exchange.cbw = some cbw) :
    match exchange.cbw with
    | some cbw => StatusOk config exchange cbw csw after
    | none => after = exchange.before := by
  rw [hcurrent]
  exact h

theorem send_status_inv (hinStalled : state.epIn.stalled = false)
    (houtStalled : state.epOut.stalled = false)
    (hlength : state.outBuffer.length = config.bufferSize)
    (hinside : ∀ access ∈ state.accesses, access.Inside config)
    (hout : state.epOut.inFlight = none) (hmq : state.mq = []) (hreside : state.csw.dataReside = 0)
    (hexchanges : state.exchanges = exchange :: rest) (hcsws : exchange.csws = [])
    (hage : exchange.age ≤ 2)
    (hok : match exchange.cbw with
      | some cbw => StatusOk config exchange cbw state.csw state.disk
      | none => state.disk = exchange.before)
    (hanswered : AllAnswered config rest exchange.before) : UdiskInv config (sendStatus state) := by
  unfold sendStatus
  rw [io_in hinStalled]
  exact ⟨hinStalled, houtStalled, hlength, inside_cons (le_refl 13) hinside,
    .status exchange rest rfl rfl rfl hout hmq hreside hexchanges hcsws hage hok hanswered⟩

/-! ## The handlers -/

/-- The thread has taken a valid wrapper, and nothing has been answered. -/
structure Begun (config : UdiskConfig) (state : UdiskState) (exchange : Exchange)
    (rest : List Exchange) (cbw : Cbw) : Prop where
  inStalled : state.epIn.stalled = false
  outStalled : state.epOut.stalled = false
  length : state.outBuffer.length = config.bufferSize
  inside : ∀ access ∈ state.accesses, access.Inside config
  inFlight : state.epIn.inFlight = none
  outFlight : state.epOut.inFlight = none
  mq : state.mq = []
  exchanges : state.exchanges = exchange :: rest
  age : exchange.age = 0
  current : exchange.cbw = some cbw
  before : exchange.before = state.disk
  moved : exchange.moved = 0
  failed : exchange.failed = false
  csws : exchange.csws = []
  signature : state.csw.signature = cswSignature
  tag : state.csw.tag = cbw.tag
  reside : state.csw.dataReside = cbw.xferLen
  answered : AllAnswered config rest exchange.before

section

variable (h : Begun config state exchange rest cbw)

include h

/-- What the handlers change before the data stage does not matter. -/
theorem Begun.keep (hin : next.epIn = state.epIn) (hout : next.epOut = state.epOut)
    (hbuffer : next.outBuffer = state.outBuffer) (haccesses : next.accesses = state.accesses)
    (hmq : next.mq = state.mq) (hexchanges : next.exchanges = state.exchanges)
    (hdisk : next.disk = state.disk) (hsignature : next.csw.signature = state.csw.signature)
    (htag : next.csw.tag = state.csw.tag) (hreside : next.csw.dataReside = state.csw.dataReside) :
    Begun config next exchange rest cbw where
  inStalled := hin ▸ h.inStalled
  outStalled := hout ▸ h.outStalled
  length := hbuffer ▸ h.length
  inside := haccesses ▸ h.inside
  inFlight := hin ▸ h.inFlight
  outFlight := hout ▸ h.outFlight
  mq := hmq.trans h.mq
  exchanges := hexchanges.trans h.exchanges
  age := h.age
  current := h.current
  before := h.before.trans hdisk.symm
  moved := h.moved
  failed := h.failed
  csws := h.csws
  signature := hsignature.trans h.signature
  tag := htag.trans h.tag
  reside := hreside.trans h.reside
  answered := h.answered

theorem Begun.fill {pos : Nat} {bytes : List Byte} :
    Begun config (state.fill pos bytes) exchange rest cbw :=
  h.keep rfl rfl rfl rfl rfl rfl rfl rfl rfl rfl

theorem Begun.set_status {status : BitVec 8} :
    Begun config (state.setCswStatus status) exchange rest cbw :=
  h.keep rfl rfl rfl rfl rfl rfl rfl rfl rfl rfl

theorem Begun.stage (hlength : cbw.xferLen ≠ 0) :
    DataStage config state exchange cbw 0 :=
  ⟨h.current, h.before, h.moved, h.failed, h.csws, h.signature, h.tag, h.reside, hlength⟩

theorem Begun.sending (hlength : cbw.xferLen ≠ 0) (hsize : cbw.xferLen.toNat ≤ config.bufferSize)
    (hread : cbw.handler ≠ some .write10) {status : Stat}
    (hstatus : status = .cmd ∧ cbw.xferLen ≠ 0xff ∨ status = .send) :
    UdiskInv config { state.ioRequest .epIn ⟨.data, cbw.xferLen⟩ with status } := by
  have hstage := h.stage hlength
  rw [io_in h.inStalled]
  exact ⟨h.inStalled, h.outStalled, h.length, inside_cons hsize h.inside,
    .sending exchange rest cbw hstatus rfl rfl h.outFlight h.mq h.exchanges h.age
      ⟨hstage.current, hstage.before, hstage.moved, hstage.failed, hstage.csws, hstage.signature,
        hstage.tag, hstage.reside, hstage.length⟩ hread h.answered⟩

/-- The status is sent without a data stage. -/
theorem Begun.status (hlength : cbw.xferLen = 0)
    (hkept : cbw.handler ≠ some .write10 ∨ state.csw.status ≠ 0) :
    UdiskInv config (sendStatus state) := by
  refine send_status_inv h.inStalled h.outStalled h.length h.inside h.outFlight h.mq
    (h.reside.trans hlength) h.exchanges h.csws (h.age.trans_le (Nat.zero_le 2))
    (StatusOk.current ?_ h.current) h.answered
  refine ⟨h.signature, h.tag, ?_, ?_, ?_, fun _ => h.before.symm⟩
  · rw [h.reside, h.moved]
    rfl
  · intro hfailed
    exact absurd (h.failed.symm.trans hfailed) Bool.false_ne_true
  · intro hwrite hstatus
    obtain hread | hne := hkept
    · exact absurd hwrite hread
    · exact absurd hstatus hne

end

theorem buffer_size_ge (config : UdiskConfig) : 256 ≤ config.bufferSize :=
  Nat.le_mul_of_pos_left 256 config.bytesPerSector_pos

/-- The replies. -/
theorem Begun.send_reply (h : Begun config state exchange rest cbw)
    (hdata : state.cbDataSize = cbw.xferLen) (hlength : cbw.xferLen ≠ 0) {limit : BitVec 32}
    (hle : cbw.xferLen ≤ limit) (hlimit : limit.toNat ≤ 36) (hread : cbw.handler ≠ some .write10) :
    ((reply state limit).2 = cbw.xferLen ∧ UdiskInv config (reply state limit).1) ∧
      (replyReside state limit).2 = cbw.xferLen ∧ UdiskInv config (replyReside state limit).1 := by
  have hsmall : cbw.xferLen.toNat ≤ limit.toNat := hle
  have hmin : (if state.cbDataSize < limit then state.cbDataSize else limit) = cbw.xferLen := by
    split
    case isTrue => exact hdata
    case isFalse hge =>
      have hnat : ¬ state.cbDataSize.toNat < limit.toNat := hge
      rw [hdata] at hnat
      exact eq_of_toNat_eq (by omega)
  have hsize := buffer_size_ge config
  have hne : cbw.xferLen ≠ 0xff := by
    intro heq
    have hnat : cbw.xferLen.toNat = 255 := congrArg BitVec.toNat heq
    omega
  have hreply : reply state limit =
      ({ { state with cbDataSize := cbw.xferLen }.ioRequest .epIn ⟨.data, cbw.xferLen⟩ with
        status := .cmd }, cbw.xferLen) := by
    unfold reply
    rw [hmin]
  have hkeep : Begun config { state with cbDataSize := cbw.xferLen } exchange rest cbw :=
    h.keep rfl rfl rfl rfl rfl rfl rfl rfl rfl rfl
  have hkeep' : Begun config ({ state with cbDataSize := cbw.xferLen }.setReside cbw.xferLen)
      exchange rest cbw :=
    hkeep.keep rfl rfl rfl rfl rfl rfl rfl rfl rfl h.reside.symm
  have hsent := hkeep.sending hlength (by omega) hread (.inl ⟨rfl, hne⟩)
  have hsent' := hkeep'.sending hlength (by omega) hread (.inl ⟨rfl, hne⟩)
  refine ⟨⟨congrArg Prod.snd hreply, ?_⟩, ?_⟩
  · rw [hreply]
    exact hsent
  · unfold replyReside
    rw [hreply]
    refine ⟨rfl, ?_⟩
    rw [io_in hkeep.inStalled]
    rw [io_in hkeep'.inStalled] at hsent'
    exact hsent'

theorem sector_eq (config : UdiskConfig) (block : BitVec 32) :
    config.sector (block - config.offset) = block.toNat := by
  unfold UdiskConfig.sector
  rw [add_comm, sub_add_cancel]

theorem blocks_size (hfits : BlocksFit config cbw) :
    cbw.xferLen.toNat = cbw.blocks.toNat * config.bytesPerSector.toNat ∧
      cbw.xferLen.toNat ≤ config.bufferSize := by
  have hbuffer : config.bytesPerSector.toNat * 256 < 2 ^ 32 := config.buffer_lt
  have hle : config.bytesPerSector.toNat * cbw.blocks.toNat ≤ config.bytesPerSector.toNat * 256 :=
    Nat.mul_le_mul_left _ hfits.count
  rw [hfits.length, toNat_mul, Nat.mod_eq_of_lt (by omega)]
  exact ⟨mul_comm _ _, hle⟩

theorem read10_eq (hcount : cbw.blocks < config.sectorCount) :
    read10 config state cbw done =
      some ({ (rtDeviceRead config ({ state with
          block := cbw.lba
          count := cbw.blocks }.setReside state.cbDataSize) (cbw.lba - config.offset) cbw.blocks
            done).ioRequest .epIn
              ⟨.data, config.bytesPerSector * cbw.blocks⟩ with status := .send },
        config.bytesPerSector * cbw.blocks) :=
  if_pos hcount

theorem write10_eq :
    write10 config state cbw =
      ({ ({ state with
          block := cbw.lba
          count := cbw.blocks
          size := config.bytesPerSector * cbw.blocks }.setReside state.cbDataSize).ioRequest .epOut
            ⟨.data, config.bytesPerSector * cbw.blocks⟩ with status := .receive },
        config.bytesPerSector * cbw.blocks) :=
  rfl

theorem Begun.read (h : Begun config state exchange rest cbw)
    (hdata : state.cbDataSize = cbw.xferLen) (hlength : cbw.xferLen ≠ 0)
      (hfits : BlocksFit config cbw)
    (hcount : cbw.blocks < config.sectorCount) (hread : cbw.handler ≠ some .write10)
    (hdone : done = cbw.blocks.toNat) :
    ∃ next, read10 config state cbw done = some (next, cbw.xferLen) ∧ UdiskInv config next := by
  rw [read10_eq hcount, ← hfits.length]
  refine ⟨_, rfl, ?_⟩
  have hexchanges : (rtDeviceRead config ({ state with
      block := cbw.lba
      count := cbw.blocks }.setReside state.cbDataSize) (cbw.lba - config.offset) cbw.blocks
        done).exchanges =
      { exchange with failed := exchange.failed || done != cbw.blocks.toNat } :: rest :=
    congrArg (List.modifyHead _) h.exchanges
  have hdisk : Access.Inside config (.disk (config.sector (cbw.lba - config.offset))
      cbw.blocks.toNat) := by
    refine ⟨hfits.count, ?_⟩
    rw [sector_eq]
    exact hfits.range
  have hbegun : Begun config (rtDeviceRead config ({ state with
      block := cbw.lba
      count := cbw.blocks }.setReside state.cbDataSize) (cbw.lba - config.offset) cbw.blocks done)
      { exchange with failed := exchange.failed || done != cbw.blocks.toNat } rest cbw :=
    { inStalled := h.inStalled
      outStalled := h.outStalled
      length := h.length
      inside := inside_cons hdisk h.inside
      inFlight := h.inFlight
      outFlight := h.outFlight
      mq := h.mq
      exchanges := hexchanges
      age := h.age
      current := h.current
      before := h.before
      moved := h.moved
      failed := by
        rw [h.failed, hdone, bne_self_eq_false]
        rfl
      csws := h.csws
      signature := h.signature
      tag := h.tag
      reside := hdata
      answered := h.answered }
  exact hbegun.sending hlength (blocks_size hfits).2 hread (.inr rfl)

theorem Begun.write (h : Begun config state exchange rest cbw)
    (hdata : state.cbDataSize = cbw.xferLen) (hlength : cbw.xferLen ≠ 0)
    (hfits : BlocksFit config cbw) (hwrite : cbw.handler = some .write10)
    (hcsw : state.csw.status = 0) :
    (write10 config state cbw).2 = cbw.xferLen ∧ UdiskInv config (write10 config state cbw).1 := by
  have hkeep : Begun config ({ state with
      block := cbw.lba
      count := cbw.blocks
      size := cbw.xferLen }.setReside state.cbDataSize) exchange rest cbw :=
    h.keep rfl rfl rfl rfl rfl rfl rfl rfl rfl (hdata.trans h.reside.symm)
  have hstage := hkeep.stage hlength
  rw [write10_eq, ← hfits.length, io_out hkeep.outStalled]
  refine ⟨rfl, hkeep.inStalled, hkeep.outStalled, hkeep.length,
    inside_cons (blocks_size hfits).2 hkeep.inside, ?_⟩
  exact .receiving exchange rest cbw rfl hkeep.inFlight rfl hkeep.mq hkeep.exchanges hkeep.age
    ⟨hstage.current, hstage.before, hstage.moved, hstage.failed, hstage.csws, hstage.signature,
      hstage.tag, hstage.reside, hstage.length⟩ hwrite hcsw rfl rfl hfits hkeep.answered

theorem some_reply {result : UdiskState × BitVec 32}
    (h : result.2 = cbw.xferLen ∧ UdiskInv config result.1) :
    ∃ next, some result = some (next, cbw.xferLen) ∧ UdiskInv config next :=
  ⟨result.1, congrArg some (Prod.ext rfl h.1), h.2⟩

theorem Begun.handler (h : Begun config state exchange rest cbw)
    (hcmd : cbw.command = some cmd) (hdata : state.cbDataSize = cbw.xferLen)
    (hlength : cbw.xferLen ≠ 0) (hfits : DataFits config cmd cbw)
    (hcsw : cmd.handler = .write10 → state.csw.status = 0)
    (hdone : cmd.handler = .read10 → done = cbw.blocks.toNat) :
    ∃ next, cbwHandler config state cmd cbw done = some (next, cbw.xferLen) ∧
      UdiskInv config next := by
  have hbegun : Begun config { state with processing := some cmd } exchange rest cbw :=
    h.keep rfl rfl rfl rfl rfl rfl rfl rfl rfl rfl
  have hhandler : cbw.handler = some cmd.handler := congrArg (Option.map ScsiCmd.handler) hcmd
  have hread : cmd.handler ≠ .write10 → cbw.handler ≠ some .write10 := fun hne hwrite =>
    hne (Option.some.inj (hhandler.symm.trans hwrite))
  unfold DataFits at hfits
  unfold cbwHandler
  generalize hname : cmd.handler = handler at hfits
  cases handler with
  | read10 =>
    exact hbegun.read hdata hlength hfits.1 hfits.2 (hread (hname ▸ Handler.noConfusion))
      (hdone hname)
  | write10 =>
    exact some_reply
      (hbegun.write hdata hlength hfits (hhandler.trans (congrArg some hname)) (hcsw hname))
  | requestSense =>
    have hother := hread (hname ▸ Handler.noConfusion)
    exact some_reply
      (hbegun.fill.fill.fill.send_reply hdata hlength hfits (by decide) hother).1
  | inquiryCmd =>
    have hother := hread (hname ▸ Handler.noConfusion)
    exact some_reply
      (hbegun.fill.fill.fill.fill.send_reply hdata hlength hfits (by decide) hother).2
  | modeSense6 | modeSense10 | readCapacities =>
    have hother := hread (hname ▸ Handler.noConfusion)
    exact some_reply (hbegun.fill.send_reply hdata hlength hfits (by decide) hother).2
  | readCapacity =>
    have hother := hread (hname ▸ Handler.noConfusion)
    exact some_reply (hbegun.fill.set_status.send_reply hdata hlength hfits (by decide) hother).1
  | testUnitReady | allowRemoval | startStop | verify10 =>
    have hzero : cbw.xferLen.toNat ≤ 0 := hfits
    exact absurd (eq_of_toNat_eq (Nat.le_zero.mp hzero)) hlength

theorem Begun.no_data (h : Begun config state exchange rest cbw) (hcmd : cbw.command = some cmd)
    (hno : cmd.handler.noData = true) (done : Nat) :
    ∃ next, cbwHandler config state cmd cbw done = some (next, 0) ∧
      Begun config next exchange rest cbw ∧ cbw.handler ≠ some .write10 := by
  have hbegun : Begun config { state with processing := some cmd } exchange rest cbw :=
    h.keep rfl rfl rfl rfl rfl rfl rfl rfl rfl rfl
  have hhandler : cbw.handler = some cmd.handler := congrArg (Option.map ScsiCmd.handler) hcmd
  unfold cbwHandler
  cases hname : cmd.handler with
  | testUnitReady | allowRemoval | startStop | verify10 =>
    refine ⟨_, rfl, hbegun.set_status, ?_⟩
    rw [hhandler, hname]
    exact fun heq => Handler.noConfusion (Option.some.inj heq)
  | _ =>
    rw [hname] at hno
    exact absurd hno Bool.false_ne_true

/-! ## The wrapper -/

theorem cbw_exit_eq (hreside : state.csw.dataReside = 0) (dflags : BitVec 8) :
    cbwExit state dflags = sendStatus (state.setCswStatus 1) := by
  unfold cbwExit
  rw [if_pos hreside]

theorem Begun.refused (h : Begun config state exchange rest cbw) (hlength : cbw.xferLen = 0)
    (dflags : BitVec 8) : UdiskInv config (cbwExit state dflags) := by
  rw [cbw_exit_eq (h.reside.trans hlength)]
  have hstatus : (state.setCswStatus 1).csw.status ≠ 0 := by
    show (1 : BitVec 8) ≠ 0
    decide
  exact h.set_status.status hlength (.inr hstatus)

theorem command_mem (hcmd : cbw.command = some cmd) : cmd ∈ cmdData := by
  unfold Cbw.command findCbwCommand at hcmd
  exact List.mem_of_find?_eq_some hcmd

theorem write_len (hcmd : cbw.command = some cmd) (hwrite : cmd.handler = .write10) :
    cbLenCalc config cmd cbw 0 = config.bytesPerSector * cbw.blocks := by
  have hentry : ∀ entry ∈ cmdData, entry.handler = .write10 →
      entry = ⟨0x2a, .write10, 10, .blockCount, 0, .dirOut⟩ := by decide
  obtain rfl := hentry cmd (command_mem hcmd) hwrite
  exact mul_comm _ _

/-- The length does not depend on the one before. -/
theorem cb_len_calc_eq (hcmd : cbw.command = some cmd) (old : BitVec 32) :
    cbLenCalc config cmd cbw old = cbLenCalc config cmd cbw 0 := by
  have hlen : ∀ entry ∈ cmdData, entry.cmdLen = 6 ∨ entry.cmdLen = 10 := by decide
  unfold cbLenCalc
  obtain h | h := hlen cmd (command_mem hcmd)
  · rw [if_pos h, if_pos h]
  · have hne : cmd.cmdLen ≠ 6 := h ▸ (by decide)
    rw [if_neg hne, if_neg hne, if_pos h, if_pos h]

theorem verify_zero (hlength : cbw.xferLen = 0) :
    cbwVerify state cmd cbw =
      if state.cbDataSize ≠ 0 ∨ dirError cmd cbw = true then none else some state := by
  have hzero : ¬ (0 : BitVec 32) < 0 := lt_irrefl 0
  unfold cbwVerify
  rw [hlength, if_neg fun h => hzero h.1]
  by_cases hsize : state.cbDataSize = 0
  · rw [hsize, if_neg fun h => hzero h.2, if_neg hzero, if_neg hzero]
    by_cases hdir : dirError cmd cbw = true
    · rw [if_pos hdir, if_pos (.inr hdir)]
    · rw [if_neg hdir, if_neg fun h => h.elim (fun hne => hne rfl) hdir]
  · have hpos : 0 < state.cbDataSize := by
      have hnat : state.cbDataSize.toNat ≠ 0 := fun h => hsize (eq_of_toNat_eq h)
      exact Nat.pos_of_ne_zero hnat
    rw [if_pos ⟨rfl, hpos⟩, if_pos (.inl hsize)]

theorem verify_data (hlength : cbw.xferLen ≠ 0) (hdir : dirError cmd cbw = false)
    (hle : cbw.xferLen ≤ state.cbDataSize) :
    cbwVerify state cmd cbw =
      if cbw.xferLen < state.cbDataSize then
        some ({ state with cbDataSize := cbw.xferLen }.setCswStatus 1)
      else some state := by
  have hnat : cbw.xferLen.toNat ≠ 0 := fun h => hlength (eq_of_toNat_eq h)
  have hle' : cbw.xferLen.toNat ≤ state.cbDataSize.toNat := hle
  have hsize : state.cbDataSize ≠ 0 := by
    intro h
    rw [h] at hle'
    exact hnat (Nat.le_zero.mp hle')
  have hge : ¬ state.cbDataSize < cbw.xferLen := not_lt.mpr hle'
  unfold cbwVerify
  rw [if_neg fun h => hsize h.2, if_neg fun h => hlength h.1, if_neg (ne_true_of_eq_false hdir),
    if_neg hge]

/-- The thread takes a valid wrapper. -/
theorem Begun.process (h : Begun config state exchange rest cbw)
    (hsuits : CbwSuits config cbw) (hcsw : state.csw.status = 0)
    (hdone : cbw.handler = some .read10 → done = cbw.blocks.toNat) :
    ∃ next, (match cbw.command with
      | none => some (cbwExit state cbw.dflags)
      | some cmd =>
        let state := { state with cbDataSize := cbLenCalc config cmd cbw state.cbDataSize }
        match cbwVerify state cmd cbw with
        | none => some (cbwExit state cbw.dflags)
        | some state =>
          (cbwHandler config state cmd cbw done).map fun (state, len) =>
            if len = 0 then
              let state := sendStatus state
              if cmd.handler = .startStop then { state with stopFlag := 1 } else state
            else state) = some next ∧ UdiskInv config next := by
  unfold CbwSuits at hsuits
  cases hcmd : cbw.command with
  | none =>
    rw [hcmd] at hsuits
    exact ⟨_, rfl, h.refused hsuits cbw.dflags⟩
  | some cmd =>
    rw [hcmd] at hsuits
    dsimp only at hsuits ⊢
    rw [cb_len_calc_eq hcmd]
    have hbegun : Begun config { state with cbDataSize := cbLenCalc config cmd cbw 0 } exchange
        rest cbw :=
      h.keep rfl rfl rfl rfl rfl rfl rfl rfl rfl rfl
    by_cases hlength : cbw.xferLen = 0
    · rw [if_pos hlength] at hsuits
      rw [verify_zero hlength]
      by_cases hrefuse : cbLenCalc config cmd cbw 0 ≠ 0 ∨ dirError cmd cbw = true
      · rw [if_pos hrefuse]
        exact ⟨_, rfl, hbegun.refused hlength cbw.dflags⟩
      · rw [if_neg hrefuse]
        have hno : cmd.handler.noData = true := (or_assoc.mpr hsuits).resolve_left hrefuse
        obtain ⟨next, hnext, hbegun', hread⟩ := hbegun.no_data hcmd hno done
        dsimp only
        rw [hnext, Option.map_some]
        refine ⟨_, rfl, ?_⟩
        rw [if_pos rfl]
        have hflag : Begun config { next with stopFlag := 1 } exchange rest cbw :=
          hbegun'.keep rfl rfl rfl rfl rfl rfl rfl rfl rfl rfl
        split
        · exact hflag.status hlength (.inl hread)
        · exact hbegun'.status hlength (.inl hread)
    · rw [if_neg hlength] at hsuits
      obtain ⟨hdir, hle, hfits⟩ := hsuits
      have hhandler : cbw.handler = some cmd.handler := congrArg (Option.map ScsiCmd.handler) hcmd
      have hdone' : cmd.handler = .read10 → done = cbw.blocks.toNat := fun hread =>
        hdone (hhandler.trans (congrArg some hread))
      rw [verify_data hlength hdir hle]
      by_cases hlt : cbw.xferLen < cbLenCalc config cmd cbw 0
      · rw [if_pos hlt]
        -- a write is as long as its blocks
        have hwrite : cmd.handler = .write10 → (1 : BitVec 8) = 0 := by
          intro hname
          unfold DataFits at hfits
          rw [hname] at hfits
          have hsame := hfits.length.trans (write_len hcmd hname).symm
          exact absurd (hsame ▸ hlt) (BitVec.lt_irrefl _)
        have hshort : Begun config ({ { state with cbDataSize := cbLenCalc config cmd cbw 0 } with
            cbDataSize := cbw.xferLen }.setCswStatus 1) exchange rest cbw :=
          hbegun.keep rfl rfl rfl rfl rfl rfl rfl rfl rfl rfl
        obtain ⟨next, hnext, hinv⟩ := hshort.handler hcmd rfl hlength hfits hwrite hdone'
        dsimp only
        rw [hnext, Option.map_some]
        exact ⟨_, congrArg some (if_neg hlength), hinv⟩
      · rw [if_neg hlt]
        have hsize : cbLenCalc config cmd cbw 0 = cbw.xferLen := by
          have hge : ¬ cbw.xferLen.toNat < (cbLenCalc config cmd cbw 0).toNat := hlt
          have hle' : cbw.xferLen.toNat ≤ (cbLenCalc config cmd cbw 0).toNat := hle
          exact eq_of_toNat_eq (by omega)
        obtain ⟨next, hnext, hinv⟩ := hbegun.handler hcmd hsize hlength hfits (fun _ => hcsw) hdone'
        dsimp only
        rw [hnext, Option.map_some]
        exact ⟨_, congrArg some (if_neg hlength), hinv⟩

end

end FullhanRtos.Udisk
