import FullhanRtos.Udisk.Exchange

/-!
# Runs of the USB disk

Each event leads from one phase to the next. `udisk_ok` says that in runs with suitable wrappers and
a disk without failures all wrappers are answered, inside the buffers and the disk.
-/

namespace FullhanRtos.Udisk

open Transition List Option UdiskState

open Uvc (Byte byteAt leNat)

section

variable {config : UdiskConfig} {state next : UdiskState} {exchange : Exchange}
  {rest : List Exchange} {cbw : Cbw} {done : Nat} {data : List Byte} {disk : Nat → List Byte}
  {request : UioRequest} {event : UdiskEvent}

/-! ## Messages to the thread -/

theorem later_exchanges (h : state.exchanges = exchange :: rest) :
    state.later.exchanges = { exchange with age := exchange.age + 1 } :: rest :=
  congrArg (modifyHead _) h

theorem handle_wrapper (hinStalled : state.epIn.stalled = false)
    (houtStalled : state.epOut.stalled = false)
    (hlen : state.outBuffer.length = config.bufferSize)
    (hinside : ∀ access ∈ state.accesses, access.Inside config) (hstatus : state.status = .cbw)
    (hin : state.epIn.inFlight = none) (hout : state.epOut.inFlight = none)
    (hmq : state.mq = [(.epOut, sizeofCbw)]) (hreside : state.csw.dataReside = 0)
    (hanswered : AllAnswered config state.exchanges state.disk)
    (hsuits : (cbwAt state.outBuffer).signature = cbwSignature →
      CbwSuits config (cbwAt state.outBuffer))
    (hdone : (cbwAt state.outBuffer).handler = some .read10 →
      done = (cbwAt state.outBuffer).blocks.toNat) :
    ∃ next, handleMessage config state done = some next ∧ UdiskInv config next := by
  have hhandle : handleMessage config state done =
      cbwProcess config ({ state with mq := [] }.begin sizeofCbw) sizeofCbw done := by
    unfold handleMessage
    rw [hmq]
    dsimp only
    rw [if_pos hstatus]
    unfold epOutHandlerProcess begin
    rw [hstatus]
  rw [hhandle]
  by_cases hvalid : (cbwAt state.outBuffer).signature = cbwSignature
  · have hbegin : { state with mq := [] }.begin sizeofCbw =
        { state with
          mq := []
          exchanges := ⟨some (cbwAt state.outBuffer), state.disk, 0, [], false, [], 0⟩ ::
            state.exchanges } := by
      unfold begin
      dsimp only
      rw [if_pos ⟨hvalid, rfl⟩]
    rw [hbegin]
    unfold cbwProcess
    rw [if_neg fun h => h.elim (fun hne => hne hvalid) fun hne => hne rfl]
    have hbegun : Begun config
        { state with
          mq := []
          exchanges := ⟨some (cbwAt state.outBuffer), state.disk, 0, [], false, [], 0⟩ ::
            state.exchanges
          csw := ⟨cswSignature, (cbwAt state.outBuffer).tag, (cbwAt state.outBuffer).xferLen, 0⟩ }
        ⟨some (cbwAt state.outBuffer), state.disk, 0, [], false, [], 0⟩ state.exchanges
        (cbwAt state.outBuffer) :=
      ⟨hinStalled, houtStalled, hlen, hinside, hin, hout, rfl, rfl, rfl, rfl, rfl, rfl, rfl, rfl,
        rfl, rfl, rfl, hanswered⟩
    exact hbegun.process (hsuits hvalid) rfl hdone
  · have hbegin : { state with mq := [] }.begin sizeofCbw =
        { state with
          mq := []
          exchanges := ⟨none, state.disk, 0, [], false, [], 0⟩ :: state.exchanges } := by
      unfold begin
      dsimp only
      rw [if_neg fun h => hvalid h.1]
    rw [hbegin]
    unfold cbwProcess
    rw [if_pos (.inl hvalid)]
    refine ⟨_, rfl, ?_⟩
    rw [@cbw_exit_eq
      { state with
        mq := []
        exchanges := ⟨none, state.disk, 0, [], false, [], 0⟩ :: state.exchanges } hreside]
    exact send_status_inv hinStalled houtStalled hlen hinside hout rfl hreside rfl rfl
      (Nat.zero_le 2) rfl hanswered

theorem handle_sent (hinv : UdiskInv config state)
    (hstatus : state.status = .cmd ∧ cbw.xferLen ≠ 0xff ∨ state.status = .send)
    (hrequest : state.epIn.request = ⟨.data, cbw.xferLen⟩) (hout : state.epOut.inFlight = none)
    (hmq : state.mq = [(.epIn, cbw.xferLen)]) (hexchanges : state.exchanges = exchange :: rest)
    (hage : exchange.age = 1) (hstage : DataStage config state exchange cbw cbw.xferLen.toNat)
    (hread : cbw.handler ≠ some .write10) (hanswered : AllAnswered config rest exchange.before) :
    ∃ next, handleMessage config state done = some next ∧ UdiskInv config next := by
  have hzero : state.csw.dataReside - state.epIn.request.size = 0 := by
    rw [hstage.reside, hrequest]
    exact BitVec.sub_self _
  have hexchanges' : ({ state with mq := [] } : UdiskState).later.exchanges =
      { exchange with age := exchange.age + 1 } :: rest :=
    later_exchanges hexchanges
  -- the residue is 0 in both cases
  have hsend : ∀ before : UdiskState, before.epIn = state.epIn → before.epOut = state.epOut →
      before.outBuffer = state.outBuffer → before.accesses = state.accesses → before.mq = [] →
      before.exchanges = { exchange with age := exchange.age + 1 } :: rest →
      before.disk = state.disk → before.csw = { state.csw with dataReside := 0 } →
      UdiskInv config (sendStatus before) := by
    intro before hepIn hepOut hbuffer haccesses hmq' hexchange hdisk hcsw
    refine send_status_inv (hepIn ▸ hinv.inStalled) (hepOut ▸ hinv.outStalled)
      (hbuffer ▸ hinv.length) (haccesses ▸ hinv.inside) (hepOut ▸ hout) hmq' (by rw [hcsw])
      hexchange hstage.csws (by dsimp only; omega) (StatusOk.current ?_ hstage.current) hanswered
    rw [hcsw, hdisk]
    refine ⟨hstage.signature, hstage.tag, ?_, ?_, ?_, fun _ => hstage.before.symm⟩
    · dsimp only
      rw [hstage.moved]
      exact zero_add _
    · intro hfailed
      exact absurd (hstage.failed.symm.trans hfailed) Bool.false_ne_true
    · intro hwrite
      exact absurd hwrite hread
  unfold handleMessage
  rw [hmq]
  refine ⟨_, rfl, ?_⟩
  unfold epInHandlerProcess
  obtain ⟨hcmd, hne⟩ | hdata := hstatus
  · have hreside : ({ state with mq := [] } : UdiskState).later.csw.dataReside ≠ 0xff :=
      fun heq => hne (hstage.reside.symm.trans heq)
    have hlater : ({ state with mq := [] } : UdiskState).later.status = .cmd := hcmd
    have hzero' : ({ state with mq := [] } : UdiskState).later.csw.dataReside -
        ({ state with mq := [] } : UdiskState).later.epIn.request.size = 0 := hzero
    rw [hlater]
    rw [if_neg hreside, if_pos hzero']
    exact hsend _ rfl rfl rfl rfl rfl hexchanges' rfl rfl
  · have hlater : ({ state with mq := [] } : UdiskState).later.status = .send := hdata
    rw [hlater]
    refine hsend _ rfl rfl rfl rfl rfl hexchanges' rfl ?_
    exact congrArg (fun reside => { state.csw with dataReside := reside }) hzero

theorem write_sectors_take {count : Nat} (disk : Nat → List Byte) (sector : Nat) :
    writeSectors config disk sector count (data.take (count * config.bytesPerSector.toNat)) =
      writeSectors config disk sector count data := by
  funext i
  unfold writeSectors
  by_cases hrange : sector ≤ i ∧ i < sector + count
  · rw [if_pos hrange, if_pos hrange]
    have hlast : (i - sector + 1) * config.bytesPerSector.toNat ≤
        count * config.bytesPerSector.toNat :=
      Nat.mul_le_mul_right _ (by omega)
    rw [add_mul, one_mul] at hlast
    have hle : config.bytesPerSector.toNat ≤
        count * config.bytesPerSector.toNat - (i - sector) * config.bytesPerSector.toNat :=
      Nat.le_sub_of_add_le' hlast
    rw [drop_take, take_take, Nat.min_eq_left hle]
  · rw [if_neg hrange, if_neg hrange]

theorem handle_received (hinv : UdiskInv config state) (hstatus : state.status = .receive)
    (hout : state.epOut.inFlight = none) (hmq : state.mq = [(.epOut, cbw.xferLen)])
    (hexchanges : state.exchanges = exchange :: rest) (hage : exchange.age = 1)
    (hstage : DataStage config state exchange cbw cbw.xferLen.toNat)
    (hwrite : cbw.handler = some .write10) (hcsw : state.csw.status = 0)
    (hblock : state.block = cbw.lba) (hcount : state.count = cbw.blocks)
    (hfits : BlocksFit config cbw)
    (hdata : exchange.received.length = cbw.xferLen.toNat ∧
      state.outBuffer.take cbw.xferLen.toNat = exchange.received)
    (hanswered : AllAnswered config rest exchange.before) (hdone : done = state.count.toNat) :
    ∃ next, handleMessage config state done = some next ∧ UdiskInv config next := by
  have hne : ¬ ({ state with mq := [] } : UdiskState).status = .cbw := by
    rw [hstatus]
    exact Stat.noConfusion
  have hlater : ({ state with mq := [] } : UdiskState).later.status = .receive := hstatus
  unfold handleMessage
  rw [hmq]
  dsimp only
  rw [if_neg hne]
  unfold epOutHandlerProcess
  rw [hlater]
  refine ⟨_, rfl, ?_⟩
  have hsector : config.sector (state.block - config.offset) = cbw.lba.toNat := by
    rw [hblock, sector_eq]
  have hdisk : Access.Inside config
      (.disk (config.sector (state.block - config.offset)) state.count.toNat) := by
    rw [hsector, hcount]
    exact ⟨hfits.count, hfits.range⟩
  have hexchange : ({ state with mq := [] } : UdiskState).later.exchanges.modifyHead
      (fun exchange => { exchange with failed := exchange.failed || done != state.count.toNat }) =
        { exchange with
          age := exchange.age + 1
          failed := exchange.failed || done != state.count.toNat } :: rest :=
    congrArg (modifyHead _) (@later_exchanges { state with mq := [] } _ _ hexchanges)
  refine send_status_inv hinv.inStalled hinv.outStalled hinv.length (inside_cons hdisk hinv.inside)
    hout rfl (hstage.reside ▸ BitVec.sub_self _) hexchange hstage.csws
    (by dsimp only; omega) (StatusOk.current ?_ hstage.current) hanswered
  have hok : StatusOk config
      { exchange with
        age := exchange.age + 1
        failed := exchange.failed || done != state.count.toNat }
      cbw { state.csw with dataReside := state.csw.dataReside - cbw.xferLen }
      (writeSectors config state.disk (config.sector (state.block - config.offset))
        (min done state.count.toNat) state.outBuffer) := by
    refine ⟨hstage.signature, hstage.tag, ?_, ?_, ?_, ?_⟩
    · dsimp only
      rw [hstage.reside, hstage.moved, BitVec.sub_self]
      exact zero_add _
    · intro hfailed
      rw [hstage.failed, hdone, bne_self_eq_false] at hfailed
      exact absurd hfailed Bool.false_ne_true
    · intro _ _
      rw [hdata.1, (blocks_size hfits).1, ← hdata.2, (blocks_size hfits).1, write_sectors_take,
        hsector, hdone, Nat.min_self, hcount, hstage.before]
      exact ⟨rfl, rfl⟩
    · rintro (hread | hfailed)
      · exact absurd hwrite hread
      · exact absurd hcsw hfailed
  exact hok

theorem handle_answered (hinv : UdiskInv config state) (hstatus : state.status = .csw)
    (hin : state.epIn.inFlight = none) (hrequest : state.epIn.request = ⟨.csw, sizeofCsw⟩)
    (hmq : state.mq = [(.epIn, sizeofCsw)]) (hreside : state.csw.dataReside = 0)
    (hanswered : AllAnswered config state.exchanges state.disk) :
    ∃ next, handleMessage config state done = some next ∧ UdiskInv config next := by
  have hlater : ({ state with mq := [] } : UdiskState).later.status = .csw := hstatus
  have hsize : ¬ ({ state with mq := [] } : UdiskState).later.epIn.request.size ≠ sizeofCsw :=
    not_not.mpr (congrArg UioRequest.size hrequest)
  have hstalled : ({ state with mq := [] } : UdiskState).later.epOut.stalled = false :=
    hinv.outStalled
  have hfits : Access.Inside config (.request ⟨.data, sizeofCbw⟩) := by
    have hbuffer := buffer_size_ge config
    show 31 ≤ config.bufferSize
    omega
  unfold handleMessage
  rw [hmq]
  refine ⟨_, rfl, ?_⟩
  unfold epInHandlerProcess
  rw [hlater]
  rw [if_neg hsize]
  unfold readCbw
  rw [io_out hstalled]
  exact ⟨hinv.inStalled, hinv.outStalled, hinv.length, inside_cons hfits hinv.inside,
    .waiting rfl hin rfl rfl hreside (all_answered_later hanswered)⟩

/-! ## Completions -/

/-- The last exchange after a completion of the IN endpoint. -/
theorem in_done_eq (hin : state.epIn.inFlight = some request) (hmq : state.mq = [])
    (hexchanges : state.exchanges = exchange :: rest) :
    udiskStep config state .inDone =
      some { state with
        epIn := { state.epIn with inFlight := none }
        mq := [(.epIn, request.size)]
        exchanges :=
          { exchange with age := exchange.age + 1 }.sent request state.csw :: rest } := by
  unfold udiskStep later observe
  rw [hin, hexchanges, map_some]
  rw [hmq]
  rfl

theorem in_done_sending (hinv : UdiskInv config state)
    (hstatus : state.status = .cmd ∧ cbw.xferLen ≠ 0xff ∨ state.status = .send)
    (hin : state.epIn.inFlight = some ⟨.data, cbw.xferLen⟩)
    (hrequest : state.epIn.request = ⟨.data, cbw.xferLen⟩) (hout : state.epOut.inFlight = none)
    (hmq : state.mq = []) (hexchanges : state.exchanges = exchange :: rest)
    (hage : exchange.age = 0) (hstage : DataStage config state exchange cbw 0)
    (hread : cbw.handler ≠ some .write10) (hanswered : AllAnswered config rest exchange.before) :
    ∃ next, udiskStep config state .inDone = some next ∧ UdiskInv config next := by
  rw [in_done_eq hin hmq hexchanges]
  refine ⟨_, rfl, hinv.inStalled, hinv.outStalled, hinv.length, hinv.inside, ?_⟩
  exact .sent
    { exchange with age := exchange.age + 1, moved := exchange.moved + cbw.xferLen.toNat } rest cbw
    hstatus rfl hrequest hout rfl rfl (congrArg (· + 1) hage)
    { current := hstage.current
      before := hstage.before
      moved := by
        rw [hstage.moved, zero_add]
      failed := hstage.failed
      csws := hstage.csws
      signature := hstage.signature
      tag := hstage.tag
      reside := hstage.reside
      length := hstage.length } hread hanswered

theorem in_done_status (hinv : UdiskInv config state) (hstatus : state.status = .csw)
    (hin : state.epIn.inFlight = some ⟨.csw, sizeofCsw⟩)
    (hrequest : state.epIn.request = ⟨.csw, sizeofCsw⟩) (hout : state.epOut.inFlight = none)
    (hmq : state.mq = []) (hreside : state.csw.dataReside = 0)
    (hexchanges : state.exchanges = exchange :: rest) (hcsws : exchange.csws = [])
    (hok : match exchange.cbw with
      | some cbw => StatusOk config exchange cbw state.csw state.disk
      | none => state.disk = exchange.before)
    (hanswered : AllAnswered config rest exchange.before) :
    ∃ next, udiskStep config state .inDone = some next ∧ UdiskInv config next := by
  rw [in_done_eq hin hmq hexchanges]
  refine ⟨_, rfl, hinv.inStalled, hinv.outStalled, hinv.length, hinv.inside, ?_⟩
  have hlast : Exchange.Answered config
      { exchange with age := exchange.age + 1, csws := exchange.csws ++ [state.csw] }
      state.disk := by
    cases hcbw : exchange.cbw with
    | none =>
      rw [hcbw] at hok
      exact hok
    | some cbw =>
      rw [hcbw] at hok
      refine ⟨state.csw, ?_, status_ok_congr hok rfl rfl rfl rfl⟩
      rw [hcsws]
      rfl
  exact .answered hstatus rfl hrequest hout rfl hreside ⟨hlast, hanswered⟩

/-- The wrapper in the buffer is the one that was received. -/
theorem cbw_at_append {data other : List Byte} (h : data.length = sizeofCbw.toNat) :
    cbwAt (data ++ other) = cbwAt data := by
  have hbyte : ∀ i < 31, byteAt (data ++ other) i = byteAt data i := by
    intro i hi
    have hlt : i < data.length := h.symm ▸ hi
    rw [byteAt, byteAt, getD_eq_getElem?_getD, getD_eq_getElem?_getD, getElem?_append_left hlt]
  have hle : ∀ pos ≤ 27, leNat ((data ++ other).drop pos) 4 = leNat (data.drop pos) 4 := by
    intro pos hpos
    refine Uvc.le_nat_congr fun i hi => ?_
    rw [Uvc.byte_at_drop, Uvc.byte_at_drop]
    exact hbyte (pos + i) (by omega)
  have hcb : ∀ i ∈ List.range 16, BitVec.ofNat 8 (byteAt (data ++ other) (15 + i)) =
      BitVec.ofNat 8 (byteAt data (15 + i)) := by
    intro i hi
    have hlt := mem_range.mp hi
    rw [hbyte (15 + i) (by omega)]
  unfold cbwAt
  rw [hle 4 (by omega), hle 8 (by omega), hbyte 12 (by omega), map_congr_left hcb]
  rw [show leNat (data ++ other) 4 = leNat data 4 from hle 0 (Nat.zero_le 27)]

theorem out_done_eq (hout : state.epOut.inFlight = some request) (hmq : state.mq = [])
    (hsize : request.size ≠ 0) (hlen : data.length = request.size.toNat) :
    udiskStep config state (.outDone data) =
      some { state with
        epOut := { state.epOut with inFlight := none }
        outBuffer := (data ++ state.outBuffer.drop data.length).take state.outBuffer.length
        mq := [(.epOut, request.size)]
        exchanges :=
          if state.status = .receive then
            state.later.exchanges.modifyHead fun exchange =>
              { exchange with moved := exchange.moved + data.length, received := data }
          else state.later.exchanges } := by
  unfold udiskStep
  dsimp only
  rw [hout, bind_some, if_pos ⟨hsize, hlen⟩]
  refine congrArg some ?_
  unfold received later observe send
  dsimp only
  by_cases hreceive : state.status = .receive
  · rw [if_pos hreceive, if_pos hreceive]
    rw [hmq]
    rfl
  · rw [if_neg hreceive, if_neg hreceive]
    rw [hmq]
    rfl

theorem take_received {data buffer : List Byte} (h : data.length ≤ buffer.length) :
    ((data ++ buffer.drop data.length).take buffer.length).length = buffer.length ∧
      (data ++ buffer.drop data.length).take buffer.length = data ++ buffer.drop data.length := by
  have hlen : (data ++ buffer.drop data.length).length = buffer.length := by
    rw [length_append, length_drop, Nat.add_sub_cancel' h]
  have htake := take_of_length_le hlen.le
  exact ⟨(congrArg List.length htake).trans hlen, htake⟩

/-- The host has sent a wrapper. -/
theorem out_done_waiting (hinv : UdiskInv config state)
    (hsuits : (cbwAt data).signature = cbwSignature → CbwSuits config (cbwAt data))
    (hstatus : state.status = .cbw) (hin : state.epIn.inFlight = none)
    (hout : state.epOut.inFlight = some ⟨.data, sizeofCbw⟩) (hmq : state.mq = [])
    (hreside : state.csw.dataReside = 0) (hanswered : AllAnswered config state.exchanges state.disk)
    (hlen : data.length = sizeofCbw.toNat) :
    ∃ next, udiskStep config state (.outDone data) = some next ∧ UdiskInv config next := by
  have hbuffer : data.length ≤ state.outBuffer.length := by
    have hge := buffer_size_ge config
    have hlen' : data.length = 31 := hlen
    rw [hinv.length]
    omega
  have hne : state.status ≠ .receive := hstatus ▸ Stat.noConfusion
  obtain ⟨htaken, htake⟩ := take_received hbuffer
  rw [out_done_eq hout hmq (show sizeofCbw ≠ 0 by decide) hlen, if_neg hne]
  refine ⟨_, rfl, hinv.inStalled, hinv.outStalled, htaken.trans hinv.length, hinv.inside, ?_⟩
  refine .wrapper hstatus hin rfl rfl hreside (all_answered_later hanswered) ?_
  rw [htake, cbw_at_append hlen]
  exact hsuits

theorem out_done_receiving (hinv : UdiskInv config state) (hstatus : state.status = .receive)
    (hin : state.epIn.inFlight = none) (hout : state.epOut.inFlight = some ⟨.data, cbw.xferLen⟩)
    (hmq : state.mq = []) (hexchanges : state.exchanges = exchange :: rest)
    (hage : exchange.age = 0) (hstage : DataStage config state exchange cbw 0)
    (hwrite : cbw.handler = some .write10) (hcsw : state.csw.status = 0)
    (hblock : state.block = cbw.lba) (hcount : state.count = cbw.blocks)
    (hfits : BlocksFit config cbw) (hanswered : AllAnswered config rest exchange.before)
    (hlen : data.length = cbw.xferLen.toNat) :
    ∃ next, udiskStep config state (.outDone data) = some next ∧ UdiskInv config next := by
  have hbuffer : data.length ≤ state.outBuffer.length := by
    rw [hlen, hinv.length]
    exact (blocks_size hfits).2
  obtain ⟨htaken, htake⟩ := take_received hbuffer
  rw [out_done_eq hout hmq hstage.length hlen, if_pos hstatus, later_exchanges hexchanges]
  refine ⟨_, rfl, hinv.inStalled, hinv.outStalled, htaken.trans hinv.length, hinv.inside, ?_⟩
  have hdata : ((data ++ state.outBuffer.drop data.length).take state.outBuffer.length).take
      cbw.xferLen.toNat = data := by
    rw [htake, ← hlen]
    exact take_left
  exact .received
    { exchange with
      age := exchange.age + 1
      moved := exchange.moved + data.length
      received := data } rest cbw
    hstatus hin rfl rfl rfl (congrArg (· + 1) hage)
    { current := hstage.current
      before := hstage.before
      moved := by
        rw [hstage.moved, zero_add, hlen]
      failed := hstage.failed
      csws := hstage.csws
      signature := hstage.signature
      tag := hstage.tag
      reside := hstage.reside
      length := hstage.length } hwrite hcsw hblock hcount hfits ⟨hlen, hdata⟩ hanswered

/-! ## Runs -/

/-- A step of the run is the one that the lemmas above find. -/
theorem inv_of_step (h : ∃ next, udiskStep config state event = some next ∧ UdiskInv config next)
    (hstep : udiskStep config state event = some next) : UdiskInv config next := by
  obtain ⟨found, hfound, hinv⟩ := h
  obtain rfl := some.inj (hfound.symm.trans hstep)
  exact hinv

section

variable (hinv : UdiskInv config state)

include hinv

/-- A completion of the IN endpoint. -/
theorem in_done_inv (hstep : udiskStep config state .inDone = some next) :
    UdiskInv config next := by
  have hnone : state.epIn.inFlight ≠ none := by
    intro hin
    unfold udiskStep at hstep
    rw [hin] at hstep
    exact some_ne_none next hstep.symm
  refine inv_of_step ?_ hstep
  cases hinv.phase with
  | waiting _ hin | wrapper _ hin | sent _ _ _ _ hin | receiving _ _ _ _ hin
  | received _ _ _ _ hin | answered _ hin => exact absurd hin hnone
  | sending exchange rest cbw hstatus hin hrequest hout hmq hexchanges hage hstage hread
      hanswered =>
      exact in_done_sending hinv hstatus hin hrequest hout hmq hexchanges hage hstage hread
        hanswered
  | status exchange rest hstatus hin hrequest hout hmq hreside hexchanges hcsws _ hok hanswered =>
    exact in_done_status hinv hstatus hin hrequest hout hmq hreside hexchanges hcsws hok hanswered

theorem out_done_inv (hsuits : UdiskSuits config state (.outDone data))
    (hstep : udiskStep config state (.outDone data) = some next) : UdiskInv config next := by
  have hlen : ∀ request, state.epOut.inFlight = some request →
      data.length = request.size.toNat := by
    intro request hout
    unfold udiskStep at hstep
    dsimp only at hstep
    rw [hout, bind_some] at hstep
    split at hstep
    case isTrue h => exact h.2
    case isFalse => exact absurd hstep.symm (some_ne_none next)
  have hnone : state.epOut.inFlight ≠ none := by
    intro hout
    unfold udiskStep at hstep
    rw [hout] at hstep
    exact some_ne_none next hstep.symm
  refine inv_of_step ?_ hstep
  cases hinv.phase with
  | wrapper _ _ hout | sending _ _ _ _ _ _ hout | sent _ _ _ _ _ _ hout | received _ _ _ _ _ hout
  | status _ _ _ _ _ hout | answered _ _ _ hout => exact absurd hout hnone
  | waiting hstatus hin hout hmq hreside hanswered =>
    exact out_done_waiting hinv (hsuits hstatus) hstatus hin hout hmq hreside hanswered
      (hlen _ hout)
  | receiving exchange rest cbw hstatus hin hout hmq hexchanges hage hstage hwrite hcsw hblock
      hcount hfits hanswered =>
      exact out_done_receiving hinv hstatus hin hout hmq hexchanges hage hstage hwrite hcsw hblock
        hcount hfits hanswered (hlen _ hout)

theorem handle_inv (hsuits : UdiskSuits config state (.handle done)) (hmq : state.mq ≠ []) :
    ∃ next, udiskStep config state (.handle done) = some next ∧ UdiskInv config next := by
  cases hinv.phase with
  | waiting _ _ _ hempty | sending _ _ _ _ _ _ _ hempty | receiving _ _ _ _ _ _ hempty
  | status _ _ _ _ _ _ hempty => exact absurd hempty hmq
  | wrapper hstatus hin hout hmq hreside hanswered hcbw =>
    exact handle_wrapper hinv.inStalled hinv.outStalled hinv.length hinv.inside hstatus hin hout
      hmq hreside hanswered hcbw (hsuits.2 hstatus)
  | sent exchange rest cbw hstatus _ hrequest hout hmq hexchanges hage hstage hread hanswered =>
    exact handle_sent hinv hstatus hrequest hout hmq hexchanges hage hstage hread hanswered
  | received exchange rest cbw hstatus _ hout hmq hexchanges hage hstage hwrite hcsw hblock hcount
      hfits hdata hanswered =>
      exact handle_received hinv hstatus hout hmq hexchanges hage hstage hwrite hcsw hblock hcount
        hfits hdata hanswered (hsuits.1 hstatus)
  | answered hstatus hin hrequest _ hmq hreside hanswered =>
    exact handle_answered hinv hstatus hin hrequest hmq hreside hanswered

theorem udisk_step_inv (hsuits : UdiskSuits config state event)
    (hstep : udiskStep config state event = some next) : UdiskInv config next := by
  cases event with
  | inDone => exact in_done_inv hinv hstep
  | outDone data => exact out_done_inv hinv hsuits hstep
  | handle done =>
    refine inv_of_step (handle_inv hinv hsuits ?_) hstep
    intro hmq
    unfold udiskStep handleMessage at hstep
    rw [hmq] at hstep
    exact some_ne_none next hstep.symm

/-- There always is an event: the thread has a message, or the controller has a request. -/
theorem UdiskInv.live : ∃ event next, udiskStep config state event = some next := by
  by_cases hmq : state.mq = []
  · cases hinv.phase with
    | wrapper _ _ _ hmessage | sent _ _ _ _ _ _ _ hmessage | received _ _ _ _ _ _ hmessage
    | answered _ _ _ _ hmessage =>
      exact absurd (hmessage.symm.trans hmq) (cons_ne_nil _ _)
    | waiting _ _ hout =>
      have hdata : (replicate 31 (0 : Byte)).length = sizeofCbw.toNat := length_replicate
      exact ⟨.outDone _, _, out_done_eq hout hmq (show sizeofCbw ≠ 0 by decide) hdata⟩
    | receiving _ _ cbw _ _ hout _ _ _ hstage =>
      have hdata : (replicate cbw.xferLen.toNat (0 : Byte)).length = cbw.xferLen.toNat :=
        length_replicate
      exact ⟨.outDone _, _, out_done_eq hout hmq hstage.length hdata⟩
    | sending _ _ _ _ hin _ _ _ hexchanges | status _ _ _ hin _ _ _ _ hexchanges =>
      exact ⟨.inDone, _, in_done_eq hin hmq hexchanges⟩
  · -- the disk transfers what the thread asks for
    let done := if state.status = .receive then state.count.toNat
      else (cbwAt state.outBuffer).blocks.toNat
    have hsuits : UdiskSuits config state (.handle done) := by
      refine ⟨fun hreceive => if_pos hreceive, fun hcbw _ => if_neg ?_⟩
      rw [hcbw]
      exact Stat.noConfusion
    obtain ⟨next, hnext, -⟩ := handle_inv hinv hsuits hmq
    exact ⟨.handle done, next, hnext⟩

/-- What the invariant says about the exchanges. -/
theorem UdiskInv.ok : UdiskOk config state where
  inside := hinv.inside
  live := hinv.live
  answered := by
    intro last earlier hlast
    cases hinv.phase with
    | waiting _ _ _ _ _ hanswered | wrapper _ _ _ _ _ hanswered
    | answered _ _ _ _ _ _ hanswered =>
      rw [hlast] at hanswered
      exact ⟨.inl hanswered.1, hanswered.2⟩
    | sending exchange rest _ _ _ _ _ _ hexchanges hage hstage _ hanswered
    | sent exchange rest _ _ _ _ _ _ hexchanges hage hstage _ hanswered
    | receiving exchange rest _ _ _ _ _ hexchanges hage hstage _ _ _ _ _ hanswered
    | received exchange rest _ _ _ _ _ hexchanges hage hstage _ _ _ _ _ _ hanswered =>
      obtain ⟨rfl, rfl⟩ := List.cons.inj (hlast.symm.trans hexchanges)
      exact ⟨.inr ⟨hstage.csws, by omega⟩, hanswered⟩
    | status exchange rest _ _ _ _ _ _ hexchanges hcsws hage _ hanswered =>
      obtain ⟨rfl, rfl⟩ := List.cons.inj (hlast.symm.trans hexchanges)
      exact ⟨.inr ⟨hcsws, hage⟩, hanswered⟩

end

theorem udisk_start_inv {inBuffer outBuffer : List Byte}
    (hlen : outBuffer.length = config.bufferSize) :
    UdiskInv config (udiskStart inBuffer outBuffer disk) := by
  have hfits : Access.Inside config (.request ⟨.data, sizeofCbw⟩) := by
    have hbuffer := buffer_size_ge config
    show 31 ≤ config.bufferSize
    omega
  refine ⟨rfl, rfl, hlen, ?_, .waiting rfl rfl rfl rfl rfl trivial⟩
  intro access haccess
  obtain rfl := mem_singleton.mp haccess
  exact hfits

/-- In every run with wrappers that suit, all wrappers are answered and all accesses are inside. -/
theorem udisk_ok (config : UdiskConfig) (inBuffer outBuffer : List Byte) (disk : Nat → List Byte)
    (hlen : outBuffer.length = config.bufferSize) (events : List UdiskEvent)
    (hsuits : AllSteps (udiskStep config) (UdiskSuits config) (udiskStart inBuffer outBuffer disk)
      events) :
    Always (udiskStep config) (UdiskOk config) (udiskStart inBuffer outBuffer disk) events :=
  always_of_invariant (fun _ _ _ => udisk_step_inv) (fun _ => UdiskInv.ok) (udisk_start_inv hlen)
    hsuits

theorem start_out_done {inBuffer outBuffer data : List Byte}
    (hbuffer : outBuffer.length = config.bufferSize) (hlen : data.length = sizeofCbw.toNat) :
    udiskStep config (udiskStart inBuffer outBuffer disk) (.outDone data) =
      some { udiskStart inBuffer (data ++ outBuffer.drop data.length) disk with
        epOut := ⟨⟨.data, sizeofCbw⟩, none, false⟩
        mq := [(.epOut, sizeofCbw)] } := by
  have hle : data.length ≤ outBuffer.length := by
    have hge := buffer_size_ge config
    have hlen' : data.length = 31 := hlen
    omega
  rw [out_done_eq rfl rfl (show sizeofCbw ≠ 0 by decide) hlen, if_neg Stat.noConfusion]
  refine congrArg some ?_
  dsimp only [udiskStart]
  rw [(take_received hle).2]
  rfl

end

/-! ## A card -/

def sdCard : UdiskConfig := ⟨15523840, 512, 8192, by decide, by decide⟩

/-- The buffers before the first wrapper. -/
def sdBuffer : List Byte := replicate 131072 0

theorem sd_buffer_length : sdBuffer.length = sdCard.bufferSize := length_replicate

def inquiryWrapper (length : Byte) : List Byte :=
  [0x55, 0x53, 0x42, 0x43, 1, 0, 0, 0, length, 0, 0, 0, 0x80, 0, 6, 0x12, 0, 0, 0, length, 0] ++
    replicate 10 0

/-- A wrapper, the data, the status, and the read of the next wrapper. -/
def inquiryEvents (length : Byte) : List UdiskEvent :=
  [.outDone (inquiryWrapper length), .handle 0, .inDone, .handle 0, .inDone, .handle 0]

/-- An `INQUIRY` of 36 bytes. -/
theorem inquiry_ok :
    AllSteps (udiskStep sdCard) (UdiskSuits sdCard)
        (udiskStart sdBuffer sdBuffer fun _ => replicate 512 0) (inquiryEvents 36) ∧
      Always (udiskStep sdCard) (UdiskOk sdCard)
        (udiskStart sdBuffer sdBuffer fun _ => replicate 512 0) (inquiryEvents 36) := by
  have hsuits : AllSteps (udiskStep sdCard) (UdiskSuits sdCard)
      (udiskStart sdBuffer sdBuffer fun _ => replicate 512 0) (inquiryEvents 36) := by
    refine ⟨by decide +kernel, ?_⟩
    intro next hnext
    obtain rfl := some.inj ((start_out_done sd_buffer_length rfl).symm.trans hnext)
    decide +kernel
  exact ⟨hsuits, udisk_ok sdCard sdBuffer sdBuffer _ sd_buffer_length _ hsuits⟩

/-- An `INQUIRY` of 255 bytes is answered with 36 bytes and a residue of 0. -/
theorem inquiry_not_ok :
    ¬ Always (udiskStep sdCard) (UdiskOk sdCard)
      (udiskStart sdBuffer sdBuffer fun _ => replicate 512 0) (inquiryEvents 255) := by
  intro h
  have hwrapper := h.2 _ (start_out_done sd_buffer_length rfl)
  have hrun : (exec (udiskStep sdCard)
      { udiskStart sdBuffer (inquiryWrapper 255 ++ sdBuffer.drop 31)
          (fun _ => replicate 512 0) with
        epOut := ⟨⟨.data, sizeofCbw⟩, none, false⟩
        mq := [(.epOut, sizeofCbw)] } [.handle 0, .inDone, .handle 0, .inDone, .handle 0]).map
      (fun state => state.exchanges.map fun exchange =>
        (exchange.cbw.map Cbw.xferLen, exchange.moved, exchange.csws.map Csw.dataReside)) =
        some [(some 255, 36, [0])] := by
    decide +kernel
  obtain ⟨last, hlast, hexchanges⟩ := map_eq_some_iff.mp hrun
  obtain ⟨exchange, rest, hcons, hfirst, -⟩ := map_eq_cons_iff.mp hexchanges
  obtain ⟨hcbw, hmoved⟩ := Prod.ext_iff.mp hfirst
  obtain ⟨hmoved, hcsws⟩ := Prod.ext_iff.mp hmoved
  dsimp only at hcbw hmoved hcsws
  obtain ⟨cbw, hcbw, hxferLen⟩ := map_eq_some_iff.mp hcbw
  obtain ⟨csw, hcsw, hreside⟩ := map_eq_singleton_iff.mp hcsws
  have hok := hwrapper.last hlast
  obtain ⟨hanswered | ⟨hnone, -⟩, -⟩ := hok.answered exchange rest hcons
  · unfold Exchange.Answered at hanswered
    rw [hcbw] at hanswered
    obtain ⟨csw', hcsw', hstatus⟩ := hanswered
    obtain rfl := singleton_inj.mp (hcsw.symm.trans hcsw')
    have hsum := hstatus.reside
    rw [hreside, hmoved, hxferLen] at hsum
    exact absurd hsum (by decide)
  · exact cons_ne_nil _ _ (hcsw.symm.trans hnone)

end FullhanRtos.Udisk
