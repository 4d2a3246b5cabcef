import FullhanRtos.Lib.Word
import Mathlib.Data.BitVec

/-!
# Control reads

The data stage of a control OUT request to the UVC or the UAC function: `uvc_function_setup` of
`f_uvc.c` and `uac_function_setup` of `f_uac.c` supply a buffer to `rt_usbd_ep0_read`, and
`_ep0_out_notify` of `core.c` stores every packet and reads on until nothing is left.

The receive buffer of the UVC function is the `data` of a `struct uvc_request_data` behind its
`length`, in the 64 bytes of a `struct v4l2_event`, but requests of 64 bytes are let through. The
UAC function lets every length through. The completion callback gets the size of the last packet.
`read_ok_iff` says when all goes well.
-/

namespace FullhanRtos.Usb

open Word List Option

abbrev Byte := BitVec 8

/-! ## The functions -/

inductive ClassFunction where
  | uvc
  | uac

def uvcMaxRequestSize : Nat := 64

/-- `struct v4l2_event`: the offset of `u.data`, behind two words, and the size of `u.data`. -/
def eventDataOffset : Nat := 8

def eventDataSize : Nat := 64

/-- The offset of `data` in `struct uvc_request_data`, behind `int length`. -/
def requestDataOffset : Nat := 4

def cmdDataSize : Nat := 16

/-- Where the buffer that receives the data is in `gEventData` or `cmd_data`. -/
def ClassFunction.receiveOffset : ClassFunction → Nat
  | .uvc => eventDataOffset + requestDataOffset
  | .uac => 0

def ClassFunction.receiveSize : ClassFunction → Nat
  | .uvc => eventDataSize - requestDataOffset
  | .uac => cmdDataSize

/-- Endpoint 0: memory, `request.buffer`, `request.remain_size`, and what happened since the setup
stage. Those are the addresses stored to, the number of bytes received, and for each call of
`rx_indicate` its size and the number of bytes received before. -/
structure Ep0 where
  memory : Nat → Byte
  buffer : Nat
  remainSize : Nat
  touched : List Nat
  received : Nat
  indicated : List (Nat × Nat)

def rtUsbdEp0Read (buffer size : Nat) (ep0 : Ep0) : Ep0 :=
  { ep0 with buffer, remainSize := size }

def memset (memory : Nat → Byte) (addr : Nat) (value : Byte) (size : Nat) : Nat → Byte :=
  fun a => if addr ≤ a ∧ a < addr + size then value else memory a

def storeBytes (memory : Nat → Byte) (addr : Nat) (bytes : List Byte) : Nat → Byte :=
  fun a => if addr ≤ a ∧ a < addr + bytes.length then bytes.getD (a - addr) 0#8 else memory a

def wordBytes (value : Nat) : List Byte :=
  (List.range 4).map fun i => BitVec.ofNat 8 (value / 256 ^ i)

/-- The setup stage of an OUT request of length `wLength`, with `gEventData` or `cmd_data` at
`addr`: `none` when it is rejected. -/
def functionSetup (f : ClassFunction) (addr wLength : Nat) (ep0 : Ep0) : Option Ep0 :=
  match f with
  | .uvc =>
    if uvcMaxRequestSize < wLength then none
    else if 0 < wLength then
      let memory := memset ep0.memory addr 0#8 (eventDataOffset + eventDataSize)
      let memory := storeBytes memory (addr + eventDataOffset) (wordBytes wLength)
      some (rtUsbdEp0Read (addr + f.receiveOffset) wLength { ep0 with memory })
    else some ep0
  | .uac =>
    if 0 < wLength then
      let memory := memset ep0.memory addr 0#8 14
      some (rtUsbdEp0Read (addr + f.receiveOffset) wLength { ep0 with memory })
    else some ep0

def ep0OutNotify (ep0 : Ep0) (packet : List Byte) : Ep0 :=
  if ep0.remainSize = 0 then ep0
  else
    let size := packet.length
    let ep0 :=
      { ep0 with
        memory := storeBytes ep0.memory ep0.buffer packet
        touched := ep0.touched ++ range' ep0.buffer size
        received := ep0.received + size
        remainSize := sub32 ep0.remainSize size
        buffer := ep0.buffer + size }
    if ep0.remainSize = 0 then { ep0 with indicated := ep0.indicated ++ [(size, ep0.received)] }
    else rtUsbdEp0Read ep0.buffer ep0.remainSize ep0

def dataStage (ep0 : Ep0) (packets : List (List Byte)) : Ep0 := packets.foldl ep0OutNotify ep0

/-- Nothing has happened since the setup stage began. -/
structure Fresh (ep0 : Ep0) : Prop where
  remain_lt : ep0.remainSize < 2 ^ 32
  touched : ep0.touched = []
  received : ep0.received = 0
  indicated : ep0.indicated = []

/-- All bytes are in the receive buffer, and the callback was called once, with the size of the
request and after all its bytes. -/
structure ReadOk (f : ClassFunction) (addr wLength : Nat) (data : List Byte)
    (ep0 : Ep0) : Prop where
  inside : ∀ a ∈ ep0.touched, addr + f.receiveOffset ≤ a ∧
    a < addr + f.receiveOffset + f.receiveSize
  stored : ∀ i (h : i < data.length), ep0.memory (addr + f.receiveOffset + i) = data[i]
  indicated : ep0.indicated = [(wLength, wLength)]

/-! ## The data stage -/

section

variable {f : ClassFunction} {addr wLength : Nat} {ep0 ep0' : Ep0} {packet data : List Byte}
  {packets : List (List Byte)}

/-- While data is missing: `data` is stored from `addr` on and nothing was indicated. -/
structure Reading (addr wLength : Nat) (data : List Byte) (ep0 : Ep0) : Prop where
  remain : ep0.remainSize + data.length = wLength
  buffer : ep0.buffer = addr + data.length
  received : ep0.received = data.length
  touched : ep0.touched = range' addr data.length
  stored : ∀ i (h : i < data.length), ep0.memory (addr + i) = data[i]
  indicated : ep0.indicated = []

theorem store_bytes_append (memory : Nat → Byte)
    (h : ∀ i (hi : i < data.length), memory (addr + i) = data[i]) :
    ∀ i (hi : i < (data ++ packet).length),
      storeBytes memory (addr + data.length) packet (addr + i) = (data ++ packet)[i] := by
  intro i hi
  rw [length_append] at hi
  unfold storeBytes
  by_cases hold : i < data.length
  · rw [if_neg (by omega), h i hold, getElem_append_left hold]
  · have hsub : addr + i - (addr + data.length) = i - data.length := by omega
    rw [if_pos (by omega), hsub, getElem_append_right (not_lt.mp hold),
      getD_eq_getElem?_getD, getElem?_eq_getElem (by omega), getD_some]

theorem Reading.more (h : Reading addr wLength data ep0) (hw : wLength < 2 ^ 32)
    (hmore : (data ++ packet).length < wLength) :
    Reading addr wLength (data ++ packet) (ep0OutNotify ep0 packet) := by
  have hremain := h.remain
  rw [length_append] at hmore
  have hsub : sub32 ep0.remainSize packet.length = ep0.remainSize - packet.length :=
    sub32_eq (by omega) (by omega)
  unfold ep0OutNotify
  rw [if_neg (by omega)]
  dsimp only
  rw [hsub, if_neg (by omega)]
  constructor
  case remain =>
    rw [length_append]
    show ep0.remainSize - packet.length + _ = _
    omega
  case buffer =>
    rw [length_append]
    show ep0.buffer + packet.length = _
    rw [h.buffer, add_assoc]
  case received =>
    rw [length_append]
    show ep0.received + packet.length = _
    rw [h.received]
  case touched =>
    show ep0.touched ++ range' ep0.buffer packet.length = _
    rw [h.touched, h.buffer, length_append, ← range'_append_1]
  case stored =>
    show ∀ i (hi : i < (data ++ packet).length),
      storeBytes ep0.memory ep0.buffer packet (addr + i) = (data ++ packet)[i]
    rw [h.buffer]
    exact store_bytes_append ep0.memory h.stored
  case indicated => exact h.indicated

structure Completed (addr wLength size : Nat) (data : List Byte) (ep0 : Ep0) : Prop where
  remain : ep0.remainSize = 0
  touched : ep0.touched = range' addr wLength
  length : data.length = wLength
  stored : ∀ i (h : i < data.length), ep0.memory (addr + i) = data[i]
  indicated : ep0.indicated = [(size, wLength)]

theorem Reading.last (h : Reading addr wLength data ep0) (hw : wLength < 2 ^ 32)
    (hlast : (data ++ packet).length = wLength) (hpacket : 0 < packet.length) :
    Completed addr wLength packet.length (data ++ packet) (ep0OutNotify ep0 packet) := by
  have hremain := h.remain
  have hlen := hlast
  rw [length_append] at hlen
  have hsub : sub32 ep0.remainSize packet.length = 0 := by
    rw [sub32_eq (by omega) (by omega)]
    omega
  unfold ep0OutNotify
  rw [if_neg (by omega)]
  dsimp only
  rw [hsub, if_pos rfl]
  constructor
  case remain => rfl
  case touched =>
    show ep0.touched ++ range' ep0.buffer packet.length = _
    rw [h.touched, h.buffer, ← hlen, ← range'_append_1]
  case length => exact hlast
  case stored =>
    show ∀ i (hi : i < (data ++ packet).length),
      storeBytes ep0.memory ep0.buffer packet (addr + i) = (data ++ packet)[i]
    rw [h.buffer]
    exact store_bytes_append ep0.memory h.stored
  case indicated =>
    show ep0.indicated ++ [(packet.length, ep0.received + packet.length)] = _
    rw [h.indicated, h.received, hlen]
    rfl

/-- After the data everything else is ignored. -/
theorem data_stage_done (h : ep0.remainSize = 0) : dataStage ep0 packets = ep0 := by
  induction packets with
  | nil => rfl
  | cons packet packets ih =>
    have hnotify : ep0OutNotify ep0 packet = ep0 := if_pos h
    rw [dataStage, foldl_cons, hnotify]
    exact ih

def filled (packets : List (List Byte)) : List (List Byte) :=
  packets.filter fun packet => decide (0 < packet.length)

theorem Reading.data_stage (h : Reading addr wLength data ep0) (hw : wLength < 2 ^ 32)
    (hmore : data.length < wLength) (hall : (data ++ packets.flatten).length = wLength) :
    ∃ last ∈ (filled packets).getLast?, Completed addr wLength last.length (data ++ packets.flatten)
      (dataStage ep0 packets) := by
  induction packets generalizing data ep0 with
  | nil =>
    rw [flatten_nil, append_nil] at hall
    omega
  | cons packet packets ih =>
    rw [flatten_cons, ← append_assoc] at hall ⊢
    by_cases hlast : (data ++ packet).length = wLength
    · -- the other packets are empty
      have hrest : packets.flatten = [] := by
        rw [length_append] at hall
        exact length_eq_zero_iff.mp (by omega)
      have hpacket : 0 < packet.length := by
        rw [length_append] at hlast
        omega
      have hfilled : filled (packet :: packets) = [packet] := by
        have hempty : filled packets = [] := by
          refine filter_eq_nil_iff.mpr fun other hother => ?_
          rw [flatten_eq_nil_iff.mp hrest other hother]
          decide
        rw [filled, filter_cons, if_pos (decide_eq_true hpacket)]
        exact congrArg (packet :: ·) hempty
      have hdone := h.last hw hlast hpacket
      refine ⟨packet, by rw [hfilled]; rfl, ?_⟩
      rw [hrest, append_nil]
      show Completed _ _ _ _ (dataStage (ep0OutNotify ep0 packet) packets)
      rw [data_stage_done hdone.remain]
      exact hdone
    · have hless : (data ++ packet).length < wLength := by
        rw [length_append] at hall
        omega
      obtain ⟨last, hmem, hdone⟩ := ih (h.more hw hless) hless hall
      refine ⟨last, ?_, hdone⟩
      unfold filled at hmem ⊢
      rw [filter_cons]
      split
      case isFalse => exact hmem
      case isTrue =>
        rw [getLast?_cons]
        rw [hmem]
        rfl

theorem setup_reading (hsetup : functionSetup f addr wLength ep0 = some ep0')
    (hfresh : Fresh ep0) (hpos : 0 < wLength) :
      Reading (addr + f.receiveOffset) wLength [] ep0' := by
  have hnone : ∀ i (hi : i < ([] : List Byte).length), ep0'.memory (addr + f.receiveOffset + i) =
      ([] : List Byte)[i] := fun i hi => absurd hi (Nat.not_lt_zero i)
  cases f with
  | uvc =>
    unfold functionSetup at hsetup
    dsimp only at hsetup
    split at hsetup
    case isTrue => exact absurd hsetup (some_ne_none _).symm
    case isFalse =>
      obtain rfl := some.inj hsetup
      exact ⟨rfl, rfl, hfresh.received, hfresh.touched, hnone, hfresh.indicated⟩
  | uac =>
    unfold functionSetup at hsetup
    dsimp only at hsetup
    rw [if_pos hpos] at hsetup
    obtain rfl := some.inj hsetup
    exact ⟨rfl, rfl, hfresh.received, hfresh.touched, hnone, hfresh.indicated⟩

theorem setup_without_data (hsetup : functionSetup f addr 0 ep0 = some ep0') : ep0' = ep0 := by
  cases f with
  | uvc =>
    have hkeep : functionSetup .uvc addr 0 ep0 = some ep0 := by
      unfold functionSetup
      rw [if_neg (Nat.not_lt_zero _), if_neg (lt_irrefl 0)]
    exact (some.inj (hkeep.symm.trans hsetup)).symm
  | uac =>
    have hkeep : functionSetup .uac addr 0 ep0 = some ep0 := by
      unfold functionSetup
      dsimp only
      rw [if_neg (lt_irrefl 0)]
    exact (some.inj (hkeep.symm.trans hsetup)).symm

theorem data_stage_empty (hlt : ep0.remainSize < 2 ^ 32) (hempty : packets.flatten = []) :
    (dataStage ep0 packets).indicated = ep0.indicated := by
  induction packets generalizing ep0 with
  | nil => rfl
  | cons packet packets ih =>
    obtain ⟨hpacket, hrest⟩ := append_eq_nil_iff.mp (flatten_cons ▸ hempty)
    show (dataStage (ep0OutNotify ep0 packet) packets).indicated = _
    by_cases hzero : ep0.remainSize = 0
    · have hnotify : ep0OutNotify ep0 packet = ep0 := if_pos hzero
      rw [hnotify]
      exact ih hlt hrest
    · have hsub : sub32 ep0.remainSize packet.length = ep0.remainSize := by
        rw [hpacket, length_nil, sub32_eq (Nat.zero_le _) hlt, Nat.sub_zero]
      have hnotify : (ep0OutNotify ep0 packet).remainSize = ep0.remainSize ∧
          (ep0OutNotify ep0 packet).indicated = ep0.indicated := by
        unfold ep0OutNotify
        rw [if_neg hzero]
        dsimp only
        rw [hsub, if_neg hzero]
        exact ⟨rfl, rfl⟩
      rw [ih (hnotify.1 ▸ hlt) hrest, hnotify.2]

theorem filled_flatten (packets : List (List Byte)) :
    (filled packets).flatten = packets.flatten := by
  induction packets with
  | nil => rfl
  | cons packet packets ih =>
    rw [filled, filter_cons, flatten_cons]
    split
    case isTrue => rw [flatten_cons, ← filled, ih]
    case isFalse hempty =>
      have hnil : packet = [] := by
        cases packet with
        | nil => rfl
        | cons byte packet => exact absurd (decide_eq_true (Nat.succ_pos _)) hempty
      rw [hnil, ← filled, ih]
      rfl

theorem last_has_all_iff {last : List Byte} (hlast : last ∈ (filled packets).getLast?) :
    last.length = packets.flatten.length ↔ ∃ packet, filled packets = [packet] := by
  obtain ⟨before, hbefore⟩ := getLast?_eq_some_iff.mp hlast
  have hall := filled_flatten packets
  rw [hbefore, flatten_append, flatten_singleton] at hall
  have hlen := congrArg List.length hall
  rw [length_append] at hlen
  constructor
  · intro heq
    refine ⟨last, ?_⟩
    rw [hbefore]
    cases before with
    | nil => rfl
    | cons first before =>
      have hmem : first ∈ filled packets := by
        rw [hbefore]
        exact mem_append_left _ mem_cons_self
      have hpos : 0 < first.length := of_decide_eq_true (mem_filter.mp hmem).2
      rw [flatten_cons, length_append] at hlen
      omega
  · rintro ⟨packet, hpacket⟩
    rw [hbefore] at hpacket
    cases before with
    | nil =>
      rw [flatten_nil, length_nil] at hlen
      omega
    | cons first before =>
      rw [cons_append, List.cons.injEq, append_eq_nil_iff] at hpacket
      exact absurd hpacket.2.2 (cons_ne_nil _ _)

/-- All goes well exactly if the data fits into the receive buffer and comes in one packet, apart
from empty ones. -/
theorem read_ok_iff (hsetup : functionSetup f addr wLength ep0 = some ep0') (hfresh : Fresh ep0)
    (hw : wLength < 2 ^ 16) (hall : packets.flatten.length = wLength) :
    ReadOk f addr wLength packets.flatten (dataStage ep0' packets) ↔
      wLength ≤ f.receiveSize ∧ ∃ packet, filled packets = [packet] := by
  by_cases hpos : 0 < wLength
  · have hreading := setup_reading hsetup hfresh hpos
    obtain ⟨last, hlast, hdone⟩ := hreading.data_stage (by omega) hpos hall
    rw [← last_has_all_iff hlast, hall]
    constructor
    · intro hok
      have hindicated := hok.indicated
      rw [hdone.indicated] at hindicated
      refine ⟨?_, (Prod.mk.inj (List.cons.inj hindicated).1).1⟩
      -- the last byte
      have hmem : addr + f.receiveOffset + (wLength - 1) ∈ (dataStage ep0' packets).touched := by
        rw [hdone.touched, mem_range'_1]
        omega
      have hinside := (hok.inside _ hmem).2
      omega
    · rintro ⟨hsize, hlen⟩
      constructor
      case inside =>
        intro a ha
        rw [hdone.touched, mem_range'_1] at ha
        omega
      case stored => exact hdone.stored
      case indicated => rw [hdone.indicated, hlen]
  · -- there is no data stage
    obtain rfl : wLength = 0 := by omega
    obtain rfl := setup_without_data hsetup
    have hempty := length_eq_zero_iff.mp hall
    constructor
    · intro hok
      have hindicated := hok.indicated
      rw [data_stage_empty hfresh.remain_lt hempty, hfresh.indicated] at hindicated
      exact absurd hindicated.symm (cons_ne_nil _ _)
    · rintro ⟨-, packet, hpacket⟩
      have hflat := filled_flatten packets
      have hmem : packet ∈ filled packets := hpacket ▸ mem_singleton.mpr rfl
      have hfilled : 0 < packet.length := of_decide_eq_true (mem_filter.mp hmem).2
      rw [hpacket, hempty, flatten_singleton] at hflat
      rw [hflat] at hfilled
      exact absurd hfilled (lt_irrefl 0)

end

/-! ## Requests -/

/-- Before any request. -/
def idleEp0 : Ep0 where
  memory := fun _ => 0#8
  buffer := 0
  remainSize := 0
  touched := []
  received := 0
  indicated := []

/-- The data of `SET_CUR` with two bytes arrives in one packet. -/
theorem short_request_read : ∃ ep0, functionSetup .uvc 0x1000 2 idleEp0 = some ep0 ∧
    ReadOk .uvc 0x1000 2 [[1#8, 2#8]].flatten (dataStage ep0 [[1#8, 2#8]]) := by
  have hfresh : Fresh idleEp0 := ⟨Nat.two_pow_pos 32, rfl, rfl, rfl⟩
  have hw : 2 < 2 ^ 16 := by decide
  have hfits : 2 ≤ ClassFunction.uvc.receiveSize := by decide
  exact ⟨_, rfl, (read_ok_iff rfl hfresh hw rfl).mpr ⟨hfits, [1#8, 2#8], rfl⟩⟩

/-- A UVC request of 64 bytes is let through, and its last byte is stored behind `gEventData`. The
callback after packets of 20 and 6 bytes gets the size 6. -/
theorem some_requests_not_read :
    (∃ ep0, functionSetup .uvc 0x1000 64 idleEp0 = some ep0 ∧
      0x1000 + 8 + 64 ∈ (dataStage ep0 [replicate 64 1#8]).touched ∧
      ¬ ReadOk .uvc 0x1000 64 [replicate 64 1#8].flatten
        (dataStage ep0 [replicate 64 1#8])) ∧
    ∃ ep0, functionSetup .uvc 0x1000 26 idleEp0 = some ep0 ∧
      (dataStage ep0 [replicate 20 1#8, replicate 6 1#8]).indicated = [(6, 26)] ∧
      ¬ ReadOk .uvc 0x1000 26 [replicate 20 1#8, replicate 6 1#8].flatten
        (dataStage ep0 [replicate 20 1#8, replicate 6 1#8]) := by
  refine ⟨⟨_, rfl, ?_, fun hok => ?_⟩, _, rfl, ?_, fun hok => ?_⟩
  · decide +kernel
  · have hinside := hok.inside (0x1000 + 8 + 64) (by decide +kernel)
    exact absurd hinside.2 (by decide)
  · decide +kernel
  · have hindicated : [(6, 26)] = [(26, 26)] := by
      rw [← hok.indicated]
      decide +kernel
    exact absurd hindicated (by decide)

end FullhanRtos.Usb
