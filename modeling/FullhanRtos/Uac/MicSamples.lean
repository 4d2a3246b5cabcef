import FullhanRtos.Lib.Buffer
import FullhanRtos.Lib.Bytes
import FullhanRtos.Uac.Mic

/-!
# The samples of the microphone

The data that `fh_uac_micstream_enqueue` copies into the buffers whose lists are in `Uac.Mic`. A
frame is as many whole packets as there are; the rest is kept in `align_buf` for the next call. A
call with less data than it takes to fill a packet that is begun asks for a copy of negative length.
-/

namespace FullhanRtos.Uac

open Buffer Bytes ListPair Transition List Option Nat
open Uvc (BufNode data_buf_members)

/-! ## Data -/

/-- `UAC_MICBUF_NUM` and `UAC_MICBUF_SIZE` as `uac_init.h` has them. -/
def uacMicConfig : MicConfig := ⟨64, 2048⟩

def uacMicalignSize : Nat := 256

/-- `struct frame_buf` without its list: the memory and `uac_frame_size`. -/
structure MicFrame where
  data : List Byte
  uacFrameSize : Nat

def MicFrame.content (frame : MicFrame) : List Byte := frame.data.take frame.uacFrameSize

/-- The buffers with their memory, `align_buf` and `align_len`. `audio` is the data of a call until
it is copied, `given` the data of all calls, `sent` are the frames that the endpoint was given, and
`copies` the lengths of the copies. -/
structure MicSamples where
  mic : MicBuf
  frames : BufNode → MicFrame
  alignBuf : List Byte
  alignLen : Nat
  audio : List Byte
  given : List Byte
  sent : List MicFrame
  copies : List Int

/-! ## The functions -/

/-- The copies of `fh_uac_micstream_enqueue` for packets of `m` bytes. What a copy of negative
length writes is not described. -/
def MicSamples.fill (m : Nat) (s : MicSamples) (frame : BufNode) : MicSamples :=
  let first := min s.alignLen uacMicalignSize
  let data := writeAt (s.frames frame).data 0 (s.alignBuf.take first)
  let tempLen := s.alignLen
  let alignLen := (s.audio.length + s.alignLen) % m
  let length : Int := s.audio.length - alignLen
  let data := writeAt data tempLen (s.audio.take length.toNat)
  let alignBuf := writeAt s.alignBuf 0 ((s.audio.drop length.toNat).take alignLen)
  { s with
    frames := Function.update s.frames frame ⟨data, s.audio.length + tempLen - alignLen⟩
    alignBuf, alignLen
    audio := []
    copies := s.copies ++ [(first : Int), length, (alignLen : Int)] }

/-- A buffer that becomes `cur_buf` is given to the endpoint. -/
def MicSamples.follow (s : MicSamples) (mic : MicBuf) : MicSamples :=
  { s with
    mic
    sent := s.sent ++
      if mic.curBuf = s.mic.curBuf then [] else mic.curBuf.toList.map s.frames }

/-- `MicEvent`, where a call has its data. -/
inductive SampleEvent where
  | call (interrupts : Bool) (audio : List Byte)
  | thread
  | initialised
  | complete
  | reinit
  | status (on : Bool)
  | sampleChange (rate : Nat)

def SampleEvent.micEvent : SampleEvent → MicEvent
  | .call interrupts audio => .enqueue interrupts audio.length
  | .thread => .thread
  | .initialised => .initialised
  | .complete => .complete
  | .reinit => .reinit
  | .status on => .status on
  | .sampleChange rate => .sampleChange rate

/-- The data after an event that leads to `mic`. -/
def MicSamples.copied (m : Nat) (s : MicSamples) (mic : MicBuf) : SampleEvent → MicSamples
  | .call _ audio =>
    if s.mic.phase = .idle ∧ audio.length ≤ uacMicConfig.bufSize then
      { s with mic, audio, given := s.given ++ audio }
    else s
  | .thread =>
    match s.mic.phase, mic.phase with
    | .take, .link frame => { s.fill m frame with mic }
    | .take, _ => { s with mic, audio := [] }
    | _, _ => s.follow mic
  | _ => s.follow mic

def sampleStep (m : Nat) (s : MicSamples) (event : SampleEvent) : Option MicSamples :=
  (micStep uacMicConfig s.mic event.micEvent).map fun mic => s.copied m mic event

/-- After `fh_uac_init`, with the stream switched on. -/
def samplesStart (links : Links BufNode) : MicSamples where
  mic := { micStart uacMicConfig links with playStatus := true }
  frames _ := ⟨replicate (uacMicConfig.bufSize + uacMicalignSize) 0, 0⟩
  alignBuf := replicate uacMicalignSize 0
  alignLen := 0
  audio := []
  given := []
  sent := []
  copies := []

/-! ## What holds -/

/-- The frames that were sent, those that are linked and the one in the hands of the thread. -/
def MicSamples.queued (s : MicSamples) (used : List BufNode) : List MicFrame :=
  s.sent ++ (used ++ s.mic.phase.held uacMicConfig.bufNum).map s.frames

/-- The frames with what is carried over and what is not copied yet are the data that was given, and
every frame is a number of packets that fits its buffer. -/
structure Streamed (m : Nat) (s : MicSamples) (used : List BufNode) : Prop where
  inOrder : (s.queued used).flatMap MicFrame.content ++ (s.alignBuf.take s.alignLen ++ s.audio) =
    s.given
  sizes : ∀ frame ∈ s.queued used, m ∣ frame.uacFrameSize ∧ frame.uacFrameSize ≤ frame.data.length

/-- The lists lead through frames in order, and no copy had a negative length. -/
structure SamplesOk (m : Nat) (s : MicSamples) : Prop where
  streamed : ∃ free used, Pair s.mic.links .listFree .listUsed free used ∧ Streamed m s used
  copies : ∀ length ∈ s.copies, 0 ≤ length

/-- The stream is on, and no used frame is given up for a new one. -/
def Streams (s : MicSamples) : SampleEvent → Prop
  | .thread =>
    (s.mic.phase = .take →
      s.mic.links.isEmpty .listFree = false ∨ s.mic.links.isEmpty .listUsed = true) ∧
    (s.mic.phase = .status → s.mic.playStatus = true)
  | .reinit => False
  | _ => True

instance (s : MicSamples) : (event : SampleEvent) → Decidable (Streams s event)
  | .thread => inferInstanceAs (Decidable (_ ∧ _))
  | .reinit => .isFalse id
  | .call .. | .initialised | .complete | .status _ | .sampleChange _ => .isTrue trivial

def FillsPacket (m : Nat) (s : MicSamples) : SampleEvent → Prop
  | .thread => s.mic.phase = .take → s.alignLen = 0 ∨ m ≤ s.audio.length + s.alignLen
  | _ => True

/-! ## The copies -/

section

variable {m : Nat} {s : MicSamples} {mic : MicBuf}

/-- The sizes of the memory, and of what is carried over. -/
structure MemoryOk (m : Nat) (s : MicSamples) : Prop where
  frames : ∀ node, (s.frames node).data.length = uacMicConfig.bufSize + uacMicalignSize
  alignBuf : s.alignBuf.length = uacMicalignSize
  alignLen : s.alignLen < m
  audio : s.audio.length ≤ uacMicConfig.bufSize

theorem copy_length_iff (halign : s.alignLen < m) :
    0 ≤ (s.audio.length : Int) - ((s.audio.length + s.alignLen) % m : Nat) ↔
      s.alignLen = 0 ∨ m ≤ s.audio.length + s.alignLen := by
  by_cases hfills : m ≤ s.audio.length + s.alignLen
  · -- at least one packet is taken away, and that is more than what was carried over
    have hsub := mod_le (s.audio.length + s.alignLen - m) m
    rw [← mod_eq_sub_mod hfills] at hsub
    omega
  · rw [mod_eq_of_lt (Nat.lt_of_not_le hfills)]
    omega

theorem MemoryOk.fill (h : MemoryOk m s) (hm : 0 < m) (hmax : m ≤ uacMicalignSize)
    (frame : BufNode) : MemoryOk m (s.fill m frame) := by
  have hcarried : (s.audio.length + s.alignLen) % m < m := mod_lt _ hm
  have halign := h.alignLen
  constructor
  case frames =>
    intro node
    by_cases hnode : node = frame
    · subst hnode
      have hmemory := h.frames node
      have haudio := h.audio
      unfold MicSamples.fill
      dsimp only
      rw [Function.update_self]
      have hfirst : (writeAt (s.frames node).data 0
          (s.alignBuf.take (min s.alignLen uacMicalignSize))).length =
            uacMicConfig.bufSize + uacMicalignSize := by
        rw [length_write_at, hmemory]
        rw [length_take]
        omega
      rw [length_write_at, hfirst]
      rw [hfirst, length_take]
      omega
    · unfold MicSamples.fill
      dsimp only
      rw [Function.update_of_ne hnode]
      exact h.frames node
  case alignBuf =>
    refine (length_write_at ?_).trans h.alignBuf
    rw [h.alignBuf, length_take]
    omega
  case alignLen => exact hcarried
  case audio => exact Nat.zero_le _

open MicSamples

/-- A frame with what is carried over to the next call is what was carried over with the data. -/
theorem fill_spec (h : MemoryOk m s) (hm : 0 < m) (hmax : m ≤ uacMicalignSize) (frame : BufNode)
    (hfills : s.alignLen = 0 ∨ m ≤ s.audio.length + s.alignLen) :
    ((s.fill m frame).frames frame).content ++
        (s.fill m frame).alignBuf.take (s.fill m frame).alignLen =
      s.alignBuf.take s.alignLen ++ s.audio ∧
    m ∣ ((s.fill m frame).frames frame).uacFrameSize ∧
    ((s.fill m frame).frames frame).uacFrameSize ≤ ((s.fill m frame).frames frame).data.length := by
  have hkept := h.fill hm hmax frame
  have hmemory := hkept.frames frame
  have hbefore := h.frames frame
  have hbuf := h.alignBuf
  have halign := h.alignLen
  have haudio := h.audio
  have hpositive := (copy_length_iff h.alignLen).mpr hfills
  have hcarried : (s.audio.length + s.alignLen) % m < m := mod_lt _ hm
  have hpackets : m ∣ s.audio.length + s.alignLen - (s.audio.length + s.alignLen) % m :=
    dvd_sub_mod _
  unfold fill at hmemory ⊢
  dsimp only at hmemory ⊢
  rw [Function.update_self] at hmemory ⊢
  -- What is kept for the next call, and what goes into the frame.
  generalize (s.audio.length + s.alignLen) % m = alignLen at *
  obtain ⟨length, hlen⟩ : ∃ length : Nat, s.audio.length = length + alignLen :=
    ⟨s.audio.length - alignLen, by omega⟩
  have htoNat : ((s.audio.length : Int) - alignLen).toNat = length := by omega
  have hmin : min s.alignLen uacMicalignSize = s.alignLen := by omega
  rw [htoNat, hmin] at hmemory ⊢
  have hfront : (s.alignBuf.take s.alignLen).length = s.alignLen := by
    rw [length_take]
    omega
  have htaken : (s.audio.take length).length = length := by
    rw [length_take]
    omega
  have hrest : (s.audio.drop length).length = alignLen := by
    rw [length_drop]
    omega
  have hsize : s.audio.length + s.alignLen - alignLen = s.alignLen + length := by omega
  refine ⟨?_, hpackets, ?_⟩
  · have hfirst : (writeAt (s.frames frame).data 0 (s.alignBuf.take s.alignLen)).length =
        uacMicConfig.bufSize + uacMicalignSize := by
      rw [length_write_at, hbefore]
      omega
    have hfit : s.alignLen + (s.audio.take length).length ≤
        (writeAt (s.frames frame).data 0 (s.alignBuf.take s.alignLen)).length := by
      omega
    have hwritten := take_write_at hfit
    have hprefix : (writeAt (s.frames frame).data 0 (s.alignBuf.take s.alignLen)).take s.alignLen =
        s.alignBuf.take s.alignLen := by
      have hwrite : (writeAt (s.frames frame).data 0 (s.alignBuf.take s.alignLen)).take
          (0 + (s.alignBuf.take s.alignLen).length) =
            (s.frames frame).data.take 0 ++ s.alignBuf.take s.alignLen := take_write_at (by omega)
      rw [hfront, zero_add] at hwrite
      simpa using hwrite
    rw [htaken, hprefix] at hwritten
    have hall : (s.audio.drop length).take alignLen = s.audio.drop length :=
      take_of_length_le (le_of_eq hrest)
    have hkeep : (writeAt s.alignBuf 0 (s.audio.drop length)).take
        (0 + (s.audio.drop length).length) = s.alignBuf.take 0 ++ s.audio.drop length :=
      take_write_at (by omega)
    rw [hrest, zero_add] at hkeep
    rw [MicFrame.content, hsize, hwritten, hall, hkeep, take_zero, nil_append,
      append_assoc, take_append_drop]
  · have hroom : s.audio.length + s.alignLen - alignLen ≤
        uacMicConfig.bufSize + uacMicalignSize := by omega
    exact hroom.trans hmemory.ge

/-! ## The invariant -/

/-- The points of the thread while the stream is on. -/
def MicPhase.Streaming : MicPhase → Prop
  | .reinit => False
  | .insert _ => False
  | _ => True

/-- Every buffer is in a list, with the endpoint or in the hands of the thread. As long as no copy
had a negative length the frames are in order. -/
structure SampleInv (m : Nat) (s : MicSamples) : Prop where
  lists : ∃ free used, Shared s.mic.links .listFree .listUsed (dataBufs uacMicConfig.bufNum)
    free used (s.mic.out uacMicConfig) ∧
    ((∀ length ∈ s.copies, 0 ≤ length) → Streamed m s used)
  unsent : s.mic.phase = .send → s.mic.curBuf = none
  streaming : s.mic.phase.Streaming
  waiting : s.mic.phase ≠ .take → s.audio = []
  memory : MemoryOk m s

theorem SampleInv.ok_iff (h : SampleInv m s) :
    SamplesOk m s ↔ ∀ length ∈ s.copies, 0 ≤ length := by
  obtain ⟨free, used, hshared, hstreamed⟩ := h.lists
  exact ⟨SamplesOk.copies, fun hcopies => ⟨⟨free, used, hshared.pair, hstreamed hcopies⟩, hcopies⟩⟩

/-- The same frames are queued after an event that copies nothing. -/
theorem Streamed.follow {used used' : List BufNode} (h : Streamed m s used)
    (hqueued : (s.follow mic).queued used' = s.queued used) : Streamed m (s.follow mic) used' := by
  constructor
  case inOrder =>
    rw [hqueued]
    exact h.inOrder
  case sizes =>
    rw [hqueued]
    exact h.sizes

section

variable (h : SampleInv m s)

include h

/-- An event that moves no buffer. -/
theorem SampleInv.goes (hlinks : mic.links = s.mic.links) (hcur : mic.curBuf = s.mic.curBuf)
    (hheld : mic.phase.held uacMicConfig.bufNum = s.mic.phase.held uacMicConfig.bufNum)
    (hunsent : mic.phase = .send → mic.curBuf = none) (hstreaming : mic.phase.Streaming)
    (hwaiting : mic.phase ≠ .take → s.audio = []) : SampleInv m (s.follow mic) := by
  obtain ⟨free, used, hshared, hstreamed⟩ := h.lists
  have hsent : (s.follow mic).sent = s.sent := by
    show s.sent ++ (if mic.curBuf = s.mic.curBuf then [] else _) = s.sent
    rw [if_pos hcur, append_nil]
  refine ⟨⟨free, used, ?_, fun hcopies => ?_⟩, hunsent, hstreaming, hwaiting,
    ⟨h.memory.frames, h.memory.alignBuf, h.memory.alignLen, h.memory.audio⟩⟩
  · show Shared mic.links _ _ _ _ _ (mic.curBuf.toList ++ mic.phase.held uacMicConfig.bufNum)
    rw [hlinks, hcur, hheld]
    exact hshared
  · have hqueued : (s.follow mic).queued used = s.queued used := by
      show (s.follow mic).sent ++ (used ++ mic.phase.held uacMicConfig.bufNum).map s.frames = _
      rw [hsent, hheld]
      rfl
    exact (hstreamed hcopies).follow hqueued

theorem SampleInv.sent {free used : List BufNode} {p : BufNode}
    (hshared : Shared mic.links .listFree .listUsed (dataBufs uacMicConfig.bufNum) free used
      (p :: s.mic.phase.held uacMicConfig.bufNum))
    (hcur : mic.curBuf = some p) (hnew : s.mic.curBuf ≠ some p)
    (hstreamed : (∀ length ∈ s.copies, 0 ≤ length) → Streamed m s (p :: used))
    (hheld : mic.phase.held uacMicConfig.bufNum = s.mic.phase.held uacMicConfig.bufNum)
    (hsend : mic.phase ≠ .send) (hstreaming : mic.phase.Streaming)
    (hwaiting : mic.phase ≠ .take → s.audio = []) : SampleInv m (s.follow mic) := by
  have hsent : (s.follow mic).sent = s.sent ++ [s.frames p] := by
    show s.sent ++ (if mic.curBuf = s.mic.curBuf then [] else mic.curBuf.toList.map s.frames) = _
    rw [hcur, if_neg hnew.symm]
    rfl
  have hqueued : (s.follow mic).queued used = s.queued (p :: used) := by
    show (s.follow mic).sent ++ (used ++ mic.phase.held uacMicConfig.bufNum).map s.frames =
      s.sent ++ (p :: used ++ s.mic.phase.held uacMicConfig.bufNum).map s.frames
    rw [hsent, hheld, append_assoc]
    rfl
  refine ⟨⟨free, used, ?_, fun hcopies => ?_⟩, fun hphase => absurd hphase hsend, hstreaming,
    hwaiting, ⟨h.memory.frames, h.memory.alignBuf, h.memory.alignLen, h.memory.audio⟩⟩
  · show Shared mic.links _ _ _ _ _ (mic.curBuf.toList ++ mic.phase.held uacMicConfig.bufNum)
    rw [hcur, hheld]
    exact hshared
  · exact (hstreamed hcopies).follow hqueued

/-! ## The steps of the thread -/

theorem SampleInv.take_frame (hphase : s.mic.phase = .take)
    (hfree : s.mic.links.isEmpty .listFree = false ∨ s.mic.links.isEmpty .listUsed = true) :
    ∃ p free used, Shared s.mic.links .listFree .listUsed (dataBufs uacMicConfig.bufNum)
        (p :: free) used s.mic.curBuf.toList ∧
      ((∀ length ∈ s.copies, 0 ≤ length) → Streamed m s used) ∧
      takeFrame s.mic = { s.mic with links := s.mic.links.remove p, phase := .link p } := by
  obtain ⟨free, used, hshared, hstreamed⟩ := h.lists
  rw [MicBuf.out, hphase] at hshared
  dsimp only [MicPhase.held] at hshared
  rw [append_nil] at hshared
  have hsome : s.mic.links.isEmpty .listFree = false := by
    by_contra hnone
    have hempty := hfree.resolve_left hnone
    -- one of 64 buffers at most is with the endpoint
    rw [Bool.not_eq_false, hshared.pair.is_empty_iff] at hnone
    rw [hshared.pair.symm.is_empty_iff] at hempty
    subst hnone hempty
    have hlen := hshared.all.length_eq
    rw [nil_append, nil_append, dataBufs, length_map, length_range] at hlen
    have hone := length_toList_le (o := s.mic.curBuf)
    rw [hlen] at hone
    exact absurd hone (by decide)
  have hne : free ≠ [] := by
    rw [Ne, ← hshared.pair.is_empty_iff, hsome]
    exact Bool.false_ne_true
  obtain ⟨p, rest, rfl⟩ := exists_cons_of_ne_nil hne
  refine ⟨p, rest, used, hshared, hstreamed, ?_⟩
  have hkept : giveUpUsed s.mic.links = s.mic.links :=
    if_neg fun hgive => Bool.false_ne_true (hsome.symm.trans hgive.1)
  unfold takeFrame
  rw [hkept, if_neg (Bool.eq_false_iff.mp hsome), hshared.pair.next_head]

theorem SampleInv.take (hm : 0 < m) (hmax : m ≤ uacMicalignSize) (hphase : s.mic.phase = .take)
    (hfree : s.mic.links.isEmpty .listFree = false ∨ s.mic.links.isEmpty .listUsed = true) :
    let s' := s.copied m (takeFrame s.mic) .thread
    SampleInv m s' ∧ ((∀ length ∈ s'.copies, 0 ≤ length) ↔
      (∀ length ∈ s.copies, 0 ≤ length) ∧ FillsPacket m s .thread) := by
  obtain ⟨p, free, used, hshared, hstreamed, htaken⟩ := h.take_frame hphase hfree
  let mic : MicBuf := { s.mic with links := s.mic.links.remove p, phase := .link p }
  have hcopied : s.copied m (takeFrame s.mic) .thread = { s.fill m p with mic } := by
    unfold copied
    rw [htaken, hphase]
  have hcond : FillsPacket m s .thread ↔ s.alignLen = 0 ∨ m ≤ s.audio.length + s.alignLen :=
    ⟨fun hfills => hfills hphase, fun hfills _ => hfills⟩
  have hcopies : (∀ length ∈ (s.fill m p).copies, 0 ≤ length) ↔
      (∀ length ∈ s.copies, 0 ≤ length) ∧ FillsPacket m s .thread := by
    rw [hcond, ← copy_length_iff h.memory.alignLen]
    unfold fill
    simp only [forall_mem_append, forall_mem_cons]
    constructor
    · exact fun hall => ⟨hall.1, hall.2.2.1⟩
    · exact fun hall => ⟨hall.1, Int.natCast_nonneg _, hall.2, Int.natCast_nonneg _, nofun⟩
  have hmemory := h.memory.fill hm hmax p
  rw [hcopied]
  refine ⟨⟨⟨free, used, ?_, ?_⟩, nofun, trivial, fun _ => rfl,
    ⟨hmemory.frames, hmemory.alignBuf, hmemory.alignLen, hmemory.audio⟩⟩, hcopies⟩
  · exact hshared.take.perm (perm_append_singleton p _)
  · intro hall
    obtain ⟨hbefore, hfills⟩ := hcopies.mp hall
    obtain ⟨hspec, hpackets, hfits⟩ := fill_spec h.memory hm hmax p (hcond.mp hfills)
    -- the frames that are queued keep their data
    have hused : used.map (s.fill m p).frames = used.map s.frames := by
      refine map_congr_left fun q hq => ?_
      refine Function.update_of_ne ?_ _ _
      rintro rfl
      exact hshared.pair.ne (mem_cons_of_mem _ mem_cons_self) (mem_cons_of_mem _ hq)
        rfl
    have hqueued : queued { s.fill m p with mic } used =
        s.queued used ++ [(s.fill m p).frames p] := by
      show s.sent ++ (used ++ [p]).map (s.fill m p).frames =
        s.sent ++ (used ++ s.mic.phase.held uacMicConfig.bufNum).map s.frames ++ _
      rw [hphase, map_append, hused]
      show _ = s.sent ++ (used ++ []).map s.frames ++ _
      rw [append_nil, append_assoc]
      rfl
    have hok := hstreamed hbefore
    constructor
    case inOrder =>
      rw [hqueued, flatMap_append, append_assoc]
      show _ ++ (((s.fill m p).frames p).content ++ [] ++
        ((s.fill m p).alignBuf.take (s.fill m p).alignLen ++ [])) = s.given
      rw [append_nil, append_nil, hspec]
      exact hok.inOrder
    case sizes =>
      rw [hqueued]
      intro frame hframe
      rcases mem_append.mp hframe with hold | hnew
      · exact hok.sizes frame hold
      · rw [mem_singleton.mp hnew]
        exact ⟨hpackets, hfits⟩

theorem SampleInv.link {frame : BufNode} (hphase : s.mic.phase = .link frame) :
    SampleInv m (s.follow
      { s.mic with links := s.mic.links.insertBefore .listUsed frame, phase := .status }) := by
  obtain ⟨free, used, hshared, hstreamed⟩ := h.lists
  have haudio : s.audio = [] := by
    refine h.waiting ?_
    rw [hphase]
    intro htake
    cases htake
  have hout : (s.mic.out uacMicConfig).Perm (frame :: s.mic.curBuf.toList) := by
    rw [MicBuf.out, hphase]
    exact perm_append_singleton frame _
  have hsent : s.sent ++ (if s.mic.curBuf = s.mic.curBuf then [] else
      s.mic.curBuf.toList.map s.frames) = s.sent := by
    rw [if_pos rfl, append_nil]
  refine ⟨⟨free, used ++ [frame], ?_, fun hcopies => ?_⟩, (fun hsend => by cases hsend), trivial,
    fun _ => haudio, ⟨h.memory.frames, h.memory.alignBuf, h.memory.alignLen, h.memory.audio⟩⟩
  · show Shared _ _ _ _ _ _ (s.mic.curBuf.toList ++ [])
    rw [append_nil]
    exact (hshared.symm.put (data_buf_members uacMicConfig.bufNum).symm hout).symm
  · have hqueued : (s.follow { s.mic with
        links := s.mic.links.insertBefore .listUsed frame, phase := .status }).queued
          (used ++ [frame]) = s.queued used := by
      show (s.sent ++ (if s.mic.curBuf = s.mic.curBuf then [] else _)) ++
        (used ++ [frame] ++ []).map s.frames =
          s.sent ++ (used ++ s.mic.phase.held uacMicConfig.bufNum).map s.frames
      rw [hsent, hphase, append_nil]
      rfl
    exact (hstreamed hcopies).follow hqueued

theorem SampleInv.send (hphase : s.mic.phase = .send) :
    ∃ mic, pumpSend uacMicConfig s.mic = some mic ∧ SampleInv m (s.follow mic) := by
  obtain ⟨free, used, hshared, hstreamed⟩ := h.lists
  have hcur : s.mic.curBuf = none := h.unsent hphase
  have haudio : s.audio = [] := by
    refine h.waiting ?_
    rw [hphase]
    intro htake
    cases htake
  have hout : s.mic.out uacMicConfig = [] := by
    rw [MicBuf.out, hphase, hcur]
    rfl
  rw [hout] at hshared
  have hlen : used.length < uacMicConfig.bufNum + 1 := by
    have hle := hshared.symm.length_le
    exact lt_succ_of_le hle
  unfold pumpSend
  rw [hshared.pair.symm.len_eq hlen]
  dsimp only
  by_cases hmany : 2 < used.length
  · rw [if_pos hmany]
    obtain ⟨p, rest, rfl⟩ := exists_cons_of_ne_nil
      (ne_nil_of_length_pos (zero_lt_of_lt hmany))
    have hnext : s.mic.links.next .listUsed = p := hshared.pair.symm.next_head
    have hheld : s.mic.phase.held uacMicConfig.bufNum = [] := by
      rw [hphase]
      rfl
    have hlists : Shared (sendFirst s.mic).links .listFree .listUsed
        (dataBufs uacMicConfig.bufNum) free rest (p :: s.mic.phase.held uacMicConfig.bufNum) := by
      unfold sendFirst
      rw [hnext, hheld]
      exact hshared.symm.take.symm
    have hnew : s.mic.curBuf ≠ some p := by
      rw [hcur]
      intro heq
      cases heq
    have hsent : (sendFirst s.mic).curBuf = some p := congrArg some hnext
    refine ⟨_, rfl, h.sent hlists hsent hnew hstreamed hheld.symm ?_ trivial fun _ => haudio⟩
    intro hsend
    cases hsend
  · rw [if_neg hmany]
    refine ⟨_, rfl, h.goes rfl rfl ?_ (fun hsend => by cases hsend) trivial fun _ => haudio⟩
    rw [hphase]
    rfl

theorem SampleInv.thread (hm : 0 < m) (hmax : m ≤ uacMicalignSize) (hstreams : Streams s .thread) :
    ∃ s', sampleStep m s .thread = some s' ∧ SampleInv m s' ∧
      ((∀ length ∈ s'.copies, 0 ≤ length) ↔
        (∀ length ∈ s.copies, 0 ≤ length) ∧ FillsPacket m s .thread) := by
  have hother : s.mic.phase ≠ .take → ∀ s' : MicSamples, s'.copies = s.copies →
      ((∀ length ∈ s'.copies, 0 ≤ length) ↔
        (∀ length ∈ s.copies, 0 ≤ length) ∧ FillsPacket m s .thread) := by
    intro hphase s' hcopies
    rw [hcopies]
    exact ⟨fun hall => ⟨hall, fun htake => absurd htake hphase⟩, fun hall => hall.1⟩
  have hstreaming := h.streaming
  have hwaiting := h.waiting
  -- The thread goes on; all it does is in the lists.
  have hfollow : s.mic.phase ≠ .take → ∀ mic, micThread uacMicConfig s.mic = some mic →
      SampleInv m (s.follow mic) → ∃ s', sampleStep m s .thread = some s' ∧ SampleInv m s' ∧
        ((∀ length ∈ s'.copies, 0 ≤ length) ↔
          (∀ length ∈ s.copies, 0 ≤ length) ∧ FillsPacket m s .thread) := by
    intro hphase mic hstep hinv
    have hcopied : s.copied m mic .thread = s.follow mic := by
      unfold copied
      cases hp : s.mic.phase with
      | take => exact absurd hp hphase
      | idle | link frame | status | pump | send | reinit | insert i | sample => rfl
    refine ⟨s.follow mic, ?_, hinv, hother hphase _ rfl⟩
    show (micThread uacMicConfig s.mic).map _ = _
    rw [hstep]
    exact congrArg some hcopied
  unfold micThread at hfollow
  generalize hphase : s.mic.phase = phase at hfollow hwaiting hstreaming
  cases phase with
  | take =>
    refine ⟨_, ?_, h.take hm hmax hphase (hstreams.1 hphase)⟩
    show (micThread uacMicConfig s.mic).map _ = _
    unfold micThread
    rw [hphase]
    rfl
  | idle =>
    exact hfollow nofun s.mic rfl (h.goes rfl rfl rfl h.unsent h.streaming h.waiting)
  | link frame =>
    exact hfollow nofun _ rfl (h.link hphase)
  | status =>
    refine hfollow nofun _ rfl (h.goes rfl rfl ?_ ?_ ?_ fun _ => hwaiting nofun)
    · rw [hphase, hstreams.2 hphase]
      rfl
    · rw [hstreams.2 hphase]
      exact nofun
    · rw [hstreams.2 hphase]
      trivial
  | pump =>
    refine hfollow nofun _ rfl (h.goes rfl rfl ?_ ?_ ?_ fun _ => hwaiting nofun)
    · rw [hphase]
      split <;> rfl
    · dsimp only
      split
      case isTrue hnone => exact fun _ => hnone
      case isFalse => exact nofun
    · dsimp only
      split <;> trivial
  | send =>
    obtain ⟨mic, hsend, hinv⟩ := h.send hphase
    exact hfollow nofun mic hsend hinv
  | reinit | insert i => exact hstreaming.elim
  | sample =>
    refine hfollow nofun _ rfl (h.goes rfl rfl ?_ nofun trivial fun _ => hwaiting nofun)
    rw [hphase]
    rfl

/-! ## Runs -/

/-- The frame that was sent is free again, and the next one is sent. -/
theorem SampleInv.complete : SampleInv m (s.follow (s.mic.interrupt uacAudioComplete)) := by
  obtain ⟨free, used, hshared, hstreamed⟩ := h.lists
  cases hcur : s.mic.curBuf with
  | none =>
    have hafter : uacAudioComplete { s.mic with interrupts := false } =
        { s.mic with interrupts := false } := by
      unfold uacAudioComplete
      rw [hcur]
    unfold MicBuf.interrupt
    rw [hafter]
    exact h.goes rfl rfl rfl h.unsent h.streaming h.waiting
  | some cur =>
    have hsend : s.mic.phase ≠ .send := by
      intro hphase
      exact some_ne_none cur (hcur.symm.trans (h.unsent hphase))
    let back : MicBuf :=
      { s.mic with
        interrupts := false
        links := s.mic.links.insertBefore .listFree cur
        curBuf := none }
    have hput : Shared back.links .listFree .listUsed (dataBufs uacMicConfig.bufNum)
        (free ++ [cur]) used (s.mic.phase.held uacMicConfig.bufNum) := by
      refine hshared.put (data_buf_members _) ?_
      rw [MicBuf.out, hcur]
      exact Perm.refl _
    unfold MicBuf.interrupt
    by_cases hempty : back.links.isEmpty .listUsed = true
    · have hafter : uacAudioComplete { s.mic with interrupts := false } = back := by
        unfold uacAudioComplete
        rw [hcur]
        exact if_pos hempty
      rw [hafter]
      refine ⟨⟨free ++ [cur], used, hput, fun hcopies => ?_⟩, fun hphase => absurd hphase hsend,
        h.streaming, h.waiting,
        ⟨h.memory.frames, h.memory.alignBuf, h.memory.alignLen, h.memory.audio⟩⟩
      have hsent : s.sent ++ (if (none : Option BufNode) = s.mic.curBuf then [] else
          (none : Option BufNode).toList.map s.frames) = s.sent := by
        rw [toList_none, map_nil, ite_self, append_nil]
      refine (hstreamed hcopies).follow ?_
      show (s.sent ++ (if (none : Option BufNode) = s.mic.curBuf then [] else
        (none : Option BufNode).toList.map s.frames)) ++ _ = _
      rw [hsent]
      rfl
    · have hafter : uacAudioComplete { s.mic with interrupts := false } = sendFirst back := by
        unfold uacAudioComplete
        rw [hcur]
        exact if_neg hempty
      have hne : used ≠ [] := fun hnil => hempty (hput.pair.symm.is_empty_iff.mpr hnil)
      obtain ⟨p, rest, rfl⟩ := exists_cons_of_ne_nil hne
      have hnext : back.links.next .listUsed = p := hput.pair.symm.next_head
      have hlists : Shared (sendFirst back).links .listFree .listUsed
          (dataBufs uacMicConfig.bufNum) (free ++ [cur]) rest
          (p :: s.mic.phase.held uacMicConfig.bufNum) := by
        unfold sendFirst
        rw [hnext]
        exact hput.symm.take.symm
      have hnew : s.mic.curBuf ≠ some p := by
        rw [hcur]
        rintro heq
        obtain rfl := some.inj heq
        exact hput.pair.ne (mem_cons_of_mem _ (mem_append_right _ mem_cons_self))
          (mem_cons_of_mem _ mem_cons_self) rfl
      have hsent : (sendFirst back).curBuf = some p := congrArg some hnext
      rw [hafter]
      exact h.sent hlists hsent hnew hstreamed rfl hsend h.streaming h.waiting

/-- Every event of a stream keeps the invariant, and asks for a copy of negative length exactly if
the data does not fill the packet that is begun. -/
theorem SampleInv.step (hm : 0 < m) (hmax : m ≤ uacMicalignSize) {event : SampleEvent}
    (hstreams : Streams s event) :
    ∃ s', sampleStep m s event = some s' ∧ SampleInv m s' ∧
      ((∀ length ∈ s'.copies, 0 ≤ length) ↔
        (∀ length ∈ s.copies, 0 ≤ length) ∧ FillsPacket m s event) := by
  cases event with
  | thread => exact h.thread hm hmax hstreams
  | call interrupts audio =>
    by_cases hcall : s.mic.phase = .idle ∧ audio.length ≤ uacMicConfig.bufSize
    · obtain ⟨free, used, hshared, hstreamed⟩ := h.lists
      have haudio : s.audio = [] := by
        refine h.waiting ?_
        rw [hcall.1]
        exact nofun
      refine ⟨{ s with
        mic := { s.mic with phase := .take, interrupts, called := interrupts }
        audio, given := s.given ++ audio }, ?_, ?_, (and_iff_left trivial).symm⟩
      · unfold sampleStep copied SampleEvent.micEvent micStep
        dsimp only
        rw [if_pos hcall, map_some, if_pos hcall]
      · refine ⟨⟨free, used, ?_, fun hcopies => ?_⟩, nofun, trivial,
          fun hphase => absurd rfl hphase,
          ⟨h.memory.frames, h.memory.alignBuf, h.memory.alignLen, hcall.2⟩⟩
        · rw [MicBuf.out, hcall.1] at hshared
          exact hshared
        · have hok := hstreamed hcopies
          have hheld : s.queued used = s.sent ++ (used ++ []).map s.frames := by
            rw [queued, hcall.1]
            rfl
          constructor
          case inOrder =>
            have horder := hok.inOrder
            rw [haudio, append_nil, hheld] at horder
            show _ ++ (_ ++ audio) = s.given ++ audio
            rw [← horder, append_assoc]
            rfl
          case sizes =>
            have hsizes := hok.sizes
            rw [hheld] at hsizes
            exact hsizes
    · refine ⟨s, ?_, h, (and_iff_left trivial).symm⟩
      unfold sampleStep copied SampleEvent.micEvent micStep
      dsimp only
      rw [if_neg hcall, map_some, if_neg hcall]
  | initialised =>
    exact ⟨_, rfl, h.goes rfl rfl rfl h.unsent h.streaming h.waiting, (and_iff_left trivial).symm⟩
  | complete =>
    by_cases hfree : s.mic.Interruptible
    · refine ⟨s.follow (s.mic.interrupt uacAudioComplete), ?_, h.complete,
        (and_iff_left trivial).symm⟩
      unfold sampleStep SampleEvent.micEvent micStep
      rw [if_pos hfree]
      rfl
    · refine ⟨s.follow s.mic, ?_, h.goes rfl rfl rfl h.unsent h.streaming h.waiting,
        (and_iff_left trivial).symm⟩
      unfold sampleStep SampleEvent.micEvent micStep
      rw [if_neg hfree]
      rfl
  | reinit => exact hstreams.elim
  | status on =>
    exact ⟨_, rfl, h.goes rfl rfl rfl h.unsent h.streaming h.waiting, (and_iff_left trivial).symm⟩
  | sampleChange rate =>
    exact ⟨_, rfl, h.goes rfl rfl rfl h.unsent h.streaming h.waiting, (and_iff_left trivial).symm⟩

end

theorem samples_start_inv (hm : 0 < m) (links : Links BufNode) :
    SampleInv m (samplesStart links) := by
  have hframe : (replicate (uacMicConfig.bufSize + uacMicalignSize) (0 : Byte)).length =
      uacMicConfig.bufSize + uacMicalignSize := length_replicate
  have hshared := Shared.rebuild (data_buf_members uacMicConfig.bufNum) links
  exact ⟨⟨_, [], hshared, fun _ => ⟨rfl, nofun⟩⟩, nofun, trivial, fun _ => rfl,
    ⟨fun _ => hframe, length_replicate, hm, Nat.zero_le _⟩⟩

/-- In every run of a stream the frames carry the data in order, without a copy of negative length,
in every state, exactly if all data fills the packet that is begun. -/
theorem samples_ok_iff (hm : 0 < m) (hmax : m ≤ uacMicalignSize) {links : Links BufNode}
    {events : List SampleEvent}
    (hstreams : AllSteps (sampleStep m) Streams (samplesStart links) events) :
    (exec (sampleStep m) (samplesStart links) events).isSome ∧
      (Always (sampleStep m) (SamplesOk m) (samplesStart links) events ↔
        AllSteps (sampleStep m) (FillsPacket m) (samplesStart links) events) := by
  have hstart := samples_start_inv hm links
  obtain ⟨final, hrun, -⟩ := exec_progress (fun s event hinv hcond => by
    obtain ⟨s', hstep, hinv', -⟩ := SampleInv.step hinv hm hmax hcond
    exact ⟨s', hstep, hinv'⟩) hstart hstreams
  refine ⟨isSome_iff_exists.mpr ⟨final, hrun⟩, ?_⟩
  refine always_iff_under ?_ hstreams hstart (hstart.ok_iff.mpr nofun) hrun
  intro s event s' hcond hinv hgood hstep
  obtain ⟨s1, hstep1, hinv', hiff⟩ := hinv.step hm hmax hcond
  obtain rfl := some.inj (hstep.symm.trans hstep1)
  refine ⟨fun _ => hinv', ?_⟩
  rw [hinv'.ok_iff, hiff]
  exact and_iff_right hgood.copies

end

/-- A call with `n` bytes, all its steps, and the end of a transfer. -/
def someCall (n : Nat) : List SampleEvent :=
  .call true (replicate n 0) :: (replicate 6 .thread ++ [.complete])

theorem some_samples_ok :
    (exec (sampleStep 192) (samplesStart ⟨id, id⟩) (someCall 200 ++ someCall 184)).isSome ∧
      (Always (sampleStep 192) (SamplesOk 192) (samplesStart ⟨id, id⟩)
          (someCall 200 ++ someCall 184) ↔
        AllSteps (sampleStep 192) (FillsPacket 192) (samplesStart ⟨id, id⟩)
          (someCall 200 ++ someCall 184)) :=
  samples_ok_iff (by decide) (by decide) (by decide +kernel)

/-- 50 bytes after 100 that are carried over do not fill a packet of 192. -/
theorem short_call_copies : ∃ s,
    exec (sampleStep 192) (samplesStart ⟨id, id⟩) (someCall 100 ++ someCall 50) = some s ∧
      ¬ SamplesOk 192 s := by
  have hcopies : (exec (sampleStep 192) (samplesStart ⟨id, id⟩)
      (someCall 100 ++ someCall 50)).map MicSamples.copies = some [0, 0, 100, 100, -100, 150] := by
    decide +kernel
  obtain ⟨s, hrun, hlengths⟩ := map_eq_some_iff.mp hcopies
  refine ⟨s, hrun, fun hok => ?_⟩
  have hpositive := hok.copies (-100) (by rw [hlengths]; decide)
  exact absurd hpositive (by decide)

end FullhanRtos.Uac
