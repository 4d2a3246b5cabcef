import FullhanRtos.Uvc.Formats

/-!
# Streaming descriptors

`gen_uvc_fmt_array` of `drivers/usb/device/class/uvc_vs_desc.c` builds the class-specific streaming
descriptors of a format table in `struct uvc_fmt_array_data`: a format descriptor and ten frame
descriptors for each fourcc, and an array of pointers to the ones that are used. Each format gets
one frame descriptor more than it has frames, for the default frame.

`gen_uvc_fmt_array_eq` says when no array is left, and what is in memory then.
-/

namespace FullhanRtos.Uvc

open Function
open List hiding format
open Option hiding format

/-! ## Data -/

inductive FormatSlot where
  | nv12
  | yuy2
  | mjpg
  | h264
  | hevc
  | ir
  deriving DecidableEq

/-- Their fourcc. -/
def FormatSlot.fcc : FormatSlot → BitVec 32
  | .nv12 => v4l2PixFmtNv12
  | .yuy2 => v4l2PixFmtYuy2
  | .mjpg => v4l2PixFmtMjpeg
  | .h264 => v4l2PixFmtH264
  | .hevc => v4l2PixFmtH265
  | .ir => v4l2PixFmtIr

/-- The case of a fourcc in the switch of `deal_frms_array`. -/
def slotOf (fcc : BitVec 32) : Option FormatSlot :=
  [FormatSlot.nv12, .yuy2, .mjpg, .h264, .hevc, .ir].find? fun slot => slot.fcc = fcc

/-- The limits. -/
abbrev maxFrameDescriptorsNum : Nat := 10
abbrev maxFrameIntervalNum : Nat := 5
abbrev maxFormatDescriptorsNum : Nat := 6
abbrev totalFrameDescriptorsNum : Nat := maxFrameDescriptorsNum * maxFormatDescriptorsNum

structure FormatDescriptor where
  bFormatIndex : BitVec 8
  bNumFrameDescriptors : BitVec 8
  bDefaultFrameIndex : BitVec 8
  deriving DecidableEq

/-- A frame descriptor: `struct uvc_frm_yuv_info`, or `struct uvc_frm_h264_info`, which has
`dwBytesPerLine` in place of `dwMaxVideoFrameBufferSize`. -/
structure FrameDescriptor where
  bLength : BitVec 8
  bDescriptorType : BitVec 8
  bDescriptorSubType : BitVec 8
  bFrameIndex : BitVec 8
  wWidth : BitVec 16
  wHeight : BitVec 16
  dwMinBitRate : BitVec 32
  dwMaxBitRate : BitVec 32
  dwSize : BitVec 32
  dwDefaultFrameInterval : BitVec 32
  bFrameIntervalType : BitVec 8
  dwFrameInterval : List (BitVec 32)
  intervals_length : dwFrameInterval.length = maxFrameIntervalNum
  deriving DecidableEq

/-- A pointer in `uvc_streaming_data`. -/
inductive DescriptorPtr where
  | inputHeader
  | format (slot : FormatSlot)
  | frame (slot : FormatSlot) (i : Nat)
  | colorMatching
  deriving DecidableEq

/-- `struct uvc_fmt_array_data`, with the pointers up to `uvc_stream_idx`, and `uvc_fmt_idx`. -/
structure FmtArrayData where
  headerLength : BitVec 8
  bNumFormats : BitVec 8
  formats : FormatSlot → FormatDescriptor
  frames : FormatSlot → Nat → FrameDescriptor
  streamingData : List (Option DescriptorPtr)
  fmtIdx : Nat

def uvcFmtArray : FmtArrayData where
  headerLength := 0
  bNumFormats := 0
  formats := fun _ => ⟨0, 0, 0⟩
  frames := fun _ _ =>
    ⟨0, 0, 0, 0, 0, 0, 0, 0, 0, 0, 0, replicate maxFrameIntervalNum 0, length_replicate⟩
  streamingData := []
  fmtIdx := 1

/-! ## Frames -/

def getFrameArrayNum (frames : List FrameInfo) : Nat := min frames.length maxFrameDescriptorsNum

def getFrameIntervalsNum (frame : FrameInfo) : Nat :=
  min frame.intervalList.length maxFrameIntervalNum

/-- `UVC_DT_FRAME_UNCOMPRESSED_SIZE`, the same for all frames. -/
def frameSize (num : Nat) : Nat := 26 + 4 * num

/-- The intervals of a frame over those that were there. -/
def genIntervals (frame : FrameInfo) (old : List (BitVec 32)) : List (BitVec 32) :=
  frame.intervalList.take (getFrameIntervalsNum frame) ++ old.drop (getFrameIntervalsNum frame)

theorem gen_intervals_length (frame : FrameInfo) {old : List (BitVec 32)}
    (hold : old.length = maxFrameIntervalNum) :
    (genIntervals frame old).length = maxFrameIntervalNum := by
  rw [genIntervals, length_append, length_take, length_drop, hold, getFrameIntervalsNum]
  omega

def genFrameData (subtype : BitVec 8) (minBitRate maxBitRate size : BitVec 32)
    (old : FrameDescriptor) (idx : Nat) (frame : FrameInfo) : FrameDescriptor where
  bLength := BitVec.ofNat 8 (frameSize (getFrameIntervalsNum frame))
  bDescriptorType := 0x24
  bDescriptorSubType := subtype
  bFrameIndex := BitVec.ofNat 8 idx
  wWidth := frame.width.setWidth 16
  wHeight := frame.height.setWidth 16
  dwMinBitRate := minBitRate
  dwMaxBitRate := maxBitRate
  dwSize := size
  dwDefaultFrameInterval := frame.intervals.headD 0
  bFrameIntervalType := BitVec.ofNat 8 (getFrameIntervalsNum frame)
  dwFrameInterval := genIntervals frame old.dwFrameInterval
  intervals_length := gen_intervals_length frame old.intervals_length

def genYuvFrameData (old : FrameDescriptor) (idx : Nat) (frame : FrameInfo) : FrameDescriptor :=
  genFrameData 0x05 (frame.width * frame.height * 2 * 8 * 5)
    (frame.width * frame.height * 2 * 8 * 30) (frame.width * frame.height * 2) old idx frame

def genMjpgFrameData (old : FrameDescriptor) (idx : Nat) (frame : FrameInfo) : FrameDescriptor :=
  genFrameData 0x07 (frame.width * frame.height * 2 * 8 * 5)
    (frame.width * frame.height * 2 * 8 * 30) (frame.width * frame.height * 2) old idx frame

def genH264FrameData (old : FrameDescriptor) (idx : Nat) (frame : FrameInfo) : FrameDescriptor :=
  genFrameData 0x11 (frame.width * frame.height * 2 * 8 * 5)
    (frame.width * frame.height * 2 * 8 * 30) 0 old idx frame

def genIrFrameData (old : FrameDescriptor) (idx : Nat) (frame : FrameInfo) : FrameDescriptor :=
  genFrameData 0x11 (frame.width * frame.height * 8 * 30) (frame.width * frame.height * 8 * 30)
    ((frame.width.setWidth 16).setWidth 32) old idx frame

def FormatSlot.genFrameData : FormatSlot → FrameDescriptor → Nat → FrameInfo → FrameDescriptor
  | .nv12 | .yuy2 => genYuvFrameData
  | .mjpg => genMjpgFrameData
  | .h264 | .hevc => genH264FrameData
  | .ir => genIrFrameData

/-! ## The arrays -/

/-- `uvc_stream_append_data`: `none` at the assertion. -/
def FmtArrayData.append (data : FmtArrayData) (ptr : Option DescriptorPtr) : Option FmtArrayData :=
  if totalFrameDescriptorsNum < data.streamingData.length + 1 then none
  else some { data with streamingData := data.streamingData ++ [ptr] }

/-- Fill the frame descriptor with an index: `none` behind the array. -/
def FmtArrayData.genFrame (data : FmtArrayData) (slot : FormatSlot) (i : Nat) (frame : FrameInfo) :
    Option FmtArrayData :=
  if i < maxFrameDescriptorsNum then
    some
      { data with
        frames := update data.frames slot (update (data.frames slot) i
          (slot.genFrameData (data.frames slot i) (i + 1) frame)) }
  else none

/-- The loop over the frames. -/
def genFrames (slot : FormatSlot) : Nat → List FrameInfo → FmtArrayData → Option FmtArrayData
  | _, [], data => some data
  | i, frame :: frames, data =>
    (data.genFrame slot i frame).bind fun data =>
      (data.append (some (.frame slot i))).bind (genFrames slot (i + 1) frames)

def FmtArrayData.setFormat (data : FmtArrayData) (slot : FormatSlot) (num default : Nat) :
    FmtArrayData :=
  { data with
    formats := update data.formats slot
      ⟨BitVec.ofNat 8 data.fmtIdx, BitVec.ofNat 8 num, BitVec.ofNat 8 default⟩
    fmtIdx := data.fmtIdx + 1 }

def dealSlot (slot : FormatSlot) (frames : List FrameInfo) (frmNum defaultindex : Nat)
    (data : FmtArrayData) : Option FmtArrayData :=
  (data.append (some (.format slot))).bind fun data =>
    (genFrames slot 0 (frames.take frmNum) (data.setFormat slot (frmNum + 1) defaultindex)).bind
      fun data =>
        -- `pFrms + defaultindex - 1`
        (entryAt frames defaultindex).bind fun frame =>
          (data.genFrame slot frmNum frame).bind fun data =>
            data.append (some (.frame slot frmNum))

/-- The case of `V4L2_PIX_FMT_IR`, which counts its frames only, does not fill the last descriptor,
and has the first frame as default. -/
def dealIr (frames : List FrameInfo) (frmNum : Nat) (data : FmtArrayData) : Option FmtArrayData :=
  (data.append (some (.format .ir))).bind fun data =>
    (genFrames .ir 0 (frames.take frmNum) (data.setFormat .ir frmNum 1)).bind fun data =>
      if frmNum < maxFrameDescriptorsNum then data.append (some (.frame .ir frmNum)) else none

def dealFrmsArray (format : FormatInfo) (data : FmtArrayData) : Option FmtArrayData :=
  let frmNum := getFrameArrayNum format.frames
  if frmNum = 0 then some data
  else
    let defaultindex := min format.defaultindex.toNat frmNum
    match slotOf format.fcc with
    | none => some data
    | some .ir => dealIr format.frames frmNum data
    | some slot => dealSlot slot format.frames frmNum defaultindex data

/-- The loop over the formats. -/
def genFormats : List FormatInfo → FmtArrayData → Option FmtArrayData
  | [], data => some data
  | format :: formats, data =>
    (dealFrmsArray format data).bind fun data =>
      (data.append (some .colorMatching)).bind (genFormats formats)

def formatTemplate : FormatSlot → FormatDescriptor
  | .nv12 | .yuy2 | .mjpg => ⟨1, 3, 1⟩
  | .h264 | .hevc | .ir => ⟨1, 1, 1⟩

def inputHeaderSize (p : Nat) : Nat := 13 + p

def genUvcFmtArray (old : FmtArrayData) (table : List FormatInfo) : Option FmtArrayData :=
  let data : FmtArrayData :=
    { headerLength := BitVec.ofNat 8 (inputHeaderSize table.length)
      bNumFormats := BitVec.ofNat 8 table.length
      formats := formatTemplate
      frames := old.frames
      streamingData := []
      fmtIdx := 1 }
  (data.append (some .inputHeader)).bind fun data =>
    (genFormats table data).bind fun data => data.append none

/-! ## What is written -/

def FormatInfo.slot (format : FormatInfo) : Option FormatSlot :=
  if format.frames = [] then none else slotOf format.fcc

/-- `bNumFrameDescriptors` and `bDefaultFrameIndex`. -/
def FormatInfo.num (format : FormatInfo) (slot : FormatSlot) : Nat :=
  if slot = .ir then format.frames.length else format.frames.length + 1

def FormatInfo.default (format : FormatInfo) (slot : FormatSlot) : Nat :=
  if slot = .ir then 1 else min format.defaultindex.toNat format.frames.length

def FormatInfo.rows (format : FormatInfo) (slot : FormatSlot) : List FrameInfo :=
  if slot = .ir then format.frames
  else format.frames ++ (entryAt format.frames (format.default slot)).toList

def framePtrs (slot : FormatSlot) (i n : Nat) : List (Option DescriptorPtr) :=
  (range' i n).map fun i => some (.frame slot i)

/-- The frame descriptors stay in their array, and the default frame is there. -/
structure FormatFits (format : FormatInfo) (slot : FormatSlot) : Prop where
  frames : format.frames.length < maxFrameDescriptorsNum
  default : slot ≠ .ir → format.defaultindex ≠ 0#32

def writeFrames (slot : FormatSlot) : Nat → List FrameInfo →
    (FormatSlot → Nat → FrameDescriptor) → FormatSlot → Nat → FrameDescriptor
  | _, [], frames => frames
  | i, frame :: rest, frames =>
    writeFrames slot (i + 1) rest
      (update frames slot (update (frames slot) i
        (slot.genFrameData (frames slot i) (i + 1) frame)))

def FmtArrayData.writeFormat (data : FmtArrayData) (slot : FormatSlot) (format : FormatInfo) :
    FmtArrayData :=
  { data.setFormat slot (format.num slot) (format.default slot) with
    frames := writeFrames slot 0 (format.rows slot) data.frames
    streamingData := data.streamingData ++
      some (.format slot) :: framePtrs slot 0 (format.frames.length + 1) }

section

variable {data data' : FmtArrayData} {slot : FormatSlot} {format : FormatInfo}
  {frames rest : List FrameInfo} {i : Nat} {ptr : Option DescriptorPtr}

theorem append_eq_some : data.append ptr = some data' ↔
    data.streamingData.length + 1 ≤ totalFrameDescriptorsNum ∧
      data' = { data with streamingData := data.streamingData ++ [ptr] } := by
  unfold FmtArrayData.append
  split
  case isTrue h => exact ⟨fun h' => absurd h'.symm (some_ne_none _), fun h' => by omega⟩
  case isFalse h =>
    rw [some.injEq, eq_comm]
    exact ⟨fun h' => ⟨by omega, h'⟩, fun h' => h'.2⟩

theorem gen_frame_eq_some {frame : FrameInfo} : data.genFrame slot i frame = some data' ↔
    i < maxFrameDescriptorsNum ∧
      data' = { data with frames := writeFrames slot i [frame] data.frames } := by
  unfold FmtArrayData.genFrame
  split
  case isTrue h =>
    rw [some.injEq, eq_comm]
    exact ⟨fun h' => ⟨h, h'⟩, fun h' => h'.2⟩
  case isFalse h => exact ⟨fun h' => absurd h'.symm (some_ne_none _), fun h' => absurd h'.1 h⟩

theorem write_frames_append (old : FormatSlot → Nat → FrameDescriptor) :
    writeFrames slot i (frames ++ rest) old =
      writeFrames slot (i + frames.length) rest (writeFrames slot i frames old) := by
  induction frames generalizing i old with
  | nil => rfl
  | cons frame frames ih =>
    rw [cons_append, writeFrames, ih, length_cons, writeFrames, Nat.add_right_comm, add_assoc]

theorem frame_ptrs_length (slot : FormatSlot) (i n : Nat) : (framePtrs slot i n).length = n := by
  rw [framePtrs, length_map, length_range']

theorem gen_frames_eq_some (hi : i ≤ maxFrameDescriptorsNum)
    (hlen : data.streamingData.length ≤ totalFrameDescriptorsNum) :
    genFrames slot i frames data = some data' ↔
      i + frames.length ≤ maxFrameDescriptorsNum ∧
        data.streamingData.length + frames.length ≤ totalFrameDescriptorsNum ∧
        data' =
          { data with
            frames := writeFrames slot i frames data.frames
            streamingData := data.streamingData ++ framePtrs slot i frames.length } := by
  induction frames generalizing i data with
  | nil =>
    rw [genFrames, some.injEq, eq_comm]
    have hnil : data.streamingData ++ framePtrs slot i 0 = data.streamingData := append_nil _
    refine ⟨fun h => ⟨hi, hlen, ?_⟩, fun h => ?_⟩
    · rw [h, length_nil, hnil]
      rfl
    · rw [h.2.2, length_nil, hnil]
      rfl
  | cons frame frames ih =>
    rw [genFrames, bind_eq_some_iff]
    simp only [gen_frame_eq_some, bind_eq_some_iff, append_eq_some]
    constructor
    · rintro ⟨-, ⟨hi', rfl⟩, -, ⟨hroom, rfl⟩, hrest⟩
      rw [ih hi' (by rw [length_append]; exact hroom)] at hrest
      obtain ⟨hframes, hptrs, rfl⟩ := hrest
      rw [length_append, length_singleton] at hptrs
      dsimp only at hptrs
      refine ⟨by rw [length_cons]; omega, by rw [length_cons]; omega, ?_⟩
      rw [append_assoc]
      rfl
    · rintro ⟨hframes, hptrs, rfl⟩
      rw [length_cons] at hframes hptrs
      have hroom : data.streamingData.length + 1 ≤ totalFrameDescriptorsNum := by omega
      have hlen' : (data.streamingData ++ [some (DescriptorPtr.frame slot i)]).length ≤
          totalFrameDescriptorsNum := by
        rw [length_append]
        exact hroom
      refine ⟨_, ⟨by omega, rfl⟩, _, ⟨hroom, rfl⟩, ?_⟩
      rw [ih (by omega) hlen']
      refine ⟨by omega, ?_, ?_⟩
      · rw [length_append, length_singleton]
        dsimp only
        omega
      · rw [append_assoc]
        rfl

theorem frame_ptrs_last (slot : FormatSlot) (n : Nat) :
    framePtrs slot 0 (n + 1) = framePtrs slot 0 n ++ [some (.frame slot n)] := by
  unfold framePtrs
  rw [range'_concat, map_append, one_mul, zero_add]
  rfl

/-- The frames of a format that fits are all there. -/
theorem take_frames (h : min frames.length maxFrameDescriptorsNum < maxFrameDescriptorsNum) :
    min frames.length maxFrameDescriptorsNum = frames.length ∧
      frames.take (min frames.length maxFrameDescriptorsNum) = frames := by
  have hmin : min frames.length maxFrameDescriptorsNum = frames.length := by omega
  exact ⟨hmin, by rw [hmin, take_length]⟩

theorem entry_at_isSome (index : Nat) (hle : index ≤ frames.length) :
    (∃ frame, entryAt frames index = some frame) ↔ index ≠ 0 := by
  unfold entryAt
  split
  case isTrue h => exact ⟨fun ⟨_, h'⟩ => absurd h'.symm (some_ne_none _), fun h' => absurd h h'⟩
  case isFalse h =>
    have hlt : index - 1 < frames.length := by omega
    exact ⟨fun _ => h, fun _ => ⟨_, getElem?_eq_getElem hlt⟩⟩

theorem dealt_room_iff (ptrs : List (Option DescriptorPtr)) (slot : FormatSlot) (n : Nat) :
    ((ptrs ++ [some (DescriptorPtr.format slot)]).length ≤ totalFrameDescriptorsNum ∧
      (ptrs ++ [some (DescriptorPtr.format slot)]).length + n ≤ totalFrameDescriptorsNum ∧
      (ptrs ++ [some (DescriptorPtr.format slot)] ++ framePtrs slot 0 n).length + 1 ≤
        totalFrameDescriptorsNum) ↔ ptrs.length + n + 2 ≤ totalFrameDescriptorsNum := by
  simp only [length_append, frame_ptrs_length, length_singleton]
  omega

theorem rows_eq (hslot : slot ≠ .ir) {frame : FrameInfo}
    (hframe : entryAt format.frames (min format.defaultindex.toNat format.frames.length) =
      some frame) : format.rows slot = format.frames ++ [frame] := by
  rw [FormatInfo.rows, if_neg hslot, FormatInfo.default, if_neg hslot, hframe]
  rfl

theorem write_slot_eq (hslot : slot ≠ .ir) {frame : FrameInfo}
    (hframe : entryAt format.frames (min format.defaultindex.toNat format.frames.length) =
      some frame) :
    { data.setFormat slot (format.frames.length + 1)
        (min format.defaultindex.toNat format.frames.length) with
      frames := writeFrames slot format.frames.length [frame]
        (writeFrames slot 0 format.frames data.frames)
      streamingData := data.streamingData ++ [some (.format slot)] ++
        framePtrs slot 0 format.frames.length ++ [some (.frame slot format.frames.length)] } =
      data.writeFormat slot format := by
  have hframes : writeFrames slot 0 (format.rows slot) data.frames =
      writeFrames slot format.frames.length [frame]
        (writeFrames slot 0 format.frames data.frames) := by
    rw [rows_eq hslot hframe, write_frames_append, zero_add]
  unfold FmtArrayData.writeFormat
  rw [hframes, frame_ptrs_last, FormatInfo.num, if_neg hslot, FormatInfo.default, if_neg hslot,
    append_assoc, append_assoc]
  rfl

theorem deal_slot_eq_some (hslot : slot ≠ .ir) (hne : format.frames ≠ []) :
    dealSlot slot format.frames (getFrameArrayNum format.frames)
        (min format.defaultindex.toNat (getFrameArrayNum format.frames)) data = some data' ↔
      FormatFits format slot ∧
        data.streamingData.length + format.frames.length + 2 ≤ totalFrameDescriptorsNum ∧
        data' = data.writeFormat slot format := by
  have hpos : 0 < format.frames.length := length_pos_iff.mpr hne
  have hdefault : (∃ frame, entryAt format.frames
      (min format.defaultindex.toNat format.frames.length) = some frame) ↔
        format.defaultindex ≠ 0#32 := by
    have hzero : format.defaultindex = 0#32 ↔ format.defaultindex.toNat = 0 := BitVec.toNat_inj.symm
    rw [entry_at_isSome _ (Nat.min_le_right _ _), ne_eq, ne_eq, hzero]
    omega
  unfold dealSlot getFrameArrayNum
  simp only [bind_eq_some_iff, append_eq_some, gen_frame_eq_some]
  constructor
  · rintro ⟨-, ⟨hformat, rfl⟩, data1, hframes, frame, hframe, -, ⟨hlast, rfl⟩, hroom, rfl⟩
    obtain ⟨hmin, htake⟩ := take_frames hlast
    rw [htake, hmin] at hframes
    rw [hmin] at hlast hframe ⊢
    have hlen : (data.streamingData ++ [some (DescriptorPtr.format slot)]).length ≤
        totalFrameDescriptorsNum := length_append.trans_le hformat
    obtain ⟨-, hptrs, rfl⟩ := (gen_frames_eq_some (Nat.zero_le _) hlen).mp hframes
    have hall := (dealt_room_iff data.streamingData slot _).mp ⟨hlen, hptrs, hroom⟩
    refine ⟨⟨hlast, fun _ => hdefault.mp ⟨frame, hframe⟩⟩, hall, ?_⟩
    exact (write_slot_eq hslot hframe : _ = data.writeFormat slot format)
  · rintro ⟨hfits, hroom, rfl⟩
    obtain ⟨frame, hframe⟩ := hdefault.mpr (hfits.default hslot)
    have hmin : min format.frames.length maxFrameDescriptorsNum = format.frames.length :=
      Nat.min_eq_left (le_of_lt hfits.frames)
    obtain ⟨hlen, hptrs, hlast⟩ := (dealt_room_iff data.streamingData slot _).mpr hroom
    rw [hmin, take_length]
    refine ⟨_, ⟨by omega, rfl⟩, _, (gen_frames_eq_some (Nat.zero_le _) hlen).mpr
      ⟨by have := hfits.frames; omega, hptrs, rfl⟩, frame, hframe, _, ⟨hfits.frames, rfl⟩,
        hlast, ?_⟩
    exact (write_slot_eq hslot hframe : _ = data.writeFormat slot format).symm

theorem deal_ir_eq_some :
    dealIr format.frames (getFrameArrayNum format.frames) data = some data' ↔
      FormatFits format .ir ∧
        data.streamingData.length + format.frames.length + 2 ≤ totalFrameDescriptorsNum ∧
        data' = data.writeFormat .ir format := by
  have hwrite : { data.setFormat .ir format.frames.length 1 with
      frames := writeFrames .ir 0 format.frames data.frames
      streamingData := data.streamingData ++ [some (.format .ir)] ++
        framePtrs .ir 0 format.frames.length ++ [some (.frame .ir format.frames.length)] } =
      data.writeFormat .ir format := by
    unfold FmtArrayData.writeFormat
    rw [frame_ptrs_last, append_assoc, append_assoc]
    rfl
  unfold dealIr getFrameArrayNum
  simp only [bind_eq_some_iff, append_eq_some]
  constructor
  · rintro ⟨-, ⟨hformat, rfl⟩, data1, hframes, hlast⟩
    split at hlast
    case isFalse => exact absurd hlast.symm (some_ne_none _)
    case isTrue hlt =>
      obtain ⟨hmin, htake⟩ := take_frames hlt
      obtain ⟨hroom, rfl⟩ := append_eq_some.mp hlast
      rw [htake, hmin] at hframes
      rw [hmin] at hlt ⊢
      have hlen : (data.streamingData ++ [some (DescriptorPtr.format .ir)]).length ≤
          totalFrameDescriptorsNum := length_append.trans_le hformat
      obtain ⟨-, hptrs, rfl⟩ := (gen_frames_eq_some (Nat.zero_le _) hlen).mp hframes
      have hall := (dealt_room_iff data.streamingData .ir _).mp ⟨hlen, hptrs, hroom⟩
      exact ⟨⟨hlt, fun h => absurd rfl h⟩, hall, hwrite⟩
  · rintro ⟨hfits, hroom, rfl⟩
    have hmin : min format.frames.length maxFrameDescriptorsNum = format.frames.length :=
      Nat.min_eq_left (le_of_lt hfits.frames)
    obtain ⟨hlen, hptrs, hlast⟩ := (dealt_room_iff data.streamingData .ir _).mpr hroom
    rw [hmin, take_length]
    refine ⟨_, ⟨by omega, rfl⟩, _, (gen_frames_eq_some (Nat.zero_le _) hlen).mpr
      ⟨by have := hfits.frames; omega, hptrs, rfl⟩, ?_⟩
    rw [if_pos hfits.frames]
    exact append_eq_some.mpr ⟨hlast, hwrite.symm⟩

theorem slot_eq_some : format.slot = some slot ↔
    format.frames ≠ [] ∧ slotOf format.fcc = some slot := by
  unfold FormatInfo.slot
  split
  case isTrue h => exact ⟨fun h' => absurd h'.symm (some_ne_none _), fun h' => absurd h h'.1⟩
  case isFalse h => exact ⟨fun h' => ⟨h, h'⟩, fun h' => h'.2⟩

theorem frame_array_num_ne (hne : frames ≠ []) : getFrameArrayNum frames ≠ 0 := by
  have hpos : 0 < frames.length := length_pos_iff.mpr hne
  have hmax : 0 < maxFrameDescriptorsNum := Nat.succ_pos 9
  rw [getFrameArrayNum]
  omega

/-- A format without frames, or with another fourcc, is left out. -/
theorem deal_none (h : format.slot = none) : dealFrmsArray format data = some data := by
  unfold dealFrmsArray
  by_cases hnil : format.frames = []
  · rw [hnil]
    rfl
  · rw [FormatInfo.slot, if_neg hnil] at h
    rw [if_neg (frame_array_num_ne hnil), h]

theorem deal_some (h : format.slot = some slot) : dealFrmsArray format data = some data' ↔
    FormatFits format slot ∧
      data.streamingData.length + format.frames.length + 2 ≤ totalFrameDescriptorsNum ∧
      data' = data.writeFormat slot format := by
  obtain ⟨hne, hslot⟩ := slot_eq_some.mp h
  unfold dealFrmsArray
  rw [if_neg (frame_array_num_ne hne), hslot]
  cases slot with
  | ir => exact deal_ir_eq_some
  | _ => exact deal_slot_eq_some FormatSlot.noConfusion hne

end

/-! ## The whole table -/

/-- The pointers that a format takes, with the colour matching descriptor. -/
def FormatInfo.ptrCount (format : FormatInfo) : Nat :=
  match format.slot with
  | none => 1
  | some _ => format.frames.length + 3

/-- The descriptors of a format, and the colour matching descriptor. -/
def FmtArrayData.addFormat (data : FmtArrayData) (format : FormatInfo) : FmtArrayData :=
  let next :=
    match format.slot with
    | none => data
    | some slot => data.writeFormat slot format
  { next with streamingData := next.streamingData ++ [some .colorMatching] }

/-- The arrays have room for the table. -/
structure TableFits (table : List FormatInfo) : Prop where
  formats : ∀ format ∈ table, ∀ slot ∈ format.slot, FormatFits format slot
  ptrs : 2 + (table.map FormatInfo.ptrCount).sum ≤ totalFrameDescriptorsNum

/-- Before the first format. -/
def FmtArrayData.start (old : FmtArrayData) (table : List FormatInfo) : FmtArrayData where
  headerLength := BitVec.ofNat 8 (inputHeaderSize table.length)
  bNumFormats := BitVec.ofNat 8 table.length
  formats := formatTemplate
  frames := old.frames
  streamingData := [some .inputHeader]
  fmtIdx := 1

/-- The descriptors of a table that fits. -/
def FmtArrayData.built (old : FmtArrayData) (table : List FormatInfo) : FmtArrayData :=
  let data := table.foldl FmtArrayData.addFormat (old.start table)
  { data with streamingData := data.streamingData ++ [none] }

section

variable {data data' old : FmtArrayData} {table : List FormatInfo} {format : FormatInfo}

theorem add_format_length (data : FmtArrayData) (format : FormatInfo) :
    (data.addFormat format).streamingData.length = data.streamingData.length + format.ptrCount := by
  unfold FmtArrayData.addFormat FormatInfo.ptrCount
  cases format.slot with
  | none => exact length_append
  | some slot =>
    dsimp only [FmtArrayData.writeFormat]
    rw [length_append, length_append, length_cons, frame_ptrs_length, length_singleton]
    omega

theorem add_format_eq_some :
    ((dealFrmsArray format data).bind fun data => data.append (some .colorMatching)) = some data' ↔
      (∀ slot ∈ format.slot, FormatFits format slot) ∧
        data.streamingData.length + format.ptrCount ≤ totalFrameDescriptorsNum ∧
        data' = data.addFormat format := by
  rw [bind_eq_some_iff]
  unfold FormatInfo.ptrCount FmtArrayData.addFormat
  cases hslot : format.slot with
  | none =>
    simp only [deal_none hslot, some.injEq, exists_eq_left', append_eq_some]
    exact ⟨fun h => ⟨fun _ h' => absurd h'.symm (some_ne_none _), h⟩, fun h => h.2⟩
  | some slot =>
    simp only [deal_some hslot, append_eq_some]
    have hlen : (data.writeFormat slot format).streamingData.length =
        data.streamingData.length + (format.frames.length + 2) := by
      dsimp only [FmtArrayData.writeFormat]
      rw [length_append, length_cons, frame_ptrs_length]
    constructor
    · rintro ⟨-, ⟨hfits, -, rfl⟩, hroom, rfl⟩
      refine ⟨fun slot' h' => ?_, by omega, rfl⟩
      obtain rfl := some.inj h'
      exact hfits
    · rintro ⟨hfits, hroom, rfl⟩
      exact ⟨_, ⟨hfits slot rfl, by omega, rfl⟩, by omega, rfl⟩

theorem gen_formats_eq_some (hlen : data.streamingData.length ≤ totalFrameDescriptorsNum) :
    genFormats table data = some data' ↔
      (∀ format ∈ table, ∀ slot ∈ format.slot, FormatFits format slot) ∧
        data.streamingData.length + (table.map FormatInfo.ptrCount).sum ≤ totalFrameDescriptorsNum ∧
        data' = table.foldl FmtArrayData.addFormat data := by
  induction table generalizing data with
  | nil =>
    rw [genFormats, some.injEq, eq_comm]
    exact ⟨fun h => ⟨fun _ h' => absurd h' not_mem_nil, hlen, h⟩, fun h => h.2.2⟩
  | cons format table ih =>
    have hassoc : genFormats (format :: table) data =
        ((dealFrmsArray format data).bind fun data => data.append (some .colorMatching)).bind
          (genFormats table) := by
      rw [genFormats, bind_assoc]
    rw [hassoc, bind_eq_some_iff]
    simp only [add_format_eq_some, map_cons, sum_cons, foldl_cons, forall_mem_cons]
    constructor
    · rintro ⟨-, ⟨hfits, hroom, rfl⟩, hrest⟩
      have hlen' := add_format_length data format
      obtain ⟨hfits', hroom', rfl⟩ := (ih (by omega)).mp hrest
      exact ⟨⟨hfits, hfits'⟩, by omega, rfl⟩
    · rintro ⟨⟨hfits, hfits'⟩, hroom, rfl⟩
      have hlen' := add_format_length data format
      refine ⟨_, ⟨hfits, by omega, rfl⟩, ?_⟩
      exact (ih (by omega)).mpr ⟨hfits', by omega, rfl⟩

theorem built_length (data : FmtArrayData) (table : List FormatInfo) :
    (table.foldl FmtArrayData.addFormat data).streamingData.length =
      data.streamingData.length + (table.map FormatInfo.ptrCount).sum := by
  induction table generalizing data with
  | nil => rfl
  | cons format table ih =>
    rw [foldl_cons, ih, add_format_length, map_cons, sum_cons, add_assoc]

theorem gen_uvc_fmt_array_eq : genUvcFmtArray old table = some data ↔
    TableFits table ∧ data = old.built table := by
  have hone : (1 : Nat) ≤ totalFrameDescriptorsNum := Nat.le_add_left 1 59
  have hstart : genUvcFmtArray old table =
      (genFormats table (old.start table)).bind fun data => data.append none := rfl
  rw [hstart, bind_eq_some_iff]
  simp only [gen_formats_eq_some (show (old.start table).streamingData.length ≤ _ from hone),
    append_eq_some]
  have hlen := built_length (old.start table) table
  have hheader : (old.start table).streamingData.length = 1 := rfl
  constructor
  · rintro ⟨-, ⟨hfits, -, rfl⟩, hroom, rfl⟩
    exact ⟨⟨hfits, by omega⟩, rfl⟩
  · rintro ⟨⟨hfits, hroom⟩, rfl⟩
    exact ⟨_, ⟨hfits, by omega, rfl⟩, by omega, rfl⟩

end

/-! ## The memory -/

def Describes (slot : FormatSlot) (i : Nat) (frame : FrameInfo) (desc : FrameDescriptor) : Prop :=
  ∃ old, desc = slot.genFrameData old (i + 1) frame

def lastRow : List FormatInfo → FormatSlot → Nat → Option FrameInfo
  | [], _, _ => none
  | format :: table, slot, i =>
    (lastRow table slot i).or (if format.slot = some slot then (format.rows slot)[i]? else none)

def lastFormat : List FormatInfo → Nat → FormatSlot → Option (Nat × FormatInfo)
  | [], _, _ => none
  | format :: table, idx, slot =>
    (lastFormat table (if format.slot.isSome then idx + 1 else idx) slot).or
      (if format.slot = some slot then some (idx, format) else none)

def FormatInfo.ptrs (format : FormatInfo) : List (Option DescriptorPtr) :=
  match format.slot with
  | none => [some .colorMatching]
  | some slot =>
    some (.format slot) :: framePtrs slot 0 (format.frames.length + 1) ++ [some .colorMatching]

section

variable {slot slot' : FormatSlot} {i j : Nat} {frame : FrameInfo} {rows : List FrameInfo}
  {old : FormatSlot → Nat → FrameDescriptor} {data : FmtArrayData} {format : FormatInfo}
  {table : List FormatInfo}

theorem write_frames_other (h : slot' ≠ slot) : writeFrames slot i rows old slot' = old slot' := by
  induction rows generalizing i old with
  | nil => rfl
  | cons frame rows ih => rw [writeFrames, ih, update_of_ne h]

theorem write_frames_outside (h : j < i ∨ i + rows.length ≤ j) :
    writeFrames slot i rows old slot j = old slot j := by
  induction rows generalizing i old with
  | nil => rfl
  | cons frame rows ih =>
    rw [length_cons] at h
    have hne : j ≠ i := by omega
    rw [writeFrames, ih (by omega), update_self, update_of_ne hne]

/-- A descriptor that is filled. -/
theorem write_frames_describes (h : rows[j]? = some frame) :
    Describes slot (i + j) frame (writeFrames slot i rows old slot (i + j)) := by
  induction rows generalizing i j old with
  | nil => exact absurd h.symm (some_ne_none _)
  | cons row rows ih =>
    cases j with
    | zero =>
      obtain rfl : row = frame := some.inj h
      rw [writeFrames, add_zero, write_frames_outside (.inl (Nat.lt_succ_self i)),
        update_self, update_self]
      exact ⟨_, rfl⟩
    | succ j =>
      have hindex : i + (j + 1) = i + 1 + j := by omega
      rw [writeFrames, hindex]
      exact ih h

theorem add_format_frames (data : FmtArrayData) (format : FormatInfo) (slot : FormatSlot)
    (i : Nat) :
    match if format.slot = some slot then (format.rows slot)[i]? else none with
    | some frame => Describes slot i frame ((data.addFormat format).frames slot i)
    | none => (data.addFormat format).frames slot i = data.frames slot i := by
  unfold FmtArrayData.addFormat
  cases hslot : format.slot with
  | none =>
    rw [if_neg (some_ne_none slot).symm]
  | some slot' =>
    by_cases heq : some slot' = some slot
    · rw [if_pos heq]
      obtain rfl := some.inj heq
      cases hrow : (format.rows slot')[i]? with
      | none =>
        have hlen := List.getElem?_eq_none_iff.mp hrow
        exact write_frames_outside (.inr (by rwa [zero_add]))
      | some frame =>
        have hdescribes : Describes slot' (0 + i) frame
            (writeFrames slot' 0 (format.rows slot') data.frames slot' (0 + i)) :=
          write_frames_describes hrow
        rwa [zero_add] at hdescribes
    · rw [if_neg heq]
      have hne : slot ≠ slot' := fun h => heq (h ▸ rfl)
      exact congrFun (write_frames_other hne) i

theorem built_frames (data : FmtArrayData) (table : List FormatInfo) (slot : FormatSlot) (i : Nat) :
    match lastRow table slot i with
    | some frame =>
      Describes slot i frame ((table.foldl FmtArrayData.addFormat data).frames slot i)
    | none => (table.foldl FmtArrayData.addFormat data).frames slot i = data.frames slot i := by
  induction table generalizing data with
  | nil => rfl
  | cons format table ih =>
    have hrest := ih (data.addFormat format)
    have hformat := add_format_frames data format slot i
    rw [foldl_cons, lastRow]
    cases hlast : lastRow table slot i with
    | some frame =>
      rw [hlast] at hrest
      exact hrest
    | none =>
      rw [hlast] at hrest
      rw [hrest]
      exact hformat

theorem built_formats (data : FmtArrayData) (table : List FormatInfo) (slot : FormatSlot) :
    (table.foldl FmtArrayData.addFormat data).formats slot =
      match lastFormat table data.fmtIdx slot with
      | some (idx, format) =>
        ⟨BitVec.ofNat 8 idx, BitVec.ofNat 8 (format.num slot), BitVec.ofNat 8 (format.default slot)⟩
      | none => data.formats slot := by
  induction table generalizing data with
  | nil => rfl
  | cons format table ih =>
    have hidx : (data.addFormat format).fmtIdx =
        if format.slot.isSome then data.fmtIdx + 1 else data.fmtIdx := by
      unfold FmtArrayData.addFormat
      cases format.slot <;> rfl
    rw [foldl_cons, ih, hidx, lastFormat]
    cases lastFormat table (if format.slot.isSome then data.fmtIdx + 1 else data.fmtIdx) slot with
    | some last => rfl
    | none =>
      rw [none_or]
      unfold FmtArrayData.addFormat
      cases hslot : format.slot with
      | none => rw [if_neg (some_ne_none slot).symm]
      | some slot' =>
        dsimp only [FmtArrayData.writeFormat, FmtArrayData.setFormat]
        by_cases heq : some slot' = some slot
        · obtain rfl := some.inj heq
          rw [if_pos rfl, update_self]
        · have hne : slot ≠ slot' := fun h => heq (h ▸ rfl)
          rw [if_neg heq, update_of_ne hne]

theorem built_ptrs (data : FmtArrayData) (table : List FormatInfo) :
    (table.foldl FmtArrayData.addFormat data).streamingData =
      data.streamingData ++ table.flatMap FormatInfo.ptrs := by
  induction table generalizing data with
  | nil => exact (append_nil _).symm
  | cons format table ih =>
    have hformat : (data.addFormat format).streamingData =
        data.streamingData ++ format.ptrs := by
      unfold FmtArrayData.addFormat FormatInfo.ptrs
      cases format.slot with
      | none => rfl
      | some slot => exact append_assoc _ _ _
    rw [foldl_cons, ih, hformat, flatMap_cons, append_assoc]

theorem built_header (data : FmtArrayData) (table : List FormatInfo) :
    (table.foldl FmtArrayData.addFormat data).headerLength = data.headerLength ∧
      (table.foldl FmtArrayData.addFormat data).bNumFormats = data.bNumFormats := by
  induction table generalizing data with
  | nil => exact ⟨rfl, rfl⟩
  | cons format table ih =>
    have hformat : (data.addFormat format).headerLength = data.headerLength ∧
        (data.addFormat format).bNumFormats = data.bNumFormats := by
      unfold FmtArrayData.addFormat
      cases format.slot <;> exact ⟨rfl, rfl⟩
    rw [foldl_cons, (ih _).1, (ih _).2]
    exact hformat

end

end FullhanRtos.Uvc
