import FullhanRtos.Uvc.Requests

/-!
# Format tables and negotiation

The tables that the application gives to `fh_uvc_init`, and the part of
`uvc_events_process_vs_data` of `drivers/usb/device/class/libuvc.c` for probe and commit: the format
and the frame are those with the indices of the request, moved into the range of the table, and the
interval is the first one that is not below the one of the request.

`negotiate_mem` says what is selected when it is in the table.
-/

namespace FullhanRtos.Uvc

open List Option

/-! ## Tables -/

def v4l2Fourcc (a b c d : Char) : BitVec 32 :=
  BitVec.ofNat 32 (a.toNat ||| b.toNat <<< 8 ||| c.toNat <<< 16 ||| d.toNat <<< 24)

/-- `UVC_FORMAT`. -/
abbrev v4l2PixFmtNv12 : BitVec 32 := v4l2Fourcc 'N' 'V' '1' '2'
abbrev v4l2PixFmtYuy2 : BitVec 32 := v4l2Fourcc 'Y' 'U' 'Y' '2'
abbrev v4l2PixFmtMjpeg : BitVec 32 := v4l2Fourcc 'M' 'J' 'P' 'G'
abbrev v4l2PixFmtH264 : BitVec 32 := v4l2Fourcc 'H' '2' '6' '4'
abbrev v4l2PixFmtH265 : BitVec 32 := v4l2Fourcc 'H' '2' '6' '5'
abbrev v4l2PixFmtIr : BitVec 32 := v4l2Fourcc 'Y' 'U' 'V' '8'

/-- `struct uvc_frame_info`. The intervals end at the first 0. -/
structure FrameInfo where
  width : BitVec 32
  height : BitVec 32
  intervals : List (BitVec 32)
  altSet : BitVec 32
  width_ne : width ≠ 0#32
  intervals_length : intervals.length = 8
  terminated : 0#32 ∈ intervals
  deriving DecidableEq

/-- `struct uvc_format_info`, with the frames before the one of width 0. -/
structure FormatInfo where
  fcc : BitVec 32
  frames : List FrameInfo
  defaultindex : BitVec 32
  deriving DecidableEq

/-- The intervals before the first 0. -/
def FrameInfo.intervalList (frame : FrameInfo) : List (BitVec 32) :=
  frame.intervals.takeWhile (· ≠ 0#32)

/-! ## Negotiation -/

def clamp (val min max : Nat) : Nat :=
  let val := if val < min then min else val
  if max < val then max else val

/-- What `uvc_events_process_vs_data` reads of a `struct uvc_streaming_control`, and writes. -/
structure StreamingControl where
  bFormatIndex : BitVec 8
  bFrameIndex : BitVec 8
  dwFrameInterval : BitVec 32
  dwMaxVideoFrameSize : BitVec 32
  dwMaxPayloadTransferSize : BitVec 32

def streamingControl (data : List Byte) : StreamingControl where
  bFormatIndex := BitVec.ofNat 8 (byteAt data 2)
  bFrameIndex := BitVec.ofNat 8 (byteAt data 3)
  dwFrameInterval := BitVec.ofNat 32 (leNat (data.drop 4) 4)
  dwMaxVideoFrameSize := BitVec.ofNat 32 (leNat (data.drop 18) 4)
  dwMaxPayloadTransferSize := BitVec.ofNat 32 (leNat (data.drop 22) 4)

/-- `while (interval[0] < ctrl->dwFrameInterval && interval[1]) ++interval;`: the interval where it
ends, `none` when it reads behind the array. -/
def selectInterval : List (BitVec 32) → BitVec 32 → Option (BitVec 32)
  | x :: y :: rest, value =>
    if x < value ∧ y ≠ 0#32 then selectInterval (y :: rest) value else some x
  | [x], value => if x < value then none else some x
  | [], _ => none

/-- What the indices and the interval of a request select. -/
structure Selected where
  iformat : Nat
  iframe : Nat
  format : FormatInfo
  frame : FrameInfo
  interval : BitVec 32

def entryAt {α : Type} (entries : List α) (index : Nat) : Option α :=
  if index = 0 then none else entries[index - 1]?

/-- The selection: `none` when it reads outside of the table or of a frame. With no frames `iframe`
is 0, and the frame at `iframe-1` is read. -/
def negotiate (table : List FormatInfo) (ctrl : StreamingControl) : Option Selected :=
  let iformat := clamp ctrl.bFormatIndex.toNat 1 table.length
  (entryAt table iformat).bind fun format =>
    let iframe := clamp ctrl.bFrameIndex.toNat 1 format.frames.length
    (entryAt format.frames iframe).bind fun frame =>
      (selectInterval frame.intervals ctrl.dwFrameInterval).map fun interval =>
        ⟨iformat, iframe, format, frame, interval⟩

def maxVideoFrameSize (format : FormatInfo) (frame : FrameInfo) (old : BitVec 32) : BitVec 32 :=
  if format.fcc ∈ [v4l2PixFmtYuy2, v4l2PixFmtNv12, v4l2PixFmtMjpeg, v4l2PixFmtH264,
      v4l2PixFmtH265] then frame.width * frame.height * 2
  else if format.fcc = v4l2PixFmtIr then frame.width * frame.height
  else old

/-! ## What is selected -/

section

variable {table : List FormatInfo} {ctrl : StreamingControl} {val max : Nat}

theorem clamp_zero : clamp val 1 0 = 0 := by
  unfold clamp
  dsimp only
  split <;> split <;> omega

/-- An index in the range stays. -/
theorem clamp_eq (hval : 1 ≤ val) (hmax : val ≤ max) : clamp val 1 max = val := by
  unfold clamp
  dsimp only
  split <;> split <;> omega

theorem select_interval_mem {intervals : List (BitVec 32)} (value : BitVec 32)
    (hterminated : 0#32 ∈ intervals) (hfirst : intervals.head? ≠ some 0#32) :
    ∃ interval, selectInterval intervals value = some interval ∧
      interval ∈ intervals.takeWhile (· ≠ 0#32) := by
  induction intervals with
  | nil => exact absurd hterminated not_mem_nil
  | cons x rest ih =>
    have hx : x ≠ 0#32 := fun hx => hfirst (hx ▸ rfl)
    have htake : (x :: rest).takeWhile (· ≠ 0#32) = x :: rest.takeWhile (· ≠ 0#32) := by
      rw [takeWhile_cons, if_pos (decide_eq_true hx)]
    have hrest : 0#32 ∈ rest := (mem_cons.mp hterminated).resolve_left hx.symm
    cases rest with
    | nil => exact absurd hrest not_mem_nil
    | cons y rest =>
      rw [selectInterval]
      by_cases hnext : x < value ∧ y ≠ 0#32
      · rw [if_pos hnext]
        have hy : (y :: rest).head? ≠ some 0#32 := fun hy => hnext.2 (some.inj hy)
        obtain ⟨interval, hselect, hin⟩ := ih hrest hy
        exact ⟨interval, hselect, htake ▸ mem_cons_of_mem x hin⟩
      · rw [if_neg hnext]
        exact ⟨x, rfl, htake ▸ mem_cons_self⟩

theorem entry_at_mem {α : Type} {entries : List α} {index : Nat} {entry : α}
    (h : entryAt entries index = some entry) : entry ∈ entries := by
  unfold entryAt at h
  split at h
  · exact absurd h (some_ne_none _).symm
  · exact mem_of_getElem? h

theorem negotiate_mem {selected : Selected} (h : negotiate table ctrl = some selected) :
    selected.format ∈ table ∧ selected.frame ∈ selected.format.frames ∧
      selectInterval selected.frame.intervals ctrl.dwFrameInterval = some selected.interval := by
  obtain ⟨format, hformat, h⟩ := bind_eq_some_iff.mp h
  obtain ⟨frame, hframe, h⟩ := bind_eq_some_iff.mp h
  obtain ⟨interval, hinterval, rfl⟩ := map_eq_some_iff.mp h
  exact ⟨entry_at_mem hformat, entry_at_mem hframe, hinterval⟩

end

def oneInterval (width height : BitVec 32) (hwidth : width ≠ 0#32) : FrameInfo where
  width := width
  height := height
  intervals := [333333, 0, 0, 0, 0, 0, 0, 0]
  altSet := 1
  width_ne := hwidth
  intervals_length := rfl
  terminated := by decide

theorem width_1280_ne : (1280 : BitVec 32) ≠ 0#32 := by decide

theorem width_1920_ne : (1920 : BitVec 32) ≠ 0#32 := by decide

end FullhanRtos.Uvc
