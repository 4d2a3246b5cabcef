import Mathlib.Data.List.TakeWhile
import FullhanRtos.Uvc.DescriptorList
import FullhanRtos.Uvc.FormatThread

/-!
# Descriptors and negotiation

A host reads the numbers of formats, frames and intervals in the streaming descriptors and sends
them back in a probe or a commit. `gen_uvc_fmt_array` and `uvc_events_process_vs_data` number the
table on their own: the first leaves formats out and adds a frame descriptor for the default frame,
the second moves the indices into the range of the table.

`negotiation_ok_iff` says for which tables the host gets what it asks for.
-/

namespace FullhanRtos.Uvc

open List Option Nat BitVec FormatInfo List

/-! ## What the host reads and sends -/

/-- The host reads an interval in a frame descriptor. A descriptor with `bLength` 0 is not copied.
-/
structure FmtArrayData.Advertises (data : FmtArrayData) (slot : FormatSlot) (i : Nat)
    (interval : BitVec 32) : Prop where
  format : some (.format slot) ∈ data.streamingData
  frame : some (.frame slot i) ∈ data.streamingData
  copied : (data.frames slot i).bLength ≠ 0#8
  interval : interval ∈ (data.frames slot i).dwFrameInterval.take
    (data.frames slot i).bFrameIntervalType.toNat

/-- A control with the numbers of a frame descriptor and an interval. -/
structure StreamingControl.Asks (control : StreamingControl) (data : FmtArrayData)
    (slot : FormatSlot) (i : Nat) (interval : BitVec 32) : Prop where
  format : control.bFormatIndex = (data.formats slot).bFormatIndex
  frame : control.bFrameIndex = (data.frames slot i).bFrameIndex
  interval : control.dwFrameInterval = interval

structure Selected.Described (selected : Selected) (slot : FormatSlot) (desc : FrameDescriptor)
    (interval : BitVec 32) : Prop where
  fcc : selected.format.fcc = slot.fcc
  width : selected.frame.width = desc.wWidth.setWidth 32
  height : selected.frame.height = desc.wHeight.setWidth 32
  interval : selected.interval = interval

def SelectsDescribed (table : List FormatInfo) (control : StreamingControl) (slot : FormatSlot)
    (desc : FrameDescriptor) (interval : BitVec 32) : Prop :=
  ∃ selected, negotiate table control = some selected ∧ selected.Described slot desc interval

def StoresDescribed (config : FormatConfig) (id : StreamId) (cs : Nat) (bytes : List Byte)
    (stream : StreamFormat) (slot : FormatSlot) (desc : FrameDescriptor) (interval : BitVec 32) :
    Prop :=
  ∃ next, uvcEventsProcessVsData config id cs bytes stream = some next ∧
    next.probe.dwFrameInterval = interval ∧ next.commit.dwFrameInterval = interval ∧
    (cs = uvcVsCommitControl → next.record.fcc = slot.fcc ∧
      next.record.width = desc.wWidth.setWidth 32 ∧
      next.record.height = desc.wHeight.setWidth 32 ∧ next.record.finterval = interval)

/-- All that the descriptors of a table advertise is selected and stored. -/
def NegotiationOk (table : List FormatInfo) : Prop :=
  ∃ data, genUvcFmtArray uvcFmtArray table = some data ∧
    ∀ slot i interval, data.Advertises slot i interval →
      (∀ control : StreamingControl, control.Asks data slot i interval →
        SelectsDescribed table control slot (data.frames slot i) interval) ∧
      ∀ (config : FormatConfig) (id : StreamId) (cs : Nat) (bytes : List Byte)
        (stream : StreamFormat), config.tables id = table →
        cs = uvcVsProbeControl ∨ cs = uvcVsCommitControl →
        (streamingControl bytes).Asks data slot i interval →
        StoresDescribed config id cs bytes stream slot (data.frames slot i) interval

/-! ## Tables that agree -/

/-- An interval is found in the array: those before it are smaller, and only the first of them may
be 0. -/
def Finds (intervals : List (BitVec 32)) (interval : BitVec 32) : Prop :=
  ∃ before after, intervals = before ++ interval :: after ∧ (∀ x ∈ before, x < interval) ∧
    0#32 ∉ before.tail

/-- A frame is described and another one is selected: it has the size that 16 bits hold of the first
one, and each of the first five intervals is found. -/
def FrameAgrees (described selected : FrameInfo) : Prop :=
  ∀ interval ∈ described.intervalList.take maxFrameIntervalNum,
    selected.width = (described.width.setWidth 16).setWidth 32 ∧
      selected.height = (described.height.setWidth 16).setWidth 32 ∧
      Finds selected.intervals interval

/-- The arrays have room, and for each frame descriptor with an interval, the entries of the table
with the same numbers agree with it. -/
structure TableAgrees (table : List FormatInfo) : Prop where
  fits : TableFits table
  entries : ∀ slot idx last i described, lastFormat table 1 slot = some (idx, last) →
    lastRow table slot i = some described → described.intervalList ≠ [] →
    ∃ format selected, table[idx - 1]? = some format ∧ format.fcc = slot.fcc ∧
      format.frames[min i (format.frames.length - 1)]? = some selected ∧
      FrameAgrees described selected

/-- For different fourccs: no format that is left out stands before one that is not, the intervals
of a frame are found in it, its size fits into 16 bits, and the last frame has the size of the
default frame and its intervals. -/
structure DistinctAgrees (table : List FormatInfo) : Prop where
  fits : TableFits table
  order : ∀ before format after, table = before ++ format :: after → format.slot.isSome →
    (∃ frame ∈ format.frames, frame.intervalList ≠ []) → ∀ other ∈ before, other.slot.isSome
  frames : ∀ format ∈ table, format.slot.isSome → ∀ frame ∈ format.frames, FrameAgrees frame frame
  default : ∀ format ∈ table, ∀ slot, format.slot = some slot → slot ≠ .ir →
    ∀ default last, entryAt format.frames (format.default slot) = some default →
      format.frames.getLast? = some last → FrameAgrees default last

/-! ## The search for an interval -/

section

variable {table : List FormatInfo} {slot : FormatSlot} {i idx : Nat} {interval : BitVec 32}
  {last : FormatInfo} {described : FrameInfo} {data : FmtArrayData} {format : FormatInfo}
  {before after : List FormatInfo} {control : StreamingControl} {desc : FrameDescriptor}

theorem finds_singleton {x : BitVec 32} : Finds [x] interval ↔ x = interval := by
  constructor
  · rintro ⟨before, after, hlist, -⟩
    cases before with
    | nil => exact (cons.inj hlist).1
    | cons first before =>
      have hnil := (cons.inj hlist).2
      exact absurd hnil.symm (append_ne_nil_of_right_ne_nil _ (cons_ne_nil _ _))
  · rintro rfl
    exact ⟨[], [], rfl, fun x hx => absurd hx not_mem_nil, not_mem_nil⟩

/-- An interval is the first one, or is found behind a smaller one. -/
theorem finds_cons {x y : BitVec 32} {rest : List (BitVec 32)} (hinterval : interval ≠ 0#32) :
    Finds (x :: y :: rest) interval ↔
      x = interval ∨ x < interval ∧ y ≠ 0#32 ∧ Finds (y :: rest) interval := by
  constructor
  · rintro ⟨before, after, hlist, hless, hzero⟩
    cases before with
    | nil => exact .inl (cons.inj hlist).1
    | cons first before =>
      obtain ⟨rfl, hrest⟩ := cons.inj hlist
      refine .inr ⟨hless x mem_cons_self, ?_, before, after, hrest,
        fun z hz => hless z (mem_cons_of_mem x hz), fun h => hzero (mem_of_mem_tail h)⟩
      -- the second one is the interval itself, or is before it
      cases before with
      | nil => exact (cons.inj hrest).1 ▸ hinterval
      | cons second before =>
        obtain ⟨rfl, -⟩ := cons.inj hrest
        exact fun h => hzero (h ▸ mem_cons_self)
  · rintro (rfl | ⟨hless, hy, before, after, hrest, hbefore, hzero⟩)
    · exact ⟨[], y :: rest, rfl, fun z hz => absurd hz not_mem_nil, not_mem_nil⟩
    · refine ⟨x :: before, after, by rw [hrest]; rfl, ?_, ?_⟩
      · intro z hz
        obtain rfl | hz := mem_cons.mp hz
        · exact hless
        · exact hbefore z hz
      · cases before with
        | nil => exact not_mem_nil
        | cons second before =>
          obtain ⟨rfl, -⟩ := cons.inj hrest
          exact not_mem_cons_of_ne_of_not_mem hy.symm hzero

/-- The loop ends at an interval exactly if it is found. -/
theorem select_interval_iff {intervals : List (BitVec 32)} (hinterval : interval ≠ 0#32) :
    selectInterval intervals interval = some interval ↔ Finds intervals interval := by
  induction intervals with
  | nil =>
    refine ⟨fun h => absurd h.symm (some_ne_none _), ?_⟩
    rintro ⟨before, after, hlist, -⟩
    exact absurd hlist.symm (append_ne_nil_of_right_ne_nil _ (cons_ne_nil _ _))
  | cons x rest ih =>
    cases rest with
    | nil =>
      rw [selectInterval, finds_singleton]
      split
      case isTrue h =>
        refine ⟨fun h' => absurd h'.symm (some_ne_none _), fun h' => ?_⟩
        exact absurd (h' ▸ h) (BitVec.lt_irrefl x)
      case isFalse => exact some_inj
    | cons y rest =>
      rw [selectInterval, finds_cons hinterval]
      split
      case isTrue h =>
        rw [ih]
        refine ⟨fun hrest => .inr ⟨h.1, h.2, hrest⟩, fun hfinds => ?_⟩
        obtain rfl | ⟨-, -, hrest⟩ := hfinds
        · exact absurd h.1 (BitVec.lt_irrefl x)
        · exact hrest
      case isFalse h =>
        rw [some_inj]
        refine ⟨fun hx => .inl hx, fun hfinds => ?_⟩
        obtain hx | ⟨hless, hy, -⟩ := hfinds
        · exact hx
        · exact absurd ⟨hless, hy⟩ h

/-! ## What is advertised -/

/-- What a descriptor that was filled says. -/
theorem describes_fields (h : Describes slot i described desc) :
    desc.bFrameIndex = BitVec.ofNat 8 (i + 1) ∧ desc.wWidth = described.width.setWidth 16 ∧
      desc.wHeight = described.height.setWidth 16 ∧ desc.bLength ≠ 0#8 ∧
      desc.dwFrameInterval.take desc.bFrameIntervalType.toNat =
        described.intervalList.take maxFrameIntervalNum := by
  obtain ⟨old, rfl⟩ := h
  obtain ⟨subtype, minRate, maxRate, size, hgen⟩ : ∃ subtype minRate maxRate size,
      slot.genFrameData old (i + 1) described =
        genFrameData subtype minRate maxRate size old (i + 1) described := by
    cases slot <;> exact ⟨_, _, _, _, rfl⟩
  rw [hgen]
  have hnum : getFrameIntervalsNum described ≤ 5 := Nat.min_le_right _ _
  have hlen : getFrameIntervalsNum described ≤ described.intervalList.length := Nat.min_le_left _ _
  refine ⟨rfl, rfl, rfl, ?_, ?_⟩
  · intro hzero
    have hbyte := congrArg BitVec.toNat hzero
    unfold genFrameData frameSize at hbyte
    rw [toNat_ofNat, mod_eq_of_lt (by omega)] at hbyte
    have hpos : 26 + 4 * getFrameIntervalsNum described ≠ 0 := by omega
    exact hpos hbyte
  · have htaken : (described.intervalList.take (getFrameIntervalsNum described)).length =
        getFrameIntervalsNum described := by
      rw [length_take, Nat.min_eq_left hlen]
    unfold genFrameData genIntervals
    rw [toNat_ofNat, mod_eq_of_lt (by omega), take_left' htaken,
      take_eq_take_iff, getFrameIntervalsNum]
    omega

theorem last_row_mem (h : lastRow table slot i = some described) :
    ∃ format ∈ table, format.slot = some slot ∧ (format.rows slot)[i]? = some described := by
  induction table with
  | nil => exact absurd h.symm (some_ne_none _)
  | cons format table ih =>
    obtain hrest | ⟨-, hfirst⟩ := or_eq_some_iff.mp h
    · obtain ⟨other, hother, hrow⟩ := ih hrest
      exact ⟨other, mem_cons_of_mem format hother, hrow⟩
    · split at hfirst
      case isTrue hslot => exact ⟨format, mem_cons_self, hslot, hfirst⟩
      case isFalse => exact absurd hfirst.symm (some_ne_none _)

theorem last_format_range (h : lastFormat table idx slot = some (i, last)) :
    idx ≤ i ∧ i < idx + table.length := by
  induction table generalizing idx with
  | nil => exact absurd h.symm (some_ne_none _)
  | cons format table ih =>
    rw [length_cons]
    obtain hrest | ⟨-, hfirst⟩ := or_eq_some_iff.mp h
    · have hrange := ih hrest
      split at hrange <;> omega
    · split at hfirst
      case isTrue =>
        obtain ⟨rfl, -⟩ := Prod.mk.inj (some.inj hfirst)
        omega
      case isFalse => exact absurd hfirst.symm (some_ne_none _)

theorem last_format_exists (hmem : format ∈ table) (hslot : format.slot = some slot) (idx : Nat) :
    ∃ found, lastFormat table idx slot = some found := by
  induction table generalizing idx with
  | nil => exact absurd hmem not_mem_nil
  | cons first table ih =>
    rw [lastFormat]
    cases hlast : lastFormat table (if first.slot.isSome then idx + 1 else idx) slot with
    | some found => exact ⟨found, rfl⟩
    | none =>
      obtain rfl | hmem := mem_cons.mp hmem
      · exact ⟨(idx, format), if_pos hslot⟩
      · obtain ⟨found, hfound⟩ := ih hmem (if first.slot.isSome then idx + 1 else idx)
        exact absurd (hfound.symm.trans hlast) (some_ne_none found)

theorem rows_length_le (format : FormatInfo) (slot : FormatSlot) :
    (format.rows slot).length ≤ format.frames.length + 1 := by
  unfold rows
  split
  · exact le_succ _
  · rw [length_append]
    cases entryAt format.frames (format.default slot) with
    | none => exact le_succ _
    | some _ => exact le_refl _

theorem row_ptrs (hmem : format ∈ table) (hslot : format.slot = some slot)
    (hi : i < format.frames.length + 1) (old : FmtArrayData) :
    some (.format slot) ∈ (old.built table).streamingData ∧
      some (.frame slot i) ∈ (old.built table).streamingData := by
  have hptrs : ∀ ptr ∈ format.ptrs, ptr ∈ (old.built table).streamingData := by
    intro ptr hptr
    rw [built_streaming]
    refine mem_append_left _ (mem_cons_of_mem _ ?_)
    exact mem_flatMap.mpr ⟨format, hmem, hptr⟩
  constructor
  · refine hptrs _ ?_
    rw [ptrs, hslot]
    exact mem_cons_self
  · refine hptrs _ ?_
    rw [ptrs, hslot]
    refine mem_append_left _ (mem_cons_of_mem _ (mem_map.mpr ⟨i, ?_, rfl⟩))
    exact mem_range'_1.mpr ⟨Nat.zero_le i, by rwa [zero_add]⟩

/-- The intervals that the host reads are those of the frames with which the descriptors were
filled. -/
theorem advertises_iff : (uvcFmtArray.built table).Advertises slot i interval ↔
    ∃ described, lastRow table slot i = some described ∧
      interval ∈ described.intervalList.take maxFrameIntervalNum := by
  have hframes := built_frames (uvcFmtArray.start table) table slot i
  constructor
  · intro hadvertises
    cases hrow : lastRow table slot i with
    | none =>
      -- the descriptor is as it was
      rw [hrow] at hframes
      have hlen : ((uvcFmtArray.built table).frames slot i).bLength = 0#8 :=
        congrArg FrameDescriptor.bLength hframes
      exact absurd hlen hadvertises.copied
    | some described =>
      rw [hrow] at hframes
      obtain ⟨-, -, -, -, hintervals⟩ := describes_fields hframes
      exact ⟨described, rfl, hintervals ▸ hadvertises.interval⟩
  · rintro ⟨described, hrow, hinterval⟩
    rw [hrow] at hframes
    obtain ⟨-, -, -, hlen, hintervals⟩ := describes_fields hframes
    obtain ⟨format, hmem, hslot, hget⟩ := last_row_mem hrow
    have hi : i < (format.rows slot).length := (List.getElem?_eq_some_iff.mp hget).1
    obtain ⟨hformat, hframe⟩ :=
      row_ptrs hmem hslot (hi.trans_le (rows_length_le format slot)) uvcFmtArray
    exact ⟨hformat, hframe, hlen, hintervals.symm ▸ hinterval⟩

/-! ## What is selected -/

/-- The frame with an index of the descriptors, moved into the range. -/
theorem entry_at_row {α : Type} (entries : List α) (i : Nat) :
    entryAt entries (clamp (i + 1) 1 entries.length) = entries[min i (entries.length - 1)]? := by
  cases entries with
  | nil => rw [length_nil, clamp_zero]; rfl
  | cons entry entries =>
    have hclamp : clamp (i + 1) 1 (entry :: entries).length =
        min i ((entry :: entries).length - 1) + 1 := by
      unfold clamp
      dsimp only
      rw [length_cons]
      split <;> split <;> omega
    rw [hclamp]
    rfl

theorem table_length_lt (hfits : TableFits table) : table.length < 2 ^ 8 := by
  have hone : ∀ count ∈ table.map ptrCount, 1 ≤ count := by
    intro count hcount
    obtain ⟨format, -, rfl⟩ := mem_map.mp hcount
    unfold ptrCount
    split <;> omega
  have hsum := length_le_sum_of_one_le _ hone
  rw [length_map] at hsum
  have hptrs : 2 + (table.map ptrCount).sum ≤ 60 := hfits.ptrs
  omega

theorem row_index_lt (hfits : TableFits table) (hrow : lastRow table slot i = some described) :
    i + 1 < 2 ^ 8 := by
  obtain ⟨format, hmem, hslot, hget⟩ := last_row_mem hrow
  have hi : i < (format.rows slot).length := (List.getElem?_eq_some_iff.mp hget).1
  have hle := rows_length_le format slot
  have hframes : format.frames.length < 10 := (hfits.formats format hmem slot hslot).frames
  omega

theorem negotiate_row (hfits : TableFits table) (hlast : lastFormat table 1 slot = some (idx, last))
    (hrow : lastRow table slot i = some described)
    (hasks : control.Asks (uvcFmtArray.built table) slot i interval) :
    negotiate table control =
      (table[idx - 1]?).bind fun format =>
        (format.frames[min i (format.frames.length - 1)]?).bind fun frame =>
          (selectInterval frame.intervals interval).map fun found =>
            ⟨idx, clamp (i + 1) 1 format.frames.length, format, frame, found⟩ := by
  have hframes := built_frames (uvcFmtArray.start table) table slot i
  rw [hrow] at hframes
  obtain ⟨hindex, -⟩ := describes_fields hframes
  have hformats := built_formats (uvcFmtArray.start table) table slot
  have hstart : lastFormat table (uvcFmtArray.start table).fmtIdx slot = some (idx, last) := hlast
  rw [hstart] at hformats
  obtain ⟨hone, hlt⟩ := last_format_range hlast
  have htable := table_length_lt hfits
  have hi := row_index_lt hfits hrow
  have hformat : control.bFormatIndex.toNat = idx := by
    have h : control.bFormatIndex = BitVec.ofNat 8 idx :=
      hasks.format.trans (congrArg FormatDescriptor.bFormatIndex hformats)
    rw [h, toNat_ofNat, mod_eq_of_lt (by omega)]
  have hframe : control.bFrameIndex.toNat = i + 1 := by
    have h : control.bFrameIndex = BitVec.ofNat 8 (i + 1) := hasks.frame.trans hindex
    rw [h, toNat_ofNat, mod_eq_of_lt hi]
  have hentry : entryAt table idx = table[idx - 1]? := if_neg (by omega)
  unfold negotiate
  dsimp only
  rw [hformat, hframe, clamp_eq hone (by omega), hentry, hasks.interval]
  simp only [entry_at_row]

theorem stores_described {config : FormatConfig} {id : StreamId} {cs : Nat} {bytes : List Byte}
    (stream : StreamFormat) (hcs : cs = uvcVsProbeControl ∨ cs = uvcVsCommitControl)
    (hselects : SelectsDescribed (config.tables id) (streamingControl bytes) slot desc interval) :
    StoresDescribed config id cs bytes stream slot desc interval := by
  obtain ⟨selected, hnegotiate, hdescribed⟩ := hselects
  unfold StoresDescribed uvcEventsProcessVsData
  rw [hnegotiate]
  obtain rfl | rfl := hcs
  · rw [if_pos rfl]
    refine ⟨_, rfl, hdescribed.interval, hdescribed.interval, fun h => ?_⟩
    exact absurd h (by decide)
  · rw [if_neg (by decide), if_pos rfl]
    exact ⟨_, rfl, hdescribed.interval, hdescribed.interval, fun _ =>
      ⟨hdescribed.fcc, hdescribed.width, hdescribed.height, hdescribed.interval⟩⟩

theorem interval_ne {n : Nat} (h : interval ∈ described.intervalList.take n) :
    interval ≠ 0#32 := by
  have hlist : interval ∈ described.intervals.takeWhile (· ≠ 0#32) := mem_of_mem_take h
  have hne := mem_takeWhile_imp hlist
  exact of_decide_eq_true hne

theorem selects_of_agrees (hagrees : TableAgrees table)
    (hadvertises : (uvcFmtArray.built table).Advertises slot i interval)
    (hasks : control.Asks (uvcFmtArray.built table) slot i interval) :
    SelectsDescribed table control slot ((uvcFmtArray.built table).frames slot i) interval := by
  obtain ⟨described, hrow, hinterval⟩ := advertises_iff.mp hadvertises
  obtain ⟨format, hmem, hslot, -⟩ := last_row_mem hrow
  obtain ⟨⟨idx, last⟩, hlast⟩ := last_format_exists hmem hslot 1
  have hsome : described.intervalList ≠ [] := ne_nil_of_mem (mem_of_mem_take hinterval)
  obtain ⟨found, selected, hfound, hfcc, hselected, hframes⟩ :=
    hagrees.entries slot idx last i described hlast hrow hsome
  obtain ⟨hwidth, hheight, hfinds⟩ := hframes interval hinterval
  have hdescribed := built_frames (uvcFmtArray.start table) table slot i
  rw [hrow] at hdescribed
  obtain ⟨-, hwWidth, hwHeight, -⟩ := describes_fields hdescribed
  have hselect := (select_interval_iff (interval_ne hinterval)).mpr hfinds
  refine ⟨⟨idx, clamp (i + 1) 1 found.frames.length, found, selected, interval⟩, ?_, hfcc, ?_, ?_,
    rfl⟩
  · rw [negotiate_row hagrees.fits hlast hrow hasks, hfound, bind_some, hselected,
      bind_some, hselect, map_some]
  · exact hwidth.trans (congrArg (setWidth 32) hwWidth).symm
  · exact hheight.trans (congrArg (setWidth 32) hwHeight).symm

theorem agrees_of_ok (hok : NegotiationOk table) : TableAgrees table := by
  obtain ⟨data, hgen, hall⟩ := hok
  obtain ⟨hfits, rfl⟩ := gen_uvc_fmt_array_eq.mp hgen
  refine ⟨hfits, fun slot idx last i described hlast hrow hsome => ?_⟩
  have hframes := built_frames (uvcFmtArray.start table) table slot i
  rw [hrow] at hframes
  obtain ⟨-, hwWidth, hwHeight, -⟩ := describes_fields hframes
  -- each interval is asked for
  have hask : ∀ interval ∈ described.intervalList.take maxFrameIntervalNum,
      ∃ format selected, table[idx - 1]? = some format ∧ format.fcc = slot.fcc ∧
        format.frames[min i (format.frames.length - 1)]? = some selected ∧
        selected.width = (described.width.setWidth 16).setWidth 32 ∧
        selected.height = (described.height.setWidth 16).setWidth 32 ∧
        Finds selected.intervals interval := by
    intro interval hinterval
    let control : StreamingControl :=
      ⟨((uvcFmtArray.built table).formats slot).bFormatIndex,
        ((uvcFmtArray.built table).frames slot i).bFrameIndex, interval, 0, 0⟩
    have hasks : control.Asks (uvcFmtArray.built table) slot i interval := ⟨rfl, rfl, rfl⟩
    obtain ⟨selected, hnegotiate, hdescribed⟩ :=
      (hall slot i interval (advertises_iff.mpr ⟨described, hrow, hinterval⟩)).1 control hasks
    rw [negotiate_row hfits hlast hrow hasks] at hnegotiate
    obtain ⟨format, hformat, hnegotiate⟩ := bind_eq_some_iff.mp hnegotiate
    obtain ⟨frame, hframe, hnegotiate⟩ := bind_eq_some_iff.mp hnegotiate
    obtain ⟨found, hselect, rfl⟩ := map_eq_some_iff.mp hnegotiate
    refine ⟨format, frame, hformat, hdescribed.fcc, hframe, ?_, ?_, ?_⟩
    · exact hdescribed.width.trans (congrArg (setWidth 32) hwWidth)
    · exact hdescribed.height.trans (congrArg (setWidth 32) hwHeight)
    · obtain rfl : found = interval := hdescribed.interval
      exact (select_interval_iff (interval_ne hinterval)).mp hselect
  obtain ⟨first, hfirst⟩ := exists_mem_of_ne_nil _
    (show described.intervalList.take maxFrameIntervalNum ≠ [] from fun hnil =>
      hsome ((take_eq_nil_iff.mp hnil).resolve_left (succ_ne_zero 4)))
  obtain ⟨format, selected, hformat, hfcc, hselected, -⟩ := hask first hfirst
  refine ⟨format, selected, hformat, hfcc, hselected, fun interval hinterval => ?_⟩
  obtain ⟨format', selected', hformat', -, hselected', hagrees⟩ := hask interval hinterval
  obtain rfl := some.inj (hformat.symm.trans hformat')
  obtain rfl := some.inj (hselected.symm.trans hselected')
  exact hagrees

/-! ## Different fourccs -/

theorem last_format_at (hdistinct : ((before ++ format :: after).map FormatInfo.fcc).Nodup)
    (hslot : format.slot = some slot) (idx : Nat) :
    lastFormat (before ++ format :: after) idx slot =
      some (idx + before.countP fun other => other.slot.isSome, format) := by
  induction before generalizing idx with
  | nil =>
    obtain ⟨hfirst, -⟩ := nodup_cons.mp hdistinct
    rw [nil_append, lastFormat, last_format_none (other_slot hfirst hslot), if_pos hslot]
    rfl
  | cons other before ih =>
    obtain ⟨-, hrest⟩ := nodup_cons.mp hdistinct
    rw [List.cons_append, lastFormat, ih hrest, some_or, countP_cons]
    cases other.slot.isSome with
    | false => rfl
    | true =>
      rw [if_pos rfl, if_pos rfl, add_assoc, add_comm 1]

theorem row_selected (hslot : format.slot = some slot)
    (hrow : (format.rows slot)[i]? = some described) :
    (∃ frame, format.frames[i]? = some frame ∧ described = frame ∧
        format.frames[min i (format.frames.length - 1)]? = some frame) ∨
      slot ≠ .ir ∧ entryAt format.frames (format.default slot) = some described ∧
        format.frames[min i (format.frames.length - 1)]? = format.frames.getLast? := by
  have hpos : 0 < format.frames.length := length_pos_iff.mpr (slot_eq_some.mp hslot).1
  by_cases hi : i < format.frames.length
  · have hget : (format.rows slot)[i]? = format.frames[i]? := by
      unfold rows
      split
      · rfl
      · exact getElem?_append_left hi
    have hmin : min i (format.frames.length - 1) = i := by omega
    rw [hmin]
    exact .inl ⟨described, hget.symm.trans hrow, rfl, hget.symm.trans hrow⟩
  · have hlt : i < (format.rows slot).length := (List.getElem?_eq_some_iff.mp hrow).1
    have hle := rows_length_le format slot
    obtain rfl : i = format.frames.length := by omega
    have hmin : min format.frames.length (format.frames.length - 1) =
        format.frames.length - 1 := by omega
    unfold rows at hrow hlt
    split at hrow
    case isTrue hir => exact absurd hlt (by rw [if_pos hir]; exact lt_irrefl _)
    case isFalse hir =>
      rw [getElem?_append_right (le_refl _), Nat.sub_self] at hrow
      refine .inr ⟨hir, ?_, by rw [hmin, getLast?_eq_getElem?]⟩
      cases hdefault : entryAt format.frames (format.default slot) with
      | none =>
        rw [hdefault] at hrow
        exact absurd hrow.symm (some_ne_none _)
      | some default =>
        rw [hdefault] at hrow
        exact hrow

/-- The entry with the number of a format is the format itself, and no format before it is left
out. -/
theorem own_entry (hdistinct : ((before ++ format :: after).map FormatInfo.fcc).Nodup)
    (hagrees : TableAgrees (before ++ format :: after)) (hslot : format.slot = some slot)
    (hrow : (format.rows slot)[i]? = some described) (hsome : described.intervalList ≠ []) :
    (∀ other ∈ before, other.slot.isSome) ∧
      ∃ selected, format.frames[min i (format.frames.length - 1)]? = some selected ∧
        FrameAgrees described selected := by
  have hmem : format ∈ before ++ format :: after := mem_append_right before mem_cons_self
  have hlast := last_row_eq hdistinct hmem hslot i
  obtain ⟨found, selected, hfound, hfcc, hselected, hframes⟩ :=
    hagrees.entries slot _ format i described (last_format_at hdistinct hslot 1)
      (hlast.trans hrow) hsome
  rw [Nat.add_sub_cancel_left] at hfound
  -- its fourcc is at one place only
  have hplace : before.countP (fun other => other.slot.isSome) = before.length := by
    have hsame : found.fcc = format.fcc := hfcc.trans (slot_fcc (slot_eq_some.mp hslot).2)
    have hlt := (List.getElem?_eq_some_iff.mp hfound).1
    refine (getElem?_inj (by rwa [length_map]) hdistinct).mp ?_
    rw [getElem?_map, getElem?_map, hfound, getElem?_append_right (le_refl _), Nat.sub_self]
    exact congrArg some hsame
  rw [hplace, getElem?_append_right (le_refl _), Nat.sub_self] at hfound
  obtain rfl : format = found := some.inj hfound
  exact ⟨countP_eq_length.mp hplace, selected, hselected, hframes⟩

theorem row_of_frame (format : FormatInfo) (slot : FormatSlot) {frame : FrameInfo}
    (hframe : frame ∈ format.frames) :
    ∃ i < format.frames.length, format.frames[i]? = some frame ∧
      (format.rows slot)[i]? = some frame := by
  obtain ⟨i, hi, hget⟩ := mem_iff_getElem.mp hframe
  have hget' : format.frames[i]? = some frame := List.getElem?_eq_some_iff.mpr ⟨hi, hget⟩
  refine ⟨i, hi, hget', ?_⟩
  unfold rows
  split
  · exact hget'
  · rw [getElem?_append_left hi, hget']

/-- For different fourccs each format is compared with itself. -/
theorem table_agrees_iff (hdistinct : (table.map FormatInfo.fcc).Nodup) :
    TableAgrees table ↔ DistinctAgrees table := by
  constructor
  · intro hagrees
    refine ⟨hagrees.fits, ?_, ?_, ?_⟩
    · rintro before format after rfl hlisted ⟨frame, hframe, hsome⟩
      obtain ⟨slot, hslot⟩ := isSome_iff_exists.mp hlisted
      obtain ⟨i, -, -, hrow⟩ := row_of_frame format slot hframe
      exact (own_entry hdistinct hagrees hslot hrow hsome).1
    · intro format hmem hlisted frame hframe interval hinterval
      obtain ⟨slot, hslot⟩ := isSome_iff_exists.mp hlisted
      obtain ⟨before, after, rfl⟩ := append_of_mem hmem
      obtain ⟨i, hi, hget, hrow⟩ := row_of_frame format slot hframe
      have hsome : frame.intervalList ≠ [] := ne_nil_of_mem (mem_of_mem_take hinterval)
      obtain ⟨-, selected, hselected, hframes⟩ := own_entry hdistinct hagrees hslot hrow hsome
      have hmin : min i (format.frames.length - 1) = i := by omega
      rw [hmin] at hselected
      obtain rfl := some.inj (hget.symm.trans hselected)
      exact hframes interval hinterval
    · intro format hmem slot hslot hir default last hdefault hlast interval hinterval
      obtain ⟨before, after, rfl⟩ := append_of_mem hmem
      have hsome : default.intervalList ≠ [] := ne_nil_of_mem (mem_of_mem_take hinterval)
      have hrow : (format.rows slot)[format.frames.length]? = some default := by
        unfold rows
        rw [if_neg hir, getElem?_append_right (le_refl _), Nat.sub_self, hdefault]
        rfl
      obtain ⟨-, selected, hselected, hframes⟩ := own_entry hdistinct hagrees hslot hrow hsome
      have hmin : min format.frames.length (format.frames.length - 1) =
          format.frames.length - 1 := by omega
      rw [hmin, ← getLast?_eq_getElem?, hlast] at hselected
      obtain rfl := some.inj hselected
      exact hframes interval hinterval
  · intro hagrees
    refine ⟨hagrees.fits, fun slot idx last i described hlast hrow hsome => ?_⟩
    obtain ⟨format, hmem, hslot, hget⟩ := last_row_mem hrow
    have hlisted : format.slot.isSome := by
      rw [hslot]
      rfl
    have hselected := row_selected hslot hget
    have hframe : described ∈ format.frames := by
      obtain ⟨frame, hframe, rfl, -⟩ | ⟨-, hdefault, -⟩ := hselected
      · exact mem_of_getElem? hframe
      · exact entry_at_mem hdefault
    obtain ⟨before, after, rfl⟩ := append_of_mem hmem
    have hbefore := hagrees.order before format after rfl hlisted ⟨described, hframe, hsome⟩
    have hcount : before.countP (fun other => other.slot.isSome) = before.length :=
      countP_eq_length.mpr hbefore
    rw [last_format_at hdistinct hslot, hcount] at hlast
    obtain ⟨rfl, rfl⟩ := Prod.mk.inj (some.inj hlast)
    have hentry : (before ++ format :: after)[1 + before.length - 1]? = some format := by
      rw [Nat.add_sub_cancel_left, getElem?_append_right (le_refl _), Nat.sub_self]
      rfl
    have hfcc : format.fcc = slot.fcc := (slot_fcc (slot_eq_some.mp hslot).2).symm
    obtain ⟨frame, -, rfl, hsame⟩ | ⟨hir, hdefault, hlast⟩ := hselected
    · exact ⟨format, described, hentry, hfcc, hsame,
        hagrees.frames format hmem hlisted described hframe⟩
    · obtain ⟨final, hfinal⟩ : ∃ final, format.frames.getLast? = some final :=
        ⟨_, getLast?_eq_some_getLast (ne_nil_of_mem hframe)⟩
      exact ⟨format, final, hentry, hfcc, hlast.trans hfinal,
        hagrees.default format hmem slot hslot hir described final hdefault hfinal⟩

end

/-- For which tables the host gets what it asks for. -/
theorem negotiation_ok_iff (table : List FormatInfo) :
    (NegotiationOk table ↔ TableAgrees table) ∧
      ((table.map FormatInfo.fcc).Nodup → (TableAgrees table ↔ DistinctAgrees table)) := by
  refine ⟨⟨agrees_of_ok, fun hagrees => ?_⟩, table_agrees_iff⟩
  refine ⟨_, gen_uvc_fmt_array_eq.mpr ⟨hagrees.fits, rfl⟩, fun slot i interval hadvertises => ?_⟩
  refine ⟨fun control hasks => selects_of_agrees hagrees hadvertises hasks, ?_⟩
  rintro config id cs bytes stream rfl hcs hasks
  exact stores_described stream hcs (selects_of_agrees hagrees hadvertises hasks)

def twoSizes (default : BitVec 32) : FormatInfo :=
  ⟨v4l2PixFmtMjpeg, [oneInterval 1280 720 width_1280_ne, oneInterval 1920 1080 width_1920_ne],
    default⟩

theorem one_interval_agrees {width height : BitVec 32} {hwidth : width ≠ 0#32}
    (hsize : (width.setWidth 16).setWidth 32 = width ∧ (height.setWidth 16).setWidth 32 = height) :
    FrameAgrees (oneInterval width height hwidth) (oneInterval width height hwidth) := by
  intro interval hinterval
  obtain rfl : interval = 333333#32 := mem_singleton.mp hinterval
  exact ⟨hsize.1.symm, hsize.2.symm, [], replicate 7 0, rfl,
    fun x hx => absurd hx not_mem_nil, not_mem_nil⟩

/-- The last frame is the default frame. -/
theorem last_default_ok : NegotiationOk [twoSizes 2] := by
  refine ((negotiation_ok_iff [twoSizes 2]).1).mpr (((negotiation_ok_iff [twoSizes 2]).2
    (by decide)).mpr ⟨⟨?_, by decide⟩, ?_, ?_, ?_⟩)
  · intro format hmem slot hslot
    obtain rfl := mem_singleton.mp hmem
    exact ⟨by decide, fun _ => by decide⟩
  · intro before format after htable hlisted _ other hother
    have hmem : other ∈ [twoSizes 2] := htable ▸ mem_append_left _ hother
    obtain rfl := mem_singleton.mp hmem
    rfl
  · intro format hmem _ frame hframe
    obtain rfl := mem_singleton.mp hmem
    obtain rfl | hframe := mem_cons.mp hframe
    · exact one_interval_agrees (by decide)
    · obtain rfl := mem_singleton.mp hframe
      exact one_interval_agrees (by decide)
  · intro format hmem slot hslot hir default last hdefault hlast
    obtain rfl := mem_singleton.mp hmem
    obtain rfl : FormatSlot.mjpg = slot := some.inj hslot
    obtain rfl := some.inj hdefault
    obtain rfl := some.inj hlast
    exact one_interval_agrees (by decide)

/-- The first frame is the default frame: the third descriptor has its size, and the last frame is
selected for it. -/
theorem first_default_not_ok : ¬ NegotiationOk [twoSizes 1] := by
  intro hok
  obtain ⟨format, selected, hformat, -, hselected, hagrees⟩ :=
    (agrees_of_ok hok).entries .mjpg 1 (twoSizes 1) 2 (oneInterval 1280 720 (by decide)) rfl rfl
      (cons_ne_nil _ _)
  obtain rfl := some.inj hformat
  obtain rfl := some.inj hselected
  exact absurd (hagrees 333333#32 mem_cons_self).1 (by decide)

end FullhanRtos.Uvc
