import FullhanRtos.Uvc.CopyDescriptors

/-!
# Well-formed descriptor lists

`WellFormed` says that the streaming descriptors of `gen_uvc_fmt_array` are a header, a block for
each format and a null pointer, and that the indices, numbers and lengths in them agree.

`descriptors_ok_iff` says for which format tables they are well-formed and are copied as a whole.
-/

namespace FullhanRtos.Uvc

open List Option Nat BitVec FormatInfo List

/-- A format descriptor with the frame descriptors after it. -/
structure FormatBlock where
  slot : FormatSlot
  frames : List (FormatSlot × Nat)

/-- The pointers of a block, with the colour matching descriptor. -/
def FormatBlock.ptrs (block : FormatBlock) : List (Option DescriptorPtr) :=
  some (.format block.slot) :: block.frames.map (fun frame => some (.frame frame.1 frame.2)) ++
    [some .colorMatching]

/-- There are `bNumFrameDescriptors` frames with the indices 1, 2, …, and `bDefaultFrameIndex` is
one of them. -/
structure BlockOk (data : FmtArrayData) (block : FormatBlock) : Prop where
  num : block.frames.length = (data.formats block.slot).bNumFrameDescriptors.toNat
  indices : block.frames.map (fun frame => (data.frames frame.1 frame.2).bFrameIndex.toNat) =
    range' 1 block.frames.length
  default : 1 ≤ (data.formats block.slot).bDefaultFrameIndex.toNat ∧
    (data.formats block.slot).bDefaultFrameIndex.toNat ≤ block.frames.length

def FmtArrayData.contentSize (data : FmtArrayData) : DescriptorPtr → Nat
  | .inputHeader => inputHeaderSize data.bNumFormats.toNat
  | .format slot => slot.size
  | .frame slot i => frameSize (data.frames slot i).bFrameIntervalType.toNat
  | .colorMatching => 6

/-- `bLength` is the length of the contents, and they are there. -/
structure LengthOk (data : FmtArrayData) (ptr : DescriptorPtr) : Prop where
  length : bLength (data.object ptr) = data.contentSize ptr
  contents : data.contentSize ptr ≤ (data.object ptr).length

/-- The streaming descriptors are in order. -/
structure WellFormed (data : FmtArrayData) (blocks : List FormatBlock) : Prop where
  list : data.streamingData = some .inputHeader :: blocks.flatMap FormatBlock.ptrs ++ [none]
  num : data.bNumFormats.toNat = blocks.length
  blocks : ∀ block ∈ blocks, BlockOk data block
  lengths : ∀ ptr, some ptr ∈ data.streamingData → LengthOk data ptr

/-- Streaming descriptors of the first or the second stream are copied as a whole, with their total
length. -/
structure CopiesOk (cls : List (List Byte)) : Prop where
  first : ∀ (function : FunctionDescriptors) (stream1 : StreamDescriptors)
    (stream2 : Option (StreamDescriptors × List (List Byte))),
    function.Ok stream2.isSome → stream1.Ok →
    (∀ stream ∈ stream2, stream.1.Ok ∧ ClassOk stream.2 13) →
    ∃ copied, uvcCopyDescriptors function stream1 cls stream2 = some copied ∧
      CopiedOk function stream1 cls stream2 copied
  second : ∀ (function : FunctionDescriptors) (stream1 : StreamDescriptors)
    (cls1 : List (List Byte)) (stream2 : StreamDescriptors),
    function.Ok true → stream1.Ok → ClassOk cls1 13 → stream2.Ok →
    ∃ copied, uvcCopyDescriptors function stream1 cls1 (some (stream2, cls)) = some copied ∧
      CopiedOk function stream1 cls1 (some (stream2, cls)) copied

/-- The descriptors of a table stay in their arrays, are well-formed and are copied. -/
def DescriptorsOk (old : FmtArrayData) (table : List FormatInfo) : Prop :=
  ∃ data blocks, genUvcFmtArray old table = some data ∧ WellFormed data blocks ∧
    CopiesOk data.objects

/-- At most five formats, none of them in infrared, each with one to nine frames and a default, and
not more descriptors than pointers. -/
structure DescriptorsFit (table : List FormatInfo) : Prop where
  formats : table.length ≤ 5
  frames : ∀ format ∈ table, format.frames ≠ [] ∧
    format.frames.length < maxFrameDescriptorsNum
  fcc : ∀ format ∈ table, format.fcc ≠ v4l2PixFmtIr
  default : ∀ format ∈ table, format.defaultindex ≠ 0#32
  ptrs : 2 + (table.map fun format => format.frames.length + 3).sum ≤ totalFrameDescriptorsNum

/-- At most `MAX_FORMAT_DESCRIPTORS_NUM` formats with different fourccs of the six. -/
structure TableOk (table : List FormatInfo) : Prop where
  length : table.length ≤ maxFormatDescriptorsNum
  distinct : (table.map FormatInfo.fcc).Nodup
  supported : ∀ format ∈ table, (slotOf format.fcc).isSome

/-! ## The order of the pointers -/

def FormatInfo.block (format : FormatInfo) : Option FormatBlock :=
  format.slot.map fun slot =>
    ⟨slot, (range' 0 (format.frames.length + 1)).map fun i => (slot, i)⟩

section

variable {slot : FormatSlot} {format : FormatInfo} {table : List FormatInfo}
  {blocks : List FormatBlock} {block : FormatBlock} {old data : FmtArrayData} {frame : FrameInfo}
  {i : Nat}

theorem before_color {ptrs ptrs' rest rest' : List (Option DescriptorPtr)}
    (hptrs : some .colorMatching ∉ ptrs) (hptrs' : some .colorMatching ∉ ptrs')
    (h : ptrs ++ some .colorMatching :: rest = ptrs' ++ some .colorMatching :: rest') :
    ptrs = ptrs' ∧ rest = rest' := by
  have hbefore {ptrs : List (Option DescriptorPtr)} (rest : List (Option DescriptorPtr))
      (hptrs : some .colorMatching ∉ ptrs) :
      (ptrs ++ some .colorMatching :: rest).takeWhile (· ≠ some .colorMatching) = ptrs := by
    rw [takeWhile_append_of_pos, takeWhile_cons_of_neg, append_nil]
    · simp
    · intro ptr hptr
      exact decide_eq_true fun heq => hptrs (heq ▸ hptr)
  have hfirst : ptrs = ptrs' := by
    rw [← hbefore rest hptrs, h, hbefore rest' hptrs']
  subst hfirst
  exact ⟨rfl, (cons.inj (append_cancel_left h)).2⟩

theorem color_not_frame (slot : FormatSlot) (i n : Nat) :
    some .colorMatching ∉ framePtrs slot i n := by
  intro h
  obtain ⟨j, -, hj⟩ := mem_map.mp h
  exact DescriptorPtr.noConfusion (some.inj hj)

theorem color_not_block (block : FormatBlock) :
    some DescriptorPtr.colorMatching ∉
      some (.format block.slot) :: block.frames.map fun frame => some (.frame frame.1 frame.2) := by
  intro h
  obtain h | h := mem_cons.mp h
  · exact DescriptorPtr.noConfusion (some.inj h)
  · obtain ⟨frame, -, hframe⟩ := mem_map.mp h
    exact DescriptorPtr.noConfusion (some.inj hframe)

theorem block_of_format (h : table.flatMap FormatInfo.ptrs = blocks.flatMap FormatBlock.ptrs)
    (hmem : format ∈ table) :
    ∃ block ∈ blocks, format.slot = some block.slot ∧
      block.frames.length = format.frames.length + 1 := by
  induction table generalizing blocks with
  | nil => exact absurd hmem not_mem_nil
  | cons first table ih =>
    cases blocks with
    | nil =>
      rw [flatMap_cons, flatMap_nil, append_eq_nil_iff] at h
      have hne : first.ptrs ≠ [] := by
        unfold ptrs
        cases first.slot <;> exact cons_ne_nil _ _
      exact absurd h.1 hne
    | cons block blocks =>
      rw [flatMap_cons, flatMap_cons, ptrs, FormatBlock.ptrs] at h
      cases hslot : first.slot with
      | none =>
        -- a colour matching descriptor alone is not a block
        rw [hslot, List.append_assoc] at h
        have hnil : some DescriptorPtr.colorMatching ∉ ([] : List (Option DescriptorPtr)) :=
          not_mem_nil
        have hcolor := before_color hnil (color_not_block block) h
        exact absurd hcolor.1.symm (cons_ne_nil _ _)
      | some slot =>
        rw [hslot, List.append_assoc, List.append_assoc] at h
        have hframes : some DescriptorPtr.colorMatching ∉
            some (.format slot) :: framePtrs slot 0 (first.frames.length + 1) := by
          intro h
          obtain h | h := mem_cons.mp h
          · exact DescriptorPtr.noConfusion (some.inj h)
          · exact color_not_frame _ _ _ h
        obtain ⟨hfirst, hrest⟩ := before_color hframes (color_not_block block) h
        obtain hformat | hformat := mem_cons.mp hmem
        · subst hformat
          obtain ⟨hhead, htail⟩ := cons.inj hfirst
          have hlen := congrArg length htail
          rw [frame_ptrs_length, length_map] at hlen
          obtain rfl := DescriptorPtr.format.inj (some.inj hhead)
          exact ⟨block, mem_cons_self, hslot, hlen.symm⟩
        · obtain ⟨block', hblock', hfound⟩ := ih hrest hformat
          exact ⟨block', mem_cons_of_mem block hblock', hfound⟩

/-! ## Formats with different fourccs -/

theorem slot_fcc {fcc : BitVec 32} (h : slotOf fcc = some slot) : slot.fcc = fcc := by
  have hfound := find?_some h
  exact of_decide_eq_true hfound

theorem other_slot (hdistinct : format.fcc ∉ table.map FormatInfo.fcc)
    (hslot : format.slot = some slot) : ∀ other ∈ table, other.slot ≠ some slot := by
  intro other hother hsame
  have hfcc := slot_fcc (slot_eq_some.mp hslot).2
  rw [slot_fcc (slot_eq_some.mp hsame).2] at hfcc
  exact hdistinct (hfcc ▸ mem_map_of_mem hother)

theorem last_row_none (h : ∀ format ∈ table, format.slot ≠ some slot) :
    lastRow table slot i = none := by
  induction table with
  | nil => rfl
  | cons format table ih =>
    rw [lastRow, ih fun other hother => h other (mem_cons_of_mem format hother),
      if_neg (h format mem_cons_self)]
    rfl

theorem last_format_none {idx : Nat} (h : ∀ format ∈ table, format.slot ≠ some slot) :
    lastFormat table idx slot = none := by
  induction table generalizing idx with
  | nil => rfl
  | cons format table ih =>
    rw [lastFormat, ih fun other hother => h other (mem_cons_of_mem format hother),
      if_neg (h format mem_cons_self)]
    rfl

section

variable (hdistinct : (table.map FormatInfo.fcc).Nodup)

include hdistinct

/-- The frame descriptors of a format are filled with its own frames. -/
theorem last_row_eq (hmem : format ∈ table) (hslot : format.slot = some slot) (i : Nat) :
    lastRow table slot i = (format.rows slot)[i]? := by
  induction table with
  | nil => exact absurd hmem not_mem_nil
  | cons first table ih =>
    obtain ⟨hfirst, hrest⟩ := nodup_cons.mp hdistinct
    rw [lastRow]
    obtain rfl | hmem := mem_cons.mp hmem
    · rw [last_row_none (other_slot hfirst hslot), if_pos hslot]
      rfl
    · have hne : first.slot ≠ some slot := by
        intro hsame
        exact other_slot hfirst hsame format hmem hslot
      rw [ih hrest hmem, if_neg hne, or_none]

theorem last_format_eq (hmem : format ∈ table) (hslot : format.slot = some slot) (idx : Nat) :
    ∃ idx', lastFormat table idx slot = some (idx', format) := by
  induction table generalizing idx with
  | nil => exact absurd hmem not_mem_nil
  | cons first table ih =>
    obtain ⟨hfirst, hrest⟩ := nodup_cons.mp hdistinct
    rw [lastFormat]
    obtain rfl | hmem := mem_cons.mp hmem
    · rw [last_format_none (other_slot hfirst hslot), if_pos hslot]
      exact ⟨idx, rfl⟩
    · obtain ⟨idx', hlast⟩ := ih hrest hmem (if first.slot.isSome then idx + 1 else idx)
      rw [hlast]
      exact ⟨idx', rfl⟩

theorem built_format_eq (hmem : format ∈ table) (hslot : format.slot = some slot) :
    ((old.built table).formats slot).bNumFrameDescriptors = BitVec.ofNat 8 (format.num slot) ∧
      ((old.built table).formats slot).bDefaultFrameIndex =
        BitVec.ofNat 8 (format.default slot) := by
  have hformats := built_formats (old.start table) table slot
  obtain ⟨idx, hlast⟩ := last_format_eq hdistinct hmem hslot (old.start table).fmtIdx
  rw [hlast] at hformats
  unfold FmtArrayData.built
  rw [hformats]
  exact ⟨rfl, rfl⟩

theorem built_frame_eq (hmem : format ∈ table) (hslot : format.slot = some slot)
    (hframe : (format.rows slot)[i]? = some frame) :
    Describes slot i frame ((old.built table).frames slot i) := by
  have hframes := built_frames (old.start table) table slot i
  rw [last_row_eq hdistinct hmem hslot, hframe] at hframes
  exact hframes

end

/-! ## Lengths -/

theorem format_bytes_ok (desc : FormatDescriptor) (slot : FormatSlot) :
    bLength (desc.bytes slot) = slot.size ∧ (desc.bytes slot).length = slot.size := by
  cases slot <;> exact ⟨rfl, rfl⟩

theorem le_bytes_length (n : Nat) (value : Int) : (leBytes n value).length = n := by
  rw [leBytes, length_map, length_range]

theorem intervals_bytes_length (intervals : List (BitVec 32)) :
    (intervals.flatMap fun interval => leBytes 4 interval.toNat).length = 4 * intervals.length := by
  induction intervals with
  | nil => rfl
  | cons interval intervals ih =>
    rw [flatMap_cons, length_append, le_bytes_length, ih, length_cons, Nat.mul_succ, add_comm]

theorem frame_bytes_ok (desc : FrameDescriptor) (slot : FormatSlot) :
    bLength (desc.bytes slot) = desc.bLength.toNat ∧
      (desc.bytes slot).length = frameSize maxFrameIntervalNum := by
  have hintervals := intervals_bytes_length desc.dwFrameInterval
  rw [desc.intervals_length] at hintervals
  constructor
  · cases slot <;> rfl
  · unfold FrameDescriptor.bytes
    cases slot <;>
      simp only [length_append, length_cons, length_nil, le_bytes_length, hintervals] <;> rfl

theorem frame_length_ok (h : Describes slot i frame (data.frames slot i)) :
    LengthOk data (.frame slot i) := by
  obtain ⟨old, hdesc⟩ := h
  have hnum : getFrameIntervalsNum frame ≤ 5 := Nat.min_le_right _ _
  have hlen : (data.frames slot i).bLength.toNat = frameSize (getFrameIntervalsNum frame) := by
    have hlt : frameSize (getFrameIntervalsNum frame) < 2 ^ 8 := by
      unfold frameSize
      omega
    have hfill : (data.frames slot i).bLength =
        BitVec.ofNat 8 (frameSize (getFrameIntervalsNum frame)) := by
      rw [hdesc]
      cases slot <;> rfl
    rw [hfill, toNat_ofNat, mod_eq_of_lt hlt]
  have hcontent : data.contentSize (.frame slot i) = frameSize (getFrameIntervalsNum frame) := by
    have hfill : (data.frames slot i).bFrameIntervalType =
        BitVec.ofNat 8 (getFrameIntervalsNum frame) := by
      rw [hdesc]
      cases slot <;> rfl
    have hlt : getFrameIntervalsNum frame < 2 ^ 8 := by omega
    rw [FmtArrayData.contentSize, hfill, toNat_ofNat, mod_eq_of_lt hlt]
  obtain ⟨hfirst, hbytes⟩ := frame_bytes_ok (data.frames slot i) slot
  constructor
  · rw [hcontent, ← hlen]
    exact hfirst
  · rw [hcontent, FmtArrayData.object, hbytes]
    exact Nat.add_le_add_left (Nat.mul_le_mul_left 4 hnum) 26

theorem format_length_ok (data : FmtArrayData) (slot : FormatSlot) :
    LengthOk data (.format slot) := by
  obtain ⟨hfirst, hbytes⟩ := format_bytes_ok (data.formats slot) slot
  exact ⟨hfirst, le_of_eq hbytes.symm⟩

theorem color_length_ok (data : FmtArrayData) : LengthOk data .colorMatching :=
  ⟨rfl, le_refl 6⟩

theorem header_length_ok (hlen : table.length ≤ maxFormatDescriptorsNum) :
    LengthOk (old.built table) .inputHeader ↔ table.length ≤ 5 := by
  have hmax : table.length ≤ 6 := hlen
  have hheader := built_header (old.start table) table
  have hnum : (old.built table).bNumFormats.toNat = table.length := by
    have h : (old.built table).bNumFormats = BitVec.ofNat 8 table.length := hheader.2
    rw [h, toNat_ofNat, mod_eq_of_lt (by omega)]
  have hfirst : bLength ((old.built table).object .inputHeader) =
      inputHeaderSize table.length := by
    have h : (old.built table).headerLength = BitVec.ofNat 8 (inputHeaderSize table.length) :=
      hheader.1
    have hbyte : bLength ((old.built table).object .inputHeader) =
        (old.built table).headerLength.toNat := rfl
    unfold inputHeaderSize at h ⊢
    rw [hbyte, h, toNat_ofNat, mod_eq_of_lt (by omega)]
  have hcontent : (old.built table).contentSize .inputHeader = inputHeaderSize table.length :=
    congrArg inputHeaderSize hnum
  have hbytes : ((old.built table).object .inputHeader).length = inputHeaderSize 5 := rfl
  constructor
  · intro h
    have hcontents := h.contents
    rw [hcontent, hbytes] at hcontents
    exact Nat.le_of_add_le_add_left hcontents
  · intro h
    refine ⟨hfirst.trans hcontent.symm, ?_⟩
    rw [hcontent, hbytes]
    exact Nat.add_le_add_left h 13

/-! ## Tables that fit -/

theorem fit_slot (htable : TableOk table) (hfit : DescriptorsFit table) (hmem : format ∈ table) :
    ∃ slot, format.slot = some slot ∧ slot ≠ .ir := by
  obtain ⟨slot, hslot⟩ := isSome_iff_exists.mp (htable.supported format hmem)
  refine ⟨slot, slot_eq_some.mpr ⟨(hfit.frames format hmem).1, hslot⟩, ?_⟩
  intro hir
  subst hir
  exact hfit.fcc format hmem (slot_fcc hslot).symm

theorem ptr_count_eq (hlisted : ∀ format ∈ table, format.slot.isSome) :
    (table.map FormatInfo.ptrCount).sum =
      (table.map fun format => format.frames.length + 3).sum := by
  have hmap : table.map ptrCount = table.map fun format => format.frames.length + 3 := by
    refine map_congr_left fun format hmem => ?_
    obtain ⟨slot, hslot⟩ := isSome_iff_exists.mp (hlisted format hmem)
    rw [ptrCount, hslot]
  rw [hmap]

theorem fit_table_fits (htable : TableOk table) (hfit : DescriptorsFit table) :
    TableFits table := by
  have hlisted : ∀ format ∈ table, format.slot.isSome := fun format hmem => by
    obtain ⟨slot, hslot, -⟩ := fit_slot htable hfit hmem
    rw [hslot]
    rfl
  constructor
  · intro format hmem slot _
    exact ⟨(hfit.frames format hmem).2, fun _ => hfit.default format hmem⟩
  · rw [ptr_count_eq hlisted]
    exact hfit.ptrs

theorem ptrs_eq_blocks (hlisted : ∀ format ∈ table, format.slot.isSome) :
    table.flatMap FormatInfo.ptrs = (table.filterMap FormatInfo.block).flatMap FormatBlock.ptrs ∧
      (table.filterMap FormatInfo.block).length = table.length := by
  induction table with
  | nil => exact ⟨rfl, rfl⟩
  | cons format table ih =>
    obtain ⟨slot, hslot⟩ := isSome_iff_exists.mp (hlisted format mem_cons_self)
    obtain ⟨hptrs, hlen⟩ := ih fun other hother => hlisted other (mem_cons_of_mem format hother)
    have hblock : format.block =
        some ⟨slot, (range' 0 (format.frames.length + 1)).map fun i => (slot, i)⟩ := by
      rw [block, hslot]
      rfl
    have hfirst : format.ptrs = FormatBlock.ptrs
        ⟨slot, (range' 0 (format.frames.length + 1)).map fun i => (slot, i)⟩ := by
      rw [ptrs, hslot, FormatBlock.ptrs, List.map_map]
      rfl
    rw [filterMap_cons_some hblock, flatMap_cons, flatMap_cons, hptrs, hfirst,
      length_cons, length_cons, hlen]
    exact ⟨rfl, rfl⟩

theorem row_exists (hslot : slot ≠ .ir) (hne : format.frames ≠ [])
    (hdefault : format.defaultindex ≠ 0#32) (hi : i < format.frames.length + 1) :
    ∃ frame, (format.rows slot)[i]? = some frame := by
  have hpos : 0 < format.frames.length := length_pos_iff.mpr hne
  have hnat : format.defaultindex.toNat ≠ 0 := fun h => hdefault (eq_of_toNat_eq h)
  have hindex : min format.defaultindex.toNat format.frames.length ≠ 0 := by omega
  obtain ⟨frame, hframe⟩ := (entry_at_isSome _ (Nat.min_le_right _ _)).mpr hindex
  rw [rows_eq hslot hframe]
  have hlen : i < (format.frames ++ [frame]).length := by
    rw [length_append]
    exact hi
  exact ⟨_, getElem?_eq_getElem hlen⟩

theorem block_ok (htable : TableOk table) (hfit : DescriptorsFit table) (hmem : format ∈ table)
    (hblock : format.block = some block) : BlockOk (old.built table) block := by
  obtain ⟨slot, hslot, hir⟩ := fit_slot htable hfit hmem
  rw [FormatInfo.block, hslot] at hblock
  obtain rfl := some.inj hblock
  obtain ⟨hne, hlt⟩ := hfit.frames format hmem
  have hpos : 0 < format.frames.length := length_pos_iff.mpr hne
  have hlt' : format.frames.length < 10 := hlt
  obtain ⟨hnum, hdefault⟩ := @built_format_eq _ _ _ old htable.distinct hmem hslot
  have hlen : ((range' 0 (format.frames.length + 1)).map fun i => (slot, i)).length =
      format.frames.length + 1 := by
    rw [length_map, length_range']
  have hnat : format.defaultindex.toNat ≠ 0 := fun h =>
    hfit.default format hmem (eq_of_toNat_eq h)
  refine ⟨?_, ?_, ?_⟩
  · dsimp only
    rw [hlen, hnum, num, if_neg hir, toNat_ofNat, mod_eq_of_lt (by omega)]
  · have hrange : range' 1 (format.frames.length + 1) =
        (range' 0 (format.frames.length + 1)).map fun i => 1 + i :=
      (map_add_range' 0 _ 1).symm
    rw [hlen, hrange, List.map_map]
    refine map_congr_left fun i hi => ?_
    have hlt : i < format.frames.length + 1 := by
      have hi' := (mem_range'_1.mp hi).2
      omega
    obtain ⟨frame, hframe⟩ := row_exists hir hne (hfit.default format hmem) hlt
    obtain ⟨filled, hdesc⟩ := @built_frame_eq _ _ _ old _ _ htable.distinct hmem hslot hframe
    have hindex : ((old.built table).frames slot i).bFrameIndex = BitVec.ofNat 8 (i + 1) := by
      rw [hdesc]
      cases slot <;> rfl
    dsimp only [Function.comp]
    rw [hindex, toNat_ofNat, mod_eq_of_lt (by omega), add_comm]
  · dsimp only
    rw [hlen, hdefault, FormatInfo.default, if_neg hir, toNat_ofNat, mod_eq_of_lt (by omega)]
    omega

theorem built_streaming (old : FmtArrayData) (table : List FormatInfo) :
    (old.built table).streamingData =
      some .inputHeader :: table.flatMap FormatInfo.ptrs ++ [none] :=
  congrArg (· ++ [none]) (built_ptrs (old.start table) table)

theorem ptr_cases {ptr : DescriptorPtr} (h : some ptr ∈ (old.built table).streamingData) :
    ptr = .inputHeader ∨ ptr = .colorMatching ∨ ∃ format ∈ table, ∃ slot, format.slot = some slot ∧
      (ptr = .format slot ∨ ∃ i < format.frames.length + 1, ptr = .frame slot i) := by
  rw [built_streaming, List.cons_append, mem_cons, mem_append, mem_flatMap] at h
  obtain h | ⟨format, hmem, h⟩ | h := h
  · exact .inl (some.inj h)
  · unfold ptrs at h
    cases hslot : format.slot with
    | none =>
      rw [hslot] at h
      exact .inr (.inl (some.inj (mem_singleton.mp h)))
    | some slot =>
      rw [hslot, mem_append, mem_cons] at h
      obtain (h | h) | h := h
      · exact .inr (.inr ⟨format, hmem, slot, hslot, .inl (some.inj h)⟩)
      · obtain ⟨i, hi, hptr⟩ := mem_map.mp h
        have hlt := (mem_range'_1.mp hi).2
        rw [zero_add] at hlt
        exact .inr (.inr ⟨format, hmem, slot, hslot, .inr ⟨i, hlt, (some.inj hptr).symm⟩⟩)
      · exact .inr (.inl (some.inj (mem_singleton.mp h)))
  · exact absurd (mem_singleton.mp h) (some_ne_none _)

theorem built_well_formed (htable : TableOk table) (hfit : DescriptorsFit table) :
    WellFormed (old.built table) (table.filterMap FormatInfo.block) := by
  have hlisted : ∀ format ∈ table, format.slot.isSome := fun format hmem => by
    obtain ⟨slot, hslot, -⟩ := fit_slot htable hfit hmem
    rw [hslot]
    rfl
  obtain ⟨hptrs, hlen⟩ := ptrs_eq_blocks hlisted
  refine ⟨?_, ?_, ?_, ?_⟩
  · rw [built_streaming, hptrs]
  · have hnum : (old.built table).bNumFormats = BitVec.ofNat 8 table.length :=
      (built_header (old.start table) table).2
    have hmax := hfit.formats
    rw [hnum, hlen, toNat_ofNat, mod_eq_of_lt (by omega)]
  · intro block hblock
    obtain ⟨format, hmem, hblock⟩ := mem_filterMap.mp hblock
    exact block_ok htable hfit hmem hblock
  · intro ptr hptr
    obtain rfl | rfl | ⟨format, hmem, slot, hslot, hptr⟩ := ptr_cases hptr
    · exact (header_length_ok htable.length).mpr hfit.formats
    · exact color_length_ok _
    · obtain rfl | ⟨i, hi, rfl⟩ := hptr
      · exact format_length_ok _ slot
      · obtain ⟨slot', hslot', hir⟩ := fit_slot htable hfit hmem
        obtain rfl := some.inj (hslot.symm.trans hslot')
        obtain ⟨frame, hframe⟩ := row_exists hir (hfit.frames format hmem).1
          (hfit.default format hmem) hi
        exact frame_length_ok (built_frame_eq htable.distinct hmem hslot hframe)

/-! ## Copying the list -/

theorem sizes_le (objects : List (List Byte)) : sizes objects ≤ 255 * objects.length := by
  induction objects with
  | nil => exact le_refl 0
  | cons object objects ih =>
    have hbyte : bLength object < 256 := byte_at_lt object 0
    rw [sizes, map_cons, sum_cons, length_cons]
    rw [sizes] at ih
    omega

theorem objects_class_ok (hlist : WellFormed data blocks)
    (hlen : data.streamingData.length ≤ totalFrameDescriptorsNum) :
    ClassOk data.objects 13 := by
  have hmem : ∀ object ∈ data.objects, ∃ ptr, some ptr ∈ data.streamingData ∧
      object = data.object ptr := by
    intro object hobject
    obtain ⟨ptr, hptr, rfl⟩ := mem_map.mp hobject
    obtain ⟨_, hptr, rfl⟩ := mem_filterMap.mp hptr
    exact ⟨ptr, (takeWhile_sublist _).subset hptr, rfl⟩
  refine ⟨?_, ?_, ?_⟩
  · intro object hobject
    obtain ⟨ptr, hptr, rfl⟩ := hmem object hobject
    have hok := hlist.lengths ptr hptr
    exact hok.length.trans_le hok.contents
  · have hfirst : data.objects.headD [] = data.object .inputHeader := by
      unfold FmtArrayData.objects
      rw [hlist.list]
      rfl
    have hok := hlist.lengths .inputHeader (by rw [hlist.list]; exact mem_cons_self)
    rw [hfirst, hok.length]
    exact Nat.le_add_right 13 _
  · have hobjects : data.objects.length ≤ data.streamingData.length := by
      unfold FmtArrayData.objects
      rw [length_map]
      exact (length_filterMap_le _ _).trans (takeWhile_sublist _).length_le
    have hsizes := sizes_le data.objects
    have hmax : data.streamingData.length ≤ 60 := hlen
    omega

theorem copies_ok {cls : List (List Byte)} (hcls : ClassOk cls 13) : CopiesOk cls := by
  constructor
  · intro function stream1 stream2 hfunction hstream1 hstream2
    exact copy_ok hfunction hstream1 hcls hstream2
  · intro function stream1 cls1 stream2 hfunction hstream1 hcls1 hstream2
    refine copy_ok hfunction hstream1 hcls1 fun stream hstream => ?_
    obtain rfl := some.inj hstream
    exact ⟨hstream2, hcls⟩

/-! ## Lists that are not well-formed -/

/-- In infrared there is one frame descriptor more than the format descriptor says. -/
theorem well_formed_fit (htable : TableOk table) (hfits : TableFits table)
    (hlist : WellFormed (old.built table) blocks) : DescriptorsFit table := by
  have hptrs : table.flatMap ptrs = blocks.flatMap FormatBlock.ptrs := by
    have h := hlist.list
    rw [built_streaming] at h
    exact (cons.inj (append_cancel_right h)).2
  have hlisted : ∀ format ∈ table, format.slot.isSome := fun format hmem => by
    obtain ⟨block, -, hslot, -⟩ := block_of_format hptrs hmem
    rw [hslot]
    rfl
  have hir : ∀ format ∈ table, format.slot ≠ some .ir := by
    intro format hmem hslot
    obtain ⟨block, hblock, hslot', hlen⟩ := block_of_format hptrs hmem
    have hsame : block.slot = .ir := some.inj (hslot'.symm.trans hslot)
    have hnum := (hlist.blocks block hblock).num
    rw [hsame, (built_format_eq htable.distinct hmem hslot).1, num, if_pos rfl, hlen,
      toNat_ofNat, mod_eq_of_lt (by omega)] at hnum
    omega
  refine ⟨?_, ?_, ?_, ?_, ?_⟩
  · have hmem : some DescriptorPtr.inputHeader ∈ (old.built table).streamingData := by
      rw [hlist.list]
      exact mem_cons_self
    exact (header_length_ok htable.length).mp (hlist.lengths _ hmem)
  · intro format hmem
    obtain ⟨slot, hslot⟩ := isSome_iff_exists.mp (hlisted format hmem)
    exact ⟨(slot_eq_some.mp hslot).1, (hfits.formats format hmem slot hslot).frames⟩
  · intro format hmem hfcc
    obtain ⟨slot, hslot⟩ := isSome_iff_exists.mp (hlisted format hmem)
    obtain ⟨hne, hslot'⟩ := slot_eq_some.mp hslot
    refine hir format hmem (slot_eq_some.mpr ⟨hne, ?_⟩)
    rw [hfcc]
    rfl
  · intro format hmem
    obtain ⟨slot, hslot⟩ := isSome_iff_exists.mp (hlisted format hmem)
    refine (hfits.formats format hmem slot hslot).default fun hsame => ?_
    exact hir format hmem (hsame ▸ hslot)
  · rw [← ptr_count_eq hlisted]
    exact hfits.ptrs

theorem descriptors_fit (htable : TableOk table) (hok : DescriptorsOk old table) :
    DescriptorsFit table := by
  obtain ⟨data, blocks, hgen, hlist, -⟩ := hok
  obtain ⟨hfits, rfl⟩ := gen_uvc_fmt_array_eq.mp hgen
  exact well_formed_fit htable hfits hlist

end

/-- For which tables the streaming descriptors are in order. -/
theorem descriptors_ok_iff (old : FmtArrayData) (table : List FormatInfo) (htable : TableOk table) :
    DescriptorsOk old table ↔ DescriptorsFit table := by
  refine ⟨descriptors_fit htable, fun hfit => ?_⟩
  have hfits := fit_table_fits htable hfit
  have hlist : WellFormed (old.built table) (table.filterMap block) :=
    built_well_formed htable hfit
  have hlen : (old.built table).streamingData.length ≤ totalFrameDescriptorsNum := by
    have hptrs := hfits.ptrs
    have hbuilt := built_length (old.start table) table
    have hstart : (old.start table).streamingData.length = 1 := rfl
    have hlast : (old.built table).streamingData.length =
        (table.foldl FmtArrayData.addFormat (old.start table)).streamingData.length + 1 :=
      length_append
    omega
  exact ⟨_, _, gen_uvc_fmt_array_eq.mpr ⟨hfits, rfl⟩, hlist,
    copies_ok (objects_class_ok hlist hlen)⟩

def equalFrames (fcc : BitVec 32) (num : Nat) (default : BitVec 32) : FormatInfo :=
  ⟨fcc, List.replicate num (oneInterval 1280 720 width_1280_ne), default⟩

/-- Two formats, one of them with nine frames. -/
theorem nine_frames_ok :
    DescriptorsOk uvcFmtArray
      [equalFrames v4l2PixFmtMjpeg 9 9, equalFrames v4l2PixFmtNv12 1 1] :=
  (descriptors_ok_iff _ _ ⟨by decide, by decide, by decide⟩).mpr
    ⟨by decide, by decide, by decide, by decide, by decide⟩

def tenFrames : List FormatInfo := [equalFrames v4l2PixFmtMjpeg 10 1]

def infrared : List FormatInfo := [equalFrames v4l2PixFmtIr 1 1]

def sixFormats : List FormatInfo :=
  [v4l2PixFmtNv12, v4l2PixFmtYuy2, v4l2PixFmtMjpeg, v4l2PixFmtH264, v4l2PixFmtH265,
    v4l2PixFmtIr].map fun fcc => equalFrames fcc 1 1

theorem some_tables_not_ok :
    (TableOk tenFrames ∧ ¬ DescriptorsOk uvcFmtArray tenFrames) ∧
      (TableOk infrared ∧ ¬ DescriptorsOk uvcFmtArray infrared) ∧
      (TableOk sixFormats ∧ ¬ DescriptorsOk uvcFmtArray sixFormats) := by
  have hten : TableOk tenFrames := ⟨by decide, by decide, by decide⟩
  have hir : TableOk infrared := ⟨by decide, by decide, by decide⟩
  have hsix : TableOk sixFormats := ⟨by decide, by decide, by decide⟩
  refine ⟨⟨hten, fun hok => ?_⟩, ⟨hir, fun hok => ?_⟩, hsix, fun hok => ?_⟩
  · have hfit := descriptors_fit hten hok
    exact absurd (hfit.frames _ mem_cons_self).2 (by decide)
  · have hfit := descriptors_fit hir hok
    exact hfit.fcc _ mem_cons_self rfl
  · have hfit := descriptors_fit hsix hok
    exact absurd hfit.formats (by decide)

end FullhanRtos.Uvc
