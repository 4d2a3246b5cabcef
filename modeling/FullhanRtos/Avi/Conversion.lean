import FullhanRtos.Avi.Container
import FullhanRtos.Lib.NalUnits

/-!
# Start codes in a recording

`avi_container_write_frame` replaces the lengths before the units of a frame by start codes, unless
the frame has start codes already, and tells the two forms apart by the first bytes.
`convert_loop_eq` says what its loop writes, `frame_ok_iff` for which frames the right form is
written and no buffer is left: three zeros are taken for a start code, and 00 00 01 for a length.
-/

namespace FullhanRtos.Avi

open Bytes Buffer Riff NalUnits List

/-- The chunk of the frame, with this data, is what is appended to the file. -/
def Stored (ctx : RecordContext) (frame : Frame) (output : List Byte) : Prop :=
  ∃ ctx', aviContainerWriteFrame ctx frame = some ctx' ∧
    ctx'.file = ctx.file ++ (Chunk.mk (writeUint32 (frameFourcc frame.isKeyframe)) output).encode

/-- Units behind their lengths are stored behind start codes of four bytes, units behind start codes
are stored as they are, and no byte is read behind the frame or written behind `conv_buffer`. -/
structure FrameOk (ctx : RecordContext) (frame : Frame) : Prop where
  lengths : ∀ nals, nals ≠ [] → (∀ nal ∈ nals, Sized nal) → frame.data = avcc nals →
    Stored ctx frame (annexB (nals.map (Coded.mk true)))
  startCodes : ∀ units, units ≠ [] → (∀ unit ∈ units, unit.nal ≠ []) →
    frame.data = annexB units → Stored ctx frame frame.data
  inside : (aviContainerWriteFrame ctx frame).isSome

/-- The frames whose form the code recognises. With three zeros in front, a frame may not be units
behind lengths, unless each has one byte; without, it may not be a start code of three bytes and so
many bytes that the code is also a length, and the units behind lengths in front fit in
`conv_buffer`. -/
def Recognised (data : List Byte) : Prop :=
  4 ≤ data.length ∧
    if data.take 3 = [0, 0, 0] then
      ∀ nals, (∀ nal ∈ nals, Sized nal) → data = avcc nals → ∀ nal ∈ nals, nal.length = 1
    else
      (data.take 3 = [0, 0, 1] → data.length < 4 + beValue (data.take 4)) ∧
        ∀ nals, (∀ nal ∈ nals, Sized nal) → avcc nals <+: data →
          (avcc nals).length ≤ convBufferSize

variable {ctx : RecordContext} {frame : Frame} {nals : List (List Byte)}
  {data conv output rest nal : List Byte} {videoType : BitVec 32}

/-! ## The loop -/

theorem convert_loop_unit (hsized : Sized nal) :
    convertLoop (lengthPrefixed nal ++ rest) conv =
      if convBufferSize < conv.length + 4 + nal.length then none
      else convertLoop rest (conv ++ (Coded.mk true nal).encode) := by
  have hpos := length_pos_of_ne_nil hsized.ne_nil
  have hlen : (lengthPrefixed nal ++ rest).length = 4 + nal.length + rest.length := by
    rw [length_append, length_prefixed]
  have hbehind : (lengthPrefixed nal ++ rest).drop (4 + nal.length) = rest :=
    drop_left' (length_prefixed nal)
  have hnal : ((lengthPrefixed nal ++ rest).drop 4).take nal.length = nal := by
    rw [lengthPrefixed, append_assoc, drop_left' (length_be_bytes 4 _), take_left]
  rw [convertLoop, hlen, if_neg (by omega)]
  rw [hsized.value, if_neg (by omega), hbehind, hnal, append_assoc]
  rfl

/-- Something that no unit begins is left out. -/
theorem convert_loop_stuck (hstuck : ∀ nal, Sized nal → ¬ lengthPrefixed nal <+: rest) :
    convertLoop rest conv = some conv := by
  rw [convertLoop]
  by_cases hshort : rest.length ≤ 4
  · rw [if_pos hshort]
  · rw [if_neg hshort]
    refine if_pos ?_
    by_contra hunit
    obtain ⟨nal, hsized, -, hbegins⟩ := exists_prefixed rfl (fun hzero => hunit (.inl hzero))
      (by
        by_contra hlong
        exact hunit (.inr (by omega)))
    exact hstuck nal hsized hbegins

/-- The units in front, by induction: as many bytes are written as were read. -/
theorem convert_loop_eq (hnals : ∀ nal ∈ nals, Sized nal)
    (hstuck : ∀ nal, Sized nal → ¬ lengthPrefixed nal <+: rest)
    (hconv : conv.length ≤ convBufferSize) :
    convertLoop (avcc nals ++ rest) conv =
      if conv.length + (avcc nals).length ≤ convBufferSize then
        some (conv ++ annexB (nals.map (Coded.mk true)))
      else none := by
  induction nals generalizing conv with
  | nil =>
    have hfits : conv.length + (avcc []).length ≤ convBufferSize := hconv
    rw [if_pos hfits]
    exact (convert_loop_stuck hstuck).trans (congrArg some (append_nil conv).symm)
  | cons nal nals ih =>
    obtain ⟨hsized, hrest⟩ := forall_mem_cons.mp hnals
    have hlen : (avcc (nal :: nals)).length = 4 + nal.length + (avcc nals).length := by
      rw [avcc_cons, length_append, length_prefixed]
    have hconv' : (conv ++ (Coded.mk true nal).encode).length = conv.length + 4 + nal.length := by
      rw [length_append, length_encode_long, add_assoc]
    rw [avcc_cons, append_assoc, convert_loop_unit hsized, ← avcc_cons, hlen]
    split_ifs with hfull hfits hfits
    · omega
    · rfl
    · rw [ih hrest (hconv'.trans_le (not_lt.mp hfull)), if_pos (by omega), append_assoc]
      rfl
    · rw [ih hrest (hconv'.trans_le (not_lt.mp hfull)), if_neg (by omega)]

/-! ## The form of a frame -/

/-- Three zeros are taken for a start code. -/
theorem output_data_zeros {d : Byte} :
    outputData videoType (0 :: 0 :: 0 :: d :: rest) = some (0 :: 0 :: 0 :: d :: rest) := by
  unfold outputData
  split_ifs with hjpeg
  · rfl
  · exact if_pos ⟨rfl, rfl, .inr rfl⟩

theorem output_data_length (hvideo : videoType ≠ 2) (hlen : 4 ≤ data.length)
    (hzeros : data.take 3 ≠ [0, 0, 0]) :
    outputData videoType data =
      if 0 < beValue (data.take 4) ∧ beValue (data.take 4) ≤ data.length - 4 then
        convertLoop data []
      else some data := by
  match data, hlen, hzeros with
  | d0 :: d1 :: d2 :: d3 :: rest, hlen, hzeros =>
    have hnot : ¬ (d0 = 0 ∧ d1 = 0 ∧ (d2 = 0 ∧ d3 = 1 ∨ d2 = 0)) := by
      rintro ⟨rfl, rfl, hd2⟩
      obtain ⟨rfl, -⟩ | rfl := hd2
      · exact hzeros rfl
      · exact hzeros rfl
    rw [outputData, if_neg hvideo]
    rw [if_neg hnot]
    rfl

theorem output_data_units (hvideo : videoType ≠ 2) (hlen : 4 ≤ (avcc nals ++ rest).length)
    (hzeros : (avcc nals ++ rest).take 3 ≠ [0, 0, 0]) (hnals : ∀ nal ∈ nals, Sized nal)
    (hstuck : ∀ nal, Sized nal → ¬ lengthPrefixed nal <+: rest) :
    outputData videoType (avcc nals ++ rest) =
      if nals = [] then some rest
      else if (avcc nals).length ≤ convBufferSize then
        some (annexB (nals.map (Coded.mk true)))
      else none := by
  rw [output_data_length hvideo hlen hzeros]
  cases nals with
  | nil =>
    rw [if_pos rfl, if_neg]
    · rfl
    · rintro ⟨hpos, hle⟩
      have hfour : beValue ((avcc [] ++ rest).take 4) + 4 ≤ rest.length := by
        have hsame : (avcc [] ++ rest).length = rest.length := rfl
        omega
      obtain ⟨nal, hsized, -, hbegins⟩ := exists_prefixed rfl hpos.ne' hfour
      exact hstuck nal hsized hbegins
  | cons nal nals =>
    obtain ⟨hsized, -⟩ := forall_mem_cons.mp hnals
    have hvalue : beValue ((avcc (nal :: nals) ++ rest).take 4) = nal.length := by
      rw [avcc_cons, append_assoc, hsized.value]
    have hunit : nal.length ≤ (avcc (nal :: nals) ++ rest).length - 4 := by
      rw [avcc_cons, append_assoc, length_append, length_prefixed]
      omega
    rw [hvalue, if_pos ⟨length_pos_of_ne_nil hsized.ne_nil, hunit⟩, if_neg (cons_ne_nil nal nals),
      convert_loop_eq hnals hstuck (Nat.zero_le _), length_nil, zero_add, nil_append]

theorem output_data_short (hvideo : videoType ≠ 2) (hshort : data.length < 4) :
    outputData videoType data = none := by
  match data, hshort with
  | [], _ | [_], _ | [_, _], _ | [_, _, _], _ => exact if_neg hvideo

theorem stored_iff (h : AtEnd ctx) :
    Stored ctx frame output ↔ outputData ctx.videoType frame.data = some output := by
  constructor
  · rintro ⟨ctx', hframe, hfile⟩
    obtain ⟨written, hwritten, happended⟩ := h.write_frame hframe
    have hboth := happended.file.symm.trans hfile
    rw [flatMap_singleton] at hboth
    have hencode := append_cancel_left hboth
    have hsame := encode_data_inj (by rfl) hencode
    rw [hwritten]
    exact congrArg some hsame
  · intro houtput
    have hframe : ∃ ctx', aviContainerWriteFrame ctx frame = some ctx' := by
      rw [aviContainerWriteFrame, houtput]
      exact ⟨_, rfl⟩
    obtain ⟨ctx', hframe⟩ := hframe
    obtain ⟨written, hwritten, happended⟩ := h.write_frame hframe
    cases houtput.symm.trans hwritten
    refine ⟨ctx', hframe, ?_⟩
    rw [happended.file, flatMap_singleton]

theorem write_frame_inside :
    (aviContainerWriteFrame ctx frame).isSome ↔ (outputData ctx.videoType frame.data).isSome := by
  rw [aviContainerWriteFrame, Option.isSome_map]

theorem eq_of_take_three {d0 d1 d2 : Byte} (hlen : 4 ≤ data.length)
    (hthree : data.take 3 = [d0, d1, d2]) : ∃ d rest, data = d0 :: d1 :: d2 :: d :: rest := by
  match data, hlen with
  | e0 :: e1 :: e2 :: d :: rest, _ =>
    cases hthree
    exact ⟨d, rest, rfl⟩

theorem not_prefixed_nil (nal : List Byte) (_ : Sized nal) : ¬ lengthPrefixed nal <+: [] := by
  intro hbegins
  have hlen := hbegins.length_le
  rw [length_prefixed, length_nil] at hlen
  omega

theorem frame_ok_of_recognised (h : AtEnd ctx) (hvideo : ctx.videoType ≠ 2)
    (hframe : Recognised frame.data) : FrameOk ctx frame := by
  obtain ⟨hlen, hform⟩ := hframe
  by_cases hzeros : frame.data.take 3 = [0, 0, 0]
  · rw [if_pos hzeros] at hform
    obtain ⟨d, rest, hdata⟩ := eq_of_take_three hlen hzeros
    have houtput : outputData ctx.videoType frame.data = some frame.data := by
      rw [hdata]
      exact output_data_zeros
    refine ⟨fun nals _ hnals havcc => ?_, fun _ _ _ _ => (stored_iff h).mpr houtput, ?_⟩
    · rw [stored_iff h, houtput, ← (avcc_eq_annex_b_iff hnals).mpr (hform nals hnals havcc), havcc]
    · rw [write_frame_inside, houtput]
      rfl
  · rw [if_neg hzeros] at hform
    obtain ⟨hcode, hfits⟩ := hform
    refine ⟨fun nals hne hnals havcc => ?_, fun units hne hnals hunits => ?_, ?_⟩
    · rw [stored_iff h, havcc]
      have hall : avcc nals = avcc nals ++ [] := (append_nil _).symm
      rw [havcc] at hlen hzeros
      rw [hall] at hlen hzeros ⊢
      rw [output_data_units hvideo hlen hzeros hnals not_prefixed_nil, if_neg hne,
        if_pos (hfits nals hnals (havcc ▸ prefix_refl _))]
    · obtain ⟨d, rest, hdata⟩ | ⟨d, rest, hdata⟩ := annex_b_starts hne hnals hunits
      · exact absurd (congrArg (List.take 3) hdata) hzeros
      · have hlong := hcode (congrArg (List.take 3) hdata)
        rw [stored_iff h, output_data_length hvideo hlen hzeros, if_neg]
        omega
    · obtain ⟨nals, rest, hnals, hdata, hstuck⟩ := exists_avcc_append frame.data
      rw [hdata] at hlen hzeros
      rw [write_frame_inside, hdata, output_data_units hvideo hlen hzeros hnals hstuck,
        if_pos (hfits nals hnals ⟨rest, hdata.symm⟩)]
      split_ifs
      · rfl
      · rfl

theorem short_code_lt (h : AtEnd ctx) (hvideo : ctx.videoType ≠ 2) (hok : FrameOk ctx frame)
    (hlen : 4 ≤ frame.data.length) (hcode : frame.data.take 3 = [0, 0, 1]) :
    frame.data.length < 4 + beValue (frame.data.take 4) := by
  obtain ⟨d, tail, hdata⟩ := eq_of_take_three hlen hcode
  have hzeros : frame.data.take 3 ≠ [0, 0, 0] := by
    rw [hcode]
    decide
  have hstored : outputData ctx.videoType frame.data = some frame.data := by
    refine (stored_iff h).mp (hok.startCodes [⟨false, d :: tail⟩] (cons_ne_nil _ _) ?_ ?_)
    · intro unit hmem
      rw [mem_singleton.mp hmem]
      exact cons_ne_nil d tail
    · rw [hdata]
      exact (append_nil _).symm
  by_contra hle
  obtain ⟨nals, rest, hnals, hsplit, hstuck⟩ := exists_avcc_append frame.data
  rw [hsplit] at hlen hzeros
  rw [hsplit, output_data_units hvideo hlen hzeros hnals hstuck, ← hsplit] at hstored
  cases nals with
  | nil =>
    have hpos : beValue (frame.data.take 4) ≠ 0 := by
      rw [hdata]
      show d.toNat + 256 * (1 + 256 * (0 + 256 * (0 + 256 * 0))) ≠ 0
      omega
    obtain ⟨nal, hsized, -, hbegins⟩ := exists_prefixed rfl hpos (by omega)
    rw [hsplit] at hbegins
    exact hstuck nal hsized hbegins
  | cons nal nals =>
    rw [if_neg (cons_ne_nil nal nals)] at hstored
    split_ifs at hstored
    -- what is written begins with a start code of four bytes
    have hbytes := Option.some.inj hstored
    rw [hdata] at hbytes
    cases hbytes

/-- Exactly those are. -/
theorem frame_ok_iff (h : AtEnd ctx) (hvideo : ctx.videoType ≠ 2) :
    FrameOk ctx frame ↔ Recognised frame.data := by
  refine ⟨fun hok => ?_, frame_ok_of_recognised h hvideo⟩
  have hlen : 4 ≤ frame.data.length := by
    by_contra hshort
    have hinside := write_frame_inside.mp hok.inside
    rw [output_data_short hvideo (not_le.mp hshort)] at hinside
    cases hinside
  refine ⟨hlen, ?_⟩
  by_cases hzeros : frame.data.take 3 = [0, 0, 0]
  · rw [if_pos hzeros]
    intro nals hnals havcc
    cases nals with
    | nil => nofun
    | cons nal nals =>
      have hstored := (stored_iff h).mp (hok.lengths _ (cons_ne_nil nal nals) hnals havcc)
      obtain ⟨d, rest, hdata⟩ := eq_of_take_three hlen hzeros
      have houtput : outputData ctx.videoType frame.data = some frame.data := by
        rw [hdata]
        exact output_data_zeros
      refine (avcc_eq_annex_b_iff hnals).mp ?_
      rw [← havcc]
      exact Option.some.inj (houtput.symm.trans hstored)
  · rw [if_neg hzeros]
    refine ⟨short_code_lt h hvideo hok hlen, fun nals hnals hfront => ?_⟩
    by_contra hlong
    obtain ⟨tail, hdata⟩ := hfront
    obtain ⟨others, rest, hothers, htail, hstuck⟩ := exists_avcc_append tail
    have hall : frame.data = avcc (nals ++ others) ++ rest := by
      rw [← hdata, htail, avcc, avcc, avcc, flatMap_append, append_assoc]
    have hinside := write_frame_inside.mp hok.inside
    have hsized : ∀ nal ∈ nals ++ others, Sized nal := by
      intro nal hmem
      exact (mem_append.mp hmem).elim (hnals nal) (hothers nal)
    have hne : nals ++ others ≠ [] := by
      intro hnil
      rw [(append_eq_nil_iff.mp hnil).1] at hlong
      exact hlong (Nat.zero_le _)
    have htotal : convBufferSize < (avcc (nals ++ others)).length := by
      rw [avcc, flatMap_append, length_append]
      exact Nat.lt_add_right _ (not_le.mp hlong)
    rw [hall] at hlen hzeros
    rw [hall, output_data_units hvideo hlen hzeros hsized hstuck, if_neg hne,
      if_neg (not_le.mpr htotal)] at hinside
    cases hinside

def h264Container : Option RecordContext := aviContainerInit 1280 720 30 0

/-- Two units, of 512 bytes and of one. -/
theorem two_units_ok : ∃ ctx, h264Container = some ctx ∧
    FrameOk ctx ⟨lengthPrefixed (replicate 512 0x65) ++ lengthPrefixed [0x41], true⟩ := by
  obtain ⟨ctx, hinit⟩ : ∃ ctx, h264Container = some ctx := ⟨_, rfl⟩
  obtain ⟨hend, -, hvideo, -⟩ := init_fields hinit
  have hne : ctx.videoType ≠ 2 := by
    rw [hvideo]
    decide
  refine ⟨ctx, hinit, (frame_ok_iff hend hne).mpr ?_⟩
  have hlen : (lengthPrefixed (replicate 512 0x65) ++ lengthPrefixed [0x41]).length =
      521 := by
    rw [length_append, length_prefixed, length_prefixed, length_replicate, length_singleton]
  have hthree : (lengthPrefixed (replicate 512 0x65) ++ lengthPrefixed [0x41]).take 3 =
      [0, 0, 2] := by
    rw [lengthPrefixed, length_replicate]
    rfl
  refine ⟨by rw [hlen]; decide, ?_⟩
  rw [hthree, if_neg (by decide)]
  refine ⟨fun hcode => absurd hcode (by decide), fun nals _ hfront => ?_⟩
  exact (hfront.length_le.trans_eq hlen).trans (by decide)

/-- A unit of two bytes behind its length is stored with the length. -/
theorem short_unit_not_converted : ∃ ctx, h264Container = some ctx ∧
    ¬ FrameOk ctx ⟨lengthPrefixed [0x65, 0x88], true⟩ := by
  obtain ⟨ctx, hinit⟩ : ∃ ctx, h264Container = some ctx := ⟨_, rfl⟩
  obtain ⟨hend, -, hvideo, -⟩ := init_fields hinit
  refine ⟨ctx, hinit, fun hok => ?_⟩
  have hsized : ∀ nal ∈ [[0x65, 0x88]], Sized nal := by
    intro nal hmem
    rw [mem_singleton.mp hmem]
    exact ⟨cons_ne_nil _ _, by decide⟩
  have hstored := (stored_iff hend).mp (hok.lengths [[0x65, 0x88]] (cons_ne_nil _ _) hsized rfl)
  rw [hvideo] at hstored
  exact absurd hstored (by decide)

end FullhanRtos.Avi
