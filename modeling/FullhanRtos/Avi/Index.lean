import FullhanRtos.Avi.Container

/-!
# The index of a recording

The entries of `idx1`, which `avi_container_write_frame` notes before it writes a frame and
`avi_container_close` writes behind the frames. `AtEnd.write_frames_index` says what is noted over a
whole recording, `index_agrees_iff` for which frames the index says where the chunks are: `lseek`
has no offsets from 2^31 on.
-/

namespace FullhanRtos.Avi

open Bytes Buffer Riff List

/-- Where a chunk begins among the chunks. -/
def chunkStart (chunks : List Chunk) (i : Nat) : Nat :=
  ((chunks.take i).flatMap Chunk.encode).length

def entryAt (index : Chunk) (i : Nat) : List Byte := (index.data.drop (16 * i)).take 16

def entryField (entry : List Byte) (k : Nat) : Nat := leValue ((entry.drop (4 * k)).take 4)

/-- What an entry should say of the chunk of a frame: its name, whether it is a key frame, where it
begins and its size. -/
structure EntryOk (frame : Frame) (chunk : Chunk) (start : Nat) (entry : List Byte) : Prop where
  id : entry.take 4 = chunk.id
  keyframe : entryField entry 1 = if frame.isKeyframe then 0x10 else 0
  offset : entryField entry 2 = start
  size : entryField entry 3 = chunk.data.length

/-- Behind the header, which has 216 bytes, the file has the chunks and an index, unchanged by what
is patched. Every frame that has an entry is found by it: the offset in it, from the first byte
behind the header, is where the name and the size of the chunk are. -/
def IndexAgrees (frames : List Frame) (chunks : List Chunk) (file : List Byte) : Prop :=
  ∃ index : Chunk, index.id = fourcc 'i' 'd' 'x' '1' ∧
    index.data.length = 16 * min frames.length maxFrameIndex ∧
    file.drop 216 = (chunks ++ [index]).flatMap Chunk.encode ∧
    ∀ i < maxFrameIndex, ∀ frame chunk, frames[i]? = some frame → chunks[i]? = some chunk →
      EntryOk frame chunk (chunkStart chunks i) (entryAt index i) ∧
        (file.drop (216 + entryField (entryAt index i) 2)).take 8 =
          chunk.id ++ leBytes 4 chunk.data.length

variable {width height fps videoType : BitVec 32} {ctx ctx' : RecordContext} {frame : Frame}
  {frames : List Frame} {chunk : Chunk} {chunks : List Chunk} {file : List Byte}
  {entry : FrameIndexEntry} {i : Nat}

/-! ## What is noted -/

def frameEntries (pos : Nat) : List Frame → List Chunk → List FrameIndexEntry
  | frame :: frames, chunk :: chunks =>
    ⟨lseekResult pos, chunk.data.length % 2 ^ 32, frame.isKeyframe⟩ ::
      frameEntries (pos + chunk.encode.length) frames chunks
  | _, _ => []

theorem frame_entries_get (pos : Nat) (hframe : frames[i]? = some frame)
    (hchunk : chunks[i]? = some chunk) :
    (frameEntries pos frames chunks)[i]? =
      some ⟨lseekResult (pos + chunkStart chunks i), chunk.data.length % 2 ^ 32,
        frame.isKeyframe⟩ := by
  induction i generalizing pos frames chunks with
  | zero =>
    cases frames with
    | nil => cases hframe
    | cons first frames =>
      cases chunks with
      | nil => cases hchunk
      | cons head chunks =>
        cases hframe
        cases hchunk
        rfl
  | succ i ih =>
    cases frames with
    | nil => cases hframe
    | cons first frames =>
      cases chunks with
      | nil => cases hchunk
      | cons head chunks =>
        have hstart : chunkStart (head :: chunks) (i + 1) =
            head.encode.length + chunkStart chunks i := by
          rw [chunkStart, take_succ_cons, flatMap_cons, length_append, chunkStart]
        rw [hstart, ← add_assoc]
        exact ih (pos + head.encode.length) hframe hchunk

theorem length_frame_entries (pos : Nat) (hlen : chunks.length = frames.length) :
    (frameEntries pos frames chunks).length = frames.length := by
  induction frames generalizing pos chunks with
  | nil => rfl
  | cons frame frames ih =>
    cases chunks with
    | nil => cases hlen
    | cons chunk chunks =>
      exact congrArg (· + 1) (ih (pos + chunk.encode.length) (Nat.succ.inj hlen))

/-- One frame is noted where it begins, while there is room. -/
theorem write_frame_index {output : List Byte}
    (houtput : outputData ctx.videoType frame.data = some output)
    (hframe : aviContainerWriteFrame ctx frame = some ctx') :
    ctx'.headerSize = ctx.headerSize ∧ ctx'.frameIndex = ctx.frameIndex ++
      [FrameIndexEntry.mk (lseekResult ctx.pos) (output.length % 2 ^ 32) frame.isKeyframe].take
        (maxFrameIndex - ctx.frameIndex.length) := by
  rw [aviContainerWriteFrame, houtput] at hframe
  cases hframe
  have hchunk := (write_chunk_fields (ctx.indexFrame output.length frame.isKeyframe)
    (frameFourcc frame.isKeyframe) output).2.2
  have hheader : (ctx.indexFrame output.length frame.isKeyframe).headerSize = ctx.headerSize := by
    unfold RecordContext.indexFrame
    split_ifs
    · rfl
    · rfl
  refine ⟨?_, hchunk.trans ?_⟩
  · refine Eq.trans ?_ hheader
    show ((ctx.indexFrame output.length frame.isKeyframe).writeChunk _ output).headerSize = _
    unfold RecordContext.writeChunk
    split_ifs
    · rfl
    · rfl
  · unfold RecordContext.indexFrame
    split_ifs with hroom
    · rw [take_of_length_le]
      · rfl
      · exact Nat.sub_pos_of_lt hroom
    · rw [Nat.sub_eq_zero_of_le (not_lt.mp hroom), take_zero, append_nil]

/-- All frames, by induction: the position of the file is where the next chunk begins. -/
theorem AtEnd.write_frames_index (h : AtEnd ctx)
    (hchunks : outputChunks ctx.videoType frames = some chunks)
    (hframes : frames.foldlM aviContainerWriteFrame ctx = some ctx') :
    ctx'.headerSize = ctx.headerSize ∧ ctx'.frameIndex = ctx.frameIndex ++
      (frameEntries ctx.pos frames chunks).take (maxFrameIndex - ctx.frameIndex.length) := by
  induction frames generalizing ctx chunks with
  | nil =>
    cases hframes
    refine ⟨rfl, ?_⟩
    rw [frameEntries, take_nil, append_nil]
    nofun
  | cons frame frames ih =>
    obtain ⟨ctx1, hframe, hrest⟩ := Option.bind_eq_some_iff.mp hframes
    obtain ⟨output, houtput, hfirst⟩ := h.write_frame hframe
    obtain ⟨hheader1, hindex1⟩ := write_frame_index houtput hframe
    rw [output_chunks_cons houtput] at hchunks
    obtain ⟨others, hothers, rfl⟩ := Option.map_eq_some_iff.mp hchunks
    rw [← hfirst.videoType] at hothers
    obtain ⟨hheader, hindex⟩ := ih hfirst.atEnd hothers hrest
    have hpos : ctx1.pos = ctx.pos +
        (Chunk.mk (writeUint32 (frameFourcc frame.isKeyframe)) output).encode.length := by
      rw [hfirst.atEnd, hfirst.file, length_append, h, flatMap_singleton]
    refine ⟨hheader.trans hheader1, ?_⟩
    have hroom (n k : Nat) (noted : FrameIndexEntry) (rest : List FrameIndexEntry) :
        [noted].take (n - k) ++ rest.take (n - (k + ([noted].take (n - k)).length)) =
          (noted :: rest).take (n - k) := by
      obtain hfull | ⟨room, hmore⟩ : n - k = 0 ∨ ∃ room, n - k = room + 1 :=
        Nat.eq_zero_or_eq_succ_pred (n - k) |>.imp id fun h => ⟨_, h⟩
      · have hrest : n - (k + ([noted].take 0).length) = 0 := hfull
        rw [hfull, hrest]
        rfl
      · have hrest : n - (k + 1) = room := by omega
        rw [hmore, take_succ_cons, take_nil, length_singleton, hrest]
        rfl
    rw [hindex, hindex1, append_assoc, hpos, length_append, hroom]
    rfl

/-! ## What is written -/

theorem index_entry_fields (ctx : RecordContext) (entry : FrameIndexEntry) :
    (indexEntry ctx entry).take 4 = writeUint32 (frameFourcc entry.isKeyframe) ∧
      entryField (indexEntry ctx entry) 1 = (if entry.isKeyframe then 0x10 else 0) ∧
      entryField (indexEntry ctx entry) 2 = (entry.offset + (2 ^ 32 - ctx.headerSize)) % 2 ^ 32 ∧
      entryField (indexEntry ctx entry) 3 = entry.size % 2 ^ 32 := by
  have hvalue (value : Nat) : leValue (writeUint32 value) = value % 2 ^ 32 := le_value_bytes 4 value
  have hbehind (value k : Nat) (rest : List Byte) :
      (writeUint32 value ++ rest).drop (4 + k) = rest.drop k := by
    rw [← drop_drop, drop_left' (length_write_uint32 value)]
  have hfirst (value : Nat) (rest : List Byte) :
      (writeUint32 value ++ rest).take 4 = writeUint32 value :=
    take_left' (length_write_uint32 value)
  unfold indexEntry entryField
  rw [append_assoc, append_assoc]
  refine ⟨hfirst _ _, ?_, ?_, ?_⟩
  · rw [hbehind _ 0, drop_zero, hfirst, hvalue]
    split_ifs
    · rfl
    · rfl
  · rw [hbehind _ 4, hbehind _ 0, drop_zero, hfirst, hvalue]
  · rw [hbehind _ 8, hbehind _ 4, hbehind _ 0, drop_zero, take_of_length_le, hvalue]
    exact (length_write_uint32 _).le

/-- An entry is right if the chunk begins below 2^31: only there `lseek` says where. -/
theorem entry_ok_iff {start : Nat} (hid : chunk.id = writeUint32 (frameFourcc frame.isKeyframe))
    (hheader : ctx.headerSize = 216) (hbehind : 216 + start + 8 + chunk.data.length < 2 ^ 32) :
    EntryOk frame chunk start (indexEntry ctx ⟨lseekResult (216 + start),
      chunk.data.length % 2 ^ 32, frame.isKeyframe⟩) ↔ 216 + start < 2 ^ 31 := by
  obtain ⟨hname, hflag, hoffset, hsize⟩ := index_entry_fields ctx
    ⟨lseekResult (216 + start), chunk.data.length % 2 ^ 32, frame.isKeyframe⟩
  have hresult : lseekResult (216 + start) =
      if 216 + start < 2 ^ 31 then 216 + start else 2 ^ 32 - 1 := by
    rw [lseekResult, Nat.mod_eq_of_lt (by omega : 216 + start < 2 ^ 32)]
  constructor
  · intro hok
    have hat := hoffset.symm.trans hok.offset
    dsimp only at hat
    by_contra hfar
    rw [hheader, hresult, if_neg hfar] at hat
    omega
  · intro hnear
    refine ⟨hname.trans hid.symm, hflag, hoffset.trans ?_, hsize.trans ?_⟩
    · dsimp only
      rw [hheader, hresult, if_pos hnear]
      omega
    · dsimp only
      omega

theorem index_entry_at {entries : List FrameIndexEntry} (hentry : entries[i]? = some entry) :
    ((entries.flatMap (indexEntry ctx)).drop (16 * i)).take 16 = indexEntry ctx entry := by
  induction entries generalizing i with
  | nil => cases hentry
  | cons first entries ih =>
    cases i with
    | zero =>
      cases hentry
      exact take_left' (length_index_entry entry)
    | succ i =>
      exact ih hentry

theorem output_chunks_get (hchunks : outputChunks videoType frames = some chunks)
    (hframe : frames[i]? = some frame) :
    ∃ output, outputData videoType frame.data = some output ∧
      chunks[i]? = some ⟨writeUint32 (frameFourcc frame.isKeyframe), output⟩ := by
  induction frames generalizing i chunks with
  | nil => cases hframe
  | cons first frames ih =>
    obtain ⟨output, houtput⟩ : ∃ output, outputData videoType first.data = some output := by
      obtain ⟨chunk, hchunk, -⟩ := Option.bind_eq_some_iff.mp hchunks
      obtain ⟨output, houtput, -⟩ := Option.map_eq_some_iff.mp hchunk
      exact ⟨output, houtput⟩
    rw [output_chunks_cons houtput] at hchunks
    obtain ⟨others, hothers, rfl⟩ := Option.map_eq_some_iff.mp hchunks
    cases i with
    | zero =>
      cases hframe
      exact ⟨output, houtput, rfl⟩
    | succ i =>
      obtain ⟨output', houtput', hget⟩ := ih hothers hframe
      exact ⟨output', houtput', hget⟩

/-- Frames that can be written are written, by induction. -/
theorem AtEnd.write_frames_some (h : AtEnd ctx)
    (hchunks : outputChunks ctx.videoType frames = some chunks) :
    ∃ ctx', frames.foldlM aviContainerWriteFrame ctx = some ctx' := by
  induction frames generalizing ctx chunks with
  | nil => exact ⟨ctx, rfl⟩
  | cons frame frames ih =>
    obtain ⟨output, houtput, -⟩ := output_chunks_get hchunks getElem?_cons_zero
    rw [output_chunks_cons houtput] at hchunks
    obtain ⟨others, hothers, -⟩ := Option.map_eq_some_iff.mp hchunks
    obtain ⟨ctx1, hframe⟩ : ∃ ctx1, aviContainerWriteFrame ctx frame = some ctx1 := by
      rw [aviContainerWriteFrame, houtput]
      exact ⟨_, rfl⟩
    obtain ⟨_, _, hfirst⟩ := h.write_frame hframe
    rw [← hfirst.videoType] at hothers
    obtain ⟨ctx', hrest⟩ := ih hfirst.atEnd hothers
    refine ⟨ctx', ?_⟩
    rw [foldlM_cons, hframe]
    exact hrest

theorem record_avi_indexed (hfile : recordAvi width height fps videoType frames = some file) :
    ∃ chunks last, outputChunks videoType frames = some chunks ∧
      chunks.length = frames.length ∧ last.headerSize = 216 ∧
      last.frameIndex = (frameEntries 216 frames chunks).take maxFrameIndex ∧
      file.length = 216 + ((chunks ++ [indexChunk last]).flatMap Chunk.encode).length ∧
      file.drop 216 = (chunks ++ [indexChunk last]).flatMap Chunk.encode := by
  obtain ⟨ctx, hinit, hrest⟩ := Option.bind_eq_some_iff.mp hfile
  obtain ⟨last, hframes, hclose⟩ := Option.bind_eq_some_iff.mp hrest
  cases hclose
  obtain ⟨hstart, hheader, hvideo, hoffset, hsize, hcount, hindex⟩ := init_fields hinit
  have hbound : ctx.frameCount < 2 ^ 32 := by
    rw [hcount]
    decide
  obtain ⟨chunks, hchunks, hlen, happended⟩ := hstart.write_frames hbound hframes
  obtain ⟨hheaderSize, hnoted⟩ := hstart.write_frames_index hchunks hframes
  have hpos : ctx.pos = 216 := by
    rw [hstart, hheader, length_avi_header]
  rw [hindex, hpos, nil_append, length_nil, Nat.sub_zero] at hnoted
  have hbody := happended.file
  rw [hheader] at hbody
  obtain ⟨riffSize, movi, hclose⟩ :=
    close_eq happended.atEnd (happended.moviOffset.trans hoffset) hbody
  rw [hvideo] at hchunks
  refine ⟨chunks, last, hchunks, hlen, hheaderSize.trans hsize, hnoted, ?_, ?_⟩
  · rw [hclose, length_append, length_avi_header, flatMap_append, flatMap_singleton]
  · rw [hclose, drop_left' length_avi_header, flatMap_append, flatMap_singleton]

theorem length_index_chunk (last : RecordContext) :
    (indexChunk last).encode.length = 8 + 16 * last.frameIndex.length := by
  have heven : 16 * last.frameIndex.length % 2 = 0 := by omega
  unfold Chunk.encode indexChunk
  simp only [length_append, length_write_uint32, length_le_bytes, length_replicate,
    length_index, heven]
  omega

theorem length_record_le (hfile : recordAvi width height fps videoType frames = some file)
    (hchunks : outputChunks videoType frames = some chunks) :
    file.length ≤ 224 + (chunks.flatMap Chunk.encode).length + 16 * frames.length := by
  obtain ⟨others, last, hothers, hlen, -, hnoted, hsize, -⟩ := record_avi_indexed hfile
  cases hchunks.symm.trans hothers
  have hentries : last.frameIndex.length ≤ frames.length := by
    rw [hnoted, length_take, length_frame_entries 216 hlen]
    exact min_le_right _ _
  rw [hsize, flatMap_append, flatMap_singleton, length_append, length_index_chunk]
  omega

theorem drop_chunk_start (hchunk : chunks[i]? = some chunk) (rest : List Chunk) :
    ((chunks ++ rest).flatMap Chunk.encode).drop (chunkStart chunks i) =
      chunk.encode ++ (chunks.drop (i + 1) ++ rest).flatMap Chunk.encode := by
  obtain ⟨hlt, hget⟩ := List.getElem?_eq_some_iff.mp hchunk
  have hsplit : chunks = chunks.take i ++ chunk :: chunks.drop (i + 1) := by
    rw [← hget, getElem_cons_drop, take_append_drop]
  conv_lhs => rw [hsplit]
  have hstart : chunkStart (chunks.take i ++ chunk :: chunks.drop (i + 1)) i =
      ((chunks.take i).flatMap Chunk.encode).length := by
    rw [← hsplit, chunkStart]
  rw [hstart, append_assoc, flatMap_append, drop_left' rfl, cons_append, flatMap_cons]

theorem take_encode (hid : chunk.id.length = 4) (rest : List Byte) :
    (chunk.encode ++ rest).take 8 = chunk.id ++ leBytes 4 chunk.data.length := by
  have hheader : (chunk.id ++ leBytes 4 chunk.data.length).length = 8 := by
    rw [length_append, hid, length_le_bytes]
  unfold Chunk.encode
  rw [append_assoc, append_assoc, take_left' hheader]

theorem index_agrees_record (hfile : recordAvi width height fps videoType frames = some file)
    (hchunks : outputChunks videoType frames = some chunks) (hfits : file.length < 2 ^ 32) :
    IndexAgrees frames chunks file ↔
      ∀ i < min frames.length maxFrameIndex, 216 + chunkStart chunks i < 2 ^ 31 := by
  obtain ⟨others, last, hothers, hlen, hheader, hnoted, hsize, hbody⟩ := record_avi_indexed hfile
  cases hchunks.symm.trans hothers
  have hindexLength : (indexChunk last).data.length = 16 * min frames.length maxFrameIndex := by
    show (last.frameIndex.flatMap (indexEntry last)).length = _
    rw [length_index, hnoted, length_take, length_frame_entries 216 hlen, min_comm]
  have hfour : (fourcc 'i' 'd' 'x' '1').length = 4 := rfl
  have hchunk (i : Nat) (hi : i < maxFrameIndex) (frame : Frame) (chunk : Chunk)
      (hframe : frames[i]? = some frame) (hchunk : chunks[i]? = some chunk) :
      (EntryOk frame chunk (chunkStart chunks i) (entryAt (indexChunk last) i) ↔
        216 + chunkStart chunks i < 2 ^ 31) ∧
      (file.drop (216 + chunkStart chunks i)).take 8 = chunk.id ++ leBytes 4 chunk.data.length := by
    have hid : chunk.id = writeUint32 (frameFourcc frame.isKeyframe) := by
      obtain ⟨output, -, houtput⟩ := output_chunks_get hchunks hframe
      cases hchunk.symm.trans houtput
      rfl
    have hidLength : chunk.id.length = 4 := by
      rw [hid, length_write_uint32]
    have hat : file.drop (216 + chunkStart chunks i) =
        chunk.encode ++ (chunks.drop (i + 1) ++ [indexChunk last]).flatMap Chunk.encode := by
      rw [← drop_drop, hbody, drop_chunk_start hchunk]
    have hbehind : 216 + chunkStart chunks i + 8 + chunk.data.length < 2 ^ 32 := by
      have hrest := congrArg List.length hat
      rw [length_drop, length_append] at hrest
      have hencode : 8 + chunk.data.length ≤ chunk.encode.length := by
        unfold Chunk.encode
        simp only [length_append, length_le_bytes, hidLength]
        omega
      omega
    have hnote : last.frameIndex[i]? = some ⟨lseekResult (216 + chunkStart chunks i),
        chunk.data.length % 2 ^ 32, frame.isKeyframe⟩ := by
      rw [hnoted, getElem?_take_of_lt hi, frame_entries_get 216 hframe hchunk]
    have hentry : entryAt (indexChunk last) i = indexEntry last
        ⟨lseekResult (216 + chunkStart chunks i), chunk.data.length % 2 ^ 32,
          frame.isKeyframe⟩ := index_entry_at hnote
    rw [hentry, hat, take_encode hidLength]
    exact ⟨entry_ok_iff hid hheader hbehind, rfl⟩
  constructor
  · rintro ⟨index, hid, hdata, hbytes, hentries⟩ i hi
    obtain ⟨hin, hroom⟩ := Nat.lt_min.mp hi
    have hsame : index.encode = (indexChunk last).encode := by
      have hboth := hbytes.symm.trans hbody
      rw [flatMap_append, flatMap_append, flatMap_singleton, flatMap_singleton] at hboth
      exact append_cancel_left hboth
    have hindex : index.data = (indexChunk last).data :=
      encode_data_inj ((congrArg List.length hid).trans hfour) hsame
    obtain ⟨hok, -⟩ := hentries i hroom frames[i] chunks[i] (getElem?_eq_getElem hin)
      (getElem?_eq_getElem (hlen ▸ hin))
    have hentry : entryAt index i = entryAt (indexChunk last) i := by
      rw [entryAt, hindex, entryAt]
    rw [hentry] at hok
    exact (hchunk i hroom _ _ (getElem?_eq_getElem hin)
      (getElem?_eq_getElem (hlen ▸ hin))).1.mp hok
  · intro hnear
    refine ⟨indexChunk last, rfl, hindexLength, hbody,
      fun i hroom frame chunk hframe hchunks' => ?_⟩
    obtain ⟨hiff, hlands⟩ := hchunk i hroom frame chunk hframe hchunks'
    obtain ⟨hin, -⟩ := List.getElem?_eq_some_iff.mp hframe
    have hok := hiff.mpr (hnear i (Nat.lt_min.mpr ⟨hin, hroom⟩))
    refine ⟨hok, ?_⟩
    rw [hok.offset]
    exact hlands

theorem record_avi_some (hfps : fps ≠ 0) (hchunks : outputChunks videoType frames = some chunks) :
    ∃ file, recordAvi width height fps videoType frames = some file := by
  obtain ⟨ctx, hinit⟩ : ∃ ctx, aviContainerInit width height fps videoType = some ctx := by
    rw [aviContainerInit, if_neg hfps]
    exact ⟨_, rfl⟩
  obtain ⟨hstart, -, hvideo, -⟩ := init_fields hinit
  rw [← hvideo] at hchunks
  obtain ⟨last, hframes⟩ := hstart.write_frames_some hchunks
  refine ⟨aviContainerClose last, ?_⟩
  rw [recordAvi, hinit]
  show (frames.foldlM aviContainerWriteFrame ctx).bind _ = _
  rw [hframes]
  rfl

/-- For which frames the index is right: they are written without leaving a buffer, and every frame
that has an entry begins below 2^31. -/
theorem index_agrees_iff (hfps : fps ≠ 0)
    (hfits : ∀ file, recordAvi width height fps videoType frames = some file →
      file.length < 2 ^ 32) :
    (∃ file chunks, recordAvi width height fps videoType frames = some file ∧
      outputChunks videoType frames = some chunks ∧ IndexAgrees frames chunks file) ↔
      ∃ chunks, outputChunks videoType frames = some chunks ∧
        ∀ i < min frames.length maxFrameIndex, 216 + chunkStart chunks i < 2 ^ 31 := by
  constructor
  · rintro ⟨file, chunks, hfile, hchunks, hagrees⟩
    exact ⟨chunks, hchunks, (index_agrees_record hfile hchunks (hfits file hfile)).mp hagrees⟩
  · rintro ⟨chunks, hchunks, hnear⟩
    obtain ⟨file, hfile⟩ := record_avi_some hfps hchunks
    exact ⟨file, chunks, hfile, hchunks,
      (index_agrees_record hfile hchunks (hfits file hfile)).mpr hnear⟩

/-- A recording with both kinds of frames. -/
theorem small_recording_agrees :
    ∃ file chunks, recordAvi 640 480 25 2 [⟨[0xff, 0xd8, 0xff], true⟩, ⟨[0xff], false⟩] =
        some file ∧
      outputChunks 2 [⟨[0xff, 0xd8, 0xff], true⟩, ⟨[0xff], false⟩] = some chunks ∧
      IndexAgrees [⟨[0xff, 0xd8, 0xff], true⟩, ⟨[0xff], false⟩] chunks file := by
  have hchunks : outputChunks 2 [⟨[0xff, 0xd8, 0xff], true⟩, ⟨[0xff], false⟩] =
      some [⟨writeUint32 aviFourcc00dc, [0xff, 0xd8, 0xff]⟩,
        ⟨writeUint32 aviFourcc00db, [0xff]⟩] := rfl
  refine (index_agrees_iff (by decide) fun file hfile => ?_).mpr ⟨_, hchunks, by decide⟩
  exact lt_of_le_of_lt (length_record_le hfile hchunks) (by decide)

def longAndShort (n : Nat) : List Frame := [⟨replicate n 0xff, true⟩, ⟨[0xff], false⟩]

/-- The entry of a frame behind 2^31 bytes is wrong, in a file of less than 2^32. -/
theorem far_frame_not_found :
    ∃ file, recordAvi 640 480 25 2 (longAndShort 2147483647) = some file ∧
      file.length < 2 ^ 32 ∧ ∀ chunks, outputChunks 2 (longAndShort 2147483647) = some chunks →
        ¬ IndexAgrees (longAndShort 2147483647) chunks file := by
  -- the long frame is never evaluated
  obtain ⟨n, hn⟩ : ∃ n, n = 2147483647 := ⟨_, rfl⟩
  rw [← hn]
  have hchunks : outputChunks 2 (longAndShort n) =
      some [⟨writeUint32 aviFourcc00dc, replicate n 0xff⟩,
        ⟨writeUint32 aviFourcc00db, [0xff]⟩] := rfl
  have hcount : (longAndShort n).length = 2 := rfl
  have hlong : (Chunk.mk (writeUint32 aviFourcc00dc) (replicate n 0xff)).encode.length =
      8 + n + n % 2 := by
    simp only [Chunk.encode, length_append, length_write_uint32, length_le_bytes, length_replicate]
  have hshort : (Chunk.mk (writeUint32 aviFourcc00db) [0xff]).encode.length = 10 := rfl
  have hsome : ∃ file, recordAvi 640 480 25 2 (longAndShort n) = some file :=
    record_avi_some (by decide) hchunks
  obtain ⟨file, hfile⟩ := hsome
  have hfits : file.length < 2 ^ 32 := by
    have hle := length_record_le hfile hchunks
    rw [flatMap_cons, flatMap_singleton, length_append, hlong, hshort, hcount]
      at hle
    omega
  refine ⟨file, hfile, hfits, fun chunks hothers hagrees => ?_⟩
  have hnear := (index_agrees_record hfile hothers hfits).mp hagrees 1 (by rw [hcount]; decide)
  rw [Option.some.inj (hothers.symm.trans hchunks), chunkStart, take_succ_cons,
    take_zero, flatMap_singleton, hlong] at hnear
  omega

end FullhanRtos.Avi
