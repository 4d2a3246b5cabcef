import FullhanRtos.Lib.Buffer
import FullhanRtos.Lib.Riff

/-!
# Recording into an AVI file

`avi_container_init`, `avi_container_write_frame` and `avi_container_close` of
`uvc_record_container.c`, as what they leave in the file, and a parser of AVI files by the sizes of
their chunks. `avi_never_ok` says that no file is well formed, because the size of the header list
is written over its name.
-/

namespace FullhanRtos.Avi

open Bytes Buffer Riff List

/-! ## The recorder -/

/-- The constants of the source, whose lowest byte is the first one in the file. -/
abbrev aviFourccRiff : Nat := 0x46464952
abbrev aviFourccAvi : Nat := 0x49564120
abbrev aviFourccList : Nat := 0x5453494C
abbrev aviFourccHdrl : Nat := 0x6C726468
abbrev aviFourccAvih : Nat := 0x68697661
abbrev aviFourccStrl : Nat := 0x6C727473
abbrev aviFourccStrh : Nat := 0x68727473
abbrev aviFourccStrf : Nat := 0x66727473
abbrev aviFourccMovi : Nat := 0x69766F6D
abbrev aviFourcc00db : Nat := 0x62643030
abbrev aviFourcc00dc : Nat := 0x63643030
abbrev aviFourccIdx1 : Nat := 0x31786469

abbrev maxFrameIndex : Nat := 3000

def writeUint32 (val : Nat) : List Byte := leBytes 4 val

def writeUint16 (val : Nat) : List Byte := leBytes 2 val

structure FrameIndexEntry where
  offset : Nat
  size : Nat
  isKeyframe : Bool

/-- `record_context_t` with the contents of its file and the position in it. -/
structure RecordContext where
  file : List Byte
  pos : Nat
  videoType : BitVec 32
  frameCount : Nat
  dataSize : Nat
  frameIndex : List FrameIndexEntry
  moviOffset : Nat
  headerSize : Nat

def RecordContext.write (ctx : RecordContext) (buf : List Byte) : RecordContext :=
  { ctx with file := writeAt ctx.file ctx.pos buf, pos := ctx.pos + buf.length }

/-- `lseek` with `SEEK_SET`. -/
def RecordContext.lseek (ctx : RecordContext) (offset : Nat) : RecordContext :=
  { ctx with pos := offset }

/-- What `lseek` gives back of a position, as an unsigned number: `off_t` is signed, and an offset
below 0 is refused with −1. -/
def lseekResult (pos : Nat) : Nat := if pos % 2 ^ 32 < 2 ^ 31 then pos % 2 ^ 32 else 2 ^ 32 - 1

/-- `lseek` with `SEEK_CUR`. At the end of the file, `SEEK_END` does the same before it. -/
def RecordContext.tell (ctx : RecordContext) : Nat := lseekResult ctx.pos

def streamFourcc (videoType : BitVec 32) : Nat :=
  if videoType = 0 then 0x34363248 else if videoType = 1 then 0x35363248 else 0x47504A4D

/-- The fields of `avi_header` as `avi_container_init` fills it. The last four arguments are what it
writes where `avi_container_close` writes again: at 4, at 12, at 48 and 132, and at `movi_offset`.
-/
def aviHeaderFields (width height fps videoType : BitVec 32) (riffSize hdrl frames movi : Nat) :
    List (List Byte) :=
  [ writeUint32 aviFourccRiff, writeUint32 riffSize, writeUint32 aviFourccAvi,
    -- hdrl LIST
    writeUint32 hdrl, writeUint32 192, writeUint32 aviFourccHdrl,
    -- avih chunk
    writeUint32 aviFourccAvih, writeUint32 56,
    writeUint32 (BitVec.sdiv 1000000 fps).toNat, writeUint32 0, writeUint32 0,
    writeUint32 0x10, writeUint32 frames, writeUint32 0, writeUint32 1, writeUint32 4096,
    writeUint32 width.toNat, writeUint32 height.toNat,
    writeUint32 0, writeUint32 0, writeUint32 0,
    -- strl LIST
    writeUint32 aviFourccList, writeUint32 116, writeUint32 aviFourccStrl,
    -- strh chunk
    writeUint32 aviFourccStrh, writeUint32 56, writeUint32 0x73646976, writeUint32 0,
    writeUint16 0, writeUint16 0, writeUint16 0, writeUint16 0,
    writeUint32 1, writeUint32 fps.toNat, writeUint32 0, writeUint32 frames,
    writeUint32 0x100000, writeUint32 0xFFFFFFFF, writeUint32 0,
    writeUint16 0, writeUint16 0, writeUint16 width.toNat, writeUint16 height.toNat,
    -- strf chunk
    writeUint32 aviFourccStrf, writeUint32 40, writeUint32 40,
    writeUint32 width.toNat, writeUint32 height.toNat, writeUint16 1, writeUint16 24,
    writeUint32 (streamFourcc videoType), writeUint32 (width * height * 3).toNat,
    writeUint32 0, writeUint32 0, writeUint32 0, writeUint32 0,
    -- movi LIST
    writeUint32 aviFourccList, writeUint32 0, writeUint32 movi ]

def aviHeader (width height fps videoType : BitVec 32) (riffSize hdrl frames movi : Nat) :
    List Byte :=
  (aviHeaderFields width height fps videoType riffSize hdrl frames movi).flatten

/-- `avi_container_init`, with a new file: `none` at the division by zero. -/
def aviContainerInit (width height fps videoType : BitVec 32) : Option RecordContext :=
  let header := aviHeader width height fps videoType 0 aviFourccList 0 aviFourccMovi
  if fps = 0 then none
  else
    some
      (RecordContext.write
        { file := []
          pos := 0
          videoType
          frameCount := 0
          dataSize := 0
          frameIndex := []
          moviOffset := header.length - 4
          headerSize := header.length }
        header)

/-- A frame as the caller gives it. -/
structure Frame where
  data : List Byte
  isKeyframe : Bool

abbrev convBufferSize : Nat := 200000

/-- The loop that replaces the lengths before the units by start codes: `none` when it leaves the
buffer. -/
def convertLoop (ptr conv : List Byte) : Option (List Byte) :=
  if ptr.length ≤ 4 then some conv
  else
    let nalLen := beValue (ptr.take 4)
    if nalLen = 0 ∨ ptr.length - 4 < nalLen then some conv
    else if convBufferSize < conv.length + 4 + nalLen then none
    else
      convertLoop (ptr.drop (4 + nalLen))
        (conv ++ [0, 0, 0, 1] ++ (ptr.drop 4).take nalLen)
termination_by ptr.length
decreasing_by
  rw [length_drop]
  omega

/-- What is written of a frame: `none` when the code reads behind it or leaves `conv_buffer`. -/
def outputData (videoType : BitVec 32) (data : List Byte) : Option (List Byte) :=
  if videoType = 2 then some data
  else
    match data with
    | d0 :: d1 :: d2 :: d3 :: _ =>
      if d0 = 0 ∧ d1 = 0 ∧ (d2 = 0 ∧ d3 = 1 ∨ d2 = 0) then some data
      else
        let naluLen := beValue [d0, d1, d2, d3]
        if 0 < naluLen ∧ naluLen ≤ data.length - 4 then convertLoop data [] else some data
    | _ => none

/-- The name of the chunk of a frame. -/
def frameFourcc (isKeyframe : Bool) : Nat := if isKeyframe then aviFourcc00dc else aviFourcc00db

/-- The entry of a frame at this position in the index, while there is room. -/
def RecordContext.indexFrame (ctx : RecordContext) (size : Nat) (isKeyframe : Bool) :
    RecordContext :=
  if ctx.frameIndex.length < maxFrameIndex then
    { ctx with
      frameIndex := ctx.frameIndex ++ [⟨ctx.tell, size % 2 ^ 32, isKeyframe⟩] }
  else ctx

/-- Name, size, data and padding. -/
def RecordContext.writeChunk (ctx : RecordContext) (name : Nat) (output : List Byte) :
    RecordContext :=
  let written := (ctx.write (writeUint32 name ++ writeUint32 output.length)).write output
  if output.length % 2 = 1 then written.write [0] else written

def aviContainerWriteFrame (ctx : RecordContext) (frame : Frame) : Option RecordContext :=
  (outputData ctx.videoType frame.data).map fun output =>
    { (ctx.indexFrame output.length frame.isKeyframe).writeChunk (frameFourcc frame.isKeyframe)
        output with
      frameCount := (ctx.frameCount + 1) % 2 ^ 32
      dataSize := (ctx.dataSize + output.length) % 2 ^ 32 }

def indexEntry (ctx : RecordContext) (entry : FrameIndexEntry) : List Byte :=
  writeUint32 (frameFourcc entry.isKeyframe) ++ writeUint32
    (if entry.isKeyframe then 0x10 else 0) ++
    writeUint32 (entry.offset + (2 ^ 32 - ctx.headerSize)) ++ writeUint32 entry.size

/-- Patching four bytes of the file. -/
def RecordContext.patch (ctx : RecordContext) (offset val : Nat) : RecordContext :=
  (ctx.lseek offset).write (writeUint32 val)

def aviContainerClose (ctx : RecordContext) : List Byte :=
  let idxDataSize := 16 * ctx.frameIndex.length
  let indexed := ctx.frameIndex.foldl (fun written entry => written.write (indexEntry ctx entry))
    (ctx.write (writeUint32 aviFourccIdx1 ++ writeUint32 idxDataSize))
  let finalFileSize := indexed.tell
  let moviSize := finalFileSize + (2 ^ 32 - (ctx.headerSize + 8 + idxDataSize))
  let closed := ((((indexed.patch 12 192).patch 4 (finalFileSize + (2 ^ 32 - 8))).patch 48
    ctx.frameCount).patch 132 ctx.frameCount).patch ctx.moviOffset moviSize
  closed.file

/-- The file after a recording. -/
def recordAvi (width height fps videoType : BitVec 32) (frames : List Frame) :
    Option (List Byte) := do
  let ctx ← aviContainerInit width height fps videoType
  let ctx ← frames.foldlM aviContainerWriteFrame ctx
  pure (aviContainerClose ctx)

/-! ## Well-formed files -/

def listChunks (type : List Byte) (chunk : Chunk) : Option (List Chunk) :=
  if chunk.id = fourcc 'L' 'I' 'S' 'T' ∧ chunk.data.take 4 = type then parse (chunk.data.drop 4)
  else none

/-- What a file says: the number of frames in `avih` and in `strh`, and the chunks of `movi`. -/
structure AviContents where
  totalFrames : Nat
  length : Nat
  movi : List Chunk

/-- The contents of a RIFF file of this form by the sizes of its chunks: `hdrl` with `avih` and
`strl`, which has `strh` and `strf`, then `movi`, then `idx1`, and nothing else. -/
def aviContents (form file : List Byte) : Option AviContents := do
  let (riff, behind) ← chunk? file
  guard (riff.id = fourcc 'R' 'I' 'F' 'F' ∧ behind = [] ∧ riff.data.take 4 = form)
  let [hdrl, movi, idx1] ← parse (riff.data.drop 4) | none
  guard (idx1.id = fourcc 'i' 'd' 'x' '1')
  let [avih, strl] ← listChunks (fourcc 'h' 'd' 'r' 'l') hdrl | none
  guard (avih.id = fourcc 'a' 'v' 'i' 'h')
  let [strh, strf] ← listChunks (fourcc 's' 't' 'r' 'l') strl | none
  guard (strh.id = fourcc 's' 't' 'r' 'h' ∧ strf.id = fourcc 's' 't' 'r' 'f')
  let chunks ← listChunks (fourcc 'm' 'o' 'v' 'i') movi
  pure ⟨leValue ((avih.data.drop 16).take 4), leValue ((strh.data.drop 28).take 4), chunks⟩

def Frame.chunk (frame : Frame) : Chunk := ⟨writeUint32 (frameFourcc frame.isKeyframe), frame.data⟩

def AviOk (frames : List Frame) (file : List Byte) : Prop :=
  aviContents (fourcc 'A' 'V' 'I' ' ') file =
    some ⟨frames.length, frames.length, frames.map Frame.chunk⟩

variable {width height fps videoType : BitVec 32} {riffSize hdrl count movi : Nat}
  {ctx ctx' : RecordContext}
  {frame : Frame} {frames : List Frame} {file body form : List Byte}

/-! ## What is in the file -/

theorem length_write_uint32 (val : Nat) : (writeUint32 val).length = 4 := length_le_bytes 4 val

/-- The sizes of the fields of the header. -/
def headerLengths : List Nat :=
  replicate 28 4 ++ replicate 4 2 ++ replicate 7 4 ++ replicate 4 2 ++
    replicate 5 4 ++ replicate 2 2 ++ replicate 9 4

theorem header_field_lengths :
    (aviHeaderFields width height fps videoType riffSize hdrl count movi).map List.length =
      headerLengths := by
  rfl

theorem length_avi_header :
    (aviHeader width height fps videoType riffSize hdrl count movi).length = 216 := by
  rfl

theorem patch_field {fields : List (List Byte)} (k pos val : Nat)
    (hlengths : fields.map List.length = headerLengths) (hk : headerLengths[k]? = some 4)
    (hpos : (headerLengths.take k).sum = pos) :
    writeAt fields.flatten pos (writeUint32 val) = (fields.set k (writeUint32 val)).flatten ∧
      (fields.set k (writeUint32 val)).map List.length = headerLengths := by
  rw [← hlengths] at hk hpos
  obtain ⟨hlt, hfour⟩ := List.getElem?_eq_some_iff.mp hk
  have hlt' : k < fields.length := length_map List.length ▸ hlt
  rw [getElem_map] at hfour
  refine ⟨write_at_field (getElem?_eq_getElem hlt') ?_ hpos, ?_⟩
  · rw [hfour]
    exact (length_le_bytes 4 val).symm
  · rw [map_set, ← hlengths]
    have hfour' : (writeUint32 val).length = (fields.map List.length)[k] := by
      rw [getElem_map, hfour]
      exact length_le_bytes 4 val
    rw [hfour', set_getElem_self]

/-- What is written again when the file is closed. -/
theorem patch_header :
    writeAt (writeAt (writeAt (writeAt (writeAt
      (aviHeader width height fps videoType 0 aviFourccList 0 aviFourccMovi) 12 (writeUint32 hdrl))
        4 (writeUint32 riffSize)) 48 (writeUint32 count)) 132 (writeUint32 count))
          212 (writeUint32 movi) =
      aviHeader width height fps videoType riffSize hdrl count movi := by
  have hlengths : (aviHeaderFields width height fps videoType 0 aviFourccList 0 aviFourccMovi).map
      List.length = headerLengths := header_field_lengths
  unfold aviHeader
  obtain ⟨hlist, hlengths⟩ := patch_field 3 12 hdrl hlengths rfl rfl
  obtain ⟨hriff, hlengths⟩ := patch_field 1 4 riffSize hlengths rfl rfl
  obtain ⟨hframes, hlengths⟩ := patch_field 12 48 count hlengths rfl rfl
  obtain ⟨hlen, hlengths⟩ := patch_field 35 132 count hlengths rfl rfl
  obtain ⟨hmovi, -⟩ := patch_field 58 212 movi hlengths rfl rfl
  rw [hlist, hriff, hframes, hlen, hmovi]
  rfl

/-- The position is at the end of the file. -/
def AtEnd (ctx : RecordContext) : Prop := ctx.pos = ctx.file.length

theorem AtEnd.write_file (h : AtEnd ctx) (buf : List Byte) :
    (ctx.write buf).file = ctx.file ++ buf := by
  show writeAt ctx.file ctx.pos buf = _
  rw [h, write_at_end]

theorem AtEnd.write (h : AtEnd ctx) (buf : List Byte) : AtEnd (ctx.write buf) := by
  show ctx.pos + buf.length = (ctx.write buf).file.length
  rw [h.write_file, length_append, h]

/-- What writing frames does: these chunks are appended and counted. -/
structure Appended (ctx ctx' : RecordContext) (chunks : List Chunk) : Prop where
  file : ctx'.file = ctx.file ++ chunks.flatMap Chunk.encode
  atEnd : AtEnd ctx'
  videoType : ctx'.videoType = ctx.videoType
  moviOffset : ctx'.moviOffset = ctx.moviOffset
  frameCount : ctx'.frameCount = (ctx.frameCount + chunks.length) % 2 ^ 32
  index : ctx.frameIndex.length ≤ maxFrameIndex → ctx'.frameIndex.length ≤ maxFrameIndex

theorem write_chunk_fields (ctx : RecordContext) (name : Nat) (output : List Byte) :
    (ctx.writeChunk name output).videoType = ctx.videoType ∧
      (ctx.writeChunk name output).moviOffset = ctx.moviOffset ∧
      (ctx.writeChunk name output).frameIndex = ctx.frameIndex := by
  unfold RecordContext.writeChunk
  split_ifs
  · exact ⟨rfl, rfl, rfl⟩
  · exact ⟨rfl, rfl, rfl⟩

/-- The padding is the one that the size asks for. -/
theorem AtEnd.write_chunk (h : AtEnd ctx) (name : Nat) (output : List Byte) :
    (ctx.writeChunk name output).file =
        ctx.file ++ (Chunk.mk (writeUint32 name) output).encode ∧
      AtEnd (ctx.writeChunk name output) := by
  have hheader := h.write (writeUint32 name ++ writeUint32 output.length)
  have hdata := hheader.write output
  have hfile : ((ctx.write (writeUint32 name ++ writeUint32 output.length)).write output).file =
      ctx.file ++ (writeUint32 name ++ writeUint32 output.length ++ output) := by
    rw [hheader.write_file, h.write_file, append_assoc]
  unfold RecordContext.writeChunk Chunk.encode
  split_ifs with hodd
  · rw [hodd, hdata.write_file, hfile, append_assoc]
    exact ⟨rfl, hdata.write _⟩
  · have heven : output.length % 2 = 0 := by omega
    rw [heven, hfile, replicate_zero, append_nil]
    exact ⟨rfl, hdata⟩

theorem index_frame_fields (ctx : RecordContext) (size : Nat) (isKeyframe : Bool) :
    (ctx.indexFrame size isKeyframe).file = ctx.file ∧
      (ctx.indexFrame size isKeyframe).pos = ctx.pos ∧
      (ctx.indexFrame size isKeyframe).videoType = ctx.videoType ∧
      (ctx.indexFrame size isKeyframe).moviOffset = ctx.moviOffset ∧
      (ctx.frameIndex.length ≤ maxFrameIndex →
        (ctx.indexFrame size isKeyframe).frameIndex.length ≤ maxFrameIndex) := by
  unfold RecordContext.indexFrame
  split_ifs with hroom
  · refine ⟨rfl, rfl, rfl, rfl, fun _ => ?_⟩
    rw [length_append]
    exact hroom
  · exact ⟨rfl, rfl, rfl, rfl, fun h => h⟩

theorem AtEnd.write_frame (h : AtEnd ctx)
    (hframe : aviContainerWriteFrame ctx frame = some ctx') :
    ∃ output, outputData ctx.videoType frame.data = some output ∧
      Appended ctx ctx' [⟨writeUint32 (frameFourcc frame.isKeyframe), output⟩] := by
  obtain ⟨output, houtput, rfl⟩ := Option.map_eq_some_iff.mp hframe
  obtain ⟨hfile, hpos, hvideoType, hmoviOffset, hindex⟩ :=
    index_frame_fields ctx output.length frame.isKeyframe
  have hindexed : AtEnd (ctx.indexFrame output.length frame.isKeyframe) := by
    rw [AtEnd, hfile, hpos]
    exact h
  obtain ⟨hwritten, hend⟩ := hindexed.write_chunk (frameFourcc frame.isKeyframe) output
  obtain ⟨hvideoType', hmoviOffset', hindex'⟩ := write_chunk_fields
    (ctx.indexFrame output.length frame.isKeyframe) (frameFourcc frame.isKeyframe) output
  refine ⟨output, houtput, ?_, hend, ?_, ?_, rfl, ?_⟩
  · rw [flatMap_singleton, ← hfile]
    exact hwritten
  · exact hvideoType'.trans hvideoType
  · exact hmoviOffset'.trans hmoviOffset
  · rw [hindex']
    exact hindex

def outputChunks (videoType : BitVec 32) (frames : List Frame) : Option (List Chunk) :=
  frames.mapM fun frame => (outputData videoType frame.data).map fun output =>
    ⟨writeUint32 (frameFourcc frame.isKeyframe), output⟩

theorem output_chunks_cons {output : List Byte}
    (houtput : outputData videoType frame.data = some output) :
    outputChunks videoType (frame :: frames) = (outputChunks videoType frames).map
      (Chunk.mk (writeUint32 (frameFourcc frame.isKeyframe)) output :: ·) := by
  unfold outputChunks
  rw [mapM_cons, houtput]
  cases frames.mapM fun frame => (outputData videoType frame.data).map fun output =>
      Chunk.mk (writeUint32 (frameFourcc frame.isKeyframe)) output with
  | none => rfl
  | some chunks => rfl

theorem AtEnd.write_frames (h : AtEnd ctx) (hcount : ctx.frameCount < 2 ^ 32)
    (hframes : frames.foldlM aviContainerWriteFrame ctx = some ctx') :
    ∃ chunks, outputChunks ctx.videoType frames = some chunks ∧ chunks.length = frames.length ∧
      Appended ctx ctx' chunks := by
  induction frames generalizing ctx with
  | nil =>
    cases hframes
    exact ⟨[], rfl, rfl, (append_nil _).symm, h, rfl, rfl,
      (Nat.mod_eq_of_lt hcount).symm, fun h => h⟩
  | cons frame frames ih =>
    obtain ⟨ctx1, hframe, hrest⟩ := Option.bind_eq_some_iff.mp hframes
    obtain ⟨output, houtput, hfirst⟩ := h.write_frame hframe
    have hcount1 : ctx1.frameCount < 2 ^ 32 := by
      rw [hfirst.frameCount]
      exact Nat.mod_lt _ (by decide)
    obtain ⟨chunks, hchunks, hlen, happended⟩ := ih hfirst.atEnd hcount1 hrest
    refine ⟨⟨writeUint32 (frameFourcc frame.isKeyframe), output⟩ :: chunks, ?_,
      congrArg (· + 1) hlen, ?_, happended.atEnd, ?_, ?_, ?_,
      fun h => happended.index (hfirst.index h)⟩
    · rw [hfirst.videoType] at hchunks
      rw [output_chunks_cons houtput, hchunks]
      rfl
    · rw [happended.file, hfirst.file, append_assoc, ← flatMap_append]
      rfl
    · exact happended.videoType.trans hfirst.videoType
    · exact happended.moviOffset.trans hfirst.moviOffset
    · rw [happended.frameCount, hfirst.frameCount, Nat.mod_add_mod, length_singleton, length_cons]
      congr 1
      omega

def indexChunk (ctx : RecordContext) : Chunk :=
  ⟨writeUint32 aviFourccIdx1, ctx.frameIndex.flatMap (indexEntry ctx)⟩

theorem length_index_entry (entry : FrameIndexEntry) : (indexEntry ctx entry).length = 16 := by
  simp only [indexEntry, length_append, length_write_uint32]

theorem length_index (entries : List FrameIndexEntry) :
    (entries.flatMap (indexEntry ctx)).length = 16 * entries.length := by
  induction entries with
  | nil => rfl
  | cons entry entries ih =>
    rw [flatMap_cons, length_append, length_index_entry, ih, length_cons]
    omega

theorem AtEnd.write_index (h : AtEnd ctx') (entries : List FrameIndexEntry) :
    (entries.foldl (fun written entry => written.write (indexEntry ctx entry)) ctx').file =
      ctx'.file ++ entries.flatMap (indexEntry ctx) := by
  induction entries generalizing ctx' with
  | nil => exact (append_nil _).symm
  | cons entry entries ih =>
    rw [foldl_cons, ih (h.write _), h.write_file, append_assoc, ← flatMap_cons]

theorem patch_file (ctx : RecordContext) (offset val : Nat) :
    (ctx.patch offset val).file = writeAt ctx.file offset (writeUint32 val) := rfl

theorem write_at_header {header : List Byte} {pos : Nat} (hlen : header.length = 216)
    (hpos : pos ≤ 212) (val : Nat) (body : List Byte) :
      writeAt (header ++ body) pos (writeUint32 val) =
      writeAt header pos (writeUint32 val) ++ body ∧
        (writeAt header pos (writeUint32 val)).length = 216 := by
  have hinside : pos + (writeUint32 val).length ≤ header.length := by
    rw [length_write_uint32, hlen]
    omega
  exact ⟨write_at_append hinside body, (length_write_at hinside).trans hlen⟩

theorem patches_eq (hfile : ctx.file =
      aviHeader width height fps videoType 0 aviFourccList 0 aviFourccMovi ++ body)
    (riffSize count movi : Nat) :
    (((((ctx.patch 12 hdrl).patch 4 riffSize).patch 48 count).patch 132 count).patch 212
      movi).file =
      aviHeader width height fps videoType riffSize hdrl count movi ++ body := by
  have hlen : (aviHeader width height fps videoType 0 aviFourccList 0 aviFourccMovi).length =
      216 := length_avi_header
  rw [patch_file, patch_file, patch_file, patch_file, patch_file, hfile]
  obtain ⟨hlist, hlen⟩ := write_at_header hlen (show 12 ≤ 212 by decide) hdrl body
  obtain ⟨hriff, hlen⟩ := write_at_header hlen (show 4 ≤ 212 by decide) riffSize body
  obtain ⟨hframes, hlen⟩ := write_at_header hlen (show 48 ≤ 212 by decide) count body
  obtain ⟨hstream, hlen⟩ := write_at_header hlen (show 132 ≤ 212 by decide) count body
  obtain ⟨hmovi, -⟩ := write_at_header hlen (show 212 ≤ 212 by decide) movi body
  rw [hlist, hriff, hframes, hstream, hmovi, patch_header]

/-- The file that is left: the header with what is written again, and the index behind what was
there. -/
theorem close_eq (h : AtEnd ctx) (hoffset : ctx.moviOffset = 212)
    (hfile : ctx.file =
      aviHeader width height fps videoType 0 aviFourccList 0 aviFourccMovi ++ body) :
    ∃ riffSize movi, aviContainerClose ctx =
      aviHeader width height fps videoType riffSize 192 ctx.frameCount movi ++
        (body ++ (indexChunk ctx).encode) := by
  have hindex : ((ctx.frameIndex.foldl (fun written entry => written.write (indexEntry ctx entry))
      (ctx.write (writeUint32 aviFourccIdx1 ++ writeUint32 (16 * ctx.frameIndex.length))))).file =
      aviHeader width height fps videoType 0 aviFourccList 0 aviFourccMovi ++
        (body ++ (indexChunk ctx).encode) := by
    rw [(h.write _).write_index, h.write_file, hfile]
    have heven : 16 * ctx.frameIndex.length % 2 = 0 := by omega
    unfold Chunk.encode indexChunk
    rw [length_index, heven]
    simp only [replicate_zero, append_nil, append_assoc]
    rfl
  rw [aviContainerClose, hoffset]
  exact ⟨_, _, patches_eq hindex _ _ _⟩

theorem init_fields (hinit : aviContainerInit width height fps videoType = some ctx) :
    AtEnd ctx ∧ ctx.file = aviHeader width height fps videoType 0 aviFourccList 0 aviFourccMovi ∧
      ctx.videoType = videoType ∧ ctx.moviOffset = 212 ∧ ctx.headerSize = 216 ∧
      ctx.frameCount = 0 ∧ ctx.frameIndex = [] := by
  have hlen : (aviHeader width height fps videoType 0 aviFourccList 0 aviFourccMovi).length =
      216 := length_avi_header
  unfold aviContainerInit at hinit
  split_ifs at hinit
  cases hinit
  have hstart : AtEnd
      { file := []
        pos := 0
        videoType
        frameCount := 0
        dataSize := 0
        frameIndex := []
        moviOffset := (aviHeader width height fps videoType 0 aviFourccList 0 aviFourccMovi).length
          - 4
        headerSize := (aviHeader width height fps videoType 0 aviFourccList 0 aviFourccMovi).length
          } :=
    rfl
  refine ⟨hstart.write _, ?_, rfl, ?_, hlen, rfl, rfl⟩
  · rw [hstart.write_file, nil_append]
  · show (aviHeader width height fps videoType 0 aviFourccList 0 aviFourccMovi).length - 4 = 212
    rw [hlen]

theorem record_avi_eq (hfile : recordAvi width height fps videoType frames = some file) :
    ∃ riffSize movi chunks index, outputChunks videoType frames = some chunks ∧
      index.id = writeUint32 aviFourccIdx1 ∧ index.data.length ≤ 16 * maxFrameIndex ∧
      file = aviHeader width height fps videoType riffSize 192 (frames.length % 2 ^ 32) movi ++
        (chunks ++ [index]).flatMap Chunk.encode := by
  obtain ⟨ctx, hinit, hrest⟩ := Option.bind_eq_some_iff.mp hfile
  obtain ⟨last, hframes, hclose⟩ := Option.bind_eq_some_iff.mp hrest
  cases hclose
  obtain ⟨hstart, hheader, hvideo, hoffset, -, hcount, hindex⟩ := init_fields hinit
  have hbound : ctx.frameCount < 2 ^ 32 := by
    rw [hcount]
    decide
  obtain ⟨chunks, hchunks, hlen, happended⟩ := hstart.write_frames hbound hframes
  have hbody := happended.file
  rw [hheader] at hbody
  obtain ⟨riffSize, movi, hclose⟩ :=
    close_eq happended.atEnd (happended.moviOffset.trans hoffset) hbody
  rw [hvideo] at hchunks
  refine ⟨riffSize, movi, chunks, indexChunk last, hchunks, rfl, ?_, ?_⟩
  · show (last.frameIndex.flatMap (indexEntry last)).length ≤ _
    rw [length_index]
    refine Nat.mul_le_mul_left 16 (happended.index ?_)
    rw [hindex]
    exact Nat.zero_le _
  · have hcount' : last.frameCount = frames.length % 2 ^ 32 := by
      rw [happended.frameCount, hlen, hcount, zero_add]
    show aviContainerClose last = _
    rw [hclose, hcount', flatMap_append, flatMap_singleton]

/-! ## No file is well formed -/

theorem header_list_name (body : List Byte) :
    ((aviHeader width height fps videoType riffSize hdrl count movi ++ body).drop 12).take 4 =
      writeUint32 hdrl := by
  show (writeUint32 hdrl ++ _ ++ body).take 4 = _
  rw [append_assoc, take_left' (length_write_uint32 hdrl)]

theorem chunk_data_take {bs rest : List Byte} {riff : Chunk} (h : chunk? bs = some (riff, rest))
    (hlen : 8 ≤ (riff.data.drop 4).length) :
    (riff.data.drop 4).take 4 = (bs.drop 12).take 4 := by
  obtain ⟨-, hle, -, hdata⟩ := chunk?_eq_some h
  rw [hdata, length_drop, length_take, min_eq_left hle] at hlen
  rw [hdata, drop_take, take_take, drop_drop, min_eq_left (by omega)]

/-- Whatever form a file may have: where the first list should begin there is the size of the header
list, because `avi_container_close` writes it to 12 and not to 16. -/
theorem contents_eq_none (form : List Byte)
    (hfile : recordAvi width height fps videoType frames = some file) :
    aviContents form file = none := by
  obtain ⟨riffSize, movi, chunks, index, -, -, -, rfl⟩ := record_avi_eq hfile
  by_contra hne
  obtain ⟨contents, hcontents⟩ := Option.ne_none_iff_exists'.mp hne
  obtain ⟨⟨riff, behind⟩, hriff, hrest⟩ := Option.bind_eq_some_iff.mp hcontents
  obtain ⟨-, -, hrest⟩ := Option.bind_eq_some_iff.mp hrest
  obtain ⟨parts, hparts, hrest⟩ := Option.bind_eq_some_iff.mp hrest
  match parts, hparts, hrest with
  | [hdrl, moviList, idx1], hparts, hrest =>
    obtain ⟨-, -, hrest⟩ := Option.bind_eq_some_iff.mp hrest
    obtain ⟨heads, hheads, -⟩ := Option.bind_eq_some_iff.mp hrest
    obtain ⟨rest, hfirst⟩ := parse_eq_cons hparts
    obtain ⟨hlen, -, hid, -⟩ := chunk?_eq_some hfirst
    rw [chunk_data_take hriff hlen, header_list_name] at hid
    unfold listChunks at hheads
    rw [if_neg] at hheads
    · cases hheads
    · rw [hid]
      exact fun hlist => absurd hlist.1 (by decide)

/-- No recording is a well-formed AVI file. -/
theorem avi_never_ok (hfile : recordAvi width height fps videoType frames = some file) :
    ¬ AviOk frames file := by
  unfold AviOk
  rw [contents_eq_none _ hfile]
  nofun

/-- One frame of a JPEG stream. -/
theorem jpeg_recording_never_ok :
    ∃ file, recordAvi 640 480 25 2 [⟨[0xff, 0xd8, 0xff, 0xd9], true⟩] = some file ∧
      ¬ AviOk [⟨[0xff, 0xd8, 0xff, 0xd9], true⟩] file := by
  have hsome : ∃ file, recordAvi 640 480 25 2 [⟨[0xff, 0xd8, 0xff, 0xd9], true⟩] = some file :=
    ⟨_, rfl⟩
  obtain ⟨file, hfile⟩ := hsome
  exact ⟨file, hfile, avi_never_ok hfile⟩

/-- One H.264 unit behind a start code. -/
theorem some_recording_not_ok :
    ∃ file, recordAvi 1280 720 30 0 [⟨[0, 0, 0, 1, 0x65, 0x88], true⟩] = some file ∧
      ¬ AviOk [⟨[0, 0, 0, 1, 0x65, 0x88], true⟩] file := by
  have hsome : ∃ file, recordAvi 1280 720 30 0 [⟨[0, 0, 0, 1, 0x65, 0x88], true⟩] = some file :=
    ⟨_, rfl⟩
  obtain ⟨file, hfile⟩ := hsome
  refine ⟨file, hfile, ?_⟩
  unfold AviOk
  rw [contents_eq_none _ hfile]
  nofun

end FullhanRtos.Avi
