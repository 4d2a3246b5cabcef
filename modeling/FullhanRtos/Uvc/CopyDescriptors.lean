import FullhanRtos.Uvc.Descriptors

/-!
# The configuration descriptor

`uvc_copy_descriptors` of `drivers/usb/device/class/f_uvc.c` adds up the lengths of the descriptors
of the function, allocates memory for them, copies them one after the other by the lengths that
they state, and writes the total lengths into the copied headers.

`copy_ok` says that all bytes are copied and the total lengths are right if each descriptor has the
bytes that it states.
-/

namespace FullhanRtos.Uvc

open List Option

/-! ## Bytes of the streaming descriptors -/

/-- `guidFormat`. -/
def FormatSlot.guidFormat : FormatSlot → List Byte
  | .nv12 => [0x4e, 0x56, 0x31, 0x32, 0x00, 0x00, 0x10, 0x00, 0x80, 0x00, 0x00, 0xaa, 0x00, 0x38,
      0x9b, 0x71]
  | .yuy2 => [0x59, 0x55, 0x59, 0x32, 0x00, 0x00, 0x10, 0x00, 0x80, 0x00, 0x00, 0xaa, 0x00, 0x38,
      0x9b, 0x71]
  | .mjpg => []
  | .h264 => [0x48, 0x32, 0x36, 0x34, 0x00, 0x00, 0x10, 0x00, 0x80, 0x00, 0x00, 0xaa, 0x00, 0x38,
      0x9b, 0x71]
  | .hevc => [0x48, 0x32, 0x36, 0x35, 0x00, 0x00, 0x10, 0x00, 0x80, 0x00, 0x00, 0xaa, 0x00, 0x38,
      0x9b, 0x71]
  | .ir => [0x32, 0x00, 0x00, 0x00, 0x02, 0x00, 0x10, 0x00, 0x80, 0x00, 0x00, 0xaa, 0x00, 0x38,
      0x9b, 0x71]

/-- `UVC_DT_FORMAT_UNCOMPRESSED_SIZE`, `UVC_DT_FORMAT_MJPEG_SIZE` and
`UVC_DT_FORMAT_FRAMEBASED_SIZE`. -/
def FormatSlot.size : FormatSlot → Nat
  | .nv12 | .yuy2 => 27
  | .mjpg => 11
  | .h264 | .hevc | .ir => 28

def FormatDescriptor.bytes (desc : FormatDescriptor) (slot : FormatSlot) : List Byte :=
  let first (subtype : Byte) : List Byte :=
    [BitVec.ofNat 8 slot.size, 0x24, subtype, desc.bFormatIndex, desc.bNumFrameDescriptors]
  let last (flags : Byte) : List Byte := [flags, desc.bDefaultFrameIndex, 0, 0, 0, 0]
  match slot with
  | .nv12 => first 0x04 ++ slot.guidFormat ++ last 12
  | .yuy2 => first 0x04 ++ slot.guidFormat ++ last 16
  | .mjpg => first 0x06 ++ last 1
  | .h264 | .hevc => first 0x10 ++ slot.guidFormat ++ last 0 ++ [1]
  | .ir => first 0x10 ++ slot.guidFormat ++ last 8 ++ [0]

/-- A frame descriptor in memory, with all five intervals. -/
def FrameDescriptor.bytes (desc : FrameDescriptor) (slot : FormatSlot) : List Byte :=
  let le (n : Nat) (value : Nat) : List Byte := leBytes n value
  let first : List Byte :=
    [desc.bLength, desc.bDescriptorType, desc.bDescriptorSubType, desc.bFrameIndex, 0] ++
      (le 2 desc.wWidth.toNat ++ (le 2 desc.wHeight.toNat ++
        (le 4 desc.dwMinBitRate.toNat ++ le 4 desc.dwMaxBitRate.toNat)))
  let intervals : List Byte :=
    desc.dwFrameInterval.flatMap fun interval => le 4 interval.toNat
  match slot with
  | .nv12 | .yuy2 | .mjpg =>
    first ++ (le 4 desc.dwSize.toNat ++ (le 4 desc.dwDefaultFrameInterval.toNat ++
      ([desc.bFrameIntervalType] ++ intervals)))
  | .h264 | .hevc | .ir =>
    first ++ (le 4 desc.dwDefaultFrameInterval.toNat ++ ([desc.bFrameIntervalType] ++
      (le 4 desc.dwSize.toNat ++ intervals)))

def uvcColorMatching : List Byte := [6, 0x24, 0x0d, 1, 1, 4]

/-- `UVC_INPUT_HEADER_DESCRIPTOR(1, 5)` in memory, with controls for five formats. -/
def FmtArrayData.headerBytes (data : FmtArrayData) : List Byte :=
  [data.headerLength, 0x24, 0x01, data.bNumFormats, 0, 0, 0, 0, 4, 0, 0, 0, 1] ++ replicate 5 0

/-- What a pointer points to. -/
def FmtArrayData.object (data : FmtArrayData) : DescriptorPtr → List Byte
  | .inputHeader => data.headerBytes
  | .format slot => (data.formats slot).bytes slot
  | .frame slot i => (data.frames slot i).bytes slot
  | .colorMatching => uvcColorMatching

/-- The descriptors up to the null pointer. -/
def FmtArrayData.objects (data : FmtArrayData) : List (List Byte) :=
  ((data.streamingData.takeWhile isSome).filterMap id).map data.object

/-! ## Copying -/

/-- `bLength`. -/
def bLength (object : List Byte) : Nat := byteAt object 0

/-- The sum of the lengths. -/
def sizes (objects : List (List Byte)) : Nat := (objects.map bLength).sum

/-- The pointers and the memory that were written. -/
structure CopyState where
  hdr : List Nat
  mem : List Byte

/-- `UVC_COPY_DESCRIPTOR`: `none` when it reads behind the descriptor. -/
def copyDescriptor (object : List Byte) (state : CopyState) : Option CopyState :=
  if bLength object ≤ object.length then
    some ⟨state.hdr ++ [state.mem.length], state.mem ++ object.take (bLength object)⟩
  else none

def copyDescriptors : List (List Byte) → CopyState → Option CopyState
  | [], state => some state
  | object :: objects, state => (copyDescriptor object state).bind (copyDescriptors objects)

/-- Write into the memory from an offset on: `none` behind it. -/
def writeFields (offset : Nat) : List (Nat × List Byte) → List Byte → Option (List Byte)
  | [], mem => some mem
  | field :: fields, mem =>
    (Buffer.store mem (offset + field.1) field.2).bind (writeFields offset fields)

/-- Class-specific descriptors, and then the fields of their header. -/
def copyClass (objects : List (List Byte)) (fields : List (Nat × List Byte)) (state : CopyState) :
    Option CopyState :=
  (copyDescriptors objects state).bind fun next =>
    (writeFields state.mem.length fields next.mem).map fun mem => { next with mem }

/-- The descriptors of the function but those of the streams, and the numbers of the streaming
interfaces. -/
structure FunctionDescriptors where
  iad : List Byte
  controlIntf : List Byte
  control : List (List Byte)
  controlEp : List Byte
  controlCsEp : List Byte
  streamingIntf1 : Byte
  streamingIntf2 : Byte

/-- The descriptors of a stream but the class-specific ones, and the address of its endpoint. -/
structure StreamDescriptors where
  intfAlt0 : List Byte
  std : List (List Byte)
  epAddress : Byte

/-- `desc_size`, `n_desc`, and what was copied. -/
structure Copied where
  descSize : Nat
  nDesc : Nat
  state : CopyState

def controlFields (function : FunctionDescriptors) (double : Bool) : List (Nat × List Byte) :=
  [(5, leBytes 2 (sizes function.control)), (12, [function.streamingIntf1])] ++
    if double then [(13, [function.streamingIntf2]), (11, [2])] else [(11, [1])]

def streamingFields (stream : StreamDescriptors) (cls : List (List Byte)) :
    List (Nat × List Byte) :=
  [(4, leBytes 2 (sizes cls)), (6, [stream.epAddress])]

/-- `bTerminalLink++` of the second stream. -/
def terminalLink (cls : List (List Byte)) : Nat × List Byte :=
  (8, [(cls.headD []).getD 8 0 + 1])

/-- The descriptors of all copies, in their order. -/
def allDescriptors (function : FunctionDescriptors) (stream1 : StreamDescriptors)
    (cls1 : List (List Byte)) (stream2 : Option (StreamDescriptors × List (List Byte))) :
    List (List Byte) :=
  [function.iad, function.controlIntf] ++ function.control ++
    [function.controlEp, function.controlCsEp, stream1.intfAlt0] ++ cls1 ++ stream1.std ++
    match stream2 with
    | none => []
    | some (stream2, cls2) => stream2.intfAlt0 :: cls2 ++ stream2.std

def uvcCopyDescriptors (function : FunctionDescriptors) (stream1 : StreamDescriptors)
    (cls1 : List (List Byte)) (stream2 : Option (StreamDescriptors × List (List Byte))) :
    Option Copied :=
  let all := allDescriptors function stream1 cls1 stream2
  (copyDescriptors [function.iad, function.controlIntf] ⟨[], []⟩).bind fun state =>
    (copyClass function.control (controlFields function stream2.isSome) state).bind fun state =>
      (copyDescriptors [function.controlEp, function.controlCsEp, stream1.intfAlt0] state).bind
        fun state =>
          (copyClass cls1 (streamingFields stream1 cls1) state).bind fun state =>
            (copyDescriptors stream1.std state).bind fun state =>
              (match stream2 with
              | none => some state
              | some (stream2, cls2) =>
                  (copyDescriptors [stream2.intfAlt0] state).bind fun state =>
                    (copyClass cls2 (streamingFields stream2 cls2 ++ [terminalLink cls2])
                      state).bind (copyDescriptors stream2.std)).map
                fun state => ⟨sizes all, all.length, state⟩

/-! ## What is copied -/

/-- Each descriptor has the bytes that it states. -/
def ObjectsFit (objects : List (List Byte)) : Prop :=
  ∀ object ∈ objects, bLength object ≤ object.length

/-- Class-specific descriptors: the first one is a header with the fields that are written, and the
total length fits into its field. -/
structure ClassOk (objects : List (List Byte)) (header : Nat) : Prop where
  fit : ObjectsFit objects
  header : header ≤ bLength (objects.headD [])
  total : sizes objects < 2 ^ 16

structure FunctionDescriptors.Ok (function : FunctionDescriptors) (double : Bool) : Prop where
  first : ObjectsFit [function.iad, function.controlIntf]
  control : ClassOk function.control (if double then 14 else 13)
  endpoints : ObjectsFit [function.controlEp, function.controlCsEp]

structure StreamDescriptors.Ok (stream : StreamDescriptors) : Prop where
  intfAlt0 : ObjectsFit [stream.intfAlt0]
  std : ObjectsFit stream.std

/-- Where the control header and the streaming headers are copied to. -/
def controlOffset (function : FunctionDescriptors) : Nat :=
  sizes [function.iad, function.controlIntf]

def streamingOffset1 (function : FunctionDescriptors) (stream1 : StreamDescriptors) : Nat :=
  controlOffset function + sizes function.control +
    sizes [function.controlEp, function.controlCsEp, stream1.intfAlt0]

def streamingOffset2 (function : FunctionDescriptors) (stream1 : StreamDescriptors)
    (cls1 : List (List Byte)) (stream2 : StreamDescriptors) : Nat :=
  streamingOffset1 function stream1 + sizes cls1 + sizes stream1.std + sizes [stream2.intfAlt0]

/-- A number of two bytes in memory. -/
def wordAt (mem : List Byte) (pos : Nat) : Nat := leNat (mem.drop pos) 2

/-- As many bytes as `desc_size` are copied, there is a pointer for each descriptor, and the total
lengths are the sums of the class-specific lengths. -/
structure CopiedOk (function : FunctionDescriptors) (stream1 : StreamDescriptors)
    (cls1 : List (List Byte)) (stream2 : Option (StreamDescriptors × List (List Byte)))
    (copied : Copied) : Prop where
  size : copied.state.mem.length = copied.descSize
  pointers : copied.state.hdr.length = copied.nDesc
  control : wordAt copied.state.mem (controlOffset function + 5) = sizes function.control
  streaming1 : wordAt copied.state.mem (streamingOffset1 function stream1 + 4) = sizes cls1
  streaming2 : ∀ stream ∈ stream2,
    wordAt copied.state.mem (streamingOffset2 function stream1 cls1 stream.1 + 4) = sizes stream.2

section

variable {objects objects' : List (List Byte)} {fields : List (Nat × List Byte)}
  {state : CopyState} {mem mem' pre post : List Byte} {pos k : Nat}

def copiedBytes (objects : List (List Byte)) : List Byte :=
  objects.flatMap fun object => object.take (bLength object)

theorem sizes_append (objects objects' : List (List Byte)) :
    sizes (objects ++ objects') = sizes objects + sizes objects' := by
  rw [sizes, map_append, sum_append, sizes, sizes]

theorem copied_bytes_length (hfit : ObjectsFit objects) :
    (copiedBytes objects).length = sizes objects := by
  induction objects with
  | nil => rfl
  | cons object objects ih =>
    have hobject : bLength object ≤ object.length := hfit object mem_cons_self
    have hrest := ih fun object' h => hfit object' (mem_cons_of_mem object h)
    rw [copiedBytes, flatMap_cons, length_append, length_take,
      Nat.min_eq_left hobject, sizes, map_cons, sum_cons]
    exact congrArg (bLength object + ·) hrest

theorem copy_descriptors_ok (hfit : ObjectsFit objects) (state : CopyState) :
    ∃ hdr, hdr.length = objects.length ∧ copyDescriptors objects state =
      some ⟨state.hdr ++ hdr, state.mem ++ copiedBytes objects⟩ := by
  induction objects generalizing state with
  | nil => exact ⟨[], rfl, by rw [copyDescriptors, append_nil, copiedBytes, flatMap_nil,
      append_nil]⟩
  | cons object objects ih =>
    have hobject : bLength object ≤ object.length := hfit object mem_cons_self
    obtain ⟨hdr, hlen, hcopy⟩ := ih
      (fun object' h => hfit object' (mem_cons_of_mem object h))
      ⟨state.hdr ++ [state.mem.length], state.mem ++ object.take (bLength object)⟩
    refine ⟨state.mem.length :: hdr, by rw [length_cons, length_cons, hlen], ?_⟩
    rw [copyDescriptors, copyDescriptor, if_pos hobject, bind_some, hcopy,
      append_assoc, append_assoc]
    rfl

theorem write_fields_append (pre mem : List Byte) (fields : List (Nat × List Byte)) :
    writeFields pre.length fields (pre ++ mem) = (writeFields 0 fields mem).map (pre ++ ·) := by
  induction fields generalizing mem with
  | nil => rfl
  | cons field fields ih =>
    rw [writeFields, writeFields, Buffer.store_append, zero_add, Option.map_bind]
    cases Buffer.store mem field.1 field.2 with
    | none => rfl
    | some mem' => exact ih mem'

theorem write_fields_ok (hfields : ∀ field ∈ fields, field.1 + field.2.length ≤ mem.length) :
    ∃ mem', writeFields 0 fields mem = some mem' ∧ mem'.length = mem.length := by
  induction fields generalizing mem with
  | nil => exact ⟨mem, rfl, rfl⟩
  | cons field fields ih =>
    have hfield := hfields field mem_cons_self
    have hlen := Buffer.length_write_at hfield
    have hrest : ∀ field' ∈ fields,
        field'.1 + field'.2.length ≤ (Buffer.writeAt mem field.1 field.2).length :=
      fun field' h => hlen ▸ hfields field' (mem_cons_of_mem field h)
    obtain ⟨mem', hwrite, hlen'⟩ := ih hrest
    refine ⟨mem', ?_, hlen'.trans hlen⟩
    rw [writeFields, zero_add, Buffer.store_eq hfield, bind_some, hwrite]

theorem byte_at_write_at (h : pos + mem'.length ≤ mem.length) (k : Nat) :
    byteAt (Buffer.writeAt mem pos mem') k =
      if pos ≤ k ∧ k < pos + mem'.length then byteAt mem' (k - pos) else byteAt mem k := by
  rw [byteAt, getD_eq_getElem?_getD, Buffer.getElem?_write_at h]
  split <;> rw [byteAt, getD_eq_getElem?_getD]

theorem write_fields_keep (hfields : ∀ field ∈ fields, k < field.1)
    (hwrite : writeFields 0 fields mem = some mem') : byteAt mem' k = byteAt mem k := by
  induction fields generalizing mem with
  | nil => rw [some.inj hwrite]
  | cons field fields ih =>
    obtain ⟨mem1, hstore, hrest⟩ := bind_eq_some_iff.mp hwrite
    have hk := hfields field mem_cons_self
    rw [ih (fun field' h => hfields field' (mem_cons_of_mem field h)) hrest]
    unfold Buffer.store at hstore
    split at hstore
    case isTrue hle =>
      obtain rfl := some.inj hstore
      rw [byte_at_write_at hle, if_neg (by omega)]
    case isFalse => exact absurd hstore.symm (some_ne_none _)

theorem word_at_middle (h : pos + 2 ≤ mem.length) :
    wordAt (pre ++ mem ++ post) (pre.length + pos) = wordAt mem pos := by
  refine le_nat_congr fun k hk => ?_
  have hlt : pos + k < mem.length := by omega
  rw [byte_at_drop, byte_at_drop, byteAt, byteAt, getD_eq_getElem?_getD, getD_eq_getElem?_getD,
    append_assoc, add_assoc, getElem?_append_right (Nat.le_add_right _ _),
    Nat.add_sub_cancel_left, getElem?_append_left hlt]

/-- A number that is written first stays when the other fields are behind it. -/
theorem write_word {value : Nat} (hpos : pos + 2 ≤ mem.length)
    (hkeep : ∀ field ∈ fields, pos + 2 ≤ field.1) (hvalue : value < 2 ^ 16)
    (hwrite : writeFields 0 ((pos, leBytes 2 value) :: fields) mem = some mem') :
    wordAt mem' pos = value := by
  rw [writeFields, zero_add, Buffer.store_eq hpos, bind_some] at hwrite
  have hbytes : ∀ k < 2, byteAt (mem'.drop pos) k = byteAt (leBytes 2 value) k := by
    intro k hk
    have hle : pos + (leBytes 2 value).length ≤ mem.length := hpos
    have hin : pos ≤ pos + k ∧ pos + k < pos + (leBytes 2 value).length :=
      ⟨Nat.le_add_right _ _, Nat.add_lt_add_left hk pos⟩
    rw [byte_at_drop, write_fields_keep (fun field h => by have := hkeep field h; omega) hwrite,
      byte_at_write_at hle, if_pos hin, Nat.add_sub_cancel_left]
  rw [wordAt, le_nat_congr hbytes, le_nat_bytes value le_rfl]
  exact Nat.mod_eq_of_lt hvalue

theorem first_le_sizes (objects : List (List Byte)) :
    bLength (objects.headD []) ≤ sizes objects := by
  cases objects with
  | nil => exact le_refl 0
  | cons object objects =>
    exact Nat.le_add_right _ _

theorem copy_class_ok {header : Nat} (hclass : ClassOk objects header) (hpos : pos + 2 ≤ header)
    (hfields : ∀ field ∈ fields, pos + 2 ≤ field.1 ∧ field.1 + field.2.length ≤ header)
    (state : CopyState) :
    ∃ hdr mem, hdr.length = objects.length ∧ mem.length = sizes objects ∧
      wordAt mem pos = sizes objects ∧
      copyClass objects ((pos, leBytes 2 (sizes objects)) :: fields) state =
        some ⟨state.hdr ++ hdr, state.mem ++ mem⟩ := by
  obtain ⟨hdr, hhdr, hcopy⟩ := copy_descriptors_ok hclass.fit state
  have hlen := copied_bytes_length hclass.fit
  have hheader : header ≤ (copiedBytes objects).length :=
    hlen ▸ hclass.header.trans (first_le_sizes objects)
  have hinside : ∀ field ∈ (pos, leBytes 2 (sizes objects)) :: fields,
      field.1 + field.2.length ≤ (copiedBytes objects).length := by
    intro field hfield
    obtain rfl | hfield := mem_cons.mp hfield
    · exact hpos.trans hheader
    · exact (hfields field hfield).2.trans hheader
  obtain ⟨mem, hwrite, hmem⟩ := write_fields_ok hinside
  refine ⟨hdr, mem, hhdr, hmem.trans hlen, ?_, ?_⟩
  · exact write_word (hpos.trans hheader) (fun field h => (hfields field h).1) hclass.total hwrite
  · rw [copyClass, hcopy, bind_some, write_fields_append, hwrite]
    rfl

end

theorem five_parts {a b c d e mem : List Byte} {pos1 pos2 : Nat} (h1 : pos1 + 2 ≤ b.length)
    (h2 : pos2 + 2 ≤ d.length) (hmem : mem = a ++ b ++ c ++ d ++ e) :
    wordAt mem (a.length + pos1) = wordAt b pos1 ∧
      wordAt mem (a.length + b.length + c.length + pos2) = wordAt d pos2 := by
  constructor
  · have hparts : mem = a ++ b ++ (c ++ d ++ e) := by
      rw [hmem]
      simp only [append_assoc]
    rw [hparts, word_at_middle h1]
  · have hlen : a.length + b.length + c.length = (a ++ b ++ c).length := by
      rw [length_append, length_append]
    rw [hmem, hlen, word_at_middle h2]

theorem control_fields_inside (function : FunctionDescriptors) (double : Bool) :
    ∃ fields, controlFields function double = (5, leBytes 2 (sizes function.control)) :: fields ∧
      ∀ field ∈ fields, 7 ≤ field.1 ∧
        field.1 + field.2.length ≤ if double = true then 14 else 13 := by
  cases double with
  | false =>
    refine ⟨[(12, [function.streamingIntf1]), (11, [1])], rfl, ?_⟩
    simp
  | true =>
    refine ⟨[(12, [function.streamingIntf1]), (13, [function.streamingIntf2]), (11, [2])], rfl, ?_⟩
    simp

structure FirstCopied (function : FunctionDescriptors) (stream1 : StreamDescriptors)
    (cls1 : List (List Byte)) (state : CopyState) : Prop where
  pointers : state.hdr.length = (allDescriptors function stream1 cls1 none).length
  size : state.mem.length = sizes (allDescriptors function stream1 cls1 none)
  words : ∀ post, wordAt (state.mem ++ post) (controlOffset function + 5) = sizes function.control ∧
    wordAt (state.mem ++ post) (streamingOffset1 function stream1 + 4) = sizes cls1

theorem copy_first {function : FunctionDescriptors} {stream1 : StreamDescriptors}
    {cls1 : List (List Byte)} (double : Bool) (hfunction : function.Ok double)
    (hstream1 : stream1.Ok) (hcls1 : ClassOk cls1 13) :
    ∃ state, FirstCopied function stream1 cls1 state ∧
      ((copyDescriptors [function.iad, function.controlIntf] ⟨[], []⟩).bind fun state =>
        (copyClass function.control (controlFields function double) state).bind fun state =>
          (copyDescriptors [function.controlEp, function.controlCsEp, stream1.intfAlt0] state).bind
            fun state =>
              (copyClass cls1 (streamingFields stream1 cls1) state).bind
                (copyDescriptors stream1.std)) = some state := by
  have hmiddle : ObjectsFit [function.controlEp, function.controlCsEp, stream1.intfAlt0] := by
    intro object hobject
    obtain h | h := mem_append.mp
      (show object ∈ [function.controlEp, function.controlCsEp] ++ [stream1.intfAlt0] from hobject)
    · exact hfunction.endpoints object h
    · exact hstream1.intfAlt0 object h
  obtain ⟨fields, hfields, hinside⟩ := control_fields_inside function double
  have hpos : 5 + 2 ≤ if double = true then 14 else 13 := by cases double <;> decide
  obtain ⟨hdrA, hlenA, hcopyA⟩ := copy_descriptors_ok hfunction.first ⟨[], []⟩
  obtain ⟨hdrB, memB, hlenB, hsizeB, hwordB, hcopyB⟩ := copy_class_ok hfunction.control hpos hinside
    ⟨[] ++ hdrA, [] ++ copiedBytes [function.iad, function.controlIntf]⟩
  obtain ⟨hdrC, hlenC, hcopyC⟩ := copy_descriptors_ok hmiddle ⟨_ ++ hdrB, _ ++ memB⟩
  have hstreaming : ∀ field ∈ [(6, [stream1.epAddress])],
      4 + 2 ≤ field.1 ∧ field.1 + field.2.length ≤ 13 := by simp
  obtain ⟨hdrD, memD, hlenD, hsizeD, hwordD, hcopyD⟩ := copy_class_ok hcls1 (by decide) hstreaming
    ⟨_ ++ hdrC, _ ++ copiedBytes [function.controlEp, function.controlCsEp, stream1.intfAlt0]⟩
  obtain ⟨hdrE, hlenE, hcopyE⟩ := copy_descriptors_ok hstream1.std ⟨_ ++ hdrD, _ ++ memD⟩
  refine ⟨_, ?_, by
    rw [hcopyA, bind_some, hfields, hcopyB, bind_some, hcopyC, bind_some]
    unfold streamingFields
    rw [hcopyD, bind_some, hcopyE]⟩
  have hsizeA := copied_bytes_length hfunction.first
  have hsizeC := copied_bytes_length hmiddle
  have hsizeE := copied_bytes_length hstream1.std
  refine ⟨?_, ?_, fun post => ?_⟩
  · simp only [allDescriptors, length_append, hlenA, hlenB, hlenC, hlenD, hlenE,
      length_nil, zero_add, add_zero]
  · simp only [allDescriptors, sizes_append, length_append, hsizeA, hsizeB, hsizeC, hsizeD,
      hsizeE, length_nil, zero_add]
    rfl
  · have hheaderB : 5 + 2 ≤ memB.length :=
      hsizeB ▸ hpos.trans (hfunction.control.header.trans (first_le_sizes _))
    have hheaderD : 4 + 2 ≤ memD.length :=
      hsizeD ▸ (by decide : 4 + 2 ≤ 13).trans (hcls1.header.trans (first_le_sizes _))
    obtain ⟨hcontrol, hstream⟩ := five_parts hheaderB hheaderD
      (rfl : [] ++ copiedBytes [function.iad, function.controlIntf] ++ memB ++
        copiedBytes [function.controlEp, function.controlCsEp, stream1.intfAlt0] ++ memD ++
          (copiedBytes stream1.std ++ post) = _)
    rw [nil_append, hsizeA, hwordB, ← append_assoc] at hcontrol
    rw [nil_append, hsizeA, hsizeB, hsizeC, hwordD, ← append_assoc] at hstream
    exact ⟨hcontrol, hstream⟩

theorem copy_ok {function : FunctionDescriptors} {stream1 : StreamDescriptors}
    {cls1 : List (List Byte)} {stream2 : Option (StreamDescriptors × List (List Byte))}
    (hfunction : function.Ok stream2.isSome) (hstream1 : stream1.Ok) (hcls1 : ClassOk cls1 13)
    (hstream2 : ∀ stream ∈ stream2, stream.1.Ok ∧ ClassOk stream.2 13) :
    ∃ copied, uvcCopyDescriptors function stream1 cls1 stream2 = some copied ∧
      CopiedOk function stream1 cls1 stream2 copied := by
  obtain ⟨state, hfirst, hcopy⟩ := copy_first stream2.isSome hfunction hstream1 hcls1
  have hall : uvcCopyDescriptors function stream1 cls1 stream2 =
      (match stream2 with
        | none => some state
        | some (stream2, cls2) =>
          (copyDescriptors [stream2.intfAlt0] state).bind fun state =>
            (copyClass cls2 (streamingFields stream2 cls2 ++ [terminalLink cls2]) state).bind
              (copyDescriptors stream2.std)).map fun state =>
        ⟨sizes (allDescriptors function stream1 cls1 stream2),
          (allDescriptors function stream1 cls1 stream2).length, state⟩ := by
    simp only [bind_eq_some_iff] at hcopy
    obtain ⟨stateA, hA, stateB, hB, stateC, hC, stateD, hD, hE⟩ := hcopy
    unfold uvcCopyDescriptors
    rw [hA, bind_some, hB, bind_some, hC, bind_some, hD, bind_some, hE, bind_some]
  rw [hall]
  cases stream2 with
  | none =>
    refine ⟨_, rfl, hfirst.size, hfirst.pointers, ?_, ?_, nofun⟩
    · exact append_nil state.mem ▸ (hfirst.words []).1
    · exact append_nil state.mem ▸ (hfirst.words []).2
  | some stream =>
    obtain ⟨stream2, cls2⟩ := stream
    obtain ⟨hok, hcls2⟩ : stream2.Ok ∧ ClassOk cls2 13 := hstream2 _ rfl
    obtain ⟨hdrA, hlenA, hcopyA⟩ := copy_descriptors_ok hok.intfAlt0 state
    have hfields : ∀ field ∈ [(6, [stream2.epAddress]), terminalLink cls2],
        4 + 2 ≤ field.1 ∧ field.1 + field.2.length ≤ 13 := by simp [terminalLink]
    obtain ⟨hdrB, memB, hlenB, hsizeB, hwordB, hcopyB⟩ := copy_class_ok hcls2 (by decide) hfields
      ⟨_ ++ hdrA, _ ++ copiedBytes [stream2.intfAlt0]⟩
    obtain ⟨hdrC, hlenC, hcopyC⟩ := copy_descriptors_ok hok.std ⟨_ ++ hdrB, _ ++ memB⟩
    have hsizeA := copied_bytes_length hok.intfAlt0
    have hsizeC := copied_bytes_length hok.std
    have hparts : allDescriptors function stream1 cls1 (some (stream2, cls2)) =
        allDescriptors function stream1 cls1 none ++ [stream2.intfAlt0] ++ cls2 ++ stream2.std := by
      unfold allDescriptors
      simp only [append_assoc, append_nil, nil_append, cons_append]
    have hmem : state.mem ++ copiedBytes [stream2.intfAlt0] ++ memB ++ copiedBytes stream2.std =
        state.mem ++ (copiedBytes [stream2.intfAlt0] ++ memB ++ copiedBytes stream2.std) := by
      simp only [append_assoc]
    refine ⟨_, by
      dsimp only
      rw [hcopyA, bind_some]
      unfold streamingFields
      rw [cons_append, cons_append, nil_append, hcopyB, bind_some, hcopyC,
        map_some], ?_, ?_, ?_, ?_, ?_⟩
    · dsimp only
      rw [hparts, sizes_append, sizes_append, sizes_append, ← hfirst.size, ← hsizeA, ← hsizeB,
        ← hsizeC, length_append, length_append, length_append]
    · dsimp only
      simp only [hparts, length_append, hfirst.pointers, hlenA, hlenB, hlenC]
    · dsimp only
      rw [hmem]
      exact (hfirst.words _).1
    · dsimp only
      rw [hmem]
      exact (hfirst.words _).2
    · rintro stream hstream
      obtain rfl := some.inj hstream
      have hheader : 4 + 2 ≤ memB.length :=
        hsizeB ▸ (by decide : 4 + 2 ≤ 13).trans (hcls2.header.trans (first_le_sizes _))
      have hoffset : streamingOffset2 function stream1 cls1 stream2 =
          (state.mem ++ copiedBytes [stream2.intfAlt0]).length := by
        rw [length_append, hfirst.size, hsizeA]
        unfold streamingOffset2 streamingOffset1 controlOffset allDescriptors
        simp only [sizes_append, append_nil]
      rw [hoffset, word_at_middle hheader, hwordB]

end FullhanRtos.Uvc
