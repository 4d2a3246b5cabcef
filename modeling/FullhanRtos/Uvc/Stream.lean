import FullhanRtos.Uvc.Frame
import Mathlib.Data.List.Chain
import Mathlib.Data.List.Forall2

/-!
# The video stream

`fh_uvc_stream_enqueue` and `fh_uvc_stream_pts` of `drivers/usb/device/class/uvc_init.c`, while the
stream is on and buffers are obtained. The stream and the host agree on a sequence of images:
`decode` reads the packets of all buffers, in the order they were filled, and
`stream_decodes` says that it finds the images that were sent.
-/

namespace FullhanRtos.Uvc

open Buffer Word List

/-! ## The stream -/

/-- An image. Its size is a 32-bit number. -/
structure Image where
  bytes : List Byte
  size_lt : bytes.length < 2 ^ 32

/-- What the buffers hold when they are obtained, one after the other. -/
structure Buffers (config : UvcConfig) where
  data : Nat → List Byte
  size : ∀ i, config.bufSize ≤ (data i).length

def uvcStreamFid : BitVec 32 := 1#32

/-- The stream, the number of buffers obtained and the buffers filled for each image. -/
structure Stream where
  buf : UvcVideoBuf
  obtained : Nat
  sent : List (List UvcFrameBuf)

/-- The loop of `fh_uvc_stream_enqueue`, at most `fuel` times: `none` if that is not enough. -/
def enqueueLoop (config : UvcConfig) (buffers : Buffers config) (img : List Byte) :
    Nat → Nat → UvcVideoBuf → Option (List UvcFrameBuf × Nat × UvcVideoBuf)
  | 0, obtained, buf => if buf.currentSize < img.length then none else some ([], obtained, buf)
  | fuel + 1, obtained, buf =>
    if buf.currentSize < img.length then do
      let (frame, buf) ← uvcFrameEncode config buf (buffers.data obtained) img
      let (frames, obtained, buf) ← enqueueLoop config buffers img fuel (obtained + 1) buf
      pure (frame :: frames, obtained, buf)
    else some ([], obtained, buf)

/-- `fh_uvc_stream_enqueue`. The loop runs at most once for each byte. -/
def fhUvcStreamEnqueue (config : UvcConfig) (buffers : Buffers config) (img : Image) (st : Stream) :
    Option Stream :=
  if img.bytes.length = 0 then some st
  else do
    let (frames, obtained, buf) ← enqueueLoop config buffers img.bytes img.bytes.length st.obtained
      { st.buf with currentSize := 0 }
    pure
      { buf := { buf with fid := buf.fid ^^^ uvcStreamFid }
        obtained
        sent := st.sent ++ [frames] }

def fhUvcStreamPts (pts : BitVec 64) (st : Stream) : Stream :=
  { st with buf := { st.buf with streamPts := (pts &&& 0xffffffff#64).setWidth 32 } }

/-- A call by the application. -/
inductive UvcOp where
  | pts (pts : BitVec 64)
  | enqueue (img : Image)

/-- One call. -/
def step (config : UvcConfig) (buffers : Buffers config) (st : Stream) : UvcOp → Option Stream
  | .pts pts => some (fhUvcStreamPts pts st)
  | .enqueue img => fhUvcStreamEnqueue config buffers img st

/-- A sequence of calls. -/
def run (config : UvcConfig) (buffers : Buffers config) (st : Stream) :
    List UvcOp → Option Stream
  | [] => some st
  | op :: ops => do
      let st ← step config buffers st op
      run config buffers st ops

/-- After `uvc_driver_buf_reinit`, which leaves the position and the time stamp as they are. -/
def start (currentSize : Nat) (streamPts : BitVec 32) : Stream where
  buf := { currentSize, fid := 0#32, streamPts }
  obtained := 0
  sent := []

/-! ## The host -/

/-- An image as the host receives it. -/
structure Received where
  fid : Bool
  pts : Option (BitVec 32)
  data : List Byte

/-- Add a packet to the image being received. All packets of an image have the same frame
identifier and the same time stamp. -/
def receive (image : Option Received) (packet : List Byte) : Option Received :=
  match image with
  | none => some ⟨packetFid packet, packetPts packet, payload packet⟩
  | some image =>
    if packetFid packet = image.fid ∧ packetPts packet = image.pts then
      some { image with data := image.data ++ payload packet }
    else none

/-- Read packets, which have headers of 12 bytes. The end-of-frame bit ends an image, and the last
image is complete. -/
def decode : Option Received → List (List Byte) → Option (List Received)
  | none, [] => some []
  | some _, [] => none
  | image, packet :: packets =>
    if headerLength packet = uvcHeaderLen then do
      let image ← receive image packet
      if packetEof packet then do
        let images ← decode none packets
        pure (image :: images)
      else decode (some image) packets
    else none

/-- What the host receives after calls, in its own terms: an empty image is not sent, the frame
identifier changes with every image, and a time stamp is for the next image only. -/
def expected (fid : Bool) (streamPts : BitVec 32) : List UvcOp → List Received
  | [] => []
  | .pts pts :: ops => expected fid ((pts &&& 0xffffffff#64).setWidth 32) ops
  | .enqueue img :: ops =>
    if img.bytes.length = 0 then expected fid streamPts ops
    else ⟨fid, sentPts streamPts, img.bytes⟩ :: expected (!fid) 0#32 ops

/-- The buffers of one image, as the host sees them. -/
structure ImageSent (config : UvcConfig) (frames : List UvcFrameBuf) (image : Received) : Prop where
  frame_size : ∀ frame ∈ frames, frame.uvcFrameSize ≤ config.bufSize
  packet : ∀ q ∈ frames.flatMap (framePackets config), q.length ≤ config.packetSize ∧
    uvcHeaderLen < q.length ∧ headerLength q = uvcHeaderLen ∧
    packetFid q = image.fid ∧ packetPts q = image.pts
  eof : ∃ before last, frames.flatMap (framePackets config) = before ++ [last] ∧
    (∀ q ∈ before, packetEof q = false) ∧ packetEof last = true
  payloads : (frames.flatMap (framePackets config)).flatMap payload = image.data

/-! ## One image -/

section

variable {config : UvcConfig} {fid streamPts : BitVec 32} {last : Bool}
  {bytes bytes' : List Byte} {packets packets' : List (List Byte)}

theorem Carried.append (h : Carried config fid streamPts false bytes packets)
    (h' : Carried config fid streamPts last bytes' packets') :
    Carried config fid streamPts last (bytes ++ bytes') (packets ++ packets') := by
  obtain ⟨⟨before, end', hpackets, hbefore, hend⟩, hpayloads⟩ := h
  obtain ⟨⟨before', end'', hpackets', hbefore', hend'⟩, hpayloads'⟩ := h'
  refine ⟨⟨packets ++ before', end'', ?_, ?_, hend'⟩, ?_⟩
  · rw [hpackets', append_assoc]
  · intro q hq
    rcases mem_append.mp hq with hold | hnew
    · rw [hpackets] at hold
      rcases mem_append.mp hold with hold | hlast
      · exact hbefore q hold
      · rw [mem_singleton.mp hlast]
        exact hend
    · exact hbefore' q hnew
  · rw [flatMap_append, hpayloads, hpayloads']

theorem enqueue_loop_spec (buffers : Buffers config) (obtained : Nat) (buf : UvcVideoBuf)
    {img : List Byte} {fuel : Nat} (hfid : buf.fid = 0#32 ∨ buf.fid = 1#32)
    (himg : img.length < 2 ^ 32) (hcurrent : buf.currentSize < img.length)
    (hfuel : img.length - buf.currentSize ≤ fuel) :
    ∃ frames obtained' buf', enqueueLoop config buffers img fuel obtained buf =
        some (frames, obtained', buf') ∧
      buf'.fid = buf.fid ∧ buf'.streamPts = 0#32 ∧
      (∀ frame ∈ frames, frame.uvcFrameSize ≤ config.bufSize) ∧
      Carried config buf.fid buf.streamPts true (img.drop buf.currentSize)
        (frames.flatMap (framePackets config)) := by
  induction fuel generalizing obtained buf with
  | zero => omega
  | succ fuel ih =>
    obtain ⟨frame, mid, n, hencode, hspec⟩ := encode_spec hfid (buffers.size obtained) himg hcurrent
    have hmoves := hspec.moves
    have hmid := hspec.current_size
    have hle := hspec.current_le
    have hstamp := hspec.stream_pts
    have hcarried := hspec.packets
    rw [enqueueLoop, if_pos hcurrent, hencode]
    by_cases hend : mid.currentSize = img.length
    · -- that was the last buffer
      rw [if_pos hend] at hstamp
      rw [decide_eq_true hend] at hcarried
      have hstop : enqueueLoop config buffers img fuel (obtained + 1) mid =
          some ([], obtained + 1, mid) := by
        cases fuel <;> rw [enqueueLoop, if_neg (by omega)]
      refine ⟨[frame], obtained + 1, mid, ?_, hspec.fid, hstamp, ?_, ?_⟩
      · show (enqueueLoop config buffers img fuel (obtained + 1) mid).bind _ = _
        rw [hstop]
        rfl
      · intro other hother
        rw [mem_singleton.mp hother]
        exact hspec.frame_size
      · rw [flatMap_singleton]
        rwa [take_of_length_le (by rw [length_drop]; omega)] at hcarried
    · rw [if_neg hend] at hstamp
      rw [decide_eq_false hend] at hcarried
      obtain ⟨frames, obtained', buf', hrun, hfid', hstamp', hsizes, hrest⟩ :=
        ih (obtained + 1) mid (hspec.fid ▸ hfid) (by omega) (by omega)
      rw [hspec.fid, hstamp, hmid, ← drop_drop] at hrest
      refine ⟨frame :: frames, obtained', buf', ?_, hfid'.trans hspec.fid, hstamp', ?_, ?_⟩
      · show (enqueueLoop config buffers img fuel (obtained + 1) mid).bind _ = _
        rw [hrun]
        rfl
      · intro other hother
        rcases mem_cons.mp hother with rfl | hother
        · exact hspec.frame_size
        · exact hsizes other hother
      · rw [flatMap_cons, ← take_append_drop n (img.drop buf.currentSize)]
        exact hcarried.append hrest

theorem Carried.image_sent {frames : List UvcFrameBuf}
    (hsizes : ∀ frame ∈ frames, frame.uvcFrameSize ≤ config.bufSize)
    (h : Carried config fid streamPts true bytes (frames.flatMap (framePackets config))) :
    ImageSent config frames ⟨fid.getLsbD 0, sentPts streamPts, bytes⟩ := by
  obtain ⟨⟨before, end', hpackets, hbefore, hend⟩, hpayloads⟩ := h
  constructor
  case frame_size => exact hsizes
  case packet =>
    intro q hq
    rw [hpackets] at hq
    have hok : ∃ eof, PacketOk config fid streamPts eof q := by
      rcases mem_append.mp hq with hold | hlast
      · exact ⟨false, hbefore q hold⟩
      · rw [mem_singleton.mp hlast]
        exact ⟨true, hend⟩
    obtain ⟨eof, hok⟩ := hok
    exact ⟨hok.length_le, hok.longer, hok.header, hok.fid, hok.pts⟩
  case eof => exact ⟨before, end', hpackets, fun q hq => (hbefore q hq).eof, hend.eof⟩
  case payloads => exact hpayloads

theorem enqueue_spec (buffers : Buffers config) {st : Stream} {img : Image}
    (hfid : st.buf.fid = 0#32 ∨ st.buf.fid = 1#32) (hsize : img.bytes.length ≠ 0) :
    ∃ frames st', fhUvcStreamEnqueue config buffers img st = some st' ∧
      st'.sent = st.sent ++ [frames] ∧ st'.buf.fid = st.buf.fid ^^^ uvcStreamFid ∧
      st'.buf.streamPts = 0#32 ∧
      ImageSent config frames ⟨st.buf.fid.getLsbD 0, sentPts st.buf.streamPts, img.bytes⟩ := by
  obtain ⟨frames, obtained, buf, hrun, hfid', hstamp, hsizes, hcarried⟩ :=
    enqueue_loop_spec buffers st.obtained { st.buf with currentSize := 0 } hfid img.size_lt
      (Nat.pos_of_ne_zero hsize) (Nat.sub_le _ _)
  refine ⟨frames, ⟨{ buf with fid := buf.fid ^^^ uvcStreamFid }, obtained, st.sent ++ [frames]⟩, ?_,
    rfl, ?_, hstamp, hcarried.image_sent hsizes⟩
  · unfold fhUvcStreamEnqueue
    rw [if_neg hsize, hrun]
    rfl
  · show buf.fid ^^^ uvcStreamFid = _
    rw [hfid']

end

/-! ## Reading the packets -/

section

variable {config : UvcConfig} {image : Received} {packet : List Byte}
  {packets rest : List (List Byte)}

theorem decode_rest {cur : Option Received} {data : List Byte} {before : List (List Byte)}
    {end' : List Byte}
    (hcur : ∀ q, packetFid q = image.fid ∧ packetPts q = image.pts →
      receive cur q = some ⟨image.fid, image.pts, data ++ payload q⟩)
    (hpacket : ∀ q ∈ before ++ [end'], headerLength q = uvcHeaderLen ∧ packetFid q = image.fid ∧
      packetPts q = image.pts)
    (hbefore : ∀ q ∈ before, packetEof q = false) (hend : packetEof end' = true) :
    decode cur (before ++ end' :: rest) = (decode none rest).map
      (⟨image.fid, image.pts, data ++ (before ++ [end']).flatMap payload⟩ :: ·) := by
  induction before generalizing cur data with
  | nil =>
    obtain ⟨hheader, hsame⟩ := hpacket end' (mem_singleton.mpr rfl)
    rw [nil_append, nil_append, flatMap_singleton, decode, if_pos hheader, hcur end' hsame]
    show (if packetEof end' then _ else _) = _
    rw [if_pos hend]
    cases decode none rest <;> rfl
  | cons q before ih =>
    obtain ⟨hheader, hsame⟩ := hpacket q mem_cons_self
    rw [cons_append, decode, if_pos hheader, hcur q hsame]
    show (if packetEof q then _ else _) = _
    have hopen : packetEof q ≠ true := by
      rw [hbefore q mem_cons_self]
      exact Bool.false_ne_true
    have hrest : decode (some ⟨image.fid, image.pts, data ++ payload q⟩)
        (before ++ end' :: rest) = _ :=
      ih (fun _ hsame' => if_pos hsame') (fun q' hq' => hpacket q' (mem_cons_of_mem _ hq'))
        fun q' hq' => hbefore q' (mem_cons_of_mem _ hq')
    rw [if_neg hopen, hrest]
    simp only [cons_append, flatMap_cons, append_assoc]

theorem decode_image {frames : List UvcFrameBuf} (h : ImageSent config frames image) :
    decode none (frames.flatMap (framePackets config) ++ rest) =
      (decode none rest).map (image :: ·) := by
  obtain ⟨before, end', hpackets, hbefore, hend⟩ := h.eof
  have hpayloads := h.payloads
  have hpacket : ∀ q ∈ before ++ [end'], headerLength q = uvcHeaderLen ∧
      packetFid q = image.fid ∧ packetPts q = image.pts := by
    intro q hq
    rw [← hpackets] at hq
    exact (h.packet q hq).2.2
  have hcur : ∀ q, packetFid q = image.fid ∧ packetPts q = image.pts →
      receive none q = some ⟨image.fid, image.pts, [] ++ payload q⟩ := by
    rintro q ⟨hfid, hpts⟩
    rw [receive, hfid, hpts, nil_append]
  rw [hpackets] at hpayloads ⊢
  rw [append_assoc, singleton_append, decode_rest hcur hpacket hbefore hend, hpayloads, nil_append]

theorem decode_images {sent : List (List UvcFrameBuf)} {images : List Received}
    (h : Forall₂ (ImageSent config) sent images) :
    decode none (sent.flatten.flatMap (framePackets config)) = some images := by
  induction h with
  | nil => rfl
  | cons hhead htail ih =>
    rw [flatten_cons, flatMap_append, decode_image hhead, ih]
    rfl

end

/-! ## Runs -/

section

variable {config : UvcConfig} {ops : List UvcOp}

theorem flip_fid {fid : BitVec 32} (hfid : fid = 0#32 ∨ fid = 1#32) :
    (fid ^^^ uvcStreamFid = 0#32 ∨ fid ^^^ uvcStreamFid = 1#32) ∧
      (fid ^^^ uvcStreamFid).getLsbD 0 = !fid.getLsbD 0 := by
  rcases hfid with rfl | rfl
  · exact ⟨.inr rfl, rfl⟩
  · exact ⟨.inl rfl, rfl⟩

theorem run_spec (buffers : Buffers config) (ops : List UvcOp) (st : Stream)
    (hfid : st.buf.fid = 0#32 ∨ st.buf.fid = 1#32) :
    ∃ st' sent, run config buffers st ops = some st' ∧ st'.sent = st.sent ++ sent ∧
      Forall₂ (ImageSent config) sent (expected (st.buf.fid.getLsbD 0) st.buf.streamPts ops) := by
  induction ops generalizing st with
  | nil => exact ⟨st, [], rfl, (append_nil _).symm, .nil⟩
  | cons op ops ih =>
    cases op with
    | pts pts => exact ih (fhUvcStreamPts pts st) hfid
    | enqueue img =>
      by_cases hsize : img.bytes.length = 0
      · obtain ⟨st', sent, hrun, hsent, hok⟩ := ih st hfid
        have hstep : step config buffers st (.enqueue img) = some st := if_pos hsize
        refine ⟨st', sent, ?_, hsent, ?_⟩
        · rw [run, hstep]
          exact hrun
        · rwa [expected, if_pos hsize]
      · obtain ⟨frames, mid, hstep, hmid, hfid', hstamp, himage⟩ := enqueue_spec buffers hfid hsize
        obtain ⟨hflipped, hbit⟩ := flip_fid hfid
        rw [← hfid'] at hflipped hbit
        obtain ⟨st', sent, hrun, hsent, hok⟩ := ih mid hflipped
        refine ⟨st', frames :: sent, ?_, ?_, ?_⟩
        · show (fhUvcStreamEnqueue config buffers img st).bind _ = _
          rw [hstep]
          exact hrun
        · rw [hsent, hmid, append_assoc, singleton_append]
        · rw [expected, if_neg hsize]
          rw [hbit, hstamp] at hok
          exact .cons himage hok

theorem expected_alternates (fid : Bool) (streamPts : BitVec 32) :
    (∀ image ∈ (expected fid streamPts ops).head?, image.fid = fid) ∧
      (expected fid streamPts ops).IsChain fun image next => image.fid ≠ next.fid := by
  induction ops generalizing fid streamPts with
  | nil => exact ⟨fun _ himage => absurd himage (Option.not_mem_none _), .nil⟩
  | cons op ops ih =>
    cases op with
    | pts pts => exact ih fid _
    | enqueue img =>
      rw [expected]
      split
      case isTrue => exact ih fid streamPts
      case isFalse =>
        obtain ⟨hhead, hchain⟩ := ih (!fid) 0#32
        refine ⟨fun image himage => ?_, ?_⟩
        · rw [← Option.some.inj himage]
        · refine isChain_cons.mpr ⟨fun next hnext => ?_, hchain⟩
          rw [hhead next hnext]
          exact (Bool.not_ne_self fid).symm

/-- The images that were given to `fh_uvc_stream_enqueue`. -/
def enqueued : List UvcOp → List (List Byte)
  | [] => []
  | .pts _ :: ops => enqueued ops
  | .enqueue img :: ops =>
    if img.bytes.length = 0 then enqueued ops else img.bytes :: enqueued ops

theorem expected_data {fid : Bool} {streamPts : BitVec 32} :
    (expected fid streamPts ops).map (·.data) = enqueued ops := by
  induction ops generalizing fid streamPts with
  | nil => rfl
  | cons op ops ih =>
    cases op with
    | pts pts => exact ih
    | enqueue img =>
      rw [expected, enqueued]
      split
      case isTrue => exact ih
      case isFalse => rw [map_cons, ih]

/-- Whatever the application sends, every call returns, and the packets in the buffers, each with
a header of 12 bytes and at most the packet size long, are read back as the images. -/
theorem stream_decodes (config : UvcConfig) (buffers : Buffers config) (currentSize : Nat)
    (streamPts : BitVec 32) (ops : List UvcOp) :
    ∃ st images, run config buffers (start currentSize streamPts) ops = some st ∧
      Forall₂ (ImageSent config) st.sent images ∧
      decode none (st.sent.flatten.flatMap (framePackets config)) = some images ∧
      images = expected false streamPts ops ∧
      images.map (·.data) = enqueued ops ∧
      images.IsChain fun image next => image.fid ≠ next.fid := by
  obtain ⟨st, sent, hrun, hsent, hok⟩ :=
    run_spec buffers ops (start currentSize streamPts) (.inl rfl)
  have hall : st.sent = sent := hsent
  have hbit : (start currentSize streamPts).buf.fid.getLsbD 0 = false := BitVec.getLsbD_zero
  rw [← hall, hbit] at hok
  exact ⟨st, expected false streamPts ops, hrun, hok, decode_images hok, rfl, expected_data,
    (expected_alternates false streamPts).2⟩

end

end FullhanRtos.Uvc
