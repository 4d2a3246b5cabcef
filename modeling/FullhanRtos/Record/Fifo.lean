import FullhanRtos.Record.Cbuf

/-!
# Frames between the producer and the consumer

The positions of the producer and of the consumer only grow; `rd` and `wr` are their cells. Between
them the frames stand one behind the other. `cbuf_write_cases` says what the stores of a frame come
to when they are done, `cbuf_prefetch_eq` what the consumer reads in a header.
-/

namespace FullhanRtos.Record

open Bytes Ring List Nat

/-- A frame with its `buffer_length`. -/
structure Entry where
  frame : RecordFrame
  buffer : Nat

def Entry.head (e : Entry) : StreamHead := streamHead e.frame (BitVec.ofNat 32 e.buffer)

/-- What the consumer advances by. -/
def Entry.length (e : Entry) : Nat := headSize + e.buffer

structure EntryOk (size : Nat) (e : Entry) : Prop where
  pos : 0 < e.frame.data.length
  le_buffer : e.frame.data.length ≤ e.buffer
  lt_size : e.length < size

/-- A frame at a position, with its header in one piece. -/
structure Stored (size : Nat) (buf : Nat → Byte) (p : Nat) (e : Entry) : Prop where
  ok : EntryOk size e
  fits : p % size + headSize ≤ size
  head : read size buf p headSize = e.head.bytes
  data : read size buf (p + headSize) e.frame.data.length = e.frame.data

/-- Frames from one position to another. -/
def Laid (size : Nat) (buf : Nat → Byte) : Nat → List Entry → Nat → Prop
  | p, [], q => p = q
  | p, e :: es, q => Stored size buf p e ∧ Laid size buf (p + e.length) es q

/-- The sizes of `cbuf_init`. -/
structure SizeOk (size : Nat) : Prop where
  ge : 32 ≤ size
  le : size ≤ 20 * 1024 * 1024

variable {size p q R W : Nat} {buf buf' : Nat → Byte} {e : Entry} {es : List Entry} {cbuf : Cbuf}
  {n : Nat}

/-! ## Headers -/

theorem length_int_bytes (v : BitVec 32) : (intBytes v).length = 4 := length_le_bytes 4 v.toNat

theorem load_int_bytes (v : BitVec 32) : loadInt (intBytes v) = v := by
  unfold loadInt intBytes
  rw [le_value_bytes_of_lt (show v.toNat < 256 ^ 4 from v.isLt), BitVec.ofNat_toNat,
    BitVec.setWidth_eq]

/-- The header without `buffer_length`. -/
def headFront (frame : RecordFrame) : List Byte :=
  intBytes streamMagic ++ intBytes frame.type ++ intBytes frame.channel ++
    intBytes (BitVec.ofNat 32 frame.data.length)

theorem length_head_front (frame : RecordFrame) : (headFront frame).length = 16 := by
  simp only [headFront, length_append, length_int_bytes]

theorem length_head_bytes (hdr : StreamHead) : hdr.bytes.length = headSize := by
  rfl

theorem load_head_bytes (hdr : StreamHead) : loadHead hdr.bytes = hdr := by
  have hsplit : ∀ (a b c d e : List Byte), a.length = 4 → b.length = 4 → c.length = 4 →
      d.length = 4 → e.length = 4 →
      (a ++ b ++ c ++ d ++ e).take 4 = a ∧ ((a ++ b ++ c ++ d ++ e).drop 4).take 4 = b ∧
      ((a ++ b ++ c ++ d ++ e).drop 8).take 4 = c ∧
      ((a ++ b ++ c ++ d ++ e).drop 12).take 4 = d ∧
      ((a ++ b ++ c ++ d ++ e).drop 16).take 4 = e := by
    intro a b c d e ha hb hc hd he
    simp [drop_append, ha, hb, hc, hd, he, take_of_length_le, drop_of_length_le]
  obtain ⟨h1, h2, h3, h4, h5⟩ := hsplit _ _ _ _ _ (length_int_bytes hdr.magic)
    (length_int_bytes hdr.type) (length_int_bytes hdr.channel) (length_int_bytes hdr.dataLength)
    (length_int_bytes hdr.bufferLength)
  unfold loadHead StreamHead.bytes
  rw [h1, h2, h3, h4, h5]
  simp only [load_int_bytes]

/-! ## Frames that stay as they are -/

theorem Stored.agree (h : Stored size buf p e) (hagree : Agree size buf buf' p (p + e.length)) :
    Stored size buf' p e := by
  have hle := h.ok.le_buffer
  have hlen : e.length = headSize + e.buffer := rfl
  refine ⟨h.ok, h.fits, ?_, ?_⟩
  · rw [(hagree.mono (le_refl p) (by omega)).read]
    exact h.head
  · rw [(hagree.mono (Nat.le_add_right p headSize) (by omega)).read]
    exact h.data

theorem Laid.le (h : Laid size buf p es q) : p ≤ q := by
  induction es generalizing p with
  | nil => exact le_of_eq h
  | cons e es ih => exact (Nat.le_add_right p e.length).trans (ih h.2)

theorem Laid.agree (h : Laid size buf p es q) (hagree : Agree size buf buf' p q) :
    Laid size buf' p es q := by
  induction es generalizing p with
  | nil => exact h
  | cons e es ih =>
    have hend := Laid.le h.2
    exact ⟨h.1.agree (hagree.mono (le_refl p) hend),
      ih h.2 (hagree.mono (Nat.le_add_right p e.length) (le_refl q))⟩

/-- A further frame behind the others. -/
theorem Laid.append (h : Laid size buf p es q) (he : Stored size buf q e) :
    Laid size buf p (es ++ [e]) (q + e.length) := by
  induction es generalizing p with
  | nil =>
    have hp : p = q := h
    subst hp
    exact ⟨he, rfl⟩
  | cons e' es ih => exact ⟨h.1, ih h.2⟩

/-! ## Addresses -/

theorem behind_head (hfits : p % size + headSize ≤ size) :
    (if size ≤ p % size + headSize then 0 else p % size + headSize) = (p + headSize) % size := by
  by_cases hend : size ≤ p % size + headSize
  · have heq : p % size + headSize = size := le_antisymm hfits hend
    rw [if_pos hend, ← mod_add_mod, heq, mod_self]
  · rw [if_neg hend, ← mod_add_mod, mod_eq_of_lt (Nat.lt_of_not_le hend)]

theorem payload_stores_eq {data : List Byte} (hpos : 0 < size) (hdata : data.length ≤ size) :
    payloadStores size (p % size) data = ringStores size p data := by
  have hp := mod_lt p hpos
  unfold payloadStores
  by_cases hwrap : size - p % size < data.length
  · rw [if_pos hwrap, stores_wrap hpos hdata (le_of_lt hwrap)]
  · rw [if_neg hwrap, stores_eq (by omega)]

theorem load_bytes_eq (h : p % size + n ≤ size) :
    loadBytes buf (p % size) n = read size buf p n := load_eq h

/-! ## Writing a frame -/

/-- Stores whose addresses are cells from one position to another. -/
def Within (size : Nat) (ws : List (Nat × Byte)) (p q : Nat) : Prop :=
  ∀ w ∈ ws, ∃ i, p ≤ i ∧ i < q ∧ w.1 = i % size

theorem within_ring_stores {bs : List Byte} (hp : W ≤ p) (hq : p + bs.length ≤ q) :
    Within size (ringStores size p bs) W q := by
  intro w hw
  obtain ⟨i, hi, heq⟩ := mem_ring_stores hw
  exact ⟨p + i, by omega, by omega, heq⟩

/-- A header and a payload at a position. -/
theorem stored_of_stores (hok : EntryOk size e) (hfits : W % size + headSize ≤ size) :
    Stored size (storeAll buf (ringStores size W (e.head.bytes ++ e.frame.data))) W e := by
  have hle := hok.le_buffer
  have hlt := hok.lt_size
  have hhead := length_head_bytes e.head
  have hlen : e.length = headSize + e.buffer := rfl
  have hroom : (e.head.bytes ++ e.frame.data).length ≤ size := by
    rw [length_append]
    omega
  have hall := read_ring_stores buf W hroom
  rw [length_append, read_add, hhead] at hall
  obtain ⟨h1, h2⟩ := append_inj hall (by rw [length_read, hhead])
  exact ⟨hok, hfits, h1, h2⟩

/-- The header again, with another `buffer_length`. -/
theorem Stored.grow (h : Stored size buf W e) {buffer : Nat} (hle : e.buffer ≤ buffer)
    (hlt : headSize + buffer < size) :
    Stored size (storeAll buf (ringStores size (W + 16) (intBytes (BitVec.ofNat 32 buffer)))) W
      ⟨e.frame, buffer⟩ := by
  have hok := h.ok
  have hdata := hok.le_buffer
  have hhead : headSize = 20 := rfl
  have hint := length_int_bytes (BitVec.ofNat 32 buffer)
  have hwithin : Within size (ringStores size (W + 16) (intBytes (BitVec.ofNat 32 buffer)))
      (W + 16) (W + headSize) := within_ring_stores (le_refl _) (by rw [hint]; rfl)
  have hfront : read size buf W 16 = headFront e.frame := by
    have hbytes := h.head
    exact (append_inj hbytes (by rw [length_read, length_head_front])).1
  have hsame : read size (storeAll buf (ringStores size (W + 16)
      (intBytes (BitVec.ofNat 32 buffer)))) W 16 = read size buf W 16 :=
    (agree_store_all hwithin (Or.inl ⟨le_refl _, by omega⟩)).read
  have hroom : (intBytes (BitVec.ofNat 32 buffer)).length ≤ size := by
    omega
  have hnew := read_ring_stores buf (W + 16) hroom
  rw [hint] at hnew
  have hpayload : read size (storeAll buf (ringStores size (W + 16)
      (intBytes (BitVec.ofNat 32 buffer)))) (W + headSize) e.frame.data.length =
      read size buf (W + headSize) e.frame.data.length :=
    (agree_store_all hwithin (Or.inr ⟨le_refl _, by omega⟩)).read
  refine ⟨⟨hok.pos, hdata.trans hle, hlt⟩, h.fits, ?_, hpayload.trans h.data⟩
  rw [show headSize = 16 + 4 from rfl, read_add, hsame, hfront, hnew]
  rfl

theorem aligned_length_le (n : Nat) : n ≤ alignedLength n ∧ alignedLength n ≤ n + 3 := by
  unfold alignedLength
  omega

/-- The stores of a frame go to free cells, and when they are done the frame is at the position of
the producer. -/
theorem frame_stores_ok (frame : RecordFrame) (hfits : W % size + headSize ≤ size)
    (hpos : 0 < frame.data.length)
    (hroom : headSize * 2 + alignedLength frame.data.length + 1 ≤ size) :
    ∃ e, e.frame = frame ∧ (frameStores size (W % size) frame).2 = (W + e.length) % size ∧
      e.length < headSize * 2 + alignedLength frame.data.length ∧
      (W + e.length) % size + headSize ≤ size ∧
      Within size (frameStores size (W % size) frame).1 W (W + e.length) ∧
      Stored size (storeAll buf (frameStores size (W % size) frame).1) W e := by
  obtain ⟨haligned, -⟩ := aligned_length_le frame.data.length
  have hhead : headSize = 20 := rfl
  have hsize : 0 < size := by omega
  have hmod := mod_lt (W + headSize + alignedLength frame.data.length) hsize
  have hlen : ∀ buffer, Entry.length ⟨frame, buffer⟩ = headSize + buffer := fun _ => rfl
  have hok : EntryOk size ⟨frame, alignedLength frame.data.length⟩ :=
    ⟨hpos, haligned, by rw [hlen]; omega⟩
  have hbytes := length_head_bytes (Entry.head ⟨frame, alignedLength frame.data.length⟩)
  have hws : stores (W % size) (Entry.head ⟨frame, alignedLength frame.data.length⟩).bytes ++
      payloadStores size ((W + headSize) % size) frame.data =
      ringStores size W ((Entry.head ⟨frame, alignedLength frame.data.length⟩).bytes ++
        frame.data) := by
    rw [stores_eq (by rw [hbytes]; exact hfits), payload_stores_eq hsize (by omega),
      ring_stores_append, hbytes]
  have hstored : Stored size (storeAll buf (ringStores size W
      ((Entry.head ⟨frame, alignedLength frame.data.length⟩).bytes ++ frame.data))) W
      ⟨frame, alignedLength frame.data.length⟩ := stored_of_stores hok hfits
  have hwithin : Within size (ringStores size W
      ((Entry.head ⟨frame, alignedLength frame.data.length⟩).bytes ++ frame.data)) W
      (W + headSize + alignedLength frame.data.length) :=
    within_ring_stores (le_refl W) (by rw [length_append, hbytes]; omega)
  unfold frameStores
  dsimp only
  rw [behind_head hfits, mod_add_mod]
  by_cases hskip : size - (W + headSize + alignedLength frame.data.length) % size < headSize
  · -- the rest of the buffer is too short for a header and goes with this frame
    rw [if_pos hskip]
    have hend : (W + headSize + alignedLength frame.data.length +
        (size - (W + headSize + alignedLength frame.data.length) % size)) % size = 0 := by
      rw [← mod_add_mod, Nat.add_sub_cancel' (le_of_lt hmod), mod_self]
    have haddress : (W + 16) % size = W % size + 16 := by
      rw [add_mod_near (by omega), if_pos (by omega)]
    have hint := length_int_bytes (BitVec.ofNat 32 (alignedLength frame.data.length +
      (size - (W + headSize + alignedLength frame.data.length) % size)))
    have hgrow : stores (W % size + 16) (intBytes ((streamHead frame (BitVec.ofNat 32
        (alignedLength frame.data.length))).bufferLength + BitVec.ofNat 32
          (size - (W + headSize + alignedLength frame.data.length) % size))) =
        ringStores size (W + 16) (intBytes (BitVec.ofNat 32 (alignedLength frame.data.length +
          (size - (W + headSize + alignedLength frame.data.length) % size)))) := by
      rw [← stores_eq (by rw [haddress, hint]; omega), haddress, BitVec.ofNat_add]
      rfl
    have hsum : W + Entry.length ⟨frame, alignedLength frame.data.length +
        (size - (W + headSize + alignedLength frame.data.length) % size)⟩ =
        W + headSize + alignedLength frame.data.length +
          (size - (W + headSize + alignedLength frame.data.length) % size) := by
      rw [hlen]
      omega
    refine ⟨⟨frame, alignedLength frame.data.length +
      (size - (W + headSize + alignedLength frame.data.length) % size)⟩, rfl, ?_, ?_, ?_, ?_, ?_⟩
    · rw [hsum, hend]
    · rw [hlen]
      omega
    · rw [hsum, hend]
      omega
    · rw [hsum]
      intro w hw
      rcases mem_append.mp hw with hw | hw
      · obtain ⟨i, hi, hi', heq⟩ := hwithin w (hws ▸ hw)
        exact ⟨i, hi, by omega, heq⟩
      · exact within_ring_stores (by omega) (by rw [hint]; omega) w (hgrow ▸ hw)
    · rw [store_all_append, hgrow]
      exact (hws ▸ hstored).grow (Nat.le_add_right _ _) (by omega)
  · rw [if_neg hskip]
    refine ⟨⟨frame, alignedLength frame.data.length⟩, rfl, ?_, ?_, ?_, ?_, ?_⟩
    · rw [hlen, ← add_assoc]
    · rw [hlen]
      omega
    · rw [hlen, ← add_assoc]
      omega
    · rw [hlen, ← add_assoc]
      exact hws ▸ hwithin
    · exact hws ▸ hstored

theorem cbuf_write_cases (hrd : cbuf.rd = R % cbuf.size) (hwr : cbuf.wr = W % cbuf.size)
    (hle : R ≤ W) (hlt : W < R + cbuf.size) (hfits : W % cbuf.size + headSize ≤ cbuf.size)
    (frame : RecordFrame) :
    cbufWrite cbuf frame = .refused ∨
      ∃ e ws, e.frame = frame ∧
        cbufWrite cbuf frame = .stores ws ((W + e.length) % cbuf.size) ∧
        W + e.length < R + cbuf.size ∧
        (W + e.length) % cbuf.size + headSize ≤ cbuf.size ∧
        Within cbuf.size ws W (W + e.length) ∧
        Stored cbuf.size (storeAll cbuf.buf ws) W e := by
  unfold cbufWrite
  dsimp only
  rw [hrd, hwr, room hle hlt]
  by_cases hbig : frame.data.length = 0 ∨ (cbuf.size : Int) - 1024 ≤ frame.data.length
  · rw [if_pos hbig]
    exact Or.inl rfl
  rw [if_neg hbig]
  by_cases hfull : cbuf.size - (W - R) < headSize * 2 + alignedLength frame.data.length + 1
  · rw [if_pos hfull]
    exact Or.inl rfl
  rw [if_neg hfull, if_neg (not_lt.mpr hfits)]
  obtain ⟨e, hframe, hnext, hlen, hfits', hwithin, hstored⟩ := frame_stores_ok frame hfits
    (Nat.pos_of_ne_zero (not_or.mp hbig).1) (by omega)
  exact Or.inr ⟨e, _, hframe, by rw [hnext], by omega, hfits', hwithin, hstored⟩

/-! ## Reading a frame -/

/-- What `cbuf_prefetch` returns for a frame at a position. -/
def prefetched (size p : Nat) (e : Entry) : Prefetched where
  type := e.frame.type
  channel := e.frame.channel
  seg1 := (p + headSize) % size
  seg1sz := if e.frame.data.length ≤ size - (p + headSize) % size then e.frame.data.length
    else size - (p + headSize) % size
  seg2sz := e.frame.data.length -
    if e.frame.data.length ≤ size - (p + headSize) % size then e.frame.data.length
    else size - (p + headSize) % size
  advanceLength := BitVec.ofNat 32 e.length

theorem to_int_of_nat (h : n < 2 ^ 31) : (BitVec.ofNat 32 n).toInt = n := by
  rw [BitVec.toInt_eq_toNat_of_lt] <;> rw [BitVec.toNat_ofNat, mod_eq_of_lt (by omega)]
  omega

theorem to_nat_of_nat (h : n < 2 ^ 31) : (BitVec.ofNat 32 n).toNat = n := by
  rw [BitVec.toNat_ofNat, mod_eq_of_lt (by omega)]

/-- The checks accept the header of a frame that was published. -/
theorem cbuf_prefetch_eq {clen : Nat} (hsize : SizeOk cbuf.size) (hok : EntryOk cbuf.size e)
    (hrd : cbuf.rd = p % cbuf.size) (hfits : p % cbuf.size + headSize ≤ cbuf.size)
    (hclen : e.length ≤ clen) :
    cbufPrefetch cbuf clen e.head = some (prefetched cbuf.size p e) := by
  have hpos := hok.pos
  have hle := hok.le_buffer
  have hlt := hok.lt_size
  have hmax := hsize.le
  have hlen : e.length = headSize + e.buffer := rfl
  have hdata : e.head.dataLength = BitVec.ofNat 32 e.frame.data.length := rfl
  have hbuffer : e.head.bufferLength = BitVec.ofNat 32 e.buffer := rfl
  have hadvance : BitVec.ofNat 32 headSize + BitVec.ofNat 32 e.buffer =
      BitVec.ofNat 32 e.length := (BitVec.ofNat_add headSize e.buffer).symm
  unfold cbufPrefetch
  rw [hdata, hbuffer, hadvance, to_int_of_nat (by omega), to_int_of_nat (by omega),
    to_nat_of_nat (by omega), to_nat_of_nat (by omega), if_neg, hrd]
  · dsimp only
    rw [behind_head hfits]
    rfl
  · rintro (hmagic | hzero | hbig | hsmall | hshort)
    · exact hmagic rfl
    · omega
    · omega
    · omega
    · omega

theorem segments_prefetched (hok : EntryOk size e) :
    segments buf (prefetched size p e) = read size buf (p + headSize) e.frame.data.length := by
  have hlt : e.frame.data.length < size := by
    have hle := hok.le_buffer
    have hbuffer := hok.lt_size
    unfold Entry.length at hbuffer
    omega
  have hmod := mod_lt (p + headSize) (zero_lt_of_lt hlt)
  unfold segments prefetched
  dsimp only
  by_cases hone : e.frame.data.length ≤ size - (p + headSize) % size
  · rw [if_pos hone, load_bytes_eq (by omega), Nat.sub_self]
    exact append_nil _
  · rw [if_neg hone]
    exact load_wrap (zero_lt_of_lt hlt) (le_of_lt hlt) (Nat.le_of_not_le hone)

end FullhanRtos.Record
