import FullhanRtos.Lib.Bytes
import FullhanRtos.Lib.Fifo
import FullhanRtos.Lib.Ring

/-!
# Ring buffers

The indices of a ring buffer have one more bit, the mirror, which changes each time that the index
comes to the end of the buffer. Index and mirror together are a position that only grows, modulo two
rounds. `ringbuffer_refines` says that a ring buffer is a bounded queue of bytes.
-/

namespace FullhanRtos.Ringbuffer

open Bytes Ring Transition List Nat

/-! ## The buffer -/

structure RtRingbuffer where
  bufferPtr : Nat → Byte
  readMirror : Bool
  readIndex : Nat
  writeMirror : Bool
  writeIndex : Nat
  bufferSize : Nat

inductive RtRingbufferState where
  | empty
  | full
  | halffull
  deriving DecidableEq

def rtAlignSize : Nat := 4

/-- The fields `read_index` and `write_index` have 15 bits. -/
def index15 (n : Nat) : Nat := n % 2 ^ 15

def rtRingbufferStatus (rb : RtRingbuffer) : RtRingbufferState :=
  if rb.readIndex = rb.writeIndex then
    if rb.readMirror = rb.writeMirror then .empty else .full
  else .halffull

/-- `none` is a failed assertion. -/
def rtRingbufferInit (pool : Nat → Byte) (size : BitVec 16) : Option RtRingbuffer :=
  if size.toInt ≤ 0 then none
  else
    some
      { bufferPtr := pool
        readMirror := false
        readIndex := 0
        writeMirror := false
        writeIndex := 0
        bufferSize := size.toNat / rtAlignSize * rtAlignSize }

def rtRingbufferDataLen (rb : RtRingbuffer) : Nat :=
  match rtRingbufferStatus rb with
  | .empty => 0
  | .full => rb.bufferSize
  | .halffull =>
    if rb.readIndex < rb.writeIndex then rb.writeIndex - rb.readIndex
    else rb.bufferSize - (rb.readIndex - rb.writeIndex)

def rtRingbufferSpaceLen (rb : RtRingbuffer) : Nat := rb.bufferSize - rtRingbufferDataLen rb

/-- `length` is the length of `ptr`. -/
def rtRingbufferPut (rb : RtRingbuffer) (ptr : List Byte) : RtRingbuffer × Nat :=
  let size := rtRingbufferSpaceLen rb % 2 ^ 16
  if size = 0 then (rb, 0)
  else
    let length := if size < ptr.length then size else ptr.length
    let behind := rb.bufferSize - rb.writeIndex
    if length < behind then
      ({ rb with
          bufferPtr := storeAll rb.bufferPtr (stores rb.writeIndex (ptr.take length))
          writeIndex := index15 (rb.writeIndex + length) }, length)
    else
      ({ rb with
          bufferPtr := storeAll rb.bufferPtr
            (stores rb.writeIndex (ptr.take behind) ++
              stores 0 ((ptr.drop behind).take (length - behind)))
          writeMirror := !rb.writeMirror
          writeIndex := index15 (length - behind) }, length)

/-- The bytes that are copied to `ptr` and the result. -/
def rtRingbufferGet (rb : RtRingbuffer) (length : BitVec 16) : RtRingbuffer × List Byte × Nat :=
  let size := rtRingbufferDataLen rb
  if size = 0 then (rb, [], 0)
  else
    let length := if size < length.toNat then size else length.toNat
    let behind := rb.bufferSize - rb.readIndex
    if length < behind then
      ({ rb with readIndex := index15 (rb.readIndex + length) },
        load rb.bufferPtr rb.readIndex length, length)
    else
      ({ rb with
          readMirror := !rb.readMirror
          readIndex := index15 (length - behind) },
        load rb.bufferPtr rb.readIndex behind ++ load rb.bufferPtr 0 (length - behind), length)

def rtRingbufferPutchar (rb : RtRingbuffer) (ch : Byte) : RtRingbuffer × Nat :=
  if rtRingbufferSpaceLen rb = 0 then (rb, 0)
  else
    let bufferPtr := store rb.bufferPtr (rb.writeIndex, ch)
    if rb.writeIndex = rb.bufferSize - 1 then
      ({ rb with bufferPtr, writeMirror := !rb.writeMirror, writeIndex := 0 }, 1)
    else ({ rb with bufferPtr, writeIndex := index15 (rb.writeIndex + 1) }, 1)

def rtRingbufferGetchar (rb : RtRingbuffer) : RtRingbuffer × List Byte × Nat :=
  if rtRingbufferDataLen rb = 0 then (rb, [], 0)
  else
    let ch := rb.bufferPtr rb.readIndex
    if rb.readIndex = rb.bufferSize - 1 then
      ({ rb with readMirror := !rb.readMirror, readIndex := 0 }, [ch], 1)
    else ({ rb with readIndex := index15 (rb.readIndex + 1) }, [ch], 1)

def rtRingbufferReset (rb : RtRingbuffer) : RtRingbuffer :=
  { rb with
    readMirror := false
    readIndex := 0
    writeMirror := false
    writeIndex := 0 }

/-- The calls; a length is an `rt_uint16_t`. -/
inductive RingbufferCall where
  | put (ptr : { ptr : List Byte // ptr.length < 2 ^ 16 })
  | putchar (ch : Byte)
  | get (length : BitVec 16)
  | getchar
  | reset

def ringbufferStep (rb : RtRingbuffer) : RingbufferCall → Option RtRingbuffer
  | .put ptr => some (rtRingbufferPut rb ptr).1
  | .putchar ch => some (rtRingbufferPutchar rb ch).1
  | .get length => some (rtRingbufferGet rb length).1
  | .getchar => some (rtRingbufferGetchar rb).1
  | .reset => some (rtRingbufferReset rb)

def ringbufferEvent (rb : RtRingbuffer) (call : RingbufferCall) (_rb' : RtRingbuffer) :
    List (Fifo.Event Byte) :=
  match call with
  | .put ptr => [.put ptr (rtRingbufferPut rb ptr).2]
  | .putchar ch => [.put [ch] (rtRingbufferPutchar rb ch).2]
  | .get length =>
    [.take length.toNat (rtRingbufferGet rb length).2.1 (rtRingbufferGet rb length).2.2]
  | .getchar => [.take 1 (rtRingbufferGetchar rb).2.1 (rtRingbufferGetchar rb).2.2]
  | .reset => [.clear]

/-! ## Positions -/

/-- The mirror bit of a position. -/
def mirror (size p : Nat) : Bool := p / size % 2 = 1

/-- A buffer with the read position `r` that holds the elements of a queue. -/
structure RingbufferOk (rb : RtRingbuffer) (q : Fifo.Queue Byte) (r : Nat) : Prop where
  capacity : q.capacity = rb.bufferSize
  size : rb.bufferSize < 2 ^ 15
  readIndex : rb.readIndex = r % rb.bufferSize
  readMirror : rb.readMirror = mirror rb.bufferSize r
  writeIndex : rb.writeIndex = (r + q.items.length) % rb.bufferSize
  writeMirror : rb.writeMirror = mirror rb.bufferSize (r + q.items.length)
  items : read rb.bufferSize rb.bufferPtr r q.items.length = q.items

variable {size p n r : Nat} {rb rb' : RtRingbuffer} {q : Fifo.Queue Byte} {index : Nat} {bit : Bool}

theorem mirror_succ_round {p' : Nat} (h : p' / size = p / size + 1) :
    mirror size p' = !mirror size p := by
  unfold mirror
  rw [h]
  rcases mod_two_eq_zero_or_one (p / size) with heven | hodd
  · have hnext : (p / size + 1) % 2 = 1 := by omega
    rw [heven, hnext]
    rfl
  · have hnext : (p / size + 1) % 2 = 0 := by omega
    rw [hodd, hnext]
    rfl

/-- A position that does not come to the end of the buffer. -/
theorem advance_short (hsize : size < 2 ^ 15) (hshort : n < size - p % size) :
    index15 (p % size + n) = (p + n) % size ∧ mirror size p = mirror size (p + n) := by
  obtain ⟨hround, hcell⟩ := (@wrap size p n (by omega) (by omega)).1 (by omega)
  refine ⟨?_, ?_⟩
  · rw [hcell]
    exact mod_eq_of_lt (by omega)
  · unfold mirror
    rw [hround]

/-- A position that goes on at the beginning of the buffer, with the other mirror bit. -/
theorem advance_long (hsize : size < 2 ^ 15) (hpos : 0 < size) (hn : n ≤ size)
    (hlong : size - p % size ≤ n) :
    index15 (n - (size - p % size)) = (p + n) % size ∧ (!mirror size p) = mirror size (p + n) := by
  have hp := mod_lt p hpos
  obtain ⟨hround, hcell⟩ := (@wrap size p n hpos hn).2 (by omega)
  refine ⟨?_, (mirror_succ_round hround).symm⟩
  rw [hcell]
  have heq : n - (size - p % size) = p % size + n - size := by omega
  rw [heq]
  exact mod_eq_of_lt (by omega)

theorem status_positions (hn : n ≤ size) :
    ((p % size = (p + n) % size ∧ mirror size p = mirror size (p + n)) ↔ n = 0) ∧
      ((p % size = (p + n) % size ∧ mirror size p ≠ mirror size (p + n)) ↔ 0 < n ∧ n = size) := by
  rcases Nat.eq_zero_or_pos n with rfl | hpos
  · simp
  · rcases lt_or_ge n size with hless | hge
    · have hne : p % size ≠ (p + n) % size := mod_ne_of_near (by omega) (by omega)
      refine ⟨⟨fun h => absurd h.1 hne, fun h => by omega⟩,
        ⟨fun h => absurd h.1 hne, fun h => by omega⟩⟩
    · obtain rfl : n = size := by omega
      obtain ⟨hround, hcell⟩ := (@wrap n p n hpos (le_refl n)).2 (by omega)
      have hmirror := mirror_succ_round hround
      have hindex : p % n = (p + n) % n := by omega
      refine ⟨⟨fun h => ?_, fun h => by omega⟩, ⟨fun _ => ⟨hpos, rfl⟩, fun _ => ⟨hindex, ?_⟩⟩⟩
      · rw [hmirror] at h
        exact absurd h.2 (by simp)
      · rw [hmirror]
        simp

/-! ## Queries -/

section

variable (h : RingbufferOk rb q r) {bs : List Byte}

include h

theorem RingbufferOk.room : q.items.length ≤ rb.bufferSize :=
  h.capacity ▸ q.fits

theorem status_ok :
    (rtRingbufferStatus rb = .empty ↔ q.items = []) ∧
      (rtRingbufferStatus rb = .full ↔ q.items ≠ [] ∧ q.items.length = q.capacity) := by
  have hpositions := status_positions (p := r) h.room
  rw [← h.readIndex, ← h.writeIndex, ← h.readMirror, ← h.writeMirror] at hpositions
  rw [← length_eq_zero_iff, ← hpositions.1, ← length_pos_iff, h.capacity, ← hpositions.2]
  unfold rtRingbufferStatus
  split
  · split <;> simp_all
  · simp_all

theorem data_len_ok : rtRingbufferDataLen rb = q.items.length := by
  obtain ⟨hempty, hfull⟩ := status_ok h
  unfold rtRingbufferDataLen
  split
  · rename_i hstatus
    exact (length_eq_zero_iff.mpr (hempty.mp hstatus)).symm
  · rename_i hstatus
    rw [(hfull.mp hstatus).2, h.capacity]
  · rename_i hstatus
    have hroom := h.room
    have hsome : 0 < q.items.length := by
      refine length_pos_iff.mpr fun hnil => ?_
      rw [hempty.mpr hnil] at hstatus
      cases hstatus
    have hless : q.items.length ≠ rb.bufferSize := by
      intro heq
      rw [hfull.mpr ⟨length_pos_iff.mp hsome, heq.trans h.capacity.symm⟩] at hstatus
      cases hstatus
    have hcell := add_mod_near (p := r) (lt_of_le_of_ne hroom hless)
    rw [h.readIndex, h.writeIndex, hcell]
    split <;> split <;> omega

theorem space_len_ok : rtRingbufferSpaceLen rb = q.space := by
  unfold rtRingbufferSpaceLen Fifo.Queue.space
  rw [data_len_ok h, h.capacity]

/-! ## Calls -/

/-- Bytes are stored behind those of the queue. -/
theorem stored_ok (hbs : bs.length ≤ q.space) :
    read rb.bufferSize
        (storeAll rb.bufferPtr (ringStores rb.bufferSize (r + q.items.length) bs)) r
        (q.items.length + bs.length) = q.items ++ bs := by
  have hroom := h.room
  have hspace : q.space = rb.bufferSize - q.items.length := by rw [← h.capacity]; rfl
  have hagree : Agree rb.bufferSize rb.bufferPtr
      (storeAll rb.bufferPtr (ringStores rb.bufferSize (r + q.items.length) bs)) r
      (r + q.items.length) := by
    refine agree_store_all (p := r + q.items.length) (q := r + q.items.length + bs.length) ?_
      (Or.inl ⟨le_refl _, by omega⟩)
    intro w hw
    obtain ⟨i, hi, heq⟩ := mem_ring_stores hw
    exact ⟨r + q.items.length + i, by omega, by omega, heq⟩
  rw [read_add, hagree.read, h.items, read_ring_stores _ _ (by omega)]

theorem RingbufferOk.written {ptr : List Byte} (hbs : bs = ptr.take q.space)
    (hindex : index = (r + q.items.length + bs.length) % rb.bufferSize)
    (hbit : bit = mirror rb.bufferSize (r + q.items.length + bs.length)) :
    RingbufferOk
      { rb with
        bufferPtr := storeAll rb.bufferPtr (ringStores rb.bufferSize (r + q.items.length) bs)
        writeMirror := bit
        writeIndex := index } (q.put ptr) r := by
  have hput : (q.put ptr).items = q.items ++ bs := by
    rw [hbs]
    rfl
  have hlen : (q.put ptr).items.length = q.items.length + bs.length := by
    rw [hput, length_append]
  have hle : bs.length ≤ q.space := by
    rw [hbs]
    exact length_take_le _ _
  refine ⟨h.capacity, h.size, h.readIndex, h.readMirror, ?_, ?_, ?_⟩
  · rw [hlen, ← add_assoc]
    exact hindex
  · rw [hlen, ← add_assoc]
    exact hbit
  · rw [hlen, hput]
    exact stored_ok h hle

end

theorem put_ok (ptr : List Byte) (h : RingbufferOk rb q r) :
    RingbufferOk (rtRingbufferPut rb ptr).1 (q.put ptr) r ∧
      (rtRingbufferPut rb ptr).2 = min ptr.length q.space := by
  have hsize := h.size
  have hspace : q.space = rb.bufferSize - q.items.length := by rw [← h.capacity]; rfl
  have hspace16 : rtRingbufferSpaceLen rb % 2 ^ 16 = q.space := by
    rw [space_len_ok h]
    exact mod_eq_of_lt (by omega)
  unfold rtRingbufferPut
  simp only [hspace16]
  by_cases hfull : q.space = 0
  · rw [if_pos hfull, Fifo.Queue.put_full hfull, hfull, Nat.min_zero]
    exact ⟨h, rfl⟩
  · rw [if_neg hfull]
    have hlen : (if q.space < ptr.length then q.space else ptr.length) =
        min ptr.length q.space := by
      split <;> omega
    rw [hlen]
    -- the bytes that there is room for
    obtain ⟨bs, hbs⟩ : ∃ bs, bs = ptr.take q.space := ⟨_, rfl⟩
    have hcount : bs.length = min ptr.length q.space := by
      rw [hbs, length_take, min_comm]
    have htake : ptr.take (min ptr.length q.space) = bs := by
      rw [hbs, min_comm, ← take_eq_take_min]
    have hpos : 0 < rb.bufferSize := by omega
    rw [← hcount, h.writeIndex, h.writeMirror]
    split
    · rename_i hshort
      obtain ⟨hindex, hbit⟩ := advance_short hsize hshort
      rw [hcount, htake, stores_eq (by omega), ← hcount]
      exact ⟨h.written hbs hindex hbit, rfl⟩
    · rename_i hlong
      have hwrap := Nat.le_of_not_lt hlong
      obtain ⟨hindex, hbit⟩ := advance_long hsize hpos (by omega) hwrap
      have hfirst : ptr.take (rb.bufferSize - (r + q.items.length) % rb.bufferSize) =
          bs.take (rb.bufferSize - (r + q.items.length) % rb.bufferSize) := by
        rw [hbs, take_take, min_eq_left (by omega)]
      have hsecond : (ptr.drop (rb.bufferSize - (r + q.items.length) % rb.bufferSize)).take
          (bs.length - (rb.bufferSize - (r + q.items.length) % rb.bufferSize)) =
          bs.drop (rb.bufferSize - (r + q.items.length) % rb.bufferSize) := by
        rw [← drop_take, hcount, htake]
      rw [hfirst, hsecond, stores_wrap hpos (by omega) hwrap]
      exact ⟨h.written hbs hindex hbit, rfl⟩

theorem putchar_ok (ch : Byte) (h : RingbufferOk rb q r) :
    RingbufferOk (rtRingbufferPutchar rb ch).1 (q.put [ch]) r ∧
      (rtRingbufferPutchar rb ch).2 = min 1 q.space := by
  have hsize := h.size
  unfold rtRingbufferPutchar
  rw [space_len_ok h]
  by_cases hfull : q.space = 0
  · rw [if_pos hfull, Fifo.Queue.put_full hfull, hfull, Nat.min_zero]
    exact ⟨h, rfl⟩
  · rw [if_neg hfull]
    have hspace : q.space = rb.bufferSize - q.items.length := by rw [← h.capacity]; rfl
    have hone : [ch] = [ch].take q.space := (take_of_length_le (by simp; omega)).symm
    have hpos : 0 < rb.bufferSize := by omega
    have hp := mod_lt (r + q.items.length) hpos
    have hresult : 1 = min 1 q.space := by omega
    rw [h.writeIndex, h.writeMirror]
    split
    · rename_i hlast
      obtain ⟨hindex, hbit⟩ := advance_long (p := r + q.items.length) (n := 1) hsize hpos
        (by omega) (by omega)
      have hzero : 0 = (r + q.items.length + 1) % rb.bufferSize := by
        rw [← hindex, hlast, Nat.sub_sub_self hpos]
        rfl
      exact ⟨h.written hone hzero hbit, hresult⟩
    · rename_i hinside
      obtain ⟨hindex, hbit⟩ := advance_short (p := r + q.items.length) (n := 1) hsize (by omega)
      exact ⟨h.written hone hindex hbit, hresult⟩

/-- More than there is cannot be taken. -/
theorem drop_min (n : Nat) : q.drop n = q.drop (min n q.items.length) := by
  unfold Fifo.Queue.drop
  congr 1
  rcases Nat.le_total n q.items.length with hle | hge
  · rw [min_eq_left hle]
  · rw [min_eq_right hge, drop_eq_nil_of_le hge, drop_length]

/-- The queue without its first bytes, at the next read position. -/
theorem RingbufferOk.taken (h : RingbufferOk rb q r) (hn : n ≤ q.items.length)
    (hindex : index = (r + n) % rb.bufferSize) (hbit : bit = mirror rb.bufferSize (r + n)) :
    RingbufferOk { rb with readMirror := bit, readIndex := index } (q.drop n) (r + n) := by
  have hlen : r + n + (q.drop n).items.length = r + q.items.length := by
    show r + n + (q.items.drop n).length = r + q.items.length
    rw [length_drop]
    omega
  refine ⟨h.capacity, h.size, hindex, hbit, ?_, ?_, ?_⟩
  · rw [hlen]
    exact h.writeIndex
  · rw [hlen]
    exact h.writeMirror
  · show read rb.bufferSize rb.bufferPtr (r + n) (q.items.drop n).length = q.items.drop n
    have hsplit := h.items
    rw [← Nat.add_sub_cancel' hn, read_add] at hsplit
    rw [length_drop]
    conv_rhs => rw [← hsplit]
    rw [drop_left' length_read]

theorem RingbufferOk.first (h : RingbufferOk rb q r) (hn : n ≤ q.items.length) :
    read rb.bufferSize rb.bufferPtr r n = q.items.take n := by
  have hsplit := h.items
  rw [← Nat.add_sub_cancel' hn, read_add] at hsplit
  rw [← hsplit, take_left' length_read]

theorem get_ok (length : BitVec 16) (h : RingbufferOk rb q r) :
    RingbufferOk (rtRingbufferGet rb length).1 (q.drop length.toNat)
        (r + min length.toNat q.items.length) ∧
      (rtRingbufferGet rb length).2.1 = q.items.take length.toNat ∧
      (rtRingbufferGet rb length).2.2 = min length.toNat q.items.length := by
  have hroom := h.room
  have hsize := h.size
  rw [drop_min, take_eq_take_min]
  unfold rtRingbufferGet
  simp only [data_len_ok h]
  by_cases hempty : q.items.length = 0
  · rw [if_pos hempty, hempty, Nat.min_zero]
    exact ⟨h, rfl, rfl⟩
  · rw [if_neg hempty]
    have hlen : (if q.items.length < length.toNat then q.items.length else length.toNat) =
        min length.toNat q.items.length := by
      split <;> omega
    rw [hlen]
    obtain ⟨n, hn⟩ : ∃ n, n = min length.toNat q.items.length := ⟨_, rfl⟩
    have hle : n ≤ q.items.length := by omega
    have hpos : 0 < rb.bufferSize := by omega
    rw [← hn, h.readIndex, ← h.first hle]
    split
    · rename_i hshort
      obtain ⟨hindex, hbit⟩ := advance_short hsize hshort
      exact ⟨h.taken hle hindex (h.readMirror.trans hbit), load_eq (by omega), rfl⟩
    · rename_i hlong
      have hwrap := Nat.le_of_not_lt hlong
      obtain ⟨hindex, hbit⟩ := advance_long hsize hpos (by omega) hwrap
      rw [h.readMirror]
      exact ⟨h.taken hle hindex hbit, load_wrap hpos (by omega) hwrap, rfl⟩

theorem getchar_ok (h : RingbufferOk rb q r) :
    RingbufferOk (rtRingbufferGetchar rb).1 (q.drop 1) (r + min 1 q.items.length) ∧
      (rtRingbufferGetchar rb).2.1 = q.items.take 1 ∧
      (rtRingbufferGetchar rb).2.2 = min 1 q.items.length := by
  have hroom := h.room
  have hsize := h.size
  rw [drop_min, take_eq_take_min]
  unfold rtRingbufferGetchar
  rw [data_len_ok h]
  by_cases hempty : q.items.length = 0
  · rw [if_pos hempty, hempty, Nat.min_zero]
    exact ⟨h, rfl, rfl⟩
  · rw [if_neg hempty]
    have hone : min 1 q.items.length = 1 := by omega
    have hpos : 0 < rb.bufferSize := by omega
    have hp := mod_lt r hpos
    have hle : 1 ≤ q.items.length := by omega
    have hchar : [rb.bufferPtr (r % rb.bufferSize)] = q.items.take 1 := by
      rw [← h.first hle, read_succ]
      rfl
    rw [hone, h.readIndex]
    split
    · rename_i hlast
      obtain ⟨hindex, hbit⟩ := advance_long (p := r) (n := 1) hsize hpos (by omega) (by omega)
      have hzero : 0 = (r + 1) % rb.bufferSize := by
        rw [← hindex, hlast, Nat.sub_sub_self hpos]
        rfl
      rw [h.readMirror]
      exact ⟨h.taken hle hzero hbit, hchar, rfl⟩
    · rename_i hinside
      obtain ⟨hindex, hbit⟩ := advance_short (p := r) (n := 1) hsize (by omega)
      exact ⟨h.taken hle hindex (h.readMirror.trans hbit), hchar, rfl⟩

theorem reset_ok (h : RingbufferOk rb q r) :
    RingbufferOk (rtRingbufferReset rb) (Fifo.Queue.empty q.capacity) 0 := by
  refine ⟨h.capacity, h.size, (zero_mod _).symm, ?_, (zero_mod _).symm, ?_, rfl⟩
  all_goals
    show false = mirror rb.bufferSize 0
    unfold mirror
    rw [Nat.zero_div]
    rfl

/-! ## Runs -/

theorem ringbuffer_step_ok (call : RingbufferCall) (h : RingbufferOk rb q r)
    (hstep : ringbufferStep rb call = some rb') :
    ∃ q', exec Fifo.step q (ringbufferEvent rb call rb') = some q' ∧
      ∃ r', RingbufferOk rb' q' r' := by
  have hcount : ∀ n, min n q.items.length = (q.items.take n).length := fun n =>
    length_take.symm
  cases call with
  | put ptr =>
    cases hstep
    obtain ⟨hok, hresult⟩ := put_ok ptr.val h
    refine ⟨q.put ptr.val, ?_, r, hok⟩
    exact exec_cons_eq_some.mpr ⟨_, if_pos hresult, rfl⟩
  | putchar ch =>
    cases hstep
    obtain ⟨hok, hresult⟩ := putchar_ok ch h
    refine ⟨q.put [ch], ?_, r, hok⟩
    exact exec_cons_eq_some.mpr ⟨_, if_pos hresult, rfl⟩
  | get length =>
    cases hstep
    obtain ⟨hok, hbytes, hresult⟩ := get_ok length h
    refine ⟨q.drop length.toNat, ?_, _, hok⟩
    refine exec_cons_eq_some.mpr ⟨_, if_pos ⟨hbytes, ?_⟩, rfl⟩
    rw [hresult, hbytes, hcount]
  | getchar =>
    cases hstep
    obtain ⟨hok, hbytes, hresult⟩ := getchar_ok h
    refine ⟨q.drop 1, ?_, _, hok⟩
    refine exec_cons_eq_some.mpr ⟨_, if_pos ⟨hbytes, ?_⟩, rfl⟩
    rw [hresult, hbytes, hcount]
  | reset =>
    cases hstep
    exact ⟨_, rfl, 0, reset_ok h⟩

theorem init_ok {pool : Nat → Byte} {size : BitVec 16} (h : rtRingbufferInit pool size = some rb) :
    RingbufferOk rb (Fifo.Queue.empty rb.bufferSize) 0 := by
  unfold rtRingbufferInit at h
  split at h
  · cases h
  · rename_i hpos
    have hless : size.toNat < 2 ^ 15 := by
      rw [BitVec.toInt_eq_toNat_cond] at hpos
      split at hpos <;> omega
    cases h
    have hmirror : false = mirror (size.toNat / rtAlignSize * rtAlignSize) 0 := by
      unfold mirror
      rw [Nat.zero_div]
      rfl
    refine ⟨rfl, ?_, (zero_mod _).symm, hmirror, (zero_mod _).symm, hmirror, rfl⟩
    exact lt_of_le_of_lt (div_mul_le_self _ _) hless

/-- A ring buffer is a queue of bytes of capacity `buffer_size`: the results of any run are those of
the queue, and its length and its empty and full states are seen in the buffer. -/
theorem ringbuffer_refines (pool : Nat → Byte) (size : BitVec 16) (rb0 : RtRingbuffer)
    (hinit : rtRingbufferInit pool size = some rb0) (calls : List RingbufferCall) :
    ∃ rb q, exec ringbufferStep rb0 calls = some rb ∧
      exec Fifo.step (Fifo.Queue.empty rb0.bufferSize)
        (trace ringbufferStep ringbufferEvent rb0 calls) = some q ∧
      q.capacity = rb0.bufferSize ∧ rtRingbufferDataLen rb = q.items.length ∧
      (rtRingbufferStatus rb = .empty ↔ q.items = []) ∧
      (rtRingbufferStatus rb = .full ↔ q.items ≠ [] ∧ q.items.length = rb0.bufferSize) := by
  have htotal : ∃ rb, exec ringbufferStep rb0 calls = some rb ∧ True :=
    exec_progress (I := fun _ => True) (C := fun _ _ => True)
      (fun rb call _ _ => by cases call <;> exact ⟨_, rfl, trivial⟩) trivial
      (all_steps_of_forall (fun _ _ => trivial) _ _)
  obtain ⟨rb, hrun, -⟩ := htotal
  obtain ⟨q, hqueue, r, hok⟩ := exec_simulation
    (R := fun rb q => ∃ r, RingbufferOk rb q r)
    (fun _ call _ _ ⟨_, h⟩ hstep => ringbuffer_step_ok call h hstep) ⟨0, init_ok hinit⟩ hrun
  have hcapacity : q.capacity = rb0.bufferSize := Fifo.exec_capacity hqueue
  obtain ⟨hempty, hfull⟩ := status_ok hok
  rw [hcapacity] at hfull
  exact ⟨rb, q, hrun, hqueue, hcapacity, data_len_ok hok, hempty, hfull⟩

/-- A run that goes round the end of a buffer of 8 bytes and fills it. -/
theorem ringbuffer_refines_eight :
    ∃ rb0 rb q, rtRingbufferInit (fun _ => 0) 9 = some rb0 ∧
      exec ringbufferStep rb0
        [.put ⟨[1, 2, 3, 4, 5, 6], by decide⟩, .get 4,
          .put ⟨[7, 8, 9, 10, 11, 12, 13], by decide⟩] = some rb ∧
      exec Fifo.step (Fifo.Queue.empty (α := Byte) 8)
        [.put [1, 2, 3, 4, 5, 6] 6, .take 4 [1, 2, 3, 4] 4,
          .put [7, 8, 9, 10, 11, 12, 13] 6] = some q ∧
      (rtRingbufferStatus rb = .full ↔ q.items ≠ [] ∧ q.items.length = 8) := by
  obtain ⟨rb, q, hrun, hqueue, -, -, -, hfull⟩ := ringbuffer_refines (fun _ => 0) 9 _ rfl
    [.put ⟨[1, 2, 3, 4, 5, 6], by decide⟩, .get 4, .put ⟨[7, 8, 9, 10, 11, 12, 13], by decide⟩]
  exact ⟨_, rb, q, rfl, hrun, hqueue, hfull⟩

end FullhanRtos.Ringbuffer
