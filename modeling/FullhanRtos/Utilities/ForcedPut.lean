import FullhanRtos.Utilities.RingBuffer

/-!
# Forced writes

`rt_ringbuffer_put_force` and `rt_ringbuffer_putchar_force` drop the oldest bytes when there is no
room. The first also flips the read mirror whenever it wraps over old bytes, which is right only if
the two mirrors differ: otherwise a full buffer looks empty.
-/

namespace FullhanRtos.Ringbuffer

open Bytes Ring Transition List Nat

/-- `length` is the length of `ptr`. -/
def rtRingbufferPutForce (rb : RtRingbuffer) (ptr : List Byte) : RtRingbuffer × Nat :=
  let spaceLength := rtRingbufferSpaceLen rb % 2 ^ 16
  let ptr := if rb.bufferSize < ptr.length then ptr.drop (ptr.length - rb.bufferSize) else ptr
  let length := ptr.length
  let behind := rb.bufferSize - rb.writeIndex
  if length < behind then
    let writeIndex := index15 (rb.writeIndex + length)
    ({ rb with
        bufferPtr := storeAll rb.bufferPtr (stores rb.writeIndex ptr)
        readIndex := if spaceLength < length then writeIndex else rb.readIndex
        writeIndex }, length)
  else
    let writeIndex := index15 (length - behind)
    ({ rb with
        bufferPtr := storeAll rb.bufferPtr
          (stores rb.writeIndex (ptr.take behind) ++ stores 0 (ptr.drop behind))
        readMirror := if spaceLength < length then !rb.readMirror else rb.readMirror
        readIndex := if spaceLength < length then writeIndex else rb.readIndex
        writeMirror := !rb.writeMirror
        writeIndex }, length)

/-- `none` is a store behind the buffer. -/
def rtRingbufferPutcharForce (rb : RtRingbuffer) (ch : Byte) : Option (RtRingbuffer × Nat) :=
  let oldState := rtRingbufferStatus rb
  let bufferPtr := store rb.bufferPtr (rb.writeIndex, ch)
  if rb.bufferSize ≤ rb.writeIndex then none
  else if rb.writeIndex = rb.bufferSize - 1 then
    some ({ rb with
        bufferPtr
        readMirror := if oldState = .full then !rb.readMirror else rb.readMirror
        readIndex := if oldState = .full then 0 else rb.readIndex
        writeMirror := !rb.writeMirror
        writeIndex := 0 }, 1)
  else
    let writeIndex := index15 (rb.writeIndex + 1)
    some ({ rb with
        bufferPtr
        readIndex := if oldState = .full then writeIndex else rb.readIndex
        writeIndex }, 1)

inductive ForcedCall where
  | call (call : RingbufferCall)
  | putForce (ptr : { ptr : List Byte // ptr.length < 2 ^ 16 })
  | putcharForce (ch : Byte)

def forcedStep (rb : RtRingbuffer) : ForcedCall → Option RtRingbuffer
  | .call call => ringbufferStep rb call
  | .putForce ptr => some (rtRingbufferPutForce rb ptr).1
  | .putcharForce ch => (rtRingbufferPutcharForce rb ch).map Prod.fst

/-- What a read of everything gets. -/
def content (rb : RtRingbuffer) : List Byte := (rtRingbufferGet rb 0xffff).2.1

def lastBytes (n : Nat) (bs : List Byte) : List Byte := bs.drop (bs.length - n)

/-- After a forced write the buffer holds the last bytes of its old content and the input. -/
def ForcedRight (rb : RtRingbuffer) : ForcedCall → Prop
  | .call _ => True
  | .putForce ptr =>
      content (rtRingbufferPutForce rb ptr).1 = lastBytes rb.bufferSize (content rb ++ ptr)
  | .putcharForce ch =>
      ∃ rb', rtRingbufferPutcharForce rb ch = some rb' ∧
        content rb'.1 = lastBytes rb.bufferSize (content rb ++ [ch])

/-- With equal mirrors, what comes to the end of the buffer fits into it. -/
def ForcedFits (rb : RtRingbuffer) : ForcedCall → Prop
  | .call _ => True
  | .putForce ptr =>
      rb.readMirror = rb.writeMirror →
        rb.bufferSize - rb.writeIndex ≤ min ptr.val.length rb.bufferSize →
          min ptr.val.length rb.bufferSize ≤ rtRingbufferSpaceLen rb
  | .putcharForce _ => 0 < rb.bufferSize

/-- A buffer of a pool of less than four bytes. -/
def Small (rb : RtRingbuffer) : Prop := rb.bufferSize = 0 ∧ rb.readIndex = 0 ∧ rb.writeIndex = 0

def ForcedInv (rb : RtRingbuffer) : Prop :=
  Small rb ∨ 0 < rb.bufferSize ∧ ∃ q r, RingbufferOk rb q r

variable {rb rb' : RtRingbuffer} {q : Fifo.Queue Byte} {r : Nat} {xs : List Byte}

/-! ## Contents -/

theorem content_ok (h : RingbufferOk rb q r) : content rb = q.items := by
  have hroom := h.room
  have hsize := h.size
  unfold content
  rw [(get_ok 0xffff h).2.1]
  exact take_of_length_le (show q.items.length ≤ 65535 by omega)

theorem content_nil (h : rtRingbufferDataLen rb = 0) : content rb = [] := by
  unfold content rtRingbufferGet
  simp only [h, if_pos]

theorem last_bytes_kept (n : Nat) (l bs : List Byte) :
    lastBytes n (l ++ bs.drop (bs.length - n)) = lastBytes n (l ++ bs) := by
  unfold lastBytes
  rcases Nat.le_total bs.length n with hle | hge
  · rw [Nat.sub_eq_zero_of_le hle, drop_zero]
  · have hrest : (bs.drop (bs.length - n)).length = n := by
      rw [length_drop]
      omega
    have hall : (l ++ bs).length - n = l.length + (bs.length - n) := by
      rw [length_append]
      omega
    rw [hall, drop_length_add_append, length_append, hrest, Nat.add_sub_cancel, drop_append_length]

/-! ## A forced write -/

/-- The oldest bytes are dropped and the new ones are put behind the others. -/
theorem RingbufferOk.forced (h : RingbufferOk rb q r) (hpos : 0 < rb.bufferSize)
    (hxs : xs.length ≤ rb.bufferSize) {w : Nat} (hw : w = r + q.items.length + xs.length) :
    ∃ q' r', RingbufferOk
        { rb with
          bufferPtr := storeAll rb.bufferPtr (ringStores rb.bufferSize (r + q.items.length) xs)
          readMirror := if q.space < xs.length then !mirror rb.bufferSize w else rb.readMirror
          readIndex := if q.space < xs.length then w % rb.bufferSize else rb.readIndex
          writeMirror := mirror rb.bufferSize w
          writeIndex := w % rb.bufferSize } q' r' ∧
      q'.items = lastBytes rb.bufferSize (q.items ++ xs) := by
  have hroom := h.room
  have hspace : q.space = rb.bufferSize - q.items.length := by rw [← h.capacity]; rfl
  obtain ⟨k, hk⟩ : ∃ k, k = q.items.length + xs.length - rb.bufferSize := ⟨_, rfl⟩
  have hle : k ≤ q.items.length := by omega
  have hleft : (q.drop k).items.length = q.items.length - k := length_drop
  have hfits : xs = xs.take (q.drop k).space := by
    refine (take_of_length_le ?_).symm
    show xs.length ≤ q.capacity - (q.drop k).items.length
    rw [hleft, h.capacity]
    omega
  have hwritten := (h.taken hle rfl rfl).written hfits rfl rfl
  have hend : r + k + (q.drop k).items.length = r + q.items.length := by omega
  rw [hend, ← hw] at hwritten
  have hposition : (if q.space < xs.length then w % rb.bufferSize else rb.readIndex) =
      (r + k) % rb.bufferSize ∧
      (if q.space < xs.length then !mirror rb.bufferSize w else rb.readMirror) =
      mirror rb.bufferSize (r + k) := by
    by_cases hover : q.space < xs.length
    · obtain rfl : w = r + k + rb.bufferSize := by omega
      rw [if_pos hover, if_pos hover, add_mod_right,
        mirror_succ_round (add_div_right _ hpos), Bool.not_not]
      exact ⟨rfl, rfl⟩
    · obtain rfl : k = 0 := by omega
      rw [if_neg hover, if_neg hover]
      exact ⟨h.readIndex, h.readMirror⟩
  rw [hposition.1, hposition.2]
  refine ⟨_, _, hwritten, ?_⟩
  show q.items.drop k ++ xs.take (q.drop k).space = lastBytes rb.bufferSize (q.items ++ xs)
  unfold lastBytes
  rw [← hfits, length_append, ← hk, drop_append_of_le_length hle]

theorem overtaken_mirror (h : RingbufferOk rb q r) (hpos : 0 < rb.bufferSize)
    (hover : q.space < xs.length) (hshort : xs.length < rb.bufferSize - rb.writeIndex) :
    rb.readMirror = !rb.writeMirror := by
  have hroom := h.room
  have hspace : q.space = rb.bufferSize - q.items.length := by rw [← h.capacity]; rfl
  rw [h.readMirror, h.writeMirror]
  rcases Nat.lt_or_ge q.items.length (rb.bufferSize - r % rb.bufferSize) with hinside | hwrap
  · have hindex := (advance_short h.size hinside).1
    rw [index15, mod_eq_of_lt (by have := h.size; omega), ← h.writeIndex] at hindex
    omega
  · rw [← (advance_long h.size hpos hroom hwrap).2, Bool.not_not]

theorem put_force_ok (ptr : List Byte) (h : RingbufferOk rb q r) (hpos : 0 < rb.bufferSize)
    (hfits : rb.readMirror = rb.writeMirror →
      rb.bufferSize - rb.writeIndex ≤ min ptr.length rb.bufferSize →
        min ptr.length rb.bufferSize ≤ q.space) :
    ∃ q' r', RingbufferOk (rtRingbufferPutForce rb ptr).1 q' r' ∧
      q'.items = lastBytes rb.bufferSize (q.items ++ ptr) := by
  have hsize := h.size
  have hspace : rtRingbufferSpaceLen rb % 2 ^ 16 = q.space := by
    have hcapacity : q.space = rb.bufferSize - q.items.length := by rw [← h.capacity]; rfl
    rw [space_len_ok h]
    exact mod_eq_of_lt (by omega)
  obtain ⟨xs, hxs⟩ : ∃ xs, xs = ptr.drop (ptr.length - rb.bufferSize) := ⟨_, rfl⟩
  have hlen : xs.length = min ptr.length rb.bufferSize := by
    rw [hxs, length_drop]
    omega
  have hkept : (if rb.bufferSize < ptr.length then ptr.drop (ptr.length - rb.bufferSize) else ptr) =
      xs := by
    split
    · exact hxs.symm
    · rw [hxs, Nat.sub_eq_zero_of_le (by omega), drop_zero]
  rw [← hlen] at hfits
  obtain ⟨w, hw⟩ : ∃ w, w = r + q.items.length + xs.length := ⟨_, rfl⟩
  obtain ⟨q', r', hok, hitems⟩ := h.forced hpos (show xs.length ≤ rb.bufferSize by omega) hw
  refine ⟨q', r', ?_, by rw [hitems, hxs, last_bytes_kept]⟩
  unfold rtRingbufferPutForce
  simp only [hspace, hkept]
  split
  · rename_i hshort
    have hover := @overtaken_mirror rb q r xs h hpos
    rw [h.writeIndex] at hshort hover ⊢
    obtain ⟨hindex, hmirror⟩ := advance_short hsize hshort
    rw [← hw] at hindex hmirror
    rw [← hmirror, ← h.writeMirror] at hok
    have hbit : (if q.space < xs.length then !rb.writeMirror else rb.readMirror) =
        rb.readMirror := by
      split
      · exact (hover ‹_› hshort).symm
      · rfl
    rw [hbit] at hok
    rw [hindex, stores_eq (by omega)]
    exact hok
  · rename_i hlong
    have hwrap := Nat.le_of_not_lt hlong
    have hdiffer : q.space < xs.length → rb.readMirror ≠ rb.writeMirror := fun hover heq =>
      absurd (hfits heq hwrap) (Nat.not_le_of_lt hover)
    rw [h.writeIndex] at hwrap ⊢
    obtain ⟨hindex, hmirror⟩ := advance_long hsize hpos (by omega) hwrap
    rw [← hw] at hindex hmirror
    rw [← hmirror, ← h.writeMirror] at hok
    have hbit : (if q.space < xs.length then !!rb.writeMirror else rb.readMirror) =
        if q.space < xs.length then !rb.readMirror else rb.readMirror := by
      split
      · rw [Bool.not_not, Bool.eq_not.mpr (hdiffer ‹_›), Bool.not_not]
      · rfl
    rw [hbit] at hok
    rw [hindex, stores_wrap hpos (by omega) hwrap]
    exact hok

/-- Equal mirrors are flipped together, and a full buffer looks empty. -/
theorem put_force_loses {ptr : List Byte} (hmirror : rb.readMirror = rb.writeMirror)
    (hwrap : rb.bufferSize - rb.writeIndex ≤ min ptr.length rb.bufferSize)
    (hover : rtRingbufferSpaceLen rb < min ptr.length rb.bufferSize) :
    content (rtRingbufferPutForce rb ptr).1 = [] := by
  have hkept : (if rb.bufferSize < ptr.length then ptr.drop (ptr.length - rb.bufferSize)
      else ptr).length = min ptr.length rb.bufferSize := by
    split
    · rw [length_drop]
      omega
    · omega
  have hover' := Nat.lt_of_le_of_lt (mod_le _ (2 ^ 16)) hover
  refine content_nil ?_
  unfold rtRingbufferPutForce
  simp only [hkept, if_neg (Nat.not_lt.mpr hwrap), if_pos hover', hmirror]
  unfold rtRingbufferDataLen rtRingbufferStatus
  simp only [if_pos]

theorem put_force_right_iff (ptr : { ptr : List Byte // ptr.length < 2 ^ 16 })
    (h : RingbufferOk rb q r) (hpos : 0 < rb.bufferSize) :
    ForcedRight rb (.putForce ptr) ↔ ForcedFits rb (.putForce ptr) := by
  rw [ForcedRight, ForcedFits, content_ok h]
  constructor
  · intro hright hmirror hwrap
    by_contra hover
    rw [put_force_loses hmirror hwrap (Nat.lt_of_not_le hover)] at hright
    have hlen := congrArg List.length hright
    unfold lastBytes at hlen
    rw [length_drop, length_append, length_nil] at hlen
    omega
  · intro hfits
    rw [space_len_ok h] at hfits
    obtain ⟨q', r', hok, hitems⟩ := put_force_ok ptr.val h hpos hfits
    rw [content_ok hok, hitems]

theorem putchar_force_eq (ch : Byte) (h : RingbufferOk rb q r) (hpos : 0 < rb.bufferSize) :
    rtRingbufferPutcharForce rb ch = some (rtRingbufferPutForce rb [ch]) := by
  have hsize := h.size
  have hroom := h.room
  have hw := mod_lt (r + q.items.length) hpos
  rw [← h.writeIndex] at hw
  have hspace : q.space = rb.bufferSize - q.items.length := by rw [← h.capacity]; rfl
  have hfull : rtRingbufferStatus rb = .full ↔ rtRingbufferSpaceLen rb % 2 ^ 16 < 1 := by
    rw [(status_ok h).2, h.capacity, ← length_pos_iff, space_len_ok h]
    omega
  unfold rtRingbufferPutcharForce rtRingbufferPutForce
  simp only [hfull, length_singleton, if_neg (Nat.not_lt.mpr hpos), if_neg (Nat.not_le.mpr hw)]
  by_cases hlast : rb.writeIndex = rb.bufferSize - 1
  · have hone : rb.bufferSize - (rb.bufferSize - 1) = 1 := by omega
    simp only [hlast, hone, if_pos, Nat.lt_irrefl, if_false]
    rfl
  · rw [if_neg hlast, if_pos (show 1 < rb.bufferSize - rb.writeIndex by omega)]
    rfl

theorem putchar_force_ok (ch : Byte) (h : RingbufferOk rb q r) (hpos : 0 < rb.bufferSize) :
    ∃ rb' q' r', rtRingbufferPutcharForce rb ch = some rb' ∧ RingbufferOk rb'.1 q' r' ∧
      q'.items = lastBytes rb.bufferSize (q.items ++ [ch]) := by
  have hroom := h.room
  have hspace : q.space = rb.bufferSize - q.items.length := by rw [← h.capacity]; rfl
  obtain ⟨q', r', hok, hitems⟩ := put_force_ok [ch] h hpos fun hmirror _ => by
    by_contra hover
    rw [length_singleton] at hover
    have hdiffer := ((status_positions (p := r) h.room).2.mpr (by omega)).2
    rw [← h.readMirror, ← h.writeMirror] at hdiffer
    exact hdiffer hmirror
  exact ⟨_, q', r', putchar_force_eq ch h hpos, hok, hitems⟩

/-! ## Runs -/

theorem Small.data_len (h : Small rb) : rtRingbufferDataLen rb = 0 := by
  obtain ⟨hsize, hread, hwrite⟩ := h
  unfold rtRingbufferDataLen rtRingbufferStatus
  rw [if_pos (hread.trans hwrite.symm), hsize, hread, hwrite]
  split <;> rfl

theorem Small.step {call : RingbufferCall} (h : Small rb)
    (hstep : ringbufferStep rb call = some rb') : Small rb' := by
  have hdata := h.data_len
  have hspace : rtRingbufferSpaceLen rb = 0 := by rw [rtRingbufferSpaceLen, h.1, Nat.zero_sub]
  obtain ⟨hsize, hindex⟩ := h
  cases call <;> cases hstep <;>
    simp [rtRingbufferPut, rtRingbufferPutchar, rtRingbufferGet, rtRingbufferGetchar,
      rtRingbufferReset, hdata, hspace, Small, hsize, hindex]

theorem Small.put_force (h : Small rb) (ptr : List Byte) :
    Small (rtRingbufferPutForce rb ptr).1 := by
  obtain ⟨hsize, hread, hwrite⟩ := h
  have hnil : (if 0 < ptr.length then ptr.drop (ptr.length - 0) else ptr).length = 0 := by
    split
    · rw [length_drop]
      omega
    · omega
  unfold rtRingbufferPutForce
  simp only [hsize, hwrite, hnil, Small, Nat.sub_self, Nat.not_lt_zero, if_false]
  exact ⟨trivial, hread, rfl⟩

theorem forced_right_iff (call : ForcedCall) (h : ForcedInv rb) :
    ForcedRight rb call ↔ ForcedFits rb call := by
  rcases h with hsmall | ⟨hpos, q, r, hok⟩
  · cases call with
    | call call => exact Iff.rfl
    | putForce ptr =>
      refine ⟨fun _ _ _ => ?_, fun _ => ?_⟩
      · rw [hsmall.1, Nat.min_zero]
        exact Nat.zero_le _
      · rw [ForcedRight, content_nil (hsmall.put_force ptr.val).data_len, hsmall.1]
        exact (drop_length).symm
    | putcharForce ch =>
      refine ⟨fun ⟨_, hrun, _⟩ => ?_, fun hpos => absurd hsmall.1 (Nat.ne_of_gt hpos)⟩
      unfold rtRingbufferPutcharForce at hrun
      rw [if_pos (by rw [hsmall.1]; exact Nat.zero_le _)] at hrun
      cases hrun
  · cases call with
    | call call => exact Iff.rfl
    | putForce ptr => exact put_force_right_iff ptr hok hpos
    | putcharForce ch =>
      refine ⟨fun _ => hpos, fun _ => ?_⟩
      obtain ⟨rb', q', r', hrun, hok', hitems⟩ := putchar_force_ok ch hok hpos
      exact ⟨rb', hrun, by rw [content_ok hok', content_ok hok, hitems]⟩

theorem forced_step_inv {call : ForcedCall} (h : ForcedInv rb) (hfits : ForcedFits rb call)
    (hstep : forcedStep rb call = some rb') : ForcedInv rb' := by
  rcases h with hsmall | ⟨hpos, q, r, hok⟩
  · cases call with
    | call call => exact .inl (hsmall.step hstep)
    | putForce ptr =>
      cases hstep
      exact .inl (hsmall.put_force ptr.val)
    | putcharForce ch => exact absurd hsmall.1 (Nat.ne_of_gt hfits)
  · have hkept (ptr : List Byte) : 0 < (rtRingbufferPutForce rb ptr).1.bufferSize := by
      unfold rtRingbufferPutForce
      dsimp only
      split <;> split <;> exact hpos
    cases call with
    | call call =>
      obtain ⟨q', hrun, r', hok'⟩ := ringbuffer_step_ok call hok hstep
      have hcapacity := Fifo.exec_capacity hrun
      rw [hok'.capacity, hok.capacity] at hcapacity
      exact .inr ⟨hcapacity ▸ hpos, q', r', hok'⟩
    | putForce ptr =>
      cases hstep
      rw [ForcedFits, space_len_ok hok] at hfits
      obtain ⟨q', r', hok', -⟩ := put_force_ok ptr.val hok hpos hfits
      exact .inr ⟨hkept ptr.val, q', r', hok'⟩
    | putcharForce ch =>
      obtain ⟨rb1, q', r', hrun, hok', -⟩ := putchar_force_ok ch hok hpos
      rw [forcedStep, hrun] at hstep
      cases hstep
      rw [putchar_force_eq ch hok hpos] at hrun
      cases hrun
      exact .inr ⟨hkept [ch], q', r', hok'⟩

/-- In a run from a new buffer every forced write keeps the last bytes, exactly if none of them
wraps over old bytes while the mirrors are equal and no byte is forced into a buffer without room
for one. -/
theorem forced_writes_right_iff {pool : Nat → Byte} {size : BitVec 16}
    (hinit : rtRingbufferInit pool size = some rb) (calls : List ForcedCall) :
    AllSteps forcedStep ForcedRight rb calls ↔ AllSteps forcedStep ForcedFits rb calls := by
  have hnew : ForcedInv rb := by
    rcases Nat.eq_zero_or_pos rb.bufferSize with hzero | hpos
    · obtain ⟨-, heq⟩ := Option.ite_none_left_eq_some.mp hinit
      cases heq
      exact .inl ⟨hzero, rfl, rfl⟩
    · exact .inr ⟨hpos, _, _, init_ok hinit⟩
  constructor
  · exact AllSteps.of_invariant
      (fun _ call _ h hright => forced_step_inv h ((forced_right_iff call h).mp hright))
      (fun _ call h => (forced_right_iff call h).mp) hnew
  · exact AllSteps.of_invariant (fun _ _ _ h hfits => forced_step_inv h hfits)
      (fun _ call h => (forced_right_iff call h).mpr) hnew

/-- Two bytes of six are left in a buffer of eight. -/
def someForcedCalls : List ForcedCall :=
  [.call (.put ⟨[1, 2, 3, 4, 5, 6], by decide⟩), .call (.get 4)]

instance (rb : RtRingbuffer) (call : ForcedCall) : Decidable (ForcedFits rb call) :=
  match call with
  | .call _ => .isTrue trivial
  | .putForce _ => inferInstanceAs (Decidable (_ → _))
  | .putcharForce _ => inferInstanceAs (Decidable (_ < _))

theorem one_byte_forced : ∃ rb, rtRingbufferInit (fun _ => 0) 8 = some rb ∧
    AllSteps forcedStep ForcedRight rb
      (someForcedCalls ++ [.putForce ⟨[7, 8, 9, 10, 11, 12], by decide⟩, .putcharForce 13]) := by
  exact ⟨_, rfl, (@forced_writes_right_iff _ (fun _ => 0) 8 rfl _).mpr (by decide)⟩

/-- Eight more bytes flip both mirrors: nothing is left to be read. -/
theorem forced_bytes_lost : ∃ rb, rtRingbufferInit (fun _ => 0) 8 = some rb ∧
    ¬ AllSteps forcedStep ForcedRight rb
      (someForcedCalls ++ [.putForce ⟨[7, 8, 9, 10, 11, 12, 13, 14], by decide⟩]) := by
  refine ⟨_, rfl, fun hright => ?_⟩
  have hlast : content _ = lastBytes _ _ := hright.last rfl
  exact absurd hlast (by decide)

end FullhanRtos.Ringbuffer
