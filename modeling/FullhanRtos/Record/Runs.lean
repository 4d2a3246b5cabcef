import FullhanRtos.Record.Fifo

/-!
# Runs of the record buffer

`RecordInv` describes the buffer by positions that only grow. Every step of the producer and of the
consumer keeps it (`record_step_inv`), and `record_refines` reads the queue off it.
-/

namespace FullhanRtos.Record

open Bytes Ring Transition List Nat Option

/-- The producer's frame as it will be when all its stores are done, on free cells. -/
def ProducerOk (s : RecordState) (R W : Nat) : Prop :=
  match s.producer with
  | .idle => True
  | .storing frame ws wr =>
    ∃ e, e.frame = frame ∧ wr = (W + e.length) % s.cbuf.size ∧
      W + e.length < R + s.cbuf.size ∧
      (W + e.length) % s.cbuf.size + headSize ≤ s.cbuf.size ∧
      Within s.cbuf.size ws W (W + e.length) ∧
      Stored s.cbuf.size (storeAll s.cbuf.buf ws) W e

def ConsumerOk (s : RecordState) (es : List Entry) (last : Option RecordFrame) (R U : Nat) :
    Prop :=
  match s.consumer with
  | .idle => U = R
  | .loading clen bytes =>
    U = R ∧ bytes.length ≤ headSize ∧
      ∃ e es', es = e :: es' ∧ e.length ≤ clen ∧ bytes = e.head.bytes.take bytes.length
  | .inUse f =>
    ∃ e, EntryOk s.cbuf.size e ∧ f = prefetched s.cbuf.size R e ∧ last = some e.frame ∧
      U = R + e.length ∧
      read s.cbuf.size s.cbuf.buf (R + headSize) e.frame.data.length = e.frame.data

structure RecordInv (s : RecordState) (es : List Entry) (last : Option RecordFrame)
    (R U W : Nat) : Prop where
  size : SizeOk s.cbuf.size
  rd : s.cbuf.rd = R % s.cbuf.size
  wr : s.cbuf.wr = W % s.cbuf.size
  le : R ≤ U
  laid : Laid s.cbuf.size s.cbuf.buf U es W
  lt : W < R + s.cbuf.size
  fits : W % s.cbuf.size + headSize ≤ s.cbuf.size
  producer : ProducerOk s R W
  consumer : ConsumerOk s es last R U
  noError : s.internalError = false

variable {s s' : RecordState} {es : List Entry} {last : Option RecordFrame} {R U W : Nat}
  {fifo : Fifo}

section

variable (h : RecordInv s es last R U W)

include h

theorem RecordInv.le_wr : R ≤ W := h.le.trans h.laid.le

theorem RecordInv.cbuf_length : cbufLength s.cbuf = W - R := by
  unfold cbufLength
  rw [h.rd, h.wr]
  exact distance h.le_wr h.lt

/-! ## The producer -/

theorem write_step {frame : RecordFrame} (hstep : recordStep s (.write frame) = some s') :
    RecordInv s' es last R U W ∧ (s'.producer = .idle → s' = s) ∧
      fifoEvents s (.write frame) s' = [] := by
  have hevents : fifoEvents s (.write frame) s' = [] := rfl
  cases hproducer : s.producer with
  | storing frame' ws wr =>
    simp only [recordStep, hproducer, reduceCtorEq] at hstep
  | idle =>
    simp only [recordStep, hproducer] at hstep
    rcases cbuf_write_cases h.rd h.wr h.le_wr h.lt h.fits frame with
      hrefused | ⟨e, ws, hframe, hstores, hlt, hfits, hwithin, hstored⟩
    · rw [hrefused] at hstep
      obtain rfl := some.inj hstep
      exact ⟨h, fun _ => rfl, hevents⟩
    · rw [hstores] at hstep
      obtain rfl := some.inj hstep
      refine ⟨{ h with producer := ?_, consumer := h.consumer }, nofun, hevents⟩
      exact ⟨e, hframe, rfl, hlt, hfits, hwithin, hstored⟩

theorem store_step (hstep : recordStep s .store = some s') :
    RecordInv s' es last R U W ∧ fifoEvents s .store s' = [] := by
  have hevents : fifoEvents s .store s' = [] := rfl
  cases hproducer : s.producer with
  | idle => simp only [recordStep, hproducer, reduceCtorEq] at hstep
  | storing frame ws wr =>
    cases ws with
    | nil => simp only [recordStep, hproducer, reduceCtorEq] at hstep
    | cons w ws =>
      simp only [recordStep, hproducer] at hstep
      obtain rfl := some.inj hstep
      have hok := h.producer
      unfold ProducerOk at hok
      rw [hproducer] at hok
      obtain ⟨e, hframe, hwr, hlt, hfits, hwithin, hstored⟩ := hok
      have hone : Within s.cbuf.size [w] W (W + e.length) := fun w' hw' =>
        hwithin w' (mem_singleton.mp hw' ▸ mem_cons_self)
      have hagree : Agree s.cbuf.size s.cbuf.buf (Ring.store s.cbuf.buf w) R W :=
        agree_store_all hone (Or.inl ⟨le_refl W, le_of_lt hlt⟩)
      refine ⟨{ h with laid := ?_, producer := ?_, consumer := ?_ }, hevents⟩
      · exact h.laid.agree (hagree.mono h.le (le_refl W))
      · exact ⟨e, hframe, hwr, hlt, hfits,
          fun w' hw' => hwithin w' (mem_cons_of_mem w hw'), hstored⟩
      · have hconsumer := h.consumer
        unfold ConsumerOk at hconsumer ⊢
        cases hc : s.consumer with
        | idle => rwa [hc] at hconsumer
        | loading clen bytes => rwa [hc] at hconsumer
        | inUse f =>
          rw [hc] at hconsumer
          obtain ⟨e', hok', hf, hlast, hU, hdata⟩ := hconsumer
          refine ⟨e', hok', hf, hlast, hU, ?_⟩
          have hend := h.laid.le
          have hle := hok'.le_buffer
          have hlen : e'.length = headSize + e'.buffer := rfl
          rw [(hagree.mono (Nat.le_add_right R headSize) (by omega)).read]
          exact hdata

theorem publish_step (hstep : recordStep s .publish = some s') :
    ∃ e, RecordInv s' (es ++ [e]) last R U (W + e.length) ∧
      fifoEvents s .publish s' = [.push e.frame] := by
  cases hproducer : s.producer with
  | idle => simp only [recordStep, hproducer, reduceCtorEq] at hstep
  | storing frame ws wr =>
    cases ws with
    | cons w ws => simp only [recordStep, hproducer, reduceCtorEq] at hstep
    | nil =>
      simp only [recordStep, hproducer] at hstep
      obtain rfl := some.inj hstep
      have hok := h.producer
      unfold ProducerOk at hok
      rw [hproducer] at hok
      obtain ⟨e, hframe, hwr, hlt, hfits, -, hstored⟩ := hok
      refine ⟨e, { h with
        wr := hwr
        laid := h.laid.append hstored
        lt := hlt
        fits := hfits
        producer := trivial
        consumer := ?_ }, ?_⟩
      · have hconsumer := h.consumer
        unfold ConsumerOk at hconsumer ⊢
        cases hc : s.consumer with
        | idle => rwa [hc] at hconsumer
        | inUse f => rwa [hc] at hconsumer
        | loading clen bytes =>
          rw [hc] at hconsumer
          obtain ⟨hU, hbytes, e', es', rfl, hclen, hbegin⟩ := hconsumer
          exact ⟨hU, hbytes, e', es' ++ [e], rfl, hclen, hbegin⟩
      · simp only [fifoEvents, hproducer, hframe]

/-! ## The consumer -/

/-- If `rd` and `wr` differ, there is a frame, with its header in one piece. -/
theorem RecordInv.first (hc : s.consumer = .idle) (hne : s.cbuf.rd ≠ s.cbuf.wr) :
    U = R ∧ ∃ e es', es = e :: es' ∧ e.length ≤ cbufLength s.cbuf ∧
      ¬ s.cbuf.size < s.cbuf.rd + headSize := by
  have hconsumer := h.consumer
  unfold ConsumerOk at hconsumer
  rw [hc] at hconsumer
  have hlaid := h.laid
  cases es with
  | nil =>
    have heq : U = W := hlaid
    rw [h.rd, h.wr, ← heq, hconsumer] at hne
    exact absurd rfl hne
  | cons e es =>
    have hfits := hlaid.1.fits
    have hend := Laid.le hlaid.2
    rw [hconsumer] at hfits hend
    exact ⟨hconsumer, e, es, rfl, by rw [h.cbuf_length]; omega, by rw [h.rd]; omega⟩

/-- `cbuf_prefetch` goes on if there is a frame. -/
theorem prefetch_step (hstep : recordStep s .prefetch = some s') :
    RecordInv s' es last R U W ∧ fifoEvents s .prefetch s' = [] := by
  have hevents : fifoEvents s .prefetch s' = [] := rfl
  cases hc : s.consumer with
  | loading clen bytes => simp only [recordStep, hc, reduceCtorEq] at hstep
  | inUse f => simp only [recordStep, hc, reduceCtorEq] at hstep
  | idle =>
    simp only [recordStep, hc] at hstep
    by_cases hempty : s.cbuf.rd = s.cbuf.wr
    · rw [if_pos hempty] at hstep
      obtain rfl := some.inj hstep
      exact ⟨h, hevents⟩
    · obtain ⟨hU, e, es', hes, hclen, hfits⟩ := h.first hc hempty
      rw [if_neg hempty, if_neg hfits] at hstep
      obtain rfl := some.inj hstep
      refine ⟨{ h with producer := h.producer, consumer := ?_ }, hevents⟩
      exact ⟨hU, Nat.zero_le _, e, es', hes, hclen, rfl⟩

/-- A further byte of the header. -/
theorem load_step (hstep : recordStep s .load = some s') :
    RecordInv s' es last R U W ∧ fifoEvents s .load s' = [] := by
  have hevents : fifoEvents s .load s' = [] := rfl
  have hconsumer := h.consumer
  unfold ConsumerOk at hconsumer
  cases hc : s.consumer with
  | idle => simp only [recordStep, hc, reduceCtorEq] at hstep
  | inUse f => simp only [recordStep, hc, reduceCtorEq] at hstep
  | loading clen bytes =>
    rw [hc] at hconsumer
    obtain ⟨hU, hbytes, e, es', rfl, hclen, hbegin⟩ := hconsumer
    simp only [recordStep, hc] at hstep
    by_cases hmore : bytes.length < headSize
    · rw [if_pos hmore] at hstep
      obtain rfl := some.inj hstep
      obtain ⟨hok, hfits, hhead, -⟩ := h.laid.1
      rw [hU] at hfits hhead
      have hbyte : e.head.bytes[bytes.length]? =
          some (s.cbuf.buf (s.cbuf.rd + bytes.length)) := by
        rw [← hhead, getElem?_read hmore, h.rd, add_mod_near (by omega), if_pos (by omega)]
      refine ⟨{ h with producer := h.producer, consumer := ?_ }, hevents⟩
      refine ⟨hU, ?_, e, es', rfl, hclen, ?_⟩
      · rw [length_append]
        exact hmore
      · rw [length_append, length_singleton, take_add_one, hbyte, ← hbegin]
        rfl
    · rw [if_neg hmore] at hstep
      cases hstep

/-- A whole header is accepted. -/
theorem RecordInv.check_eq {clen : Nat} {bytes : List Byte} (hc : s.consumer = .loading clen bytes)
    (hwhole : ¬ bytes.length < headSize) :
    U = R ∧ ∃ e es', es = e :: es' ∧ recordStep s .check = some { s with
      cbuf := { s.cbuf with buf := storeAll s.cbuf.buf (stores s.cbuf.rd (intBytes 0)) }
      consumer := .inUse (prefetched s.cbuf.size R e) } := by
  have hconsumer := h.consumer
  unfold ConsumerOk at hconsumer
  rw [hc] at hconsumer
  obtain ⟨hU, hbytes, e, es', rfl, hclen, hbegin⟩ := hconsumer
  have hhead : bytes = e.head.bytes := by
    rw [hbegin, take_of_length_le]
    rw [length_head_bytes]
    omega
  obtain ⟨hok, hfits, -, -⟩ := h.laid.1
  rw [hU] at hfits
  refine ⟨hU, e, es', rfl, ?_⟩
  simp only [recordStep, hc]
  rw [if_neg hwhole, hhead, load_head_bytes, cbuf_prefetch_eq h.size hok h.rd hfits hclen]

theorem check_step (hstep : recordStep s .check = some s') :
    ∃ e es', es = e :: es' ∧ RecordInv s' es' (some e.frame) R (U + e.length) W ∧
      fifoEvents s .check s' = [.pop e.frame] := by
  have hstate : ∃ clen bytes, s.consumer = .loading clen bytes ∧ ¬ bytes.length < headSize := by
    cases hc : s.consumer with
    | idle => simp only [recordStep, hc, reduceCtorEq] at hstep
    | inUse f => simp only [recordStep, hc, reduceCtorEq] at hstep
    | loading clen bytes =>
      refine ⟨clen, bytes, rfl, fun hmore => ?_⟩
      simp only [recordStep, hc, if_pos hmore, reduceCtorEq] at hstep
  obtain ⟨clen, bytes, hc, hwhole⟩ := hstate
  obtain ⟨hU, e, es', rfl, heq⟩ := h.check_eq hc hwhole
  obtain rfl := some.inj (heq.symm.trans hstep)
  obtain ⟨hok, hfits, -, hdata⟩ := h.laid.1
  rw [hU] at hfits hdata
  have hlen : e.length = headSize + e.buffer := rfl
  have hle := hok.le_buffer
  have hend := Laid.le h.laid.2
  have hlt := h.lt
  have hint := length_int_bytes 0
  have hhead : headSize = 20 := rfl
  have hclear : stores s.cbuf.rd (intBytes 0) =
      ringStores s.cbuf.size R (intBytes 0) := by
    rw [h.rd]
    exact stores_eq (by omega)
  have hwithin : Within s.cbuf.size (stores s.cbuf.rd (intBytes 0)) R (R + 4) := by
    rw [hclear]
    exact within_ring_stores (le_refl R) (by rw [hint])
  have hagree : Agree s.cbuf.size s.cbuf.buf
      (storeAll s.cbuf.buf (stores s.cbuf.rd (intBytes 0))) (R + 4) (R + s.cbuf.size) :=
    agree_store_all hwithin (Or.inr ⟨le_refl _, le_refl _⟩)
  have hpayload : read s.cbuf.size (storeAll s.cbuf.buf (stores s.cbuf.rd (intBytes 0)))
      (R + headSize) e.frame.data.length = e.frame.data := by
    rw [(hagree.mono (by omega) (by omega)).read]
    exact hdata
  refine ⟨e, es', rfl, { h with le := ?_, laid := ?_, producer := ?_, consumer := ?_ }, ?_⟩
  · exact h.le.trans (Nat.le_add_right U e.length)
  · exact h.laid.2.agree (hagree.mono (by omega) (by omega))
  · have hproducer := h.producer
    unfold ProducerOk at hproducer ⊢
    cases hp : s.producer with
    | idle => trivial
    | storing frame ws wr =>
      rw [hp] at hproducer
      obtain ⟨e', hframe, hwr, hlt', hfits', hwithin', hstored⟩ := hproducer
      exact ⟨e', hframe, hwr, hlt', hfits', hwithin',
        hstored.agree ((hagree.mono (by omega) (le_of_lt hlt')).store_all ws)⟩
  · exact ⟨e, hok, by rw [h.rd], rfl, by rw [hU], hpayload⟩
  · show [FifoEvent.pop ⟨e.frame.type, e.frame.channel, segments _ (prefetched _ _ e)⟩] = _
    rw [segments_prefetched hok, hpayload]

/-- The frame in use is given up. -/
theorem advance_step (hstep : recordStep s .advance = some s') :
    RecordInv s' es last U U W ∧ fifoEvents s .advance s' = [] := by
  have hevents : fifoEvents s .advance s' = [] := rfl
  have hconsumer := h.consumer
  unfold ConsumerOk at hconsumer
  cases hc : s.consumer with
  | idle => simp only [recordStep, hc, reduceCtorEq] at hstep
  | loading clen bytes => simp only [recordStep, hc, reduceCtorEq] at hstep
  | inUse f =>
    rw [hc] at hconsumer
    obtain ⟨e, hok, rfl, -, hU, -⟩ := hconsumer
    have hlt := hok.lt_size
    have hmax := h.size.le
    have hpos : 0 < headSize + e.buffer := Nat.add_pos_left (by decide) e.buffer
    have hlen : e.length = headSize + e.buffer := rfl
    have hadvance : cbufAdvance s.cbuf (prefetched s.cbuf.size R e).advanceLength =
        { s.cbuf with rd := U % s.cbuf.size } := by
      show cbufAdvance s.cbuf (BitVec.ofNat 32 e.length) = _
      unfold cbufAdvance
      rw [to_int_of_nat (by omega), to_nat_of_nat (by omega), if_neg (by omega), h.rd,
        mod_add_mod, hU]
    simp only [recordStep, hc, hadvance] at hstep
    obtain rfl := some.inj hstep
    refine ⟨{ h with
      rd := rfl
      le := le_refl U
      lt := lt_of_lt_of_le h.lt (Nat.add_le_add_right h.le _)
      producer := ?_
      consumer := rfl }, hevents⟩
    have hproducer := h.producer
    unfold ProducerOk at hproducer ⊢
    cases hp : s.producer with
    | idle => trivial
    | storing frame ws wr =>
      rw [hp] at hproducer
      obtain ⟨e', hframe, hwr, hlt', hfits, hwithin, hstored⟩ := hproducer
      exact ⟨e', hframe, hwr, lt_of_lt_of_le hlt' (Nat.add_le_add_right h.le _), hfits,
        hwithin, hstored⟩

end

/-! ## Runs -/

def Queued (s : RecordState) (fifo : Fifo) : Prop :=
  ∃ es R U W, RecordInv s es fifo.taken.getLast? R U W ∧
    fifo.accepted = fifo.taken ++ es.map Entry.frame

theorem record_step_queued {op : RecordOp} (h : Queued s fifo) (hstep : recordStep s op = some s') :
    ∃ fifo', exec fifoStep fifo (fifoEvents s op s') = some fifo' ∧ Queued s' fifo' := by
  obtain ⟨es, R, U, W, hinv, hqueue⟩ := h
  have hsame : fifoEvents s op s' = [] →
      (∃ R' U' W', RecordInv s' es fifo.taken.getLast? R' U' W') →
      ∃ fifo', exec fifoStep fifo (fifoEvents s op s') = some fifo' ∧ Queued s' fifo' := by
    rintro hevents ⟨R', U', W', hinv'⟩
    rw [hevents]
    exact ⟨fifo, rfl, es, R', U', W', hinv', hqueue⟩
  cases op with
  | write frame =>
    obtain ⟨hinv', -, hevents⟩ := write_step hinv hstep
    exact hsame hevents ⟨R, U, W, hinv'⟩
  | store =>
    obtain ⟨hinv', hevents⟩ := store_step hinv hstep
    exact hsame hevents ⟨R, U, W, hinv'⟩
  | publish =>
    obtain ⟨e, hinv', hevents⟩ := publish_step hinv hstep
    rw [hevents]
    refine ⟨⟨fifo.accepted ++ [e.frame], fifo.taken⟩, rfl, _, R, U, _, hinv', ?_⟩
    rw [hqueue, map_append, append_assoc]
    rfl
  | prefetch =>
    obtain ⟨hinv', hevents⟩ := prefetch_step hinv hstep
    exact hsame hevents ⟨R, U, W, hinv'⟩
  | load =>
    obtain ⟨hinv', hevents⟩ := load_step hinv hstep
    exact hsame hevents ⟨R, U, W, hinv'⟩
  | check =>
    obtain ⟨e, es', rfl, hinv', hevents⟩ := check_step hinv hstep
    have hfirst : fifo.accepted[fifo.taken.length]? = some e.frame := by
      rw [hqueue, getElem?_append_right (le_refl _), Nat.sub_self]
      rfl
    have hlast : (fifo.taken ++ [e.frame]).getLast? = some e.frame := getLast?_concat
    rw [hevents]
    refine ⟨⟨fifo.accepted, fifo.taken ++ [e.frame]⟩, ?_, es', R, U + e.length, W, ?_, ?_⟩
    · show (if fifo.accepted[fifo.taken.length]? = some e.frame then
        some (Fifo.mk fifo.accepted (fifo.taken ++ [e.frame])) else none).bind _ = _
      rw [if_pos hfirst]
      rfl
    · rw [hlast]
      exact hinv'
    · rw [hqueue, append_assoc]
      rfl
  | advance =>
    obtain ⟨hinv', hevents⟩ := advance_step hinv hstep
    exact hsame hevents ⟨U, U, W, hinv'⟩

theorem RecordInv.not_unread (h : RecordInv s es last R U W) {i : Nat} (hle : W ≤ i)
    (hlt : i < R + s.cbuf.size) : ¬ Unread s.cbuf (i % s.cbuf.size) := by
  have hR := h.le_wr
  have hwr := distance hR h.lt
  have hi := distance (hR.trans hle) hlt
  have hpos : 0 < s.cbuf.size := by omega
  have hi' := mod_lt i hpos
  unfold Unread
  rw [h.rd, h.wr]
  split at hwr <;> split at hi <;> split <;> omega

/-- How far the consumer is from having taken everything. -/
def distanceLeft (s : RecordState) : Nat :=
  23 * cbufLength s.cbuf +
    match s.consumer with
    | .idle => 22
    | .loading _ bytes => 21 - bytes.length
    | .inUse _ => 0

/-- Until everything is taken, the consumer can go on. -/
theorem consumer_progress (h : Queued s fifo)
    (hmore : ¬ (s.consumer = .idle ∧ s.cbuf.rd = s.cbuf.wr)) :
    ∃ op s', op.consumer = true ∧ recordStep s op = some s' ∧ (∃ fifo', Queued s' fifo') ∧
      distanceLeft s' < distanceLeft s := by
  obtain ⟨es, R, U, W, hinv, hqueue⟩ := h
  have hgo : ∀ {op s1}, op.consumer = true → recordStep s op = some s1 →
      distanceLeft s1 < distanceLeft s → ∃ op s', op.consumer = true ∧
        recordStep s op = some s' ∧ (∃ fifo', Queued s' fifo') ∧
        distanceLeft s' < distanceLeft s := by
    intro op s1 hop hstep hless
    obtain ⟨fifo', -, hqueued⟩ := record_step_queued ⟨es, R, U, W, hinv, hqueue⟩ hstep
    exact ⟨op, s1, hop, hstep, ⟨fifo', hqueued⟩, hless⟩
  cases hc : s.consumer with
  | idle =>
    have hne : s.cbuf.rd ≠ s.cbuf.wr := fun heq => hmore ⟨hc, heq⟩
    obtain ⟨-, -, -, -, -, hfits⟩ := hinv.first hc hne
    have hstep : recordStep s .prefetch =
        some { s with consumer := .loading (cbufLength s.cbuf) [] } := by
      simp only [recordStep, hc, if_neg hne, if_neg hfits]
    refine hgo rfl hstep ?_
    simp only [distanceLeft, hc, length_nil]
    omega
  | loading clen bytes =>
    by_cases hshort : bytes.length < headSize
    · have hstep : recordStep s .load = some { s with
          consumer := .loading clen (bytes ++ [s.cbuf.buf (s.cbuf.rd + bytes.length)]) } := by
        simp only [recordStep, hc, if_pos hshort]
      refine hgo rfl hstep ?_
      have hhead : headSize = 20 := rfl
      simp only [distanceLeft, hc, length_append, length_singleton]
      omega
    · have hconsumer := hinv.consumer
      unfold ConsumerOk at hconsumer
      rw [hc] at hconsumer
      obtain ⟨-, e, es', -, hstep⟩ := hinv.check_eq hc hshort
      refine hgo rfl hstep ?_
      have hhead : headSize = 20 := rfl
      have hlen : ∀ cbuf : Cbuf, cbufLength { cbuf with
          buf := storeAll cbuf.buf (stores cbuf.rd (intBytes 0)) } = cbufLength cbuf :=
        fun _ => rfl
      simp only [distanceLeft, hc, hlen]
      omega
  | inUse f =>
    have hstep : recordStep s .advance = some { s with
        cbuf := cbufAdvance s.cbuf f.advanceLength, consumer := .idle } := by
      simp only [recordStep, hc]
    refine hgo rfl hstep ?_
    have hlen := (advance_step hinv hstep).1.cbuf_length
    have hbefore := hinv.cbuf_length
    have hconsumer := hinv.consumer
    unfold ConsumerOk at hconsumer
    rw [hc] at hconsumer
    obtain ⟨e, -, -, -, hU, -⟩ := hconsumer
    have hend := hinv.laid.le
    have he : e.length = 20 + e.buffer := rfl
    simp only [distanceLeft, hc] at hlen ⊢
    omega

theorem fifo_accepted {events : List FifoEvent} {fifo fifo' : Fifo}
    (hpops : ∀ ev ∈ events, ∃ frame, ev = .pop frame)
    (hrun : exec fifoStep fifo events = some fifo') : fifo'.accepted = fifo.accepted := by
  induction events generalizing fifo with
  | nil =>
    cases hrun
    rfl
  | cons ev events ih =>
    obtain ⟨fifo1, hstep, hrest⟩ := exec_cons_eq_some.mp hrun
    obtain ⟨⟨frame, rfl⟩, hothers⟩ := forall_mem_cons.mp hpops
    have hsame : fifo1.accepted = fifo.accepted := by
      simp only [fifoStep, ite_none_right_eq_some, some.injEq] at hstep
      rw [← hstep.2]
    exact (ih hothers hrest).trans hsame

theorem consumer_drains (h : Queued s fifo) :
    ∃ ops s' fifo', (∀ op ∈ ops, op.consumer = true) ∧ exec recordStep s ops = some s' ∧
      exec fifoStep fifo (trace recordStep fifoEvents s ops) = some fifo' ∧
      fifo'.accepted = fifo.accepted ∧ fifo'.taken = fifo.accepted := by
  obtain ⟨ops, s', hops, hrun, -, hidle, hempty⟩ := exec_reaches
    (I := fun s => ∃ fifo, Queued s fifo) (A := fun op : RecordOp => op.consumer = true)
    (E := fun s : RecordState => s.consumer = .idle ∧ s.cbuf.rd = s.cbuf.wr) distanceLeft
    (fun _ ⟨_, hqueued⟩ => consumer_progress hqueued) ⟨fifo, h⟩
  obtain ⟨fifo', hevents, es, R, U, W, hinv, hqueue⟩ := exec_simulation
    (R := Queued) (fun _ _ _ _ => record_step_queued) h hrun
  have hpops : ∀ ev ∈ trace recordStep fifoEvents s ops, ∃ frame, ev = .pop frame := by
    refine mem_trace (fun s op s' hop ev hev => ?_) hops
    cases op with
    | check =>
      cases hc : s'.consumer with
      | inUse f =>
        simp only [fifoEvents, hc, mem_singleton] at hev
        exact ⟨_, hev⟩
      | idle => simp only [fifoEvents, hc, not_mem_nil] at hev
      | loading clen bytes => simp only [fifoEvents, hc, not_mem_nil] at hev
    | prefetch => cases hev
    | load => cases hev
    | advance => cases hev
    | write frame => cases hop
    | store => cases hop
    | publish => cases hop
  have haccepted : fifo'.accepted = fifo.accepted := fifo_accepted hpops hevents
  have hnone : es = [] := by
    cases es with
    | nil => rfl
    | cons e es =>
      have hconsumer := hinv.consumer
      unfold ConsumerOk at hconsumer
      rw [hidle] at hconsumer
      have hlaid := hinv.laid
      have hend := Laid.le hlaid.2
      have he : e.length = 20 + e.buffer := rfl
      have hcells := mod_ne_of_near (show R < W by omega) hinv.lt
      rw [← hinv.rd, ← hinv.wr] at hcells
      exact absurd hempty hcells
  rw [hnone, map_nil, append_nil] at hqueue
  exact ⟨ops, s', fifo', hops, hrun, hevents, haccepted, hqueue.symm.trans haccepted⟩

theorem init_queued {size : Int} {buf : Nat → Byte} {cbuf : Cbuf}
    (hinit : cbufInit size buf = some cbuf) : Queued (recordStart cbuf) ⟨[], []⟩ := by
  unfold cbufInit at hinit
  by_cases hsize : size ≤ 0 ∨ size > 20 * 1024 * 1024
  · rw [if_pos hsize] at hinit
    cases hinit
  · rw [if_neg hsize] at hinit
    obtain rfl := some.inj hinit
    have hok : SizeOk ((size.toNat + 31) / 32 * 32) := ⟨by omega, by omega⟩
    refine ⟨[], 0, 0, 0, ⟨hok, (zero_mod _).symm, (zero_mod _).symm, le_refl 0, rfl, ?_,
      ?_, trivial, rfl, rfl⟩, rfl⟩
    · show 0 < 0 + (size.toNat + 31) / 32 * 32
      omega
    · show 0 % ((size.toNat + 31) / 32 * 32) + 20 ≤ (size.toNat + 31) / 32 * 32
      rw [zero_mod]
      omega

/-- The record buffer is a queue of whole frames, whatever the order of the steps. -/
theorem record_refines {size : Int} {buf : Nat → Byte} {cbuf : Cbuf} {ops : List RecordOp}
    (hinit : cbufInit size buf = some cbuf)
    (hrun : exec recordStep (recordStart cbuf) ops = some s) :
    ∃ fifo, exec fifoStep ⟨[], []⟩ (trace recordStep fifoEvents (recordStart cbuf) ops) =
      some fifo ∧ RecordOk s fifo := by
  obtain ⟨fifo, hevents, hqueued⟩ := exec_simulation
    (R := Queued) (fun _ _ _ _ => record_step_queued) (init_queued hinit) hrun
  have hdrained := consumer_drains hqueued
  obtain ⟨es, R, U, W, hinv, hqueue⟩ := hqueued
  refine ⟨fifo, hevents, hinv.noError, ?_, ?_, ?_, hdrained⟩
  · intro f hf
    have hconsumer := hinv.consumer
    unfold ConsumerOk at hconsumer
    rw [hf] at hconsumer
    obtain ⟨e, hok, rfl, hlast, -, hdata⟩ := hconsumer
    rw [hlast, segments_prefetched hok, hdata]
    rfl
  · intro frame ws wr hproducer w hw
    have hok := hinv.producer
    unfold ProducerOk at hok
    rw [hproducer] at hok
    obtain ⟨e, -, -, hlt, -, hwithin, -⟩ := hok
    obtain ⟨i, hi, hi', heq⟩ := hwithin w hw
    rw [heq]
    exact ⟨mod_lt i (lt_of_lt_of_le (by decide) hinv.size.ge), hinv.not_unread hi (hi'.trans hlt)⟩
  · intro frame s' hstep
    exact (write_step hinv hstep).2.1

/-- A frame of four bytes on its way through a new buffer. -/
theorem record_refines_frame :
    ∃ cbuf s fifo, cbufInit 2000 (fun _ => 0) = some cbuf ∧
      exec fifoStep ⟨[], []⟩ (trace recordStep fifoEvents (recordStart cbuf)
        (.write ⟨1, 2, [3, 4, 5, 6]⟩ :: replicate 24 .store ++ [.publish])) = some fifo ∧
      RecordOk s fifo := by
  have hinit : cbufInit 2000 (fun _ => 0) = some ⟨0, 0, 2016, fun _ => 0⟩ := rfl
  have hsome : (exec recordStep (recordStart ⟨0, 0, 2016, fun _ => 0⟩)
      (.write ⟨1, 2, [3, 4, 5, 6]⟩ :: replicate 24 .store ++ [.publish])).isSome = true := by
    decide
  obtain ⟨s, hs⟩ := isSome_iff_exists.mp hsome
  obtain ⟨fifo, hevents, hok⟩ := record_refines hinit hs
  exact ⟨_, s, fifo, hinit, hevents, hok⟩

end FullhanRtos.Record
