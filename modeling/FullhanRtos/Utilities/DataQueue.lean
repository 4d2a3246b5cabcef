import FullhanRtos.Lib.Fifo
import FullhanRtos.Lib.Ring
import Mathlib.Data.BitVec

/-!
# Data queues

`put_index` and `get_index` of a data queue are 16 bits wide and wrap. A push compares their
difference, as an `int`, with the size, so that it does not see that the queue is full when only
`put_index` has wrapped, and the slots `index % size` of indices around the wrap may be the same.
`data_queue_refines` says that a data queue is a bounded queue as long as neither happens.

A call that finds the queue full or empty waits, and looks at the queue again when it is resumed.
-/

namespace FullhanRtos.DataQueue

open Ring Transition Function List BitVec

/-! ## The queue -/

structure RtDataItem where
  dataPtr : BitVec 32
  dataSize : BitVec 32
  deriving DecidableEq

inductive DataCall where
  | push (item : RtDataItem)
  | pop

structure DataThread where
  thread : Nat
  call : DataCall
  timeout : BitVec 32

/-- `struct rt_data_queue`, and the threads that were taken from its lists and have not run since,
with `thread->error` (`RT_EOK` or `-RT_ETIMEOUT`). -/
structure RtDataQueue where
  size : BitVec 16
  lwm : BitVec 16
  getIndex : BitVec 16
  putIndex : BitVec 16
  queue : Nat → RtDataItem
  suspendedPushList : List DataThread
  suspendedPopList : List DataThread
  resumed : List (DataThread × Bool)

/-- What a call that looks at the queue does. -/
inductive DataResult where
  | pushed
  | popped (item : RtDataItem)
  | timedOut
  | suspended

/-- `none` when there is no memory. -/
def rtDataQueueInit (size lwm : BitVec 16) (memory : Option (Nat → RtDataItem)) :
    Option RtDataQueue :=
  memory.map fun queue =>
    { size
      lwm
      getIndex := 0
      putIndex := 0
      queue
      suspendedPushList := []
      suspendedPopList := []
      resumed := [] }

def slot (dq : RtDataQueue) (index : BitVec 16) : Nat := index.toNat % dq.size.toNat

def indexDifference (dq : RtDataQueue) : Int := dq.putIndex.toNat - dq.getIndex.toNat

/-- A thread from `suspended_pop_list` is resumed. -/
def resumePop (dq : RtDataQueue) : RtDataQueue :=
  match dq.suspendedPopList with
  | [] => dq
  | t :: rest => { dq with suspendedPopList := rest, resumed := dq.resumed ++ [(t, true)] }

/-- A thread from `suspended_push_list` is resumed when there are not more than `lwm` items. -/
def resumePush (dq : RtDataQueue) : RtDataQueue :=
  if indexDifference dq ≤ dq.lwm.toNat then
    match dq.suspendedPushList with
    | [] => dq
    | t :: rest => { dq with suspendedPushList := rest, resumed := dq.resumed ++ [(t, true)] }
  else dq

def rtDataQueuePush (dq : RtDataQueue) (t : DataThread) (item : RtDataItem) :
    RtDataQueue × DataResult :=
  if indexDifference dq = dq.size.toNat then
    if t.timeout = 0 then (dq, .timedOut)
    else ({ dq with suspendedPushList := dq.suspendedPushList ++ [t] }, .suspended)
  else
    (resumePop
      { dq with
        queue := store dq.queue (slot dq dq.putIndex, item)
        putIndex := dq.putIndex + 1 }, .pushed)

def rtDataQueuePop (dq : RtDataQueue) (t : DataThread) : RtDataQueue × DataResult :=
  if dq.getIndex = dq.putIndex then
    if t.timeout = 0 then (dq, .timedOut)
    else ({ dq with suspendedPopList := dq.suspendedPopList ++ [t] }, .suspended)
  else
    (resumePush { dq with getIndex := dq.getIndex + 1 },
      .popped (dq.queue (slot dq dq.getIndex)))

/-- `none` is `-RT_EEMPTY`. -/
def rtDataQueuePeak (dq : RtDataQueue) : Option RtDataItem :=
  if dq.getIndex = dq.putIndex then none else some (dq.queue (slot dq dq.getIndex))

/-- A call looks at the queue. -/
def round (dq : RtDataQueue) (t : DataThread) : RtDataQueue × DataResult :=
  match t.call with
  | .push item => rtDataQueuePush dq t item
  | .pop => rtDataQueuePop dq t

/-- A thread calls, the timer of a thread that waits runs out, or a thread that was resumed runs
again. -/
inductive DataRequest where
  | call (t : DataThread)
  | expire (thread : Nat)
  | continue (thread : Nat)

def waits (thread : Nat) (t : DataThread) : Bool := t.thread = thread ∧ 0 < t.timeout.toInt

/-- The timer takes the thread from its list. -/
def expire (dq : RtDataQueue) (thread : Nat) : Option RtDataQueue :=
  match (dq.suspendedPushList ++ dq.suspendedPopList).find? (waits thread) with
  | none => none
  | some t =>
    some { dq with
      suspendedPushList := dq.suspendedPushList.eraseP (waits thread)
      suspendedPopList := dq.suspendedPopList.eraseP (waits thread)
      resumed := dq.resumed ++ [(t, false)] }

def looks (dq : RtDataQueue) : DataRequest → Option (RtDataQueue × DataThread)
  | .call t => some (dq, t)
  | .expire _ => none
  | .continue thread =>
    match dq.resumed.find? (fun r => r.1.thread = thread) with
    | some (t, true) =>
      some ({ dq with resumed := dq.resumed.eraseP fun r => r.1.thread = thread }, t)
    | _ => none

/-- A thread with an error returns. -/
def dataQueueStep (dq : RtDataQueue) (request : DataRequest) : Option RtDataQueue :=
  match looks dq request with
  | some (dq', t) => some (round dq' t).1
  | none =>
    match request with
    | .call _ => none
    | .expire thread => expire dq thread
    | .continue thread =>
      if dq.resumed.any (fun r => r.1.thread = thread) then
        some { dq with resumed := dq.resumed.eraseP fun r => r.1.thread = thread }
      else none

/-- A look at the queue, as a call with its result. -/
def roundEvent (t : DataThread) (result : DataResult) : Fifo.Event RtDataItem :=
  match t.call, result with
  | .push item, .pushed => .put [item] 1
  | .push item, _ => .put [item] 0
  | .pop, .popped item => .take 1 [item] 1
  | .pop, _ => .take 1 [] 0

def dataQueueEvent (dq : RtDataQueue) (request : DataRequest) (_dq' : RtDataQueue) :
    List (Fifo.Event RtDataItem) :=
  match looks dq request with
  | some (dq', t) => [roundEvent t (round dq' t).2]
  | none => []

/-! ## The condition -/

/-- The number of items. -/
def held (dq : RtDataQueue) : Nat := (dq.putIndex - dq.getIndex).toNat

/-- A full queue is seen to be full, and the next slot of another one has no item to be read. -/
def PushOk (dq : RtDataQueue) : Prop :=
  (held dq = dq.size.toNat → dq.getIndex ≤ dq.putIndex) ∧
    (held dq ≠ dq.size.toNat →
      ∀ i < held dq, slot dq (dq.getIndex + BitVec.ofNat 16 i) ≠ slot dq dq.putIndex)

instance (dq : RtDataQueue) : Decidable (PushOk dq) := inferInstanceAs (Decidable (_ ∧ _))

def pushes (dq : RtDataQueue) (request : DataRequest) : Option RtDataQueue :=
  match looks dq request with
  | some (dq', ⟨_, .push _, _⟩) => some dq'
  | _ => none

/-- The condition on a step. -/
def RequestOk (dq : RtDataQueue) (request : DataRequest) : Prop :=
  ∀ dq' ∈ pushes dq request, PushOk dq'

instance (dq : RtDataQueue) (request : DataRequest) : Decidable (RequestOk dq request) :=
  inferInstanceAs (Decidable (∀ dq' ∈ pushes dq request, PushOk dq'))

/-! ## The items -/

/-- The slots from `get_index` on hold the items of a queue. -/
structure DataQueueOk (dq : RtDataQueue) (q : Fifo.Queue RtDataItem) : Prop where
  capacity : q.capacity = dq.size.toNat
  putIndex : dq.putIndex = dq.getIndex + BitVec.ofNat 16 q.items.length
  items : ∀ i x, q.items[i]? = some x →
    dq.queue (slot dq (dq.getIndex + BitVec.ofNat 16 i)) = x

variable {dq dq' : RtDataQueue} {q : Fifo.Queue RtDataItem} {t : DataThread}
  {request : DataRequest}

/-- The lists of threads do not matter. -/
theorem DataQueueOk.same (h : DataQueueOk dq q) (hsize : dq'.size = dq.size)
    (hget : dq'.getIndex = dq.getIndex) (hput : dq'.putIndex = dq.putIndex)
    (hqueue : dq'.queue = dq.queue) : DataQueueOk dq' q := by
  refine ⟨?_, ?_, fun i x hx => ?_⟩
  · rw [hsize]
    exact h.capacity
  · rw [hget, hput]
    exact h.putIndex
  · unfold slot
    rw [hget, hqueue, hsize]
    exact h.items i x hx

theorem DataQueueOk.held_eq (h : DataQueueOk dq q) : held dq = q.items.length := by
  have hfits := q.fits
  have hcapacity := h.capacity
  have hput := h.putIndex
  unfold held
  bv_omega

theorem index_difference (dq : RtDataQueue) :
    (dq.getIndex ≤ dq.putIndex → indexDifference dq = held dq) ∧
      (¬ dq.getIndex ≤ dq.putIndex → indexDifference dq < 0) := by
  unfold indexDifference held
  constructor <;> intro h <;> bv_omega

section

variable (h : DataQueueOk dq q) {item : RtDataItem}

include h

theorem resume_pop_ok : DataQueueOk (resumePop dq) q := by
  unfold resumePop
  split <;> exact h.same rfl rfl rfl rfl

theorem resume_push_ok : DataQueueOk (resumePush dq) q := by
  unfold resumePush
  split
  · split <;> exact h.same rfl rfl rfl rfl
  · exact h

theorem stored_ok (hroom : 0 < q.space)
    (hfree : ∀ i < held dq, slot dq (dq.getIndex + BitVec.ofNat 16 i) ≠ slot dq dq.putIndex) :
    DataQueueOk
      { dq with
        queue := store dq.queue (slot dq dq.putIndex, item)
        putIndex := dq.putIndex + 1 } (q.put [item]) := by
  have hitems : (q.put [item]).items = q.items ++ [item] := by
    show q.items ++ [item].take q.space = q.items ++ [item]
    rw [take_of_length_le hroom]
  refine ⟨h.capacity, ?_, fun i x hx => ?_⟩
  · show dq.putIndex + 1 = dq.getIndex + BitVec.ofNat 16 (q.put [item]).items.length
    rw [hitems, length_append, h.putIndex, ofNat_add, BitVec.add_assoc]
    rfl
  · show store dq.queue (slot dq dq.putIndex, item)
      (slot dq (dq.getIndex + BitVec.ofNat 16 i)) = x
    unfold store
    rw [hitems] at hx
    rcases Nat.lt_or_ge i q.items.length with hless | hge
    · rw [getElem?_append_left hless] at hx
      rw [update_of_ne (hfree i (by rw [h.held_eq]; exact hless))]
      exact h.items i x hx
    · rw [getElem?_append_right hge, getElem?_singleton] at hx
      split at hx
      · have hlast : i = q.items.length := by omega
        rw [hlast, ← h.putIndex, update_self]
        exact Option.some.inj hx
      · cases hx

theorem DataQueueOk.next (hsome : 0 < q.items.length) :
    DataQueueOk { dq with getIndex := dq.getIndex + 1 } (q.drop 1) := by
  refine ⟨h.capacity, ?_, fun i x hx => ?_⟩
  · show dq.putIndex = dq.getIndex + 1 + BitVec.ofNat 16 (q.items.drop 1).length
    rw [h.putIndex, length_drop, BitVec.add_assoc]
    congr 1
    show BitVec.ofNat 16 q.items.length = BitVec.ofNat 16 1 + BitVec.ofNat 16 (q.items.length - 1)
    rw [← ofNat_add, Nat.add_sub_cancel' hsome]
  · have hmove : dq.getIndex + 1 + BitVec.ofNat 16 i = dq.getIndex + BitVec.ofNat 16 (1 + i) := by
      rw [ofNat_add, BitVec.add_assoc]
      rfl
    show dq.queue (slot dq (dq.getIndex + 1 + BitVec.ofNat 16 i)) = x
    rw [hmove]
    refine h.items (1 + i) x ?_
    rw [← getElem?_drop]
    exact hx

/-! ## One look at the queue -/

theorem push_round_ok (hcall : t.call = .push item) (hok : PushOk dq) :
    ∃ q', Fifo.step q (roundEvent t (rtDataQueuePush dq t item).2) = some q' ∧
      DataQueueOk (rtDataQueuePush dq t item).1 q' := by
  obtain ⟨hwhole, hwrapped⟩ := index_difference dq
  have hheld := h.held_eq
  have hspace : q.space = dq.size.toNat - held dq := by
    rw [← h.capacity, hheld]
    rfl
  unfold rtDataQueuePush roundEvent
  rw [hcall]
  by_cases hfull : indexDifference dq = dq.size.toNat
  · -- only a queue that is full looks full
    have horder : dq.getIndex ≤ dq.putIndex := by
      by_contra hless
      have hneg := hwrapped hless
      omega
    have hnone : q.space = 0 := by
      have hdifference := hwhole horder
      omega
    rw [if_pos hfull]
    have hstep : Fifo.step q (.put [item] 0) = some q := by
      rw [Fifo.step, if_pos (by rw [hnone, Nat.min_zero]), Fifo.Queue.put_full hnone]
    by_cases hnow : t.timeout = 0
    · rw [if_pos hnow]
      exact ⟨q, hstep, h⟩
    · rw [if_neg hnow]
      exact ⟨q, hstep, h.same rfl rfl rfl rfl⟩
  · have hroom : held dq ≠ dq.size.toNat := by
      intro heq
      have hdifference := hwhole (hok.1 heq)
      omega
    have hfits := q.fits
    have hcapacity := h.capacity
    rw [if_neg hfull]
    refine ⟨q.put [item], if_pos ?_, resume_pop_ok (stored_ok h ?_ (hok.2 hroom))⟩
    · show 1 = min 1 q.space
      omega
    · omega

/-- The indices are equal when there is no item. -/
theorem DataQueueOk.empty_iff : dq.getIndex = dq.putIndex ↔ q.items = [] := by
  rw [← length_eq_zero_iff, ← h.held_eq]
  unfold held
  constructor <;> intro heq <;> bv_omega

theorem DataQueueOk.first {x : RtDataItem} {rest : List RtDataItem} (hitems : q.items = x :: rest) :
    dq.queue (slot dq dq.getIndex) = x := by
  have hslot := h.items 0 x (by rw [hitems]; rfl)
  rwa [show BitVec.ofNat 16 0 = 0#16 from rfl, BitVec.add_zero] at hslot

theorem peak_ok : rtDataQueuePeak dq = q.items.head? := by
  unfold rtDataQueuePeak
  cases hitems : q.items with
  | nil => rw [if_pos (h.empty_iff.mpr hitems), head?_nil]
  | cons x rest =>
    have hsome : ¬ dq.getIndex = dq.putIndex := by
      rw [h.empty_iff, hitems]
      exact cons_ne_nil x rest
    rw [if_neg hsome, h.first hitems, head?_cons]

theorem pop_round_ok (hcall : t.call = .pop) :
    ∃ q', Fifo.step q (roundEvent t (rtDataQueuePop dq t).2) = some q' ∧
      DataQueueOk (rtDataQueuePop dq t).1 q' := by
  unfold rtDataQueuePop roundEvent
  rw [hcall]
  by_cases hempty : dq.getIndex = dq.putIndex
  · have hnil := h.empty_iff.mp hempty
    have hstep : Fifo.step q (.take 1 [] 0) = some (q.drop 1) := if_pos ⟨by rw [hnil]; rfl, rfl⟩
    rw [Fifo.Queue.drop_empty hnil] at hstep
    rw [if_pos hempty]
    by_cases hnow : t.timeout = 0
    · rw [if_pos hnow]
      exact ⟨q, hstep, h⟩
    · rw [if_neg hnow]
      exact ⟨q, hstep, h.same rfl rfl rfl rfl⟩
  · rw [if_neg hempty]
    cases hitems : q.items with
    | nil => exact absurd (h.empty_iff.mpr hitems) hempty
    | cons x rest =>
      have hsome : 0 < q.items.length := by
        rw [hitems]
        exact Nat.succ_pos _
      refine ⟨q.drop 1, if_pos ⟨?_, rfl⟩, resume_push_ok (h.next hsome)⟩
      rw [h.first hitems, hitems]
      rfl

theorem round_ok (hok : ∀ item, t.call = .push item → PushOk dq) :
    ∃ q', Fifo.step q (roundEvent t (round dq t).2) = some q' ∧ DataQueueOk (round dq t).1 q' := by
  unfold round
  split
  · rename_i item hcall
    exact push_round_ok h hcall (hok item hcall)
  · rename_i hcall
    exact pop_round_ok h hcall

end

/-! ## When a push is seen right -/

/-! ## Runs -/

theorem expire_same {thread : Nat} (h : expire dq thread = some dq') :
    dq'.size = dq.size ∧ dq'.getIndex = dq.getIndex ∧ dq'.putIndex = dq.putIndex ∧
      dq'.queue = dq.queue := by
  unfold expire at h
  split at h
  · cases h
  · cases h
    exact ⟨rfl, rfl, rfl, rfl⟩

/-- What a thread finds is the queue of the state. -/
theorem looks_same {dq1 : RtDataQueue} (h : looks dq request = some (dq1, t)) :
    dq1.size = dq.size ∧ dq1.getIndex = dq.getIndex ∧ dq1.putIndex = dq.putIndex ∧
      dq1.queue = dq.queue := by
  unfold looks at h
  split at h
  · cases h
    exact ⟨rfl, rfl, rfl, rfl⟩
  · cases h
  · split at h
    · cases h
      exact ⟨rfl, rfl, rfl, rfl⟩
    · cases h

/-- Each look at the queue is a call of a bounded queue, with the same result, and the other steps
do not change the items. -/
theorem data_queue_step_ok (h : DataQueueOk dq q) (hok : RequestOk dq request)
    (hstep : dataQueueStep dq request = some dq') :
    ∃ q', exec Fifo.step q (dataQueueEvent dq request dq') = some q' ∧ DataQueueOk dq' q' := by
  unfold dataQueueStep at hstep
  unfold dataQueueEvent
  cases hlooks : looks dq request with
  | some look =>
    obtain ⟨dq1, t⟩ := look
    rw [hlooks] at hstep
    cases hstep
    obtain ⟨hsize, hget, hput, hqueue⟩ := looks_same hlooks
    have hpush : ∀ item, t.call = .push item → PushOk dq1 := by
      intro item hcall
      refine hok dq1 ?_
      cases t
      cases hcall
      unfold pushes
      rw [hlooks]
      rfl
    obtain ⟨q', hq', hok'⟩ := round_ok (h.same hsize hget hput hqueue) hpush
    exact ⟨q', exec_cons_eq_some.mpr ⟨q', hq', rfl⟩, hok'⟩
  | none =>
    rw [hlooks] at hstep
    refine ⟨q, rfl, ?_⟩
    cases request with
    | call t => cases hstep
    | expire thread =>
      obtain ⟨hsize, hget, hput, hqueue⟩ := expire_same hstep
      exact h.same hsize hget hput hqueue
    | «continue» thread =>
      simp only at hstep
      split at hstep
      · cases hstep
        exact h.same rfl rfl rfl rfl
      · cases hstep

theorem init_ok {size lwm : BitVec 16} {memory : Option (Nat → RtDataItem)}
    (h : rtDataQueueInit size lwm memory = some dq) :
    DataQueueOk dq (Fifo.Queue.empty size.toNat) := by
  cases memory with
  | none => cases h
  | some queue =>
    cases h
    exact ⟨rfl, rfl, fun i x hx => by cases hx⟩

/-- In a run whose pushes see the queue as it is, a data queue is a bounded queue of capacity
`size`: what is popped is what was pushed, in order, and the rest is still there. -/
theorem data_queue_refines {size lwm : BitVec 16} {memory : Option (Nat → RtDataItem)}
    {dq0 dq : RtDataQueue} {requests : List DataRequest}
    (hinit : rtDataQueueInit size lwm memory = some dq0)
    (hrun : exec dataQueueStep dq0 requests = some dq)
    (hok : AllSteps dataQueueStep RequestOk dq0 requests) :
    ∃ q, exec Fifo.step (Fifo.Queue.empty size.toNat)
        (trace dataQueueStep dataQueueEvent dq0 requests) = some q ∧
      q.capacity = size.toNat ∧ held dq = q.items.length ∧ rtDataQueuePeak dq = q.items.head? ∧
      (trace dataQueueStep dataQueueEvent dq0 requests).flatMap Fifo.Event.accepted =
        (trace dataQueueStep dataQueueEvent dq0 requests).flatMap Fifo.Event.taken ++ q.items := by
  obtain ⟨q, hqueue, hq⟩ := exec_simulation_under (C := RequestOk) (R := DataQueueOk)
    (fun _ _ _ _ h hok hstep => data_queue_step_ok h hok hstep) (init_ok hinit) hok hrun
  have hclear : ∀ event ∈ trace dataQueueStep dataQueueEvent dq0 requests,
      event ≠ Fifo.Event.clear := by
    refine mem_trace (A := fun _ => True) (fun dq request dq' _ event hevent => ?_)
      (fun _ _ => trivial)
    unfold dataQueueEvent at hevent
    split at hevent
    · rw [mem_singleton.mp hevent]
      unfold roundEvent
      split <;> exact nofun
    · cases hevent
  have hconserves := Fifo.exec_conserves hclear hqueue
  exact ⟨q, hqueue, Fifo.exec_capacity hqueue, hq.held_eq, peak_ok hq, hconserves⟩

/-- Two threads at a queue of one item: the second push waits until the first item is popped. -/
theorem data_queue_refines_two :
    ∃ dq0 dq q, rtDataQueueInit 1 1 (some fun _ => ⟨0, 0⟩) = some dq0 ∧
      exec dataQueueStep dq0
        [.call ⟨0, .push ⟨1, 4⟩, 0⟩, .call ⟨1, .push ⟨2, 4⟩, 10⟩, .call ⟨0, .pop, 0⟩,
          .continue 1, .call ⟨0, .pop, 0⟩] = some dq ∧
      exec Fifo.step (Fifo.Queue.empty 1)
        [.put [⟨1, 4⟩] 1, .put [⟨2, 4⟩] 0, .take 1 [⟨1, 4⟩] 1, .put [⟨2, 4⟩] 1,
          .take 1 [(⟨2, 4⟩ : RtDataItem)] 1] = some q ∧
      held dq = q.items.length := by
  obtain ⟨q, hqueue, -, hheld, -, -⟩ := @data_queue_refines 1 1 (some fun _ => ⟨0, 0⟩) _ _
    [.call ⟨0, .push ⟨1, 4⟩, 0⟩, .call ⟨1, .push ⟨2, 4⟩, 10⟩, .call ⟨0, .pop, 0⟩,
      .continue 1, .call ⟨0, .pop, 0⟩] rfl rfl (by decide)
  exact ⟨_, _, q, rfl, rfl, hqueue, hheld⟩

/-! ## Around the wrap -/

def item (n : Nat) : RtDataItem := ⟨BitVec.ofNat 32 n, 4⟩

/-- A queue of one item, empty, after `n` items went through it. -/
def emptyAt (n : Nat) : RtDataQueue where
  size := 1
  lwm := 0
  getIndex := BitVec.ofNat 16 n
  putIndex := BitVec.ofNat 16 n
  queue := fun _ => item 0
  suspendedPushList := []
  suspendedPopList := []
  resumed := []

def fullAt (n : Nat) (x : RtDataItem) : RtDataQueue :=
  { emptyAt n with
    putIndex := BitVec.ofNat 16 (n + 1)
    queue := store (fun _ => item 0) (0, x) }

def pushRequest (x : RtDataItem) : DataRequest := .call ⟨0, .push x, 0⟩

def popRequest : DataRequest := .call ⟨0, .pop, 0⟩

variable {n : Nat}

theorem push_at (n : Nat) (x : RtDataItem) :
    rtDataQueuePush (emptyAt n) ⟨0, .push x, 0⟩ x = (fullAt n x, .pushed) := by
  have hdifference : indexDifference (emptyAt n) ≠ (1 : Int) := by
    show ((BitVec.ofNat 16 n).toNat - (BitVec.ofNat 16 n).toNat : Int) ≠ 1
    rw [Int.sub_self]
    decide
  have hslot : slot (emptyAt n) (emptyAt n).putIndex = 0 := Nat.mod_one _
  unfold rtDataQueuePush
  rw [hslot]
  exact (if_neg hdifference).trans (by rw [fullAt, ofNat_add]; rfl)

theorem resume_push_nil (h : dq.suspendedPushList = []) : resumePush dq = dq := by
  unfold resumePush
  rw [h]
  split <;> rfl

theorem pop_at (n : Nat) :
    rtDataQueuePop (fullAt n (item 0)) ⟨0, .pop, 0⟩ = (emptyAt (n + 1), .popped (item 0)) := by
  have hcells : fullAt n (item 0) = { emptyAt n with putIndex := BitVec.ofNat 16 (n + 1) } := by
    have hsame : store (fun _ => item 0) (0, item 0) = fun _ : Nat => item 0 := update_eq_self _ _
    rw [fullAt, hsame]
    rfl
  have hsome : ¬ BitVec.ofNat 16 n = BitVec.ofNat 16 (n + 1) := by bv_omega
  have hnext : { emptyAt n with
      getIndex := BitVec.ofNat 16 n + 1
      putIndex := BitVec.ofNat 16 (n + 1) } = emptyAt (n + 1) := by
    unfold emptyAt
    rw [ofNat_add n 1]
    rfl
  rw [hcells]
  refine (if_neg hsome).trans ?_
  rw [resume_push_nil rfl]
  exact congrArg (fun s => (s, DataResult.popped (item 0))) hnext

theorem round_trips (n : Nat) :
    exec dataQueueStep (emptyAt 0) (List.replicate n [pushRequest (item 0), popRequest]).flatten =
        some (emptyAt n) ∧
      exec Fifo.step (Fifo.Queue.empty 1)
        (trace dataQueueStep dataQueueEvent (emptyAt 0)
          (List.replicate n [pushRequest (item 0), popRequest]).flatten) =
        some (Fifo.Queue.empty 1) := by
  induction n with
  | zero => exact ⟨rfl, rfl⟩
  | succ n ih =>
    have hpush : dataQueueStep (emptyAt n) (pushRequest (item 0)) =
        some (fullAt n (item 0)) :=
      congrArg (fun r : RtDataQueue × DataResult => some r.1) (push_at n (item 0))
    have hpop : dataQueueStep (fullAt n (item 0)) popRequest = some (emptyAt (n + 1)) :=
      congrArg (fun r : RtDataQueue × DataResult => some r.1) (pop_at n)
    have hevent : trace dataQueueStep dataQueueEvent (emptyAt n)
        [pushRequest (item 0), popRequest] = [.put [item 0] 1, .take 1 [item 0] 1] := by
      rw [trace, hpush]
      show [roundEvent _ (rtDataQueuePush (emptyAt n) ⟨0, .push (item 0), 0⟩ (item 0)).2] ++ _ = _
      rw [push_at, trace, hpop]
      show [Fifo.Event.put [item 0] 1] ++
        ([roundEvent _ (rtDataQueuePop (fullAt n (item 0)) ⟨0, .pop, 0⟩).2] ++ []) = _
      rw [pop_at]
      rfl
    have hrounds : (List.replicate (n + 1) [pushRequest (item 0), popRequest]).flatten =
        (List.replicate n [pushRequest (item 0), popRequest]).flatten ++
          [pushRequest (item 0), popRequest] := by
      rw [List.replicate_succ', flatten_concat]
    rw [hrounds]
    refine ⟨?_, ?_⟩
    · rw [exec_append, ih.1]
      exact exec_cons_eq_some.mpr ⟨_, hpush, exec_cons_eq_some.mpr ⟨_, hpop, rfl⟩⟩
    · rw [trace_append ih.1, hevent, exec_append, ih.2]
      rfl

/-- After 65535 items, a queue of one item takes a second one over the first. -/
theorem full_queue_overwritten :
    ∃ requests dq, exec dataQueueStep (emptyAt 0) requests = some dq ∧
      rtDataQueueInit 1 0 (some fun _ => item 0) = some (emptyAt 0) ∧
      dq.queue 0 = item 2 ∧
      exec Fifo.step (Fifo.Queue.empty 1)
        (trace dataQueueStep dataQueueEvent (emptyAt 0) requests) = none := by
  obtain ⟨hrun, hqueue⟩ := round_trips 65535
  refine ⟨(List.replicate 65535 [pushRequest (item 0), popRequest]).flatten ++
    [pushRequest (item 1), pushRequest (item 2)], ?_⟩
  rw [exec_append, hrun, trace_append hrun, exec_append, hqueue]
  exact ⟨_, rfl, rfl, rfl, rfl⟩

end FullhanRtos.DataQueue
