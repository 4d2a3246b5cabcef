import FullhanRtos.Lib.Ranges
import FullhanRtos.Lib.Transition
import FullhanRtos.Lib.Word
import Mathlib.Data.List.Nodup
import Mathlib.Data.List.Pairwise

/-!
# The ring block buffer

`rt_rbb_blk_alloc` puts a block behind the last one of the block list, and the free space is what
the first and the last block of the list leave. A block queue is taken off this list while its
memory is still in use, so a later allocation may be put onto it; an allocation on an empty list is
not compared with the size of the buffer; the blocks of a queue need not be adjacent, neither in
memory nor in the set of blocks. `handed_out_ok` says that what is handed out stays apart and inside
the buffer when none of this happens.

Addresses are offsets from the start of the buffer.
-/

namespace FullhanRtos.Ringblk

open Ranges Word Function List Option

/-! ## State -/

/-- `rt_rbb_status_t`. -/
inductive BlkStatus where
  | unused
  | inited
  | put
  | get
  deriving DecidableEq

/-- `struct rt_rbb_blk`. -/
structure Blk where
  status : BlkStatus
  buf : Nat
  size : Nat

/-- The memory of a block. -/
def Blk.span (blk : Blk) : Span := ⟨blk.buf, blk.size⟩

/-- The buffer and the number of blocks in the set. -/
structure Rbb where
  bufSize : Nat
  blkMaxNum : Nat
  bufSize_lt : bufSize < 2 ^ 32

/-- A block queue: its first block, the number of blocks and the length that was returned. -/
structure BlkQueue where
  blocks : Nat
  blkNum : Nat
  size : Nat
  deriving DecidableEq

/-- The set of blocks by index and the block list, with the blocks and the queues that are handed
out and not freed. -/
structure RbbState where
  blkSet : Nat → Blk
  blkList : List Nat
  handed : List Nat
  queues : List BlkQueue

def rtRbbInit (rbb : Rbb) (blockSet : Nat → Blk) : RbbState where
  blkSet i := if i < rbb.blkMaxNum then { blockSet i with status := .unused } else blockSet i
  blkList := []
  handed := []
  queues := []

def RbbState.setStatus (s : RbbState) (i : Nat) (status : BlkStatus) : RbbState :=
  { s with blkSet := update s.blkSet i { s.blkSet i with status } }

/-! ## Operations -/

def findEmptyBlkInSet (rbb : Rbb) (s : RbbState) : Option Nat :=
  (List.range rbb.blkMaxNum).find? fun i => (s.blkSet i).status = .unused

/-- A new block of the list. -/
def RbbState.append (s : RbbState) (new : Nat) (buf size : Nat) : RbbState :=
  { s with
    blkList := s.blkList ++ [new]
    blkSet := update s.blkSet new ⟨.inited, buf, size⟩ }

def rtRbbBlkAlloc (rbb : Rbb) (s : RbbState) (blkSize : Nat) : RbbState × Option Nat :=
  match findEmptyBlkInSet rbb s with
  | none => (s, none)
  | some new =>
    if s.blkList.length < rbb.blkMaxNum then
      match s.blkList.head?, s.blkList.getLast? with
      | some h, some t =>
        let head := s.blkSet h
        let tail := s.blkSet t
        if head.buf ≤ tail.buf then
          let empty1 := sub32 rbb.bufSize (add32 tail.buf tail.size)
          let empty2 := head.buf
          if blkSize ≤ empty1 then
            (s.append new (add32 tail.buf tail.size) blkSize, some new)
          else if blkSize ≤ empty2 then (s.append new 0 blkSize, some new)
          else (s, none)
        else
          let empty1 := sub32 head.buf (add32 tail.buf tail.size)
          if blkSize ≤ empty1 then
            (s.append new (add32 tail.buf tail.size) blkSize, some new)
          else (s, none)
      | _, _ => (s.append new 0 blkSize, some new)
    else (s, none)

def rtRbbBlkGet (s : RbbState) : RbbState × Option Nat :=
  match s.blkList.find? fun i => (s.blkSet i).status = .put with
  | some i => (s.setStatus i .get, some i)
  | none => (s, none)

def rtRbbBlkFree (s : RbbState) (i : Nat) : Option RbbState :=
  if (s.blkSet i).status ≠ .unused then
    some { s.setStatus i .unused with blkList := s.blkList.erase i }
  else none

/-- The variables of `rt_rbb_blk_queue_get` and the queue that it fills, with the blocks that it
took. -/
structure QueueGet where
  state : RbbState
  taken : List Nat
  lastBlock : Option Nat
  dataTotalSize : Nat
  blocks : Nat
  blkNum : Nat

/-- The end of the loop body: a block is taken off the list. -/
def QueueGet.take (q : QueueGet) (i : Nat) : QueueGet where
  state := { q.state.setStatus i .get with blkList := q.state.blkList.erase i }
  taken := q.taken ++ [i]
  lastBlock := some i
  dataTotalSize := q.dataTotalSize + (q.state.blkSet i).size
  blocks := q.blocks
  blkNum := q.blkNum + 1

def queueGetLoop (queueDataLen : Nat) (q : QueueGet) : List Nat → QueueGet
  | [] => q
  | i :: nodes =>
    match q.lastBlock with
    | none =>
      if (q.state.blkSet i).status = .put then
        queueGetLoop queueDataLen ({ q with blocks := i, blkNum := 0 }.take i) nodes
      else queueGetLoop queueDataLen q nodes
    | some last =>
      if (q.state.blkSet i).status ≠ .put ∨
          (q.state.blkSet last).buf > (q.state.blkSet i).buf ∨
          q.dataTotalSize + (q.state.blkSet i).size > queueDataLen then q
      else queueGetLoop queueDataLen (q.take i) nodes

def rtRbbBlkQueueGet (s : RbbState) (queueDataLen : Nat) : QueueGet :=
  queueGetLoop queueDataLen ⟨s, [], none, 0, 0, 0⟩ s.blkList

def rtRbbBlkQueueFree (s : RbbState) (queue : BlkQueue) : Option RbbState :=
  (range' queue.blocks queue.blkNum).foldlM rtRbbBlkFree s

/-! ## Requests -/

/-- The calls. What is put or freed is handed out. -/
inductive Request where
  | alloc (blkSize : Nat) (hpos : 0 < blkSize)
  | put (i : Nat)
  | get
  | free (i : Nat)
  | queueGet (queueDataLen : Nat)
  | queueFree (queue : BlkQueue)

/-- A queue that took blocks is handed out in their place. -/
def handQueue (s : RbbState) (q : QueueGet) : RbbState :=
  match q.lastBlock with
  | none => q.state
  | some _ =>
    { q.state with
      handed := s.handed.diff q.taken
      queues := s.queues ++ [⟨q.blocks, q.blkNum, q.dataTotalSize⟩] }

def rbbStep (rbb : Rbb) (s : RbbState) : Request → Option RbbState
  | .alloc blkSize _ =>
    if blkSize < 2 ^ 24 then
      let (s', new) := rtRbbBlkAlloc rbb s blkSize
      some { s' with handed := s.handed ++ new.toList }
    else none
  | .put i =>
    if i ∈ s.handed ∧ (s.blkSet i).status = .inited then some (s.setStatus i .put) else none
  | .get => some (rtRbbBlkGet s).1
  | .free i =>
    if i ∈ s.handed then
      (rtRbbBlkFree s i).map fun s' => { s' with handed := s.handed.erase i }
    else none
  | .queueGet queueDataLen => some (handQueue s (rtRbbBlkQueueGet s queueDataLen))
  | .queueFree queue =>
    if queue ∈ s.queues then
      (rtRbbBlkQueueFree s queue).map fun s' => { s' with queues := s.queues.erase queue }
    else none

/-! ## The property and its condition -/

/-- The memory of a queue, from its first block on. -/
def queueSpan (s : RbbState) (queue : BlkQueue) : Span :=
  ⟨(s.blkSet queue.blocks).buf, queue.size⟩

/-- The memory that is handed out. -/
def spans (s : RbbState) : List Span :=
  s.handed.map (fun i => (s.blkSet i).span) ++ s.queues.map (queueSpan s)

structure HandedOk (rbb : Rbb) (s : RbbState) : Prop where
  apart : (spans s).Pairwise Apart
  inside : ∀ r ∈ spans s, r.stop ≤ rbb.bufSize

/-- No queue that is handed out has memory in the range. -/
def FreeOfQueues (s : RbbState) (r : Span) : Prop := ∀ queue ∈ s.queues, Apart (queueSpan s queue) r

/-- On an empty list the block fits the buffer. No queue has memory where it is put: behind the last
block of the list, or at the start of the buffer. -/
def PlaceOk (rbb : Rbb) (s : RbbState) (blkSize : Nat) : Prop :=
  match s.blkList.head?, s.blkList.getLast? with
  | some h, some t =>
    let head := s.blkSet h
    let tail := s.blkSet t
    if head.buf ≤ tail.buf then
      if tail.span.stop + blkSize ≤ rbb.bufSize then FreeOfQueues s ⟨tail.span.stop, blkSize⟩
      else blkSize ≤ head.buf → FreeOfQueues s ⟨0, blkSize⟩
    else tail.span.stop + blkSize ≤ head.buf → FreeOfQueues s ⟨tail.span.stop, blkSize⟩
  | _, _ => blkSize ≤ rbb.bufSize ∧ FreeOfQueues s ⟨0, blkSize⟩

/-- The condition on an allocation that finds an entry for its block. -/
def AllocOk (rbb : Rbb) (s : RbbState) (blkSize : Nat) : Prop :=
  (findEmptyBlkInSet rbb s).isSome → s.blkList.length < rbb.blkMaxNum → PlaceOk rbb s blkSize

/-- The blocks that follow a taken block into the queue. -/
def takenBehind (s : RbbState) (queueDataLen : Nat) : Nat → Nat → List Nat → List Nat
  | _, _, [] => []
  | last, total, i :: nodes =>
    if (s.blkSet i).status = .put ∧ (s.blkSet last).buf ≤ (s.blkSet i).buf ∧
        total + (s.blkSet i).size ≤ queueDataLen then
      i :: takenBehind s queueDataLen i (total + (s.blkSet i).size) nodes
    else []

/-- The blocks at the front of a list of nodes that go into a queue. -/
def takenFrom (s : RbbState) (queueDataLen : Nat) : List Nat → List Nat
  | [] => []
  | i :: nodes =>
    if (s.blkSet i).status = .put then
      i :: takenBehind s queueDataLen i (s.blkSet i).size nodes
    else takenFrom s queueDataLen nodes

/-- The blocks are adjacent in the set and in memory. -/
def Adjacent (s : RbbState) : List Nat → Prop
  | [] => True
  | i :: blocks =>
    i :: blocks = range' i (blocks.length + 1) ∧
      Joined (s.blkSet i).buf ((i :: blocks).map fun j => (s.blkSet j).span)

def RequestOk (rbb : Rbb) (s : RbbState) : Request → Prop
  | .alloc blkSize _ => AllocOk rbb s blkSize
  | .queueGet queueDataLen => Adjacent s (takenFrom s queueDataLen s.blkList)
  | _ => True

/-- What holds between the calls. -/
structure RbbInv (rbb : Rbb) (s : RbbState) : Prop where
  handed : s.handed = s.blkList
  circular : Circular rbb.bufSize (s.blkList.map fun i => (s.blkSet i).span)
  nodup : (s.blkList ++ s.queues.flatMap fun q => range' q.blocks q.blkNum).Nodup
  used : ∀ i ∈ s.blkList, (s.blkSet i).status ≠ .unused ∧ 0 < (s.blkSet i).size
  queued : ∀ q ∈ s.queues, 0 < q.blkNum ∧ 0 < q.size ∧
    ∀ i ∈ range' q.blocks q.blkNum, (s.blkSet i).status ≠ .unused

variable {rbb : Rbb} {s s' : RbbState} {i j queueDataLen : Nat} {status : BlkStatus}
  {q : QueueGet} {taken nodes : List Nat}

/-! ## Changes of the status -/

@[simp] theorem set_status_span (s : RbbState) (i j : Nat) (status : BlkStatus) :
    ((s.setStatus i status).blkSet j).span = (s.blkSet j).span := by
  by_cases h : j = i
  · subst h
    simp [RbbState.setStatus, Blk.span]
  · simp [RbbState.setStatus, h]

theorem set_status_size (s : RbbState) (i j : Nat) (status : BlkStatus) :
    ((s.setStatus i status).blkSet j).size = (s.blkSet j).size :=
  congrArg Span.size (set_status_span s i j status)

theorem set_status_buf (s : RbbState) (i j : Nat) (status : BlkStatus) :
    ((s.setStatus i status).blkSet j).buf = (s.blkSet j).buf :=
  congrArg Span.start (set_status_span s i j status)

theorem set_status_of_ne (h : j ≠ i) : (s.setStatus i status).blkSet j = s.blkSet j :=
  update_of_ne h _ _

theorem set_status_self : ((s.setStatus i status).blkSet i).status = status := by
  simp [RbbState.setStatus]

/-- The memory that is handed out depends on the places of the blocks. -/
theorem spans_congr (hspan : ∀ j, (s'.blkSet j).span = (s.blkSet j).span) :
    spans s' = s'.handed.map (fun i => (s.blkSet i).span) ++ s'.queues.map (queueSpan s) := by
  have hqueue : queueSpan s' = queueSpan s := by
    funext queue
    have hbuf : (s'.blkSet queue.blocks).buf = (s.blkSet queue.blocks).buf :=
      congrArg Span.start (hspan queue.blocks)
    simp only [queueSpan, hbuf]
  simp only [spans, hspan, hqueue]

/-- Less memory is handed out. -/
theorem spans_sublist (hspan : ∀ j, (s'.blkSet j).span = (s.blkSet j).span)
    (hhanded : s'.handed.Sublist s.handed) (hqueues : s'.queues.Sublist s.queues) :
    (spans s').Sublist (spans s) := by
  rw [spans_congr hspan]
  exact (hhanded.map _).append (hqueues.map _)

/-- A block stays in use. -/
theorem set_status_ok (hinv : RbbInv rbb s) (hok : HandedOk rbb s) (i : Nat)
    (hused : status ≠ .unused) :
    RbbInv rbb (s.setStatus i status) ∧ HandedOk rbb (s.setStatus i status) := by
  have hspans : spans (s.setStatus i status) = spans s :=
    spans_congr fun j => set_status_span s i j status
  have hstatus : ∀ j, (s.blkSet j).status ≠ .unused →
      ((s.setStatus i status).blkSet j).status ≠ .unused := by
    intro j hj
    by_cases h : j = i
    · subst h
      rwa [set_status_self]
    · rwa [set_status_of_ne h]
  refine ⟨⟨hinv.handed, ?_, hinv.nodup, fun j hj => ?_, fun q hq => ?_⟩, ?_, ?_⟩
  · show Circular rbb.bufSize (s.blkList.map fun j => ((s.setStatus i status).blkSet j).span)
    simpa using hinv.circular
  · have hold := hinv.used j hj
    exact ⟨hstatus j hold.1, by rw [set_status_size]; exact hold.2⟩
  · obtain ⟨hnum, hsize, hall⟩ := hinv.queued q hq
    exact ⟨hnum, hsize, fun j hj => hstatus j (hall j hj)⟩
  · rw [hspans]
    exact hok.apart
  · rw [hspans]
    exact hok.inside

/-! ## Allocation -/

/-- The block that is found is not in use. -/
theorem find_empty_spec (h : findEmptyBlkInSet rbb s = some i) : (s.blkSet i).status = .unused := by
  have hfound := find?_some h
  exact of_decide_eq_true hfound

theorem append_self (s : RbbState) (i buf size : Nat) :
    (s.append i buf size).blkSet i = ⟨.inited, buf, size⟩ :=
  update_self _ _ _

theorem append_of_ne (s : RbbState) (buf size : Nat) (h : j ≠ i) :
    (s.append i buf size).blkSet j = s.blkSet j :=
  update_of_ne h _ _

theorem not_mem_of_unused (hinv : RbbInv rbb s) (hunused : (s.blkSet i).status = .unused) :
    i ∉ s.blkList ∧ ∀ q ∈ s.queues, i ∉ range' q.blocks q.blkNum :=
  ⟨fun hi => (hinv.used i hi).1 hunused, fun q hq hi => (hinv.queued q hq).2.2 i hi hunused⟩

theorem blocks_mem (hinv : RbbInv rbb s) {q : BlkQueue} (hq : q ∈ s.queues) :
    q.blocks ∈ range' q.blocks q.blkNum :=
  mem_range'.mpr ⟨0, (hinv.queued q hq).1, rfl⟩

theorem spans_eq (hinv : RbbInv rbb s) :
    spans s = s.blkList.map (fun j => (s.blkSet j).span) ++ s.queues.map (queueSpan s) := by
  rw [spans, hinv.handed]

theorem append_inv (hinv : RbbInv rbb s) {buf size : Nat}
    (hunused : (s.blkSet i).status = .unused) (hpos : 0 < size)
    (hcircular : Circular rbb.bufSize
      (s.blkList.map (fun j => (s.blkSet j).span) ++ [⟨buf, size⟩])) :
    RbbInv rbb { s.append i buf size with handed := s.handed ++ [i] } ∧
      spans { s.append i buf size with handed := s.handed ++ [i] } =
        s.blkList.map (fun j => (s.blkSet j).span) ++ [⟨buf, size⟩] ++
          s.queues.map (queueSpan s) := by
  obtain ⟨hlist, hqueues⟩ := not_mem_of_unused hinv hunused
  have hold : ∀ j ∈ s.blkList, (s.append i buf size).blkSet j = s.blkSet j := by
    intro j hj
    exact append_of_ne s buf size fun heq => hlist (heq ▸ hj)
  have hmap : (s.blkList ++ [i]).map (fun j => ((s.append i buf size).blkSet j).span) =
      s.blkList.map (fun j => (s.blkSet j).span) ++ [⟨buf, size⟩] := by
    have hfront : s.blkList.map (fun j => ((s.append i buf size).blkSet j).span) =
        s.blkList.map (fun j => (s.blkSet j).span) :=
      map_congr_left fun j hj => by rw [hold j hj]
    rw [map_append, hfront, map_singleton, append_self]
    rfl
  have hinv' : RbbInv rbb { s.append i buf size with handed := s.handed ++ [i] } := by
    refine ⟨?_, ?_, ?_, fun j hj => ?_, fun q hq => ?_⟩
    · show s.handed ++ [i] = s.blkList ++ [i]
      rw [hinv.handed]
    · show Circular rbb.bufSize ((s.blkList ++ [i]).map _)
      rw [hmap]
      exact hcircular
    · show (s.blkList ++ [i] ++ s.queues.flatMap _).Nodup
      rw [append_assoc, singleton_append, nodup_middle, nodup_cons]
      refine ⟨?_, hinv.nodup⟩
      simpa [hlist] using hqueues
    · show ((s.append i buf size).blkSet j).status ≠ _ ∧ 0 < ((s.append i buf size).blkSet j).size
      rcases mem_append.mp hj with hj | hj
      · rw [hold j hj]
        exact hinv.used j hj
      · obtain rfl := mem_singleton.mp hj
        rw [append_self]
        exact ⟨nofun, hpos⟩
    · obtain ⟨hnum, hsize, hall⟩ := hinv.queued q hq
      refine ⟨hnum, hsize, fun j hj => ?_⟩
      show ((s.append i buf size).blkSet j).status ≠ _
      rw [append_of_ne s buf size fun heq : j = i => hqueues q hq (heq ▸ hj)]
      exact hall j hj
  refine ⟨hinv', ?_⟩
  have hqueue : s.queues.map (queueSpan { s.append i buf size with handed := s.handed ++ [i] }) =
      s.queues.map (queueSpan s) := by
    refine map_congr_left fun q hq => ?_
    have hne : q.blocks ≠ i := fun heq => hqueues q hq (heq ▸ blocks_mem hinv hq)
    show Span.mk ((s.append i buf size).blkSet q.blocks).buf q.size = queueSpan s q
    rw [append_of_ne s buf size hne]
    rfl
  rw [spans_eq hinv']
  show (s.blkList ++ [i]).map _ ++ s.queues.map _ = _
  rw [hqueue, hmap]

/-- Where no queue has memory, the new block is apart from what is handed out. -/
theorem append_ok (hinv : RbbInv rbb s) (hok : HandedOk rbb s) {buf size : Nat}
    (hunused : (s.blkSet i).status = .unused) (hpos : 0 < size)
    (hcircular : Circular rbb.bufSize
      (s.blkList.map (fun j => (s.blkSet j).span) ++ [⟨buf, size⟩]))
    (hfree : FreeOfQueues s ⟨buf, size⟩) :
    RbbInv rbb { s.append i buf size with handed := s.handed ++ [i] } ∧
      HandedOk rbb { s.append i buf size with handed := s.handed ++ [i] } := by
  obtain ⟨hinv', hspans⟩ := append_inv hinv hunused hpos hcircular
  have holdspans := spans_eq hinv
  obtain ⟨-, hqueues, hcross⟩ := pairwise_append.mp (holdspans ▸ hok.apart)
  refine ⟨hinv', ?_, ?_⟩
  · rw [hspans]
    refine pairwise_append.mpr ⟨hcircular.pairwise, hqueues, fun r hr r' hr' => ?_⟩
    rcases mem_append.mp hr with hr | hr
    · exact hcross r hr r' hr'
    · obtain rfl := mem_singleton.mp hr
      obtain ⟨q, hq, rfl⟩ := List.mem_map.mp hr'
      exact (hfree q hq).symm
  · rw [hspans]
    intro r hr
    rcases mem_append.mp hr with hr | hr
    · exact hcircular.inside hr
    · exact hok.inside r (holdspans ▸ mem_append_right _ hr)

theorem alloc_place (hinv : RbbInv rbb s) {blkSize new h t : Nat}
    (hempty : findEmptyBlkInSet rbb s = some new) (hroom : s.blkList.length < rbb.blkMaxNum)
    (hhead : s.blkList.head? = some h) (hlast : s.blkList.getLast? = some t) :
    rtRbbBlkAlloc rbb s blkSize =
      if (s.blkSet h).buf ≤ (s.blkSet t).buf then
        if (s.blkSet t).span.stop + blkSize ≤ rbb.bufSize then
          (s.append new (s.blkSet t).span.stop blkSize, some new)
        else if blkSize ≤ (s.blkSet h).buf then (s.append new 0 blkSize, some new)
        else (s, none)
      else if (s.blkSet t).span.stop + blkSize ≤ (s.blkSet h).buf then
        (s.append new (s.blkSet t).span.stop blkSize, some new)
      else (s, none) := by
  have hsize := rbb.bufSize_lt
  have hmem : t ∈ s.blkList := mem_of_getLast? hlast
  have hinside : (s.blkSet t).span.stop ≤ rbb.bufSize :=
    hinv.circular.inside (List.mem_map_of_mem hmem)
  have hhmem : h ∈ s.blkList := mem_of_head? hhead
  have hhinside : (s.blkSet h).span.stop ≤ rbb.bufSize :=
    hinv.circular.inside (List.mem_map_of_mem hhmem)
  have hend : add32 (s.blkSet t).buf (s.blkSet t).size = (s.blkSet t).span.stop :=
    add32_eq (Nat.lt_of_le_of_lt hinside hsize)
  rw [rtRbbBlkAlloc, hempty]
  dsimp only
  rw [if_pos hroom, hhead, hlast]
  dsimp only
  rw [hend, sub32_eq hinside hsize]
  by_cases hle : (s.blkSet h).buf ≤ (s.blkSet t).buf
  · have hfit : blkSize ≤ rbb.bufSize - (s.blkSet t).span.stop ↔
        (s.blkSet t).span.stop + blkSize ≤ rbb.bufSize := by omega
    rw [if_pos hle, if_pos hle]
    simp only [hfit]
  · -- The list has run over the end, so that its last block ends before its first one.
    have hover : (s.blkSet t).span.stop ≤ (s.blkSet h).buf := by
      have hhead' : (s.blkList.map fun j => (s.blkSet j).span).head? = some (s.blkSet h).span := by
        rw [head?_map, hhead, map_some]
      have hlast' : (s.blkList.map fun j => (s.blkSet j).span).getLast? =
          some (s.blkSet t).span := by
        rw [getLast?_map, hlast, map_some]
      rcases hinv.circular.split hhead' hlast' with hasc | ⟨upper, lower, -, -, -, hover⟩
      · exact absurd (hasc.head_le_last hhead' hlast') hle
      · exact hover
    have hlt : (s.blkSet h).buf < 2 ^ 32 :=
      Nat.lt_of_le_of_lt (Nat.le_trans (start_le_stop (s.blkSet h).span) hhinside) hsize
    have hfit : blkSize ≤ (s.blkSet h).buf - (s.blkSet t).span.stop ↔
        (s.blkSet t).span.stop + blkSize ≤ (s.blkSet h).buf := by omega
    rw [if_neg hle, if_neg hle, sub32_eq hover hlt]
    simp only [hfit]

/-- An allocation that meets its condition. -/
theorem alloc_ok (hinv : RbbInv rbb s) (hok : HandedOk rbb s) {blkSize : Nat} (hpos : 0 < blkSize)
    (halloc : AllocOk rbb s blkSize) {new : Option Nat}
    (hrun : rtRbbBlkAlloc rbb s blkSize = (s', new)) :
    RbbInv rbb { s' with handed := s.handed ++ new.toList } ∧
      HandedOk rbb { s' with handed := s.handed ++ new.toList } := by
  have hsame : RbbInv rbb { s with handed := s.handed ++ [] } ∧
      HandedOk rbb { s with handed := s.handed ++ [] } := by
    rw [append_nil]
    exact ⟨hinv, hok⟩
  cases hempty : findEmptyBlkInSet rbb s with
  | none =>
    rw [rtRbbBlkAlloc, hempty] at hrun
    cases hrun
    exact hsame
  | some i =>
    have hunused := find_empty_spec hempty
    by_cases hroom : s.blkList.length < rbb.blkMaxNum
    · have hplace : PlaceOk rbb s blkSize := halloc (by rw [hempty]; rfl) hroom
      unfold PlaceOk at hplace
      cases hlist : s.blkList with
      | nil =>
        have hhead : s.blkList.head? = none := by rw [hlist]; rfl
        have hfirst : rtRbbBlkAlloc rbb s blkSize = (s.append i 0 blkSize, some i) := by
          rw [rtRbbBlkAlloc, hempty]
          dsimp only
          rw [if_pos hroom, hhead]
        rw [hfirst] at hrun
        cases hrun
        rw [hhead] at hplace
        refine append_ok hinv hok hunused hpos ?_ hplace.2
        rw [hlist]
        refine Ascending.circular ⟨Nat.zero_le _, ?_⟩
        show 0 + blkSize ≤ rbb.bufSize
        rw [Nat.zero_add]
        exact hplace.1
      | cons h rest =>
        have hhead : s.blkList.head? = some h := by rw [hlist]; rfl
        obtain ⟨t, hlast⟩ : ∃ t, s.blkList.getLast? = some t := by
          rw [hlist]
          exact ⟨_, getLast?_eq_some_getLast (cons_ne_nil h rest)⟩
        have hmem : t ∈ s.blkList := mem_of_getLast? hlast
        have hhead' : (s.blkList.map fun j => (s.blkSet j).span).head? =
            some (s.blkSet h).span := by
          rw [head?_map, hhead, map_some]
        have hlast' : (s.blkList.map fun j => (s.blkSet j).span).getLast? =
            some (s.blkSet t).span := by
          rw [getLast?_map, hlast, map_some]
        have htpos : 0 < (s.blkSet t).span.size := (hinv.used t hmem).2
        rw [alloc_place hinv hempty hroom hhead hlast] at hrun
        rw [hhead, hlast] at hplace
        dsimp only at hplace
        by_cases hle : (s.blkSet h).buf ≤ (s.blkSet t).buf
        · rw [if_pos hle] at hrun hplace
          by_cases hend : (s.blkSet t).span.stop + blkSize ≤ rbb.bufSize
          · rw [if_pos hend] at hrun hplace
            cases hrun
            exact append_ok hinv hok hunused hpos (circular_append_behind hinv.circular hhead'
              hlast' htpos hle (Nat.le_refl _) hend) hplace
          · rw [if_neg hend] at hrun hplace
            by_cases hstart : blkSize ≤ (s.blkSet h).buf
            · rw [if_pos hstart] at hrun
              cases hrun
              refine append_ok hinv hok hunused hpos (circular_append_start hinv.circular
                hhead' hlast' htpos hle ?_) (hplace hstart)
              show 0 + blkSize ≤ (s.blkSet h).buf
              omega
            · rw [if_neg hstart] at hrun
              cases hrun
              exact hsame
        · rw [if_neg hle] at hrun hplace
          by_cases hgap : (s.blkSet t).span.stop + blkSize ≤ (s.blkSet h).buf
          · rw [if_pos hgap] at hrun
            cases hrun
            exact append_ok hinv hok hunused hpos (circular_append_wrapped hinv.circular hhead'
              hlast' (Nat.lt_of_not_le hle) (Nat.le_refl _) hgap) (hplace hgap)
          · rw [if_neg hgap] at hrun
            cases hrun
            exact hsame
    · rw [rtRbbBlkAlloc, hempty] at hrun
      dsimp only at hrun
      rw [if_neg hroom] at hrun
      cases hrun
      exact hsame

/-! ## Freeing -/

theorem RbbInv.list_nodup (hinv : RbbInv rbb s) : s.blkList.Nodup :=
  (nodup_append.mp hinv.nodup).1

theorem RbbInv.not_queued (hinv : RbbInv rbb s) (hi : i ∈ s.blkList) {queue : BlkQueue}
    (hqueue : queue ∈ s.queues) : i ∉ range' queue.blocks queue.blkNum := fun hmem =>
  (nodup_append.mp hinv.nodup).2.2 i hi i (mem_flatMap.mpr ⟨queue, hqueue, hmem⟩) rfl

/-- Where less memory is handed out it stays apart. -/
theorem HandedOk.sublist (hok : HandedOk rbb s) (hsub : (spans s').Sublist (spans s)) :
    HandedOk rbb s' :=
  ⟨hok.apart.sublist hsub, fun r hr => hok.inside r (hsub.subset hr)⟩

theorem free_ok (hinv : RbbInv rbb s) (hok : HandedOk rbb s) (hi : i ∈ s.handed)
    (hrun : rtRbbBlkFree s i = some s') :
    RbbInv rbb { s' with handed := s.handed.erase i } ∧
      HandedOk rbb { s' with handed := s.handed.erase i } := by
  obtain ⟨-, hs'⟩ := ite_none_right_eq_some.mp hrun
  obtain rfl := some.inj hs'
  have hi' : i ∈ s.blkList := hinv.handed ▸ hi
  have hne : ∀ j ∈ s.blkList.erase i, j ≠ i := fun j hj heq =>
    (hinv.list_nodup.not_mem_erase) (heq ▸ hj)
  refine ⟨⟨?_, ?_, ?_, fun j hj => ?_, fun queue hqueue => ?_⟩, hok.sublist ?_⟩
  · show s.handed.erase i = s.blkList.erase i
    rw [hinv.handed]
  · show Circular rbb.bufSize ((s.blkList.erase i).map fun j =>
      ((s.setStatus i .unused).blkSet j).span)
    simp only [set_status_span]
    exact hinv.circular.sublist (erase_sublist.map _)
  · exact hinv.nodup.sublist (erase_sublist.append_right _)
  · show ((s.setStatus i .unused).blkSet j).status ≠ _ ∧ 0 < ((s.setStatus i .unused).blkSet j).size
    rw [set_status_of_ne (hne j hj)]
    exact hinv.used j (mem_of_mem_erase hj)
  · obtain ⟨hnum, hsize, hall⟩ := hinv.queued queue hqueue
    refine ⟨hnum, hsize, fun j hj => ?_⟩
    show ((s.setStatus i .unused).blkSet j).status ≠ _
    rw [set_status_of_ne fun heq : j = i => hinv.not_queued hi' hqueue (heq ▸ hj)]
    exact hall j hj
  · exact spans_sublist (fun j => set_status_span s i j .unused) erase_sublist
      (Sublist.refl _)

theorem free_all {blocks : List Nat} (hblocks : ∀ j ∈ blocks, j ∉ s.blkList)
    (hrun : blocks.foldlM rtRbbBlkFree s = some s') :
    s'.blkList = s.blkList ∧ s'.handed = s.handed ∧ s'.queues = s.queues ∧
      (∀ j, (s'.blkSet j).span = (s.blkSet j).span) ∧
      ∀ j, j ∉ blocks → s'.blkSet j = s.blkSet j := by
  induction blocks generalizing s with
  | nil =>
    cases hrun
    exact ⟨rfl, rfl, rfl, fun _ => rfl, fun _ _ => rfl⟩
  | cons i blocks ih =>
    obtain ⟨s1, hfree, hrest⟩ := bind_eq_some_iff.mp hrun
    obtain ⟨-, hs1⟩ := ite_none_right_eq_some.mp hfree
    obtain rfl := some.inj hs1
    have herase : s.blkList.erase i = s.blkList := erase_of_not_mem (hblocks i mem_cons_self)
    rw [herase] at hrest
    obtain ⟨hlist, hhanded, hqueues, hspan, hother⟩ :=
      ih (s := { s.setStatus i .unused with blkList := s.blkList })
        (fun j hj => hblocks j (mem_cons_of_mem i hj)) hrest
    refine ⟨hlist, hhanded, hqueues, fun j => ?_, fun j hj => ?_⟩
    · exact (hspan j).trans (set_status_span s i j .unused)
    · obtain ⟨hne, hj'⟩ := not_or.mp (fun h => hj (mem_cons.mpr h))
      exact (hother j hj').trans (set_status_of_ne hne)

theorem queue_free_ok (hinv : RbbInv rbb s) (hok : HandedOk rbb s) {queue : BlkQueue}
    (hqueue : queue ∈ s.queues) (hrun : rtRbbBlkQueueFree s queue = some s') :
    RbbInv rbb { s' with queues := s.queues.erase queue } ∧
      HandedOk rbb { s' with queues := s.queues.erase queue } := by
  have hlist : ∀ j ∈ range' queue.blocks queue.blkNum, j ∉ s.blkList :=
    fun j hj hmem => hinv.not_queued hmem hqueue hj
  obtain ⟨hblkList, hhanded, -, hspan, hother⟩ := free_all hlist hrun
  have hnodup := hinv.nodup
  rw [((perm_cons_erase hqueue).flatMap_right _).append_left _ |>.nodup_iff, flatMap_cons] at hnodup
  obtain ⟨hfirst, hrest, hcross⟩ := nodup_append.mp hnodup
  refine ⟨⟨?_, ?_, ?_, fun j hj => ?_, fun queue' hqueue' => ?_⟩, hok.sublist ?_⟩
  · show s'.handed = s'.blkList
    rw [hhanded, hblkList]
    exact hinv.handed
  · show Circular rbb.bufSize (s'.blkList.map fun j => (s'.blkSet j).span)
    simp only [hspan, hblkList]
    exact hinv.circular
  · show (s'.blkList ++ (s.queues.erase queue).flatMap _).Nodup
    rw [hblkList]
    exact hnodup.sublist ((sublist_append_right _ _).append_left _)
  · show (s'.blkSet j).status ≠ _ ∧ 0 < (s'.blkSet j).size
    have hj' : j ∈ s.blkList := by rw [← hblkList]; exact hj
    rw [hother j fun hmem => hlist j hmem hj']
    exact hinv.used j hj'
  · have hmem : queue' ∈ s.queues := mem_of_mem_erase hqueue'
    obtain ⟨hnum, hsize, hall⟩ := hinv.queued queue' hmem
    refine ⟨hnum, hsize, fun j hj => ?_⟩
    show (s'.blkSet j).status ≠ _
    have hapart : j ∉ range' queue.blocks queue.blkNum := fun hboth =>
      (nodup_append.mp hrest).2.2 j hboth j (mem_flatMap.mpr ⟨queue', hqueue', hj⟩) rfl
    rw [hother j hapart]
    exact hall j hj
  · exact spans_sublist hspan (by rw [hhanded]) erase_sublist

/-! ## Taking a queue -/

/-- What is left when blocks are taken off the list. -/
structure Took (q q' : QueueGet) (taken : List Nat) : Prop where
  list : q'.state.blkList = q.state.blkList.diff taken
  handed : q'.state.handed = q.state.handed
  queues : q'.state.queues = q.state.queues
  span : ∀ j, (q'.state.blkSet j).span = (q.state.blkSet j).span
  used : ∀ j, (q.state.blkSet j).status ≠ .unused → (q'.state.blkSet j).status ≠ .unused
  log : q'.taken = q.taken ++ taken
  last : q'.lastBlock.isSome ∨ taken = []
  total : q'.dataTotalSize = q.dataTotalSize + (taken.map fun j => (q.state.blkSet j).size).sum
  blocks : q'.blocks = q.blocks
  num : q'.blkNum = q.blkNum + taken.length

theorem take_all (q : QueueGet) (taken : List Nat) :
    Took q (taken.foldl QueueGet.take q) taken := by
  induction taken generalizing q with
  | nil => exact ⟨rfl, rfl, rfl, fun _ => rfl, fun _ => id, (append_nil _).symm, .inr rfl,
      rfl, rfl, rfl⟩
  | cons i taken ih =>
    have hrest := ih (q.take i)
    have hsizes : (taken.map fun j => ((q.take i).state.blkSet j).size) =
        taken.map fun j => (q.state.blkSet j).size :=
      map_congr_left fun j _ => set_status_size q.state i j .get
    refine ⟨?_, hrest.handed, hrest.queues, fun j => ?_, fun j hj => ?_, ?_, ?_, ?_,
      hrest.blocks, ?_⟩
    · exact hrest.list.trans (diff_cons _ _ _).symm
    · exact (hrest.span j).trans (set_status_span q.state i j .get)
    · refine hrest.used j ?_
      show ((q.state.setStatus i .get).blkSet j).status ≠ _
      by_cases heq : j = i
      · subst heq
        rw [set_status_self]
        exact nofun
      · rwa [set_status_of_ne heq]
    · exact hrest.log.trans (append_assoc q.taken [i] taken)
    · left
      rcases hrest.last with hsome | rfl
      · exact hsome
      · rfl
    · rw [foldl_cons, hrest.total, hsizes, map_cons, sum_cons]
      exact Nat.add_assoc _ _ _
    · rw [foldl_cons, hrest.num, length_cons]
      show q.blkNum + 1 + taken.length = _
      omega

theorem queue_loop_behind {last : Nat} (hlast : q.lastBlock = some last)
    (hsame : ∀ i ∈ nodes, q.state.blkSet i = s.blkSet i)
    (hbuf : (q.state.blkSet last).buf = (s.blkSet last).buf) (hnodup : nodes.Nodup) :
    queueGetLoop queueDataLen q nodes =
      (takenBehind s queueDataLen last q.dataTotalSize nodes).foldl QueueGet.take q := by
  induction nodes generalizing q last with
  | nil => rfl
  | cons i nodes ih =>
    have hi := hsame i mem_cons_self
    obtain ⟨hnot, hnodup'⟩ := nodup_cons.mp hnodup
    rw [queueGetLoop, hlast]
    dsimp only
    rw [hi, hbuf, takenBehind]
    by_cases htake : (s.blkSet i).status = .put ∧ (s.blkSet last).buf ≤ (s.blkSet i).buf ∧
        q.dataTotalSize + (s.blkSet i).size ≤ queueDataLen
    · obtain ⟨hput, hle, hfit⟩ := htake
      have hgo : ¬ ((s.blkSet i).status ≠ .put ∨ (s.blkSet last).buf > (s.blkSet i).buf ∨
          q.dataTotalSize + (s.blkSet i).size > queueDataLen) := by
        rintro (hne | hgt | hgt)
        · exact hne hput
        · omega
        · omega
      rw [if_neg hgo, if_pos ⟨hput, hle, hfit⟩, foldl_cons]
      have hnext : (q.take i).dataTotalSize = q.dataTotalSize + (s.blkSet i).size := by
        rw [← hi]
        rfl
      rw [← hnext]
      refine ih rfl (fun j hj => ?_) ?_ hnodup'
      · have hne : j ≠ i := fun heq => hnot (heq ▸ hj)
        exact (set_status_of_ne hne).trans (hsame j (mem_cons_of_mem i hj))
      · exact (set_status_buf q.state i i .get).trans (by rw [hi])
    · have hstop : (s.blkSet i).status ≠ .put ∨ (s.blkSet last).buf > (s.blkSet i).buf ∨
          q.dataTotalSize + (s.blkSet i).size > queueDataLen := by
        by_contra hgo
        obtain ⟨hput, hrest⟩ := not_or.mp hgo
        exact htake ⟨not_not.mp hput, by omega, by omega⟩
      rw [if_pos hstop, if_neg htake]
      rfl

theorem queue_loop (hnone : q.lastBlock = none) (hzero : q.dataTotalSize = 0)
    (hsame : q.state.blkSet = s.blkSet) (hnodup : nodes.Nodup) :
    queueGetLoop queueDataLen q nodes =
      match takenFrom s queueDataLen nodes with
      | [] => q
      | i :: taken => (i :: taken).foldl QueueGet.take { q with blocks := i, blkNum := 0 } := by
  induction nodes with
  | nil => rfl
  | cons i nodes ih =>
    obtain ⟨hnot, hnodup'⟩ := nodup_cons.mp hnodup
    rw [queueGetLoop, hnone, takenFrom]
    rw [hsame]
    by_cases hput : (s.blkSet i).status = .put
    · rw [if_pos hput, if_pos hput]
      have hnext : ({ q with blocks := i, blkNum := 0 }.take i).dataTotalSize =
          (s.blkSet i).size := by
        show q.dataTotalSize + (q.state.blkSet i).size = _
        rw [hzero, hsame, Nat.zero_add]
      rw [← hnext]
      refine queue_loop_behind rfl (fun j hj => ?_) ?_ hnodup'
      · have hne : j ≠ i := fun heq => hnot (heq ▸ hj)
        exact (set_status_of_ne hne).trans (by rw [hsame])
      · exact (set_status_buf q.state i i .get).trans (by rw [hsame])
    · rw [if_neg hput, if_neg hput]
      exact ih hnodup'

theorem taken_behind_sublist (s : RbbState) (queueDataLen last total : Nat) (nodes : List Nat) :
    (takenBehind s queueDataLen last total nodes).Sublist nodes := by
  induction nodes generalizing last total with
  | nil => exact Sublist.refl _
  | cons i nodes ih =>
    rw [takenBehind]
    split
    · exact (ih i _).cons_cons i
    · exact nil_sublist _

theorem taken_from_sublist (s : RbbState) (queueDataLen : Nat) (nodes : List Nat) :
    (takenFrom s queueDataLen nodes).Sublist nodes := by
  induction nodes with
  | nil => exact Sublist.refl _
  | cons i nodes ih =>
    rw [takenFrom]
    split
    · exact (taken_behind_sublist s queueDataLen i _ nodes).cons_cons i
    · exact ih.cons i

def queueOf (s : RbbState) (i : Nat) (taken : List Nat) : BlkQueue :=
  ⟨i, (i :: taken).length, ((i :: taken).map fun j => (s.blkSet j).size).sum⟩

structure HandedQueue (s s' : RbbState) (i : Nat) (taken : List Nat) : Prop where
  list : s'.blkList = s.blkList.diff (i :: taken)
  handed : s'.handed = s.handed.diff (i :: taken)
  queues : s'.queues = s.queues ++ [queueOf s i taken]
  span : ∀ j, (s'.blkSet j).span = (s.blkSet j).span
  used : ∀ j, (s.blkSet j).status ≠ .unused → (s'.blkSet j).status ≠ .unused

theorem hand_queue_spec {q' : QueueGet}
    (htook : Took ⟨s, [], none, 0, i, 0⟩ q' (i :: taken)) :
    HandedQueue s (handQueue s q') i taken := by
  obtain ⟨last, hlast⟩ : ∃ last, q'.lastBlock = some last :=
    isSome_iff_exists.mp (htook.last.resolve_right (cons_ne_nil i taken))
  have hlog : q'.taken = i :: taken := htook.log
  have htotal : q'.dataTotalSize = ((i :: taken).map fun j => (s.blkSet j).size).sum :=
    htook.total.trans (Nat.zero_add _)
  have hnum : q'.blkNum = (i :: taken).length := htook.num.trans (Nat.zero_add _)
  have hblocks : q'.blocks = i := htook.blocks
  rw [handQueue, hlast]
  rw [hlog, htotal, hnum, hblocks]
  exact ⟨htook.list, rfl, rfl, htook.span, htook.used⟩

/-- A queue of adjacent blocks takes the place of its blocks. -/
theorem hand_queue_inv (hinv : RbbInv rbb s) (hsub : (i :: taken).Sublist s.blkList)
    (hadjacent : Adjacent s (i :: taken)) (hqueue : HandedQueue s s' i taken) :
    RbbInv rbb s' := by
  obtain ⟨hlistNodup, hqueuesNodup, hcross⟩ := nodup_append.mp hinv.nodup
  have hmem : ∀ j ∈ i :: taken, j ∈ s.blkList := fun j hj => hsub.subset hj
  have hleft : ∀ j ∈ s.blkList.diff (i :: taken), j ∈ s.blkList ∧ j ∉ i :: taken :=
    fun j hj => hlistNodup.mem_sdiff_iff.mp hj
  have hentries : range' (queueOf s i taken).blocks (queueOf s i taken).blkNum =
      i :: taken := hadjacent.1.symm
  refine ⟨?_, ?_, ?_, fun j hj => ?_, fun queue hmemq => ?_⟩
  · rw [hqueue.handed, hqueue.list, hinv.handed]
  · simp only [hqueue.span, hqueue.list]
    exact hinv.circular.sublist ((diff_sublist _ _).map _)
  · rw [hqueue.list, hqueue.queues, flatMap_append, flatMap_singleton, hentries]
    refine nodup_append.mpr ⟨hlistNodup.sublist (diff_sublist _ _),
      nodup_append.mpr ⟨hqueuesNodup, hlistNodup.sublist hsub, fun j hj k hk heq => ?_⟩,
      fun j hj k hk heq => ?_⟩
    · exact hcross k (hmem k hk) j hj heq.symm
    · obtain ⟨hold, hout⟩ := hleft j hj
      rcases mem_append.mp hk with hk | hk
      · exact hcross j hold k hk heq
      · exact hout (heq ▸ hk)
  · rw [hqueue.list] at hj
    obtain ⟨hused, hsize⟩ := hinv.used j (hleft j hj).1
    have hspan := congrArg Span.size (hqueue.span j)
    exact ⟨hqueue.used j hused, Nat.lt_of_lt_of_eq hsize hspan.symm⟩
  · rw [hqueue.queues] at hmemq
    rcases mem_append.mp hmemq with hmemq | hmemq
    · obtain ⟨hnum, hsize, hall⟩ := hinv.queued queue hmemq
      exact ⟨hnum, hsize, fun j hj => hqueue.used j (hall j hj)⟩
    · obtain rfl := mem_singleton.mp hmemq
      refine ⟨Nat.succ_pos _, ?_, fun j hj => ?_⟩
      · show 0 < ((i :: taken).map fun j => (s.blkSet j).size).sum
        have hfirst := (hinv.used i (hmem i mem_cons_self)).2
        rw [map_cons, sum_cons]
        omega
      · rw [hentries] at hj
        exact hqueue.used j (hinv.used j (hmem j hj)).1

theorem hand_queue_ok (hinv : RbbInv rbb s) (hok : HandedOk rbb s)
    (hsub : (i :: taken).Sublist s.blkList) (hadjacent : Adjacent s (i :: taken))
    (hqueue : HandedQueue s s' i taken) : HandedOk rbb s' := by
  let parts := (i :: taken).map fun j => (s.blkSet j).span
  have hspans : spans s' = (s.blkList.diff (i :: taken)).map (fun j => (s.blkSet j).span) ++
      (s.queues.map (queueSpan s) ++ [whole (s.blkSet i).buf parts]) := by
    rw [spans_congr hqueue.span, hqueue.handed, hqueue.queues, hinv.handed, map_append,
      map_singleton, whole, List.map_map]
    rfl
  have hne : parts ≠ [] := cons_ne_nil _ _
  have hjoined : Joined (s.blkSet i).buf parts := hadjacent.2
  have hdiff := (diff_sublist s.blkList (i :: taken)).map fun j => (s.blkSet j).span
  have hmem : ∀ r ∈ parts, r ∈ s.blkList.map fun j => (s.blkSet j).span :=
    fun r hr => (hsub.map _).subset hr
  obtain ⟨hlistApart, hqueuesApart, hcross⟩ := pairwise_append.mp (spans_eq hinv ▸ hok.apart)
  have hpairs := pairwise_map.mp hlistApart
  refine ⟨?_, ?_⟩
  · rw [hspans]
    refine pairwise_append.mpr ⟨hlistApart.sublist hdiff, pairwise_append.mpr
      ⟨hqueuesApart, pairwise_singleton _ _, fun r hr r' hr' => ?_⟩, fun r hr r' hr' => ?_⟩
    · obtain rfl := mem_singleton.mp hr'
      obtain ⟨queue, hmemq, rfl⟩ := List.mem_map.mp hr
      refine (whole_apart hjoined hne (hinv.queued queue hmemq).2.1 fun r' hr' => ?_).symm
      exact hcross r' (hmem r' hr') _ hr
    · rcases mem_append.mp hr' with hr' | hr'
      · exact hcross r (hdiff.subset hr) r' hr'
      · obtain rfl := mem_singleton.mp hr'
        obtain ⟨j, hj, rfl⟩ := List.mem_map.mp hr
        obtain ⟨hold, hout⟩ := hinv.list_nodup.mem_sdiff_iff.mp hj
        refine (whole_apart hjoined hne (hinv.used j hold).2 fun r' hr' => ?_).symm
        obtain ⟨k, hk, rfl⟩ := List.mem_map.mp hr'
        have hdistinct : k ≠ j := fun heq => hout (heq ▸ hk)
        have hsymm : Std.Symm fun j k => Apart (s.blkSet j).span (s.blkSet k).span :=
          ⟨fun _ _ hjk => hjk.symm⟩
        exact hpairs.forall (hsub.subset hk) hold hdistinct
  · rw [hspans]
    intro r hr
    rcases mem_append.mp hr with hr | hr
    · exact hinv.circular.inside (hdiff.subset hr)
    · rcases mem_append.mp hr with hr | hr
      · exact hok.inside r (spans_eq hinv ▸ mem_append_right _ hr)
      · obtain rfl := mem_singleton.mp hr
        exact whole_inside hjoined hne fun r hr => hinv.circular.inside (hmem r hr)

theorem queue_get_ok (hinv : RbbInv rbb s) (hok : HandedOk rbb s)
    (hadjacent : Adjacent s (takenFrom s queueDataLen s.blkList)) :
    RbbInv rbb (handQueue s (rtRbbBlkQueueGet s queueDataLen)) ∧
      HandedOk rbb (handQueue s (rtRbbBlkQueueGet s queueDataLen)) := by
  have hloop : rtRbbBlkQueueGet s queueDataLen = _ := queue_loop rfl rfl rfl hinv.list_nodup
  have hsub := taken_from_sublist s queueDataLen s.blkList
  rw [hloop]
  cases htaken : takenFrom s queueDataLen s.blkList with
  | nil => exact ⟨hinv, hok⟩
  | cons i taken =>
    rw [htaken] at hadjacent hsub
    have hqueue := hand_queue_spec (take_all ⟨s, [], none, 0, i, 0⟩ (i :: taken))
    exact ⟨hand_queue_inv hinv hsub hadjacent hqueue, hand_queue_ok hinv hok hsub hadjacent hqueue⟩

/-! ## Steps and runs -/

theorem rbb_step_ok {req : Request} (hinv : RbbInv rbb s) (hok : HandedOk rbb s)
    (hreq : RequestOk rbb s req) (hstep : rbbStep rbb s req = some s') :
    RbbInv rbb s' ∧ HandedOk rbb s' := by
  cases req with
  | alloc blkSize hpos =>
    obtain ⟨-, hs'⟩ := ite_none_right_eq_some.mp hstep
    obtain rfl := some.inj hs'
    exact alloc_ok hinv hok hpos hreq rfl
  | put i =>
    obtain ⟨-, hs'⟩ := ite_none_right_eq_some.mp hstep
    obtain rfl := some.inj hs'
    exact set_status_ok hinv hok i nofun
  | get =>
    obtain rfl := some.inj hstep
    unfold rtRbbBlkGet
    split
    · exact set_status_ok hinv hok _ nofun
    · exact ⟨hinv, hok⟩
  | free i =>
    obtain ⟨hi, hfree⟩ := ite_none_right_eq_some.mp hstep
    obtain ⟨s1, hs1, rfl⟩ := map_eq_some_iff.mp hfree
    exact free_ok hinv hok hi hs1
  | queueGet queueDataLen =>
    obtain rfl := some.inj hstep
    exact queue_get_ok hinv hok hreq
  | queueFree queue =>
    obtain ⟨hqueue, hfree⟩ := ite_none_right_eq_some.mp hstep
    obtain ⟨s1, hs1, rfl⟩ := map_eq_some_iff.mp hfree
    exact queue_free_ok hinv hok hqueue hs1

theorem init_ok (rbb : Rbb) (blockSet : Nat → Blk) :
    RbbInv rbb (rtRbbInit rbb blockSet) ∧ HandedOk rbb (rtRbbInit rbb blockSet) :=
  ⟨⟨rfl, circular_nil _, nodup_nil, nofun, nofun⟩, List.Pairwise.nil, nofun⟩

/-- In every run whose calls meet the condition, what is handed out stays apart and inside the
buffer. -/
theorem handed_out_ok (rbb : Rbb) (blockSet : Nat → Blk) {requests : List Request}
    (hrequests : Transition.AllSteps (rbbStep rbb) (RequestOk rbb) (rtRbbInit rbb blockSet)
      requests) :
    Transition.Always (rbbStep rbb) (HandedOk rbb) (rtRbbInit rbb blockSet) requests :=
  Transition.always_of_invariant (I := fun s => RbbInv rbb s ∧ HandedOk rbb s)
    (fun _ _ _ hgood hreq hstep => rbb_step_ok hgood.1 hgood.2 hreq hstep) (fun _ hgood => hgood.2)
    (init_ok rbb blockSet) hrequests

/-- A buffer of eight bytes with four blocks, none of them used before. -/
def eight : Rbb := ⟨8, 4, by decide⟩

def newSet : Nat → Blk := fun _ => ⟨.unused, 0, 0⟩

/-- A block is taken as a queue, and the queue is freed before the next allocation. -/
theorem queue_run_ok : Transition.Always (rbbStep eight) (HandedOk eight) (rtRbbInit eight newSet)
    [.alloc 4 (by decide), .put 0, .queueGet 8, .queueFree ⟨0, 1, 4⟩, .alloc 8 (by decide)] :=
  handed_out_ok eight newSet <|
    .cons (fun _ _ => ⟨by decide, nofun⟩) rfl <| .cons trivial rfl <|
      .cons ⟨rfl, rfl, trivial⟩ rfl <| .cons trivial rfl <|
        .cons (fun _ _ => ⟨by decide, nofun⟩) rfl trivial

/-- A block that is allocated while a queue is handed out may be put onto it. -/
theorem queue_overwritten : ¬ Transition.Always (rbbStep eight) (HandedOk eight)
    (rtRbbInit eight newSet) [.alloc 4 (by decide), .put 0, .queueGet 8, .alloc 4 (by decide)] :=
  fun hok => absurd (hok.last rfl).apart (by decide)

-- The first block may be larger than the buffer.
example : ¬ Transition.Always (rbbStep eight) (HandedOk eight)
    (rtRbbInit eight newSet) [.alloc 9 (by decide)] :=
  fun hok => absurd (hok.last rfl).inside (by decide)

end FullhanRtos.Ringblk
