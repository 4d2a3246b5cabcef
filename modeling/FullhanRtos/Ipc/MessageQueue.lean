import FullhanRtos.Lib.NullList
import FullhanRtos.Sched.Scheduler

/-!
# Message queues

`rt_mq_init`, `rt_mq_send`, `rt_mq_urgent`, `rt_mq_recv` and the reset of `rt_mq_control` of
`kernel/src/ipc.c`. A send takes a node off the free list with interrupts disabled, fills it with
interrupts enabled and links it into the queue with interrupts disabled again; a receive does the
same the other way round. Each of these sections is one step, and `Control` says where a thread or
an interrupt is between two of them.

`Deque` is what the queue stands for. `mq_refines_deque` says that the links, receives and resets of
every run are a run of the deque, and that in the state reached each node has one role, the queue
list holds the messages of the deque in its order, and every receiver has the message that it took
off the deque.
-/

namespace FullhanRtos.Ipc

open Sched Transition NullList List Option Function

set_option linter.unusedSectionVars false

/-! ## The queue -/

/-- The fields that do not change; `max_msgs` has 16 bits. -/
structure MqConfig where
  msgSize : Nat
  maxMsgs : Nat
  maxMsgs_lt : maxMsgs < 65536

/-- `struct rt_messagequeue` and its pool. A node is the number of its place in the pool; `data` are
the bytes behind its link. -/
structure Mq where
  next : Nat → Option Nat
  data : Nat → Nat → UInt8
  head : Option Nat
  tail : Option Nat
  free : Option Nat
  entry : Nat

/-- What is sent: `size` bytes, or no buffer at all. -/
inductive Buffer where
  | bytes (content : List UInt8)
  | null (size : Nat)

def Buffer.size : Buffer → Nat
  | .bytes content => content.length
  | .null size => size

/-- The bytes that a send writes. Without a buffer the whole node is cleared. -/
def Buffer.message (config : MqConfig) : Buffer → List UInt8
  | .bytes content => content
  | .null _ => replicate config.msgSize 0

def Mq.putFree (mq : Mq) (node : Nat) : Mq :=
  { mq with next := Function.update mq.next node mq.free, free := some node }

def rtMqInit (config : MqConfig) (next : Nat → Option Nat) (data : Nat → Nat → UInt8) : Mq :=
  (List.range config.maxMsgs).foldl Mq.putFree
    { next, data, head := none, tail := none, free := none, entry := 0 }

def Mq.fill (mq : Mq) (urgent : Bool) (node : Nat) (message : List UInt8) : Mq :=
  { mq with
    next := if urgent then mq.next else Function.update mq.next node none
    data := Function.update mq.data node fun i =>
      if i < message.length then message.getD i 0 else mq.data node i }

def Mq.linkLast (mq : Mq) (node : Nat) : Mq :=
  { mq with
    next := match mq.tail with
      | some last => Function.update mq.next last (some node)
      | none => mq.next
    tail := some node
    head := if mq.head = none then some node else mq.head
    entry := (mq.entry + 1) % 65536 }

def Mq.linkFirst (mq : Mq) (node : Nat) : Mq :=
  { mq with
    next := Function.update mq.next node mq.head
    head := some node
    tail := if mq.tail = none then some node else mq.tail
    entry := (mq.entry + 1) % 65536 }

/-- Move the head of the queue past its first node. -/
def Mq.dropHead (mq : Mq) (node : Nat) : Mq :=
  { mq with
    head := mq.next node
    tail := if mq.tail = some node then none else mq.tail }

/-- Take the first message off the queue. -/
def Mq.unlink (mq : Mq) : Option (Nat × Mq) :=
  mq.head.map fun node =>
    (node, { mq.dropHead node with entry := if 0 < mq.entry then mq.entry - 1 else mq.entry })

/-- The loop of the reset, for at most `n` rounds. -/
def Mq.releaseLoop : Nat → Mq → Mq
  | 0, mq => mq
  | n + 1, mq =>
    match mq.head with
    | none => mq
    | some node => releaseLoop n ((mq.dropHead node).putFree node)

/-- Release all messages of the queue. -/
def Mq.reset (config : MqConfig) (mq : Mq) : Mq :=
  { Mq.releaseLoop config.maxMsgs mq with entry := 0 }

/-! ## Sections -/

/-- The program point with the live variables. `filling` and `linking` are behind the first and in
front of the second section of a send, `copying` and `freeing` the same for a receive, and `waiting`
is behind the `rt_schedule` of a receive. -/
inductive Control where
  | idle
  | filling (urgent : Bool) (node : Nat) (buffer : Buffer)
  | linking (urgent : Bool) (node : Nat) (message : List UInt8)
  | waiting (size : Nat) (time : WaitTime)
  | copying (node size : Nat)
  | freeing (node : Nat) (buffer : List UInt8)

/-- The threads, the queue and where everybody is. -/
structure MqSys (τ ι : Type) where
  kernel : Kernel τ ι
  mq : Mq
  control : Agent τ → Control

/-- The steps. -/
inductive MqOp (τ ι : Type) where
  | kernel (op : KernelOp τ ι)
  | send (a : Agent τ) (urgent : Bool) (buffer : Buffer)
  | fill (a : Agent τ)
  | link (a : Agent τ)
  | recv (a : Agent τ) (size : Nat) (time : WaitTime)
  | again (t : τ) (expired : Bool)
  | copy (a : Agent τ)
  | free (a : Agent τ)
  | reset (a : Agent τ)

variable {τ ι : Type} [DecidableEq τ] [DecidableEq ι] {message : List UInt8} {urgent : Bool}
  {size : Nat}

/-- Go to a program point. -/
def MqSys.goto (s : MqSys τ ι) (a : Agent τ) (control : Control) : MqSys τ ι :=
  { s with control := Function.update s.control a control }

section

variable (config : MqConfig) (receivers senders : ι) (flag : IpcFlag)

def mqSend (s : MqSys τ ι) (a : Agent τ) (urgent : Bool) (buffer : Buffer) : MqSys τ ι :=
  if config.msgSize < buffer.size then s
  else
    match s.mq.free with
    | none => s
    | some node =>
      { s with mq := { s.mq with free := s.mq.next node } }.goto a (.filling urgent node buffer)

/-- The loop of `rt_mq_recv`, up to the point where it leaves the section. -/
def mqReceive (s : MqSys τ ι) (a : Agent τ) (size : Nat) (time : WaitTime) : Option (MqSys τ ι) :=
  if s.mq.entry = 0 then
    match a with
    | .isr _ => none
    | .thread t =>
      if time = .no then
        some ({ s with kernel := s.kernel.updateThread t fun th =>
          { th with error := .etimeout } }.goto a .idle)
      else
        (blockCurrent s.kernel receivers flag (time = .ticks)).map fun k =>
          { s with kernel := k }.goto a (.waiting size time)
  else
    s.mq.unlink.map fun (node, mq) => { s with mq }.goto a (.copying node size)

def rtMqReset (s : MqSys τ ι) : Option (MqSys τ ι) :=
  (rtSchedule (rtIpcListResumeAll (rtIpcListResumeAll s.kernel receivers) senders)).map
    fun k => { s with kernel := k, mq := s.mq.reset config }

def mqStep (s : MqSys τ ι) : MqOp τ ι → Option (MqSys τ ι)
  | .kernel op => (kernelStep s.kernel op).map fun k => { s with kernel := k }
  | .send a urgent buffer =>
    match s.control a with
    | .idle => if s.kernel.Acts a then some (mqSend config s a urgent buffer) else none
    | _ => none
  | .fill a =>
    match s.control a with
    | .filling urgent node buffer =>
      if s.kernel.Acts a then
        some ({ s with mq := s.mq.fill urgent node (buffer.message config) }.goto a
          (.linking urgent node (buffer.message config)))
      else none
    | _ => none
  | .link a =>
    match s.control a with
    | .linking urgent node _ =>
      if s.kernel.Acts a then
        (resumeFirst s.kernel receivers).map fun k =>
          { s with
            kernel := k
            mq := if urgent then s.mq.linkFirst node else s.mq.linkLast node }.goto a .idle
      else none
    | _ => none
  | .recv a size time =>
    match s.control a with
    | .idle =>
      if s.kernel.Acts a ∧ size ≠ 0 then
        if s.mq.entry = 0 ∧ time = .no then some s else mqReceive receivers flag s a size time
      else none
    | _ => none
  | .again t expired =>
    match s.control (.thread t) with
    | .waiting size time =>
      if s.kernel.Acts (.thread t) then
        if (s.kernel.thread t).error ≠ .eok then some (s.goto (.thread t) .idle)
        else
          mqReceive receivers flag s (.thread t) size
            (if time = .ticks ∧ expired then .no else time)
      else none
    | _ => none
  | .copy a =>
    match s.control a with
    | .copying node size =>
      if s.kernel.Acts a then
        some (s.goto a (.freeing node
          ((List.range (min size config.msgSize)).map (s.mq.data node))))
      else none
    | _ => none
  | .free a =>
    match s.control a with
    | .freeing node _ =>
      if s.kernel.Acts a then
        (resumeFirst s.kernel senders).map fun k =>
          { s with kernel := k, mq := s.mq.putFree node }.goto a .idle
      else none
    | _ => none
  | .reset a =>
    match s.control a with
    | .idle => if s.kernel.Acts a then rtMqReset config receivers senders s else none
    | _ => none

end

/-! ## The deque -/

/-- The messages in the queue, and the one that each caller took last. -/
structure Deque (τ : Type) where
  messages : List (List UInt8)
  delivered : Agent τ → List UInt8

/-- What can happen to the messages. -/
inductive DequeOp (τ : Type) where
  | pushBack (message : List UInt8)
  | pushFront (message : List UInt8)
  | pop (a : Agent τ)
  | clear

def Deque.step (d : Deque τ) : DequeOp τ → Option (Deque τ)
  | .pushBack message => some { d with messages := d.messages ++ [message] }
  | .pushFront message => some { d with messages := message :: d.messages }
  | .pop a =>
    match d.messages with
    | [] => none
    | message :: messages =>
      some { messages, delivered := Function.update d.delivered a message }
  | .clear => some { d with messages := [] }

def Deque.empty : Deque τ where
  messages := []
  delivered := fun _ => []

/-- The receive has taken a message. -/
def Control.popped (a : Agent τ) : Control → List (DequeOp τ)
  | .copying _ _ => [.pop a]
  | _ => []

/-- The send has its message ready. -/
def Control.pushed : Control → List (DequeOp τ)
  | .linking true _ message => [.pushFront message]
  | .linking false _ message => [.pushBack message]
  | _ => []

/-- What a step does to the messages. -/
def mqEvent (s : MqSys τ ι) (op : MqOp τ ι) (s' : MqSys τ ι) : List (DequeOp τ) :=
  match op with
  | .link a => (s.control a).pushed
  | .recv a _ _ => (s'.control a).popped a
  | .again t _ => (s'.control (.thread t)).popped (.thread t)
  | .reset _ => [.clear]
  | _ => []

/-! ## Roles of the nodes -/

/-- The node that a send or receive in progress holds. -/
def Control.node : Control → Option Nat
  | .filling _ node _ | .linking _ node _ | .copying node _ | .freeing node _ => some node
  | .idle | .waiting _ _ => none

/-- The node begins with the message. -/
def Agrees (content : Nat → UInt8) (message : List UInt8) : Prop :=
  ∀ i, i < message.length → content i = message.getD i 0

/-- The buffer and the message are the same as far as both go. -/
def Received (buffer message : List UInt8) : Prop :=
  ∀ i, i < buffer.length → i < message.length → buffer.getD i 0 = message.getD i 0

/-- Every node of the pool is in a list or held by one caller. -/
structure Placed (config : MqConfig) (control : Agent τ → Control) (nodes : List Nat) : Prop where
  nodup : nodes.Nodup
  node : ∀ n, n < config.maxMsgs ↔ n ∈ nodes ∨ ∃ a, (control a).node = some n
  held : ∀ a n, (control a).node = some n → n ∉ nodes
  alone : ∀ a b n, (control a).node = some n → (control b).node = some n → a = b

/-- The queue and the free list have all nodes that nobody holds, and the fields describe the
queue. -/
structure Roles (config : MqConfig) (mq : Mq) (control : Agent τ → Control)
    (queue free : List Nat) : Prop where
  head : IsList mq.next mq.head queue
  tail : mq.tail = queue.getLast?
  entry : mq.entry = queue.length
  freeList : IsList mq.next mq.free free
  placed : Placed config control (queue ++ free)

/-- The nodes hold the messages of the deque. -/
structure Contents (mq : Mq) (control : Agent τ → Control) (queue : List Nat) (d : Deque τ) :
    Prop where
  messages : Forall₂ (fun n message => Agrees (mq.data n) message) queue d.messages
  linking : ∀ a urgent n message, control a = .linking urgent n message →
    Agrees (mq.data n) message ∧ (urgent = false → mq.next n = none)
  copying : ∀ a n size, control a = .copying n size → Agrees (mq.data n) (d.delivered a)
  freeing : ∀ a n buffer, control a = .freeing n buffer → Received buffer (d.delivered a)

/-- The queue stands for the deque. -/
def MqRefines (config : MqConfig) (s : MqSys τ ι) (d : Deque τ) : Prop :=
  ∃ queue free, Roles config s.mq s.control queue free ∧ Contents s.mq s.control queue d

section

variable {config : MqConfig} {mq : Mq} {control : Agent τ → Control} {nodes queue free : List Nat}
  {a : Agent τ} {c : Control} {n : Nat}

theorem Placed.perm {nodes' : List Nat} (h : Placed config control nodes)
    (hperm : nodes'.Perm nodes) : Placed config control nodes' := by
  refine ⟨hperm.nodup_iff.mpr h.nodup, fun m => ?_, fun b m hb => ?_, h.alone⟩
  · rw [hperm.mem_iff]
    exact h.node m
  · rw [hperm.mem_iff]
    exact h.held b m hb

/-- A step of `a` that holds the same node as before. -/
theorem Placed.goto_same (h : Placed config control nodes) (hc : c.node = (control a).node) :
    Placed config (Function.update control a c) nodes := by
  have hnode : ∀ b, (update control a c b).node = (control b).node := by
    intro b
    by_cases hb : b = a
    · rw [hb, update_self, hc]
    · rw [update_of_ne hb]
  refine ⟨h.nodup, fun m => ?_, fun b m hb => ?_, fun b b' m hb hb' => ?_⟩
  · simp only [hnode]
    exact h.node m
  · rw [hnode] at hb
    exact h.held b m hb
  · rw [hnode] at hb hb'
    exact h.alone b b' m hb hb'

theorem Placed.take (h : Placed config control (n :: nodes)) (ha : (control a).node = none)
    (hc : c.node = some n) : Placed config (Function.update control a c) nodes := by
  obtain ⟨hn, hnodes⟩ := nodup_cons.mp h.nodup
  have hcases : ∀ b m, (update control a c b).node = some m →
      b = a ∧ m = n ∨ b ≠ a ∧ (control b).node = some m := by
    intro b m hb
    by_cases hba : b = a
    · rw [hba, update_self, hc] at hb
      exact .inl ⟨hba, (some.inj hb).symm⟩
    · rw [update_of_ne hba] at hb
      exact .inr ⟨hba, hb⟩
  refine ⟨hnodes, fun m => ?_, fun b m hb hmem => ?_, fun b b' m hb hb' => ?_⟩
  · rw [h.node m, mem_cons]
    constructor
    · rintro ((rfl | hm) | ⟨b, hb⟩)
      · exact .inr ⟨a, by rw [update_self, hc]⟩
      · exact .inl hm
      · have hba : b ≠ a := fun heq => by
          rw [heq, ha] at hb
          cases hb
        exact .inr ⟨b, by rwa [update_of_ne hba]⟩
    · rintro (hm | ⟨b, hb⟩)
      · exact .inl (.inr hm)
      · rcases hcases b m hb with ⟨-, rfl⟩ | ⟨-, hb⟩
        · exact .inl (.inl rfl)
        · exact .inr ⟨b, hb⟩
  · rcases hcases b m hb with ⟨-, rfl⟩ | ⟨-, hb⟩
    · exact hn hmem
    · exact h.held b m hb (mem_cons_of_mem n hmem)
  · rcases hcases b m hb with ⟨rfl, rfl⟩ | ⟨hba, hb⟩
    · rcases hcases b' m hb' with ⟨rfl, -⟩ | ⟨-, hb'⟩
      · rfl
      · exact absurd mem_cons_self (h.held b' m hb')
    · rcases hcases b' m hb' with ⟨-, rfl⟩ | ⟨-, hb'⟩
      · exact absurd mem_cons_self (h.held b m hb)
      · exact h.alone b b' m hb hb'

theorem Placed.give (h : Placed config control nodes) (ha : (control a).node = some n)
    (hc : c.node = none) : Placed config (Function.update control a c) (n :: nodes) := by
  have hcases : ∀ b m, (update control a c b).node = some m →
      b ≠ a ∧ (control b).node = some m := by
    intro b m hb
    by_cases hba : b = a
    · rw [hba, update_self, hc] at hb
      cases hb
    · rw [update_of_ne hba] at hb
      exact ⟨hba, hb⟩
  refine ⟨nodup_cons.mpr ⟨h.held a n ha, h.nodup⟩, fun m => ?_, fun b m hb hmem => ?_,
    fun b b' m hb hb' => ?_⟩
  · rw [h.node m, mem_cons]
    constructor
    · rintro (hm | ⟨b, hb⟩)
      · exact .inl (.inr hm)
      · by_cases hba : b = a
        · rw [hba, ha] at hb
          exact .inl (.inl (some.inj hb).symm)
        · exact .inr ⟨b, by rwa [update_of_ne hba]⟩
    · rintro ((rfl | hm) | ⟨b, hb⟩)
      · exact .inr ⟨a, ha⟩
      · exact .inl hm
      · exact .inr ⟨b, (hcases b m hb).2⟩
  · obtain ⟨hba, hb⟩ := hcases b m hb
    rcases mem_cons.mp hmem with rfl | hmem
    · exact hba (h.alone b a m hb ha)
    · exact h.held b m hb hmem
  · exact h.alone b b' m (hcases b m hb).2 (hcases b' m hb').2

theorem Placed.length_le (h : Placed config control nodes) : nodes.length ≤ config.maxMsgs := by
  have hle := (h.nodup.subperm fun m hm => mem_range.mpr ((h.node m).mpr (.inl hm))).length_le
  rwa [length_range] at hle

theorem Placed.length_lt (h : Placed config control nodes) (hn : (control a).node = some n) :
    nodes.length < config.maxMsgs :=
  (h.give (c := .idle) hn rfl).length_le

section

variable (h : Roles config mq control queue free)

include h

theorem Roles.not_mem_queue (hn : (control a).node = some n) : n ∉ queue := fun hmem =>
  h.placed.held a n hn (mem_append_left free hmem)

theorem Roles.not_mem_free (hn : (control a).node = some n) : n ∉ free := fun hmem =>
  h.placed.held a n hn (mem_append_right queue hmem)

theorem Roles.queue_nodup : queue.Nodup :=
  h.placed.nodup.of_append_left

theorem Roles.queue_lt (hn : (control a).node = some n) : queue.length < config.maxMsgs := by
  have hlt := h.placed.length_lt hn
  rw [length_append] at hlt
  omega

/-! ### The sections keep the roles -/

theorem Roles.send (ha : (control a).node = none) (hfree : mq.free = some n)
    (hc : c.node = some n) :
    ∃ free', Roles config { mq with free := mq.next n }
      (Function.update control a c) queue free' := by
  have hlist := h.freeList
  rw [hfree] at hlist
  obtain ⟨free', rfl, hrest⟩ := hlist.eq_cons
  refine ⟨free', h.head, h.tail, h.entry, hrest, (h.placed.perm ?_).take ha hc⟩
  exact perm_middle.symm

/-- Links and bytes of a held node may change. -/
theorem Roles.fill (ha : (control a).node = some n) (hc : c.node = some n) :
    Roles config (mq.fill urgent n message) (Function.update control a c) queue free := by
  have hnext : ∀ m ∈ queue ++ free, (mq.fill urgent n message).next m = mq.next m := by
    intro m hm
    have hmn : m ≠ n := fun heq => h.placed.held a n ha (heq ▸ hm)
    unfold Mq.fill
    split
    · rfl
    · exact update_of_ne hmn _ _
  refine ⟨?_, h.tail, h.entry, ?_, h.placed.goto_same (hc.trans ha.symm)⟩
  · exact h.head.congr fun m hm => hnext m (mem_append_left free hm)
  · exact h.freeList.congr fun m hm => hnext m (mem_append_right queue hm)

/-- The second section of `rt_mq_send`. -/
theorem Roles.link_last (ha : (control a).node = some n) (hnext : mq.next n = none)
    (hc : c.node = none) :
    Roles config (mq.linkLast n) (Function.update control a c) (queue ++ [n]) free := by
  have hnq := h.not_mem_queue ha
  have hlt := h.queue_lt ha
  have hmax := config.maxMsgs_lt
  have htail := h.tail
  refine ⟨?_, ?_, ?_, ?_, (h.placed.give ha hc).perm ?_⟩
  · cases hlast : queue.getLast? with
    | none =>
      -- The queue was empty: the node is the head.
      obtain rfl := getLast?_eq_none_iff.mp hlast
      have hhead : mq.head = none := h.head
      refine ⟨?_, ?_⟩
      · simp [Mq.linkLast, hhead]
      · show (mq.linkLast n).next n = none
        simpa [Mq.linkLast, htail] using hnext
    | some last =>
      have hhead : mq.head ≠ none := fun heq => by
        have hnil := (heq ▸ h.head : IsList mq.next none queue).eq_nil
        rw [hnil] at hlast
        cases hlast
      have hlinks : (mq.linkLast n).next = update mq.next last (some n) := by
        simp [Mq.linkLast, htail, hlast]
      have hfirst : (mq.linkLast n).head = mq.head := by simp [Mq.linkLast, hhead]
      rw [hlinks, hfirst]
      exact h.head.append h.queue_nodup hnq hnext hlast
  · simp [Mq.linkLast]
  · simp only [Mq.linkLast, h.entry, length_append, length_singleton]
    omega
  · refine h.freeList.congr fun m hm => ?_
    cases hlast : queue.getLast? with
    | none => simp [Mq.linkLast, htail, hlast]
    | some last =>
      have hml : m ≠ last := fun heq => by
        have hmem := mem_of_getLast? hlast
        exact (disjoint_of_nodup_append h.placed.nodup) (heq ▸ hmem) hm
      simp [Mq.linkLast, htail, hlast, update_of_ne hml]
  · rw [append_assoc]
    exact perm_middle

/-- The second section of `rt_mq_urgent`. -/
theorem Roles.link_first (ha : (control a).node = some n) (hc : c.node = none) :
    Roles config (mq.linkFirst n) (Function.update control a c) (n :: queue) free := by
  have hlt := h.queue_lt ha
  have hmax := config.maxMsgs_lt
  refine ⟨h.head.push (h.not_mem_queue ha), ?_, ?_, h.freeList.update (h.not_mem_free ha) _,
    h.placed.give ha hc⟩
  · simp only [Mq.linkFirst, h.tail]
    cases queue with
    | nil => rfl
    | cons m queue => simp
  · simp only [Mq.linkFirst, h.entry, length_cons]
    omega

end

/-- The head moves past the first node. -/
theorem drop_head_list (hhead : IsList mq.next mq.head (n :: queue))
    (htail : mq.tail = (n :: queue).getLast?) (hnodup : (n :: queue).Nodup) :
    IsList mq.next (mq.dropHead n).head queue ∧ (mq.dropHead n).tail = queue.getLast? := by
  refine ⟨hhead.2, ?_⟩
  simp only [Mq.dropHead, htail]
  cases queue with
  | nil => simp
  | cons m queue =>
    have hne : (n :: m :: queue).getLast? ≠ some n := by
      exact fun hlast => (nodup_cons.mp hnodup).1 (mem_of_getLast? hlast)
    rw [if_neg hne, getLast?_cons_cons]

/-- The first section of a receive that finds a message. -/
theorem Roles.unlink {mq' : Mq} (h : Roles config mq control queue free)
    (ha : (control a).node = none) (hunlink : mq.unlink = some (n, mq')) (hc : c.node = some n) :
    ∃ queue', queue = n :: queue' ∧ Roles config mq' (Function.update control a c) queue' free := by
  obtain ⟨node, hhead, heq⟩ := map_eq_some_iff.mp hunlink
  cases heq
  have hlist := h.head
  rw [hhead] at hlist
  obtain ⟨queue', rfl, hrest⟩ := hlist.eq_cons
  obtain ⟨hhead', htail'⟩ := drop_head_list h.head h.tail h.queue_nodup
  refine ⟨queue', rfl, hhead', htail', ?_, h.freeList, ?_⟩
  · have hcount := h.entry
    rw [length_cons] at hcount
    show (if 0 < mq.entry then mq.entry - 1 else mq.entry) = queue'.length
    rw [if_pos (by omega)]
    omega
  · exact h.placed.take ha hc

/-- The second section of a receive. -/
theorem Roles.put_free (h : Roles config mq control queue free) (ha : (control a).node = some n)
    (hc : c.node = none) :
    Roles config (mq.putFree n) (Function.update control a c) queue (n :: free) := by
  refine ⟨h.head.update (h.not_mem_queue ha) _, h.tail, h.entry,
    h.freeList.push (h.not_mem_free ha), (h.placed.give ha hc).perm ?_⟩
  exact perm_middle

theorem Roles.release_loop {rounds : Nat} (hhead : IsList mq.next mq.head queue)
    (htail : mq.tail = queue.getLast?) (hfree : IsList mq.next mq.free free)
    (hnodup : (queue ++ free).Nodup) (hrounds : queue.length ≤ rounds) :
    (Mq.releaseLoop rounds mq).head = none ∧ (Mq.releaseLoop rounds mq).tail = none ∧
      IsList (Mq.releaseLoop rounds mq).next (Mq.releaseLoop rounds mq).free
        (queue.reverse ++ free) ∧
      (Mq.releaseLoop rounds mq).data = mq.data ∧
      ∀ m, m ∉ queue → (Mq.releaseLoop rounds mq).next m = mq.next m := by
  induction queue generalizing mq free rounds with
  | nil =>
    have hnone : mq.head = none := hhead
    have hsame : Mq.releaseLoop rounds mq = mq := by
      cases rounds with
      | zero => rfl
      | succ rounds => simp only [Mq.releaseLoop, hnone]
    rw [hsame]
    exact ⟨hnone, htail, hfree, rfl, fun _ _ => rfl⟩
  | cons m queue ih =>
    obtain ⟨rounds, rfl⟩ : ∃ r, rounds = r + 1 := ⟨rounds - 1, by
      rw [length_cons] at hrounds
      omega⟩
    obtain ⟨hm, hrest⟩ := nodup_cons.mp hnodup
    have hmq : m ∉ queue := fun hmem => hm (mem_append_left free hmem)
    have hmf : m ∉ free := fun hmem => hm (mem_append_right queue hmem)
    obtain ⟨hhead', htail'⟩ := drop_head_list hhead htail
      (nodup_cons.mpr ⟨hmq, hrest.of_append_left⟩)
    have hstep : Mq.releaseLoop (rounds + 1) mq =
        Mq.releaseLoop rounds ((mq.dropHead m).putFree m) := by
      rw [Mq.releaseLoop, hhead.1]
    have hperm : (queue ++ m :: free).Nodup := perm_middle.nodup_iff.mpr hnodup
    have hlinks : IsList ((mq.dropHead m).putFree m).next ((mq.dropHead m).putFree m).head queue :=
      hhead'.update hmq _
    obtain ⟨hnone, htail1, hlist, hdata, hnext⟩ := ih hlinks htail' (hfree.push hmf) hperm
      (Nat.le_of_succ_le_succ hrounds)
    rw [hstep]
    refine ⟨hnone, htail1, ?_, hdata, fun v hv => ?_⟩
    · rw [reverse_cons, append_assoc]
      exact hlist
    · obtain ⟨hvm, hvq⟩ := not_or.mp (mem_cons.not.mp hv)
      rw [hnext v hvq]
      exact update_of_ne hvm _ _

theorem Roles.reset (h : Roles config mq control queue free) :
    Roles config (mq.reset config) control [] (queue.reverse ++ free) ∧
      (mq.reset config).data = mq.data ∧
      ∀ m, m ∉ queue → (mq.reset config).next m = mq.next m := by
  have hlen : queue.length ≤ config.maxMsgs := by
    have hle := h.placed.length_le
    rw [length_append] at hle
    omega
  obtain ⟨hnone, htail, hfree, hdata⟩ := Roles.release_loop h.head h.tail h.freeList h.placed.nodup
    hlen
  refine ⟨⟨hnone, htail, rfl, hfree, h.placed.perm ?_⟩, hdata.1, hdata.2⟩
  exact (reverse_perm queue).append_right free

theorem init_free (next : Nat → Option Nat) (data : Nat → Nat → UInt8) (max : Nat) :
    let mq := (List.range max).foldl Mq.putFree
      { next, data, head := none, tail := none, free := none, entry := 0 }
    mq.head = none ∧ mq.tail = none ∧ mq.entry = 0 ∧
      IsList mq.next mq.free (List.range max).reverse := by
  induction max with
  | zero => exact ⟨rfl, rfl, rfl, rfl⟩
  | succ max ih =>
    obtain ⟨hhead, htail, hentry, hlist⟩ := ih
    simp only [range_succ, foldl_append, foldl_cons, foldl_nil,
      reverse_append, reverse_singleton, singleton_append]
    refine ⟨hhead, htail, hentry, hlist.push ?_⟩
    simp

theorem roles_init (next : Nat → Option Nat) (data : Nat → Nat → UInt8) :
    Roles config (rtMqInit config next data) (fun _ : Agent τ => .idle) []
      (List.range config.maxMsgs).reverse := by
  obtain ⟨hhead, htail, hentry, hlist⟩ := init_free next data config.maxMsgs
  refine ⟨hhead, htail, hentry, hlist, nodup_reverse.mpr nodup_range, fun m => ?_,
    fun a m hm => ?_, fun a b m hm => ?_⟩
  · simp [Control.node]
  · cases hm
  · cases hm

end

/-! ### The sections keep the messages -/

section

variable {config : MqConfig} {mq mq' : Mq} {control : Agent τ → Control}
  {queue queue' free : List Nat} {d d' : Deque τ} {a : Agent τ} {c : Control} {n : Nat}

/-- Nodes outside of the queue may change their bytes. -/
theorem messages_congr {data data' : Nat → Nat → UInt8} {messages : List (List UInt8)}
    (h : Forall₂ (fun n message => Agrees (data n) message) queue messages)
    (hdata : ∀ n ∈ queue, data' n = data n) :
    Forall₂ (fun n message => Agrees (data' n) message) queue messages := by
  induction h with
  | nil => exact .nil
  | cons hagrees _ ih =>
    refine .cons ?_ (ih fun n hn => hdata n (mem_cons_of_mem _ hn))
    rw [hdata _ mem_cons_self]
    exact hagrees

theorem Contents.update (h : Contents mq control queue d)
    (hmessages : Forall₂ (fun n message => Agrees (mq'.data n) message) queue' d'.messages)
    (hheld : ∀ b n, b ≠ a → (control b).node = some n →
      mq'.data n = mq.data n ∧ mq'.next n = mq.next n)
    (hdelivered : ∀ b, b ≠ a → d'.delivered b = d.delivered b)
    (hlinking : ∀ urgent n message, c = .linking urgent n message →
      Agrees (mq'.data n) message ∧ (urgent = false → mq'.next n = none))
    (hcopying : ∀ n size, c = .copying n size → Agrees (mq'.data n) (d'.delivered a))
    (hfreeing : ∀ n buffer, c = .freeing n buffer → Received buffer (d'.delivered a)) :
    Contents mq' (Function.update control a c) queue' d' := by
  refine ⟨hmessages, fun b urgent n message hb => ?_, fun b n size hb => ?_,
    fun b n buffer hb => ?_⟩
  · by_cases hba : b = a
    · rw [hba, update_self] at hb
      exact hlinking urgent n message hb
    · rw [update_of_ne hba] at hb
      obtain ⟨hdata, hnext⟩ := hheld b n hba (by rw [hb]; rfl)
      rw [hdata, hnext]
      exact h.linking b urgent n message hb
  · by_cases hba : b = a
    · subst hba
      rw [update_self] at hb
      exact hcopying n size hb
    · rw [update_of_ne hba] at hb
      obtain ⟨hdata, -⟩ := hheld b n hba (by rw [hb]; rfl)
      rw [hdata, hdelivered b hba]
      exact h.copying b n size hb
  · by_cases hba : b = a
    · subst hba
      rw [update_self] at hb
      exact hfreeing n buffer hb
    · rw [update_of_ne hba] at hb
      rw [hdelivered b hba]
      exact h.freeing b n buffer hb

/-- A step of `a` to a program point without a message. -/
theorem Contents.goto (h : Contents mq control queue d) (hdata : mq'.data = mq.data)
    (hnext : ∀ b n, b ≠ a → (control b).node = some n → mq'.next n = mq.next n)
    (hc : c = .idle ∨ (∃ size time, c = .waiting size time) ∨
      ∃ urgent node buffer, c = .filling urgent node buffer) :
    Contents mq' (Function.update control a c) queue d := by
  refine h.update (by rw [hdata]; exact h.messages)
    (fun b n hb hn => ⟨by rw [hdata], hnext b n hb hn⟩) (fun _ _ => rfl) ?_ ?_ ?_
  · intro _ _ _ heq
    rcases hc with rfl | ⟨_, _, rfl⟩ | ⟨_, _, _, rfl⟩ <;> cases heq
  · intro _ _ heq
    rcases hc with rfl | ⟨_, _, rfl⟩ | ⟨_, _, _, rfl⟩ <;> cases heq
  · intro _ _ heq
    rcases hc with rfl | ⟨_, _, rfl⟩ | ⟨_, _, _, rfl⟩ <;> cases heq

theorem Contents.fill (h : Contents mq control queue d)
    (hroles : Roles config mq control queue free) (ha : (control a).node = some n) :
    Contents (mq.fill urgent n message)
      (Function.update control a (.linking urgent n message)) queue d := by
  have hdata : ∀ m, m ≠ n → (mq.fill urgent n message).data m = mq.data m := fun m hm =>
    update_of_ne hm _ _
  have hnext : ∀ m, m ≠ n → (mq.fill urgent n message).next m = mq.next m := by
    intro m hm
    simp only [Mq.fill]
    split
    · rfl
    · exact update_of_ne hm _ _
  refine h.update ?_ (fun b m hb hm => ?_) (fun _ _ => rfl) (fun urgent' n' message' heq => ?_)
    (fun _ _ heq => by cases heq) (fun _ _ heq => by cases heq)
  · refine messages_congr h.messages fun m hm => hdata m fun heq => ?_
    exact hroles.not_mem_queue ha (heq ▸ hm)
  · have hmn : m ≠ n := fun heq => hb (hroles.placed.alone b a n (heq ▸ hm) ha)
    exact ⟨hdata m hmn, hnext m hmn⟩
  · cases heq
    refine ⟨fun i hi => ?_, fun hurgent => ?_⟩
    · simp [Mq.fill, hi]
    · simp [Mq.fill, hurgent]

theorem Contents.link_last (h : Contents mq control queue d)
    (hroles : Roles config mq control queue free) (ha : control a = .linking false n message) :
    Contents (mq.linkLast n) (Function.update control a .idle) (queue ++ [n])
      { d with messages := d.messages ++ [message] } := by
  have hagrees := (h.linking a false n message ha).1
  refine h.update (rel_append h.messages (.cons hagrees .nil)) (fun b m hb hm => ⟨rfl, ?_⟩)
    (fun _ _ => rfl) (fun _ _ _ heq => by cases heq) (fun _ _ heq => by cases heq)
    (fun _ _ heq => by cases heq)
  -- Only the link of the last node of the queue changes, and nobody holds it.
  simp only [Mq.linkLast]
  cases hlast : mq.tail with
  | none => rfl
  | some last =>
    have hmem : last ∈ queue := mem_of_getLast? (hroles.tail.symm.trans hlast)
    have hml : m ≠ last := fun heq => hroles.not_mem_queue hm (heq ▸ hmem)
    exact update_of_ne hml _ _

theorem Contents.link_first (h : Contents mq control queue d)
    (hroles : Roles config mq control queue free) (ha : control a = .linking true n message) :
    Contents (mq.linkFirst n) (Function.update control a .idle) (n :: queue)
      { d with messages := message :: d.messages } := by
  have hagrees := (h.linking a true n message ha).1
  have hn : (control a).node = some n := by rw [ha]; rfl
  refine h.update (.cons hagrees h.messages) (fun b m hb hm => ⟨rfl, ?_⟩) (fun _ _ => rfl)
    (fun _ _ _ heq => by cases heq) (fun _ _ heq => by cases heq) (fun _ _ heq => by cases heq)
  have hmn : m ≠ n := fun heq => hb (hroles.placed.alone b a n (heq ▸ hm) hn)
  exact update_of_ne hmn _ _

theorem Contents.unlink (h : Contents mq control (n :: queue) d)
    (hunlink : mq.unlink = some (n, mq')) :
    ∃ d', d.step (.pop a) = some d' ∧
      Contents mq' (Function.update control a (.copying n size)) queue d' := by
  obtain ⟨message, messages, hagrees, hrest, hmessages⟩ := forall₂_cons_left_iff.mp h.messages
  obtain ⟨node, -, heq⟩ := map_eq_some_iff.mp hunlink
  cases heq
  refine ⟨{ messages, delivered := Function.update d.delivered a message }, ?_, ?_⟩
  · simp only [Deque.step, hmessages]
  · refine h.update hrest (fun b m _ _ => ⟨rfl, rfl⟩) (fun b hb => Function.update_of_ne hb _ _)
      (fun _ _ _ heq => by cases heq) (fun m _ heq => ?_) (fun _ _ heq => by cases heq)
    cases heq
    show Agrees (mq.data n) (Function.update d.delivered a message a)
    rw [Function.update_self]
    exact hagrees

theorem Contents.copy (h : Contents mq control queue d) (ha : control a = .copying n size)
    (length : Nat) :
    Contents mq (Function.update control a
      (.freeing n ((List.range length).map (mq.data n)))) queue d := by
  refine h.update h.messages (fun b m _ _ => ⟨rfl, rfl⟩) (fun _ _ => rfl)
    (fun _ _ _ heq => by cases heq) (fun _ _ heq => by cases heq) (fun m buffer heq => ?_)
  cases heq
  intro i hi hlen
  rw [length_map, length_range] at hi
  rw [← h.copying a n size ha i hlen]
  simp [List.getD, hi]

end

/-! ## Runs -/

section

variable {config : MqConfig} {receivers senders : ι} {flag : IpcFlag} {s s' : MqSys τ ι}
  {d : Deque τ} {a : Agent τ} {k : Kernel τ ι}

theorem quiet_refines (h : MqRefines config s' d) :
    ∃ d', exec Deque.step d [] = some d' ∧ MqRefines config s' d' :=
  ⟨d, rfl, h⟩

section

variable (h : MqRefines config s d)

include h

/-- A step to a program point without a message, which leaves the queue. -/
theorem MqRefines.goto {c : Control} (ha : (s.control a).node = none)
    (hc : c = .idle ∨ ∃ size time, c = .waiting size time) :
    MqRefines config ({ s with kernel := k }.goto a c) d := by
  obtain ⟨queue, free, hroles, hcontents⟩ := h
  have hnode : c.node = (s.control a).node := by
    rcases hc with rfl | ⟨size, time, rfl⟩ <;> exact ha.symm
  refine ⟨queue, free, ⟨hroles.head, hroles.tail, hroles.entry, hroles.freeList,
    hroles.placed.goto_same hnode⟩, ?_⟩
  exact hcontents.goto rfl (fun _ _ _ _ => rfl) (hc.elim .inl fun hc => .inr (.inl hc))

theorem mq_receive_refines {time : WaitTime} (ha : (s.control a).node = none)
    (hrun : mqReceive receivers flag s a size time = some s') :
    ∃ d', exec Deque.step d ((s'.control a).popped a) = some d' ∧ MqRefines config s' d' := by
  unfold mqReceive at hrun
  split at hrun
  · split at hrun
    · cases hrun
    · rename_i t
      split at hrun
      · cases hrun
        simp only [MqSys.goto, update_self]
        exact quiet_refines (h.goto ha (.inl rfl))
      · obtain ⟨k, hblock, rfl⟩ := map_eq_some_iff.mp hrun
        simp only [MqSys.goto, update_self]
        exact quiet_refines (h.goto ha (.inr ⟨size, time, rfl⟩))
  · obtain ⟨⟨node, mq⟩, hunlink, rfl⟩ := map_eq_some_iff.mp hrun
    obtain ⟨queue, free, hroles, hcontents⟩ := h
    obtain ⟨queue', rfl, hroles'⟩ := hroles.unlink (c := .copying node size) ha hunlink rfl
    obtain ⟨d', hpop, hcontents'⟩ := hcontents.unlink (a := a) hunlink
    refine ⟨d', ?_, queue', free, hroles', hcontents'⟩
    simp only [MqSys.goto, update_self, Control.popped, exec, hpop, bind_some]

theorem mq_link_refines {node : Nat} (ha : s.control a = .linking urgent node message) :
    ∃ d', exec Deque.step d (s.control a).pushed = some d' ∧
      MqRefines config ({ s with
        kernel := k
        mq := if urgent then s.mq.linkFirst node else s.mq.linkLast node }.goto a .idle) d' := by
  obtain ⟨queue, free, hroles, hcontents⟩ := h
  have hnode : (s.control a).node = some node := by rw [ha]; rfl
  rw [ha]
  cases urgent with
  | true =>
    exact ⟨_, rfl, _, free, hroles.link_first hnode rfl, hcontents.link_first hroles ha⟩
  | false =>
    have hnext := (hcontents.linking a false node message ha).2 rfl
    exact ⟨_, rfl, _, free, hroles.link_last hnode hnext rfl, hcontents.link_last hroles ha⟩

theorem mq_send_refines {buffer : Buffer} (ha : (s.control a).node = none) :
    MqRefines config (mqSend config s a urgent buffer) d := by
  unfold mqSend
  split
  · exact h
  · split
    · exact h
    · rename_i node hfree
      obtain ⟨queue, free, hroles, hcontents⟩ := h
      obtain ⟨free', hroles'⟩ := hroles.send (c := .filling urgent node buffer) ha hfree rfl
      refine ⟨queue, free', hroles', ?_⟩
      exact hcontents.goto rfl (fun _ _ _ _ => rfl) (.inr (.inr ⟨urgent, node, buffer, rfl⟩))

theorem mq_reset_refines (ha : s.control a = .idle) :
    MqRefines config { s with kernel := k, mq := s.mq.reset config } { d with messages := [] } := by
  obtain ⟨queue, free, hroles, hcontents⟩ := h
  obtain ⟨hroles', hdata, hnext⟩ := hroles.reset
  refine ⟨[], queue.reverse ++ free, hroles', ?_⟩
  have hcontents' : Contents (s.mq.reset config) (update s.control a .idle) []
      { d with messages := [] } := by
    refine hcontents.update .nil (fun b n _ hn => ⟨by rw [hdata], ?_⟩) (fun _ _ => rfl)
      (fun _ _ _ heq => by cases heq) (fun _ _ heq => by cases heq) (fun _ _ heq => by cases heq)
    exact hnext n (hroles.not_mem_queue hn)
  rwa [← ha, update_eq_self] at hcontents'

end

theorem mq_step_refines (op : MqOp τ ι) (h : MqRefines config s d)
    (hrun : mqStep config receivers senders flag s op = some s') :
    ∃ d', exec Deque.step d (mqEvent s op s') = some d' ∧ MqRefines config s' d' := by
  cases op with
  | kernel op =>
    obtain ⟨k, -, rfl⟩ := map_eq_some_iff.mp hrun
    exact quiet_refines h
  | send a urgent buffer =>
    simp only [mqStep] at hrun
    split at hrun
    · rename_i ha
      split at hrun
      · cases hrun
        exact quiet_refines (mq_send_refines h (by rw [ha]; rfl))
      · cases hrun
    · cases hrun
  | fill a =>
    simp only [mqStep] at hrun
    split at hrun
    · rename_i urgent node buffer ha
      split at hrun
      · cases hrun
        obtain ⟨queue, free, hroles, hcontents⟩ := h
        have hnode : (s.control a).node = some node := by rw [ha]; rfl
        exact quiet_refines ⟨queue, free, hroles.fill hnode rfl, hcontents.fill hroles hnode⟩
      · cases hrun
    · cases hrun
  | link a =>
    simp only [mqStep] at hrun
    split at hrun
    · rename_i urgent node message ha
      split at hrun
      · obtain ⟨k, -, rfl⟩ := map_eq_some_iff.mp hrun
        exact mq_link_refines h ha
      · cases hrun
    · cases hrun
  | recv a size time =>
    simp only [mqStep] at hrun
    split at hrun
    · rename_i ha
      split at hrun
      · split at hrun
        · cases hrun
          rw [show mqEvent s (.recv a size time) s = [] by simp [mqEvent, ha, Control.popped]]
          exact quiet_refines h
        · exact mq_receive_refines h (by rw [ha]; rfl) hrun
      · cases hrun
    · cases hrun
  | again t expired =>
    simp only [mqStep] at hrun
    split at hrun
    · rename_i size time ha
      have hnode : (s.control (.thread t)).node = none := by rw [ha]; rfl
      split at hrun
      · split at hrun
        · cases hrun
          simp only [mqEvent, MqSys.goto, update_self]
          exact quiet_refines (h.goto (k := s.kernel) hnode (.inl rfl))
        · exact mq_receive_refines h hnode hrun
      · cases hrun
    · cases hrun
  | copy a =>
    simp only [mqStep] at hrun
    split at hrun
    · rename_i node size ha
      split at hrun
      · cases hrun
        obtain ⟨queue, free, hroles, hcontents⟩ := h
        refine quiet_refines ⟨queue, free, ⟨hroles.head, hroles.tail, hroles.entry,
          hroles.freeList, hroles.placed.goto_same ?_⟩, hcontents.copy ha _⟩
        rw [ha]
        rfl
      · cases hrun
    · cases hrun
  | free a =>
    simp only [mqStep] at hrun
    split at hrun
    · rename_i node buffer ha
      split at hrun
      · obtain ⟨k, -, rfl⟩ := map_eq_some_iff.mp hrun
        obtain ⟨queue, free, hroles, hcontents⟩ := h
        have hnode : (s.control a).node = some node := by rw [ha]; rfl
        refine quiet_refines ⟨queue, node :: free, hroles.put_free hnode rfl,
          hcontents.goto rfl (fun b n hb hn => ?_) (.inl rfl)⟩
        have hne : n ≠ node := fun heq => hb (hroles.placed.alone b a node (heq ▸ hn) hnode)
        exact update_of_ne hne _ _
      · cases hrun
    · cases hrun
  | reset a =>
    simp only [mqStep] at hrun
    split at hrun
    · rename_i ha
      split at hrun
      · obtain ⟨k, -, rfl⟩ := map_eq_some_iff.mp hrun
        exact ⟨_, rfl, mq_reset_refines h ha⟩
      · cases hrun
    · cases hrun

end

/-- The state after `rt_mq_init`, before the first thread is created. -/
def mqStart (config : MqConfig) (next : Nat → Option Nat) (data : Nat → Nat → UInt8) :
    MqSys τ ι where
  kernel := boot
  mq := rtMqInit config next data
  control := fun _ => .idle

/-- The links, receives and resets of every run are a run of the deque, and the queue stands for the
deque that it ends with: each node has one role, `entry` and `msg_queue_tail` describe the queue
list, and messages are received as they were sent. -/
theorem mq_refines_deque {config : MqConfig} {receivers senders : ι} {flag : IpcFlag}
    {next : Nat → Option Nat} {data : Nat → Nat → UInt8} {ops : List (MqOp τ ι)} {s : MqSys τ ι}
    (hrun : exec (mqStep config receivers senders flag) (mqStart config next data) ops = some s) :
    ∃ d, exec Deque.step Deque.empty
        (trace (mqStep config receivers senders flag) mqEvent (mqStart config next data) ops) =
          some d ∧
      MqRefines config s d := by
  refine exec_simulation (R := MqRefines config)
    (fun _ op _ _ h hstep => mq_step_refines op h hstep) ?_ hrun
  refine ⟨[], _, roles_init next data, .nil, ?_, ?_, ?_⟩
  · intro a urgent n message ha
    cases ha
  · intro a n size ha
    cases ha
  · intro a n buffer ha
    cases ha

/-- A pool of two nodes with four bytes each. -/
def smallMq : MqConfig where
  msgSize := 4
  maxMsgs := 2
  maxMsgs_lt := by decide

/-- While thread 1 fills its node, an interrupt sends an urgent message, which thread 1 then
receives. -/
def someMqOps : List (MqOp (Fin 2) Bool) :=
  [.kernel (.init 0 255 none true false), .kernel (.init 1 10 none true false),
   .kernel (.startup 0), .kernel .schedule, .kernel (.startup 1), .recv (.thread 1) 8 .forever,
   .send (.isr 0) false (.bytes [1, 2, 3]), .fill (.isr 0), .link (.isr 0), .again 1 false,
   .copy (.thread 1), .send (.isr 1) true (.null 4), .free (.thread 1),
   .send (.thread 1) false (.bytes [7]), .fill (.isr 1), .link (.isr 1), .fill (.thread 1),
   .link (.thread 1), .recv (.thread 1) 2 .no, .copy (.thread 1)]

theorem some_mq_ops_refine : ∃ s d,
    exec (mqStep smallMq true false .fifo) (mqStart smallMq (fun _ => none) fun _ _ => 5)
      someMqOps = some s ∧
    exec Deque.step Deque.empty (trace (mqStep smallMq true false .fifo) mqEvent
      (mqStart smallMq (fun _ => none) fun _ _ => 5) someMqOps) = some d ∧
    MqRefines smallMq s d := by
  have hrun : (exec (mqStep smallMq true false .fifo)
      (mqStart smallMq (fun _ => none) fun _ _ => 5) someMqOps).isSome = true := by
    decide +kernel
  obtain ⟨s, hs⟩ := isSome_iff_exists.mp hrun
  obtain ⟨d, hd, hrefines⟩ := mq_refines_deque hs
  exact ⟨s, d, hs, hd, hrefines⟩

end FullhanRtos.Ipc
