import FullhanRtos.Lib.CString
import FullhanRtos.Lib.Memory
import FullhanRtos.Lib.Transition
import FullhanRtos.Lib.Word

/-!
# The run log

`runlog.c` of `kernel/src`: nodes of four kinds that are written one behind the other into a log in
memory, from its header to close to its end and then from the header again, and the loops that read
the log. There is one log for all CPUs or, with `RT_RUNLOG_MEM_PERCPU`, one for each. Interrupts are
disabled while a node is added, so that an addition is one step.
-/

namespace FullhanRtos.Runlog

open Bytes Function List Option BitVec Memory Word

/-! ## Nodes -/

/-- The arguments of the calls that add a node. -/
inductive TraceNode where
  | sched (prev next : BitVec 32) (name : List Byte)
  | func (f line enter : BitVec 32)
  | irq (irqNo enter : BitVec 32)
  | usr (des : List Byte) (enter : BitVec 32)

def TraceNode.type : TraceNode → Nat
  | .sched .. => 0
  | .func .. => 1
  | .irq .. => 2
  | .usr .. => 3

def traceMagic : Nat := 0xa579

/-- A field of 16 bytes after `rt_strncpy`, whose last byte is cleared. -/
def textField (s : List Byte) : List Byte :=
  let text := (CString.cString s).take 15
  text ++ List.replicate (16 - text.length) 0

/-- `struct trace_sched` to `struct trace_usr` -/
def TraceNode.data : TraceNode → List Byte
  | .sched prev next name => leBytes 4 prev.toNat ++ leBytes 4 next.toNat ++ textField name
  | .func f line enter => leBytes 4 f.toNat ++ leBytes 2 line.toNat ++ leBytes 2 enter.toNat
  | .irq irqNo enter => leBytes 2 irqNo.toNat ++ leBytes 2 enter.toNat
  | .usr des enter => leBytes 4 enter.toNat ++ textField des

/-- A call on a CPU at a time. -/
structure Entry where
  cpu : Nat
  pts : BitVec 64
  node : TraceNode

/-- The bit fields `magic`, `type`, `cpu` and `pts_hi` of a `struct trace_node`. -/
def Entry.word (e : Entry) : Nat :=
  traceMagic + 2 ^ 16 * (e.node.type + 4 * (e.cpu % 4 + 4 * (e.pts.toNat / 2 ^ 32 % 2 ^ 12)))

def Entry.bytes (e : Entry) : List Byte :=
  leBytes 4 e.word ++ leBytes 4 e.pts.toNat ++ e.node.data

def traceHeadSize : Nat := 64

def maxTraceSize : Nat := 32

/-! ## Writing -/

/-- The configuration, and where the memory of the logs was found. -/
structure Config where
  base : Nat
  runlogSizeKb : Nat
  nrCpus : Nat
  memPercpu : Bool
  base_pos : 0 < base
  size_pos : 0 < runlogSizeKb
  nrCpus_pos : 0 < nrCpus
  fits : base + (if memPercpu then nrCpus else 1) * (runlogSizeKb * 1024) ≤ 2 ^ 32

def Config.runlogSize (cfg : Config) : Nat := cfg.runlogSizeKb * 1024

def Config.logs (cfg : Config) : Nat := if cfg.memPercpu then cfg.nrCpus else 1

def Config.logOf (cfg : Config) (cpu : Nat) : Nat := if cfg.memPercpu then cpu else 0

def Config.traceMemVaddr (cfg : Config) (i : Nat) : Nat := cfg.base + i * cfg.runlogSize

/-- The variables of the module with the memory, and the nodes that were added to each log with
their positions, which is not in the program. -/
structure State where
  tracePos : Nat → Nat
  traceSts : BitVec 32
  mem : Nat → Byte
  added : Nat → List (Nat × Entry)

/-- Whether the position goes back to the header behind a node. -/
def Config.Wraps (cfg : Config) (place : Nat × Entry) : Prop :=
  cfg.runlogSize ≤ place.1 + place.2.bytes.length + maxTraceSize

instance (cfg : Config) (place : Nat × Entry) : Decidable (cfg.Wraps place) :=
  inferInstanceAs (Decidable (_ ≤ _))

def addTraceNode (cfg : Config) (s : State) (e : Entry) : State :=
  if s.traceSts &&& 3 ≠ 1 then s
  else
    let i := cfg.logOf e.cpu
    let vaddr := cfg.traceMemVaddr i
    let pos := s.tracePos i
    let mem := Memory.write (Memory.write s.mem (vaddr + 4) (leBytes 4 pos)) (vaddr + pos) e.bytes
    let next := pos + e.bytes.length
    { s with
      tracePos :=
        update s.tracePos i (if cfg.Wraps (pos, e) then traceHeadSize else next)
      mem := if cfg.Wraps (pos, e) then Memory.write mem (vaddr + 8) (leBytes 4 next) else mem
      added := update s.added i (s.added i ++ [(pos, e)]) }

/-- `init_trace_head`, over the memory that was cleared. -/
def traceHead (cfg : Config) (i offset : Nat) : List Byte :=
  leBytes 4 0x524c0100 ++ leBytes 4 0 ++ leBytes 4 0 ++ leBytes 4 (cfg.logs * cfg.runlogSize) ++
    leBytes 4 (if cfg.memPercpu then i else cfg.nrCpus) ++ leBytes 4 cfg.nrCpus ++ leBytes 4 offset

def initTraceHeads (cfg : Config) (offset : Nat) : Nat → (Nat → Byte) → Nat → Byte
  | 0, mem => mem
  | n + 1, mem =>
    Memory.write (initTraceHeads cfg offset n mem) (cfg.traceMemVaddr n) (traceHead cfg n offset)

/-- `runlog_init`, which may start to trace at once. -/
def runlogInit (cfg : Config) (mem : Nat → Byte) (offset : Nat) (startup : Bool) : State where
  tracePos _ := traceHeadSize
  traceSts := if startup then 1 else 0
  mem := initTraceHeads cfg offset cfg.logs
    (Memory.write mem cfg.base (List.replicate (cfg.logs * cfg.runlogSize) 0))
  added _ := []

inductive Event where
  | add (e : Entry)
  | setTraceStatus (status : BitVec 32)

/-- A step needs a CPU of the machine. -/
def runlogStep (cfg : Config) (s : State) : Event → Option State
  | .add e => if e.cpu < cfg.nrCpus then some (addTraceNode cfg s e) else none
  | .setTraceStatus status => some { s with traceSts := status }

/-! ## Reading -/

/-- The bit field `type` of the node at an address. -/
def nodeType (mem : Nat → Byte) (n : Nat) : Nat := (mem (Word.add32 n 2)).toNat % 4

def nodeMagic (mem : Nat → Byte) (n : Nat) : Nat :=
  (mem n).toNat + 256 * (mem (Word.add32 n 1)).toNat

def typeLen : Nat → Nat
  | 0 => 24
  | 1 => 8
  | 2 => 4
  | _ => 20

def nextNode (mem : Nat → Byte) (n : Nat) : Nat := Word.add32 n (8 + typeLen (nodeType mem n))

def findNextValidNode (mem : Nat → Byte) : Nat → Nat → Nat
  | 0, n => n
  | steps + 1, n =>
    if nodeMagic mem n = traceMagic then n
    else findNextValidNode mem steps (Word.add32 n 4)

/-- The first loop of `_dump_trace_log`, over what the last lap left: the addresses that were
visited and whether a node was found there. It runs for at most `fuel` rounds. -/
def dumpOld (mem : Nat → Byte) (bound : Nat) : Nat → Nat → Option (List (Nat × Bool))
  | 0, _ => none
  | fuel + 1, n =>
    if n < bound then
      if nodeMagic mem n = traceMagic then
        (dumpOld mem bound fuel (nextNode mem n)).map ((n, true) :: ·)
      else
        (dumpOld mem bound fuel (findNextValidNode mem (maxTraceSize / 4) n)).map
          ((n, false) :: ·)
    else some []

/-- The second loop, over this lap, with the address at which it ends. -/
def dumpNew (mem : Nat → Byte) (bound : Nat) : Nat → Nat → Option (List (Nat × Bool) × Nat)
  | 0, _ => none
  | fuel + 1, n =>
    if n < bound then
      (dumpNew mem bound fuel (nextNode mem n)).map fun (visited, last) =>
        ((n, decide (nodeMagic mem n = traceMagic)) :: visited, last)
    else some ([], n)

/-- The field `end` of the header. -/
def headEnd (cfg : Config) (mem : Nat → Byte) (i : Nat) : Nat :=
  leValue (Memory.read mem (cfg.traceMemVaddr i + 8) 4)

def dumpTraceLog (cfg : Config) (mem : Nat → Byte) (tracePos i fuel : Nat) :
    Option (List (Nat × Bool)) :=
  let vaddr := cfg.traceMemVaddr i
  let old :=
    if headEnd cfg mem i = 0 then some []
    else
      dumpOld mem (Word.add32 vaddr (headEnd cfg mem i)) fuel
        (findNextValidNode mem (maxTraceSize / 4) (Word.add32 vaddr tracePos))
  old.bind fun old =>
    (dumpNew mem (Word.add32 vaddr tracePos) fuel (Word.add32 vaddr traceHeadSize)).map fun new =>
      old ++ new.1

/-- `runlog_read`; a position may be negative. -/
def runlogRead (cfg : Config) (mem : Nat → Byte) (pos : Int) (size : Nat) : List Byte :=
  let runlogSize : Int := (cfg.logs * cfg.runlogSize : Nat)
  if runlogSize ≤ pos then []
  else
    let size := if (runlogSize - pos).toNat < size then (runlogSize - pos).toNat else size
    (List.range size).map fun k => mem (((cfg.base : Int) + pos + k) % 2 ^ 32).toNat

/-! ## The bytes of a node -/

variable {cfg : Config} {s s' : State} {e : Entry} {entries : List Entry} {mem mem' : Nat → Byte}
  {a : Event} {i j n bound fuel : Nat}

@[simp] theorem length_text_field (s : List Byte) : (textField s).length = 16 := by
  have hle : ((CString.cString s).take 15).length ≤ 15 := length_take_le 15 _
  unfold textField
  rw [length_append, length_replicate]
  omega

/-- The sizes of the writer are those in the table of the reader. -/
theorem length_data (node : TraceNode) : node.data.length = typeLen node.type := by
  cases node <;> simp [TraceNode.data, TraceNode.type, typeLen]

theorem type_lt (node : TraceNode) : node.type < 4 := by
  cases node <;> simp [TraceNode.type]

@[simp] theorem length_entry (e : Entry) : e.bytes.length = 8 + typeLen e.node.type := by
  rw [Entry.bytes, length_append, length_append, length_le_bytes, length_le_bytes, length_data]

theorem type_len_bounds (type : Nat) : 4 ≤ typeLen type ∧ typeLen type ≤ 24 := by
  unfold typeLen
  split <;> omega

theorem node_word (h : Memory.read mem n e.bytes.length = e.bytes) :
    mem n = BitVec.ofNat 8 e.word ∧ mem (n + 1) = BitVec.ofNat 8 (e.word / 256) ∧
      mem (n + 1 + 1) = BitVec.ofNat 8 (e.word / 256 / 256) := by
  have hword : read mem n 4 = leBytes 4 e.word := by
    have hsplit := read_append_iff.mp
      (show read mem n (leBytes 4 e.word ++ (leBytes 4 e.pts.toNat ++ e.node.data)).length =
        leBytes 4 e.word ++ (leBytes 4 e.pts.toNat ++ e.node.data) by
          rw [← List.append_assoc]; exact h)
    simpa using hsplit.1
  obtain ⟨hfirst, hrest⟩ := List.cons.inj hword
  obtain ⟨hsecond, hrest⟩ := List.cons.inj hrest
  exact ⟨hfirst, hsecond, (List.cons.inj hrest).1⟩

theorem node_read (h : Memory.read mem n e.bytes.length = e.bytes) (hfits : n + 2 < 2 ^ 32) :
    nodeMagic mem n = traceMagic ∧ nodeType mem n = e.node.type := by
  obtain ⟨hfirst, hsecond, hthird⟩ := node_word h
  have hone : add32 n 1 = n + 1 := add32_eq (by omega)
  have htwo : add32 n 2 = n + 1 + 1 := add32_eq hfits
  have htype := type_lt e.node
  constructor
  · rw [nodeMagic, hone, hfirst, hsecond, toNat_ofNat, toNat_ofNat, Entry.word, traceMagic]
    omega
  · rw [nodeType, htwo, hthird, toNat_ofNat, Entry.word, traceMagic]
    omega

theorem next_node_read (h : Memory.read mem n e.bytes.length = e.bytes)
    (hfits : n + e.bytes.length < 2 ^ 32) : nextNode mem n = n + e.bytes.length := by
  rw [length_entry] at hfits
  rw [nextNode, (node_read h (by omega)).2, length_entry]
  exact add32_eq hfits

/-! ## Writing -/

/-- The nodes that were added since the position last went back. -/
def sinceWrap (cfg : Config) (added : List (Nat × Entry)) : List Entry :=
  (added.reverse.takeWhile fun place => ¬ cfg.Wraps place).reverse.map Prod.snd

theorem since_wrap_append (added : List (Nat × Entry)) (place : Nat × Entry) :
    sinceWrap cfg (added ++ [place]) =
      if cfg.Wraps place then [] else sinceWrap cfg added ++ [place.2] := by
  unfold sinceWrap
  rw [List.reverse_append, reverse_singleton, singleton_append]
  by_cases hwraps : cfg.Wraps place
  · rw [takeWhile_cons_of_neg (by simpa using hwraps), if_pos hwraps]
    rfl
  · rw [takeWhile_cons_of_pos (by simpa using hwraps), if_neg hwraps, reverse_cons, map_append]
    rfl

/-- The bytes of nodes behind each other. -/
def lapBytes (entries : List Entry) : List Byte := (entries.map Entry.bytes).flatten

theorem lap_bytes_cons : lapBytes (e :: entries) = e.bytes ++ lapBytes entries := rfl

theorem lap_bytes_append : lapBytes (entries ++ [e]) = lapBytes entries ++ e.bytes := by
  simp [lapBytes]

/-- The position of a log is where the nodes of the current lap end, which are in memory, and there
is room for another one. -/
structure LogOk (cfg : Config) (s : State) (i : Nat) : Prop where
  room : s.tracePos i + maxTraceSize < cfg.runlogSize
  places : ∀ place ∈ s.added i,
    traceHeadSize ≤ place.1 ∧ place.1 + place.2.bytes.length < cfg.runlogSize
  pos : s.tracePos i = traceHeadSize + (lapBytes (sinceWrap cfg (s.added i))).length
  lap : Memory.read s.mem (cfg.traceMemVaddr i + traceHeadSize)
      (lapBytes (sinceWrap cfg (s.added i))).length = lapBytes (sinceWrap cfg (s.added i))

theorem LogOk.lower (h : LogOk cfg s i) : traceHeadSize ≤ s.tracePos i :=
  h.pos ▸ Nat.le_add_right _ _

theorem logs_apart (hne : i ≠ j) :
    cfg.traceMemVaddr i + cfg.runlogSize ≤ cfg.traceMemVaddr j ∨
      cfg.traceMemVaddr j + cfg.runlogSize ≤ cfg.traceMemVaddr i := by
  have hbelow : ∀ a b, a < b → a * cfg.runlogSize + cfg.runlogSize ≤ b * cfg.runlogSize := by
    intro a b hlt
    rw [← Nat.succ_mul]
    exact Nat.mul_le_mul_right _ hlt
  unfold Config.traceMemVaddr
  rcases Nat.lt_or_gt_of_ne hne with hlt | hgt
  · have := hbelow i j hlt
    omega
  · have := hbelow j i hgt
    omega

/-- An addition writes to two fields of the header and to the place of the node. -/
theorem add_mem_outside {a : Nat}
    (hhead : a < cfg.traceMemVaddr (cfg.logOf e.cpu) + 4 ∨
      cfg.traceMemVaddr (cfg.logOf e.cpu) + 12 ≤ a)
    (hnode : a < cfg.traceMemVaddr (cfg.logOf e.cpu) + s.tracePos (cfg.logOf e.cpu) ∨
      cfg.traceMemVaddr (cfg.logOf e.cpu) + s.tracePos (cfg.logOf e.cpu) + e.bytes.length ≤ a) :
    (addTraceNode cfg s e).mem a = s.mem a := by
  have hmem : write (write s.mem (cfg.traceMemVaddr (cfg.logOf e.cpu) + 4)
      (leBytes 4 (s.tracePos (cfg.logOf e.cpu))))
      (cfg.traceMemVaddr (cfg.logOf e.cpu) + s.tracePos (cfg.logOf e.cpu)) e.bytes a = s.mem a := by
    rw [write_outside hnode, write_outside (by rw [length_le_bytes]; omega)]
  unfold addTraceNode
  split
  · rfl
  · dsimp only
    split
    · rw [write_outside (by rw [length_le_bytes]; omega), hmem]
    · exact hmem

theorem add_mem_node (cfg : Config) (e : Entry) (hrecording : s.traceSts &&& 3 = 1)
    (hpos : traceHeadSize ≤ s.tracePos (cfg.logOf e.cpu)) :
    Memory.read (addTraceNode cfg s e).mem
      (cfg.traceMemVaddr (cfg.logOf e.cpu) + s.tracePos (cfg.logOf e.cpu)) e.bytes.length =
        e.bytes := by
  unfold traceHeadSize at hpos
  unfold addTraceNode
  rw [if_neg (not_not.mpr hrecording)]
  dsimp only
  split
  · rw [read_write_disjoint (by rw [length_le_bytes]; omega), read_write_same]
  · exact read_write_same

theorem add_other_log (h : LogOk cfg s i) (hlog : LogOk cfg s (cfg.logOf e.cpu))
    (hne : i ≠ cfg.logOf e.cpu) : LogOk cfg (addTraceNode cfg s e) i := by
  have hpos : (addTraceNode cfg s e).tracePos i = s.tracePos i := by
    unfold addTraceNode
    split
    · rfl
    · exact update_of_ne hne _ _
  have hadded : (addTraceNode cfg s e).added i = s.added i := by
    unfold addTraceNode
    split
    · rfl
    · exact update_of_ne hne _ _
  refine ⟨hpos ▸ h.room, hadded ▸ h.places, by rw [hpos, hadded]; exact h.pos, ?_⟩
  rw [hadded]
  refine (read_congr fun a hlo hhi => ?_).trans h.lap
  have hroom := h.room
  have hend := h.pos
  have hroom' := hlog.room
  have hbounds := type_len_bounds e.node.type
  have hlen := length_entry e
  have hapart : cfg.traceMemVaddr i + cfg.runlogSize ≤ cfg.traceMemVaddr (cfg.logOf e.cpu) ∨
      cfg.traceMemVaddr (cfg.logOf e.cpu) + cfg.runlogSize ≤ cfg.traceMemVaddr i :=
    logs_apart hne
  unfold maxTraceSize at hroom hroom'
  exact add_mem_outside (by omega) (by omega)

theorem add_own_log (h : LogOk cfg s (cfg.logOf e.cpu)) :
    LogOk cfg (addTraceNode cfg s e) (cfg.logOf e.cpu) := by
  by_cases hrecording : s.traceSts &&& 3 = 1
  · have hpos : (addTraceNode cfg s e).tracePos (cfg.logOf e.cpu) =
        if cfg.Wraps (s.tracePos (cfg.logOf e.cpu), e) then traceHeadSize
        else s.tracePos (cfg.logOf e.cpu) + e.bytes.length := by
      unfold addTraceNode
      rw [if_neg (not_not.mpr hrecording)]
      exact update_self _ _ _
    have hadded : (addTraceNode cfg s e).added (cfg.logOf e.cpu) =
        s.added (cfg.logOf e.cpu) ++ [(s.tracePos (cfg.logOf e.cpu), e)] := by
      unfold addTraceNode
      rw [if_neg (not_not.mpr hrecording)]
      exact update_self _ _ _
    have hnode := add_mem_node cfg e hrecording h.lower
    have hkept : read (addTraceNode cfg s e).mem
        (cfg.traceMemVaddr (cfg.logOf e.cpu) + traceHeadSize)
        (lapBytes (sinceWrap cfg (s.added (cfg.logOf e.cpu)))).length =
          lapBytes (sinceWrap cfg (s.added (cfg.logOf e.cpu))) := by
      refine (read_congr fun a hlo hhi => ?_).trans h.lap
      have hend := h.pos
      unfold traceHeadSize at hend hlo hhi
      exact add_mem_outside (by omega) (by omega)
    have hroom := h.room
    have hlower := h.lower
    have hbounds := type_len_bounds e.node.type
    have hlen := length_entry e
    have hend := h.pos
    have hplaces : ∀ place ∈ (addTraceNode cfg s e).added (cfg.logOf e.cpu),
        traceHeadSize ≤ place.1 ∧ place.1 + place.2.bytes.length < cfg.runlogSize := by
      rw [hadded]
      refine forall_mem_append.mpr ⟨h.places, forall_mem_singleton.mpr ⟨hlower, ?_⟩⟩
      unfold maxTraceSize at hroom
      show s.tracePos (cfg.logOf e.cpu) + e.bytes.length < _
      omega
    have hsize : 1024 ≤ cfg.runlogSize := Nat.le_mul_of_pos_left 1024 cfg.size_pos
    by_cases hwraps : cfg.Wraps (s.tracePos (cfg.logOf e.cpu), e)
    · rw [if_pos hwraps] at hpos
      have hlap : sinceWrap cfg ((addTraceNode cfg s e).added (cfg.logOf e.cpu)) = [] := by
        rw [hadded, since_wrap_append, if_pos hwraps]
      refine ⟨?_, hplaces, by rw [hpos, hlap]; rfl, by rw [hlap]; rfl⟩
      rw [hpos]
      show 64 + 32 < _
      omega
    · rw [if_neg hwraps] at hpos
      have hlap : sinceWrap cfg ((addTraceNode cfg s e).added (cfg.logOf e.cpu)) =
          sinceWrap cfg (s.added (cfg.logOf e.cpu)) ++ [e] := by
        rw [hadded, since_wrap_append, if_neg hwraps]
      refine ⟨?_, hplaces, ?_, ?_⟩
      · rw [hpos]
        exact Nat.lt_of_not_le hwraps
      · rw [hpos, hlap, lap_bytes_append, length_append, hend, add_assoc]
      · rw [hlap, lap_bytes_append]
        refine read_append_iff.mpr ⟨hkept, ?_⟩
        rw [add_assoc, ← hend]
        exact hnode
  · have hsame : addTraceNode cfg s e = s := if_pos hrecording
    exact hsame.symm ▸ h

theorem runlog_step_ok (hstep : runlogStep cfg s a = some s') (h : ∀ i, LogOk cfg s i) (i : Nat) :
    LogOk cfg s' i := by
  cases a with
  | add e =>
    obtain ⟨-, hadd⟩ := ite_none_right_eq_some.mp hstep
    obtain rfl := some.inj hadd
    by_cases hlog : i = cfg.logOf e.cpu
    · subst hlog
      exact add_own_log (h _)
    · exact add_other_log (h i) (h _) hlog
  | setTraceStatus status =>
    obtain rfl := some.inj hstep
    have hi := h i
    exact ⟨hi.room, hi.places, hi.pos, hi.lap⟩

theorem size_ge (cfg : Config) : 1024 ≤ cfg.runlogSize :=
  Nat.le_mul_of_pos_left 1024 cfg.size_pos

theorem runlog_init_ok (mem : Nat → Byte) (offset : Nat) (startup : Bool) (i : Nat) :
    LogOk cfg (runlogInit cfg mem offset startup) i where
  room := by
    have hsize := size_ge cfg
    show 64 + 32 < _
    omega
  places := nofun
  pos := rfl
  lap := rfl

/-! ## Reading -/

theorem log_fits (hi : i < cfg.logs) : cfg.traceMemVaddr i + cfg.runlogSize ≤ 2 ^ 32 := by
  have hbefore : i * cfg.runlogSize + cfg.runlogSize ≤ cfg.logs * cfg.runlogSize := by
    rw [← Nat.succ_mul]
    exact Nat.mul_le_mul_right _ hi
  have hfits : cfg.base + cfg.logs * cfg.runlogSize ≤ 2 ^ 32 := cfg.fits
  unfold Config.traceMemVaddr
  omega

/-- The walk over nodes that are in memory visits them in order and ends behind the last one. -/
theorem dump_new_visits (hlap : Memory.read mem n (lapBytes entries).length = lapBytes entries)
    (hfits : n + (lapBytes entries).length < 2 ^ 32) :
    ∃ visited, dumpNew mem (n + (lapBytes entries).length) (entries.length + 1) n =
        some (visited, n + (lapBytes entries).length) ∧
      Forall₂ (fun v e => v.2 = true ∧ Memory.read mem v.1 e.bytes.length = e.bytes)
        visited entries := by
  induction entries generalizing n with
  | nil => exact ⟨[], if_neg (lt_irrefl n), .nil⟩
  | cons e entries ih =>
    rw [lap_bytes_cons] at hlap hfits ⊢
    obtain ⟨hnode, hrest⟩ := read_append_iff.mp hlap
    rw [length_append] at hfits ⊢
    have hlen := length_entry e
    obtain ⟨visited, hwalk, hvisited⟩ := ih hrest (by omega)
    refine ⟨(n, true) :: visited, ?_, .cons ⟨rfl, hnode⟩ hvisited⟩
    rw [length_cons, dumpNew, if_pos (by omega), next_node_read hnode (by omega),
      ← add_assoc, hwalk, map_some, decide_eq_true (node_read hnode (by omega)).1]

theorem next_node_bounds (mem : Nat → Byte) (n : Nat) (hfits : n + 32 < 2 ^ 32) :
    n < nextNode mem n ∧ nextNode mem n ≤ n + 32 := by
  have hbounds := type_len_bounds (nodeType mem n)
  have hnext : nextNode mem n = n + (8 + typeLen (nodeType mem n)) := add32_eq (by omega)
  omega

/-- The search for a node does not go back. -/
theorem find_next_le (steps : Nat) (hfits : n + 4 * steps < 2 ^ 32) :
    n ≤ findNextValidNode mem steps n := by
  induction steps generalizing n with
  | zero => exact le_refl n
  | succ steps ih =>
    have hadd : add32 n 4 = n + 4 := add32_eq (by omega)
    rw [findNextValidNode, hadd]
    split
    · exact le_refl n
    · exact (Nat.le_add_right n 4).trans (ih (by omega))

theorem find_next_moves (hmagic : nodeMagic mem n ≠ traceMagic) (hfits : n + 32 < 2 ^ 32) :
    n < findNextValidNode mem (maxTraceSize / 4) n := by
  have hadd : add32 n 4 = n + 4 := add32_eq (by omega)
  have hle : n + 4 ≤ findNextValidNode mem 7 (n + 4) := find_next_le 7 (by omega)
  show n < findNextValidNode mem (7 + 1) n
  rw [findNextValidNode, if_neg hmagic, hadd]
  omega

/-- Every round of a loop over the nodes comes closer to a bound below the last 32 addresses. -/
theorem dump_old_ends (hbound : bound + 32 ≤ 2 ^ 32) (hfuel : bound - n < fuel) :
    (dumpOld mem bound fuel n).isSome := by
  induction fuel generalizing n with
  | zero => exact absurd hfuel (Nat.not_lt_zero _)
  | succ fuel ih =>
    rw [dumpOld]
    by_cases hn : n < bound
    · rw [if_pos hn]
      split
      · rw [isSome_map]
        have hnext := next_node_bounds mem n (by omega)
        exact ih (by omega)
      · rename_i hmagic
        rw [isSome_map]
        have hnext := find_next_moves hmagic (by omega)
        exact ih (by omega)
    · rw [if_neg hn]
      rfl

theorem dump_new_ends (hbound : bound + 32 ≤ 2 ^ 32) (hfuel : bound - n < fuel) :
    (dumpNew mem bound fuel n).isSome := by
  induction fuel generalizing n with
  | zero => exact absurd hfuel (Nat.not_lt_zero _)
  | succ fuel ih =>
    rw [dumpNew]
    by_cases hn : n < bound
    · rw [if_pos hn, isSome_map]
      have hnext := next_node_bounds mem n (by omega)
      exact ih (by omega)
    · rw [if_neg hn]
      rfl

/-- The end in the header is none, or an address below the last 32. -/
def HeadEndOk (cfg : Config) (mem : Nat → Byte) (i : Nat) : Prop :=
  headEnd cfg mem i = 0 ∨
    Word.add32 (cfg.traceMemVaddr i) (headEnd cfg mem i) + 32 ≤ 2 ^ 32

theorem dump_trace_log_ends {tracePos : Nat} (hi : i < cfg.logs)
    (hroom : tracePos + maxTraceSize < cfg.runlogSize) (hend : HeadEndOk cfg mem i) :
    ∃ fuel, (dumpTraceLog cfg mem tracePos i fuel).isSome := by
  have hfits := log_fits hi
  have hpos : add32 (cfg.traceMemVaddr i) tracePos = cfg.traceMemVaddr i + tracePos :=
    add32_eq (by omega)
  unfold maxTraceSize at hroom
  -- There is fuel for the distance of each loop to its bound.
  let oldBound := add32 (cfg.traceMemVaddr i) (headEnd cfg mem i)
  let newBound := cfg.traceMemVaddr i + tracePos
  refine ⟨oldBound + newBound + 1, ?_⟩
  have hnew : (dumpNew mem newBound (oldBound + newBound + 1)
      (add32 (cfg.traceMemVaddr i) traceHeadSize)).isSome :=
    dump_new_ends (by omega) (by omega)
  obtain ⟨new, hnew⟩ := isSome_iff_exists.mp hnew
  have hold : ∃ old, (if headEnd cfg mem i = 0 then some [] else
      dumpOld mem oldBound (oldBound + newBound + 1)
        (findNextValidNode mem (maxTraceSize / 4) newBound)) = some old := by
    refine isSome_iff_exists.mp ?_
    split
    · rfl
    · rename_i hne
      exact dump_old_ends (hend.resolve_left hne) (by omega)
  obtain ⟨old, hold⟩ := hold
  unfold dumpTraceLog
  dsimp only
  rw [hpos, hold, bind_some, hnew]
  rfl

theorem length_runlog_read (pos : Int) (size : Nat) :
    (runlogRead cfg mem pos size).length ≤ size := by
  unfold runlogRead
  dsimp only
  split
  · exact Nat.zero_le _
  · rw [length_map, length_range]
    split <;> omega

/-- In every state of every run each log is as it has to be, and the loops of the reader end for
every content of the memory with an end in the header that is not at the top of the addresses. -/
theorem runlog_walks {m : Nat → Byte} {offset : Nat} {startup : Bool} {events : List Event}
    (hrun : Transition.exec (runlogStep cfg) (runlogInit cfg m offset startup) events = some s)
    (hi : i < cfg.logs) :
    (traceHeadSize ≤ s.tracePos i ∧ s.tracePos i < cfg.runlogSize) ∧
    (∀ place ∈ s.added i,
      traceHeadSize ≤ place.1 ∧ place.1 + place.2.bytes.length < cfg.runlogSize) ∧
    (∃ fuel visited,
      dumpNew s.mem (cfg.traceMemVaddr i + s.tracePos i) fuel
          (cfg.traceMemVaddr i + traceHeadSize) =
        some (visited, cfg.traceMemVaddr i + s.tracePos i) ∧
      Forall₂ (fun v e => v.2 = true ∧ Memory.read s.mem v.1 e.bytes.length = e.bytes)
        visited (sinceWrap cfg (s.added i))) ∧
    (∀ mem, HeadEndOk cfg mem i → ∃ fuel, (dumpTraceLog cfg mem (s.tracePos i) i fuel).isSome) ∧
    ∀ mem pos size, (runlogRead cfg mem pos size).length ≤ size := by
  have hok : ∀ i, LogOk cfg s i :=
    Transition.exec_keeps (I := fun s => ∀ i, LogOk cfg s i)
      (fun _ _ _ h hstep => runlog_step_ok hstep h) (runlog_init_ok m offset startup) hrun
  have hlog := hok i
  have hroom := hlog.room
  refine ⟨⟨hlog.lower, (Nat.le_add_right _ _).trans_lt hroom⟩, hlog.places, ?_,
    fun mem => dump_trace_log_ends hi hroom, fun mem => length_runlog_read⟩
  have hfits := log_fits hi
  have hend : cfg.traceMemVaddr i + s.tracePos i = cfg.traceMemVaddr i + traceHeadSize +
      (lapBytes (sinceWrap cfg (s.added i))).length := by
    rw [hlog.pos, add_assoc]
  rw [hend]
  exact ⟨_, dump_new_visits hlog.lap (by omega)⟩

/-- One log of 1 KiB. -/
def someConfig : Config where
  base := 0xa0000000
  runlogSizeKb := 1
  nrCpus := 1
  memPercpu := false
  base_pos := by decide
  size_pos := by decide
  nrCpus_pos := by decide
  fits := by decide

def someEntry : Entry := ⟨0, 5, .irq 3 1⟩

def someState : State :=
  addTraceNode someConfig (runlogInit someConfig (fun _ => 0) 0 true) someEntry

theorem some_run_walks :
    sinceWrap someConfig (someState.added 0) = [someEntry] ∧
      (traceHeadSize ≤ someState.tracePos 0 ∧ someState.tracePos 0 < someConfig.runlogSize) ∧
      ∀ mem, HeadEndOk someConfig mem 0 →
        ∃ fuel, (dumpTraceLog someConfig mem (someState.tracePos 0) 0 fuel).isSome := by
  have hrun : Transition.exec (runlogStep someConfig)
      (runlogInit someConfig (fun _ => 0) 0 true) [.add someEntry] = some someState := rfl
  have hwalks := runlog_walks hrun (show 0 < someConfig.logs by decide)
  exact ⟨rfl, hwalks.1, hwalks.2.2.2.1⟩

theorem add_aligned (a : Nat) {b : Nat} (ha : a % 4 = 0) (hb : b % 4 = 0) :
    Word.add32 a b < 2 ^ 32 ∧ Word.add32 a b % 4 = 0 := by
  unfold add32
  omega

theorem next_node_aligned (mem : Nat → Byte) (haligned : n % 4 = 0) :
    nextNode mem n < 2 ^ 32 ∧ nextNode mem n % 4 = 0 := by
  refine add_aligned n haligned ?_
  unfold typeLen
  split <;> rfl

theorem find_next_aligned (mem : Nat → Byte) (steps : Nat) (hn : n < 2 ^ 32)
    (haligned : n % 4 = 0) :
    findNextValidNode mem steps n < 2 ^ 32 ∧ findNextValidNode mem steps n % 4 = 0 := by
  induction steps generalizing n with
  | zero => exact ⟨hn, haligned⟩
  | succ steps ih =>
    rw [findNextValidNode]
    split
    · exact ⟨hn, haligned⟩
    · obtain ⟨hlt, haligned'⟩ := add_aligned n haligned (show 4 % 4 = 0 from rfl)
      exact ih hlt haligned'

/-- No aligned pointer reaches a bound among the last three addresses: the loop steps over it, and
the pointer wraps. -/
theorem dump_old_never_ends (hbound : 2 ^ 32 - 4 < bound) (hn : n < 2 ^ 32)
    (haligned : n % 4 = 0) : dumpOld mem bound fuel n = none := by
  induction fuel generalizing n with
  | zero => rfl
  | succ fuel ih =>
    rw [dumpOld, if_pos (by omega)]
    split
    · obtain ⟨hlt, haligned'⟩ := next_node_aligned mem haligned
      rw [ih hlt haligned', map_none]
    · obtain ⟨hlt, haligned'⟩ := find_next_aligned mem (maxTraceSize / 4) hn haligned
      rw [ih hlt haligned', map_none]

/-- Its memory with an end in the header at the last address. -/
def someContent : Nat → Byte :=
  Memory.write (runlogInit someConfig (fun _ => 0) 0 true).mem 0xa0000008 (leBytes 4 0x5fffffff)

theorem dump_at_top_never_ends :
    (runlogInit someConfig (fun _ => 0) 0 true).tracePos 0 = 64 ∧
      ∀ fuel, dumpTraceLog someConfig someContent 64 0 fuel = none := by
  refine ⟨rfl, fun fuel => ?_⟩
  have hend : headEnd someConfig someContent 0 = 0x5fffffff := by
    have hread : read someContent 0xa0000008 4 = leBytes 4 0x5fffffff :=
      read_write_same
    show leValue (read someContent 0xa0000008 4) = 0x5fffffff
    rw [hread]
    exact le_value_bytes_of_lt (by decide)
  have hbound : add32 (someConfig.traceMemVaddr 0) 0x5fffffff = 0xffffffff := rfl
  have hstart : add32 (someConfig.traceMemVaddr 0) 64 = 0xa0000040 := rfl
  obtain ⟨hlt, haligned⟩ := find_next_aligned someContent (maxTraceSize / 4)
    (show 0xa0000040 < 2 ^ 32 by omega) (show 0xa0000040 % 4 = 0 from rfl)
  unfold dumpTraceLog
  dsimp only
  rw [hend, if_neg (by omega), hbound, hstart, dump_old_never_ends (by omega) hlt haligned,
    bind_none]

end FullhanRtos.Runlog
