import FullhanRtos.Utilities.RingBuffer

/-!
# Pipes

`pipe_fops_open`, `pipe_fops_read`, `pipe_fops_write` and `pipe_fops_close` of
`kernel/utilities/pipe.c` on one pipe. What a call does while it holds `lock` is one step; the first
tests of a read and a write, and the test behind a close, are made without it. A thread that waits
in `reader_queue` or `writer_queue` comes back to its loop at any later step, so the queues
themselves are left out.

`accepted` and `delivered` are the bytes that writes put in and reads took out since the pipe was
last opened. `falseEof` says that a read reported the end of the file while a writer was open or
bytes were in the buffer. `pipe_stream_iff` says when no byte is lost.
-/

namespace FullhanRtos.Pipe

open Bytes Transition Ringbuffer Function List Option

set_option linter.unusedSectionVars false

/-! ## The calls -/

def eagain : Int := -11

def epipe : Int := -32

/-- An open file: its descriptor, its access mode and `O_NONBLOCK`. -/
structure File (φ : Type) where
  fd : φ
  reads : Bool
  writes : Bool
  nonblock : Bool
  deriving DecidableEq

/-- Where a thread is: in the loop of a read or a write, or behind the lock of a close. -/
inductive Place (φ : Type) where
  | idle
  | reading (file : File φ) (count : BitVec 32)
  | writing (file : File φ) (buf : List Byte) (ret : Nat)
  | closing

/-- `struct rt_pipe_device`, with the open files, the threads and what they have seen. -/
structure PipeSys (τ φ : Type) where
  isNamed : Bool
  bufsz : BitVec 16
  fifo : Option RtRingbuffer
  readers : BitVec 8
  writers : BitVec 8
  refCount : BitVec 8
  deleted : Bool
  files : List (File φ)
  place : τ → Place φ
  result : τ → Int
  accepted : List Byte
  delivered : List Byte
  falseEof : Bool

variable {τ φ : Type} [DecidableEq τ] [DecidableEq φ]

/-- The steps. `pool` is the memory that `rt_ringbuffer_create` gets, if any. -/
inductive PipeOp (τ φ : Type) where
  | open (file : File φ) (pool : Option (Nat → Byte))
  | read (t : τ) (file : File φ) (count : BitVec 32)
  | readLoop (t : τ)
  | write (t : τ) (file : File φ) (buf : List Byte)
  | writeLoop (t : τ)
  | close (t : τ) (file : File φ)
  | closeEnd (t : τ)

/-- The bytes in the buffer. -/
def fifoLen : Option RtRingbuffer → Nat
  | none => 0
  | some rb => rtRingbufferDataLen rb

def rtRingbufferCreate (pool : Option (Nat → Byte)) (size : BitVec 16) :
    Option (Option RtRingbuffer) :=
  if size = 0#16 then none
  else
    match pool with
    | none => some none
    | some pool => (rtRingbufferInit pool (size &&& ~~~3#16)).map some

/-- A counter after `++` or `--` for the files that have the access. -/
def countUp (n : BitVec 8) (has : Bool) : BitVec 8 := if has then n + 1#8 else n

def countDown (n : BitVec 8) (has : Bool) : BitVec 8 := if has then n - 1#8 else n

section

variable (s : PipeSys τ φ)

/-- Return from a call. -/
def PipeSys.leave (t : τ) (result : Int) : PipeSys τ φ :=
  { s with
    place := update s.place t .idle
    result := update s.result t result }

/-- No writer is open and the buffer is empty. -/
def PipeSys.AtEnd : Prop := (∀ f ∈ s.files, f.writes = false) ∧ fifoLen s.fifo = 0

instance : Decidable s.AtEnd := inferInstanceAs (Decidable (_ ∧ _))

/-- Return 0 from a read. -/
def PipeSys.endOfFile (t : τ) : PipeSys τ φ :=
  { s with falseEof := s.falseEof || !decide s.AtEnd }.leave t 0

def pipeFopsOpen (file : File φ) (pool : Option (Nat → Byte)) : Option (PipeSys τ φ) :=
  (if s.refCount = 0#8 then rtRingbufferCreate pool s.bufsz else some s.fifo).map fun fifo =>
    { s with
      fifo
      readers := countUp s.readers file.reads
      writers := countUp s.writers file.writes
      refCount := s.refCount + 1#8
      files := file :: s.files }

def pipeFopsRead (t : τ) (file : File φ) (count : BitVec 32) : PipeSys τ φ :=
  if s.writers = 0#8 then s.endOfFile t
  else { s with place := update s.place t (.reading file count) }

def readRound (t : τ) (file : File φ) (count : BitVec 32) : Option (PipeSys τ φ) :=
  if s.writers = 0#8 then some (s.endOfFile t)
  else
    match s.fifo with
    | none => none
    | some rb =>
      let (rb, bytes, len) := rtRingbufferGet rb (count.setWidth 16)
      let s := { s with fifo := some rb, delivered := s.delivered ++ bytes }
      if 0 < len then some (s.leave t len)
      else if file.nonblock then some (s.leave t eagain)
      else some s

def pipeFopsWrite (t : τ) (file : File φ) (buf : List Byte) : PipeSys τ φ :=
  if s.readers = 0#8 then s.leave t epipe
  else if buf.length = 0 then s.leave t 0
  else { s with place := update s.place t (.writing file buf 0) }

/-- One round of its loop. The length is cut to 16 bits. -/
def writeRound (t : τ) (file : File φ) (buf : List Byte) (ret : Nat) : Option (PipeSys τ φ) :=
  if s.readers = 0#8 then some (s.leave t (if ret = 0 then epipe else ret))
  else
    match s.fifo with
    | none => none
    | some rb =>
      let ptr := (buf.drop ret).take ((buf.length - ret) % 2 ^ 16)
      let (rb, len) := rtRingbufferPut rb ptr
      let s := { s with fifo := some rb, accepted := s.accepted ++ ptr.take len }
      let ret := ret + len
      if ret = buf.length then some (s.leave t ret)
      else if file.nonblock then some (s.leave t (if ret = 0 then eagain else ret))
      else some { s with place := update s.place t (.writing file buf ret) }

/-- `pipe_fops_close` up to the release of its lock. With the last file the stream ends. -/
def pipeFopsClose (t : τ) (file : File φ) : Option (PipeSys τ φ) :=
  let files := s.files.erase file
  if s.refCount = 1#8 ∧ s.fifo.isNone then none
  else
    some
      { s with
        fifo := if s.refCount = 1#8 then none else s.fifo
        readers := countDown s.readers file.reads
        writers := countDown s.writers file.writes
        refCount := s.refCount - 1#8
        files
        place := update s.place t .closing
        accepted := if files = [] then [] else s.accepted
        delivered := if files = [] then [] else s.delivered }

/-- The rest of `pipe_fops_close`, with `rt_pipe_delete`. -/
def closeEnd (t : τ) : PipeSys τ φ :=
  if s.refCount = 0#8 ∧ s.isNamed = false then
    { s with fifo := none, deleted := true }.leave t 0
  else s.leave t 0

/-- A step of a call on an open file, or on the place of a thread; nothing happens to a pipe that is
deleted. -/
def pipeStep : PipeOp τ φ → Option (PipeSys τ φ)
  | .open f pool =>
    if s.deleted = false ∧ ∀ g ∈ s.files, g.fd ≠ f.fd then pipeFopsOpen s f pool else none
  | .read t f count =>
    if s.deleted = false ∧ f ∈ s.files then
      match s.place t with
      | .idle => some (pipeFopsRead s t f count)
      | _ => none
    else none
  | .readLoop t =>
    if s.deleted = false then
      match s.place t with
      | .reading f count => readRound s t f count
      | _ => none
    else none
  | .write t f buf =>
    if s.deleted = false ∧ f ∈ s.files then
      match s.place t with
      | .idle => some (pipeFopsWrite s t f buf)
      | _ => none
    else none
  | .writeLoop t =>
    if s.deleted = false then
      match s.place t with
      | .writing f buf ret => writeRound s t f buf ret
      | _ => none
    else none
  | .close t f =>
    if s.deleted = false ∧ f ∈ s.files then
      match s.place t with
      | .idle => pipeFopsClose s t f
      | _ => none
    else none
  | .closeEnd t =>
    if s.deleted = false then
      match s.place t with
      | .closing => some (closeEnd s t)
      | _ => none
    else none

end

/-- The pipe that `rt_pipe_create` leaves. -/
def pipeStart (isNamed : Bool) (bufsz : BitVec 16) : PipeSys τ φ where
  isNamed
  bufsz
  fifo := none
  readers := 0#8
  writers := 0#8
  refCount := 0#8
  deleted := false
  files := []
  place := fun _ => .idle
  result := fun _ => 0
  accepted := []
  delivered := []
  falseEof := false

/-! ## The stream -/

def Holds : Option RtRingbuffer → List Byte → Prop
  | none, items => items = []
  | some rb, items => ∃ q r, RingbufferOk rb q r ∧ q.items = items

/-- The accepted bytes are those that were delivered and then those in the buffer, and no read ended
too early. -/
structure StreamOk (s : PipeSys τ φ) : Prop where
  stream : ∃ items, Holds s.fifo items ∧ s.accepted = s.delivered ++ items
  eof : s.falseEof = false

/-- A read that finds no writer finds no bytes either, and the buffer is made or dropped only when
it is empty or the last file is closed. -/
def KeepsBytes (s : PipeSys τ φ) : PipeOp τ φ → Prop
  | .open _ _ => s.refCount = 0#8 → fifoLen s.fifo = 0
  | .read _ _ _ | .readLoop _ => s.writers = 0#8 → s.AtEnd
  | .write _ _ _ | .writeLoop _ => True
  | .close _ _ => s.refCount = 1#8 → s.files.length = 1 ∨ fifoLen s.fifo = 0
  | .closeEnd _ => s.refCount = 0#8 → s.isNamed = false → fifoLen s.fifo = 0

/-- The open files are counted in 8 bits. -/
def Counted (s : PipeSys τ φ) : Prop := s.refCount = BitVec.ofNat 8 s.files.length

section

variable {s s' : PipeSys τ φ} {fifo : Option RtRingbuffer} {items : List Byte} {t : τ} {f : File φ}
  {pool : Option (Nat → Byte)}

theorem Holds.len (h : Holds fifo items) : fifoLen fifo = items.length := by
  cases fifo with
  | none =>
    obtain rfl : items = [] := h
    rfl
  | some rb =>
    obtain ⟨q, r, hok, rfl⟩ := h
    exact data_len_ok hok

/-- A buffer without bytes. -/
theorem Holds.empty_iff (h : Holds fifo items) : fifoLen fifo = 0 ↔ items = [] := by
  rw [h.len, length_eq_zero_iff]

theorem create_holds {size : BitVec 16} (h : rtRingbufferCreate pool size = some fifo) :
    Holds fifo [] := by
  unfold rtRingbufferCreate at h
  split at h
  · cases h
  · cases pool with
    | none =>
      cases h
      rfl
    | some pool =>
      obtain ⟨rb, hinit, rfl⟩ := map_eq_some_iff.mp h
      exact ⟨_, 0, init_ok hinit, rfl⟩

/-- A step that leaves the bytes alone. -/
theorem StreamOk.congr (h : StreamOk s) (hfifo : s'.fifo = s.fifo)
    (haccepted : s'.accepted = s.accepted) (hdelivered : s'.delivered = s.delivered)
    (heof : s'.falseEof = s.falseEof) : StreamOk s' := by
  obtain ⟨items, hitems, hstream⟩ := h.stream
  refine ⟨⟨items, hfifo ▸ hitems, ?_⟩, heof.trans h.eof⟩
  rw [haccepted, hdelivered]
  exact hstream

/-- When a buffer without bytes takes the place of the old one, nothing may have been in it. -/
theorem replaced_iff (h : StreamOk s) (hfifo : Holds s'.fifo [])
    (haccepted : s'.accepted = s.accepted) (hdelivered : s'.delivered = s.delivered)
    (heof : s'.falseEof = s.falseEof) : StreamOk s' ↔ fifoLen s.fifo = 0 := by
  obtain ⟨items, hitems, hstream⟩ := h.stream
  rw [hitems.empty_iff]
  constructor
  · rintro ⟨⟨items', hitems', hstream'⟩, -⟩
    have hnil : items' = [] := length_eq_zero_iff.mp (hitems'.len.symm.trans hfifo.len)
    rw [hnil, haccepted, hdelivered, hstream] at hstream'
    exact append_cancel_left hstream'
  · rintro rfl
    refine ⟨⟨[], hfifo, ?_⟩, heof.trans h.eof⟩
    rw [haccepted, hdelivered]
    exact hstream

/-- A read may return 0 exactly at the end. -/
theorem end_of_file_iff (h : StreamOk s) : StreamOk (s.endOfFile t) ↔ s.AtEnd := by
  have heof : (s.endOfFile t).falseEof = !decide s.AtEnd := by
    show (s.falseEof || !decide s.AtEnd) = _
    rw [h.eof, Bool.false_or]
  constructor
  · intro hkept
    have hfalse := hkept.eof
    rw [heof] at hfalse
    simpa using hfalse
  · intro hend
    obtain ⟨items, hitems, hstream⟩ := h.stream
    refine ⟨⟨items, hitems, hstream⟩, ?_⟩
    rw [heof]
    simpa using hend

/-- What a read gets is what the buffer held first. -/
theorem read_round_iff {count : BitVec 32} (h : StreamOk s)
    (hrun : readRound s t f count = some s') :
    (StreamOk s' ↔ (s.writers = 0#8 → s.AtEnd)) ∧ s'.refCount = s.refCount ∧
      s'.files = s.files := by
  unfold readRound at hrun
  by_cases hwriters : s.writers = 0#8
  · rw [if_pos hwriters] at hrun
    cases hrun
    refine ⟨?_, rfl, rfl⟩
    rw [end_of_file_iff h]
    exact ⟨fun hend _ => hend, fun hend => hend hwriters⟩
  · rw [if_neg hwriters] at hrun
    obtain ⟨items, hitems, hstream⟩ := h.stream
    cases hfifo : s.fifo with
    | none =>
      rw [hfifo] at hrun
      cases hrun
    | some rb =>
      rw [hfifo] at hrun hitems
      obtain ⟨q, r, hok, rfl⟩ := hitems
      obtain ⟨hrest, hbytes, -⟩ := get_ok (count.setWidth 16) hok
      -- The bytes move from the buffer to the reader, whatever the call returns.
      have hmoved : StreamOk
          { s with
            fifo := some (rtRingbufferGet rb (count.setWidth 16)).1
            delivered := s.delivered ++ (rtRingbufferGet rb (count.setWidth 16)).2.1 } := by
        refine ⟨⟨_, ⟨_, _, hrest, rfl⟩, ?_⟩, h.eof⟩
        show s.accepted = s.delivered ++ _ ++ q.items.drop _
        rw [hbytes, append_assoc, take_append_drop]
        exact hstream
      have hcond : s.writers = 0#8 → s.AtEnd := fun hzero => absurd hzero hwriters
      dsimp only at hrun
      split at hrun
      · cases hrun
        exact ⟨⟨fun _ => hcond, fun _ => hmoved.congr rfl rfl rfl rfl⟩, rfl, rfl⟩
      · split at hrun
        · cases hrun
          exact ⟨⟨fun _ => hcond, fun _ => hmoved.congr rfl rfl rfl rfl⟩, rfl, rfl⟩
        · cases hrun
          exact ⟨⟨fun _ => hcond, fun _ => hmoved⟩, rfl, rfl⟩

theorem write_round_ok {buf : List Byte} {ret : Nat} (h : StreamOk s)
    (hrun : writeRound s t f buf ret = some s') :
    StreamOk s' ∧ s'.refCount = s.refCount ∧ s'.files = s.files := by
  unfold writeRound at hrun
  split at hrun
  · cases hrun
    exact ⟨h.congr rfl rfl rfl rfl, rfl, rfl⟩
  · obtain ⟨items, hitems, hstream⟩ := h.stream
    cases hfifo : s.fifo with
    | none =>
      rw [hfifo] at hrun
      cases hrun
    | some rb =>
      rw [hfifo] at hrun hitems
      obtain ⟨q, r, hok, rfl⟩ := hitems
      dsimp only at hrun
      generalize (buf.drop ret).take ((buf.length - ret) % 2 ^ 16) = ptr at hrun
      obtain ⟨hput, hlen⟩ := put_ok ptr hok
      have hmoved : StreamOk
          { s with
            fifo := some (rtRingbufferPut rb ptr).1
            accepted := s.accepted ++ ptr.take (rtRingbufferPut rb ptr).2 } := by
        refine ⟨⟨_, ⟨_, _, hput, rfl⟩, ?_⟩, h.eof⟩
        show s.accepted ++ _ = s.delivered ++ (q.items ++ ptr.take q.space)
        rw [hlen, min_comm, ← take_eq_take_min, hstream, append_assoc]
      split at hrun
      · cases hrun
        exact ⟨hmoved.congr rfl rfl rfl rfl, rfl, rfl⟩
      · split at hrun
        · cases hrun
          exact ⟨hmoved.congr rfl rfl rfl rfl, rfl, rfl⟩
        · cases hrun
          exact ⟨hmoved.congr rfl rfl rfl rfl, rfl, rfl⟩

theorem open_iff (hcounted : Counted s) (h : StreamOk s) (hrun : pipeFopsOpen s f pool = some s') :
    Counted s' ∧ (StreamOk s' ↔ (s.refCount = 0#8 → fifoLen s.fifo = 0)) := by
  obtain ⟨fifo, hfifo, rfl⟩ := map_eq_some_iff.mp hrun
  constructor
  · show s.refCount + 1#8 = BitVec.ofNat 8 (s.files.length + 1)
    rw [hcounted, BitVec.ofNat_add]
  · by_cases hzero : s.refCount = 0#8
    · rw [if_pos hzero] at hfifo
      have hnew : StreamOk { s with fifo := fifo } ↔ fifoLen s.fifo = 0 :=
        replaced_iff h (create_holds hfifo) rfl rfl rfl
      refine ⟨fun hkept _ => hnew.mp (hkept.congr rfl rfl rfl rfl), fun hempty => ?_⟩
      exact (hnew.mpr (hempty hzero)).congr rfl rfl rfl rfl
    · rw [if_neg hzero] at hfifo
      cases hfifo
      exact ⟨fun _ hzero' => absurd hzero' hzero, fun _ => h.congr rfl rfl rfl rfl⟩

theorem close_iff (hcounted : Counted s) (h : StreamOk s) (hmem : f ∈ s.files)
    (hrun : pipeFopsClose s t f = some s') :
    Counted s' ∧ (StreamOk s' ↔ (s.refCount = 1#8 → s.files.length = 1 ∨ fifoLen s.fifo = 0)) := by
  unfold pipeFopsClose at hrun
  split at hrun
  · cases hrun
  · cases hrun
    have hlength : (s.files.erase f).length = s.files.length - 1 := length_erase_of_mem hmem
    have hpos : 0 < s.files.length := length_pos_of_mem hmem
    have hrest : s.files.erase f = [] ↔ s.files.length = 1 := by
      rw [← length_eq_zero_iff, hlength]
      omega
    constructor
    · show s.refCount - 1#8 = BitVec.ofNat 8 (s.files.erase f).length
      obtain ⟨n, hn⟩ : ∃ n, s.files.length = n + 1 := ⟨_, (Nat.sub_add_cancel hpos).symm⟩
      rw [hlength, hcounted, hn, BitVec.ofNat_add, Nat.add_sub_cancel]
      exact BitVec.add_sub_cancel _ _
    · by_cases hlast : s.files.length = 1
      · -- The last file is closed, and the counter says so.
        have hone : s.refCount = 1#8 := by rw [hcounted, hlast]
        refine ⟨fun _ _ => .inl hlast, fun _ => ⟨⟨[], ?_, ?_⟩, h.eof⟩⟩
        · show Holds (if s.refCount = 1#8 then none else s.fifo) []
          rw [if_pos hone]
          rfl
        · simp only [if_pos (hrest.mpr hlast), append_nil]
      · have hsame : ∀ l : List Byte, (if s.files.erase f = [] then [] else l) = l :=
          fun l => if_neg fun hnil => hlast (hrest.mp hnil)
        by_cases hone : s.refCount = 1#8
        · have hnew : StreamOk { s with fifo := none } ↔ fifoLen s.fifo = 0 :=
            replaced_iff h rfl rfl rfl rfl
          have hiff : (s.refCount = 1#8 → s.files.length = 1 ∨ fifoLen s.fifo = 0) ↔
              fifoLen s.fifo = 0 :=
            ⟨fun hcond => (hcond hone).resolve_left hlast, fun hempty _ => .inr hempty⟩
          rw [hiff, ← hnew]
          simp only [if_pos hone, hsame]
          exact ⟨fun hkept => hkept.congr rfl rfl rfl rfl, fun hkept => hkept.congr rfl rfl rfl rfl⟩
        · refine ⟨fun _ hone' => absurd hone' hone, fun _ => ?_⟩
          simp only [if_neg hone, hsame]
          exact h.congr rfl rfl rfl rfl

theorem close_end_iff (h : StreamOk s) :
    StreamOk (closeEnd s t) ↔ (s.refCount = 0#8 → s.isNamed = false → fifoLen s.fifo = 0) := by
  unfold closeEnd
  split
  · rename_i hdelete
    have hnew : StreamOk { s with fifo := none } ↔ fifoLen s.fifo = 0 :=
      replaced_iff h rfl rfl rfl rfl
    constructor
    · exact fun hkept _ _ => hnew.mp (hkept.congr rfl rfl rfl rfl)
    · exact fun hempty => (hnew.mpr (hempty hdelete.1 hdelete.2)).congr rfl rfl rfl rfl
  · rename_i hstays
    exact ⟨fun _ hzero hunnamed => absurd ⟨hzero, hunnamed⟩ hstays,
      fun _ => h.congr rfl rfl rfl rfl⟩

theorem pipe_step_iff {op : PipeOp τ φ} (hcounted : Counted s) (h : StreamOk s)
    (hrun : pipeStep s op = some s') : Counted s' ∧ (StreamOk s' ↔ KeepsBytes s op) := by
  cases op with
  | «open» f pool =>
    obtain ⟨-, hrun⟩ := ite_none_right_eq_some.mp hrun
    exact open_iff hcounted h hrun
  | read t f count =>
    obtain ⟨-, hrun⟩ := ite_none_right_eq_some.mp hrun
    split at hrun
    · cases hrun
      unfold pipeFopsRead
      split
      · rename_i hzero
        refine ⟨hcounted, (end_of_file_iff h).trans ⟨fun hend _ => hend, fun hend => hend hzero⟩⟩
      · rename_i hwriters
        exact ⟨hcounted, fun _ hzero => absurd hzero hwriters, fun _ => h.congr rfl rfl rfl rfl⟩
    · cases hrun
  | readLoop t =>
    obtain ⟨-, hrun⟩ := ite_none_right_eq_some.mp hrun
    split at hrun
    · obtain ⟨hiff, hcount, hfiles⟩ := read_round_iff h hrun
      refine ⟨?_, hiff⟩
      rw [Counted, hcount, hfiles]
      exact hcounted
    · cases hrun
  | write t f buf =>
    obtain ⟨-, hrun⟩ := ite_none_right_eq_some.mp hrun
    split at hrun
    · cases hrun
      unfold pipeFopsWrite
      split
      · exact ⟨hcounted, fun _ => trivial, fun _ => h.congr rfl rfl rfl rfl⟩
      · split
        · exact ⟨hcounted, fun _ => trivial, fun _ => h.congr rfl rfl rfl rfl⟩
        · exact ⟨hcounted, fun _ => trivial, fun _ => h.congr rfl rfl rfl rfl⟩
    · cases hrun
  | writeLoop t =>
    obtain ⟨-, hrun⟩ := ite_none_right_eq_some.mp hrun
    split at hrun
    · obtain ⟨hkept, hcount, hfiles⟩ := write_round_ok h hrun
      refine ⟨?_, fun _ => trivial, fun _ => hkept⟩
      rw [Counted, hcount, hfiles]
      exact hcounted
    · cases hrun
  | close t f =>
    obtain ⟨⟨-, hmem⟩, hrun⟩ := ite_none_right_eq_some.mp hrun
    split at hrun
    · exact close_iff hcounted h hmem hrun
    · cases hrun
  | closeEnd t =>
    obtain ⟨-, hrun⟩ := ite_none_right_eq_some.mp hrun
    split at hrun
    · cases hrun
      refine ⟨?_, close_end_iff h⟩
      unfold closeEnd
      split
      · exact hcounted
      · exact hcounted
    · cases hrun

end

/-- In every state of a run the accepted bytes are delivered in order or in the buffer, and no read
has ended too early, exactly if each read that finds no writer finds no bytes and the buffer is not
made or dropped over bytes while files are open. -/
theorem pipe_stream_iff {isNamed : Bool} {bufsz : BitVec 16} {ops : List (PipeOp τ φ)}
    {s : PipeSys τ φ} (hrun : exec pipeStep (pipeStart isNamed bufsz) ops = some s) :
    Always pipeStep StreamOk (pipeStart isNamed bufsz) ops ↔
      AllSteps pipeStep KeepsBytes (pipeStart isNamed bufsz) ops :=
  always_iff (A := fun _ => True) (fun _ _ _ _ hcounted h hstep => pipe_step_iff hcounted h hstep)
    (fun _ _ => trivial) rfl ⟨⟨[], rfl, rfl⟩, rfl⟩ hrun

/-- A reader and a writer: three bytes are written and two of them read. -/
def somePipeOps : List (PipeOp Nat Nat) :=
  [.open ⟨0, true, false, false⟩ (some fun _ => 0), .open ⟨1, false, true, false⟩ none,
   .write 1 ⟨1, false, true, false⟩ [7, 8, 9], .writeLoop 1,
   .read 0 ⟨0, true, false, false⟩ 2, .readLoop 0]

instance (s : PipeSys τ φ) (op : PipeOp τ φ) : Decidable (KeepsBytes s op) :=
  match op with
  | .open _ _ => inferInstanceAs (Decidable (s.refCount = 0#8 → fifoLen s.fifo = 0))
  | .read _ _ _ | .readLoop _ => inferInstanceAs (Decidable (s.writers = 0#8 → s.AtEnd))
  | .write _ _ _ | .writeLoop _ => .isTrue trivial
  | .close _ _ =>
    inferInstanceAs (Decidable (s.refCount = 1#8 → s.files.length = 1 ∨ fifoLen s.fifo = 0))
  | .closeEnd _ =>
    inferInstanceAs (Decidable (s.refCount = 0#8 → s.isNamed = false → fifoLen s.fifo = 0))

/-- The last byte is read before the writer closes. -/
theorem some_pipe_ops_kept : ∃ s, exec pipeStep (pipeStart false 8)
      (somePipeOps ++ [.read 0 ⟨0, true, false, false⟩ 2, .readLoop 0,
        .close 1 ⟨1, false, true, false⟩, .closeEnd 1, .read 0 ⟨0, true, false, false⟩ 2]) =
          some s ∧
    Always pipeStep StreamOk (pipeStart false 8)
      (somePipeOps ++ [.read 0 ⟨0, true, false, false⟩ 2, .readLoop 0,
        .close 1 ⟨1, false, true, false⟩, .closeEnd 1, .read 0 ⟨0, true, false, false⟩ 2]) := by
  have hrun : (exec pipeStep (pipeStart false 8)
      (somePipeOps ++ [.read 0 ⟨0, true, false, false⟩ 2, .readLoop 0,
        .close 1 ⟨1, false, true, false⟩, .closeEnd 1,
        .read 0 ⟨0, true, false, false⟩ 2])).isSome = true := by decide +kernel
  obtain ⟨s, hs⟩ := isSome_iff_exists.mp hrun
  exact ⟨s, hs, (pipe_stream_iff hs).mpr (by decide +kernel)⟩

/-- When the writer closes before the last byte is read, the reader finds the end of the file. -/
theorem tail_is_lost : ∃ s : PipeSys Nat Nat, exec pipeStep (pipeStart false 8)
      (somePipeOps ++ [.close 1 ⟨1, false, true, false⟩, .closeEnd 1,
        .read 0 ⟨0, true, false, false⟩ 2]) = some s ∧
    ¬ StreamOk s := by
  have hrun : (exec pipeStep (pipeStart false 8)
      (somePipeOps ++ [.close 1 ⟨1, false, true, false⟩, .closeEnd 1,
        .read 0 ⟨0, true, false, false⟩ 2])).any
      (fun s : PipeSys Nat Nat => s.falseEof) = true := by decide +kernel
  obtain ⟨s, hs, hfalse⟩ := (Option.any_eq_true _ _).mp hrun
  exact ⟨s, hs, fun hgood => Bool.false_ne_true (hgood.eof.symm.trans hfalse)⟩

end FullhanRtos.Pipe
