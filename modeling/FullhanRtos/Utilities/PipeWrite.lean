import FullhanRtos.Utilities.Pipe

/-!
# What writes store

`rt_pipe_write`, and `pipe_fops_write` for a file that does not block, as the bytes they store and
the number they report. Both give the ring buffer a length of 16 bits, which makes no difference for
the counts of `pipe_writes_ok`.
-/

namespace FullhanRtos.Pipe

open Bytes Ringbuffer Transition Function List Option

set_option linter.unusedSectionVars false

def pipeWriteLoop : Nat → RtRingbuffer → List Byte → Nat → RtRingbuffer × Nat
  | 0, rb, _, writeBytes => (rb, writeBytes)
  | fuel + 1, rb, buffer, writeBytes =>
    if writeBytes < buffer.length then
      let put := rtRingbufferPut rb
        ((buffer.drop writeBytes).take ((buffer.length - writeBytes) % 2 ^ 16))
      if put.2 = 0 then (put.1, writeBytes)
      else pipeWriteLoop fuel put.1 buffer (writeBytes + put.2)
    else (rb, writeBytes)

/-- Every round but the last one stores a byte. -/
def rtPipeWrite (rb : RtRingbuffer) (buffer : List Byte) : RtRingbuffer × Nat :=
  pipeWriteLoop buffer.length rb buffer 0

section

variable {τ φ : Type} [DecidableEq τ] [DecidableEq φ]

/-- A call of `pipe_fops_write` that does not wait: its first tests and one round. -/
def nonblockWrite (s : PipeSys τ φ) (t : τ) (file : File φ) (buf : List Byte) :
    Option (PipeSys τ φ) :=
  let s := pipeFopsWrite s t file buf
  match s.place t with
  | .writing file buf ret => writeRound s t file buf ret
  | _ => some s

/-- Without readers the pipe stays as it is; otherwise the bytes that there is room for are stored
and counted, and `-EAGAIN` is for a request that finds no room. -/
def StoredBytes (q : Fifo.Queue Byte) (r : Nat) (s : PipeSys τ φ) (t : τ) (buf : List Byte)
    (s' : PipeSys τ φ) : Prop :=
  if s.readers = 0#8 then s' = s.leave t epipe
  else
    (∃ rb', s'.fifo = some rb' ∧ RingbufferOk rb' (q.put buf) r) ∧
      s'.accepted = s.accepted ++ buf.take q.space ∧
      s'.result t = if q.space = 0 ∧ buf ≠ [] then eagain else (min buf.length q.space : Nat)

end

/-- The length of 16 bits stands for the whole count, or for more than there is room for. -/
def Uncut (count space : Nat) : Prop := count < 2 ^ 16 ∨ space ≤ count % 2 ^ 16

variable {rb : RtRingbuffer} {q : Fifo.Queue Byte} {r : Nat} {buffer : List Byte}

/-! ## The bytes of a put -/

theorem Uncut.take (h : Uncut buffer.length q.space) :
    (buffer.take (buffer.length % 2 ^ 16)).take q.space = buffer.take q.space := by
  rcases h with hless | hle
  · rw [Nat.mod_eq_of_lt hless, take_length]
  · rw [take_take, Nat.min_eq_left hle]

theorem Uncut.put (h : Uncut buffer.length q.space) :
    q.put (buffer.take (buffer.length % 2 ^ 16)) = q.put buffer := by
  unfold Fifo.Queue.put
  simp only [h.take]

theorem Uncut.count (h : Uncut buffer.length q.space) :
    min (buffer.take (buffer.length % 2 ^ 16)).length q.space = min buffer.length q.space := by
  rw [min_comm, ← length_take, h.take, length_take, min_comm]

theorem put_nothing {xs : List Byte} (h : min xs.length q.space = 0) : q.put xs = q := by
  have hnil : xs.take q.space = [] := eq_nil_of_length_eq_zero (by rw [length_take]; omega)
  unfold Fifo.Queue.put
  simp only [hnil, append_nil]

/-! ## `rt_pipe_write` -/

/-- Nothing more is stored without room, or with a length that is cut to nothing. -/
theorem loop_stops {writeBytes : Nat} (h : RingbufferOk rb q r)
    (hstop : q.space = 0 ∨ (buffer.length - writeBytes) % 2 ^ 16 = 0) (fuel : Nat) :
    ∃ rb', pipeWriteLoop fuel rb buffer writeBytes = (rb', writeBytes) ∧ RingbufferOk rb' q r := by
  cases fuel with
  | zero => exact ⟨rb, rfl, h⟩
  | succ fuel =>
    rw [pipeWriteLoop]
    split
    · obtain ⟨hput, hlen⟩ := put_ok
        ((buffer.drop writeBytes).take ((buffer.length - writeBytes) % 2 ^ 16)) h
      have hnone : min ((buffer.drop writeBytes).take
          ((buffer.length - writeBytes) % 2 ^ 16)).length q.space = 0 := by
        rw [length_take]
        omega
      rw [put_nothing hnone] at hput
      exact ⟨_, if_pos (hlen.trans hnone), hput⟩
    · exact ⟨rb, rfl, h⟩

theorem pipe_write_ok (h : RingbufferOk rb q r) (huncut : Uncut buffer.length q.space) :
    ∃ rb', rtPipeWrite rb buffer = (rb', min buffer.length q.space) ∧
      RingbufferOk rb' (q.put buffer) r := by
  unfold rtPipeWrite
  cases hlength : buffer.length with
  | zero =>
    rw [put_nothing (by omega), Nat.zero_min]
    exact ⟨rb, rfl, h⟩
  | succ fuel =>
    obtain ⟨hput, hlen⟩ := put_ok (buffer.take (buffer.length % 2 ^ 16)) h
    rw [huncut.put] at hput
    rw [huncut.count] at hlen
    rw [pipeWriteLoop, if_pos (by omega), drop_zero, Nat.sub_zero]
    dsimp only
    rw [hlen, ← hlength]
    split
    · rename_i hnone
      rw [hnone]
      exact ⟨_, rfl, hput⟩
    · have hstop : (q.put buffer).space = 0 ∨
          (buffer.length - (0 + min buffer.length q.space)) % 2 ^ 16 = 0 := by
        have hitems : (q.put buffer).items.length = q.items.length + min q.space buffer.length := by
          show (q.items ++ buffer.take q.space).length = _
          rw [length_append, length_take]
        have hspace : q.space = q.capacity - q.items.length := rfl
        have hafter : (q.put buffer).space = q.capacity - (q.put buffer).items.length := rfl
        omega
      have hloop := loop_stops hput hstop fuel
      rw [zero_add] at hloop ⊢
      exact hloop

/-! ## `pipe_fops_write` -/

section

variable {τ φ : Type} [DecidableEq τ] [DecidableEq φ] {s : PipeSys τ φ} {t : τ} {file : File φ}

theorem nonblock_write_ok (h : RingbufferOk rb q r) (hfifo : s.fifo = some rb)
    (hnonblock : file.nonblock = true) (huncut : Uncut buffer.length q.space) :
    ∃ s', nonblockWrite s t file buffer = some s' ∧ StoredBytes q r s t buffer s' := by
  unfold nonblockWrite pipeFopsWrite StoredBytes
  by_cases hreaders : s.readers = 0#8
  · simp [hreaders, PipeSys.leave]
  by_cases hempty : buffer.length = 0
  · obtain rfl := eq_nil_of_length_eq_zero hempty
    simp [hreaders, PipeSys.leave, hfifo, put_nothing, h]
  obtain ⟨hput, hlen⟩ := put_ok (buffer.take (buffer.length % 2 ^ 16)) h
  rw [huncut.put] at hput
  rw [huncut.count] at hlen
  have htake : (buffer.take (buffer.length % 2 ^ 16)).take (min buffer.length q.space) =
      buffer.take q.space := by
    rw [← huncut.count, min_comm, ← take_eq_take_min, huncut.take]
  have hnil : buffer ≠ [] := fun hnil => hempty (hnil ▸ rfl)
  simp only [if_neg hreaders, if_neg hempty, update_self, writeRound, hfifo,
    drop_zero, Nat.sub_zero, hlen, htake, if_pos hnonblock, zero_add]
  -- All bytes, or as many as there is room for.
  split
  · rename_i hall
    refine ⟨_, rfl, ⟨_, rfl, hput⟩, rfl, (update_self ..).trans ?_⟩
    exact (if_neg fun hfull => by omega).symm
  · refine ⟨_, rfl, ⟨_, rfl, hput⟩, rfl, (update_self ..).trans ?_⟩
    exact if_congr ⟨fun hzero => ⟨by omega, hnil⟩, fun hfull => by omega⟩ rfl rfl

theorem round_progress {ret : Nat} (h : RingbufferOk rb q r) (hfifo : s.fifo = some rb)
    (hreaders : s.readers ≠ 0#8) (hspace : 0 < q.space)
    (hrest : (buffer.length - ret) % 2 ^ 16 ≠ 0) :
    ∃ s', writeRound s t file buffer ret = some s' ∧ s.accepted.length < s'.accepted.length := by
  obtain ⟨ptr, hptr⟩ : ∃ ptr, ptr = (buffer.drop ret).take ((buffer.length - ret) % 2 ^ 16) :=
    ⟨_, rfl⟩
  have hpos : 0 < ptr.length := by
    rw [hptr, length_take, length_drop]
    omega
  obtain ⟨-, hlen⟩ := put_ok ptr h
  have hmore : s.accepted.length < (s.accepted ++ ptr.take (rtRingbufferPut rb ptr).2).length := by
    rw [length_append, length_take, hlen]
    omega
  unfold writeRound
  rw [if_neg hreaders, hfifo]
  dsimp only
  rw [← hptr]
  split
  · exact ⟨_, rfl, hmore⟩
  · split
    · exact ⟨_, rfl, hmore⟩
    · exact ⟨_, rfl, hmore⟩

/-- The buffer of a pipe is always a bounded queue. -/
theorem pipe_step_holds {s s' : PipeSys τ φ} {op : PipeOp τ φ} (h : ∃ items, Holds s.fifo items)
    (hstep : pipeStep s op = some s') : ∃ items, Holds s'.fifo items := by
  cases op with obtain ⟨-, hrun⟩ := ite_none_right_eq_some.mp hstep
  | «open» f pool =>
    obtain ⟨fifo, hfifo, rfl⟩ := map_eq_some_iff.mp hrun
    split at hfifo
    · exact ⟨[], create_holds hfifo⟩
    · cases hfifo
      exact h
  | read t f count =>
    split at hrun
    · cases hrun
      unfold pipeFopsRead
      split <;> exact h
    · cases hrun
  | readLoop t =>
    split at hrun
    · unfold readRound at hrun
      obtain ⟨items, hitems⟩ := h
      split at hrun
      · cases hrun
        exact ⟨items, hitems⟩
      · split at hrun
        · cases hrun
        · rename_i rb hfifo
          rw [hfifo] at hitems
          obtain ⟨q, r, hok, -⟩ := hitems
          obtain ⟨hrest, -⟩ := get_ok (BitVec.setWidth 16 _) hok
          dsimp only at hrun
          split_ifs at hrun <;> cases hrun <;> exact ⟨_, _, _, hrest, rfl⟩
    · cases hrun
  | write t f buf =>
    split at hrun
    · cases hrun
      unfold pipeFopsWrite
      split
      · exact h
      · split <;> exact h
    · cases hrun
  | writeLoop t =>
    split at hrun
    · unfold writeRound at hrun
      obtain ⟨items, hitems⟩ := h
      split at hrun
      · cases hrun
        exact ⟨items, hitems⟩
      · split at hrun
        · cases hrun
        · rename_i rb hfifo
          rw [hfifo] at hitems
          obtain ⟨q, r, hok, -⟩ := hitems
          obtain ⟨hput, -⟩ := put_ok _ hok
          dsimp only at hrun
          split_ifs at hrun <;> cases hrun <;> exact ⟨_, _, _, hput, rfl⟩
    · cases hrun
  | close t f =>
    split at hrun
    · obtain ⟨-, hrun⟩ := ite_none_left_eq_some.mp hrun
      cases hrun
      show ∃ items, Holds (if s.refCount = 1#8 then none else s.fifo) items
      split
      · exact ⟨[], rfl⟩
      · exact h
    · cases hrun
  | closeEnd t =>
    split at hrun
    · cases hrun
      unfold closeEnd
      split
      · exact ⟨[], rfl⟩
      · exact h
    · cases hrun

/-- The bytes that writes store in any open pipe. -/
theorem pipe_writes_ok {isNamed : Bool} {bufsz : BitVec 16} {ops : List (PipeOp τ φ)}
    (hrun : exec pipeStep (pipeStart isNamed bufsz) ops = some s) (hfifo : s.fifo = some rb) :
    ∃ q r, RingbufferOk rb q r ∧
      (∀ buffer, Uncut buffer.length q.space →
        ∃ rb', rtPipeWrite rb buffer = (rb', min buffer.length q.space) ∧
          RingbufferOk rb' (q.put buffer) r) ∧
      (∀ t file buf, file.nonblock = true → Uncut buf.length q.space →
        ∃ s', nonblockWrite s t file buf = some s' ∧ StoredBytes q r s t buf s') ∧
      ∀ t file buf ret, s.readers ≠ 0#8 → 0 < q.space → (buf.length - ret) % 2 ^ 16 ≠ 0 →
        ∃ s', writeRound s t file buf ret = some s' ∧ s.accepted.length < s'.accepted.length := by
  have hinit : ∃ items, Holds (pipeStart isNamed bufsz : PipeSys τ φ).fifo items := ⟨[], rfl⟩
  obtain ⟨items, hitems⟩ := exec_keeps (fun _ _ _ h hstep => pipe_step_holds h hstep) hinit hrun
  rw [hfifo] at hitems
  obtain ⟨q, r, hok, -⟩ := hitems
  exact ⟨q, r, hok, fun _ huncut => pipe_write_ok hok huncut,
    fun _ _ _ hnonblock huncut => nonblock_write_ok hok hfifo hnonblock huncut,
    fun _ _ _ _ hreaders hspace hrest => round_progress hok hfifo hreaders hspace hrest⟩

end

/-- A pipe of eight bytes with a reader and a writer that does not block. -/
def somePipe : List (PipeOp Nat Nat) :=
  [.open ⟨0, true, false, false⟩ (some fun _ => 0), .open ⟨1, false, true, true⟩ none]

theorem some_pipe_writes : ∃ (s : PipeSys Nat Nat) (rb : RtRingbuffer),
    exec pipeStep (pipeStart false 8) somePipe = some s ∧ s.fifo = some rb ∧
      ∃ q r, RingbufferOk rb q r ∧
        ∃ rb', rtPipeWrite rb [1, 2, 3] = (rb', min 3 q.space) ∧
          RingbufferOk rb' (q.put [1, 2, 3]) r := by
  have hrun : (exec pipeStep (pipeStart false 8) somePipe).any
      (fun s : PipeSys Nat Nat => s.fifo.isSome) = true := by decide
  obtain ⟨s, hs, hsome⟩ := (Option.any_eq_true _ _).mp hrun
  obtain ⟨rb, hrb⟩ := isSome_iff_exists.mp hsome
  obtain ⟨q, r, hok, hwrite, -⟩ := pipe_writes_ok hs hrb
  exact ⟨s, rb, hs, hrb, q, r, hok, hwrite _ (.inl (by decide))⟩

/-- A request that finds no room reports `-EAGAIN`, not 0 bytes, and of 65536 bytes none is stored
in an empty buffer. -/
theorem writes_fall_short :
    ((exec pipeStep (pipeStart false 8) (somePipe ++
      [.write 1 ⟨1, false, true, true⟩ (replicate 8 7), .writeLoop 1])).bind fun s =>
        (nonblockWrite s 1 ⟨1, false, true, true⟩ [9]).map fun s' =>
          (s.fifo.map rtRingbufferSpaceLen, s'.result 1)) = some (some 0, -11) ∧
    ∃ rb, rtRingbufferInit (fun _ => 0) 8 = some rb ∧ rtRingbufferSpaceLen rb = 8 ∧
      (rtPipeWrite rb (replicate (2 ^ 16) 7)).2 = 0 := by
  refine ⟨by decide, _, rfl, by decide, ?_⟩
  unfold rtPipeWrite
  have hcut : ((replicate (2 ^ 16) (7 : Byte)).length - 0) % 2 ^ 16 = 0 := by
    rw [length_replicate]
    rfl
  obtain ⟨rb', hwrite, -⟩ := loop_stops (@init_ok _ (fun _ => 0) 8 rfl) (.inr hcut)
    (replicate (2 ^ 16) (7 : Byte)).length
  rw [hwrite]

end FullhanRtos.Pipe
