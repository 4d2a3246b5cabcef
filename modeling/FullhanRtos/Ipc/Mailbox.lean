import FullhanRtos.Lib.BoundedDeque
import FullhanRtos.Sched.Waiters

/-!
# Mailboxes

`rt_mb_init`, `rt_mb_send_wait`, `rt_mb_urgent`, `rt_mb_recv` and the reset of `rt_mb_control` of
`kernel/src/ipc.c`. The loops of the blocking calls are cut at their `rt_schedule`: `again` is the
next round of a call whose thread was suspended and runs again.

`mb_refines_bounded_deque` says that the calls that succeed are a run of a bounded deque, that the
offsets and the pool describe its content, and that a thread is suspended as a sender only by a call
that finds the mailbox full.
-/

namespace FullhanRtos.Ipc

open Sched Transition BoundedDeque Function List Option Nat

set_option linter.unusedSectionVars false

/-! ## The mailbox -/

/-- The fields that do not change. `receivers` and `senders` are the two suspend lists; `size` has
16 bits. -/
structure MbConfig (ι : Type) where
  size : Nat
  size_lt : size < 65536
  receivers : ι
  senders : ι
  lists : receivers ≠ senders
  flag : IpcFlag

/-- The fields of `struct rt_mailbox` that change, and its pool. -/
structure Mb where
  pool : Nat → UInt32
  entry : Nat
  inOffset : Nat
  outOffset : Nat

def rtMbInit (pool : Nat → UInt32) : Mb where
  pool := pool
  entry := 0
  inOffset := 0
  outOffset := 0

section

variable (size : Nat) (mb : Mb)

def nextOffset (offset : Nat) : Nat :=
  if size ≤ (offset + 1) % 65536 then 0 else (offset + 1) % 65536

/-- Rewind to the previous position. -/
def prevOffset (offset : Nat) : Nat :=
  if 0 < offset then offset - 1 else (size + 65535) % 65536

/-- Store a mail behind the last one. -/
def Mb.put (value : UInt32) : Mb :=
  { mb with
    pool := update mb.pool mb.inOffset value
    inOffset := nextOffset size mb.inOffset
    entry := (mb.entry + 1) % 65536 }

/-- Store a mail in front of the first one. -/
def Mb.putUrgent (value : UInt32) : Mb :=
  { mb with
    pool := update mb.pool (prevOffset size mb.outOffset) value
    outOffset := prevOffset size mb.outOffset
    entry := (mb.entry + 1) % 65536 }

/-- Remove the first mail. -/
def Mb.take : Mb :=
  { mb with
    outOffset := nextOffset size mb.outOffset
    entry := if 0 < mb.entry then mb.entry - 1 else mb.entry }

def Mb.reset : Mb := { mb with entry := 0, inOffset := 0, outOffset := 0 }

end

/-! ## Calls -/

/-- The call of a thread that was suspended in it. -/
inductive MbCall where
  | none
  | sending (value : UInt32) (time : WaitTime)
  | receiving (time : WaitTime)

/-- The threads, the mailbox and the suspended calls. `outcome` is what the last call of each caller
returned and `value` the variable that it receives a mail in. -/
structure MbSys (τ ι : Type) where
  kernel : Kernel τ ι
  mb : Mb
  call : τ → MbCall
  outcome : Agent τ → Outcome
  value : Agent τ → UInt32

/-- A call on the mailbox, or of a kernel function. -/
inductive MbOp (τ ι : Type) where
  | kernel (op : KernelOp τ ι)
  | send (a : Agent τ) (value : UInt32) (time : WaitTime)
  | urgent (a : Agent τ) (value : UInt32)
  | recv (a : Agent τ) (time : WaitTime)
  | again (t : τ) (expired : Bool)
  | reset (a : Agent τ)

variable {τ ι : Type} [DecidableEq τ] [DecidableEq ι]

/-- The caller is not inside a call. -/
def MbSys.Free (s : MbSys τ ι) : Agent τ → Prop
  | .thread t => s.call t = .none
  | .isr _ => True

instance MbSys.decidableFree (s : MbSys τ ι) (a : Agent τ) : Decidable (s.Free a) :=
  match a with
  | .thread t =>
    match h : s.call t with
    | .none => .isTrue h
    | .sending _ _ => .isFalse fun heq => by simp [MbSys.Free, h] at heq
    | .receiving _ => .isFalse fun heq => by simp [MbSys.Free, h] at heq
  | .isr _ => .isTrue trivial

/-- Return to the caller. -/
def MbSys.leave (s : MbSys τ ι) (a : Agent τ) (outcome : Outcome) : MbSys τ ι :=
  { s with
    outcome := update s.outcome a outcome
    call := match a with
      | .thread t => update s.call t .none
      | .isr _ => s.call }

def MbSys.suspend (s : MbSys τ ι) (t : τ) (o : ι) (flag : IpcFlag) (time : WaitTime)
    (call : MbCall) : Option (MbSys τ ι) :=
  (blockCurrent s.kernel o flag (time = .ticks)).map fun k =>
    { s with
      kernel := k
      outcome := update s.outcome (.thread t) .blocked
      call := update s.call t call }

section

variable (config : MbConfig ι) (s : MbSys τ ι)

/-- The loop of `rt_mb_send_wait`. An interrupt that would wait stops at an assertion. -/
def mbSend (a : Agent τ) (value : UInt32) (time : WaitTime) : Option (MbSys τ ι) :=
  if s.mb.entry = config.size then
    match a with
    | .isr _ => none
    | .thread t =>
      if time = .no then
        some ({ s with kernel := s.kernel.updateThread t fun th =>
          { th with error := .eok } }.leave a .failed)
      else s.suspend t config.senders config.flag time (.sending value time)
  else
    (resumeFirst s.kernel config.receivers).map fun k =>
      { s with kernel := k, mb := s.mb.put config.size value }.leave a .ok

def rtMbSendWait (a : Agent τ) (value : UInt32) (time : WaitTime) : Option (MbSys τ ι) :=
  if s.mb.entry = config.size ∧ time = .no then some (s.leave a .failed)
  else mbSend config s a value time

def rtMbUrgent (a : Agent τ) (value : UInt32) : Option (MbSys τ ι) :=
  if s.mb.entry = config.size then some (s.leave a .failed)
  else
    (resumeFirst s.kernel config.receivers).map fun k =>
      { s with kernel := k, mb := s.mb.putUrgent config.size value }.leave a .ok

/-- The loop of `rt_mb_recv`. -/
def mbReceive (a : Agent τ) (time : WaitTime) : Option (MbSys τ ι) :=
  if s.mb.entry = 0 then
    match a with
    | .isr _ => none
    | .thread t =>
      if time = .no then
        some ({ s with kernel := s.kernel.updateThread t fun th =>
          { th with error := .etimeout } }.leave a .failed)
      else s.suspend t config.receivers config.flag time (.receiving time)
  else
    (resumeFirst s.kernel config.senders).map fun k =>
      { s with
        kernel := k
        value := update s.value a (s.mb.pool s.mb.outOffset)
        mb := s.mb.take config.size }.leave a .ok

def rtMbRecv (a : Agent τ) (time : WaitTime) : Option (MbSys τ ι) :=
  if s.mb.entry = 0 ∧ time = .no then some (s.leave a .failed) else mbReceive config s a time

def rtMbReset (a : Agent τ) : Option (MbSys τ ι) :=
  (rtSchedule (rtIpcListResumeAll (rtIpcListResumeAll s.kernel config.receivers)
    config.senders)).map fun k => { s with kernel := k, mb := s.mb.reset }.leave a .ok

/-- The time that is left when a suspended thread runs again. -/
def timeLeft (time : WaitTime) (expired : Bool) : WaitTime :=
  if time = .ticks ∧ expired then .no else time

/-- A suspended call goes on. -/
def mbAgain (t : τ) (expired : Bool) : Option (MbSys τ ι) :=
  match s.call t with
  | .none => none
  | .sending value time =>
    if (s.kernel.thread t).error ≠ .eok then some (s.leave (.thread t) .failed)
    else mbSend config s (.thread t) value (timeLeft time expired)
  | .receiving time =>
    if (s.kernel.thread t).error ≠ .eok then some (s.leave (.thread t) .failed)
    else mbReceive config s (.thread t) (timeLeft time expired)

/-- One step: a caller that is not inside a call begins one, or a suspended call goes on. -/
def mbStep : MbOp τ ι → Option (MbSys τ ι)
  | .kernel op => (kernelStep s.kernel op).map fun k => { s with kernel := k }
  | .send a value time =>
    if s.kernel.Acts a ∧ s.Free a then rtMbSendWait config s a value time else none
  | .urgent a value => if s.kernel.Acts a ∧ s.Free a then rtMbUrgent config s a value else none
  | .recv a time => if s.kernel.Acts a ∧ s.Free a then rtMbRecv config s a time else none
  | .again t expired => if s.kernel.Acts (.thread t) then mbAgain config s t expired else none
  | .reset a => if s.kernel.Acts a ∧ s.Free a then rtMbReset config s a else none

end

/-- The state after `rt_mb_init`, before the first thread is created. -/
def mbStart (pool : Nat → UInt32) : MbSys τ ι where
  kernel := boot
  mb := rtMbInit pool
  call := fun _ => .none
  outcome := fun _ => .ok
  value := fun _ => 0

/-! ## The deque -/

/-- What a caller that returned `RT_EOK` has done. -/
def emits {β : Type} (outcome : Outcome) (event : β) : List β :=
  if outcome = .ok then [event] else []

/-- What a step does to the mails. -/
def mbEvent (s : MbSys τ ι) (op : MbOp τ ι) (s' : MbSys τ ι) :
    List (BoundedDeque.Op (Agent τ) UInt32) :=
  match op with
  | .kernel _ => []
  | .send a value _ => emits (s'.outcome a) (.pushBack value)
  | .urgent a value => emits (s'.outcome a) (.pushFront value)
  | .recv a _ => emits (s'.outcome a) (.pop a (s'.value a))
  | .again t _ =>
    match s.call t with
    | .none => []
    | .sending value _ => emits (s'.outcome (.thread t)) (.pushBack value)
    | .receiving _ => emits (s'.outcome (.thread t)) (.pop (.thread t) (s'.value (.thread t)))
  | .reset _ => [.clear]

/-- The pool holds the mails of the deque, and the fields describe them. -/
structure MbHolds (size : Nat) (mb : Mb) (mails : List UInt32) : Prop where
  entry : mb.entry = mails.length
  fits : mb.entry ≤ size
  offsets : 0 < size → mb.inOffset < size ∧ mb.outOffset < size
  congruent : mb.inOffset ≡ mb.outOffset + mb.entry [MOD size]
  mails : Holds mb.pool size mb.outOffset mails

section

variable {size : Nat} {mb : Mb} {mails : List UInt32} {offset : Nat} {value : UInt32}

theorem next_offset_spec (hsize : size < 65536) (h : offset < size) :
    nextOffset size offset < size ∧ nextOffset size offset ≡ offset + 1 [MOD size] := by
  have hfits : (offset + 1) % 65536 = offset + 1 := mod_eq_of_lt (by omega)
  unfold nextOffset
  rw [hfits]
  split
  · have heq : offset + 1 = size := by omega
    refine ⟨by omega, ?_⟩
    rw [heq]
    exact (modEq_zero_iff_dvd.mpr dvd_rfl).symm
  · exact ⟨by omega, rfl⟩

theorem prev_offset_spec (hsize : size < 65536) (h : offset < size) :
    prevOffset size offset < size ∧ prevOffset size offset + 1 ≡ offset [MOD size] := by
  unfold prevOffset
  split
  · refine ⟨by omega, ?_⟩
    rw [Nat.sub_add_cancel (by omega)]
  · have hlast : (size + 65535) % 65536 = size - 1 := by omega
    have hzero : offset = 0 := by omega
    rw [hlast, hzero]
    refine ⟨by omega, ?_⟩
    rw [Nat.sub_add_cancel (by omega)]
    exact modEq_zero_iff_dvd.mpr dvd_rfl

theorem mb_holds_init (pool : Nat → UInt32) : MbHolds size (rtMbInit pool) [] :=
  ⟨rfl, Nat.zero_le size, fun hpos => ⟨hpos, hpos⟩, rfl, Holds.nil⟩

theorem MbHolds.reset : MbHolds size mb.reset [] :=
  ⟨rfl, Nat.zero_le size, fun hpos => ⟨hpos, hpos⟩, rfl, Holds.nil⟩

/-- A mailbox that is not full has a cell at its input offset. -/
theorem MbHolds.put (h : MbHolds size mb mails) (hsize : size < 65536) (hroom : mb.entry ≠ size) :
    MbHolds size (mb.put size value) (mails ++ [value]) := by
  have hentry := h.entry
  have hlt : mb.entry < size := lt_of_le_of_ne h.fits hroom
  have hcount : (mb.entry + 1) % 65536 = mb.entry + 1 := mod_eq_of_lt (by omega)
  obtain ⟨hin, hout⟩ := h.offsets (by omega)
  obtain ⟨hnext, hmod⟩ := next_offset_spec hsize hin
  refine ⟨?_, ?_, fun _ => ⟨hnext, hout⟩, ?_, ?_⟩
  · show (mb.entry + 1) % 65536 = (mails ++ [value]).length
    rw [hcount, hentry, length_append, length_singleton]
  · show (mb.entry + 1) % 65536 ≤ size
    omega
  · show nextOffset size mb.inOffset ≡ mb.outOffset + (mb.entry + 1) % 65536 [MOD size]
    rw [hcount, ← add_assoc]
    exact hmod.trans (h.congruent.add_right 1)
  · have hcell : mb.inOffset = (mb.outOffset + mails.length) % size := by
      rw [← hentry, ← h.congruent, mod_eq_of_lt hin]
    show Holds (update mb.pool mb.inOffset value) size mb.outOffset _
    rw [hcell]
    exact h.mails.push_back (by omega)

theorem MbHolds.put_urgent (h : MbHolds size mb mails) (hsize : size < 65536)
    (hroom : mb.entry ≠ size) : MbHolds size (mb.putUrgent size value) (value :: mails) := by
  have hentry := h.entry
  have hlt : mb.entry < size := lt_of_le_of_ne h.fits hroom
  have hcount : (mb.entry + 1) % 65536 = mb.entry + 1 := mod_eq_of_lt (by omega)
  obtain ⟨hin, hout⟩ := h.offsets (by omega)
  obtain ⟨hprev, hmod⟩ := prev_offset_spec hsize hout
  refine ⟨?_, ?_, fun _ => ⟨hin, hprev⟩, ?_, h.mails.push_front (by omega) hprev hmod⟩
  · show (mb.entry + 1) % 65536 = (value :: mails).length
    rw [hcount, hentry, length_cons]
  · show (mb.entry + 1) % 65536 ≤ size
    omega
  · show mb.inOffset ≡ prevOffset size mb.outOffset + (mb.entry + 1) % 65536 [MOD size]
    rw [hcount, add_comm mb.entry, ← add_assoc]
    exact h.congruent.trans (hmod.symm.add_right mb.entry)

theorem MbHolds.take (h : MbHolds size mb mails) (hsize : size < 65536) (hsome : mb.entry ≠ 0) :
    ∃ rest, mails = mb.pool mb.outOffset :: rest ∧ MbHolds size (mb.take size) rest := by
  have hentry := h.entry
  have hfits := h.fits
  obtain ⟨hin, hout⟩ := h.offsets (by omega)
  obtain ⟨hnext, hmod⟩ := next_offset_spec hsize hout
  cases mails with
  | nil => exact absurd hentry hsome
  | cons mail rest =>
    have hcount : (if 0 < mb.entry then mb.entry - 1 else mb.entry) = rest.length := by
      rw [if_pos (by omega), hentry, length_cons, Nat.add_sub_cancel]
    refine ⟨rest, by rw [h.mails.head hout], hcount, ?_, fun _ => ⟨hin, hnext⟩, ?_,
      h.mails.pop hmod⟩
    · show (if 0 < mb.entry then mb.entry - 1 else mb.entry) ≤ size
      rw [length_cons] at hentry
      omega
    · show mb.inOffset ≡ nextOffset size mb.outOffset +
        (if 0 < mb.entry then mb.entry - 1 else mb.entry) [MOD size]
      have hsum : mb.outOffset + mb.entry = mb.outOffset + 1 + rest.length := by
        rw [hentry, length_cons]
        omega
      have hcongr := h.congruent
      rw [hsum] at hcongr
      rw [hcount]
      exact hcongr.trans (hmod.symm.add_right rest.length)

end

/-! ## Every run -/

/-- The mailbox stands for the deque. -/
def MbRefines (config : MbConfig ι) (s : MbSys τ ι)
    (d : BoundedDeque.Deque (Agent τ) UInt32) : Prop :=
  MbHolds config.size s.mb (d.stored.map Prod.snd)

section

variable {config : MbConfig ι} {s s' : MbSys τ ι} {d : BoundedDeque.Deque (Agent τ) UInt32}
  {a : Agent τ} {value : UInt32} {time : WaitTime} {event : BoundedDeque.Op (Agent τ) UInt32}

/-- A call that does not succeed leaves the mails alone. -/
theorem MbRefines.quiet (h : MbRefines config s d) (hmb : s'.mb = s.mb)
    (hfailed : s'.outcome a ≠ .ok) :
    ∃ d', exec (BoundedDeque.step config.size) d (emits (s'.outcome a) event) = some d' ∧
      MbRefines config s' d' := by
  refine ⟨d, ?_, ?_⟩
  · rw [emits, if_neg hfailed]
    rfl
  · rw [MbRefines, hmb]
    exact h

theorem MbRefines.emit {d' : BoundedDeque.Deque (Agent τ) UInt32} (hok : s'.outcome a = .ok)
    (hstep : BoundedDeque.step config.size d event = some d') (h : MbRefines config s' d') :
    ∃ d', exec (BoundedDeque.step config.size) d (emits (s'.outcome a) event) = some d' ∧
      MbRefines config s' d' := by
  refine ⟨d', ?_, h⟩
  rw [emits, if_pos hok]
  simp only [exec, hstep, bind_some]

theorem MbRefines.room (h : MbRefines config s d) (hroom : s.mb.entry ≠ config.size) :
    d.stored.length < config.size := by
  have hentry := h.entry
  rw [length_map] at hentry
  have hfits := h.fits
  omega

theorem leave_outcome {outcome : Outcome} : (s.leave a outcome).outcome a = outcome :=
  update_self ..

theorem mb_send_refines (h : MbRefines config s d)
    (hrun : mbSend config s a value time = some s') :
    ∃ d', exec (BoundedDeque.step config.size) d (emits (s'.outcome a) (.pushBack value)) =
        some d' ∧ MbRefines config s' d' := by
  unfold mbSend at hrun
  split at hrun
  · split at hrun
    · cases hrun
    · split at hrun
      · cases hrun
        exact h.quiet rfl (by rw [leave_outcome]; simp)
      · obtain ⟨k, -, rfl⟩ := map_eq_some_iff.mp hrun
        exact h.quiet rfl (by simp)
  · rename_i hroom
    obtain ⟨k, -, rfl⟩ := map_eq_some_iff.mp hrun
    refine MbRefines.emit leave_outcome (if_pos (h.room hroom)) ?_
    show MbHolds config.size (s.mb.put config.size value) _
    rw [map_append]
    exact MbHolds.put h config.size_lt hroom

theorem mb_urgent_refines (h : MbRefines config s d)
    (hrun : rtMbUrgent config s a value = some s') :
    ∃ d', exec (BoundedDeque.step config.size) d (emits (s'.outcome a) (.pushFront value)) =
        some d' ∧ MbRefines config s' d' := by
  unfold rtMbUrgent at hrun
  split at hrun
  · cases hrun
    exact h.quiet rfl (by rw [leave_outcome]; simp)
  · rename_i hroom
    obtain ⟨k, -, rfl⟩ := map_eq_some_iff.mp hrun
    refine MbRefines.emit leave_outcome (if_pos (h.room hroom)) ?_
    exact MbHolds.put_urgent h config.size_lt hroom

theorem mb_receive_refines (h : MbRefines config s d)
    (hrun : mbReceive config s a time = some s') :
    ∃ d', exec (BoundedDeque.step config.size) d (emits (s'.outcome a) (.pop a (s'.value a))) =
        some d' ∧ MbRefines config s' d' := by
  unfold mbReceive at hrun
  split at hrun
  · split at hrun
    · cases hrun
    · split at hrun
      · cases hrun
        exact h.quiet rfl (by rw [leave_outcome]; simp)
      · obtain ⟨k, -, rfl⟩ := map_eq_some_iff.mp hrun
        exact h.quiet rfl (by simp)
  · rename_i hsome
    obtain ⟨k, -, rfl⟩ := map_eq_some_iff.mp hrun
    obtain ⟨rest, hmails, hrest⟩ := MbHolds.take h config.size_lt hsome
    obtain ⟨⟨n, mail⟩, stored, hstored, hmail, rfl⟩ := map_eq_cons_iff.mp hmails
    have hpop : BoundedDeque.step config.size d (.pop a (s.mb.pool s.mb.outOffset)) =
        some { d with stored := stored, taken := d.taken ++ [(a, n, mail)] } := by
      simp only [BoundedDeque.step, hstored]
      exact if_pos hmail
    rw [← update_self (f := s.value) a (s.mb.pool s.mb.outOffset)] at hpop
    exact MbRefines.emit leave_outcome hpop hrest

theorem mb_again_refines {t : τ} {expired : Bool} (h : MbRefines config s d)
    (hrun : mbAgain config s t expired = some s') :
    ∃ d', exec (BoundedDeque.step config.size) d (mbEvent s (.again t expired) s') = some d' ∧
      MbRefines config s' d' := by
  unfold mbAgain at hrun
  simp only [mbEvent]
  split at hrun
  · cases hrun
  · split at hrun
    · cases hrun
      exact h.quiet rfl (by rw [leave_outcome]; simp)
    · exact mb_send_refines h hrun
  · split at hrun
    · cases hrun
      exact h.quiet rfl (by rw [leave_outcome]; simp)
    · exact mb_receive_refines h hrun

theorem mb_step_refines (op : MbOp τ ι) (h : MbRefines config s d)
    (hrun : mbStep config s op = some s') :
    ∃ d', exec (BoundedDeque.step config.size) d (mbEvent s op s') = some d' ∧
      MbRefines config s' d' := by
  cases op with
  | kernel op =>
    obtain ⟨k, -, rfl⟩ := map_eq_some_iff.mp hrun
    exact ⟨d, rfl, h⟩
  | send a value time =>
    obtain ⟨-, hrun⟩ := ite_none_right_eq_some.mp hrun
    unfold rtMbSendWait at hrun
    split at hrun
    · cases hrun
      exact h.quiet rfl (by rw [leave_outcome]; simp)
    · exact mb_send_refines h hrun
  | urgent a value =>
    obtain ⟨-, hrun⟩ := ite_none_right_eq_some.mp hrun
    exact mb_urgent_refines h hrun
  | recv a time =>
    obtain ⟨-, hrun⟩ := ite_none_right_eq_some.mp hrun
    unfold rtMbRecv at hrun
    split at hrun
    · cases hrun
      exact h.quiet rfl (by rw [leave_outcome]; simp)
    · exact mb_receive_refines h hrun
  | again t expired =>
    obtain ⟨-, hrun⟩ := ite_none_right_eq_some.mp hrun
    exact mb_again_refines h hrun
  | reset a =>
    obtain ⟨-, hrun⟩ := ite_none_right_eq_some.mp hrun
    obtain ⟨k, -, rfl⟩ := map_eq_some_iff.mp hrun
    exact ⟨_, rfl, MbHolds.reset⟩

end

/-- A kernel call suspends no thread on the object. -/
def MbOp.Avoids (o : ι) : MbOp τ ι → Prop
  | .kernel op => op.Avoids o
  | _ => True

/-- The running thread `t` has found the mailbox full and waits in its send. -/
structure SendSuspended (config : MbConfig ι) (s s' : MbSys τ ι) (t : τ) : Prop where
  current : s.kernel.current = some t
  full : s.mb.entry = config.size
  sending : ∃ value time, s'.call t = .sending value time

section

variable {config : MbConfig ι} {s s' : MbSys τ ι} {a : Agent τ} {value : UInt32} {time : WaitTime}
  {t : τ}

theorem mb_send_suspends (hc : Consistent s.kernel []) (hacts : s.kernel.Acts a)
    (hrun : mbSend config s a value time = some s')
    (ht : t ∈ s'.kernel.queue (.wait config.senders)) :
    t ∈ s.kernel.queue (.wait config.senders) ∨ SendSuspended config s s' t := by
  unfold mbSend at hrun
  split at hrun
  · rename_i hfull
    split at hrun
    · cases hrun
    · rename_i u
      split at hrun
      · cases hrun
        exact .inl ht
      · obtain ⟨k, hblock, rfl⟩ := map_eq_some_iff.mp hrun
        obtain ⟨w, hblocked⟩ := block_blocked hc hblock
        obtain rfl : w = u := some.inj (hblocked.current.symm.trans hacts.1)
        have hjoin : t ∈ k.queue (.wait config.senders) := ht
        rw [hblocked.join, mem_joined] at hjoin
        rcases hjoin with rfl | hmem
        · exact .inr ⟨hblocked.current, hfull, value, time, update_self ..⟩
        · exact .inl hmem
  · obtain ⟨k, hresume, rfl⟩ := map_eq_some_iff.mp hrun
    exact .inl (((calm_resume_first hresume).wait _).subset ht)

theorem mb_receive_suspends (hc : Consistent s.kernel [])
    (hrun : mbReceive config s a time = some s')
    (ht : t ∈ s'.kernel.queue (.wait config.senders)) :
    t ∈ s.kernel.queue (.wait config.senders) := by
  unfold mbReceive at hrun
  split at hrun
  · split at hrun
    · cases hrun
    · split at hrun
      · cases hrun
        exact ht
      · obtain ⟨k, hblock, rfl⟩ := map_eq_some_iff.mp hrun
        obtain ⟨w, hblocked⟩ := block_blocked hc hblock
        rwa [← hblocked.wait _ config.lists.symm]
  · obtain ⟨k, hresume, rfl⟩ := map_eq_some_iff.mp hrun
    exact ((calm_resume_first hresume).wait _).subset ht

theorem mb_step_suspends (op : MbOp τ ι) (hc : Consistent s.kernel [])
    (hop : op.Avoids config.senders) (hrun : mbStep config s op = some s')
    (ht : t ∈ s'.kernel.queue (.wait config.senders)) :
    t ∈ s.kernel.queue (.wait config.senders) ∨ SendSuspended config s s' t := by
  cases op with
  | kernel op =>
    obtain ⟨k, hstep, rfl⟩ := map_eq_some_iff.mp hrun
    exact .inl ((kernel_step_avoids hop hc hstep).subset ht)
  | send a value time =>
    obtain ⟨⟨hacts, -⟩, hrun⟩ := ite_none_right_eq_some.mp hrun
    unfold rtMbSendWait at hrun
    split at hrun
    · cases hrun
      exact .inl ht
    · exact mb_send_suspends hc hacts hrun ht
  | urgent a value =>
    obtain ⟨-, hrun⟩ := ite_none_right_eq_some.mp hrun
    unfold rtMbUrgent at hrun
    split at hrun
    · cases hrun
      exact .inl ht
    · obtain ⟨k, hresume, rfl⟩ := map_eq_some_iff.mp hrun
      exact .inl (((calm_resume_first hresume).wait _).subset ht)
  | recv a time =>
    obtain ⟨-, hrun⟩ := ite_none_right_eq_some.mp hrun
    unfold rtMbRecv at hrun
    split at hrun
    · cases hrun
      exact .inl ht
    · exact .inl (mb_receive_suspends hc hrun ht)
  | again u expired =>
    obtain ⟨hacts, hrun⟩ := ite_none_right_eq_some.mp hrun
    unfold mbAgain at hrun
    split at hrun
    · cases hrun
    · split at hrun
      · cases hrun
        exact .inl ht
      · exact mb_send_suspends hc hacts hrun ht
    · split at hrun
      · cases hrun
        exact .inl ht
      · exact .inl (mb_receive_suspends hc hrun ht)
  | reset a =>
    obtain ⟨-, hrun⟩ := ite_none_right_eq_some.mp hrun
    obtain ⟨k, hschedule, rfl⟩ := map_eq_some_iff.mp hrun
    have hcalm := (calm_resume_all_loop config.receivers _ s.kernel).trans
      ((calm_resume_all_loop config.senders _ _).trans (calm_schedule hschedule))
    exact .inl ((hcalm.wait _).subset ht)

theorem mb_send_inv (h : KernelInv s.kernel) (hrun : mbSend config s a value time = some s') :
    KernelInv s'.kernel := by
  unfold mbSend at hrun
  split at hrun
  · split at hrun
    · cases hrun
    · split at hrun
      · cases hrun
        exact kernel_inv_error h
      · obtain ⟨k, hblock, rfl⟩ := map_eq_some_iff.mp hrun
        exact kernel_inv_block h hblock
  · obtain ⟨k, hresume, rfl⟩ := map_eq_some_iff.mp hrun
    exact kernel_inv_resume_first h hresume

theorem mb_receive_inv (h : KernelInv s.kernel) (hrun : mbReceive config s a time = some s') :
    KernelInv s'.kernel := by
  unfold mbReceive at hrun
  split at hrun
  · split at hrun
    · cases hrun
    · split at hrun
      · cases hrun
        exact kernel_inv_error h
      · obtain ⟨k, hblock, rfl⟩ := map_eq_some_iff.mp hrun
        exact kernel_inv_block h hblock
  · obtain ⟨k, hresume, rfl⟩ := map_eq_some_iff.mp hrun
    exact kernel_inv_resume_first h hresume

/-- Every step keeps the lists of the threads consistent. -/
theorem mb_step_inv (op : MbOp τ ι) (h : KernelInv s.kernel)
    (hrun : mbStep config s op = some s') : KernelInv s'.kernel := by
  cases op with
  | kernel op =>
    obtain ⟨k, hstep, rfl⟩ := map_eq_some_iff.mp hrun
    exact kernel_step_inv op h hstep
  | send a value time =>
    obtain ⟨-, hrun⟩ := ite_none_right_eq_some.mp hrun
    unfold rtMbSendWait at hrun
    split at hrun
    · cases hrun
      exact h
    · exact mb_send_inv h hrun
  | urgent a value =>
    obtain ⟨-, hrun⟩ := ite_none_right_eq_some.mp hrun
    unfold rtMbUrgent at hrun
    split at hrun
    · cases hrun
      exact h
    · obtain ⟨k, hresume, rfl⟩ := map_eq_some_iff.mp hrun
      exact kernel_inv_resume_first h hresume
  | recv a time =>
    obtain ⟨-, hrun⟩ := ite_none_right_eq_some.mp hrun
    unfold rtMbRecv at hrun
    split at hrun
    · cases hrun
      exact h
    · exact mb_receive_inv h hrun
  | again t expired =>
    obtain ⟨-, hrun⟩ := ite_none_right_eq_some.mp hrun
    unfold mbAgain at hrun
    split at hrun
    · cases hrun
    · split at hrun
      · cases hrun
        exact h
      · exact mb_send_inv h hrun
    · split at hrun
      · cases hrun
        exact h
      · exact mb_receive_inv h hrun
  | reset a =>
    obtain ⟨-, hrun⟩ := ite_none_right_eq_some.mp hrun
    obtain ⟨k, hschedule, rfl⟩ := map_eq_some_iff.mp hrun
    exact kernel_inv_schedule (consistent_resume_all_loop _
      (consistent_resume_all_loop _ h.consistent)) hschedule

end

/-- The calls that succeed are a run of a deque of capacity `size` that loses and doubles no mail,
and the fields and the pool describe its content. In the state reached, a step suspends a thread as
a sender only when that thread finds the mailbox full. -/
theorem mb_refines_bounded_deque {config : MbConfig ι} {pool : Nat → UInt32}
    {ops : List (MbOp τ ι)} {s : MbSys τ ι}
    (hrun : exec (mbStep config) (mbStart pool) ops = some s) :
    (∃ d, exec (BoundedDeque.step config.size) BoundedDeque.Deque.empty
        (trace (mbStep config) mbEvent (mbStart pool) ops) = some d ∧
      Accounted d ∧ MbRefines config s d) ∧
    ∀ op s' t, op.Avoids config.senders → mbStep config s op = some s' →
      t ∉ s.kernel.queue (.wait config.senders) → t ∈ s'.kernel.queue (.wait config.senders) →
      SendSuspended config s s' t := by
  constructor
  · have hinit : MbRefines config (mbStart pool : MbSys τ ι) BoundedDeque.Deque.empty :=
      mb_holds_init pool
    obtain ⟨d, hd, hrefines⟩ := exec_simulation (R := MbRefines config)
      (fun _ op _ _ h hstep => mb_step_refines op h hstep) hinit hrun
    exact ⟨d, hd, exec_accounted hd, hrefines⟩
  · intro op s' t hop hstep hnot ht
    have hinv : KernelInv s.kernel := exec_keeps (I := fun s => KernelInv s.kernel)
      (fun _ op _ h hstep => mb_step_inv op h hstep) kernel_inv_boot hrun
    exact (mb_step_suspends op hinv.consistent hop hstep ht).resolve_left hnot

theorem two_cells_lt : 2 < 65536 := by decide

/-- Two cells; the lists are `true` and `false`. -/
def smallMb : MbConfig Bool where
  size := 2
  size_lt := two_cells_lt
  receivers := true
  senders := false
  lists := by decide
  flag := .prio

/-- Thread 1 waits for a mail, receives the first one, and is suspended as a sender when the mailbox
is full; an interrupt receives the urgent mail and resumes it. -/
def someMbOps : List (MbOp (Fin 2) Bool) :=
  [.kernel (.init 0 255 none true false), .kernel (.init 1 10 none true false),
   .kernel (.startup 0), .kernel .schedule, .kernel (.startup 1), .recv (.thread 1) .ticks,
   .send (.isr 0) 7 .no, .again 1 false, .send (.thread 1) 8 .forever, .urgent (.thread 1) 9,
   .send (.thread 1) 10 .forever, .recv (.isr 0) .no, .again 1 false]

theorem some_mb_ops_refine : ∃ s d, exec (mbStep smallMb) (mbStart fun _ => 0) someMbOps = some s ∧
    exec (BoundedDeque.step 2) BoundedDeque.Deque.empty
      (trace (mbStep smallMb) mbEvent (mbStart fun _ => 0) someMbOps) = some d ∧
    Accounted d ∧ MbRefines smallMb s d ∧ d.stored = [(1, 8), (3, 10)] := by
  have hrun : (exec (mbStep smallMb) (mbStart fun _ => 0) someMbOps).isSome = true := by
    decide +kernel
  have hstored : (exec (BoundedDeque.step 2) BoundedDeque.Deque.empty
      (trace (mbStep smallMb) mbEvent (mbStart fun _ => 0) someMbOps)).any
        (fun d => d.stored == [(1, 8), (3, 10)]) = true := by
    decide +kernel
  obtain ⟨s, hs⟩ := isSome_iff_exists.mp hrun
  obtain ⟨⟨d, hd, haccounted, hrefines⟩, -⟩ := mb_refines_bounded_deque hs
  obtain ⟨d', hd', heq⟩ := (Option.any_eq_true _ _).mp hstored
  obtain rfl := some.inj (hd.symm.trans hd')
  exact ⟨s, d, hs, hd, haccounted, hrefines, eq_of_beq heq⟩

/-- No urgent mail and no reset. -/
def MbOp.InOrder : MbOp τ ι → Prop
  | .urgent _ _ | .reset _ => False
  | _ => True

/-- Without urgent mails and resets, the mails that were sent were received in this order, or are in
the mailbox. -/
theorem mb_first_in_first_out {config : MbConfig ι} {pool : Nat → UInt32}
    {ops : List (MbOp τ ι)} {s : MbSys τ ι} (hops : ∀ op ∈ ops, op.InOrder)
    (hrun : exec (mbStep config) (mbStart pool) ops = some s) :
    ∃ d, exec (BoundedDeque.step config.size) BoundedDeque.Deque.empty
        (trace (mbStep config) mbEvent (mbStart pool) ops) = some d ∧ MbRefines config s d ∧
      d.accepted = d.taken.map Prod.snd ++ d.stored := by
  have hinit : MbRefines config (mbStart pool : MbSys τ ι) BoundedDeque.Deque.empty :=
    mb_holds_init pool
  obtain ⟨d, hd, hrefines⟩ := exec_simulation (R := MbRefines config)
    (fun _ op _ _ h hstep => mb_step_refines op h hstep) hinit hrun
  have hemits : ∀ {outcome : Outcome} {event b : BoundedDeque.Op (Agent τ) UInt32},
      b ∈ emits outcome event → event.InOrder → b.InOrder := by
    intro outcome event b hb hevent
    unfold emits at hb
    split at hb
    · exact mem_singleton.mp hb ▸ hevent
    · cases hb
  refine ⟨d, hd, hrefines, exec_in_order (mem_trace (fun s op s' hop b hb => ?_) hops) hd⟩
  cases op with
  | kernel op => cases hb
  | send a value time => exact hemits hb trivial
  | recv a time => exact hemits hb trivial
  | again t expired =>
    simp only [mbEvent] at hb
    split at hb
    · cases hb
    · exact hemits hb trivial
    · exact hemits hb trivial
  | urgent a value | reset a => cases hop

/-- Two mails are sent, and one is received. -/
theorem two_mails_in_order : ∃ s d, exec (mbStep smallMb) (mbStart fun _ => 0)
      [.send (.isr 0) 7 .no, .send (.isr 1) 8 .no, .recv (.isr (τ := Fin 2) 0) .no] = some s ∧
    MbRefines smallMb s d ∧ d.accepted = d.taken.map Prod.snd ++ d.stored := by
  have hrun : (exec (mbStep smallMb) (mbStart fun _ => 0) [.send (.isr 0) 7 .no,
      .send (.isr 1) 8 .no, .recv (.isr (τ := Fin 2) 0) .no]).isSome = true := by decide +kernel
  obtain ⟨s, hs⟩ := isSome_iff_exists.mp hrun
  obtain ⟨d, -, hrefines, horder⟩ := mb_first_in_first_out (by simp [MbOp.InOrder]) hs
  exact ⟨s, d, hs, hrefines, horder⟩

/-- No cell. -/
def emptyMb : MbConfig Bool where
  size := 0
  size_lt := by decide
  receivers := true
  senders := false
  lists := by decide
  flag := .prio

/-- The offsets of a mailbox of size 0 are not below its size. -/
theorem empty_mb_offsets : ∃ s : MbSys (Fin 1) Bool,
    exec (mbStep emptyMb) (mbStart fun _ => 0) [] = some s ∧
    ¬ (s.mb.inOffset < emptyMb.size ∧ s.mb.outOffset < emptyMb.size) :=
  ⟨_, rfl, by decide⟩

end FullhanRtos.Ipc
