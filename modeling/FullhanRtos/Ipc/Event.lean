import FullhanRtos.Sched.Waiters

/-!
# Events

`rt_event_send`, `rt_event_recv` and the reset of `rt_event_control` of `kernel/src/ipc.c`. A send
walks the waiters, and each thread that it wakes may clear bits that the waiters behind it need.

`Met` is the wait condition, bit by bit. `event_send_recv_agree` says that no suspended thread has
its condition met in a reachable state, and that a single waiter gets the same bits and leaves the
same set as if it had received after the send.
-/

namespace FullhanRtos.Ipc

open Sched Transition Function Option BitVec
open List hiding set

set_option linter.unusedSectionVars false

/-! ## The functions -/

def eventFlagAnd : BitVec 8 := 0x01#8

def eventFlagOr : BitVec 8 := 0x02#8

def eventFlagClear : BitVec 8 := 0x04#8

/-- The threads, an event and the fields `event_set` and `event_info` of the threads. `inRecv` says
that a thread is behind the `rt_schedule` of a receive; `outcome` is what its last receive returned,
and `received` the variable that it receives the bits in. -/
structure EventSys (τ ι : Type) where
  kernel : Kernel τ ι
  set : BitVec 32
  eventSet : τ → BitVec 32
  eventInfo : τ → BitVec 8
  inRecv : τ → Bool
  outcome : τ → Outcome
  received : τ → BitVec 32

/-- A call on the event, or of a kernel function. -/
inductive EventOp (τ ι : Type) where
  | kernel (op : KernelOp τ ι)
  | send (a : Agent τ) (set : BitVec 32)
  | recv (t : τ) (set : BitVec 32) (option : BitVec 8) (time : WaitTime)
  | again (t : τ)
  | reset (a : Agent τ)

/-- The test of `rt_event_send` for a waiter, and the `event_set` that it leaves in the thread. -/
def sendStatus (eventInfo : BitVec 8) (eventSet set : BitVec 32) : Option (BitVec 32) :=
  if eventInfo &&& eventFlagAnd ≠ 0#8 then
    if eventSet &&& set = eventSet then some eventSet else none
  else if eventInfo &&& eventFlagOr ≠ 0#8 then
    if eventSet &&& set ≠ 0#32 then some (eventSet &&& set) else none
  else none

/-- The test of `rt_event_recv`; it stops at an assertion without one of the two flags. -/
def recvStatus (option : BitVec 8) (mask set : BitVec 32) : Option Bool :=
  if option &&& eventFlagAnd ≠ 0#8 then some (set &&& mask = mask)
  else if option &&& eventFlagOr ≠ 0#8 then some (set &&& mask ≠ 0#32)
  else none

variable {τ ι : Type} [DecidableEq τ] [DecidableEq ι]

/-- The walk of `rt_event_send` over the rest of the suspend list, with `need_schedule`. -/
def sendLoop : List τ → EventSys τ ι × Bool → EventSys τ ι × Bool
  | [], r => r
  | t :: rest, (s, need) =>
    match sendStatus (s.eventInfo t) (s.eventSet t) s.set with
    | none => sendLoop rest (s, need)
    | some eventSet =>
      sendLoop rest
        ({ s with
            eventSet := update s.eventSet t eventSet
            set :=
              if s.eventInfo t &&& eventFlagClear ≠ 0#8 then s.set &&& ~~~eventSet else s.set
            kernel := rtThreadResume s.kernel t }, true)

section

variable (event : ι) (flag : IpcFlag) (s : EventSys τ ι)

def rtEventSend (set : BitVec 32) : Option (EventSys τ ι) :=
  if set = 0#32 then some s
  else
    let (s, need) :=
      sendLoop (s.kernel.queue (.wait event)) ({ s with set := s.set ||| set }, false)
    if need then (rtSchedule s.kernel).map fun k => { s with kernel := k } else some s

/-- Return from a receive. -/
def EventSys.leave (t : τ) (outcome : Outcome) : EventSys τ ι :=
  { s with
    outcome := update s.outcome t outcome
    inRecv := update s.inRecv t false }

def rtEventRecv (t : τ) (set : BitVec 32) (option : BitVec 8) (time : WaitTime) :
    Option (EventSys τ ι) :=
  if set = 0#32 then some (s.leave t .failed)
  else
    let s := { s with kernel := s.kernel.updateThread t fun th => { th with error := .eok } }
    match recvStatus option set s.set with
    | none => none
    | some true =>
      some ({ s with
        received := update s.received t (s.set &&& set)
        set := if option &&& eventFlagClear ≠ 0#8 then s.set &&& ~~~set else s.set }.leave t .ok)
    | some false =>
      if time = .no then
        some ({ s with kernel := s.kernel.updateThread t fun th =>
          { th with error := .etimeout } }.leave t .failed)
      else
        (blockCurrent s.kernel event flag (time = .ticks)).map fun k =>
          { s with
            kernel := k
            eventSet := update s.eventSet t set
            eventInfo := update s.eventInfo t option
            inRecv := update s.inRecv t true
            outcome := update s.outcome t .blocked }

/-- The rest of `rt_event_recv`. -/
def eventAgain (t : τ) : EventSys τ ι :=
  if (s.kernel.thread t).error ≠ .eok then s.leave t .failed
  else { s with received := update s.received t (s.eventSet t) }.leave t .ok

def rtEventReset : Option (EventSys τ ι) :=
  (rtSchedule (rtIpcListResumeAll s.kernel event)).map fun k =>
    { s with kernel := k, set := 0#32 }

/-- A thread that is in a receive calls nothing else. -/
def EventSys.Free : Agent τ → Prop
  | .thread t => s.inRecv t = false
  | .isr _ => True

instance EventSys.decidableFree (a : Agent τ) : Decidable (s.Free a) :=
  match a with
  | .thread t => inferInstanceAs (Decidable (s.inRecv t = false))
  | .isr _ => .isTrue trivial

def eventStep : EventOp τ ι → Option (EventSys τ ι)
  | .kernel op => (kernelStep s.kernel op).map fun k => { s with kernel := k }
  | .send a set => if s.kernel.Acts a ∧ s.Free a then rtEventSend event s set else none
  | .recv t set option time =>
    if s.kernel.Acts (.thread t) ∧ s.Free (.thread t) then
      rtEventRecv event flag s t set option time
    else none
  | .again t =>
    if s.kernel.Acts (.thread t) ∧ s.inRecv t = true then some (eventAgain s t) else none
  | .reset a => if s.kernel.Acts a ∧ s.Free a then rtEventReset event s else none

end

/-- The state after `rt_event_init`, before the first thread is created. -/
def eventStart : EventSys τ ι where
  kernel := boot
  set := 0#32
  eventSet := fun _ => 0#32
  eventInfo := fun _ => 0#8
  inRecv := fun _ => false
  outcome := fun _ => .ok
  received := fun _ => 0#32

/-! ## The wait condition -/

/-- The first set has no bits but those of the second. -/
def BitsIn (x y : BitVec 32) : Prop := ∀ i, x.getLsbD i = true → y.getLsbD i = true

def Met (option : BitVec 8) (mask set : BitVec 32) : Prop :=
  if option &&& eventFlagAnd ≠ 0#8 then BitsIn mask set
  else option &&& eventFlagOr ≠ 0#8 ∧ ∃ i, mask.getLsbD i = true ∧ set.getLsbD i = true

section

variable {option : BitVec 8} {mask set set' x y : BitVec 32}

theorem and_eq_left_iff : x &&& y = x ↔ BitsIn x y := by
  constructor
  · intro h i hi
    have hget := congrArg (fun z => z.getLsbD i) h
    simp only [getLsbD_and, hi, Bool.true_and] at hget
    exact hget
  · intro h
    refine eq_of_getLsbD_eq fun i _ => ?_
    rw [getLsbD_and]
    cases hx : x.getLsbD i with
    | false => rfl
    | true => rw [h i hx]; rfl

theorem and_ne_zero_iff : x &&& y ≠ 0#32 ↔ ∃ i, x.getLsbD i = true ∧ y.getLsbD i = true := by
  constructor
  · intro h
    by_contra hnone
    refine h (eq_of_getLsbD_eq fun i _ => ?_)
    rw [getLsbD_and, getLsbD_zero]
    cases hx : x.getLsbD i with
    | false => rfl
    | true =>
      cases hy : y.getLsbD i with
      | false => rfl
      | true => exact absurd ⟨i, hx, hy⟩ hnone
  · rintro ⟨i, hx, hy⟩ h
    have hget := congrArg (fun z => z.getLsbD i) h
    simp [hx, hy] at hget

theorem Met.mono (h : Met option mask set) (hsub : BitsIn set set') : Met option mask set' := by
  unfold Met at h ⊢
  split
  · rename_i hand
    rw [if_pos hand] at h
    exact fun i hi => hsub i (h i hi)
  · rename_i hand
    rw [if_neg hand] at h
    obtain ⟨hor, i, hmask, hset⟩ := h
    exact ⟨hor, i, hmask, hsub i hset⟩

theorem bits_in_and_not : BitsIn (x &&& ~~~y) x := by
  intro i hi
  rw [getLsbD_and] at hi
  exact (Bool.and_eq_true_iff.mp hi).1

theorem send_status_eq_none_iff : sendStatus option mask set = none ↔ ¬ Met option mask set := by
  unfold sendStatus Met
  split
  · rw [← and_eq_left_iff]
    split
    · rename_i hall
      simp [hall]
    · rename_i hall
      simp [hall]
  · split
    · rename_i hor
      rw [← and_ne_zero_iff]
      split
      · rename_i hany
        simp [hany, hor]
      · rename_i hany
        simp [hany]
    · rename_i hor
      simp [hor]

/-- The receive returns at once exactly if its condition is met. -/
theorem recv_status_iff {ok : Bool} (h : recvStatus option mask set = some ok) :
    ok = true ↔ Met option mask set := by
  unfold recvStatus at h
  unfold Met
  split at h
  · rename_i hand
    cases h
    rw [if_pos hand, decide_eq_true_iff, BitVec.and_comm]
    exact and_eq_left_iff
  · rename_i hand
    rw [if_neg hand]
    split at h
    · rename_i hor
      cases h
      rw [decide_eq_true_iff, BitVec.and_comm, and_ne_zero_iff]
      exact ⟨fun hbit => ⟨hor, hbit⟩, fun hbit => hbit.2⟩
    · cases h

/-- What the send stores for a waiter is what a receive would have returned, and clearing it is
clearing the mask. -/
theorem send_status_eq_some {eventSet : BitVec 32}
    (h : sendStatus option mask set = some eventSet) :
    eventSet = set &&& mask ∧ set &&& ~~~eventSet = set &&& ~~~mask := by
  have heq : eventSet = set &&& mask := by
    unfold sendStatus at h
    split at h
    · split at h
      · rename_i hall
        cases h
        rw [BitVec.and_comm, hall]
      · cases h
    · split at h
      · split at h
        · cases h
          exact BitVec.and_comm ..
        · cases h
      · cases h
  refine ⟨heq, eq_of_getLsbD_eq fun i _ => ?_⟩
  rw [heq]
  simp only [getLsbD_and, getLsbD_not]
  cases set.getLsbD i <;> cases mask.getLsbD i <;> simp

end

/-! ## Every run -/

/-- No suspended thread has its condition met. -/
def NoneMet (event : ι) (s : EventSys τ ι) : Prop :=
  ∀ t ∈ s.kernel.queue (.wait event), ¬ Met (s.eventInfo t) (s.eventSet t) s.set

/-- The invariant of all runs. -/
structure EventInv (event : ι) (s : EventSys τ ι) : Prop where
  kernel : KernelInv s.kernel
  waits : NoneMet event s

/-- What the walk over `l` leaves. -/
structure Sent (event : ι) (l : List τ) (s s' : EventSys τ ι) : Prop where
  kernel : KernelInv s'.kernel
  set : BitsIn s'.set s.set
  waiter : ∀ u ∈ s'.kernel.queue (.wait event), u ∈ s.kernel.queue (.wait event) ∧
    s'.eventSet u = s.eventSet u ∧ s'.eventInfo u = s.eventInfo u
  unmet : ∀ u ∈ s'.kernel.queue (.wait event), u ∈ l →
    ¬ Met (s.eventInfo u) (s.eventSet u) s'.set

section

variable {event : ι} {flag : IpcFlag} {s s' : EventSys τ ι} {t : τ} {a : Agent τ}
  {set mask : BitVec 32} {option : BitVec 8} {time : WaitTime}

theorem KernelInv.resumed {k : Kernel τ ι} (h : KernelInv k) (hmem : t ∈ k.queue (.wait event)) :
    Resumed k (rtThreadResume k t) t :=
  resume_resumed ((h.consistent.located t (by simp)).waiting hmem)

/-- The walk, by induction on the rest of the list. A waiter that is passed over stays unmet because
the threads behind it only clear bits. -/
theorem send_loop_sent (event : ι) (l : List τ) (s : EventSys τ ι) (need : Bool)
    (h : KernelInv s.kernel) (hl : ∀ t ∈ l, t ∈ s.kernel.queue (.wait event)) (hnodup : l.Nodup) :
    Sent event l s (sendLoop l (s, need)).1 := by
  induction l generalizing s need with
  | nil => exact ⟨h, fun i hi => hi, fun u hu => ⟨hu, rfl, rfl⟩, fun u _ hu => nomatch hu⟩
  | cons t rest ih =>
    obtain ⟨hnot, hrest⟩ := nodup_cons.mp hnodup
    have hmem := hl t mem_cons_self
    have hl' : ∀ u ∈ rest, u ∈ s.kernel.queue (.wait event) := fun u hu =>
      hl u (mem_cons_of_mem t hu)
    simp only [sendLoop]
    split
    · rename_i hstatus
      have hsent := ih s need h hl' hrest
      refine ⟨hsent.kernel, hsent.set, hsent.waiter, fun u hu hmem' => ?_⟩
      rcases mem_cons.mp hmem' with rfl | hmem'
      · exact fun hmet => send_status_eq_none_iff.mp hstatus (hmet.mono hsent.set)
      · exact hsent.unmet u hu hmem'
    · rename_i eventSet hstatus
      have hresumed := KernelInv.resumed h hmem
      have hinv : KernelInv (rtThreadResume s.kernel t) := kernel_step_inv (.resume t) h rfl
      have hqueue := hresumed.wait event
      have hne : ∀ u ∈ rest, u ≠ t := fun u hu heq => hnot (heq ▸ hu)
      generalize hs1 : ({ s with
        eventSet := update s.eventSet t eventSet
        set := if s.eventInfo t &&& eventFlagClear ≠ 0#8 then s.set &&& ~~~eventSet else s.set
        kernel := rtThreadResume s.kernel t } : EventSys τ ι) = s1
      have hk : s1.kernel = rtThreadResume s.kernel t := by rw [← hs1]
      have hinfo : s1.eventInfo = s.eventInfo := by rw [← hs1]
      have hother : ∀ u, u ≠ t → s1.eventSet u = s.eventSet u := fun u hu => by
        rw [← hs1]
        exact update_of_ne hu _ _
      have hset : BitsIn s1.set s.set := by
        rw [← hs1]
        show BitsIn (if _ then _ else _) s.set
        split
        · exact bits_in_and_not
        · exact fun i hi => hi
      have hsent := ih s1 true (by rw [hk]; exact hinv) (fun u hu => by
        rw [hk, hqueue]
        exact (mem_erase_of_ne (hne u hu)).mpr (hl' u hu)) hrest
      have hstays : ∀ u ∈ (sendLoop rest (s1, true)).1.kernel.queue (.wait event),
          u ≠ t ∧ u ∈ s.kernel.queue (.wait event) := by
        intro u hu
        have hu1 := (hsent.waiter u hu).1
        rw [hk, hqueue] at hu1
        exact ⟨fun heq => (h.consistent.nodup _).not_mem_erase (heq ▸ hu1), mem_of_mem_erase hu1⟩
      refine ⟨hsent.kernel, fun i hi => hset i (hsent.set i hi), fun u hu => ?_,
        fun u hu hmem' => ?_⟩
      · obtain ⟨hut, hmem'⟩ := hstays u hu
        obtain ⟨-, hset', hinfo'⟩ := hsent.waiter u hu
        exact ⟨hmem', hset'.trans (hother u hut), hinfo'.trans (by rw [hinfo])⟩
      · obtain ⟨hut, -⟩ := hstays u hu
        have hu' := hsent.unmet u hu ((mem_cons.mp hmem').resolve_left hut)
        rwa [hinfo, hother u hut] at hu'

theorem event_send_kernel (h : KernelInv s.kernel) (hrun : rtEventSend event s set = some s') :
    KernelInv s'.kernel := by
  unfold rtEventSend at hrun
  split at hrun
  · cases hrun
    exact h
  · have hsent := send_loop_sent event (s.kernel.queue (.wait event))
      { s with set := s.set ||| set } false h (fun _ ht => ht) (h.consistent.nodup _)
    dsimp only at hrun
    split at hrun
    · obtain ⟨k, hschedule, rfl⟩ := map_eq_some_iff.mp hrun
      exact kernel_inv_schedule hsent.kernel.consistent hschedule
    · cases hrun
      exact hsent.kernel

theorem event_recv_kernel (h : KernelInv s.kernel)
    (hrun : rtEventRecv event flag s t mask option time = some s') : KernelInv s'.kernel := by
  have herror : KernelInv (s.kernel.updateThread t fun th => { th with error := .eok }) :=
    kernel_inv_error h
  unfold rtEventRecv at hrun
  split at hrun
  · cases hrun
    exact h
  · dsimp only at hrun
    split at hrun
    · cases hrun
    · cases hrun
      exact herror
    · split at hrun
      · cases hrun
        exact kernel_inv_error herror
      · obtain ⟨k, hblock, rfl⟩ := map_eq_some_iff.mp hrun
        exact kernel_inv_block herror hblock

theorem event_send_inv (h : EventInv event s) (hrun : rtEventSend event s set = some s') :
    EventInv event s' := by
  unfold rtEventSend at hrun
  split at hrun
  · cases hrun
    exact h
  · have hsent := send_loop_sent event (s.kernel.queue (.wait event))
      { s with set := s.set ||| set } false h.kernel (fun _ ht => ht) (h.kernel.consistent.nodup _)
    have hinv : EventInv event
        (sendLoop (s.kernel.queue (.wait event)) ({ s with set := s.set ||| set }, false)).1 := by
      refine ⟨hsent.kernel, fun u hu => ?_⟩
      obtain ⟨hmem, hset, hinfo⟩ := hsent.waiter u hu
      rw [hset, hinfo]
      exact hsent.unmet u hu hmem
    dsimp only at hrun
    split at hrun
    · obtain ⟨k, hschedule, rfl⟩ := map_eq_some_iff.mp hrun
      refine ⟨kernel_inv_schedule hinv.kernel.consistent hschedule, fun u hu => ?_⟩
      exact hinv.waits u (((calm_schedule hschedule).wait _).subset hu)
    · cases hrun
      exact hinv

theorem NoneMet.fewer (h : NoneMet event s)
    (hqueue : s'.kernel.queue (.wait event) ⊆ s.kernel.queue (.wait event))
    (hset : BitsIn s'.set s.set) (heventSet : s'.eventSet = s.eventSet)
    (hinfo : s'.eventInfo = s.eventInfo) : NoneMet event s' := by
  intro t ht hmet
  rw [heventSet, hinfo] at hmet
  exact h t (hqueue ht) (hmet.mono hset)

/-- A thread is suspended with a condition that is not met. -/
theorem event_recv_inv (h : EventInv event s) (hcurrent : s.kernel.current = some t)
    (hrun : rtEventRecv event flag s t mask option time = some s') : EventInv event s' := by
  have herror : KernelInv (s.kernel.updateThread t fun th => { th with error := .eok }) :=
    kernel_inv_error h.kernel
  unfold rtEventRecv at hrun
  split at hrun
  · cases hrun
    exact ⟨h.kernel, h.waits.fewer (fun _ hu => hu) (fun _ hi => hi) rfl rfl⟩
  · dsimp only at hrun
    split at hrun
    · cases hrun
    · cases hrun
      refine ⟨herror, h.waits.fewer (fun _ hu => hu) ?_ rfl rfl⟩
      show BitsIn (if _ then _ else _) s.set
      split
      · exact bits_in_and_not
      · exact fun _ hi => hi
    · rename_i hstatus
      have hunmet : ¬ Met option mask s.set := fun hmet =>
        Bool.false_ne_true ((recv_status_iff hstatus).mpr hmet)
      split at hrun
      · cases hrun
        exact ⟨kernel_inv_error herror, h.waits.fewer (fun _ hu => hu) (fun _ hi => hi) rfl rfl⟩
      · obtain ⟨k, hblock, rfl⟩ := map_eq_some_iff.mp hrun
        obtain ⟨w, hblocked⟩ := block_blocked herror.consistent hblock
        obtain rfl : w = t := some.inj (hblocked.current.symm.trans hcurrent)
        refine ⟨kernel_inv_block herror hblock, fun u hu => ?_⟩
        have hjoin : u ∈ k.queue (.wait event) := hu
        rw [hblocked.join, mem_joined] at hjoin
        show ¬ Met (update s.eventInfo w option u) (update s.eventSet w mask u) s.set
        by_cases huw : u = w
        · rw [huw, update_self, update_self]
          exact hunmet
        · rw [update_of_ne huw, update_of_ne huw]
          exact h.waits u (hjoin.resolve_left huw)

/-- The kernel calls suspend no thread on the event. -/
def EventOp.Avoids (event : ι) : EventOp τ ι → Prop
  | .kernel op => op.Avoids event
  | _ => True

theorem event_step_inv (op : EventOp τ ι) (hop : op.Avoids event) (h : EventInv event s)
    (hrun : eventStep event flag s op = some s') : EventInv event s' := by
  cases op with
  | kernel op =>
    obtain ⟨k, hstep, rfl⟩ := map_eq_some_iff.mp hrun
    refine ⟨kernel_step_inv op h.kernel hstep, h.waits.fewer ?_ (fun _ hi => hi) rfl rfl⟩
    exact (kernel_step_avoids hop h.kernel.consistent hstep).subset
  | send a set =>
    obtain ⟨-, hrun⟩ := ite_none_right_eq_some.mp hrun
    exact event_send_inv h hrun
  | recv t mask option time =>
    obtain ⟨⟨hacts, -⟩, hrun⟩ := ite_none_right_eq_some.mp hrun
    exact event_recv_inv h hacts.1 hrun
  | again t =>
    obtain ⟨-, hrun⟩ := ite_none_right_eq_some.mp hrun
    cases hrun
    unfold eventAgain
    split
    · exact ⟨h.kernel, h.waits.fewer (fun _ hu => hu) (fun _ hi => hi) rfl rfl⟩
    · exact ⟨h.kernel, h.waits.fewer (fun _ hu => hu) (fun _ hi => hi) rfl rfl⟩
  | reset a =>
    obtain ⟨-, hrun⟩ := ite_none_right_eq_some.mp hrun
    obtain ⟨k, hschedule, rfl⟩ := map_eq_some_iff.mp hrun
    have hcalm := (calm_resume_all_loop event _ s.kernel).trans (calm_schedule hschedule)
    refine ⟨kernel_inv_schedule (consistent_resume_all_loop _ h.kernel.consistent) hschedule,
      h.waits.fewer (hcalm.wait event).subset (fun i hi => ?_) rfl rfl⟩
    rw [getLsbD_zero] at hi
    cases hi

end

/-! ## One waiter and one send -/

/-- Only kernel calls that are not about the event happen. -/
def Between (event : ι) (flag : IpcFlag) (s s' : EventSys τ ι) : Prop :=
  ∃ ops : List (KernelOp τ ι), (∀ op ∈ ops, op.Spares event) ∧
    exec (eventStep event flag) s (ops.map .kernel) = some s'

/-- `t` is suspended in a receive, and the send comes while it waits. -/
def RecvThenSend (event : ι) (flag : IpcFlag) (t : τ) (mask bits : BitVec 32) (option : BitVec 8)
    (s s' : EventSys τ ι) : Prop :=
  ∃ time a s1 s2, eventStep event flag s (.recv t mask option time) = some s1 ∧
    s1.outcome t = .blocked ∧ Between event flag s1 s2 ∧ t ∈ s2.kernel.queue (.wait event) ∧
    eventStep event flag s2 (.send a bits) = some s'

/-- The send comes first. -/
def SendThenRecv (event : ι) (flag : IpcFlag) (t : τ) (mask bits : BitVec 32) (option : BitVec 8)
    (s s' : EventSys τ ι) : Prop :=
  ∃ time a s1 s2 s3, Between event flag s s1 ∧ eventStep event flag s1 (.send a bits) = some s2 ∧
    Between event flag s2 s3 ∧ eventStep event flag s3 (.recv t mask option time) = some s'

/-- In both orders the set ends up the same, and the receive gets the same bits if it gets any. -/
def SendRecvAgree (event : ι) (flag : IpcFlag) (s : EventSys τ ι) : Prop :=
  ∀ t mask bits option s1 s2, s.kernel.queue (.wait event) = [] →
    RecvThenSend event flag t mask bits option s s1 →
    SendThenRecv event flag t mask bits option s s2 →
    s1.set = s2.set ∧ (t ∉ s1.kernel.queue (.wait event) ↔ s2.outcome t = .ok) ∧
    (t ∉ s1.kernel.queue (.wait event) → (s1.kernel.thread t).error = .eok ∧
      ∀ s3 s4, Between event flag s1 s3 → eventStep event flag s3 (.again t) = some s4 →
        s4.outcome t = .ok → s4.received t = s2.received t ∧ s4.set = s2.set)

/-- The set that a receive leaves. -/
def cleared (option : BitVec 8) (mask set : BitVec 32) : BitVec 32 :=
  if option &&& eventFlagClear ≠ 0#8 then set &&& ~~~mask else set

/-- A kernel call leaves the event alone. -/
structure SameEvent (s s' : EventSys τ ι) : Prop where
  set : s'.set = s.set
  eventSet : s'.eventSet = s.eventSet
  eventInfo : s'.eventInfo = s.eventInfo

section

variable {event : ι} {flag : IpcFlag} {s s' : EventSys τ ι} {t : τ} {a : Agent τ}
  {bits mask : BitVec 32} {option : BitVec 8} {time : WaitTime}

theorem Spares.avoids {op : KernelOp τ ι} (h : op.Spares event) : op.Avoids event := by
  cases op with
  | block o flag timed => exact h
  | _ => trivial

theorem Between.same (hbetween : Between event flag s s') : SameEvent s s' := by
  obtain ⟨ops, -, hrun⟩ := hbetween
  induction ops generalizing s with
  | nil =>
    cases hrun
    exact ⟨rfl, rfl, rfl⟩
  | cons op ops ih =>
    obtain ⟨s1, hstep, hrest⟩ := exec_cons_eq_some.mp hrun
    have hsame := ih hrest
    obtain ⟨k, -, rfl⟩ := map_eq_some_iff.mp hstep
    exact ⟨hsame.set, hsame.eventSet, hsame.eventInfo⟩

theorem Between.spec (h : EventInv event s) (heok : WaitersEok s.kernel event)
    (hbetween : Between event flag s s') :
    EventInv event s' ∧ WaitersEok s'.kernel event ∧
      (s'.kernel.queue (.wait event)).Sublist (s.kernel.queue (.wait event)) := by
  obtain ⟨ops, hops, hrun⟩ := hbetween
  induction ops generalizing s with
  | nil =>
    cases hrun
    exact ⟨h, heok, Sublist.refl _⟩
  | cons op ops ih =>
    obtain ⟨s1, hstep, hrest⟩ := exec_cons_eq_some.mp hrun
    have hop := hops op mem_cons_self
    have hinv := event_step_inv (.kernel op) (Spares.avoids hop) h hstep
    obtain ⟨k, hk, rfl⟩ := map_eq_some_iff.mp hstep
    have hcase := kernel_step_waiters_cases hop h.kernel hk
    have hsub := kernel_step_avoids (Spares.avoids hop) h.kernel.consistent hk
    obtain ⟨hinv', heok', hsub'⟩ := ih hinv (hcase.waiters_eok h.kernel.consistent heok)
      (fun op' hop' => hops op' (mem_cons_of_mem op hop')) hrest
    exact ⟨hinv', heok', hsub'.trans hsub⟩

/-- A receive that is suspended. -/
theorem event_recv_blocked (hcurrent : s.kernel.current = some t) (h : KernelInv s.kernel)
    (hnone : s.kernel.queue (.wait event) = [])
    (hrun : rtEventRecv event flag s t mask option time = some s')
    (hblocked : s'.outcome t = .blocked) :
    mask ≠ 0#32 ∧ s'.set = s.set ∧ s'.eventSet t = mask ∧ s'.eventInfo t = option ∧
      s'.kernel.queue (.wait event) = [t] ∧ (s'.kernel.thread t).error = .eok := by
  have hleave : ∀ (r : EventSys τ ι) (o : Outcome), o ≠ .blocked →
      (r.leave t o).outcome t ≠ .blocked := fun r o ho => by
    show update r.outcome t o t ≠ .blocked
    rwa [update_self]
  unfold rtEventRecv at hrun
  split at hrun
  · cases hrun
    exact absurd hblocked (hleave _ _ (by simp))
  · rename_i hmask
    dsimp only at hrun
    split at hrun
    · cases hrun
    · cases hrun
      exact absurd hblocked (hleave _ _ (by simp))
    · split at hrun
      · cases hrun
        exact absurd hblocked (hleave _ _ (by simp))
      · obtain ⟨k, hblock, rfl⟩ := map_eq_some_iff.mp hrun
        obtain ⟨w, hw⟩ := block_blocked (kernel_inv_error h).consistent hblock
        obtain rfl : w = t := some.inj (hw.current.symm.trans hcurrent)
        refine ⟨hmask, rfl, update_self .., update_self .., ?_, hw.err⟩
        show k.queue (.wait event) = [w]
        rw [hw.join, update_thread_queue, hnone]
        cases flag <;> rfl

theorem event_recv_spec (hmask : mask ≠ 0#32)
    (hrun : rtEventRecv event flag s t mask option time = some s') :
    (Met option mask s.set ∧ s'.outcome t = .ok ∧ s'.received t = s.set &&& mask ∧
      s'.set = cleared option mask s.set) ∨
    (¬ Met option mask s.set ∧ s'.outcome t ≠ .ok ∧ s'.set = s.set) := by
  unfold rtEventRecv at hrun
  rw [if_neg hmask] at hrun
  dsimp only at hrun
  split at hrun
  · cases hrun
  · rename_i hstatus
    cases hrun
    exact .inl ⟨(recv_status_iff hstatus).mp rfl, update_self .., update_self .., rfl⟩
  · rename_i hstatus
    have hunmet : ¬ Met option mask s.set := fun hmet =>
      Bool.false_ne_true ((recv_status_iff hstatus).mpr hmet)
    split at hrun
    · cases hrun
      refine .inr ⟨hunmet, ?_, rfl⟩
      show update s.outcome t .failed t ≠ .ok
      simp
    · obtain ⟨k, -, rfl⟩ := map_eq_some_iff.mp hrun
      refine .inr ⟨hunmet, ?_, rfl⟩
      show update s.outcome t .blocked t ≠ .ok
      simp

theorem event_send_nobody (hnone : s.kernel.queue (.wait event) = [])
    (hrun : rtEventSend event s bits = some s') : s'.set = s.set ||| bits := by
  unfold rtEventSend at hrun
  split at hrun
  · rename_i hbits
    cases hrun
    rw [hbits, or_zero]
  · rw [hnone] at hrun
    cases hrun
    rfl

theorem event_send_single (h : EventInv event s) (hsingle : s.kernel.queue (.wait event) = [t])
    (hrun : rtEventSend event s bits = some s') :
    (Met (s.eventInfo t) (s.eventSet t) (s.set ||| bits) ∧ t ∉ s'.kernel.queue (.wait event) ∧
      s'.eventSet t = (s.set ||| bits) &&& s.eventSet t ∧
      s'.set = cleared (s.eventInfo t) (s.eventSet t) (s.set ||| bits) ∧
      (s'.kernel.thread t).error = (s.kernel.thread t).error) ∨
    (¬ Met (s.eventInfo t) (s.eventSet t) (s.set ||| bits) ∧ t ∈ s'.kernel.queue (.wait event) ∧
      s'.set = s.set ||| bits) := by
  have hmem : t ∈ s.kernel.queue (.wait event) := by rw [hsingle]; exact mem_singleton_self t
  unfold rtEventSend at hrun
  split at hrun
  · rename_i hbits
    cases hrun
    rw [hbits, or_zero]
    exact .inr ⟨h.waits t hmem, hmem, rfl⟩
  · rw [hsingle] at hrun
    simp only [sendLoop] at hrun
    cases hstatus : sendStatus (s.eventInfo t) (s.eventSet t) (s.set ||| bits) with
    | none =>
      rw [hstatus] at hrun
      cases hrun
      exact .inr ⟨send_status_eq_none_iff.mp hstatus, hmem, rfl⟩
    | some eventSet =>
      rw [hstatus] at hrun
      obtain ⟨k, hschedule, rfl⟩ := map_eq_some_iff.mp hrun
      obtain ⟨u, -, rfl⟩ := map_eq_some_iff.mp hschedule
      have hresumed := KernelInv.resumed h.kernel hmem
      obtain ⟨heq, hclear⟩ := send_status_eq_some hstatus
      refine .inl ⟨?_, ?_, ?_, ?_, hresumed.err t⟩
      · by_contra hunmet
        rw [send_status_eq_none_iff.mpr hunmet] at hstatus
        cases hstatus
      · show t ∉ (rtThreadResume s.kernel t).queue (.wait event)
        rw [hresumed.wait, hsingle, erase_cons_head]
        exact not_mem_nil
      · show update s.eventSet t eventSet t = _
        rw [update_self, heq]
      · show (if _ then _ else _) = cleared _ _ _
        rw [hclear]
        rfl

theorem event_again_spec (hrun : eventStep event flag s (.again t) = some s')
    (hok : s'.outcome t = .ok) : s'.received t = s.eventSet t ∧ s'.set = s.set := by
  obtain ⟨-, hrun⟩ := ite_none_right_eq_some.mp hrun
  cases hrun
  unfold eventAgain at hok ⊢
  split
  · rename_i herror
    rw [if_pos herror] at hok
    have hfailed : update s.outcome t .failed t = .ok := hok
    rw [update_self] at hfailed
    cases hfailed
  · exact ⟨update_self .., rfl⟩

/-- In the state in which the send finds the waiter, and in the one in which the receive comes after
the send, the same condition is tested on the same set. -/
theorem send_recv_agree (h : EventInv event s) : SendRecvAgree event flag s := by
  intro t mask bits option s1 s2 hnone hfirst hsecond
  obtain ⟨time, a, r1, r2, hrecv, hblocked, hbetween, hwaits, hsend⟩ := hfirst
  obtain ⟨time', a', q1, q2, q3, hq1, hsend', hq3, hrecv'⟩ := hsecond
  have heok : WaitersEok s.kernel event := by
    intro w hw
    rw [hnone] at hw
    cases hw
  -- The receive waits, and the send finds it.
  obtain ⟨⟨hacts, -⟩, hrecv⟩ := ite_none_right_eq_some.mp hrecv
  obtain ⟨-, hsend⟩ := ite_none_right_eq_some.mp hsend
  obtain ⟨hmask, hset, heventSet, hinfo, hqueue, herror⟩ :=
    event_recv_blocked hacts.1 h.kernel hnone hrecv hblocked
  have heok1 : WaitersEok r1.kernel event := by
    intro w hw
    rw [hqueue] at hw
    rw [mem_singleton.mp hw]
    exact herror
  have hsame := hbetween.same
  obtain ⟨hinv2, heok2, hsub⟩ := hbetween.spec (event_recv_inv h hacts.1 hrecv) heok1
  rw [hqueue] at hsub
  have hsingle : r2.kernel.queue (.wait event) = [t] :=
    (sublist_singleton.mp hsub).resolve_left fun hnil => by
      rw [hnil] at hwaits
      cases hwaits
  have hcase := event_send_single hinv2 hsingle hsend
  rw [hsame.eventInfo, hsame.eventSet, hsame.set, hset, heventSet, hinfo] at hcase
  -- The send comes first.
  obtain ⟨-, hsend'⟩ := ite_none_right_eq_some.mp hsend'
  obtain ⟨-, hrecv'⟩ := ite_none_right_eq_some.mp hrecv'
  obtain ⟨-, -, hsub'⟩ := hq1.spec h heok
  rw [hnone] at hsub'
  have hset' : q3.set = s.set ||| bits := by
    rw [hq3.same.set, event_send_nobody (sublist_nil.mp hsub') hsend', hq1.same.set]
  have hcase' := event_recv_spec hmask hrecv'
  rw [hset'] at hcase'
  rcases hcase with ⟨hmet, hwoken, hgot, hleft, herr⟩ | ⟨hunmet, hstays, hleft⟩
  · obtain ⟨-, hok, hgot', hleft'⟩ := hcase'.resolve_right fun hnot => hnot.1 hmet
    refine ⟨hleft.trans hleft'.symm, ⟨fun _ => hok, fun _ => hwoken⟩, fun _ => ⟨?_, ?_⟩⟩
    · rw [herr]
      exact heok2 t hwaits
    · intro s3 s4 hs3 hs4 hok4
      obtain ⟨hreceived, hset4⟩ := event_again_spec hs4 hok4
      rw [hreceived, hset4, hs3.same.eventSet, hs3.same.set, hgot, hgot', hleft, hleft']
      exact ⟨rfl, rfl⟩
  · obtain ⟨-, hnot, hleft'⟩ := hcase'.resolve_left fun hmet => hunmet hmet.1
    refine ⟨hleft.trans hleft'.symm, ⟨fun hw => absurd hstays hw, fun hok => absurd hok hnot⟩,
      fun hw => absurd hstays hw⟩

end

/-- In every state that sends, receives and resets reach, no suspended thread has its condition met,
and one waiter and one send agree in both orders. -/
theorem event_send_recv_agree {event : ι} {flag : IpcFlag} {ops : List (EventOp τ ι)}
    {s : EventSys τ ι} (hops : ∀ op ∈ ops, op.Avoids event)
    (hrun : exec (eventStep event flag) eventStart ops = some s) :
    NoneMet event s ∧ SendRecvAgree event flag s := by
  have hinit : EventInv event (eventStart : EventSys τ ι) :=
    ⟨kernel_inv_boot, fun t ht => nomatch ht⟩
  have hinv : EventInv event s :=
    exec_keeps_allowed (fun _ op _ hop h hstep => event_step_inv op hop h hstep) hops hinit hrun
  exact ⟨hinv.waits, send_recv_agree hinv⟩

/-- Threads 1 and 2 wait for one of two bits and for both of them; the first send wakes only thread
1, which clears its bit. Thread 1 is then the running thread and thread 2 still waits. -/
def someEventOps : List (EventOp (Fin 3) Bool) :=
  [.kernel (.init 0 255 none true false), .kernel (.init 1 10 none true false),
   .kernel (.init 2 5 none true false), .kernel (.startup 0), .kernel .schedule,
   .kernel (.startup 2), .recv 2 0x3#32 0x1#8 .ticks, .kernel (.startup 1),
   .recv 1 0x6#32 0x6#8 .forever, .send (.isr 0) 0x4#32, .again 1, .kernel (.timeout 2), .again 2,
   .kernel .sleep]

instance (event : Bool) (op : EventOp (Fin 3) Bool) : Decidable (op.Avoids event) :=
  match op with
  | .kernel (.block o _ _) => inferInstanceAs (Decidable (o ≠ event))
  | .kernel (.init _ _ _ _ _) | .kernel (.startup _) | .kernel .schedule | .kernel (.suspend _)
  | .kernel (.resume _) | .kernel .sleep | .kernel (.timeout _) | .kernel .yield
  | .kernel (.changePriority _ _) | .kernel (.detach _) | .kernel (.delete _) | .kernel .exit
  | .kernel .reap | .kernel (.wake _) | .kernel (.wakeAll _) | .send _ _ | .recv _ _ _ _ | .again _
  | .reset _ => .isTrue trivial

/-- Thread 1 can receive before or after a send in the state that is reached. -/
theorem some_event_ops_agree : ∃ s s1 s2 : EventSys (Fin 3) Bool,
    exec (eventStep true .prio) eventStart someEventOps = some s ∧ NoneMet true s ∧
    RecvThenSend true .prio 1 0x3#32 0x7#32 0x5#8 s s1 ∧
    SendThenRecv true .prio 1 0x3#32 0x7#32 0x5#8 s s2 ∧ s1.set = s2.set := by
  have hrun : (exec (eventStep true .prio) eventStart someEventOps).any (fun s =>
      s.kernel.queue (.wait true) = [] ∧
      (eventStep true .prio s (.recv 1 0x3#32 0x5#8 .forever)).any (fun r =>
        r.outcome 1 = .blocked ∧ 1 ∈ r.kernel.queue (.wait true) ∧
        (eventStep true .prio r (.send (.isr 0) 0x7#32)).isSome) ∧
      (eventStep true .prio s (.send (.isr 0) 0x7#32)).any (fun q =>
        (eventStep true .prio q (.recv 1 0x3#32 0x5#8 .forever)).isSome)) = true := by
    decide +kernel
  obtain ⟨s, hs, hgood⟩ := (Option.any_eq_true _ _).mp hrun
  obtain ⟨hnone, hfirst, hsecond⟩ := of_decide_eq_true hgood
  obtain ⟨r, hr, hfirst⟩ := (Option.any_eq_true _ _).mp hfirst
  obtain ⟨hblocked, hwaits, hsend⟩ := of_decide_eq_true hfirst
  obtain ⟨q, hq, hrecv⟩ := (Option.any_eq_true _ _).mp hsecond
  obtain ⟨s1, hs1⟩ := isSome_iff_exists.mp hsend
  obtain ⟨s2, hs2⟩ := isSome_iff_exists.mp hrecv
  obtain ⟨hnonemet, hagree⟩ := event_send_recv_agree (by decide) hs
  have hnothing : ∀ x : EventSys (Fin 3) Bool, Between true .prio x x := fun x =>
    ⟨[], (fun _ hop => nomatch hop), rfl⟩
  have hrecvSend : RecvThenSend true .prio 1 0x3#32 0x7#32 0x5#8 s s1 :=
    ⟨.forever, .isr 0, r, r, hr, hblocked, hnothing r, hwaits, hs1⟩
  have hsendRecv : SendThenRecv true .prio 1 0x3#32 0x7#32 0x5#8 s s2 :=
    ⟨.forever, .isr 0, s, q, q, hnothing s, hq, hnothing q, hs2⟩
  exact ⟨s, s1, s2, hs, hnonemet, hrecvSend, hsendRecv,
    (hagree 1 _ _ _ s1 s2 hnone hrecvSend hsendRecv).1⟩

end FullhanRtos.Ipc
