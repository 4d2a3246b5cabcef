import FullhanRtos.Uac.Mic

/-!
# The buffers of the speaker

The lists of `struct uac_speaker_buf` in `drivers/usb/device/class/uac_init.c`.
`uac_speaker_complete` and the `fh_uac_spkbuf_reinit` of a stop request run in the interrupt.
Threads take filled buffers with `fh_uac_spkstream_dequeue` and give them back with
`fh_uac_spkstream_enqueue`. What these do to the lists they do with interrupts disabled, so every
call is one step. The samples and the message about a new sample rate are left out.

`audio_buffers_ok` says for which runs the buffers of the microphone and of the speaker, and the
interrupt flag, are in order.
-/

namespace FullhanRtos.Uac

open ListPair Transition List Bool
open Uvc (BufNode data_buf_members)

/-! ## Data -/

/-- `struct uac_speaker_buf` with `g_audio_init`, the buffers in the hands of callers, and whether
interrupts are enabled. `restored` says that every function returned with interrupts as they were at
its call. -/
structure SpeakerBuf where
  links : Links BufNode
  curBuf : Option BufNode
  audioInit : Bool
  hands : List BufNode
  interrupts : Bool
  restored : Bool

/-! ## The functions -/

/-- Receive into the first free buffer. -/
def receiveFirst (speaker : SpeakerBuf) : SpeakerBuf :=
  let cur := speaker.links.next .listFree
  { speaker with links := speaker.links.remove cur, curBuf := some cur }

def fhUacSpkbufReinit (bufNum : Nat) (speaker : SpeakerBuf) : SpeakerBuf :=
  { speaker with
    links := speaker.links.rebuild .listFree .listUsed (dataBufs bufNum)
    curBuf := none }

/-- `uac_speaker_pump`. When no buffer is free interrupts stay disabled. -/
def uacSpeakerPump (speaker : SpeakerBuf) : SpeakerBuf :=
  if speaker.audioInit = false then speaker
  else
    let level := speaker.interrupts
    let speaker := { speaker with interrupts := false }
    match speaker.curBuf with
    | some _ => { speaker with interrupts := level }
    | none =>
      if speaker.links.isEmpty .listFree then speaker
      else { receiveFirst speaker with interrupts := level }

/-- `uac_speaker_complete`, after `size` bytes. The buffer is kept when no other one is free. -/
def uacSpeakerComplete (size : Nat) (speaker : SpeakerBuf) : SpeakerBuf :=
  if speaker.audioInit = false then speaker
  else
    match speaker.curBuf with
    | none => uacSpeakerPump speaker
    | some cur =>
      if speaker.links.isEmpty .listFree then speaker
      else
        let head := if size = 0 then .listFree else .listUsed
        receiveFirst
          { speaker with links := speaker.links.insertBefore head cur, curBuf := none }

/-- `fh_uac_spkstream_dequeue`: the first used buffer goes to the caller. -/
def fhUacSpkstreamDequeue (speaker : SpeakerBuf) : SpeakerBuf :=
  if speaker.audioInit = false then speaker
  else
    let level := speaker.interrupts
    let speaker := { speaker with interrupts := false }
    if speaker.links.isEmpty .listUsed then { speaker with interrupts := level }
    else
      let spkBuf := speaker.links.next .listUsed
      { speaker with
        links := speaker.links.remove spkBuf
        hands := spkBuf :: speaker.hands
        interrupts := level }

def fhUacSpkstreamEnqueue (spkBuf : BufNode) (speaker : SpeakerBuf) : SpeakerBuf :=
  if speaker.audioInit = false then speaker
  else
    let level := speaker.interrupts
    { speaker with
      links := speaker.links.insertBefore .listFree spkBuf
      hands := speaker.hands.erase spkBuf
      interrupts := level }

def SpeakerBuf.call (interrupts : Bool) (handler : SpeakerBuf → SpeakerBuf)
    (speaker : SpeakerBuf) : SpeakerBuf :=
  let after := handler { speaker with interrupts }
  { after with restored := after.restored && after.interrupts == interrupts }

/-- What happens to the speaker: the end of `fh_uac_init`, `uac_speaker_pump` of a start request, a
transfer that is complete, the re-initialisation of a stop request, and calls of the threads. -/
inductive SpeakerEvent where
  | initialised
  | pump (interrupts : Bool)
  | complete (size : Nat)
  | reinit
  | dequeue (interrupts : Bool)
  | enqueue (interrupts : Bool) (spkBuf : BufNode)

/-- One event. A thread gives back only what it has. -/
def speakerStep (bufNum : Nat) (speaker : SpeakerBuf) : SpeakerEvent → Option SpeakerBuf
  | .initialised => some { speaker with audioInit := true }
  | .pump interrupts => some (speaker.call interrupts uacSpeakerPump)
  | .complete size => some (speaker.call false (uacSpeakerComplete size))
  | .reinit => some (speaker.call false (fhUacSpkbufReinit bufNum))
  | .dequeue interrupts => some (speaker.call interrupts fhUacSpkstreamDequeue)
  | .enqueue interrupts spkBuf =>
    if spkBuf ∈ speaker.hands then
      some (speaker.call interrupts (fhUacSpkstreamEnqueue spkBuf))
    else some speaker

/-- The lists of `fh_uac_spkbuf_init`. -/
def speakerStart (bufNum : Nat) (links : Links BufNode) : SpeakerBuf where
  links := links.rebuild .listFree .listUsed (dataBufs bufNum)
  curBuf := none
  audioInit := false
  hands := []
  interrupts := true
  restored := true

/-! ## What holds -/

/-- The buffers that are in no list: the one that is received into and those of the callers. -/
def SpeakerBuf.out (speaker : SpeakerBuf) : List BufNode := speaker.curBuf.toList ++ speaker.hands

/-- Both lists are well formed, every buffer is in exactly one place, and every function returned
with interrupts as they were when it was called. -/
structure SpeakerOk (bufNum : Nat) (speaker : SpeakerBuf) : Prop where
  lists : ∃ free used, Pair speaker.links .listFree .listUsed free used ∧
    ∀ i < bufNum, (free ++ (used ++ speaker.out)).count (.dataBuf i) = 1
  restored : speaker.restored = true

/-- `uac_speaker_pump` is called with interrupts disabled, or it finds a free buffer when it looks
for one. A stop request comes while no caller has a buffer. -/
def SpeakerSuits (speaker : SpeakerBuf) : SpeakerEvent → Prop
  | .pump interrupts => interrupts = true → speaker.audioInit = true → speaker.curBuf = none →
      speaker.links.isEmpty .listFree = false
  | .reinit => speaker.hands = []
  | _ => True

instance (speaker : SpeakerBuf) : (event : SpeakerEvent) → Decidable (SpeakerSuits speaker event)
  | .pump interrupts => inferInstanceAs (Decidable (interrupts = true →
      speaker.audioInit = true → speaker.curBuf = none →
      speaker.links.isEmpty .listFree = false))
  | .reinit => inferInstanceAs (Decidable (speaker.hands = []))
  | .initialised | .complete _ | .dequeue _ | .enqueue .. => .isTrue trivial

/-! ## The invariant -/

/-- The lists hold what is not out. -/
structure SpeakerInv (bufNum : Nat) (speaker : SpeakerBuf) : Prop where
  lists : ∃ free used, Shared speaker.links .listFree .listUsed (dataBufs bufNum) free used
    speaker.out
  restored : speaker.restored = true

section

variable {bufNum : Nat} {speaker : SpeakerBuf} {free used : List BufNode} {interrupts : Bool}

theorem SpeakerInv.speaker_ok (h : SpeakerInv bufNum speaker) : SpeakerOk bufNum speaker := by
  obtain ⟨free, used, hshared⟩ := h.lists
  refine ⟨⟨free, used, hshared.pair, fun i hi => ?_⟩, h.restored⟩
  rw [hshared.all.count_eq]
  exact data_bufs_count hi

theorem SpeakerInv.call (h : SpeakerInv bufNum speaker) {handler : SpeakerBuf → SpeakerBuf}
    {after : SpeakerBuf} (hafter : handler { speaker with interrupts } = after)
    (hlists : ∃ free used,
      Shared after.links .listFree .listUsed (dataBufs bufNum) free used after.out)
    (hrestored : after.restored = speaker.restored) (hback : after.interrupts = interrupts) :
    SpeakerInv bufNum (speaker.call interrupts handler) := by
  unfold SpeakerBuf.call
  rw [hafter]
  refine ⟨hlists, ?_⟩
  show (after.restored && after.interrupts == interrupts) = true
  rw [hrestored, h.restored, hback, beq_self_eq_true]
  rfl

theorem receive_first_shared (speaker : SpeakerBuf)
    (hfree : speaker.links.isEmpty .listFree = false)
    (h : Shared speaker.links .listFree .listUsed (dataBufs bufNum) free used speaker.hands) :
    ∃ free', Shared (receiveFirst speaker).links .listFree .listUsed (dataBufs bufNum) free' used
      (receiveFirst speaker).out := by
  have hne : free ≠ [] := by
    rw [Ne, ← h.pair.is_empty_iff, hfree]
    exact Bool.false_ne_true
  obtain ⟨p, rest, rfl⟩ := exists_cons_of_ne_nil hne
  have hnext : speaker.links.next .listFree = p := h.pair.next_head
  refine ⟨rest, ?_⟩
  unfold receiveFirst
  rw [hnext]
  exact h.take

/-- `uac_speaker_pump` keeps the lists, and restores interrupts if there is a free buffer or they
were disabled. -/
theorem speaker_pump_shared (speaker : SpeakerBuf)
    (hshared : Shared speaker.links .listFree .listUsed (dataBufs bufNum) free used speaker.out)
    (hsuits : speaker.interrupts = true → speaker.audioInit = true → speaker.curBuf = none →
      speaker.links.isEmpty .listFree = false) :
    ∃ after, uacSpeakerPump speaker = after ∧
      (∃ free' used', Shared after.links .listFree .listUsed (dataBufs bufNum) free' used'
        after.out) ∧
      after.restored = speaker.restored ∧ after.interrupts = speaker.interrupts := by
  by_cases hinit : speaker.audioInit = false
  · exact ⟨speaker, if_pos hinit, ⟨free, used, hshared⟩, rfl, rfl⟩
  · cases hcur : speaker.curBuf with
    | some cur =>
      have hafter : uacSpeakerPump speaker = speaker := by
        unfold uacSpeakerPump
        rw [if_neg hinit]
        dsimp only
        split
        · rfl
        · next hnone => exact absurd (hcur.symm.trans hnone) (Option.some_ne_none cur)
      exact ⟨speaker, hafter, ⟨free, used, hshared⟩, rfl, rfl⟩
    | none =>
      have hafter : uacSpeakerPump speaker =
          if speaker.links.isEmpty .listFree then { speaker with interrupts := false }
          else receiveFirst speaker := by
        unfold uacSpeakerPump
        rw [if_neg hinit, hcur]
        rfl
      rw [SpeakerBuf.out, hcur] at hshared
      by_cases hempty : speaker.links.isEmpty .listFree = true
      · have hoff : speaker.interrupts = false := by
          by_contra hon
          have hsome := hsuits (not_eq_false _ ▸ hon) (not_eq_false _ ▸ hinit) hcur
          exact Bool.false_ne_true (hsome.symm.trans hempty)
        refine ⟨_, hafter.trans (if_pos hempty), ⟨free, used, ?_⟩, rfl, hoff.symm⟩
        rw [SpeakerBuf.out, hcur]
        exact hshared
      · obtain ⟨free', hreceive⟩ := receive_first_shared speaker (eq_false_iff.mpr hempty) hshared
        exact ⟨_, hafter.trans (if_neg hempty), ⟨free', used, hreceive⟩, rfl, rfl⟩

section

variable (h : SpeakerInv bufNum speaker)

include h

theorem SpeakerInv.pump (hsuits : SpeakerSuits speaker (.pump interrupts)) :
    SpeakerInv bufNum (speaker.call interrupts uacSpeakerPump) := by
  obtain ⟨free, used, hshared⟩ := h.lists
  obtain ⟨after, hafter, hlists, hrestored, hback⟩ :=
    speaker_pump_shared { speaker with interrupts } hshared hsuits
  exact h.call hafter hlists hrestored hback

theorem SpeakerInv.complete (size : Nat) :
    SpeakerInv bufNum (speaker.call false (uacSpeakerComplete size)) := by
  obtain ⟨free, used, hshared⟩ := h.lists
  by_cases hinit : speaker.audioInit = false
  · exact h.call (if_pos hinit) ⟨free, used, hshared⟩ rfl rfl
  · cases hcur : speaker.curBuf with
    | none =>
      -- in the interrupt `uac_speaker_pump` finds interrupts disabled
      obtain ⟨after, hafter, hlists, hrestored, hback⟩ := speaker_pump_shared
        { speaker with interrupts := false } hshared
        fun hon => absurd hon Bool.false_ne_true
      refine h.call ?_ hlists hrestored hback
      unfold uacSpeakerComplete
      rw [if_neg hinit, hcur, ← hafter, hcur]
    | some cur =>
      have hafter : uacSpeakerComplete size { speaker with interrupts := false } =
          if speaker.links.isEmpty .listFree then { speaker with interrupts := false }
          else receiveFirst
            { speaker with
              interrupts := false
              links := speaker.links.insertBefore
                (if size = 0 then .listFree else .listUsed) cur
              curBuf := none } := by
        unfold uacSpeakerComplete
        rw [if_neg hinit, hcur]
      by_cases hempty : speaker.links.isEmpty .listFree = true
      · rw [if_pos hempty] at hafter
        exact h.call hafter ⟨free, used, hshared⟩ rfl rfl
      · rw [if_neg hempty] at hafter
        have hsome : free ≠ [] := fun hnil => hempty (hshared.pair.is_empty_iff.mpr hnil)
        have hout : speaker.out.Perm (cur :: speaker.hands) := by
          rw [SpeakerBuf.out, hcur]
          exact Perm.refl _
        -- the free list is not empty, whichever list the buffer goes to
        have hput : ∃ free' used', free' ≠ [] ∧ Shared
            (speaker.links.insertBefore (if size = 0 then .listFree else .listUsed) cur)
            .listFree .listUsed (dataBufs bufNum) free' used' speaker.hands := by
          split
          · exact ⟨free ++ [cur], used, append_ne_nil_of_left_ne_nil hsome _,
              hshared.put (data_buf_members bufNum) hout⟩
          · exact ⟨free, used ++ [cur], hsome,
              (hshared.symm.put (data_buf_members bufNum).symm hout).symm⟩
        obtain ⟨free', used', hsome', hput⟩ := hput
        have hfree : (speaker.links.insertBefore
            (if size = 0 then .listFree else .listUsed) cur).isEmpty .listFree = false := by
          rw [eq_false_iff, Ne, hput.pair.is_empty_iff]
          exact hsome'
        obtain ⟨free'', hreceive⟩ := receive_first_shared
          { speaker with
            interrupts := false
            links := speaker.links.insertBefore
              (if size = 0 then .listFree else .listUsed) cur
            curBuf := none } hfree hput
        exact h.call hafter ⟨free'', used', hreceive⟩ rfl rfl

theorem SpeakerInv.reinit (hhands : speaker.hands = []) :
    SpeakerInv bufNum (speaker.call false (fhUacSpkbufReinit bufNum)) := by
  refine h.call rfl ⟨(dataBufs bufNum).reverse, [], ?_⟩ rfl rfl
  show Shared _ _ _ _ _ _ ([] ++ speaker.hands)
  rw [hhands]
  exact Shared.rebuild (data_buf_members bufNum) speaker.links

theorem SpeakerInv.dequeue (interrupts : Bool) :
    SpeakerInv bufNum (speaker.call interrupts fhUacSpkstreamDequeue) := by
  obtain ⟨free, used, hshared⟩ := h.lists
  by_cases hinit : speaker.audioInit = false
  · exact h.call (if_pos hinit) ⟨free, used, hshared⟩ rfl rfl
  · by_cases hempty : speaker.links.isEmpty .listUsed = true
    · have hafter : fhUacSpkstreamDequeue { speaker with interrupts } =
          { speaker with interrupts } := by
        unfold fhUacSpkstreamDequeue
        rw [if_neg hinit]
        exact if_pos hempty
      exact h.call hafter ⟨free, used, hshared⟩ rfl rfl
    · have hne : used ≠ [] := fun hnil => hempty (hshared.pair.symm.is_empty_iff.mpr hnil)
      obtain ⟨p, rest, rfl⟩ := exists_cons_of_ne_nil hne
      have hnext : speaker.links.next .listUsed = p := hshared.pair.symm.next_head
      have hafter : fhUacSpkstreamDequeue { speaker with interrupts } =
          { speaker with
            interrupts
            links := speaker.links.remove p
            hands := p :: speaker.hands } := by
        unfold fhUacSpkstreamDequeue
        rw [if_neg hinit]
        rw [if_neg hempty, hnext]
      refine h.call hafter ⟨free, rest, ?_⟩ rfl rfl
      exact hshared.symm.take.symm.perm perm_middle

theorem SpeakerInv.enqueue (interrupts : Bool) {spkBuf : BufNode}
    (hhands : spkBuf ∈ speaker.hands) :
    SpeakerInv bufNum (speaker.call interrupts (fhUacSpkstreamEnqueue spkBuf)) := by
  obtain ⟨free, used, hshared⟩ := h.lists
  by_cases hinit : speaker.audioInit = false
  · exact h.call (if_pos hinit) ⟨free, used, hshared⟩ rfl rfl
  · refine h.call (if_neg hinit) ⟨free ++ [spkBuf], used, ?_⟩ rfl rfl
    refine hshared.put (data_buf_members bufNum) ?_
    have hmove : speaker.hands.Perm (spkBuf :: speaker.hands.erase spkBuf) := perm_cons_erase hhands
    exact (hmove.append_left speaker.curBuf.toList).trans perm_middle

/-! ## Runs -/

theorem SpeakerInv.step {event : SpeakerEvent} (hsuits : SpeakerSuits speaker event) :
    ∃ after, speakerStep bufNum speaker event = some after ∧ SpeakerInv bufNum after := by
  cases event with
  | initialised => exact ⟨_, rfl, h.lists, h.restored⟩
  | pump interrupts => exact ⟨_, rfl, h.pump hsuits⟩
  | complete size => exact ⟨_, rfl, h.complete size⟩
  | reinit => exact ⟨_, rfl, h.reinit hsuits⟩
  | dequeue interrupts => exact ⟨_, rfl, h.dequeue interrupts⟩
  | enqueue interrupts spkBuf =>
    dsimp only [speakerStep]
    split
    case isTrue hhands => exact ⟨_, rfl, h.enqueue interrupts hhands⟩
    case isFalse => exact ⟨speaker, rfl, h⟩

end

theorem speaker_start_inv (bufNum : Nat) (links : Links BufNode) :
    SpeakerInv bufNum (speakerStart bufNum links) :=
  ⟨⟨_, [], Shared.rebuild (data_buf_members bufNum) links⟩, rfl⟩

theorem speaker_always_ok {links : Links BufNode} {events : List SpeakerEvent}
    (hsteps : AllSteps (speakerStep bufNum) SpeakerSuits (speakerStart bufNum links) events) :
    Always (speakerStep bufNum) (SpeakerOk bufNum) (speakerStart bufNum links) events := by
  refine always_of_invariant ?_ (fun _ hinv => hinv.speaker_ok) (speaker_start_inv bufNum links)
    hsteps
  intro speaker event after hinv hsuits hstep
  obtain ⟨after', hstep', hinv'⟩ := hinv.step hsuits
  obtain rfl := Option.some.inj (hstep.symm.trans hstep')
  exact hinv'

end

/-- When every event suits, the buffers of the microphone and of the speaker are each in one place
and interrupts are restored, in every state. The two only share `g_audio_init`. -/
theorem audio_buffers_ok (config : MicConfig) (spkBufNum : Nat) (links : Links BufNode)
    (micEvents : List MicEvent) (speakerEvents : List SpeakerEvent)
    (hmic : AllSteps (micStep config) (MicSuits config) (micStart config links) micEvents)
    (hspeaker : AllSteps (speakerStep spkBufNum) SpeakerSuits (speakerStart spkBufNum links)
      speakerEvents) :
    (exec (micStep config) (micStart config links) micEvents).isSome ∧
      Always (micStep config) (MicOk config) (micStart config links) micEvents ∧
      Always (speakerStep spkBufNum) (SpeakerOk spkBufNum) (speakerStart spkBufNum links)
        speakerEvents := by
  obtain ⟨hsome, halways⟩ := mic_always_ok hmic
  exact ⟨hsome, halways, speaker_always_ok hspeaker⟩

def fourBuffers : MicConfig := ⟨4, 1024⟩

/-- A call of `fh_uac_micstream_enqueue` up to the look at the status. -/
def enqueueEvents : List MicEvent := [.enqueue true 64, .thread, .thread, .thread]

/-- Links that point at the head of the free list. -/
def freshLinks : Links BufNode := ⟨fun _ => .listFree, fun _ => .listFree⟩

/-- The thread fills a buffer while the stream is off, so it builds the lists again. The speaker
receives a buffer, which a thread takes and gives back before the stop. -/
theorem audio_stopped_ok :
    (exec (micStep fourBuffers) (micStart fourBuffers freshLinks)
        (.initialised :: enqueueEvents ++ replicate 7 .thread ++ [.reinit])).isSome ∧
      Always (micStep fourBuffers) (MicOk fourBuffers) (micStart fourBuffers freshLinks)
        (.initialised :: enqueueEvents ++ replicate 7 .thread ++ [.reinit]) ∧
      Always (speakerStep 2) (SpeakerOk 2) (speakerStart 2 freshLinks)
        [.initialised, .pump true, .complete 64, .dequeue true, .enqueue true (.dataBuf 1),
          .reinit] :=
  audio_buffers_ok fourBuffers 2 freshLinks _ _ (by decide +kernel) (by decide +kernel)

/-- A buffer that is free and in somebody's hands is in two places. -/
theorem free_and_out {p : BufNode} {free used out : List BufNode} (hfree : p ∈ free)
    (hout : p ∈ out) : (free ++ (used ++ out)).count p ≠ 1 := by
  have hcount : 0 < free.count p := count_pos_iff.mpr hfree
  have hcount' : 0 < out.count p := count_pos_iff.mpr hout
  rw [count_append, count_append]
  omega

/-- The first buffer of a stream is enqueued, and interrupts stay disabled. A stop request while the
thread fills a buffer, or while a caller has one, makes that buffer free. -/
theorem some_audio_calls_not_ok :
    ¬ Always (micStep fourBuffers) (MicOk fourBuffers) (micStart fourBuffers freshLinks)
        (.initialised :: .status true :: enqueueEvents ++ replicate 3 .thread) ∧
      ¬ Always (micStep fourBuffers) (MicOk fourBuffers) (micStart fourBuffers freshLinks)
        [.initialised, .status true, .enqueue true 64, .thread, .reinit] ∧
      ¬ Always (speakerStep 2) (SpeakerOk 2) (speakerStart 2 freshLinks)
        [.initialised, .pump false, .complete 64, .dequeue true, .reinit] := by
  refine ⟨fun halways => ?_, fun halways => ?_, fun halways => ?_⟩
  · have hok := ((((((((halways.2 _ rfl).2 _ rfl).2 _ rfl).2 _ rfl).2 _ rfl).2 _ rfl).2 _ rfl).2
      _ rfl).2 _ rfl
    exact Bool.false_ne_true hok.restored
  · have hok := ((((halways.2 _ rfl).2 _ rfl).2 _ rfl).2 _ rfl).2 _ rfl
    obtain ⟨free, used, hpair, hcount⟩ := hok.lists
    have hfree : BufNode.dataBuf 3 ∈ BufNode.listFree :: free := hpair.first.next_mem mem_cons_self
    exact free_and_out (mem_of_ne_of_mem BufNode.noConfusion hfree) mem_cons_self
      (hcount 3 (Nat.lt_succ_self 3))
  · have hok := ((((halways.2 _ rfl).2 _ rfl).2 _ rfl).2 _ rfl).2 _ rfl
    obtain ⟨free, used, hpair, hcount⟩ := hok.lists
    have hfree : BufNode.dataBuf 1 ∈ BufNode.listFree :: free := hpair.first.next_mem mem_cons_self
    exact free_and_out (mem_of_ne_of_mem BufNode.noConfusion hfree) mem_cons_self
      (hcount 1 (Nat.lt_succ_self 1))

end FullhanRtos.Uac
