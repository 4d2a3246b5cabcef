import FullhanRtos.Uvc.Buffers

/-!
# The buffers of the microphone

The lists of `struct uac_audio_buf` in `drivers/usb/device/class/uac_init.c`, and the interrupt flag
of the processor, which the functions disable and restore by hand. A thread calls
`fh_uac_micstream_enqueue`. `uac_audio_complete` and the `fh_uac_micbuf_reinit` of a stop request
run in the interrupt, so they come between two steps of the thread when interrupts are enabled, or
while the thread does something else. The samples are left out.
-/

namespace FullhanRtos.Uac

open ListPair Transition List Bool
open Uvc (BufNode data_buf_members)

/-! ## Data -/

/-- `UAC_MICBUF_NUM` and `UAC_MICBUF_SIZE`. -/
structure MicConfig where
  bufNum : Nat
  bufSize : Nat

def dataBufs (bufNum : Nat) : List BufNode := (List.range bufNum).map .dataBuf

/-- Where the thread is in `fh_uac_micstream_enqueue`: outside, before a buffer is taken, before it
is linked, at the status, at the two steps of `uac_audio_pump`, in `fh_uac_micbuf_reinit` with `i`
buffers linked, and at the sample rate. -/
inductive MicPhase where
  | idle
  | take
  | link (frame : BufNode)
  | status
  | pump
  | send
  | reinit
  | insert (i : Nat)
  | sample
  deriving DecidableEq

/-- The buffers in the hands of the thread. While it builds the lists it has those that are not
linked yet. -/
def MicPhase.held (bufNum : Nat) : MicPhase → List BufNode
  | .link frame => [frame]
  | .insert i => (dataBufs bufNum).drop i
  | _ => []

/-- `struct uac_audio_buf` with `g_audio_init`, the thread, and whether interrupts are enabled.
`called` is what they were at the call of `fh_uac_micstream_enqueue`, and `restored` says that every
function returned with interrupts as they were at its call. -/
structure MicBuf where
  links : Links BufNode
  curBuf : Option BufNode
  playStatus : Bool
  sample : Nat
  audioInit : Bool
  phase : MicPhase
  interrupts : Bool
  called : Bool
  restored : Bool

/-! ## The functions -/

def fhUacMicbufReinit (config : MicConfig) (mic : MicBuf) : MicBuf :=
  if mic.audioInit then
    { mic with
      links := mic.links.rebuild .listFree .listUsed (dataBufs config.bufNum)
      curBuf := none }
  else mic

/-- Send the first buffer of the used list. -/
def sendFirst (mic : MicBuf) : MicBuf :=
  let cur := mic.links.next .listUsed
  { mic with links := mic.links.remove cur, curBuf := some cur }

def uacAudioComplete (mic : MicBuf) : MicBuf :=
  match mic.curBuf with
  | none => mic
  | some cur =>
    let level := mic.interrupts
    let mic :=
      { mic with
        interrupts := false
        links := mic.links.insertBefore .listFree cur
        curBuf := none }
    if mic.links.isEmpty .listUsed then { mic with interrupts := level }
    else { sendFirst mic with interrupts := level }

/-- When no buffer is free the oldest used one is given up. -/
def giveUpUsed (links : Links BufNode) : Links BufNode :=
  if links.isEmpty .listFree = true ∧ links.isEmpty .listUsed = false then
    let frame := links.next .listUsed
    (links.remove frame).insertBefore .listFree frame
  else links

/-- The first part of `fh_uac_micstream_enqueue`, up to the copy of the samples. Without any buffer
interrupts stay disabled. -/
def takeFrame (mic : MicBuf) : MicBuf :=
  let level := mic.interrupts
  let links := giveUpUsed mic.links
  if links.isEmpty .listFree then { mic with links, interrupts := false, phase := .sample }
  else
    let frame := links.next .listFree
    { mic with links := links.remove frame, interrupts := level, phase := .link frame }

/-- The second part of `uac_audio_pump`. With two used buffers or less interrupts stay disabled. -/
def pumpSend (config : MicConfig) (mic : MicBuf) : Option MicBuf :=
  let level := mic.interrupts
  match mic.links.len .listUsed (config.bufNum + 1) with
  | none => none
  | some len =>
    if 2 < len then some { sendFirst mic with interrupts := level, phase := .sample }
    else some { mic with interrupts := false, phase := .sample }

/-- A step of the thread. What it does with interrupts disabled is one step. -/
def micThread (config : MicConfig) (mic : MicBuf) : Option MicBuf :=
  match mic.phase with
  | .idle => some mic
  | .take => some (takeFrame mic)
  | .link frame =>
    some { mic with links := mic.links.insertBefore .listUsed frame, phase := .status }
  | .status => some { mic with phase := if mic.playStatus then .pump else .reinit }
  | .pump => some { mic with phase := if mic.curBuf = none then .send else .sample }
  | .send => pumpSend config mic
  | .reinit =>
    if mic.audioInit then
      some { mic with links := (mic.links.init .listFree).init .listUsed, phase := .insert 0 }
    else some { mic with phase := .sample }
  | .insert i =>
    if i < config.bufNum then
      some
        { mic with
          links := mic.links.insertAfter .listFree (.dataBuf i)
          phase := .insert (i + 1) }
    else some { mic with curBuf := none, phase := .sample }
  | .sample =>
    some
      { mic with
        sample := 0
        phase := .idle
        restored := mic.restored && mic.interrupts == mic.called }

/-- What happens to the microphone: a call of `fh_uac_micstream_enqueue` with interrupts enabled or
not, a step of it, the end of `fh_uac_init`, a transfer that is complete, the re-initialisation of a
stop request, `fh_uac_micstatus_set` and `fh_uac_micsample_change`. -/
inductive MicEvent where
  | enqueue (interrupts : Bool) (audioSize : Nat)
  | thread
  | initialised
  | complete
  | reinit
  | status (on : Bool)
  | sampleChange (rate : Nat)

/-- A function that runs in the interrupt, where interrupts are disabled. They are as before when
the interrupt is over. -/
def MicBuf.interrupt (handler : MicBuf → MicBuf) (mic : MicBuf) : MicBuf :=
  let after := handler { mic with interrupts := false }
  { after with interrupts := mic.interrupts, restored := after.restored && !after.interrupts }

/-- Interrupts are enabled, or the thread does something else. -/
def MicBuf.Interruptible (mic : MicBuf) : Prop := mic.phase = .idle ∨ mic.interrupts = true

instance (mic : MicBuf) : Decidable mic.Interruptible :=
  inferInstanceAs (Decidable (mic.phase = .idle ∨ mic.interrupts = true))

/-- One event. An interrupt does not come while the thread has interrupts disabled. -/
def micStep (config : MicConfig) (mic : MicBuf) : MicEvent → Option MicBuf
  | .enqueue interrupts audioSize =>
    if mic.phase = .idle ∧ audioSize ≤ config.bufSize then
      some { mic with phase := .take, interrupts, called := interrupts }
    else some mic
  | .thread => micThread config mic
  | .initialised => some { mic with audioInit := true }
  | .complete => some (if mic.Interruptible then mic.interrupt uacAudioComplete else mic)
  | .reinit => some (if mic.Interruptible then mic.interrupt (fhUacMicbufReinit config) else mic)
  | .status on => some { mic with playStatus := on }
  | .sampleChange rate => some { mic with sample := rate }

/-- The lists of `fh_uac_init`. -/
def micStart (config : MicConfig) (links : Links BufNode) : MicBuf where
  links := links.rebuild .listFree .listUsed (dataBufs config.bufNum)
  curBuf := none
  playStatus := false
  sample := 0
  audioInit := false
  phase := .idle
  interrupts := true
  called := true
  restored := true

/-! ## What holds -/

/-- The buffers that are in no list: the one that is sent and those in the hands of the thread. -/
def MicBuf.out (config : MicConfig) (mic : MicBuf) : List BufNode :=
  mic.curBuf.toList ++ mic.phase.held config.bufNum

/-- Both lists are well formed, every buffer is in exactly one place, and every function returned
with interrupts as they were when it was called. -/
structure MicOk (config : MicConfig) (mic : MicBuf) : Prop where
  lists : ∃ free used, Pair mic.links .listFree .listUsed free used ∧
    ∀ i < config.bufNum, (free ++ (used ++ mic.out config)).count (.dataBuf i) = 1
  restored : mic.restored = true

/-- The thread finds a buffer to fill, and three used buffers when none is sent, unless interrupts
were disabled when it was called. It builds the lists only while no buffer is sent. A stop request
comes while it has no buffer in its hands. -/
def MicSuits (config : MicConfig) (mic : MicBuf) : MicEvent → Prop
  | .thread =>
    match mic.phase with
    | .take => mic.interrupts = true →
        mic.links.isEmpty .listFree = false ∨ mic.links.isEmpty .listUsed = false
    | .send => mic.interrupts = true →
        (mic.links.len .listUsed (config.bufNum + 1)).any (2 < ·) = true
    | .reinit => mic.audioInit = true → mic.curBuf = none
    | _ => True
  | .reinit => mic.Interruptible → mic.audioInit = true → mic.phase.held config.bufNum = []
  | _ => True

instance (config : MicConfig) (mic : MicBuf) :
    (event : MicEvent) → Decidable (MicSuits config mic event)
  | .thread =>
    match h : mic.phase with
    | .take => decidable_of_iff (mic.interrupts = true →
        mic.links.isEmpty .listFree = false ∨ mic.links.isEmpty .listUsed = false)
        (by rw [MicSuits, h])
    | .send => decidable_of_iff (mic.interrupts = true →
        (mic.links.len .listUsed (config.bufNum + 1)).any (2 < ·) = true) (by rw [MicSuits, h])
    | .reinit => decidable_of_iff (mic.audioInit = true → mic.curBuf = none) (by rw [MicSuits, h])
    | .idle | .link _ | .status | .pump | .insert _ | .sample =>
      .isTrue (by rw [MicSuits, h]; trivial)
  | .reinit => inferInstanceAs (Decidable (mic.Interruptible → mic.audioInit = true →
      mic.phase.held config.bufNum = []))
  | .enqueue .. | .initialised | .complete | .status _ | .sampleChange _ => .isTrue trivial

/-! ## The invariant -/

/-- The points of the thread at which nothing is sent. -/
def MicPhase.NoneSent : MicPhase → Prop
  | .send => True
  | .insert _ => True
  | _ => False

/-- The lists hold what the thread does not hold. A thread that runs has interrupts as they were at
its call. -/
structure MicInv (config : MicConfig) (mic : MicBuf) : Prop where
  lists : ∃ free used, Shared mic.links .listFree .listUsed (dataBufs config.bufNum) free used
    (mic.out config)
  unsent : mic.phase.NoneSent → mic.curBuf = none
  called : mic.phase ≠ .idle → mic.interrupts = mic.called
  restored : mic.restored = true

section

variable {config : MicConfig} {mic : MicBuf} {free used : List BufNode} {links : Links BufNode}
  {bufNum i : Nat} {after : MicBuf}

theorem data_bufs_count (h : i < bufNum) :
    (dataBufs bufNum).count (.dataBuf i) = 1 :=
  count_eq_one_of_mem (data_buf_members bufNum).nodup
    (mem_map.mpr ⟨i, mem_range.mpr h, rfl⟩)

theorem data_bufs_drop (h : i < bufNum) :
    (dataBufs bufNum).drop i = .dataBuf i :: (dataBufs bufNum).drop (i + 1) := by
  have hlength : i < (dataBufs bufNum).length := by simpa [dataBufs] using h
  rw [drop_eq_getElem_cons hlength]
  simp [dataBufs]

theorem MicInv.mic_ok (h : MicInv config mic) : MicOk config mic := by
  obtain ⟨free, used, hshared⟩ := h.lists
  refine ⟨⟨free, used, hshared.pair, fun i hi => ?_⟩, h.restored⟩
  rw [hshared.all.count_eq]
  exact data_bufs_count hi

/-! ## The interrupt -/

theorem MicInv.interrupt (h : MicInv config mic) {handler : MicBuf → MicBuf}
    (hafter : handler { mic with interrupts := false } = after)
    (hlists : ∃ free used,
      Shared after.links .listFree .listUsed (dataBufs config.bufNum) free used (after.out config))
    (hphase : after.phase = mic.phase) (hcur : mic.curBuf = none → after.curBuf = none)
    (hcalled : after.called = mic.called) (hrestored : after.restored = mic.restored)
    (hoff : after.interrupts = false) : MicInv config (mic.interrupt handler) := by
  unfold MicBuf.interrupt
  rw [hafter]
  constructor
  case lists => exact hlists
  case unsent => exact fun hp => hcur (h.unsent (hphase ▸ hp))
  case called =>
    intro hp
    show mic.interrupts = after.called
    rw [hcalled]
    exact h.called (hphase ▸ hp)
  case restored =>
    show (after.restored && !after.interrupts) = true
    rw [hrestored, h.restored, hoff]
    rfl

theorem send_first_shared (mic : MicBuf) {held : List BufNode}
    (hused : mic.links.isEmpty .listUsed = false)
    (h : Shared mic.links .listFree .listUsed (dataBufs config.bufNum) free used held) :
    ∃ used', Shared (sendFirst mic).links .listFree .listUsed (dataBufs config.bufNum) free used'
      ((sendFirst mic).curBuf.toList ++ held) := by
  have hne : used ≠ [] := by
    rw [Ne, ← h.pair.symm.is_empty_iff, hused]
    exact Bool.false_ne_true
  obtain ⟨p, rest, rfl⟩ := exists_cons_of_ne_nil hne
  have hnext : mic.links.next .listUsed = p := h.pair.symm.next_head
  refine ⟨rest, ?_⟩
  unfold sendFirst
  rw [hnext]
  exact h.symm.take.symm

open MicBuf

theorem MicInv.complete (h : MicInv config mic) :
    MicInv config (mic.interrupt uacAudioComplete) := by
  obtain ⟨free, used, hshared⟩ := h.lists
  cases hcur : mic.curBuf with
  | none =>
    have hafter : uacAudioComplete { mic with interrupts := false } =
        { mic with interrupts := false } := by
      unfold uacAudioComplete
      rw [hcur]
    exact h.interrupt hafter ⟨free, used, hshared⟩ rfl id rfl rfl rfl
  | some cur =>
    have hput : Shared (mic.links.insertBefore .listFree cur) .listFree .listUsed
        (dataBufs config.bufNum) (free ++ [cur]) used (mic.phase.held config.bufNum) := by
      refine hshared.put (data_buf_members _) ?_
      rw [out, hcur]
      exact Perm.refl _
    -- the buffer is free again; what follows depends on the used list
    have hsome : ¬ mic.curBuf = none := by
      rw [hcur]
      exact Option.some_ne_none cur
    by_cases hempty : (mic.links.insertBefore .listFree cur).isEmpty .listUsed = true
    · have hafter : uacAudioComplete { mic with interrupts := false } =
          { mic with
            interrupts := false
            links := mic.links.insertBefore .listFree cur
            curBuf := none } := by
        rw [hcur]
        exact if_pos hempty
      exact h.interrupt hafter ⟨_, _, hput⟩ rfl (fun _ => rfl) rfl rfl rfl
    · have hmore := eq_false_iff.mpr hempty
      let back : MicBuf :=
        { mic with
          interrupts := false
          links := mic.links.insertBefore .listFree cur
          curBuf := none }
      have hafter : uacAudioComplete { mic with interrupts := false } = sendFirst back := by
        rw [hcur]
        exact if_neg hempty
      obtain ⟨used', hsent⟩ := send_first_shared back hmore hput
      exact h.interrupt hafter ⟨_, used', hsent⟩ rfl (fun hnone => absurd hnone hsome) rfl rfl rfl

theorem MicInv.reinit (h : MicInv config mic)
    (hheld : mic.audioInit = true → mic.phase.held config.bufNum = []) :
    MicInv config (mic.interrupt (fhUacMicbufReinit config)) := by
  obtain ⟨free, used, hshared⟩ := h.lists
  by_cases hinit : mic.audioInit = true
  · have hafter : fhUacMicbufReinit config { mic with interrupts := false } =
        { mic with
          interrupts := false
          links := mic.links.rebuild .listFree .listUsed (dataBufs config.bufNum)
          curBuf := none } := if_pos hinit
    refine h.interrupt hafter ⟨(dataBufs config.bufNum).reverse, [], ?_⟩ rfl (fun _ => rfl) rfl rfl
      rfl
    have hrebuilt := Shared.rebuild (data_buf_members config.bufNum) mic.links
    rw [out, hheld hinit]
    exact hrebuilt
  · have hafter : fhUacMicbufReinit config { mic with interrupts := false } =
        { mic with interrupts := false } := if_neg hinit
    exact h.interrupt hafter ⟨free, used, hshared⟩ rfl id rfl rfl rfl

/-! ## The thread -/

/-- A step of the thread that keeps the lists, and interrupts as they are. -/
theorem MicInv.moved (h : MicInv config mic) (hrun : mic.phase ≠ .idle)
    (hlists : ∃ free used,
      Shared after.links .listFree .listUsed (dataBufs config.bufNum) free used (after.out config))
    (hunsent : after.phase.NoneSent → after.curBuf = none)
    (hinterrupts : after.interrupts = mic.interrupts) (hcalled : after.called = mic.called)
    (hrestored : after.restored = mic.restored) : MicInv config after := by
  refine ⟨hlists, hunsent, fun _ => ?_, hrestored.trans h.restored⟩
  rw [hinterrupts, hcalled]
  exact h.called hrun

theorem give_up_shared {nodes out : List BufNode} (hnodes : Members .listFree .listUsed nodes)
    (h : Shared links .listFree .listUsed nodes free used out) :
    ∃ free' used', Shared (giveUpUsed links) .listFree .listUsed nodes free' used' out ∧
      (links.isEmpty .listFree = false ∨ links.isEmpty .listUsed = false → free' ≠ []) := by
  unfold giveUpUsed
  by_cases hgive : links.isEmpty .listFree = true ∧ links.isEmpty .listUsed = false
  · rw [if_pos hgive]
    have hne : used ≠ [] := by
      rw [Ne, ← h.pair.symm.is_empty_iff, hgive.2]
      exact Bool.false_ne_true
    obtain ⟨p, rest, rfl⟩ := exists_cons_of_ne_nil hne
    have hnext : links.next .listUsed = p := h.pair.symm.next_head
    rw [hnext]
    have hput := h.symm.take.symm.put hnodes (Perm.refl (p :: out))
    exact ⟨free ++ [p], rest, hput, fun _ => append_ne_nil_of_right_ne_nil _ nofun⟩
  · rw [if_neg hgive]
    refine ⟨free, used, h, fun hany hnil => hgive ?_⟩
    have hempty : links.isEmpty .listFree = true := h.pair.is_empty_iff.mpr hnil
    refine ⟨hempty, hany.resolve_left fun hfree => ?_⟩
    exact Bool.false_ne_true (hfree.symm.trans hempty)

theorem MicInv.take (h : MicInv config mic) (hphase : mic.phase = .take)
    (hsuits : mic.interrupts = true →
      mic.links.isEmpty .listFree = false ∨ mic.links.isEmpty .listUsed = false) :
    MicInv config (takeFrame mic) := by
  obtain ⟨free, used, hshared⟩ := h.lists
  have hrun : mic.phase ≠ .idle := by
    rw [hphase]
    exact nofun
  have hout : mic.out config = mic.curBuf.toList := by
    rw [out, hphase]
    exact append_nil _
  obtain ⟨free', used', hgiven, hne⟩ := give_up_shared (data_buf_members config.bufNum) hshared
  rw [hout] at hgiven
  unfold takeFrame
  dsimp only
  split
  case isTrue hempty =>
    -- no buffer at all: this is allowed only if interrupts are disabled already
    have hnone : free' = [] := hgiven.pair.is_empty_iff.mp hempty
    have hoff : mic.interrupts = false := by
      by_contra hon
      exact hne (hsuits (not_eq_false _ ▸ hon)) hnone
    refine h.moved hrun ⟨free', used', ?_⟩ False.elim hoff.symm rfl rfl
    rw [out]
    dsimp only [MicPhase.held]
    rw [append_nil]
    exact hgiven
  case isFalse hsome =>
    have hfree : free' ≠ [] := fun hnil => hsome (hgiven.pair.is_empty_iff.mpr hnil)
    obtain ⟨p, rest, rfl⟩ := exists_cons_of_ne_nil hfree
    have hnext := hgiven.pair.next_head
    rw [hnext]
    refine h.moved hrun ⟨rest, used', ?_⟩ False.elim rfl rfl rfl
    exact hgiven.take.perm (perm_append_singleton p _)

/-- `uac_audio_pump` sends a buffer, or interrupts were disabled when it was called. -/
theorem MicInv.send (h : MicInv config mic) (hphase : mic.phase = .send)
    (hsuits : mic.interrupts = true →
      (mic.links.len .listUsed (config.bufNum + 1)).any (2 < ·) = true) :
    ∃ after, pumpSend config mic = some after ∧ MicInv config after := by
  obtain ⟨free, used, hshared⟩ := h.lists
  have hrun : mic.phase ≠ .idle := by
    rw [hphase]
    exact nofun
  have hcur : mic.curBuf = none := h.unsent (by rw [hphase]; trivial)
  have hout : mic.out config = [] := by
    rw [out, hphase, hcur]
    rfl
  rw [hout] at hshared
  have hlength : used.length < config.bufNum + 1 := by
    have hle := hshared.symm.length_le
    rw [dataBufs, length_map, length_range] at hle
    exact Nat.lt_succ_of_le hle
  have hlen := hshared.pair.symm.len_eq hlength
  unfold pumpSend
  rw [hlen]
  dsimp only
  by_cases hmany : 2 < used.length
  · rw [if_pos hmany]
    have hmore : mic.links.isEmpty .listUsed = false := by
      rw [eq_false_iff, Ne, hshared.pair.symm.is_empty_iff]
      rintro rfl
      exact absurd hmany (Nat.not_lt_zero 2)
    obtain ⟨used', hsent⟩ := send_first_shared mic hmore hshared
    exact ⟨_, rfl, h.moved hrun ⟨free, used', hsent⟩ False.elim rfl rfl rfl⟩
  · rw [if_neg hmany]
    have hoff : mic.interrupts = false := by
      by_contra hon
      have hlt := hsuits (not_eq_false _ ▸ hon)
      rw [hlen] at hlt
      exact hmany (of_decide_eq_true hlt)
    refine ⟨_, rfl, h.moved hrun ⟨free, used, ?_⟩ False.elim hoff.symm rfl rfl⟩
    rw [out, hcur]
    exact hshared

theorem MicInv.thread (h : MicInv config mic) (hsuits : MicSuits config mic .thread) :
    ∃ after, micThread config mic = some after ∧ MicInv config after := by
  obtain ⟨free, used, hshared⟩ := h.lists
  have hrun : ∀ phase, mic.phase = phase → phase ≠ .idle → mic.phase ≠ .idle := fun _ hp hne =>
    hp ▸ hne
  -- the thread goes on and touches nothing
  have hgoes : ∀ phase : MicPhase, mic.phase ≠ .idle →
      phase.held config.bufNum = mic.phase.held config.bufNum →
      (phase.NoneSent → mic.curBuf = none) → MicInv config { mic with phase := phase } := by
    intro phase hne hheld hunsent
    refine h.moved hne ⟨free, used, ?_⟩ hunsent rfl rfl rfl
    rw [out]
    rw [hheld]
    exact hshared
  unfold micThread
  unfold MicSuits at hsuits
  cases hphase : mic.phase with
  | idle => exact ⟨mic, rfl, h⟩
  | take =>
    rw [hphase] at hsuits
    exact ⟨_, rfl, h.take hphase hsuits⟩
  | link frame =>
    refine ⟨_, rfl, h.moved (hrun _ hphase nofun) ⟨free, used ++ [frame], ?_⟩ False.elim rfl rfl
      rfl⟩
    have hout : (mic.out config).Perm (frame :: mic.curBuf.toList) := by
      rw [out, hphase]
      exact perm_append_singleton frame _
    rw [out]
    dsimp only [MicPhase.held]
    rw [append_nil]
    exact (hshared.symm.put (data_buf_members config.bufNum).symm hout).symm
  | status =>
    refine ⟨_, rfl, hgoes _ (hrun _ hphase nofun) ?_ ?_⟩
    · rw [hphase]
      cases mic.playStatus <;> rfl
    · cases mic.playStatus <;> exact False.elim
  | pump =>
    refine ⟨_, rfl, hgoes _ (hrun _ hphase nofun) ?_ ?_⟩
    · rw [hphase]
      split <;> rfl
    · split
      case isTrue hnone => exact fun _ => hnone
      case isFalse => exact False.elim
  | send =>
    rw [hphase] at hsuits
    exact h.send hphase hsuits
  | reinit =>
    rw [hphase] at hsuits
    dsimp only
    split
    case isTrue hinit =>
      have hcur : mic.curBuf = none := hsuits hinit
      refine ⟨_, rfl, h.moved (hrun _ hphase nofun) ⟨[], [], ?_⟩ (fun _ => hcur) rfl rfl rfl⟩
      rw [out]
      dsimp only [MicPhase.held]
      rw [hcur, drop_zero]
      exact Shared.init (data_buf_members config.bufNum) mic.links
    case isFalse =>
      refine ⟨_, rfl, hgoes .sample (hrun _ hphase nofun) ?_ False.elim⟩
      rw [hphase]
      rfl
  | insert i =>
    have hcur : mic.curBuf = none := h.unsent (by rw [hphase]; trivial)
    dsimp only
    split
    case isTrue hi =>
      refine ⟨_, rfl, h.moved (hrun _ hphase nofun) ⟨.dataBuf i :: free, used, ?_⟩
        (fun _ => hcur) rfl rfl rfl⟩
      refine hshared.push (data_buf_members config.bufNum) ?_
      rw [out, hphase, hcur]
      dsimp only [MicPhase.held]
      rw [data_bufs_drop hi]
      exact Perm.refl _
    case isFalse hi =>
      refine ⟨_, rfl, h.moved (hrun _ hphase nofun) ⟨free, used, ?_⟩ (fun _ => rfl) rfl rfl rfl⟩
      have hall : (dataBufs config.bufNum).drop i = [] := by
        refine drop_eq_nil_of_le ?_
        rw [dataBufs, length_map, length_range]
        exact Nat.le_of_not_lt hi
      rw [out, hphase, hcur] at hshared
      dsimp only [MicPhase.held] at hshared
      rw [hall] at hshared
      exact hshared
  | sample =>
    have hcalled : mic.interrupts = mic.called := h.called (hrun _ hphase nofun)
    refine ⟨_, rfl, ⟨free, used, ?_⟩, False.elim, fun hp => absurd rfl hp, ?_⟩
    · rw [out, hphase] at hshared
      exact hshared
    · dsimp only
      rw [hcalled, h.restored, beq_self_eq_true]
      rfl

/-! ## Runs -/

theorem MicInv.step (h : MicInv config mic) {event : MicEvent}
    (hsuits : MicSuits config mic event) :
    ∃ after, micStep config mic event = some after ∧ MicInv config after := by
  cases event with
  | enqueue interrupts audioSize =>
    dsimp only [micStep]
    split
    case isTrue hcall =>
      obtain ⟨free, used, hshared⟩ := h.lists
      refine ⟨_, rfl, ⟨free, used, ?_⟩, False.elim, fun _ => rfl, h.restored⟩
      rw [out, hcall.1] at hshared
      exact hshared
    case isFalse => exact ⟨mic, rfl, h⟩
  | thread => exact h.thread hsuits
  | initialised => exact ⟨_, rfl, h.lists, h.unsent, h.called, h.restored⟩
  | complete =>
    dsimp only [micStep]
    split
    · exact ⟨_, rfl, h.complete⟩
    · exact ⟨mic, rfl, h⟩
  | reinit =>
    dsimp only [micStep]
    split
    case isTrue hfree => exact ⟨_, rfl, h.reinit (hsuits hfree)⟩
    case isFalse => exact ⟨mic, rfl, h⟩
  | status on => exact ⟨_, rfl, h.lists, h.unsent, h.called, h.restored⟩
  | sampleChange rate => exact ⟨_, rfl, h.lists, h.unsent, h.called, h.restored⟩

theorem mic_start_inv (config : MicConfig) (links : Links BufNode) :
    MicInv config (micStart config links) :=
  ⟨⟨_, [], Shared.rebuild (data_buf_members config.bufNum) links⟩, False.elim,
    fun hp => absurd rfl hp, rfl⟩

theorem mic_always_ok {events : List MicEvent}
    (hsteps : AllSteps (micStep config) (MicSuits config) (micStart config links) events) :
    (exec (micStep config) (micStart config links) events).isSome ∧
      Always (micStep config) (MicOk config) (micStart config links) events := by
  have hstart := mic_start_inv config links
  constructor
  · obtain ⟨final, hrun, -⟩ := exec_progress (fun _ _ hinv hsuits => hinv.step hsuits) hstart hsteps
    exact Option.isSome_iff_exists.mpr ⟨final, hrun⟩
  · refine always_of_invariant ?_ (fun _ hinv => hinv.mic_ok) hstart hsteps
    intro mic event after hinv hsuits hstep
    obtain ⟨after', hstep', hinv'⟩ := hinv.step hsuits
    obtain rfl := Option.some.inj (hstep.symm.trans hstep')
    exact hinv'

end

end FullhanRtos.Uac
