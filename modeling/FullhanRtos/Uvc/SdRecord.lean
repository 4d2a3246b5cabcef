import FullhanRtos.Lib.Transition
import Mathlib.Logic.Function.Basic

/-!
# Recording to the SD card

`uvc_sd_record_start`, `uvc_sd_record_stop` and `uvc_sd_record_save_frame` share a container under
`g_record_mutex`, and `uvc_sd_record_deinit` unmounts the card without it. A failed write clears
`g_recording` and leaves the container open, so that nothing closes it. `recording_in_order` says
that containers are opened, written and closed in order when no write fails and no start comes
between the last look of `uvc_sd_record_deinit` at the recording and its end.

The format is AVI with `libfhavi`, of which only the results of its three functions matter. A step
is what a thread does up to its next access to a variable that it shares without the mutex.
-/

namespace FullhanRtos.SdRecord

open Transition Function Option AllSteps

/-! ## Threads -/

/-- `DMC_MEDIA_TYPE_H264`, `DMC_MEDIA_TYPE_H265` and the others. -/
inductive MediaType where
  | h264
  | h265
  | other
  deriving DecidableEq

/-- Where a thread is that does not hold the mutex: outside, in `uvc_sd_record_stop` on behalf of
`uvc_sd_record_deinit`, in `uvc_sd_record_save_frame` or in `unmount_sdcard`, before its look at
`g_sd_mounted`, before `dfs_unmount` and behind it. `locked` is a thread that holds the mutex. -/
inductive Place where
  | outside
  | locked
  | stopWaits
  | saveWaits
  | unmountCheck
  | unmount
  | unmounted
  deriving DecidableEq

/-- Where the thread is that holds the mutex: in `init_container`, in front of `g_recording = 1`, in
`close_container`, behind it, and in front of the look of `write_frame` at `g_sd_mounted` and behind
it. `deinit` is a stop on behalf of `uvc_sd_record_deinit`. -/
inductive Critical where
  | startOpen (thread : Nat)
  | startFinish (thread : Nat)
  | stopClose (thread : Nat) (deinit : Bool)
  | stopFinish (thread : Nat) (deinit : Bool)
  | saveMounted (thread : Nat)
  | saveCommit (thread : Nat)
  deriving DecidableEq

/-- The variables of `uvc_sd_record.c`. A handle is the number of the container, of which `started`
were opened. -/
structure Recorder where
  sdMounted : Bool
  recording : Bool
  stopping : Bool
  fhaviHandle : Option Nat
  started : Nat
  mutex : Option Critical
  threads : Nat → Place

def sdRecordInit (mounted : Bool) : Recorder where
  sdMounted := mounted
  recording := false
  stopping := false
  fhaviHandle := none
  started := 0
  mutex := none
  threads := fun _ => .outside

/-- The result of a function of `libfhavi`; `FHAVI_Start` may leave anything in the handle when it
fails. -/
inductive FhaviAnswer where
  | ok
  | failed (handle : Option Nat)

/-- A thread calls a function, goes on without the mutex, or goes on with it. -/
inductive Act where
  | start (thread : Nat)
  | stop (thread : Nat)
  | deinit (thread : Nat)
  | saveFrame (thread : Nat) (mediaType : MediaType)
  | goesOn (thread : Nat)
  | holderGoesOn (answer : FhaviAnswer)

/-! ## Steps -/

def Recorder.at (r : Recorder) (thread : Nat) (place : Place) : Recorder :=
  { r with threads := update r.threads thread place }

def Recorder.lock (r : Recorder) (thread : Nat) (critical : Critical) : Recorder :=
  { r with
    mutex := some critical
    threads := update r.threads thread .locked }

def Recorder.unlock (r : Recorder) (thread : Nat) (place : Place) : Recorder :=
  { r with
    mutex := none
    threads := update r.threads thread place }

/-- Behind `uvc_sd_record_stop`. -/
def afterStop (deinit : Bool) : Place := if deinit then .unmountCheck else .outside

/-- The beginning of `uvc_sd_record_stop`, with the mutex free. -/
def stopBegin (r : Recorder) (thread : Nat) (deinit : Bool) : Recorder :=
  if r.recording then r.lock thread (.stopClose thread deinit)
  else r.at thread (afterStop deinit)

def uvcSdRecordStart (r : Recorder) (thread : Nat) : Recorder :=
  if r.recording then r
  else if r.sdMounted = false then r
  else r.lock thread (.startOpen thread)

def uvcSdRecordDeinit (r : Recorder) (thread : Nat) : Recorder :=
  r.at thread (if r.recording then .stopWaits else .unmountCheck)

def uvcSdRecordSaveFrame (r : Recorder) (thread : Nat) (mediaType : MediaType) : Recorder :=
  if r.sdMounted = false then r
  else if mediaType = .other then r
  else r.at thread .saveWaits

/-- A thread without the mutex goes on. -/
def goOn (r : Recorder) (thread : Nat) : Option Recorder :=
  match r.threads thread with
  | .outside | .locked => none
  | .stopWaits => if r.mutex = none then some (stopBegin r thread true) else none
  | .saveWaits =>
    if r.mutex = none then
      if r.recording then some (r.lock thread (.saveMounted thread))
      else some (r.at thread .outside)
    else none
  | .unmountCheck => some (r.at thread (if r.sdMounted then .unmount else .outside))
  | .unmount => some (r.at thread .unmounted)
  | .unmounted => some ({ r with sdMounted := false }.at thread .outside)

/-- The thread with the mutex goes on. -/
def holderGoOn (r : Recorder) (answer : FhaviAnswer) : Option Recorder :=
  match r.mutex with
  | none => none
  | some (.startOpen thread) =>
    match answer with
    | .ok =>
      some { r with
        fhaviHandle := some r.started
        started := r.started + 1
        mutex := some (.startFinish thread) }
    | .failed handle => some ({ r with fhaviHandle := handle }.unlock thread .outside)
  | some (.startFinish thread) =>
    some ({ r with stopping := false, recording := true }.unlock thread .outside)
  | some (.stopClose thread deinit) =>
    some { r with
      stopping := true
      fhaviHandle := none
      mutex := some (.stopFinish thread deinit) }
  | some (.stopFinish thread deinit) =>
    some ({ r with recording := false, stopping := false }.unlock thread (afterStop deinit))
  | some (.saveMounted thread) =>
    some { r with
      recording := if r.sdMounted = false ∧ r.recording then false else r.recording
      mutex := some (.saveCommit thread) }
  | some (.saveCommit thread) =>
    if r.stopping ∨ r.fhaviHandle = none then some (r.unlock thread .outside)
    else
      match answer with
      | .ok => some (r.unlock thread .outside)
      | .failed _ => some ({ r with recording := false }.unlock thread .outside)

/-- A thread is in one call at a time, and waits for the mutex. -/
def recordStep (r : Recorder) : Act → Option Recorder
  | .start thread =>
    if r.threads thread = .outside ∧ r.mutex = none then some (uvcSdRecordStart r thread)
    else none
  | .stop thread =>
    if r.threads thread = .outside ∧ r.mutex = none then some (stopBegin r thread false)
    else none
  | .deinit thread =>
    if r.threads thread = .outside then some (uvcSdRecordDeinit r thread) else none
  | .saveFrame thread mediaType =>
    if r.threads thread = .outside then some (uvcSdRecordSaveFrame r thread mediaType) else none
  | .goesOn thread => goOn r thread
  | .holderGoesOn answer => holderGoOn r answer

/-! ## The card -/

/-- What happens to the card: containers are opened, written and closed, and it is unmounted. -/
inductive CardEvent where
  | opened (container : Nat)
  | written (container : Nat)
  | closed (container : Nat)
  | unmounted
  deriving DecidableEq

/-- The container that is open, and the number of those that were opened. -/
structure Card where
  container : Option Nat
  count : Nat
  deriving DecidableEq

/-- One container at a time, which is closed once, before the next one is opened and before the card
is unmounted, and not written after that. -/
def cardStep (card : Card) : CardEvent → Option Card
  | .opened c =>
    if card.container = none ∧ c = card.count then some ⟨some c, card.count + 1⟩ else none
  | .written c => if card.container = some c then some card else none
  | .closed c => if card.container = some c then some { card with container := none } else none
  | .unmounted => if card.container = none then some card else none

def recordEvent (r : Recorder) (act : Act) (_r' : Recorder) : List CardEvent :=
  match act with
  | .goesOn thread =>
    match r.threads thread with
    | .unmount => [.unmounted]
    | _ => []
  | .holderGoesOn answer =>
    match r.mutex, answer with
    | some (.startOpen _), .ok => [.opened r.started]
    | some (.stopClose _ _), _ => r.fhaviHandle.toList.map .closed
    | some (.saveCommit _), _ =>
      if r.stopping then [] else r.fhaviHandle.toList.map .written
    | _, _ => []
  | _ => []

/-! ## The condition -/

/-- In `uvc_sd_record_deinit` behind its last look at the recording. -/
def Place.leaving : Place → Bool
  | .unmountCheck | .unmount | .unmounted => true
  | _ => false

/-- In `uvc_sd_record_start` behind its checks. -/
def Critical.starting : Critical → Bool
  | .startOpen _ | .startFinish _ => true
  | _ => false

def Recorder.starting (r : Recorder) : Bool := r.mutex.any Critical.starting

/-- The condition on a step: no write fails, and a start that passes its checks and the end of
`uvc_sd_record_deinit` do not overlap. -/
def ActOk (r : Recorder) : Act → Prop
  | .start _ =>
    r.recording = false → r.sdMounted = true → ∀ thread, (r.threads thread).leaving = false
  | .deinit _ => r.recording = false → r.starting = false
  | .holderGoesOn (.failed _) => ∀ thread, r.mutex ≠ some (.saveCommit thread)
  | _ => True

/-! ## The invariant -/

/-- The container that is open is the one of the handle. -/
def Held (r : Recorder) (card : Card) : Prop :=
  ∃ c, card.container = some c ∧ r.fhaviHandle = some c

/-- What is open, by where the thread with the mutex is. -/
def ContainerOk (r : Recorder) (card : Card) : Prop :=
  match r.mutex with
  | none => if r.recording then Held r card else card.container = none
  | some (.startOpen _) => r.recording = false ∧ card.container = none
  | some (.startFinish _) => Held r card
  | some (.stopFinish _ _) => card.container = none
  | some (.stopClose _ _) | some (.saveMounted _) | some (.saveCommit _) =>
    r.recording = true ∧ Held r card

/-- Nothing is open, and nothing is about to be opened. -/
def Quiet (r : Recorder) (card : Card) : Prop := card.container = none ∧ r.starting = false

structure RecordOk (r : Recorder) (card : Card) : Prop where
  count : card.count = r.started
  container : ContainerOk r card
  leaving : ∀ thread, (r.threads thread).leaving = true → Quiet r card
  unmounted : r.sdMounted = false → Quiet r card

variable {r r' : Recorder} {card : Card} {thread : Nat} {place : Place} {critical : Critical}
  {act : Act} {answer : FhaviAnswer}

theorem leaving_update (h : RecordOk r card) (hplace : place.leaving = true → Quiet r card)
    (other : Nat) (hother : (update r.threads thread place other).leaving = true) :
    Quiet r card := by
  by_cases heq : other = thread
  · rw [heq, update_self] at hother
    exact hplace hother
  · rw [update_of_ne heq] at hother
    exact h.leaving other hother

theorem RecordOk.at (h : RecordOk r card) (hplace : place.leaving = true → Quiet r card) :
    RecordOk (r.at thread place) card := by
  refine ⟨h.count, h.container, fun other hother => ?_, h.unmounted⟩
  show Quiet r card
  exact leaving_update h hplace other hother

/-- While a container is open, or about to be opened, no thread is leaving and the card is
mounted. -/
theorem RecordOk.busy (h : RecordOk r card) (hbusy : ¬ Quiet r card) :
    (∀ thread, (r.threads thread).leaving = false) ∧ r.sdMounted = true := by
  constructor
  · intro thread
    cases hleaving : (r.threads thread).leaving with
    | false => rfl
    | true => exact absurd (h.leaving thread hleaving) hbusy
  · cases hmounted : r.sdMounted with
    | false => exact absurd (h.unmounted hmounted) hbusy
    | true => rfl

theorem RecordOk.lock (h : RecordOk r card) (hcritical : critical.starting = false)
    (hcontainer : ContainerOk (r.lock thread critical) card) :
    RecordOk (r.lock thread critical) card := by
  have hquiet : Quiet r card → Quiet (r.lock thread critical) card := fun hq => ⟨hq.1, hcritical⟩
  refine ⟨h.count, hcontainer, fun other hother => ?_,
    fun hmounted => hquiet (h.unmounted hmounted)⟩
  exact hquiet (leaving_update h (fun hlocked => by cases hlocked) other hother)

theorem Held.not_quiet (h : Held r card) : ¬ Quiet r card := by
  obtain ⟨c, hcontainer, -⟩ := h
  rintro ⟨hnone, -⟩
  rw [hnone] at hcontainer
  cases hcontainer

/-- A state in which a container is open, or about to be opened. -/
theorem RecordOk.of_busy (hcount : card.count = r.started) (hcontainer : ContainerOk r card)
    (hleaving : ∀ thread, (r.threads thread).leaving = false) (hmounted : r.sdMounted = true) :
    RecordOk r card := by
  refine ⟨hcount, hcontainer, fun thread hleaves => ?_, fun hunmounted => ?_⟩
  · exact absurd ((hleaving thread).symm.trans hleaves) Bool.false_ne_true
  · exact absurd (hunmounted.symm.trans hmounted) Bool.false_ne_true

/-- A state in which nothing is open. -/
theorem RecordOk.of_quiet (hcount : card.count = r.started) (hcontainer : ContainerOk r card)
    (hquiet : Quiet r card) : RecordOk r card :=
  ⟨hcount, hcontainer, fun _ _ => hquiet, fun _ => hquiet⟩

theorem not_leaving_update (hleaving : ∀ thread, (r.threads thread).leaving = false)
    (hplace : place.leaving = false) (other : Nat) :
    (update r.threads thread place other).leaving = false := by
  by_cases heq : other = thread
  · rw [heq, update_self]
    exact hplace
  · rw [update_of_ne heq]
    exact hleaving other

/-! ## Steps keep the invariant -/

section

variable (h : RecordOk r card)

include h

theorem stop_begin_ok (hmutex : r.mutex = none) (deinit : Bool) :
    RecordOk (stopBegin r thread deinit) card := by
  have hcontainer := h.container
  unfold ContainerOk at hcontainer
  rw [hmutex] at hcontainer
  unfold stopBegin
  by_cases hrecording : r.recording = true
  · rw [if_pos hrecording]
    rw [if_pos hrecording] at hcontainer
    exact h.lock rfl ⟨hrecording, hcontainer⟩
  · rw [if_neg hrecording]
    rw [if_neg hrecording] at hcontainer
    refine h.at fun _ => ⟨hcontainer, ?_⟩
    unfold Recorder.starting
    rw [hmutex]
    rfl

theorem start_ok (hmutex : r.mutex = none) (hok : ActOk r (.start thread)) :
    RecordOk (uvcSdRecordStart r thread) card := by
  unfold uvcSdRecordStart
  split
  · exact h
  · rename_i hrecording
    split
    · exact h
    · rename_i hmounted
      have hidle : r.recording = false := by simpa using hrecording
      have hcard : r.sdMounted = true := by simpa using hmounted
      have hcontainer := h.container
      unfold ContainerOk at hcontainer
      rw [hmutex] at hcontainer
      rw [if_neg hrecording] at hcontainer
      refine ⟨h.count, ⟨hidle, hcontainer⟩, fun other hother => ?_, fun hunmounted => ?_⟩
      · have hnone := hok hidle hcard
        change (update r.threads thread .locked other).leaving = true at hother
        by_cases heq : other = thread
        · rw [heq, update_self] at hother
          cases hother
        · rw [update_of_ne heq, hnone other] at hother
          cases hother
      · exact absurd (hcard.symm.trans hunmounted) (by decide)

/-- A look that finds no recording, while no start is under way, finds no container. -/
theorem quiet_of_not_recording (hrecording : r.recording = false) (hstarting : r.starting = false) :
    Quiet r card := by
  refine ⟨?_, hstarting⟩
  have hcontainer := h.container
  unfold ContainerOk at hcontainer
  unfold Recorder.starting at hstarting
  cases hmutex : r.mutex with
  | none =>
    rw [hmutex] at hcontainer
    rwa [if_neg (by rw [hrecording]; exact Bool.false_ne_true)] at hcontainer
  | some critical =>
    rw [hmutex] at hcontainer hstarting
    cases critical with
    | startOpen thread => exact hcontainer.2
    | startFinish thread => cases hstarting
    | stopFinish thread deinit => exact hcontainer
    | stopClose thread deinit | saveMounted thread | saveCommit thread =>
      exact absurd (hcontainer.1.symm.trans hrecording) (by decide)

theorem deinit_ok (hok : ActOk r (.deinit thread)) :
    RecordOk (uvcSdRecordDeinit r thread) card := by
  refine h.at fun hleaving => ?_
  cases hrecording : r.recording with
  | true =>
    rw [hrecording] at hleaving
    cases hleaving
  | false => exact quiet_of_not_recording h hrecording (hok hrecording)

theorem save_frame_ok (mediaType : MediaType) :
    RecordOk (uvcSdRecordSaveFrame r thread mediaType) card := by
  unfold uvcSdRecordSaveFrame
  split
  · exact h
  · split
    · exact h
    · exact h.at fun hleaving => by cases hleaving

/-- A thread without the mutex unmounts only a card without an open container. -/
theorem go_on_ok (hstep : goOn r thread = some r') :
    ∃ card', exec cardStep card (recordEvent r (.goesOn thread) r') = some card' ∧
      RecordOk r' card' := by
  show ∃ card', exec cardStep card
    (match r.threads thread with | .unmount => [.unmounted] | _ => []) = some card' ∧ _
  unfold goOn at hstep
  generalize hplace : r.threads thread = place at hstep ⊢
  cases place with
  | outside | locked =>
    cases hstep
  | stopWaits =>
    dsimp only at hstep
    split at hstep
    · rename_i hmutex
      cases hstep
      exact ⟨card, rfl, stop_begin_ok h hmutex true⟩
    · cases hstep
  | saveWaits =>
    dsimp only at hstep
    split at hstep
    · rename_i hmutex
      refine ⟨card, rfl, ?_⟩
      have hcontainer := h.container
      unfold ContainerOk at hcontainer
      rw [hmutex] at hcontainer
      split at hstep
      · rename_i hrecording
        cases hstep
        rw [if_pos hrecording] at hcontainer
        exact h.lock rfl ⟨hrecording, hcontainer⟩
      · cases hstep
        exact h.at fun hleaving => by cases hleaving
    · cases hstep
  | unmountCheck =>
    cases hstep
    exact ⟨card, rfl, h.at fun _ => h.leaving thread (by rw [hplace]; rfl)⟩
  | unmount =>
    cases hstep
    have hquiet := h.leaving thread (by rw [hplace]; rfl)
    refine ⟨card, ?_, h.at fun _ => hquiet⟩
    exact exec_cons_eq_some.mpr ⟨card, if_pos hquiet.1, rfl⟩
  | unmounted =>
    cases hstep
    have hquiet := h.leaving thread (by rw [hplace]; rfl)
    have hcleared : RecordOk { r with sdMounted := false } card :=
      ⟨h.count, h.container, h.leaving, fun _ => hquiet⟩
    exact ⟨card, rfl, hcleared.at fun hleaving => by cases hleaving⟩

end

theorem starting_eq (hmutex : r.mutex = some critical) : r.starting = critical.starting := by
  unfold Recorder.starting
  rw [hmutex]
  rfl

section

variable (h : RecordOk r card)

include h

theorem RecordOk.at_critical (hmutex : r.mutex = some critical) :
    ContainerOk { r with mutex := some critical } card := by
  rw [← hmutex]
  exact h.container

theorem open_ok (hmutex : r.mutex = some (.startOpen thread))
    (hstep : holderGoOn r answer = some r') :
    ∃ card', exec cardStep card (recordEvent r (.holderGoesOn answer) r') = some card' ∧
      RecordOk r' card' := by
  obtain ⟨hrecording, hnone⟩ : r.recording = false ∧ card.container = none := h.at_critical hmutex
  have hbusy : ¬ Quiet r card := fun hquiet =>
    Bool.false_ne_true (hquiet.2.symm.trans (starting_eq hmutex))
  obtain ⟨hleaving, hmounted⟩ := h.busy hbusy
  unfold holderGoOn at hstep
  rw [hmutex] at hstep
  unfold recordEvent
  rw [hmutex]
  cases answer with
  | ok =>
    cases hstep
    refine ⟨⟨some r.started, card.count + 1⟩, ?_, ?_⟩
    · exact exec_cons_eq_some.mpr ⟨_, if_pos ⟨hnone, h.count.symm⟩, rfl⟩
    · exact RecordOk.of_busy (congrArg (· + 1) h.count) ⟨r.started, rfl, rfl⟩ hleaving hmounted
  | failed handle =>
    cases hstep
    refine ⟨card, rfl, RecordOk.of_quiet h.count ?_ ⟨hnone, rfl⟩⟩
    show if r.recording then _ else card.container = none
    rw [if_neg (by rw [hrecording]; exact Bool.false_ne_true)]
    exact hnone

theorem close_ok {deinit : Bool} (hmutex : r.mutex = some (.stopClose thread deinit))
    (hstep : holderGoOn r answer = some r') :
    ∃ card', exec cardStep card (recordEvent r (.holderGoesOn answer) r') = some card' ∧
      RecordOk r' card' := by
  obtain ⟨-, c, hcontainer, hhandle⟩ : r.recording = true ∧ Held r card := h.at_critical hmutex
  have hevent : recordEvent r (.holderGoesOn answer) r' = [.closed c] := by
    unfold recordEvent
    rw [hmutex, hhandle]
    rfl
  unfold holderGoOn at hstep
  rw [hmutex] at hstep
  cases hstep
  refine ⟨{ card with container := none }, ?_, RecordOk.of_quiet h.count rfl ⟨rfl, rfl⟩⟩
  rw [hevent]
  exact exec_cons_eq_some.mpr ⟨_, if_pos hcontainer, rfl⟩

/-- `write_frame` writes to the container of the handle. -/
theorem commit_ok (hmutex : r.mutex = some (.saveCommit thread))
    (hok : ActOk r (.holderGoesOn answer)) (hstep : holderGoOn r answer = some r') :
    ∃ card', exec cardStep card (recordEvent r (.holderGoesOn answer) r') = some card' ∧
      RecordOk r' card' := by
  obtain ⟨hrecording, hheld⟩ : r.recording = true ∧ Held r card := h.at_critical hmutex
  obtain ⟨hleaving, hmounted⟩ := h.busy hheld.not_quiet
  obtain ⟨c, hcontainer, hhandle⟩ := hheld
  have hunlock : RecordOk (r.unlock thread .outside) card := by
    refine RecordOk.of_busy h.count ?_ (not_leaving_update hleaving rfl) hmounted
    show if r.recording then Held r card else _
    rw [if_pos hrecording]
    exact ⟨c, hcontainer, hhandle⟩
  have hevent : recordEvent r (.holderGoesOn answer) r' =
      if r.stopping then [] else [.written c] := by
    unfold recordEvent
    rw [hmutex, hhandle]
    rfl
  have hwrite : exec cardStep card (if r.stopping then [] else [.written c]) = some card := by
    split
    · rfl
    · exact exec_cons_eq_some.mpr ⟨card, if_pos hcontainer, rfl⟩
  refine ⟨card, hevent ▸ hwrite, ?_⟩
  unfold holderGoOn at hstep
  rw [hmutex] at hstep
  dsimp only at hstep
  split at hstep
  · cases hstep
    exact hunlock
  · cases answer with
    | ok =>
      cases hstep
      exact hunlock
    | failed handle => exact absurd hmutex (hok thread)

/-- The thread with the mutex opens, writes and closes the container of the handle. -/
theorem holder_ok (hok : ActOk r (.holderGoesOn answer)) (hstep : holderGoOn r answer = some r') :
    ∃ card', exec cardStep card (recordEvent r (.holderGoesOn answer) r') = some card' ∧
      RecordOk r' card' := by
  cases hmutex : r.mutex with
  | none =>
    unfold holderGoOn at hstep
    rw [hmutex] at hstep
    cases hstep
  | some critical =>
    have hcontainer := h.at_critical hmutex
    cases critical with
    | startOpen thread => exact open_ok h hmutex hstep
    | stopClose thread deinit => exact close_ok h hmutex hstep
    | saveCommit thread => exact commit_ok h hmutex hok hstep
    | startFinish thread =>
      have hheld : Held r card := hcontainer
      obtain ⟨hleaving, hmounted⟩ := h.busy hheld.not_quiet
      unfold holderGoOn at hstep
      rw [hmutex] at hstep
      cases hstep
      refine ⟨card, ?_, RecordOk.of_busy h.count hheld (not_leaving_update hleaving rfl) hmounted⟩
      unfold recordEvent
      rw [hmutex]
      rfl
    | stopFinish thread deinit =>
      unfold holderGoOn at hstep
      rw [hmutex] at hstep
      cases hstep
      refine ⟨card, ?_, RecordOk.of_quiet h.count hcontainer ⟨hcontainer, rfl⟩⟩
      unfold recordEvent
      rw [hmutex]
      rfl
    | saveMounted thread =>
      obtain ⟨hrecording, hheld⟩ : r.recording = true ∧ Held r card := hcontainer
      obtain ⟨hleaving, hmounted⟩ := h.busy hheld.not_quiet
      unfold holderGoOn at hstep
      rw [hmutex] at hstep
      cases hstep
      refine ⟨card, ?_, RecordOk.of_busy h.count ⟨?_, hheld⟩ hleaving hmounted⟩
      · unfold recordEvent
        rw [hmutex]
        rfl
      · show (if r.sdMounted = false ∧ r.recording then false else r.recording) = true
        rw [if_neg (by rw [hmounted]; exact fun hremoved => Bool.false_ne_true hremoved.1.symm)]
        exact hrecording

/-! ## Runs -/

theorem record_step_ok (hok : ActOk r act) (hstep : recordStep r act = some r') :
    ∃ card', exec cardStep card (recordEvent r act r') = some card' ∧ RecordOk r' card' := by
  cases act with
  | start thread =>
    obtain ⟨⟨-, hmutex⟩, hstep'⟩ := ite_none_right_eq_some.mp hstep
    cases hstep'
    exact ⟨card, rfl, start_ok h hmutex hok⟩
  | stop thread =>
    obtain ⟨⟨-, hmutex⟩, hstep'⟩ := ite_none_right_eq_some.mp hstep
    cases hstep'
    exact ⟨card, rfl, stop_begin_ok h hmutex false⟩
  | deinit thread =>
    obtain ⟨-, hstep'⟩ := ite_none_right_eq_some.mp hstep
    cases hstep'
    exact ⟨card, rfl, deinit_ok h hok⟩
  | saveFrame thread mediaType =>
    obtain ⟨-, hstep'⟩ := ite_none_right_eq_some.mp hstep
    cases hstep'
    exact ⟨card, rfl, save_frame_ok h mediaType⟩
  | goesOn thread => exact go_on_ok h hstep
  | holderGoesOn answer => exact holder_ok h hok hstep

end

/-- Without failing writes, and without a start at the end of `uvc_sd_record_deinit`, what happens
to the card is in order. -/
theorem recording_in_order {mounted : Bool} {acts : List Act} {r : Recorder}
    (hok : AllSteps recordStep ActOk (sdRecordInit mounted) acts)
    (hrun : exec recordStep (sdRecordInit mounted) acts = some r) :
    ∃ card, exec cardStep ⟨none, 0⟩ (trace recordStep recordEvent (sdRecordInit mounted) acts) =
      some card := by
  have hinit : RecordOk (sdRecordInit mounted) ⟨none, 0⟩ := RecordOk.of_quiet rfl rfl ⟨rfl, rfl⟩
  obtain ⟨card, hcard, -⟩ := exec_simulation_under (C := ActOk) (R := RecordOk)
    (fun _ _ _ _ h hok hstep => record_step_ok h hok hstep) hinit hok hrun
  exact ⟨card, hcard⟩

/-- A recording of one frame, with a stop at its end. -/
def oneFrame : List Act :=
  [.start 0, .holderGoesOn .ok, .holderGoesOn .ok, .saveFrame 1 .h264, .goesOn 1,
    .holderGoesOn .ok, .holderGoesOn .ok, .stop 0, .holderGoesOn .ok, .holderGoesOn .ok]

theorem recording_in_order_one_frame :
    ∃ card, exec cardStep ⟨none, 0⟩ [.opened 0, .written 0, .closed 0] = some card := by
  have hok : AllSteps recordStep ActOk (sdRecordInit true) oneFrame := by
    refine cons (fun _ _ _ => rfl) rfl ?_
    refine cons trivial rfl (cons trivial rfl (cons trivial rfl ?_))
    refine cons trivial rfl (cons trivial rfl (cons trivial rfl ?_))
    exact cons trivial rfl (cons trivial rfl (cons trivial rfl trivial))
  exact recording_in_order hok rfl

/-- A write fails, the stream is stopped, and the next start opens a second container. -/
def failingWrite : List Act :=
  [.start 0, .holderGoesOn .ok, .holderGoesOn .ok, .saveFrame 1 .h264, .goesOn 1,
    .holderGoesOn .ok, .holderGoesOn (.failed none), .stop 0, .start 0, .holderGoesOn .ok]

theorem container_left_open :
    ∃ r, exec recordStep (sdRecordInit true) failingWrite = some r ∧
      trace recordStep recordEvent (sdRecordInit true) failingWrite =
        [.opened 0, .written 0, .opened 1] ∧
      exec cardStep ⟨none, 0⟩
        (trace recordStep recordEvent (sdRecordInit true) failingWrite) = none :=
  ⟨_, rfl, rfl, rfl⟩

end FullhanRtos.SdRecord
