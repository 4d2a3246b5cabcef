import FullhanRtos.Lib.Transition
import Mathlib.Logic.Function.Basic

/-!
# The YUV buffers of a stream

`getVPUStreamToUVCList` puts captured frames into two buffers and `getVPUStreamToUVC` sends them,
both under the format mutex. `stream_probe_change` clears the flags of the buffers without the mutex
and leaves the two indices as they are. `frames_in_order` says that the frames are sent in order,
and none from before a format change, when the changes come between the critical sections and find
the indices equal.

Frames are numbered as they are captured; the pixels are left out. A step is an access to the flags
of one buffer.
-/

namespace FullhanRtos.YuvBuffers

open Transition Function List Option Nat

/-! ## The device -/

/-- The formats; the first three are those of the buffers. -/
inductive Fcc where
  | ir
  | nv12
  | yuy2
  | mjpeg
  | h264
  | h265
  | unknown
  deriving DecidableEq

/-- The cases of `uvcGetStreamToList` and `uvcGetStreamToKernel` that use the buffers. -/
def Fcc.buffered : Fcc → Bool
  | .ir | .nv12 | .yuy2 => true
  | _ => false

def uvcYuvBufNum : Nat := 2

structure YuvBuf where
  isLock : Bool
  isFull : Bool
  frame : Nat

/-- Where the thread is that holds `mutex_fmt`: the producer with a frame in round `i` of its loop,
in front of `is_full = 1` and behind it; the consumer in round `i` of its loop, in front of
`fh_uvc_stream_enqueue` and behind it. -/
inductive Section where
  | searching (frame i : Nat)
  | filling (frame : Nat)
  | filled
  | looking (i : Nat)
  | sending
  | sent
  deriving DecidableEq

/-- `struct uvc_dev_app`, with the number of frames captured so far. `changing` is the next store of
`stream_probe_change` while it runs. -/
structure UvcDevApp where
  fcc : Fcc
  yuvBuf : Nat → YuvBuf
  wIndex : Nat
  rIndex : Nat
  mutexFmt : Option Section
  changing : Option Nat
  captured : Nat

def initDevInfo (fcc : Fcc) : UvcDevApp where
  fcc := fcc
  yuvBuf := fun _ => ⟨false, false, 0⟩
  wIndex := 0
  rIndex := 0
  mutexFmt := none
  changing := none
  captured := 0

/-- The producer and the consumer lock the mutex, the thread with the mutex goes on, a format change
begins, and it goes on. `captured` is whether `lock_vpu_stream` gives a frame. -/
inductive Act where
  | produce (captured : Bool)
  | consume
  | holderGoesOn
  | change (fcc : Fcc)
  | changeGoesOn

/-! ## Steps -/

/-- The index is increased and starts again behind the last buffer. -/
def nextIndex (index : Nat) : Nat := if index + 1 = uvcYuvBufNum then 0 else index + 1

def UvcDevApp.setBuf (dev : UvcDevApp) (index : Nat) (buf : YuvBuf) : UvcDevApp :=
  { dev with yuvBuf := update dev.yuvBuf index buf }

/-- The beginning of `uvcGetStreamToList`, to the frame of `lock_vpu_stream`. -/
def uvcGetStreamToList (dev : UvcDevApp) (captured : Bool) : UvcDevApp :=
  if dev.fcc.buffered = true ∧ captured = true then
    { dev with mutexFmt := some (.searching dev.captured 0), captured := dev.captured + 1 }
  else dev

/-- The beginning of `uvcGetStreamToKernel`. -/
def uvcGetStreamToKernel (dev : UvcDevApp) : UvcDevApp :=
  if dev.fcc.buffered then { dev with mutexFmt := some (.looking 0) } else dev

/-- One round of the loop of `getVPUStreamToUVCList`; behind the last one the mutex is unlocked. -/
def search (dev : UvcDevApp) (frame i : Nat) : UvcDevApp :=
  let buf := dev.yuvBuf dev.wIndex
  if buf.isLock = false ∧ buf.isFull = false then
    { dev.setBuf dev.wIndex { buf with isLock := true } with mutexFmt := some (.filling frame) }
  else
    { dev with
      wIndex := nextIndex dev.wIndex
      mutexFmt := if i + 1 < uvcYuvBufNum then some (.searching frame (i + 1)) else none }

/-- One round of the loop of `getVPUStreamToUVC`. -/
def look (dev : UvcDevApp) (i : Nat) : UvcDevApp :=
  let buf := dev.yuvBuf dev.rIndex
  if buf.isLock = false ∧ buf.isFull = true then
    { dev.setBuf dev.rIndex { buf with isLock := true } with mutexFmt := some .sending }
  else { dev with mutexFmt := if i + 1 < uvcYuvBufNum then some (.looking (i + 1)) else none }

/-- The thread with the mutex goes on. -/
def holderGoOn (dev : UvcDevApp) : Section → UvcDevApp
  | .searching frame i => search dev frame i
  | .filling frame =>
    { dev.setBuf dev.wIndex { dev.yuvBuf dev.wIndex with isFull := true, frame } with
      mutexFmt := some .filled }
  | .filled =>
    { dev.setBuf dev.wIndex { dev.yuvBuf dev.wIndex with isLock := false } with
      wIndex := nextIndex dev.wIndex
      mutexFmt := none }
  | .looking i => look dev i
  | .sending => { dev with mutexFmt := some .sent }
  | .sent =>
    { dev.setBuf dev.rIndex
        { dev.yuvBuf dev.rIndex with isFull := false, isLock := false } with
      rIndex := nextIndex dev.rIndex
      mutexFmt := none }

/-- The stores of `stream_probe_change`: `is_full` and `is_lock` of each buffer. -/
def changeStore (dev : UvcDevApp) (k : Nat) : UvcDevApp :=
  let buf := dev.yuvBuf (k / 2)
  if k < 2 * uvcYuvBufNum then
    { dev.setBuf (k / 2)
        (if k % 2 = 0 then { buf with isFull := false } else { buf with isLock := false }) with
      changing := some (k + 1) }
  else { dev with changing := none }

def streamStep (dev : UvcDevApp) : Act → Option UvcDevApp
  | .produce captured =>
    if dev.mutexFmt = none then some (uvcGetStreamToList dev captured) else none
  | .consume => if dev.mutexFmt = none then some (uvcGetStreamToKernel dev) else none
  | .holderGoesOn => dev.mutexFmt.map (holderGoOn dev)
  | .change fcc =>
    if dev.changing = none then some { dev with fcc := fcc, changing := some 0 } else none
  | .changeGoesOn => dev.changing.map (changeStore dev)

/-! ## The frames -/

inductive FrameEvent where
  | captured (frame : Nat)
  | changeBegins
  | changeEnds
  | sent (frame : Nat)
  deriving DecidableEq

/-- The number of frames captured so far, in all and when the last format change began, and the
first frame that may be sent. -/
structure FrameLine where
  captured : Nat
  changed : Nat
  floor : Nat
  deriving DecidableEq

/-- Frames are sent in the order in which they were captured, at most once, and not behind a format
change that began behind their capture. -/
def frameStep (line : FrameLine) : FrameEvent → Option FrameLine
  | .captured frame =>
    if frame = line.captured then some { line with captured := frame + 1 } else none
  | .changeBegins => some { line with changed := line.captured }
  | .changeEnds => some { line with floor := max line.floor line.changed }
  | .sent frame =>
    if line.floor ≤ frame ∧ frame < line.captured then some { line with floor := frame + 1 }
    else none

def streamEvent (dev : UvcDevApp) (act : Act) (_dev' : UvcDevApp) : List FrameEvent :=
  match act with
  | .produce captured =>
    if dev.fcc.buffered = true ∧ captured = true then [.captured dev.captured] else []
  | .consume => []
  | .holderGoesOn =>
    if dev.mutexFmt = some .sending then [.sent (dev.yuvBuf dev.rIndex).frame] else []
  | .change _ => [.changeBegins]
  | .changeGoesOn => if dev.changing = some (2 * uvcYuvBufNum) then [.changeEnds] else []

/-! ## The condition -/

/-- The condition on a step: a format change does not overlap a critical section, and begins with
equal indices. -/
def ActOk (dev : UvcDevApp) : Act → Prop
  | .produce _ | .consume => dev.changing = none
  | .change _ => dev.mutexFmt = none ∧ dev.wIndex = dev.rIndex
  | _ => True

instance (dev : UvcDevApp) (act : Act) : Decidable (ActOk dev act) :=
  match act with
  | .produce _ | .consume => inferInstanceAs (Decidable (_ = _))
  | .change _ => inferInstanceAs (Decidable (_ ∧ _))
  | .holderGoesOn | .changeGoesOn => .isTrue trivial

/-! ## The invariant -/

/-- The frames that wait in the buffers from `r_index` on, the first one in front. -/
structure Waiting (dev : UvcDevApp) (frames : List Nat) : Prop where
  length : frames.length ≤ 2
  rIndex : dev.rIndex < 2
  isFull : ∀ i < 2, (dev.yuvBuf ((dev.rIndex + i) % 2)).isFull = decide (i < frames.length)
  frame : ∀ i x, frames[i]? = some x → (dev.yuvBuf ((dev.rIndex + i) % 2)).frame = x

/-- The frames are increasing, and may be sent. -/
structure Ordered (line : FrameLine) (frames : List Nat) : Prop where
  increasing : frames.Pairwise (· < ·)
  floor : ∀ x ∈ frames, line.floor ≤ x
  captured : ∀ x ∈ frames, x < line.captured
  floorCaptured : line.floor ≤ line.captured

def LockedOnly (dev : UvcDevApp) (locked : Option Nat) : Prop :=
  ∀ i < 2, (dev.yuvBuf i).isLock = decide (locked = some i)

/-- The write index is behind the frames that wait. -/
def Behind (dev : UvcDevApp) (frames : List Nat) : Prop :=
  dev.wIndex = (dev.rIndex + frames.length) % 2

/-- What holds where the thread with the mutex is. A frame that has been sent is still in its
buffer. -/
def SectionOk (dev : UvcDevApp) (line : FrameLine) (frames : List Nat) : Prop :=
  match dev.mutexFmt with
  | none | some (.looking _) => Behind dev frames ∧ LockedOnly dev none ∧ Ordered line frames
  | some (.searching frame i) =>
    dev.wIndex = (dev.rIndex + frames.length + i) % 2 ∧ LockedOnly dev none ∧
      Ordered line (frames ++ [frame]) ∧ i < 2 ∧ (0 < i → frames.length = 2)
  | some (.filling frame) =>
    Behind dev frames ∧ LockedOnly dev (some dev.wIndex) ∧ Ordered line (frames ++ [frame]) ∧
      frames.length < 2
  | some .filled =>
    nextIndex dev.wIndex = (dev.rIndex + frames.length) % 2 ∧
      LockedOnly dev (some dev.wIndex) ∧ Ordered line frames
  | some .sending =>
    Behind dev frames ∧ LockedOnly dev (some dev.rIndex) ∧ Ordered line frames ∧ frames ≠ []
  | some .sent =>
    Behind dev frames ∧ LockedOnly dev (some dev.rIndex) ∧ Ordered line frames.tail ∧ frames ≠ []

/-- What holds while a format change is about to do its store `k`. -/
structure ChangeOk (dev : UvcDevApp) (line : FrameLine) (k : Nat) : Prop where
  mutexFmt : dev.mutexFmt = none
  indices : dev.wIndex = dev.rIndex
  rIndex : dev.rIndex < 2
  locks : LockedOnly dev none
  cleared : ∀ i < 2, 2 * i < k → (dev.yuvBuf i).isFull = false
  stores : k ≤ 4
  changed : line.changed = line.captured
  floor : line.floor ≤ line.captured

structure StreamOk (dev : UvcDevApp) (line : FrameLine) : Prop where
  captured : line.captured = dev.captured
  between : dev.changing = none → ∃ frames, Waiting dev frames ∧ SectionOk dev line frames
  changing : ∀ k, dev.changing = some k → ChangeOk dev line k

variable {dev dev' : UvcDevApp} {line : FrameLine} {frames : List Nat} {frame i k : Nat}
  {act : Act} {buf : YuvBuf} {sec : Section} {fcc : Fcc}

/-! ## Buffers -/

theorem next_index_eq (h : i < 2) : nextIndex i = (i + 1) % 2 := by
  unfold nextIndex uvcYuvBufNum
  split <;> omega

theorem set_buf_self : (dev.setBuf i buf).yuvBuf i = buf := update_self _ _ _

theorem set_buf_ne {j : Nat} (h : j ≠ i) : (dev.setBuf i buf).yuvBuf j = dev.yuvBuf j :=
  update_of_ne h _ _

/-- The slots of different places in the line are different. -/
theorem slot_ne {r j : Nat} (hi : i < 2) (hj : j < 2) (h : i ≠ j) : (r + i) % 2 ≠ (r + j) % 2 := by
  omega

theorem LockedOnly.lock (h : LockedOnly dev none) (hbuf : buf.isLock = true) :
    LockedOnly (dev.setBuf i buf) (some i) := by
  intro j hj
  by_cases heq : j = i
  · rw [heq, set_buf_self, hbuf]
    exact (decide_eq_true rfl).symm
  · rw [set_buf_ne heq, h j hj]
    have hne : ¬ some i = some j := fun hsame => heq (some.inj hsame).symm
    rw [decide_eq_false hne]
    rfl

theorem LockedOnly.change (h : LockedOnly dev (some i)) {locked : Option Nat}
    (hi : buf.isLock = decide (locked = some i))
    (hother : ∀ j, j ≠ i → locked ≠ some j) : LockedOnly (dev.setBuf i buf) locked := by
  intro j hj
  by_cases heq : j = i
  · rw [heq, set_buf_self, hi]
  · rw [set_buf_ne heq, h j hj]
    have hne : ¬ some i = some j := fun hsame => heq (some.inj hsame).symm
    rw [decide_eq_false hne, decide_eq_false (hother j heq)]

theorem Waiting.congr (h : Waiting dev frames) (hr : dev'.rIndex = dev.rIndex)
    (hbuf : ∀ j < 2, (dev'.yuvBuf j).isFull = (dev.yuvBuf j).isFull ∧
      (dev'.yuvBuf j).frame = (dev.yuvBuf j).frame) : Waiting dev' frames := by
  have hslot : ∀ i, (dev'.rIndex + i) % 2 < 2 := fun i => mod_lt _ (by decide)
  refine ⟨h.length, hr ▸ h.rIndex, fun i hi => ?_, fun i x hx => ?_⟩
  · rw [(hbuf _ (hslot i)).1, hr]
    exact h.isFull i hi
  · rw [(hbuf _ (hslot i)).2, hr]
    exact h.frame i x hx

theorem Waiting.set_lock (h : Waiting dev frames) (hr : dev'.rIndex = dev.rIndex)
    (hbuf : dev'.yuvBuf = update dev.yuvBuf i buf)
    (hfull : buf.isFull = (dev.yuvBuf i).isFull) (hframe : buf.frame = (dev.yuvBuf i).frame) :
    Waiting dev' frames := by
  refine h.congr hr fun j _ => ?_
  rw [hbuf]
  by_cases heq : j = i
  · rw [heq, update_self]
    exact ⟨hfull, hframe⟩
  · rw [update_of_ne heq]
    exact ⟨rfl, rfl⟩

theorem Waiting.push (h : Waiting dev frames) (hroom : frames.length < 2)
    (hi : i = (dev.rIndex + frames.length) % 2) (hfull : buf.isFull = true)
    (hframe : buf.frame = frame) : Waiting (dev.setBuf i buf) (frames ++ [frame]) := by
  have hlen : (frames ++ [frame]).length = frames.length + 1 := length_append
  refine ⟨by omega, h.rIndex, fun j hj => ?_, fun j x hx => ?_⟩
  · show ((dev.setBuf i buf).yuvBuf ((dev.rIndex + j) % 2)).isFull = _
    rw [hlen]
    by_cases heq : j = frames.length
    · rw [heq, ← hi, set_buf_self, hfull]
      exact (decide_eq_true (lt_succ_self _)).symm
    · have hne : (dev.rIndex + j) % 2 ≠ i := hi ▸ slot_ne hj hroom heq
      rw [set_buf_ne hne, h.isFull j hj]
      exact decide_eq_decide.mpr (by omega)
  · show ((dev.setBuf i buf).yuvBuf ((dev.rIndex + j) % 2)).frame = x
    rcases Nat.lt_or_ge j frames.length with hless | hge
    · have hne : (dev.rIndex + j) % 2 ≠ i := hi ▸ slot_ne (by omega) hroom (by omega)
      rw [getElem?_append_left hless] at hx
      rw [set_buf_ne hne]
      exact h.frame j x hx
    · rw [getElem?_append_right hge, getElem?_singleton] at hx
      split at hx
      · have heq : j = frames.length := by omega
        rw [heq, ← hi, set_buf_self, hframe]
        exact some.inj hx
      · cases hx

theorem Waiting.pop (h : Waiting dev (frame :: frames)) (hfull : buf.isFull = false) :
    Waiting { dev.setBuf dev.rIndex buf with rIndex := nextIndex dev.rIndex } frames := by
  have hr := h.rIndex
  have hlen := h.length
  rw [length_cons] at hlen
  have hnext : nextIndex dev.rIndex = (dev.rIndex + 1) % 2 := next_index_eq hr
  refine ⟨by omega, ?_, fun j hj => ?_, fun j x hx => ?_⟩
  · show nextIndex dev.rIndex < 2
    omega
  · show ((dev.setBuf dev.rIndex buf).yuvBuf ((nextIndex dev.rIndex + j) % 2)).isFull = _
    by_cases heq : j = 0
    · have hslot : (nextIndex dev.rIndex + j) % 2 = (dev.rIndex + 1) % 2 := by omega
      have hne : (dev.rIndex + 1) % 2 ≠ dev.rIndex := by omega
      rw [hslot, set_buf_ne hne, h.isFull 1 (by decide), heq, length_cons]
      exact decide_eq_decide.mpr (by omega)
    · have hslot : (nextIndex dev.rIndex + j) % 2 = dev.rIndex := by omega
      rw [hslot, set_buf_self, hfull]
      exact (decide_eq_false (by omega)).symm
  · have hj := (List.getElem?_eq_some_iff.mp hx).1
    show ((dev.setBuf dev.rIndex buf).yuvBuf ((nextIndex dev.rIndex + j) % 2)).frame = x
    have hslot : (nextIndex dev.rIndex + j) % 2 = (dev.rIndex + (j + 1)) % 2 := by omega
    have hne : (dev.rIndex + (j + 1)) % 2 ≠ dev.rIndex := by omega
    rw [hslot, set_buf_ne hne]
    exact h.frame (j + 1) x (by rwa [getElem?_cons_succ])

theorem Waiting.next_free (h : Waiting dev frames) (hroom : frames.length < 2) :
    (dev.yuvBuf ((dev.rIndex + frames.length) % 2)).isFull = false := by
  rw [h.isFull _ hroom]
  exact decide_eq_false (Nat.lt_irrefl _)

theorem Waiting.first (h : Waiting dev frames) :
    (dev.yuvBuf dev.rIndex).isFull = decide (0 < frames.length) := by
  have hr := h.rIndex
  have hfirst := h.isFull 0 (by decide)
  rwa [Nat.add_zero, mod_eq_of_lt hr] at hfirst

/-! ## The order of the frames -/

theorem Ordered.capture (h : Ordered line frames) :
    Ordered { line with captured := line.captured + 1 } (frames ++ [line.captured]) := by
  refine ⟨?_, fun x hx => ?_, fun x hx => ?_, Nat.le_trans h.floorCaptured (le_succ _)⟩
  · refine pairwise_append.mpr ⟨h.increasing, pairwise_singleton _ _, ?_⟩
    intro x hx y hy
    rw [mem_singleton.mp hy]
    exact h.captured x hx
  · rcases mem_append.mp hx with hold | hnew
    · exact h.floor x hold
    · rw [mem_singleton.mp hnew]
      exact h.floorCaptured
  · rcases mem_append.mp hx with hold | hnew
    · exact lt_succ_of_lt (h.captured x hold)
    · rw [mem_singleton.mp hnew]
      exact lt_succ_self _

/-- A frame for which there is no buffer is dropped. -/
theorem Ordered.drop (h : Ordered line (frames ++ [frame])) : Ordered line frames :=
  ⟨(pairwise_append.mp h.increasing).1,
    fun x hx => h.floor x (mem_append_left _ hx),
    fun x hx => h.captured x (mem_append_left _ hx), h.floorCaptured⟩

theorem Ordered.send (h : Ordered line (frame :: frames)) :
    exec frameStep line [.sent frame] = some { line with floor := frame + 1 } ∧
      Ordered { line with floor := frame + 1 } frames := by
  have hfloor := h.floor frame mem_cons_self
  have hcaptured := h.captured frame mem_cons_self
  obtain ⟨hfirst, hrest⟩ := pairwise_cons.mp h.increasing
  refine ⟨?_, hrest, hfirst, fun x hx => h.captured x (mem_cons_of_mem _ hx), hcaptured⟩
  exact exec_cons_eq_some.mpr ⟨_, if_pos ⟨hfloor, hcaptured⟩, rfl⟩

theorem Ordered.nil (h : line.floor ≤ line.captured) : Ordered line [] :=
  ⟨List.Pairwise.nil, nofun, nofun, h⟩

/-! ## Steps keep the invariant -/

theorem StreamOk.of_between (hcaptured : line.captured = dev.captured)
    (hchanging : dev.changing = none) (hwaiting : Waiting dev frames)
    (hsection : SectionOk dev line frames) : StreamOk dev line := by
  refine ⟨hcaptured, fun _ => ⟨frames, hwaiting, hsection⟩, fun k hk => ?_⟩
  rw [hchanging] at hk
  cases hk

section

variable (h : StreamOk dev line)

include h

theorem StreamOk.free (hmutex : dev.mutexFmt = none) (hchanging : dev.changing = none) :
    ∃ frames, Waiting dev frames ∧ Behind dev frames ∧ LockedOnly dev none ∧
      Ordered line frames := by
  obtain ⟨frames, hwaiting, hsection⟩ := h.between hchanging
  unfold SectionOk at hsection
  rw [hmutex] at hsection
  exact ⟨frames, hwaiting, hsection⟩

open StreamOk

theorem produce_ok (hmutex : dev.mutexFmt = none) (hchanging : dev.changing = none)
    (captured : Bool) :
    ∃ line', exec frameStep line
        (streamEvent dev (.produce captured) (uvcGetStreamToList dev captured)) = some line' ∧
      StreamOk (uvcGetStreamToList dev captured) line' := by
  unfold uvcGetStreamToList streamEvent
  by_cases htaken : dev.fcc.buffered = true ∧ captured = true
  · simp only [if_pos htaken]
    obtain ⟨frames, hwaiting, hbehind, hlocks, hordered⟩ := h.free hmutex hchanging
    refine ⟨{ line with captured := line.captured + 1 }, ?_, ?_⟩
    · rw [← h.captured]
      exact exec_cons_eq_some.mpr ⟨_, if_pos rfl, rfl⟩
    · refine of_between (congrArg (· + 1) h.captured) hchanging
        (hwaiting.congr rfl fun _ _ => ⟨rfl, rfl⟩) ⟨hbehind, hlocks, ?_, by decide, ?_⟩
      · rw [← h.captured]
        exact hordered.capture
      · exact fun hpos => absurd hpos (by decide)
  · simp only [if_neg htaken]
    exact ⟨line, rfl, h⟩

theorem consume_ok (hmutex : dev.mutexFmt = none) (hchanging : dev.changing = none) :
    StreamOk (uvcGetStreamToKernel dev) line := by
  unfold uvcGetStreamToKernel
  split
  · obtain ⟨frames, hwaiting, hready⟩ := h.free hmutex hchanging
    exact of_between h.captured hchanging (hwaiting.congr rfl fun _ _ => ⟨rfl, rfl⟩)
      hready
  · exact h

section

variable (hchanging : dev.changing = none)

include hchanging

/-- One round of the producer: it takes the buffer behind the frames, or finds none. -/
theorem search_ok (hmutex : dev.mutexFmt = some (.searching frame i)) :
    StreamOk (search dev frame i) line := by
  obtain ⟨frames, hwaiting, hsection⟩ := h.between hchanging
  unfold SectionOk at hsection
  rw [hmutex] at hsection
  obtain ⟨hindex, hlocks, hordered, hi, hfull⟩ := hsection
  have hlen := hwaiting.length
  have hw : dev.wIndex < 2 := by omega
  have hlock : (dev.yuvBuf dev.wIndex).isLock = false := hlocks _ hw
  unfold search
  by_cases hroom : frames.length < 2
  · have hfirst : i = 0 := by
      by_contra hpos
      omega
    have hbehind : dev.wIndex = (dev.rIndex + frames.length) % 2 := by
      rw [hindex, hfirst, Nat.add_zero]
    have hfree : (dev.yuvBuf dev.wIndex).isFull = false := hbehind ▸ hwaiting.next_free hroom
    rw [if_pos ⟨hlock, hfree⟩]
    exact of_between h.captured hchanging
      (hwaiting.set_lock rfl rfl rfl rfl)
      ⟨hbehind, hlocks.lock rfl, hordered, hroom⟩
  · have htwo : frames.length = 2 := by omega
    have hused : (dev.yuvBuf dev.wIndex).isFull = true := by
      have hslot : dev.wIndex = (dev.rIndex + i) % 2 := by omega
      rw [hslot, hwaiting.isFull i hi, htwo]
      exact decide_eq_true hi
    rw [if_neg (fun hfree => by rw [hused] at hfree; cases hfree.2)]
    refine of_between h.captured hchanging (hwaiting.congr rfl fun _ _ => ⟨rfl, rfl⟩) ?_
    have hnext : nextIndex dev.wIndex = (dev.rIndex + frames.length + (i + 1)) % 2 := by
      rw [next_index_eq hw]
      omega
    by_cases hlast : i + 1 < uvcYuvBufNum
    · rw [if_pos hlast]
      exact ⟨hnext, hlocks, hordered, hlast, fun _ => htwo⟩
    · rw [if_neg hlast]
      have hone : i = 1 := by
        change ¬ i + 1 < 2 at hlast
        omega
      refine ⟨?_, hlocks, hordered.drop⟩
      show nextIndex dev.wIndex = (dev.rIndex + frames.length) % 2
      omega

theorem fill_ok (hmutex : dev.mutexFmt = some (.filling frame)) :
    StreamOk (holderGoOn dev (.filling frame)) line := by
  obtain ⟨frames, hwaiting, hsection⟩ := h.between hchanging
  unfold SectionOk at hsection
  rw [hmutex] at hsection
  obtain ⟨hbehind, hlocks, hordered, hroom⟩ := hsection
  have hw : dev.wIndex < 2 := by
    rw [hbehind]
    exact mod_lt _ (by decide)
  have hlocked : (dev.yuvBuf dev.wIndex).isLock = true := by
    rw [hlocks _ hw]
    exact decide_eq_true rfl
  refine of_between h.captured hchanging
    ((hwaiting.push hroom hbehind rfl rfl).congr rfl fun _ _ => ⟨rfl, rfl⟩) ⟨?_, ?_, hordered⟩
  · show nextIndex dev.wIndex = (dev.rIndex + (frames ++ [frame]).length) % 2
    have hbehind' : dev.wIndex = (dev.rIndex + frames.length) % 2 := hbehind
    rw [next_index_eq hw, length_append, length_singleton]
    omega
  · exact hlocks.change (hlocked.trans (decide_eq_true rfl).symm)
      fun j hj hsame => hj (some.inj hsame).symm

theorem filled_ok (hmutex : dev.mutexFmt = some .filled) :
    StreamOk (holderGoOn dev .filled) line := by
  obtain ⟨frames, hwaiting, hsection⟩ := h.between hchanging
  unfold SectionOk at hsection
  rw [hmutex] at hsection
  obtain ⟨hnext, hlocks, hordered⟩ := hsection
  exact of_between h.captured hchanging
    (hwaiting.set_lock rfl rfl rfl rfl)
    ⟨hnext, hlocks.change (decide_eq_false nofun).symm (fun _ _ => nofun), hordered⟩

/-- One round of the consumer: it takes the first frame, or finds none. -/
theorem look_ok (hmutex : dev.mutexFmt = some (.looking i)) : StreamOk (look dev i) line := by
  obtain ⟨frames, hwaiting, hsection⟩ := h.between hchanging
  unfold SectionOk at hsection
  rw [hmutex] at hsection
  obtain ⟨hbehind, hlocks, hordered⟩ := hsection
  have hfirst := hwaiting.first
  unfold look
  dsimp only
  split
  · rename_i hfound
    have hsome : frames ≠ [] := by
      rw [hfound.2] at hfirst
      exact length_pos_iff.mp (of_decide_eq_true hfirst.symm)
    exact of_between h.captured hchanging
      (hwaiting.set_lock rfl rfl rfl rfl)
      ⟨hbehind, hlocks.lock rfl, hordered, hsome⟩
  · refine of_between h.captured hchanging (hwaiting.congr rfl fun _ _ => ⟨rfl, rfl⟩) ?_
    by_cases hlast : i + 1 < uvcYuvBufNum
    · rw [if_pos hlast]
      exact ⟨hbehind, hlocks, hordered⟩
    · rw [if_neg hlast]
      exact ⟨hbehind, hlocks, hordered⟩

theorem send_ok (hmutex : dev.mutexFmt = some .sending) :
    ∃ line', exec frameStep line [.sent (dev.yuvBuf dev.rIndex).frame] = some line' ∧
      StreamOk (holderGoOn dev .sending) line' := by
  obtain ⟨frames, hwaiting, hsection⟩ := h.between hchanging
  unfold SectionOk at hsection
  rw [hmutex] at hsection
  obtain ⟨hbehind, hlocks, hordered, hsome⟩ := hsection
  cases frames with
  | nil => exact absurd rfl hsome
  | cons x rest =>
    have hframe : (dev.yuvBuf dev.rIndex).frame = x := by
      have hfirst := hwaiting.frame 0 x rfl
      rwa [Nat.add_zero, mod_eq_of_lt hwaiting.rIndex] at hfirst
    obtain ⟨hsent, hrest⟩ := hordered.send
    rw [hframe]
    exact ⟨_, hsent, of_between h.captured hchanging
      (hwaiting.congr rfl fun _ _ => ⟨rfl, rfl⟩) ⟨hbehind, hlocks, hrest, hsome⟩⟩

theorem sent_ok (hmutex : dev.mutexFmt = some .sent) : StreamOk (holderGoOn dev .sent) line := by
  obtain ⟨frames, hwaiting, hsection⟩ := h.between hchanging
  unfold SectionOk at hsection
  rw [hmutex] at hsection
  obtain ⟨hbehind, hlocks, hordered, hsome⟩ := hsection
  cases frames with
  | nil => exact absurd rfl hsome
  | cons x rest =>
    have hr := hwaiting.rIndex
    refine of_between h.captured hchanging
      ((hwaiting.pop rfl).congr rfl fun _ _ => ⟨rfl, rfl⟩) ⟨?_, ?_, hordered⟩
    · show dev.wIndex = (nextIndex dev.rIndex + rest.length) % 2
      have hbehind' : dev.wIndex = (dev.rIndex + (rest.length + 1)) % 2 := hbehind
      rw [next_index_eq hr]
      omega
    · exact hlocks.change (decide_eq_false nofun).symm fun _ _ => nofun

/-- A format change begins between the critical sections. -/
theorem change_ok (hok : ActOk dev (.change fcc)) :
    StreamOk { dev with fcc := fcc, changing := some 0 }
      { line with changed := line.captured } := by
  obtain ⟨hmutex, hindices⟩ := hok
  obtain ⟨frames, hwaiting, -, hlocks, hordered⟩ := h.free hmutex hchanging
  refine ⟨h.captured, (fun hnone => by cases hnone), fun k hk => ?_⟩
  obtain rfl := some.inj hk
  exact ⟨hmutex, hindices, hwaiting.rIndex, hlocks,
    fun _ _ hnone => absurd hnone (Nat.not_lt_zero _), Nat.zero_le _, rfl, hordered.floorCaptured⟩

end

theorem change_store_ok (hchanging : dev.changing = some k) :
    ∃ line', exec frameStep line (if k = 2 * uvcYuvBufNum then [.changeEnds] else []) =
        some line' ∧ StreamOk (changeStore dev k) line' := by
  have hchange := h.changing k hchanging
  have hstores := hchange.stores
  unfold changeStore
  by_cases hlast : k < 2 * uvcYuvBufNum
  · rw [if_pos hlast, if_neg (Nat.ne_of_lt hlast)]
    refine ⟨line, rfl, h.captured, (fun hnone => by cases hnone), fun k' hk' => ?_⟩
    obtain rfl := some.inj hk'
    refine ⟨hchange.mutexFmt, hchange.indices, hchange.rIndex, fun j hj => ?_, fun j hj hless => ?_,
      hlast, hchange.changed, hchange.floor⟩
    · show ((dev.setBuf (k / 2) _).yuvBuf j).isLock = false
      have hlock := hchange.locks j hj
      by_cases heq : j = k / 2
      · rw [heq, set_buf_self]
        rw [heq] at hlock
        split
        · exact hlock
        · rfl
      · rw [set_buf_ne heq]
        exact hlock
    · show ((dev.setBuf (k / 2) _).yuvBuf j).isFull = false
      by_cases heq : j = k / 2
      · rw [heq, set_buf_self]
        split
        · rfl
        · exact hchange.cleared (k / 2) (heq ▸ hj) (by omega)
      · rw [set_buf_ne heq]
        exact hchange.cleared j hj (by omega)
  · have hend : k = 2 * uvcYuvBufNum := Nat.le_antisymm hstores (Nat.le_of_not_lt hlast)
    rw [if_neg hlast, if_pos hend]
    have hfloor : max line.floor line.changed = line.captured := by
      rw [hchange.changed, Nat.max_eq_right hchange.floor]
    refine ⟨{ line with floor := line.captured }, ?_, ?_⟩
    · show some { line with floor := max line.floor line.changed } = _
      rw [hfloor]
    · have hempty : Waiting { dev with changing := none } [] := by
        refine ⟨Nat.zero_le _, hchange.rIndex, fun i hi => ?_, fun i x hx => by cases hx⟩
        have hslot : (dev.rIndex + i) % 2 < 2 := mod_lt _ (by decide)
        exact hchange.cleared _ hslot (by rw [hend]; show _ < 4; omega)
      refine of_between h.captured rfl hempty ?_
      rw [show ({ dev with changing := none } : UvcDevApp).mutexFmt = none from hchange.mutexFmt]
      refine ⟨?_, hchange.locks, Ordered.nil (Nat.le_refl _)⟩
      show dev.wIndex = (dev.rIndex + 0) % 2
      rw [hchange.indices, Nat.add_zero, mod_eq_of_lt hchange.rIndex]

/-! ## Runs -/

/-- While a thread is in its critical section, no format change is under way. -/
theorem StreamOk.no_change (hmutex : dev.mutexFmt = some sec) : dev.changing = none := by
  cases hchanging : dev.changing with
  | none => rfl
  | some k =>
    have hnone := (h.changing k hchanging).mutexFmt
    rw [hmutex] at hnone
    cases hnone

theorem holder_ok (hmutex : dev.mutexFmt = some sec) :
    ∃ line', exec frameStep line
        (if sec = .sending then [.sent (dev.yuvBuf dev.rIndex).frame] else []) = some line' ∧
      StreamOk (holderGoOn dev sec) line' := by
  have hchanging := h.no_change hmutex
  cases sec with
  | searching frame i => exact ⟨line, rfl, search_ok h hchanging hmutex⟩
  | filling frame => exact ⟨line, rfl, fill_ok h hchanging hmutex⟩
  | filled => exact ⟨line, rfl, filled_ok h hchanging hmutex⟩
  | looking i => exact ⟨line, rfl, look_ok h hchanging hmutex⟩
  | sending => exact send_ok h hchanging hmutex
  | sent => exact ⟨line, rfl, sent_ok h hchanging hmutex⟩

theorem stream_step_ok (hok : ActOk dev act) (hstep : streamStep dev act = some dev') :
    ∃ line', exec frameStep line (streamEvent dev act dev') = some line' ∧ StreamOk dev' line' := by
  cases act with
  | produce captured =>
    obtain ⟨hmutex, hstep'⟩ := ite_none_right_eq_some.mp hstep
    cases hstep'
    exact produce_ok h hmutex hok captured
  | consume =>
    obtain ⟨hmutex, hstep'⟩ := ite_none_right_eq_some.mp hstep
    cases hstep'
    exact ⟨line, rfl, consume_ok h hmutex hok⟩
  | holderGoesOn =>
    obtain ⟨sec, hmutex, hstep'⟩ := map_eq_some_iff.mp hstep
    cases hstep'
    unfold streamEvent
    simp only [hmutex, some.injEq]
    exact holder_ok h hmutex
  | change fcc =>
    obtain ⟨hchanging, hstep'⟩ := ite_none_right_eq_some.mp hstep
    cases hstep'
    exact ⟨_, rfl, change_ok h hchanging hok⟩
  | changeGoesOn =>
    obtain ⟨k, hchanging, hstep'⟩ := map_eq_some_iff.mp hstep
    cases hstep'
    unfold streamEvent
    simp only [hchanging, some.injEq]
    exact change_store_ok h hchanging

end

/-- The frames are sent in the order in which they were captured, each at most once, and none from
before a format change, in runs whose format changes meet the condition. -/
theorem frames_in_order {fcc : Fcc} {acts : List Act}
    (hok : AllSteps streamStep ActOk (initDevInfo fcc) acts)
    (hrun : exec streamStep (initDevInfo fcc) acts = some dev) :
    ∃ line, exec frameStep ⟨0, 0, 0⟩ (trace streamStep streamEvent (initDevInfo fcc) acts) =
      some line := by
  have hempty : Waiting (initDevInfo fcc) [] := by
    exact ⟨Nat.zero_le _, Nat.zero_lt_two, fun i _ => rfl, fun i x hx => by cases hx⟩
  have hinit : StreamOk (initDevInfo fcc) ⟨0, 0, 0⟩ :=
    StreamOk.of_between rfl rfl hempty ⟨rfl, fun _ _ => rfl, Ordered.nil (Nat.le_refl 0)⟩
  obtain ⟨line, hline, -⟩ := exec_simulation_under (C := ActOk) (R := StreamOk)
    (fun _ _ _ _ h hok hstep => stream_step_ok h hok hstep) hinit hok hrun
  exact ⟨line, hline⟩

def captureOne : List Act := [.produce true, .holderGoesOn, .holderGoesOn, .holderGoesOn]

/-- A frame is sent. -/
def sendOne : List Act := [.consume, .holderGoesOn, .holderGoesOn, .holderGoesOn]

def changeFormat : List Act :=
  [.change .nv12, .changeGoesOn, .changeGoesOn, .changeGoesOn, .changeGoesOn, .changeGoesOn]

/-- Two frames are captured, of which none is sent before the format changes, and then another. -/
theorem frames_in_order_changed :
    ∃ line, exec frameStep ⟨0, 0, 0⟩
      [.captured 0, .captured 1, .changeBegins, .changeEnds, .captured 2, .sent 2] = some line := by
  have hrun : ∃ dev, exec streamStep (initDevInfo .yuy2)
      (captureOne ++ captureOne ++ changeFormat ++ captureOne ++ sendOne) = some dev := ⟨_, rfl⟩
  obtain ⟨dev, hdev⟩ := hrun
  exact frames_in_order (by decide) hdev

/-- With one frame in the buffers, the format change leaves the write index at the other buffer: the
second frame behind it is sent before the first one. -/
theorem frames_swapped :
    ∃ dev, exec streamStep (initDevInfo .yuy2)
        (captureOne ++ changeFormat ++ captureOne ++ captureOne ++ sendOne ++ sendOne) = some dev ∧
      trace streamStep streamEvent (initDevInfo .yuy2)
        (captureOne ++ changeFormat ++ captureOne ++ captureOne ++ sendOne ++ sendOne) =
          [.captured 0, .changeBegins, .changeEnds, .captured 1, .captured 2, .sent 2, .sent 1] ∧
      exec frameStep ⟨0, 0, 0⟩ (trace streamStep streamEvent (initDevInfo .yuy2)
        (captureOne ++ changeFormat ++ captureOne ++ captureOne ++ sendOne ++ sendOne)) = none :=
  ⟨_, rfl, rfl, rfl⟩

end FullhanRtos.YuvBuffers
