import FullhanRtos.Lib.ListPair
import FullhanRtos.Uvc.Alt

/-!
# The buffers of a video stream

The lists of `struct uvc_video_buf` in `drivers/usb/device/class/uvc_init.c`, with their links. The
thread in `fh_uvc_stream_enqueue` takes a buffer out of the free list, fills it with interrupts
enabled and links it into the used list. `uvc_video_complete` gives the buffer that was sent back to
the free list and sends the next one. The control path calls `uvc_driver_buf_reinit`, which links
all buffers into the free list again, and sets the packet size.

Interrupts come between the steps of the thread. `buffers_ok` says for which runs every buffer is in
one place.
-/

namespace FullhanRtos.Uvc

open ListPair Transition List Option

/-! ## Data -/

/-- The nodes: the heads of the free list and of the used list, and the buffers. -/
inductive BufNode where
  | listFree
  | listUsed
  | dataBuf (i : Nat)
  deriving DecidableEq

/-- A build and a stream: `UVC_BUF_NUM`, `UVC_BUF_SIZE`, `FH_RT_UVC_EP_TYPE_BULK`,
`UVC_PACKET_SIZE` of a bulk endpoint and the stream. -/
structure VideoConfig where
  bufNum : Nat
  bufSize : Nat
  bulk : Bool
  bulkPacketSize : Nat
  stream : StreamId
  buf_pos : 0 < bufSize

/-- Where the thread is in `fh_uvc_stream_enqueue`: outside, at the condition of the loop, at
`rt_sem_take`, at the second look at the list and the status, before the removal of a buffer, before
`uvc_frame_encode`, and before the buffer is linked. -/
inductive EnqueuePhase where
  | idle
  | loop
  | take
  | check
  | remove
  | encode (frame : BufNode)
  | link (frame : BufNode)
  deriving DecidableEq

/-- The buffer in the hands of the thread. -/
def EnqueuePhase.held : EnqueuePhase → Option BufNode
  | .encode frame => some frame
  | .link frame => some frame
  | _ => none

/-- `struct uvc_video_buf`, with the state of the thread. The buffers are numbered when they are
filled: `fills` is the next number, `filled` has the last number of each buffer, and `sent` has the
numbers of what was given to the endpoint. -/
structure VideoBuf where
  links : Links BufNode
  curBuf : Option BufNode
  packetSize : Nat
  playStatus : Bool
  currentSize : Nat
  imgSize : Nat
  phase : EnqueuePhase
  fills : Nat
  filled : BufNode → Nat
  sent : List Nat

def VideoConfig.buffers (config : VideoConfig) : List BufNode :=
  (List.range config.bufNum).map .dataBuf

/-! ## The functions -/

/-- The packet size that `uvc_driver_buf_reinit` sets. -/
def VideoConfig.packetSize (config : VideoConfig) (altSize : Nat) : Nat :=
  if config.bulk then config.bufSize else reinitPacketSize config.stream altSize

def uvcDriverBufReinit (config : VideoConfig) (altSize : Nat) (buf : VideoBuf) : VideoBuf :=
  { buf with
    links := buf.links.rebuild .listFree .listUsed config.buffers
    curBuf := none
    packetSize := config.packetSize altSize }

/-- Send the first buffer of the used list. -/
def sendNext (buf : VideoBuf) : VideoBuf :=
  let cur := buf.links.next .listUsed
  { buf with
    links := buf.links.remove cur
    curBuf := some cur
    sent := buf.sent ++ [buf.filled cur] }

/-- `uvc_video_complete`, after `size` bytes. A bulk transfer of full packets is ended by an empty
one first. A header without data is sent when there is nothing to send. -/
def uvcVideoComplete (config : VideoConfig) (size : Nat) (buf : VideoBuf) : VideoBuf :=
  match buf.curBuf with
  | some cur =>
    if config.bulk ∧ size % config.bulkPacketSize = 0 ∧ size ≠ 0 then buf
    else
      let buf := { buf with links := buf.links.insertBefore .listFree cur, curBuf := none }
      if buf.links.isEmpty .listUsed then buf else sendNext buf
  | none => if buf.links.isEmpty .listUsed then buf else sendNext buf

/-- A step of the thread in `fh_uvc_stream_enqueue`: `taken` says whether `rt_sem_take` returned
`RT_EOK`, and `moved` is the number of bytes that `uvc_frame_encode` put into the buffer. Its first
divisor is the packet size. -/
def enqueueStep (taken : Bool) (moved : Nat) (buf : VideoBuf) : Option VideoBuf :=
  match buf.phase with
  | .idle => some buf
  | .loop =>
    if buf.currentSize < buf.imgSize ∧ buf.playStatus then some { buf with phase := .take }
    else some { buf with phase := .idle }
  | .take => some { buf with phase := if taken then .check else .idle }
  | .check =>
    if buf.links.isEmpty .listFree = false ∧ buf.playStatus then some { buf with phase := .remove }
    else some { buf with phase := .loop }
  | .remove =>
    let frame := buf.links.next .listFree
    some { buf with links := buf.links.remove frame, phase := .encode frame }
  | .encode frame =>
    if buf.packetSize = 0 then none
    else some { buf with currentSize := buf.currentSize + moved, phase := .link frame }
  | .link frame =>
    some
      { buf with
        links := buf.links.insertBefore .listUsed frame
        filled := Function.update buf.filled frame buf.fills
        fills := buf.fills + 1
        phase := .loop }

/-- What happens to a stream: a call of `fh_uvc_stream_enqueue`, a step of it, an interrupt that
completes a transfer, `uvc_driver_buf_reinit` on the control path, and `fh_uvc_status_set`. -/
inductive VideoEvent where
  | enqueue (imgSize : Nat)
  | thread (taken : Bool) (moved : Nat)
  | complete (size : Nat)
  | reinit (altSize : Nat)
  | status (on : Bool)

/-- One event. A thread that is in `fh_uvc_stream_enqueue` does not call it. -/
def videoStep (config : VideoConfig) (buf : VideoBuf) : VideoEvent → Option VideoBuf
  | .enqueue imgSize =>
    match buf.phase with
    | .idle =>
      if imgSize = 0 then some buf
      else some { buf with currentSize := 0, imgSize, phase := .loop }
    | _ => some buf
  | .thread taken moved => enqueueStep taken moved buf
  | .complete size => some (uvcVideoComplete config size buf)
  | .reinit altSize => some (uvcDriverBufReinit config altSize buf)
  | .status on => some { buf with playStatus := on }

/-- After `uvc_driver_buf_init`, with the packet size that it sets and links of no account. -/
def videoStart (config : VideoConfig) (links : Links BufNode) (packetSize : Nat) : VideoBuf where
  links := links.rebuild .listFree .listUsed config.buffers
  curBuf := none
  packetSize := packetSize
  playStatus := false
  currentSize := 0
  imgSize := 0
  phase := .idle
  fills := 0
  filled := fun _ => 0
  sent := []

/-! ## What holds -/

/-- The buffers that are in no list: the one that is sent and the one in the hands of the thread. -/
def VideoBuf.out (buf : VideoBuf) : List BufNode := buf.curBuf.toList ++ buf.phase.held.toList

/-- Both lists are well formed, every buffer is in exactly one place, and the buffers were sent in
the order they were filled, each at most once. -/
structure VideoOk (config : VideoConfig) (buf : VideoBuf) : Prop where
  lists : ∃ free used, Pair buf.links .listFree .listUsed free used ∧
    ∀ i < config.bufNum, (free ++ (used ++ buf.out)).count (.dataBuf i) = 1
  order : buf.sent.Pairwise (· < ·)

/-- No re-initialisation comes while the thread has a buffer in its hands. One that sets the packet
size 0 comes only when the stream is off and the thread is not about to take a buffer, and the
stream is not turned on before the packet size is set again. -/
def VideoSuits (config : VideoConfig) (buf : VideoBuf) : VideoEvent → Prop
  | .reinit altSize => buf.phase.held = none ∧
      (config.packetSize altSize = 0 → buf.playStatus = false ∧ buf.phase ≠ .remove)
  | .status on => on = true → buf.packetSize ≠ 0
  | _ => True

instance (config : VideoConfig) (buf : VideoBuf) :
    (event : VideoEvent) → Decidable (VideoSuits config buf event)
  | .reinit altSize => inferInstanceAs (Decidable (buf.phase.held = none ∧
      (config.packetSize altSize = 0 → buf.playStatus = false ∧ buf.phase ≠ .remove)))
  | .status on => inferInstanceAs (Decidable (on = true → buf.packetSize ≠ 0))
  | .enqueue _ => .isTrue trivial
  | .thread .. => .isTrue trivial
  | .complete _ => .isTrue trivial

/-! ## The invariant -/

/-- The lists and the numbers. The numbers in the used list go up, and are higher than all numbers
that were sent. -/
structure ListsInv (config : VideoConfig) (buf : VideoBuf) (free used : List BufNode) : Prop where
  shared : Shared buf.links .listFree .listUsed config.buffers free used buf.out
  sorted : (used.map buf.filled).Pairwise (· < ·)
  used_lt : ∀ p ∈ used, buf.filled p < buf.fills
  later : ∀ p ∈ used, ∀ n ∈ buf.sent, n < buf.filled p
  order : buf.sent.Pairwise (· < ·)
  sent_lt : ∀ n ∈ buf.sent, n < buf.fills

/-- While the packet size is 0 the stream is off and the thread does not take a buffer. -/
structure VideoInv (config : VideoConfig) (buf : VideoBuf) : Prop where
  lists : ∃ free used, ListsInv config buf free used ∧ (buf.phase = .remove → free ≠ [])
  status : buf.playStatus = true → buf.packetSize ≠ 0
  encode : buf.phase = .remove ∨ (∃ frame, buf.phase = .encode frame) → buf.packetSize ≠ 0

section

variable {config : VideoConfig} {buf : VideoBuf} {free used : List BufNode} {cur frame : BufNode}

theorem data_buf_members (n : Nat) :
    Members .listFree .listUsed ((List.range n).map BufNode.dataBuf) := by
  have hnot : ∀ p ∈ (List.range n).map BufNode.dataBuf, ∃ i, p = .dataBuf i := by
    intro p hp
    obtain ⟨i, -, rfl⟩ := List.mem_map.mp hp
    exact ⟨i, rfl⟩
  refine ⟨fun h => BufNode.noConfusion h, ?_, fun h => ?_, fun h => ?_⟩
  · exact nodup_range.map fun i j h => BufNode.dataBuf.inj h
  · obtain ⟨i, hi⟩ := hnot _ h
    exact BufNode.noConfusion hi
  · obtain ⟨i, hi⟩ := hnot _ h
    exact BufNode.noConfusion hi

theorem buffers_members (config : VideoConfig) : Members .listFree .listUsed config.buffers :=
  data_buf_members config.bufNum

section

variable (h : ListsInv config buf free used)

include h

theorem ListsInv.video_ok : VideoOk config buf := by
  refine ⟨⟨free, used, h.shared.pair, fun i hi => ?_⟩, h.order⟩
  rw [h.shared.all.count_eq]
  refine count_eq_one_of_mem (buffers_members config).nodup ?_
  exact List.mem_map.mpr ⟨i, mem_range.mpr hi, rfl⟩

theorem ListsInv.send_next (hcur : buf.curBuf = none) (hused : used ≠ []) :
    ∃ used', ListsInv config (sendNext buf) free used' := by
  obtain ⟨p, rest, rfl⟩ := exists_cons_of_ne_nil hused
  have hnext : buf.links.next .listUsed = p := h.shared.pair.symm.next_head
  have hsorted := h.sorted
  rw [map_cons, pairwise_cons] at hsorted
  have hlater : ∀ q ∈ rest, buf.filled p < buf.filled q := fun q hq =>
    hsorted.1 _ (List.mem_map_of_mem hq)
  refine ⟨rest, ?_⟩
  unfold sendNext
  rw [hnext]
  constructor
  case shared =>
    have htake := h.shared.symm.take.symm
    have hout : buf.out = buf.phase.held.toList := by
      rw [VideoBuf.out, hcur]
      rfl
    rw [hout] at htake
    exact htake
  case sorted => exact hsorted.2
  case used_lt => exact fun q hq => h.used_lt q (mem_cons_of_mem _ hq)
  case later =>
    intro q hq n hn
    rcases mem_append.mp hn with hold | hnew
    · exact h.later q (mem_cons_of_mem _ hq) n hold
    · rw [mem_singleton.mp hnew]
      exact hlater q hq
  case order =>
    refine pairwise_append.mpr ⟨h.order, pairwise_singleton _ _, fun n hn m hm => ?_⟩
    rw [mem_singleton.mp hm]
    exact h.later p mem_cons_self n hn
  case sent_lt =>
    intro n hn
    rcases mem_append.mp hn with hold | hnew
    · exact h.sent_lt n hold
    · rw [mem_singleton.mp hnew]
      exact h.used_lt p mem_cons_self

theorem ListsInv.give_back (hcur : buf.curBuf = some cur) :
    ListsInv config { buf with links := buf.links.insertBefore .listFree cur, curBuf := none }
      (free ++ [cur]) used := by
  refine ⟨h.shared.put (buffers_members config) ?_, h.sorted, h.used_lt, h.later, h.order,
    h.sent_lt⟩
  rw [VideoBuf.out, hcur]
  exact Perm.refl _

theorem ListsInv.complete (size : Nat) :
    ∃ free' used', ListsInv config (uvcVideoComplete config size buf) free' used' ∧
      (free ≠ [] → free' ≠ []) := by
  unfold uvcVideoComplete
  cases hcur : buf.curBuf with
  | some cur =>
    dsimp only
    have hback := h.give_back hcur
    have hne : free ++ [cur] ≠ [] := append_ne_nil_of_right_ne_nil _ (cons_ne_nil _ _)
    split
    case isTrue => exact ⟨free, used, h, id⟩
    case isFalse =>
      split
      case isTrue => exact ⟨_, used, hback, fun _ => hne⟩
      case isFalse hmore =>
        rw [hback.shared.pair.symm.is_empty_iff] at hmore
        obtain ⟨used', hsent⟩ := hback.send_next rfl hmore
        exact ⟨_, used', hsent, fun _ => hne⟩
  | none =>
    dsimp only
    split
    case isTrue => exact ⟨free, used, h, id⟩
    case isFalse hmore =>
      rw [h.shared.pair.symm.is_empty_iff] at hmore
      obtain ⟨used', hsent⟩ := h.send_next hcur hmore
      exact ⟨free, used', hsent, id⟩

theorem ListsInv.reinit (hheld : buf.phase.held = none) (altSize : Nat) :
    ListsInv config (uvcDriverBufReinit config altSize buf) config.buffers.reverse [] := by
  constructor
  case shared =>
    have hrebuilt := Shared.rebuild (buffers_members config) buf.links
    have hout : (uvcDriverBufReinit config altSize buf).out = [] := by
      show [] ++ buf.phase.held.toList = []
      rw [hheld]
      rfl
    rw [hout]
    exact hrebuilt
  case sorted => exact List.Pairwise.nil
  case used_lt => exact fun p hp => absurd hp not_mem_nil
  case later => exact fun p hp => absurd hp not_mem_nil
  case order => exact h.order
  case sent_lt => exact h.sent_lt

/-- What is not in the lists and not about a buffer may change. -/
theorem ListsInv.congr {buf' : VideoBuf} (hlinks : buf'.links = buf.links)
    (hcur : buf'.curBuf = buf.curBuf) (hheld : buf'.phase.held = buf.phase.held)
    (hfills : buf'.fills = buf.fills) (hfilled : buf'.filled = buf.filled)
    (hsent : buf'.sent = buf.sent) : ListsInv config buf' free used := by
  have hout : buf'.out = buf.out := by rw [VideoBuf.out, VideoBuf.out, hcur, hheld]
  constructor
  case shared =>
    rw [hlinks, hout]
    exact h.shared
  case sorted =>
    rw [hfilled]
    exact h.sorted
  case used_lt =>
    rw [hfilled, hfills]
    exact h.used_lt
  case later =>
    rw [hfilled, hsent]
    exact h.later
  case order =>
    rw [hsent]
    exact h.order
  case sent_lt =>
    rw [hsent, hfills]
    exact h.sent_lt

theorem ListsInv.take (hphase : buf.phase = .remove) (hfree : free ≠ []) :
    ∃ free', ListsInv config
      { buf with
        links := buf.links.remove (buf.links.next .listFree)
        phase := .encode (buf.links.next .listFree) } free' used := by
  obtain ⟨p, rest, rfl⟩ := exists_cons_of_ne_nil hfree
  have hnext : buf.links.next .listFree = p := h.shared.pair.next_head
  refine ⟨rest, ?_⟩
  rw [hnext]
  refine ⟨?_, h.sorted, h.used_lt, h.later, h.order, h.sent_lt⟩
  refine h.shared.take.perm ?_
  rw [VideoBuf.out, VideoBuf.out, hphase]
  dsimp only [EnqueuePhase.held, toList]
  rw [append_nil]
  exact perm_append_singleton p _

/-- The thread links its buffer, which gets the next number, behind the other ones. -/
theorem ListsInv.link (hphase : buf.phase = .link frame) :
    ListsInv config
      { buf with
        links := buf.links.insertBefore .listUsed frame
        filled := Function.update buf.filled frame buf.fills
        fills := buf.fills + 1
        phase := .loop } free (used ++ [frame]) := by
  have hout : buf.out.Perm (frame :: buf.curBuf.toList) := by
    rw [VideoBuf.out, hphase]
    exact perm_append_singleton frame _
  have hmem : frame ∈ buf.out := hout.symm.subset mem_cons_self
  have hnot : ∀ p ∈ used, p ≠ frame := by
    rintro p hp rfl
    refine h.shared.not_linked (buffers_members config) hmem ?_
    exact mem_append_right _ (mem_cons_of_mem _ hp)
  have hkept : ∀ p ∈ used, Function.update buf.filled frame buf.fills p = buf.filled p :=
    fun p hp => Function.update_of_ne (hnot p hp) _ _
  have hnew : Function.update buf.filled frame buf.fills frame = buf.fills :=
    Function.update_self ..
  constructor
  case shared =>
    refine ((h.shared.symm.put (buffers_members config).symm hout).symm).perm ?_
    dsimp only [VideoBuf.out, EnqueuePhase.held, toList_none]
    rw [append_nil]
  case sorted =>
    dsimp only
    rw [map_append, map_congr_left hkept, map_singleton, hnew]
    refine pairwise_append.mpr ⟨h.sorted, pairwise_singleton _ _, fun n hn m hm => ?_⟩
    obtain ⟨p, hp, rfl⟩ := List.mem_map.mp hn
    rw [mem_singleton.mp hm]
    exact h.used_lt p hp
  case used_lt =>
    intro p hp
    dsimp only
    rcases mem_append.mp hp with hold | hlast
    · rw [hkept p hold]
      exact Nat.lt_succ_of_lt (h.used_lt p hold)
    · rw [mem_singleton.mp hlast, hnew]
      exact Nat.lt_succ_self _
  case later =>
    intro p hp n hn
    dsimp only
    rcases mem_append.mp hp with hold | hlast
    · rw [hkept p hold]
      exact h.later p hold n hn
    · rw [mem_singleton.mp hlast, hnew]
      exact h.sent_lt n hn
  case order => exact h.order
  case sent_lt => exact fun n hn => Nat.lt_succ_of_lt (h.sent_lt n hn)

end

end

/-! ## Steps -/

section

variable {config : VideoConfig} {buf : VideoBuf}

theorem VideoInv.thread (h : VideoInv config buf) (taken : Bool) (moved : Nat) :
    ∃ buf', enqueueStep taken moved buf = some buf' ∧ VideoInv config buf' := by
  obtain ⟨free, used, hlists, hfree⟩ := h.lists
  -- a move of the thread that touches no buffer and is not towards the removal of one
  have hmoved : ∀ phase : EnqueuePhase, phase.held = buf.phase.held → phase ≠ .remove →
      (∀ frame, phase ≠ .encode frame) → ∀ size,
      VideoInv config { buf with phase := phase, currentSize := size } := by
    intro phase hheld hremove hencode size
    refine ⟨⟨free, used, hlists.congr rfl rfl hheld rfl rfl rfl, fun hp => absurd hp hremove⟩,
      h.status, ?_⟩
    rintro (hp | ⟨frame, hp⟩)
    · exact absurd hp hremove
    · exact absurd hp (hencode frame)
  have hheld : ∀ phase, buf.phase = phase → buf.phase.held = phase.held := fun _ hp =>
    congrArg EnqueuePhase.held hp
  unfold enqueueStep
  cases hphase : buf.phase with
  | idle => exact ⟨buf, rfl, h⟩
  | loop =>
    dsimp only
    split
    · exact ⟨_, rfl, hmoved .take (hheld _ hphase).symm nofun nofun _⟩
    · exact ⟨_, rfl, hmoved .idle (hheld _ hphase).symm nofun nofun _⟩
  | take =>
    cases taken with
    | true => exact ⟨_, rfl, hmoved .check (hheld _ hphase).symm nofun nofun _⟩
    | false => exact ⟨_, rfl, hmoved .idle (hheld _ hphase).symm nofun nofun _⟩
  | check =>
    dsimp only
    split
    case isTrue hready =>
      have hne : free ≠ [] := by
        rw [Ne, ← hlists.shared.pair.is_empty_iff, hready.1]
        exact Bool.false_ne_true
      refine ⟨_, rfl, ⟨free, used, ?_, fun _ => hne⟩, h.status, fun _ => h.status hready.2⟩
      exact hlists.congr rfl rfl (hheld _ hphase).symm rfl rfl rfl
    case isFalse => exact ⟨_, rfl, hmoved .loop (hheld _ hphase).symm nofun nofun _⟩
  | remove =>
    obtain ⟨free', htaken⟩ := hlists.take hphase (hfree hphase)
    exact ⟨_, rfl, ⟨free', used, htaken, nofun⟩, h.status, fun _ => h.encode (.inl hphase)⟩
  | encode frame =>
    have hsize : buf.packetSize ≠ 0 := h.encode (.inr ⟨frame, hphase⟩)
    dsimp only
    rw [if_neg hsize]
    exact ⟨_, rfl, hmoved (.link frame) (hheld _ hphase).symm nofun nofun _⟩
  | link frame =>
    refine ⟨_, rfl, ⟨free, used ++ [frame], hlists.link hphase, nofun⟩, h.status, ?_⟩
    rintro (hp | ⟨_, hp⟩) <;> exact EnqueuePhase.noConfusion hp

theorem video_complete_keeps (config : VideoConfig) (size : Nat) (buf : VideoBuf) :
    (uvcVideoComplete config size buf).playStatus = buf.playStatus ∧
      (uvcVideoComplete config size buf).packetSize = buf.packetSize ∧
      (uvcVideoComplete config size buf).phase = buf.phase := by
  unfold uvcVideoComplete
  cases buf.curBuf with
  | some cur =>
    dsimp only
    split
    case isTrue => exact ⟨rfl, rfl, rfl⟩
    case isFalse => split <;> exact ⟨rfl, rfl, rfl⟩
  | none =>
    dsimp only
    split <;> exact ⟨rfl, rfl, rfl⟩

theorem VideoInv.step (h : VideoInv config buf) {event : VideoEvent}
    (hsuits : VideoSuits config buf event) :
    ∃ buf', videoStep config buf event = some buf' ∧ VideoInv config buf' := by
  obtain ⟨free, used, hlists, hfree⟩ := h.lists
  cases event with
  | enqueue imgSize =>
    have hstays : videoStep config buf (.enqueue imgSize) = some buf ∨
        (buf.phase = .idle ∧ videoStep config buf (.enqueue imgSize) =
          some { buf with currentSize := 0, imgSize, phase := .loop }) := by
      unfold videoStep
      cases hphase : buf.phase <;> dsimp only
      case idle =>
        split
        · exact .inl rfl
        · exact .inr ⟨rfl, rfl⟩
      all_goals exact .inl rfl
    rcases hstays with heq | ⟨hphase, heq⟩
    · exact ⟨buf, heq, h⟩
    · refine ⟨_, heq, ⟨free, used, ?_, nofun⟩, h.status, ?_⟩
      · exact hlists.congr rfl rfl (by rw [hphase]; rfl) rfl rfl rfl
      · rintro (hp | ⟨_, hp⟩) <;> exact EnqueuePhase.noConfusion hp
  | thread taken moved => exact h.thread taken moved
  | complete size =>
    obtain ⟨hstatus, hsize, hphase⟩ := video_complete_keeps config size buf
    obtain ⟨free', used', hcomplete, hne⟩ := hlists.complete size
    refine ⟨_, rfl, ⟨free', used', hcomplete, fun hp => hne (hfree (hphase ▸ hp))⟩, ?_, ?_⟩
    · rw [hstatus, hsize]
      exact h.status
    · rw [hphase, hsize]
      exact h.encode
  | reinit altSize =>
    obtain ⟨hheld, hzero⟩ := hsuits
    refine ⟨_, rfl, ⟨_, [], hlists.reinit hheld altSize, fun hp => ?_⟩, fun hon => ?_, ?_⟩
    · -- a buffer was free before, so there are buffers
      have hmem : ∀ p ∈ free, p ∈ config.buffers := fun p hin =>
        hlists.shared.all.subset (mem_append_left _ hin)
      obtain ⟨p, hin⟩ := exists_mem_of_ne_nil free (hfree hp)
      exact ne_nil_of_mem (mem_reverse.mpr (hmem p hin))
    · exact fun hsize => absurd ((hzero hsize).1.symm.trans hon) Bool.false_ne_true
    · rintro (hp | ⟨frame, hp⟩) hsize
      · exact (hzero hsize).2 hp
      · have hnone : (some frame : Option BufNode) = none :=
          (congrArg EnqueuePhase.held hp).symm.trans hheld
        exact absurd hnone (some_ne_none frame)
  | status on =>
    refine ⟨_, rfl, ⟨free, used, hlists.congr rfl rfl rfl rfl rfl rfl, hfree⟩, hsuits, h.encode⟩

end

/-! ## Runs -/

theorem video_start_inv (config : VideoConfig) (links : Links BufNode) (packetSize : Nat) :
    VideoInv config (videoStart config links packetSize) := by
  have hlists : ListsInv config (videoStart config links packetSize) config.buffers.reverse [] :=
    ⟨Shared.rebuild (buffers_members config) links, List.Pairwise.nil, nofun, nofun,
      List.Pairwise.nil, nofun⟩
  refine ⟨⟨_, [], hlists, nofun⟩, nofun, ?_⟩
  rintro (hp | ⟨_, hp⟩) <;> exact EnqueuePhase.noConfusion hp

/-- When every re-initialisation and every change of the status suits, no frame is encoded with the
packet size 0, and in every state of the run each buffer is in one place and the buffers were sent
in the order they were filled. -/
theorem buffers_ok (config : VideoConfig) (links : Links BufNode) (packetSize : Nat)
    (events : List VideoEvent)
    (hsteps : AllSteps (videoStep config) (VideoSuits config)
      (videoStart config links packetSize) events) :
    (exec (videoStep config) (videoStart config links packetSize) events).isSome ∧
      Always (videoStep config) (VideoOk config) (videoStart config links packetSize) events := by
  have hstart := video_start_inv config links packetSize
  constructor
  · obtain ⟨final, hrun, -⟩ := exec_progress (fun _ _ hinv hsuits => hinv.step hsuits) hstart hsteps
    exact isSome_iff_exists.mpr ⟨final, hrun⟩
  · refine always_of_invariant ?_ ?_ hstart hsteps
    · intro buf event buf' hinv hsuits hstep
      obtain ⟨buf'', hstep', hinv'⟩ := hinv.step hsuits
      obtain rfl := some.inj (hstep.symm.trans hstep')
      exact hinv'
    · intro buf hinv
      obtain ⟨free, used, hlists, -⟩ := hinv.lists
      exact hlists.video_ok

/-- A stream with one buffer on an isochronous endpoint. -/
def oneBuffer : VideoConfig where
  bufNum := 1
  bufSize := 4096
  bulk := false
  bulkPacketSize := 512
  stream := .one
  buf_pos := Nat.succ_pos _

/-- Links that point at the head of the free list. -/
def freshLinks : Links BufNode := ⟨fun _ => .listFree, fun _ => .listFree⟩

/-- The stream is started, and the thread goes up to the encoding of a frame. -/
def encodingEvents : List VideoEvent :=
  [.reinit 1024, .status true, .enqueue 100, .thread true 0, .thread true 0, .thread true 0,
    .thread true 0]

/-- A frame is sent, and the stream is stopped between two frames. -/
theorem one_frame_ok :
    (exec (videoStep oneBuffer) (videoStart oneBuffer freshLinks 0)
        (encodingEvents ++ [.thread true 100, .thread true 0, .complete 0, .complete 112,
          .status false, .reinit 0])).isSome ∧
      Always (videoStep oneBuffer) (VideoOk oneBuffer) (videoStart oneBuffer freshLinks 0)
        (encodingEvents ++ [.thread true 100, .thread true 0, .complete 0, .complete 112,
          .status false, .reinit 0]) :=
  buffers_ok oneBuffer freshLinks 0 _ (by decide +kernel)

/-- When the stream is stopped before the thread encodes a frame, the packet size is 0. When it is
stopped while the frame is encoded, the buffer gets into both lists. -/
theorem some_stop_breaks_buffers :
    exec (videoStep oneBuffer) (videoStart oneBuffer freshLinks 0)
        (encodingEvents ++ [.status false, .reinit 0, .thread true 100]) = none ∧
      ¬ Always (videoStep oneBuffer) (VideoOk oneBuffer) (videoStart oneBuffer freshLinks 0)
        (encodingEvents ++ [.thread true 100, .status false, .reinit 0, .thread true 0]) := by
  refine ⟨rfl, fun halways => ?_⟩
  have hok := (((((((((((halways.2 _ rfl).2 _ rfl).2 _ rfl).2 _ rfl).2 _ rfl).2 _ rfl).2 _ rfl).2
    _ rfl).2 _ rfl).2 _ rfl).2 _ rfl)
  obtain ⟨free, used, hpair, -⟩ := hok.lists
  have hfree : BufNode.dataBuf 0 ∈ BufNode.listFree :: free := hpair.first.next_mem mem_cons_self
  have hused : BufNode.dataBuf 0 ∈ BufNode.listUsed :: used := hpair.second.next_mem mem_cons_self
  exact hpair.ne hfree hused rfl

end FullhanRtos.Uvc
