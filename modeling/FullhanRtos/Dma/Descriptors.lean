import FullhanRtos.Lib.Transition
import Mathlib.Data.BitVec
import Mathlib.Logic.Function.Basic

/-!
# Descriptors of the DMA channels

`get_desc`, `put_desc` and their callers of `drivers/dma/fh_axi_dma.c`. A channel hands out the
descriptors of its table as a ring: `free_index` is the next free one, `desc_left_cnt` the number of
free ones. `get_desc` charges them only when it starts again at the head of the table.

`running` records the transfers of a channel that were started and are not completed, with their
descriptors. The code does not read it. `desc_ok_iff` says in which runs the counters and the
descriptors fit together.
-/

namespace FullhanRtos.Dma

open Transition Function List Option Nat BitVec List.Subset

/-! ## Channels -/

inductive ChannelStatus where
  | closed
  | open
  | idle
  | busy
  deriving DecidableEq

/-- `SINGLE_TRANSFER` and `CYCLIC_TRANSFER`. -/
inductive OpenFlag where
  | single
  | cyclic
  deriving DecidableEq

abbrev descMaxSize : BitVec 32 := 4096#32
abbrev descTransSize : BitVec 32 := 2048#32

/-- What the descriptors depend on in `struct dma_transfer`. -/
structure DmaTransfer where
  channelNumber : Nat
  transLen : BitVec 32
  periodLen : BitVec 32
  lliSize : BitVec 32
  actualLliSize : BitVec 32
  firstLli : Option (BitVec 32)

/-- The descriptors of a transfer. -/
structure Held (τ : Type) where
  transfer : τ
  first : BitVec 32
  count : BitVec 32

/-- `struct dma_channel`. `lock` is the value of `channel_lock`, and `baseLli` says that there is a
table. -/
structure DmaChannel (τ : Type) where
  status : ChannelStatus
  lock : Nat
  queue : List τ
  activeTrans : Option τ
  openFlag : OpenFlag
  freeIndex : BitVec 32
  usedIndex : BitVec 32
  descLeftCnt : BitVec 32
  baseLli : Bool
  running : List (Held τ)

/-- `struct fh_dma` with the transfers of its users, and whether a subtraction of descriptors has
wrapped. -/
structure FhDma (τ : Type) where
  channels : Nat → DmaChannel τ
  transfers : τ → DmaTransfer
  wrapped : Bool

variable {τ : Type} {f : DmaChannel τ → DmaChannel τ}

def FhDma.modify (dma : FhDma τ) (c : Nat) (f : DmaChannel τ → DmaChannel τ) : FhDma τ :=
  { dma with channels := update dma.channels c (f (dma.channels c)) }

section

variable [DecidableEq τ]

def FhDma.assign (dma : FhDma τ) (t : τ) (f : DmaTransfer → DmaTransfer) : FhDma τ :=
  { dma with transfers := update dma.transfers t (f (dma.transfers t)) }

/-- The transfer has these descriptors from now on. -/
def DmaChannel.hold (channel : DmaChannel τ) (t : τ) (first count : BitVec 32) : DmaChannel τ :=
  { channel with
    running := ⟨t, first, count⟩ :: channel.running.filter fun held => held.transfer ≠ t }

/-- The transfer is over. -/
def DmaChannel.drop (channel : DmaChannel τ) (t : τ) : DmaChannel τ :=
  { channel with running := channel.running.filter fun held => held.transfer ≠ t }

/-! ## The driver -/

/-- `get_desc`: `none` when it returns `RT_NULL`. -/
def getDesc (dma : FhDma τ) (t : τ) (lliSize : BitVec 32) : Option (FhDma τ × BitVec 32) :=
  let c := (dma.transfers t).channelNumber
  let channel := dma.channels c
  let totoalFreeDesc := channel.descLeftCnt
  let allignLeft := descMaxSize - channel.freeIndex
  if totoalFreeDesc < lliSize then none
  else if allignLeft < lliSize ∧ totoalFreeDesc - allignLeft < lliSize then none
  else
    let actualGetDesc := if allignLeft < lliSize then allignLeft + lliSize else 0#32
    let freeIndex := if allignLeft < lliSize then 0#32 else channel.freeIndex
    let charged := (dma.modify c fun channel =>
      { channel with
        freeIndex := (channel.freeIndex + actualGetDesc) % descMaxSize
        descLeftCnt := channel.descLeftCnt - actualGetDesc }).assign t fun transfer =>
          { transfer with lliSize, actualLliSize := actualGetDesc }
    some
      ({ charged with
        wrapped := dma.wrapped || descMaxSize < channel.freeIndex ||
          (allignLeft < lliSize && totoalFreeDesc < allignLeft) ||
          totoalFreeDesc < actualGetDesc },
        freeIndex)

def putDesc (dma : FhDma τ) (t : τ) : FhDma τ :=
  let transfer := dma.transfers t
  (dma.modify transfer.channelNumber fun channel =>
    { channel with
      usedIndex := (channel.usedIndex + transfer.actualLliSize) % descMaxSize
      descLeftCnt := channel.descLeftCnt + transfer.actualLliSize }).assign t fun transfer =>
        { transfer with lliSize := 0, actualLliSize := 0 }

def calLliSize (transfer : DmaTransfer) : BitVec 32 :=
  let perLli :=
    if transfer.periodLen ≠ 0 ∧ transfer.periodLen < descTransSize then transfer.periodLen
    else descTransSize
  (if transfer.transLen % perLli ≠ 0 then 1#32 else 0#32) + transfer.transLen / perLli

/-- What `handle_single_transfer` and `rt_fh_axi_dma_cyclic_prep` have in common: `entry` becomes
the active transfer and is started with the descriptors that `get_desc` gives to `t`. -/
def startTransfer (dma : FhDma τ) (t entry : τ) (lliSize : BitVec 32) : Option (FhDma τ) :=
  let c := (dma.transfers t).channelNumber
  (getDesc (dma.modify c fun channel => { channel with activeTrans := some entry }) t lliSize).map
    fun (dma, first) =>
      (dma.assign entry fun transfer => { transfer with firstLli := some first }).modify c
        fun channel => { channel.hold entry first lliSize with status := .busy }

/-- One round of the loop in `handle_single_transfer` over the queue. The descriptors of every
queued transfer are taken in the name of the new one. -/
def startQueued (t : τ) (dma : FhDma τ) (entry : τ) : Option (FhDma τ) :=
  startTransfer dma t entry (calLliSize (dma.transfers entry))

def FhDma.queued (channelMax : Nat) (dma : FhDma τ) (t : τ) : Bool :=
  (List.range channelMax).any fun c => t ∈ (dma.channels c).queue

def handleSingleTransfer (channelMax : Nat) (dma : FhDma τ) (t : τ) : Option (FhDma τ) :=
  let c := (dma.transfers t).channelNumber
  let channel := dma.channels c
  if c < channelMax ∧ channel.lock = 0 ∧ channel.status ≠ .closed then
    let queue := channel.queue ++ [t]
    queue.foldlM (startQueued t) (dma.modify c fun channel => { channel with queue })
  else none

/-- `rt_fh_axi_dma_cyclic_prep`: `none` at a failed assertion. -/
def cyclicPrep (dma : FhDma τ) (t : τ) : Option (FhDma τ) :=
  let transfer := dma.transfers t
  if (dma.channels transfer.channelNumber).baseLli = true ∧ transfer.periodLen ≠ 0 ∧
      transfer.transLen % transfer.periodLen = 0 then
    startTransfer dma t t (transfer.transLen / transfer.periodLen)
  else none

def isrSingleProcess (dma : FhDma τ) (t : τ) : FhDma τ :=
  let c := (dma.transfers t).channelNumber
  (putDesc (dma.modify c fun channel => { channel with status := .idle }) t).modify c
    fun channel => { channel.drop t with queue := channel.queue.erase t }

/-- One channel in `rt_fh_dma_isr`, with `DWAXIDMAC_IRQ_DMA_TRF` of its status. The interrupt of a
cyclic transfer only makes its descriptors valid again. -/
def isrChannel (dmaTrf : Nat → Bool) (dma : FhDma τ) (c : Nat) : Option (FhDma τ) :=
  let channel := dma.channels c
  if channel.openFlag = .single ∧ dmaTrf c = true then
    channel.activeTrans.map (isrSingleProcess dma)
  else some dma

def dmaIsr (channelMax : Nat) (dma : FhDma τ) (dmaTrf : Nat → Bool) : Option (FhDma τ) :=
  (List.range channelMax).foldlM (isrChannel dmaTrf) dma

/-- The rest of `handle_request_channel` with the lock of the channel. `real` is what
`check_channel_real_free` says, `mem` whether `rt_malloc` succeeds. -/
def requestLocked (dma : FhDma τ) (c : Nat) (real mem : Bool) : Option (FhDma τ) :=
  if real then
    some (dma.modify c fun channel =>
      if mem then
        { channel with
          status := .open
          lock := channel.lock - 1
          baseLli := true
          descLeftCnt := descMaxSize
          freeIndex := 0
          usedIndex := 0 }
      else { channel with status := .closed })
  else none

def handleRequestChannel (channelMax : Nat) (dma : FhDma τ) (channel : Option Nat)
    (real mem : Bool) : Option (FhDma τ) :=
  match channel with
  | none =>
    match (List.range channelMax).find? fun c => 0 < (dma.channels c).lock with
    | none => some dma
    | some c => requestLocked dma c real mem
  | some c =>
    if c < channelMax then
      if 0 < (dma.channels c).lock then requestLocked dma c real mem else some dma
    else none

def handleReleaseChannel (channelMax : Nat) (dma : FhDma τ) (c : Nat) : Option (FhDma τ) :=
  if c < channelMax ∧ (dma.channels c).status ≠ .closed then
    some (dma.modify c fun channel =>
      { channel with
        status := .closed
        lock := channel.lock + 1
        openFlag := .single
        baseLli := false
        descLeftCnt := descMaxSize
        freeIndex := 0
        usedIndex := 0
        running := [] })
  else none

/-- The calls of `control` that use descriptors, and the interrupt. A transfer is started with what
the user has set. -/
inductive DmaEvent (τ : Type) where
  | request (channel : Option Nat) (real mem : Bool)
  | single (t : τ) (channelNumber : Nat) (transLen periodLen : BitVec 32)
  | cyclicPrepare (t : τ) (channelNumber : Nat) (transLen periodLen : BitVec 32)
  | isr (dmaTrf : Nat → Bool)
  | cyclicFree (t : τ)
  | release (channel : Nat)

/-- What the user sets in a transfer. -/
def FhDma.setup (dma : FhDma τ) (t : τ) (channelNumber : Nat) (transLen periodLen : BitVec 32) :
    FhDma τ :=
  dma.assign t fun transfer => { transfer with channelNumber, transLen, periodLen }

/-- One event. A transfer that is queued is not started again. -/
def dmaStep (channelMax : Nat) (dma : FhDma τ) : DmaEvent τ → Option (FhDma τ)
  | .request channel real mem => handleRequestChannel channelMax dma channel real mem
  | .single t channelNumber transLen periodLen =>
    if dma.queued channelMax t then none
    else
      handleSingleTransfer channelMax
        ((dma.setup t channelNumber transLen periodLen).modify channelNumber
          fun channel => { channel with openFlag := .single }) t
  | .cyclicPrepare t channelNumber transLen periodLen =>
    if dma.queued channelMax t then none
    else
      cyclicPrep
        ((dma.setup t channelNumber transLen periodLen).modify channelNumber
          fun channel => { channel with openFlag := .cyclic }) t
  | .isr dmaTrf => dmaIsr channelMax dma dmaTrf
  | .cyclicFree t =>
    let freed := putDesc dma t
    some (freed.modify (dma.transfers t).channelNumber fun channel => channel.drop t)
  | .release c => handleReleaseChannel channelMax dma c

end

/-- After `fh_axi_dma_probe`. -/
def dmaStart : FhDma τ where
  channels := fun _ => ⟨.closed, 1, [], none, .single, 0, 0, 0, false, []⟩
  transfers := fun _ => ⟨0, 0, 0, 0, 0, none⟩
  wrapped := false

/-! ## What should hold -/

/-- Two ranges of descriptors have none in common. -/
def Apart (held held' : Held τ) : Prop :=
  held.count = 0 ∨ held'.count = 0 ∨ held.first.toNat + held.count.toNat ≤ held'.first.toNat ∨
    held'.first.toNat + held'.count.toNat ≤ held.first.toNat

/-- The descriptors that the transfers of a channel hold. -/
def DmaChannel.heldCount (channel : DmaChannel τ) : Nat :=
  (channel.running.map fun held => held.count.toNat).sum

/-- The ranges are inside the table and apart, and the counter says how many are left. -/
structure ChannelOk (channel : DmaChannel τ) : Prop where
  inside : ∀ held ∈ channel.running, held.first.toNat + held.count.toNat ≤ descMaxSize.toNat
  apart : channel.running.Pairwise Apart
  left : channel.descLeftCnt.toNat + channel.heldCount = descMaxSize.toNat

/-- All channels that are requested are in order, and no subtraction has wrapped. -/
structure DescOk (dma : FhDma τ) : Prop where
  channels : ∀ c, (dma.channels c).baseLli = true → ChannelOk (dma.channels c)
  wrapped : dma.wrapped = false

/-- A transfer that is started has no data, so it needs no descriptor. -/
def NoDescriptor : FhDma τ → DmaEvent τ → Prop
  | _, .single _ _ transLen _ => transLen = 0
  | _, .cyclicPrepare _ _ transLen _ => transLen = 0
  | _, _ => True

/-! ## Sizes -/

theorem cal_lli_size_eq_zero {transfer : DmaTransfer} :
    calLliSize transfer = 0 ↔ transfer.transLen = 0 := by
  obtain ⟨per, hper, hsize⟩ : ∃ per : BitVec 32, per ≠ 0 ∧
      calLliSize transfer =
        (if transfer.transLen % per ≠ 0 then 1#32 else 0#32) + transfer.transLen / per := by
    refine ⟨if transfer.periodLen ≠ 0 ∧ transfer.periodLen < descTransSize then
      transfer.periodLen else descTransSize, ?_, rfl⟩
    split_ifs with hperiod
    · exact hperiod.1
    · decide
  rw [hsize]
  have hpos : 0 < per.toNat := by
    rw [Nat.pos_iff_ne_zero]
    intro hzero
    exact hper (eq_of_toNat_eq hzero)
  have hdiv : (transfer.transLen / per).toNat = transfer.transLen.toNat / per.toNat := toNat_udiv
  have hmod : (transfer.transLen % per).toNat = transfer.transLen.toNat % per.toNat := toNat_umod
  have hsplit := div_add_mod transfer.transLen.toNat per.toNat
  constructor
  · intro hzero
    split_ifs at hzero with hrest
    · -- the quotient would have to be `2 ^ 32 - 1`, but then `per` is 1 and nothing remains
      have hquot : transfer.transLen.toNat / per.toNat = 2 ^ 32 - 1 := by
        have hsum : (1 + transfer.transLen.toNat / per.toNat) % 2 ^ 32 = 0 := by
          exact congrArg BitVec.toNat hzero
        omega
      have hone : per.toNat = 1 := by
        by_contra hne
        have hhalf : transfer.transLen.toNat / per.toNat ≤ transfer.transLen.toNat / 2 :=
          div_le_div_left (by omega) (by omega)
        omega
      refine absurd (eq_of_toNat_eq ?_) hrest
      rw [hmod, hone, mod_one]
      rfl
    · rw [BitVec.zero_add] at hzero
      have hquot : transfer.transLen.toNat / per.toNat = 0 := hdiv ▸ congrArg BitVec.toNat hzero
      have hrem : transfer.transLen.toNat % per.toNat = 0 := by
        rw [← hmod, not_not.mp hrest]
        rfl
      refine eq_of_toNat_eq ?_
      rw [hquot, hrem] at hsplit
      exact hsplit.symm
  · intro hzero
    rw [hzero]
    have hrem : (0 : BitVec 32) % per = 0 := zero_umod
    rw [if_neg (not_not.mpr hrem), BitVec.zero_add]
    exact zero_udiv

/-! ## Nothing is charged

`actual_get_desc` stays 0, so the counters of a channel stay as the request has left them and every
transfer gets the descriptors from the head of the table. -/

theorem modify_channels (dma : FhDma τ) (c c' : Nat) (f : DmaChannel τ → DmaChannel τ) :
    (dma.modify c f).channels c' = if c' = c then f (dma.channels c) else dma.channels c' :=
  update_apply ..

@[simp] theorem modify_channels_self (dma : FhDma τ) (c : Nat)
    (f : DmaChannel τ → DmaChannel τ) : (dma.modify c f).channels c = f (dma.channels c) :=
  update_self ..

@[simp] theorem modify_transfers (dma : FhDma τ) (c : Nat) (f : DmaChannel τ → DmaChannel τ) :
    (dma.modify c f).transfers = dma.transfers := rfl

theorem forall_modify {dma : FhDma τ} {c : Nat} (P : Nat → DmaChannel τ → Prop)
    (hnew : P c (f (dma.channels c))) (hold : ∀ c', P c' (dma.channels c')) :
    ∀ c', P c' ((dma.modify c f).channels c') := by
  intro c'
  rw [modify_channels]
  split_ifs with hc
  · exact hc ▸ hnew
  · exact hold c'

/-- The counters are those of a table that is free. -/
structure ChannelUncharged (channel : DmaChannel τ) : Prop where
  counters : channel.baseLli = true → channel.freeIndex = 0 ∧ channel.descLeftCnt = descMaxSize
  base : channel.lock = 0 → channel.baseLli = true
  released : channel.baseLli = false → channel.running = []
  first : ∀ held ∈ channel.running, held.first = 0

structure Uncharged (channelMax : Nat) (dma : FhDma τ) : Prop where
  channels : ∀ c, ChannelUncharged (dma.channels c)
  transfers : ∀ t, (dma.transfers t).actualLliSize = 0
  queues : ∀ c, channelMax ≤ c → (dma.channels c).queue = []
  wrapped : dma.wrapped = false

/-- No transfer has a descriptor. -/
def Idle (dma : FhDma τ) : Prop :=
  ∀ c, ∀ held ∈ (dma.channels c).running, held.count = 0

/-- No queued transfer needs a descriptor. -/
def Settled (dma : FhDma τ) : Prop :=
  ∀ c, ∀ t ∈ (dma.channels c).queue, (dma.transfers t).transLen = 0

variable {channelMax c : Nat} {dma dma' : FhDma τ} {t entry : τ} {real mem : Bool}

theorem held_count_eq_zero {channel : DmaChannel τ} :
    channel.heldCount = 0 ↔ ∀ held ∈ channel.running, held.count = 0 := by
  unfold DmaChannel.heldCount
  rw [List.sum_eq_zero_iff_forall_eq_nat]
  simp only [List.forall_mem_map]
  refine forall₂_congr fun held _ => ⟨fun hzero => eq_of_toNat_eq hzero, ?_⟩
  intro hzero
  rw [hzero]
  rfl

/-- With counters that are never charged, the descriptors are in order only if no transfer has any.
-/
theorem desc_ok_iff_idle (h : Uncharged channelMax dma) : DescOk dma ↔ Idle dma := by
  constructor
  · intro hok c
    cases hbase : (dma.channels c).baseLli with
    | false =>
      rw [(h.channels c).released hbase]
      exact fun held hheld => absurd hheld not_mem_nil
    | true =>
      have hleft := (hok.channels c hbase).left
      rw [((h.channels c).counters hbase).2] at hleft
      exact held_count_eq_zero.mp (by omega)
  · intro hidle
    refine ⟨fun c hbase => ?_, h.wrapped⟩
    refine ⟨fun held hheld => ?_, ?_, ?_⟩
    · rw [(h.channels c).first held hheld, hidle c held hheld]
      decide
    · exact pairwise_of_forall_mem_list fun held hheld _ _ => .inl (hidle c held hheld)
    · rw [((h.channels c).counters hbase).2, held_count_eq_zero.mpr (hidle c), Nat.add_zero]

theorem Uncharged.modify (h : Uncharged channelMax dma)
    (hchannel : ChannelUncharged (f (dma.channels c)))
    (hqueue : channelMax ≤ c → (f (dma.channels c)).queue = []) :
    Uncharged channelMax (dma.modify c f) where
  channels := forall_modify (fun _ => ChannelUncharged) hchannel h.channels
  transfers := h.transfers
  queues := forall_modify (fun c channel => channelMax ≤ c → channel.queue = []) hqueue h.queues
  wrapped := h.wrapped

/-- A change that leaves the counters and gives no descriptors. -/
theorem ChannelUncharged.of_eq {channel channel' : DmaChannel τ} (h : ChannelUncharged channel)
    (hlock : channel'.lock = channel.lock) (hbase : channel'.baseLli = channel.baseLli)
    (hfree : channel'.freeIndex = channel.freeIndex)
    (hleft : channel'.descLeftCnt = channel.descLeftCnt)
    (hrunning : channel'.running ⊆ channel.running) : ChannelUncharged channel' where
  counters := by
    rw [hbase, hfree, hleft]
    exact h.counters
  base := by
    rw [hlock, hbase]
    exact h.base
  released := by
    rw [hbase]
    intro hreleased
    exact subset_nil.mp (h.released hreleased ▸ hrunning)
  first := fun held hheld => h.first held (hrunning hheld)

theorem charge_zero (channel : DmaChannel τ) (hfree : channel.freeIndex = 0) :
    { channel with
      freeIndex := (channel.freeIndex + 0#32) % descMaxSize
      descLeftCnt := channel.descLeftCnt - 0#32 } = channel := by
  cases channel
  cases hfree
  simp

/-- No transfer has a descriptor. -/
structure Unheld (channelMax : Nat) (dma : FhDma τ) : Prop extends Uncharged channelMax dma where
  idle : Idle dma

/-- No transfer has a descriptor or waits for one. -/
structure Quiet (channelMax : Nat) (dma : FhDma τ) : Prop extends Unheld channelMax dma where
  settled : Settled dma

theorem Unheld.modify (h : Unheld channelMax dma) (hchannel : ChannelUncharged (f (dma.channels c)))
    (hrunning : (f (dma.channels c)).running ⊆ (dma.channels c).running)
    (hqueue : channelMax ≤ c → (f (dma.channels c)).queue = []) :
    Unheld channelMax (dma.modify c f) where
  toUncharged := h.toUncharged.modify hchannel hqueue
  idle := forall_modify (fun _ channel => ∀ held ∈ channel.running, held.count = 0)
    (fun held hheld => h.idle c held (hrunning hheld)) h.idle

theorem Quiet.modify (h : Quiet channelMax dma) (hchannel : ChannelUncharged (f (dma.channels c)))
    (hrunning : (f (dma.channels c)).running ⊆ (dma.channels c).running)
    (hqueue : (f (dma.channels c)).queue ⊆ (dma.channels c).queue) :
    Quiet channelMax (dma.modify c f) where
  toUnheld := h.toUnheld.modify hchannel hrunning fun hc =>
    subset_nil.mp (h.queues c hc ▸ hqueue)
  settled := forall_modify (fun _ channel => ∀ t ∈ channel.queue, (dma.transfers t).transLen = 0)
    (fun t ht => h.settled c t (hqueue ht)) h.settled

theorem Quiet.request_locked (h : Quiet channelMax dma)
    (hrequest : requestLocked dma c real mem = some dma') : Quiet channelMax dma' := by
  unfold requestLocked at hrequest
  split_ifs at hrequest
  all_goals cases hrequest
  · refine h.modify ?_ (refl _) (refl _)
    refine ⟨fun _ => ⟨rfl, rfl⟩, fun _ => rfl, fun hreleased => ?_, (h.channels c).first⟩
    cases hreleased
  · refine h.modify ?_ (refl _) (refl _)
    exact (h.channels c).of_eq rfl rfl rfl rfl (refl _)

theorem Quiet.request {channel : Option Nat} (h : Quiet channelMax dma)
    (hrequest : handleRequestChannel channelMax dma channel real mem = some dma') :
    Quiet channelMax dma' := by
  unfold handleRequestChannel at hrequest
  split at hrequest
  · split at hrequest
    · cases hrequest
      exact h
    · exact h.request_locked hrequest
  · split_ifs at hrequest
    · exact h.request_locked hrequest
    · cases hrequest
      exact h

theorem Quiet.release (h : Quiet channelMax dma)
    (hrelease : handleReleaseChannel channelMax dma c = some dma') : Quiet channelMax dma' := by
  unfold handleReleaseChannel at hrelease
  split_ifs at hrelease
  cases hrelease
  refine h.modify ?_ (nil_subset _) (refl _)
  refine ⟨fun hbase => ?_, fun hlock => ?_, fun _ => rfl, ?_⟩
  · cases hbase
  · exact absurd hlock (succ_ne_zero _)
  · exact fun held hheld => absurd hheld not_mem_nil

/-- The requests, queues and tables of two states are the same. -/
structure SameRequests (dma dma' : FhDma τ) : Prop where
  number : ∀ t, (dma'.transfers t).channelNumber = (dma.transfers t).channelNumber
  len : ∀ t, (dma'.transfers t).transLen = (dma.transfers t).transLen
  queue : ∀ c, (dma'.channels c).queue = (dma.channels c).queue
  base : ∀ c, (dma'.channels c).baseLli = (dma.channels c).baseLli

theorem SameRequests.modify (h : SameRequests dma dma')
    (hqueue : (f (dma'.channels c)).queue = (dma'.channels c).queue)
    (hbase : (f (dma'.channels c)).baseLli = (dma'.channels c).baseLli) :
    SameRequests dma (dma'.modify c f) where
  number := h.number
  len := h.len
  queue := forall_modify (fun c channel => channel.queue = (dma.channels c).queue)
    (hqueue.trans (h.queue c)) h.queue
  base := forall_modify (fun c channel => channel.baseLli = (dma.channels c).baseLli)
    (hbase.trans (h.base c)) h.base

variable [DecidableEq τ] {f : DmaTransfer → DmaTransfer} {dmaTrf : Nat → Bool}

theorem assign_transfers (dma : FhDma τ) (t t' : τ) (f : DmaTransfer → DmaTransfer) :
    (dma.assign t f).transfers t' = if t' = t then f (dma.transfers t) else dma.transfers t' :=
  update_apply ..

@[simp] theorem assign_transfers_self (dma : FhDma τ) (t : τ) (f : DmaTransfer → DmaTransfer) :
    (dma.assign t f).transfers t = f (dma.transfers t) :=
  update_self ..

theorem Uncharged.assign (h : Uncharged channelMax dma)
    (hf : (f (dma.transfers t)).actualLliSize = 0) : Uncharged channelMax (dma.assign t f) where
  channels := h.channels
  transfers := by
    intro t'
    rw [assign_transfers]
    split_ifs
    · exact hf
    · exact h.transfers t'
  queues := h.queues
  wrapped := h.wrapped

theorem get_desc_eq (h : Uncharged channelMax dma)
    (hbase : (dma.channels (dma.transfers t).channelNumber).baseLli = true) (lliSize : BitVec 32) :
    getDesc dma t lliSize =
      if descMaxSize < lliSize then none
      else some (dma.assign t fun transfer => { transfer with lliSize, actualLliSize := 0 },
        0) := by
  obtain ⟨hfree, hleft⟩ := (h.channels (dma.transfers t).channelNumber).counters hbase
  unfold getDesc
  simp only [hfree, hleft]
  by_cases hlarge : descMaxSize < lliSize
  · rw [if_pos hlarge, if_pos hlarge]
  · have halign : ¬ descMaxSize - 0 < lliSize := hlarge
    rw [if_neg hlarge, if_neg hlarge, if_neg fun hboth => halign hboth.1]
    have hwrapped : (dma.wrapped || descMaxSize < 0#32 ||
        (descMaxSize - 0 < lliSize && descMaxSize < descMaxSize - 0) || descMaxSize < 0#32) =
        dma.wrapped := by
      simp
    simp only [if_neg halign, FhDma.modify, charge_zero _ hfree, update_eq_self]
    exact congrArg (fun wrapped => some (FhDma.mk _ _ wrapped, 0)) hwrapped

theorem Unheld.assign (h : Unheld channelMax dma) (hf : (f (dma.transfers t)).actualLliSize = 0) :
    Unheld channelMax (dma.assign t f) :=
  ⟨h.toUncharged.assign hf, h.idle⟩

theorem Quiet.assign (h : Quiet channelMax dma) (hf : (f (dma.transfers t)).actualLliSize = 0)
    (hlen : (f (dma.transfers t)).transLen = (dma.transfers t).transLen) :
    Quiet channelMax (dma.assign t f) where
  toUnheld := h.toUnheld.assign hf
  settled := by
    intro c t' ht'
    rw [assign_transfers]
    split_ifs with heq
    · subst heq
      exact hlen.trans (h.settled c t' ht')
    · exact h.settled c t' ht'

theorem Quiet.put_desc (h : Quiet channelMax dma) (t : τ) : Quiet channelMax (putDesc dma t) := by
  unfold putDesc
  simp only [h.transfers t]
  refine Quiet.assign (h.modify ?_ (refl _) (refl _)) rfl rfl
  exact (h.channels _).of_eq rfl rfl rfl (BitVec.add_zero _) (refl _)

theorem drop_subset (channel : DmaChannel τ) (t : τ) :
    (channel.drop t).running ⊆ channel.running :=
  filter_subset_self _

section

variable (h : Quiet channelMax dma)

include h

/-- A completion gives nothing back. -/
theorem Quiet.isr_single (t : τ) : Quiet channelMax (isrSingleProcess dma t) := by
  have hidle : Quiet channelMax (dma.modify (dma.transfers t).channelNumber fun channel =>
      { channel with status := .idle }) := by
    refine h.modify ?_ (refl _) (refl _)
    exact (h.channels _).of_eq rfl rfl rfl rfl (refl _)
  have hput := hidle.put_desc t
  unfold isrSingleProcess
  refine hput.modify ?_ ?_ ?_
  · exact (hput.channels _).of_eq rfl rfl rfl rfl (drop_subset _ t)
  · exact drop_subset _ t
  · exact erase_subset

theorem Quiet.isr_channel (hisr : isrChannel dmaTrf dma c = some dma') : Quiet channelMax dma' := by
  unfold isrChannel at hisr
  dsimp only at hisr
  split_ifs at hisr
  · obtain ⟨t, -, rfl⟩ := map_eq_some_iff.mp hisr
    exact h.isr_single t
  · cases hisr
    exact h

/-- By induction on the channels that the interrupt looks at. -/
theorem Quiet.dma_isr {cs : List Nat} (hisr : cs.foldlM (isrChannel dmaTrf) dma = some dma') :
    Quiet channelMax dma' := by
  induction cs generalizing dma with
  | nil =>
    cases hisr
    exact h
  | cons c cs ih =>
    obtain ⟨dma1, hfirst, hrest⟩ := bind_eq_some_iff.mp hisr
    exact ih (h.isr_channel hfirst) hrest

theorem Quiet.cyclic_free (t : τ) :
    Quiet channelMax
      ((putDesc dma t).modify (dma.transfers t).channelNumber fun channel => channel.drop t) := by
  have hput := h.put_desc t
  refine hput.modify ?_ (drop_subset _ t) (refl _)
  exact (hput.channels _).of_eq rfl rfl rfl rfl (drop_subset _ t)

/-! ## Starts -/

theorem Quiet.setup (hqueued : ¬ dma.queued channelMax t = true) (channelNumber : Nat)
    (transLen periodLen : BitVec 32) :
    Quiet channelMax (dma.setup t channelNumber transLen periodLen) where
  toUnheld := h.toUnheld.assign (h.transfers t)
  settled := by
    intro c t' ht'
    have hmem : t' ∈ (dma.channels c).queue := ht'
    unfold FhDma.setup
    rw [assign_transfers, if_neg]
    · exact h.settled c t' hmem
    · rintro rfl
      refine hqueued (List.any_eq_true.mpr ⟨c, mem_range.mpr ?_, decide_eq_true hmem⟩)
      by_contra hout
      rw [h.queues c (not_lt.mp hout)] at hmem
      exact not_mem_nil hmem

end

theorem SameRequests.assign (h : SameRequests dma dma')
    (hnumber : (f (dma'.transfers t)).channelNumber = (dma'.transfers t).channelNumber)
    (hlen : (f (dma'.transfers t)).transLen = (dma'.transfers t).transLen) :
    SameRequests dma (dma'.assign t f) where
  number := by
    intro t'
    rw [assign_transfers]
    split_ifs with heq
    · exact heq ▸ hnumber.trans (h.number t)
    · exact h.number t'
  len := by
    intro t'
    rw [assign_transfers]
    split_ifs with heq
    · exact heq ▸ hlen.trans (h.len t)
    · exact h.len t'
  queue := h.queue
  base := h.base

theorem Unheld.start {lliSize : BitVec 32} (h : Unheld channelMax dma)
    (hbase : (dma.channels (dma.transfers t).channelNumber).baseLli = true)
    (hstart : startTransfer dma t entry lliSize = some dma') :
    Uncharged channelMax dma' ∧ SameRequests dma dma' ∧ (Idle dma' ↔ lliSize = 0) := by
  have hactive : Unheld channelMax (dma.modify (dma.transfers t).channelNumber fun channel =>
      { channel with activeTrans := some entry }) := by
    refine h.modify ?_ (refl _) (h.queues _)
    exact (h.channels _).of_eq rfl rfl rfl rfl (refl _)
  have hsame : SameRequests dma (dma.modify (dma.transfers t).channelNumber fun channel =>
      { channel with activeTrans := some entry }) :=
    SameRequests.modify ⟨fun _ => rfl, fun _ => rfl, fun _ => rfl, fun _ => rfl⟩ rfl rfl
  unfold startTransfer at hstart
  dsimp only at hstart
  rw [get_desc_eq hactive.toUncharged (by simpa using hbase)] at hstart
  split_ifs at hstart
  · cases hstart
  cases hstart
  have hget := Unheld.assign (t := t) (f := fun transfer =>
    { transfer with lliSize, actualLliSize := 0 }) hactive rfl
  have hfirst := Unheld.assign (t := entry) (f := fun transfer =>
    { transfer with firstLli := some 0 }) hget (hget.transfers entry)
  have hchannel := hfirst.channels (dma.transfers t).channelNumber
  have hsame' := SameRequests.assign (t := entry) (f := fun transfer =>
    { transfer with firstLli := some 0 })
    (SameRequests.assign (t := t) (f := fun transfer =>
      { transfer with lliSize, actualLliSize := 0 }) hsame rfl rfl) rfl rfl
  refine ⟨hfirst.toUncharged.modify ?_ (hfirst.queues _), hsame'.modify rfl rfl, ?_⟩
  · refine ⟨hchannel.counters, hchannel.base, fun hreleased => ?_, ?_⟩
    · have hbase' : (dma.channels (dma.transfers t).channelNumber).baseLli = false :=
        (hsame'.base _).symm.trans hreleased
      rw [hbase] at hbase'
      cases hbase'
    · intro held hheld
      obtain rfl | hheld := mem_cons.mp hheld
      · rfl
      · exact hchannel.first held (mem_of_mem_filter hheld)
  · constructor
    · intro hidle
      refine hidle (dma.transfers t).channelNumber ⟨entry, 0, lliSize⟩ ?_
      rw [modify_channels_self]
      exact mem_cons_self
    · intro hzero
      refine forall_modify (fun _ channel => ∀ held ∈ channel.running, held.count = 0) ?_
        hfirst.idle
      intro held hheld
      obtain rfl | hheld := mem_cons.mp hheld
      · exact hzero
      · exact hfirst.idle _ held (mem_of_mem_filter hheld)

/-- The transfers that are queued before the new one need no descriptors. By induction on the
queue. -/
theorem Unheld.start_queue {entries : List τ} (h : Unheld channelMax dma)
    (hbase : (dma.channels (dma.transfers t).channelNumber).baseLli = true)
    (hentries : ∀ entry ∈ entries, (dma.transfers entry).transLen = 0)
    (hstart : entries.foldlM (startQueued t) dma = some dma') :
    Unheld channelMax dma' ∧ SameRequests dma dma' := by
  induction entries generalizing dma with
  | nil =>
    cases hstart
    exact ⟨h, fun _ => rfl, fun _ => rfl, fun _ => rfl, fun _ => rfl⟩
  | cons entry entries ih =>
    obtain ⟨dma1, hfirst, hrest⟩ := bind_eq_some_iff.mp hstart
    obtain ⟨huncharged, hsame, hidle⟩ := h.start hbase hfirst
    have hzero := cal_lli_size_eq_zero.mpr (hentries entry mem_cons_self)
    obtain ⟨hlast, hsame'⟩ := ih ⟨huncharged, hidle.mpr hzero⟩
      (by rw [hsame.base, hsame.number]; exact hbase)
      (fun entry hentry => by rw [hsame.len]; exact hentries entry (.tail _ hentry)) hrest
    refine ⟨hlast, fun t => ?_, fun t => ?_, fun c => ?_, fun c => ?_⟩
    · exact (hsame'.number t).trans (hsame.number t)
    · exact (hsame'.len t).trans (hsame.len t)
    · exact (hsame'.queue c).trans (hsame.queue c)
    · exact (hsame'.base c).trans (hsame.base c)

theorem Quiet.single (h : Quiet channelMax dma)
    (hsingle : handleSingleTransfer channelMax dma t = some dma') :
    Uncharged channelMax dma' ∧ (Idle dma' ↔ (dma.transfers t).transLen = 0) ∧
      ((dma.transfers t).transLen = 0 → Settled dma') := by
  unfold handleSingleTransfer at hsingle
  dsimp only at hsingle
  split_ifs at hsingle with hallowed
  obtain ⟨hmax, hlock, -⟩ := hallowed
  have hbase := (h.channels _).base hlock
  have hinserted : Unheld channelMax (dma.modify (dma.transfers t).channelNumber fun channel =>
      { channel with queue := (dma.channels (dma.transfers t).channelNumber).queue ++ [t] }) := by
    refine h.toUnheld.modify ?_ (refl _) (fun hout => absurd hmax (not_lt.mpr hout))
    exact (h.channels _).of_eq rfl rfl rfl rfl (refl _)
  rw [foldlM_append] at hsingle
  obtain ⟨dma1, hqueue, hlast⟩ := bind_eq_some_iff.mp hsingle
  obtain ⟨hunheld, hsame⟩ := hinserted.start_queue (by simpa using hbase)
    (fun entry hentry => h.settled _ entry hentry) hqueue
  obtain ⟨dma2, hstart, hlast⟩ := bind_eq_some_iff.mp hlast
  cases hlast
  obtain ⟨huncharged, hsame', hidle⟩ := hunheld.start
    (by rw [hsame.base, hsame.number]; simpa using hbase) hstart
  have hlen : (dma1.transfers t).transLen = (dma.transfers t).transLen := hsame.len t
  refine ⟨huncharged, hidle.trans (by rw [cal_lli_size_eq_zero, hlen]), ?_⟩
  intro hzero c t' ht'
  rw [hsame'.len, hsame.len]
  rw [hsame'.queue, hsame.queue] at ht'
  refine forall_modify
    (fun _ channel => ∀ t ∈ channel.queue, (dma.transfers t).transLen = 0) ?_ h.settled c t' ht'
  intro t1 ht1
  obtain hold | hnew := mem_append.mp ht1
  · exact h.settled _ t1 hold
  · rw [mem_singleton.mp hnew]
    exact hzero

theorem Quiet.cyclic (h : Quiet channelMax dma) (hcyclic : cyclicPrep dma t = some dma') :
    Uncharged channelMax dma' ∧ (Idle dma' ↔ (dma.transfers t).transLen = 0) ∧
      ((dma.transfers t).transLen = 0 → Settled dma') := by
  unfold cyclicPrep at hcyclic
  dsimp only at hcyclic
  split_ifs at hcyclic with hallowed
  obtain ⟨hbase, hperiod, hrest⟩ := hallowed
  obtain ⟨huncharged, hsame, hidle⟩ := h.toUnheld.start hbase hcyclic
  refine ⟨huncharged, hidle.trans ⟨fun hzero => ?_, fun hzero => ?_⟩, fun _ c t' ht' => ?_⟩
  · have hquot := congrArg BitVec.toNat hzero
    have hrem := congrArg BitVec.toNat hrest
    have hsplit := div_add_mod (dma.transfers t).transLen.toNat
      (dma.transfers t).periodLen.toNat
    rw [toNat_udiv] at hquot
    rw [toNat_umod] at hrem
    rw [hquot, hrem] at hsplit
    exact eq_of_toNat_eq hsplit.symm
  · rw [hzero]
    exact zero_udiv
  · rw [hsame.len]
    exact h.settled c t' (hsame.queue c ▸ ht')

/-! ## Runs -/

/-- A state of a run: nothing is charged, and while no transfer has a descriptor none waits for
one. -/
structure DmaInv (channelMax : Nat) (dma : FhDma τ) : Prop extends Uncharged channelMax dma where
  settled : Idle dma → Settled dma

omit [DecidableEq τ] in
theorem Quiet.inv (h : Quiet channelMax dma) : DmaInv channelMax dma :=
  ⟨h.toUncharged, fun _ => h.settled⟩

omit [DecidableEq τ] in
/-- Setting the kind of transfer of a channel. -/
theorem Quiet.open_flag (h : Quiet channelMax dma) (c : Nat) (openFlag : OpenFlag) :
    Quiet channelMax (dma.modify c fun channel => { channel with openFlag }) := by
  refine h.modify ?_ (refl _) (refl _)
  exact (h.channels c).of_eq rfl rfl rfl rfl (refl _)

/-- A step from a state in order leads to one in order exactly if it starts no transfer with data.
-/
theorem dma_step_ok {event : DmaEvent τ} (hinv : DmaInv channelMax dma) (hok : DescOk dma)
    (hstep : dmaStep channelMax dma event = some dma') :
    DmaInv channelMax dma' ∧ (DescOk dma' ↔ NoDescriptor dma event) := by
  have hidle := (desc_ok_iff_idle hinv.toUncharged).mp hok
  have h : Quiet channelMax dma := ⟨⟨hinv.toUncharged, hidle⟩, hinv.settled hidle⟩
  have hquiet : Quiet channelMax dma' → DmaInv channelMax dma' ∧ (DescOk dma' ↔ True) :=
    fun h => ⟨h.inv, iff_true_intro ((desc_ok_iff_idle h.toUncharged).mpr h.idle)⟩
  cases event with
  | request channel real mem => exact hquiet (h.request hstep)
  | isr dmaTrf => exact hquiet (h.dma_isr hstep)
  | release c => exact hquiet (h.release hstep)
  | cyclicFree t =>
    cases hstep
    exact hquiet (h.cyclic_free t)
  | single t channelNumber transLen periodLen =>
    unfold dmaStep at hstep
    dsimp only at hstep
    split_ifs at hstep with hqueued
    obtain ⟨huncharged, hidle', hsettled⟩ :=
      ((h.setup hqueued channelNumber transLen periodLen).open_flag channelNumber .single).single
        hstep
    rw [modify_transfers, FhDma.setup, assign_transfers_self] at hidle' hsettled
    refine ⟨⟨huncharged, fun hidle => hsettled (hidle'.mp hidle)⟩, ?_⟩
    exact (desc_ok_iff_idle huncharged).trans hidle'
  | cyclicPrepare t channelNumber transLen periodLen =>
    unfold dmaStep at hstep
    dsimp only at hstep
    split_ifs at hstep with hqueued
    obtain ⟨huncharged, hidle', hsettled⟩ :=
      ((h.setup hqueued channelNumber transLen periodLen).open_flag channelNumber .cyclic).cyclic
        hstep
    rw [modify_transfers, FhDma.setup, assign_transfers_self] at hidle' hsettled
    refine ⟨⟨huncharged, fun hidle => hsettled (hidle'.mp hidle)⟩, ?_⟩
    exact (desc_ok_iff_idle huncharged).trans hidle'

omit [DecidableEq τ] in
theorem dma_start_unheld (channelMax : Nat) : Unheld channelMax (dmaStart : FhDma τ) where
  channels := fun _ => by
    refine ⟨fun hbase => ?_, fun hlock => ?_, fun _ => rfl, ?_⟩
    · cases hbase
    · cases hlock
    · exact fun held hheld => absurd hheld not_mem_nil
  transfers := fun _ => rfl
  queues := fun _ _ => rfl
  wrapped := rfl
  idle := fun _ held hheld => absurd hheld not_mem_nil

/-- In a run the descriptors are always in order exactly if no transfer with data is started. -/
theorem desc_ok_iff {channelMax : Nat} {events : List (DmaEvent τ)} {last : FhDma τ}
    (hrun : exec (dmaStep channelMax) dmaStart events = some last) :
    Always (dmaStep channelMax) DescOk dmaStart events ↔
      AllSteps (dmaStep channelMax) NoDescriptor dmaStart events := by
  have hstart := dma_start_unheld (τ := τ) channelMax
  refine always_iff (I := DmaInv channelMax) (A := fun _ => True) ?_ (fun _ _ => trivial) ?_ ?_ hrun
  · exact fun dma event dma' _ hinv hok hstep => dma_step_ok hinv hok hstep
  · exact ⟨hstart.toUncharged, fun _ c t ht => absurd ht not_mem_nil⟩
  · exact (desc_ok_iff_idle hstart.toUncharged).mpr hstart.idle

/-- A channel is requested, a transfer without data is started on it and completed, and the channel
is released. -/
theorem empty_transfer_ok :
    Always (dmaStep 4) DescOk (dmaStart : FhDma Nat)
      [.request (some 0) true true, .single 0 0 0 0, .isr fun c => c = 0, .release 0] := by
  refine (desc_ok_iff rfl).mpr ?_
  exact ⟨trivial, fun _ _ => ⟨rfl, fun _ _ => ⟨trivial, fun _ _ => ⟨trivial, fun _ _ => trivial⟩⟩⟩⟩

/-- Two transfers with ten descriptors each are in flight on one channel: both have the first ten of
the table, and all 4096 are counted as left. -/
theorem two_transfers_not_ok :
    ¬ Always (dmaStep 4) DescOk (dmaStart : FhDma Nat)
      [.request (some 0) true true, .single 0 0 20480 0, .single 1 0 20480 0] := by
  intro halways
  have hlast := (halways.last rfl).channels 0 rfl
  have hleft := hlast.left
  revert hleft
  decide

end FullhanRtos.Dma
