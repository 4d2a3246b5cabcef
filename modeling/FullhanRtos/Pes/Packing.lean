import FullhanRtos.Pes.Channels

/-!
# A pack

`Packing` is the state in the middle of a pack: the units of the frame hold what was added so far,
and the channels are as they were. Every call of `ts_add_data` keeps it, whether it gets the units
it needs or not, and `ts_add_data_end` hands the units over.
-/

namespace FullhanRtos.Pes

open Bytes LinkedRing ListPair ListFamily Function List Set

/-- The unit that the thread sends. -/
def held (s : Libpes) : Set Nat := {id | s.sending = some id}

/-- The lists since `s0`: only the free list and the list of the frame have changed, and the units
on the latter are full. -/
structure Building (s0 s : Libpes) (lists0 lists : Place → List Nat) (loose : Set Nat) : Prop where
  tracked : Tracked s univ lists loose
  counted : Counted s lists
  kept : Kept s0 s
  channel : ∀ k, lists (.channel k) = lists0 (.channel k)
  data : ∀ k, ∀ id ∈ lists0 (.channel k), s.data id = s0.data id
  full : ∀ id ∈ lists .swap, (s.data id).length = tsUnitsMaxSize

structure Filling (s0 s : Libpes) (lists0 lists : Place → List Nat) (id : Nat)
    (written : List Byte) : Prop extends Building s0 s lists0 lists (insert id (held s)) where
  out : id ∉ held s
  room : (s.data id).length < tsUnitsMaxSize
  written : (lists .swap).flatMap s.data ++ s.data id = written

/-- Between two calls of `ts_add_data`. -/
def Packing (s0 s : Libpes) (lists0 lists : Place → List Nat) (written : List Byte) : Prop :=
  match s.swapTsPkt with
  | none => Building s0 s lists0 lists (held s) ∧ (lists .swap).flatMap s.data = written
  | some id => Filling s0 s lists0 lists id written ∧ 0 < (s.data id).length

variable {s0 s s' : Libpes} {lists0 lists : Place → List Nat} {loose : Set Nat} {id : Nat}
  {written data : List Byte} {k : Fin 32} {frameType : FrameType × Bool} {element : StreamElement}
  {encType : Byte}

theorem Building.mem_channel (h : Building s0 s lists0 lists loose)
    (hid : id ∈ lists0 (.channel k)) : id ∉ loose := by
  intro hin
  rw [← h.channel k] at hid
  exact h.tracked.loose_out id hin (.channel k) (mem_univ _) hid

theorem Building.set_data (h : Building s0 s lists0 lists (insert id loose)) (bytes : List Byte) :
    Building s0 (setData s id bytes) lists0 lists (insert id loose) := by
  refine ⟨h.tracked.congr rfl rfl, h.counted.congr rfl rfl, h.kept.trans ⟨rfl, rfl, rfl⟩, h.channel,
    fun k id' hid' => ?_, fun id' hid' => ?_⟩
  · have hne : id' ≠ id := fun heq => h.mem_channel hid' (heq ▸ mem_insert id loose)
    exact (update_of_ne hne _ _).trans (h.data k id' hid')
  · have hne : id' ≠ id := by
      rintro rfl
      exact h.tracked.loose_out id' (mem_insert id' loose) .swap (mem_univ _) hid'
    exact (congrArg List.length (update_of_ne hne _ _)).trans (h.full id' hid')

theorem flat_map_set_data (h : Tracked s univ lists (insert id loose)) (place : Place)
    (bytes : List Byte) :
    (lists place).flatMap (setData s id bytes).data = (lists place).flatMap s.data := by
  refine flatMap_congr fun id' hid' => ?_
  have hne : id' ≠ id := by
    rintro rfl
    exact h.loose_out id' (mem_insert id' loose) place (mem_univ _) hid'
  exact update_of_ne hne _ _

theorem Building.add_swap (h : Building s0 s lists0 lists (insert id loose)) (hout : id ∉ loose)
    (hfull : (s.data id).length = tsUnitsMaxSize) :
    Building s0 { listAddTail s .swap id with swapTsPkt := none } lists0
      (update lists .swap (lists .swap ++ [id])) loose := by
  have hfree : Place.free ≠ .swap := nofun
  have hchannel : ∀ k, Place.channel k ≠ .swap := fun _ => nofun
  refine ⟨(h.tracked.add_tail (mem_univ _) hout).congr rfl rfl, ⟨?_, h.counted.free_le, ?_⟩,
    h.kept.trans ⟨rfl, rfl, rfl⟩, fun k => ?_, h.data, ?_⟩
  · rw [update_of_ne hfree]
    exact h.counted.free
  · intro k
    exact h.counted.channel k
  · rw [update_of_ne (hchannel k)]
    exact h.channel k
  · intro id' hid'
    rw [update_self, mem_append, List.mem_singleton] at hid'
    rcases hid' with hid' | rfl
    · exact h.full id' hid'
    · exact hfull

/-- A round of `ts_add_data` adds some of the bytes. -/
theorem Filling.fill (h : Filling s0 s lists0 lists id written) (hdata : data ≠ []) :
    ∃ lists' taken, data = taken ++ (fillUnit s id data).2 ∧ taken ≠ [] ∧
      Packing s0 (fillUnit s id data).1 lists0 lists' (written ++ taken) := by
  have hroom := h.room
  have hlen := length_pos_iff.mpr hdata
  unfold fillUnit
  dsimp only
  generalize hn : min (tsUnitsMaxSize - (s.data id).length) data.length = n
  have hset : (setData s id (s.data id ++ data.take n)).data id = s.data id ++ data.take n :=
    update_self ..
  have hflat := flat_map_set_data h.tracked .swap (s.data id ++ data.take n)
  have hbuild := h.toBuilding.set_data (s.data id ++ data.take n)
  have htaken : (data.take n).length = n := by
    rw [length_take]
    omega
  have hne : data.take n ≠ [] := length_pos_iff.mp (by omega)
  by_cases hfull : tsUnitsMaxSize ≤ ((setData s id (s.data id ++ data.take n)).data id).length
  · rw [if_pos hfull]
    refine ⟨_, _, (take_append_drop n data).symm, hne, hbuild.add_swap h.out ?_, ?_⟩
    · rw [hset, length_append, htaken] at hfull ⊢
      omega
    · rw [update_self, flatMap_append, flatMap_singleton]
      show (lists .swap).flatMap (setData s id _).data ++ (setData s id _).data id = _
      rw [hflat, hset, ← append_assoc, h.written]
  · rw [if_neg hfull]
    refine ⟨lists, _, (take_append_drop n data).symm, hne,
      ⟨⟨?_, h.out, Nat.lt_of_not_le hfull, ?_⟩, ?_⟩⟩
    · exact ⟨hbuild.tracked.congr rfl rfl, hbuild.counted.congr rfl rfl,
        hbuild.kept.trans ⟨rfl, rfl, rfl⟩, hbuild.channel, hbuild.data, hbuild.full⟩
    · show (lists .swap).flatMap (setData s id _).data ++ (setData s id _).data id = _
      rw [hflat, hset, ← append_assoc, h.written]
    · show 0 < ((setData s id _).data id).length
      rw [hset, length_append]
      omega

theorem Packing.none_iff (hswap : s.swapTsPkt = none) :
    Packing s0 s lists0 lists written ↔
      Building s0 s lists0 lists (held s) ∧ (lists .swap).flatMap s.data = written := by
  rw [Packing, hswap]

theorem Packing.some_iff (hswap : s.swapTsPkt = some id) :
    Packing s0 s lists0 lists written ↔
      Filling s0 s lists0 lists id written ∧ 0 < (s.data id).length := by
  rw [Packing, hswap]

open Packing

/-- A new unit is allocated, or the pack stays as it is. -/
theorem Packing.alloc (h : Packing s0 s lists0 lists written) (hswap : s.swapTsPkt = none) :
    ∃ s', (allocTsPkt s = some (none, s') ∧ Packing s0 s' lists0 lists written) ∨
      ∃ id lists', allocTsPkt s = some (some id, s') ∧ Filling s0 s' lists0 lists' id written := by
  obtain ⟨hbuild, hwritten⟩ := (none_iff hswap).mp h
  obtain ⟨s', hkept, hswap', hcase⟩ := alloc_spec hbuild.tracked hbuild.counted (mem_univ _)
  have hheld : held s' = held s := by
    unfold held
    rw [hkept.sending]
  refine ⟨s', hcase.imp ?none ?some⟩
  case none =>
    rintro ⟨halloc, htracked, hcounted, hdata⟩
    refine ⟨halloc, (none_iff (hswap'.trans hswap)).mpr ⟨⟨?_, hcounted,
      hbuild.kept.trans hkept, hbuild.channel, ?_, ?_⟩, ?_⟩⟩
    · rw [hheld]
      exact htracked
    · rw [hdata]
      exact hbuild.data
    · rw [hdata]
      exact hbuild.full
    · rw [hdata]
      exact hwritten
  case some =>
    rintro ⟨id, frees, halloc, htracked, hout, hcounted, hdata⟩
    have hchannel : ∀ k, Place.channel k ≠ .free := fun _ => nofun
    have hfree : Place.swap ≠ .free := nofun
    have hself : s'.data id = [] := by rw [hdata, update_self]
    have hother : ∀ place ≠ .free, ∀ id' ∈ lists place, s'.data id' = s.data id' := by
      intro place hne id' hid'
      have hid : id' ≠ id := by
        rintro rfl
        refine htracked.loose_out id' (mem_insert id' _) place (mem_univ _) ?_
        rw [update_of_ne hne]
        exact hid'
      rw [hdata, update_of_ne hid]
    have hswapped : update lists .free frees .swap = lists .swap := update_of_ne hfree _ _
    refine ⟨id, _, halloc, ⟨⟨?_, hcounted, hbuild.kept.trans hkept, ?_, ?_, ?_⟩, ?_, ?_, ?_⟩⟩
    · rw [hheld]
      exact htracked
    · intro k
      exact hbuild.channel k
    · intro k id' hid'
      have hmem : id' ∈ lists (.channel k) := by
        rw [hbuild.channel k]
        exact hid'
      rw [hother _ (hchannel k) id' hmem]
      exact hbuild.data k id' hid'
    · intro id' hid'
      rw [hother _ hfree id' hid']
      exact hbuild.full id' hid'
    · rw [hheld]
      exact hout
    · rw [hself]
      exact Nat.zero_lt_succ _
    · rw [hswapped, hself, append_nil, flatMap_congr (hother _ hfree)]
      exact hwritten

theorem Packing.add_data (h : Packing s0 s lists0 lists written) {fuel : Nat}
    (hfuel : data.length ≤ fuel) :
    ∃ ok s' lists' added, tsAddData fuel data s = some (ok, s') ∧
      Packing s0 s' lists0 lists' (written ++ added) ∧ (ok = true → added = data) := by
  induction fuel generalizing s lists written data with
  | zero =>
    obtain rfl := length_eq_zero_iff.mp (Nat.le_zero.mp hfuel)
    exact ⟨true, s, lists, [], rfl, by rw [append_nil]; exact h, fun _ => rfl⟩
  | succ fuel ih =>
    cases data with
    | nil => exact ⟨true, s, lists, [], rfl, by rw [append_nil]; exact h, fun _ => rfl⟩
    | cons b bs =>
      -- the round with a unit, and the rounds behind it
      have hround : ∀ {s id lists}, Filling s0 s lists0 lists id written →
          ∃ ok s' lists' added,
            tsAddData fuel (fillUnit s id (b :: bs)).2 (fillUnit s id (b :: bs)).1 = some (ok, s') ∧
            Packing s0 s' lists0 lists' (written ++ added) ∧ (ok = true → added = b :: bs) := by
        intro s id lists hfill
        obtain ⟨lists1, taken, hsplit, hne, hpack⟩ := hfill.fill (cons_ne_nil b bs)
        have hless : (fillUnit s id (b :: bs)).2.length ≤ fuel := by
          have hlen := congrArg List.length hsplit
          have htaken := length_pos_iff.mpr hne
          rw [length_append] at hlen
          omega
        obtain ⟨ok, s', lists', added, hrun, hpacked, hall⟩ := ih hpack hless
        refine ⟨ok, s', lists', taken ++ added, hrun, ?_, fun hok => ?_⟩
        · rw [← append_assoc]
          exact hpacked
        · rw [hall hok]
          exact hsplit.symm
      cases hswap : s.swapTsPkt with
      | some id =>
        obtain ⟨ok, s', lists', added, hrun, hpacked⟩ := hround ((some_iff hswap).mp h).1
        refine ⟨ok, s', lists', added, ?_, hpacked⟩
        rw [tsAddData, hswap]
        exact hrun
      | none =>
        obtain ⟨s1, ⟨halloc, hpack⟩ | ⟨id, lists1, halloc, hfill⟩⟩ := h.alloc hswap
        · refine ⟨false, s1, lists, [], ?_, by rw [append_nil]; exact hpack, nofun⟩
          rw [tsAddData, hswap]
          rw [halloc]
          rfl
        · obtain ⟨ok, s', lists', added, hrun, hpacked⟩ := hround hfill
          refine ⟨ok, s', lists', added, ?_, hpacked⟩
          rw [tsAddData, hswap]
          rw [halloc]
          exact hrun

theorem Packing.add_pieces (h : Packing s0 s lists0 lists written) (pieces : List (List Byte))
    (ok : Bool) :
    ∃ ok' s' lists' added, addPieces pieces ok s = some (ok', s') ∧
      Packing s0 s' lists0 lists' (written ++ added) ∧
      (ok' = true → ok = true ∧ added = pieces.flatten) := by
  induction pieces generalizing s lists written ok with
  | nil => exact ⟨ok, s, lists, [], rfl, by rw [append_nil]; exact h, fun hok => ⟨hok, rfl⟩⟩
  | cons piece pieces ih =>
    obtain ⟨first, s1, lists1, added, hrun, hpack, hfirst⟩ := h.add_data le_rfl
    obtain ⟨ok', s', lists', more, hrest, hpacked, hall⟩ := ih hpack (ok && first)
    refine ⟨ok', s', lists', added ++ more, ?_, ?_, fun hok => ?_⟩
    · rw [addPieces, hrun]
      exact hrest
    · rw [← append_assoc]
      exact hpacked
    · obtain ⟨hboth, hmore⟩ := hall hok
      obtain ⟨hok0, hfirst0⟩ := Bool.and_eq_true_iff.mp hboth
      exact ⟨hok0, by rw [hfirst hfirst0, hmore, flatten_cons]⟩

/-! ## The end of a pack -/

/-- The module between two calls, when it is initialised: nothing is left of a frame. -/
structure Resting (s : Libpes) (lists : Place → List Nat) : Prop where
  tracked : Tracked s univ lists (held s)
  counted : Counted s lists
  swap : lists .swap = []
  swapTsPkt : s.swapTsPkt = none

theorem Resting.packing (h : Resting s lists) : Packing s s lists lists [] := by
  rw [none_iff h.swapTsPkt, h.swap]
  refine ⟨⟨h.tracked, h.counted, ⟨rfl, rfl, rfl⟩, fun _ => rfl, fun _ _ _ => rfl, ?_⟩, rfl⟩
  rw [h.swap]
  exact nofun

theorem held_eq (h : s'.sending = s.sending) : held s' = held s := by
  unfold held
  rw [h]

section

variable (h : Packing s0 s lists0 lists written)

include h

theorem Packing.flush :
    ∃ ids, Tracked (flushSwapPkt s) univ (update lists .swap ids)
        (held (flushSwapPkt s)) ∧
      Counted (flushSwapPkt s) (update lists .swap ids) ∧ Kept s0 (flushSwapPkt s) ∧
      (flushSwapPkt s).data = s.data ∧ (flushSwapPkt s).swapTsPkt = none ∧
      ids.flatMap s.data = written ∧
      ∀ id ∈ ids.dropLast, (s.data id).length = tsUnitsMaxSize := by
  unfold flushSwapPkt
  cases hswap : s.swapTsPkt with
  | none =>
    obtain ⟨hbuild, hwritten⟩ := (none_iff hswap).mp h
    refine ⟨lists .swap, ?_, ?_, hbuild.kept, rfl, hswap, hwritten,
      fun id hid => hbuild.full id (mem_of_mem_dropLast hid)⟩
    · rw [update_eq_self]
      exact hbuild.tracked
    · rw [update_eq_self]
      exact hbuild.counted
  | some id =>
    obtain ⟨hfill, hpos⟩ := (some_iff hswap).mp h
    have hfree : Place.free ≠ .swap := nofun
    have hchannel : ∀ k, Place.channel k ≠ .swap := fun _ => nofun
    dsimp only
    rw [if_pos hpos]
    have hadd := hfill.tracked.add_tail (mem_univ Place.swap) hfill.out
    refine ⟨lists .swap ++ [id], hadd.congr rfl rfl, ⟨?_, hfill.counted.free_le, fun k => ?_⟩,
      hfill.kept.trans ⟨rfl, rfl, rfl⟩, rfl, rfl, ?_, ?_⟩
    · rw [update_of_ne hfree]
      exact hfill.counted.free
    · rw [update_of_ne (hchannel k)]
      exact hfill.counted.channel k
    · rw [flatMap_append, flatMap_singleton]
      exact hfill.written
    · rw [dropLast_concat]
      exact hfill.full

theorem Packing.channels :
    (∀ k, lists (.channel k) = lists0 (.channel k)) ∧
      ∀ k, ∀ id ∈ lists0 (.channel k), s.data id = s0.data id := by
  cases hswap : s.swapTsPkt with
  | none =>
    obtain ⟨hbuild, -⟩ := (none_iff hswap).mp h
    exact ⟨hbuild.channel, hbuild.data⟩
  | some id =>
    obtain ⟨hfill, -⟩ := (some_iff hswap).mp h
    exact ⟨hfill.channel, hfill.data⟩

theorem Packing.finish (k : Fin 32) :
    ∃ s' lists' new, tsAddDataEnd s k = some s' ∧ Resting s' lists' ∧
      s'.info = moreUnits s0 k new.length ∧ s'.inited = s0.inited ∧
      lists' (.channel k) = lists0 (.channel k) ++ new ∧ new.flatMap s'.data = written ∧
      (∀ id ∈ new.dropLast, (s'.data id).length = tsUnitsMaxSize) ∧
      ∀ id ∈ lists0 (.channel k), s'.data id = s0.data id := by
  obtain ⟨hchannels, hdata⟩ := h.channels
  obtain ⟨new, htracked, hcounted, hkept, hdata1, hswap1, hbytes, hfull⟩ := h.flush
  obtain ⟨s', lists', hrun, htracked', hcounted', hnil, hlist, hinfo, hdata', hinited, hsending,
    hswap'⟩ := htracked.hand_over hcounted k
  have hchannel : Place.channel k ≠ .swap := nofun
  rw [update_self, update_of_ne hchannel, hchannels k] at hlist
  rw [update_self] at hinfo
  rw [← held_eq hsending] at htracked'
  refine ⟨s', lists', new, hrun, ⟨htracked', hcounted', hnil, hswap'.trans hswap1⟩, ?_,
    hinited.trans hkept.inited, hlist, ?_, ?_, ?_⟩
  · rw [hinfo, moreUnits, moreUnits, hkept.info]
  · rw [hdata', hdata1]
    exact hbytes
  · rw [hdata', hdata1]
    exact hfull
  · rw [hdata', hdata1]
    exact hdata k

theorem Packing.abandon :
    ∃ s' lists', tsAddDataAbandom s = some s' ∧ Resting s' lists' ∧ Kept s0 s' ∧
      (∀ k, lists' (.channel k) = lists0 (.channel k)) ∧
      ∀ k, ∀ id ∈ lists0 (.channel k), s'.data id = s0.data id := by
  obtain ⟨hchannels, hdata⟩ := h.channels
  have hdrop : ∃ lists1, Tracked (dropSwapPkt s) univ lists1 (held (dropSwapPkt s)) ∧
      Counted (dropSwapPkt s) lists1 ∧ Kept s0 (dropSwapPkt s) ∧
      (dropSwapPkt s).data = s.data ∧ (dropSwapPkt s).swapTsPkt = none ∧
      ∀ k, lists1 (.channel k) = lists (.channel k) := by
    unfold dropSwapPkt
    cases hswap : s.swapTsPkt with
    | none =>
      obtain ⟨hbuild, -⟩ := (none_iff hswap).mp h
      exact ⟨lists, hbuild.tracked, hbuild.counted, hbuild.kept, rfl, hswap, fun _ => rfl⟩
    | some id =>
      obtain ⟨hfill, -⟩ := (some_iff hswap).mp h
      have hchannel : ∀ k, Place.channel k ≠ .free := fun _ => nofun
      obtain ⟨hkept, hdata1, -, frees, htracked, hcounted⟩ :=
        free_spec hfill.tracked hfill.counted (mem_univ _) hfill.out
      have hheld : held { freeTsPkt s id with swapTsPkt := none } = held s := held_eq hkept.sending
      refine ⟨_, ?_, hcounted.congr rfl rfl, hfill.kept.trans ⟨hkept.info, hkept.inited,
        hkept.sending⟩, hdata1, rfl, fun k => update_of_ne (hchannel k) _ _⟩
      rw [hheld]
      exact htracked.congr rfl rfl
  obtain ⟨lists1, htracked, hcounted, hkept, hdata1, hswap1, hlists1⟩ := hdrop
  obtain ⟨s', lists', hrun, hmoved, htracked', hcounted', hnil, hother⟩ :=
    htracked.give_back hcounted
  rw [← held_eq hmoved.sending] at htracked'
  refine ⟨s', lists', hrun, ⟨htracked', hcounted', hnil, hmoved.swapTsPkt.trans hswap1⟩,
    hkept.trans hmoved.toKept, fun k => (hother k).trans ((hlists1 k).trans (hchannels k)), ?_⟩
  rw [hmoved.data, hdata1]
  exact hdata

end

/-! ## `libpes_stream_pack` -/

theorem Resting.holds (h : Resting s lists) (place : Place) : HoldsUnits s place (lists place) :=
  ⟨h.tracked.family.ring place (mem_univ _), h.tracked.nodup (mem_univ _)⟩

theorem HoldsUnits.unique {place : Place} {ids ids' : List Nat} (h : HoldsUnits s place ids)
    (h' : HoldsUnits s place ids') : ids = ids' := by
  have hnot : ∀ ids : List Nat, Node.head place ∉ ids.map .unit := by
    intro ids hmem
    obtain ⟨_, -, heq⟩ := mem_map.mp hmem
    cases heq
  have hnodes := Path.unique h.1 h'.1 (hnot ids) (hnot ids')
  exact map_injective_iff.mpr (fun _ _ heq => Node.unit.inj heq) hnodes

theorem program_stream_eq {frameNum : BitVec 32}
    (hencType : encTypeOf element.encType = some encType)
    (hframeType : frameTypeOf element.frameType = some frameType) :
    (packPieces element encType frameType frameNum).flatten ++
        padding (packPieces element encType frameType frameNum) =
      programStream element frameNum := by
  unfold programStream padding
  rw [hencType, hframeType]
  dsimp only
  rw [length_flatten]
  generalize ((packPieces element encType frameType frameNum).map List.length).sum = n
  congr 1
  by_cases hzero : n % 2 ^ 32 % 4 = 0
  · rw [if_pos hzero, show (4 - n % 4) % 4 = 0 by omega]
    rfl
  · rw [if_neg hzero, show 4 - n % 2 ^ 32 % 4 = (4 - n % 4) % 4 by omega]

structure Packed (s s' : Libpes) (lists lists' : Place → List Nat) (k : Fin 32)
    (stream : List Byte) (result : PackResult) : Prop where
  resting : Resting s' lists'
  inited : s'.inited = s.inited
  data : ∀ id ∈ lists (.channel k), s'.data id = s.data id
  list : if result = .done then
      ∃ new, lists' (.channel k) = lists (.channel k) ++ new ∧ new.flatMap s'.data = stream ∧
        ∀ id ∈ new.dropLast, (s'.data id).length = tsUnitsMaxSize
    else lists' (.channel k) = lists (.channel k)

theorem Resting.error (h : Resting s lists) (k : Fin 32) (stream : List Byte) :
    Packed s s lists lists k stream .error :=
  ⟨h, rfl, fun _ _ => rfl, by rw [if_neg nofun]⟩

theorem Resting.congr (h : Resting s lists) (hlinks : s'.links = s.links)
    (hblocks : s'.blocks = s.blocks) (hfree : s'.freeTsPktNum = s.freeTsPktNum)
    (hswap : s'.swapTsPkt = s.swapTsPkt) (hsending : s'.sending = s.sending)
    (hinfo : ∀ k, (s'.info k).tsListPktNum = (s.info k).tsListPktNum) : Resting s' lists := by
  refine ⟨?_, ⟨hfree ▸ h.counted.free, hfree ▸ h.counted.free_le, fun k => ?_⟩, h.swap,
    hswap.trans h.swapTsPkt⟩
  · rw [held_eq hsending]
    exact h.tracked.congr hlinks hblocks
  · rw [hinfo k]
    exact h.counted.channel k

/-- The result is `done` exactly if all units were there. -/
theorem pack_frame_spec (h : Resting s lists) (k : Fin 32) (frameNum : BitVec 32)
    (hencType : encTypeOf element.encType = some encType)
    (hframeType : frameTypeOf element.frameType = some frameType) :
    ∃ result s' lists', packFrame s k element encType frameType frameNum = some (result, s') ∧
      Packed s s' lists lists' k (programStream element frameNum) result := by
  have habandon : ∀ {s1 lists1 written}, Packing s s1 lists lists1 written →
      ∃ result s' lists', (tsAddDataAbandom s1).map (PackResult.abandoned, ·) =
        some (result, s') ∧
        Packed s s' lists lists' k (programStream element frameNum) result := by
    intro s1 lists1 written hpack
    obtain ⟨s', lists', hrun, hresting, hkept, hchannels, hdata⟩ := hpack.abandon
    exact ⟨.abandoned, s', lists', by rw [hrun]; rfl, hresting, hkept.inited, hdata k,
      by rw [if_neg nofun]; exact hchannels k⟩
  unfold packFrame
  by_cases hroom : hasRoom (s.info k) element
  case neg =>
    rw [if_neg hroom]
    exact ⟨.error, s, lists, rfl, h.error k _⟩
  rw [if_pos hroom]
  obtain ⟨ok, s1, lists1, added, hadd, hpack, hall⟩ :=
    h.packing.add_pieces (packPieces element encType frameType frameNum) true
  dsimp only
  rw [hadd]
  cases ok with
  | false => exact habandon hpack
  | true =>
    obtain ⟨ok', s2, lists2, more, hpad, hpack', hmore⟩ := hpack.add_data (le_refl
      (padding (packPieces element encType frameType frameNum)).length)
    show ∃ result s' lists', (Option.bind (tsAddData _ _ s1) fun r =>
      if r.1 then (tsAddDataEnd r.2 k).map (PackResult.done, ·)
      else (tsAddDataAbandom r.2).map (PackResult.abandoned, ·)) = some (result, s') ∧ _
    rw [hpad]
    cases ok' with
    | false => exact habandon hpack'
    | true =>
      obtain ⟨s', lists', new, hrun, hresting, -, hinited, hlist, hbytes, hfull, hdata⟩ :=
        hpack'.finish k
      refine ⟨.done, s', lists', ?_, hresting, hinited, hdata, ?_⟩
      · show (tsAddDataEnd s2 k).map (PackResult.done, ·) = _
        rw [hrun]
        rfl
      · rw [if_pos rfl]
        refine ⟨new, hlist, ?_, hfull⟩
        rw [hbytes, (hall rfl).2, hmore rfl, nil_append, program_stream_eq hencType hframeType]

/-- `libpes_stream_pack` of a channel: the walks come to an end, and the list of the channel is as
the result says. -/
theorem pack_channel_spec (h : Resting s lists) (k : Fin 32) (element : StreamElement) :
    ∃ result s' lists', packChannel s k element = some (result, s') ∧
      Packed s s' lists lists' k (programStream element ((s.info k).frameNum + 1)) result := by
  have hrest : Resting (setInfo s k { s.info k with frameNum := (s.info k).frameNum + 1 })
      lists := by
    refine h.congr rfl rfl rfl rfl rfl fun j => ?_
    show (update s.info k _ j).tsListPktNum = _
    by_cases hj : j = k
    · subst hj
      rw [update_self]
    · rw [update_of_ne hj]
  unfold packChannel
  by_cases hconf : (s.info k).configured
  case neg =>
    rw [if_neg hconf]
    exact ⟨.error, s, lists, rfl, h.error k _⟩
  rw [if_pos hconf]
  have herror := hrest.error k (programStream element ((s.info k).frameNum + 1))
  cases hencType : encTypeOf element.encType with
  | none => exact ⟨.error, _, lists, rfl, hrest, rfl, herror.data, herror.list⟩
  | some encType =>
    cases hframeType : frameTypeOf element.frameType with
    | none => exact ⟨.error, _, lists, rfl, hrest, rfl, herror.data, herror.list⟩
    | some frameType =>
      obtain ⟨result, s', lists', hrun, hpacked⟩ :=
        pack_frame_spec hrest k ((s.info k).frameNum + 1) hencType hframeType
      exact ⟨result, s', lists', hrun, hpacked.resting, hpacked.inited, hpacked.data, hpacked.list⟩

end FullhanRtos.Pes
