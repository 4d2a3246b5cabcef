import FullhanRtos.Pes.Packing

/-!
# Runs of `libpes`

All calls of the module, and the thread that sends, in any order: the lists and their counters stay
in order, no walk along a list gets lost, and every pack does to its channel what its result says.
-/

namespace FullhanRtos.Pes

open Bytes LinkedRing ListPair ListFamily Transition Function List Set

/-- `info` after `channel_info_reset`. -/
def noInfo : VlcviewInfo := ⟨0, false, 0, 0⟩

/-- The module is not initialised: either its lists are empty, or no list is linked yet. -/
structure Off (s : Libpes) (live : Set Place) : Prop where
  tracked : Tracked s live (fun _ => []) ∅
  live : live = univ ∨ ∀ place, place ∉ live ∧ s.links.next (.head place) = .null
  free : s.freeTsPktNum = 0
  swapTsPkt : s.swapTsPkt = none
  sending : s.sending = none
  info : ∀ k, s.info k = noInfo

/-- The module between two calls. -/
def RunsInv (s : Libpes) : Prop :=
  (s.inited = false ∧ ∃ live, Off s live) ∨ (s.inited = true ∧ ∃ lists, Resting s lists)

variable {s s' : Libpes} {live : Set Place} {lists lists' : Place → List Nat} {loose : Set Nat}
  {k : Fin 32}

/-- What `channel_info_reset` keeps, for any number of channels. -/
structure ResetKeeps (s s' : Libpes) (lists lists' : Place → List Nat) : Prop where
  data : s'.data = s.data
  freeNum : s'.freeTsPktNum = s.freeTsPktNum
  swapTsPkt : s'.swapTsPkt = s.swapTsPkt
  inited : s'.inited = s.inited
  sending : s'.sending = s.sending
  free : lists' .free = lists .free
  swap : lists' .swap = lists .swap
  info : ∀ k, (lists' (.channel k) = lists (.channel k) ∧ s'.info k = s.info k) ∨
    (lists' (.channel k) = [] ∧ s'.info k = noInfo)

theorem ResetKeeps.trans {s'' : Libpes} {lists'' : Place → List Nat}
    (h : ResetKeeps s s' lists lists') (h' : ResetKeeps s' s'' lists' lists'') :
    ResetKeeps s s'' lists lists'' := by
  refine ⟨h'.data.trans h.data, h'.freeNum.trans h.freeNum, h'.swapTsPkt.trans h.swapTsPkt,
    h'.inited.trans h.inited, h'.sending.trans h.sending, h'.free.trans h.free,
    h'.swap.trans h.swap, fun k => ?_⟩
  rcases h'.info k with ⟨hlist', hinfo'⟩ | hreset
  · rcases h.info k with ⟨hlist, hinfo⟩ | ⟨hlist, hinfo⟩
    · exact .inl ⟨hlist'.trans hlist, hinfo'.trans hinfo⟩
    · exact .inr ⟨hlist'.trans hlist, hinfo'.trans hinfo⟩
  · exact .inr hreset

theorem reset_keeps_info (lists : Place → List Nat) (k : Fin 32) (hmoved : Moved s s')
    (hfree : s'.freeTsPktNum = s.freeTsPktNum) :
    ResetKeeps s (setInfo s' k noInfo) lists (update lists (.channel k) []) ∧
      (setInfo s' k noInfo).info k = noInfo := by
  have hne : Place.free ≠ .channel k ∧ Place.swap ≠ .channel k := ⟨nofun, nofun⟩
  refine ⟨⟨hmoved.data, hfree, hmoved.swapTsPkt, hmoved.inited, hmoved.sending,
    update_of_ne hne.1 _ _, update_of_ne hne.2 _ _, fun j => ?_⟩,
    update_self ..⟩
  by_cases hj : j = k
  · subst hj
    exact .inr ⟨update_self .., update_self ..⟩
  · have hchannel : Place.channel j ≠ .channel k := fun heq => hj (Place.channel.inj heq)
    refine .inl ⟨update_of_ne hchannel _ _, ?_⟩
    exact (update_of_ne hj _ _).trans (congrFun hmoved.info j)

theorem channel_reset_linked (h : Tracked s live lists loose) (hlive : .channel k ∈ live) :
    ∃ s', channelInfoReset s k = some s' ∧
      Tracked s' live (update lists (.channel k) []) loose ∧
      ResetKeeps s s' lists (update lists (.channel k) []) ∧ s'.info k = noInfo := by
  obtain ⟨s1, hrun, hmoved, hfree, htracked⟩ := h.free_units hlive
  have hnull : ¬ s.links.next (.head (.channel k)) = .null := by
    have hmem := (h.family.ring _ hlive).next_mem mem_cons_self
    intro hnull
    rw [hnull, mem_cons, nodes, mem_map] at hmem
    rcases hmem with heq | ⟨_, -, heq⟩
    · cases heq
    · cases heq
  obtain ⟨hkeeps, hinfo⟩ := reset_keeps_info lists k hmoved hfree
  refine ⟨setInfo s1 k noInfo, ?_, htracked.congr rfl rfl, hkeeps, hinfo⟩
  unfold channelInfoReset
  rw [if_neg hnull, hrun]
  rfl

theorem channel_reset_null (h : Tracked s live lists loose) (hlive : .channel k ∉ live)
    (hnull : s.links.next (.head (.channel k)) = .null) :
    channelInfoReset s k = some (setInfo (initListHead s (.channel k)) k noInfo) ∧
      Tracked (setInfo (initListHead s (.channel k)) k noInfo) (insert (.channel k) live)
        (update lists (.channel k) []) loose ∧
      ResetKeeps s (setInfo (initListHead s (.channel k)) k noInfo) lists
        (update lists (.channel k) []) ∧
      (setInfo (initListHead s (.channel k)) k noInfo).info k = noInfo := by
  have hmoved : Moved s (initListHead s (.channel k)) := ⟨⟨rfl, rfl, rfl⟩, rfl, rfl⟩
  obtain ⟨hkeeps, hinfo⟩ := reset_keeps_info lists k hmoved rfl
  refine ⟨?_, (h.init fun hin => absurd hin hlive).congr rfl rfl, hkeeps, hinfo⟩
  unfold channelInfoReset
  rw [if_pos hnull]
  rfl

theorem reset_linked (h : Tracked s univ lists loose) (ks : List (Fin 32)) :
    ∃ s' lists', resetChannels ks s = some s' ∧ Tracked s' univ lists' loose ∧
      ResetKeeps s s' lists lists' ∧ ∀ k ∈ ks, lists' (.channel k) = [] ∧ s'.info k = noInfo := by
  induction ks generalizing s lists with
  | nil =>
    exact ⟨s, lists, rfl, h, ⟨rfl, rfl, rfl, rfl, rfl, rfl, rfl, fun _ => .inl ⟨rfl, rfl⟩⟩, nofun⟩
  | cons k ks ih =>
    obtain ⟨s1, hrun, htracked, hkeeps, hinfo⟩ := channel_reset_linked (k := k) h (mem_univ _)
    obtain ⟨s', lists', hrest, htracked', hkeeps', hall⟩ := ih htracked
    refine ⟨s', lists', ?_, htracked', hkeeps.trans hkeeps', fun j hj => ?_⟩
    · rw [resetChannels, hrun]
      exact hrest
    · rcases mem_cons.mp hj with rfl | hj
      · rcases hkeeps'.info j with ⟨hlist, hsame⟩ | hreset
        · rw [hlist, hsame]
          exact ⟨update_self .., hinfo⟩
        · exact hreset
      · exact hall j hj

theorem reset_null (h : Tracked s live lists loose) {ks : List (Fin 32)} (hnodup : ks.Nodup)
    (hnull : ∀ k ∈ ks, .channel k ∉ live ∧ s.links.next (.head (.channel k)) = .null) :
    ∃ s' lists', resetChannels ks s = some s' ∧
      Tracked s' (live ∪ {place | ∃ k ∈ ks, place = .channel k}) lists' loose ∧
      ResetKeeps s s' lists lists' ∧ ∀ k ∈ ks, lists' (.channel k) = [] ∧ s'.info k = noInfo := by
  induction ks generalizing s live lists with
  | nil =>
    have hsame : live ∪ {place | ∃ k ∈ ([] : List (Fin 32)), place = .channel k} = live :=
      union_eq_left.mpr fun place hplace => by
        obtain ⟨k, hk, -⟩ := hplace
        exact absurd hk not_mem_nil
    refine ⟨s, lists, rfl, ?_, ⟨rfl, rfl, rfl, rfl, rfl, rfl, rfl, fun _ => .inl ⟨rfl, rfl⟩⟩, nofun⟩
    rw [hsame]
    exact h
  | cons k ks ih =>
    obtain ⟨hnot, hnodup⟩ := nodup_cons.mp hnodup
    obtain ⟨hlive, hhead⟩ := hnull k mem_cons_self
    obtain ⟨hrun, htracked, hkeeps, hinfo⟩ := channel_reset_null h hlive hhead
    have hnull' : ∀ j ∈ ks, Place.channel j ∉ insert (.channel k) live ∧
        (setInfo (initListHead s (.channel k)) k noInfo).links.next (.head (.channel j)) =
          .null := by
      intro j hj
      obtain ⟨hjlive, hjhead⟩ := hnull j (mem_cons_of_mem _ hj)
      have hne : j ≠ k := fun heq => hnot (heq ▸ hj)
      have hplace : Place.channel j ≠ .channel k := fun heq => hne (Place.channel.inj heq)
      refine ⟨fun hin => hjlive (mem_of_mem_insert_of_ne hin hplace), ?_⟩
      show (s.links.init (.head (.channel k))).next (.head (.channel j)) = .null
      rw [Links.init_next, if_neg fun heq => hplace (Node.head.inj heq)]
      exact hjhead
    obtain ⟨s', lists', hrest, htracked', hkeeps', hall⟩ := ih htracked hnodup hnull'
    have hset : insert (Place.channel k) live ∪ {place | ∃ k ∈ ks, place = .channel k} =
        live ∪ {place | ∃ j ∈ k :: ks, place = .channel j} := by
      ext place
      simp only [mem_union, Set.mem_insert_iff, mem_ofPred_eq, mem_cons, exists_eq_or_imp]
      tauto
    refine ⟨s', lists', ?_, hset ▸ htracked', hkeeps.trans hkeeps', fun j hj => ?_⟩
    · rw [resetChannels, hrun]
      exact hrest
    · rcases mem_cons.mp hj with rfl | hj
      · rcases hkeeps'.info j with ⟨hlist, hsame⟩ | hreset
        · rw [hlist, hsame]
          exact ⟨update_self .., hinfo⟩
        · exact hreset
      · exact hall j hj

/-! ## Steps -/

theorem lists_eq_nil (hfree : lists .free = []) (hswap : lists .swap = [])
    (hchannel : ∀ k, lists (.channel k) = []) : lists = fun _ => [] := by
  funext place
  cases place with
  | free => exact hfree
  | swap => exact hswap
  | channel k => exact hchannel k

theorem held_none (h : s.sending = none) : held s = ∅ := by
  unfold held
  rw [h]
  exact eq_empty_of_forall_notMem fun _ => nofun

theorem resting_empty (htracked : Tracked s univ lists ∅) (hsending : s.sending = none)
    (hfree : s.freeTsPktNum = 0) (hswap : s.swapTsPkt = none) (hnil : lists = fun _ => [])
    (hinfo : ∀ k, s.info k = noInfo) : Resting s fun _ => [] := by
  subst hnil
  refine ⟨?_, ⟨hfree, ?_, fun k => ?_⟩, rfl, hswap⟩
  · rw [held_none hsending]
    exact htracked
  · rw [hfree]
    exact Nat.zero_le _
  · rw [hinfo k]
    rfl

theorem init_resting (h : Off s live) (hinited : s.inited = false) :
    ∃ s', libpesInit s true = some s' ∧ s'.inited = true ∧ Resting s' fun _ => [] := by
  have hconst : ∀ place,
      update (fun _ : Place => ([] : List Nat)) place [] = fun _ => [] :=
    fun place => update_eq_self place _
  have hheads : Tracked (initListHead (initListHead s .free) .swap)
      (insert .swap (insert .free live)) (fun _ => []) ∅ := by
    have hfirst : Tracked (initListHead s .free) (insert .free live) _ ∅ :=
      h.tracked.init fun _ => rfl
    rw [hconst] at hfirst
    have hsecond : Tracked (initListHead (initListHead s .free) .swap) _ _ ∅ :=
      hfirst.init fun _ => rfl
    rwa [hconst] at hsecond
  have hreset : ∃ s' lists', resetChannels (finRange 32)
      (initListHead (initListHead s .free) .swap) = some s' ∧ Tracked s' univ lists' ∅ ∧
      ResetKeeps (initListHead (initListHead s .free) .swap) s' (fun _ => []) lists' ∧
      ∀ k ∈ finRange 32, lists' (.channel k) = [] ∧ s'.info k = noInfo := by
    rcases h.live with rfl | hnull
    · have hall : insert Place.swap (insert Place.free univ) = univ :=
        eq_univ_of_forall fun place => .inr (.inr (mem_univ place))
      rw [hall] at hheads
      exact reset_linked hheads _
    · obtain ⟨s', lists', hrun, htracked, hkeeps⟩ :=
        reset_null hheads (nodup_finRange 32) fun k _ => by
          obtain ⟨hnot, hhead⟩ := hnull (.channel k)
          refine ⟨fun hin => hin.elim nofun fun hin => hin.elim nofun hnot, ?_⟩
          show ((s.links.init (.head .free)).init (.head .swap)).next _ = .null
          exact hhead
      have hall : insert Place.swap (insert Place.free live) ∪
          {place | ∃ k ∈ finRange 32, place = .channel k} = univ := by
        refine eq_univ_of_forall fun place => ?_
        cases place with
        | free => exact .inl (.inr (.inl rfl))
        | swap => exact .inl (.inl rfl)
        | channel k => exact .inr ⟨k, mem_finRange k, rfl⟩
      exact ⟨s', lists', hrun, hall ▸ htracked, hkeeps⟩
  obtain ⟨s', lists', hrun, htracked, hkeeps, hall⟩ := hreset
  have hnil := lists_eq_nil hkeeps.free hkeeps.swap fun k => (hall k (mem_finRange k)).1
  have hrest : Resting s' fun _ => [] :=
    resting_empty htracked (hkeeps.sending.trans h.sending) (hkeeps.freeNum.trans h.free)
      (hkeeps.swapTsPkt.trans h.swapTsPkt) hnil fun k => (hall k (mem_finRange k)).2
  refine ⟨{ s' with inited := true }, ?_, rfl, hrest.congr rfl rfl rfl rfl rfl fun _ => rfl⟩
  unfold libpesInit
  rw [if_pos ⟨by rw [hinited]; exact Bool.false_ne_true, rfl⟩, hrun]
  rfl

theorem uninit_off (h : Resting s lists) (hinited : s.inited = true) (hsending : s.sending = none) :
    ∃ s', libpesUninit s = some s' ∧ s'.inited = false ∧ Off s' univ := by
  obtain ⟨s1, lists1, hrun, htracked, hkeeps, hall⟩ := reset_linked h.tracked (finRange 32)
  obtain ⟨s2, hfree, hmoved, hnum, htracked'⟩ := htracked.free_units (mem_univ Place.free)
  have hnil : update lists1 .free [] = fun _ => [] := by
    have hswap : Place.swap ≠ .free := nofun
    have hchannel : ∀ k, Place.channel k ≠ .free := fun _ => nofun
    refine lists_eq_nil (update_self ..) ?_ fun k => ?_
    · rw [update_of_ne hswap, hkeeps.swap, h.swap]
    · rw [update_of_ne (hchannel k)]
      exact (hall k (mem_finRange k)).1
  rw [hnil, held_none hsending] at htracked'
  refine ⟨{ s2 with freeTsPktNum := 0, inited := false }, ?_, rfl, htracked'.congr rfl rfl,
    .inl rfl, rfl, hmoved.swapTsPkt.trans (hkeeps.swapTsPkt.trans h.swapTsPkt),
    hmoved.sending.trans (hkeeps.sending.trans hsending), fun k => ?_⟩
  · unfold libpesUninit
    rw [if_pos ⟨hinited, hsending⟩, hrun]
    show (forEachUnit s1 .free fun id s => freeBlock (listDel s id) id).map _ = _
    rw [hfree]
    rfl
  · exact (congrFun hmoved.info k).trans (hall k (mem_finRange k)).2

theorem send_to_vlc_spec (h : Resting s lists) (channel : Int) (ip : Bool) (port : Int) :
    ∃ s' lists', sendToVlc s channel ip port = some s' ∧ s'.inited = s.inited ∧
      Resting s' lists' := by
  unfold sendToVlc
  cases channelOf channel with
  | none => exact ⟨s, lists, rfl, rfl, h⟩
  | some k =>
    dsimp only
    by_cases hvalid : ip ∧ 0 < port ∧ port < 2 ^ 16 ∧ s.inited ∧ ¬ (s.info k).configured
    case neg =>
      rw [if_neg hvalid]
      exact ⟨s, lists, rfl, rfl, h⟩
    obtain ⟨s1, hrun, htracked, hkeeps, -⟩ :=
      channel_reset_linked h.tracked (mem_univ (Place.channel k))
    rw [if_pos hvalid, hrun]
    refine ⟨_, update lists (.channel k) [], rfl, hkeeps.inited, ?_,
      ⟨?_, ?_, fun j => ?_⟩, ?_, ?_⟩
    · rw [← held_eq hkeeps.sending] at htracked
      exact htracked.congr rfl rfl
    · exact hkeeps.freeNum.trans (h.counted.free.trans (congrArg List.length hkeeps.free.symm))
    · exact (le_of_eq hkeeps.freeNum).trans h.counted.free_le
    · have hcount : (s1.info j).tsListPktNum =
          (update lists (.channel k) [] (.channel j)).length := by
        rcases hkeeps.info j with ⟨hlist, hsame⟩ | ⟨hlist, hzero⟩
        · rw [hlist, hsame]
          exact h.counted.channel j
        · rw [hlist, hzero]
          rfl
      rw [← hcount]
      show (update s1.info k _ j).tsListPktNum = _
      by_cases hj : j = k
      · subst hj
        rw [update_self]
      · rw [update_of_ne hj]
    · exact hkeeps.swap.trans h.swap
    · exact hkeeps.swapTsPkt.trans h.swapTsPkt

/-- The thread takes the first unit of a channel. -/
theorem get_spec (h : Resting s lists) (k : Fin 32) (hsending : s.sending = none) :
    ∃ id s' lists', tsGet s k = some (id, s') ∧ s'.inited = s.inited ∧
      Resting { s' with sending := id } lists' := by
  unfold tsGet
  by_cases hready : (s.info k).configured ∧ ¬ s.links.isEmpty (.head (.channel k))
  case neg =>
    rw [if_neg hready]
    exact ⟨none, s, lists, rfl, rfl, h.congr rfl rfl rfl rfl hsending.symm fun _ => rfl⟩
  rw [if_pos hready]
  cases hlist : lists (.channel k) with
  | nil =>
    have hempty := (h.tracked.family.is_empty_iff (mem_univ (Place.channel k))).mpr
      (congrArg (List.map Node.unit) hlist)
    exact absurd hempty hready.2
  | cons id ids =>
    have hne : Place.free ≠ .channel k ∧ Place.swap ≠ .channel k := ⟨nofun, nofun⟩
    obtain ⟨htracked, -⟩ := h.tracked.list_del (mem_univ _) hlist
    rw [h.tracked.take_first (mem_univ _) hlist]
    refine ⟨some id, _, update lists (.channel k) ids, rfl, rfl, ?_,
      ⟨?_, h.counted.free_le, fun j => ?_⟩, ?_, h.swapTsPkt⟩
    · have hheld : insert id (held s) = {id' | some id = some id'} := by
        rw [held_none hsending, insert_empty_eq]
        ext id'
        exact ⟨fun heq => congrArg some (mem_singleton_iff.mp heq).symm,
          fun heq => (Option.some.inj heq).symm⟩
      rw [hheld] at htracked
      exact htracked.congr rfl rfl
    · rw [update_of_ne hne.1]
      exact h.counted.free
    · show (update s.info k _ j).tsListPktNum = _
      have hcount := h.counted.channel j
      by_cases hj : j = k
      · subst hj
        rw [update_self, update_self]
        rw [hlist] at hcount
        exact Nat.sub_eq_of_eq_add hcount
      · have hchannel : Place.channel j ≠ .channel k := fun heq => hj (Place.channel.inj heq)
        rw [update_of_ne hj, update_of_ne hchannel]
        exact hcount
    · rw [update_of_ne hne.2]
      exact h.swap

/-- The thread gives back the unit that it has sent. -/
theorem put_spec (h : Resting s lists) {id : Nat} (hsending : s.sending = some id) :
    (freeTsPkt s id).inited = s.inited ∧
      ∃ lists', Resting { freeTsPkt s id with sending := none } lists' := by
  have hheld : held s = insert id ∅ := by
    unfold held
    rw [hsending, insert_empty_eq]
    ext id'
    exact ⟨fun heq => (Option.some.inj heq).symm, fun hin => congrArg some hin.symm⟩
  have htracked := h.tracked
  rw [hheld] at htracked
  obtain ⟨hkept, -, hswap, frees, htracked', hcounted⟩ :=
    free_spec htracked h.counted (mem_univ _) (notMem_empty id)
  have hne : Place.swap ≠ .free := nofun
  refine ⟨hkept.inited, _, ?_, hcounted.congr rfl rfl, ?_, hswap.trans h.swapTsPkt⟩
  · have hnone : held { freeTsPkt s id with sending := none } = ∅ := held_none rfl
    rw [hnone]
    exact htracked'.congr rfl rfl
  · rw [update_of_ne hne]
    exact h.swap

theorem Off.congr (h : Off s live) (hlinks : s'.links = s.links) (hblocks : s'.blocks = s.blocks)
    (hfree : s'.freeTsPktNum = s.freeTsPktNum) (hswap : s'.swapTsPkt = s.swapTsPkt)
    (hsending : s'.sending = s.sending) (hinfo : s'.info = s.info) : Off s' live :=
  ⟨h.tracked.congr hlinks hblocks, by rw [hlinks]; exact h.live, hfree.trans h.free,
    hswap.trans h.swapTsPkt, hsending.trans h.sending, by rw [hinfo]; exact h.info⟩

/-- Without initialisation every pack ends at once. -/
theorem Off.stream_pack (h : Off s live) (channel : Int) (element : StreamElement) :
    streamPack s channel element = some (.error, s) := by
  unfold streamPack
  cases channelOf channel with
  | none => rfl
  | some k =>
    show packChannel s k element = _
    unfold packChannel
    rw [h.info k]
    rfl

theorem libpes_step_inv (s : Libpes) (op : LibpesOp) (h : RunsInv s) :
    ∃ s', libpesStep s op = some s' ∧ RunsInv s' := by
  rcases h with ⟨hinited, live, hoff⟩ | ⟨hinited, lists, hrest⟩
  case inl =>
    have hsame : RunsInv s := .inl ⟨hinited, live, hoff⟩
    have hnot : ¬ s.inited = true := by rw [hinited]; exact Bool.false_ne_true
    cases op with
    | init ok =>
      cases ok with
      | true =>
        obtain ⟨s', hrun, hon, hrest⟩ := init_resting hoff hinited
        exact ⟨s', hrun, .inr ⟨hon, _, hrest⟩⟩
      | false => exact ⟨s, if_neg fun h => Bool.false_ne_true h.2, hsame⟩
    | uninit => exact ⟨s, if_neg fun h => hnot h.1, hsame⟩
    | sendToVlc channel ip port =>
      refine ⟨s, ?_, hsame⟩
      show sendToVlc s channel ip port = some s
      unfold sendToVlc
      cases channelOf channel with
      | none => rfl
      | some k => exact if_neg fun h => hnot h.2.2.2.1
    | streamPack channel element mallocs =>
      have hoff' : Off { s with mallocs := mallocs } live := hoff.congr rfl rfl rfl rfl rfl rfl
      refine ⟨{ s with mallocs := mallocs }, ?_, .inl ⟨hinited, live, hoff'⟩⟩
      show (streamPack { s with mallocs := mallocs } channel element).map Prod.snd = _
      rw [hoff'.stream_pack]
      rfl
    | get k => exact ⟨s, if_neg fun h => hnot h.1, hsame⟩
    | put =>
      refine ⟨s, ?_, hsame⟩
      simp only [libpesStep, hoff.sending]
  case inr =>
    have hsame : RunsInv s := .inr ⟨hinited, lists, hrest⟩
    cases op with
    | init ok => exact ⟨s, if_neg fun h => h.1 hinited, hsame⟩
    | uninit =>
      by_cases hsending : s.sending = none
      · obtain ⟨s', hrun, hoff, hempty⟩ := uninit_off hrest hinited hsending
        exact ⟨s', hrun, .inl ⟨hoff, _, hempty⟩⟩
      · exact ⟨s, if_neg fun h => hsending h.2, hsame⟩
    | sendToVlc channel ip port =>
      obtain ⟨s', lists', hrun, hon, hrest'⟩ := send_to_vlc_spec hrest channel ip port
      exact ⟨s', hrun, .inr ⟨hon.trans hinited, lists', hrest'⟩⟩
    | streamPack channel element mallocs =>
      have hrest' : Resting { s with mallocs := mallocs } lists :=
        hrest.congr rfl rfl rfl rfl rfl fun _ => rfl
      show ∃ s', (streamPack { s with mallocs := mallocs } channel element).map Prod.snd =
        some s' ∧ _
      unfold streamPack
      cases channelOf channel with
      | none => exact ⟨_, rfl, .inr ⟨hinited, lists, hrest'⟩⟩
      | some k =>
        obtain ⟨result, s', lists', hrun, hpacked⟩ := pack_channel_spec hrest' k element
        refine ⟨s', ?_, .inr ⟨hpacked.inited.trans hinited, lists', hpacked.resting⟩⟩
        dsimp only
        rw [hrun]
        rfl
    | get k =>
      by_cases hsending : s.sending = none
      · obtain ⟨id, s', lists', hrun, hon, hrest'⟩ := get_spec hrest k hsending
        refine ⟨{ s' with sending := id }, ?_, .inr ⟨hon.trans hinited, lists', hrest'⟩⟩
        show (if s.inited ∧ s.sending = none then _ else some s) = _
        rw [if_pos ⟨hinited, hsending⟩, hrun]
        rfl
      · exact ⟨s, if_neg fun h => hsending h.2, hsame⟩
    | put =>
      unfold libpesStep
      cases hsending : s.sending with
      | none => exact ⟨s, rfl, hsame⟩
      | some id =>
        obtain ⟨hon, lists', hrest'⟩ := put_spec hrest hsending
        exact ⟨_, rfl, .inr ⟨hon.trans hinited, lists', hrest'⟩⟩

theorem libpes_start_inv : RunsInv libpesStart := by
  refine .inl ⟨rfl, ∅, ⟨⟨nofun, nofun, nofun⟩, nofun, fun id => ?_, nodup_nil⟩,
    .inr fun _ => ⟨nofun, rfl⟩, rfl, rfl, rfl, fun _ => rfl⟩
  exact ⟨nofun, fun h => h.elim nofun fun ⟨_, h, _⟩ => absurd h (notMem_empty _)⟩

/-! ## Results -/

theorem RunsInv.lists_ok (h : RunsInv s) : LibpesOk s := by
  intro hinited
  rcases h with ⟨hoff, -⟩ | ⟨-, lists, hrest⟩
  · rw [hoff] at hinited
    cases hinited
  · refine ⟨lists, hrest.holds, fun place place' => ?_, fun id hid place => ?_, hrest.counted.free,
      hrest.counted.free_le, hrest.counted.channel⟩
    · exact hrest.tracked.apart (mem_univ _) (mem_univ _)
    · exact hrest.tracked.loose_out id hid place (mem_univ _)

theorem Packed.pack_ok {s0 : Libpes} {element : StreamElement} {result : PackResult}
    (h : Packed s s' lists lists' k (programStream element ((s.info k).frameNum + 1)) result)
    (hrest : Resting s lists) (hlinks : s0.links = s.links) (hdata : s0.data = s.data)
    (hinfo : s0.info = s.info) : PackOk s0 k element result s' := by
  intro ids hids
  have hids' : HoldsUnits s (.channel k) ids := by
    unfold HoldsUnits at hids ⊢
    rw [← hlinks]
    exact hids
  obtain rfl := hids'.unique (hrest.holds (.channel k))
  have hheld := h.resting.holds (.channel k)
  rw [hdata, hinfo]
  refine ⟨h.data, ?_⟩
  have hlist := h.list
  by_cases hdone : result = .done
  · rw [if_pos hdone] at hlist ⊢
    obtain ⟨new, happend, hbytes⟩ := hlist
    rw [happend] at hheld
    exact ⟨new, hheld, hbytes⟩
  · rw [if_neg hdone] at hlist ⊢
    rw [hlist] at hheld
    exact hheld

theorem RunsInv.packs_ok (h : RunsInv s) (op : LibpesOp) : PacksOk s op := by
  intro channel element mallocs k result s' _ hk hrun
  rcases h with ⟨-, live, hoff⟩ | ⟨-, lists, hrest⟩
  · have hoff' : Off { s with mallocs := mallocs } live := hoff.congr rfl rfl rfl rfl rfl rfl
    rw [hoff'.stream_pack] at hrun
    obtain ⟨rfl, rfl⟩ := Prod.mk.inj (Option.some.inj hrun)
    intro ids hids
    refine ⟨fun _ _ => rfl, ?_⟩
    exact hids
  · have hrest' : Resting { s with mallocs := mallocs } lists :=
      hrest.congr rfl rfl rfl rfl rfl fun _ => rfl
    obtain ⟨result', s1, lists', hpack, hpacked⟩ := pack_channel_spec hrest' k element
    unfold streamPack at hrun
    rw [hk] at hrun
    obtain ⟨rfl, rfl⟩ := Prod.mk.inj (Option.some.inj (hpack.symm.trans hrun))
    exact hpacked.pack_ok hrest' rfl rfl rfl

/-- In every run every call comes to an end, the lists are in order at every moment, and every pack
appends its program stream to its channel or leaves the channel alone. -/
theorem units_ok (ops : List LibpesOp) :
    (∃ s, exec libpesStep libpesStart ops = some s) ∧
      Always libpesStep LibpesOk libpesStart ops ∧ AllSteps libpesStep PacksOk libpesStart ops := by
  have hall : AllSteps libpesStep (fun _ _ => True) libpesStart ops :=
    all_steps_of_forall (fun _ _ => trivial) libpesStart ops
  have hstep : ∀ s op s', RunsInv s → True → libpesStep s op = some s' → RunsInv s' := by
    intro s op s' hinv _ hrun
    obtain ⟨s1, hrun1, hinv1⟩ := libpes_step_inv s op hinv
    obtain rfl := Option.some.inj (hrun1.symm.trans hrun)
    exact hinv1
  obtain ⟨s, hrun, -⟩ :=
    exec_progress (fun s op hinv _ => libpes_step_inv s op hinv) libpes_start_inv hall
  refine ⟨⟨s, hrun⟩, ?_, ?_⟩
  · exact always_of_invariant hstep (fun s hinv => hinv.lists_ok) libpes_start_inv hall
  · exact AllSteps.of_invariant hstep (fun s op hinv _ => hinv.packs_ok op) libpes_start_inv hall

end FullhanRtos.Pes
