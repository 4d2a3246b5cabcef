import FullhanRtos.Lib.BlockLists
import FullhanRtos.Pes.Units

/-!
# The lists of units

What the calls of `libpes` do to the lists. `Tracked` says which list each unit is on and which
units are held outside of the lists. The counters are in `Counted`.
-/

namespace FullhanRtos.Pes

open Bytes LinkedRing ListPair ListFamily Function Set
open List hiding Chain

def nodes (lists : Place → List Nat) (place : Place) : List Node := (lists place).map .unit

structure Tracked (s : Libpes) (live : Set Place) (lists : Place → List Nat) (loose : Set Nat) :
    Prop where
  family : Family s.links .head live (nodes lists)
  loose_out : ∀ id ∈ loose, ∀ place ∈ live, id ∉ lists place
  used : ∀ id, id ∈ s.blocks ↔ id ∈ loose ∨ ∃ place ∈ live, id ∈ lists place
  blocks_nodup : s.blocks.Nodup

/-- The counters. -/
structure Counted (s : Libpes) (lists : Place → List Nat) : Prop where
  free : s.freeTsPktNum = (lists .free).length
  free_le : s.freeTsPktNum ≤ freeCachedTsNumMax
  channel : ∀ k, (s.info k).tsListPktNum = (lists (.channel k)).length

variable {s s' : Libpes} {live : Set Place} {lists lists' : Place → List Nat} {loose : Set Nat}
  {place : Place} {id : Nat} {ids : List Nat} {s'' : Libpes}

theorem head_ne_unit (place : Place) (id : Nat) : Node.head place ≠ Node.unit id := nofun

def unitNodes : BlockLists.Nodes Node Place Nat where
  head := .head
  block := .unit
  head_injective _ _ h := Node.head.inj h
  block_injective _ _ h := Node.unit.inj h
  head_ne := head_ne_unit

theorem tracked_iff : Tracked s live lists loose ↔
    BlockLists.Tracked unitNodes s.links s.blocks live lists loose :=
  ⟨fun h => ⟨h.family, h.loose_out, h.used, h.blocks_nodup⟩,
    fun h => ⟨h.family, h.loose_out, h.used, h.blocks_nodup⟩⟩

theorem unit_mem {ids : List Nat} : Node.unit id ∈ Node.head place :: ids.map .unit ↔ id ∈ ids :=
  BlockLists.block_mem (N := unitNodes)

section

variable (h : Tracked s live lists loose)

include h

theorem Tracked.congr (hlinks : s'.links = s.links) (hblocks : s'.blocks = s.blocks) :
    Tracked s' live lists loose :=
  ⟨hlinks ▸ h.family, h.loose_out, by rw [hblocks]; exact h.used, hblocks ▸ h.blocks_nodup⟩

theorem Tracked.nodup (hlive : place ∈ live) :
    (lists place).Nodup :=
  (tracked_iff.mp h).nodup hlive

theorem Tracked.apart {place' : Place} (hlive : place ∈ live) (hlive' : place' ∈ live)
    (hne : place ≠ place') :
    List.Disjoint (lists place) (lists place') :=
  (tracked_iff.mp h).apart hlive hlive' hne

theorem Tracked.length_le (hlive : place ∈ live) :
    (lists place).length ≤ s.blocks.length :=
  (tracked_iff.mp h).length_le hlive

end

theorem Tracked.add_tail (h : Tracked s live lists (insert id loose)) (hlive : place ∈ live)
    (hout : id ∉ loose) :
    Tracked (listAddTail s place id) live (update lists place (lists place ++ [id]))
      loose :=
  tracked_iff.mpr ((tracked_iff.mp h).add_tail hlive hout)

/-- The first unit of a list is taken out. -/
theorem Tracked.list_del (h : Tracked s live lists loose) (hlive : place ∈ live)
    (hlist : lists place = id :: ids) :
    Tracked (listDel s id) live (update lists place ids) (insert id loose) ∧ id ∉ loose := by
  rw [tracked_iff]
  exact (tracked_iff.mp h).take_out hlive hlist (fun q hq => update_of_ne hq _ _)
    fun q hq => update_of_ne hq _ _

theorem Tracked.take_first (h : Tracked s live lists loose) (hlive : place ∈ live)
    (hlist : lists place = id :: ids) : takeFirst s place = some (id, listDel s id) := by
  have hnext : s.links.next (.head place) = .unit id := (tracked_iff.mp h).next_head hlive hlist
  unfold takeFirst
  rw [hnext]

theorem Tracked.free_block (h : Tracked s live lists (insert id loose)) (hout : id ∉ loose) :
    Tracked (freeBlock s id) live lists loose :=
  tracked_iff.mpr ((tracked_iff.mp h).free_block hout)

/-- A unit that `malloc` gives out is held. -/
theorem Tracked.new_block (h : Tracked s live lists loose) (hnew : id ∉ s.blocks)
    (hlinks : s'.links = s.links) (hblocks : s'.blocks = id :: s.blocks) :
    Tracked s' live lists (insert id loose) ∧ id ∉ loose := by
  rw [tracked_iff, hlinks, hblocks]
  exact (tracked_iff.mp h).new_block hnew

theorem malloc_cases (s : Libpes) : ∃ rest,
    malloc s = (none, { s with mallocs := rest }) ∨
    ∃ id, id ∉ s.blocks ∧
      malloc s = (some id, { s with mallocs := rest, blocks := id :: s.blocks }) := by
  obtain ⟨links, buf, num, swap, info, inited, blocks, mallocs, sending⟩ := s
  cases mallocs with
  | nil => exact ⟨[], .inl rfl⟩
  | cons answer rest =>
    refine ⟨rest, ?_⟩
    unfold malloc
    dsimp only
    cases hanswer : answer.filter (· ∉ blocks) with
    | none => exact .inl rfl
    | some id =>
      obtain ⟨-, hfree⟩ := Option.filter_eq_some_iff.mp hanswer
      exact .inr ⟨id, of_decide_eq_true hfree, rfl⟩

/-- What a call keeps that only moves units. -/
structure Kept (s s' : Libpes) : Prop where
  info : s'.info = s.info
  inited : s'.inited = s.inited
  sending : s'.sending = s.sending

theorem Kept.trans (h : Kept s s') (h' : Kept s' s'') : Kept s s'' :=
  ⟨h'.info.trans h.info, h'.inited.trans h.inited, h'.sending.trans h.sending⟩

theorem Counted.congr (h : Counted s lists) (hinfo : s'.info = s.info)
    (hfree : s'.freeTsPktNum = s.freeTsPktNum) : Counted s' lists :=
  ⟨hfree ▸ h.free, hfree ▸ h.free_le, by rw [hinfo]; exact h.channel⟩

theorem Counted.set_free (h : Counted s lists) (hinfo : s'.info = s.info)
    (hfree : s'.freeTsPktNum = ids.length) (hle : s'.freeTsPktNum ≤ freeCachedTsNumMax) :
    Counted s' (update lists .free ids) := by
  refine ⟨?_, hle, fun k => ?_⟩
  · rw [update_self, hfree]
  · have hne : Place.channel k ≠ .free := nofun
    rw [update_of_ne hne, hinfo]
    exact h.channel k

theorem alloc_spec (h : Tracked s live lists loose) (hc : Counted s lists)
    (hlive : .free ∈ live) :
    ∃ s', Kept s s' ∧ s'.swapTsPkt = s.swapTsPkt ∧
      (allocTsPkt s = some (none, s') ∧ Tracked s' live lists loose ∧ Counted s' lists ∧
          s'.data = s.data ∨
        ∃ id frees, allocTsPkt s = some (some id, s') ∧
          Tracked s' live (update lists .free frees) (insert id loose) ∧ id ∉ loose ∧
          Counted s' (update lists .free frees) ∧
          s'.data = update s.data id []) := by
  unfold allocTsPkt
  cases hfree : lists .free with
  | nil =>
    have hsame : update lists .free [] = lists := by
      rw [← hfree, update_eq_self]
    have hempty : s.links.isEmpty (.head .free) = true :=
      (h.family.is_empty_iff hlive).mpr (congrArg (List.map Node.unit) hfree)
    rw [if_pos hempty]
    obtain ⟨rest, hnone | ⟨id, hnew, hsome⟩⟩ := malloc_cases s
    · rw [hnone]
      exact ⟨{ s with mallocs := rest }, ⟨rfl, rfl, rfl⟩, rfl,
        .inl ⟨rfl, h.congr rfl rfl, hc.congr rfl rfl, rfl⟩⟩
    · obtain ⟨htracked, hout⟩ : Tracked (setData { s with
          mallocs := rest, blocks := id :: s.blocks } id []) live lists (insert id loose) ∧
            id ∉ loose := h.new_block hnew rfl rfl
      rw [hsome]
      refine ⟨setData { s with mallocs := rest, blocks := id :: s.blocks } id [],
        ⟨rfl, rfl, rfl⟩, rfl, .inr ⟨id, [], rfl, ?_, hout, ?_, rfl⟩⟩
      · rw [hsame]
        exact htracked
      · rw [hsame]
        exact hc.congr rfl rfl
  | cons id frees =>
    have hempty : ¬ s.links.isEmpty (.head .free) = true := by
      rw [h.family.is_empty_iff hlive, nodes, hfree]
      exact cons_ne_nil _ _
    obtain ⟨htracked, hout⟩ := h.list_del hlive hfree
    have hcount : s.freeTsPktNum = frees.length + 1 := by
      rw [hc.free, hfree]
      rfl
    rw [if_neg hempty, h.take_first hlive hfree]
    refine ⟨setData { listDel s id with freeTsPktNum := s.freeTsPktNum - 1 } id [],
      ⟨rfl, rfl, rfl⟩, rfl, .inr ⟨id, frees, rfl, ?_, hout, ?_, rfl⟩⟩
    · exact htracked.congr rfl rfl
    · refine hc.set_free rfl ?_ ?_
      · exact Nat.sub_eq_of_eq_add hcount
      · exact (Nat.sub_le _ 1).trans hc.free_le

theorem free_spec (h : Tracked s live lists (insert id loose)) (hc : Counted s lists)
    (hlive : .free ∈ live) (hout : id ∉ loose) :
    Kept s (freeTsPkt s id) ∧ (freeTsPkt s id).data = s.data ∧
      (freeTsPkt s id).swapTsPkt = s.swapTsPkt ∧
      ∃ frees, Tracked (freeTsPkt s id) live (update lists .free frees) loose ∧
        Counted (freeTsPkt s id) (update lists .free frees) := by
  unfold freeTsPkt
  by_cases hroom : s.freeTsPktNum < freeCachedTsNumMax
  · rw [if_pos hroom]
    refine ⟨⟨rfl, rfl, rfl⟩, rfl, rfl, lists .free ++ [id],
      (h.add_tail hlive hout).congr rfl rfl, ?_⟩
    refine hc.set_free rfl ?_ hroom
    rw [length_append, ← hc.free]
    rfl
  · rw [if_neg hroom]
    refine ⟨⟨rfl, rfl, rfl⟩, rfl, rfl, lists .free, ?_⟩
    rw [update_eq_self]
    exact ⟨h.free_block hout, hc.congr rfl rfl⟩

/-! ## Walks -/

/-- What a call keeps that only links and frees units. -/
structure Moved (s s' : Libpes) : Prop extends Kept s s' where
  data : s'.data = s.data
  swapTsPkt : s'.swapTsPkt = s.swapTsPkt

theorem Moved.refl (s : Libpes) : Moved s s := ⟨⟨rfl, rfl, rfl⟩, rfl, rfl⟩

theorem Moved.trans (h : Moved s s') (h' : Moved s' s'') : Moved s s'' :=
  ⟨h.toKept.trans h'.toKept, h'.data.trans h.data, h'.swapTsPkt.trans h.swapTsPkt⟩

theorem Tracked.drain (visit : Nat → Libpes → Libpes) (J : Libpes → (Place → List Nat) → Prop)
    (hlive : place ∈ live)
    (hvisit : ∀ s lists id ids, Tracked s live lists loose → J s lists → lists place = id :: ids →
      ∃ lists', Tracked (visit id s) live lists' loose ∧ J (visit id s) lists' ∧ lists' place = ids)
    (h : Tracked s live lists loose) (hstart : J s lists) :
    ∃ s' lists', forEachUnit s place visit = some s' ∧ Tracked s' live lists' loose ∧
      J s' lists' ∧ lists' place = [] := by
  have hdrain := BlockLists.drain (N := unitNodes) Libpes.links Libpes.blocks (visitUnit visit)
    visit J (fun _ _ => rfl) hlive ?_ (tracked_iff.mp h) hstart
  · obtain ⟨s', lists', hrun, htracked, hend⟩ := hdrain
    exact ⟨s', lists', hrun, tracked_iff.mpr htracked, hend⟩
  · intro s lists id ids htracked hkept hlist
    obtain ⟨lists', htracked', hend⟩ := hvisit s lists id ids (tracked_iff.mpr htracked) hkept hlist
    exact ⟨lists', tracked_iff.mp htracked', hend⟩

theorem Tracked.free_units (h : Tracked s live lists loose) (hlive : place ∈ live) :
    ∃ s', forEachUnit s place (fun id s => freeBlock (listDel s id) id) = some s' ∧ Moved s s' ∧
      s'.freeTsPktNum = s.freeTsPktNum ∧
      Tracked s' live (update lists place []) loose := by
  have hdrain := Tracked.drain (fun id s => freeBlock (listDel s id) id)
    (fun s' lists' => Moved s s' ∧ s'.freeTsPktNum = s.freeTsPktNum ∧
      ∀ p ≠ place, lists' p = lists p)
    hlive ?_ h ⟨Moved.refl s, rfl, fun _ _ => rfl⟩
  · obtain ⟨s', lists', hrun, htracked, ⟨hmoved, hfree, hother⟩, hnil⟩ := hdrain
    have hlists : lists' = update lists place [] := by
      funext p
      by_cases hne : p = place
      · subst hne
        rw [update_self, hnil]
      · rw [update_of_ne hne, hother p hne]
    exact ⟨s', hrun, hmoved, hfree, hlists ▸ htracked⟩
  · rintro s1 lists1 id ids htracked ⟨hmoved, hfree, hother⟩ hlist
    obtain ⟨hdel, hout⟩ := htracked.list_del hlive hlist
    refine ⟨_, hdel.free_block hout, ⟨hmoved.trans ⟨⟨rfl, rfl, rfl⟩, rfl, rfl⟩, hfree, ?_⟩,
      update_self ..⟩
    intro p hne
    rw [update_of_ne hne]
    exact hother p hne

theorem Tracked.give_back (h : Tracked s univ lists loose) (hc : Counted s lists) :
    ∃ s' lists', forEachUnit s .swap (fun id s => freeTsPkt (listDel s id) id) = some s' ∧
      Moved s s' ∧ Tracked s' univ lists' loose ∧ Counted s' lists' ∧ lists' .swap = [] ∧
      ∀ k, lists' (.channel k) = lists (.channel k) := by
  have hswap : Place.swap ≠ .free := nofun
  have hchannel : ∀ k, Place.channel k ≠ .free ∧ Place.channel k ≠ .swap := fun _ => ⟨nofun, nofun⟩
  have hdrain := Tracked.drain (fun id s => freeTsPkt (listDel s id) id)
    (fun s' lists' => Moved s s' ∧ Counted s' lists' ∧
      ∀ k, lists' (.channel k) = lists (.channel k)) (mem_univ Place.swap) ?_ h
    ⟨Moved.refl s, hc, fun _ => rfl⟩
  · obtain ⟨s', lists', hrun, htracked, ⟨hmoved, hcounted, hother⟩, hnil⟩ := hdrain
    exact ⟨s', lists', hrun, hmoved, htracked, hcounted, hnil, hother⟩
  · rintro s1 lists1 id ids htracked ⟨hmoved, hcounted, hother⟩ hlist
    obtain ⟨hdel, hout⟩ := htracked.list_del (mem_univ _) hlist
    have hcounted' : Counted (listDel s1 id) (update lists1 .swap ids) := by
      refine ⟨?_, hcounted.free_le, fun k => ?_⟩
      · rw [update_of_ne hswap.symm]
        exact hcounted.free
      · rw [update_of_ne (hchannel k).2]
        exact hcounted.channel k
    obtain ⟨hkept, hdata, hpkt, frees, htracked', hcounted''⟩ :=
      free_spec hdel hcounted' (mem_univ _) hout
    have hmoved' : Moved s1 (freeTsPkt (listDel s1 id) id) :=
      ⟨⟨hkept.info, hkept.inited, hkept.sending⟩, hdata, hpkt⟩
    refine ⟨_, htracked', ⟨hmoved.trans hmoved', hcounted'', fun k => ?_⟩, ?_⟩
    · rw [update_of_ne (hchannel k).1, update_of_ne (hchannel k).2]
      exact hother k
    · rw [update_of_ne hswap, update_self]

/-- A list that is not linked, or empty, is made empty. -/
theorem Tracked.init (h : Tracked s live lists loose) (hempty : place ∈ live → lists place = []) :
    Tracked (initListHead s place) (insert place live) (update lists place []) loose :=
  tracked_iff.mpr ((tracked_iff.mp h).init hempty)

theorem Tracked.forget (h : Tracked s univ lists loose) (place : Place) :
    Tracked s {p | p ≠ place} lists (loose ∪ {id | id ∈ lists place}) := by
  refine ⟨h.family.mono (subset_univ _), ?out, ?used, h.blocks_nodup⟩
  case out =>
    rintro id (hid | hid) p hp hmem
    · exact h.loose_out id hid p (mem_univ p) hmem
    · exact h.apart (mem_univ p) (mem_univ place) hp hmem hid
  case used =>
    intro id
    rw [h.used id]
    constructor
    · rintro (hid | ⟨p, -, hmem⟩)
      · exact .inl (.inl hid)
      · by_cases hp : p = place
        · exact .inl (.inr (hp ▸ hmem))
        · exact .inr ⟨p, hp, hmem⟩
    · rintro ((hid | hid) | ⟨p, -, hmem⟩)
      · exact .inl hid
      · exact .inr ⟨place, mem_univ _, hid⟩
      · exact .inr ⟨p, mem_univ _, hmem⟩

def moreUnits (s : Libpes) (k : Fin 32) (n : Nat) : Fin 32 → VlcviewInfo :=
  update s.info k { s.info k with tsListPktNum := (s.info k).tsListPktNum + n }

/-- The walk of `ts_add_data_end` when it has put `moved` on the list of the channel and will visit
`ids`. The list that it walks along is not whole any more, but its units still lead to each
other. -/
structure HandingOver (s s' : Libpes) (lists : Place → List Nat) (loose : Set Nat) (k : Fin 32)
    (moved ids : List Nat) : Prop where
  split : lists .swap = moved ++ ids
  tracked : Tracked s' {p | p ≠ .swap}
    (update lists (.channel k) (lists (.channel k) ++ moved)) (loose ∪ {id | id ∈ ids})
  chain : Chain s'.links.next (.head .swap) (ids.map .unit)
  info : s'.info = moreUnits s k moved.length
  data : s'.data = s.data
  free : s'.freeTsPktNum = s.freeTsPktNum
  inited : s'.inited = s.inited
  sending : s'.sending = s.sending
  swapTsPkt : s'.swapTsPkt = s.swapTsPkt

/-- The visit of the next unit. -/
theorem HandingOver.step {k : Fin 32} {moved ids : List Nat} (hnodup : (lists .swap).Nodup)
    (hout : ∀ id ∈ lists .swap, id ∉ loose)
    (h : HandingOver s s' lists loose k moved (id :: ids)) :
    HandingOver s (handOver k id s') lists loose k (moved ++ [id]) ids := by
  have hchannel : Place.channel k ∈ {p | p ≠ Place.swap} := nofun
  have hids : (id :: ids).Nodup := by
    rw [h.split] at hnodup
    exact (nodup_append'.mp hnodup).2.1
  have hset : loose ∪ {id' | id' ∈ id :: ids} = insert id (loose ∪ {id' | id' ∈ ids}) := by
    ext id'
    simp only [mem_union, mem_ofPred_eq, mem_cons, mem_insert_iff]
    tauto
  have hnew : id ∉ loose ∪ {id' | id' ∈ ids} := by
    rintro (hin | hin)
    · refine hout id ?_ hin
      rw [h.split]
      exact mem_append_right _ mem_cons_self
    · exact (nodup_cons.mp hids).1 hin
  have htracked := h.tracked
  rw [hset] at htracked
  have hadd := htracked.add_tail hchannel hnew
  rw [update_self, update_idem, append_assoc] at hadd
  refine ⟨?split, hadd.congr rfl rfl, ?chain, ?info, h.data, h.free, h.inited, h.sending,
    h.swapTsPkt⟩
  case split => rw [h.split, append_assoc, singleton_append]
  case chain =>
    refine h.chain.2.congr fun q hq => ?_
    obtain ⟨id', hid', rfl⟩ := mem_map.mp hq
    have hne : Node.unit id' ≠ .unit id := by
      rintro heq
      exact (nodup_cons.mp hids).1 (Node.unit.inj heq ▸ hid')
    have hprev : Node.unit id' ≠ s'.links.prev (.head (.channel k)) := by
      intro heq
      have hmem := (htracked.family.ring _ hchannel).prev_mem mem_cons_self
      rw [← heq, nodes, unit_mem] at hmem
      exact htracked.loose_out id' (.inr (.inr hid')) _ hchannel hmem
    show (s'.links.insertBefore (.head (.channel k)) (.unit id)).next (.unit id') = _
    rw [Links.insert_before_next, if_neg hne, if_neg hprev]
  case info =>
    show update s'.info k { s'.info k with
      tsListPktNum := (s'.info k).tsListPktNum + 1 } = moreUnits s k (moved ++ [id]).length
    rw [h.info, moreUnits, moreUnits, update_idem, update_self, length_append, ← add_assoc]
    rfl

theorem Tracked.hand_over (h : Tracked s univ lists loose) (hc : Counted s lists)
    (k : Fin 32) :
    ∃ s' lists', (forEachUnit s .swap (handOver k)).map (initListHead · .swap) = some s' ∧
      Tracked s' univ lists' loose ∧ Counted s' lists' ∧ lists' .swap = [] ∧
      lists' (.channel k) = lists (.channel k) ++ lists .swap ∧
      s'.info = moreUnits s k (lists .swap).length ∧ s'.data = s.data ∧ s'.inited = s.inited ∧
      s'.sending = s.sending ∧ s'.swapTsPkt = s.swapTsPkt := by
  have hnodup := h.nodup (mem_univ Place.swap)
  have hout : ∀ id ∈ lists .swap, id ∉ loose :=
    fun id hid hin => h.loose_out id hin .swap (mem_univ _) hid
  have hfuel : ((lists .swap).map Node.unit).length ≤ s.blocks.length := by
    rw [length_map]
    exact h.length_le (mem_univ _)
  have hchain := h.family.chain (mem_univ Place.swap)
  have hstart : HandingOver s s lists loose k [] (lists .swap) := by
    refine ⟨rfl, ?_, hchain.2, ?_, rfl, rfl, rfl, rfl, rfl⟩
    · rw [append_nil, update_eq_self]
      exact h.forget .swap
    · exact (update_eq_self k s.info).symm
  have hrule := for_each_rule Libpes.links (.head .swap) (visitUnit (handOver k))
    (fun rest s' => ∃ moved ids, rest = ids.map .unit ∧ HandingOver s s' lists loose k moved ids)
    ?_ ⟨[], lists .swap, rfl, hstart⟩ hfuel
  · obtain ⟨s', hrun, moved, ids, hids, hend⟩ := hrule
    obtain rfl := map_eq_nil_iff.mp hids.symm
    have hsplit : moved = lists .swap := by rw [hend.split, append_nil]
    have hrun' : forEachUnit s .swap (handOver k) = some s' := by
      unfold forEachUnit
      rw [hchain.1]
      exact hrun
    have hnone : loose ∪ {id | id ∈ ([] : List Nat)} = loose := by
      ext id
      exact ⟨fun hin => hin.elim (fun hin => hin) fun hin => absurd hin not_mem_nil, .inl⟩
    have hall : insert Place.swap {p | p ≠ Place.swap} = univ :=
      eq_univ_of_forall fun p => (em (p = Place.swap)).imp_right fun hne => hne
    have htracked : Tracked (initListHead s' .swap) _ _ _ :=
      hend.tracked.init fun hin => absurd rfl hin
    rw [hnone, hall] at htracked
    have hinfo := hend.info
    rw [hsplit] at htracked hinfo
    have hswap : ∀ j, Place.channel j ≠ .swap := fun _ => nofun
    refine ⟨initListHead s' .swap, _, ?_, htracked, ⟨?_, ?_, fun j => ?_⟩, update_self ..,
      ?_, hinfo, hend.data, hend.inited, hend.sending, hend.swapTsPkt⟩
    · rw [hrun']
      rfl
    · have hfree : Place.free ≠ .swap := nofun
      have hother : Place.free ≠ .channel k := nofun
      rw [update_of_ne hfree, update_of_ne hother, ← hc.free]
      exact hend.free
    · exact (le_of_eq hend.free).trans hc.free_le
    · show (s'.info j).tsListPktNum = _
      rw [hinfo, update_of_ne (hswap j), moreUnits]
      by_cases hj : j = k
      · subst hj
        rw [update_self, update_self, length_append, hc.channel]
      · have hne : Place.channel j ≠ .channel k := fun heq => hj (Place.channel.inj heq)
        rw [update_of_ne hj, update_of_ne hne]
        exact hc.channel j
    · rw [update_of_ne (hswap k), update_self]
  · rintro p rest s' ⟨moved, ids, hrest, hmid⟩
    cases ids with
    | nil => exact absurd hrest (cons_ne_nil _ _)
    | cons id ids =>
      obtain ⟨rfl, rfl⟩ := List.cons.inj hrest
      exact ⟨nofun, hmid.chain.1, _, rfl, moved ++ [id], ids, rfl, hmid.step hnodup hout⟩

end FullhanRtos.Pes
