import FullhanRtos.Rtsp.Streams

/-!
# Runs of the server

Media packets that are queued on several clients, clients that come and go, and their requests.
`streams_ok` puts the calls together.
-/

namespace FullhanRtos.RtspServer

open Bytes ListPair ListFamily BlockLists Transition Function List Option Set
open Rtsp (RtpPacket)

variable {s s' : ServerContext} {lists lists' : PktList → List Nat} {held : Set Nat}
  {c id : Nat} {ids : List Nat} {list : PktList}

/-! ## Queueing -/

/-- The state is as it should be while a call has `held`, with the clients `clients`. -/
def Good (held : Set Nat) (clients : List Nat) (s : ServerContext) : Prop :=
  s.clientList = clients ∧ ∃ lists, ServerInv s lists held

/-- The packet that a call still has. -/
def heldPkt : Option Nat → Set Nat
  | none => ∅
  | some id => insert id ∅

variable {clients : List Nat} {pkt : Option Nat} {live : Set PktList}

theorem good_free_if (h : Good (heldPkt pkt) clients s) : Good ∅ clients (freeIf s pkt) := by
  cases pkt with
  | none => exact h
  | some id =>
    obtain ⟨hclients, lists, hinv⟩ := h
    exact ⟨hclients, _, free_spec hinv (notMem_empty id)⟩

theorem good_alloc (h : Good held clients s) :
    ∃ found s', allocPacket s = some (found, s') ∧
      match found with
      | none => Good held clients s'
      | some id => Good (insert id held) clients s' ∧ id ∉ held := by
  obtain ⟨hclients, lists, hinv⟩ := h
  obtain ⟨s', hsame, ⟨halloc, hinv'⟩ | ⟨id, frees, halloc, hinv', hout⟩⟩ := alloc_spec hinv
  · exact ⟨none, s', halloc, hsame.clientList.trans hclients, lists, hinv'⟩
  · exact ⟨some id, s', halloc, ⟨hsame.clientList.trans hclients, _, hinv'⟩, hout⟩

theorem good_set_buf (h : Good held clients s) (hid : id ∈ held) (bytes : List Byte) :
    Good held clients (setBuf s id bytes) := by
  obtain ⟨hclients, lists, hinv⟩ := h
  exact ⟨hclients, lists, hinv.set_buf hid bytes⟩

theorem pre_queue_spec (h : Good held clients s) :
    Good held clients (preQueuePacketOnClient s) := by
  have hloop : ∀ (rest : List Nat) (s : ServerContext), (∀ c ∈ rest, c ∈ clients) →
      Good held clients s → Good held clients (rest.foldl (fun s c => setClient s c
        { s.client c with blocked := maxPktsPerClient ≤ (s.client c).dataNum }) s) := by
    intro rest
    induction rest with
    | nil => exact fun s _ h => h
    | cons c rest ih =>
      intro s hsub h
      obtain ⟨hc, hrest⟩ := forall_mem_cons.mp hsub
      obtain ⟨hclients, lists, hinv⟩ := h
      exact ih _ hrest ⟨hclients, lists, hinv.set_client (hclients ▸ hc) rfl rfl rfl⟩
  unfold preQueuePacketOnClient
  rw [h.1]
  exact hloop clients s (fun _ hc => hc) h

theorem queue_loop_spec (origPkt : Nat) (rest : List Nat) (hsub : ∀ c ∈ rest, c ∈ clients)
    (h : Good (heldPkt pkt) clients s) :
    ∃ left s', queueLoop origPkt rest pkt s = some (left, s') ∧ Good (heldPkt left) clients s' := by
  induction rest generalizing pkt s with
  | nil => exact ⟨pkt, s, rfl, h⟩
  | cons c rest ih =>
    obtain ⟨hc, hrest⟩ := forall_mem_cons.mp hsub
    have hadd : ∀ s id, Good (insert id ∅) clients s →
        Good (heldPkt none) clients (addData s c id) := by
      rintro s id ⟨hclients, lists, hinv⟩
      exact ⟨hclients, _, add_data_spec hinv (notMem_empty id) (hclients ▸ hc)⟩
    unfold queueLoop
    by_cases htakes : takesMedia s c = true
    · rw [if_pos htakes]
      cases pkt with
      | some id => exact ih hrest (hadd s id h)
      | none =>
        obtain ⟨found, s1, halloc, hgood⟩ := good_alloc h
        unfold clonePacket
        rw [halloc]
        cases found with
        | none => exact ⟨none, s1, rfl, hgood⟩
        | some id =>
          have hbuf := good_set_buf hgood.1 (mem_insert id ∅) (s1.buf origPkt)
          exact ih hrest (hadd _ id hbuf)
    · rw [if_neg htakes]
      exact ih hrest h

theorem send_all_spec (rest : List Nat) (hsub : ∀ c ∈ rest, c ∈ clients) (h : Good held clients s) :
    ∃ s', sendAll rest s = some s' ∧ Good held clients s' := by
  induction rest generalizing s with
  | nil => exact ⟨s, rfl, h⟩
  | cons c rest ih =>
    obtain ⟨hc, hrest⟩ := forall_mem_cons.mp hsub
    rw [sendAll]
    by_cases htakes : takesMedia s c = true
    · obtain ⟨hclients, lists, hinv⟩ := h
      obtain ⟨ret, s1, hrun, hinv1, hclients1⟩ := send_client_spec hinv (hclients ▸ hc)
      rw [if_pos htakes, hrun]
      exact ih hrest ⟨hclients1.trans hclients, hinv1⟩
    · rw [if_neg htakes]
      exact ih hrest h

theorem queue_packet_spec (h : Good (insert id ∅) clients s) (isLastPkt : Bool) :
    ∃ s', queuePacketOnClient s id isLastPkt = some s' ∧ Good ∅ clients s' := by
  have hheld : Good (heldPkt (some id)) clients s := h
  obtain ⟨left, s1, hrun, hgood⟩ := queue_loop_spec id s.clientList (fun c hc => h.1 ▸ hc) hheld
  have hfree := good_free_if hgood
  unfold queuePacketOnClient
  rw [hrun, bind_some]
  cases isLastPkt with
  | false => exact ⟨_, rfl, hfree⟩
  | true => exact send_all_spec _ (fun c hc => hfree.1 ▸ hc) hfree

theorem push_loop_spec (packets : List RtpPacket) (h : Good ∅ clients s) :
    ∃ s', pushLoop packets s = some s' ∧ Good ∅ clients s' := by
  induction packets generalizing s with
  | nil => exact ⟨s, rfl, h⟩
  | cons packet packets ih =>
    obtain ⟨found, s1, halloc, hgood⟩ := good_alloc h
    rw [pushLoop, halloc, bind_some]
    cases found with
    | none => exact ⟨s1, rfl, hgood⟩
    | some id =>
      have hbuf := good_set_buf hgood.1 (mem_insert id ∅) packet.buf
      obtain ⟨s2, hqueue, hgood2⟩ := queue_packet_spec hbuf packet.isLast
      dsimp only
      rw [hqueue]
      exact ih hgood2

/-! ## Clients -/

theorem free_all_spec {loose : Set Nat} (h : Tracked pktNodes s.links s.blocks live lists loose)
    (hlive : list ∈ live) :
    ∃ s', freeAll s list = some s' ∧ Same s s' ∧
      Tracked pktNodes s'.links s'.blocks live (update lists list []) loose := by
  have hdrain := drain (N := pktNodes) ServerContext.links ServerContext.blocks
    (visitPkt fun id s => freeBlock (listDel s id) id) (fun id s => freeBlock (listDel s id) id)
    (fun s' lists' => Same s s' ∧ ∀ p ≠ list, lists' p = lists p) (fun _ _ => rfl) hlive ?_ h
    ⟨Same.refl s, fun _ _ => rfl⟩
  · obtain ⟨s', lists', hrun, htracked, ⟨hsame, hother⟩, hnil⟩ := hdrain
    have hlists : lists' = update lists list [] := by
      funext p
      by_cases hne : p = list
      · rw [hne, update_self, hnil]
      · rw [update_of_ne hne, hother p hne]
    exact ⟨s', hrun, hsame, hlists ▸ htracked⟩
  · rintro s1 lists1 id ids htracked ⟨hsame, hother⟩ hlist
    obtain ⟨hdel, hout⟩ := tracked_list_del htracked hlive hlist
    refine ⟨_, hdel.free_block hout, ⟨hsame.trans ⟨rfl, rfl, rfl, rfl⟩, fun p hne => ?_⟩,
      update_self ..⟩
    rw [update_of_ne hne]
    exact hother p hne

theorem free_curr_pkt_same (s : ServerContext) (c : Nat) : Same s (freeCurrPkt s c) := by
  unfold freeCurrPkt
  cases (s.client c).currPkt with
  | none => exact Same.refl s
  | some id => exact ⟨rfl, rfl, rfl, rfl⟩

/-- The packets that other clients send. -/
def sendingOther (s : ServerContext) (c : Nat) : Set Nat :=
  {id | ∃ c' ∈ s.clientList.erase c, (s.client c').currPkt = some id}

theorem sending_split (hc : c ∈ s.clientList) :
    id ∈ sending s ↔ (s.client c).currPkt = some id ∨ id ∈ sendingOther s c := by
  constructor
  · rintro ⟨c', hc', hid⟩
    by_cases heq : c' = c
    · exact .inl (heq ▸ hid)
    · exact .inr ⟨c', (mem_erase_of_ne heq).mpr hc', hid⟩
  · rintro (hid | ⟨c', hc', hid⟩)
    · exact mem_sending hc hid
    · exact mem_sending (mem_of_mem_erase hc') hid

theorem free_curr_pkt_spec (h : ServerInv s lists held) (hc : c ∈ s.clientList) (hsame : Same s s')
    (htracked : Tracked pktNodes s'.links s'.blocks live lists' (sending s)) :
    Tracked pktNodes (freeCurrPkt s' c).links (freeCurrPkt s' c).blocks live lists'
      (sendingOther s c) := by
  unfold freeCurrPkt
  rw [hsame.client]
  cases hcurr : (s.client c).currPkt with
  | none =>
    have hset : sending s = sendingOther s c := by
      ext id
      rw [sending_split hc, hcurr]
      exact or_iff_right nofun
    exact hset ▸ htracked
  | some id =>
    have hset : sending s = insert id (sendingOther s c) := by
      ext id'
      rw [sending_split hc, hcurr, some.injEq]
      exact or_congr_left eq_comm
    rw [hset] at htracked
    refine htracked.free_block ?_
    rintro ⟨c', hc', hid'⟩
    have hne : c' ≠ c := ((h.clients_nodup.mem_erase_iff).mp hc').1
    exact hne (h.one_sender c' (mem_of_mem_erase hc') c hc id hid' hcurr)

/-- The lists of packets without those of client `c`. -/
def dropLists (lists : PktList → List Nat) (c : Nat) : PktList → List Nat :=
  update (update lists (.data c) []) (.cmdresp c) []

theorem drop_lists_other (lists : PktList → List Nat) {c' : Nat} (hne : c' ≠ c) :
    dropLists lists c (.cmdresp c') = lists (.cmdresp c') ∧
      dropLists lists c (.data c') = lists (.data c') := by
  obtain ⟨hcmdresp, hdata⟩ := update_cmdresp_other (update lists (.data c) []) c [] hne
  exact ⟨hcmdresp.trans (update_data_other lists c [] hne).1,
    hdata.trans (update_data_other lists c [] hne).2⟩

theorem drop_lists_self (lists : PktList → List Nat) (c : Nat) :
    dropLists lists c (.cmdresp c) = [] ∧ dropLists lists c (.data c) = [] :=
  ⟨(update_cmdresp_self _ _ _).1, (update_cmdresp_self _ _ _).2.trans (update_data_self _ _ _).2⟩

theorem drop_lists_empty (hlive : list ∈ liveLists clients)
    (hdead : list ∉ liveLists (clients.erase c)) : dropLists lists c list = [] := by
  cases list with
  | free => exact absurd trivial hdead
  | cmdresp c' =>
    by_cases heq : c' = c
    · rw [heq, (drop_lists_self lists c).1]
    · exact absurd ((mem_erase_of_ne heq).mpr hlive) hdead
  | data c' =>
    by_cases heq : c' = c
    · rw [heq, (drop_lists_self lists c).2]
    · exact absurd ((mem_erase_of_ne heq).mpr hlive) hdead

theorem live_lists_erase (clients : List Nat) (c : Nat) :
    liveLists (clients.erase c) ⊆ liveLists clients := by
  intro list hlist
  cases list with
  | free => trivial
  | cmdresp c' => exact mem_of_mem_erase hlist
  | data c' => exact mem_of_mem_erase hlist

theorem delete_client_spec (h : ServerInv s lists ∅) (hc : c ∈ s.clientList) :
    ∃ s', deleteClient s c = some s' ∧ Good ∅ (s.clientList.erase c) s' := by
  have htracked := h.tracked
  rw [empty_union] at htracked
  obtain ⟨s1, hrun1, hsame1, htracked1⟩ := free_all_spec htracked (data_live hc)
  obtain ⟨s2, hrun2, hsame2, htracked2⟩ := free_all_spec htracked1 (cmdresp_live hc)
  have hfreed := free_curr_pkt_spec h hc (hsame1.trans hsame2) htracked2
  have hsame : Same s (freeCurrPkt s2 c) := (hsame1.trans hsame2).trans (free_curr_pkt_same s2 c)
  have hclients : (freeCurrPkt s2 c).clientList.erase c = s.clientList.erase c := by
    rw [hsame.clientList]
  have hold : ∀ c' ∈ (freeCurrPkt s2 c).clientList.erase c, c' ≠ c ∧ c' ∈ s.clientList := by
    intro c' hc'
    rw [hclients] at hc'
    exact (h.clients_nodup.mem_erase_iff).mp hc'
  have hsending : sending { freeCurrPkt s2 c with
      clientList := (freeCurrPkt s2 c).clientList.erase c } = sendingOther s c := by
    unfold sending sendingOther
    simp only [hclients, hsame.client]
  refine ⟨{ freeCurrPkt s2 c with clientList := (freeCurrPkt s2 c).clientList.erase c }, ?_,
    hclients, dropLists lists c, ⟨?_, nofun, ?_, fun c' hc' => ?_, fun c' hc' => ?_, ?_⟩⟩
  · unfold deleteClient
    rw [hrun1, bind_some, hrun2]
    rfl
  · rw [hsending, empty_union]
    show Tracked pktNodes _ _ (liveLists ((freeCurrPkt s2 c).clientList.erase c)) _ _
    rw [hclients]
    exact hfreed.mono (live_lists_erase _ c) fun list => drop_lists_empty
  · show ∀ c1 ∈ _, ∀ c2 ∈ _, ∀ id, ((freeCurrPkt s2 c).client c1).currPkt = some id → _
    rw [hsame.client]
    exact fun c1 hc1 c2 hc2 => h.one_sender c1 (hold c1 hc1).2 c2 (hold c2 hc2).2
  · show ((freeCurrPkt s2 c).client c').dataNum = _
    rw [hsame.client, (drop_lists_other lists (hold c' hc').1).2]
    exact h.data_num c' (hold c' hc').2
  · have hconnection : connection { freeCurrPkt s2 c with
        clientList := (freeCurrPkt s2 c).clientList.erase c } (dropLists lists c) c' =
          connection s lists c' := by
      unfold connection
      rw [(drop_lists_other lists (hold c' hc').1).1, (drop_lists_other lists (hold c' hc').1).2,
        hsame.client, hsame.wire, hsame.buf]
    rw [hconnection]
    exact h.streams c' (hold c' hc').2
  · show ((freeCurrPkt s2 c).clientList.erase c).Nodup
    rw [hclients]
    exact h.clients_nodup.erase c

theorem live_lists_append (clients : List Nat) (c : Nat) :
    insert (.data c) (insert (.cmdresp c) (liveLists clients)) = liveLists (clients ++ [c]) := by
  ext list
  cases list with
  | free => exact iff_of_true (.inr (.inr trivial)) trivial
  | cmdresp c' =>
    show _ ∨ _ ∨ c' ∈ clients ↔ c' ∈ clients ++ [c]
    simp [or_comm]
  | data c' =>
    show _ ∨ _ ∨ c' ∈ clients ↔ c' ∈ clients ++ [c]
    simp [or_comm]

theorem init_lists_spec (h : ServerInv s lists held) (hc : c ∉ s.clientList) :
    Tracked pktNodes (initListHead (initListHead s (.cmdresp c)) (.data c)).links s.blocks
      (liveLists (s.clientList ++ [c])) (dropLists lists c) (held ∪ sending s) := by
  have hcmdresp := h.tracked.init fun hlive : PktList.cmdresp c ∈ _ => absurd hlive hc
  have hne : PktList.data c ≠ .cmdresp c := nofun
  have hdata := hcmdresp.init fun hlive : PktList.data c ∈ _ =>
    absurd (mem_of_mem_insert_of_ne hlive hne) hc
  rw [live_lists_append, update_comm hne.symm] at hdata
  exact hdata

theorem add_client_spec (h : ServerInv s lists ∅) (hc : c ∉ s.clientList)
    (hnew : s'.client c = ⟨0, none, 0, .stopPlay, false⟩) (hwire : s'.wire c = ⟨[], [], []⟩)
    (hclient : ∀ c' ≠ c, s'.client c' = s.client c') (hwire' : ∀ c' ≠ c, s'.wire c' = s.wire c')
    (hbuf : s'.buf = s.buf) (hblocks : s'.blocks = s.blocks)
    (hclients : s'.clientList = s.clientList ++ [c])
    (hlinks : s'.links = (initListHead (initListHead s (.cmdresp c)) (.data c)).links) :
    ServerInv s' (dropLists lists c) ∅ := by
  have hne : ∀ c' ∈ s.clientList, c' ≠ c := by
    rintro c' hc' rfl
    exact hc hc'
  have hmem : ∀ c', c' ∈ s'.clientList → c' ∈ s.clientList ∨ c' = c := by
    intro c' hc'
    rwa [hclients, mem_append, List.mem_singleton] at hc'
  have hold : ∀ c' ∈ s'.clientList, ∀ id, (s'.client c').currPkt = some id →
      c' ∈ s.clientList ∧ (s.client c').currPkt = some id := by
    intro c' hc' id hid
    rcases hmem c' hc' with hc' | rfl
    · rw [hclient c' (hne c' hc')] at hid
      exact ⟨hc', hid⟩
    · rw [hnew] at hid
      cases hid
  have hsending : sending s' = sending s := by
    ext id
    constructor
    · rintro ⟨c', hc', hid⟩
      exact ⟨c', hold c' hc' id hid⟩
    · rintro ⟨c', hc', hid⟩
      refine ⟨c', ?_, ?_⟩
      · rw [hclients]
        exact mem_append_left [c] hc'
      · rw [hclient c' (hne c' hc')]
        exact hid
  refine ⟨?_, nofun, fun c1 hc1 c2 hc2 id hid1 hid2 => ?_, fun c' hc' => ?_, fun c' hc' => ?_, ?_⟩
  · rw [hsending, hlinks, hblocks, hclients]
    exact init_lists_spec h hc
  · obtain ⟨hc1, hid1⟩ := hold c1 hc1 id hid1
    obtain ⟨hc2, hid2⟩ := hold c2 hc2 id hid2
    exact h.one_sender c1 hc1 c2 hc2 id hid1 hid2
  · rcases hmem c' hc' with hc' | rfl
    · rw [hclient c' (hne c' hc'), (drop_lists_other lists (hne c' hc')).2]
      exact h.data_num c' hc'
    · rw [hnew, (drop_lists_self lists c').2]
      rfl
  · rcases hmem c' hc' with hc' | rfl
    · have hconnection : connection s' (dropLists lists c) c' = connection s lists c' := by
        unfold connection
        rw [(drop_lists_other lists (hne c' hc')).1, (drop_lists_other lists (hne c' hc')).2,
          hclient c' (hne c' hc'), hwire' c' (hne c' hc'), hbuf]
      rw [hconnection]
      exact h.streams c' hc'
    · unfold connection
      rw [(drop_lists_self lists c').1, (drop_lists_self lists c').2, hnew, hwire]
      exact stream_new 0
  · rw [hclients]
    exact nodup_append_comm.mpr (nodup_cons.mpr ⟨hc, h.clients_nodup⟩)

theorem new_client_spec (h : ServerInv s lists ∅) (answer : Option Nat) :
    ∃ lists', ServerInv (newClient s answer) lists' ∅ := by
  unfold newClient
  by_cases hfull : maxClientCount ≤ s.clientList.length
  · rw [if_pos hfull]
    exact ⟨lists, h⟩
  · rw [if_neg hfull]
    cases hanswer : answer.filter (· ∉ s.clientList) with
    | none => exact ⟨lists, h⟩
    | some c =>
      obtain ⟨-, hnew⟩ := filter_eq_some_iff.mp hanswer
      have hc : c ∉ s.clientList := of_decide_eq_true hnew
      exact ⟨dropLists lists c, add_client_spec h hc (update_self _ _ _)
        (update_self _ _ _) (fun _ hne => update_of_ne hne _ _)
        (fun _ hne => update_of_ne hne _ _) rfl rfl rfl rfl⟩

/-! ## Requests of a client -/

theorem handle_answer_spec (h : Good ∅ clients s) (hc : c ∈ clients) (text : List Byte)
    (play : Bool) : ∃ ret s', handleAnswer s c text play = some (ret, s') ∧ Good ∅ clients s' := by
  obtain ⟨found, s1, halloc, hgood⟩ := good_alloc h
  unfold handleAnswer
  rw [halloc]
  cases found with
  | none => exact ⟨-1, s1, rfl, hgood⟩
  | some id =>
    obtain ⟨hclients, lists, hinv⟩ := good_set_buf hgood.1 (mem_insert id ∅) text
    have hadd := add_cmdresp_spec hinv (notMem_empty id) (hclients ▸ hc)
    cases play with
    | false => exact ⟨0, _, rfl, hclients, _, hadd⟩
    | true =>
      have hc' : c ∈ (addCmdresp (setBuf s1 id text) c id).clientList := hclients ▸ hc
      exact ⟨0, _, rfl, hclients, _, hadd.set_client hc' rfl rfl rfl⟩

theorem handle_describe_spec (h : Good ∅ clients s) (hc : c ∈ clients) (sdp : List Byte)
    (text : Option (List Byte)) :
    ∃ ret s', handleDescribe s c sdp text = some (ret, s') ∧ Good ∅ clients s' := by
  obtain ⟨found, s1, halloc, hgood⟩ := good_alloc h
  unfold handleDescribe
  rw [halloc, bind_some]
  dsimp only
  cases found with
  | none =>
    obtain ⟨found', s2, halloc', hgood'⟩ := good_alloc hgood
    rw [halloc']
    refine ⟨-1, freeIf s2 found', rfl, ?_⟩
    cases found' with
    | none => exact hgood'
    | some id =>
      have hheld : Good (heldPkt (some id)) clients s2 := hgood'.1
      exact good_free_if hheld
  | some id =>
    obtain ⟨found', s2, halloc', hgood'⟩ := good_alloc hgood.1
    rw [halloc']
    cases found' with
    | none =>
      have hheld : Good (heldPkt (some id)) clients s2 := hgood'
      exact ⟨-1, freePacket s2 id, rfl, good_free_if hheld⟩
    | some id' =>
      obtain ⟨⟨hclients, lists, hinv⟩, hout⟩ := hgood'
      have hcomm : (insert id' (insert id ∅) : Set Nat) = insert id (insert id' ∅) :=
        insert_comm id' id ∅
      have hne : id ∉ (insert id' ∅ : Set Nat) := by
        rintro (rfl | hin)
        · exact hout (mem_insert id ∅)
        · exact hin
      cases text with
      | none =>
        rw [hcomm] at hinv
        have hfree := free_spec hinv hne
        exact ⟨-1, _, rfl, hclients, _, free_spec hfree (notMem_empty id')⟩
      | some text =>
        have hbuf := (hinv.set_buf (mem_insert id' _) sdp).set_buf
          (Set.mem_insert_of_mem id' (mem_insert id ∅)) text
        rw [hcomm] at hbuf
        have hadd := add_cmdresp_spec hbuf hne (hclients ▸ hc)
        exact ⟨0, _, rfl, hclients, _, free_spec hadd (notMem_empty id')⟩

theorem handle_request_spec (h : Good ∅ clients s) (hc : c ∈ clients) (request : ClientRequest) :
    ∃ ret s', handleRequest s c request = some (ret, s') ∧ Good ∅ clients s' := by
  cases request with
  | ignored => exact ⟨0, s, rfl, h⟩
  | answer text play => exact handle_answer_spec h hc text play
  | describe sdp text => exact handle_describe_spec h hc sdp text
  | teardown =>
    obtain ⟨hclients, lists, hinv⟩ := h
    exact ⟨-1, _, rfl, hclients, lists, hinv.set_client (hclients ▸ hc) rfl rfl rfl⟩
  | error => exact ⟨-1, s, rfl, h⟩

/-! ## Runs -/

theorem delete_on_error_spec (h : Good ∅ clients s) (hc : c ∈ clients) (ret : Int) :
    ∃ s', deleteOnError c (ret, s) = some s' ∧ ∃ lists', ServerInv s' lists' ∅ := by
  obtain ⟨hclients, lists, hinv⟩ := h
  unfold deleteOnError
  dsimp only
  by_cases herror : ret < 0
  · obtain ⟨s', hrun, -, hinv'⟩ := delete_client_spec hinv (hclients ▸ hc)
    rw [if_pos herror]
    exact ⟨s', hrun, hinv'⟩
  · rw [if_neg herror]
    exact ⟨s, rfl, lists, hinv⟩

/-- Every request is carried out, and all packets are in their places afterwards. -/
theorem server_step_spec (h : ServerInv s lists ∅) (request : Request) :
    ∃ s', serverStep s request = some s' ∧ ∃ lists', ServerInv s' lists' ∅ := by
  have hgood : Good ∅ s.clientList s := ⟨rfl, lists, h⟩
  cases request with
  | newClient answer => exact ⟨_, rfl, new_client_spec h answer⟩
  | expire c =>
    by_cases hc : c ∈ s.clientList
    · obtain ⟨s', hrun, -, hinv⟩ := delete_client_spec h hc
      exact ⟨s', (if_pos hc).trans hrun, hinv⟩
    · exact ⟨s, if_neg hc, lists, h⟩
  | handleRequest c request =>
    by_cases hc : c ∈ s.clientList
    · obtain ⟨ret, s1, hrun, hgood1⟩ := handle_request_spec hgood hc request
      obtain ⟨s', hdelete, hinv⟩ := delete_on_error_spec hgood1 hc ret
      refine ⟨s', (if_pos hc).trans ?_, hinv⟩
      rw [hrun]
      exact hdelete
    · exact ⟨s, if_neg hc, lists, h⟩
  | writable c =>
    by_cases hc : c ∈ s.clientList
    · obtain ⟨ret, s1, hrun, hinv1, hclients1⟩ := send_client_spec h hc
      obtain ⟨s', hdelete, hinv⟩ := delete_on_error_spec ⟨hclients1, hinv1⟩ hc ret
      refine ⟨s', (if_pos hc).trans ?_, hinv⟩
      rw [hrun]
      exact hdelete
    · exact ⟨s, if_neg hc, lists, h⟩
  | pushFragments packets =>
    obtain ⟨s', hrun, -, hinv⟩ := push_loop_spec packets (pre_queue_spec hgood)
    exact ⟨s', hrun, hinv⟩
  | pushPacket buf =>
    obtain ⟨found, s1, halloc, hgood1⟩ := good_alloc hgood
    show ∃ s', (allocPacket s).bind _ = some s' ∧ _
    rw [halloc, bind_some]
    cases found with
    | none => exact ⟨s1, rfl, hgood1.2⟩
    | some id =>
      have hbuf := good_set_buf hgood1.1 (mem_insert id ∅) buf
      obtain ⟨s', hrun, -, hinv⟩ := queue_packet_spec (pre_queue_spec hbuf) true
      exact ⟨s', hrun, hinv⟩

/-- A place where a packet can be: on a list, or sent by a client. -/
inductive Place
  | list (list : PktList)
  | client (c : Nat)

def livePlaces (clients : List Nat) : Set Place :=
  {place | match place with
    | .list list => list ∈ liveLists clients
    | .client c => c ∈ clients}

def packetsAt (s : ServerContext) (lists : PktList → List Nat) : Place → List Nat
  | .list list => lists list
  | .client c => (s.client c).currPkt.toList

/-- The lists are linked, every packet is at one place, `data_num` counts the media packets that
wait, and every socket has whole packets. -/
structure ServerOk (s : ServerContext) (lists : PktList → List Nat) : Prop where
  linked : Family s.links Node.head (liveLists s.clientList) fun list => (lists list).map .pkt
  placed : ∀ id, id ∈ s.blocks ↔
    ∃! place, place ∈ livePlaces s.clientList ∧ id ∈ packetsAt s lists place
  data_num : ∀ c ∈ s.clientList, (s.client c).dataNum = (lists (.data c)).length
  streams : ∀ c ∈ s.clientList, StreamOk (connection s lists c)

theorem ServerInv.server_ok (h : ServerInv s lists ∅) : ServerOk s lists := by
  have htracked := h.tracked
  rw [empty_union] at htracked
  have hone : ∀ id (place place' : Place), place ∈ livePlaces s.clientList →
      id ∈ packetsAt s lists place → place' ∈ livePlaces s.clientList →
      id ∈ packetsAt s lists place' → place' = place := by
    intro id place place' hlive hid hlive' hid'
    cases place with
    | list list =>
      cases place' with
      | list list' =>
        by_contra hne
        have hlists : list ≠ list' := fun heq => hne (congrArg Place.list heq.symm)
        exact htracked.apart hlive hlive' hlists hid hid'
      | client c =>
        exact absurd hid
          (htracked.loose_out id (mem_sending hlive' (mem_toList.mp hid')) list hlive)
    | client c =>
      cases place' with
      | list list =>
        exact absurd hid'
          (htracked.loose_out id (mem_sending hlive (mem_toList.mp hid)) list hlive')
      | client c' =>
        exact congrArg Place.client (h.one_sender c' hlive' c hlive id
          (mem_toList.mp hid') (mem_toList.mp hid))
  refine ⟨htracked.family, fun id => ?_, h.data_num, h.streams⟩
  rw [htracked.used id]
  constructor
  · rintro (⟨c, hc, hid⟩ | ⟨list, hlive, hid⟩)
    · have hat : id ∈ packetsAt s lists (.client c) := mem_toList.mpr hid
      exact ⟨.client c, ⟨hc, hat⟩, fun place' h' => hone id _ place' hc hat h'.1 h'.2⟩
    · exact ⟨.list list, ⟨hlive, hid⟩, fun place' h' => hone id _ place' hlive hid h'.1 h'.2⟩
  · rintro ⟨place, ⟨hlive, hid⟩, -⟩
    cases place with
    | list list => exact .inr ⟨list, hlive, hid⟩
    | client c => exact .inl (mem_sending hlive (mem_toList.mp hid))

theorem start_inv (links : Links Node) (mallocs : List (Option Nat))
    (sends : Nat → List SendResult) : ServerInv (start links mallocs sends) (fun _ => []) ∅ := by
  have hnone : Tracked pktNodes links [] ∅ (fun _ => []) ∅ :=
    ⟨⟨nofun, nofun, nofun⟩, nofun, fun id => iff_of_false not_mem_nil (by simp), nodup_nil⟩
  have hfree := hnone.init fun hlive : PktList.free ∈ _ => absurd hlive (notMem_empty _)
  have hlive : insert PktList.free ∅ = liveLists [] := by
    ext list
    cases list with
    | free => exact iff_of_true (.inl rfl) trivial
    | cmdresp c => exact iff_of_false (by simp) not_mem_nil
    | data c => exact iff_of_false (by simp) not_mem_nil
  have hsending : ∅ ∪ sending (start links mallocs sends) = ∅ := by
    rw [empty_union]
    exact eq_empty_of_forall_notMem fun id ⟨c, hc, _⟩ => not_mem_nil hc
  refine ⟨?_, nofun, nofun, nofun, nofun, nodup_nil⟩
  rw [hsending]
  rw [hlive, update_eq_self] at hfree
  exact hfree

/-- In every run of the server, whatever `malloc` and `send` return, no call is lost on the way, and
in every state all packets are in one place and all sockets have whole packets. -/
theorem streams_ok (links : Links Node) (mallocs : List (Option Nat))
    (sends : Nat → List SendResult) (requests : List Request) :
    (∃ s', exec serverStep (start links mallocs sends) requests = some s') ∧
      Always serverStep (fun s => ∃ lists, ServerOk s lists) (start links mallocs sends)
        requests := by
  have hall : AllSteps serverStep (fun _ _ => True) (start links mallocs sends) requests :=
    all_steps_of_forall (fun _ _ => trivial) _ _
  have hinit : ∃ lists, ServerInv (start links mallocs sends) lists ∅ :=
    ⟨_, start_inv links mallocs sends⟩
  have hstep : ∀ s request, (∃ lists, ServerInv s lists ∅) → True →
      ∃ s', serverStep s request = some s' ∧ ∃ lists, ServerInv s' lists ∅ :=
    fun s request ⟨lists, hinv⟩ _ => server_step_spec hinv request
  constructor
  · obtain ⟨s', hrun, -⟩ := exec_progress hstep hinit hall
    exact ⟨s', hrun⟩
  · have hkept : ∀ s request s', (∃ lists, ServerInv s lists ∅) → True →
        serverStep s request = some s' → ∃ lists, ServerInv s' lists ∅ := by
      intro s request s' hinv _ hs
      obtain ⟨s1, hs1, hinv1⟩ := hstep s request hinv trivial
      obtain rfl := some.inj (hs1.symm.trans hs)
      exact hinv1
    have hgood : ∀ s, (∃ lists, ServerInv s lists ∅) → ∃ lists, ServerOk s lists :=
      fun s ⟨lists, hinv⟩ => ⟨lists, hinv.server_ok⟩
    exact always_of_invariant hkept hgood hinit hall

end FullhanRtos.RtspServer
