import FullhanRtos.Rtsp.Server

/-!
# What the clients receive

`StreamOk` says of one connection that the bytes on the socket are the packets in order, up to the
part of the current packet that is sent. It is kept by everything that happens to a connection, and
`ServerInv` says where the packets are.
-/

namespace FullhanRtos.RtspServer

open Bytes ListPair ListFamily BlockLists Transition Function List Set Option
open Rtsp (RtpPacket ClientStatus)

/-! ## One connection -/

inductive Kind
  | media
  | cmdresp
  deriving DecidableEq

/-- A client by the contents of its packets. -/
structure Connection where
  resp : List (List Byte)
  data : List (List Byte)
  current : Option (List Byte)
  sentLen : Nat
  wire : Wire

def ofKind (kind : Kind) (packets : List (Kind × List Byte)) : List (List Byte) :=
  (packets.filter (·.1 = kind)).map Prod.snd

/-- The socket has the packets `sent`, and what is sent of the current one. In the order in which
they were queued, the packets of each kind are sent, current, or still on their list. -/
def StreamOk (x : Connection) : Prop :=
  ∃ (sent : List (Kind × List Byte)) (kind : Kind),
    x.wire.socket = (sent.map Prod.snd).flatten ++ x.current.toList.flatten.take x.sentLen ∧
    x.wire.media = ofKind .media (sent ++ x.current.toList.map (kind, ·)) ++ x.data ∧
    x.wire.resp = ofKind .cmdresp (sent ++ x.current.toList.map (kind, ·)) ++ x.resp

variable {x : Connection} {bytes : List Byte}

theorem of_kind_append (kind : Kind) (xs ys : List (Kind × List Byte)) :
    ofKind kind (xs ++ ys) = ofKind kind xs ++ ofKind kind ys := by
  simp [ofKind]

theorem of_kind_self (kind : Kind) (bytes : List Byte) :
    ofKind kind [(kind, bytes)] = [bytes] := by
  simp [ofKind]

theorem of_kind_other {kind kind' : Kind} (h : kind' ≠ kind) (bytes : List Byte) :
    ofKind kind [(kind', bytes)] = [] := by
  simp [ofKind, h]

theorem stream_new (sentLen : Nat) : StreamOk ⟨[], [], none, sentLen, ⟨[], [], []⟩⟩ :=
  ⟨[], .media, (take_nil (i := sentLen)).symm, rfl, rfl⟩

theorem StreamOk.add_data (h : StreamOk x) (bytes : List Byte) :
    StreamOk { x with
      data := x.data ++ [bytes]
      wire := { x.wire with media := x.wire.media ++ [bytes] } } := by
  obtain ⟨sent, kind, hsocket, hmedia, hresp⟩ := h
  refine ⟨sent, kind, hsocket, ?_, hresp⟩
  show x.wire.media ++ [bytes] = _
  rw [hmedia, append_assoc]

/-- A response is queued. -/
theorem StreamOk.add_resp (h : StreamOk x) (bytes : List Byte) :
    StreamOk { x with
      resp := x.resp ++ [bytes]
      wire := { x.wire with resp := x.wire.resp ++ [bytes] } } := by
  obtain ⟨sent, kind, hsocket, hmedia, hresp⟩ := h
  refine ⟨sent, kind, hsocket, hmedia, ?_⟩
  show x.wire.resp ++ [bytes] = _
  rw [hresp, append_assoc]

/-- The first response becomes the current packet. -/
theorem StreamOk.start_resp (h : StreamOk x) (hcurrent : x.current = none)
    {rest : List (List Byte)} (hfirst : x.resp = bytes :: rest) :
    StreamOk { x with resp := rest, current := some bytes, sentLen := 0 } := by
  obtain ⟨sent, kind, hsocket, hmedia, hresp⟩ := h
  rw [hcurrent] at hsocket hmedia hresp
  refine ⟨sent, .cmdresp, ?_, ?_, ?_⟩
  · simpa using hsocket
  · show x.wire.media = ofKind .media (sent ++ [(.cmdresp, bytes)]) ++ x.data
    have hother : Kind.cmdresp ≠ .media := nofun
    rw [of_kind_append, of_kind_other hother, append_nil, hmedia]
    simp
  · show x.wire.resp = ofKind .cmdresp (sent ++ [(.cmdresp, bytes)]) ++ rest
    rw [of_kind_append, of_kind_self, hresp, hfirst]
    simp

/-- The first media packet becomes the current packet. -/
theorem StreamOk.start_data (h : StreamOk x) (hcurrent : x.current = none)
    {rest : List (List Byte)} (hfirst : x.data = bytes :: rest) :
    StreamOk { x with data := rest, current := some bytes, sentLen := 0 } := by
  obtain ⟨sent, kind, hsocket, hmedia, hresp⟩ := h
  rw [hcurrent] at hsocket hmedia hresp
  refine ⟨sent, .media, ?_, ?_, ?_⟩
  · simpa using hsocket
  · show x.wire.media = ofKind .media (sent ++ [(.media, bytes)]) ++ rest
    rw [of_kind_append, of_kind_self, hmedia, hfirst]
    simp
  · show x.wire.resp = ofKind .cmdresp (sent ++ [(.media, bytes)]) ++ x.resp
    have hother : Kind.media ≠ .cmdresp := nofun
    rw [of_kind_append, of_kind_other hother, append_nil, hresp]
    simp

theorem StreamOk.advance (h : StreamOk x) (hcurrent : x.current = some bytes) (n : Nat) :
    StreamOk { x with
      sentLen := x.sentLen + n
      wire := { x.wire with socket := x.wire.socket ++ (bytes.drop x.sentLen).take n } } := by
  obtain ⟨sent, kind, hsocket, hmedia, hresp⟩ := h
  refine ⟨sent, kind, ?_, hmedia, hresp⟩
  show x.wire.socket ++ (bytes.drop x.sentLen).take n = _
  rw [hsocket, hcurrent, append_assoc]
  simp [take_add]

theorem StreamOk.finish (h : StreamOk x) (hcurrent : x.current = some bytes)
    (hend : bytes.length ≤ x.sentLen) : StreamOk { x with current := none } := by
  obtain ⟨sent, kind, hsocket, hmedia, hresp⟩ := h
  rw [hcurrent] at hsocket hmedia hresp
  refine ⟨sent ++ [(kind, bytes)], kind, ?_, ?_, ?_⟩
  · show x.wire.socket = _
    rw [hsocket]
    simp [take_of_length_le hend]
  · simpa using hmedia
  · simpa using hresp

/-! ## The packets -/

theorem head_ne_pkt (list : PktList) (id : Nat) : Node.head list ≠ Node.pkt id := nofun

def pktNodes : Nodes Node PktList Nat where
  head := .head
  block := .pkt
  head_injective _ _ h := Node.head.inj h
  block_injective _ _ h := Node.pkt.inj h
  head_ne := head_ne_pkt

def liveLists (clients : List Nat) : Set PktList :=
  {list | match list with
    | .free => True
    | .cmdresp c => c ∈ clients
    | .data c => c ∈ clients}

/-- The packets that are being sent. -/
def sending (s : ServerContext) : Set Nat :=
  {id | ∃ c ∈ s.clientList, (s.client c).currPkt = some id}

def connection (s : ServerContext) (lists : PktList → List Nat) (c : Nat) : Connection where
  resp := (lists (.cmdresp c)).map s.buf
  data := (lists (.data c)).map s.buf
  current := (s.client c).currPkt.map s.buf
  sentLen := (s.client c).currPktSentLen
  wire := s.wire c

/-- What holds while a call has the packets `held`. -/
structure ServerInv (s : ServerContext) (lists : PktList → List Nat) (held : Set Nat) : Prop where
  tracked : Tracked pktNodes s.links s.blocks (liveLists s.clientList) lists (held ∪ sending s)
  held_out : ∀ id ∈ held, id ∉ sending s
  one_sender : ∀ c ∈ s.clientList, ∀ c' ∈ s.clientList, ∀ id, (s.client c).currPkt = some id →
    (s.client c').currPkt = some id → c = c'
  data_num : ∀ c ∈ s.clientList, (s.client c).dataNum = (lists (.data c)).length
  streams : ∀ c ∈ s.clientList, StreamOk (connection s lists c)
  clients_nodup : s.clientList.Nodup

variable {s s' : ServerContext} {lists lists' : PktList → List Nat} {held held' : Set Nat}
  {c id : Nat} {frees ids : List Nat} {list : PktList}

theorem mem_sending (hc : c ∈ s.clientList) (hcurr : (s.client c).currPkt = some id) :
    id ∈ sending s :=
  ⟨c, hc, hcurr⟩

theorem sending_congr (hclients : s'.clientList = s.clientList)
    (hcurr : ∀ c, (s'.client c).currPkt = (s.client c).currPkt) : sending s' = sending s := by
  unfold sending
  simp only [hclients, hcurr]

/-- What a call keeps that only links, allocates and frees packets. -/
structure Same (s s' : ServerContext) : Prop where
  clientList : s'.clientList = s.clientList
  client : s'.client = s.client
  wire : s'.wire = s.wire
  buf : s'.buf = s.buf

theorem Same.refl (s : ServerContext) : Same s s := ⟨rfl, rfl, rfl, rfl⟩

theorem Same.trans {s'' : ServerContext} (h : Same s s') (h' : Same s' s'') : Same s s'' :=
  ⟨h'.clientList.trans h.clientList, h'.client.trans h.client, h'.wire.trans h.wire,
    h'.buf.trans h.buf⟩

theorem Same.sending (h : Same s s') : sending s' = sending s :=
  sending_congr h.clientList fun c => by rw [h.client]

theorem ServerInv.set_free (h : ServerInv s lists held) (hsame : Same s s')
    (htracked : Tracked pktNodes s'.links s'.blocks (liveLists s.clientList)
      (update lists .free frees) (held' ∪ sending s))
    (hout : ∀ id ∈ held', id ∉ sending s) :
    ServerInv s' (update lists .free frees) held' := by
  have hother : ∀ list ≠ .free, update lists .free frees list = lists list :=
    fun list hne => update_of_ne hne _ _
  have hdata : ∀ c, update lists .free frees (.data c) = lists (.data c) :=
    fun c => hother (.data c) nofun
  have hcmdresp : ∀ c, update lists .free frees (.cmdresp c) = lists (.cmdresp c) :=
    fun c => hother (.cmdresp c) nofun
  have hconnection : connection s' (update lists .free frees) = connection s lists := by
    funext c
    simp only [connection, hdata, hcmdresp, hsame.client, hsame.wire, hsame.buf]
  refine ⟨?_, ?_, ?_, fun c hc => ?_, ?_, ?_⟩
  · rw [hsame.sending, hsame.clientList]
    exact htracked
  · rw [hsame.sending]
    exact hout
  · rw [hsame.clientList, hsame.client]
    exact h.one_sender
  · rw [hsame.client, hdata]
    exact h.data_num c (hsame.clientList ▸ hc)
  · rw [hconnection, hsame.clientList]
    exact h.streams
  · rw [hsame.clientList]
    exact h.clients_nodup

theorem free_live (clients : List Nat) : PktList.free ∈ liveLists clients := trivial

theorem malloc_cases (s : ServerContext) : ∃ rest,
    malloc s = (none, { s with mallocs := rest }) ∨
    ∃ id, id ∉ s.blocks ∧
      malloc s = (some id, { s with mallocs := rest, blocks := id :: s.blocks }) := by
  unfold malloc
  cases s.mallocs with
  | nil => exact ⟨s.mallocs, .inl rfl⟩
  | cons answer rest =>
    refine ⟨rest, ?_⟩
    dsimp only
    cases hanswer : answer.filter (· ∉ s.blocks) with
    | none => exact .inl rfl
    | some id =>
      obtain ⟨-, hnew⟩ := filter_eq_some_iff.mp hanswer
      exact .inr ⟨id, of_decide_eq_true hnew, rfl⟩

theorem tracked_list_del {live : Set PktList} {loose : Set Nat}
    (h : Tracked pktNodes s.links s.blocks live lists loose) (hlive : list ∈ live)
    (hlist : lists list = id :: ids) :
    Tracked pktNodes (listDel s id).links s.blocks live (update lists list ids)
        (insert id loose) ∧ id ∉ loose :=
  h.take_out hlive hlist (fun _ hq => update_of_ne hq _ _)
    fun _ hq => update_of_ne hq _ _

theorem alloc_spec (h : ServerInv s lists held) :
    ∃ s', Same s s' ∧
      (allocPacket s = some (none, s') ∧ ServerInv s' lists held ∨
        ∃ id frees, allocPacket s = some (some id, s') ∧
          ServerInv s' (update lists .free frees) (insert id held) ∧ id ∉ held) := by
  have hsame : update lists .free (lists .free) = lists := update_eq_self _ _
  unfold allocPacket
  cases hfree : lists .free with
  | nil =>
    have hempty : s.links.isEmpty (.head .free) = true :=
      (h.tracked.is_empty_iff (free_live _)).mpr hfree
    rw [if_pos hempty]
    obtain ⟨rest, hnone | ⟨id, hnew, hsome⟩⟩ := malloc_cases s
    · rw [hnone]
      refine ⟨{ s with mallocs := rest }, ⟨rfl, rfl, rfl, rfl⟩, .inl ⟨rfl, ?_⟩⟩
      rw [← hsame]
      refine h.set_free ⟨rfl, rfl, rfl, rfl⟩ ?_ h.held_out
      rw [hsame]
      exact h.tracked
    · obtain ⟨htracked, hout⟩ := h.tracked.new_block hnew
      rw [hsome]
      refine ⟨{ s with mallocs := rest, blocks := id :: s.blocks }, ⟨rfl, rfl, rfl, rfl⟩,
        .inr ⟨id, lists .free, rfl, ?_, fun hin => hout (.inl hin)⟩⟩
      refine h.set_free ⟨rfl, rfl, rfl, rfl⟩ ?_ ?_
      · rw [hsame, insert_union]
        exact htracked
      · rintro id' (rfl | hid')
        · exact fun hin => hout (.inr hin)
        · exact h.held_out id' hid'
  | cons id frees =>
    have hempty : ¬ s.links.isEmpty (.head .free) = true := by
      intro hempty
      rw [(h.tracked.is_empty_iff (free_live _)).mp hempty] at hfree
      cases hfree
    have hnext : s.links.next (.head .free) = .pkt id := h.tracked.next_head (free_live _) hfree
    obtain ⟨htracked, hout⟩ := tracked_list_del h.tracked (free_live _) hfree
    rw [if_neg hempty, hnext]
    refine ⟨listDel s id, ⟨rfl, rfl, rfl, rfl⟩,
      .inr ⟨id, frees, rfl, ?_, fun hin => hout (.inl hin)⟩⟩
    refine h.set_free ⟨rfl, rfl, rfl, rfl⟩ ?_ ?_
    · rw [insert_union]
      exact htracked
    · rintro id' (rfl | hid')
      · exact fun hin => hout (.inr hin)
      · exact h.held_out id' hid'

theorem free_spec (h : ServerInv s lists (insert id held)) (hout : id ∉ held) :
    ServerInv (freePacket s id) (update lists .free (lists .free ++ [id])) held := by
  have htracked := h.tracked
  rw [insert_union] at htracked
  have hid : id ∉ held ∪ sending s := by
    rintro (hin | hin)
    · exact hout hin
    · exact h.held_out id (mem_insert id held) hin
  exact h.set_free ⟨rfl, rfl, rfl, rfl⟩ (htracked.add_tail (free_live _) hid)
    fun id' hid' => h.held_out id' (Set.mem_insert_of_mem id hid')

theorem ServerInv.set_buf (h : ServerInv s lists held) (hid : id ∈ held) (bytes : List Byte) :
    ServerInv (setBuf s id bytes) lists held := by
  refine ⟨h.tracked, h.held_out, h.one_sender, h.data_num, fun c hc => ?_, h.clients_nodup⟩
  have hlist : ∀ list ∈ liveLists s.clientList,
      (lists list).map (setBuf s id bytes).buf = (lists list).map s.buf := by
    intro list hlive
    refine map_congr_left fun id' hid' => update_of_ne ?_ _ _
    rintro rfl
    exact h.tracked.loose_out id' (.inl hid) list hlive hid'
  have hcurr : (s.client c).currPkt.map (setBuf s id bytes).buf =
      (s.client c).currPkt.map s.buf := by
    refine Option.map_congr fun id' hid' => update_of_ne ?_ _ _
    rintro rfl
    exact h.held_out id' hid (mem_sending hc hid')
  have hconnection : connection (setBuf s id bytes) lists c = connection s lists c := by
    unfold connection
    rw [hlist (.cmdresp c) hc, hlist (.data c) hc]
    exact congrArg (fun current => Connection.mk _ _ current _ _) hcurr
  rw [hconnection]
  exact h.streams c hc

/-! ## One client -/

/-- What a call for client `c` keeps of the others. -/
structure Others (s s' : ServerContext) (c : Nat) : Prop where
  clientList : s'.clientList = s.clientList
  buf : s'.buf = s.buf
  client : ∀ c' ≠ c, s'.client c' = s.client c'
  wire : ∀ c' ≠ c, s'.wire c' = s.wire c'

theorem ServerInv.of_client (h : ServerInv s lists held) (hothers : Others s s' c)
    (hlists : ∀ c' ≠ c, lists' (.cmdresp c') = lists (.cmdresp c') ∧
      lists' (.data c') = lists (.data c'))
    (htracked : Tracked pktNodes s'.links s'.blocks (liveLists s.clientList) lists'
      (held' ∪ sending s'))
    (hout : ∀ id ∈ held', id ∉ sending s')
    (hone : ∀ id, (s'.client c).currPkt = some id → ∀ c' ∈ s.clientList,
      (s.client c').currPkt = some id → c' = c)
    (hnum : (s'.client c).dataNum = (lists' (.data c)).length)
    (hstream : StreamOk (connection s' lists' c)) : ServerInv s' lists' held' := by
  have hclients := hothers.clientList
  refine ⟨?_, hout, ?_, fun c' hc' => ?_, fun c' hc' => ?_, ?_⟩
  · rw [hclients]
    exact htracked
  · rw [hclients]
    intro c1 hc1 c2 hc2 id hid1 hid2
    by_cases heq1 : c1 = c
    · by_cases heq2 : c2 = c
      · exact heq1.trans heq2.symm
      · rw [hothers.client c2 heq2] at hid2
        exact heq1.trans (hone id (heq1 ▸ hid1) c2 hc2 hid2).symm
    · rw [hothers.client c1 heq1] at hid1
      by_cases heq2 : c2 = c
      · exact (hone id (heq2 ▸ hid2) c1 hc1 hid1).trans heq2.symm
      · rw [hothers.client c2 heq2] at hid2
        exact h.one_sender c1 hc1 c2 hc2 id hid1 hid2
  · rw [hclients] at hc'
    by_cases heq : c' = c
    · rw [heq]
      exact hnum
    · rw [hothers.client c' heq, (hlists c' heq).2]
      exact h.data_num c' hc'
  · rw [hclients] at hc'
    by_cases heq : c' = c
    · rw [heq]
      exact hstream
    · have hsame : connection s' lists' c' = connection s lists c' := by
        unfold connection
        rw [(hlists c' heq).1, (hlists c' heq).2, hothers.client c' heq, hothers.wire c' heq,
          hothers.buf]
      rw [hsame]
      exact h.streams c' hc'
  · rw [hclients]
    exact h.clients_nodup

theorem data_live (hc : c ∈ s.clientList) : PktList.data c ∈ liveLists s.clientList := hc

theorem cmdresp_live (hc : c ∈ s.clientList) : PktList.cmdresp c ∈ liveLists s.clientList := hc

theorem update_data_other (lists : PktList → List Nat) (c : Nat) (ids : List Nat) {c' : Nat}
    (hne : c' ≠ c) :
    update lists (.data c) ids (.cmdresp c') = lists (.cmdresp c') ∧
      update lists (.data c) ids (.data c') = lists (.data c') := by
  have hcmdresp : PktList.cmdresp c' ≠ .data c := nofun
  have hdata : PktList.data c' ≠ .data c := fun heq => hne (PktList.data.inj heq)
  exact ⟨update_of_ne hcmdresp _ _, update_of_ne hdata _ _⟩

theorem update_cmdresp_other (lists : PktList → List Nat) (c : Nat) (ids : List Nat) {c' : Nat}
    (hne : c' ≠ c) :
    update lists (.cmdresp c) ids (.cmdresp c') = lists (.cmdresp c') ∧
      update lists (.cmdresp c) ids (.data c') = lists (.data c') := by
  have hcmdresp : PktList.cmdresp c' ≠ .cmdresp c := fun heq => hne (PktList.cmdresp.inj heq)
  have hdata : PktList.data c' ≠ .cmdresp c := nofun
  exact ⟨update_of_ne hcmdresp _ _, update_of_ne hdata _ _⟩

theorem update_data_self (lists : PktList → List Nat) (c : Nat) (ids : List Nat) :
    update lists (.data c) ids (.cmdresp c) = lists (.cmdresp c) ∧
      update lists (.data c) ids (.data c) = ids := by
  have hne : PktList.cmdresp c ≠ .data c := nofun
  exact ⟨update_of_ne hne _ _, update_self _ _ _⟩

theorem update_cmdresp_self (lists : PktList → List Nat) (c : Nat) (ids : List Nat) :
    update lists (.cmdresp c) ids (.cmdresp c) = ids ∧
      update lists (.cmdresp c) ids (.data c) = lists (.data c) := by
  have hne : PktList.data c ≠ .cmdresp c := nofun
  exact ⟨update_self _ _ _, update_of_ne hne _ _⟩

theorem tracked_add_tail (h : ServerInv s lists (insert id held)) (hout : id ∉ held)
    (hlive : list ∈ liveLists s.clientList) :
    Tracked pktNodes (listAddTail s list id).links s.blocks (liveLists s.clientList)
      (update lists list (lists list ++ [id])) (held ∪ sending s) := by
  have htracked := h.tracked
  rw [insert_union] at htracked
  refine htracked.add_tail hlive ?_
  rintro (hin | hin)
  · exact hout hin
  · exact h.held_out id (mem_insert id held) hin

theorem set_client_others (s : ServerContext) (c : Nat) (client : ClientContext) :
    Others s (setClient s c client) c :=
  ⟨rfl, rfl, fun _ hne => update_of_ne hne _ _, fun _ _ => rfl⟩

theorem set_client_self (s : ServerContext) (c : Nat) (client : ClientContext) :
    (setClient s c client).client c = client :=
  update_self _ _ _

theorem ServerInv.set_client (h : ServerInv s lists held) (hc : c ∈ s.clientList)
    {client : ClientContext} (hnum : client.dataNum = (s.client c).dataNum)
    (hcurr : client.currPkt = (s.client c).currPkt)
    (hlen : client.currPktSentLen = (s.client c).currPktSentLen) :
    ServerInv (setClient s c client) lists held := by
  have hself := set_client_self s c client
  have hothers := set_client_others s c client
  have hsending : sending (setClient s c client) = sending s := by
    refine sending_congr rfl fun c' => ?_
    by_cases heq : c' = c
    · rw [heq, hself, hcurr]
    · rw [hothers.client c' heq]
  have hconnection : connection (setClient s c client) lists c = connection s lists c := by
    unfold connection
    rw [hself, hcurr, hlen]
    rfl
  refine h.of_client hothers (fun _ _ => ⟨rfl, rfl⟩) ?_ ?_ ?_ ?_ ?_
  · rw [hsending]
    exact h.tracked
  · rw [hsending]
    exact h.held_out
  · rw [hself, hcurr]
    exact fun id hid c' hc' hid' => h.one_sender c' hc' c hc id hid' hid
  · rw [hself, hnum]
    exact h.data_num c hc
  · rw [hconnection]
    exact h.streams c hc

theorem add_data_spec (h : ServerInv s lists (insert id held)) (hout : id ∉ held)
    (hc : c ∈ s.clientList) :
    ServerInv (addData s c id) (update lists (.data c) (lists (.data c) ++ [id]))
      held := by
  have hself : (addData s c id).client c =
      { s.client c with dataNum := (s.client c).dataNum + 1 } := update_self _ _ _
  have hother : ∀ c' ≠ c, (addData s c id).client c' = s.client c' :=
    fun c' hne => update_of_ne hne _ _
  have hsending : sending (addData s c id) = sending s := by
    refine sending_congr rfl fun c' => ?_
    by_cases heq : c' = c
    · rw [heq, hself]
    · rw [hother c' heq]
  have hothers : Others s (addData s c id) c :=
    ⟨rfl, rfl, hother, fun c' hne => update_of_ne hne _ _⟩
  refine h.of_client hothers (fun _ hne => update_data_other _ _ _ hne) ?_ ?_ ?_ ?_ ?_
  · rw [hsending]
    exact tracked_add_tail h hout (data_live hc)
  · rw [hsending]
    exact fun id' hid' => h.held_out id' (Set.mem_insert_of_mem id hid')
  · rw [hself]
    exact fun id' hid' c' hc' hid'' => h.one_sender c' hc' c hc id' hid'' hid'
  · rw [hself, (update_data_self _ _ _).2, length_append]
    show (s.client c).dataNum + 1 = _
    rw [h.data_num c hc]
    rfl
  · have hwire : (addData s c id).wire c =
        { s.wire c with media := (s.wire c).media ++ [s.buf id] } := update_self _ _ _
    have hconnection : connection (addData s c id)
        (update lists (.data c) (lists (.data c) ++ [id])) c =
          { connection s lists c with
            data := (connection s lists c).data ++ [s.buf id]
            wire := { s.wire c with media := (s.wire c).media ++ [s.buf id] } } := by
      unfold connection
      rw [hself, hwire, (update_data_self _ _ _).1, (update_data_self _ _ _).2, map_append]
      rfl
    rw [hconnection]
    exact (h.streams c hc).add_data (s.buf id)

theorem add_cmdresp_spec (h : ServerInv s lists (insert id held)) (hout : id ∉ held)
    (hc : c ∈ s.clientList) :
    ServerInv (addCmdresp s c id) (update lists (.cmdresp c) (lists (.cmdresp c) ++ [id]))
      held := by
  have hothers : Others s (addCmdresp s c id) c :=
    ⟨rfl, rfl, fun _ _ => rfl, fun c' hne => update_of_ne hne _ _⟩
  refine h.of_client hothers (fun _ hne => update_cmdresp_other _ _ _ hne) ?_ ?_ ?_ ?_ ?_
  · exact tracked_add_tail h hout (cmdresp_live hc)
  · exact fun id' hid' => h.held_out id' (Set.mem_insert_of_mem id hid')
  · exact fun id' hid' c' hc' hid'' => h.one_sender c' hc' c hc id' hid'' hid'
  · rw [(update_cmdresp_self _ _ _).2]
    exact h.data_num c hc
  · have hwire : (addCmdresp s c id).wire c =
        { s.wire c with resp := (s.wire c).resp ++ [s.buf id] } := update_self _ _ _
    have hconnection : connection (addCmdresp s c id)
        (update lists (.cmdresp c) (lists (.cmdresp c) ++ [id])) c =
          { connection s lists c with
            resp := (connection s lists c).resp ++ [s.buf id]
            wire := { s.wire c with resp := (s.wire c).resp ++ [s.buf id] } } := by
      unfold connection
      rw [hwire, (update_cmdresp_self _ _ _).1, (update_cmdresp_self _ _ _).2, map_append]
      rfl
    rw [hconnection]
    exact (h.streams c hc).add_resp (s.buf id)

/-! ## Sending -/

theorem start_spec (h : ServerInv s lists held) (hc : c ∈ s.clientList)
    (hnone : (s.client c).currPkt = none) (hlive : list ∈ liveLists s.clientList)
    (hlist : lists list = id :: ids) {client : ClientContext} (hcurr : client.currPkt = some id)
    (hother : ∀ c' ≠ c, update lists list ids (.cmdresp c') = lists (.cmdresp c') ∧
      update lists list ids (.data c') = lists (.data c'))
    (hnum : client.dataNum = (update lists list ids (.data c)).length)
    (hstream : StreamOk (connection (setClient (listDel s id) c client)
      (update lists list ids) c)) :
    ServerInv (setClient (listDel s id) c client) (update lists list ids) held := by
  obtain ⟨htracked, hout⟩ := tracked_list_del h.tracked hlive hlist
  have hself := set_client_self (listDel s id) c client
  have hothers : Others s (setClient (listDel s id) c client) c :=
    ⟨rfl, rfl, fun _ hne => update_of_ne hne _ _, fun _ _ => rfl⟩
  have hsending : sending (setClient (listDel s id) c client) = insert id (sending s) := by
    ext id'
    constructor
    · rintro ⟨c', hc', hid'⟩
      by_cases heq : c' = c
      · rw [heq, hself, hcurr] at hid'
        exact .inl (some.inj hid').symm
      · rw [hothers.client c' heq] at hid'
        exact .inr ⟨c', hc', hid'⟩
    · rintro (rfl | ⟨c', hc', hid'⟩)
      · refine ⟨c, hc, ?_⟩
        rw [hself]
        exact hcurr
      · have hne : c' ≠ c := by
          rintro rfl
          rw [hnone] at hid'
          cases hid'
        refine ⟨c', hc', ?_⟩
        rw [hothers.client c' hne]
        exact hid'
  refine h.of_client hothers hother ?_ ?_ ?_ ?_ hstream
  · rw [hsending, union_insert]
    exact htracked
  · rw [hsending]
    rintro id' hid' (rfl | hin)
    · exact hout (.inl hid')
    · exact h.held_out id' hid' hin
  · rw [hself, hcurr]
    intro id' hid' c' hc' hid''
    obtain rfl := some.inj hid'
    exact absurd (.inr (mem_sending hc' hid'')) hout
  · rw [hself]
    exact hnum

theorem set_client_twice (s : ServerContext) (c : Nat) (client client' : ClientContext) :
    setClient (setClient s c client) c client' = setClient s c client' := by
  unfold setClient
  rw [update_idem]

theorem next_packet_spec (h : ServerInv s lists held) (hc : c ∈ s.clientList) :
    ∃ found s', nextPacket s c = some (found, s') ∧ (∃ lists', ServerInv s' lists' held) ∧
      s'.clientList = s.clientList ∧ ∀ id, found = some id → (s'.client c).currPkt = some id := by
  unfold nextPacket
  cases hcurr : (s.client c).currPkt with
  | some id => exact ⟨some id, s, rfl, ⟨lists, h⟩, rfl, fun id' hid' => hcurr.trans hid'⟩
  | none =>
    have hempty : (connection s lists c).current = none := by
      unfold connection
      rw [hcurr]
      rfl
    cases hresp : lists (.cmdresp c) with
    | cons id ids =>
      have hnext : s.links.next (.head (.cmdresp c)) = .pkt id :=
        h.tracked.next_head (cmdresp_live hc) hresp
      rw [hnext]
      refine ⟨some id, _, rfl, ⟨_, start_spec h hc hcurr (cmdresp_live hc) hresp rfl
        (fun _ hne => update_cmdresp_other _ _ _ hne) ?_ ?_⟩, rfl, fun id' hid' => ?_⟩
      · rw [(update_cmdresp_self _ _ _).2]
        exact h.data_num c hc
      · have hfirst : (connection s lists c).resp = s.buf id :: ids.map s.buf := by
          show (lists (.cmdresp c)).map s.buf = _
          rw [hresp]
          rfl
        have hstart := (h.streams c hc).start_resp hempty hfirst
        unfold connection
        rw [set_client_self, (update_cmdresp_self _ _ _).1, (update_cmdresp_self _ _ _).2]
        exact hstart
      · rw [set_client_self]
        exact hid'
    | nil =>
      have hnext : s.links.next (.head (.cmdresp c)) = .head (.cmdresp c) :=
        of_decide_eq_true ((h.tracked.is_empty_iff (cmdresp_live hc)).mpr hresp)
      rw [hnext]
      dsimp only
      rw [if_pos rfl]
      cases hdata : lists (.data c) with
      | nil =>
        have hnext' : s.links.next (.head (.data c)) = .head (.data c) :=
          of_decide_eq_true ((h.tracked.is_empty_iff (data_live hc)).mpr hdata)
        rw [hnext']
        dsimp only
        rw [if_pos rfl]
        exact ⟨none, s, rfl, ⟨lists, h⟩, rfl, nofun⟩
      | cons id ids =>
        have hnext' : s.links.next (.head (.data c)) = .pkt id :=
          h.tracked.next_head (data_live hc) hdata
        rw [hnext']
        dsimp only
        rw [set_client_self]
        have hstate : ∀ client client',
            setClient (listDel (setClient s c client) id) c client' =
              setClient (listDel s id) c client' :=
          fun client client' => set_client_twice (listDel s id) c client client'
        rw [hstate]
        refine ⟨some id, _, rfl, ⟨_, start_spec h hc hcurr (data_live hc) hdata rfl
          (fun _ hne => update_data_other _ _ _ hne) ?_ ?_⟩, rfl, fun id' hid' => ?_⟩
        · rw [(update_data_self _ _ _).2]
          show (s.client c).dataNum - 1 = _
          rw [h.data_num c hc, hdata, length_cons]
          omega
        · have hfirst : (connection s lists c).data = s.buf id :: ids.map s.buf := by
            show (lists (.data c)).map s.buf = _
            rw [hdata]
            rfl
          have hstart := (h.streams c hc).start_data hempty hfirst
          unfold connection
          rw [set_client_self, (update_data_self _ _ _).1, (update_data_self _ _ _).2]
          exact hstart
        · rw [set_client_self]
          exact hid'

/-- The state when `send` took `ret` bytes, before the packet is looked at. -/
def tookBytes (s : ServerContext) (c id ret : Nat) : ServerContext :=
  let client := s.client c
  let wire := s.wire c
  let bytes := ((s.buf id).drop client.currPktSentLen).take ret
  setClient (setWire s c { wire with socket := wire.socket ++ bytes }) c
    { client with currPktSentLen := client.currPktSentLen + ret }

theorem took_bytes_client (s : ServerContext) (c id ret : Nat) :
    (tookBytes s c id ret).client c =
      { s.client c with currPktSentLen := (s.client c).currPktSentLen + ret } :=
  set_client_self _ _ _

theorem sent_bytes_eq (s : ServerContext) (c id ret : Nat) :
    sentBytes s c id ret =
      if (s.buf id).length ≤ (s.client c).currPktSentLen + ret then
        setClient (freePacket (tookBytes s c id ret) id) c
          { (tookBytes s c id ret).client c with currPkt := none }
      else tookBytes s c id ret := by
  have hfreed : ∀ client, setClient (freePacket (tookBytes s c id ret) id) c client =
      setClient (freePacket (setWire s c { s.wire c with
        socket := (s.wire c).socket ++
          ((s.buf id).drop (s.client c).currPktSentLen).take ret }) id) c client :=
    fun client => set_client_twice (freePacket (setWire s c _) id) c _ client
  rw [hfreed, took_bytes_client]
  rfl

/-- More bytes of the current packet are sent. -/
theorem took_bytes_spec (h : ServerInv s lists held) (hc : c ∈ s.clientList)
    (hcurr : (s.client c).currPkt = some id) (ret : Nat) :
    ServerInv (tookBytes s c id ret) lists held := by
  have hclient := took_bytes_client s c id ret
  have hothers : Others s (tookBytes s c id ret) c :=
    ⟨rfl, rfl, fun _ hne => update_of_ne hne _ _, fun _ hne => update_of_ne hne _ _⟩
  have hsending : sending (tookBytes s c id ret) = sending s := by
    refine sending_congr rfl fun c' => ?_
    by_cases heq : c' = c
    · rw [heq, hclient]
    · rw [hothers.client c' heq]
  refine h.of_client hothers (fun _ _ => ⟨rfl, rfl⟩) ?_ ?_ ?_ ?_ ?_
  · rw [hsending]
    exact h.tracked
  · rw [hsending]
    exact h.held_out
  · rw [hclient]
    exact fun id' hid' c' hc' hid'' => h.one_sender c' hc' c hc id' hid'' hid'
  · rw [hclient]
    exact h.data_num c hc
  · have hpacket : (connection s lists c).current = some (s.buf id) := by
      unfold connection
      rw [hcurr]
      rfl
    have hwire : (tookBytes s c id ret).wire c = { s.wire c with
        socket := (s.wire c).socket ++ ((s.buf id).drop (s.client c).currPktSentLen).take ret } :=
      update_self _ _ _
    have hmore := (h.streams c hc).advance hpacket ret
    unfold connection
    rw [hclient, hwire]
    exact hmore

theorem finish_spec (h : ServerInv s lists held) (hc : c ∈ s.clientList)
    (hcurr : (s.client c).currPkt = some id)
    (hend : (s.buf id).length ≤ (s.client c).currPktSentLen) :
    ServerInv (setClient (freePacket s id) c { s.client c with currPkt := none })
      (update lists .free (lists .free ++ [id])) held := by
  have hself := set_client_self (freePacket s id) c { s.client c with currPkt := none }
  have hothers : Others s (setClient (freePacket s id) c { s.client c with currPkt := none }) c :=
    ⟨rfl, rfl, fun _ hne => update_of_ne hne _ _, fun _ _ => rfl⟩
  have hout : id ∉ sending (setClient (freePacket s id) c { s.client c with currPkt := none }) := by
    rintro ⟨c', hc', hid'⟩
    by_cases heq : c' = c
    · rw [heq, hself] at hid'
      cases hid'
    · rw [hothers.client c' heq] at hid'
      exact heq (h.one_sender c' hc' c hc id hid' hcurr)
  have hsending : sending s =
      insert id (sending (setClient (freePacket s id) c { s.client c with currPkt := none })) := by
    ext id'
    constructor
    · rintro ⟨c', hc', hid'⟩
      by_cases heq : c' = c
      · rw [heq, hcurr] at hid'
        exact .inl (some.inj hid').symm
      · refine .inr ⟨c', hc', ?_⟩
        rw [hothers.client c' heq]
        exact hid'
    · rintro (rfl | ⟨c', hc', hid'⟩)
      · exact mem_sending hc hcurr
      · by_cases heq : c' = c
        · rw [heq, hself] at hid'
          cases hid'
        · rw [hothers.client c' heq] at hid'
          exact mem_sending hc' hid'
  have hfree : ∀ other ≠ PktList.free,
      update lists .free (lists .free ++ [id]) other = lists other :=
    fun _ hne => update_of_ne hne _ _
  refine h.of_client hothers
    (fun c' _ => ⟨hfree (.cmdresp c') nofun, hfree (.data c') nofun⟩) ?_ ?_ ?_ ?_ ?_
  · have htracked := h.tracked
    rw [hsending, union_insert] at htracked
    refine htracked.add_tail (free_live _) ?_
    rintro (hin | hin)
    · exact h.held_out id hin (mem_sending hc hcurr)
    · exact hout hin
  · intro id' hid' hin
    exact h.held_out id' hid' (hsending ▸ Set.mem_insert_of_mem id hin)
  · rw [hself]
    exact nofun
  · rw [hself, hfree (.data c) nofun]
    exact h.data_num c hc
  · have hpacket : (connection s lists c).current = some (s.buf id) := by
      unfold connection
      rw [hcurr]
      rfl
    have hdone := (h.streams c hc).finish hpacket hend
    unfold connection
    rw [hself, hfree (.data c) nofun, hfree (.cmdresp c) nofun]
    exact hdone

theorem sent_bytes_spec (h : ServerInv s lists held) (hc : c ∈ s.clientList)
    (hcurr : (s.client c).currPkt = some id) (ret : Nat) :
    (∃ lists', ServerInv (sentBytes s c id ret) lists' held) ∧
      (sentBytes s c id ret).clientList = s.clientList := by
  have htook := took_bytes_spec h hc hcurr ret
  have hclient := took_bytes_client s c id ret
  rw [sent_bytes_eq]
  by_cases hend : (s.buf id).length ≤ (s.client c).currPktSentLen + ret
  · have hcurr' : ((tookBytes s c id ret).client c).currPkt = some id := by
      rw [hclient]
      exact hcurr
    have hend' : ((tookBytes s c id ret).buf id).length ≤
        ((tookBytes s c id ret).client c).currPktSentLen := by
      rw [hclient]
      exact hend
    rw [if_pos hend]
    exact ⟨⟨_, finish_spec htook hc hcurr' hend'⟩, rfl⟩
  · rw [if_neg hend]
    exact ⟨⟨lists, htook⟩, rfl⟩

/-- `send_client` keeps the packets in their places, whatever `send` returns. -/
theorem send_loop_spec (results : List SendResult) (h : ServerInv s lists held)
    (hc : c ∈ s.clientList) :
    ∃ ret rest s', sendLoop c results s = some (ret, rest, s') ∧
      (∃ lists', ServerInv s' lists' held) ∧ s'.clientList = s.clientList := by
  induction results generalizing s lists with
  | nil =>
    obtain ⟨found, s1, hnext, hinv, hclients, -⟩ := next_packet_spec h hc
    refine ⟨0, [], s1, ?_, hinv, hclients⟩
    rw [sendLoop, hnext]
    rfl
  | cons result results ih =>
    obtain ⟨found, s1, hnext, ⟨lists1, hinv⟩, hclients, hfound⟩ := next_packet_spec h hc
    rw [sendLoop, hnext]
    cases found with
    | none => exact ⟨0, _, s1, rfl, ⟨lists1, hinv⟩, hclients⟩
    | some id =>
      cases result with
      | again => exact ⟨0, _, s1, rfl, ⟨lists1, hinv⟩, hclients⟩
      | error => exact ⟨-1, _, s1, rfl, ⟨lists1, hinv⟩, hclients⟩
      | sent n =>
        rw [bind_some]
        dsimp only
        by_cases hzero : min n ((s1.buf id).length - (s1.client c).currPktSentLen) = 0
        · rw [if_pos hzero]
          exact ⟨0, _, s1, rfl, ⟨lists1, hinv⟩, hclients⟩
        · rw [if_neg hzero]
          have hc1 : c ∈ s1.clientList := hclients ▸ hc
          obtain ⟨⟨lists2, hinv2⟩, hclients2⟩ := sent_bytes_spec hinv hc1 (hfound id rfl)
            (min n ((s1.buf id).length - (s1.client c).currPktSentLen))
          obtain ⟨ret, rest, s', hrun, hinv', hclients'⟩ := ih hinv2 (hclients2 ▸ hc1)
          exact ⟨ret, rest, s', hrun, hinv', hclients'.trans (hclients2.trans hclients)⟩

theorem send_client_spec (h : ServerInv s lists held) (hc : c ∈ s.clientList) :
    ∃ ret s', sendClient s c = some (ret, s') ∧ (∃ lists', ServerInv s' lists' held) ∧
      s'.clientList = s.clientList := by
  obtain ⟨ret, rest, s1, hrun, ⟨lists1, hinv⟩, hclients⟩ := send_loop_spec (s.sends c) h hc
  refine ⟨ret, { s1 with sends := update s1.sends c rest }, ?_, ⟨lists1, ?_⟩, hclients⟩
  · unfold sendClient
    rw [hrun]
    rfl
  · exact ⟨hinv.tracked, hinv.held_out, hinv.one_sender, hinv.data_num, hinv.streams,
      hinv.clients_nodup⟩

end FullhanRtos.RtspServer
