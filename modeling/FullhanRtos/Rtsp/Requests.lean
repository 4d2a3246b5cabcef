import FullhanRtos.Lib.CString
import FullhanRtos.Lib.Cuts

/-!
# RTSP requests

`rtsp_handle_request` handles what one `recv` returns. It looks at one request of a read and forgets
the rest, so a request that is cut, or the second one of a read, is lost. `same_responses_iff` says
that requests which are answered are answered the same only if every read is one whole request.
-/

namespace FullhanRtos.Rtsp

open Bytes CString Cuts List

/-! ## The session -/

inductive ClientStatus
  | stopPlay
  | startPlay
  deriving DecidableEq

/-- `struct client_session`. The buffer and the number are strings. -/
structure ClientSession where
  readBuf : List Byte
  cseq : List Byte
  sessionNum : BitVec 32
  streamId : BitVec 32
  deriving DecidableEq

/-- `struct client_context`, as far as requests depend on it, and how often the play hook was
called. -/
structure ClientContext where
  session : ClientSession
  status : ClientStatus
  cmdrespList : List (List Byte)
  hookCalls : Nat
  deriving DecidableEq

/-- What the rest of the server has for a request: whether packets can be allocated, the text of
`generate_sdp`, and the time. -/
structure Served where
  pkt : Bool
  sdpPkt : Bool
  sdp : Option (List Byte)
  msec : BitVec 32

/-- `sizeof(session->read_buf)` and `sizeof(session->cseq)` -/
def readBufSize : Nat := 512

def cseqSize : Nat := 12

def crlf : List Byte := ascii "\r\n"

/-- `my_strtol`, from a value on. The second bound of a digit is 9 and not '9'. -/
def myStrtol (v : BitVec 32) : List Byte → BitVec 32
  | [] => v
  | c :: str =>
    if 48 ≤ c.toNat ∧ c.toNat ≤ 9 then myStrtol (v * 10 + BitVec.ofNat 32 (c.toNat - 48)) str
    else v

/-! ## The header fields -/

def readCseq (start : List Byte) (session : ClientSession) : ClientSession :=
  match strstr (ascii "CSeq: ") start with
  | none => session
  | some subStr =>
    match strstr crlf subStr with
    | none => session
    | some pos =>
      let len := subStr.length - pos.length - 6
      let len := if cseqSize ≤ len then cseqSize - 1 else len
      { session with cseq := (subStr.drop 6).take len }

def readInterleaved (start : List Byte) (session : ClientSession) : ClientSession :=
  match strstr (ascii "interleaved=") start with
  | none => session
  | some subStr =>
    match strstr (ascii "-") subStr with
    | none => session
    | some _ => { session with streamId := myStrtol 0 (subStr.drop 12) / 2 }

def readSession (start : List Byte) (session : ClientSession) : ClientSession :=
  match strstr (ascii "Session: ") start with
  | none => session
  | some subStr =>
    match strstr crlf subStr with
    | none => session
    | some _ => { session with sessionNum := myStrtol 0 (subStr.drop 9) }

/-! ## The methods -/

def respond (client : ClientContext) (pkt : List Byte) : ClientContext :=
  { client with cmdrespList := client.cmdrespList ++ [pkt] }

def generateResponseHeader (session : ClientSession) : List Byte :=
  ascii "RTSP/1.0 200 OK\r\nCSeq: " ++ session.cseq ++ crlf

def rtspHandleOptions (served : Served) (client : ClientContext) : Int × ClientContext :=
  if served.pkt then
    (0, respond client (generateResponseHeader client.session ++
      ascii "Public: OPTIONS, DESCRIBE, SETUP, TEARDOWN, PLAY, PAUSE\r\n\r\n"))
  else (-1, client)

def rtspHandleDescribe (served : Served) (client : ClientContext) : Int × ClientContext :=
  match served.sdp with
  | some sdp =>
    if served.pkt && served.sdpPkt then
      (0, respond client (generateResponseHeader client.session ++
        ascii "Content-Type: application/sdp\r\n" ++ ascii "Content-Length: " ++
        ascii (toString sdp.length) ++ ascii "\r\n\r\n" ++ sdp))
    else (-1, client)
  | none => (-1, client)

/-- `session->session_num` of a set-up. -/
def setupNumber (served : Served) (session : ClientSession) : ClientSession :=
  if session.sessionNum = 0 then { session with sessionNum := served.msec } else session

def rtspHandleSetup (served : Served) (client : ClientContext) : Int × ClientContext :=
  if served.pkt then
    let session := setupNumber served client.session
    (0, respond { client with session }
      (generateResponseHeader session ++
        ascii "Session: " ++ ascii (toString session.sessionNum.toNat) ++ crlf ++
        ascii "Transport: RTP/AVP/TCP;unicast;interleaved=" ++
        ascii (toString (session.streamId * 2).toInt) ++ ascii "-" ++
        ascii (toString (session.streamId * 2 + 1).toInt) ++ ascii "\r\n\r\n"))
  else (-1, client)

def rtspHandlePlay (served : Served) (client : ClientContext) : Int × ClientContext :=
  if served.pkt then
    let client := respond client (generateResponseHeader client.session ++ crlf)
    let hookCalls :=
      if client.status = .startPlay then client.hookCalls else client.hookCalls + 1
    (0, { client with hookCalls, status := .startPlay })
  else (-1, client)

def rtspHandleTeardown (client : ClientContext) : Int × ClientContext :=
  (-1, { client with status := .stopPlay })

/-- The handler of the method in the buffer. -/
def handleMethod (served : Served) (client : ClientContext) : Int × ClientContext :=
  let readBuf := client.session.readBuf
  if (strstr (ascii "OPTIONS") readBuf).isSome then rtspHandleOptions served client
  else if (strstr (ascii "DESCRIBE") readBuf).isSome then rtspHandleDescribe served client
  else if (strstr (ascii "SETUP") readBuf).isSome then rtspHandleSetup served client
  else if (strstr (ascii "PLAY") readBuf).isSome then rtspHandlePlay served client
  else if (strstr (ascii "TEARDOWN") readBuf).isSome then rtspHandleTeardown client
  else (0, client)

/-- `session->read_buf[0] = 0` -/
def clearBuf (client : ClientContext) : ClientContext :=
  { client with session := { client.session with readBuf := [] } }

/-! ## A read -/

/-- `rtsp_handle_request` when `recv` returns `bytes`, or none for an error or the end. -/
def rtspHandleRequest (served : Served) (client : ClientContext) (bytes : Option (List Byte)) :
    Int × ClientContext :=
  match bytes with
  | none => (-1, client)
  | some bytes =>
    let buf := client.session.readBuf ++ bytes
    if readBufSize ≤ buf.length then (-1, client)
    else
      let session := { client.session with readBuf := cString buf }
      if (strstr (crlf ++ crlf) session.readBuf).isNone then
        (0, clearBuf { client with session })
      else
        match strstr crlf session.readBuf with
        | none => (0, { client with session })
        | some pos =>
          let start := pos.drop 2
          let session := readSession start (readInterleaved start (readCseq start session))
          let (ret, client) := handleMethod served { client with session }
          (ret, clearBuf client)

def newClient : ClientContext := ⟨⟨[], [], 0, 0⟩, .stopPlay, [], 0⟩

/-- A client of the server thread, which deletes a client whose request fails. -/
structure Connection where
  client : ClientContext
  deleted : Bool
  deriving DecidableEq

/-- One read. What the server has may be different for each response. -/
def receive (served : Nat → Served) (connection : Connection) (bytes : List Byte) : Connection :=
  if connection.deleted then connection
  else
    let (ret, client) := rtspHandleRequest (served connection.client.cmdrespList.length)
      connection.client (some bytes)
    ⟨client, ret < 0⟩

def serve (served : Nat → Served) (client : ClientContext) (reads : List (List Byte)) :
    Connection :=
  reads.foldl (receive served) ⟨client, false⟩

/-! ## Requests that are answered -/

def methods : List (List Byte) := [ascii "OPTIONS", ascii "DESCRIBE", ascii "SETUP", ascii "PLAY"]

def startsMethod (bytes : List Byte) : Bool := methods.any fun method => method <+: bytes

def hasEnd (bytes : List Byte) : Bool := crlf ++ crlf <:+: bytes

structure AnsweredRequest (bytes : List Byte) : Prop where
  length_lt : bytes.length < readBufSize
  string : 0 ∉ bytes
  method : startsMethod bytes = true
  once : ∀ method ∈ methods, ¬ method <:+: bytes.tail
  complete : crlf ++ crlf <:+ bytes
  first : ∀ l, l <+: bytes → l ≠ bytes → hasEnd l = false

/-- Nothing is missing for a response. -/
structure ServedOk (served : Served) : Prop where
  pkt : served.pkt = true
  sdpPkt : served.sdpPkt = true
  sdp : served.sdp.isSome = true

variable {served : Served} {client : ClientContext} {bytes : List Byte} {method : List Byte}

/-! ## Methods in the stream -/

theorem starts_method_iff : startsMethod bytes = true ↔ ∃ method ∈ methods, method <+: bytes := by
  unfold startsMethod
  rw [any_eq_true]
  simp only [decide_eq_true_eq]

theorem starts_method_stable : Stable startsMethod := by
  intro l m h
  obtain ⟨method, hmem, hmethod⟩ := starts_method_iff.mp h
  exact starts_method_iff.mpr ⟨method, hmem, hmethod.trans (prefix_append l m)⟩

theorem method_letters (hmem : method ∈ methods) :
    method ≠ [] ∧ 10 ∉ method := by
  simp only [methods, mem_cons, not_mem_nil, or_false] at hmem
  rcases hmem with rfl | rfl | rfl | rfl <;> decide

theorem marks_pos (hmem : method ∈ methods) (h : method <:+: bytes) :
    1 ≤ marks startsMethod bytes := by
  induction bytes with
  | nil => exact absurd (infix_nil.mp h) (method_letters hmem).1
  | cons c bytes ih =>
    rw [marks]
    rcases infix_cons_iff.mp h with hprefix | hinfix
    · rw [if_pos (starts_method_iff.mpr ⟨method, hmem, hprefix⟩)]
      exact Nat.le_add_right _ _
    · exact (ih hinfix).trans (Nat.le_add_left _ _)

theorem marks_line {line : List Byte} (hmethods : ∀ method ∈ methods, ¬ method <:+: line)
    (hline : line = [] ∨ line.getLast? = some 10) (rest : List Byte) :
    marks startsMethod (line ++ rest) = marks startsMethod rest := by
  induction line with
  | nil => rfl
  | cons c line ih =>
    have hlast : (c :: line).getLast? = some 10 := hline.resolve_left (cons_ne_nil c line)
    have hnot : ¬ startsMethod (c :: line ++ rest) = true := by
      rw [starts_method_iff]
      rintro ⟨method, hmem, hprefix⟩
      rcases prefix_or_prefix_of_prefix hprefix (prefix_append (c :: line) rest) with
        hshort | hlong
      · exact hmethods method hmem hshort.isInfix
      · exact (method_letters hmem).2 (hlong.subset (mem_of_getLast? hlast))
    have hrest : line = [] ∨ line.getLast? = some 10 := by
      cases line with
      | nil => exact Or.inl rfl
      | cons d line => exact Or.inr (by rwa [getLast?_cons_cons] at hlast)
    have hshorter : ∀ method ∈ methods, ¬ method <:+: line := fun method hmem h =>
      hmethods method hmem (infix_cons_iff.mpr (Or.inr h))
    rw [cons_append] at hnot ⊢
    rw [marks, if_neg hnot, zero_add]
    exact ih hshorter hrest

theorem AnsweredRequest.frame_ok (h : AnsweredRequest bytes) :
    FrameOk startsMethod hasEnd bytes := by
  obtain ⟨method, hmem, hprefix⟩ := starts_method_iff.mp h.method
  have hne : bytes ≠ [] := by
    rintro rfl
    exact (method_letters hmem).1 (prefix_nil.mp hprefix)
  refine ⟨hne, fun rest => marks_line h.once ?_ rest, h.first⟩
  obtain ⟨front, rfl⟩ := h.complete
  right
  cases front with
  | nil => rfl
  | cons c front =>
    show (front ++ (crlf ++ crlf)).getLast? = some 10
    rw [getLast?_append_of_ne_nil _ (by decide)]
    rfl

/-! ## Responses -/

/-- A method has a response, or fails and has none. -/
structure Answers (served : Served) (client : ClientContext) (result : Int × ClientContext) :
    Prop where
  response : 0 ≤ result.1 → result.2.cmdrespList.length = client.cmdrespList.length + 1
  fails : result.1 < 0 → ¬ ServedOk served ∧ result.2.cmdrespList = client.cmdrespList

theorem answers_respond {client' : ClientContext} (pkt : List Byte)
    (h : client'.cmdrespList = client.cmdrespList ++ [pkt]) :
    Answers served client (0, client') := by
  refine ⟨fun _ => ?_, fun hfails => absurd hfails (lt_irrefl 0)⟩
  show client'.cmdrespList.length = _
  rw [h, length_append]
  rfl

theorem answers_fail (h : ¬ ServedOk served) : Answers served client (-1, client) :=
  ⟨fun hret => absurd hret (show ¬ (0 : Int) ≤ -1 by decide), fun _ => ⟨h, rfl⟩⟩

theorem options_answers : Answers served client (rtspHandleOptions served client) := by
  unfold rtspHandleOptions
  by_cases hpkt : served.pkt = true
  · rw [if_pos hpkt]
    exact answers_respond _ rfl
  · rw [if_neg hpkt]
    exact answers_fail fun h => hpkt h.pkt

theorem describe_answers : Answers served client (rtspHandleDescribe served client) := by
  unfold rtspHandleDescribe
  cases hsdp : served.sdp with
  | none =>
    refine answers_fail fun h => ?_
    have hsome := h.sdp
    rw [hsdp] at hsome
    exact Bool.false_ne_true hsome
  | some sdp =>
    dsimp only
    by_cases hpkts : (served.pkt && served.sdpPkt) = true
    · rw [if_pos hpkts]
      exact answers_respond _ rfl
    · rw [if_neg hpkts]
      refine answers_fail fun h => hpkts ?_
      rw [h.pkt, h.sdpPkt]
      rfl

theorem setup_answers : Answers served client (rtspHandleSetup served client) := by
  unfold rtspHandleSetup
  by_cases hpkt : served.pkt = true
  · rw [if_pos hpkt]
    exact answers_respond _ rfl
  · rw [if_neg hpkt]
    exact answers_fail fun h => hpkt h.pkt

theorem play_answers : Answers served client (rtspHandlePlay served client) := by
  unfold rtspHandlePlay
  by_cases hpkt : served.pkt = true
  · rw [if_pos hpkt]
    exact answers_respond _ rfl
  · rw [if_neg hpkt]
    exact answers_fail fun h => hpkt h.pkt

/-- The handlers answer if one of the methods is in the buffer, and otherwise leave the responses
as they are. -/
theorem method_answers (served : Served) (client : ClientContext) :
    ((∃ method ∈ methods, method <:+: client.session.readBuf) ∧
        Answers served client (handleMethod served client)) ∨
      ((∀ method ∈ methods, ¬ method <:+: client.session.readBuf) ∧
        (handleMethod served client).2.cmdrespList = client.cmdrespList) := by
  unfold handleMethod
  simp only [strstr_is_some]
  by_cases hoptions : ascii "OPTIONS" <:+: client.session.readBuf
  · rw [if_pos hoptions]
    exact Or.inl ⟨⟨_, mem_cons_self, hoptions⟩, options_answers⟩
  rw [if_neg hoptions]
  by_cases hdescribe : ascii "DESCRIBE" <:+: client.session.readBuf
  · rw [if_pos hdescribe]
    exact Or.inl ⟨⟨_, mem_of_getElem? (i := 1) rfl, hdescribe⟩, describe_answers⟩
  rw [if_neg hdescribe]
  by_cases hsetup : ascii "SETUP" <:+: client.session.readBuf
  · rw [if_pos hsetup]
    exact Or.inl ⟨⟨_, mem_of_getElem? (i := 2) rfl, hsetup⟩, setup_answers⟩
  rw [if_neg hsetup]
  by_cases hplay : ascii "PLAY" <:+: client.session.readBuf
  · rw [if_pos hplay]
    exact Or.inl ⟨⟨_, mem_of_getElem? (i := 3) rfl, hplay⟩, play_answers⟩
  rw [if_neg hplay]
  refine Or.inr ⟨fun method hmem => ?_, ?_⟩
  · simp only [methods, mem_cons, not_mem_nil, or_false] at hmem
    rcases hmem with rfl | rfl | rfl | rfl
    · exact hoptions
    · exact hdescribe
    · exact hsetup
    · exact hplay
  · split <;> rfl

/-! ## Reads -/

/-- A read that can be answered. -/
def takenRead (bytes : List Byte) : Bool := hasEnd bytes && decide (1 ≤ marks startsMethod bytes)

/-- The client that the handlers see for a read with the end of a header. -/
def parsedClient (client : ClientContext) (buf pos : List Byte) : ClientContext :=
  let start := pos.drop 2
  { client with session := readSession start (readInterleaved start (readCseq start
      { client.session with readBuf := cString buf })) }

/-- The fields do not change the buffer. -/
theorem parsed_buf (buf pos : List Byte) :
    (parsedClient client buf pos).session.readBuf = cString buf := by
  have hcseq : ∀ start session, (readCseq start session).readBuf = session.readBuf := by
    intro start session
    unfold readCseq
    cases strstr (ascii "CSeq: ") start with
    | none => rfl
    | some subStr => dsimp only; cases strstr crlf subStr <;> rfl
  have hinterleaved : ∀ start session,
      (readInterleaved start session).readBuf = session.readBuf := by
    intro start session
    unfold readInterleaved
    cases strstr (ascii "interleaved=") start with
    | none => rfl
    | some subStr => dsimp only; cases strstr (ascii "-") subStr <;> rfl
  have hsession : ∀ start session, (readSession start session).readBuf = session.readBuf := by
    intro start session
    unfold readSession
    cases strstr (ascii "Session: ") start with
    | none => rfl
    | some subStr => dsimp only; cases strstr crlf subStr <;> rfl
  unfold parsedClient
  rw [hsession, hinterleaved, hcseq]

/-- What a read comes to when nothing is left in the buffer. -/
theorem request_cases (served : Served) (bytes : List Byte) (hbuf : client.session.readBuf = []) :
    (readBufSize ≤ bytes.length ∧ rtspHandleRequest served client (some bytes) = (-1, client)) ∨
    (bytes.length < readBufSize ∧ ¬ crlf ++ crlf <:+: cString bytes ∧
      rtspHandleRequest served client (some bytes) = (0, client)) ∨
    (bytes.length < readBufSize ∧ crlf ++ crlf <:+: cString bytes ∧
      ∃ pos, rtspHandleRequest served client (some bytes) =
        ((handleMethod served (parsedClient client bytes pos)).1,
          clearBuf (handleMethod served (parsedClient client bytes pos)).2)) := by
  unfold rtspHandleRequest
  dsimp only
  rw [hbuf, nil_append]
  by_cases hlong : readBufSize ≤ bytes.length
  · rw [if_pos hlong]
    exact Or.inl ⟨hlong, rfl⟩
  right
  rw [if_neg hlong]
  by_cases hend : crlf ++ crlf <:+: cString bytes
  · right
    obtain ⟨pos', hpos'⟩ := strstr_eq_some hend
    obtain ⟨pos, hpos⟩ := strstr_eq_some
      ((prefix_append crlf crlf).isInfix.trans hend)
    refine ⟨Nat.lt_of_not_le hlong, hend, pos, ?_⟩
    rw [hpos', hpos]
    rfl
  · left
    refine ⟨Nat.lt_of_not_le hlong, hend, ?_⟩
    rw [strstr_eq_none.mpr hend, if_pos Option.isNone_none]
    show (0, { client with session := { client.session with readBuf := [] } }) = (0, client)
    rw [← hbuf]

theorem parsed_answers (served : Served) (client : ClientContext) (buf pos : List Byte) :
    ((∃ method ∈ methods, method <:+: cString buf) ∧
        Answers served client (handleMethod served (parsedClient client buf pos))) ∨
      ((∀ method ∈ methods, ¬ method <:+: cString buf) ∧
        (handleMethod served (parsedClient client buf pos)).2.cmdrespList =
          client.cmdrespList) := by
  have hcases := method_answers served (parsedClient client buf pos)
  rw [parsed_buf] at hcases
  rcases hcases with ⟨hmethod, hanswers⟩ | ⟨hnone, hsame⟩
  · exact Or.inl ⟨hmethod, hanswers.response, hanswers.fails⟩
  · exact Or.inr ⟨hnone, hsame⟩

section

variable {served : Nat → Served} {connection : Connection} {requests reads : List (List Byte)}

theorem receive_responses (served : Nat → Served) (hbuf : connection.deleted = false →
      connection.client.session.readBuf = []) (bytes : List Byte) :
    ((receive served connection bytes).deleted = false →
        (receive served connection bytes).client.session.readBuf = []) ∧
      (receive served connection bytes).client.cmdrespList.length ≤
        connection.client.cmdrespList.length + if takenRead bytes then 1 else 0 := by
  unfold receive
  cases hdeleted : connection.deleted with
  | true =>
    refine ⟨fun h => absurd (hdeleted.symm.trans h) Bool.noConfusion, Nat.le_add_right _ _⟩
  | false =>
    have hempty := hbuf hdeleted
    rcases request_cases (served connection.client.cmdrespList.length) bytes hempty with
      ⟨-, heq⟩ | ⟨-, -, heq⟩ | ⟨-, hend, pos, heq⟩
    · rw [heq]
      exact ⟨fun _ => hempty, Nat.le_add_right _ _⟩
    · rw [heq]
      exact ⟨fun _ => hempty, Nat.le_add_right _ _⟩
    · rw [heq]
      refine ⟨fun _ => rfl, ?_⟩
      show (handleMethod _ _).2.cmdrespList.length ≤ _
      rcases parsed_answers (served connection.client.cmdrespList.length) connection.client bytes
        pos with ⟨⟨method, hmem, hmethod⟩, hanswers⟩ | ⟨-, hsame⟩
      · have htaken : takenRead bytes = true :=
          Bool.and_eq_true_iff.mpr ⟨decide_eq_true (c_string_sub hend),
            decide_eq_true (marks_pos hmem (c_string_sub hmethod))⟩
        rw [if_pos htaken]
        by_cases hret : 0 ≤ (handleMethod (served connection.client.cmdrespList.length)
            (parsedClient connection.client bytes pos)).1
        · exact le_of_eq (hanswers.response hret)
        · rw [(hanswers.fails (Int.lt_of_not_ge hret)).2]
          exact Nat.le_succ _
      · rw [hsame]
        exact Nat.le_add_right _ _

theorem serve_responses_le (served : Nat → Served) (reads : List (List Byte))
    (hbuf : connection.deleted = false → connection.client.session.readBuf = []) :
    (reads.foldl (receive served) connection).client.cmdrespList.length ≤
      connection.client.cmdrespList.length + reads.countP takenRead := by
  induction reads generalizing connection with
  | nil => exact le_refl _
  | cons bytes reads ih =>
    obtain ⟨hbuf', hfirst⟩ := receive_responses served hbuf bytes
    have hrest := ih hbuf'
    rw [foldl_cons, countP_cons]
    omega

theorem receive_answered (hserved : ∀ n, ServedOk (served n)) (h : AnsweredRequest bytes)
    (hdeleted : connection.deleted = false) (hbuf : connection.client.session.readBuf = []) :
    (receive served connection bytes).deleted = false ∧
      (receive served connection bytes).client.session.readBuf = [] ∧
      (receive served connection bytes).client.cmdrespList.length =
        connection.client.cmdrespList.length + 1 := by
  have hstring := c_string_eq_self h.string
  obtain ⟨method, hmem, hmethod⟩ := starts_method_iff.mp h.method
  unfold receive
  rw [hdeleted, if_neg Bool.false_ne_true]
  rcases request_cases (served connection.client.cmdrespList.length) bytes hbuf with
    ⟨hlong, -⟩ | ⟨-, hend, -⟩ | ⟨-, -, pos, heq⟩
  · exact absurd h.length_lt (Nat.not_lt_of_le hlong)
  · rw [hstring] at hend
    exact absurd h.complete.isInfix hend
  · rw [heq]
    rcases parsed_answers (served connection.client.cmdrespList.length) connection.client bytes pos
      with ⟨-, hanswers⟩ | ⟨hnone, -⟩
    · have hret : ¬ (handleMethod (served connection.client.cmdrespList.length)
          (parsedClient connection.client bytes pos)).1 < 0 :=
        fun hneg => (hanswers.fails hneg).1 (hserved _)
      exact ⟨decide_eq_false hret, rfl, hanswers.response (not_lt.mp hret)⟩
    · rw [hstring] at hnone
      exact absurd hmethod.isInfix (hnone method hmem)

theorem serve_answered (hserved : ∀ n, ServedOk (served n))
    (hrequests : ∀ bytes ∈ requests, AnsweredRequest bytes)
    (hdeleted : connection.deleted = false) (hbuf : connection.client.session.readBuf = []) :
    (requests.foldl (receive served) connection).client.cmdrespList.length =
      connection.client.cmdrespList.length + requests.length := by
  induction requests generalizing connection with
  | nil => rfl
  | cons bytes requests ih =>
    obtain ⟨hdeleted', hbuf', hfirst⟩ := receive_answered hserved
      (hrequests bytes mem_cons_self) hdeleted hbuf
    have hrest := ih (fun bytes' hmem => hrequests bytes' (mem_cons_of_mem bytes hmem))
      hdeleted' hbuf'
    rw [foldl_cons, hrest, hfirst, length_cons]
    omega

/-- Requests that arrive alone are handled alone, and answered requests that do not lose a response
or what it says. -/
theorem same_responses_iff (hbuf : client.session.readBuf = [])
    (hreads : ∀ bytes ∈ reads, bytes ≠ []) (hcut : reads.flatten = requests.flatten) :
    (reads = requests → serve served client reads = serve served client requests) ∧
      ((∀ n, ServedOk (served n)) → (∀ bytes ∈ requests, AnsweredRequest bytes) →
        serve served client reads = serve served client requests → reads = requests) := by
  refine ⟨fun h => by rw [h], fun hserved hrequests hsame => ?_⟩
  have htaken : ∀ bytes, takenRead bytes = true →
      1 ≤ marks startsMethod bytes ∧ hasEnd bytes = true := fun bytes h =>
    ⟨of_decide_eq_true (Bool.and_eq_true_iff.mp h).2, (Bool.and_eq_true_iff.mp h).1⟩
  have hall : (serve served client requests).client.cmdrespList.length =
      client.cmdrespList.length + requests.length := serve_answered hserved hrequests rfl hbuf
  have hmost : (serve served client reads).client.cmdrespList.length ≤
      client.cmdrespList.length + reads.countP takenRead :=
    serve_responses_le served reads fun _ => hbuf
  rw [hsame] at hmost
  exact reads_eq starts_method_stable htaken
    (fun bytes hmem => (hrequests bytes hmem).frame_ok) hreads hcut (by omega)

end

/-- A server that has what every request needs. -/
def readyServer (_ : Nat) : Served := ⟨true, true, some [], 1⟩

/-- Both ways to lose a request: it is cut, or it is the second one of a read. -/
theorem responses_differ :
    serve readyServer newClient [ascii "OPTIONS * RTSP/1.0\r\nCSe", ascii "q: 1\r\n\r\n"] ≠
        serve readyServer newClient
          [ascii "OPTIONS * RTSP/1.0\r\nCSe" ++ ascii "q: 1\r\n\r\n"] ∧
      serve readyServer newClient
          [ascii "OPTIONS * RTSP/1.0\r\nCSeq: 1\r\n\r\n" ++ ascii "PLAY * RTSP/1.0\r\n\r\n"] ≠
        serve readyServer newClient
          [ascii "OPTIONS * RTSP/1.0\r\nCSeq: 1\r\n\r\n", ascii "PLAY * RTSP/1.0\r\n\r\n"] := by
  decide

/-- A request that is cut behind its first line. -/
theorem same_responses_iff_options :
    serve readyServer newClient [ascii "OPTIONS * RTSP/1.0\r\n", ascii "CSeq: 1\r\n\r\n"] ≠
      serve readyServer newClient [ascii "OPTIONS * RTSP/1.0\r\nCSeq: 1\r\n\r\n"] := by
  have hrequest : AnsweredRequest (ascii "OPTIONS * RTSP/1.0\r\nCSeq: 1\r\n\r\n") := by
    have hfirst : ∀ l ∈ (ascii "OPTIONS * RTSP/1.0\r\nCSeq: 1\r\n\r\n").inits,
        l ≠ ascii "OPTIONS * RTSP/1.0\r\nCSeq: 1\r\n\r\n" → hasEnd l = false := by decide
    exact ⟨by decide, by decide, by decide, by decide, by decide,
      fun l hl => hfirst l ((mem_inits l _).mpr hl)⟩
  intro hsame
  have heq : [ascii "OPTIONS * RTSP/1.0\r\n", ascii "CSeq: 1\r\n\r\n"] =
      [ascii "OPTIONS * RTSP/1.0\r\nCSeq: 1\r\n\r\n"] :=
    (same_responses_iff rfl (by decide) (by decide)).2 (fun _ => ⟨rfl, rfl, rfl⟩)
      (forall_mem_singleton.mpr hrequest) hsame
  exact absurd heq (by decide)

end FullhanRtos.Rtsp
