import FullhanRtos.Lib.BlockLists
import FullhanRtos.Lib.Transition
import FullhanRtos.Rtsp.Packets
import FullhanRtos.Rtsp.Requests

/-!
# Clients of the RTSP server

Media packets and responses wait on two lists of each client. `send_client` takes them from there,
responses first, and sends each one to its end however the socket cuts it. `streams_ok` says what
arrives.

All calls hold the lock of the server, so each is one step. A packet is linked into the lists
through itself.
-/

namespace FullhanRtos.RtspServer

open Function

open Bytes ListPair ListFamily BlockLists Transition
open Rtsp (RtpPacket ClientStatus)

/-! ## State -/

/-- The lists of packets: `free_ptk_list`, and `cmdresp_list` and `data_list` of each client. -/
inductive PktList
  | free
  | cmdresp (c : Nat)
  | data (c : Nat)
  deriving DecidableEq

/-- What a `struct list_head *` points to. -/
inductive Node
  | poison1
  | poison2
  | head (list : PktList)
  | pkt (id : Nat)
  deriving DecidableEq

/-- `struct client_context`, as far as packets depend on it. -/
structure ClientContext where
  dataNum : Int
  currPkt : Option Nat
  currPktSentLen : Nat
  status : ClientStatus
  blocked : Bool

/-- What happened on a connection: the bytes that `send` took, and the media packets and the
responses that were queued. -/
structure Wire where
  socket : List Byte
  media : List (List Byte)
  resp : List (List Byte)

/-- What `send` returns: a number of bytes, or an error that is `EAGAIN` or another one. -/
inductive SendResult
  | sent (n : Nat)
  | again
  | error

/-- `struct server_context` with its clients. `buf` is `buf` up to `len` of each packet. `blocks`
are the packets that `malloc` has given out, `mallocs` is what it answers next, and `sends` is what
`send` returns next for each client. -/
structure ServerContext where
  links : Links Node
  buf : Nat → List Byte
  clientList : List Nat
  client : Nat → ClientContext
  wire : Nat → Wire
  blocks : List Nat
  mallocs : List (Option Nat)
  sends : Nat → List SendResult

def maxClientCount : Nat := 32

def maxPktsPerClient : Int := 2048

/-! ## Packets -/

variable (s : ServerContext)

def listAddTail (list : PktList) (id : Nat) : ServerContext :=
  { s with links := s.links.insertBefore (.head list) (.pkt id) }

def listDel (id : Nat) : ServerContext :=
  { s with
    links := ((unlink s.links (.pkt id)).setNext (.pkt id) .poison1).setPrev (.pkt id) .poison2 }

def initListHead (list : PktList) : ServerContext :=
  { s with links := s.links.init (.head list) }

def setBuf (id : Nat) (bytes : List Byte) : ServerContext :=
  { s with buf := update s.buf id bytes }

def setClient (c : Nat) (client : ClientContext) : ServerContext :=
  { s with client := update s.client c client }

def setWire (c : Nat) (wire : Wire) : ServerContext :=
  { s with wire := update s.wire c wire }

def freeBlock (id : Nat) : ServerContext := { s with blocks := s.blocks.erase id }

/-- `malloc`. It does not give out a packet that is in use. -/
def malloc : Option Nat × ServerContext :=
  match s.mallocs with
  | [] => (none, s)
  | answer :: rest =>
    match answer.filter (· ∉ s.blocks) with
    | none => (none, { s with mallocs := rest })
    | some id => (some id, { s with mallocs := rest, blocks := id :: s.blocks })

def allocPacket : Option (Option Nat × ServerContext) :=
  if s.links.isEmpty (.head .free) then some (malloc s)
  else
    match s.links.next (.head .free) with
    | .pkt id => some (some id, listDel s id)
    | _ => none

def freePacket (id : Nat) : ServerContext := listAddTail s .free id

/-- `free_packet` for a packet that may be missing. -/
def freeIf : Option Nat → ServerContext
  | some id => freePacket s id
  | none => s

def clonePacket (pkt : Nat) : Option (Option Nat × ServerContext) :=
  (allocPacket s).map fun
    | (none, s) => (none, s)
    | (some id, s) => (some id, setBuf s id (s.buf pkt))

/-! ## Queues -/

def preQueuePacketOnClient : ServerContext :=
  s.clientList.foldl (fun s c =>
    setClient s c { s.client c with blocked := maxPktsPerClient ≤ (s.client c).dataNum }) s

/-- A packet goes to the end of `data_list`. -/
def addData (c id : Nat) : ServerContext :=
  let wire := s.wire c
  let s := setWire (listAddTail s (.data c) id) c { wire with media := wire.media ++ [s.buf id] }
  setClient s c { s.client c with dataNum := (s.client c).dataNum + 1 }

/-- A packet goes to the end of `cmdresp_list`. -/
def addCmdresp (c id : Nat) : ServerContext :=
  let wire := s.wire c
  setWire (listAddTail s (.cmdresp c) id) c { wire with resp := wire.resp ++ [s.buf id] }

/-- Whether a client takes media packets. -/
def takesMedia (c : Nat) : Bool :=
  ¬ (s.client c).blocked ∧ (s.client c).status = .startPlay

/-- The first loop of `queue_packet_on_client`, over the clients that are left. The packet goes to
the first client that takes it, and the others get clones. -/
def queueLoop (origPkt : Nat) : List Nat → Option Nat → ServerContext →
    Option (Option Nat × ServerContext)
  | [], pkt, s => some (pkt, s)
  | c :: clients, pkt, s =>
    if takesMedia s c then
      match pkt with
      | some id => queueLoop origPkt clients none (addData s c id)
      | none =>
        (clonePacket s origPkt).bind fun
          | (none, s) => some (none, s)
          | (some id, s) => queueLoop origPkt clients none (addData s c id)
    else queueLoop origPkt clients pkt s

/-- The packet that `send_client` goes on with: the current one, or else the first response, or else
the first media packet. -/
def nextPacket (c : Nat) : Option (Option Nat × ServerContext) :=
  match (s.client c).currPkt with
  | some id => some (some id, s)
  | none =>
    let start (s : ServerContext) (id : Nat) : Option (Option Nat × ServerContext) :=
      some (some id,
        setClient (listDel s id) c { s.client c with currPkt := some id, currPktSentLen := 0 })
    match s.links.next (.head (.cmdresp c)) with
    | .pkt id => start s id
    | pos =>
      if pos = .head (.cmdresp c) then
        match s.links.next (.head (.data c)) with
        | .pkt id =>
          start (setClient s c { s.client c with dataNum := (s.client c).dataNum - 1 }) id
        | pos => if pos = .head (.data c) then some (none, s) else none
      else none

/-- The end of a round of `send_client`, when `send` took `ret` bytes of the current packet. -/
def sentBytes (c id ret : Nat) : ServerContext :=
  let client := s.client c
  let wire := s.wire c
  let bytes := ((s.buf id).drop client.currPktSentLen).take ret
  let s := setWire s c { wire with socket := wire.socket ++ bytes }
  let client := { client with currPktSentLen := client.currPktSentLen + ret }
  if (s.buf id).length ≤ client.currPktSentLen then
    setClient (freePacket s id) c { client with currPkt := none }
  else setClient s c client

/-- The rounds of `send_client` on the results of `send`, which takes no more than it is given. When
no result is left, it would block. -/
def sendLoop (c : Nat) : List SendResult → ServerContext →
    Option (Int × List SendResult × ServerContext)
  | [], s => (nextPacket s c).map fun (_, s) => (0, [], s)
  | result :: rest, s =>
    (nextPacket s c).bind fun
      | (none, s) => some (0, result :: rest, s)
      | (some id, s) =>
        match result with
        | .again => some (0, rest, s)
        | .error => some (-1, rest, s)
        | .sent n =>
          let ret := min n ((s.buf id).length - (s.client c).currPktSentLen)
          if ret = 0 then some (0, rest, s) else sendLoop c rest (sentBytes s c id ret)

def sendClient (c : Nat) : Option (Int × ServerContext) :=
  (sendLoop c (s.sends c) s).map fun (ret, rest, s) =>
    (ret, { s with sends := update s.sends c rest })

/-- The second loop of `queue_packet_on_client`, which does not look at what a call returns. -/
def sendAll : List Nat → ServerContext → Option ServerContext
  | [], s => some s
  | c :: clients, s =>
    if takesMedia s c then (sendClient s c).bind fun (_, s) => sendAll clients s
    else sendAll clients s

def queuePacketOnClient (pkt : Nat) (isLastPkt : Bool) : Option ServerContext :=
  (queueLoop pkt s.clientList (some pkt) s).bind fun (left, s) =>
    let s := freeIf s left
    if isLastPkt then sendAll s.clientList s else some s

/-! ## Clients -/

/-- A visit of a node of a list, which is the link of a packet. -/
def visitPkt (visit : Nat → ServerContext → ServerContext) :
    Node → ServerContext → Option ServerContext
  | .pkt id, s => some (visit id s)
  | _, _ => none

/-- The packets of a list are freed. A walk that meets more nodes than there are packets is not on
the way to the head. -/
def freeAll (list : PktList) : Option ServerContext :=
  forEachSafe ServerContext.links (.head list) (visitPkt fun id s => freeBlock (listDel s id) id)
    s.blocks.length (s.links.next (.head list)) s

def newClient (answer : Option Nat) : ServerContext :=
  if maxClientCount ≤ s.clientList.length then s
  else
    match answer.filter (· ∉ s.clientList) with
    | none => s
    | some c =>
      let s := initListHead (initListHead s (.cmdresp c)) (.data c)
      let s := setWire (setClient s c ⟨0, none, 0, .stopPlay, false⟩) c ⟨[], [], []⟩
      { s with clientList := s.clientList ++ [c] }

/-- The current packet of a client is freed. -/
def freeCurrPkt (c : Nat) : ServerContext :=
  match (s.client c).currPkt with
  | some id => freeBlock s id
  | none => s

def deleteClient (c : Nat) : Option ServerContext :=
  (freeAll s (.data c)).bind fun s => (freeAll s (.cmdresp c)).map fun s =>
    let s := freeCurrPkt s c
    { s with clientList := s.clientList.erase c }

/-- What `rtsp_handle_request` does with what it reads: nothing, an answer to OPTIONS, SETUP or PLAY
with its text, an answer to DESCRIBE with its text if there is one, or an error, which includes
TEARDOWN. -/
inductive ClientRequest
  | ignored
  | answer (text : List Byte) (play : Bool)
  | describe (sdp : List Byte) (text : Option (List Byte))
  | teardown
  | error

def handleAnswer (c : Nat) (text : List Byte) (play : Bool) : Option (Int × ServerContext) :=
  (allocPacket s).map fun
    | (none, s) => (-1, s)
    | (some id, s) =>
      let s := addCmdresp (setBuf s id text) c id
      (0, if play then setClient s c { s.client c with status := .startPlay } else s)

def handleDescribe (c : Nat) (sdp : List Byte) (text : Option (List Byte)) :
    Option (Int × ServerContext) :=
  (allocPacket s).bind fun (pkt, s) => (allocPacket s).map fun (sdpPkt, s) =>
    match pkt, sdpPkt, text with
    | some pkt, some sdpPkt, some text =>
      let s := addCmdresp (setBuf (setBuf s sdpPkt sdp) pkt text) c pkt
      (0, freePacket s sdpPkt)
    | pkt, sdpPkt, _ => (-1, freeIf (freeIf s pkt) sdpPkt)

def handleRequest (c : Nat) : ClientRequest → Option (Int × ServerContext)
  | .ignored => some (0, s)
  | .answer text play => handleAnswer s c text play
  | .describe sdp text => handleDescribe s c sdp text
  | .teardown => some (-1, setClient s c { s.client c with status := .stopPlay })
  | .error => some (-1, s)

/-! ## Requests -/

/-- What happens at the server: a connection, a client that expires, a request of a client, a client
whose socket is writable, a frame that is cut into fragments, and a frame of one packet. -/
inductive Request
  | newClient (answer : Option Nat)
  | expire (c : Nat)
  | handleRequest (c : Nat) (request : ClientRequest)
  | writable (c : Nat)
  | pushFragments (packets : List RtpPacket)
  | pushPacket (buf : List Byte)

/-- A client is deleted when its call failed. -/
def deleteOnError (c : Nat) : Int × ServerContext → Option ServerContext
  | (ret, s) => if ret < 0 then deleteClient s c else some s

/-- The fragments of a frame until one cannot be allocated. -/
def pushLoop : List RtpPacket → ServerContext → Option ServerContext
  | [], s => some s
  | packet :: packets, s =>
    (allocPacket s).bind fun
      | (none, s) => some s
      | (some id, s) =>
        (queuePacketOnClient (setBuf s id packet.buf) id packet.isLast).bind (pushLoop packets)

/-- The thread only looks at clients on its list. -/
def serverStep (s : ServerContext) : Request → Option ServerContext
  | .newClient answer => some (newClient s answer)
  | .expire c => if c ∈ s.clientList then deleteClient s c else some s
  | .handleRequest c request =>
    if c ∈ s.clientList then (handleRequest s c request).bind (deleteOnError c) else some s
  | .writable c =>
    if c ∈ s.clientList then (sendClient s c).bind (deleteOnError c) else some s
  | .pushFragments packets => pushLoop packets (preQueuePacketOnClient s)
  | .pushPacket buf =>
    (allocPacket s).bind fun
      | (none, s) => some s
      | (some id, s) =>
        queuePacketOnClient (preQueuePacketOnClient (setBuf s id buf)) id true

def start (links : Links Node) (mallocs : List (Option Nat)) (sends : Nat → List SendResult) :
    ServerContext where
  links := links.init (.head .free)
  buf _ := []
  clientList := []
  client _ := ⟨0, none, 0, .stopPlay, false⟩
  wire _ := ⟨[], [], []⟩
  blocks := []
  mallocs := mallocs
  sends := sends

end FullhanRtos.RtspServer
