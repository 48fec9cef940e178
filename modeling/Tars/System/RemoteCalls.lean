import Tars.Client.ResponseFraming
import Tars.Server.Handle
import Tars.Server.NetRequests

/-!
# Remote calls

Any number of clients and a server. A client connects a new socket for every call, and the server
accepts it as a connection of the adapter that the client wants. The bytes on a connection arrive in
order and once, but how many of them one call reads is left to the kernel.
-/

namespace Tars

/-- A socket of a client, by its number there. Every call connects a new one, so no number comes
back. -/
structure Endpoint where
  /-- The client, by its number. -/
  client : ℕ
  /-- The socket, by the number that the client's kernel gave it. -/
  fd : ℕ
  deriving DecidableEq

/-- What has passed through a connection: how much of the client's bytes the server has read, and
what it has written back. -/
structure Passed where
  /-- How many bytes of the client the server has read. -/
  read : ℕ
  /-- What the server has written. -/
  written : Bytes
  /-- How many bytes of it the client has read. -/
  got : ℕ
  deriving DecidableEq

/-- How clients and server are set up: what a run never changes. -/
structure Site where
  /-- `_netThreadNum`. -/
  netThreadNum : ℕ
  /-- `sysconf(_SC_IOV_MAX)`. -/
  scIovMax : ℕ
  /-- The servant of the adapter that belongs to a listening socket. -/
  servant : ℕ → Servant
  /-- The listening socket that a client connects to. -/
  target : ℕ → ℕ

/-- The whole system: the proxies of the clients, the server, and the connections between them. -/
structure RemoteCalls where
  /-- The proxies of the clients. -/
  clients : ℕ → ProxyRun
  /-- The server, as it is modelled alone. -/
  server : NetServer
  /-- The sockets whose connections were accepted, in this order. -/
  peers : List Endpoint
  /-- The bytes on the connections. -/
  passed : Endpoint → Passed
  /-- `adapter` of the requests that handlers have taken. -/
  adapters : List ℕ
  /-- The numbers of the requests that were handled. -/
  handled : List ℕ

/-- What `dispatch` returns: a code and the response, or an exception of the servant. -/
abbrev Outcome := Except Unit (ℤ × Bytes)

/-- What happens next. The environment chooses the action and the answers of the kernel in it. -/
inductive RemoteAction where
  /-- A client calls `invoke`. -/
  | invoke (client : ℕ) (msg : ReqMessage) (outcome : ConnectOutcome) (answer : SendResult)
  /-- `handleOutputImp` in a client. -/
  | output (client : ℕ) (answer : SendResult) (answers : List SendResult)
  /-- `handleInputImp` in a client. -/
  | input (client : ℕ) (answers : List ReadResult)
  /-- The server accepts the connection of a socket. -/
  | accept (e : Endpoint) (fd : ℕ) (ip : Bytes) (port : ℕ)
  /-- `processNet` in a network thread. -/
  | net (thread uid : ℕ) (report : NetServer.NetReport)
  /-- `processPipe` starts in a network thread. -/
  | swap (thread : ℕ)
  /-- `processPipe` handles a command. -/
  | pipe (thread : ℕ) (answer : WriteResult)
  /-- A handler takes the oldest record of an adapter. -/
  | take (lfd : ℕ)
  /-- A handler handles a request that was taken. -/
  | handle (request : ℕ) (call : Call) (mode : ServantHandle.Mode)

/-- What is noted in a run, so that theorems can speak of its past. No step depends on the notes. -/
inductive RemoteNote where
  /-- A client has sent a message. -/
  | issued (client : ℕ) (msg : ReqMessage)
  /-- A client has finished a message. -/
  | finished (client : ℕ) (msg : ReqMessage)
  /-- The server has read a batch from a socket. -/
  | read (e : Endpoint) (batch : Bytes)
  /-- A servant was called for a request from a socket. -/
  | served (e : Endpoint) (request : Bytes) (outcome : Outcome)
  /-- What is noted of the server. -/
  | net (note : NetServer.NetNote)
  deriving DecidableEq

namespace RemoteCalls

open NetServer ObjectProxy

/-- The start of all runs: new clients and a new server, and no connection yet. -/
def start : RemoteCalls where
  clients _ := .new
  server := .start
  peers := []
  passed _ := ⟨0, [], 0⟩
  adapters := []
  handled := []

/-- The transceiver of a client, which holds its sockets and what they have taken. -/
def trans (s : RemoteCalls) (client : ℕ) : Transceiver := (s.clients client).proxy.trans

/-- The bytes that a socket of a client has taken. -/
def sent (s : RemoteCalls) (e : Endpoint) : Bytes := (s.trans e.client).kernel.accepted e.fd

/-- What the server has not read yet of the bytes that the socket of a client has taken. -/
def unread (s : RemoteCalls) (e : Endpoint) : Bytes := (s.sent e).drop (s.passed e).read

/-- What the client has not read yet of the bytes that the server has written to its socket. -/
def unseen (s : RemoteCalls) (e : Endpoint) : Bytes := (s.passed e).written.drop (s.passed e).got

/-- The number of the accept for a socket, under which the server knows the connection. -/
def serialOf (s : RemoteCalls) (e : Endpoint) : ℕ := s.peers.idxOf e

/-- The message that `invoke` makes and sends, unless connecting the socket throws before. -/
def issues (run : ProxyRun) : Action → List ReqMessage
  | .invoke msg outcome _ =>
    if outcome.assigns then [serialise { msg with addr := run.created } run.proxy.generateId]
    else []
  | _ => []

/-- The notes for the events of a client: only finished calls are noted, not what is sent. -/
def finishes (client : ℕ) (events : List Event) : List RemoteNote :=
  events.filterMap fun
    | .sendRequest _ _ => none
    | .finishInvoke msg => some (.finished client msg)

/-- A step of a client, with notes for the messages that it sends or finishes. -/
def act (s : RemoteCalls) (client : ℕ) (a : Action) : Option (RemoteCalls × List RemoteNote) :=
  ((s.clients client).step a).map fun r =>
    ({ s with clients := Function.update s.clients client r.1 },
      (issues (s.clients client) a).map (.issued client) ++ finishes client r.2)

/-- A client has read so many bytes of what the server has written to this socket. -/
def clientReads (s : RemoteCalls) (e : Endpoint) (count : ℕ) : RemoteCalls :=
  let p := s.passed e
  { s with passed := Function.update s.passed e { p with got := p.got + count } }

/-- The server has read so many bytes of what this socket has taken. -/
def serverReads (s : RemoteCalls) (e : Endpoint) (count : ℕ) : RemoteCalls :=
  let p := s.passed e
  { s with passed := Function.update s.passed e { p with read := p.read + count } }

/-- `handleInputImp` reads what has arrived on the socket of the client. -/
def receive (s : RemoteCalls) (client : ℕ) (answers : List ReadResult) :
    Option (RemoteCalls × List RemoteNote) :=
  match (s.trans client).fd with
  | none => s.act client (.input answers)
  | some fd =>
    let e : Endpoint := ⟨client, fd⟩
    let bytes := Transceiver.deliveredBy answers
    if bytes <+: s.unseen e then (s.clientReads e bytes.length).act client (.input answers)
    else none

/-- A step of the server. What it writes is on the connections. -/
def serve (site : Site) (s : RemoteCalls) (a : NetServer.NetAction) :
    Option (RemoteCalls × List RemoteNote) :=
  (s.server.notedStep site.netThreadNum site.scIovMax a).map fun r =>
    ({ s with
        server := r.1
        passed := fun e => { s.passed e with
          written := (s.passed e).written ++ (writtenBy (s.serialOf e) r.2).flatten } },
      r.2.map .net)

/-- The server accepts a socket that a client has created. -/
def accept (site : Site) (s : RemoteCalls) (e : Endpoint) (fd : ℕ) (ip : Bytes) (port : ℕ) :
    Option (RemoteCalls × List RemoteNote) :=
  if e.fd < (s.trans e.client).kernel.created ∧ e ∉ s.peers then
    (s.serve site (.accept (site.target e.client) fd ip port)).map fun r =>
      ({ r.1 with peers := s.peers ++ [e] }, r.2)
  else none

/-- `processNet` reads what has arrived on a connection, if this event makes it read. -/
def net (site : Site) (s : RemoteCalls) (thread uid : ℕ) (report : NetReport) :
    Option (RemoteCalls × List RemoteNote) :=
  match s.server.reading (.net thread uid report) with
  | none => s.serve site (.net thread uid report)
  | some (c, answers) =>
    match s.peers[c.serial]? with
    | none => none
    | some e =>
      let bytes := Connection.readBy answers
      let batches := (s.server.batches (.net thread uid report)).map Prod.snd
      if bytes <+: s.unread e then
        ((s.serverReads e bytes.length).serve site (.net thread uid report)).map fun r =>
          (r.1, batches.map (.read e) ++ r.2)
      else none

/-- `waitForRecvQueue`, after which `adapter` of the record is set. -/
def take (site : Site) (s : RemoteCalls) (lfd : ℕ) : Option (RemoteCalls × List RemoteNote) :=
  (s.serve site (.take lfd)).map fun r =>
    let taken := r.1.server.requests.length - s.server.requests.length
    ({ r.1 with adapters := s.adapters ++ List.replicate taken lfd }, r.2)

/-- A servant is called, unless there is no coroutine for it. -/
def calls (s : RemoteCalls) (servant : Servant) (call : Call) (recv : TagRecvData) (serial : ℕ) :
    ServantHandle.Mode → List RemoteNote
  | .coroutine 0 => []
  | _ => s.peers[serial]?.toList.map fun e =>
      .served e recv.buffer (servant.dispatch call recv.buffer)

/-- A request is handled, once, by the servant of its adapter. -/
def handle (site : Site) (s : RemoteCalls) (request : ℕ) (call : Call) (mode : ServantHandle.Mode) :
    Option (RemoteCalls × List RemoteNote) :=
  match s.server.requests[request]?, s.adapters[request]? with
  | some recv, some lfd =>
    if request ∈ s.handled then none
    else
      let servant := site.servant lfd
      let notes := s.calls servant call recv.data recv.serial mode
      let s := { s with handled := s.handled ++ [request] }
      match ServantHandle.replies servant call recv.data mode with
      | [] => some (s, notes)
      | .send _ sSendBuffer _ _ _ :: _ =>
        (s.serve site (.respond request sSendBuffer)).map fun r => (r.1, notes ++ r.2)
      | .close _ _ :: _ => (s.serve site (.close request)).map fun r => (r.1, notes ++ r.2)
  | _, _ => none

/-- One step of the system: a client acts, or a thread of the server does. -/
def step (site : Site) (s : RemoteCalls) : RemoteAction → Option (RemoteCalls × List RemoteNote)
  | .invoke client msg outcome answer => s.act client (.invoke msg outcome answer)
  | .output client answer answers => s.act client (.output answer answers)
  | .input client answers => s.receive client answers
  | .accept e fd ip port => s.accept site e fd ip port
  | .net thread uid report => s.net site thread uid report
  | .swap thread => s.serve site (.swap thread)
  | .pipe thread answer => s.serve site (.pipe thread answer)
  | .take lfd => s.take site lfd
  | .handle request call mode => s.handle site request call mode

/-! ### Notes -/

/-- The messages that a client has sent, in this order, as they were transmitted. -/
def issuedBy (client : ℕ) (notes : List RemoteNote) : List ReqMessage :=
  notes.filterMap fun
    | .issued client' msg => if client' = client then some msg else none
    | _ => none

/-- The messages that a client has finished, in this order, with their responses. -/
def finishedBy (client : ℕ) (notes : List RemoteNote) : List ReqMessage :=
  notes.filterMap fun
    | .finished client' msg => if client' = client then some msg else none
    | _ => none

/-- The batches that the server has read from a socket. -/
def readOn (e : Endpoint) (notes : List RemoteNote) : List Bytes :=
  notes.filterMap fun
    | .read e' batch => if e' = e then some batch else none
    | _ => none

/-- The calls of servants, in this order: the socket of the request, the request and the outcome. -/
def servedIn (notes : List RemoteNote) : List (Endpoint × Bytes × Outcome) :=
  notes.filterMap fun
    | .served e request outcome => some (e, request, outcome)
    | _ => none

/-- The calls of servants for requests from one socket, in this order. -/
def servedOn (e : Endpoint) (notes : List RemoteNote) : List (Bytes × Outcome) :=
  ((servedIn notes).filter (·.1 = e)).map Prod.snd

/-- The calls of servants for requests from any socket of one client, in this order. -/
def servedTo (client : ℕ) (notes : List RemoteNote) : List (Bytes × Outcome) :=
  ((servedIn notes).filter (·.1.client = client)).map Prod.snd

/-- What is noted of the server alone: the notes of `NetServer`, in this order. -/
def netNotes (notes : List RemoteNote) : List NetNote :=
  notes.filterMap fun
    | .net note => some note
    | _ => none

/-! ### Runs with whole messages -/

/-- The client that a connection belongs to, by the number of the connection. -/
def clientOf (s : RemoteCalls) (serial : ℕ) : Option ℕ := s.peers[serial]?.map Endpoint.client

/-- The bytes that the message of a client waits for as a request. -/
def Awaits (s : RemoteCalls) (client : ℕ) (bytes : Bytes) : Prop :=
  ∃ id ∈ (s.clients client).proxy.timeoutQueue.data.keys,
    ((s.clients client).proxy.outstanding id).map ReqMessage.sReqData = some bytes

instance (s : RemoteCalls) (client : ℕ) (bytes : Bytes) : Decidable (s.Awaits client bytes) :=
  inferInstanceAs (Decidable (∃ _ ∈ _, _))

/-- What a system call takes of the response in a command. -/
def tookWhole (answer : WriteResult) : NetCommand → Prop
  | .close => True
  | .send buffer _ _ =>
    (Sender.tcpSend buffer answer).took = [] ∨ (Sender.tcpSend buffer answer).took = buffer

instance (answer : WriteResult) : (cmd : NetCommand) → Decidable (tookWhole answer cmd)
  | .close => isTrue trivial
  | .send _ _ _ => inferInstanceAs (Decidable (_ ∨ _))

/-- A client makes one call after the other and can send, and its requests and responses are not
cut: what is read or written of them at once is nothing or the whole. Other clients may do
what they want. -/
def Whole (client : ℕ) (s : RemoteCalls) : RemoteAction → Prop
  | .invoke client' msg _ answer =>
    client' = client → (s.clients client).proxy.timeoutQueue.data.keys = [] ∧ answer ≠ .error ∧
      msg.request.length < 2 ^ 30
  | .input client' answers =>
    client' = client → ReadResult.totalBytes answers < Transceiver.maxBatch ∧
      ∀ fd ∈ (s.trans client).fd, Transceiver.deliveredBy answers = [] ∨
        Transceiver.deliveredBy answers = s.unseen ⟨client, fd⟩
  | .net thread uid report =>
    ∀ r ∈ s.server.reading (.net thread uid report), s.clientOf r.1.serial = some client →
      Connection.readBy r.2 = [] ∨ s.Awaits client (Connection.readBy r.2)
  | .pipe thread answer =>
    ∀ it ∈ (s.server.netThreads thread).deSendData.head?, s.clientOf it.serial = some client →
      tookWhole answer it.cmd
  | _ => True

instance (client : ℕ) (s : RemoteCalls) : (a : RemoteAction) → Decidable (Whole client s a)
  | .invoke _ _ _ _ => inferInstanceAs (Decidable (_ → _ ∧ _ ∧ _))
  | .input _ _ => inferInstanceAs (Decidable (_ → _ ∧ ∀ _ ∈ _, _))
  | .net _ _ _ => inferInstanceAs (Decidable (∀ _ ∈ _, _))
  | .pipe _ _ => inferInstanceAs (Decidable (∀ _ ∈ _, _))
  | .output _ _ _ | .accept _ _ _ _ | .swap _ | .take _ | .handle _ _ _ => isTrue trivial

end RemoteCalls

end Tars
