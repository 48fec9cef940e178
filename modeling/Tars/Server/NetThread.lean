import Mathlib.Logic.Function.Basic
import Tars.Server.Sending

/-!
# Network threads and handlers

Connections are accepted by one network thread and handed to the one that their descriptor selects,
which gives them an identifier from its `_free`. A response and the wish to close a connection
travel back as an identifier and a descriptor through the command queue of that thread. The
numbers of the accepts (`serial`) are only there to talk about connections whose descriptors are
used again.
-/

namespace Tars

namespace NetServer

/-- The members of `NetThread::Connection`: what it receives, what it sends and its number. -/
structure NetConnection extends Connection, Sender where
  /-- Which accept made the connection. -/
  serial : ℕ

/-- A record in a receive queue, with the number of the connection it comes from. -/
structure ReceivedRecord where
  /-- The connection that it was made for. -/
  serial : ℕ
  /-- The record. -/
  data : TagRecvData
  deriving DecidableEq

/-- The member `cmd` of `tagSendData` with the members that belong to it. -/
inductive NetCommand where
  /-- `'c'`. -/
  | close
  /-- `'s'`. -/
  | send (buffer ip : Bytes) (port : ℕ)
  deriving DecidableEq

/-- `tagSendData`, with the number of the connection it is for. -/
structure TagSendData where
  /-- The connection whose request or record it is about. -/
  serial : ℕ
  /-- `uid`. -/
  uid : ℕ
  /-- `cmd` and what belongs to it. -/
  cmd : NetCommand
  deriving DecidableEq

/-- The members of `NetThread`: identifiers, connections and the queue of commands. -/
structure NetThread where
  /-- `_free`. -/
  free : List ℕ
  /-- `_uid_connection`. -/
  connections : ℕ → Option NetConnection
  /-- `_sbuffer`. -/
  sbuffer : List TagSendData
  /-- `deSendData` from the iterator of `processPipe` on. -/
  deSendData : List TagSendData

end NetServer

open NetServer in
/-- The server with its handlers and the descriptors of the kernel. -/
structure NetServer where
  /-- `_netThreads`. -/
  netThreads : ℕ → NetServer.NetThread
  /-- `_rbuffer` of the adapter that belongs to a listening socket. -/
  rbuffer : ℕ → List ReceivedRecord
  /-- The requests that handlers have taken. -/
  requests : List ReceivedRecord
  /-- The number of accepts. -/
  accepts : ℕ
  /-- The descriptors of connections that are open. -/
  opened : List ℕ

namespace NetServer

/-- What `epoll_wait` reports for a connection, and how the kernel answers. -/
structure NetReport where
  /-- `EPOLLERR` or `EPOLLHUP`. -/
  error : Bool
  /-- `EPOLLIN`, with the answers of `::read`. -/
  input : Option (List ReadResult)
  /-- `EPOLLOUT`, with the answers of `::writev`. -/
  output : Option (List WriteResult)

/-- What happens next: `epoll_wait` reports something, a thread handles commands, or a handler acts.
-/
inductive NetAction where
  /-- `accept` on a listening socket returns a descriptor. -/
  | accept (lfd fd : ℕ) (ip : Bytes) (port : ℕ)
  /-- `processNet` in a thread. -/
  | net (thread uid : ℕ) (report : NetReport)
  /-- `processPipe` starts in a thread. -/
  | swap (thread : ℕ)
  /-- `processPipe` handles a command. -/
  | pipe (thread : ℕ) (answer : WriteResult)
  /-- A handler takes the oldest record of an adapter. -/
  | take (lfd : ℕ)
  /-- A handler responds to a request that it has taken. -/
  | respond (request : ℕ) (buffer : Bytes)
  /-- A handler closes the connection of a request that it has taken. -/
  | close (request : ℕ)

/-- What can be observed from outside: accepts, writes and closings, with their descriptors. -/
inductive NetEvent where
  /-- A connection was accepted and stored. -/
  | accepted (serial thread uid fd : ℕ)
  /-- `delConnection` queued the record that a connection is closed, with this `fd`. -/
  | closed (serial : ℕ) (fd : Option ℕ)
  /-- The kernel took bytes on the descriptor of a connection. They belong to the response to a
  request of `origin`, or come from `_sendbuffer`. -/
  | wrote (serial fd : ℕ) (origin : Option ℕ) (bytes : Bytes)
  deriving DecidableEq

/-- The number of identifiers of a thread, and so of the connections that it can have. -/
def total : ℕ := 200000

/-- The server after `createEpoll`: all identifiers are free and nothing waits. -/
def start : NetServer where
  netThreads _ := ⟨List.range' 1 total, fun _ => none, [], []⟩
  rbuffer _ := []
  requests := []
  accepts := 0
  opened := []

/-- The thread that `getNetThreadOfFd` selects among `n`, where a closed descriptor is `-1`. -/
def threadOfFd (n : ℕ) : Option ℕ → ℕ
  | some fd => fd % n
  | none => (2 ^ 64 - 1) % n

/-- `_uid_connection[uid]` of a thread: null before the identifier is given out. -/
def connection (s : NetServer) (thread uid : ℕ) : Option NetConnection :=
  (s.netThreads thread).connections uid

/-- Change a thread and leave the others as they are. -/
def setThread (s : NetServer) (thread : ℕ) (t : NetThread) : NetServer :=
  { s with netThreads := Function.update s.netThreads thread t }

/-- Change a connection of a thread and leave the others as they are. -/
def setConnection (s : NetServer) (thread : ℕ) (c : NetConnection) : NetServer :=
  s.setThread thread { s.netThreads thread with
    connections := Function.update (s.netThreads thread).connections c.uid (some c) }

/-- `insertRecvQueue`: records are put behind the others in the queue of an adapter. -/
def insertRecvQueue (s : NetServer) (lfd : ℕ) (vRecvData : List ReceivedRecord) : NetServer :=
  { s with rbuffer := Function.update s.rbuffer lfd (s.rbuffer lfd ++ vRecvData) }

/-- `send` and `close` of a thread queue a command. -/
def pushCommand (s : NetServer) (thread : ℕ) (cmd : TagSendData) : NetServer :=
  s.setThread thread { s.netThreads thread with sbuffer := (s.netThreads thread).sbuffer ++ [cmd] }

/-- `addTcpConnection` takes the front of `_free` and fails if there is none. -/
def addTcpConnection (s : NetServer) (thread : ℕ) (c : NetConnection) : Option (NetServer × ℕ) :=
  match (s.netThreads thread).free with
  | [] => none
  | uid :: free =>
    some ((s.setThread thread { s.netThreads thread with free }).setConnection thread
      { c with uid }, uid)

/-- `accept` and `addConnection`: the kernel returns a descriptor that is not open. -/
def accept (n : ℕ) (s : NetServer) (lfd fd : ℕ) (ip : Bytes) (port : ℕ) :
    Option (NetServer × List NetEvent) :=
  if fd ∈ s.opened then none
  else
    let thread := threadOfFd n (some fd)
    let c : NetConnection :=
      { uid := 0, lfd := some lfd, sock := some fd, ip, port, recvbuffer := [], sendbuffer := [],
        bClose := false, serial := s.accepts }
    (s.addTcpConnection thread c).map fun r =>
      ({ r.1 with accepts := s.accepts + 1, opened := fd :: s.opened },
        [.accepted s.accepts thread r.2 fd])

/-- `Connection::close`: the descriptor is given back to the kernel, and the connection has none. -/
def closeSocket (s : NetServer) (thread : ℕ) (c : NetConnection) : NetServer :=
  { s.setConnection thread { c with sock := none } with
    opened := s.opened.filter fun fd => c.sock ≠ some fd }

/-- `delConnection`: it files a record and closes the socket, and leaves the entry where it is. -/
def delConnection (s : NetServer) (thread : ℕ) (c : NetConnection) : NetServer × List NetEvent :=
  match c.lfd with
  | none => (s, [])
  | some lfd =>
    let recv : ReceivedRecord :=
      { serial := c.serial
        data := { uid := c.uid, buffer := [], ip := c.ip, port := c.port, isClosed := true,
                  fd := c.sock } }
    ((s.insertRecvQueue lfd [recv]).closeSocket thread c, [.closed c.serial c.sock])

/-- The bytes that a system call took, which fails on a socket that is not valid. -/
def wrote (c : NetConnection) (origin : Option ℕ) (took : Bytes) : List NetEvent :=
  match c.sock with
  | none => []
  | some fd => if took = [] then [] else [.wrote c.serial fd origin took]

/-- The part of `processNet` for `EPOLLIN`: the server, the connection, the events, and whether it
was deleted. -/
def processInput (s : NetServer) (thread : ℕ) (c : NetConnection) :
    Option (List ReadResult) → Option (NetServer × NetConnection × List NetEvent × Bool)
  | none => some (s, c, [], false)
  | some answers =>
    match c.toConnection.recv (if c.sock = none then [.error] else answers) with
    | none => none
    | some (received, vRecvData, ret) =>
      let c := { c with toConnection := received }
      let s := s.setConnection thread c
      if ret < 0 then
        let (s, es) := s.delConnection thread c
        some (s, c, es, true)
      else
        match c.lfd with
        | none => some (s, c, [], false)
        | some lfd => some (s.insertRecvQueue lfd (vRecvData.map (⟨c.serial, ·⟩)), c, [], false)

/-- The part of `processNet` for `EPOLLOUT`, which sends what waits in the `_sendbuffer`. -/
def processOutput (scIovMax : ℕ) (s : NetServer) (thread : ℕ) (c : NetConnection) :
    Option (List WriteResult) → NetServer × List NetEvent
  | none => (s, [])
  | some answers =>
    let sent := c.toSender.flush scIovMax (if c.sock = none then [.error] else answers)
    (s.setConnection thread { c with toSender := sent.1 }, wrote c none sent.2.1)

/-- `processNet` for one event of `epoll_wait`: an error, something to read or room to write. -/
def processNet (scIovMax : ℕ) (s : NetServer) (thread uid : ℕ) (report : NetReport) :
    Option (NetServer × List NetEvent) :=
  match s.connection thread uid with
  | none => none
  | some c =>
    if report.error then some (s.delConnection thread c)
    else
      match s.processInput thread c report.input with
      | none => none
      | some (s, _, es, true) => some (s, es)
      | some (s, c, es, false) =>
        let r := s.processOutput scIovMax thread c report.output
        some (r.1, es ++ r.2)

/-- The exchange of `_sbuffer` with `deSendData` at the start of `processPipe`. -/
def swap (s : NetServer) (thread : ℕ) : Option (NetServer × List NetEvent) :=
  match (s.netThreads thread).deSendData with
  | [] =>
    some (s.setThread thread { s.netThreads thread with
      sbuffer := [], deSendData := (s.netThreads thread).sbuffer }, [])
  | _ => none

/-- The commands of `processPipe`: close a connection, or send a response on it. -/
def processCommand (s : NetServer) (thread : ℕ) (it : TagSendData) (answer : WriteResult) :
    Option (NetServer × List NetEvent) :=
  match it.cmd, s.connection thread it.uid with
  | .close, none => some (s, [])
  | .close, some c =>
    let (sender, empty) := c.toSender.setClose
    let c := { c with toSender := sender }
    let s := s.setConnection thread c
    some (if empty then s.delConnection thread c else (s, []))
  | .send _ _ _, none => none
  | .send buffer _ _, some c =>
    let sent := c.toSender.send buffer (if c.sock = none then .error else answer)
    some (s.setConnection thread { c with toSender := sent.1 }, wrote c (some it.serial) sent.2.1)

/-- One iteration of `processPipe`: the first command is handled and popped. -/
def pipe (s : NetServer) (thread : ℕ) (answer : WriteResult) :
    Option (NetServer × List NetEvent) :=
  match (s.netThreads thread).deSendData with
  | [] => none
  | it :: deSendData =>
    (s.setThread thread { s.netThreads thread with deSendData }).processCommand thread it answer

/-- `waitForRecvQueue`: a record that a connection is closed is not handled. -/
def take (s : NetServer) (lfd : ℕ) : Option (NetServer × List NetEvent) :=
  match s.rbuffer lfd with
  | [] => none
  | recv :: rest =>
    let s := { s with rbuffer := Function.update s.rbuffer lfd rest }
    some (if recv.data.isClosed then s else { s with requests := s.requests ++ [recv] }, [])

/-- `sendResponse` for a request: a command for the thread that owns the descriptor of the request.
-/
def respond (n : ℕ) (s : NetServer) (request : ℕ) (buffer : Bytes) :
    Option (NetServer × List NetEvent) :=
  match s.requests[request]? with
  | none => none
  | some recv =>
    some (s.pushCommand (threadOfFd n recv.data.fd)
      ⟨recv.serial, recv.data.uid, .send buffer recv.data.ip recv.data.port⟩, [])

/-- `close` for a request: a command for the thread that owns the descriptor of the request. -/
def close (n : ℕ) (s : NetServer) (request : ℕ) : Option (NetServer × List NetEvent) :=
  match s.requests[request]? with
  | none => none
  | some recv =>
    some (s.pushCommand (threadOfFd n recv.data.fd) ⟨recv.serial, recv.data.uid, .close⟩, [])

/-- One step of a server with `n` network threads. -/
def step (n scIovMax : ℕ) (s : NetServer) : NetAction → Option (NetServer × List NetEvent)
  | .accept lfd fd ip port => s.accept n lfd fd ip port
  | .net thread uid report => s.processNet scIovMax thread uid report
  | .swap thread => s.swap thread
  | .pipe thread answer => s.pipe thread answer
  | .take lfd => s.take lfd
  | .respond request buffer => s.respond n request buffer
  | .close request => s.close n request

/-! ### Traces -/

/-- The descriptors in the records that a connection is closed, in order. -/
def closings (serial : ℕ) (es : List NetEvent) : List (Option ℕ) :=
  es.filterMap fun
    | .closed serial' fd => if serial' = serial then some fd else none
    | _ => none

/-- Whose descriptor it is after an event: an accept gives it, and a close takes it away. -/
def ownerStep (owner : ℕ → Option ℕ) : NetEvent → ℕ → Option ℕ
  | .accepted serial _ _ fd => Function.update owner fd (some serial)
  | .closed _ (some fd) => Function.update owner fd none
  | _ => owner

/-- Whose descriptor it is: that of the connection that was accepted with it and has not been closed
since. -/
def owner (es : List NetEvent) : ℕ → Option ℕ := es.foldl ownerStep fun _ => none

end NetServer

end Tars
