import Tars.Server.Connection

/-!
# Which bytes become a request

The server does not look for the ends of requests. Whatever one call of `recv` reads is one
record, which the handler dispatches as one request. So the dispatched requests depend on
these batches and not on how a batch is cut, but two requests in one batch are dispatched as
one, and a request in two batches as two. For this the network thread, its connections and the
receive queue are enough; `OneThread` connects this part of the server to the whole.
-/

namespace Tars

/-- The network thread and the receive queue of its adapter, which is the part of the server that
frames requests. -/
structure EpollServer where
  /-- The front of `_free`; the identifiers behind it follow in order. -/
  free : ℕ
  /-- `_uid_connection`. -/
  connections : ℕ → Option Connection
  /-- `_rbuffer`. -/
  rbuffer : List TagRecvData

/-- One call in the network thread or in the handler. -/
inductive ServerAction where
  /-- `accept` takes a new connection. -/
  | accept (lfd fd : ℕ) (ip : Bytes) (port : ℕ)
  /-- `processNet` for `EPOLLERR` or `EPOLLHUP`. -/
  | hangup (uid : ℕ)
  /-- `processNet` for `EPOLLIN`. -/
  | readable (uid : ℕ) (answers : List ReadResult)
  /-- An iteration of the loop of `handleImp` takes a record. -/
  | handle

/-- The handler dispatches a record: what it got, whatever it contains. -/
structure Dispatch where
  /-- The identifier of the connection that the record came from. -/
  uid : ℕ
  /-- What is passed to the servant. -/
  buffer : Bytes
  deriving DecidableEq

namespace EpollServer

open Connection ReadResult Scripts

/-- The number of identifiers in `_free` after `createEpoll`, from 1 on. -/
def total : ℕ := 200000

/-- The server after `createEpoll`, with one network thread and no connection. -/
def new : EpollServer := ⟨1, fun _ => none, []⟩

/-- Store a connection under its identifier, which leaves the others alone. -/
def setConnection (s : EpollServer) (uid : ℕ) (c : Connection) : EpollServer :=
  { s with connections := fun u => if u = uid then some c else s.connections u }

/-- `addTcpConnection` of a new connection, which takes an identifier from `_free`. -/
def addTcpConnection (s : EpollServer) (c : Connection) : Option EpollServer :=
  if s.free ≤ total then
    some { s.setConnection s.free { c with uid := s.free } with free := s.free + 1 }
  else none

/-- `insertRecvQueue`: records are put behind the others in the queue. -/
def insertRecvQueue (s : EpollServer) (vRecvData : List TagRecvData) : EpollServer :=
  { s with rbuffer := s.rbuffer ++ vRecvData }

/-- `delConnection`: a record says that the connection is closed. -/
def delConnection (s : EpollServer) (c : Connection) : EpollServer :=
  if c.lfd ≠ none then
    let recv : TagRecvData :=
      { uid := c.uid, buffer := [], ip := c.ip, port := c.port, isClosed := true, fd := c.sock }
    (s.insertRecvQueue [recv]).setConnection c.uid { c with sock := none }
  else s

/-- The connection for an event. Sockets that were closed are not in the epoll set. -/
def registered (s : EpollServer) (uid : ℕ) : Option Connection :=
  (s.connections uid).filter fun c => c.sock.isSome

/-- `processNet` for `EPOLLIN`: every batch that `recv` returns becomes a record. -/
def processInput (s : EpollServer) (uid : ℕ) (answers : List ReadResult) :
    Option EpollServer :=
  match s.registered uid with
  | none => none
  | some c =>
    match c.recv answers with
    | none => none
    | some (c, vRecvData, ret) =>
      let s := s.setConnection uid c
      some (if ret < 0 then s.delConnection c else s.insertRecvQueue vRecvData)

/-- `waitForRecvQueue` and `ServantHandle::handle`: the oldest record is dispatched unless it
only says that the connection was closed. -/
def handleOldest (s : EpollServer) : Option (EpollServer × List Dispatch) :=
  match s.rbuffer with
  | [] => none
  | recv :: rbuffer =>
    some ({ s with rbuffer }, if recv.isClosed then [] else [⟨recv.uid, recv.buffer⟩])

/-- One step of a run: a connection is accepted, reported by `epoll_wait`, or a handler takes a
record. -/
def step (s : EpollServer) : ServerAction → Option (EpollServer × List Dispatch)
  | .accept lfd fd ip port =>
    (s.addTcpConnection
      { uid := 0, lfd := some lfd, sock := some fd, ip, port, recvbuffer := [] }).map (·, [])
  | .hangup uid => (s.registered uid).map fun c => (s.delConnection c, [])
  | .readable uid answers => (s.processInput uid answers).map (·, [])
  | .handle => s.handleOldest

/-- Every connection knows its identifier and came from a listening socket, and as long as it
is open nothing waits in its receive buffer. -/
structure Inv (s : EpollServer) : Prop where
  /-- Connections are stored under their identifier. -/
  uid_eq : ∀ uid c, s.connections uid = some c → c.uid = uid
  /-- Connections were accepted on a listening socket, so `recv` knows the adapter. -/
  lfd_ne : ∀ uid c, s.connections uid = some c → c.lfd ≠ none
  /-- What was received was passed on. -/
  recv_empty : ∀ uid c, s.connections uid = some c → c.sock ≠ none → c.recvbuffer = []

/-- The payloads of one connection that wait in the receive queue. -/
def queued (uid : ℕ) (s : EpollServer) : List Bytes :=
  s.rbuffer.filterMap fun recv =>
    if recv.uid = uid ∧ recv.isClosed = false then some recv.buffer else none

/-- The payloads of one connection that were dispatched, in the order of the dispatches. -/
def dispatched (uid : ℕ) (e : Dispatch) : List Bytes := if e.uid = uid then [e.buffer] else []

/-- The nonempty batch that an action reads from one connection. -/
def received (uid : ℕ) : ServerAction → List Bytes
  | .readable u answers =>
    if u = uid then (batchOf answers).toList.filter (· ≠ []) else []
  | _ => []

section Steps

variable {s s' : EpollServer} {events : List Dispatch} {uid : ℕ} {c : Connection}

/-- A registered connection is stored and open, so its `recv` reads from a socket. -/
theorem registered_eq_some (h : s.registered uid = some c) :
    s.connections uid = some c ∧ c.sock ≠ none := by
  obtain ⟨hstored, hopen⟩ := Option.filter_eq_some_iff.mp h
  exact ⟨hstored, by simpa [Option.isSome_iff_ne_none] using hopen⟩

/-- Storing a connection that fits, with its own uid and an empty receive buffer, keeps the
invariant. -/
theorem Inv.setConnection (h : s.Inv) (huid : c.uid = uid) (hlfd : c.lfd ≠ none)
    (hempty : c.sock ≠ none → c.recvbuffer = []) : (s.setConnection uid c).Inv := by
  have hcases {u : ℕ} {d : Connection} (hd : (s.setConnection uid c).connections u = some d) :
      u = uid ∧ d = c ∨ s.connections u = some d := by
    simp only [EpollServer.setConnection] at hd
    split at hd
    · rename_i heq
      exact .inl ⟨heq, (Option.some.inj hd).symm⟩
    · exact .inr hd
  refine ⟨fun u d hd => ?_, fun u d hd => ?_, fun u d hd => ?_⟩
  · obtain ⟨rfl, rfl⟩ | hold := hcases hd
    · exact huid
    · exact h.uid_eq u d hold
  · obtain ⟨rfl, rfl⟩ | hold := hcases hd
    · exact hlfd
    · exact h.lfd_ne u d hold
  · obtain ⟨rfl, rfl⟩ | hold := hcases hd
    · exact hempty
    · exact h.recv_empty u d hold

/-- Closing an accepted connection queues a record that it is closed. -/
theorem Inv.delConnection (h : s.Inv) (hlfd : c.lfd ≠ none) :
    (s.delConnection c).Inv ∧ ∀ uid, queued uid (s.delConnection c) = queued uid s := by
  rw [EpollServer.delConnection, if_pos hlfd]
  refine ⟨Inv.setConnection ⟨h.uid_eq, h.lfd_ne, h.recv_empty⟩ rfl hlfd (fun hne => absurd rfl hne),
    fun uid => ?_⟩
  simp [queued, EpollServer.setConnection, insertRecvQueue]

/-- What `delConnection` stores replaces the connection, so what was received before does not
matter. -/
theorem delConnection_setConnection (c : Connection) (hlfd : c.lfd ≠ none) :
    (s.setConnection c.uid c).delConnection c = s.delConnection c := by
  rw [EpollServer.delConnection, if_pos hlfd, EpollServer.delConnection, if_pos hlfd]
  simp only [EpollServer.setConnection, insertRecvQueue, EpollServer.mk.injEq, and_true, true_and]
  funext u
  split <;> simp [*]

/-- **What one read does.** A nonempty batch is queued behind the others as one record of its
connection. -/
theorem Inv.processInput (h : s.Inv) {answers : List ReadResult}
    (hrun : s.processInput uid answers = some s') :
    s'.Inv ∧ ∀ u, queued u s' = queued u s ++ received u (.readable uid answers) := by
  unfold EpollServer.processInput at hrun
  cases hreg : s.registered uid with
  | none => simp [hreg] at hrun
  | some c =>
    obtain ⟨hstored, hopen⟩ := registered_eq_some hreg
    have huid := h.uid_eq uid c hstored
    have hlfd := h.lfd_ne uid c hstored
    have hempty := h.recv_empty uid c hstored hopen
    obtain ⟨hbatch, recvbuffer, hrecv⟩ | ⟨batch, hbatch, hrecv⟩ :=
      recv_spec answers hlfd hempty
    · simp only [hreg, hrecv] at hrun
      obtain rfl := Option.some.inj hrun
      subst huid
      obtain ⟨hinv, hsame⟩ := h.delConnection (c := { c with recvbuffer }) hlfd
      rw [if_pos (by decide), delConnection_setConnection { c with recvbuffer } hlfd]
      refine ⟨hinv, fun u => ?_⟩
      rw [hsame, received, hbatch]
      split <;> simp
    · simp only [hreg, hrecv] at hrun
      obtain rfl := Option.some.inj hrun
      have hset := h.setConnection huid hlfd fun _ => hempty
      by_cases hnone : batch = []
      · subst hnone
        refine ⟨⟨hset.uid_eq, hset.lfd_ne, hset.recv_empty⟩, fun u => ?_⟩
        rw [received, hbatch]
        simp [queued, insertRecvQueue, EpollServer.setConnection]
      · rw [if_neg hnone, if_neg hnone, if_neg (by decide)]
        refine ⟨⟨hset.uid_eq, hset.lfd_ne, hset.recv_empty⟩, fun u => ?_⟩
        rw [received, hbatch]
        by_cases hu : uid = u <;>
          simp [queued, insertRecvQueue, EpollServer.setConnection, huid, hu, hnone]

/-- **One step** keeps the invariant, puts what it reads behind the queued payloads and
dispatches them from the front. -/
theorem Inv.step {a : ServerAction} (h : s.Inv) (hstep : s.step a = some (s', events)) :
    s'.Inv ∧ ∀ uid, queued uid s ++ received uid a =
      events.flatMap (dispatched uid) ++ queued uid s' := by
  cases a with
  | accept lfd fd ip port =>
    obtain ⟨next, hadd, heq⟩ := Option.map_eq_some_iff.mp hstep
    obtain ⟨rfl, rfl⟩ := Prod.mk.inj heq
    unfold addTcpConnection at hadd
    split at hadd
    · obtain rfl := Option.some.inj hadd
      have hset := h.setConnection (c := {
        uid := s.free, lfd := some lfd, sock := some fd, ip, port, recvbuffer := [] }) rfl
        (by simp) fun _ => rfl
      exact ⟨⟨hset.uid_eq, hset.lfd_ne, hset.recv_empty⟩, fun uid => by simp [received, queued,
        EpollServer.setConnection]⟩
    · cases hadd
  | hangup uid =>
    obtain ⟨c, hreg, heq⟩ := Option.map_eq_some_iff.mp hstep
    obtain ⟨rfl, rfl⟩ := Prod.mk.inj heq
    obtain ⟨hinv, hsame⟩ := h.delConnection (h.lfd_ne uid c (registered_eq_some hreg).1)
    exact ⟨hinv, fun uid => by simp [received, hsame]⟩
  | readable uid answers =>
    obtain ⟨next, hinput, heq⟩ := Option.map_eq_some_iff.mp hstep
    obtain ⟨rfl, rfl⟩ := Prod.mk.inj heq
    obtain ⟨hinv, hqueued⟩ := h.processInput hinput
    exact ⟨hinv, fun u => by simp [hqueued]⟩
  | handle =>
    simp only [EpollServer.step, handleOldest] at hstep
    split at hstep
    · cases hstep
    · rename_i recv rbuffer hbuffer
      obtain ⟨rfl, rfl⟩ := Prod.mk.inj (Option.some.inj hstep)
      refine ⟨⟨h.uid_eq, h.lfd_ne, h.recv_empty⟩, fun uid => ?_⟩
      cases hclosed : recv.isClosed with
      | true => simp [queued, hbuffer, received, hclosed]
      | false =>
        by_cases huid : recv.uid = uid <;>
          simp [queued, hbuffer, received, dispatched, hclosed, huid]

end Steps

/-- A new server has no connections, so the invariant holds. -/
theorem inv_new : new.Inv := by
  constructor <;> simp [new]

end EpollServer

end Tars
