import Tars.Server.NetInvariant
import Tars.Server.RequestFraming

/-!
# A server with one network thread

`EpollServer` is the server as far as the framing of requests goes: one network thread, one adapter,
and nothing that is sent. `NetServer` is the whole of it. Here the two are connected: every run of
a `NetServer` with one thread whose connections come from one listening socket is a run of
`EpollServer` that has the same connections and dispatches the same requests. Only the records
that a connection was closed may differ, since `NetServer` can file several of them.
-/

namespace Tars

namespace NetServer

open Scripts

/-- The action accepts from no other listening socket than this one. -/
def From (lfd : ℕ) : NetAction → Prop
  | .accept lfd' _ _ _ => lfd' = lfd
  | _ => True

/-- What a handler dispatches of a record that it has taken. -/
def dispatchOf (recv : ReceivedRecord) : Dispatch := ⟨recv.data.uid, recv.data.buffer⟩

/-- The records that are requests, without those that only say that a connection was closed. -/
def unclosed (records : List TagRecvData) : List TagRecvData :=
  records.filter fun recv => recv.isClosed = false

@[simp] theorem unclosed_append (records records' : List TagRecvData) :
    unclosed (records ++ records') = unclosed records ++ unclosed records' :=
  List.filter_append ..

/-- `EpollServer` stands for a server with one network thread and one listening socket: it has the
same identifiers, the same connections and the same requests in the queue. -/
structure StandsFor (lfd : ℕ) (t : EpollServer) (s : NetServer) : Prop where
  /-- The identifiers that are free are those from the next one on. -/
  free : (s.netThreads 0).free = List.range' t.free (EpollServer.total + 1 - t.free)
  /-- The connections of the thread, as far as receiving uses them. -/
  connections : ∀ uid, t.connections uid = (s.connection 0 uid).map NetConnection.toConnection
  /-- A connection is stored under its identifier and came from the listening socket. -/
  stored : ∀ uid c, s.connection 0 uid = some c → c.uid = uid ∧ c.lfd = some lfd
  /-- There is no other thread that has connections. -/
  thread : ∀ thread uid, thread ≠ 0 → s.connection thread uid = none
  /-- The requests in the queue of the adapter. -/
  rbuffer : unclosed t.rbuffer = unclosed ((s.rbuffer lfd).map ReceivedRecord.data)
  /-- There is no other adapter that has records. -/
  adapter : ∀ lfd', lfd' ≠ lfd → s.rbuffer lfd' = []

section Simulation

variable {lfd scIovMax uid : ℕ} {t t' : EpollServer} {s s' : NetServer} {c c' : NetConnection}
  {es : List NetEvent}

/-- The record that `delConnection` files for the handlers of the connection's adapter. -/
def closedRecord (c : NetConnection) : ReceivedRecord where
  serial := c.serial
  data := ⟨c.uid, [], c.ip, c.port, true, c.sock⟩

/-- `delConnection` of a connection that was accepted from a listening socket. -/
theorem delConnection_eq {thread : ℕ} (hlfd : c.lfd = some lfd) :
    (s.delConnection thread c).1 =
      (s.insertRecvQueue lfd [closedRecord c]).closeSocket thread c := by
  simp only [delConnection, hlfd]
  rfl

/-- Handlers have taken the same requests after `delConnection` as before. -/
theorem requests_delConnection (thread : ℕ) :
    (s.delConnection thread c).1.requests = s.requests := by
  unfold delConnection
  split <;> rfl

/-- A new server of many threads stands for a new server of one thread: the start of the simulation.
-/
theorem standsFor_start : StandsFor lfd EpollServer.new start where
  free := rfl
  connections _ := rfl
  stored _ _ hc := nomatch hc
  thread _ _ _ := rfl
  rbuffer := rfl
  adapter _ _ := rfl

namespace StandsFor

/-- Only the thread with number 0 has connections, since there is no other one. -/
theorem thread_eq_zero (h : StandsFor lfd t s) {thread : ℕ}
    (hc : s.connection thread uid = some c) : thread = 0 := by
  by_contra hne
  rw [h.thread thread uid hne] at hc
  cases hc

/-- The connection of an event, if its socket is open. -/
theorem registered (h : StandsFor lfd t s) (hc : s.connection 0 uid = some c)
    (hopen : c.sock ≠ none) : t.registered uid = some c.toConnection := by
  rw [EpollServer.registered, h.connections, hc]
  exact Option.filter_eq_some_iff.mpr ⟨rfl, by simpa [Option.isSome_iff_ne_none] using hopen⟩

/-- Both servers store a connection in the same way, whether it is new or not. -/
theorem setConnection (h : StandsFor lfd t s) (c' : NetConnection) (huid : c'.uid = uid)
    (hlfd : c'.lfd = some lfd) :
    StandsFor lfd (t.setConnection uid c'.toConnection) (s.setConnection 0 c') := by
  refine ⟨?_, fun u => ?_, fun u d hd => ?_, fun thread u hne => ?_, h.rbuffer, h.adapter⟩
  · rw [free_setConnection]
    exact h.free
  · rw [EpollServer.setConnection, connection_setConnection, huid]
    by_cases hu : u = uid
    · simp [hu]
    · simp [hu, h.connections]
  · rw [connection_setConnection, huid] at hd
    split at hd
    · rename_i heq
      obtain rfl := Option.some.inj hd
      exact ⟨huid.trans heq.2.symm, hlfd⟩
    · exact h.stored u d hd
  · rw [connection_setConnection, if_neg fun heq => hne heq.1]
    exact h.thread thread u hne

/-- A change of what a connection sends is none for `EpollServer`. -/
theorem touch (h : StandsFor lfd t s) (c' : NetConnection) (hc : s.connection 0 uid = some c)
    (hsame : c'.toConnection = c.toConnection) : StandsFor lfd t (s.setConnection 0 c') := by
  obtain ⟨huid, hlfd⟩ := h.stored uid c hc
  have hset := h.setConnection c' ((congrArg Connection.uid hsame).trans huid)
    ((congrArg Connection.lfd hsame).trans hlfd)
  have hnothing : (fun u => if u = uid then some c'.toConnection else t.connections u) =
      t.connections := by
    funext u
    split
    · rename_i hu
      rw [hu, h.connections, hc, hsame]
      rfl
    · rfl
  rwa [EpollServer.setConnection, hnothing] at hset

/-- A change of a thread that leaves its connections may hand out identifiers. -/
theorem setThread (h : StandsFor lfd t s) (thread : ℕ) (net : NetThread) (free : ℕ)
    (hconnections : net.connections = (s.netThreads thread).connections)
    (hfree : ((s.setThread thread net).netThreads 0).free =
      List.range' free (EpollServer.total + 1 - free)) :
    StandsFor lfd { t with free } (s.setThread thread net) := by
  have hsame := connection_setThread s thread net hconnections
  refine ⟨hfree, ?_, ?_, ?_, h.rbuffer, h.adapter⟩ <;> rw [hsame]
  · exact h.connections
  · exact h.stored
  · exact h.thread

/-- What a thread does to its commands is nothing for `EpollServer`. -/
theorem setCommands (h : StandsFor lfd t s) (thread : ℕ) (sbuffer deSendData : List TagSendData) :
    StandsFor lfd t (s.setThread thread { s.netThreads thread with sbuffer, deSendData }) := by
  refine h.setThread thread _ t.free rfl ?_
  rw [netThreads_setThread]
  split
  · rename_i heq
    rw [← heq]
    exact h.free
  · exact h.free

/-- The next identifier of the thread is that of `EpollServer`. -/
theorem takeFree (h : StandsFor lfd t s) {free : List ℕ}
    (hfree : (s.netThreads 0).free = uid :: free) : t.free = uid ∧ uid ≤ EpollServer.total ∧
      StandsFor lfd { t with free := uid + 1 }
        (s.setThread 0 { s.netThreads 0 with free }) := by
  have hrange := h.free.symm.trans hfree
  cases hsize : EpollServer.total + 1 - t.free with
  | zero =>
    rw [hsize] at hrange
    cases hrange
  | succ size =>
    rw [hsize, List.range'_succ] at hrange
    obtain ⟨rfl, rfl⟩ := List.cons.inj hrange
    refine ⟨rfl, by omega, h.setThread 0 _ (t.free + 1) rfl ?_⟩
    rw [netThreads_setThread, if_pos rfl, show EpollServer.total + 1 - (t.free + 1) = size by omega]

/-- Both servers file the same requests when they are given the same records, whatever else the
records say. -/
theorem insertRecvQueue (h : StandsFor lfd t s) (recs : List ReceivedRecord)
    (vRecvData : List TagRecvData)
    (hrecs : unclosed (recs.map ReceivedRecord.data) = unclosed vRecvData) :
    StandsFor lfd (t.insertRecvQueue vRecvData) (s.insertRecvQueue lfd recs) := by
  refine ⟨h.free, h.connections, h.stored, h.thread, ?_, fun lfd' hne => ?_⟩
  · simp only [EpollServer.insertRecvQueue, NetServer.insertRecvQueue, Function.update_self,
      List.map_append, unclosed_append, hrecs, h.rbuffer]
  · simp only [NetServer.insertRecvQueue, Function.update_of_ne hne]
    exact h.adapter lfd' hne

/-- Both servers replace the queue of the adapter by one with the same requests. -/
theorem setRecvQueue (h : StandsFor lfd t s) (recs : List ReceivedRecord)
    (rbuffer : List TagRecvData)
    (hrecs : unclosed rbuffer = unclosed (recs.map ReceivedRecord.data))
    (requests : List ReceivedRecord) :
    StandsFor lfd { t with rbuffer }
      { s with rbuffer := Function.update s.rbuffer lfd recs, requests } := by
  refine ⟨h.free, h.connections, h.stored, h.thread, ?_, fun lfd' hne => ?_⟩
  · simp only [Function.update_self, hrecs]
  · simp only [Function.update_of_ne hne]
    exact h.adapter lfd' hne

/-- What handlers have taken, the number of accepts and the descriptors of the kernel do not
matter. -/
theorem others (h : StandsFor lfd t s) (requests : List ReceivedRecord) (accepts : ℕ)
    (opened : List ℕ) : StandsFor lfd t { s with requests, accepts, opened } :=
  ⟨h.free, h.connections, h.stored, h.thread, h.rbuffer, h.adapter⟩

/-- Deleting a connection that is open closes it in both servers. -/
theorem delConnection (h : StandsFor lfd t s) (hc : s.connection 0 uid = some c) :
    StandsFor lfd (t.delConnection c.toConnection) (s.delConnection 0 c).1 := by
  obtain ⟨rfl, hlfd⟩ := h.stored uid c hc
  have hsome : c.lfd ≠ none := by
    rw [hlfd]
    exact Option.some_ne_none lfd
  have hfiled := h.insertRecvQueue [closedRecord c] [(closedRecord c).data] rfl
  rw [EpollServer.delConnection, if_pos hsome, delConnection_eq hlfd]
  exact (hfiled.setConnection { c with sock := none } rfl hlfd).others _ _ _

/-- Deleting a connection that was closed before files a record that no handler dispatches. -/
theorem delConnection_closed (h : StandsFor lfd t s) (hc : s.connection 0 uid = some c)
    (hclosed : c.sock = none) : StandsFor lfd t (s.delConnection 0 c).1 := by
  obtain ⟨rfl, hlfd⟩ := h.stored uid c hc
  have hfiled := h.insertRecvQueue [closedRecord c] [] rfl
  rw [EpollServer.insertRecvQueue, List.append_nil] at hfiled
  have hsame : ({ c with sock := none } : NetConnection).toConnection = c.toConnection := by
    rw [← hclosed]
  rw [delConnection_eq hlfd]
  exact (hfiled.touch { c with sock := none } hc hsame).others _ _ _

end StandsFor

/-! ### Steps -/

/-- `EpollServer` answers a change of the other server by steps that dispatch what handlers have
taken in it. -/
def Answers (lfd : ℕ) (t : EpollServer) (s s' : NetServer) : Prop :=
  ∃ bs t' recs, s'.requests = s.requests ++ recs ∧
    exec EpollServer.step t bs = some (t', recs.map dispatchOf) ∧ StandsFor lfd t' s'

/-- A change that `EpollServer` does not see is answered by doing nothing. -/
theorem Answers.stay (h : StandsFor lfd t s') (hsame : s'.requests = s.requests) :
    Answers lfd t s s' :=
  ⟨[], t, [], by rw [hsame, List.append_nil], exec_nil, h⟩

/-- A change in which no handler takes anything is answered by one step. -/
theorem Answers.single {b : ServerAction} (hstep : t.step b = some (t', []))
    (h : StandsFor lfd t' s') (hsame : s'.requests = s.requests) : Answers lfd t s s' :=
  ⟨[b], t', [], by rw [hsame, List.append_nil],
    exec_cons_eq_some.mpr ⟨t', [], [], hstep, exec_nil, rfl⟩, h⟩

/-- Deleting a connection is a report that the client is gone, or nothing if it was closed
before. -/
theorem answers_delConnection (h : StandsFor lfd t s) (hc : s.connection 0 uid = some c) :
    Answers lfd t s (s.delConnection 0 c).1 := by
  have hsame : (s.delConnection 0 c).1.requests = s.requests := requests_delConnection 0
  by_cases hclosed : c.sock = none
  · exact .stay (h.delConnection_closed hc hclosed) hsame
  · refine .single (b := .hangup uid) ?_ (h.delConnection hc) hsame
    rw [EpollServer.step, h.registered hc hclosed, Option.map_some]

/-- `EPOLLIN` on a connection that is open, which both servers read in the same way. -/
theorem step_readable (h : StandsFor lfd t s) (hc : s.connection 0 uid = some c)
    (hopen : c.sock ≠ none) {answers : List ReadResult} {received : Connection}
    {vRecvData : List TagRecvData} {ret : ℤ}
    (hrecv : c.toConnection.recv answers = some (received, vRecvData, ret)) :
    t.step (.readable uid answers) =
      some (if ret < 0 then (t.setConnection uid received).delConnection received
        else (t.setConnection uid received).insertRecvQueue vRecvData, []) := by
  simp only [EpollServer.step, EpollServer.processInput, h.registered hc hopen, hrecv,
    Option.map_some]

/-- A connection that was closed is found closed again, and nothing is read. -/
theorem recv_closed (c : Connection) : c.recv [.error] = some (c, [], -1) := rfl

/-- `EPOLLIN` reads the same records in both servers, or finds the connection closed. -/
theorem answers_processInput (h : StandsFor lfd t s) (hc : s.connection 0 uid = some c)
    {input : Option (List ReadResult)} {deleted : Bool}
    (hstep : s.processInput 0 c input = some (s', c', es, deleted)) :
    Answers lfd t s s' ∧ (deleted = false → s'.connection 0 uid = some c') := by
  obtain ⟨huid, hlfd⟩ := h.stored uid c hc
  cases input with
  | none =>
    obtain ⟨rfl, rfl, rfl, rfl⟩ : s = s' ∧ c = c' ∧ [] = es ∧ false = deleted := by
      simpa [processInput] using hstep
    exact ⟨.stay h rfl, fun _ => hc⟩
  | some answers =>
    have hfound (recvbuffer : Bytes) : (s.setConnection 0 { c with recvbuffer }).connection 0 uid =
        some { c with recvbuffer } := by
      rw [connection_setConnection, if_pos ⟨rfl, huid.symm⟩]
    by_cases hclosed : c.sock = none
    · have hset : StandsFor lfd t (s.setConnection 0 c) := h.touch c hc rfl
      simp only [processInput, hclosed, if_true, recv_closed] at hstep
      obtain ⟨rfl, -, -, rfl⟩ : _ = s' ∧ _ = c' ∧ _ = es ∧ true = deleted := by
        simpa using hstep
      exact ⟨.stay (hset.delConnection_closed (hfound c.recvbuffer) hclosed)
        (requests_delConnection 0), nofun⟩
    · simp only [processInput, if_neg hclosed] at hstep
      split at hstep
      · cases hstep
      rename_i received vRecvData ret hrecv
      obtain ⟨⟨recvbuffer, rfl⟩, -⟩ := Connection.recv_keeps hrecv
      have hset := h.setConnection { c with recvbuffer } huid hlfd
      have hreadable := step_readable h hc hclosed hrecv
      split at hstep
      · rename_i hneg
        obtain ⟨rfl, -, -, rfl⟩ : _ = s' ∧ _ = c' ∧ _ = es ∧ true = deleted := by
          simpa using hstep
        rw [if_pos hneg] at hreadable
        exact ⟨.single hreadable (hset.delConnection (hfound recvbuffer))
          (requests_delConnection 0), nofun⟩
      rename_i hpos
      rw [if_neg hpos] at hreadable
      split at hstep
      · rename_i hnone
        rw [hlfd] at hnone
        cases hnone
      · rename_i lfd' hlfd'
        obtain rfl := Option.some.inj (hlfd.symm.trans hlfd')
        obtain ⟨rfl, rfl, -, rfl⟩ : _ = s' ∧ _ = c' ∧ [] = es ∧ false = deleted := by
          simpa using hstep
        refine ⟨.single hreadable (hset.insertRecvQueue _ _ ?_) rfl, fun _ => hfound recvbuffer⟩
        rw [List.map_map]
        exact congrArg unclosed (List.map_id vRecvData)

/-- `processNet` deletes a connection or reads it, and what it sends is nothing for
`EpollServer`. -/
theorem answers_processNet (h : StandsFor lfd t s) {thread : ℕ} {report : NetReport}
    (hstep : s.processNet scIovMax thread uid report = some (s', es)) : Answers lfd t s s' := by
  unfold processNet at hstep
  split at hstep
  · cases hstep
  rename_i c hc
  obtain rfl := h.thread_eq_zero hc
  split at hstep
  · have hdel := answers_delConnection h hc
    rwa [Option.some.inj hstep] at hdel
  split at hstep
  · cases hstep
  · rename_i hinput
    obtain ⟨rfl, -⟩ := Prod.mk.inj (Option.some.inj hstep)
    exact (answers_processInput h hc hinput).1
  · rename_i s₁ c₁ es₁ hinput
    obtain ⟨⟨bs, t₁, recs, hrecs, hexec, h₁⟩, hc₁⟩ := answers_processInput h hc hinput
    obtain ⟨rfl, -⟩ := Prod.mk.inj (Option.some.inj hstep)
    cases report.output with
    | none => exact ⟨bs, t₁, recs, hrecs, hexec, h₁⟩
    | some answers => exact ⟨bs, t₁, recs, hrecs, hexec, h₁.touch _ (hc₁ rfl) rfl⟩

/-- `processPipe` closes a connection, or sends on it, which is nothing for `EpollServer`. -/
theorem answers_pipe (h : StandsFor lfd t s) {thread : ℕ} {answer : WriteResult}
    (hstep : s.pipe thread answer = some (s', es)) : Answers lfd t s s' := by
  unfold pipe at hstep
  split at hstep
  · cases hstep
  rename_i it deSendData hdata
  have hpopped := h.setCommands thread (s.netThreads thread).sbuffer deSendData
  unfold processCommand at hstep
  split at hstep
  · obtain ⟨rfl, -⟩ := Prod.mk.inj (Option.some.inj hstep)
    exact .stay hpopped rfl
  · rename_i c hcmd hc
    obtain rfl := hpopped.thread_eq_zero hc
    have huid := (hpopped.stored it.uid c hc).1
    have htouch := hpopped.touch { c with bClose := true } hc rfl
    cases hempty : c.sendbuffer.isEmpty with
    | true =>
      simp only [Sender.setClose, hempty, if_true] at hstep
      have hdel := answers_delConnection htouch
        (by rw [connection_setConnection, if_pos ⟨rfl, huid.symm⟩])
      rwa [Option.some.inj hstep] at hdel
    | false =>
      simp only [Sender.setClose, hempty, Bool.false_eq_true, if_false] at hstep
      obtain ⟨rfl, -⟩ := Prod.mk.inj (Option.some.inj hstep)
      exact .stay htouch rfl
  · cases hstep
  · rename_i c hcmd hc
    obtain rfl := hpopped.thread_eq_zero hc
    obtain ⟨rfl, -⟩ := Prod.mk.inj (Option.some.inj hstep)
    exact .stay (hpopped.touch _ hc rfl) rfl

/-- A new connection gets the next identifier in both servers. -/
theorem answers_accept (h : StandsFor lfd t s) {fd port : ℕ} {ip : Bytes}
    (hstep : s.accept 1 lfd fd ip port = some (s', es)) : Answers lfd t s s' := by
  unfold accept at hstep
  split at hstep
  · cases hstep
  obtain ⟨⟨s₁, uid⟩, hadd, heq⟩ := Option.map_eq_some_iff.mp hstep
  obtain ⟨rfl, -⟩ := Prod.mk.inj heq
  have hzero : threadOfFd 1 (some fd) = 0 := Nat.mod_one fd
  rw [hzero] at hadd
  unfold addTcpConnection at hadd
  split at hadd
  · cases hadd
  rename_i front free hfree
  obtain ⟨rfl, rfl⟩ := Prod.mk.inj (Option.some.inj hadd)
  obtain ⟨rfl, hle, hnext⟩ := h.takeFree hfree
  let c : NetConnection :=
    { uid := t.free, lfd := some lfd, sock := some fd, ip, port, recvbuffer := [], sendbuffer := [],
      bClose := false, serial := s.accepts }
  refine .single (b := .accept lfd fd ip port) ?_
    ((hnext.setConnection c rfl rfl).others _ _ _) rfl
  rw [EpollServer.step, EpollServer.addTcpConnection, if_pos hle]
  rfl

/-- The handler dispatches the first request in the queue, after the records in front of it that
only say that a connection was closed. -/
theorem exec_handle_first {recv : TagRecvData} {rest : List TagRecvData}
    (h : unclosed t.rbuffer = recv :: rest) :
    ∃ n rbuffer, unclosed rbuffer = rest ∧ exec EpollServer.step t (List.replicate n .handle) =
      some ({ t with rbuffer }, [⟨recv.uid, recv.buffer⟩]) := by
  induction hbuffer : t.rbuffer generalizing t with
  | nil =>
    rw [hbuffer] at h
    cases h
  | cons first others ih =>
    rw [hbuffer] at h
    cases hclosed : first.isClosed with
    | true =>
      obtain ⟨n, rbuffer, hrest, hexec⟩ := ih (t := { t with rbuffer := others })
        (by simpa [unclosed, hclosed] using h) rfl
      refine ⟨n + 1, rbuffer, hrest, exec_cons_eq_some.mpr ⟨_, [], _, ?_, hexec, rfl⟩⟩
      simp [EpollServer.step, EpollServer.handleOldest, hbuffer, hclosed]
    | false =>
      obtain ⟨rfl, rfl⟩ : first = recv ∧ unclosed others = rest := by
        simpa [unclosed, hclosed] using h
      refine ⟨1, others, rfl, exec_cons_eq_some.mpr
        ⟨_, [⟨first.uid, first.buffer⟩], [], ?_, exec_nil, rfl⟩⟩
      simp [EpollServer.step, EpollServer.handleOldest, hbuffer, hclosed]

/-- A handler takes the oldest record. If it is a request, `EpollServer` dispatches it. -/
theorem answers_take (h : StandsFor lfd t s) {lfd' : ℕ}
    (hstep : s.take lfd' = some (s', es)) : Answers lfd t s s' := by
  unfold take at hstep
  split at hstep
  · cases hstep
  rename_i recv rest hbuffer
  obtain rfl : lfd' = lfd := by
    by_contra hne
    rw [h.adapter lfd' hne] at hbuffer
    cases hbuffer
  have hrbuffer := h.rbuffer
  rw [hbuffer] at hrbuffer
  cases hclosed : recv.data.isClosed with
  | true =>
    simp only [hclosed, if_true] at hstep
    obtain ⟨rfl, -⟩ := Prod.mk.inj (Option.some.inj hstep)
    refine .stay (h.setRecvQueue rest t.rbuffer ?_ s.requests) rfl
    simpa [unclosed, hclosed] using hrbuffer
  | false =>
    have hfirst : unclosed t.rbuffer = recv.data :: unclosed (rest.map ReceivedRecord.data) := by
      simpa [unclosed, hclosed] using hrbuffer
    simp only [hclosed, Bool.false_eq_true, if_false] at hstep
    obtain ⟨rfl, -⟩ := Prod.mk.inj (Option.some.inj hstep)
    obtain ⟨n, rbuffer, hrest, hexec⟩ := exec_handle_first hfirst
    exact ⟨List.replicate n .handle, { t with rbuffer }, [recv], rfl, hexec,
      h.setRecvQueue rest rbuffer hrest (s.requests ++ [recv])⟩

/-- **One step** of a server with one network thread and one listening socket is answered by
`EpollServer`. -/
theorem answers_step (h : StandsFor lfd t s) {a : NetAction} (hfrom : From lfd a)
    (hstep : s.step 1 scIovMax a = some (s', es)) : Answers lfd t s s' := by
  cases a with
  | accept lfd' fd ip port =>
    obtain rfl : lfd' = lfd := hfrom
    exact answers_accept h hstep
  | net thread uid report => exact answers_processNet h hstep
  | swap thread =>
    simp only [step, swap] at hstep
    split at hstep
    · obtain ⟨rfl, -⟩ := Prod.mk.inj (Option.some.inj hstep)
      exact .stay (h.setCommands thread [] (s.netThreads thread).sbuffer) rfl
    · cases hstep
  | pipe thread answer => exact answers_pipe h hstep
  | take lfd' => exact answers_take h hstep
  | respond request buffer =>
    simp only [step, respond] at hstep
    split at hstep
    · cases hstep
    · obtain ⟨rfl, -⟩ := Prod.mk.inj (Option.some.inj hstep)
      exact .stay (h.setCommands _ _ _) rfl
  | close request =>
    simp only [step, close] at hstep
    split at hstep
    · cases hstep
    · obtain ⟨rfl, -⟩ := Prod.mk.inj (Option.some.inj hstep)
      exact .stay (h.setCommands _ _ _) rfl

/-- **The server with threads is the one for framing** if it has one network thread and all its
connections come from one listening socket: the requests that handlers have taken in a run are
those that `EpollServer` dispatches in some run of its own, in this order, and both runs end with
the same identifiers, the same connections and the same requests in the queue. -/
theorem exec_epollServer {script : List NetAction}
    (hexec : exec (step 1 scIovMax) start script = some (s, es))
    (hfrom : ∀ a ∈ script, From lfd a) :
    ∃ as t, exec EpollServer.step EpollServer.new as = some (t, s.requests.map dispatchOf) ∧
      StandsFor lfd t s := by
  refine exec_invariant (I := fun s => ∃ as t, exec EpollServer.step EpollServer.new as =
    some (t, s.requests.map dispatchOf) ∧ StandsFor lfd t s) ?_
    ⟨[], EpollServer.new, exec_nil, standsFor_start⟩ (along_of_mem hfrom) hexec
  rintro s a s' es ⟨as, t, has, h⟩ ha hstep
  obtain ⟨bs, t', recs, hrecs, hbs, h'⟩ := answers_step h ha hstep
  rw [hrecs, List.map_append]
  exact ⟨as ++ bs, t', exec_append_eq_some.mpr ⟨t, _, _, has, hbs, rfl⟩, h'⟩

end Simulation

end NetServer

end Tars
