import Tars.Server.NetOrder

/-!
# The order of requests

What one call of `recv` reads is a record in the queue of an adapter, from which a handler takes it.
So the requests of a connection that handlers have taken, followed by those that wait, are what
was read from it, in this order, however the threads and handlers take turns.
-/

namespace Tars

namespace NetServer

/-- The requests of a connection among records; the record of its close is no request. -/
def requestsFrom (w : ℕ) (recs : List ReceivedRecord) : List Bytes :=
  recs.filterMap fun recv =>
    if recv.serial = w ∧ recv.data.isClosed = false then some recv.data.buffer else none

/-- The requests of a connection that handlers have taken or that wait in the queue of an
adapter. -/
def held (s : NetServer) (lfd w : ℕ) : List Bytes := requestsFrom w (s.requests ++ s.rbuffer lfd)

/-- The connection that a step reads, and the answers of `::read`. -/
def reading (s : NetServer) : NetAction → Option (NetConnection × List ReadResult)
  | .net thread uid report =>
    match s.connection thread uid, report.error, report.input with
    | some c, false, some answers => if c.sock = none then none else some (c, answers)
    | _, _, _ => none
  | _ => none

/-- What a step reads from a connection that it does not find closed. -/
def batches (s : NetServer) (a : NetAction) : List (ℕ × Bytes) :=
  match s.reading a with
  | none => []
  | some (c, answers) => ((Connection.batchOf answers).toList.filter (· ≠ [])).map (c.serial, ·)

/-- What was read from one connection, in this order, without the empty batches. -/
def batchesFrom (w : ℕ) (bs : List (ℕ × Bytes)) : List Bytes := (bs.filter (·.1 = w)).map Prod.snd

/-- A step together with what it reads, which is noted as its output. -/
def readingStep (n scIovMax : ℕ) (s : NetServer) (a : NetAction) :
    Option (NetServer × List (ℕ × Bytes)) :=
  (s.step n scIovMax a).map fun r => (r.1, s.batches a)

section Records

variable {w : ℕ} {recs recs' : List ReceivedRecord} {bs bs' : List (ℕ × Bytes)}

@[simp] theorem requestsFrom_append :
    requestsFrom w (recs ++ recs') = requestsFrom w recs ++ requestsFrom w recs' :=
  List.filterMap_append

@[simp] theorem batchesFrom_append :
    batchesFrom w (bs ++ bs') = batchesFrom w bs ++ batchesFrom w bs' := by
  simp [batchesFrom]

theorem requestsFrom_eq_nil (h : ∀ r ∈ recs, r.data.isClosed = false → r.serial ≠ w) :
    requestsFrom w recs = [] := by
  rw [requestsFrom, List.filterMap_eq_nil_iff]
  intro r hr
  exact if_neg fun hboth => h r hr hboth.2 hboth.1

/-- Taking a request is nothing but a move from the receive queue to the hands of a handler: what is
held stays the same. -/
theorem held_of_move {s s' : NetServer} {lfd : ℕ}
    (h : s'.requests ++ s'.rbuffer lfd = s.requests ++ s.rbuffer lfd) :
    held s' lfd w = held s lfd w := by
  rw [held, held, h]

end Records

/-! ### What a step files -/

/-- A connection is the same as before, or was closed. -/
structure Kept (c c' : NetConnection) : Prop where
  /-- It has the same number, so it is the same connection. -/
  serial : c'.serial = c.serial
  /-- It has the same adapter, so its records go to the same queue. -/
  lfd : c'.lfd = c.lfd
  /-- If it is open, it was. -/
  sock : c'.sock ≠ none → c.sock ≠ none
  /-- If it is open, it has received nothing else. -/
  recvbuffer : c'.sock ≠ none → c'.recvbuffer = c.recvbuffer

namespace Kept

theorem refl (c : NetConnection) : Kept c c := ⟨rfl, rfl, id, fun _ => rfl⟩

theorem trans {c c' c'' : NetConnection} (h : Kept c c') (h' : Kept c' c'') : Kept c c'' where
  serial := h'.serial.trans h.serial
  lfd := h'.lfd.trans h.lfd
  sock hopen := h.sock (h'.sock hopen)
  recvbuffer hopen := (h'.recvbuffer hopen).trans (h.recvbuffer (h'.sock hopen))

end Kept

/-- Records are put into the queue of an adapter. -/
structure Files (s s' : NetServer) (lfd : ℕ) (recs : List ReceivedRecord) : Prop where
  /-- Handlers take nothing in this step. -/
  requests : s'.requests = s.requests
  /-- They are the last ones. -/
  rbuffer (lfd' : ℕ) : s'.rbuffer lfd' = s.rbuffer lfd' ++ if lfd' = lfd then recs else []
  /-- Nothing is accepted in this step. -/
  accepts : s'.accepts = s.accepts
  /-- Every connection was there before, and is kept as it was. -/
  connection {thread uid : ℕ} {c' : NetConnection} : s'.connection thread uid = some c' →
    ∃ c, s.connection thread uid = some c ∧ Kept c c'

namespace Files

variable {s s' s'' : NetServer} {lfd thread uid : ℕ} {recs recs' : List ReceivedRecord}
  {c c' : NetConnection}

theorem refl (s : NetServer) (lfd : ℕ) : Files s s lfd [] where
  requests := rfl
  rbuffer lfd' := by rw [ite_self, List.append_nil]
  accepts := rfl
  connection hc := ⟨_, hc, Kept.refl _⟩

theorem trans (h : Files s s' lfd recs) (h' : Files s' s'' lfd recs') :
    Files s s'' lfd (recs ++ recs') where
  requests := h'.requests.trans h.requests
  rbuffer lfd' := by
    rw [h'.rbuffer, h.rbuffer, List.append_assoc]
    split <;> rfl
  accepts := h'.accepts.trans h.accepts
  connection hc := by
    obtain ⟨c', hc', hkept'⟩ := h'.connection hc
    obtain ⟨c, hc, hkept⟩ := h.connection hc'
    exact ⟨c, hc, hkept.trans hkept'⟩

/-- A connection changes without a record: what it is for stays the same. -/
theorem setConnection (hc : s.connection thread uid = some c) (c' : NetConnection)
    (huid : c'.uid = uid) (hkept : Kept c c') (lfd : ℕ) :
    Files s (s.setConnection thread c') lfd [] where
  requests := rfl
  rbuffer lfd' := by
    rw [ite_self, List.append_nil]
    rfl
  accepts := rfl
  connection {thread' uid' d} hd := by
    rw [connection_setConnection, huid] at hd
    split at hd
    · rename_i heq
      obtain ⟨rfl, rfl⟩ := heq
      obtain rfl := Option.some.inj hd
      exact ⟨c, hc, hkept⟩
    · exact ⟨d, hd, Kept.refl d⟩

/-- The queues of a thread change, and no record is filed. -/
theorem setThread (t : NetThread) (hconnections : t.connections = (s.netThreads thread).connections)
    (lfd : ℕ) : Files s (s.setThread thread t) lfd [] where
  requests := rfl
  rbuffer lfd' := by
    rw [ite_self, List.append_nil]
    rfl
  accepts := rfl
  connection hd := by
    rw [connection_setThread s thread t hconnections] at hd
    exact ⟨_, hd, Kept.refl _⟩

theorem insertRecvQueue (s : NetServer) (lfd : ℕ) (recs : List ReceivedRecord) :
    Files s (s.insertRecvQueue lfd recs) lfd recs where
  requests := rfl
  rbuffer lfd' := by
    refine (Function.update_apply s.rbuffer lfd _ lfd').trans ?_
    split
    · rename_i heq
      rw [heq]
    · rw [List.append_nil]
  accepts := rfl
  connection hd := ⟨_, hd, Kept.refl _⟩

/-- A connection is closed, whatever it has received. The record of it is no request. -/
theorem delConnection (hc : s.connection thread uid = some c) (c' : NetConnection)
    (huid : c'.uid = uid) (hserial : c'.serial = c.serial) (hsame : c'.lfd = c.lfd)
    (hlfd : c.lfd = some lfd) (h : Files { s with netThreads := s'.netThreads } s' lfd [])
    (hothers : ∀ thread' uid', ¬(thread' = thread ∧ uid' = uid) →
      s'.connection thread' uid' = s.connection thread' uid') :
    ∃ recs, Files s (s'.delConnection thread c').1 lfd recs ∧
      ∀ r ∈ recs, r.data.isClosed = true := by
  rw [NetServer.delConnection, hsame, hlfd]
  refine ⟨[⟨c'.serial, c'.uid, [], c'.ip, c'.port, true, c'.sock⟩], ?_, ?_⟩
  · obtain ⟨hrequests, hrbuffer, haccepts, -⟩ := h.trans (insertRecvQueue s' lfd
      [⟨c'.serial, c'.uid, [], c'.ip, c'.port, true, c'.sock⟩])
    refine ⟨hrequests, hrbuffer, haccepts, fun {thread' uid' d} hd => ?_⟩
    have hset : (s'.setConnection thread { c' with sock := none }).connection thread' uid' =
      some d := hd
    rw [connection_setConnection, huid] at hset
    split at hset
    · rename_i heq
      obtain ⟨rfl, rfl⟩ := heq
      obtain rfl := Option.some.inj hset
      exact ⟨c, hc, hserial, hsame, fun hopen => absurd rfl hopen, fun hopen => absurd rfl hopen⟩
    · rename_i hne
      rw [hothers thread' uid' hne] at hset
      exact ⟨d, hset, Kept.refl d⟩
  · intro r hr
    rw [List.mem_singleton.mp hr]

end Files

/-- What is known of records: each waits in the queue of the adapter of its connection. -/
structure Filed (s : NetServer) : Prop where
  /-- Nothing waits in the receive buffer of an open connection. -/
  emptied {thread uid : ℕ} {c : NetConnection} : s.connection thread uid = some c →
    c.sock ≠ none → c.recvbuffer = []
  /-- A record waits in the queue of the adapter of its connection. -/
  adapter {lfd thread uid : ℕ} {r : ReceivedRecord} {c : NetConnection} : r ∈ s.rbuffer lfd →
    r.data.isClosed = false → s.connection thread uid = some c → c.serial = r.serial →
      c.lfd = some lfd
  /-- Handlers take no records that a connection is closed. -/
  requests {r : ReceivedRecord} : r ∈ s.requests → r.data.isClosed = false

/-- The adapter of a connection, as long as the connection is stored at all. -/
def At (s : NetServer) (lfd w : ℕ) : Prop :=
  ∀ thread uid c, s.connection thread uid = some c → c.serial = w → c.lfd = some lfd

/-- How many connections an action accepts: one or none. -/
def accepted : NetAction → ℕ
  | .accept _ _ _ _ => 1
  | _ => 0

/-- What is known after a step: where its records are, and how many connections there are. -/
structure Gathers (s s' : NetServer) (a : NetAction) : Prop where
  /-- The records of the new state are filed under their connections. -/
  filed : Filed s'
  /-- A connection was accepted, or none, as the action says. -/
  accepts : s'.accepts = s.accepts + accepted a
  /-- Every connection was there before, or is the one that was accepted. -/
  connection {thread uid : ℕ} {c' : NetConnection} : s'.connection thread uid = some c' →
    (∃ c, s.connection thread uid = some c ∧ Kept c c') ∨
      c'.serial = s.accepts ∧ ∃ lfd fd ip port, a = .accept lfd fd ip port ∧ c'.lfd = some lfd
  /-- The requests that handlers have taken. -/
  requests : s'.requests = s.requests ∨ ∃ lfd recv, a = .take lfd ∧ recv ∈ s.rbuffer lfd ∧
    recv.data.isClosed = false ∧ s'.requests = s.requests ++ [recv]
  /-- What is read from a connection is behind its other requests. -/
  held {lfd w : ℕ} : s.At lfd w → held s' lfd w = held s lfd w ++ batchesFrom w (s.batches a)

/-- A new server has no records, so none of them can be in the wrong place. -/
theorem filed_start : Filed start where
  emptied h := nomatch h
  adapter h := absurd h List.not_mem_nil
  requests h := absurd h List.not_mem_nil

section Steps

variable {n scIovMax : ℕ} {s s' : NetServer} {past es : List NetEvent} {thread uid lfd w : ℕ}
  {recs : List ReceivedRecord} {c c' : NetConnection} {a : NetAction}

/-- **What is filed** is behind the other requests of its connection. -/
theorem Filed.files (h : Filed s) (hinv : Inv n s past) (hfiles : Files s s' lfd recs)
    (hrecs : ∀ r ∈ recs, r.data.isClosed = false → ∃ thread uid c,
      s.connection thread uid = some c ∧ c.serial = r.serial ∧ c.lfd = some lfd) :
    Filed s' ∧ ∀ lfd' w, s.At lfd' w → held s' lfd' w = held s lfd' w ++ requestsFrom w recs := by
  refine ⟨⟨?_, ?_, ?_⟩, ?_⟩
  · intro thread uid c' hc' hopen
    obtain ⟨c, hc, hkept⟩ := hfiles.connection hc'
    rw [hkept.recvbuffer hopen]
    exact h.emptied hc (hkept.sock hopen)
  · intro lfd' thread uid r c' hr hfresh hc' hserial
    obtain ⟨c, hc, hkept⟩ := hfiles.connection hc'
    rw [hkept.serial] at hserial
    rw [hkept.lfd]
    rw [hfiles.rbuffer] at hr
    obtain hr | hr := List.mem_append.mp hr
    · exact h.adapter hr hfresh hc hserial
    · split at hr
      · rename_i heq
        obtain ⟨thread', uid', d, hd, hserial', hlfd⟩ := hrecs r hr hfresh
        obtain ⟨rfl, rfl⟩ := hinv.connections.serial_inj hc hd (hserial.trans hserial'.symm)
        rw [heq, Option.some.inj (hc.symm.trans hd), hlfd]
      · exact absurd hr List.not_mem_nil
  · intro r hr
    rw [hfiles.requests] at hr
    exact h.requests hr
  · intro lfd' w hat
    rw [held, held, hfiles.requests, hfiles.rbuffer, ← List.append_assoc, requestsFrom_append]
    split
    · rfl
    · rename_i hne
      have hnone : requestsFrom w recs = [] := by
        refine requestsFrom_eq_nil fun r hr hfresh heq => ?_
        obtain ⟨thread, uid, c, hc, hserial, hlfd⟩ := hrecs r hr hfresh
        rw [hat thread uid c hc (hserial.trans heq)] at hlfd
        exact hne (Option.some.inj hlfd)
      rw [hnone]
      rfl

/-- `EPOLLIN` files the batch that it reads, or that the connection is closed. -/
theorem Filed.processInput (h : Filed s) (hinv : Inv n s past)
    (hc : s.connection thread uid = some c) (hlfd : c.lfd = some lfd) {report : NetReport}
    (herror : report.error = false) {deleted : Bool}
    (hstep : s.processInput thread c report.input = some (s', c', es, deleted)) :
    ∃ recs, Files s s' lfd recs ∧
      (∀ r ∈ recs, r.data.isClosed = false → r.serial = c.serial) ∧
      ∀ w, requestsFrom w recs = batchesFrom w (s.batches (.net thread uid report)) := by
  have huid := (hinv.connections.stored hc).uid_eq
  cases hinput : report.input with
  | none =>
    rw [hinput] at hstep
    obtain ⟨rfl, -⟩ : s = s' ∧ _ := by simpa [NetServer.processInput] using hstep
    refine ⟨[], Files.refl s lfd, fun r hr => absurd hr List.not_mem_nil, fun w => ?_⟩
    simp only [batches, reading, hc, herror, hinput]
    rfl
  | some answers =>
    rw [hinput] at hstep
    simp only [NetServer.processInput] at hstep
    split at hstep
    · cases hstep
    rename_i received vRecvData ret hrecv
    have hdelete (recvbuffer : Bytes) :
        ∃ recs, Files s ((s.setConnection thread { c with recvbuffer }).delConnection thread
          { c with recvbuffer }).1 lfd recs ∧ ∀ r ∈ recs, r.data.isClosed = true := by
      refine Files.delConnection hc { c with recvbuffer } huid rfl rfl hlfd (Files.refl _ lfd)
        fun thread' uid' hne => ?_
      rw [connection_setConnection, huid, if_neg hne]
    have hclosed {recs : List ReceivedRecord} (h : ∀ r ∈ recs, r.data.isClosed = true) :
        (∀ r ∈ recs, r.data.isClosed = false → r.serial = c.serial) ∧
          ∀ w, requestsFrom w recs = [] := by
      refine ⟨fun r hr hfresh => ?_, fun w => requestsFrom_eq_nil fun r hr hfresh => ?_⟩ <;>
      · rw [h r hr] at hfresh
        cases hfresh
    by_cases hsock : c.sock = none
    · -- A closed connection is found closed again.
      have hneg := (Connection.recv_ret hrecv).mpr (by rw [if_pos hsock]; rfl)
      obtain ⟨⟨recvbuffer, rfl⟩, -⟩ := Connection.recv_keeps hrecv
      rw [if_pos hneg] at hstep
      obtain ⟨rfl, -⟩ := Prod.mk.inj (Option.some.inj hstep)
      obtain ⟨recs, hfiles, hall⟩ := hdelete recvbuffer
      obtain ⟨hserial, hnone⟩ := hclosed hall
      refine ⟨recs, hfiles, hserial, fun w => ?_⟩
      rw [hnone]
      simp only [batches, reading, hc, herror, hinput, hsock, if_true]
      rfl
    · have hempty := h.emptied hc hsock
      have hbatches : s.batches (.net thread uid report) =
          ((Connection.batchOf answers).toList.filter (· ≠ [])).map (c.serial, ·) := by
        simp only [batches, reading, hc, herror, hinput, if_neg hsock]
      rw [if_neg hsock] at hrecv
      obtain ⟨hbatch, recvbuffer, hspec⟩ | ⟨batch, hbatch, hspec⟩ :=
        Connection.recv_spec (c := c.toConnection) answers (by rw [hlfd]; simp) hempty
      · rw [hspec] at hrecv
        obtain ⟨rfl, rfl, rfl⟩ : _ = received ∧ [] = vRecvData ∧ -1 = ret := by simpa using hrecv
        obtain ⟨rfl, -⟩ := Prod.mk.inj (Option.some.inj hstep)
        obtain ⟨recs, hfiles, hall⟩ := hdelete recvbuffer
        obtain ⟨hserial, hnone⟩ := hclosed hall
        refine ⟨recs, hfiles, hserial, fun w => ?_⟩
        rw [hnone, hbatches, hbatch]
        rfl
      · rw [hspec] at hrecv
        obtain ⟨rfl, rfl, rfl⟩ : c.toConnection = received ∧ _ = vRecvData ∧ _ = ret := by
          simpa using hrecv
        have hpos : ¬(if batch = [] then (0 : ℤ) else 1) < 0 := by split <;> decide
        rw [if_neg hpos] at hstep
        simp only [hlfd] at hstep
        obtain ⟨rfl, -⟩ := Prod.mk.inj (Option.some.inj hstep)
        refine ⟨_, (Files.setConnection hc c huid (Kept.refl c) lfd).trans
          (Files.insertRecvQueue _ lfd _), ?_, fun w => ?_⟩
        · intro r hr _
          obtain ⟨data, -, rfl⟩ := List.mem_map.mp hr
          rfl
        · rw [hbatches, hbatch]
          by_cases hnone : batch = []
          · simp [hnone, requestsFrom, batchesFrom]
          · by_cases hw : c.serial = w <;> simp [hnone, hw, requestsFrom, batchesFrom]

/-- Records of a connection are filed at its adapter. -/
theorem filed_at (hc : s.connection thread uid = some c) (hlfd : c.lfd = some lfd)
    (hrecs : ∀ r ∈ recs, r.data.isClosed = false → r.serial = c.serial) :
    ∀ r ∈ recs, r.data.isClosed = false → ∃ thread uid c,
      s.connection thread uid = some c ∧ c.serial = r.serial ∧ c.lfd = some lfd :=
  fun r hr hfresh => ⟨thread, uid, c, hc, (hrecs r hr hfresh).symm, hlfd⟩

/-- Records that a connection is closed are no requests. -/
theorem filed_closed (hrecs : ∀ r ∈ recs, r.data.isClosed = true) :
    (∀ r ∈ recs, r.data.isClosed = false → ∃ thread uid c,
      s.connection thread uid = some c ∧ c.serial = r.serial ∧ c.lfd = some lfd) ∧
      ∀ w, requestsFrom w recs = [] := by
  have hnever (r : ReceivedRecord) (hr : r ∈ recs) : r.data.isClosed ≠ false := by
    rw [hrecs r hr]
    exact Bool.noConfusion
  exact ⟨fun r hr hfresh => absurd hfresh (hnever r hr), fun w =>
    requestsFrom_eq_nil fun r hr hfresh => absurd hfresh (hnever r hr)⟩

/-- `processNet` files the batch that it reads at the adapter of the connection, or a record that
the connection is closed. -/
theorem Filed.processNet (h : Filed s) (hinv : Inv n s past) {report : NetReport}
    (hstep : s.processNet scIovMax thread uid report = some (s', es)) :
    ∃ lfd recs, Files s s' lfd recs ∧
      (∀ r ∈ recs, r.data.isClosed = false → ∃ thread uid c,
        s.connection thread uid = some c ∧ c.serial = r.serial ∧ c.lfd = some lfd) ∧
      ∀ w, requestsFrom w recs = batchesFrom w (s.batches (.net thread uid report)) := by
  unfold NetServer.processNet at hstep
  split at hstep
  · cases hstep
  rename_i c hc
  have hstored := hinv.connections.stored hc
  obtain ⟨lfd, hlfd⟩ := Option.ne_none_iff_exists'.mp hstored.lfd_ne
  split at hstep
  · rename_i herror
    obtain ⟨recs, hfiles, hall⟩ := Files.delConnection hc c hstored.uid_eq rfl rfl hlfd
      (Files.refl s lfd) fun _ _ _ => rfl
    obtain ⟨hat, hnone⟩ := filed_closed hall
    rw [Option.some.inj hstep] at hfiles
    refine ⟨lfd, recs, hfiles, hat, fun w => ?_⟩
    rw [hnone]
    simp only [batches, reading, hc, herror]
    rfl
  rename_i herror
  rw [Bool.not_eq_true] at herror
  split at hstep
  · cases hstep
  · rename_i s₁ c₁ es₁ hinput
    obtain ⟨rfl, rfl⟩ := Prod.mk.inj (Option.some.inj hstep)
    obtain ⟨recs, hfiles, hserial, hrecs⟩ := h.processInput hinv hc hlfd herror hinput
    exact ⟨lfd, recs, hfiles, filed_at hc hlfd hserial, hrecs⟩
  · rename_i s₁ c₁ es₁ hinput
    obtain ⟨recs, hfiles, hserial, hrecs⟩ := h.processInput hinv hc hlfd herror hinput
    obtain ⟨hfalse, -⟩ | ⟨-, -, -, hinv₁, hc₁, -, -⟩ := processInput_inv hinv hc hinput
    · cases hfalse
    obtain ⟨rfl, -⟩ := Prod.mk.inj (Option.some.inj hstep)
    refine ⟨lfd, recs, ?_, filed_at hc hlfd hserial, hrecs⟩
    cases report.output with
    | none => exact hfiles
    | some answers =>
      rw [← List.append_nil recs]
      refine hfiles.trans (Files.setConnection hc₁ _ ?_ ?_ lfd)
      · exact (hinv₁.connections.stored hc₁).uid_eq
      · exact ⟨rfl, rfl, id, fun _ => rfl⟩

/-- `processPipe` files only records that a connection is closed. -/
theorem files_pipe (hinv : Inv n s past) {answer : WriteResult}
    (hstep : s.pipe thread answer = some (s', es)) :
    ∃ lfd recs, Files s s' lfd recs ∧ ∀ r ∈ recs, r.data.isClosed = true := by
  unfold NetServer.pipe at hstep
  split at hstep
  · cases hstep
  rename_i it deSendData hdata
  obtain ⟨c, hc, -⟩ : ∃ c, s.connection thread it.uid = some c ∧ c.serial = it.serial :=
    hinv.queues.commands (.inr (by rw [hdata]; exact List.mem_cons_self))
  have hstored := hinv.connections.stored hc
  obtain ⟨lfd, hlfd⟩ := Option.ne_none_iff_exists'.mp hstored.lfd_ne
  have hsame : (s.setThread thread { s.netThreads thread with deSendData }).connection =
      s.connection := connection_setThread s thread _ rfl
  have hpop : Files s (s.setThread thread { s.netThreads thread with deSendData }) lfd [] :=
    .setThread { s.netThreads thread with deSendData } rfl lfd
  have hc' : (s.setThread thread { s.netThreads thread with deSendData }).connection thread
      it.uid = some c := by rw [hsame, hc]
  refine ⟨lfd, ?_⟩
  cases hcmd : it.cmd with
  | close =>
    simp only [processCommand, hcmd, hc'] at hstep
    split at hstep
    · have hothers (thread' uid' : ℕ) (hne : ¬(thread' = thread ∧ uid' = it.uid)) :
          ((s.setThread thread { s.netThreads thread with deSendData }).setConnection thread
            { c with toSender := c.toSender.setClose.1 }).connection thread' uid' =
              s.connection thread' uid' := by
        rw [connection_setConnection, hstored.uid_eq, if_neg hne, hsame]
      obtain ⟨recs, hfiles, hall⟩ := Files.delConnection hc
        { c with toSender := c.toSender.setClose.1 } hstored.uid_eq rfl rfl hlfd (Files.refl _ lfd)
        hothers
      rw [Option.some.inj hstep] at hfiles
      exact ⟨recs, hfiles, hall⟩
    · obtain ⟨rfl, -⟩ := Prod.mk.inj (Option.some.inj hstep)
      refine ⟨[], hpop.trans (Files.setConnection hc' _ ?_ ?_ lfd), fun r hr =>
        absurd hr List.not_mem_nil⟩
      · exact hstored.uid_eq
      · exact ⟨rfl, rfl, id, fun _ => rfl⟩
  | send buffer ip port =>
    simp only [processCommand, hcmd, hc'] at hstep
    obtain ⟨rfl, -⟩ := Prod.mk.inj (Option.some.inj hstep)
    refine ⟨[], hpop.trans (Files.setConnection hc' _ ?_ ?_ lfd), fun r hr =>
      absurd hr List.not_mem_nil⟩
    · exact hstored.uid_eq
    · exact ⟨rfl, rfl, id, fun _ => rfl⟩

/-- The connection that `accept` makes has received nothing, and all the others are as they were. -/
theorem accept_connection {fd port : ℕ} {ip : Bytes}
    (hstep : s.accept n lfd fd ip port = some (s', es)) :
    s'.requests = s.requests ∧ s'.rbuffer = s.rbuffer ∧
      ∀ thread uid c', s'.connection thread uid = some c' → s.connection thread uid = some c' ∨
        c'.serial = s.accepts ∧ c'.lfd = some lfd ∧ c'.recvbuffer = [] := by
  unfold NetServer.accept at hstep
  split at hstep
  · cases hstep
  simp only [threadOfFd, addTcpConnection] at hstep
  cases hfree : (s.netThreads (fd % n)).free with
  | nil => simp [hfree] at hstep
  | cons uid free =>
    simp only [hfree, Option.map_some] at hstep
    obtain ⟨rfl, -⟩ := Prod.mk.inj (Option.some.inj hstep)
    refine ⟨rfl, rfl, fun thread' uid' c' hc' => ?_⟩
    have hset : ((s.setThread (fd % n) { s.netThreads (fd % n) with free }).setConnection (fd % n)
      ⟨⟨uid, some lfd, some fd, ip, port, []⟩, ⟨[], false⟩, s.accepts⟩).connection thread' uid' =
        some c' := hc'
    rw [connection_setConnection, connection_setThread] at hset
    · split at hset
      · obtain rfl := Option.some.inj hset
        exact .inr ⟨rfl, rfl, rfl⟩
      · exact .inl hset
    · rfl

/-- Accepting a connection files nothing, and the new connection has received nothing. -/
theorem Filed.accept (h : Filed s) (hinv : Inv n s past) {fd port : ℕ} {ip : Bytes}
    (hstep : s.accept n lfd fd ip port = some (s', es)) : Filed s' := by
  obtain ⟨hrequests, hrbuffer, hconnection⟩ := accept_connection hstep
  refine ⟨fun {thread uid c} hc hopen => ?_, fun {lfd' thread uid r c} hr hfresh hc hserial => ?_,
    fun hr => h.requests (by rwa [hrequests] at hr)⟩
  · obtain hold | ⟨-, -, hempty⟩ := hconnection thread uid c hc
    · exact h.emptied hold hopen
    · exact hempty
  · rw [hrbuffer] at hr
    obtain hold | ⟨hnew, -, -⟩ := hconnection thread uid c hc
    · exact h.adapter hr hfresh hold hserial
    · obtain ⟨d, hd, hd'⟩ := hinv.queues.received hr hfresh
      have hlt := (hinv.connections.stored hd).serial_lt
      omega

/-- A handler takes a request: it leaves the front of its queue and is taken for good. -/
theorem Filed.take (h : Filed s) (hinv : Inv n s past) {lfd' : ℕ}
    (hstep : s.take lfd' = some (s', es)) :
    Filed s' ∧ s'.connection = s.connection ∧ s'.accepts = s.accepts ∧
      (s'.requests = s.requests ∨ ∃ recv ∈ s.rbuffer lfd', recv.data.isClosed = false ∧
        s'.requests = s.requests ++ [recv]) ∧
      ∀ lfd w, s.At lfd w → held s' lfd w = held s lfd w := by
  unfold NetServer.take at hstep
  split at hstep
  · cases hstep
  rename_i recv rest hrbuffer
  obtain ⟨rfl, -⟩ := Prod.mk.inj (Option.some.inj hstep)
  have hrest (lfd : ℕ) : ∀ r ∈ Function.update s.rbuffer lfd' rest lfd, r ∈ s.rbuffer lfd := by
    intro r hr
    rw [Function.update_apply] at hr
    split at hr
    · rename_i heq
      rw [heq, hrbuffer]
      exact List.mem_cons_of_mem recv hr
    · exact hr
  have hmem : recv ∈ s.rbuffer lfd' := by
    rw [hrbuffer]
    exact List.mem_cons_self
  split
  · rename_i hclosed
    refine ⟨⟨h.emptied, fun {lfd _ _ _ _} hr => h.adapter (hrest lfd _ hr), h.requests⟩, rfl,
      rfl, .inl rfl, fun lfd w _ => ?_⟩
    rw [held, held]
    by_cases hlfd : lfd = lfd'
    · subst hlfd
      simp [hrbuffer, requestsFrom, hclosed]
    · simp [hlfd]
  · rename_i hopen
    rw [Bool.not_eq_true] at hopen
    refine ⟨⟨h.emptied, fun {lfd _ _ _ _} hr => h.adapter (hrest lfd _ hr), fun hr => ?_⟩, rfl,
      rfl, .inr ⟨recv, hmem, hopen, rfl⟩, fun lfd w hat => ?_⟩
    · obtain hr | hr := List.mem_append.mp hr
      · exact h.requests hr
      · rwa [List.mem_singleton.mp hr]
    · by_cases hlfd : lfd = lfd'
      · -- The record is between the requests and the other records before and after.
        subst hlfd
        exact held_of_move (by simp [hrbuffer])
      · have hother : requestsFrom w [recv] = [] := by
          refine requestsFrom_eq_nil fun r hr hfresh heq => ?_
          rw [List.mem_singleton.mp hr] at heq
          obtain ⟨c, hc, hserial⟩ := hinv.queues.received hmem hopen
          have hfirst := hat _ _ c hc (hserial.trans heq)
          rw [h.adapter hmem hopen hc hserial] at hfirst
          exact hlfd (Option.some.inj hfirst).symm
        show requestsFrom w ((s.requests ++ [recv]) ++ Function.update s.rbuffer lfd' rest lfd) =
          requestsFrom w (s.requests ++ s.rbuffer lfd)
        rw [Function.update_of_ne hlfd, requestsFrom_append, requestsFrom_append, hother,
          List.append_nil, requestsFrom_append]

/-- **What a step does to the requests**: those that it reads from a connection are behind the
others. -/
theorem Filed.step (h : Filed s) (hinv : Inv n s past)
    (hstep : s.step n scIovMax a = some (s', es)) :
    Gathers s s' a := by
  have hfiled {lfd : ℕ} {recs : List ReceivedRecord} (hnone : accepted a = 0)
      (hfiles : Files s s' lfd recs)
      (hrecs : ∀ r ∈ recs, r.data.isClosed = false → ∃ thread uid c,
        s.connection thread uid = some c ∧ c.serial = r.serial ∧ c.lfd = some lfd)
      (hnew : ∀ w, requestsFrom w recs = batchesFrom w (s.batches a)) : Gathers s s' a := by
    obtain ⟨hkeep, hheld⟩ := h.files hinv hfiles hrecs
    refine ⟨hkeep, ?_, fun hc' => .inl (hfiles.connection hc'), .inl hfiles.requests,
      fun {lfd w} hat => ?_⟩
    · rw [hnone]
      exact hfiles.accepts
    · rw [← hnew]
      exact hheld lfd w hat
  cases a with
  | accept lfd fd ip port =>
    obtain ⟨hrequests, hrbuffer, hconnection⟩ := accept_connection hstep
    obtain ⟨-, uid, free, -, -, haccepts, -⟩ := accept_eq_some hstep
    refine ⟨h.accept hinv hstep, haccepts, fun {thread uid c'} hc' => ?_, .inl hrequests,
      fun {lfd' w} _ => ?_⟩
    · obtain hold | ⟨hserial, hlfd, -⟩ := hconnection thread uid c' hc'
      · exact .inl ⟨c', hold, Kept.refl c'⟩
      · exact .inr ⟨hserial, lfd, fd, ip, port, rfl, hlfd⟩
    · rw [NetServer.held, NetServer.held, hrequests, hrbuffer]
      exact (List.append_nil _).symm
  | net thread uid report =>
    obtain ⟨lfd, recs, hfiles, hrecs, hnew⟩ := h.processNet hinv hstep
    exact hfiled rfl hfiles hrecs hnew
  | swap thread =>
    simp only [NetServer.step, swap] at hstep
    split at hstep
    · obtain ⟨rfl, -⟩ := Prod.mk.inj (Option.some.inj hstep)
      refine hfiled rfl (Files.setThread _ ?_ 0) (fun _ hr => absurd hr List.not_mem_nil)
        fun _ => rfl
      rfl
    · cases hstep
  | pipe thread answer =>
    obtain ⟨lfd, recs, hfiles, hall⟩ := files_pipe hinv hstep
    obtain ⟨hrecs, hnone⟩ := filed_closed hall
    exact hfiled rfl hfiles hrecs hnone
  | take lfd =>
    obtain ⟨hkeep, hconnection, haccepts, hrequests, hheld⟩ := h.take hinv hstep
    refine ⟨hkeep, haccepts, fun {thread uid c'} hc' => ?_, ?_, fun {lfd w} hat => ?_⟩
    · rw [hconnection] at hc'
      exact .inl ⟨c', hc', Kept.refl c'⟩
    · obtain hsame | ⟨recv, hmem, hopen, hmore⟩ := hrequests
      · exact .inl hsame
      · exact .inr ⟨lfd, recv, rfl, hmem, hopen, hmore⟩
    · rw [hheld lfd w hat]
      exact (List.append_nil _).symm
  | respond request buffer | close request =>
    simp only [NetServer.step, NetServer.respond, NetServer.close] at hstep
    split at hstep
    · cases hstep
    obtain ⟨rfl, -⟩ := Prod.mk.inj (Option.some.inj hstep)
    refine hfiled rfl (Files.setThread _ ?_ 0) (fun _ hr => absurd hr List.not_mem_nil) fun _ => rfl
    rfl

/-- Nothing was read from a connection that has not been accepted. -/
theorem held_of_fresh (hinv : Inv n s past) (hw : s.accepts ≤ w) (lfd : ℕ) :
    held s lfd w = [] := by
  refine requestsFrom_eq_nil fun r hr hfresh heq => ?_
  obtain ⟨c, hc, hserial⟩ : Knows n s r := by
    obtain hr | hr := List.mem_append.mp hr
    · exact hinv.queues.requests hr
    · exact hinv.queues.received hr hfresh
  have hlt := (hinv.connections.stored hc).serial_lt
  omega

/-- What a step reads belongs to a connection that was accepted. -/
theorem batches_lt (hinv : Inv n s past) : ∀ b ∈ s.batches a, b.1 < s.accepts := by
  intro b hb
  unfold batches at hb
  split at hb
  · exact absurd hb List.not_mem_nil
  rename_i c answers hreading
  obtain ⟨batch, -, rfl⟩ := List.mem_map.mp hb
  cases a with
  | net thread uid report =>
    simp only [reading] at hreading
    split at hreading
    · rename_i c' answers' hc _ _
      split at hreading
      · cases hreading
      · obtain ⟨rfl, -⟩ := Prod.mk.inj (Option.some.inj hreading)
        exact (hinv.connections.stored hc).serial_lt
    · cases hreading
  | _ => cases hreading

/-- A connection has the adapter that it has, and no other one has its number. -/
theorem at_of_connection (hinv : Inv n s past) (hc : s.connection thread uid = some c)
    (hlfd : c.lfd = some lfd) : s.At lfd c.serial := by
  intro thread' uid' d hd hserial
  obtain ⟨rfl, rfl⟩ := hinv.connections.serial_inj hd hc hserial
  rw [Option.some.inj (hd.symm.trans hc), hlfd]

end Steps

/-- What is known of the requests in a run. -/
structure Gathered (n : ℕ) (s : NetServer) (bs : List (ℕ × Bytes)) : Prop where
  /-- What is known of the server in every run holds. -/
  inv : ∃ past, Inv n s past
  /-- The records are filed under their connections and adapters. -/
  filed : Filed s
  /-- Only connections that were accepted were read. -/
  lt : ∀ b ∈ bs, b.1 < s.accepts
  /-- What was read is held. -/
  held {thread uid lfd : ℕ} {c : NetConnection} : s.connection thread uid = some c →
    c.lfd = some lfd → held s lfd c.serial = batchesFrom c.serial bs

section Runs

variable {n scIovMax : ℕ} {s s' : NetServer} {bs new : List (ℕ × Bytes)} {as : List NetAction}
  {a : NetAction} {thread uid lfd : ℕ} {c : NetConnection}

/-- Of a new server nothing was read, and no request waits. -/
theorem gathered_start : Gathered n start [] where
  inv := ⟨[], inv_start n⟩
  filed := filed_start
  lt _ hb := absurd hb List.not_mem_nil
  held h := nomatch h

/-- **One step** keeps what is known of the requests. -/
theorem Gathered.step (h : Gathered n s bs)
    (hstep : s.readingStep n scIovMax a = some (s', new)) : Gathered n s' (bs ++ new) := by
  obtain ⟨⟨t, es⟩, hplain, heq⟩ := Option.map_eq_some_iff.mp hstep
  obtain ⟨rfl, rfl⟩ := Prod.mk.inj heq
  obtain ⟨past, hinv⟩ := h.inv
  have hgathers := h.filed.step hinv hplain
  refine ⟨⟨_, (step_inv hinv hplain).2⟩, hgathers.filed, fun b hb => ?_, fun {thread uid lfd c'} hc'
    hlfd => ?_⟩
  · have hle : s.accepts ≤ t.accepts := by
      rw [hgathers.accepts]
      exact Nat.le_add_right _ _
    obtain hb | hb := List.mem_append.mp hb
    · exact (h.lt b hb).trans_le hle
    · exact (batches_lt hinv b hb).trans_le hle
  · obtain ⟨c, hc, hkept⟩ | ⟨hserial, lfd', fd, ip, port, rfl, -⟩ := hgathers.connection hc'
    · rw [hkept.lfd] at hlfd
      rw [hkept.serial, hgathers.held (at_of_connection hinv hc hlfd), h.held hc hlfd,
        batchesFrom_append]
    · -- Nothing was read from a new connection.
      have hat : s.At lfd s.accepts := by
        intro thread uid c hc hold
        have hlt := (hinv.connections.stored hc).serial_lt
        omega
      have hnone : batchesFrom s.accepts bs = [] := by
        have hne : ∀ b ∈ bs, b.1 ≠ s.accepts := fun b hb => (h.lt b hb).ne
        simp only [batchesFrom, List.map_eq_nil_iff, List.filter_eq_nil_iff, decide_eq_true_eq]
        exact hne
      rw [hserial, hgathers.held hat, held_of_fresh hinv le_rfl, batchesFrom_append, hnone]

/-- **Requests are taken in order**, in every run of any number of network threads and handlers: the
requests of a connection that handlers have taken, followed by those that wait in the queue of its
adapter, are the batches that were read from it, in this order. No other queue holds one. -/
theorem requests_in_order
    (hexec : Scripts.exec (readingStep n scIovMax) start as = some (s, bs))
    (hc : s.connection thread uid = some c) (hlfd : c.lfd = some lfd) :
    requestsFrom c.serial s.requests ++ requestsFrom c.serial (s.rbuffer lfd) =
        batchesFrom c.serial bs ∧
      ∀ lfd' ≠ lfd, requestsFrom c.serial (s.rbuffer lfd') = [] := by
  have hgathered : Gathered n s bs :=
    Scripts.exec_keeps (fun _ _ _ _ _ h hstep => h.step hstep) gathered_start hexec
  refine ⟨?_, fun lfd' hne => requestsFrom_eq_nil fun r hr hfresh heq => ?_⟩
  · rw [← requestsFrom_append]
    exact hgathered.held hc hlfd
  · rw [hgathered.filed.adapter hr hfresh hc heq.symm] at hlfd
    exact hne (Option.some.inj hlfd)

/-- Two connections are read in turns, and a handler takes two of the requests. -/
private def readInTurns : List NetAction :=
  [.accept 3 5 [49] 80, .accept 3 6 [49] 81, .net 1 1 ⟨false, some [.data [7]], none⟩,
    .net 0 1 ⟨false, some [.data [8]], none⟩, .net 1 1 ⟨false, some [.data [9], .again], none⟩,
    .take 3, .take 3]

/-- Of the two requests of the first connection one was taken. -/
theorem requests_in_order_sample : ∃ s bs c,
    Scripts.exec (readingStep 2 1024) start readInTurns = some (s, bs) ∧
      s.connection 1 1 = some c ∧ c.lfd = some 3 ∧ c.serial = 0 ∧
      requestsFrom 0 s.requests = [[7]] ∧ requestsFrom 0 (s.rbuffer 3) = [[9]] ∧
      requestsFrom c.serial s.requests ++ requestsFrom c.serial (s.rbuffer 3) =
        batchesFrom c.serial bs := by
  have hsome : ((Scripts.exec (readingStep 2 1024) start readInTurns).bind fun r =>
      (r.1.connection 1 1).map fun c => (c.lfd, c.serial, requestsFrom 0 r.1.requests,
        requestsFrom 0 (r.1.rbuffer 3))) = some (some 3, 0, [[7]], [[9]]) := by decide +kernel
  obtain ⟨⟨s, bs⟩, hexec, hmap⟩ := Option.bind_eq_some_iff.mp hsome
  obtain ⟨c, hc, hlists⟩ := Option.map_eq_some_iff.mp hmap
  simp only [Prod.mk.injEq] at hlists
  obtain ⟨hlfd, hserial, htaken, hwaiting⟩ := hlists
  exact ⟨s, bs, c, hexec, hc, hlfd, hserial, htaken, hwaiting, (requests_in_order hexec hc hlfd).1⟩

end Runs

end NetServer

end Tars
