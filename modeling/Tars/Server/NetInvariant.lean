import Tars.Server.NetThread

/-!
# What holds of the server in all runs

A connection stays in `_uid_connection` of its thread for ever, and no identifier is given out
twice. So the identifiers in records, requests and commands still lead to the connection that they
were made for.
-/

namespace Tars

/-- `recv` only changes the receive buffer, and its records are those of the connection. -/
theorem Connection.recv_keeps {c c' : Connection} {answers : List ReadResult}
    {vRecvData : List TagRecvData} {ret : ℤ} (h : c.recv answers = some (c', vRecvData, ret)) :
    (∃ recvbuffer, c' = { c with recvbuffer }) ∧
      ∀ r ∈ vRecvData, r.uid = c.uid ∧ r.fd = c.sock ∧ r.isClosed = false := by
  unfold Connection.recv at h
  split at h
  · cases h
  · cases h
    exact ⟨⟨_, rfl⟩, fun _ hr => absurd hr List.not_mem_nil⟩
  · split at h
    · cases h
      refine ⟨⟨_, rfl⟩, ?_⟩
      intro r hr
      rw [List.mem_singleton.mp hr]
      exact ⟨rfl, rfl, rfl⟩
    · cases h
      exact ⟨⟨_, rfl⟩, fun _ hr => absurd hr List.not_mem_nil⟩

/-- Sending with nothing in `_sendbuffer` puts nothing there: what the kernel does not take is
dropped. -/
theorem Sender.send_sendbuffer {c : Sender} (h : c.sendbuffer = []) (buffer : Bytes)
    (answer : WriteResult) : (c.send buffer answer).1.sendbuffer = [] := by
  have hfinish : (finishSend c).1 = c := by
    unfold finishSend
    rw [h, List.flatten_nil, List.length_nil, if_neg (by decide)]
    split <;> rfl
  cases hbytes : (tcpSend buffer answer).bytes with
  | none =>
    simp only [send, hbytes]
    exact h
  | some bytes =>
    simp only [send, hbytes]
    rw [hfinish, h]

namespace NetServer

section Traces

variable {past : List NetEvent} {serial : ℕ}

@[simp] theorem closings_append (es : List NetEvent) :
    closings serial (past ++ es) = closings serial past ++ closings serial es :=
  List.filterMap_append

@[simp] theorem closings_accepted (serial' thread uid fd : ℕ) :
    closings serial [.accepted serial' thread uid fd] = [] := rfl

@[simp] theorem closings_wrote (serial' fd : ℕ) (origin : Option ℕ) (bytes : Bytes) :
    closings serial [.wrote serial' fd origin bytes] = [] := rfl

theorem closings_closed (serial' : ℕ) (fd : Option ℕ) :
    closings serial [.closed serial' fd] = if serial' = serial then [fd] else [] := by
  rw [closings, List.filterMap_cons, List.filterMap_nil]
  split <;> simp_all

@[simp] theorem owner_append_singleton (e : NetEvent) :
    owner (past ++ [e]) = ownerStep (owner past) e := by
  rw [owner, List.foldl_append]
  rfl

end Traces

section Accessors

variable {s : NetServer} {thread : ℕ} {c : NetConnection}

theorem netThreads_setThread (t : NetThread) (thread' : ℕ) :
    (s.setThread thread t).netThreads thread' =
      if thread' = thread then t else s.netThreads thread' :=
  Function.update_apply s.netThreads thread t thread'

/-- Changes of a thread that leave its connections are no changes of the connections of the server.
-/
theorem connection_setThread (s : NetServer) (thread : ℕ) (t : NetThread)
    (h : t.connections = (s.netThreads thread).connections) :
    (s.setThread thread t).connection = s.connection := by
  funext thread' uid
  rw [connection, netThreads_setThread]
  split
  · rename_i heq
    rw [h, heq, connection]
  · rfl

theorem connection_setConnection (thread' uid : ℕ) :
    (s.setConnection thread c).connection thread' uid =
      if thread' = thread ∧ uid = c.uid then some c else s.connection thread' uid := by
  rw [connection, setConnection, netThreads_setThread]
  by_cases hthread : thread' = thread
  · subst hthread
    have hupdate := Function.update_apply (s.netThreads thread').connections c.uid (some c) uid
    simpa [connection] using hupdate
  · rw [if_neg hthread, if_neg fun h => hthread h.1, connection]

theorem free_setConnection (thread' : ℕ) :
    ((s.setConnection thread c).netThreads thread').free = (s.netThreads thread').free := by
  rw [setConnection, netThreads_setThread]
  split
  · rename_i heq
    rw [heq]
  · rfl

theorem queues_setConnection (s : NetServer) (thread : ℕ) (c : NetConnection) (thread' : ℕ) :
    ((s.setConnection thread c).netThreads thread').sbuffer = (s.netThreads thread').sbuffer ∧
      ((s.setConnection thread c).netThreads thread').deSendData =
        (s.netThreads thread').deSendData := by
  rw [setConnection, netThreads_setThread]
  split
  · rename_i heq
    rw [heq]
    exact ⟨rfl, rfl⟩
  · exact ⟨rfl, rfl⟩

end Accessors

/-! ### Connections -/

/-- What is known of a connection that is stored in a thread under an identifier. -/
structure Stored (n : ℕ) (s : NetServer) (past : List NetEvent) (thread uid : ℕ)
    (c : NetConnection) : Prop where
  /-- It knows the identifier under which it is stored. -/
  uid_eq : c.uid = uid
  /-- It was accepted on a listening socket. -/
  lfd_ne : c.lfd ≠ none
  /-- Nothing waits in its `_sendbuffer`. -/
  sendbuffer_eq : c.sendbuffer = []
  /-- It was accepted before, so its number is below the number of accepts. -/
  serial_lt : c.serial < s.accepts
  /-- Either it is open and has its descriptor, or it was closed with its descriptor first. -/
  history : ∃ fd, .accepted c.serial thread uid fd ∈ past ∧ fd % n = thread ∧
    (c.sock = some fd ∧ fd ∈ s.opened ∧ owner past fd = some c.serial ∧
        closings c.serial past = [] ∨
      c.sock = none ∧ ∃ k, closings c.serial past = some fd :: List.replicate k none)

/-- What is known of all connections of all threads. Identifiers are given out in order and never
come back, and every connection that was ever accepted is still stored. -/
structure Connections (n : ℕ) (s : NetServer) (past : List NetEvent) : Prop where
  /-- The identifiers in `_free` are those that were not given out yet. -/
  pool (thread : ℕ) : ∃ k ≤ total, (s.netThreads thread).free = List.range' (1 + k) (total - k) ∧
    ∀ uid, s.connection thread uid ≠ none ↔ 1 ≤ uid ∧ uid ≤ k
  /-- Every connection that is stored has the history of an accepted one. -/
  stored {thread uid c} : s.connection thread uid = some c → Stored n s past thread uid c
  /-- No connection is stored twice. -/
  serial_inj {thread uid c thread' uid' c'} : s.connection thread uid = some c →
    s.connection thread' uid' = some c' → c.serial = c'.serial → thread = thread' ∧ uid = uid'
  /-- What was accepted is stored. -/
  accepted {serial thread uid fd} : .accepted serial thread uid fd ∈ past →
    ∃ c, s.connection thread uid = some c ∧ c.serial = serial
  /-- What was closed is stored. -/
  closed {serial} : closings serial past ≠ [] →
    ∃ thread uid c, s.connection thread uid = some c ∧ c.serial = serial

/-- A new server has no connections, and all identifiers are free. -/
theorem connections_start (n : ℕ) : Connections n start [] where
  pool _ := ⟨0, Nat.zero_le _, rfl, fun uid => ⟨fun h => absurd rfl h, fun h => by omega⟩⟩
  stored h := nomatch h
  serial_inj h := nomatch h
  accepted h := nomatch h
  closed h := absurd rfl h

section Connections

variable {n : ℕ} {s s' : NetServer} {past : List NetEvent} {thread uid : ℕ}
  {c c' : NetConnection}

/-- What is known of a connection is not affected by others. -/
theorem Stored.mono {past' : List NetEvent} (h : Stored n s past thread uid c)
    (haccepts : s.accepts ≤ s'.accepts) (hpast : ∀ e ∈ past, e ∈ past')
    (hclosings : closings c.serial past' = closings c.serial past)
    (hopen : ∀ fd, c.sock = some fd → fd ∈ s.opened → owner past fd = some c.serial →
      fd ∈ s'.opened ∧ owner past' fd = some c.serial) : Stored n s' past' thread uid c := by
  obtain ⟨huid, hlfd, hempty, hlt, fd, he, hmod, hhistory⟩ := h
  refine ⟨huid, hlfd, hempty, by omega, fd, hpast _ he, hmod, ?_⟩
  rw [hclosings]
  obtain ⟨hsock, hmem, howner, hnever⟩ | hclosed := hhistory
  · obtain ⟨hmem', howner'⟩ := hopen fd hsock hmem howner
    exact .inl ⟨hsock, hmem', howner', hnever⟩
  · exact .inr hclosed

/-- A step that changes neither the connections nor the identifiers keeps what is known of them. -/
theorem Connections.congr (h : Connections n s past) (hconnection : s'.connection = s.connection)
    (hfree : ∀ thread, (s'.netThreads thread).free = (s.netThreads thread).free)
    (haccepts : s'.accepts = s.accepts) (hopened : s'.opened = s.opened) :
    Connections n s' past where
  pool thread := by
    rw [hfree, hconnection]
    exact h.pool thread
  stored {thread uid c} hc := by
    rw [hconnection] at hc
    obtain ⟨huid, hlfd, hempty, hlt, hhistory⟩ := h.stored hc
    exact ⟨huid, hlfd, hempty, by rwa [haccepts], by rwa [hopened]⟩
  serial_inj hc hc' := by
    rw [hconnection] at hc hc'
    exact h.serial_inj hc hc'
  accepted he := by
    rw [hconnection]
    exact h.accepted he
  closed he := by
    rw [hconnection]
    exact h.closed he

/-- Which connections there are after one has changed: the changed one at its place, and the others
as they were. -/
theorem Connections.cases_setConnection (h : Connections n s past)
    (hc : s.connection thread uid = some c) (huid : c'.uid = c.uid) {thread' uid' : ℕ}
    {d : NetConnection} (hd : (s.setConnection thread c').connection thread' uid' = some d) :
    thread' = thread ∧ uid' = uid ∧ d = c' ∨
      ¬(thread' = thread ∧ uid' = uid) ∧ s.connection thread' uid' = some d := by
  have hstored := (h.stored hc).uid_eq
  rw [connection_setConnection, huid, hstored] at hd
  split at hd
  · rename_i heq
    exact .inl ⟨heq.1, heq.2, (Option.some.inj hd).symm⟩
  · rename_i hne
    exact .inr ⟨hne, hd⟩

/-- **Changing a connection** without its identity: what has to be shown is what is known of
it and of the others. -/
theorem Connections.set (h : Connections n s past) (c' : NetConnection)
    (hc : s.connection thread uid = some c) (huid : c'.uid = c.uid)
    (hserial : c'.serial = c.serial) {es : List NetEvent}
    (hconnection : s'.connection = (s.setConnection thread c').connection)
    (hfree : ∀ thread, (s'.netThreads thread).free = (s.netThreads thread).free)
    (hself : Stored n s' (past ++ es) thread uid c')
    (hothers : ∀ thread' uid' d, ¬(thread' = thread ∧ uid' = uid) →
      s.connection thread' uid' = some d → Stored n s' (past ++ es) thread' uid' d)
    (haccepted : ∀ serial thread uid fd, NetEvent.accepted serial thread uid fd ∉ es)
    (hclosed : ∀ serial, closings serial es ≠ [] → serial = c.serial) :
    Connections n s' (past ++ es) := by
  have hsame : s'.connection thread uid = some c' := by
    rw [hconnection, connection_setConnection, huid, (h.stored hc).uid_eq, if_pos ⟨rfl, rfl⟩]
  have hkeep {thread' uid' : ℕ} {d : NetConnection} (hd : s.connection thread' uid' = some d) :
      ∃ d', s'.connection thread' uid' = some d' ∧ d'.serial = d.serial := by
    by_cases heq : thread' = thread ∧ uid' = uid
    · obtain ⟨rfl, rfl⟩ := heq
      rw [hc] at hd
      exact ⟨c', hsame, by rw [hserial, Option.some.inj hd]⟩
    · refine ⟨d, ?_, rfl⟩
      rw [hconnection, connection_setConnection, huid, (h.stored hc).uid_eq, if_neg heq, hd]
  have hback {thread' uid' : ℕ} {d : NetConnection} (hd : s'.connection thread' uid' = some d) :
      ∃ d', s.connection thread' uid' = some d' ∧ d'.serial = d.serial := by
    rw [hconnection] at hd
    obtain ⟨rfl, rfl, rfl⟩ | ⟨-, hold⟩ := h.cases_setConnection hc huid hd
    · exact ⟨c, hc, hserial.symm⟩
    · exact ⟨d, hold, rfl⟩
  refine ⟨?_, ?_, ?_, ?_, ?_⟩
  · intro thread'
    obtain ⟨k, hk, hpool, hall⟩ := h.pool thread'
    refine ⟨k, hk, by rw [hfree, hpool], fun uid' => ?_⟩
    rw [← hall uid', Option.ne_none_iff_exists', Option.ne_none_iff_exists']
    constructor
    · rintro ⟨d, hd⟩
      obtain ⟨d', hd', -⟩ := hback hd
      exact ⟨d', hd'⟩
    · rintro ⟨d, hd⟩
      obtain ⟨d', hd', -⟩ := hkeep hd
      exact ⟨d', hd'⟩
  · intro thread' uid' d hd
    rw [hconnection] at hd
    obtain ⟨rfl, rfl, rfl⟩ | ⟨hne, hold⟩ := h.cases_setConnection hc huid hd
    · exact hself
    · exact hothers thread' uid' d hne hold
  · intro thread₁ uid₁ d₁ thread₂ uid₂ d₂ hd₁ hd₂ heq
    obtain ⟨e₁, he₁, hs₁⟩ := hback hd₁
    obtain ⟨e₂, he₂, hs₂⟩ := hback hd₂
    exact h.serial_inj he₁ he₂ (by rw [hs₁, hs₂, heq])
  · intro serial thread' uid' fd he
    rcases List.mem_append.mp he with he | he
    · obtain ⟨d, hd, hd'⟩ := h.accepted he
      obtain ⟨d', hd'', hs⟩ := hkeep hd
      exact ⟨d', hd'', hs.trans hd'⟩
    · exact absurd he (haccepted _ _ _ _)
  · intro serial he
    rw [closings_append] at he
    by_cases hold : closings serial past = []
    · rw [hold, List.nil_append] at he
      exact ⟨thread, uid, c', hsame, hserial.trans (hclosed serial he).symm⟩
    · obtain ⟨thread', uid', d, hd, hd'⟩ := h.closed hold
      obtain ⟨d', hd'', hs⟩ := hkeep hd
      exact ⟨thread', uid', d', hd'', hs.trans hd'⟩

/-- A connection may change in everything but its identity and its socket, and the connections stay
in order. -/
theorem Connections.touch (h : Connections n s past) (hc : s.connection thread uid = some c)
    (huid : c'.uid = c.uid) (hlfd : c'.lfd = c.lfd) (hsock : c'.sock = c.sock)
    (hserial : c'.serial = c.serial) (hempty : c'.sendbuffer = []) :
    Connections n (s.setConnection thread c') past := by
  have hself := h.stored hc
  rw [← List.append_nil past]
  refine h.set c' hc huid hserial rfl free_setConnection ?_ ?_
    (fun _ _ _ _ => List.not_mem_nil) fun _ hne => absurd rfl hne
  · rw [List.append_nil]
    refine ⟨huid.trans hself.uid_eq, by rw [hlfd]; exact hself.lfd_ne, hempty,
      by rw [hserial]; exact hself.serial_lt, ?_⟩
    rw [hsock, hserial]
    exact hself.history
  · intro thread' uid' d _ hd
    rw [List.append_nil]
    exact (h.stored hd).mono le_rfl (fun _ he => he) rfl fun _ _ hmem howner => ⟨hmem, howner⟩

/-- **Closing a socket** that is stored keeps what is known: the descriptor is closed once, and
further closings are without one. -/
theorem Connections.closeSocket (h : Connections n s past)
    (hc : s.connection thread uid = some c) :
    Connections n (s.closeSocket thread c) (past ++ [.closed c.serial c.sock]) := by
  have hself := h.stored hc
  refine h.set { c with sock := none } hc rfl rfl rfl free_setConnection ?_ ?_ ?_ ?_
  · obtain ⟨huid, hlfd, hempty, hlt, fd, he, hmod, hhistory⟩ := hself
    refine ⟨huid, hlfd, hempty, hlt, fd, List.mem_append_left _ he, hmod, .inr ⟨rfl, ?_⟩⟩
    rw [closings_append, closings_closed, if_pos rfl]
    obtain ⟨hsock, -, -, hnever⟩ | ⟨hsock, k, hclosed⟩ := hhistory
    · exact ⟨0, by rw [hnever, hsock]; rfl⟩
    · exact ⟨k + 1, by rw [hclosed, hsock, List.cons_append, ← List.replicate_succ']⟩
  · intro thread' uid' d hne hd
    have hserial : c.serial ≠ d.serial := fun heq => hne (h.serial_inj hd hc heq.symm)
    refine (h.stored hd).mono le_rfl (fun _ he => List.mem_append_left _ he) ?_ ?_
    · rw [closings_append, closings_closed, if_neg hserial, List.append_nil]
    · intro fd hsock hmem howner
      have hother : c.sock ≠ some fd := by
        intro hsame
        obtain ⟨fd', -, -, ⟨hsock', -, howner', -⟩ | ⟨hsock', -⟩⟩ := hself.history
        · rw [hsame] at hsock'
          obtain rfl := Option.some.inj hsock'
          rw [howner] at howner'
          exact hserial (Option.some.inj howner').symm
        · rw [hsame] at hsock'
          cases hsock'
      constructor
      · exact List.mem_filter.mpr ⟨hmem, decide_eq_true hother⟩
      · rw [owner_append_singleton]
        cases hclosed : c.sock with
        | none => exact howner
        | some fd' =>
          have hne' : fd ≠ fd' := fun heq => hother (by rw [hclosed, heq])
          exact (Function.update_of_ne hne' none (owner past)).trans howner
  · intro serial thread' uid' fd he
    rw [List.mem_singleton] at he
    cases he
  · intro serial hne
    rw [closings_closed] at hne
    by_contra hother
    exact hne (if_neg fun heq => hother heq.symm)

/-- What was written before is of no interest for the identifiers and the sockets. -/
theorem Connections.wrote (h : Connections n s past) (serial fd : ℕ) (origin : Option ℕ)
    (bytes : Bytes) : Connections n s (past ++ [.wrote serial fd origin bytes]) where
  pool := h.pool
  stored hc := by
    refine (h.stored hc).mono le_rfl (fun _ he => List.mem_append_left _ he) ?_ ?_
    · rw [closings_append, closings_wrote, List.append_nil]
    · intro fd' _ hmem howner
      exact ⟨hmem, by rw [owner_append_singleton]; exact howner⟩
  serial_inj := h.serial_inj
  accepted he := by
    rcases List.mem_append.mp he with he | he
    · exact h.accepted he
    · rw [List.mem_singleton] at he
      cases he
  closed he := by
    rw [closings_append, closings_wrote, List.append_nil] at he
    exact h.closed he

/-- What `accept` does: it takes the front of `_free`. -/
theorem accept_eq_some {lfd fd port : ℕ} {ip : Bytes} {es : List NetEvent}
    (hstep : s.accept n lfd fd ip port = some (s', es)) :
    fd ∉ s.opened ∧ ∃ uid free, (s.netThreads (fd % n)).free = uid :: free ∧
      es = [.accepted s.accepts (fd % n) uid fd] ∧ s'.accepts = s.accepts + 1 ∧
      s'.opened = fd :: s.opened ∧ s'.rbuffer = s.rbuffer ∧ s'.requests = s.requests ∧
      (∀ thread', (s'.netThreads thread').free =
        if thread' = fd % n then free else (s.netThreads thread').free) ∧
      (∀ thread', (s'.netThreads thread').sbuffer = (s.netThreads thread').sbuffer ∧
        (s'.netThreads thread').deSendData = (s.netThreads thread').deSendData) ∧
      ∃ c : NetConnection, c.uid = uid ∧ c.lfd = some lfd ∧ c.sock = some fd ∧ c.sendbuffer = [] ∧
        c.serial = s.accepts ∧ ∀ thread' uid', s'.connection thread' uid' =
          if thread' = fd % n ∧ uid' = uid then some c else s.connection thread' uid' := by
  unfold NetServer.accept at hstep
  split at hstep
  · cases hstep
  rename_i hfresh
  refine ⟨hfresh, ?_⟩
  simp only [threadOfFd, addTcpConnection] at hstep
  cases hfree : (s.netThreads (fd % n)).free with
  | nil => simp [hfree] at hstep
  | cons uid free =>
    simp only [hfree, Option.map_some] at hstep
    obtain ⟨rfl, rfl⟩ := Prod.mk.inj (Option.some.inj hstep)
    refine ⟨uid, free, rfl, rfl, rfl, rfl, rfl, rfl, ?_, ?_,
      ⟨⟨uid, some lfd, some fd, ip, port, []⟩, ⟨[], false⟩, s.accepts⟩, rfl, rfl, rfl, rfl, rfl, ?_⟩
    · intro thread'
      refine (free_setConnection thread').trans ?_
      rw [netThreads_setThread]
      split <;> rfl
    · intro thread'
      obtain ⟨hsbuffer, hdata⟩ := queues_setConnection
        (s.setThread (fd % n) { s.netThreads (fd % n) with free }) (fd % n)
        ⟨⟨uid, some lfd, some fd, ip, port, []⟩, ⟨[], false⟩, s.accepts⟩ thread'
      refine ⟨hsbuffer.trans ?_, hdata.trans ?_⟩ <;> rw [netThreads_setThread] <;>
        split <;> simp_all
    · intro thread' uid'
      refine (connection_setConnection thread' uid').trans ?_
      rw [connection_setThread s (fd % n) { s.netThreads (fd % n) with free } rfl]

/-- **Accepting a connection** takes the next identifier, and the connections so far stay as they
are. -/
theorem Connections.accept (h : Connections n s past) {lfd fd port : ℕ} {ip : Bytes}
    {es : List NetEvent} (hstep : s.accept n lfd fd ip port = some (s', es)) :
    Connections n s' (past ++ es) ∧
      ∀ thread uid d, s.connection thread uid = some d → s'.connection thread uid = some d := by
  obtain ⟨hfresh, uid, free, hfront, rfl, haccepts, hopened, -, -, hfree, -, c, huid, hlfd, hsock,
    hempty, hserial, hconnection⟩ := accept_eq_some hstep
  obtain ⟨k, hk, hpool, hall⟩ := h.pool (fd % n)
  rw [hfront] at hpool
  have hroom : total - k ≠ 0 := by
    intro hzero
    rw [hzero] at hpool
    cases hpool
  obtain ⟨m, hm⟩ := Nat.exists_eq_add_one_of_ne_zero hroom
  rw [hm, List.range'_succ] at hpool
  obtain ⟨rfl, rfl⟩ := List.cons.inj hpool
  have hnone : s.connection (fd % n) (1 + k) = none := by
    by_contra hsome
    have hle := ((hall (1 + k)).mp hsome).2
    omega
  have hkeep : ∀ thread uid d, s.connection thread uid = some d →
      s'.connection thread uid = some d := by
    intro thread uid d hd
    rw [hconnection, if_neg, hd]
    rintro ⟨rfl, rfl⟩
    rw [hnone] at hd
    cases hd
  have hback {thread uid : ℕ} {d : NetConnection} (hd : s'.connection thread uid = some d) :
      thread = fd % n ∧ uid = 1 + k ∧ d = c ∨ s.connection thread uid = some d := by
    rw [hconnection] at hd
    split at hd
    · rename_i heq
      exact .inl ⟨heq.1, heq.2, (Option.some.inj hd).symm⟩
    · exact .inr hd
  have hnew : s'.connection (fd % n) (1 + k) = some c := by
    rw [hconnection, if_pos ⟨rfl, rfl⟩]
  have hnever : closings s.accepts past = [] := by
    by_contra hclosed
    obtain ⟨thread, uid, d, hd, hd'⟩ := h.closed hclosed
    have hlt := (h.stored hd).serial_lt
    omega
  refine ⟨⟨?_, ?_, ?_, ?_, ?_⟩, hkeep⟩
  · intro thread
    rw [hfree]
    split
    · rename_i heq
      subst heq
      have hcount : total - (k + 1) = m := by omega
      refine ⟨k + 1, by omega, by rw [hcount, Nat.add_assoc], fun uid => ?_⟩
      rw [hconnection]
      split
      · rename_i heq
        simp only [ne_eq, reduceCtorEq, not_false_eq_true, true_iff]
        omega
      · rename_i hne
        rw [hall uid]
        constructor
        · omega
        · rintro ⟨hlo, hhi⟩
          have hother : uid ≠ 1 + k := fun heq => hne ⟨rfl, heq⟩
          omega
    · rename_i hne
      obtain ⟨k', hk', hpool', hall'⟩ := h.pool thread
      refine ⟨k', hk', hpool', fun uid => ?_⟩
      rw [hconnection, if_neg fun heq => hne heq.1]
      exact hall' uid
  · intro thread uid d hd
    obtain ⟨rfl, rfl, rfl⟩ | hold := hback hd
    · refine ⟨huid, by rw [hlfd]; exact Option.some_ne_none lfd, hempty, by omega, fd, ?_, rfl, ?_⟩
      · rw [hserial]
        exact List.mem_append_right _ (List.mem_singleton_self _)
      · refine .inl ⟨hsock, by rw [hopened]; exact List.mem_cons_self, ?_, ?_⟩
        · rw [owner_append_singleton, hserial]
          exact Function.update_self fd (some s.accepts) (owner past)
        · rw [closings_append, closings_accepted, hserial, hnever, List.append_nil]
    · refine (h.stored hold).mono (by omega) (fun _ he => List.mem_append_left _ he) ?_ ?_
      · rw [closings_append, closings_accepted, List.append_nil]
      · intro fd' _ hmem howner
        have hne : fd' ≠ fd := fun heq => hfresh (heq ▸ hmem)
        refine ⟨by rw [hopened]; exact List.mem_cons_of_mem fd hmem, ?_⟩
        rw [owner_append_singleton]
        exact (Function.update_of_ne hne (some s.accepts) (owner past)).trans howner
  · intro thread₁ uid₁ d₁ thread₂ uid₂ d₂ hd₁ hd₂ heq
    obtain ⟨rfl, rfl, rfl⟩ | hold₁ := hback hd₁ <;> obtain ⟨rfl, rfl, rfl⟩ | hold₂ := hback hd₂
    · exact ⟨rfl, rfl⟩
    · have hlt := (h.stored hold₂).serial_lt
      omega
    · have hlt := (h.stored hold₁).serial_lt
      omega
    · exact h.serial_inj hold₁ hold₂ heq
  · intro serial thread uid fd' he
    rcases List.mem_append.mp he with he | he
    · obtain ⟨d, hd, hd'⟩ := h.accepted he
      exact ⟨d, hkeep _ _ d hd, hd'⟩
    · rw [List.mem_singleton] at he
      cases he
      exact ⟨c, hnew, hserial⟩
  · intro serial he
    rw [closings_append, closings_accepted, List.append_nil] at he
    obtain ⟨thread, uid, d, hd, hd'⟩ := h.closed he
    exact ⟨thread, uid, d, hkeep _ _ d hd, hd'⟩

end Connections

/-! ### Records, requests and commands -/

/-- A request leads to the connection that it came from. -/
def Knows (n : ℕ) (s : NetServer) (r : ReceivedRecord) : Prop :=
  ∃ c, s.connection (threadOfFd n r.data.fd) r.data.uid = some c ∧ c.serial = r.serial

/-- What is known of everything that waits: requests and commands belong to the connection that they
name. -/
structure Queues (n : ℕ) (s : NetServer) : Prop where
  /-- Records in the receive queues. -/
  received {lfd r} : r ∈ s.rbuffer lfd → r.data.isClosed = false → s.Knows n r
  /-- Requests that were taken name the connection that they came from. -/
  requests {r} : r ∈ s.requests → s.Knows n r
  /-- Commands name the connection that their request came from. -/
  commands {thread it} :
    it ∈ (s.netThreads thread).sbuffer ∨ it ∈ (s.netThreads thread).deSendData →
    ∃ c, s.connection thread it.uid = some c ∧ c.serial = it.serial

/-- All connections are kept: each is found where it was, with its number. -/
def Keeps (s s' : NetServer) : Prop := ∀ thread uid c, s.connection thread uid = some c →
  ∃ c', s'.connection thread uid = some c' ∧ c'.serial = c.serial

/-- Everything that is known of the server in the course of a run, of its connections and of what
waits for them. -/
structure Inv (n : ℕ) (s : NetServer) (past : List NetEvent) : Prop where
  /-- The connections. -/
  connections : Connections n s past
  /-- What waits. -/
  queues : Queues n s

/-- What is known holds at the start, where nothing was accepted and nothing waits. -/
theorem inv_start (n : ℕ) : Inv n start [] where
  connections := connections_start n
  queues :=
    { received := fun h => absurd h List.not_mem_nil
      requests := fun h => absurd h List.not_mem_nil
      commands := fun h => by
        rcases h with h | h <;> exact absurd h List.not_mem_nil }

section Queues

variable {n : ℕ} {s s' : NetServer} {past es : List NetEvent} {thread uid : ℕ}
  {c c' : NetConnection}

/-- Requests still lead to their connections, since these are kept with their numbers. -/
theorem Knows.mono {r : ReceivedRecord} (h : Knows n s r) (hkeep : Keeps s s') : Knows n s' r := by
  obtain ⟨c, hc, hserial⟩ := h
  obtain ⟨c', hc', hserial'⟩ := hkeep _ _ c hc
  exact ⟨c', hc', hserial'.trans hserial⟩

/-- **What waits**: everything that is new has to lead to its connection. -/
theorem Queues.mono (h : Queues n s) (hkeep : Keeps s s')
    (hreceived : ∀ lfd, ∀ r ∈ s'.rbuffer lfd, r.data.isClosed = false →
      r ∈ s.rbuffer lfd ∨ Knows n s r)
    (hrequests : ∀ r ∈ s'.requests, r ∈ s.requests ∨ Knows n s r)
    (hcommands : ∀ thread it,
      it ∈ (s'.netThreads thread).sbuffer ∨ it ∈ (s'.netThreads thread).deSendData →
        (it ∈ (s.netThreads thread).sbuffer ∨ it ∈ (s.netThreads thread).deSendData) ∨
          ∃ c, s.connection thread it.uid = some c ∧ c.serial = it.serial) : Queues n s' where
  received {lfd r} hr hopen := by
    rcases hreceived lfd r hr hopen with hold | hknows
    · exact (h.received hold hopen).mono hkeep
    · exact hknows.mono hkeep
  requests {r} hr := by
    rcases hrequests r hr with hold | hknows
    · exact (h.requests hold).mono hkeep
    · exact hknows.mono hkeep
  commands {thread it} hit := by
    obtain ⟨c, hc, hserial⟩ : ∃ c, s.connection thread it.uid = some c ∧ c.serial = it.serial := by
      rcases hcommands thread it hit with hold | hknows
      · exact h.commands hold
      · exact hknows
    obtain ⟨c', hc', hserial'⟩ := hkeep _ _ c hc
    exact ⟨c', hc', hserial'.trans hserial⟩

/-- Nothing is lost where no connection changes, so such a step keeps every connection. -/
theorem Keeps.of_eq (h : s'.connection = s.connection) : Keeps s s' :=
  fun _ _ c hc => ⟨c, by rw [h]; exact hc, rfl⟩

/-- A connection that is stored again keeps its number, and the others are not touched. -/
theorem keeps_setConnection (hc : s.connection thread uid = some c) (huid : c'.uid = uid)
    (hserial : c'.serial = c.serial) : Keeps s (s.setConnection thread c') := by
  intro thread' uid' d hd
  by_cases heq : thread' = thread ∧ uid' = uid
  · obtain ⟨rfl, rfl⟩ := heq
    rw [hc] at hd
    obtain rfl := Option.some.inj hd
    exact ⟨c', by rw [connection_setConnection, huid, if_pos ⟨rfl, rfl⟩], hserial⟩
  · exact ⟨d, by rw [connection_setConnection, huid, if_neg heq, hd], rfl⟩

/-- The queues of the threads while a connection changes. -/
theorem Queues.setConnection (h : Queues n s) (c' : NetConnection)
    (hc : s.connection thread uid = some c) (huid : c'.uid = uid) (hserial : c'.serial = c.serial) :
    Queues n (s.setConnection thread c') := by
  refine h.mono (keeps_setConnection hc huid hserial) (fun _ _ hr _ => .inl hr)
    (fun _ hr => .inl hr) fun thread' it hit => .inl ?_
  obtain ⟨hsbuffer, hdata⟩ := queues_setConnection s thread c' thread'
  rwa [hsbuffer, hdata] at hit

/-- A connection may change in everything but its identity and its socket, and the invariant stays.
-/
theorem Inv.touch (h : Inv n s past) (c' : NetConnection)
    (hc : s.connection thread uid = some c) (huid : c'.uid = c.uid) (hlfd : c'.lfd = c.lfd)
    (hsock : c'.sock = c.sock) (hserial : c'.serial = c.serial) (hempty : c'.sendbuffer = []) :
    Inv n (s.setConnection thread c') past where
  connections := h.connections.touch hc huid hlfd hsock hserial hempty
  queues := h.queues.setConnection c' hc (huid.trans (h.connections.stored hc).uid_eq) hserial

/-- Writing to a socket keeps what is known of connections and queues. -/
theorem Inv.wrote (h : Inv n s past) (serial fd : ℕ) (origin : Option ℕ) (bytes : Bytes) :
    Inv n s (past ++ [.wrote serial fd origin bytes]) :=
  ⟨h.connections.wrote serial fd origin bytes, h.queues⟩

/-- Queueing records: the requests among them have to lead to their connections. -/
theorem Inv.insertRecvQueue (h : Inv n s past) (lfd : ℕ) {vRecvData : List ReceivedRecord}
    (hknows : ∀ r ∈ vRecvData, r.data.isClosed = false → Knows n s r) :
    Inv n (s.insertRecvQueue lfd vRecvData) past where
  connections := h.connections.congr rfl (fun _ => rfl) rfl rfl
  queues := by
    refine h.queues.mono (Keeps.of_eq rfl) ?_ (fun _ hr => .inl hr) fun _ _ hit => .inl hit
    intro lfd' r hr hopen
    simp only [NetServer.insertRecvQueue, Function.update_apply] at hr
    split at hr
    · rename_i heq
      rcases List.mem_append.mp hr with hr | hr
      · exact .inl (heq ▸ hr)
      · exact .inr (hknows r hr hopen)
    · exact .inl hr

/-- Closing a socket keeps what is known of connections and queues. -/
theorem Inv.closeSocket (h : Inv n s past) (hc : s.connection thread uid = some c) :
    Inv n (s.closeSocket thread c) (past ++ [.closed c.serial c.sock]) where
  connections := h.connections.closeSocket hc
  queues := by
    have hset := h.queues.setConnection { c with sock := none } hc
      (h.connections.stored hc).uid_eq rfl
    exact ⟨hset.received, hset.requests, hset.commands⟩

/-- **The record that a connection is closed** is queued, and its socket is closed. -/
theorem Inv.delConnection (h : Inv n s past) (hc : s.connection thread uid = some c) :
    (s.delConnection thread c).2 = [.closed c.serial c.sock] ∧
      Inv n (s.delConnection thread c).1 (past ++ (s.delConnection thread c).2) := by
  cases hlfd : c.lfd with
  | none => exact absurd hlfd (h.connections.stored hc).lfd_ne
  | some lfd =>
    simp only [NetServer.delConnection, hlfd, true_and]
    refine (h.insertRecvQueue lfd ?_).closeSocket hc
    intro r hr hopen
    rw [List.mem_singleton.mp hr] at hopen
    cases hopen

/-- Changing the queues of a thread keeps what is known, if the new commands lead to connections. -/
theorem Inv.setThread (h : Inv n s past) {t : NetThread}
    (hfree : t.free = (s.netThreads thread).free)
    (hconnections : t.connections = (s.netThreads thread).connections)
    (hcommands : ∀ it, it ∈ t.sbuffer ∨ it ∈ t.deSendData →
      (it ∈ (s.netThreads thread).sbuffer ∨ it ∈ (s.netThreads thread).deSendData) ∨
        ∃ c, s.connection thread it.uid = some c ∧ c.serial = it.serial) :
    Inv n (s.setThread thread t) past where
  connections := by
    refine h.connections.congr (connection_setThread s thread t hconnections) (fun thread' => ?_)
      rfl rfl
    rw [netThreads_setThread]
    split
    · rename_i heq
      rw [hfree, heq]
    · rfl
  queues := by
    refine h.queues.mono (Keeps.of_eq (connection_setThread s thread t hconnections))
      (fun _ _ hr _ => .inl hr) (fun _ hr => .inl hr) fun thread' it hit => ?_
    rw [netThreads_setThread] at hit
    split at hit
    · rename_i heq
      subst heq
      exact hcommands it hit
    · exact .inl hit

end Queues

end NetServer

end Tars
