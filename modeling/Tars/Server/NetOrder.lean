import Tars.Server.NetRuns

/-!
# The order of responses

A response travels through the queue of a network thread and is given to the kernel once. So what
a connection writes are fronts of its responses, one for each, in the order in which the handlers
have sent them, however the threads and handlers take turns.
-/

namespace Tars

namespace NetServer

/-! ### Notes -/

/-- What is noted in a run: besides the events also that a handler has sent a response, which no
event shows. -/
inductive NetNote where
  /-- A handler has sent a response to a request of this connection. -/
  | sent (serial : ℕ) (buffer : Bytes)
  /-- Something that can be observed anyway: an accept, a write or a close. -/
  | event (e : NetEvent)
  deriving DecidableEq

/-- The response that a handler sends in a step, with the number of the connection it is for. -/
def sending (s : NetServer) : NetAction → List NetNote
  | .respond request buffer =>
    match s.requests[request]? with
    | none => []
    | some recv => [.sent recv.serial buffer]
  | _ => []

/-- A step with notes: the response that was sent, then the events of the step. -/
def notedStep (n scIovMax : ℕ) (s : NetServer) (a : NetAction) :
    Option (NetServer × List NetNote) :=
  (s.step n scIovMax a).map fun r => (r.1, s.sending a ++ r.2.map .event)

/-- The events in the notes, which are all that can be observed from outside. -/
def eventsIn (notes : List NetNote) : List NetEvent :=
  notes.filterMap fun
    | .sent _ _ => none
    | .event e => some e

/-- The responses that were sent to a connection, in the order in which the handlers sent them. -/
def sentTo (w : ℕ) (notes : List NetNote) : List Bytes :=
  notes.filterMap fun
    | .sent serial buffer => if serial = w then some buffer else none
    | .event _ => none

/-- What a connection has written, by calls of the kernel. -/
def writtenBy (w : ℕ) (notes : List NetNote) : List Bytes :=
  notes.filterMap fun
    | .event (.wrote serial _ _ bytes) => if serial = w then some bytes else none
    | _ => none

/-- The responses for a connection among the commands, in the order of the commands. -/
def buffersFor (w : ℕ) (its : List TagSendData) : List Bytes :=
  its.filterMap fun it =>
    match it.cmd with
    | .close => none
    | .send buffer _ _ => if it.serial = w then some buffer else none

/-- The commands of a thread: first those it has taken from its queue, then those that still wait
there. -/
def queued (s : NetServer) (thread : ℕ) : List TagSendData :=
  (s.netThreads thread).deSendData ++ (s.netThreads thread).sbuffer

/-- The responses for a connection that wait in a thread. -/
def waiting (s : NetServer) (thread w : ℕ) : List Bytes := buffersFor w (s.queued thread)

section Notes

variable {w : ℕ} {notes notes' : List NetNote} {es : List NetEvent}

@[simp] theorem eventsIn_append : eventsIn (notes ++ notes') = eventsIn notes ++ eventsIn notes' :=
  List.filterMap_append

@[simp] theorem sentTo_append : sentTo w (notes ++ notes') = sentTo w notes ++ sentTo w notes' :=
  List.filterMap_append

@[simp] theorem writtenBy_append :
    writtenBy w (notes ++ notes') = writtenBy w notes ++ writtenBy w notes' :=
  List.filterMap_append

@[simp] theorem buffersFor_append {its its' : List TagSendData} :
    buffersFor w (its ++ its') = buffersFor w its ++ buffersFor w its' :=
  List.filterMap_append

@[simp] theorem eventsIn_events : eventsIn (es.map .event) = es := by
  simp [eventsIn, List.filterMap_map]

@[simp] theorem sentTo_events : sentTo w (es.map .event) = [] := by
  simp [sentTo, List.filterMap_map]

/-- What is sent cannot be observed before it is written. -/
@[simp] theorem eventsIn_sending (s : NetServer) (a : NetAction) : eventsIn (s.sending a) = [] := by
  cases a with
  | respond request buffer =>
    rw [sending]
    split <;> rfl
  | _ => rfl

@[simp] theorem writtenBy_sending (s : NetServer) (a : NetAction) :
    writtenBy w (s.sending a) = [] := by
  cases a with
  | respond request buffer =>
    rw [sending]
    split <;> rfl
  | _ => rfl

end Notes

/-! ### What a step leaves -/

/-- Neither the responses that wait nor the connections are other ones. -/
structure Undisturbed (s s' : NetServer) : Prop where
  /-- The responses that wait are the same, in the same order. -/
  waiting (thread w : ℕ) : s'.waiting thread w = s.waiting thread w
  /-- No connection was accepted meanwhile. -/
  accepts : s'.accepts = s.accepts
  /-- The connections are the same, whatever has become of their members. -/
  connection {thread uid : ℕ} {c' : NetConnection} : s'.connection thread uid = some c' →
    ∃ c, s.connection thread uid = some c ∧ c.serial = c'.serial

namespace Undisturbed

variable {s s' s'' : NetServer} {thread uid : ℕ} {c c' : NetConnection}

theorem refl (s : NetServer) : Undisturbed s s := ⟨fun _ _ => rfl, rfl, fun hc => ⟨_, hc, rfl⟩⟩

theorem trans (h : Undisturbed s s') (h' : Undisturbed s' s'') : Undisturbed s s'' where
  waiting thread w := (h'.waiting thread w).trans (h.waiting thread w)
  accepts := h'.accepts.trans h.accepts
  connection hc := by
    obtain ⟨c', hc', hserial'⟩ := h'.connection hc
    obtain ⟨c, hc, hserial⟩ := h.connection hc'
    exact ⟨c, hc, hserial.trans hserial'⟩

/-- A connection changes, but not its number, and it neither sends nor takes anything: the order is
undisturbed. -/
theorem setConnection (hc : s.connection thread uid = some c) (huid : c'.uid = uid)
    (hserial : c'.serial = c.serial) : Undisturbed s (s.setConnection thread c') where
  waiting thread' w := by
    obtain ⟨hsbuffer, hdata⟩ := queues_setConnection s thread c' thread'
    rw [NetServer.waiting, NetServer.waiting, queued, queued, hsbuffer, hdata]
  accepts := rfl
  connection {thread' uid' d} hd := by
    rw [connection_setConnection, huid] at hd
    split at hd
    · rename_i heq
      obtain ⟨rfl, rfl⟩ := heq
      obtain rfl := Option.some.inj hd
      exact ⟨c, hc, hserial.symm⟩
    · exact ⟨d, hd, rfl⟩

/-- What does not concern the threads leaves the commands and the connections alone. -/
theorem of_netThreads (hthreads : s'.netThreads = s.netThreads)
    (haccepts : s'.accepts = s.accepts) :
    Undisturbed s s' where
  waiting thread w := by rw [NetServer.waiting, NetServer.waiting, queued, queued, hthreads]
  accepts := haccepts
  connection hc := by
    rw [NetServer.connection, hthreads] at hc
    exact ⟨_, hc, rfl⟩

theorem insertRecvQueue (s : NetServer) (lfd : ℕ) (vRecvData : List ReceivedRecord) :
    Undisturbed s (s.insertRecvQueue lfd vRecvData) := of_netThreads rfl rfl

theorem closeSocket (hc : s.connection thread uid = some c) (huid : c.uid = uid) :
    Undisturbed s (s.closeSocket thread c) :=
  (setConnection hc huid rfl :
    Undisturbed s (s.setConnection thread { c with sock := none })).trans (of_netThreads rfl rfl)

/-- The queues of a thread change, but not the responses in them. -/
theorem setThread {t : NetThread} (hconnections : t.connections = (s.netThreads thread).connections)
    (hwaiting : ∀ w, buffersFor w (t.deSendData ++ t.sbuffer) = s.waiting thread w) :
    Undisturbed s (s.setThread thread t) where
  waiting thread' w := by
    rw [NetServer.waiting, queued, netThreads_setThread]
    split
    · rename_i heq
      rw [heq, hwaiting]
    · rfl
  accepts := rfl
  connection hc := by
    rw [connection_setThread s thread t hconnections] at hc
    exact ⟨_, hc, rfl⟩

/-- That a connection is deleted leaves the commands alone, and the connection keeps its number. -/
theorem delConnection (hc : s.connection thread uid = some c) (huid : c.uid = uid) :
    Undisturbed s (s.delConnection thread c).1 := by
  unfold NetServer.delConnection
  split
  · exact refl s
  · exact (insertRecvQueue s _ _).trans (closeSocket hc huid)

/-- `EPOLLIN` leaves the commands alone: it files what was read, or deletes the connection. -/
theorem processInput (hc : s.connection thread uid = some c) (huid : c.uid = uid)
    {input : Option (List ReadResult)} {es : List NetEvent} {deleted : Bool}
    (hstep : s.processInput thread c input = some (s', c', es, deleted)) : Undisturbed s s' := by
  cases input with
  | none =>
    obtain ⟨rfl, -⟩ : s = s' ∧ _ := by simpa [NetServer.processInput] using hstep
    exact refl s
  | some answers =>
    simp only [NetServer.processInput] at hstep
    split at hstep
    · cases hstep
    rename_i received vRecvData ret hrecv
    obtain ⟨⟨recvbuffer, rfl⟩, -⟩ := Connection.recv_keeps hrecv
    have hset : Undisturbed s (s.setConnection thread { c with recvbuffer }) :=
      setConnection hc huid rfl
    have hc' : (s.setConnection thread { c with recvbuffer }).connection thread uid =
        some { c with recvbuffer } := by
      rw [connection_setConnection, if_pos ⟨rfl, huid.symm⟩]
    split at hstep
    · obtain ⟨rfl, -⟩ : _ = s' ∧ _ := by simpa using hstep
      exact hset.trans (delConnection hc' huid)
    · split at hstep
      · obtain ⟨rfl, -⟩ : _ = s' ∧ _ := by simpa using hstep
        exact hset
      · obtain ⟨rfl, -⟩ : _ = s' ∧ _ := by simpa using hstep
        exact hset.trans (insertRecvQueue _ _ _)

end Undisturbed

section Steps

variable {n scIovMax : ℕ} {s s' : NetServer} {past es : List NetEvent} {thread uid : ℕ}
  {c c' : NetConnection} {a : NetAction}

/-- `processNet` writes nothing, since nothing waits in a `_sendbuffer`. -/
theorem processNet_undisturbed (h : Inv n s past) {report : NetReport}
    (hstep : s.processNet scIovMax thread uid report = some (s', es)) :
    Undisturbed s s' ∧ ∀ serial fd origin bytes, .wrote serial fd origin bytes ∉ es := by
  unfold processNet at hstep
  split at hstep
  · cases hstep
  rename_i c hc
  have huid := (h.connections.stored hc).uid_eq
  split at hstep
  · obtain ⟨hes, -⟩ := h.delConnection hc
    have heq : s.delConnection thread c = (s', es) := Option.some.inj hstep
    rw [heq] at hes
    have hdel := Undisturbed.delConnection hc huid
    rw [heq] at hdel
    refine ⟨hdel, fun serial fd origin bytes hmem => ?_⟩
    rw [show es = [.closed c.serial c.sock] from hes] at hmem
    cases List.mem_singleton.mp hmem
  split at hstep
  · cases hstep
  · rename_i s₁ c₁ es₁ hinput
    obtain ⟨rfl, rfl⟩ := Prod.mk.inj (Option.some.inj hstep)
    obtain ⟨-, -, rfl, -⟩ | ⟨hfalse, -⟩ := processInput_inv h hc hinput
    · refine ⟨Undisturbed.processInput hc huid hinput, fun serial fd origin bytes hmem => ?_⟩
      cases List.mem_singleton.mp hmem
    · cases hfalse
  · rename_i s₁ c₁ es₁ hinput
    obtain ⟨hfalse, -⟩ | ⟨-, -, rfl, hinv, hc₁, -, -⟩ := processInput_inv h hc hinput
    · cases hfalse
    obtain ⟨hnone, -⟩ := processOutput_inv scIovMax hinv hc₁ report.output
    obtain ⟨rfl, rfl⟩ := Prod.mk.inj (Option.some.inj hstep)
    rw [hnone]
    refine ⟨(Undisturbed.processInput hc huid hinput).trans ?_, fun _ _ _ _ hmem =>
      absurd hmem List.not_mem_nil⟩
    cases report.output with
    | none => exact .refl _
    | some answers =>
      exact .setConnection hc₁ (hinv.connections.stored hc₁).uid_eq rfl

end Steps

/-! ### Responses -/

/-- A kernel that takes what it is given, up to the most that one `::send` takes. -/
def Generous : NetAction → Prop
  | .pipe _ answer => ∃ m, answer = .accepted m ∧ maxWrite ≤ m
  | _ => True

/-- The responses that were given to the kernel for a connection, and what it took of each. -/
structure Tried (generous : Prop) (s : NetServer) (notes : List NetNote) (thread w : ℕ)
    (tried : List (Bytes × Bytes)) : Prop where
  /-- The kernel took the front of a response. -/
  front : ∀ e ∈ tried, e.2 <+: e.1
  /-- The other responses wait in the thread. -/
  sent : sentTo w notes = tried.map Prod.fst ++ s.waiting thread w
  /-- Nothing else was written: what the calls took is all that the peer can see. -/
  written : writtenBy w notes = (tried.map Prod.snd).filter (· ≠ [])
  /-- A generous kernel took all, as long as the connection is open. -/
  whole : generous → closings w (eventsIn notes) = [] →
    ∀ e ∈ tried, e.2 = e.1.take maxWrite

/-- What is known of the order of responses in a run: of every connection there are the responses
that the kernel was given, followed by those that wait. -/
structure Ordered (n : ℕ) (generous : Prop) (s : NetServer) (notes : List NetNote) : Prop where
  /-- What is known of the server in every run. -/
  inv : Inv n s (eventsIn notes)
  /-- Connections that have not been accepted. -/
  fresh {w : ℕ} : s.accepts ≤ w → sentTo w notes = [] ∧ writtenBy w notes = []
  /-- For a connection that was accepted there is a list of the calls that were made to send. -/
  tried {thread uid : ℕ} {c : NetConnection} : s.connection thread uid = some c →
    ∃ tried, Tried generous s notes thread c.serial tried

section Ordered

variable {n scIovMax : ℕ} {generous : Prop} {s s' : NetServer} {notes new : List NetNote}
  {es : List NetEvent} {thread uid : ℕ} {c c' : NetConnection} {a : NetAction}

/-- The order is kept at the start, where nothing was sent. -/
theorem ordered_start : Ordered n generous start [] where
  inv := inv_start n
  fresh _ := ⟨rfl, rfl⟩
  tried h := nomatch h

/-- Steps that leave the responses alone keep their order. -/
theorem Ordered.undisturbed (h : Ordered n generous s notes) (hsame : Undisturbed s s')
    (hinv : Inv n s' (eventsIn (notes ++ new))) (hsent : ∀ w, sentTo w new = [])
    (hwritten : ∀ w, writtenBy w new = []) : Ordered n generous s' (notes ++ new) where
  inv := hinv
  fresh {w} hw := by
    rw [hsame.accepts] at hw
    obtain ⟨hnone, hnone'⟩ := h.fresh hw
    rw [sentTo_append, writtenBy_append, hsent, hwritten, hnone, hnone']
    exact ⟨rfl, rfl⟩
  tried hc := by
    obtain ⟨c, hold, hserial⟩ := hsame.connection hc
    obtain ⟨tried, hfront, htried, hwrote, hwhole⟩ := h.tried hold
    rw [hserial] at htried hwrote hwhole
    refine ⟨tried, hfront, ?_, ?_, fun hgenerous hopen => hwhole hgenerous ?_⟩
    · rw [sentTo_append, hsent, List.append_nil, htried, hsame.waiting]
    · rw [writtenBy_append, hwritten, List.append_nil, hwrote]
    · rw [eventsIn_append, closings_append] at hopen
      exact (List.append_eq_nil_iff.mp hopen).1

/-- Events that are no writes say nothing of what was written. -/
theorem writtenBy_events_eq_nil (w : ℕ)
    (h : ∀ serial fd origin bytes, .wrote serial fd origin bytes ∉ es) :
    writtenBy w (es.map .event) = [] := by
  rw [writtenBy, List.filterMap_map, List.filterMap_eq_nil_iff]
  intro e he
  cases e with
  | wrote serial fd origin bytes => exact absurd he (h serial fd origin bytes)
  | _ => rfl

/-- What was given to the kernel for a connection can be observed, unless the kernel took
nothing. -/
theorem writtenBy_wrote (w : ℕ) (origin : Option ℕ) {took : Bytes}
    (hclosed : c.sock = none → took = []) :
    writtenBy w ((wrote c origin took).map .event) =
      if c.serial = w then [took].filter (· ≠ []) else [] := by
  by_cases htook : took = []
  · have hnone : wrote c origin took = [] := by
      unfold wrote
      split
      · rfl
      · exact if_pos htook
    rw [hnone, htook]
    split <;> rfl
  · obtain ⟨fd, hsock⟩ := Option.ne_none_iff_exists'.mp fun hnone => htook (hclosed hnone)
    have hone : wrote c origin took = [.wrote c.serial fd origin took] := by
      simp only [wrote, hsock, if_neg htook]
    rw [hone]
    by_cases hw : c.serial = w <;> simp [writtenBy, hw, htook]

/-- A generous kernel takes all that fits one call. -/
theorem took_of_generous {answer : WriteResult} (buffer : Bytes)
    (h : ∃ m, answer = .accepted m ∧ maxWrite ≤ m) :
    (Sender.tcpSend buffer answer).took = buffer.take maxWrite := by
  obtain ⟨m, rfl, hm⟩ := h
  rw [Sender.tcpSend]
  split
  · rename_i hempty
    rw [List.length_eq_zero_iff.mp hempty]
    rfl
  · rw [Nat.min_eq_right hm]

/-- What `send` took from a response is what its call of the kernel took: nothing is kept for later.
-/
theorem send_took (sender : Sender) (buffer : Bytes) (answer : WriteResult) :
    (sender.send buffer answer).2.1 = (Sender.tcpSend buffer answer).took := by
  cases hbytes : (Sender.tcpSend buffer answer).bytes <;> simp only [Sender.send, hbytes]

/-- A closed socket takes nothing, since the kernel reports an error. -/
theorem tcpSend_error (buffer : Bytes) : (Sender.tcpSend buffer .error).took = [] := by
  rw [Sender.tcpSend]
  split <;> rfl

/-- The next response of a thread is given to the kernel. -/
theorem Ordered.pipeSend (h : Ordered n generous s notes) (c' : NetConnection)
    {answer : WriteResult}
    (hgenerous : generous → ∃ m, answer = .accepted m ∧ maxWrite ≤ m) {it : TagSendData}
    {deSendData : List TagSendData} {buffer ip : Bytes} {port : ℕ}
    (hdata : (s.netThreads thread).deSendData = it :: deSendData)
    (hcmd : it.cmd = .send buffer ip port) (hc : s.connection thread it.uid = some c)
    (hserial : c.serial = it.serial) (huid' : c'.uid = c.uid) (hserial' : c'.serial = c.serial)
    (hs' : s' =
      (s.setThread thread { s.netThreads thread with deSendData }).setConnection thread c')
    (hes : es = wrote c (some it.serial)
      (c.toSender.send buffer (if c.sock = none then .error else answer)).2.1)
    (hinv : Inv n s' (eventsIn (notes ++ es.map .event))) :
    Ordered n generous s' (notes ++ es.map .event) := by
  have hstored := h.inv.connections.stored hc
  rw [send_took] at hes
  have hclosed : c.sock = none →
      (Sender.tcpSend buffer (if c.sock = none then .error else answer)).took = [] := by
    intro hsock
    rw [if_pos hsock, tcpSend_error]
  have hwritten (w : ℕ) := writtenBy_wrote w (some it.serial) hclosed
  rw [← hes] at hwritten
  have hfront :
      (Sender.tcpSend buffer (if c.sock = none then .error else answer)).took <+: buffer :=
    Sender.tcpSend_prefix buffer _
  have hwhole : generous → closings c.serial (eventsIn notes) = [] →
      (Sender.tcpSend buffer (if c.sock = none then .error else answer)).took =
        buffer.take maxWrite := by
    intro hgen hopen
    obtain ⟨fd, -, -, ⟨hsock, -⟩ | ⟨-, k, hclosings⟩⟩ := hstored.history
    · rw [if_neg (by rw [hsock]; simp)]
      exact took_of_generous buffer (hgenerous hgen)
    · rw [hclosings] at hopen
      cases hopen
  generalize (Sender.tcpSend buffer (if c.sock = none then .error else answer)).took = took
    at hes hclosed hwritten hfront hwhole
  have hthreads (thread' : ℕ) : s'.queued thread' =
      if thread' = thread then deSendData ++ (s.netThreads thread).sbuffer
      else s.queued thread' := by
    subst hs'
    obtain ⟨hsbuffer, hrest⟩ := queues_setConnection
      (s.setThread thread { s.netThreads thread with deSendData }) thread c' thread'
    rw [queued, hsbuffer, hrest, netThreads_setThread]
    split <;> rfl
  have hwaiting (thread' w : ℕ) : s.waiting thread' w =
      if thread' = thread ∧ c.serial = w then buffer :: s'.waiting thread' w
      else s'.waiting thread' w := by
    rw [waiting, waiting, hthreads]
    by_cases hthread : thread' = thread
    · subst hthread
      have hcons : s.queued thread' = it :: (deSendData ++ (s.netThreads thread').sbuffer) := by
        rw [queued, hdata, List.cons_append]
      rw [hcons, if_pos rfl, buffersFor, List.filterMap_cons, hcmd, hserial]
      by_cases hw : it.serial = w
      · simp only [hw, if_true, true_and]
        rfl
      · simp only [hw, if_false, and_false]
        rfl
    · rw [if_neg hthread, if_neg fun heq => hthread heq.1]
  have hold {thread' uid' : ℕ} {d : NetConnection} (hd : s'.connection thread' uid' = some d) :
      ∃ d', s.connection thread' uid' = some d' ∧ d'.serial = d.serial := by
    subst hs'
    have hmid : (s.setThread thread { s.netThreads thread with deSendData }).connection =
        s.connection := connection_setThread s thread _ rfl
    rw [connection_setConnection, hmid] at hd
    split at hd
    · rename_i heq
      obtain rfl := Option.some.inj hd
      refine ⟨c, ?_, hserial'.symm⟩
      rw [heq.1, heq.2, huid', hstored.uid_eq]
      exact hc
    · exact ⟨d, hd, rfl⟩
  have haccepts : s'.accepts = s.accepts := by
    subst hs'
    rfl
  have hsent (w : ℕ) : sentTo w (es.map .event) = [] := sentTo_events
  have hnever (w : ℕ) : closings w es = [] := by
    rw [hes]
    rcases wrote_cases c (some it.serial) took with heq | ⟨fd, -, heq⟩ <;> rw [heq] <;> rfl
  refine ⟨hinv, fun {w} hw => ?_, fun {thread' uid' d} hd => ?_⟩
  · rw [haccepts] at hw
    obtain ⟨hnone, hnone'⟩ := h.fresh hw
    have hlt := hstored.serial_lt
    rw [sentTo_append, writtenBy_append, hsent, hnone, hnone', hwritten,
      if_neg (by omega : c.serial ≠ w)]
    exact ⟨rfl, rfl⟩
  · obtain ⟨d', hd', hsame⟩ := hold hd
    obtain ⟨tried, hfronts, htried, hwrote, hwholes⟩ := h.tried hd'
    rw [hsame] at htried hwrote hwholes
    have hopen : closings d.serial (eventsIn (notes ++ es.map .event)) =
        closings d.serial (eventsIn notes) := by
      rw [eventsIn_append, eventsIn_events, closings_append, hnever, List.append_nil]
    by_cases hmine : c.serial = d.serial
    · obtain ⟨hthread, -⟩ := h.inv.connections.serial_inj hc hd' (hmine.trans hsame.symm)
      refine ⟨tried ++ [(buffer, took)], ?_, ?_, ?_, fun hgen hclosings => ?_⟩
      · intro e he
        obtain he | he := List.mem_append.mp he
        · exact hfronts e he
        · rw [List.mem_singleton.mp he]
          exact hfront
      · rw [sentTo_append, hsent, List.append_nil, htried, hwaiting, if_pos ⟨hthread.symm, hmine⟩,
          List.map_append, List.append_assoc]
        rfl
      · rw [writtenBy_append, hwritten, if_pos hmine, hwrote, List.map_append, List.filter_append]
        rfl
      · rw [hopen] at hclosings
        intro e he
        obtain he | he := List.mem_append.mp he
        · exact hwholes hgen hclosings e he
        · rw [List.mem_singleton.mp he]
          exact hwhole hgen (by rw [hmine]; exact hclosings)
    · refine ⟨tried, hfronts, ?_, ?_, fun hgen hclosings => hwholes hgen (hopen ▸ hclosings)⟩
      · rw [sentTo_append, hsent, List.append_nil, htried, hwaiting, if_neg fun heq => hmine heq.2]
      · rw [writtenBy_append, hwritten, if_neg hmine, List.append_nil, hwrote]

/-- A connection is accepted, for which nothing has been sent. -/
theorem Ordered.accept (h : Ordered n generous s notes) {lfd fd port : ℕ} {ip : Bytes}
    (hstep : s.accept n lfd fd ip port = some (s', es))
    (hinv : Inv n s' (eventsIn (notes ++ es.map .event))) :
    Ordered n generous s' (notes ++ es.map .event) := by
  obtain ⟨-, uid, free, -, rfl, haccepts, -, -, -, -, hqueues, c, -, -, -, -, hserial,
    hconnection⟩ := accept_eq_some hstep
  have hwaiting (thread w : ℕ) : s'.waiting thread w = s.waiting thread w := by
    rw [waiting, waiting, queued, queued, (hqueues thread).1, (hqueues thread).2]
  have hnew (w : ℕ) : sentTo w (notes ++ [.event (.accepted s.accepts (fd % n) uid fd)]) =
      sentTo w notes ∧ writtenBy w (notes ++ [.event (.accepted s.accepts (fd % n) uid fd)]) =
        writtenBy w notes := by
    rw [sentTo_append, writtenBy_append]
    exact ⟨List.append_nil _, List.append_nil _⟩
  refine ⟨hinv, fun {w} hw => ?_, fun {thread' uid' d} hd => ?_⟩
  · obtain ⟨hsent, hwritten⟩ := hnew w
    rw [List.map_singleton, hsent, hwritten]
    exact h.fresh (by omega)
  · obtain ⟨hsent, hwritten⟩ := hnew d.serial
    rw [hconnection] at hd
    split at hd
    · obtain rfl := Option.some.inj hd
      obtain ⟨hnone, hnone'⟩ := h.fresh (le_of_eq hserial.symm)
      refine ⟨[], fun e he => absurd he List.not_mem_nil, ?_, ?_, fun _ _ e he =>
        absurd he List.not_mem_nil⟩
      · rw [List.map_singleton, hsent, hnone, hwaiting]
        -- No command is for a connection that has not been accepted.
        refine (List.filterMap_eq_nil_iff.mpr fun it hit => ?_).symm
        obtain ⟨d, hd, hd'⟩ := h.inv.queues.commands (List.mem_append.mp hit).symm
        have hlt := (h.inv.connections.stored hd).serial_lt
        cases it.cmd with
        | close => rfl
        | send buffer ip port => exact if_neg (by omega)
      · rw [List.map_singleton, hwritten, hnone']
        rfl
    · obtain ⟨tried, hfront, htried, hwrote, hwhole⟩ := h.tried hd
      refine ⟨tried, hfront, ?_, ?_, fun hgen hopen => hwhole hgen ?_⟩
      · rw [List.map_singleton, hsent, htried, hwaiting]
      · rw [List.map_singleton, hwritten, hwrote]
      · rw [eventsIn_append, eventsIn_events, closings_append] at hopen
        exact (List.append_eq_nil_iff.mp hopen).1

/-- A handler that sends a response puts it behind the others of its connection. -/
theorem Ordered.respond (h : Ordered n generous s notes) {recv : ReceivedRecord}
    (hrecv : recv ∈ s.requests) (buffer : Bytes) (hs' : s' =
      s.pushCommand (threadOfFd n recv.data.fd)
        ⟨recv.serial, recv.data.uid, .send buffer recv.data.ip recv.data.port⟩)
    (hinv : Inv n s' (eventsIn (notes ++ [.sent recv.serial buffer]))) :
    Ordered n generous s' (notes ++ [.sent recv.serial buffer]) := by
  obtain ⟨c, hc, hserial⟩ := h.inv.queues.requests hrecv
  have hconnection : s'.connection = s.connection := by
    rw [hs']
    exact connection_setThread s _ _ rfl
  have hqueued (thread' : ℕ) : s'.queued thread' = s.queued thread' ++
      if thread' = threadOfFd n recv.data.fd then
        [⟨recv.serial, recv.data.uid, .send buffer recv.data.ip recv.data.port⟩] else [] := by
    rw [hs', queued, pushCommand, netThreads_setThread]
    split
    · rename_i heq
      rw [heq, queued, List.append_assoc]
    · rw [List.append_nil, queued]
  have hwaiting (thread' w : ℕ) : s'.waiting thread' w = s.waiting thread' w ++
      if thread' = threadOfFd n recv.data.fd ∧ recv.serial = w then [buffer] else [] := by
    rw [waiting, waiting, hqueued, buffersFor_append]
    by_cases hthread : thread' = threadOfFd n recv.data.fd
    · by_cases hw : recv.serial = w <;> simp [hthread, hw, buffersFor]
    · rw [if_neg hthread, if_neg fun heq => hthread heq.1]
      rfl
  have hsent (w : ℕ) : sentTo w (notes ++ [.sent recv.serial buffer]) = sentTo w notes ++
      if recv.serial = w then [buffer] else [] := by
    rw [sentTo_append]
    by_cases hw : recv.serial = w <;> simp [sentTo, hw]
  have hwritten (w : ℕ) : writtenBy w (notes ++ [.sent recv.serial buffer]) =
      writtenBy w notes := by
    rw [writtenBy_append]
    exact List.append_nil _
  have haccepts : s'.accepts = s.accepts := by
    rw [hs']
    rfl
  refine ⟨hinv, fun {w} hw => ?_, fun {thread' uid' d} hd => ?_⟩
  · rw [haccepts] at hw
    obtain ⟨hnone, hnone'⟩ := h.fresh hw
    have hlt := (h.inv.connections.stored hc).serial_lt
    rw [hsent, hwritten, hnone, hnone', if_neg (by omega : recv.serial ≠ w)]
    exact ⟨rfl, rfl⟩
  · rw [hconnection] at hd
    obtain ⟨tried, hfront, htried, hwrote, hwhole⟩ := h.tried hd
    refine ⟨tried, hfront, ?_, ?_, fun hgen hopen => hwhole hgen ?_⟩
    · rw [hsent, hwaiting, htried, List.append_assoc]
      by_cases hmine : recv.serial = d.serial
      · obtain ⟨hthread, -⟩ := h.inv.connections.serial_inj hc hd (hserial.trans hmine)
        rw [if_pos hmine, if_pos ⟨hthread.symm, hmine⟩]
      · rw [if_neg hmine, if_neg fun heq => hmine heq.2]
    · rw [hwritten, hwrote]
    · rw [eventsIn_append, closings_append] at hopen
      exact (List.append_eq_nil_iff.mp hopen).1

/-- What is written comes from a command of `processPipe`. It is the front of a response, and the
first one if no other was sent before. -/
theorem Ordered.pipe_writes (h : Ordered n generous s notes) {answer : WriteResult}
    (hstep : s.pipe thread answer = some (s', es)) :
    (∀ w, writtenBy w (es.map .event) = []) ∨
      ∃ it deSendData c buffer ip port took, (s.netThreads thread).deSendData = it :: deSendData ∧
        it.cmd = .send buffer ip port ∧ s.connection thread it.uid = some c ∧
        c.serial = it.serial ∧
        took = (Sender.tcpSend buffer (if c.sock = none then .error else answer)).took ∧
        (∀ w, (writtenBy w (es.map .event)).flatten = if it.serial = w then took else []) ∧
        ∃ front rest, sentTo it.serial notes = front ++ buffer :: rest ∧
          (front = [] → writtenBy it.serial notes = []) := by
  unfold NetServer.pipe at hstep
  split at hstep
  · cases hstep
  rename_i it deSendData hdata
  obtain ⟨c, hc, hserial⟩ : ∃ c, s.connection thread it.uid = some c ∧ c.serial = it.serial :=
    h.inv.queues.commands (.inr (by rw [hdata]; exact List.mem_cons_self))
  have hmid : (s.setThread thread { s.netThreads thread with deSendData }).connection thread
      it.uid = some c := by
    rw [connection_setThread s thread { s.netThreads thread with deSendData } rfl]
    exact hc
  cases hcmd : it.cmd with
  | close =>
    simp only [processCommand, hcmd, hmid] at hstep
    refine .inl fun w => writtenBy_events_eq_nil w fun serial fd origin bytes hmem => ?_
    split at hstep
    · rw [show es = (NetServer.delConnection _ _ _).2 from
        (congrArg Prod.snd (Option.some.inj hstep)).symm] at hmem
      unfold NetServer.delConnection at hmem
      split at hmem
      · exact absurd hmem List.not_mem_nil
      · cases List.mem_singleton.mp hmem
    · rw [← (Prod.mk.inj (Option.some.inj hstep)).2] at hmem
      exact absurd hmem List.not_mem_nil
  | send buffer ip port =>
    simp only [processCommand, hcmd, hmid] at hstep
    obtain ⟨-, rfl⟩ := Prod.mk.inj (Option.some.inj hstep)
    obtain ⟨tried, -, hsent, hwritten, -⟩ := h.tried hc
    rw [hserial] at hsent hwritten
    refine .inr ⟨it, deSendData, c, buffer, ip, port, _, hdata, hcmd, hc, hserial, rfl, fun w => ?_,
      tried.map Prod.fst, buffersFor it.serial (deSendData ++ (s.netThreads thread).sbuffer),
      ?_, ?_⟩
    · rw [send_took, writtenBy_wrote w (some it.serial) (fun hsock => by
        rw [if_pos hsock, tcpSend_error]), hserial]
      split
      · generalize (Sender.tcpSend buffer _).took = took
        by_cases htook : took = [] <;> simp [htook]
      · rfl
    · rw [hsent, waiting, queued, hdata, List.cons_append, buffersFor, List.filterMap_cons, hcmd]
      simp only [if_true]
      rfl
    · intro hnone
      rw [hwritten, List.map_eq_nil_iff.mp hnone]
      rfl

/-- A command of `processPipe` gives the first waiting response to the kernel, or closes a
connection. -/
theorem Ordered.pipe (h : Ordered n generous s notes) {answer : WriteResult}
    (hgenerous : generous → ∃ m, answer = .accepted m ∧ maxWrite ≤ m)
    (hstep : s.pipe thread answer = some (s', es))
    (hinv : Inv n s' (eventsIn (notes ++ es.map .event))) :
    Ordered n generous s' (notes ++ es.map .event) := by
  unfold NetServer.pipe at hstep
  split at hstep
  · cases hstep
  rename_i it deSendData hdata
  obtain ⟨c, hc, hserial⟩ : ∃ c, s.connection thread it.uid = some c ∧ c.serial = it.serial :=
    h.inv.queues.commands (.inr (by rw [hdata]; exact List.mem_cons_self))
  have huid := (h.inv.connections.stored hc).uid_eq
  have hsame : (s.setThread thread { s.netThreads thread with deSendData }).connection =
      s.connection := connection_setThread s thread _ rfl
  have hmid : (s.setThread thread { s.netThreads thread with deSendData }).connection thread
      it.uid = some c := by
    rw [hsame]
    exact hc
  cases hcmd : it.cmd with
  | close =>
    have hwaiting (w : ℕ) : buffersFor w (deSendData ++ (s.netThreads thread).sbuffer) =
        s.waiting thread w := by
      rw [waiting, queued, hdata, List.cons_append, buffersFor, buffersFor, List.filterMap_cons,
        hcmd]
    have hpop : Undisturbed s (s.setThread thread { s.netThreads thread with deSendData }) :=
      .setThread rfl hwaiting
    have hset : Undisturbed (s.setThread thread { s.netThreads thread with deSendData })
        ((s.setThread thread { s.netThreads thread with deSendData }).setConnection thread
          { c with toSender := c.toSender.setClose.1 }) := .setConnection hmid huid rfl
    have hc' : ((s.setThread thread { s.netThreads thread with deSendData }).setConnection thread
        { c with toSender := c.toSender.setClose.1 }).connection thread it.uid =
          some { c with toSender := c.toSender.setClose.1 } := by
      rw [connection_setConnection, if_pos ⟨rfl, huid.symm⟩]
    simp only [processCommand, hcmd, hmid] at hstep
    split at hstep
    · have heq := Option.some.inj hstep
      have hdel := Undisturbed.delConnection hc' huid
      rw [heq] at hdel
      refine h.undisturbed ((hpop.trans hset).trans hdel) hinv (fun w => sentTo_events) fun w =>
        writtenBy_events_eq_nil w fun serial fd origin bytes hmem => ?_
      have hes : es = ((NetServer.delConnection _ _ _).2) := (congrArg Prod.snd heq).symm
      rw [hes] at hmem
      unfold NetServer.delConnection at hmem
      split at hmem
      · exact absurd hmem List.not_mem_nil
      · cases List.mem_singleton.mp hmem
    · obtain ⟨rfl, rfl⟩ := Prod.mk.inj (Option.some.inj hstep)
      exact h.undisturbed (hpop.trans hset) hinv (fun w => rfl) fun w => rfl
  | send buffer ip port =>
    simp only [processCommand, hcmd, hmid] at hstep
    obtain ⟨rfl, rfl⟩ := Prod.mk.inj (Option.some.inj hstep)
    refine h.pipeSend _ hgenerous hdata hcmd hc hserial ?_ ?_ rfl rfl hinv <;> rfl

/-- **One step** keeps the order of responses: what it writes is the next of what was handed over.
-/
theorem Ordered.step (h : Ordered n generous s notes) (hgenerous : generous → Generous a)
    (hstep : s.notedStep n scIovMax a = some (s', new)) : Ordered n generous s' (notes ++ new) := by
  obtain ⟨⟨t, es⟩, hplain, heq⟩ := Option.map_eq_some_iff.mp hstep
  obtain ⟨rfl, rfl⟩ := Prod.mk.inj heq
  obtain ⟨-, hinv⟩ := step_inv h.inv hplain
  have hevents : eventsIn (notes ++ (s.sending a ++ es.map .event)) = eventsIn notes ++ es := by
    simp
  rw [← hevents] at hinv
  cases a with
  | accept lfd fd ip port => exact h.accept hplain hinv
  | net thread uid report =>
    obtain ⟨hsame, hnever⟩ := processNet_undisturbed h.inv hplain
    exact h.undisturbed hsame hinv (fun w => sentTo_events) fun w =>
      writtenBy_events_eq_nil w hnever
  | swap thread =>
    simp only [NetServer.step, swap] at hplain
    split at hplain
    · rename_i hdata
      obtain ⟨rfl, rfl⟩ := Prod.mk.inj (Option.some.inj hplain)
      refine h.undisturbed (.setThread rfl fun w => ?_) hinv (fun _ => rfl) fun _ => rfl
      rw [waiting, queued, hdata, List.nil_append, List.append_nil]
    · cases hplain
  | pipe thread answer => exact h.pipe hgenerous hplain hinv
  | take lfd =>
    simp only [NetServer.step, take] at hplain
    split at hplain
    · cases hplain
    obtain ⟨rfl, rfl⟩ := Prod.mk.inj (Option.some.inj hplain)
    refine h.undisturbed ?_ hinv (fun _ => rfl) fun _ => rfl
    split <;> exact .of_netThreads rfl rfl
  | respond request buffer =>
    simp only [NetServer.step, NetServer.respond] at hplain
    split at hplain
    · cases hplain
    rename_i recv hrecv
    obtain ⟨rfl, rfl⟩ := Prod.mk.inj (Option.some.inj hplain)
    have hnote : s.sending (.respond request buffer) ++ [].map .event =
        [.sent recv.serial buffer] := by
      simp only [sending, hrecv]
      rfl
    rw [hnote] at hinv ⊢
    exact h.respond (List.mem_of_getElem? hrecv) buffer rfl hinv
  | close request =>
    simp only [NetServer.step, NetServer.close] at hplain
    split at hplain
    · cases hplain
    obtain ⟨rfl, rfl⟩ := Prod.mk.inj (Option.some.inj hplain)
    refine h.undisturbed (.setThread rfl fun w => ?_) hinv (fun _ => rfl) fun _ => rfl
    rw [← List.append_assoc, buffersFor_append]
    exact List.append_nil _

/-- Only `processPipe` writes, since nothing ever waits in a `_sendbuffer`. -/
theorem Ordered.writes (h : Ordered n generous s notes)
    (hstep : s.notedStep n scIovMax a = some (s', new))
    (hpipe : ∀ thread answer, a ≠ .pipe thread answer) (w : ℕ) : writtenBy w new = [] := by
  obtain ⟨⟨t, es⟩, hplain, heq⟩ := Option.map_eq_some_iff.mp hstep
  obtain ⟨rfl, rfl⟩ := Prod.mk.inj heq
  rw [writtenBy_append, writtenBy_sending, List.nil_append]
  refine writtenBy_events_eq_nil w fun serial fd origin bytes hmem => ?_
  cases a with
  | accept lfd fd ip port =>
    obtain ⟨-, uid, free, -, rfl, -⟩ := accept_eq_some hplain
    cases List.mem_singleton.mp hmem
  | net thread uid report =>
    exact (processNet_undisturbed h.inv hplain).2 serial fd origin bytes hmem
  | pipe thread answer => exact hpipe thread answer rfl
  | swap | take | respond | close =>
    simp only [NetServer.step, NetServer.swap, NetServer.take, NetServer.respond,
      NetServer.close] at hplain
    split at hplain <;> cases hplain
    exact absurd hmem List.not_mem_nil

end Ordered

variable {n scIovMax : ℕ} {s : NetServer} {as : List NetAction} {notes : List NetNote}
  {thread uid : ℕ} {c : NetConnection}

/-- **Responses are written in order**, in every run of any number of network threads and handlers:
the responses that were sent to a connection are those that were given to the kernel for it,
followed by those that wait, and what the connection has written are the fronts of the former that
the kernel took, one for each, in this order. If the kernel takes what it is given, they are whole
as long as the connection is open. -/
theorem responses_in_order (hexec : Scripts.exec (notedStep n scIovMax) start as = some (s, notes))
    (hc : s.connection thread uid = some c) :
    ∃ tried, Tried (∀ a ∈ as, Generous a) s notes thread c.serial tried := by
  have hordered : Ordered n (∀ a ∈ as, Generous a) s ([] ++ notes) := by
    refine Scripts.exec_invariant_outputs
      (C := fun _ a => (∀ a ∈ as, Generous a) → Generous a) []
      (fun _ _ _ _ _ h hgenerous hstep => h.step hgenerous hstep) ordered_start ?_ hexec
    exact Scripts.along_of_mem (D := fun a => (∀ a ∈ as, Generous a) → Generous a)
      fun a ha h => h a ha
  exact hordered.tried hc

/-- A connection is accepted, its request is answered twice, and the kernel takes the front of the
first response. -/
private def answeredTwice : List NetAction :=
  [.accept 3 5 [49] 80, .net 1 1 ⟨false, some [.data [7]], none⟩, .take 3, .respond 0 [8, 9],
    .swap 1, .respond 0 [6], .pipe 1 (.accepted 1)]

/-- The statement on the run of `answeredTwice`: the kernel has taken the front of the first
response, so the second one waits. -/
theorem responses_in_order_sample : ∃ s notes c,
    Scripts.exec (notedStep 2 1024) start answeredTwice = some (s, notes) ∧
      s.connection 1 1 = some c ∧ sentTo 0 notes = [[8, 9], [6]] ∧ writtenBy 0 notes = [[8]] ∧
      ∃ tried, Tried (∀ a ∈ answeredTwice, Generous a) s notes 1 c.serial tried := by
  have hsome : ((Scripts.exec (notedStep 2 1024) start answeredTwice).bind fun r =>
      (r.1.connection 1 1).map fun _ => (sentTo 0 r.2, writtenBy 0 r.2)) =
        some ([[8, 9], [6]], [[8]]) := by decide +kernel
  obtain ⟨⟨s, notes⟩, hexec, hmap⟩ := Option.bind_eq_some_iff.mp hsome
  obtain ⟨c, hc, hlists⟩ := Option.map_eq_some_iff.mp hmap
  obtain ⟨hsent, hwritten⟩ := Prod.mk.inj hlists
  exact ⟨s, notes, c, hexec, hc, hsent, hwritten, responses_in_order hexec hc⟩

end NetServer

end Tars
