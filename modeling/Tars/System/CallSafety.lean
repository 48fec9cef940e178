import Tars.Client.SingleCalls
import Tars.System.SocketStates

/-!
# Safety of remote calls

A client that makes one call after the other, whose messages are not cut, gets for every call that
finishes what the servant returned for it. Each of them was served once, and the one that waits at
most once.
-/

namespace Tars

namespace RemoteCalls

open NetServer ObjectProxy

/-- A call that has finished: the message, what the servant returned and what the client got. -/
structure CompletedCall where
  /-- The message that was sent. -/
  msg : ReqMessage
  /-- The code that the servant returned. -/
  code : ℤ
  /-- The buffer that it returned. -/
  response : Bytes

namespace CompletedCall

/-- The message of the call as the client finishes it, with the response that it got. -/
def finished (r : CompletedCall) : ReqMessage :=
  finishInvokeMsg { r.msg with response := r.response }

/-- The call of the servant: the request that was transmitted, and what it returned. -/
def result (r : CompletedCall) : Bytes × Outcome := (r.msg.sReqData, .ok (r.code, r.response))

end CompletedCall

/-- A client without a call. No message waits in its proxy and nothing is on the way on any of its
sockets. -/
structure Idle (site : Site) (s : RemoteCalls) (notes : List RemoteNote) (client : ℕ) : Prop where
  /-- No message waits for a response, so any response would be for none. -/
  outstanding (id : ℕ) : (s.clients client).proxy.outstanding id = none
  /-- Nothing is left to send. -/
  buffer : (s.trans client).sendBuffer.readable = []
  /-- Nothing waits on its sockets. -/
  settled (fd : ℕ) : Settled site s notes ⟨client, fd⟩

/-- A client that waits for a response: its proxy holds one message, which the newest socket
carries. -/
structure Waiting (site : Site) (s : RemoteCalls) (notes : List RemoteNote) (client : ℕ)
    (msg : ReqMessage) (fd : ℕ) : Prop where
  /-- Only this message waits for a response, under its own id. -/
  outstanding (id : ℕ) : (s.clients client).proxy.outstanding id =
    if id = toUInt32 msg.iRequestId then some msg else none
  /-- It has bytes, so the socket has something to carry. -/
  data : msg.sReqData ≠ []
  /-- The socket is open or was closed. -/
  current : (s.trans client).fd = some fd ∨ (s.trans client).fd = none
  /-- The socket takes the rest from the send buffer. -/
  outgoing : (s.trans client).fd = some fd → (s.clients client).outgoing fd = msg.sReqData
  /-- What has become of the message. -/
  carries : Carries site s notes ⟨client, fd⟩ msg.sReqData
  /-- The response is read at once. -/
  got : (s.trans client).fd = some fd → (s.passed ⟨client, fd⟩).got = 0 ∨
    (s.passed ⟨client, fd⟩).got = (s.passed ⟨client, fd⟩).written.length ∧
      (s.passed ⟨client, fd⟩).written ≠ []
  /-- Nothing waits on other sockets. -/
  settled (fd' : ℕ) : fd' ≠ fd → Settled site s notes ⟨client, fd'⟩

/-- What a client waits for, with the calls of servants for it. -/
inductive Phase (site : Site) (s : RemoteCalls) (notes : List RemoteNote) (client : ℕ) :
    Option ReqMessage → List (Bytes × Outcome) → Prop where
  /-- It waits for nothing, and none of its sockets has anything under way. -/
  | idle (h : Idle site s notes client) : Phase site s notes client none []
  /-- It waits for the response to a message, which is the only one under way. -/
  | waiting (msg : ReqMessage) (fd : ℕ) (h : Waiting site s notes client msg fd) :
    Phase site s notes client (some msg) (servedOn ⟨client, fd⟩ notes)

/-- The calls of a client so far: those that have finished, the one that waits, and the calls of
servants for them. -/
structure Calls (site : Site) (s : RemoteCalls) (notes : List RemoteNote) (client : ℕ)
    (calls : List CompletedCall) (current : Option ReqMessage)
    (results : List (Bytes × Outcome)) : Prop where
  /-- The messages that were sent. -/
  issued : issuedBy client notes = calls.map CompletedCall.msg ++ current.toList
  /-- The messages that were finished. -/
  finished : finishedBy client notes = calls.map CompletedCall.finished
  /-- The calls of servants. -/
  served : servedTo client notes = calls.map CompletedCall.result ++ results
  /-- What the client waits for. -/
  phase : Phase site s notes client current results

section Clients

variable {site : Site} {s s' : RemoteCalls} {notes new : List RemoteNote} {e : Endpoint}
  {data : Bytes} {client fd : ℕ} {msg : ReqMessage} {calls : List CompletedCall}
  {current : Option ReqMessage} {results : List (Bytes × Outcome)} {a : RemoteAction}

/-- A socket on which nothing happens keeps what it has, and nothing waits for it as before. -/
theorem Settled.congr (h : Settled site s notes e) (hsent : s'.sent e = s.sent e)
    (hread : (s'.passed e).read = (s.passed e).read)
    (hrequests : requestsOn site s' e = requestsOn site s e) (hserved : servedIn new = []) :
    Settled site s' (notes ++ new) e where
  read := by
    rw [unread, hsent, hread]
    exact h.read
  served := by
    rw [hrequests, servedOn_append, servedOn_eq_nil hserved, List.append_nil]
    exact h.served

/-- A socket that takes more of its message still carries it, as long as nothing is read, written or
served meanwhile. -/
theorem Carries.congr (h : Carries site s notes e data) (hsent : s'.sent e <+: data)
    (hmore : s.sent e <+: s'.sent e) (hread : (s'.passed e).read = (s.passed e).read)
    (hwritten : (s'.passed e).written = (s.passed e).written)
    (hrequests : requestsOn site s' e = requestsOn site s e) (hserved : servedIn new = []) :
    Carries site s' (notes ++ new) e data where
  sent := hsent
  read := by
    rw [hread, hrequests]
    refine h.read.imp_right fun ⟨hall, hsame, hone⟩ => ⟨hall, ?_, hone⟩
    rw [hsame] at hmore
    exact hsent.eq_of_length_le hmore.length_le
  served := by
    rw [servedOn_append, servedOn_eq_nil hserved, List.append_nil]
    exact h.served
  written := by
    rw [hwritten, servedOn_append, servedOn_eq_nil hserved, List.append_nil]
    exact h.written

/-- The calls of servants for a client are those for one socket if there are none for others. -/
theorem servedTo_eq_servedOn (h : ∀ fd' ≠ fd, servedOn ⟨client, fd'⟩ new = []) :
    servedTo client new = servedOn ⟨client, fd⟩ new := by
  rw [servedTo, servedOn]
  refine congrArg (List.map Prod.snd) (List.filter_congr fun p hp => ?_)
  obtain ⟨⟨client', fd'⟩, q⟩ := p
  by_cases hclient : client' = client
  · subst hclient
    by_cases hfd : fd' = fd
    · simp [hfd]
    · have hnone := h fd' hfd
      rw [servedOn, List.map_eq_nil_iff, List.filter_eq_nil_iff] at hnone
      exact absurd rfl (of_decide_eq_false (Bool.eq_false_iff.mpr (hnone _ hp)))
  · simp [hclient]

/-- A step of the server keeps the calls of a client. It may serve the request of the call that
waits. -/
theorem Calls.serverStep (h : Calls site s notes client calls current results)
    (hstep : ServerStep site s s' notes new a) (hwhole : Whole client s a) :
    ∃ results', Calls site s' (notes ++ new) client calls current results' := by
  obtain ⟨hissued, hfinished, hserved, hphase⟩ := h
  have hissued' : issuedBy client (notes ++ new) =
      calls.map CompletedCall.msg ++ current.toList := by
    rw [issuedBy_append, (hstep.silent client).1, List.append_nil, hissued]
  have hfinished' : finishedBy client (notes ++ new) = calls.map CompletedCall.finished := by
    rw [finishedBy_append, (hstep.silent client).2, List.append_nil, hfinished]
  have htrans : s'.trans client = s.trans client := by rw [trans, trans, hstep.clients]
  cases hphase with
  | idle hidle =>
    have hnone : servedTo client new = [] :=
      (servedTo_eq_servedOn fun fd' _ => ((hidle.settled fd').serverStep hstep).2).trans
        ((hidle.settled 0).serverStep hstep).2
    refine ⟨[], hissued', hfinished', ?_, .idle ⟨?_, ?_, fun fd => ?_⟩⟩
    · rw [servedTo_append, hnone, List.append_nil, hserved]
    · rw [hstep.clients]
      exact hidle.outstanding
    · rw [htrans]
      exact hidle.buffer
    · exact ((hidle.settled fd).serverStep hstep).1
  | waiting msg fd hwaiting =>
    have hawaits (bytes : Bytes) (hbytes : s.Awaits client bytes) : bytes = msg.sReqData := by
      obtain ⟨id, -, hmap⟩ := hbytes
      rw [hwaiting.outstanding] at hmap
      split at hmap
      · exact (Option.some.inj hmap).symm
      · cases hmap
    obtain ⟨hcarries, hgot, hwritten⟩ :=
      hwaiting.carries.serverStep hwaiting.data hstep hwhole hawaits
    refine ⟨_, hissued', hfinished', ?_, .waiting msg fd ⟨?_, hwaiting.data, ?_, ?_, hcarries, ?_,
      fun fd' hne => ((hwaiting.settled fd' hne).serverStep hstep).1⟩⟩
    · rw [servedTo_append, hserved, servedOn_append, List.append_assoc,
        servedTo_eq_servedOn fun fd' hne => ((hwaiting.settled fd' hne).serverStep hstep).2]
    · rw [hstep.clients]
      exact hwaiting.outstanding
    · rw [htrans]
      exact hwaiting.current
    · rw [htrans, hstep.clients]
      exact hwaiting.outgoing
    · rw [htrans, hgot]
      intro hopen
      obtain hzero | ⟨hall, hne⟩ := hwaiting.got hopen
      · exact .inl hzero
      · rw [hwritten hne]
        exact .inr ⟨hall, hne⟩

/-- A client without a call that keeps its sockets. -/
theorem Idle.congr (h : Idle site s notes client)
    (hout : ∀ id, (s'.clients client).proxy.outstanding id = none)
    (hbuffer : (s'.trans client).sendBuffer.readable = [])
    (hsent : ∀ fd, s'.sent ⟨client, fd⟩ = s.sent ⟨client, fd⟩)
    (hread : ∀ fd, (s'.passed ⟨client, fd⟩).read = (s.passed ⟨client, fd⟩).read)
    (hrequests : ∀ e, requestsOn site s' e = requestsOn site s e) (hserved : servedIn new = []) :
    Idle site s' (notes ++ new) client :=
  ⟨hout, hbuffer, fun fd => (h.settled fd).congr (hsent fd) (hread fd) (hrequests _) hserved⟩

/-- A client that keeps waiting, and whose socket takes more of the message. -/
theorem Waiting.congr (h : Waiting site s notes client msg fd)
    (hout : ∀ id, (s'.clients client).proxy.outstanding id =
      (s.clients client).proxy.outstanding id)
    (hcurrent : (s'.trans client).fd = (s.trans client).fd ∨ (s'.trans client).fd = none)
    (houtgoing : (s'.trans client).fd = some fd →
      (s'.clients client).outgoing fd = (s.clients client).outgoing fd)
    (hsent : s'.sent ⟨client, fd⟩ <+: msg.sReqData)
    (hmore : s.sent ⟨client, fd⟩ <+: s'.sent ⟨client, fd⟩)
    (hothers : ∀ fd' ≠ fd, s'.sent ⟨client, fd'⟩ = s.sent ⟨client, fd'⟩)
    (hpassed : ∀ fd, (s'.passed ⟨client, fd⟩).read = (s.passed ⟨client, fd⟩).read ∧
      (s'.passed ⟨client, fd⟩).written = (s.passed ⟨client, fd⟩).written)
    (hgot : (s'.trans client).fd = some fd → (s'.passed ⟨client, fd⟩).got = 0 ∨
      (s'.passed ⟨client, fd⟩).got = (s.passed ⟨client, fd⟩).written.length ∧
        (s.passed ⟨client, fd⟩).written ≠ [])
    (hrequests : ∀ e, requestsOn site s' e = requestsOn site s e) (hserved : servedIn new = []) :
    Waiting site s' (notes ++ new) client msg fd where
  outstanding id := (hout id).trans (h.outstanding id)
  data := h.data
  current := by
    obtain hsame | hnone := hcurrent
    · rw [hsame]
      exact h.current
    · exact .inr hnone
  outgoing hopen := by
    rw [houtgoing hopen]
    obtain hsame | hnone := hcurrent
    · exact h.outgoing (hsame ▸ hopen)
    · rw [hnone] at hopen
      cases hopen
  carries := h.carries.congr hsent hmore (hpassed fd).1 (hpassed fd).2 (hrequests _) hserved
  got hopen := by
    rw [(hpassed fd).2]
    exact hgot hopen
  settled fd' hne :=
    (h.settled fd' hne).congr (hothers fd' hne) (hpassed fd').1 (hrequests _) hserved

/-- A step in which a client neither sends nor finishes a message. -/
theorem Calls.congr (h : Calls site s notes client calls current results)
    (hissued : issuedBy client new = []) (hfinished : finishedBy client new = [])
    (hserved : servedIn new = [])
    (hidle : Idle site s notes client → Idle site s' (notes ++ new) client)
    (hwaiting : ∀ msg fd, Waiting site s notes client msg fd →
      Waiting site s' (notes ++ new) client msg fd) :
    Calls site s' (notes ++ new) client calls current results := by
  obtain ⟨hissued', hfinished', hserved', hphase⟩ := h
  refine ⟨?_, ?_, ?_, ?_⟩
  · rw [issuedBy_append, hissued, List.append_nil, hissued']
  · rw [finishedBy_append, hfinished, List.append_nil, hfinished']
  · rw [servedTo_append, servedTo_eq_nil hserved, List.append_nil, hserved']
  · cases hphase with
    | idle h => exact .idle (hidle h)
    | waiting msg fd h =>
      have hsame : servedOn ⟨client, fd⟩ (notes ++ new) = servedOn ⟨client, fd⟩ notes := by
        rw [servedOn_append, servedOn_eq_nil hserved, List.append_nil]
      rw [← hsame]
      exact .waiting msg fd (hwaiting msg fd h)

/-- A step that leaves a client and its sockets alone. -/
theorem Calls.frame (h : Calls site s notes client calls current results)
    (hclient : s'.clients client = s.clients client)
    (hpassed : ∀ fd, s'.passed ⟨client, fd⟩ = s.passed ⟨client, fd⟩)
    (hrequests : ∀ e, requestsOn site s' e = requestsOn site s e) (hserved : servedIn new = [])
    (hissued : issuedBy client new = []) (hfinished : finishedBy client new = []) :
    Calls site s' (notes ++ new) client calls current results := by
  have htrans : s'.trans client = s.trans client := by rw [trans, trans, hclient]
  have hsent (fd : ℕ) : s'.sent ⟨client, fd⟩ = s.sent ⟨client, fd⟩ := by
    show (s'.trans client).kernel.accepted fd = (s.trans client).kernel.accepted fd
    rw [htrans]
  refine h.congr hissued hfinished hserved (fun hidle => ?_) fun msg fd hwaiting => ?_
  · refine hidle.congr ?_ ?_ hsent (fun fd => by rw [hpassed]) hrequests hserved
    · rw [hclient]
      exact hidle.outstanding
    · rw [htrans]
      exact hidle.buffer
  · refine hwaiting.congr (fun id => by rw [hclient]) (.inl (by rw [htrans]))
      (fun _ => by rw [hclient]) ?_ ?_ (fun fd' _ => hsent fd')
      (fun fd' => ⟨by rw [hpassed], by rw [hpassed]⟩) ?_ hrequests hserved
    · rw [hsent]
      exact hwaiting.carries.sent
    · rw [hsent]
    · rw [htrans, hpassed]
      exact hwaiting.got

end Clients

section Acts

variable {site : Site} {s s' : RemoteCalls} {notes new : List RemoteNote} {client other : ℕ}
  {msg : ReqMessage} {calls : List CompletedCall} {current : Option ReqMessage}
  {results : List (Bytes × Outcome)} {answers : List ReadResult} {events : List Event}
  {msgs : List ReqMessage} {fd : ℕ}

/-- The messages that a client sends in a step are those it has issued there. -/
theorem issuedBy_own : issuedBy client (msgs.map (.issued client) ++ finishes client events) =
    msgs := by
  have hnone : issuedBy client (finishes client events) = [] := by
    rw [issuedBy, finishes, List.filterMap_filterMap, List.filterMap_eq_nil_iff]
    intro event _
    cases event <;> rfl
  rw [issuedBy_append, hnone, List.append_nil]
  simp [issuedBy, List.filterMap_map]

/-- The messages that a client finishes in a step are those of its events. -/
theorem finishedBy_own : finishedBy client (msgs.map (.issued client) ++ finishes client events) =
    finishedBy client (finishes client events) := by
  have hnone : finishedBy client (msgs.map (.issued client)) = [] := by
    simp [finishedBy, List.filterMap_map]
  rw [finishedBy_append, hnone, List.nil_append]

/-- Other clients send and finish their own messages, so their notes say nothing about this client.
-/
theorem notes_of_other (h : other ≠ client) :
    issuedBy client (msgs.map (.issued other) ++ finishes other events) = [] ∧
      finishedBy client (msgs.map (.issued other) ++ finishes other events) = [] := by
  constructor
  · rw [issuedBy, List.filterMap_eq_nil_iff]
    intro note hnote
    obtain hnote | hnote := List.mem_append.mp hnote
    · obtain ⟨m, -, rfl⟩ := List.mem_map.mp hnote
      exact if_neg h
    · obtain ⟨event, -, heq⟩ := List.mem_filterMap.mp hnote
      cases event with
      | sendRequest m iRet => cases heq
      | finishInvoke m =>
        obtain rfl := Option.some.inj heq
        rfl
  · rw [finishedBy, List.filterMap_eq_nil_iff]
    intro note hnote
    obtain hnote | hnote := List.mem_append.mp hnote
    · obtain ⟨m, -, rfl⟩ := List.mem_map.mp hnote
      rfl
    · obtain ⟨event, -, heq⟩ := List.mem_filterMap.mp hnote
      cases event with
      | sendRequest m iRet => cases heq
      | finishInvoke m =>
        obtain rfl := Option.some.inj heq
        exact if_neg h

/-- Sending finishes nothing: only a response or a failure ends a call. -/
theorem finishes_eq_nil (client : ℕ)
    (h : ∀ event ∈ events, ∃ msg iRet, event = .sendRequest msg iRet) :
    finishes client events = [] := by
  rw [finishes, List.filterMap_eq_nil_iff]
  intro event hevent
  obtain ⟨msg, iRet, rfl⟩ := h event hevent
  rfl

/-- What another client does keeps the calls of this one, since it has sockets of its own. -/
theorem Calls.act_other (h : Calls site s notes client calls current results)
    (hother : other ≠ client) {a : Action} {passed : Endpoint → Passed}
    (hpassed : ∀ fd, passed ⟨client, fd⟩ = s.passed ⟨client, fd⟩)
    (hact : act { s with passed } other a = some (s', new)) :
    Calls site s' (notes ++ new) client calls current results := by
  obtain ⟨run, events, -, rfl, rfl⟩ := act_eq_some hact
  obtain ⟨hissued, hfinished⟩ := notes_of_other hother
  exact h.frame (Function.update_of_ne hother.symm ..) hpassed (fun _ => rfl)
    (notes_of_client other _ events).2 hissued hfinished

/-- What is sent by a client that acts is sent on its own sockets: those of the other clients carry
what they carried. -/
theorem sent_act (passed : Endpoint → Passed) (client : ℕ) (run : ProxyRun) (fd : ℕ) :
    sent { s with passed, clients := Function.update s.clients client run } ⟨client, fd⟩ =
      run.proxy.trans.kernel.accepted fd := by
  show (Function.update s.clients client run client).proxy.trans.kernel.accepted fd = _
  rw [Function.update_self]

/-- `invoke` of a client that waits for nothing keeps the account of its calls, whatever becomes of
the message. -/
theorem Calls.invoke (h : Calls site s notes client calls current results)
    (hsound : Sound site s notes) (hready : (s.clients client).Ready) {outcome : ConnectOutcome}
    {answer : SendResult} (hact : s.act client (.invoke msg outcome answer) = some (s', new))
    (hkeys : (s.clients client).proxy.timeoutQueue.data.keys = []) (hanswer : answer ≠ .error)
    (hsize : msg.request.length < 2 ^ 30) :
    (s'.clients client).Ready ∧
      ∃ current' results', Calls site s' (notes ++ new) client calls current' results' := by
  obtain ⟨run, events, hstep, rfl, hnew⟩ := act_eq_some hact
  have hnoServed : servedIn new = [] := hnew ▸ (notes_of_client client _ events).2
  obtain ⟨hissued, hfinished, hserved, hphase⟩ := h
  cases hphase with
  | waiting msg' fd hwaiting =>
    have hmem := mem_keys_of_outstanding ((hwaiting.outstanding _).trans (if_pos rfl))
    rw [hkeys] at hmem
    exact absurd hmem List.not_mem_nil
  | idle hidle =>
    obtain ⟨hready', hsends, hcases⟩ := hready.invoke hstep hkeys hidle.buffer hanswer hsize
    let t : RemoteCalls := { s with clients := Function.update s.clients client run }
    have hclient : t.clients client = run := Function.update_self ..
    have htrans : t.trans client = run.proxy.trans := by rw [trans, hclient]
    have hsent (fd : ℕ) : t.sent ⟨client, fd⟩ = run.proxy.trans.kernel.accepted fd :=
      sent_act s.passed client run fd
    have hissued' : issuedBy client (notes ++ new) =
        calls.map CompletedCall.msg ++ issues (s.clients client) (.invoke msg outcome answer) := by
      rw [issuedBy_append, hissued, hnew, issuedBy_own, Option.toList_none, List.append_nil]
    have hfinished' : finishedBy client (notes ++ new) = calls.map CompletedCall.finished := by
      rw [finishedBy_append, hfinished, hnew, finishedBy_own, finishes_eq_nil client hsends]
      exact List.append_nil _
    have hserved' : servedTo client (notes ++ new) = calls.map CompletedCall.result := by
      rw [servedTo_append, servedTo_eq_nil hnoServed, List.append_nil, hserved, List.append_nil]
    refine ⟨by rwa [← hclient] at hready', ?_⟩
    obtain ⟨hassigns, hbuffer, haccepted, hnone⟩ | ⟨hassigns, hfd, hout, haccepted, hwaits⟩ :=
      hcases
    · refine ⟨none, [], ?_, hfinished', by rw [hserved', List.append_nil], .idle (hidle.congr
        (fun id => ?_) ?_ (fun fd => ?_) (fun _ => rfl) (fun _ => rfl) hnoServed)⟩
      · rw [hissued', issues, hassigns]
        rfl
      · rw [hclient]
        exact hnone id
      · rw [htrans]
        exact hbuffer
      · exact (hsent fd).trans (congrFun haccepted fd)
    · -- Nothing has passed through the new socket.
      let fd := (s.trans client).kernel.created
      let m := (s.clients client).message msg
      have habsent : (⟨client, fd⟩ : Endpoint) ∉ s.peers := fun hmem =>
        absurd (hsound.accounts.created hmem) (lt_irrefl _)
      obtain ⟨hread, hgot, hnone⟩ := hsound.accounts.absent habsent
      obtain ⟨hrequests, hwritten⟩ := hsound.accounts.passed_absent habsent
      have hservedOn : servedOn ⟨client, fd⟩ (notes ++ new) = [] := by
        rw [servedOn_append, hnone, servedOn_eq_nil hnoServed]
        rfl
      have hcarries : Carries site t (notes ++ new) ⟨client, fd⟩ m.sReqData := by
        refine ⟨?_, .inl ⟨hread, hrequests⟩, .inl hservedOn, .inl hwritten⟩
        rw [hsent]
        exact ⟨_, hout⟩
      refine ⟨some m, _, ?_, hfinished', ?_, .waiting m fd ⟨fun id => ?_, ?_, .inl ?_, fun _ => ?_,
        hcarries, fun _ => .inl hgot, fun fd' hne => (hidle.settled fd').congr ?_ rfl rfl
        hnoServed⟩⟩
      · rw [hissued', issues, hassigns]
        rfl
      · rw [hserved', hservedOn, List.append_nil]
      · rw [hclient]
        exact hwaits id
      · exact List.append_ne_nil_of_right_ne_nil _ (List.cons_ne_nil _ _)
      · rw [htrans]
        exact hfd
      · rw [hclient]
        exact hout
      · exact (hsent fd').trans (haccepted fd' hne)

/-- A client stays ready when another one acts, since the two share no member. -/
theorem ready_of_other (h : (s.clients client).Ready) (hother : other ≠ client) {a : Action}
    {passed : Endpoint → Passed} (hact : act { s with passed } other a = some (s', new)) :
    (s'.clients client).Ready := by
  obtain ⟨run, events, -, rfl, -⟩ := act_eq_some hact
  show (Function.update s.clients other run client).Ready
  rw [Function.update_of_ne hother.symm]
  exact h

/-- `handleOutputImp` keeps the calls of a client that is ready: its message was sent whole, or is
sent now. -/
theorem Calls.output (h : Calls site s notes client calls current results)
    (hready : (s.clients client).Ready) {answer : SendResult} {more : List SendResult}
    (hact : s.act client (.output answer more) = some (s', new)) :
    (s'.clients client).Ready ∧ Calls site s' (notes ++ new) client calls current results := by
  obtain ⟨run, events, hstep, rfl, hnew⟩ := act_eq_some hact
  obtain ⟨hready', rfl, hqueue, hfd, hempty, houtgoing, hothers⟩ := hready.output hstep
  obtain rfl : new = [] := hnew
  let t : RemoteCalls := { s with clients := Function.update s.clients client run }
  have hclient : t.clients client = run := Function.update_self ..
  have htrans : t.trans client = run.proxy.trans := by rw [trans, hclient]
  have hsent (fd : ℕ) : t.sent ⟨client, fd⟩ = run.proxy.trans.kernel.accepted fd :=
    sent_act s.passed client run fd
  have hout (id : ℕ) : (t.clients client).proxy.outstanding id =
      (s.clients client).proxy.outstanding id := by
    rw [hclient, outstanding, hqueue]
    rfl
  refine ⟨by rwa [← hclient] at hready', h.congr rfl rfl rfl (fun hidle => ?_)
    fun msg fd hwaiting => ?_⟩
  · obtain ⟨hbuffer, haccepted⟩ := hempty hidle.buffer
    refine hidle.congr (fun id => (hout id).trans (hidle.outstanding id)) ?_ (fun fd => ?_)
      (fun _ => rfl) (fun _ => rfl) rfl
    · rw [htrans]
      exact hbuffer
    · rw [hsent, haccepted]
      rfl
  · have hsame : (t.trans client).fd = (s.trans client).fd := by
      rw [htrans]
      exact hfd
    have hothers' (fd' : ℕ) (hne : fd' ≠ fd) : t.sent ⟨client, fd'⟩ = s.sent ⟨client, fd'⟩ := by
      rw [hsent]
      refine hothers fd' fun hopen => ?_
      obtain hcurrent | hnone := hwaiting.current
      · exact hne (Option.some.inj (hopen.symm.trans hcurrent))
      · exact absurd (hopen.symm.trans hnone) (by simp)
    obtain hcurrent | hnone := hwaiting.current
    · obtain ⟨hkept, hmore⟩ := houtgoing fd hcurrent
      refine hwaiting.congr hout (.inl hsame) (fun _ => ?_) ?_ ?_ hothers' (fun _ => ⟨rfl, rfl⟩) ?_
        (fun _ => rfl) rfl
      · rw [hclient]
        exact hkept
      · rw [hsent]
        exact ⟨_, hkept.trans (hwaiting.outgoing hcurrent)⟩
      · rw [hsent]
        exact hmore
      · exact fun _ => hwaiting.got hcurrent
    · have hkept : t.sent ⟨client, fd⟩ = s.sent ⟨client, fd⟩ := by
        rw [hsent]
        exact hothers fd fun hopen => absurd (hopen.symm.trans hnone) (by simp)
      have hclosed : (t.trans client).fd ≠ some fd := by
        rw [hsame, hnone]
        simp
      refine hwaiting.congr hout (.inl hsame) (fun hopen => absurd hopen hclosed) ?_ ?_ hothers'
        (fun _ => ⟨rfl, rfl⟩) (fun hopen => absurd hopen hclosed) (fun _ => rfl) rfl
      · rw [hkept]
        exact hwaiting.carries.sent
      · rw [hkept]

/-- What `receive` does: the client reads bytes that have arrived, and acts. -/
theorem receive_eq_some (hreceive : s.receive client answers = some (s', new)) :
    ∃ passed, act { s with passed } client (.input answers) = some (s', new) ∧
      (∀ e, (passed e).read = (s.passed e).read ∧ (passed e).written = (s.passed e).written) ∧
      (∀ e, e.client ≠ client → passed e = s.passed e) ∧
      ∀ fd, (s.trans client).fd = some fd → (passed ⟨client, fd⟩).got =
        (s.passed ⟨client, fd⟩).got + (Transceiver.deliveredBy answers).length := by
  unfold receive at hreceive
  split at hreceive
  · rename_i hclosed
    refine ⟨s.passed, hreceive, fun _ => ⟨rfl, rfl⟩, fun _ _ => rfl, fun fd hopen => ?_⟩
    exact absurd (hopen.symm.trans hclosed) (by simp)
  · rename_i fd hopen
    dsimp only at hreceive
    split at hreceive
    · refine ⟨_, hreceive, fun e => ?_, fun e hne => ?_, fun fd' hopen' => ?_⟩
      · rw [Function.update_apply]
        split
        · rename_i heq
          rw [heq]
          exact ⟨rfl, rfl⟩
        · exact ⟨rfl, rfl⟩
      · refine Function.update_of_ne ?_ ..
        rintro rfl
        exact hne rfl
      · obtain rfl := Option.some.inj (hopen.symm.trans hopen')
        rw [Function.update_self]
    · cases hreceive

/-- The response of a message that waits. Its bytes are those that the servant returned for it, and
nothing else waits on the socket. -/
theorem Waiting.response (h : Waiting site s notes client msg fd) (hsound : Sound site s notes)
    (hopen : (s.trans client).fd = some fd) {bytes : Bytes} (hbytes : bytes ≠ [])
    (hall : bytes = s.unseen ⟨client, fd⟩) :
    (s.passed ⟨client, fd⟩).got = 0 ∧ (s.passed ⟨client, fd⟩).written = bytes ∧
      (∃ code, servedOn ⟨client, fd⟩ notes = [(msg.sReqData, .ok (code, bytes))]) ∧
      (s.trans client).sendBuffer.readable = [] ∧ Settled site s notes ⟨client, fd⟩ := by
  obtain ⟨hzero, hwritten⟩ : (s.passed ⟨client, fd⟩).got = 0 ∧
      (s.passed ⟨client, fd⟩).written = bytes := by
    obtain hzero | ⟨hseen, -⟩ := h.got hopen
    · rw [unseen, hzero, List.drop_zero] at hall
      exact ⟨hzero, hall.symm⟩
    · rw [unseen, hseen, List.drop_length] at hall
      exact absurd hall hbytes
  obtain ⟨code, hserved⟩ : ∃ code, servedOn ⟨client, fd⟩ notes =
      [(msg.sReqData, .ok (code, bytes))] := by
    obtain hnone | ⟨code, hserved⟩ := h.carries.written
    · exact absurd (hwritten.symm.trans hnone) hbytes
    · rw [hwritten] at hserved
      exact ⟨code, hserved⟩
  have honce := (hsound.accounts.once ⟨client, fd⟩).length_le
  rw [hserved, List.length_map, List.length_singleton] at honce
  obtain ⟨hread, hsent, hrequest⟩ : (s.passed ⟨client, fd⟩).read = msg.sReqData.length ∧
      s.sent ⟨client, fd⟩ = msg.sReqData ∧ requestsOn site s ⟨client, fd⟩ = [msg.sReqData] := by
    obtain ⟨-, hnone⟩ | ⟨hread, hsent, hone | hnone⟩ := h.carries.read
    · rw [hnone, List.length_nil] at honce
      omega
    · exact ⟨hread, hsent, hone⟩
    · rw [hnone, List.length_nil] at honce
      omega
  refine ⟨hzero, hwritten, ⟨code, hserved⟩, ?_, ?_, ?_⟩
  · have hout : s.sent ⟨client, fd⟩ ++ (s.trans client).sendBuffer.readable = msg.sReqData :=
      h.outgoing hopen
    rw [hsent] at hout
    exact List.append_right_eq_self.mp hout
  · rw [unread, hsent, hread, List.drop_length]
  · rw [hrequest, hserved]
    rfl

/-- `handleInputImp` keeps the calls of a client that is ready: what it reads is nothing or the
response to the call that waits, which then is finished. -/
theorem Calls.input (h : Calls site s notes client calls current results)
    (hsound : Sound site s notes) (hready : (s.clients client).Ready)
    (hsize : ReadResult.totalBytes answers < Transceiver.maxBatch)
    (hwhole : ∀ fd ∈ (s.trans client).fd, Transceiver.deliveredBy answers = [] ∨
      Transceiver.deliveredBy answers = s.unseen ⟨client, fd⟩)
    (hreceive : s.receive client answers = some (s', new)) :
    (s'.clients client).Ready ∧
      ∃ calls' current' results', Calls site s' (notes ++ new) client calls' current' results' := by
  obtain ⟨passed, hact, hpassed, -, hgot⟩ := receive_eq_some hreceive
  obtain ⟨run, events, hstep, rfl, hnew⟩ := act_eq_some hact
  replace hnew : new = finishes client events := hnew
  obtain ⟨hready', haccepted, hcases⟩ := hready.input hsize hstep
  let t : RemoteCalls := { s with passed, clients := Function.update s.clients client run }
  have hclient : t.clients client = run := Function.update_self ..
  have htrans : t.trans client = run.proxy.trans := by rw [trans, hclient]
  have hsent (fd : ℕ) : t.sent ⟨client, fd⟩ = s.sent ⟨client, fd⟩ := by
    refine (sent_act passed client run fd).trans ?_
    rw [haccepted]
    rfl
  have hnoServed : servedIn new = [] := hnew ▸ (notes_of_client client [] events).2
  refine ⟨by rwa [← hclient] at hready', ?_⟩
  obtain ⟨rfl, hclosed, hbuffer, hqueue⟩ | ⟨hopen, hfd, hbuffer, hevents, hrest⟩ := hcases
  · -- The connection is closed.
    obtain rfl : new = [] := hnew
    have hout (id : ℕ) : (t.clients client).proxy.outstanding id =
        (s.clients client).proxy.outstanding id := by
      rw [hclient, outstanding, hqueue]
      rfl
    have hnone : (t.trans client).fd = none := by
      rw [htrans]
      exact hclosed
    refine ⟨calls, current, results, h.congr rfl rfl rfl (fun hidle => ?_)
      fun msg fd hwaiting => ?_⟩
    · refine hidle.congr (fun id => (hout id).trans (hidle.outstanding id)) ?_ hsent
        (fun fd => (hpassed _).1) (fun _ => rfl) rfl
      rw [htrans]
      exact hbuffer
    · have hother : (t.trans client).fd ≠ some fd := by
        rw [hnone]
        simp
      refine hwaiting.congr hout (.inr hnone) (fun hcurrent => absurd hcurrent hother) ?_ ?_
        (fun fd' _ => hsent fd') (fun fd' => hpassed _) (fun hcurrent => absurd hcurrent hother)
        (fun _ => rfl) rfl
      · rw [hsent]
        exact hwaiting.carries.sent
      · rw [hsent]
  generalize Transceiver.deliveredBy answers = bytes at hwhole hgot hevents hrest
  have hcurrent (msg : ReqMessage) (fd : ℕ) (hwaiting : Waiting site s notes client msg fd) :
      (s.trans client).fd = some fd := hwaiting.current.resolve_right hopen
  have hkept : (t.trans client).sendBuffer = (s.trans client).sendBuffer := by
    rw [htrans]
    exact hbuffer
  by_cases hstays : bytes = [] ∨ (s.clients client).proxy.completion bytes = none
  · -- Nothing is finished.
    have hnone : events = [] := by
      rw [hevents]
      split
      · rfl
      · rename_i hne
        rw [hstays.resolve_left hne]
        rfl
    subst hnone
    obtain rfl : new = [] := hnew
    have hout (id : ℕ) : (t.clients client).proxy.outstanding id =
        (s.clients client).proxy.outstanding id := by
      rw [hclient, hrest]
      split
      · rename_i hid
        have hmissing := hstays.resolve_left hid.1
        rw [completion, Option.map_eq_none_iff, ← hid.2] at hmissing
        exact hmissing.symm
      · rfl
    refine ⟨calls, current, results, h.congr rfl rfl rfl (fun hidle => ?_)
      fun msg fd hwaiting => ?_⟩
    · refine hidle.congr (fun id => (hout id).trans (hidle.outstanding id)) ?_ hsent
        (fun fd => (hpassed _).1) (fun _ => rfl) rfl
      rw [hkept]
      exact hidle.buffer
    · have hfd' := hcurrent msg fd hwaiting
      refine hwaiting.congr hout (.inl (by rw [htrans]; exact hfd)) (fun _ => ?_) ?_ ?_
        (fun fd' _ => hsent fd') (fun fd' => hpassed _) (fun _ => ?_) (fun _ => rfl) rfl
      · show t.sent ⟨client, fd⟩ ++ (t.trans client).sendBuffer.readable =
          s.sent ⟨client, fd⟩ ++ (s.trans client).sendBuffer.readable
        rw [hsent, hkept]
      · rw [hsent]
        exact hwaiting.carries.sent
      · rw [hsent]
      · show (passed ⟨client, fd⟩).got = 0 ∨ _
        rw [hgot fd hfd']
        by_cases hempty : bytes = []
        · rw [hempty, List.length_nil, Nat.add_zero]
          exact hwaiting.got hfd'
        · obtain ⟨hzero, hwritten, -⟩ := hwaiting.response hsound hfd' hempty
            ((hwhole fd hfd').resolve_left hempty)
          rw [hzero, Nat.zero_add, hwritten]
          exact .inr ⟨rfl, hempty⟩
  · -- The message is finished.
    push Not at hstays
    obtain ⟨hne, hfinds⟩ := hstays
    obtain ⟨hissued, hfinished, hserved, hphase⟩ := h
    cases hphase with
    | idle hidle =>
      rw [completion, hidle.outstanding] at hfinds
      exact absurd rfl hfinds
    | waiting msg fd hwaiting =>
      have hfd' := hcurrent msg fd hwaiting
      obtain ⟨hzero, hwritten, ⟨code, hone⟩, hsentAll, hsettled⟩ :=
        hwaiting.response hsound hfd' hne ((hwhole fd hfd').resolve_left hne)
      have hid : idOf bytes = toUInt32 msg.iRequestId := by
        by_contra hother
        rw [completion, hwaiting.outstanding, if_neg hother] at hfinds
        exact hfinds rfl
      have hcompletion : (s.clients client).proxy.completion bytes =
          some (.finishInvoke (finishInvokeMsg { msg with response := bytes })) := by
        rw [completion, hwaiting.outstanding, if_pos hid]
        rfl
      have hnew' : new = [.finished client (finishInvokeMsg { msg with response := bytes })] := by
        rw [hnew, hevents, if_neg hne, hcompletion]
        rfl
      let r : CompletedCall := ⟨msg, code, bytes⟩
      have hservedTo : servedTo client (notes ++ new) =
          (calls ++ [r]).map CompletedCall.result := by
        rw [servedTo_append, servedTo_eq_nil hnoServed, List.append_nil, hserved, hone,
          List.map_append]
        rfl
      refine ⟨calls ++ [r], none, [], ?_, ?_, ?_, .idle ⟨fun id => ?_, ?_, fun fd₁ => ?_⟩⟩
      · rw [issuedBy_append, hissued, hnew', List.map_append]
        simp [issuedBy, r]
      · have hone' : finishedBy client [.finished client r.finished] = [r.finished] :=
          List.filterMap_cons_some (if_pos rfl)
        rw [finishedBy_append, hfinished, hnew', List.map_append]
        exact congrArg (_ ++ ·) hone'
      · rw [hservedTo, List.append_nil]
      · show (t.clients client).proxy.outstanding id = none
        rw [hclient, hrest, hwaiting.outstanding]
        by_cases hsame : id = idOf bytes
        · exact if_pos ⟨hne, hsame⟩
        · rw [if_neg fun hboth => hsame hboth.2, if_neg (hid ▸ hsame)]
      · show (t.trans client).sendBuffer.readable = []
        rw [hkept]
        exact hsentAll
      · have hold : Settled site s notes ⟨client, fd₁⟩ := by
          by_cases hsame : fd₁ = fd
          · rw [hsame]
            exact hsettled
          · exact hwaiting.settled fd₁ hsame
        exact hold.congr (hsent fd₁) (hpassed _).1 rfl hnoServed

/-- What holds of clients and server while a client makes single calls. -/
structure Matches (site : Site) (client : ℕ) (s : RemoteCalls) (notes : List RemoteNote) :
    Prop where
  /-- The clients and the server are sound together. -/
  sound : Sound site s notes
  /-- The client is ready: nothing of an earlier call is left in it. -/
  ready : (s.clients client).Ready
  /-- Its calls so far have the results that their responses gave. -/
  calls : ∃ calls current results, Calls site s notes client calls current results

/-- At the start a client has no calls, and nothing is on the way. -/
theorem matches_start (site : Site) (client : ℕ) : Matches site client start [] where
  sound := sound_start site
  ready := ProxyRun.ready_new
  calls := ⟨[], none, [], rfl, rfl, rfl, .idle ⟨fun _ => rfl, TCBuffer.readable_new,
    fun _ => ⟨rfl, rfl⟩⟩⟩

/-- **One step** in which the messages of a client are not cut. -/
theorem Matches.step (h : Matches site client s notes) {b : RemoteAction}
    (hwhole : Whole client s b) (hstep : s.step site b = some (s', new)) :
    Matches site client s' (notes ++ new) := by
  have hsound := h.sound.step hstep
  obtain ⟨calls, current, results, hcalls⟩ := h.calls
  by_cases hof : OfServer b
  · have hserver := serverStep h.sound.accounts h.sound.responds hof hstep
    refine ⟨hsound, ?_, calls, current, hcalls.serverStep hserver hwhole⟩
    rw [hserver.clients]
    exact h.ready
  · cases b with
    | invoke other msg outcome answer =>
      by_cases hsame : other = client
      · subst hsame
        obtain ⟨hkeys, hanswer, hsize⟩ := hwhole rfl
        obtain ⟨hready, hnext⟩ := hcalls.invoke h.sound h.ready hstep hkeys hanswer hsize
        exact ⟨hsound, hready, calls, hnext⟩
      · exact ⟨hsound, ready_of_other h.ready hsame hstep, calls, current, results,
          hcalls.act_other hsame (fun _ => rfl) hstep⟩
    | output other answer more =>
      by_cases hsame : other = client
      · subst hsame
        obtain ⟨hready, hnext⟩ := hcalls.output h.ready hstep
        exact ⟨hsound, hready, calls, current, results, hnext⟩
      · exact ⟨hsound, ready_of_other h.ready hsame hstep, calls, current, results,
          hcalls.act_other hsame (fun _ => rfl) hstep⟩
    | input other answers =>
      by_cases hsame : other = client
      · subst hsame
        obtain ⟨hsize, hbytes⟩ := hwhole rfl
        obtain ⟨hready, hnext⟩ := hcalls.input h.sound h.ready hsize hbytes hstep
        exact ⟨hsound, hready, hnext⟩
      · obtain ⟨passed, hact, -, hothers, -⟩ := receive_eq_some hstep
        have hpassed (fd : ℕ) : passed ⟨client, fd⟩ = s.passed ⟨client, fd⟩ :=
          hothers _ fun heq => hsame heq.symm
        exact ⟨hsound, ready_of_other h.ready hsame hact, calls, current, results,
          hcalls.act_other hsame hpassed hact⟩
    | _ => exact absurd trivial hof

end Acts

/-- The calls of a client are matched with those of servants. -/
structure Matched (site : Site) (client : ℕ) (notes : List RemoteNote) (calls : List CompletedCall)
    (current : Option ReqMessage) (results : List (Bytes × Outcome)) : Prop where
  /-- The messages that were sent. -/
  issued : issuedBy client notes = calls.map CompletedCall.msg ++ current.toList
  /-- Those that were finished, with what the servant returned for them. -/
  finished : finishedBy client notes = calls.map CompletedCall.finished
  /-- Each of them was served once. -/
  served : servedTo client notes = calls.map CompletedCall.result ++ results
  /-- The one that waits was served at most once. -/
  waits : results = [] ∨ ∃ msg outcome, current = some msg ∧ results = [(msg.sReqData, outcome)]
  /-- They were served by the servant of the adapter that the client wants. -/
  routed : ∀ p ∈ servedTo client notes, ∃ call,
    p.2 = (site.servant (site.target client)).dispatch call p.1

/-- **Calls are matched**, in every run of any number of clients, network threads and handlers in
which one client makes one call after the other and its messages are not cut. Every call that it has
finished was served exactly once, and its response is the buffer that the servant of its adapter
returned for it. A call that waits was served at most once, and nothing else was served for this
client. -/
theorem calls_matched {site : Site} {client : ℕ} {script : List RemoteAction} {s : RemoteCalls}
    {notes : List RemoteNote}
    (hwhole : Scripts.Along (step site) (Whole client) start script)
    (hexec : Scripts.exec (step site) start script = some (s, notes)) :
    ∃ calls current results, Matched site client notes calls current results := by
  have hmatches : Matches site client s ([] ++ notes) :=
    Scripts.exec_invariant_outputs [] (fun _ _ _ _ _ h hC hstep => h.step hC hstep)
      (matches_start site client) hwhole hexec
  obtain ⟨calls, current, results, hissued, hfinished, hserved, hphase⟩ := hmatches.calls
  refine ⟨calls, current, results, hissued, hfinished, hserved, ?_, fun p hp => ?_⟩
  · cases hphase with
    | idle => exact .inl rfl
    | waiting msg fd hwaiting =>
      refine hwaiting.carries.served.imp_right fun ⟨outcome, hone⟩ => ⟨msg, outcome, rfl, hone⟩
  · obtain ⟨q, hq, rfl⟩ := List.mem_map.mp hp
    obtain ⟨hmem, hclient⟩ := List.mem_filter.mp hq
    obtain ⟨call, hcall⟩ := hmatches.sound.accounts.routed q hmem
    rw [of_decide_eq_true hclient] at hcall
    exact ⟨call, hcall⟩

/-- The first client has finished a call and waits for the second one. -/
theorem calls_matched_sample : ∃ s notes,
    Scripts.exec (step nodeSite) start twoClients = some (s, notes) ∧
      (finishedBy 0 notes).map ReqMessage.response = [bytes "1:server is activating"] ∧
      (issuedBy 0 notes).map ReqMessage.sReqData =
        [bytes "1:startServer:x", bytes "2:startServer:x"] ∧
      ∃ calls current results, Matched nodeSite 0 notes calls current results := by
  have hwhole : Scripts.Along (step nodeSite) (Whole 0) start twoClients := by decide +kernel
  have hsome : (Scripts.exec (step nodeSite) start twoClients).map (fun r =>
      ((finishedBy 0 r.2).map ReqMessage.response, (issuedBy 0 r.2).map ReqMessage.sReqData)) =
        some ([bytes "1:server is activating"],
          [bytes "1:startServer:x", bytes "2:startServer:x"]) := by decide +kernel
  obtain ⟨⟨s, notes⟩, hexec, hlists⟩ := Option.map_eq_some_iff.mp hsome
  obtain ⟨hfinished, hissued⟩ := Prod.mk.inj hlists
  exact ⟨s, notes, hexec, hfinished, hissued, calls_matched hwhole hexec⟩

end RemoteCalls

end Tars
