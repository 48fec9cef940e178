import Tars.Client.ProxyRuns

/-!
# The stream of requests on each socket

A request may be cut between the socket and the send buffer, and `connect` may replace the
socket in between. As long as it only does so when the buffer is empty or holds a whole
request, each socket carries complete requests, of which at most the last one is cut.
-/

namespace Tars

/-- The bytes are the concatenation of the requests, except that the last request may be
cut to a proper prefix. -/
def CompleteUpToLast (bs : Bytes) (requests : List Bytes) : Prop :=
  bs = requests.flatten ∨ ∃ front last part, requests = front ++ [last] ∧ part <+: last ∧
    part ≠ last ∧ bs = front.flatten ++ part

/-- The requests of a log that went to a socket, in call order. -/
def assigned (log : List (ℕ × Bytes)) (socket : ℕ) : List Bytes :=
  (log.filter (·.1 = socket)).map Prod.snd

/-- Without requests there are no bytes that are complete up to the last one. -/
theorem completeUpToLast_nil {bs : Bytes} : CompleteUpToLast bs [] ↔ bs = [] := by
  simp [CompleteUpToLast]

@[simp] theorem assigned_nil (socket : ℕ) : assigned [] socket = [] := rfl

@[simp] theorem assigned_append (log log' : List (ℕ × Bytes)) (socket : ℕ) :
    assigned (log ++ log') socket = assigned log socket ++ assigned log' socket := by
  simp [assigned]

@[simp] theorem assigned_singleton (fd : ℕ) (request : Bytes) (socket : ℕ) :
    assigned [(fd, request)] socket = if fd = socket then [request] else [] := by
  by_cases heq : fd = socket <;> simp [assigned, heq]

/-- Nothing was assigned to a socket that the log does not mention. -/
theorem assigned_eq_nil {log : List (ℕ × Bytes)} {socket : ℕ}
    (h : ∀ entry ∈ log, entry.1 ≠ socket) : assigned log socket = [] := by
  simpa [assigned, List.filter_eq_nil_iff] using fun fd request hmem => h (fd, request) hmem

namespace Transceiver

/-- A log that says for every transmitted request to which socket it belongs. -/
structure Streams (t : Transceiver) (log : List (ℕ × Bytes)) : Prop where
  /-- The transceiver is well formed. -/
  wf : t.WF
  /-- The current socket was created. -/
  fd_lt : ∀ socket, t.fd = some socket → socket < t.kernel.created
  /-- The sockets of the log were created. -/
  log_lt : ∀ entry ∈ log, entry.1 < t.kernel.created
  /-- A socket that was not created carries nothing. -/
  fresh : ∀ socket, t.kernel.created ≤ socket → t.kernel.accepted socket = []
  /-- The other sockets carry their requests, the last one maybe cut. -/
  others : ∀ socket, t.fd ≠ some socket →
    CompleteUpToLast (t.kernel.accepted socket) (assigned log socket)
  /-- The current socket carries all its requests, or the send buffer holds the rest of
  the one that was transmitted last. -/
  current : ∀ socket, t.fd = some socket →
    t.sendBuffer.readable = [] ∧ t.kernel.accepted socket = (assigned log socket).flatten ∨
    t.sendBuffer.readable ≠ [] ∧ ∃ front last part, log = front ++ [(socket, last)] ∧
      part ++ t.sendBuffer.readable = last ∧
      t.kernel.accepted socket = (assigned front socket).flatten ++ part

/-- A new transceiver has transmitted nothing, on no socket. -/
theorem streams_new : new.Streams [] :=
  ⟨wf_new, by simp [new], by simp, by simp [new, Kernel.new],
    by simp [new, Kernel.new, completeUpToLast_nil], by simp [new]⟩

section Operations

variable {t t' : Transceiver} {log : List (ℕ × Bytes)}

/-- In a state with streams every socket carries complete requests up to the last. -/
theorem Streams.complete (h : t.Streams log) (socket : ℕ) :
    CompleteUpToLast (t.kernel.accepted socket) (assigned log socket) := by
  by_cases hcur : t.fd = some socket
  · obtain ⟨-, hall⟩ | ⟨hne, front, last, part, rfl, rfl, haccepted⟩ := h.current socket hcur
    · exact .inl hall
    · refine .inr ⟨assigned front socket, part ++ t.sendBuffer.readable, part, by simp,
        List.prefix_append _ _, ?_, haccepted⟩
      simpa using hne
  · exact h.others socket hcur

/-- What only touches the receive buffer keeps the streams. -/
theorem Streams.recvBuffer (h : t.Streams log) (b : TCBuffer) :
    Streams { t with recvBuffer := b } log :=
  ⟨⟨h.wf.send_wf, h.wf.closed_empty⟩, h.fd_lt, h.log_lt, h.fresh, h.others, h.current⟩

/-- Closing a socket cuts at most the request that was transmitted last. -/
theorem Streams.close (h : t.Streams log) : t.close.Streams log := by
  unfold Transceiver.close
  cases hfd : t.fd with
  | none => exact h
  | some fd =>
    exact ⟨⟨h.wf.send_wf.clear_spec.1, fun _ => h.wf.send_wf.clear_spec.2⟩, by simp,
      h.log_lt, h.fresh, fun socket _ => h.complete socket, by simp⟩

/-- `doResponse` keeps the streams: it may close the socket, and sends nothing. -/
theorem Streams.doResponse (h : t.Streams log) {answers : List ReadResult} {done : List Bytes}
    {ret : ℤ} (hread : t.doResponse answers = some (t', done, ret)) : t'.Streams log := by
  obtain ⟨b, rfl⟩ | ⟨b, b', rfl⟩ := doResponse_cases hread
  · exact h.recvBuffer b
  · exact (h.recvBuffer b).close.recvBuffer b'

/-- When the kernel takes bytes on the current socket, only the account of that socket is
to be shown. -/
theorem Streams.accept (h : t.Streams log) {fd : ℕ} {bs : Bytes} {more : List (ℕ × Bytes)}
    (hwf : t'.WF) (hfd : t.fd = some fd) (hfd' : t'.fd = t.fd)
    (hkernel : t'.kernel = t.kernel.accept fd bs) (hmore : ∀ entry ∈ more, entry.1 = fd)
    (hcurrent :
      t'.sendBuffer.readable = [] ∧
          t.kernel.accepted fd ++ bs = (assigned (log ++ more) fd).flatten ∨
        t'.sendBuffer.readable ≠ [] ∧ ∃ front last part, log ++ more = front ++ [(fd, last)] ∧
          part ++ t'.sendBuffer.readable = last ∧
          t.kernel.accepted fd ++ bs = (assigned front fd).flatten ++ part) :
    t'.Streams (log ++ more) := by
  have hlt := h.fd_lt fd hfd
  have hcreated : t'.kernel.created = t.kernel.created := by
    rw [hkernel]
    rfl
  have hsame : t'.kernel.accepted fd = t.kernel.accepted fd ++ bs := by
    rw [hkernel]
    exact if_pos rfl
  have hother {socket : ℕ} (hne : socket ≠ fd) :
      t'.kernel.accepted socket = t.kernel.accepted socket := by
    rw [hkernel]
    exact if_neg hne
  refine ⟨hwf, fun socket hs => ?_, fun entry hentry => ?_, fun socket hs => ?_,
    fun socket hs => ?_, fun socket hs => ?_⟩
  · rw [hcreated]
    exact h.fd_lt socket (hfd' ▸ hs)
  · rw [hcreated]
    obtain hentry | hentry := List.mem_append.mp hentry
    · exact h.log_lt entry hentry
    · rw [hmore entry hentry]
      exact hlt
  · rw [hcreated] at hs
    rw [hother (by omega)]
    exact h.fresh socket hs
  · have hne : socket ≠ fd := by
      rintro rfl
      exact hs (hfd'.trans hfd)
    rw [hfd'] at hs
    have hnone : assigned more socket = [] :=
      assigned_eq_nil fun entry hentry => hmore entry hentry ▸ hne.symm
    rw [hother hne, assigned_append, hnone, List.append_nil]
    exact h.others socket hs
  · obtain rfl := Option.some.inj (hs.symm.trans (hfd'.trans hfd))
    rw [hsame]
    exact hcurrent

/-- Bytes of which nothing remains behind the first `n` were all taken. -/
private theorem take_of_drop_nil {bs : Bytes} {n : ℕ} (h : bs.drop n = []) : bs.take n = bs := by
  conv_rhs => rw [← List.take_append_drop n bs, h, List.append_nil]

/-- The flush of `doRequest` completes the request that was transmitted last. -/
theorem Streams.flush (h : t.Streams log) {answer : SendResult} {ret : Option ℤ}
    (hflush : t.flush answer = some (t', ret)) : t'.Streams log := by
  obtain ⟨u, ret', hflush', hwf, hfd', -, hmoved⟩ := h.wf.flush_spec answer
  obtain ⟨rfl, rfl⟩ := Prod.mk.inj (Option.some.inj (hflush.symm.trans hflush'))
  obtain rfl | ⟨fd, n, hfd, hn, hkernel, hrest⟩ := hmoved
  · exact h
  · rw [← List.append_nil log]
    refine h.accept hwf hfd hfd' hkernel (by simp) ?_
    rw [List.append_nil]
    obtain ⟨hempty, hall⟩ | ⟨-, front, last, part, rfl, rfl, haccepted⟩ := h.current fd hfd
    · refine .inl ⟨by rw [hrest, hempty, List.drop_nil], ?_⟩
      rw [hempty, List.take_nil, List.append_nil, hall]
    · by_cases hdone : t'.sendBuffer.readable = []
      · refine .inl ⟨hdone, ?_⟩
        rw [haccepted, take_of_drop_nil (hrest ▸ hdone)]
        simp
      · refine .inr ⟨hdone, front, _, part ++ t.sendBuffer.readable.take n, rfl, ?_, ?_⟩
        · rw [hrest, List.append_assoc, List.take_append_drop]
        · rw [haccepted, List.append_assoc]

/-- A request that is not refused is the next one on the current socket. -/
theorem Streams.sendRequest (h : t.Streams log) {pData : Bytes} {answer : SendResult} {iRet : ℤ}
    (hlen : pData.length < 2 ^ 31) (hsend : t.sendRequest pData answer = some (t', iRet)) :
    iRet = eRetError ∧ t'.Streams log ∨
      iRet ≠ eRetError ∧ ∃ fd, t'.Streams (log ++ [(fd, pData)]) := by
  by_cases hrefuse : t.Refuses answer
  · rw [sendRequest_of_refuses hrefuse] at hsend
    obtain ⟨rfl, rfl⟩ := Prod.mk.inj (Option.some.inj hsend)
    exact .inl ⟨rfl, h⟩
  · have hfits : pData.length ≤ 2 ^ 62 := by omega
    obtain ⟨fd, n, u, iRet', hfd, hn, hsend', hret, hwf, hfd', hempty, -, hkernel, hrest⟩ :=
      h.wf.sendRequest_of_accepts (Transceiver.rest_le hfits) hrefuse
    obtain ⟨rfl, rfl⟩ := Prod.mk.inj (Option.some.inj (hsend.symm.trans hsend'))
    rw [if_pos (keepsTail_of_lt hlen (sendCount_le hn).1)] at hrest
    have hall : t.kernel.accepted fd = (assigned log fd).flatten := by
      obtain ⟨-, hall⟩ | ⟨hne, -⟩ := h.current fd hfd
      · exact hall
      · exact absurd hempty hne
    refine .inr ⟨hret, fd, h.accept hwf hfd hfd' hkernel (by simp) ?_⟩
    by_cases hdone : t'.sendBuffer.readable = []
    · refine .inl ⟨hdone, ?_⟩
      rw [hall, take_of_drop_nil (hrest ▸ hdone)]
      simp
    · refine .inr ⟨hdone, log, pData, pData.take n, rfl, ?_, ?_⟩
      · rw [hrest, List.take_append_drop]
      · rw [hall]

/-- A `connect` that does not assign a socket keeps the streams. -/
theorem Streams.connect_fails (h : t.Streams log) {outcome : ConnectOutcome}
    (hfails : outcome.assigns = false) : (t.connect outcome).1.Streams log := by
  have hfd : (t.connect outcome).1.fd = t.fd := by rw [connect_fd, hfails]; rfl
  have hbuffer := connect_sendBuffer (t := t) outcome
  have haccepted := connect_accepted (t := t) outcome
  have hcreated := connect_created_le (t := t) outcome
  refine ⟨h.wf.connect outcome, fun socket hs => ?_, fun entry hentry => ?_,
    fun socket hs => ?_, ?_, ?_⟩
  · exact Nat.lt_of_lt_of_le (h.fd_lt socket (hfd ▸ hs)) hcreated
  · exact Nat.lt_of_lt_of_le (h.log_lt entry hentry) hcreated
  · rw [haccepted]
    exact h.fresh socket (Nat.le_trans hcreated hs)
  · rw [hfd, haccepted]
    exact h.others
  · rw [hfd, haccepted, hbuffer]
    exact h.current

/-- A `connect` that assigns a new socket keeps the streams if the send buffer is empty or
holds the whole request that was transmitted last. That request then belongs to the new
socket. -/
theorem Streams.connect_assigns (h : t.Streams log) {outcome : ConnectOutcome}
    (hassigns : outcome.assigns = true)
    (hwhole : t.sendBuffer.readable = [] ∨
      (log.map Prod.snd).getLast? = some t.sendBuffer.readable) :
    ∃ log', log'.map Prod.snd = log.map Prod.snd ∧ (t.connect outcome).1.Streams log' := by
  have hfd : (t.connect outcome).1.fd = some t.kernel.created := by
    rw [connect_fd, hassigns]
    rfl
  have hbuffer := connect_sendBuffer (t := t) outcome
  have haccepted := connect_accepted (t := t) outcome
  have hcreated := connect_created (t := t) hassigns
  have hnew : t.kernel.accepted t.kernel.created = [] := h.fresh _ le_rfl
  have hunused {front : List (ℕ × Bytes)} (hsub : front ⊆ log) :
      assigned front t.kernel.created = [] :=
    assigned_eq_nil fun entry hentry => Nat.ne_of_lt (h.log_lt entry (hsub hentry))
  by_cases hempty : t.sendBuffer.readable = []
  · refine ⟨log, rfl, h.wf.connect outcome, fun socket hs => ?_, fun entry hentry => ?_,
      fun socket hs => ?_, fun socket _ => ?_, fun socket hs => .inl ⟨?_, ?_⟩⟩
    · obtain rfl := Option.some.inj (hfd.symm.trans hs)
      omega
    · have := h.log_lt entry hentry
      omega
    · rw [haccepted]
      exact h.fresh socket (by omega)
    · rw [haccepted]
      exact h.complete socket
    · rw [hbuffer, hempty]
    · obtain rfl := Option.some.inj (hfd.symm.trans hs)
      rw [haccepted, hnew, hunused (List.Subset.refl log), List.flatten_nil]
  · -- the buffered request is the last one of the log, and none of it was sent
    have hlast := hwhole.resolve_left hempty
    obtain ⟨old, hold⟩ : ∃ old, t.fd = some old :=
      Option.ne_none_iff_exists'.mp fun hnone => hempty (h.wf.closed_empty hnone)
    obtain ⟨hnone, -⟩ | ⟨-, front, last, part, rfl, rfl, hpart⟩ := h.current old hold
    · exact absurd hnone hempty
    have hzero : part = [] := by
      simpa using hlast
    subst hzero
    simp only [List.nil_append, List.append_nil] at hpart ⊢
    refine ⟨front ++ [(t.kernel.created, t.sendBuffer.readable)], by simp,
      h.wf.connect outcome, fun socket hs => ?_, fun entry hentry => ?_,
      fun socket hs => ?_, fun socket hs => ?_, fun socket hs => .inr ⟨?_, ?_⟩⟩
    · obtain rfl := Option.some.inj (hfd.symm.trans hs)
      omega
    · rw [hcreated]
      obtain hentry | hentry := List.mem_append.mp hentry
      · exact Nat.lt_succ_of_lt (h.log_lt entry (List.mem_append_left _ hentry))
      · rw [List.mem_singleton.mp hentry]
        exact Nat.lt_succ_self _
    · rw [haccepted]
      exact h.fresh socket (by omega)
    · have hne : t.kernel.created ≠ socket := by
        rintro rfl
        exact hs hfd
      rw [haccepted, assigned_append, assigned_singleton, if_neg hne, List.append_nil]
      by_cases hcur : old = socket
      · subst hcur
        exact .inl hpart
      · have hothers := h.others socket (by simpa [hold] using hcur)
        rwa [assigned_append, assigned_singleton, if_neg hcur, List.append_nil] at hothers
    · rwa [hbuffer]
    · obtain rfl := Option.some.inj (hfd.symm.trans hs)
      refine ⟨front, t.sendBuffer.readable, [], rfl, by rw [hbuffer]; rfl, ?_⟩
      rw [haccepted, hnew, hunused (List.subset_append_left _ _)]
      rfl

end Operations

end Transceiver

namespace ObjectProxy

variable {o o' : ObjectProxy} {sent : List Bytes} {events : List Event} {ended : Bool}

/-- The transmitted requests, in call order, can be attributed to the sockets. -/
def Attributed (t : Transceiver) (sent : List Bytes) : Prop :=
  ∃ log, log.map Prod.snd = sent ∧ t.Streams log

/-- `sendRequest` of a short request extends the attribution: its bytes are given to the current
socket, and what the kernel did not take waits for it. -/
theorem Attributed.sendRequest {t t' : Transceiver} (h : Attributed t sent) {msg : ReqMessage}
    {answer : SendResult} {iRet : ℤ} (hlen : msg.sReqData.length < 2 ^ 31)
    (hsend : t.sendRequest msg.sReqData answer = some (t', iRet)) :
    Attributed t'
      (sent ++ (transmitted [.sendRequest msg iRet]).map ReqMessage.sReqData) := by
  obtain ⟨log, rfl, hstreams⟩ := h
  obtain ⟨rfl, hnext⟩ | ⟨hret, fd, hnext⟩ := hstreams.sendRequest hlen hsend
  · exact ⟨log, by simp, hnext⟩
  · exact ⟨log ++ [(fd, msg.sReqData)], by simp [hret], hnext⟩

/-- `doRequest` extends the attribution by the messages that it transmits. -/
theorem Attributed.doRequest (h : Attributed o.trans sent)
    (hshort : o.Stores fun msg => msg.sReqData.length < 2 ^ 31) {answer : SendResult}
    {answers : List SendResult}
    (hrun : o.doRequest answer answers = some (o', events, ended)) :
    Attributed o'.trans (sent ++ (transmitted events).map ReqMessage.sReqData) := by
  obtain ⟨log, rfl, hstreams⟩ := h
  obtain ⟨trans, ret, hflush, ⟨-, rfl, rfl⟩ | ⟨-, hloop⟩⟩ := doRequest_cases hrun
  · exact ⟨log, by simp, hstreams.flush hflush⟩
  · refine doInvoke_rule (I := fun t past =>
      Attributed t (log.map Prod.snd ++ (transmitted past).map ReqMessage.sReqData)) [] ?_
      ⟨log, by simp, hstreams.flush hflush⟩ hloop
    intro msg t t' answer iRet past hget _ hpast hsend
    have hnext := hpast.sendRequest (hshort.getSend hget) hsend
    rwa [List.append_assoc, ← List.map_append, ← transmitted_append] at hnext

end ObjectProxy

namespace ProxyRun

open ObjectProxy Scripts

/-- A new request is shorter than `2 ^ 31` bytes, and its `connect` assigns a socket only
when the send buffer is empty or holds the whole request that was transmitted last. -/
def KeepsRequestsWhole (s : ProxyRun) : Action → Prop
  | .invoke msg outcome _ =>
    (serialise msg s.proxy.generateId).sReqData.length < 2 ^ 31 ∧
      (outcome.assigns = true → s.proxy.trans.sendBuffer.readable = [] ∨
        (s.sent.map ReqMessage.sReqData).getLast? = some s.proxy.trans.sendBuffer.readable)
  | _ => True

/-- The stored requests are short and the transmitted ones attributed to sockets. -/
structure HasStreams (s : ProxyRun) : Prop where
  /-- Every stored request is shorter than `2 ^ 31` bytes. -/
  short : s.proxy.Stores fun msg => msg.sReqData.length < 2 ^ 31
  /-- The transmitted requests are attributed. -/
  attributed : Attributed s.proxy.trans (s.sent.map ReqMessage.sReqData)

/-- A step that keeps requests whole keeps the streams. -/
theorem HasStreams.step {s s' : ProxyRun} {a : Action} {events : List Event}
    (h : s.HasStreams) (hwhole : s.KeepsRequestsWhole a)
    (hstep : s.step a = some (s', events)) : s'.HasStreams := by
  cases a with
  | invoke msg outcome answer =>
    obtain ⟨returned, hinvoke, -, hsent⟩ := step_invoke hstep
    obtain ⟨hlen, hwhole⟩ := hwhole
    refine ⟨h.short.invoke (show (serialise { msg with addr := s.created }
      s.proxy.generateId).sReqData.length < 2 ^ 31 from hlen) hinvoke, ?_⟩
    obtain ⟨log, hlog, hstreams⟩ := h.attributed
    obtain ⟨hfails, -, rfl, hproxy⟩ | ⟨hassigns, -, trans, hasSend, handed, hhanded, heq⟩ :=
      invoke_cases hinvoke
    · refine ⟨log, by rw [hsent]; simpa using hlog, ?_⟩
      rw [hproxy]
      exact hstreams.connect_fails hfails
    · obtain ⟨hproxy, rfl⟩ := Prod.mk.inj heq
      obtain ⟨htrans, -, hnone⟩ := pushMessage_frame
        (o := ⟨trans, s.proxy.timeoutQueue, s.proxy.generateId⟩)
        hasSend
      have hconnected : Attributed (s.proxy.trans.connect outcome).1
          (s.sent.map ReqMessage.sReqData) := by
        rw [← hlog] at hwhole
        obtain ⟨log', hlog', hnext⟩ := hstreams.connect_assigns hassigns (hwhole hassigns)
        exact ⟨log', hlog'.trans hlog, hnext⟩
      rw [hproxy, htrans, hsent, transmitted_append, hnone, List.append_nil, List.map_append]
      obtain ⟨-, rfl, -, rfl⟩ | ⟨-, iRet, hsend, -, rfl⟩ := hhanded
      · simpa using hconnected
      · exact hconnected.sendRequest hlen hsend
  | output answer answers =>
    obtain ⟨hrequest, -, hsent⟩ := step_output hstep
    refine ⟨h.short.doRequest hrequest, ?_⟩
    rw [hsent, List.map_append]
    exact h.attributed.doRequest h.short hrequest
  | input answers =>
    obtain ⟨hinput, -, hsent⟩ := step_input hstep
    refine ⟨h.short.handleInputImp hinput, ?_⟩
    rw [transmitted_handleInputImp hinput, List.append_nil] at hsent
    obtain ⟨log, hlog, hstreams⟩ := h.attributed
    refine ⟨log, hsent ▸ hlog, ?_⟩
    obtain ⟨trans, done, ret, hread, ⟨-, hall⟩ | ⟨-, hproxy, -⟩⟩ := handleInputImp_cases hinput
    · obtain ⟨hproxy, -⟩ := Prod.mk.inj hall
      rw [hproxy, (finishAll_frame (o := { s.proxy with trans }) done).1]
      exact hstreams.doResponse hread
    · rw [hproxy]
      exact hstreams.doResponse hread

/-- **Every socket carries whole requests.** In a run whose steps keep requests whole, the
transmitted requests can be attributed to the sockets, in call order, such that the bytes
accepted on each socket are the concatenation of its requests, of which at most the last
one is cut to a proper prefix. -/
theorem sockets_carry_whole_requests (script : List Action) (s : ProxyRun)
    (events : List Event) (hexec : exec step new script = some (s, events))
    (hwhole : Along step KeepsRequestsWhole new script) :
    ∃ log : List (ℕ × Bytes), log.map Prod.snd = s.sent.map ReqMessage.sReqData ∧
      ∀ socket, CompleteUpToLast (s.proxy.trans.kernel.accepted socket) (assigned log socket) := by
  have hinit : HasStreams new := ⟨stores_new _, [], rfl, Transceiver.streams_new⟩
  obtain ⟨-, log, hlog, hstreams⟩ := exec_invariant
    (fun s a s' es h hC hstep => HasStreams.step h hC hstep) hinit hwhole hexec
  exact ⟨log, hlog, hstreams.complete⟩

/-- A request of which three bytes are sent before the socket takes no more; later it takes
the rest. -/
def wholeScript : List Action :=
  [.invoke sampleMessage .connected (.accepted 3), .output (.accepted 100) [.error]]

/-- The statement on the run of `wholeScript`, in which a request is sent in two parts. -/
theorem sockets_carry_whole_requests_sample :
    ∃ s events, exec step new wholeScript = some (s, events) ∧
      ∃ log : List (ℕ × Bytes), log.map Prod.snd = s.sent.map ReqMessage.sReqData ∧
        ∀ socket,
          CompleteUpToLast (s.proxy.trans.kernel.accepted socket) (assigned log socket) :=
  ⟨_, _, rfl, sockets_carry_whole_requests wholeScript _ _ rfl
    ⟨⟨by decide, fun _ => .inl rfl⟩, fun _ _ _ => ⟨trivial, fun _ _ _ => trivial⟩⟩⟩

/-- The same first request, but a second one connects before the rest is sent. -/
def replacedScript : List Action :=
  [.invoke sampleMessage .connected (.accepted 3), .invoke sampleMessage .connected .again,
    .output (.accepted 100) [.error]]

/-- **A request is torn apart.** After `replacedScript` the first socket has the beginning of
the only transmitted request and the second socket has its tail. -/
theorem request_torn_apart :
    ∃ s events, exec step new replacedScript = some (s, events) ∧
      ¬∃ log : List (ℕ × Bytes), log.map Prod.snd = s.sent.map ReqMessage.sReqData ∧
        ∀ socket,
          CompleteUpToLast (s.proxy.trans.kernel.accepted socket) (assigned log socket) := by
  have hrun : (exec step new replacedScript).map (fun r => (r.1.sent.map ReqMessage.sReqData,
      r.1.proxy.trans.kernel.accepted 0, r.1.proxy.trans.kernel.accepted 1)) =
      some ([bytes "1:m:x"], bytes "1:m", bytes ":x") := by decide
  obtain ⟨⟨s, events⟩, hexec, heq⟩ := Option.map_eq_some_iff.mp hrun
  simp only [Prod.mk.injEq] at heq
  obtain ⟨hsent, hzero, hfirst⟩ := heq
  refine ⟨s, events, hexec, ?_⟩
  rintro ⟨log, hlog, hall⟩
  obtain ⟨⟨fd, request⟩, rfl, -⟩ := List.map_eq_singleton_iff.mp (hlog.trans hsent)
  by_cases hfd : fd = 0
  · have hnil := hall 1
    rw [assigned_singleton, if_neg (by omega), completeUpToLast_nil, hfirst] at hnil
    exact absurd hnil (by decide)
  · have hnil := hall 0
    rw [assigned_singleton, if_neg hfd, completeUpToLast_nil, hzero] at hnil
    exact absurd hnil (by decide)

end ProxyRun

end Tars
