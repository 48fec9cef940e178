import Tars.Client.ResponseFraming
import Tars.Client.SocketBytes

/-!
# Single calls of a client

A client that makes one call after the other has nothing in the send list. It hands its message over
in `invoke`, transmits the rest in `handleOutputImp`, and finishes it in `handleInputImp` with the
first response that has its id.
-/

namespace Tars

namespace TimeoutQueue

variable {T : Type*} {q : TimeoutQueue T}

/-- A message that was sent does not go to the send list. -/
theorem sendListEmpty_push (h : q.sendListEmpty = true) (ptr : T) (uniqId : ℕ) (timeout : ℤ) :
    (q.push ptr uniqId timeout true).1.sendListEmpty = true := by
  unfold push
  split <;> exact h

/-- Erasing keeps the send list empty, since it adds nothing to it. -/
theorem sendListEmpty_erase (h : q.sendListEmpty = true) (uniqId : ℕ) :
    (q.erase uniqId).1.sendListEmpty = true := by
  have hnil : q.send = [] := List.isEmpty_iff.mp h
  unfold erase
  split
  · exact h
  · simp [sendListEmpty, hnil]

end TimeoutQueue

namespace ObjectProxy

variable {o o' : ObjectProxy} {events : List Event} {answers : List ReadResult}

/-- Nothing waits where the timeout queue has no keys. -/
theorem outstanding_of_keys (h : o.timeoutQueue.data.keys = []) (id : ℕ) :
    o.outstanding id = none := by
  have hnone : o.timeoutQueue.data.lookup id = none := by
    rw [AList.lookup_eq_none, AList.mem_keys, h]
    exact List.not_mem_nil
  rw [outstanding, hnone]
  rfl

/-- What waits has a key, under which the time-out queue stores it. -/
theorem mem_keys_of_outstanding {id : ℕ} {msg : ReqMessage} (h : o.outstanding id = some msg) :
    id ∈ o.timeoutQueue.data.keys := by
  obtain ⟨info, hinfo, -⟩ := Option.map_eq_some_iff.mp h
  rw [← AList.mem_keys, ← AList.lookup_isSome, hinfo]
  rfl

/-- A message whose id is free waits: it is stored under its id, and no other entry is touched. -/
theorem pushMessage_free {msg : ReqMessage} (h : o.outstanding (toUInt32 msg.iRequestId) = none)
    (hasSend : Bool) :
    (o.pushMessage msg hasSend).2 = [] ∧ ∀ id, (o.pushMessage msg hasSend).1.outstanding id =
      if id = toUInt32 msg.iRequestId then some msg else o.outstanding id := by
  have hunused : toUInt32 msg.iRequestId ∉ o.timeoutQueue.data := by
    rw [outstanding, Option.map_eq_none_iff] at h
    rwa [← AList.lookup_eq_none]
  constructor
  · simp only [pushMessage]
    rw [if_pos (TimeoutQueue.push_snd.mpr hunused)]
  · intro id
    rw [outstanding, pushMessage_timeoutQueue, TimeoutQueue.push_lookup hunused]
    split <;> rfl

/-- Responses leave the send list empty, since they only take messages away. -/
theorem sendListEmpty_finishAll (h : o.timeoutQueue.sendListEmpty = true) (done : List Bytes) :
    (o.finishAll done).1.timeoutQueue.sendListEmpty = true := by
  induction done generalizing o with
  | nil => exact h
  | cons rsp done ih =>
    refine ih ?_
    rw [finishInvoke_timeoutQueue]
    exact TimeoutQueue.sendListEmpty_erase h _

/-- A connection that is closed, or that `handleInputImp` closes, passes on nothing. -/
theorem handleInputImp_closed (h : o.trans.Drained)
    (hsize : ReadResult.totalBytes answers < Transceiver.maxBatch)
    (hclosed : o.trans.fd = none ∨ Transceiver.batchOf answers = none) :
    ∃ trans, o.handleInputImp answers = some ({ o with trans }, []) ∧ trans.fd = none := by
  have hlen : o.trans.recvBuffer.readable.length + (Transceiver.deliveredBy answers).length +
      8 * 1024 ≤ 2 ^ 62 := by
    have hle := Transceiver.length_deliveredBy_le answers
    unfold Transceiver.maxBatch at hsize
    rw [h.recv_empty, List.length_nil]
    omega
  -- Nothing is readable when the loop of `doResponse` ends.
  obtain ⟨u, hloop, hfd, hwf, hempty⟩ : ∃ u : Transceiver,
      o.trans.readLoop (ReadResult.totalBytes answers + 1) answers = some u ∧ u.fd = none ∧
        u.recvBuffer.WF ∧ u.recvBuffer.readable = [] := by
    cases hfd : o.trans.fd with
    | none =>
      obtain ⟨b, hwf, hsame, hloop⟩ := Transceiver.readLoop_of_closed hfd h.recv_wf (by omega)
        answers (ReadResult.totalBytes answers)
      exact ⟨_, hloop, hfd, hwf, hsame.trans h.recv_empty⟩
    | some fd =>
      have hnone := hclosed.resolve_left (by simp [hfd])
      obtain ⟨b, hwf, ⟨batch, hbatch, -⟩ | ⟨-, hloop⟩⟩ := Transceiver.readLoop_spec hfd h.recv_wf
        hlen (Nat.lt_succ_self (ReadResult.totalBytes answers))
      · rw [hnone] at hbatch
        cases hbatch
      · obtain ⟨hwf', hcleared⟩ := hwf.clear_spec
        exact ⟨_, hloop, by simp [Transceiver.close, hfd],
          by simpa [Transceiver.close, hfd] using hwf',
          by simpa [Transceiver.close, hfd] using hcleared⟩
  have hread : o.trans.doResponse answers = some (u, [], 0) := by
    rw [Transceiver.doResponse, hloop]
    exact if_pos (hwf.isEmpty_iff.mpr hempty)
  refine ⟨u, ?_, hfd⟩
  rw [handleInputImp, hread]
  rfl

end ObjectProxy

namespace ProxyRun

open ObjectProxy Transceiver

/-- What holds of a client that makes single calls. -/
structure Ready (run : ProxyRun) : Prop where
  /-- The proxy is valid, so its calls do not fail. -/
  valid : run.proxy.Valid
  /-- The receive buffer is empty, so the next response comes alone. -/
  drained : run.proxy.trans.Drained
  /-- The sockets in use were created, and only those have taken bytes. -/
  sockets : KnownSockets run.proxy.trans
  /-- No message waits to be sent. -/
  unqueued : run.proxy.timeoutQueue.sendListEmpty = true

/-- A new client is ready: nothing waits and nothing was received. -/
theorem ready_new : Ready new :=
  ⟨valid_new, ⟨TCBuffer.wf_new, TCBuffer.readable_new⟩, sockets_new, rfl⟩

/-- The bytes that the current socket has taken or will take. -/
def outgoing (run : ProxyRun) (fd : ℕ) : Bytes :=
  run.proxy.trans.kernel.accepted fd ++ run.proxy.trans.sendBuffer.readable

section Steps

variable {run run' : ProxyRun} {events : List Event}

/-- The message of an `invoke`, as it is stored and transmitted. -/
def message (run : ProxyRun) (msg : ReqMessage) : ReqMessage :=
  serialise { msg with addr := run.created } run.proxy.generateId

/-- A client stays ready, if an action leaves its send list empty: all else that is needed holds
after any action. -/
theorem Ready.next (h : run.Ready) {a : Action} (hbounded : Bounded a)
    (hstep : run.step a = some (run', events))
    (hunqueued : run'.proxy.timeoutQueue.sendListEmpty = true) : run'.Ready := by
  obtain ⟨hvalid, hdrained⟩ := drained_step ⟨h.valid, h.drained⟩ hbounded hstep
  exact ⟨hvalid, hdrained, (sockets_step h.sockets hstep).1, hunqueued⟩

/-- The bytes of a message that `invoke` makes are the request and a short prefix, so their number
is a positive `int`. -/
theorem length_message_lt {msg : ReqMessage} (hsize : msg.request.length < 2 ^ 30) :
    (run.message msg).sReqData.length < 2 ^ 31 := by
  obtain ⟨hlo, hhi⟩ := toInt32_bounds run.proxy.generateId
  have hprint := length_toString_le hlo hhi
  simp only [message, serialise, List.length_append, List.length_cons]
  omega

/-- **`invoke`** of a single call. Without a connection nothing happens. Otherwise the message
waits, and its bytes are on the new socket or in the send buffer. -/
theorem Ready.invoke (h : run.Ready) {msg : ReqMessage} {outcome : ConnectOutcome}
    {answer : SendResult} (hstep : run.step (.invoke msg outcome answer) = some (run', events))
    (hkeys : run.proxy.timeoutQueue.data.keys = [])
    (hbuffer : run.proxy.trans.sendBuffer.readable = []) (hanswer : answer ≠ .error)
    (hsize : msg.request.length < 2 ^ 30) :
    run'.Ready ∧ (∀ event ∈ events, ∃ msg iRet, event = .sendRequest msg iRet) ∧
      (outcome.assigns = false ∧ run'.proxy.trans.sendBuffer.readable = [] ∧
          run'.proxy.trans.kernel.accepted = run.proxy.trans.kernel.accepted ∧
          (∀ id, run'.proxy.outstanding id = none) ∨
        outcome.assigns = true ∧ run'.proxy.trans.fd = some run.proxy.trans.kernel.created ∧
          run'.outgoing run.proxy.trans.kernel.created = (run.message msg).sReqData ∧
          (∀ fd, fd ≠ run.proxy.trans.kernel.created →
            run'.proxy.trans.kernel.accepted fd = run.proxy.trans.kernel.accepted fd) ∧
          ∀ id, run'.proxy.outstanding id =
            if id = toUInt32 (run.message msg).iRequestId then some (run.message msg)
            else none) := by
  obtain ⟨returned, hinvoke, hcreated, -⟩ := step_invoke hstep
  have hbounded : Bounded (.invoke msg outcome answer) := by
    show msg.request.length ≤ maxRequest
    unfold maxRequest
    omega
  have hmissing := outstanding_of_keys hkeys
  obtain ⟨hassigns, -, rfl, heq⟩ | ⟨hassigns, -, trans, hasSend, handed, hhanded, heq⟩ :=
    invoke_cases hinvoke
  · refine ⟨h.next hbounded hstep ?_, fun event hevent => absurd hevent List.not_mem_nil,
      .inl ⟨hassigns, ?_, ?_, ?_⟩⟩
    · rw [heq]
      exact h.unqueued
    · rw [heq, connect_sendBuffer]
      exact hbuffer
    · rw [heq, connect_accepted]
    · rw [heq]
      exact hmissing
  · obtain ⟨hqueued, -⟩ | ⟨-, iRet, hsend, rfl, rfl⟩ := hhanded
    · rw [h.unqueued] at hqueued
      cases hqueued
    have hlen : (run.message msg).sReqData.length < 2 ^ 31 := length_message_lt hsize
    have hfd := connect_fd (t := run.proxy.trans) outcome
    rw [if_pos hassigns] at hfd
    have haccept : ¬(run.proxy.trans.connect outcome).1.Refuses answer := by
      rintro (hfull | hnone | herror)
      · rw [connect_sendBuffer, h.valid.trans_wf.send_wf.isEmpty_iff.mpr hbuffer] at hfull
        cases hfull
      · rw [hfd] at hnone
        cases hnone
      · exact hanswer herror
    have hfits : (run.message msg).sReqData.length ≤ 2 ^ 62 := by omega
    obtain ⟨fd, n, trans', ret, hfd', hn, hsend', hret, -, hsame, -, -, hkernel, hreadable⟩ :=
      (h.valid.trans_wf.connect outcome).sendRequest_of_accepts (rest_le hfits) haccept
    obtain ⟨rfl, rfl⟩ := Prod.mk.inj (Option.some.inj (hsend.symm.trans hsend'))
    obtain rfl := Option.some.inj (hfd.symm.trans hfd')
    rw [if_pos (keepsTail_of_lt hlen (sendCount_le hn).1)] at hreadable
    obtain ⟨hproxy, hevents⟩ := Prod.mk.inj heq
    rw [decide_eq_true hret] at hproxy hevents
    let o : ObjectProxy := ⟨trans, run.proxy.timeoutQueue, run.proxy.generateId⟩
    have hfree : o.outstanding (toUInt32 (run.message msg).iRequestId) = none := hmissing _
    obtain ⟨hsilent, hwaits⟩ := pushMessage_free hfree true
    have htrans : run'.proxy.trans = trans := by
      rw [hproxy]
      exact (pushMessage_frame true).1
    have hkept : run'.proxy.timeoutQueue.sendListEmpty = true := by
      rw [hproxy, pushMessage_timeoutQueue]
      exact TimeoutQueue.sendListEmpty_push h.unqueued _ _ _
    refine ⟨h.next hbounded hstep hkept, fun event hevent => ?_, .inr ⟨hassigns, ?_, ?_, ?_, ?_⟩⟩
    · have hone : events = [.sendRequest (run.message msg) iRet] := by
        rw [hevents]
        exact congrArg _ hsilent
      rw [hone, List.mem_singleton] at hevent
      exact ⟨_, _, hevent⟩
    · rw [htrans, hsame, hfd]
    · rw [outgoing, htrans, hreadable, hkernel, Kernel.accept]
      simp only [if_true]
      rw [connect_accepted, h.sockets.fresh le_rfl, List.nil_append, List.take_append_drop]
    · intro fd hne
      rw [htrans, hkernel, Kernel.accept]
      simp only [if_neg hne]
      rw [connect_accepted]
    · intro id
      rw [hproxy]
      refine (hwaits id).trans ?_
      split
      · rfl
      · exact hmissing id

/-- **`handleOutputImp`** of a single call. It moves bytes to the current socket. -/
theorem Ready.output (h : run.Ready) {answer : SendResult} {answers : List SendResult}
    (hstep : run.step (.output answer answers) = some (run', events)) :
    run'.Ready ∧ events = [] ∧ run'.proxy.timeoutQueue = run.proxy.timeoutQueue ∧
      run'.proxy.trans.fd = run.proxy.trans.fd ∧
      (run.proxy.trans.sendBuffer.readable = [] → run'.proxy.trans.sendBuffer.readable = [] ∧
        run'.proxy.trans.kernel.accepted = run.proxy.trans.kernel.accepted) ∧
      (∀ fd, run.proxy.trans.fd = some fd → run'.outgoing fd = run.outgoing fd ∧
        run.proxy.trans.kernel.accepted fd <+: run'.proxy.trans.kernel.accepted fd) ∧
      ∀ fd, run.proxy.trans.fd ≠ some fd →
        run'.proxy.trans.kernel.accepted fd = run.proxy.trans.kernel.accepted fd := by
  obtain ⟨hrequest, -⟩ := step_output hstep
  obtain ⟨trans, ret, hflush, hwf, hfd, -, hmoves⟩ :=
    h.valid.trans_wf.flush_spec answer
  obtain ⟨trans', ret', hflush', hcases⟩ := doRequest_cases hrequest
  obtain ⟨rfl, rfl⟩ := Prod.mk.inj (Option.some.inj (hflush'.symm.trans hflush))
  obtain ⟨hproxy, rfl⟩ : run'.proxy = { run.proxy with trans := trans' } ∧ events = [] := by
    obtain ⟨-, hproxy, hevents⟩ | ⟨-, hloop⟩ := hcases
    · exact ⟨hproxy, hevents⟩
    · have hempty : ({ run.proxy with trans := trans' } : ObjectProxy).timeoutQueue.sendListEmpty =
          true := h.unqueued
      cases answers with
      | nil =>
        rw [doInvoke] at hloop
        simp only [Option.some.injEq, Prod.mk.injEq] at hloop
        exact ⟨hloop.1.symm, hloop.2.1.symm⟩
      | cons first answers =>
        rw [doInvoke, if_pos hempty] at hloop
        simp only [Option.some.injEq, Prod.mk.injEq] at hloop
        exact ⟨hloop.1.symm, hloop.2.1.symm⟩
  have hkept : run'.proxy.timeoutQueue.sendListEmpty = true := by
    rw [hproxy]
    exact h.unqueued
  have hbounded : Bounded (.output answer answers) := trivial
  refine ⟨h.next hbounded hstep hkept, rfl, by rw [hproxy], by rw [hproxy]; exact hfd, ?_, ?_, ?_⟩
  · intro hempty
    rw [hproxy]
    obtain rfl | ⟨fd, n, -, -, hkernel, hrest⟩ := hmoves
    · exact ⟨hempty, rfl⟩
    · rw [hempty] at hkernel hrest
      refine ⟨hrest.trans List.drop_nil, ?_⟩
      show trans'.kernel.accepted = _
      rw [hkernel, List.take_nil]
      funext fd'
      show (if fd' = fd then _ ++ [] else _) = _
      rw [List.append_nil, ite_self]
  · intro fd hcurrent
    rw [outgoing, outgoing, hproxy]
    obtain rfl | ⟨fd', n, hfd', -, hkernel, hrest⟩ := hmoves
    · exact ⟨rfl, List.prefix_rfl⟩
    · obtain rfl := Option.some.inj (hcurrent.symm.trans hfd')
      have htaken : trans'.kernel.accepted fd = run.proxy.trans.kernel.accepted fd ++
          run.proxy.trans.sendBuffer.readable.take n := by
        rw [hkernel]
        exact if_pos rfl
      refine ⟨?_, htaken ▸ List.prefix_append _ _⟩
      show trans'.kernel.accepted fd ++ trans'.sendBuffer.readable = _
      rw [htaken, hrest, List.append_assoc, List.take_append_drop]
  · intro fd hother
    rw [hproxy]
    obtain rfl | ⟨fd', n, hfd', -, hkernel, -⟩ := hmoves
    · rfl
    · show trans'.kernel.accepted fd = _
      rw [hkernel]
      refine if_neg ?_
      rintro rfl
      exact hother hfd'

/-- `handleInputImp` sends nothing, and keeps the send buffer unless it closes the connection. -/
theorem accepted_input {o o' : ObjectProxy} {answers : List ReadResult}
    (hinput : o.handleInputImp answers = some (o', events)) :
    o'.trans.kernel.accepted = o.trans.kernel.accepted ∧
      (o'.trans.fd ≠ none → o'.trans.sendBuffer = o.trans.sendBuffer) ∧
      (o.timeoutQueue.sendListEmpty = true → o'.timeoutQueue.sendListEmpty = true) := by
  obtain ⟨trans, done, ret, hresponse, hfinish⟩ := handleInputImp_cases hinput
  have hkept : trans.kernel.accepted = o.trans.kernel.accepted ∧
      (trans.fd ≠ none → trans.sendBuffer = o.trans.sendBuffer) := by
    obtain ⟨b, rfl⟩ | ⟨b, b', rfl⟩ := doResponse_cases hresponse
    · exact ⟨rfl, fun _ => rfl⟩
    · unfold close
      split
      · exact ⟨rfl, fun _ => rfl⟩
      · exact ⟨rfl, fun hopen => absurd rfl hopen⟩
  obtain ⟨-, hall⟩ | ⟨-, heq, -⟩ := hfinish
  · rw [(Prod.mk.inj hall).1, (finishAll_frame done).1]
    refine ⟨hkept.1, hkept.2, fun hempty => ?_⟩
    have hread : ({ o with trans } : ObjectProxy).timeoutQueue.sendListEmpty = true := hempty
    exact sendListEmpty_finishAll hread done
  · rw [heq]
    exact ⟨hkept.1, hkept.2, id⟩

/-- **`handleInputImp`** of a single call. It finishes the message whose id the response has, or
closes the connection. -/
theorem Ready.input (h : run.Ready) {answers : List ReadResult}
    (hsize : ReadResult.totalBytes answers < maxBatch)
    (hstep : run.step (.input answers) = some (run', events)) :
    run'.Ready ∧ run'.proxy.trans.kernel.accepted = run.proxy.trans.kernel.accepted ∧
      (events = [] ∧ run'.proxy.trans.fd = none ∧ run'.proxy.trans.sendBuffer.readable = [] ∧
          run'.proxy.timeoutQueue = run.proxy.timeoutQueue ∨
        run.proxy.trans.fd ≠ none ∧ run'.proxy.trans.fd = run.proxy.trans.fd ∧
          run'.proxy.trans.sendBuffer = run.proxy.trans.sendBuffer ∧
          events = (if deliveredBy answers = [] then []
            else (run.proxy.completion (deliveredBy answers)).toList) ∧
          ∀ id, run'.proxy.outstanding id =
            if deliveredBy answers ≠ [] ∧ id = idOf (deliveredBy answers) then none
            else run.proxy.outstanding id) := by
  obtain ⟨hinput, -⟩ := step_input hstep
  have hbounded : Bounded (.input answers) := hsize
  by_cases hclosed : run.proxy.trans.fd = none ∨ batchOf answers = none
  · obtain ⟨trans, heq, hfd⟩ := handleInputImp_closed h.drained hsize hclosed
    obtain ⟨hproxy, rfl⟩ := Prod.mk.inj (Option.some.inj (hinput.symm.trans heq))
    have hready := h.next hbounded hstep (by rw [hproxy]; exact h.unqueued)
    refine ⟨hready, (accepted_input hinput).1,
      .inl ⟨rfl, by rw [hproxy]; exact hfd, ?_, by rw [hproxy]⟩⟩
    exact hready.valid.trans_wf.closed_empty (by rw [hproxy]; exact hfd)
  · push Not at hclosed
    obtain ⟨hopen, hread⟩ := hclosed
    obtain ⟨batch, hbatch⟩ := Option.ne_none_iff_exists'.mp hread
    obtain ⟨o', events', heq, -, hcases⟩ := handleInputImp_spec h.drained hsize
    obtain ⟨rfl, rfl⟩ := Prod.mk.inj (Option.some.inj (hinput.symm.trans heq))
    obtain ⟨hfd, hevents, hrest⟩ := hcases batch hopen hbatch
    obtain rfl := batchOf_eq_some hbatch
    obtain ⟨haccepted, hbuffer, hunqueued⟩ := accepted_input hinput
    exact ⟨h.next hbounded hstep (hunqueued h.unqueued), haccepted, .inr ⟨hopen, hfd,
      hbuffer (hfd ▸ hopen), hevents, hrest⟩⟩

end Steps

end ProxyRun

end Tars
