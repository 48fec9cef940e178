import Tars.Client.ProxyRuns

/-!
# No byte is lost on the way to the socket

On one open socket, calls of `sendRequest` and flushes by `doRequest` alternate in any
order. What the kernel accepted and what is still buffered are together the payloads of
the calls that did not return `eRetError`, as long as the comparison with `(int)iSize`
notices every partial send.
-/

namespace Tars

/-- A call of `sendRequest`: the payload and the value returned. -/
abbrev SendCall := Bytes × ℤ

/-- What happens on an open socket between `connect` and `close`. -/
inductive SendAction where
  /-- `sendRequest` of a payload. -/
  | sendRequest (pData : Bytes) (answer : SendResult)
  /-- `doRequest`: the answer to the flush and those of the loop in `doInvoke`. -/
  | doRequest (answer : SendResult) (answers : List SendResult)

namespace ObjectProxy

open Scripts

/-- The calls of `sendRequest` among the events of a proxy. -/
def sendCalls (events : List Event) : List SendCall :=
  events.filterMap fun
    | .sendRequest msg iRet => some (msg.sReqData, iRet)
    | .finishInvoke _ => none

/-- One step on an open socket. A loop of `doInvoke` may be cut off after any number of
iterations. -/
def sendStep (o : ObjectProxy) : SendAction → Option (ObjectProxy × List SendCall)
  | .sendRequest pData answer =>
    match o.trans.sendRequest pData answer with
    | none => none
    | some (trans, iRet) => some ({ o with trans }, [(pData, iRet)])
  | .doRequest answer answers =>
    match o.doRequest answer answers with
    | none => none
    | some (o, events, _) => some (o, sendCalls events)

/-- The payloads of the calls that did not return `eRetError`, in call order. -/
def payloads (calls : List SendCall) : Bytes :=
  (calls.filterMap fun call => if call.2 = Transceiver.eRetError then none else some call.1).flatten

/-- Whatever `::send` takes of a payload under this answer, `sendRequest` keeps the rest. -/
def KeepsAll (pData : Bytes) (answer : SendResult) : Prop :=
  ∀ n, Transceiver.sendCount pData answer = some n → Transceiver.KeepsTail pData n

/-- The calls of `sendRequest` that a loop of `doInvoke` makes with an empty send buffer are refused
or keep the rest of the payload. The loop hands the same payload over again and again, and it goes
on after a call only if `::send` took all of it. -/
def LoopKeeps (pData : Bytes) : List SendResult → Prop
  | [] => True
  | answer :: answers => answer = .error ∨ KeepsAll pData answer ∧
      (Transceiver.sendCount pData answer = some pData.length → LoopKeeps pData answers)

/-- The calls of the step are refused or keep the rest of their payload. With bytes in the send
buffer a flush has to take all of them, or the calls behind it are refused or not made. -/
def Keeps (o : ObjectProxy) : SendAction → Prop
  | .sendRequest pData answer => o.trans.Refuses answer ∨ KeepsAll pData answer
  | .doRequest answer answers => ∀ msg, o.timeoutQueue.getSend = some (some msg) →
      o.trans.sendBuffer.readable = [] ∨
        Transceiver.sendCount o.trans.sendBuffer.readable answer =
          some o.trans.sendBuffer.readable.length → LoopKeeps msg.sReqData answers

/-- Payloads shorter than `2 ^ 31` bytes are always kept. -/
theorem keepsAll_of_lt {pData : Bytes} (answer : SendResult) (hlen : pData.length < 2 ^ 31) :
    KeepsAll pData answer :=
  fun _ hn => Transceiver.keepsTail_of_lt hlen (Transceiver.sendCount_le hn).1

/-- A payload shorter than `2 ^ 31` bytes is kept however often it is handed over. -/
theorem loopKeeps_of_lt {pData : Bytes} (answers : List SendResult)
    (hlen : pData.length < 2 ^ 31) : LoopKeeps pData answers := by
  induction answers with
  | nil => trivial
  | cons answer answers ih => exact .inr ⟨keepsAll_of_lt answer hlen, fun _ => ih⟩

section Conservation

variable {fd : ℕ} {base : Bytes} {calls : List SendCall}

/-- The bytes on a socket and in the send buffer are those at the start and the payloads
of the calls since then. -/
structure Conserved (fd : ℕ) (base : Bytes) (t : Transceiver) (calls : List SendCall) :
    Prop where
  /-- The transceiver is well formed. -/
  wf : t.WF
  /-- It still uses the socket. -/
  fd_eq : t.fd = some fd
  /-- Accepted and buffered bytes account for all payloads. -/
  bytes_eq : t.kernel.accepted fd ++ t.sendBuffer.readable = base ++ payloads calls

/-- The payloads of a concatenation of calls are those of the first ones, followed by those of the
others. -/
theorem payloads_append (calls calls' : List SendCall) :
    payloads (calls ++ calls') = payloads calls ++ payloads calls' := by
  simp [payloads]

/-- A refused call contributes nothing, since its caller knows that nothing was taken. -/
theorem payloads_error (pData : Bytes) : payloads [(pData, Transceiver.eRetError)] = [] := by
  simp [payloads]

/-- Any other call contributes its payload, which is sent or kept. -/
theorem payloads_ok (pData : Bytes) {iRet : ℤ} (h : iRet ≠ Transceiver.eRetError) :
    payloads [(pData, iRet)] = pData := by
  simp [payloads, h]

/-- What `sendRequest` keeps of a payload fits the send buffer. -/
theorem sub_le_of_keepsTail {pData : Bytes} {n : ℕ} (h : Transceiver.KeepsTail pData n) :
    pData.length - n ≤ 2 ^ 62 := by
  obtain hall | ⟨-, hfits⟩ := h
  · omega
  · exact hfits

/-- `sendRequest` conserves: a refused payload contributes nothing, any other one is
split between the socket and the buffer. -/
theorem Conserved.sendRequest {t : Transceiver} (h : Conserved fd base t calls)
    {pData : Bytes} {answer : SendResult} (hkeep : t.Refuses answer ∨ KeepsAll pData answer) :
    ∃ t' iRet, t.sendRequest pData answer = some (t', iRet) ∧
      Conserved fd base t' (calls ++ [(pData, iRet)]) := by
  by_cases hrefuse : t.Refuses answer
  · refine ⟨t, _, Transceiver.sendRequest_of_refuses hrefuse, h.wf, h.fd_eq, ?_⟩
    rw [payloads_append, payloads_error, List.append_nil]
    exact h.bytes_eq
  · have hkeep := hkeep.resolve_left hrefuse
    obtain ⟨fd', n, t', iRet, hfd, hn, hsend, hret, hwf, hfd', hempty, -, hkernel, hrest⟩ :=
      h.wf.sendRequest_of_accepts (fun n hn => sub_le_of_keepsTail (hkeep n hn)) hrefuse
    obtain rfl := Option.some.inj (h.fd_eq.symm.trans hfd)
    refine ⟨t', iRet, hsend, hwf, hfd'.trans hfd, ?_⟩
    have hbytes := h.bytes_eq
    rw [hempty, List.append_nil] at hbytes
    rw [hrest, if_pos (hkeep n hn), hkernel, payloads_append, payloads_ok _ hret]
    simp only [Kernel.accept, if_true, List.append_assoc, List.take_append_drop, hbytes]

/-- The flush of `doRequest` conserves: it moves bytes from the buffer to the socket. -/
theorem Conserved.flush {t t' : Transceiver} {answer : SendResult} {ret : Option ℤ}
    (h : Conserved fd base t calls) (hflush : t.flush answer = some (t', ret)) :
    Conserved fd base t' calls := by
  obtain ⟨u, ret', hflush', hwf, hfd, -, hmoved⟩ := h.wf.flush_spec answer
  obtain ⟨rfl, rfl⟩ := Prod.mk.inj (Option.some.inj (hflush.symm.trans hflush'))
  obtain rfl | ⟨fd', n, hfd', hn, hkernel, hrest⟩ := hmoved
  · exact h
  · obtain rfl := Option.some.inj (h.fd_eq.symm.trans hfd')
    refine ⟨hwf, hfd.trans hfd', ?_⟩
    rw [hkernel, hrest, ← h.bytes_eq]
    simp only [Kernel.accept, if_true, List.append_assoc, List.take_append_drop]

/-- A call of `sendRequest` that is not refused and keeps the rest of its payload returns something
other than `eRetFull` only if `::send` took all of it. -/
theorem sendCount_of_goes_on {t t' : Transceiver} {pData : Bytes} {answer : SendResult} {iRet : ℤ}
    (haccept : ¬t.Refuses answer) (hkeep : KeepsAll pData answer)
    (hsend : t.sendRequest pData answer = some (t', iRet)) (hgoes : iRet ≠ Transceiver.eRetFull) :
    Transceiver.sendCount pData answer = some pData.length := by
  obtain ⟨n, hn⟩ := Option.ne_none_iff_exists'.mp (mt Transceiver.sendCount_eq_none.mp
    (fun herror => haccept (.inr (.inr herror))) : Transceiver.sendCount pData answer ≠ none)
  have hret := Transceiver.sendRequest_returns haccept hn hsend
  obtain hall | ⟨hleft, -⟩ := hkeep n hn
  · rw [hn, hall]
  · rw [if_pos hleft] at hret
    exact absurd hret hgoes

/-- The loop of `doInvoke` conserves: a refused call ends it, and any other call keeps the rest of
the payload. -/
theorem Conserved.doInvoke {o o' : ObjectProxy} {answers : List SendResult} {events : List Event}
    {ended : Bool} (h : Conserved fd base o.trans calls)
    (hkeep : ∀ msg, o.timeoutQueue.getSend = some (some msg) →
      o.trans.sendBuffer.readable = [] → LoopKeeps msg.sReqData answers)
    (hrun : o.doInvoke answers = some (o', events, ended)) :
    Conserved fd base o'.trans (calls ++ sendCalls events) := by
  induction answers generalizing o calls events ended with
  | nil =>
    simp only [ObjectProxy.doInvoke, Option.some.injEq, Prod.mk.injEq] at hrun
    obtain ⟨rfl, rfl, -⟩ := hrun
    rwa [sendCalls, List.filterMap_nil, List.append_nil]
  | cons answer answers ih =>
    rw [ObjectProxy.doInvoke] at hrun
    split at hrun
    · simp only [Option.some.injEq, Prod.mk.injEq] at hrun
      obtain ⟨rfl, rfl, -⟩ := hrun
      rwa [sendCalls, List.filterMap_nil, List.append_nil]
    split at hrun
    · cases hrun
    rename_i next msg iRet hnext
    obtain ⟨hget, hqueue, -, hsend⟩ := sendOldest_frame hnext
    have hcall : o.trans.Refuses answer ∨ KeepsAll msg.sReqData answer ∧
        (Transceiver.sendCount msg.sReqData answer = some msg.sReqData.length →
          LoopKeeps msg.sReqData answers) := by
      by_cases hrefuse : o.trans.Refuses answer
      · exact .inl hrefuse
      · obtain ⟨hfull, hother⟩ := not_or.mp hrefuse
        have hempty := h.wf.send_wf.isEmpty_iff.mp ((Bool.not_eq_false _).mp hfull)
        exact .inr ((hkeep msg hget hempty).resolve_left (not_or.mp hother).2)
    obtain ⟨u, iRet', hsend', hfirst⟩ := h.sendRequest (hcall.imp_right And.left)
    obtain ⟨rfl, rfl⟩ := Prod.mk.inj (Option.some.inj (hsend.symm.trans hsend'))
    split at hrun
    · simp only [Option.some.injEq, Prod.mk.injEq] at hrun
      obtain ⟨rfl, rfl, -⟩ := hrun
      exact hfirst
    rename_i hgoes
    obtain ⟨hfail, hfull⟩ := not_or.mp hgoes
    split at hrun
    · cases hrun
    rename_i hrest
    simp only [Option.some.injEq, Prod.mk.injEq] at hrun
    obtain ⟨rfl, rfl, rfl⟩ := hrun
    -- The call was not refused, or the loop would have ended with it.
    have haccept : ¬o.trans.Refuses answer := fun hrefuse => by
      rw [Transceiver.sendRequest_of_refuses hrefuse] at hsend
      exact hfail (Prod.mk.inj (Option.some.inj hsend)).2.symm
    obtain ⟨hkeeps, hgoes⟩ := hcall.resolve_left haccept
    have hlast := ih hfirst (fun msg' hget' _ => ?_) hrest
    · rwa [List.append_assoc] at hlast
    · rw [hqueue, hget] at hget'
      obtain rfl := Option.some.inj (Option.some.inj hget')
      exact hgoes (sendCount_of_goes_on haccept hkeeps hsend hfull)

/-- A flush that leaves nothing in the send buffer found nothing there or sent all of it. -/
theorem sendCount_of_flushed {t t' : Transceiver} (h : t.WF) {answer : SendResult} {ret : Option ℤ}
    (hflush : t.flush answer = some (t', ret)) (hempty : t'.sendBuffer.readable = []) :
    t.sendBuffer.readable = [] ∨ Transceiver.sendCount t.sendBuffer.readable answer =
      some t.sendBuffer.readable.length := by
  obtain ⟨u, ret', hflush', -, -, -, hmoved⟩ := h.flush_spec answer
  obtain ⟨rfl, rfl⟩ := Prod.mk.inj (Option.some.inj (hflush.symm.trans hflush'))
  obtain rfl | ⟨fd, n, -, hn, -, hrest⟩ := hmoved
  · exact .inl hempty
  · have hle := (Transceiver.sendCount_le hn).1
    rw [hempty] at hrest
    have hall := List.drop_eq_nil_iff.mp hrest.symm
    exact .inr (by rw [hn, Nat.le_antisymm hle hall])

/-- Every step whose calls keep their payloads is executed and conserves. -/
theorem Conserved.step {o : ObjectProxy} {a : SendAction} (hvalid : o.Valid)
    (h : Conserved fd base o.trans calls) (hkeep : o.Keeps a) :
    ∃ o' calls', o.sendStep a = some (o', calls') ∧ o'.Valid ∧
      Conserved fd base o'.trans (calls ++ calls') := by
  cases a with
  | sendRequest pData answer =>
    obtain ⟨t', iRet, hsend, hnext⟩ := h.sendRequest hkeep
    refine ⟨{ o with trans := t' }, [(pData, iRet)], ?_,
      ⟨hnext.wf, hvalid.linked, hvalid.id_lt, hvalid.size_le⟩, hnext⟩
    simp only [sendStep, hsend]
  | doRequest answer answers =>
    obtain ⟨o', events, ended, hrun⟩ := hvalid.doRequest_total answer answers
    refine ⟨o', sendCalls events, by simp only [sendStep, hrun], hvalid.doRequest hrun, ?_⟩
    obtain ⟨trans, ret, hflush, ⟨-, rfl, rfl⟩ | ⟨-, hloop⟩⟩ := doRequest_cases hrun
    · rw [sendCalls, List.filterMap_nil, List.append_nil]
      exact h.flush hflush
    · have hflushed : Conserved fd base ({ o with trans } : ObjectProxy).trans calls :=
        h.flush hflush
      exact hflushed.doInvoke
        (fun msg hget hempty => hkeep msg hget (sendCount_of_flushed h.wf hflush hempty)) hloop

/-- **Byte conservation on one open socket.** Let every call of `sendRequest` in a script
be refused or keep the rest of its payload. Then the script is executed without an
assertion, the socket stays the same, and the bytes that the kernel accepted, followed by
the bytes in the send buffer, are those at the start followed by the payloads of exactly
the calls that did not return `eRetError`, in call order. -/
theorem send_conservation {o : ObjectProxy} {fd : ℕ} (hvalid : o.Valid)
    (hfd : o.trans.fd = some fd) (script : List SendAction)
    (hkeeps : Along sendStep Keeps o script) :
    ∃ o' calls, exec sendStep o script = some (o', calls) ∧ o'.trans.fd = some fd ∧
      o'.trans.kernel.accepted fd ++ o'.trans.sendBuffer.readable =
        o.trans.kernel.accepted fd ++ o.trans.sendBuffer.readable ++ payloads calls := by
  have hinit : o.Valid ∧ Conserved fd
      (o.trans.kernel.accepted fd ++ o.trans.sendBuffer.readable) o.trans [] :=
    ⟨hvalid, hvalid.trans_wf, hfd, (List.append_nil _).symm⟩
  obtain ⟨o', calls, hexec, -, hfinal⟩ := exec_progress
    (I := fun o past => o.Valid ∧ Conserved fd _ o.trans past)
    (fun o a past h hkeep => h.2.step h.1 hkeep) hinit hkeeps
  exact ⟨o', calls, hexec, hfinal.fd_eq, hfinal.bytes_eq⟩

end Conservation

/-- A new proxy whose socket is connected and whose buffers are empty. -/
def connectedProxy : ObjectProxy := { new with trans := (Transceiver.new.connect .connected).1 }

/-- A connected new proxy is valid: nothing waits and the buffers are empty. -/
theorem valid_connectedProxy : connectedProxy.Valid :=
  ⟨Transceiver.wf_new.connect .connected, TimeoutQueue.linked_new, by decide,
    valid_new.size_le⟩

/-- The statement on a short payload of which one byte is sent at first, then the rest. -/
theorem send_conservation_sample :
    ∃ o' calls, exec sendStep connectedProxy
        [.sendRequest (bytes "1:m:x") (.accepted 1), .doRequest (.accepted 9) []] =
          some (o', calls) ∧ o'.trans.fd = some 0 ∧
      o'.trans.kernel.accepted 0 ++ o'.trans.sendBuffer.readable =
        connectedProxy.trans.kernel.accepted 0 ++ connectedProxy.trans.sendBuffer.readable ++
          payloads calls := by
  exact send_conservation valid_connectedProxy rfl _
    ⟨.inr (keepsAll_of_lt _ (by decide)),
      fun o es hstep => ⟨fun msg _ _ => trivial, fun _ _ _ => trivial⟩⟩

/-- The size `2 ^ 31` is negative as an `int`, so of such a payload nothing but the bytes
that the kernel takes at once is kept. -/
theorem tail_lost {pData : Bytes} (hlen : pData.length = 2 ^ 31) :
    ∃ o' calls, exec sendStep connectedProxy [.sendRequest pData (.accepted 1)] =
        some (o', calls) ∧
      o'.trans.kernel.accepted 0 ++ o'.trans.sendBuffer.readable ≠ payloads calls := by
  have haccept : ¬connectedProxy.trans.Refuses (.accepted 1) := by decide
  have hfits : pData.length ≤ 2 ^ 62 := by omega
  obtain ⟨fd, n, t', iRet, hfd, hn, hsend, hret, -, hfd', -, -, hkernel, hrest⟩ :=
    valid_connectedProxy.trans_wf.sendRequest_of_accepts (Transceiver.rest_le hfits) haccept
  have hone : n = 1 := by
    simp only [Transceiver.sendCount, hlen, Transceiver.maxSend, Option.some.injEq] at hn
    omega
  have hlost : ¬Transceiver.KeepsTail pData n := by
    have hneg := toInt32_neg (n := 2 ^ 31) (by decide) (by decide)
    simp only [Transceiver.KeepsTail, hlen, hone]
    omega
  have hstart : connectedProxy.trans.kernel.accepted fd = [] := rfl
  obtain rfl : 0 = fd := Option.some.inj hfd
  refine ⟨{ connectedProxy with trans := t' }, [(pData, iRet)], ?_, ?_⟩
  · rw [exec, sendStep, hsend]
    rfl
  · rw [payloads_ok _ hret, hkernel, hrest, if_neg hlost, List.append_nil]
    intro heq
    have hlength := congrArg List.length heq
    simp only [Kernel.accept, if_true, hstart, List.nil_append, List.length_take, hlen,
      hone] at hlength
    omega

/-- A payload of a given size, whose bytes do not matter. -/
def zeroPayload (size : ℕ) : Bytes := List.replicate size 0

/-- **A tail is lost.** The kernel takes the first byte of a payload of `2 ^ 31` bytes. The
call does not return `eRetError`, but the other bytes are neither sent nor buffered. -/
theorem huge_tail_lost :
    ∃ o' calls,
      exec sendStep connectedProxy [.sendRequest (zeroPayload (2 ^ 31)) (.accepted 1)] =
        some (o', calls) ∧
      o'.trans.kernel.accepted 0 ++ o'.trans.sendBuffer.readable ≠ payloads calls :=
  tail_lost List.length_replicate

end ObjectProxy

end Tars
