import Tars.Client.ProxyRuns

/-!
# Sending the messages that wait

`doInvoke` is meant to send every waiting message once. It never removes a message from
the send list, so it only does so when there is nothing to send or the first call of
`sendRequest` is refused; otherwise the oldest message is sent again and again.
-/

namespace Tars

namespace ObjectProxy

/-- The messages that were handed to `sendRequest`, with any result. -/
def handed (events : List Event) : List ReqMessage :=
  events.filterMap fun
    | .sendRequest msg _ => some msg
    | .finishInvoke _ => none

/-- One call of `doInvoke` ends, hands over each waiting message at most once and in the
order of the pushes, and leaves no transmitted message in the send list or unmarked. -/
def HandsOverOnce (o : ObjectProxy) (answers : ℕ → SendResult) : Prop :=
  ∃ n o' events, o.doInvoke ((List.range n).map answers) = some (o', events, true) ∧
    (handed events).Sublist o.timeoutQueue.unsent ∧
    ∀ msg ∈ transmitted events, msg ∉ o'.timeoutQueue.unsent ∧
      ∃ id info, o'.timeoutQueue.data.lookup id = some info ∧ info.ptr = msg ∧
        info.hasSend = true

/-- Nothing waits, or the transceiver refuses the first message. -/
def Idle (o : ObjectProxy) (answer : SendResult) : Prop :=
  o.timeoutQueue.sendListEmpty = true ∨ o.trans.Refuses answer

instance (o : ObjectProxy) (answer : SendResult) : Decidable (o.Idle answer) :=
  inferInstanceAs (Decidable (_ ∨ _))

section OneCall

variable {o : ObjectProxy} {answer : SendResult}

/-- Without waiting messages `doInvoke` does nothing, and it needs no answer. -/
theorem doInvoke_of_empty {answers : List SendResult}
    (h : o.timeoutQueue.sendListEmpty = true) : o.doInvoke answers = some (o, [], true) := by
  cases answers with
  | nil => rw [doInvoke, h]
  | cons answer answers => rw [doInvoke, if_pos h]

/-- A refused message ends `doInvoke` at once, and the message stays at the front of the send list.
-/
theorem doInvoke_of_refuses {msg : ReqMessage} {answers : List SendResult}
    (hne : o.timeoutQueue.sendListEmpty = false)
    (hget : o.timeoutQueue.getSend = some (some msg)) (hrefuse : o.trans.Refuses answer) :
    o.doInvoke (answer :: answers) =
      some (o, [.sendRequest msg Transceiver.eRetError], true) := by
  have hnext : o.sendOldest answer = some (o, msg, Transceiver.eRetError) := by
    simp only [sendOldest, hget, Option.join_some,
      Transceiver.sendRequest_of_refuses hrefuse]
  rw [doInvoke, hne, hnext]
  simp

/-- A message that is not refused is transmitted, and it still waits afterwards. -/
theorem Valid.doInvoke_transmits (h : o.Valid) {msg : ReqMessage} {answers : List SendResult}
    {o' : ObjectProxy} {events : List Event} {ended : Bool}
    (hne : o.timeoutQueue.sendListEmpty = false)
    (hget : o.timeoutQueue.getSend = some (some msg)) (haccept : ¬o.trans.Refuses answer)
    (hrun : o.doInvoke (answer :: answers) = some (o', events, ended)) :
    msg ∈ transmitted events := by
  obtain ⟨trans, iRet, hsend, -, -, -, herror⟩ :=
    h.trans_wf.sendRequest_total (h.size_le.getSend hget) answer
  have hret : iRet ≠ Transceiver.eRetError := fun heq => haccept (herror.mp heq)
  have hnext : o.sendOldest answer = some ({ o with trans }, msg, iRet) := by
    simp only [sendOldest, hget, Option.join_some, hsend]
  rw [ObjectProxy.doInvoke, hne, hnext] at hrun
  simp only [Bool.false_eq_true, if_false, hret, false_or] at hrun
  split at hrun
  · simp only [Option.some.injEq, Prod.mk.injEq] at hrun
    obtain ⟨-, rfl, -⟩ := hrun
    simp [hret]
  · split at hrun
    · cases hrun
    · simp only [Option.some.injEq, Prod.mk.injEq] at hrun
      obtain ⟨-, rfl, -⟩ := hrun
      simp [hret]

/-- An idle `doInvoke` does what it is meant to do. -/
theorem Valid.handsOverOnce (h : o.Valid) {answers : ℕ → SendResult}
    (hidle : o.Idle (answers 0)) : o.HandsOverOnce answers := by
  cases hne : o.timeoutQueue.sendListEmpty with
  | true =>
    refine ⟨0, o, [], doInvoke_of_empty hne, List.nil_sublist _, ?_⟩
    simp
  | false =>
    have hrefuse : o.trans.Refuses (answers 0) := by simpa [Idle, hne] using hidle
    obtain ⟨msg, hget, hwaits, -⟩ := h.getSend_spec hne
    refine ⟨1, o, _, doInvoke_of_refuses hne hget hrefuse, ?_, ?_⟩
    · simpa [handed] using hwaits
    · simp

/-- A `doInvoke` that is not idle transmits a message that waits on. -/
theorem Valid.not_handsOverOnce (h : o.Valid) {answers : ℕ → SendResult}
    (hidle : ¬o.Idle (answers 0)) : ¬o.HandsOverOnce answers := by
  rintro ⟨n, o', events, hrun, -, hremoved⟩
  obtain ⟨hne, haccept⟩ := not_or.mp hidle
  rw [Bool.not_eq_true] at hne
  obtain ⟨msg, hget, hwaits, -⟩ := h.getSend_spec hne
  cases n with
  | zero => simp [ObjectProxy.doInvoke, hne] at hrun
  | succ n =>
    rw [List.range_succ_eq_map, List.map_cons] at hrun
    have hsent := h.doInvoke_transmits hne hget haccept hrun
    have hqueue := (doInvoke_frame hrun).1
    exact (hremoved msg hsent).1 (hqueue ▸ hwaits)

end OneCall

end ObjectProxy

namespace ProxyRun

open ObjectProxy Scripts

/-- Where the step calls `doInvoke`, the proxy is idle. -/
def CallsIdle (s : ProxyRun) : Action → Prop
  | .output answer answers => ∀ trans, s.proxy.trans.flush answer = some (trans, none) →
      ∀ first ∈ answers.head?, Idle { s.proxy with trans } first
  | _ => True

instance (s : ProxyRun) : (a : Action) → Decidable (s.CallsIdle a)
  | .output answer answers =>
    match h : s.proxy.trans.flush answer with
    | some (t, none) =>
      decidable_of_iff (∀ first ∈ answers.head?, Idle { s.proxy with trans := t } first)
        ⟨fun hidle trans' heq => by
          obtain ⟨rfl, -⟩ := Prod.mk.inj (Option.some.inj (h.symm.trans heq))
          exact hidle,
        fun hidle => hidle t h⟩
    | some (_, some _) => isTrue fun _ heq => by simp [h] at heq
    | none => isTrue fun _ heq => by simp [h] at heq
  | .invoke _ _ _ | .input _ => isTrue trivial

/-- The messages sent so far are different ones, all created before. -/
structure SentOnce (s : ProxyRun) : Prop where
  /-- Messages that were sent have been created before. -/
  addr_lt : ∀ msg ∈ s.sent, msg.addr < s.created
  /-- No message was sent twice. -/
  nodup : (s.sent.map ReqMessage.addr).Nodup

/-- An idle `doInvoke` transmits nothing, so no message can be sent a second time. -/
theorem transmitted_of_idle {o o' : ObjectProxy} {answers : List SendResult}
    {events : List Event} {ended : Bool} (hidle : ∀ first ∈ answers.head?, o.Idle first)
    (hrun : o.doInvoke answers = some (o', events, ended)) : transmitted events = [] := by
  cases answers with
  | nil =>
    simp only [doInvoke, Option.some.injEq, Prod.mk.injEq] at hrun
    obtain ⟨-, rfl, -⟩ := hrun
    rfl
  | cons first answers =>
    cases hne : o.timeoutQueue.sendListEmpty with
    | true =>
      rw [doInvoke_of_empty hne] at hrun
      simp only [Option.some.injEq, Prod.mk.injEq] at hrun
      obtain ⟨-, rfl, -⟩ := hrun
      rfl
    | false =>
      have hrefuse : o.trans.Refuses first := by
        simpa [Idle, hne] using hidle first (by simp)
      rw [doInvoke, hne] at hrun
      cases hget : o.timeoutQueue.getSend.join with
      | none => simp [sendOldest, hget] at hrun
      | some msg =>
        rw [Option.join_eq_some_iff] at hget
        simp only [sendOldest, hget, Option.join_some,
          Transceiver.sendRequest_of_refuses hrefuse, Bool.false_eq_true, if_false, true_or,
          if_true, Option.some.injEq, Prod.mk.injEq] at hrun
        obtain ⟨-, rfl, -⟩ := hrun
        simp

/-- `invoke` transmits at most the message itself, and that at most once. -/
theorem transmitted_invoke {o o' : ObjectProxy} {msg : ReqMessage} {outcome : ConnectOutcome}
    {answer : SendResult} {events : List Event} {returned : Bool}
    (h : o.invoke msg outcome answer = some (o', events, returned)) :
    transmitted events = [] ∨ ∃ sent, transmitted events = [sent] ∧ sent.addr = msg.addr := by
  obtain ⟨-, -, rfl, -⟩ | ⟨-, -, trans, hasSend, handed, hhanded, heq⟩ := invoke_cases h
  · exact .inl rfl
  · obtain ⟨-, rfl⟩ := Prod.mk.inj heq
    rw [transmitted_append, (pushMessage_frame hasSend).2.2, List.append_nil]
    obtain ⟨-, -, -, rfl⟩ | ⟨-, iRet, -, -, rfl⟩ := hhanded
    · exact .inl rfl
    · by_cases herror : iRet = Transceiver.eRetError
      · exact .inl (by simp [herror])
      · exact .inr ⟨serialise msg o.generateId, by simp [herror], rfl⟩

/-- A step whose `doInvoke` is idle sends no message a second time. -/
theorem SentOnce.step {s s' : ProxyRun} {a : Action} {events : List Event} (h : s.SentOnce)
    (hidle : s.CallsIdle a) (hstep : s.step a = some (s', events)) : s'.SentOnce := by
  cases a with
  | invoke msg outcome answer =>
    obtain ⟨returned, hinvoke, hcreated, hsent⟩ := step_invoke hstep
    obtain hnone | ⟨sent, hone, haddr⟩ := transmitted_invoke hinvoke
    · rw [hnone, List.append_nil] at hsent
      refine ⟨fun msg hmsg => ?_, hsent ▸ h.nodup⟩
      rw [hcreated]
      exact Nat.lt_succ_of_lt (h.addr_lt msg (hsent ▸ hmsg))
    · rw [hone] at hsent
      refine ⟨fun msg hmsg => ?_, ?_⟩
      · rw [hsent, List.mem_append, List.mem_singleton] at hmsg
        rw [hcreated]
        obtain hold | rfl := hmsg
        · exact Nat.lt_succ_of_lt (h.addr_lt msg hold)
        · rw [haddr]
          exact Nat.lt_succ_self _
      · rw [hsent, List.map_append, List.map_singleton, haddr, ← List.concat_eq_append]
        refine h.nodup.concat fun hmem => ?_
        obtain ⟨msg, hmsg, heq⟩ := List.mem_map.mp hmem
        exact absurd heq (Nat.ne_of_lt (h.addr_lt msg hmsg))
  | output answer answers =>
    obtain ⟨hrequest, hcreated, hsent⟩ := step_output hstep
    have hnone : transmitted events = [] := by
      obtain ⟨trans, ret, hflush, ⟨-, -, rfl⟩ | ⟨rfl, hrun⟩⟩ := doRequest_cases hrequest
      · rfl
      · exact transmitted_of_idle (hidle trans hflush) hrun
    rw [hnone, List.append_nil] at hsent
    exact ⟨by rw [hcreated, hsent]; exact h.addr_lt, hsent ▸ h.nodup⟩
  | input answers =>
    obtain ⟨hinput, hcreated, hsent⟩ := step_input hstep
    rw [transmitted_handleInputImp hinput, List.append_nil] at hsent
    exact ⟨by rw [hcreated, hsent]; exact h.addr_lt, hsent ▸ h.nodup⟩

/-- **When waiting messages are sent once.** A call of `doInvoke` ends, hands over each
message at most once and in order, and takes the transmitted ones off the send list exactly
when it is idle. In a run whose calls are all idle no message is transmitted twice. -/
theorem doInvoke_once_iff (script : List Action) (s : ProxyRun) (events : List Event)
    (hexec : exec step new script = some (s, events)) :
    (∀ (o : ObjectProxy) (answers : ℕ → SendResult), o.Valid →
      (o.HandsOverOnce answers ↔ o.Idle (answers 0))) ∧
    (Along step CallsIdle new script → (s.sent.map ReqMessage.addr).Nodup) := by
  refine ⟨fun o answers hvalid => ⟨fun honce => ?_, hvalid.handsOverOnce⟩, fun halong => ?_⟩
  · by_contra hidle
    exact hvalid.not_handsOverOnce hidle honce
  · have hinit : SentOnce new := ⟨by simp [new], by simp [new]⟩
    exact (exec_invariant (fun s a s' es h hC hstep => SentOnce.step h hC hstep) hinit halong
      hexec).nodup

/-- Two requests on a slow connection: the first fills the send buffer, so the second
waits. Then the buffer is sent but nothing more. -/
def waitingScript : List Action :=
  [.invoke sampleMessage .inProgress .again, .invoke sampleMessage .inProgress .again,
    .output (.accepted 100) [.error]]

/-- In the run of `waitingScript` a message waits when `doInvoke` is called, but it is refused. So
the first request alone is sent, once, and the next call is idle if it is refused as well. -/
theorem doInvoke_once_sample : ∃ s events, exec step new waitingScript = some (s, events) ∧
    s.proxy.timeoutQueue.sendListEmpty = false ∧ s.proxy.Idle .error ∧
      (s.proxy.HandsOverOnce (fun _ => .error) ↔ s.proxy.Idle .error) ∧
      s.sent.length = 1 ∧ (s.sent.map ReqMessage.addr).Nodup := by
  have hvalid := valid_of_exec (show ∀ a ∈ waitingScript, Fits a by
    simp [waitingScript, Fits]; decide) rfl
  exact ⟨_, _, rfl, by decide, by decide,
    (doInvoke_once_iff waitingScript _ _ rfl).1 _ _ hvalid, by decide,
    (doInvoke_once_iff waitingScript _ _ rfl).2 (by decide +kernel)⟩

/-- **A waiting message is sent again and again.** From the state after `waitingScript` a
socket that takes all bytes receives the second message twice. -/
theorem waiting_message_resent :
    ∃ s events, exec step new waitingScript = some (s, events) ∧
      ¬s.proxy.HandsOverOnce (fun _ => .accepted 100) ∧
      ∃ s' events', exec step s [.output .again [.accepted 100, .accepted 100, .error]] =
          some (s', events') ∧ ¬(s'.sent.map ReqMessage.addr).Nodup := by
  refine ⟨_, _, rfl, ?_, _, _, rfl, by decide⟩
  have hvalid := valid_of_exec (show ∀ a ∈ waitingScript, Fits a by
    simp [waitingScript, Fits]; decide) rfl
  exact hvalid.not_handsOverOnce (by decide)

end ProxyRun

end Tars
