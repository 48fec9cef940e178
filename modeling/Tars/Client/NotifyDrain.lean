import Tars.Client.ObjectProxy
import Tars.Util.LoopQueue
import Mathlib.Logic.Function.Basic

/-!
# Draining a request queue

When a thread notifies the network thread, `CommunicatorEpoll::handle` pops the messages of
its queue and invokes them one after the other. The exception handler is outside of the
loop, so a `connect` that throws loses its message and leaves the later ones in the queue.
-/

namespace Tars

namespace ObjectProxy

section Invoke

variable {o o' : ObjectProxy} {msg : ReqMessage} {outcome : ConnectOutcome}
  {answer : SendResult} {events : List Event} {returned : Bool}

/-- `invoke` on a valid proxy never runs into an assertion. It throws exactly when
`connect` does. -/
theorem Valid.invoke_total (h : o.Valid) (hsize : msg.request.length ≤ ObjectProxy.maxRequest)
    (outcome : ConnectOutcome) (answer : SendResult) :
    ∃ o' events, o.invoke msg outcome answer = some (o', events, outcome.assigns) := by
  rw [ObjectProxy.invoke, Transceiver.connect_snd]
  cases outcome.assigns with
  | false => exact ⟨_, _, rfl⟩
  | true =>
    simp only [if_true]
    split
    · obtain ⟨t, iRet, hsend, -⟩ := (h.trans_wf.connect outcome).sendRequest_total
        (length_serialise_le _ hsize) answer
      rw [hsend]
      exact ⟨_, _, rfl⟩
    · exact ⟨_, _, rfl⟩

/-- `invoke` keeps the messages that are stored, also when it finishes its own message or throws. -/
theorem invoke_keeps (h : o.invoke msg outcome answer = some (o', events, returned)) {id : ℕ}
    {info : PtrInfo ReqMessage} (hinfo : o.timeoutQueue.data.lookup id = some info) :
    o'.timeoutQueue.data.lookup id = some info := by
  obtain ⟨-, -, -, rfl⟩ | ⟨-, -, trans, hasSend, handed, -, heq⟩ := invoke_cases h
  · exact hinfo
  · obtain ⟨rfl, -⟩ := Prod.mk.inj heq
    rw [pushMessage_timeoutQueue]
    exact TimeoutQueue.push_keeps hinfo

/-- Finishing a message keeps its identity: only the status and the response are written. -/
theorem finishInvokeMsg_addr (msg : ReqMessage) : (finishInvokeMsg msg).addr = msg.addr := by
  unfold finishInvokeMsg
  split <;> rfl

/-- A push finishes no other message than the pushed one. -/
theorem pushMessage_finishes {hasSend : Bool} {done : ReqMessage}
    (h : .finishInvoke done ∈ (o.pushMessage msg hasSend).2) : done.addr = msg.addr := by
  simp only [pushMessage] at h
  split at h
  · cases h
  · obtain rfl := Event.finishInvoke.inj (List.mem_singleton.mp h)
    exact finishInvokeMsg_addr _

/-- A pushed message is stored under its id, or finished at once because its id is in use: it is
never lost here. -/
theorem pushMessage_completes (o : ObjectProxy) (msg : ReqMessage) (hasSend : Bool) :
    (∃ id info, (o.pushMessage msg hasSend).1.timeoutQueue.data.lookup id = some info ∧
        info.ptr.addr = msg.addr) ∨
      ∃ done, .finishInvoke done ∈ (o.pushMessage msg hasSend).2 ∧ done.addr = msg.addr := by
  by_cases hused : toUInt32 msg.iRequestId ∈ o.timeoutQueue.data
  · refine .inr ⟨_, ?_, finishInvokeMsg_addr { msg with eStatus := .REQ_EXC }⟩
    simp [pushMessage, TimeoutQueue.push_of_mem hused]
  · refine .inl ⟨toUInt32 msg.iRequestId, ⟨msg, hasSend, o.timeoutQueue.nextNode,
      o.timeoutQueue.nextNode⟩, ?_, rfl⟩
    rw [pushMessage_timeoutQueue, TimeoutQueue.push_lookup hused, if_pos rfl]

/-- `invoke` finishes no other message than its own, and this one only if its id is in use. -/
theorem invoke_finishes (h : o.invoke msg outcome answer = some (o', events, returned))
    {done : ReqMessage} (hdone : .finishInvoke done ∈ events) : done.addr = msg.addr := by
  obtain ⟨-, -, rfl, -⟩ | ⟨-, -, trans, hasSend, handed, hhanded, heq⟩ := invoke_cases h
  · cases hdone
  · obtain ⟨-, rfl⟩ := Prod.mk.inj heq
    obtain hsent | hpushed := List.mem_append.mp hdone
    · obtain ⟨-, -, -, rfl⟩ | ⟨-, iRet, -, -, rfl⟩ := hhanded
      · cases hsent
      · cases List.mem_singleton.mp hsent
    · exact (pushMessage_finishes hpushed : _ = (serialise msg o.generateId).addr)

/-- An `invoke` that returns stores the message or finishes it. -/
theorem invoke_completes (h : o.invoke msg outcome answer = some (o', events, true)) :
    (∃ id info, o'.timeoutQueue.data.lookup id = some info ∧ info.ptr.addr = msg.addr) ∨
      ∃ done, .finishInvoke done ∈ events ∧ done.addr = msg.addr := by
  obtain ⟨-, hfalse, -⟩ | ⟨-, -, trans, hasSend, handed, -, heq⟩ := invoke_cases h
  · cases hfalse
  · obtain ⟨rfl, rfl⟩ := Prod.mk.inj heq
    obtain hstored | ⟨done, hdone, haddr⟩ := pushMessage_completes
      ⟨trans, o.timeoutQueue, o.generateId⟩ (serialise msg o.generateId) hasSend
    · exact .inl hstored
    · exact .inr ⟨done, List.mem_append_right _ hdone, haddr⟩

/-- An `invoke` that throws neither stores nor finishes anything. -/
theorem invoke_throws (h : o.invoke msg outcome answer = some (o', events, false)) :
    events = [] ∧ o'.timeoutQueue = o.timeoutQueue := by
  obtain ⟨-, -, rfl, rfl⟩ | ⟨-, htrue, -⟩ := invoke_cases h
  · exact ⟨rfl, rfl⟩
  · cases htrue

end Invoke

end ObjectProxy

/-- The network thread as far as one request queue is concerned. -/
structure CommunicatorEpoll where
  /-- The object proxies, by the numbers that the messages name. -/
  proxies : ℕ → ObjectProxy
  /-- The queue of the notifying thread; it is deleted when the thread exits. -/
  pInfoQueue : Option (LoopQueue ReqMessage)

namespace CommunicatorEpoll

/-- The answers of the kernel to one `invoke`: to its `connect` and to its `::send`. -/
abbrev Answer := ConnectOutcome × SendResult

/-- One iteration of the loop in `handle`. The last component says whether the loop goes
on. It fails where the source asserts that nothing is behind a thread's last message. -/
def popInvoke (s : CommunicatorEpoll) (answer : Answer) :
    Option (CommunicatorEpoll × List Event × Bool) :=
  match s.pInfoQueue with
  | none => none
  | some queue =>
    match queue.popFront with
    | none => some (s, [], false)
    | some (msg, queue) =>
      if msg.eType = .THREAD_EXIT then
        if queue.empty then some ({ s with pInfoQueue := none }, [], false) else none
      else
        ((s.proxies msg.pObjectProxy).invoke msg answer.1 answer.2).map fun r =>
          (⟨Function.update s.proxies msg.pObjectProxy r.1, some queue⟩, r.2.1, r.2.2)

/-- The loop in `handle`. An exception ends it like a `return`. The first argument bounds
the iterations. -/
def popLoop : ℕ → (ℕ → Answer) → CommunicatorEpoll → Option (CommunicatorEpoll × List Event)
  | 0, _, _ => none
  | fuel + 1, answers, s =>
    match s.popInvoke (answers 0) with
    | none => none
    | some (s, events, false) => some (s, events)
    | some (s, events, true) =>
      match popLoop fuel (fun i => answers (i + 1)) s with
      | none => none
      | some (s, later) => some (s, events ++ later)

/-- `handle` for a notification. No more messages are popped than the queue holds. -/
def handle (s : CommunicatorEpoll) (answers : ℕ → Answer) :
    Option (CommunicatorEpoll × List Event) :=
  match s.pInfoQueue with
  | none => none
  | some queue => popLoop (queue.size + 1) answers s

/-- The message is registered in the timeout queue of its proxy, or it was passed to
`finishInvoke`. -/
def Completed (s : CommunicatorEpoll) (events : List Event) (msg : ReqMessage) : Prop :=
  (∃ id info, (s.proxies msg.pObjectProxy).timeoutQueue.data.lookup id = some info ∧
      info.ptr.addr = msg.addr) ∨
    ∃ done, .finishInvoke done ∈ events ∧ done.addr = msg.addr

/-- Handling the notification for a queue of these messages leaves none of them in the
queue, and completes every request. -/
def LosesNone (s : CommunicatorEpoll) (answers : ℕ → Answer) (l : List ReqMessage) : Prop :=
  ∃ s' events, s.handle answers = some (s', events) ∧
    (∀ queue, s'.pInfoQueue = some queue → queue.empty = true) ∧
    ∀ msg ∈ l, msg.eType ≠ .THREAD_EXIT → Completed s' events msg

/-- No `connect` of a request throws, and nothing is behind a thread's last message. -/
def Undisturbed (answers : ℕ → Answer) (l : List ReqMessage) : Prop :=
  ∀ i msg, l[i]? = some msg →
    if msg.eType = .THREAD_EXIT then i + 1 = l.length else (answers i).1.assigns = true

/-- A network thread that is notified of a queue of new messages. -/
structure Notified (s : CommunicatorEpoll) (l : List ReqMessage) : Prop where
  /-- The queue holds the messages. -/
  holds : ∃ queue, s.pInfoQueue = some queue ∧ queue.Holds l
  /-- The proxies are valid, so `invoke` does not fail on any of them. -/
  valid : ∀ k, (s.proxies k).Valid
  /-- The requests fit in memory. -/
  fits : ∀ msg ∈ l, msg.request.length ≤ ObjectProxy.maxRequest
  /-- The messages are different objects. -/
  distinct : (l.map ReqMessage.addr).Nodup
  /-- No proxy stores one of them yet. -/
  fresh : ∀ msg ∈ l, ∀ k, (s.proxies k).Stores fun stored => stored.addr ≠ msg.addr

section Loop

variable {s s' : CommunicatorEpoll} {msg : ReqMessage} {l : List ReqMessage}
  {answer : Answer} {answers : ℕ → Answer} {events : List Event} {goesOn : Bool}

/-- The messages of a queue are undisturbed when the first one is and the others are. -/
theorem undisturbed_cons :
    Undisturbed answers (msg :: l) ↔
      if msg.eType = .THREAD_EXIT then l = []
      else (answers 0).1.assigns = true ∧ Undisturbed (fun i => answers (i + 1)) l := by
  constructor
  · intro h
    have hfirst := h 0 msg rfl
    split
    · rename_i hexit
      rw [if_pos hexit, List.length_cons] at hfirst
      exact List.length_eq_zero_iff.mp (by omega)
    · rename_i hrequest
      refine ⟨by rwa [if_neg hrequest] at hfirst, fun i other hother => ?_⟩
      simpa using h (i + 1) other hother
  · intro h i other hother
    split at h
    · rename_i hexit
      subst h
      obtain rfl : i = 0 := by simpa using (List.getElem?_eq_some_iff.mp hother).1
      obtain rfl := Option.some.inj hother
      rw [if_pos hexit]
      rfl
    · rename_i hrequest
      cases i with
      | zero =>
        obtain rfl := Option.some.inj hother
        rw [if_neg hrequest]
        exact h.1
      | succ i => simpa using h.2 i other hother

/-- The messages that a proxy stores are still there after later steps. -/
def Keeps (s s' : CommunicatorEpoll) : Prop :=
  ∀ k id info, (s.proxies k).timeoutQueue.data.lookup id = some info →
    (s'.proxies k).timeoutQueue.data.lookup id = some info

/-- A completed message stays completed, whatever follows, as long as no stored message is taken
away. -/
theorem Completed.mono (h : Completed s events msg) (hkeeps : Keeps s s') (later : List Event) :
    Completed s' (events ++ later) msg := by
  obtain ⟨id, info, hinfo, haddr⟩ | ⟨done, hdone, haddr⟩ := h
  · exact .inl ⟨id, info, hkeeps _ _ _ hinfo, haddr⟩
  · exact .inr ⟨done, List.mem_append_left _ hdone, haddr⟩

/-- On an empty queue the loop ends: `pop_front` finds nothing, and the thread waits for the next
notification. -/
theorem Notified.popInvoke_nil (h : s.Notified []) :
    s.popInvoke answer = some (s, [], false) ∧
      ∀ queue, s.pInfoQueue = some queue → queue.empty = true := by
  obtain ⟨queue, hqueue, hholds⟩ := h.holds
  refine ⟨by simp only [popInvoke, hqueue, hholds.popFront_nil], fun other hother => ?_⟩
  obtain rfl := Option.some.inj (hqueue.symm.trans hother)
  simpa [LoopQueue.empty] using hholds.index_eq_iff.mpr rfl

/-- A thread's last message deletes the queue; behind it nothing may be left. -/
theorem Notified.popInvoke_exit (h : s.Notified (msg :: l)) (hexit : msg.eType = .THREAD_EXIT) :
    s.popInvoke answer = if l = [] then some ({ s with pInfoQueue := none }, [], false)
      else none := by
  obtain ⟨queue, hqueue, hholds⟩ := h.holds
  obtain ⟨rest, hpop, hrest, -⟩ := hholds.popFront_cons
  have hempty : rest.empty = true ↔ l = [] := by
    simpa [LoopQueue.empty] using hrest.index_eq_iff
  simp only [popInvoke, hqueue, hpop, hexit, if_true, hempty]

/-- **One request.** The loop invokes it, goes on exactly if `connect` did not throw, and
then the request is completed; otherwise nothing happens to it. -/
theorem Notified.popInvoke_request (h : s.Notified (msg :: l))
    (hrequest : msg.eType ≠ .THREAD_EXIT) :
    ∃ s' events, s.popInvoke answer = some (s', events, answer.1.assigns) ∧ s'.Notified l ∧
      Keeps s s' ∧ (∀ done, .finishInvoke done ∈ events → done.addr = msg.addr) ∧
      if answer.1.assigns then Completed s' events msg else ¬Completed s' events msg := by
  obtain ⟨queue, hqueue, hholds⟩ := h.holds
  obtain ⟨rest, hpop, hrest, -⟩ := hholds.popFront_cons
  have hfits := h.fits msg List.mem_cons_self
  have hdistinct := List.nodup_cons.mp h.distinct
  let k := msg.pObjectProxy
  obtain ⟨o, events, hinvoke⟩ := (h.valid k).invoke_total hfits answer.1 answer.2
  let s' : CommunicatorEpoll := ⟨Function.update s.proxies k o, some rest⟩
  have hproxy (j : ℕ) (hj : j ≠ k) : s'.proxies j = s.proxies j := Function.update_of_ne hj _ _
  have hself : s'.proxies k = o := Function.update_self _ _ _
  refine ⟨s', events, ?_, ⟨⟨rest, rfl, hrest⟩, fun j => ?_, fun other hother =>
    h.fits other (List.mem_cons_of_mem _ hother), hdistinct.2, fun other hother j => ?_⟩,
    fun j id info hinfo => ?_, fun done hdone => ObjectProxy.invoke_finishes hinvoke hdone, ?_⟩
  · simp only [popInvoke, hqueue, hpop, if_neg hrequest, hinvoke, Option.map_some, k, s']
  · by_cases hj : j = k
    · subst hj
      rw [hself]
      exact (h.valid _).invoke hfits hinvoke
    · rw [hproxy j hj]
      exact h.valid j
  · have hfresh := h.fresh other (List.mem_cons_of_mem _ hother) j
    by_cases hj : j = k
    · subst hj
      rw [hself]
      have hne : msg.addr ≠ other.addr := fun heq =>
        hdistinct.1 (heq ▸ List.mem_map_of_mem hother)
      exact hfresh.invoke hne hinvoke
    · rw [hproxy j hj]
      exact hfresh
  · by_cases hj : j = k
    · subst hj
      rw [hself]
      exact ObjectProxy.invoke_keeps hinvoke hinfo
    · rw [hproxy j hj]
      exact hinfo
  · cases hassigns : answer.1.assigns with
    | true =>
      rw [hassigns] at hinvoke
      have hcompletes := ObjectProxy.invoke_completes hinvoke
      rw [← hself] at hcompletes
      exact hcompletes
    | false =>
      rw [hassigns] at hinvoke
      obtain ⟨rfl, hsame⟩ := ObjectProxy.invoke_throws hinvoke
      rintro (⟨id, info, hinfo, haddr⟩ | ⟨done, hdone, -⟩)
      · rw [hself, hsame] at hinfo
        exact h.fresh msg List.mem_cons_self k id info hinfo haddr
      · cases hdone

/-- **Undisturbed queues are drained.** The loop empties the queue and completes every
request. -/
theorem Notified.popLoop_completes (h : s.Notified l) (hclean : Undisturbed answers l)
    {fuel : ℕ} (hfuel : l.length < fuel) :
    ∃ s' events, popLoop fuel answers s = some (s', events) ∧ Keeps s s' ∧
      (∀ queue, s'.pInfoQueue = some queue → queue.empty = true) ∧
      ∀ msg ∈ l, msg.eType ≠ .THREAD_EXIT → Completed s' events msg := by
  induction l generalizing s answers fuel with
  | nil =>
    obtain ⟨hpop, hempty⟩ := h.popInvoke_nil
    obtain ⟨fuel, rfl⟩ : ∃ n, fuel = n + 1 := ⟨fuel - 1, by omega⟩
    refine ⟨s, [], by rw [popLoop, hpop], fun _ _ _ hinfo => hinfo, hempty, by simp⟩
  | cons msg l ih =>
    obtain ⟨fuel, rfl⟩ : ∃ n, fuel = n + 1 := ⟨fuel - 1, by simp at hfuel; omega⟩
    rw [undisturbed_cons] at hclean
    by_cases hexit : msg.eType = .THREAD_EXIT
    · rw [if_pos hexit] at hclean
      subst hclean
      have hpop : s.popInvoke (answers 0) = some ({ s with pInfoQueue := none }, [], false) :=
        (h.popInvoke_exit hexit).trans (if_pos rfl)
      refine ⟨{ s with pInfoQueue := none }, [], by rw [popLoop, hpop],
        fun _ _ _ hinfo => hinfo, by simp, fun other hother hne => ?_⟩
      obtain rfl := List.mem_singleton.mp hother
      exact absurd hexit hne
    · rw [if_neg hexit] at hclean
      obtain ⟨s₁, first, hpop, hnext, hkeeps, -, hdone⟩ :=
        h.popInvoke_request hexit
      rw [hclean.1] at hpop hdone
      obtain ⟨s', later, hloop, hkeeps', hempty, hall⟩ :=
        ih hnext hclean.2 (by simpa using hfuel)
      refine ⟨s', first ++ later, by rw [popLoop, hpop]; simp only [hloop],
        fun k id info hinfo => hkeeps' k id info (hkeeps k id info hinfo), hempty,
        fun other hother hne => ?_⟩
      obtain rfl | hother := List.mem_cons.mp hother
      · exact Completed.mono hdone hkeeps' later
      · obtain hstored | ⟨done, hmem, haddr⟩ := hall other hother hne
        · exact .inl hstored
        · exact .inr ⟨done, List.mem_append_right _ hmem, haddr⟩

/-- **Only undisturbed queues are.** When the loop ends normally and every request is
completed, no `connect` threw. -/
theorem Notified.undisturbed_of_popLoop (h : s.Notified l) {fuel : ℕ}
    (hloop : popLoop fuel answers s = some (s', events))
    (hall : ∀ msg ∈ l, msg.eType ≠ .THREAD_EXIT → Completed s' events msg) :
    Undisturbed answers l := by
  induction l generalizing s answers fuel events with
  | nil => simp [Undisturbed]
  | cons msg l ih =>
    cases fuel with
    | zero => cases hloop
    | succ fuel =>
      rw [undisturbed_cons]
      split
      · rename_i hexit
        by_contra hne
        rw [popLoop, h.popInvoke_exit hexit, if_neg hne] at hloop
        cases hloop
      · rename_i hrequest
        obtain ⟨s₁, first, hpop, hnext, -, hfinishes, hdone⟩ :=
          h.popInvoke_request hrequest
        rw [popLoop, hpop] at hloop
        cases hassigns : (answers 0).1.assigns with
        | false =>
          simp only [hassigns, Option.some.injEq, Prod.mk.injEq] at hloop
          obtain ⟨rfl, rfl⟩ := hloop
          rw [hassigns] at hdone
          exact absurd (hall msg List.mem_cons_self hrequest) hdone
        | true =>
          simp only [hassigns] at hloop
          split at hloop
          · cases hloop
          · rename_i s₂ later hlater
            simp only [Option.some.injEq, Prod.mk.injEq] at hloop
            obtain ⟨rfl, rfl⟩ := hloop
            refine ⟨rfl, ih hnext hlater fun other hother hne => ?_⟩
            obtain hstored | ⟨done, hmem, haddr⟩ :=
              hall other (List.mem_cons_of_mem _ hother) hne
            · exact .inl hstored
            · -- the first message is another object, so its events do not finish this one
              obtain hmem | hmem := List.mem_append.mp hmem
              · have hsame : other.addr = msg.addr := haddr.symm.trans (hfinishes done hmem)
                have hnew := (List.nodup_cons.mp h.distinct).1
                exact absurd (hsame ▸ List.mem_map_of_mem hother) hnew
              · exact .inr ⟨done, hmem, haddr⟩

/-- **When no message is lost.** Handling a notification empties the queue and registers or
finishes every request in it exactly when no `connect` throws and nothing is behind a
thread's last message. -/
theorem losesNone_iff (h : s.Notified l) :
    s.LosesNone answers l ↔ Undisturbed answers l := by
  obtain ⟨queue, hqueue, hholds⟩ := h.holds
  have hhandle : s.handle answers = popLoop (l.length + 1) answers s := by
    simp only [handle, hqueue, hholds.size_eq]
  constructor
  · rintro ⟨s', events, hrun, -, hall⟩
    exact h.undisturbed_of_popLoop (hhandle ▸ hrun) hall
  · intro hclean
    obtain ⟨s', events, hloop, -, hempty, hall⟩ :=
      h.popLoop_completes hclean (Nat.lt_succ_self l.length)
    exact ⟨s', events, hhandle.trans hloop, hempty, hall⟩

end Loop

/-- A network thread with new proxies and a queue that was filled with these messages. -/
def notified (messages : List ReqMessage) : CommunicatorEpoll :=
  ⟨fun _ => .new, some (messages.foldl (fun queue msg => (queue.pushBack msg).queue) (.new 1000))⟩

/-- Up to thousand different messages are a notification: they fit into the request queue of the
thread. -/
theorem notified_notified {l : List ReqMessage} (hlen : l.length ≤ 1000)
    (hfits : ∀ msg ∈ l, msg.request.length ≤ ObjectProxy.maxRequest)
    (hdistinct : (l.map ReqMessage.addr).Nodup) :
    (notified l).Notified l := by
  have hfill (rest done : List ReqMessage) (queue : LoopQueue ReqMessage)
      (hq : queue.Holds done) (hcap : queue.iCapacitySub = 1000)
      (hroom : done.length + rest.length ≤ 1000) :
      (rest.foldl (fun queue msg => (queue.pushBack msg).queue) queue).Holds (done ++ rest) := by
    induction rest generalizing done queue with
    | nil => simpa using hq
    | cons msg rest ih =>
      rw [List.length_cons] at hroom
      obtain ⟨-, hnext, hcap'⟩ := hq.pushBack_ok (t := msg) (by omega)
      have hlast := ih (done ++ [msg]) _ hnext (hcap'.trans hcap) (by simp; omega)
      rwa [List.append_assoc] at hlast
  refine ⟨⟨_, rfl, ?_⟩, fun _ => ObjectProxy.valid_new, hfits, hdistinct,
    fun _ _ _ => ObjectProxy.stores_new _⟩
  exact hfill l [] _ (LoopQueue.holds_new (by decide) (by decide)) rfl (by simpa using hlen)

/-- The statement on two requests, whose connections are established later: neither is lost. -/
theorem losesNone_sample :
    (notified [sampleMessage, { sampleMessage with addr := 1 }]).LosesNone
        (fun _ => (.inProgress, .again)) [sampleMessage, { sampleMessage with addr := 1 }] ∧
      ((notified [sampleMessage, { sampleMessage with addr := 1 }]).LosesNone
          (fun _ => (.inProgress, .again)) [sampleMessage, { sampleMessage with addr := 1 }] ↔
        Undisturbed (fun _ => (.inProgress, .again))
          [sampleMessage, { sampleMessage with addr := 1 }]) := by
  have hnotified := notified_notified (l := [sampleMessage, { sampleMessage with addr := 1 }])
    (by decide) (by decide) (by decide)
  have hundisturbed : Undisturbed (fun _ => (.inProgress, .again))
      [sampleMessage, { sampleMessage with addr := 1 }] := by
    intro i msg hmsg
    have hmem := List.mem_of_getElem? hmsg
    simp only [List.mem_cons, List.not_mem_nil, or_false] at hmem
    rcases hmem with rfl | rfl <;> rfl
  exact ⟨(losesNone_iff hnotified).mpr hundisturbed, losesNone_iff hnotified⟩

/-- **Two messages are lost.** The server of the first of two requests cannot be reached. -/
theorem refused_connection_loses :
    ¬(notified [sampleMessage, { sampleMessage with addr := 1 }]).LosesNone
        (fun _ => (.connectFails, .again)) [sampleMessage, { sampleMessage with addr := 1 }] := by
  rintro ⟨s', events, hrun, -, hall⟩
  have hnotified := notified_notified (l := [sampleMessage, { sampleMessage with addr := 1 }])
    (by decide) (by decide) (by decide)
  have hclean := hnotified.undisturbed_of_popLoop hrun hall 0 sampleMessage rfl
  exact absurd hclean (by decide)

end CommunicatorEpoll

end Tars
