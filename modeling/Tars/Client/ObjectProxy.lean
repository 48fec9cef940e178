import Tars.Client.Transceiver
import Tars.Util.TimeoutQueue

/-!
# The object proxy

`ObjectProxy` gives every request an id, hands it to the transceiver and keeps it in the
timeout queue until its response arrives. All its methods run in one network thread. The
operations return `none` where the source runs into an assertion, and list the calls that
other parties notice as events.
-/

namespace Tars

/-- `ReqMessage::CallType`: whether the caller waits, has a callback, or ends the network thread. -/
inductive CallType where
  | SYNC_CALL
  | ASYNC_CALL
  | ONE_WAY
  | THREAD_EXIT
  deriving DecidableEq

/-- `ReqMessage::ReqStatus`: what has become of a request. -/
inductive ReqStatus where
  | REQ_REQ
  | REQ_RSP
  | REQ_TIME
  | REQ_BUSY
  | REQ_EXC
  deriving DecidableEq

/-- The members of `ReqMessage` that the network thread uses. -/
structure ReqMessage where
  /-- The identity of the allocated object. -/
  addr : ℕ
  /-- `eStatus`. -/
  eStatus : ReqStatus
  /-- `eType`. -/
  eType : CallType
  /-- `pObjectProxy`, as the number of the proxy. -/
  pObjectProxy : ℕ
  /-- `request`. -/
  request : Bytes
  /-- `response`. -/
  response : Bytes
  /-- `sReqData`, the bytes that go to the socket. -/
  sReqData : Bytes
  /-- `bMonitorFin`. -/
  bMonitorFin : Bool
  /-- `iBeginTime`. -/
  iBeginTime : ℤ
  /-- `iRequestId`. -/
  iRequestId : ℤ
  deriving DecidableEq

/-- A synchronous request for one proxy, for examples, with the body `x` for the method `m`. -/
def sampleMessage : ReqMessage :=
  { addr := 0, eStatus := .REQ_REQ, eType := .SYNC_CALL, pObjectProxy := 0,
    request := bytes "m:x", response := [], sReqData := [], bMonitorFin := false,
    iBeginTime := 0, iRequestId := 1 }

/-- The calls of an object proxy that its surroundings notice. -/
inductive Event where
  /-- `sendRequest` was called for the message and returned this value. -/
  | sendRequest (msg : ReqMessage) (iRet : ℤ)
  /-- `finishInvoke` was called for the message, which it left in this state. -/
  | finishInvoke (msg : ReqMessage)
  deriving DecidableEq

/-- The members of `ObjectProxy`: its transceiver, its queue of messages and its counter of ids. -/
structure ObjectProxy where
  /-- `_trans`. -/
  trans : Transceiver
  /-- `_timeoutQueue`. -/
  timeoutQueue : TimeoutQueue ReqMessage
  /-- `_id`. -/
  id : ℕ

namespace ObjectProxy

/-- The constructor: nothing was sent, nothing waits, and the first id is `1`. -/
def new : ObjectProxy := ⟨.new, .new, 0⟩

/-- `generateId`, whose result is also the new `_id`. It skips zero. -/
def generateId (o : ObjectProxy) : ℕ :=
  if (o.id + 1) % 2 ^ 32 = 0 then 1 else (o.id + 1) % 2 ^ 32

/-- The longest request whose serialised form a buffer can hold: the id in front of it has at most
eleven characters, and the colon one, of an array of `2 ^ 62` bytes. -/
def maxRequest : ℕ := 2 ^ 62 - 12

/-- The message with its id and its serialised form, as `invoke` fills them in. -/
def serialise (msg : ReqMessage) (id : ℕ) : ReqMessage :=
  { msg with iRequestId := toInt32 id, sReqData := toString (toInt32 id) ++ colon :: msg.request }

/-- `finishInvoke(ReqMessage*)`: the message afterwards. A synchronous caller is notified
through the monitor, an asynchronous message goes to a processing thread. -/
def finishInvokeMsg (msg : ReqMessage) : ReqMessage :=
  if msg.eType = .SYNC_CALL then { msg with bMonitorFin := true } else msg

/-- The push into the timeout queue at the end of `invoke`; a message whose id is in use
is finished with an error. -/
def pushMessage (o : ObjectProxy) (msg : ReqMessage) (hasSend : Bool) :
    ObjectProxy × List Event :=
  let pushed := o.timeoutQueue.push msg (toUInt32 msg.iRequestId) (1000 + msg.iBeginTime) hasSend
  if pushed.2 then ({ o with timeoutQueue := pushed.1 }, [])
  else (o, [.finishInvoke (finishInvokeMsg { msg with eStatus := .REQ_EXC })])

/-- `invoke`: the proxy afterwards, the calls it made, and whether it returned without
an exception. -/
def invoke (o : ObjectProxy) (msg : ReqMessage) (outcome : ConnectOutcome)
    (answer : SendResult) : Option (ObjectProxy × List Event × Bool) :=
  let connected := { o with trans := (o.trans.connect outcome).1 }
  if (o.trans.connect outcome).2 then
    let id := o.generateId
    let msg := serialise msg id
    let o := { connected with id }
    if o.timeoutQueue.sendListEmpty then
      match o.trans.sendRequest msg.sReqData answer with
      | none => none
      | some (trans, iRet) =>
        let pushed := pushMessage { o with trans } msg (iRet ≠ Transceiver.eRetError)
        some (pushed.1, .sendRequest msg iRet :: pushed.2, true)
    else
      let pushed := pushMessage o msg false
      some (pushed.1, pushed.2, true)
  else some (connected, [], false)

/-- `finishInvoke(const string&)`: the response completes the request whose id is in
front of the first colon. -/
def finishInvoke (o : ObjectProxy) (rsp : Bytes) : ObjectProxy × List Event :=
  let requestId := substrTo rsp (find colon rsp)
  let erased := o.timeoutQueue.erase (toUInt32 (atoi requestId))
  match erased.2 with
  | none => (o, [])
  | some msg =>
    ({ o with timeoutQueue := erased.1 },
      [.finishInvoke (finishInvokeMsg { msg with response := rsp })])

/-- One iteration of the loop of `doInvoke`: the oldest unsent message is handed over, with
the value that `sendRequest` returned. -/
def sendOldest (o : ObjectProxy) (answer : SendResult) :
    Option (ObjectProxy × ReqMessage × ℤ) :=
  match o.timeoutQueue.getSend.join with
  | none => none
  | some msg =>
    match o.trans.sendRequest msg.sReqData answer with
    | none => none
    | some (trans, iRet) => some ({ o with trans }, msg, iRet)

/-- `doInvoke` with the answers of its calls of `::send`, one for each iteration. The last
component says whether the loop ended within these answers. -/
def doInvoke : ObjectProxy → List SendResult → Option (ObjectProxy × List Event × Bool)
  | o, [] => some (o, [], o.timeoutQueue.sendListEmpty)
  | o, answer :: answers =>
    if o.timeoutQueue.sendListEmpty then some (o, [], true)
    else
      match o.sendOldest answer with
      | none => none
      | some (o, msg, iRet) =>
        if iRet = Transceiver.eRetError ∨ iRet = Transceiver.eRetFull then
          some (o, [.sendRequest msg iRet], true)
        else
          match doInvoke o answers with
          | none => none
          | some (o, events, ended) => some (o, .sendRequest msg iRet :: events, ended)

/-- `Transceiver::doRequest`, called by `handleOutputImp`: it sends the rest of the buffer and then
what waits. -/
def doRequest (o : ObjectProxy) (answer : SendResult) (answers : List SendResult) :
    Option (ObjectProxy × List Event × Bool) :=
  match o.trans.flush answer with
  | none => none
  | some (trans, some _) => some ({ o with trans }, [], true)
  | some (trans, none) => doInvoke { o with trans } answers

/-- Finish the responses of a list one after the other. -/
def finishAll (o : ObjectProxy) : List Bytes → ObjectProxy × List Event
  | [] => (o, [])
  | rsp :: done =>
    let first := o.finishInvoke rsp
    let rest := finishAll first.1 done
    (rest.1, first.2 ++ rest.2)

/-- `handleInputImp`: it reads what has arrived and finishes one message for each response. -/
def handleInputImp (o : ObjectProxy) (answers : List ReadResult) :
    Option (ObjectProxy × List Event) :=
  match o.trans.doResponse answers with
  | none => none
  | some (trans, done, iRet) =>
    if 0 < iRet then some (finishAll { o with trans } done) else some ({ o with trans }, [])

/-! ### What the operations keep -/

/-- The messages that were handed to the transceiver without `eRetError`. -/
def transmitted (events : List Event) : List ReqMessage :=
  events.filterMap fun
    | .sendRequest msg iRet => if iRet = Transceiver.eRetError then none else some msg
    | .finishInvoke _ => none

@[simp] theorem transmitted_nil : transmitted [] = [] := rfl

@[simp] theorem transmitted_append (events events' : List Event) :
    transmitted (events ++ events') = transmitted events ++ transmitted events' :=
  List.filterMap_append

@[simp] theorem transmitted_sendRequest (msg : ReqMessage) (iRet : ℤ) (events : List Event) :
    transmitted (.sendRequest msg iRet :: events) =
      (if iRet = Transceiver.eRetError then [] else [msg]) ++ transmitted events := by
  by_cases herror : iRet = Transceiver.eRetError <;> simp [transmitted, herror]

@[simp] theorem transmitted_finishInvoke (msg : ReqMessage) (events : List Event) :
    transmitted (.finishInvoke msg :: events) = transmitted events := by
  simp [transmitted]

/-- Every message in the timeout queue has the property `P`. -/
def Stores (o : ObjectProxy) (P : ReqMessage → Prop) : Prop :=
  ∀ id info, o.timeoutQueue.data.lookup id = some info → P info.ptr

/-- The invariant of a proxy: the parts are well formed, the id is a `uint32_t` and the
stored strings fit a send buffer. -/
structure Valid (o : ObjectProxy) : Prop where
  /-- The transceiver is well formed. -/
  trans_wf : o.trans.WF
  /-- The timeout queue is cross-linked. -/
  linked : o.timeoutQueue.Linked
  /-- The id is a `uint32_t`. -/
  id_lt : o.id < 2 ^ 32
  /-- A stored string fits a send buffer. -/
  size_le : o.Stores fun msg => msg.sReqData.length ≤ 2 ^ 62

/-- A new proxy stores no message, so all that it stores have any property. -/
theorem stores_new (P : ReqMessage → Prop) : new.Stores P := by
  simp [Stores, new, TimeoutQueue.new]

/-- A new proxy is valid: its queue is well formed and its buffers are empty. -/
theorem valid_new : new.Valid :=
  ⟨Transceiver.wf_new, TimeoutQueue.linked_new, by decide, stores_new _⟩

section Operations

variable {o o' : ObjectProxy} {msg : ReqMessage} {events : List Event} {ended : Bool}
variable {P : ReqMessage → Prop}

/-- Ids are positive `uint32_t` numbers, so `0` is never the id of a message. -/
theorem generateId_bounds (o : ObjectProxy) : 0 < o.generateId ∧ o.generateId < 2 ^ 32 := by
  unfold generateId
  split <;> omega

/-- Pushing a message keeps the transceiver and the id, and sends nothing. -/
theorem pushMessage_frame (hasSend : Bool) :
    (o.pushMessage msg hasSend).1.trans = o.trans ∧ (o.pushMessage msg hasSend).1.id = o.id ∧
      transmitted (o.pushMessage msg hasSend).2 = [] := by
  simp only [pushMessage]
  split <;> simp

/-- The timeout queue after a push, whether or not the id was free. -/
theorem pushMessage_timeoutQueue (hasSend : Bool) :
    (o.pushMessage msg hasSend).1.timeoutQueue =
      (o.timeoutQueue.push msg (toUInt32 msg.iRequestId) (1000 + msg.iBeginTime) hasSend).1 := by
  simp only [pushMessage]
  split
  · rfl
  · rename_i hused
    rw [TimeoutQueue.push_snd, not_not] at hused
    rw [TimeoutQueue.push_of_mem hused]

/-- What a proxy stores is in its timeout queue. -/
theorem Stores.congr (h : o.Stores P) (heq : o'.timeoutQueue = o.timeoutQueue) : o'.Stores P :=
  fun id info hinfo => h id info (heq ▸ hinfo)

/-- A push stores nothing but the message, so a property of all stored messages is kept if the new
one has it. -/
theorem Stores.pushMessage (h : o.Stores P) (hmsg : P msg) (hasSend : Bool) :
    (o.pushMessage msg hasSend).1.Stores P := by
  intro id info hinfo
  rw [pushMessage_timeoutQueue] at hinfo
  obtain hold | heq := TimeoutQueue.push_lookup_cases hinfo
  · exact h id info hold
  · rwa [heq]

/-- `finishInvoke` erases the entry of the id, if there is one. -/
theorem finishInvoke_timeoutQueue (rsp : Bytes) :
    (o.finishInvoke rsp).1.timeoutQueue =
      (o.timeoutQueue.erase (toUInt32 (atoi (substrTo rsp (find colon rsp))))).1 := by
  simp only [finishInvoke]
  split
  · rename_i hnone
    rw [TimeoutQueue.erase_snd, Option.map_eq_none_iff] at hnone
    rw [TimeoutQueue.erase_of_lookup_none hnone]
  · rfl

/-- Finishing a response keeps the transceiver and the id, and sends nothing. -/
theorem finishInvoke_frame (rsp : Bytes) :
    (o.finishInvoke rsp).1.trans = o.trans ∧ (o.finishInvoke rsp).1.id = o.id ∧
      transmitted (o.finishInvoke rsp).2 = [] := by
  simp only [finishInvoke]
  split <;> simp

/-- Finishing a response stores nothing: it can only take a message away. -/
theorem Stores.finishInvoke (h : o.Stores P) (rsp : Bytes) : (o.finishInvoke rsp).1.Stores P := by
  intro id info hinfo
  rw [finishInvoke_timeoutQueue, TimeoutQueue.erase_lookup] at hinfo
  split at hinfo
  · cases hinfo
  · exact h id info hinfo

/-- Finishing several responses keeps the transceiver and the id, and sends nothing. -/
theorem finishAll_frame (done : List Bytes) :
    (o.finishAll done).1.trans = o.trans ∧ (o.finishAll done).1.id = o.id ∧
      transmitted (o.finishAll done).2 = [] := by
  induction done generalizing o with
  | nil => exact ⟨rfl, rfl, rfl⟩
  | cons rsp done ih =>
    obtain ⟨htrans, hid, hsent⟩ := finishInvoke_frame (o := o) rsp
    obtain ⟨htrans', hid', hsent'⟩ := ih (o := (o.finishInvoke rsp).1)
    exact ⟨htrans'.trans htrans, hid'.trans hid, by simp [finishAll, hsent, hsent']⟩

/-- Finishing several responses stores nothing, since no single one does. -/
theorem Stores.finishAll (h : o.Stores P) (done : List Bytes) : (o.finishAll done).1.Stores P := by
  induction done generalizing o with
  | nil => exact h
  | cons rsp done ih => exact ih (h.finishInvoke rsp)

/-- **What `invoke` can do.** An exception of `connect` ends it. Otherwise it hands the
serialised message to the new connection, unless older messages wait, and pushes it. -/
theorem invoke_cases {outcome : ConnectOutcome} {answer : SendResult} {returned : Bool}
    (h : o.invoke msg outcome answer = some (o', events, returned)) :
    outcome.assigns = false ∧ returned = false ∧ events = [] ∧
        o' = { o with trans := (o.trans.connect outcome).1 } ∨
      outcome.assigns = true ∧ returned = true ∧
        ∃ trans hasSend handed,
          (o.timeoutQueue.sendListEmpty = false ∧ trans = (o.trans.connect outcome).1 ∧
              hasSend = false ∧ handed = [] ∨
            o.timeoutQueue.sendListEmpty = true ∧ ∃ iRet,
              (o.trans.connect outcome).1.sendRequest (serialise msg o.generateId).sReqData
                answer = some (trans, iRet) ∧
              hasSend = decide (iRet ≠ Transceiver.eRetError) ∧
              handed = [.sendRequest (serialise msg o.generateId) iRet]) ∧
          (o', events) =
            ((pushMessage ⟨trans, o.timeoutQueue, o.generateId⟩
                (serialise msg o.generateId) hasSend).1,
              handed ++ (pushMessage ⟨trans, o.timeoutQueue, o.generateId⟩
                (serialise msg o.generateId) hasSend).2) := by
  rw [invoke, Transceiver.connect_snd] at h
  cases hassigns : outcome.assigns with
  | false =>
    simp only [hassigns, Bool.false_eq_true, if_false, Option.some.injEq, Prod.mk.injEq] at h
    obtain ⟨rfl, rfl, rfl⟩ := h
    exact .inl ⟨rfl, rfl, rfl, rfl⟩
  | true =>
    refine .inr ⟨rfl, ?_⟩
    cases hempty : o.timeoutQueue.sendListEmpty with
    | false =>
      simp only [hassigns, hempty, if_true, Bool.false_eq_true, if_false, Option.some.injEq,
        Prod.mk.injEq] at h
      obtain ⟨rfl, rfl, rfl⟩ := h
      exact ⟨rfl, _, _, _, .inl ⟨rfl, rfl, rfl, rfl⟩, rfl⟩
    | true =>
      simp only [hassigns, hempty, if_true] at h
      split at h
      · cases h
      · rename_i trans iRet hsend
        simp only [Option.some.injEq, Prod.mk.injEq] at h
        obtain ⟨rfl, rfl, rfl⟩ := h
        exact ⟨rfl, _, _, _, .inr ⟨rfl, iRet, hsend, rfl, rfl⟩, rfl⟩

/-- `invoke` stores nothing but the serialised message, so a property of all stored messages is kept
if that one has it. -/
theorem Stores.invoke (h : o.Stores P) (hmsg : P (serialise msg o.generateId))
    {outcome : ConnectOutcome} {answer : SendResult} {returned : Bool}
    (hinvoke : o.invoke msg outcome answer = some (o', events, returned)) : o'.Stores P := by
  obtain ⟨-, -, -, rfl⟩ | ⟨-, -, trans, hasSend, handed, -, heq⟩ := invoke_cases hinvoke
  · exact h.congr rfl
  · obtain ⟨rfl, -⟩ := Prod.mk.inj heq
    have hconnected : Stores ⟨trans, o.timeoutQueue, o.generateId⟩ P := h.congr rfl
    exact hconnected.pushMessage hmsg hasSend

/-- One iteration of the loop of `doInvoke` leaves the timeout queue alone, and with it the message
that it has just handed over. -/
theorem sendOldest_frame {answer : SendResult} {iRet : ℤ}
    (h : o.sendOldest answer = some (o', msg, iRet)) :
    o.timeoutQueue.getSend = some (some msg) ∧ o'.timeoutQueue = o.timeoutQueue ∧
      o'.id = o.id ∧ o.trans.sendRequest msg.sReqData answer = some (o'.trans, iRet) := by
  cases hget : o.timeoutQueue.getSend.join with
  | none => simp [sendOldest, hget] at h
  | some oldest =>
    cases hsend : o.trans.sendRequest oldest.sReqData answer with
    | none => simp [sendOldest, hget, hsend] at h
    | some sent =>
      simp only [sendOldest, hget, hsend, Option.some.injEq, Prod.mk.injEq] at h
      obtain ⟨rfl, rfl, rfl⟩ := h
      exact ⟨Option.join_eq_some_iff.mp hget, rfl, rfl, hsend⟩

/-- `doInvoke` never changes the timeout queue, so it keeps handing over the same
message: the oldest unsent one. -/
theorem doInvoke_frame {answers : List SendResult}
    (h : o.doInvoke answers = some (o', events, ended)) :
    o'.timeoutQueue = o.timeoutQueue ∧ o'.id = o.id ∧
      ∀ e ∈ events, ∃ msg iRet, e = .sendRequest msg iRet ∧
        o.timeoutQueue.getSend = some (some msg) := by
  induction answers generalizing o events ended with
  | nil =>
    simp only [doInvoke, Option.some.injEq, Prod.mk.injEq] at h
    obtain ⟨rfl, rfl, -⟩ := h
    simp
  | cons answer answers ih =>
    rw [doInvoke] at h
    split at h
    · simp only [Option.some.injEq, Prod.mk.injEq] at h
      obtain ⟨rfl, rfl, -⟩ := h
      simp
    · split at h
      · cases h
      · rename_i next msg iRet hnext
        obtain ⟨hget, hqueue, hid, -⟩ := sendOldest_frame hnext
        split at h
        · simp only [Option.some.injEq, Prod.mk.injEq] at h
          obtain ⟨rfl, rfl, -⟩ := h
          exact ⟨hqueue, hid, fun e he => ⟨msg, iRet, List.mem_singleton.mp he, hget⟩⟩
        · split at h
          · cases h
          · rename_i hrest
            simp only [Option.some.injEq, Prod.mk.injEq] at h
            obtain ⟨rfl, rfl, rfl⟩ := h
            obtain ⟨hqueue', hid', hall⟩ := ih hrest
            refine ⟨hqueue'.trans hqueue, hid'.trans hid, fun e he => ?_⟩
            obtain rfl | he := List.mem_cons.mp he
            · exact ⟨msg, iRet, rfl, hget⟩
            · exact hqueue ▸ hall e he

/-- The message that `getSend` finds is one that is stored, so it has what all stored messages have.
-/
theorem Stores.getSend (h : o.Stores P) (hget : o.timeoutQueue.getSend = some (some msg)) :
    P msg := by
  obtain ⟨id, info, hinfo, -, rfl⟩ := TimeoutQueue.getSend_lookup hget
  exact h id info hinfo

/-- In a valid proxy with unsent messages the oldest one is found, and its string fits a send
buffer. -/
theorem Valid.getSend_spec (h : o.Valid) (hne : o.timeoutQueue.sendListEmpty = false) :
    ∃ msg, o.timeoutQueue.getSend = some (some msg) ∧ msg ∈ o.timeoutQueue.unsent ∧
      msg.sReqData.length ≤ 2 ^ 62 := by
  obtain ⟨n, info, -, hlookup, -, hget, hhead⟩ := h.linked.getSend_spec hne
  exact ⟨info.ptr, hget, List.mem_of_head? hhead, h.size_le _ _ hlookup⟩

/-- What `doRequest` can do: it returns after the flush or goes on to `doInvoke`. -/
theorem doRequest_cases {answer : SendResult} {answers : List SendResult}
    (h : o.doRequest answer answers = some (o', events, ended)) :
    ∃ trans ret, o.trans.flush answer = some (trans, ret) ∧
      (ret ≠ none ∧ o' = { o with trans } ∧ events = [] ∨
        ret = none ∧ doInvoke { o with trans } answers = some (o', events, ended)) := by
  unfold doRequest at h
  split at h
  · cases h
  · rename_i trans ret hflush
    simp only [Option.some.injEq, Prod.mk.injEq] at h
    obtain ⟨rfl, rfl, -⟩ := h
    exact ⟨trans, some ret, hflush, .inl ⟨by simp, rfl, rfl⟩⟩
  · rename_i trans hflush
    exact ⟨trans, none, hflush, .inr ⟨rfl, h⟩⟩

/-- What `handleInputImp` can do: it reads, and then finishes responses. -/
theorem handleInputImp_cases {answers : List ReadResult}
    (h : o.handleInputImp answers = some (o', events)) :
    ∃ trans done ret, o.trans.doResponse answers = some (trans, done, ret) ∧
      (0 < ret ∧ (o', events) = finishAll { o with trans } done ∨
        ret ≤ 0 ∧ o' = { o with trans } ∧ events = []) := by
  unfold handleInputImp at h
  split at h
  · cases h
  · rename_i trans done ret hread
    refine ⟨trans, done, ret, hread, ?_⟩
    split at h
    · rename_i hpos
      exact .inl ⟨hpos, (Option.some.inj h).symm⟩
    · rename_i hpos
      simp only [Option.some.injEq, Prod.mk.injEq] at h
      obtain ⟨rfl, rfl⟩ := h
      exact .inr ⟨by omega, rfl, rfl⟩

/-- `doRequest` stores nothing: the messages that it sends stay where they are. -/
theorem Stores.doRequest (h : o.Stores P) {answer : SendResult} {answers : List SendResult}
    (hrun : o.doRequest answer answers = some (o', events, ended)) : o'.Stores P := by
  obtain ⟨trans, ret, -, ⟨-, rfl, -⟩ | ⟨-, hloop⟩⟩ := doRequest_cases hrun
  · exact h.congr rfl
  · exact h.congr (doInvoke_frame hloop).1

/-- Reading responses stores nothing: it can only take messages away. -/
theorem Stores.handleInputImp (h : o.Stores P) {answers : List ReadResult}
    (hrun : o.handleInputImp answers = some (o', events)) : o'.Stores P := by
  obtain ⟨trans, done, ret, -, ⟨-, hall⟩ | ⟨-, rfl, -⟩⟩ := handleInputImp_cases hrun
  · obtain ⟨rfl, -⟩ := Prod.mk.inj hall
    have hread : Stores { o with trans } P := h.congr rfl
    exact hread.finishAll done
  · exact h.congr rfl

/-- Reading responses sends nothing, so nothing is noted as transmitted. -/
theorem transmitted_handleInputImp {answers : List ReadResult}
    (h : o.handleInputImp answers = some (o', events)) : transmitted events = [] := by
  obtain ⟨trans, done, ret, -, ⟨-, hall⟩ | ⟨-, -, rfl⟩⟩ := handleInputImp_cases h
  · obtain ⟨rfl, rfl⟩ := Prod.mk.inj hall
    exact (finishAll_frame done).2.2
  · rfl

/-- The serialised string of a request that is not too long fits a send buffer. -/
theorem length_serialise_le (id : ℕ) (h : msg.request.length ≤ maxRequest) :
    (serialise msg id).sReqData.length ≤ 2 ^ 62 := by
  unfold maxRequest at h
  obtain ⟨hlo, hhi⟩ := toInt32_bounds id
  have hprint := length_toString_le hlo hhi
  simp only [serialise, List.length_append, List.length_cons]
  omega

/-- Pushing a message of bounded size keeps a proxy valid, whether its id is free or in use. -/
theorem Valid.pushMessage (h : o.Valid) (hsize : msg.sReqData.length ≤ 2 ^ 62) (hasSend : Bool) :
    (o.pushMessage msg hasSend).1.Valid := by
  obtain ⟨htrans, hid, -⟩ := pushMessage_frame (o := o) hasSend
  exact ⟨htrans ▸ h.trans_wf, pushMessage_timeoutQueue (o := o) hasSend ▸ h.linked.push,
    hid ▸ h.id_lt, h.size_le.pushMessage hsize hasSend⟩

/-- Finishing responses keeps a proxy valid, since it only takes messages away. -/
theorem Valid.finishAll (h : o.Valid) (done : List Bytes) : (o.finishAll done).1.Valid := by
  induction done generalizing o with
  | nil => exact h
  | cons rsp done ih =>
    obtain ⟨htrans, hid, -⟩ := finishInvoke_frame (o := o) rsp
    exact ih ⟨htrans ▸ h.trans_wf, finishInvoke_timeoutQueue (o := o) rsp ▸ h.linked.erase,
      hid ▸ h.id_lt, h.size_le.finishInvoke rsp⟩

/-- `invoke` keeps a proxy valid, if the request is not too long for the send buffer. -/
theorem Valid.invoke (h : o.Valid) {outcome : ConnectOutcome} {answer : SendResult}
    {returned : Bool} (hsize : msg.request.length ≤ maxRequest)
    (hinvoke : o.invoke msg outcome answer = some (o', events, returned)) : o'.Valid := by
  obtain ⟨-, -, -, rfl⟩ | ⟨-, -, trans, hasSend, handed, hhanded, heq⟩ := invoke_cases hinvoke
  · exact ⟨h.trans_wf.connect outcome, h.linked, h.id_lt, h.size_le⟩
  · obtain ⟨rfl, -⟩ := Prod.mk.inj heq
    have hle := length_serialise_le o.generateId hsize
    have hwf : trans.WF := by
      obtain ⟨-, rfl, -⟩ | ⟨-, iRet, hsend, -⟩ := hhanded
      · exact h.trans_wf.connect outcome
      · obtain ⟨trans', iRet', hsend', hwf, -⟩ :=
          (h.trans_wf.connect outcome).sendRequest_total hle answer
        obtain ⟨rfl, -⟩ := Prod.mk.inj (Option.some.inj (hsend.symm.trans hsend'))
        exact hwf
    have hconnected : Valid ⟨trans, o.timeoutQueue, o.generateId⟩ :=
      ⟨hwf, h.linked, (generateId_bounds o).2, h.size_le⟩
    exact hconnected.pushMessage hle hasSend

/-- **Rule for the loop of `doInvoke`.** A relation between the transceiver and the events
so far that handing over the oldest message keeps holds after the loop. -/
theorem doInvoke_rule {I : Transceiver → List Event → Prop} (past : List Event)
    {answers : List SendResult}
    (hstep : ∀ msg t t' answer iRet past, o.timeoutQueue.getSend = some (some msg) →
      answer ∈ answers → I t past → t.sendRequest msg.sReqData answer = some (t', iRet) →
      I t' (past ++ [.sendRequest msg iRet]))
    (hinit : I o.trans past) (hrun : o.doInvoke answers = some (o', events, ended)) :
    I o'.trans (past ++ events) := by
  induction answers generalizing o events ended past with
  | nil =>
    simp only [doInvoke, Option.some.injEq, Prod.mk.injEq] at hrun
    obtain ⟨rfl, rfl, -⟩ := hrun
    simpa using hinit
  | cons answer answers ih =>
    rw [doInvoke] at hrun
    split at hrun
    · simp only [Option.some.injEq, Prod.mk.injEq] at hrun
      obtain ⟨rfl, rfl, -⟩ := hrun
      simpa using hinit
    · split at hrun
      · cases hrun
      · rename_i next msg iRet hnext
        obtain ⟨hget, hqueue, -, hsend⟩ := sendOldest_frame hnext
        have hfirst := hstep msg _ _ answer iRet past hget List.mem_cons_self hinit hsend
        split at hrun
        · simp only [Option.some.injEq, Prod.mk.injEq] at hrun
          obtain ⟨rfl, rfl, -⟩ := hrun
          exact hfirst
        · split at hrun
          · cases hrun
          · rename_i hrest
            simp only [Option.some.injEq, Prod.mk.injEq] at hrun
            obtain ⟨rfl, rfl, rfl⟩ := hrun
            have hlast := ih _ (fun msg t t' answer iRet past hget hmem => hstep msg t t' answer
              iRet past (hqueue ▸ hget) (List.mem_cons_of_mem _ hmem)) hfirst hrest
            rwa [List.append_assoc] at hlast

/-- `doInvoke` keeps a proxy valid: what it sends fits into the send buffer. -/
theorem Valid.doInvoke (h : o.Valid) {answers : List SendResult}
    (hrun : o.doInvoke answers = some (o', events, ended)) : o'.Valid := by
  obtain ⟨hqueue, hid, -⟩ := doInvoke_frame hrun
  have hwf : o'.trans.WF := by
    refine doInvoke_rule (I := fun t _ => t.WF) [] ?_ h.trans_wf hrun
    intro msg t t' answer iRet _ hget _ hwf hsend
    obtain ⟨u, iRet', hsend', hwf', -⟩ :=
      hwf.sendRequest_total (h.size_le.getSend hget) answer
    obtain ⟨rfl, -⟩ := Prod.mk.inj (Option.some.inj (hsend.symm.trans hsend'))
    exact hwf'
  exact ⟨hwf, hqueue ▸ h.linked, hid ▸ h.id_lt, h.size_le.congr hqueue⟩

/-- Handing over the oldest message of a valid proxy never fails. -/
theorem Valid.sendOldest_total (h : o.Valid) (answer : SendResult)
    (hne : o.timeoutQueue.sendListEmpty = false) :
    ∃ o' msg iRet, o.sendOldest answer = some (o', msg, iRet) ∧ o'.Valid := by
  obtain ⟨msg, hget, -, hsize⟩ := h.getSend_spec hne
  obtain ⟨t, iRet, hsend, hwf, -⟩ := h.trans_wf.sendRequest_total hsize answer
  refine ⟨{ o with trans := t }, msg, iRet, ?_, ⟨hwf, h.linked, h.id_lt, h.size_le⟩⟩
  simp only [sendOldest, hget, Option.join_some, hsend]

/-- `doInvoke` of a valid proxy never fails, whatever the kernel answers: its assertions hold and
its loop ends. -/
theorem Valid.doInvoke_total (h : o.Valid) (answers : List SendResult) :
    ∃ o' events ended, o.doInvoke answers = some (o', events, ended) := by
  induction answers generalizing o with
  | nil => exact ⟨o, [], _, rfl⟩
  | cons answer answers ih =>
    cases hne : o.timeoutQueue.sendListEmpty with
    | true => exact ⟨o, [], true, by rw [ObjectProxy.doInvoke, if_pos hne]⟩
    | false =>
      obtain ⟨next, msg, iRet, hnext, hvalid⟩ := h.sendOldest_total answer hne
      obtain ⟨o', events, ended, hrest⟩ := ih hvalid
      rw [ObjectProxy.doInvoke, hne, hnext]
      simp only [Bool.false_eq_true, if_false, hrest]
      split
      · exact ⟨_, _, _, rfl⟩
      · exact ⟨_, _, _, rfl⟩

/-- `doRequest` of a valid proxy never fails, whatever the kernel answers: neither the flush nor
`doInvoke` behind it does. -/
theorem Valid.doRequest_total (h : o.Valid) (answer : SendResult) (answers : List SendResult) :
    ∃ o' events ended, o.doRequest answer answers = some (o', events, ended) := by
  obtain ⟨trans, ret, hflush, hwf, -⟩ := h.trans_wf.flush_spec answer
  simp only [ObjectProxy.doRequest, hflush]
  cases ret with
  | some ret => exact ⟨_, _, _, rfl⟩
  | none =>
    have hvalid : Valid { o with trans } := ⟨hwf, h.linked, h.id_lt, h.size_le⟩
    exact hvalid.doInvoke_total answers

/-- `doRequest` keeps a proxy valid: flushing only makes room. -/
theorem Valid.doRequest (h : o.Valid) {answer : SendResult} {answers : List SendResult}
    (hrun : o.doRequest answer answers = some (o', events, ended)) : o'.Valid := by
  obtain ⟨trans, ret, hflush, hcases⟩ := doRequest_cases hrun
  obtain ⟨trans', ret', hflush', hwf, -⟩ := h.trans_wf.flush_spec answer
  obtain ⟨rfl, -⟩ := Prod.mk.inj (Option.some.inj (hflush.symm.trans hflush'))
  have hvalid : Valid { o with trans } := ⟨hwf, h.linked, h.id_lt, h.size_le⟩
  obtain ⟨-, rfl, -⟩ | ⟨-, hinvoke⟩ := hcases
  · exact hvalid
  · exact hvalid.doInvoke hinvoke

/-- `handleInputImp` keeps a proxy valid: reading touches the receive buffer alone. -/
theorem Valid.handleInputImp (h : o.Valid) {answers : List ReadResult}
    (hrun : o.handleInputImp answers = some (o', events)) : o'.Valid := by
  obtain ⟨trans, done, ret, hread, hcases⟩ := handleInputImp_cases hrun
  have hvalid : Valid { o with trans } :=
    ⟨h.trans_wf.doResponse hread, h.linked, h.id_lt, h.size_le⟩
  obtain ⟨-, hall⟩ | ⟨-, rfl, -⟩ := hcases
  · obtain ⟨rfl, -⟩ := Prod.mk.inj hall
    exact hvalid.finishAll done
  · exact hvalid

end Operations

end ObjectProxy

end Tars
