import Tars.Client.AsyncDispatch
import Tars.Library.Custody
import Tars.Library.Ledger

/-!
# What the processing threads dispatch

A message is held by one queue at a time, and it is given up when it is dispatched, so no message is
dispatched twice. All callbacks are there exactly when no message without one is handed to a
processing thread: when no response carries the id of a heartbeat or of another call that passed
`NULL`.
-/

namespace Tars

open Scripts Custody Ledger

/-- The places that hold references to messages. A message that was dispatched is counted as held,
so that none is dispatched twice. -/
inductive Keeper (Thr : Type*) where
  /-- The queue of a calling thread to a network thread. -/
  | request (t : Thr) (w : ℕ)
  /-- The timeout queue of an object proxy of a network thread. -/
  | timeout (w : ℕ) (prx : ℕ)
  /-- The queue of a processing thread. -/
  | async (w k : ℕ)
  /-- The calls of `onDispatch` so far. -/
  | dispatched
  deriving DecidableEq

namespace ObjectProxy

variable {o o' : ObjectProxy} {msg : ReqMessage} {events : List Event}

/-- The messages in the timeout queue, by their addresses. -/
def addresses (o : ObjectProxy) : List ℕ :=
  o.timeoutQueue.data.entries.map fun e => e.2.ptr.addr

/-- A push stores the message, or finishes it if its id is in use. -/
theorem pushMessage_addresses (o : ObjectProxy) (msg : ReqMessage) (hasSend : Bool) :
    o.outstanding (toUInt32 msg.iRequestId) = none ∧
        (o.pushMessage msg hasSend).1.addresses = msg.addr :: o.addresses ∧
        finished (o.pushMessage msg hasSend).2 = [] ∨
      o.outstanding (toUInt32 msg.iRequestId) ≠ none ∧
        (o.pushMessage msg hasSend).1.addresses = o.addresses ∧
        finished (o.pushMessage msg hasSend).2 =
          [finishInvokeMsg { msg with eStatus := .REQ_EXC }] := by
  have houtstanding : o.outstanding (toUInt32 msg.iRequestId) = none ↔
      toUInt32 msg.iRequestId ∉ o.timeoutQueue.data := by
    rw [outstanding, Option.map_eq_none_iff, AList.lookup_eq_none]
  by_cases hmem : toUInt32 msg.iRequestId ∈ o.timeoutQueue.data
  · right
    have hpush : o.pushMessage msg hasSend =
        (o, [.finishInvoke (finishInvokeMsg { msg with eStatus := .REQ_EXC })]) := by
      rw [pushMessage, TimeoutQueue.push_of_mem hmem]
      rfl
    rw [hpush]
    exact ⟨fun hnone => houtstanding.mp hnone hmem, rfl, rfl⟩
  · left
    simp only [pushMessage, TimeoutQueue.push, if_neg hmem, if_true]
    refine ⟨houtstanding.mpr hmem, ?_, rfl⟩
    rw [addresses, AList.entries_insert_of_notMem hmem]
    rfl

/-- Erasing an entry takes its message away from the object proxy and leaves all the others there.
-/
theorem erase_addresses {id : ℕ} {info : PtrInfo ReqMessage}
    (h : o.timeoutQueue.data.lookup id = some info)
    (herased : o'.timeoutQueue = (o.timeoutQueue.erase id).1) :
    o.addresses.Perm (info.ptr.addr :: o'.addresses) := by
  have hmem : id ∈ o.timeoutQueue.data := AList.lookup_isSome.mp (by rw [h]; rfl)
  obtain ⟨found, before, after, -, hentries, hrest⟩ := List.exists_of_kerase hmem
  have hfound : o.timeoutQueue.data.lookup id = some found := by
    apply AList.mem_lookup_iff.mpr
    rw [hentries]
    exact List.mem_append_right before List.mem_cons_self
  obtain rfl := Option.some.inj (h.symm.trans hfound)
  have hdata : o'.timeoutQueue.data.entries = before ++ after := by
    rw [herased, TimeoutQueue.erase, h]
    exact hrest
  rw [addresses, addresses, hdata, hentries, List.map_append, List.map_append, List.map_cons]
  exact List.perm_middle

/-- `invoke` drops the message, stores it, or finishes it if its id is in use. -/
theorem invoke_addresses {outcome : ConnectOutcome} {answer : SendResult} {returned : Bool}
    (h : o.invoke msg outcome answer = some (o', events, returned)) :
    ¬(outcome.assigns = true ∧ o.outstanding o.generateId ≠ none) ∧ finished events = [] ∧
        (o'.addresses = o.addresses ∨ o'.addresses = msg.addr :: o.addresses) ∨
      (outcome.assigns = true ∧ o.outstanding o.generateId ≠ none) ∧
        o'.addresses = o.addresses ∧
        ∃ m, finished events = [m] ∧ m.addr = msg.addr ∧ m.eType = msg.eType := by
  obtain ⟨hthrown, -, rfl, rfl⟩ | ⟨hassigns, -, trans, hasSend, handed, hhanded, heq⟩ :=
    invoke_cases h
  · refine .inl ⟨?_, rfl, .inl rfl⟩
    rw [hthrown]
    exact fun hboth => Bool.false_ne_true hboth.1
  · obtain ⟨rfl, rfl⟩ := Prod.mk.inj heq
    have hnone : finished handed = [] := by
      obtain ⟨-, -, -, rfl⟩ | ⟨-, iRet, -, -, rfl⟩ := hhanded <;> rfl
    have hkey : toUInt32 (serialise msg o.generateId).iRequestId = o.generateId :=
      toUInt32_toInt32 o.generateId_bounds.2
    have hevents : ∀ more, finished (handed ++ more) = finished more := by
      intro more
      rw [finished, List.filterMap_append]
      exact congrArg (· ++ _) hnone
    rw [hevents]
    obtain ⟨hfree, hstored, hfinished⟩ | ⟨hused, hsame, hfinished⟩ :=
      pushMessage_addresses ⟨trans, o.timeoutQueue, o.generateId⟩
        (serialise msg o.generateId) hasSend
    · rw [hkey] at hfree
      exact .inl ⟨fun hboth => hboth.2 hfree, hfinished, .inr hstored⟩
    · rw [hkey] at hused
      refine .inr ⟨⟨hassigns, hused⟩, hsame, _, hfinished, ?_, ?_⟩
      · unfold finishInvokeMsg
        split <;> rfl
      · unfold finishInvokeMsg
        split <;> rfl

/-- `finishInvoke` takes the message with the id of the response and finishes it. -/
theorem finishInvoke_addresses (o : ObjectProxy) (rsp : Bytes) :
    o.outstanding (idOf rsp) = none ∧ (o.finishInvoke rsp).1.addresses = o.addresses ∧
        finished (o.finishInvoke rsp).2 = [] ∨
      ∃ msg m, o.outstanding (idOf rsp) = some msg ∧
        o.addresses.Perm (msg.addr :: (o.finishInvoke rsp).1.addresses) ∧
        finished (o.finishInvoke rsp).2 = [m] ∧ m.addr = msg.addr ∧ m.eType = msg.eType := by
  have hcompletion := (finishInvoke_spec o rsp).1
  have hqueue : (o.finishInvoke rsp).1.timeoutQueue = (o.timeoutQueue.erase (idOf rsp)).1 :=
    finishInvoke_timeoutQueue rsp
  cases hlookup : o.timeoutQueue.data.lookup (idOf rsp) with
  | none =>
    have hnone : o.outstanding (idOf rsp) = none := by rw [outstanding, hlookup]; rfl
    refine .inl ⟨hnone, ?_, ?_⟩
    · rw [addresses, hqueue, TimeoutQueue.erase_of_lookup_none hlookup]
      rfl
    · rw [hcompletion, completion, hnone]
      rfl
  | some info =>
    have hsome : o.outstanding (idOf rsp) = some info.ptr := by rw [outstanding, hlookup]; rfl
    refine .inr ⟨info.ptr, finishInvokeMsg { info.ptr with response := rsp }, hsome, ?_, ?_, ?_, ?_⟩
    · exact erase_addresses hlookup hqueue
    · rw [hcompletion, completion, hsome]
      rfl
    · unfold finishInvokeMsg
      split <;> rfl
    · unfold finishInvokeMsg
      split <;> rfl

/-- `doRequest` finishes no message: the timeout queue holds the same ones as before. -/
theorem doRequest_addresses {answer : SendResult} {answers : List SendResult} {ended : Bool}
    (h : o.doRequest answer answers = some (o', events, ended)) :
    o'.addresses = o.addresses ∧ finished events = [] := by
  obtain ⟨trans, ret, -, ⟨-, rfl, rfl⟩ | ⟨-, hloop⟩⟩ := doRequest_cases h
  · exact ⟨rfl, rfl⟩
  · obtain ⟨hqueue, -, hall⟩ := doInvoke_frame hloop
    constructor
    · rw [addresses, hqueue]
      rfl
    · apply List.filterMap_eq_nil_iff.mpr
      intro e he
      obtain ⟨msg, iRet, rfl, -⟩ := hall e he
      rfl

end ObjectProxy

namespace AsyncClient

variable {Thr Cb : Type*} [DecidableEq Thr]

/-- The messages that are held, by their addresses, for each of the places that can hold any. -/
def keeps (s : AsyncClient Thr Cb) (past : List (DispatchCall Cb)) : Keeper Thr → List ℕ
  | .request t w => (s.reqQueue t w).contents.map ReqMessage.addr
  | .timeout w prx => (s.objectProxy w prx).addresses
  | .async w k => (s.asyncQueue w k).contents.map ReqMessage.addr
  | .dispatched => past.map fun d => d.msg.addr

/-- The addresses that were used so far, which are never used again. -/
def issued (s : AsyncClient Thr Cb) : Set ℕ := {a | a < s.allocated}

/-- The invariant: the queues are well formed, and a message is held by one of them at most, or was
dispatched once. -/
structure Inv (s : AsyncClient Thr Cb) (past : List (DispatchCall Cb)) : Prop where
  /-- The request queues are well formed. -/
  request_wf : ∀ t w, (s.reqQueue t w).WF
  /-- The queues of the processing threads are well formed. -/
  async_wf : ∀ w k, (s.asyncQueue w k).WF
  /-- A message is held once. -/
  held : Exclusive s.issued (s.keeps past)

/-- The invariant, while a thread has a message in hand. -/
structure Holding (a : ℕ) (s : AsyncClient Thr Cb) (past : List (DispatchCall Cb)) : Prop
    extends Inv s past where
  /-- No queue holds the message. -/
  hand : InHand a s.issued (s.keeps past)

/-- All callbacks are there, of the messages that were dispatched and of those that a processing
thread is going to dispatch. -/
structure Clean (s : AsyncClient Thr Cb) (past : List (DispatchCall Cb)) : Prop where
  /-- `onDispatch` was called on callbacks. -/
  dispatched : ∀ d ∈ past, d.callback ≠ none
  /-- It is going to be called on callbacks. -/
  queued : ∀ w k, ∀ msg ∈ (s.asyncQueue w k).contents, s.callback msg.addr ≠ none

/-- A message may be finished: it has a callback if it is an asynchronous one, or there is no room
for it in the queue of the processing thread whose turn it is. -/
def MayFinish (s : AsyncClient Thr Cb) (w : ℕ) (msg : ReqMessage) : Prop :=
  msg.eType = .ASYNC_CALL → s.callback msg.addr = none →
    (s.asyncQueue w (s.asyncSeq w)).isFull = true

/-- No message without a callback is finished, neither by `invoke`, which finds its id in use, nor
by a response with its id. -/
def Careful (s : AsyncClient Thr Cb) : AsyncAction Thr Cb → Prop
  | .pop w t outcome _ => ∀ msg queue, (s.reqQueue t w).popFront = some (msg, queue) →
      outcome.assigns = true →
      (s.objectProxy w msg.pObjectProxy).outstanding
        (s.objectProxy w msg.pObjectProxy).generateId ≠ none → s.MayFinish w msg
  | .finishInvoke w => ∀ rsp ∈ (s.done w).2.head?, ∀ msg,
      (s.objectProxy w (s.done w).1).outstanding (ObjectProxy.idOf rsp) = some msg →
      s.MayFinish w msg
  | _ => True

section Places

variable {s : AsyncClient Thr Cb} {past : List (DispatchCall Cb)}

/-- Replacing a request queue changes what is kept at that place, and nothing at another one. -/
theorem keeps_setReqQueue (t : Thr) (w : ℕ) (queue : LoopQueue ReqMessage) :
    (s.setReqQueue t w queue).keeps past =
      Function.update (s.keeps past) (.request t w) (queue.contents.map ReqMessage.addr) := by
  funext p
  cases p with
  | request u v =>
    simp only [keeps, setReqQueue, update_update_apply, Function.update_apply,
      Keeper.request.injEq]
    split <;> rfl
  | timeout v prx => rfl
  | async v k => rfl
  | dispatched => rfl

/-- Replacing an object proxy changes one place, the messages that its timeout queue keeps. -/
theorem keeps_setObjectProxy (w : ℕ) (prx : ℕ) (o : ObjectProxy) :
    (s.setObjectProxy w prx o).keeps past =
      Function.update (s.keeps past) (.timeout w prx) o.addresses := by
  funext p
  cases p with
  | request t v => rfl
  | timeout v other =>
    simp only [keeps, setObjectProxy, update_update_apply, Function.update_apply,
      Keeper.timeout.injEq]
    split <;> rfl
  | async v k => rfl
  | dispatched => rfl

/-- Replacing the queue of a processing thread changes what is kept at that place, and nothing at
another one. -/
theorem keeps_setAsyncQueue (w k : ℕ) (queue : LoopQueue ReqMessage) :
    (s.setAsyncQueue w k queue).keeps past =
      Function.update (s.keeps past) (.async w k) (queue.contents.map ReqMessage.addr) := by
  funext p
  cases p with
  | request t v => rfl
  | timeout v prx => rfl
  | async v j =>
    simp only [keeps, setAsyncQueue, update_update_apply, Function.update_apply,
      Keeper.async.injEq]
    split <;> rfl
  | dispatched => rfl

/-- A call of `onDispatch` changes one place: the messages that were dispatched get one more. -/
theorem keeps_dispatch (d : DispatchCall Cb) :
    s.keeps (past ++ [d]) =
      Function.update (s.keeps past) .dispatched ((past ++ [d]).map fun d => d.msg.addr) := by
  funext p
  cases p <;> rfl

end Places

section Invariant

variable {s s' : AsyncClient Thr Cb} {past out : List (DispatchCall Cb)} {a : ℕ}
  {msg : ReqMessage} {t : Thr} {w k : ℕ} {queue : LoopQueue ReqMessage} {prx : ℕ}
  {o : ObjectProxy} {events : List Event}

omit [DecidableEq Thr] in
/-- **Allocating** a message: the caller has it in hand. -/
theorem Inv.allocate (h : s.Inv past) (callback : Option Cb) :
    Holding s.allocated (s.allocate callback) past := by
  have hand : InHand s.allocated (s.allocate callback).issued (s.keeps past) :=
    h.held.issue (lt_irrefl s.allocated) (Nat.lt_succ_self s.allocated)
      fun _ hlt => Nat.lt_succ_of_lt hlt
  exact ⟨⟨h.request_wf, h.async_wf, hand.toExclusive⟩, hand⟩

/-- **Pushing** the message in hand into a request queue. -/
theorem Holding.setReqQueue (h : Holding msg.addr s past) (hqueue : queue.WF)
    (hcontents : queue.contents = (s.reqQueue t w).contents ++ [msg]) :
    (s.setReqQueue t w queue).Inv past := by
  refine ⟨update_update_of_forall h.request_wf hqueue, h.async_wf, ?_⟩
  rw [keeps_setReqQueue]
  apply h.hand.put
  rw [hcontents, List.map_append]
  exact List.perm_append_comm

/-- **Popping** a message from a request queue into the hand. -/
theorem Inv.setReqQueue (h : s.Inv past) (hpop : (s.reqQueue t w).popFront = some (msg, queue)) :
    Holding msg.addr (s.setReqQueue t w queue) past := by
  obtain ⟨hqueue, hcontents⟩ := (h.request_wf t w).popFront hpop
  have hand : InHand msg.addr (s.setReqQueue t w queue).issued
      ((s.setReqQueue t w queue).keeps past) := by
    rw [keeps_setReqQueue]
    apply h.held.take
    rw [keeps, hcontents, List.map_cons]
  exact ⟨⟨update_update_of_forall h.request_wf hqueue, h.async_wf, hand.toExclusive⟩, hand⟩

/-- **Storing** the message in hand in a timeout queue. -/
theorem Holding.store (h : Holding msg.addr s past)
    (haddresses : o.addresses = msg.addr :: (s.objectProxy w prx).addresses) :
    (s.setObjectProxy w prx o).Inv past := by
  refine ⟨h.request_wf, h.async_wf, ?_⟩
  rw [keeps_setObjectProxy]
  apply h.hand.put
  rw [haddresses]
  rfl

/-- **Taking** a message from a timeout queue into the hand. -/
theorem Inv.takeTimeout (h : s.Inv past)
    (hperm : (s.objectProxy w prx).addresses.Perm (a :: o.addresses)) :
    Holding a (s.setObjectProxy w prx o) past := by
  have hand : InHand a (s.setObjectProxy w prx o).issued
      ((s.setObjectProxy w prx o).keeps past) := by
    rw [keeps_setObjectProxy]
    exact h.held.take hperm
  exact ⟨⟨h.request_wf, h.async_wf, hand.toExclusive⟩, hand⟩

/-- An object proxy that stores the same messages as before may be replaced without any change of a
place. -/
theorem keeps_same (haddresses : o.addresses = (s.objectProxy w prx).addresses) :
    (s.setObjectProxy w prx o).keeps past = s.keeps past := by
  rw [keeps_setObjectProxy, haddresses]
  exact Function.update_eq_self _ _

/-- Replacing an object proxy by one that stores the same messages. -/
theorem Inv.setObjectProxy (h : s.Inv past)
    (haddresses : o.addresses = (s.objectProxy w prx).addresses) :
    (s.setObjectProxy w prx o).Inv past :=
  ⟨h.request_wf, h.async_wf, (keeps_same haddresses).symm ▸ h.held⟩

/-- It keeps the message in hand, since the object proxy holds the same messages as before. -/
theorem Holding.setObjectProxy (h : Holding a s past)
    (haddresses : o.addresses = (s.objectProxy w prx).addresses) :
    Holding a (s.setObjectProxy w prx o) past :=
  ⟨h.toInv.setObjectProxy haddresses, (keeps_same haddresses).symm ▸ h.hand⟩

/-- **`invoke`** pushes the message in hand or deletes it. -/
theorem Holding.invoke (h : Holding msg.addr s past) (t : Thr) : (s.invoke t msg).Inv past := by
  have hseq : Holding msg.addr
      { s with netSeq := Function.update s.netSeq t (turn (s.netSeq t)) } past :=
    ⟨⟨h.request_wf, h.async_wf, h.held⟩, h.hand⟩
  obtain ⟨hqueue, ⟨hok, -, -⟩ | ⟨hok, -, hcontents⟩⟩ :=
    (h.request_wf t (s.netSeq t)).pushBack msg
  · simp only [AsyncClient.invoke, hok, Bool.false_eq_true, if_false]
    split
    · exact ⟨h.request_wf, h.async_wf, h.held⟩
    · exact hseq.toInv
  · have hpushed := hseq.setReqQueue (t := t) hqueue hcontents
    simp only [AsyncClient.invoke, hok, if_true]
    split
    · exact ⟨hpushed.request_wf, hpushed.async_wf, hpushed.held⟩
    · exact hpushed

/-- **`pushAsyncThreadQueue`** pushes the message in hand or deletes it. -/
theorem Holding.pushAsyncThreadQueue (h : Holding msg.addr s past) (w : ℕ) :
    (s.pushAsyncThreadQueue w msg).Inv past := by
  obtain ⟨hqueue, ⟨hok, -, -⟩ | ⟨hok, -, hcontents⟩⟩ :=
    (h.async_wf w (s.asyncSeq w)).pushBack msg
  · simp only [AsyncClient.pushAsyncThreadQueue, hok, Bool.false_eq_true, if_false]
    exact ⟨h.request_wf, h.async_wf, h.held⟩
  · simp only [AsyncClient.pushAsyncThreadQueue, hok, if_true]
    refine ⟨h.request_wf, update_update_of_forall h.async_wf hqueue, ?_⟩
    rw [keeps_setAsyncQueue]
    apply h.hand.put
    rw [hcontents, List.map_append]
    exact List.perm_append_comm

/-- **Finishing** the message in hand gives it up: its caller or a processing thread gets it, or it
is dropped. -/
theorem Holding.finishMsg (h : Holding msg.addr s past) (w : ℕ) :
    (finishMsg w s msg).Inv past := by
  unfold AsyncClient.finishMsg
  split
  · exact ⟨h.request_wf, h.async_wf, h.held⟩
  · split
    · exact h.pushAsyncThreadQueue w
    · exact h.toInv

/-- **Dispatching** the message at the front of the queue of a processing thread. -/
theorem Inv.dispatch (h : s.Inv past) (hpop : (s.asyncQueue w k).popFront = some (msg, queue))
    (callback : Option Cb) : (s.setAsyncQueue w k queue).Inv (past ++ [⟨msg, callback⟩]) := by
  obtain ⟨hqueue, hcontents⟩ := (h.async_wf w k).popFront hpop
  have hand : InHand msg.addr (s.setAsyncQueue w k queue).issued
      ((s.setAsyncQueue w k queue).keeps past) := by
    rw [keeps_setAsyncQueue]
    apply h.held.take
    rw [keeps, hcontents, List.map_cons]
  refine ⟨h.request_wf, update_update_of_forall h.async_wf hqueue, ?_⟩
  rw [keeps_dispatch]
  apply hand.put
  rw [List.map_append]
  exact List.perm_append_comm

/-! ### Callbacks -/

omit [DecidableEq Thr] in
/-- Only the new message gets another callback, and it is neither queued nor dispatched yet, so
nothing gets worse. -/
theorem Inv.clean_allocate (h : s.Inv past) (callback : Option Cb) :
    (s.allocate callback).Clean past ↔ s.Clean past := by
  have hsame (v j : ℕ) (m : ReqMessage) (hm : m ∈ (s.asyncQueue v j).contents) :
      (s.allocate callback).callback m.addr = s.callback m.addr := by
    apply Function.update_of_ne
    have hlt : m.addr < s.allocated :=
      h.held.mem_issued (.async v j) m.addr (List.mem_map_of_mem hm)
    exact hlt.ne
  constructor
  · intro hclean
    exact ⟨hclean.dispatched, fun v j m hm => hsame v j m hm ▸ hclean.queued v j m hm⟩
  · intro hclean
    exact ⟨hclean.dispatched, fun v j m hm => (hsame v j m hm).symm ▸ hclean.queued v j m hm⟩

omit [DecidableEq Thr] in
/-- Only the queues of the processing threads and the callbacks matter. -/
theorem clean_congr (hqueue : s'.asyncQueue = s.asyncQueue) (hcallback : s'.callback = s.callback) :
    s'.Clean past ↔ s.Clean past := by
  constructor
  · intro hclean
    refine ⟨hclean.dispatched, ?_⟩
    rw [← hqueue, ← hcallback]
    exact hclean.queued
  · intro hclean
    refine ⟨hclean.dispatched, ?_⟩
    rw [hqueue, hcallback]
    exact hclean.queued

/-- `invoke` reads and writes no callback, so the past stays as clean as it was. -/
theorem clean_invoke (s : AsyncClient Thr Cb) (t : Thr) (msg : ReqMessage) :
    (s.invoke t msg).Clean past ↔ s.Clean past := by
  apply clean_congr
  · simp only [AsyncClient.invoke]
    split <;> split <;> rfl
  · simp only [AsyncClient.invoke]
    split <;> split <;> rfl

omit [DecidableEq Thr] in
/-- Replacing the queue of a processing thread exchanges its messages. -/
theorem clean_setAsyncQueue :
    (s.setAsyncQueue w k queue).Clean past ∧
        (∀ m ∈ (s.asyncQueue w k).contents, s.callback m.addr ≠ none) ↔
      s.Clean past ∧ ∀ m ∈ queue.contents, s.callback m.addr ≠ none := by
  have htable := forall_update_update_iff (f := s.asyncQueue) (k := w) (i := k) (x := queue)
    (P := fun q => ∀ m ∈ q.contents, s.callback m.addr ≠ none)
  constructor
  · rintro ⟨hclean, hold⟩
    obtain ⟨hall, hnew⟩ := htable.mp ⟨hclean.queued, hold⟩
    exact ⟨⟨hclean.dispatched, hall⟩, hnew⟩
  · rintro ⟨hclean, hnew⟩
    obtain ⟨hall, hold⟩ := htable.mpr ⟨hclean.queued, hnew⟩
    exact ⟨⟨hclean.dispatched, hall⟩, hold⟩

omit [DecidableEq Thr] in
/-- Its new messages have callbacks, if with them the past still is clean. -/
theorem Clean.of_setAsyncQueue (h : (s.setAsyncQueue w k queue).Clean past) :
    ∀ m ∈ queue.contents, s.callback m.addr ≠ none := by
  have hqueue : (s.setAsyncQueue w k queue).asyncQueue w k = queue := by
    rw [setAsyncQueue]
    simp only [Function.update_self]
  intro m hm
  exact h.queued w k m (by rwa [hqueue])

omit [DecidableEq Thr] in
/-- A push into the queue of a processing thread is harmless exactly when the pushed message has a
callback. -/
theorem clean_push (hcontents : queue.contents = (s.asyncQueue w k).contents ++ [msg]) :
    (s.setAsyncQueue w k queue).Clean past ↔ s.Clean past ∧ s.callback msg.addr ≠ none := by
  have hforall : (∀ m ∈ queue.contents, s.callback m.addr ≠ none) ↔
      (∀ m ∈ (s.asyncQueue w k).contents, s.callback m.addr ≠ none) ∧
        s.callback msg.addr ≠ none := by
    rw [hcontents, List.forall_mem_append, List.forall_mem_singleton]
  constructor
  · intro hclean
    obtain ⟨hold, hsome⟩ := hforall.mp hclean.of_setAsyncQueue
    exact ⟨(clean_setAsyncQueue.mp ⟨hclean, hold⟩).1, hsome⟩
  · rintro ⟨hclean, hsome⟩
    have hnew := hforall.mpr ⟨hclean.queued w k, hsome⟩
    exact (clean_setAsyncQueue.mpr ⟨hclean, hnew⟩).1

omit [DecidableEq Thr] in
/-- **Dispatching** a message shows its callback, which is there exactly if the run stays clean. -/
theorem clean_run (hcontents : (s.asyncQueue w k).contents = msg :: queue.contents) :
    (s.setAsyncQueue w k queue).Clean (past ++ [⟨msg, s.callback msg.addr⟩]) ↔ s.Clean past := by
  have hforall : (∀ m ∈ (s.asyncQueue w k).contents, s.callback m.addr ≠ none) ↔
      s.callback msg.addr ≠ none ∧ ∀ m ∈ queue.contents, s.callback m.addr ≠ none := by
    rw [hcontents, List.forall_mem_cons]
  constructor
  · intro hclean
    obtain ⟨hpast, hlast⟩ := List.forall_mem_append.mp hclean.dispatched
    have hsome : s.callback msg.addr ≠ none := hlast _ List.mem_cons_self
    have hpopped : (s.setAsyncQueue w k queue).Clean past := ⟨hpast, hclean.queued⟩
    have hold := hforall.mpr ⟨hsome, hpopped.of_setAsyncQueue⟩
    exact (clean_setAsyncQueue.mp ⟨hpopped, hold⟩).1
  · intro hclean
    obtain ⟨hsome, hrest⟩ := hforall.mp (hclean.queued w k)
    have hpopped : (s.setAsyncQueue w k queue).Clean past :=
      (clean_setAsyncQueue.mpr ⟨hclean, hrest⟩).1
    refine ⟨List.forall_mem_append.mpr ⟨hclean.dispatched, fun d hd => ?_⟩, hpopped.queued⟩
    obtain rfl := List.mem_singleton.mp hd
    exact hsome

omit [DecidableEq Thr] in
/-- **Handing a message over** is clean exactly if the message may be finished. -/
theorem clean_pushAsyncThreadQueue (hwf : ∀ w k, (s.asyncQueue w k).WF)
    (hkind : msg.eType = .ASYNC_CALL) (w : ℕ) :
    (s.pushAsyncThreadQueue w msg).Clean past ↔ s.Clean past ∧ s.MayFinish w msg := by
  obtain ⟨-, ⟨hok, hfull, -⟩ | ⟨hok, hroom, hcontents⟩⟩ :=
    (hwf w (s.asyncSeq w)).pushBack msg
  · have hmay : s.MayFinish w msg := fun _ _ => hfull
    rw [and_iff_left hmay]
    simp only [AsyncClient.pushAsyncThreadQueue, hok, Bool.false_eq_true, if_false]
    exact clean_congr rfl rfl
  · have hmay : s.MayFinish w msg ↔ s.callback msg.addr ≠ none := by
      constructor
      · intro hmay hnone
        have hfull := hmay hkind hnone
        rw [hroom] at hfull
        cases hfull
      · intro hsome _ hnone
        exact absurd hnone hsome
    rw [hmay, ← clean_push hcontents]
    simp only [AsyncClient.pushAsyncThreadQueue, hok, if_true]
    exact clean_congr rfl rfl

omit [DecidableEq Thr] in
/-- Finishing a message is clean exactly if it may be finished. -/
theorem clean_finishMsg (hwf : ∀ w k, (s.asyncQueue w k).WF) (w : ℕ) (msg : ReqMessage) :
    (finishMsg w s msg).Clean past ↔ s.Clean past ∧ s.MayFinish w msg := by
  unfold AsyncClient.finishMsg
  split
  · next hsync =>
    have hmay : s.MayFinish w msg := fun hasync => absurd (hsync.symm.trans hasync) (by decide)
    rw [and_iff_left hmay]
    exact clean_congr rfl rfl
  · split
    · next hasync => exact clean_pushAsyncThreadQueue hwf hasync w
    · next hother =>
      have hmay : s.MayFinish w msg := fun hasync => absurd hasync hother
      rw [and_iff_left hmay]

/-! ### Steps -/

/-- A step keeps the invariant, and it keeps all callbacks exactly if it meets a condition. -/
def Passes (s : AsyncClient Thr Cb) (past : List (DispatchCall Cb)) (C : Prop)
    (s' : AsyncClient Thr Cb) (out : List (DispatchCall Cb)) : Prop :=
  s'.Inv (past ++ out) ∧ (s'.Clean (past ++ out) ↔ s.Clean past ∧ C)

omit [DecidableEq Thr] in
/-- A step without outputs and without a condition, which leaves the places and the callbacks as
they were. -/
theorem passes_quiet {C : Prop} (h : s'.Inv past) (hclean : s'.Clean past ↔ s.Clean past)
    (hC : C) : s.Passes past C s' [] := by
  rw [Passes, List.append_nil, hclean]
  exact ⟨h, (and_iff_left hC).symm⟩

omit [DecidableEq Thr] in
/-- A step after something that touches no callback and no queue of a processing thread passes if it
passes from there. -/
theorem Passes.of_congr {s₁ : AsyncClient Thr Cb} {C : Prop} (h : s₁.Passes past C s' out)
    (hqueue : s₁.asyncQueue = s.asyncQueue) (hcallback : s₁.callback = s.callback) :
    s.Passes past C s' out := by
  rw [Passes, ← clean_congr hqueue hcallback]
  exact h

/-- **A call** allocates a message and pushes or deletes it. -/
theorem Inv.call (h : s.Inv past) (t : Thr) (callback : Option Cb)
    (haddr : msg.addr = s.allocated) :
    s.Passes past True ((s.allocate callback).invoke t msg) [] := by
  have hand := h.allocate callback
  rw [← haddr] at hand
  exact passes_quiet (hand.invoke t) ((clean_invoke _ t msg).trans (h.clean_allocate callback))
    trivial

/-- **Finishing** the message in hand, which the proxy may have changed. -/
theorem Holding.passes (s : AsyncClient Thr Cb) {s₁ : AsyncClient Thr Cb} {m : ReqMessage}
    (h : Holding msg.addr s₁ past) (hqueue : s₁.asyncQueue = s.asyncQueue)
    (hcallback : s₁.callback = s.callback) (hseq : s₁.asyncSeq = s.asyncSeq)
    (haddr : m.addr = msg.addr) (hkind : m.eType = msg.eType) (w : ℕ) :
    s.Passes past (s.MayFinish w msg) (AsyncClient.finishMsg w s₁ m) [] := by
  have hmay : s₁.MayFinish w m ↔ s.MayFinish w msg := by
    rw [MayFinish, MayFinish, haddr, hkind, hqueue, hcallback, hseq]
  rw [← haddr] at h
  rw [Passes, List.append_nil, clean_finishMsg h.async_wf, hmay, clean_congr hqueue hcallback]
  exact ⟨h.finishMsg w, Iff.rfl⟩

/-- **`pop`** drops the message, stores it, or finishes it if its id is in use. -/
theorem Inv.pop (h : s.Inv past) {outcome : ConnectOutcome} {answer : SendResult}
    (hrun : s.pop w t outcome answer = some s') :
    s.Passes past (s.Careful (.pop w t outcome answer)) s' [] := by
  unfold AsyncClient.pop at hrun
  cases hpop : (s.reqQueue t w).popFront with
  | none => simp [hpop] at hrun
  | some r =>
    obtain ⟨msg, queue⟩ := r
    cases hinvoke : (s.objectProxy w msg.pObjectProxy).invoke msg outcome answer with
    | none => simp [hpop, hinvoke] at hrun
    | some r =>
      obtain ⟨o, events, returned⟩ := r
      simp only [hpop, hinvoke] at hrun
      obtain rfl := Option.some.inj hrun
      have hand := h.setReqQueue hpop
      have hcareful : s.Careful (.pop w t outcome answer) ↔ (outcome.assigns = true →
          (s.objectProxy w msg.pObjectProxy).outstanding
            (s.objectProxy w msg.pObjectProxy).generateId ≠ none → s.MayFinish w msg) := by
        constructor
        · intro hall
          exact hall msg queue hpop
        · intro hone msg' queue' hpop'
          obtain ⟨rfl, rfl⟩ := Prod.mk.inj (Option.some.inj (hpop.symm.trans hpop'))
          exact hone
      rw [hcareful, proceed]
      obtain ⟨hfree, hfinished, hstored⟩ | ⟨hused, hsame, m, hfinished, haddr, hkind⟩ :=
        ObjectProxy.invoke_addresses hinvoke
      · rw [hfinished, List.foldl_nil]
        refine passes_quiet ?_ (clean_congr rfl rfl) fun hassigns hid =>
          absurd ⟨hassigns, hid⟩ hfree
        obtain hsame | hstored := hstored
        · exact (hand.setObjectProxy hsame).toInv
        · exact hand.store hstored
      · rw [hfinished, List.foldl_cons, List.foldl_nil]
        have hmay : (outcome.assigns = true →
            (s.objectProxy w msg.pObjectProxy).outstanding
              (s.objectProxy w msg.pObjectProxy).generateId ≠ none → s.MayFinish w msg) ↔
            s.MayFinish w msg :=
          ⟨fun hall => hall hused.1 hused.2, fun hmay _ _ => hmay⟩
        rw [hmay]
        exact (hand.setObjectProxy hsame).passes s rfl rfl rfl haddr hkind w

/-- **`finishInvoke`** finds no message with the id of the response, or finishes it. -/
theorem Inv.finishInvoke (h : s.Inv past) (hrun : s.finishInvoke w = some s') :
    s.Passes past (s.Careful (.finishInvoke w)) s' [] := by
  unfold AsyncClient.finishInvoke at hrun
  cases hdone : s.done w with
  | mk prx rsps =>
    cases rsps with
    | nil => simp [hdone] at hrun
    | cons rsp rest =>
      simp only [hdone] at hrun
      obtain rfl := Option.some.inj hrun
      have hcareful : s.Careful (.finishInvoke w) ↔ ∀ msg,
          (s.objectProxy w prx).outstanding (ObjectProxy.idOf rsp) = some msg →
            s.MayFinish w msg := by
        rw [Careful, hdone]
        simp only [List.head?_cons, Option.mem_def, Option.some.injEq, forall_eq']
      have hrest : Inv { s with done := Function.update s.done w (prx, rest) } past :=
        ⟨h.request_wf, h.async_wf, h.held⟩
      rw [hcareful, proceed]
      obtain ⟨hnone, hsame, hfinished⟩ | ⟨msg, m, hsome, hperm, hfinished, haddr, hkind⟩ :=
        ObjectProxy.finishInvoke_addresses (s.objectProxy w prx) rsp
      · rw [hfinished, List.foldl_nil]
        refine passes_quiet (hrest.setObjectProxy hsame) (clean_congr rfl rfl) fun msg hsome => ?_
        rw [hnone] at hsome
        cases hsome
      · rw [hfinished, List.foldl_cons, List.foldl_nil]
        have hmay : (∀ found, (s.objectProxy w prx).outstanding (ObjectProxy.idOf rsp) =
            some found → s.MayFinish w found) ↔ s.MayFinish w msg := by
          rw [hsome]
          simp only [Option.some.injEq, forall_eq']
        rw [hmay]
        exact (hrest.takeTimeout hperm).passes s rfl rfl rfl haddr hkind w

/-- One round of the loop of `keepAlive` is a call. -/
theorem Inv.sendHeartbeat (h : s.Inv past) {iBeginTime : ℤ}
    (hrun : s.sendHeartbeat t iBeginTime = some s') : s.Passes past True s' [] := by
  unfold AsyncClient.sendHeartbeat at hrun
  split at hrun
  · next si beats prx hbeats hprx =>
    obtain rfl := Option.some.inj hrun
    have hrest : Inv { s with beats := Function.update s.beats t beats } past :=
      ⟨h.request_wf, h.async_wf, h.held⟩
    exact (hrest.call t none rfl).of_congr rfl rfl
  · cases hrun

/-- The end of a synchronous call moves no message. -/
theorem Inv.finishCall (h : s.Inv past) (hrun : s.finishCall t = some s') :
    s.Passes past True s' [] := by
  unfold AsyncClient.finishCall at hrun
  split at hrun
  · cases hrun
  · split at hrun
    · cases hrun
    · obtain rfl := Option.some.inj hrun
      exact passes_quiet ⟨h.request_wf, h.async_wf, h.held⟩ (clean_congr rfl rfl) trivial

/-- `handleOutputImp` moves no message, so nothing is dispatched and the invariant is kept. -/
theorem Inv.output (h : s.Inv past) {answer : SendResult} {answers : List SendResult}
    (hrun : s.output w prx answer answers = some s') : s.Passes past True s' [] := by
  unfold AsyncClient.output at hrun
  split at hrun
  · next o events hrequest =>
    obtain ⟨hsame, hfinished⟩ := ObjectProxy.doRequest_addresses hrequest
    obtain rfl := Option.some.inj hrun
    rw [proceed, hfinished, List.foldl_nil]
    exact passes_quiet (h.setObjectProxy hsame) (clean_congr rfl rfl) trivial
  · cases hrun

/-- Reading responses moves no message: they only wait for being finished. -/
theorem Inv.input (h : s.Inv past) {answers : List ReadResult}
    (hrun : s.input w prx answers = some s') : s.Passes past True s' [] := by
  unfold AsyncClient.input at hrun
  split at hrun
  · cases hrun
  · next received done iRet hread =>
    obtain rfl := Option.some.inj hrun
    have hproxy : (s.setObjectProxy w prx
        { s.objectProxy w prx with trans := received }).Inv past := h.setObjectProxy rfl
    exact passes_quiet ⟨hproxy.request_wf, hproxy.async_wf, hproxy.held⟩ (clean_congr rfl rfl)
      trivial

/-- **`run`** of a processing thread dispatches the message at the front of its queue. -/
theorem Inv.run (h : s.Inv past) (hrun : s.run w k = some (s', out)) :
    s.Passes past True s' out := by
  unfold AsyncClient.run at hrun
  split at hrun
  · cases hrun
  · next msg queue hpop =>
    obtain ⟨rfl, rfl⟩ := Prod.mk.inj (Option.some.inj hrun)
    have hinv := h.dispatch hpop (s.callback msg.addr)
    have hcontents := ((h.async_wf w k).popFront hpop).2
    refine ⟨⟨hinv.request_wf, hinv.async_wf, hinv.held⟩, ?_⟩
    rw [and_true, ← clean_run hcontents]
    exact clean_congr rfl rfl

omit [DecidableEq Thr] in
/-- An operation of a thread as a step without outputs. -/
theorem of_step_map {r : Option (AsyncClient Thr Cb)}
    (hstep : r.map (fun next => (next, ([] : List (DispatchCall Cb)))) = some (s', out)) :
    r = some s' ∧ out = [] := by
  obtain ⟨next, hnext, hpair⟩ := Option.map_eq_some_iff.mp hstep
  obtain ⟨rfl, rfl⟩ := Prod.mk.inj hpair
  exact ⟨hnext, rfl⟩

/-- **A step** keeps the invariant, and it keeps all callbacks exactly if it is careful. -/
theorem Inv.step (h : s.Inv past) {action : AsyncAction Thr Cb}
    (hstep : s.step action = some (s', out)) : s.Passes past (s.Careful action) s' out := by
  unfold AsyncClient.step at hstep
  split at hstep
  · cases hstep
  · cases action with
    | setNodeInfo prx app server pid =>
      obtain ⟨rfl, rfl⟩ := Prod.mk.inj (Option.some.inj hstep)
      exact passes_quiet ⟨h.request_wf, h.async_wf, h.held⟩ (clean_congr rfl rfl) trivial
    | tarsInvoke t prx sFuncName request iBeginTime =>
      dsimp only at hstep
      split at hstep
      · obtain ⟨rfl, rfl⟩ := Prod.mk.inj (Option.some.inj hstep)
        exact h.call t none rfl
      · cases hstep
    | tarsInvokeAsync t prx sFuncName request callback iBeginTime =>
      dsimp only at hstep
      split at hstep
      · obtain ⟨rfl, rfl⟩ := Prod.mk.inj (Option.some.inj hstep)
        exact h.call t callback rfl
      · cases hstep
    | keepAlive t adapter =>
      dsimp only at hstep
      split at hstep
      · obtain ⟨rfl, rfl⟩ := Prod.mk.inj (Option.some.inj hstep)
        exact passes_quiet ⟨h.request_wf, h.async_wf, h.held⟩ (clean_congr rfl rfl) trivial
      · cases hstep
    | sendHeartbeat t iBeginTime =>
      obtain ⟨hnext, rfl⟩ := of_step_map hstep
      exact h.sendHeartbeat hnext
    | finishCall t =>
      obtain ⟨hnext, rfl⟩ := of_step_map hstep
      exact h.finishCall hnext
    | pop w t outcome answer =>
      dsimp only at hstep
      split at hstep
      · obtain ⟨hnext, rfl⟩ := of_step_map hstep
        exact h.pop hnext
      · cases hstep
    | output w prx answer answers =>
      dsimp only at hstep
      split at hstep
      · obtain ⟨hnext, rfl⟩ := of_step_map hstep
        exact h.output hnext
      · cases hstep
    | input w prx answers =>
      dsimp only at hstep
      split at hstep
      · obtain ⟨hnext, rfl⟩ := of_step_map hstep
        exact h.input hnext
      · cases hstep
    | finishInvoke w =>
      obtain ⟨hnext, rfl⟩ := of_step_map hstep
      exact h.finishInvoke hnext
    | run w k => exact h.run hstep

omit [DecidableEq Thr] in
/-- The invariant holds at the start: all places are empty. -/
theorem inv_new : (new : AsyncClient Thr Cb).Inv [] := by
  have hrequest := LoopQueue.wf_new (T := ReqMessage) (show 1 ≤ 1000 by decide) (by decide)
  have hasync := LoopQueue.wf_new (T := ReqMessage) (show 1 ≤ 10000 by decide) (by decide)
  refine ⟨fun _ _ => hrequest.1, fun _ _ => hasync.1, exclusive_nil fun p => ?_⟩
  cases p with
  | request t w =>
    rw [keeps, new, hrequest.2]
    rfl
  | timeout w prx => rfl
  | async w k =>
    rw [keeps, new, hasync.2]
    rfl
  | dispatched => rfl

omit [DecidableEq Thr] in
/-- At the start all callbacks are there, since there is no message without one. -/
theorem clean_new : (new : AsyncClient Thr Cb).Clean [] := by
  have hasync := LoopQueue.wf_new (T := ReqMessage) (show 1 ≤ 10000 by decide) (by decide)
  refine ⟨fun d hd => absurd hd List.not_mem_nil, fun w k msg hmsg => ?_⟩
  rw [new, hasync.2] at hmsg
  cases hmsg

/-! ### Runs -/

/-- Every run keeps the invariant, whatever the callers pass as callbacks. -/
theorem inv_of_exec {script : List (AsyncAction Thr Cb)} {es : List (DispatchCall Cb)}
    (hexec : exec step new script = some (s, es)) : s.Inv es :=
  exec_invariant_outputs (C := fun _ _ => True) (I := Inv) []
    (fun _ _ _ _ _ h _ hstep => (h.step hstep).1) inv_new (along_of_forall fun _ _ => trivial)
    hexec

/-- All callbacks are there exactly after careful runs: the step lemma, carried through a whole run.
-/
theorem clean_iff_along {script : List (AsyncAction Thr Cb)} {es : List (DispatchCall Cb)}
    (hexec : exec step new script = some (s, es)) : s.Clean es ↔ Along step Careful new script := by
  have hclean : s.Clean es ↔ new.Clean [] ∧ Along step Careful new script :=
    kept_iff_along (I := Inv) (fun _ _ _ _ _ h hstep => (h.step hstep).1)
      (fun _ _ _ _ _ h hstep => (h.step hstep).2) inv_new hexec
  rwa [and_iff_right clean_new] at hclean

end Invariant

/-- Every message that reaches the processing threads has a callback when `onDispatch` is called on
it, and no message is dispatched twice. -/
structure DispatchSafe (s : AsyncClient Thr Cb) (past : List (DispatchCall Cb)) : Prop
    extends Clean s past where
  /-- No message was dispatched twice. -/
  once : (past.map fun d => d.msg.addr).Nodup

/-- **When dispatching is safe.** In every run, for any threads, servers, callbacks and answers of
the kernel, no message is dispatched twice. All messages that reach a processing thread have a
callback exactly when no message without one was finished while there was room for it, neither by
a response with its id nor because its id was in use. -/
theorem dispatchSafe_iff_careful (script : List (AsyncAction Thr Cb)) (s : AsyncClient Thr Cb)
    (es : List (DispatchCall Cb)) (hexec : exec step new script = some (s, es)) :
    (es.map fun d => d.msg.addr).Nodup ∧ (s.DispatchSafe es ↔ Along step Careful new script) := by
  have honce : (es.map fun d => d.msg.addr).Nodup := (inv_of_exec hexec).held.nodup .dispatched
  refine ⟨honce, ?_⟩
  rw [← clean_iff_along hexec]
  exact ⟨fun hsafe => hsafe.toClean, fun hclean => ⟨hclean, honce⟩⟩

/-- A call of `testHello` with a callback, which is answered. -/
def helloScript : List (AsyncAction Unit Bool) :=
  [.tarsInvokeAsync () 0 (bytes "testHello") (bytes "x") (some true) 0,
    .pop 0 () .connected (.accepted 100), .input 0 0 [.data (bytes "1:ok"), .again],
    .finishInvoke 0, .run 0 0]

/-- The statement for the run of `helloScript`, which dispatches one message. -/
theorem dispatchSafe_iff_careful_sample :
    ∃ s es, exec step (new : AsyncClient Unit Bool) helloScript = some (s, es) ∧
      es.map (fun d => (d.msg.response, d.callback)) = [(bytes "1:ok", some true)] ∧
      (es.map fun d => d.msg.addr).Nodup ∧
      (s.DispatchSafe es ↔ Along step Careful new helloScript) :=
  ⟨_, _, rfl, rfl, dispatchSafe_iff_careful helloScript _ _ rfl⟩

/-- A server that has a node sends a heartbeat, and the node answers. -/
def heartbeatScript : List (AsyncAction Unit Bool) :=
  [.setNodeInfo (some 0) (bytes "App") (bytes "Server") 7, .keepAlive () (bytes "AdminAdapter"),
    .sendHeartbeat () 0, .pop 0 () .connected (.accepted 100),
    .input 0 0 [.data (bytes "1:ok"), .again], .finishInvoke 0, .run 0 0]

/-- **An answered heartbeat** is dispatched to a null pointer. -/
theorem heartbeat_faults :
    ∃ s es, exec step (new : AsyncClient Unit Bool) heartbeatScript = some (s, es) ∧
      s.fault = true ∧ ¬s.DispatchSafe es := by
  refine ⟨_, _, rfl, rfl, fun hsafe => ?_⟩
  exact hsafe.dispatched _ List.mem_cons_self rfl

end AsyncClient

end Tars
