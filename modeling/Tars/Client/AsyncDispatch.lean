import Tars.Client.Correlation
import Tars.Library.Scripts
import Tars.Util.LoopQueue

/-!
# Dispatching asynchronous calls

`tars_invoke_async` stores the callback of a call in its message. The message goes through the
request queue of the calling thread to a network thread, waits in the timeout queue of its object
proxy for the response, and goes through the queue of a processing thread to `onDispatch` of its
callback. One of the callers is the heartbeat of a server, which passes `NULL` as the callback.

The threads of a process with one communicator are interleaved step by step. A server is known by
the number of its object proxies, of which every network thread has one. Which message is deleted
when is the subject of `MessageOwnership`; here a message that is deleted is no longer referred to.
-/

namespace Tars

/-- The members of `ServerInfo`, of which a report to the node is made. -/
structure ServerInfo where
  /-- `application`. -/
  application : Bytes
  /-- `serverName`. -/
  serverName : Bytes
  /-- `pid`. -/
  pid : ℤ
  /-- `adapter`. -/
  adapter : Bytes
  deriving DecidableEq

/-- The members of `TarsNodeFHelper`: the proxy of the node and the adapters that have been
reported. -/
structure TarsNodeFHelper where
  /-- `_nodePrx`, unless it is `NULL`. -/
  nodePrx : Option ℕ
  /-- `_si`. -/
  si : ServerInfo
  /-- `_adapterSet`, in its order. -/
  adapterSet : List Bytes

namespace TarsNodeFHelper

/-- The singleton at the start, which has no proxy of a node yet. -/
def new : TarsNodeFHelper := ⟨none, ⟨[], [], 0, []⟩, []⟩

/-- `setNodeInfo`, where `prx` is the proxy for `obj`, unless that is empty. -/
def setNodeInfo (h : TarsNodeFHelper) (prx : Option ℕ) (app server : Bytes) (pid : ℤ) :
    TarsNodeFHelper :=
  { h with
    nodePrx := prx <|> h.nodePrx
    si := { h.si with application := app, serverName := server, pid } }

/-- `set::insert`: a new element is put at its place in the order, and one that is there already is
not. -/
def insert (adapter : Bytes) (set : List Bytes) : List Bytes :=
  if set.contains adapter then set else set.orderedInsert (fun a b => a < b) adapter

/-- `keepAlive` up to its loop: the helper afterwards and the information to be sent. -/
def keepAlive (h : TarsNodeFHelper) (adapter : Bytes) : TarsNodeFHelper × List ServerInfo :=
  match h.nodePrx with
  | none => (h, [])
  | some _ =>
    let adapterSet := insert adapter h.adapterSet
    if adapter ≠ bytes "AdminAdapter" then ({ h with adapterSet }, [])
    else ({ h with adapterSet := [] }, adapterSet.map fun adapter => { h.si with adapter })

end TarsNodeFHelper

/-- `_objectProxyNum`, the number of network threads, and `_asyncThreadNum`, the number of the
processing threads of each. -/
def threadNum : ℕ := 3

/-- The number whose turn is next, around the ring of the threads. -/
def turn (i : ℕ) : ℕ := if i + 1 = threadNum then 0 else i + 1

/-- A process that makes calls; `Cb` are its callbacks. -/
structure AsyncClient (Thr Cb : Type*) where
  /-- The number of messages that were allocated; addresses are not used again. -/
  allocated : ℕ
  /-- `callback` of the messages by address; `none` is `NULL`. -/
  callback : ℕ → Option Cb
  /-- The messages whose `bMonitorFin` is set, by address. -/
  finished : ℕ → Option ReqMessage
  /-- A null pointer was dereferenced. -/
  fault : Bool
  /-- `_reqQueue` of a calling thread. -/
  reqQueue : Thr → ℕ → LoopQueue ReqMessage
  /-- `_netSeq` of a calling thread. -/
  netSeq : Thr → ℕ
  /-- The message for which a calling thread waits in `invoke`. -/
  waiting : Thr → Option ℕ
  /-- What a calling thread still has to send in the loop of `keepAlive`. -/
  beats : Thr → List ServerInfo
  /-- The object proxies of a network thread. -/
  objectProxy : ℕ → ℕ → ObjectProxy
  /-- The proxy and the responses that `handleInputImp` of a network thread still has to finish. -/
  done : ℕ → ℕ × List Bytes
  /-- `_msgQueue` of a processing thread. -/
  asyncQueue : ℕ → ℕ → LoopQueue ReqMessage
  /-- `_asyncSeq` of a network thread. -/
  asyncSeq : ℕ → ℕ
  /-- The `TarsNodeFHelper` of the process. -/
  helper : TarsNodeFHelper

/-- One step of one thread: a user thread, a network thread or a thread that calls callbacks. -/
inductive AsyncAction (Thr Cb : Type*) where
  /-- `setNodeInfo`. -/
  | setNodeInfo (prx : Option ℕ) (app server : Bytes) (pid : ℤ)
  /-- `tars_invoke` up to the point where the thread waits. -/
  | tarsInvoke (t : Thr) (prx : ℕ) (sFuncName request : Bytes) (iBeginTime : ℤ)
  /-- `tars_invoke_async`, which the `async_` methods of the proxies call with their names. -/
  | tarsInvokeAsync (t : Thr) (prx : ℕ) (sFuncName request : Bytes) (callback : Option Cb)
      (iBeginTime : ℤ)
  /-- `keepAlive` up to its loop. -/
  | keepAlive (t : Thr) (adapter : Bytes)
  /-- One round of the loop of `keepAlive`. -/
  | sendHeartbeat (t : Thr) (iBeginTime : ℤ)
  /-- The rest of `tars_invoke`, once the message is finished. -/
  | finishCall (t : Thr)
  /-- A network thread pops a message of a calling thread and invokes it. -/
  | pop (w : ℕ) (t : Thr) (outcome : ConnectOutcome) (answer : SendResult)
  /-- `handleOutputImp`. -/
  | output (w : ℕ) (prx : ℕ) (answer : SendResult) (answers : List SendResult)
  /-- `handleInputImp` up to its loop. -/
  | input (w : ℕ) (prx : ℕ) (answers : List ReadResult)
  /-- One round of the loop of `handleInputImp`. -/
  | finishInvoke (w : ℕ)
  /-- One iteration of the loop of `run` in a processing thread that finds a message. -/
  | run (w k : ℕ)

/-- A call of `onDispatch`: the message and the callback that it finds. -/
structure DispatchCall (Cb : Type*) where
  /-- The message. -/
  msg : ReqMessage
  /-- The callback on which `onDispatch` is called; `none` is `NULL`. -/
  callback : Option Cb
  deriving DecidableEq

/-- The messages for which `finishInvoke` was called, in the order of the calls. -/
def ObjectProxy.finished (events : List Event) : List ReqMessage :=
  events.filterMap fun
    | .sendRequest _ _ => none
    | .finishInvoke msg => some msg

namespace AsyncClient

variable {Thr Cb : Type*} [DecidableEq Thr]

/-- At the start no message was allocated yet, and all queues are empty. -/
def new : AsyncClient Thr Cb :=
  { allocated := 0, callback := fun _ => none, finished := fun _ => none, fault := false,
    reqQueue := fun _ _ => .new 1000, netSeq := fun _ => 0, waiting := fun _ => none,
    beats := fun _ => [], objectProxy := fun _ _ => .new, done := fun _ => (0, []),
    asyncQueue := fun _ _ => .new 10000, asyncSeq := fun _ => 0, helper := .new }

/-- Replace the queue of a calling thread to a network thread. -/
def setReqQueue (s : AsyncClient Thr Cb) (t : Thr) (w : ℕ) (queue : LoopQueue ReqMessage) :
    AsyncClient Thr Cb :=
  { s with reqQueue := Function.update s.reqQueue t (Function.update (s.reqQueue t) w queue) }

/-- Replace an object proxy of a network thread; its queues and the other proxies stay. -/
def setObjectProxy (s : AsyncClient Thr Cb) (w : ℕ) (prx : ℕ) (o : ObjectProxy) :
    AsyncClient Thr Cb :=
  { s with
    objectProxy := Function.update s.objectProxy w (Function.update (s.objectProxy w) prx o) }

/-- Replace the queue of a processing thread, which is one of the queues of a network thread. -/
def setAsyncQueue (s : AsyncClient Thr Cb) (w k : ℕ) (queue : LoopQueue ReqMessage) :
    AsyncClient Thr Cb :=
  { s with asyncQueue :=
      Function.update s.asyncQueue w (Function.update (s.asyncQueue w) k queue) }

/-- The message that `tars_invoke` and `tars_invoke_async` allocate, under an address that was never
used. -/
def newMessage (s : AsyncClient Thr Cb) (prx : ℕ) (eType : CallType) (request : Bytes)
    (iBeginTime : ℤ) : ReqMessage :=
  { addr := s.allocated, eStatus := .REQ_REQ, eType, pObjectProxy := prx, request,
    response := [], sReqData := [], bMonitorFin := false, iBeginTime, iRequestId := 1 }

/-- `new ReqMessage`, `init` and the assignment to `callback`, which may assign a null pointer. -/
def allocate (s : AsyncClient Thr Cb) (callback : Option Cb) : AsyncClient Thr Cb :=
  { s with
    allocated := s.allocated + 1
    callback := Function.update s.callback s.allocated callback }

/-- `invoke` of a message up to the point where a synchronous caller waits. The queue is
selected in turn. After a failed push the message is deleted and `msg` is `NULL`. -/
def invoke (s : AsyncClient Thr Cb) (t : Thr) (msg : ReqMessage) : AsyncClient Thr Cb :=
  let w := s.netSeq t
  let pushed := (s.reqQueue t w).pushBack msg
  let s := { s with netSeq := Function.update s.netSeq t (turn w) }
  if pushed.ok then
    let s := s.setReqQueue t w pushed.queue
    if msg.eType = .SYNC_CALL then
      { s with waiting := Function.update s.waiting t (some msg.addr) }
    else s
  else
    -- the synchronous path reads `msg->bMonitorFin`
    if msg.eType = .SYNC_CALL then { s with fault := true } else s

/-- `tars_invoke` up to the point where the thread waits. -/
def tarsInvoke (s : AsyncClient Thr Cb) (t : Thr) (prx : ℕ) (sFuncName request : Bytes)
    (iBeginTime : ℤ) : AsyncClient Thr Cb :=
  (s.allocate none).invoke t
    (s.newMessage prx .SYNC_CALL (ObjectProxy.requestOf sFuncName request) iBeginTime)

/-- `tars_invoke_async`: a new message with its callback is put into a queue, and the caller goes
on. -/
def tarsInvokeAsync (s : AsyncClient Thr Cb) (t : Thr) (prx : ℕ) (sFuncName request : Bytes)
    (callback : Option Cb) (iBeginTime : ℤ) : AsyncClient Thr Cb :=
  (s.allocate callback).invoke t
    (s.newMessage prx .ASYNC_CALL (ObjectProxy.requestOf sFuncName request) iBeginTime)

/-- `async_keepAlive` of `ServerFProxy`: an asynchronous call with the encoded server info. -/
def asyncKeepAlive (s : AsyncClient Thr Cb) (t : Thr) (prx : ℕ) (callback : Option Cb)
    (serverInfo : ServerInfo) (iBeginTime : ℤ) : AsyncClient Thr Cb :=
  s.tarsInvokeAsync t prx (bytes "keepAlive")
    (serverInfo.application ++ colon :: (serverInfo.serverName ++ colon ::
      (toString serverInfo.pid ++ colon :: serverInfo.adapter)))
    callback iBeginTime

/-- `keepAlive` of the helper, up to its loop: the adapter is inserted, and the messages are
prepared. -/
def keepAlive (s : AsyncClient Thr Cb) (t : Thr) (adapter : Bytes) : AsyncClient Thr Cb :=
  { s with
    helper := (s.helper.keepAlive adapter).1
    beats := Function.update s.beats t (s.helper.keepAlive adapter).2 }

/-- One round of the loop of `keepAlive`: one message is sent to the node, without a callback. -/
def sendHeartbeat (s : AsyncClient Thr Cb) (t : Thr) (iBeginTime : ℤ) :
    Option (AsyncClient Thr Cb) :=
  match s.beats t, s.helper.nodePrx with
  | si :: beats, some prx =>
    some (asyncKeepAlive { s with beats := Function.update s.beats t beats } t prx none si
      iBeginTime)
  | _, _ => none

/-- The rest of `tars_invoke`, once `bMonitorFin` is set: the thread is free for its next call. -/
def finishCall (s : AsyncClient Thr Cb) (t : Thr) : Option (AsyncClient Thr Cb) :=
  match s.waiting t with
  | none => none
  | some a =>
    match s.finished a with
    | none => none
    | some _ => some { s with waiting := Function.update s.waiting t none }

/-- `pushAsyncThreadQueue` and `AsyncProcThread::push_back`, which deletes the message if the
queue is full. -/
def pushAsyncThreadQueue (s : AsyncClient Thr Cb) (w : ℕ) (msg : ReqMessage) :
    AsyncClient Thr Cb :=
  let k := s.asyncSeq w
  let pushed := (s.asyncQueue w k).pushBack msg
  let s := { s with asyncSeq := Function.update s.asyncSeq w (turn k) }
  if pushed.ok then s.setAsyncQueue w k pushed.queue else s

/-- What other threads get from `finishInvoke` of a message. -/
def finishMsg (w : ℕ) (s : AsyncClient Thr Cb) (msg : ReqMessage) : AsyncClient Thr Cb :=
  if msg.eType = .SYNC_CALL then
    { s with finished := Function.update s.finished msg.addr (some msg) }
  else if msg.eType = .ASYNC_CALL then s.pushAsyncThreadQueue w msg
  else s

/-- An object proxy of a network thread has made these calls and is in this state. -/
def proceed (s : AsyncClient Thr Cb) (w : ℕ) (prx : ℕ) (o : ObjectProxy)
    (events : List Event) : AsyncClient Thr Cb :=
  (ObjectProxy.finished events).foldl (finishMsg w) (s.setObjectProxy w prx o)

/-- A network thread pops a message and calls `invoke` of its object proxy. -/
def pop (s : AsyncClient Thr Cb) (w : ℕ) (t : Thr) (outcome : ConnectOutcome)
    (answer : SendResult) : Option (AsyncClient Thr Cb) :=
  match (s.reqQueue t w).popFront with
  | none => none
  | some (msg, queue) =>
    match (s.objectProxy w msg.pObjectProxy).invoke msg outcome answer with
    | none => none
    | some (o, events, _) => some ((s.setReqQueue t w queue).proceed w msg.pObjectProxy o events)

/-- `handleOutputImp` of an object proxy: it sends what waits. -/
def output (s : AsyncClient Thr Cb) (w : ℕ) (prx : ℕ) (answer : SendResult)
    (answers : List SendResult) : Option (AsyncClient Thr Cb) :=
  match (s.objectProxy w prx).doRequest answer answers with
  | some (o, events, true) => some (s.proceed w prx o events)
  | _ => none

/-- `handleInputImp` up to its loop: the responses that were read wait for being finished. -/
def input (s : AsyncClient Thr Cb) (w : ℕ) (prx : ℕ) (answers : List ReadResult) :
    Option (AsyncClient Thr Cb) :=
  match (s.objectProxy w prx).trans.doResponse answers with
  | none => none
  | some (received, done, iRet) =>
    some { s.setObjectProxy w prx { s.objectProxy w prx with trans := received } with
      done := Function.update s.done w (prx, if 0 < iRet then done else []) }

/-- One round of the loop of `handleInputImp`: the next response finishes the message with its id.
-/
def finishInvoke (s : AsyncClient Thr Cb) (w : ℕ) : Option (AsyncClient Thr Cb) :=
  match s.done w with
  | (_, []) => none
  | (prx, rsp :: done) =>
    let finished := (s.objectProxy w prx).finishInvoke rsp
    some (proceed { s with done := Function.update s.done w (prx, done) } w prx finished.1
      finished.2)

/-- A processing thread pops a message and calls `onDispatch` of its callback. -/
def run (s : AsyncClient Thr Cb) (w k : ℕ) :
    Option (AsyncClient Thr Cb × List (DispatchCall Cb)) :=
  match (s.asyncQueue w k).popFront with
  | none => none
  | some (msg, queue) =>
    some ({ s.setAsyncQueue w k queue with fault := (s.callback msg.addr).isNone },
      [⟨msg, s.callback msg.addr⟩])

/-- A calling thread is neither in `invoke` nor in `keepAlive`. -/
def Idle (s : AsyncClient Thr Cb) (t : Thr) : Prop := s.waiting t = none ∧ s.beats t = []

instance (s : AsyncClient Thr Cb) (t : Thr) : Decidable (s.Idle t) :=
  inferInstanceAs (Decidable (_ = none ∧ s.beats t = []))

/-- A network thread exists and is not in the loop of `handleInputImp`. -/
def Ready (s : AsyncClient Thr Cb) (w : ℕ) : Prop := w < threadNum ∧ (s.done w).2 = []

instance (s : AsyncClient Thr Cb) (w : ℕ) : Decidable (s.Ready w) :=
  inferInstanceAs (Decidable (w < threadNum ∧ (s.done w).2 = []))

/-- One step of a run; its outputs are the calls of `onDispatch`. After a fault the process is
gone. -/
def step (s : AsyncClient Thr Cb) (action : AsyncAction Thr Cb) :
    Option (AsyncClient Thr Cb × List (DispatchCall Cb)) :=
  if s.fault then none
  else
    match action with
    | .setNodeInfo prx app server pid =>
      some ({ s with helper := s.helper.setNodeInfo prx app server pid }, [])
    | .tarsInvoke t prx sFuncName request iBeginTime =>
      if s.Idle t then some (s.tarsInvoke t prx sFuncName request iBeginTime, []) else none
    | .tarsInvokeAsync t prx sFuncName request callback iBeginTime =>
      if s.Idle t then some (s.tarsInvokeAsync t prx sFuncName request callback iBeginTime, [])
      else none
    | .keepAlive t adapter => if s.Idle t then some (s.keepAlive t adapter, []) else none
    | .sendHeartbeat t iBeginTime => (s.sendHeartbeat t iBeginTime).map (·, [])
    | .finishCall t => (s.finishCall t).map (·, [])
    | .pop w t outcome answer =>
      if s.Ready w then (s.pop w t outcome answer).map (·, []) else none
    | .output w prx answer answers =>
      if s.Ready w then (s.output w prx answer answers).map (·, []) else none
    | .input w prx answers =>
      if s.Ready w then (s.input w prx answers).map (·, []) else none
    | .finishInvoke w => (s.finishInvoke w).map (·, [])
    | .run w k => s.run w k

end AsyncClient

end Tars
