import Tars.Client.ObjectProxy
import Tars.Client.ThreadData
import Tars.Util.LoopQueue

/-!
# The request queues of the client threads

A thread that calls a proxy pushes into one of its own queues and notifies one of the network
threads of the proxy's communicator, which registers the queue and pops from it from then on.
The queues are made at the first call of the thread and are chosen by their place alone. The
proxies of two communicators share the places, so a thread that uses both registers one queue
with two network threads.
-/

namespace Tars

open Scripts

/-- A `CommunicatorEpoll`, by its communicator and its `_netThreadSeq`, which identify a network
thread. -/
structure EpollId where
  /-- `_communicator`. -/
  communicator : ℕ
  /-- `_netThreadSeq`. -/
  netThreadSeq : ℕ
  deriving DecidableEq

/-- The members of `Communicator` that calls depend on: whether it is initialised, and how many
network threads it has. -/
structure Communicator where
  /-- `_initialized`. -/
  initialized : Bool
  /-- `_clientThreadNum`. -/
  clientThreadNum : ℕ
  deriving DecidableEq

/-- An `ObjectProxy` as its factory knows it: the network thread that owns it, and its key there. -/
structure ProxyObject where
  /-- `_communicatorEpoll`. -/
  communicatorEpoll : EpollId
  /-- The key under which the factory keeps it in `_objectProxys`. -/
  tmpObjName : Bytes
  deriving DecidableEq

/-- The members of `ServantProxy`. Object proxies are named by numbers. -/
structure ServantProxy where
  /-- `_communicator`. -/
  communicator : ℕ
  /-- The array `_objectProxy`, one object proxy for each network thread. -/
  objectProxy : List ℕ
  /-- `_objectProxyNum`. -/
  objectProxyNum : ℕ
  /-- `_queueSize`. -/
  queueSize : ℕ
  deriving DecidableEq

/-- A `ReqInfoQueue`, with the thread for which it was created. -/
structure ReqInfoQueue where
  /-- The ring in which the messages wait for the network thread. -/
  queue : LoopQueue ReqMessage
  /-- The thread that has created it. -/
  thread : ℕ
  /-- Its index in the `_reqQueue` of that thread. -/
  place : ℕ

/-- A call of `invoke` behind `push_back`: whom it has to notify, and how often. -/
structure Invocation where
  /-- `pObjProxy->getCommunicatorEpoll()`. -/
  communicatorEpoll : EpollId
  /-- `pSptd->_reqQNo`. -/
  reqQNo : ℕ
  /-- `pReqQ`. -/
  pReqQ : ℕ
  /-- How many calls of `notify` are left. -/
  left : ℕ
  /-- Whether `msg` is null and read behind them. -/
  null : Bool
  deriving DecidableEq

/-- What happens to the queues, as far as the discipline of their use is concerned. -/
inductive QueueEvent where
  /-- A thread calls `push_back` of a queue. -/
  | pushed (queue thread : ℕ)
  /-- A queue is registered with a network thread. -/
  | registered (queue : ℕ) (epoll : EpollId)
  /-- A network thread pops a message and invokes it on an object proxy of this owner. -/
  | popped (queue : ℕ) (epoll owner : EpollId)
  deriving DecidableEq

/-- What happens next: a thread calls a function, or a network thread looks into its queues. -/
inductive CallAction where
  /-- A thread is created, exits or calls `getData`. -/
  | thread (a : ThreadAction)
  /-- A proxy is made by `stringToProxy` of a communicator. -/
  | getServantProxy (c : ℕ) (ip : Bytes) (port : ℕ)
  /-- A network thread gets to the loop in `run`. -/
  | run (e : EpollId)
  /-- A thread calls `invoke` of a proxy, up to `push_back`. -/
  | invoke (t proxy : ℕ) (msg : ReqMessage)
  /-- A thread calls `notify`. -/
  | notify (t : ℕ)
  /-- A network thread takes a round of the loop in `handle`, for the notification with this
  number. -/
  | handle (e : EpollId) (iSeq : ℕ)

/-- The clients of a process: its threads, proxies and queues, and what the network threads know of
them. -/
structure ClientThreads where
  /-- The calling threads with their data. -/
  threads : Threads
  /-- The communicators, by their numbers. -/
  communicators : ℕ → Communicator
  /-- The object proxies, in the order in which they were made. -/
  objectProxies : List ProxyObject
  /-- The proxies of servants, in the order in which they were made. -/
  proxies : List ServantProxy
  /-- The request queues, in the order in which they were made. -/
  queues : List ReqInfoQueue
  /-- `stFDInfo.p` of the entries of `_notify` for which `bValid` is set. -/
  notifies : EpollId → ℕ → Option ℕ
  /-- The thread that was started for a network thread. -/
  runner : EpollId → Option ℕ
  /-- Where the threads are in `invoke`. -/
  invocation : ℕ → Option Invocation

/-- The place that a call uses: `selectNetThreadInfo` takes the proxy and the queue there. -/
def ServantProxy.place (p : ServantProxy) (data : ServantProxyThreadData) : ℕ :=
  if p.objectProxyNum = 1 then 0
  else if 0 ≤ data.netThreadSeq then data.netThreadSeq.toNat
  else data.netSeq

/-- The queues that `selectNetThreadInfo` makes at the first call of a thread. -/
def ServantProxy.newQueues (p : ServantProxy) (t : ℕ) : List ReqInfoQueue :=
  (List.range p.objectProxyNum).map fun i => ⟨LoopQueue.new p.queueSize, t, i⟩

/-- The first part of `selectNetThreadInfo`: at the first call of a thread it makes the queues. -/
def ServantProxy.initQueues (p : ServantProxy) (t : ℕ) (data : ServantProxyThreadData)
    (queues : List ReqInfoQueue) : ServantProxyThreadData × List ReqInfoQueue :=
  if data.queueInit then (data, queues)
  else
    ({ data with
        reqQueue := List.range' queues.length p.objectProxyNum
        objectProxyNum := p.objectProxyNum
        queueInit := true },
      queues ++ p.newQueues t)

/-- The number of the next place, unless the thread always uses the same one. -/
def ServantProxy.advance (p : ServantProxy) (data : ServantProxyThreadData) :
    ServantProxyThreadData :=
  if p.objectProxyNum = 1 ∨ 0 ≤ data.netThreadSeq then data
  else { data with netSeq := if data.netSeq + 1 = p.objectProxyNum then 0 else data.netSeq + 1 }

/-- `selectNetThreadInfo`, with the object proxy and the queue that it selects. It fails where
the source asserts that the place is one of the proxy, or reads behind one of the arrays. -/
def ServantProxy.selectNetThreadInfo (p : ServantProxy) (t : ℕ) (data : ServantProxyThreadData)
    (queues : List ReqInfoQueue) :
    Option (ServantProxyThreadData × List ReqInfoQueue × ℕ × ℕ) :=
  let (data, queues) := p.initQueues t data queues
  match p.objectProxy[p.place data]?, data.reqQueue[p.place data]? with
  | some pObjProxy, some pReqQ => some (p.advance data, queues, pObjProxy, pReqQ)
  | _, _ => none

/-- `ObjectProxyFactory::getObjectProxy`: the object proxy is found by its name, or made. -/
def getObjectProxy (objects : List ProxyObject) (e : EpollId) (tmpObjName : Bytes) :
    List ProxyObject × ℕ :=
  match objects.findIdx? (· = ⟨e, tmpObjName⟩) with
  | some o => (objects, o)
  | none => (objects ++ [⟨e, tmpObjName⟩], objects.length)

/-- The loop in `getServantProxy` over the network threads from `i` on. -/
def getObjectProxies (c : ℕ) (tmpObjName : Bytes) :
    ℕ → ℕ → List ProxyObject → List ProxyObject × List ℕ
  | _, 0, objects => (objects, [])
  | i, n + 1, objects =>
    let (objects, o) := getObjectProxy objects ⟨c, i⟩ tmpObjName
    let (objects, os) := getObjectProxies c tmpObjName (i + 1) n objects
    (objects, o :: os)

namespace ClientThreads

/-- The start of the process: no communicator is initialized, and there is no proxy and no queue. -/
def new : ClientThreads :=
  { threads := Threads.new
    communicators := fun _ => ⟨false, 1⟩
    objectProxies := []
    proxies := []
    queues := []
    notifies := fun _ _ => none
    runner := fun _ => none
    invocation := fun _ => none }

/-- Start a network thread: a new thread runs it from then on. -/
def startEpoll (s : ClientThreads) (e : EpollId) : ClientThreads :=
  { s with
    runner := Function.update s.runner e (some s.threads.started)
    threads := s.threads.create }

/-- `Communicator::initialize` starts the network threads at the first call. -/
def communicatorInitialize (s : ClientThreads) (c : ℕ) : ClientThreads :=
  if (s.communicators c).initialized then s
  else
    let s := { s with communicators := Function.update s.communicators c ⟨true, 3⟩ }
    (List.range 3).foldl (fun s i => s.startEpoll ⟨c, i⟩) s

/-- `Communicator::getServantProxy` makes a proxy with one object proxy for each network thread. -/
def getServantProxy (s : ClientThreads) (c : ℕ) (ip : Bytes) (port : ℕ) : ClientThreads :=
  let s := s.communicatorInitialize c
  let num := (s.communicators c).clientThreadNum
  let (objectProxies, ppObjectProxy) :=
    getObjectProxies c (ip ++ bytes ":" ++ toString port) 0 num s.objectProxies
  { s with objectProxies, proxies := s.proxies ++ [⟨c, ppObjectProxy, num, 1000⟩] }

/-- The process ends, because an assertion failed or a null pointer was read. -/
def abort (s : ClientThreads) : ClientThreads :=
  { s with threads := { s.threads with aborted := true } }

/-- Write the data of a thread, which `getData` has returned. -/
def writeData (s : ClientThreads) (t : ℕ) (data : ServantProxyThreadData) : ClientThreads :=
  { s with threads := s.threads.setspecific t s.threads.key data }

/-- `CommunicatorEpoll::run` up to its loop: it writes the number of the network thread to the data.
-/
def run (newKey : ℕ → ℕ) (s : ClientThreads) (t : ℕ) (e : EpollId) : ClientThreads :=
  match s.threads.getData newKey t with
  | none => s.abort
  | some (threads, data) =>
    { s with threads }.writeData t { data with netThreadSeq := e.netThreadSeq }

/-- `ServantProxy::invoke` behind `getData`, up to `push_back`: the message is put into the queue at
the place. -/
def push (s : ClientThreads) (t : ℕ) (p : ServantProxy) (data : ServantProxyThreadData)
    (msg : ReqMessage) : Option (ClientThreads × List QueueEvent) :=
  match p.selectNetThreadInfo t data s.queues with
  | none => none
  | some (data, queues, pObjProxy, pReqQ) =>
    match s.objectProxies[pObjProxy]?, queues[pReqQ]? with
    | some object, some info =>
      let isSync := msg.eType == .SYNC_CALL
      let msg := { msg with
        pObjectProxy := pObjProxy
        bMonitorFin := !isSync && msg.bMonitorFin }
      let pushed := info.queue.pushBack msg
      -- a message that does not fit is deleted, and its network thread notified twice
      let i : Invocation :=
        ⟨object.communicatorEpoll, data.reqQNo, pReqQ, if pushed.ok then 1 else 2,
          !pushed.ok && isSync⟩
      some ({ s with
          queues := queues.set pReqQ { info with queue := pushed.queue }
          invocation := Function.update s.invocation t (some i) }.writeData t data,
        [.pushed pReqQ t])
    | _, _ => none

/-- `ServantProxy::invoke` up to `push_back`, which ends the process if the thread gets no data. -/
def invoke (newKey : ℕ → ℕ) (s : ClientThreads) (t : ℕ) (p : ServantProxy) (msg : ReqMessage) :
    Option (ClientThreads × List QueueEvent) :=
  match s.threads.getData newKey t with
  | none => some (s.abort, [])
  | some (threads, data) => { s with threads }.push t p data msg

/-- `CommunicatorEpoll::notify`. It fails where the source asserts that the registered queue is
this one. -/
def notifyEpoll (s : ClientThreads) (e : EpollId) (iSeq pReqQ : ℕ) :
    Option (ClientThreads × List QueueEvent) :=
  match s.notifies e iSeq with
  | some p => if p = pReqQ then some (s, []) else none
  | none =>
    let entries := Function.update (s.notifies e) iSeq (some pReqQ)
    some ({ s with notifies := Function.update s.notifies e entries }, [.registered pReqQ e])

/-- The next step of a thread in `invoke` behind a `notify`. -/
def notified (s : ClientThreads) (t : ℕ) (i : Invocation) : ClientThreads :=
  if 1 < i.left then
    { s with invocation := Function.update s.invocation t (some { i with left := i.left - 1 }) }
  else
    let s := { s with invocation := Function.update s.invocation t none }
    if i.null then s.abort else s

/-- A call of `notify` in `ServantProxy::invoke`. What follows it in a synchronous call is the
wait for the response. -/
def notify (s : ClientThreads) (t : ℕ) : Option (ClientThreads × List QueueEvent) :=
  match s.invocation t with
  | none => none
  | some i =>
    match s.notifyEpoll i.communicatorEpoll i.reqQNo i.pReqQ with
    | none => some (s.abort, [])
    | some (s, es) => some (s.notified t i, es)

/-- A round of the loop in `CommunicatorEpoll::handle`, for a registered queue. The messages of
`ServantProxy` never have the type `THREAD_EXIT`. -/
def handle (s : ClientThreads) (e : EpollId) (iSeq : ℕ) :
    Option (ClientThreads × List QueueEvent) :=
  match s.notifies e iSeq with
  | none => none
  | some pInfoQueue =>
    match s.queues[pInfoQueue]? with
    | none => none
    | some info =>
      match info.queue.popFront with
      | none => some (s, [])
      | some (msg, queue) =>
        match s.objectProxies[msg.pObjectProxy]? with
        | none => none
        | some object =>
          some ({ s with queues := s.queues.set pInfoQueue { info with queue } },
            [.popped pInfoQueue e object.communicatorEpoll])

/-- A thread can call a function: it runs and is not in the middle of a call. -/
def Ready (s : ClientThreads) (t : ℕ) : Prop := t ∈ s.threads.alive ∧ s.invocation t = none

instance (s : ClientThreads) (t : ℕ) : Decidable (s.Ready t) :=
  inferInstanceAs (Decidable (t ∈ s.threads.alive ∧ s.invocation t = none))

/-- One step of a run. What the thread or the network thread cannot do in the state is refused. -/
def step (newKey : ℕ → ℕ) (s : ClientThreads) (a : CallAction) :
    Option (ClientThreads × List QueueEvent) :=
  if s.threads.aborted then none
  else
    match a with
    | .thread (.exit t) =>
      if s.Ready t then some ({ s with threads := s.threads.exit t }, []) else none
    | .thread a => (s.threads.step newKey a).map fun r => ({ s with threads := r.1 }, [])
    | .getServantProxy c ip port => some (s.getServantProxy c ip port, [])
    | .run e =>
      match s.runner e with
      | none => none
      | some t => if s.Ready t then some (s.run newKey t e, []) else none
    | .invoke t proxy msg =>
      match s.proxies[proxy]? with
      | none => none
      | some p => if s.Ready t then s.invoke newKey t p msg else none
    | .notify t => s.notify t
    | .handle e iSeq =>
      match s.runner e with
      | none => none
      | some t => if s.Ready t then s.handle e iSeq else none

/-- A thread calls a proxy only if no network thread of another communicator has registered the
queue at the place that the call uses. -/
def SameCommunicator (newKey : ℕ → ℕ) (s : ClientThreads) : CallAction → Prop
  | .invoke t proxy _ => ∀ p data q e iSeq, s.proxies[proxy]? = some p →
      s.threads.find newKey t = some data → data.reqQueue[p.place data]? = some q →
      s.notifies e iSeq = some q → e.communicator = p.communicator
  | _ => True

/-! ### What the operations do -/

/-- The thread that has created a queue, and the place of the queue. -/
def label (queues : List ReqInfoQueue) (q : ℕ) : Option (ℕ × ℕ) :=
  queues[q]?.map fun info => (info.thread, info.place)

/-- The network thread that owns an object proxy, if there is such an object proxy. -/
def ownerOf (objects : List ProxyObject) (o : ℕ) : Option EpollId :=
  objects[o]?.map ProxyObject.communicatorEpoll

/-- The queues of a thread's data were created for the thread and for their places. -/
structure Mine (queues : List ReqInfoQueue) (t : ℕ) (data : ServantProxyThreadData) : Prop where
  /-- Before the first call there are none. -/
  nil_of_not_init : data.queueInit = false → data.reqQueue = []
  /-- Each of its queues has the label of its thread and its place. -/
  label_eq : ∀ i q, data.reqQueue[i]? = some q → label queues q = some (t, i)

/-- The object proxies of a proxy belong to the network threads of its communicator, in their
order. -/
structure Belongs (objects : List ProxyObject) (p : ServantProxy) : Prop where
  /-- Each of its object proxies has the network thread of its place as its owner. -/
  owner_eq : ∀ i o, p.objectProxy[i]? = some o → ownerOf objects o = some ⟨p.communicator, i⟩
  /-- The size of its queues. -/
  queueSize_eq : p.queueSize = 1000

variable {newKey : ℕ → ℕ} {s s' : ClientThreads} {t : ℕ} {p : ServantProxy}
  {data data' : ServantProxyThreadData} {msg : ReqMessage} {queues queues' : List ReqInfoQueue}
  {objects : List ProxyObject} {e : EpollId} {q o : ℕ} {es past : List QueueEvent}

/-- More queues keep the labels of those that are there. -/
theorem label_append (h : label queues q = some (t, o)) (more : List ReqInfoQueue) :
    label (queues ++ more) q = some (t, o) := by
  obtain ⟨info, hinfo, hlabel⟩ := Option.map_eq_some_iff.mp h
  have hlt := (List.getElem?_eq_some_iff.mp hinfo).1
  rw [label, List.getElem?_append_left hlt, hinfo]
  exact congrArg some hlabel

/-- A new content of a queue keeps the labels. -/
theorem label_set {info : ReqInfoQueue} (hinfo : queues[q]? = some info)
    (queue : LoopQueue ReqMessage) : label (queues.set q { info with queue }) = label queues := by
  funext r
  by_cases hr : q = r
  · subst hr
    obtain ⟨hlt, rfl⟩ := List.getElem?_eq_some_iff.mp hinfo
    simp [label, hlt]
  · simp [label, List.getElem?_set_ne hr]

/-- More object proxies keep the owners of those that are there. -/
theorem ownerOf_append (h : ownerOf objects o = some e) (more : List ProxyObject) :
    ownerOf (objects ++ more) o = some e := by
  obtain ⟨object, hobject, howner⟩ := Option.map_eq_some_iff.mp h
  have hlt := (List.getElem?_eq_some_iff.mp hobject).1
  rw [ownerOf, List.getElem?_append_left hlt, hobject]
  exact congrArg some howner

/-- More queues do not change whose the old ones are. -/
theorem Mine.append (h : Mine queues t data) (more : List ReqInfoQueue) :
    Mine (queues ++ more) t data :=
  ⟨h.nil_of_not_init, fun i q hq => label_append (h.label_eq i q hq) more⟩

/-- Data without queues belongs to any thread, since it refers to no queue. -/
theorem mine_numbered (queues : List ReqInfoQueue) (t reqQNo : ℕ) :
    Mine queues t (.numbered reqQNo) :=
  ⟨fun _ => rfl, fun i q hq => by cases hq⟩

/-- The first part of `selectNetThreadInfo` makes the queues of the thread. -/
theorem initQueues_spec (h : Mine queues t data) (hsize : p.queueSize = 1000) {r : _ × _}
    (hr : p.initQueues t data queues = r) :
    (∃ more, r.2 = queues ++ more ∧
      ∀ info ∈ more, info.queue.WF ∧ info.queue.contents = []) ∧
    Mine r.2 t r.1 ∧ p.place r.1 = p.place data ∧ (data.queueInit = true → r = (data, queues)) ∧
    (data.queueInit = false → ∀ q ∈ r.1.reqQueue, queues.length ≤ q) := by
  subst hr
  unfold ServantProxy.initQueues
  split
  · next hinit =>
    exact ⟨⟨[], by simp⟩, h, rfl, fun _ => rfl, fun hfalse => by simp [hinit] at hfalse⟩
  · next hinit =>
    refine ⟨⟨p.newQueues t, rfl, fun info hinfo => ?_⟩, ⟨?_, fun i q hq => ?_⟩, rfl,
      fun htrue => absurd htrue hinit, fun _ q hq => (List.mem_range'_1.mp hq).1⟩
    · obtain ⟨i, -, rfl⟩ := List.mem_map.mp hinfo
      rw [hsize]
      exact LoopQueue.wf_new (by decide) (by decide)
    · rintro ⟨⟩
    · obtain ⟨hi, rfl⟩ := List.getElem?_eq_some_iff.mp hq
      rw [List.length_range'] at hi
      simp [label, ServantProxy.newQueues, hi]

/-- `selectNetThreadInfo` takes the object proxy and the queue at the same place. -/
theorem selectNetThreadInfo_spec (h : Mine queues t data) (hbelongs : Belongs objects p)
    (hselect : p.selectNetThreadInfo t data queues = some (data', queues', o, q)) :
    (∃ more, queues' = queues ++ more ∧
      ∀ info ∈ more, info.queue.WF ∧ info.queue.contents = []) ∧
    Mine queues' t data' ∧ label queues' q = some (t, p.place data) ∧
    ownerOf objects o = some ⟨p.communicator, p.place data⟩ ∧
    (data.queueInit = true → data.reqQueue[p.place data]? = some q) ∧
    (data.queueInit = false → queues.length ≤ q) := by
  obtain ⟨hmore, hmine, hplace, hsame, hnew⟩ := initQueues_spec h hbelongs.queueSize_eq rfl
  unfold ServantProxy.selectNetThreadInfo at hselect
  dsimp only at hselect
  rw [hplace] at hselect
  split at hselect
  · next o' q' hobject hqueue =>
    obtain ⟨rfl, rfl, rfl, rfl⟩ := by simpa using Option.some.inj hselect
    refine ⟨hmore, ?_, hmine.label_eq _ _ hqueue, hbelongs.owner_eq _ _ hobject, fun hinit => ?_,
      fun hinit => hnew hinit _ (List.mem_of_getElem? hqueue)⟩
    · unfold ServantProxy.advance
      split
      · exact hmine
      · exact ⟨hmine.nil_of_not_init, hmine.label_eq⟩
    · rw [hsame hinit] at hqueue
      exact hqueue
  · cases hselect

/-- What a call of `push_back` does: it uses the queue and the object proxy at one place, and makes
the queues before if the thread has none. -/
theorem push_spec (h : Mine s.queues t data) (hbelongs : Belongs s.objectProxies p)
    (hpush : s.push t p data msg = some (s', es)) :
    ∃ data' more info i msg' k, s' = { s with
          queues := (s.queues ++ more).set i.pReqQ
            { info with queue := (info.queue.pushBack msg').queue }
          invocation := Function.update s.invocation t (some i)
          threads := s.threads.setspecific t k data' } ∧
      (∀ info ∈ more, info.queue.WF ∧ info.queue.contents = []) ∧
      (s.queues ++ more)[i.pReqQ]? = some info ∧ Mine (s.queues ++ more) t data' ∧
      label (s.queues ++ more) i.pReqQ = some (t, p.place data) ∧
      i.communicatorEpoll = ⟨p.communicator, p.place data⟩ ∧
      ownerOf s.objectProxies msg'.pObjectProxy = some i.communicatorEpoll ∧
      (data.queueInit = true → data.reqQueue[p.place data]? = some i.pReqQ) ∧
      (data.queueInit = false → s.queues.length ≤ i.pReqQ) ∧
      es = [.pushed i.pReqQ t] := by
  unfold push at hpush
  split at hpush
  · cases hpush
  · next data' queues pObjProxy pReqQ hselect =>
    obtain ⟨⟨more, rfl, hmore⟩, hmine, hlabel, howner, hold, hnew⟩ :=
      selectNetThreadInfo_spec h hbelongs hselect
    split at hpush
    · next object info hobject hinfo =>
      obtain ⟨rfl, rfl⟩ := Prod.mk.inj (Option.some.inj hpush)
      have hepoll : object.communicatorEpoll = ⟨p.communicator, p.place data⟩ := by
        rw [ownerOf, hobject] at howner
        exact Option.some.inj howner
      refine ⟨data', more, info, ⟨object.communicatorEpoll, data'.reqQNo, pReqQ, _, _⟩, _,
        s.threads.key, rfl, hmore, hinfo, hmine, hlabel, hepoll, ?_, hold, hnew, rfl⟩
      rw [ownerOf, hobject]
      rfl
    · cases hpush

/-- `CommunicatorEpoll::notify` registers the queue, unless it is registered already. -/
theorem notifyEpoll_spec {iSeq : ℕ} (h : s.notifyEpoll e iSeq q = some (s', es)) :
    ∃ notifies, s' = { s with notifies } ∧
      (∀ e' j q', notifies e' j = some q' ↔
        s.notifies e' j = some q' ∨ e' = e ∧ j = iSeq ∧ q' = q) ∧
      (∀ event ∈ es, event = .registered q e) ∧
      (es = [] → s.notifies e iSeq = some q) := by
  unfold notifyEpoll at h
  split at h
  · next p hp =>
    split at h
    · next hsame =>
      subst hsame
      obtain ⟨rfl, rfl⟩ := Prod.mk.inj (Option.some.inj h)
      refine ⟨s.notifies, rfl, fun e' j q' => ⟨.inl, ?_⟩, ?_, fun _ => hp⟩
      · rintro (hold | ⟨rfl, rfl, rfl⟩)
        · exact hold
        · exact hp
      · intro event hevent
        cases hevent
    · cases h
  · next hnone =>
    obtain ⟨rfl, rfl⟩ := Prod.mk.inj (Option.some.inj h)
    refine ⟨_, rfl, fun e' j q' => ?_, fun event hevent => List.mem_singleton.mp hevent,
      fun hnil => by cases hnil⟩
    by_cases he : e' = e
    · subst he
      by_cases hj : j = iSeq
      · subst hj
        simp [hnone, eq_comm]
      · simp [hj]
    · simp [he]

/-- Behind `notify` a thread stays in its call or has left it. -/
theorem notified_spec (s : ClientThreads) (t : ℕ) (i : Invocation) :
    ∃ next aborted, s.notified t i = { s with
          invocation := Function.update s.invocation t next
          threads := { s.threads with aborted } } ∧
      ∀ j, next = some j → j.communicatorEpoll = i.communicatorEpoll ∧ j.pReqQ = i.pReqQ := by
  unfold notified
  split
  · refine ⟨_, s.threads.aborted, rfl, fun j hj => ?_⟩
    obtain rfl := Option.some.inj hj
    exact ⟨rfl, rfl⟩
  · dsimp only
    split
    · exact ⟨none, true, rfl, fun j hj => by cases hj⟩
    · exact ⟨none, s.threads.aborted, rfl, fun j hj => by cases hj⟩

/-- `ObjectProxyFactory::getObjectProxy` finds or creates an object proxy of its network
thread. -/
theorem getObjectProxy_spec (objects : List ProxyObject) (e : EpollId) (tmpObjName : Bytes) :
    ∃ more, (getObjectProxy objects e tmpObjName).1 = objects ++ more ∧
      ownerOf (getObjectProxy objects e tmpObjName).1 (getObjectProxy objects e tmpObjName).2 =
        some e := by
  unfold getObjectProxy
  cases hfind : objects.findIdx? (· = ⟨e, tmpObjName⟩) with
  | some o =>
    obtain ⟨hlt, hobject, -⟩ := List.findIdx?_eq_some_iff_getElem.mp hfind
    have hsame : objects[o] = ⟨e, tmpObjName⟩ := of_decide_eq_true hobject
    refine ⟨[], by simp, ?_⟩
    rw [ownerOf, List.getElem?_eq_getElem hlt, hsame]
    rfl
  | none => exact ⟨_, rfl, by simp [ownerOf]⟩

/-- The loop in `getServantProxy` gives the network threads their object proxies in order. -/
theorem getObjectProxies_spec (c : ℕ) (tmpObjName : Bytes) (i n : ℕ) (objects : List ProxyObject) :
    ∃ more, (getObjectProxies c tmpObjName i n objects).1 = objects ++ more ∧
      ∀ j o, (getObjectProxies c tmpObjName i n objects).2[j]? = some o →
        ownerOf (getObjectProxies c tmpObjName i n objects).1 o = some ⟨c, i + j⟩ := by
  induction n generalizing i objects with
  | zero => exact ⟨[], by simp [getObjectProxies], fun j o h => by cases h⟩
  | succ n ih =>
    obtain ⟨first, hfirst, howner⟩ := getObjectProxy_spec objects ⟨c, i⟩ tmpObjName
    obtain ⟨rest, hrest, howners⟩ := ih (i + 1) (getObjectProxy objects ⟨c, i⟩ tmpObjName).1
    simp only [getObjectProxies]
    refine ⟨first ++ rest, by rw [hrest, hfirst, List.append_assoc], fun j o ho => ?_⟩
    cases j with
    | zero =>
      obtain rfl := Option.some.inj ho
      rw [hrest]
      exact ownerOf_append howner rest
    | succ j =>
      rw [howners j o ho, Nat.add_right_comm]
      rfl

/-- `Communicator::initialize` creates threads and nothing else that calls depend on. -/
theorem communicatorInitialize_spec (s : ClientThreads) (c : ℕ) :
    ∃ threads communicators runner, s.communicatorInitialize c =
        { s with threads, communicators, runner } ∧ threads.specific = s.threads.specific := by
  unfold communicatorInitialize
  split
  · exact ⟨_, _, _, rfl, rfl⟩
  · exact ⟨_, _, _, rfl, rfl⟩

/-- `getServantProxy` adds a proxy whose object proxies belong to the communicator's network
threads. -/
theorem getServantProxy_spec (s : ClientThreads) (c : ℕ) (ip : Bytes) (port : ℕ) :
    ∃ threads communicators runner more p, s.getServantProxy c ip port =
        { s with
          threads, communicators, runner
          objectProxies := s.objectProxies ++ more
          proxies := s.proxies ++ [p] } ∧
      threads.specific = s.threads.specific ∧ Belongs (s.objectProxies ++ more) p ∧
      p.communicator = c := by
  obtain ⟨threads, communicators, runner, heq, hspecific⟩ := communicatorInitialize_spec s c
  obtain ⟨more, hmore, howners⟩ := getObjectProxies_spec c (ip ++ bytes ":" ++ toString port) 0
    (communicators c).clientThreadNum s.objectProxies
  rw [hmore] at howners
  refine ⟨threads, communicators, runner, more,
    ⟨c, (getObjectProxies c (ip ++ bytes ":" ++ toString port) 0
      (communicators c).clientThreadNum s.objectProxies).2,
      (communicators c).clientThreadNum, 1000⟩,
    ?_, hspecific, ⟨fun i o ho => by rw [howners i o ho, Nat.zero_add], rfl⟩, rfl⟩
  rw [getServantProxy, heq]
  dsimp only
  rw [hmore]

end ClientThreads

end Tars
