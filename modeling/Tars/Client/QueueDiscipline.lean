import Tars.Client.RequestQueues

/-!
# One producer and one consumer for every request queue

A queue is pushed to by the thread that has created it, whatever the thread calls. The network
threads that register it agree in their number, so they are one network thread as long as the
thread uses each of its places with proxies of one communicator only, and then the messages in
the queue are for object proxies of that network thread. This bound is exact.
-/

namespace Tars

open Scripts

namespace ClientThreads

/-- What holds in every run, whatever communicators the proxies of a thread belong to. -/
structure Inv (s : ClientThreads) (es : List QueueEvent) : Prop where
  /-- The object proxies of a proxy belong to the network threads of its communicator. -/
  proxies : ∀ p ∈ s.proxies, Belongs s.objectProxies p
  /-- The queues of a thread were created for it. -/
  mine : ∀ t k data, s.threads.specific t k = some data → Mine s.queues t data
  /-- The queues are well formed. -/
  wf : ∀ info ∈ s.queues, info.queue.WF
  /-- The thread that pushes to a queue has created it. -/
  pushed : ∀ q t, .pushed q t ∈ es → ∃ i, label s.queues q = some (t, i)
  /-- The registrations stay: what was registered is what the network threads have in `_notify`. -/
  registered : ∀ q e, .registered q e ∈ es ↔ ∃ iSeq, s.notifies e iSeq = some q
  /-- A network thread registers queues that are at its place. -/
  place : ∀ e iSeq q, s.notifies e iSeq = some q →
    ∃ t, label s.queues q = some (t, e.netThreadSeq)
  /-- A thread in `invoke` has pushed to a queue of its own. -/
  invoking : ∀ t i, s.invocation t = some i →
    label s.queues i.pReqQ = some (t, i.communicatorEpoll.netThreadSeq)

/-- What holds as long as every queue is used with one communicator. -/
structure Single (s : ClientThreads) (es : List QueueEvent) : Prop where
  /-- A queue is registered with one network thread. -/
  one : ∀ e e' iSeq iSeq' q, s.notifies e iSeq = some q → s.notifies e' iSeq' = some q → e = e'
  /-- It is the one that is going to be notified. -/
  agrees : ∀ t i e iSeq, s.invocation t = some i → s.notifies e iSeq = some i.pReqQ →
    e = i.communicatorEpoll
  /-- A message in a queue is for an object proxy of that network thread. -/
  stored : ∀ q info, s.queues[q]? = some info → ∀ msg ∈ info.queue.contents,
    ∃ e, ownerOf s.objectProxies msg.pObjectProxy = some e ∧
      ((∃ iSeq, s.notifies e iSeq = some q) ∨
        ∃ t i, s.invocation t = some i ∧ i.pReqQ = q ∧ i.communicatorEpoll = e)
  /-- The messages that were popped were popped by their owners. -/
  popped : ∀ q e owner, .popped q e owner ∈ es → owner = e

/-- What a step can do, with all that later proofs need of it. Each case also says when the step met
the condition. -/
inductive Effect (newKey : ℕ → ℕ) (s : ClientThreads) (a : CallAction) :
    ClientThreads → List QueueEvent → Prop where
  /-- Only the threads change, and the data of each names its own queues. -/
  | quiet (threads : Threads)
      (hmine : ∀ t k data, threads.specific t k = some data → Mine s.queues t data)
      (hsame : SameCommunicator newKey s a) : Effect newKey s a { s with threads } []
  /-- A proxy is made, with object proxies of its communicator. -/
  | proxy (threads : Threads) (communicators : ℕ → Communicator) (runner : EpollId → Option ℕ)
      (more : List ProxyObject) (p : ServantProxy)
      (hmine : ∀ t k data, threads.specific t k = some data → Mine s.queues t data)
      (hbelongs : Belongs (s.objectProxies ++ more) p) (hsame : SameCommunicator newKey s a) :
      Effect newKey s a
        { s with
          threads, communicators, runner
          objectProxies := s.objectProxies ++ more
          proxies := s.proxies ++ [p] } []
  /-- A thread pushes to a queue of its own. -/
  | push (threads : Threads) (t : ℕ) (more : List ReqInfoQueue) (info : ReqInfoQueue)
      (i : Invocation) (msg : ReqMessage) (hready : s.invocation t = none)
      (hmine : ∀ t k data, threads.specific t k = some data → Mine (s.queues ++ more) t data)
      (hmore : ∀ info ∈ more, info.queue.WF ∧ info.queue.contents = [])
      (hinfo : (s.queues ++ more)[i.pReqQ]? = some info)
      (hlabel : label (s.queues ++ more) i.pReqQ = some (t, i.communicatorEpoll.netThreadSeq))
      (howner : ownerOf s.objectProxies msg.pObjectProxy = some i.communicatorEpoll)
      (hsame : SameCommunicator newKey s a ↔ ∀ e iSeq, s.notifies e iSeq = some i.pReqQ →
        e.communicator = i.communicatorEpoll.communicator) :
      Effect newKey s a
        { s with
          threads
          queues := (s.queues ++ more).set i.pReqQ
            { info with queue := (info.queue.pushBack msg).queue }
          invocation := Function.update s.invocation t (some i) }
        [.pushed i.pReqQ t]
  /-- A thread has notified the network thread of its object proxy. -/
  | notify (t : ℕ) (i : Invocation) (iSeq : ℕ) (notifies : EpollId → ℕ → Option ℕ)
      (next : Option Invocation) (aborted : Bool) (es : List QueueEvent)
      (hinvocation : s.invocation t = some i)
      (hnotifies : ∀ e j q, notifies e j = some q ↔
        s.notifies e j = some q ∨ e = i.communicatorEpoll ∧ j = iSeq ∧ q = i.pReqQ)
      (hes : ∀ event ∈ es, event = .registered i.pReqQ i.communicatorEpoll)
      (hold : es = [] → s.notifies i.communicatorEpoll iSeq = some i.pReqQ)
      (hnext : ∀ j, next = some j →
        j.communicatorEpoll = i.communicatorEpoll ∧ j.pReqQ = i.pReqQ)
      (hsame : SameCommunicator newKey s a) :
      Effect newKey s a
        { s with
          notifies
          invocation := Function.update s.invocation t next
          threads := { s.threads with aborted } } es
  /-- A network thread pops a message. -/
  | pop (e owner : EpollId) (iSeq q : ℕ) (info : ReqInfoQueue) (msg : ReqMessage)
      (queue : LoopQueue ReqMessage) (hnotifies : s.notifies e iSeq = some q)
      (hinfo : s.queues[q]? = some info) (hpop : info.queue.popFront = some (msg, queue))
      (howner : ownerOf s.objectProxies msg.pObjectProxy = some owner)
      (hsame : SameCommunicator newKey s a) :
      Effect newKey s a { s with queues := s.queues.set q { info with queue } }
        [.popped q e owner]

variable {newKey : ℕ → ℕ} {s s' : ClientThreads} {a : CallAction} {t : ℕ} {p : ServantProxy}
  {data : ServantProxyThreadData} {msg : ReqMessage} {e : EpollId} {q : ℕ}
  {es past : List QueueEvent} {as : List CallAction}

/-- New data changes nothing about whose the queues are. -/
theorem Inv.mine_of_kept (h : s.Inv past) {threads : Threads}
    (hkept : ∀ t k data, threads.specific t k = some data →
      s.threads.specific t k = some data ∨ ∃ reqQNo, data = .numbered reqQNo) :
    ∀ t k data, threads.specific t k = some data → Mine s.queues t data := by
  intro t k data hdata
  obtain hold | ⟨reqQNo, rfl⟩ := hkept t k data hdata
  · exact h.mine t k data hold
  · exact mine_numbered s.queues t reqQNo

/-- A new queue is not registered: a network thread knows only queues that were made before. -/
theorem Inv.not_registered (h : s.Inv past) (hq : s.queues.length ≤ q) (e : EpollId) (iSeq : ℕ) :
    s.notifies e iSeq ≠ some q := by
  intro hnotifies
  obtain ⟨t, hlabel⟩ := h.place e iSeq q hnotifies
  rw [label, List.getElem?_eq_none hq] at hlabel
  cases hlabel

/-- A call of `invoke` fails in `getData`, or pushes. -/
theorem Inv.invoke_effect (h : s.Inv past) {proxy : ℕ} (hproxy : s.proxies[proxy]? = some p)
    (hready : s.invocation t = none) (hinvoke : s.invoke newKey t p msg = some (s', es)) :
    Effect newKey s (.invoke t proxy msg) s' es := by
  unfold invoke at hinvoke
  cases hget : s.threads.getData newKey t with
  | none =>
    rw [hget] at hinvoke
    obtain ⟨rfl, rfl⟩ := Prod.mk.inj (Option.some.inj hinvoke)
    refine .quiet _ (fun u k data hdata => h.mine u k data hdata) ?_
    intro p' data q e iSeq _ hfind
    rw [Threads.getData_of_find hfind] at hget
    cases hget
  | some r =>
    obtain ⟨threads, data⟩ := r
    rw [hget] at hinvoke
    obtain ⟨hown, hkept⟩ := Threads.getData_specific hget
    have hmine := h.mine_of_kept hkept
    obtain ⟨data', more, info, i, msg', k, rfl, hmore, hinfo, hmine', hlabel, hepoll, howner,
      hold, hnew, rfl⟩ := push_spec (s := { s with threads }) (hmine t _ data hown)
        (h.proxies p (List.mem_of_getElem? hproxy)) hinvoke
    refine .push _ t more info i msg' hready (fun u k' found hfound => ?_) hmore hinfo
      (by rw [hepoll]; exact hlabel) howner ?_
    · rw [Threads.setspecific_specific] at hfound
      split at hfound
      · next hsame =>
        obtain rfl := Option.some.inj hfound
        exact hsame.1 ▸ hmine'
      · exact (hmine u k' found hfound).append more
    · rw [hepoll]
      cases hinit : data.queueInit with
      | false =>
        -- the queue is new, so neither side says anything
        have hnil : data.reqQueue = [] := (hmine t _ data hown).nil_of_not_init hinit
        refine iff_of_true (fun p' found q e iSeq _ hfind hq _ => ?_)
          fun e iSeq hnotifies => absurd hnotifies (h.not_registered (hnew hinit) e iSeq)
        obtain hsome | ⟨hnone, -⟩ := Threads.getData_find hget
        · obtain rfl := Option.some.inj (hsome.symm.trans hfind)
          rw [hnil] at hq
          cases hq
        · rw [hnone] at hfind
          cases hfind
      | true =>
        have hfind : s.threads.find newKey t = some data := by
          obtain hsome | ⟨-, reqQNo, rfl⟩ := Threads.getData_find hget
          · exact hsome
          · cases hinit
        constructor
        · intro hall e iSeq hnotifies
          exact hall p data i.pReqQ e iSeq hproxy hfind (hold hinit) hnotifies
        · intro hall p' found q e iSeq hproxy' hfound hq hnotifies
          obtain rfl := Option.some.inj (hproxy.symm.trans hproxy')
          obtain rfl := Option.some.inj (hfind.symm.trans hfound)
          obtain rfl := Option.some.inj ((hold hinit).symm.trans hq)
          exact hall e iSeq hnotifies

/-- A call of `notify` fails in its assertion, or registers the queue. -/
theorem notify_effect (h : s.Inv past) (hsame : SameCommunicator newKey s a)
    (hnotify : s.notify t = some (s', es)) : Effect newKey s a s' es := by
  unfold notify at hnotify
  split at hnotify
  · cases hnotify
  · next i hinvocation =>
    split at hnotify
    · obtain ⟨rfl, rfl⟩ := Prod.mk.inj (Option.some.inj hnotify)
      exact .quiet _ (fun u k data hdata => h.mine u k data hdata) hsame
    · next s₁ es₁ hepoll =>
      obtain ⟨rfl, rfl⟩ := Prod.mk.inj (Option.some.inj hnotify)
      obtain ⟨notifies, rfl, hnotifies, hes, hold⟩ := notifyEpoll_spec hepoll
      obtain ⟨next, aborted, heq, hnext⟩ := notified_spec { s with notifies } t i
      rw [heq]
      exact .notify t i i.reqQNo notifies next aborted es₁ hinvocation hnotifies hes hold hnext
        hsame

/-- A round of `handle` finds the queue empty, or pops a message. -/
theorem handle_effect {iSeq : ℕ} (h : s.Inv past) (hsame : SameCommunicator newKey s a)
    (hhandle : s.handle e iSeq = some (s', es)) : Effect newKey s a s' es := by
  unfold handle at hhandle
  split at hhandle
  · cases hhandle
  · next q hnotifies =>
    split at hhandle
    · cases hhandle
    · next info hinfo =>
      split at hhandle
      · obtain ⟨rfl, rfl⟩ := Prod.mk.inj (Option.some.inj hhandle)
        exact .quiet s.threads h.mine hsame
      · next msg queue hpop =>
        split at hhandle
        · cases hhandle
        · next object hobject =>
          obtain ⟨rfl, rfl⟩ := Prod.mk.inj (Option.some.inj hhandle)
          refine .pop e object.communicatorEpoll iSeq q info msg queue hnotifies hinfo hpop ?_ hsame
          rw [ownerOf, hobject]
          rfl

/-- Writing `_netThreadSeq` keeps the queues of the data, so it is a step without an effect on them.
-/
theorem Inv.run_effect (h : s.Inv past) (hsame : SameCommunicator newKey s a) :
    Effect newKey s a (s.run newKey t e) [] := by
  unfold run
  cases hget : s.threads.getData newKey t with
  | none => exact .quiet _ (fun u k data hdata => h.mine u k data hdata) hsame
  | some r =>
    obtain ⟨threads, data⟩ := r
    obtain ⟨hown, hkept⟩ := Threads.getData_specific hget
    have hmine := h.mine_of_kept hkept
    refine .quiet _ (fun u k found hfound => ?_) hsame
    rw [Threads.setspecific_specific] at hfound
    split at hfound
    · next hsame =>
      obtain rfl := Option.some.inj hfound
      have hold := hmine t _ data hown
      exact hsame.1 ▸ ⟨hold.nil_of_not_init, hold.label_eq⟩
    · exact hmine u k found hfound

/-- Threads that are created, exit or call `getData` touch no queue. -/
theorem Inv.thread_effect {b : ThreadAction} (h : s.Inv past)
    (hstep : step newKey s (.thread b) = some (s', es)) : Effect newKey s (.thread b) s' es := by
  have hquiet {threads : Threads} (hkept : ∀ t k data, threads.specific t k = some data →
      s.threads.specific t k = some data ∨ ∃ reqQNo, data = .numbered reqQNo) :
      Effect newKey s (.thread b) { s with threads } [] :=
    .quiet threads (h.mine_of_kept hkept) trivial
  have hmap (hstep : (s.threads.step newKey b).map (fun r =>
      (({ s with threads := r.1 }, []) : ClientThreads × List QueueEvent)) = some (s', es)) :
      Effect newKey s (.thread b) s' es := by
    obtain ⟨r, hr, heq⟩ := Option.map_eq_some_iff.mp hstep
    obtain ⟨rfl, rfl⟩ := Prod.mk.inj heq
    exact hquiet fun t k data hdata => Threads.step_specific hr hdata
  unfold step at hstep
  split at hstep
  · cases hstep
  · cases b with
    | create => exact hmap hstep
    | getData t => exact hmap hstep
    | exit t =>
      dsimp only at hstep
      split at hstep
      · obtain ⟨rfl, rfl⟩ := Prod.mk.inj (Option.some.inj hstep)
        exact hquiet fun u k data hdata => .inl (Threads.exit_specific hdata).2
      · cases hstep

/-- **What a step can do**: every step has one of the effects, in a state that satisfies the
invariant. -/
theorem Inv.effect (h : s.Inv past) (hstep : step newKey s a = some (s', es)) :
    Effect newKey s a s' es := by
  have hall := hstep
  unfold step at hstep
  split at hstep
  · cases hstep
  · cases a with
    | thread a => exact h.thread_effect hall
    | getServantProxy c ip port =>
      obtain ⟨rfl, rfl⟩ := Prod.mk.inj (Option.some.inj hstep)
      obtain ⟨threads, communicators, runner, more, p, heq, hspecific, hbelongs, -⟩ :=
        getServantProxy_spec s c ip port
      rw [heq]
      exact .proxy threads communicators runner more p
        (fun u k data hdata => h.mine u k data (by rwa [hspecific] at hdata)) hbelongs trivial
    | run e =>
      dsimp only at hstep
      split at hstep
      · cases hstep
      · split at hstep
        · obtain ⟨rfl, rfl⟩ := Prod.mk.inj (Option.some.inj hstep)
          exact h.run_effect trivial
        · cases hstep
    | invoke t proxy msg =>
      dsimp only at hstep
      split at hstep
      · cases hstep
      · next p hproxy =>
        split at hstep
        · next hready => exact h.invoke_effect hproxy hready.2 hstep
        · cases hstep
    | notify t => exact notify_effect h trivial hstep
    | handle e iSeq =>
      dsimp only at hstep
      split at hstep
      · cases hstep
      · split at hstep
        · exact handle_effect h trivial hstep
        · cases hstep

/-! ### The invariants -/

/-- At the start there is nothing: no proxy, no queue and no registration. -/
theorem inv_new : new.Inv [] := by
  refine ⟨fun p hp => ?_, fun t k data hdata => ?_, fun info hinfo => ?_, fun q t hmem => ?_,
    fun q e => ⟨fun hmem => ?_, ?_⟩, fun e iSeq q hnotifies => ?_, fun t i hi => ?_⟩
  · cases hp
  · cases hdata
  · cases hinfo
  · cases hmem
  · cases hmem
  · rintro ⟨iSeq, hnotifies⟩
    cases hnotifies
  · cases hnotifies
  · cases hi

/-- Whose the queues are depends on their labels only, not on their contents or their other members.
-/
theorem Mine.of_label {queues queues' : List ReqInfoQueue} (h : Mine queues t data)
    (hlabel : label queues' = label queues) : Mine queues' t data :=
  ⟨h.nil_of_not_init, fun i q hq => by rw [hlabel]; exact h.label_eq i q hq⟩

/-- Every step keeps what holds in every run, whether or not it meets the condition of the
discipline. -/
theorem Inv.next (h : s.Inv past) (heffect : Effect newKey s a s' es) : s'.Inv (past ++ es) := by
  cases heffect with
  | quiet threads hmine hsame =>
    rw [List.append_nil]
    exact ⟨h.proxies, hmine, h.wf, h.pushed, h.registered, h.place, h.invoking⟩
  | proxy threads communicators runner more p hmine hbelongs hsame =>
    rw [List.append_nil]
    refine ⟨fun p' hp => ?_, hmine, h.wf, h.pushed, h.registered, h.place, h.invoking⟩
    obtain hold | hnew := List.mem_append.mp hp
    · have hbelongs := h.proxies p' hold
      exact ⟨fun i o ho => ownerOf_append (hbelongs.owner_eq i o ho) more, hbelongs.queueSize_eq⟩
    · rwa [List.mem_singleton.mp hnew]
  | push threads t more info i msg hready hmine hmore hinfo hlabel howner hsame =>
    have hlabels := label_set hinfo (info.queue.pushBack msg).queue
    have hwf : ∀ info ∈ s.queues ++ more, info.queue.WF := fun info hmem =>
      (List.mem_append.mp hmem).elim (h.wf info) fun hnew => (hmore info hnew).1
    refine ⟨h.proxies, fun u k data hdata => (hmine u k data hdata).of_label hlabels,
      fun other hother => ?_, fun q u hmem => ?_, fun q e => ?_, fun e iSeq q hnotifies => ?_,
      fun u j hj => ?_⟩
    · obtain hold | rfl := List.mem_or_eq_of_mem_set hother
      · exact hwf other hold
      · exact (LoopQueue.WF.pushBack (hwf info (List.mem_of_getElem? hinfo)) msg).1
    · rw [hlabels]
      obtain hold | hnew := List.mem_append.mp hmem
      · obtain ⟨place, hplace⟩ := h.pushed q u hold
        exact ⟨place, label_append hplace more⟩
      · obtain ⟨rfl, rfl⟩ := by simpa using hnew
        exact ⟨_, hlabel⟩
    · rw [List.mem_append, or_iff_left (by simp)]
      exact h.registered q e
    · rw [hlabels]
      obtain ⟨u, hu⟩ := h.place e iSeq q hnotifies
      exact ⟨u, label_append hu more⟩
    · rw [hlabels]
      dsimp only at hj
      by_cases hu : u = t
      · subst hu
        rw [Function.update_self] at hj
        obtain rfl := Option.some.inj hj
        exact hlabel
      · rw [Function.update_of_ne hu] at hj
        exact label_append (h.invoking u j hj) more
  | notify t i iSeq notifies next aborted es hinvocation hnotifies hes hold hnext hsame =>
    refine ⟨h.proxies, h.mine, h.wf, fun q u hmem => ?_, fun q e => ⟨fun hmem => ?_, ?_⟩,
      fun e j q hj => ?_, fun u j hj => ?_⟩
    · obtain hmem | hmem := List.mem_append.mp hmem
      · exact h.pushed q u hmem
      · cases hes _ hmem
    · obtain hmem | hmem := List.mem_append.mp hmem
      · obtain ⟨j, hj⟩ := (h.registered q e).mp hmem
        exact ⟨j, (hnotifies e j q).mpr (.inl hj)⟩
      · obtain ⟨rfl, rfl⟩ := QueueEvent.registered.inj (hes _ hmem)
        exact ⟨iSeq, (hnotifies _ _ _).mpr (.inr ⟨rfl, rfl, rfl⟩)⟩
    · rintro ⟨j, hj⟩
      rw [List.mem_append]
      obtain hj | ⟨rfl, rfl, rfl⟩ := (hnotifies e j q).mp hj
      · exact .inl ((h.registered q e).mpr ⟨j, hj⟩)
      · cases es with
        | nil => exact .inl ((h.registered _ _).mpr ⟨_, hold rfl⟩)
        | cons event es =>
          exact .inr (hes event List.mem_cons_self ▸ List.mem_cons_self)
    · obtain hj | ⟨rfl, rfl, rfl⟩ := (hnotifies e j q).mp hj
      · exact h.place e j q hj
      · exact ⟨t, h.invoking t i hinvocation⟩
    · dsimp only at hj
      by_cases hu : u = t
      · subst hu
        rw [Function.update_self] at hj
        obtain ⟨hepoll, hqueue⟩ := hnext j hj
        rw [hepoll, hqueue]
        exact h.invoking u i hinvocation
      · rw [Function.update_of_ne hu] at hj
        exact h.invoking u j hj
  | pop e owner iSeq q info msg queue hnotifies hinfo hpop howner hsame =>
    have hlabels := label_set hinfo queue
    refine ⟨h.proxies, fun u k data hdata => (h.mine u k data hdata).of_label hlabels,
      fun other hother => ?_, fun q' u hmem => ?_, fun q' e' => ?_, ?_, ?_⟩
    · obtain hold | rfl := List.mem_or_eq_of_mem_set hother
      · exact h.wf other hold
      · exact (LoopQueue.WF.popFront (h.wf info (List.mem_of_getElem? hinfo)) hpop).1
    · rw [hlabels]
      exact h.pushed q' u (by simpa using hmem)
    · rw [List.mem_append, or_iff_left (by simp)]
      exact h.registered q' e'
    · rw [hlabels]
      exact h.place
    · rw [hlabels]
      exact h.invoking

/-- The network threads at the place of a queue that belong to one communicator are one. -/
theorem Inv.epoll_eq {queues : List ReqInfoQueue} (h : s.Inv past) {e e' : EpollId} {iSeq : ℕ}
    (hnotifies : s.notifies e iSeq = some q) (hlabel : label queues q = some (t, e'.netThreadSeq))
    (hqueues : ∃ more, queues = s.queues ++ more) (hsame : e.communicator = e'.communicator) :
    e = e' := by
  obtain ⟨more, rfl⟩ := hqueues
  obtain ⟨u, hu⟩ := h.place e iSeq q hnotifies
  obtain ⟨-, hplace⟩ := Prod.mk.inj (Option.some.inj ((label_append hu more).symm.trans hlabel))
  obtain ⟨c, n⟩ := e
  obtain ⟨c', n'⟩ := e'
  exact EpollId.mk.injEq c n c' n' ▸ ⟨hsame, hplace⟩

/-- Pushing to a queue that is registered with no other network thread. -/
theorem Single.push (h : s.Single past) (hinv : s.Inv past) {more : List ReqInfoQueue}
    {info : ReqInfoQueue} {i : Invocation} {threads : Threads} (hready : s.invocation t = none)
    (hmore : ∀ info ∈ more, info.queue.WF ∧ info.queue.contents = [])
    (hinfo : (s.queues ++ more)[i.pReqQ]? = some info)
    (hlabel : label (s.queues ++ more) i.pReqQ = some (t, i.communicatorEpoll.netThreadSeq))
    (howner : ownerOf s.objectProxies msg.pObjectProxy = some i.communicatorEpoll)
    (hagree : ∀ e iSeq, s.notifies e iSeq = some i.pReqQ → e = i.communicatorEpoll) :
    Single
      { s with
        threads
        queues := (s.queues ++ more).set i.pReqQ
          { info with queue := (info.queue.pushBack msg).queue }
        invocation := Function.update s.invocation t (some i) }
      (past ++ [.pushed i.pReqQ t]) := by
  have hothers (u : ℕ) (j : Invocation) (hj : s.invocation u = some j) :
      u ≠ t ∧ j.pReqQ ≠ i.pReqQ := by
    have hne : u ≠ t := by
      rintro rfl
      rw [hready] at hj
      cases hj
    refine ⟨hne, fun hsame => hne ?_⟩
    have hu := label_append (hinv.invoking u j hj) more
    rw [hsame, hlabel] at hu
    exact (Prod.mk.inj (Option.some.inj hu)).1.symm
  have hstored (q : ℕ) (other : ReqInfoQueue) (hother : (s.queues ++ more)[q]? = some other)
      (msg' : ReqMessage) (hmsg : msg' ∈ other.queue.contents) :
      ∃ e, ownerOf s.objectProxies msg'.pObjectProxy = some e ∧
        ((∃ iSeq, s.notifies e iSeq = some q) ∨
          ∃ u j, s.invocation u = some j ∧ j.pReqQ = q ∧ j.communicatorEpoll = e) := by
    by_cases hq : q < s.queues.length
    · rw [List.getElem?_append_left hq] at hother
      exact h.stored q other hother msg' hmsg
    · rw [List.getElem?_append_right (Nat.le_of_not_lt hq)] at hother
      rw [(hmore other (List.mem_of_getElem? hother)).2] at hmsg
      cases hmsg
  have hwf : info.queue.WF := by
    obtain hold | hnew := List.mem_append.mp (List.mem_of_getElem? hinfo)
    · exact hinv.wf info hold
    · exact (hmore info hnew).1
  refine ⟨h.one, fun u j e iSeq hj hnotifies => ?_, fun q other hother msg' hmsg => ?_,
    fun q e owner hmem => h.popped q e owner (by simpa using hmem)⟩
  · dsimp only at hj hnotifies
    by_cases hu : u = t
    · subst hu
      rw [Function.update_self] at hj
      obtain rfl := Option.some.inj hj
      exact hagree e iSeq hnotifies
    · rw [Function.update_of_ne hu] at hj
      exact h.agrees u j e iSeq hj hnotifies
  · have hkept (e : EpollId) (hwhere : (∃ iSeq, s.notifies e iSeq = some q) ∨
        ∃ u j, s.invocation u = some j ∧ j.pReqQ = q ∧ j.communicatorEpoll = e) :
        (∃ iSeq, s.notifies e iSeq = some q) ∨
          ∃ u j, Function.update s.invocation t (some i) u = some j ∧ j.pReqQ = q ∧
            j.communicatorEpoll = e := by
      apply hwhere.imp_right
      rintro ⟨u, j, hj, hqueue, hepoll⟩
      exact ⟨u, j, by rwa [Function.update_of_ne (hothers u j hj).1], hqueue, hepoll⟩
    dsimp only at hother
    by_cases hq : i.pReqQ = q
    · subst hq
      rw [List.getElem?_set_self (List.getElem?_eq_some_iff.mp hinfo).1] at hother
      obtain rfl := Option.some.inj hother
      have hcases : msg' ∈ info.queue.contents ∨ msg' = msg := by
        obtain ⟨-, ⟨-, -, hsame⟩ | ⟨-, -, hcontents⟩⟩ := hwf.pushBack msg
        · exact .inl (hsame ▸ hmsg)
        · exact (List.mem_append.mp (hcontents ▸ hmsg)).imp_right List.mem_singleton.mp
      obtain hold | rfl := hcases
      · obtain ⟨e, howner', hwhere⟩ := hstored _ info hinfo msg' hold
        exact ⟨e, howner', hkept e hwhere⟩
      · exact ⟨_, howner, .inr ⟨t, i, Function.update_self _ _ _, rfl, rfl⟩⟩
    · rw [List.getElem?_set_ne hq] at hother
      obtain ⟨e, howner', hwhere⟩ := hstored q other hother msg' hmsg
      exact ⟨e, howner', hkept e hwhere⟩

/-- Registering a queue with the network thread of its messages. -/
theorem Single.notify (h : s.Single past) (hinv : s.Inv past) {i : Invocation} {iSeq : ℕ}
    {notifies : EpollId → ℕ → Option ℕ} {next : Option Invocation} {threads : Threads}
    (hinvocation : s.invocation t = some i)
    (hnotifies : ∀ e j q, notifies e j = some q ↔
      s.notifies e j = some q ∨ e = i.communicatorEpoll ∧ j = iSeq ∧ q = i.pReqQ)
    (hes : ∀ event ∈ es, event = .registered i.pReqQ i.communicatorEpoll)
    (hnext : ∀ j, next = some j → j.communicatorEpoll = i.communicatorEpoll ∧ j.pReqQ = i.pReqQ) :
    Single { s with notifies, threads, invocation := Function.update s.invocation t next }
      (past ++ es) := by
  refine ⟨fun e e' j j' q hj hj' => ?_, fun u j e k hj hk => ?_, fun q info hinfo msg hmsg => ?_,
    fun q e owner hmem => ?_⟩
  · obtain hj | ⟨rfl, -, rfl⟩ := (hnotifies e j q).mp hj
    · obtain hj' | ⟨rfl, -, rfl⟩ := (hnotifies e' j' q).mp hj'
      · exact h.one e e' j j' q hj hj'
      · exact h.agrees t i e j hinvocation hj
    · obtain hj' | ⟨rfl, -, -⟩ := (hnotifies e' j' _).mp hj'
      · exact (h.agrees t i e' j' hinvocation hj').symm
      · rfl
  · dsimp only at hj hk
    by_cases hu : u = t
    · subst hu
      rw [Function.update_self] at hj
      obtain ⟨hepoll, hqueue⟩ := hnext j hj
      rw [hepoll]
      rw [hqueue] at hk
      obtain hk | ⟨rfl, -, -⟩ := (hnotifies e k _).mp hk
      · exact h.agrees u i e k hinvocation hk
      · rfl
    · rw [Function.update_of_ne hu] at hj
      obtain hk | ⟨-, -, hqueue⟩ := (hnotifies e k _).mp hk
      · exact h.agrees u j e k hj hk
      · -- two threads do not push to one queue
        have hlabel := hinv.invoking u j hj
        rw [hqueue, hinv.invoking t i hinvocation] at hlabel
        exact absurd (Prod.mk.inj (Option.some.inj hlabel)).1.symm hu
  · obtain ⟨e, howner, ⟨j, hj⟩ | ⟨u, j, hj, rfl, rfl⟩⟩ := h.stored q info hinfo msg hmsg
    · exact ⟨e, howner, .inl ⟨j, (hnotifies e j q).mpr (.inl hj)⟩⟩
    · refine ⟨_, howner, ?_⟩
      by_cases hu : u = t
      · subst hu
        obtain rfl := Option.some.inj (hj.symm.trans hinvocation)
        exact .inl ⟨iSeq, (hnotifies _ _ _).mpr (.inr ⟨rfl, rfl, rfl⟩)⟩
      · exact .inr ⟨u, j, (Function.update_of_ne hu _ _).trans hj, rfl, rfl⟩
  · obtain hmem | hmem := List.mem_append.mp hmem
    · exact h.popped q e owner hmem
    · cases hes _ hmem

/-- Popping a message by the network thread that has registered the queue. -/
theorem Single.pop (h : s.Single past) {owner : EpollId} {iSeq : ℕ} {info : ReqInfoQueue}
    {queue : LoopQueue ReqMessage} (hinv : s.Inv past) (hnotifies : s.notifies e iSeq = some q)
    (hinfo : s.queues[q]? = some info) (hpop : info.queue.popFront = some (msg, queue))
    (howner : ownerOf s.objectProxies msg.pObjectProxy = some owner) :
    Single { s with queues := s.queues.set q { info with queue } }
      (past ++ [.popped q e owner]) := by
  have hcontents := (LoopQueue.WF.popFront (hinv.wf info (List.mem_of_getElem? hinfo)) hpop).2
  refine ⟨h.one, h.agrees, fun q' other hother msg' hmsg => ?_, fun q' e' owner' hmem => ?_⟩
  · dsimp only at hother
    by_cases hq : q = q'
    · subst hq
      rw [List.getElem?_set_self (List.getElem?_eq_some_iff.mp hinfo).1] at hother
      obtain rfl := Option.some.inj hother
      exact h.stored q info hinfo msg' (hcontents ▸ List.mem_cons_of_mem _ hmsg)
    · rw [List.getElem?_set_ne hq] at hother
      exact h.stored q' other hother msg' hmsg
  · obtain hold | hnew := List.mem_append.mp hmem
    · exact h.popped q' e' owner' hold
    · obtain ⟨rfl, rfl, rfl⟩ := by simpa using hnew
      obtain ⟨e, howner', hwhere⟩ := h.stored _ info hinfo msg (hcontents ▸ List.mem_cons_self)
      obtain rfl := Option.some.inj (howner.symm.trans howner')
      obtain ⟨j, hj⟩ | ⟨u, j, hj, rfl, rfl⟩ := hwhere
      · exact h.one _ _ j iSeq _ hj hnotifies
      · exact (h.agrees u j _ iSeq hj hnotifies).symm

/-- **One consumer.** A step that uses a queue with no other communicator keeps the queues with
one network thread each. -/
theorem Single.next (h : s.Single past) (hinv : s.Inv past) (heffect : Effect newKey s a s' es)
    (hone : SameCommunicator newKey s a) : s'.Single (past ++ es) := by
  cases heffect with
  | quiet threads hmine hsame =>
    rw [List.append_nil]
    exact ⟨h.one, h.agrees, h.stored, h.popped⟩
  | proxy threads communicators runner more p hmine hbelongs hsame =>
    rw [List.append_nil]
    refine ⟨h.one, h.agrees, fun q info hinfo msg hmsg => ?_, h.popped⟩
    obtain ⟨e, howner, hwhere⟩ := h.stored q info hinfo msg hmsg
    exact ⟨e, ownerOf_append howner more, hwhere⟩
  | push threads t more info i msg hready hmine hmore hinfo hlabel howner hsame =>
    exact h.push hinv hready hmore hinfo hlabel howner fun e iSeq hnotifies =>
      hinv.epoll_eq hnotifies hlabel ⟨more, rfl⟩ (hsame.mp hone e iSeq hnotifies)
  | notify t i iSeq notifies next aborted es hinvocation hnotifies hes hold hnext hsame =>
    exact h.notify hinv hinvocation hnotifies hes hnext
  | pop e owner iSeq q info msg queue hnotifies hinfo hpop howner hsame =>
    exact h.pop hinv hnotifies hinfo hpop howner

/-! ### Two consumers -/

/-- A queue is registered with two network threads, or will be when a thread notifies. -/
def Split (s : ClientThreads) (es : List QueueEvent) : Prop :=
  (∃ q e e', .registered q e ∈ es ∧ .registered q e' ∈ es ∧ e ≠ e') ∨
    ∃ t i e iSeq, s.invocation t = some i ∧ s.notifies e iSeq = some i.pReqQ ∧
      e ≠ i.communicatorEpoll

/-- No step undoes this: the registrations of a queue stay, and a thread in `invoke` is going to
notify. -/
theorem Split.next (h : s.Split past) (hinv : s.Inv past) (heffect : Effect newKey s a s' es) :
    s'.Split (past ++ es) := by
  have hinv' := hinv.next heffect
  obtain ⟨q, e, e', hfirst, hsecond, hne⟩ | ⟨u, j, e, k, hj, hnotifies, hne⟩ := h
  · exact .inl ⟨q, e, e', List.mem_append_left es hfirst, List.mem_append_left es hsecond, hne⟩
  · cases heffect with
    | quiet threads hmine hsame => exact .inr ⟨u, j, e, k, hj, hnotifies, hne⟩
    | proxy threads communicators runner more p hmine hbelongs hsame =>
      exact .inr ⟨u, j, e, k, hj, hnotifies, hne⟩
    | push threads t more info i msg hready hmine hmore hinfo hlabel howner hsame =>
      have hut : u ≠ t := by
        rintro rfl
        rw [hready] at hj
        cases hj
      exact .inr ⟨u, j, e, k, (Function.update_of_ne hut _ _).trans hj, hnotifies, hne⟩
    | notify t i iSeq notifies next aborted es hinvocation hnew hes hold hnext hsame =>
      by_cases hut : u = t
      · subst hut
        obtain rfl := Option.some.inj (hj.symm.trans hinvocation)
        exact .inl ⟨j.pReqQ, e, j.communicatorEpoll,
          (hinv'.registered _ _).mpr ⟨k, (hnew e k _).mpr (.inl hnotifies)⟩,
          (hinv'.registered _ _).mpr ⟨iSeq, (hnew _ _ _).mpr (.inr ⟨rfl, rfl, rfl⟩)⟩, hne⟩
      · exact .inr ⟨u, j, e, k, (Function.update_of_ne hut _ _).trans hj,
          (hnew e k _).mpr (.inl hnotifies), hne⟩
    | pop e owner iSeq q info msg queue hnotifies' hinfo hpop howner hsame =>
      exact .inr ⟨u, j, _, k, hj, hnotifies, hne⟩

/-- Using a queue with another communicator leads to this. -/
theorem Effect.split (heffect : Effect newKey s a s' es) (hother : ¬SameCommunicator newKey s a) :
    s'.Split (past ++ es) := by
  cases heffect with
  | quiet threads hmine hsame => exact absurd hsame hother
  | proxy threads communicators runner more p hmine hbelongs hsame => exact absurd hsame hother
  | push threads t more info i msg hready hmine hmore hinfo hlabel howner hsame =>
    rw [hsame] at hother
    push Not at hother
    obtain ⟨e, iSeq, hnotifies, hne⟩ := hother
    exact .inr ⟨t, i, e, iSeq, Function.update_self _ _ _, hnotifies,
      fun heq => hne (congrArg EpollId.communicator heq)⟩
  | notify t i iSeq notifies next aborted es hinvocation hnew hes hold hnext hsame =>
    exact absurd hsame hother
  | pop e owner iSeq q info msg queue hnotifies hinfo hpop howner hsame => exact absurd hsame hother

/-- All proxies, all calls and all registrations belong to one communicator. -/
structure OneCommunicator (c : ℕ) (s : ClientThreads) : Prop where
  /-- The proxies were made by the communicator. -/
  proxies : ∀ p ∈ s.proxies, p.communicator = c
  /-- A thread in `invoke` is going to notify a network thread of it. -/
  invoking : ∀ t i, s.invocation t = some i → i.communicatorEpoll.communicator = c
  /-- Only its network threads have registered queues. -/
  notifies : ∀ e iSeq q, s.notifies e iSeq = some q → e.communicator = c

/-- Where there is one communicator, no call finds its queue with a network thread of another. -/
theorem OneCommunicator.same {c : ℕ} (h : OneCommunicator c s) (a : CallAction) :
    SameCommunicator newKey s a := by
  cases a with
  | invoke t proxy msg =>
    intro p data q e iSeq hproxy _ _ hnotifies
    rw [h.notifies e iSeq q hnotifies, h.proxies p (List.mem_of_getElem? hproxy)]
  | _ => trivial

/-- A call of `invoke` fails in `getData`, or its thread is going to notify a network thread of the
communicator of the proxy. -/
theorem OneCommunicator.invoke {c : ℕ} (h : OneCommunicator c s) (hinv : s.Inv past) {proxy : ℕ}
    (hproxy : s.proxies[proxy]? = some p) (hinvoke : s.invoke newKey t p msg = some (s', es)) :
    OneCommunicator c s' := by
  unfold ClientThreads.invoke at hinvoke
  cases hget : s.threads.getData newKey t with
  | none =>
    rw [hget] at hinvoke
    obtain ⟨rfl, -⟩ := Prod.mk.inj (Option.some.inj hinvoke)
    exact ⟨h.proxies, h.invoking, h.notifies⟩
  | some r =>
    obtain ⟨threads, data⟩ := r
    rw [hget] at hinvoke
    obtain ⟨hown, hkept⟩ := Threads.getData_specific hget
    have hmem := List.mem_of_getElem? hproxy
    obtain ⟨data', more, info, i, msg', k, rfl, -, -, -, -, hepoll, -⟩ :=
      push_spec (s := { s with threads }) (hinv.mine_of_kept hkept t _ data hown)
        (hinv.proxies p hmem) hinvoke
    refine ⟨h.proxies, fun u j hj => ?_, h.notifies⟩
    dsimp only at hj
    by_cases hu : u = t
    · subst hu
      rw [Function.update_self] at hj
      rw [← Option.some.inj hj, hepoll]
      exact h.proxies p hmem
    · rw [Function.update_of_ne hu] at hj
      exact h.invoking u j hj

/-- A call of `notify` registers a queue with the network thread that the call is for. -/
theorem OneCommunicator.notify {c : ℕ} (h : OneCommunicator c s)
    (hnotify : s.notify t = some (s', es)) : OneCommunicator c s' := by
  unfold ClientThreads.notify at hnotify
  split at hnotify
  · cases hnotify
  · next i hinvocation =>
    split at hnotify
    · obtain ⟨rfl, -⟩ := Prod.mk.inj (Option.some.inj hnotify)
      exact ⟨h.proxies, h.invoking, h.notifies⟩
    · next s₁ es₁ hepoll =>
      obtain ⟨rfl, -⟩ := Prod.mk.inj (Option.some.inj hnotify)
      obtain ⟨notifies, rfl, hnotifies, -⟩ := notifyEpoll_spec hepoll
      obtain ⟨next, aborted, heq, hnext⟩ := notified_spec { s with notifies } t i
      rw [heq]
      refine ⟨h.proxies, fun u j hj => ?_, fun e iSeq q hq => ?_⟩
      · dsimp only at hj
        by_cases hu : u = t
        · subst hu
          rw [Function.update_self] at hj
          rw [(hnext j hj).1]
          exact h.invoking u i hinvocation
        · rw [Function.update_of_ne hu] at hj
          exact h.invoking u j hj
      · obtain hold | ⟨rfl, -⟩ := (hnotifies e iSeq q).mp hq
        · exact h.notifies e iSeq q hold
        · exact h.invoking t i hinvocation

/-- A round of `handle` changes the content of a queue only. -/
theorem OneCommunicator.handle {c iSeq : ℕ} (h : OneCommunicator c s)
    (hhandle : s.handle e iSeq = some (s', es)) : OneCommunicator c s' := by
  unfold ClientThreads.handle at hhandle
  split at hhandle
  · cases hhandle
  · split at hhandle
    · cases hhandle
    · split at hhandle
      · obtain ⟨rfl, -⟩ := Prod.mk.inj (Option.some.inj hhandle)
        exact h
      · split at hhandle
        · cases hhandle
        · obtain ⟨rfl, -⟩ := Prod.mk.inj (Option.some.inj hhandle)
          exact ⟨h.proxies, h.invoking, h.notifies⟩

/-- What runs on one communicator goes on with it, as long as the proxies come from it. -/
theorem OneCommunicator.next {c : ℕ} (h : OneCommunicator c s) (hinv : s.Inv past)
    (hproxy : ∀ c' ip port, a = .getServantProxy c' ip port → c' = c)
    (hstep : step newKey s a = some (s', es)) : OneCommunicator c s' := by
  have hthreads (threads : Threads) : OneCommunicator c { s with threads } :=
    ⟨h.proxies, h.invoking, h.notifies⟩
  unfold step at hstep
  split at hstep
  · cases hstep
  · cases a with
    | thread b =>
      cases b with
      | create | getData t =>
        obtain ⟨r, -, heq⟩ := Option.map_eq_some_iff.mp hstep
        obtain ⟨rfl, -⟩ := Prod.mk.inj heq
        exact hthreads _
      | exit t =>
        dsimp only at hstep
        split at hstep
        · obtain ⟨rfl, -⟩ := Prod.mk.inj (Option.some.inj hstep)
          exact hthreads _
        · cases hstep
    | getServantProxy c' ip port =>
      obtain ⟨rfl, -⟩ := Prod.mk.inj (Option.some.inj hstep)
      obtain ⟨threads, communicators, runner, more, p, heq, -, -, hmade⟩ :=
        getServantProxy_spec s c' ip port
      rw [heq]
      refine ⟨fun p' hp => ?_, h.invoking, h.notifies⟩
      obtain hold | hnew := List.mem_append.mp hp
      · exact h.proxies p' hold
      · rw [List.mem_singleton.mp hnew, hmade]
        exact hproxy c' ip port rfl
    | run e =>
      dsimp only at hstep
      split at hstep
      · cases hstep
      · split at hstep
        · obtain ⟨rfl, -⟩ := Prod.mk.inj (Option.some.inj hstep)
          unfold ClientThreads.run
          split <;> exact ⟨h.proxies, h.invoking, h.notifies⟩
        · cases hstep
    | invoke t proxy msg =>
      dsimp only at hstep
      split at hstep
      · cases hstep
      · next p hp =>
        split at hstep
        · exact h.invoke hinv hp hstep
        · cases hstep
    | notify t => exact h.notify hstep
    | handle e iSeq =>
      dsimp only at hstep
      split at hstep
      · cases hstep
      · split at hstep
        · exact h.handle hstep
        · cases hstep

end ClientThreads

end Tars
