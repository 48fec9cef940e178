import Tars.Client.DispatchSafety

/-!
# Callers that pass callbacks

Only a caller that passes `NULL` makes dispatching unsafe. As long as every asynchronous call passes
a callback and no heartbeat is sent, the messages in the request queues and in the timeout queues
all have theirs, so whatever the servers answer, every message is dispatched to a callback.
-/

namespace Tars

open Scripts Ledger

namespace AsyncClient

variable {Thr Cb : Type*} [DecidableEq Thr]

/-- An asynchronous message has a callback, so that its response can be dispatched. -/
def Given (s : AsyncClient Thr Cb) (msg : ReqMessage) : Prop :=
  msg.eType = .ASYNC_CALL → s.callback msg.addr ≠ none

/-- All messages on their way to a server or back have their callbacks. -/
structure Provided (s : AsyncClient Thr Cb) : Prop where
  /-- Those in the request queues. -/
  request : ∀ t w, ∀ msg ∈ (s.reqQueue t w).contents, s.Given msg
  /-- Those in the timeout queues. -/
  stored : ∀ w prx, (s.objectProxy w prx).Stores s.Given

/-- The caller does not pass `NULL` as the callback. -/
def PassesCallback : AsyncAction Thr Cb → Prop
  | .tarsInvokeAsync _ _ _ _ callback _ => callback ≠ none
  | .sendHeartbeat _ _ => False
  | _ => True

section Steps

variable {s s' : AsyncClient Thr Cb} {past out : List (DispatchCall Cb)} {msg : ReqMessage}
  {t : Thr} {w : ℕ} {prx : ℕ} {o : ObjectProxy} {events : List Event}

omit [DecidableEq Thr] in
/-- Messages with callbacks may be finished, and no other step can be careless. -/
theorem Provided.careful (h : s.Provided) (hinv : s.Inv past) (action : AsyncAction Thr Cb) :
    s.Careful action := by
  cases action with
  | pop w t outcome answer =>
    intro msg queue hpop _ _ hkind hnone
    have hcontents := ((hinv.request_wf t w).popFront hpop).2
    have hmem : msg ∈ (s.reqQueue t w).contents := hcontents ▸ List.mem_cons_self
    exact absurd hnone (h.request t w msg hmem hkind)
  | finishInvoke w =>
    intro rsp _ msg houtstanding hkind hnone
    obtain ⟨info, hlookup, rfl⟩ := Option.map_eq_some_iff.mp houtstanding
    exact absurd hnone (h.stored w (s.done w).1 _ info hlookup hkind)
  | _ => trivial

omit [DecidableEq Thr] in
/-- Only the queues, the proxies and the callbacks matter. -/
theorem Provided.congr (h : s.Provided) (hreq : s'.reqQueue = s.reqQueue)
    (hproxy : s'.objectProxy = s.objectProxy) (hcallback : s'.callback = s.callback) :
    s'.Provided := by
  have hgiven : s'.Given = s.Given := by
    funext msg
    rw [Given, Given, hcallback]
  constructor
  · rw [hreq, hgiven]
    exact h.request
  · rw [hproxy, hgiven]
    exact h.stored

/-- Replacing a request queue by one whose messages have their callbacks. -/
theorem Provided.setReqQueue (h : s.Provided) {queue : LoopQueue ReqMessage}
    (hqueue : ∀ m ∈ queue.contents, s.Given m) : (s.setReqQueue t w queue).Provided :=
  ⟨update_update_of_forall (P := fun q : LoopQueue ReqMessage => ∀ m ∈ q.contents, s.Given m)
    h.request hqueue, h.stored⟩

omit [DecidableEq Thr] in
/-- Replacing an object proxy by one whose messages have their callbacks. -/
theorem Provided.setObjectProxy (h : s.Provided) (hstores : o.Stores s.Given) :
    (s.setObjectProxy w prx o).Provided :=
  ⟨h.request, update_update_of_forall (P := fun o : ObjectProxy => o.Stores s.Given) h.stored
    hstores⟩

/-- `invoke` pushes the message into one request queue, where it still has its callback, and touches
nothing else. -/
theorem Provided.invoke (h : s.Provided) (hwf : ∀ t w, (s.reqQueue t w).WF) (t : Thr)
    (hmsg : s.Given msg) : (s.invoke t msg).Provided := by
  obtain ⟨-, ⟨hok, -, -⟩ | ⟨hok, -, hcontents⟩⟩ := (hwf t (s.netSeq t)).pushBack msg
  · simp only [AsyncClient.invoke, hok, Bool.false_eq_true, if_false]
    split
    · exact h.congr rfl rfl rfl
    · exact h.congr rfl rfl rfl
  · have hqueue : ∀ m ∈ ((s.reqQueue t (s.netSeq t)).pushBack msg).queue.contents, s.Given m := by
      rw [hcontents, List.forall_mem_append, List.forall_mem_singleton]
      exact ⟨h.request t (s.netSeq t), hmsg⟩
    have hpushed : (s.setReqQueue t (s.netSeq t)
        ((s.reqQueue t (s.netSeq t)).pushBack msg).queue).Provided :=
      h.setReqQueue hqueue
    simp only [AsyncClient.invoke, hok, if_true]
    split
    · exact hpushed.congr rfl rfl rfl
    · exact hpushed.congr rfl rfl rfl

/-- **A call** that passes a callback keeps all messages provided with callbacks. -/
theorem Provided.call (h : s.Provided) (hinv : s.Inv past) (t : Thr) {callback : Option Cb}
    (haddr : msg.addr = s.allocated) (hcallback : msg.eType = .ASYNC_CALL → callback ≠ none) :
    ((s.allocate callback).invoke t msg).Provided := by
  have hold {m : ReqMessage} (hlt : m.addr < s.allocated) (hm : s.Given m) :
      (s.allocate callback).Given m := by
    have hsame : (s.allocate callback).callback m.addr = s.callback m.addr :=
      Function.update_of_ne hlt.ne _ _
    rw [Given, hsame]
    exact hm
  have hnew : (s.allocate callback).Given msg := by
    have hown : (s.allocate callback).callback msg.addr = callback := by
      rw [haddr]
      exact Function.update_self _ _ _
    rw [Given, hown]
    exact hcallback
  have hall : (s.allocate callback).Provided := by
    constructor
    · intro u v m hm
      exact hold (hinv.held.mem_issued (.request u v) m.addr (List.mem_map_of_mem hm))
        (h.request u v m hm)
    · intro v prx id info hinfo
      refine hold (hinv.held.mem_issued (.timeout v prx) info.ptr.addr ?_)
        (h.stored v prx id info hinfo)
      exact List.mem_map.mpr ⟨⟨id, info⟩, AList.mem_lookup_iff.mp hinfo, rfl⟩
  exact hall.invoke hinv.request_wf t hnew

omit [DecidableEq Thr] in
/-- Finishing messages touches neither the request queues nor the proxies. -/
theorem Provided.finish (h : s.Provided) (w : ℕ) (msgs : List ReqMessage) :
    (msgs.foldl (finishMsg w) s).Provided := by
  induction msgs generalizing s with
  | nil => exact h
  | cons msg msgs ih =>
    refine ih ?_
    unfold finishMsg
    split
    · exact h.congr rfl rfl rfl
    · split
      · simp only [pushAsyncThreadQueue]
        split
        · exact h.congr rfl rfl rfl
        · exact h.congr rfl rfl rfl
      · exact h

omit [DecidableEq Thr] in
/-- **A network thread** whose proxy stores messages with callbacks. -/
theorem Provided.proceed (h : s.Provided) (hstores : o.Stores s.Given) (w : ℕ) (prx : ℕ)
    (events : List Event) : (s.proceed w prx o events).Provided := by
  apply Provided.finish
  exact h.setObjectProxy hstores

/-- **`pop`** moves a message from a request queue to a timeout queue. -/
theorem Provided.pop (h : s.Provided) (hinv : s.Inv past) {outcome : ConnectOutcome}
    {answer : SendResult} (hrun : s.pop w t outcome answer = some s') : s'.Provided := by
  unfold AsyncClient.pop at hrun
  split at hrun
  · cases hrun
  · next msg queue hpop =>
    split at hrun
    · cases hrun
    · next o events returned hinvoke =>
      obtain rfl := Option.some.inj hrun
      have hcontents := ((hinv.request_wf t w).popFront hpop).2
      have hmem : ∀ m, m = msg ∨ m ∈ queue.contents → m ∈ (s.reqQueue t w).contents := by
        intro m hm
        rw [hcontents]
        exact List.mem_cons.mpr hm
      have hqueue : ∀ m ∈ queue.contents, s.Given m := fun m hm =>
        h.request t w m (hmem m (.inr hm))
      have hpopped : (s.setReqQueue t w queue).Provided := h.setReqQueue hqueue
      have hmsg : s.Given msg := h.request t w msg (hmem msg (.inl rfl))
      have hserialised : s.Given (ObjectProxy.serialise msg
        (s.objectProxy w msg.pObjectProxy).generateId) := hmsg
      have hstores : o.Stores s.Given :=
        (h.stored w msg.pObjectProxy).invoke hserialised hinvoke
      exact hpopped.proceed hstores w msg.pObjectProxy events

/-- **A step** of a process whose callers pass callbacks. -/
theorem Provided.step (h : s.Provided) (hinv : s.Inv past) {action : AsyncAction Thr Cb}
    (hpasses : PassesCallback action) (hstep : s.step action = some (s', out)) : s'.Provided := by
  unfold AsyncClient.step at hstep
  split at hstep
  · cases hstep
  · cases action with
    | setNodeInfo prx app server pid =>
      obtain ⟨rfl, -⟩ := Prod.mk.inj (Option.some.inj hstep)
      exact h.congr rfl rfl rfl
    | tarsInvoke t prx sFuncName request iBeginTime =>
      dsimp only at hstep
      split at hstep
      · obtain ⟨rfl, -⟩ := Prod.mk.inj (Option.some.inj hstep)
        exact h.call hinv t rfl fun hkind =>
          absurd hkind (show CallType.SYNC_CALL ≠ _ by decide)
      · cases hstep
    | tarsInvokeAsync t prx sFuncName request callback iBeginTime =>
      dsimp only at hstep
      split at hstep
      · obtain ⟨rfl, -⟩ := Prod.mk.inj (Option.some.inj hstep)
        exact h.call hinv t rfl fun _ => hpasses
      · cases hstep
    | keepAlive t adapter =>
      dsimp only at hstep
      split at hstep
      · obtain ⟨rfl, -⟩ := Prod.mk.inj (Option.some.inj hstep)
        exact h.congr rfl rfl rfl
      · cases hstep
    | sendHeartbeat t iBeginTime => exact hpasses.elim
    | finishCall t =>
      obtain ⟨hnext, -⟩ := of_step_map hstep
      unfold AsyncClient.finishCall at hnext
      split at hnext
      · cases hnext
      · split at hnext
        · cases hnext
        · obtain rfl := Option.some.inj hnext
          exact h.congr rfl rfl rfl
    | pop w t outcome answer =>
      dsimp only at hstep
      split at hstep
      · exact h.pop hinv (of_step_map hstep).1
      · cases hstep
    | output w prx answer answers =>
      dsimp only at hstep
      split at hstep
      · obtain ⟨hnext, -⟩ := of_step_map hstep
        unfold AsyncClient.output at hnext
        split at hnext
        · next o events hrequest =>
          obtain rfl := Option.some.inj hnext
          exact h.proceed ((h.stored w prx).doRequest hrequest) w prx events
        · cases hnext
      · cases hstep
    | input w prx answers =>
      dsimp only at hstep
      split at hstep
      · obtain ⟨hnext, -⟩ := of_step_map hstep
        unfold AsyncClient.input at hnext
        split at hnext
        · cases hnext
        · next received done iRet hread =>
          obtain rfl := Option.some.inj hnext
          have hproxy : (s.setObjectProxy w prx
              { s.objectProxy w prx with trans := received }).Provided :=
            h.setObjectProxy ((h.stored w prx).congr rfl)
          exact hproxy.congr rfl rfl rfl
      · cases hstep
    | finishInvoke w =>
      obtain ⟨hnext, -⟩ := of_step_map hstep
      unfold AsyncClient.finishInvoke at hnext
      split at hnext
      · cases hnext
      · next prx rsp rest hdone =>
        obtain rfl := Option.some.inj hnext
        have hrest : Provided { s with done := Function.update s.done w (prx, rest) } :=
          h.congr rfl rfl rfl
        exact hrest.proceed ((h.stored w prx).finishInvoke rsp) w prx _
    | run w k =>
      dsimp only at hstep
      unfold AsyncClient.run at hstep
      split at hstep
      · cases hstep
      · obtain ⟨rfl, -⟩ := Prod.mk.inj (Option.some.inj hstep)
        exact h.congr rfl rfl rfl

omit [DecidableEq Thr] in
/-- At the start every message is provided for, because there are none. -/
theorem provided_new : (new : AsyncClient Thr Cb).Provided := by
  have hrequest := LoopQueue.wf_new (T := ReqMessage) (show 1 ≤ 1000 by decide) (by decide)
  constructor
  · intro t w msg hmsg
    rw [new, hrequest.2] at hmsg
    cases hmsg
  · intro w prx
    exact ObjectProxy.stores_new _

end Steps

/-- **Callers that pass callbacks** are safe, whatever the servers send back. -/
theorem dispatchSafe_of_callbacks {script : List (AsyncAction Thr Cb)} {s : AsyncClient Thr Cb}
    {es : List (DispatchCall Cb)} (hpasses : ∀ action ∈ script, PassesCallback action)
    (hexec : exec step new script = some (s, es)) : s.DispatchSafe es := by
  have hall : s.Inv es ∧ s.Provided ∧ s.Clean es :=
    exec_invariant_outputs (C := fun _ action => PassesCallback action)
      (I := fun (s : AsyncClient Thr Cb) past => s.Inv past ∧ s.Provided ∧ s.Clean past) []
      (fun s action s' out past h hC hstep => by
        obtain ⟨hinv, hprovided, hclean⟩ := h
        obtain ⟨hinv', hiff⟩ := hinv.step hstep
        exact ⟨hinv', hprovided.step hinv hC hstep,
          hiff.mpr ⟨hclean, hprovided.careful hinv action⟩⟩)
      ⟨inv_new, provided_new, clean_new⟩ (along_of_mem hpasses) hexec
  exact ⟨hall.2.2, hall.1.held.nodup .dispatched⟩

end AsyncClient

end Tars
