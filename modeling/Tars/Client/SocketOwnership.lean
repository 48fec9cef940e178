import Tars.Client.ProxyRuns

/-!
# Who owns the open sockets

`connect` assigns a new socket without closing the old one, and a failing `getAddress`
leaves its socket open. So a transceiver keeps at most one open socket, and handles the
events of that socket on that socket, exactly as long as neither happens.
-/

namespace Tars

namespace Transceiver

/-- What a transceiver and the kernel know about its sockets. -/
structure Sockets where
  /-- `_fd`. -/
  fd : Option ℕ
  /-- The number of sockets that were created. -/
  created : ℕ
  /-- The open sockets. -/
  opened : List ℕ
  /-- The sockets in the epoll set. -/
  registered : List ℕ

namespace Sockets

/-- The effect of `close`: the current socket is closed and no longer registered. -/
def close (k : Sockets) : Sockets :=
  match k.fd with
  | none => k
  | some fd =>
    { k with
      fd := none
      opened := k.opened.filter (· ≠ fd)
      registered := k.registered.filter (· ≠ fd) }

/-- The effect of `connect`: a new socket is created and may be left open, depending on where it
ends. -/
def connect (k : Sockets) : ConnectOutcome → Sockets
  | .socketFails => k
  | .optionFails | .blockFails | .connectFails =>
    { k with
      created := k.created + 1
      opened := (k.created :: k.opened).filter (· ≠ k.created) }
  | .addressFails => { k with created := k.created + 1, opened := k.created :: k.opened }
  | .connected | .inProgress =>
    { fd := some k.created
      created := k.created + 1
      opened := k.created :: k.opened
      registered := k.created :: k.registered }

/-- The bookkeeping that every operation keeps, whether or not a socket is lost. -/
structure Tracked (k : Sockets) : Prop where
  /-- The current socket is open. -/
  fd_open : ∀ socket, k.fd = some socket → socket ∈ k.opened
  /-- Open sockets were created, so a new one has a number of its own. -/
  opened_lt : ∀ socket ∈ k.opened, socket < k.created
  /-- Registered sockets are open, since closing takes them out of the epoll set. -/
  registered_open : ∀ socket ∈ k.registered, socket ∈ k.opened

/-- Every open socket is the current one, so there is at most one, and `close` will find it. -/
def Owned (k : Sockets) : Prop := ∀ socket ∈ k.opened, k.fd = some socket

section Effects

variable {k : Sockets}

/-- Closing keeps the bookkeeping: the socket goes from both lists. -/
theorem Tracked.close (h : k.Tracked) : k.close.Tracked := by
  unfold Sockets.close
  cases k.fd with
  | none => exact h
  | some fd =>
    refine ⟨by simp, fun socket hs => h.opened_lt socket (List.mem_filter.mp hs).1,
      fun socket hs => ?_⟩
    obtain ⟨hmem, hne⟩ := List.mem_filter.mp hs
    exact List.mem_filter.mpr ⟨h.registered_open socket hmem, hne⟩

/-- A socket that is created and closed again leaves the open ones as they were. -/
theorem Tracked.filter_created (h : k.Tracked) :
    (k.created :: k.opened).filter (· ≠ k.created) = k.opened := by
  rw [List.filter_cons_of_neg (by simp), List.filter_eq_self]
  intro socket hs
  simpa using Nat.ne_of_lt (h.opened_lt socket hs)

/-- Connecting keeps the bookkeeping: the new socket has a number that was not used before. -/
theorem Tracked.connect (h : k.Tracked) (outcome : ConnectOutcome) :
    (k.connect outcome).Tracked := by
  have hlater (socket : ℕ) (hs : socket ∈ k.opened) : socket < k.created + 1 :=
    Nat.lt_succ_of_lt (h.opened_lt socket hs)
  cases outcome with
  | socketFails => exact h
  | optionFails | blockFails | connectFails =>
    simp only [Sockets.connect, h.filter_created]
    exact ⟨h.fd_open, hlater, h.registered_open⟩
  | addressFails =>
    refine ⟨fun socket hs => List.mem_cons_of_mem _ (h.fd_open socket hs), fun socket hs => ?_,
      fun socket hs => List.mem_cons_of_mem _ (h.registered_open socket hs)⟩
    obtain rfl | hs := List.mem_cons.mp hs
    · exact Nat.lt_succ_self _
    · exact hlater socket hs
  | connected | inProgress =>
    refine ⟨fun socket hs => ?_, fun socket hs => ?_, fun socket hs => ?_⟩
    · rw [← Option.some.inj hs]
      exact List.mem_cons_self
    · obtain rfl | hs := List.mem_cons.mp hs
      · exact Nat.lt_succ_self _
      · exact hlater socket hs
    · obtain rfl | hs := List.mem_cons.mp hs
      · exact List.mem_cons_self
      · exact List.mem_cons_of_mem _ (h.registered_open socket hs)

/-- `connect` keeps the current socket unless it assigns a new one. -/
theorem connect_fd (outcome : ConnectOutcome) :
    (k.connect outcome).fd = if outcome.assigns then some k.created else k.fd := by
  cases outcome <;> rfl

/-- Closing the only open socket leaves none, so an owned socket cannot be left behind by `close`.
-/
theorem Owned.close_opened (h : k.Owned) : k.close.opened = [] := by
  unfold Sockets.close
  cases hfd : k.fd with
  | none =>
    refine List.eq_nil_iff_forall_not_mem.mpr fun socket hs => ?_
    rw [h socket hs] at hfd
    cases hfd
  | some fd =>
    refine List.filter_eq_nil_iff.mpr fun socket hs => ?_
    simpa using (Option.some.inj (hfd.symm.trans (h socket hs))).symm

/-- Without a current socket none is open, if sockets are owned: then `connect` may assign a new
one. -/
theorem Owned.opened_eq_nil (h : k.Owned) (hfd : k.fd = none) : k.opened = [] :=
  List.eq_nil_iff_forall_not_mem.mpr fun socket hs => by simpa [hfd] using h socket hs

/-- As long as the current socket is the only open one, `connect` keeps it so exactly when
`getAddress` does not fail and there is no current socket that the new one would replace. -/
theorem Owned.connect_iff (hk : k.Tracked) (h : k.Owned) (outcome : ConnectOutcome) :
    (k.connect outcome).Owned ↔
      outcome ≠ .addressFails ∧ (outcome.assigns = true → k.fd = none) := by
  have hnew : k.created ∉ k.opened := fun hmem => Nat.lt_irrefl _ (hk.opened_lt _ hmem)
  have hreplace : Owned { k with
      fd := some k.created, created := k.created + 1, opened := k.created :: k.opened,
      registered := k.created :: k.registered } ↔ k.fd = none := by
    constructor
    · intro howned
      by_contra hfd
      obtain ⟨fd, hfd⟩ := Option.ne_none_iff_exists'.mp hfd
      have hold := howned fd (List.mem_cons_of_mem _ (hk.fd_open fd hfd))
      exact hnew (Option.some.inj hold ▸ hk.fd_open fd hfd)
    · intro hfd socket hs
      obtain rfl | hs := List.mem_cons.mp hs
      · rfl
      · simp [h.opened_eq_nil hfd] at hs
  cases outcome with
  | socketFails => simpa [Sockets.connect, ConnectOutcome.assigns] using h
  | optionFails | blockFails | connectFails =>
    simp only [Sockets.connect, hk.filter_created]
    exact iff_of_true h (by simp [ConnectOutcome.assigns])
  | addressFails =>
    refine ⟨fun howned => ?_, fun hguard => absurd rfl hguard.1⟩
    have hleak : k.fd = some k.created := howned k.created List.mem_cons_self
    exact absurd (hk.fd_open _ hleak) hnew
  | connected | inProgress => simpa [Sockets.connect, ConnectOutcome.assigns] using hreplace

end Effects

end Sockets

/-- The sockets of a transceiver, without its buffers and what was sent. -/
def sockets (t : Transceiver) : Sockets :=
  ⟨t.fd, t.kernel.created, t.kernel.opened, t.kernel.registered⟩

section Effects

variable {t t' : Transceiver} {pData : Bytes} {answer : SendResult}

/-- `close` closes the current socket, as the bookkeeping says. -/
theorem close_sockets : t.close.sockets = t.sockets.close := by
  unfold close Sockets.close
  cases hfd : t.fd with
  | none => simp [sockets, hfd]
  | some fd => simp [sockets, hfd, Kernel.close, Kernel.delFd]

/-- `connect` creates a socket, as the bookkeeping says, wherever it ends. -/
theorem connect_sockets (outcome : ConnectOutcome) :
    (t.connect outcome).1.sockets = t.sockets.connect outcome := by
  cases outcome <;> rfl

/-- `send` does not change the sockets, even if it fails. -/
theorem send_sockets : (t.send pData answer).1.sockets = t.sockets := by
  unfold send
  split <;> rfl

/-- `sendRequest` does not change the sockets, whatever the kernel takes. -/
theorem sendRequest_sockets {iRet : ℤ} (h : t.sendRequest pData answer = some (t', iRet)) :
    t'.sockets = t.sockets := by
  unfold sendRequest at h
  split at h
  · obtain ⟨rfl, -⟩ := Prod.mk.inj (Option.some.inj h)
    rfl
  · simp only at h
    split at h
    · obtain ⟨rfl, -⟩ := Prod.mk.inj (Option.some.inj h)
      exact send_sockets
    · split at h
      · split at h
        · cases h
        · obtain ⟨rfl, -⟩ := Prod.mk.inj (Option.some.inj h)
          exact send_sockets
      · obtain ⟨rfl, -⟩ := Prod.mk.inj (Option.some.inj h)
        exact send_sockets

/-- The flush of `doRequest` does not change the sockets. -/
theorem flush_sockets {ret : Option ℤ} (h : t.flush answer = some (t', ret)) :
    t'.sockets = t.sockets := by
  unfold flush at h
  split at h
  · obtain ⟨rfl, -⟩ := Prod.mk.inj (Option.some.inj h)
    rfl
  · simp only at h
    split at h
    · obtain ⟨rfl, -⟩ := Prod.mk.inj (Option.some.inj h)
      exact send_sockets
    · split at h
      · split at h
        · cases h
        · split at h
          · obtain ⟨b, -, heq⟩ := Option.map_eq_some_iff.mp h
            obtain ⟨rfl, -⟩ := Prod.mk.inj heq
            exact send_sockets
          · obtain ⟨rfl, -⟩ := Prod.mk.inj (Option.some.inj h)
            exact send_sockets
      · obtain ⟨rfl, -⟩ := Prod.mk.inj (Option.some.inj h)
        exact send_sockets

/-- `doResponse` leaves the sockets alone, or it closes the current one. -/
theorem doResponse_sockets {answers : List ReadResult} {done : List Bytes} {ret : ℤ}
    (h : t.doResponse answers = some (t', done, ret)) :
    t'.sockets = t.sockets ∨ t'.sockets = t.sockets.close := by
  obtain ⟨b, rfl⟩ | ⟨b, b', rfl⟩ := doResponse_cases h
  · exact .inl rfl
  · exact .inr (close_sockets (t := { t with recvBuffer := b }))

end Effects

end Transceiver

namespace ObjectProxy

variable {o o' : ObjectProxy} {events : List Event}

/-- `invoke` changes the sockets through its `connect` only; what it sends, stores or finishes is no
matter. -/
theorem invoke_sockets {msg : ReqMessage} {outcome : ConnectOutcome} {answer : SendResult}
    {returned : Bool} (h : o.invoke msg outcome answer = some (o', events, returned)) :
    o'.trans.sockets = o.trans.sockets.connect outcome := by
  rw [← Transceiver.connect_sockets]
  obtain ⟨-, -, -, rfl⟩ | ⟨-, -, trans, hasSend, handed, hhanded, heq⟩ := invoke_cases h
  · rfl
  · obtain ⟨rfl, -⟩ := Prod.mk.inj heq
    rw [(pushMessage_frame hasSend).1]
    obtain ⟨-, rfl, -⟩ | ⟨-, iRet, hsend, -⟩ := hhanded
    · rfl
    · exact Transceiver.sendRequest_sockets hsend

/-- `doRequest` leaves the sockets alone: it only sends, and an error of `send` closes nothing. -/
theorem doRequest_sockets {answer : SendResult} {answers : List SendResult} {ended : Bool}
    (h : o.doRequest answer answers = some (o', events, ended)) :
    o'.trans.sockets = o.trans.sockets := by
  obtain ⟨trans, ret, hflush, ⟨-, rfl, -⟩ | ⟨-, hloop⟩⟩ := doRequest_cases h
  · exact Transceiver.flush_sockets hflush
  · refine doInvoke_rule (I := fun t _ => t.sockets = o.trans.sockets) []
      (fun msg t t' answer iRet past _ _ hsame hsend => ?_) (Transceiver.flush_sockets hflush)
      hloop
    exact (Transceiver.sendRequest_sockets hsend).trans hsame

/-- `handleInputImp` leaves the sockets alone, or it closes the current one. -/
theorem handleInputImp_sockets {answers : List ReadResult}
    (h : o.handleInputImp answers = some (o', events)) :
    o'.trans.sockets = o.trans.sockets ∨ o'.trans.sockets = o.trans.sockets.close := by
  obtain ⟨trans, done, ret, hread, ⟨-, hall⟩ | ⟨-, rfl, -⟩⟩ := handleInputImp_cases h
  · obtain ⟨rfl, -⟩ := Prod.mk.inj hall
    rw [(finishAll_frame done).1]
    exact Transceiver.doResponse_sockets hread
  · exact Transceiver.doResponse_sockets hread

/-- The handling of `EPOLLIN`, if it is set: the proxy reads and finishes what was answered. -/
def handleReadable (o : ObjectProxy) : Option (List ReadResult) → Option ObjectProxy
  | none => some o
  | some answers => (o.handleInputImp answers).map Prod.fst

/-- The handling of `EPOLLOUT`, if it is set: the proxy sends what it has kept. -/
def handleWritable (o : ObjectProxy) : Option (SendResult × List SendResult) → Option ObjectProxy
  | none => some o
  | some (answer, answers) => (o.doRequest answer answers).map Prod.fst

/-- The handling of one epoll event: first the input, then the output. -/
def handleEvent (o : ObjectProxy) (input : Option (List ReadResult))
    (output : Option (SendResult × List SendResult)) : Option ObjectProxy :=
  (o.handleReadable input).bind fun o => o.handleWritable output

/-- Handling an event leaves the sockets alone, or it closes the current one. -/
theorem handleEvent_sockets {input : Option (List ReadResult)}
    {output : Option (SendResult × List SendResult)} (h : o.handleEvent input output = some o') :
    o'.trans.sockets = o.trans.sockets ∨ o'.trans.sockets = o.trans.sockets.close := by
  obtain ⟨u, hinput, houtput⟩ := Option.bind_eq_some_iff.mp h
  have hout : o'.trans.sockets = u.trans.sockets := by
    cases output with
    | none =>
      obtain rfl := Option.some.inj houtput
      rfl
    | some answers =>
      obtain ⟨⟨u', events, ended⟩, hrun, rfl⟩ := Option.map_eq_some_iff.mp houtput
      exact doRequest_sockets hrun
  rw [hout]
  cases input with
  | none =>
    obtain rfl := Option.some.inj hinput
    exact .inl rfl
  | some answers =>
    obtain ⟨⟨u', events⟩, hrun, rfl⟩ := Option.map_eq_some_iff.mp hinput
    exact handleInputImp_sockets hrun

end ObjectProxy

/-- The network thread with one proxy. `ready` are the sockets whose events the last
`epoll_wait` returned and that were not handled yet. -/
structure NetThread where
  /-- The proxy. -/
  proxy : ObjectProxy
  /-- The sockets of the pending events. -/
  ready : List ℕ

/-- What the network thread does next: it invokes a message, waits for events, handles one, or
closes. -/
inductive NetAction where
  /-- A notification: `invoke` of a message. -/
  | invoke (msg : ReqMessage) (outcome : ConnectOutcome) (answer : SendResult)
  /-- `epoll_wait` returns events of these sockets. -/
  | wait (ready : List ℕ)
  /-- The next pending event is handled. -/
  | event (input : Option (List ReadResult)) (output : Option (SendResult × List SendResult))
  /-- The destructor closes the transceiver. -/
  | close

namespace NetThread

open Scripts

/-- A new proxy without pending events, which has no socket. -/
def new : NetThread := ⟨.new, []⟩

/-- One step. All sockets of a transceiver have the same `FDInfo`, so an event is handled
by the proxy whatever its socket is. `epoll_wait` is called when all events were handled
and returns events of registered sockets, at most one for each. The destructor does not
run while events are pending. -/
def step (s : NetThread) : NetAction → Option (NetThread × List Unit)
  | .invoke msg outcome answer =>
    (s.proxy.invoke msg outcome answer).map fun r => ({ s with proxy := r.1 }, [])
  | .wait ready =>
    if s.ready = [] ∧ ready.Nodup ∧ ∀ socket ∈ ready, socket ∈ s.proxy.trans.kernel.registered
    then some ({ s with ready }, []) else none
  | .event input output =>
    match s.ready with
    | [] => none
    | _ :: ready => (s.proxy.handleEvent input output).map fun proxy => (⟨proxy, ready⟩, [])
  | .close =>
    if s.ready = [] then
      some ({ s with proxy := { s.proxy with trans := s.proxy.trans.close } }, [])
    else none

/-- The sockets of the proxy that the network thread works for. -/
def sockets (s : NetThread) : Transceiver.Sockets := s.proxy.trans.sockets

/-- Every open socket is the current one, and so is that of every pending event: the
handler of the event reads from the socket on which it occurred. -/
structure Owned (s : NetThread) : Prop where
  /-- Every open socket is `_fd`. -/
  opened_eq : s.sockets.Owned
  /-- Every pending event occurred on `_fd`. -/
  ready_eq : ∀ socket ∈ s.ready, s.sockets.fd = some socket

/-- A `connect` that assigns a socket finds no other one, and `getAddress` never fails. -/
def Guarded (s : NetThread) : NetAction → Prop
  | .invoke _ outcome _ =>
    outcome ≠ .addressFails ∧ (outcome.assigns = true → s.sockets.fd = none)
  | _ => True

instance (s : NetThread) : (a : NetAction) → Decidable (Guarded s a)
  | .invoke _ _ _ => inferInstanceAs (Decidable (_ ∧ _))
  | .wait _ | .event _ _ | .close => isTrue trivial

/-- What holds whether or not sockets are owned: the bookkeeping, which no step can break. -/
structure Tracked (s : NetThread) : Prop where
  /-- The bookkeeping of the sockets. -/
  sockets_tracked : s.sockets.Tracked
  /-- Pending events have different sockets. -/
  ready_nodup : s.ready.Nodup

section Steps

variable {s s' : NetThread} {es : List Unit}

/-- What a step does to the sockets and to the pending events. -/
theorem step_cases {a : NetAction} (h : s.step a = some (s', es)) :
    (∃ msg outcome answer, a = .invoke msg outcome answer ∧ s'.ready = s.ready ∧
        s'.sockets = s.sockets.connect outcome) ∨
      (∃ ready, a = .wait ready ∧ s.ready = [] ∧ s'.ready = ready ∧ ready.Nodup ∧
        s'.sockets = s.sockets ∧ ∀ socket ∈ ready, socket ∈ s.sockets.registered) ∨
      (∃ socket, s.ready = socket :: s'.ready ∧ s.Guarded a ∧
        (s'.sockets = s.sockets ∨ s'.sockets = s.sockets.close)) ∨
      a = .close ∧ s.ready = [] ∧ s'.ready = [] ∧ s'.sockets = s.sockets.close := by
  cases a with
  | invoke msg outcome answer =>
    obtain ⟨⟨o, events, returned⟩, hinvoke, heq⟩ := Option.map_eq_some_iff.mp h
    obtain ⟨rfl, -⟩ := Prod.mk.inj heq
    exact .inl ⟨msg, outcome, answer, rfl, rfl, ObjectProxy.invoke_sockets hinvoke⟩
  | wait ready =>
    simp only [step] at h
    split at h
    · rename_i hready
      obtain ⟨rfl, -⟩ := Prod.mk.inj (Option.some.inj h)
      exact .inr (.inl ⟨ready, rfl, hready.1, rfl, hready.2.1, rfl, hready.2.2⟩)
    · cases h
  | event input output =>
    simp only [step] at h
    split at h
    · cases h
    · rename_i socket ready hready
      obtain ⟨o, hevent, heq⟩ := Option.map_eq_some_iff.mp h
      obtain ⟨rfl, -⟩ := Prod.mk.inj heq
      exact .inr (.inr (.inl ⟨socket, hready, trivial, ObjectProxy.handleEvent_sockets hevent⟩))
  | close =>
    simp only [step] at h
    split at h
    · rename_i hready
      obtain ⟨rfl, -⟩ := Prod.mk.inj (Option.some.inj h)
      exact .inr (.inr (.inr ⟨rfl, hready, hready, Transceiver.close_sockets⟩))
    · cases h

/-- Every step keeps the bookkeeping, since every operation in it does. -/
theorem Tracked.step {a : NetAction} (h : s.Tracked) (hstep : s.step a = some (s', es)) :
    s'.Tracked := by
  have hk := h.sockets_tracked
  have hnodup := h.ready_nodup
  obtain ⟨msg, outcome, answer, -, hready, hsockets⟩ | ⟨ready, -, -, hready, hnew, hsockets, -⟩ |
    ⟨socket, hready, -, hsockets⟩ | ⟨-, -, hready, hsockets⟩ := step_cases hstep
  · exact ⟨hsockets ▸ hk.connect outcome, hready ▸ hnodup⟩
  · exact ⟨hsockets ▸ hk, hready ▸ hnew⟩
  · rw [hready] at hnodup
    refine ⟨?_, (List.nodup_cons.mp hnodup).2⟩
    obtain heq | heq := hsockets
    · exact heq ▸ hk
    · exact heq ▸ hk.close
  · exact ⟨hsockets ▸ hk.close, hready ▸ List.nodup_nil⟩

/-- As long as the sockets are owned, a step keeps them owned exactly when it is guarded. -/
theorem owned_iff_guarded {a : NetAction} (h : s.Tracked) (howned : s.Owned)
    (hstep : s.step a = some (s', es)) : s'.Owned ↔ s.Guarded a := by
  have hk := h.sockets_tracked
  obtain ⟨msg, outcome, answer, rfl, hready, hsockets⟩ |
    ⟨ready, rfl, -, hready, hnew, hsockets, hregistered⟩ |
    ⟨socket, hready, hguard, hsockets⟩ | ⟨rfl, -, hready, hsockets⟩ := step_cases hstep
  · have hiff := howned.opened_eq.connect_iff hk outcome
    rw [← hsockets] at hiff
    refine ⟨fun hnext => hiff.mp hnext.opened_eq, fun hguard =>
      ⟨hiff.mpr hguard, fun socket hs => ?_⟩⟩
    -- a pending event has a current socket, so this `connect` did not assign one
    have hfd := howned.ready_eq socket (hready ▸ hs)
    have hkept : outcome.assigns = false := by
      by_contra hassigns
      rw [Bool.not_eq_false] at hassigns
      exact absurd (hfd.symm.trans (hguard.2 hassigns)) (by simp)
    rw [hsockets, Transceiver.Sockets.connect_fd, hkept]
    exact hfd
  · refine iff_of_true ⟨hsockets ▸ howned.opened_eq, fun socket hs => ?_⟩ trivial
    rw [hsockets]
    exact howned.opened_eq socket
      (hk.registered_open socket (hregistered socket (hready ▸ hs)))
  · refine iff_of_true ?_ hguard
    obtain heq | heq := hsockets
    · refine ⟨heq ▸ howned.opened_eq, fun other hs => ?_⟩
      rw [heq]
      exact howned.ready_eq other (hready ▸ List.mem_cons_of_mem _ hs)
    · refine ⟨fun other hs => ?_, fun other hs => ?_⟩
      · rw [heq, howned.opened_eq.close_opened] at hs
        cases hs
      · -- both events occurred on the current socket, but events are different
        have hfirst := howned.ready_eq socket (hready ▸ List.mem_cons_self)
        have hother := howned.ready_eq other (hready ▸ List.mem_cons_of_mem _ hs)
        obtain rfl := Option.some.inj (hfirst.symm.trans hother)
        exact absurd hs (List.nodup_cons.mp (hready ▸ h.ready_nodup)).1
  · refine iff_of_true ⟨fun other hs => ?_, by simp [hready]⟩ trivial
    rw [hsockets, howned.opened_eq.close_opened] at hs
    cases hs

end Steps

/-- **Socket ownership.** In every state of a run of a new proxy the only open socket is the
current one, and every pending event occurred on it, exactly when all steps are guarded:
no `connect` replaces a socket, and `getAddress` never fails. -/
theorem owned_iff (script : List NetAction) (s : NetThread) (es : List Unit)
    (hexec : exec step new script = some (s, es)) :
    Always step Owned new script ↔ Along step Guarded new script := by
  have htracked : Tracked new :=
    ⟨⟨by simp [sockets, Transceiver.sockets, new, ObjectProxy.new, Transceiver.new],
      by simp [sockets, Transceiver.sockets, new, ObjectProxy.new, Transceiver.new, Kernel.new],
      by simp [sockets, Transceiver.sockets, new, ObjectProxy.new, Transceiver.new,
        Kernel.new]⟩, List.nodup_nil⟩
  have howned : Owned new :=
    ⟨by simp [Transceiver.Sockets.Owned, sockets, Transceiver.sockets, new, ObjectProxy.new,
      Transceiver.new, Kernel.new], by simp [new]⟩
  exact always_iff_along (I := fun s => s.Tracked ∧ s.Owned) (fun s h => h.2)
    (fun s a s' es h hguard hstep =>
      ⟨h.1.step hstep, (owned_iff_guarded h.1 h.2 hstep).mpr hguard⟩)
    (fun s a s' es h hguard hstep howned =>
      hguard ((owned_iff_guarded h.1 h.2 hstep).mp howned)) ⟨htracked, howned⟩ hexec

/-- A connection whose response is read, which the server then closes. -/
def guardedScript : List NetAction :=
  [.invoke sampleMessage .inProgress .again, .wait [0],
    .event (some [.data (bytes "1:y")]) (some (.accepted 100, [])), .wait [0],
    .event (some [.data []]) none, .invoke sampleMessage .connected (.accepted 100)]

/-- The statement on the run of `guardedScript`, in which a socket is closed before the next one is
opened. -/
theorem owned_iff_sample :
    ∃ s es, exec step new guardedScript = some (s, es) ∧ Always step Owned new guardedScript ∧
      (Always step Owned new guardedScript ↔ Along step Guarded new guardedScript) := by
  have hiff := owned_iff guardedScript _ _ rfl
  exact ⟨_, _, rfl, hiff.mpr (by decide), hiff⟩

/-- Two requests, and a response to the first one. -/
def leakScript : List NetAction :=
  [.invoke sampleMessage .connected (.accepted 100),
    .invoke sampleMessage .connected (.accepted 100), .wait [0]]

/-- **The first socket leaks.** After `leakScript` two sockets are open, and the pending event
of the first one will be handled by reading from the second one. -/
theorem first_socket_leaks :
    ∃ s es, exec step new leakScript = some (s, es) ∧ ¬s.Owned ∧
      s.sockets.opened = [1, 0] ∧ s.ready = [0] ∧ s.sockets.fd = some 1 :=
  ⟨_, _, rfl, fun howned => absurd (howned.ready_eq 0 List.mem_cons_self) (by decide),
    rfl, rfl, rfl⟩

end NetThread

end Tars
