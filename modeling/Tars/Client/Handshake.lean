import Tars.Client.ObjectProxy
import Tars.Library.Scripts
import Tars.Util.Monitor

/-!
# The handshake of a synchronous call

The caller waits on the monitor of its message, copies the response and deletes the message
with the monitor. The network thread stores the response, sets `bMonitorFin` under the lock
of the monitor and signals. A run interleaves the atomic steps of both.
-/

namespace Tars

/-- The two threads that share the message: the caller and the network thread. -/
inductive Party where
  /-- The thread in `tars_invoke`. -/
  | caller
  /-- The network thread in `finishInvoke`. -/
  | net
  deriving DecidableEq

/-- The next step of the caller, from the end of `push_back` in `invoke` on. -/
inductive CallerStep where
  /-- Read `bMonitorFin` without the lock. -/
  | readFin
  /-- Lock the monitor. -/
  | lock
  /-- Read `bMonitorFin` again. -/
  | recheck
  /-- Call `wait`, until the thread is blocked. -/
  | wait
  /-- Return from `wait`. -/
  | endWait
  /-- `unlock`: signal. -/
  | signal
  /-- `unlock`: unlock the mutex. -/
  | unlock
  /-- Copy `msg->response`. -/
  | copy
  /-- Delete the message. -/
  | delete
  /-- `tars_invoke` returned. -/
  | returned
  deriving DecidableEq

/-- The next step of the network thread, from `finishInvoke` of a response on. -/
inductive NetStep where
  /-- Store the response. -/
  | store
  /-- Lock the monitor. -/
  | lock
  /-- Call `notify`. -/
  | notify
  /-- Set `bMonitorFin`. -/
  | setFin
  /-- `unlock`: signal. -/
  | signal
  /-- `unlock`: unlock the mutex. -/
  | unlock
  /-- `finishInvoke` returned. -/
  | done
  deriving DecidableEq

/-- The caller holds the mutex of the monitor at this step. -/
def CallerStep.holds : CallerStep → Bool
  | .recheck | .wait | .signal | .unlock => true
  | .readFin | .lock | .endWait | .copy | .delete | .returned => false

/-- The caller has seen that the call is finished. -/
def CallerStep.leaves : CallerStep → Bool
  | .signal | .unlock | .copy | .delete | .returned => true
  | .readFin | .lock | .recheck | .wait | .endWait => false

/-- The caller has copied the response, after which it needs nothing of the message. -/
def CallerStep.copied : CallerStep → Bool
  | .delete | .returned => true
  | .readFin | .lock | .recheck | .wait | .endWait | .signal | .unlock | .copy => false

/-- The network thread holds the mutex of the monitor at this step. -/
def NetStep.holds : NetStep → Bool
  | .notify | .setFin | .signal | .unlock => true
  | .store | .lock | .done => false

/-- The message of a synchronous call with its monitor and the two threads. -/
structure Handshake where
  /-- `*msg`; its last content once it is deleted. -/
  msg : ReqMessage
  /-- `*msg->pMonitor`, which is deleted with the message. -/
  monitor : Monitor Party
  /-- Whether the message is deleted. -/
  deleted : Bool
  /-- Where the thread is that calls `tars_invoke`. -/
  caller : CallerStep
  /-- Where the network thread is. -/
  net : NetStep
  /-- `resp` of the caller. -/
  resp : Bytes
  /-- Whether the network thread accessed the message or its monitor after the deletion. -/
  dangling : Bool

/-- One atomic step of one of the threads, or a wake-up of the caller without a signal. -/
inductive HandshakeAction where
  /-- The next step of the caller. -/
  | caller
  /-- The next step of the network thread. -/
  | net
  /-- The caller wakes up from the condition variable without a signal. -/
  | spurious

namespace Handshake

open Scripts

/-- The message as `tars_invoke` and `invoke` prepare it, before the network thread can see it. -/
def prepare (msg : ReqMessage) : ReqMessage :=
  { msg with eType := .SYNC_CALL, bMonitorFin := false }

/-- The message is in the queue, and nobody did a step. -/
def new (msg : ReqMessage) : Handshake :=
  { msg := prepare msg, monitor := .new, deleted := false, caller := .readFin, net := .store,
    resp := [], dangling := false }

/-- The next step of the caller, if it is not blocked. -/
def callerStep (s : Handshake) : Option Handshake :=
  match s.caller with
  | .readFin => some { s with caller := if s.msg.bMonitorFin then .copy else .lock }
  | .lock => (s.monitor.lock .caller).map fun monitor => { s with monitor, caller := .recheck }
  | .recheck => some { s with caller := if s.msg.bMonitorFin then .signal else .wait }
  | .wait => some { s with monitor := s.monitor.wait .caller, caller := .endWait }
  | .endWait =>
    (s.monitor.endWait .caller).map fun monitor => { s with monitor, caller := .signal }
  | .signal => some { s with monitor := s.monitor.notifyImpl, caller := .unlock }
  | .unlock => some { s with monitor := s.monitor.unlock, caller := .copy }
  | .copy => some { s with resp := s.msg.response, caller := .delete }
  | .delete => some { s with deleted := true, caller := .returned }
  | .returned => none

/-- The next step of the network thread with the response `rsp`, if it is not blocked. Each
one accesses the message or its monitor. -/
def netStep (rsp : Bytes) (s : Handshake) : Option Handshake :=
  match s.net with
  | .store => some { s with msg := { s.msg with response := rsp }, net := .lock }
  | .lock => (s.monitor.lock .net).map fun monitor => { s with monitor, net := .notify }
  | .notify => some { s with monitor := s.monitor.notify, net := .setFin }
  | .setFin => some { s with msg := { s.msg with bMonitorFin := true }, net := .signal }
  | .signal => some { s with monitor := s.monitor.notifyImpl, net := .unlock }
  | .unlock => some { s with monitor := s.monitor.unlock, net := .done }
  | .done => none

/-- One step of a run. What an access to the deleted message does is undefined; it ends the
part of the network thread. -/
def step (rsp : Bytes) (s : Handshake) : HandshakeAction → Option (Handshake × List Unit)
  | .caller => s.callerStep.map (·, [])
  | .net =>
    if s.deleted && s.net != .done then some ({ s with dangling := true, net := .done }, [])
    else (s.netStep rsp).map (·, [])
  | .spurious =>
    (s.monitor.spurious .caller).map fun monitor => ({ s with monitor }, [])

/-- `tars_invoke` returns only after the response was stored and `bMonitorFin` was set, with
this response, and the network thread does not access the message after its deletion. -/
structure Sound (rsp : Bytes) (s : Handshake) : Prop where
  /-- What holds when the call returned. -/
  returned_after : s.caller = .returned →
    s.msg.response = rsp ∧ s.msg.bMonitorFin = true ∧ s.resp = rsp
  /-- No access was late: the monitor was not used after its deletion. -/
  not_dangling : s.dangling = false

/-- The caller reads `bMonitorFin` as set without the lock only after the network thread
unlocked the monitor, and `wait` returns only when it is set. -/
def Careful (s : Handshake) : HandshakeAction → Prop
  | .caller =>
    (s.caller = .readFin → s.msg.bMonitorFin = true → s.net = .done) ∧
      (s.caller = .endWait → s.msg.bMonitorFin = true)
  | _ => True

instance (s : Handshake) : (a : HandshakeAction) → Decidable (s.Careful a)
  | .caller => inferInstanceAs (Decidable ((_ → _ → _) ∧ (_ → _)))
  | .net | .spurious => isTrue trivial

/-- What the network thread has made of the message. -/
def content (rsp : Bytes) (msg : ReqMessage) : NetStep → ReqMessage
  | .store => prepare msg
  | .lock | .notify | .setFin => { prepare msg with response := rsp }
  | .signal | .unlock | .done =>
    ObjectProxy.finishInvokeMsg { prepare msg with response := rsp }

/-- The invariant of careful runs: who holds the mutex, what the message contains, and that the
caller leaves last. -/
structure Inv (rsp : Bytes) (msg : ReqMessage) (s : Handshake) : Prop where
  /-- Only the network thread writes to the message. -/
  msg_eq : s.msg = content rsp msg s.net
  /-- The mutex is held by the thread in its critical section. -/
  owner_eq : s.monitor.owner =
    if s.caller.holds then some .caller
    else if s.net.holds then some .net else none
  /-- The critical sections exclude each other. -/
  exclusive : s.caller.holds = true → s.net.holds = false
  /-- The caller leaves after the network thread. -/
  leaves_last : s.caller.leaves = true → s.net = .done
  /-- The caller returns the response. -/
  resp_eq : s.caller.copied = true → s.resp = rsp
  /-- The message is deleted by the last step of the caller. -/
  deleted_iff : s.deleted = true ↔ s.caller = .returned
  /-- No access was late: the monitor was not used after its deletion. -/
  not_dangling : s.dangling = false

section Steps

variable {rsp : Bytes} {msg : ReqMessage} {s s' : Handshake} {es : List Unit}

/-- The message is finished exactly when the network thread is past that step. -/
theorem fin_iff (rsp : Bytes) (msg : ReqMessage) (net : NetStep) :
    (content rsp msg net).bMonitorFin = true ↔ net = .signal ∨ net = .unlock ∨ net = .done := by
  cases net <;> simp [content, prepare, ObjectProxy.finishInvokeMsg]

/-- The invariant holds at the start, where no thread has touched the message. -/
theorem inv_new (rsp : Bytes) (msg : ReqMessage) : (new msg).Inv rsp msg := by
  constructor <;> simp [new, content, Monitor.new, CallerStep.holds, NetStep.holds,
    CallerStep.leaves, CallerStep.copied]

/-- A finished message whose monitor is not locked by the network thread is done with. -/
theorem Inv.done_of_fin (h : s.Inv rsp msg) (hfin : s.msg.bMonitorFin = true)
    (hfree : s.net.holds = false) : s.net = .done := by
  rw [h.msg_eq, fin_iff] at hfin
  obtain hnet | hnet | hnet := hfin
  · rw [hnet] at hfree
    cases hfree
  · rw [hnet] at hfree
    cases hfree
  · exact hnet

/-- While the caller is outside of its critical section, a free mutex is not held by the
network thread. -/
theorem Inv.net_free (h : s.Inv rsp msg) (hcaller : s.caller.holds = false)
    (hfree : s.monitor.owner = none) : s.net.holds = false := by
  have howner := h.owner_eq
  rw [hcaller, hfree] at howner
  simpa using howner

/-- A step of the caller that neither copies nor deletes keeps the invariant if the mutex
follows its critical section and it leaves last. -/
theorem Inv.moveCaller (h : s.Inv rsp msg) {c : CallerStep} {monitor : Monitor Party}
    (hmoves : s.caller.copied = false) (hcopied : c.copied = false)
    (howner : monitor.owner =
      if c.holds then some .caller else if s.net.holds then some .net else none)
    (hexclusive : c.holds = true → s.net.holds = false)
    (hleaves : c.leaves = true → s.net = .done) :
    Inv rsp msg { s with caller := c, monitor } := by
  refine ⟨h.msg_eq, howner, hexclusive, hleaves, fun hc => ?_, ?_, h.not_dangling⟩
  · rw [hcopied] at hc
    cases hc
  · refine iff_of_false (fun hdeleted => ?_) ?_
    · rw [h.deleted_iff.mp hdeleted] at hmoves
      cases hmoves
    · rintro rfl
      cases hcopied

/-- A careful step of the caller keeps the invariant. -/
theorem Inv.callerStep (h : s.Inv rsp msg) (hcareful : s.Careful .caller)
    (hstep : s.callerStep = some s') : s'.Inv rsp msg := by
  have howner := h.owner_eq
  have hexclusive := h.exclusive
  have hleaves := h.leaves_last
  have hresp := h.resp_eq
  cases hc : s.caller with
  | readFin =>
    rw [hc] at howner
    simp only [Handshake.callerStep, hc, Option.some.injEq] at hstep
    subst hstep
    split
    · rename_i hfin
      exact h.moveCaller (hc ▸ rfl) rfl howner nofun fun _ => hcareful.1 hc hfin
    · exact h.moveCaller (hc ▸ rfl) rfl howner nofun nofun
  | lock =>
    simp only [Handshake.callerStep, hc, Option.map_eq_some_iff] at hstep
    obtain ⟨monitor, hlock, rfl⟩ := hstep
    obtain ⟨hfree, htaken, -, -⟩ := Monitor.lock_eq_some hlock
    have hnet := h.net_free (hc ▸ rfl) hfree
    exact h.moveCaller (hc ▸ rfl) rfl htaken (fun _ => hnet) nofun
  | recheck =>
    rw [hc] at howner hexclusive
    have hnet := hexclusive rfl
    simp only [Handshake.callerStep, hc, Option.some.injEq] at hstep
    subst hstep
    split
    · rename_i hfin
      exact h.moveCaller (hc ▸ rfl) rfl howner (fun _ => hnet) fun _ => h.done_of_fin hfin hnet
    · exact h.moveCaller (hc ▸ rfl) rfl howner (fun _ => hnet) nofun
  | wait =>
    rw [hc] at hexclusive
    have hnet := hexclusive rfl
    simp only [Handshake.callerStep, hc, Option.some.injEq] at hstep
    subst hstep
    exact h.moveCaller (hc ▸ rfl) rfl (by rw [hnet]; rfl) nofun nofun
  | endWait =>
    simp only [Handshake.callerStep, hc, Option.map_eq_some_iff] at hstep
    obtain ⟨monitor, hwait, rfl⟩ := hstep
    obtain ⟨hfree, htaken, -, -⟩ := Monitor.lock_eq_some (Monitor.endWait_eq_some hwait).2
    have hnet := h.net_free (hc ▸ rfl) hfree
    exact h.moveCaller (hc ▸ rfl) rfl htaken (fun _ => hnet)
      fun _ => h.done_of_fin (hcareful.2 hc) hnet
  | signal =>
    rw [hc] at howner hexclusive hleaves
    simp only [Handshake.callerStep, hc, Option.some.injEq] at hstep
    subst hstep
    exact h.moveCaller (hc ▸ rfl) rfl (Monitor.notifyImpl_owner.trans howner)
      (fun _ => hexclusive rfl) fun _ => hleaves rfl
  | unlock =>
    rw [hc] at hleaves
    have hdone := hleaves rfl
    simp only [Handshake.callerStep, hc, Option.some.injEq] at hstep
    subst hstep
    exact h.moveCaller (hc ▸ rfl) rfl (by rw [hdone]; rfl) nofun fun _ => hdone
  | copy =>
    rw [hc] at howner hleaves
    have hdone := hleaves rfl
    simp only [Handshake.callerStep, hc, Option.some.injEq] at hstep
    subst hstep
    refine ⟨h.msg_eq, howner, nofun, fun _ => hdone, fun _ => ?_, ?_, h.not_dangling⟩
    · rw [h.msg_eq, hdone]
      rfl
    · simpa [hc] using h.deleted_iff
  | delete =>
    rw [hc] at howner hleaves hresp
    simp only [Handshake.callerStep, hc, Option.some.injEq] at hstep
    subst hstep
    exact ⟨h.msg_eq, howner, nofun, fun _ => hleaves rfl, fun _ => hresp rfl, by simp,
      h.not_dangling⟩
  | returned => simp [Handshake.callerStep, hc] at hstep

/-- A step of the network thread keeps the invariant if it writes to the message what it
should and the mutex follows its critical section. -/
theorem Inv.moveNet (h : s.Inv rsp msg) (hnet : s.net ≠ .done) (net : NetStep)
    {monitor : Monitor Party}
    (howner : monitor.owner =
      if s.caller.holds then some .caller else if net.holds then some .net else none)
    (hexclusive : s.caller.holds = true → net.holds = false) :
    Inv rsp msg { s with msg := content rsp msg net, net, monitor } :=
  ⟨rfl, howner, hexclusive, fun hleaves => absurd (h.leaves_last hleaves) hnet, h.resp_eq,
    h.deleted_iff, h.not_dangling⟩

/-- While the network thread is in its critical section, the caller is not. -/
theorem Inv.caller_free (h : s.Inv rsp msg) (hnet : s.net.holds = true) :
    s.caller.holds = false := by
  by_contra hcaller
  rw [h.exclusive (by simpa using hcaller)] at hnet
  cases hnet

/-- A step of the network thread keeps the invariant. -/
theorem Inv.netStep (h : s.Inv rsp msg) (hstep : s.netStep rsp = some s') : s'.Inv rsp msg := by
  have howner := h.owner_eq
  have hmsg := h.msg_eq
  cases hn : s.net with
  | store =>
    rw [hn] at howner hmsg
    simp only [Handshake.netStep, hn, Option.some.injEq] at hstep
    subst hstep
    rw [hmsg]
    exact h.moveNet (by simp [hn]) .lock howner fun _ => rfl
  | lock =>
    rw [hn] at howner hmsg
    simp only [Handshake.netStep, hn, Option.map_eq_some_iff] at hstep
    obtain ⟨monitor, hlock, rfl⟩ := hstep
    obtain ⟨hfree, htaken, -, -⟩ := Monitor.lock_eq_some hlock
    have hcaller : s.caller.holds = false := by
      simpa [hfree, NetStep.holds] using howner
    rw [hmsg]
    exact h.moveNet (by simp [hn]) .notify (by rw [hcaller]; exact htaken)
      (by simp [hcaller])
  | notify =>
    have hcaller := h.caller_free (hn ▸ rfl)
    rw [hn] at howner hmsg
    simp only [Handshake.netStep, hn, Option.some.injEq] at hstep
    subst hstep
    rw [hmsg]
    exact h.moveNet (by simp [hn]) .setFin (Monitor.notify_owner.trans howner)
      (by simp [hcaller])
  | setFin =>
    have hcaller := h.caller_free (hn ▸ rfl)
    rw [hn] at howner hmsg
    simp only [Handshake.netStep, hn, Option.some.injEq] at hstep
    subst hstep
    rw [hmsg]
    exact h.moveNet (by simp [hn]) .signal howner (by simp [hcaller])
  | signal =>
    have hcaller := h.caller_free (hn ▸ rfl)
    rw [hn] at howner hmsg
    simp only [Handshake.netStep, hn, Option.some.injEq] at hstep
    subst hstep
    rw [hmsg]
    exact h.moveNet (by simp [hn]) .unlock (Monitor.notifyImpl_owner.trans howner)
      (by simp [hcaller])
  | unlock =>
    have hcaller := h.caller_free (hn ▸ rfl)
    rw [hn] at hmsg
    simp only [Handshake.netStep, hn, Option.some.injEq] at hstep
    subst hstep
    rw [hmsg]
    exact h.moveNet (by simp [hn]) .done (by rw [hcaller]; rfl) fun _ => rfl
  | done => simp [Handshake.netStep, hn] at hstep

/-- **A careful step** keeps the invariant, with one case for each place of the thread that goes on.
-/
theorem Inv.step (h : s.Inv rsp msg) {a : HandshakeAction} (hcareful : s.Careful a)
    (hstep : s.step rsp a = some (s', es)) : s'.Inv rsp msg := by
  cases a with
  | caller =>
    obtain ⟨next, hnext, heq⟩ := Option.map_eq_some_iff.mp hstep
    obtain ⟨rfl, -⟩ := Prod.mk.inj heq
    exact h.callerStep hcareful hnext
  | net =>
    simp only [Handshake.step] at hstep
    split at hstep
    · rename_i hlate
      rw [Bool.and_eq_true, bne_iff_ne] at hlate
      have hreturned := h.deleted_iff.mp hlate.1
      exact absurd (h.leaves_last (hreturned ▸ rfl)) hlate.2
    · obtain ⟨next, hnext, heq⟩ := Option.map_eq_some_iff.mp hstep
      obtain ⟨rfl, -⟩ := Prod.mk.inj heq
      exact h.netStep hnext
  | spurious =>
    obtain ⟨monitor, hwake, heq⟩ := Option.map_eq_some_iff.mp hstep
    obtain ⟨rfl, -⟩ := Prod.mk.inj heq
    have hsame : monitor.owner = s.monitor.owner := by
      unfold Monitor.spurious at hwake
      split at hwake
      · rw [← Option.some.inj hwake]
      · cases hwake
    exact ⟨h.msg_eq, hsame.trans h.owner_eq, h.exclusive, h.leaves_last, h.resp_eq, h.deleted_iff,
      h.not_dangling⟩

/-- The invariant says that the handshake is sound: no access to a deleted monitor, and no return
before the response is there. -/
theorem Inv.sound (h : s.Inv rsp msg) : s.Sound rsp := by
  refine ⟨fun hreturned => ?_, h.not_dangling⟩
  have hdone := h.leaves_last (hreturned ▸ rfl)
  refine ⟨?_, ?_, h.resp_eq (hreturned ▸ rfl)⟩
  · rw [h.msg_eq, hdone]
    rfl
  · rw [h.msg_eq, hdone]
    rfl

/-- After the deletion any step of the network thread is late. -/
theorem step_late (hdeleted : s.deleted = true) (hnet : s.net ≠ .done) :
    s.step rsp .net = some ({ s with dangling := true, net := .done }, []) := by
  simp [Handshake.step, hdeleted, hnet]

/-- From a step that is not careful the two threads can go on to an unsound state. -/
theorem unsound_of_careless {a : HandshakeAction}
    (hcareless : ¬s.Careful a) (hstep : s.step rsp a = some (s', es)) :
    ∃ rest t out, exec (Handshake.step rsp) s' rest = some (t, out) ∧ ¬t.Sound rsp := by
  cases a with
  | net | spurious => exact absurd trivial hcareless
  | caller =>
    obtain ⟨next, hnext, heq⟩ := Option.map_eq_some_iff.mp hstep
    obtain ⟨rfl, -⟩ := Prod.mk.inj heq
    simp only [Careful, Classical.not_and_iff_not_or_not, Classical.not_imp] at hcareless
    obtain ⟨hc, hfin, hnet⟩ | ⟨hc, hfin⟩ := hcareless
    · -- the caller deletes the message before the network thread unlocks its monitor
      simp only [Handshake.callerStep, hc, hfin, if_true, Option.some.injEq] at hnext
      subst hnext
      refine ⟨[.caller, .caller, .net], _, _, exec_cons_eq_some.mpr ⟨_, _, _, rfl,
        exec_cons_eq_some.mpr ⟨_, _, _, rfl, exec_cons_eq_some.mpr ⟨_, _, _, step_late rfl hnet,
          rfl, rfl⟩, rfl⟩, rfl⟩, fun hsound => ?_⟩
      cases hsound.not_dangling
    · -- the caller returns from `wait` and from the call without a response
      simp only [Handshake.callerStep, hc, Option.map_eq_some_iff] at hnext
      obtain ⟨monitor, -, rfl⟩ := hnext
      refine ⟨[.caller, .caller, .caller, .caller], _, _, rfl, fun hsound => ?_⟩
      exact hfin (hsound.returned_after rfl).2.1

end Steps

/-- **When the handshake is sound.** In every run whose steps are all careful, under every
interleaving and with spurious wake-ups, the call returns only after the response was stored
and `bMonitorFin` was set, and the network thread does not access the deleted message. After
any other step at the end of such a run the threads can go on to violate one of both. -/
theorem sound_of_careful (msg : ReqMessage) (rsp : Bytes) (script : List HandshakeAction)
    (s : Handshake) (es : List Unit) (hexec : exec (step rsp) (new msg) script = some (s, es))
    (hcareful : Along (step rsp) Careful (new msg) script) :
    s.Sound rsp ∧ ∀ a s' es', step rsp s a = some (s', es') → ¬s.Careful a →
      ∃ rest t out, exec (step rsp) s' rest = some (t, out) ∧ ¬t.Sound rsp := by
  have hinv : s.Inv rsp msg := exec_invariant (fun s a s' es h hC hstep => h.step hC hstep)
    (inv_new rsp msg) hcareful hexec
  exact ⟨hinv.sound, fun a s' es' hstep hcareless => unsound_of_careless hcareless hstep⟩

/-- The caller blocks in `wait`, and the network thread finishes the call. -/
def waitScript : List HandshakeAction :=
  List.replicate 4 .caller ++ List.replicate 6 .net ++ List.replicate 5 .caller

/-- The statement on the run of `waitScript`, in which the call returns. -/
theorem sound_of_careful_sample :
    ∃ s es, exec (step (bytes "1:y")) (new sampleMessage) waitScript = some (s, es) ∧
      s.Sound (bytes "1:y") ∧ s.caller = .returned :=
  ⟨_, _, rfl, (sound_of_careful sampleMessage _ waitScript _ _ rfl (by decide)).1, rfl⟩

/-- **Two bad interleavings.** The network thread has set `bMonitorFin` but still holds the
lock when the caller reads it, returns and deletes the monitor: the network thread then
accesses the deleted monitor. And a spurious wake-up makes the call return before the
response was stored. -/
theorem bad_interleavings :
    (∃ s es, exec (step (bytes "1:y")) (new sampleMessage)
        [.net, .net, .net, .net, .caller, .caller, .caller, .net] = some (s, es) ∧
      s.dangling = true) ∧
    ∃ s es, exec (step (bytes "1:y")) (new sampleMessage)
        [.caller, .caller, .caller, .caller, .spurious, .caller, .caller, .caller, .caller,
          .caller] = some (s, es) ∧
      s.caller = .returned ∧ s.net = .store ∧ s.msg.bMonitorFin = false ∧ s.resp = [] :=
  ⟨⟨_, _, rfl, rfl⟩, _, _, rfl, rfl, rfl, rfl, rfl⟩

end Handshake

end Tars
