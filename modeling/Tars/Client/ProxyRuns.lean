import Tars.Client.ObjectProxy
import Tars.Library.Scripts

/-!
# Runs of one object proxy

The network thread calls `invoke`, `handleOutputImp` and `handleInputImp` in any order.
A run keeps two histories that the code does not have: how many messages were created,
which gives each message its identity, and which messages were transmitted.
-/

namespace Tars

/-- An object proxy together with what happened to it so far. -/
structure ProxyRun where
  /-- The proxy. -/
  proxy : ObjectProxy
  /-- How many messages were passed to `invoke`. -/
  created : ℕ
  /-- The messages for which `sendRequest` did not return `eRetError`, in call order. -/
  sent : List ReqMessage

/-- One call of the network thread with the answers of the kernel. -/
inductive Action where
  /-- `invoke` of a new message. -/
  | invoke (msg : ReqMessage) (outcome : ConnectOutcome) (answer : SendResult)
  /-- `handleOutputImp`: the answer to the flush and those of the loop in `doInvoke`. -/
  | output (answer : SendResult) (answers : List SendResult)
  /-- `handleInputImp`. -/
  | input (answers : List ReadResult)

namespace ProxyRun

open ObjectProxy

/-- A new proxy without a history: no message was created and none was sent. -/
def new : ProxyRun := ⟨.new, 0, []⟩

/-- The run after calls that left this proxy behind. -/
def record (s : ProxyRun) (proxy : ObjectProxy) (events : List Event) : ProxyRun :=
  { s with proxy, sent := s.sent ++ transmitted events }

/-- One step of a run. It is refused where the source runs into an assertion, and where
the loop of `doInvoke` needs more answers than are given. -/
def step (s : ProxyRun) : Action → Option (ProxyRun × List Event)
  | .invoke msg outcome answer =>
    match s.proxy.invoke { msg with addr := s.created } outcome answer with
    | none => none
    | some (proxy, events, _) =>
      some ({ s.record proxy events with created := s.created + 1 }, events)
  | .output answer answers =>
    match s.proxy.doRequest answer answers with
    | some (proxy, events, true) => some (s.record proxy events, events)
    | _ => none
  | .input answers =>
    match s.proxy.handleInputImp answers with
    | none => none
    | some (proxy, events) => some (s.record proxy events, events)

section Steps

variable {s s' : ProxyRun} {events : List Event}

/-- What an `invoke` step does: it creates one message and notes it if it was transmitted. -/
theorem step_invoke {msg : ReqMessage} {outcome : ConnectOutcome} {answer : SendResult}
    (h : s.step (.invoke msg outcome answer) = some (s', events)) :
    ∃ returned,
      s.proxy.invoke { msg with addr := s.created } outcome answer =
        some (s'.proxy, events, returned) ∧
      s'.created = s.created + 1 ∧ s'.sent = s.sent ++ transmitted events := by
  simp only [step] at h
  split at h
  · cases h
  · rename_i hinvoke
    simp only [Option.some.injEq, Prod.mk.injEq] at h
    obtain ⟨rfl, rfl⟩ := h
    exact ⟨_, hinvoke, rfl, rfl⟩

/-- What an output step does: it creates no message and notes those that were transmitted. -/
theorem step_output {answer : SendResult} {answers : List SendResult}
    (h : s.step (.output answer answers) = some (s', events)) :
    s.proxy.doRequest answer answers = some (s'.proxy, events, true) ∧
      s'.created = s.created ∧ s'.sent = s.sent ++ transmitted events := by
  simp only [step] at h
  split at h
  · rename_i hrequest
    simp only [Option.some.injEq, Prod.mk.injEq] at h
    obtain ⟨rfl, rfl⟩ := h
    exact ⟨hrequest, rfl, rfl⟩
  · cases h

/-- What an input step does: it creates no message and transmits none. -/
theorem step_input {answers : List ReadResult}
    (h : s.step (.input answers) = some (s', events)) :
    s.proxy.handleInputImp answers = some (s'.proxy, events) ∧ s'.created = s.created ∧
      s'.sent = s.sent ++ transmitted events := by
  simp only [step] at h
  split at h
  · cases h
  · rename_i hinput
    simp only [Option.some.injEq, Prod.mk.injEq] at h
    obtain ⟨rfl, rfl⟩ := h
    exact ⟨hinput, rfl, rfl⟩

/-- The request of a new message fits a send buffer with its id. -/
def Fits : Action → Prop
  | .invoke msg _ _ => msg.request.length ≤ maxRequest
  | _ => True

/-- **Every step keeps the proxy valid**, as long as the requests fit into the send buffer. -/
theorem valid_step {a : Action} (h : s.proxy.Valid) (hfits : Fits a)
    (hstep : s.step a = some (s', events)) : s'.proxy.Valid := by
  cases a with
  | invoke msg outcome answer =>
    obtain ⟨returned, hinvoke, -⟩ := step_invoke hstep
    have hfits' : ({ msg with addr := s.created } : ReqMessage).request.length ≤ maxRequest :=
      hfits
    exact h.invoke hfits' hinvoke
  | output answer answers => exact h.doRequest (step_output hstep).1
  | input answers => exact h.handleInputImp (step_input hstep).1

/-- The proxy is valid after every run from a new one. -/
theorem valid_of_exec {script : List Action} (hfits : ∀ a ∈ script, Fits a)
    (hexec : Scripts.exec step new script = some (s, events)) : s.proxy.Valid := by
  refine Scripts.exec_invariant (I := fun s => s.proxy.Valid) (C := fun _ a => Fits a)
    (fun s a s' es h hfits hstep => valid_step h hfits hstep) ObjectProxy.valid_new
    (Scripts.along_of_mem hfits) hexec

end Steps

end ProxyRun

end Tars
