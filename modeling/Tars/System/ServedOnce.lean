import Tars.Client.SocketBytes
import Tars.System.Effects

/-!
# Requests are served at most once

In all runs a servant is called at most once for a batch that was read from a socket, and what is
sent back are the buffers of these calls. What the connection carries to the client are the fronts
of them that the kernel took.
-/

namespace Tars

namespace RemoteCalls

open NetServer ObjectProxy

/-- The invariant of all runs: the accounts of the server, and what the notes say of the responses,
of the batches that were read and of the sockets that exist. -/
structure Sound (site : Site) (s : RemoteCalls) (notes : List RemoteNote) : Prop where
  /-- The accounts of the server are right. -/
  accounts : Accounts site s notes
  /-- A response is sent for every call of a servant that returns. -/
  responds : Responds s notes
  /-- The batches that were read from a socket are its requests in the server. -/
  reads (e : Endpoint) : requestsOn site s e = readOn e notes
  /-- A client uses only sockets that it has created. -/
  sockets (client : ℕ) : (s.trans client).KnownSockets

/-- The way of the requests of a socket through the server, and of the responses back to it. -/
structure ServesOnce (site : Site) (s : RemoteCalls) (notes : List RemoteNote) (e : Endpoint) :
    Prop where
  /-- The batches that were read from the socket are the requests that handlers have taken, and
  then those that wait. -/
  requests : requestsOn site s e = readOn e notes
  /-- A servant is called for the batches that were read, for each at most once. -/
  once : ((servedOn e notes).map Prod.fst).Subperm (readOn e notes)
  /-- The servant is that of the adapter that the client wants. -/
  routed : ∀ p ∈ servedOn e notes, ∃ call,
    p.2 = (site.servant (site.target e.client)).dispatch call p.1
  /-- What is sent back are the buffers of the calls that return, in this order. -/
  responds : sentTo (s.serialOf e) (netNotes notes) = (servedOn e notes).filterMap responded
  /-- What is written on the connection are the fronts that the kernel took of the first of these
  buffers, one for each, in this order. -/
  written : ∃ tried : List (Bytes × Bytes),
    tried.map Prod.fst <+: (servedOn e notes).filterMap responded ∧ (∀ p ∈ tried, p.2 <+: p.1) ∧
      (s.passed e).written = (tried.map Prod.snd).flatten

section Sound

variable {site : Site} {s s' : RemoteCalls} {notes new : List RemoteNote} {client : ℕ}
  {a : Action} {b : RemoteAction}

/-- The invariant holds of new clients and a new server. -/
theorem sound_start (site : Site) : Sound site start [] :=
  ⟨accounts_start site, responds_start, fun _ => rfl, fun _ => Transceiver.sockets_new⟩

/-- An action of a client is a step of its own proxy, and its notes are about nothing else. -/
theorem act_eq_some (hact : s.act client a = some (s', new)) :
    ∃ run events, (s.clients client).step a = some (run, events) ∧
      s' = { s with clients := Function.update s.clients client run } ∧
      new = (issues (s.clients client) a).map (.issued client) ++ finishes client events := by
  obtain ⟨⟨run, events⟩, hstep, heq⟩ := Option.map_eq_some_iff.mp hact
  obtain ⟨rfl, rfl⟩ := Prod.mk.inj heq
  exact ⟨run, events, hstep, rfl, rfl⟩

/-- An action of a client keeps the invariant: it may create a socket, and does not touch the
server. -/
theorem Sound.act (h : Sound site s notes) (hact : s.act client a = some (s', new)) :
    Sound site s' (notes ++ new) := by
  obtain ⟨run, events, hstep, rfl, rfl⟩ := act_eq_some hact
  obtain ⟨hsockets, hcreated⟩ := ProxyRun.sockets_step (h.sockets client) hstep
  obtain ⟨hnet, hserved⟩ := notes_of_client client (issues (s.clients client) a) events
  refine ⟨h.accounts.clients (fun client' => ?_) hnet hserved, fun e => ?_, fun e => ?_,
    fun client' => ?_⟩
  · by_cases hsame : client' = client
    · subst hsame
      rw [Function.update_self]
      exact hcreated
    · rw [Function.update_of_ne hsame]
      exact le_rfl
  · rw [netNotes_append, hnet, List.append_nil, servedOn_append, servedOn_eq_nil hserved,
      List.append_nil]
    exact h.responds e
  · rw [readOn_append, readOn_of_client, List.append_nil]
    exact h.reads e
  · show (Function.update s.clients client run client').proxy.trans.KnownSockets
    by_cases hsame : client' = client
    · subst hsame
      rw [Function.update_self]
      exact hsockets
    · rw [Function.update_of_ne hsame]
      exact h.sockets client'

/-- A client that reads what has arrived keeps the invariant: only how much it got changes. -/
theorem Sound.clientReads (h : Sound site s notes) {e : Endpoint} {bytes : Bytes}
    (hfront : bytes <+: s.unseen e) : Sound site (s.clientReads e bytes.length) notes := by
  refine ⟨h.accounts.reads (fun e' => ?_) fun e' he' => ?_, h.responds, h.reads,
    h.sockets⟩
  · rw [Function.update_apply]
    split
    · rename_i heq
      rw [heq]
    · rfl
  · rw [Function.update_apply]
    split
    · -- Nothing was written to a socket that is not accepted.
      rename_i heq
      subst heq
      rw [unseen, (h.accounts.passed_absent he').2, List.drop_nil, List.prefix_nil] at hfront
      rw [hfront]
      rfl
    · rfl

/-- **One step** of a client or of the server keeps the invariant. -/
theorem Sound.step (h : Sound site s notes) (hstep : s.step site b = some (s', new)) :
    Sound site s' (notes ++ new) := by
  by_cases hof : OfServer b
  · have hserver := serverStep h.accounts h.responds hof hstep
    refine ⟨hserver.accounts, hserver.responds, fun e => ?_, fun client => ?_⟩
    · rw [hserver.reads, h.reads, readOn_append]
    · rw [trans, hserver.clients]
      exact h.sockets client
  · cases b with
    | invoke client msg outcome answer => exact h.act hstep
    | output client answer answers => exact h.act hstep
    | input client answers =>
      replace hstep : s.receive client answers = some (s', new) := hstep
      unfold receive at hstep
      split at hstep
      · exact h.act hstep
      · dsimp only at hstep
        split at hstep
        · rename_i hfront
          exact (h.clientReads hfront).act hstep
        · cases hstep
    | _ => exact absurd trivial hof

/-- What a socket that was accepted has got are the fronts of the first responses to it. -/
theorem Accounts.fronts (h : Accounts site s notes) (e : Endpoint) :
    ∃ tried : List (Bytes × Bytes),
      tried.map Prod.fst <+: sentTo (s.serialOf e) (netNotes notes) ∧ (∀ p ∈ tried, p.2 <+: p.1) ∧
        (s.passed e).written = (tried.map Prod.snd).flatten := by
  by_cases he : e ∈ s.peers
  · obtain ⟨thread, uid, c, hc, hserial⟩ := h.connected he
    obtain ⟨tried, hfront, hsent, hwritten, -⟩ := h.ordered.tried hc
    rw [hserial] at hsent hwritten
    refine ⟨tried, ?_, hfront, ?_⟩
    · rw [hsent]
      exact List.prefix_append _ _
    · -- The responses of which the kernel took nothing leave no trace.
      rw [h.written, hwritten, List.flatten_filter_ne_nil]
  · exact ⟨[], List.nil_prefix, by simp, (h.passed_absent he).2⟩

/-- **Requests are served at most once**, in every run of any number of clients, network threads and
handlers: a servant is called for the batches that were read from a socket, for each at most once,
and it is the one of the adapter that the client wants. The responses that are sent to the socket
are the buffers of these calls, in the order of the calls, and what is written to it are the fronts
of them that the kernel took. -/
theorem requests_served_once {script : List RemoteAction}
    (hexec : Scripts.exec (step site) start script = some (s, notes)) (e : Endpoint) :
    ServesOnce site s notes e := by
  have hsound : Sound site s notes :=
    Scripts.exec_keeps (fun _ _ _ _ _ h hstep => h.step hstep) (sound_start site) hexec
  have hfronts := hsound.accounts.fronts e
  rw [hsound.responds e] at hfronts
  refine ⟨hsound.reads e, hsound.reads e ▸ hsound.accounts.once e, fun p hp => ?_,
    hsound.responds e, hfronts⟩
  obtain ⟨q, hq, rfl⟩ := List.mem_map.mp hp
  obtain ⟨hmem, hsocket⟩ := List.mem_filter.mp hq
  obtain ⟨call, hcall⟩ := hsound.accounts.routed q hmem
  rw [of_decide_eq_true hsocket] at hcall
  exact ⟨call, hcall⟩

/-- All adapters have the servant of a node, and all clients want the one of listening socket 3. -/
def nodeSite : Site := ⟨2, 1024, fun _ => .node, fun _ => 3⟩

/-- A call of `startServer`, which the servant of a node answers with a text. -/
def startMessage : ReqMessage := { sampleMessage with request := bytes "startServer:x" }

/-- Two clients call at the same time. One request is cut on its way to the socket, and the requests
are handled by a coroutine and by a handler. Then the first client calls again. -/
def twoClients : List RemoteAction :=
  [.invoke 0 startMessage .connected (.accepted 5),
    .invoke 1 startMessage .inProgress (.accepted 100), .accept ⟨1, 0⟩ 5 [49] 80,
    .accept ⟨0, 0⟩ 6 [49] 81, .output 0 (.accepted 100) [],
    .net 1 1 ⟨false, some [.data (bytes "1:startServer:x")], none⟩,
    .net 0 1 ⟨false, some [.data (bytes "1:startServer:x")], none⟩, .take 3, .take 3,
    .handle 1 (.ok 0) .thread, .handle 0 (.ok 7) (.coroutine 1), .swap 1,
    .pipe 1 (.accepted 4096), .swap 0, .pipe 0 (.accepted 4096),
    .input 0 [.data (bytes "1:server is activating")],
    .input 1 [.data (bytes "1:have notify to startServer")],
    .invoke 0 startMessage .connected (.accepted 100)]

/-- The request of the first client was read once and served once, and the kernel took the whole
response. -/
theorem requests_served_once_sample : ∃ s notes,
    Scripts.exec (step nodeSite) start twoClients = some (s, notes) ∧
      readOn ⟨0, 0⟩ notes = [bytes "1:startServer:x"] ∧
      (servedOn ⟨0, 0⟩ notes).map Prod.fst = [bytes "1:startServer:x"] ∧
      (s.passed ⟨0, 0⟩).written = bytes "1:server is activating" ∧
      ServesOnce nodeSite s notes ⟨0, 0⟩ := by
  have hsome : (Scripts.exec (step nodeSite) start twoClients).map
      (fun r => (readOn ⟨0, 0⟩ r.2, (servedOn ⟨0, 0⟩ r.2).map Prod.fst,
        (r.1.passed ⟨0, 0⟩).written)) =
      some ([bytes "1:startServer:x"], [bytes "1:startServer:x"],
        bytes "1:server is activating") := by
    decide +kernel
  obtain ⟨⟨s, notes⟩, hexec, heq⟩ := Option.map_eq_some_iff.mp hsome
  obtain ⟨hread, heq⟩ := Prod.mk.inj heq
  obtain ⟨hserved, hwritten⟩ := Prod.mk.inj heq
  exact ⟨s, notes, hexec, hread, hserved, hwritten, requests_served_once hexec _⟩

end Sound

end RemoteCalls

end Tars
