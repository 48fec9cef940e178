import Mathlib.Data.List.Perm.Subperm
import Tars.System.RemoteCalls

/-!
# What holds of clients and server in all runs

Every request that a servant is called for was read from the socket that the call is noted for, at
most as often as it was read, and by the servant of the adapter that the client wants. What the
server has sent to a socket are the buffers of these calls.
-/

namespace Tars

namespace RemoteCalls

open NetServer ObjectProxy

/-! ### Notes -/

section Notes

variable {client : ℕ} {e : Endpoint} {notes notes' : List RemoteNote} {es : List NetNote}
  {msgs : List ReqMessage} {events : List Event} {batches : List Bytes}

@[simp] theorem issuedBy_append :
    issuedBy client (notes ++ notes') = issuedBy client notes ++ issuedBy client notes' :=
  List.filterMap_append

@[simp] theorem finishedBy_append :
    finishedBy client (notes ++ notes') = finishedBy client notes ++ finishedBy client notes' :=
  List.filterMap_append

@[simp] theorem servedIn_append : servedIn (notes ++ notes') = servedIn notes ++ servedIn notes' :=
  List.filterMap_append

@[simp] theorem servedOn_append :
    servedOn e (notes ++ notes') = servedOn e notes ++ servedOn e notes' := by
  simp [servedOn]

@[simp] theorem servedTo_append :
    servedTo client (notes ++ notes') = servedTo client notes ++ servedTo client notes' := by
  simp [servedTo]

@[simp] theorem readOn_append : readOn e (notes ++ notes') = readOn e notes ++ readOn e notes' :=
  List.filterMap_append

@[simp] theorem netNotes_append : netNotes (notes ++ notes') = netNotes notes ++ netNotes notes' :=
  List.filterMap_append

@[simp] theorem netNotes_net : netNotes (es.map .net) = es := by
  simp [netNotes, List.filterMap_map]

@[simp] theorem servedIn_net : servedIn (es.map .net) = [] := by
  simp [servedIn, List.filterMap_map]

@[simp] theorem issuedBy_net : issuedBy client (es.map .net) = [] := by
  simp [issuedBy, List.filterMap_map]

@[simp] theorem finishedBy_net : finishedBy client (es.map .net) = [] := by
  simp [finishedBy, List.filterMap_map]

@[simp] theorem readOn_net : readOn e (es.map .net) = [] := by
  simp [readOn, List.filterMap_map]

@[simp] theorem issuedBy_served {request : Bytes} {outcome : Outcome} :
    issuedBy client (.served e request outcome :: notes) = issuedBy client notes := rfl

@[simp] theorem finishedBy_served {request : Bytes} {outcome : Outcome} :
    finishedBy client (.served e request outcome :: notes) = finishedBy client notes := rfl

@[simp] theorem netNotes_served {request : Bytes} {outcome : Outcome} :
    netNotes (.served e request outcome :: notes) = netNotes notes := rfl

@[simp] theorem servedIn_served {request : Bytes} {outcome : Outcome} :
    servedIn (.served e request outcome :: notes) = (e, request, outcome) :: servedIn notes := rfl

@[simp] theorem readOn_served {e' : Endpoint} {request : Bytes} {outcome : Outcome} :
    readOn e (.served e' request outcome :: notes) = readOn e notes := rfl

@[simp] theorem readOn_read {e' : Endpoint} :
    readOn e (batches.map (.read e')) = if e = e' then batches else [] := by
  by_cases h : e = e'
  · simp [readOn, List.filterMap_map, h]
  · simp [readOn, List.filterMap_map, h, Ne.symm h]

/-- That the server has read a batch is of no other interest. -/
theorem notes_of_read (e : Endpoint) (batches : List Bytes) :
    netNotes (batches.map (.read e)) = [] ∧ servedIn (batches.map (.read e)) = [] ∧
      ∀ client, issuedBy client (batches.map (.read e)) = [] ∧
        finishedBy client (batches.map (.read e)) = [] := by
  simp [netNotes, servedIn, issuedBy, finishedBy, List.filterMap_map]

/-- Without calls of servants there are none for a socket. -/
theorem servedOn_eq_nil (h : servedIn notes = []) (e : Endpoint) : servedOn e notes = [] := by
  rw [servedOn, h]
  rfl

/-- Without calls of servants there are none for a client. -/
theorem servedTo_eq_nil (h : servedIn notes = []) (client : ℕ) : servedTo client notes = [] := by
  rw [servedTo, h]
  rfl

/-- The notes of a client are not about the server. -/
theorem notes_of_client (client : ℕ) (msgs : List ReqMessage) (events : List Event) :
    netNotes (msgs.map (.issued client) ++ finishes client events) = [] ∧
      servedIn (msgs.map (.issued client) ++ finishes client events) = [] := by
  constructor
  · simp only [netNotes, List.filterMap_append, List.filterMap_map, finishes,
      List.filterMap_filterMap, List.append_eq_nil_iff, List.filterMap_eq_nil_iff]
    exact ⟨fun _ _ => rfl, fun event _ => by cases event <;> rfl⟩
  · simp only [servedIn, List.filterMap_append, List.filterMap_map, finishes,
      List.filterMap_filterMap, List.append_eq_nil_iff, List.filterMap_eq_nil_iff]
    exact ⟨fun _ _ => rfl, fun event _ => by cases event <;> rfl⟩

/-- A client does not read for the server: its steps leave what was read on every socket. -/
theorem readOn_of_client (e : Endpoint) (client : ℕ) (msgs : List ReqMessage)
    (events : List Event) :
    readOn e (msgs.map (.issued client) ++ finishes client events) = [] := by
  simp only [readOn, List.filterMap_append, List.filterMap_map, finishes,
    List.filterMap_filterMap, List.append_eq_nil_iff, List.filterMap_eq_nil_iff]
  exact ⟨fun _ _ => rfl, fun event _ => by cases event <;> rfl⟩

end Notes

/-! ### Accounts -/

/-- The response that a call of a servant makes. -/
def responded (p : Bytes × Outcome) : Option Bytes :=
  match p.2 with
  | .ok r => some r.2
  | .error _ => none

/-- The requests that the server has read from a socket. -/
def requestsOn (site : Site) (s : RemoteCalls) (e : Endpoint) : List Bytes :=
  s.server.held (site.target e.client) (s.serialOf e)

/-- The requests from a connection that were handled, in the order in which they were handled. -/
def handledOn (s : RemoteCalls) (w : ℕ) : List Bytes :=
  s.handled.filterMap fun i => s.server.requests[i]?.bind fun recv =>
    if recv.serial = w then some recv.data.buffer else none

/-- What is known of clients and server in all states of all runs. It ties the connections of the
server, which have numbers, to the sockets of the clients. -/
structure Accounts (site : Site) (s : RemoteCalls) (notes : List RemoteNote) : Prop where
  /-- The server keeps the order of its responses, as in every run of its own. -/
  ordered : Ordered site.netThreadNum False s.server (netNotes notes)
  /-- The records at the server are filed under their connections. -/
  filed : Filed s.server
  /-- The sockets are numbered like the connections. -/
  length_peers : s.peers.length = s.server.accepts
  /-- No socket is accepted twice. -/
  nodup_peers : s.peers.Nodup
  /-- The sockets of the peers were created by their clients. -/
  created {e : Endpoint} : e ∈ s.peers → e.fd < (s.trans e.client).kernel.created
  /-- A connection has the adapter that the client wants. -/
  at_target {w : ℕ} {e : Endpoint} : s.peers[w]? = some e → s.server.At (site.target e.client) w
  /-- The adapters are those of the requests. -/
  length_adapters : s.adapters.length = s.server.requests.length
  /-- A request has the adapter that the client wants. -/
  adapter {i : ℕ} {recv : ReceivedRecord} : s.server.requests[i]? = some recv →
    ∃ e, s.peers[recv.serial]? = some e ∧ s.adapters[i]? = some (site.target e.client)
  /-- What was handled was taken. -/
  handled_lt : ∀ i ∈ s.handled, i < s.server.requests.length
  /-- Nothing is handled twice, whichever handler takes it. -/
  nodup_handled : s.handled.Nodup
  /-- Servants are called for requests that are handled. -/
  served (e : Endpoint) : ((servedOn e notes).map Prod.fst).Sublist (s.handledOn (s.serialOf e))
  /-- They are those of the adapter that the client wants. -/
  routed : ∀ p ∈ servedIn notes, ∃ call,
    p.2.2 = (site.servant (site.target p.1.client)).dispatch call p.2.1
  /-- What the server has written is on the connections. -/
  written (e : Endpoint) :
    (s.passed e).written = (writtenBy (s.serialOf e) (netNotes notes)).flatten
  /-- That a connection was accepted is noted. -/
  logged {w : ℕ} : w < s.server.accepts →
    ∃ thread uid fd, .accepted w thread uid fd ∈ eventsIn (netNotes notes)
  /-- Nothing has passed before the server accepts. -/
  absent {e : Endpoint} : e ∉ s.peers →
    (s.passed e).read = 0 ∧ (s.passed e).got = 0 ∧ servedOn e notes = []

/-- A response is sent for every call of a servant that returns. -/
def Responds (s : RemoteCalls) (notes : List RemoteNote) : Prop :=
  ∀ e, sentTo (s.serialOf e) (netNotes notes) = (servedOn e notes).filterMap responded

/-- The accounts are right at the start, where nothing has happened. -/
theorem accounts_start (site : Site) : Accounts site start [] where
  ordered := ordered_start
  filed := filed_start
  length_peers := rfl
  nodup_peers := List.nodup_nil
  created h := absurd h List.not_mem_nil
  at_target h := nomatch h
  length_adapters := rfl
  adapter h := nomatch h
  handled_lt _ h := absurd h List.not_mem_nil
  nodup_handled := List.nodup_nil
  served _ := List.Sublist.refl []
  routed _ h := absurd h List.not_mem_nil
  written _ := rfl
  logged h := absurd h (Nat.not_lt_zero _)
  absent _ := ⟨rfl, rfl, rfl⟩

theorem responds_start : Responds start [] := fun _ => rfl

section Accounts

variable {site : Site} {s s' : RemoteCalls} {notes new : List RemoteNote} {es : List NetNote}
  {e : Endpoint} {a : NetServer.NetAction} {w : ℕ}

/-- The number of a socket that was accepted is its place among the accepted ones. -/
theorem Accounts.serialOf_eq (h : Accounts site s notes) (he : s.peers[w]? = some e) :
    s.serialOf e = w := by
  obtain ⟨hlt, rfl⟩ := List.getElem?_eq_some_iff.mp he
  exact h.nodup_peers.idxOf_getElem w hlt

/-- A socket that was accepted is found under its number. -/
theorem peers_serialOf (he : e ∈ s.peers) : s.peers[s.serialOf e]? = some e := by
  have hlt := List.idxOf_lt_length_of_mem he
  rw [serialOf, List.getElem?_eq_getElem hlt, List.getElem_idxOf]

/-- Other sockets have no number yet: the next accept would get the one that is found for them. -/
theorem Accounts.serialOf_absent (h : Accounts site s notes) (he : e ∉ s.peers) :
    s.serialOf e = s.server.accepts := by
  rw [serialOf, List.idxOf_eq_length he, h.length_peers]

/-- Sockets that were accepted have different numbers, so a number stands for one socket. -/
theorem serialOf_inj {e' : Endpoint} (he : e ∈ s.peers) (heq : s.serialOf e' = s.serialOf e) :
    e' = e := by
  have hmem : e' ∈ s.peers := by
    rw [← List.idxOf_lt_length_iff]
    exact heq.trans_lt (List.idxOf_lt_length_of_mem he)
  have hsame := peers_serialOf hmem
  rw [heq, peers_serialOf he] at hsame
  exact (Option.some.inj hsame).symm

/-- What was handled stays handled when handlers take more. -/
theorem Accounts.handledOn_mono (h : Accounts site s notes) (hhandled : s'.handled = s.handled)
    (hrequests : s.server.requests <+: s'.server.requests) (w : ℕ) :
    s'.handledOn w = s.handledOn w := by
  rw [handledOn, handledOn, hhandled]
  refine List.filterMap_congr fun i hi => ?_
  obtain ⟨more, hmore⟩ := hrequests
  rw [← hmore, List.getElem?_append_left (h.handled_lt i hi)]

/-- Picking the elements of a list by their indices, in order, is picking them from the list. -/
theorem range_filterMap_getElem {α β : Type*} (l : List α) (f : α → Option β) :
    (List.range l.length).filterMap (fun i => l[i]?.bind f) = l.filterMap f := by
  induction l using List.reverseRecOn with
  | nil => rfl
  | append_singleton l x ih =>
    have hsame : (List.range l.length).filterMap (fun i => (l ++ [x])[i]?.bind f) =
        (List.range l.length).filterMap fun i => l[i]?.bind f := by
      refine List.filterMap_congr fun i hi => ?_
      rw [List.getElem?_append_left (List.mem_range.mp hi)]
    rw [List.length_append, List.length_singleton, List.range_succ, List.filterMap_append, hsame,
      ih, List.filterMap_append, List.filterMap_cons, List.filterMap_cons,
      List.getElem?_concat_length]
    rfl

/-- What is picked from a list, each at most once, is in the list as often. -/
theorem filterMap_getElem_subperm {α β : Type*} (l : List α) (f : α → Option β) {is : List ℕ}
    (hnodup : is.Nodup) (hlt : ∀ i ∈ is, i < l.length) :
    (is.filterMap fun i => l[i]?.bind f).Subperm (l.filterMap f) := by
  obtain ⟨is', hperm, hsub⟩ := hnodup.subperm fun i hi => List.mem_range.mpr (hlt i hi)
  rw [← range_filterMap_getElem l f]
  exact ⟨_, hperm.filterMap _, hsub.filterMap _⟩

/-- **At most once**: servants are called for what was read, each time at most once. -/
theorem Accounts.once (h : Accounts site s notes) (e : Endpoint) :
    ((servedOn e notes).map Prod.fst).Subperm (requestsOn site s e) := by
  refine (h.served e).subperm.trans ((filterMap_getElem_subperm s.server.requests _ h.nodup_handled
    h.handled_lt).trans (List.Sublist.subperm ?_))
  have hsame : requestsFrom (s.serialOf e) s.server.requests =
      s.server.requests.filterMap fun recv =>
        if recv.serial = s.serialOf e then some recv.data.buffer else none := by
    refine List.filterMap_congr fun recv hrecv => ?_
    rw [h.filed.requests hrecv]
    simp
  rw [← hsame, requestsOn, held, requestsFrom_append]
  exact List.sublist_append_left _ _

/-- An accept is noted with the number of the connection. -/
theorem logged_accept {n scIovMax : ℕ} {t t' : NetServer} {past : List NetNote}
    (hstep : t.notedStep n scIovMax a = some (t', es)) (hle : t.accepts ≤ w)
    (hlt : w < t.accepts + accepted a) :
    ∃ thread uid fd, .accepted w thread uid fd ∈ eventsIn past ++ eventsIn es := by
  obtain ⟨⟨u, events⟩, hplain, heq⟩ := Option.map_eq_some_iff.mp hstep
  obtain ⟨rfl, rfl⟩ := Prod.mk.inj heq
  cases a with
  | accept lfd fd ip port =>
    obtain ⟨-, uid, free, -, rfl, -⟩ := accept_eq_some hplain
    obtain rfl : w = t.accepts := by
      rw [accepted] at hlt
      omega
    refine ⟨fd % n, uid, fd, List.mem_append_right _ ?_⟩
    rw [eventsIn_append, eventsIn_events]
    exact List.mem_append_right _ List.mem_cons_self
  | _ => exact absurd hlt (Nat.not_lt.mpr hle)

/-- **A step of the server** keeps the accounts. It may accept a socket, and a handler may take a
request. -/
theorem Accounts.advance (h : Accounts site s notes)
    (hstep : s.server.notedStep site.netThreadNum site.scIovMax a = some (s'.server, es))
    (hclients : s'.clients = s.clients) (hhandled : s'.handled = s.handled)
    (hpassed : ∀ e, s'.passed e = { s.passed e with
      written := (s.passed e).written ++ (writtenBy (s.serialOf e) es).flatten })
    (hpeers : s'.peers = s.peers ∧ accepted a = 0 ∨ ∃ e fd ip port,
      a = .accept (site.target e.client) fd ip port ∧ s'.peers = s.peers ++ [e] ∧ e ∉ s.peers ∧
        e.fd < (s.trans e.client).kernel.created)
    (hadapters : s'.adapters = s.adapters ∧ s'.server.requests = s.server.requests ∨
      ∃ lfd, ∃ recv ∈ s.server.rbuffer lfd, recv.data.isClosed = false ∧
        s'.adapters = s.adapters ++ [lfd] ∧ s'.server.requests = s.server.requests ++ [recv]) :
    Accounts site s' (notes ++ es.map .net) := by
  obtain ⟨⟨t, events⟩, hplain, heq⟩ := Option.map_eq_some_iff.mp hstep
  obtain rfl : t = s'.server := (Prod.mk.inj heq).1
  have hgathers := h.filed.step h.ordered.inv hplain
  have hordered := h.ordered.step False.elim hstep
  have htrans (client : ℕ) : s'.trans client = s.trans client := by rw [trans, trans, hclients]
  have hrequests : s.server.requests <+: s'.server.requests := by
    obtain ⟨-, hsame⟩ | ⟨lfd, recv, -, -, -, hmore⟩ := hadapters
    · rw [hsame]
    · rw [hmore]
      exact List.prefix_append _ _
  have hgrows : s.peers <+: s'.peers := by
    obtain ⟨hsame, -⟩ | ⟨e, fd, ip, port, -, hmore, -⟩ := hpeers
    · rw [hsame]
    · rw [hmore]
      exact List.prefix_append _ _
  have hkept {w : ℕ} {e : Endpoint} (he : s.peers[w]? = some e) : s'.peers[w]? = some e := by
    obtain ⟨more, hmore⟩ := hgrows
    rw [← hmore, List.getElem?_append_left (List.getElem?_eq_some_iff.mp he).1, he]
  have hlength : s'.peers.length = s'.server.accepts := by
    rw [hgathers.accepts, ← h.length_peers]
    obtain ⟨hsame, hnone⟩ | ⟨e, fd, ip, port, rfl, hmore, -⟩ := hpeers
    · rw [hsame, hnone, Nat.add_zero]
    · rw [hmore, List.length_append]
      rfl
  -- Only sockets that are not accepted may be numbered in another way.
  have hserial (e : Endpoint) : s'.serialOf e = s.serialOf e ∨
      e ∉ s.peers ∧ e ∉ s'.peers ∧ writtenBy (s.serialOf e) es = [] := by
    obtain ⟨hsame, -⟩ | ⟨e', fd, ip, port, rfl, hmore, hnew, -⟩ := hpeers
    · exact .inl (by rw [serialOf, serialOf, hsame])
    · rw [serialOf, serialOf, hmore, List.idxOf_append]
      by_cases he : e ∈ s.peers
      · exact .inl (if_pos he)
      · rw [if_neg he, List.idxOf_eq_length he]
        by_cases hsame : e = e'
        · subst hsame
          exact .inl (by simp)
        · refine .inr ⟨he, by simp [he, hsame], ?_⟩
          exact h.ordered.writes hstep (by simp) _
  refine ⟨?_, hgathers.filed, hlength, ?_, ?_, ?_, ?_, ?_, ?_, ?_, ?_, ?_, ?_, ?_, ?_⟩
  · rw [netNotes_append, netNotes_net]
    exact hordered
  · obtain ⟨hsame, -⟩ | ⟨e, fd, ip, port, -, hmore, hnew, -⟩ := hpeers
    · rw [hsame]
      exact h.nodup_peers
    · rw [hmore, ← List.concat_eq_append]
      exact h.nodup_peers.concat hnew
  · intro e he
    rw [htrans]
    obtain ⟨hsame, -⟩ | ⟨e', fd, ip, port, -, hmore, -, hlt⟩ := hpeers
    · exact h.created (hsame ▸ he)
    · rw [hmore] at he
      obtain he | he := List.mem_append.mp he
      · exact h.created he
      · rw [List.mem_singleton.mp he]
        exact hlt
  · intro w e he thread uid c' hc' hw
    obtain ⟨c, hc, hkeep⟩ | ⟨hnew, lfd, fd, ip, port, rfl, hlfd⟩ := hgathers.connection hc'
    · have hlt := (h.ordered.inv.connections.stored hc).serial_lt
      rw [← h.length_peers, ← hkeep.serial, hw] at hlt
      rw [hkeep.lfd]
      refine h.at_target ?_ thread uid c hc (hkeep.serial.symm.trans hw)
      rw [List.getElem?_eq_getElem hlt]
      rw [List.getElem?_eq_getElem (hlt.trans_le hgrows.length_le)] at he
      rw [← he, hgrows.getElem hlt]
    · obtain ⟨-, hnone⟩ | ⟨e', fd', ip', port', heq, hmore, -⟩ := hpeers
      · cases hnone
      · obtain ⟨rfl, -⟩ := NetServer.NetAction.accept.inj heq
        rw [hmore, ← hw, hnew, ← h.length_peers, List.getElem?_concat_length] at he
        rw [hlfd, Option.some.inj he]
  · obtain ⟨hsame, hsame'⟩ | ⟨lfd, recv, -, -, hmore, hmore'⟩ := hadapters
    · rw [hsame, hsame']
      exact h.length_adapters
    · rw [hmore, hmore', List.length_append, List.length_append, h.length_adapters]
      rfl
  · intro i recv hrecv
    obtain ⟨hsame, hsame'⟩ | ⟨lfd, recv', hmem, hfresh, hmore, hmore'⟩ := hadapters
    · rw [hsame'] at hrecv
      obtain ⟨e, he, hadapter⟩ := h.adapter hrecv
      exact ⟨e, hkept he, by rw [hsame, hadapter]⟩
    · rw [hmore'] at hrecv
      by_cases hi : i < s.server.requests.length
      · rw [List.getElem?_append_left hi] at hrecv
        obtain ⟨e, he, hadapter⟩ := h.adapter hrecv
        refine ⟨e, hkept he, ?_⟩
        rw [hmore, List.getElem?_append_left (by rw [h.length_adapters]; exact hi), hadapter]
      · -- The request that was taken comes from the queue of its adapter.
        have hlast := (List.getElem?_eq_some_iff.mp hrecv).1
        rw [List.length_append, List.length_singleton] at hlast
        obtain rfl : i = s.server.requests.length := by omega
        rw [List.getElem?_concat_length] at hrecv
        obtain rfl := Option.some.inj hrecv
        obtain ⟨c, hc, hnumber⟩ := h.ordered.inv.queues.received hmem hfresh
        have hlt := (h.ordered.inv.connections.stored hc).serial_lt
        rw [← h.length_peers, hnumber] at hlt
        have he := List.getElem?_eq_getElem hlt
        have htarget := h.at_target he _ _ c hc hnumber
        rw [h.filed.adapter hmem hfresh hc hnumber] at htarget
        refine ⟨_, hkept he, ?_⟩
        rw [hmore, ← h.length_adapters, List.getElem?_concat_length, htarget]
  · intro i hi
    rw [hhandled] at hi
    exact (h.handled_lt i hi).trans_le hrequests.length_le
  · rw [hhandled]
    exact h.nodup_handled
  · intro e
    rw [servedOn_append, servedOn_eq_nil servedIn_net, List.append_nil,
      h.handledOn_mono hhandled hrequests]
    obtain heq | ⟨hout, -⟩ := hserial e
    · rw [heq]
      exact h.served e
    · rw [(h.absent hout).2.2]
      exact List.nil_sublist _
  · intro p hp
    rw [servedIn_append, servedIn_net, List.append_nil] at hp
    exact h.routed p hp
  · intro e
    rw [hpassed, netNotes_append, netNotes_net]
    obtain heq | ⟨hout, hout', hnone⟩ := hserial e
    · rw [heq, writtenBy_append, List.flatten_append, ← h.written]
    · -- Neither before nor after the step anything was written.
      have hfresh := (h.ordered.fresh (h.serialOf_absent hout).ge).2
      have hfresh' := (hordered.fresh (hlength ▸ (List.idxOf_eq_length hout').ge)).2
      show (s.passed e).written ++ (writtenBy (s.serialOf e) es).flatten = _
      rw [h.written, hfresh, hnone]
      exact (congrArg List.flatten hfresh').symm
  · intro w hw
    rw [netNotes_append, netNotes_net, eventsIn_append]
    by_cases hold : w < s.server.accepts
    · obtain ⟨thread, uid, fd, hmem⟩ := h.logged hold
      exact ⟨thread, uid, fd, List.mem_append_left _ hmem⟩
    · rw [hgathers.accepts] at hw
      exact logged_accept hstep (by omega) (by omega)
  · intro e he
    rw [hpassed, servedOn_append, servedOn_eq_nil servedIn_net, List.append_nil]
    exact h.absent fun hmem => he (hgrows.subset hmem)

/-- A connection has the adapter that the client wants. -/
theorem Accounts.at_serialOf (h : Accounts site s notes) (e : Endpoint) :
    s.server.At (site.target e.client) (s.serialOf e) := by
  by_cases he : e ∈ s.peers
  · exact h.at_target (peers_serialOf he)
  · intro thread uid c hc hserial
    have hlt := (h.ordered.inv.connections.stored hc).serial_lt
    rw [hserial, h.serialOf_absent he] at hlt
    exact absurd hlt (lt_irrefl _)

/-- A socket that was accepted has a connection of its number, open or closed, since connections are
never removed. -/
theorem Accounts.connected (h : Accounts site s notes) (he : e ∈ s.peers) :
    ∃ thread uid c, s.server.connection thread uid = some c ∧ c.serial = s.serialOf e := by
  obtain ⟨thread, uid, fd, hmem⟩ := h.logged (h.length_peers ▸ List.idxOf_lt_length_of_mem he)
  exact ⟨thread, uid, h.ordered.inv.connections.accepted hmem⟩

/-- Nothing has passed through a socket that is not accepted. -/
theorem Accounts.passed_absent (h : Accounts site s notes) (he : e ∉ s.peers) :
    requestsOn site s e = [] ∧ (s.passed e).written = [] := by
  have hserial := (h.serialOf_absent he).ge
  refine ⟨held_of_fresh h.ordered.inv hserial _, ?_⟩
  rw [h.written, (h.ordered.fresh hserial).2]
  rfl

/-- What `serve` does: a step of the server, after which its writes are on the connections. -/
theorem serve_eq_some (hserve : s.serve site a = some (s', new)) :
    ∃ es, s.server.notedStep site.netThreadNum site.scIovMax a = some (s'.server, es) ∧
      new = es.map .net ∧ s'.clients = s.clients ∧ s'.peers = s.peers ∧
      s'.adapters = s.adapters ∧ s'.handled = s.handled ∧
      ∀ e, s'.passed e = { s.passed e with
        written := (s.passed e).written ++ (writtenBy (s.serialOf e) es).flatten } := by
  obtain ⟨⟨server, es⟩, hstep, heq⟩ := Option.map_eq_some_iff.mp hserve
  obtain ⟨rfl, rfl⟩ := Prod.mk.inj heq
  exact ⟨es, hstep, rfl, rfl, rfl, rfl, rfl, fun _ => rfl⟩

/-- A step of the server that neither accepts nor takes. -/
theorem Accounts.serve (h : Accounts site s notes) (hserve : s.serve site a = some (s', new))
    (haccept : accepted a = 0) (htake : ∀ lfd, a ≠ .take lfd) :
    Accounts site s' (notes ++ new) ∧ s'.clients = s.clients ∧ s'.peers = s.peers ∧
      ∀ e, requestsOn site s' e = requestsOn site s e ++
        batchesFrom (s.serialOf e) (s.server.batches a) := by
  obtain ⟨es, hstep, rfl, hclients, hpeers, hadapters, hhandled, hpassed⟩ := serve_eq_some hserve
  obtain ⟨⟨t, events⟩, hplain, heq⟩ := Option.map_eq_some_iff.mp hstep
  obtain rfl : t = s'.server := (Prod.mk.inj heq).1
  have hgathers := h.filed.step h.ordered.inv hplain
  have hrequests : s'.server.requests = s.server.requests := by
    obtain hsame | ⟨lfd, recv, htaken, -⟩ := hgathers.requests
    · exact hsame
    · exact absurd htaken (htake lfd)
  refine ⟨h.advance hstep hclients hhandled hpassed (.inl ⟨hpeers, haccept⟩)
    (.inl ⟨hadapters, hrequests⟩), hclients, hpeers, fun e => ?_⟩
  rw [requestsOn, requestsOn, serialOf, hpeers]
  exact hgathers.held (h.at_serialOf e)

/-- What was sent and what was answered, where nothing else is. -/
theorem Accounts.responds (h : Accounts site s notes) (h' : Accounts site s' (notes ++ new))
    (hresponds : Responds s notes) (hserved : servedIn new = [])
    (hsent : ∀ w, sentTo w (netNotes new) = []) (hpeers : s.peers <+: s'.peers)
    (hsame : ∀ e ∈ s'.peers, s'.serialOf e = s.serialOf e) : Responds s' (notes ++ new) := by
  intro e
  rw [servedOn_append, servedOn_eq_nil hserved, List.append_nil]
  by_cases he : e ∈ s'.peers
  · rw [netNotes_append, sentTo_append, hsent, List.append_nil, hsame e he]
    exact hresponds e
  · rw [(h'.ordered.fresh (h'.serialOf_absent he).ge).1,
      (h.absent fun hmem => he (hpeers.subset hmem)).2.2]
    rfl

/-- That a socket is accepted keeps the accounts. It gets the next number, and nothing was read from
it or sent to it before. -/
theorem Accounts.accept (h : Accounts site s notes) {fd port : ℕ} {ip : Bytes}
    (haccept : s.accept site e fd ip port = some (s', new)) :
    Accounts site s' (notes ++ new) ∧ s'.clients = s.clients ∧ s'.passed = s.passed ∧
      (∀ e, requestsOn site s' e = requestsOn site s e) ∧ servedIn new = [] ∧
      (Responds s notes → Responds s' (notes ++ new)) ∧
      (∀ client, issuedBy client new = [] ∧ finishedBy client new = []) ∧
      ∀ e, requestsOn site s' e = requestsOn site s e ++ readOn e new := by
  unfold RemoteCalls.accept at haccept
  split at haccept
  · rename_i hguard
    obtain ⟨⟨t, es'⟩, hserve, heq⟩ := Option.map_eq_some_iff.mp haccept
    obtain ⟨rfl, rfl⟩ := Prod.mk.inj heq
    obtain ⟨es, hstep, rfl, hclients, -, hadapters, hhandled, hpassed⟩ := serve_eq_some hserve
    obtain ⟨⟨server, events⟩, hplain, heq⟩ := Option.map_eq_some_iff.mp hstep
    obtain rfl : server = t.server := (Prod.mk.inj heq).1
    have hgathers := h.filed.step h.ordered.inv hplain
    have hrequests : t.server.requests = s.server.requests := by
      obtain hsame | ⟨lfd, recv, htaken, -⟩ := hgathers.requests
      · exact hsame
      · cases htaken
    have hnever := h.ordered.writes hstep (by simp)
    have hsame : t.passed = s.passed := by
      funext e'
      rw [hpassed, hnever, List.flatten_nil, List.append_nil]
    have hmem (e' : Endpoint) (he' : e' ∈ s.peers ++ [e]) :
        (s.peers ++ [e]).idxOf e' = s.peers.idxOf e' := by
      rw [List.idxOf_append]
      by_cases hold : e' ∈ s.peers
      · exact if_pos hold
      · obtain rfl := List.mem_singleton.mp ((List.mem_append.mp he').resolve_left hold)
        rw [if_neg hold, List.idxOf_eq_length hold]
        simp
    have hnext : Accounts site { t with peers := s.peers ++ [e] } (notes ++ es.map .net) :=
      h.advance hstep hclients hhandled hpassed
        (.inr ⟨e, fd, ip, port, rfl, rfl, hguard.2, hguard.1⟩) (.inl ⟨hadapters, hrequests⟩)
    have hrequestsOn (e' : Endpoint) :
        requestsOn site { t with peers := s.peers ++ [e] } e' = requestsOn site s e' := by
      by_cases he' : e' ∈ s.peers ++ [e]
      · have hheld := hgathers.held (h.at_serialOf e')
        rw [requestsOn, requestsOn, serialOf, hmem e' he']
        exact hheld.trans (List.append_nil _)
      · -- Nothing was read from other sockets.
        have hold : e' ∉ s.peers := fun hmem => he' (List.mem_append_left _ hmem)
        rw [requestsOn, requestsOn, held_of_fresh hnext.ordered.inv (hnext.serialOf_absent he').ge,
          held_of_fresh h.ordered.inv (h.serialOf_absent hold).ge]
    refine ⟨hnext, hclients, hsame, hrequestsOn, servedIn_net, fun hresponds => ?_,
      fun client => ⟨issuedBy_net, finishedBy_net⟩, fun e' => ?_⟩
    · refine h.responds hnext hresponds servedIn_net (fun w => ?_) (List.prefix_append _ _) hmem
      rw [netNotes_net]
      obtain rfl := (Prod.mk.inj heq).2
      rw [sentTo_append, sentTo_events]
      rfl
    · rw [hrequestsOn, readOn_net, List.append_nil]
  · cases haccept

/-- That a handler takes a request keeps the accounts: the record gets the adapter of the queue it
was taken from. -/
theorem Accounts.take (h : Accounts site s notes) {lfd : ℕ}
    (htake : s.take site lfd = some (s', new)) :
    Accounts site s' (notes ++ new) ∧ s'.clients = s.clients ∧ s'.passed = s.passed ∧
      (∀ e, requestsOn site s' e = requestsOn site s e) ∧ servedIn new = [] ∧
      (Responds s notes → Responds s' (notes ++ new)) ∧
      (∀ client, issuedBy client new = [] ∧ finishedBy client new = []) ∧
      ∀ e, requestsOn site s' e = requestsOn site s e ++ readOn e new := by
  obtain ⟨⟨t, es'⟩, hserve, heq⟩ := Option.map_eq_some_iff.mp htake
  obtain ⟨rfl, rfl⟩ := Prod.mk.inj heq
  obtain ⟨es, hstep, rfl, hclients, hpeers, -, hhandled, hpassed⟩ := serve_eq_some hserve
  obtain ⟨⟨server, events⟩, hplain, heq⟩ := Option.map_eq_some_iff.mp hstep
  obtain rfl : server = t.server := (Prod.mk.inj heq).1
  have hgathers := h.filed.step h.ordered.inv hplain
  have hnever := h.ordered.writes hstep (by simp)
  have hsame : t.passed = s.passed := by
    funext e'
    rw [hpassed, hnever, List.flatten_nil, List.append_nil]
  let taken := t.server.requests.length - s.server.requests.length
  have hnext : Accounts site { t with adapters := s.adapters ++ List.replicate taken lfd }
      (notes ++ es.map .net) := by
    refine h.advance hstep hclients hhandled hpassed (.inl ⟨hpeers, rfl⟩) ?_
    obtain hold | ⟨lfd', recv, heq, hmem, hfresh, hmore⟩ := hgathers.requests
    · refine .inl ⟨?_, hold⟩
      show s.adapters ++ List.replicate taken lfd = s.adapters
      simp [taken, hold]
    · obtain rfl := NetServer.NetAction.take.inj heq
      refine .inr ⟨lfd, recv, hmem, hfresh, ?_, hmore⟩
      show s.adapters ++ List.replicate taken lfd = s.adapters ++ [lfd]
      simp [taken, hmore]
  have hserial (e : Endpoint) : t.peers.idxOf e = s.serialOf e := by rw [hpeers, serialOf]
  have hrequestsOn (e : Endpoint) :
      requestsOn site { t with adapters := s.adapters ++ List.replicate taken lfd } e =
        requestsOn site s e := by
    have hheld := hgathers.held (h.at_serialOf e)
    rw [requestsOn, requestsOn, serialOf, hserial]
    exact hheld.trans (List.append_nil _)
  refine ⟨hnext, hclients, hsame, hrequestsOn, servedIn_net, fun hresponds => ?_, fun client =>
    ⟨issuedBy_net, finishedBy_net⟩, fun e => ?_⟩
  · refine h.responds hnext hresponds servedIn_net (fun w => ?_) (hpeers ▸ List.prefix_rfl)
      fun e _ => hserial e
    rw [netNotes_net]
    obtain rfl := (Prod.mk.inj heq).2
    rw [sentTo_append, sentTo_events]
    rfl
  · rw [hrequestsOn, readOn_net, List.append_nil]

/-- How much was read on each side does not matter for the accounts, where it is zero for sockets
that are not accepted. -/
theorem Accounts.reads (h : Accounts site s notes) {passed : Endpoint → Passed}
    (hwritten : ∀ e, (passed e).written = (s.passed e).written)
    (habsent : ∀ e, e ∉ s.peers → passed e = s.passed e) :
    Accounts site { s with passed } notes :=
  ⟨h.ordered, h.filed, h.length_peers, h.nodup_peers, h.created, h.at_target, h.length_adapters,
    h.adapter, h.handled_lt, h.nodup_handled, h.served, h.routed,
    fun e => (hwritten e).trans (h.written e), h.logged, fun {e} he => by
      show (passed e).read = 0 ∧ (passed e).got = 0 ∧ servedOn e notes = []
      rw [habsent e he]
      exact h.absent he⟩

/-- What clients do keeps the accounts, since their sockets stay and the notes are not about the
server. -/
theorem Accounts.clients (h : Accounts site s notes) {clients : ℕ → ProxyRun}
    (hcreated : ∀ client, (s.trans client).kernel.created ≤
      (clients client).proxy.trans.kernel.created)
    (hnet : netNotes new = []) (hserved : servedIn new = []) :
    Accounts site { s with clients } (notes ++ new) := by
  have hnet' : netNotes (notes ++ new) = netNotes notes := by
    rw [netNotes_append, hnet, List.append_nil]
  have hserved' : servedIn (notes ++ new) = servedIn notes := by
    rw [servedIn_append, hserved, List.append_nil]
  have hon (e : Endpoint) : servedOn e (notes ++ new) = servedOn e notes := by
    rw [servedOn, servedOn, hserved']
  refine ⟨?_, h.filed, h.length_peers, h.nodup_peers, fun he =>
    (h.created he).trans_le (hcreated _), h.at_target, h.length_adapters, h.adapter, h.handled_lt,
    h.nodup_handled, fun e => ?_, ?_, fun e => ?_, ?_, fun {e} he => ?_⟩
  · rw [hnet']
    exact h.ordered
  · rw [hon]
    exact h.served e
  · rw [hserved']
    exact h.routed
  · rw [hnet']
    exact h.written e
  · rw [hnet']
    exact h.logged
  · rw [hon]
    exact h.absent he

/-- A handler that is not short of a coroutine calls the servant once, for the socket of the
request. -/
theorem calls_served (s : RemoteCalls) (servant : Servant) (call : Call) (recv : TagRecvData)
    {w : ℕ} (he : s.peers[w]? = some e) {mode : ServantHandle.Mode} (hmode : mode ≠ .coroutine 0) :
    s.calls servant call recv w mode =
      [.served e recv.buffer (servant.dispatch call recv.buffer)] := by
  cases mode with
  | thread =>
    simp only [calls, he]
    rfl
  | coroutine iRet =>
    cases iRet with
    | zero => exact absurd rfl hmode
    | succ iRet =>
      simp only [calls, he]
      rfl

/-- A handler calls the servant once, for the socket of the request, or not at all. -/
theorem calls_cases (s : RemoteCalls) (servant : Servant) (call : Call) (recv : TagRecvData)
    {w : ℕ} (he : s.peers[w]? = some e) (mode : ServantHandle.Mode) :
    s.calls servant call recv w mode = [] ∨ s.calls servant call recv w mode =
      [.served e recv.buffer (servant.dispatch call recv.buffer)] := by
  by_cases hmode : mode = .coroutine 0
  · rw [hmode]
    exact .inl rfl
  · exact .inr (calls_served s servant call recv he hmode)

/-- That a request is handled keeps the accounts: its number is marked, so no handler takes it
again. -/
theorem Accounts.handles (h : Accounts site s notes) {i lfd : ℕ} {recv : ReceivedRecord}
    (hrecv : s.server.requests[i]? = some recv) (hlfd : s.adapters[i]? = some lfd)
    (hi : i ∉ s.handled) (call : Call) (mode : ServantHandle.Mode) :
    Accounts site { s with handled := s.handled ++ [i] }
      (notes ++ s.calls (site.servant lfd) call recv.data recv.serial mode) := by
  obtain ⟨e, he, hadapter⟩ := h.adapter hrecv
  obtain rfl : lfd = site.target e.client := Option.some.inj (hlfd.symm.trans hadapter)
  have hserial := h.serialOf_eq he
  have hon (w : ℕ) : handledOn { s with handled := s.handled ++ [i] } w =
      s.handledOn w ++ if recv.serial = w then [recv.data.buffer] else [] := by
    rw [handledOn, List.filterMap_append, List.filterMap_cons, hrecv]
    refine congrArg (s.handledOn w ++ ·) ?_
    by_cases hw : recv.serial = w <;> simp [hw]
  have hcalls := calls_cases s (site.servant (site.target e.client)) call recv.data he mode
  generalize s.calls (site.servant (site.target e.client)) call recv.data recv.serial mode = new
    at hcalls
  have hnet : netNotes (notes ++ new) = netNotes notes := by
    rw [netNotes_append]
    obtain rfl | rfl := hcalls <;> exact List.append_nil _
  refine ⟨?_, h.filed, h.length_peers, h.nodup_peers, h.created, h.at_target, h.length_adapters,
    h.adapter, ?_, ?_, fun e' => ?_, ?_, fun e' => ?_, ?_, fun {e'} he' => ?_⟩
  · rw [hnet]
    exact h.ordered
  · intro j hj
    obtain hj | hj := List.mem_append.mp hj
    · exact h.handled_lt j hj
    · rw [List.mem_singleton.mp hj]
      exact (List.getElem?_eq_some_iff.mp hrecv).1
  · show (s.handled ++ [i]).Nodup
    rw [← List.concat_eq_append]
    exact h.nodup_handled.concat hi
  · rw [servedOn_append, List.map_append]
    have hsame : serialOf { s with handled := s.handled ++ [i] } e' = s.serialOf e' := rfl
    rw [hsame, hon]
    refine (h.served e').append ?_
    obtain rfl | rfl := hcalls
    · exact List.nil_sublist _
    · by_cases heq : e = e'
      · subst heq
        rw [if_pos hserial.symm]
        simp [servedOn, servedIn]
      · simp [servedOn, servedIn, heq]
  · intro p hp
    rw [servedIn_append] at hp
    obtain hp | hp := List.mem_append.mp hp
    · exact h.routed p hp
    · obtain rfl | rfl := hcalls
      · exact absurd hp List.not_mem_nil
      · rw [List.mem_singleton.mp hp]
        exact ⟨call, rfl⟩
  · rw [hnet]
    exact h.written e'
  · rw [hnet]
    exact h.logged
  · obtain ⟨hread, hgot, hnone⟩ := h.absent he'
    refine ⟨hread, hgot, ?_⟩
    rw [servedOn_append, hnone]
    obtain rfl | rfl := hcalls
    · rfl
    · have hne : e ≠ e' := by
        rintro rfl
        exact he' (List.mem_of_getElem? he)
      simp [servedOn, servedIn, hne]

end Accounts

end RemoteCalls

end Tars
