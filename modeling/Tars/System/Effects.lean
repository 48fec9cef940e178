import Tars.System.Accounts

/-!
# What a step of the server does

Most steps of the server leave the connections alone. The others read from one socket, write to one,
or call a servant for one.
-/

namespace Tars

namespace RemoteCalls

open NetServer ObjectProxy

/-- The actions of the server, as opposed to those of the clients. -/
def OfServer : RemoteAction → Prop
  | .invoke _ _ _ _ | .output _ _ _ | .input _ _ => False
  | _ => True

/-- What a step of the server does to the connections. -/
inductive Effect (site : Site) (s s' : RemoteCalls) (notes new : List RemoteNote)
    (a : RemoteAction) : Prop where
  /-- It touches no connection: no bytes move, no request is taken up, and no servant is called. -/
  | quiet (passed : s'.passed = s.passed)
    (requests : ∀ e, requestsOn site s' e = requestsOn site s e) (served : servedIn new = [])
  /-- It reads from a socket, and the batch that it read becomes a request. -/
  | read (e : Endpoint) (answers : List ReadResult)
    (front : Connection.readBy answers <+: s.unread e)
    (whole : Whole e.client s a → Connection.readBy answers = [] ∨
      s.Awaits e.client (Connection.readBy answers))
    (passed : s'.passed = (s.serverReads e (Connection.readBy answers).length).passed)
    (requests : ∀ e', requestsOn site s' e' = requestsOn site s e' ++
      if e' = e then (Connection.batchOf answers).toList.filter (· ≠ []) else [])
    (served : servedIn new = [])
  /-- It writes to a socket: the kernel takes a front of the next response that is due there. -/
  | wrote (e : Endpoint) (buffer took : Bytes) (front rest : List Bytes)
    (whole : Whole e.client s a → took = [] ∨ took = buffer)
    (passed : ∀ e', s'.passed e' = { s.passed e' with
      written := (s.passed e').written ++ if e' = e then took else [] })
    (responses : (servedOn e notes).filterMap responded = front ++ buffer :: rest)
    (first : front = [] → (s.passed e).written = [])
    (requests : ∀ e, requestsOn site s' e = requestsOn site s e) (served : servedIn new = [])
  /-- It calls a servant with the next request of a socket. -/
  | served (e : Endpoint) (request : Bytes) (outcome : Outcome) (passed : s'.passed = s.passed)
    (requests : ∀ e, requestsOn site s' e = requestsOn site s e)
    (served : servedIn new = [(e, request, outcome)])

/-- What is known after a step of the server. -/
structure ServerStep (site : Site) (s s' : RemoteCalls) (notes new : List RemoteNote)
    (a : RemoteAction) : Prop where
  /-- The accounts of the requests hold again, with the new notes. -/
  accounts : Accounts site s' (notes ++ new)
  /-- The responses are still those of the requests that were handled. -/
  responds : Responds s' (notes ++ new)
  /-- The clients do nothing in a step of the server. -/
  clients : s'.clients = s.clients
  /-- They send and finish nothing. -/
  silent (client : ℕ) : issuedBy client new = [] ∧ finishedBy client new = []
  /-- The batches that the server reads from a socket are behind its other requests. -/
  reads (e : Endpoint) : requestsOn site s' e = requestsOn site s e ++ readOn e new
  /-- What the step does to the connections is one of the effects. -/
  effect : Effect site s s' notes new a

section Steps

variable {site : Site} {s s' : RemoteCalls} {notes new : List RemoteNote} {es : List NetNote}
  {e : Endpoint} {a : NetServer.NetAction} {b : RemoteAction}

/-- Only a handler that responds sends: no other step of the server notes a response. -/
theorem sentTo_of_notedStep {n scIovMax : ℕ} {t t' : NetServer}
    (hstep : t.notedStep n scIovMax a = some (t', es))
    (hrespond : ∀ request buffer, a ≠ .respond request buffer) (w : ℕ) : sentTo w es = [] := by
  obtain ⟨⟨u, events⟩, -, heq⟩ := Option.map_eq_some_iff.mp hstep
  obtain rfl := (Prod.mk.inj heq).2
  rw [sentTo_append, sentTo_events, List.append_nil]
  cases a with
  | respond request buffer => exact absurd rfl (hrespond request buffer)
  | _ => rfl

/-- **A step of the server** that neither accepts nor takes nor responds, and writes nothing. -/
theorem serverStep_of_serve (h : Accounts site s notes) (hresponds : Responds s notes)
    (hserve : s.serve site a = some (s', new)) (haccept : accepted a = 0)
    (htake : ∀ lfd, a ≠ .take lfd) (hrespond : ∀ request buffer, a ≠ .respond request buffer) :
    Accounts site s' (notes ++ new) ∧ Responds s' (notes ++ new) ∧ servedIn new = [] ∧
      ∀ client, issuedBy client new = [] ∧ finishedBy client new = [] := by
  obtain ⟨hnext, hclients, hpeers, -⟩ := h.serve hserve haccept htake
  obtain ⟨es, hstep, rfl, -⟩ := serve_eq_some hserve
  refine ⟨hnext, ?_, servedIn_net, fun client => ⟨issuedBy_net, finishedBy_net⟩⟩
  refine h.responds hnext hresponds servedIn_net (fun w => ?_) (hpeers ▸ List.prefix_rfl)
    fun e _ => by rw [serialOf, serialOf, hpeers]
  rw [netNotes_net]
  exact sentTo_of_notedStep hstep hrespond w

/-- A step other than `processPipe` writes nothing, so the connections stay as they are. -/
theorem passed_of_serve (h : Accounts site s notes) (hserve : s.serve site a = some (s', new))
    (hpipe : ∀ thread answer, a ≠ .pipe thread answer) : s'.passed = s.passed := by
  obtain ⟨es, hstep, -, -, -, -, -, hpassed⟩ := serve_eq_some hserve
  funext e
  rw [hpassed, h.ordered.writes hstep hpipe, List.flatten_nil, List.append_nil]

/-- What was read from one connection is found under its number, and under no other. -/
theorem batchesFrom_map (w w' : ℕ) (bs : List Bytes) :
    batchesFrom w' (bs.map (w, ·)) = if w = w' then bs else [] := by
  by_cases hw : w = w' <;> simp [batchesFrom, List.filter_map, Function.comp_def, hw]

/-- A step of the server that reads nothing, takes nothing and writes nothing. -/
theorem serverStep_quiet (h : Accounts site s notes) (hresponds : Responds s notes)
    (hserve : s.serve site a = some (s', new)) (haccept : accepted a = 0)
    (htake : ∀ lfd, a ≠ .take lfd) (hrespond : ∀ request buffer, a ≠ .respond request buffer)
    (hreads : s.server.batches a = []) (hwrites : s'.passed = s.passed) :
    ServerStep site s s' notes new b := by
  obtain ⟨hnext, hresponds', hserved, hsilent⟩ :=
    serverStep_of_serve h hresponds hserve haccept htake hrespond
  obtain ⟨-, hclients, -, hrequests⟩ := h.serve hserve haccept htake
  have hsame (e : Endpoint) : requestsOn site s' e = requestsOn site s e := by
    rw [hrequests, hreads]
    exact List.append_nil _
  obtain ⟨es, -, rfl, -⟩ := serve_eq_some hserve
  refine ⟨hnext, hresponds', hclients, hsilent, fun e => ?_, .quiet hwrites hsame hserved⟩
  rw [hsame, readOn_net, List.append_nil]

/-- That the server has read a batch is no response. -/
theorem Responds.read (hresponds : Responds s notes) (e : Endpoint) (batches : List Bytes) :
    Responds s (notes ++ batches.map (.read e)) := by
  obtain ⟨hnonet, hnoserved, -⟩ := notes_of_read e batches
  intro e'
  rw [netNotes_append, hnonet, List.append_nil, servedOn_append, servedOn_eq_nil hnoserved,
    List.append_nil]
  exact hresponds e'

/-- `processNet` reads a batch from the socket that is reported, or nothing that is filed. -/
theorem serverStep_net (h : Accounts site s notes) (hresponds : Responds s notes)
    {thread uid : ℕ} {report : NetReport} (hstep : s.net site thread uid report = some (s', new)) :
    ServerStep site s s' notes new (.net thread uid report) := by
  unfold RemoteCalls.net at hstep
  split at hstep
  · rename_i hreading
    refine serverStep_quiet h hresponds hstep rfl (by simp) (by simp) ?_
      (passed_of_serve h hstep (by simp))
    rw [batches, hreading]
  · rename_i c answers hreading
    split at hstep
    · cases hstep
    rename_i e he
    dsimp only at hstep
    split at hstep
    · rename_i hfront
      let count := (Connection.readBy answers).length
      have hmem := List.mem_of_getElem? he
      have hread : Accounts site (s.serverReads e count) notes := by
        refine h.reads (fun e' => ?_) fun e' he' => ?_
        · rw [Function.update_apply]
          split
          · rename_i heq
            rw [heq]
          · rfl
        · exact Function.update_of_ne (by rintro rfl; exact he' hmem) _ _
      have hbatches : s.server.batches (.net thread uid report) =
          ((Connection.batchOf answers).toList.filter (· ≠ [])).map (c.serial, ·) := by
        rw [batches, hreading]
      obtain ⟨⟨t, more⟩, hserve, heq⟩ := Option.map_eq_some_iff.mp hstep
      obtain ⟨rfl, rfl⟩ := Prod.mk.inj heq
      generalize hbatch : (Connection.batchOf answers).toList.filter (· ≠ []) = batches at hbatches
      have hsnd : (s.server.batches (.net thread uid report)).map Prod.snd = batches := by
        rw [hbatches, List.map_map]
        exact List.map_id'' (fun _ => rfl) batches
      rw [hsnd]
      obtain ⟨hnonet, hnoserved, hnotes⟩ := notes_of_read e batches
      have hnoted : Accounts site (s.serverReads e count) (notes ++ batches.map (.read e)) :=
        hread.clients (fun _ => le_rfl) hnonet hnoserved
      obtain ⟨hnext, hresponds', hserved, hsilent⟩ := serverStep_of_serve hnoted
        (hresponds.read e batches) hserve rfl (by simp) (by simp)
      obtain ⟨-, hclients, -, hrequests⟩ := hread.serve hserve rfl (by simp)
      have hmore (e' : Endpoint) : requestsOn site t e' =
          requestsOn site s e' ++ if e' = e then batches else [] := by
        refine (hrequests e').trans (congrArg (requestsOn site s e' ++ ·) ?_)
        have hserial : (s.serverReads e count).serialOf e' = s.serialOf e' := rfl
        rw [show (s.serverReads e count).server.batches (.net thread uid report) = _ from hbatches,
          hserial, batchesFrom_map, ← h.serialOf_eq he]
        by_cases heq : e' = e
        · rw [if_pos heq, if_pos (congrArg s.serialOf heq.symm)]
        · rw [if_neg heq, if_neg fun hsame => heq (serialOf_inj hmem hsame.symm)]
      obtain ⟨es, -, rfl, -⟩ := serve_eq_some hserve
      rw [List.append_assoc] at hnext hresponds'
      refine ⟨hnext, hresponds', hclients, fun client => ?_, fun e' => ?_,
        .read e answers hfront (fun hwhole => ?_) (passed_of_serve hread hserve (by simp)) ?_ ?_⟩
      · simp [hnotes client]
      · rw [hmore, readOn_append, readOn_read, readOn_net, List.append_nil]
      · exact hwhole (c, answers) hreading (by rw [clientOf, he]; rfl)
      · rw [hbatch]
        exact hmore
      · rw [servedIn_append, hnoserved, servedIn_net]
        rfl
    · cases hstep

/-- That `processPipe` starts moves commands within the server, which no connection shows. -/
theorem serverStep_swap (h : Accounts site s notes) (hresponds : Responds s notes) {thread : ℕ}
    (hserve : s.serve site (.swap thread) = some (s', new)) :
    ServerStep site s s' notes new (.swap thread) :=
  serverStep_quiet h hresponds hserve rfl (by simp) (by simp) rfl
    (passed_of_serve h hserve (by simp))

/-- `processPipe` handles a command: it writes the front of a response to the socket of its request,
or nothing. -/
theorem serverStep_pipe (h : Accounts site s notes) (hresponds : Responds s notes) {thread : ℕ}
    {answer : WriteResult} (hserve : s.serve site (.pipe thread answer) = some (s', new)) :
    ServerStep site s s' notes new (.pipe thread answer) := by
  obtain ⟨es, hstep, rfl, -, -, -, -, hpassed⟩ := serve_eq_some hserve
  obtain ⟨⟨t, events⟩, hplain, heq⟩ := Option.map_eq_some_iff.mp hstep
  obtain ⟨rfl, rfl⟩ := Prod.mk.inj heq
  obtain hnever | ⟨it, deSendData, c, buffer, ip, port, took, hdata, hcmd, hc, hserial, rfl,
    hwrites, front, rest, hsent, hfirst⟩ := h.ordered.pipe_writes hplain
  · refine serverStep_quiet h hresponds hserve rfl (by simp) (by simp) rfl (funext fun e => ?_)
    rw [hpassed e]
    show { s.passed e with written := (s.passed e).written ++
      (writtenBy (s.serialOf e) (events.map .event)).flatten } = s.passed e
    rw [hnever, List.flatten_nil, List.append_nil]
  obtain ⟨hnext, hresponds', hserved, hsilent⟩ := serverStep_of_serve h hresponds hserve rfl
    (by simp) (by simp)
  obtain ⟨-, hclients, -, hrequests⟩ := h.serve hserve rfl (by simp)
  have hlt := (h.ordered.inv.connections.stored hc).serial_lt
  rw [hserial, ← h.length_peers] at hlt
  have he := List.getElem?_eq_getElem hlt
  generalize s.peers[it.serial] = e at he
  have hnumber := h.serialOf_eq he
  have hsame (e' : Endpoint) : requestsOn site s' e' = requestsOn site s e' := by
    rw [hrequests]
    exact List.append_nil _
  refine ⟨hnext, hresponds', hclients, hsilent, fun e' => ?_, .wrote e buffer
    (Sender.tcpSend buffer (if c.sock = none then .error else answer)).took front rest ?_
    (fun e' => ?_) ?_ (fun hnone => ?_) hsame hserved⟩
  · rw [hsame, readOn_net, List.append_nil]
  · intro hwhole
    have htook := hwhole it (by rw [hdata]; rfl) (by rw [clientOf, he]; rfl)
    rw [hcmd] at htook
    split
    · exact .inl (tcpSend_error buffer)
    · exact htook
  · rw [hpassed e']
    show { s.passed e' with written := (s.passed e').written ++
      (writtenBy (s.serialOf e') (events.map .event)).flatten } = _
    rw [hwrites, ← hnumber]
    by_cases heq : e' = e
    · rw [if_pos heq, if_pos (congrArg s.serialOf heq.symm)]
    · rw [if_neg heq, if_neg fun hsame => heq (serialOf_inj (List.mem_of_getElem? he) hsame.symm)]
  · rw [← hresponds e, hnumber, hsent]
  · rw [h.written, hnumber, hfirst hnone]
    rfl

/-- What is sent for a request: the buffer if the servant returns, and a command to close or nothing
if it throws. -/
theorem replies_cases (servant : Servant) (call : Call) (recv : TagRecvData)
    {mode : ServantHandle.Mode} (hmode : mode ≠ .coroutine 0) :
    (∃ code buffer, servant.dispatch call recv.buffer = .ok (code, buffer) ∧
      ServantHandle.replies servant call recv mode =
        [.send recv.uid buffer recv.ip recv.port recv.fd]) ∨
    (∃ u, servant.dispatch call recv.buffer = .error u) ∧
      (ServantHandle.replies servant call recv mode = [] ∨
        ServantHandle.replies servant call recv mode = [.close recv.uid recv.fd]) := by
  cases hdispatch : servant.dispatch call recv.buffer with
  | ok r =>
    refine .inl ⟨r.1, r.2, rfl, ?_⟩
    have hhandle : ServantHandle.handle servant call recv =
        .ok (.send recv.uid r.2 recv.ip recv.port recv.fd) := by
      rw [ServantHandle.handle, hdispatch]
      rfl
    cases mode with
    | thread => rw [ServantHandle.replies, ServantHandle.threadReplies, hhandle]
    | coroutine iRet =>
      cases iRet with
      | zero => exact absurd rfl hmode
      | succ iRet => rw [ServantHandle.replies, ServantHandle.coroutineReplies, hhandle]
  | error u =>
    refine .inr ⟨⟨u, rfl⟩, ?_⟩
    have hhandle : ServantHandle.handle servant call recv = .error u := by
      rw [ServantHandle.handle, hdispatch]
      rfl
    cases mode with
    | thread =>
      right
      rw [ServantHandle.replies, ServantHandle.threadReplies, hhandle]
    | coroutine iRet =>
      left
      cases iRet with
      | zero => exact absurd rfl hmode
      | succ iRet => rw [ServantHandle.replies, ServantHandle.coroutineReplies, hhandle]

/-- If a call of a servant is noted together with its response, there still is a response for every
call that returns. -/
theorem Responds.served (hresponds : Responds s notes) {w : ℕ} (he : s.peers[w]? = some e)
    (hnumber : s.serialOf e = w) {request : Bytes} {outcome : Outcome}
    (hserved : servedIn new = [(e, request, outcome)])
    (hsent : ∀ w', sentTo w' (netNotes new) =
      if w = w' then (responded (request, outcome)).toList else [])
    (hpeers : s'.peers = s.peers) : Responds s' (notes ++ new) := by
  intro e'
  have hserial : s'.serialOf e' = s.serialOf e' := by rw [serialOf, serialOf, hpeers]
  rw [hserial, netNotes_append, sentTo_append, hresponds e', servedOn_append,
    List.filterMap_append, hsent]
  refine congrArg (_ ++ ·) ?_
  by_cases heq : e = e'
  · subst heq
    rw [if_pos hnumber.symm]
    have hone : servedOn e new = [(request, outcome)] := by simp [servedOn, hserved]
    rw [hone]
    cases hresponded : responded (request, outcome) <;> simp [hresponded]
  · have hother : w ≠ s.serialOf e' := by
      rintro rfl
      exact heq (serialOf_inj (List.mem_of_getElem? he) hnumber.symm).symm
    rw [if_neg hother]
    simp [servedOn, hserved, heq]

/-- A request is handled, and something is queued for the network thread. -/
theorem serverStep_served (hresponds : Responds s notes) {w : ℕ} (he : s.peers[w]? = some e)
    (hnumber : s.serialOf e = w) {request : Bytes} {outcome : Outcome} {handled : List ℕ}
    (hmid : Accounts site { s with handled } (notes ++ [.served e request outcome]))
    (hserve : serve site { s with handled } a = some (s', new)) (haccept : accepted a = 0)
    (htake : ∀ lfd, a ≠ .take lfd) (hpipe : ∀ thread answer, a ≠ .pipe thread answer)
    (hreads : s.server.batches a = [])
    (hsent : ∀ w', sentTo w' (netNotes new) =
      if w = w' then (responded (request, outcome)).toList else []) :
    ServerStep site s s' notes (.served e request outcome :: new) b := by
  obtain ⟨hnext, hclients, hpeers, hrequests⟩ := hmid.serve hserve haccept htake
  have hwrites := passed_of_serve hmid hserve hpipe
  obtain ⟨es, -, rfl, -⟩ := serve_eq_some hserve
  have hserved : servedIn (.served e request outcome :: es.map .net) = [(e, request, outcome)] := by
    simp
  have hsame (e' : Endpoint) : requestsOn site s' e' = requestsOn site s e' := by
    rw [hrequests, hreads]
    exact List.append_nil _
  rw [List.append_assoc] at hnext
  refine ⟨hnext, hresponds.served he hnumber hserved hsent hpeers, hclients, fun client => ?_,
    fun e' => ?_, .served e request outcome hwrites hsame hserved⟩
  · simp
  · rw [hsame, readOn_served, readOn_net, List.append_nil]

/-- A handler handles a request: the servant is called for the socket of the request, unless there
is no coroutine for it. -/
theorem serverStep_handle (h : Accounts site s notes) (hresponds : Responds s notes)
    {request : ℕ} {call : Call} {mode : ServantHandle.Mode}
    (hstep : s.handle site request call mode = some (s', new)) :
    ServerStep site s s' notes new (.handle request call mode) := by
  unfold RemoteCalls.handle at hstep
  split at hstep
  · rename_i recv lfd hrecv hlfd
    split at hstep
    · cases hstep
    rename_i hi
    dsimp only at hstep
    have hmid := h.handles hrecv hlfd hi call mode
    obtain ⟨e, he, -⟩ := h.adapter hrecv
    have hnumber := h.serialOf_eq he
    by_cases hmode : mode = .coroutine 0
    · -- There is no coroutine for the request.
      subst hmode
      obtain ⟨rfl, rfl⟩ := Prod.mk.inj (Option.some.inj hstep)
      refine ⟨hmid, ?_, rfl, fun client => ⟨rfl, rfl⟩, fun e => (List.append_nil _).symm,
        .quiet rfl (fun e => rfl) rfl⟩
      show Responds s (notes ++ [])
      rwa [List.append_nil]
    have hone := calls_served s (site.servant lfd) call recv.data he hmode
    rw [hone] at hmid hstep
    obtain ⟨code, buffer, hdispatch, hreplies⟩ | ⟨⟨u, hdispatch⟩, hreplies | hreplies⟩ :=
      replies_cases (site.servant lfd) call recv.data hmode
    · -- The response is sent.
      rw [hreplies] at hstep
      obtain ⟨⟨t, more⟩, hserve, heq⟩ := Option.map_eq_some_iff.mp hstep
      obtain ⟨rfl, rfl⟩ := Prod.mk.inj heq
      suffices hsent : ∀ w, sentTo w (netNotes more) = if recv.serial = w then
          (responded (recv.data.buffer, (site.servant lfd).dispatch call recv.data.buffer)).toList
          else [] from
        serverStep_served hresponds he hnumber hmid hserve rfl (by simp) (by simp) rfl hsent
      intro w
      obtain ⟨es, hnoted, rfl, -⟩ := serve_eq_some hserve
      obtain ⟨⟨t', events⟩, -, heq⟩ := Option.map_eq_some_iff.mp hnoted
      obtain rfl := (Prod.mk.inj heq).2
      have hsends : s.server.sending (.respond request buffer) = [.sent recv.serial buffer] := by
        simp only [sending, hrecv]
      rw [netNotes_net, sentTo_append, sentTo_events, List.append_nil, hdispatch, hsends]
      by_cases hw : recv.serial = w <;> simp [sentTo, responded, hw]
    · -- A coroutine catches the exception.
      rw [hreplies] at hstep
      obtain ⟨rfl, rfl⟩ := Prod.mk.inj (Option.some.inj hstep)
      refine ⟨hmid, hresponds.served he hnumber rfl (fun w => ?_) rfl, rfl,
        fun client => ⟨rfl, rfl⟩, fun e => (List.append_nil _).symm,
        .served e recv.data.buffer _ rfl (fun e => rfl) rfl⟩
      rw [hdispatch]
      split <;> rfl
    · -- The connection is closed.
      rw [hreplies] at hstep
      obtain ⟨⟨t, more⟩, hserve, heq⟩ := Option.map_eq_some_iff.mp hstep
      obtain ⟨rfl, rfl⟩ := Prod.mk.inj heq
      suffices hsent : ∀ w, sentTo w (netNotes more) = if recv.serial = w then
          (responded (recv.data.buffer, (site.servant lfd).dispatch call recv.data.buffer)).toList
          else [] from
        serverStep_served hresponds he hnumber hmid hserve rfl (by simp) (by simp) rfl hsent
      intro w
      obtain ⟨es, hnoted, rfl, -⟩ := serve_eq_some hserve
      rw [netNotes_net, sentTo_of_notedStep hnoted (by simp), hdispatch]
      split <;> rfl
  · cases hstep

/-- **A step of the server** keeps the accounts and the order of the responses, and has one of the
four effects on the connections. -/
theorem serverStep (h : Accounts site s notes) (hresponds : Responds s notes)
    (hof : OfServer b) (hstep : s.step site b = some (s', new)) :
    ServerStep site s s' notes new b := by
  cases b with
  | invoke client msg outcome answer | output client answer answers | input client answers =>
    exact hof.elim
  | accept e fd ip port =>
    obtain ⟨hnext, hclients, hpassed, hrequests, hserved, hkeeps, hsilent, hreads⟩ :=
      h.accept hstep
    exact ⟨hnext, hkeeps hresponds, hclients, hsilent, hreads, .quiet hpassed hrequests hserved⟩
  | net thread uid report => exact serverStep_net h hresponds hstep
  | swap thread => exact serverStep_swap h hresponds hstep
  | pipe thread answer => exact serverStep_pipe h hresponds hstep
  | take lfd =>
    obtain ⟨hnext, hclients, hpassed, hrequests, hserved, hkeeps, hsilent, hreads⟩ :=
      h.take hstep
    exact ⟨hnext, hkeeps hresponds, hclients, hsilent, hreads, .quiet hpassed hrequests hserved⟩
  | handle request call mode => exact serverStep_handle h hresponds hstep

end Steps

end RemoteCalls

end Tars
