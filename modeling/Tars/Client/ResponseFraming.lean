import Tars.Client.ProxyRuns

/-!
# Which bytes become a response

The text protocol has no frames. Whatever one call of `doResponse` reads until the kernel
has nothing more is one response, which completes the request whose id it starts with. So
the outcome depends on these batches of bytes and not on how the kernel cuts a batch, but
responses that arrive in one batch complete only one request.
-/

namespace Tars

namespace Transceiver

open ReadResult

/-- The bytes that one call of `doResponse` reads before the kernel has nothing more, if the
connection is not closed on the way. -/
def batchOf : List ReadResult → Option Bytes
  | [] | .again :: _ => some []
  | .error :: _ | .data [] :: _ => none
  | .data (b :: bs) :: rest => (batchOf rest).map (b :: bs ++ ·)

/-- The bytes that `readv` delivers in one call of `doResponse` on an open socket, whatever ends
the call. -/
def deliveredBy : List ReadResult → Bytes
  | .data (b :: bs) :: rest => b :: bs ++ deliveredBy rest
  | _ => []

/-- A bound on the bytes of one call: together with the 8 KiB that each `readv` asks for they fit
an array of `2 ^ 62` bytes, the largest one that the receive buffer can have. -/
def maxBatch : ℕ := 2 ^ 62 - 8 * 1024

/-- The receive buffer is well formed and everything in it was passed on. -/
structure Drained (t : Transceiver) : Prop where
  /-- The representation invariant of the receive buffer. -/
  recv_wf : t.recvBuffer.WF
  /-- No byte waits for a later call. -/
  recv_empty : t.recvBuffer.readable = []

section Reading

variable {t t' : Transceiver} {fd : ℕ} {answers : List ReadResult}

/-- Only the receive buffer matters for being drained: what is sent has no influence. -/
theorem Drained.congr (h : t.Drained) (heq : t'.recvBuffer = t.recvBuffer) : t'.Drained :=
  ⟨heq ▸ h.recv_wf, heq ▸ h.recv_empty⟩

/-- Storing what was read appends it to the receive buffer. -/
theorem storeRead_spec {b : TCBuffer} (h : b.WF) (bs : Bytes)
    (hsize : b.readable.length + bs.length ≤ 2 ^ 62) :
    ∃ b', storeRead b bs = some b' ∧ b'.WF ∧ b'.readable = b.readable ++ bs := by
  unfold storeRead
  simp only
  by_cases hfits : bs.length ≤ b.writableSize
  · obtain ⟨hwf, hreadable⟩ := h.store_produce bs hfits
    exact ⟨_, if_pos hfits, hwf, hreadable⟩
  · have hroom : (bs.take b.writableSize).length = b.writableSize := by
      rw [List.length_take]
      omega
    obtain ⟨hwf, hreadable⟩ := h.store_produce (bs.take b.writableSize) (by omega)
    rw [hroom] at hwf hreadable
    obtain ⟨b', hpush, hwf', hreadable'⟩ := hwf.pushData_spec (bs.drop b.writableSize) (by
      rw [hreadable, List.length_append, List.length_drop, hroom]
      omega)
    refine ⟨b', ?_, hwf', ?_⟩
    · rw [if_neg hfits, hpush]
      rfl
    · rw [hreadable', hreadable, List.append_assoc, List.take_append_drop]

/-- What one call of `::readv` left in the kernel is in front of the rest of the batch. -/
theorem batchOf_leave (left : Bytes) (rest : List ReadResult) :
    batchOf (leave left rest) = (batchOf rest).map (left ++ ·) := by
  cases left with
  | nil => simp [leave]
  | cons b bs => rfl

/-- What one call of `::readv` left in the kernel is delivered in front of the rest. -/
theorem deliveredBy_leave (left : Bytes) (rest : List ReadResult) :
    deliveredBy (leave left rest) = left ++ deliveredBy rest := by
  cases left with
  | nil => simp [leave]
  | cons b bs => rfl

/-- A call that is not ended by a close reads what was delivered. -/
theorem batchOf_eq_some {batch : Bytes} (h : batchOf answers = some batch) :
    batch = deliveredBy answers := by
  induction answers generalizing batch with
  | nil => exact (Option.some.inj h).symm
  | cons answer rest ih =>
    match answer with
    | .again => exact (Option.some.inj h).symm
    | .error | .data [] => cases h
    | .data (b :: bs) =>
      obtain ⟨tail, htail, rfl⟩ := Option.map_eq_some_iff.mp h
      rw [ih htail]
      rfl

/-- Not more is delivered by one call than the kernel has, so a bound on the stream bounds every
batch. -/
theorem length_deliveredBy_le (answers : List ReadResult) :
    (deliveredBy answers).length ≤ totalBytes answers := by
  induction answers with
  | nil => exact Nat.zero_le _
  | cons answer rest ih =>
    match answer with
    | .again | .error | .data [] => exact Nat.zero_le _
    | .data (b :: bs) =>
      rw [totalBytes_cons, deliveredBy, List.length_append]
      omega

/-- **One iteration of the loop of `doResponse`** ends the batch, closes the connection, or
moves bytes from the front of the batch to the receive buffer. -/
theorem readOnce_spec (hfd : t.fd = some fd) (hwf : t.recvBuffer.WF)
    (hsize : t.recvBuffer.readable.length + (deliveredBy answers).length + 8 * 1024 ≤ 2 ^ 62) :
    ∃ b : TCBuffer, b.WF ∧
      (t.readOnce answers = some ({ t with recvBuffer := b }, none) ∧
          batchOf answers = some [] ∧ b.readable = t.recvBuffer.readable ∨
        t.readOnce answers = some ({ t with recvBuffer := b }.close, none) ∧
          batchOf answers = none ∨
        ∃ taken rest, t.readOnce answers = some ({ t with recvBuffer := b }, some rest) ∧
          batchOf answers = (batchOf rest).map (taken ++ ·) ∧
          deliveredBy answers = taken ++ deliveredBy rest ∧
          b.readable = t.recvBuffer.readable ++ taken ∧ taken ≠ [] ∧
          totalBytes answers = taken.length + totalBytes rest) := by
  obtain ⟨b', hspace, hwf', hsame, -⟩ := hwf.assureSpace_spec (8 * 1024) (by
    rw [← hwf.length_readable]
    omega)
  simp only [readOnce, hspace, hfd, reduceCtorEq, if_false]
  match answers, hsize with
  | [], _ | .again :: _, _ => exact ⟨b', hwf', .inl ⟨rfl, rfl, hsame⟩⟩
  | .error :: _, _ | .data [] :: _, _ => exact ⟨b', hwf', .inr (.inl ⟨rfl, rfl⟩)⟩
  | .data (b :: bs) :: rest, hsize =>
    rw [deliveredBy, List.length_append] at hsize
    let room := b'.writableSize + stackBufferSize
    have hlen : ((b :: bs).take room).length ≤ (b :: bs).length := List.length_take_le' ..
    obtain ⟨stored, hstore, hwf'', happend⟩ := storeRead_spec hwf' ((b :: bs).take room) (by
      rw [hsame]
      omega)
    have hsplit : (b :: bs).take room ++ (b :: bs).drop room = b :: bs :=
      List.take_append_drop room (b :: bs)
    refine ⟨stored, hwf'', .inr (.inr ⟨(b :: bs).take room, leave ((b :: bs).drop room) rest,
      ?_, ?_, ?_, ?_, ?_, ?_⟩)⟩
    · show (storeRead b' ((b :: bs).take room)).map _ = _
      rw [hstore]
      rfl
    · rw [batchOf_leave, Option.map_map, batchOf]
      refine congrArg (Option.map · (batchOf rest)) (funext fun tail => ?_)
      rw [Function.comp_apply, ← List.append_assoc, hsplit]
    · rw [deliveredBy_leave, ← List.append_assoc, hsplit, deliveredBy]
    · rw [happend, hsame]
    · have hpos : 0 < room := by
        unfold room stackBufferSize
        omega
      obtain ⟨n, hn⟩ := Nat.exists_eq_add_of_lt hpos
      rw [hn]
      simp
    · have hboth := congrArg List.length hsplit
      rw [List.length_append] at hboth
      rw [totalBytes_cons, totalBytes_leave]
      omega

/-- **The loop of `doResponse`** reads the whole batch, however it is cut, or closes the
connection. -/
theorem readLoop_spec (hfd : t.fd = some fd) (hwf : t.recvBuffer.WF)
    (hsize : t.recvBuffer.readable.length + (deliveredBy answers).length + 8 * 1024 ≤ 2 ^ 62)
    {fuel : ℕ} (hfuel : totalBytes answers < fuel) :
    ∃ b : TCBuffer, b.WF ∧
      ((∃ batch, batchOf answers = some batch ∧
          t.readLoop fuel answers = some { t with recvBuffer := b } ∧
          b.readable = t.recvBuffer.readable ++ batch) ∨
        batchOf answers = none ∧
          t.readLoop fuel answers = some { t with recvBuffer := b }.close) := by
  induction fuel generalizing t answers with
  | zero => omega
  | succ fuel ih =>
    obtain ⟨b, hb, ⟨hone, hbatch, hsame⟩ | ⟨hone, hbatch⟩ |
      ⟨taken, rest, hone, hbatch, hmore, happend, hne, htotal⟩⟩ := readOnce_spec hfd hwf hsize
    · refine ⟨b, hb, .inl ⟨[], hbatch, ?_, by rw [hsame, List.append_nil]⟩⟩
      rw [readLoop, hone]
    · refine ⟨b, hb, .inr ⟨hbatch, ?_⟩⟩
      rw [readLoop, hone]
    · have hpos := List.length_pos_iff.mpr hne
      rw [hmore, List.length_append] at hsize
      rw [readLoop, hone, hbatch]
      obtain ⟨last, hlast, ⟨batch, htail, hloop, hall⟩ | ⟨htail, hloop⟩⟩ :=
        @ih { t with recvBuffer := b } rest hfd hb
          (by rw [happend, List.length_append]; omega) (by omega)
      · refine ⟨last, hlast, .inl ⟨taken ++ batch, by rw [htail]; rfl, hloop, ?_⟩⟩
        rw [hall, happend, List.append_assoc]
      · exact ⟨last, hlast, .inr ⟨by rw [htail]; rfl, hloop⟩⟩

/-- Behind its loop `doResponse` passes on what is readable as one string. -/
theorem doResponse_of_loop {u : Transceiver} (hwf : u.recvBuffer.WF)
    (hloop : t.readLoop (totalBytes answers + 1) answers = some u) :
    ∃ t' ret, t.doResponse answers =
        some (t', if u.recvBuffer.readable = [] then [] else [u.recvBuffer.readable], ret) ∧
      t'.Drained ∧ t'.fd = u.fd ∧ (0 < ret ↔ u.recvBuffer.readable ≠ []) := by
  by_cases hempty : u.recvBuffer.readable = []
  · refine ⟨u, 0, ?_, ⟨hwf, hempty⟩, rfl, by simp [hempty]⟩
    rw [doResponse, hloop, if_pos hempty]
    exact if_pos (hwf.isEmpty_iff.mpr hempty)
  · have hne : u.recvBuffer.isEmpty = false := hwf.isEmpty_eq_false.mpr hempty
    obtain ⟨c, hconsume, hwf', hgone⟩ := hwf.consume_spec (n := u.recvBuffer.readableSize) (by
      rw [hwf.length_readable])
    rw [← hwf.length_readable, List.drop_length] at hgone
    obtain ⟨d, hshrink, hwf'', hgone'⟩ := hwf'.shrink_spec
    have hrest : t.doResponse answers = some (if 8 * 1024 * 1024 < c.capacity
        then { u with recvBuffer := d } else { u with recvBuffer := c },
        [u.recvBuffer.readable], 1) := by
      simp only [doResponse, hloop, hne, Bool.false_eq_true, if_false, hconsume, hshrink,
        Option.map_some]
      split <;> rfl
    refine ⟨_, _, by rw [hrest, if_neg hempty], ?_, ?_, by simp [hempty]⟩
    · split
      · exact ⟨hwf'', hgone'.trans hgone⟩
      · exact ⟨hwf', hgone⟩
    · split <;> rfl

/-- Without a socket the loop of `doResponse` ends at its first `readv`, and `close` does
nothing. -/
theorem readLoop_of_closed (hfd : t.fd = none) (hwf : t.recvBuffer.WF)
    (hsize : t.recvBuffer.readable.length + 8 * 1024 ≤ 2 ^ 62) (answers : List ReadResult)
    (fuel : ℕ) :
    ∃ b : TCBuffer, b.WF ∧ b.readable = t.recvBuffer.readable ∧
      t.readLoop (fuel + 1) answers = some { t with recvBuffer := b } := by
  rw [hwf.length_readable] at hsize
  obtain ⟨b, hspace, hwf', hsame, -⟩ := hwf.assureSpace_spec (8 * 1024) hsize
  refine ⟨b, hwf', hsame, ?_⟩
  simp only [readLoop, readOnce, hspace, hfd, if_true, close]

/-- **`doResponse`** passes on the whole batch as one string, or closes the connection and
passes on nothing. No byte stays behind. -/
theorem Drained.doResponse_spec (h : t.Drained) (hsize : totalBytes answers < maxBatch) :
    ∃ t' done ret, t.doResponse answers = some (t', done, ret) ∧ t'.Drained ∧
      ∀ batch, t.fd ≠ none → batchOf answers = some batch →
        t'.fd = t.fd ∧ done = (if batch = [] then [] else [batch]) ∧ (0 < ret ↔ batch ≠ []) := by
  have hlen : t.recvBuffer.readable.length + (deliveredBy answers).length + 8 * 1024 ≤ 2 ^ 62 := by
    have hle := length_deliveredBy_le answers
    unfold maxBatch at hsize
    rw [h.recv_empty, List.length_nil]
    omega
  cases hfd : t.fd with
  | none =>
    obtain ⟨b, hwf, -, hloop⟩ :=
      readLoop_of_closed hfd h.recv_wf (by omega) answers (totalBytes answers)
    obtain ⟨t', ret, hread, hdrained, -⟩ := doResponse_of_loop hwf hloop
    exact ⟨t', _, ret, hread, hdrained, fun batch hne => absurd rfl hne⟩
  | some fd =>
    obtain ⟨b, hwf, ⟨batch, hbatch, hloop, hall⟩ | ⟨hbatch, hloop⟩⟩ :=
      readLoop_spec hfd h.recv_wf hlen (Nat.lt_succ_self (totalBytes answers))
    · rw [h.recv_empty, List.nil_append] at hall
      obtain ⟨t', ret, hread, hdrained, hfd', hret⟩ := doResponse_of_loop hwf hloop
      refine ⟨t', _, ret, hread, hdrained, fun batch' _ heq => ?_⟩
      obtain rfl := Option.some.inj (heq.symm.trans hbatch)
      rw [← hfd]
      exact ⟨hfd', by rw [hall], by rw [hret, hall]⟩
    · obtain ⟨hwf', -⟩ := hwf.clear_spec
      obtain ⟨t', ret, hread, hdrained, -⟩ := doResponse_of_loop
        (by simpa [close, hfd] using hwf') hloop
      exact ⟨t', _, ret, hread, hdrained, fun batch _ heq => by simp [hbatch] at heq⟩

end Reading

end Transceiver

namespace ObjectProxy

/-- The id with which `finishInvoke` looks for the request of a response. -/
def idOf (rsp : Bytes) : ℕ := toUInt32 (atoi (substrTo rsp (find colon rsp)))

/-- The request that waits for a response with this id. -/
def outstanding (o : ObjectProxy) (id : ℕ) : Option ReqMessage :=
  (o.timeoutQueue.data.lookup id).map PtrInfo.ptr

/-- The completion that a response causes: that of the request with its id, if there is one,
with the whole string as its response. -/
def completion (o : ObjectProxy) (rsp : Bytes) : Option Event :=
  (o.outstanding (idOf rsp)).map fun msg =>
    .finishInvoke (finishInvokeMsg { msg with response := rsp })

/-- The first response of every id: the later ones find no message any more. -/
def firstPerId : List Bytes → List Bytes
  | [] => []
  | rsp :: rsps => rsp :: (firstPerId rsps).filter (idOf · ≠ idOf rsp)

/-- A response as the server writes it: the id in decimals, a separator and the body. -/
def respond (id : ℤ) (body : Bytes) : Bytes := toString id ++ colon :: body

section Completion

variable {o o' : ObjectProxy}

/-- The id of a written response is read back. -/
theorem idOf_respond {id : ℤ} (hlo : -2 ^ 31 ≤ id) (hhi : id < 2 ^ 31) (body : Bytes) :
    idOf (respond id body) = toUInt32 id := by
  rw [idOf, respond, substrTo_find_append (colon_notMem_toString id), atoi_toString hlo hhi]

/-- Of responses with different ids each one is the first. -/
theorem firstPerId_eq_self {rsps : List Bytes} (h : (rsps.map idOf).Nodup) :
    firstPerId rsps = rsps := by
  induction rsps with
  | nil => rfl
  | cons rsp rsps ih =>
    rw [List.map_cons, List.nodup_cons] at h
    rw [firstPerId, ih h.2, List.filter_eq_self.mpr]
    intro other hmem
    have hne : idOf other ≠ idOf rsp := fun heq => h.1 (heq ▸ List.mem_map_of_mem hmem)
    simpa using hne

/-- **`finishInvoke`** completes the request with the id of the response and forgets it. -/
theorem finishInvoke_spec (o : ObjectProxy) (rsp : Bytes) :
    (o.finishInvoke rsp).2 = (o.completion rsp).toList ∧
      ∀ id, (o.finishInvoke rsp).1.outstanding id =
        if id = idOf rsp then none else o.outstanding id := by
  constructor
  · have herased : (o.timeoutQueue.erase (idOf rsp)).2 =
        (o.timeoutQueue.data.lookup (idOf rsp)).map PtrInfo.ptr := TimeoutQueue.erase_snd
    simp only [idOf] at herased
    simp only [finishInvoke, completion, outstanding, idOf, herased]
    generalize toUInt32 (atoi (substrTo rsp (find colon rsp))) = id
    cases o.timeoutQueue.data.lookup id <;> rfl
  · intro id
    rw [outstanding, finishInvoke_timeoutQueue, ← idOf, TimeoutQueue.erase_lookup]
    split <;> rfl

/-- Once an id is answered, only responses with other ids complete requests. -/
theorem filterMap_completion {id : ℕ}
    (h : ∀ i, o'.outstanding i = if i = id then none else o.outstanding i) (rsps : List Bytes) :
    rsps.filterMap o'.completion = (rsps.filter (idOf · ≠ id)).filterMap o.completion := by
  rw [List.filterMap_filter]
  refine List.filterMap_congr fun rsp _ => ?_
  by_cases heq : idOf rsp = id <;> simp [completion, h, heq]

/-- **`handleInputImp`** completes the request that the batch answers, if there is one. -/
theorem handleInputImp_spec (h : o.trans.Drained) {answers : List ReadResult}
    (hsize : ReadResult.totalBytes answers < Transceiver.maxBatch) :
    ∃ o' events, o.handleInputImp answers = some (o', events) ∧ o'.trans.Drained ∧
      ∀ batch, o.trans.fd ≠ none → Transceiver.batchOf answers = some batch →
        o'.trans.fd = o.trans.fd ∧
        events = (if batch = [] then [] else (o.completion batch).toList) ∧
        ∀ id, o'.outstanding id =
          if batch ≠ [] ∧ id = idOf batch then none else o.outstanding id := by
  obtain ⟨t', done, ret, hread, hdrained, hcases⟩ := h.doResponse_spec hsize
  by_cases hret : 0 < ret
  · refine ⟨_, _, by rw [handleInputImp, hread]; exact if_pos hret, ?_, fun batch hfd hbatch => ?_⟩
    · rwa [(finishAll_frame done).1]
    · obtain ⟨hsame, rfl, hpos⟩ := hcases batch hfd hbatch
      obtain ⟨hevents, hrest⟩ := finishInvoke_spec { o with trans := t' } batch
      have hne := hpos.mp hret
      refine ⟨by rw [(finishAll_frame _).1]; exact hsame, ?_, fun id => ?_⟩
      · simp only [if_neg hne, finishAll, List.append_nil]
        exact hevents
      · simp only [ne_eq, hne, not_false_eq_true, true_and]
        exact hrest id
  · refine ⟨_, _, by rw [handleInputImp, hread]; exact if_neg hret, hdrained,
      fun batch hfd hbatch => ?_⟩
    obtain ⟨hsame, rfl, hpos⟩ := hcases batch hfd hbatch
    have hempty : batch = [] := by
      by_contra hne
      exact hret (hpos.mpr hne)
    simp [hempty, hsame, outstanding]

end Completion

end ObjectProxy

namespace ProxyRun

open ObjectProxy ReadResult Scripts Transceiver

/-- The request of a new message fits a send buffer, and what one call reads a receive buffer. -/
def Bounded : Action → Prop
  | .invoke msg _ _ => msg.request.length ≤ maxRequest
  | .output _ _ => True
  | .input answers => totalBytes answers < maxBatch

/-- Handing a request over, whole or in part, keeps the receive buffer with what has arrived of the
responses. -/
theorem sendRequest_recvBuffer {t t' : Transceiver} {pData : Bytes} {answer : SendResult}
    {ret : ℤ} (hwf : t.WF) (hlen : pData.length ≤ 2 ^ 62)
    (h : t.sendRequest pData answer = some (t', ret)) : t'.WF ∧ t'.recvBuffer = t.recvBuffer := by
  obtain ⟨u, ret', hsend, hwf', -, hrecv, -⟩ := hwf.sendRequest_total hlen answer
  obtain ⟨rfl, -⟩ := Prod.mk.inj (Option.some.inj (h.symm.trans hsend))
  exact ⟨hwf', hrecv⟩

/-- No step leaves received bytes behind, so each read starts with an empty buffer. -/
theorem drained_step {s s' : ProxyRun} {a : Action} {events : List Event}
    (h : s.proxy.Valid ∧ s.proxy.trans.Drained) (hfits : Bounded a)
    (hstep : s.step a = some (s', events)) : s'.proxy.Valid ∧ s'.proxy.trans.Drained := by
  obtain ⟨hvalid, hdrained⟩ := h
  refine ⟨valid_step hvalid (by cases a <;> first | exact hfits | trivial) hstep, ?_⟩
  cases a with
  | invoke msg outcome answer =>
    obtain ⟨returned, hinvoke, -⟩ := step_invoke hstep
    have hconnect : (s.proxy.trans.connect outcome).1.Drained :=
      hdrained.congr (by cases outcome <;> rfl)
    obtain ⟨-, -, -, heq⟩ | ⟨-, -, trans, hasSend, handed, hhanded, heq⟩ := invoke_cases hinvoke
    · rwa [heq]
    · rw [(Prod.mk.inj heq).1, (pushMessage_frame hasSend).1]
      obtain ⟨-, rfl, -⟩ | ⟨-, iRet, hsend, -⟩ := hhanded
      · exact hconnect
      · exact hconnect.congr (sendRequest_recvBuffer (hvalid.trans_wf.connect outcome)
          (length_serialise_le _ hfits) hsend).2
  | output answer answers =>
    obtain ⟨trans, ret, hflush, hcases⟩ := doRequest_cases (step_output hstep).1
    obtain ⟨u, ret', hflush', hwf, -, hrecv, -⟩ := hvalid.trans_wf.flush_spec answer
    obtain ⟨rfl, -⟩ := Prod.mk.inj (Option.some.inj (hflush.symm.trans hflush'))
    obtain ⟨-, heq, -⟩ | ⟨-, hloop⟩ := hcases
    · rw [heq]
      exact hdrained.congr hrecv
    · refine (doInvoke_rule (I := fun t _ => t.WF ∧ t.Drained) [] ?_
        ⟨hwf, hdrained.congr hrecv⟩ hloop).2
      intro msg t t' answer iRet _ hget _ ⟨hwf, hdrained⟩ hsend
      obtain ⟨hwf', hrecv'⟩ := sendRequest_recvBuffer hwf (hvalid.size_le.getSend hget) hsend
      exact ⟨hwf', hdrained.congr hrecv'⟩
  | input answers =>
    obtain ⟨o', events', hinput, hdrained', -⟩ := handleInputImp_spec hdrained hfits
    rw [(step_input hstep).1] at hinput
    obtain ⟨rfl, -⟩ := Prod.mk.inj (Option.some.inj hinput)
    exact hdrained'

/-- **Reading batches.** From a connected proxy, each nonempty batch completes the request
that it answers, unless an earlier batch did. -/
theorem exec_inputs {s : ProxyRun} {script : List (List ReadResult)} {batches : List Bytes}
    (hfd : s.proxy.trans.fd ≠ none) (hdrained : s.proxy.trans.Drained)
    (hbatches : List.Forall₂ (fun answers batch => batchOf answers = some batch ∧
      totalBytes answers < maxBatch) script batches) :
    ∃ s' events, exec step s (script.map .input) = some (s', events) ∧
      events = (firstPerId (batches.filter (· ≠ []))).filterMap s.proxy.completion ∧
      ∀ id, s'.proxy.outstanding id = if id ∈ (batches.filter (· ≠ [])).map idOf then none
        else s.proxy.outstanding id := by
  induction hbatches generalizing s with
  | nil => exact ⟨s, [], rfl, rfl, fun id => by simp⟩
  | @cons answers batch script batches hone hrest ih =>
    obtain ⟨o', events, hinput, hdrained', hspec⟩ := handleInputImp_spec hdrained hone.2
    obtain ⟨hsame, hevents, hleft⟩ := hspec batch hfd hone.1
    obtain ⟨s', rest, hexec, hrests, hlast⟩ := ih (s := s.record o' events)
      (by rw [record, hsame]; exact hfd) hdrained'
    refine ⟨s', events ++ rest, ?_, ?_⟩
    · rw [List.map_cons, exec_cons_eq_some]
      exact ⟨_, _, _, by simp only [step, hinput], hexec, rfl⟩
    · by_cases hempty : batch = []
      · have hskip : (batch :: batches).filter (· ≠ []) = batches.filter (· ≠ []) :=
          List.filter_cons_of_neg (by simpa using hempty)
        have hkept (id : ℕ) : o'.outstanding id = s.proxy.outstanding id := by
          rw [hleft, if_neg fun h => h.1 hempty]
        have hcompletion : o'.completion = s.proxy.completion := by
          funext rsp
          rw [completion, hkept, completion]
        rw [hskip, hevents, hrests, if_pos hempty, List.nil_append, record, hcompletion]
        exact ⟨rfl, fun id => by rw [hlast, record, hkept]⟩
      · have hcons : (batch :: batches).filter (· ≠ []) = batch :: batches.filter (· ≠ []) :=
          List.filter_cons_of_pos (by simpa using hempty)
        simp only [ne_eq, hempty, not_false_eq_true, true_and] at hleft
        rw [hcons, hevents, hrests, if_neg hempty, firstPerId, List.filterMap_cons, record,
          filterMap_completion hleft]
        refine ⟨by cases s.proxy.completion batch <;> rfl, fun id => ?_⟩
        rw [hlast, record, hleft, List.map_cons]
        by_cases hid : id = idOf batch
        · simp [hid]
        · have hmem : id ∈ idOf batch :: (batches.filter (· ≠ [])).map idOf ↔
              id ∈ (batches.filter (· ≠ [])).map idOf := by simp [hid]
          rw [if_neg hid]
          exact if_congr hmem.symm rfl rfl

/-- **One completion for each batch.** Take any history of a proxy that left it connected,
and any events that deliver bytes to it. The batches of these events, and nothing else about
how the kernel cuts them, decide what happens: the first nonempty batch with the id of an
outstanding request completes this request, once and with the whole batch as its response,
and no other request is completed. So if each batch is one response and the ids differ,
exactly the answered requests are completed, each with its own response. -/
theorem batches_complete {history : List Action} {s : ProxyRun} {past : List Event}
    (hfits : ∀ a ∈ history, Bounded a) (hexec : exec step new history = some (s, past))
    (hfd : s.proxy.trans.fd ≠ none) {script : List (List ReadResult)} {batches : List Bytes}
    (hbatches : List.Forall₂ (fun answers batch => batchOf answers = some batch ∧
      totalBytes answers < maxBatch) script batches) :
    ∃ s' events, exec step s (script.map .input) = some (s', events) ∧
      events = (firstPerId (batches.filter (· ≠ []))).filterMap s.proxy.completion ∧
      (∀ id, s'.proxy.outstanding id = if id ∈ (batches.filter (· ≠ [])).map idOf then none
        else s.proxy.outstanding id) ∧
      ∀ responses : List (ℤ × Bytes), (∀ r ∈ responses, -2 ^ 31 ≤ r.1 ∧ r.1 < 2 ^ 31) →
        (responses.map Prod.fst).Nodup → batches = responses.map (fun r => respond r.1 r.2) →
        events = responses.filterMap fun r =>
          (s.proxy.outstanding (toUInt32 r.1)).map fun msg =>
            .finishInvoke (finishInvokeMsg { msg with response := respond r.1 r.2 }) := by
  have hdrained := (exec_invariant (fun s a s' es h hC hstep => drained_step h hC hstep)
    ⟨valid_new, TCBuffer.wf_new, rfl⟩ (along_of_mem hfits) hexec).2
  obtain ⟨s', events, hrun, hevents, hleft⟩ := exec_inputs hfd hdrained hbatches
  refine ⟨s', events, hrun, hevents, hleft, fun responses hbounds hnodup heq => ?_⟩
  have hid (r) (hr : r ∈ responses) : idOf (respond r.1 r.2) = toUInt32 r.1 :=
    idOf_respond (hbounds r hr).1 (hbounds r hr).2 r.2
  have hnonempty : batches.filter (· ≠ []) = batches := by
    rw [List.filter_eq_self, heq]
    intro batch hmem
    obtain ⟨r, -, rfl⟩ := List.mem_map.mp hmem
    simp [respond]
  have hids : (batches.map idOf).Nodup := by
    rw [heq, List.map_map]
    refine List.Nodup.map_on ?_ hnodup.of_map
    intro r hr r' hr' hsame
    have hlr := hbounds r hr
    have hlr' := hbounds r' hr'
    rw [Function.comp_apply, Function.comp_apply, hid r hr, hid r' hr'] at hsame
    apply List.inj_on_of_nodup_map hnodup hr hr'
    unfold toUInt32 at hsame
    omega
  rw [hevents, hnonempty, firstPerId_eq_self hids, heq, List.filterMap_map]
  refine List.filterMap_congr fun r hr => ?_
  rw [Function.comp_apply, completion, hid r hr]

/-- Two requests, sent on a connection that takes both. -/
def twoRequests : List Action :=
  [.invoke sampleMessage .connected (.accepted 100),
    .invoke sampleMessage .connected (.accepted 100)]

/-- The statement after `twoRequests`, for two responses, the second cut in two. -/
theorem batches_complete_sample :
    ∃ s past, exec step new twoRequests = some (s, past) ∧
      ∃ s' events, exec step s [.input [.data (bytes "2:b")],
          .input [.data (bytes "1"), .data (bytes ":a"), .again]] = some (s', events) ∧
        events = (firstPerId [bytes "2:b", bytes "1:a"]).filterMap s.proxy.completion := by
  refine ⟨_, _, rfl, ?_⟩
  obtain ⟨s', events, hrun, hevents, -⟩ := @batches_complete twoRequests _ _
    (by simp [twoRequests, Bounded]; decide) rfl (by decide)
    [[.data (bytes "2:b")], [.data (bytes "1"), .data (bytes ":a"), .again]] _
    (.cons ⟨rfl, by decide⟩ (.cons ⟨rfl, by decide⟩ .nil))
  exact ⟨s', events, hrun, hevents⟩

/-- **Responses in one batch.** The same two responses complete both requests when they come
in two batches, and only the first one, with both as its response, when they come in one. -/
theorem coalesced_responses_lost :
    ∃ s past, exec step new twoRequests = some (s, past) ∧
      (∃ s' msg msg', exec step s [.input [.data (bytes "1:a")], .input [.data (bytes "2:b")]] =
          some (s', [.finishInvoke msg, .finishInvoke msg']) ∧
        msg.iRequestId = 1 ∧ msg.response = bytes "1:a" ∧
        msg'.iRequestId = 2 ∧ msg'.response = bytes "2:b") ∧
      ∃ s' msg, exec step s [.input [.data (bytes "1:a2:b")]] = some (s', [.finishInvoke msg]) ∧
        msg.iRequestId = 1 ∧ msg.response = bytes "1:a2:b" :=
  ⟨_, _, rfl, ⟨_, _, _, rfl, by decide⟩, _, _, rfl, by decide⟩

end ProxyRun

end Tars
