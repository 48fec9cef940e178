import Mathlib.Tactic.DeriveFintype
import Tars.Client.ObjectProxy
import Tars.Library.Ledger
import Tars.Library.Scripts
import Tars.Util.LoopQueue

/-!
# Who deletes a message

A message is allocated by the calling thread, travels through the request queue to a network
thread and, for an asynchronous call, through the queue of a processing thread. A synchronous
message is deleted by its caller, an asynchronous one by the processing thread, and a message
that does not fit into a queue at once. The threads are interleaved step by step. A caller
that waits goes on when its message is finished.
-/

namespace Tars

/-- The places that keep references to messages in flight. There are three network threads,
each with three processing threads. -/
inductive Place (Thr : Type*) where
  /-- The queue of a calling thread to a network thread. -/
  | request (t : Thr) (w : Fin 3)
  /-- A network thread: its current message and those in its timeout queues. -/
  | net (w : Fin 3)
  /-- The queue of a processing thread. -/
  | async (w k : Fin 3)
  deriving DecidableEq, Fintype

/-- The messages of a client process and the threads that handle them. -/
structure ClientProcess (Thr : Type*) where
  /-- The messages that are allocated, by address. -/
  heap : ℕ → Option ReqMessage
  /-- The number of messages that were allocated; addresses are not used again. -/
  allocated : ℕ
  /-- The messages that were deleted, the last one first. -/
  deleted : List ℕ
  /-- A null pointer or a deleted message was used. -/
  fault : Bool
  /-- `_reqQueue` of a calling thread. -/
  reqQueue : Thr → Fin 3 → LoopQueue ℕ
  /-- `_netSeq` of a calling thread. -/
  netSeq : Thr → Fin 3
  /-- The message for which a calling thread waits in `invoke`. -/
  waiting : Thr → Option ℕ
  /-- The messages that a network thread has popped and neither finished nor dropped. -/
  net : Fin 3 → List ℕ
  /-- `_msgQueue` of a processing thread. -/
  asyncQueue : Fin 3 → Fin 3 → LoopQueue ℕ
  /-- `_asyncSeq` of a network thread. -/
  asyncSeq : Fin 3 → Fin 3

/-- One step of one thread: a user thread, a network thread or a thread that calls callbacks. -/
inductive ClientAction (Thr : Type*) where
  /-- `tars_invoke` up to the point where the thread waits. -/
  | tarsInvoke (t : Thr) (request : Bytes) (iBeginTime : ℤ)
  /-- `tars_invoke_async`. -/
  | tarsInvokeAsync (t : Thr) (request : Bytes) (iBeginTime : ℤ)
  /-- The rest of `tars_invoke`, once the message is finished. -/
  | finishCall (t : Thr)
  /-- A network thread pops a message of a calling thread. -/
  | pop (w : Fin 3) (t : Thr)
  /-- `finishInvoke` of one of the messages, with its response or with an error. -/
  | finishInvoke (w : Fin 3) (i : ℕ) (rsp : Option Bytes)
  /-- `connect` throws for one of the messages. -/
  | connectThrows (w : Fin 3) (i : ℕ)
  /-- One iteration of the loop of `run` in a processing thread that finds a message. -/
  | run (w k : Fin 3)

namespace ClientProcess

open Ledger Scripts

variable {Thr : Type*}

/-- At the start no message was allocated yet, and all queues are empty. -/
def new : ClientProcess Thr :=
  { heap := fun _ => none, allocated := 0, deleted := [], fault := false,
    reqQueue := fun _ _ => .new 1000, netSeq := fun _ => 0, waiting := fun _ => none,
    net := fun _ => [], asyncQueue := fun _ _ => .new 10000, asyncSeq := fun _ => 0 }

/-- `delete msg`: the message is gone, and deleting it again is a fault. -/
def delete (s : ClientProcess Thr) (a : ℕ) : ClientProcess Thr :=
  match s.heap a with
  | none => { s with fault := true }
  | some _ => { s with heap := Function.update s.heap a none, deleted := a :: s.deleted }

section Threads

variable [DecidableEq Thr]

/-- The message that `tars_invoke` and `tars_invoke_async` allocate, under the next free address. -/
def newMessage (s : ClientProcess Thr) (t : Thr) (eType : CallType) (request : Bytes)
    (iBeginTime : ℤ) : ReqMessage :=
  { addr := s.allocated, eStatus := .REQ_REQ, eType, pObjectProxy := s.netSeq t, request,
    response := [], sReqData := [], bMonitorFin := false, iBeginTime, iRequestId := 1 }

/-- `new ReqMessage`: the message gets an address that was never used before. -/
def allocate (s : ClientProcess Thr) (msg : ReqMessage) : ClientProcess Thr :=
  { s with
    heap := Function.update s.heap s.allocated (some msg), allocated := s.allocated + 1 }

/-- Replace the queue of a calling thread to a network thread. -/
def setReqQueue (s : ClientProcess Thr) (t : Thr) (w : Fin 3) (queue : LoopQueue ℕ) :
    ClientProcess Thr :=
  { s with reqQueue := Function.update s.reqQueue t (Function.update (s.reqQueue t) w queue) }

/-- Replace the queue of a processing thread, one of the three of each network thread. -/
def setAsyncQueue (s : ClientProcess Thr) (w k : Fin 3) (queue : LoopQueue ℕ) :
    ClientProcess Thr :=
  { s with asyncQueue :=
      Function.update s.asyncQueue w (Function.update (s.asyncQueue w) k queue) }

/-- `invoke` of a message up to the point where a synchronous caller waits. The queue is
selected in turn. After a failed push `msg` is `NULL`. -/
def invoke (s : ClientProcess Thr) (t : Thr) (a : ℕ) (eType : CallType) : ClientProcess Thr :=
  let w := s.netSeq t
  let pushed := (s.reqQueue t w).pushBack a
  let s := { s with netSeq := Function.update s.netSeq t (w + 1) }
  if pushed.ok then
    let s := s.setReqQueue t w pushed.queue
    if eType = .SYNC_CALL then { s with waiting := Function.update s.waiting t (some a) } else s
  else
    let s := s.delete a
    -- the synchronous path reads `msg->bMonitorFin`
    if eType = .SYNC_CALL then { s with fault := true } else s

/-- `tars_invoke` and `tars_invoke_async`: a new message is put into the queue for a network thread.
-/
def call (s : ClientProcess Thr) (t : Thr) (eType : CallType) (request : Bytes)
    (iBeginTime : ℤ) : ClientProcess Thr :=
  (s.allocate (s.newMessage t eType request iBeginTime)).invoke t s.allocated eType

/-- The rest of `tars_invoke`: it returns the response and deletes the message. -/
def finishCall (s : ClientProcess Thr) (t : Thr) : Option (ClientProcess Thr × List Bytes) :=
  match s.waiting t with
  | none => none
  | some a =>
    match s.heap a with
    | none => some ({ s with fault := true }, [])
    | some msg =>
      if msg.bMonitorFin then
        some (delete { s with waiting := Function.update s.waiting t none } a, [msg.response])
      else none

/-- A network thread pops a message and reads it. -/
def pop (s : ClientProcess Thr) (w : Fin 3) (t : Thr) : Option (ClientProcess Thr) :=
  match (s.reqQueue t w).popFront with
  | none => none
  | some (a, queue) =>
    match s.heap a with
    | none => some { s with fault := true }
    | some _ =>
      some { s.setReqQueue t w queue with net := Function.update s.net w (s.net w ++ [a]) }

/-- `pushAsyncThreadQueue` and `AsyncProcThread::push_back`: if the queue is full, the message is
deleted. -/
def pushAsyncThreadQueue (s : ClientProcess Thr) (w : Fin 3) (a : ℕ) : ClientProcess Thr :=
  let k := s.asyncSeq w
  let pushed := (s.asyncQueue w k).pushBack a
  let s := { s with asyncSeq := Function.update s.asyncSeq w (k + 1) }
  if pushed.ok then s.setAsyncQueue w k pushed.queue else s.delete a

/-- A network thread gives up the reference to one of its messages. -/
def release (s : ClientProcess Thr) (w : Fin 3) (i : ℕ) : ClientProcess Thr :=
  { s with net := Function.update s.net w ((s.net w).eraseIdx i) }

/-- The message with the response, or with the status of a failed push. -/
def answered (msg : ReqMessage) : Option Bytes → ReqMessage
  | some response => { msg with response }
  | none => { msg with eStatus := .REQ_EXC }

/-- `finishInvoke` of one of the messages of a network thread. -/
def finishInvoke (s : ClientProcess Thr) (w : Fin 3) (i : ℕ) (rsp : Option Bytes) :
    Option (ClientProcess Thr) :=
  match (s.net w)[i]? with
  | none => none
  | some a =>
    match s.heap a with
    | none => some { s with fault := true }
    | some msg =>
      let done := ObjectProxy.finishInvokeMsg (answered msg rsp)
      let s := { s.release w i with heap := Function.update s.heap a (some done) }
      some (if msg.eType = .ASYNC_CALL then s.pushAsyncThreadQueue w a else s)

/-- A processing thread pops a message, dispatches it and deletes it. -/
def run (s : ClientProcess Thr) (w k : Fin 3) : Option (ClientProcess Thr) :=
  match (s.asyncQueue w k).popFront with
  | none => none
  | some (a, queue) => some ((s.setAsyncQueue w k queue).delete a)

/-- One step of a run; its outputs are the responses that synchronous calls return. After a
fault the process is gone. -/
def step (s : ClientProcess Thr) (action : ClientAction Thr) :
    Option (ClientProcess Thr × List Bytes) :=
  if s.fault then none
  else
    match action with
    | .tarsInvoke t request iBeginTime =>
      if s.waiting t = none then some (s.call t .SYNC_CALL request iBeginTime, []) else none
    | .tarsInvokeAsync t request iBeginTime =>
      if s.waiting t = none then some (s.call t .ASYNC_CALL request iBeginTime, []) else none
    | .finishCall t => s.finishCall t
    | .pop w t => (s.pop w t).map (·, [])
    | .finishInvoke w i rsp => (s.finishInvoke w i rsp).map (·, [])
    | .connectThrows w i => if i < (s.net w).length then some (s.release w i, []) else none
    | .run w k => (s.run w k).map (·, [])

/-! ### References and deletions -/

/-- The references to messages in flight at one place: a queue or the list of a network thread. -/
def places (s : ClientProcess Thr) : Place Thr → List ℕ
  | .request t w => (s.reqQueue t w).contents
  | .net w => s.net w
  | .async w k => (s.asyncQueue w k).contents

/-- How many references to a message there should be: one as long as it is not finished. -/
def pending : Option ReqMessage → ℕ
  | some msg => if msg.bMonitorFin then 0 else 1
  | none => 0

/-- The invariant. The thread that runs may hold one more reference, `hand`. -/
structure Inv [Fintype Thr] (hand : Option ℕ) (s : ClientProcess Thr) : Prop where
  /-- Nothing went wrong: no null pointer and no deleted message was used. -/
  no_fault : s.fault = false
  /-- The request queues are well formed. -/
  request_wf : ∀ t w, (s.reqQueue t w).WF
  /-- The queues of the processing threads are well formed. -/
  async_wf : ∀ w k, (s.asyncQueue w k).WF
  /-- Every unfinished message has one reference, and there are no others. -/
  in_flight : ∀ a, occurrences s.places a + (if hand = some a then 1 else 0) = pending (s.heap a)
  /-- The messages that are gone were deleted once, and no others were. -/
  deleted_count : ∀ a, s.deleted.count a =
    if a < s.allocated ∧ s.heap a = none then 1 else 0
  /-- Only allocated addresses are in use. -/
  heap_lt : ∀ a msg, s.heap a = some msg → a < s.allocated
  /-- A caller waits for every synchronous message, and an asynchronous one is not marked. -/
  kind : ∀ a msg, s.heap a = some msg →
    msg.eType = .SYNC_CALL ∧ (∃ t, s.waiting t = some a) ∨
      msg.eType = .ASYNC_CALL ∧ msg.bMonitorFin = false
  /-- A caller waits for a synchronous message. -/
  waiting_sync : ∀ t a, s.waiting t = some a →
    ∃ msg, s.heap a = some msg ∧ msg.eType = .SYNC_CALL
  /-- Two callers do not wait for the same message. -/
  waiting_inj : ∀ t t' a, s.waiting t = some a → s.waiting t' = some a → t = t'
  /-- The processing threads get asynchronous messages. -/
  async_kind : ∀ w k, ∀ a ∈ (s.asyncQueue w k).contents,
    ∃ msg, s.heap a = some msg ∧ msg.eType = .ASYNC_CALL

section Places

variable {s : ClientProcess Thr}

/-- Replacing a request queue changes one place, that of its thread and its network thread. -/
theorem places_setReqQueue (t : Thr) (w : Fin 3) (queue : LoopQueue ℕ) :
    (s.setReqQueue t w queue).places =
      Function.update s.places (.request t w) queue.contents := by
  funext p
  cases p with
  | request u v =>
    simp only [places, setReqQueue, Ledger.update_update_apply, Function.update_apply,
      Place.request.injEq]
    split <;> rfl
  | net v => rfl
  | async v k => rfl

/-- Replacing the queue of a processing thread changes one place. -/
theorem places_setAsyncQueue (w k : Fin 3) (queue : LoopQueue ℕ) :
    (s.setAsyncQueue w k queue).places =
      Function.update s.places (.async w k) queue.contents := by
  funext p
  cases p with
  | request u v => rfl
  | net v => rfl
  | async v j =>
    simp only [places, setAsyncQueue, Ledger.update_update_apply, Function.update_apply,
      Place.async.injEq]
    split <;> rfl

/-- Replacing the messages of a network thread changes one place. -/
theorem places_net (w : Fin 3) (l : List ℕ) :
    places { s with net := Function.update s.net w l } = Function.update s.places (.net w) l := by
  funext p
  cases p with
  | request u v => rfl
  | net v => by_cases hv : v = w <;> simp [places, hv]
  | async v k => rfl

end Places

section Invariant

variable [Fintype Thr] {s s' : ClientProcess Thr} {hand : Option ℕ} {a : ℕ}
  {msg msg' : ReqMessage} {t : Thr} {w k : Fin 3} {queue : LoopQueue ℕ}

omit [DecidableEq Thr] in
/-- A message that is referenced is there and not finished. -/
theorem Inv.live (h : s.Inv hand) {p : Place Thr} (hmem : a ∈ s.places p) :
    ∃ msg, s.heap a = some msg ∧ msg.bMonitorFin = false := by
  have hpos := Ledger.pos_of_mem hmem
  have hcount := h.in_flight a
  cases hheap : s.heap a with
  | none =>
    rw [hheap, pending] at hcount
    omega
  | some msg =>
    cases hfin : msg.bMonitorFin with
    | false => exact ⟨msg, rfl, hfin⟩
    | true =>
      rw [hheap, pending, hfin, if_pos rfl] at hcount
      omega

omit [DecidableEq Thr] in
/-- **Allocating** a message, which its caller has in hand and, if it is synchronous, waits
for. -/
theorem Inv.allocate (h : s.Inv none) (msg : ReqMessage) {waiting : Thr → Option ℕ}
    (hfin : msg.bMonitorFin = false)
    (hkind : msg.eType = .SYNC_CALL ∧ waiting t = some s.allocated ∨ msg.eType = .ASYNC_CALL)
    (hkeep : ∀ u b, s.waiting u = some b → waiting u = some b)
    (hnew : ∀ u b, waiting u = some b →
      s.waiting u = some b ∨ u = t ∧ b = s.allocated ∧ msg.eType = .SYNC_CALL) :
    Inv (some s.allocated) { s.allocate msg with waiting } := by
  have hnone : s.heap s.allocated = none := by
    by_contra hne
    obtain ⟨m, hm⟩ := Option.ne_none_iff_exists'.mp hne
    exact absurd (h.heap_lt _ m hm) (lt_irrefl _)
  have hne {b : ℕ} {m : ReqMessage} (hb : s.heap b = some m) : b ≠ s.allocated :=
    (h.heap_lt b m hb).ne
  have hold {b : ℕ} {m : ReqMessage} (hb : s.heap b = some m) :
      (s.allocate msg).heap b = some m := by
    simp [ClientProcess.allocate, Function.update_of_ne (hne hb), hb]
  refine ⟨h.no_fault, h.request_wf, h.async_wf, fun b => ?_, fun b => ?_, fun b m hb => ?_,
    fun b m hb => ?_, fun u b hu => ?_, fun u v b hu hv => ?_, fun v j b hb => ?_⟩
  · have hcount := h.in_flight b
    change occurrences s.places b + _ = pending (Function.update s.heap _ (some msg) b)
    by_cases hb : b = s.allocated
    · subst hb
      rw [hnone] at hcount
      simpa [pending, hfin] using hcount
    · simpa [Function.update_of_ne hb, Ne.symm hb] using hcount
  · have hcount := h.deleted_count b
    by_cases hb : b = s.allocated
    · subst hb
      simpa [ClientProcess.allocate] using hcount
    · have hlt : b < s.allocated + 1 ↔ b < s.allocated := by omega
      simpa [ClientProcess.allocate, Function.update_of_ne hb, hlt] using hcount
  · by_cases hne : b = s.allocated
    · subst hne
      exact Nat.lt_succ_self _
    · simp only [ClientProcess.allocate, Function.update_of_ne hne] at hb
      exact Nat.lt_succ_of_lt (h.heap_lt b m hb)
  · by_cases hne : b = s.allocated
    · subst hne
      obtain rfl : msg = m := by simpa [ClientProcess.allocate] using hb
      exact hkind.imp (fun hsync => ⟨hsync.1, t, hsync.2⟩) fun hasync => ⟨hasync, hfin⟩
    · simp only [ClientProcess.allocate, Function.update_of_ne hne] at hb
      exact (h.kind b m hb).imp (fun hsync => ⟨hsync.1, hsync.2.imp fun u hu => hkeep u b hu⟩) id
  · obtain hu | ⟨rfl, rfl, hsync⟩ := hnew u b hu
    · obtain ⟨m, hm, hsync⟩ := h.waiting_sync u b hu
      exact ⟨m, hold hm, hsync⟩
    · exact ⟨msg, by simp [ClientProcess.allocate], hsync⟩
  · obtain hu | ⟨rfl, rfl, -⟩ := hnew u b hu
    · obtain hv | ⟨-, rfl, -⟩ := hnew v b hv
      · exact h.waiting_inj u v b hu hv
      · obtain ⟨m, hm, -⟩ := h.waiting_sync u _ hu
        exact absurd rfl (hne hm)
    · obtain hv | ⟨rfl, -, -⟩ := hnew v _ hv
      · obtain ⟨m, hm, -⟩ := h.waiting_sync v _ hv
        exact absurd rfl (hne hm)
      · rfl
  · obtain ⟨m, hm, hasync⟩ := h.async_kind v j b hb
    exact ⟨m, hold hm, hasync⟩

omit [DecidableEq Thr] in
/-- **Deleting** a message without references, for which nobody waits any more. -/
theorem Inv.delete (h : s.Inv hand) (hheap : s.heap a = some msg)
    (hhand : ∀ b, hand = some b → b = a) (hzero : occurrences s.places a = 0)
    {waiting : Thr → Option ℕ}
    (hwaiting : ∀ u b, waiting u = some b ↔ s.waiting u = some b ∧ b ≠ a) :
    Inv none (ClientProcess.delete { s with waiting } a) := by
  have hold {b : ℕ} (hb : b ≠ a) : Function.update s.heap a none b = s.heap b :=
    Function.update_of_ne hb _ _
  rw [ClientProcess.delete]
  simp only [hheap]
  refine ⟨h.no_fault, h.request_wf, h.async_wf, fun b => ?_, fun b => ?_, fun b m hb => ?_,
    fun b m hb => ?_, fun u b hu => ?_, fun u v b hu hv => ?_, fun v j b hb => ?_⟩
  · have hcount := h.in_flight b
    change occurrences s.places b + _ = pending (Function.update s.heap a none b)
    by_cases hb : b = a
    · subst hb
      simpa [pending] using hzero
    · have hother : hand ≠ some b := fun heq => hb (hhand b heq)
      rw [if_neg hother] at hcount
      rw [hold hb]
      exact hcount
  · have hcount := h.deleted_count b
    change (a :: s.deleted).count b =
      if b < s.allocated ∧ Function.update s.heap a none b = none then 1 else 0
    rw [List.count_cons, hcount]
    by_cases hb : b = a
    · subst hb
      simp [hheap, h.heap_lt b msg hheap]
    · rw [hold hb]
      simp [Ne.symm hb]
  · change Function.update s.heap a none b = some m at hb
    by_cases hne : b = a
    · subst hne
      simp at hb
    · rw [hold hne] at hb
      exact h.heap_lt b m hb
  · change Function.update s.heap a none b = some m at hb
    by_cases hne : b = a
    · subst hne
      simp at hb
    · rw [hold hne] at hb
      exact (h.kind b m hb).imp
        (fun hsync => ⟨hsync.1, hsync.2.imp fun u hu => (hwaiting u b).mpr ⟨hu, hne⟩⟩) id
  · obtain ⟨hu, hne⟩ := (hwaiting u b).mp hu
    obtain ⟨m, hm, hsync⟩ := h.waiting_sync u b hu
    exact ⟨m, (hold hne).trans hm, hsync⟩
  · exact h.waiting_inj u v b ((hwaiting u b).mp hu).1 ((hwaiting v b).mp hv).1
  · have hne : b ≠ a := by
      rintro rfl
      exact Ledger.notMem_of_eq_zero hzero (.async v j) hb
    obtain ⟨m, hm, hasync⟩ := h.async_kind v j b hb
    exact ⟨m, (hold hne).trans hm, hasync⟩

omit [DecidableEq Thr] in
/-- **Writing** to a message, which keeps its kind, moves no message and loses none. -/
theorem Inv.write (h : s.Inv hand) {hand' : Option ℕ} (hheap : s.heap a = some msg)
    (hkind : msg'.eType = msg.eType)
    (hmark : msg.eType = .ASYNC_CALL → msg'.bMonitorFin = msg.bMonitorFin)
    (hhand : ∀ b, b ≠ a → (hand' = some b ↔ hand = some b))
    (hcount : occurrences s.places a + (if hand' = some a then 1 else 0) = pending (some msg')) :
    Inv hand' { s with heap := Function.update s.heap a (some msg') } := by
  have hold {b : ℕ} (hb : b ≠ a) : Function.update s.heap a (some msg') b = s.heap b :=
    Function.update_of_ne hb _ _
  have hsame {b : ℕ} {m : ReqMessage} (hb : s.heap b = some m) :
      ∃ m', Function.update s.heap a (some msg') b = some m' ∧ m'.eType = m.eType := by
    by_cases hne : b = a
    · subst hne
      obtain rfl := Option.some.inj (hheap.symm.trans hb)
      exact ⟨msg', Function.update_self .., hkind⟩
    · exact ⟨m, (hold hne).trans hb, rfl⟩
  refine ⟨h.no_fault, h.request_wf, h.async_wf, fun b => ?_, fun b => ?_, fun b m hb => ?_,
    fun b m hb => ?_, fun u b hu => ?_, h.waiting_inj, fun v j b hb => ?_⟩
  · change occurrences s.places b + _ = pending (Function.update s.heap a (some msg') b)
    by_cases hne : b = a
    · subst hne
      simpa using hcount
    · rw [hold hne, ← h.in_flight b]
      simp only [hhand b hne]
  · change s.deleted.count b =
      if b < s.allocated ∧ Function.update s.heap a (some msg') b = none then 1 else 0
    rw [h.deleted_count b]
    by_cases hne : b = a
    · subst hne
      simp [hheap]
    · rw [hold hne]
  · change Function.update s.heap a (some msg') b = some m at hb
    by_cases hne : b = a
    · subst hne
      exact h.heap_lt b msg hheap
    · rw [hold hne] at hb
      exact h.heap_lt b m hb
  · change Function.update s.heap a (some msg') b = some m at hb
    by_cases hne : b = a
    · subst hne
      obtain rfl : msg' = m := by simpa using hb
      exact (h.kind b msg hheap).imp (fun hsync => ⟨hkind.trans hsync.1, hsync.2⟩)
        fun hasync => ⟨hkind.trans hasync.1, (hmark hasync.1).trans hasync.2⟩
    · rw [hold hne] at hb
      exact h.kind b m hb
  · obtain ⟨m, hm, hsync⟩ := h.waiting_sync u b hu
    obtain ⟨m', hm', heq⟩ := hsame hm
    exact ⟨m', hm', heq.trans hsync⟩
  · obtain ⟨m, hm, hasync⟩ := h.async_kind v j b hb
    obtain ⟨m', hm', heq⟩ := hsame hm
    exact ⟨m', hm', heq.trans hasync⟩

/-- The message in hand is put into a place, or the one at its front taken into the hand. -/
private theorem occurrences_hand {p : Place Thr} {l : List ℕ}
    (h : s.Inv hand) {hand' : Option ℕ}
    (hmove : hand = some a ∧ hand' = none ∧ l = s.places p ++ [a] ∨
      hand = none ∧ hand' = some a ∧ (s.places p).Perm (a :: l)) (b : ℕ) :
    occurrences (Function.update s.places p l) b + (if hand' = some b then 1 else 0) =
      pending (s.heap b) := by
  have hcount := h.in_flight b
  have hswap : some a = some b ↔ b = a := by rw [Option.some.injEq, eq_comm]
  obtain ⟨rfl, rfl, rfl⟩ | ⟨rfl, rfl, hperm⟩ := hmove
  · rw [Ledger.put, ← hcount]
    simp [hswap]
  · rw [Ledger.take hperm] at hcount
    simpa [hswap] using hcount

/-- **Request queues**: the message in hand is pushed, or one is popped into the hand. -/
theorem Inv.setReqQueue (h : s.Inv hand) {hand' : Option ℕ} (hqueue : queue.WF)
    (hmove : hand = some a ∧ hand' = none ∧ queue.contents = (s.reqQueue t w).contents ++ [a] ∨
      hand = none ∧ hand' = some a ∧ (s.reqQueue t w).contents = a :: queue.contents) :
    (s.setReqQueue t w queue).Inv hand' := by
  refine ⟨h.no_fault, update_update_of_forall h.request_wf hqueue, h.async_wf, fun b => ?_,
    h.deleted_count, h.heap_lt, h.kind, h.waiting_sync, h.waiting_inj, h.async_kind⟩
  rw [places_setReqQueue]
  exact occurrences_hand h (p := .request t w)
    (hmove.imp id fun ⟨hnone, hhand, heq⟩ => ⟨hnone, hhand, heq ▸ .refl _⟩) b

/-- **Queues of the processing threads**: the asynchronous message in hand is pushed, or one
is popped into the hand. -/
theorem Inv.setAsyncQueue (h : s.Inv hand) {hand' : Option ℕ} (hqueue : queue.WF)
    (hheap : s.heap a = some msg) (hkind : msg.eType = .ASYNC_CALL)
    (hmove : hand = some a ∧ hand' = none ∧ queue.contents = (s.asyncQueue w k).contents ++ [a] ∨
      hand = none ∧ hand' = some a ∧ (s.asyncQueue w k).contents = a :: queue.contents) :
    (s.setAsyncQueue w k queue).Inv hand' := by
  have hasync {l : LoopQueue ℕ} (hl : ∀ b ∈ l.contents, ∃ m, s.heap b = some m ∧
      m.eType = .ASYNC_CALL) (v j : Fin 3) := update_update_of_forall (k := w) (i := k)
    (P := fun q : LoopQueue ℕ => ∀ b ∈ q.contents, ∃ m, s.heap b = some m ∧ m.eType = .ASYNC_CALL)
    h.async_kind hl v j
  refine ⟨h.no_fault, h.request_wf, update_update_of_forall h.async_wf hqueue, fun b => ?_,
    h.deleted_count, h.heap_lt, h.kind, h.waiting_sync, h.waiting_inj, hasync fun b hb => ?_⟩
  · rw [places_setAsyncQueue]
    exact occurrences_hand h (p := .async w k)
      (hmove.imp id fun ⟨hnone, hhand, heq⟩ => ⟨hnone, hhand, heq ▸ .refl _⟩) b
  · obtain ⟨-, -, heq⟩ | ⟨-, -, heq⟩ := hmove
    · rw [heq, List.mem_append, List.mem_singleton] at hb
      obtain hold | rfl := hb
      · exact h.async_kind w k b hold
      · exact ⟨msg, hheap, hkind⟩
    · exact h.async_kind w k b (heq ▸ List.mem_cons_of_mem _ hb)

/-- **Network threads**: the message in hand is added, or one is taken into the hand. -/
theorem Inv.setNet (h : s.Inv hand) {hand' : Option ℕ} {l : List ℕ}
    (hmove : hand = some a ∧ hand' = none ∧ l = s.net w ++ [a] ∨
      hand = none ∧ hand' = some a ∧ (s.net w).Perm (a :: l)) :
    Inv hand' { s with net := Function.update s.net w l } := by
  refine ⟨h.no_fault, h.request_wf, h.async_wf, fun b => ?_, h.deleted_count, h.heap_lt, h.kind,
    h.waiting_sync, h.waiting_inj, h.async_kind⟩
  rw [places_net]
  exact occurrences_hand h (p := .net w) hmove b

/-- A network thread takes one of its messages into the hand. -/
theorem Inv.release (h : s.Inv none) {i : ℕ} (hi : (s.net w)[i]? = some a) :
    (s.release w i).Inv (some a) := by
  obtain ⟨hlt, rfl⟩ := List.getElem?_eq_some_iff.mp hi
  exact h.setNet (.inr ⟨rfl, rfl, (List.getElem_cons_eraseIdx_perm hlt).symm⟩)

omit [DecidableEq Thr] in
/-- **Deleting** the asynchronous message in hand: it has no other reference, so nothing is left of
it. -/
theorem Inv.deleteHand (h : s.Inv (some a)) (hheap : s.heap a = some msg)
    (hkind : msg.eType = .ASYNC_CALL) (hfin : msg.bMonitorFin = false) :
    (s.delete a).Inv none := by
  have hcount := h.in_flight a
  rw [hheap, pending, hfin, if_pos rfl] at hcount
  refine Inv.delete h hheap (fun b hb => (Option.some.inj hb).symm)
    (by simpa using hcount) fun u b => ⟨fun hu => ⟨hu, ?_⟩, And.left⟩
  rintro rfl
  obtain ⟨m, hm, hsync⟩ := h.waiting_sync u b hu
  obtain rfl := Option.some.inj (hheap.symm.trans hm)
  rw [hkind] at hsync
  cases hsync

omit [DecidableEq Thr] in
/-- The turns of the queues do not matter: whichever queue comes next, every message is where it
was. -/
theorem Inv.setSeq (h : s.Inv hand) (netSeq : Thr → Fin 3) (asyncSeq : Fin 3 → Fin 3) :
    Inv hand { s with netSeq, asyncSeq } :=
  ⟨h.no_fault, h.request_wf, h.async_wf, h.in_flight, h.deleted_count, h.heap_lt, h.kind,
    h.waiting_sync, h.waiting_inj, h.async_kind⟩

/-- `tars_invoke` with room in the selected queue keeps the invariant. -/
theorem Inv.tarsInvoke (h : s.Inv none) (hidle : s.waiting t = none)
    (hroom : (s.reqQueue t (s.netSeq t)).isFull = false) (request : Bytes) (iBeginTime : ℤ) :
    (s.call t .SYNC_CALL request iBeginTime).Inv none := by
  have halloc := h.allocate (t := t) (s.newMessage t .SYNC_CALL request iBeginTime)
    rfl
    (.inl ⟨rfl, Function.update_self ..⟩)
    (fun u b hu => by
      have hne : u ≠ t := by
        rintro rfl
        rw [hidle] at hu
        cases hu
      rwa [Function.update_of_ne hne])
    (fun u b hu => by
      by_cases hut : u = t
      · subst hut
        rw [Function.update_self] at hu
        exact .inr ⟨rfl, (Option.some.inj hu).symm, rfl⟩
      · rw [Function.update_of_ne hut] at hu
        exact .inl hu)
  obtain ⟨hqueue, ⟨-, hfull, -⟩ | ⟨hok, -, hcontents⟩⟩ :=
    (h.request_wf t (s.netSeq t)).pushBack s.allocated
  · rw [hroom] at hfull
    cases hfull
  · have hput := (halloc.setSeq (Function.update s.netSeq t (s.netSeq t + 1))
      s.asyncSeq).setReqQueue (t := t) hqueue (.inl ⟨rfl, rfl, hcontents⟩)
    simp only [call, invoke, ClientProcess.allocate, hok, if_true]
    exact hput

/-- `tars_invoke_async` keeps the invariant: with a full queue it deletes the message. -/
theorem Inv.tarsInvokeAsync (h : s.Inv none) (t : Thr) (request : Bytes) (iBeginTime : ℤ) :
    (s.call t .ASYNC_CALL request iBeginTime).Inv none := by
  let msg := s.newMessage t .ASYNC_CALL request iBeginTime
  have halloc := (h.allocate (t := t) msg rfl (.inr rfl)
    (fun _ _ hu => hu) fun _ _ hu => .inl hu).setSeq
    (Function.update s.netSeq t (s.netSeq t + 1)) s.asyncSeq
  obtain ⟨hqueue, ⟨hok, -, -⟩ | ⟨hok, -, hcontents⟩⟩ :=
    (h.request_wf t (s.netSeq t)).pushBack s.allocated
  · have hdelete := halloc.deleteHand (Function.update_self ..) rfl rfl
    simp only [call, invoke, ClientProcess.allocate, hok, Bool.false_eq_true, if_false,
      reduceCtorEq]
    exact hdelete
  · have hput := halloc.setReqQueue (t := t) hqueue (.inl ⟨rfl, rfl, hcontents⟩)
    simp only [call, invoke, ClientProcess.allocate, hok, if_true, reduceCtorEq, if_false]
    exact hput

/-- A synchronous caller whose message is finished deletes it. -/
theorem Inv.finishCall (h : s.Inv none) {out : List Bytes}
    (hrun : s.finishCall t = some (s', out)) : s'.Inv none := by
  unfold ClientProcess.finishCall at hrun
  cases hwait : s.waiting t with
  | none => simp [hwait] at hrun
  | some a =>
    obtain ⟨msg, hheap, -⟩ := h.waiting_sync t a hwait
    simp only [hwait, hheap] at hrun
    split at hrun
    · rename_i hfin
      obtain ⟨rfl, -⟩ := Prod.mk.inj (Option.some.inj hrun)
      have hcount := h.in_flight a
      rw [hheap, pending, if_pos hfin] at hcount
      refine h.delete hheap (fun b hb => by cases hb) (by simpa using hcount) fun u b => ?_
      by_cases hut : u = t
      · subst hut
        simp only [Function.update_self, hwait, Option.some.injEq, false_iff, reduceCtorEq, not_and,
          not_not]
        exact Eq.symm
      · rw [Function.update_of_ne hut]
        refine ⟨fun hu => ⟨hu, ?_⟩, And.left⟩
        rintro rfl
        exact hut (h.waiting_inj u t b hu hwait)
    · cases hrun

/-- Popping a message moves its reference from the queue to the network thread. -/
theorem Inv.pop (h : s.Inv none) (hrun : s.pop w t = some s') : s'.Inv none := by
  unfold ClientProcess.pop at hrun
  cases hpop : (s.reqQueue t w).popFront with
  | none => simp [hpop] at hrun
  | some r =>
    obtain ⟨a, queue⟩ := r
    obtain ⟨hqueue, hcontents⟩ := (h.request_wf t w).popFront hpop
    obtain ⟨msg, hheap, -⟩ := h.live (p := .request t w) (a := a) (by
      rw [places, hcontents]
      exact List.mem_cons_self)
    simp only [hpop, hheap] at hrun
    obtain rfl := Option.some.inj hrun
    exact (h.setReqQueue hqueue (.inr ⟨rfl, rfl, hcontents⟩)).setNet (.inl ⟨rfl, rfl, rfl⟩)

/-- Passing the asynchronous message in hand on, or deleting it, keeps the invariant. -/
theorem Inv.pushAsyncThreadQueue (h : s.Inv (some a)) (hheap : s.heap a = some msg)
    (hkind : msg.eType = .ASYNC_CALL) (hfin : msg.bMonitorFin = false) (w : Fin 3) :
    (s.pushAsyncThreadQueue w a).Inv none := by
  have hseq := h.setSeq s.netSeq
    (Function.update s.asyncSeq w (s.asyncSeq w + 1))
  obtain ⟨hqueue, ⟨hok, -, -⟩ | ⟨hok, -, hcontents⟩⟩ :=
    (h.async_wf w (s.asyncSeq w)).pushBack a
  · simp only [ClientProcess.pushAsyncThreadQueue, hok, Bool.false_eq_true, if_false]
    exact hseq.deleteHand hheap hkind hfin
  · simp only [ClientProcess.pushAsyncThreadQueue, hok, if_true]
    exact hseq.setAsyncQueue hqueue hheap hkind (.inl ⟨rfl, rfl, hcontents⟩)

omit [Fintype Thr] [DecidableEq Thr] in
/-- Finishing a message keeps its kind and marks the synchronous ones. -/
theorem done_spec (msg : ReqMessage) (rsp : Option Bytes) :
    (ObjectProxy.finishInvokeMsg (answered msg rsp)).eType = msg.eType ∧
      (ObjectProxy.finishInvokeMsg (answered msg rsp)).bMonitorFin =
        (decide (msg.eType = .SYNC_CALL) || msg.bMonitorFin) := by
  unfold ObjectProxy.finishInvokeMsg
  cases rsp <;> by_cases hsync : msg.eType = .SYNC_CALL <;> simp [answered, hsync]

/-- Finishing a message hands it to its caller or to a processing thread. -/
theorem Inv.finishInvoke (h : s.Inv none) {i : ℕ} {rsp : Option Bytes}
    (hrun : s.finishInvoke w i rsp = some s') : s'.Inv none := by
  unfold ClientProcess.finishInvoke at hrun
  cases hi : (s.net w)[i]? with
  | none => simp [hi] at hrun
  | some a =>
    obtain ⟨msg, hheap, hfin⟩ := h.live (p := .net w) (List.mem_of_getElem? hi)
    have hhand := h.release hi
    have hcount := hhand.in_flight a
    have hheap' : (s.release w i).heap a = some msg := hheap
    rw [hheap', pending, hfin, if_pos rfl] at hcount
    obtain ⟨hkind, hmark⟩ := done_spec msg rsp
    simp only [hi, hheap] at hrun
    obtain rfl := Option.some.inj hrun
    obtain ⟨hsync, -⟩ | ⟨hasync, -⟩ := h.kind a msg hheap
    · rw [if_neg (by simp [hsync])]
      refine hhand.write hheap' hkind (by simp [hsync])
        (fun b hb => by simp [Ne.symm hb]) ?_
      have hzero : occurrences (s.release w i).places a = 0 := by simpa using hcount
      simp [pending, hmark, hsync, hzero]
    · rw [if_pos hasync]
      have hsame : (ObjectProxy.finishInvokeMsg (answered msg rsp)).bMonitorFin = false := by
        rw [hmark, hasync, hfin]
        rfl
      refine (hhand.write hheap' hkind (fun _ => hsame.trans hfin.symm)
        (fun b _ => Iff.rfl) ?_).pushAsyncThreadQueue (Function.update_self ..)
        (hkind.trans hasync) hsame w
      rw [pending, hsame]
      simpa using hcount

/-- A processing thread deletes the message that it dispatched. -/
theorem Inv.run (h : s.Inv none) (hrun : s.run w k = some s') : s'.Inv none := by
  unfold ClientProcess.run at hrun
  cases hpop : (s.asyncQueue w k).popFront with
  | none => simp [hpop] at hrun
  | some r =>
    obtain ⟨a, queue⟩ := r
    obtain ⟨hqueue, hcontents⟩ := (h.async_wf w k).popFront hpop
    have hmem : a ∈ (s.asyncQueue w k).contents := hcontents ▸ List.mem_cons_self
    obtain ⟨msg, hheap, hfin⟩ := h.live (p := .async w k) hmem
    obtain ⟨msg', hheap', hkind⟩ := h.async_kind w k a hmem
    obtain rfl := Option.some.inj (hheap.symm.trans hheap')
    simp only [hpop] at hrun
    obtain rfl := Option.some.inj hrun
    exact (h.setAsyncQueue hqueue hheap hkind (.inr ⟨rfl, rfl, hcontents⟩)).deleteHand hheap hkind
      hfin

/-- Nothing went wrong: no null or deleted message was used, no message was deleted twice, and
every message was deleted, is in flight, or is finished and about to be deleted by its
caller. -/
structure Sound (s : ClientProcess Thr) : Prop where
  /-- No null pointer and no deleted message was used. -/
  no_fault : s.fault = false
  /-- No message was deleted twice. -/
  deleted_once : ∀ a, s.deleted.count a ≤ 1
  /-- No message was lost: it is deleted, at a place, or finished and about to be deleted. -/
  accounted : ∀ a, a < s.allocated → s.deleted.count a = 1 ∨ (∃ p, a ∈ s.places p) ∨
    ∃ t msg, s.waiting t = some a ∧ s.heap a = some msg ∧ msg.bMonitorFin = true

/-- A synchronous call finds room in its queue, and no message is dropped. -/
def Careful (s : ClientProcess Thr) : ClientAction Thr → Prop
  | .tarsInvoke t _ _ => (s.reqQueue t (s.netSeq t)).isFull = false
  | .connectThrows _ _ => False
  | _ => True

instance (s : ClientProcess Thr) : (action : ClientAction Thr) → Decidable (Careful s action)
  | .tarsInvoke _ _ _ => inferInstanceAs (Decidable (_ = _))
  | .connectThrows _ _ => isFalse id
  | .tarsInvokeAsync _ _ _ | .finishCall _ | .pop _ _ | .finishInvoke _ _ _ | .run _ _ =>
    isTrue trivial

/-- **A careful step** keeps the invariant, with one case for each action. -/
theorem Inv.step (h : s.Inv none) {action : ClientAction Thr} {out : List Bytes}
    (hcareful : s.Careful action) (hstep : s.step action = some (s', out)) : s'.Inv none := by
  simp only [ClientProcess.step, h.no_fault, Bool.false_eq_true, if_false] at hstep
  cases action with
  | tarsInvoke t request iBeginTime =>
    dsimp only at hstep
    split at hstep
    · obtain ⟨rfl, -⟩ := Prod.mk.inj (Option.some.inj hstep)
      rename_i hidle
      exact h.tarsInvoke hidle hcareful request iBeginTime
    · cases hstep
  | tarsInvokeAsync t request iBeginTime =>
    dsimp only at hstep
    split at hstep
    · obtain ⟨rfl, -⟩ := Prod.mk.inj (Option.some.inj hstep)
      exact h.tarsInvokeAsync t request iBeginTime
    · cases hstep
  | finishCall t => exact h.finishCall hstep
  | pop w t =>
    obtain ⟨next, hpop, heq⟩ := Option.map_eq_some_iff.mp hstep
    obtain ⟨rfl, -⟩ := Prod.mk.inj heq
    exact h.pop hpop
  | finishInvoke w i rsp =>
    obtain ⟨next, hfinish, heq⟩ := Option.map_eq_some_iff.mp hstep
    obtain ⟨rfl, -⟩ := Prod.mk.inj heq
    exact h.finishInvoke hfinish
  | connectThrows w i => exact hcareful.elim
  | run w k =>
    obtain ⟨next, hrun, heq⟩ := Option.map_eq_some_iff.mp hstep
    obtain ⟨rfl, -⟩ := Prod.mk.inj heq
    exact h.run hrun

omit [DecidableEq Thr] in
/-- The invariant says in particular that nothing went wrong, so it is enough to prove it of all
states of a run. -/
theorem Inv.sound (h : s.Inv none) : s.Sound := by
  refine ⟨h.no_fault, fun a => ?_, fun a ha => ?_⟩
  · rw [h.deleted_count]
    split <;> omega
  · cases hheap : s.heap a with
    | none => exact .inl (by rw [h.deleted_count, if_pos ⟨ha, hheap⟩])
    | some msg =>
      have hcount := h.in_flight a
      rw [hheap, pending] at hcount
      cases hfin : msg.bMonitorFin with
      | false =>
        simp only [hfin, reduceCtorEq, if_false, Bool.false_eq_true] at hcount
        exact .inr (.inl (Ledger.exists_mem (by omega)))
      | true =>
        obtain ⟨-, t, ht⟩ | ⟨-, hnone⟩ := h.kind a msg hheap
        · exact .inr (.inr ⟨t, msg, ht, rfl, hfin⟩)
        · rw [hfin] at hnone
          cases hnone

omit [Fintype Thr] in
/-- A synchronous call with a full queue uses a null pointer. -/
theorem call_full (hfull : (s.reqQueue t (s.netSeq t)).isFull = true) (request : Bytes)
    (iBeginTime : ℤ) : (s.call t .SYNC_CALL request iBeginTime).fault = true := by
  simp [call, invoke, ClientProcess.allocate, LoopQueue.pushBack, hfull]

/-- **A careless step** goes wrong at once: it uses a null pointer or loses a message. -/
theorem Inv.not_sound (h : s.Inv none) {action : ClientAction Thr} {out : List Bytes}
    (hcareless : ¬s.Careful action) (hstep : s.step action = some (s', out)) : ¬s'.Sound := by
  simp only [ClientProcess.step, h.no_fault, Bool.false_eq_true, if_false] at hstep
  intro hsound
  cases action with
  | tarsInvoke t request iBeginTime =>
    dsimp only at hstep
    split at hstep
    · obtain ⟨rfl, -⟩ := Prod.mk.inj (Option.some.inj hstep)
      have hfault := call_full (by simpa [Careful] using hcareless) request iBeginTime
      rw [hsound.no_fault] at hfault
      cases hfault
    · cases hstep
  | connectThrows w i =>
    dsimp only at hstep
    split at hstep
    · rename_i hlt
      obtain ⟨rfl, -⟩ := Prod.mk.inj (Option.some.inj hstep)
      have hi := List.getElem?_eq_getElem hlt
      obtain ⟨msg, hheap, hfin⟩ := h.live (p := .net w) (List.mem_of_getElem? hi)
      have hcount := (h.release hi).in_flight (s.net w)[i]
      have hheap' : (s.release w i).heap (s.net w)[i] = some msg := hheap
      rw [hheap', pending, hfin, if_pos rfl] at hcount
      obtain hdeleted | ⟨p, hp⟩ | ⟨t, msg', -, hmsg', hfin'⟩ :=
        hsound.accounted _ (h.heap_lt _ msg hheap)
      · rw [ClientProcess.release, h.deleted_count, if_neg (by simp [hheap])] at hdeleted
        cases hdeleted
      · exact Ledger.notMem_of_eq_zero (by simpa using hcount) p hp
      · obtain rfl := Option.some.inj (hheap'.symm.trans hmsg')
        rw [hfin] at hfin'
        cases hfin'
    · cases hstep
  | _ => exact hcareless trivial

omit [DecidableEq Thr] in
/-- A new process has no messages, so there is nothing to own. -/
theorem inv_new : (new : ClientProcess Thr).Inv none := by
  have hrequest := LoopQueue.wf_new (T := ℕ) (show 1 ≤ 1000 by decide) (by decide)
  have hasync := LoopQueue.wf_new (T := ℕ) (show 1 ≤ 10000 by decide) (by decide)
  refine ⟨rfl, fun _ _ => hrequest.1, fun _ _ => hasync.1, fun a => ?_, fun a => rfl, nofun, nofun,
    nofun, nofun, fun w k a ha => ?_⟩
  · rw [Ledger.eq_zero]
    · rfl
    · intro p
      cases p with
      | request t w => exact hrequest.2
      | net w => rfl
      | async w k => exact hasync.2
  · rw [new, hasync.2] at ha
    cases ha

end Invariant

/-- **When every message is deleted exactly once.** In all states of a run, for any number of
threads and any order of their steps, nothing goes wrong exactly when every synchronous call
finds room in its request queue and no `connect` throws. -/
theorem sound_iff_careful [Fintype Thr] (script : List (ClientAction Thr))
    (s : ClientProcess Thr) (out : List Bytes) (hexec : exec step new script = some (s, out)) :
    Always step Sound new script ↔ Along step Careful new script :=
  always_iff_along (I := Inv none) (fun _ h => h.sound)
    (fun _ _ _ _ h hcareful hstep => h.step hcareful hstep)
    (fun _ _ _ _ h hcareless hstep => h.not_sound hcareless hstep) inv_new hexec

/-- An asynchronous and a synchronous call of one thread, both answered. -/
def answeredScript : List (ClientAction Unit) :=
  [.tarsInvokeAsync () (bytes "m:x") 0, .tarsInvoke () (bytes "m:y") 0, .pop 1 (), .pop 0 (),
    .finishInvoke 0 0 (some (bytes "1:a")), .finishInvoke 1 0 (some (bytes "1:b")), .run 0 0,
    .finishCall ()]

/-- The statement for the run of `answeredScript`, which deletes both messages. -/
theorem sound_iff_careful_sample :
    ∃ s out, exec step (new : ClientProcess Unit) answeredScript = some (s, out) ∧
      s.deleted = [1, 0] ∧ out = [bytes "1:b"] ∧
      Always step Sound (new : ClientProcess Unit) answeredScript ∧
      (Always step Sound (new : ClientProcess Unit) answeredScript ↔
        Along step Careful new answeredScript) := by
  have hiff := sound_iff_careful answeredScript _ _ rfl
  exact ⟨_, _, rfl, rfl, rfl, hiff.mpr (by decide +kernel), hiff⟩

/-- One thread has made `n` asynchronous calls while the network threads were stalled. -/
structure Filled (n : ℕ) (s : ClientProcess Unit) : Prop where
  /-- Nothing went wrong so far. -/
  no_fault : s.fault = false
  /-- The thread does not wait. -/
  idle : s.waiting () = none
  /-- The three queues are selected in turn. -/
  turn : (s.netSeq ()).val = n % 3
  /-- The messages are spread evenly over the queues of 1000 places. -/
  queues : ∀ w, ∃ l, (s.reqQueue () w).Holds l ∧ (s.reqQueue () w).iCapacitySub = 1000 ∧
    l.length = (n + 2 - w.val) / 3

/-- One more asynchronous call finds room as long as not all places are taken. -/
theorem Filled.step {n : ℕ} {s : ClientProcess Unit} (h : Filled n s) (hn : n < 3000) :
    ∃ s', s.step (.tarsInvokeAsync () [] 0) = some (s', []) ∧ Filled (n + 1) s' := by
  have hturn := h.turn
  obtain ⟨l, hholds, hcap, hlength⟩ := h.queues (s.netSeq ())
  obtain ⟨hok, hpushed, hcap'⟩ := hholds.pushBack_ok (t := s.allocated) (by omega)
  refine ⟨s.call () .ASYNC_CALL [] 0, ?_, ?_⟩
  · simp [ClientProcess.step, h.no_fault, h.idle]
  · simp only [call, invoke, ClientProcess.allocate, hok, if_true, reduceCtorEq, if_false]
    refine ⟨h.no_fault, h.idle, ?_, fun w => ?_⟩
    · simp only [setReqQueue, Function.update_self, Fin.val_add]
      omega
    · by_cases hw : w = s.netSeq ()
      · subst hw
        refine ⟨l ++ [s.allocated], ?_, ?_, ?_⟩
        · simpa [setReqQueue] using hpushed
        · simpa [setReqQueue] using hcap'.trans hcap
        · rw [List.length_append, List.length_singleton]
          omega
      · obtain ⟨l', hholds', hcap'', hlength'⟩ := h.queues w
        have hne : w.val ≠ (s.netSeq ()).val := fun heq => hw (Fin.ext heq)
        refine ⟨l', ?_, ?_, ?_⟩
        · simpa [setReqQueue, hw] using hholds'
        · simpa [setReqQueue, hw] using hcap''
        · have := w.isLt
          omega

/-- Asynchronous calls fill the queues: as long as there is room, each of them adds one message. -/
theorem Filled.fill {n : ℕ} {s : ClientProcess Unit} (h : Filled n s) (m : ℕ)
    (hm : n + m ≤ 3000) :
    ∃ s', exec ClientProcess.step s (List.replicate m (.tarsInvokeAsync () [] 0)) =
      some (s', []) ∧ Filled (n + m) s' := by
  induction m generalizing n s with
  | zero => exact ⟨s, rfl, h⟩
  | succ m ih =>
    obtain ⟨t, hstep, ht⟩ := h.step (by omega)
    obtain ⟨u, hexec, hu⟩ := ih ht (by omega)
    refine ⟨u, exec_cons_eq_some.mpr ⟨t, [], [], hstep, hexec, rfl⟩, ?_⟩
    rwa [Nat.add_right_comm] at hu

/-- In a new process all queues are empty, and the first of them is the next one. -/
theorem filled_new : Filled 0 new :=
  ⟨rfl, rfl, rfl, fun w => ⟨[], LoopQueue.holds_new (by decide) (by decide), rfl,
    (Nat.div_eq_of_lt (by omega)).symm⟩⟩

/-- **A synchronous call with full queues** deletes its message, forgets it and then reads
`msg->bMonitorFin`: 3000 asynchronous calls fill the three queues, and the next call is a
synchronous one. -/
theorem full_queue_faults :
    ∃ s out, exec step (new : ClientProcess Unit)
      (List.replicate 3000 (.tarsInvokeAsync () [] 0) ++ [.tarsInvoke () [] 0]) = some (s, out) ∧
        ¬s.Sound := by
  obtain ⟨s, hexec, h⟩ := filled_new.fill 3000 (by decide)
  obtain ⟨l, hholds, hcap, hlength⟩ := h.queues (s.netSeq ())
  have hturn := h.turn
  have hfull : (s.reqQueue () (s.netSeq ())).isFull = true :=
    hholds.isFull_iff.mpr (by omega)
  have hstep : s.step (.tarsInvoke () [] 0) = some (s.call () .SYNC_CALL [] 0, []) := by
    simp [step, h.no_fault, h.idle]
  refine ⟨s.call () .SYNC_CALL [] 0, [] ++ [], exec_append_eq_some.mpr
    ⟨s, [], [], hexec, exec_cons_eq_some.mpr ⟨_, [], [], hstep, rfl, rfl⟩, rfl⟩, fun hsound => ?_⟩
  have hfault := call_full hfull [] 0
  rw [hsound.no_fault] at hfault
  cases hfault

end Threads

end ClientProcess

end Tars
