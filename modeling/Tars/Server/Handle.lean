import Tars.Server.Servants

/-!
# Handlers

A handler pops records from the receive queues of its adapters. In `handleImp` it handles a record
itself and deletes it. In `handleRequest` it binds the record to a new coroutine, which handles it
later, or deletes it if there is none. What is queued for the network thread is a reply.
-/

namespace Tars

/-- What a handler queues for the network thread: a response, or the order to close the connection.
-/
inductive HandleReply where
  /-- `sendResponse`. -/
  | send (uid : ℕ) (sSendBuffer ip : Bytes) (port : ℕ) (fd : Option ℕ)
  /-- `close`. -/
  | close (uid : ℕ) (fd : Option ℕ)
  deriving DecidableEq

namespace ServantHandle

/-- `handle`: whatever the servant returns, its buffer is sent. -/
def handle (servant : Servant) (call : Call) (stRecvData : TagRecvData) :
    Except Unit HandleReply :=
  (servant.dispatch call stRecvData.buffer).map fun r =>
    .send stRecvData.uid r.2 stRecvData.ip stRecvData.port stRecvData.fd

/-- `handleImp` for a request: an exception closes the connection. -/
def threadReplies (servant : Servant) (call : Call) (recv : TagRecvData) : List HandleReply :=
  match handle servant call recv with
  | .ok reply => [reply]
  | .error _ => [.close recv.uid recv.fd]

/-- `handleRecvData` for a request: `corotineProc` catches an exception, and nobody replies. -/
def coroutineReplies (servant : Servant) (call : Call) (recv : TagRecvData) : List HandleReply :=
  match handle servant call recv with
  | .ok reply => [reply]
  | .error _ => []

/-! ### Replies -/

/-- How a request is handled: by the handler itself, or in a coroutine whose creation may have
failed. -/
inductive Mode where
  /-- By `handleImp`. -/
  | thread
  /-- By `handleRequest`, where `createCoroutine` returns this. -/
  | coroutine (iRet : ℕ)

/-- All replies to a request, as far as it is handled at all: without a coroutine there are none. -/
def replies (servant : Servant) (call : Call) (recv : TagRecvData) : Mode → List HandleReply
  | .thread => threadReplies servant call recv
  | .coroutine 0 => []
  | .coroutine (_ + 1) => coroutineReplies servant call recv

/-- A request with an id is answered: there is one response, which starts with the id, or the
connection is closed. -/
def Answered (id : Bytes) (recv : TagRecvData) (rs : List HandleReply) : Prop :=
  rs = [.close recv.uid recv.fd] ∨
    ∃ buffer, rs = [.send recv.uid buffer recv.ip recv.port recv.fd] ∧ buffer ≠ [] ∧
      id ++ [colon] <+: buffer

/-- When a request for a method is answered: it depends on the servant, its answer and the mode. -/
def Answers (servant : Servant) (method : Bytes) : Call → Mode → Prop
  | .error _, .thread => servant.Implements method
  | .ok _, .thread => servant.Implements method ∧ servant.Identifies
  | .error _, .coroutine _ => False
  | .ok _, .coroutine iRet => iRet ≠ 0 ∧ servant.Implements method ∧ servant.Identifies

section Replies

variable {servant : Servant} {call : Call} {recv : TagRecvData} {id method body : Bytes}

/-- The parts of a request are found again, whatever separators the body contains. -/
theorem parts_of_request (hid : colon ∉ id) (hmethod : colon ∉ method) (body : Bytes) :
    requestIdOf (id ++ colon :: (method ++ colon :: body)) = id ∧
      methodOf (id ++ colon :: (method ++ colon :: body)) = method := by
  constructor
  · exact substrTo_find_append hid
  · rw [methodOf, substrAfter_find_append hid]
    exact substrTo_find_append hmethod

/-- A response answers a request if it starts with its id. -/
theorem answered_send_iff (recv : TagRecvData) (buffer : Bytes) :
    Answered id recv [.send recv.uid buffer recv.ip recv.port recv.fd] ↔
      id ++ [colon] <+: buffer := by
  constructor
  · rintro (hclose | ⟨buffer', heq, -, hprefix⟩)
    · cases hclose
    · cases heq
      exact hprefix
  · intro hprefix
    refine .inr ⟨buffer, rfl, ?_, hprefix⟩
    rintro rfl
    simp at hprefix

/-- No reply is no answer, which is why a request without a coroutine stays open. -/
theorem not_answered_nil : ¬Answered id recv [] := by
  rintro (hclose | ⟨buffer, heq, -⟩)
  · cases hclose
  · cases heq

/-- **When requests are answered**: for every request, servant, method, behaviour of its code and
mode. -/
theorem answered_iff (servant : Servant) (call : Call) (mode : Mode) (hid : colon ∉ id)
    (hmethod : colon ∉ method) (hrequest : recv.buffer = id ++ colon :: (method ++ colon :: body)) :
    Answered id recv (replies servant call recv mode) ↔ Answers servant method call mode := by
  obtain ⟨hrequestId, hmethodOf⟩ := parts_of_request hid hmethod body
  rw [← hrequest] at hrequestId hmethodOf
  have hcases := servant.dispatch_eq call recv.buffer
  rw [hrequestId, hmethodOf] at hcases
  obtain ⟨himpl, code, buffer, hdispatch, hprefix⟩ | ⟨himpl, iRet, hdispatch⟩ := hcases
  · have hhandle : handle servant call recv = call.map fun i =>
        .send recv.uid (buffer i) recv.ip recv.port recv.fd := by
      rw [handle, hdispatch]
      cases call <;> rfl
    cases call with
    | error e =>
      have herror : handle servant (.error e) recv = .error e := hhandle
      cases mode with
      | thread =>
        simp only [replies, threadReplies, herror, Answers, himpl, iff_true]
        exact .inl rfl
      | coroutine created =>
        cases created with
        | zero => exact iff_of_false not_answered_nil fun h => h
        | succ created =>
          simp only [replies, coroutineReplies, herror, Answers, iff_false]
          exact not_answered_nil
    | ok i =>
      have hok : handle servant (.ok i) recv =
          .ok (.send recv.uid (buffer i) recv.ip recv.port recv.fd) := hhandle
      cases mode with
      | thread =>
        simp only [replies, threadReplies, hok, Answers, himpl, true_and]
        rw [answered_send_iff, hprefix]
      | coroutine created =>
        cases created with
        | zero => exact iff_of_false not_answered_nil fun h => h.1 rfl
        | succ created =>
          simp only [replies, coroutineReplies, hok, Answers, himpl, true_and]
          rw [answered_send_iff, hprefix]
          simp
  · have hok : handle servant call recv = .ok (.send recv.uid [] recv.ip recv.port recv.fd) := by
      rw [handle, hdispatch]
      rfl
    have hnever : ¬Answered id recv [.send recv.uid [] recv.ip recv.port recv.fd] := by
      rw [answered_send_iff]
      simp
    refine iff_of_false ?_ ?_
    · cases mode with
      | thread => simpa only [replies, threadReplies, hok] using hnever
      | coroutine created =>
        cases created with
        | zero => exact not_answered_nil
        | succ created => simpa only [replies, coroutineReplies, hok] using hnever
    · intro hanswers
      cases call <;> cases mode
      · exact himpl hanswers
      · exact hanswers
      · exact himpl hanswers.1
      · exact himpl hanswers.2.1

end Replies

/-- A request for `startServer` with the id `1`, as it comes from a connection. -/
def startRequest : TagRecvData :=
  ⟨1, bytes "1:startServer:x", bytes "127.0.0.1", 80, false, some 5⟩

/-- The statement for a node that starts a server, where both sides are true. -/
theorem answered_iff_sample :
    Answered (bytes "1") startRequest (replies .node (.ok 0) startRequest .thread) ∧
      (Answered (bytes "1") startRequest (replies .node (.ok 0) startRequest .thread) ↔
        Answers .node (bytes "startServer") (.ok 0) .thread) := by
  have hrequest : startRequest.buffer =
      bytes "1" ++ colon :: (bytes "startServer" ++ colon :: bytes "x") := by decide
  have hiff := answered_iff .node (.ok 0) .thread (by decide) (by decide) hrequest
  exact ⟨hiff.mpr ⟨rfl, trivial⟩, hiff⟩

/-- A request for `stopServer` with the id `1`, as it comes from a connection. -/
def stopRequest : TagRecvData :=
  ⟨1, bytes "1:stopServer:x", bytes "127.0.0.1", 80, false, some 5⟩

/-- `stopServer` is in the table of `Node`, and nothing answers it. -/
theorem answered_fails : ¬Answered (bytes "1") stopRequest
    (replies .node (.ok 0) stopRequest .thread) := by
  have hreplies : replies .node (.ok 0) stopRequest .thread =
      [.send 1 [] (bytes "127.0.0.1") 80 (some 5)] := by decide
  rw [hreplies]
  exact (answered_send_iff stopRequest []).not.mpr (by simp)

end ServantHandle

end Tars
