import Tars.Client.ResponseFraming
import Tars.Server.Handle

/-!
# Requests and their responses

The client numbers its requests with a `uint32_t`, prints the number as an `int` in front of the
method and the body, and the server puts what it finds before the first separator in front of its
result. This file joins both ends: whatever is in the body and in the result, the server sees the
method, and the response completes the request it answers and no other one.
-/

namespace Tars

namespace ObjectProxy

open ServantHandle

/-- `request` of a message, as `tars_invoke` and `tars_invoke_async` form it. -/
def requestOf (sFuncName request : Bytes) : Bytes := sFuncName ++ colon :: request

/-- The response of a servant that answers with the id of the request. -/
def replyTo (sReq result : Bytes) : Bytes := requestIdOf sReq ++ colon :: result

section Correlation

variable {o o' : ObjectProxy} {msg : ReqMessage} {method body : Bytes}

/-- The server finds the printed id and the method in what was transmitted. -/
theorem parts_of_serialised (hrequest : msg.request = requestOf method body)
    (hmethod : colon ∉ method) (id : ℕ) :
    requestIdOf (serialise msg id).sReqData = toString (toInt32 id) ∧
      methodOf (serialise msg id).sReqData = method := by
  have hid : colon ∉ toString (toInt32 id) := colon_notMem_toString _
  have hdata : (serialise msg id).sReqData =
      toString (toInt32 id) ++ colon :: (method ++ colon :: body) := by
    rw [serialise, hrequest, requestOf]
  rw [hdata]
  exact parts_of_request hid hmethod body

/-- The id in front of a reply is the key of its request. -/
theorem idOf_replyTo (hrequest : msg.request = requestOf method body) (hmethod : colon ∉ method)
    {id : ℕ} (hid : id < 2 ^ 32) (result : Bytes) :
    idOf (replyTo (serialise msg id).sReqData result) = id := by
  obtain ⟨hlo, hhi⟩ := toInt32_bounds id
  rw [replyTo, (parts_of_serialised hrequest hmethod id).1]
  exact (idOf_respond hlo hhi result).trans (toUInt32_toInt32 hid)

/-- `invoke` stores its message under the new id, unless the id is in use. -/
theorem outstanding_invoke {outcome : ConnectOutcome} {answer : SendResult} {events : List Event}
    (hinvoke : o.invoke msg outcome answer = some (o', events, true))
    (hfree : o.outstanding o.generateId = none) :
    o'.outstanding o.generateId = some (serialise msg o.generateId) := by
  obtain ⟨-, hfalse, -⟩ | ⟨-, -, trans, hasSend, handed, -, heq⟩ := invoke_cases hinvoke
  · cases hfalse
  · obtain ⟨rfl, -⟩ := Prod.mk.inj heq
    have hkey : toUInt32 (serialise msg o.generateId).iRequestId = o.generateId :=
      toUInt32_toInt32 o.generateId_bounds.2
    have hunused : o.generateId ∉ o.timeoutQueue.data := by
      rw [outstanding, Option.map_eq_none_iff] at hfree
      rwa [← AList.lookup_eq_none]
    rw [outstanding, pushMessage_timeoutQueue, hkey, TimeoutQueue.push_lookup hunused, if_pos rfl]
    rfl

end Correlation

/-- **Correlation of requests and responses.** Take an `invoke` that did not throw, in any state of
the proxy and so with any id, for any method without a separator and any body. The message is then
stored under its id, if the id was free, and the server finds exactly the method in what was
transmitted. In whatever later state the message is still stored, the reply with any result
completes this message and erases its entry, and all other entries stay. -/
theorem reply_completes_request {o o' : ObjectProxy} {msg : ReqMessage} {outcome : ConnectOutcome}
    {answer : SendResult} {events : List Event} {method body : Bytes}
    (hinvoke : o.invoke msg outcome answer = some (o', events, true))
    (hrequest : msg.request = requestOf method body) (hmethod : colon ∉ method) :
    (o.outstanding o.generateId = none →
        o'.outstanding o.generateId = some (serialise msg o.generateId)) ∧
      methodOf (serialise msg o.generateId).sReqData = method ∧
      ∀ (later : ObjectProxy) (result : Bytes),
        later.outstanding o.generateId = some (serialise msg o.generateId) →
        (later.finishInvoke (replyTo (serialise msg o.generateId).sReqData result)).2 =
            [.finishInvoke (finishInvokeMsg { serialise msg o.generateId with
              response := replyTo (serialise msg o.generateId).sReqData result })] ∧
          ∀ id, (later.finishInvoke
              (replyTo (serialise msg o.generateId).sReqData result)).1.outstanding id =
            if id = o.generateId then none else later.outstanding id := by
  refine ⟨outstanding_invoke hinvoke, (parts_of_serialised hrequest hmethod _).2,
    fun later result hstored => ?_⟩
  have hkey := idOf_replyTo hrequest hmethod o.generateId_bounds.2 result
  obtain ⟨hcompletion, herased⟩ :=
    finishInvoke_spec later (replyTo (serialise msg o.generateId).sReqData result)
  rw [hkey] at herased
  refine ⟨?_, herased⟩
  rw [hcompletion, completion, hkey, hstored]
  rfl

/-- A proxy whose next id is `2 ^ 31`, which prints as a negative number. -/
def halfway : ObjectProxy := { new with id := 2 ^ 31 - 1 }

/-- A call of `m` whose body contains separators, which must not be taken for the end of anything.
-/
def colonMessage : ReqMessage := { sampleMessage with request := bytes "m:a:b" }

/-- The id `2 ^ 31` and a body with separators: the message is stored and transmitted with a
negative number, from which the server finds the method, and the reply completes it and erases its
entry. -/
theorem reply_completes_request_halfway :
    ∃ o' events, halfway.invoke colonMessage .connected (.accepted 100) =
        some (o', events, true) ∧
      (serialise colonMessage halfway.generateId).sReqData = bytes "-2147483648:m:a:b" ∧
      methodOf (serialise colonMessage halfway.generateId).sReqData = bytes "m" ∧
      o'.outstanding (2 ^ 31) = some (serialise colonMessage halfway.generateId) ∧
      replyTo (serialise colonMessage halfway.generateId).sReqData (bytes "done") =
        bytes "-2147483648:done" ∧
      (o'.finishInvoke (bytes "-2147483648:done")).2 =
        [.finishInvoke (finishInvokeMsg { serialise colonMessage halfway.generateId with
          response := bytes "-2147483648:done" })] ∧
      (o'.finishInvoke (bytes "-2147483648:done")).1.outstanding (2 ^ 31) = none := by
  obtain ⟨hstored, hmethod, hreply⟩ := @reply_completes_request halfway _ colonMessage .connected
    (.accepted 100) _ (bytes "m") (bytes "a:b") rfl (by decide) (by decide)
  have hstored := hstored (by decide)
  obtain ⟨hevents, herased⟩ := hreply _ (bytes "done") hstored
  have hsent : replyTo (serialise colonMessage halfway.generateId).sReqData (bytes "done") =
      bytes "-2147483648:done" := by decide +kernel
  have hid : halfway.generateId = 2 ^ 31 := by decide
  rw [hsent] at hevents herased
  refine ⟨_, _, rfl, by decide +kernel, hmethod, hid ▸ hstored, hsent, hevents, ?_⟩
  rw [herased, if_pos hid.symm]

end ObjectProxy

end Tars
