import Tars.Server.Connection

/-!
# Servants

A servant finds the method of a request between its first two separators, in a table of two
entries. What it puts into the buffer is the response, whatever it returns.
-/

namespace Tars

/-- The servants of the repository, which differ in their methods and in what they do when called.
-/
inductive Servant where
  /-- `Node`, implemented by `NodeImp`. -/
  | node
  /-- `ServerF`, implemented by `ServerImp`. -/
  | serverF
  /-- `AdminReg`, implemented by `AdminRegistryImp`. -/
  | adminReg
  /-- `AdminF`, implemented by `AdminServant`. -/
  | adminF
  deriving DecidableEq

/-- What the code that an implementation calls does: it throws, or returns a value, which only
`NodeImp::startServer` reads. -/
abbrev Call := Except Unit ℤ

/-- `requestId` of a request: what is before the first separator. -/
def requestIdOf (sReq : Bytes) : Bytes := substrTo sReq (find colon sReq)

/-- `method` of a request: what is between the first separator and the next. -/
def methodOf (request : Bytes) : Bytes :=
  let requestBody := substrAfter request (find colon request)
  substrTo requestBody (find colon requestBody)

/-- `equal_range` on a sorted table of methods: the index of a method. -/
def findMethod (table : List Bytes) (method : Bytes) : Option ℕ := table.findIdx? (· = method)

namespace Servant

/-- `NodeImp::startServer`, where `doProcess` starts a process. The response says whether it
started. -/
def NodeImp.startServer (doProcess : Call) (sReq : Bytes) : Except Unit (ℤ × Bytes) :=
  doProcess.map fun iRet =>
    let result :=
      if iRet = 0 then bytes "server is activating" else bytes "have notify to startServer"
    (iRet, requestIdOf sReq ++ colon :: result)

/-- `AdminRegistryImp::startServer`, which notifies a node and responds at once. -/
def AdminRegistryImp.startServer (notifies : Call) (sReq : Bytes) : Except Unit (ℤ × Bytes) :=
  notifies.map fun _ => (1, requestIdOf sReq ++ colon :: bytes "right now")

/-- `ServerImp::keepAlive`, which notes that a server is alive and responds with a fixed text. -/
def ServerImp.keepAlive (call : Call) : Except Unit (ℤ × Bytes) :=
  call.map fun _ => (-1, bytes "I have received")

/-- `Node::onDispatch`: the method is looked up in a table, and an unknown one gets an empty
response. -/
def Node.onDispatch (call : Call) (request : Bytes) : Except Unit (ℤ × Bytes) :=
  match findMethod [bytes "startServer", bytes "stopServer"] (methodOf request) with
  | none => .ok (-3, [])
  | some 0 => NodeImp.startServer call request
  | some _ => .ok (0, [])

/-- `ServerF::onDispatch`: the method is looked up in a table, of which one is implemented. -/
def ServerF.onDispatch (call : Call) (request : Bytes) : Except Unit (ℤ × Bytes) :=
  match findMethod [bytes "keepAlive", bytes "reportVersion"] (methodOf request) with
  | none => .ok (-3, [])
  | some 0 => ServerImp.keepAlive call
  | some _ => .ok (-3, [])

/-- `AdminReg::onDispatch`: the method is looked up in a table, of which one is implemented. -/
def AdminReg.onDispatch (call : Call) (request : Bytes) : Except Unit (ℤ × Bytes) :=
  match findMethod [bytes "startServer", bytes "stopServer"] (methodOf request) with
  | none => .ok (-3, [])
  | some 0 => AdminRegistryImp.startServer call request
  | some _ => .ok (0, [])

/-- `AdminF::onDispatch`: neither `notify` nor `shutdown` is given the buffer. -/
def AdminF.onDispatch (call : Call) (request : Bytes) : Except Unit (ℤ × Bytes) :=
  match findMethod [bytes "notify", bytes "shutdown"] (methodOf request) with
  | none => .ok (-3, [])
  | some _ => call.map fun _ => (0, [])

/-- `dispatch`: the return code and the buffer, as the servant's own `onDispatch` leaves them. -/
def dispatch (servant : Servant) (call : Call) (request : Bytes) : Except Unit (ℤ × Bytes) :=
  match servant with
  | node => Node.onDispatch call request
  | serverF => ServerF.onDispatch call request
  | adminReg => AdminReg.onDispatch call request
  | adminF => AdminF.onDispatch call request

/-- The methods that are implemented, for each servant. The others in its table do nothing. -/
def Implements : Servant → Bytes → Prop
  | node, method | adminReg, method => method = bytes "startServer"
  | serverF, method => method = bytes "keepAlive"
  | adminF, method => method = bytes "notify" ∨ method = bytes "shutdown"

/-- The servants that put the id of a request into its response. -/
def Identifies : Servant → Prop
  | node | adminReg => True
  | serverF | adminF => False

/-- The first method of a table is found at its first place. -/
theorem findMethod_first (first second : Bytes) : findMethod [first, second] first = some 0 := by
  simp [findMethod, List.findIdx?_cons]

/-- Any other method is found at the second place, or not at all. -/
theorem findMethod_of_ne {first method : Bytes} (h : method ≠ first) (second : Bytes) :
    findMethod [first, second] method = if method = second then some 1 else none := by
  have hfirst : decide (first = method) = false := decide_eq_false h.symm
  rw [findMethod, List.findIdx?_cons, hfirst, List.findIdx?_cons, List.findIdx?_nil]
  by_cases hsecond : method = second
  · simp [hsecond]
  · simp [hsecond, Ne.symm hsecond]

/-- A response with the id of the request begins with it and a separator, so the client finds the
id. -/
private theorem starts_with_id (id text : Bytes) : id ++ [colon] <+: id ++ colon :: text :=
  ⟨text, by rw [List.append_assoc, List.singleton_append]⟩

/-- A response without a separator has no id, so it answers no request. -/
private theorem not_starts_with_id {id buffer : Bytes} (h : colon ∉ buffer) :
    ¬id ++ [colon] <+: buffer :=
  fun hfront => h (hfront.subset (List.mem_append_right id (List.mem_singleton_self colon)))

/-- **`dispatch`**: a method that is implemented is called, and the response has the id of the
request or not, as the servant does it. The response to all other requests is empty. -/
theorem dispatch_eq (servant : Servant) (call : Call) (request : Bytes) :
    (servant.Implements (methodOf request) ∧ ∃ (code : ℤ → ℤ) (buffer : ℤ → Bytes),
        servant.dispatch call request = call.map (fun iRet => (code iRet, buffer iRet)) ∧
        ∀ iRet, requestIdOf request ++ [colon] <+: buffer iRet ↔ servant.Identifies) ∨
      ¬servant.Implements (methodOf request) ∧
        ∃ iRet, servant.dispatch call request = .ok (iRet, []) := by
  cases servant with
  | node =>
    by_cases hstart : methodOf request = bytes "startServer"
    · refine .inl ⟨hstart, id, fun iRet => requestIdOf request ++ colon ::
        if iRet = 0 then bytes "server is activating" else bytes "have notify to startServer", ?_,
        fun iRet => iff_of_true (starts_with_id _ _) trivial⟩
      simp only [dispatch, Node.onDispatch, hstart, findMethod_first]
      rfl
    · refine .inr ⟨hstart, ?_⟩
      simp only [dispatch, Node.onDispatch, findMethod_of_ne hstart]
      by_cases hstop : methodOf request = bytes "stopServer"
      · refine ⟨0, ?_⟩
        rw [if_pos hstop]
        rfl
      · exact ⟨-3, by rw [if_neg hstop]⟩
  | serverF =>
    by_cases hkeep : methodOf request = bytes "keepAlive"
    · have hnone : colon ∉ bytes "I have received" := by decide
      refine .inl ⟨hkeep, fun _ => -1, fun _ => bytes "I have received", ?_,
        fun iRet => iff_of_false (not_starts_with_id hnone) id⟩
      simp only [dispatch, ServerF.onDispatch, hkeep, findMethod_first]
      rfl
    · refine .inr ⟨hkeep, -3, ?_⟩
      simp only [dispatch, ServerF.onDispatch, findMethod_of_ne hkeep]
      by_cases hreport : methodOf request = bytes "reportVersion"
      · rw [if_pos hreport]
        rfl
      · rw [if_neg hreport]
  | adminReg =>
    by_cases hstart : methodOf request = bytes "startServer"
    · refine .inl ⟨hstart, fun _ => 1, fun _ => requestIdOf request ++ colon :: bytes "right now",
        ?_, fun iRet => iff_of_true (starts_with_id _ _) trivial⟩
      simp only [dispatch, AdminReg.onDispatch, hstart, findMethod_first]
      rfl
    · refine .inr ⟨hstart, ?_⟩
      simp only [dispatch, AdminReg.onDispatch, findMethod_of_ne hstart]
      by_cases hstop : methodOf request = bytes "stopServer"
      · refine ⟨0, ?_⟩
        rw [if_pos hstop]
        rfl
      · exact ⟨-3, by rw [if_neg hstop]⟩
  | adminF =>
    have hempty : ¬requestIdOf request ++ [colon] <+: [] := not_starts_with_id List.not_mem_nil
    by_cases hnotify : methodOf request = bytes "notify"
    · refine .inl ⟨.inl hnotify, fun _ => 0, fun _ => [], ?_, fun iRet => iff_of_false hempty id⟩
      simp only [dispatch, AdminF.onDispatch, hnotify, findMethod_first]
    simp only [dispatch, AdminF.onDispatch, findMethod_of_ne hnotify]
    by_cases hshutdown : methodOf request = bytes "shutdown"
    · refine .inl ⟨.inr hshutdown, fun _ => 0, fun _ => [], ?_,
        fun iRet => iff_of_false hempty id⟩
      rw [if_pos hshutdown]
    · refine .inr ⟨not_or.mpr ⟨hnotify, hshutdown⟩, -3, ?_⟩
      rw [if_neg hshutdown]

end Servant

end Tars
