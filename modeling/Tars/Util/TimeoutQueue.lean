import Mathlib.Data.List.AList

/-!
# The timeout queue `TC_TimeoutQueueNew`

Three containers refer to each other by iterators: a hash map from ids to elements, a
multimap ordered by deadline, and the list of elements that were not sent yet. An
iterator keeps denoting its element until that is erased, so it is modelled by the
key of a map entry or by the identity of a container node. `Linked` says that the
three containers are cross-linked one to one.
-/

namespace Tars

/-- `PtrInfo`: an element with the iterators to its nodes in the other containers. -/
structure PtrInfo (T : Type*) where
  /-- The element. -/
  ptr : T
  /-- Whether it was sent. -/
  hasSend : Bool
  /-- Its node in `_time`. -/
  timeIter : ℕ
  /-- Its node in `_send`; only meaningful while `hasSend` is false. -/
  sendIter : ℕ

/-- A node of `_time`: its identity, which stands for an iterator, the deadline and `NodeInfo`. -/
structure TimeNode where
  /-- The identity of the node. -/
  node : ℕ
  /-- The key of the multimap. -/
  deadline : ℤ
  /-- `NodeInfo::dataIter`, as the id of the entry. -/
  dataIter : ℕ
  deriving DecidableEq

/-- A node of `_send`: its identity, which stands for an iterator, and `SendInfo`. -/
structure SendNode where
  /-- The identity of the node. -/
  node : ℕ
  /-- `SendInfo::dataIter`, as the id of the entry. -/
  dataIter : ℕ
  deriving DecidableEq

/-- The members of `TC_TimeoutQueueNew<T>`: the map of the data and the two lists of keys. -/
structure TimeoutQueue (T : Type*) where
  /-- `_data`. -/
  data : AList (fun _ : ℕ => PtrInfo T)
  /-- `_time`, in ascending order of deadlines. -/
  time : List TimeNode
  /-- `_send`, front first. -/
  send : List SendNode
  /-- The identity of the next node that is allocated. -/
  nextNode : ℕ

namespace TimeoutQueue

variable {T : Type*}

/-- The constructor: the map and the lists are empty. -/
def new : TimeoutQueue T := ⟨∅, [], [], 0⟩

/-- `sendListEmpty`: no stored element waits for being sent, so `doInvoke` has nothing to do. -/
def sendListEmpty (q : TimeoutQueue T) : Bool := q.send.isEmpty

/-- `getSend`: nothing for an empty list, else the element at the back. It fails where
the source asserts that the element is not marked as sent. -/
def getSend (q : TimeoutQueue T) : Option (Option T) :=
  match q.send.getLast? with
  | none => some none
  | some n =>
    match q.data.lookup n.dataIter with
    | none => none
    | some info => if info.hasSend then none else some (some info.ptr)

/-- `multimap::insert`: the new node goes behind those with the same deadline. -/
def insertTime (node : TimeNode) (time : List TimeNode) : List TimeNode :=
  time.takeWhile (fun n => n.deadline ≤ node.deadline) ++
    node :: time.dropWhile (fun n => n.deadline ≤ node.deadline)

/-- `push`: the queue afterwards and whether the id was free. -/
def push (q : TimeoutQueue T) (ptr : T) (uniqId : ℕ) (timeout : ℤ) (hasSend : Bool := true) :
    TimeoutQueue T × Bool :=
  if uniqId ∈ q.data then (q, false)
  else
    ({ data := q.data.insert uniqId ⟨ptr, hasSend, q.nextNode, q.nextNode⟩
       time := insertTime ⟨q.nextNode, timeout, uniqId⟩ q.time
       send := if hasSend then q.send else ⟨q.nextNode, uniqId⟩ :: q.send
       nextNode := q.nextNode + 1 }, true)

/-- `erase`: the queue afterwards and the element, if the id was there. -/
def erase (q : TimeoutQueue T) (uniqId : ℕ) : TimeoutQueue T × Option T :=
  match q.data.lookup uniqId with
  | none => (q, none)
  | some info =>
    ({ q with
       send := if info.hasSend then q.send else q.send.filter (fun n => n.node ≠ info.sendIter)
       time := q.time.filter (fun n => n.node ≠ info.timeIter)
       data := q.data.erase uniqId }, some info.ptr)

/-- `get`: the queue afterwards, which has lost the entry if `bErase` is set, and the element,
if the id was there. -/
def get (q : TimeoutQueue T) (uniqId : ℕ) (bErase : Bool := true) : TimeoutQueue T × Option T :=
  match q.data.lookup uniqId with
  | none => (q, none)
  | some info => (if bErase then (q.erase uniqId).1 else q, some info.ptr)

/-- `popSend`: the element at the back of the list is marked as sent or, with `del`, erased.
It fails where the source asserts that the list is not empty. -/
def popSend (q : TimeoutQueue T) (del : Bool := false) : Option (TimeoutQueue T) :=
  match q.send.getLast? with
  | none => none
  | some n =>
    match q.data.lookup n.dataIter with
    | none => none
    | some info =>
      some { q with
        data := if del then q.data.erase n.dataIter
          else q.data.insert n.dataIter { info with hasSend := true }
        time := if del then q.time.filter (fun m => m.node ≠ info.timeIter) else q.time
        send := q.send.dropLast }

/-- `timeout(t)` at the time `iNow`: the first entry of `_time` is erased if its deadline has
come. It fails if the iterator to the entry is not valid. -/
def timeoutOne (q : TimeoutQueue T) (iNow : ℤ) : Option (TimeoutQueue T × Option T) :=
  match q.time with
  | [] => some (q, none)
  | n :: time =>
    if iNow < n.deadline then some (q, none)
    else
      match q.data.lookup n.dataIter with
      | none => none
      | some info =>
        some ({ q with
          send := if info.hasSend then q.send
            else q.send.filter (fun m => m.node ≠ info.sendIter)
          data := q.data.erase n.dataIter
          time }, some info.ptr)

/-- The loop of `timeout()`; `fuel` bounds the number of its rounds. -/
def timeoutLoop : ℕ → TimeoutQueue T → ℤ → Option (TimeoutQueue T)
  | 0, _, _ => none
  | fuel + 1, q, iNow =>
    match q.time with
    | [] => some q
    | n :: time =>
      if iNow < n.deadline then some q
      else
        match q.data.lookup n.dataIter with
        | none => none
        | some info =>
          timeoutLoop fuel
            { q with
              send := if info.hasSend then q.send
                else q.send.filter (fun m => m.node ≠ info.sendIter)
              data := q.data.erase n.dataIter
              time } iNow

/-- `timeout()` at the time `iNow`. Every round but the last erases a node of `_time`. -/
def timeout (q : TimeoutQueue T) (iNow : ℤ) : Option (TimeoutQueue T) :=
  timeoutLoop (q.time.length + 1) q iNow

/-- The elements that were not sent yet, in the order in which they were pushed. -/
def unsent (q : TimeoutQueue T) : List T :=
  q.send.reverse.filterMap fun n => (q.data.lookup n.dataIter).map PtrInfo.ptr

/-- The containers are cross-linked one to one: every entry has its deadline node, it
has a send node exactly while it is unsent, and there are no other nodes. -/
structure Linked (q : TimeoutQueue T) : Prop where
  /-- Send nodes are distinct, so an iterator names one of them. -/
  send_nodup : (q.send.map SendNode.node).Nodup
  /-- Send nodes were allocated, so a new one is distinct from them. -/
  send_lt : ∀ n ∈ q.send, n.node < q.nextNode
  /-- A send node belongs to an unsent entry that points back to it. -/
  send_data : ∀ n ∈ q.send, ∃ info, q.data.lookup n.dataIter = some info ∧
    info.hasSend = false ∧ info.sendIter = n.node
  /-- An unsent entry has the send node it points to. -/
  data_send : ∀ id info, q.data.lookup id = some info → info.hasSend = false →
    ⟨info.sendIter, id⟩ ∈ q.send
  /-- Deadline nodes are distinct, so an iterator names one of them. -/
  time_nodup : (q.time.map TimeNode.node).Nodup
  /-- Deadline nodes were allocated, so a new one is distinct from them. -/
  time_lt : ∀ n ∈ q.time, n.node < q.nextNode
  /-- A deadline node belongs to an entry that points back to it. -/
  time_data : ∀ n ∈ q.time, ∃ info, q.data.lookup n.dataIter = some info ∧
    info.timeIter = n.node
  /-- An entry has the deadline node it points to. -/
  data_time : ∀ id info, q.data.lookup id = some info →
    ∃ deadline, ⟨info.timeIter, deadline, id⟩ ∈ q.time

/-- A new queue is cross-linked, since it has no entries. -/
theorem linked_new : (new : TimeoutQueue T).Linked :=
  ⟨by simp [new], by simp [new], by simp [new], by simp [new], by simp [new], by simp [new],
    by simp [new], by simp [new]⟩

section Operations

variable {q : TimeoutQueue T} {ptr : T} {uniqId : ℕ} {timeout : ℤ} {hasSend : Bool}

/-- Inserting into the multimap adds one node and loses none, wherever its deadline puts it. -/
theorem insertTime_perm (node : TimeNode) (time : List TimeNode) :
    (insertTime node time).Perm (node :: time) := by
  have h := List.takeWhile_append_dropWhile (p := fun n : TimeNode => n.deadline ≤ node.deadline)
    (l := time)
  unfold insertTime
  refine List.perm_middle.trans (List.Perm.cons _ ?_)
  rw [h]

/-- A push with an id in use changes nothing. -/
theorem push_of_mem (h : uniqId ∈ q.data) : q.push ptr uniqId timeout hasSend = (q, false) :=
  if_pos h

/-- A push succeeds exactly when the id is free. -/
theorem push_snd : (q.push ptr uniqId timeout hasSend).2 = true ↔ uniqId ∉ q.data := by
  unfold push
  split <;> simp [*]

/-- After a push with a free id the new entry is found, and all others as before. -/
theorem push_lookup (h : uniqId ∉ q.data) (id : ℕ) :
    (q.push ptr uniqId timeout hasSend).1.data.lookup id =
      if id = uniqId then some ⟨ptr, hasSend, q.nextNode, q.nextNode⟩ else q.data.lookup id := by
  rw [push, if_neg h]
  by_cases heq : id = uniqId
  · subst heq
    rw [if_pos rfl]
    exact AList.lookup_insert _
  · rw [if_neg heq]
    exact AList.lookup_insert_ne heq

/-- A push keeps every entry that is there, also one with the id that was to be pushed. -/
theorem push_keeps {id : ℕ} {info : PtrInfo T} (h : q.data.lookup id = some info) :
    (q.push ptr uniqId timeout hasSend).1.data.lookup id = some info := by
  by_cases hmem : uniqId ∈ q.data
  · rw [push_of_mem hmem]
    exact h
  · have hne : id ≠ uniqId := by
      rintro rfl
      rw [AList.lookup_eq_none.mpr hmem] at h
      cases h
    rw [push_lookup hmem, if_neg hne, h]

/-- An entry after a push was there before or is the pushed one. -/
theorem push_lookup_cases {id : ℕ} {info : PtrInfo T}
    (h : (q.push ptr uniqId timeout hasSend).1.data.lookup id = some info) :
    q.data.lookup id = some info ∨ info.ptr = ptr := by
  by_cases hmem : uniqId ∈ q.data
  · exact .inl (by rwa [push_of_mem hmem] at h)
  · rw [push_lookup hmem] at h
    split at h
    · exact .inr (by rw [← Option.some.inj h])
    · exact .inl h

/-- Pushing keeps the containers cross-linked: the new entry refers to its nodes, and they to it. -/
theorem Linked.push (h : q.Linked) : (q.push ptr uniqId timeout hasSend).1.Linked := by
  by_cases hmem : uniqId ∈ q.data
  · rwa [push_of_mem hmem]
  have hlookup (id : ℕ) : (q.push ptr uniqId timeout hasSend).1.data.lookup id =
      if id = uniqId then some ⟨ptr, hasSend, q.nextNode, q.nextNode⟩ else q.data.lookup id :=
    push_lookup hmem id
  have hnone : q.data.lookup uniqId = none := AList.lookup_eq_none.mpr hmem
  have hold {id : ℕ} {info : PtrInfo T} (hi : q.data.lookup id = some info) : id ≠ uniqId := by
    rintro rfl
    simp [hnone] at hi
  have hsend : (q.push ptr uniqId timeout hasSend).1.send =
      if hasSend then q.send else ⟨q.nextNode, uniqId⟩ :: q.send := by
    rw [TimeoutQueue.push, if_neg hmem]
  have htime : (q.push ptr uniqId timeout hasSend).1.time.Perm
      (⟨q.nextNode, timeout, uniqId⟩ :: q.time) := by
    rw [TimeoutQueue.push, if_neg hmem]
    exact insertTime_perm _ _
  have hnode : (q.push ptr uniqId timeout hasSend).1.nextNode = q.nextNode + 1 := by
    rw [TimeoutQueue.push, if_neg hmem]
  have hmemSend {n : SendNode} (hn : n ∈ (q.push ptr uniqId timeout hasSend).1.send) :
      n ∈ q.send ∨ hasSend = false ∧ n = ⟨q.nextNode, uniqId⟩ := by
    rw [hsend] at hn
    cases hasSend with
    | true => exact .inl hn
    | false => exact (List.mem_cons.mp hn).symm.imp id fun heq => ⟨rfl, heq⟩
  constructor
  · rw [hsend]
    cases hasSend with
    | true => exact h.send_nodup
    | false =>
      refine List.nodup_cons.mpr ⟨fun hin => ?_, h.send_nodup⟩
      obtain ⟨n, hn, heq⟩ := List.mem_map.mp hin
      exact absurd heq (Nat.ne_of_lt (h.send_lt n hn))
  · intro n hn
    rw [hnode]
    obtain hn | ⟨-, rfl⟩ := hmemSend hn
    · exact Nat.lt_succ_of_lt (h.send_lt n hn)
    · exact Nat.lt_succ_self _
  · intro n hn
    rw [hlookup]
    obtain hn | ⟨rfl, rfl⟩ := hmemSend hn
    · obtain ⟨info, hi, hunsent, hback⟩ := h.send_data n hn
      exact ⟨info, by rw [if_neg (hold hi), hi], hunsent, hback⟩
    · exact ⟨_, if_pos rfl, rfl, rfl⟩
  · intro id info hi hunsent
    rw [hlookup] at hi
    rw [hsend]
    split at hi
    · obtain rfl := Option.some.inj hi
      rename_i heq
      have hfalse : hasSend = false := hunsent
      subst heq hfalse
      exact List.mem_cons_self
    · have hin := h.data_send id info hi hunsent
      cases hasSend with
      | true => exact hin
      | false => exact List.mem_cons_of_mem _ hin
  · rw [(htime.map TimeNode.node).nodup_iff]
    refine List.nodup_cons.mpr ⟨fun hin => ?_, h.time_nodup⟩
    obtain ⟨n, hn, heq⟩ := List.mem_map.mp hin
    exact absurd heq (Nat.ne_of_lt (h.time_lt n hn))
  · intro n hn
    rw [hnode]
    obtain rfl | hn := List.mem_cons.mp (htime.mem_iff.mp hn)
    · exact Nat.lt_succ_self _
    · exact Nat.lt_succ_of_lt (h.time_lt n hn)
  · intro n hn
    rw [hlookup]
    obtain rfl | hn := List.mem_cons.mp (htime.mem_iff.mp hn)
    · exact ⟨_, if_pos rfl, rfl⟩
    · obtain ⟨info, hi, hback⟩ := h.time_data n hn
      exact ⟨info, by rw [if_neg (hold hi), hi], hback⟩
  · intro id info hi
    rw [hlookup] at hi
    split at hi
    · obtain rfl := Option.some.inj hi
      rename_i heq
      subst heq
      exact ⟨timeout, htime.mem_iff.mpr List.mem_cons_self⟩
    · obtain ⟨deadline, hin⟩ := h.data_time id info hi
      exact ⟨deadline, htime.mem_iff.mpr (List.mem_cons_of_mem _ hin)⟩

/-- Erasing an unknown id changes nothing, so nothing is returned. -/
theorem erase_of_lookup_none (h : q.data.lookup uniqId = none) : q.erase uniqId = (q, none) := by
  simp only [erase, h]

/-- Erasing returns the element that was stored under the id, or nothing if there was none. -/
theorem erase_snd : (q.erase uniqId).2 = (q.data.lookup uniqId).map PtrInfo.ptr := by
  unfold erase
  split <;> simp [*]

/-- After an erase the id is unknown and all others are found as before. -/
theorem erase_lookup (id : ℕ) :
    (q.erase uniqId).1.data.lookup id = if id = uniqId then none else q.data.lookup id := by
  cases hinfo : q.data.lookup uniqId with
  | none =>
    rw [erase_of_lookup_none hinfo]
    split
    · rename_i heq
      rw [heq, hinfo]
    · rfl
  | some info =>
    simp only [erase, hinfo]
    by_cases heq : id = uniqId
    · subst heq
      rw [if_pos rfl, AList.lookup_erase]
    · rw [if_neg heq, AList.lookup_erase_ne heq]

/-- Erasing keeps the containers cross-linked: the nodes of the entry go with it. -/
theorem Linked.erase (h : q.Linked) : (q.erase uniqId).1.Linked := by
  cases hinfo : q.data.lookup uniqId with
  | none => rwa [erase_of_lookup_none hinfo]
  | some gone =>
    have hlookup (id : ℕ) : (q.erase uniqId).1.data.lookup id =
        if id = uniqId then none else q.data.lookup id := erase_lookup id
    -- two entries never share a node, so only the erased entry loses its own
    have htimeNe {id : ℕ} {info : PtrInfo T} (hi : q.data.lookup id = some info)
        (hne : id ≠ uniqId) : info.timeIter ≠ gone.timeIter := by
      obtain ⟨d, hd⟩ := h.data_time id info hi
      obtain ⟨e, he⟩ := h.data_time uniqId gone hinfo
      intro heq
      have := List.inj_on_of_nodup_map h.time_nodup hd he heq
      exact hne (congrArg TimeNode.dataIter this)
    have hsendNe {id : ℕ} {info : PtrInfo T} (hi : q.data.lookup id = some info)
        (hunsent : info.hasSend = false) (hgone : gone.hasSend = false) (hne : id ≠ uniqId) :
        info.sendIter ≠ gone.sendIter := by
      intro heq
      have := List.inj_on_of_nodup_map h.send_nodup (h.data_send id info hi hunsent)
        (h.data_send uniqId gone hinfo hgone) heq
      exact hne (congrArg SendNode.dataIter this)
    have hsend : (q.erase uniqId).1.send = if gone.hasSend then q.send else
        q.send.filter (fun n => n.node ≠ gone.sendIter) := by
      simp only [TimeoutQueue.erase, hinfo]
    have htime : (q.erase uniqId).1.time = q.time.filter (fun n => n.node ≠ gone.timeIter) := by
      simp only [TimeoutQueue.erase, hinfo]
    have hnode : (q.erase uniqId).1.nextNode = q.nextNode := by
      simp only [TimeoutQueue.erase, hinfo]
    have hsub : (q.erase uniqId).1.send.Sublist q.send := by
      rw [hsend]
      split
      · exact List.Sublist.refl _
      · exact List.filter_sublist
    have hsubTime : (q.erase uniqId).1.time.Sublist q.time := by
      rw [htime]
      exact List.filter_sublist
    constructor
    · exact h.send_nodup.sublist (hsub.map _)
    · intro n hn
      rw [hnode]
      exact h.send_lt n (hsub.subset hn)
    · intro n hn
      obtain ⟨info, hi, hunsent, hback⟩ := h.send_data n (hsub.subset hn)
      have hne : n.dataIter ≠ uniqId := by
        intro heq
        rw [heq, hinfo] at hi
        obtain rfl := Option.some.inj hi
        rw [hsend, hunsent] at hn
        simp [hback] at hn
      exact ⟨info, by rw [hlookup, if_neg hne, hi], hunsent, hback⟩
    · intro id info hi hunsent
      rw [hlookup] at hi
      split at hi
      · cases hi
      · rename_i hne
        have hin := h.data_send id info hi hunsent
        rw [hsend]
        split
        · exact hin
        · rename_i hgone
          refine List.mem_filter.mpr ⟨hin, ?_⟩
          simpa using hsendNe hi hunsent (by simpa using hgone) hne
    · exact h.time_nodup.sublist (hsubTime.map _)
    · intro n hn
      rw [hnode]
      exact h.time_lt n (hsubTime.subset hn)
    · intro n hn
      obtain ⟨info, hi, hback⟩ := h.time_data n (hsubTime.subset hn)
      have hne : n.dataIter ≠ uniqId := by
        intro heq
        rw [heq, hinfo] at hi
        obtain rfl := Option.some.inj hi
        rw [htime] at hn
        simp [hback] at hn
      exact ⟨info, by rw [hlookup, if_neg hne, hi], hback⟩
    · intro id info hi
      rw [hlookup] at hi
      split at hi
      · cases hi
      · rename_i hne
        obtain ⟨d, hd⟩ := h.data_time id info hi
        rw [htime]
        exact ⟨d, List.mem_filter.mpr ⟨hd, by simpa using htimeNe hi hne⟩⟩

/-- Two entries never share their deadline node, so erasing one does not take the node of the other.
-/
theorem Linked.timeIter_inj (h : q.Linked) {id id' : ℕ} {info info' : PtrInfo T}
    (hi : q.data.lookup id = some info) (hi' : q.data.lookup id' = some info')
    (heq : info.timeIter = info'.timeIter) : id = id' := by
  obtain ⟨d, hd⟩ := h.data_time id info hi
  obtain ⟨e, he⟩ := h.data_time id' info' hi'
  have hnode := List.inj_on_of_nodup_map h.time_nodup hd he heq
  exact congrArg TimeNode.dataIter hnode

/-- The deadline node of an entry is the one that points back to it. -/
theorem Linked.node_eq_iff (h : q.Linked) {n : TimeNode} (hn : n ∈ q.time) {id : ℕ}
    {info : PtrInfo T} (hi : q.data.lookup id = some info) :
    n.node = info.timeIter ↔ n.dataIter = id := by
  obtain ⟨other, hother, hback⟩ := h.time_data n hn
  constructor
  · intro heq
    exact h.timeIter_inj hother hi (hback.trans heq)
  · rintro rfl
    rw [hi] at hother
    rw [Option.some.inj hother, hback]

/-- Erasing the entry of a deadline node erases that node. -/
theorem Linked.erase_time (h : q.Linked) (hi : uniqId ∈ q.data) :
    (q.erase uniqId).1.time = q.time.filter (fun n => n.dataIter ≠ uniqId) := by
  obtain ⟨info, hinfo⟩ := Option.isSome_iff_exists.mp (AList.lookup_isSome.mpr hi)
  simp only [TimeoutQueue.erase, hinfo]
  apply List.filter_congr
  intro n hn
  rw [decide_eq_decide, not_iff_not]
  exact h.node_eq_iff hn hinfo

/-- The send node of an unsent entry is the one that points back to it. -/
theorem Linked.sendNode_eq_iff (h : q.Linked) {n : SendNode} (hn : n ∈ q.send) {id : ℕ}
    {info : PtrInfo T} (hi : q.data.lookup id = some info) (hunsent : info.hasSend = false) :
    n.node = info.sendIter ↔ n.dataIter = id := by
  obtain ⟨other, hother, -, hback⟩ := h.send_data n hn
  constructor
  · intro heq
    have hmem := h.data_send id info hi hunsent
    have hnode := List.inj_on_of_nodup_map h.send_nodup hn hmem heq
    exact congrArg SendNode.dataIter hnode
  · rintro rfl
    rw [hi] at hother
    rw [Option.some.inj hother, hback]

/-- Erasing an entry erases its send node, if there is one. -/
theorem Linked.erase_send (h : q.Linked) (hi : uniqId ∈ q.data) :
    (q.erase uniqId).1.send = q.send.filter (fun n => n.dataIter ≠ uniqId) := by
  obtain ⟨info, hinfo⟩ := Option.isSome_iff_exists.mp (AList.lookup_isSome.mpr hi)
  simp only [TimeoutQueue.erase, hinfo]
  cases hunsent : info.hasSend with
  | true =>
    symm
    rw [if_pos rfl, List.filter_eq_self]
    intro n hn
    obtain ⟨other, hother, hfalse, -⟩ := h.send_data n hn
    rw [decide_eq_true_eq]
    rintro rfl
    rw [hinfo] at hother
    rw [Option.some.inj hother, hfalse] at hunsent
    cases hunsent
  | false =>
    apply List.filter_congr
    intro n hn
    rw [decide_eq_decide, not_iff_not]
    exact h.sendNode_eq_iff hn hinfo hunsent

/-- A list whose keys differ loses only its head when the head's key is filtered out. -/
private theorem filter_ne_head {α : Type*} {f : α → ℕ} {a : α} {l : List α}
    (h : ((a :: l).map f).Nodup) : (a :: l).filter (fun b => f b ≠ f a) = l := by
  rw [List.map_cons, List.nodup_cons] at h
  rw [List.filter_cons_of_neg (by simp), List.filter_eq_self]
  intro b hb
  rw [decide_eq_true_eq]
  intro heq
  exact h.1 (heq ▸ List.mem_map_of_mem hb)

/-- A due entry at the front of `_time` is erased and returned. -/
theorem Linked.timeoutOne_due (h : q.Linked) {n : TimeNode} {time : List TimeNode} {iNow : ℤ}
    (htime : q.time = n :: time) (hdue : n.deadline ≤ iNow) :
    ∃ info, q.data.lookup n.dataIter = some info ∧
      q.timeoutOne iNow = some ((q.erase n.dataIter).1, some info.ptr) := by
  have hn : n ∈ q.time := htime ▸ List.mem_cons_self
  obtain ⟨info, hinfo, hback⟩ := h.time_data n hn
  have htail : q.time.filter (fun m => m.node ≠ info.timeIter) = time := by
    rw [hback, htime]
    exact filter_ne_head (htime ▸ h.time_nodup)
  have hlate : ¬iNow < n.deadline := by omega
  refine ⟨info, hinfo, ?_⟩
  simp only [TimeoutQueue.erase, hinfo, htail]
  rw [timeoutOne, htime]
  simp only [hlate, if_false, hinfo]

/-- A round of `timeout()` does what a call of `timeout(t)` does, so what is proved of the one
carries over to the other. -/
theorem timeoutLoop_succ (fuel : ℕ) (q : TimeoutQueue T) (iNow : ℤ) :
    timeoutLoop (fuel + 1) q iNow =
      match q.timeoutOne iNow with
      | none => none
      | some (q', none) => some q'
      | some (q', some _) => timeoutLoop fuel q' iNow := by
  rw [timeoutLoop, timeoutOne]
  cases q.time with
  | nil => rfl
  | cons n time =>
    dsimp only
    by_cases hlate : iNow < n.deadline
    · rw [if_pos hlate, if_pos hlate]
    · rw [if_neg hlate, if_neg hlate]
      cases q.data.lookup n.dataIter <;> rfl

/-- Deleting the sent element erases its whole entry, its deadline node included. -/
theorem Linked.popSend_del (h : q.Linked) {send : List SendNode} {n : SendNode}
    (hsend : q.send = send ++ [n]) : q.popSend true = some (q.erase n.dataIter).1 := by
  have hn : n ∈ q.send := by simp [hsend]
  obtain ⟨info, hinfo, hunsent, hback⟩ := h.send_data n hn
  have hlast : send = q.send.filter (fun m => m.node ≠ info.sendIter) := by
    have hrev : ((n :: send.reverse).map SendNode.node).Nodup := by
      have hnodup := List.nodup_reverse.mpr h.send_nodup
      rw [← List.map_reverse, hsend] at hnodup
      simpa using hnodup
    have hhead := congrArg List.reverse (filter_ne_head hrev)
    rw [← List.filter_reverse, List.reverse_cons, List.reverse_reverse] at hhead
    rw [hback, hsend]
    exact hhead.symm
  simp only [popSend, TimeoutQueue.erase, hsend, List.getLast?_append, List.getLast?_singleton,
    Option.some_or, hinfo, hunsent, if_true, Bool.false_eq_true, if_false, List.dropLast_concat]
  rw [← hsend, ← hlast]

/-- Marking the element at the back as sent takes it off the list and changes nothing else. -/
theorem Linked.popSend_keep (h : q.Linked) {send : List SendNode} {n : SendNode}
    (hsend : q.send = send ++ [n]) :
    ∃ info q', q.data.lookup n.dataIter = some info ∧ info.hasSend = false ∧
      q.popSend false = some q' ∧ q'.time = q.time ∧ q'.send = send ∧ q'.nextNode = q.nextNode ∧
      ∀ id, q'.data.lookup id = if id = n.dataIter then some { info with hasSend := true }
        else q.data.lookup id := by
  have hn : n ∈ q.send := by simp [hsend]
  obtain ⟨info, hinfo, hunsent, -⟩ := h.send_data n hn
  refine ⟨info, { q with data := q.data.insert n.dataIter { info with hasSend := true }, send },
    hinfo, hunsent, ?_, rfl, rfl, rfl, fun id => ?_⟩
  · simp [popSend, hsend, hinfo]
  · by_cases heq : id = n.dataIter
    · subst heq
      rw [if_pos rfl]
      exact AList.lookup_insert _
    · rw [if_neg heq]
      exact AList.lookup_insert_ne heq

/-- Marking an element as sent keeps the containers cross-linked. -/
theorem Linked.popSend (h : q.Linked) {q' : TimeoutQueue T} {del : Bool}
    (hpop : q.popSend del = some q') : q'.Linked := by
  rcases List.eq_nil_or_concat q.send with hnil | ⟨send, n, hsend⟩
  · rw [TimeoutQueue.popSend, hnil] at hpop
    cases hpop
  rw [List.concat_eq_append] at hsend
  cases del with
  | true =>
    rw [h.popSend_del hsend] at hpop
    obtain rfl := Option.some.inj hpop
    exact h.erase
  | false =>
    obtain ⟨info, q'', hinfo, hunsent, hpop', htime, hsend', hnode, hlookup⟩ :=
      h.popSend_keep hsend
    obtain rfl := Option.some.inj (hpop'.symm.trans hpop)
    have hnodup := h.send_nodup
    rw [hsend, List.map_append, List.nodup_append] at hnodup
    have hne {m : SendNode} (hm : m ∈ send) : m.dataIter ≠ n.dataIter := by
      intro heq
      obtain ⟨other, hother, -, hback⟩ := h.send_data m (by simp [hsend, hm])
      obtain ⟨info', hinfo', -, hback'⟩ := h.send_data n (by simp [hsend])
      rw [heq, hinfo'] at hother
      rw [Option.some.inj hother] at hback'
      exact hnodup.2.2 m.node (List.mem_map_of_mem hm) n.node (by simp)
        (hback.symm.trans hback')
    constructor
    · rw [hsend']
      exact hnodup.1
    · intro m hm
      rw [hsend'] at hm
      rw [hnode]
      exact h.send_lt m (by simp [hsend, hm])
    · intro m hm
      rw [hsend'] at hm
      obtain ⟨other, hother⟩ := h.send_data m (by simp [hsend, hm])
      exact ⟨other, by rw [hlookup, if_neg (hne hm)]; exact hother.1, hother.2⟩
    · intro id other hother hfalse
      rw [hlookup] at hother
      split at hother
      · obtain rfl := Option.some.inj hother
        cases hfalse
      · rename_i hid
        have hmem := h.data_send id other hother hfalse
        rw [hsend, List.mem_append, List.mem_singleton] at hmem
        rw [hsend']
        exact hmem.resolve_right fun heq => hid (congrArg SendNode.dataIter heq)
    · rw [htime]
      exact h.time_nodup
    · intro m hm
      rw [hnode]
      exact h.time_lt m (htime ▸ hm)
    · intro m hm
      obtain ⟨other, hother, hback⟩ := h.time_data m (htime ▸ hm)
      rw [hlookup]
      split
      · rename_i heq
        rw [heq, hinfo] at hother
        exact ⟨_, rfl, by rw [← Option.some.inj hother] at hback; exact hback⟩
      · exact ⟨other, hother, hback⟩
    · intro id other hother
      rw [htime]
      rw [hlookup] at hother
      split at hother
      · rename_i heq
        obtain rfl := Option.some.inj hother
        rw [heq]
        exact h.data_time n.dataIter info hinfo
      · exact h.data_time id other hother

/-- What `getSend` finds is an entry that is stored and not yet sent, so its assertion holds. -/
theorem getSend_lookup (h : q.getSend = some (some ptr)) :
    ∃ id info, q.data.lookup id = some info ∧ info.hasSend = false ∧ info.ptr = ptr := by
  unfold getSend at h
  split at h
  · cases h
  · rename_i n _
    split at h
    · cases h
    · rename_i info hinfo
      split at h
      · cases h
      · rename_i hunsent
        exact ⟨n.dataIter, info, hinfo, by simpa using hunsent, by simpa using h⟩

/-- In a cross-linked queue with unsent elements, `getSend` finds the oldest one: its
node is at the back of the list and its entry is not marked as sent. -/
theorem Linked.getSend_spec (h : q.Linked) (hne : q.sendListEmpty = false) :
    ∃ n info, n ∈ q.send ∧ q.data.lookup n.dataIter = some info ∧ info.hasSend = false ∧
      q.getSend = some (some info.ptr) ∧ q.unsent.head? = some info.ptr := by
  have hsend : q.send ≠ [] := by simpa [sendListEmpty] using hne
  let n := q.send.getLast hsend
  have hmem : n ∈ q.send := List.getLast_mem hsend
  obtain ⟨info, hi, hunsent, -⟩ := h.send_data n hmem
  have hlast : q.send.getLast? = some n := List.getLast?_eq_some_getLast hsend
  have hrev : q.send.reverse = n :: q.send.dropLast.reverse := by
    conv_lhs => rw [← List.dropLast_append_getLast hsend]
    simp [n]
  refine ⟨n, info, hmem, hi, hunsent, ?_, ?_⟩
  · simp only [getSend, hlast, hi, hunsent, Bool.false_eq_true, if_false]
  · simp [unsent, hrev, hi]

end Operations

end TimeoutQueue

end Tars
