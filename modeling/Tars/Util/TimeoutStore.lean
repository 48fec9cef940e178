import Mathlib.Data.List.TakeWhile
import Tars.Library.Scripts
import Tars.Util.TimeoutQueue

/-!
# What the timeout queue is for

A store of elements with deadlines: a finite map from ids to an element, its deadline and
whether it was sent, together with the ids of the unsent elements, first in, first out.
`Represents` relates the three cross-linked containers to such a store, and every operation
of `TC_TimeoutQueueNew` answers like the store and keeps the relation.
-/

namespace Tars

/-- What the store knows about one id: the element, when it expires, and whether it was sent. -/
structure StoreEntry (T : Type*) where
  /-- The element. -/
  ptr : T
  /-- When it expires. -/
  deadline : ℤ
  /-- Whether it was sent. -/
  sent : Bool

/-- A finite map, kept as the list of its entries in push order, and a queue of ids. -/
structure TimeoutStore (T : Type*) where
  /-- The entries, the one that was pushed last at the end. -/
  entries : List (ℕ × StoreEntry T)
  /-- The ids of the unsent entries, the oldest first. -/
  unsent : List ℕ

namespace TimeoutStore

variable {T : Type*}

/-- The store without entries, in which nothing waits for being sent. -/
def empty : TimeoutStore T := ⟨[], []⟩

/-- The entry of an id, if the id is in use. -/
def lookup (s : TimeoutStore T) (id : ℕ) : Option (StoreEntry T) :=
  (s.entries.find? fun e => e.1 = id).map Prod.snd

/-- The store without an id: neither an entry nor a place among the unsent ones is left of it. -/
def remove (s : TimeoutStore T) (id : ℕ) : TimeoutStore T :=
  ⟨s.entries.filter (fun e => e.1 ≠ id), s.unsent.filter (fun other => other ≠ id)⟩

/-- A new entry, unless the id is in use. -/
def push (s : TimeoutStore T) (ptr : T) (id : ℕ) (deadline : ℤ) (sent : Bool) :
    TimeoutStore T × Bool :=
  if (s.lookup id).isSome then (s, false)
  else (⟨s.entries ++ [(id, ⟨ptr, deadline, sent⟩)],
    if sent then s.unsent else s.unsent ++ [id]⟩, true)

/-- The element of an id, which is removed if `remove` is set. -/
def get (s : TimeoutStore T) (id : ℕ) (erase : Bool) : TimeoutStore T × Option T :=
  (if erase then s.remove id else s, (s.lookup id).map StoreEntry.ptr)

/-- The oldest unsent element, which stays in the store. -/
def getSend (s : TimeoutStore T) : Option T :=
  s.unsent.head?.bind fun id => (s.lookup id).map StoreEntry.ptr

/-- The entries after the element of an id was sent. -/
def markSent (s : TimeoutStore T) (id : ℕ) : List (ℕ × StoreEntry T) :=
  s.entries.map fun e => if e.1 = id then (e.1, { e.2 with sent := true }) else e

/-- The oldest unsent element is sent, and stays in the store or is removed from it. -/
def popSend (s : TimeoutStore T) (del : Bool) : Option (TimeoutStore T) :=
  match s.unsent with
  | [] => none
  | id :: rest => some (if del then s.remove id else ⟨s.markSent id, rest⟩)

/-- Whether the deadline of an entry has come; at the deadline itself it has. -/
def isDue (now : ℤ) (e : ℕ × StoreEntry T) : Bool := e.2.deadline ≤ now

/-- The entry with the earliest deadline; of several it is the one that was pushed first. -/
def earliest : List (ℕ × StoreEntry T) → Option (ℕ × StoreEntry T)
  | [] => none
  | e :: rest =>
    match earliest rest with
    | none => some e
    | some f => if f.2.deadline < e.2.deadline then some f else some e

/-- The due entry with the earliest deadline is removed. -/
def timeoutOne (s : TimeoutStore T) (now : ℤ) : TimeoutStore T × Option T :=
  match earliest (s.entries.filter (isDue now)) with
  | none => (s, none)
  | some e => (s.remove e.1, some e.2.ptr)

/-- All due entries are removed, the unsent ones among them as well. -/
def timeout (s : TimeoutStore T) (now : ℤ) : TimeoutStore T :=
  ⟨s.entries.filter (fun e => !isDue now e),
    s.unsent.filter (fun id => !s.entries.any fun e => e.1 = id && isDue now e)⟩

end TimeoutStore

/-- The calls of a timeout queue. The clock is an argument of the calls that read it. -/
inductive QueueCall (T : Type*) where
  /-- `push(ptr, uniqId, timeout, hasSend)`. -/
  | push (ptr : T) (uniqId : ℕ) (timeout : ℤ) (hasSend : Bool)
  /-- `get(uniqId, t, bErase)`. -/
  | get (uniqId : ℕ) (bErase : Bool)
  /-- `erase(uniqId, t)`. -/
  | erase (uniqId : ℕ)
  /-- `getSend(t)`. -/
  | getSend
  /-- `popSend(del)`. -/
  | popSend (del : Bool)
  /-- `timeout()`. -/
  | timeout (iNow : ℤ)
  /-- `timeout(t)`. -/
  | timeoutOne (iNow : ℤ)

/-- What the calls of a timeout queue return to their callers, for both levels of the design. -/
inductive QueueAnswer (T : Type*) where
  /-- Whether a push succeeded. -/
  | pushed (ok : Bool)
  /-- The element that was found, if there was one. -/
  | found (t : Option T)

section Calls

variable {T : Type*}

/-- One call of the queue. It is refused where the source would violate an assertion or use an
invalid iterator. -/
def TimeoutQueue.step (q : TimeoutQueue T) :
    QueueCall T → Option (TimeoutQueue T × List (QueueAnswer T))
  | .push ptr uniqId timeout hasSend =>
    some ((q.push ptr uniqId timeout hasSend).1, [.pushed (q.push ptr uniqId timeout hasSend).2])
  | .get uniqId bErase => some ((q.get uniqId bErase).1, [.found (q.get uniqId bErase).2])
  | .erase uniqId => some ((q.erase uniqId).1, [.found (q.erase uniqId).2])
  | .getSend => q.getSend.map fun t => (q, [.found t])
  | .popSend del => (q.popSend del).map fun q' => (q', [])
  | .timeout iNow => (q.timeout iNow).map fun q' => (q', [])
  | .timeoutOne iNow => (q.timeoutOne iNow).map fun r => (r.1, [.found r.2])

/-- The same call of the store. Only `popSend` of an empty queue is refused. -/
def TimeoutStore.step (s : TimeoutStore T) :
    QueueCall T → Option (TimeoutStore T × List (QueueAnswer T))
  | .push ptr uniqId timeout hasSend =>
    some ((s.push ptr uniqId timeout hasSend).1, [.pushed (s.push ptr uniqId timeout hasSend).2])
  | .get uniqId bErase => some ((s.get uniqId bErase).1, [.found (s.get uniqId bErase).2])
  | .erase uniqId => some ((s.get uniqId true).1, [.found (s.get uniqId true).2])
  | .getSend => some (s, [.found s.getSend])
  | .popSend del => (s.popSend del).map fun s' => (s', [])
  | .timeout iNow => some (s.timeout iNow, [])
  | .timeoutOne iNow => some ((s.timeoutOne iNow).1, [.found (s.timeoutOne iNow).2])

end Calls

namespace TimeoutQueue

open TimeoutStore

variable {T : Type*}

/-- The order of `_time`: by deadline, then by push order. -/
def Before (a b : TimeNode) : Prop :=
  a.deadline < b.deadline ∨ a.deadline = b.deadline ∧ a.node < b.node

/-- The deadline node of an id; nodes are numbered in push order. -/
def serial (q : TimeoutQueue T) (id : ℕ) : ℕ := ((q.data.lookup id).map PtrInfo.timeIter).getD 0

/-- The containers stand for a store: they have the same entries, and the lists have its order. -/
structure Represents (q : TimeoutQueue T) (s : TimeoutStore T) : Prop where
  /-- The containers are cross-linked one to one. -/
  linked : q.Linked
  /-- `_time` is in order. -/
  sorted : q.time.Pairwise Before
  /-- The entries of the store are those of `_data`, with the deadlines of their nodes. -/
  entry_iff : ∀ id e, (id, e) ∈ s.entries ↔ ∃ info, q.data.lookup id = some info ∧
    info.ptr = e.ptr ∧ info.hasSend = e.sent ∧ ⟨info.timeIter, e.deadline, id⟩ ∈ q.time
  /-- The entries of the store are in push order. -/
  push_order : s.entries.Pairwise fun a b => q.serial a.1 < q.serial b.1
  /-- The queue of the store is `_send`, read from the back. -/
  fifo : s.unsent = q.send.reverse.map SendNode.dataIter

section Simulation

variable {q : TimeoutQueue T} {s : TimeoutStore T} {uniqId : ℕ} {iNow : ℤ}

/-- A new queue stands for the empty store: the start of every run. -/
theorem represents_new : (new : TimeoutQueue T).Represents empty :=
  ⟨linked_new, by simp [new], by simp [new, empty], by simp [empty], rfl⟩

/-- An entry of `_data` is an entry of the store. -/
theorem Represents.entry_mem (h : q.Represents s) {info : PtrInfo T}
    (hi : q.data.lookup uniqId = some info) :
    ∃ e, (uniqId, e) ∈ s.entries ∧ e.ptr = info.ptr := by
  obtain ⟨deadline, hnode⟩ := h.linked.data_time uniqId info hi
  exact ⟨⟨info.ptr, deadline, info.hasSend⟩, (h.entry_iff _ _).mpr ⟨info, hi, rfl, rfl, hnode⟩, rfl⟩

/-- Looking an id up finds the same element in the code's map and in the abstract store. -/
theorem Represents.lookup_ptr (h : q.Represents s) (id : ℕ) :
    (s.lookup id).map StoreEntry.ptr = (q.data.lookup id).map PtrInfo.ptr := by
  unfold TimeoutStore.lookup
  cases hfind : s.entries.find? fun e => e.1 = id with
  | none =>
    cases hi : q.data.lookup id with
    | none => rfl
    | some info =>
      obtain ⟨e, hmem, -⟩ := h.entry_mem hi
      have hnone := List.find?_eq_none.mp hfind _ hmem
      simp at hnone
  | some e =>
    have hmem := List.mem_of_find?_eq_some hfind
    have hid : e.1 = id := by simpa using List.find?_some hfind
    obtain ⟨info, hi, hptr, -, -⟩ := (h.entry_iff e.1 e.2).mp hmem
    rw [← hid, hi]
    simp [hptr]

/-- The same ids are in use in the containers as in the store. -/
theorem Represents.lookup_isSome (h : q.Represents s) (id : ℕ) :
    (s.lookup id).isSome = true ↔ id ∈ q.data := by
  rw [← AList.lookup_isSome, ← Option.isSome_map (f := StoreEntry.ptr), h.lookup_ptr,
    Option.isSome_map]

/-- Inserting a new node keeps the order of `_time`. -/
theorem pairwise_insertTime {node : TimeNode} {time : List TimeNode} (h : time.Pairwise Before)
    (hlast : ∀ n ∈ time, n.node < node.node) : (insertTime node time).Pairwise Before := by
  have hsplit : time.takeWhile (fun n => n.deadline ≤ node.deadline) ++
      time.dropWhile (fun n => n.deadline ≤ node.deadline) = time := List.takeWhile_append_dropWhile
  rw [← hsplit, List.pairwise_append] at h
  unfold insertTime
  rw [List.pairwise_append, List.pairwise_cons]
  have hfront : ∀ a ∈ time.takeWhile (fun n => n.deadline ≤ node.deadline), Before a node := by
    intro a ha
    have hle : a.deadline ≤ node.deadline := by simpa using List.mem_takeWhile_imp ha
    have hlt := hlast a ((List.takeWhile_sublist _).subset ha)
    unfold Before
    omega
  have hback : ∀ b ∈ time.dropWhile (fun n => n.deadline ≤ node.deadline), Before node b := by
    intro b hb
    cases hdrop : time.dropWhile (fun n => n.deadline ≤ node.deadline) with
    | nil => simp [hdrop] at hb
    | cons c rest =>
      have hc : ¬c.deadline ≤ node.deadline := by
        have hhead := List.head?_dropWhile_not (fun n : TimeNode => n.deadline ≤ node.deadline) time
        rw [hdrop] at hhead
        simpa using hhead
      rw [hdrop] at hb h
      rcases List.mem_cons.mp hb with rfl | hrest
      · exact .inl (by omega)
      · have horder := (List.pairwise_cons.mp h.2.1).1 b hrest
        unfold Before at horder ⊢
        omega
  refine ⟨h.1, ⟨hback, h.2.1⟩, ?_⟩
  intro a ha b hb
  rcases List.mem_cons.mp hb with rfl | hb
  · exact hfront a ha
  · exact h.2.2 a ha b hb

/-- The number of the deadline node that an entry points to. -/
theorem serial_eq {info : PtrInfo T} (hi : q.data.lookup uniqId = some info) :
    q.serial uniqId = info.timeIter := by
  simp [serial, hi]

/-- **`push`** answers like the store, and the containers stand for the new store. -/
theorem Represents.push (h : q.Represents s) (ptr : T) (uniqId : ℕ) (timeout : ℤ)
    (hasSend : Bool) :
    (q.push ptr uniqId timeout hasSend).2 = (s.push ptr uniqId timeout hasSend).2 ∧
      (q.push ptr uniqId timeout hasSend).1.Represents (s.push ptr uniqId timeout hasSend).1 := by
  by_cases hmem : uniqId ∈ q.data
  · rw [push_of_mem hmem, TimeoutStore.push, if_pos ((h.lookup_isSome uniqId).mpr hmem)]
    exact ⟨rfl, h⟩
  have hfree : ¬(s.lookup uniqId).isSome = true := by rwa [h.lookup_isSome]
  have hnone : q.data.lookup uniqId = none := AList.lookup_eq_none.mpr hmem
  have hlookup (id : ℕ) : (q.push ptr uniqId timeout hasSend).1.data.lookup id =
      if id = uniqId then some ⟨ptr, hasSend, q.nextNode, q.nextNode⟩ else q.data.lookup id :=
    push_lookup hmem id
  have htime : (q.push ptr uniqId timeout hasSend).1.time =
      insertTime ⟨q.nextNode, timeout, uniqId⟩ q.time := by
    rw [TimeoutQueue.push, if_neg hmem]
  have hnodes (n : TimeNode) : n ∈ (q.push ptr uniqId timeout hasSend).1.time ↔
      n = ⟨q.nextNode, timeout, uniqId⟩ ∨ n ∈ q.time := by
    rw [htime, (insertTime_perm _ _).mem_iff, List.mem_cons]
  have hserial {id : ℕ} (hne : id ≠ uniqId) :
      (q.push ptr uniqId timeout hasSend).1.serial id = q.serial id := by
    unfold serial
    rw [hlookup, if_neg hne]
  have hold {e : ℕ × StoreEntry T} (he : e ∈ s.entries) :
      e.1 ≠ uniqId ∧ q.serial e.1 < q.nextNode := by
    obtain ⟨info, hi, -, -, hnode⟩ := (h.entry_iff e.1 e.2).mp he
    constructor
    · intro heq
      rw [heq, hnone] at hi
      cases hi
    · rw [serial_eq hi]
      exact h.linked.time_lt _ hnode
  rw [TimeoutStore.push, if_neg hfree]
  refine ⟨push_snd.mpr hmem, h.linked.push, ?_, ?_, ?_, ?_⟩
  · rw [htime]
    exact pairwise_insertTime h.sorted h.linked.time_lt
  · intro id e
    rw [List.mem_append, List.mem_singleton, h.entry_iff, hlookup]
    by_cases heq : id = uniqId
    · subst heq
      simp only [hnone, if_true, hnodes, Option.some.injEq, exists_eq_left', reduceCtorEq,
        false_and, exists_false, false_or, Prod.mk.injEq, true_and]
      constructor
      · rintro rfl
        exact ⟨rfl, rfl, .inl rfl⟩
      · rintro ⟨hptr, hsent, hnode | hnode⟩
        · cases e
          simp only [TimeNode.mk.injEq, true_and, and_true] at hnode
          simp only [StoreEntry.mk.injEq]
          exact ⟨hptr.symm, hnode, hsent.symm⟩
        · exact absurd (h.linked.time_lt _ hnode) (lt_irrefl _)
    · simp only [heq, if_false, hnodes, TimeNode.mk.injEq, and_false, false_or, Prod.mk.injEq,
        false_and, or_false]
  · rw [List.pairwise_append]
    refine ⟨h.push_order.imp_of_mem ?_, List.pairwise_singleton _ _, ?_⟩
    · intro a b ha hb hab
      rwa [hserial (hold ha).1, hserial (hold hb).1]
    · intro a ha b hb
      rw [List.mem_singleton.mp hb, hserial (hold ha).1]
      have hnew : (q.push ptr uniqId timeout hasSend).1.serial uniqId = q.nextNode :=
        serial_eq (by rw [hlookup, if_pos rfl])
      rw [hnew]
      exact (hold ha).2
  · rw [TimeoutQueue.push, if_neg hmem]
    cases hasSend with
    | true => exact h.fifo
    | false => simp [h.fifo]

/-- Erasing an entry of the code, with both its nodes, is removing its id from the store. -/
theorem Represents.erase (h : q.Represents s) (hmem : uniqId ∈ q.data) :
    (q.erase uniqId).1.Represents (s.remove uniqId) := by
  have hserial {id : ℕ} (hne : id ≠ uniqId) : (q.erase uniqId).1.serial id = q.serial id := by
    unfold serial
    rw [erase_lookup, if_neg hne]
  refine ⟨h.linked.erase, ?_, ?_, ?_, ?_⟩
  · rw [h.linked.erase_time hmem]
    exact h.sorted.filter _
  · intro id e
    rw [TimeoutStore.remove, List.mem_filter, h.entry_iff, erase_lookup, h.linked.erase_time hmem]
    by_cases heq : id = uniqId
    · simp [heq]
    · simp [heq, List.mem_filter]
  · refine (h.push_order.filter _).imp_of_mem ?_
    intro a b ha hb hab
    rw [hserial (by simpa using (List.mem_filter.mp ha).2),
      hserial (by simpa using (List.mem_filter.mp hb).2)]
    exact hab
  · rw [TimeoutStore.remove, h.fifo, h.linked.erase_send hmem, ← List.filter_reverse,
      List.filter_map]
    rfl

/-- Removing an unknown id changes nothing, as erasing it from the containers does. -/
theorem Represents.remove_of_notMem (h : q.Represents s) (hmem : uniqId ∉ q.data) :
    s.remove uniqId = s := by
  have hnone : q.data.lookup uniqId = none := AList.lookup_eq_none.mpr hmem
  have hentries : s.entries.filter (fun e => e.1 ≠ uniqId) = s.entries := by
    rw [List.filter_eq_self]
    intro e he
    obtain ⟨info, hi, -⟩ := (h.entry_iff e.1 e.2).mp he
    rw [decide_eq_true_eq]
    intro heq
    rw [heq, hnone] at hi
    cases hi
  have hunsent : s.unsent.filter (fun other => other ≠ uniqId) = s.unsent := by
    rw [List.filter_eq_self]
    intro id hid
    rw [h.fifo] at hid
    obtain ⟨n, hn, rfl⟩ := List.mem_map.mp hid
    obtain ⟨info, hi, -⟩ := h.linked.send_data n (List.mem_reverse.mp hn)
    rw [decide_eq_true_eq]
    intro heq
    rw [heq, hnone] at hi
    cases hi
  rw [TimeoutStore.remove, hentries, hunsent]

/-- **`get`** answers like the store, and the containers stand for the new store. -/
theorem Represents.get (h : q.Represents s) (uniqId : ℕ) (bErase : Bool) :
    (q.get uniqId bErase).2 = (s.get uniqId bErase).2 ∧
      (q.get uniqId bErase).1.Represents (s.get uniqId bErase).1 := by
  have hptr := h.lookup_ptr uniqId
  cases hi : q.data.lookup uniqId with
  | none =>
    have hmem : uniqId ∉ q.data := AList.lookup_eq_none.mp hi
    rw [hi] at hptr
    simp only [TimeoutQueue.get, hi, TimeoutStore.get, hptr, h.remove_of_notMem hmem, ite_self]
    exact ⟨rfl, h⟩
  | some info =>
    have hmem : uniqId ∈ q.data := AList.lookup_isSome.mp (by rw [hi]; rfl)
    rw [hi] at hptr
    simp only [TimeoutQueue.get, hi, TimeoutStore.get, hptr]
    refine ⟨rfl, ?_⟩
    cases bErase with
    | true => exact h.erase hmem
    | false => exact h

/-- `erase` is `get` that erases, so one theorem serves both. -/
theorem get_true : q.get uniqId true = q.erase uniqId := by
  unfold TimeoutQueue.get TimeoutQueue.erase
  cases q.data.lookup uniqId <;> rfl

/-- **`getSend`** finds the same element as the store, and the assertion in it holds. -/
theorem Represents.getSend (h : q.Represents s) : q.getSend = some s.getSend := by
  rcases List.eq_nil_or_concat q.send with hnil | ⟨send, n, hsend⟩
  · simp [TimeoutQueue.getSend, TimeoutStore.getSend, h.fifo, hnil]
  · rw [List.concat_eq_append] at hsend
    obtain ⟨info, hi, hunsent, -⟩ := h.linked.send_data n (by simp [hsend])
    have hptr := h.lookup_ptr n.dataIter
    rw [hi] at hptr
    simp [TimeoutQueue.getSend, TimeoutStore.getSend, h.fifo, hsend, hi, hunsent, hptr]

/-- Marking an entry as sent is what `popSend` does without deletion. -/
theorem Represents.markSent (h : q.Represents s) {q' : TimeoutQueue T} {send : List SendNode}
    {n : SendNode} (hsend : q.send = send ++ [n]) (hpop : q.popSend false = some q') :
    q'.Represents ⟨s.markSent n.dataIter, send.reverse.map SendNode.dataIter⟩ := by
  obtain ⟨info, q'', hinfo, -, hpop', htime, hsend', -, hlookup⟩ := h.linked.popSend_keep hsend
  obtain rfl := Option.some.inj (hpop'.symm.trans hpop)
  have hserial (id : ℕ) : q''.serial id = q.serial id := by
    unfold serial
    rw [hlookup]
    split
    · rename_i heq
      rw [heq, hinfo]
      rfl
    · rfl
  refine ⟨h.linked.popSend hpop, htime ▸ h.sorted, ?_, ?_, by rw [hsend']⟩
  · intro id e
    rw [TimeoutStore.markSent, List.mem_map, hlookup, htime]
    constructor
    · rintro ⟨f, hf, hfe⟩
      obtain ⟨other, hother, hptr, hsent, hnode⟩ := (h.entry_iff f.1 f.2).mp hf
      split at hfe
      · rename_i hid
        obtain ⟨rfl, rfl⟩ := Prod.mk.inj hfe
        rw [hid, hinfo] at hother
        obtain rfl := Option.some.inj hother
        exact ⟨_, if_pos hid, hptr, rfl, hnode⟩
      · rename_i hid
        subst hfe
        exact ⟨other, by rwa [if_neg hid], hptr, hsent, hnode⟩
    · rintro ⟨other, hother, hptr, hsent, hnode⟩
      split at hother
      · rename_i hid
        subst hid
        obtain rfl := Option.some.inj hother
        refine ⟨(n.dataIter, ⟨info.ptr, e.deadline, info.hasSend⟩),
          (h.entry_iff _ _).mpr ⟨info, hinfo, rfl, rfl, hnode⟩, ?_⟩
        cases e
        simp only [if_true, Prod.mk.injEq, true_and, StoreEntry.mk.injEq]
        exact ⟨hptr, hsent⟩
      · rename_i hid
        exact ⟨(id, e), (h.entry_iff _ _).mpr ⟨other, hother, hptr, hsent, hnode⟩, if_neg hid⟩
  · rw [TimeoutStore.markSent, List.pairwise_map]
    apply h.push_order.imp
    intro a b hab
    have hsame (e : ℕ × StoreEntry T) :
        (if e.1 = n.dataIter then (e.1, { e.2 with sent := true }) else e).1 = e.1 := by
      split <;> rfl
    rw [hsame, hsame, hserial, hserial]
    exact hab

/-- **`popSend`** of a queue with unsent elements acts like the store. -/
theorem Represents.popSend (h : q.Represents s) {del : Bool} {s' : TimeoutStore T}
    (hpop : s.popSend del = some s') : ∃ q', q.popSend del = some q' ∧ q'.Represents s' := by
  rcases List.eq_nil_or_concat q.send with hnil | ⟨send, n, hsend⟩
  · rw [TimeoutStore.popSend, h.fifo, hnil] at hpop
    cases hpop
  rw [List.concat_eq_append] at hsend
  have hunsent : s.unsent = n.dataIter :: send.reverse.map SendNode.dataIter := by
    rw [h.fifo, hsend]
    simp
  rw [TimeoutStore.popSend, hunsent] at hpop
  obtain rfl := Option.some.inj hpop
  cases del with
  | true =>
    obtain ⟨info, hi, -⟩ := h.linked.send_data n (by simp [hsend])
    exact ⟨_, h.linked.popSend_del hsend, h.erase (AList.lookup_isSome.mp (by rw [hi]; rfl))⟩
  | false =>
    obtain ⟨-, q', -, -, hpop', -⟩ := h.linked.popSend_keep hsend
    exact ⟨q', hpop', h.markSent hsend hpop'⟩

/-- The earliest entry is one of the entries, so it may be looked up and removed. -/
theorem earliest_mem {l : List (ℕ × StoreEntry T)} {e : ℕ × StoreEntry T}
    (h : earliest l = some e) : e ∈ l := by
  induction l generalizing e with
  | nil => cases h
  | cons f rest ih =>
    rw [earliest] at h
    cases hrest : earliest rest with
    | none =>
      rw [hrest] at h
      rw [← Option.some.inj h]
      exact List.mem_cons_self
    | some g =>
      simp only [hrest] at h
      split at h
      · rw [← Option.some.inj h]
        exact List.mem_cons_of_mem _ (ih hrest)
      · rw [← Option.some.inj h]
        exact List.mem_cons_self

/-- The earliest entry is the one that no other entry comes before. -/
theorem earliest_eq {r : ℕ × StoreEntry T → ℕ × StoreEntry T → Prop}
    (hr : ∀ a b, r a b → ¬r b a) {l : List (ℕ × StoreEntry T)} (hl : l.Pairwise r)
    {e : ℕ × StoreEntry T} (he : e ∈ l) (hfirst : ∀ f ∈ l, f = e ∨ e.2.deadline < f.2.deadline ∨
      e.2.deadline = f.2.deadline ∧ r e f) : earliest l = some e := by
  induction l with
  | nil => cases he
  | cons f rest ih =>
    obtain ⟨hhead, hrest⟩ := List.pairwise_cons.mp hl
    by_cases hin : e ∈ rest
    · have htail := ih hrest hin fun g hg => hfirst g (List.mem_cons_of_mem _ hg)
      have hlt : e.2.deadline < f.2.deadline := by
        rcases hfirst f List.mem_cons_self with rfl | hlt | ⟨-, hef⟩
        · exact absurd (hhead f hin) (hr f f (hhead f hin))
        · exact hlt
        · exact absurd hef (hr f e (hhead e hin))
      simp only [earliest, htail, hlt, if_true]
    · obtain rfl : e = f := (List.mem_cons.mp he).resolve_right hin
      cases htail : earliest rest with
      | none => simp only [earliest, htail]
      | some g =>
        have hle : ¬g.2.deadline < e.2.deadline := by
          rcases hfirst g (List.mem_cons_of_mem _ (earliest_mem htail)) with rfl | hlt | ⟨heq, -⟩
          · exact Int.lt_irrefl _
          · omega
          · omega
        simp only [earliest, htail, hle, if_false]

/-- **One round of an expiry** finds no due entry, or erases the earliest one. -/
theorem Represents.timeoutOne_cases (h : q.Represents s) (iNow : ℤ) :
    q.timeoutOne iNow = some (q, none) ∧ s.entries.filter (isDue iNow) = [] ∨
      ∃ e, earliest (s.entries.filter (isDue iNow)) = some e ∧ e.1 ∈ q.data ∧
        q.timeoutOne iNow = some ((q.erase e.1).1, some e.2.ptr) ∧
        (q.erase e.1).1.time.length < q.time.length := by
  cases htime : q.time with
  | nil =>
    left
    refine ⟨by simp [TimeoutQueue.timeoutOne, htime], ?_⟩
    rw [List.filter_eq_nil_iff]
    intro e he
    obtain ⟨info, -, -, -, hnode⟩ := (h.entry_iff e.1 e.2).mp he
    simp [htime] at hnode
  | cons n time =>
    have hbefore := (List.pairwise_cons.mp (htime ▸ h.sorted)).1
    by_cases hlate : iNow < n.deadline
    · left
      refine ⟨by simp [TimeoutQueue.timeoutOne, htime, hlate], ?_⟩
      rw [List.filter_eq_nil_iff]
      intro e he
      obtain ⟨info, -, -, -, hnode⟩ := (h.entry_iff e.1 e.2).mp he
      rw [htime] at hnode
      have hdeadline : n.deadline ≤ e.2.deadline := by
        rcases List.mem_cons.mp hnode with heq | hin
        · exact Int.le_of_eq (by rw [← heq])
        · have horder := hbefore _ hin
          unfold Before at horder
          simp only at horder
          omega
      simp only [isDue, decide_eq_true_eq]
      omega
    · right
      obtain ⟨info, hi, hone⟩ := h.linked.timeoutOne_due htime (Int.not_lt.mp hlate)
      have hn : n ∈ q.time := htime ▸ List.mem_cons_self
      have hnode : n.node = info.timeIter := (h.linked.node_eq_iff hn hi).mpr rfl
      have hmem : n.dataIter ∈ q.data := AList.lookup_isSome.mp (by rw [hi]; rfl)
      refine ⟨(n.dataIter, ⟨info.ptr, n.deadline, info.hasSend⟩), ?_, hmem, hone, ?_⟩
      · apply earliest_eq (fun a b => Nat.lt_asymm) (h.push_order.filter _)
        · rw [List.mem_filter, h.entry_iff]
          refine ⟨⟨info, hi, rfl, rfl, ?_⟩, ?_⟩
          · rw [← hnode]
            exact hn
          · simp only [isDue, decide_eq_true_eq]
            omega
        · intro f hf
          obtain ⟨other, hother, hptr, hsent, hin⟩ :=
            (h.entry_iff f.1 f.2).mp (List.mem_filter.mp hf).1
          rw [htime] at hin
          rcases List.mem_cons.mp hin with heq | hrest
          · left
            obtain ⟨id, e⟩ := f
            obtain rfl : id = n.dataIter := congrArg TimeNode.dataIter heq
            have hdeadline : e.deadline = n.deadline := congrArg TimeNode.deadline heq
            rw [hi] at hother
            obtain rfl := Option.some.inj hother
            cases e
            simp_all
          · right
            have horder := hbefore _ hrest
            rw [serial_eq hi, serial_eq hother, ← hnode]
            exact horder
      · rw [h.linked.erase_time hmem, htime, List.filter_cons_of_neg (by simp), List.length_cons]
        exact Nat.lt_succ_of_le (List.length_filter_le _ _)

/-- **`timeout(t)`** answers like the store, and the containers stand for the new store. -/
theorem Represents.timeoutOne (h : q.Represents s) (iNow : ℤ) :
    ∃ q', q.timeoutOne iNow = some (q', (s.timeoutOne iNow).2) ∧
      q'.Represents (s.timeoutOne iNow).1 := by
  unfold TimeoutStore.timeoutOne
  rcases h.timeoutOne_cases iNow with ⟨hone, hnone⟩ | ⟨e, hearliest, hmem, hone, -⟩
  · rw [hnone]
    exact ⟨q, hone, h⟩
  · rw [hearliest]
    exact ⟨_, hone, h.erase hmem⟩

/-- Without due entries nothing expires, so the store stays as it is. -/
theorem timeout_of_nil (hnone : s.entries.filter (isDue iNow) = []) : s.timeout iNow = s := by
  rw [List.filter_eq_nil_iff] at hnone
  have hentries : s.entries.filter (fun e => !isDue iNow e) = s.entries := by
    rw [List.filter_eq_self]
    intro e he
    simpa using hnone e he
  have hunsent : s.unsent.filter (fun id => !s.entries.any fun e => e.1 = id && isDue iNow e) =
      s.unsent := by
    rw [List.filter_eq_self]
    intro id _
    rw [Bool.not_eq_true', List.any_eq_false]
    intro e he
    simp [hnone e he]
  rw [TimeoutStore.timeout, hentries, hunsent]

/-- Removing a due entry first makes no difference to the expiry of the rest, since all due entries
go anyway. -/
theorem Represents.timeout_remove (h : q.Represents s) {e : ℕ × StoreEntry T}
    (he : e ∈ s.entries) (hdue : isDue iNow e = true) :
    (s.remove e.1).timeout iNow = s.timeout iNow := by
  have hunique {f : ℕ × StoreEntry T} (hf : f ∈ s.entries) (hid : f.1 = e.1) :
      isDue iNow f = true := by
    obtain ⟨info, hi, -, -, hnode⟩ := (h.entry_iff f.1 f.2).mp hf
    obtain ⟨info', hi', -, -, hnode'⟩ := (h.entry_iff e.1 e.2).mp he
    rw [hid] at hi hnode
    obtain rfl := Option.some.inj (hi.symm.trans hi')
    have hsame := List.inj_on_of_nodup_map h.linked.time_nodup hnode hnode' rfl
    simp only [TimeNode.mk.injEq, true_and, and_true] at hsame
    simpa only [isDue, hsame] using hdue
  have hentries : (s.entries.filter fun f => f.1 ≠ e.1).filter (fun f => !isDue iNow f) =
      s.entries.filter fun f => !isDue iNow f := by
    rw [List.filter_filter]
    apply List.filter_congr
    intro f hf
    by_cases hid : f.1 = e.1
    · simp [hid, hunique hf hid]
    · simp [hid]
  have hunsent : (s.unsent.filter fun id => id ≠ e.1).filter (fun id =>
        !(s.entries.filter fun f => f.1 ≠ e.1).any fun f => f.1 = id && isDue iNow f) =
      s.unsent.filter fun id => !s.entries.any fun f => f.1 = id && isDue iNow f := by
    rw [List.filter_filter]
    apply List.filter_congr
    intro id _
    by_cases hid : id = e.1
    · have hany : (s.entries.any fun f => f.1 = id && isDue iNow f) = true :=
        List.any_eq_true.mpr ⟨e, he, by simp [hid, hdue]⟩
      simp [hid, hid ▸ hany]
    · have hany : ((s.entries.filter fun f => f.1 ≠ e.1).any fun f =>
          f.1 = id && isDue iNow f) = s.entries.any fun f => f.1 = id && isDue iNow f := by
        rw [List.any_filter]
        apply List.any_congr rfl
        intro f
        by_cases hf : f.1 = id
        · simp [hf, hid]
        · simp [hf]
      rw [hany]
      simp [hid]
  simp only [TimeoutStore.timeout, TimeoutStore.remove, hentries, hunsent]

/-- **`timeout()`** ends and removes exactly the due entries: with one round for each node its loop
has enough. -/
theorem Represents.timeoutLoop (h : q.Represents s) (iNow : ℤ) {fuel : ℕ}
    (hfuel : q.time.length < fuel) :
    ∃ q', timeoutLoop fuel q iNow = some q' ∧ q'.Represents (s.timeout iNow) := by
  induction fuel generalizing q s with
  | zero => omega
  | succ fuel ih =>
    rw [timeoutLoop_succ]
    rcases h.timeoutOne_cases iNow with ⟨hone, hnone⟩ | ⟨e, hearliest, hmem, hone, hshort⟩
    · rw [hone, timeout_of_nil hnone]
      exact ⟨q, rfl, h⟩
    · have he := List.mem_filter.mp (earliest_mem hearliest)
      rw [hone, ← h.timeout_remove he.1 he.2]
      exact ih (h.erase hmem) (by omega)

/-- **One call** answers like the store and keeps the relation. -/
theorem Represents.step (h : q.Represents s) {call : QueueCall T} {s' : TimeoutStore T}
    {answers : List (QueueAnswer T)} (hstep : s.step call = some (s', answers)) :
    ∃ q', q.step call = some (q', answers) ∧ q'.Represents s' := by
  cases call with
  | push ptr uniqId timeout hasSend =>
    obtain ⟨hanswer, hnext⟩ := h.push ptr uniqId timeout hasSend
    obtain ⟨rfl, rfl⟩ := Prod.mk.inj (Option.some.inj hstep)
    exact ⟨_, by rw [TimeoutQueue.step, hanswer], hnext⟩
  | get uniqId bErase =>
    obtain ⟨hanswer, hnext⟩ := h.get uniqId bErase
    obtain ⟨rfl, rfl⟩ := Prod.mk.inj (Option.some.inj hstep)
    exact ⟨_, by rw [TimeoutQueue.step, hanswer], hnext⟩
  | erase uniqId =>
    obtain ⟨hanswer, hnext⟩ := h.get uniqId true
    rw [get_true] at hanswer hnext
    obtain ⟨rfl, rfl⟩ := Prod.mk.inj (Option.some.inj hstep)
    exact ⟨_, by rw [TimeoutQueue.step, hanswer], hnext⟩
  | getSend =>
    obtain ⟨rfl, rfl⟩ := Prod.mk.inj (Option.some.inj hstep)
    exact ⟨q, by rw [TimeoutQueue.step, h.getSend]; rfl, h⟩
  | popSend del =>
    obtain ⟨next, hpop, heq⟩ := Option.map_eq_some_iff.mp hstep
    obtain ⟨rfl, rfl⟩ := Prod.mk.inj heq
    obtain ⟨q', hpop', hnext⟩ := h.popSend hpop
    exact ⟨q', by rw [TimeoutQueue.step, hpop']; rfl, hnext⟩
  | timeout iNow =>
    obtain ⟨rfl, rfl⟩ := Prod.mk.inj (Option.some.inj hstep)
    obtain ⟨q', hloop, hnext⟩ := h.timeoutLoop iNow (Nat.lt_succ_self _)
    exact ⟨q', by rw [TimeoutQueue.step, TimeoutQueue.timeout, hloop]; rfl, hnext⟩
  | timeoutOne iNow =>
    obtain ⟨rfl, rfl⟩ := Prod.mk.inj (Option.some.inj hstep)
    obtain ⟨q', hone, hnext⟩ := h.timeoutOne iNow
    exact ⟨q', by rw [TimeoutQueue.step, hone]; rfl, hnext⟩

end Simulation

/-- **The queue is a store.** Every sequence of calls that the store accepts (it refuses only
`popSend` of an empty send list) is executed by the queue without a violated assertion and
with the same answers. Its containers are cross-linked one to one and stand for the store
reached, and a push that fails changes nothing. -/
theorem simulates_store (calls : List (QueueCall T)) (s : TimeoutStore T)
    (answers : List (QueueAnswer T))
    (hexec : Scripts.exec TimeoutStore.step .empty calls = some (s, answers)) :
    ∃ q, Scripts.exec TimeoutQueue.step .new calls = some (q, answers) ∧ q.Linked ∧
      q.Represents s ∧ ∀ ptr uniqId timeout hasSend,
        (q.push ptr uniqId timeout hasSend).2 = false →
          (q.push ptr uniqId timeout hasSend).1 = q := by
  obtain ⟨q, hq, hrep⟩ :=
    Scripts.exec_simulation (fun q s call s' answers h hstep => h.step hstep) represents_new hexec
  refine ⟨q, hq, hrep.linked, hrep, ?_⟩
  intro ptr uniqId timeout hasSend hfails
  have hmem : uniqId ∈ q.data := by
    by_contra hfree
    rw [push_snd.mpr hfree] at hfails
    cases hfails
  rw [push_of_mem hmem]

/-- Two unsent entries and a sent one; one is sent, one expires and one is fetched. -/
def sampleCalls : List (QueueCall Bool) :=
  [.push true 7 50 false, .push false 8 20 false, .push true 7 10 true, .getSend, .popSend false,
    .timeoutOne 30, .getSend, .get 7 true, .timeout 60]

/-- The statement for the run of `sampleCalls`, which pushes an id twice, sends, erases and lets an
entry expire. -/
theorem simulates_store_sample :
    ∃ s, Scripts.exec TimeoutStore.step .empty sampleCalls = some (s,
        [.pushed true, .pushed true, .pushed false, .found (some true), .found (some false),
          .found none, .found (some true)]) ∧
      ∃ q, Scripts.exec TimeoutQueue.step .new sampleCalls = some (q,
        [.pushed true, .pushed true, .pushed false, .found (some true), .found (some false),
          .found none, .found (some true)]) ∧ q.Represents s := by
  refine ⟨_, rfl, ?_⟩
  obtain ⟨q, hexec, -, hrep, -⟩ := simulates_store sampleCalls _ _ rfl
  exact ⟨q, hexec, hrep⟩

end TimeoutQueue

end Tars
