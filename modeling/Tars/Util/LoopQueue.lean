import Mathlib.Algebra.Order.Group.Nat
import Mathlib.Data.List.Basic

/-!
# The ring queue `TC_LoopQueue`

A fixed array with a write index `_iBegin` and a read index `_iEnd`; one slot always
stays free, so equal indices mean an empty queue. `Holds` relates a ring to the list
of its elements, oldest first, and the operations act on that list as on a bounded
queue.
-/

namespace Tars

/-- The members of `TC_LoopQueue`. A slot that was never written is `none`. -/
structure LoopQueue (T : Type*) where
  /-- The slots of `_p`. -/
  p : List (Option T)
  /-- `_iCapacity`, the number of slots. -/
  iCapacity : ℕ
  /-- `_iCapacitySub`, the last slot. -/
  iCapacitySub : ℕ
  /-- `_iBegin`, where the next element is written. -/
  iBegin : ℕ
  /-- `_iEnd`, where the next element is read. -/
  iEnd : ℕ

namespace LoopQueue

variable {T : Type*}

/-- The constructor for `iSize` elements, which allocates one place more. -/
def new (iSize : ℕ) : LoopQueue T := ⟨List.replicate (iSize + 1) none, iSize + 1, iSize, 0, 0⟩

/-- The test with which `push_back` refuses an element; `_iCapacity-2` is a `uint32_t`. -/
def isFull (q : LoopQueue T) : Bool :=
  (q.iBegin < q.iEnd && q.iEnd - q.iBegin < 2) ||
    (q.iEnd < q.iBegin && (q.iCapacity + 2 ^ 32 - 2) % 2 ^ 32 < q.iBegin - q.iEnd)

/-- `size`: how far the two indices are apart, around the ring. -/
def size (q : LoopQueue T) : ℕ :=
  if q.iBegin < q.iEnd then q.iBegin + q.iCapacity - q.iEnd else q.iBegin - q.iEnd

/-- An index after one step round the ring: behind the last place it starts at the front again. -/
def next (q : LoopQueue T) (i : ℕ) : ℕ := if i = q.iCapacitySub then 0 else i + 1

/-- What one `push_back(t, bEmpty)` leaves behind: its result, its flag and the ring. -/
structure PushResult (T : Type*) where
  /-- The value returned. -/
  ok : Bool
  /-- The output argument `bEmpty`. -/
  bEmpty : Bool
  /-- The queue afterwards. -/
  queue : LoopQueue T

/-- `push_back(t, bEmpty)`: the element is put at `iBegin`, unless the ring is full. -/
def pushBack (q : LoopQueue T) (t : T) : PushResult T :=
  if q.isFull then ⟨false, false, q⟩
  else
    let q' := { q with p := q.p.set q.iBegin (some t), iBegin := q.next q.iBegin }
    ⟨true, q.iEnd == q.iBegin || q'.size == 1, q'⟩

/-- `empty`: both indices are the same. A full ring is no exception, because one place is never
used. -/
def empty (q : LoopQueue T) : Bool := q.iEnd == q.iBegin

/-- `pop_front(t)`, with the element when there is one. Only the read index moves; the slot keeps
its content. -/
def popFront (q : LoopQueue T) : Option (T × LoopQueue T) :=
  if q.iEnd = q.iBegin then none
  else (q.p[q.iEnd]?).join.map fun t => (t, { q with iEnd := q.next q.iEnd })

/-! ### The queue that a ring holds -/

/-- The slot that is `i` places behind the read index. -/
def slotIndex (q : LoopQueue T) (i : ℕ) : ℕ :=
  if q.iEnd + i < q.iCapacity then q.iEnd + i else q.iEnd + i - q.iCapacity

/-- The ring stores exactly the elements of `l`, oldest first. -/
structure Holds (q : LoopQueue T) (l : List T) : Prop where
  /-- The last slot is the one before the capacity. -/
  capacity_eq : q.iCapacity = q.iCapacitySub + 1
  /-- There is room for an element, within the limit of the constructor. -/
  capacity_bounds : 1 ≤ q.iCapacitySub ∧ q.iCapacitySub < 1000000
  /-- The array has the recorded number of slots. -/
  length_eq : q.p.length = q.iCapacity
  /-- The write index is a slot. -/
  begin_lt : q.iBegin < q.iCapacity
  /-- The read index is a slot. -/
  end_lt : q.iEnd < q.iCapacity
  /-- The list has as many elements as the indices say. -/
  size_eq : l.length = q.size
  /-- The slots from the read index on contain the elements. -/
  slot_eq : ∀ i, i < l.length → q.p[q.slotIndex i]? = some l[i]?

/-- The elements that the indices delimit, oldest first: what a consumer would find if it took them
all. -/
def contents (q : LoopQueue T) : List T :=
  (List.range q.size).filterMap fun i => (q.p[q.slotIndex i]?).join

/-- The ring is in a state that its operations can reach. -/
def WF (q : LoopQueue T) : Prop := q.Holds q.contents

section Refinement

variable {q : LoopQueue T} {l : List T} {t : T}

/-- A new ring holds nothing, if its size is one that the constructor accepts. -/
theorem holds_new {iSize : ℕ} (hpos : 1 ≤ iSize) (hlt : iSize < 1000000) :
    (new iSize : LoopQueue T).Holds [] :=
  ⟨rfl, ⟨hpos, hlt⟩, by simp [new], by simp [new], by simp [new], rfl, by simp⟩

/-- A ring never holds more than its capacity, since one of its places stays free. -/
theorem Holds.length_le (h : q.Holds l) : l.length ≤ q.iCapacitySub := by
  have hsize := h.size_eq
  have hcap := h.capacity_eq
  have hb := h.begin_lt
  have he := h.end_lt
  unfold size at hsize
  split at hsize <;> omega

/-- The indices agree exactly when nothing is stored. A full ring never makes them agree, because
one place is free. -/
theorem Holds.index_eq_iff (h : q.Holds l) : q.iEnd = q.iBegin ↔ l = [] := by
  have hsize := h.size_eq
  have hb := h.begin_lt
  have he := h.end_lt
  rw [← List.length_eq_zero_iff]
  unfold size at hsize
  split at hsize <;> omega

/-- `push_back` refuses exactly when all places are taken, so the reserved place costs no capacity.
-/
theorem Holds.isFull_iff (h : q.Holds l) : q.isFull = true ↔ l.length = q.iCapacitySub := by
  have hsize := h.size_eq
  have hcap := h.capacity_eq
  have hbound := h.capacity_bounds
  have hb := h.begin_lt
  have he := h.end_lt
  simp only [isFull, Bool.or_eq_true, Bool.and_eq_true, decide_eq_true_eq]
  unfold size at hsize
  split at hsize <;> omega

/-- `push_back` on a full ring returns `false` and leaves every place and both indices as they were.
-/
theorem Holds.pushBack_full (h : q.Holds l) (hfull : l.length = q.iCapacitySub) :
    q.pushBack t = ⟨false, false, q⟩ := by
  rw [pushBack, if_pos (h.isFull_iff.mpr hfull)]

/-- The write index is the slot behind the elements. -/
theorem Holds.slotIndex_length (h : q.Holds l) : q.slotIndex l.length = q.iBegin := by
  have hsize := h.size_eq
  have hb := h.begin_lt
  have he := h.end_lt
  simp only [slotIndex, size] at hsize ⊢
  split at hsize <;> split <;> omega

/-- No element is in the slot of the write index. -/
theorem Holds.slotIndex_ne (h : q.Holds l) {i : ℕ} (hi : i < l.length) :
    q.slotIndex i ≠ q.iBegin := by
  have hle := h.length_le
  have hcap := h.capacity_eq
  have he := h.end_lt
  rw [← h.slotIndex_length]
  simp only [slotIndex]
  split <;> split <;> omega

/-- Writing the slot of the write index leaves the elements. -/
theorem Holds.write (h : q.Holds l) (t : T) :
    Holds { q with p := q.p.set q.iBegin (some t) } l := by
  refine ⟨h.capacity_eq, h.capacity_bounds, ?_, h.begin_lt, h.end_lt, h.size_eq, ?_⟩
  · rw [List.length_set, h.length_eq]
  · intro i hi
    show (q.p.set q.iBegin (some t))[q.slotIndex i]? = some l[i]?
    rw [List.getElem?_set_ne (h.slotIndex_ne hi).symm, h.slot_eq i hi]

/-- Moving the write index appends what is in its slot. -/
theorem Holds.advanceBegin (h : q.Holds l) (hroom : l.length < q.iCapacitySub)
    (hslot : q.p[q.iBegin]? = some (some t)) :
    Holds { q with iBegin := q.next q.iBegin } (l ++ [t]) := by
  have hsize := h.size_eq
  have hcap := h.capacity_eq
  have hb := h.begin_lt
  have he := h.end_lt
  refine ⟨hcap, h.capacity_bounds, h.length_eq, ?_, he, ?_, ?_⟩
  · simp only [next]
    split <;> omega
  · simp only [List.length_append, List.length_singleton, size, next] at hsize ⊢
    split at hsize <;> split <;> split at * <;> omega
  · intro i hi
    rw [List.length_append, List.length_singleton] at hi
    show q.p[q.slotIndex i]? = some (l ++ [t])[i]?
    by_cases hlast : i = l.length
    · subst hlast
      rw [h.slotIndex_length, hslot, List.getElem?_concat_length]
    · rw [h.slot_eq i (by omega), List.getElem?_append_left (by omega)]

/-- Moving the read index takes the oldest element and leaves the others in their order. -/
theorem Holds.advanceEnd (h : q.Holds (t :: l)) :
    Holds { q with iEnd := q.next q.iEnd } l := by
  have hsize := h.size_eq
  have hcap := h.capacity_eq
  have hb := h.begin_lt
  have he := h.end_lt
  have hle := h.length_le
  rw [List.length_cons] at hle
  refine ⟨hcap, h.capacity_bounds, h.length_eq, hb, ?_, ?_, ?_⟩
  · simp only [next]
    split <;> omega
  · simp only [List.length_cons, size, next] at hsize ⊢
    split at hsize <;> split <;> split at * <;> omega
  · intro i hi
    have hstep : slotIndex { q with iEnd := q.next q.iEnd } i = q.slotIndex (i + 1) := by
      simp only [slotIndex, next]
      split <;> split <;> split at * <;> omega
    rw [hstep, h.slot_eq (i + 1) (by simpa using hi), List.getElem?_cons_succ]

/-- The slot of the read index has the oldest element. -/
theorem Holds.slot_end (h : q.Holds (t :: l)) : q.p[q.iEnd]? = some (some t) := by
  simpa [slotIndex, h.end_lt] using h.slot_eq 0 (by simp)

/-- A successful `push_back` appends the element behind those that are there. -/
theorem Holds.pushBack_ok (h : q.Holds l) (hroom : l.length < q.iCapacitySub) :
    (q.pushBack t).ok = true ∧ (q.pushBack t).queue.Holds (l ++ [t]) ∧
      (q.pushBack t).queue.iCapacitySub = q.iCapacitySub := by
  have hnotfull : ¬q.isFull = true := by
    rw [h.isFull_iff]
    omega
  have hslot : (q.p.set q.iBegin (some t))[q.iBegin]? = some (some t) :=
    List.getElem?_set_self (by rw [h.length_eq]; exact h.begin_lt)
  rw [pushBack, if_neg hnotfull]
  exact ⟨rfl, (h.write t).advanceBegin hroom hslot, rfl⟩

/-- `pop_front` on an empty ring returns `false`, and nothing moves. -/
theorem Holds.popFront_nil (h : q.Holds []) : q.popFront = none := by
  rw [popFront, if_pos (h.index_eq_iff.mpr rfl)]

/-- `pop_front` takes the oldest element and leaves the others as they are. -/
theorem Holds.popFront_cons (h : q.Holds (t :: l)) :
    ∃ q', q.popFront = some (t, q') ∧ q'.Holds l ∧ q'.iCapacitySub = q.iCapacitySub := by
  have hne : q.iEnd ≠ q.iBegin := fun heq => by simpa using h.index_eq_iff.mp heq
  refine ⟨{ q with iEnd := q.next q.iEnd }, ?_, h.advanceEnd, rfl⟩
  rw [popFront, if_neg hne, h.slot_end]
  rfl

/-- Reading a list at all its indices gives the list. -/
private theorem filterMap_getElem?_range (l : List T) :
    (List.range l.length).filterMap (fun i => l[i]?) = l := by
  induction l with
  | nil => rfl
  | cons t l ih =>
    rw [List.length_cons, List.range_succ_eq_map, List.filterMap_cons, List.filterMap_map]
    simpa [Function.comp_def] using ih

/-- What a ring holds are its contents, so the list in `Holds` is unique and can be computed. -/
theorem Holds.contents_eq (h : q.Holds l) : q.contents = l := by
  have hall : ∀ i ∈ List.range q.size, (q.p[q.slotIndex i]?).join = l[i]? := by
    intro i hi
    rw [List.mem_range, ← h.size_eq] at hi
    rw [h.slot_eq i hi, Option.join_some]
  rw [contents, List.filterMap_congr hall, ← h.size_eq, filterMap_getElem?_range]

/-- A ring that holds some list is well formed: this is how the operations below give
well-formedness back. -/
theorem Holds.wf (h : q.Holds l) : q.WF := by
  rwa [WF, h.contents_eq]

/-- A new ring is empty and well formed, if its size is one that the constructor accepts. -/
theorem wf_new {iSize : ℕ} (hpos : 1 ≤ iSize) (hlt : iSize < 1000000) :
    (new iSize : LoopQueue T).WF ∧ (new iSize : LoopQueue T).contents = [] :=
  ⟨(holds_new hpos hlt).wf, (holds_new hpos hlt).contents_eq⟩

/-- **`push_back`** refuses the element and changes nothing, or appends it. -/
theorem WF.pushBack (h : q.WF) (t : T) :
    (q.pushBack t).queue.WF ∧
      ((q.pushBack t).ok = false ∧ q.isFull = true ∧ (q.pushBack t).queue = q ∨
        (q.pushBack t).ok = true ∧ q.isFull = false ∧
          (q.pushBack t).queue.contents = q.contents ++ [t]) := by
  by_cases hfull : q.contents.length = q.iCapacitySub
  · rw [Holds.pushBack_full h hfull]
    exact ⟨h, .inl ⟨rfl, (Holds.isFull_iff h).mpr hfull, rfl⟩⟩
  · have hle := Holds.length_le h
    obtain ⟨hok, hholds, -⟩ := Holds.pushBack_ok h (t := t) (by omega)
    refine ⟨hholds.wf, .inr ⟨hok, ?_, hholds.contents_eq⟩⟩
    rw [← Bool.not_eq_true, Holds.isFull_iff h]
    exact hfull

/-- **`pop_front`** takes the oldest element, and the ring stays well formed. -/
theorem WF.popFront (h : q.WF) {q' : LoopQueue T} (hpop : q.popFront = some (t, q')) :
    q'.WF ∧ q.contents = t :: q'.contents := by
  have hholds : q.Holds q.contents := h
  cases hcontents : q.contents with
  | nil =>
    rw [hcontents] at hholds
    rw [hholds.popFront_nil] at hpop
    cases hpop
  | cons first rest =>
    rw [hcontents] at hholds
    obtain ⟨next, hnext, hholds', -⟩ := hholds.popFront_cons
    obtain ⟨rfl, rfl⟩ := Prod.mk.inj (Option.some.inj (hnext.symm.trans hpop))
    exact ⟨hholds'.wf, by rw [hholds'.contents_eq]⟩

end Refinement

end LoopQueue

end Tars
