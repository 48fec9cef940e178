import Tars.Cpp
import Tars.Library.Scripts
import Tars.Util.LoopQueue

/-!
# Runs of `TC_LoopQueue` calls

One thread calls the member functions in any order. Against the ring stands a queue that is a
list with a bound: it answers every call with the same values. The indices that one `push_back`
reports are the numbers of elements that were pushed and popped so far, modulo the capacity.
-/

namespace Tars

namespace LoopQueue

variable {T : Type*}

/-! ### The other member functions -/

/-- `push_back(t, bEmpty, iBegin, iEnd)`: the result of `push_back(t, bEmpty)` and both indices
before it. -/
def pushBackAt (q : LoopQueue T) (t : T) : PushResult T × ℕ × ℕ := (q.pushBack t, q.iBegin, q.iEnd)

/-- `push_back(t)`, which calls the other overload and drops `bEmpty`. -/
def pushBackOne (q : LoopQueue T) (t : T) : Bool × LoopQueue T :=
  ((q.pushBack t).ok, (q.pushBack t).queue)

/-- The test with which `push_back(vt)` refuses `n` elements. Its sums with `vt.size()` are
`size_t` values. -/
def isFullFor (q : LoopQueue T) (n : ℕ) : Bool :=
  (q.iCapacity + 2 ^ 32 - 1) % 2 ^ 32 < n ||
    (q.iBegin < q.iEnd && q.iEnd - q.iBegin < (n + 1) % 2 ^ 64) ||
    (q.iEnd < q.iBegin && sizeSub (sizeSub q.iCapacity n) 1 < q.iBegin - q.iEnd)

/-- One round of the loop of `push_back(vt)`: the element is stored at the write index, which moves
on. -/
def put (q : LoopQueue T) (t : T) : LoopQueue T :=
  { q with p := q.p.set q.iBegin (some t), iBegin := q.next q.iBegin }

/-- `push_back(vt)`: the elements are pushed one after the other, if there is room for all. -/
def pushBackAll (q : LoopQueue T) (vt : List T) : Bool × LoopQueue T :=
  if q.isFullFor vt.length then (false, q) else (true, vt.foldl put q)

/-- `pop_front()` drops the oldest element, without a look at it. -/
def dropFront (q : LoopQueue T) : Bool × LoopQueue T :=
  if q.iEnd = q.iBegin then (false, q) else (true, { q with iEnd := q.next q.iEnd })

/-- `get_front(t)`, with the element when there is one. It fails if the slot was never written. -/
def getFront (q : LoopQueue T) : Option (Option T) :=
  if q.iEnd = q.iBegin then some none else (q.p[q.iEnd]?).join.map some

end LoopQueue

/-- The calls of a ring queue, with their arguments. -/
inductive LoopCall (T : Type*) where
  /-- `push_back(t)`. -/
  | pushBackOne (t : T)
  /-- `push_back(t, bEmpty)`. -/
  | pushBack (t : T)
  /-- `push_back(t, bEmpty, iBegin, iEnd)`. -/
  | pushBackAt (t : T)
  /-- `push_back(vt)`. -/
  | pushBackAll (vt : List T)
  /-- `pop_front(t)`. -/
  | popFront
  /-- `pop_front()`. -/
  | dropFront
  /-- `get_front(t)`. -/
  | getFront
  /-- `empty()`. -/
  | empty
  /-- `size()`. -/
  | size
  deriving DecidableEq

/-- What the calls of a ring queue return, the elements and the flags that they hand out included.
-/
inductive LoopAnswer (T : Type*) where
  /-- Whether the call succeeded. -/
  | done (ok : Bool)
  /-- Whether a push succeeded, and `bEmpty`. -/
  | pushed (ok bEmpty : Bool)
  /-- Whether a push succeeded, `bEmpty` and both indices. -/
  | pushedAt (ok bEmpty : Bool) (iBegin iEnd : ℕ)
  /-- The element that was found, if the call succeeded. -/
  | found (t : Option T)
  /-- Whether the queue is empty. -/
  | empty (b : Bool)
  /-- The number of elements. -/
  | size (n : ℕ)
  deriving DecidableEq

/-- One call of the ring. It is refused where the source would read a slot that was never
written. -/
def LoopQueue.step {T : Type*} (q : LoopQueue T) :
    LoopCall T → Option (LoopQueue T × List (LoopAnswer T))
  | .pushBackOne t => some ((q.pushBackOne t).2, [.done (q.pushBackOne t).1])
  | .pushBack t => some ((q.pushBack t).queue, [.pushed (q.pushBack t).ok (q.pushBack t).bEmpty])
  | .pushBackAt t =>
    let (r, iBegin, iEnd) := q.pushBackAt t
    some (r.queue, [.pushedAt r.ok r.bEmpty iBegin iEnd])
  | .pushBackAll vt => some ((q.pushBackAll vt).2, [.done (q.pushBackAll vt).1])
  | .popFront =>
    if q.empty then some (q, [.found none])
    else q.popFront.map fun r => (r.2, [.found (some r.1)])
  | .dropFront => some (q.dropFront.2, [.done q.dropFront.1])
  | .getFront => q.getFront.map fun t => (q, [.found t])
  | .empty => some (q, [.empty q.empty])
  | .size => some (q, [.size q.size])

/-! ### The queue with a bound -/

/-- A list of at most `bound` elements, oldest first, with the number of elements that were taken
from it. -/
structure BoundedQueue (T : Type*) (bound : ℕ) where
  /-- The elements in the queue, oldest first. -/
  elements : List T
  /-- There are never too many. -/
  fits : elements.length ≤ bound
  /-- How many elements were taken so far. -/
  popped : ℕ

namespace BoundedQueue

variable {T : Type*} {bound : ℕ}

/-- The queue without elements, from which nothing was taken. -/
def new (bound : ℕ) : BoundedQueue T bound := ⟨[], Nat.zero_le _, 0⟩

/-- All of the elements go behind the others, or none if they do not fit. -/
def push (s : BoundedQueue T bound) (ts : List T) : Bool × BoundedQueue T bound :=
  if h : (s.elements ++ ts).length ≤ bound then (true, ⟨s.elements ++ ts, h, s.popped⟩)
  else (false, s)

/-- The oldest element is taken, if there is one, and counted. -/
def pop (s : BoundedQueue T bound) : Option T × BoundedQueue T bound :=
  match s with
  | ⟨[], _, _⟩ => (none, s)
  | ⟨t :: ts, h, popped⟩ => (some t, ⟨ts, Nat.le_of_succ_le h, popped + 1⟩)

/-- The place of an element in the order of all pushes, as an index of the ring. -/
def index (bound n : ℕ) : ℕ := n % (bound + 1)

/-- The same calls of the queue with a bound. None is refused. -/
def step (s : BoundedQueue T bound) :
    LoopCall T → Option (BoundedQueue T bound × List (LoopAnswer T))
  | .pushBackOne t => some ((s.push [t]).2, [.done (s.push [t]).1])
  | .pushBack t => some ((s.push [t]).2, [.pushed (s.push [t]).1 s.elements.isEmpty])
  | .pushBackAt t =>
    some ((s.push [t]).2, [.pushedAt (s.push [t]).1 s.elements.isEmpty
      (index bound (s.popped + s.elements.length)) (index bound s.popped)])
  | .pushBackAll vt => some ((s.push vt).2, [.done (s.push vt).1])
  | .popFront => some (s.pop.2, [.found s.pop.1])
  | .dropFront => some (s.pop.2, [.done s.pop.1.isSome])
  | .getFront => some (s, [.found s.elements.head?])
  | .empty => some (s, [.empty s.elements.isEmpty])
  | .size => some (s, [.size s.elements.length])

end BoundedQueue

namespace LoopQueue

open BoundedQueue

variable {T : Type*} {bound : ℕ} {q q' : LoopQueue T} {l : List T} {s : BoundedQueue T bound}
  {t : T}

/-! ### The calls one by one -/

/-- `push_back(vt)` refuses exactly what does not fit: a batch is stored as a whole or not at all.
-/
theorem Holds.isFullFor_iff (h : q.Holds l) (n : ℕ) :
    q.isFullFor n = true ↔ q.iCapacitySub < l.length + n := by
  have hsize := h.size_eq
  have hcap := h.capacity_eq
  have hbound := h.capacity_bounds
  have hb := h.begin_lt
  have he := h.end_lt
  simp only [isFullFor, Bool.or_eq_true, Bool.and_eq_true, decide_eq_true_eq]
  by_cases hn : n ≤ q.iCapacitySub
  · rw [sizeSub_of_le (by omega : n ≤ q.iCapacity), sizeSub_of_le (by omega)]
    unfold size at hsize
    split at hsize <;> omega
  · refine iff_of_true (.inl (.inl ?_)) ?_ <;> omega

/-- Putting an element where there is room appends it. -/
theorem Holds.put (h : q.Holds l) (hroom : l.length < q.iCapacitySub) :
    (q.put t).Holds (l ++ [t]) := by
  have hslot : (q.p.set q.iBegin (some t))[q.iBegin]? = some (some t) :=
    List.getElem?_set_self (by rw [h.length_eq]; exact h.begin_lt)
  exact (h.write t).advanceBegin hroom hslot

/-- Putting several elements where there is room appends them. -/
theorem Holds.putAll (h : q.Holds l) {vt : List T} (hroom : l.length + vt.length ≤ q.iCapacitySub) :
    (vt.foldl LoopQueue.put q).Holds (l ++ vt) ∧
      (vt.foldl LoopQueue.put q).iCapacitySub = q.iCapacitySub ∧
      (vt.foldl LoopQueue.put q).iEnd = q.iEnd := by
  induction vt generalizing q l with
  | nil =>
    rw [List.append_nil]
    exact ⟨h, rfl, rfl⟩
  | cons t vt ih =>
    rw [List.length_cons] at hroom
    have hput : (q.put t).Holds (l ++ [t]) := h.put (by omega)
    have hrest : (l ++ [t]).length + vt.length ≤ (q.put t).iCapacitySub := by
      rw [List.length_append, List.length_singleton]
      show _ ≤ q.iCapacitySub
      omega
    obtain ⟨hall, hcapacity, hend⟩ := ih hput hrest
    rw [List.append_assoc] at hall
    exact ⟨hall, hcapacity, hend⟩

/-- **`push_back(t, bEmpty)`** of an element that fits: `bEmpty` says whether the queue was
empty before. -/
theorem Holds.pushBack_room (h : q.Holds l) (hroom : l.length < q.iCapacitySub) :
    q.pushBack t = ⟨true, l.isEmpty, q.put t⟩ := by
  have hnotfull : ¬q.isFull = true := by
    rw [h.isFull_iff]
    omega
  have hsize : (q.put t).size = l.length + 1 := by
    rw [← (h.put (t := t) hroom).size_eq, List.length_append, List.length_singleton]
  have hempty : (q.iEnd == q.iBegin || (q.put t).size == 1) = l.isEmpty := by
    rw [Bool.eq_iff_iff, Bool.or_eq_true, beq_iff_eq, beq_iff_eq, hsize, h.index_eq_iff,
      List.isEmpty_iff, ← List.length_eq_zero_iff]
    omega
  rw [pushBack, if_neg hnotfull, ← hempty]
  rfl

/-- The ring stands for a queue with a bound. -/
structure StandsFor (q : LoopQueue T) (s : BoundedQueue T bound) : Prop where
  /-- The ring holds the elements. -/
  holds : q.Holds s.elements
  /-- The bound is the number of places. -/
  bound_eq : q.iCapacitySub = bound
  /-- The read index counts the elements that were taken. -/
  end_eq : q.iEnd = index bound s.popped

/-- The write index counts the elements that were pushed. -/
theorem StandsFor.begin_eq (h : q.StandsFor s) :
    q.iBegin = index bound (s.popped + s.elements.length) := by
  have hcap := h.holds.capacity_eq
  have hlt := h.holds.end_lt
  have hfits := s.fits
  have hmod : (s.popped + s.elements.length) % (bound + 1) =
      (s.popped % (bound + 1) + s.elements.length) % (bound + 1) := (Nat.mod_add_mod _ _ _).symm
  rw [← h.holds.slotIndex_length, index, hmod]
  rw [hcap, h.bound_eq, h.end_eq, index] at hlt
  unfold slotIndex
  rw [hcap, h.bound_eq, h.end_eq, index]
  generalize s.popped % (bound + 1) = first at hlt ⊢
  split
  · next hinside => rw [Nat.mod_eq_of_lt hinside]
  · next houtside =>
    rw [Nat.mod_eq_sub_mod (Nat.le_of_not_lt houtside), Nat.mod_eq_of_lt (by omega)]

/-- One element more, or, when there is no room, the same elements as before: a push of the code is
a push of the bounded queue. -/
theorem StandsFor.push (h : q.StandsFor s) {ts : List T}
    (hq : if (s.elements ++ ts).length ≤ bound then q' = ts.foldl LoopQueue.put q else q' = q) :
    q'.StandsFor (s.push ts).2 := by
  unfold BoundedQueue.push
  split
  · next hfits =>
    rw [if_pos hfits] at hq
    subst hq
    rw [List.length_append] at hfits
    obtain ⟨hall, hcapacity, hend⟩ := h.holds.putAll (hfits.trans_eq h.bound_eq.symm)
    exact ⟨hall, hcapacity.trans h.bound_eq, hend.trans h.end_eq⟩
  · next hfits =>
    rw [if_neg hfits] at hq
    subst hq
    exact h

/-- Every form of `push_back` of one element returns what the bounded queue returns, and reports in
`bEmpty` whether there was no element before. -/
theorem StandsFor.pushBack (h : q.StandsFor s) (t : T) :
    (q.pushBack t).ok = (s.push [t]).1 ∧ (q.pushBack t).bEmpty = s.elements.isEmpty ∧
      (q.pushBack t).queue.StandsFor (s.push [t]).2 := by
  have hlength : (s.elements ++ [t]).length = s.elements.length + 1 := by simp
  by_cases hroom : s.elements.length < q.iCapacitySub
  · have hfits : (s.elements ++ [t]).length ≤ bound := by
      rw [hlength]
      exact hroom.trans_eq h.bound_eq
    rw [h.holds.pushBack_room hroom]
    refine ⟨?_, rfl, h.push ?_⟩
    · rw [BoundedQueue.push, dif_pos hfits]
    · rw [if_pos hfits]
      rfl
  · have hle := h.holds.length_le
    have hfits : ¬(s.elements ++ [t]).length ≤ bound := by
      rw [hlength]
      exact fun hle => hroom (hle.trans_eq h.bound_eq.symm)
    rw [h.holds.pushBack_full (by omega)]
    refine ⟨?_, ?_, h.push ?_⟩
    · rw [BoundedQueue.push, dif_neg hfits]
    · have hone := h.holds.capacity_bounds.1
      cases helements : s.elements with
      | nil =>
        rw [helements] at hroom
        exact absurd hone hroom
      | cons => rfl
    · rw [if_neg hfits]

/-- **`push_back(vt)`** pushes all elements or none, and says which. -/
theorem StandsFor.pushBackAll (h : q.StandsFor s) (vt : List T) :
    (q.pushBackAll vt).1 = (s.push vt).1 ∧ (q.pushBackAll vt).2.StandsFor (s.push vt).2 := by
  have hiff := h.holds.isFullFor_iff vt.length
  rw [h.bound_eq, ← List.length_append] at hiff
  unfold LoopQueue.pushBackAll
  split
  · next hfull =>
    have hfits : ¬(s.elements ++ vt).length ≤ bound := Nat.not_le.mpr (hiff.mp hfull)
    refine ⟨?_, h.push ?_⟩
    · rw [BoundedQueue.push, dif_neg hfits]
    · rw [if_neg hfits]
  · next hroom =>
    have hfits : (s.elements ++ vt).length ≤ bound := Nat.not_lt.mp (hiff.not.mp hroom)
    refine ⟨?_, h.push ?_⟩
    · rw [BoundedQueue.push, dif_pos hfits]
    · rw [if_pos hfits]

/-- What the calls at the front find: both queues are empty, or both have the same oldest element
and stay equal when it is taken. -/
theorem StandsFor.front (h : q.StandsFor s) :
    q.empty = s.elements.isEmpty ∧
    (s.elements = [] ∧ s.pop = (none, s) ∨
      ∃ t, q.p[q.iEnd]? = some (some t) ∧ s.elements.head? = some t ∧ s.pop.1 = some t ∧
        StandsFor { q with iEnd := q.next q.iEnd } s.pop.2) := by
  have hempty := h.holds.index_eq_iff
  obtain ⟨elements, hfits, popped⟩ := s
  constructor
  · rw [Bool.eq_iff_iff, LoopQueue.empty, beq_iff_eq, hempty, List.isEmpty_iff]
  · cases elements with
    | nil => exact .inl ⟨rfl, rfl⟩
    | cons t ts =>
      refine .inr ⟨t, h.holds.slot_end, rfl, rfl, h.holds.advanceEnd, h.bound_eq, ?_⟩
      have hcap := h.holds.capacity_eq
      have hlt := h.holds.end_lt
      have hend := h.end_eq
      have hbound := h.bound_eq
      show q.next q.iEnd = (popped + 1) % (bound + 1)
      simp only [index] at hend
      rw [hcap, hbound, hend] at hlt
      rw [next, hend, hbound, ← Nat.mod_add_mod]
      generalize popped % (bound + 1) = first at hlt ⊢
      split
      · next hlast => rw [hlast, Nat.mod_self]
      · rw [Nat.mod_eq_of_lt (by omega)]

/-- **One call** of the ring answers like the queue with a bound. -/
theorem StandsFor.step (h : q.StandsFor s) (call : LoopCall T) {s' : BoundedQueue T bound}
    {answers : List (LoopAnswer T)} (hstep : s.step call = some (s', answers)) :
    ∃ q', q.step call = some (q', answers) ∧ q'.StandsFor s' := by
  cases call with
  | pushBackOne t =>
    obtain ⟨rfl, rfl⟩ := Prod.mk.inj (Option.some.inj hstep)
    obtain ⟨hok, -, hnext⟩ := h.pushBack t
    exact ⟨_, by rw [LoopQueue.step, pushBackOne, hok], hnext⟩
  | pushBack t =>
    obtain ⟨rfl, rfl⟩ := Prod.mk.inj (Option.some.inj hstep)
    obtain ⟨hok, hempty, hnext⟩ := h.pushBack t
    exact ⟨_, by rw [LoopQueue.step, hok, hempty], hnext⟩
  | pushBackAt t =>
    obtain ⟨rfl, rfl⟩ := Prod.mk.inj (Option.some.inj hstep)
    obtain ⟨hok, hempty, hnext⟩ := h.pushBack t
    refine ⟨_, ?_, hnext⟩
    simp only [LoopQueue.step, pushBackAt, hok, hempty, ← h.begin_eq, ← h.end_eq]
  | pushBackAll vt =>
    obtain ⟨rfl, rfl⟩ := Prod.mk.inj (Option.some.inj hstep)
    obtain ⟨hok, hnext⟩ := h.pushBackAll vt
    exact ⟨_, by rw [LoopQueue.step, hok], hnext⟩
  | popFront =>
    obtain ⟨rfl, rfl⟩ := Prod.mk.inj (Option.some.inj hstep)
    obtain ⟨hempty, ⟨hnil, hpop⟩ | ⟨t, hslot, hhead, hpop, hnext⟩⟩ := h.front
    · refine ⟨q, ?_, by rwa [hpop]⟩
      simp only [LoopQueue.step, hempty, hnil, hpop, List.isEmpty_nil, if_true]
    · have hne : ¬q.empty = true := by
        rw [hempty, List.isEmpty_iff, ← List.head?_eq_none_iff, hhead]
        exact Option.some_ne_none t
      have hindex : ¬q.iEnd = q.iBegin := fun heq => hne (beq_iff_eq.mpr heq)
      refine ⟨_, ?_, hnext⟩
      simp only [LoopQueue.step, if_neg hne, LoopQueue.popFront, if_neg hindex, hslot,
        Option.join_some, Option.map_some, hpop]
  | dropFront =>
    obtain ⟨rfl, rfl⟩ := Prod.mk.inj (Option.some.inj hstep)
    obtain ⟨hempty, ⟨hnil, hpop⟩ | ⟨t, -, hhead, hpop, hnext⟩⟩ := h.front
    · have hindex : q.iEnd = q.iBegin := h.holds.index_eq_iff.mpr hnil
      refine ⟨q, ?_, by rwa [hpop]⟩
      simp only [LoopQueue.step, dropFront, if_pos hindex, hpop, Option.isSome_none]
    · have hindex : ¬q.iEnd = q.iBegin := by
        rw [h.holds.index_eq_iff, ← List.head?_eq_none_iff, hhead]
        exact Option.some_ne_none t
      refine ⟨_, ?_, hnext⟩
      simp only [LoopQueue.step, dropFront, if_neg hindex, hpop, Option.isSome_some]
  | getFront =>
    obtain ⟨rfl, rfl⟩ := Prod.mk.inj (Option.some.inj hstep)
    obtain ⟨-, ⟨hnil, -⟩ | ⟨t, hslot, hhead, -, -⟩⟩ := h.front
    · have hindex : q.iEnd = q.iBegin := h.holds.index_eq_iff.mpr hnil
      refine ⟨q, ?_, h⟩
      simp only [LoopQueue.step, LoopQueue.getFront, if_pos hindex, hnil, List.head?_nil,
        Option.map_some]
    · have hindex : ¬q.iEnd = q.iBegin := by
        rw [h.holds.index_eq_iff, ← List.head?_eq_none_iff, hhead]
        exact Option.some_ne_none t
      refine ⟨q, ?_, h⟩
      simp only [LoopQueue.step, LoopQueue.getFront, if_neg hindex, hslot, hhead,
        Option.join_some, Option.map_some]
  | empty =>
    obtain ⟨rfl, rfl⟩ := Prod.mk.inj (Option.some.inj hstep)
    exact ⟨q, by rw [LoopQueue.step, h.front.1], h⟩
  | size =>
    obtain ⟨rfl, rfl⟩ := Prod.mk.inj (Option.some.inj hstep)
    exact ⟨q, by rw [LoopQueue.step, ← h.holds.size_eq], h⟩

/-- A new ring stands for the queue without elements. -/
theorem standsFor_new (hpos : 1 ≤ bound) (hlt : bound < 1000000) :
    (new bound : LoopQueue T).StandsFor (.new bound) :=
  ⟨holds_new hpos hlt, rfl, (Nat.zero_mod _).symm⟩

/-- The queue with a bound executes every call, so a run of it is determined by the calls alone. -/
theorem exec_bounded (s : BoundedQueue T bound) (calls : List (LoopCall T)) :
    ∃ s' answers, Scripts.exec BoundedQueue.step s calls = some (s', answers) := by
  have h := @Scripts.exec_progress _ _ _ (@BoundedQueue.step T bound) s calls
    (fun _ _ => True) (fun _ _ => True) []
    (fun s call _ _ _ => by cases call <;> exact ⟨_, _, rfl, trivial⟩) trivial
    (Scripts.along_of_forall fun _ _ => trivial)
  obtain ⟨s', answers, hexec, -⟩ := h
  exact ⟨s', answers, hexec⟩

/-- **The ring is a queue with a bound.** For every size that the constructor accepts, every
sequence of calls is executed, without a read of a slot that was never written, and with the
answers of a list of at most `iSize` elements; the ring reached holds the list reached. -/
theorem simulates_bounded_queue (iSize : ℕ) (hpos : 1 ≤ iSize) (hlt : iSize < 1000000)
    (calls : List (LoopCall T)) :
    ∃ (s : BoundedQueue T iSize) (answers : List (LoopAnswer T)) (q : LoopQueue T),
      Scripts.exec BoundedQueue.step (.new iSize) calls = some (s, answers) ∧
      Scripts.exec LoopQueue.step (new iSize) calls = some (q, answers) ∧
      q.Holds s.elements := by
  obtain ⟨s, answers, hs⟩ := exec_bounded (.new iSize) calls
  obtain ⟨q, hq, hstands⟩ := Scripts.exec_simulation
    (fun q s call s' answers h hstep => h.step call hstep) (standsFor_new hpos hlt) hs
  exact ⟨s, answers, q, hs, hq, hstands.holds⟩

/-- Two places that are filled, emptied and filled again across the end of the array. -/
def sampleLoopCalls : List (LoopCall Bool) :=
  [.pushBack true, .pushBackAll [true, false], .pushBackOne false, .pushBack true, .getFront,
    .popFront, .pushBackAt true, .size, .dropFront, .dropFront, .popFront, .empty]

/-- The statement for the run of `sampleLoopCalls`, in which a push is refused and a batch does not
fit. -/
theorem simulates_bounded_queue_sample :
    ∃ (s : BoundedQueue Bool 2) (answers : List (LoopAnswer Bool)) (q : LoopQueue Bool),
      Scripts.exec BoundedQueue.step (.new 2) sampleLoopCalls = some (s, answers) ∧
      Scripts.exec LoopQueue.step (new 2) sampleLoopCalls = some (q, answers) ∧
      q.Holds s.elements :=
  simulates_bounded_queue 2 (by decide) (by decide) sampleLoopCalls

/-- The answers in that run. -/
example : (Scripts.exec LoopQueue.step (new 2) sampleLoopCalls).map Prod.snd =
    some [.pushed true true, .done false, .done true, .pushed false false, .found (some true),
      .found (some true), .pushedAt true false 2 1, .size 2, .done true, .done true, .found none,
      .empty true] := by
  decide +kernel

end LoopQueue

end Tars
