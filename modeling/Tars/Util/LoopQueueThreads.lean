import Tars.Library.Scripts
import Tars.Util.LoopQueue

/-!
# The ring queue under two threads

One thread calls `push_back(t)`, another one `pop_front(t)`, `get_front(t)` and `empty()`. Every
access to an index or to a slot is a step of its own, and between two steps of one thread the
other one may take any number of steps.
-/

namespace Tars

open Scripts

variable {T : Type*}

/-- The number of elements between two indices, around the ring, as `size` computes it from what was
read. -/
def LoopQueue.distance (q : LoopQueue T) (iBegin iEnd : ℕ) : ℕ :=
  if iBegin < iEnd then iBegin + q.iCapacity - iEnd else iBegin - iEnd

/-- What the two threads report: the elements that they push and pop. -/
inductive LoopEvent (T : Type*) where
  /-- `push_back` has made its element visible. -/
  | pushed (t : T)
  /-- `push_back` returns this value with this `bEmpty`. -/
  | pushReturned (ok bEmpty : Bool)
  /-- `pop_front` returns this element, or whatever was in the slot. -/
  | popped (t : Option T)
  /-- `get_front` returns this element, or whatever was in the slot. -/
  | front (t : Option T)
  /-- `pop_front` or `get_front` returns `false`. -/
  | nothing
  /-- `empty` returns this value. -/
  | empty (b : Bool)
  deriving DecidableEq

/-- Where `push_back(t)` is, with what it has read into registers. -/
inductive LoopProducer (T : Type*) where
  /-- Not called. -/
  | idle
  /-- Before `iEnd = _iEnd`. -/
  | readEnd (t : T)
  /-- Before `iEnd > _iBegin`. -/
  | testAbove (t : T) (iEnd : ℕ)
  /-- Before `iEnd - _iBegin < 2`. -/
  | testAboveGap (t : T) (iEnd : ℕ)
  /-- Before `_iBegin > iEnd`. -/
  | testBelow (t : T) (iEnd : ℕ)
  /-- Before `_iBegin - iEnd > (_iCapacity-2)`. -/
  | testBelowGap (t : T) (iEnd : ℕ)
  /-- Before `_p+_iBegin`. -/
  | address (t : T)
  /-- Before `memcpy`. -/
  | copy (t : T) (iBegin : ℕ)
  /-- Before `_iEnd` in `_iEnd == _iBegin`. -/
  | flagEnd (t : T)
  /-- Before `_iBegin` in `_iEnd == _iBegin`. -/
  | flagBegin (t : T) (iEnd : ℕ)
  /-- Before `_iBegin == _iCapacitySub`. -/
  | last (t : T) (bEmpty : Bool)
  /-- Before `_iBegin = 0`. -/
  | wrap (t : T) (bEmpty : Bool)
  /-- Before the read of `_iBegin++`. -/
  | load (t : T) (bEmpty : Bool)
  /-- Before the write of `_iBegin++`. -/
  | store (t : T) (bEmpty : Bool) (iBegin : ℕ)
  /-- Before `iBegin=_iBegin` in `size()`. -/
  | sizeBegin
  /-- Before `iEnd=_iEnd` in `size()`. -/
  | sizeEnd (iBegin : ℕ)
  deriving DecidableEq

/-- Where the consumer is, with what it has read into registers. -/
inductive LoopConsumer (T : Type*) where
  /-- Not in a call. -/
  | idle
  /-- Before `_iEnd` in the comparison of `empty`. -/
  | emptyEnd
  /-- Before `_iBegin` in the comparison of `empty`. -/
  | emptyBegin (iEnd : ℕ)
  /-- Before `_iEnd` in the comparison of `pop_front` or else of `get_front`. -/
  | testEnd (pop : Bool)
  /-- Before `_iBegin` in that comparison. -/
  | testBegin (pop : Bool) (iEnd : ℕ)
  /-- Before `_p+_iEnd`. -/
  | address (pop : Bool)
  /-- Before `memcpy`. -/
  | copy (pop : Bool) (iEnd : ℕ)
  /-- Before `_iEnd == _iCapacitySub`. -/
  | last (t : Option T)
  /-- Before `_iEnd = 0`. -/
  | wrap (t : Option T)
  /-- Before the read of `_iEnd++`. -/
  | load (t : Option T)
  /-- Before the write of `_iEnd++`. -/
  | store (t : Option T) (iEnd : ℕ)
  deriving DecidableEq

/-- What follows the advance of `_iBegin`: `size()` is only called if `bEmpty` is not set. -/
def LoopProducer.advanced (t : T) (bEmpty : Bool) : LoopProducer T × List (LoopEvent T) :=
  if bEmpty then (.idle, [.pushed t, .pushReturned true true]) else (.sizeBegin, [.pushed t])

/-- One step of the producer within a call: one read or write of an index or of a slot. -/
def LoopProducer.step (q : LoopQueue T) :
    LoopProducer T → Option (LoopQueue T × LoopProducer T × List (LoopEvent T))
  | idle => none
  | readEnd t => some (q, testAbove t q.iEnd, [])
  | testAbove t iEnd =>
    some (q, if iEnd > q.iBegin then testAboveGap t iEnd else testBelow t iEnd, [])
  | testAboveGap t iEnd =>
    if iEnd - q.iBegin < 2 then some (q, idle, [.pushReturned false false])
    else some (q, testBelow t iEnd, [])
  | testBelow t iEnd =>
    some (q, if q.iBegin > iEnd then testBelowGap t iEnd else address t, [])
  | testBelowGap t iEnd =>
    if q.iBegin - iEnd > (q.iCapacity + 2 ^ 32 - 2) % 2 ^ 32 then
      some (q, idle, [.pushReturned false false])
    else some (q, address t, [])
  | address t => some (q, copy t q.iBegin, [])
  | copy t iBegin => some ({ q with p := q.p.set iBegin (some t) }, flagEnd t, [])
  | flagEnd t => some (q, flagBegin t q.iEnd, [])
  | flagBegin t iEnd => some (q, last t (iEnd == q.iBegin), [])
  | last t bEmpty =>
    some (q, if q.iBegin = q.iCapacitySub then wrap t bEmpty else load t bEmpty, [])
  | wrap t bEmpty => some ({ q with iBegin := 0 }, advanced t bEmpty)
  | load t bEmpty => some (q, store t bEmpty q.iBegin, [])
  | store t bEmpty iBegin => some ({ q with iBegin := iBegin + 1 }, advanced t bEmpty)
  | sizeBegin => some (q, sizeEnd q.iBegin, [])
  | sizeEnd iBegin => some (q, idle, [.pushReturned true (1 == q.distance iBegin q.iEnd)])

/-- One step of the consumer within a call: one read or write of an index or of a slot. -/
def LoopConsumer.step (q : LoopQueue T) :
    LoopConsumer T → Option (LoopQueue T × LoopConsumer T × List (LoopEvent T))
  | idle => none
  | emptyEnd => some (q, emptyBegin q.iEnd, [])
  | emptyBegin iEnd => some (q, idle, [.empty (iEnd == q.iBegin)])
  | testEnd pop => some (q, testBegin pop q.iEnd, [])
  | testBegin pop iEnd =>
    if iEnd = q.iBegin then some (q, idle, [.nothing]) else some (q, address pop, [])
  | address pop => some (q, copy pop q.iEnd, [])
  | copy true iEnd => some (q, last (q.p[iEnd]?).join, [])
  | copy false iEnd => some (q, idle, [.front (q.p[iEnd]?).join])
  | last t => some (q, if q.iEnd = q.iCapacitySub then wrap t else load t, [])
  | wrap t => some ({ q with iEnd := 0 }, idle, [.popped t])
  | load t => some (q, store t q.iEnd, [])
  | store t iEnd => some ({ q with iEnd := iEnd + 1 }, idle, [.popped t])

/-- The queue and the two threads, with what each of them has read so far. -/
structure LoopThreads (T : Type*) where
  /-- The queue. -/
  queue : LoopQueue T
  /-- The thread that pushes. -/
  producer : LoopProducer T
  /-- The thread that pops. -/
  consumer : LoopConsumer T

/-- What happens next: a thread calls a function, or takes its next step. -/
inductive LoopAction (T : Type*) where
  /-- The producer calls `push_back(t)`. -/
  | pushBack (t : T)
  /-- The producer takes a step. -/
  | producer
  /-- The consumer calls `pop_front(t)`. -/
  | popFront
  /-- The consumer calls `get_front(t)`. -/
  | getFront
  /-- The consumer calls `empty()`. -/
  | empty
  /-- The consumer takes a step. -/
  | consumer

namespace LoopThreads

/-- Call a function of the consumer, if it is not in another call. -/
def call (s : LoopThreads T) (c : LoopConsumer T) : Option (LoopThreads T × List (LoopEvent T)) :=
  match s.consumer with
  | .idle => some ({ s with consumer := c }, [])
  | _ => none

/-- What happens in a step. Each access to a shared index is a step of its own. -/
def step (s : LoopThreads T) : LoopAction T → Option (LoopThreads T × List (LoopEvent T))
  | .pushBack t =>
    match s.producer with
    | .idle => some ({ s with producer := .readEnd t }, [])
    | _ => none
  | .producer =>
    (s.producer.step s.queue).map fun r => ({ s with queue := r.1, producer := r.2.1 }, r.2.2)
  | .popFront => s.call (.testEnd true)
  | .getFront => s.call (.testEnd false)
  | .empty => s.call .emptyEnd
  | .consumer =>
    (s.consumer.step s.queue).map fun r => ({ s with queue := r.1, consumer := r.2.1 }, r.2.2)

/-- A new queue, where neither thread is in a call. -/
def start (iSize : ℕ) : LoopThreads T := ⟨LoopQueue.new iSize, .idle, .idle⟩

/-- The elements that have been pushed, oldest first: those whose slot the producer has made
visible. -/
def pushed : List (LoopEvent T) → List T :=
  List.filterMap fun
    | .pushed t => some t
    | _ => none

/-- The elements that have been popped, oldest first, each as it was found in its slot. -/
def popped : List (LoopEvent T) → List (Option T) :=
  List.filterMap fun
    | .popped t => some t
    | _ => none

end LoopThreads

/-! ### What the threads know -/

/-- What the producer knows about the queue: what it read of `_iEnd` does not make the queue look
emptier than it is, and behind the tests there is room. -/
def LoopProducer.Fits (q : LoopQueue T) : LoopProducer T → Prop
  | idle => True
  | readEnd _ => True
  | testAbove _ iEnd => iEnd < q.iCapacity ∧ q.size ≤ q.distance q.iBegin iEnd
  | testAboveGap _ iEnd =>
    (iEnd < q.iCapacity ∧ q.size ≤ q.distance q.iBegin iEnd) ∧ q.iBegin < iEnd
  | testBelow _ iEnd => (iEnd < q.iCapacity ∧ q.size ≤ q.distance q.iBegin iEnd) ∧
    ¬(q.iBegin < iEnd ∧ iEnd - q.iBegin < 2)
  | testBelowGap _ iEnd =>
    (iEnd < q.iCapacity ∧ q.size ≤ q.distance q.iBegin iEnd) ∧ iEnd < q.iBegin
  | address _ => q.size < q.iCapacitySub
  | copy _ iBegin => q.size < q.iCapacitySub ∧ iBegin = q.iBegin
  | flagEnd t => q.size < q.iCapacitySub ∧ q.p[q.iBegin]? = some (some t)
  | flagBegin t _ => q.size < q.iCapacitySub ∧ q.p[q.iBegin]? = some (some t)
  | last t _ => q.size < q.iCapacitySub ∧ q.p[q.iBegin]? = some (some t)
  | wrap t _ =>
    (q.size < q.iCapacitySub ∧ q.p[q.iBegin]? = some (some t)) ∧ q.iBegin = q.iCapacitySub
  | load t _ =>
    (q.size < q.iCapacitySub ∧ q.p[q.iBegin]? = some (some t)) ∧ q.iBegin ≠ q.iCapacitySub
  | store t _ iBegin => (q.size < q.iCapacitySub ∧ q.p[q.iBegin]? = some (some t)) ∧
    q.iBegin ≠ q.iCapacitySub ∧ iBegin = q.iBegin
  | sizeBegin => True
  | sizeEnd _ => True

/-- What the consumer knows about the queue and its elements. -/
def LoopConsumer.Fits (q : LoopQueue T) (l : List T) : LoopConsumer T → Prop
  | idle => True
  | emptyEnd => True
  | emptyBegin _ => True
  | testEnd _ => True
  | testBegin _ iEnd => iEnd = q.iEnd
  | address _ => l ≠ []
  | copy _ iEnd => l ≠ [] ∧ iEnd = q.iEnd
  | last t => l.head?.map some = some t
  | wrap t => l.head?.map some = some t ∧ q.iEnd = q.iCapacitySub
  | load t => l.head?.map some = some t ∧ q.iEnd ≠ q.iCapacitySub
  | store t iEnd => l.head?.map some = some t ∧ q.iEnd ≠ q.iCapacitySub ∧ iEnd = q.iEnd

/-- What the producer knows does not depend on the elements that are popped meanwhile. -/
theorem LoopProducer.Fits.pop {q : LoopQueue T} {p : LoopProducer T} {i : ℕ} (h : p.Fits q)
    (hsize : LoopQueue.size { q with iEnd := i } ≤ q.size) : p.Fits { q with iEnd := i } := by
  cases p with
  | testAbove t iEnd => exact ⟨h.1, hsize.trans h.2⟩
  | testAboveGap t iEnd => exact ⟨⟨h.1.1, hsize.trans h.1.2⟩, h.2⟩
  | testBelow t iEnd => exact ⟨⟨h.1.1, hsize.trans h.1.2⟩, h.2⟩
  | testBelowGap t iEnd => exact ⟨⟨h.1.1, hsize.trans h.1.2⟩, h.2⟩
  | address t => exact hsize.trans_lt h
  | copy t iBegin => exact ⟨hsize.trans_lt h.1, h.2⟩
  | flagEnd t => exact ⟨hsize.trans_lt h.1, h.2⟩
  | flagBegin t iEnd => exact ⟨hsize.trans_lt h.1, h.2⟩
  | last t bEmpty => exact ⟨hsize.trans_lt h.1, h.2⟩
  | wrap t bEmpty => exact ⟨⟨hsize.trans_lt h.1.1, h.1.2⟩, h.2⟩
  | load t bEmpty => exact ⟨⟨hsize.trans_lt h.1.1, h.1.2⟩, h.2⟩
  | store t bEmpty iBegin => exact ⟨⟨hsize.trans_lt h.1.1, h.1.2⟩, h.2⟩
  | _ => trivial

/-- Pushes behind a queue that has elements leave its oldest element the oldest one. -/
private theorem head?_append {l : List T} {t : Option T} (h : l.head?.map some = some t)
    (more : List T) : (l ++ more).head?.map some = some t := by
  cases l with
  | nil => cases h
  | cons first rest => exact h

/-- What the consumer knows does not depend on the elements that are pushed meanwhile. -/
theorem LoopConsumer.Fits.push {q : LoopQueue T} {c : LoopConsumer T} {l : List T}
    (h : c.Fits q l) (q' : LoopQueue T) (more : List T) (hend : q'.iEnd = q.iEnd)
    (hcap : q'.iCapacitySub = q.iCapacitySub) : c.Fits q' (l ++ more) := by
  cases c with
  | testBegin pop iEnd => exact Eq.trans h hend.symm
  | address pop => exact List.append_ne_nil_of_left_ne_nil h more
  | copy pop iEnd => exact ⟨List.append_ne_nil_of_left_ne_nil h.1 more, h.2.trans hend.symm⟩
  | last t => exact head?_append h more
  | wrap t => exact ⟨head?_append h.1 more, by rw [hend, hcap]; exact h.2⟩
  | load t => exact ⟨head?_append h.1 more, by rw [hend, hcap]; exact h.2⟩
  | store t iEnd => exact ⟨head?_append h.1 more, by rw [hend, hcap]; exact h.2⟩
  | _ => trivial

namespace LoopThreads

@[simp] theorem pushed_append (es fs : List (LoopEvent T)) :
    pushed (es ++ fs) = pushed es ++ pushed fs := List.filterMap_append

@[simp] theorem popped_append (es fs : List (LoopEvent T)) :
    popped (es ++ fs) = popped es ++ popped fs := List.filterMap_append

end LoopThreads

open LoopThreads

/-- What one step of the producer can do to the queue, as the invariant has to see it: nothing,
writing a free slot, or making the new element visible. -/
inductive LoopProducer.Does (q : LoopQueue T) :
    LoopQueue T × LoopProducer T × List (LoopEvent T) → Prop
  /-- It reads an index, and the queue stays as it is. -/
  | read {p : LoopProducer T} {es : List (LoopEvent T)} : p.Fits q → pushed es = [] →
    popped es = [] → Does q (q, p, es)
  /-- It writes the slot of `_iBegin`. -/
  | write {t : T} {p : LoopProducer T} : p.Fits { q with p := q.p.set q.iBegin (some t) } →
    Does q ({ q with p := q.p.set q.iBegin (some t) }, p, [])
  /-- It advances `_iBegin` behind an element that it has written. -/
  | advance {t : T} {p : LoopProducer T} {es : List (LoopEvent T)} : q.size < q.iCapacitySub →
    q.p[q.iBegin]? = some (some t) → p.Fits { q with iBegin := q.next q.iBegin } →
      pushed es = [t] → popped es = [] →
        Does q ({ q with iBegin := q.next q.iBegin }, p, es)

/-- What one step of the consumer can do to the queue, as the invariant has to see it: nothing, or
taking the oldest element. -/
inductive LoopConsumer.Does (q : LoopQueue T) (l : List T) :
    LoopQueue T × LoopConsumer T × List (LoopEvent T) → Prop
  /-- It reads an index or a slot. -/
  | read {c : LoopConsumer T} {es : List (LoopEvent T)} : c.Fits q l → pushed es = [] →
    popped es = [] → Does q l (q, c, es)
  /-- It advances `_iEnd` behind the oldest element, which it has copied. -/
  | advance {t : T} {rest : List T} {c : LoopConsumer T} : l = t :: rest →
    c.Fits { q with iEnd := q.next q.iEnd } rest →
      Does q l ({ q with iEnd := q.next q.iEnd }, c, [.popped (some t)])

/-- The end of the advance of `_iBegin`: the new element, which is in its slot already, becomes
visible. -/
private theorem does_advanced {q : LoopQueue T} {t : T} (bEmpty : Bool)
    (hroom : q.size < q.iCapacitySub) (hslot : q.p[q.iBegin]? = some (some t)) :
    LoopProducer.Does q
      ({ q with iBegin := q.next q.iBegin }, LoopProducer.advanced t bEmpty) := by
  cases bEmpty with
  | false => exact .advance hroom hslot trivial rfl rfl
  | true => exact .advance hroom hslot trivial rfl rfl

/-- **The producer only writes where there is room.** Whatever it does between two steps of the
consumer, the elements stay as they are or get a new last one. -/
theorem LoopProducer.does_of_step {q : LoopQueue T} {l : List T} (h : q.Holds l)
    {p : LoopProducer T} (hp : p.Fits q) {r : LoopQueue T × LoopProducer T × List (LoopEvent T)}
    (hstep : p.step q = some r) : LoopProducer.Does q r := by
  have hcap := h.capacity_eq
  have hbound := h.capacity_bounds
  have hb := h.begin_lt
  cases p with
  | idle => cases hstep
  | readEnd t =>
    cases hstep
    exact .read ⟨h.end_lt, le_rfl⟩ rfl rfl
  | testAbove t iEnd =>
    cases hstep
    refine .read ?_ rfl rfl
    split
    · rename_i habove
      exact ⟨hp, habove⟩
    · rename_i hbelow
      exact ⟨hp, fun hgap => hbelow hgap.1⟩
  | testAboveGap t iEnd =>
    rw [LoopProducer.step] at hstep
    split at hstep
    · cases hstep
      exact .read trivial rfl rfl
    · rename_i hgap
      cases hstep
      exact .read ⟨hp.1, fun hsmall => hgap hsmall.2⟩ rfl rfl
  | testBelow t iEnd =>
    cases hstep
    refine .read ?_ rfl rfl
    obtain ⟨⟨hlt, hsize⟩, hgap⟩ := hp
    split
    · rename_i hbelow
      exact ⟨⟨hlt, hsize⟩, hbelow⟩
    · show q.size < q.iCapacitySub
      unfold LoopQueue.distance at hsize
      split at hsize <;> omega
  | testBelowGap t iEnd =>
    obtain ⟨⟨hlt, hsize⟩, hbelow⟩ := hp
    rw [LoopProducer.step] at hstep
    split at hstep
    · cases hstep
      exact .read trivial rfl rfl
    · cases hstep
      refine .read ?_ rfl rfl
      show q.size < q.iCapacitySub
      unfold LoopQueue.distance at hsize
      split at hsize <;> omega
  | address t =>
    cases hstep
    exact .read ⟨hp, rfl⟩ rfl rfl
  | copy t iBegin =>
    obtain ⟨hroom, rfl⟩ := hp
    cases hstep
    have hslot : (q.p.set q.iBegin (some t))[q.iBegin]? = some (some t) :=
      List.getElem?_set_self (by rw [h.length_eq]; exact hb)
    exact .write ⟨hroom, hslot⟩
  | flagEnd t =>
    cases hstep
    exact .read hp rfl rfl
  | flagBegin t iEnd =>
    cases hstep
    exact .read hp rfl rfl
  | last t bEmpty =>
    cases hstep
    refine .read ?_ rfl rfl
    split
    · rename_i hlast
      exact ⟨hp, hlast⟩
    · rename_i hlast
      exact ⟨hp, hlast⟩
  | wrap t bEmpty =>
    obtain ⟨⟨hroom, hslot⟩, hlast⟩ := hp
    cases hstep
    have hnext : q.next q.iBegin = 0 := if_pos hlast
    have hdoes := does_advanced bEmpty hroom hslot
    rwa [hnext] at hdoes
  | load t bEmpty =>
    cases hstep
    exact .read ⟨hp.1, hp.2, rfl⟩ rfl rfl
  | store t bEmpty iBegin =>
    obtain ⟨⟨hroom, hslot⟩, hlast, rfl⟩ := hp
    cases hstep
    have hnext : q.next q.iBegin = q.iBegin + 1 := if_neg hlast
    have hdoes := does_advanced bEmpty hroom hslot
    rwa [hnext] at hdoes
  | sizeBegin =>
    cases hstep
    exact .read trivial rfl rfl
  | sizeEnd iBegin =>
    cases hstep
    exact .read trivial rfl rfl

/-- **The consumer only takes the oldest element.** Whatever it does between two steps of the
producer, the elements stay as they are or lose their first one. -/
theorem LoopConsumer.does_of_step {q : LoopQueue T} {l : List T} (h : q.Holds l)
    {c : LoopConsumer T} (hc : c.Fits q l)
    {r : LoopQueue T × LoopConsumer T × List (LoopEvent T)} (hstep : c.step q = some r) :
    LoopConsumer.Does q l r := by
  cases c with
  | idle => cases hstep
  | emptyEnd =>
    cases hstep
    exact .read trivial rfl rfl
  | emptyBegin iEnd =>
    cases hstep
    exact .read trivial rfl rfl
  | testEnd pop =>
    cases hstep
    exact .read rfl rfl rfl
  | testBegin pop iEnd =>
    obtain rfl : iEnd = q.iEnd := hc
    rw [LoopConsumer.step] at hstep
    split at hstep
    · cases hstep
      exact .read trivial rfl rfl
    · rename_i hne
      cases hstep
      have hl : l ≠ [] := fun hl => hne (h.index_eq_iff.mpr hl)
      exact .read hl rfl rfl
  | address pop =>
    cases hstep
    exact .read ⟨hc, rfl⟩ rfl rfl
  | copy pop iEnd =>
    obtain ⟨hl, rfl⟩ := hc
    obtain ⟨t, rest, rfl⟩ := List.exists_cons_of_ne_nil hl
    cases pop with
    | false =>
      cases hstep
      exact .read trivial rfl rfl
    | true =>
      rw [LoopConsumer.step, h.slot_end] at hstep
      cases hstep
      exact .read rfl rfl rfl
  | last t =>
    cases hstep
    refine .read ?_ rfl rfl
    split
    · rename_i hlast
      exact ⟨hc, hlast⟩
    · rename_i hlast
      exact ⟨hc, hlast⟩
  | wrap t =>
    obtain ⟨hhead, hlast⟩ := hc
    cases hstep
    obtain ⟨first, hfirst, rfl⟩ := Option.map_eq_some_iff.mp hhead
    obtain ⟨rest, rfl⟩ := List.head?_eq_some_iff.mp hfirst
    have hnext : q.next q.iEnd = 0 := if_pos hlast
    have hdoes : LoopConsumer.Does q (first :: rest)
        ({ q with iEnd := q.next q.iEnd }, .idle, [.popped (some first)]) := .advance rfl trivial
    rwa [hnext] at hdoes
  | load t =>
    cases hstep
    exact .read ⟨hc.1, hc.2, rfl⟩ rfl rfl
  | store t iEnd =>
    obtain ⟨hhead, hlast, rfl⟩ := hc
    cases hstep
    obtain ⟨first, hfirst, rfl⟩ := Option.map_eq_some_iff.mp hhead
    obtain ⟨rest, rfl⟩ := List.head?_eq_some_iff.mp hfirst
    have hnext : q.next q.iEnd = q.iEnd + 1 := if_neg hlast
    have hdoes : LoopConsumer.Does q (first :: rest)
        ({ q with iEnd := q.next q.iEnd }, .idle, [.popped (some first)]) := .advance rfl trivial
    rwa [hnext] at hdoes

namespace LoopThreads

/-- The elements in the ring are those that have been pushed and not been popped. -/
structure Inv (s : LoopThreads T) (past : List (LoopEvent T)) (l : List T) : Prop where
  /-- The ring has these elements. -/
  holds : s.queue.Holds l
  /-- They follow the popped ones. -/
  order : (pushed past).map some = popped past ++ l.map some
  /-- What the producer knows of the queue from its reads. -/
  producer : s.producer.Fits s.queue
  /-- What the consumer knows of the queue from its reads. -/
  consumer : s.consumer.Fits s.queue l

/-- A new queue is empty, so what was pushed and what was popped are the same. -/
theorem inv_start {iSize : ℕ} (hpos : 1 ≤ iSize) (hlt : iSize < 1000000) :
    (start iSize : LoopThreads T).Inv [] [] :=
  ⟨LoopQueue.holds_new hpos hlt, rfl, trivial, trivial⟩

/-- What a call of the consumer leaves behind when it begins: the queue is the same and its first
phase fits it. -/
theorem Inv.call {s s' : LoopThreads T} {past es : List (LoopEvent T)} {l : List T}
    {c : LoopConsumer T} (h : s.Inv past l) (hc : c.Fits s.queue l)
    (hcall : s.call c = some (s', es)) : s'.Inv (past ++ es) l := by
  rw [LoopThreads.call] at hcall
  split at hcall
  · cases hcall
    rw [List.append_nil]
    exact ⟨h.holds, h.order, h.producer, hc⟩
  · cases hcall

/-- **Every step keeps the order**: what was pushed is what was popped, followed by what is in the
ring. -/
theorem Inv.step {s s' : LoopThreads T} {past es : List (LoopEvent T)} {l : List T}
    {a : LoopAction T} (h : s.Inv past l) (hstep : s.step a = some (s', es)) :
    ∃ l', s'.Inv (past ++ es) l' := by
  cases a with
  | pushBack t =>
    rw [LoopThreads.step] at hstep
    split at hstep
    · cases hstep
      rw [List.append_nil]
      exact ⟨l, h.holds, h.order, trivial, h.consumer⟩
    · cases hstep
  | producer =>
    obtain ⟨⟨q, p, es⟩, hr, hs⟩ := Option.map_eq_some_iff.mp hstep
    cases hs
    cases LoopProducer.does_of_step h.holds h.producer hr with
    | read hp hpushed hpopped =>
      refine ⟨l, h.holds, ?_, hp, h.consumer⟩
      rw [pushed_append, popped_append, hpushed, hpopped, List.append_nil, List.append_nil]
      exact h.order
    | @write t p hp =>
      have hc := h.consumer.push { s.queue with p := s.queue.p.set s.queue.iBegin (some t) } [] rfl
        rfl
      rw [List.append_nil] at hc ⊢
      exact ⟨l, h.holds.write t, h.order, hp, hc⟩
    | @advance t p es hroom hslot hp hpushed hpopped =>
      rw [← h.holds.size_eq] at hroom
      refine ⟨l ++ [t], h.holds.advanceBegin hroom hslot, ?_, hp, h.consumer.push _ [t] rfl rfl⟩
      rw [pushed_append, popped_append, hpushed, hpopped, List.append_nil, List.map_append, h.order,
        List.map_append, List.append_assoc]
  | popFront => exact ⟨l, h.call (c := .testEnd true) trivial hstep⟩
  | getFront => exact ⟨l, h.call (c := .testEnd false) trivial hstep⟩
  | empty => exact ⟨l, h.call (c := .emptyEnd) trivial hstep⟩
  | consumer =>
    obtain ⟨⟨q, c, es⟩, hr, hs⟩ := Option.map_eq_some_iff.mp hstep
    cases hs
    cases LoopConsumer.does_of_step h.holds h.consumer hr with
    | read hc hpushed hpopped =>
      refine ⟨l, h.holds, ?_, h.producer, hc⟩
      rw [pushed_append, popped_append, hpushed, hpopped, List.append_nil, List.append_nil]
      exact h.order
    | @advance t rest c hl hc =>
      subst hl
      have hholds := h.holds.advanceEnd
      have hsize : LoopQueue.size { s.queue with iEnd := s.queue.next s.queue.iEnd } ≤
          s.queue.size := by
        rw [← hholds.size_eq, ← h.holds.size_eq, List.length_cons]
        exact Nat.le_succ _
      refine ⟨rest, hholds, ?_, h.producer.pop hsize, hc⟩
      rw [pushed_append, popped_append, List.map_append, h.order]
      simp [pushed, popped]

/-- **First in, first out under two threads.** In every interleaving the popped elements are the
first ones that were pushed, the others are in the ring, and no element that has not been popped
is in the slot that is written. -/
theorem fifo {iSize : ℕ} (hpos : 1 ≤ iSize) (hlt : iSize < 1000000) {as : List (LoopAction T)}
    {s : LoopThreads T} {es : List (LoopEvent T)}
    (hrun : exec step (start iSize) as = some (s, es)) :
    popped es <+: (pushed es).map some ∧
      (pushed es).map some = popped es ++ s.queue.contents.map some ∧
      ∀ t iBegin, s.producer = .copy t iBegin →
        ∀ i < s.queue.contents.length, s.queue.slotIndex i ≠ iBegin := by
  have hinv : ∃ l, s.Inv es l :=
    exec_keeps (I := fun s es => ∃ l, s.Inv es l)
      (fun s a s' es past h hstep => by
        obtain ⟨l, h⟩ := h
        exact h.step hstep)
      ⟨[], inv_start hpos hlt⟩ hrun
  obtain ⟨l, h⟩ := hinv
  rw [h.holds.contents_eq]
  refine ⟨⟨l.map some, h.order.symm⟩, h.order, ?_⟩
  intro t iBegin hcopy i hi
  have hp := h.producer
  rw [hcopy] at hp
  rw [hp.2]
  exact h.holds.slotIndex_ne hi

/-- A queue for one element: the second `push_back` reads `_iEnd` before the element is popped and
is refused afterwards. -/
private def sampleActions : List (LoopAction ℕ) :=
  .pushBack 7 :: List.replicate 10 .producer ++
    [.pushBack 8, .popFront, .consumer, .producer, .consumer, .consumer, .consumer, .consumer,
      .consumer, .consumer, .producer, .producer, .producer]

/-- The statement on a run of a queue for one element, which is pushed, refused for another, and
popped. -/
theorem fifo_sample : ∃ s es, exec step (start 1) sampleActions = some (s, es) ∧
    es = [.pushed 7, .pushReturned true true, .popped (some 7), .pushReturned false false] ∧
      popped es <+: (pushed es).map some := by
  obtain ⟨⟨s, es⟩, hrun⟩ := Option.isSome_iff_exists.mp
    (by decide : (exec step (start 1) sampleActions).isSome)
  have hes : (exec step (start 1) sampleActions).map Prod.snd =
      some [.pushed 7, .pushReturned true true, .popped (some 7), .pushReturned false false] := by
    decide
  rw [hrun] at hes
  exact ⟨s, es, hrun, Option.some.inj hes, (fifo (le_refl 1) (by decide) hrun).1⟩

end LoopThreads

end Tars
