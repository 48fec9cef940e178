import Mathlib.Data.List.Perm.Basic
import Mathlib.Data.List.Nodup
import Tars.Library.Scripts
import Tars.Util.Monitor

/-!
# The queue `TC_ThreadQueue`

Producers push elements and ask for one signal each before they leave the monitor; consumers
call `pop_front(t, -1)` and wait while the queue is empty. What a thread does between `lock` and
`unlock` is one step, since no other thread touches the members then. The requests are counted in
an `int`. As long as the count is right, no consumer stays behind an element for which no signalled
consumer is on its way.
-/

namespace Tars

open Scripts

namespace ThreadQueue

/-- A call of the queue, with its arguments. The pops differ in how long they wait. -/
inductive Call (α : Type*) where
  /-- `pop_front(t, -1)`. -/
  | popFront
  /-- `push_back` of an element. -/
  | pushBack (t : α)
  /-- `push_back` of a queue. -/
  | pushBackAll (qt : List α)
  /-- `push_front` of an element. -/
  | pushFront (t : α)
  /-- `push_front` of a queue. -/
  | pushFrontAll (qt : List α)
  deriving DecidableEq

/-- Where a thread is in its call: before, inside or behind the section that the monitor protects.
-/
inductive Phase (α : Type*) where
  /-- Not in a call. -/
  | idle
  /-- Before `lock`. -/
  | locking (call : Call α)
  /-- Behind `lock`. -/
  | entered (call : Call α)
  /-- In `_cond.wait`. -/
  | waiting
  /-- Behind `wait`. -/
  | resumed
  /-- Before `notifyImpl` in `unlock`. -/
  | leaving
  /-- Before `_mutex.unlock` in `unlock`. -/
  | unlocking
  deriving DecidableEq

/-- What happens next: a thread does something, or the kernel decides which threads wake up. -/
inductive Action (α : Type*) where
  /-- A thread calls a function. -/
  | call (t : ℕ) (call : Call α)
  /-- A thread takes its next step. -/
  | thread (t : ℕ)
  /-- A waiting thread wakes up without a signal. -/
  | spurious (t : ℕ)
  /-- The next signals wake the waiting threads in this order. -/
  | order (waiting : List ℕ)

/-- What the calls do with the elements, in the order in which they do it. -/
inductive Event (α : Type*) where
  /-- An element is put into the queue. -/
  | pushed (t : α)
  /-- `pop_front` takes an element, or returns `false`. -/
  | popped (t : Option α)
  deriving DecidableEq

end ThreadQueue

open ThreadQueue

/-- The members of `TC_ThreadQueue`, and where its threads are. -/
structure ThreadQueue (α : Type*) where
  /-- The monitor whose mutex the calls take. -/
  monitor : Monitor ℕ
  /-- `_queue`. -/
  queue : List α
  /-- `_size`; a queue never holds as many elements as a `size_t` can count. -/
  size : ℕ
  /-- Where the threads are, by their numbers. -/
  phase : ℕ → Phase α
  /-- The consumers that were signalled and have not resumed. -/
  signalled : List ℕ

namespace ThreadQueue

variable {α : Type*}

/-- The constructor: the queue is empty and no thread is in a call. -/
def new : ThreadQueue α := ⟨Monitor.new, [], 0, fun _ => .idle, []⟩

/-- Move a thread to another place, and leave the others where they are. -/
def setPhase (s : ThreadQueue α) (t : ℕ) (phase : Phase α) : ThreadQueue α :=
  { s with phase := Function.update s.phase t phase }

/-- Put an element into the queue and ask for a signal. -/
def put (place : List α → α → List α) (s : ThreadQueue α) (t : α) : ThreadQueue α :=
  { s with queue := place s.queue t, size := s.size + 1, monitor := s.monitor.notify }

/-- A round of the loop in `push_back` of a queue. With an element `notify` is called first. -/
def append : ThreadQueue α → α → ThreadQueue α := put fun queue t => queue ++ [t]

/-- A round of the loop in `push_front` of a queue. With an element `notify` is called first. -/
def prepend : ThreadQueue α → α → ThreadQueue α := put fun queue t => t :: queue

/-- `pop_front` behind the wait. It fails where the source asserts that `_size` is positive. -/
def takeFront (s : ThreadQueue α) (t : ℕ) : Option (ThreadQueue α × List (Event α)) :=
  match s.queue with
  | [] => some (s.setPhase t .leaving, [.popped none])
  | x :: queue =>
    if s.size = 0 then none
    else some ({ s with queue, size := s.size - 1 }.setPhase t .leaving, [.popped (some x)])

/-- A thread waits. The monitor signals other threads before. -/
def wait (s : ThreadQueue α) (t : ℕ) : ThreadQueue α :=
  { s with
    monitor := s.monitor.wait t
    signalled := s.signalled ++ s.monitor.signalled }.setPhase t .waiting

/-- The body of a call, which runs while the thread has the mutex. -/
def body (s : ThreadQueue α) (t : ℕ) : Call α → Option (ThreadQueue α × List (Event α))
  | .popFront => if s.queue.isEmpty then some (s.wait t, []) else s.takeFront t
  | .pushBack x => some ((s.append x).setPhase t .leaving, [.pushed x])
  | .pushBackAll qt => some ((qt.foldl append s).setPhase t .leaving, qt.map .pushed)
  | .pushFront x => some ((s.prepend x).setPhase t .leaving, [.pushed x])
  | .pushFrontAll qt => some ((qt.foldl prepend s).setPhase t .leaving, qt.map .pushed)

/-- The next step of a thread, if it is not blocked. -/
def threadStep (s : ThreadQueue α) (t : ℕ) : Option (ThreadQueue α × List (Event α)) :=
  match s.phase t with
  | .idle => none
  | .locking call =>
    (s.monitor.lock t).map fun monitor => ({ s with monitor }.setPhase t (.entered call), [])
  | .entered call => s.body t call
  | .waiting =>
    (s.monitor.endWait t).map fun monitor =>
      ({ s with monitor, signalled := s.signalled.erase t }.setPhase t .resumed, [])
  | .resumed => s.takeFront t
  | .leaving =>
    some ({ s with
        monitor := s.monitor.notifyImpl
        signalled := s.signalled ++ s.monitor.signalled }.setPhase t .unlocking, [])
  | .unlocking => some ({ s with monitor := s.monitor.unlock }.setPhase t .idle, [])

/-- One step of a run. What a thread cannot do where it is, is refused. -/
def step (s : ThreadQueue α) : Action α → Option (ThreadQueue α × List (Event α))
  | .call t call =>
    match s.phase t with
    | .idle => some (s.setPhase t (.locking call), [])
    | _ => none
  | .thread t => s.threadStep t
  | .spurious t => (s.monitor.spurious t).map fun monitor => ({ s with monitor }, [])
  | .order waiting =>
    if waiting.Perm s.monitor.waiting then
      some ({ s with monitor := { s.monitor with waiting } }, [])
    else none

/-- The elements that were pushed, in this order, a batch element by element. -/
def pushed (es : List (Event α)) : List α :=
  es.filterMap fun
    | .pushed t => some t
    | .popped _ => none

/-- The elements that were popped, in this order, whichever thread popped them. -/
def popped (es : List (Event α)) : List α :=
  es.filterMap fun
    | .pushed _ => none
    | .popped t => t

/-- No wake-up is lost and no element is popped twice. -/
structure Sound (s : ThreadQueue α) (es : List (Event α)) : Prop where
  /-- While the mutex is free and a consumer waits that was not signalled, there are as many
  signalled consumers that have not resumed as elements. -/
  wakeup : s.monitor.owner = none → s.monitor.waiting ≠ [] → s.queue.length ≤ s.signalled.length
  /-- A signalled consumer is counted once, and is still in its wait. -/
  signalled : s.signalled.Nodup ∧ ∀ t ∈ s.signalled, s.phase t = .waiting ∧ t ∉ s.monitor.waiting
  /-- The elements that were pushed were popped or are in the queue. -/
  perm : (popped es ++ s.queue).Perm (pushed es)
  /-- `_size` counts the elements. -/
  size_eq : s.size = s.queue.length

/-- Batches whose lengths are of this kind: the condition under which the counter of notifications
does not overflow. -/
def Call.Fits (B : ℕ → Prop) : Call α → Prop
  | .pushBackAll qt | .pushFrontAll qt => B qt.length
  | .popFront | .pushBack _ | .pushFront _ => True

/-- Only such batches are pushed whose sizes satisfy the condition. -/
def Action.Fits (B : ℕ → Prop) : Action α → Prop
  | .call _ c => c.Fits B
  | .thread _ | .spurious _ | .order _ => True

/-- Whether a thread holds the mutex, as its place says. -/
def Phase.holds : Phase α → Bool
  | .idle | .locking _ | .waiting => false
  | .entered _ | .resumed | .leaving | .unlocking => true

/-- The batch of a call fits, and behind `lock` and `wait` no signal was asked for. -/
def Phase.Ready (B : ℕ → Prop) (nnotify : ℤ) : Phase α → Prop
  | .locking c => c.Fits B
  | .entered c => c.Fits B ∧ nnotify = 0
  | .resumed => nnotify = 0
  | .idle | .waiting | .leaving | .unlocking => True

/-- For so many elements and signalled consumers the thread that holds the mutex will signal
enough of the others. -/
def Phase.Covers (nnotify : ℤ) (elements signalled : ℕ) : Phase α → Prop
  | .leaving => nnotify = -1 ∨ elements ≤ signalled + nnotify.toNat
  | .resumed => elements ≤ signalled + 1
  | .idle | .locking _ | .entered _ | .waiting | .unlocking => elements ≤ signalled

/-- What every step keeps if the batches fit: no element is lost or made up, and no consumer waits
in vain. -/
structure Inv (B : ℕ → Prop) (s : ThreadQueue α) (es : List (Event α)) : Prop where
  /-- The elements that were pushed were popped or are in the queue. -/
  perm : (popped es ++ s.queue).Perm (pushed es)
  /-- `_size` counts the elements. -/
  size_eq : s.size = s.queue.length
  /-- A consumer waits or was signalled, and once. -/
  nodup : (s.monitor.waiting ++ s.signalled).Nodup
  /-- Then it is in its wait. -/
  waits : ∀ t ∈ s.monitor.waiting ++ s.signalled, s.phase t = .waiting
  /-- The phases tell who holds the mutex. -/
  owner_iff : ∀ t, s.monitor.owner = some t ↔ (s.phase t).holds = true
  /-- The calls fit, and no signal was asked for too early. -/
  ready : ∀ t, (s.phase t).Ready B s.monitor.nnotify
  /-- While a consumer waits the elements are covered. -/
  covered : s.monitor.waiting ≠ [] →
    (s.monitor.owner = none → s.queue.length ≤ s.signalled.length) ∧
    ∀ t, s.monitor.owner = some t →
      (s.phase t).Covers s.monitor.nnotify s.queue.length s.signalled.length

variable {B : ℕ → Prop} {s s' : ThreadQueue α} {t : ℕ} {es past : List (Event α)}
  {monitor : Monitor ℕ} {queue qt : List α} {size n : ℕ} {signalled : List ℕ} {phase : Phase α}
  {place : List α → α → List α}

/-- The invariant says in particular that the state is sound: the queue is what was pushed and not
yet popped. -/
theorem Inv.sound (h : s.Inv B es) : s.Sound es := by
  refine ⟨fun howner hwaiting => (h.covered hwaiting).1 howner, ⟨?_, fun t ht => ⟨?_, ?_⟩⟩, h.perm,
    h.size_eq⟩
  · exact (List.nodup_append.mp h.nodup).2.1
  · exact h.waits t (List.mem_append_right _ ht)
  · intro hwaiting
    exact (List.nodup_append.mp h.nodup).2.2 t hwaiting t ht rfl

/-- At the start nothing waits, and nothing was pushed or popped. -/
theorem inv_new : (new : ThreadQueue α).Inv B [] := by
  refine ⟨.refl _, rfl, List.nodup_nil, fun t ht => ?_, fun t => ?_, fun t => trivial,
    fun hne => absurd rfl hne⟩
  · cases ht
  · simp [new, Monitor.new, Phase.holds]

/-- What a thread that does not hold the mutex has asked for does not depend on the counter. -/
theorem Phase.Ready.of_not_holds {nnotify : ℤ} (h : phase.Ready B nnotify)
    (hholds : phase.holds = false) (nnotify' : ℤ) : phase.Ready B nnotify' := by
  cases phase with
  | idle | locking | waiting => exact h
  | entered | resumed | leaving | unlocking => cases hholds

/-- A thread that holds the mutex, or takes it while it is free, moves on. -/
theorem Inv.act (h : s.Inv B past) (hothers : ∀ u ≠ t, (s.phase u).holds = false)
    (howner : monitor.owner = if phase.holds then some t else none)
    (hperm : (popped (past ++ es) ++ queue).Perm (pushed (past ++ es)))
    (hsize : size = queue.length) (hnodup : (monitor.waiting ++ signalled).Nodup)
    (hwaits : ∀ u ∈ monitor.waiting ++ signalled, u = t ∧ phase = .waiting ∨
      u ≠ t ∧ u ∈ s.monitor.waiting ++ s.signalled)
    (hready : phase.Ready B monitor.nnotify)
    (hcovers : monitor.waiting ≠ [] → phase.Covers monitor.nnotify queue.length signalled.length) :
    Inv B ({ s with monitor, queue, size, signalled }.setPhase t phase) (past ++ es) := by
  have hself : Function.update s.phase t phase t = phase := Function.update_self t phase s.phase
  have hother (u : ℕ) (hu : u ≠ t) : Function.update s.phase t phase u = s.phase u :=
    Function.update_of_ne hu _ _
  refine ⟨hperm, hsize, hnodup, fun u hu => ?_, fun u => ?_, fun u => ?_,
    fun hwaiting => ⟨fun hnone => ?_, fun u hu => ?_⟩⟩
  · show Function.update s.phase t phase u = .waiting
    obtain ⟨rfl, hphase⟩ | ⟨hne, hold⟩ := hwaits u hu
    · rw [hself, hphase]
    · rw [hother u hne]
      exact h.waits u hold
  · show monitor.owner = some u ↔ (Function.update s.phase t phase u).holds = true
    rw [howner]
    by_cases hut : u = t
    · subst hut
      rw [hself]
      cases phase.holds <;> simp
    · rw [hother u hut, hothers u hut]
      cases phase.holds <;> simp [Ne.symm hut]
  · show (Function.update s.phase t phase u).Ready B monitor.nnotify
    by_cases hut : u = t
    · subst hut
      rw [hself]
      exact hready
    · rw [hother u hut]
      exact (h.ready u).of_not_holds (hothers u hut) _
  · have hcover := hcovers hwaiting
    have hfree : phase.holds = false := by
      by_contra hholds
      rw [Bool.not_eq_false] at hholds
      rw [hholds, if_pos rfl] at howner
      exact absurd (howner.symm.trans hnone) (by simp)
    cases phase with
    | idle | locking | waiting => exact hcover
    | entered | resumed | leaving | unlocking => cases hfree
  · show (Function.update s.phase t phase u).Covers _ _ _
    have hut : u = t := by
      have howns : monitor.owner = some u := hu
      rw [howner] at howns
      split at howns
      · exact (Option.some.inj howns).symm
      · cases howns
    rw [hut, hself]
    exact hcovers hwaiting

/-! ### The steps -/

/-- While a thread has the mutex no other one holds it. -/
theorem Inv.others (h : s.Inv B past) (howner : s.monitor.owner = some t) (u : ℕ) (hu : u ≠ t) :
    (s.phase u).holds = false := by
  by_contra hholds
  have hsame := (h.owner_iff u).mpr (by simpa using hholds)
  rw [howner] at hsame
  exact hu (Option.some.inj hsame).symm

/-- While the mutex is free no thread holds it. -/
theorem Inv.none_holds (h : s.Inv B past) (howner : s.monitor.owner = none) (u : ℕ) :
    (s.phase u).holds = false := by
  by_contra hholds
  have hsome := (h.owner_iff u).mpr (by simpa using hholds)
  rw [howner] at hsome
  cases hsome

/-- A thread that is not in its wait does not wait. -/
theorem Inv.ne_of_mem (h : s.Inv B past) (ht : s.phase t ≠ .waiting) (u : ℕ)
    (hu : u ∈ s.monitor.waiting ++ s.signalled) : u ≠ t := by
  rintro rfl
  exact ht (h.waits u hu)

/-- What a step pushes and pops comes behind what was pushed and popped. -/
theorem pushed_append (es es' : List (Event α)) : pushed (es ++ es') = pushed es ++ pushed es' :=
  List.filterMap_append

/-- The popped elements of two parts of a run are those of the first, then those of the second. -/
theorem popped_append (es es' : List (Event α)) : popped (es ++ es') = popped es ++ popped es' :=
  List.filterMap_append

/-- A thread that calls a function keeps the invariant: it has not touched the queue yet. -/
theorem Inv.call (h : s.Inv B past) (ht : s.phase t = .idle) {c : Call α} (hc : c.Fits B) :
    Inv B (s.setPhase t (.locking c)) past := by
  have hother (u : ℕ) (hu : u ≠ t) : (s.setPhase t (.locking c)).phase u = s.phase u :=
    Function.update_of_ne hu _ _
  have hself : (s.setPhase t (.locking c)).phase t = .locking c := Function.update_self _ _ _
  refine ⟨h.perm, h.size_eq, h.nodup, fun u hu => ?_, fun u => ?_, fun u => ?_,
    fun hwaiting => ⟨(h.covered hwaiting).1, fun u hu => ?_⟩⟩
  · rw [hother u (h.ne_of_mem (by simp [ht]) u hu)]
    exact h.waits u hu
  · by_cases hut : u = t
    · subst hut
      have hfree := h.owner_iff u
      rw [ht] at hfree
      rw [hself]
      exact hfree
    · rw [hother u hut]
      exact h.owner_iff u
  · by_cases hut : u = t
    · subst hut
      rw [hself]
      exact hc
    · rw [hother u hut]
      exact h.ready u
  · have hut : u ≠ t := by
      rintro rfl
      have hholds := (h.owner_iff u).mp hu
      rw [ht] at hholds
      cases hholds
    rw [hother u hut]
    exact (h.covered hwaiting).2 u hu

/-- A thread takes the mutex in `lock`, if nobody else has it, and changes nothing else. -/
theorem Inv.lock (h : s.Inv B past) {c : Call α} (ht : s.phase t = .locking c)
    (hlock : s.monitor.lock t = some monitor) :
    Inv B ({ s with monitor }.setPhase t (.entered c)) (past ++ []) := by
  obtain ⟨hfree, howner, hnnotify, hwaiting⟩ := Monitor.lock_eq_some hlock
  refine h.act (fun u _ => h.none_holds hfree u) howner (by rw [List.append_nil]; exact h.perm)
    h.size_eq (by rw [hwaiting]; exact h.nodup) (fun u hu => .inr ?_) ⟨?_, hnnotify⟩
    (fun hne => ?_)
  · rw [hwaiting] at hu
    exact ⟨h.ne_of_mem (by simp [ht]) u hu, hu⟩
  · have hready := h.ready t
    rw [ht] at hready
    exact hready
  · rw [hwaiting] at hne
    exact (h.covered hne).1 hfree

/-- A thread takes the mutex back at the end of `wait`. -/
theorem Inv.endWait (h : s.Inv B past) (hwait : s.monitor.endWait t = some monitor) :
    Inv B ({ s with monitor, signalled := s.signalled.erase t }.setPhase t .resumed)
      (past ++ []) := by
  obtain ⟨hnotin, hlock⟩ := Monitor.endWait_eq_some hwait
  obtain ⟨hfree, howner, hnnotify, hwaiting⟩ := Monitor.lock_eq_some hlock
  obtain ⟨hnodup, hnodup', hdisjoint⟩ := List.nodup_append.mp h.nodup
  refine h.act (fun u _ => h.none_holds hfree u) howner (by rw [List.append_nil]; exact h.perm)
    h.size_eq ?_ (fun u hu => .inr ?_) hnnotify (fun hne => ?_)
  · rw [hwaiting]
    exact List.nodup_append.mpr ⟨hnodup, hnodup'.erase t, fun a ha b hb =>
      hdisjoint a ha b (List.mem_of_mem_erase hb)⟩
  · rw [hwaiting] at hu
    obtain hu | hu := List.mem_append.mp hu
    · exact ⟨fun heq => hnotin (heq ▸ hu), List.mem_append_left _ hu⟩
    · obtain ⟨hne, hu⟩ := hnodup'.mem_erase_iff.mp hu
      exact ⟨hne, List.mem_append_right _ hu⟩
  · rw [hwaiting] at hne
    have hle := (h.covered hne).1 hfree
    show s.queue.length ≤ (s.signalled.erase t).length + 1
    rw [List.length_erase]
    split <;> omega

/-- A thread that holds the mutex and finds the queue empty waits: it is added to those that can be
woken. -/
theorem Inv.wait (h : s.Inv B past) (hholds : (s.phase t).holds = true) (hempty : s.queue = []) :
    Inv B (s.wait t) (past ++ []) := by
  have howner := (h.owner_iff t).mpr hholds
  have hsplit := s.monitor.signalled_append_waiting
  have hne : s.phase t ≠ .waiting := fun heq => by
    rw [heq] at hholds
    cases hholds
  have hperm : (s.monitor.notifyImpl.waiting ++ [t] ++ (s.signalled ++ s.monitor.signalled)).Perm
      (t :: (s.monitor.waiting ++ s.signalled)) := by
    rw [← hsplit, List.perm_iff_count]
    intro u
    simp only [List.count_append, List.count_cons, List.count_nil]
    omega
  refine h.act (h.others howner) rfl (by rw [List.append_nil]; exact h.perm) h.size_eq
    (hperm.nodup_iff.mpr (List.nodup_cons.mpr ⟨fun hmem => h.ne_of_mem hne t hmem rfl, h.nodup⟩))
    (fun u hu => ?_) trivial (fun _ => ?_)
  · obtain rfl | hu := List.mem_cons.mp (hperm.mem_iff.mp hu)
    · exact .inl ⟨rfl, rfl⟩
    · exact .inr ⟨h.ne_of_mem hne u hu, hu⟩
  · show s.queue.length ≤ _
    rw [hempty]
    exact Nat.zero_le _

/-- A thread that holds the mutex changes the queue and leaves. -/
theorem Inv.leave (h : s.Inv B past) (hholds : (s.phase t).holds = true)
    (howner : monitor.owner = s.monitor.owner) (hwaiting : monitor.waiting = s.monitor.waiting)
    (hperm : (popped (past ++ es) ++ queue).Perm (pushed (past ++ es)))
    (hsize : size = queue.length)
    (hcovers : s.monitor.waiting ≠ [] → monitor.nnotify = -1 ∨
      queue.length ≤ s.signalled.length + monitor.nnotify.toNat) :
    Inv B ({ s with monitor, queue, size }.setPhase t .leaving) (past ++ es) := by
  have howns := (h.owner_iff t).mpr hholds
  have hne : s.phase t ≠ .waiting := fun heq => by
    rw [heq] at hholds
    cases hholds
  refine h.act (h.others howns) (howner.trans howns) hperm hsize
    (by rw [hwaiting]; exact h.nodup) (fun u hu => .inr ?_) trivial (by rwa [hwaiting])
  · rw [hwaiting] at hu
    exact ⟨h.ne_of_mem hne u hu, hu⟩

/-- `pop_front` takes the first element, or finds none because another thread was faster, and
unlocks without waking anybody. -/
theorem Inv.takeFront (h : s.Inv B past) (hholds : (s.phase t).holds = true)
    (hnnotify : s.monitor.nnotify = 0)
    (hcovers : s.monitor.waiting ≠ [] → s.queue.length ≤ s.signalled.length + 1)
    (htake : s.takeFront t = some (s', es)) : s'.Inv B (past ++ es) := by
  have hperm := h.perm
  unfold ThreadQueue.takeFront at htake
  split at htake
  · next hqueue =>
    obtain ⟨rfl, rfl⟩ := Prod.mk.inj (Option.some.inj htake)
    refine h.leave hholds rfl rfl ?_ h.size_eq fun _ => .inr ?_
    · rw [popped_append, pushed_append]
      simpa [popped, pushed] using hperm
    · rw [hqueue]
      exact Nat.zero_le _
  · next x queue hqueue =>
    split at htake
    · cases htake
    · obtain ⟨rfl, rfl⟩ := Prod.mk.inj (Option.some.inj htake)
      have hsize := h.size_eq
      rw [hqueue] at hperm hcovers hsize
      refine h.leave hholds rfl rfl ?_ (by rw [hsize]; rfl) fun hne => .inr ?_
      · rw [popped_append, pushed_append]
        simpa [popped, pushed] using hperm
      · have hle := hcovers hne
        rw [List.length_cons] at hle
        show queue.length ≤ _
        omega

/-- A loop of pushes puts all elements into the queue and counts a signal for each. -/
theorem foldl_put (hplace : ∀ queue t, (place queue t).Perm (queue ++ [t]))
    (hcount : s.monitor.nnotify = Monitor.counted n) (qt : List α) :
    ∃ monitor queue, qt.foldl (put place) s =
        { s with monitor, queue, size := s.size + qt.length } ∧
      queue.Perm (s.queue ++ qt) ∧ monitor.owner = s.monitor.owner ∧
      monitor.waiting = s.monitor.waiting ∧ monitor.nnotify = Monitor.counted (n + qt.length) := by
  induction qt generalizing s n with
  | nil => exact ⟨s.monitor, s.queue, rfl, by simp, rfl, rfl, hcount⟩
  | cons t qt ih =>
    obtain ⟨monitor, queue, heq, hperm, howner, hwaiting, hnnotify⟩ :=
      ih (s := put place s t) (Monitor.notify_counted hcount)
    refine ⟨monitor, queue, ?_, ?_, howner.trans Monitor.notify_owner,
      hwaiting.trans Monitor.notify_waiting, ?_⟩
    · rw [List.foldl_cons, heq, List.length_cons, Nat.add_comm qt.length, ← Nat.add_assoc]
      rfl
    · apply hperm.trans
      rw [← List.singleton_append, ← List.append_assoc]
      exact (hplace s.queue t).append_right qt
    · rw [hnnotify, List.length_cons, Nat.add_comm qt.length, ← Nat.add_assoc]

/-- As long as the counter does not wrap to a negative value other than `-1`, every element that
is pushed is covered by a signal. -/
theorem covers_counted {elements waiting : ℕ} (hn : n < 2 ^ 31 ∨ 2 ^ 32 - 1 ≤ n)
    (hle : elements ≤ waiting) :
    Monitor.counted n = -1 ∨ elements + n ≤ waiting + (Monitor.counted n).toNat := by
  unfold Monitor.counted
  split
  · next hlt =>
    rw [toInt32_of_lt (by omega)]
    exact .inr (by simpa using hle)
  · exact .inl rfl

/-- A push, of an element or of a queue. -/
theorem Inv.push (h : s.Inv B past) {c : Call α} (ht : s.phase t = .entered c)
    (hplace : ∀ queue t, (place queue t).Perm (queue ++ [t]))
    (hlength : qt.length < 2 ^ 31 ∨ 2 ^ 32 - 1 ≤ qt.length) :
    Inv B ((qt.foldl (put place) s).setPhase t .leaving) (past ++ qt.map .pushed) := by
  have hholds : (s.phase t).holds = true := by rw [ht]; rfl
  have hready := h.ready t
  rw [ht] at hready
  obtain ⟨monitor, queue, heq, hperm, howner, hwaiting, hnnotify⟩ :=
    foldl_put (n := 0) hplace hready.2 qt
  rw [Nat.zero_add] at hnnotify
  rw [heq]
  have hpushed : pushed (qt.map .pushed) = qt := by simp [pushed, List.filterMap_map]
  have hpopped : popped (qt.map .pushed) = [] := by simp [popped, List.filterMap_map]
  refine h.leave hholds howner hwaiting ?_ ?_ fun hne => ?_
  · rw [popped_append, pushed_append, hpushed, hpopped, List.append_nil]
    refine (hperm.append_left _).trans ?_
    rw [← List.append_assoc]
    exact h.perm.append_right qt
  · rw [hperm.length_eq, List.length_append, h.size_eq]
  · have hcovered := (h.covered hne).2 t ((h.owner_iff t).mpr hholds)
    rw [ht] at hcovered
    rw [hnnotify, hperm.length_eq, List.length_append]
    exact covers_counted hlength hcovered

/-- `notifyImpl` signals for every element that needs a consumer. -/
theorem Inv.signal (h : s.Inv B past) (ht : s.phase t = .leaving) :
    Inv B ({ s with
        monitor := s.monitor.notifyImpl
        signalled := s.signalled ++ s.monitor.signalled }.setPhase t .unlocking) (past ++ []) := by
  have howner := (h.owner_iff t).mpr (by rw [ht]; rfl)
  have hsplit := s.monitor.signalled_append_waiting
  have hperm : (s.monitor.notifyImpl.waiting ++ (s.signalled ++ s.monitor.signalled)).Perm
      (s.monitor.waiting ++ s.signalled) := by
    rw [← hsplit, List.perm_iff_count]
    intro u
    simp only [List.count_append]
    omega
  refine h.act (h.others howner) (Monitor.notifyImpl_owner.trans howner)
    (by rw [List.append_nil]; exact h.perm) h.size_eq (hperm.nodup_iff.mpr h.nodup)
    (fun u hu => .inr ?_) trivial (fun hne => ?_)
  · have hmem := hperm.mem_iff.mp hu
    exact ⟨h.ne_of_mem (by simp [ht]) u hmem, hmem⟩
  · obtain ⟨hcount, hlength⟩ := Monitor.length_signalled hne
    have hwaiting : s.monitor.waiting ≠ [] := fun hnil => by
      rw [hnil] at hsplit
      exact hne (List.append_eq_nil_iff.mp hsplit).2
    have hcovered := (h.covered hwaiting).2 t howner
    rw [ht] at hcovered
    show s.queue.length ≤ (s.signalled ++ s.monitor.signalled).length
    rw [List.length_append, hlength]
    exact hcovered.resolve_left hcount

/-- A thread gives the mutex back, and as many waiting threads are signalled as were counted. -/
theorem Inv.unlock (h : s.Inv B past) (ht : s.phase t = .unlocking) :
    Inv B ({ s with monitor := s.monitor.unlock }.setPhase t .idle) (past ++ []) := by
  have howner := (h.owner_iff t).mpr (by rw [ht]; rfl)
  refine h.act (h.others howner) rfl (by rw [List.append_nil]; exact h.perm) h.size_eq h.nodup
    (fun u hu => .inr ⟨h.ne_of_mem (by simp [ht]) u hu, hu⟩) trivial (fun hne => ?_)
  have hcovered := (h.covered hne).2 t howner
  rw [ht] at hcovered
  exact hcovered

/-- Fewer threads wait, or in another order: the invariant only asks that each waits once and that
those who wait can be woken. -/
theorem Inv.rewait (h : s.Inv B past) {waiting : List ℕ}
    (hnodup : (waiting ++ s.signalled).Nodup) (hmem : ∀ u ∈ waiting, u ∈ s.monitor.waiting) :
    Inv B { s with monitor := { s.monitor with waiting } } past := by
  refine ⟨h.perm, h.size_eq, hnodup, fun u hu => h.waits u ?_, h.owner_iff, h.ready,
    fun hne => h.covered ?_⟩
  · obtain hu | hu := List.mem_append.mp hu
    · exact List.mem_append_left _ (hmem u hu)
    · exact List.mem_append_right _ hu
  · obtain ⟨u, hu⟩ := List.exists_mem_of_ne_nil _ hne
    exact List.ne_nil_of_mem (hmem u hu)

/-- The body of a call keeps the invariant, with one case for each function. -/
theorem Inv.body (h : s.Inv B past) (hB : ∀ n, B n → n < 2 ^ 31 ∨ 2 ^ 32 - 1 ≤ n) {c : Call α}
    (ht : s.phase t = .entered c) (hbody : s.body t c = some (s', es)) : s'.Inv B (past ++ es) := by
  have hholds : (s.phase t).holds = true := by rw [ht]; rfl
  have happend (queue : List α) (t : α) : (queue ++ [t]).Perm (queue ++ [t]) := .refl _
  have hprepend (queue : List α) (t : α) : (t :: queue).Perm (queue ++ [t]) :=
    (List.perm_append_singleton t queue).symm
  have hone (t : α) : [t].length < 2 ^ 31 ∨ 2 ^ 32 - 1 ≤ [t].length := .inl (by simp)
  have hready := h.ready t
  rw [ht] at hready
  cases c with
  | popFront =>
    simp only [ThreadQueue.body] at hbody
    split at hbody
    · next hempty =>
      obtain ⟨rfl, rfl⟩ := Prod.mk.inj (Option.some.inj hbody)
      exact h.wait hholds (List.isEmpty_iff.mp hempty)
    · refine h.takeFront hholds hready.2 (fun hne => ?_) hbody
      have hcovered := (h.covered hne).2 t ((h.owner_iff t).mpr hholds)
      rw [ht] at hcovered
      exact Nat.le_succ_of_le hcovered
  | pushBack x =>
    obtain ⟨rfl, rfl⟩ := Prod.mk.inj (Option.some.inj hbody)
    exact h.push ht happend (hone x)
  | pushBackAll qt =>
    obtain ⟨rfl, rfl⟩ := Prod.mk.inj (Option.some.inj hbody)
    exact h.push ht happend (hB _ hready.1)
  | pushFront x =>
    obtain ⟨rfl, rfl⟩ := Prod.mk.inj (Option.some.inj hbody)
    exact h.push ht hprepend (hone x)
  | pushFrontAll qt =>
    obtain ⟨rfl, rfl⟩ := Prod.mk.inj (Option.some.inj hbody)
    exact h.push ht hprepend (hB _ hready.1)

/-- The next step of a thread keeps the invariant, with one case for each of its places. -/
theorem Inv.threadStep (h : s.Inv B past) (hB : ∀ n, B n → n < 2 ^ 31 ∨ 2 ^ 32 - 1 ≤ n)
    (hstep : s.threadStep t = some (s', es)) : s'.Inv B (past ++ es) := by
  unfold ThreadQueue.threadStep at hstep
  cases ht : s.phase t with
  | idle =>
    rw [ht] at hstep
    cases hstep
  | locking c =>
    rw [ht] at hstep
    obtain ⟨monitor, hlock, heq⟩ := Option.map_eq_some_iff.mp hstep
    obtain ⟨rfl, rfl⟩ := Prod.mk.inj heq
    exact h.lock ht hlock
  | entered c =>
    rw [ht] at hstep
    exact h.body hB ht hstep
  | waiting =>
    rw [ht] at hstep
    obtain ⟨monitor, hwait, heq⟩ := Option.map_eq_some_iff.mp hstep
    obtain ⟨rfl, rfl⟩ := Prod.mk.inj heq
    exact h.endWait hwait
  | resumed =>
    rw [ht] at hstep
    have hholds : (s.phase t).holds = true := by rw [ht]; rfl
    have hready := h.ready t
    rw [ht] at hready
    refine h.takeFront hholds hready (fun hne => ?_) hstep
    have hcovered := (h.covered hne).2 t ((h.owner_iff t).mpr hholds)
    rw [ht] at hcovered
    exact hcovered
  | leaving =>
    rw [ht] at hstep
    obtain ⟨rfl, rfl⟩ := Prod.mk.inj (Option.some.inj hstep)
    exact h.signal ht
  | unlocking =>
    rw [ht] at hstep
    obtain ⟨rfl, rfl⟩ := Prod.mk.inj (Option.some.inj hstep)
    exact h.unlock ht

/-- **One step** keeps the invariant if the batches are small, or so large that the counter stays
at `-1`. -/
theorem Inv.step {a : Action α} (h : s.Inv B past)
    (hB : ∀ n, B n → n < 2 ^ 31 ∨ 2 ^ 32 - 1 ≤ n) (hfits : a.Fits B)
    (hstep : s.step a = some (s', es)) : s'.Inv B (past ++ es) := by
  cases a with
  | call t c =>
    simp only [ThreadQueue.step] at hstep
    split at hstep
    · next hidle =>
      obtain ⟨rfl, rfl⟩ := Prod.mk.inj (Option.some.inj hstep)
      rw [List.append_nil]
      exact h.call hidle hfits
    · cases hstep
  | thread t => exact h.threadStep hB hstep
  | spurious t =>
    obtain ⟨monitor, hwake, heq⟩ := Option.map_eq_some_iff.mp hstep
    obtain ⟨rfl, rfl⟩ := Prod.mk.inj heq
    unfold Monitor.spurious at hwake
    split at hwake
    · obtain rfl := Option.some.inj hwake
      rw [List.append_nil]
      exact h.rewait (h.nodup.sublist ((List.erase_sublist).append_right _))
        fun u hu => List.mem_of_mem_erase hu
    · cases hwake
  | order waiting =>
    simp only [ThreadQueue.step] at hstep
    split at hstep
    · next hperm =>
      obtain ⟨rfl, rfl⟩ := Prod.mk.inj (Option.some.inj hstep)
      rw [List.append_nil]
      exact h.rewait ((hperm.append_right _).nodup_iff.mpr h.nodup) fun u hu => hperm.mem_iff.mp hu
    · cases hstep

/-! ### Batches that are too long -/

/-- A consumer waits, then a producer pushes a queue. -/
def lateBatch (qt : List α) : List (Action α) :=
  [.call 0 .popFront, .thread 0, .thread 0, .call 1 (.pushBackAll qt), .thread 1] ++
    [.thread 1, .thread 1, .thread 1]

/-- **A lost wake-up.** If the counter wraps to a negative value other than `-1`, no consumer is
signalled. -/
theorem exec_lateBatch (hlo : 2 ^ 31 ≤ qt.length) (hhi : qt.length < 2 ^ 32 - 1) :
    ∃ s : ThreadQueue α, exec step new (lateBatch qt) = some (s, qt.map .pushed) ∧
      s.monitor.owner = none ∧ s.monitor.waiting = [0] ∧ s.signalled = [] ∧
      s.queue.length = qt.length := by
  obtain ⟨s, hexec, hmonitor, hqueue, hsignalled, hphase⟩ : ∃ s : ThreadQueue α,
      exec step new [.call 0 .popFront, .thread 0, .thread 0, .call 1 (.pushBackAll qt),
        .thread 1] = some (s, []) ∧ s.monitor = ⟨some 1, 0, [0]⟩ ∧ s.queue = [] ∧
      s.signalled = [] ∧ s.phase 1 = .entered (.pushBackAll qt) :=
    ⟨_, rfl, rfl, rfl, rfl, rfl⟩
  have happend (queue : List α) (t : α) : (queue ++ [t]).Perm (queue ++ [t]) := .refl _
  have hstart : s.monitor.nnotify = Monitor.counted 0 := by rw [hmonitor]; rfl
  obtain ⟨monitor, queue, heq, hperm, -, hwaiting, hnnotify⟩ := foldl_put happend hstart qt
  rw [Nat.zero_add] at hnnotify
  rw [hqueue, List.nil_append] at hperm
  rw [hmonitor] at hwaiting
  have hneg : monitor.nnotify < 0 ∧ monitor.nnotify ≠ -1 := by
    rw [hnnotify, Monitor.counted, if_pos hhi]
    refine ⟨toInt32_neg hlo (by omega), fun hone => ?_⟩
    have := (Monitor.toInt32_eq_neg_one (by omega)).mp hone
    omega
  have hnone : monitor.signalled = [] ∧ monitor.notifyImpl.waiting = [0] := by
    rw [Monitor.signalled, Monitor.notifyImpl, if_neg hneg.2, if_neg hneg.2, hwaiting,
      Int.toNat_of_nonpos (by omega)]
    exact ⟨rfl, rfl⟩
  have hbody : s.step (.thread 1) = some (({ s with monitor, queue, size := s.size + qt.length } :
      ThreadQueue α).setPhase 1 .leaving, qt.map .pushed) := by
    rw [← heq]
    simp only [step, threadStep, hphase, body]
    rfl
  refine ⟨_, exec_append_eq_some.mpr ⟨s, [], qt.map .pushed, hexec, exec_cons_eq_some.mpr
    ⟨_, _, [], hbody, rfl, by rw [List.append_nil]⟩, rfl⟩, rfl, hnone.2, ?_, hperm.length_eq⟩
  show s.signalled ++ monitor.signalled = []
  rw [hsignalled, hnone.1]
  rfl

/-- **No lost wake-up.** In every run of any number of producers and consumers a consumer waits
without having been signalled only if there is a signalled consumer for every element, no element
is popped twice and `_size` is right, exactly for the lengths of batches for which the `int` that
counts the signals does not wrap to a negative value other than `-1`. -/
theorem sound_iff_batches [Inhabited α] (B : ℕ → Prop) :
    (∀ as (s : ThreadQueue α) es, (∀ a ∈ as, a.Fits B) → exec step new as = some (s, es) →
      s.Sound es) ↔ ∀ n, B n → n < 2 ^ 31 ∨ 2 ^ 32 - 1 ≤ n := by
  constructor
  · intro hsound n hn
    by_contra hlength
    have hlo : 2 ^ 31 ≤ n := by omega
    have hhi : n < 2 ^ 32 - 1 := by omega
    obtain ⟨qt, rfl⟩ : ∃ qt : List α, qt.length = n := ⟨List.replicate n default, by simp⟩
    obtain ⟨s, hexec, howner, hwaiting, hsignalled, hqueue⟩ := exec_lateBatch hlo hhi
    have hfits : ∀ a ∈ lateBatch qt, a.Fits B := by
      simpa [lateBatch, Action.Fits, Call.Fits] using hn
    have hle := (hsound _ s _ hfits hexec).wakeup howner (by rw [hwaiting]; simp)
    rw [hsignalled, hqueue, List.length_nil] at hle
    omega
  · intro hB as s es hfits hexec
    refine Inv.sound (B := B) (exec_invariant_outputs (I := fun s past => s.Inv B past) []
      (fun s a s' es past h hfits hstep => h.step hB hfits hstep) inv_new
      (along_of_mem (D := fun a => a.Fits B) hfits) hexec)

/-- **A batch of `2 ^ 31` elements.** The consumer that waits for them is not signalled. -/
theorem lost_wakeup :
    ∃ s es, exec step new (lateBatch (List.replicate (2 ^ 31) ())) = some (s, es) ∧
      s.monitor.owner = none ∧ s.monitor.waiting = [0] ∧ s.signalled = [] ∧
      s.queue.length = 2 ^ 31 ∧ ¬s.Sound es := by
  have hlength : (List.replicate (2 ^ 31) ()).length = 2 ^ 31 := List.length_replicate
  generalize List.replicate (2 ^ 31) () = qt at hlength ⊢
  obtain ⟨s, hexec, howner, hwaiting, hsignalled, hqueue⟩ :=
    @exec_lateBatch _ qt (by omega) (by omega)
  refine ⟨s, _, hexec, howner, hwaiting, hsignalled, hqueue.trans hlength, fun hsound => ?_⟩
  have hle := hsound.wakeup howner (by rw [hwaiting]; simp)
  rw [hsignalled, hqueue, hlength, List.length_nil] at hle
  omega

end ThreadQueue

end Tars
