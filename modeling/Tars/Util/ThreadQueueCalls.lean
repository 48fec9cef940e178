import Mathlib.Data.List.Perm.Basic
import Tars.Library.LockedObjects
import Tars.Util.Monitor

/-!
# All functions of `TC_ThreadQueue`, by any threads

The functions lock the monitor and then touch the members one access at a time; `pop_front` and
`swap` may wait, for ever or for some time. However the accesses of the threads are interleaved,
the calls are those of a queue that is used by one thread, in an order that fits the times at which
they start and return: in particular `pop_front` returns `false` only if the queue was empty at some
moment of the call, also where it finds elements after its time has run out.
-/

namespace Tars

open Scripts Linearization LockedObjects

namespace QueueCalls

/-- The ends of the queue, at which elements are put. -/
inductive Side where
  | back
  | front
  deriving DecidableEq

/-- `_queue.push_back(t)` or `_queue.push_front(t)`: the element is put at one end. -/
def Side.place {α : Type*} : Side → List α → α → List α
  | .back, queue, t => queue ++ [t]
  | .front, queue, t => t :: queue

/-- The functions that wait for elements: `pop_front`, or `swap` with another queue. -/
inductive Taker (α : Type*) where
  /-- `pop_front`. -/
  | popFront
  /-- `swap(q)`. -/
  | swap (q : List α)
  deriving DecidableEq

/-- A call of the queue. The largest `size_t`, which is `-1`, stands for ever. -/
inductive Call (α : Type*) where
  /-- `pop_front(t, millsecond)` or `swap(q, millsecond)`. -/
  | take (k : Taker α) (millsecond : UInt64)
  /-- `push_back` or `push_front` of an element. -/
  | push (side : Side) (t : α)
  /-- `push_back` or `push_front` of a queue. -/
  | pushAll (side : Side) (qt : List α)
  /-- `notifyT`. -/
  | notifyT
  /-- `size`. -/
  | size
  /-- `clear`. -/
  | clear
  /-- `empty`. -/
  | empty
  deriving DecidableEq

/-- What a call returns, with the elements it gives to its caller. -/
inductive Result (α : Type*) where
  /-- A call that returns nothing to its caller. -/
  | done
  /-- `pop_front`: `true` and an element, or `false`. -/
  | popped (t : Option α)
  /-- `swap`: `true` and the elements, or `false`. -/
  | swapped (q : Option (List α))
  /-- `size`. -/
  | count (size : ℕ)
  /-- `empty`. -/
  | isEmpty (b : Bool)
  deriving DecidableEq

/-- What a function does next, with its local variables. -/
inductive Stmt (α : Type*) where
  /-- The first `if (_queue.empty())` of `pop_front` and `swap`. -/
  | test (k : Taker α) (millsecond : UInt64)
  /-- Behind `wait` or `timedWait`. -/
  | waited (k : Taker α) (millsecond : UInt64)
  /-- The second `if (_queue.empty())`. -/
  | retest (k : Taker α)
  /-- `t = _queue.front()`. -/
  | readFront
  /-- `_queue.pop_front()`. -/
  | popFront (t : α)
  /-- `assert(_size > 0); --_size`. -/
  | countDown (t : α)
  /-- `q.swap(_queue)`. -/
  | swap (q : List α)
  /-- `_size = _queue.size()`. -/
  | takeSize (q : List α)
  /-- `notify()` of a push. -/
  | notify (side : Side) (t : α)
  /-- `_queue.push_back(t)` or `_queue.push_front(t)`. -/
  | put (side : Side) (t : α)
  /-- `++_size`. -/
  | countUp
  /-- `while(it != itEnd)` and the push behind it. -/
  | next (side : Side) (qt : List α)
  /-- `++_size` in the loop. -/
  | countEach (side : Side) (qt : List α)
  /-- `notify()` in the loop. -/
  | notifyEach (side : Side) (qt : List α)
  /-- `notifyAll()`. -/
  | notifyAll
  /-- `return _size`. -/
  | readSize
  /-- `_queue.clear()`. -/
  | clearQueue
  /-- `_size = 0`. -/
  | clearSize
  /-- `return _queue.empty()`. -/
  | readEmpty
  deriving DecidableEq

/-- The members that the monitor protects: the elements and their number. -/
structure Members (α : Type*) where
  /-- `_queue`. -/
  queue : List α
  /-- `_size`; a queue never holds as many elements as a `size_t` can count. -/
  size : ℕ
  deriving DecidableEq

/-- Where a thread is in its call: between which statements, and with or without the mutex. -/
inductive Phase (α : Type*) where
  /-- Not in a call. -/
  | idle
  /-- Before `lock`. -/
  | locking (call : Call α)
  /-- Behind `lock`. -/
  | running (call : Call α) (stmt : Stmt α)
  /-- In `_cond.wait` or `_cond.timedWait`. -/
  | waiting (call : Call α) (stmt : Stmt α)
  /-- In `_cond.timedWait`, after the time has run out. -/
  | expiring (r : Result α)
  /-- Before `notifyImpl` in `unlock`. -/
  | leaving (r : Result α)
  /-- Before `_mutex.unlock` in `unlock`. -/
  | unlocking (r : Result α)
  /-- Behind `unlock`. -/
  | returning (r : Result α)
  /-- An assertion failed. -/
  | failed

/-- What happens next: a thread does something, or the kernel decides which threads wake up and
when. -/
inductive Action (α : Type*) where
  /-- A thread calls a function. -/
  | call (t : ℕ) (call : Call α)
  /-- A thread takes its next step. -/
  | thread (t : ℕ)
  /-- The time of a thread in `_cond.timedWait` runs out. -/
  | expire (t : ℕ)
  /-- A waiting thread wakes up without a signal. -/
  | spurious (t : ℕ)
  /-- The next signals wake the waiting threads in this order. -/
  | order (waiting : List ℕ)

end QueueCalls

open QueueCalls

/-- The members of `TC_ThreadQueue`, and where its threads are. -/
structure QueueCalls (α : Type*) where
  /-- The monitor. -/
  monitor : Monitor ℕ
  /-- `_queue` and `_size`. -/
  members : Members α
  /-- Where the threads are. -/
  phase : ℕ → QueueCalls.Phase α

namespace QueueCalls

variable {α : Type*}

/-- The constructor: there are no elements, and their number is zero. -/
def Members.new : Members α := ⟨[], 0⟩

/-- What a function returns without an element: that it has popped or swapped nothing. -/
def Taker.failed : Taker α → Result α
  | .popFront => .popped none
  | .swap _ => .swapped none

/-- What a function does with the elements, once there are some. -/
def Taker.stmt : Taker α → Stmt α
  | .popFront => .readFront
  | .swap q => .swap q

/-- Where a function starts, when it has got the mutex. -/
def Call.stmt : Call α → Stmt α
  | .take k millsecond => .test k millsecond
  | .push side t => .notify side t
  | .pushAll side qt => .next side qt
  | .notifyT => .notifyAll
  | .size => .readSize
  | .clear => .clearQueue
  | .empty => .readEmpty

/-- What a function does to `_queue` and `_size`, and what follows. -/
def Stmt.access (m : Members α) : Stmt α → Members α × Next (Stmt α) (Result α)
  | .test k millsecond =>
    if m.queue.isEmpty then
      if millsecond = 0 then (m, .leave k.failed) else (m, .wait (.waited k millsecond))
    else (m, .run k.stmt)
  | .waited k _ => (m, .run (.retest k))
  | .retest k => if m.queue.isEmpty then (m, .leave k.failed) else (m, .run k.stmt)
  | .readFront =>
    match m.queue with
    | [] => (m, .fail)
    | t :: _ => (m, .run (.popFront t))
  | .popFront t => ({ m with queue := m.queue.tail }, .run (.countDown t))
  | .countDown t =>
    if m.size = 0 then (m, .fail)
    else ({ m with size := m.size - 1 }, .leave (.popped (some t)))
  | .swap q => ({ m with queue := q }, .run (.takeSize m.queue))
  | .takeSize q => ({ m with size := m.queue.length }, .leave (.swapped (some q)))
  | .notify side t => (m, .run (.put side t))
  | .put side t => ({ m with queue := side.place m.queue t }, .run .countUp)
  | .countUp => ({ m with size := m.size + 1 }, .leave .done)
  | .next _ [] => (m, .leave .done)
  | .next side (t :: qt) => ({ m with queue := side.place m.queue t }, .run (.countEach side qt))
  | .countEach side qt => ({ m with size := m.size + 1 }, .run (.notifyEach side qt))
  | .notifyEach side qt => (m, .run (.next side qt))
  | .notifyAll => (m, .leave .done)
  | .readSize => (m, .leave (.count m.size))
  | .clearQueue => ({ m with queue := [] }, .run .clearSize)
  | .clearSize => ({ m with size := 0 }, .leave .done)
  | .readEmpty => (m, .leave (.isEmpty m.queue.isEmpty))

/-- What a function does to the monitor when it asks for waiting threads to be woken. -/
def Stmt.signals : Stmt α → Monitor ℕ → Monitor ℕ
  | .notify _ _, monitor | .notifyEach _ _, monitor => monitor.notify
  | .notifyAll, monitor => monitor.notifyAll
  | _, monitor => monitor

/-- What a function returns if the time of its wait runs out. -/
def Stmt.expired : Stmt α → Option (Result α)
  | .waited k millsecond => if millsecond = -1 then none else some k.failed
  | _ => none

/-- The constructor: the queue is empty and no thread is in a call. -/
def new : QueueCalls α := ⟨Monitor.new, Members.new, fun _ => .idle⟩

/-- Move a thread to another place, and leave the others where they are. -/
def setPhase (s : QueueCalls α) (t : ℕ) (phase : Phase α) : QueueCalls α :=
  { s with phase := Function.update s.phase t phase }

/-- What follows an access of a thread: the next statement, a wait, or the end of the call. -/
def goOn (s : QueueCalls α) (t : ℕ) (call : Call α) :
    Next (Stmt α) (Result α) → QueueCalls α
  | .run stmt => s.setPhase t (.running call stmt)
  | .wait stmt => { s with monitor := s.monitor.wait t }.setPhase t (.waiting call stmt)
  | .leave r => s.setPhase t (.leaving r)
  | .fail => s.setPhase t .failed

/-- The next step of a thread, if it is not blocked: one statement, or one step of the monitor. -/
def threadStep (s : QueueCalls α) (t : ℕ) :
    Option (QueueCalls α × List (Linearization.Event ℕ (Call α) (Result α))) :=
  match s.phase t with
  | .idle | .failed => none
  | .locking call =>
    (s.monitor.lock t).map fun monitor =>
      ({ s with monitor }.setPhase t (.running call call.stmt), [])
  | .running call stmt =>
    let (members, next) := stmt.access s.members
    some ({ s with members, monitor := stmt.signals s.monitor }.goOn t call next, [])
  | .waiting call stmt =>
    (s.monitor.endWait t).map fun monitor =>
      ({ s with monitor }.setPhase t (.running call stmt), [])
  | .expiring r =>
    (s.monitor.lock t).map fun monitor => ({ s with monitor }.setPhase t (.leaving r), [])
  | .leaving r => some ({ s with monitor := s.monitor.notifyImpl }.setPhase t (.unlocking r), [])
  | .unlocking r => some ({ s with monitor := s.monitor.unlock }.setPhase t (.returning r), [])
  | .returning r => some (s.setPhase t .idle, [.ret t r])

/-- One step of a run. What a thread cannot do where it is, is refused. -/
def step (s : QueueCalls α) :
    Action α → Option (QueueCalls α × List (Linearization.Event ℕ (Call α) (Result α)))
  | .call t call =>
    match s.phase t with
    | .idle => some (s.setPhase t (.locking call), [.call t call])
    | _ => none
  | .thread t => s.threadStep t
  | .expire t =>
    match s.phase t with
    | .waiting _ stmt =>
      stmt.expired.map fun r =>
        ({ s with monitor := { s.monitor with waiting := s.monitor.waiting.erase t } }.setPhase t
          (.expiring r), [])
    | _ => none
  | .spurious t => (s.monitor.spurious t).map fun monitor => ({ s with monitor }, [])
  | .order waiting =>
    if waiting.Perm s.monitor.waiting then
      some ({ s with monitor := { s.monitor with waiting } }, [])
    else none

/-- A queue that is used by one thread, for which every call takes effect at once: the
specification. -/
def apply (queue : List α) : Call α → List α × Result α
  | .take k _ =>
    match k, queue with
    | k, [] => ([], k.failed)
    | .popFront, t :: queue => (queue, .popped (some t))
    | .swap q, t :: queue => (q, .swapped (some (t :: queue)))
  | .push .back t => (queue ++ [t], .done)
  | .push .front t => (t :: queue, .done)
  | .pushAll .back qt => (queue ++ qt, .done)
  | .pushAll .front qt => (qt.reverse ++ queue, .done)
  | .notifyT => (queue, .done)
  | .size => (queue, .count queue.length)
  | .clear => ([], .done)
  | .empty => (queue, .isEmpty queue.isEmpty)

/-- The functions as those of an object behind a lock. -/
def code : Code (Members α) (Call α) (Stmt α) (Result α) where
  enter := Call.stmt
  access := Stmt.access
  resume := id
  expired := Stmt.expired

/-- The phases of an object behind a lock, read off those of a thread of the queue. -/
def Phase.view : Phase α → LockedObjects.Phase (Call α) (Stmt α) (Result α)
  | .idle => .idle
  | .locking call => .locking call
  | .running call stmt => .running call stmt
  | .waiting call stmt => .waiting call stmt
  | .expiring r => .expiring r
  | .leaving r | .unlocking r => .leaving r
  | .returning r => .returning r
  | .failed => .failed

/-- The queue as an object behind a lock: its members, the owner of its mutex, and where the threads
are. -/
def view (s : QueueCalls α) : State ℕ (Members α) (Call α) (Stmt α) (Result α) where
  members := s.members
  owner := s.monitor.owner
  phase := Phase.view ∘ s.phase

section Simulation

variable {s s' : QueueCalls α} {t : ℕ} {phase : Phase α} {monitor : Monitor ℕ} {stmt : Stmt α}
  {es : List (Linearization.Event ℕ (Call α) (Result α))}

theorem view_setPhase : (s.setPhase t phase).view = s.view.setPhase t phase.view := by
  rw [setPhase, view, Function.comp_update]
  rfl

/-- Signals leave the mutex alone, so only leaving the section gives it back. -/
@[simp] theorem Stmt.signals_owner : (stmt.signals monitor).owner = monitor.owner := by
  cases stmt with
  | notify | notifyEach => exact Monitor.notify_owner
  | notifyAll => exact Monitor.notifyAll_owner
  | _ => rfl

/-- `lock` is that of an object behind a lock. -/
theorem view_lock (phase : Phase α) (h : s.monitor.lock t = some monitor) :
    s.view.lock t phase.view = some (({ s with monitor }.setPhase t phase).view) := by
  obtain ⟨hnone, howner, -, -⟩ := Monitor.lock_eq_some h
  have hview : s.view.owner = none := hnone
  rw [State.lock, hview, view_setPhase]
  simp only [view, howner]

/-- What a thread does while the object behind the lock does nothing. -/
theorem exec_view_of_eq (h : s'.view = s.view) :
    ∃ bs, exec (State.step code) s.view bs = some (s'.view, []) :=
  ⟨[], by rw [h, exec_nil]⟩

/-- A step of the object behind the lock is a run of one action. -/
theorem exec_view_of_step {a : LockedObjects.Action ℕ (Call α)}
    (h : State.step code s.view a = some (s'.view, es)) :
    ∃ bs, exec (State.step code) s.view bs = some (s'.view, es) :=
  ⟨[a], exec_cons_eq_some.mpr ⟨s'.view, es, [], h, exec_nil, (List.append_nil es).symm⟩⟩

/-- Signals and wake-ups do nothing to the members and to the mutex. -/
theorem view_monitor (h : monitor.owner = s.monitor.owner) : { s with monitor }.view = s.view := by
  rw [view, view, h]

/-- An access is one to the members of the object behind the lock. -/
theorem view_access {members : Members α} :
    { s with members, monitor := stmt.signals s.monitor }.view = { s.view with members } := by
  rw [view, view, Stmt.signals_owner]

/-- What follows an access is the same in the model of a lock, which has no signals. -/
theorem view_goOn {call : Call α} {next : Next (Stmt α) (Result α)} :
    (s.goOn t call next).view = s.view.goOn t call next := by
  cases next with
  | run | leave | fail => exact view_setPhase
  | wait stmt => exact view_setPhase

/-- A step of a thread is one of the object behind the lock, or does nothing to it. -/
theorem threadStep_view (h : s.threadStep t = some (s', es)) :
    ∃ bs, exec (State.step code) s.view bs = some (s'.view, es) := by
  have hphase : ∀ phase, s.phase t = phase → s.view.phase t = phase.view :=
    fun phase heq => congrArg Phase.view heq
  unfold threadStep at h
  split at h
  · cases h
  · cases h
  · next call heq =>
    obtain ⟨monitor, hlock, heq'⟩ := Option.map_eq_some_iff.mp h
    obtain ⟨rfl, rfl⟩ := Prod.mk.inj heq'
    refine exec_view_of_step (a := .thread t) ?_
    rw [State.step, State.threadStep, hphase _ heq]
    exact congrArg (Option.map (·, [])) (view_lock (.running call call.stmt) hlock)
  · next call stmt heq =>
    obtain ⟨rfl, rfl⟩ := Prod.mk.inj (Option.some.inj h)
    refine exec_view_of_step (a := .thread t) ?_
    rw [State.step, State.threadStep, hphase _ heq, view_goOn, view_access]
    rfl
  · next call stmt heq =>
    obtain ⟨monitor, hwait, heq'⟩ := Option.map_eq_some_iff.mp h
    obtain ⟨rfl, rfl⟩ := Prod.mk.inj heq'
    refine exec_view_of_step (a := .thread t) ?_
    rw [State.step, State.threadStep, hphase _ heq]
    exact congrArg (Option.map (·, []))
      (view_lock (.running call stmt) (Monitor.endWait_eq_some hwait).2)
  · next r heq =>
    obtain ⟨monitor, hlock, heq'⟩ := Option.map_eq_some_iff.mp h
    obtain ⟨rfl, rfl⟩ := Prod.mk.inj heq'
    refine exec_view_of_step (a := .thread t) ?_
    rw [State.step, State.threadStep, hphase _ heq]
    exact congrArg (Option.map (·, [])) (view_lock (.leaving r) hlock)
  · next r heq =>
    obtain ⟨rfl, rfl⟩ := Prod.mk.inj (Option.some.inj h)
    refine exec_view_of_eq ?_
    rw [view_setPhase, view_monitor Monitor.notifyImpl_owner]
    exact State.setPhase_eq_self (hphase (.leaving r) heq)
  · next r heq =>
    obtain ⟨rfl, rfl⟩ := Prod.mk.inj (Option.some.inj h)
    refine exec_view_of_step (a := .thread t) ?_
    rw [State.step, State.threadStep, hphase _ heq, view_setPhase]
    rfl
  · next r heq =>
    obtain ⟨rfl, rfl⟩ := Prod.mk.inj (Option.some.inj h)
    refine exec_view_of_step (a := .thread t) ?_
    rw [State.step, State.threadStep, hphase _ heq, view_setPhase]
    rfl

/-- Every step is one of the object behind the lock, or does nothing to it. -/
theorem step_view {a : Action α} (h : s.step a = some (s', es)) :
    ∃ bs, exec (State.step code) s.view bs = some (s'.view, es) := by
  cases a with
  | call t call =>
    unfold step at h
    dsimp only at h
    split at h
    · next heq =>
      obtain ⟨rfl, rfl⟩ := Prod.mk.inj (Option.some.inj h)
      refine exec_view_of_step (a := .call t call) ?_
      rw [State.step, show s.view.phase t = .idle from congrArg Phase.view heq, view_setPhase]
      rfl
    · cases h
  | thread t => exact threadStep_view h
  | expire t =>
    unfold step at h
    dsimp only at h
    split at h
    · next call stmt heq =>
      obtain ⟨r, hr, heq'⟩ := Option.map_eq_some_iff.mp h
      obtain ⟨rfl, rfl⟩ := Prod.mk.inj heq'
      refine exec_view_of_step (a := .expire t) ?_
      rw [State.step, show s.view.phase t = .waiting call stmt from congrArg Phase.view heq,
        view_setPhase, view_monitor rfl]
      exact congrArg (Option.map _) hr
    · cases h
  | spurious t =>
    obtain ⟨monitor, hspurious, heq⟩ := Option.map_eq_some_iff.mp h
    obtain ⟨rfl, rfl⟩ := Prod.mk.inj heq
    refine exec_view_of_eq (view_monitor ?_)
    unfold Monitor.spurious at hspurious
    split at hspurious
    · rw [← Option.some.inj hspurious]
    · cases hspurious
  | order waiting =>
    unfold step at h
    dsimp only at h
    split at h
    · obtain ⟨rfl, rfl⟩ := Prod.mk.inj (Option.some.inj h)
      exact exec_view_of_eq (view_monitor rfl)
    · cases h

end Simulation

/-- `_size` counts the elements, as it does whenever nobody has the mutex. -/
def Members.Counted (m : Members α) : Prop := m.size = m.queue.length

/-- With the members `m` behind the lock, the function of `call` comes to this statement with the
members `m'`. -/
def Reaches (call : Call α) (m : Members α) : Stmt α → Members α → Prop
  | .test k millsecond, m' | .waited k millsecond, m' =>
    call = .take k millsecond ∧ m'.Counted ∧ m' = m
  | .retest k, m' => (∃ millsecond, call = .take k millsecond) ∧ m'.Counted ∧ m' = m
  | .readFront, m' =>
    (∃ millsecond, call = .take .popFront millsecond) ∧ m'.Counted ∧ m' = m ∧ m.queue ≠ []
  | .popFront t, m' =>
    (∃ millsecond, call = .take .popFront millsecond) ∧ m'.Counted ∧ m' = m ∧
      ∃ queue, m.queue = t :: queue
  | .countDown t, m' =>
    (∃ millsecond, call = .take .popFront millsecond) ∧ m.queue = t :: m'.queue ∧
      m'.size = m'.queue.length + 1
  | .swap q, m' => (∃ millsecond, call = .take (.swap q) millsecond) ∧ m' = m ∧ m.queue ≠ []
  | .takeSize q, m' =>
    (∃ millsecond, call = .take (.swap m'.queue) millsecond) ∧ q = m.queue ∧ m.queue ≠ []
  | .notify side t, m' | .put side t, m' => call = .push side t ∧ m'.Counted ∧ m' = m
  | .countUp, m' =>
    ∃ side t, call = .push side t ∧ m'.queue = side.place m.queue t ∧ m'.size = m.queue.length
  | .next side qt, m' | .notifyEach side qt, m' =>
    ∃ placed, call = .pushAll side (placed ++ qt) ∧ m'.queue = placed.foldl side.place m.queue ∧
      m'.Counted
  | .countEach side qt, m' =>
    ∃ placed, call = .pushAll side (placed ++ qt) ∧ m'.queue = placed.foldl side.place m.queue ∧
      m'.size + 1 = m'.queue.length
  | .notifyAll, m' => call = .notifyT ∧ m'.Counted ∧ m' = m
  | .readSize, m' => call = .size ∧ m'.Counted ∧ m' = m
  | .clearQueue, _ => call = .clear
  | .clearSize, m' => call = .clear ∧ m'.queue = []
  | .readEmpty, m' => call = .empty ∧ m'.Counted ∧ m' = m

/-- Where a function waits: behind the wait of a call that takes elements. -/
def Rests (call : Call α) : Stmt α → Prop
  | .waited k millsecond => call = .take k millsecond
  | _ => False

section Functions

variable {m m' : Members α} {call : Call α} {stmt : Stmt α} {k : Taker α} {side : Side}
  {queue qt : List α} {t : α}

/-- A push makes the queue longer by one element. -/
@[simp] theorem Side.length_place : (side.place queue t).length = queue.length + 1 := by
  cases side with
  | back => exact List.length_append
  | front => rfl

/-- The loop of a push of a batch puts its elements into the queue one after the other, as the
specification does at once. -/
theorem apply_pushAll :
    apply queue (.pushAll side qt) = (qt.foldl side.place queue, .done) := by
  induction qt using List.reverseRecOn with
  | nil => cases side <;> simp [apply]
  | append_singleton qt t ih =>
    rw [List.foldl_append, List.foldl_cons, List.foldl_nil, ← (Prod.mk.inj ih).1]
    cases side <;> simp [apply, Side.place]

/-- A push of an element puts it at its end of the queue. -/
theorem apply_push : apply queue (.push side t) = (side.place queue t, .done) := by
  cases side <;> rfl

/-- Without an element a function fails, and the queue stays as it is. -/
theorem apply_take_nil {millsecond : UInt64} (h : queue = []) :
    apply queue (.take k millsecond) = (queue, k.failed) := by
  subst h
  cases k <;> rfl

/-- With an element it goes on to the statement that takes elements. -/
theorem reaches_stmt {millsecond : UInt64} (h : m.queue.isEmpty = false) (hm : m.Counted) :
    Reaches (.take k millsecond) m k.stmt m := by
  have hne : m.queue ≠ [] := List.isEmpty_eq_false_iff.mp h
  cases k with
  | popFront => exact ⟨⟨millsecond, rfl⟩, hm, rfl, hne⟩
  | swap q => exact ⟨⟨millsecond, rfl⟩, rfl, hne⟩

/-- What an access may be followed by, so that the queue behaves like one that a single thread uses.
-/
abbrev Fits (call : Call α) (m m' : Members α) (next : Next (Stmt α) (Result α)) : Prop :=
  next.Fits code apply Members.queue Members.Counted Reaches Rests call m m'

/-- `pop_front` and `swap` up to the point where they take elements. -/
theorem fits_take {millsecond : UInt64} (hm : m.Counted)
    (hstmt : stmt = .test k millsecond ∨ stmt = .retest k) :
    Fits (.take k millsecond) m (stmt.access m).1 (stmt.access m).2 := by
  cases hempty : m.queue.isEmpty with
  | false =>
    obtain rfl | rfl := hstmt
    all_goals
      rw [Stmt.access, if_neg (by rw [hempty]; decide)]
      exact reaches_stmt hempty hm
  | true =>
    have hfailed : apply m.queue (.take k millsecond) = (m.queue, k.failed) :=
      apply_take_nil (List.isEmpty_iff.mp hempty)
    obtain rfl | rfl := hstmt
    · rw [Stmt.access, if_pos hempty]
      split
      · exact ⟨hm, hfailed⟩
      · refine ⟨rfl, hm, rfl, fun r hr => ?_⟩
        change (if millsecond = -1 then none else some k.failed) = some r at hr
        split at hr
        · cases hr
        · rw [← Option.some.inj hr]
          exact hfailed
    · rw [Stmt.access, if_pos hempty]
      exact ⟨hm, hfailed⟩

/-- Every access of every function does what its specification says, or leads to the next access. -/
theorem fits_access (h : Reaches call m stmt m') :
    Fits call m (stmt.access m').1 (stmt.access m').2 := by
  cases stmt with
  | test k millsecond =>
    obtain ⟨rfl, hm, rfl⟩ := h
    exact fits_take hm (.inl rfl)
  | waited k millsecond =>
    obtain ⟨rfl, hm, rfl⟩ := h
    exact ⟨⟨millsecond, rfl⟩, hm, rfl⟩
  | retest k =>
    obtain ⟨⟨millsecond, rfl⟩, hm, rfl⟩ := h
    exact fits_take hm (.inr rfl)
  | readFront =>
    obtain ⟨hcall, hm, rfl, hne⟩ := h
    obtain ⟨t, queue, hcons⟩ := List.exists_cons_of_ne_nil hne
    rw [Stmt.access, hcons]
    exact ⟨hcall, hm, rfl, queue, hcons⟩
  | popFront t =>
    obtain ⟨hcall, hm, rfl, queue, hcons⟩ := h
    refine ⟨hcall, ?_, ?_⟩
    · dsimp only [Stmt.access]
      rw [hcons, List.tail_cons]
    · dsimp only [Stmt.access]
      rw [hm, hcons, List.tail_cons, List.length_cons]
  | countDown t =>
    obtain ⟨⟨millsecond, rfl⟩, hcons, hsize⟩ := h
    rw [Stmt.access, if_neg (by omega)]
    refine ⟨?_, ?_⟩
    · change m'.size - 1 = m'.queue.length
      omega
    · rw [hcons]
      rfl
  | swap q =>
    obtain ⟨hcall, rfl, hne⟩ := h
    exact ⟨hcall, rfl, hne⟩
  | takeSize q =>
    obtain ⟨⟨millsecond, rfl⟩, rfl, hne⟩ := h
    refine ⟨rfl, ?_⟩
    obtain ⟨t, queue, hcons⟩ := List.exists_cons_of_ne_nil hne
    rw [hcons]
    rfl
  | notify side t => exact h
  | put side t =>
    obtain ⟨rfl, hm, rfl⟩ := h
    exact ⟨side, t, rfl, rfl, hm⟩
  | countUp =>
    obtain ⟨side, t, rfl, hqueue, hsize⟩ := h
    refine ⟨?_, ?_⟩
    · change m'.size + 1 = m'.queue.length
      rw [hqueue, hsize, Side.length_place]
    · rw [apply_push]
      exact congrArg (·, _) hqueue.symm
  | next side qt =>
    obtain ⟨placed, rfl, hqueue, hm⟩ := h
    cases qt with
    | nil =>
      refine ⟨hm, ?_⟩
      rw [List.append_nil, apply_pushAll, ← hqueue]
      rfl
    | cons t qt =>
      refine ⟨placed ++ [t], by rw [List.append_assoc]; rfl, ?_, ?_⟩
      · rw [List.foldl_append, ← hqueue]
        rfl
      · dsimp only [Stmt.access]
        rw [hm, Side.length_place]
  | countEach side qt =>
    obtain ⟨placed, hcall, hqueue, hsize⟩ := h
    exact ⟨placed, hcall, hqueue, hsize⟩
  | notifyEach side qt => exact h
  | notifyAll =>
    obtain ⟨rfl, hm, rfl⟩ := h
    exact ⟨hm, rfl⟩
  | readSize =>
    obtain ⟨rfl, hm, rfl⟩ := h
    exact ⟨hm, by rw [hm]; rfl⟩
  | clearQueue => exact ⟨h, rfl⟩
  | clearSize =>
    obtain ⟨rfl, hnil⟩ := h
    refine ⟨?_, ?_⟩
    · change 0 = m'.queue.length
      rw [hnil, List.length_nil]
    · change ([], Result.done) = (m'.queue, Result.done)
      rw [hnil]
  | readEmpty =>
    obtain ⟨rfl, hm, rfl⟩ := h
    exact ⟨hm, rfl⟩

/-- Run alone, the functions do what is said of a queue that is used by one thread. -/
theorem meets :
    LockedObjects.Meets (code (α := α)) apply Members.queue Members.Counted Reaches Rests where
  enter call m hm := by
    cases call with
    | take k millsecond => exact ⟨rfl, hm, rfl⟩
    | push side t => exact ⟨rfl, hm, rfl⟩
    | pushAll side qt => exact ⟨[], rfl, rfl, hm⟩
    | notifyT | size | empty => exact ⟨rfl, hm, rfl⟩
    | clear => rfl
  access _ _ _ _ h := fits_access h
  resume call m stmt hrests hm := by
    cases stmt with
    | waited k millsecond => exact ⟨hrests, hm, rfl⟩
    | _ => exact hrests.elim

end Functions

/-- **`TC_ThreadQueue` is linearizable.** Whatever the threads do, the calls can be put in an order
that fits the times at which they start and return, such that a queue that is used by one thread
gives the same results; no assertion fails, and while the mutex is free the elements are those that
this order leaves. -/
theorem threadQueue_linearizable {as : List (Action α)} {s : QueueCalls α}
    {es : List (Linearization.Event ℕ (Call α) (Result α))}
    (hexec : exec step new as = some (s, es)) :
    ∃ ps, Linearizes apply [] es ps ∧
      (s.monitor.owner = none →
        s.members.size = s.members.queue.length ∧ s.members.queue = after apply [] ps) ∧
      ∀ t, s.phase t ≠ .failed := by
  obtain ⟨bs, hbs⟩ := exec_abstraction (fun _ _ _ _ h => step_view h) hexec
  obtain ⟨ps, hlinearizes, hfree, hfailed⟩ :=
    LockedObjects.linearizes meets (show Members.new.Counted from rfl) hbs
  refine ⟨ps, hlinearizes, hfree, fun t heq => hfailed t ?_⟩
  exact congrArg Phase.view heq

/-- A consumer waits, a producer puts an element into the queue, and the consumer's time runs out
before it has the mutex again. Then it asks for the size. -/
def outrun : List (Action Char) :=
  [.call 1 (.take .popFront 5), .thread 1, .thread 1] ++
    [.call 2 (.push .back 'x'), .thread 2, .thread 2, .thread 2, .thread 2, .expire 1] ++
    [.thread 2, .thread 2, .thread 2, .thread 1, .thread 1, .thread 1, .thread 1] ++
    [.call 1 .size, .thread 1, .thread 1, .thread 1, .thread 1, .thread 1]

/-- The consumer fails although the queue has an element then. -/
theorem threadQueue_linearizable_sample :
    ∃ ps, Linearizes apply [] [.call 1 (.take .popFront 5), .call 2 (.push .back 'x'),
      .ret 2 .done, .ret 1 (.popped none), .call 1 .size, .ret 1 (.count 1)] ps := by
  have hexec : ∃ s, exec step new outrun = some (s, _) := ⟨_, rfl⟩
  obtain ⟨ps, hlinearizes, -, -⟩ := threadQueue_linearizable hexec.choose_spec
  exact ⟨ps, hlinearizes⟩

end QueueCalls

end Tars
