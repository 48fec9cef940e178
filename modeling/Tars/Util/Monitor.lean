import Tars.Cpp

/-!
# The monitor `TC_Monitor`

A mutex with a condition variable. `notify` only counts: the threads are signalled when the
monitor is left, by `unlock` or by `wait`. The operations are the atomic steps of the methods
of the source, by thread; they return `none` while the thread is blocked.
-/

namespace Tars

/-- The members of `TC_Monitor`, for threads of type `T`. -/
structure Monitor (T : Type*) where
  /-- The thread that holds `_mutex`. -/
  owner : Option T
  /-- `_nnotify`; `-1` stands for all threads. -/
  nnotify : ℤ
  /-- The threads that are blocked in `_cond`, the next one to be signalled first. -/
  waiting : List T
  deriving DecidableEq

namespace Monitor

variable {T : Type*}

/-- The constructor: nobody has the mutex, and nobody waits. -/
def new : Monitor T := ⟨none, 0, []⟩

/-- `lock`: the thread gets the mutex if it is free, and the count of signals starts anew. -/
def lock (m : Monitor T) (t : T) : Option (Monitor T) :=
  if m.owner = none then some { m with owner := some t, nnotify := 0 } else none

/-- `notify`. The counter is an `int`, which is taken to wrap. -/
def notify (m : Monitor T) : Monitor T :=
  if m.nnotify ≠ -1 then { m with nnotify := toInt32 (toUInt32 (m.nnotify + 1)) } else m

/-- `notifyAll` asks for a broadcast, whatever was counted before. -/
def notifyAll (m : Monitor T) : Monitor T := { m with nnotify := -1 }

/-- `notifyImpl(_nnotify)`, the first step of `unlock`: the threads that are signalled wait no
longer. -/
def notifyImpl (m : Monitor T) : Monitor T :=
  if m.nnotify = -1 then { m with waiting := [] }
  else { m with waiting := m.waiting.drop m.nnotify.toNat }

/-- The threads that `notifyImpl(_nnotify)` signals: all, or the first ones that wait. -/
def signalled (m : Monitor T) : List T :=
  if m.nnotify = -1 then m.waiting else m.waiting.take m.nnotify.toNat

/-- The unlocking of `_mutex`, the last step of `unlock`. -/
def unlock (m : Monitor T) : Monitor T := { m with owner := none }

/-- `wait` up to the point where the thread is blocked in `_cond`, which unlocks `_mutex`. -/
def wait (m : Monitor T) (t : T) : Monitor T :=
  { m.notifyImpl with owner := none, waiting := m.notifyImpl.waiting ++ [t] }

/-- A thread that is blocked in `_cond` wakes up without a signal. -/
def spurious [DecidableEq T] (m : Monitor T) (t : T) : Option (Monitor T) :=
  if t ∈ m.waiting then some { m with waiting := m.waiting.erase t } else none

/-- The end of `wait`: a thread that is not blocked in `_cond` any more gets `_mutex` back. -/
def endWait [DecidableEq T] (m : Monitor T) (t : T) : Option (Monitor T) :=
  if t ∈ m.waiting then none else m.lock t

section Operations

variable {m m' : Monitor T} {t : T}

/-- The mutex is taken only while it is free. -/
theorem lock_eq_some (h : m.lock t = some m') :
    m.owner = none ∧ m'.owner = some t ∧ m'.nnotify = 0 ∧ m'.waiting = m.waiting := by
  unfold lock at h
  split at h
  · obtain rfl := Option.some.inj h
    exact ⟨by assumption, rfl, rfl, rfl⟩
  · cases h

/-- `wait` ends like `lock`, for a thread that was woken. -/
theorem endWait_eq_some [DecidableEq T] (h : m.endWait t = some m') :
    t ∉ m.waiting ∧ m.lock t = some m' := by
  unfold endWait at h
  split at h
  · cases h
  · exact ⟨by assumption, h⟩

/-- Signals leave the mutex alone, which its owner gives back afterwards. -/
@[simp] theorem notifyImpl_owner : m.notifyImpl.owner = m.owner := by
  unfold notifyImpl
  split <;> rfl

/-- Counting leaves the mutex alone, since `notify` only asks for a signal. -/
@[simp] theorem notify_owner : m.notify.owner = m.owner := by
  unfold notify
  split <;> rfl

/-- Counting leaves the waiting threads alone: they are signalled when the mutex is given back. -/
@[simp] theorem notify_waiting : m.notify.waiting = m.waiting := by
  unfold notify
  split <;> rfl

/-- Asking for all to be woken leaves the mutex alone: the threads get it only when it is unlocked.
-/
@[simp] theorem notifyAll_owner : m.notifyAll.owner = m.owner := rfl

/-- The threads that were signalled and the others are those that were waiting. -/
theorem signalled_append_waiting (m : Monitor T) :
    m.signalled ++ m.notifyImpl.waiting = m.waiting := by
  unfold signalled notifyImpl
  split
  · exact List.append_nil _
  · exact List.take_append_drop _ _

/-- If a thread is left waiting, as many as were asked for were signalled. -/
theorem length_signalled (h : m.notifyImpl.waiting ≠ []) :
    m.nnotify ≠ -1 ∧ m.signalled.length = m.nnotify.toNat := by
  unfold notifyImpl at h
  split at h
  · exact absurd rfl h
  · next hne =>
    have hlt : m.nnotify.toNat < m.waiting.length := by
      by_contra hle
      exact h (List.drop_eq_nil_of_le (Nat.le_of_not_lt hle))
    refine ⟨hne, ?_⟩
    rw [signalled, if_neg hne, List.length_take_of_le (Nat.le_of_lt hlt)]

/-- The counter after this many calls of `notify` behind `lock`. -/
def counted (n : ℕ) : ℤ := if n < 2 ^ 32 - 1 then toInt32 n else -1

/-- `-1` is reached only by counting through all other values. -/
theorem toInt32_eq_neg_one {n : ℕ} (h : n < 2 ^ 32) : toInt32 n = -1 ↔ n = 2 ^ 32 - 1 := by
  unfold toInt32
  split <;> omega

/-- One more call of `notify` is counted, as far as an `int` goes. -/
theorem notify_counted {n : ℕ} (h : m.nnotify = counted n) :
    m.notify.nnotify = counted (n + 1) := by
  unfold notify
  rw [h]
  unfold counted
  split
  · next hn =>
    have hne : toInt32 n ≠ -1 := fun heq => by
      have := (toInt32_eq_neg_one (by omega)).mp heq
      omega
    have hsucc : toInt32 (toUInt32 (toInt32 n + 1)) = toInt32 (n + 1) := by
      unfold toInt32 toUInt32
      split <;> split <;> split <;> omega
    rw [if_pos hne]
    dsimp only
    rw [hsucc]
    split
    · rfl
    · exact (toInt32_eq_neg_one (by omega)).mpr (by omega)
  · next hn =>
    rw [if_neg (by simp), h, counted, if_neg hn, if_neg (by omega)]

end Operations

end Monitor

end Tars
