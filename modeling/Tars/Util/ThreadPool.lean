import Mathlib.Data.List.Nodup
import Tars.Library.Scripts

/-!
# The thread pool `TC_ThreadPool`

Workers pop jobs from a queue, register in `_busthread` under `_tmutex`, run the job and remove
themselves again. `waitForAllDone` looks at four members, each guarded in its own way, while it
holds `_tmutex`. A run interleaves the atomic steps of the workers and of any number of threads
that call the pool. Between the pop of a job and the registration no member tells that there is a
job, and this is exactly when `waitForAllDone` can be wrong.
-/

namespace Tars

/-- A function that was passed to `exec`: its number, and whether it can be called at all. -/
structure Job where
  /-- How many jobs were passed before it. -/
  serial : ℕ
  /-- Whether the function can be called; an empty one counts as no job. -/
  callable : Bool
  deriving DecidableEq

/-- Where a `ThreadWorker` is: between which accesses to the members of the pool. -/
inductive WorkerPhase where
  /-- The thread was not started. -/
  | off
  /-- Before `get()`, which takes from `_startqueue`. -/
  | starting
  /-- Runs the function that it took there. -/
  | initializing
  /-- Before `_jobqueue.pop_front`, which gives up after a second. -/
  | looking
  /-- Has popped a job, before `_busthread.insert`. -/
  | popped (job : Job)
  /-- Is registered and runs the job. -/
  | running (job : Job)
  /-- The job returned or threw, before `idle`. -/
  | finished
  deriving DecidableEq

/-- Where a thread is that calls the pool: between its calls, or at which access of which call. -/
inductive CallerPhase where
  /-- Not in a call. -/
  | idle
  /-- In `start(tf)`: so many pushes of `tf` into `_startqueue` are left. The flag says whether
  `tf` can be called. -/
  | pushing (tf : Bool) (left : ℕ)
  /-- In `start`, before the lock. -/
  | locking
  /-- In `start`, before the start of this worker. -/
  | starting (i : ℕ)
  /-- In `waitForAllDone`, before the lock. The number of jobs that were passed before the call
  is kept along. -/
  | entering (forever : Bool) (passed : ℕ)
  /-- In `finish`, before this one of its four tests; after the first time it is called behind a
  wait that returned this. -/
  | testing (forever : Bool) (passed : ℕ) (waited : Option Bool) (test : ℕ)
  /-- In `_tmutex.timedWait`. -/
  | waiting (forever : Bool) (passed : ℕ)
  deriving DecidableEq

/-- What `waitForAllDone` returns, with the number of jobs that were passed before the call. -/
inductive PoolEvent where
  /-- It returns `true`. -/
  | allDone (passed : ℕ)
  /-- It returns `false`. -/
  | timeout (passed : ℕ)
  deriving DecidableEq

/-- What happens next: a job is passed, a caller or a worker goes one step on, or a call starts. -/
inductive PoolAction where
  /-- `exec` of a function that can be called or not. -/
  | exec (callable : Bool)
  /-- A thread calls `start()`. -/
  | start (c : ℕ)
  /-- A thread calls `start(tf)` with a function that can be called or not. -/
  | startWith (c : ℕ) (tf : Bool)
  /-- A thread calls `waitForAllDone`, with a negative time or not. -/
  | waitForAllDone (c : ℕ) (forever : Bool)
  /-- A thread takes a step in its call. The result is that of `pthread_create` or of `timedWait`
  where the step calls one. -/
  | caller (c : ℕ) (result : Bool)
  /-- A worker takes a step. -/
  | worker (w : ℕ)
  deriving DecidableEq

/-- The members of `TC_ThreadPool`, and where its threads are. -/
structure ThreadPool where
  /-- The size of `_jobthread`. -/
  jobthread : ℕ
  /-- `_startqueue`: whether its functions can be called. -/
  startqueue : List Bool
  /-- `_jobqueue`. -/
  jobqueue : List Job
  /-- `_busthread`. -/
  busthread : List ℕ
  /-- `_bAllDone`. -/
  bAllDone : Bool
  /-- The thread that holds the lock of the pool. -/
  mutex : Option ℕ
  /-- The thread that holds `_tmutex` for more than a step. -/
  tmutex : Option ℕ
  /-- Where the workers are, by their places in `_jobthread`. -/
  workers : ℕ → WorkerPhase
  /-- Where the threads are that call the pool. -/
  callers : ℕ → CallerPhase
  /-- The number of jobs that were passed to `exec`. -/
  passed : ℕ
  /-- The jobs that have finished running. -/
  finished : List ℕ

namespace ThreadPool

/-- The pool after `init(num)`: nothing was started and no job was passed. -/
def init (num : ℕ) : ThreadPool :=
  ⟨num, [], [], [], true, none, none, fun _ => .off, fun _ => .idle, 0, []⟩

/-- Move a worker to another place, and leave the others where they are. -/
def setWorker (s : ThreadPool) (w : ℕ) (phase : WorkerPhase) : ThreadPool :=
  { s with workers := Function.update s.workers w phase }

/-- Move a caller to another place, and leave the others where they are. -/
def setCaller (s : ThreadPool) (c : ℕ) (phase : CallerPhase) : ThreadPool :=
  { s with callers := Function.update s.callers c phase }

/-- `exec` puts a job into the queue. Jobs are numbered in the order in which they are passed. -/
def exec (s : ThreadPool) (callable : Bool) : ThreadPool :=
  { s with jobqueue := s.jobqueue ++ [⟨s.passed, callable⟩], passed := s.passed + 1 }

/-- A step of `ThreadWorker::run`, up to its next access to a member of the pool. -/
def workerStep (s : ThreadPool) (w : ℕ) : Option ThreadPool :=
  match s.workers w with
  | .off => none
  | .starting =>
    match s.startqueue with
    | [] => some (s.setWorker w .looking)
    | pst :: startqueue =>
      some ({ s with startqueue }.setWorker w (if pst then .initializing else .looking))
  | .initializing => some (s.setWorker w .looking)
  | .looking =>
    match s.jobqueue with
    | [] => some s
    | job :: jobqueue => some ({ s with jobqueue }.setWorker w (.popped job))
  | .popped job =>
    if s.tmutex = none then
      some ({ s with busthread := s.busthread.insert w }.setWorker w (.running job))
    else none
  | .running job =>
    some ({ s with finished := job.serial :: s.finished }.setWorker w
      (if job.callable then .finished else .looking))
  | .finished =>
    if s.tmutex = none then
      let busthread := s.busthread.filter (· ≠ w)
      some ({ s with busthread, bAllDone := busthread.isEmpty || s.bAllDone }.setWorker w .looking)
    else none

/-- One of the tests of `finish`, which it makes one after the other, each under its own lock. -/
def test (s : ThreadPool) : ℕ → Bool
  | 0 => s.startqueue.isEmpty
  | 1 => s.jobqueue.isEmpty
  | 2 => s.busthread.isEmpty
  | _ => s.bAllDone

/-- A step of a caller within its call. A timed wait can end at any time, by a signal or not. -/
def callerStep (s : ThreadPool) (c : ℕ) (result : Bool) : Option (ThreadPool × List PoolEvent) :=
  match s.callers c with
  | .idle => none
  | .pushing _ 0 => some (s.setCaller c .locking, [])
  | .pushing tf (left + 1) =>
    -- `push_back` takes a constant reference and copies, so `std::move` leaves `tf` as it is
    some ({ s with startqueue := s.startqueue ++ [tf] }.setCaller c (.pushing tf left), [])
  | .locking =>
    if s.mutex = none then some ({ s with mutex := some c }.setCaller c (.starting 0), []) else none
  | .starting i =>
    if i < s.jobthread then
      if s.workers i = .off ∧ result = true then
        some ((s.setWorker i .starting).setCaller c (.starting (i + 1)), [])
      else some ({ s with mutex := none }.setCaller c .idle, [])
    else some ({ s with mutex := none, bAllDone := false }.setCaller c .idle, [])
  | .entering forever passed =>
    if s.tmutex = none then
      some ({ s with tmutex := some c }.setCaller c (.testing forever passed none 0), [])
    else none
  | .testing forever passed waited i =>
    if s.test i then
      if i < 3 then some (s.setCaller c (.testing forever passed waited (i + 1)), [])
      else some ({ s with tmutex := none }.setCaller c .idle, [.allDone passed])
    else if waited = some false then
      some ({ s with tmutex := none }.setCaller c .idle, [.timeout passed])
    else some ({ s with tmutex := none }.setCaller c (.waiting forever passed), [])
  | .waiting forever passed =>
    if s.tmutex = none then
      some ({ s with tmutex := some c }.setCaller c
        (.testing forever passed (if forever then none else some result) 0), [])
    else none

/-- One step of a run. What a thread cannot do where it is, is refused. -/
def step (s : ThreadPool) : PoolAction → Option (ThreadPool × List PoolEvent)
  | .exec callable => some (s.exec callable, [])
  | .start c => if s.callers c = .idle then some (s.setCaller c .locking, []) else none
  | .startWith c tf =>
    if s.callers c = .idle then some (s.setCaller c (.pushing tf s.jobthread), []) else none
  | .waitForAllDone c forever =>
    if s.callers c = .idle then some (s.setCaller c (.entering forever s.passed), []) else none
  | .caller c result => s.callerStep c result
  | .worker w => (s.workerStep w).map (·, [])

/-- The result is right when these jobs have finished: `true` says that every job that was passed
before the call has. -/
def Right (finished : List ℕ) : PoolEvent → Prop
  | .allDone passed => ∀ serial < passed, serial ∈ finished
  | .timeout _ => True

instance decidableRight (finished : List ℕ) : (e : PoolEvent) → Decidable (Right finished e)
  | .allDone passed => inferInstanceAs (Decidable (∀ serial < passed, serial ∈ finished))
  | .timeout _ => isTrue trivial

/-- What `waitForAllDone` returns in this step is right: `true` is returned only when the jobs
passed before the call are finished. -/
def Sound (s : ThreadPool) (_ : List PoolEvent) (_ : PoolAction) (es : List PoolEvent) : Prop :=
  ∀ e ∈ es, Right s.finished e

instance (s : ThreadPool) (past : List PoolEvent) (a : PoolAction) (es : List PoolEvent) :
    Decidable (s.Sound past a es) :=
  inferInstanceAs (Decidable (∀ e ∈ es, Right s.finished e))

/-- The worker has popped one of the first jobs and has not registered. -/
def InGap (passed : ℕ) : WorkerPhase → Prop
  | .popped job => job.serial < passed
  | _ => False

instance decidableInGap (passed : ℕ) : (phase : WorkerPhase) → Decidable (InGap passed phase)
  | .popped job => inferInstanceAs (Decidable (job.serial < passed))
  | .off | .starting | .initializing | .looking | .running _ | .finished => isFalse id

/-- When the last test of a `waitForAllDone` succeeds no worker is between popping a job that was
passed before the call and registering. -/
def NoGap (s : ThreadPool) : PoolAction → Prop
  | .caller c _ =>
    match s.callers c with
    | .testing _ passed _ 3 => s.bAllDone = true → ∀ w < s.jobthread, ¬InGap passed (s.workers w)
    | _ => True
  | _ => True

/-! ### Every job is in one place -/

/-- Where a job is: in the queue, with a worker, or done. -/
inductive JobPlace where
  /-- In `_jobqueue`. -/
  | queue
  /-- Popped by this worker, and not finished. -/
  | worker (w : ℕ)
  /-- It has finished running. -/
  | finished

/-- Every one of the first `passed` jobs is in exactly one place. -/
def Placed (queue : List ℕ) (held : ℕ → Option ℕ) (finished : List ℕ) (passed : ℕ) : Prop :=
  queue.Nodup ∧ ∃ place : ℕ → JobPlace,
    (∀ j, j ∈ queue ↔ j < passed ∧ place j = .queue) ∧
    (∀ w j, held w = some j ↔ j < passed ∧ place j = .worker w) ∧
    ∀ j, j ∈ finished ↔ j < passed ∧ place j = .finished

section Placing

variable {queue finished : List ℕ} {held : ℕ → Option ℕ} {passed w j : ℕ}

/-- A job that was passed to `exec` is in the queue, held by a worker, or finished: it is never
lost. -/
theorem Placed.found (h : Placed queue held finished passed) (hj : j < passed) :
    j ∈ queue ∨ (∃ w, held w = some j) ∨ j ∈ finished := by
  obtain ⟨-, place, hqueue, hheld, hfinished⟩ := h
  cases hplace : place j with
  | queue => exact .inl ((hqueue j).mpr ⟨hj, hplace⟩)
  | worker w => exact .inr (.inl ⟨w, (hheld w j).mpr ⟨hj, hplace⟩⟩)
  | finished => exact .inr (.inr ((hfinished j).mpr ⟨hj, hplace⟩))

/-- A job that a worker has is not finished. -/
theorem Placed.not_finished (h : Placed queue held finished passed) (hw : held w = some j) :
    j ∉ finished := by
  obtain ⟨-, place, -, hheld, hfinished⟩ := h
  intro hmem
  have hworker := ((hheld w j).mp hw).2
  rw [((hfinished j).mp hmem).2] at hworker
  cases hworker

/-- `exec` puts a new job into the queue, under the next number, and so it is at one place like all
the others. -/
theorem Placed.put (h : Placed queue held finished passed) :
    Placed (queue ++ [passed]) held finished (passed + 1) := by
  obtain ⟨hnodup, place, hqueue, hheld, hfinished⟩ := h
  have hnew : passed ∉ queue := fun hmem => absurd ((hqueue passed).mp hmem).1 (Nat.lt_irrefl _)
  refine ⟨?_, Function.update place passed .queue, fun j => ?_, fun w j => ?_, fun j => ?_⟩
  · rw [List.nodup_append]
    exact ⟨hnodup, List.nodup_singleton _, fun a ha b hb hab =>
      hnew (by rwa [← List.mem_singleton.mp hb, ← hab])⟩
  all_goals
    by_cases hj : j = passed
    · subst hj
      simp [hheld, hfinished]
    · have hlt : j < passed + 1 ↔ j < passed := by omega
      simp [hj, hlt, hqueue, hheld, hfinished]

/-- Only job `j` moves, to or from worker `w`, which has no other: the places of the workers'
jobs stay right. -/
theorem held_update {place : ℕ → JobPlace} {new : JobPlace} {job : Option ℕ}
    (hheld : ∀ v i, held v = some i ↔ i < passed ∧ place i = .worker v)
    (hothers : ∀ v ≠ w, place j ≠ .worker v ∧ new ≠ .worker v)
    (hself : job = some j ↔ j < passed ∧ new = .worker w)
    (hjob : ∀ i ≠ j, held w ≠ some i ∧ job ≠ some i) (v i : ℕ) :
    Function.update held w job v = some i ↔
      i < passed ∧ Function.update place j new i = .worker v := by
  by_cases hv : v = w
  · subst hv
    rw [Function.update_self]
    by_cases hi : i = j
    · subst hi
      rwa [Function.update_self]
    · rw [Function.update_of_ne hi, ← hheld]
      exact iff_of_false (hjob i hi).2 (hjob i hi).1
  · rw [Function.update_of_ne hv, hheld]
    by_cases hi : i = j
    · subst hi
      rw [Function.update_self]
      exact and_congr_right fun _ => iff_of_false (hothers v hv).1 (hothers v hv).2
    · rw [Function.update_of_ne hi]

/-- `pop_front` gives the first job of the queue to a worker that has none. -/
theorem Placed.take (h : Placed (j :: queue) held finished passed) (hw : held w = none) :
    Placed queue (Function.update held w (some j)) finished passed := by
  obtain ⟨hnodup, place, hqueue, hheld, hfinished⟩ := h
  obtain ⟨hnotin, hnodup'⟩ := List.nodup_cons.mp hnodup
  obtain ⟨hlt, hplace⟩ := (hqueue j).mp List.mem_cons_self
  refine ⟨hnodup', Function.update place j (.worker w), fun i => ?_,
    held_update hheld (fun v hv => ?_) (by simp [hlt]) fun i hi => ?_, fun i => ?_⟩
  · by_cases hi : i = j
    · subst hi
      simp [hnotin]
    · rw [Function.update_of_ne hi, ← hqueue, List.mem_cons, or_iff_right hi]
  · simp [hplace, Ne.symm hv]
  · simp [hw, Ne.symm hi]
  · by_cases hi : i = j
    · subst hi
      rw [Function.update_self, hfinished, hplace]
      simp
    · rw [Function.update_of_ne hi, hfinished]

/-- A worker finishes its job, which then is with no worker and done. -/
theorem Placed.finish (h : Placed queue held finished passed) (hw : held w = some j) :
    Placed queue (Function.update held w none) (j :: finished) passed := by
  obtain ⟨hnodup, place, hqueue, hheld, hfinished⟩ := h
  obtain ⟨hlt, hplace⟩ := (hheld w j).mp hw
  refine ⟨hnodup, Function.update place j .finished, fun i => ?_,
    held_update hheld (fun v hv => ?_) (by simp) fun i hi => ?_, fun i => ?_⟩
  · by_cases hi : i = j
    · subst hi
      rw [Function.update_self, hqueue, hplace]
      simp
    · rw [Function.update_of_ne hi, hqueue]
  · simp [hplace, Ne.symm hv]
  · simp [hw, Ne.symm hi]
  · by_cases hi : i = j
    · subst hi
      simp [hlt]
    · rw [Function.update_of_ne hi, ← hfinished, List.mem_cons, or_iff_right hi]

end Placing

/-! ### The invariant -/

/-- The job that a worker has popped and not finished. -/
def jobOf : WorkerPhase → Option ℕ
  | .popped job | .running job => some job.serial
  | .off | .starting | .initializing | .looking | .finished => none

/-- The worker is in `_busthread`, as the members of the pool have it. -/
def Registered : WorkerPhase → Prop
  | .running _ | .finished => True
  | .off | .starting | .initializing | .looking | .popped _ => False

/-- What a caller knows: behind the second test the jobs that were passed before its call are
not in the queue, behind the third no worker is registered, and both stays so until it gives
`_tmutex` back. -/
def CallerOk (s : ThreadPool) (c : ℕ) : CallerPhase → Prop
  | .entering _ passed | .waiting _ passed => passed ≤ s.passed
  | .testing _ passed _ i =>
    passed ≤ s.passed ∧ s.tmutex = some c ∧ i ≤ 3 ∧
      (2 ≤ i → ∀ job ∈ s.jobqueue, passed ≤ job.serial) ∧ (3 ≤ i → s.busthread = [])
  | .idle | .pushing .. | .locking | .starting _ => True

/-- The invariant of a run: each job is at one place, and the members say where the workers are. -/
structure Inv (s : ThreadPool) : Prop where
  /-- Every job is in one place. -/
  placed : Placed (s.jobqueue.map Job.serial) (fun w => jobOf (s.workers w)) s.finished s.passed
  /-- There are no other workers than those of `init`. -/
  off : ∀ w, s.jobthread ≤ w → s.workers w = .off
  /-- Workers that run a job are registered. -/
  busy : ∀ w, Registered (s.workers w) → w ∈ s.busthread
  /-- What the callers know is right. -/
  called : ∀ c, s.CallerOk c (s.callers c)

/-- A new pool satisfies the invariant: there is no job and no worker. -/
theorem inv_init (num : ℕ) : (init num).Inv := by
  refine ⟨⟨List.nodup_nil, fun _ => .queue, fun j => ?_, fun w j => ?_, fun j => ?_⟩,
    fun _ _ => rfl, fun w hw => hw.elim, fun c => trivial⟩
  · simp [init]
  · simp [init, jobOf]
  · simp [init]

section Steps

variable {s s' : ThreadPool} {c w : ℕ} {phase : WorkerPhase}

/-- What the callers know stays right as long as no old job is queued again and `_busthread`
changes under `_tmutex` only. -/
theorem CallerOk.mono {ph : CallerPhase} (h : s.CallerOk c ph) (hpassed : s.passed ≤ s'.passed)
    (htmutex : s'.tmutex = s.tmutex)
    (hqueue : ∀ job ∈ s'.jobqueue, job ∈ s.jobqueue ∨ s.passed ≤ job.serial)
    (hbusy : s'.busthread = s.busthread ∨ s.tmutex = none) : s'.CallerOk c ph := by
  cases ph with
  | entering forever passed => exact Nat.le_trans h hpassed
  | waiting forever passed => exact Nat.le_trans h hpassed
  | testing forever passed waited i =>
    obtain ⟨hle, hown, hi, htested, hnone⟩ := h
    refine ⟨Nat.le_trans hle hpassed, htmutex.trans hown, hi, fun h2 job hjob => ?_, fun h3 => ?_⟩
    · obtain hold | hnew := hqueue job hjob
      · exact htested h2 job hold
      · omega
    · obtain heq | hfree := hbusy
      · exact heq.trans (hnone h3)
      · rw [hown] at hfree
        cases hfree
  | idle | pushing | locking | starting => trivial

/-- Moving a worker to a phase with another job. -/
theorem jobOf_update (workers : ℕ → WorkerPhase) (w : ℕ) (phase : WorkerPhase) :
    (fun v => jobOf (Function.update workers w phase v)) =
      Function.update (fun v => jobOf (workers v)) w (jobOf phase) := by
  funext v
  by_cases hv : v = w
  · subst hv
    rw [Function.update_self, Function.update_self]
  · rw [Function.update_of_ne hv, Function.update_of_ne hv]

/-- A step that moves one worker keeps the invariant if it moves the jobs with it, keeps the other
workers registered and changes `_busthread` under `_tmutex` only. -/
theorem Inv.moveWorker (h : s.Inv) {startqueue : List Bool} {jobqueue : List Job}
    {busthread : List ℕ} {bAllDone : Bool} {finished : List ℕ} (hexists : w < s.jobthread)
    (hplaced : Placed (jobqueue.map Job.serial)
      (Function.update (fun v => jobOf (s.workers v)) w (jobOf phase)) finished s.passed)
    (hself : Registered phase → w ∈ busthread)
    (hothers : ∀ v ≠ w, v ∈ s.busthread → v ∈ busthread)
    (hqueue : ∀ job ∈ jobqueue, job ∈ s.jobqueue)
    (hbusy : busthread = s.busthread ∨ s.tmutex = none) :
    Inv { s with startqueue, jobqueue, busthread, bAllDone, finished,
                 workers := Function.update s.workers w phase } := by
  refine ⟨?_, fun v hv => ?_, fun v hv => ?_, fun c => ?_⟩
  · dsimp only
    rwa [jobOf_update]
  · dsimp only at hv ⊢
    have hne : v ≠ w := by omega
    rw [Function.update_of_ne hne]
    exact h.off v hv
  · dsimp only at hv ⊢
    by_cases hne : v = w
    · subst hne
      rw [Function.update_self] at hv
      exact hself hv
    · rw [Function.update_of_ne hne] at hv
      exact hothers v hne (h.busy v hv)
  · exact (h.called c).mono (Nat.le_refl _) rfl (fun job hjob => .inl (hqueue job hjob)) hbusy

/-- The jobs stay where they are when a worker moves with its job. -/
theorem Inv.placed_same (h : s.Inv) (hjob : jobOf phase = jobOf (s.workers w)) :
    Placed (s.jobqueue.map Job.serial)
      (Function.update (fun v => jobOf (s.workers v)) w (jobOf phase)) s.finished s.passed := by
  rw [hjob, Function.update_eq_self w fun v => jobOf (s.workers v)]
  exact h.placed

/-- **A step of a worker** keeps the invariant. It moves a job from the queue to its hands, or from
there to the finished ones. -/
theorem Inv.workerStep (h : s.Inv) (hstep : s.workerStep w = some s') : s'.Inv := by
  have hexists : w < s.jobthread := by
    by_contra hge
    simp [ThreadPool.workerStep, h.off w (by omega)] at hstep
  unfold ThreadPool.workerStep at hstep
  cases hw : s.workers w with
  | off => simp [hw] at hstep
  | starting =>
    rw [hw] at hstep
    cases hqueue : s.startqueue with
    | nil =>
      rw [hqueue] at hstep
      obtain rfl := Option.some.inj hstep
      exact h.moveWorker hexists (h.placed_same (by rw [hw]; rfl)) (fun hr => hr.elim)
        (fun _ _ hv => hv) (fun _ hjob => hjob) (.inl rfl)
    | cons pst startqueue =>
      rw [hqueue] at hstep
      obtain rfl := Option.some.inj hstep
      refine h.moveWorker hexists (h.placed_same ?_) (fun hr => ?_)
        (fun _ _ hv => hv) (fun _ hjob => hjob) (.inl rfl)
      · cases pst <;> rw [hw] <;> rfl
      · cases pst <;> exact hr.elim
  | initializing =>
    rw [hw] at hstep
    obtain rfl := Option.some.inj hstep
    exact h.moveWorker hexists (h.placed_same (by rw [hw]; rfl)) (fun hr => hr.elim)
      (fun _ _ hv => hv) (fun _ hjob => hjob) (.inl rfl)
  | looking =>
    rw [hw] at hstep
    cases hqueue : s.jobqueue with
    | nil =>
      rw [hqueue] at hstep
      obtain rfl := Option.some.inj hstep
      exact h
    | cons job jobqueue =>
      rw [hqueue] at hstep
      obtain rfl := Option.some.inj hstep
      have hplaced := h.placed
      rw [hqueue, List.map_cons] at hplaced
      refine h.moveWorker hexists (hplaced.take (by rw [hw]; rfl)) (fun hr => hr.elim)
        (fun _ _ hv => hv) (fun _ hjob => ?_) (.inl rfl)
      rw [hqueue]
      exact List.mem_cons_of_mem _ hjob
  | popped job =>
    simp only [hw] at hstep
    split at hstep
    · rename_i hfree
      obtain rfl := Option.some.inj hstep
      exact h.moveWorker hexists (h.placed_same (by rw [hw]; rfl))
        (fun _ => List.mem_insert_self) (fun v _ hv => List.mem_insert_of_mem hv)
        (fun _ hjob => hjob) (.inr hfree)
    · cases hstep
  | running job =>
    rw [hw] at hstep
    obtain rfl := Option.some.inj hstep
    have hbusy := h.busy w (by rw [hw]; trivial)
    have hnone : jobOf (if job.callable = true then .finished else .looking) = none := by
      split <;> rfl
    refine h.moveWorker hexists ?_ (fun _ => hbusy) (fun _ _ hv => hv)
      (fun _ hjob => hjob) (.inl rfl)
    rw [hnone]
    exact h.placed.finish (by rw [hw]; rfl)
  | finished =>
    simp only [hw] at hstep
    split at hstep
    · rename_i hfree
      obtain rfl := Option.some.inj hstep
      exact h.moveWorker hexists (h.placed_same (by rw [hw]; rfl)) (fun hr => hr.elim)
        (fun v hne hv => by simpa [hne] using hv) (fun _ hjob => hjob) (.inr hfree)
    · cases hstep

/-- A step that moves one caller keeps the invariant if what the caller then knows is right, and
only its holder gives `_tmutex` back. -/
theorem Inv.moveCaller (h : s.Inv) {startqueue : List Bool} {bAllDone : Bool}
    {mutex tmutex : Option ℕ} {ph : CallerPhase} (hself : CallerOk { s with tmutex } c ph)
    (hothers : tmutex = s.tmutex ∨ s.tmutex = none ∨ s.tmutex = some c) :
    Inv { s with startqueue, bAllDone, mutex, tmutex,
                 callers := Function.update s.callers c ph } := by
  refine ⟨h.placed, h.off, h.busy, fun d => ?_⟩
  by_cases hd : d = c
  · subst hd
    dsimp only
    rw [Function.update_self]
    exact hself
  · dsimp only
    rw [Function.update_of_ne hd]
    have hcalled := h.called d
    cases hphase : s.callers d with
    | testing forever passed waited i =>
      rw [hphase] at hcalled
      obtain ⟨hle, hown, hrest⟩ := hcalled
      obtain heq | hfree | hother := hothers
      · exact ⟨hle, heq.trans hown, hrest⟩
      · rw [hown] at hfree
        cases hfree
      · rw [hown] at hother
        exact absurd (Option.some.inj hother) hd
    | entering forever passed =>
      rw [hphase] at hcalled
      exact hcalled
    | waiting forever passed =>
      rw [hphase] at hcalled
      exact hcalled
    | idle | pushing | locking | starting => trivial

/-- A test of `finish` that succeeds tells the caller more. -/
theorem CallerOk.tested {forever : Bool} {passed : ℕ} {waited : Option Bool} {i : ℕ}
    (h : s.CallerOk c (.testing forever passed waited i)) (htest : s.test i = true) (hi : i < 3) :
    s.CallerOk c (.testing forever passed waited (i + 1)) := by
  obtain ⟨hle, hown, -, htested, -⟩ := h
  refine ⟨hle, hown, by omega, fun h2 => ?_, fun h3 => ?_⟩
  · by_cases h1 : i = 1
    · subst h1
      intro job hjob
      have hnil : s.jobqueue = [] := List.isEmpty_iff.mp htest
      rw [hnil] at hjob
      cases hjob
    · exact htested (by omega)
  · have h2 : i = 2 := by omega
    subst h2
    exact List.isEmpty_iff.mp htest

/-- **A step of a caller** keeps the invariant. Only `exec` adds a job; a caller that waits reads
and changes nothing. -/
theorem Inv.callerStep (h : s.Inv) {result : Bool} {es : List PoolEvent}
    (hstep : s.callerStep c result = some (s', es)) : s'.Inv := by
  have hcalled := h.called c
  unfold ThreadPool.callerStep at hstep
  cases hc : s.callers c with
  | idle => simp [hc] at hstep
  | pushing tf left =>
    rw [hc] at hstep
    cases left with
    | zero =>
      obtain ⟨rfl, -⟩ := Prod.mk.inj (Option.some.inj hstep)
      exact h.moveCaller trivial (.inl rfl)
    | succ left =>
      obtain ⟨rfl, -⟩ := Prod.mk.inj (Option.some.inj hstep)
      exact h.moveCaller trivial (.inl rfl)
  | locking =>
    simp only [hc] at hstep
    split at hstep
    · obtain ⟨rfl, -⟩ := Prod.mk.inj (Option.some.inj hstep)
      exact h.moveCaller trivial (.inl rfl)
    · cases hstep
  | starting i =>
    simp only [hc] at hstep
    by_cases hi : i < s.jobthread
    · rw [if_pos hi] at hstep
      by_cases hoff : s.workers i = .off ∧ result = true
      · rw [if_pos hoff] at hstep
        obtain ⟨rfl, -⟩ := Prod.mk.inj (Option.some.inj hstep)
        have hstarted : Inv (s.setWorker i .starting) :=
          h.moveWorker hi (h.placed_same (by rw [hoff.1]; rfl)) (fun hr => hr.elim)
            (fun _ _ hv => hv) (fun _ hjob => hjob) (.inl rfl)
        exact hstarted.moveCaller trivial (.inl rfl)
      · rw [if_neg hoff] at hstep
        obtain ⟨rfl, -⟩ := Prod.mk.inj (Option.some.inj hstep)
        exact h.moveCaller trivial (.inl rfl)
    · rw [if_neg hi] at hstep
      obtain ⟨rfl, -⟩ := Prod.mk.inj (Option.some.inj hstep)
      exact h.moveCaller trivial (.inl rfl)
  | entering forever passed =>
    rw [hc] at hcalled
    simp only [hc] at hstep
    split at hstep
    · rename_i hfree
      obtain ⟨rfl, -⟩ := Prod.mk.inj (Option.some.inj hstep)
      refine h.moveCaller ⟨hcalled, rfl, by omega, fun h2 => ?_, fun h3 => ?_⟩ (.inr (.inl hfree))
      · omega
      · omega
    · cases hstep
  | testing forever passed waited i =>
    rw [hc] at hcalled
    simp only [hc] at hstep
    by_cases htest : s.test i = true
    · rw [if_pos htest] at hstep
      by_cases hi : i < 3
      · rw [if_pos hi] at hstep
        obtain ⟨rfl, -⟩ := Prod.mk.inj (Option.some.inj hstep)
        exact h.moveCaller (hcalled.tested htest hi) (.inl rfl)
      · rw [if_neg hi] at hstep
        obtain ⟨rfl, -⟩ := Prod.mk.inj (Option.some.inj hstep)
        exact h.moveCaller trivial (.inr (.inr hcalled.2.1))
    · rw [if_neg htest] at hstep
      split at hstep
      · obtain ⟨rfl, -⟩ := Prod.mk.inj (Option.some.inj hstep)
        exact h.moveCaller trivial (.inr (.inr hcalled.2.1))
      · obtain ⟨rfl, -⟩ := Prod.mk.inj (Option.some.inj hstep)
        exact h.moveCaller hcalled.1 (.inr (.inr hcalled.2.1))
  | waiting forever passed =>
    rw [hc] at hcalled
    simp only [hc] at hstep
    split at hstep
    · rename_i hfree
      obtain ⟨rfl, -⟩ := Prod.mk.inj (Option.some.inj hstep)
      refine h.moveCaller ⟨hcalled, rfl, by omega, fun h2 => ?_, fun h3 => ?_⟩ (.inr (.inl hfree))
      · omega
      · omega
    · cases hstep

/-- `exec` keeps the invariant: the new job has a number of its own. -/
theorem Inv.exec (h : s.Inv) (callable : Bool) : (s.exec callable).Inv := by
  refine ⟨?_, h.off, h.busy, fun c => ?_⟩
  · rw [ThreadPool.exec, List.map_append]
    exact h.placed.put
  · refine (h.called c).mono (Nat.le_succ _) rfl (fun job hjob => ?_) (.inl rfl)
    obtain hold | hnew := List.mem_append.mp hjob
    · exact .inl hold
    · rw [List.mem_singleton.mp hnew]
      exact .inr (Nat.le_refl _)

/-- **One step** keeps the invariant, with one case for each place of the thread that goes on. -/
theorem Inv.step (h : s.Inv) {a : PoolAction} {es : List PoolEvent}
    (hstep : s.step a = some (s', es)) : s'.Inv := by
  cases a with
  | exec callable =>
    obtain ⟨rfl, -⟩ := Prod.mk.inj (Option.some.inj hstep)
    exact h.exec callable
  | start c =>
    rw [ThreadPool.step] at hstep
    split at hstep
    · obtain ⟨rfl, -⟩ := Prod.mk.inj (Option.some.inj hstep)
      exact h.moveCaller trivial (.inl rfl)
    · cases hstep
  | startWith c tf =>
    rw [ThreadPool.step] at hstep
    split at hstep
    · obtain ⟨rfl, -⟩ := Prod.mk.inj (Option.some.inj hstep)
      exact h.moveCaller trivial (.inl rfl)
    · cases hstep
  | waitForAllDone c forever =>
    rw [ThreadPool.step] at hstep
    split at hstep
    · obtain ⟨rfl, -⟩ := Prod.mk.inj (Option.some.inj hstep)
      exact h.moveCaller (Nat.le_refl s.passed) (.inl rfl)
    · cases hstep
  | caller c result => exact h.callerStep hstep
  | worker w =>
    obtain ⟨t, hworker, heq⟩ := Option.map_eq_some_iff.mp hstep
    obtain ⟨rfl, -⟩ := Prod.mk.inj heq
    exact h.workerStep hworker

/-- A step of a caller returns `true` from `waitForAllDone` exactly if its last test succeeds. -/
theorem allDone_mem_iff {result : Bool} {es : List PoolEvent} (h : s.Inv)
    (hstep : s.callerStep c result = some (s', es)) (passed : ℕ) :
    .allDone passed ∈ es ↔
      ∃ forever waited, s.callers c = .testing forever passed waited 3 ∧ s.bAllDone = true := by
  unfold ThreadPool.callerStep at hstep
  cases hc : s.callers c with
  | testing forever passed' waited i =>
    have hi := h.called c
    rw [hc] at hi
    simp only [hc] at hstep
    by_cases htest : s.test i = true
    · rw [if_pos htest] at hstep
      by_cases hlast : i < 3
      · rw [if_pos hlast] at hstep
        obtain ⟨-, rfl⟩ := Prod.mk.inj (Option.some.inj hstep)
        refine iff_of_false List.not_mem_nil ?_
        rintro ⟨_, _, heq, -⟩
        obtain ⟨-, -, -, rfl⟩ := CallerPhase.testing.inj heq
        omega
      · obtain rfl : i = 3 := by
          have := hi.2.2.1
          omega
        rw [if_neg hlast] at hstep
        obtain ⟨-, rfl⟩ := Prod.mk.inj (Option.some.inj hstep)
        rw [List.mem_singleton]
        constructor
        · intro heq
          obtain rfl := PoolEvent.allDone.inj heq
          exact ⟨forever, waited, rfl, htest⟩
        · rintro ⟨_, _, heq, -⟩
          obtain ⟨-, rfl, -⟩ := CallerPhase.testing.inj heq
          rfl
    · have hnot : .allDone passed ∉ es := by
        rw [if_neg htest] at hstep
        split at hstep <;>
        · obtain ⟨-, rfl⟩ := Prod.mk.inj (Option.some.inj hstep)
          simp
      apply iff_of_false hnot
      rintro ⟨_, _, heq, hdone⟩
      obtain ⟨-, -, -, rfl⟩ := CallerPhase.testing.inj heq
      exact htest hdone
  | idle => simp [hc] at hstep
  | pushing tf left =>
    have hes : es = [] := by
      rw [hc] at hstep
      cases left <;> exact (Prod.mk.inj (Option.some.inj hstep)).2.symm
    simp [hes]
  | locking | starting | entering | waiting =>
    have hes : es = [] := by
      simp only [hc] at hstep
      split_ifs at hstep <;> exact (Prod.mk.inj (Option.some.inj hstep)).2.symm
    simp [hes]

/-- **When the answer is right.** Behind the last test the jobs that were passed before the call
have finished exactly when no worker is between popping one of them and registering. -/
theorem Inv.finished_iff (h : s.Inv) {forever : Bool} {passed : ℕ} {waited : Option Bool}
    (hc : s.callers c = .testing forever passed waited 3) :
    (∀ serial < passed, serial ∈ s.finished) ↔
      ∀ w < s.jobthread, ¬InGap passed (s.workers w) := by
  have hcalled := h.called c
  rw [hc] at hcalled
  obtain ⟨hle, -, -, hqueue, hbusy⟩ := hcalled
  constructor
  · intro hall w _ hgap
    cases hw : s.workers w with
    | popped job =>
      rw [hw] at hgap
      exact h.placed.not_finished (by rw [hw]; rfl) (hall job.serial hgap)
    | off | starting | initializing | looking | running | finished =>
      rw [hw] at hgap
      exact hgap
  · intro hnone serial hserial
    obtain hqueued | ⟨w, hheld⟩ | hfinished := h.placed.found (Nat.lt_of_lt_of_le hserial hle)
    · obtain ⟨job, hjob, rfl⟩ := List.mem_map.mp hqueued
      exact absurd (hqueue (by omega) job hjob) (Nat.not_le_of_lt hserial)
    · have hexists : w < s.jobthread := by
        by_contra hge
        rw [h.off w (by omega)] at hheld
        cases hheld
      cases hw : s.workers w with
      | popped job =>
        rw [hw] at hheld
        refine absurd ?_ (hnone w hexists)
        rw [hw, InGap, Option.some.inj hheld]
        exact hserial
      | running job =>
        have hmem := h.busy w (by rw [hw]; trivial)
        rw [hbusy (by omega)] at hmem
        cases hmem
      | off | starting | initializing | looking | finished =>
        rw [hw] at hheld
        cases hheld
    · exact hfinished

/-- A step is sound exactly if it leaves no gap. -/
theorem Inv.sound_iff_noGap (h : s.Inv) {a : PoolAction} {past es : List PoolEvent}
    (hstep : s.step a = some (s', es)) : s.Sound past a es ↔ s.NoGap a := by
  have hnone (hes : es = []) : s.Sound past a es := by
    subst hes
    exact nofun
  cases a with
  | exec callable => exact iff_of_true (hnone (Prod.mk.inj (Option.some.inj hstep)).2.symm) trivial
  | start | startWith | waitForAllDone =>
    rw [ThreadPool.step] at hstep
    split at hstep
    · exact iff_of_true (hnone (Prod.mk.inj (Option.some.inj hstep)).2.symm) trivial
    · cases hstep
  | worker w =>
    obtain ⟨t, -, heq⟩ := Option.map_eq_some_iff.mp hstep
    exact iff_of_true (hnone (Prod.mk.inj heq).2.symm) trivial
  | caller c result =>
    have hmem := allDone_mem_iff h hstep
    constructor
    · intro hsound
      rw [NoGap]
      split
      · rename_i forever passed waited hc
        intro hdone
        exact (h.finished_iff hc).mp (hsound _ ((hmem passed).mpr ⟨_, _, hc, hdone⟩))
      · trivial
    · rintro hgap (passed | passed) hall
      · obtain ⟨forever, waited, hc, hdone⟩ := (hmem passed).mp hall
        rw [NoGap, hc] at hgap
        exact (h.finished_iff hc).mpr (hgap hdone)
      · trivial

end Steps

/-- **Completion.** In every run of a pool with any number of workers, under any interleaving,
`waitForAllDone` returns `true` only after all jobs that were passed before the call have finished,
exactly if no worker is between popping one of these jobs and registering when the last test
succeeds. -/
theorem allDone_sound_iff {num : ℕ} {as : List PoolAction} {s : ThreadPool} {es : List PoolEvent}
    (hexec : Scripts.exec step (init num) as = some (s, es)) :
    Scripts.Each step Sound (init num) [] as ↔ Scripts.Along step NoGap (init num) as :=
  Scripts.each_iff_along (I := fun s _ => s.Inv) (fun _ _ _ _ _ h hstep => Inv.step h hstep)
    (fun _ _ _ _ _ h hstep => Inv.sound_iff_noGap h hstep) (inv_init num) hexec

/-- One worker is started and runs the first job to its end. -/
def firstJob : List PoolAction :=
  [.start 0, .caller 0 true, .caller 0 true, .caller 0 true, .worker 0, .exec true, .worker 0,
    .worker 0, .worker 0, .worker 0]

/-- A caller waits for all jobs and is lucky with all four tests. -/
def waitOnce : List PoolAction :=
  [.waitForAllDone 0 true, .caller 0 true, .caller 0 true, .caller 0 true, .caller 0 true,
    .caller 0 true]

/-- `allDone_sound_iff` for a wait behind the first job, which is rightly told that all jobs are
done. -/
theorem allDone_sound_iff_sample :
    ∃ s, Scripts.exec step (init 1) (firstJob ++ waitOnce) = some (s, [.allDone 1]) ∧
      Scripts.Each step Sound (init 1) [] (firstJob ++ waitOnce) ∧
      (Scripts.Each step Sound (init 1) [] (firstJob ++ waitOnce) ↔
        Scripts.Along step NoGap (init 1) (firstJob ++ waitOnce)) := by
  have hexec : ∃ s, Scripts.exec step (init 1) (firstJob ++ waitOnce) = some (s, [.allDone 1]) :=
    ⟨_, rfl⟩
  obtain ⟨s, h⟩ := hexec
  exact ⟨s, h, by decide +kernel, allDone_sound_iff h⟩

/-- The second job is popped, its worker has not registered, and the wait is over: the flag is
still set from the first job. -/
theorem allDone_too_early :
    ∃ s, Scripts.exec step (init 1) (firstJob ++ [.exec true, .worker 0] ++ waitOnce) =
        some (s, [.allDone 2]) ∧ s.finished = [0] ∧ s.workers 0 = .popped ⟨1, true⟩ ∧
      ¬Scripts.Each step Sound (init 1) [] (firstJob ++ [.exec true, .worker 0] ++ waitOnce) :=
  ⟨_, rfl, rfl, rfl, by decide +kernel⟩

end ThreadPool

end Tars
