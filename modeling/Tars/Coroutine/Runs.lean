import Tars.Coroutine.Invariant
import Tars.Library.Scripts

/-!
# Runs of the coroutine scheduler

The thread of a scheduler runs either the main coroutine, which works through the phases of
`tars_run` or of a round of `run`, or one of the pool's coroutines, whose body is any sequence
of the calls that the scheduler offers. Other threads may put ids at any time.
-/

namespace Tars

open Rings

/-- Which of the two main loops is at work. -/
inductive MainLoop where
  /-- `tars_run`. -/
  | tarsRun
  /-- One round of `run`. -/
  | run
  deriving DecidableEq

/-- How many coroutines of `_avail` a main loop resumes at most. -/
def MainLoop.availRounds : MainLoop → ℕ
  | .tarsRun => 100
  | .run => 1

/-- Where the main coroutine is: outside of `tars_run` and `run`, or at which of their calls. -/
inductive MainPhase where
  /-- Outside of the main loops. -/
  | idle
  /-- Before `wakeupbytimeout`. -/
  | byTimeout (loop : MainLoop)
  /-- Before `wakeupbyself`. -/
  | bySelf (loop : MainLoop)
  /-- Before `wakeup`. -/
  | byPut (loop : MainLoop)
  /-- In the loop over `_active`. -/
  | active (loop : MainLoop) (iLoop : ℕ)
  /-- In the loop over `_avail`. -/
  | avail (iLoop : ℕ)
  deriving DecidableEq

/-- The list whose head the main coroutine resumes in a phase. -/
def MainPhase.list : MainPhase → Option CoroStatus
  | .active _ _ => some .active
  | .avail _ => some .avail
  | _ => none

/-- The thread of a scheduler: its members and where the main coroutine is. -/
structure CoroThread where
  /-- The scheduler. -/
  sched : CoroutineScheduler
  /-- Where the main coroutine is, or waits for the coroutine that it resumed. -/
  phase : MainPhase

/-- One step of a run: a call of the running coroutine, or the next call of the main one. -/
inductive CoroEvent where
  /-- The running coroutine, or the main one outside of its loops, calls `createCoroutine`;
  `alloc` says which stack allocations succeed. -/
  | createCoroutine (alloc : ℕ → Bool)
  /-- The running coroutine calls `yield`. -/
  | yield (bFlag : Bool)
  /-- The running coroutine calls `sleep` at the time `iNow`. -/
  | sleep (iSleepTime : Int32) (iNow : ℤ)
  /-- The body of the running coroutine returns or throws. -/
  | finish
  /-- Some thread puts the id of an existing coroutine. -/
  | put (iCoroId : ℕ)
  /-- Some thread calls `terminate`. -/
  | terminate
  /-- The main coroutine enters `tars_run` or a round of `run`. -/
  | enter (loop : MainLoop)
  /-- The main coroutine calls `wakeupbytimeout` at the time `iNow`. -/
  | wakeupbytimeout (iNow : ℤ)
  /-- The main coroutine calls `wakeupbyself`. -/
  | wakeupbyself
  /-- The main coroutine calls `wakeup`. -/
  | wakeup
  /-- The main coroutine tests the condition of a resuming loop and makes the next switch, or
  leaves the loop. -/
  | next

/-- When the coroutine wants to be woken that goes to sleep. -/
def CoroEvent.deadline : CoroEvent → Option ℤ
  | .sleep iSleepTime iNow => some (iNow + CoroutineScheduler.sleepTime iSleepTime)
  | _ => none

namespace CoroThread

/-- A resuming loop: switch to the head of the list, or go on with the phase `done`. -/
def resume (t : CoroThread) (list : CoroStatus) (iLoop : ℕ) (again : ℕ → MainPhase)
    (done : MainPhase) : Option (CoroThread × List CoroOutput) :=
  match iLoop with
  | 0 => some ({ t with phase := done }, [])
  | iLoop + 1 =>
    if t.sched.headEmpty list then some ({ t with phase := done }, [])
    else
      match t.sched.links.next (.inl list) with
      | some (.inr coro) =>
        some ({ sched := { t.sched with currentCoro := some coro }, phase := again iLoop },
          [.resumed coro])
      | _ => none

/-- A wake function, which takes the main coroutine to the next phase. -/
def wakePhase (t : CoroThread) (woken : Option (CoroutineScheduler × List CoroOutput))
    (next : MainPhase) : Option (CoroThread × List CoroOutput) :=
  woken.map fun result => ({ t with sched := result.1, phase := next }, result.2)

/-- A step of the main coroutine, which depends on where it is in its loop. -/
def mainStep (t : CoroThread) : MainPhase → CoroEvent → Option (CoroThread × List CoroOutput)
  | .idle, .createCoroutine alloc =>
    (t.sched.createCoroutine alloc).map fun result =>
      ({ t with sched := result.1 }, [.created result.2])
  | .idle, .enter loop => some (if t.sched.terminal then t else { t with phase := .byTimeout loop },
      [])
  | .byTimeout loop, .wakeupbytimeout iNow =>
    t.wakePhase (t.sched.wakeupbytimeout iNow) (.bySelf loop)
  | .bySelf loop, .wakeupbyself => t.wakePhase t.sched.wakeupbyself (.byPut loop)
  | .byPut loop, .wakeup => t.wakePhase t.sched.wakeup (.active loop 100)
  | .active loop iLoop, .next =>
    t.resume .active iLoop (.active loop) (.avail loop.availRounds)
  | .avail iLoop, .next => t.resume .avail iLoop .avail .idle
  | _, _ => none

/-- A step of the running coroutine `coro`: a call of the scheduler, or the end of its body. -/
def coroStep (t : CoroThread) (coro : CoroutineInfo) :
    CoroEvent → Option (CoroThread × List CoroOutput)
  | .createCoroutine alloc =>
    (t.sched.createCoroutine alloc).map fun result =>
      ({ t with sched := result.1 }, [.created result.2])
  | .yield bFlag =>
    (t.sched.yield coro bFlag).map fun sched =>
      ({ t with sched }, [.suspended coro (.yield bFlag)])
  | .sleep iSleepTime iNow =>
    (t.sched.sleep coro iSleepTime iNow).map fun sched =>
      ({ t with sched }, [.suspended coro (.sleep t.sched.nextNode)])
  | .finish =>
    (t.sched.finish coro).map fun sched => ({ t with sched }, [.finished coro])
  | _ => none

/-- A step of the whole system. It is refused if it is not the turn of its actor. -/
def step (t : CoroThread) : CoroEvent → Option (CoroThread × List CoroOutput)
  | .put iCoroId =>
    if (t.sched.lookup iCoroId).isSome then some ({ t with sched := t.sched.put iCoroId }, [])
    else none
  | .terminate => some ({ t with sched := { t.sched with terminal := true } }, [])
  | e =>
    match t.sched.currentCoro with
    | none => t.mainStep t.phase e
    | some coro => t.coroStep coro e

end CoroThread

namespace CoroThread

open CoroutineScheduler

/-- The invariant of the thread: the scheduler is sound, and a running coroutine is the head of
the list that the main coroutine is working through. -/
structure Sound (intact : Prop) (t : CoroThread) (lists : CoroStatus → List CoroutineInfo) :
    Prop where
  /-- The scheduler is sound: its lists, its statuses and its counters agree. -/
  sched : t.sched.Sound intact lists
  /-- The running coroutine is the head of its list. -/
  running : ∀ c, t.sched.currentCoro = some c →
    ∃ k, t.phase.list = some k ∧ (lists k).head? = some c

/-- The steps of the thread as changes of the lists and of the agenda. -/
inductive Transition (t : CoroThread) (lists : CoroStatus → List CoroutineInfo) :
    CoroEvent → CoroThread → (CoroStatus → List CoroutineInfo) → List CoroOutput → Prop
  /-- `createCoroutine` returns. -/
  | created {alloc sched lists'} (iId : ℕ) (hagenda : sched.agenda = t.sched.agenda)
      (hcreated : Created lists lists') :
      Transition t lists (.createCoroutine alloc) ⟨sched, t.phase⟩ lists' [.created iId]
  /-- The running coroutine yields. -/
  | yielded {sched c k} (bFlag : Bool) (hcurrent : t.sched.currentCoro = some c)
      (hc : c ∈ lists k) (hk : k = .active ∨ k = .avail)
      (hagenda : sched.agenda = { t.sched.agenda with
        currentCoro := none
        needActiveCoroId := if bFlag = true ∧ t.sched.terminal = false
          then t.sched.needActiveCoroId ++ [c.uid] else t.sched.needActiveCoroId }) :
      Transition t lists (.yield bFlag) ⟨sched, t.phase⟩ (append (remove lists k c) .inactive c)
        [.suspended c (.yield bFlag)]
  /-- The running coroutine goes to sleep. -/
  | slept {sched c k} (iSleepTime : Int32) (iNow : ℤ)
      (hcurrent : t.sched.currentCoro = some c)
      (hc : c ∈ lists k) (hk : k = .active ∨ k = .avail)
      (hagenda : sched.agenda = { t.sched.agenda with
        currentCoro := none
        timeoutCoroId :=
          insertTimeout ⟨t.sched.nextNode, iNow + sleepTime iSleepTime, c.uid⟩
            t.sched.timeoutCoroId
        nextNode := t.sched.nextNode + 1 }) :
      Transition t lists (.sleep iSleepTime iNow) ⟨sched, t.phase⟩
        (append (remove lists k c) .timeout c)
        [.suspended c (.sleep t.sched.nextNode)]
  /-- The running coroutine ends. -/
  | finished {sched c k} (hcurrent : t.sched.currentCoro = some c) (hc : c ∈ lists k)
      (hk : k = .active ∨ k = .avail)
      (hagenda : sched.agenda = { t.sched.agenda with currentCoro := none }) :
      Transition t lists .finish ⟨sched, t.phase⟩ (append (remove lists k c) .free c)
        [.finished c]
  /-- Someone puts the id of a coroutine. -/
  | put (iCoroId : ℕ) (hid : (t.sched.lookup iCoroId).isSome) :
      Transition t lists (.put iCoroId) ⟨t.sched.put iCoroId, t.phase⟩ lists []
  /-- Someone terminates the scheduler. -/
  | terminated :
      Transition t lists .terminate ⟨{ t.sched with terminal := true }, t.phase⟩ lists []
  /-- The main coroutine stays in a phase, or goes on from one without a wake function. -/
  | passed {e phase} (hcurrent : t.sched.currentCoro = none)
      (hevent : e = .next ∨ ∃ loop, e = .enter loop)
      (hself : ∀ loop, t.phase ≠ .bySelf loop) (hput : ∀ loop, phase ≠ .byPut loop) :
      Transition t lists e ⟨t.sched, phase⟩ lists []
  /-- The main coroutine skips a wake function after termination. -/
  | skipped {e phase} (hcurrent : t.sched.currentCoro = none)
      (hterminal : t.sched.terminal = true) (hevent : e.deadline = none) :
      Transition t lists e ⟨t.sched, phase⟩ lists []
  /-- The main coroutine wakes the coroutines whose deadline has come. -/
  | timers {sched lists' ws} (loop : MainLoop) (iNow : ℤ)
      (hcurrent : t.sched.currentCoro = none) (hrun : t.sched.terminal = false)
      (hphase : t.phase = .byTimeout loop)
      (hwoken : Woken t.sched.generation [.inactive, .timeout] .active (t.sched.due iNow)
        t.sched.status lists ws sched.status lists')
      (hagenda : sched.agenda = { t.sched.agenda with
        timeoutCoroId := t.sched.timeoutCoroId.dropWhile (fun n => n.deadline ≤ iNow) }) :
      Transition t lists (.wakeupbytimeout iNow) ⟨sched, .bySelf loop⟩ lists'
        (ws.map fun w => .woken w.1 w.2)
  /-- The main coroutine wakes the coroutines that noted themselves. -/
  | selves {sched lists' ws} (loop : MainLoop)
      (hcurrent : t.sched.currentCoro = none) (hrun : t.sched.terminal = false)
      (hphase : t.phase = .bySelf loop)
      (hwoken : Woken t.sched.generation [.inactive] .avail
        (t.sched.needActiveCoroId.map fun iId => (iId, .self)) t.sched.status lists ws
        sched.status lists')
      (hagenda : sched.agenda = { t.sched.agenda with needActiveCoroId := [] }) :
      Transition t lists .wakeupbyself ⟨sched, .byPut loop⟩ lists' (ws.map fun w => .woken w.1 w.2)
  /-- The main coroutine wakes the coroutines that were put. -/
  | puts {sched lists' ws} (loop : MainLoop)
      (hcurrent : t.sched.currentCoro = none) (hrun : t.sched.terminal = false)
      (hphase : t.phase = .byPut loop)
      (hwoken : Woken t.sched.generation [.inactive, .timeout] .active
        (t.sched.activeCoroQueue.map fun iId => (iId, .put)) t.sched.status lists ws
        sched.status lists')
      (hagenda : sched.agenda = { t.sched.agenda with activeCoroQueue := [] }) :
      Transition t lists .wakeup ⟨sched, .active loop 100⟩ lists' (ws.map fun w => .woken w.1 w.2)
  /-- The main coroutine resumes the head of the list that it is working through. -/
  | resumed {phase k} (c : CoroutineInfo) (hcurrent : t.sched.currentCoro = none)
      (hlist : t.phase.list = some k) (hphase : phase.list = some k)
      (hhead : (lists k).head? = some c) :
      Transition t lists .next ⟨{ t.sched with currentCoro := some c }, phase⟩ lists
        [.resumed c]

variable {intact : Prop} {t t' : CoroThread} {lists : CoroStatus → List CoroutineInfo}
  {out : List CoroOutput}

/-- The lists that the main coroutine works through are those of runnable coroutines. -/
theorem runnable_of_list {phase : MainPhase} {k : CoroStatus} (h : phase.list = some k) :
    k = .active ∨ k = .avail := by
  cases phase <;> simp [MainPhase.list] at h <;> simp [← h]

/-- The running coroutine is on a list of runnable ones. -/
theorem Sound.mem_running (h : Sound intact t lists) {c : CoroutineInfo}
    (hc : t.sched.currentCoro = some c) : ∃ k, c ∈ lists k ∧ (k = .active ∨ k = .avail) := by
  obtain ⟨k, hlist, hhead⟩ := h.running c hc
  exact ⟨k, List.mem_of_head? hhead, runnable_of_list hlist⟩

/-- While the main coroutine runs, no other one does. -/
theorem Sound.of_main {sched : CoroutineScheduler} {phase : MainPhase}
    {lists' : CoroStatus → List CoroutineInfo} (h : sched.Sound intact lists')
    (hcurrent : sched.currentCoro = none) : Sound intact ⟨sched, phase⟩ lists' :=
  ⟨h, fun c hc => by simp [hcurrent] at hc⟩

/-- Creating a coroutine is a transition, whoever does it. -/
theorem Sound.create (h : Sound intact t lists) {alloc : ℕ → Bool}
    (halloc : intact → ∀ i, alloc i = true)
    (hstep : (t.sched.createCoroutine alloc).map (fun result =>
      (({ t with sched := result.1 } : CoroThread), [CoroOutput.created result.2])) =
        some (t', out)) :
    ∃ lists', Transition t lists (.createCoroutine alloc) t' lists' out ∧
      Sound intact t' lists' := by
  obtain ⟨⟨sched, iId⟩, hcreate, hresult⟩ := Option.map_eq_some_iff.mp hstep
  obtain ⟨rfl, rfl⟩ := Prod.mk.inj hresult
  obtain ⟨lists', hagenda, hsound, hcreated⟩ := h.sched.createCoroutine halloc hcreate
  refine ⟨lists', .created iId hagenda hcreated, hsound, ?_⟩
  intro c hc
  have hold : t.sched.currentCoro = some c := (congrArg Agenda.currentCoro hagenda).symm.trans hc
  obtain ⟨k, hlist, hhead⟩ := h.running c hold
  refine ⟨k, hlist, hcreated.head? ?_ hhead⟩
  rcases runnable_of_list hlist with rfl | rfl <;> decide

/-- A resuming loop makes a switch or goes on. -/
theorem Sound.resume (h : Sound intact t lists) {k : CoroStatus} {iLoop : ℕ} {again : ℕ → MainPhase}
    {done : MainPhase} (hcurrent : t.sched.currentCoro = none) (hlist : t.phase.list = some k)
    (hagain : ∀ i, (again i).list = some k) (hdone : ∀ loop, done ≠ .byPut loop)
    (hstep : t.resume k iLoop again done = some (t', out)) :
    ∃ lists', Transition t lists .next t' lists' out ∧ Sound intact t' lists' := by
  have hself : ∀ loop, t.phase ≠ .bySelf loop := by
    intro loop hphase
    rw [hphase] at hlist
    cases hlist
  have hpass : ∃ lists', Transition t lists .next ⟨t.sched, done⟩ lists' [] ∧
      Sound intact ⟨t.sched, done⟩ lists' :=
    ⟨lists, .passed hcurrent (.inl rfl) hself hdone, .of_main h.sched hcurrent⟩
  cases iLoop with
  | zero =>
    obtain ⟨rfl, rfl⟩ := Prod.mk.inj (Option.some.inj hstep)
    exact hpass
  | succ iLoop =>
    rw [CoroThread.resume] at hstep
    split at hstep
    · obtain ⟨rfl, rfl⟩ := Prod.mk.inj (Option.some.inj hstep)
      exact hpass
    · rename_i hempty
      obtain ⟨c, rest, hk⟩ := h.sched.arranged.exists_cons hempty
      have hnext := h.sched.arranged.represents.next_head k
      rw [hk] at hnext
      simp only [hnext, List.head?_cons, Option.map_some, Option.getD_some, Option.some.injEq,
        Prod.mk.injEq] at hstep
      obtain ⟨rfl, rfl⟩ := hstep
      have hhead : (lists k).head? = some c := by rw [hk]; rfl
      refine ⟨lists, .resumed c hcurrent hlist (hagain iLoop) hhead,
        h.sched.of_waiting _ _ _ h.sched.self h.sched.queue h.sched.timers, ?_⟩
      intro d hd
      obtain rfl := Option.some.inj hd
      exact ⟨k, hagain iLoop, hhead⟩

/-- A step of the running coroutine keeps the invariant, with one case for each call. -/
theorem Sound.coroStep (h : Sound intact t lists) {c : CoroutineInfo} {e : CoroEvent}
    (hc : t.sched.currentCoro = some c)
    (halloc : intact → ∀ alloc, e = .createCoroutine alloc → ∀ i, alloc i = true)
    (hstep : t.coroStep c e = some (t', out)) :
    ∃ lists', Transition t lists e t' lists' out ∧ Sound intact t' lists' := by
  obtain ⟨k, hmem, hk⟩ := h.mem_running hc
  cases e with
  | createCoroutine alloc => exact h.create (fun hin => halloc hin alloc rfl) hstep
  | yield bFlag =>
    obtain ⟨sched, hyield, hsound, hagenda⟩ := h.sched.yield hmem hk bFlag
    rw [CoroThread.coroStep, hyield] at hstep
    obtain ⟨rfl, rfl⟩ := Prod.mk.inj (Option.some.inj hstep)
    exact ⟨_, .yielded bFlag hc hmem hk hagenda,
      .of_main hsound (congrArg Agenda.currentCoro hagenda)⟩
  | sleep iSleepTime iNow =>
    obtain ⟨sched, hsleep, hsound, hagenda⟩ := h.sched.sleep hmem hk iSleepTime iNow
    rw [CoroThread.coroStep, hsleep] at hstep
    obtain ⟨rfl, rfl⟩ := Prod.mk.inj (Option.some.inj hstep)
    exact ⟨_, .slept iSleepTime iNow hc hmem hk hagenda,
      .of_main hsound (congrArg Agenda.currentCoro hagenda)⟩
  | finish =>
    obtain ⟨sched, hfinish, hsound, hagenda⟩ := h.sched.finish hmem hk
    rw [CoroThread.coroStep, hfinish] at hstep
    obtain ⟨rfl, rfl⟩ := Prod.mk.inj (Option.some.inj hstep)
    exact ⟨_, .finished hc hmem hk hagenda, .of_main hsound (congrArg Agenda.currentCoro hagenda)⟩
  | _ => cases hstep

/-- A step of the main coroutine keeps the invariant, with one case for each place. -/
theorem Sound.mainStep (h : Sound intact t lists) {e : CoroEvent} (hc : t.sched.currentCoro = none)
    (halloc : intact → ∀ alloc, e = .createCoroutine alloc → ∀ i, alloc i = true)
    (hstep : t.mainStep t.phase e = some (t', out)) :
    ∃ lists', Transition t lists e t' lists' out ∧ Sound intact t' lists' := by
  unfold CoroThread.mainStep at hstep
  split at hstep
  · rename_i alloc hphase
    exact h.create (fun hin => halloc hin alloc rfl) hstep
  · rename_i loop hphase
    have hself : ∀ loop, t.phase ≠ .bySelf loop := by simp [hphase]
    obtain ⟨rfl, rfl⟩ := Prod.mk.inj (Option.some.inj hstep)
    split
    · have hput : ∀ loop, t.phase ≠ .byPut loop := by simp [hphase]
      exact ⟨lists, .passed hc (.inr ⟨loop, rfl⟩) hself hput, h⟩
    · exact ⟨lists, .passed hc (.inr ⟨loop, rfl⟩) hself (by simp), .of_main h.sched hc⟩
  · rename_i loop iNow hphase
    by_cases hrun : t.sched.terminal = true
    · rw [wakePhase, wakeupbytimeout, if_pos hrun] at hstep
      obtain ⟨rfl, rfl⟩ := Prod.mk.inj (Option.some.inj hstep)
      exact ⟨lists, .skipped hc hrun rfl, .of_main h.sched hc⟩
    · rw [Bool.not_eq_true] at hrun
      obtain ⟨sched, lists', ws, hwake, hsound, hwoken, hagenda⟩ :=
        h.sched.wakeupbytimeout hrun iNow
      rw [wakePhase, hwake] at hstep
      obtain ⟨rfl, rfl⟩ := Prod.mk.inj (Option.some.inj hstep)
      exact ⟨lists', .timers loop iNow hc hrun hphase hwoken hagenda,
        .of_main hsound ((congrArg Agenda.currentCoro hagenda).trans hc)⟩
  · rename_i loop hphase
    by_cases hrun : t.sched.terminal = true
    · rw [wakePhase, wakeupbyself, if_pos hrun] at hstep
      obtain ⟨rfl, rfl⟩ := Prod.mk.inj (Option.some.inj hstep)
      exact ⟨lists, .skipped hc hrun rfl, .of_main h.sched hc⟩
    · rw [Bool.not_eq_true] at hrun
      obtain ⟨sched, lists', ws, hwake, hsound, hwoken, hagenda⟩ := h.sched.wakeupbyself hrun
      rw [wakePhase, hwake] at hstep
      obtain ⟨rfl, rfl⟩ := Prod.mk.inj (Option.some.inj hstep)
      exact ⟨lists', .selves loop hc hrun hphase hwoken hagenda,
        .of_main hsound ((congrArg Agenda.currentCoro hagenda).trans hc)⟩
  · rename_i loop hphase
    by_cases hrun : t.sched.terminal = true
    · rw [wakePhase, wakeup, if_pos hrun] at hstep
      obtain ⟨rfl, rfl⟩ := Prod.mk.inj (Option.some.inj hstep)
      exact ⟨lists, .skipped hc hrun rfl, .of_main h.sched hc⟩
    · rw [Bool.not_eq_true] at hrun
      obtain ⟨sched, lists', ws, hwake, hsound, hwoken, hagenda⟩ := h.sched.wakeup hrun
      rw [wakePhase, hwake] at hstep
      obtain ⟨rfl, rfl⟩ := Prod.mk.inj (Option.some.inj hstep)
      exact ⟨lists', .puts loop hc hrun hphase hwoken hagenda,
        .of_main hsound ((congrArg Agenda.currentCoro hagenda).trans hc)⟩
  · rename_i loop iLoop hphase
    exact h.resume hc (by rw [hphase]; rfl) (fun _ => rfl) (by simp) hstep
  · rename_i iLoop hphase
    exact h.resume hc (by rw [hphase]; rfl) (fun _ => rfl) (by simp) hstep
  · cases hstep

/-- **Every step keeps the invariant** and is one of the transitions. -/
theorem Sound.step (h : Sound intact t lists) {e : CoroEvent}
    (halloc : intact → ∀ alloc, e = .createCoroutine alloc → ∀ i, alloc i = true)
    (hstep : t.step e = some (t', out)) :
    ∃ lists', Transition t lists e t' lists' out ∧ Sound intact t' lists' := by
  unfold CoroThread.step at hstep
  split at hstep
  · rename_i iCoroId
    split at hstep
    · rename_i hfound
      obtain ⟨rfl, rfl⟩ := Prod.mk.inj (Option.some.inj hstep)
      refine ⟨lists, .put iCoroId hfound, ?_⟩
      have hqueue : ∀ i ∈ t.sched.activeCoroQueue ++ [iCoroId], (t.sched.lookup i).isSome := by
        intro i hi
        rcases List.mem_append.mp hi with hold | hnew
        · exact h.sched.queue i hold
        · exact List.mem_singleton.mp hnew ▸ hfound
      rw [CoroutineScheduler.put]
      split
      · exact h
      · exact ⟨h.sched.of_waiting _ _ _ h.sched.self hqueue h.sched.timers, h.running⟩
    · cases hstep
  · obtain ⟨rfl, rfl⟩ := Prod.mk.inj (Option.some.inj hstep)
    exact ⟨lists, .terminated,
      h.sched.of_waiting _ _ _ h.sched.self h.sched.queue h.sched.timers, h.running⟩
  · split at hstep
    · rename_i hc
      exact h.mainStep hc halloc hstep
    · rename_i c hc
      exact h.coroStep hc halloc hstep

/-- Whose turn it is: the steps that the thread can be asked to make. -/
def Turn (t : CoroThread) : CoroEvent → Prop
  | .createCoroutine _ => t.sched.currentCoro.isSome ∨ t.phase = .idle
  | .yield _ | .sleep _ _ | .finish => t.sched.currentCoro.isSome
  | .put iCoroId => (t.sched.lookup iCoroId).isSome
  | .terminate => True
  | .enter _ => t.sched.currentCoro = none ∧ t.phase = .idle
  | .wakeupbytimeout _ => t.sched.currentCoro = none ∧ ∃ loop, t.phase = .byTimeout loop
  | .wakeupbyself => t.sched.currentCoro = none ∧ ∃ loop, t.phase = .bySelf loop
  | .wakeup => t.sched.currentCoro = none ∧ ∃ loop, t.phase = .byPut loop
  | .next => t.sched.currentCoro = none ∧ t.phase.list.isSome

/-- The result of a wake function, which always has one in a sound state. -/
private theorem wakePhase_isSome {woken : Option (CoroutineScheduler × List CoroOutput)}
    {next : MainPhase} (h : woken.isSome) : (t.wakePhase woken next).isSome := by
  rw [wakePhase, Option.isSome_map]
  exact h

/-- A resuming loop never meets a null pointer or a list head. -/
private theorem Sound.resume_isSome (h : Sound intact t lists) (k : CoroStatus) (iLoop : ℕ)
    (again : ℕ → MainPhase) (done : MainPhase) : (t.resume k iLoop again done).isSome := by
  cases iLoop with
  | zero => rfl
  | succ iLoop =>
    rw [CoroThread.resume]
    split
    · rfl
    · rename_i hempty
      obtain ⟨c, rest, hk⟩ := h.sched.arranged.exists_cons hempty
      have hnext := h.sched.arranged.represents.next_head k
      rw [hk] at hnext
      simp only [hnext, List.head?_cons, Option.map_some, Option.getD_some, Option.isSome_some]

/-- **Nothing fails.** While no stack allocation fails, every step whose turn it is succeeds: no
assertion fails, no null pointer is followed and no list head is taken for a coroutine. -/
theorem Sound.step_isSome (h : Sound True t lists) {e : CoroEvent} (hturn : t.Turn e)
    (halloc : ∀ alloc, e = .createCoroutine alloc → ∀ i, alloc i = true) :
    (t.step e).isSome := by
  have hwake (iNow : ℤ) : (t.sched.wakeupbytimeout iNow).isSome ∧ t.sched.wakeupbyself.isSome ∧
      t.sched.wakeup.isSome := by
    by_cases hrun : t.sched.terminal = true
    · simp [wakeupbytimeout, wakeupbyself, wakeup, hrun]
    · rw [Bool.not_eq_true] at hrun
      obtain ⟨_, _, _, htimers, -⟩ := h.sched.wakeupbytimeout hrun iNow
      obtain ⟨_, _, _, hself, -⟩ := h.sched.wakeupbyself hrun
      obtain ⟨_, _, _, hput, -⟩ := h.sched.wakeup hrun
      simp [htimers, hself, hput]
  cases e with
  | createCoroutine alloc =>
    obtain ⟨_, _, hcreate, -⟩ := h.sched.createCoroutine_total (halloc alloc rfl)
    cases hc : t.sched.currentCoro with
    | none =>
      have hidle : t.phase = .idle := by simpa [Turn, hc] using hturn
      simp [CoroThread.step, hc, hidle, CoroThread.mainStep, hcreate]
    | some c => simp [CoroThread.step, hc, CoroThread.coroStep, hcreate]
  | yield bFlag =>
    obtain ⟨c, hc⟩ := Option.isSome_iff_exists.mp hturn
    obtain ⟨k, hmem, hk⟩ := h.mem_running hc
    obtain ⟨_, hyield, -⟩ := h.sched.yield hmem hk bFlag
    simp [CoroThread.step, hc, CoroThread.coroStep, hyield]
  | sleep iSleepTime iNow =>
    obtain ⟨c, hc⟩ := Option.isSome_iff_exists.mp hturn
    obtain ⟨k, hmem, hk⟩ := h.mem_running hc
    obtain ⟨_, hsleep, -⟩ := h.sched.sleep hmem hk iSleepTime iNow
    simp [CoroThread.step, hc, CoroThread.coroStep, hsleep]
  | finish =>
    obtain ⟨c, hc⟩ := Option.isSome_iff_exists.mp hturn
    obtain ⟨k, hmem, hk⟩ := h.mem_running hc
    obtain ⟨_, hfinish, -⟩ := h.sched.finish hmem hk
    simp [CoroThread.step, hc, CoroThread.coroStep, hfinish]
  | put iCoroId =>
    have hfound : (t.sched.lookup iCoroId).isSome = true := hturn
    simp [CoroThread.step, hfound]
  | terminate => rfl
  | enter loop =>
    obtain ⟨hc, hphase⟩ := hturn
    simp [CoroThread.step, hc, hphase, CoroThread.mainStep]
  | wakeupbytimeout iNow =>
    obtain ⟨hc, loop, hphase⟩ := hturn
    simp only [CoroThread.step, hc, hphase, CoroThread.mainStep]
    exact wakePhase_isSome (hwake iNow).1
  | wakeupbyself =>
    obtain ⟨hc, loop, hphase⟩ := hturn
    simp only [CoroThread.step, hc, hphase, CoroThread.mainStep]
    exact wakePhase_isSome (hwake 0).2.1
  | wakeup =>
    obtain ⟨hc, loop, hphase⟩ := hturn
    simp only [CoroThread.step, hc, hphase, CoroThread.mainStep]
    exact wakePhase_isSome (hwake 0).2.2
  | next =>
    obtain ⟨hc, hlist⟩ := hturn
    cases hphase : t.phase with
    | active loop iLoop =>
      simp only [CoroThread.step, hc, hphase, CoroThread.mainStep]
      exact h.resume_isSome _ _ _ _
    | avail iLoop =>
      simp only [CoroThread.step, hc, hphase, CoroThread.mainStep]
      exact h.resume_isSome _ _ _ _
    | _ => simp [hphase, MainPhase.list] at hlist

/-! ### Runs -/

/-- All stack allocations of a script succeed, so only the size of the pool limits it. -/
def Allocates (script : List CoroEvent) : Prop :=
  ∀ alloc, .createCoroutine alloc ∈ script → ∀ i, alloc i = true

/-- The start of the thread after `init`, with the main coroutine outside of its loops. -/
def start (s : CoroutineScheduler) : CoroThread := ⟨s, .idle⟩

/-- **Every run keeps the invariant.** It starts after `init`, and if it is to be `intact` no
stack allocation of the script may fail. -/
theorem run_sound {iPoolSize : UInt32} {alloc : ℕ → Bool} {s : CoroutineScheduler}
    {script : List CoroEvent} (hinit : new.init iPoolSize alloc = some s)
    (halloc : intact → Allocates script)
    (hexec : Scripts.exec step (start s) script = some (t, out)) :
    ∃ lists, Sound intact t lists := by
  obtain ⟨lists₀, generation, hsound, -, hagenda⟩ := CoroutineScheduler.Sound.init hinit
  have hcurrent : s.currentCoro = none := congrArg Agenda.currentCoro hagenda
  refine Scripts.exec_invariant (I := fun t => ∃ lists, Sound intact t lists)
    (C := fun _ e => intact → ∀ alloc, e = .createCoroutine alloc → ∀ i, alloc i = true) ?_
    ⟨lists₀, .of_main hsound hcurrent⟩ (Scripts.along_of_mem ?_) hexec
  · rintro t e t' out ⟨lists, h⟩ hsucceed hstep
    obtain ⟨lists', -, h'⟩ := h.step hsucceed hstep
    exact ⟨lists', h'⟩
  · rintro e he hin alloc rfl
    exact halloc hin alloc he

/-- How the lists of the scheduler belong together with what the thread is doing. -/
structure WellFormed (t : CoroThread) (lists : CoroStatus → List CoroutineInfo) : Prop where
  /-- The links stand for the lists, which have no duplicates and are pairwise disjoint. -/
  represents : Represents t.sched.links lists
  /-- Together the lists are `_all_coro[1.._currentSize]`: no coroutine is lost, and none is made
  up. -/
  union : ∀ c, (∃ k, c ∈ lists k) ↔
    ∃ i, 1 ≤ i ∧ i ≤ t.sched.currentSize ∧ t.sched.allCoro[i]? = some (some c)
  /-- The status of a coroutine names its list. -/
  status : ∀ k c, c ∈ lists k → t.sched.status c = k
  /-- The pool does not outgrow its size. -/
  size : t.sched.currentSize ≤ t.sched.poolSize
  /-- `_usedSize` is the number of coroutines that are not on `_free`. -/
  used : t.sched.usedSize = CoroutineScheduler.used lists
  /-- A running coroutine is the head of `_active` or of `_avail`. -/
  running : ∀ c, t.sched.currentCoro = some c →
    (lists .active).head? = some c ∨ (lists .avail).head? = some c

/-- Without failures the invariant says that the lists belong together. -/
theorem Sound.wellFormed (h : Sound True t lists) : WellFormed t lists := by
  have hlookup (i : ℕ) (c : CoroutineInfo) : t.sched.lookup i = some c ↔
      t.sched.allCoro[i]? = some (some c) := by
    rw [lookup]
    cases t.sched.allCoro[i]? <;> simp
  have hexact := h.sched.exact trivial
  refine ⟨h.sched.arranged.represents, ?_, h.sched.arranged.status, hexact ▸ h.sched.size,
    h.sched.used, ?_⟩
  · intro c
    constructor
    · intro hc
      obtain ⟨-, hlo, hhi⟩ := h.sched.pool c hc
      exact ⟨c.uid, hlo, hexact ▸ hhi, (hlookup _ _).mp ((h.sched.lookup _ _).mpr ⟨rfl, hc⟩)⟩
    · rintro ⟨i, -, -, hi⟩
      exact ((h.sched.lookup i c).mp ((hlookup i c).mpr hi)).2
  · intro c hc
    obtain ⟨k, hlist, hhead⟩ := h.running c hc
    rcases runnable_of_list hlist with rfl | rfl
    · exact .inl hhead
    · exact .inr hhead

/-- No transition changes the size of the pool: it is what `init` was given. -/
theorem Transition.poolSize {e : CoroEvent} {lists' : CoroStatus → List CoroutineInfo}
    (h : Transition t lists e t' lists' out) : t'.sched.poolSize = t.sched.poolSize := by
  cases h with
  | put iCoroId hid =>
    rw [CoroutineScheduler.put]
    split
    · rfl
    · rfl
  | terminated | passed | skipped | resumed => rfl
  | created iId hagenda => exact congrArg Agenda.poolSize hagenda
  | yielded bFlag hcurrent hc hk hagenda => exact congrArg Agenda.poolSize hagenda
  | slept iSleepTime iNow hcurrent hc hk hagenda => exact congrArg Agenda.poolSize hagenda
  | finished hcurrent hc hk hagenda => exact congrArg Agenda.poolSize hagenda
  | timers loop iNow hcurrent hrun hphase hwoken hagenda => exact congrArg Agenda.poolSize hagenda
  | selves loop hcurrent hrun hphase hwoken hagenda => exact congrArg Agenda.poolSize hagenda
  | puts loop hcurrent hrun hphase hwoken hagenda => exact congrArg Agenda.poolSize hagenda

/-- The pool has the size that `init` was asked for in every state of every run. Asked for `0`,
`init` does nothing, and the size stays that of the constructor. -/
theorem run_poolSize {iPoolSize : UInt32} {alloc : ℕ → Bool} {s : CoroutineScheduler}
    {script : List CoroEvent} (hinit : new.init iPoolSize alloc = some s)
    (hexec : Scripts.exec step (start s) script = some (t, out)) :
    t.sched.poolSize = if iPoolSize = 0 then 1000 else iPoolSize.toNat := by
  obtain ⟨lists₀, generation, hsound, -, hagenda⟩ :=
    @CoroutineScheduler.Sound.init False _ _ _ hinit
  have hcurrent : s.currentCoro = none := congrArg Agenda.currentCoro hagenda
  have hsize : s.poolSize = if iPoolSize = 0 then 1000 else iPoolSize.toNat :=
    congrArg Agenda.poolSize hagenda
  refine (Scripts.exec_keeps (I := fun t _ => (∃ lists, Sound False t lists) ∧
    t.sched.poolSize = if iPoolSize = 0 then 1000 else iPoolSize.toNat) ?_
    ⟨⟨lists₀, .of_main hsound hcurrent⟩, hsize⟩ hexec).2
  rintro t e t' out past ⟨⟨lists, h⟩, hold⟩ hstep
  obtain ⟨lists', htrans, h'⟩ := h.step (fun hbad => hbad.elim) hstep
  exact ⟨⟨lists', h'⟩, htrans.poolSize.trans hold⟩

/-- **The lists of the scheduler partition its pool.** In every state of every run whose stack
allocations succeed, the five lists are duplicate-free and disjoint, together they are the pool,
and statuses and counters agree with them. The pool keeps the size that `init` was asked for, and
`createCoroutine` always finds a coroutine, and returns `0` only if as many are in use. For the
size `2 ^ 32 - 1` there is no such run: the array of `_poolSize + 1` pointers is then empty, and
`init` writes behind it. -/
theorem lists_partition_pool {iPoolSize : UInt32} {s : CoroutineScheduler}
    {script : List CoroEvent} (hinit : new.init iPoolSize (fun _ => true) = some s)
    (halloc : Allocates script) (hexec : Scripts.exec step (start s) script = some (t, out)) :
    ∃ lists, WellFormed t lists ∧
      t.sched.poolSize = (if iPoolSize = 0 then 1000 else iPoolSize.toNat) ∧
      ∀ alloc : ℕ → Bool, (∀ i, alloc i = true) →
        ∃ s' iId, t.sched.createCoroutine alloc = some (s', iId) ∧
          (iId = 0 → t.sched.usedSize = t.sched.poolSize) := by
  obtain ⟨lists, h⟩ := run_sound hinit (fun _ => halloc) hexec
  exact ⟨lists, h.wellFormed, run_poolSize hinit hexec,
    fun alloc => h.sched.createCoroutine_total⟩

/-- Two coroutines in a pool of two: the first sleeps, the second is put while it waits. -/
theorem lists_partition_pool_sample :
    ∃ s t out lists, new.init 2 (fun _ => true) = some s ∧
      Scripts.exec step (start s) [.createCoroutine fun _ => true, .createCoroutine fun _ => true,
        .enter .tarsRun, .wakeupbytimeout 0, .wakeupbyself, .wakeup, .next, .next, .sleep 5 0,
        .next, .yield false, .put 2, .next, .enter .tarsRun, .wakeupbytimeout 1, .wakeupbyself,
        .wakeup, .next] = some (t, out) ∧ WellFormed t lists ∧ t.sched.poolSize = 2 ∧
      ∃ s' iId, t.sched.createCoroutine (fun _ => true) = some (s', iId) ∧
        (iId = 0 → t.sched.usedSize = t.sched.poolSize) := by
  have hrun : ((new.init 2 (fun _ => true)).bind fun s => Scripts.exec step (start s)
      [.createCoroutine fun _ => true, .createCoroutine fun _ => true,
        .enter .tarsRun, .wakeupbytimeout 0, .wakeupbyself, .wakeup, .next, .next, .sleep 5 0,
        .next, .yield false, .put 2, .next, .enter .tarsRun, .wakeupbytimeout 1, .wakeupbyself,
        .wakeup, .next]).isSome = true := by
    decide +kernel
  obtain ⟨⟨t, out⟩, hsome⟩ := Option.isSome_iff_exists.mp hrun
  obtain ⟨s, hinit, hexec⟩ := Option.bind_eq_some_iff.mp hsome
  obtain ⟨lists, h, hsize, hcreate⟩ := lists_partition_pool hinit
    (fun alloc hmem i => by
      have hall : alloc = fun _ => true := by simpa using hmem
      rw [hall]) hexec
  exact ⟨s, t, out, lists, hinit, hexec, h, hsize, hcreate _ fun _ => rfl⟩

end CoroThread

end Tars
