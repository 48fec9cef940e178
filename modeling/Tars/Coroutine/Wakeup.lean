import Mathlib.Data.List.TakeWhile
import Tars.Coroutine.Runs

/-!
# Waking coroutines

A suspended coroutine leaves its id where a wake function finds it: in `_needActiveCoroId`
after `yield(true)`, in a node of `_timeoutCoroId` after `sleep`. `Tracked` connects these
containers with the suspensions that the outputs of a run tell of. It follows that no wake-up
is lost. A node outlives its suspension if the coroutine is put while it sleeps, so that a
wake-up may be spurious; this needs a coroutine that suspends while an old node waits for it.
-/

namespace Tars

open Rings CoroutineScheduler

/-- How a coroutine is suspended after one more output. -/
def track (c : CoroutineInfo) (state : Option Suspension) : CoroOutput → Option Suspension
  | .suspended d how => if d = c then some how else state
  | .woken d _ => if d = c then none else state
  | _ => state

/-- How a coroutine is suspended after these outputs; `none` if it is not. -/
def suspension (c : CoroutineInfo) (out : List CoroOutput) : Option Suspension :=
  out.foldl (track c) none

section Suspension

variable {c d : CoroutineInfo} {out : List CoroOutput} {how : Suspension}

/-- The suspension after one more output, which says how the output changes it. -/
theorem suspension_concat (o : CoroOutput) :
    suspension c (out ++ [o]) = track c (suspension c out) o := by
  rw [suspension, List.foldl_append]
  rfl

/-- The suspension of the coroutine that has just suspended itself. -/
theorem suspension_self : suspension c (out ++ [.suspended c how]) = some how := by
  rw [suspension_concat, track, if_pos rfl]

/-- The suspension of another coroutine says nothing about this one. -/
theorem suspension_other (h : d ≠ c) : suspension d (out ++ [.suspended c how]) =
    suspension d out := by
  rw [suspension_concat, track, if_neg (Ne.symm h)]

/-- Waking ends the suspensions of those who are woken. -/
theorem suspension_woken (ws : List (CoroutineInfo × WakeCause)) :
    suspension c (out ++ ws.map fun w => .woken w.1 w.2) =
      if c ∈ ws.map Prod.fst then none else suspension c out := by
  induction ws generalizing out with
  | nil => simp
  | cons w ws ih =>
    have hone : suspension c (out ++ [.woken w.1 w.2]) =
        if w.1 = c then none else suspension c out := suspension_concat _
    rw [List.map_cons, List.append_cons, ih, hone]
    simp only [List.map_cons, List.mem_cons, eq_comm (a := c)]
    by_cases hw : w.1 = c
    · simp [hw]
    · simp only [hw, false_or, if_false]

end Suspension

namespace CoroThread

variable {intact : Prop} {t t' : CoroThread} {lists lists' : CoroStatus → List CoroutineInfo}
  {past out : List CoroOutput}

/-- How the containers of ids belong to the suspensions that the outputs tell of. -/
structure Tracked (t : CoroThread) (lists : CoroStatus → List CoroutineInfo)
    (past : List CoroOutput) : Prop where
  /-- The node of a sleeping coroutine is still there. -/
  asleep : ∀ c ∈ lists .timeout, ∃ n ∈ t.sched.timeoutCoroId,
    n.coroId = c.uid ∧ suspension c past = some (.sleep n.node)
  /-- An inactive coroutine has yielded. -/
  inactive : ∀ c ∈ lists .inactive, ∃ bFlag, suspension c past = some (.yield bFlag)
  /-- All others are not suspended. -/
  awake : ∀ c, c ∉ lists .timeout → c ∉ lists .inactive → suspension c past = none
  /-- A coroutine that yielded for a turn is noted. -/
  noted : t.sched.terminal = false → ∀ c, suspension c past = some (.yield true) →
    c.uid ∈ t.sched.needActiveCoroId
  /-- Who is noted yielded for a turn, or has just been woken by an older node. -/
  honest : t.sched.terminal = false → ∀ c, (∃ k, c ∈ lists k) →
    c.uid ∈ t.sched.needActiveCoroId → suspension c past = some (.yield true) ∨
      suspension c past = none ∧ ∃ loop, t.phase = .bySelf loop
  /-- Nobody is noted after `wakeupbyself`. -/
  cleared : t.sched.terminal = false → ∀ loop, t.phase = .byPut loop →
    t.sched.needActiveCoroId = []
  /-- The nodes are in the order of their deadlines. -/
  sorted : t.sched.timeoutCoroId.Pairwise (fun n m => n.deadline ≤ m.deadline)
  /-- Nodes that exist were made before. -/
  older : ∀ n ∈ t.sched.timeoutCoroId, n.node < t.sched.nextNode

/-- A suspended coroutine sleeps or is inactive: it is on one of the two lists from which coroutines
are woken. -/
theorem Tracked.mem_of_suspended (h : Tracked t lists past) {c : CoroutineInfo} {how : Suspension}
    (hhow : suspension c past = some how) : c ∈ lists .timeout ∨ c ∈ lists .inactive := by
  by_contra hnot
  rw [h.awake c (fun hbad => hnot (.inl hbad)) (fun hbad => hnot (.inr hbad))] at hhow
  cases hhow

/-- A suspended coroutine is on a list, so its id can be looked up. -/
theorem Tracked.listed_of_suspended (h : Tracked t lists past) {c : CoroutineInfo}
    {how : Suspension} (hhow : suspension c past = some how) : ∃ k, c ∈ lists k := by
  rcases h.mem_of_suspended hhow with hmem | hmem
  · exact ⟨_, hmem⟩
  · exact ⟨_, hmem⟩

/-- A coroutine that is suspended by `sleep` is on `_timeout`. -/
theorem Tracked.mem_timeout (h : Tracked t lists past) {c : CoroutineInfo} {node : ℕ}
    (hc : suspension c past = some (.sleep node)) : c ∈ lists .timeout := by
  rcases h.mem_of_suspended hc with hmem | hmem
  · exact hmem
  · obtain ⟨bFlag, hyield⟩ := h.inactive c hmem
    rw [hc] at hyield
    cases hyield

/-- A coroutine that yielded is inactive until it is woken. -/
theorem Tracked.mem_inactive (h : Tracked t lists past) {c : CoroutineInfo} {bFlag : Bool}
    (hc : suspension c past = some (.yield bFlag)) : c ∈ lists .inactive := by
  rcases h.mem_of_suspended hc with hmem | hmem
  · obtain ⟨n, -, -, hsleep⟩ := h.asleep c hmem
    rw [hc] at hsleep
    cases hsleep
  · exact hmem

/-- Inserting into the multimap keeps the order of the deadlines, so those that are due are at the
front. -/
theorem pairwise_insertTimeout {node : TimeoutNode} {l : List TimeoutNode}
    (h : l.Pairwise (fun n m => n.deadline ≤ m.deadline)) :
    (insertTimeout node l).Pairwise (fun n m => n.deadline ≤ m.deadline) := by
  induction l with
  | nil => exact List.pairwise_singleton _ _
  | cons m l ih =>
    obtain ⟨hm, hl⟩ := List.pairwise_cons.mp h
    rw [insertTimeout, List.orderedInsert]
    split
    · rename_i hlt
      refine List.pairwise_cons.mpr ⟨?_, h⟩
      intro n hn
      rcases List.mem_cons.mp hn with rfl | hmem
      · exact Int.le_of_lt hlt
      · exact Int.le_trans (Int.le_of_lt hlt) (hm n hmem)
    · rename_i hge
      refine List.pairwise_cons.mpr ⟨?_, ih hl⟩
      intro n hn
      rcases mem_insertTimeout.mp hn with rfl | hmem
      · exact Int.not_lt.mp hge
      · exact hm n hmem

/-- What a wake loop does to a list other than its target. -/
theorem mem_woken_iff {s sched : CoroutineScheduler} {sources : List CoroStatus}
    {target k : CoroStatus} {items : List (ℕ × WakeCause)} {ws : List (CoroutineInfo × WakeCause)}
    (h : s.Sound intact lists) (h' : sched.Sound intact lists')
    (hwoken : Woken s.generation sources target items s.status lists ws sched.status lists')
    (hk : k ≠ target) (c : CoroutineInfo) :
    c ∈ lists' k ↔ c ∈ lists k ∧ c ∉ ws.map Prod.fst := by
  constructor
  · intro hc
    have hkept : c ∉ ws.map Prod.fst := by
      intro hmem
      have hstatus := h'.arranged.status k c hc
      rw [hwoken.status_mem c hmem] at hstatus
      exact hk hstatus.symm
    have hstatus := h'.arranged.status k c hc
    rw [hwoken.status_notMem c hkept] at hstatus
    exact ⟨hstatus ▸ h.arranged.mem_status ((hwoken.same c).mp ⟨k, hc⟩), hkept⟩
  · rintro ⟨hc, hkept⟩
    have hstatus := h.arranged.status k c hc
    rw [← hwoken.status_notMem c hkept] at hstatus
    exact hstatus ▸ h'.arranged.mem_status ((hwoken.same c).mpr ⟨k, hc⟩)

/-- Suspensions after a wake loop that keeps the nodes of those who sleep on. -/
theorem Tracked.wake {sched : CoroutineScheduler} {phase : MainPhase} {sources : List CoroStatus}
    {target : CoroStatus} {items : List (ℕ × WakeCause)} {ws : List (CoroutineInfo × WakeCause)}
    (h : Tracked t lists past) (hs : t.sched.Sound intact lists)
    (hs' : sched.Sound intact lists')
    (hwoken : Woken t.sched.generation sources target items t.sched.status lists ws sched.status
      lists') (htarget : target = .active ∨ target = .avail)
    (hterminal : sched.terminal = t.sched.terminal)
    (hself : ∀ i ∈ sched.needActiveCoroId, i ∈ t.sched.needActiveCoroId)
    (hnoted : ∀ c, c ∉ ws.map Prod.fst → suspension c past = some (.yield true) →
      c.uid ∈ t.sched.needActiveCoroId → c.uid ∈ sched.needActiveCoroId)
    (hhonest : sched.needActiveCoroId = [] ∨
      (∀ loop, t.phase ≠ .bySelf loop) ∧ ∃ loop, phase = .bySelf loop)
    (hcleared : ∀ loop, phase = .byPut loop → sched.needActiveCoroId = [])
    (hsub : sched.timeoutCoroId.Sublist t.sched.timeoutCoroId)
    (hkeep : ∀ c ∈ lists .timeout, c ∉ ws.map Prod.fst → ∀ n ∈ t.sched.timeoutCoroId,
      n.coroId = c.uid → n ∈ sched.timeoutCoroId)
    (hnode : sched.nextNode = t.sched.nextNode) :
    Tracked ⟨sched, phase⟩ lists' (past ++ ws.map fun w => .woken w.1 w.2) := by
  have htimeout := mem_woken_iff hs hs' hwoken (k := .timeout)
    (by rcases htarget with rfl | rfl <;> decide)
  have hinactive := mem_woken_iff hs hs' hwoken (k := .inactive)
    (by rcases htarget with rfl | rfl <;> decide)
  refine ⟨?_, ?_, ?_, ?_, ?_, fun _ => hcleared, h.sorted.sublist hsub, ?_⟩
  · intro c hc
    obtain ⟨hold, hkept⟩ := (htimeout c).mp hc
    obtain ⟨n, hn, huid, hsleep⟩ := h.asleep c hold
    refine ⟨n, hkeep c hold hkept n hn huid, huid, ?_⟩
    rw [suspension_woken, if_neg hkept, hsleep]
  · intro c hc
    obtain ⟨hold, hkept⟩ := (hinactive c).mp hc
    obtain ⟨bFlag, hyield⟩ := h.inactive c hold
    refine ⟨bFlag, ?_⟩
    rw [suspension_woken, if_neg hkept, hyield]
  · intro c hnotTimeout hnotInactive
    rw [suspension_woken]
    split
    · rfl
    · rename_i hkept
      apply h.awake c
      · intro hold
        exact hnotTimeout ((htimeout c).mpr ⟨hold, hkept⟩)
      · intro hold
        exact hnotInactive ((hinactive c).mpr ⟨hold, hkept⟩)
  · intro hrun c hc
    rw [suspension_woken] at hc
    split at hc
    · cases hc
    · rename_i hkept
      exact hnoted c hkept hc (h.noted (hterminal ▸ hrun) c hc)
  · intro hrun c hon hmem
    rcases hhonest with hempty | ⟨hphase, hnext⟩
    · rw [show sched.needActiveCoroId = [] from hempty] at hmem
      cases hmem
    · have hold := h.honest (hterminal ▸ hrun) c ((hwoken.same c).mp hon) (hself _ hmem)
      rw [suspension_woken]
      split
      · exact .inr ⟨rfl, hnext⟩
      · rcases hold with hyield | ⟨-, loop, hbad⟩
        · exact .inl hyield
        · exact absurd hbad (hphase loop)
  · intro n hn
    rw [hnode]
    exact h.older n (hsub.subset hn)

/-- A coroutine that can run is not suspended: whoever woke it has ended its suspension. -/
theorem Tracked.suspension_eq_none {c : CoroutineInfo} {k : CoroStatus} (h : Tracked t lists past)
    (hs : Sound intact t lists) (hmem : c ∈ lists k) (hk : k = .active ∨ k = .avail) :
    suspension c past = none := by
  have hstatus := hs.sched.arranged.status k c hmem
  apply h.awake c
  · intro hbad
    rw [hs.sched.arranged.status .timeout c hbad] at hstatus
    rcases hk with rfl | rfl <;> cases hstatus
  · intro hbad
    rw [hs.sched.arranged.status .inactive c hbad] at hstatus
    rcases hk with rfl | rfl <;> cases hstatus

/-- Suspensions after the running coroutine left its list: its own one is new, and the others are as
they were. -/
theorem Tracked.leave {sched : CoroutineScheduler} {c : CoroutineInfo} {k target : CoroStatus}
    {o : CoroOutput} (h : Tracked t lists past) (hs : Sound intact t lists)
    (hc : t.sched.currentCoro = some c) (hmem : c ∈ lists k) (hk : k = .active ∨ k = .avail)
    (hother : ∀ d, d ≠ c → suspension d (past ++ [o]) = suspension d past)
    (hinactive : target = .inactive → ∃ bFlag, suspension c (past ++ [o]) = some (.yield bFlag))
    (htimeout : target = .timeout → ∃ n ∈ sched.timeoutCoroId,
      n.coroId = c.uid ∧ suspension c (past ++ [o]) = some (.sleep n.node))
    (hfree : target ≠ .inactive → target ≠ .timeout → suspension c (past ++ [o]) = none)
    (hterminal : sched.terminal = t.sched.terminal)
    (hself : sched.needActiveCoroId = t.sched.needActiveCoroId ∧
        suspension c (past ++ [o]) ≠ some (.yield true) ∨
      t.sched.terminal = true ∨
      sched.needActiveCoroId = t.sched.needActiveCoroId ++ [c.uid] ∧
        suspension c (past ++ [o]) = some (.yield true))
    (hnodes : ∀ n ∈ t.sched.timeoutCoroId, n ∈ sched.timeoutCoroId)
    (hsorted : sched.timeoutCoroId.Pairwise (fun n m => n.deadline ≤ m.deadline))
    (holder : ∀ n ∈ sched.timeoutCoroId, n.node < sched.nextNode) :
    Tracked ⟨sched, t.phase⟩ (append (remove lists k c) target c) (past ++ [o]) := by
  have hlists (j : CoroStatus) (d : CoroutineInfo) :
      d ∈ append (remove lists k c) target c j ↔ d ∈ lists j ∧ d ≠ c ∨ j = target ∧ d = c := by
    rw [mem_append_iff, hs.sched.arranged.represents.mem_remove_iff hmem]
  have hphase : (∀ loop, t.phase ≠ .bySelf loop) ∧ ∀ loop, t.phase ≠ .byPut loop := by
    obtain ⟨j, hlist, -⟩ := hs.running c hc
    constructor <;> intro loop hbad <;> rw [hbad] at hlist <;> cases hlist
  have hnotNoted : t.sched.terminal = false → c.uid ∉ t.sched.needActiveCoroId := by
    intro hrun hin
    have hawake := h.suspension_eq_none hs hmem hk
    rcases h.honest hrun c ⟨k, hmem⟩ hin with hyield | ⟨-, loop, hbad⟩
    · rw [hawake] at hyield
      cases hyield
    · exact hphase.1 loop hbad
  refine ⟨?_, ?_, ?_, ?_, ?_, ?_, hsorted, holder⟩
  · intro d hd
    rcases (hlists _ d).mp hd with ⟨hold, hne⟩ | ⟨htarget, rfl⟩
    · obtain ⟨n, hn, huid, hsleep⟩ := h.asleep d hold
      exact ⟨n, hnodes n hn, huid, by rw [hother d hne, hsleep]⟩
    · exact htimeout htarget.symm
  · intro d hd
    rcases (hlists _ d).mp hd with ⟨hold, hne⟩ | ⟨htarget, rfl⟩
    · obtain ⟨bFlag, hyield⟩ := h.inactive d hold
      exact ⟨bFlag, by rw [hother d hne, hyield]⟩
    · exact hinactive htarget.symm
  · intro d hnotTimeout hnotInactive
    rw [hlists] at hnotTimeout hnotInactive
    by_cases hd : d = c
    · subst hd
      apply hfree
      · rintro rfl
        exact hnotInactive (.inr ⟨rfl, rfl⟩)
      · rintro rfl
        exact hnotTimeout (.inr ⟨rfl, rfl⟩)
    · rw [hother d hd]
      apply h.awake d
      · intro hold
        exact hnotTimeout (.inl ⟨hold, hd⟩)
      · intro hold
        exact hnotInactive (.inl ⟨hold, hd⟩)
  · intro hrun d hyield
    have hrun' : t.sched.terminal = false := hterminal ▸ hrun
    rcases hself with ⟨heq, hne⟩ | hbad | ⟨heq, -⟩
    · have hd : d ≠ c := by
        rintro rfl
        exact hne hyield
      rw [hother d hd] at hyield
      exact heq ▸ h.noted hrun' d hyield
    · rw [hrun'] at hbad
      cases hbad
    · show d.uid ∈ sched.needActiveCoroId
      rw [heq]
      by_cases hd : d = c
      · subst hd
        simp
      · rw [hother d hd] at hyield
        exact List.mem_append_left _ (h.noted hrun' d hyield)
  · intro hrun d hon hin
    have hrun' : t.sched.terminal = false := hterminal ▸ hrun
    have hon' : ∃ j, d ∈ lists j := by
      obtain ⟨j, hj⟩ := hon
      rcases (hlists j d).mp hj with ⟨hold, -⟩ | ⟨-, rfl⟩
      · exact ⟨j, hold⟩
      · exact ⟨k, hmem⟩
    have hcase : d = c ∧ suspension c (past ++ [o]) = some (.yield true) ∨
        d ≠ c ∧ d.uid ∈ t.sched.needActiveCoroId := by
      have hin' : d.uid ∈ sched.needActiveCoroId := hin
      rcases hself with ⟨heq, -⟩ | hbad | ⟨heq, hyield⟩
      · rw [heq] at hin'
        refine .inr ⟨?_, hin'⟩
        rintro rfl
        exact hnotNoted hrun' hin'
      · rw [hrun'] at hbad
        cases hbad
      · rw [heq] at hin'
        by_cases hd : d = c
        · exact .inl ⟨hd, hyield⟩
        · refine .inr ⟨hd, ?_⟩
          rcases List.mem_append.mp hin' with hold | hnew
          · exact hold
          · have huid := List.mem_singleton.mp hnew
            refine absurd ?_ hd
            rw [hs.sched.eq_of_mem hon', hs.sched.eq_of_mem ⟨k, hmem⟩, huid]
    rcases hcase with ⟨rfl, hyield⟩ | ⟨hd, hold⟩
    · exact .inl hyield
    · rcases h.honest hrun' d hon' hold with hyield | ⟨-, loop, hbad⟩
      · exact .inl (by rw [hother d hd, hyield])
      · exact absurd hbad (hphase.1 loop)
  · intro _ loop hbad
    exact absurd hbad (hphase.2 loop)

/-- Suspensions after a step that neither suspends nor wakes anyone. -/
theorem Tracked.pass {sched : CoroutineScheduler} {phase : MainPhase} {o : List CoroOutput}
    (h : Tracked t lists past) (htimeout : lists' .timeout = lists .timeout)
    (hinactive : lists' .inactive = lists .inactive)
    (hsame : ∀ c, suspension c (past ++ o) = suspension c past)
    (hself : sched.needActiveCoroId = t.sched.needActiveCoroId)
    (htimers : sched.timeoutCoroId = t.sched.timeoutCoroId)
    (hnode : sched.nextNode = t.sched.nextNode)
    (hterminal : sched.terminal = false → t.sched.terminal = false)
    (hon : ∀ c, (∃ k, c ∈ lists' k) → c.uid ∈ t.sched.needActiveCoroId → ∃ k, c ∈ lists k)
    (hphase : sched.terminal = false → phase = t.phase ∨
      (∀ loop, t.phase ≠ .bySelf loop) ∧ ∀ loop, phase ≠ .byPut loop) :
    Tracked ⟨sched, phase⟩ lists' (past ++ o) := by
  refine ⟨?_, ?_, ?_, ?_, ?_, ?_, htimers ▸ h.sorted, ?_⟩
  · intro c hc
    rw [htimeout] at hc
    rw [hsame]
    exact htimers ▸ h.asleep c hc
  · intro c hc
    rw [hinactive] at hc
    rw [hsame]
    exact h.inactive c hc
  · intro c hnotTimeout hnotInactive
    rw [hsame]
    exact h.awake c (htimeout ▸ hnotTimeout) (hinactive ▸ hnotInactive)
  · intro hrun c hyield
    rw [hsame] at hyield
    exact hself ▸ h.noted (hterminal hrun) c hyield
  · intro hrun c hc hin
    have hin' : c.uid ∈ t.sched.needActiveCoroId := hself ▸ hin
    rw [hsame]
    refine (h.honest (hterminal hrun) c (hon c hc hin') hin').imp_right fun ⟨hnone, hbad⟩ => ?_
    rcases hphase hrun with rfl | ⟨hnot, -⟩
    · exact ⟨hnone, hbad⟩
    · obtain ⟨loop, hloop⟩ := hbad
      exact absurd hloop (hnot loop)
  · intro hrun loop hput
    show sched.needActiveCoroId = []
    rw [hself]
    rcases hphase hrun with rfl | ⟨-, hnot⟩
    · exact h.cleared (hterminal hrun) loop hput
    · exact absurd hput (hnot loop)
  · intro n hn
    have hn' : n ∈ t.sched.timeoutCoroId := htimers ▸ hn
    show n.node < sched.nextNode
    rw [hnode]
    exact h.older n hn'

/-- A node that is not dropped with the due ones. -/
theorem mem_dropWhile_of_not_due {iNow : ℤ} {n : TimeoutNode} {l : List TimeoutNode} (hn : n ∈ l)
    (hnot : n ∉ l.takeWhile (fun n => n.deadline ≤ iNow)) :
    n ∈ l.dropWhile (fun n => n.deadline ≤ iNow) := by
  rw [← List.takeWhile_append_dropWhile (p := fun n : TimeoutNode => n.deadline ≤ iNow) (l := l),
    List.mem_append] at hn
  exact hn.resolve_left hnot

/-- **Every transition keeps track of the suspensions.** Only the running coroutine begins one, and
only a wake function ends one. -/
theorem Tracked.step {e : CoroEvent} (h : Tracked t lists past) (hs : Sound intact t lists)
    (hs' : Sound intact t' lists') (htrans : Transition t lists e t' lists' out) :
    Tracked t' lists' (past ++ out) := by
  have hon : ∀ c, (∃ k, c ∈ lists k) → c.uid ∈ t.sched.needActiveCoroId → ∃ k, c ∈ lists k :=
    fun _ hc _ => hc
  cases htrans with
  | created iId hagenda hcreated =>
    refine h.pass (hcreated.others _ (by decide) (by decide))
      (hcreated.others _ (by decide) (by decide)) (fun _ => suspension_concat _)
      (congrArg Agenda.needActiveCoroId hagenda) (congrArg Agenda.timeoutCoroId hagenda)
      (congrArg Agenda.nextNode hagenda) ?_ ?_ (fun _ => .inl rfl)
    · intro hrun
      exact (congrArg Agenda.terminal hagenda).symm.trans hrun
    · intro c hc hin
      have hgen : c.generation = t.sched.generation :=
        (hs'.sched.pool c hc).1.trans (congrArg Agenda.generation hagenda)
      obtain ⟨-, k, hk⟩ := hs.sched.lookup_eq (hs.sched.self _ hin)
      rw [← hgen] at hk
      exact ⟨k, hk⟩
  | @yielded sched c k bFlag hc hmem hk hagenda =>
    have hself : sched.needActiveCoroId = if bFlag = true ∧ t.sched.terminal = false
        then t.sched.needActiveCoroId ++ [c.uid] else t.sched.needActiveCoroId :=
      congrArg Agenda.needActiveCoroId hagenda
    have hnodes : sched.timeoutCoroId = t.sched.timeoutCoroId :=
      congrArg Agenda.timeoutCoroId hagenda
    refine h.leave hs hc hmem hk (fun d hd => suspension_other hd)
      (fun _ => ⟨bFlag, suspension_self⟩) (fun hbad => by cases hbad) (fun hbad => absurd rfl hbad)
      (congrArg Agenda.terminal hagenda) ?_ (fun n hn => hnodes ▸ hn) (hnodes ▸ h.sorted) ?_
    · cases bFlag with
      | false => exact .inl ⟨by simpa using hself, by rw [suspension_self]; simp⟩
      | true =>
        cases hterminal : t.sched.terminal with
        | true => exact .inr (.inl rfl)
        | false =>
          rw [hterminal] at hself
          exact .inr (.inr ⟨by simpa using hself, suspension_self⟩)
    · intro n hn
      rw [show sched.nextNode = t.sched.nextNode from congrArg Agenda.nextNode hagenda]
      exact h.older n (hnodes ▸ hn)
  | @slept sched c k iSleepTime iNow hc hmem hk hagenda =>
    have hself : sched.needActiveCoroId = t.sched.needActiveCoroId :=
      congrArg Agenda.needActiveCoroId hagenda
    have hnodes : sched.timeoutCoroId =
        insertTimeout ⟨t.sched.nextNode, iNow + sleepTime iSleepTime, c.uid⟩
          t.sched.timeoutCoroId :=
      congrArg Agenda.timeoutCoroId hagenda
    refine h.leave hs hc hmem hk (fun d hd => suspension_other hd) (fun hbad => by cases hbad)
      (fun _ => ⟨_, hnodes ▸ mem_insertTimeout.mpr (.inl rfl), rfl, suspension_self⟩)
      (fun _ hbad => absurd rfl hbad) (congrArg Agenda.terminal hagenda)
      (.inl ⟨hself, by rw [suspension_self]; simp⟩)
      (fun n hn => hnodes ▸ mem_insertTimeout.mpr (.inr hn))
      (hnodes ▸ pairwise_insertTimeout h.sorted) ?_
    intro n hn
    rw [show sched.nextNode = t.sched.nextNode + 1 from congrArg Agenda.nextNode hagenda]
    rw [hnodes] at hn
    rcases mem_insertTimeout.mp hn with rfl | hold
    · exact Nat.lt_succ_self _
    · exact Nat.lt_succ_of_lt (h.older n hold)
  | @finished sched c k hc hmem hk hagenda =>
    have hself : sched.needActiveCoroId = t.sched.needActiveCoroId :=
      congrArg Agenda.needActiveCoroId hagenda
    have hnodes : sched.timeoutCoroId = t.sched.timeoutCoroId :=
      congrArg Agenda.timeoutCoroId hagenda
    have hsame (d : CoroutineInfo) : suspension d (past ++ [.finished c]) = suspension d past :=
      suspension_concat _
    have hawake := h.suspension_eq_none hs hmem hk
    refine h.leave hs hc hmem hk (fun d _ => hsame d) (fun hbad => by cases hbad)
      (fun hbad => by cases hbad) (fun _ _ => (hsame c).trans hawake)
      (congrArg Agenda.terminal hagenda)
      (.inl ⟨hself, by rw [hsame, hawake]; simp⟩) (fun n hn => hnodes ▸ hn) (hnodes ▸ h.sorted) ?_
    intro n hn
    rw [show sched.nextNode = t.sched.nextNode from congrArg Agenda.nextNode hagenda]
    exact h.older n (hnodes ▸ hn)
  | put iCoroId hid =>
    rw [CoroutineScheduler.put]
    split
    · exact h.pass rfl rfl (fun _ => by rw [List.append_nil]) rfl rfl rfl id hon
        (fun _ => .inl rfl)
    · exact h.pass rfl rfl (fun _ => by rw [List.append_nil]) rfl rfl rfl id hon
        (fun _ => .inl rfl)
  | terminated =>
    exact h.pass rfl rfl (fun _ => by rw [List.append_nil]) rfl rfl rfl (fun hbad => by cases hbad)
      hon (fun _ => .inl rfl)
  | passed hc _ hself hput =>
    exact h.pass rfl rfl (fun _ => by rw [List.append_nil]) rfl rfl rfl id hon
      (fun _ => .inr ⟨hself, hput⟩)
  | skipped hc hterminal =>
    refine h.pass rfl rfl (fun _ => by rw [List.append_nil]) rfl rfl rfl id hon fun hrun => ?_
    rw [hterminal] at hrun
    cases hrun
  | @timers sched lists' ws loop iNow hc hrun hphase hwoken hagenda =>
    have hnodes : sched.timeoutCoroId =
        t.sched.timeoutCoroId.dropWhile (fun n => n.deadline ≤ iNow) :=
      congrArg Agenda.timeoutCoroId hagenda
    have hself : sched.needActiveCoroId = t.sched.needActiveCoroId :=
      congrArg Agenda.needActiveCoroId hagenda
    refine h.wake hs.sched hs'.sched hwoken (.inl rfl) (congrArg Agenda.terminal hagenda)
      (fun i hi => hself ▸ hi) (fun c _ _ hin => hself ▸ hin)
      (.inr ⟨by simp [hphase], loop, rfl⟩) (by simp) (hnodes ▸ List.dropWhile_sublist _) ?_
      (congrArg Agenda.nextNode hagenda)
    intro c hmem hkept n hn huid
    rw [hnodes]
    apply mem_dropWhile_of_not_due hn
    intro hdue
    apply hkept
    rw [hwoken.mem_iff]
    refine ⟨?_, (n.coroId, .timer n.node), List.mem_map_of_mem hdue, ?_⟩
    · rw [hs.sched.arranged.status .timeout c hmem]
      decide
    · rw [huid]
      exact hs.sched.eq_of_mem ⟨.timeout, hmem⟩
  | @selves sched lists' ws loop hc hrun hphase hwoken hagenda =>
    have hself : sched.needActiveCoroId = [] := congrArg Agenda.needActiveCoroId hagenda
    have hnodes : sched.timeoutCoroId = t.sched.timeoutCoroId :=
      congrArg Agenda.timeoutCoroId hagenda
    refine h.wake hs.sched hs'.sched hwoken (.inr rfl) (congrArg Agenda.terminal hagenda)
      (fun i hi => by rw [hself] at hi; cases hi) ?_ (.inl hself) (fun _ _ => hself)
      (hnodes ▸ List.Sublist.refl _) (fun c _ _ n hn _ => hnodes ▸ hn)
      (congrArg Agenda.nextNode hagenda)
    intro c hkept hyield hin
    have hmem : c ∈ lists .inactive := h.mem_inactive hyield
    refine absurd ((hwoken.mem_iff c).mpr ⟨?_, (c.uid, .self), List.mem_map_of_mem hin, ?_⟩) hkept
    · rw [hs.sched.arranged.status .inactive c hmem]
      decide
    · exact hs.sched.eq_of_mem ⟨_, hmem⟩
  | @puts sched lists' ws loop hc hrun hphase hwoken hagenda =>
    have hself : sched.needActiveCoroId = t.sched.needActiveCoroId :=
      congrArg Agenda.needActiveCoroId hagenda
    have hnodes : sched.timeoutCoroId = t.sched.timeoutCoroId :=
      congrArg Agenda.timeoutCoroId hagenda
    exact h.wake hs.sched hs'.sched hwoken (.inl rfl) (congrArg Agenda.terminal hagenda)
      (fun i hi => hself ▸ hi) (fun c _ _ hin => hself ▸ hin)
      (.inl (hself.trans (h.cleared hrun loop hphase))) (by simp)
      (hnodes ▸ List.Sublist.refl _) (fun c _ _ n hn _ => hnodes ▸ hn)
      (congrArg Agenda.nextNode hagenda)
  | resumed c hc hlist hphase hhead =>
    refine h.pass rfl rfl (fun _ => suspension_concat _) rfl rfl rfl id hon fun _ => .inr ⟨?_, ?_⟩
    · intro loop hbad
      rw [hbad] at hlist
      cases hlist
    · intro loop hbad
      rw [hbad] at hphase
      cases hphase

/-- After `init` nobody is suspended, and nobody has a node. -/
theorem start_tracked {iPoolSize : UInt32} {alloc : ℕ → Bool} {s : CoroutineScheduler}
    (hinit : new.init iPoolSize alloc = some s) :
    ∃ lists, Sound False (start s) lists ∧ Tracked (start s) lists [] := by
  obtain ⟨lists, generation, hsound, hempty, hagenda⟩ :
      ∃ lists generation, CoroutineScheduler.Sound False s lists ∧
        (∀ k, k ≠ .free → lists k = []) ∧ s.agenda = { new.agenda with
          generation, poolSize := if iPoolSize = 0 then 1000 else iPoolSize.toNat } :=
    CoroutineScheduler.Sound.init hinit
  have hcurrent : s.currentCoro = none := congrArg Agenda.currentCoro hagenda
  have hself : s.needActiveCoroId = [] := congrArg Agenda.needActiveCoroId hagenda
  have hnodes : s.timeoutCoroId = [] := congrArg Agenda.timeoutCoroId hagenda
  refine ⟨lists, .of_main hsound hcurrent, ?_⟩
  constructor
  · intro c hc
    rw [hempty _ (by decide)] at hc
    cases hc
  · intro c hc
    rw [hempty _ (by decide)] at hc
    cases hc
  · intro c _ _
    rfl
  · intro _ c hc
    cases hc
  · intro _ c _ hin
    rw [start, hself] at hin
    cases hin
  · intro _ loop hbad
    cases hbad
  · rw [start, hnodes]
    exact List.Pairwise.nil
  · intro n hn
    rw [start, hnodes] at hn
    cases hn

/-- **Every run keeps track of the suspensions**, whatever stack allocations fail. -/
theorem run_tracked {iPoolSize : UInt32} {alloc : ℕ → Bool} {s : CoroutineScheduler}
    {script : List CoroEvent} (hinit : new.init iPoolSize alloc = some s)
    (hexec : Scripts.exec step (start s) script = some (t, out)) :
    ∃ lists, Sound False t lists ∧ Tracked t lists out := by
  refine Scripts.exec_keeps
    (I := fun t past => ∃ lists, Sound False t lists ∧ Tracked t lists past) ?_
    (start_tracked hinit) hexec
  rintro t e t' out past ⟨lists, hs, h⟩ hstep
  obtain ⟨lists', htrans, hs'⟩ := hs.step (fun hbad => hbad.elim) hstep
  exact ⟨lists', hs', h.step hs hs' htrans⟩

/-! ### What a script asks for -/

/-- The ids that have been put and not yet handed out, after one more step. -/
def notePut (ids : List ℕ) : CoroEvent → List ℕ
  | .put iCoroId => ids ++ [iCoroId]
  | .wakeup => []
  | _ => ids

/-- The ids that the puts of a script brought since its last `wakeup`. -/
def pendingPuts (script : List CoroEvent) : List ℕ := script.foldl notePut []

/-- The deadlines of the calls of `sleep` in a script. The call number `k` makes the node `k`. -/
def sleepDeadlines (script : List CoroEvent) : List ℤ := script.filterMap CoroEvent.deadline

/-- One more step of a script changes the pending ids as `notePut` says. -/
theorem pendingPuts_concat (script : List CoroEvent) (e : CoroEvent) :
    pendingPuts (script ++ [e]) = notePut (pendingPuts script) e := by
  rw [pendingPuts, List.foldl_append]
  rfl

/-- A step that is no call of `sleep` adds no deadline. -/
theorem sleepDeadlines_concat_none {script : List CoroEvent} {e : CoroEvent}
    (h : e.deadline = none) : sleepDeadlines (script ++ [e]) = sleepDeadlines script := by
  rw [sleepDeadlines, List.filterMap_append, List.filterMap_cons_none h, List.filterMap_nil,
    List.append_nil]
  rfl

/-- A call of `sleep` adds its deadline behind the others. -/
theorem sleepDeadlines_concat_some {script : List CoroEvent} {e : CoroEvent} {deadline : ℤ}
    (h : e.deadline = some deadline) :
    sleepDeadlines (script ++ [e]) = sleepDeadlines script ++ [deadline] := by
  rw [sleepDeadlines, List.filterMap_append, List.filterMap_cons_some h, List.filterMap_nil]
  rfl

/-- The scheduler remembers what the script has asked for: until it is terminated the queue holds
the ids of all pending puts, and every node has the deadline of the call that made it. -/
structure Recorded (t : CoroThread) (script : List CoroEvent) : Prop where
  /-- No put is dropped. -/
  queue : t.sched.terminal = false → t.sched.activeCoroQueue = pendingPuts script
  /-- Nodes are numbered by the calls of `sleep`. -/
  count : t.sched.nextNode = (sleepDeadlines script).length
  /-- A node has the deadline of its call. -/
  deadline : ∀ n ∈ t.sched.timeoutCoroId, (sleepDeadlines script)[n.node]? = some n.deadline

/-- A step that is no call of `sleep` keeps the record if it changes the queue as its event says
and adds no node. -/
theorem Recorded.keep {sched : CoroutineScheduler} {phase : MainPhase} {script : List CoroEvent}
    {e : CoroEvent} (h : Recorded t script)
    (hqueue : sched.terminal = false → t.sched.terminal = false ∧
      sched.activeCoroQueue = notePut t.sched.activeCoroQueue e)
    (hevent : e.deadline = none) (hnode : sched.nextNode = t.sched.nextNode)
    (hsub : ∀ n ∈ sched.timeoutCoroId, n ∈ t.sched.timeoutCoroId) :
    Recorded ⟨sched, phase⟩ (script ++ [e]) := by
  constructor
  · intro hrun
    obtain ⟨hold, hnext⟩ := hqueue hrun
    rw [pendingPuts_concat, ← h.queue hold]
    exact hnext
  · rw [sleepDeadlines_concat_none hevent, ← h.count]
    exact hnode
  · intro n hn
    rw [sleepDeadlines_concat_none hevent]
    exact h.deadline n (hsub n hn)

/-- A step that is neither a put nor a call of `sleep` keeps the record if it changes neither the
queue nor the nodes. -/
theorem Recorded.same {sched : CoroutineScheduler} {phase : MainPhase} {script : List CoroEvent}
    {e : CoroEvent} (h : Recorded t script) (hevent : e.deadline = none)
    (hnote : notePut t.sched.activeCoroQueue e = t.sched.activeCoroQueue)
    (hterminal : sched.terminal = t.sched.terminal)
    (hqueue : sched.activeCoroQueue = t.sched.activeCoroQueue)
    (hnode : sched.nextNode = t.sched.nextNode)
    (hnodes : sched.timeoutCoroId = t.sched.timeoutCoroId) :
    Recorded ⟨sched, phase⟩ (script ++ [e]) :=
  h.keep (fun hrun => ⟨hterminal.symm.trans hrun, hqueue.trans hnote.symm⟩) hevent hnode
    fun _ hn => hnodes ▸ hn

/-- **Every transition records its event**: puts are queued, and deadlines are kept. -/
theorem Recorded.step {e : CoroEvent} {script : List CoroEvent} (h : Recorded t script)
    (htrans : Transition t lists e t' lists' out) : Recorded t' (script ++ [e]) := by
  cases htrans with
  | @created alloc sched lists' iId hagenda =>
    exact h.same rfl rfl (congrArg Agenda.terminal hagenda)
      (congrArg Agenda.activeCoroQueue hagenda) (congrArg Agenda.nextNode hagenda)
      (congrArg Agenda.timeoutCoroId hagenda)
  | @yielded sched c k bFlag hcurrent hc hk hagenda =>
    exact h.same rfl rfl (congrArg Agenda.terminal hagenda)
      (congrArg Agenda.activeCoroQueue hagenda) (congrArg Agenda.nextNode hagenda)
      (congrArg Agenda.timeoutCoroId hagenda)
  | @finished sched c k hcurrent hc hk hagenda =>
    exact h.same rfl rfl (congrArg Agenda.terminal hagenda)
      (congrArg Agenda.activeCoroQueue hagenda) (congrArg Agenda.nextNode hagenda)
      (congrArg Agenda.timeoutCoroId hagenda)
  | @slept sched c k iSleepTime iNow hcurrent hc hk hagenda =>
    have hnodes : sched.timeoutCoroId =
        insertTimeout ⟨t.sched.nextNode, iNow + sleepTime iSleepTime, c.uid⟩
          t.sched.timeoutCoroId := congrArg Agenda.timeoutCoroId hagenda
    have hnext : sched.nextNode = t.sched.nextNode + 1 := congrArg Agenda.nextNode hagenda
    have hdeadlines : sleepDeadlines (script ++ [.sleep iSleepTime iNow]) =
        sleepDeadlines script ++ [iNow + sleepTime iSleepTime] := sleepDeadlines_concat_some rfl
    constructor
    · intro hrun
      rw [pendingPuts_concat, show sched.activeCoroQueue = t.sched.activeCoroQueue from
        congrArg Agenda.activeCoroQueue hagenda]
      exact h.queue ((congrArg Agenda.terminal hagenda).symm.trans hrun)
    · rw [hdeadlines, List.length_append, ← h.count]
      exact hnext
    · intro n hn
      rw [hdeadlines]
      rcases mem_insertTimeout.mp (hnodes ▸ hn) with rfl | hold
      · rw [List.getElem?_append_right (Nat.le_of_eq h.count.symm), h.count, Nat.sub_self]
        rfl
      · obtain ⟨hlt, -⟩ := List.getElem?_eq_some_iff.mp (h.deadline n hold)
        rw [List.getElem?_append_left hlt]
        exact h.deadline n hold
  | put iCoroId hid =>
    -- After termination the id is dropped, and nothing is said of the queue.
    rw [CoroutineScheduler.put]
    split
    · rename_i hterminal
      refine h.keep (fun hrun => ?_) rfl rfl (fun n hn => hn)
      rw [hterminal] at hrun
      cases hrun
    · exact h.keep (fun hrun => ⟨hrun, rfl⟩) rfl rfl (fun n hn => hn)
  | terminated => exact h.keep (fun hbad => by cases hbad) rfl rfl (fun n hn => hn)
  | passed hcurrent hevent =>
    rcases hevent with rfl | ⟨loop, rfl⟩
    · exact h.keep (fun hrun => ⟨hrun, rfl⟩) rfl rfl (fun n hn => hn)
    · exact h.keep (fun hrun => ⟨hrun, rfl⟩) rfl rfl (fun n hn => hn)
  | skipped hcurrent hterminal hevent =>
    refine h.keep (fun hrun => ?_) hevent rfl (fun n hn => hn)
    rw [hterminal] at hrun
    cases hrun
  | @timers sched lists' ws loop iNow hcurrent hrun hphase hwoken hagenda =>
    have hnodes : sched.timeoutCoroId =
        t.sched.timeoutCoroId.dropWhile (fun n => n.deadline ≤ iNow) :=
      congrArg Agenda.timeoutCoroId hagenda
    exact h.keep (fun _ => ⟨hrun, congrArg Agenda.activeCoroQueue hagenda⟩) rfl
      (congrArg Agenda.nextNode hagenda)
      fun n hn => (List.dropWhile_sublist _).subset (hnodes ▸ hn)
  | @selves sched lists' ws loop hcurrent hrun hphase hwoken hagenda =>
    exact h.same rfl rfl (congrArg Agenda.terminal hagenda)
      (congrArg Agenda.activeCoroQueue hagenda) (congrArg Agenda.nextNode hagenda)
      (congrArg Agenda.timeoutCoroId hagenda)
  | @puts sched lists' ws loop hcurrent hrun hphase hwoken hagenda =>
    have hnodes : sched.timeoutCoroId = t.sched.timeoutCoroId :=
      congrArg Agenda.timeoutCoroId hagenda
    exact h.keep (fun _ => ⟨hrun, congrArg Agenda.activeCoroQueue hagenda⟩) rfl
      (congrArg Agenda.nextNode hagenda) fun n hn => hnodes ▸ hn
  | resumed c => exact h.keep (fun hrun => ⟨hrun, rfl⟩) rfl rfl (fun n hn => hn)

/-- **Every run records its script**: the queue of a scheduler that goes on holds exactly the ids
that were put since the last `wakeup`, and the nodes hold the deadlines of the sleeps. -/
theorem run_recorded {iPoolSize : UInt32} {alloc : ℕ → Bool} {s : CoroutineScheduler}
    {script : List CoroEvent} (hinit : new.init iPoolSize alloc = some s)
    (hexec : Scripts.exec step (start s) script = some (t, out)) : Recorded t script := by
  obtain ⟨lists₀, generation, hsound, -, hagenda⟩ :=
    @CoroutineScheduler.Sound.init False _ _ _ hinit
  have hcurrent : s.currentCoro = none := congrArg Agenda.currentCoro hagenda
  have hnodes : s.timeoutCoroId = [] := congrArg Agenda.timeoutCoroId hagenda
  have hstart : Recorded (start s) [] := by
    refine ⟨fun _ => congrArg Agenda.activeCoroQueue hagenda,
      congrArg Agenda.nextNode hagenda, fun n hn => ?_⟩
    rw [start, hnodes] at hn
    cases hn
  refine (Scripts.exec_keeps_script
    (I := fun t script _ => (∃ lists, Sound False t lists) ∧ Recorded t script) ?_
    ⟨⟨lists₀, .of_main hsound hcurrent⟩, hstart⟩ hexec).2
  rintro t e t' out done past ⟨⟨lists, hs⟩, h⟩ hstep
  obtain ⟨lists', htrans, hs'⟩ := hs.step (fun hbad => hbad.elim) hstep
  exact ⟨⟨lists', hs'⟩, h.step htrans⟩

/-! ### No wake-up is lost -/

/-- A coroutine that is on a list of runnable ones. -/
def Runnable (lists : CoroStatus → List CoroutineInfo) (c : CoroutineInfo) : Prop :=
  c ∈ lists .active ∨ c ∈ lists .avail

/-- The wake-up phase at the start of `tars_run`: by time, by their own note, and by puts. -/
def wakePhases (s : CoroutineScheduler) (iNow : ℤ) : Option CoroutineScheduler :=
  match s.wakeupbytimeout iNow with
  | none => none
  | some (s, _) =>
    match s.wakeupbyself with
    | none => none
    | some (s, _) => s.wakeup.map Prod.fst

section Wakeup

variable {generation : ℕ} {sources : List CoroStatus} {target : CoroStatus}
  {items : List (ℕ × WakeCause)} {status status' : CoroutineInfo → CoroStatus}
  {ws : List (CoroutineInfo × WakeCause)} {c : CoroutineInfo}

/-- Those who are woken are runnable, since they are on a list that the main coroutine works
through. -/
theorem runnable_of_mem
    (hwoken : Woken generation sources target items status lists ws status' lists')
    (htarget : target = .active ∨ target = .avail) (hc : c ∈ ws.map Prod.fst) :
    Runnable lists' c := by
  have hmem : c ∈ lists' target := by
    rw [hwoken.target_eq]
    exact List.mem_append_right _ hc
  rcases htarget with rfl | rfl
  · exact .inl hmem
  · exact .inr hmem

/-- A wake loop leaves the runnable coroutines runnable, since it takes coroutines from the other
lists only. -/
theorem Runnable.wake
    (hwoken : Woken generation sources target items status lists ws status' lists')
    (hactive : .active ∉ sources) (havail : .avail ∉ sources) (hc : Runnable lists c) :
    Runnable lists' c := by
  have hkeep (k : CoroStatus) (hk : k ∉ sources) (hmem : c ∈ lists k) : c ∈ lists' k := by
    by_cases htarget : k = target
    · subst htarget
      rw [hwoken.target_eq]
      exact List.mem_append_left _ hmem
    · rwa [hwoken.others k htarget hk]
  rcases hc with hmem | hmem
  · exact .inl (hkeep _ hactive hmem)
  · exact .inr (hkeep _ havail hmem)

/-- A coroutine on a list that a wake loop takes from is woken if its id is among the items. -/
theorem mem_woken_of_listed {s : CoroutineScheduler} {k : CoroStatus} {cause : WakeCause}
    (hs : CoroutineScheduler.Sound intact s lists)
    (hwoken : Woken s.generation sources target items s.status lists ws status' lists')
    (hc : c ∈ lists k) (hk : k ∈ sources) (hitem : (c.uid, cause) ∈ items) :
    c ∈ ws.map Prod.fst := by
  rw [hwoken.mem_iff, hs.arranged.status k c hc]
  exact ⟨hk, (c.uid, cause), hitem, hs.eq_of_mem ⟨k, hc⟩⟩

end Wakeup

/-- A node whose deadline has come is among the due ones. -/
theorem mem_takeWhile_of_sorted {iNow : ℤ} {n : TimeoutNode} {l : List TimeoutNode}
    (hsorted : l.Pairwise (fun n m => n.deadline ≤ m.deadline)) (hn : n ∈ l)
    (hdue : n.deadline ≤ iNow) : n ∈ l.takeWhile (fun n => n.deadline ≤ iNow) := by
  induction l with
  | nil => cases hn
  | cons m l ih =>
    obtain ⟨hm, hl⟩ := List.pairwise_cons.mp hsorted
    have hfirst : m.deadline ≤ iNow := by
      rcases List.mem_cons.mp hn with rfl | hmem
      · exact hdue
      · exact Int.le_trans (hm n hmem) hdue
    rw [List.takeWhile_cons_of_pos (by simpa using hfirst)]
    rcases List.mem_cons.mp hn with rfl | hmem
    · exact List.mem_cons_self
    · exact List.mem_cons_of_mem _ (ih hl hmem)

/-- **No wake-up is lost.** After the wake-up phase of any state that a run reaches while the
scheduler goes on, every coroutine that yielded for a turn, every one in use whose id was put since
the last `wakeup`, and every one whose `sleep` has reached its deadline is runnable, and so is every
sleeping one with an older node that is due. Those who sleep on have a node with a deadline to
come. What was yielded, put and slept is read off the run itself, not off the containers. -/
theorem no_lost_wakeup {iPoolSize : UInt32} {alloc : ℕ → Bool} {s : CoroutineScheduler}
    {script : List CoroEvent} (hinit : new.init iPoolSize alloc = some s)
    (hexec : Scripts.exec step (start s) script = some (t, out))
    (hrun : t.sched.terminal = false) (iNow : ℤ) :
    ∃ lists s' lists', Arranged t.sched lists ∧ wakePhases t.sched iNow = some s' ∧
      Arranged s' lists' ∧
      (∀ c, suspension c out = some (.yield true) → Runnable lists' c) ∧
      (∀ i ∈ pendingPuts script, ∀ c, t.sched.lookup i = some c → c ∉ lists .free →
        Runnable lists' c) ∧
      (∀ c node deadline, suspension c out = some (.sleep node) →
        (sleepDeadlines script)[node]? = some deadline → deadline ≤ iNow → Runnable lists' c) ∧
      (∀ c ∈ lists .timeout, ∀ n ∈ t.sched.timeoutCoroId, n.coroId = c.uid →
        n.deadline ≤ iNow → Runnable lists' c) ∧
      ∀ c ∈ lists' .timeout, ∃ n ∈ s'.timeoutCoroId, n.coroId = c.uid ∧ iNow < n.deadline := by
  obtain ⟨lists, hs, h⟩ := run_tracked hinit hexec
  have hrecord := run_recorded hinit hexec
  obtain ⟨s₁, lists₁, ws₁, hstep₁, hs₁, hwoken₁, hagenda₁⟩ := hs.sched.wakeupbytimeout hrun iNow
  have hrun₁ : s₁.terminal = false := (congrArg Agenda.terminal hagenda₁).trans hrun
  obtain ⟨s₂, lists₂, ws₂, hstep₂, hs₂, hwoken₂, hagenda₂⟩ := hs₁.wakeupbyself hrun₁
  have hrun₂ : s₂.terminal = false := (congrArg Agenda.terminal hagenda₂).trans hrun₁
  obtain ⟨s₃, lists₃, ws₃, hstep₃, hs₃, hwoken₃, hagenda₃⟩ := hs₂.wakeup hrun₂
  have hself₁ : s₁.needActiveCoroId = t.sched.needActiveCoroId :=
    congrArg Agenda.needActiveCoroId hagenda₁
  have hqueue₂ : s₂.activeCoroQueue = t.sched.activeCoroQueue :=
    (congrArg Agenda.activeCoroQueue hagenda₂).trans (congrArg Agenda.activeCoroQueue hagenda₁)
  have hnodes₁ : s₁.timeoutCoroId =
      t.sched.timeoutCoroId.dropWhile (fun n => n.deadline ≤ iNow) :=
    congrArg Agenda.timeoutCoroId hagenda₁
  have hnodes₂ : s₂.timeoutCoroId = s₁.timeoutCoroId := congrArg Agenda.timeoutCoroId hagenda₂
  have hnodes₃ : s₃.timeoutCoroId = s₂.timeoutCoroId := congrArg Agenda.timeoutCoroId hagenda₃
  have hlast {c : CoroutineInfo} : Runnable lists₂ c → Runnable lists₃ c :=
    Runnable.wake hwoken₃ (by decide) (by decide)
  have hlater {c : CoroutineInfo} (hc : Runnable lists₁ c) : Runnable lists₃ c :=
    hlast (hc.wake hwoken₂ (by decide) (by decide))
  have hdue {c : CoroutineInfo} (hc : c ∈ lists .timeout) {n : TimeoutNode}
      (hn : n ∈ t.sched.timeoutCoroId) (huid : n.coroId = c.uid) (hcome : n.deadline ≤ iNow) :
      c ∈ ws₁.map Prod.fst := by
    have hitem : (c.uid, .timer n.node) ∈ t.sched.due iNow := huid ▸
      List.mem_map_of_mem (mem_takeWhile_of_sorted h.sorted hn hcome)
    exact mem_woken_of_listed hs.sched hwoken₁ hc (by decide) hitem
  refine ⟨lists, s₃, lists₃, hs.sched.arranged, ?_, hs₃.arranged, ?_, ?_, ?_, ?_, ?_⟩
  · simp only [wakePhases, hstep₁, hstep₂, hstep₃, Option.map_some]
  · intro c hc
    have hinactive := h.mem_inactive hc
    by_cases hw : c ∈ ws₁.map Prod.fst
    · exact hlater (runnable_of_mem hwoken₁ (.inl rfl) hw)
    · have hmem₁ : c ∈ lists₁ .inactive :=
        (mem_woken_iff (k := .inactive) hs.sched hs₁ hwoken₁ (by decide) c).mpr ⟨hinactive, hw⟩
      have hnoted : c.uid ∈ s₁.needActiveCoroId := hself₁ ▸ h.noted hrun c hc
      exact hlast (runnable_of_mem hwoken₂ (.inr rfl)
        (mem_woken_of_listed hs₁ hwoken₂ hmem₁ (by decide) (List.mem_map_of_mem hnoted)))
  · intro i hi c hlookup hfree
    rw [← hrecord.queue hrun] at hi
    obtain ⟨rfl, hon⟩ := (hs.sched.lookup i c).mp hlookup
    have hfree₂ : lists₂ .free = lists .free :=
      (hwoken₂.others _ (by decide) (by decide)).trans (hwoken₁.others _ (by decide) (by decide))
    obtain ⟨k, hk⟩ := (hwoken₂.same c).mpr ((hwoken₁.same c).mpr hon)
    have hwake (hsource : k ∈ [CoroStatus.inactive, .timeout]) : Runnable lists₃ c :=
      runnable_of_mem hwoken₃ (.inl rfl)
        (mem_woken_of_listed hs₂ hwoken₃ hk hsource (List.mem_map_of_mem (hqueue₂ ▸ hi)))
    cases k with
    | free => exact absurd (hfree₂ ▸ hk) hfree
    | active => exact hlast (.inl hk)
    | avail => exact hlast (.inr hk)
    | inactive => exact hwake (by decide)
    | timeout => exact hwake (by decide)
  · intro c node deadline hc hdeadline hcome
    have hmem := h.mem_timeout hc
    obtain ⟨n, hn, huid, hsleep⟩ := h.asleep c hmem
    obtain rfl : n.node = node := by
      rw [hc] at hsleep
      exact (Suspension.sleep.inj (Option.some.inj hsleep)).symm
    obtain rfl : n.deadline = deadline :=
      Option.some.inj ((hrecord.deadline n hn).symm.trans hdeadline)
    exact hlater (runnable_of_mem hwoken₁ (.inl rfl) (hdue hmem hn huid hcome))
  · intro c hc n hn huid hcome
    exact hlater (runnable_of_mem hwoken₁ (.inl rfl) (hdue hc hn huid hcome))
  · intro c hc
    have hmem₂ := ((mem_woken_iff (k := .timeout) hs₂ hs₃ hwoken₃ (by decide) c).mp hc).1
    have hmem₁ := ((mem_woken_iff (k := .timeout) hs₁ hs₂ hwoken₂ (by decide) c).mp hmem₂).1
    obtain ⟨hmem, hkept⟩ :=
      (mem_woken_iff (k := .timeout) hs.sched hs₁ hwoken₁ (by decide) c).mp hmem₁
    obtain ⟨n, hn, huid, -⟩ := h.asleep c hmem
    have hcome : iNow < n.deadline := by
      by_contra hpast
      exact hkept (hdue hmem hn huid (Int.not_lt.mp hpast))
    refine ⟨n, ?_, huid, hcome⟩
    rw [hnodes₃, hnodes₂, hnodes₁]
    apply mem_dropWhile_of_not_due hn
    intro hbad
    have hpast : n.deadline ≤ iNow := by simpa using List.mem_takeWhile_imp hbad
    omega

/-- Four coroutines: the first sleeps until `5`, the second waits for a put that has come, the
third has yielded for a turn, and the fourth sleeps until `9`. After the phase at the time `5` the
first three are runnable, and the fourth has a node with a deadline to come if it still sleeps. -/
theorem no_lost_wakeup_sample :
    ∃ s t out lists s' lists', new.init 4 (fun _ => true) = some s ∧
      Scripts.exec step (start s) [.createCoroutine fun _ => true, .createCoroutine fun _ => true,
        .createCoroutine fun _ => true, .createCoroutine fun _ => true, .enter .tarsRun,
        .wakeupbytimeout 0, .wakeupbyself, .wakeup, .next, .next, .sleep 5 0, .next, .yield false,
        .next, .yield true, .next, .sleep 9 0, .put 2] = some (t, out) ∧
      Arranged t.sched lists ∧ wakePhases t.sched 5 = some s' ∧ Arranged s' lists' ∧
      (Runnable lists' ⟨1, 1⟩ ∧ Runnable lists' ⟨1, 2⟩ ∧ Runnable lists' ⟨1, 3⟩) ∧
      ∀ c ∈ lists' .timeout, ∃ n ∈ s'.timeoutCoroId, n.coroId = c.uid ∧ 5 < n.deadline := by
  have hcheck : ((new.init 4 (fun _ => true)).bind fun s => Scripts.exec step (start s)
      [.createCoroutine fun _ => true, .createCoroutine fun _ => true,
        .createCoroutine fun _ => true, .createCoroutine fun _ => true, .enter .tarsRun,
        .wakeupbytimeout 0, .wakeupbyself, .wakeup, .next, .next, .sleep 5 0, .next, .yield false,
        .next, .yield true, .next, .sleep 9 0, .put 2]).map (fun r =>
          (r.1.sched.terminal, r.1.sched.lookup 2, r.1.sched.status ⟨1, 2⟩,
            suspension ⟨1, 1⟩ r.2, suspension ⟨1, 3⟩ r.2)) =
      some (false, some ⟨1, 2⟩, .inactive, some (.sleep 0), some (.yield true)) := by
    decide +kernel
  obtain ⟨⟨t, out⟩, hsome, hfinal⟩ := Option.map_eq_some_iff.mp hcheck
  obtain ⟨s, hinit, hexec⟩ := Option.bind_eq_some_iff.mp hsome
  simp only [Prod.mk.injEq] at hfinal
  obtain ⟨hterminal, hlookup, hstatus, hsleep, hyield⟩ := hfinal
  obtain ⟨lists, s', lists', harranged, hwake, harranged', hself, hput, htimer, -, hleft⟩ :=
    no_lost_wakeup hinit hexec hterminal 5
  refine ⟨s, t, out, lists, s', lists', hinit, hexec, harranged, hwake, harranged',
    ⟨htimer _ 0 5 hsleep (by decide) (by decide), hput 2 (by decide) _ hlookup ?_,
      hself _ hyield⟩, hleft⟩
  intro hfree
  rw [harranged.status .free _ hfree] at hstatus
  cases hstatus

end CoroThread

end Tars
