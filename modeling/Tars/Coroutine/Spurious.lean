import Tars.Coroutine.Wakeup

/-!
# Spurious resumption

A node of `_timeoutCoroId` is not removed when the coroutine that sleeps on it is put. It stays
until its deadline and then wakes whatever the coroutine with its id waits for. Resumption is
free of this exactly when `wakeupbytimeout` never meets a due node of a coroutine that has
yielded, nor, for one that sleeps, a node that comes before the newest one.
-/

namespace Tars

open Rings CoroutineScheduler

namespace CoroThread

variable {intact : Prop} {t t' : CoroThread} {lists lists' : CoroStatus → List CoroutineInfo}
  {past out : List CoroOutput}

/-- What may wake a suspended coroutine: a put of its id, its own note after `yield(true)`, and
the node that its own `sleep` made, once the deadline has come. -/
def Justified (t : CoroThread) (e : CoroEvent) (c : CoroutineInfo) :
    Suspension → WakeCause → Prop
  | _, .put => c.uid ∈ t.sched.activeCoroQueue
  | .yield bFlag, .self => bFlag = true
  | .sleep node, .timer node' => node' = node ∧
    match e with
    | .wakeupbytimeout iNow => ∃ n ∈ t.sched.timeoutCoroId, n.node = node ∧ n.deadline ≤ iNow
    | _ => False
  | _, _ => False

/-- An output does not tell of a spurious wake-up. -/
def Sensible (t : CoroThread) (past : List CoroOutput) (e : CoroEvent) : CoroOutput → Prop
  | .woken c cause => ∀ how ∈ suspension c past, Justified t e c how cause
  | _ => True

/-- No coroutine is woken in a run for another reason than the one it waits for. -/
def NoSpurious (t : CoroThread) (script : List CoroEvent) : Prop :=
  Scripts.Each step (fun t past e out => ∀ o ∈ out, Sensible t past e o) t [] script

/-- The first node with this id, if there is one, is the newest. -/
def NewestFirst (s : CoroutineScheduler) (iCoroId : ℕ) : Prop :=
  ∀ n ∈ s.timeoutCoroId.find? (fun n => n.coroId = iCoroId), ∀ m ∈ s.timeoutCoroId,
    m.coroId = iCoroId → m.node ≤ n.node

/-- `wakeupbytimeout` meets no old node of a suspended coroutine. -/
def Fresh (t : CoroThread) : CoroEvent → Prop
  | .wakeupbytimeout iNow => t.sched.terminal = false →
    ∀ n ∈ t.sched.timeoutCoroId, n.deadline ≤ iNow → ∀ c ∈ t.sched.lookup n.coroId,
      t.sched.status c ≠ .inactive ∧
        (t.sched.status c = .timeout → NewestFirst t.sched n.coroId)
  | _ => True

instance (t : CoroThread) (e : CoroEvent) (c : CoroutineInfo) :
    (how : Suspension) → (cause : WakeCause) → Decidable (Justified t e c how cause)
  | .yield _, .put => inferInstanceAs (Decidable (_ ∈ _))
  | .sleep _, .put => inferInstanceAs (Decidable (_ ∈ _))
  | .yield _, .self => inferInstanceAs (Decidable (_ = _))
  | .sleep _, .self => isFalse id
  | .yield _, .timer _ => isFalse id
  | .sleep node, .timer node' =>
    match e with
    | .wakeupbytimeout iNow => inferInstanceAs
        (Decidable (node' = node ∧ ∃ n ∈ t.sched.timeoutCoroId, n.node = node ∧ n.deadline ≤ iNow))
    | .createCoroutine _ | .yield _ | .sleep _ _ | .finish | .put _ | .terminate | .enter _
    | .wakeupbyself | .wakeup | .next => isFalse fun h => h.2

instance (t : CoroThread) (past : List CoroOutput) (e : CoroEvent) :
    (o : CoroOutput) → Decidable (Sensible t past e o)
  | .woken c cause => inferInstanceAs
      (Decidable (∀ how ∈ suspension c past, Justified t e c how cause))
  | .created _ | .suspended _ _ | .resumed _ | .finished _ => isTrue trivial

instance (t : CoroThread) (script : List CoroEvent) : Decidable (NoSpurious t script) :=
  Scripts.decidableEach t [] script

/-- The running coroutine suspends itself only when no node with its id is left. -/
def Clean (t : CoroThread) : CoroEvent → Prop
  | .yield _ | .sleep _ _ =>
    ∀ c ∈ t.sched.currentCoro, ∀ n ∈ t.sched.timeoutCoroId, n.coroId ≠ c.uid
  | _ => True

/-- The only node of a suspended coroutine is that of its sleep. -/
def Owned (t : CoroThread) (past : List CoroOutput) : Prop :=
  ∀ c how, suspension c past = some how →
    ∀ m ∈ t.sched.timeoutCoroId, m.coroId = c.uid → how = .sleep m.node

/-- The node of a sleeping coroutine is the newest with its id. -/
def Newest (t : CoroThread) (past : List CoroOutput) : Prop :=
  ∀ c node, suspension c past = some (.sleep node) →
    ∀ m ∈ t.sched.timeoutCoroId, m.coroId = c.uid → m.node ≤ node

/-- Where the nodes of a suspended coroutine come from: the suspension and the node are old, or
the coroutine has just suspended itself. -/
theorem Tracked.node_cases {e : CoroEvent} {c : CoroutineInfo} {how : Suspension} {m : TimeoutNode}
    (h : Tracked t lists past) (hs : Sound intact t lists)
    (htrans : Transition t lists e t' lists' out) (hhow : suspension c (past ++ out) = some how)
    (hm : m ∈ t'.sched.timeoutCoroId) (huid : m.coroId = c.uid) :
    suspension c past = some how ∧ m ∈ t.sched.timeoutCoroId ∨
      t.sched.currentCoro = some c ∧
        ((∃ bFlag, e = .yield bFlag ∧ how = .yield bFlag ∧ m ∈ t.sched.timeoutCoroId) ∨
          ∃ iSleepTime iNow, e = .sleep iSleepTime iNow ∧ how = .sleep t.sched.nextNode ∧
            (m.node = t.sched.nextNode ∨ m ∈ t.sched.timeoutCoroId)) := by
  have hwake {ws : List (CoroutineInfo × WakeCause)}
      (hc : suspension c (past ++ ws.map fun w => .woken w.1 w.2) = some how) :
      suspension c past = some how := by
    rw [suspension_woken] at hc
    split at hc
    · cases hc
    · exact hc
  cases htrans with
  | @created alloc sched lists' iId hagenda hcreated =>
    have hnodes : sched.timeoutCoroId = t.sched.timeoutCoroId :=
      congrArg Agenda.timeoutCoroId hagenda
    rw [suspension_concat] at hhow
    exact .inl ⟨hhow, hnodes ▸ hm⟩
  | @yielded sched d k bFlag hc hmem hk hagenda =>
    have hnodes : sched.timeoutCoroId = t.sched.timeoutCoroId :=
      congrArg Agenda.timeoutCoroId hagenda
    by_cases hdc : c = d
    · subst hdc
      rw [suspension_self] at hhow
      exact .inr ⟨hc, .inl ⟨bFlag, rfl, (Option.some.inj hhow).symm, hnodes ▸ hm⟩⟩
    · rw [suspension_other hdc] at hhow
      exact .inl ⟨hhow, hnodes ▸ hm⟩
  | @slept sched d k iSleepTime iNow hc hmem hk hagenda =>
    have hnodes : sched.timeoutCoroId =
        insertTimeout ⟨t.sched.nextNode, iNow + sleepTime iSleepTime, d.uid⟩
          t.sched.timeoutCoroId :=
      congrArg Agenda.timeoutCoroId hagenda
    have hcases : m = ⟨t.sched.nextNode, iNow + sleepTime iSleepTime, d.uid⟩ ∨
        m ∈ t.sched.timeoutCoroId := by
      apply mem_insertTimeout.mp
      rw [← hnodes]
      exact hm
    by_cases hdc : c = d
    · subst hdc
      rw [suspension_self] at hhow
      refine .inr ⟨hc, .inr ⟨iSleepTime, iNow, rfl, (Option.some.inj hhow).symm, ?_⟩⟩
      rcases hcases with rfl | hold
      · exact .inl rfl
      · exact .inr hold
    · rw [suspension_other hdc] at hhow
      rcases hcases with rfl | hold
      · refine absurd ?_ hdc
        rw [hs.sched.eq_of_mem (h.listed_of_suspended hhow), hs.sched.eq_of_mem ⟨k, hmem⟩, ← huid]
      · exact .inl ⟨hhow, hold⟩
  | @finished sched d k hc hmem hk hagenda =>
    have hnodes : sched.timeoutCoroId = t.sched.timeoutCoroId :=
      congrArg Agenda.timeoutCoroId hagenda
    rw [suspension_concat] at hhow
    exact .inl ⟨hhow, hnodes ▸ hm⟩
  | put iCoroId hid =>
    rw [List.append_nil] at hhow
    rw [CoroutineScheduler.put] at hm
    split at hm <;> exact .inl ⟨hhow, hm⟩
  | terminated | passed | skipped =>
    rw [List.append_nil] at hhow
    exact .inl ⟨hhow, hm⟩
  | @timers sched lists' ws loop iNow hc hrun hphase hwoken hagenda =>
    have hnodes : sched.timeoutCoroId =
        t.sched.timeoutCoroId.dropWhile (fun n => n.deadline ≤ iNow) :=
      congrArg Agenda.timeoutCoroId hagenda
    exact .inl ⟨hwake hhow, (List.dropWhile_sublist _).subset (hnodes ▸ hm)⟩
  | @selves sched lists' ws loop hc hrun hphase hwoken hagenda =>
    have hnodes : sched.timeoutCoroId = t.sched.timeoutCoroId :=
      congrArg Agenda.timeoutCoroId hagenda
    exact .inl ⟨hwake hhow, hnodes ▸ hm⟩
  | @puts sched lists' ws loop hc hrun hphase hwoken hagenda =>
    have hnodes : sched.timeoutCoroId = t.sched.timeoutCoroId :=
      congrArg Agenda.timeoutCoroId hagenda
    exact .inl ⟨hwake hhow, hnodes ▸ hm⟩
  | resumed d hc hlist hphase hhead =>
    rw [suspension_concat] at hhow
    exact .inl ⟨hhow, hm⟩

/-- Every transition keeps the node of a sleeper the newest. -/
theorem Newest.step {e : CoroEvent} (h : Newest t past) (htracked : Tracked t lists past)
    (hs : Sound intact t lists) (htrans : Transition t lists e t' lists' out) :
    Newest t' (past ++ out) := by
  intro c node hc m hm huid
  rcases htracked.node_cases hs htrans hc hm huid with ⟨hold, hmold⟩ | ⟨-, hself⟩
  · exact h c node hold m hmold huid
  · rcases hself with ⟨bFlag, -, hyield, -⟩ | ⟨_, _, -, hsleep, hnode⟩
    · cases hyield
    · obtain rfl : node = t.sched.nextNode := by simpa using hsleep
      rcases hnode with hnew | hold
      · exact Nat.le_of_eq hnew
      · exact Nat.le_of_lt (htracked.older m hold)

/-- While the running coroutines suspend themselves without old nodes, every transition keeps
suspended coroutines free of them. -/
theorem Owned.step {e : CoroEvent} (h : Owned t past) (hclean : Clean t e)
    (htracked : Tracked t lists past) (hs : Sound intact t lists)
    (htrans : Transition t lists e t' lists' out) : Owned t' (past ++ out) := by
  intro c how hc m hm huid
  rcases htracked.node_cases hs htrans hc hm huid with ⟨hold, hmold⟩ | ⟨hcurrent, hself⟩
  · exact h c how hold m hmold huid
  · rcases hself with ⟨bFlag, rfl, -, hold⟩ | ⟨_, _, rfl, rfl, hnode⟩
    · exact absurd huid (hclean c hcurrent m hold)
    · rcases hnode with hnew | hold
      · rw [hnew]
      · exact absurd huid (hclean c hcurrent m hold)

/-- The first due entry for an id comes from the first node with it. -/
theorem first_due {s : CoroutineScheduler} {iNow : ℤ} {i : ℕ} {cause : WakeCause}
    {before after : List (ℕ × WakeCause)} (hdue : s.due iNow = before ++ (i, cause) :: after)
    (hnone : ∀ q ∈ before, q.1 ≠ i) :
    ∃ n ∈ s.timeoutCoroId, s.timeoutCoroId.find? (fun n => n.coroId = i) = some n ∧
      n.coroId = i ∧ n.deadline ≤ iNow ∧ cause = .timer n.node := by
  obtain ⟨front, rest, htake, hfront, hrest⟩ := List.map_eq_append_iff.mp hdue
  obtain ⟨n, back, rfl, hn, -⟩ := List.map_eq_cons_iff.mp hrest
  obtain ⟨hid, hcause⟩ := Prod.mk.inj hn
  have hmem : n ∈ s.timeoutCoroId.takeWhile (fun n => n.deadline ≤ iNow) := by
    rw [htake]
    exact List.mem_append_right _ List.mem_cons_self
  refine ⟨n, (List.takeWhile_sublist _).subset hmem, ?_, hid,
    by simpa using List.mem_takeWhile_imp hmem, hcause.symm⟩
  have hskip : front.find? (fun n => n.coroId = i) = none := by
    rw [List.find?_eq_none]
    intro m hm
    have hother := hnone (m.coroId, .timer m.node) (hfront ▸ List.mem_map_of_mem hm)
    simpa using hother
  rw [← List.takeWhile_append_dropWhile (p := fun n : TimeoutNode => n.deadline ≤ iNow)
    (l := s.timeoutCoroId), htake, List.append_assoc, List.find?_append, hskip, Option.none_or,
    List.cons_append, List.find?_cons_of_pos (by simpa using hid)]

/-- **One step.** A step tells of no spurious wake-up exactly when it is fresh. -/
theorem Tracked.sensible_iff {e : CoroEvent} (h : Tracked t lists past) (hnewest : Newest t past)
    (hs : Sound intact t lists) (htrans : Transition t lists e t' lists' out) :
    (∀ o ∈ out, Sensible t past e o) ↔ Fresh t e := by
  cases htrans with
  | created | yielded | slept | finished | resumed =>
    refine iff_of_true ?_ trivial
    intro o ho
    obtain rfl := List.mem_singleton.mp ho
    trivial
  | put | terminated => exact iff_of_true (by simp) trivial
  | passed hc hevent hself hput =>
    refine iff_of_true (by simp) ?_
    rcases hevent with rfl | ⟨loop, rfl⟩
    · trivial
    · trivial
  | skipped hc hterminal hevent =>
    refine iff_of_true (by simp) ?_
    cases e with
    | wakeupbytimeout iNow =>
      intro hrun
      rw [hterminal] at hrun
      cases hrun
    | _ => trivial
  | @timers sched lists' ws loop iNow hc hrun hphase hwoken hagenda =>
    constructor
    · intro hall _ n hn hdue c hlookup
      obtain ⟨huid, k, hk⟩ := (hs.sched.lookup _ c).mp hlookup
      have hstatus := hs.sched.arranged.status k c hk
      have hcause (hsource : t.sched.status c ∈ [CoroStatus.inactive, .timeout]) :
          ∃ m, t.sched.timeoutCoroId.find? (fun n => n.coroId = c.uid) = some m ∧
            ∀ how, suspension c past = some how →
              Justified t (.wakeupbytimeout iNow) c how (.timer m.node) := by
        have hmem : c ∈ ws.map Prod.fst := by
          refine (hwoken.mem_iff c).mpr ⟨hsource, (n.coroId, .timer n.node),
            List.mem_map_of_mem (mem_takeWhile_of_sorted h.sorted hn hdue), ?_⟩
          rw [← huid]
          exact hs.sched.eq_of_mem ⟨k, hk⟩
        obtain ⟨w, hw, rfl⟩ := List.mem_map.mp hmem
        obtain ⟨before, after, hitems, hnone⟩ := hwoken.first w hw
        obtain ⟨m, -, hfind, -, -, hcause⟩ := first_due hitems hnone
        refine ⟨m, hfind, fun how hhow => ?_⟩
        have hsensible := hall _ (List.mem_map_of_mem hw) how hhow
        rwa [hcause] at hsensible
      constructor
      · intro hinactive
        obtain ⟨m, -, hjust⟩ := hcause (by rw [hinactive]; decide)
        have hmem : c ∈ lists .inactive := by
          rw [← hinactive, hstatus]
          exact hk
        obtain ⟨bFlag, hyield⟩ := h.inactive c hmem
        exact hjust _ hyield
      · intro htimeout first hfirst m hm hid
        obtain ⟨m', hfind, hjust⟩ := hcause (by rw [htimeout]; decide)
        have hmem : c ∈ lists .timeout := by
          rw [← htimeout, hstatus]
          exact hk
        obtain ⟨own, -, -, hsleep⟩ := h.asleep c hmem
        rw [← huid] at hfirst hid
        obtain rfl : m' = first := by
          rw [hfind] at hfirst
          exact Option.some.inj hfirst
        rw [(hjust _ hsleep).1]
        exact hnewest c own.node hsleep m hm hid
    · intro hfresh o ho
      obtain ⟨w, hw, rfl⟩ := List.mem_map.mp ho
      intro how hhow
      obtain ⟨before, after, hitems, hnone⟩ := hwoken.first w hw
      obtain ⟨n, hn, hfind, hid, hdue, hcause⟩ := first_due hitems hnone
      obtain ⟨hsource, -⟩ := (hwoken.mem_iff w.1).mp (List.mem_map_of_mem hw)
      obtain ⟨k, hk⟩ := h.listed_of_suspended hhow
      have hlookup : t.sched.lookup n.coroId = some w.1 :=
        (hs.sched.lookup _ _).mpr ⟨hid.symm, k, hk⟩
      obtain ⟨hawake, hfirst⟩ := hfresh hrun n hn hdue w.1 hlookup
      have htimeout : t.sched.status w.1 = .timeout := by
        rcases List.mem_cons.mp hsource with hinactive | hmem
        · exact absurd hinactive hawake
        · exact List.mem_singleton.mp hmem
      have hmem : w.1 ∈ lists .timeout := by
        rw [← htimeout, hs.sched.arranged.status k w.1 hk]
        exact hk
      obtain ⟨own, hown, huid, hsleep⟩ := h.asleep w.1 hmem
      obtain rfl : .sleep own.node = how := Option.some.inj (hsleep.symm.trans hhow)
      have hsame : n.node = own.node := by
        apply Nat.le_antisymm
        · exact hnewest w.1 own.node hsleep n hn hid
        · rw [← hid] at hfind huid
          exact hfirst htimeout n hfind own hown huid
      rw [hcause]
      exact ⟨hsame, n, hn, hsame, hdue⟩
  | @selves sched lists' ws loop hc hrun hphase hwoken hagenda =>
    refine iff_of_true ?_ trivial
    intro o ho
    obtain ⟨w, hw, rfl⟩ := List.mem_map.mp ho
    intro how hhow
    obtain ⟨i, hi, heq⟩ := List.mem_map.mp (hwoken.mem_items hw)
    obtain ⟨rfl, hcause⟩ := Prod.mk.inj heq
    rw [← hcause]
    rcases h.honest hrun w.1 (h.listed_of_suspended hhow) hi with hyield | ⟨hnone, -⟩
    · obtain rfl : .yield true = how := Option.some.inj (hyield.symm.trans hhow)
      rfl
    · rw [hnone] at hhow
      cases hhow
  | @puts sched lists' ws loop hc hrun hphase hwoken hagenda =>
    refine iff_of_true ?_ trivial
    intro o ho
    obtain ⟨w, hw, rfl⟩ := List.mem_map.mp ho
    intro how hhow
    obtain ⟨i, hi, heq⟩ := List.mem_map.mp (hwoken.mem_items hw)
    obtain ⟨rfl, hcause⟩ := Prod.mk.inj heq
    rw [← hcause]
    cases how <;> exact hi

/-- A sleeper's only node is its newest one, where no old nodes are left. -/
theorem Owned.newest (h : Owned t past) : Newest t past := by
  intro c node hc m hm huid
  exact Nat.le_of_eq (Suspension.sleep.inj (h c _ hc m hm huid)).symm

/-- Suspended coroutines without old nodes are never woken by one. -/
theorem Owned.fresh (h : Owned t past) (htracked : Tracked t lists past)
    (hs : Sound intact t lists) (e : CoroEvent) : Fresh t e := by
  cases e with
  | wakeupbytimeout iNow =>
    intro _ n hn _ c hlookup
    obtain ⟨huid, k, hk⟩ := (hs.sched.lookup _ c).mp hlookup
    have hstatus := hs.sched.arranged.status k c hk
    constructor
    · intro hinactive
      obtain rfl : k = .inactive := hstatus.symm.trans hinactive
      obtain ⟨bFlag, hyield⟩ := htracked.inactive c hk
      cases h c _ hyield n hn huid.symm
    · intro htimeout first hfirst m hm hid
      obtain rfl : k = .timeout := hstatus.symm.trans htimeout
      obtain ⟨own, -, -, hsleep⟩ := htracked.asleep c hk
      have hfound : first ∈ t.sched.timeoutCoroId := List.mem_of_find?_eq_some hfirst
      have hfirstid : first.coroId = n.coroId := by simpa using List.find?_some hfirst
      have hm' := h c _ hsleep m hm (hid.trans huid.symm)
      have hfirst' := h c _ hsleep first hfound (hfirstid.trans huid.symm)
      exact Nat.le_of_eq (Suspension.sleep.inj (hm'.symm.trans hfirst'))
  | _ => trivial

/-- **Coroutines that leave no old nodes are never woken by one.** -/
theorem noSpurious_of_clean {iPoolSize : UInt32} {alloc : ℕ → Bool} {s : CoroutineScheduler}
    {script : List CoroEvent} (hinit : new.init iPoolSize alloc = some s)
    (hclean : Scripts.Along step Clean (start s) script) : NoSpurious (start s) script := by
  obtain ⟨lists, hs, htracked⟩ := start_tracked hinit
  refine Scripts.each_of_along
    (I := fun t past => ∃ lists, Sound False t lists ∧ Tracked t lists past ∧ Owned t past) ?_
    ⟨lists, hs, htracked, fun _ _ hc => by cases hc⟩ hclean
  rintro t e t' out past ⟨lists, hs, h, howned⟩ hstepClean hstep
  obtain ⟨lists', htrans, hs'⟩ := hs.step (fun hbad => hbad.elim) hstep
  exact ⟨(h.sensible_iff howned.newest hs htrans).mpr (howned.fresh h hs e), lists', hs',
    h.step hs hs' htrans, howned.step hstepClean h hs htrans⟩

/-- **When resumption is not spurious.** In a run coroutines are woken only for what they wait
for exactly when `wakeupbytimeout` never meets a due node of a coroutine that has yielded, nor
an old node before the newest one of a coroutine that sleeps. -/
theorem noSpurious_iff_fresh {iPoolSize : UInt32} {alloc : ℕ → Bool} {s : CoroutineScheduler}
    {script : List CoroEvent} (hinit : new.init iPoolSize alloc = some s)
    (hexec : Scripts.exec step (start s) script = some (t, out)) :
    NoSpurious (start s) script ↔ Scripts.Along step Fresh (start s) script := by
  obtain ⟨lists, hs, htracked⟩ := start_tracked hinit
  refine Scripts.each_iff_along
    (I := fun t past => ∃ lists, Sound False t lists ∧ Tracked t lists past ∧ Newest t past)
    ?_ ?_ ⟨lists, hs, htracked, fun _ _ hc => by cases hc⟩ hexec
  · rintro t e t' out past ⟨lists, hs, h, hnewest⟩ hstep
    obtain ⟨lists', htrans, hs'⟩ := hs.step (fun hbad => hbad.elim) hstep
    exact ⟨lists', hs', h.step hs hs' htrans, hnewest.step h hs htrans⟩
  · rintro t e t' out past ⟨lists, hs, h, hnewest⟩ hstep
    obtain ⟨lists', htrans, -⟩ := hs.step (fun hbad => hbad.elim) hstep
    exact h.sensible_iff hnewest hs htrans

/-- A coroutine sleeps until `100`, is put at once, and then waits for another put. -/
def putWhileAsleep : List CoroEvent :=
  [.createCoroutine fun _ => true, .enter .tarsRun, .wakeupbytimeout 0, .wakeupbyself, .wakeup,
    .next, .next, .sleep 100 0, .put 1, .next,
    .enter .tarsRun, .wakeupbytimeout 1, .wakeupbyself, .wakeup, .next, .yield false, .next, .next,
    .enter .tarsRun, .wakeupbytimeout 100]

/-- A coroutine sleeps until `100` and is left alone. -/
def sleepUndisturbed : List CoroEvent :=
  [.createCoroutine fun _ => true, .enter .tarsRun, .wakeupbytimeout 0, .wakeupbyself, .wakeup,
    .next, .next, .sleep 100 0, .next, .enter .tarsRun, .wakeupbytimeout 100]

/-- What a pool of one coroutine computes of a script: a test of its outputs, and whether a
wake-up of it is spurious. -/
private def computed (script : List CoroEvent) (P : List CoroOutput → Bool) :
    Option (Bool × Bool) :=
  (new.init 1 (fun _ => true)).bind fun s =>
    (Scripts.exec step (start s) script).map fun r =>
      (P r.2, decide (NoSpurious (start s) script))

/-- What is computed of a script belongs to a run of it. -/
private theorem exec_of_computed {script : List CoroEvent} {P : List CoroOutput → Bool} {a b : Bool}
    (hrun : computed script P = some (a, b)) :
    ∃ s t out, new.init 1 (fun _ => true) = some s ∧
      Scripts.exec step (start s) script = some (t, out) ∧ P out = a ∧
      decide (NoSpurious (start s) script) = b := by
  obtain ⟨s, hinit, hmap⟩ := Option.bind_eq_some_iff.mp hrun
  obtain ⟨⟨t, out⟩, hexec, hpair⟩ := Option.map_eq_some_iff.mp hmap
  obtain ⟨hP, hb⟩ := Prod.mk.inj hpair
  exact ⟨s, t, out, hinit, hexec, hP, hb⟩

/-- In the run of `putWhileAsleep` a coroutine is woken for a wrong reason. -/
private theorem computed_putWhileAsleep :
    computed putWhileAsleep (fun _ => true) = some (true, false) := by
  decide +kernel

/-- The statement on two runs: a coroutine that sleeps undisturbed is woken by the node of its
sleep and for nothing else, and one that is put while it sleeps leaves a node behind. -/
theorem noSpurious_iff_fresh_sample :
    (∃ s t out, new.init 1 (fun _ => true) = some s ∧
      Scripts.exec step (start s) sleepUndisturbed = some (t, out) ∧
      CoroOutput.woken ⟨1, 1⟩ (.timer 0) ∈ out ∧ NoSpurious (start s) sleepUndisturbed ∧
      (NoSpurious (start s) sleepUndisturbed ↔
        Scripts.Along step Fresh (start s) sleepUndisturbed)) ∧
    ∃ s t out, new.init 1 (fun _ => true) = some s ∧
      Scripts.exec step (start s) putWhileAsleep = some (t, out) ∧
      (NoSpurious (start s) putWhileAsleep ↔
        Scripts.Along step Fresh (start s) putWhileAsleep) := by
  constructor
  · have hcomputed : computed sleepUndisturbed
        (fun out => decide (CoroOutput.woken ⟨1, 1⟩ (.timer 0) ∈ out)) = some (true, true) := by
      decide +kernel
    obtain ⟨s, t, out, hinit, hexec, hwoken, hnone⟩ := exec_of_computed hcomputed
    exact ⟨s, t, out, hinit, hexec, of_decide_eq_true hwoken, of_decide_eq_true hnone,
      noSpurious_iff_fresh hinit hexec⟩
  · obtain ⟨s, t, out, hinit, hexec, -⟩ := exec_of_computed computed_putWhileAsleep
    exact ⟨s, t, out, hinit, hexec, noSpurious_iff_fresh hinit hexec⟩

/-- The old node wakes the coroutine that waits for a put. -/
theorem noSpurious_fails : ∃ s t out, new.init 1 (fun _ => true) = some s ∧
    Scripts.exec step (start s) putWhileAsleep = some (t, out) ∧
    ¬NoSpurious (start s) putWhileAsleep := by
  obtain ⟨s, t, out, hinit, hexec, -, hspurious⟩ := exec_of_computed computed_putWhileAsleep
  exact ⟨s, t, out, hinit, hexec, of_decide_eq_false hspurious⟩

end CoroThread

end Tars
