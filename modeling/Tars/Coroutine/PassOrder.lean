import Tars.Coroutine.Runs

/-!
# The order of one pass

One call of `tars_run` resumes at most 100 coroutines of `_active` and then at most 100 of
`_avail`. The outputs of a run are watched together with the list that the main coroutine is
working through. What a list hands to the main coroutine and what stays on it is then what was
on it and what was appended to it, in the same order.
-/

namespace Tars

open Rings Scripts

/-- The list to which a wake function appends the coroutines that it found there. -/
def WakeCause.target : WakeCause → CoroStatus
  | .timer _ => .active
  | .self => .avail
  | .put => .active

namespace CoroutineScheduler

variable {intact : Prop} {s : CoroutineScheduler} {lists lists' : CoroStatus → List CoroutineInfo}

/-- The coroutines on a list, from its head on. -/
def listed (s : CoroutineScheduler) (k : CoroStatus) : List CoroutineInfo :=
  s.links.items s.currentSize (.inl k)

/-- The links stand for the lists of the invariant. -/
theorem Sound.listed_eq (h : Sound intact s lists) (k : CoroStatus) : s.listed k = lists k := by
  apply h.arranged.represents.items_eq
  have htotal := h.total
  rw [CoroutineScheduler.used] at htotal
  cases k <;> omega

/-- The lists of the invariant are determined by the scheduler. -/
theorem Sound.lists_unique (h : Sound intact s lists) (h' : Sound intact s lists') :
    lists = lists' := by
  funext k
  exact (h.listed_eq k).symm.trans (h'.listed_eq k)

end CoroutineScheduler

namespace CoroThread

open CoroutineScheduler

/-- An output together with the list that the main coroutine was working through. -/
abbrev Watched := Option CoroStatus × CoroOutput

/-- A step of the whole system, with watched outputs. -/
def watched (t : CoroThread) (e : CoroEvent) : Option (CoroThread × List Watched) :=
  (t.step e).map fun result => (result.1, result.2.map fun o => (t.phase.list, o))

/-- The coroutines that an output appends to a list of runnable ones. -/
def appended (generation : ℕ) (k : CoroStatus) : Watched → List CoroutineInfo
  | (_, .created iId) => if k = .avail ∧ iId ≠ 0 then [⟨generation, iId⟩] else []
  | (_, .woken coro cause) => if cause.target = k then [coro] else []
  | _ => []

/-- The coroutines to which the main coroutine switched from a list. -/
def switched (k : CoroStatus) : Watched → List CoroutineInfo
  | (some list, .resumed coro) => if list = k then [coro] else []
  | _ => []

/-- The coroutine that runs, if it is still on this list. -/
def running (t : CoroThread) (k : CoroStatus) : List CoroutineInfo :=
  if t.phase.list = some k then t.sched.currentCoro.toList else []

/-- The coroutines on a list that wait to be resumed. -/
def waiting (t : CoroThread) (k : CoroStatus) : List CoroutineInfo :=
  (t.sched.listed k).drop (t.running k).length

/-- No coroutine was resumed twice, unless it finished and was handed out again between. -/
def Unrepeated (past : List CoroOutput) : Prop :=
  ∀ c before between after,
    past = before ++ .resumed c :: (between ++ .resumed c :: after) →
      List.Sublist [.finished c, .created c.uid] between

variable {intact : Prop} {t t' : CoroThread} {lists lists' : CoroStatus → List CoroutineInfo}
  {e : CoroEvent} {k : CoroStatus} {c : CoroutineInfo}

/-! ### The order of a list -/

/-- The coroutine that runs is in front of those that wait. -/
theorem Sound.listed_eq (h : Sound intact t lists) (k : CoroStatus) :
    t.sched.listed k = t.running k ++ t.waiting k := by
  have hlisted := h.sched.listed_eq k
  rw [waiting, CoroThread.running]
  split
  · rename_i hlist
    cases hc : t.sched.currentCoro with
    | none => rfl
    | some c =>
      obtain ⟨j, hj, hhead⟩ := h.running c hc
      obtain rfl := Option.some.inj (hj.symm.trans hlist)
      obtain ⟨rest, hrest⟩ := List.head?_eq_some_iff.mp hhead
      rw [hlisted, hrest]
      rfl
  · rfl

/-- While the main coroutine runs, all coroutines on a list wait. -/
theorem Sound.waiting_of_main (h : Sound intact t lists) (hc : t.sched.currentCoro = none) :
    t.waiting k = lists k := by
  have hrunning : t.running k = [] := by
    rw [CoroThread.running, hc]
    exact ite_self _
  rw [waiting, hrunning, h.sched.listed_eq]
  rfl

/-- The list of the coroutine that runs is the one that the main coroutine works through. -/
theorem Sound.list_of_running (h : Sound intact t lists) (hc : t.sched.currentCoro = some c)
    (hmem : c ∈ lists k) : t.phase.list = some k ∧ (lists k).head? = some c := by
  obtain ⟨j, hlist, hhead⟩ := h.running c hc
  have hj := h.sched.arranged.status j c (List.mem_of_head? hhead)
  obtain rfl := hj.symm.trans (h.sched.arranged.status k c hmem)
  exact ⟨hlist, hhead⟩

/-- A coroutine that leaves its list for one of coroutines that are not runnable, and its thread to
the main coroutine, leaves those that wait as they are. -/
theorem Sound.waiting_park (h : Sound intact t lists) {j target : CoroStatus}
    (hc : t.sched.currentCoro = some c) (hmem : c ∈ lists j) (hk : k = .active ∨ k = .avail)
    (htarget : target ≠ .active ∧ target ≠ .avail)
    (h' : Sound intact t' (append (remove lists j c) target c))
    (hc' : t'.sched.currentCoro = none) : t'.waiting k = t.waiting k := by
  have hne : k ≠ target := by
    rcases hk with rfl | rfl
    · exact htarget.1.symm
    · exact htarget.2.symm
  obtain ⟨hlist, hhead⟩ := h.list_of_running hc hmem
  obtain ⟨rest, hrest⟩ := List.head?_eq_some_iff.mp hhead
  rw [h'.waiting_of_main hc', append_of_ne hne, waiting, CoroThread.running, hlist, hc,
    h.sched.listed_eq]
  by_cases hkj : k = j
  · subst hkj
    rw [remove_self, hrest, List.erase_cons_head, if_pos rfl]
    rfl
  · rw [remove_of_ne hkj, if_neg (fun heq => hkj (Option.some.inj heq).symm)]
    rfl

/-- Unless the main coroutine makes a switch, nothing is resumed. -/
theorem Transition.not_resumed {out : List CoroOutput} (h : Transition t lists e t' lists' out)
    (he : e ≠ .next) : ∀ c, .resumed c ∉ out := by
  cases h with
  | resumed => exact absurd rfl he
  | _ => simp

/-- No step changes which pool the coroutines are of. -/
theorem Transition.generation_eq {out : List CoroOutput}
    (h : Transition t lists e t' lists' out) : t'.sched.generation = t.sched.generation := by
  cases h with
  | created _ hagenda => exact congrArg Agenda.generation hagenda
  | yielded _ _ _ _ hagenda => exact congrArg Agenda.generation hagenda
  | slept _ _ _ _ _ hagenda => exact congrArg Agenda.generation hagenda
  | finished _ _ _ hagenda => exact congrArg Agenda.generation hagenda
  | timers _ _ _ _ _ _ hagenda => exact congrArg Agenda.generation hagenda
  | selves _ _ _ _ _ hagenda => exact congrArg Agenda.generation hagenda
  | puts _ _ _ _ _ hagenda => exact congrArg Agenda.generation hagenda
  | put =>
    rw [CoroutineScheduler.put]
    split <;> rfl
  | _ => rfl

/-- Outputs that resume nothing are no switches, so they leave the order of the switches as it is.
-/
theorem switched_eq_nil {out : List Watched} (h : ∀ c, .resumed c ∉ out.map Prod.snd)
    (k : CoroStatus) : out.flatMap (switched k) = [] := by
  rw [List.flatMap_eq_nil_iff]
  rintro ⟨list, o⟩ ho
  cases o with
  | resumed c => exact absurd (List.mem_map_of_mem ho) (h c)
  | _ => cases list <;> rfl

/-- What the outputs of a wake function append to a list. -/
theorem appended_woken {list : Option CoroStatus} {target : CoroStatus} (generation : ℕ)
    {ws : List (CoroutineInfo × WakeCause)} (h : ∀ w ∈ ws, w.2.target = target) (k : CoroStatus) :
    ((ws.map fun w => (list, CoroOutput.woken w.1 w.2)).flatMap (appended generation k)) =
      if target = k then ws.map Prod.fst else [] := by
  induction ws with
  | nil => simp
  | cons w ws ih =>
    rw [List.map_cons, List.flatMap_cons, ih fun v hv => h v (List.mem_cons_of_mem _ hv), appended,
      h w List.mem_cons_self]
    split <;> rfl

/-- The step of a `createCoroutine` calls the function and changes nothing else of the thread. -/
theorem step_createCoroutine {alloc : ℕ → Bool} {out : List CoroOutput}
    (hstep : t.step (.createCoroutine alloc) = some (t', out)) :
    ∃ sched iId, t.sched.createCoroutine alloc = some (sched, iId) ∧
      t' = { t with sched } ∧ out = [.created iId] := by
  have hcreate : (t.sched.createCoroutine alloc).map (fun result =>
      (({ t with sched := result.1 } : CoroThread), [CoroOutput.created result.2])) =
        some (t', out) := by
    unfold CoroThread.step at hstep
    dsimp only at hstep
    split at hstep
    · unfold CoroThread.mainStep at hstep
      split at hstep
      · rename_i hevent
        obtain rfl := CoroEvent.createCoroutine.inj hevent
        exact hstep
      all_goals contradiction
    · exact hstep
  obtain ⟨⟨sched, iId⟩, hsome, hresult⟩ := Option.map_eq_some_iff.mp hcreate
  obtain ⟨rfl, rfl⟩ := Prod.mk.inj hresult
  exact ⟨sched, iId, hsome, rfl, rfl⟩

/-- The step of a `createCoroutine` hands out the coroutine that it reports. -/
theorem Sound.handedOut_of_step (h : Sound False t lists) (h' : Sound False t' lists')
    {alloc : ℕ → Bool} {iId : ℕ}
    (hstep : t.step (.createCoroutine alloc) = some (t', [.created iId])) :
    HandedOut t.sched.generation iId lists lists' := by
  obtain ⟨sched, id, hsome, rfl, hout⟩ := step_createCoroutine hstep
  obtain rfl := CoroOutput.created.inj (List.singleton_inj.mp hout)
  obtain ⟨lists'', -, hsound, -, hhanded⟩ := h.sched.createCoroutine_handedOut False.elim hsome
  obtain rfl := h'.sched.lists_unique hsound
  exact hhanded

/-- The causes of woken coroutines are those of the items. -/
theorem target_of_woken {generation : ℕ} {sources : List CoroStatus} {target : CoroStatus}
    {items : List (ℕ × WakeCause)} {status status' : CoroutineInfo → CoroStatus}
    {ws : List (CoroutineInfo × WakeCause)}
    (h : Woken generation sources target items status lists ws status' lists')
    (hitems : ∀ p ∈ items, p.2.target = target) : ∀ w ∈ ws, w.2.target = target := by
  intro w hw
  exact hitems (w.1.uid, w.2) (h.mem_items hw)

/-- A wake function appends the coroutines that it wakes to those that wait. -/
theorem Sound.waiting_woken (h : Sound intact t lists) {sched : CoroutineScheduler}
    {phase : MainPhase} {sources : List CoroStatus} {target : CoroStatus}
    {items : List (ℕ × WakeCause)} {ws : List (CoroutineInfo × WakeCause)} {generation : ℕ}
    (hc : t.sched.currentCoro = none) (hk : k = .active ∨ k = .avail)
    (hsources : ∀ j ∈ sources, j = .inactive ∨ j = .timeout)
    (hwoken : Woken generation sources target items t.sched.status lists ws sched.status lists')
    (hitems : ∀ p ∈ items, p.2.target = target) (h' : Sound intact ⟨sched, phase⟩ lists')
    (hc' : sched.currentCoro = none) :
    t.waiting k ++
        ((ws.map fun w => CoroOutput.woken w.1 w.2).map fun o => (t.phase.list, o)).flatMap
          (appended t.sched.generation k) =
      CoroThread.waiting ⟨sched, phase⟩ k := by
  rw [List.map_map, Function.comp_def, appended_woken _ (target_of_woken hwoken hitems),
    h.waiting_of_main hc, h'.waiting_of_main hc']
  by_cases htarget : target = k
  · subst htarget
    rw [if_pos rfl, hwoken.target_eq]
  · have hnot : k ∉ sources := by
      intro hmem
      rcases hsources k hmem with rfl | rfl <;> rcases hk with hk | hk <;> cases hk
    rw [if_neg htarget, hwoken.others k (Ne.symm htarget) hnot, List.append_nil]

/-- What `createCoroutine` appends to a list is the coroutine that it hands out, behind those that
wait. -/
theorem Sound.waiting_created (h : Sound intact t lists) {sched : CoroutineScheduler} {iId : ℕ}
    (hk : k = .active ∨ k = .avail) (hagenda : sched.agenda = t.sched.agenda)
    (hsched : sched.Sound intact lists') (hcreated : Created lists lists')
    (hhanded : HandedOut t.sched.generation iId lists lists') :
    t.waiting k ++ appended t.sched.generation k (t.phase.list, .created iId) =
      CoroThread.waiting ⟨sched, t.phase⟩ k := by
  have hrunning : CoroThread.running ⟨sched, t.phase⟩ k = t.running k := by
    have hcurrent : sched.currentCoro = t.sched.currentCoro :=
      congrArg Agenda.currentCoro hagenda
    rw [CoroThread.running, CoroThread.running, hcurrent]
  have hlength : (t.running k).length ≤ (lists k).length := by
    have heq := congrArg List.length (h.listed_eq k)
    rw [h.sched.listed_eq, List.length_append] at heq
    omega
  rw [waiting, waiting, hrunning, h.sched.listed_eq, hsched.listed_eq, appended]
  rcases hk with rfl | rfl
  · rw [hcreated.others .active (by decide) (by decide), if_neg (by simp), List.append_nil]
  · rw [hhanded.avail_eq, List.drop_append_of_le_length hlength]
    by_cases hid : iId = 0
    · rw [if_pos hid, if_neg (fun hboth => hboth.2 hid)]
    · rw [if_neg hid, if_pos ⟨rfl, hid⟩]

/-- **Order of one step.** The coroutines that wait and those that are appended are those to which
the main coroutine switches and those that then wait. -/
theorem Sound.step_order (h : Sound False t lists) {out : List Watched}
    (hk : k = .active ∨ k = .avail) (hstep : t.watched e = some (t', out)) :
    (∃ lists', Sound False t' lists') ∧ t'.sched.generation = t.sched.generation ∧
      t.waiting k ++ out.flatMap (appended t.sched.generation k) =
        out.flatMap (switched k) ++ t'.waiting k := by
  obtain ⟨⟨t', plain⟩, hplain, hresult⟩ := Option.map_eq_some_iff.mp hstep
  obtain ⟨rfl, rfl⟩ := Prod.mk.inj hresult
  obtain ⟨lists', htransition, h'⟩ := h.step False.elim hplain
  have hswitched (hnext : e ≠ .next) :
      (plain.map fun o => (t.phase.list, o)).flatMap (switched k) = [] := by
    apply switched_eq_nil
    rw [List.map_map]
    simpa [Function.comp_def] using htransition.not_resumed hnext
  refine ⟨⟨lists', h'⟩, htransition.generation_eq, ?_⟩
  cases htransition with
  | created iId hagenda hcreated =>
    rw [hswitched (by simp), List.nil_append]
    simpa using h.waiting_created hk hagenda h'.sched hcreated (h.handedOut_of_step h' hplain)
  | yielded bFlag hc hmem _ hagenda =>
    rw [hswitched (by simp), List.nil_append, h.waiting_park hc hmem hk (by decide) h'
      (congrArg Agenda.currentCoro hagenda)]
    exact List.append_nil _
  | slept iSleepTime iNow hc hmem _ hagenda =>
    rw [hswitched (by simp), List.nil_append, h.waiting_park hc hmem hk (by decide) h'
      (congrArg Agenda.currentCoro hagenda)]
    exact List.append_nil _
  | finished hc hmem _ hagenda =>
    rw [hswitched (by simp), List.nil_append, h.waiting_park hc hmem hk (by decide) h'
      (congrArg Agenda.currentCoro hagenda)]
    exact List.append_nil _
  | put iCoroId hid =>
    have hcurrent : (t.sched.put iCoroId).currentCoro = t.sched.currentCoro := by
      rw [CoroutineScheduler.put]
      split <;> rfl
    rw [waiting, waiting, CoroThread.running, CoroThread.running, hcurrent, h'.sched.listed_eq,
      h.sched.listed_eq]
    exact List.append_nil _
  | terminated => exact List.append_nil _
  | passed hc =>
    rw [h.waiting_of_main hc, h'.waiting_of_main hc]
    exact List.append_nil _
  | skipped hc =>
    rw [h.waiting_of_main hc, h'.waiting_of_main hc]
    exact List.append_nil _
  | timers loop iNow hc hrun hphase hwoken hagenda =>
    rw [hswitched (by simp), List.nil_append]
    refine h.waiting_woken hc hk (by simp) hwoken ?_ h'
      ((congrArg Agenda.currentCoro hagenda).trans hc)
    intro p hp
    obtain ⟨n, -, rfl⟩ := List.mem_map.mp hp
    rfl
  | selves loop hc hrun hphase hwoken hagenda =>
    rw [hswitched (by simp), List.nil_append]
    refine h.waiting_woken hc hk (by simp) hwoken ?_ h'
      ((congrArg Agenda.currentCoro hagenda).trans hc)
    intro p hp
    obtain ⟨i, -, rfl⟩ := List.mem_map.mp hp
    rfl
  | puts loop hc hrun hphase hwoken hagenda =>
    rw [hswitched (by simp), List.nil_append]
    refine h.waiting_woken hc hk (by simp) hwoken ?_ h'
      ((congrArg Agenda.currentCoro hagenda).trans hc)
    intro p hp
    obtain ⟨i, -, rfl⟩ := List.mem_map.mp hp
    rfl
  | @resumed phase j c hc hlist hphase hhead =>
    obtain ⟨rest, hrest⟩ := List.head?_eq_some_iff.mp hhead
    rw [h.waiting_of_main hc, waiting, CoroThread.running, h'.sched.listed_eq]
    by_cases hkj : k = j
    · subst hkj
      simp [appended, switched, hlist, hphase, hrest]
    · have hjk : j ≠ k := Ne.symm hkj
      simp [appended, switched, hlist, hphase, hjk]

/-- **Order of a run.** What every list hands to the main coroutine and what then waits is what
waited and what was appended, in this order. -/
theorem Sound.run_order (h : Sound False t lists) {script : List CoroEvent} {out : List Watched}
    (hk : k = .active ∨ k = .avail) (hexec : exec watched t script = some (t', out)) :
    (∃ lists', Sound False t' lists') ∧ t'.sched.generation = t.sched.generation ∧
      t.waiting k ++ out.flatMap (appended t.sched.generation k) =
        out.flatMap (switched k) ++ t'.waiting k := by
  refine exec_keeps (I := fun u past => (∃ lists', Sound False u lists') ∧
    u.sched.generation = t.sched.generation ∧
      t.waiting k ++ past.flatMap (appended t.sched.generation k) =
        past.flatMap (switched k) ++ u.waiting k) ?_ ⟨⟨lists, h⟩, rfl, by simp⟩ hexec
  rintro u e u' es past ⟨⟨lists', hu⟩, hgeneration, horder⟩ hstep
  obtain ⟨hsound, hsame, hone⟩ := hu.step_order hk hstep
  rw [hgeneration] at hsame hone
  refine ⟨hsound, hsame, ?_⟩
  rw [List.flatMap_append, List.flatMap_append, ← List.append_assoc, horder, List.append_assoc,
    hone, List.append_assoc]

/-! ### The number of switches -/

/-- How many switches a pass of `tars_run` made so far, by the phase that it has come to. -/
def Paced (past : List Watched) : MainPhase → Prop
  | .idle => (past.flatMap (switched .active)).length ≤ 100 ∧
      (past.flatMap (switched .avail)).length ≤ 100
  | .byTimeout loop | .bySelf loop | .byPut loop =>
    loop = .tarsRun ∧ ∀ c, .resumed c ∉ past.map Prod.snd
  | .active loop iLoop => loop = .tarsRun ∧
      (past.flatMap (switched .active)).length + iLoop ≤ 100 ∧
      past.flatMap (switched .avail) = []
  | .avail iLoop => (past.flatMap (switched .active)).length ≤ 100 ∧
      (past.flatMap (switched .avail)).length + iLoop ≤ 100

/-- Outputs that resume nothing do not count, so the loops have as many rounds left as before. -/
theorem Paced.append {past out : List Watched} (phase : MainPhase) (h : Paced past phase)
    (hout : ∀ c, .resumed c ∉ out.map Prod.snd) : Paced (past ++ out) phase := by
  cases phase <;>
    simpa [Paced, List.flatMap_append, switched_eq_nil hout, hout, not_or] using h

/-- A wake function leads to the next phase, whatever it has woken. -/
theorem wakePhase_phase {woken : Option (CoroutineScheduler × List CoroOutput)} {next : MainPhase}
    {plain : List CoroOutput} (hstep : t.wakePhase woken next = some (t', plain)) :
    t'.phase = next := by
  obtain ⟨result, -, hresult⟩ := Option.map_eq_some_iff.mp hstep
  obtain ⟨rfl, -⟩ := Prod.mk.inj hresult
  rfl

/-- A coroutine does not change the phase of the main coroutine. -/
theorem coroStep_phase {plain : List CoroOutput} (hstep : t.coroStep c e = some (t', plain)) :
    t'.phase = t.phase := by
  cases e with
  | createCoroutine | yield | sleep | finish =>
    obtain ⟨result, -, hresult⟩ := Option.map_eq_some_iff.mp hstep
    obtain ⟨rfl, -⟩ := Prod.mk.inj hresult
    rfl
  | _ => cases hstep

/-- Without a switch the main coroutine stays in its phase or calls a wake function. -/
theorem mainStep_phase {plain : List CoroOutput} (hnext : e ≠ .next)
    (henter : ∀ loop, e ≠ .enter loop) (hstep : t.mainStep t.phase e = some (t', plain)) :
    t'.phase = t.phase ∨ ∃ loop,
      t.phase = .byTimeout loop ∧ t'.phase = .bySelf loop ∨
      t.phase = .bySelf loop ∧ t'.phase = .byPut loop ∨
      t.phase = .byPut loop ∧ t'.phase = .active loop 100 := by
  unfold CoroThread.mainStep at hstep
  split at hstep
  · obtain ⟨result, -, hresult⟩ := Option.map_eq_some_iff.mp hstep
    obtain ⟨rfl, -⟩ := Prod.mk.inj hresult
    exact .inl rfl
  · rename_i loop _
    exact absurd rfl (henter loop)
  · rename_i loop _ hphase
    exact .inr ⟨loop, .inl ⟨hphase, wakePhase_phase hstep⟩⟩
  · rename_i loop hphase
    exact .inr ⟨loop, .inr (.inl ⟨hphase, wakePhase_phase hstep⟩)⟩
  · rename_i loop hphase
    exact .inr ⟨loop, .inr (.inr ⟨hphase, wakePhase_phase hstep⟩)⟩
  · exact absurd rfl hnext
  · exact absurd rfl hnext
  · cases hstep

/-- Without a switch the system stays in its phase or the main coroutine calls a wake function. -/
theorem step_phase {plain : List CoroOutput} (hnext : e ≠ .next)
    (henter : ∀ loop, e ≠ .enter loop) (hstep : t.step e = some (t', plain)) :
    t'.phase = t.phase ∨ ∃ loop,
      t.phase = .byTimeout loop ∧ t'.phase = .bySelf loop ∨
      t.phase = .bySelf loop ∧ t'.phase = .byPut loop ∨
      t.phase = .byPut loop ∧ t'.phase = .active loop 100 := by
  unfold CoroThread.step at hstep
  split at hstep
  · split at hstep
    · obtain ⟨rfl, -⟩ := Prod.mk.inj (Option.some.inj hstep)
      exact .inl rfl
    · cases hstep
  · obtain ⟨rfl, -⟩ := Prod.mk.inj (Option.some.inj hstep)
    exact .inl rfl
  · split at hstep
    · exact mainStep_phase hnext henter hstep
    · exact .inl (coroStep_phase hstep)

/-- A resuming loop makes one switch and counts it, or goes on. -/
theorem resume_cases {iLoop : ℕ} {again : ℕ → MainPhase} {done : MainPhase}
    {plain : List CoroOutput} (hstep : t.resume k iLoop again done = some (t', plain)) :
    t'.phase = done ∧ plain = [] ∨
      ∃ c n, iLoop = n + 1 ∧ t'.phase = again n ∧ plain = [.resumed c] := by
  cases iLoop with
  | zero =>
    obtain ⟨rfl, rfl⟩ := Prod.mk.inj (Option.some.inj hstep)
    exact .inl ⟨rfl, rfl⟩
  | succ iLoop =>
    rw [CoroThread.resume] at hstep
    split at hstep
    · obtain ⟨rfl, rfl⟩ := Prod.mk.inj (Option.some.inj hstep)
      exact .inl ⟨rfl, rfl⟩
    · split at hstep
      · rename_i c _
        obtain ⟨rfl, rfl⟩ := Prod.mk.inj (Option.some.inj hstep)
        exact .inr ⟨c, iLoop, rfl, rfl, rfl⟩
      · cases hstep

/-- A switch is made by one of the two resuming loops. -/
theorem step_next {plain : List CoroOutput} (hstep : t.step .next = some (t', plain)) :
    (∃ loop iLoop, t.phase = .active loop iLoop ∧
      t.resume .active iLoop (.active loop) (.avail loop.availRounds) = some (t', plain)) ∨
    ∃ iLoop, t.phase = .avail iLoop ∧ t.resume .avail iLoop .avail .idle = some (t', plain) := by
  unfold CoroThread.step at hstep
  dsimp only at hstep
  split at hstep
  · cases hphase : t.phase with
    | active loop iLoop =>
      rw [hphase] at hstep
      exact .inl ⟨loop, iLoop, rfl, hstep⟩
    | avail iLoop =>
      rw [hphase] at hstep
      exact .inr ⟨iLoop, rfl, hstep⟩
    | _ =>
      rw [hphase] at hstep
      cases hstep
  · cases hstep

/-- **Every step of a pass counts its switch**, if it makes one. -/
theorem paced_step {past out : List Watched} (h : Paced past t.phase)
    (henter : ∀ loop, e ≠ .enter loop) (hstep : t.watched e = some (t', out))
    (hout : e ≠ .next → ∀ c, .resumed c ∉ out.map Prod.snd) :
    Paced (past ++ out) t'.phase := by
  obtain ⟨⟨t', plain⟩, hplain, hresult⟩ := Option.map_eq_some_iff.mp hstep
  obtain ⟨rfl, rfl⟩ := Prod.mk.inj hresult
  by_cases hnext : e = .next
  · subst hnext
    rcases step_next hplain with ⟨loop, iLoop, hphase, hresume⟩ | ⟨iLoop, hphase, hresume⟩
    · rw [hphase] at h ⊢
      obtain ⟨rfl, hactive, havail⟩ := h
      rcases resume_cases hresume with ⟨hdone, rfl⟩ | ⟨c, n, rfl, hagain, rfl⟩
      · rw [hdone, List.map_nil, List.append_nil]
        refine ⟨by omega, ?_⟩
        rw [havail]
        decide
      · rw [hagain]
        refine ⟨rfl, ?_, ?_⟩
        · simp only [MainPhase.list, List.map_singleton, List.flatMap_append, switched,
            List.length_append, List.flatMap_singleton, if_true, List.length_singleton]
          omega
        · simp [MainPhase.list, havail, switched]
    · rw [hphase] at h ⊢
      obtain ⟨hactive, havail⟩ := h
      rcases resume_cases hresume with ⟨hdone, rfl⟩ | ⟨c, n, rfl, hagain, rfl⟩
      · rw [hdone, List.map_nil, List.append_nil]
        exact ⟨hactive, by omega⟩
      · rw [hagain]
        refine ⟨?_, ?_⟩
        · simpa [MainPhase.list, switched] using hactive
        · simp only [MainPhase.list, List.map_singleton, List.flatMap_append, switched,
            List.length_append, List.flatMap_singleton, if_true, List.length_singleton]
          omega
  · have hnone := hout hnext
    rcases step_phase hnext henter hplain with hsame | ⟨loop, hphases⟩
    · rw [hsame]
      exact Paced.append _ h hnone
    · rcases hphases with ⟨hold, hnew⟩ | ⟨hold, hnew⟩ | ⟨hold, hnew⟩
      · rw [hold] at h hnone
        rw [hnew, hold]
        exact Paced.append (.byTimeout loop) h hnone
      · rw [hold] at h hnone
        rw [hnew, hold]
        exact Paced.append (.bySelf loop) h hnone
      · rw [hold] at h hnone
        obtain ⟨rfl, hpast⟩ := Paced.append (.byPut loop) h hnone
        rw [hnew, hold]
        refine ⟨rfl, ?_, switched_eq_nil hpast _⟩
        rw [switched_eq_nil hpast]
        decide

/-! ### No coroutine twice -/

/-- Why a coroutine that was resumed before these outputs is not on a runnable list, unless it
runs: it was handed out again, or it is free, or it is suspended. -/
def Accounted (t : CoroThread) (lists : CoroStatus → List CoroutineInfo) (c : CoroutineInfo)
    (between : List CoroOutput) : Prop :=
  List.Sublist [.finished c, .created c.uid] between ∨
    (.finished c ∈ between ∧ c ∈ lists .free) ∨
    t.sched.currentCoro = some c ∨ c ∈ lists .inactive ∨ c ∈ lists .timeout

/-- Every coroutine that was resumed is accounted for by what it has done since. -/
def Once (t : CoroThread) (lists : CoroStatus → List CoroutineInfo) (past : List CoroOutput) :
    Prop :=
  ∀ c before between, past = before ++ .resumed c :: between → t.Accounted lists c between

/-- A coroutine that leaves its runnable list for another list and its thread to the main
coroutine is accounted for there, and the others are where they were. -/
theorem Accounted.park {d : CoroutineInfo} {target j : CoroStatus} {o : CoroOutput}
    {between : List CoroOutput} (h : t.Accounted lists d between)
    (hc : t.sched.currentCoro = some c) (hj : j = .active ∨ j = .avail)
    (htarget : target = .inactive ∨ target = .timeout ∨ target = .free ∧ o = .finished c) :
    t'.Accounted (Rings.append (remove lists j c) target c) d (between ++ [o]) := by
  have hkeep {k : CoroStatus} (hk : k ≠ .active ∧ k ≠ .avail) (hd : d ∈ lists k) :
      d ∈ Rings.append (remove lists j c) target c k := by
    have hne : k ≠ j := by
      rcases hj with rfl | rfl
      · exact hk.1
      · exact hk.2
    rw [mem_append_iff, remove_of_ne hne]
    exact .inl hd
  rcases h with hagain | ⟨hfinished, hfree⟩ | hrun | hinactive | htimeout
  · exact .inl (hagain.trans (List.sublist_append_left _ _))
  · exact .inr (.inl ⟨List.mem_append_left _ hfinished, hkeep (by decide) hfree⟩)
  · obtain rfl := Option.some.inj (hc.symm.trans hrun)
    rcases htarget with rfl | rfl | ⟨rfl, rfl⟩
    · exact .inr (.inr (.inr (.inl (mem_append_iff.mpr (.inr ⟨rfl, rfl⟩)))))
    · exact .inr (.inr (.inr (.inr (mem_append_iff.mpr (.inr ⟨rfl, rfl⟩)))))
    · exact .inr (.inl ⟨by simp, mem_append_iff.mpr (.inr ⟨rfl, rfl⟩)⟩)
  · exact .inr (.inr (.inr (.inl (hkeep (by decide) hinactive))))
  · exact .inr (.inr (.inr (.inr (hkeep (by decide) htimeout))))

/-- A coroutine that is handed out has finished before if it is accounted for. -/
theorem Accounted.create {d : CoroutineInfo} {iId : ℕ} {generation : ℕ}
    {between : List CoroOutput} (h : t.Accounted lists d between)
    (hcurrent : t'.sched.currentCoro = t.sched.currentCoro) (hcreated : Created lists lists')
    (hhanded : HandedOut generation iId lists lists') :
    t'.Accounted lists' d (between ++ [.created iId]) := by
  rcases h with hagain | ⟨hfinished, hfree⟩ | hrun | hinactive | htimeout
  · exact .inl (hagain.trans (List.sublist_append_left _ _))
  · rcases hhanded.free_mem d hfree with hstay | huid
    · exact .inr (.inl ⟨List.mem_append_left _ hfinished, hstay⟩)
    · rw [← huid]
      exact .inl ((List.singleton_sublist.mpr hfinished).append (List.Sublist.refl [_]))
  · exact .inr (.inr (.inl (hcurrent.trans hrun)))
  · rw [← hcreated.others .inactive (by decide) (by decide)] at hinactive
    exact .inr (.inr (.inr (.inl hinactive)))
  · rw [← hcreated.others .timeout (by decide) (by decide)] at htimeout
    exact .inr (.inr (.inr (.inr htimeout)))

/-- Where the lists stay the same and no coroutine stops to run, all stay accounted for. -/
theorem Accounted.stay {d : CoroutineInfo} {between out : List CoroOutput}
    (h : t.Accounted lists d between)
    (hcurrent : t.sched.currentCoro = some d → t'.sched.currentCoro = some d) :
    t'.Accounted lists d (between ++ out) := by
  rcases h with hagain | ⟨hfinished, hfree⟩ | hrun | hsuspended
  · exact .inl (hagain.trans (List.sublist_append_left _ _))
  · exact .inr (.inl ⟨List.mem_append_left _ hfinished, hfree⟩)
  · exact .inr (.inr (.inl (hcurrent hrun)))
  · exact .inr (.inr (.inr hsuspended))

/-- An output of a run that grew is an old one or a new one. -/
theorem split_append {ε : Type} {past out before after : List ε} {x : ε}
    (h : past ++ out = before ++ x :: after) :
    (∃ rest, past = before ++ x :: rest ∧ after = rest ++ out) ∨
      ∃ first, before = past ++ first ∧ out = first ++ x :: after := by
  rcases List.append_eq_append_iff.mp h with ⟨first, hbefore, hout⟩ | ⟨rest, hpast, hafter⟩
  · exact .inr ⟨first, hbefore, hout⟩
  · cases rest with
    | nil => exact .inr ⟨[], by simpa using hpast.symm, by simpa using hafter.symm⟩
    | cons y rest =>
      obtain ⟨rfl, rfl⟩ := List.cons.inj hafter
      exact .inl ⟨rest, hpast, rfl⟩

/-- Before the loops of a pass nothing was resumed. -/
theorem Paced.not_resumed {past : List Watched} {phase : MainPhase} (h : Paced past phase)
    {loop : MainLoop} (hphase : phase = .byTimeout loop ∨ phase = .bySelf loop ∨
      phase = .byPut loop) : ∀ c, .resumed c ∉ past.map Prod.snd := by
  rcases hphase with rfl | rfl | rfl <;> exact h.2

/-- **One step of a pass** keeps every coroutine that was resumed accounted for. -/
theorem Sound.once_step (h : Sound False t lists) {past : List Watched} {plain : List CoroOutput}
    (hpaced : Paced past t.phase) (honce : Once t lists (past.map Prod.snd))
    (hplain : t.step e = some (t', plain)) :
    ∃ lists', Sound False t' lists' ∧ Once t' lists' (past.map Prod.snd ++ plain) := by
  obtain ⟨lists', htransition, h'⟩ := h.step False.elim hplain
  refine ⟨lists', h', ?_⟩
  intro c before between heq
  rcases split_append heq with ⟨rest, hpast, rfl⟩ | ⟨first, -, hout⟩
  · have hold := honce c before rest hpast
    have hbefore {loop : MainLoop} (hphase : t.phase = .byTimeout loop ∨ t.phase = .bySelf loop ∨
        t.phase = .byPut loop) : False := by
      apply hpaced.not_resumed hphase c
      rw [hpast]
      exact List.mem_append_right _ List.mem_cons_self
    cases htransition with
    | created iId hagenda hcreated =>
      exact hold.create (congrArg Agenda.currentCoro hagenda) hcreated
        (h.handedOut_of_step h' hplain)
    | yielded bFlag hc hmem hk => exact hold.park hc hk (.inl rfl)
    | slept iSleepTime iNow hc hmem hk => exact hold.park hc hk (.inr (.inl rfl))
    | finished hc hmem hk => exact hold.park hc hk (.inr (.inr ⟨rfl, rfl⟩))
    | put iCoroId hid =>
      apply hold.stay
      intro hrun
      rw [← hrun, CoroutineScheduler.put]
      split <;> rfl
    | terminated => exact hold.stay id
    | passed => exact hold.stay id
    | skipped => exact hold.stay id
    | timers loop iNow hc hrun hphase => exact (hbefore (.inl hphase)).elim
    | selves loop hc hrun hphase => exact (hbefore (.inr (.inl hphase))).elim
    | puts loop hc hrun hphase => exact (hbefore (.inr (.inr hphase))).elim
    | resumed d hc =>
      apply hold.stay
      intro hrun
      cases hc.symm.trans hrun
  · have hmem : .resumed c ∈ plain := by
      rw [hout]
      exact List.mem_append_right _ List.mem_cons_self
    cases htransition with
    | resumed d =>
      obtain rfl := CoroOutput.resumed.inj (List.mem_singleton.mp hmem)
      exact .inr (.inr (.inl rfl))
    | _ => simp at hmem

/-- **One step of a pass** resumes no coroutine again, unless it finished and was handed out. -/
theorem Sound.unrepeated_step (h : Sound False t lists) {past plain : List CoroOutput}
    (honce : Once t lists past) (hall : Unrepeated past) (hplain : t.step e = some (t', plain)) :
    Unrepeated (past ++ plain) := by
  obtain ⟨lists', htransition, h'⟩ := h.step False.elim hplain
  intro c before between after heq
  have hsplit : past ++ plain = (before ++ .resumed c :: between) ++ .resumed c :: after := by
    rw [heq, List.append_assoc, List.cons_append]
  rcases split_append hsplit with ⟨rest, hpast, rfl⟩ | ⟨first, hbefore, hout⟩
  · apply hall c before between rest
    rw [hpast, List.append_assoc, List.cons_append]
  · have hmem : .resumed c ∈ plain := by
      rw [hout]
      exact List.mem_append_right _ List.mem_cons_self
    cases htransition with
    | @resumed phase k d hc hlist hphase hhead =>
      obtain rfl := CoroOutput.resumed.inj (List.mem_singleton.mp hmem)
      obtain ⟨rfl, -⟩ : first = [] ∧ after = [] := by
        cases first with
        | nil => exact ⟨rfl, (List.cons.inj hout).2.symm⟩
        | cons o first => simp at hout
      rw [List.append_nil] at hbefore
      have hon : c ∈ lists k := List.mem_of_head? hhead
      have hstatus := h.sched.arranged.status k c hon
      have hrunnable := runnable_of_list hlist
      have hnot {j : CoroStatus} (hj : j ≠ .active ∧ j ≠ .avail) : c ∉ lists j := by
        intro hmem
        rw [h.sched.arranged.status j c hmem] at hstatus
        rcases hrunnable with rfl | rfl
        · exact hj.1 hstatus
        · exact hj.2 hstatus
      rcases honce c before between hbefore.symm with hagain | ⟨-, hfree⟩ | hrun | hoff | hoff
      · exact hagain
      · exact absurd hfree (hnot (by decide))
      · cases hc.symm.trans hrun
      · exact absurd hoff (hnot (by decide))
      · exact absurd hoff (hnot (by decide))
    | _ => simp at hmem

/-! ### A whole pass -/

/-- What holds in the course of a pass: the switches are counted, and no coroutine was resumed
twice. -/
structure InPass (t : CoroThread) (past : List Watched) : Prop where
  /-- The thread is sound, and every coroutine that was resumed is accounted for. -/
  once : ∃ lists, Sound False t lists ∧ Once t lists (past.map Prod.snd)
  /-- The switches are counted, so a loop makes no more than it may. -/
  paced : Paced past t.phase
  /-- No coroutine was resumed twice. -/
  unrepeated : Unrepeated (past.map Prod.snd)

/-- Every step of a pass keeps what holds in its course. -/
theorem InPass.step {past out : List Watched} (h : InPass t past)
    (henter : ∀ loop, e ≠ .enter loop) (hstep : t.watched e = some (t', out)) :
    InPass t' (past ++ out) := by
  obtain ⟨⟨lists, hsound, honce⟩, hpaced, hall⟩ := h
  obtain ⟨⟨u, plain⟩, hplain, hresult⟩ := Option.map_eq_some_iff.mp hstep
  obtain ⟨rfl, rfl⟩ := Prod.mk.inj hresult
  have hsnd : (plain.map fun o => (t.phase.list, o)).map Prod.snd = plain := by
    rw [List.map_map, Function.comp_def, List.map_id']
  obtain ⟨lists', htransition, -⟩ := hsound.step False.elim hplain
  refine ⟨?_, paced_step hpaced henter hstep ?_, ?_⟩
  · rw [List.map_append, hsnd]
    exact hsound.once_step hpaced honce hplain
  · intro hnext
    rw [hsnd]
    exact htransition.not_resumed hnext
  · rw [List.map_append, hsnd]
    exact hsound.unrepeated_step honce hall hplain

/-- Entering `tars_run` starts a pass, or stays outside of the loops after termination. -/
theorem Sound.enter (h : Sound False t lists) {out : List Watched}
    (hstep : t.watched (.enter .tarsRun) = some (t', out)) : InPass t' [] ∧ out = [] := by
  obtain ⟨⟨u, plain⟩, hplain, hresult⟩ := Option.map_eq_some_iff.mp hstep
  obtain ⟨rfl, rfl⟩ := Prod.mk.inj hresult
  obtain ⟨lists', -, h'⟩ := h.step False.elim hplain
  unfold CoroThread.step at hplain
  dsimp only at hplain
  split at hplain
  · cases hphase : t.phase with
    | idle =>
      rw [hphase] at hplain
      obtain ⟨hthread, rfl⟩ := Prod.mk.inj (Option.some.inj hplain)
      refine ⟨⟨⟨lists', h', ?_⟩, ?_, ?_⟩, rfl⟩
      · intro c before between heq
        simp at heq
      · rw [← hthread]
        split
        · rw [hphase]
          exact ⟨by decide, by decide⟩
        · exact ⟨rfl, by simp⟩
      · intro c before between after heq
        simp at heq
    | _ =>
      rw [hphase] at hplain
      cases hplain
  · cases hplain

/-- A pass makes at most 100 switches from each list. -/
theorem InPass.length_switched {past : List Watched} (h : InPass t past)
    (hk : k = .active ∨ k = .avail) : (past.flatMap (switched k)).length ≤ 100 := by
  have hpaced := h.paced
  cases hphase : t.phase with
  | idle =>
    rw [hphase] at hpaced
    rcases hk with rfl | rfl
    · exact hpaced.1
    · exact hpaced.2
  | active loop iLoop =>
    rw [hphase] at hpaced
    obtain ⟨-, hactive, havail⟩ := hpaced
    rcases hk with rfl | rfl
    · omega
    · rw [havail]
      decide
  | avail iLoop =>
    rw [hphase] at hpaced
    obtain ⟨hactive, havail⟩ := hpaced
    rcases hk with rfl | rfl
    · exact hactive
    · omega
  | _ =>
    rw [hphase] at hpaced
    rw [switched_eq_nil hpaced.2]
    decide

/-- **The order of one pass.** Let a run of a scheduler lead to any state, and let one call of
`tars_run` come as far as it will from there, whatever the bodies of the coroutines do. It makes
at most 100 switches from `_active` and at most 100 from `_avail`. The coroutine that runs is the
head of its list until it leaves it. In the run as in the pass, the coroutines resumed from a list
and those that then wait on it are those that waited and those that were appended, in this order.
No coroutine is resumed twice in the pass, unless it finished and was handed out again between. -/
theorem pass_order {iPoolSize : UInt32} {alloc : ℕ → Bool} {s : CoroutineScheduler}
    {script pass : List CoroEvent} {past out : List Watched}
    (hinit : new.init iPoolSize alloc = some s)
    (hexec : exec watched (start s) script = some (t, past))
    (hpass : exec watched t (.enter .tarsRun :: pass) = some (t', out))
    (hone : ∀ loop, .enter loop ∉ pass) :
    (∀ k, k = .active ∨ k = .avail →
      (out.flatMap (switched k)).length ≤ 100 ∧
      t'.sched.listed k = t'.running k ++ t'.waiting k ∧
      past.flatMap (appended s.generation k) = past.flatMap (switched k) ++ t.waiting k ∧
      t.waiting k ++ out.flatMap (appended s.generation k) =
        out.flatMap (switched k) ++ t'.waiting k) ∧
    Unrepeated (out.map Prod.snd) := by
  obtain ⟨lists₀, generation, hsound₀, hempty, hagenda⟩ :=
    @CoroutineScheduler.Sound.init False _ _ _ hinit
  have hstart : Sound False (start s) lists₀ :=
    .of_main hsound₀ (congrArg Agenda.currentCoro hagenda)
  obtain ⟨u, first, rest, henter, hrest, rfl⟩ := exec_cons_eq_some.mp hpass
  obtain ⟨⟨lists, hsound⟩, -, -⟩ := hstart.run_order (.inl rfl) hexec
  obtain ⟨hin, rfl⟩ := hsound.enter henter
  have hinpass : InPass t' rest := by
    refine exec_invariant_outputs (C := fun _ e => ∀ loop, e ≠ .enter loop) []
      (fun u e u' es past h hC hstep => h.step hC hstep) hin (along_of_mem ?_) hrest
    rintro e he loop rfl
    exact hone loop he
  refine ⟨fun k hk => ?_, hinpass.unrepeated⟩
  obtain ⟨-, hgeneration, horder⟩ := hstart.run_order hk hexec
  obtain ⟨⟨lists', hsound'⟩, -, horder'⟩ := hsound.run_order hk hpass
  have hwait : (start s).waiting k = [] := by
    rw [hstart.waiting_of_main (congrArg Agenda.currentCoro hagenda)]
    rcases hk with rfl | rfl <;> exact hempty _ (by decide)
  rw [hwait, List.nil_append] at horder
  rw [hgeneration] at horder'
  exact ⟨hinpass.length_switched hk, hsound'.listed_eq k, horder, horder'⟩

/-- The events before a pass: two coroutines are created. -/
private def twoCreated : List CoroEvent :=
  [.createCoroutine fun _ => true, .createCoroutine fun _ => true]

/-- The events of a pass: the first coroutine ends, the second one has it handed out again. -/
private def handedOutAgain : List CoroEvent :=
  [.wakeupbytimeout 0, .wakeupbyself, .wakeup, .next, .next, .finish, .next,
    .createCoroutine fun _ => true, .sleep 5 0, .next]

/-- The first coroutine is resumed twice in the pass: it was in front of the list, and it is
appended when it is handed out again. -/
theorem pass_order_sample :
    ∃ s t past t' out, new.init 2 (fun _ => true) = some s ∧
      exec watched (start s) twoCreated = some (t, past) ∧
      exec watched t (.enter .tarsRun :: handedOutAgain) = some (t', out) ∧
      t.waiting .avail = [⟨1, 1⟩, ⟨1, 2⟩] ∧
      out.flatMap (appended s.generation .avail) = [⟨1, 1⟩] ∧
      out.flatMap (switched .avail) = [⟨1, 1⟩, ⟨1, 2⟩, ⟨1, 1⟩] ∧
      (∀ k, k = .active ∨ k = .avail →
        (out.flatMap (switched k)).length ≤ 100 ∧
        t'.sched.listed k = t'.running k ++ t'.waiting k ∧
        past.flatMap (appended s.generation k) = past.flatMap (switched k) ++ t.waiting k ∧
        t.waiting k ++ out.flatMap (appended s.generation k) =
          out.flatMap (switched k) ++ t'.waiting k) ∧
      Unrepeated (out.map Prod.snd) := by
  have hrun : ((new.init 2 (fun _ => true)).bind fun s =>
      (exec watched (start s) twoCreated).bind fun result =>
      (exec watched result.1 (.enter .tarsRun :: handedOutAgain)).map fun last =>
        (result.1.waiting .avail, last.2.flatMap (appended s.generation .avail),
          last.2.flatMap (switched .avail))) =
      some ([⟨1, 1⟩, ⟨1, 2⟩], [⟨1, 1⟩], [⟨1, 1⟩, ⟨1, 2⟩, ⟨1, 1⟩]) := by
    decide +kernel
  obtain ⟨s, hinit, hrest⟩ := Option.bind_eq_some_iff.mp hrun
  obtain ⟨⟨t, past⟩, hexec, hlast⟩ := Option.bind_eq_some_iff.mp hrest
  obtain ⟨⟨t', out⟩, hpass, heq⟩ := Option.map_eq_some_iff.mp hlast
  obtain ⟨hwaiting, heq⟩ := Prod.mk.inj heq
  obtain ⟨happended, hswitched⟩ := Prod.mk.inj heq
  obtain ⟨horder, hunrepeated⟩ := pass_order hinit hexec hpass (by simp [handedOutAgain])
  exact ⟨s, t, past, t', out, hinit, hexec, hpass, hwaiting, happended, hswitched, horder,
    hunrepeated⟩

end CoroThread

end Tars
