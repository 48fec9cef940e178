import Mathlib.Data.List.Induction

/-!
# Runs of a deterministic machine under a script

A machine takes one action at a time, may refuse it, and emits outputs. All
nondeterminism of the environment is an argument of the actions, so a run is the
execution of a finite script. The rules below say once what induction over a run
proves: an invariant of the state and of the outputs so far, possibly only along
the scripts whose steps all meet a condition.
-/

namespace Scripts

variable {σ α ε : Type*}

/-- Execute a script from a state; the outputs of all its steps are concatenated.
A refused action ends the whole execution with `none`. -/
def exec (step : σ → α → Option (σ × List ε)) : σ → List α → Option (σ × List ε)
  | s, [] => some (s, [])
  | s, a :: as =>
    match step s a with
    | none => none
    | some (s', es) =>
      match exec step s' as with
      | none => none
      | some (s'', es') => some (s'', es ++ es')

/-- Every step that the script takes meets the condition `C` in the state it starts from. -/
def Along (step : σ → α → Option (σ × List ε)) (C : σ → α → Prop) : σ → List α → Prop
  | _, [] => True
  | s, a :: as => C s a ∧ ∀ s' es, step s a = some (s', es) → Along step C s' as

/-- Along an executed step a script is what its rest is. -/
theorem along_cons {step : σ → α → Option (σ × List ε)} {C : σ → α → Prop} {s t : σ} {a : α}
    {as : List α} {es : List ε} (h : step s a = some (t, es)) :
    Along step C s (a :: as) ↔ C s a ∧ Along step C t as := by
  refine and_congr_right fun _ => ⟨fun hall => hall t es h, fun hrest s' es' h' => ?_⟩
  obtain ⟨rfl, -⟩ := Prod.mk.inj (Option.some.inj (h.symm.trans h'))
  exact hrest

/-- Whether a script meets a decidable condition can be computed by running it. -/
instance decidableAlong {step : σ → α → Option (σ × List ε)} {C : σ → α → Prop}
    [∀ s a, Decidable (C s a)] : (s : σ) → (as : List α) → Decidable (Along step C s as)
  | _, [] => isTrue trivial
  | s, a :: as =>
    match h : step s a with
    | none => decidable_of_iff (C s a) ⟨fun hC => ⟨hC, by simp [h]⟩, fun hall => hall.1⟩
    | some (t, _) =>
      have : Decidable (Along step C t as) := decidableAlong t as
      decidable_of_iff (C s a ∧ Along step C t as) (along_cons h).symm

/-- Every step that the script takes has the property `P` of the state it starts from, the
outputs before it, its action and its own outputs. -/
def Each (step : σ → α → Option (σ × List ε)) (P : σ → List ε → α → List ε → Prop) :
    σ → List ε → List α → Prop
  | _, _, [] => True
  | s, past, a :: as =>
    ∀ s' es, step s a = some (s', es) → P s past a es ∧ Each step P s' (past ++ es) as

/-- With an executed step at its front a script has the property if the step and the rest do. -/
theorem each_cons {step : σ → α → Option (σ × List ε)} {P : σ → List ε → α → List ε → Prop}
    {s t : σ} {past : List ε} {a : α} {as : List α} {es : List ε} (h : step s a = some (t, es)) :
    Each step P s past (a :: as) ↔ P s past a es ∧ Each step P t (past ++ es) as := by
  refine ⟨fun hall => hall t es h, fun hboth s' es' h' => ?_⟩
  obtain ⟨rfl, rfl⟩ := Prod.mk.inj (Option.some.inj (h.symm.trans h'))
  exact hboth

/-- Whether all steps have a decidable property can be computed by running the script. -/
instance decidableEach {step : σ → α → Option (σ × List ε)} {P : σ → List ε → α → List ε → Prop}
    [∀ s past a es, Decidable (P s past a es)] :
    (s : σ) → (past : List ε) → (as : List α) → Decidable (Each step P s past as)
  | _, _, [] => isTrue trivial
  | s, past, a :: as =>
    match h : step s a with
    | none => isTrue fun _ _ hsome => by simp [h] at hsome
    | some (t, es) =>
      have : Decidable (Each step P t (past ++ es) as) := decidableEach t (past ++ es) as
      decidable_of_iff (P s past a es ∧ Each step P t (past ++ es) as) (each_cons h).symm

/-- Every state that the script passes through, the first and the last included, has the
property `P`. -/
def Always (step : σ → α → Option (σ × List ε)) (P : σ → Prop) : σ → List α → Prop
  | s, [] => P s
  | s, a :: as => P s ∧ ∀ s' es, step s a = some (s', es) → Always step P s' as

/-- Along an executed step the states of a script are the first one and those of its rest. -/
theorem always_cons {step : σ → α → Option (σ × List ε)} {P : σ → Prop} {s t : σ} {a : α}
    {as : List α} {es : List ε} (h : step s a = some (t, es)) :
    Always step P s (a :: as) ↔ P s ∧ Always step P t as := by
  refine and_congr_right fun _ => ⟨fun hall => hall t es h, fun hrest s' es' h' => ?_⟩
  obtain ⟨rfl, -⟩ := Prod.mk.inj (Option.some.inj (h.symm.trans h'))
  exact hrest

/-- The states a machine can reach from `s` by some script. -/
def Reachable (step : σ → α → Option (σ × List ε)) (s t : σ) : Prop :=
  ∃ as es, exec step s as = some (t, es)

section Execution

variable {step : σ → α → Option (σ × List ε)} {s s' : σ} {as bs : List α} {es : List ε}

@[simp] theorem exec_nil : exec step s [] = some (s, []) := rfl

/-- A nonempty script executes exactly when its first step does and the rest
executes from there. -/
theorem exec_cons_eq_some {a : α} :
    exec step s (a :: as) = some (s', es) ↔
      ∃ t first rest, step s a = some (t, first) ∧ exec step t as = some (s', rest) ∧
        es = first ++ rest := by
  constructor
  · intro h
    simp only [exec] at h
    split at h
    · cases h
    · rename_i t first hstep
      split at h
      · cases h
      · rename_i u rest hrest
        obtain ⟨rfl, rfl⟩ := Prod.mk.inj (Option.some.inj h)
        exact ⟨t, first, rest, hstep, hrest, rfl⟩
  · rintro ⟨t, first, rest, hstep, hrest, rfl⟩
    simp only [exec, hstep, hrest]

/-- Executing a concatenation is executing its parts one after the other. -/
theorem exec_append_eq_some :
    exec step s (as ++ bs) = some (s', es) ↔
      ∃ t first rest, exec step s as = some (t, first) ∧ exec step t bs = some (s', rest) ∧
        es = first ++ rest := by
  induction as generalizing s es with
  | nil => simp
  | cons a as ih =>
    simp only [List.cons_append, exec_cons_eq_some, ih]
    constructor
    · rintro ⟨u, first, rest, hstep, ⟨t, mid, last, hmid, hlast, rfl⟩, rfl⟩
      exact ⟨t, first ++ mid, last, ⟨u, first, mid, hstep, hmid, rfl⟩, hlast, by simp⟩
    · rintro ⟨t, first, rest, ⟨u, head, mid, hstep, hmid, rfl⟩, hlast, rfl⟩
      exact ⟨u, head, mid ++ rest, hstep, ⟨t, mid, rest, hmid, hlast, rfl⟩, by simp⟩

/-- **Invariant rule with outputs.** What relates the state to the outputs so far
and is kept by every step that meets `C` holds after every script along which `C`
holds. The outputs before the run are `past`. -/
theorem exec_invariant_outputs {C : σ → α → Prop} {I : σ → List ε → Prop}
    (past : List ε)
    (hstep : ∀ s a s' es past, I s past → C s a → step s a = some (s', es) → I s' (past ++ es))
    (hinit : I s past) (halong : Along step C s as) (hexec : exec step s as = some (s', es)) :
    I s' (past ++ es) := by
  induction as generalizing s past es with
  | nil =>
    obtain ⟨rfl, rfl⟩ := Prod.mk.inj (Option.some.inj hexec)
    simpa using hinit
  | cons a as ih =>
    obtain ⟨t, first, rest, ha, hrest, rfl⟩ := exec_cons_eq_some.mp hexec
    obtain ⟨hC, htail⟩ := halong
    have hnext := hstep s a t first past hinit hC ha
    simpa only [List.append_assoc] using ih (past ++ first) hnext (htail t first ha) hrest

/-- **Invariant rule.** The case of `exec_invariant_outputs` that ignores outputs. -/
theorem exec_invariant {C : σ → α → Prop} {I : σ → Prop}
    (hstep : ∀ s a s' es, I s → C s a → step s a = some (s', es) → I s')
    (hinit : I s) (halong : Along step C s as) (hexec : exec step s as = some (s', es)) :
    I s' :=
  exec_invariant_outputs (I := fun s _ => I s) []
    (fun s a s' es _ hI hC ha => hstep s a s' es hI hC ha) hinit halong hexec

/-- **First in, first out, along a condition.** If every step that meets `C` puts the items that
its action brings behind the stored ones and takes the items of its outputs from the front, so does
a whole run of such steps. -/
theorem exec_fifo_along {β : Type*} {C : σ → α → Prop} {I : σ → Prop} {stored : σ → List β}
    {input : α → List β} {output : ε → List β}
    (hstep : ∀ s a s' es, I s → C s a → step s a = some (s', es) →
      I s' ∧ stored s ++ input a = es.flatMap output ++ stored s')
    (hinit : I s) (halong : Along step C s as) (hexec : exec step s as = some (s', es)) :
    stored s ++ as.flatMap input = es.flatMap output ++ stored s' := by
  induction as generalizing s es with
  | nil =>
    obtain ⟨rfl, rfl⟩ := Prod.mk.inj (Option.some.inj hexec)
    simp
  | cons a as ih =>
    obtain ⟨t, first, rest, ha, hrest, rfl⟩ := exec_cons_eq_some.mp hexec
    obtain ⟨hnext, hone⟩ := hstep s a t first hinit halong.1 ha
    have hall := ih hnext (halong.2 t first ha) hrest
    rw [List.flatMap_cons, ← List.append_assoc, hone, List.append_assoc, hall,
      List.flatMap_append, List.append_assoc]

/-- **Progress rule.** If the steps that meet `C` are never refused and keep the relation
`I` to the outputs so far, a script along which `C` holds is executed to its end. -/
theorem exec_progress {C : σ → α → Prop} {I : σ → List ε → Prop} {past : List ε}
    (hstep : ∀ s a past, I s past → C s a →
      ∃ s' es, step s a = some (s', es) ∧ I s' (past ++ es))
    (hinit : I s past) (halong : Along step C s as) :
    ∃ s' es, exec step s as = some (s', es) ∧ I s' (past ++ es) := by
  induction as generalizing s past with
  | nil => exact ⟨s, [], rfl, by simpa using hinit⟩
  | cons a as ih =>
    obtain ⟨hC, htail⟩ := halong
    obtain ⟨t, first, ha, hnext⟩ := hstep s a past hinit hC
    obtain ⟨u, rest, hrest, hlast⟩ := ih hnext (htail t first ha)
    refine ⟨u, first ++ rest, ?_, by rwa [← List.append_assoc]⟩
    exact exec_cons_eq_some.mpr ⟨t, first, rest, ha, hrest, rfl⟩

/-- **Simulation rule.** If every step of one machine is answered by a step of the other with
the same outputs that keeps the relation `R`, so is every execution. -/
theorem exec_simulation {τ : Type*} {step' : τ → α → Option (τ × List ε)} {R : τ → σ → Prop}
    {t : τ} (hstep : ∀ t s a s' es, R t s → step s a = some (s', es) →
      ∃ t', step' t a = some (t', es) ∧ R t' s')
    (hinit : R t s) (hexec : exec step s as = some (s', es)) :
    ∃ t', exec step' t as = some (t', es) ∧ R t' s' := by
  induction as generalizing s t es with
  | nil =>
    obtain ⟨rfl, rfl⟩ := Prod.mk.inj (Option.some.inj hexec)
    exact ⟨t, rfl, hinit⟩
  | cons a as ih =>
    obtain ⟨u, first, rest, ha, hrest, rfl⟩ := exec_cons_eq_some.mp hexec
    obtain ⟨v, hv, hnext⟩ := hstep t s a u first hinit ha
    obtain ⟨t', ht', hlast⟩ := ih hnext hrest
    exact ⟨t', exec_cons_eq_some.mpr ⟨v, first, rest, hv, ht', rfl⟩, hlast⟩

/-- **Abstraction rule.** If every step of one machine is an execution of another with the same
outputs, between the states that the function `f` maps to, so is every execution. -/
theorem exec_abstraction {τ β : Type*} {step' : τ → β → Option (τ × List ε)} {f : σ → τ}
    (hstep : ∀ s a s' es, step s a = some (s', es) →
      ∃ bs, exec step' (f s) bs = some (f s', es))
    (hexec : exec step s as = some (s', es)) : ∃ bs, exec step' (f s) bs = some (f s', es) := by
  induction as generalizing s es with
  | nil =>
    obtain ⟨rfl, rfl⟩ := Prod.mk.inj (Option.some.inj hexec)
    exact ⟨[], rfl⟩
  | cons a as ih =>
    obtain ⟨t, first, rest, ha, hrest, rfl⟩ := exec_cons_eq_some.mp hexec
    obtain ⟨bs, hbs⟩ := hstep s a t first ha
    obtain ⟨bs', hbs'⟩ := ih hrest
    exact ⟨bs ++ bs', exec_append_eq_some.mpr ⟨f t, first, rest, hbs, hbs', rfl⟩⟩

/-- A condition that every step meets holds along every script. -/
theorem along_of_forall {C : σ → α → Prop} (h : ∀ s a, C s a) : Along step C s as := by
  induction as generalizing s with
  | nil => trivial
  | cons a as ih => exact ⟨h s a, fun _ _ _ => ih⟩

/-- A condition on the actions alone holds along the scripts of such actions. -/
theorem along_of_mem {D : α → Prop} (h : ∀ a ∈ as, D a) : Along step (fun _ => D) s as := by
  induction as generalizing s with
  | nil => trivial
  | cons a as ih =>
    exact ⟨h a List.mem_cons_self, fun _ _ _ => ih fun b hb => h b (List.mem_cons_of_mem _ hb)⟩

/-- **Invariant rule without a condition.** What relates the state to the outputs so far and is
kept by every step holds after every script. -/
theorem exec_keeps {I : σ → List ε → Prop}
    (hstep : ∀ s a s' es past, I s past → step s a = some (s', es) → I s' (past ++ es))
    (hinit : I s []) (hexec : exec step s as = some (s', es)) : I s' es := by
  have h := exec_invariant_outputs (C := fun _ _ => True) []
    (fun s a s' es past hI _ ha => hstep s a s' es past hI ha) hinit
    (along_of_forall fun _ _ => trivial) hexec
  rwa [List.nil_append] at h

/-- **Invariant rule with the script.** What relates the state to the actions and the outputs so
far and is kept by every step holds after every script. The induction is from behind, since the
relation grows with the last action. -/
theorem exec_keeps_script {I : σ → List α → List ε → Prop}
    (hstep : ∀ s a s' es done past, I s done past → step s a = some (s', es) →
      I s' (done ++ [a]) (past ++ es))
    (hinit : I s [] []) (hexec : exec step s as = some (s', es)) : I s' as es := by
  induction as using List.reverseRecOn generalizing s' es with
  | nil =>
    obtain ⟨rfl, rfl⟩ := Prod.mk.inj (Option.some.inj hexec)
    exact hinit
  | append_singleton as a ih =>
    obtain ⟨t, first, rest, hfirst, hrest, rfl⟩ := exec_append_eq_some.mp hexec
    obtain ⟨u, last, none, ha, hnone, rfl⟩ := exec_cons_eq_some.mp hrest
    obtain ⟨rfl, rfl⟩ := Prod.mk.inj (Option.some.inj hnone)
    rw [List.append_nil]
    exact hstep t a u last as first (ih hfirst) ha

/-- What every step preserves without a condition holds in every reachable state. -/
theorem Reachable.invariant {I : σ → Prop} {t : σ} (h : Reachable step s t)
    (hstep : ∀ s a s' es, I s → step s a = some (s', es) → I s') (hinit : I s) : I t := by
  obtain ⟨as, es, hexec⟩ := h
  exact exec_keeps (I := fun s _ => I s) (fun s a s' es _ hI ha => hstep s a s' es hI ha) hinit
    hexec

/-- What the steps that meet `C` keep holds in all states of a script along which `C` holds. -/
theorem always_of_along {C : σ → α → Prop} {I : σ → Prop}
    (hkeep : ∀ s a s' es, I s → C s a → step s a = some (s', es) → I s')
    (hinit : I s) (halong : Along step C s as) : Always step I s as := by
  induction as generalizing s with
  | nil => exact hinit
  | cons a as ih =>
    refine ⟨hinit, fun t first ha => ?_⟩
    exact ih (hkeep s a t first hinit halong.1 ha) (halong.2 t first ha)

/-- The last state of an execution is one that the script passes through. -/
theorem Always.last {P : σ → Prop} (h : Always step P s as)
    (hexec : exec step s as = some (s', es)) : P s' := by
  induction as generalizing s es with
  | nil =>
    obtain ⟨rfl, -⟩ := Prod.mk.inj (Option.some.inj hexec)
    exact h
  | cons a as ih =>
    obtain ⟨t, first, rest, ha, hrest, -⟩ := exec_cons_eq_some.mp hexec
    exact ih (h.2 t first ha) hrest

/-- The states of a concatenation are those of its parts. -/
theorem always_append {P : σ → Prop} {t : σ} (hexec : exec step s as = some (t, es)) :
    Always step P s (as ++ bs) ↔ Always step P s as ∧ Always step P t bs := by
  induction as generalizing s es with
  | nil =>
    obtain ⟨rfl, -⟩ := Prod.mk.inj (Option.some.inj hexec)
    refine ⟨fun hall => ⟨?_, hall⟩, fun hall => hall.2⟩
    cases bs with
    | nil => exact hall
    | cons b bs => exact hall.1
  | cons a as ih =>
    obtain ⟨u, first, rest, ha, hrest, -⟩ := exec_cons_eq_some.mp hexec
    rw [List.cons_append, always_cons ha, always_cons ha, ih hrest, and_assoc]

/-- **Exactness rule.** If the steps that meet `C` keep an invariant `I` that implies `P`,
and all other steps from there break `P`, then an executed script keeps `P` in all its states
exactly when all its steps meet `C`. -/
theorem always_iff_along {C : σ → α → Prop} {I P : σ → Prop} (hsafe : ∀ s, I s → P s)
    (hkeep : ∀ s a s' es, I s → C s a → step s a = some (s', es) → I s')
    (hbreak : ∀ s a s' es, I s → ¬C s a → step s a = some (s', es) → ¬P s')
    (hI : I s) (hexec : exec step s as = some (s', es)) :
    Always step P s as ↔ Along step C s as := by
  induction as generalizing s es with
  | nil => exact ⟨fun _ => trivial, fun _ => hsafe s hI⟩
  | cons a as ih =>
    obtain ⟨t, first, rest, ha, hrest, -⟩ := exec_cons_eq_some.mp hexec
    have hsame {u : σ} {out : List ε} (hu : step s a = some (u, out)) : u = t :=
      (Prod.mk.inj (Option.some.inj (hu.symm.trans ha))).1
    constructor
    · rintro ⟨-, hall⟩
      have hPt : P t := by
        cases as with
        | nil => exact hall t first ha
        | cons b bs => exact (hall t first ha).1
      have hC : C s a := by
        by_contra hC
        exact hbreak s a t first hI hC ha hPt
      refine ⟨hC, fun u out hu => ?_⟩
      obtain rfl := hsame hu
      exact (ih (hkeep s a u first hI hC ha) hrest).mp (hall u first ha)
    · rintro ⟨hC, htail⟩
      refine ⟨hsafe s hI, fun u out hu => ?_⟩
      obtain rfl := hsame hu
      exact (ih (hkeep s a u first hI hC ha) hrest).mpr (htail u first ha)

/-- **Exactness rule for total runs.** If the steps that meet `C` are possible and keep an
invariant `I` that implies `P`, and all other steps from there are refused or break `P`, then a
script is executed to its end with `P` in all its states exactly when all its steps meet `C`. -/
theorem exec_always_iff_along {C : σ → α → Prop} {I P : σ → Prop} (hsafe : ∀ s, I s → P s)
    (hkeep : ∀ s a, I s → C s a → ∃ s' es, step s a = some (s', es) ∧ I s')
    (hbreak : ∀ s a s' es, I s → ¬C s a → step s a = some (s', es) → ¬P s')
    (hI : I s) :
    (∃ s' es, exec step s as = some (s', es)) ∧ Always step P s as ↔ Along step C s as := by
  have hkeep' : ∀ s a s' es, I s → C s a → step s a = some (s', es) → I s' := by
    intro s a s' es hs hC ha
    obtain ⟨t, first, ha', hnext⟩ := hkeep s a hs hC
    obtain ⟨rfl, -⟩ := Prod.mk.inj (Option.some.inj (ha'.symm.trans ha))
    exact hnext
  constructor
  · rintro ⟨⟨s', es, hexec⟩, hall⟩
    exact (always_iff_along hsafe hkeep' hbreak hI hexec).mp hall
  · intro halong
    have hrun : ∃ s' es, exec step s as = some (s', es) ∧ I s' :=
      @exec_progress _ _ _ _ _ _ C (fun s _ => I s) [] (fun s a _ hs hC => hkeep s a hs hC) hI
        halong
    obtain ⟨s', es, hexec, -⟩ := hrun
    exact ⟨⟨s', es, hexec⟩, (always_iff_along hsafe hkeep' hbreak hI hexec).mpr halong⟩

/-- **Rule for steps.** If the steps that meet `C` keep an invariant and have the property `P`, all
steps of a script along which `C` holds have it. -/
theorem each_of_along {C : σ → α → Prop} {I : σ → List ε → Prop}
    {P : σ → List ε → α → List ε → Prop} {past : List ε}
    (hstep : ∀ s a s' es past, I s past → C s a → step s a = some (s', es) →
      P s past a es ∧ I s' (past ++ es))
    (hinit : I s past) (halong : Along step C s as) : Each step P s past as := by
  induction as generalizing s past with
  | nil => trivial
  | cons a as ih =>
    intro t first ha
    obtain ⟨hprop, hnext⟩ := hstep s a t first past hinit halong.1 ha
    exact ⟨hprop, ih hnext (halong.2 t first ha)⟩

/-- **Exactness rule for steps.** If an invariant that all steps keep makes the property `P` of
a step the same as its condition `C`, all steps of an executed script have the property exactly
when all meet the condition. -/
theorem each_iff_along {C : σ → α → Prop} {I : σ → List ε → Prop}
    {P : σ → List ε → α → List ε → Prop} {past : List ε}
    (hkeep : ∀ s a s' es past, I s past → step s a = some (s', es) → I s' (past ++ es))
    (hiff : ∀ s a s' es past, I s past → step s a = some (s', es) → (P s past a es ↔ C s a))
    (hinit : I s past) (hexec : exec step s as = some (s', es)) :
    Each step P s past as ↔ Along step C s as := by
  induction as generalizing s past es with
  | nil => exact Iff.rfl
  | cons a as ih =>
    obtain ⟨t, first, rest, ha, hrest, -⟩ := exec_cons_eq_some.mp hexec
    rw [each_cons ha, along_cons ha, hiff s a t first past hinit ha,
      ih (hkeep s a t first past hinit ha) hrest]

/-- **Exactness rule for what stays.** If a step keeps `K` exactly when it meets `C`, and lost it is
never regained, an executed script that starts with `K` ends with it exactly when all its steps
meet `C`. -/
theorem kept_iff_along {C : σ → α → Prop} {I K : σ → List ε → Prop} {past : List ε}
    (hkeep : ∀ s a s' es past, I s past → step s a = some (s', es) → I s' (past ++ es))
    (hiff : ∀ s a s' es past, I s past → step s a = some (s', es) →
      (K s' (past ++ es) ↔ K s past ∧ C s a))
    (hinit : I s past) (hexec : exec step s as = some (s', es)) :
    K s' (past ++ es) ↔ K s past ∧ Along step C s as := by
  induction as generalizing s past es with
  | nil =>
    obtain ⟨rfl, rfl⟩ := Prod.mk.inj (Option.some.inj hexec)
    rw [List.append_nil]
    exact (and_iff_left trivial).symm
  | cons a as ih =>
    obtain ⟨t, first, rest, ha, hrest, rfl⟩ := exec_cons_eq_some.mp hexec
    rw [← List.append_assoc, ih (hkeep s a t first past hinit ha) hrest,
      hiff s a t first past hinit ha, along_cons ha, and_assoc]

/-- What the outputs of every step have in common, all outputs of the run have in common. -/
theorem each_outputs_iff {Q : ε → Prop} (past : List ε) (hexec : exec step s as = some (s', es)) :
    Each step (fun _ _ _ out => ∀ e ∈ out, Q e) s past as ↔ ∀ e ∈ es, Q e := by
  induction as generalizing s past es with
  | nil =>
    obtain ⟨-, rfl⟩ := Prod.mk.inj (Option.some.inj hexec)
    exact ⟨fun _ e he => absurd he List.not_mem_nil, fun _ => trivial⟩
  | cons a as ih =>
    obtain ⟨t, first, rest, ha, hrest, rfl⟩ := exec_cons_eq_some.mp hexec
    rw [each_cons ha, ih _ hrest]
    simp only [List.mem_append, or_imp, forall_and]

end Execution

end Scripts
