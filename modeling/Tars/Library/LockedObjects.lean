import Mathlib.Logic.Function.Basic
import Tars.Library.Linearization
import Tars.Library.Scripts

/-!
# Objects behind a lock

The operations of an object are functions that take its lock, touch its members one access at a
time, may wait for other threads, which gives the lock away, and leave the lock with a result. A
wait may end at any time, with or without a reason, and some waits run out: the function then gives
up with a result that is known before. If every function, run alone, does to the members what the
operation is said to do, and what it returns when a wait runs out is right when the wait starts,
then the object is linearizable, whatever the threads do.
-/

namespace LockedObjects

open Scripts Linearization

/-- What follows an access to the members: the next access, a wait, the end of the call, or an
error. -/
inductive Next (L R : Type*) where
  /-- The function goes on. -/
  | run (l : L)
  /-- It waits. -/
  | wait (l : L)
  /-- It leaves the lock. -/
  | leave (r : R)
  /-- An assertion fails. -/
  | fail

/-- The functions of an object with members `M`; `L` says where in a function a thread is, and
holds its local variables. -/
structure Code (M O L R : Type*) where
  /-- Where the function of an operation starts. -/
  enter : O → L
  /-- The access that comes next. -/
  access : M → L → M × Next L R
  /-- Where a function goes on after a wait. -/
  resume : L → L
  /-- What it returns if the wait runs out; `none` if it cannot. -/
  expired : L → Option R

/-- Where a thread is in its call: before, behind or in the section that the lock protects. -/
inductive Phase (O L R : Type*) where
  /-- Not in a call. -/
  | idle
  /-- Before the lock is taken. -/
  | locking (o : O)
  /-- Behind the lock. -/
  | running (o : O) (l : L)
  /-- In a wait. -/
  | waiting (o : O) (l : L)
  /-- The wait ran out, and the lock is to be taken again. -/
  | expiring (r : R)
  /-- Before the lock is left. -/
  | leaving (r : R)
  /-- Behind the lock, with a result. -/
  | returning (r : R)
  /-- An assertion failed. -/
  | failed

/-- The members, the lock and the threads: everything that a step may look at. -/
structure State (T M O L R : Type*) where
  /-- The members of the object. -/
  members : M
  /-- The thread that has the lock. -/
  owner : Option T
  /-- Where the threads are: outside of the calls, or at which access of which call. -/
  phase : T → Phase O L R

/-- What happens next: a thread calls a function or goes one step on, or its wait runs out. -/
inductive Action (T O : Type*) where
  /-- A thread calls a function. -/
  | call (t : T) (o : O)
  /-- A thread takes its next step. -/
  | thread (t : T)
  /-- The wait of a thread runs out. -/
  | expire (t : T)

variable {T M O L R A : Type*} [DecidableEq T]

namespace State

/-- At the start no thread is in a call, and nobody has the lock. -/
def new (m : M) : State T M O L R := ⟨m, none, fun _ => .idle⟩

/-- Move a thread to another place, and leave the others where they are. -/
def setPhase (s : State T M O L R) (t : T) (phase : Phase O L R) : State T M O L R :=
  { s with phase := Function.update s.phase t phase }

/-- A thread takes the lock, if it is free. -/
def lock (s : State T M O L R) (t : T) (phase : Phase O L R) : Option (State T M O L R) :=
  match s.owner with
  | none => some ({ s with owner := some t }.setPhase t phase)
  | some _ => none

/-- A thread leaves the lock, which then is free, and goes on at another place. -/
def unlock (s : State T M O L R) (t : T) (phase : Phase O L R) : State T M O L R :=
  { s with owner := none }.setPhase t phase

section Fields

variable {s : State T M O L R} {t u : T} {phase : Phase O L R}

@[simp] theorem setPhase_owner : (s.setPhase t phase).owner = s.owner := rfl

@[simp] theorem setPhase_phase_self : (s.setPhase t phase).phase t = phase :=
  Function.update_self ..

theorem setPhase_phase_of_ne (h : u ≠ t) : (s.setPhase t phase).phase u = s.phase u :=
  Function.update_of_ne h ..

/-- A thread that stays where it is leaves the state as it was, so a stutter is no step. -/
theorem setPhase_eq_self (h : s.phase t = phase) : s.setPhase t phase = s := by
  rw [setPhase, ← h, Function.update_eq_self]

end Fields

/-- What follows an access of a thread, which holds the lock until it waits or leaves. -/
def goOn (s : State T M O L R) (t : T) (o : O) : Next L R → State T M O L R
  | .run l => s.setPhase t (.running o l)
  | .wait l => s.unlock t (.waiting o l)
  | .leave r => s.setPhase t (.leaving r)
  | .fail => s.setPhase t .failed

/-- The next step of a thread, if it is not blocked. -/
def threadStep (code : Code M O L R) (s : State T M O L R) (t : T) :
    Option (State T M O L R × List (Event T O R)) :=
  match s.phase t with
  | .idle | .failed => none
  | .locking o => (s.lock t (.running o (code.enter o))).map (·, [])
  | .running o l =>
    let (members, next) := code.access s.members l
    some ({ s with members }.goOn t o next, [])
  | .waiting o l => (s.lock t (.running o (code.resume l))).map (·, [])
  | .expiring r => (s.lock t (.leaving r)).map (·, [])
  | .leaving r => some (s.unlock t (.returning r), [])
  | .returning r => some (s.setPhase t .idle, [.ret t r])

/-- One step of a run. What a thread cannot do where it is, is refused. -/
def step (code : Code M O L R) (s : State T M O L R) :
    Action T O → Option (State T M O L R × List (Event T O R))
  | .call t o =>
    match s.phase t with
    | .idle => some (s.setPhase t (.locking o), [.call t o])
    | _ => none
  | .thread t => s.threadStep code t
  | .expire t =>
    match s.phase t with
    | .waiting _ l => (code.expired l).map fun r => (s.setPhase t (.expiring r), [])
    | _ => none

end State

/-- What an access of the function of `o`, which found the members `m` behind the lock and leaves
them as `m'`, may be followed by. `view` is what the members stand for, and `At o m l m'` says that
the function comes to `l` with the members `m'`. -/
def Next.Fits (code : Code M O L R) (spec : A → O → A × R) (view : M → A) (I : M → Prop)
    (At : O → M → L → M → Prop) (Resting : O → L → Prop) (o : O) (m m' : M) : Next L R → Prop
  | .run l => At o m l m'
  -- A function that waits has done nothing. If the wait can run out, the result it has then is what
  -- is said of the operation.
  | .wait l => Resting o l ∧ I m' ∧ view m' = view m ∧
      ∀ r, code.expired l = some r → spec (view m) o = (view m, r)
  | .leave r => I m' ∧ spec (view m) o = (view m', r)
  | .fail => False

/-- Run alone, the functions do what is said of the operations. -/
structure Meets (code : Code M O L R) (spec : A → O → A × R) (view : M → A) (I : M → Prop)
    (At : O → M → L → M → Prop) (Resting : O → L → Prop) : Prop where
  /-- Behind the lock a function is at its start. -/
  enter : ∀ o m, I m → At o m (code.enter o) m
  /-- From one access to the next. -/
  access : ∀ o m l m', At o m l m' →
    (code.access m' l).2.Fits code spec view I At Resting o m (code.access m' l).1
  /-- After a wait a function goes on as if it came from the lock. -/
  resume : ∀ o m l, Resting o l → I m → At o m (code.resume l) m

/-- How far the call of a thread is, as the linearization has to see it. -/
def Phase.status : Phase O L R → Status O R
  | .idle | .failed => .idle
  | .locking o | .running o _ | .waiting o _ => .pending o
  | .expiring r | .leaving r | .returning r => .answered r

/-- Whether a thread has the lock, as its place says. -/
def Phase.holds : Phase O L R → Bool
  | .running _ _ | .leaving _ => true
  | .idle | .locking _ | .waiting _ _ | .expiring _ | .returning _ | .failed => false

/-- What the members are while a thread that has the lock is here, with the object in the state
`a`. -/
def Phase.Finds (view : M → A) (I : M → Prop) (At : O → M → L → M → Prop) (a : A) (m : M) :
    Phase O L R → Prop
  | .running o l => ∃ m₀, view m₀ = a ∧ At o m₀ l m
  | .leaving _ => I m ∧ view m = a
  | .idle | .locking _ | .waiting _ _ | .expiring _ | .returning _ | .failed => True

/-- What is known of a thread wherever it is. -/
def Phase.Knows (code : Code M O L R) (Resting : O → L → Prop) (spec : A → O → A × R) (a : A)
    (ps : List (Point T O R)) (t : T) : Phase O L R → Prop
  | .waiting o l => Resting o l ∧ ∀ r, code.expired l = some r → Waits spec a ps t o r
  | .failed => False
  | .idle | .locking _ | .running _ _ | .expiring _ | .leaving _ | .returning _ => True

/-- The moments that the calls have been given fit the phases of the threads. -/
structure Tracks (code : Code M O L R) (spec : A → O → A × R) (Resting : O → L → Prop) (a : A)
    (phase : T → Phase O L R) (ps : List (Point T O R)) : Prop where
  /-- The answers are those of the object. -/
  legal : Legal spec a ps
  /-- The phases tell how far the calls are. -/
  orderly : ∀ t, Orderly ps t (phase t).status
  /-- Waits that can run out may have their moment in the past. -/
  knows : ∀ t, (phase t).Knows code Resting spec a ps t

/-- The members stand for the state `a` of the object, but for what the thread that has the lock has
done to them. -/
structure Guards (view : M → A) (I : M → Prop) (At : O → M → L → M → Prop) (a : A)
    (s : State T M O L R) : Prop where
  /-- The phases tell who has the lock. -/
  owner_iff : ∀ t, s.owner = some t ↔ (s.phase t).holds = true
  /-- While the lock is free the members are those of the object. -/
  free : s.owner = none → I s.members ∧ view s.members = a
  /-- While a thread has it the members are on their way. -/
  held : ∀ t, s.owner = some t → (s.phase t).Finds view I At a s.members

section Steps

variable {code : Code M O L R} {spec : A → O → A × R} {view : M → A} {I : M → Prop}
  {At : O → M → L → M → Prop} {Resting : O → L → Prop} {a a' : A} {s s' : State T M O L R}
  {ps qs : List (Point T O R)} {t u : T} {o : O} {l : L} {r : R} {m : M} {phase : Phase O L R}
  {phases : T → Phase O L R} {p : Point T O R}

namespace Phase

/-- A point of another thread leaves what is known of a thread. -/
theorem Knows.concat (h : phase.Knows code Resting spec a ps t) (hp : p.thread ≠ t) :
    phase.Knows code Resting spec a (ps ++ [p]) t := by
  cases phase with
  | waiting o l => exact ⟨h.1, fun r hr => (h.2 r hr).concat hp⟩
  | idle | locking | running | expiring | leaving | returning => trivial
  | failed => exact h

/-- So does the moment of a wait that ran out. -/
theorem Knows.insert (h : phase.Knows code Resting spec a (ps ++ qs) t) (hu : u ≠ t)
    (hspec : spec (after spec a ps) o = (after spec a ps, r)) :
    phase.Knows code Resting spec a (ps ++ .effect u o r :: qs) t := by
  cases phase with
  | waiting o l => exact ⟨h.1, fun r hr => (h.2 r hr).insert hu hspec⟩
  | idle | locking | running | expiring | leaving | returning => trivial
  | failed => exact h

end Phase

namespace Tracks

/-- At the start nothing has happened, so the empty history is linearized. -/
theorem new : Tracks code spec Resting a (fun _ : T => .idle) [] where
  legal := trivial
  orderly _ := orderly_nil
  knows _ := trivial

/-- A thread moves on within its call without having its effect: the points so far still explain
what can be seen. -/
theorem silent (h : Tracks code spec Resting a phases ps)
    (hstatus : phase.status = (phases t).status) (hknows : phase.Knows code Resting spec a ps t) :
    Tracks code spec Resting a (Function.update phases t phase) ps where
  legal := h.legal
  orderly u := by
    obtain rfl | hne := eq_or_ne u t
    · rw [Function.update_self, hstatus]
      exact h.orderly u
    · rw [Function.update_of_ne hne]
      exact h.orderly u
  knows u := by
    obtain rfl | hne := eq_or_ne u t
    · rwa [Function.update_self]
    · rw [Function.update_of_ne hne]
      exact h.knows u

/-- A thread starts its call, gets its answer or has its moment. -/
theorem concat (h : Tracks code spec Resting a phases ps) (phase : Phase O L R) (p : Point T O R)
    (hp : p.thread = t)
    (hlegal : Legal spec (after spec a ps) [p]) (hgoes : (phases t).status.Goes p phase.status)
    (hknows : phase.Knows code Resting spec a (ps ++ [p]) t) :
    Tracks code spec Resting a (Function.update phases t phase) (ps ++ [p]) where
  legal := legal_append.mpr ⟨h.legal, hlegal⟩
  orderly u := by
    obtain rfl | hne := eq_or_ne u t
    · rw [Function.update_self]
      exact (h.orderly u).concat hp hgoes
    · rw [Function.update_of_ne hne]
      exact (h.orderly u).concat_of_ne (hp ▸ hne.symm)
  knows u := by
    obtain rfl | hne := eq_or_ne u t
    · rwa [Function.update_self]
    · rw [Function.update_of_ne hne]
      exact (h.knows u).concat (hp ▸ hne.symm)

/-- A wait runs out: the call had its moment when the wait started. -/
theorem expire (h : Tracks code spec Resting a phases ps) (hphase : phases t = .waiting o l)
    (hr : code.expired l = some r) : ∃ ps', events ps' = events ps ∧
      after spec a ps' = after spec a ps ∧
      Tracks code spec Resting a (Function.update phases t (.expiring r)) ps' := by
  have hknows := h.knows t
  rw [hphase] at hknows
  obtain ⟨before, since, rfl, horderly, hsince, hspec⟩ := hknows.2 r hr
  refine ⟨before ++ .effect t o r :: since, by rw [events_append, events_append]; rfl,
    after_insert hspec, (legal_insert hspec).mpr h.legal, fun u => ?_, fun u => ?_⟩
  · obtain rfl | hne := eq_or_ne u t
    · rw [Function.update_self]
      exact horderly.insert hsince
    · rw [Function.update_of_ne hne]
      exact (orderly_insert_of_ne (p := .effect t o r) hne.symm).mpr (h.orderly u)
  · obtain rfl | hne := eq_or_ne u t
    · rw [Function.update_self]
      trivial
    · rw [Function.update_of_ne hne]
      exact (h.knows u).insert hne.symm hspec

end Tracks

namespace Guards

omit [DecidableEq T] in
/-- At the start the lock is free, so the members have to meet the invariant and show the abstract
state. -/
theorem new (hI : I m) : Guards view I At (view m) (State.new m : State T M O L R) where
  owner_iff _ := iff_of_false (fun h => nomatch h) Bool.false_ne_true
  free _ := ⟨hI, rfl⟩
  held _ h := nomatch h

/-- Threads that do not have the lock move among the phases without it, and what the lock protects
stays. -/
theorem setPhase (h : Guards view I At a s) (hold : (s.phase t).holds = false)
    (hnew : phase.holds = false) : Guards view I At a (s.setPhase t phase) where
  owner_iff u := by
    refine (h.owner_iff u).trans ?_
    obtain rfl | hne := eq_or_ne u t
    · rw [State.setPhase_phase_self, hold, hnew]
    · rw [State.setPhase_phase_of_ne hne]
  free hnone := h.free hnone
  held u hu := by
    have hne : u ≠ t := by
      rintro rfl
      exact absurd ((h.owner_iff u).mp hu) (by rw [hold]; decide)
    rw [State.setPhase_phase_of_ne hne]
    exact h.held u hu

/-- A thread takes the lock, behind which it finds the members as the invariant says. -/
theorem lock (h : Guards view I At a s) (hs : s.lock t phase = some s')
    (hholds : phase.holds = true)
    (hfinds : I s.members → view s.members = a → phase.Finds view I At a s.members) :
    Guards view I At a s' := by
  unfold State.lock at hs
  split at hs
  · next hnone =>
    obtain rfl := Option.some.inj hs
    obtain ⟨hI, hview⟩ := h.free hnone
    refine ⟨fun u => ?_, fun hnone => (nomatch hnone), fun u hu => ?_⟩
    · obtain rfl | hne := eq_or_ne u t
      · rw [State.setPhase_phase_self, hholds]
        exact iff_of_true rfl rfl
      · rw [State.setPhase_phase_of_ne hne, ← h.owner_iff u, hnone]
        exact iff_of_false (fun heq => hne (Option.some.inj heq).symm) fun heq => nomatch heq
    · obtain rfl := Option.some.inj hu
      rw [State.setPhase_phase_self]
      exact hfinds hI hview
  · cases hs

/-- The thread that has the lock goes on with it: what it finds in the members is a fact about its
own phase. -/
theorem goOn (h : Guards view I At a s) (hphase : (s.phase t).holds = true)
    (hholds : phase.holds = true) (hfinds : phase.Finds view I At a' m) :
    Guards view I At a' ({ s with members := m }.setPhase t phase) where
  owner_iff u := by
    refine (h.owner_iff u).trans ?_
    obtain rfl | hne := eq_or_ne u t
    · rw [State.setPhase_phase_self, hphase, hholds]
    · rw [State.setPhase_phase_of_ne hne]
  free hnone := by
    rw [State.setPhase_owner, (h.owner_iff t).mpr hphase] at hnone
    cases hnone
  held u hu := by
    obtain rfl := Option.some.inj (((h.owner_iff t).mpr hphase).symm.trans hu)
    rwa [State.setPhase_phase_self]

/-- The thread that has the lock leaves it: the members have to meet the invariant again and show
the new abstract state. -/
theorem unlock (h : Guards view I At a s) (hphase : (s.phase t).holds = true)
    (hholds : phase.holds = false) (hI : I m) (hview : view m = a') :
    Guards view I At a' ({ s with members := m }.unlock t phase) where
  owner_iff u := by
    refine iff_of_false (fun heq => nomatch heq) ?_
    obtain rfl | hne := eq_or_ne u t
    · rw [State.unlock, State.setPhase_phase_self, hholds]
      decide
    · rw [State.unlock, State.setPhase_phase_of_ne hne, ← h.owner_iff u,
        (h.owner_iff t).mpr hphase]
      exact fun heq => hne (Option.some.inj heq).symm
  free _ := ⟨hI, hview⟩
  held u hu := nomatch hu

end Guards

/-- What every step keeps: there are moments that explain what was seen. -/
def Inv (code : Code M O L R) (spec : A → O → A × R) (view : M → A) (I : M → Prop)
    (At : O → M → L → M → Prop) (Resting : O → L → Prop) (a : A) (s : State T M O L R)
    (es : List (Event T O R)) : Prop :=
  ∃ ps, events ps = es ∧ Tracks code spec Resting a s.phase ps ∧
    Guards view I At (after spec a ps) s

/-- The next access of the thread that has the lock. -/
theorem inv_access {es : List (Event T O R)} (h : Meets code spec view I At Resting)
    (hs : Inv code spec view I At Resting a s es) (hphase : s.phase t = .running o l) :
    Inv code spec view I At Resting a
      ({ s with members := (code.access s.members l).1 }.goOn t o (code.access s.members l).2)
      es := by
  obtain ⟨ps, hevents, htracks, hguards⟩ := hs
  have hholds : (s.phase t).holds = true := by rw [hphase]; rfl
  have hfinds := hguards.held t ((hguards.owner_iff t).mpr hholds)
  rw [hphase] at hfinds
  obtain ⟨m₀, hview, hat⟩ := hfinds
  have hpending : (s.phase t).status = .pending o := by rw [hphase]; rfl
  have hfits := h.access o m₀ l _ hat
  cases haccess : code.access s.members l with
  | mk m next =>
    rw [haccess] at hfits
    cases next with
    | run l' =>
      exact ⟨ps, hevents, htracks.silent hpending.symm trivial,
        hguards.goOn hholds rfl ⟨m₀, hview, hfits⟩⟩
    | wait l' =>
      obtain ⟨hresting, hI, hsame, hexpired⟩ := hfits
      have horderly := htracks.orderly t
      rw [hpending] at horderly
      refine ⟨ps, hevents, htracks.silent hpending.symm ⟨hresting, fun r hr => ?_⟩,
        hguards.unlock hholds rfl hI (hsame.trans hview)⟩
      exact waits_now horderly (hview ▸ hexpired r hr)
    | leave r =>
      obtain ⟨hI, hspec⟩ := hfits
      rw [hview] at hspec
      -- The moment of the call is when it has its result.
      refine ⟨ps ++ [Point.effect t o r], by rw [events_append, hevents]; exact List.append_nil es,
        htracks.concat (.leaving r) (.effect t o r) rfl ⟨by rw [hspec], trivial⟩ ?_ trivial, ?_⟩
      · rw [hpending]
        exact .effect t o r
      · refine hguards.goOn hholds rfl ⟨hI, ?_⟩
        rw [after_append, after, hspec, after]
    | fail => exact hfits.elim

/-- A thread that takes the lock is in its call as before. -/
theorem inv_lock {es : List (Event T O R)} (hs : Inv code spec view I At Resting a s es)
    (hlock : s.lock t phase = some s') (hstatus : phase.status = (s.phase t).status)
    (hholds : phase.holds = true)
    (hfinds : ∀ a, I s.members → view s.members = a → phase.Finds view I At a s.members) :
    Inv code spec view I At Resting a s' es := by
  obtain ⟨ps, hevents, htracks, hguards⟩ := hs
  have hphases : s'.phase = Function.update s.phase t phase := by
    unfold State.lock at hlock
    split at hlock
    · obtain rfl := Option.some.inj hlock
      rfl
    · cases hlock
  refine ⟨ps, hevents, ?_, hguards.lock hlock hholds (hfinds _)⟩
  rw [hphases]
  refine htracks.silent hstatus ?_
  cases phase with
  | running | leaving => trivial
  | idle | locking | waiting | expiring | returning | failed => cases hholds

/-- What can be seen of a step of a thread is the answer to its call. -/
theorem threadStep_events {es : List (Event T O R)} (h : s.threadStep code t = some (s', es)) :
    es = [] ∨ ∃ r, es = [.ret t r] := by
  unfold State.threadStep at h
  split at h
  · cases h
  · cases h
  · obtain ⟨u, -, heq⟩ := Option.map_eq_some_iff.mp h
    exact .inl (Prod.mk.inj heq).2.symm
  · exact .inl (Prod.mk.inj (Option.some.inj h)).2.symm
  · obtain ⟨u, -, heq⟩ := Option.map_eq_some_iff.mp h
    exact .inl (Prod.mk.inj heq).2.symm
  · obtain ⟨u, -, heq⟩ := Option.map_eq_some_iff.mp h
    exact .inl (Prod.mk.inj heq).2.symm
  · exact .inl (Prod.mk.inj (Option.some.inj h)).2.symm
  · next r _ => exact .inr ⟨r, (Prod.mk.inj (Option.some.inj h)).2.symm⟩

/-- What can be seen of a call is its start. -/
theorem step_call_events {es : List (Event T O R)} (h : s.step code (.call t o) = some (s', es)) :
    es = [.call t o] := by
  unfold State.step at h
  dsimp only at h
  split at h
  · exact (Prod.mk.inj (Option.some.inj h)).2.symm
  · cases h

/-- Every step of a thread keeps the invariant, with one case for each of its places. -/
theorem inv_threadStep {es es' : List (Event T O R)} (h : Meets code spec view I At Resting)
    (hs : Inv code spec view I At Resting a s es)
    (hstep : s.threadStep code t = some (s', es')) :
    Inv code spec view I At Resting a s' (es ++ es') := by
  unfold State.threadStep at hstep
  split at hstep
  · cases hstep
  · cases hstep
  · next o hphase =>
    obtain ⟨u, hlock, heq⟩ := Option.map_eq_some_iff.mp hstep
    obtain ⟨rfl, rfl⟩ := Prod.mk.inj heq
    rw [List.append_nil]
    refine inv_lock hs hlock (by rw [hphase]; rfl) rfl fun a hI hview => ?_
    exact ⟨_, hview, h.enter o _ hI⟩
  · next o l hphase =>
    obtain ⟨rfl, rfl⟩ := Prod.mk.inj (Option.some.inj hstep)
    rw [List.append_nil]
    exact inv_access h hs hphase
  · next o l hphase =>
    obtain ⟨u, hlock, heq⟩ := Option.map_eq_some_iff.mp hstep
    obtain ⟨rfl, rfl⟩ := Prod.mk.inj heq
    rw [List.append_nil]
    have hresting : Resting o l := by
      obtain ⟨ps, -, htracks, -⟩ := hs
      have hknows := htracks.knows t
      rw [hphase] at hknows
      exact hknows.1
    refine inv_lock hs hlock (by rw [hphase]; rfl) rfl fun a hI hview => ?_
    exact ⟨_, hview, h.resume o _ l hresting hI⟩
  · next r hphase =>
    obtain ⟨u, hlock, heq⟩ := Option.map_eq_some_iff.mp hstep
    obtain ⟨rfl, rfl⟩ := Prod.mk.inj heq
    rw [List.append_nil]
    exact inv_lock hs hlock (by rw [hphase]; rfl) rfl fun a hI hview => ⟨hI, hview⟩
  · next r hphase =>
    obtain ⟨rfl, rfl⟩ := Prod.mk.inj (Option.some.inj hstep)
    obtain ⟨ps, hevents, htracks, hguards⟩ := hs
    have hholds : (s.phase t).holds = true := by rw [hphase]; rfl
    have hfinds := hguards.held t ((hguards.owner_iff t).mpr hholds)
    rw [hphase] at hfinds
    rw [List.append_nil]
    exact ⟨ps, hevents, htracks.silent (by rw [hphase]; rfl) trivial,
      hguards.unlock hholds rfl hfinds.1 hfinds.2⟩
  · next r hphase =>
    obtain ⟨rfl, rfl⟩ := Prod.mk.inj (Option.some.inj hstep)
    obtain ⟨ps, hevents, htracks, hguards⟩ := hs
    refine ⟨ps ++ [Point.ret t r], by rw [events_append, hevents]; rfl,
      htracks.concat .idle (.ret t r) rfl trivial ?_ trivial, ?_⟩
    · rw [hphase]
      exact .ret t r
    · rw [after_append]
      exact hguards.setPhase (by rw [hphase]; rfl) rfl

/-- Every step keeps the invariant, whatever the environment chooses. -/
theorem inv_step {act : Action T O} {es es' : List (Event T O R)}
    (h : Meets code spec view I At Resting) (hs : Inv code spec view I At Resting a s es)
    (hstep : s.step code act = some (s', es')) :
    Inv code spec view I At Resting a s' (es ++ es') := by
  cases act with
  | call t o =>
    unfold State.step at hstep
    dsimp only at hstep
    split at hstep
    · next hphase =>
      obtain ⟨rfl, rfl⟩ := Prod.mk.inj (Option.some.inj hstep)
      obtain ⟨ps, hevents, htracks, hguards⟩ := hs
      refine ⟨ps ++ [Point.call t o], by rw [events_append, hevents]; rfl,
        htracks.concat (.locking o) (.call t o) rfl trivial ?_ trivial, ?_⟩
      · rw [hphase]
        exact .call t o
      · rw [after_append]
        exact hguards.setPhase (by rw [hphase]; rfl) rfl
    · cases hstep
  | thread t => exact inv_threadStep h hs hstep
  | expire t =>
    unfold State.step at hstep
    dsimp only at hstep
    split at hstep
    · next o l hphase =>
      obtain ⟨r, hr, heq⟩ := Option.map_eq_some_iff.mp hstep
      obtain ⟨rfl, rfl⟩ := Prod.mk.inj heq
      obtain ⟨ps, hevents, htracks, hguards⟩ := hs
      obtain ⟨ps', hevents', hafter, htracks'⟩ := htracks.expire hphase hr
      refine ⟨ps', by rw [hevents', hevents, List.append_nil], htracks', ?_⟩
      rw [hafter]
      exact hguards.setPhase (by rw [hphase]; rfl) rfl
    · cases hstep

/-- **Objects behind a lock are linearizable.** While the lock is free the members are those that
the calls had so far give when they are taken one at a time, and no assertion fails. -/
theorem linearizes {as : List (Action T O)} {es : List (Event T O R)}
    (h : Meets code spec view I At Resting) (hI : I m)
    (hexec : exec (State.step code) (State.new m) as = some (s, es)) :
    ∃ ps, Linearizes spec (view m) es ps ∧
      (s.owner = none → I s.members ∧ view s.members = after spec (view m) ps) ∧
      ∀ t, s.phase t ≠ .failed := by
  have hinv : Inv code spec view I At Resting (view m) s es :=
    exec_keeps (fun _ _ _ _ _ hs ha => inv_step h hs ha)
      ⟨[], rfl, Tracks.new, Guards.new hI⟩ hexec
  obtain ⟨ps, hevents, htracks, hguards⟩ := hinv
  refine ⟨ps, ⟨hevents, htracks.legal, fun t => ⟨_, htracks.orderly t⟩⟩, hguards.free,
    fun t hfailed => ?_⟩
  have hknows := htracks.knows t
  rw [hfailed] at hknows
  exact hknows

end Steps

end LockedObjects
