import Mathlib.Data.List.Basic

/-!
# Linearization

Threads start operations of an object and get answers. What happened is linearizable if every call
that was answered can be given one moment between its start and its answer such that the object,
taken through the operations one after the other in the order of these moments, gives the same
answers. A call that finds the object as it leaves it may be given an earlier moment afterwards, at
which it would have had the same answer: this is what a wait that fails in the end needs.
-/

namespace Linearization

variable {T A O R : Type*}

/-- What can be seen of the calls: when they begin, and what they return. -/
inductive Event (T O R : Type*) where
  /-- A thread starts an operation. -/
  | call (t : T) (o : O)
  /-- It gets an answer. -/
  | ret (t : T) (r : R)
  deriving DecidableEq

/-- What can be seen, and the moments of the calls. -/
inductive Point (T O R : Type*) where
  /-- A thread starts an operation. -/
  | call (t : T) (o : O)
  /-- The moment of the call, and the answer that it will have. -/
  | effect (t : T) (o : O) (r : R)
  /-- The thread gets an answer. -/
  | ret (t : T) (r : R)
  deriving DecidableEq

/-- The thread of a point: the one whose call it belongs to. -/
def Point.thread : Point T O R → T
  | .call t _ | .effect t _ _ | .ret t _ => t

/-- What can be seen of the points: calls and returns, but not when a call took effect. -/
def events (ps : List (Point T O R)) : List (Event T O R) :=
  ps.filterMap fun
    | .call t o => some (.call t o)
    | .effect .. => none
    | .ret t r => some (.ret t r)

/-- The object after the operations, one at a time. -/
def after (spec : A → O → A × R) : A → List (Point T O R) → A
  | a, [] => a
  | a, .effect _ o _ :: ps => after spec (spec a o).1 ps
  | a, .call _ _ :: ps | a, .ret _ _ :: ps => after spec a ps

/-- The answers are those of the object, when the calls take effect one after the other in this
order. -/
def Legal (spec : A → O → A × R) : A → List (Point T O R) → Prop
  | _, [] => True
  | a, .effect _ o r :: ps => (spec a o).2 = r ∧ Legal spec (spec a o).1 ps
  | a, .call _ _ :: ps | a, .ret _ _ :: ps => Legal spec a ps

/-- How far a thread is with its call: before it, in it, or in it with its effect behind it. -/
inductive Status (O R : Type*) where
  /-- It is in no call. -/
  | idle
  /-- The moment of the call is still to come. -/
  | pending (o : O)
  /-- The answer is known, but not given yet. -/
  | answered (r : R)

/-- What a point does to the status of its thread. -/
inductive Status.Goes : Status O R → Point T O R → Status O R → Prop
  | call (t : T) (o : O) : Goes .idle (.call t o) (.pending o)
  | effect (t : T) (o : O) (r : R) : Goes (.pending o) (.effect t o r) (.answered r)
  | ret (t : T) (r : R) : Goes (.answered r) (.ret t r) .idle

/-- The points lead from a status to another, one after the other as a single thread makes them. -/
def Status.Leads : Status O R → List (Point T O R) → Status O R → Prop
  | st, [], st' => st = st'
  | st, p :: ps, st' => ∃ mid, st.Goes p mid ∧ Status.Leads mid ps st'

/-- The calls of a thread follow each other, each with one moment between its start and its
answer; this is how far the last one is. -/
def Orderly [DecidableEq T] (ps : List (Point T O R)) (t : T) (st : Status O R) : Prop :=
  Status.idle.Leads (ps.filter fun p => p.thread = t) st

/-- These moments explain what can be seen: every call has its effect between its beginning and its
end. -/
structure Linearizes [DecidableEq T] (spec : A → O → A × R) (a : A) (es : List (Event T O R))
    (ps : List (Point T O R)) : Prop where
  /-- Nothing but moments is added. -/
  events_eq : events ps = es
  /-- Taken one at a time in this order, the calls have the same answers. -/
  legal : Legal spec a ps
  /-- Each call has its moment between its start and its answer. -/
  orderly : ∀ t, ∃ st, Orderly ps t st

section Points

variable {spec : A → O → A × R} {a : A} {ps qs : List (Point T O R)} {st st' : Status O R} {t : T}
  {o : O} {r : R} {p : Point T O R}

@[simp] theorem events_append : events (ps ++ qs) = events ps ++ events qs :=
  List.filterMap_append

@[simp] theorem after_append : after spec a (ps ++ qs) = after spec (after spec a ps) qs := by
  induction ps generalizing a with
  | nil => rfl
  | cons p ps ih => cases p <;> exact ih

@[simp] theorem legal_append :
    Legal spec a (ps ++ qs) ↔ Legal spec a ps ∧ Legal spec (after spec a ps) qs := by
  induction ps generalizing a with
  | nil => exact ⟨fun h => ⟨trivial, h⟩, And.right⟩
  | cons p ps ih =>
    cases p with
    | call | ret => exact ih
    | effect => exact (and_congr_right fun _ => ih).trans and_assoc.symm

theorem Status.leads_append :
    st.Leads (ps ++ qs) st' ↔ ∃ mid : Status O R, st.Leads ps mid ∧ mid.Leads qs st' := by
  induction ps generalizing st with
  | nil => exact ⟨fun h => ⟨st, rfl, h⟩, fun ⟨_, heq, h⟩ => heq ▸ h⟩
  | cons p ps ih =>
    constructor
    · rintro ⟨next, hgoes, hleads⟩
      obtain ⟨mid, hfirst, hrest⟩ := ih.mp hleads
      exact ⟨mid, ⟨next, hgoes, hfirst⟩, hrest⟩
    · rintro ⟨mid, ⟨next, hgoes, hfirst⟩, hrest⟩
      exact ⟨next, hgoes, ih.mpr ⟨mid, hfirst, hrest⟩⟩

variable [DecidableEq T]

/-- At the start, before the first call, every thread is idle. -/
theorem orderly_nil : Orderly ([] : List (Point T O R)) t .idle := rfl

/-- Points of other threads change nothing of the order of this one's. -/
theorem orderly_append_of_ne (h : ∀ p ∈ qs, p.thread ≠ t) :
    Orderly (ps ++ qs) t st ↔ Orderly ps t st := by
  have hfilter : qs.filter (fun p => p.thread = t) = [] :=
    List.filter_eq_nil_iff.mpr fun p hp => by simpa using h p hp
  rw [Orderly, List.filter_append, hfilter, List.append_nil, Orderly]

/-- A point of the thread itself keeps the order, if its status allows it. -/
theorem Orderly.concat (h : Orderly ps t st) (hp : p.thread = t) (hgoes : st.Goes p st') :
    Orderly (ps ++ [p]) t st' := by
  have hfilter : [p].filter (fun p => p.thread = t) = [p] := by simp [hp]
  rw [Orderly, List.filter_append, hfilter]
  exact Status.leads_append.mpr ⟨st, h, st', hgoes, rfl⟩

/-- A point of another thread keeps the order, whatever it is. -/
theorem Orderly.concat_of_ne (h : Orderly ps t st) (hp : p.thread ≠ t) :
    Orderly (ps ++ [p]) t st :=
  (orderly_append_of_ne fun q hq => by rwa [List.mem_singleton.mp hq]).mpr h

/-- Where a moment lies among the points of other threads makes no difference to a thread. -/
theorem orderly_insert_of_ne (hp : p.thread ≠ t) :
    Orderly (ps ++ p :: qs) t st ↔ Orderly (ps ++ qs) t st := by
  rw [Orderly, List.filter_append, List.filter_cons_of_neg (by simpa using hp),
    ← List.filter_append, Orderly]

/-- A moment may lie before points of other threads. -/
theorem Orderly.insert (h : Orderly ps t (.pending o)) (hqs : ∀ p ∈ qs, p.thread ≠ t) :
    Orderly (ps ++ .effect t o r :: qs) t (.answered r) := by
  rw [List.append_cons, orderly_append_of_ne hqs]
  exact h.concat rfl (.effect t o r)

end Points

section Waits

variable {spec : A → O → A × R} {a : A} {ps qs : List (Point T O R)} {t u : T} {o o' : O}
  {r r' : R} {p : Point T O R}

/-- An operation that leaves the object as it is, put between other points. -/
theorem after_insert (h : spec (after spec a ps) o = (after spec a ps, r)) :
    after spec a (ps ++ .effect t o r :: qs) = after spec a (ps ++ qs) := by
  rw [after_append, after_append, after, h]

/-- Its answer is that of the object, and so are those that follow. -/
theorem legal_insert (h : spec (after spec a ps) o = (after spec a ps, r)) :
    Legal spec a (ps ++ .effect t o r :: qs) ↔ Legal spec a (ps ++ qs) := by
  rw [legal_append, legal_append, Legal, h]
  exact and_congr_right fun _ => and_iff_right rfl

variable [DecidableEq T]

/-- The thread has been in its call since a point at which the call would have left the object as it
is and had this answer. -/
def Waits (spec : A → O → A × R) (a : A) (ps : List (Point T O R)) (t : T) (o : O) (r : R) :
    Prop :=
  ∃ before since, ps = before ++ since ∧ Orderly before t (.pending o) ∧
    (∀ p ∈ since, p.thread ≠ t) ∧
    spec (after spec a before) o = (after spec a before, r)

/-- A wait that starts now, where the call would leave the object as it is and have this answer. -/
theorem waits_now (h : Orderly ps t (.pending o))
    (hspec : spec (after spec a ps) o = (after spec a ps, r)) : Waits spec a ps t o r :=
  ⟨ps, [], (List.append_nil ps).symm, h, fun _ hp => absurd hp List.not_mem_nil, hspec⟩

/-- A wait goes on while other threads do something. -/
theorem Waits.concat (h : Waits spec a ps t o r) (hp : p.thread ≠ t) :
    Waits spec a (ps ++ [p]) t o r := by
  obtain ⟨before, since, rfl, horderly, hsince, hspec⟩ := h
  refine ⟨before, since ++ [p], List.append_assoc .., horderly, fun q hq => ?_, hspec⟩
  obtain hq | hq := List.mem_append.mp hq
  · exact hsince q hq
  · rwa [List.mem_singleton.mp hq]

/-- It goes on if another call that left the object as it is gets its moment. -/
theorem Waits.insert (h : Waits spec a (ps ++ qs) t o r) (hu : u ≠ t)
    (hspec' : spec (after spec a ps) o' = (after spec a ps, r')) :
    Waits spec a (ps ++ .effect u o' r' :: qs) t o r := by
  obtain ⟨before, since, heq, horderly, hsince, hspec⟩ := h
  obtain ⟨mid, rfl, rfl⟩ | ⟨mid, rfl, rfl⟩ := List.append_eq_append_iff.mp heq
  · -- The new moment lies before the wait.
    refine ⟨ps ++ .effect u o' r' :: mid, since, by rw [List.append_assoc, List.cons_append],
      (orderly_insert_of_ne (p := .effect u o' r') hu).mpr horderly, hsince, ?_⟩
    rw [after_insert hspec', hspec]
  · -- The new moment lies in the wait.
    refine ⟨before, mid ++ .effect u o' r' :: qs, List.append_assoc .., horderly, fun q hq => ?_,
      hspec⟩
    obtain hq | hq := List.mem_append.mp hq
    · exact hsince q (List.mem_append_left _ hq)
    · obtain rfl | hq := List.mem_cons.mp hq
      · exact hu
      · exact hsince q (List.mem_append_right _ hq)

end Waits

end Linearization
