import Mathlib.Tactic.DeriveFintype
import Tars.Library.Ledger
import Tars.Library.Scripts
import Tars.Server.Handle

/-!
# Who deletes a record

A record is allocated by the network thread, waits in the receive queue of an adapter and is popped
by one of the handlers of its group. `handleImp` deletes it, `handleRequest` deletes it unless it
has bound it to a coroutine. The handlers are interleaved step by step.
-/

namespace Tars

/-- The places that keep pointers to records: receive queues, handlers and coroutines. -/
inductive RecordPlace (A H : Type*) where
  /-- The receive queue of an adapter. -/
  | rbuffer (a : A)
  /-- The variable `recv` of a handler. -/
  | recv (h : H)
  /-- The callbacks of the coroutines of a handler. -/
  | callbacks (h : H)
  deriving DecidableEq, Fintype

/-- A record with its member `adapter`, which is set when it is popped. -/
structure AdapterRecord (A : Type*) where
  /-- The members of the record that the handlers read. -/
  data : TagRecvData
  /-- `adapter`. -/
  adapter : Option A

/-- A group of handlers with its adapters, whose receive queues all handlers of the group read. -/
structure HandleGroup (A H : Type*) where
  /-- The records that are allocated, by address. -/
  heap : ℕ → Option (AdapterRecord A)
  /-- The number of records that were allocated; addresses are not used again. -/
  allocated : ℕ
  /-- The records that were deleted, the last one first. -/
  deleted : List ℕ
  /-- A null pointer or a deleted record was used. -/
  fault : Bool
  /-- `_rbuffer` of an adapter. -/
  rbuffer : A → List ℕ
  /-- `recv` of a handler. -/
  recv : H → Option ℕ
  /-- The records that are bound to coroutines of a handler. -/
  callbacks : H → List ℕ

/-- One step of one thread, among those of any number of handlers and network threads. -/
inductive HandleAction (A H : Type*) where
  /-- The network thread puts a record into a receive queue. -/
  | insertRecvQueue (a : A) (data : TagRecvData)
  /-- `waitForRecvQueue` of a handler finds a record. -/
  | waitForRecvQueue (h : H) (a : A)
  /-- The rest of the loop of `handleImp`. -/
  | handleImp (h : H) (call : Call)
  /-- The rest of the loop of `handleRequest`, where `createCoroutine` returns `iRet`. -/
  | handleRequest (h : H) (iRet : ℕ)
  /-- `handleRecvData` in one of the coroutines. -/
  | handleRecvData (h : H) (i : ℕ) (call : Call)

namespace HandleGroup

open Ledger Scripts ServantHandle

variable {A H : Type*}

/-- At the start no record was allocated yet, and no handler works on one. -/
def new : HandleGroup A H :=
  { heap := fun _ => none, allocated := 0, deleted := [], fault := false, rbuffer := fun _ => [],
    recv := fun _ => none, callbacks := fun _ => [] }

/-- `delete recv`: the record is gone, and deleting it again is a fault. -/
def delete (s : HandleGroup A H) (p : ℕ) : HandleGroup A H :=
  match s.heap p with
  | none => { s with fault := true }
  | some _ => { s with heap := Function.update s.heap p none, deleted := p :: s.deleted }

/-- The servant of the adapter of a record handles it. -/
def use (servants : A → Servant)
    (replies : Servant → Call → TagRecvData → List HandleReply) (call : Call)
    (r : AdapterRecord A) : Option (List HandleReply) :=
  r.adapter.map fun a => replies (servants a) call r.data

section Threads

variable [DecidableEq A] [DecidableEq H]

/-- `new tagRecvData` and `insertRecvQueue`: a fresh record at the end of the queue of an adapter.
-/
def insertRecvQueue (s : HandleGroup A H) (a : A) (data : TagRecvData) : HandleGroup A H :=
  { s with
    heap := Function.update s.heap s.allocated (some ⟨data, none⟩)
    allocated := s.allocated + 1
    rbuffer := Function.update s.rbuffer a (s.rbuffer a ++ [s.allocated]) }

/-- `waitForRecvQueue`, after which the adapter is stored in the record. -/
def waitForRecvQueue (s : HandleGroup A H) (h : H) (a : A) : Option (HandleGroup A H) :=
  match s.recv h, s.rbuffer a with
  | none, p :: rest =>
    match s.heap p with
    | none => some { s with fault := true }
    | some r =>
      some { s with
        heap := Function.update s.heap p (some { r with adapter := some a })
        rbuffer := Function.update s.rbuffer a rest
        recv := Function.update s.recv h (some p) }
  | _, _ => none

/-- The rest of the loop of `handleImp`, behind the pop: the record is handled and deleted. -/
def handleImp (servants : A → Servant) (s : HandleGroup A H) (h : H) (call : Call) :
    Option (HandleGroup A H × List HandleReply) :=
  match s.recv h with
  | none => none
  | some p =>
    let done := { s with recv := Function.update s.recv h none }
    match s.heap p with
    | none => some ({ s with fault := true }, [])
    | some r =>
      if r.data.isClosed then some (done.delete p, [])
      else
        match use servants threadReplies call r with
        | none => some ({ s with fault := true }, [])
        | some replies => some (done.delete p, replies)

/-- The rest of the loop of `handleRequest`, behind the pop: the record is given to a new coroutine,
or deleted. -/
def handleRequest (s : HandleGroup A H) (h : H) (iRet : ℕ) : Option (HandleGroup A H) :=
  match s.recv h with
  | none => none
  | some p =>
    let done := { s with recv := Function.update s.recv h none }
    match s.heap p with
    | none => some { s with fault := true }
    | some r =>
      if r.data.isClosed ∨ iRet = 0 then some (done.delete p)
      else some { done with callbacks := Function.update s.callbacks h (s.callbacks h ++ [p]) }

/-- `handleRecvData` in a coroutine, which ends with it. The record is not deleted. -/
def handleRecvData (servants : A → Servant) (s : HandleGroup A H) (h : H) (i : ℕ) (call : Call) :
    Option (HandleGroup A H × List HandleReply) :=
  match (s.callbacks h)[i]? with
  | none => none
  | some p =>
    let done :=
      { s with callbacks := Function.update s.callbacks h ((s.callbacks h).eraseIdx i) }
    match s.heap p with
    | none => some ({ s with fault := true }, [])
    | some r =>
      match use servants coroutineReplies call r with
      | none => some ({ s with fault := true }, [])
      | some replies => some (done, replies)

/-- One step of a run; its outputs are the replies. After a fault the process is gone. -/
def step (openCoroutine : Bool) (servants : A → Servant) (s : HandleGroup A H)
    (action : HandleAction A H) : Option (HandleGroup A H × List HandleReply) :=
  if s.fault then none
  else
    match action with
    | .insertRecvQueue a data => some (s.insertRecvQueue a data, [])
    | .waitForRecvQueue h a => (s.waitForRecvQueue h a).map (·, [])
    | .handleImp h call => if openCoroutine then none else s.handleImp servants h call
    | .handleRequest h iRet =>
      if openCoroutine then (s.handleRequest h iRet).map (·, []) else none
    | .handleRecvData h i call =>
      if openCoroutine then s.handleRecvData servants h i call else none

/-! ### Pointers and deletions -/

/-- The pointers to records at one place: a queue, the variable of a handler or its callbacks. -/
def places (s : HandleGroup A H) : RecordPlace A H → List ℕ
  | .rbuffer a => s.rbuffer a
  | .recv h => (s.recv h).toList
  | .callbacks h => s.callbacks h

/-- Nothing went wrong: no record was used after it was deleted, and every record that was
allocated is either still to be handled or was deleted, once. -/
structure Sound [Fintype A] [Fintype H] (s : HandleGroup A H) : Prop where
  /-- No null pointer and no deleted record was used. -/
  no_fault : s.fault = false
  /-- Every record is in one place, or it was deleted once. -/
  accounted : ∀ p < s.allocated, occurrences s.places p + s.deleted.count p = 1

/-- The invariant of the records: every pointer leads to a live record, and no record has two. -/
structure Inv [Fintype A] [Fintype H] (s : HandleGroup A H) : Prop where
  /-- Nothing went wrong: no deleted record was used. -/
  no_fault : s.fault = false
  /-- Every record that is allocated has one pointer, and there are no others. -/
  in_flight : ∀ p, occurrences s.places p = if s.heap p = none then 0 else 1
  /-- The records that are gone were deleted once, and no others were. -/
  deleted_count : ∀ p, s.deleted.count p = if p < s.allocated ∧ s.heap p = none then 1 else 0
  /-- Only allocated addresses are in use. -/
  heap_lt : ∀ p, s.heap p ≠ none → p < s.allocated
  /-- A record that was popped knows its adapter. -/
  popped : ∀ h p, p ∈ s.places (.recv h) ∨ p ∈ s.places (.callbacks h) →
    ∃ r, s.heap p = some r ∧ r.adapter ≠ none

section Places

variable {s : HandleGroup A H}

/-- Replacing a receive queue changes one place, that of its adapter. -/
theorem places_rbuffer (a : A) (l : List ℕ) :
    places { s with rbuffer := Function.update s.rbuffer a l } =
      Function.update s.places (.rbuffer a) l := by
  funext i
  cases i with
  | rbuffer b => by_cases hb : b = a <;> simp [places, hb]
  | recv h => rfl
  | callbacks h => rfl

/-- Replacing the record of a handler changes one place. -/
theorem places_recv (h : H) (o : Option ℕ) :
    places { s with recv := Function.update s.recv h o } =
      Function.update s.places (.recv h) o.toList := by
  funext i
  cases i with
  | rbuffer a => rfl
  | recv g => by_cases hg : g = h <;> simp [places, hg]
  | callbacks g => rfl

/-- Replacing the callbacks of a handler changes one place. -/
theorem places_callbacks (h : H) (l : List ℕ) :
    places { s with callbacks := Function.update s.callbacks h l } =
      Function.update s.places (.callbacks h) l := by
  funext i
  cases i with
  | rbuffer a => rfl
  | recv g => rfl
  | callbacks g => by_cases hg : g = h <;> simp [places, hg]

end Places

section Invariant

variable [Fintype A] [Fintype H] {s s' : HandleGroup A H} {a : A} {h : H} {p : ℕ}

omit [DecidableEq A] [DecidableEq H] in
/-- A record that is pointed to is there: no pointer to a deleted record is left anywhere. -/
theorem Inv.live (hinv : s.Inv) {i : RecordPlace A H} (hmem : p ∈ s.places i) :
    s.heap p ≠ none := by
  intro hnone
  have hcount := hinv.in_flight p
  rw [if_pos hnone] at hcount
  exact Ledger.notMem_of_eq_zero hcount i hmem

omit [DecidableEq A] [DecidableEq H] in
/-- The invariant says that the accounts of records are right, which is what a run promises. -/
theorem Inv.sound (hinv : s.Inv) : s.Sound := by
  refine ⟨hinv.no_fault, fun p hp => ?_⟩
  rw [hinv.in_flight, hinv.deleted_count]
  by_cases hnone : s.heap p = none
  · simp [hnone, hp]
  · simp [hnone]

/-- A new record has a fresh number, so its pointer is the only one. -/
theorem Inv.insertRecvQueue (hinv : s.Inv) (a : A) (data : TagRecvData) :
    (s.insertRecvQueue a data).Inv := by
  have hfresh : s.heap s.allocated = none := by
    by_contra hsome
    exact absurd (hinv.heap_lt _ hsome) (lt_irrefl _)
  have hplaces : (s.insertRecvQueue a data).places =
      Function.update s.places (.rbuffer a) (s.places (.rbuffer a) ++ [s.allocated]) :=
    places_rbuffer a _
  have hold {q : ℕ} (hne : q ≠ s.allocated) : (s.insertRecvQueue a data).heap q = s.heap q :=
    Function.update_of_ne hne _ _
  have hnew : (s.insertRecvQueue a data).heap s.allocated = some ⟨data, none⟩ :=
    Function.update_self _ _ _
  refine ⟨hinv.no_fault, fun q => ?_, fun q => ?_, fun q hq => ?_, fun g q hq => ?_⟩
  · rw [hplaces, Ledger.put, hinv.in_flight]
    by_cases hne : q = s.allocated
    · subst hne
      rw [hnew, hfresh]
      simp
    · rw [hold hne]
      simp [hne]
  · have hdeleted : (s.insertRecvQueue a data).deleted = s.deleted := rfl
    rw [hdeleted, hinv.deleted_count]
    by_cases hne : q = s.allocated
    · subst hne
      simp [hnew]
    · have hlt : q < s.allocated ↔ q < (s.insertRecvQueue a data).allocated := by
        change q < s.allocated ↔ q < s.allocated + 1
        omega
      simp only [hold hne, hlt]
  · by_cases hne : q = s.allocated
    · subst hne
      exact Nat.lt_succ_self _
    · rw [hold hne] at hq
      exact Nat.lt_succ_of_lt (hinv.heap_lt q hq)
  · obtain ⟨r, hr, hadapter⟩ := hinv.popped g q hq
    have hne : q ≠ s.allocated := by
      rintro rfl
      rw [hfresh] at hr
      cases hr
    exact ⟨r, (hold hne).trans hr, hadapter⟩

/-- Popping a record moves its pointer from the queue to the handler. -/
theorem Inv.waitForRecvQueue (hinv : s.Inv) (hstep : s.waitForRecvQueue h a = some s') :
    s'.Inv := by
  unfold HandleGroup.waitForRecvQueue at hstep
  split at hstep
  case h_2 => cases hstep
  rename_i p rest hrecv hqueue
  obtain ⟨r, hr⟩ := Option.ne_none_iff_exists'.mp
    (hinv.live (i := .rbuffer a) (p := p) (by rw [places, hqueue]; exact List.mem_cons_self))
  simp only [hr, Option.some.injEq] at hstep
  subst hstep
  set t : HandleGroup A H := { s with
    heap := Function.update s.heap p (some { r with adapter := some a })
    rbuffer := Function.update s.rbuffer a rest
    recv := Function.update s.recv h (some p) } with ht
  have hplaces : t.places = Function.update (Function.update s.places (.rbuffer a) rest)
      (.recv h) (s.places (.recv h) ++ [p]) := by
    have hempty : s.places (.recv h) = [] := by rw [places, hrecv, Option.toList_none]
    rw [hempty, ← places_rbuffer a rest]
    exact places_recv (s := { s with rbuffer := Function.update s.rbuffer a rest }) h (some p)
  have hcount (q : ℕ) : occurrences t.places q = occurrences s.places q := by
    rw [hplaces]
    refine Ledger.move ?_ (by simp) q
    rw [places, hqueue]
  have hnone (q : ℕ) : t.heap q = none ↔ s.heap q = none := by
    by_cases hne : q = p
    · subst hne
      simp [ht, hr]
    · rw [ht]
      simp only [Function.update_of_ne hne]
  refine ⟨hinv.no_fault, fun q => ?_, fun q => ?_, fun q hq => ?_, fun g q hq => ?_⟩
  · rw [hcount, hinv.in_flight]
    simp only [hnone]
  · simp only [hnone]
    exact hinv.deleted_count q
  · exact hinv.heap_lt q ((hnone q).not.mp hq)
  · by_cases hne : q = p
    · subst hne
      exact ⟨_, Function.update_self _ _ _, Option.some_ne_none a⟩
    · have hold : q ∈ s.places (.recv g) ∨ q ∈ s.places (.callbacks g) := by
        rcases hq with hq | hq
        · left
          rw [hplaces] at hq
          by_cases hg : g = h
          · subst hg
            rw [Function.update_self, List.mem_append, List.mem_singleton] at hq
            exact hq.resolve_right hne
          · rwa [Function.update_of_ne (by simpa using hg), Function.update_of_ne (by simp)] at hq
        · exact .inr hq
      obtain ⟨r', hr', hadapter⟩ := hinv.popped g q hold
      exact ⟨r', (Function.update_of_ne hne _ _).trans hr', hadapter⟩

/-- Deleting the record of a handler takes the only pointer to it away. -/
theorem Inv.delete (hinv : s.Inv) (hrecv : s.recv h = some p) :
    (HandleGroup.delete { s with recv := Function.update s.recv h none } p).Inv := by
  have hplace : s.places (.recv h) = [p] := by rw [places, hrecv, Option.toList_some]
  obtain ⟨r, hr⟩ := Option.ne_none_iff_exists'.mp
    (hinv.live (i := .recv h) (p := p) (by rw [hplace]; exact List.mem_singleton_self p))
  have hlt := hinv.heap_lt p (by rw [hr]; exact Option.some_ne_none r)
  simp only [HandleGroup.delete, hr]
  have hcount (q : ℕ) : occurrences s.places q =
      occurrences (Function.update s.places (.recv h) []) q + if q = p then 1 else 0 :=
    Ledger.take (by rw [hplace]) q
  rw [← Option.toList_none, ← places_recv] at hcount
  have hself : occurrences (places { s with recv := Function.update s.recv h none }) p = 0 := by
    have hone := hcount p
    rw [hinv.in_flight, hr, if_neg (by simp), if_pos rfl] at hone
    omega
  refine ⟨hinv.no_fault, fun q => ?_, fun q => ?_, fun q hq => ?_, fun g q hq => ?_⟩
  · change occurrences (places { s with recv := Function.update s.recv h none }) q =
      if Function.update s.heap p none q = none then 0 else 1
    by_cases hne : q = p
    · subst hne
      rw [hself, Function.update_self, if_pos rfl]
    · rw [Function.update_of_ne hne, ← hinv.in_flight q, hcount q, if_neg hne]
      rfl
  · change (p :: s.deleted).count q =
      if q < s.allocated ∧ Function.update s.heap p none q = none then 1 else 0
    rw [List.count_cons, hinv.deleted_count]
    by_cases hne : q = p
    · subst hne
      simp [hr, hlt]
    · have hbeq : (p == q) = false := by simpa using Ne.symm hne
      simp [Function.update_of_ne hne, hbeq]
  · change Function.update s.heap p none q ≠ none at hq
    by_cases hne : q = p
    · subst hne
      rw [Function.update_self] at hq
      exact absurd rfl hq
    · rw [Function.update_of_ne hne] at hq
      exact hinv.heap_lt q hq
  · have hne : q ≠ p := by
      rintro rfl
      rcases hq with hq | hq
      · exact Ledger.notMem_of_eq_zero hself (.recv g) hq
      · exact Ledger.notMem_of_eq_zero hself (.callbacks g) hq
    have hold : q ∈ s.places (.recv g) ∨ q ∈ s.places (.callbacks g) := by
      refine hq.imp (fun hq => ?_) id
      change q ∈ places { s with recv := Function.update s.recv h none } (.recv g) at hq
      rw [places_recv] at hq
      by_cases hg : g = h
      · subst hg
        rw [Function.update_self] at hq
        exact absurd hq List.not_mem_nil
      · rwa [Function.update_of_ne (by simpa using hg)] at hq
    obtain ⟨r', hr', hadapter⟩ := hinv.popped g q hold
    exact ⟨r', (Function.update_of_ne hne _ _).trans hr', hadapter⟩

/-- Binding the record of a handler to a coroutine. -/
theorem Inv.bind (hinv : s.Inv) (hrecv : s.recv h = some p) :
    Inv { s with
      recv := Function.update s.recv h none
      callbacks := Function.update s.callbacks h (s.callbacks h ++ [p]) } := by
  set t : HandleGroup A H := { s with
    recv := Function.update s.recv h none
    callbacks := Function.update s.callbacks h (s.callbacks h ++ [p]) } with ht
  have hplace : s.places (.recv h) = [p] := by rw [places, hrecv, Option.toList_some]
  have hplaces : t.places = Function.update (Function.update s.places (.recv h) [])
      (.callbacks h) (s.places (.callbacks h) ++ [p]) := by
    rw [← Option.toList_none, ← places_recv h none]
    exact places_callbacks (s := { s with recv := Function.update s.recv h none }) h _
  refine ⟨hinv.no_fault, fun q => ?_, hinv.deleted_count, hinv.heap_lt, fun g q hq => ?_⟩
  · rw [hplaces, Ledger.move (by rw [hplace]) (by simp)]
    exact hinv.in_flight q
  · have hold : (q ∈ s.places (.recv g) ∨ q ∈ s.places (.callbacks g)) ∨
        q ∈ s.places (.recv h) := by
      rw [hplaces] at hq
      by_cases hg : g = h
      · subst hg
        rcases hq with hq | hq
        · rw [Function.update_of_ne (by simp), Function.update_self] at hq
          cases hq
        · rw [Function.update_self, List.mem_append, ← hplace] at hq
          exact hq.imp .inr id
      · rw [Function.update_of_ne (by simp), Function.update_of_ne (by simpa using hg),
          Function.update_of_ne (by simpa using hg), Function.update_of_ne (by simp)] at hq
        exact .inl hq
    rcases hold with hold | hold
    · exact hinv.popped g q hold
    · exact hinv.popped h q (.inl hold)

omit [DecidableEq A] [DecidableEq H] in
/-- What is known of a record that a handler or a coroutine holds. -/
theorem Inv.use_eq_some (hinv : s.Inv) (servants : A → Servant)
    (replies : Servant → Call → TagRecvData → List HandleReply) (call : Call)
    (hmem : p ∈ s.places (.recv h) ∨ p ∈ s.places (.callbacks h)) :
    ∃ r rs, s.heap p = some r ∧ use servants replies call r = some rs := by
  obtain ⟨r, hr, hadapter⟩ := hinv.popped h p hmem
  obtain ⟨a, ha⟩ := Option.ne_none_iff_exists'.mp hadapter
  exact ⟨r, _, hr, by rw [use, ha, Option.map_some]⟩

end Invariant

/-- The step is not the body of a coroutine. -/
def InHandler : HandleAction A H → Prop
  | .handleRecvData _ _ _ => False
  | _ => True

section Steps

variable [Fintype A] [Fintype H] {openCoroutine : Bool} {servants : A → Servant}
  {s s' : HandleGroup A H} {h : H} {out : List HandleReply}

omit [DecidableEq A] [DecidableEq H] [Fintype A] [Fintype H] in
/-- The record of a handler is at the place of its variable. -/
private theorem mem_recv {p : ℕ} (hrecv : s.recv h = some p) : p ∈ s.places (.recv h) := by
  rw [places, hrecv]
  exact List.mem_singleton_self p

/-- **The loop of `handleImp`** deletes the record that it has handled, whatever the servant does.
-/
theorem Inv.handleImp (hinv : s.Inv) {call : Call}
    (hstep : s.handleImp servants h call = some (s', out)) : s'.Inv := by
  unfold HandleGroup.handleImp at hstep
  split at hstep
  · cases hstep
  rename_i p hrecv
  obtain ⟨r, rs, hr, huse⟩ :=
    hinv.use_eq_some servants threadReplies call (.inl (mem_recv hrecv))
  simp only [hr, huse] at hstep
  split at hstep <;>
  · obtain ⟨rfl, -⟩ := Prod.mk.inj (Option.some.inj hstep)
    exact hinv.delete hrecv

/-- **The loop of `handleRequest`** deletes the record or binds it to a coroutine. -/
theorem Inv.handleRequest (hinv : s.Inv) {iRet : ℕ}
    (hstep : s.handleRequest h iRet = some s') : s'.Inv := by
  unfold HandleGroup.handleRequest at hstep
  split at hstep
  · cases hstep
  rename_i p hrecv
  obtain ⟨r, hr, -⟩ := hinv.popped h p (.inl (mem_recv hrecv))
  simp only [hr] at hstep
  split at hstep
  · obtain rfl := Option.some.inj hstep
    exact hinv.delete hrecv
  · obtain rfl := Option.some.inj hstep
    exact hinv.bind hrecv

/-- Steps of the network thread and of the handlers keep the invariant. -/
theorem Inv.step (hinv : s.Inv) {action : HandleAction A H} (hin : InHandler action)
    (hstep : s.step openCoroutine servants action = some (s', out)) : s'.Inv := by
  simp only [HandleGroup.step, hinv.no_fault, Bool.false_eq_true, if_false] at hstep
  cases action with
  | insertRecvQueue a data =>
    obtain ⟨rfl, -⟩ := Prod.mk.inj (Option.some.inj hstep)
    exact hinv.insertRecvQueue a data
  | waitForRecvQueue h a =>
    obtain ⟨next, hnext, heq⟩ := Option.map_eq_some_iff.mp hstep
    obtain ⟨rfl, -⟩ := Prod.mk.inj heq
    exact hinv.waitForRecvQueue hnext
  | handleImp h call =>
    dsimp only at hstep
    split at hstep
    · cases hstep
    · exact hinv.handleImp hstep
  | handleRequest h iRet =>
    dsimp only at hstep
    split at hstep
    · obtain ⟨next, hnext, heq⟩ := Option.map_eq_some_iff.mp hstep
      obtain ⟨rfl, -⟩ := Prod.mk.inj heq
      exact hinv.handleRequest hnext
    · cases hstep
  | handleRecvData h i call => exact hin.elim

/-- **The body of a coroutine** loses its record: it has the only pointer to it, and nothing deletes
it. -/
theorem Inv.not_sound (hinv : s.Inv) {action : HandleAction A H} (hin : ¬InHandler action)
    (hstep : s.step openCoroutine servants action = some (s', out)) : ¬s'.Sound := by
  simp only [HandleGroup.step, hinv.no_fault, Bool.false_eq_true, if_false] at hstep
  intro hsound
  cases action with
  | handleRecvData h i call =>
    dsimp only at hstep
    split at hstep
    case isFalse => cases hstep
    unfold handleRecvData at hstep
    split at hstep
    · cases hstep
    rename_i p hi
    have hmem : p ∈ s.places (.callbacks h) := List.mem_of_getElem? hi
    obtain ⟨r, rs, hr, huse⟩ :=
      hinv.use_eq_some servants coroutineReplies call (.inr hmem)
    simp only [hr, huse] at hstep
    obtain ⟨rfl, -⟩ := Prod.mk.inj (Option.some.inj hstep)
    have hlt := hinv.heap_lt p (hinv.live hmem)
    have hgone := hsound.accounted p hlt
    have hone := hinv.in_flight p
    rw [hr, if_neg (by simp)] at hone
    obtain ⟨hi', hget⟩ := List.getElem?_eq_some_iff.mp hi
    have hperm : (s.places (.callbacks h)).Perm (p :: (s.callbacks h).eraseIdx i) := by
      rw [← hget]
      exact (List.getElem_cons_eraseIdx_perm hi').symm
    rw [Ledger.take hperm, if_pos rfl, ← places_callbacks] at hone
    change occurrences (places { s with callbacks := _ }) p + s.deleted.count p = 1 at hgone
    rw [hinv.deleted_count, if_neg (by simp [hr])] at hgone
    omega
  | _ => exact hin trivial

omit [DecidableEq A] [DecidableEq H] in
/-- Without records nothing went wrong, and there are no pointers. -/
theorem inv_new : (new : HandleGroup A H).Inv := by
  refine ⟨rfl, fun p => ?_, fun p => rfl, nofun, fun h p hp => ?_⟩
  · rw [Ledger.eq_zero]
    · rfl
    · intro i
      cases i <;> rfl
  · rcases hp with hp | hp <;> exact absurd hp List.not_mem_nil

end Steps

/-- **When every record is deleted exactly once.** In all states of a run, in both modes, for any
number of adapters and handlers and any order of their steps, nothing goes wrong exactly when no
coroutine runs `handleRecvData`. -/
theorem sound_iff [Fintype A] [Fintype H] (openCoroutine : Bool) (servants : A → Servant)
    (script : List (HandleAction A H)) (s : HandleGroup A H) (out : List HandleReply)
    (hexec : exec (step openCoroutine servants) new script = some (s, out)) :
    Always (step openCoroutine servants) Sound new script ↔
      Along (step openCoroutine servants) (fun _ => InHandler) new script :=
  always_iff_along (I := Inv) (fun _ hinv => hinv.sound)
    (fun _ _ _ _ hinv hin hstep => hinv.step hin hstep)
    (fun _ _ _ _ hinv hin hstep => hinv.not_sound hin hstep) inv_new hexec

end Threads

/-- A request of one adapter, which its handler handles in thread mode. -/
def threadScript : List (HandleAction Unit Unit) :=
  [.insertRecvQueue () startRequest, .waitForRecvQueue () (), .handleImp () (.ok 0)]

/-- The statement on the run of `threadScript`, in which one request is received, handled and
deleted. -/
theorem sound_iff_sample : ∃ s out,
    exec (step false fun _ => .node) (new : HandleGroup Unit Unit) threadScript = some (s, out) ∧
      s.deleted = [0] ∧ Always (step false fun _ => .node) Sound new threadScript ∧
      (Always (step false fun _ => .node) Sound new threadScript ↔
        Along (step false fun _ => .node) (fun _ => InHandler) new threadScript) := by
  have hiff := sound_iff false (fun _ => .node) threadScript _ _ rfl
  have halong : Along (step false fun _ => .node) (fun _ => InHandler)
      (new : HandleGroup Unit Unit) threadScript :=
    ⟨trivial, fun _ _ _ => ⟨trivial, fun _ _ _ => ⟨trivial, fun _ _ _ => trivial⟩⟩⟩
  exact ⟨_, _, rfl, rfl, hiff.mpr halong, hiff⟩

/-- The same request in coroutine mode, where nothing deletes the record. -/
def coroutineScript : List (HandleAction Unit Unit) :=
  [.insertRecvQueue () startRequest, .waitForRecvQueue () (), .handleRequest () 1,
    .handleRecvData () 0 (.ok 0)]

/-- After the run of `coroutineScript` the record is lost. -/
theorem sound_fails : ∃ s out,
    exec (step true fun _ => .node) (new : HandleGroup Unit Unit) coroutineScript =
      some (s, out) ∧ ¬s.Sound := by
  refine ⟨_, _, rfl, fun hsound => ?_⟩
  have hgone := hsound.accounted 0 (by decide)
  revert hgone
  decide

end HandleGroup

end Tars
