import Mathlib.Data.List.Chain
import Tars.Client.AsyncDispatch
import Tars.Library.LockedObjects

/-!
# Heartbeats of a server

Every handler looks at the adapters of its group now and then: the heartbeat of an adapter is due
if its last one is long ago. `keepAlive` then notes the adapter under a mutex; if it is the
administration adapter, all adapters noted so far are taken out and a message is sent for each. The
steps of the handlers are interleaved. Nothing that is noted gets lost or is sent twice: the calls
of `keepAlive` are those of one thread, as in the model of the client side, and each handler sends
what its calls took out. A handler that is the only one of its group leaves time between its calls.
-/

namespace Tars

open Scripts Linearization LockedObjects

namespace Heartbeats

/-- What `keepAlive` does next behind the mutex, with its local variables. -/
inductive Stmt where
  /-- `_adapterSet.insert(adapter)`. -/
  | insert (adapter : Bytes)
  /-- `if(adapter != "AdminAdapter")`. -/
  | test (adapter : Bytes)
  /-- `s.swap(_adapterSet)`. -/
  | swap
  deriving DecidableEq

/-- What is left of a call of `heartbeat`: at which adapter it is, and at which access. -/
inductive Loop where
  /-- No call. -/
  | idle
  /-- At the time `fcur`, before the test of the next adapter. -/
  | testing (fcur : ℤ) (adapters : List ℕ)
  /-- Before `setHeartBeatTime` of an adapter. -/
  | stamping (fcur : ℤ) (adapter : ℕ) (adapters : List ℕ)
  /-- Before `keepAlive` for an adapter. -/
  | calling (fcur : ℤ) (adapter : ℕ) (adapters : List ℕ)
  /-- In `keepAlive`, up to its loop. -/
  | inside (fcur : ℤ) (adapters : List ℕ)
  /-- In the loop of `keepAlive`. -/
  | sending (s : List ServerInfo) (fcur : ℤ) (adapters : List ℕ)
  deriving DecidableEq

/-- What happens next: a handler starts its heartbeat at some time, or goes one step on. -/
inductive Action where
  /-- A handler calls `heartbeat`, which reads the clock. -/
  | heartbeat (t : ℕ) (fcur : ℤ)
  /-- A handler takes its next step. -/
  | thread (t : ℕ)
  deriving DecidableEq

/-- What can be seen of a step: calls and returns of `keepAlive`, and messages to the node. -/
inductive Output where
  /-- `keepAlive` is called for an adapter, at this time. -/
  | report (adapter : ℕ) (fcur : ℤ)
  /-- A call of `keepAlive` up to its loop starts or ends. -/
  | call (e : Linearization.Event ℕ Bytes (List ServerInfo))
  /-- A handler calls `async_keepAlive`. -/
  | send (t : ℕ) (si : ServerInfo)
  deriving DecidableEq

/-- What is set up before the handlers are started. -/
structure Setup where
  /-- `_nodePrx` and `_si` of the helper. -/
  helper : TarsNodeFHelper
  /-- The adapters in the group of a handler, in the order of the map. -/
  adapters : ℕ → List ℕ
  /-- `_name` of an adapter. -/
  name : ℕ → Bytes

/-- `HEART_BEAT_INTERVAL`: the seconds that have to pass between two heartbeats of an adapter. -/
def interval : ℤ := 10

/-- What `keepAlive` does to `_adapterSet` in one access, and what follows it. -/
def Stmt.access (si : ServerInfo) (adapterSet : List Bytes) :
    Stmt → List Bytes × Next Stmt (List ServerInfo)
  | .insert adapter => (TarsNodeFHelper.insert adapter adapterSet, .run (.test adapter))
  | .test adapter =>
    (adapterSet, if adapter ≠ bytes "AdminAdapter" then .leave [] else .run .swap)
  | .swap => ([], .leave (adapterSet.map fun adapter => { si with adapter }))

/-- `keepAlive` up to its loop, as a function of an object behind a lock. -/
def code (si : ServerInfo) : Code (List Bytes) Bytes Stmt (List ServerInfo) where
  enter := .insert
  access := Stmt.access si
  resume := id
  expired _ := none

end Heartbeats

open Heartbeats

/-- The state of the heartbeats: the times that were stamped, the helper and where the handlers are.
-/
structure Heartbeats where
  /-- `_iHeartBeatTime` of the adapters. -/
  heartBeatTime : ℕ → ℤ
  /-- `_adapterSet`, its mutex, and the calls of `keepAlive`. -/
  helper : State ℕ (List Bytes) Bytes Stmt (List ServerInfo)
  /-- What the handlers do. -/
  loop : ℕ → Loop

namespace Heartbeats

variable (setup : Setup)

/-- At the start no handler has called `heartbeat` and no adapter has a time. -/
def new : Heartbeats := ⟨fun _ => 0, State.new setup.helper.adapterSet, fun _ => .idle⟩

/-- Move a handler to another place of its loop. The other handlers stay where they are. -/
def setLoop (s : Heartbeats) (t : ℕ) (loop : Loop) : Heartbeats :=
  { s with loop := Function.update s.loop t loop }

/-- What a handler does behind a step in `keepAlive`. -/
def proceed (fcur : ℤ) (adapters : List ℕ) :
    List (Linearization.Event ℕ Bytes (List ServerInfo)) → Loop
  | .ret _ s :: _ => .sending s fcur adapters
  | _ => .inside fcur adapters

/-- The next step of a handler in `heartbeat`: one access to a shared time or to the helper. -/
def threadStep (s : Heartbeats) (t : ℕ) : Option (Heartbeats × List Output) :=
  match s.loop t with
  | .idle => none
  | .testing _ [] => some (s.setLoop t .idle, [])
  | .testing fcur (a :: adapters) =>
    if interval < |fcur - s.heartBeatTime a| then some (s.setLoop t (.stamping fcur a adapters), [])
    else some (s.setLoop t (.testing fcur adapters), [])
  | .stamping fcur a adapters =>
    some ({ s with heartBeatTime := Function.update s.heartBeatTime a fcur }.setLoop t
      (.calling fcur a adapters), [])
  | .calling fcur a adapters =>
    match setup.helper.nodePrx with
    | none => some (s.setLoop t (.testing fcur adapters), [])
    | some _ =>
      (State.step (code setup.helper.si) s.helper (.call t (setup.name a))).map
        fun (helper, es) =>
          ({ s with helper }.setLoop t (.inside fcur adapters), .report a fcur :: es.map .call)
  | .inside fcur adapters =>
    (State.step (code setup.helper.si) s.helper (.thread t)).map fun (helper, es) =>
      ({ s with helper }.setLoop t (proceed fcur adapters es), es.map .call)
  | .sending [] fcur adapters => some (s.setLoop t (.testing fcur adapters), [])
  | .sending (si :: rest) fcur adapters =>
    some (s.setLoop t (.sending rest fcur adapters), [.send t si])

/-- One step of a run, in which the environment chooses the handler and the time it reads. -/
def step (s : Heartbeats) : Action → Option (Heartbeats × List Output)
  | .heartbeat t fcur =>
    match s.loop t with
    | .idle => some (s.setLoop t (.testing fcur (setup.adapters t)), [])
    | _ => none
  | .thread t => s.threadStep setup t

/-- The calls of `keepAlive` and their returns, as the histories of the shared helper list them. -/
def calls (outs : List Output) : List (Linearization.Event ℕ Bytes (List ServerInfo)) :=
  outs.filterMap fun
    | .call e => some e
    | .report _ _ | .send _ _ => none

/-- The times at which `keepAlive` was called for an adapter. -/
def reports (a : ℕ) (outs : List Output) : List ℤ :=
  outs.filterMap fun
    | .report b fcur => if b = a then some fcur else none
    | .call _ | .send _ _ => none

/-- What a handler has taken out of the list of reported servers, in the order of its calls. -/
def taken (t : ℕ) (outs : List Output) : List ServerInfo :=
  outs.flatMap fun
    | .call (.ret u s) => if u = t then s else []
    | .call (.call _ _) | .report _ _ | .send _ _ => []

/-- What a handler has sent to the node, in this order. -/
def sent (t : ℕ) (outs : List Output) : List ServerInfo :=
  outs.filterMap fun
    | .send u si => if u = t then some si else none
    | .report _ _ | .call _ => none

/-- What a handler still has to send, of the list that `keepAlive` returned to it. -/
def Loop.left : Loop → List ServerInfo
  | .sending s _ _ => s
  | .idle | .testing _ _ | .stamping _ _ _ | .calling _ _ _ | .inside _ _ => []

/-- The adapters that a handler still deals with, the one that it is at included. -/
def Loop.adapters : Loop → List ℕ
  | .idle => []
  | .testing _ adapters | .inside _ adapters | .sending _ _ adapters => adapters
  | .stamping _ a adapters | .calling _ a adapters => a :: adapters

/-- The handler is the only one that looks after the adapter. -/
def Sole (a h : ℕ) : Prop := ∀ t, a ∈ setup.adapters t → t = h

/-- Between two heartbeats of an adapter there is time: more than the interval in either direction.
-/
def Apart (x y : ℤ) : Prop := interval < |y - x|

/-- Where the handler of an adapter is, for the last report of the adapter and the time that the
adapter holds. -/
def Loop.Times (a : ℕ) (last time : ℤ) : Loop → Prop
  | .stamping fcur b _ => time = last ∧ (b = a → Apart last fcur)
  | .calling fcur b _ => if b = a then time = fcur ∧ Apart last fcur else time = last
  | .idle | .testing _ _ | .inside _ _ | .sending _ _ _ => time = last

section Meets

variable {setup} {si : ServerInfo} {adapterSet : List Bytes}

/-- With the set `adapterSet` behind the mutex, `keepAlive` for this adapter comes to this statement
with the set `adapterSet'`. -/
def Reaches (adapter : Bytes) (adapterSet : List Bytes) : Stmt → List Bytes → Prop
  | .insert b, adapterSet' => b = adapter ∧ adapterSet' = adapterSet
  | .test b, adapterSet' => b = adapter ∧ adapterSet' = TarsNodeFHelper.insert adapter adapterSet
  | .swap, adapterSet' =>
    adapter = bytes "AdminAdapter" ∧ adapterSet' = TarsNodeFHelper.insert adapter adapterSet

/-- Run alone, `keepAlive` does what the model of the client side says in one step. -/
theorem meets (h : TarsNodeFHelper) (hnode : h.nodePrx.isSome) :
    LockedObjects.Meets (code h.si) TarsNodeFHelper.keepAlive
      (fun adapterSet => { h with adapterSet }) (fun _ => True) Reaches fun _ _ => False where
  enter _ _ _ := ⟨rfl, rfl⟩
  access adapter adapterSet stmt adapterSet' hat := by
    obtain ⟨prx, hprx⟩ := Option.isSome_iff_exists.mp hnode
    cases stmt with
    | insert b =>
      obtain ⟨rfl, rfl⟩ := hat
      exact ⟨rfl, rfl⟩
    | test b =>
      obtain ⟨rfl, rfl⟩ := hat
      by_cases hadmin : b = bytes "AdminAdapter"
      · simp only [code, Stmt.access, hadmin, ne_eq, not_true_eq_false, if_false]
        exact ⟨rfl, rfl⟩
      · simp only [code, Stmt.access, hadmin, ne_eq, not_false_eq_true, if_true]
        refine ⟨trivial, ?_⟩
        simp only [TarsNodeFHelper.keepAlive, hprx, hadmin, ne_eq, not_false_eq_true, if_true]
    | swap =>
      obtain ⟨hadmin, rfl⟩ := hat
      refine ⟨trivial, ?_⟩
      simp only [code, Stmt.access, TarsNodeFHelper.keepAlive, hprx, hadmin, ne_eq,
        not_true_eq_false, if_false]
  resume _ _ _ h _ := h.elim

end Meets

/-- The last time at which `keepAlive` was called for an adapter. -/
def last (a : ℕ) (outs : List Output) : ℤ := (reports a outs).getLastD 0

/-- What every step keeps. The histories of the helper are linearized, and each handler knows what
it still has to do. -/
structure Inv (s : Heartbeats) (outs : List Output) : Prop where
  /-- The calls of `keepAlive` are a run of an object behind a lock. -/
  runs : ∃ as, exec (State.step (code setup.helper.si)) (State.new setup.helper.adapterSet) as =
    some (s.helper, calls outs)
  /-- A handler has sent what it took out, but for what is left. -/
  sent : ∀ t, sent t outs ++ (s.loop t).left = taken t outs
  /-- A handler deals with adapters of its group. -/
  adapters : ∀ t, ∀ a ∈ (s.loop t).adapters, a ∈ setup.adapters t
  /-- An adapter with one handler is reported now and then. -/
  times : ∀ a h, Sole setup a h → (0 :: reports a outs).IsChain Apart ∧
    (s.loop h).Times a (last a outs) (s.heartBeatTime a)

section Steps

variable {setup} {s s' : Heartbeats} {outs es : List Output} {t u a h : ℕ} {loop : Loop}
  {fcur : ℤ} {adapters : List ℕ} {xs : List ℤ} {x time : ℤ}
  {helper : State ℕ (List Bytes) Bytes Stmt (List ServerInfo)}
  {events : List (Linearization.Event ℕ Bytes (List ServerInfo))}

@[simp] theorem calls_append : calls (outs ++ es) = calls outs ++ calls es := List.filterMap_append

@[simp] theorem reports_append : reports a (outs ++ es) = reports a outs ++ reports a es :=
  List.filterMap_append

@[simp] theorem taken_append : taken t (outs ++ es) = taken t outs ++ taken t es :=
  List.flatMap_append

@[simp] theorem sent_append : Heartbeats.sent t (outs ++ es) =
    Heartbeats.sent t outs ++ Heartbeats.sent t es :=
  List.filterMap_append

/-- The steps of `keepAlive` are all that can be seen of it. -/
@[simp] theorem calls_map_call : calls (events.map .call) = events := by
  induction events with
  | nil => rfl
  | cons e events ih => exact congrArg (e :: ·) ih

@[simp] theorem reports_map_call : reports a (events.map .call) = [] := by
  induction events with
  | nil => rfl
  | cons e events ih => exact ih

@[simp] theorem sent_map_call : Heartbeats.sent t (events.map .call) = [] := by
  induction events with
  | nil => rfl
  | cons e events ih => exact ih

@[simp] theorem setLoop_loop_self : (s.setLoop t loop).loop t = loop := Function.update_self ..

theorem setLoop_loop_of_ne (h : u ≠ t) : (s.setLoop t loop).loop u = s.loop u :=
  Function.update_of_ne h ..

/-- One more time that is far enough from the last one. -/
theorem isChain_concat (h : (0 :: xs).IsChain Apart) (hx : Apart (xs.getLastD 0) x) :
    (0 :: (xs ++ [x])).IsChain Apart := by
  rw [← List.cons_append, List.isChain_append]
  refine ⟨h, List.isChain_singleton _, fun y hy z hz => ?_⟩
  obtain rfl := Option.some.inj hz
  rw [List.getLast?_cons] at hy
  rwa [← Option.some.inj hy, ← List.getLastD_eq_getLast?]

/-- What a step of one handler does to the invariant: it holds again if the handler's own part is
right afterwards and the other handlers have sent nothing. -/
theorem Inv.move (hs : Inv setup s outs) {heartBeatTime : ℕ → ℤ}
    (hruns : ∃ as, exec (State.step (code setup.helper.si)) (State.new setup.helper.adapterSet) as =
      some (helper, calls (outs ++ es)))
    (hself : Heartbeats.sent t es ++ loop.left = (s.loop t).left ++ taken t es)
    (hothers : ∀ u ≠ t, Heartbeats.sent u es = [] ∧ taken u es = [])
    (hadapters : ∀ a ∈ loop.adapters, a ∈ setup.adapters t)
    (htimes : ∀ a h, Sole setup a h →
      (0 :: reports a (outs ++ es)).IsChain Apart ∧
        (Function.update s.loop t loop h).Times a (last a (outs ++ es)) (heartBeatTime a)) :
    Inv setup (setLoop ⟨heartBeatTime, helper, s.loop⟩ t loop) (outs ++ es) where
  runs := hruns
  sent u := by
    rw [sent_append, taken_append, ← hs.sent u]
    obtain rfl | hne := eq_or_ne u t
    · rw [setLoop_loop_self, List.append_assoc, List.append_assoc, hself]
    · rw [setLoop_loop_of_ne hne, (hothers u hne).1, (hothers u hne).2, List.append_nil,
        List.append_nil]
  adapters u := by
    obtain rfl | hne := eq_or_ne u t
    · rw [setLoop_loop_self]
      exact hadapters
    · rw [setLoop_loop_of_ne hne]
      exact hs.adapters u
  times := htimes

/-- A step that reports nothing and leaves the times of the adapters. -/
theorem Inv.quiet (hs : Inv setup s outs)
    (hruns : ∃ as, exec (State.step (code setup.helper.si)) (State.new setup.helper.adapterSet) as =
      some (helper, calls (outs ++ es)))
    (hself : Heartbeats.sent t es ++ loop.left = (s.loop t).left ++ taken t es)
    (hothers : ∀ u ≠ t, Heartbeats.sent u es = [] ∧ taken u es = [])
    (hadapters : ∀ a ∈ loop.adapters, a ∈ setup.adapters t)
    (hreports : ∀ a, reports a es = [])
    (htimes : ∀ a last, (s.loop t).Times a last (s.heartBeatTime a) →
      loop.Times a last (s.heartBeatTime a)) :
    Inv setup ({ s with helper }.setLoop t loop) (outs ++ es) := by
  refine hs.move hruns hself hothers hadapters fun a h hsole => ?_
  obtain ⟨hchain, htime⟩ := hs.times a h hsole
  rw [last, reports_append, hreports, List.append_nil]
  refine ⟨hchain, ?_⟩
  obtain rfl | hne := eq_or_ne h t
  · rw [Function.update_self]
    exact htimes a _ htime
  · rw [Function.update_of_ne hne]
    exact htime

/-- A step that cannot be seen moves a handler on, and nothing is noted for it. -/
theorem Inv.silent (hs : Inv setup s outs) (hself : loop.left = (s.loop t).left)
    (hadapters : ∀ a ∈ loop.adapters, a ∈ setup.adapters t)
    (htimes : ∀ a last, (s.loop t).Times a last (s.heartBeatTime a) →
      loop.Times a last (s.heartBeatTime a)) :
    Inv setup (s.setLoop t loop) (outs ++ []) :=
  hs.quiet (by rw [List.append_nil]; exact hs.runs) (by rw [hself]; exact (List.append_nil _).symm)
    (fun _ _ => ⟨rfl, rfl⟩) hadapters (fun _ => rfl) htimes

/-- A step of the helper behind its lock makes the run of the helper longer by one action. -/
theorem Inv.runs_step (hs : Inv setup s outs) {act : LockedObjects.Action ℕ Bytes}
    (hstep : State.step (code setup.helper.si) s.helper act = some (helper, events)) :
    ∃ as, exec (State.step (code setup.helper.si)) (State.new setup.helper.adapterSet) as =
      some (helper, calls outs ++ events) := by
  obtain ⟨as, hexec⟩ := hs.runs
  exact ⟨as ++ [act], exec_append_eq_some.mpr ⟨s.helper, calls outs, events, hexec,
    exec_cons_eq_some.mpr ⟨helper, events, [], hstep, exec_nil, (List.append_nil _).symm⟩, rfl⟩⟩

/-- An adapter that a handler deals with is not the only task of another handler. -/
theorem Inv.ne_of_sole (hs : Inv setup s outs) (ha : a ∈ (s.loop t).adapters) {b : ℕ}
    (hsole : Sole setup b h) (hne : h ≠ t) : a ≠ b := by
  rintro rfl
  exact hne (hsole t (hs.adapters t a ha)).symm

/-- `setHeartBeatTime` stamps the time of an adapter, which was found to be due. -/
theorem Inv.stamp (hs : Inv setup s outs) (hloop : s.loop t = .stamping fcur a adapters) :
    Inv setup ({ s with heartBeatTime := Function.update s.heartBeatTime a fcur }.setLoop t
      (.calling fcur a adapters)) (outs ++ []) := by
  have hmem : a ∈ (s.loop t).adapters := by
    rw [hloop]
    exact List.mem_cons_self
  refine hs.move (by rw [List.append_nil]; exact hs.runs) (by rw [hloop]; rfl)
    (fun _ _ => ⟨rfl, rfl⟩) (fun b hb => hs.adapters t b (by rw [hloop]; exact hb))
    fun b h hsole => ?_
  obtain ⟨hchain, htime⟩ := hs.times b h hsole
  rw [List.append_nil]
  refine ⟨hchain, ?_⟩
  obtain rfl | hne := eq_or_ne h t
  · rw [Function.update_self]
    rw [hloop] at htime
    obtain ⟨hlast, hdue⟩ := htime
    change if a = b then _ else _
    split
    · next heq => exact ⟨by rw [heq, Function.update_self], hdue heq⟩
    · next hab => rwa [Function.update_of_ne (Ne.symm hab)]
  · rw [Function.update_of_ne hne, Function.update_of_ne (hs.ne_of_sole hmem hsole hne).symm]
    exact htime

/-- A call of `keepAlive` for an adapter, which is noted where its access to the list begins. -/
theorem Inv.call (hs : Inv setup s outs) (hloop : s.loop t = .calling fcur a adapters)
    (hstep : State.step (code setup.helper.si) s.helper (.call t (setup.name a)) =
      some (helper, events)) :
    Inv setup ({ s with helper }.setLoop t (.inside fcur adapters))
      (outs ++ .report a fcur :: events.map .call) := by
  have hmem : a ∈ (s.loop t).adapters := by
    rw [hloop]
    exact List.mem_cons_self
  obtain rfl : events = [.call t (setup.name a)] := step_call_events hstep
  have hruns := hs.runs_step hstep
  refine hs.move (by rw [calls_append]; exact hruns) (by rw [hloop]; rfl) (fun _ _ => ⟨rfl, rfl⟩)
    (fun b hb => hs.adapters t b (by rw [hloop]; exact List.mem_cons_of_mem _ hb))
    fun b h hsole => ?_
  obtain ⟨hchain, htime⟩ := hs.times b h hsole
  rw [last, reports_append]
  obtain rfl | hab := eq_or_ne a b
  · -- The handler is the only one of the adapter, so the adapter holds the time of this report.
    obtain rfl : h = t := by
      by_contra hne
      exact hs.ne_of_sole hmem hsole hne rfl
    have hreports : reports a [.report a fcur, .call (.call h (setup.name a))] = [fcur] := by
      simp [reports]
    rw [hloop, Loop.Times, if_pos rfl] at htime
    rw [List.map_singleton, hreports, Function.update_self]
    exact ⟨isChain_concat hchain htime.2, htime.1.trans List.getLastD_concat.symm⟩
  · have hreports : reports b [.report a fcur, .call (.call t (setup.name a))] = [] := by
      simp [reports, hab]
    rw [List.map_singleton, hreports, List.append_nil]
    refine ⟨hchain, ?_⟩
    obtain rfl | hne := eq_or_ne h t
    · rw [hloop, Loop.Times, if_neg hab] at htime
      rw [Function.update_self]
      exact htime
    · rw [Function.update_of_ne hne]
      exact htime

/-- A step in `keepAlive`: the helper goes on, and the handler sends what the call returns. -/
theorem Inv.keepAlive (hs : Inv setup s outs) (hloop : s.loop t = .inside fcur adapters)
    (hstep : State.step (code setup.helper.si) s.helper (.thread t) = some (helper, events)) :
    Inv setup ({ s with helper }.setLoop t (proceed fcur adapters events))
      (outs ++ events.map .call) := by
  have hcalls : calls (events.map .call) = events := calls_map_call
  have hruns := hs.runs_step hstep
  rw [← hcalls, ← calls_append] at hruns
  have hadapters : ∀ a ∈ adapters, a ∈ setup.adapters t := fun a ha =>
    hs.adapters t a (by rw [hloop]; exact ha)
  obtain rfl | ⟨r, rfl⟩ := threadStep_events hstep
  · exact hs.quiet hruns (by rw [hloop]; rfl) (fun _ _ => ⟨rfl, rfl⟩) hadapters
      (fun _ => reports_map_call) (by rw [hloop]; exact fun _ _ htime => htime)
  · -- What the call took out is still to be sent.
    refine hs.quiet hruns ?_ (fun u hne => ⟨sent_map_call, ?_⟩) hadapters
      (fun _ => reports_map_call) (by rw [hloop]; exact fun _ _ htime => htime)
    · rw [hloop, sent_map_call]
      simp [proceed, Loop.left, taken]
    · simp [taken, hne.symm]

/-- Every step of a handler keeps the invariant, one case for each place of its loop. -/
theorem inv_threadStep (hnode : setup.helper.nodePrx.isSome) (hs : Inv setup s outs)
    (hstep : s.threadStep setup t = some (s', es)) : Inv setup s' (outs ++ es) := by
  have hadapters : ∀ a ∈ (s.loop t).adapters, a ∈ setup.adapters t := hs.adapters t
  unfold threadStep at hstep
  split at hstep
  · cases hstep
  · next fcur hloop =>
    obtain ⟨rfl, rfl⟩ := Prod.mk.inj (Option.some.inj hstep)
    rw [hloop] at hadapters
    exact hs.silent (by rw [hloop]; rfl) hadapters (by rw [hloop]; exact fun _ _ htime => htime)
  · next fcur a adapters hloop =>
    rw [hloop] at hadapters
    split at hstep
    · next hdue =>
      obtain ⟨rfl, rfl⟩ := Prod.mk.inj (Option.some.inj hstep)
      refine hs.silent (by rw [hloop]; rfl) hadapters ?_
      rw [hloop]
      rintro b last htime
      refine ⟨htime, ?_⟩
      rintro rfl
      rw [Apart, ← htime]
      exact hdue
    · obtain ⟨rfl, rfl⟩ := Prod.mk.inj (Option.some.inj hstep)
      exact hs.silent (by rw [hloop]; rfl) (fun b hb => hadapters b (List.mem_cons_of_mem _ hb))
        (by rw [hloop]; exact fun _ _ htime => htime)
  · next fcur a adapters hloop =>
    obtain ⟨rfl, rfl⟩ := Prod.mk.inj (Option.some.inj hstep)
    exact hs.stamp hloop
  · next fcur a adapters hloop =>
    split at hstep
    · next hnone =>
      rw [hnone] at hnode
      cases hnode
    · obtain ⟨⟨helper, events⟩, hcall, heq⟩ := Option.map_eq_some_iff.mp hstep
      obtain ⟨rfl, rfl⟩ := Prod.mk.inj heq
      exact hs.call hloop hcall
  · next fcur adapters hloop =>
    obtain ⟨⟨helper, events⟩, hthread, heq⟩ := Option.map_eq_some_iff.mp hstep
    obtain ⟨rfl, rfl⟩ := Prod.mk.inj heq
    exact hs.keepAlive hloop hthread
  · next fcur adapters hloop =>
    obtain ⟨rfl, rfl⟩ := Prod.mk.inj (Option.some.inj hstep)
    rw [hloop] at hadapters
    exact hs.silent (by rw [hloop]; rfl) hadapters (by rw [hloop]; exact fun _ _ htime => htime)
  · next si rest fcur adapters hloop =>
    obtain ⟨rfl, rfl⟩ := Prod.mk.inj (Option.some.inj hstep)
    rw [hloop] at hadapters
    refine hs.quiet (by rw [calls_append]; simpa [calls] using hs.runs) ?_ (fun u hne => ⟨?_, rfl⟩)
      hadapters (fun _ => rfl) (by rw [hloop]; exact fun _ _ htime => htime)
    · rw [hloop]
      simp [Heartbeats.sent, taken, Loop.left]
    · simp [Heartbeats.sent, hne.symm]

/-- At the start nothing has happened, so there is nothing to prove of the past. -/
theorem inv_new : Inv setup (new setup) [] where
  runs := ⟨[], rfl⟩
  sent _ := rfl
  adapters _ _ ha := nomatch ha
  times _ _ _ := ⟨List.isChain_singleton _, rfl⟩

/-- Every step keeps the invariant: a handler starts its heartbeat, or goes one step on. -/
theorem inv_step (hnode : setup.helper.nodePrx.isSome) {act : Action} (hs : Inv setup s outs)
    (hstep : s.step setup act = some (s', es)) : Inv setup s' (outs ++ es) := by
  cases act with
  | heartbeat t fcur =>
    unfold step at hstep
    dsimp only at hstep
    split at hstep
    · next hloop =>
      obtain ⟨rfl, rfl⟩ := Prod.mk.inj (Option.some.inj hstep)
      exact hs.silent (by rw [hloop]; rfl) (fun _ ha => ha)
        (by rw [hloop]; exact fun _ _ htime => htime)
    · cases hstep
  | thread t => exact inv_threadStep hnode hs hstep

/-- **Heartbeats.** If the server has a node, then whatever the handlers do and whatever the clock
shows: the calls of `keepAlive` are those of one thread; each handler sends exactly what its calls
took out, in order; and the times at which `keepAlive` is called for an adapter that has one handler
lie apart. -/
theorem heartbeats_sound (hnode : setup.helper.nodePrx.isSome) {as : List Action}
    (hexec : exec (step setup) (new setup) as = some (s, outs)) :
    (∃ ps, Linearizes TarsNodeFHelper.keepAlive setup.helper (calls outs) ps) ∧
      (∀ t, Heartbeats.sent t outs ++ (s.loop t).left = taken t outs) ∧
      ∀ a h, Sole setup a h → (0 :: reports a outs).IsChain Apart := by
  have hs : Inv setup s outs :=
    exec_keeps (fun _ _ _ _ _ hs hstep => inv_step hnode hs hstep) inv_new hexec
  obtain ⟨as, hruns⟩ := hs.runs
  obtain ⟨ps, hlinearizes, -, -⟩ :=
    LockedObjects.linearizes (meets setup.helper hnode) trivial hruns
  exact ⟨⟨ps, hlinearizes⟩, hs.sent, fun a h hsole => (hs.times a h hsole).1⟩

end Steps

/-- A server whose adapter `1` has the handlers `1` and `2`. -/
def server : Setup where
  helper := ⟨some 0, ⟨bytes "App", bytes "Server", 7, []⟩, []⟩
  adapters t := if t = 0 then [0] else [1]
  name a := if a = 0 then bytes "AdminAdapter" else bytes "HelloAdapter"

/-- Both handlers find the heartbeat of their adapter due, and then that of the administration
adapter is due. -/
def raced : List Action :=
  [.heartbeat 1 100, .heartbeat 2 100, .thread 1, .thread 2, .thread 1, .thread 2] ++
    List.replicate 6 (.thread 1) ++ List.replicate 6 (.thread 2) ++
    .heartbeat 0 105 :: List.replicate 11 (.thread 0)

/-- The statement on a run of two handlers: one message is sent for each adapter, in the order of
the calls. -/
theorem heartbeats_sound_sample : ∃ s outs,
    exec (step server) (new server) raced = some (s, outs) ∧
      (sent 0 outs).map ServerInfo.adapter = [bytes "AdminAdapter", bytes "HelloAdapter"] ∧
      reports 1 outs = [100, 100] ∧
      (∃ ps, Linearizes TarsNodeFHelper.keepAlive server.helper (calls outs) ps) ∧
      (0 :: reports 0 outs).IsChain Apart := by
  have hsome : (exec (step server) (new server) raced).map (fun r =>
      ((sent 0 r.2).map ServerInfo.adapter, reports 1 r.2)) =
        some ([bytes "AdminAdapter", bytes "HelloAdapter"], [100, 100]) := by decide +kernel
  obtain ⟨⟨s, outs⟩, hexec, hlists⟩ := Option.map_eq_some_iff.mp hsome
  obtain ⟨hsent, hreports⟩ := Prod.mk.inj hlists
  obtain ⟨hlinearizes, -, hapart⟩ := heartbeats_sound rfl hexec
  refine ⟨s, outs, hexec, hsent, hreports, hlinearizes, hapart 0 0 fun t ht => ?_⟩
  by_contra hne
  simp [server, hne] at ht

end Heartbeats

end Tars
