import Mathlib.Algebra.Order.Group.Nat
import Mathlib.Data.List.Sort
import Tars.Library.Rings

/-!
# The coroutine scheduler

`CoroutineScheduler` keeps its coroutines in five intrusive lists, and the status of a
coroutine names its list. Five guarded moves change list and status. A coroutine that
suspends leaves its id behind where one of three wake functions finds it. The functions
return `none` where the source fails an assertion, follows a null pointer or leaves an array.
-/

namespace Tars

open Rings

/-- `CORO_STATUS`, which also names the list heads `_free`, `_active`, `_avail`, `_inactive`
and `_timeout`. -/
inductive CoroStatus where
  /-- `CORO_FREE` -/
  | free
  /-- `CORO_ACTIVE` -/
  | active
  /-- `CORO_AVAIL` -/
  | avail
  /-- `CORO_INACTIVE` -/
  | inactive
  /-- `CORO_TIMEOUT` -/
  | timeout
  deriving DecidableEq

/-- The address of a `CoroutineInfo`. Between two calls of `init` no id is given out twice,
so an object is known by the number of calls of `init` before it was made and by its id. -/
structure CoroutineInfo where
  /-- The number of calls of `init` so far. -/
  generation : ℕ
  /-- `_uid`. -/
  uid : ℕ
  deriving DecidableEq

/-- A node of `_timeoutCoroId`: a coroutine and the time until which it sleeps. -/
structure TimeoutNode where
  /-- The identity of the node. -/
  node : ℕ
  /-- The key of the multimap. -/
  deadline : ℤ
  /-- The coroutine to wake. -/
  coroId : ℕ
  deriving DecidableEq

/-- How a coroutine was suspended, which says what may wake it. -/
inductive Suspension where
  /-- By `yield(bFlag)`. -/
  | yield (bFlag : Bool)
  /-- By `sleep`, which left this node in `_timeoutCoroId`. -/
  | sleep (node : ℕ)
  deriving DecidableEq

/-- Where a wake function found the id of a coroutine. -/
inductive WakeCause where
  /-- In this node of `_timeoutCoroId`. -/
  | timer (node : ℕ)
  /-- In `_needActiveCoroId`. -/
  | self
  /-- In `_activeCoroQueue`. -/
  | put
  deriving DecidableEq

/-- What can be observed of the scheduler: which coroutines it makes, suspends, wakes, resumes and
frees. -/
inductive CoroOutput where
  /-- `createCoroutine` returned this id. -/
  | created (iId : ℕ)
  /-- The running coroutine suspended itself. -/
  | suspended (coro : CoroutineInfo) (how : Suspension)
  /-- A wake function moved a suspended coroutine to a runnable list. -/
  | woken (coro : CoroutineInfo) (cause : WakeCause)
  /-- The main coroutine switched to this coroutine. -/
  | resumed (coro : CoroutineInfo)
  /-- The body of the running coroutine returned or threw. -/
  | finished (coro : CoroutineInfo)
  deriving DecidableEq

/-- The members of `CoroutineScheduler`, with the links of its lists. -/
structure CoroutineScheduler where
  /-- `_terminal`. -/
  terminal : Bool
  /-- `_poolSize`. -/
  poolSize : ℕ
  /-- `_currentSize`. -/
  currentSize : ℕ
  /-- `_usedSize`. -/
  usedSize : ℕ
  /-- `_uniqId`. -/
  uniqId : ℕ
  /-- The number of calls of `init` so far. -/
  generation : ℕ
  /-- `_currentCoro`; `none` is the main coroutine. -/
  currentCoro : Option CoroutineInfo
  /-- `_all_coro`, an array of pointers. -/
  allCoro : List (Option CoroutineInfo)
  /-- `_next` and `_prev` of the list heads and of all coroutines. -/
  links : Links (CoroStatus ⊕ CoroutineInfo)
  /-- `_eStatus` of all coroutines. -/
  status : CoroutineInfo → CoroStatus
  /-- `_needActiveCoroId`. -/
  needActiveCoroId : List ℕ
  /-- `_activeCoroQueue`. -/
  activeCoroQueue : List ℕ
  /-- `_timeoutCoroId`, in ascending order of deadlines. -/
  timeoutCoroId : List TimeoutNode
  /-- The identity of the next node of `_timeoutCoroId`. -/
  nextNode : ℕ

namespace CoroutineScheduler

/-- `CoroutineHeadInit` on the five list heads, which makes each list an empty ring. -/
def headInitAll : Links (CoroStatus ⊕ CoroutineInfo) :=
  [.active, .avail, .inactive, .timeout, .free].foldl (fun L k => L.headInit (.inl k))
    ⟨fun _ => none, fun _ => none⟩

/-- The constructor: no coroutine exists, and the pool would have a thousand of them. -/
def new : CoroutineScheduler where
  terminal := false
  poolSize := 1000
  currentSize := 0
  usedSize := 0
  uniqId := 0
  generation := 0
  currentCoro := none
  allCoro := List.replicate 1001 none
  links := headInitAll
  status := fun _ => .free
  needActiveCoroId := []
  activeCoroQueue := []
  timeoutCoroId := []
  nextNode := 0

/-- `CoroutineHeadEmpty` on one of the list heads: nothing is on that list. -/
def headEmpty (s : CoroutineScheduler) (list : CoroStatus) : Bool := s.links.headEmpty (.inl list)

/-- `_all_coro[iCoroId]` where the source asserts that the pointer is not null. -/
def lookup (s : CoroutineScheduler) (iCoroId : ℕ) : Option CoroutineInfo :=
  (s.allCoro[iCoroId]?).join

/-! ### Moves between the lists -/

/-- The shape that all `moveTo` functions share: a coroutine with one of the statuses `sources`
goes to the end of the list `target`, any other one stays where it is. -/
def moveTo (sources : List CoroStatus) (target : CoroStatus) (s : CoroutineScheduler)
    (coro : CoroutineInfo) : Option CoroutineScheduler :=
  if s.status coro ∈ sources then
    match s.links.del (.inr coro) with
    | none => none
    | some links =>
      match links.addTail (.inr coro) (.inl target) with
      | none => none
      | some links => some { s with links, status := Function.update s.status coro target }
  else some s

/-- `moveToActive`, which takes coroutines that wait or sleep and refuses all others. -/
def moveToActive : CoroutineScheduler → CoroutineInfo → Option CoroutineScheduler :=
  moveTo [.inactive, .timeout] .active

/-- `moveToAvail`, which takes coroutines that wait and refuses all others. -/
def moveToAvail : CoroutineScheduler → CoroutineInfo → Option CoroutineScheduler :=
  moveTo [.inactive] .avail

/-- `moveToInactive`, which takes coroutines that can run and refuses all others. -/
def moveToInactive : CoroutineScheduler → CoroutineInfo → Option CoroutineScheduler :=
  moveTo [.active, .avail] .inactive

/-- `moveToTimeout`, which takes coroutines that can run and refuses all others. -/
def moveToTimeout : CoroutineScheduler → CoroutineInfo → Option CoroutineScheduler :=
  moveTo [.active, .avail] .timeout

/-- `moveToFreeList`, which takes coroutines from any of the other lists. -/
def moveToFreeList : CoroutineScheduler → CoroutineInfo → Option CoroutineScheduler :=
  moveTo [.active, .avail, .inactive, .timeout] .free

/-! ### Growing the pool -/

/-- `generateId`: the next id that is not zero. Its assertion fails behind the last id of the pool.
-/
def generateId (s : CoroutineScheduler) : Option (CoroutineScheduler × ℕ) :=
  let next := (s.uniqId + 1) % 2 ^ 32
  let iId := if next = 0 then 1 else next
  if iId ≤ s.poolSize then some ({ s with uniqId := iId }, iId) else none

/-- A new coroutine enters `_all_coro` and the end of `_free`. -/
def addFree (s : CoroutineScheduler) (iId : ℕ) : Option CoroutineScheduler :=
  let coro : CoroutineInfo := ⟨s.generation, iId⟩
  if iId < s.allCoro.length then
    match s.links.addTail (.inr coro) (.inl .free) with
    | none => none
    | some links =>
      some { s with
        links
        status := Function.update s.status coro .free
        allCoro := s.allCoro.set iId (some coro) }
  else none

/-- The loop of `init` with the rounds that are left and `iSucc`. The stack is allocated before
the id is generated; `alloc` says which allocations of this call succeed. -/
def initLoop (alloc : ℕ → Bool) :
    ℕ → ℕ → CoroutineScheduler → Option (CoroutineScheduler × ℕ)
  | 0, iSucc, s => some (s, iSucc)
  | rounds + 1, iSucc, s =>
    if alloc iSucc then
      match s.generateId with
      | none => none
      | some (s, iId) =>
        match s.addFree iId with
        | none => none
        | some s => initLoop alloc rounds (iSucc + 1) s
    else some (s, iSucc)

/-- `init`. The array gets `_poolSize + 1` elements, computed in 32 bits, and all indices up to
`_poolSize` are written. -/
def init (s : CoroutineScheduler) (iPoolSize : UInt32) (alloc : ℕ → Bool) :
    Option CoroutineScheduler :=
  if iPoolSize = 0 then some s
  else if (iPoolSize.toNat + 1) % 2 ^ 32 ≤ iPoolSize.toNat then none
  else
    let started := { s with
      terminal := false
      poolSize := iPoolSize.toNat
      allCoro := List.replicate (iPoolSize.toNat + 1) none
      usedSize := 0
      uniqId := 0
      generation := s.generation + 1 }
    let rounds := if iPoolSize.toNat ≤ 100 then iPoolSize.toNat else 100
    match initLoop alloc rounds 0 started with
    | none => none
    | some (s, iSucc) => some { s with currentSize := iSucc, currentCoro := none }

/-- The loop of `increaseCoroPoolSize` with the rounds that are left and `iSucc`. Here the id
is generated before the stack is allocated. -/
def increaseLoop (alloc : ℕ → Bool) :
    ℕ → ℕ → CoroutineScheduler → Option (CoroutineScheduler × ℕ)
  | 0, iSucc, s => some (s, iSucc)
  | rounds + 1, iSucc, s =>
    match s.generateId with
    | none => none
    | some (s, iId) =>
      if alloc iSucc then
        match s.addFree iId with
        | none => none
        | some s => increaseLoop alloc rounds (iSucc + 1) s
      else some (s, iSucc)

/-- The difference of two `uint32_t` values, which wraps below zero. -/
def uint32Sub (a b : ℕ) : ℕ := (a + 2 ^ 32 - b) % 2 ^ 32

/-- `increaseCoroPoolSize`: the return value is `0`, or `-1` if nothing was added. -/
def increaseCoroPoolSize (s : CoroutineScheduler) (alloc : ℕ → Bool) :
    Option (CoroutineScheduler × ℤ) :=
  let room := uint32Sub s.poolSize s.currentSize
  let iInc := if room > 100 then 100 else room
  if iInc = 0 then some (s, -1)
  else
    match increaseLoop alloc iInc 0 s with
    | none => none
    | some (s, 0) => some (s, -1)
    | some (s, iSucc + 1) =>
      some ({ s with currentSize := (s.currentSize + (iSucc + 1)) % 2 ^ 32 }, 0)

/-- The second half of `createCoroutine`: the first coroutine of `_free` goes to the end of
`_avail`. It fails if the list head itself would be taken as a coroutine. -/
def takeFree (s : CoroutineScheduler) : Option (CoroutineScheduler × ℕ) :=
  match s.links.next (.inl .free) with
  | some (.inr coro) =>
    match s.links.del (.inr coro) with
    | none => none
    | some links =>
      match links.addTail (.inr coro) (.inl .avail) with
      | none => none
      | some links =>
        some ({ s with
          links
          status := Function.update s.status coro .avail
          usedSize := (s.usedSize + 1) % 2 ^ 32 }, coro.uid)
  | _ => none

/-- `createCoroutine`: the id of the new coroutine, or `0`. -/
def createCoroutine (s : CoroutineScheduler) (alloc : ℕ → Bool) :
    Option (CoroutineScheduler × ℕ) :=
  if s.usedSize ≥ s.currentSize ∨ s.headEmpty .free = true then
    match s.increaseCoroPoolSize alloc with
    | none => none
    | some (s, iRet) => if iRet ≠ 0 then some (s, 0) else s.takeFree
  else s.takeFree

/-! ### Suspending -/

/-- `switchCoro` back to the main coroutine: no other one runs. -/
def switchToMain (s : CoroutineScheduler) : CoroutineScheduler := { s with currentCoro := none }

/-- `putbyself` notes that a coroutine wants to be resumed in the next round. -/
def putbyself (s : CoroutineScheduler) (iCoroId : ℕ) : CoroutineScheduler :=
  if s.terminal then s else { s with needActiveCoroId := s.needActiveCoroId ++ [iCoroId] }

/-- `yield` of the coroutine `coro`: it waits, for its next turn or for a `put`. -/
def yield (s : CoroutineScheduler) (coro : CoroutineInfo) (bFlag : Bool) :
    Option CoroutineScheduler :=
  let s := if bFlag then s.putbyself coro.uid else s
  (s.moveToInactive coro).map switchToMain

/-- `multimap::insert`: the new node goes behind those with the same deadline. -/
def insertTimeout (node : TimeoutNode) (l : List TimeoutNode) : List TimeoutNode :=
  l.orderedInsert (fun a b => a.deadline < b.deadline) node

/-- `-iSleepTime` as an `int`, for negative times, which wraps for the least one. -/
def sleepTime (iSleepTime : Int32) : ℤ :=
  if iSleepTime ≥ 0 then iSleepTime.toInt else (-iSleepTime).toInt

/-- `sleep` of the coroutine `coro` at the time `iNow`. -/
def sleep (s : CoroutineScheduler) (coro : CoroutineInfo) (iSleepTime : Int32) (iNow : ℤ) :
    Option CoroutineScheduler :=
  let s := { s with
    timeoutCoroId :=
      insertTimeout ⟨s.nextNode, iNow + sleepTime iSleepTime, coro.uid⟩ s.timeoutCoroId
    nextNode := s.nextNode + 1 }
  (s.moveToTimeout coro).map switchToMain

/-- The end of `corotineProc` for the coroutine `coro`: its body returned or threw. -/
def finish (s : CoroutineScheduler) (coro : CoroutineInfo) : Option CoroutineScheduler :=
  let s := { s with usedSize := uint32Sub s.usedSize 1 }
  (s.moveToFreeList coro).map switchToMain

/-! ### Waking -/

/-- `put` notes that a coroutine is to be woken, unless the scheduler is to end. -/
def put (s : CoroutineScheduler) (iCoroId : ℕ) : CoroutineScheduler :=
  if s.terminal then s else { s with activeCoroQueue := s.activeCoroQueue ++ [iCoroId] }

/-- The loop that the wake functions share: the coroutines of these ids are moved one after
the other. The outputs say which of them really moved. -/
def wakeLoop (move : CoroutineScheduler → CoroutineInfo → Option CoroutineScheduler) :
    List (ℕ × WakeCause) → CoroutineScheduler → Option (CoroutineScheduler × List CoroOutput)
  | [], s => some (s, [])
  | (iCoroId, cause) :: rest, s =>
    match s.lookup iCoroId with
    | none => none
    | some coro =>
      match move s coro with
      | none => none
      | some next =>
        match wakeLoop move rest next with
        | none => none
        | some (last, out) =>
          some (last, if next.status coro = s.status coro then out else .woken coro cause :: out)

/-- The ids in the nodes of `_timeoutCoroId` whose deadline has come. The loop takes nodes from
the front until it finds a deadline that has not come. -/
def due (s : CoroutineScheduler) (iNow : ℤ) : List (ℕ × WakeCause) :=
  (s.timeoutCoroId.takeWhile (fun n => n.deadline ≤ iNow)).map
    fun n => (n.coroId, .timer n.node)

/-- `wakeupbytimeout` at the time `iNow`: the coroutines whose time has come become active. -/
def wakeupbytimeout (s : CoroutineScheduler) (iNow : ℤ) :
    Option (CoroutineScheduler × List CoroOutput) :=
  if s.terminal then some (s, [])
  else
    match wakeLoop moveToActive (s.due iNow) s with
    | none => none
    | some (last, out) =>
      some ({ last with
        timeoutCoroId := last.timeoutCoroId.dropWhile (fun n => n.deadline ≤ iNow) }, out)

/-- `wakeupbyself`: the coroutines that have yielded for a turn become available. -/
def wakeupbyself (s : CoroutineScheduler) : Option (CoroutineScheduler × List CoroOutput) :=
  if s.terminal then some (s, [])
  else
    match wakeLoop moveToAvail (s.needActiveCoroId.map fun iId => (iId, .self)) s with
    | none => none
    | some (last, out) => some ({ last with needActiveCoroId := [] }, out)

/-- `wakeup`: the coroutines that were put become active, in the order of the puts. -/
def wakeup (s : CoroutineScheduler) : Option (CoroutineScheduler × List CoroOutput) :=
  if s.terminal then some (s, [])
  else
    wakeLoop moveToActive (s.activeCoroQueue.map fun iId => (iId, .put))
      { s with activeCoroQueue := [] }

end CoroutineScheduler

end Tars
