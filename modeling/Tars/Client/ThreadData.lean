import Mathlib.Data.Finset.Card
import Tars.Client.SeqManager
import Tars.Library.Scripts

/-!
# The data of the client threads

Every thread that calls a proxy gets a `ServantProxyThreadData` with a number of its own, which
`getData` takes from a `SeqManager` of 2048 numbers. The destructor that runs when the thread
exits deletes the data and leaves the number taken: nothing calls `SeqManager::del`. So the
numbers of live threads always differ, but they run out once 2048 threads have called, however
few of them are alive.
-/

namespace Tars

open Scripts

/-- The members of `ServantProxyThreadData` that a call uses. A queue is named by a number. -/
structure ServantProxyThreadData where
  /-- `_reqQueue`, as far as it was written. -/
  reqQueue : List ℕ
  /-- `_queueInit`. -/
  queueInit : Bool
  /-- `_reqQNo`. -/
  reqQNo : ℕ
  /-- `_netSeq`. -/
  netSeq : ℕ
  /-- `_netThreadSeq`. -/
  netThreadSeq : ℤ
  /-- `_objectProxyNum`. -/
  objectProxyNum : ℕ
  deriving DecidableEq

/-- The constructor: no queues were made, and the thread has no number of its own. -/
def ServantProxyThreadData.new : ServantProxyThreadData := ⟨[], false, 0, 0, -1, 0⟩

/-- New data with a number, which `createData` got from the manager. -/
def ServantProxyThreadData.numbered (reqQNo : ℕ) : ServantProxyThreadData :=
  { ServantProxyThreadData.new with reqQNo }

/-- What a thread does next, as far as its data is concerned. -/
inductive ThreadAction where
  /-- A thread is created. -/
  | create
  /-- A live thread calls `getData`. -/
  | getData (t : ℕ)
  /-- A live thread exits. -/
  | exit (t : ℕ)
  deriving DecidableEq

/-- The threads of a process, numbered in the order of their creation, and the static members of
`ServantProxyThreadData`. -/
structure Threads where
  /-- `_pSeq`. -/
  pSeq : SeqManager
  /-- `_key`; the source takes 0 as the value before the key is created. -/
  key : ℕ
  /-- How many times `pthread_key_create` was called. -/
  keys : ℕ
  /-- `pthread_getspecific`, by thread and key. -/
  specific : ℕ → ℕ → Option ServantProxyThreadData
  /-- How many data were created. -/
  created : ℕ
  /-- How many threads were created. -/
  started : ℕ
  /-- The threads that have not exited. -/
  alive : List ℕ
  /-- Whether an assertion has failed, which ends the process. -/
  aborted : Bool

namespace Threads

/-- The start of the process: all numbers are free, and no thread has data. -/
def new : Threads :=
  ⟨(SeqManager.new 2048).get rfl, 0, 0, fun _ _ => none, 0, 0, [], false⟩

/-- `pthread_setspecific`: the value under the key is replaced for this thread. -/
def setspecific (s : Threads) (t key : ℕ) (data : ServantProxyThreadData) : Threads :=
  { s with specific := Function.update s.specific t (Function.update (s.specific t) key data) }

/-- The first part of `getData`: create the key. The `n`-th call of `pthread_key_create` gives
`newKey n`. -/
def createKey (newKey : ℕ → ℕ) (s : Threads) : Threads :=
  if s.key = 0 then { s with key := newKey s.keys, keys := s.keys + 1 } else s

/-- The value that `getData` finds for a thread, if there is one. -/
def find (newKey : ℕ → ℕ) (s : Threads) (t : ℕ) : Option ServantProxyThreadData :=
  (s.createKey newKey).specific t (s.createKey newKey).key

/-- The new data that `getData` makes while it holds `_mutex`. -/
def createData (s : Threads) (t : ℕ) : Option (Threads × ServantProxyThreadData) :=
  s.pSeq.get.map fun r =>
    ({ s with pSeq := r.1, created := s.created + 1 }.setspecific t s.key (.numbered r.2),
      .numbered r.2)

/-- `getData` of a thread. It fails where an assertion of `SeqManager::get` does. -/
def getData (newKey : ℕ → ℕ) (s : Threads) (t : ℕ) : Option (Threads × ServantProxyThreadData) :=
  match s.find newKey t with
  | some data => some (s.createKey newKey, data)
  | none => (s.createKey newKey).createData t

/-- A thread is created, which has no data under any key. -/
def create (s : Threads) : Threads :=
  { s with started := s.started + 1, alive := s.started :: s.alive }

/-- The thread exits. `destructor` deletes its data, but nothing gives its number back. -/
def exit (s : Threads) (t : ℕ) : Threads :=
  { s with
    specific := Function.update s.specific t fun _ => none
    alive := s.alive.erase t }

/-- One step of a run, which is refused when the process has ended. -/
def step (newKey : ℕ → ℕ) (s : Threads) (a : ThreadAction) : Option (Threads × List Unit) :=
  if s.aborted then none
  else
    match a with
    | .create => some (s.create, [])
    | .getData t =>
      if t ∈ s.alive then
        match s.getData newKey t with
        | some (s', _) => some (s', [])
        | none => some ({ s with aborted := true }, [])
      else none
    | .exit t => if t ∈ s.alive then some (s.exit t, []) else none

/-- No assertion has failed, and no two live threads have the same `_reqQNo`. -/
structure Sound (s : Threads) : Prop where
  /-- No assertion has failed, so the process is still running. -/
  running : s.aborted = false
  /-- The numbers of live threads differ. -/
  distinct : ∀ t ∈ s.alive, ∀ u ∈ s.alive, ∀ k k' data data', s.specific t k = some data →
    s.specific u k' = some data' → data.reqQNo = data'.reqQNo → t = u

/-- A call of `getData` that finds no data is made while fewer than 2048 data were created. -/
def HasRoom (newKey : ℕ → ℕ) (s : Threads) : ThreadAction → Prop
  | .getData t => s.find newKey t = none → s.created < 2048
  | .create | .exit _ => True

/-- The numbers are handed out in their order, one with each data. -/
structure Inv (s : Threads) : Prop where
  /-- No assertion has failed, so the process is still running. -/
  running : s.aborted = false
  /-- There was a number for every data. -/
  created_le : s.created ≤ 2048
  /-- The numbers that were not given out are free, in ascending order. -/
  frees : s.pSeq.Frees (List.range' s.created (2048 - s.created))
  /-- A number that a thread has was handed out, and the thread is alive. -/
  held : ∀ t k data, s.specific t k = some data → data.reqQNo < s.created ∧ t ∈ s.alive
  /-- Different threads have different numbers. -/
  distinct : ∀ t u k k' data data', s.specific t k = some data → s.specific u k' = some data' →
    data.reqQNo = data'.reqQNo → t = u

variable {newKey : ℕ → ℕ} {s s' : Threads} {t u key : ℕ} {data : ServantProxyThreadData}
  {a : ThreadAction} {as : List ThreadAction} {es : List Unit}

/-- At the start all numbers are free and no thread has data. -/
theorem inv_new : new.Inv := by
  obtain ⟨m, hm, -, hfrees⟩ := @SeqManager.frees_new 2048 (by decide) (by decide)
  refine ⟨rfl, Nat.zero_le _, ?_, fun t k data hdata => ?_, fun t u k k' data data' hdata => ?_⟩
  · have hseq : new.pSeq = m := by simp only [new, hm, Option.get_some]
    rw [hseq, show new.created = 0 from rfl, ← List.range_eq_range']
    exact hfrees
  · cases hdata
  · cases hdata

/-- Creating the key changes neither the numbers nor the data. -/
theorem createKey_keeps (newKey : ℕ → ℕ) (s : Threads) :
    ∃ key keys, s.createKey newKey = { s with key, keys } := by
  unfold createKey
  split
  · exact ⟨_, _, rfl⟩
  · exact ⟨s.key, s.keys, rfl⟩

/-- Creating the key keeps the invariant, since no thread has data under it. -/
theorem Inv.createKey (h : s.Inv) (newKey : ℕ → ℕ) : (s.createKey newKey).Inv := by
  obtain ⟨key, keys, heq⟩ := createKey_keeps newKey s
  rw [heq]
  exact ⟨h.running, h.created_le, h.frees, h.held, h.distinct⟩

/-- What a thread has after data was stored for one. -/
theorem setspecific_specific (k : ℕ) :
    (s.setspecific t key data).specific u k =
      if u = t ∧ k = key then some data else s.specific u k := by
  simp only [setspecific]
  by_cases hu : u = t
  · subst hu
    by_cases hk : k = key
    · simp [hk]
    · simp [hk]
  · simp [hu]

/-- After the exit of a thread the others have what they had. -/
theorem exit_specific {k : ℕ} (h : (s.exit t).specific u k = some data) :
    u ≠ t ∧ s.specific u k = some data := by
  by_cases hu : u = t
  · subst hu
    simp [Threads.exit] at h
  · exact ⟨hu, by simpa [Threads.exit, hu] using h⟩

/-- `getData` adds at most new data, and returns what the thread has then. -/
theorem getData_specific (h : s.getData newKey t = some (s', data)) :
    s'.specific t s'.key = some data ∧ ∀ u k found, s'.specific u k = some found →
      s.specific u k = some found ∨ ∃ reqQNo, found = .numbered reqQNo := by
  obtain ⟨key, keys, heq⟩ := createKey_keeps newKey s
  unfold getData at h
  cases hfind : s.find newKey t with
  | some old =>
    rw [hfind] at h
    obtain ⟨rfl, rfl⟩ := Prod.mk.inj (Option.some.inj h)
    refine ⟨hfind, fun u k found hfound => .inl ?_⟩
    rw [heq] at hfound
    exact hfound
  | none =>
    rw [hfind, createData] at h
    obtain ⟨r, -, hr⟩ := Option.map_eq_some_iff.mp h
    obtain ⟨rfl, rfl⟩ := Prod.mk.inj hr
    refine ⟨?_, fun u k found hfound => ?_⟩
    · rw [setspecific_specific]
      exact if_pos ⟨rfl, rfl⟩
    · rw [setspecific_specific] at hfound
      split at hfound
      · exact .inr ⟨r.2, (Option.some.inj hfound).symm⟩
      · rw [heq] at hfound
        exact .inl hfound

/-- What `getData` returns was found under the thread's key or was made new, with a number of its
own. -/
theorem getData_find (h : s.getData newKey t = some (s', data)) :
    s.find newKey t = some data ∨ s.find newKey t = none ∧ ∃ reqQNo, data = .numbered reqQNo := by
  unfold getData at h
  cases hfind : s.find newKey t with
  | some old =>
    rw [hfind] at h
    exact .inl (congrArg some (Prod.mk.inj (Option.some.inj h)).2)
  | none =>
    rw [hfind, createData] at h
    obtain ⟨r, -, hr⟩ := Option.map_eq_some_iff.mp h
    exact .inr ⟨rfl, r.2, (Prod.mk.inj hr).2.symm⟩

/-- Where there is data `getData` succeeds, and takes no number. -/
theorem getData_of_find (h : s.find newKey t = some data) :
    s.getData newKey t = some (s.createKey newKey, data) := by
  rw [getData, h]

/-- A step makes no other data than new data. -/
theorem step_specific (h : step newKey s a = some (s', es)) {u k : ℕ}
    {found : ServantProxyThreadData} (hfound : s'.specific u k = some found) :
    s.specific u k = some found ∨ ∃ reqQNo, found = .numbered reqQNo := by
  unfold step at h
  split at h
  · cases h
  · cases a with
    | create =>
      obtain ⟨rfl, -⟩ := Prod.mk.inj (Option.some.inj h)
      exact .inl hfound
    | getData t =>
      dsimp only at h
      split at h
      · cases hget : s.getData newKey t with
        | none =>
          rw [hget] at h
          obtain ⟨rfl, -⟩ := Prod.mk.inj (Option.some.inj h)
          exact .inl hfound
        | some r =>
          rw [hget] at h
          obtain ⟨rfl, -⟩ := Prod.mk.inj (Option.some.inj h)
          exact (getData_specific hget).2 u k found hfound
      · cases h
    | exit t =>
      dsimp only at h
      split at h
      · obtain ⟨rfl, -⟩ := Prod.mk.inj (Option.some.inj h)
        exact .inl (exit_specific hfound).2
      · cases h

/-- While there is a free number, new data gets the next one. -/
theorem Inv.createData (h : s.Inv) (hroom : s.created < 2048) (ht : t ∈ s.alive) :
    ∃ pSeq s', s' = { s with pSeq, created := s.created + 1 }.setspecific t s.key
        (.numbered s.created) ∧
      s.createData t = some (s', .numbered s.created) ∧ s'.Inv := by
  obtain ⟨free, hfree⟩ : ∃ free, 2048 - s.created = free + 1 := ⟨2047 - s.created, by omega⟩
  have hfrees := h.frees
  rw [hfree, List.range'_succ] at hfrees
  obtain ⟨m, hget, -, hrest⟩ := hfrees.get_cons
  refine ⟨m, _, rfl, by rw [Threads.createData, hget]; rfl, h.running, hroom, ?_,
    fun u k data hdata => ?_, fun u v k k' data data' hdata hdata' heq => ?_⟩
  · have hcount : 2048 - (s.created + 1) = free := by omega
    show m.Frees (List.range' (s.created + 1) (2048 - (s.created + 1)))
    rw [hcount]
    exact hrest
  · rw [setspecific_specific] at hdata
    split at hdata
    · next hsame =>
      obtain rfl := Option.some.inj hdata
      exact ⟨Nat.lt_succ_self _, hsame.1 ▸ ht⟩
    · exact (h.held u k data hdata).imp_left Nat.lt_succ_of_lt
  · rw [setspecific_specific] at hdata hdata'
    split at hdata <;> split at hdata'
    · next hu hv => rw [hu.1, hv.1]
    · obtain rfl := Option.some.inj hdata
      exact absurd heq (Nat.ne_of_gt (h.held v k' data' hdata').1)
    · obtain rfl := Option.some.inj hdata'
      exact absurd heq (Nat.ne_of_lt (h.held u k data hdata).1)
    · exact h.distinct u v k k' data data' hdata hdata' heq

/-- Once all numbers were handed out, the assertion of `SeqManager::get` fails. -/
theorem Inv.createData_eq_none (h : s.Inv) (hfull : ¬s.created < 2048) (t : ℕ) :
    s.createData t = none := by
  have hfrees := h.frees
  rw [show 2048 - s.created = 0 by omega] at hfrees
  rw [Threads.createData, hfrees.get_nil]
  rfl

/-- The first `getData` of a thread creates its data. -/
theorem Inv.getData_new (h : s.Inv) (ht : t ∈ s.alive) (hfind : s.find newKey t = none)
    (hroom : s.created < 2048) :
    ∃ key keys pSeq s', s.createKey newKey = { s with key, keys } ∧
      s' = { s with key, keys, pSeq, created := s.created + 1 }.setspecific t key
        (.numbered s.created) ∧
      s.getData newKey t = some (s', .numbered s.created) ∧ s'.Inv := by
  obtain ⟨key, keys, heq⟩ := createKey_keeps newKey s
  have hkeyed := h.createKey newKey
  rw [heq] at hkeyed
  obtain ⟨pSeq, s', hs', hcreate, hinv⟩ := hkeyed.createData hroom ht
  refine ⟨key, keys, pSeq, s', heq, hs', ?_, hinv⟩
  rw [Threads.getData, hfind, heq]
  exact hcreate

/-- **`getData` with room** finds the data of the thread or creates it. -/
theorem Inv.getData (h : s.Inv) (ht : t ∈ s.alive) (hroom : s.HasRoom newKey (.getData t)) :
    ∃ s' data, s.getData newKey t = some (s', data) ∧ s'.Inv := by
  cases hfind : s.find newKey t with
  | some data => exact ⟨_, data, by rw [Threads.getData, hfind], h.createKey newKey⟩
  | none =>
    obtain ⟨key, keys, pSeq, s', -, -, hget, hinv⟩ := h.getData_new ht hfind (hroom hfind)
    exact ⟨s', _, hget, hinv⟩

/-- **`getData` without room** runs into the assertion, because all numbers were given out before.
-/
theorem Inv.getData_eq_none (h : s.Inv) (hroom : ¬s.HasRoom newKey (.getData t)) :
    s.getData newKey t = none := by
  obtain ⟨key, keys, heq⟩ := createKey_keeps newKey s
  obtain ⟨hfind, hfull⟩ := Classical.not_imp.mp hroom
  rw [Threads.getData, hfind]
  refine (h.createKey newKey).createData_eq_none ?_ t
  rw [heq]
  exact hfull

/-- The exit of a thread keeps the invariant. Its data is deleted, but its number is not given back.
-/
theorem Inv.exit (h : s.Inv) (t : ℕ) : (s.exit t).Inv := by
  refine ⟨h.running, h.created_le, h.frees, fun u k data hdata => ?_,
    fun u v k k' data data' hdata hdata' => h.distinct u v k k' data data'
      (exit_specific hdata).2 (exit_specific hdata').2⟩
  obtain ⟨hu, hold⟩ := exit_specific hdata
  exact (h.held u k data hold).imp_right fun halive => (List.mem_erase_of_ne hu).mpr halive

/-- A step with room keeps the invariant: only a first call of `getData` takes a number. -/
theorem Inv.step (h : s.Inv) (hroom : s.HasRoom newKey a)
    (hstep : step newKey s a = some (s', es)) : s'.Inv := by
  unfold Threads.step at hstep
  rw [if_neg (by simp [h.running])] at hstep
  cases a with
  | create =>
    obtain ⟨rfl, -⟩ := Prod.mk.inj (Option.some.inj hstep)
    exact ⟨h.running, h.created_le, h.frees, fun t k data hdata =>
      (h.held t k data hdata).imp_right (List.mem_cons_of_mem _), h.distinct⟩
  | getData t =>
    dsimp only at hstep
    split at hstep
    · next ht =>
      obtain ⟨t', data, hget, hinv⟩ := h.getData ht hroom
      rw [hget] at hstep
      obtain ⟨rfl, -⟩ := Prod.mk.inj (Option.some.inj hstep)
      exact hinv
    · cases hstep
  | exit t =>
    dsimp only at hstep
    split at hstep
    · obtain ⟨rfl, -⟩ := Prod.mk.inj (Option.some.inj hstep)
      exact h.exit t
    · cases hstep

/-- A step without room aborts the process, so the condition on the number of calls is exact. -/
theorem Inv.aborts (h : s.Inv) (hroom : ¬s.HasRoom newKey a)
    (hstep : Threads.step newKey s a = some (s', es)) : s'.aborted = true := by
  unfold Threads.step at hstep
  rw [if_neg (by simp [h.running])] at hstep
  cases a with
  | create => exact absurd trivial hroom
  | exit t => exact absurd trivial hroom
  | getData t =>
    dsimp only at hstep
    split at hstep
    · rw [h.getData_eq_none hroom] at hstep
      obtain ⟨rfl, -⟩ := Prod.mk.inj (Option.some.inj hstep)
      rfl
    · cases hstep

/-! ### Counting the threads -/

/-- The thread that calls `getData` in a step, as a set with at most one element. -/
def calledBy : ThreadAction → Finset ℕ
  | .getData t => {t}
  | .create | .exit _ => ∅

/-- The threads that call `getData` in a script, each of which takes a number. -/
def callers : List ThreadAction → Finset ℕ
  | [] => ∅
  | a :: as => calledBy a ∪ callers as

/-- The threads that have called `getData` so far are these. Each has created data once. -/
structure Called (newKey : ℕ → ℕ) (s : Threads) (c : Finset ℕ) : Prop where
  /-- Each of them has created data. -/
  card_eq : c.card = s.created
  /-- Threads that have called were created before. -/
  lt_started : ∀ t ∈ c, t < s.started
  /-- So were the live threads. -/
  alive_lt : ∀ t ∈ s.alive, t < s.started
  /-- A live thread is alive once. -/
  nodup : s.alive.Nodup
  /-- The key is created at most once. -/
  keys_eq : s.key = 0 → s.keys = 0
  /-- The live ones find their data. -/
  mem_iff : ∀ t ∈ s.alive, t ∈ c ↔ s.find newKey t ≠ none

variable {c : Finset ℕ}

/-- At the start no thread has called `getData`, so no number is in use. -/
theorem called_new : new.Called newKey ∅ := by
  refine ⟨rfl, fun t ht => ?_, fun t ht => ?_, List.nodup_nil, fun _ => rfl, fun t ht => ?_⟩
  · simp at ht
  · cases ht
  · cases ht

/-- With a key, a thread finds what it has stored under it. -/
theorem find_of_key_ne (newKey : ℕ → ℕ) (hne : s.key ≠ 0) (t : ℕ) :
    s.find newKey t = s.specific t s.key := by
  rw [find, createKey, if_neg hne]

/-- What a thread finds is stored under some key. -/
theorem find_eq_specific (newKey : ℕ → ℕ) (s : Threads) :
    ∃ key, ∀ t, s.find newKey t = s.specific t key := by
  obtain ⟨key, keys, heq⟩ := createKey_keeps newKey s
  exact ⟨key, fun t => by rw [find, heq]⟩

/-- What a thread finds depends only on the keys and on what it has stored. -/
theorem find_congr (hkey : s'.key = s.key) (hkeys : s'.keys = s.keys)
    (hspecific : s'.specific t = s.specific t) : s'.find newKey t = s.find newKey t := by
  simp only [find, createKey, hkey, hkeys]
  split <;> simp only [hspecific, hkey]

/-- The key is created at most once, and not as 0. -/
theorem Called.createKey_key_ne (h : s.Called newKey c) (hkey : newKey 0 ≠ 0) :
    (s.createKey newKey).key ≠ 0 := by
  by_cases hzero : s.key = 0
  · simp [createKey, hzero, h.keys_eq hzero, hkey]
  · simp [createKey, hzero]

/-- Creating the key changes nothing that a thread finds. -/
theorem Called.createKey_find (h : s.Called newKey c) (hkey : newKey 0 ≠ 0) (t : ℕ) :
    (s.createKey newKey).find newKey t = s.find newKey t :=
  find_of_key_ne newKey (h.createKey_key_ne hkey) t

/-- Creating the key is no call of `getData` by any thread. -/
theorem Called.createKey (h : s.Called newKey c) (hkey : newKey 0 ≠ 0) :
    (s.createKey newKey).Called newKey c := by
  have hne := h.createKey_key_ne hkey
  have hfind := h.createKey_find hkey
  obtain ⟨key, keys, heq⟩ := createKey_keeps newKey s
  rw [heq] at hne hfind ⊢
  refine ⟨h.card_eq, h.lt_started, h.alive_lt, h.nodup, fun hzero => absurd hzero hne,
    fun t ht => ?_⟩
  rw [hfind]
  exact h.mem_iff t ht

/-- Creating data counts as a call of its thread. -/
theorem Called.createData (h : s.Called newKey c) (hne : s.key ≠ 0) (ht : t ∈ s.alive)
    (hfind : s.find newKey t = none) (pSeq : SeqManager) :
    ({ s with pSeq, created := s.created + 1 }.setspecific t s.key data).Called newKey
      ({t} ∪ c) := by
  have hnew : t ∉ c := fun hc => (h.mem_iff t ht).mp hc hfind
  refine ⟨?_, fun u hu => ?_, h.alive_lt, h.nodup, fun hzero => absurd hzero hne, fun u hu => ?_⟩
  · rw [Finset.singleton_union, Finset.card_insert_of_notMem hnew, h.card_eq]
    rfl
  · obtain hu | hu := Finset.mem_union.mp hu
    · rw [Finset.mem_singleton.mp hu]
      exact h.alive_lt t ht
    · exact h.lt_started u hu
  · rw [find_of_key_ne newKey (by exact hne), setspecific_specific, Finset.mem_union,
      Finset.mem_singleton]
    by_cases hut : u = t
    · simp [hut, setspecific]
    · rw [if_neg fun hboth => hut hboth.1, or_iff_right hut, h.mem_iff u hu,
        find_of_key_ne newKey hne]
      rfl

/-- A call of a thread that finds its data creates none. One that finds none creates it. -/
theorem Called.getData (h : s.Called newKey c) (hinv : s.Inv) (hkey : newKey 0 ≠ 0)
    (ht : t ∈ s.alive) (hroom : s.HasRoom newKey (.getData t))
    (hget : s.getData newKey t = some (s', data)) : s'.Called newKey ({t} ∪ c) := by
  have hkeyed := h.createKey hkey
  have hne := h.createKey_key_ne hkey
  have hkeep := h.createKey_find hkey t
  cases hfind : s.find newKey t with
  | some found =>
    rw [Threads.getData, hfind] at hget
    obtain ⟨rfl, -⟩ := Prod.mk.inj (Option.some.inj hget)
    have hmem : t ∈ c := (h.mem_iff t ht).mpr (by simp [hfind])
    rwa [Finset.singleton_union, Finset.insert_eq_self.mpr hmem]
  | none =>
    obtain ⟨key, keys, pSeq, s'', heq, rfl, hnew, -⟩ := hinv.getData_new ht hfind (hroom hfind)
    obtain ⟨rfl, -⟩ := Prod.mk.inj (Option.some.inj (hget.symm.trans hnew))
    rw [heq] at hkeyed hne hkeep
    exact hkeyed.createData hne ht (hkeep.trans hfind) pSeq

/-- The new thread has not called `getData`, so it has no number. -/
theorem Called.create (h : s.Called newKey c) (hinv : s.Inv) :
    s.create.Called newKey c := by
  have hnew : s.started ∉ s.alive := fun hmem => Nat.lt_irrefl _ (h.alive_lt _ hmem)
  refine ⟨h.card_eq, fun t ht => Nat.lt_succ_of_lt (h.lt_started t ht), fun t ht => ?_,
    List.nodup_cons.mpr ⟨hnew, h.nodup⟩, h.keys_eq, fun t ht => ?_⟩
  · obtain rfl | ht := List.mem_cons.mp ht
    · exact Nat.lt_succ_self _
    · exact Nat.lt_succ_of_lt (h.alive_lt t ht)
  · obtain ⟨key, hfind⟩ := find_eq_specific newKey s
    have hsame : s.create.find newKey t = s.find newKey t := find_congr rfl rfl rfl
    rw [hsame]
    obtain rfl | ht := List.mem_cons.mp ht
    · refine iff_of_false (fun hc => Nat.lt_irrefl _ (h.lt_started _ hc)) fun hsome => ?_
      obtain ⟨data, hdata⟩ := Option.ne_none_iff_exists'.mp hsome
      exact hnew (hinv.held _ key data (hfind _ ▸ hdata)).2
    · exact h.mem_iff t ht

/-- A thread that has exited stays one of those that have called. -/
theorem Called.exit (h : s.Called newKey c) (t : ℕ) : (s.exit t).Called newKey c := by
  refine ⟨h.card_eq, h.lt_started, fun u hu => h.alive_lt u (List.mem_of_mem_erase hu),
    h.nodup.erase t, h.keys_eq, fun u hu => ?_⟩
  obtain ⟨hut, hu⟩ := h.nodup.mem_erase_iff.mp hu
  have hsame : (s.exit t).find newKey u = s.find newKey u :=
    find_congr rfl rfl (Function.update_of_ne hut _ _)
  rw [hsame]
  exact h.mem_iff u hu

/-- **One step** adds the thread that calls to those that have called, and nothing takes one away.
-/
theorem Called.step (h : s.Called newKey c) (hinv : s.Inv) (hkey : newKey 0 ≠ 0)
    (hroom : s.HasRoom newKey a) (hstep : step newKey s a = some (s', es)) :
    s'.Called newKey (calledBy a ∪ c) := by
  unfold Threads.step at hstep
  rw [if_neg (by simp [hinv.running])] at hstep
  cases a with
  | create =>
    obtain ⟨rfl, -⟩ := Prod.mk.inj (Option.some.inj hstep)
    rw [calledBy, Finset.empty_union]
    exact h.create hinv
  | getData t =>
    dsimp only at hstep
    split at hstep
    · next ht =>
      obtain ⟨t', data, hget, -⟩ := hinv.getData ht hroom
      rw [hget] at hstep
      obtain ⟨rfl, -⟩ := Prod.mk.inj (Option.some.inj hstep)
      exact h.getData hinv hkey ht hroom hget
    · cases hstep
  | exit t =>
    dsimp only at hstep
    split at hstep
    · obtain ⟨rfl, -⟩ := Prod.mk.inj (Option.some.inj hstep)
      rw [calledBy, Finset.empty_union]
      exact h.exit t
    · cases hstep

/-- A script has room from a state if the threads that have called and those that will call
are few enough. -/
theorem Called.along_iff (h : s.Called newKey c) (hinv : s.Inv) (hkey : newKey 0 ≠ 0)
    (hexec : exec (Threads.step newKey) s as = some (s', es)) :
    Along (Threads.step newKey) (HasRoom newKey) s as ↔ (c ∪ callers as).card ≤ 2048 := by
  induction as generalizing s c es with
  | nil =>
    refine iff_of_true trivial ?_
    rw [callers, Finset.union_empty, h.card_eq]
    exact hinv.created_le
  | cons a as ih =>
    obtain ⟨u, first, rest, ha, hrest, -⟩ := exec_cons_eq_some.mp hexec
    rw [along_cons ha]
    by_cases hroom : s.HasRoom newKey a
    · rw [and_iff_right hroom, ih (h.step hinv hkey hroom ha) (hinv.step hroom ha) hrest, callers,
        ← Finset.union_assoc, Finset.union_comm c]
    · refine iff_of_false (fun hboth => hroom hboth.1) (Nat.not_le.mpr ?_)
      cases a with
      | create => exact absurd trivial hroom
      | exit t => exact absurd trivial hroom
      | getData t =>
        obtain ⟨hfind, hfull⟩ := Classical.not_imp.mp hroom
        have ht : t ∈ s.alive := by
          by_contra ht
          simp [Threads.step, ht] at ha
        have hnew : t ∉ c := fun hc => (h.mem_iff t ht).mp hc hfind
        calc 2048 < c.card + 1 := by rw [h.card_eq]; omega
          _ = (insert t c).card := (Finset.card_insert_of_notMem hnew).symm
          _ ≤ (c ∪ callers (.getData t :: as)).card := Finset.card_le_card fun u hu => by
            obtain rfl | hu := Finset.mem_insert.mp hu
            · simp [callers, calledBy]
            · exact Finset.mem_union_left _ hu

/-- **The bound counts threads.** If the first key is not 0, a run has room exactly if at most
2048 threads call `getData` in it, those that exit included. -/
theorem hasRoom_iff_callers (hkey : newKey 0 ≠ 0)
    (hexec : exec (step newKey) new as = some (s, es)) :
    Along (step newKey) (HasRoom newKey) new as ↔ (callers as).card ≤ 2048 := by
  rw [called_new.along_iff inv_new hkey hexec, Finset.empty_union]

/-! ### Threads one after the other -/

/-- Threads are created, call `getData` and exit, one after the other. -/
def oneByOne : ℕ → List ThreadAction
  | 0 => []
  | n + 1 => oneByOne n ++ [.create, .getData n, .exit n]

/-- What `n` threads one after the other leave behind. -/
structure After (n : ℕ) (s : Threads) : Prop where
  /-- The invariant holds, as in every run without an abort. -/
  inv : s.Inv
  /-- No thread is alive: each has exited before the next one came. -/
  alive_eq : s.alive = []
  /-- The threads were created, as many as there were rounds. -/
  started_eq : s.started = n
  /-- So were their data, each under a number of its own. -/
  created_eq : s.created = n

/-- A new thread finds no data, since no one has set any for it. -/
theorem After.find_create {n : ℕ} (h : s.After n) (newKey : ℕ → ℕ) (t : ℕ) :
    s.create.find newKey t = none := by
  obtain ⟨key, hfind⟩ := find_eq_specific newKey s
  have hsame : s.create.find newKey t = s.find newKey t := find_congr rfl rfl rfl
  rw [hsame, hfind]
  by_contra hsome
  obtain ⟨data, hdata⟩ := Option.ne_none_iff_exists'.mp hsome
  have halive := (h.inv.held t key data hdata).2
  rw [h.alive_eq] at halive
  cases halive

/-- The creation of a thread is possible and keeps the invariant. -/
theorem Inv.step_create (h : s.Inv) (newKey : ℕ → ℕ) :
    Threads.step newKey s .create = some (s.create, []) ∧ s.create.Inv := by
  have hstep : Threads.step newKey s .create = some (s.create, []) := by
    rw [Threads.step, if_neg (by simp [h.running])]
  exact ⟨hstep, h.step (a := .create) trivial hstep⟩

/-- **One more thread** takes one more number for good. -/
theorem After.succ {n : ℕ} (h : s.After n) (hn : n < 2048) (newKey : ℕ → ℕ) :
    ∃ s', exec (Threads.step newKey) s [.create, .getData n, .exit n] = some (s', []) ∧
      Always (Threads.step newKey) (fun s => s.alive.length ≤ 1) s
        [.create, .getData n, .exit n] ∧ s'.After (n + 1) := by
  obtain ⟨hcreate, hcreated⟩ := h.inv.step_create newKey
  have halive : s.create.alive = [n] := by rw [Threads.create, h.alive_eq, h.started_eq]
  have hmem : n ∈ s.create.alive := by simp [halive]
  obtain ⟨key, keys, pSeq, u, -, hu, hget, hinv⟩ :=
    hcreated.getData_new hmem (h.find_create newKey n) (h.created_eq ▸ hn)
  have hualive : u.alive = [n] := by
    rw [hu]
    exact halive
  have hgetStep : Threads.step newKey s.create (.getData n) = some (u, []) := by
    rw [Threads.step, if_neg (by simp [hcreated.running]), if_pos hmem, hget]
  have hexitStep : Threads.step newKey u (.exit n) = some (u.exit n, []) := by
    rw [Threads.step, if_neg (by simp [hinv.running]), if_pos (by simp [hualive])]
  have hempty : (u.exit n).alive = [] := by simp [Threads.exit, hualive]
  refine ⟨u.exit n, ?_, ?_, hinv.exit n, hempty, ?_, ?_⟩
  · exact exec_cons_eq_some.mpr ⟨_, [], [], hcreate, exec_cons_eq_some.mpr
      ⟨_, [], [], hgetStep, exec_cons_eq_some.mpr ⟨_, [], [], hexitStep, rfl, rfl⟩, rfl⟩, rfl⟩
  · rw [always_cons hcreate, always_cons hgetStep, always_cons hexitStep]
    simp [Always, h.alive_eq, halive, hualive, hempty]
  · rw [Threads.exit, hu]
    exact congrArg (· + 1) h.started_eq
  · rw [Threads.exit, hu]
    exact congrArg (· + 1) h.created_eq

/-- Up to 2048 threads one after the other get a number. -/
theorem exec_oneByOne (newKey : ℕ → ℕ) {n : ℕ} (hn : n ≤ 2048) :
    ∃ s, exec (Threads.step newKey) new (oneByOne n) = some (s, []) ∧
      Always (Threads.step newKey) (fun s => s.alive.length ≤ 1) new (oneByOne n) ∧ s.After n := by
  induction n with
  | zero => exact ⟨new, rfl, Nat.zero_le _, inv_new, rfl, rfl, rfl⟩
  | succ n ih =>
    obtain ⟨s, hexec, halive, hafter⟩ := ih (Nat.le_of_succ_le hn)
    obtain ⟨s', hround, hround', hnext⟩ := hafter.succ hn newKey
    exact ⟨s', exec_append_eq_some.mpr ⟨s, [], [], hexec, hround, rfl⟩,
      (always_append hexec).mpr ⟨halive, hround'⟩, hnext⟩

/-! ### The bound -/

/-- **The numbers suffice for 2048 data.** In a run of any number of threads, `getData` succeeds
for every thread and no two live threads have the same number, exactly if every call that finds
no data is one of the first 2048 such calls. The data of threads that have exited count. -/
theorem getData_sound_iff (hexec : exec (step newKey) new as = some (s, es)) :
    Always (step newKey) Sound new as ↔ Along (step newKey) (HasRoom newKey) new as := by
  refine always_iff_along (I := Inv) (fun s h => ⟨h.running, fun t _ u _ => h.distinct t u⟩)
    (fun s a s' es h hroom hstep => h.step hroom hstep) (fun s a s' es h hroom hstep hsound => ?_)
    inv_new hexec
  have habort := h.aborts hroom hstep
  rw [hsound.running] at habort
  cases habort

/-- Two threads one after the other, which get different numbers. -/
theorem getData_sound_iff_two :
    ∃ s, exec (step fun _ => 1) new (oneByOne 2) = some (s, []) ∧
      Always (step fun _ => 1) Sound new (oneByOne 2) := by
  obtain ⟨s, hexec, -⟩ := exec_oneByOne (fun _ => 1) (show 2 ≤ 2048 by decide)
  exact ⟨s, hexec, (getData_sound_iff hexec).mpr
    ((hasRoom_iff_callers (by decide) hexec).mpr (by decide))⟩

/-- Once 2048 threads have called, the next one fails. -/
theorem After.runs_out {n : ℕ} (h : s.After n) (hn : n = 2048) (newKey : ℕ → ℕ) :
    ∃ s', exec (Threads.step newKey) s [.create, .getData n] = some (s', []) ∧
      s'.aborted = true ∧
      Always (Threads.step newKey) (fun s => s.alive.length ≤ 1) s [.create, .getData n] := by
  obtain ⟨hcreate, hcreated⟩ := h.inv.step_create newKey
  have halive : s.create.alive = [n] := by rw [Threads.create, h.alive_eq, h.started_eq]
  have hfull : s.create.getData newKey n = none := by
    refine hcreated.getData_eq_none fun hroom => ?_
    have hlt : s.created < 2048 := hroom (h.find_create newKey n)
    exact Nat.lt_irrefl n (by rwa [h.created_eq, ← hn] at hlt)
  have habort : Threads.step newKey s.create (.getData n) =
      some ({ s.create with aborted := true }, []) := by
    rw [Threads.step, if_neg (by simp [hcreated.running]), if_pos (by simp [halive]), hfull]
  refine ⟨_, exec_cons_eq_some.mpr ⟨_, [], [], hcreate, exec_cons_eq_some.mpr
    ⟨_, [], [], habort, rfl, rfl⟩, rfl⟩, rfl, ?_⟩
  rw [always_cons hcreate, always_cons habort]
  simp [Always, h.alive_eq, halive]

/-- A script that ends the process: one more thread asks for a number than there are. -/
theorem exec_runs_out (newKey : ℕ → ℕ) {n : ℕ} (hn : n = 2048) {as : List ThreadAction}
    (has : as = oneByOne n ++ [.create, .getData n]) :
    ∃ s, exec (step newKey) new as = some (s, []) ∧ s.aborted = true ∧
      Always (step newKey) (fun s => s.alive.length ≤ 1) new as ∧
      ¬Always (step newKey) Sound new as := by
  subst has
  obtain ⟨s, hexec, halive, hafter⟩ := exec_oneByOne newKey (Nat.le_of_eq hn)
  obtain ⟨s', hlast, habort, hlast'⟩ := hafter.runs_out hn newKey
  have hall := exec_append_eq_some.mpr ⟨s, [], [], hexec, hlast, rfl⟩
  refine ⟨s', hall, habort, (always_append hexec).mpr ⟨halive, hlast'⟩, fun hsound => ?_⟩
  have hrunning := (hsound.last hall).running
  rw [habort] at hrunning
  cases hrunning

/-- **The numbers run out.** After 2048 threads that have all exited, `getData` of the next one
fails in its assertion, while no two threads were ever alive at the same time. -/
theorem getData_runs_out :
    ∃ s, exec (step fun _ => 1) new (oneByOne 2048 ++ [.create, .getData 2048]) = some (s, []) ∧
      s.aborted = true ∧
      Always (step fun _ => 1) (fun s => s.alive.length ≤ 1) new
        (oneByOne 2048 ++ [.create, .getData 2048]) ∧
      ¬Always (step fun _ => 1) Sound new (oneByOne 2048 ++ [.create, .getData 2048]) :=
  exec_runs_out (fun _ => 1) rfl rfl

end Threads

end Tars
