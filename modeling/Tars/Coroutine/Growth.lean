import Tars.Coroutine.Invariant
import Tars.Library.Scripts

/-!
# Growing the pool when stack allocations fail

`init` allocates a stack before it generates an id, `increaseCoroPoolSize` after it. A failed
allocation of `increaseCoroPoolSize` therefore uses up an id: from then on `_uniqId` is ahead of
`_currentSize`, and the pool cannot grow to its size any more. All calls agree on their counters
exactly when this never happens.
-/

namespace Tars

open Rings

/-- A call that makes coroutines; `alloc` says which of its stack allocations succeed. -/
inductive PoolCall where
  /-- `init`. -/
  | init (iPoolSize : UInt32) (alloc : ℕ → Bool)
  /-- `increaseCoroPoolSize`. -/
  | increaseCoroPoolSize (alloc : ℕ → Bool)
  /-- `createCoroutine`. -/
  | createCoroutine (alloc : ℕ → Bool)

namespace CoroutineScheduler

/-- A call and its return value, for the functions that change the size of the pool. -/
def call (s : CoroutineScheduler) : PoolCall → Option (CoroutineScheduler × List ℤ)
  | .init iPoolSize alloc => (s.init iPoolSize alloc).map fun s => (s, [])
  | .increaseCoroPoolSize alloc =>
    (s.increaseCoroPoolSize alloc).map fun result => (result.1, [result.2])
  | .createCoroutine alloc =>
    (s.createCoroutine alloc).map fun result => (result.1, [(result.2 : ℤ)])

/-- How many coroutines `increaseCoroPoolSize` tries to add: a hundred, or as many as are missing.
-/
def growth (s : CoroutineScheduler) : ℕ := min 100 (s.poolSize - s.currentSize)

/-- The condition under which a call keeps the counters together: an array for the pool size of
`init` exists, and no allocation of `increaseCoroPoolSize` fails, whoever calls it. -/
def GrowthSucceeds (s : CoroutineScheduler) : PoolCall → Prop
  | .init iPoolSize _ => iPoolSize ≠ 4294967295
  | .increaseCoroPoolSize alloc => ∀ i < s.growth, alloc i = true
  | .createCoroutine alloc => s.usedSize ≥ s.currentSize ∨ s.headEmpty .free = true →
    ∀ i < s.growth, alloc i = true

/-- Some number of successful calls of `increaseCoroPoolSize` fills the pool, up to the size that it
was given. -/
def CanFill (s : CoroutineScheduler) : Prop :=
  ∃ calls s' out, Scripts.exec call s
    (List.replicate calls (.increaseCoroPoolSize fun _ => true)) = some (s', out) ∧
      s'.poolSize = s.poolSize ∧ s'.currentSize = s.poolSize

/-- What the counters should say after each call: as many ids as coroutines, and a pool that can be
filled. -/
structure InStep (s : CoroutineScheduler) : Prop where
  /-- Every id that was given out belongs to a coroutine. -/
  uniqId : s.uniqId = s.currentSize
  /-- The pool can be filled. -/
  canFill : s.CanFill

/-- The calls all return, and the counters are in step before the first one and after each. -/
def Consistent (calls : List PoolCall) : Prop :=
  (∃ s out, Scripts.exec call new calls = some (s, out)) ∧ Scripts.Always call InStep new calls

/-- The pool after calls without a failure: as many ids were given out as there are coroutines. -/
structure Pooled (s : CoroutineScheduler) (lists : CoroStatus → List CoroutineInfo) :
    Prop where
  /-- The pool can take more coroutines. -/
  stocked : Stocked s lists
  /-- Every id that was given out belongs to a coroutine. -/
  uniqId : s.uniqId = s.currentSize
  /-- The pool does not outgrow its size. -/
  size : s.currentSize ≤ s.poolSize

variable {s : CoroutineScheduler} {lists : CoroStatus → List CoroutineInfo}

/-- A full pool does not grow: `increaseCoroPoolSize` says so and leaves it as it is. -/
theorem Pooled.increase_full (h : Pooled s lists) (hfull : s.growth = 0) (alloc : ℕ → Bool) :
    s.increaseCoroPoolSize alloc = some (s, -1) := by
  rw [CoroutineScheduler.increaseCoroPoolSize]
  simp only [increase_rounds h.size h.stocked.bound]
  exact if_pos hfull

/-- **Growing without a failure** adds all coroutines that are asked for. -/
theorem Pooled.increase (h : Pooled s lists) (hroom : s.growth ≠ 0) {alloc : ℕ → Bool}
    (halloc : ∀ i < s.growth, alloc i = true) :
    ∃ s' lists', s.increaseCoroPoolSize alloc = some (s', 0) ∧ Pooled s' lists' ∧
      lists' .free ≠ [] ∧ s'.poolSize = s.poolSize ∧
      s'.currentSize = s.currentSize + s.growth := by
  have hsize := h.size
  have huniqId := h.uniqId
  have hbound := h.stocked.bound
  obtain ⟨n, hn⟩ := Nat.exists_eq_succ_of_ne_zero hroom
  have hle : s.currentSize + s.growth ≤ s.poolSize := by
    unfold growth
    omega
  obtain ⟨links, status, allCoro, hadd, hstocked, -⟩ :=
    h.stocked.addCoros (n := s.growth) (by omega)
  have hmod : (s.currentSize + s.growth) % 2 ^ 32 = s.currentSize + s.growth :=
    Nat.mod_eq_of_lt (by omega)
  have hall : successes alloc s.growth 0 = s.growth :=
    successes_eq_iff.mpr fun i hi => by rw [Nat.zero_add]; exact halloc i hi
  have hgrown : s.increaseCoroPoolSize alloc = some ({ s with
      uniqId := s.uniqId + s.growth
      currentSize := s.currentSize + s.growth
      links
      status
      allCoro }, 0) := by
    rw [CoroutineScheduler.increaseCoroPoolSize]
    simp only [increase_rounds h.size hbound]
    rw [show min 100 (s.poolSize - s.currentSize) = s.growth from rfl, if_neg hroom,
      increaseLoop_eq, hall, hadd, Option.bind_some, if_pos rfl, Nat.zero_add, hn]
    simp only [← hn]
    rw [← Nat.succ_eq_add_one, ← hn, hmod]
  refine ⟨_, _, hgrown, ⟨⟨hstocked.arranged.congr rfl rfl, hstocked.fresh, hstocked.slots, hbound⟩,
    ?_, hle⟩, ?_, rfl, rfl⟩
  · show s.uniqId + s.growth = s.currentSize + s.growth
    rw [huniqId]
  · rw [stock_free]
    intro hnil
    have hlength := congrArg List.length hnil
    rw [List.length_append, length_nextCoros] at hlength
    simp only [List.length_nil] at hlength
    omega

/-- **Growing with a failure** leaves an id that no coroutine has. -/
theorem Pooled.increase_fails (h : Pooled s lists) {alloc : ℕ → Bool} {s' : CoroutineScheduler}
    {iRet : ℤ} (hfail : ¬∀ i < s.growth, alloc i = true)
    (hinc : s.increaseCoroPoolSize alloc = some (s', iRet)) : s'.uniqId ≠ s'.currentSize := by
  have hsize := h.size
  have huniqId := h.uniqId
  have hbound := h.stocked.bound
  have hroom : s.growth ≠ 0 := by
    intro hfull
    apply hfail
    intro i hi
    omega
  have hlt : successes alloc s.growth 0 < s.growth := by
    apply lt_of_le_of_ne (successes_le alloc s.growth 0)
    intro hall
    apply hfail
    simpa using successes_eq_iff.mp hall
  generalize hn : successes alloc s.growth 0 = n at hlt
  have hle : s.uniqId + n < s.poolSize := by
    unfold growth at hlt
    omega
  obtain ⟨links, status, allCoro, hadd, -⟩ := h.stocked.addCoros (Nat.le_of_lt hle)
  have hmod : (s.currentSize + n) % 2 ^ 32 = s.currentSize + n := Nat.mod_eq_of_lt (by omega)
  have hid := generateId_eq (s := { s with uniqId := s.uniqId + n, links, status, allCoro })
    hle hbound
  rw [CoroutineScheduler.increaseCoroPoolSize] at hinc
  simp only [increase_rounds hsize hbound] at hinc
  rw [show min 100 (s.poolSize - s.currentSize) = s.growth from rfl, if_neg hroom,
    increaseLoop_eq, hn, hadd, Option.bind_some, if_neg (Nat.ne_of_lt hlt), hid, Option.map_some,
    Nat.zero_add] at hinc
  cases n with
  | zero =>
    obtain ⟨rfl, -⟩ := Prod.mk.inj (Option.some.inj hinc)
    show s.uniqId + 0 + 1 ≠ s.currentSize
    omega
  | succ n =>
    obtain ⟨rfl, -⟩ := Prod.mk.inj (Option.some.inj hinc)
    show s.uniqId + (n + 1) + 1 ≠ (s.currentSize + (n + 1)) % 2 ^ 32
    omega

/-- Taking a coroutine from `_free` does not touch the counters of the pool. -/
theorem takeFree_counters {s' : CoroutineScheduler} {iId : ℕ}
    (htake : s.takeFree = some (s', iId)) :
    s'.uniqId = s.uniqId ∧ s'.currentSize = s.currentSize := by
  rw [CoroutineScheduler.takeFree] at htake
  split at htake
  · split at htake
    · cases htake
    · split at htake
      · cases htake
      · obtain ⟨rfl, -⟩ := Prod.mk.inj (Option.some.inj htake)
        exact ⟨rfl, rfl⟩
  · cases htake

/-- Taking a coroutine from `_free` keeps the counters of the pool right. -/
theorem Pooled.takeFree (h : Pooled s lists) (hfree : lists .free ≠ []) :
    ∃ s' iId lists', s.takeFree = some (s', iId) ∧ Pooled s' lists' := by
  obtain ⟨c, rest, hcons⟩ := List.exists_cons_of_ne_nil hfree
  have hc : ∃ k, c ∈ lists k := ⟨.free, hcons ▸ List.mem_cons_self⟩
  obtain ⟨links, htake, harranged⟩ := h.stocked.arranged.takeFree hcons
  refine ⟨_, _, _, htake, ⟨⟨harranged, ?_, h.stocked.slots, h.stocked.bound⟩, h.uniqId, h.size⟩⟩
  intro k d hd
  obtain ⟨j, hj⟩ := (h.stocked.arranged.exists_mem_moved_iff hc).mp ⟨k, hd⟩
  exact h.stocked.fresh j d hj

/-- **`createCoroutine` without a failure**: every stack that it needs is allocated, so the counters
stay right. -/
theorem Pooled.create (h : Pooled s lists) {alloc : ℕ → Bool}
    (halloc : s.usedSize ≥ s.currentSize ∨ s.headEmpty .free = true →
      ∀ i < s.growth, alloc i = true) :
    ∃ s' iId lists', s.createCoroutine alloc = some (s', iId) ∧ Pooled s' lists' := by
  rw [CoroutineScheduler.createCoroutine]
  split
  · rename_i hgrow
    by_cases hfull : s.growth = 0
    · rw [h.increase_full hfull]
      exact ⟨s, 0, lists, rfl, h⟩
    · obtain ⟨s₁, lists₁, hinc, h₁, hfree, -⟩ := h.increase hfull (halloc hgrow)
      obtain ⟨s', iId, lists', htake, h'⟩ := h₁.takeFree hfree
      refine ⟨s', iId, lists', ?_, h'⟩
      rw [hinc]
      exact htake
  · rename_i hkeep
    apply h.takeFree
    intro hempty
    exact hkeep (.inr ((h.stocked.arranged.headEmpty_iff .free).mpr hempty))

/-- **`createCoroutine` with a failure**: a stack that it needs is not allocated, so an identifier
is lost. -/
theorem Pooled.create_fails (h : Pooled s lists) {alloc : ℕ → Bool} {s' : CoroutineScheduler}
    {iId : ℕ} (hgrow : s.usedSize ≥ s.currentSize ∨ s.headEmpty .free = true)
    (hfail : ¬∀ i < s.growth, alloc i = true)
    (hcreate : s.createCoroutine alloc = some (s', iId)) : s'.uniqId ≠ s'.currentSize := by
  rw [CoroutineScheduler.createCoroutine, if_pos hgrow] at hcreate
  cases hinc : s.increaseCoroPoolSize alloc with
  | none =>
    rw [hinc] at hcreate
    cases hcreate
  | some result =>
    obtain ⟨s₁, iRet⟩ := result
    have hbroken := h.increase_fails hfail hinc
    simp only [hinc] at hcreate
    split at hcreate
    · obtain ⟨rfl, -⟩ := Prod.mk.inj (Option.some.inj hcreate)
      exact hbroken
    · obtain ⟨huniqId, hcurrent⟩ := takeFree_counters hcreate
      rw [huniqId, hcurrent]
      exact hbroken

/-- **`init`** starts a new pool, whatever allocations fail: ids are given out again from the first
one. -/
theorem Pooled.init (h : Pooled s lists) {iPoolSize : UInt32} (hsize : iPoolSize ≠ 4294967295)
    (alloc : ℕ → Bool) : ∃ s' lists', s.init iPoolSize alloc = some s' ∧ Pooled s' lists' := by
  rw [CoroutineScheduler.init]
  split
  · exact ⟨s, lists, rfl, h⟩
  · have hlt := iPoolSize.toNat_lt
    have hne : iPoolSize.toNat ≠ 4294967295 := by
      intro hmax
      exact hsize (UInt32.toNat_inj.mp hmax)
    rw [if_neg (by omega)]
    generalize hrounds :
      (if iPoolSize.toNat ≤ 100 then iPoolSize.toNat else 100) = rounds
    have hle : successes alloc rounds 0 ≤ iPoolSize.toNat := by
      have hsucc := successes_le alloc rounds 0
      split at hrounds <;> omega
    have hstarted : Stocked { s with
        terminal := false
        poolSize := iPoolSize.toNat
        allCoro := List.replicate (iPoolSize.toNat + 1) none
        usedSize := 0
        uniqId := 0
        generation := s.generation + 1 } lists := by
      refine ⟨h.stocked.arranged.congr rfl rfl, ?_, by simp, by show iPoolSize.toNat + 1 < _; omega⟩
      intro k c hc
      apply Or.inl
      show c.generation < s.generation + 1
      rcases h.stocked.fresh k c hc with hgen | ⟨hgen, -⟩ <;> omega
    obtain ⟨links, status, allCoro, hadd, hstocked, -⟩ :=
      hstarted.addCoros (n := successes alloc rounds 0) (by show 0 + _ ≤ iPoolSize.toNat; omega)
    simp only [initLoop_eq, hadd, Option.map_some]
    refine ⟨_, _, rfl, ⟨⟨hstocked.arranged.congr rfl rfl, hstocked.fresh, hstocked.slots,
      hstocked.bound⟩, rfl, ?_⟩⟩
    show 0 + successes alloc rounds 0 ≤ iPoolSize.toNat
    omega

/-- **The pool can be filled** while no id is lost. -/
theorem Pooled.canFill (h : Pooled s lists) : s.CanFill := by
  generalize hleft : s.poolSize - s.currentSize = left
  induction left using Nat.strong_induction_on generalizing s lists with
  | _ left ih =>
    by_cases hfull : s.growth = 0
    · refine ⟨0, s, [], rfl, rfl, ?_⟩
      have hsize := h.size
      unfold growth at hfull
      omega
    · have halloc : ∀ i < s.growth, (fun _ => true : ℕ → Bool) i = true := fun _ _ => rfl
      obtain ⟨s₁, lists₁, hinc, h₁, -, hpool, hcurrent⟩ := h.increase hfull halloc
      obtain ⟨calls, s', out, hexec, hpool', hcurrent'⟩ := ih (s₁.poolSize - s₁.currentSize)
        (by have hsize := h₁.size; omega) h₁ rfl
      refine ⟨calls + 1, s', 0 :: out, ?_, hpool'.trans hpool, hcurrent'.trans hpool⟩
      rw [List.replicate_succ]
      refine Scripts.exec_cons_eq_some.mpr ⟨s₁, [0], out, ?_, hexec, rfl⟩
      simp only [call, hinc, Option.map_some]

/-- The constructor makes an empty pool, whose counters are right. -/
theorem pooled_new : Pooled new (fun _ => []) := by
  have hnone {c : CoroutineInfo} : c ∉ ([] : List CoroutineInfo) := List.not_mem_nil
  refine ⟨⟨⟨represents_new, fun _ _ hc => absurd hc hnone⟩, fun _ _ hc => absurd hc hnone,
    List.length_replicate, by decide⟩, rfl, Nat.zero_le _⟩

/-- **When failures leave the pool consistent.** Any calls all return with `_uniqId` equal to
`_currentSize` and a pool that can still be filled exactly when no allocation fails inside
`increaseCoroPoolSize`; failures inside `init` do no harm. -/
theorem consistent_iff_growthSucceeds (calls : List PoolCall) :
    Consistent calls ↔ Scripts.Along call GrowthSucceeds new calls := by
  refine Scripts.exec_always_iff_along (I := fun s => ∃ lists, Pooled s lists) ?_ ?_ ?_
    ⟨_, pooled_new⟩
  · rintro s ⟨lists, h⟩
    exact ⟨h.uniqId, h.canFill⟩
  · rintro s c ⟨lists, h⟩ hc
    cases c with
    | init iPoolSize alloc =>
      obtain ⟨s', lists', hinit, h'⟩ := h.init hc alloc
      exact ⟨s', [], by simp only [call, hinit, Option.map_some], lists', h'⟩
    | increaseCoroPoolSize alloc =>
      by_cases hfull : s.growth = 0
      · exact ⟨s, [-1], by simp only [call, h.increase_full hfull, Option.map_some], lists, h⟩
      · obtain ⟨s', lists', hinc, h', -⟩ := h.increase hfull hc
        exact ⟨s', [0], by simp only [call, hinc, Option.map_some], lists', h'⟩
    | createCoroutine alloc =>
      obtain ⟨s', iId, lists', hcreate, h'⟩ := h.create hc
      exact ⟨s', [(iId : ℤ)], by simp only [call, hcreate, Option.map_some], lists', h'⟩
  · rintro s c s' out ⟨lists, h⟩ hc hcall hinStep
    cases c with
    | init iPoolSize alloc =>
      obtain rfl : iPoolSize = 4294967295 := not_not.mp hc
      cases hcall
    | increaseCoroPoolSize alloc =>
      obtain ⟨⟨s₁, iRet⟩, hinc, hresult⟩ := Option.map_eq_some_iff.mp hcall
      obtain ⟨rfl, -⟩ := Prod.mk.inj hresult
      exact h.increase_fails hc hinc hinStep.uniqId
    | createCoroutine alloc =>
      obtain ⟨⟨s₁, iId⟩, hcreate, hresult⟩ := Option.map_eq_some_iff.mp hcall
      obtain ⟨rfl, -⟩ := Prod.mk.inj hresult
      obtain ⟨hgrow, hfail⟩ := Classical.not_imp.mp hc
      exact h.create_fails hgrow hfail hcreate hinStep.uniqId

/-- Without memory during `init` and during one attempt to grow, the pool of one coroutine has
lost its only id: the next attempt violates the assertion, though it would get a stack. -/
theorem consistent_fails :
    ¬Consistent [.init 1 fun _ => false, .increaseCoroPoolSize fun _ => false,
      .increaseCoroPoolSize fun _ => true] := by
  rintro ⟨⟨s, out, hexec⟩, -⟩
  have hnone : (Scripts.exec call new [.init 1 fun _ => false,
      .increaseCoroPoolSize fun _ => false, .increaseCoroPoolSize fun _ => true]).isSome =
        false := by
    decide +kernel
  rw [hexec] at hnone
  cases hnone

end CoroutineScheduler

end Tars
