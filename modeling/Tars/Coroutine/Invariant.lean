import Tars.Coroutine.Lists

/-!
# The invariant of the coroutine scheduler

`Sound` says how the lists, the array of coroutines and the counters belong together. Every
operation of the scheduler succeeds in a sound state and leads to one, and its effect on the
lists is what its name says.
-/

namespace Tars

open Rings

namespace CoroutineScheduler

/-- The invariant of the scheduler: how lists, array and counters belong together. `intact`
stands for the assumption that no stack allocation fails. -/
structure Sound (intact : Prop) (s : CoroutineScheduler)
    (lists : CoroStatus → List CoroutineInfo) : Prop where
  /-- Links and statuses belong to the lists. -/
  arranged : Arranged s lists
  /-- The array has the slots `0` to `_poolSize`. -/
  slots : s.allCoro.length = s.poolSize + 1
  /-- The array holds the coroutines on the lists at their ids. -/
  lookup : ∀ i c, s.lookup i = some c ↔ c.uid = i ∧ ∃ k, c ∈ lists k
  /-- They were made since `init`. -/
  pool : ∀ c, (∃ k, c ∈ lists k) →
    c.generation = s.generation ∧ 1 ≤ c.uid ∧ c.uid ≤ s.uniqId
  /-- Every coroutine has an id that was given out. -/
  given : s.currentSize ≤ s.uniqId
  /-- If no allocation fails, every id that was given out belongs to a coroutine. -/
  exact : intact → s.uniqId = s.currentSize
  /-- No more ids are given out than the pool has slots. -/
  size : s.uniqId ≤ s.poolSize
  /-- The number of slots was computed without overflow. -/
  bound : s.poolSize + 1 < 2 ^ 32
  /-- `_usedSize` counts the coroutines that are not free. -/
  used : s.usedSize = used lists
  /-- `_currentSize` counts all coroutines. -/
  total : CoroutineScheduler.used lists + (lists .free).length = s.currentSize
  /-- `_needActiveCoroId` holds ids of coroutines. -/
  self : ∀ i ∈ s.needActiveCoroId, (s.lookup i).isSome
  /-- `_activeCoroQueue` holds ids of coroutines. -/
  queue : ∀ i ∈ s.activeCoroQueue, (s.lookup i).isSome
  /-- `_timeoutCoroId` holds ids of coroutines. -/
  timers : ∀ n ∈ s.timeoutCoroId, (s.lookup n.coroId).isSome

/-- The part of the scheduler that says what runs and who is to be woken, with the size of the
pool, which only `init` sets. -/
structure Agenda where
  /-- `_terminal`. -/
  terminal : Bool
  /-- `_poolSize`. -/
  poolSize : ℕ
  /-- The number of calls of `init` so far. -/
  generation : ℕ
  /-- `_currentCoro`. -/
  currentCoro : Option CoroutineInfo
  /-- `_needActiveCoroId`. -/
  needActiveCoroId : List ℕ
  /-- `_activeCoroQueue`. -/
  activeCoroQueue : List ℕ
  /-- `_timeoutCoroId`. -/
  timeoutCoroId : List TimeoutNode
  /-- The identity of the next node of `_timeoutCoroId`. -/
  nextNode : ℕ

/-- The agenda of a scheduler: all its members but the lists, the statuses and the coroutines. -/
def agenda (s : CoroutineScheduler) : Agenda where
  terminal := s.terminal
  poolSize := s.poolSize
  generation := s.generation
  currentCoro := s.currentCoro
  needActiveCoroId := s.needActiveCoroId
  activeCoroQueue := s.activeCoroQueue
  timeoutCoroId := s.timeoutCoroId
  nextNode := s.nextNode

variable {intact : Prop} {s : CoroutineScheduler} {lists : CoroStatus → List CoroutineInfo}
  {c : CoroutineInfo} {sources : List CoroStatus} {target : CoroStatus}

namespace Sound

/-- A coroutine on a list is known by its id. -/
theorem eq_of_mem (h : Sound intact s lists) (hc : ∃ k, c ∈ lists k) :
    c = ⟨s.generation, c.uid⟩ := by
  rw [← (h.pool c hc).1]

/-- A coroutine on a list is found under its id. -/
theorem lookup_uid (h : Sound intact s lists) (hc : ∃ k, c ∈ lists k) :
    (s.lookup c.uid).isSome := by
  rw [(h.lookup c.uid c).mpr ⟨rfl, hc⟩]
  rfl

/-- An id that is found belongs to a coroutine on a list. -/
theorem lookup_eq (h : Sound intact s lists) {i : ℕ} (hi : (s.lookup i).isSome) :
    s.lookup i = some ⟨s.generation, i⟩ ∧
      ∃ k, (⟨s.generation, i⟩ : CoroutineInfo) ∈ lists k := by
  obtain ⟨c, hc⟩ := Option.isSome_iff_exists.mp hi
  obtain ⟨rfl, hmem⟩ := (h.lookup i c).mp hc
  rw [← h.eq_of_mem hmem]
  exact ⟨hc, hmem⟩

/-- **A move keeps the invariant** if neither its sources nor its target are `_free`. -/
theorem moveTo (h : Sound intact s lists) (hc : ∃ k, c ∈ lists k) (hsource : s.status c ∈ sources)
    (hne : target ∉ sources) (hfree : .free ∉ sources) (htarget : target ≠ .free) :
    ∃ links, s.moveTo sources target c =
        some { s with links, status := Function.update s.status c target } ∧
      Sound intact { s with links, status := Function.update s.status c target }
        (moved s lists target c) := by
  obtain ⟨links, hmove, harranged⟩ := h.arranged.moveTo hc hsource target
  have hstatus : s.status c ≠ target := by
    intro heq
    exact hne (heq ▸ hsource)
  have hnotfree : s.status c ≠ .free := by
    intro heq
    exact hfree (heq ▸ hsource)
  obtain ⟨hused, hfreeLength⟩ := used_moved h.arranged hc hstatus hnotfree htarget
  refine ⟨links, hmove, ⟨harranged, h.slots, ?_, ?_, h.given, h.exact, h.size, h.bound, ?_, ?_,
    h.self, h.queue, h.timers⟩⟩
  · intro i d
    rw [h.arranged.exists_mem_moved_iff hc]
    exact h.lookup i d
  · intro d
    rw [h.arranged.exists_mem_moved_iff hc]
    exact h.pool d
  · exact h.used.trans hused.symm
  · rw [hused, hfreeLength]
    exact h.total

/-- **The rule for the wake loops.** What holds before the loop and is kept by every move, and
by every id that is ignored, holds after it. `J` may speak about the ids handled so far, the
statuses, the lists and the outputs. -/
theorem wakeLoop
    {J : List (ℕ × WakeCause) → (CoroutineInfo → CoroStatus) →
      (CoroStatus → List CoroutineInfo) → List CoroOutput → Prop}
    (hne : target ∉ sources) (hfree : .free ∉ sources) (htarget : target ≠ .free)
    {items handled : List (ℕ × WakeCause)} {past : List CoroOutput} (h : Sound intact s lists)
    (hitems : ∀ p ∈ items, (s.lookup p.1).isSome) (hJ : J handled s.status lists past)
    (hstay : ∀ handled status lists past p, p ∈ items →
      status ⟨s.generation, p.1⟩ ∉ sources → J handled status lists past →
      J (handled ++ [p]) status lists past)
    (hmove : ∀ handled links status lists past p, p ∈ items →
      Sound intact { s with links, status } lists → status ⟨s.generation, p.1⟩ ∈ sources →
      J handled status lists past →
      J (handled ++ [p]) (Function.update status ⟨s.generation, p.1⟩ target)
        (moved { s with status } lists target ⟨s.generation, p.1⟩)
        (past ++ [.woken ⟨s.generation, p.1⟩ p.2])) :
    ∃ links status lists' out,
      CoroutineScheduler.wakeLoop (CoroutineScheduler.moveTo sources target) items s =
        some ({ s with links, status }, out) ∧
      Sound intact { s with links, status } lists' ∧
      J (handled ++ items) status lists' (past ++ out) := by
  induction items generalizing s lists handled past with
  | nil => exact ⟨s.links, s.status, lists, [], rfl, h, by simpa using hJ⟩
  | cons p items ih =>
    obtain ⟨iCoroId, cause⟩ := p
    have hid := hitems (iCoroId, cause) List.mem_cons_self
    obtain ⟨hlookup, hmem⟩ := h.lookup_eq hid
    have htail : ∀ q ∈ items, (s.lookup q.1).isSome :=
      fun q hq => hitems q (List.mem_cons_of_mem _ hq)
    by_cases hsource : s.status ⟨s.generation, iCoroId⟩ ∈ sources
    · obtain ⟨links, hmoveTo, hsound⟩ :=
        h.moveTo hmem hsource hne hfree htarget
      have hnext := hmove handled s.links s.status lists past (iCoroId, cause)
        List.mem_cons_self h hsource hJ
      obtain ⟨links', status', lists', out, hloop, hlast, hJ'⟩ := ih hsound htail hnext
        (fun handled status lists past q hq =>
          hstay handled status lists past q (List.mem_cons_of_mem _ hq))
        (fun handled links status lists past q hq =>
          hmove handled links status lists past q (List.mem_cons_of_mem _ hq))
      have hchanged : Function.update s.status ⟨s.generation, iCoroId⟩ target
          ⟨s.generation, iCoroId⟩ ≠ s.status ⟨s.generation, iCoroId⟩ := by
        rw [Function.update_self]
        intro heq
        exact hne (heq ▸ hsource)
      refine ⟨links', status', lists', .woken ⟨s.generation, iCoroId⟩ cause :: out, ?_, hlast, ?_⟩
      · simp only [CoroutineScheduler.wakeLoop, hlookup, hmoveTo, hloop, if_neg hchanged]
      · simpa using hJ'
    · have hnext := hstay handled s.status lists past (iCoroId, cause) List.mem_cons_self
        hsource hJ
      obtain ⟨links', status', lists', out, hloop, hlast, hJ'⟩ := ih h htail hnext
        (fun handled status lists past q hq =>
          hstay handled status lists past q (List.mem_cons_of_mem _ hq))
        (fun handled links status lists past q hq =>
          hmove handled links status lists past q (List.mem_cons_of_mem _ hq))
      refine ⟨links', status', lists', out, ?_, hlast, ?_⟩
      · simp only [CoroutineScheduler.wakeLoop, hlookup, moveTo_of_notMem hsource, hloop, if_true]
      · simpa using hJ'

/-! ### Growing the pool -/

/-- The invariant says what growing needs: which identifiers are in use and which come next. -/
theorem stocked (h : Sound intact s lists) : Stocked s lists := by
  refine ⟨h.arranged, ?_, h.slots, h.bound⟩
  intro k c hc
  obtain ⟨hgen, -, huid⟩ := h.pool c ⟨k, hc⟩
  exact .inr ⟨hgen, huid⟩

/-- An id that was given out for nothing, because its allocation failed, stays below the size of the
pool. -/
theorem skipId (h : Sound intact s lists) (hintact : ¬intact) (hroom : s.uniqId < s.poolSize) :
    Sound intact { s with uniqId := s.uniqId + 1 } lists := by
  refine ⟨h.arranged.congr rfl rfl, h.slots, h.lookup, ?_, Nat.le_succ_of_le h.given,
    fun hin => absurd hin hintact, hroom, h.bound, h.used, h.total, h.self, h.queue, h.timers⟩
  intro c hc
  obtain ⟨hgen, hlo, hhi⟩ := h.pool c hc
  exact ⟨hgen, hlo, Nat.le_succ_of_le hhi⟩

/-- Growing by successful rounds keeps the invariant and gives out as many ids as there are rounds.
-/
theorem addCoros (h : Sound intact s lists) {n : ℕ} (hroom : s.uniqId + n ≤ s.poolSize) :
    ∃ links status allCoro,
      addCoros n s = some { s with uniqId := s.uniqId + n, links, status, allCoro } ∧
      Sound intact { s with
          currentSize := s.currentSize + n
          uniqId := s.uniqId + n
          links
          status
          allCoro } (stock lists (nextCoros s.generation s.uniqId n)) := by
  obtain ⟨links, status, allCoro, hadd, hstocked, hslots⟩ := h.stocked.addCoros hroom
  have hgiven := h.given
  have hlookup (i : ℕ) (c : CoroutineInfo) : (allCoro[i]?).join = some c ↔
      c.uid = i ∧ ∃ k, c ∈ stock lists (nextCoros s.generation s.uniqId n) k := by
    have hold := h.lookup i c
    rw [CoroutineScheduler.lookup] at hold
    rw [hslots i, exists_mem_stock_iff, mem_nextCoros]
    by_cases hnew : s.uniqId < i ∧ i ≤ s.uniqId + n
    · rw [if_pos hnew]
      constructor
      · intro hc
        obtain rfl := Option.some.inj hc
        exact ⟨rfl, .inr ⟨rfl, hnew⟩⟩
      · rintro ⟨rfl, hmem | ⟨hgen, -⟩⟩
        · have huid := (h.pool c hmem).2.2
          omega
        · rw [← hgen]
          rfl
    · rw [if_neg hnew, hold]
      constructor
      · rintro ⟨huid, hmem⟩
        exact ⟨huid, .inl hmem⟩
      · rintro ⟨rfl, hmem | ⟨-, hin⟩⟩
        · exact ⟨rfl, hmem⟩
        · exact absurd hin hnew
  have hgrow {i : ℕ} (hi : (s.lookup i).isSome) : ((allCoro[i]?).join).isSome := by
    obtain ⟨hfound, k, hk⟩ := h.lookup_eq hi
    rw [(hlookup i ⟨s.generation, i⟩).mpr ⟨rfl, exists_mem_stock_iff.mpr (.inl ⟨k, hk⟩)⟩]
    rfl
  refine ⟨links, status, allCoro, hadd, ⟨hstocked.arranged.congr rfl rfl, hstocked.slots, hlookup,
    ?_, Nat.add_le_add_right hgiven n, ?_, hroom, h.bound, ?_, ?_, fun i hi => hgrow (h.self i hi),
    fun i hi => hgrow (h.queue i hi), fun m hm => hgrow (h.timers m hm)⟩⟩
  · intro c hc
    show c.generation = s.generation ∧ 1 ≤ c.uid ∧ c.uid ≤ s.uniqId + n
    rcases exists_mem_stock_iff.mp hc with hold | hnew
    · obtain ⟨hgen, hlo, hhi⟩ := h.pool c hold
      exact ⟨hgen, hlo, by omega⟩
    · obtain ⟨hgen, hlo, hhi⟩ := mem_nextCoros.mp hnew
      exact ⟨hgen, by omega, hhi⟩
  · intro hin
    show s.uniqId + n = s.currentSize + n
    rw [h.exact hin]
  · simpa [CoroutineScheduler.used, stock_of_ne] using h.used
  · have htotal := h.total
    simp only [CoroutineScheduler.used, stock_free, List.length_append, length_nextCoros, ne_eq,
      reduceCtorEq, not_false_eq_true, stock_of_ne] at htotal ⊢
    omega

/-- **`increaseCoroPoolSize`** adds coroutines to `_free`; with the return value `0` at least
one. -/
theorem increaseCoroPoolSize {alloc : ℕ → Bool} {s' : CoroutineScheduler} {iRet : ℤ}
    (h : Sound intact s lists) (halloc : intact → ∀ i, alloc i = true)
    (hinc : s.increaseCoroPoolSize alloc = some (s', iRet)) :
    s'.agenda = s.agenda ∧ ∃ n, (iRet = 0 → 0 < n) ∧
      Sound intact s' (stock lists (nextCoros s.generation s.uniqId n)) := by
  have hnone : stock lists (nextCoros s.generation s.uniqId 0) = lists := by
    simp [stock, nextCoros]
  rw [CoroutineScheduler.increaseCoroPoolSize] at hinc
  simp only [CoroutineScheduler.increase_rounds (h.given.trans h.size) h.bound] at hinc
  split at hinc
  · obtain ⟨rfl, rfl⟩ := Prod.mk.inj (Option.some.inj hinc)
    exact ⟨rfl, 0, by simp, by rwa [hnone]⟩
  · rename_i hrounds
    rw [increaseLoop_eq] at hinc
    generalize hn : successes alloc (min 100 (s.poolSize - s.currentSize)) 0 = n at hinc
    cases hadd : CoroutineScheduler.addCoros n s with
    | none =>
      rw [hadd] at hinc
      cases hinc
    | some grown =>
      have hroom := h.stocked.room h.size hadd
      obtain ⟨links, status, allCoro, hadd', hsound⟩ := h.addCoros hroom
      obtain rfl := Option.some.inj (hadd.symm.trans hadd')
      have hbound := h.bound
      have hmod : (s.currentSize + n) % 2 ^ 32 = s.currentSize + n := by
        have hgiven := h.given
        exact Nat.mod_eq_of_lt (by omega)
      rw [hadd, Option.bind_some] at hinc
      by_cases hall : n = min 100 (s.poolSize - s.currentSize)
      · rw [if_pos hall, Nat.zero_add] at hinc
        obtain ⟨m, rfl⟩ : ∃ m, n = m + 1 := Nat.exists_eq_succ_of_ne_zero (hall ▸ hrounds)
        rw [← hall] at hinc
        obtain ⟨rfl, rfl⟩ := Prod.mk.inj (Option.some.inj hinc)
        rw [hmod]
        exact ⟨rfl, m + 1, fun _ => Nat.succ_pos m, hsound⟩
      · rw [if_neg hall] at hinc
        have hintact : ¬intact := by
          intro hin
          rw [successes_eq_iff.mpr fun i _ => halloc hin _] at hn
          exact hall hn.symm
        cases hid : generateId { s with uniqId := s.uniqId + n, links, status, allCoro } with
        | none =>
          rw [hid] at hinc
          cases hinc
        | some next =>
          have hnext : s.uniqId + n < s.poolSize :=
            generateId_room (s := { s with uniqId := s.uniqId + n, links, status, allCoro })
              hroom h.bound hid
          rw [generateId_eq (s := { s with uniqId := s.uniqId + n, links, status, allCoro })
            hnext h.bound, Option.map_some, Nat.zero_add] at hinc
          have hskipped := hsound.skipId hintact hnext
          cases n with
          | zero =>
            obtain ⟨rfl, rfl⟩ := Prod.mk.inj (Option.some.inj hinc)
            exact ⟨rfl, 0, by simp, hskipped⟩
          | succ m =>
            obtain ⟨rfl, rfl⟩ := Prod.mk.inj (Option.some.inj hinc)
            rw [hmod]
            exact ⟨rfl, m + 1, fun _ => Nat.succ_pos m, hskipped⟩

/-- Without failures `increaseCoroPoolSize` returns, and it finds nothing to add only if the pool
has its size. -/
theorem increaseCoroPoolSize_total {alloc : ℕ → Bool} (h : Sound True s lists)
    (halloc : ∀ i, alloc i = true) :
    ∃ s' iRet, s.increaseCoroPoolSize alloc = some (s', iRet) ∧
      (iRet ≠ 0 → s.currentSize = s.poolSize) := by
  have hsize := h.size
  have hexact := h.exact trivial
  rw [CoroutineScheduler.increaseCoroPoolSize]
  simp only [CoroutineScheduler.increase_rounds (h.given.trans h.size) h.bound]
  split
  · exact ⟨s, -1, rfl, fun _ => by omega⟩
  · rename_i hrounds
    obtain ⟨n, hn⟩ := Nat.exists_eq_succ_of_ne_zero hrounds
    obtain ⟨links, status, allCoro, hadd, -⟩ :=
      h.addCoros (n := min 100 (s.poolSize - s.currentSize)) (by omega)
    rw [increaseLoop_eq, successes_eq_iff.mpr fun i _ => halloc _, hadd, Option.bind_some,
      if_pos rfl, hn]
    exact ⟨_, 0, rfl, fun hne => absurd rfl hne⟩

/-- Taking a free coroutine keeps the invariant: it goes to the end of `_avail`, and one more is in
use. -/
theorem takeFree {rest : List CoroutineInfo} (h : Sound intact s lists)
    (hfree : lists .free = c :: rest) :
    ∃ s', s.takeFree = some (s', c.uid) ∧ s'.agenda = s.agenda ∧
      Sound intact s' (append (remove lists .free c) .avail c) := by
  obtain ⟨links, htake, harranged⟩ := h.arranged.takeFree hfree
  have hmem : c ∈ lists .free := hfree ▸ List.mem_cons_self
  have hc : ∃ k, c ∈ lists k := ⟨.free, hmem⟩
  have hstatus := h.arranged.status .free c hmem
  have htarget : CoroStatus.avail ≠ .free := by decide
  obtain ⟨hused, hfreeLength⟩ := used_moved_of_free h.arranged hc hstatus htarget
  have htotal := h.total
  have husedSize := h.used
  have hsize := h.size
  have hgiven := h.given
  have hbound := h.bound
  have hmod : (s.usedSize + 1) % 2 ^ 32 = s.usedSize + 1 := Nat.mod_eq_of_lt (by omega)
  have hmoved : moved s lists .avail c = append (remove lists .free c) .avail c := by
    rw [moved, hstatus]
  refine ⟨_, htake, rfl, ⟨hmoved ▸ harranged, h.slots, ?_, ?_, h.given, h.exact,
    h.size, h.bound, ?_, ?_, h.self, h.queue, h.timers⟩⟩
  · intro i d
    rw [← hmoved, h.arranged.exists_mem_moved_iff hc]
    exact h.lookup i d
  · intro d
    rw [← hmoved, h.arranged.exists_mem_moved_iff hc]
    exact h.pool d
  · rw [← hmoved, hused, ← husedSize]
    exact hmod
  · rw [← hmoved]
    show CoroutineScheduler.used (moved s lists .avail c) +
      (moved s lists .avail c .free).length = s.currentSize
    omega

end Sound

/-- What `createCoroutine` does to the lists: one coroutine goes from the free ones to `_avail`. -/
structure Created (lists lists' : CoroStatus → List CoroutineInfo) : Prop where
  /-- The list `_avail` only grows, at its end. -/
  avail : ∃ cs, lists' .avail = lists .avail ++ cs
  /-- The lists of the other coroutines in use are the same. -/
  others : ∀ k, k ≠ .free → k ≠ .avail → lists' k = lists k

namespace Created

variable {lists' : CoroStatus → List CoroutineInfo}

/-- The head of a list of coroutines in use stays its head. -/
theorem head? (h : Created lists lists') {k : CoroStatus} (hk : k ≠ .free)
    (hc : (lists k).head? = some c) : (lists' k).head? = some c := by
  by_cases havail : k = .avail
  · subst havail
    obtain ⟨cs, hcs⟩ := h.avail
    rw [hcs, List.head?_append, hc]
    rfl
  · rwa [h.others k hk havail]

end Created

/-- The lists of coroutines in use after a free one was taken from a larger pool. -/
theorem created_moved (lists : CoroStatus → List CoroutineInfo) (cs : List CoroutineInfo)
    (c : CoroutineInfo) : Created lists (append (remove (stock lists cs) .free c) .avail c) := by
  constructor
  · refine ⟨[c], ?_⟩
    rw [append_self, remove_of_ne (by decide), stock_of_ne (by decide)]
  · intro k hfree havail
    rw [append_of_ne havail, remove_of_ne hfree, stock_of_ne hfree]

/-- Where `createCoroutine` grows the pool first, no coroutine is free. -/
theorem Sound.free_eq_nil (h : Sound intact s lists)
    (hgrow : s.usedSize ≥ s.currentSize ∨ s.headEmpty .free = true) : lists .free = [] := by
  have htotal := h.total
  have husedSize := h.used
  rcases hgrow with hused | hhead
  · exact List.eq_nil_of_length_eq_zero (by omega)
  · exact (h.arranged.headEmpty_iff .free).mp hhead

/-- Where it does not grow the pool, some coroutine is free, and the first one will be taken. -/
theorem Sound.free_eq_cons (h : Sound intact s lists)
    (hgrow : ¬(s.usedSize ≥ s.currentSize ∨ s.headEmpty .free = true)) :
    ∃ c rest, lists .free = c :: rest := by
  apply List.exists_cons_of_ne_nil
  intro hempty
  exact (not_or.mp hgrow).2 ((h.arranged.headEmpty_iff .free).mpr hempty)

/-- Where `_free` was empty, the first of the new coroutines is in front. -/
private theorem stock_free_cons (hempty : lists .free = []) (generation uniqId : ℕ) {n : ℕ}
    (hn : 0 < n) : ∃ rest, stock lists (nextCoros generation uniqId n) .free =
      ⟨generation, uniqId + 1⟩ :: rest := by
  obtain ⟨m, rfl⟩ := Nat.exists_eq_add_one.mpr hn
  refine ⟨nextCoros generation (uniqId + 1) m, ?_⟩
  rw [stock_free, hempty, nextCoros_succ]
  rfl

/-- What `createCoroutine` does with the free coroutines when it returns an id or `0`. -/
structure HandedOut (generation iId : ℕ) (lists lists' : CoroStatus → List CoroutineInfo) :
    Prop where
  /-- The coroutine with the id goes to the end of `_avail`. -/
  avail_eq : lists' .avail = lists .avail ++ if iId = 0 then [] else [⟨generation, iId⟩]
  /-- No other coroutine leaves `_free`. -/
  free_mem : ∀ c ∈ lists .free, c ∈ lists' .free ∨ c.uid = iId

/-- The first free coroutine of a larger pool was handed out. -/
theorem Sound.handedOut {cs : List CoroutineInfo} (h : Sound intact s (stock lists cs))
    (hc : c ∈ stock lists cs .free) :
    HandedOut s.generation c.uid lists (append (remove (stock lists cs) .free c) .avail c) := by
  obtain ⟨hgeneration, hpos, -⟩ := h.pool c ⟨.free, hc⟩
  constructor
  · rw [append_self, remove_of_ne (by decide), stock_of_ne (by decide),
      if_neg (Nat.one_le_iff_ne_zero.mp hpos), ← hgeneration]
  · intro d hd
    rw [append_of_ne (by decide), h.arranged.represents.mem_remove_iff hc]
    by_cases hdc : d = c
    · exact .inr (by rw [hdc])
    · refine .inl ⟨?_, hdc⟩
      rw [stock_free]
      exact List.mem_append_left _ hd

/-- **`createCoroutine`** keeps the invariant and moves at most one coroutine to the end of
`_avail`, the one with the id that it returns. -/
theorem Sound.createCoroutine_handedOut {alloc : ℕ → Bool} {s' : CoroutineScheduler} {iId : ℕ}
    (h : Sound intact s lists) (halloc : intact → ∀ i, alloc i = true)
    (hcreate : s.createCoroutine alloc = some (s', iId)) :
    ∃ lists', s'.agenda = s.agenda ∧ Sound intact s' lists' ∧ Created lists lists' ∧
      HandedOut s.generation iId lists lists' := by
  rw [CoroutineScheduler.createCoroutine] at hcreate
  split at hcreate
  · rename_i hgrow
    have hempty := h.free_eq_nil hgrow
    split at hcreate
    · cases hcreate
    · rename_i grown iRet hinc
      obtain ⟨hagenda, n, hn, hsound⟩ := h.increaseCoroPoolSize halloc hinc
      have hgeneration : grown.generation = s.generation := congrArg Agenda.generation hagenda
      split at hcreate
      · obtain ⟨rfl, rfl⟩ := Prod.mk.inj (Option.some.inj hcreate)
        refine ⟨_, hagenda, hsound, ⟨⟨[], ?_⟩, ?_⟩, ?_, ?_⟩
        · rw [stock_of_ne (by decide), List.append_nil]
        · intro k hfree _
          rw [stock_of_ne hfree]
        · rw [stock_of_ne (by decide), if_pos rfl, List.append_nil]
        · intro d hd
          rw [hempty] at hd
          cases hd
      · rename_i hzero
        obtain ⟨rest, hfree⟩ :=
          stock_free_cons hempty s.generation s.uniqId (hn (not_not.mp hzero))
        obtain ⟨taken, htake, hagenda', hlast⟩ := hsound.takeFree hfree
        obtain ⟨rfl, rfl⟩ := Prod.mk.inj (Option.some.inj (htake.symm.trans hcreate))
        have hhanded := hsound.handedOut (hfree ▸ List.mem_cons_self)
        rw [hgeneration] at hhanded
        exact ⟨_, hagenda'.trans hagenda, hlast, created_moved _ _ _, hhanded⟩
  · rename_i hgrow
    obtain ⟨c, rest, hfree⟩ := h.free_eq_cons hgrow
    obtain ⟨taken, htake, hagenda, hlast⟩ := h.takeFree hfree
    obtain ⟨rfl, rfl⟩ := Prod.mk.inj (Option.some.inj (htake.symm.trans hcreate))
    have hnone : stock lists [] = lists := by simp [stock]
    have hcreated := created_moved lists [] c
    have hstock : Sound intact s (stock lists []) := hnone.symm ▸ h
    have hhanded := hstock.handedOut (hnone.symm ▸ hfree ▸ List.mem_cons_self)
    rw [hnone] at hcreated hhanded
    exact ⟨_, hagenda, hlast, hcreated, hhanded⟩

/-- What the other coroutines in use see of `createCoroutine`. -/
theorem Sound.createCoroutine {alloc : ℕ → Bool} {s' : CoroutineScheduler} {iId : ℕ}
    (h : Sound intact s lists) (halloc : intact → ∀ i, alloc i = true)
    (hcreate : s.createCoroutine alloc = some (s', iId)) :
    ∃ lists', s'.agenda = s.agenda ∧ Sound intact s' lists' ∧ Created lists lists' := by
  obtain ⟨lists', hagenda, hsound, hcreated, -⟩ := h.createCoroutine_handedOut halloc hcreate
  exact ⟨lists', hagenda, hsound, hcreated⟩

/-- Without failures `createCoroutine` returns, and it returns `0` only if all coroutines of the
pool are in use. -/
theorem Sound.createCoroutine_total {alloc : ℕ → Bool} (h : Sound True s lists)
    (halloc : ∀ i, alloc i = true) :
    ∃ s' iId, s.createCoroutine alloc = some (s', iId) ∧
      (iId = 0 → s.usedSize = s.poolSize) := by
  rw [CoroutineScheduler.createCoroutine]
  split
  · rename_i hgrow
    have hempty := h.free_eq_nil hgrow
    obtain ⟨grown, iRet, hinc, hfull⟩ := h.increaseCoroPoolSize_total halloc
    simp only [hinc]
    split
    · rename_i hne
      refine ⟨grown, 0, rfl, fun _ => ?_⟩
      have htotal := h.total
      have husedSize := h.used
      rw [hempty, List.length_nil] at htotal
      have := hfull hne
      omega
    · rename_i hzero
      obtain ⟨-, n, hn, hsound⟩ := h.increaseCoroPoolSize (fun _ => halloc) hinc
      obtain ⟨rest, hfree⟩ :=
        stock_free_cons hempty s.generation s.uniqId (hn (not_not.mp hzero))
      obtain ⟨taken, htake, -⟩ := hsound.takeFree hfree
      exact ⟨taken, s.uniqId + 1, htake, fun hzero => absurd hzero (Nat.succ_ne_zero _)⟩
  · rename_i hgrow
    obtain ⟨c, rest, hfree⟩ := h.free_eq_cons hgrow
    obtain ⟨taken, htake, -⟩ := h.takeFree hfree
    refine ⟨taken, c.uid, htake, fun hzero => ?_⟩
    have huid := (h.pool c ⟨.free, hfree ▸ List.mem_cons_self⟩).2.1
    omega

/-! ### Waking -/

/-- What a wake loop over `items` does: `ws` are the coroutines it moves, each with the cause
that came first for it. -/
structure Woken (generation : ℕ) (sources : List CoroStatus) (target : CoroStatus)
    (items : List (ℕ × WakeCause)) (status : CoroutineInfo → CoroStatus)
    (lists : CoroStatus → List CoroutineInfo) (ws : List (CoroutineInfo × WakeCause))
    (status' : CoroutineInfo → CoroStatus) (lists' : CoroStatus → List CoroutineInfo) :
    Prop where
  /-- No coroutine is moved twice. -/
  nodup : (ws.map Prod.fst).Nodup
  /-- Those with a source status and an id among the items are moved. -/
  mem_iff : ∀ c, c ∈ ws.map Prod.fst ↔
    status c ∈ sources ∧ ∃ p ∈ items, c = ⟨generation, p.1⟩
  /-- The first item with the id is the cause. -/
  first : ∀ w ∈ ws, ∃ before after, items = before ++ (w.1.uid, w.2) :: after ∧
    ∀ q ∈ before, q.1 ≠ w.1.uid
  /-- They have the target status. -/
  status_mem : ∀ c ∈ ws.map Prod.fst, status' c = target
  /-- The others keep their status. -/
  status_notMem : ∀ c, c ∉ ws.map Prod.fst → status' c = status c
  /-- They are appended to the target list. -/
  target_eq : lists' target = lists target ++ ws.map Prod.fst
  /-- Lists that are neither source nor target are the same. -/
  others : ∀ k, k ≠ target → k ∉ sources → lists' k = lists k
  /-- The same coroutines are on the lists. -/
  same : ∀ c, (∃ k, c ∈ lists' k) ↔ ∃ k, c ∈ lists k

section Wake

variable {generation : ℕ} {handled : List (ℕ × WakeCause)}
  {status status' : CoroutineInfo → CoroStatus} {lists' : CoroStatus → List CoroutineInfo}
  {ws : List (CoroutineInfo × WakeCause)} {p : ℕ × WakeCause}

/-- The causes of those that are moved are among the items. -/
theorem Woken.mem_items (h : Woken generation sources target handled status lists ws status' lists')
    {w : CoroutineInfo × WakeCause} (hw : w ∈ ws) : (w.1.uid, w.2) ∈ handled := by
  obtain ⟨before, after, hsplit, -⟩ := h.first w hw
  rw [hsplit]
  exact List.mem_append_right _ List.mem_cons_self

/-- An id that is ignored, since its coroutine does not wait, changes nothing. -/
theorem Woken.stay (h : Woken generation sources target handled status lists ws status' lists')
    (hp : status' ⟨generation, p.1⟩ ∉ sources) :
    Woken generation sources target (handled ++ [p]) status lists ws status' lists' := by
  refine ⟨h.nodup, ?_, ?_, h.status_mem, h.status_notMem, h.target_eq, h.others, h.same⟩
  · intro c
    rw [h.mem_iff]
    refine and_congr_right fun hsource => ?_
    constructor
    · rintro ⟨q, hq, hc⟩
      exact ⟨q, List.mem_append_left _ hq, hc⟩
    · rintro ⟨q, hq, hc⟩
      rcases List.mem_append.mp hq with hold | hnew
      · exact ⟨q, hold, hc⟩
      · obtain rfl := List.mem_singleton.mp hnew
        by_contra hnone
        have hkept : c ∉ ws.map Prod.fst := fun hmem => hnone ((h.mem_iff c).mp hmem).2
        rw [← hc, h.status_notMem c hkept] at hp
        exact hp hsource
  · intro w hw
    obtain ⟨before, after, hsplit, hfirst⟩ := h.first w hw
    exact ⟨before, after ++ [p], by rw [hsplit]; simp, hfirst⟩

/-- An id whose coroutine is moved: it goes behind the others on the target list. -/
theorem Woken.move (h : Woken generation sources target handled status lists ws status' lists')
    (hne : target ∉ sources) (hp : status' ⟨generation, p.1⟩ ∈ sources) {s : CoroutineScheduler}
    (hs : s.status = status') (harranged : Arranged s lists')
    (hmem : ∃ k, (⟨generation, p.1⟩ : CoroutineInfo) ∈ lists' k) :
    Woken generation sources target (handled ++ [p]) status lists
      (ws ++ [(⟨generation, p.1⟩, p.2)]) (Function.update status' ⟨generation, p.1⟩ target)
      (moved s lists' target ⟨generation, p.1⟩) := by
  have hnew : (⟨generation, p.1⟩ : CoroutineInfo) ∉ ws.map Prod.fst := by
    intro hmem
    rw [h.status_mem _ hmem] at hp
    exact hne hp
  have hold := h.status_notMem _ hnew
  have htarget : target ≠ status' ⟨generation, p.1⟩ := by
    intro heq
    exact hne (heq ▸ hp)
  refine ⟨?_, ?_, ?_, ?_, ?_, ?_, ?_, ?_⟩
  · rw [List.map_append, List.nodup_append]
    refine ⟨h.nodup, List.nodup_singleton _, ?_⟩
    rintro c hc d hd rfl
    obtain rfl := List.mem_singleton.mp hd
    exact hnew hc
  · intro c
    rw [List.map_append, List.mem_append, h.mem_iff]
    constructor
    · rintro (⟨hsource, q, hq, hc⟩ | hlast)
      · exact ⟨hsource, q, List.mem_append_left _ hq, hc⟩
      · obtain rfl := List.mem_singleton.mp hlast
        exact ⟨hold ▸ hp, p, by simp, rfl⟩
    · rintro ⟨hsource, q, hq, rfl⟩
      rcases List.mem_append.mp hq with hbefore | hlast
      · exact .inl ⟨hsource, q, hbefore, rfl⟩
      · obtain rfl := List.mem_singleton.mp hlast
        exact .inr (by simp)
  · intro w hw
    rcases List.mem_append.mp hw with hbefore | hlast
    · obtain ⟨before, after, hsplit, hfirst⟩ := h.first w hbefore
      exact ⟨before, after ++ [p], by rw [hsplit]; simp, hfirst⟩
    · obtain rfl := List.mem_singleton.mp hlast
      refine ⟨handled, [], rfl, ?_⟩
      rintro q hq heq
      apply hnew
      rw [h.mem_iff]
      exact ⟨hold ▸ hp, q, hq, by rw [heq]⟩
  · intro c hc
    rw [List.map_append, List.mem_append] at hc
    rcases hc with hbefore | hlast
    · rw [Function.update_of_ne (ne_of_mem_of_not_mem hbefore hnew), h.status_mem c hbefore]
    · obtain rfl := List.mem_singleton.mp hlast
      exact Function.update_self _ _ _
  · intro c hc
    rw [List.map_append, List.mem_append, not_or] at hc
    have hlast : c ≠ ⟨generation, p.1⟩ := fun heq => hc.2 (by simp [heq])
    rw [Function.update_of_ne hlast, h.status_notMem c hc.1]
  · rw [moved, append_self, hs, remove_of_ne htarget, h.target_eq]
    simp
  · intro k hk hsource
    have hstatus : k ≠ status' ⟨generation, p.1⟩ := by
      rintro rfl
      exact hsource hp
    rw [moved, append_of_ne hk, hs, remove_of_ne hstatus, h.others k hk hsource]
  · intro c
    rw [harranged.exists_mem_moved_iff hmem, h.same]

/-- **A wake loop** moves the coroutines that `Woken` describes and reports them. -/
theorem Sound.wakeLoop_woken (hne : target ∉ sources) (hfree : .free ∉ sources)
    (htarget : target ≠ .free) {items : List (ℕ × WakeCause)} (h : Sound intact s lists)
    (hitems : ∀ p ∈ items, (s.lookup p.1).isSome) :
    ∃ links status lists' ws,
      CoroutineScheduler.wakeLoop (CoroutineScheduler.moveTo sources target) items s =
        some ({ s with links, status }, ws.map fun w => .woken w.1 w.2) ∧
      Sound intact { s with links, status } lists' ∧
      Woken s.generation sources target items s.status lists ws status lists' := by
  have hstart : ∃ ws, ([] : List CoroOutput) = ws.map (fun w => .woken w.1 w.2) ∧
      Woken s.generation sources target [] s.status lists ws s.status lists := by
    refine ⟨[], rfl, List.nodup_nil, ?_, ?_, ?_, fun _ _ => rfl, ?_, fun _ _ _ => rfl,
      fun _ => Iff.rfl⟩ <;> simp
  obtain ⟨links, status, lists', out, hloop, hsound, ws, hout, hwoken⟩ :=
    h.wakeLoop (J := fun handled status' lists' past =>
        ∃ ws, past = ws.map (fun w => .woken w.1 w.2) ∧
          Woken s.generation sources target handled s.status lists ws status' lists')
      hne hfree htarget hitems hstart
      (by
        rintro handled status' lists' past p - hp ⟨ws, hpast, hwoken⟩
        exact ⟨ws, hpast, hwoken.stay hp⟩)
      (by
        rintro handled links status' lists' past p hin hsound hp ⟨ws, hpast, hwoken⟩
        refine ⟨ws ++ [(⟨s.generation, p.1⟩, p.2)], ?_, hwoken.move hne hp rfl
          (hsound.arranged.congr rfl rfl) (hsound.lookup_eq (hitems p hin)).2⟩
        rw [hpast]
        simp)
  rw [List.nil_append] at hwoken hout
  exact ⟨links, status, lists', ws, hout ▸ hloop, hsound, hwoken⟩

end Wake

/-! ### Suspending and finishing -/

/-- The ids that wait may change to other ids of coroutines. -/
theorem Sound.of_waiting {needActiveCoroId activeCoroQueue : List ℕ}
    {timeoutCoroId : List TimeoutNode} (h : Sound intact s lists) (terminal : Bool)
    (currentCoro : Option CoroutineInfo) (nextNode : ℕ)
    (hself : ∀ i ∈ needActiveCoroId, (s.lookup i).isSome)
    (hqueue : ∀ i ∈ activeCoroQueue, (s.lookup i).isSome)
    (htimers : ∀ n ∈ timeoutCoroId, (s.lookup n.coroId).isSome) :
    Sound intact { s with
      terminal
      currentCoro
      needActiveCoroId
      activeCoroQueue
      timeoutCoroId
      nextNode } lists :=
  ⟨h.arranged.congr rfl rfl, h.slots, h.lookup, h.pool, h.given, h.exact, h.size, h.bound, h.used,
    h.total, hself, hqueue, htimers⟩

/-- The running coroutine goes to a list of suspended ones and leaves its thread to the main
coroutine. -/
theorem Sound.park {k : CoroStatus} (h : Sound intact s lists) (hc : c ∈ lists k)
    (hk : k = .active ∨ k = .avail) (htarget : target = .inactive ∨ target = .timeout) :
    ∃ s', (CoroutineScheduler.moveTo [.active, .avail] target s c).map switchToMain = some s' ∧
      Sound intact s' (append (remove lists k c) target c) ∧
      s'.agenda = { s.agenda with currentCoro := none } := by
  have hstatus := h.arranged.status k c hc
  have hsource : s.status c ∈ [CoroStatus.active, .avail] := by
    rw [hstatus]
    rcases hk with rfl | rfl <;> decide
  have hne : target ∉ [CoroStatus.active, .avail] ∧ target ≠ .free := by
    rcases htarget with rfl | rfl <;> decide
  obtain ⟨links, hmove, hsound⟩ := h.moveTo ⟨k, hc⟩ hsource hne.1 (by decide) hne.2
  rw [moved, hstatus] at hsound
  exact ⟨_, by rw [hmove]; rfl, hsound.of_waiting _ _ _ h.self h.queue h.timers, rfl⟩

/-- `yield` takes the running coroutine to `_inactive`; with the flag set and while the
scheduler goes on its id is noted. -/
theorem Sound.yield {k : CoroStatus} (h : Sound intact s lists) (hc : c ∈ lists k)
    (hk : k = .active ∨ k = .avail) (bFlag : Bool) :
    ∃ s', s.yield c bFlag = some s' ∧ Sound intact s' (append (remove lists k c) .inactive c) ∧
      s'.agenda = { s.agenda with
        currentCoro := none
        needActiveCoroId := if bFlag = true ∧ s.terminal = false
          then s.needActiveCoroId ++ [c.uid] else s.needActiveCoroId } := by
  have huid := h.lookup_uid ⟨k, hc⟩
  have hnoted : (if bFlag then s.putbyself c.uid else s) = { s with
      needActiveCoroId := if bFlag = true ∧ s.terminal = false then s.needActiveCoroId ++ [c.uid]
        else s.needActiveCoroId } := by
    by_cases hnote : bFlag = true ∧ s.terminal = false
    · rw [if_pos hnote, if_pos hnote.1, putbyself, hnote.2]
      rfl
    · rw [if_neg hnote]
      cases bFlag with
      | false => rfl
      | true =>
        have hterminal : s.terminal = true := by simpa using hnote
        rw [if_pos rfl, putbyself, if_pos hterminal]
  have hself : ∀ i ∈ (if bFlag = true ∧ s.terminal = false then s.needActiveCoroId ++ [c.uid]
      else s.needActiveCoroId), (s.lookup i).isSome := by
    intro i hi
    split at hi
    · rcases List.mem_append.mp hi with hold | hnew
      · exact h.self i hold
      · exact List.mem_singleton.mp hnew ▸ huid
    · exact h.self i hi
  obtain ⟨s', hpark, hsound, hagenda⟩ :=
    (h.of_waiting s.terminal s.currentCoro s.nextNode hself h.queue h.timers).park hc hk
      (.inl rfl)
  refine ⟨s', ?_, hsound, hagenda⟩
  rw [CoroutineScheduler.yield, hnoted]
  exact hpark

/-- The nodes of a multimap after an insertion are the old ones and the new one, wherever it was
put. -/
theorem mem_insertTimeout {node n : TimeoutNode} {l : List TimeoutNode} :
    n ∈ insertTimeout node l ↔ n = node ∨ n ∈ l := List.mem_orderedInsert _

/-- `sleep` takes the running coroutine to `_timeout` and leaves a node with its id. -/
theorem Sound.sleep {k : CoroStatus} (h : Sound intact s lists) (hc : c ∈ lists k)
    (hk : k = .active ∨ k = .avail) (iSleepTime : Int32) (iNow : ℤ) :
    ∃ s', s.sleep c iSleepTime iNow = some s' ∧
      Sound intact s' (append (remove lists k c) .timeout c) ∧
      s'.agenda = { s.agenda with
        currentCoro := none
        timeoutCoroId :=
          insertTimeout ⟨s.nextNode, iNow + sleepTime iSleepTime, c.uid⟩ s.timeoutCoroId
        nextNode := s.nextNode + 1 } := by
  have huid := h.lookup_uid ⟨k, hc⟩
  have htimers : ∀ n ∈ insertTimeout ⟨s.nextNode, iNow + sleepTime iSleepTime, c.uid⟩
      s.timeoutCoroId, (s.lookup n.coroId).isSome := by
    intro n hn
    rcases mem_insertTimeout.mp hn with rfl | hold
    · exact huid
    · exact h.timers n hold
  exact (h.of_waiting s.terminal s.currentCoro (s.nextNode + 1) h.self h.queue htimers).park hc hk
    (.inr rfl)

/-- A body that ends takes its coroutine to `_free`. -/
theorem Sound.finish {k : CoroStatus} (h : Sound intact s lists) (hc : c ∈ lists k)
    (hk : k = .active ∨ k = .avail) :
    ∃ s', s.finish c = some s' ∧ Sound intact s' (append (remove lists k c) .free c) ∧
      s'.agenda = { s.agenda with currentCoro := none } := by
  have hon : ∃ k, c ∈ lists k := ⟨k, hc⟩
  have hstatus := h.arranged.status k c hc
  have hsource : s.status c ∈ [CoroStatus.active, .avail, .inactive, .timeout] := by
    rw [hstatus]
    rcases hk with rfl | rfl <;> decide
  have hne : s.status c ≠ .free := by
    rw [hstatus]
    rcases hk with rfl | rfl <;> decide
  obtain ⟨hused, hfree⟩ := used_moved_to_free h.arranged hon hne
  have husedSize := h.used
  have htotal := h.total
  have hsize := h.size
  have hgiven := h.given
  have hbound := h.bound
  have hdec : uint32Sub s.usedSize 1 = s.usedSize - 1 := by
    unfold uint32Sub
    omega
  obtain ⟨links, hmove, harranged⟩ := Arranged.moveTo
    (h.arranged.congr (t := { s with usedSize := s.usedSize - 1 }) rfl rfl) hon hsource
    .free
  have hlists : moved s lists .free c = append (remove lists k c) .free c := by
    rw [moved, hstatus]
  have hlists' : moved { s with usedSize := s.usedSize - 1 } lists .free c =
      append (remove lists k c) .free c := hlists
  rw [hlists] at hused hfree
  rw [hlists'] at harranged
  have hfinish : s.finish c = (CoroutineScheduler.moveTo [.active, .avail, .inactive, .timeout]
      .free { s with usedSize := s.usedSize - 1 } c).map switchToMain := by
    rw [CoroutineScheduler.finish, hdec]
    rfl
  rw [hmove, Option.map_some] at hfinish
  refine ⟨_, hfinish,
    ⟨harranged.congr rfl rfl, h.slots, ?_, ?_, h.given, h.exact, h.size, h.bound, ?_, ?_,
      h.self, h.queue, h.timers⟩, rfl⟩
  · intro i d
    rw [← hlists, h.arranged.exists_mem_moved_iff hon]
    exact h.lookup i d
  · intro d
    rw [← hlists, h.arranged.exists_mem_moved_iff hon]
    exact h.pool d
  · show s.usedSize - 1 = CoroutineScheduler.used (append (remove lists k c) .free c)
    omega
  · show CoroutineScheduler.used (append (remove lists k c) .free c) +
      (append (remove lists k c) .free c .free).length = s.currentSize
    omega

/-! ### The wake functions -/

/-- The statuses that `moveToActive` accepts are those of the lists that a coroutine waits on. -/
private theorem suspended_ne :
    CoroStatus.active ∉ [CoroStatus.inactive, .timeout] ∧
      CoroStatus.free ∉ [CoroStatus.inactive, .timeout] ∧ CoroStatus.active ≠ .free := by
  decide

/-- `wakeupbytimeout` wakes the coroutines of the nodes that are due, and erases these nodes. -/
theorem Sound.wakeupbytimeout (h : Sound intact s lists) (hrun : s.terminal = false) (iNow : ℤ) :
    ∃ s' lists' ws,
      s.wakeupbytimeout iNow = some (s', ws.map fun w => .woken w.1 w.2) ∧ Sound intact s' lists' ∧
      Woken s.generation [.inactive, .timeout] .active (s.due iNow) s.status lists ws s'.status
        lists' ∧
      s'.agenda = { s.agenda with
        timeoutCoroId := s.timeoutCoroId.dropWhile (fun n => n.deadline ≤ iNow) } := by
  have hitems : ∀ p ∈ s.due iNow, (s.lookup p.1).isSome := by
    intro p hp
    obtain ⟨n, hn, rfl⟩ := List.mem_map.mp hp
    exact h.timers n ((List.takeWhile_subset _) hn)
  obtain ⟨hne, hfree, htarget⟩ := suspended_ne
  obtain ⟨links, status, lists', ws, hloop, hsound, hwoken⟩ :=
    h.wakeLoop_woken hne hfree htarget hitems
  refine ⟨_, lists', ws, ?_,
    hsound.of_waiting s.terminal s.currentCoro s.nextNode h.self h.queue ?_, hwoken, rfl⟩
  · rw [CoroutineScheduler.wakeupbytimeout, if_neg (by simp [hrun]), moveToActive, hloop]
  · intro n hn
    exact h.timers n ((List.dropWhile_subset _) hn)

/-- `wakeupbyself` wakes the coroutines that noted themselves: they go from `_inactive` to `_avail`.
-/
theorem Sound.wakeupbyself (h : Sound intact s lists) (hrun : s.terminal = false) :
    ∃ s' lists' ws,
      s.wakeupbyself = some (s', ws.map fun w => .woken w.1 w.2) ∧ Sound intact s' lists' ∧
      Woken s.generation [.inactive] .avail (s.needActiveCoroId.map fun iId => (iId, .self))
        s.status lists ws s'.status lists' ∧
      s'.agenda = { s.agenda with needActiveCoroId := [] } := by
  have hitems : ∀ p ∈ s.needActiveCoroId.map (fun iId => (iId, WakeCause.self)),
      (s.lookup p.1).isSome := by
    intro p hp
    obtain ⟨i, hi, rfl⟩ := List.mem_map.mp hp
    exact h.self i hi
  obtain ⟨links, status, lists', ws, hloop, hsound, hwoken⟩ :=
    h.wakeLoop_woken (show CoroStatus.avail ∉ [CoroStatus.inactive] by decide) (by decide)
      (by decide) hitems
  refine ⟨_, lists', ws, ?_,
    hsound.of_waiting s.terminal s.currentCoro s.nextNode ?_ h.queue h.timers, hwoken, rfl⟩
  · rw [CoroutineScheduler.wakeupbyself, if_neg (by simp [hrun]), moveToAvail, hloop]
  · intro i hi
    cases hi

/-- `wakeup` wakes the coroutines that were put: they go from `_inactive` and `_timeout` to
`_active`. -/
theorem Sound.wakeup (h : Sound intact s lists) (hrun : s.terminal = false) :
    ∃ s' lists' ws,
      s.wakeup = some (s', ws.map fun w => .woken w.1 w.2) ∧ Sound intact s' lists' ∧
      Woken s.generation [.inactive, .timeout] .active
        (s.activeCoroQueue.map fun iId => (iId, .put)) s.status lists ws s'.status lists' ∧
      s'.agenda = { s.agenda with activeCoroQueue := [] } := by
  have hitems : ∀ p ∈ s.activeCoroQueue.map (fun iId => (iId, WakeCause.put)),
      (s.lookup p.1).isSome := by
    intro p hp
    obtain ⟨i, hi, rfl⟩ := List.mem_map.mp hp
    exact h.queue i hi
  have hempty : ∀ i ∈ ([] : List ℕ), (s.lookup i).isSome := by
    intro i hi
    cases hi
  obtain ⟨hne, hfree, htarget⟩ := suspended_ne
  obtain ⟨links, status, lists', ws, hloop, hsound, hwoken⟩ :=
    (h.of_waiting s.terminal s.currentCoro s.nextNode h.self hempty h.timers).wakeLoop_woken
      hne hfree htarget hitems
  refine ⟨_, lists', ws, ?_, hsound, hwoken, rfl⟩
  rw [CoroutineScheduler.wakeup, if_neg (by simp [hrun])]
  exact hloop

/-! ### The start -/

/-- The heads of the constructor stand for empty lists. -/
theorem represents_new : Represents new.links (fun _ => []) := by
  apply Represents.empty
  intro k
  cases k <;> exact ⟨rfl, rfl⟩

/-- The constructor, with a pool of some size and no coroutines yet. -/
theorem sound_empty {poolSize : ℕ} (hbound : poolSize + 1 < 2 ^ 32) (generation : ℕ) :
    Sound intact { new with
      poolSize
      allCoro := List.replicate (poolSize + 1) none
      generation } (fun _ => []) := by
  have hnone {α : Type} {i : α} : i ∉ ([] : List α) := List.not_mem_nil
  refine ⟨⟨represents_new, fun _ _ hc => absurd hc hnone⟩, by simp, ?_, ?_, Nat.le_refl 0,
    fun _ => rfl, Nat.zero_le _, hbound, rfl, rfl, fun _ hi => absurd hi hnone,
    fun _ hi => absurd hi hnone, fun _ hi => absurd hi hnone⟩
  · intro i c
    have hlookup : ((List.replicate (poolSize + 1) (none : Option CoroutineInfo))[i]?).join =
        none := by
      rw [List.getElem?_replicate]
      split <;> rfl
    constructor
    · intro hfound
      exact absurd (hlookup.symm.trans hfound) (by simp)
    · rintro ⟨-, k, hk⟩
      cases hk
  · rintro c ⟨k, hk⟩
    cases hk

/-- **`init`** of a new scheduler leads to a sound state, whatever allocations fail. -/
theorem Sound.init {iPoolSize : UInt32} {alloc : ℕ → Bool} {s : CoroutineScheduler}
    (hinit : new.init iPoolSize alloc = some s) :
    ∃ lists generation, Sound intact s lists ∧ (∀ k, k ≠ .free → lists k = []) ∧
      s.agenda = { new.agenda with
        generation, poolSize := if iPoolSize = 0 then 1000 else iPoolSize.toNat } := by
  rw [CoroutineScheduler.init] at hinit
  split at hinit
  · rename_i hzero
    obtain rfl := Option.some.inj hinit
    exact ⟨_, 0, sound_empty (by decide) 0, fun _ _ => rfl, by rw [if_pos hzero]; rfl⟩
  · rename_i hzero
    split at hinit
    · cases hinit
    · rename_i hroom
      have hlt := iPoolSize.toNat_lt
      have hbound : iPoolSize.toNat + 1 < 2 ^ 32 := by
        by_contra hfull
        have hwrap : iPoolSize.toNat + 1 = 2 ^ 32 := by omega
        rw [hwrap] at hroom
        omega
      generalize hrounds :
        (if iPoolSize.toNat ≤ 100 then iPoolSize.toNat else 100) = rounds at hinit
      have hle : successes alloc rounds 0 ≤ iPoolSize.toNat := by
        have hsucc := successes_le alloc rounds 0
        split at hrounds <;> omega
      have hempty : Sound intact { new with
          poolSize := iPoolSize.toNat
          allCoro := List.replicate (iPoolSize.toNat + 1) none
          generation := 1 } (fun _ => []) := sound_empty hbound 1
      obtain ⟨links, status, allCoro, hadd, hsound⟩ :=
        hempty.addCoros (n := successes alloc rounds 0)
          (show 0 + _ ≤ iPoolSize.toNat by omega)
      dsimp only at hinit
      rw [initLoop_eq, show CoroutineScheduler.addCoros (successes alloc rounds 0) { new with
        terminal := false
        poolSize := iPoolSize.toNat
        allCoro := List.replicate (iPoolSize.toNat + 1) none
        usedSize := 0
        uniqId := 0
        generation := new.generation + 1 } = _ from hadd] at hinit
      obtain rfl := Option.some.inj hinit
      exact ⟨_, 1, hsound.of_waiting _ _ _ hsound.self hsound.queue hsound.timers,
        fun k hk => stock_of_ne hk _, by rw [if_neg hzero]; rfl⟩

end CoroutineScheduler

end Tars
