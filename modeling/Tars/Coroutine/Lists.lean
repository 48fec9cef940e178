import Tars.Coroutine.Scheduler

/-!
# The lists of the coroutine scheduler

`Arranged` says which five lists the links stand for and that every status names the list of
its coroutine. The moves keep such an arrangement and change the lists as their names say, and
growing the pool puts the new coroutines at the end of the free list.
-/

namespace Tars

open Rings

namespace CoroutineScheduler

/-- The links of the scheduler stand for these lists, and the status of a coroutine that is on
a list names it. -/
structure Arranged (s : CoroutineScheduler) (lists : CoroStatus → List CoroutineInfo) :
    Prop where
  /-- The links stand for the lists. -/
  represents : Represents s.links lists
  /-- The status of a coroutine names its list. -/
  status : ∀ k c, c ∈ lists k → s.status c = k

variable {s : CoroutineScheduler} {lists : CoroStatus → List CoroutineInfo}
  {c : CoroutineInfo} {sources : List CoroStatus} {target : CoroStatus}

/-- The lists after a coroutine left the list of its status for the end of another one. -/
def moved (s : CoroutineScheduler) (lists : CoroStatus → List CoroutineInfo)
    (target : CoroStatus) (c : CoroutineInfo) : CoroStatus → List CoroutineInfo :=
  append (remove lists (s.status c) c) target c

namespace Arranged

/-- A coroutine that is on some list is on the list of its status. -/
theorem mem_status (h : Arranged s lists) (hc : ∃ k, c ∈ lists k) : c ∈ lists (s.status c) := by
  obtain ⟨k, hk⟩ := hc
  rwa [h.status k c hk]

/-- Only the links and the statuses matter for the lists, so all other members may change. -/
theorem congr {t : CoroutineScheduler} (h : Arranged s lists) (hlinks : t.links = s.links)
    (hstatus : t.status = s.status) : Arranged t lists :=
  ⟨hlinks ▸ h.represents, hstatus ▸ h.status⟩

/-- The emptiness test of a list head reads one link, and it is right about the whole list. -/
theorem headEmpty_iff (h : Arranged s lists) (k : CoroStatus) :
    s.headEmpty k = true ↔ lists k = [] := h.represents.headEmpty_iff k

/-- A list that is not empty has a first coroutine. -/
theorem exists_cons (h : Arranged s lists) {k : CoroStatus} (hempty : ¬s.headEmpty k = true) :
    ∃ c rest, lists k = c :: rest := by
  apply List.exists_cons_of_ne_nil
  intro hnil
  exact hempty ((h.headEmpty_iff k).mpr hnil)

/-- Unlinking a coroutine and linking it in at the end of another list. -/
theorem relink (h : Arranged s lists) (hc : ∃ k, c ∈ lists k) (target : CoroStatus) :
    ∃ links links', s.links.del (.inr c) = some links ∧
      links.addTail (.inr c) (.inl target) = some links' ∧
      Represents links' (moved s lists target c) := by
  have hmem := h.mem_status hc
  obtain ⟨links, hdel, hremoved⟩ := h.represents.del hmem
  have hout (j : CoroStatus) : c ∉ remove lists (s.status c) c j := by
    rw [h.represents.mem_remove_iff hmem]
    simp
  obtain ⟨links', hadd, hmoved⟩ := hremoved.addTail hout target
  exact ⟨links, links', hdel, hadd, hmoved⟩

/-- The coroutines on a list after a move: the moved one is on its target alone, and the others
stay. -/
theorem mem_moved_iff (h : Arranged s lists) (hc : ∃ k, c ∈ lists k) {j : CoroStatus}
    {d : CoroutineInfo} :
    d ∈ moved s lists target c j ↔ d ∈ lists j ∧ d ≠ c ∨ j = target ∧ d = c := by
  rw [moved, mem_append_iff, h.represents.mem_remove_iff (h.mem_status hc)]

/-- Statuses name lists after a move as well, since the status is written together with the links.
-/
theorem status_moved (h : Arranged s lists) (hc : ∃ k, c ∈ lists k) (k : CoroStatus)
    (d : CoroutineInfo) (hd : d ∈ moved s lists target c k) :
    Function.update s.status c target d = k := by
  rcases (h.mem_moved_iff hc).mp hd with ⟨hold, hne⟩ | ⟨rfl, rfl⟩
  · rw [Function.update_of_ne hne]
    exact h.status k d hold
  · rw [Function.update_self]

/-- A move does not change who is on some list. -/
theorem exists_mem_moved_iff (h : Arranged s lists) (hc : ∃ k, c ∈ lists k)
    {d : CoroutineInfo} : (∃ k, d ∈ moved s lists target c k) ↔ ∃ k, d ∈ lists k := by
  constructor
  · rintro ⟨k, hk⟩
    rcases (h.mem_moved_iff hc).mp hk with ⟨hold, -⟩ | ⟨-, rfl⟩
    · exact ⟨k, hold⟩
    · exact hc
  · rintro ⟨k, hk⟩
    by_cases hd : d = c
    · exact ⟨target, (h.mem_moved_iff hc).mpr (.inr ⟨rfl, hd⟩)⟩
    · exact ⟨k, (h.mem_moved_iff hc).mpr (.inl ⟨hk, hd⟩)⟩

/-- **A move.** A coroutine whose status is among the sources goes to the end of the target
list; nothing but links and statuses changes. -/
theorem moveTo (h : Arranged s lists) (hc : ∃ k, c ∈ lists k) (hsource : s.status c ∈ sources)
    (target : CoroStatus) :
    ∃ links, s.moveTo sources target c =
        some { s with links, status := Function.update s.status c target } ∧
      Arranged { s with links, status := Function.update s.status c target }
        (moved s lists target c) := by
  obtain ⟨links, links', hdel, hadd, hmoved⟩ := h.relink hc target
  refine ⟨links', ?_, hmoved, h.status_moved hc⟩
  simp only [CoroutineScheduler.moveTo, if_pos hsource, hdel, hadd]

end Arranged

/-- A coroutine whose status is not among the sources stays where it is. -/
theorem moveTo_of_notMem (hsource : s.status c ∉ sources) :
    s.moveTo sources target c = some s := if_neg hsource

/-- The number of coroutines that are on a list other than `_free`. -/
def used (lists : CoroStatus → List CoroutineInfo) : ℕ :=
  (lists .active).length + (lists .avail).length + (lists .inactive).length +
    (lists .timeout).length

/-- The length of a list after a move away from another one. -/
theorem length_moved (h : Arranged s lists) (hc : ∃ k, c ∈ lists k) (hne : s.status c ≠ target)
    (k : CoroStatus) :
    (moved s lists target c k).length + (if k = s.status c then 1 else 0) =
      (lists k).length + if k = target then 1 else 0 := by
  have hmem := h.mem_status hc
  rw [moved]
  by_cases hk : k = target
  · subst hk
    rw [append_self, remove_of_ne (Ne.symm hne), if_neg (Ne.symm hne), if_pos rfl]
    simp
  · rw [append_of_ne hk, if_neg hk]
    by_cases hs : k = s.status c
    · have hpos : 0 < (lists (s.status c)).length := List.length_pos_of_mem hmem
      subst hs
      rw [remove_self, if_pos rfl, List.length_erase_of_mem hmem]
      omega
    · rw [remove_of_ne hs, if_neg hs]

/-- The number of coroutines that are not free after a move. -/
theorem used_moved_add (h : Arranged s lists) (hc : ∃ k, c ∈ lists k) (hne : s.status c ≠ target) :
    used (moved s lists target c) + (if s.status c = .free then 0 else 1) =
      used lists + if target = .free then 0 else 1 := by
  have hlength := length_moved h hc hne
  have hactive := hlength .active
  have havail := hlength .avail
  have hinactive := hlength .inactive
  have htimeout := hlength .timeout
  unfold used
  cases hs : s.status c <;> cases target <;> simp_all <;> omega

/-- Moves among the other lists keep the number of coroutines that are not free. -/
theorem used_moved (h : Arranged s lists) (hc : ∃ k, c ∈ lists k) (hne : s.status c ≠ target)
    (hsource : s.status c ≠ .free) (htarget : target ≠ .free) :
    used (moved s lists target c) = used lists ∧
      (moved s lists target c .free).length = (lists .free).length := by
  have hused := used_moved_add h hc hne
  have hfree := length_moved h hc hne .free
  rw [if_neg hsource, if_neg htarget] at hused
  rw [if_neg (Ne.symm hsource), if_neg (Ne.symm htarget)] at hfree
  exact ⟨by omega, by omega⟩

/-- A free coroutine that leaves `_free` is one more in use. -/
theorem used_moved_of_free (h : Arranged s lists) (hc : ∃ k, c ∈ lists k)
    (hsource : s.status c = .free) (htarget : target ≠ .free) :
    used (moved s lists target c) = used lists + 1 ∧
      (moved s lists target c .free).length + 1 = (lists .free).length := by
  have hne : s.status c ≠ target := by
    rw [hsource]
    exact Ne.symm htarget
  have hused := used_moved_add h hc hne
  have hfree := length_moved h hc hne .free
  rw [if_pos hsource, if_neg htarget] at hused
  rw [if_pos hsource.symm, if_neg (Ne.symm htarget)] at hfree
  exact ⟨hused, hfree⟩

/-- A coroutine that becomes free is one less in use. -/
theorem used_moved_to_free (h : Arranged s lists) (hc : ∃ k, c ∈ lists k)
    (hsource : s.status c ≠ .free) :
    used (moved s lists .free c) + 1 = used lists ∧
      (moved s lists .free c .free).length = (lists .free).length + 1 := by
  have hused := used_moved_add h hc hsource
  have hfree := length_moved h hc hsource .free
  rw [if_neg hsource, if_pos rfl] at hused
  rw [if_neg (Ne.symm hsource), if_pos rfl] at hfree
  exact ⟨hused, hfree⟩

/-! ### Growing the pool -/

/-- What growing needs: the arrangement, objects that were all made before, and an array with
a slot for every id. -/
structure Stocked (s : CoroutineScheduler) (lists : CoroStatus → List CoroutineInfo) :
    Prop where
  /-- The lists. -/
  arranged : Arranged s lists
  /-- The coroutine with the next id does not exist yet. -/
  fresh : ∀ k c, c ∈ lists k →
    c.generation < s.generation ∨ c.generation = s.generation ∧ c.uid ≤ s.uniqId
  /-- The array has the slots `0` to `_poolSize`. -/
  slots : s.allCoro.length = s.poolSize + 1
  /-- The number of slots was computed without overflow. -/
  bound : s.poolSize + 1 < 2 ^ 32

/-- The next `n` ids of a generation, as a growing loop gives them out. -/
def nextCoros (generation uniqId n : ℕ) : List CoroutineInfo :=
  (List.range' (uniqId + 1) n).map (CoroutineInfo.mk generation)

/-- The lists after new coroutines were put at the end of `_free`. -/
def stock (lists : CoroStatus → List CoroutineInfo) (cs : List CoroutineInfo) :
    CoroStatus → List CoroutineInfo :=
  Function.update lists .free (lists .free ++ cs)

/-- The coroutines that `nextCoros` lists have the next identifiers, in this generation. -/
theorem mem_nextCoros {generation uniqId n : ℕ} :
    c ∈ nextCoros generation uniqId n ↔
      c.generation = generation ∧ uniqId < c.uid ∧ c.uid ≤ uniqId + n := by
  rw [nextCoros, List.mem_map]
  constructor
  · rintro ⟨i, hi, rfl⟩
    rw [List.mem_range'_1] at hi
    refine ⟨rfl, ?_, ?_⟩
    · show uniqId < i
      omega
    · show i ≤ uniqId + n
      omega
  · rintro ⟨rfl, hlo, hhi⟩
    refine ⟨c.uid, ?_, rfl⟩
    rw [List.mem_range'_1]
    omega

@[simp] theorem length_nextCoros (generation uniqId n : ℕ) :
    (nextCoros generation uniqId n).length = n := by
  simp [nextCoros]

theorem nextCoros_succ (generation uniqId n : ℕ) :
    nextCoros generation uniqId (n + 1) =
      ⟨generation, uniqId + 1⟩ :: nextCoros generation (uniqId + 1) n := by
  rw [nextCoros, List.range'_succ, List.map_cons]
  rfl

@[simp] theorem stock_free (lists : CoroStatus → List CoroutineInfo) (cs : List CoroutineInfo) :
    stock lists cs .free = lists .free ++ cs := by
  rw [stock, Function.update_self]

theorem stock_of_ne {k : CoroStatus} (h : k ≠ .free) (cs : List CoroutineInfo) :
    stock lists cs k = lists k := by
  rw [stock, Function.update_of_ne h]

/-- Putting one coroutine and then others is putting them all. -/
theorem stock_append (cs : List CoroutineInfo) :
    stock (append lists .free c) cs = stock lists (c :: cs) := by
  funext k
  by_cases hk : k = .free
  · subst hk
    simp
  · rw [stock_of_ne hk, stock_of_ne hk, append_of_ne hk]

/-- Who is on some list after new coroutines were added. -/
theorem exists_mem_stock_iff {cs : List CoroutineInfo} {d : CoroutineInfo} :
    (∃ k, d ∈ stock lists cs k) ↔ (∃ k, d ∈ lists k) ∨ d ∈ cs := by
  constructor
  · rintro ⟨k, hk⟩
    by_cases hfree : k = .free
    · subst hfree
      rw [stock_free, List.mem_append] at hk
      exact hk.imp_left fun hold => ⟨.free, hold⟩
    · rw [stock_of_ne hfree] at hk
      exact .inl ⟨k, hk⟩
  · rintro (⟨k, hk⟩ | hnew)
    · refine ⟨k, ?_⟩
      by_cases hfree : k = .free
      · subst hfree
        rw [stock_free]
        exact List.mem_append_left _ hk
      · rwa [stock_of_ne hfree]
    · refine ⟨.free, ?_⟩
      rw [stock_free]
      exact List.mem_append_right _ hnew

/-- The rounds of either growing loop whose allocation succeeds: generate an id and add the
coroutine. -/
def addCoros : ℕ → CoroutineScheduler → Option CoroutineScheduler
  | 0, s => some s
  | n + 1, s =>
    match s.generateId with
    | none => none
    | some (s, iId) =>
      match s.addFree iId with
      | none => none
      | some s => addCoros n s

/-- The number of rounds of a growing loop before an allocation fails. -/
def successes (alloc : ℕ → Bool) : ℕ → ℕ → ℕ
  | 0, _ => 0
  | rounds + 1, iSucc => if alloc iSucc then successes alloc rounds (iSucc + 1) + 1 else 0

theorem successes_le (alloc : ℕ → Bool) (rounds iSucc : ℕ) :
    successes alloc rounds iSucc ≤ rounds := by
  induction rounds generalizing iSucc with
  | zero => exact Nat.le_refl 0
  | succ rounds ih =>
    rw [successes]
    split
    · exact Nat.succ_le_succ (ih (iSucc + 1))
    · exact Nat.zero_le _

/-- All rounds are made exactly when no allocation fails. -/
theorem successes_eq_iff {alloc : ℕ → Bool} {rounds iSucc : ℕ} :
    successes alloc rounds iSucc = rounds ↔ ∀ i < rounds, alloc (iSucc + i) = true := by
  induction rounds generalizing iSucc with
  | zero => simp [successes]
  | succ rounds ih =>
    rw [successes]
    constructor
    · intro h i hi
      by_cases hnow : alloc iSucc = true
      · rw [if_pos hnow, Nat.add_right_cancel_iff, ih] at h
        cases i with
        | zero => exact hnow
        | succ i =>
          rw [show iSucc + (i + 1) = iSucc + 1 + i by omega]
          exact h i (by omega)
      · rw [if_neg hnow] at h
        omega
    · intro h
      have hnow : alloc iSucc = true := h 0 (Nat.succ_pos _)
      rw [if_pos hnow, Nat.add_right_cancel_iff, ih]
      intro i hi
      rw [show iSucc + 1 + i = iSucc + (i + 1) by omega]
      exact h (i + 1) (by omega)

/-- How many coroutines a call of `increaseCoroPoolSize` tries to add. -/
theorem increase_rounds (hsize : s.currentSize ≤ s.poolSize) (hbound : s.poolSize + 1 < 2 ^ 32) :
    (if uint32Sub s.poolSize s.currentSize > 100 then 100
      else uint32Sub s.poolSize s.currentSize) = min 100 (s.poolSize - s.currentSize) := by
  have hroom : uint32Sub s.poolSize s.currentSize = s.poolSize - s.currentSize := by
    unfold uint32Sub
    omega
  rw [hroom]
  split <;> omega

/-- The loop of `init` adds a coroutine for every allocation before the first failure. -/
theorem initLoop_eq (alloc : ℕ → Bool) (rounds iSucc : ℕ) (s : CoroutineScheduler) :
    initLoop alloc rounds iSucc s =
      (addCoros (successes alloc rounds iSucc) s).map
        fun s => (s, iSucc + successes alloc rounds iSucc) := by
  induction rounds generalizing iSucc s with
  | zero => rfl
  | succ rounds ih =>
    rw [initLoop, successes]
    split
    · rw [addCoros]
      cases hid : s.generateId with
      | none => rfl
      | some next =>
        obtain ⟨s', iId⟩ := next
        cases hadd : s'.addFree iId with
        | none => simp only [hadd, Option.map_none]
        | some t =>
          simp only [hadd, ih]
          congr 2
          funext u
          congr 1
          omega
    · rfl

/-- The loop of `increaseCoroPoolSize` does the same, but a failure has used up an id. -/
theorem increaseLoop_eq (alloc : ℕ → Bool) (rounds iSucc : ℕ) (s : CoroutineScheduler) :
    increaseLoop alloc rounds iSucc s =
      (addCoros (successes alloc rounds iSucc) s).bind fun s =>
        if successes alloc rounds iSucc = rounds then some (s, iSucc + rounds)
        else s.generateId.map fun next => (next.1, iSucc + successes alloc rounds iSucc) := by
  induction rounds generalizing iSucc s with
  | zero => rfl
  | succ rounds ih =>
    rw [increaseLoop, successes]
    by_cases hnow : alloc iSucc = true
    · simp only [if_pos hnow]
      rw [addCoros]
      cases hid : s.generateId with
      | none => rfl
      | some next =>
        obtain ⟨s', iId⟩ := next
        cases hadd : s'.addFree iId with
        | none => simp only [hadd, Option.bind_none]
        | some t =>
          simp only [hadd, ih, Nat.add_right_cancel_iff]
          congr 1
          funext u
          split
          · congr 2
            omega
          · congr 1
            funext next
            congr 1
            omega
    · simp only [if_neg hnow, addCoros, Option.bind_some]
      rw [if_neg (by omega)]
      cases hid : s.generateId <;> rfl

/-- The next id below the size of the pool. -/
theorem generateId_eq (h : s.uniqId < s.poolSize) (hbound : s.poolSize + 1 < 2 ^ 32) :
    s.generateId = some ({ s with uniqId := s.uniqId + 1 }, s.uniqId + 1) := by
  have hmod : (s.uniqId + 1) % 2 ^ 32 = s.uniqId + 1 := Nat.mod_eq_of_lt (by omega)
  simp only [generateId, hmod, if_neg (Nat.succ_ne_zero _), if_pos (Nat.succ_le_of_lt h)]

/-- An id is generated only while there are slots left. -/
theorem generateId_room {next : CoroutineScheduler × ℕ} (hsize : s.uniqId ≤ s.poolSize)
    (hbound : s.poolSize + 1 < 2 ^ 32) (hid : s.generateId = some next) :
    s.uniqId < s.poolSize := by
  by_contra hfull
  have hmod : (s.uniqId + 1) % 2 ^ 32 = s.uniqId + 1 := Nat.mod_eq_of_lt (by omega)
  simp only [generateId, hmod, if_neg (Nat.succ_ne_zero _)] at hid
  rw [if_neg (by omega)] at hid
  cases hid

/-- One successful round of a growing loop, which links a new coroutine into `_free` under the next
id. -/
theorem Stocked.addFree (h : Stocked s lists) (hroom : s.uniqId < s.poolSize) :
    ∃ links, CoroutineScheduler.addFree { s with uniqId := s.uniqId + 1 } (s.uniqId + 1) =
        some { s with
          uniqId := s.uniqId + 1
          links
          status := Function.update s.status ⟨s.generation, s.uniqId + 1⟩ .free
          allCoro := s.allCoro.set (s.uniqId + 1) (some ⟨s.generation, s.uniqId + 1⟩) } ∧
      Stocked { s with
          uniqId := s.uniqId + 1
          links
          status := Function.update s.status ⟨s.generation, s.uniqId + 1⟩ .free
          allCoro := s.allCoro.set (s.uniqId + 1) (some ⟨s.generation, s.uniqId + 1⟩) }
        (append lists .free ⟨s.generation, s.uniqId + 1⟩) := by
  have hslot : s.uniqId + 1 < s.allCoro.length := by
    rw [h.slots]
    omega
  have hnew (j : CoroStatus) : (⟨s.generation, s.uniqId + 1⟩ : CoroutineInfo) ∉ lists j := by
    intro hmem
    have := h.fresh j _ hmem
    simp only at this
    omega
  obtain ⟨links, hadd, hrep⟩ := h.arranged.represents.addTail hnew .free
  refine ⟨links, ?_, ⟨hrep, ?_⟩, ?_, by simpa using h.slots, h.bound⟩
  · simp only [CoroutineScheduler.addFree, if_pos hslot, hadd]
  · intro k c hc
    rcases mem_append_iff.mp hc with hold | ⟨rfl, rfl⟩
    · have hne : c ≠ ⟨s.generation, s.uniqId + 1⟩ := by
        rintro rfl
        exact hnew k hold
      exact (Function.update_of_ne hne _ _).trans (h.arranged.status k c hold)
    · exact Function.update_self _ _ _
  · intro k c hc
    rcases mem_append_iff.mp hc with hold | ⟨-, rfl⟩
    · rcases h.fresh k c hold with hgen | ⟨hgen, huid⟩
      · exact .inl hgen
      · exact .inr ⟨hgen, Nat.le_succ_of_le huid⟩
    · exact .inr ⟨rfl, Nat.le_refl _⟩

/-- **Growing.** While there are ids left, the new coroutines enter the array at their ids and
the end of `_free`. -/
theorem Stocked.addCoros {n : ℕ} (h : Stocked s lists) (hroom : s.uniqId + n ≤ s.poolSize) :
    ∃ links status allCoro,
      addCoros n s = some { s with uniqId := s.uniqId + n, links, status, allCoro } ∧
      Stocked { s with uniqId := s.uniqId + n, links, status, allCoro }
        (stock lists (nextCoros s.generation s.uniqId n)) ∧
      ∀ i, allCoro[i]? = if s.uniqId < i ∧ i ≤ s.uniqId + n then some (some ⟨s.generation, i⟩)
        else s.allCoro[i]? := by
  induction n generalizing s lists with
  | zero =>
    refine ⟨s.links, s.status, s.allCoro, rfl, ?_, ?_⟩
    · have hnone : stock lists (nextCoros s.generation s.uniqId 0) = lists := by
        simp [stock, nextCoros]
      rw [hnone]
      exact h
    · intro i
      rw [if_neg (by omega)]
  | succ n ih =>
    obtain ⟨links, hadd, hone⟩ := h.addFree (by omega)
    obtain ⟨links', status, allCoro, hrest, hstocked, hslots⟩ := ih hone (by
      show s.uniqId + 1 + n ≤ s.poolSize
      omega)
    have hsum : s.uniqId + 1 + n = s.uniqId + (n + 1) := by omega
    refine ⟨links', status, allCoro, ?_, ?_, ?_⟩
    · rw [CoroutineScheduler.addCoros, generateId_eq (by omega) h.bound]
      simp only [hadd, hrest, hsum]
    · rw [stock_append, ← nextCoros_succ] at hstocked
      simpa only [hsum] using hstocked
    · intro i
      rw [hslots i]
      show (if s.uniqId + 1 < i ∧ i ≤ s.uniqId + 1 + n then some (some ⟨s.generation, i⟩)
        else (s.allCoro.set (s.uniqId + 1) (some ⟨s.generation, s.uniqId + 1⟩))[i]?) = _
      by_cases hi : i = s.uniqId + 1
      · subst hi
        have hslot : s.uniqId + 1 < s.allCoro.length := by
          rw [h.slots]
          omega
        rw [if_neg (by omega), if_pos (by omega), List.getElem?_set_self hslot]
      · rw [List.getElem?_set_ne (Ne.symm hi)]
        by_cases hin : s.uniqId + 1 < i ∧ i ≤ s.uniqId + 1 + n
        · rw [if_pos hin, if_pos (by omega)]
        · rw [if_neg hin, if_neg (by omega)]

/-- The rounds of a growing loop succeed only while there are slots left. -/
theorem Stocked.room {n : ℕ} {s' : CoroutineScheduler} (h : Stocked s lists)
    (hsize : s.uniqId ≤ s.poolSize) (hadd : CoroutineScheduler.addCoros n s = some s') :
    s.uniqId + n ≤ s.poolSize := by
  induction n generalizing s lists with
  | zero => exact hsize
  | succ n ih =>
    rw [CoroutineScheduler.addCoros] at hadd
    cases hid : s.generateId with
    | none =>
      rw [hid] at hadd
      cases hadd
    | some next =>
      have hroom := generateId_room hsize h.bound hid
      obtain ⟨links, hone, hstocked⟩ := h.addFree hroom
      rw [generateId_eq hroom h.bound] at hadd
      simp only [hone] at hadd
      have hrest : s.uniqId + 1 + n ≤ s.poolSize := ih hstocked hroom hadd
      omega

/-- The second half of `createCoroutine`, when a coroutine is free. -/
theorem Arranged.takeFree {rest : List CoroutineInfo} (h : Arranged s lists)
    (hfree : lists .free = c :: rest) :
    ∃ links, s.takeFree = some ({ s with
          links
          status := Function.update s.status c .avail
          usedSize := (s.usedSize + 1) % 2 ^ 32 }, c.uid) ∧
      Arranged { s with
          links
          status := Function.update s.status c .avail
          usedSize := (s.usedSize + 1) % 2 ^ 32 } (moved s lists .avail c) := by
  have hc : ∃ k, c ∈ lists k := ⟨.free, hfree ▸ List.mem_cons_self⟩
  have hnext := h.represents.next_head .free
  obtain ⟨links, links', hdel, hadd, hmoved⟩ := h.relink hc .avail
  refine ⟨links', ?_, hmoved, h.status_moved hc⟩
  simp only [CoroutineScheduler.takeFree, hnext, hfree, List.head?_cons, Option.map_some,
    Option.getD_some, hdel, hadd]

end CoroutineScheduler

end Tars
