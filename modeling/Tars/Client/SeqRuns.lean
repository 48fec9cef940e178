import Mathlib.Data.List.Perm.Basic
import Tars.Client.SeqManager
import Tars.Library.Scripts

/-!
# Runs of `get` and `del`

A caller that asks for a number only while one is free, and gives back only numbers that it has,
never violates an assertion of `SeqManager`. No number is handed out twice, and the numbers come in
the order in which they became free.
-/

namespace Tars

open Chains Scripts

/-- The calls of `SeqManager`, with the number that `del` gives back. -/
inductive SeqCall where
  /-- `get()`. -/
  | get
  /-- `del(iSeq)`. -/
  | del (iSeq : ℕ)
  deriving DecidableEq

/-- A manager with the numbers that its callers have. -/
structure SeqRun where
  /-- The manager. -/
  manager : SeqManager
  /-- The numbers that were handed out and not given back, the last one first. -/
  used : List ℕ
  deriving DecidableEq

namespace SeqManager

/-- The numbers that the links run through from `_free` on, up to the mark of the end. -/
def chain (m : SeqManager) : List ℕ := walk (link m.p) MAX_UNSIGN_SHORT m.num m.free

/-- The links run through the free numbers in the order in which they will be handed out. -/
theorem Frees.chain_eq {m : SeqManager} {l : List ℕ} (h : m.Frees l) : m.chain = l := by
  apply h.follows.walk_eq
  · intro hmem
    exact h.ne_max hmem rfl
  · have hsubset : l ⊆ List.range m.num := fun s hs => List.mem_range.mpr (h.lt_num hs)
    simpa using (List.subperm_of_subset h.nodup hsubset).length_le

/-- The list is empty exactly when both its ends are the mark of the end. -/
theorem Frees.eq_nil_iff {m : SeqManager} {l : List ℕ} (h : m.Frees l) :
    l = [] ↔ m.free = MAX_UNSIGN_SHORT ∧ m.freeTail = MAX_UNSIGN_SHORT := by
  constructor
  · rintro rfl
    exact ⟨h.follows, h.freeTail_eq⟩
  · rintro ⟨hfree, -⟩
    cases l with
    | nil => rfl
    | cons s l =>
      have hstart : m.free = s := h.follows.1
      exact absurd (hstart.symm.trans hfree) (h.ne_max List.mem_cons_self)

end SeqManager

namespace SeqRun

open SeqManager

/-- One call. It is refused where an assertion fails. -/
def step (s : SeqRun) : SeqCall → Option (SeqRun × List ℕ)
  | .get => s.manager.get.map fun (manager, iSeq) => (⟨manager, iSeq :: s.used⟩, [iSeq])
  | .del iSeq => (s.manager.del iSeq).map fun manager => (⟨manager, s.used.erase iSeq⟩, [])

/-- A call that a caller may make: there is a number left, or the number is one that it has. -/
def Allowed (iNum : ℕ) (s : SeqRun) : SeqCall → Prop
  | .get => s.used.length < iNum
  | .del iSeq => iSeq ∈ s.used

instance {iNum : ℕ} {s : SeqRun} : (call : SeqCall) → Decidable (Allowed iNum s call)
  | .get => Nat.decLt _ _
  | .del iSeq => inferInstanceAs (Decidable (iSeq ∈ s.used))

/-- The number that a call makes free: the argument of `del`, and none for `get`. -/
def freed : SeqCall → List ℕ
  | .get => []
  | .del iSeq => [iSeq]

/-- The state is sound: the links run through the free numbers, each once, and through no other
number. -/
structure Sound (iNum : ℕ) (s : SeqRun) : Prop where
  /-- The links run through numbers that are marked as free, each once, up to `_freeTail`. -/
  frees : s.manager.Frees s.manager.chain
  /-- A number is free exactly when nobody has it. -/
  mem_chain_iff : ∀ i, i ∈ s.manager.chain ↔ i < iNum ∧ i ∉ s.used
  /-- No number was handed out twice. -/
  used_nodup : s.used.Nodup
  /-- The numbers that were handed out are numbers of the manager. -/
  used_lt : ∀ i ∈ s.used, i < iNum
  /-- Without a free number, and only then, both ends are the mark of the end. -/
  chain_eq_nil_iff : s.manager.chain = [] ↔
    s.manager.free = MAX_UNSIGN_SHORT ∧ s.manager.freeTail = MAX_UNSIGN_SHORT
  /-- The manager has `iNum` numbers. -/
  num_eq : s.manager.num = iNum

variable {iNum : ℕ} {s : SeqRun}

/-- A state with a list of free numbers that nobody has is sound. -/
theorem sound_of_frees {l : List ℕ} (h : s.manager.Frees l) (hnum : s.manager.num = iNum)
    (hmem : ∀ i, i ∈ l ↔ i < iNum ∧ i ∉ s.used) (hnodup : s.used.Nodup)
    (hused : ∀ i ∈ s.used, i < iNum) : s.Sound iNum ∧ s.manager.chain = l := by
  have hchain := h.chain_eq
  exact ⟨⟨by rwa [hchain], by rwa [hchain], hnodup, hused, by rw [hchain, h.eq_nil_iff], hnum⟩,
    hchain⟩

/-- While fewer than `iNum` numbers are handed out, one is free. -/
theorem Sound.exists_free (h : s.Sound iNum) (hroom : s.used.length < iNum) :
    ∃ i l, s.manager.chain = i :: l := by
  cases hchain : s.manager.chain with
  | cons i l => exact ⟨i, l, rfl⟩
  | nil =>
    have hsubset : List.range iNum ⊆ s.used := by
      intro i hi
      by_contra hunused
      have hmem := (h.mem_chain_iff i).mpr ⟨List.mem_range.mp hi, hunused⟩
      rw [hchain] at hmem
      cases hmem
    have hle := (List.subperm_of_subset List.nodup_range hsubset).length_le
    rw [List.length_range] at hle
    omega

/-- **`get`** hands out the number that has been free for the longest time. -/
theorem Sound.get (h : s.Sound iNum) (hroom : s.used.length < iNum) :
    ∃ s' i, s.step .get = some (s', [i]) ∧ s'.Sound iNum ∧ i < iNum ∧ i ∉ s.used ∧
      s.manager.chain = i :: s'.manager.chain := by
  obtain ⟨i, l, hchain⟩ := h.exists_free hroom
  have hfrees := h.frees
  rw [hchain] at hfrees
  obtain ⟨m, hget, hnum, hnext⟩ := hfrees.get_cons
  obtain ⟨hlt, hunused⟩ := (h.mem_chain_iff i).mp (hchain ▸ List.mem_cons_self)
  have hnotin := (List.nodup_cons.mp hfrees.nodup).1
  have hsound : Sound iNum ⟨m, i :: s.used⟩ ∧ m.chain = l := by
    refine sound_of_frees hnext (hnum.trans h.num_eq) (fun j => ?_)
      (List.nodup_cons.mpr ⟨hunused, h.used_nodup⟩) ?_
    · have hj := h.mem_chain_iff j
      rw [hchain, List.mem_cons] at hj
      rw [List.mem_cons, not_or, and_left_comm, ← hj]
      constructor
      · intro hmem
        exact ⟨fun heq => hnotin (heq ▸ hmem), .inr hmem⟩
      · rintro ⟨hne, heq | hmem⟩
        · exact absurd heq hne
        · exact hmem
    · intro j hj
      obtain rfl | hj := List.mem_cons.mp hj
      · exact hlt
      · exact h.used_lt j hj
  refine ⟨⟨m, i :: s.used⟩, i, ?_, hsound.1, hlt, hunused, ?_⟩
  · rw [step, hget, Option.map_some]
  · rw [hchain, hsound.2]

/-- **`del`** makes a number free, behind all others, so the numbers are reused in turn. -/
theorem Sound.del (h : s.Sound iNum) {i : ℕ} (hused : i ∈ s.used) :
    ∃ s', s.step (.del i) = some (s', []) ∧ s'.Sound iNum ∧
      s'.manager.chain = s.manager.chain ++ [i] := by
  have hlt := h.used_lt i hused
  have hnotin : i ∉ s.manager.chain := fun hmem => ((h.mem_chain_iff i).mp hmem).2 hused
  obtain ⟨m, hdel, hnum, hnext⟩ := h.frees.del (hlt.trans_eq h.num_eq.symm) hnotin
  have hsound : Sound iNum ⟨m, s.used.erase i⟩ ∧ m.chain = s.manager.chain ++ [i] := by
    refine sound_of_frees hnext (hnum.trans h.num_eq) (fun j => ?_) (h.used_nodup.erase i) ?_
    · rw [List.mem_append, List.mem_singleton, h.mem_chain_iff, h.used_nodup.mem_erase_iff, not_and]
      constructor
      · rintro (⟨hj, hunused⟩ | rfl)
        · exact ⟨hj, fun _ => hunused⟩
        · exact ⟨hlt, fun hne => absurd rfl hne⟩
      · rintro ⟨hj, himp⟩
        by_cases hji : j = i
        · exact .inr hji
        · exact .inl ⟨hj, himp hji⟩
    · intro j hj
      exact h.used_lt j (List.mem_of_mem_erase hj)
  refine ⟨⟨m, s.used.erase i⟩, ?_, hsound.1, hsound.2⟩
  rw [step, hdel, Option.map_some]

/-- One allowed call is executed and keeps the state sound; a number that it hands out was free,
and the free numbers are a queue. -/
theorem Sound.step (h : s.Sound iNum) {call : SeqCall} (hallowed : s.Allowed iNum call) :
    ∃ s' ids, s.step call = some (s', ids) ∧ s'.Sound iNum ∧ (∀ i ∈ ids, i < iNum ∧ i ∉ s.used) ∧
      s.manager.chain ++ freed call = ids ++ s'.manager.chain := by
  cases call with
  | get =>
    obtain ⟨s', i, hstep, hsound, hlt, hunused, hchain⟩ := h.get hallowed
    refine ⟨s', [i], hstep, hsound, ?_, ?_⟩
    · intro j hj
      obtain rfl := List.mem_singleton.mp hj
      exact ⟨hlt, hunused⟩
    · rw [freed, List.append_nil, hchain, List.singleton_append]
  | del i =>
    obtain ⟨s', hstep, hsound, hchain⟩ := h.del hallowed
    refine ⟨s', [], hstep, hsound, fun j hj => absurd hj List.not_mem_nil, ?_⟩
    rw [freed, hchain, List.nil_append]

/-- A new manager is sound: all numbers are free, in ascending order, and none is in use. -/
theorem sound_new (hpos : 0 < iNum) (hlt : iNum < MAX_UNSIGN_SHORT) :
    ∃ m, new iNum = some m ∧ Sound iNum ⟨m, []⟩ ∧ m.chain = List.range iNum := by
  obtain ⟨m, hnew, hnum, hfrees⟩ := frees_new hlt hpos
  exact ⟨m, hnew, sound_of_frees hfrees hnum (fun i => by simp) List.nodup_nil fun i hi =>
    absurd hi List.not_mem_nil⟩

/-- **No number is handed out twice.** For every count that the constructor accepts, every
sequence of allowed calls is executed without a failed assertion. In all its states the links run
through the free numbers, a number that is handed out is a number of the manager that nobody has,
and the numbers are handed out in the order in which they became free. -/
theorem hands_out_distinct (iNum : ℕ) (hpos : 0 < iNum) (hlt : iNum < MAX_UNSIGN_SHORT) :
    ∃ m, new iNum = some m ∧ ∀ calls, Along step (Allowed iNum) ⟨m, []⟩ calls →
      ∃ s ids, exec step ⟨m, []⟩ calls = some (s, ids) ∧
        Always step (Sound iNum) ⟨m, []⟩ calls ∧
        Each step (fun s _ _ ids => ∀ i ∈ ids, i < iNum ∧ i ∉ s.used) ⟨m, []⟩ [] calls ∧
        List.range iNum ++ calls.flatMap freed = ids ++ s.manager.chain := by
  obtain ⟨m, hnew, hinit, hchain⟩ := sound_new hpos hlt
  refine ⟨m, hnew, fun calls halong => ?_⟩
  have hstep {s s' : SeqRun} {call : SeqCall} {ids : List ℕ} (hs : s.Sound iNum)
      (hallowed : s.Allowed iNum call) (ha : s.step call = some (s', ids)) :
      s'.Sound iNum ∧ (∀ i ∈ ids, i < iNum ∧ i ∉ s.used) ∧
        s.manager.chain ++ freed call = ids ++ s'.manager.chain := by
    obtain ⟨t, ids', ha', hall⟩ := hs.step hallowed
    obtain ⟨rfl, rfl⟩ := Prod.mk.inj (Option.some.inj (ha'.symm.trans ha))
    exact hall
  have hrun : ∃ s ids, exec step ⟨m, []⟩ calls = some (s, ids) ∧ s.Sound iNum :=
    @exec_progress _ _ _ _ _ _ (Allowed iNum) (fun s _ => s.Sound iNum) []
      (fun s call _ hs hallowed =>
        have ⟨s', ids, ha, hnext, _⟩ := hs.step hallowed
        ⟨s', ids, ha, hnext⟩) hinit halong
  obtain ⟨s, ids, hexec, -⟩ := hrun
  refine ⟨s, ids, hexec, ?_, ?_, ?_⟩
  · exact always_of_along (fun s call s' ids hs hallowed ha => (hstep hs hallowed ha).1) hinit
      halong
  · exact each_of_along (I := fun s _ => s.Sound iNum)
      (fun s call s' ids _ hs hallowed ha =>
        ⟨(hstep hs hallowed ha).2.1, (hstep hs hallowed ha).1⟩) hinit halong
  · have hfifo := @exec_fifo_along _ _ _ _ _ _ _ _ _ (Allowed iNum) (Sound iNum)
      (fun s => s.manager.chain) freed (fun i => [i])
      (fun s call s' ids hs hallowed ha => ⟨(hstep hs hallowed ha).1, by
        rw [List.flatMap_singleton']
        exact (hstep hs hallowed ha).2.2⟩) hinit halong hexec
    rwa [List.flatMap_singleton', hchain] at hfifo

/-- Two numbers are used up, given back in the other order and used again. -/
def sampleSeqCalls : List SeqCall := [.get, .get, .del 1, .del 0, .get, .del 1, .get]

/-- The manager of two numbers, at the start of the examples. -/
def pairManager : SeqManager := ⟨2, 0, 1, [⟨1, true⟩, ⟨MAX_UNSIGN_SHORT, true⟩]⟩

/-- The statement for a manager of two numbers and the calls of `sampleSeqCalls`. -/
theorem hands_out_distinct_sample :
    new 2 = some pairManager ∧
      ∃ s, exec step ⟨pairManager, []⟩ sampleSeqCalls = some (s, [0, 1, 1, 0]) ∧
        Always step (Sound 2) ⟨pairManager, []⟩ sampleSeqCalls ∧
        List.range 2 ++ sampleSeqCalls.flatMap freed = [0, 1, 1, 0] ++ s.manager.chain := by
  obtain ⟨m, hnew, hruns⟩ := hands_out_distinct 2 (by decide) (by decide)
  have hpair : new 2 = some pairManager := rfl
  obtain rfl := Option.some.inj (hpair.symm.trans hnew)
  obtain ⟨s, ids, hexec, halways, -, hfifo⟩ := hruns sampleSeqCalls (by decide)
  have hids : (exec step ⟨pairManager, []⟩ sampleSeqCalls).map Prod.snd = some [0, 1, 1, 0] := by
    decide
  rw [hexec] at hids
  obtain rfl := Option.some.inj hids
  exact ⟨hpair, s, hexec, halways, hfifo⟩

end SeqRun

end Tars
