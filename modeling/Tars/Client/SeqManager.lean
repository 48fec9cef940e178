import Mathlib.Algebra.Order.Group.Nat
import Tars.Library.Chains

/-!
# The numbers of the client threads

`SeqManager` hands out the numbers by which the network threads tell the request queues of the
client threads apart. The free numbers are a linked list inside an array: `get` takes the first
one, `del` puts a number behind the last one. `Frees` names the list, and on it the two
operations are those of a queue.
-/

namespace Tars

open Chains

/-- `SeqManager::SeqInfo`: the link to the next number, and whether the number is free. -/
structure SeqInfo where
  /-- The free number behind this one. -/
  next : ℕ
  /-- Whether the number is free. -/
  free : Bool
  deriving DecidableEq

/-- The members of `SeqManager`: a list of the free numbers through an array. -/
structure SeqManager where
  /-- `_num`, how many numbers there are. -/
  num : ℕ
  /-- `_free`, the first free number. -/
  free : ℕ
  /-- `_freeTail`, the last free number. -/
  freeTail : ℕ
  /-- The array `_p`. -/
  p : List SeqInfo
  deriving DecidableEq

namespace SeqManager

/-- `MAX_UNSIGN_SHORT`, which marks the end of the list and is no number. -/
def MAX_UNSIGN_SHORT : ℕ := 0xffff

/-- The constructor. It fails where the source asserts that the count fits. -/
def new (iNum : ℕ) : Option SeqManager :=
  if iNum < MAX_UNSIGN_SHORT ∧ 0 < iNum then
    let p := (List.range iNum).map fun i => ⟨i + 1, true⟩
    some ⟨iNum, 0, iNum - 1, p.modify (iNum - 1) fun info => { info with next := MAX_UNSIGN_SHORT }⟩
  else none

/-- `get`, with the number that it returns. It fails where an assertion of the source does. -/
def get (m : SeqManager) : Option (SeqManager × ℕ) :=
  if m.free = MAX_UNSIGN_SHORT then none
  else
    match m.p[m.free]? with
    | none => none
    | some info =>
      if info.free = false then none
      else if m.free = m.freeTail ∧ info.next ≠ MAX_UNSIGN_SHORT then none
      else
        some
          ({ m with
              freeTail := if m.free = m.freeTail then MAX_UNSIGN_SHORT else m.freeTail
              free := info.next
              p := m.p.modify m.free fun info => { info with free := false } },
            m.free)

/-- What `del` writes: the number becomes the last one of the list. -/
def linkLast (m : SeqManager) (iSeq : ℕ) : SeqManager :=
  let p := m.p.modify iSeq fun info => { info with next := MAX_UNSIGN_SHORT }
  let m' : SeqManager :=
    if MAX_UNSIGN_SHORT = m.freeTail then { m with free := iSeq, p }
    else { m with p := p.modify m.freeTail fun info => { info with next := iSeq } }
  { m' with
    p := m'.p.modify iSeq fun info => { info with free := true }
    freeTail := iSeq }

/-- `del`. It fails where an assertion of the source does. -/
def del (m : SeqManager) (iSeq : ℕ) : Option SeqManager :=
  if m.num ≤ iSeq then none
  else
    match m.p[iSeq]? with
    | none => none
    | some info => if info.free then none else some (m.linkLast iSeq)

/-! ### The queue of free numbers -/

/-- The link of a number, which ends the list outside the array. -/
def link (p : List SeqInfo) (s : ℕ) : ℕ := (p[s]?.map SeqInfo.next).getD MAX_UNSIGN_SHORT

/-- Whether a number is marked as free, which is false for numbers without an entry. -/
def marked (p : List SeqInfo) (s : ℕ) : Bool := (p[s]?.map SeqInfo.free).getD false

/-- The free numbers in their order: the list that the links lead through, from its head to its
tail. -/
structure Frees (m : SeqManager) (l : List ℕ) : Prop where
  /-- The array has an entry for every number. -/
  length_eq : m.p.length = m.num
  /-- A number is never the mark of the end. -/
  num_lt : m.num < MAX_UNSIGN_SHORT
  /-- The links run through the free numbers. -/
  follows : Follows (link m.p) MAX_UNSIGN_SHORT m.free l
  /-- `_freeTail` is the last free number. -/
  freeTail_eq : m.freeTail = l.getLast?.getD MAX_UNSIGN_SHORT
  /-- No number is on the list twice. -/
  nodup : l.Nodup
  /-- The numbers on the list are those that are marked as free. -/
  mem_iff : ∀ s, s ∈ l ↔ marked m.p s = true

section Arrays

variable {p : List SeqInfo} {s t next : ℕ}

/-- Writing a mark keeps all links, so the list stays the same. -/
theorem link_modify_free (b : Bool) :
    link (p.modify s fun info => { info with free := b }) = link p := by
  funext t
  unfold link
  rw [List.getElem?_modify]
  by_cases hst : s = t
  · cases p[t]? <;> simp [hst]
  · simp [hst]

/-- Writing a link keeps all marks, so the same numbers are free. -/
theorem marked_modify_next :
    marked (p.modify s fun info => { info with next }) = marked p := by
  funext t
  unfold marked
  rw [List.getElem?_modify]
  by_cases hst : s = t
  · cases p[t]? <;> simp [hst]
  · simp [hst]

/-- Writing a link of the array changes this link and no other. -/
theorem link_modify_next (hs : s < p.length) :
    link (p.modify s fun info => { info with next }) = Function.update (link p) s next := by
  funext t
  unfold link
  rw [List.getElem?_modify]
  by_cases hst : s = t
  · subst hst
    simp [List.getElem?_eq_getElem hs]
  · rw [Function.update_of_ne (Ne.symm hst)]
    simp [hst]

/-- Writing a mark of the array changes this mark and no other. -/
theorem marked_modify_free (b : Bool) (hs : s < p.length) :
    marked (p.modify s fun info => { info with free := b }) = Function.update (marked p) s b := by
  funext t
  unfold marked
  rw [List.getElem?_modify]
  by_cases hst : s = t
  · subst hst
    simp [List.getElem?_eq_getElem hs]
  · rw [Function.update_of_ne (Ne.symm hst)]
    simp [hst]

/-- What is marked as free has an entry in the array, so `get` and `del` read no place behind it. -/
theorem lt_length_of_marked (h : marked p s = true) : s < p.length := by
  by_contra hle
  simp [marked, List.getElem?_eq_none (Nat.le_of_not_lt hle)] at h

end Arrays

variable {m : SeqManager} {l : List ℕ} {s iNum : ℕ}

/-- The free numbers are numbers of the manager, between zero and `iNum`. -/
theorem Frees.lt_num (h : m.Frees l) (hs : s ∈ l) : s < m.num :=
  h.length_eq ▸ lt_length_of_marked ((h.mem_iff s).mp hs)

/-- The mark for the end of the list is no number that could be handed out. -/
theorem Frees.ne_max (h : m.Frees l) (hs : s ∈ l) : s ≠ MAX_UNSIGN_SHORT := by
  have hlt := h.lt_num hs
  have hnum := h.num_lt
  omega

/-- Links to the next number run through all numbers up to the last one. -/
theorem follows_range {next : ℕ → ℕ} {n : ℕ} (hnext : ∀ s, s + 1 < n → next s = s + 1)
    (hlast : next (n - 1) = MAX_UNSIGN_SHORT) (k count : ℕ) (hcount : k + count + 1 = n) :
    Follows next MAX_UNSIGN_SHORT k (List.range' k (count + 1)) := by
  induction count generalizing k with
  | zero =>
    obtain rfl : k = n - 1 := by omega
    exact ⟨rfl, hlast⟩
  | succ count ih =>
    rw [List.range'_succ]
    refine ⟨rfl, ?_⟩
    rw [hnext k (by omega)]
    exact ih (k + 1) (by omega)

/-- **A new manager.** All numbers are free, the smallest one first. -/
theorem frees_new (hnum : iNum < MAX_UNSIGN_SHORT) (hpos : 0 < iNum) :
    ∃ m, new iNum = some m ∧ m.num = iNum ∧ m.Frees (List.range iNum) := by
  refine ⟨_, if_pos ⟨hnum, hpos⟩, rfl, by simp, hnum, ?_, ?_, List.nodup_range, fun s => ?_⟩
  · rw [link_modify_next (by simpa using Nat.sub_one_lt_of_lt hpos)]
    obtain ⟨count, rfl⟩ : ∃ count, iNum = count + 1 := ⟨iNum - 1, by omega⟩
    rw [@List.range_eq_range' (count + 1)]
    refine follows_range (fun s hs => ?_) (Function.update_self _ _ _) 0 count (by omega)
    rw [Function.update_of_ne (by omega)]
    simp [link, Nat.lt_of_succ_lt hs]
  · simp [List.getLast?_range, Nat.ne_of_gt hpos]
  · rw [marked_modify_next, List.mem_range]
    by_cases hs : s < iNum
    · simp [marked, hs]
    · simp [marked, hs]

/-- **`get` takes the first free number**, and the rest of the list stays free. -/
theorem Frees.get_cons (h : m.Frees (s :: l)) :
    ∃ m', m.get = some (m', s) ∧ m'.num = m.num ∧ m'.Frees l := by
  have hfree : m.free = s := h.follows.1
  have hmem : s ∈ s :: l := List.mem_cons_self
  have hlt : s < m.p.length := h.length_eq ▸ h.lt_num hmem
  have hentry : m.p[m.free]? = some m.p[s] := by rw [hfree, List.getElem?_eq_getElem hlt]
  have hmark : m.p[s].free = true := by
    simpa [marked, List.getElem?_eq_getElem hlt] using (h.mem_iff s).mp hmem
  have hlink : m.p[s].next = link m.p s := by simp [link, List.getElem?_eq_getElem hlt]
  have htail : m.free = m.freeTail ↔ l = [] := by
    rw [h.freeTail_eq, hfree]
    cases l with
    | nil => simp
    | cons t l =>
      have hne : (s :: t :: l).getLast? ≠ some s := fun heq =>
        absurd ((h.follows.start_eq_last_iff h.nodup).mp (hfree ▸ heq)) (by simp)
      obtain ⟨last, hlast⟩ : ∃ last, (s :: t :: l).getLast? = some last :=
        Option.isSome_iff_exists.mp (by simp)
      simp only [hlast, Option.getD_some, reduceCtorEq, iff_false]
      rintro rfl
      exact hne hlast
  have hassert : ¬(m.free = m.freeTail ∧ m.p[s].next ≠ MAX_UNSIGN_SHORT) := by
    rintro ⟨heq, hnext⟩
    obtain rfl := htail.mp heq
    exact hnext (hlink.trans h.follows.2)
  refine ⟨⟨m.num, m.p[s].next, if m.free = m.freeTail then MAX_UNSIGN_SHORT else m.freeTail,
    m.p.modify m.free fun info => { info with free := false }⟩, ?_, rfl, ?_⟩
  · rw [get, if_neg (hfree ▸ h.ne_max hmem), hentry]
    dsimp only
    rw [hmark, if_neg (by simp), if_neg hassert, hfree]
  · refine ⟨by simp [h.length_eq], h.num_lt, ?_, ?_, (List.nodup_cons.mp h.nodup).2, fun t => ?_⟩
    · dsimp only
      rw [link_modify_free, hlink]
      exact h.follows.2
    · dsimp only
      split
      · next heq => rw [htail.mp heq]; rfl
      · next hne =>
        rw [h.freeTail_eq, List.getLast?_cons_of_ne_nil fun hnil => hne (htail.mpr hnil)]
    · dsimp only
      rw [hfree, marked_modify_free false hlt]
      by_cases hts : t = s
      · subst hts
        simp [(List.nodup_cons.mp h.nodup).1]
      · rw [Function.update_of_ne hts, ← h.mem_iff, List.mem_cons, or_iff_right hts]

/-- **`get` without a free number** runs into its assertion, since the head is the mark for the end.
-/
theorem Frees.get_nil (h : m.Frees []) : m.get = none := by
  have hfree : m.free = MAX_UNSIGN_SHORT := h.follows
  rw [get, if_pos hfree]

/-- **`del` appends a number to the free ones**: it is handed out again after all the others. -/
theorem Frees.del (h : m.Frees l) (hs : s < m.num) (hused : s ∉ l) :
    ∃ m', m.del s = some m' ∧ m'.num = m.num ∧ m'.Frees (l ++ [s]) := by
  have hlt : s < m.p.length := h.length_eq ▸ hs
  have hmark : m.p[s].free = false := by
    simpa [marked, List.getElem?_eq_getElem hlt] using (h.mem_iff s).not.mp hused
  have hnodup : (l ++ [s]).Nodup := by
    rw [List.nodup_append]
    exact ⟨h.nodup, List.nodup_singleton s, fun a ha b hb hab =>
      hused (by rwa [← List.mem_singleton.mp hb, ← hab])⟩
  have hmem {p : List SeqInfo} (hp : marked p = marked m.p) (hlen : s < p.length) (t : ℕ) :
      t ∈ l ++ [s] ↔ marked (p.modify s fun info => { info with free := true }) t = true := by
    rw [marked_modify_free true hlen, hp]
    by_cases hts : t = s
    · subst hts
      simp
    · rw [Function.update_of_ne hts, ← h.mem_iff, List.mem_append, List.mem_singleton,
        or_iff_left hts]
  refine ⟨m.linkLast s, ?_, ?_, ?_⟩
  · rw [SeqManager.del, if_neg (Nat.not_le.mpr hs), List.getElem?_eq_getElem hlt]
    dsimp only
    rw [hmark, if_neg (by simp)]
  · unfold linkLast
    dsimp only
    split <;> rfl
  by_cases hmax : MAX_UNSIGN_SHORT = m.freeTail
  · -- no number is free
    obtain rfl : l = [] := by
      by_contra hne
      have hlast := h.freeTail_eq
      rw [List.getLast?_eq_some_getLast hne, ← hmax] at hlast
      exact h.ne_max (List.getLast_mem hne) hlast.symm
    simp only [linkLast, if_pos hmax]
    refine ⟨by simp [h.length_eq], h.num_lt, ⟨rfl, ?_⟩, rfl, hnodup,
      hmem marked_modify_next (by simpa using hlt)⟩
    dsimp only
    rw [link_modify_free, link_modify_next hlt, Function.update_self]
    rfl
  · obtain ⟨init, t, rfl⟩ : ∃ init t, l = init ++ [t] := by
      obtain rfl | ⟨init, t, rfl⟩ := List.eq_nil_or_concat l
      · exact absurd h.freeTail_eq.symm hmax
      · exact ⟨init, t, by simp⟩
    have htail : m.freeTail = t := by simpa using h.freeTail_eq
    have htlt : t < m.p.length := h.length_eq ▸ h.lt_num (by simp)
    simp only [linkLast, if_neg hmax]
    refine ⟨by simp [h.length_eq], h.num_lt, ?_, by simp, hnodup,
      hmem (marked_modify_next.trans marked_modify_next) (by simpa using hlt)⟩
    dsimp only
    rw [link_modify_free, htail, link_modify_next (by simpa using htlt), link_modify_next hlt]
    exact h.follows.append h.nodup hused

end SeqManager

end Tars
