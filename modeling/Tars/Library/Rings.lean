import Mathlib.Data.List.Chain
import Mathlib.Data.List.Nodup
import Mathlib.Logic.Function.Basic

/-!
# Intrusive circular lists

The items of an intrusive list carry their own links, and the list is a ring of items through
a head that holds none. Several rings live in one store of links, one for each head. This file
gives the pointer operations and proves what they do to the lists that the rings stand for:
unlinking an item removes it from its list, linking it in front of a head appends it there,
and no other list changes.
-/

namespace Rings

/-- The two links of every node; `none` is the null pointer. -/
structure Links (ν : Type*) where
  /-- The node behind. -/
  next : ν → Option ν
  /-- The node in front. -/
  prev : ν → Option ν

namespace Links

variable {ν : Type*}

/-- Two nodes that are linked to each other: the forward link of the first and the backward link of
the second. -/
def Joined (L : Links ν) (a b : ν) : Prop := L.next a = some b ∧ L.prev b = some a

/-- The ring through the head `h` holds the nodes `l` in this order. -/
def Ring (L : Links ν) (h : ν) (l : List ν) : Prop := (h :: (l ++ [h])).IsChain L.Joined

section

variable {L L' : Links ν} {h : ν} {l : List ν}

/-- The node in front of a head is the last one of its ring. -/
theorem Ring.prev_head (hring : L.Ring h l) :
    ∃ init p, h :: l = init ++ [p] ∧ (init ++ [p]).IsChain L.Joined ∧ L.Joined p h := by
  rcases List.eq_nil_or_concat (h :: l) with hnil | ⟨init, p, hlast⟩
  · cases hnil
  · refine ⟨init, p, by simpa using hlast, ?_⟩
    have hchain : (init ++ p :: h :: []).IsChain L.Joined := by
      have hsplit : h :: (l ++ [h]) = init ++ p :: h :: [] := by
        rw [← List.cons_append, hlast]
        simp
      exact hsplit ▸ hring
    rw [List.isChain_append_cons_cons] at hchain
    exact ⟨hchain.1, hchain.2.1⟩

/-- The node behind a head is the first one of its ring. -/
theorem Ring.next_head (hring : L.Ring h l) : L.next h = some (l.headD h) := by
  cases l with
  | nil => exact ((List.isChain_cons_cons.mp hring).1).1
  | cons a l => exact ((List.isChain_cons_cons.mp hring).1).1

/-- Nodes of a ring are joined to the same nodes where all their links are kept. -/
theorem Ring.mono (hring : L.Ring h l)
    (hkeep : ∀ a b, a ∈ h :: l → b ∈ h :: l → L.Joined a b → L'.Joined a b) : L'.Ring h l := by
  refine List.IsChain.imp_of_mem_imp (fun a b ha hb => hkeep a b ?_ ?_) hring
  · simpa [or_comm, or_assoc] using ha
  · simpa [or_comm, or_assoc] using hb

end

variable [DecidableEq ν]

/-- Write the forward link of a node and no other. -/
def setNext (L : Links ν) (a : ν) (b : Option ν) : Links ν :=
  { L with next := Function.update L.next a b }

/-- Write the backward link of a node and no other. -/
def setPrev (L : Links ν) (a : ν) (b : Option ν) : Links ν :=
  { L with prev := Function.update L.prev a b }

/-- An empty ring: the head is linked to itself. -/
def headInit (L : Links ν) (h : ν) : Links ν := (L.setNext h (some h)).setPrev h (some h)

/-- Whether the ring through a head is empty: the head is its own next node. -/
def headEmpty (L : Links ν) (h : ν) : Bool := L.next h == some h

/-- Link a node in between two nodes, in the order in which the code writes the four links. -/
def add (L : Links ν) (x p n : ν) : Links ν :=
  (((L.setPrev n (some x)).setNext x (some n)).setPrev x (some p)).setNext p (some x)

/-- Link a node in behind the last one of a ring. It fails on a null pointer. -/
def addTail (L : Links ν) (x h : ν) : Option (Links ν) :=
  match L.prev h with
  | none => none
  | some p => some (L.add x p h)

/-- Unlink a node and clear its links. It fails on a null pointer. -/
def del (L : Links ν) (x : ν) : Option (Links ν) :=
  match L.prev x, L.next x with
  | some p, some n =>
    some ((((L.setPrev n (some p)).setNext p (some n)).setNext x none).setPrev x none)
  | _, _ => none

/-! ### Single links -/

variable {L L' : Links ν} {a b h n p x : ν} {l : List ν}

/-- Linking a node in joins it to both neighbours. -/
theorem joined_add (hp : x ≠ p) (hn : x ≠ n) :
    (L.add x p n).Joined p x ∧ (L.add x p n).Joined x n := by
  constructor
  · constructor
    · simp [add, setNext, setPrev]
    · simp [add, setNext, setPrev]
  · constructor
    · simp [add, setNext, setPrev, Function.update_of_ne hp]
    · simp [add, setNext, setPrev, Function.update_of_ne (Ne.symm hn)]

/-- Linking a node in keeps the links between other nodes. -/
theorem Joined.add (hab : L.Joined a b) (hpn : L.Joined p n) (hb : b ≠ n) (hax : a ≠ x)
    (hbx : b ≠ x) : (L.add x p n).Joined a b := by
  have ha : a ≠ p := by
    rintro rfl
    exact hb (Option.some.inj (hab.1.symm.trans hpn.1))
  obtain ⟨hnext, hprev⟩ := hab
  constructor
  · simpa [Links.add, setNext, setPrev, Function.update_of_ne ha, Function.update_of_ne hax]
  · simpa [Links.add, setNext, setPrev, Function.update_of_ne hb, Function.update_of_ne hbx]

/-- Unlinking a node joins its neighbours and keeps the links between other nodes. -/
theorem del_spec (hpx : L.Joined p x) (hxn : L.Joined x n) (hp : p ≠ x) (hn : n ≠ x) :
    ∃ L', L.del x = some L' ∧ L'.Joined p n ∧
      ∀ a b, a ≠ x → b ≠ x → L.Joined a b → L'.Joined a b := by
  refine ⟨_, by rw [del, hpx.2, hxn.1], ⟨?_, ?_⟩, ?_⟩
  · simp [setNext, setPrev, Function.update_of_ne hp]
  · simp [setNext, setPrev, Function.update_of_ne hn]
  · rintro a b ha hb ⟨hnext, hprev⟩
    have hap : a ≠ p := by
      rintro rfl
      exact hb (Option.some.inj (hnext.symm.trans hpx.1))
    have hbn : b ≠ n := by
      rintro rfl
      exact ha (Option.some.inj (hprev.symm.trans hxn.2))
    constructor
    · simpa [setNext, setPrev, Function.update_of_ne ha, Function.update_of_ne hap]
    · simpa [setNext, setPrev, Function.update_of_ne hb, Function.update_of_ne hbn]

/-! ### One ring -/

/-- Linking a new node in front of a head appends it to the ring. -/
theorem Ring.addTail (hring : L.Ring h l) (hhead : h ∉ l) (hx : x ∉ h :: l) :
    ∃ p, L.Joined p h ∧ L.addTail x h = some (L.add x p h) ∧
      (L.add x p h).Ring h (l ++ [x]) := by
  obtain ⟨init, p, hsplit, hchain, hlast⟩ := hring.prev_head
  refine ⟨p, hlast, by rw [Links.addTail, hlast.2], ?_⟩
  have hxp : x ≠ p := by
    rintro rfl
    exact hx (hsplit ▸ by simp)
  have hxh : x ≠ h := by
    rintro rfl
    exact hx List.mem_cons_self
  obtain ⟨hpx, hxn⟩ := joined_add (L := L) hxp hxh
  have hfront : (init ++ [p]).IsChain (L.add x p h).Joined := by
    refine List.IsChain.imp_of_mem_tail_imp (fun a b ha hb hab => ?_) hchain
    have hbl : b ∈ l := by
      rw [← hsplit] at hb
      exact hb
    have hal : a ∈ h :: l := hsplit ▸ ha
    apply hab.add hlast
    · rintro rfl
      exact hhead hbl
    · rintro rfl
      exact hx hal
    · rintro rfl
      exact hx (List.mem_cons_of_mem _ hbl)
  have hnodes : h :: (l ++ [x] ++ [h]) = init ++ p :: x :: [h] := by
    rw [List.append_assoc, ← List.cons_append, hsplit]
    simp
  rw [Ring, hnodes, List.isChain_append_cons_cons]
  exact ⟨hfront, hpx, List.isChain_pair.mpr hxn⟩

/-- Unlinking a node removes it from its ring and keeps the links between other nodes. -/
theorem Ring.del {before after : List ν} (hring : L.Ring h (before ++ x :: after))
    (hx : x ≠ h) (hbefore : x ∉ before) (hafter : x ∉ after) :
    ∃ L', L.del x = some L' ∧ L'.Ring h (before ++ after) ∧
      ∀ a b, a ≠ x → b ≠ x → L.Joined a b → L'.Joined a b := by
  have hfront : ∃ init p, h :: before = init ++ [p] := by
    rcases List.eq_nil_or_concat (h :: before) with hnil | ⟨init, p, hlast⟩
    · cases hnil
    · exact ⟨init, p, by simpa using hlast⟩
  obtain ⟨init, p, hinit⟩ := hfront
  obtain ⟨n, post, hpost⟩ : ∃ n post, after ++ [h] = n :: post :=
    List.exists_cons_of_ne_nil (by simp)
  have hsplit : h :: (before ++ x :: after ++ [h]) = init ++ p :: x :: n :: post := by
    rw [List.append_assoc, List.cons_append, ← List.cons_append, hinit, hpost]
    simp
  have hchain : (init ++ p :: x :: n :: post).IsChain L.Joined := hsplit ▸ hring
  rw [List.isChain_append_cons_cons, List.isChain_cons_cons] at hchain
  obtain ⟨hinitChain, hpx, hxn, hpostChain⟩ := hchain
  have hxinit : ∀ a ∈ init ++ [p], a ≠ x := by
    rw [← hinit]
    rintro a ha rfl
    rcases List.mem_cons.mp ha with rfl | hmem
    · exact hx rfl
    · exact hbefore hmem
  have hxpost : ∀ a ∈ n :: post, a ≠ x := by
    rw [← hpost]
    rintro a ha rfl
    rcases List.mem_append.mp ha with hmem | hmem
    · exact hafter hmem
    · exact hx (List.mem_singleton.mp hmem)
  obtain ⟨L', hdel, hjoined, hkeep⟩ :=
    del_spec hpx hxn (hxinit p (by simp)) (hxpost n List.mem_cons_self)
  refine ⟨L', hdel, ?_, hkeep⟩
  have hnodes : h :: (before ++ after ++ [h]) = init ++ p :: n :: post := by
    rw [List.append_assoc, ← List.cons_append, hinit, hpost]
    simp
  rw [Ring, hnodes, List.isChain_append_cons_cons]
  refine ⟨?_, hjoined, ?_⟩
  · exact hinitChain.imp_of_mem_imp fun a b ha hb => hkeep a b (hxinit a ha) (hxinit b hb)
  · exact hpostChain.imp_of_mem_imp fun a b ha hb => hkeep a b (hxpost a ha) (hxpost b hb)

end Links

/-! ### Several rings -/

section Store

variable {κ ν : Type*}

/-- The links stand for the lists: the ring through each head holds the items of its list, no
item is in a list twice, and no item is in two lists. -/
structure Represents (L : Links (κ ⊕ ν)) (lists : κ → List ν) : Prop where
  /-- Every list is a ring. -/
  ring : ∀ k, L.Ring (.inl k) ((lists k).map .inr)
  /-- No item is in a list twice. -/
  nodup : ∀ k, (lists k).Nodup
  /-- No item is in two lists. -/
  disjoint : ∀ j k x, j ≠ k → x ∈ lists j → x ∉ lists k

/-- Heads that are all linked to themselves stand for empty lists. -/
theorem Represents.empty {L : Links (κ ⊕ ν)} (hself : ∀ k, L.Joined (.inl k) (.inl k)) :
    Represents L (fun _ => []) := by
  refine ⟨fun k => List.isChain_pair.mpr (hself k), fun _ => List.nodup_nil, ?_⟩
  intro j k y _ hy
  cases hy

/-- The node behind a head is the first item of its list, or the head itself. -/
theorem Represents.next_head {L : Links (κ ⊕ ν)} {lists : κ → List ν} (h : Represents L lists)
    (k : κ) :
    L.next (.inl k) = some (((lists k).head?.map .inr).getD (.inl k)) := by
  rw [(h.ring k).next_head]
  cases lists k <;> rfl

/-- The items that the forward links run through from a node on, up to a head or the null pointer,
and at most `fuel` of them. -/
def Links.items (L : Links (κ ⊕ ν)) : ℕ → κ ⊕ ν → List ν
  | 0, _ => []
  | fuel + 1, a =>
    match L.next a with
    | some (.inr x) => x :: L.items fuel (.inr x)
    | _ => []

/-- From any node of a ring on, the links run through the items behind it. -/
private theorem items_eq_of_isChain {L : Links (κ ⊕ ν)} {k : κ} {a : κ ⊕ ν} {l : List ν}
    (h : (a :: (l.map Sum.inr ++ [Sum.inl k])).IsChain L.Joined) {fuel : ℕ}
    (hfuel : l.length ≤ fuel) : L.items fuel a = l := by
  induction l generalizing a fuel with
  | nil =>
    have hnext : L.next a = some (.inl k) := (List.isChain_pair.mp h).1
    cases fuel with
    | zero => rfl
    | succ fuel => rw [Links.items, hnext]
  | cons x l ih =>
    obtain ⟨fuel, rfl⟩ : ∃ n, fuel = n + 1 :=
      ⟨fuel - 1, by rw [List.length_cons] at hfuel; omega⟩
    rw [List.map_cons, List.cons_append, List.isChain_cons_cons] at h
    have hnext : L.next a = some (.inr x) := h.1.1
    rw [Links.items, hnext]
    dsimp only
    rw [ih h.2 (Nat.le_of_succ_le_succ hfuel)]

/-- The links determine the lists that they stand for. -/
theorem Represents.items_eq {L : Links (κ ⊕ ν)} {lists : κ → List ν} (h : Represents L lists)
    (k : κ) {fuel : ℕ} (hfuel : (lists k).length ≤ fuel) : L.items fuel (.inl k) = lists k :=
  items_eq_of_isChain (h.ring k) hfuel

variable [DecidableEq κ]

/-- The lists after appending an item to one of them. -/
def append (lists : κ → List ν) (k : κ) (x : ν) : κ → List ν :=
  Function.update lists k (lists k ++ [x])

@[simp] theorem append_self (lists : κ → List ν) (k : κ) (x : ν) :
    append lists k x k = lists k ++ [x] := by
  rw [append, Function.update_self]

theorem append_of_ne {lists : κ → List ν} {j k : κ} (h : j ≠ k) (x : ν) :
    append lists k x j = lists j := by
  rw [append, Function.update_of_ne h]

/-- The items of a list after appending one item. -/
theorem mem_append_iff {lists : κ → List ν} {j k : κ} {x y : ν} :
    y ∈ append lists k x j ↔ y ∈ lists j ∨ j = k ∧ y = x := by
  by_cases hj : j = k
  · subst hj
    simp
  · simp [append_of_ne hj, hj]

variable [DecidableEq ν]

/-- The lists after removing an item from one of them. -/
def remove (lists : κ → List ν) (k : κ) (x : ν) : κ → List ν :=
  Function.update lists k ((lists k).erase x)

@[simp] theorem remove_self (lists : κ → List ν) (k : κ) (x : ν) :
    remove lists k x k = (lists k).erase x := by
  rw [remove, Function.update_self]

theorem remove_of_ne {lists : κ → List ν} {j k : κ} (h : j ≠ k) (x : ν) :
    remove lists k x j = lists j := by
  rw [remove, Function.update_of_ne h]

variable {L : Links (κ ⊕ ν)} {lists : κ → List ν} {k : κ} {x : ν}

/-- The items of a list after removing one item. -/
theorem Represents.mem_remove_iff {j : κ} {y : ν} (h : Represents L lists) (hx : x ∈ lists k) :
    y ∈ remove lists k x j ↔ y ∈ lists j ∧ y ≠ x := by
  by_cases hj : j = k
  · subst hj
    rw [remove_self, (h.nodup j).mem_erase_iff, and_comm]
  · rw [remove_of_ne hj]
    refine ⟨fun hy => ⟨hy, ?_⟩, fun hy => hy.1⟩
    rintro rfl
    exact h.disjoint j k y hj hy hx

/-- A head whose ring is empty stands for an empty list. -/
theorem Represents.headEmpty_iff (h : Represents L lists) (k : κ) :
    L.headEmpty (.inl k) = true ↔ lists k = [] := by
  rw [Links.headEmpty, h.next_head]
  cases lists k <;> simp

/-- **Appending.** An item that is in no list can be linked in front of a head; its list
grows at the end and no other list changes. -/
theorem Represents.addTail (h : Represents L lists) (hx : ∀ j, x ∉ lists j) (k : κ) :
    ∃ L', L.addTail (.inr x) (.inl k) = some L' ∧ Represents L' (append lists k x) := by
  have hnew (j : κ) : Sum.inr x ∉ (Sum.inl j : κ ⊕ ν) :: (lists j).map Sum.inr := by
    simpa using hx j
  obtain ⟨p, hlast, hadd, hring⟩ := (h.ring k).addTail (by simp) (hnew k)
  refine ⟨_, hadd, ?_, ?_, ?_⟩
  · intro j
    by_cases hj : j = k
    · subst hj
      simpa using hring
    · rw [append_of_ne hj]
      refine (h.ring j).mono fun a b ha hb hab => hab.add hlast ?_ ?_ ?_
      · rintro rfl
        simp [Ne.symm hj] at hb
      · rintro rfl
        exact hnew j ha
      · rintro rfl
        exact hnew j hb
  · intro j
    by_cases hj : j = k
    · subst hj
      rw [append_self, List.nodup_append]
      refine ⟨h.nodup j, List.nodup_singleton x, ?_⟩
      rintro y hy z hz rfl
      exact hx j (List.mem_singleton.mp hz ▸ hy)
    · rw [append_of_ne hj]
      exact h.nodup j
  · intro i j y hij hi hj
    rcases mem_append_iff.mp hi with hold | ⟨rfl, rfl⟩
    · rcases mem_append_iff.mp hj with hother | ⟨-, rfl⟩
      · exact h.disjoint i j y hij hold hother
      · exact hx i hold
    · rcases mem_append_iff.mp hj with hother | ⟨rfl, -⟩
      · exact hx j hother
      · exact hij rfl

/-- **Unlinking.** An item of a list can be unlinked; it leaves its list and no other list
changes. -/
theorem Represents.del (h : Represents L lists) (hx : x ∈ lists k) :
    ∃ L', L.del (.inr x) = some L' ∧ Represents L' (remove lists k x) := by
  obtain ⟨before, after, hsplit⟩ := List.append_of_mem hx
  have hnodup := h.nodup k
  rw [hsplit, List.nodup_middle, List.nodup_cons, List.mem_append, not_or] at hnodup
  obtain ⟨⟨hbefore, hafter⟩, -⟩ := hnodup
  have hk := h.ring k
  rw [hsplit, List.map_append, List.map_cons] at hk
  obtain ⟨L', hdel, hring, hkeep⟩ := hk.del (by simp) (by simpa using hbefore)
    (by simpa using hafter)
  refine ⟨L', hdel, ?_, ?_, ?_⟩
  · intro j
    by_cases hj : j = k
    · subst hj
      rw [remove_self, hsplit, List.erase_append_right _ hbefore, List.erase_cons_head]
      simpa using hring
    · rw [remove_of_ne hj]
      have hother : (Sum.inr x : κ ⊕ ν) ∉ Sum.inl j :: (lists j).map Sum.inr := by
        simpa using fun hmem => h.disjoint j k x hj hmem hx
      refine (h.ring j).mono fun a b ha hb => hkeep a b ?_ ?_
      · rintro rfl
        exact hother ha
      · rintro rfl
        exact hother hb
  · intro j
    by_cases hj : j = k
    · subst hj
      rw [remove_self]
      exact (h.nodup j).erase x
    · rw [remove_of_ne hj]
      exact h.nodup j
  · intro i j y hij hi hj
    exact h.disjoint i j y hij ((h.mem_remove_iff hx).mp hi).1 ((h.mem_remove_iff hx).mp hj).1

end Store

end Rings
