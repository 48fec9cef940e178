import Mathlib.Algebra.Order.BigOperators.Group.Finset
import Mathlib.Data.Fintype.Basic

/-!
# Counting references

Finitely many places each hold a list of references. How often a reference occurs over all
places is what ownership arguments count: putting a reference into one place, taking it
away or moving it changes the count by as much as it changes the list of that place.
-/

namespace Ledger

section Tables

variable {κ ι β : Type*} [DecidableEq κ] [DecidableEq ι]

/-- Replacing one entry of a table of tables leaves all other entries alone. -/
theorem update_update_apply (f : κ → ι → β) (k : κ) (i : ι) (x : β) (l : κ) (j : ι) :
    Function.update f k (Function.update (f k) i x) l j = if l = k ∧ j = i then x else f l j := by
  by_cases hl : l = k
  · subst hl
    rw [Function.update_self, Function.update_apply]
    simp only [true_and]
  · rw [Function.update_of_ne hl, if_neg fun hboth => hl hboth.1]

/-- Apart from the replaced entry and the new one, the same entries have a property. -/
theorem forall_update_update_iff {P : β → Prop} {f : κ → ι → β} {k : κ} {i : ι} {x : β} :
    (∀ l j, P (Function.update f k (Function.update (f k) i x) l j)) ∧ P (f k i) ↔
      (∀ l j, P (f l j)) ∧ P x := by
  constructor
  · rintro ⟨hnew, hold⟩
    refine ⟨fun l j => ?_, ?_⟩
    · by_cases hlj : l = k ∧ j = i
      · obtain ⟨rfl, rfl⟩ := hlj
        exact hold
      · have hl := hnew l j
        rwa [update_update_apply, if_neg hlj] at hl
    · have hk := hnew k i
      rwa [update_update_apply, if_pos ⟨rfl, rfl⟩] at hk
  · rintro ⟨hall, hx⟩
    refine ⟨fun l j => ?_, hall k i⟩
    rw [update_update_apply]
    split
    · exact hx
    · exact hall l j

/-- What holds for all entries still does, if it holds for the new one. -/
theorem update_update_of_forall {P : β → Prop} {f : κ → ι → β} (h : ∀ l j, P (f l j)) {k : κ}
    {i : ι} {x : β} (hx : P x) (l : κ) (j : ι) :
    P (Function.update f k (Function.update (f k) i x) l j) :=
  (forall_update_update_iff.mpr ⟨h, hx⟩).1 l j

end Tables

variable {ι α : Type*} [Fintype ι] [DecidableEq α]

/-- How often a reference occurs in all places, where a place may hold it more than once. -/
def occurrences (places : ι → List α) (a : α) : ℕ := ∑ i, (places i).count a

section Counting

variable {places : ι → List α} {i j : ι} {a b : α} {l rest : List α}

/-- A reference that occurs somewhere is counted: its number of occurrences is not zero. -/
theorem pos_of_mem (h : a ∈ places i) : 0 < occurrences places a :=
  (List.count_pos_iff.mpr h).trans_le
    (Finset.single_le_sum (f := fun i => (places i).count a) (fun _ _ => Nat.zero_le _)
      (Finset.mem_univ i))

/-- A reference that is counted occurs somewhere, at a place that can be named. -/
theorem exists_mem (h : occurrences places a ≠ 0) : ∃ i, a ∈ places i := by
  obtain ⟨i, -, hi⟩ := Finset.exists_ne_zero_of_sum_ne_zero h
  exact ⟨i, List.count_pos_iff.mp (Nat.pos_of_ne_zero hi)⟩

/-- Without references nothing occurs anywhere: where a run starts. -/
theorem eq_zero (h : ∀ i, places i = []) : occurrences places a = 0 :=
  Finset.sum_eq_zero fun i _ => by rw [h i, List.count_nil]

/-- A reference that is not counted occurs nowhere, so it can be added at any place. -/
theorem notMem_of_eq_zero (h : occurrences places a = 0) (i : ι) : a ∉ places i :=
  fun hmem => absurd h (pos_of_mem hmem).ne'

variable [DecidableEq ι]

/-- **Changing one place** changes the count by what changes there. -/
theorem update_add (places : ι → List α) (i : ι) (l : List α) (a : α) :
    occurrences (Function.update places i l) a + (places i).count a =
      occurrences places a + l.count a := by
  unfold occurrences
  rw [← Finset.add_sum_erase _ _ (Finset.mem_univ i),
    ← Finset.add_sum_erase Finset.univ (fun i => (places i).count a) (Finset.mem_univ i),
    Function.update_self]
  have hrest : ∑ j ∈ Finset.univ.erase i, (Function.update places i l j).count a =
      ∑ j ∈ Finset.univ.erase i, (places j).count a :=
    Finset.sum_congr rfl fun j hj => by rw [Function.update_of_ne (Finset.ne_of_mem_erase hj)]
  omega

/-- Putting a reference into a place adds one occurrence of it, and none of others. -/
theorem put (places : ι → List α) (i : ι) (b : α) (a : α) :
    occurrences (Function.update places i (places i ++ [b])) a =
      occurrences places a + if a = b then 1 else 0 := by
  have h := update_add places i (places i ++ [b]) a
  rw [List.count_append, List.count_singleton] at h
  by_cases hab : a = b
  · subst hab
    simp only [beq_self_eq_true, if_true] at h ⊢
    omega
  · have hba : (b == a) = false := by simpa using Ne.symm hab
    simp only [hba, hab, if_false, Bool.false_eq_true] at h ⊢
    omega

/-- Taking a reference away from a place lowers its own count by one and no other. -/
theorem take (h : (places i).Perm (b :: rest)) (a : α) :
    occurrences places a =
      occurrences (Function.update places i rest) a + if a = b then 1 else 0 := by
  have hsum := update_add places i rest a
  rw [h.count_eq, List.count_cons] at hsum
  by_cases hab : a = b
  · subst hab
    simp only [beq_self_eq_true, if_true] at hsum ⊢
    omega
  · have hba : (b == a) = false := by simpa using Ne.symm hab
    simp only [hba, hab, if_false, Bool.false_eq_true] at hsum ⊢
    omega

/-- **Moving a reference** from one place to the end of another changes no count. -/
theorem move (h : (places i).Perm (b :: rest)) (hij : i ≠ j) (a : α) :
    occurrences (Function.update (Function.update places i rest) j (places j ++ [b])) a =
      occurrences places a := by
  have hput := put (Function.update places i rest) j b a
  rw [Function.update_of_ne hij.symm] at hput
  rw [hput, take h a]

end Counting

end Ledger
