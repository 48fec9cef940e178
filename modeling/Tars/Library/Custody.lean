import Mathlib.Data.List.Nodup
import Mathlib.Data.List.Perm.Basic
import Mathlib.Data.Set.Basic
import Mathlib.Logic.Function.Basic

/-!
# Tokens that are handed on

Any number of places each hold a list of tokens, and a token is held by one place at most. Such
places stay exclusive while a new token is issued, and while a token is taken from its place,
carried by hand, and put into another place or dropped.
-/

namespace Custody

variable {ι α : Type*}

/-- No place holds a token twice, no two places hold the same one, and all of them were issued. -/
structure Exclusive (issued : Set α) (places : ι → List α) : Prop where
  /-- A place holds a token once. -/
  nodup : ∀ i, (places i).Nodup
  /-- Two places do not hold the same token. -/
  apart : ∀ i j a, a ∈ places i → a ∈ places j → i = j
  /-- The places hold tokens that were issued. -/
  mem_issued : ∀ i, ∀ a ∈ places i, a ∈ issued

/-- The places are exclusive, and the token `a`, which somebody has in hand, is at none of them. -/
structure InHand (a : α) (issued : Set α) (places : ι → List α) : Prop
    extends Exclusive issued places where
  /-- No place holds the token. -/
  free : ∀ i, a ∉ places i
  /-- The token was issued, so it is none that is still to come. -/
  hand_issued : a ∈ issued

section Rules

variable {places : ι → List α} {issued issued' : Set α} {a : α} {rest l : List α} {i : ι}

/-- Empty places are exclusive, since they hold nothing: where a run starts. -/
theorem exclusive_nil (h : ∀ i, places i = []) : Exclusive issued places where
  nodup i := h i ▸ List.nodup_nil
  apart i _ a hmem := absurd (h i ▸ hmem) (List.not_mem_nil (a := a))
  mem_issued i a hmem := absurd (h i ▸ hmem) (List.not_mem_nil (a := a))

/-- **Issuing a token.** A token that is new is in hand. -/
theorem Exclusive.issue (h : Exclusive issued places) (hnew : a ∉ issued) (hissued : a ∈ issued')
    (hsub : issued ⊆ issued') : InHand a issued' places where
  nodup := h.nodup
  apart := h.apart
  mem_issued i b hb := hsub (h.mem_issued i b hb)
  free i hmem := hnew (h.mem_issued i a hmem)
  hand_issued := hissued

variable [DecidableEq ι]

/-- **Taking a token.** What is taken away from a place is nowhere afterwards. -/
theorem Exclusive.take (h : Exclusive issued places) (hperm : (places i).Perm (a :: rest)) :
    InHand a issued (Function.update places i rest) := by
  have hnodup := hperm.nodup_iff.mp (h.nodup i)
  have hsub : ∀ j, ∀ b ∈ Function.update places i rest j, b ∈ places j := by
    intro j b hb
    by_cases hj : j = i
    · subst hj
      rw [Function.update_self] at hb
      exact hperm.mem_iff.mpr (List.mem_cons_of_mem a hb)
    · rwa [Function.update_of_ne hj] at hb
  have hi : a ∈ places i := hperm.mem_iff.mpr List.mem_cons_self
  refine ⟨⟨fun j => ?_, fun j k b hj hk => h.apart j k b (hsub j b hj) (hsub k b hk),
    fun j b hj => h.mem_issued j b (hsub j b hj)⟩, fun j hj => ?_, h.mem_issued i a hi⟩
  · by_cases hj : j = i
    · subst hj
      rw [Function.update_self]
      exact (List.nodup_cons.mp hnodup).2
    · rw [Function.update_of_ne hj]
      exact h.nodup j
  · obtain rfl := h.apart i j a hi (hsub j a hj)
    rw [Function.update_self] at hj
    exact (List.nodup_cons.mp hnodup).1 hj

/-- **Putting a token.** The token in hand may be put into any place. -/
theorem InHand.put (h : InHand a issued places) (hperm : l.Perm (a :: places i)) :
    Exclusive issued (Function.update places i l) := by
  have hcases : ∀ j, ∀ b ∈ Function.update places i l j, b ∈ places j ∨ b = a ∧ j = i := by
    intro j b hb
    by_cases hj : j = i
    · subst hj
      rw [Function.update_self] at hb
      obtain rfl | hold := List.mem_cons.mp (hperm.mem_iff.mp hb)
      · exact .inr ⟨rfl, rfl⟩
      · exact .inl hold
    · rw [Function.update_of_ne hj] at hb
      exact .inl hb
  constructor
  · intro j
    by_cases hj : j = i
    · subst hj
      rw [Function.update_self]
      exact hperm.nodup_iff.mpr (List.nodup_cons.mpr ⟨h.free j, h.nodup j⟩)
    · rw [Function.update_of_ne hj]
      exact h.nodup j
  · intro j k b hj hk
    obtain hold | ⟨rfl, rfl⟩ := hcases j b hj
    · obtain hold' | ⟨rfl, rfl⟩ := hcases k b hk
      · exact h.apart j k b hold hold'
      · exact absurd hold (h.free j)
    · obtain hold' | ⟨-, rfl⟩ := hcases k b hk
      · exact absurd hold' (h.free k)
      · rfl
  · intro j b hj
    obtain hold | ⟨rfl, -⟩ := hcases j b hj
    · exact h.mem_issued j b hold
    · exact h.hand_issued

end Rules

end Custody
