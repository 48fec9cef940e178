import Mathlib.Data.List.Nodup
import Mathlib.Logic.Function.Basic

/-!
# Singly linked lists

The nodes of a singly linked list carry a link to the next node; an end mark stands where there
is none. `Follows` says which list of nodes the links from a start stand for, and the rules below
say what taking the first node and linking a node in behind the last one do to it.
-/

namespace Chains

variable {ν : Type*}

/-- From the start, the links run through the nodes of the list and then to the end mark. -/
def Follows (next : ν → ν) (stop : ν) : ν → List ν → Prop
  | start, [] => start = stop
  | start, a :: l => start = a ∧ Follows next stop (next a) l

variable {next : ν → ν} {stop start a b : ν} {l : List ν}

/-- A list has one node and the start is the last one. -/
theorem Follows.start_eq_last_iff (h : Follows next stop start (a :: l)) (hnodup : (a :: l).Nodup) :
    (a :: l).getLast? = some start ↔ l = [] := by
  obtain rfl := h.1
  constructor
  · intro hlast
    by_contra hne
    rw [List.getLast?_cons_of_ne_nil hne] at hlast
    exact (List.nodup_cons.mp hnodup).1 (List.mem_of_getLast? hlast)
  · rintro rfl
    rfl

variable [DecidableEq ν]

/-- Linking a node in behind the last one appends it. -/
theorem Follows.append (h : Follows next stop start (l ++ [a])) (hnodup : (l ++ [a]).Nodup)
    (hnew : b ∉ l ++ [a]) :
    Follows (Function.update (Function.update next b stop) a b) stop start (l ++ [a] ++ [b]) := by
  induction l generalizing start with
  | nil =>
    have hab : b ≠ a := fun heq => hnew (by simp [heq])
    refine ⟨h.1, ?_, ?_⟩
    · rw [Function.update_self]
    · rw [Function.update_of_ne hab, Function.update_self]
      rfl
  | cons c l ih =>
    have hca : c ≠ a := fun heq => (List.nodup_cons.mp hnodup).1 (by simp [heq])
    have hcb : c ≠ b := fun heq => hnew (by simp [heq])
    refine ⟨h.1, ?_⟩
    rw [Function.update_of_ne hca, Function.update_of_ne hcb]
    exact ih h.2 (List.nodup_cons.mp hnodup).2 fun hmem => hnew (List.mem_cons_of_mem c hmem)

/-- The nodes from a start up to the end mark, at most `fuel` of them. -/
def walk (next : ν → ν) (stop : ν) : ℕ → ν → List ν
  | 0, _ => []
  | fuel + 1, a => if a = stop then [] else a :: walk next stop fuel (next a)

/-- A walk that may be long enough finds the list. -/
theorem Follows.walk_eq (h : Follows next stop start l) (hstop : stop ∉ l) {fuel : ℕ}
    (hfuel : l.length ≤ fuel) : walk next stop fuel start = l := by
  induction l generalizing start fuel with
  | nil =>
    obtain rfl : start = stop := h
    cases fuel with
    | zero => rfl
    | succ fuel => rw [walk, if_pos rfl]
  | cons a l ih =>
    obtain ⟨rfl, hrest⟩ := h
    obtain ⟨fuel, rfl⟩ : ∃ k, fuel = k + 1 :=
      ⟨fuel - 1, by rw [List.length_cons] at hfuel; omega⟩
    have hne : ¬start = stop := fun heq => hstop (heq ▸ List.mem_cons_self)
    rw [walk, if_neg hne, ih hrest (fun hmem => hstop (List.mem_cons_of_mem _ hmem))
      (Nat.le_of_succ_le_succ hfuel)]

end Chains
