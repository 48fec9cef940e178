import Mathlib.Data.List.Basic

/-!
# Memory in blocks

A memory is a list of blocks, and the address of a block is its place in this list. A new block is
put behind the others, so no address is used twice; a deleted block leaves a hole. An access names
a block and succeeds within its bounds only. A pointer owns at most one block, and what an
operation on the block of one pointer leaves to all other blocks is said by `Frame`.
-/

namespace Blocks

variable {β : Type*}

/-- The blocks allocated so far, with holes in the place of those that have been deleted. -/
structure Memory (β : Type*) where
  /-- The cells of every block. -/
  blocks : List (Option (List β)) := []
  deriving DecidableEq

/-- A pointer: the address of a block, or null. -/
abbrev Pointer := Option ℕ

/-- Null is no address, so a null pointer refers to no block. -/
theorem null_ne (p : ℕ) : (none : Pointer) ≠ some p := (Option.some_ne_none p).symm

namespace Memory

/-- The cells of a block that has not been deleted. -/
def block (m : Memory β) (p : ℕ) : Option (List β) := m.blocks[p]?.join

/-- Allocate a block with the given cells, under an address that was never used before. -/
def new (m : Memory β) (cells : List β) : Memory β × ℕ :=
  (⟨m.blocks ++ [some cells]⟩, m.blocks.length)

/-- Delete a block, which is possible only once: its address is never given out again. -/
def free (m : Memory β) (p : ℕ) : Option (Memory β) :=
  (m.block p).map fun _ => ⟨m.blocks.set p none⟩

/-- Read cells of a block, from an offset on. -/
def load (m : Memory β) (p offset n : ℕ) : Option (List β) :=
  (m.block p).bind fun cells =>
    if offset + n ≤ cells.length then some ((cells.drop offset).take n) else none

/-- Replace cells of a block, from an offset on. -/
def store (m : Memory β) (p offset : ℕ) (values : List β) : Option (Memory β) :=
  (m.block p).bind fun cells =>
    if offset + values.length ≤ cells.length then
      some ⟨m.blocks.set p
        (some (cells.take offset ++ values ++ cells.drop (offset + values.length)))⟩
    else none

variable {m m' m'' : Memory β} {p q : ℕ} {cells values front back : List β}

/-- A block in use is behind no other one. -/
theorem lt_of_block (h : m.block p = some cells) : p < m.blocks.length := by
  by_contra hp
  have hnone : m.blocks[p]? = none := List.getElem?_eq_none (by omega)
  simp [block, hnone] at h

/-- The new block is found under its address, with the cells it was made of. -/
theorem block_new : (m.new cells).1.block (m.new cells).2 = some cells := by
  simp [block, new]

/-- A new block changes no other one: a block in use keeps its cells. -/
theorem block_new_of_block (h : m.block p = some values) :
    (m.new cells).1.block p = some values := by
  have hp := lt_of_block h
  simpa [block, new, List.getElem?_append_left hp] using h

/-- The address of a new block is not in use. -/
theorem ne_new (h : m.block p = some values) : p ≠ (m.new cells).2 :=
  Nat.ne_of_lt (lt_of_block h)

/-- What a change of one block does to all: that block has the new cells, and the others keep
theirs. -/
theorem block_set (h : m.block p = some cells) (new : Option (List β)) :
    block ⟨m.blocks.set p new⟩ q = if q = p then new else m.block q := by
  have hp := lt_of_block h
  by_cases hqp : q = p
  · subst q
    simp [block, hp]
  · simp [block, hqp, List.getElem?_set_ne (Ne.symm hqp)]

/-- Only a block in use can be deleted, and deleting it leaves the other blocks alone. -/
theorem free_eq_some (h : m.block p = some cells) : m.free p = some ⟨m.blocks.set p none⟩ := by
  simp [free, h]

/-- Cells in the middle of a block can be read. -/
theorem load_eq_some (h : m.block p = some (front ++ values ++ back)) :
    m.load p front.length values.length = some values := by
  simp [load, h]

/-- Nothing can be read from a deleted block, whatever part of it is asked for. -/
theorem load_eq_none (h : m.block p = none) (offset n : ℕ) : m.load p offset n = none := by
  simp [load, h]

/-- Cells behind the first ones of a block can be replaced. -/
theorem store_eq_some (h : m.block p = some (front ++ back)) (hfit : values.length ≤ back.length) :
    m.store p front.length values =
      some ⟨m.blocks.set p (some (front ++ values ++ back.drop values.length))⟩ := by
  simp [store, h, hfit]

/-- Nothing can be stored beyond the end of a block. -/
theorem store_eq_none (h : m.block p = some cells) {offset : ℕ}
    (hfit : cells.length < offset + values.length) : m.store p offset values = none := by
  simp [store, h, Nat.not_le.mpr hfit]

/-- A store does not change the size of a block. -/
theorem exists_block_of_store {offset : ℕ} (h : m.block p = some cells)
    (hstore : m.store p offset values = some m') :
    ∃ cells', m'.block p = some cells' ∧ cells'.length = cells.length := by
  rw [store, h, Option.bind_some] at hstore
  split at hstore
  · rename_i hfit
    obtain rfl := Option.some.inj hstore
    refine ⟨_, (block_set h _).trans (if_pos rfl), ?_⟩
    simp only [List.length_append, List.length_take, List.length_drop]
    omega
  · cases hstore

end Memory

/-- From one memory to the next, a pointer may have changed or lost the block that it owned, or got
a new one; all other blocks are as they were, and not owned by it. -/
def Frame (m : Memory β) (own : Pointer) (m' : Memory β) (own' : Pointer) : Prop :=
  ∀ p cells, own ≠ some p → m.block p = some cells → m'.block p = some cells ∧ own' ≠ some p

section Frames

variable {m m' m'' : Memory β} {own own' own'' : Pointer} {p : ℕ} {cells : List β}

/-- Nothing happens, so everything else stays as it is. -/
theorem Frame.refl (m : Memory β) (own : Pointer) : Frame m own m own :=
  fun _ _ hne hp => ⟨hp, hne⟩

/-- One operation after the other keeps what both of them keep. -/
theorem Frame.trans (h : Frame m own m' own') (h' : Frame m' own' m'' own'') :
    Frame m own m'' own'' := by
  intro p cells hne hp
  obtain ⟨hp', hne'⟩ := h p cells hne hp
  exact h' p cells hne' hp'

/-- Whatever happens to the block that the pointer owned. -/
theorem Frame.set (h : Frame m (some p) m' own') (hp : m'.block p = some cells)
    (new : Option (List β)) : Frame m (some p) ⟨m'.blocks.set p new⟩ own' := by
  intro q values hne hq
  have hqp : q ≠ p := fun heq => hne (congrArg some heq.symm)
  rw [Memory.block_set hp, if_neg hqp]
  exact h q values hne hq

/-- A pointer gets a new block, which is none of the blocks that were there. -/
theorem Frame.new (m : Memory β) (own : Pointer) (cells : List β) :
    Frame m own (m.new cells).1 (some (m.new cells).2) := by
  intro q values _ hq
  refine ⟨Memory.block_new_of_block hq, fun heq => ?_⟩
  exact Memory.ne_new hq (Option.some.inj heq).symm

end Frames

end Blocks
