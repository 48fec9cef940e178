import Tars.Cpp
import Tars.Library.Blocks

/-!
# The writers

The two writers have the same members: a buffer, the length of its content, its capacity, and
whether it may be replaced by a larger one. `BufferWriter` owns its buffer and does so;
`BufferWriterBuff` stores into the buffer that `setBuffer` gave it. A result is missing where the
code reads or stores beyond a buffer, or uses one that has been deleted. Sizes of objects in memory
are far below `2 ^ 63`, so that neither a sum of two of them nor its double wraps around.
-/

namespace Tars

open Blocks

/-- Memory whose cells hold a byte, or nothing before the first one is stored. -/
abbrev Heap := Memory (Option UInt8)

/-- The members of `BufferWriter` and of `BufferWriterBuff`: the storage, its size and what is used
of it. -/
structure Writer where
  /-- `_buf`. -/
  buf : Pointer := none
  /-- `_len`. -/
  len : ℕ := 0
  /-- `_buf_len`. -/
  bufLen : ℕ := 0
  /-- `_reverse`. -/
  reverse : Bool
  deriving DecidableEq

/-- The constructor of `BufferWriter`, which has no buffer yet and may get one. -/
def bufferWriter : Writer := { reverse := true }

/-- `setBuffer` of `BufferWriterBuff`, which writes into the caller's memory and never replaces it.
-/
def setWriterBuffer (buffer : Pointer) (size : ℕ) : Writer :=
  { buf := buffer, len := 0, bufLen := size, reverse := false }

/-! ### Memory -/

/-- `delete[]`, which does nothing to a null pointer and must not be given an address twice. -/
def deleteBuffer (h : Heap) : Pointer → Option Heap
  | none => some h
  | some p => h.free p

/-- Read some cells behind a pointer. None can be read behind a null pointer. -/
def loadCells (h : Heap) (src : Pointer) (n : ℕ) : Option (List (Option UInt8)) :=
  if n = 0 then some [] else src.bind fun p => h.load p 0 n

/-- Store some cells behind a pointer. None can be stored behind a null pointer. -/
def storeCells (h : Heap) (dst : Pointer) (offset : ℕ) (cells : List (Option UInt8)) :
    Option Heap :=
  if cells.length = 0 then some h else dst.bind fun p => h.store p offset cells

/-- `memcpy`, which loads all cells before it stores them. -/
def copyCells (h : Heap) (dst : Pointer) (offset : ℕ) (src : Pointer) (n : ℕ) : Option Heap := do
  let cells ← loadCells h src n
  storeCells h dst offset cells

/-! ### Operations -/

/-- The replacement of the buffer in `TarsReserveBuf` and in `reserve`. -/
def replaceBuffer (h : Heap) (os : Writer) (len : ℕ) : Option (Heap × Writer) := do
  let (h, p) := h.new (List.replicate len none)
  let h ← copyCells h (some p) 0 os.buf os.len
  let h ← deleteBuffer h os.buf
  return (h, { os with buf := some p, bufLen := len })

/-- `TarsReserveBuf`, which replaces a buffer that is too small where the writer may. -/
def tarsReserveBuf (h : Heap) (os : Writer) (len : ℕ) : Option (Heap × Writer) :=
  if os.reverse then
    if os.bufLen < len then replaceBuffer h os (len * 2) else some (h, os)
  else some (h, os)

/-- `TarsWriteTypeBuf`, and the macros for single values, whose bytes are given. -/
def tarsWriteTypeBuf (h : Heap) (os : Writer) (buf : Bytes) : Option (Heap × Writer) := do
  let (h, os) ← tarsReserveBuf h os (os.len + buf.length)
  let h ← storeCells h os.buf os.len (buf.map some)
  return (h, { os with len := os.len + buf.length })

/-- `writeBuf` of `BufferWriter`, from a buffer in memory, after the room for it was reserved. -/
def writeBuf (h : Heap) (os : Writer) (buf : Pointer) (len : ℕ) : Option (Heap × Writer) := do
  let (h, os) ← tarsReserveBuf h os (os.len + len)
  let h ← copyCells h os.buf os.len buf len
  return (h, { os with len := os.len + len })

/-- `reserve` of `BufferWriter`. Here the size is the caller's, and its double wraps. -/
def reserve (h : Heap) (os : Writer) (len : ℕ) : Option (Heap × Writer) :=
  if os.bufLen < len then
    let len := len * 2 % 2 ^ 64
    replaceBuffer h os (if len < 128 then 128 else len)
  else some (h, os)

/-- `getByteBuffer`. Reading a cell without a byte has no result. -/
def getByteBuffer (h : Heap) (os : Writer) : Option Bytes :=
  (loadCells h os.buf os.len).bind fun cells => cells.mapM id

/-! ### Contents -/

/-- What a writer holds: nothing without a buffer, else the first bytes of its own block. -/
inductive Contains (h : Heap) : Writer → Bytes → Prop
  /-- A writer without a buffer has no content. -/
  | empty {reverse : Bool} : Contains h ⟨none, 0, 0, reverse⟩ []
  /-- The content, and the rest of the buffer. -/
  | block {p : ℕ} {content : Bytes} {rest : List (Option UInt8)} {reverse : Bool}
      (hblock : h.block p = some (content.map some ++ rest)) :
      Contains h ⟨some p, content.length, content.length + rest.length, reverse⟩ content

section Contents

variable {h h' : Heap} {os src : Writer} {content values : Bytes} {len : ℕ}

/-- The length of the content is the member `_len`. -/
theorem Contains.len_eq (hold : Contains h os content) : os.len = content.length := by
  cases hold <;> rfl

/-- The content fits in the buffer, since the cells behind it are counted as well. -/
theorem Contains.len_le (hold : Contains h os content) : os.len ≤ os.bufLen := by
  cases hold with
  | empty => exact Nat.zero_le _
  | block hblock => exact Nat.le_add_right _ _

/-- The content can be loaded from the memory of the writer. -/
theorem Contains.load (hold : Contains h os content) :
    loadCells h os.buf os.len = some (content.map some) := by
  cases hold with
  | empty => rfl
  | block hblock =>
    rw [loadCells]
    split
    · rename_i hzero
      rw [List.length_eq_zero_iff.mp hzero, List.map_nil]
    · have hread : h.load _ ([] : List (Option UInt8)).length (content.map some).length =
          some (content.map some) := Memory.load_eq_some hblock
      simpa using hread

/-- Bytes that are all there can be read, and they are read as they are. -/
theorem mapM_some (content : Bytes) : (content.map some).mapM id = some content := by
  induction content with
  | nil => rfl
  | cons b content ih => simp [ih]

/-- The content is what `getByteBuffer` returns, so it is what a caller observes. -/
theorem Contains.getByteBuffer (hold : Contains h os content) :
    getByteBuffer h os = some content := by
  rw [Tars.getByteBuffer, hold.load, Option.bind_some, mapM_some]

/-- A writer whose block is not touched holds what it held. -/
theorem Contains.frame {own own' : Pointer} (hold : Contains h os content)
    (hframe : Frame h own h' own') (hne : ∀ p, os.buf = some p → own ≠ some p) :
    Contains h' os content := by
  cases hold with
  | empty => exact .empty
  | block hblock => exact .block (hframe _ _ (hne _ rfl) hblock).1

end Contents

/-! ### What the operations do -/

/-- A writer before and after an operation on it, with its new content. -/
structure Becomes (h : Heap) (os : Writer) (h' : Heap) (os' : Writer) (content : Bytes) :
    Prop where
  /-- The writer has its content afterwards. -/
  contains : Contains h' os' content
  /-- It is a writer of the same kind. -/
  reverse : os'.reverse = os.reverse
  /-- All other blocks are as they were. -/
  frame : Frame h os.buf h' os'.buf

section Operations

variable {h h' h'' : Heap} {os os' os'' src : Writer} {content content' values : Bytes} {p len : ℕ}
  {front back cells : List (Option UInt8)}

/-- An operation that does nothing leaves the content and the memory as they were. -/
theorem Becomes.refl (hold : Contains h os content) : Becomes h os h os content :=
  ⟨hold, rfl, .refl h os.buf⟩

/-- One operation after the other ends with the content of the second and changes no other block. -/
theorem Becomes.trans (hfirst : Becomes h os h' os' content)
    (hnext : Becomes h' os' h'' os'' content') : Becomes h os h'' os'' content' :=
  ⟨hnext.contains, hnext.reverse.trans hfirst.reverse, hfirst.frame.trans hnext.frame⟩

/-- Cells that fit are stored behind the first ones of a block. -/
theorem storeCells_spec (hblock : h.block p = some (front ++ back))
    (hfit : cells.length ≤ back.length) :
    ∃ h', storeCells h (some p) front.length cells = some h' ∧
      h'.block p = some (front ++ cells ++ back.drop cells.length) ∧
      Frame h (some p) h' (some p) := by
  by_cases hzero : cells.length = 0
  · refine ⟨h, if_pos hzero, ?_, .refl h _⟩
    rw [List.length_eq_zero_iff.mp hzero]
    simpa using hblock
  · refine ⟨_, (if_neg hzero).trans (Memory.store_eq_some hblock hfit), ?_,
      (Frame.refl h _).set hblock _⟩
    rw [Memory.block_set hblock, if_pos rfl]

/-- Bytes for which there is room are appended to the content, and the rest of the storage stays. -/
theorem Contains.append (hold : Contains h os content) (values : Bytes)
    (hroom : os.len + values.length ≤ os.bufLen) :
    ∃ h', storeCells h os.buf os.len (values.map some) = some h' ∧
      Becomes h os h' { os with len := os.len + values.length } (content ++ values) := by
  cases hold with
  | empty =>
    have hvalues : values = [] := List.length_eq_zero_iff.mp (by simpa using hroom)
    subst hvalues
    exact ⟨h, rfl, .refl .empty⟩
  | @block p content rest reverse hblock =>
    have hfit : (values.map some).length ≤ rest.length := by
      rw [List.length_map]
      exact Nat.le_of_add_le_add_left hroom
    obtain ⟨h', hstore, hnew, hframe⟩ := storeCells_spec hblock hfit
    rw [List.length_map] at hstore
    have hholds : h'.block p =
        some ((content ++ values).map some ++ rest.drop (values.map some).length) := by
      rw [hnew, List.map_append]
    refine ⟨h', hstore, ?_, rfl, hframe⟩
    convert Contains.block hholds using 2
    · exact (List.length_append ..).symm
    · simp only [List.length_append, List.length_drop, List.length_map] at hfit ⊢
      omega

/-- The block of a pointer is deleted, and no other one. -/
theorem deleteBuffer_spec {own : Pointer}
    (hlive : ∀ p, own = some p → ∃ cells, h.block p = some cells) :
    ∃ h', deleteBuffer h own = some h' ∧ (∀ p, own = some p → h'.block p = none) ∧
      ∀ p, own ≠ some p → h'.block p = h.block p := by
  cases own with
  | none => exact ⟨h, rfl, fun p hp => absurd hp (null_ne p), fun _ _ => rfl⟩
  | some p =>
    obtain ⟨cells, hp⟩ := hlive p rfl
    refine ⟨_, Memory.free_eq_some hp, fun q hq => ?_, fun q hq => ?_⟩
    · rw [Memory.block_set hp, if_pos (Option.some.inj hq).symm]
    · rw [Memory.block_set hp, if_neg fun heq => hq (congrArg some heq.symm)]

/-- The buffer of a writer is a block of the memory. -/
theorem Contains.live (hold : Contains h os content) (hp : os.buf = some p) :
    ∃ cells, h.block p = some cells := by
  cases hold with
  | empty => cases hp
  | block hblock =>
    cases hp
    exact ⟨_, hblock⟩

/-- A buffer with enough room takes the place of the old one, which is deleted. -/
theorem replaceBuffer_spec (hold : Contains h os content) (hlen : os.len ≤ len) :
    ∃ h' os', replaceBuffer h os len = some (h', os') ∧ Becomes h os h' os' content ∧
      os'.bufLen = len ∧ ∀ p, os.buf = some p → h'.block p = none := by
  set fresh : List (Option UInt8) := List.replicate len none with hfresh
  set first : Heap := (h.new fresh).1 with hfirst
  set next : ℕ := (h.new fresh).2 with hnext
  have hnew : first.block next = some ([] ++ fresh) := Memory.block_new
  have hfit : (content.map some).length ≤ fresh.length := by
    rw [List.length_map, hfresh, List.length_replicate, ← hold.len_eq]
    exact hlen
  obtain ⟨filled, hstore, hblock, hframe⟩ := storeCells_spec hnew hfit
  -- the old block is there until it is deleted
  have hkept : Frame h none first (some next) := Frame.new h none fresh
  have hcopy : copyCells first (some next) 0 os.buf os.len = some filled := by
    rw [copyCells, (hold.frame hkept fun p _ => null_ne p).load]
    exact hstore
  have hlive : ∀ p, os.buf = some p → ∃ cells, filled.block p = some cells := by
    intro p hp
    obtain ⟨cells, hcells⟩ := hold.live hp
    exact ⟨cells, (hkept.trans hframe p cells (null_ne p) hcells).1⟩
  obtain ⟨h', hdelete, hgone, hsame⟩ := deleteBuffer_spec hlive
  have hne : os.buf ≠ some next := by
    intro hp
    obtain ⟨cells, hcells⟩ := hold.live hp
    exact Memory.ne_new hcells rfl
  refine ⟨h', { os with buf := some next, bufLen := len }, ?_, ⟨?_, rfl, ?_⟩, rfl, hgone⟩
  · simp only [replaceBuffer, ← hfresh, ← hfirst, ← hnext, hcopy, hdelete, bind, Option.bind_some]
    rfl
  · have hholds : h'.block next =
        some (content.map some ++ fresh.drop (content.map some).length) := by
      rw [hsame next hne, hblock, List.nil_append]
    convert Contains.block hholds using 2
    · exact hold.len_eq
    · rw [List.length_map, List.length_drop, hfresh, List.length_replicate]
      have hle := hold.len_eq ▸ hlen
      omega
  · intro q cells hq hcells
    obtain ⟨hkeep, hother⟩ := hkept.trans hframe q cells (null_ne q) hcells
    exact ⟨(hsame q hq).trans hkeep, hother⟩

/-- Making room for some bytes succeeds, keeps the content and leaves a buffer that is large enough.
-/
theorem tarsReserveBuf_spec (hold : Contains h os content) (hreverse : os.reverse = true)
    (len : ℕ) :
    ∃ h' os', tarsReserveBuf h os len = some (h', os') ∧ Becomes h os h' os' content ∧
      len ≤ os'.bufLen := by
  rw [tarsReserveBuf, if_pos hreverse]
  split
  · rename_i hsmall
    have hroom : os.len ≤ len * 2 := by
      have hle := hold.len_le
      omega
    obtain ⟨h', os', hreplace, hbecomes, hlen, -⟩ := replaceBuffer_spec hold hroom
    exact ⟨h', os', hreplace, hbecomes, by omega⟩
  · rename_i hlarge
    exact ⟨h, os, rfl, .refl hold, Nat.not_lt.mp hlarge⟩

/-- Bytes are appended behind the content, with room for them made first. -/
theorem appended (hold : Contains h os content) (hreverse : os.reverse = true) (values : Bytes) :
    ∃ h' os' h'', tarsReserveBuf h os (os.len + values.length) = some (h', os') ∧
      Becomes h os h' os' content ∧
      storeCells h' os'.buf os'.len (values.map some) = some h'' ∧
      Becomes h os h'' { os' with len := os'.len + values.length } (content ++ values) := by
  obtain ⟨h', os', hreserve, hbecomes, hroom⟩ :=
    tarsReserveBuf_spec hold hreverse (os.len + values.length)
  have hlen : os'.len = os.len := by rw [hbecomes.contains.len_eq, hold.len_eq]
  obtain ⟨h'', hstore, hnext⟩ := hbecomes.contains.append values (by omega)
  exact ⟨h', os', h'', hreserve, hbecomes, hstore, hbecomes.trans hnext⟩

/-- The macros append their bytes to the content of a writer that may grow. -/
theorem tarsWriteTypeBuf_spec (hold : Contains h os content) (hreverse : os.reverse = true)
    (values : Bytes) :
    ∃ h' os', tarsWriteTypeBuf h os values = some (h', os') ∧
      Becomes h os h' os' (content ++ values) := by
  obtain ⟨h', os', h'', hreserve, -, hstore, hbecomes⟩ := appended hold hreverse values
  refine ⟨h'', _, ?_, hbecomes⟩
  simp only [tarsWriteTypeBuf, hreserve, hstore, bind, Option.bind_some, pure]

/-- `writeBuf` appends the content of another writer, if the two do not share their storage. -/
theorem writeBuf_spec (hold : Contains h os content) (hreverse : os.reverse = true)
    (hsrc : Contains h src values) (hne : ∀ p, src.buf = some p → os.buf ≠ some p) :
    ∃ h' os', writeBuf h os src.buf src.len = some (h', os') ∧
      Becomes h os h' os' (content ++ values) := by
  obtain ⟨h', os', h'', hreserve, hfirst, hstore, hbecomes⟩ := appended hold hreverse values
  -- the other buffer is not the one that was replaced
  have hcopy : copyCells h' os'.buf os'.len src.buf values.length = some h'' := by
    have hload := (hsrc.frame hfirst.frame hne).load
    rw [hsrc.len_eq] at hload
    rw [copyCells, hload]
    exact hstore
  refine ⟨h'', _, ?_, hbecomes⟩
  simp only [writeBuf, hsrc.len_eq, hreserve, hcopy, bind, Option.bind_some, pure]

/-- With the own buffer as its source, `writeBuf` doubles the content, or reads from the buffer
that it has deleted. -/
theorem writeBuf_self (hold : Contains h os content) (hreverse : os.reverse = true) :
    (content ≠ [] ∧ writeBuf h os os.buf os.len = none) ∨
      ∃ h' os', writeBuf h os os.buf os.len = some (h', os') ∧
        Becomes h os h' os' (content ++ content) := by
  by_cases hroom : os.bufLen < os.len + os.len
  · left
    have hzero : os.len ≠ 0 := by omega
    have hlen : os.len ≤ (os.len + os.len) * 2 := by omega
    obtain ⟨h', os', hreplace, -, -, hgone⟩ := replaceBuffer_spec hold hlen
    have hload : loadCells h' os.buf os.len = none := by
      rw [loadCells, if_neg hzero]
      cases hbuf : os.buf with
      | none => rfl
      | some p => exact Memory.load_eq_none (hgone p hbuf) 0 os.len
    constructor
    · rintro rfl
      exact hzero hold.len_eq
    · simp [writeBuf, tarsReserveBuf, hreverse, hroom, hreplace, copyCells, hload]
  · right
    obtain ⟨h', hstore, hbecomes⟩ :=
      hold.append content (by rw [← hold.len_eq]; exact Nat.not_lt.mp hroom)
    rw [← hold.len_eq] at hbecomes
    refine ⟨h', _, ?_, hbecomes⟩
    have hcopy : copyCells h os.buf os.len os.buf os.len = some h' := by
      rw [copyCells, hold.load]
      exact hstore
    simp only [writeBuf, tarsReserveBuf, hreverse, hroom, if_true, if_false, hcopy, bind,
      Option.bind_some, pure]

/-- A content that does not fit in the new buffer is stored beyond its end. -/
theorem replaceBuffer_eq_none (hold : Contains h os content) (hlen : len < os.len) :
    replaceBuffer h os len = none := by
  have hold' := hold.frame (Frame.new h none (List.replicate len none)) fun p _ => null_ne p
  have hcells : (content.map some).length = os.len := by rw [List.length_map, hold.len_eq]
  have hcopy : copyCells (h.new (List.replicate len none)).1
      (some (h.new (List.replicate len none)).2) 0 os.buf os.len = none := by
    rw [copyCells, hold'.load]
    simp only [bind, Option.bind_some]
    rw [storeCells, if_neg (by omega), Option.bind_some]
    apply Memory.store_eq_none Memory.block_new
    rw [List.length_replicate]
    omega
  simp only [replaceBuffer, hcopy, bind, Option.bind_none]

/-- Where `reserve` does not store beyond a buffer, it keeps the content. -/
theorem reserve_spec (hold : Contains h os content) (hreserve : reserve h os len = some (h', os')) :
    Becomes h os h' os' content := by
  rw [reserve] at hreserve
  split at hreserve
  · dsimp only at hreserve
    generalize (if len * 2 % 2 ^ 64 < 128 then 128 else len * 2 % 2 ^ 64) = size at hreserve
    have hsize : os.len ≤ size := by
      by_contra hshort
      rw [replaceBuffer_eq_none hold (Nat.not_le.mp hshort)] at hreserve
      cases hreserve
    obtain ⟨h₁, os₁, hreplace, hbecomes, -, -⟩ := replaceBuffer_spec hold hsize
    obtain ⟨rfl, rfl⟩ := Prod.mk.inj (Option.some.inj (hreplace.symm.trans hreserve))
    exact hbecomes
  · obtain ⟨rfl, rfl⟩ := Prod.mk.inj (Option.some.inj hreserve)
    exact .refl hold

/-- Setting a shorter length cuts the content to that length. -/
theorem Contains.take (hold : Contains h os content) (len : ℕ) (hlen : len ≤ content.length) :
    Contains h { os with len } (content.take len) := by
  cases hold with
  | empty =>
    have hzero : len = 0 := Nat.le_zero.mp hlen
    subst hzero
    exact .empty
  | @block p content rest reverse hblock =>
    have hcut : h.block p = some ((content.take len).map some ++
        ((content.drop len).map some ++ rest)) := by
      rw [← List.append_assoc, ← List.map_append, List.take_append_drop, hblock]
    convert Contains.block hcut using 2
    · exact (List.length_take_of_le hlen).symm
    · simp only [List.length_append, List.length_map, List.length_drop, List.length_take]
      omega

end Operations

end Tars
