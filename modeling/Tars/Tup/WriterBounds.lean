import Tars.Library.Scripts
import Tars.Tup.Stores
import Tars.Tup.Writer

/-!
# The bounds of the writers

The macros of the output stream reserve room and then store without a check. `TarsReserveBuf` makes
this room for a `BufferWriter`. For a `BufferWriterBuff` it does nothing, so that a sequence of
writes stays inside the buffer exactly when all its bytes fit in it. Only `writeBuf`, which no
`write` calls, compares with the capacity.
-/

namespace Tars

open Blocks Scripts TarsOutputStream

/-- A call of a `write` of the output stream. -/
inductive WriteCall where
  /-- Of a value. -/
  | value (t : Ty) (v : t.denote) (tag : UInt8)
  /-- Of characters behind a pointer. -/
  | chars (buf : Bytes) (len : BitVec 32) (tag : UInt8)
  /-- Of an array. -/
  | array (t : ElementType) (v : List t.ty.denote) (len : BitVec 32) (tag : UInt8)

/-- The stores of a call, with the exception that the caller may catch. -/
def WriteCall.stores : WriteCall → Stores
  | .value t v tag => TarsOutputStream.stores t v tag
  | .chars buf len tag => charsStores buf len tag
  | .array t v len tag => arrayStores t v len tag

/-- The stores of one call after the other, each with the bytes that it appends. -/
def storesOf (calls : List WriteCall) : List Bytes := calls.flatMap fun call => call.stores.chunks

/-- The number of bytes that some calls encode, if all their stores are made. -/
def encodedLength (calls : List WriteCall) : ℕ := (storesOf calls).flatten.length

/-- Where a primitive has stored, and what the writer held to be its buffer's length then. -/
structure StoredAt where
  /-- The index of the first byte. -/
  offset : ℕ
  /-- The number of bytes that were stored. -/
  count : ℕ
  /-- `_buf_len` at the time. -/
  bufLen : ℕ
  deriving DecidableEq

/-- A writer together with the memory that its buffer lies in. -/
structure OutputStream where
  /-- The memory, with the buffers of all writers. -/
  heap : Heap
  /-- The writer of the stream. -/
  os : Writer

namespace OutputStream

/-- One primitive, which appends its bytes and notes where. -/
def step (s : OutputStream) (buf : Bytes) : Option (OutputStream × List StoredAt) := do
  let (h, os) ← tarsWriteTypeBuf s.heap s.os buf
  return (⟨h, os⟩, [⟨s.os.len, buf.length, os.bufLen⟩])

/-- The content is not longer than the buffer, so all of it was stored inside. -/
def Fits (s : OutputStream) : Prop := s.os.len ≤ s.os.bufLen

instance (s : OutputStream) : Decidable s.Fits := inferInstanceAs (Decidable (_ ≤ _))

/-- All writes are executed, the content is never longer than the buffer, and every byte is stored
at an index below `_buf_len`. -/
def StaysInside (s : OutputStream) (calls : List WriteCall) : Prop :=
  Always step Fits s (storesOf calls) ∧
    ∃ s' es, exec step s (storesOf calls) = some (s', es) ∧
      ∀ e ∈ es, e.offset + e.count ≤ e.bufLen

section Growing

variable {s s' : OutputStream} {content buf : Bytes} {es : List StoredAt}

/-- A `BufferWriter` that owns its buffer, together with what it holds. -/
structure Owns (s : OutputStream) (content : Bytes) : Prop where
  /-- The writer holds the content that was written. -/
  contains : Contains s.heap s.os content
  /-- It may replace its buffer. -/
  reverse : s.os.reverse = true

/-- One primitive on a `BufferWriter` succeeds, appends its bytes and stays within the buffer. -/
theorem Owns.step (h : s.Owns content) (buf : Bytes) :
    ∃ s' e, s.step buf = some (s', [e]) ∧ s'.Owns (content ++ buf) ∧
      e.offset + e.count ≤ e.bufLen := by
  obtain ⟨heap, os, hwrite, hbecomes⟩ := tarsWriteTypeBuf_spec h.contains h.reverse buf
  refine ⟨⟨heap, os⟩, ⟨s.os.len, buf.length, os.bufLen⟩, ?_,
    ⟨hbecomes.contains, hbecomes.reverse.trans h.reverse⟩, ?_⟩
  · rw [OutputStream.step, hwrite]
    rfl
  · have hroom := hbecomes.contains.len_le
    rw [hbecomes.contains.len_eq, List.length_append, ← h.contains.len_eq] at hroom
    exact hroom

/-- **A run on a `BufferWriter`.** All bytes are appended, and stored inside the buffer. -/
theorem Owns.exec (h : s.Owns content) (chunks : List Bytes) :
    Always OutputStream.step Fits s chunks ∧
      ∃ s' es, Scripts.exec OutputStream.step s chunks = some (s', es) ∧
        s'.Owns (content ++ chunks.flatten) ∧ ∀ e ∈ es, e.offset + e.count ≤ e.bufLen := by
  induction chunks generalizing s content with
  | nil => exact ⟨h.contains.len_le, s, [], rfl, by simpa using h, fun e he => nomatch he⟩
  | cons buf chunks ih =>
    obtain ⟨t, e, hstep, hnext, hinside⟩ := h.step buf
    obtain ⟨hall, s', es, hexec, hlast, hrest⟩ := ih hnext
    refine ⟨(always_cons hstep).mpr ⟨h.contains.len_le, hall⟩, s', e :: es, ?_, ?_, ?_⟩
    · exact exec_cons_eq_some.mpr ⟨t, [e], es, hstep, hexec, rfl⟩
    · simpa using hlast
    · exact List.forall_mem_cons.mpr ⟨hinside, hrest⟩

end Growing

section Fixed

variable {s s' : OutputStream} {buf : Bytes} {es : List StoredAt}

/-- A `BufferWriterBuff` whose buffer has at least the size that `setBuffer` was given. -/
structure Borrows (s : OutputStream) : Prop where
  /-- The buffer is in memory. -/
  live : ∃ p cells, s.os.buf = some p ∧ s.heap.block p = some cells ∧ s.os.bufLen ≤ cells.length
  /-- It may not be replaced. -/
  reverse : s.os.reverse = false

/-- A primitive on a `BufferWriterBuff` stores without a check. -/
theorem Borrows.step_eq (h : s.Borrows) (buf : Bytes) :
    s.step buf = (storeCells s.heap s.os.buf s.os.len (buf.map some)).map fun heap =>
      (⟨heap, { s.os with len := s.os.len + buf.length }⟩,
        [⟨s.os.len, buf.length, s.os.bufLen⟩]) := by
  simp only [OutputStream.step, tarsWriteTypeBuf, tarsReserveBuf, h.reverse, bind,
    Option.bind_some, pure, Option.map_eq_bind, Option.bind_assoc, Bool.false_eq_true, if_false]
  rfl

/-- Whether or not the bytes fit, the length of the content grows, and the capacity does not. -/
theorem Borrows.length (h : s.Borrows) (hstep : s.step buf = some (s', es)) :
    s'.os = { s.os with len := s.os.len + buf.length } ∧
      es = [⟨s.os.len, buf.length, s.os.bufLen⟩] := by
  rw [h.step_eq buf] at hstep
  obtain ⟨heap, -, ⟨⟩⟩ := Option.map_eq_some_iff.mp hstep
  exact ⟨rfl, rfl⟩

/-- A store leaves the buffer in memory, as long as it was. -/
theorem Borrows.step (h : s.Borrows) (hstep : s.step buf = some (s', es)) : s'.Borrows := by
  obtain ⟨p, cells, hbuf, hblock, hlen⟩ := h.live
  rw [h.step_eq buf] at hstep
  obtain ⟨heap, hstore, ⟨⟩⟩ := Option.map_eq_some_iff.mp hstep
  refine ⟨?_, h.reverse⟩
  rw [storeCells, hbuf] at hstore
  split at hstore
  · obtain rfl := Option.some.inj hstore
    exact ⟨p, cells, hbuf, hblock, hlen⟩
  · obtain ⟨cells', hblock', hsize⟩ := Memory.exists_block_of_store hblock hstore
    exact ⟨p, cells', hbuf, hblock', hsize ▸ hlen⟩

/-- A primitive whose bytes fit behind the content can be executed in a borrowed buffer. -/
theorem Borrows.fits (h : s.Borrows) (hroom : s.os.len + buf.length ≤ s.os.bufLen) :
    ∃ s' es, s.step buf = some (s', es) := by
  obtain ⟨p, cells, hbuf, hblock, hlen⟩ := h.live
  have hsplit : s.heap.block p = some (cells.take s.os.len ++ cells.drop s.os.len) := by
    rw [List.take_append_drop, hblock]
  have hfit : (buf.map some).length ≤ (cells.drop s.os.len).length := by
    rw [List.length_map, List.length_drop]
    omega
  obtain ⟨heap, hstore, -, -⟩ := storeCells_spec hsplit hfit
  rw [List.length_take_of_le (by omega)] at hstore
  rw [h.step_eq buf, hbuf, hstore]
  exact ⟨_, _, rfl⟩

/-- **A run on a `BufferWriterBuff`** stays inside the buffer exactly when all its bytes fit. -/
theorem Borrows.stays_iff (h : s.Borrows) (chunks : List Bytes) :
    (Always OutputStream.step Fits s chunks ∧
      ∃ s' es, exec OutputStream.step s chunks = some (s', es) ∧
        ∀ e ∈ es, e.offset + e.count ≤ e.bufLen) ↔
      s.os.len + chunks.flatten.length ≤ s.os.bufLen := by
  induction chunks generalizing s with
  | nil =>
    refine ⟨fun hall => hall.1, fun hfits => ⟨hfits, s, [], rfl, fun e he => nomatch he⟩⟩
  | cons buf chunks ih =>
    rw [List.flatten_cons, List.length_append, ← Nat.add_assoc]
    constructor
    · rintro ⟨hall, s', es, hexec, hinside⟩
      obtain ⟨t, first, rest, hstep, hexec', rfl⟩ := exec_cons_eq_some.mp hexec
      have hnext := (ih (h.step hstep)).mp ⟨((always_cons hstep).mp hall).2, s', rest, hexec',
        fun e he => hinside e (List.mem_append_right first he)⟩
      rwa [(h.length hstep).1] at hnext
    · intro hfits
      have hroom : s.os.len + buf.length ≤ s.os.bufLen := (Nat.le_add_right _ _).trans hfits
      obtain ⟨t, first, hstep⟩ := h.fits hroom
      obtain ⟨hos, rfl⟩ := h.length hstep
      have hrest : t.os.len + chunks.flatten.length ≤ t.os.bufLen := by
        rw [hos]
        exact hfits
      obtain ⟨hall, s', es, hexec, hinside⟩ := (ih (h.step hstep)).mpr hrest
      refine ⟨(always_cons hstep).mpr ⟨(Nat.le_add_right _ _).trans hroom, hall⟩, s', _,
        exec_cons_eq_some.mpr ⟨t, _, es, hstep, hexec, rfl⟩, ?_⟩
      exact List.forall_mem_cons.mpr ⟨hroom, hinside⟩

end Fixed

/-- **The bounds.** A `BufferWriter` that holds something of its own stays inside its buffer under
all sequences of writes, and a `BufferWriterBuff` exactly under those whose bytes fit in the size
that `setBuffer` was given. -/
theorem staysInside_iff (h : Heap) (calls : List WriteCall) :
    (∀ os content, Contains h os content → os.reverse = true → StaysInside ⟨h, os⟩ calls) ∧
      ∀ p cells size, h.block p = some cells → size ≤ cells.length →
        (StaysInside ⟨h, setWriterBuffer (some p) size⟩ calls ↔ encodedLength calls ≤ size) := by
  constructor
  · intro os content hcontains hreverse
    have howns : Owns ⟨h, os⟩ content := ⟨hcontains, hreverse⟩
    obtain ⟨hall, s', es, hexec, -, hinside⟩ := howns.exec (storesOf calls)
    exact ⟨hall, s', es, hexec, hinside⟩
  · intro p cells size hblock hsize
    have hborrows : Borrows ⟨h, setWriterBuffer (some p) size⟩ :=
      ⟨⟨p, cells, rfl, hblock, hsize⟩, rfl⟩
    have hiff := hborrows.stays_iff (storesOf calls)
    rwa [show (⟨h, setWriterBuffer (some p) size⟩ : OutputStream).os.len = 0 from rfl,
      Nat.zero_add] at hiff

/-- The three bytes of the number 300 go into a buffer of one byte: nothing is thrown, and the
second store is beyond the end. -/
theorem staysInside_iff_fails :
    let s : OutputStream := ⟨⟨[some [none, none, none]]⟩, setWriterBuffer (some 0) 1⟩
    let calls : List WriteCall := [.value (.int .int32) (300#32 : BitVec 32) 0]
    ¬s.StaysInside calls ∧
      ∃ s', exec step s (storesOf calls) = some (s', [⟨0, 1, 1⟩, ⟨1, 2, 1⟩]) ∧ ¬s'.Fits := by
  intro s calls
  have hrun : ∃ s', exec step s (storesOf calls) = some (s', [⟨0, 1, 1⟩, ⟨1, 2, 1⟩]) ∧ ¬s'.Fits :=
    ⟨_, rfl, by decide⟩
  refine ⟨fun hstays => ?_, hrun⟩
  obtain ⟨s', hexec, hlong⟩ := hrun
  exact hlong (hstays.1.last hexec)

end OutputStream

end Tars
