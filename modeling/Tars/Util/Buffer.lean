import Tars.Cpp

/-!
# The byte buffer `TC_Buffer`

A growable array with a read and a write cursor. All sizes are `size_t`, so sums and
differences are taken modulo `2 ^ 64`, and the class's assertions make an operation
fail, as does an array that is larger than any object. The second half shows that on a
well-formed buffer nothing wraps and, as long as an array of `2 ^ 62` bytes holds the data,
nothing fails: the operations act on the readable bytes as on a byte queue.
-/

namespace Tars

/-- The members of `TC_Buffer`. `buffer` is the allocated array. -/
structure TCBuffer where
  /-- `_readPos`, the read cursor. -/
  readPos : ℕ
  /-- `_writePos`, the write cursor. -/
  writePos : ℕ
  /-- `_capacity`, the recorded size of the array. -/
  capacity : ℕ
  /-- `_buffer`, the array itself. -/
  buffer : Bytes
  /-- `_highWaterPercent`, the load above which `Shrink` does nothing. -/
  highWaterPercent : ℕ
  deriving DecidableEq

namespace TCBuffer

/-- `kMaxBufferSize`: half of the greatest `size_t`, beyond which no data is accepted. -/
def kMaxBufferSize : ℕ := (2 ^ 64 - 1) / 2

/-- `kDefaultSize`: the least capacity that is allocated, and that `Shrink` leaves. -/
def kDefaultSize : ℕ := 128

/-- `PTRDIFF_MAX`: no object is larger, and `new char[]` throws when it is asked for more. -/
def maxArraySize : ℕ := 2 ^ 63 - 1

/-- The constructor: nothing is allocated, and both positions are at the front. -/
def new : TCBuffer := ⟨0, 0, 0, [], 50⟩

/-- `ReadableSize`: how many bytes were written and not yet read, computed as a `size_t`. -/
def readableSize (b : TCBuffer) : ℕ := sizeSub b.writePos b.readPos

/-- `WritableSize`: how many bytes still fit behind the written ones, computed as a `size_t`. -/
def writableSize (b : TCBuffer) : ℕ := sizeSub b.capacity b.writePos

/-- `IsEmpty`: there is nothing to read, since the read position has reached the write position. -/
def isEmpty (b : TCBuffer) : Bool := b.readableSize == 0

/-- The bytes at `ReadAddr`, as many as `ReadableSize` says (`PeekData`). -/
def readable (b : TCBuffer) : Bytes := (b.buffer.drop b.readPos).take b.readableSize

/-- The loop of `RoundUp2Power`; `none` when it does not end in time. -/
def roundUpLoop : ℕ → ℕ → ℕ → Option ℕ
  | 0, _, _ => none
  | fuel + 1, size, roundUp =>
    if roundUp < size then roundUpLoop fuel size (roundUp * 2 % 2 ^ 64) else some roundUp

/-- `RoundUp2Power`: the next power of two. Sixty-four doublings exhaust a `size_t`. -/
def roundUp2Power (size : ℕ) : Option ℕ :=
  if size = 0 then some 0 else roundUpLoop 65 size 1

/-- The capacity loop of `AssureSpace`. It fails where the source asserts `false`. -/
def growCapacity : ℕ → ℕ → ℕ → ℕ → ℕ → Option ℕ
  | 0, _, _, _, _ => none
  | fuel + 1, readPos, writePos, needsize, capacity =>
    if (sizeSub capacity writePos + readPos) % 2 ^ 64 < needsize then
      if capacity < kDefaultSize then
        growCapacity fuel readPos writePos needsize kDefaultSize
      else if capacity ≤ kMaxBufferSize then
        match roundUp2Power capacity with
        | none => none
        | some newCapacity =>
          if capacity < newCapacity then
            growCapacity fuel readPos writePos needsize newCapacity
          else
            growCapacity fuel readPos writePos needsize (2 * newCapacity % 2 ^ 64)
      else none
    else some capacity

/-- `AssureSpace`. A grown array starts with the readable bytes, as does one whose
readable bytes were moved to the front. It fails where an assertion does, and where `new char[]`
throws, which leaves `_capacity` with the size of the array that there is not. -/
def assureSpace (b : TCBuffer) (needsize : ℕ) : Option TCBuffer :=
  if needsize ≤ b.writableSize then some b
  else
    match growCapacity 65 b.readPos b.writePos needsize b.capacity with
    | none => none
    | some capacity =>
      let dataSize := b.readableSize
      if b.capacity < capacity then
        if maxArraySize < capacity then none
        else
          -- `new char[]` leaves the rest undefined; no readable byte comes from there
          let tmp := b.readable ++ List.replicate (capacity - dataSize) 0
          let grown := { b with
            readPos := 0, writePos := dataSize, capacity := capacity, buffer := tmp }
          if needsize ≤ grown.writableSize then some grown else none
      else if 0 < b.readPos then
        let moved := { b with
          readPos := 0, writePos := dataSize, buffer := b.readable ++ b.buffer.drop dataSize }
        if needsize ≤ moved.writableSize then some moved else none
      else none

/-- Store bytes at `WriteAddr`, where the caller has made sure of the room. -/
def storeAtWrite (b : TCBuffer) (data : Bytes) : TCBuffer :=
  { b with buffer :=
      b.buffer.take b.writePos ++ data ++ b.buffer.drop (b.writePos + data.length) }

/-- `Produce`: what was stored behind the written bytes counts as written from then on. -/
def produce (b : TCBuffer) (n : ℕ) : TCBuffer :=
  { b with writePos := (b.writePos + n) % 2 ^ 64 }

/-- `PushData`: the buffer afterwards and the number of bytes taken. -/
def pushData (b : TCBuffer) (data : Bytes) : Option (TCBuffer × ℕ) :=
  if data.length = 0 then some (b, 0)
  else if kMaxBufferSize ≤ (b.readableSize + data.length) % 2 ^ 64 then some (b, 0)
  else
    match b.assureSpace data.length with
    | none => none
    | some b' => some ((b'.storeAtWrite data).produce data.length, data.length)

/-- `Clear`: both positions go back to the front, and the memory is kept. -/
def clear (b : TCBuffer) : TCBuffer := { b with readPos := 0, writePos := 0 }

/-- `Consume`, which asserts that the bytes are there. A buffer without readable bytes starts again
from its front. -/
def consume (b : TCBuffer) (n : ℕ) : Option TCBuffer :=
  if (b.readPos + n) % 2 ^ 64 ≤ b.writePos then
    let b' := { b with readPos := (b.readPos + n) % 2 ^ 64 }
    some (if b'.isEmpty then b'.clear else b')
  else none

/-- `PopData`: the buffer afterwards and the bytes copied out, as many as it returns. -/
def popData (b : TCBuffer) (size : ℕ) : Option (TCBuffer × Bytes) :=
  let dataSize := b.readableSize
  if size = 0 ∨ dataSize = 0 then some (b, [])
  else
    let size := if dataSize < size then dataSize else size
    match b.consume size with
    | none => none
    | some b' => some (b', (b.buffer.drop b.readPos).take size)

/-- `Shrink` gives memory back: all of it if nothing is to be read, else what is not needed. -/
def shrink (b : TCBuffer) : Option TCBuffer :=
  if b.isEmpty then some { b.clear with capacity := 0, buffer := [] }
  else if b.capacity ≤ kDefaultSize then some b
  else if b.capacity * b.highWaterPercent % 2 ^ 64 < b.readableSize * 100 % 2 ^ 64 then some b
  else
    match roundUp2Power b.readableSize with
    | none => none
    | some newCapacity =>
      some { b with
        readPos := 0, writePos := b.readableSize, capacity := newCapacity,
        buffer := b.readable ++ List.replicate (newCapacity - b.readableSize) 0 }

/-- `Swap`: this buffer and the other one afterwards. The percentages stay where they are. -/
def swap (b buf : TCBuffer) : TCBuffer × TCBuffer :=
  ({ buf with highWaterPercent := b.highWaterPercent },
    { b with highWaterPercent := buf.highWaterPercent })

/-- `SetHighWaterPercent`, which ignores what is no sensible percentage: below 10, or 100 and more.
-/
def setHighWaterPercent (b : TCBuffer) (percents : ℕ) : TCBuffer :=
  if percents < 10 ∨ 100 ≤ percents then b else { b with highWaterPercent := percents }

/-! ### Capacities -/

/-- Zero and the powers of two up to some exponent: `63` for the capacities that `AssureSpace`
computes with, and `62` for those of arrays that can be allocated. -/
def IsCapacity (top n : ℕ) : Prop := n = 0 ∨ ∃ k ≤ top, n = 2 ^ k

/-- A capacity is at most the largest power of two. -/
theorem IsCapacity.le {top n : ℕ} (h : IsCapacity top n) : n ≤ 2 ^ top := by
  obtain rfl | ⟨k, hk, rfl⟩ := h
  · exact Nat.zero_le _
  · exact Nat.pow_le_pow_right (by decide) hk

/-- Every capacity of an array is one that `AssureSpace` computes with. -/
theorem IsCapacity.mono {top top' n : ℕ} (h : IsCapacity top n) (hle : top ≤ top') :
    IsCapacity top' n := h.imp_right fun ⟨k, hk, hpow⟩ => ⟨k, hk.trans hle, hpow⟩

/-- The default size is a capacity, as every power of two is that an allocation can have. -/
theorem isCapacity_default : IsCapacity 63 kDefaultSize := .inr ⟨7, by decide, rfl⟩

/-- Doubling a capacity that is at most `kMaxBufferSize` gives a capacity. -/
theorem IsCapacity.double {n : ℕ} (h : IsCapacity 63 n) (hle : n ≤ kMaxBufferSize) :
    IsCapacity 63 (2 * n) := by
  obtain hzero | ⟨k, hk, rfl⟩ := h
  · exact .inl (by omega)
  · have hlt : k < 63 := by
      by_contra hge
      obtain rfl : k = 63 := by omega
      exact absurd hle (by decide)
    exact .inr ⟨k + 1, hlt, (pow_succ' 2 k).symm⟩

/-- A capacity above `2 ^ 62` is one that no array has. -/
theorem IsCapacity.not_allocatable {n : ℕ} (h : IsCapacity 63 n) (hlarge : 2 ^ 62 < n) :
    maxArraySize < n := by
  obtain hzero | ⟨k, hk, rfl⟩ := h
  · omega
  · have hpow : 2 ^ 63 ≤ 2 ^ k :=
      Nat.pow_le_pow_right (by decide) ((Nat.pow_lt_pow_iff_right (by decide)).mp hlarge)
    unfold maxArraySize
    omega

/-! ### Well-formed buffers -/

/-- The representation invariant: ordered cursors inside an array whose size is the
recorded capacity, which is zero or a power of two that an array can have. -/
structure WF (b : TCBuffer) : Prop where
  /-- The read cursor is not past the write cursor. -/
  read_le : b.readPos ≤ b.writePos
  /-- The write cursor is inside the array. -/
  write_le : b.writePos ≤ b.capacity
  /-- The capacity is the allocated size. -/
  length_eq : b.buffer.length = b.capacity
  /-- The capacity is zero or a power of two. -/
  capacity_pow : b.capacity = 0 ∨ ∃ k ≤ 62, b.capacity = 2 ^ k

/-- A new buffer is well formed: it has no memory and no bytes. -/
theorem wf_new : new.WF := ⟨le_rfl, le_rfl, rfl, .inl rfl⟩

/-- A new buffer holds no bytes, so nothing can be read from it. -/
@[simp] theorem readable_new : new.readable = [] := rfl

section WellFormed

variable {b : TCBuffer}

/-- The capacity of a well-formed buffer is at most `2 ^ 62`. -/
theorem WF.capacity_le (h : b.WF) : b.capacity ≤ 2 ^ 62 := IsCapacity.le h.capacity_pow

/-- The capacity of a well-formed buffer is one that `AssureSpace` computes with. -/
theorem WF.isCapacity (h : b.WF) : IsCapacity 63 b.capacity :=
  IsCapacity.mono h.capacity_pow (by decide)

/-- The readable size does not wrap, since the read position is not behind the write position. -/
theorem WF.readableSize_eq (h : b.WF) : b.readableSize = b.writePos - b.readPos :=
  sizeSub_of_le h.read_le

/-- The writable size does not wrap, since the write position is within the capacity. -/
theorem WF.writableSize_eq (h : b.WF) : b.writableSize = b.capacity - b.writePos :=
  sizeSub_of_le h.write_le

/-- There are as many readable bytes as `ReadableSize` says. -/
theorem WF.length_readable (h : b.WF) : b.readable.length = b.readableSize := by
  have hread := h.read_le
  have hwrite := h.write_le
  have hlen := h.length_eq
  rw [readable, List.length_take, List.length_drop, h.readableSize_eq]
  omega

/-- `IsEmpty` compares two positions; in a well-formed buffer they are equal exactly when there are
no readable bytes. -/
theorem WF.isEmpty_iff (h : b.WF) : b.isEmpty = true ↔ b.readable = [] := by
  rw [← List.length_eq_zero_iff, h.length_readable, isEmpty, beq_iff_eq]

/-- A buffer with readable bytes is not empty, which is how the loops over a send buffer find that
they have to go on. -/
theorem WF.isEmpty_eq_false (h : b.WF) : b.isEmpty = false ↔ b.readable ≠ [] := by
  rw [← Bool.not_eq_true, h.isEmpty_iff]

private theorem roundUpLoop_pow {fuel size k top : ℕ} (htop : top ≤ 63) (hk : k ≤ top)
    (hfuel : 64 < fuel + k) (hsize : size ≤ 2 ^ top) (hprev : k = 0 ∨ 2 ^ (k - 1) < size) :
    ∃ j ≤ top, roundUpLoop fuel size (2 ^ k) = some (2 ^ j) ∧ size ≤ 2 ^ j ∧
      (j = 0 ∨ 2 ^ (j - 1) < size) := by
  induction fuel generalizing k with
  | zero => omega
  | succ fuel ih =>
    rw [roundUpLoop]
    by_cases hlt : 2 ^ k < size
    · have hk63 : k < top := by
        by_contra hge
        obtain rfl : k = top := by omega
        omega
      have hdouble : 2 ^ k * 2 % 2 ^ 64 = 2 ^ (k + 1) := by
        rw [← pow_succ]
        exact Nat.mod_eq_of_lt (Nat.pow_lt_pow_right (by decide) (by omega))
      rw [if_pos hlt, hdouble]
      exact ih (by omega) (by omega) (.inr (by simpa using hlt))
    · rw [if_neg hlt]
      exact ⟨k, by omega, rfl, by omega, hprev⟩

/-- `RoundUp2Power` ends for every size up to `2 ^ 63` with the least power of two
that is not smaller, so that it stays below any power of two that is not smaller. -/
theorem roundUp2Power_spec {size top : ℕ} (htop : top ≤ 63) (hpos : 0 < size)
    (hsize : size ≤ 2 ^ top) :
    ∃ j ≤ top, roundUp2Power size = some (2 ^ j) ∧ size ≤ 2 ^ j ∧
      (j = 0 ∨ 2 ^ (j - 1) < size) := by
  rw [roundUp2Power, if_neg (by omega)]
  exact roundUpLoop_pow (k := 0) htop (Nat.zero_le top) (by decide) hsize (.inl rfl)

/-- A power of two is its own rounding, so a capacity that was rounded before is not enlarged again.
-/
theorem roundUp2Power_pow {k : ℕ} (hk : k ≤ 63) : roundUp2Power (2 ^ k) = some (2 ^ k) := by
  obtain ⟨j, _, hround, hle, hleast⟩ := roundUp2Power_spec le_rfl (Nat.two_pow_pos k)
    (Nat.pow_le_pow_right (by decide) hk)
  have hkj : k ≤ j := (Nat.pow_le_pow_iff_right (by decide)).mp hle
  have hjk : j ≤ k := by
    obtain hzero | hlt := hleast
    · omega
    · have := (Nat.pow_lt_pow_iff_right (by decide)).mp hlt
      omega
  rw [hround, Nat.le_antisymm hjk hkj]

/-- One round of the capacity loop without wrapping: the free room is compared with the need,
and a capacity that is too small becomes the default size or is doubled. -/
theorem growCapacity_succ (fuel : ℕ) {readPos writePos needsize capacity : ℕ}
    (hread : readPos ≤ writePos) (hwrite : writePos ≤ capacity)
    (hcapacity : IsCapacity 63 capacity) :
    growCapacity (fuel + 1) readPos writePos needsize capacity =
      if capacity - writePos + readPos < needsize then
        if capacity < kDefaultSize then growCapacity fuel readPos writePos needsize kDefaultSize
        else if capacity ≤ kMaxBufferSize then
          growCapacity fuel readPos writePos needsize (2 * capacity)
        else none
      else some capacity := by
  have hle := hcapacity.le
  have hsum : (sizeSub capacity writePos + readPos) % 2 ^ 64 = capacity - writePos + readPos := by
    rw [sizeSub_of_le hwrite]
    omega
  rw [growCapacity, hsum]
  by_cases hsmall : capacity < kDefaultSize
  · simp only [if_pos hsmall]
  · simp only [if_neg hsmall]
    obtain hzero | ⟨k, hk, rfl⟩ := hcapacity
    · exact absurd (by rw [hzero]; decide) hsmall
    · by_cases hmax : 2 ^ k ≤ kMaxBufferSize
      · have hdouble : 2 * 2 ^ k % 2 ^ 64 = 2 * 2 ^ k :=
          Nat.mod_eq_of_lt (by unfold kMaxBufferSize at hmax; omega)
        simp only [if_pos hmax, roundUp2Power_pow hk, lt_self_iff_false, if_false, hdouble]
      · simp only [if_neg hmax]

/-- The capacity loop started at a capacity of at least the default size ends with a capacity
that has room for the readable bytes and the need, and that an array can have if an array can have
room for them at all. The fuel counts the doublings. -/
private theorem growCapacity_pow (fuel : ℕ) {readPos writePos needsize k : ℕ}
    (hread : readPos ≤ writePos) (hwrite : writePos ≤ 2 ^ k)
    (hneed : writePos - readPos + needsize ≤ 2 ^ 62) (hk7 : 7 ≤ k) (hk : k ≤ 62)
    (hfuel : 62 < fuel + k) :
    ∃ capacity, growCapacity fuel readPos writePos needsize (2 ^ k) = some capacity ∧
      2 ^ k ≤ capacity ∧ writePos - readPos + needsize ≤ capacity ∧ IsCapacity 62 capacity := by
  induction fuel generalizing k with
  | zero => omega
  | succ fuel ih =>
    have hge7 : 2 ^ 7 ≤ 2 ^ k := Nat.pow_le_pow_right (by decide) hk7
    rw [growCapacity_succ fuel hread hwrite (.inr ⟨k, hk.trans (by decide), rfl⟩)]
    by_cases hlt : 2 ^ k - writePos + readPos < needsize
    · have hk62 : k < 62 := by
        by_contra hge
        obtain rfl : k = 62 := by omega
        omega
      have hle62 : 2 ^ k ≤ 2 ^ 62 := Nat.pow_le_pow_right (by decide) hk
      rw [if_pos hlt, if_neg (by unfold kDefaultSize; omega),
        if_pos (by unfold kMaxBufferSize; omega), ← pow_succ']
      obtain ⟨capacity, hgrow, hle, hroom, hpow⟩ := ih (k := k + 1)
        (by rw [pow_succ]; omega) (by omega) (by omega) (by omega)
      exact ⟨capacity, hgrow, by rw [pow_succ] at hle; omega, hroom, hpow⟩
    · rw [if_neg hlt]
      exact ⟨2 ^ k, rfl, le_rfl, by omega, .inr ⟨k, hk, rfl⟩⟩

/-- The capacity loop on a well-formed buffer ends with a capacity that has room for the
readable bytes and the need. -/
theorem WF.growCapacity_spec (h : b.WF) {needsize : ℕ}
    (hneed : b.readableSize + needsize ≤ 2 ^ 62) :
    ∃ capacity, growCapacity 65 b.readPos b.writePos needsize b.capacity = some capacity ∧
      b.capacity ≤ capacity ∧ b.readableSize + needsize ≤ capacity ∧ IsCapacity 62 capacity := by
  have hread := h.read_le
  have hwrite := h.write_le
  rw [h.readableSize_eq] at hneed ⊢
  by_cases hsmall : b.capacity < kDefaultSize
  · rw [growCapacity_succ 64 hread hwrite h.isCapacity]
    by_cases hlt : b.capacity - b.writePos + b.readPos < needsize
    · unfold kDefaultSize at hsmall
      obtain ⟨capacity, hgrow, hle, hroom, hpow⟩ := growCapacity_pow 64 (k := 7) hread
        (by omega) hneed le_rfl (by decide) (by decide)
      rw [if_pos hlt, if_pos (by unfold kDefaultSize; omega)]
      exact ⟨capacity, hgrow, by omega, hroom, hpow⟩
    · rw [if_neg hlt]
      exact ⟨b.capacity, rfl, le_rfl, by omega, h.capacity_pow⟩
  · obtain hzero | ⟨k, hk, hpow⟩ := h.capacity_pow
    · exact absurd (by rw [hzero]; decide) hsmall
    · have hk7 : 7 ≤ k := by
        by_contra hlt
        have : 2 ^ k ≤ 2 ^ 6 := Nat.pow_le_pow_right (by decide) (by omega)
        unfold kDefaultSize at hsmall
        omega
      rw [hpow] at hwrite ⊢
      exact growCapacity_pow 65 hread hwrite hneed hk7 hk (by omega)

/-- Rearranging the readable bytes to the front of an array keeps them readable. -/
private theorem readable_front {data rest : Bytes} {capacity percent : ℕ} :
    (⟨0, data.length, capacity, data ++ rest, percent⟩ : TCBuffer).readable = data := by
  have hsize : (⟨0, data.length, capacity, data ++ rest, percent⟩ : TCBuffer).readableSize =
      data.length := sizeSub_of_le (Nat.zero_le _)
  rw [readable, hsize]
  simp

/-- **`AssureSpace` on a well-formed buffer.** As long as the largest array holds the
readable bytes and the need it does not fail, keeps the readable bytes and makes the
requested room. -/
theorem WF.assureSpace_spec (h : b.WF) (needsize : ℕ)
    (hneed : b.readableSize + needsize ≤ 2 ^ 62) :
    ∃ b', b.assureSpace needsize = some b' ∧ b'.WF ∧ b'.readable = b.readable ∧
      needsize ≤ b'.writableSize := by
  by_cases hroom : needsize ≤ b.writableSize
  · exact ⟨b, by rw [assureSpace, if_pos hroom], h, rfl, hroom⟩
  · obtain ⟨capacity, hgrow, hle, hfits, hpow⟩ := h.growCapacity_spec hneed
    have hlen := h.length_readable
    have hcap := h.capacity_le
    have hsize := h.readableSize_eq
    have hread := h.read_le
    have hwrite := h.write_le
    have hmax := hpow.le
    have halloc : ¬maxArraySize < capacity := by
      unfold maxArraySize
      omega
    rw [assureSpace, if_neg hroom, hgrow]
    by_cases hgrown : b.capacity < capacity
    · let b' : TCBuffer := ⟨0, b.readable.length, capacity,
        b.readable ++ List.replicate (capacity - b.readable.length) 0, b.highWaterPercent⟩
      have hwf : b'.WF := by
        refine ⟨Nat.zero_le _, by dsimp [b']; omega, ?_, hpow⟩
        simp only [b', List.length_append, List.length_replicate]
        omega
      have hspace : needsize ≤ b'.writableSize := by
        rw [hwf.writableSize_eq]
        dsimp [b']
        omega
      refine ⟨b', ?_, hwf, readable_front, hspace⟩
      simp only [if_pos hgrown, if_neg halloc, ← hlen]
      exact if_pos hspace
    · have hsame : capacity = b.capacity := by omega
      have hpos : 0 < b.readPos := by
        rw [h.writableSize_eq] at hroom
        omega
      let b' : TCBuffer := ⟨0, b.readable.length, b.capacity,
        b.readable ++ b.buffer.drop b.readable.length, b.highWaterPercent⟩
      have hwf : b'.WF := by
        refine ⟨Nat.zero_le _, by dsimp [b']; omega, ?_, h.capacity_pow⟩
        simp only [b', List.length_append, List.length_drop, h.length_eq]
        omega
      have hspace : needsize ≤ b'.writableSize := by
        rw [hwf.writableSize_eq]
        dsimp [b']
        omega
      refine ⟨b', ?_, hwf, readable_front, hspace⟩
      simp only [if_neg hgrown, if_pos hpos, ← hlen]
      exact if_pos hspace

/-- A capacity that the loop ends with has room for the readable bytes and the need, whatever
they are. -/
private theorem growCapacity_of_some (fuel : ℕ) {readPos writePos needsize capacity c : ℕ}
    (hread : readPos ≤ writePos) (hwrite : writePos ≤ capacity)
    (hcapacity : IsCapacity 63 capacity)
    (hgrow : growCapacity fuel readPos writePos needsize capacity = some c) :
    writePos - readPos + needsize ≤ c ∧ IsCapacity 63 c := by
  induction fuel generalizing capacity with
  | zero => cases hgrow
  | succ fuel ih =>
    rw [growCapacity_succ fuel hread hwrite hcapacity] at hgrow
    by_cases hroom : capacity - writePos + readPos < needsize
    · rw [if_pos hroom] at hgrow
      by_cases hsmall : capacity < kDefaultSize
      · rw [if_pos hsmall] at hgrow
        exact ih (by omega) isCapacity_default hgrow
      · rw [if_neg hsmall] at hgrow
        by_cases hmax : capacity ≤ kMaxBufferSize
        · rw [if_pos hmax] at hgrow
          exact ih (by omega) (hcapacity.double hmax) hgrow
        · rw [if_neg hmax] at hgrow
          cases hgrow
    · rw [if_neg hroom] at hgrow
      obtain rfl := Option.some.inj hgrow
      exact ⟨by omega, hcapacity⟩

/-- `AssureSpace` fails when not even the largest array holds the readable bytes and the need: the
capacity loop runs into the source's `assert(false)`, or the array that it asks for is too large
to be allocated. -/
theorem WF.assureSpace_eq_none (h : b.WF) {needsize : ℕ}
    (hneed : 2 ^ 62 < b.readableSize + needsize) : b.assureSpace needsize = none := by
  have hcapacity := h.capacity_le
  have hread := h.read_le
  have hwrite := h.write_le
  have hroom := h.writableSize_eq
  rw [h.readableSize_eq] at hneed
  rw [assureSpace, if_neg (by omega)]
  cases hgrow : growCapacity 65 b.readPos b.writePos needsize b.capacity with
  | none => rfl
  | some c =>
    obtain ⟨hfits, hc⟩ := growCapacity_of_some 65 hread hwrite h.isCapacity hgrow
    have hgrown : b.capacity < c := by omega
    have hlarge : 2 ^ 62 < c := by omega
    simp only [if_pos hgrown, if_pos (hc.not_allocatable hlarge)]

/-- Whenever `AssureSpace` succeeds the largest array holds the readable bytes and the need;
it has kept the readable bytes and made the requested room. -/
theorem WF.assureSpace_of_some (h : b.WF) {needsize : ℕ} {b' : TCBuffer}
    (hassure : b.assureSpace needsize = some b') :
    b.readableSize + needsize ≤ 2 ^ 62 ∧ b'.WF ∧ b'.readable = b.readable ∧
      needsize ≤ b'.writableSize := by
  by_cases hneed : b.readableSize + needsize ≤ 2 ^ 62
  · obtain ⟨grown, hgrown, hwf, hsame, hspace⟩ := h.assureSpace_spec needsize hneed
    obtain rfl := Option.some.inj (hgrown.symm.trans hassure)
    exact ⟨hneed, hwf, hsame, hspace⟩
  · rw [h.assureSpace_eq_none (by omega)] at hassure
    cases hassure

/-- Storing bytes in the free room and advancing the write cursor appends them to the
readable bytes. -/
theorem WF.store_produce (h : b.WF) (data : Bytes) (hroom : data.length ≤ b.writableSize) :
    ((b.storeAtWrite data).produce data.length).WF ∧
      ((b.storeAtWrite data).produce data.length).readable = b.readable ++ data := by
  have hread := h.read_le
  have hwrite := h.write_le
  have hlen := h.length_eq
  have hcap := h.capacity_le
  rw [h.writableSize_eq] at hroom
  have hpos : (b.writePos + data.length) % 2 ^ 64 = b.writePos + data.length := by omega
  have hwf : ((b.storeAtWrite data).produce data.length).WF := by
    refine ⟨?_, ?_, ?_, h.capacity_pow⟩
    · simp only [produce, storeAtWrite, hpos]
      omega
    · simp only [produce, storeAtWrite, hpos]
      omega
    · simp only [produce, storeAtWrite, List.length_append, List.length_take, List.length_drop]
      omega
  refine ⟨hwf, ?_⟩
  have hsize := hwf.readableSize_eq
  simp only [produce, storeAtWrite, hpos] at hsize
  have htake : (b.buffer.take b.writePos).length = b.writePos := by
    rw [List.length_take]
    omega
  have hdrop : (b.buffer.take b.writePos).drop b.readPos = b.readable := by
    rw [readable, h.readableSize_eq, List.drop_take]
  have hreadable : b.readable.length = b.writePos - b.readPos := by
    rw [h.length_readable, h.readableSize_eq]
  rw [readable]
  simp only [produce, storeAtWrite, hpos, hsize]
  rw [List.append_assoc, List.drop_append_of_le_length (by omega), hdrop, ← List.append_assoc,
    List.take_append_of_le_length (by rw [List.length_append]; omega), List.take_of_length_le]
  rw [List.length_append]
  omega

/-- **`PushData` on a well-formed buffer** takes all bytes and appends them, as long as the largest
array holds them behind the readable ones. -/
theorem WF.pushData_spec (h : b.WF) (data : Bytes)
    (hsize : b.readable.length + data.length ≤ 2 ^ 62) :
    ∃ b', b.pushData data = some (b', data.length) ∧ b'.WF ∧
      b'.readable = b.readable ++ data := by
  rw [h.length_readable] at hsize
  by_cases hzero : data.length = 0
  · rw [List.length_eq_zero_iff] at hzero
    subst hzero
    exact ⟨b, rfl, h, by simp⟩
  · have hguard : ¬kMaxBufferSize ≤ (b.readableSize + data.length) % 2 ^ 64 := by
      unfold kMaxBufferSize
      omega
    obtain ⟨b', hassure, hwf, hsame, hroom⟩ := h.assureSpace_spec data.length hsize
    obtain ⟨hwf', happend⟩ := hwf.store_produce data hroom
    refine ⟨_, ?_, hwf', by rw [happend, hsame]⟩
    rw [pushData, if_neg hzero, if_neg hguard, hassure]

/-- Whenever `PushData` succeeds the buffer is still well formed. -/
theorem WF.pushData_of_some (h : b.WF) {data : Bytes} {b' : TCBuffer} {n : ℕ}
    (hpush : b.pushData data = some (b', n)) : b'.WF := by
  unfold pushData at hpush
  by_cases hzero : data.length = 0
  · rw [if_pos hzero] at hpush
    cases hpush
    exact h
  rw [if_neg hzero] at hpush
  by_cases hguard : kMaxBufferSize ≤ (b.readableSize + data.length) % 2 ^ 64
  · rw [if_pos hguard] at hpush
    cases hpush
    exact h
  rw [if_neg hguard] at hpush
  cases hassure : b.assureSpace data.length with
  | none =>
    rw [hassure] at hpush
    cases hpush
  | some grown =>
    rw [hassure] at hpush
    cases hpush
    obtain ⟨-, hwf, -, hroom⟩ := h.assureSpace_of_some hassure
    exact (hwf.store_produce data hroom).1

/-- `Clear` makes the buffer empty, and it stays well formed. -/
theorem WF.clear_spec (h : b.WF) : b.clear.WF ∧ b.clear.readable = [] :=
  ⟨⟨le_rfl, Nat.zero_le _, h.length_eq, h.capacity_pow⟩,
    by simp [readable, clear, readableSize, sizeSub]⟩

/-- **`Consume` on a well-formed buffer** removes readable bytes from the front. -/
theorem WF.consume_spec (h : b.WF) {n : ℕ} (hn : n ≤ b.readable.length) :
    ∃ b', b.consume n = some b' ∧ b'.WF ∧ b'.readable = b.readable.drop n := by
  have hread := h.read_le
  have hwrite := h.write_le
  have hcap := h.capacity_le
  have hlen := h.length_readable
  rw [h.readableSize_eq] at hlen
  have hpos : (b.readPos + n) % 2 ^ 64 = b.readPos + n := by omega
  let b' : TCBuffer := { b with readPos := b.readPos + n }
  have hwf : b'.WF := ⟨by dsimp [b']; omega, hwrite, h.length_eq, h.capacity_pow⟩
  have hreadable : b'.readable = b.readable.drop n := by
    rw [readable, hwf.readableSize_eq, readable, h.readableSize_eq, List.drop_take,
      List.drop_drop]
    dsimp [b']
    congr 1
    omega
  by_cases hempty : b'.isEmpty = true
  · refine ⟨b'.clear, ?_, hwf.clear_spec.1, ?_⟩
    · rw [consume, hpos, if_pos (by omega)]
      exact congrArg some (if_pos hempty)
    · rw [hwf.clear_spec.2, ← hreadable, hwf.isEmpty_iff.mp hempty]
  · refine ⟨b', ?_, hwf, hreadable⟩
    rw [consume, hpos, if_pos (by omega)]
    exact congrArg some (if_neg hempty)

/-- Whenever `Consume` succeeds the buffer is still well formed. -/
theorem WF.consume_of_some (h : b.WF) {n : ℕ} {b' : TCBuffer} (hconsume : b.consume n = some b') :
    b'.WF := by
  unfold consume at hconsume
  by_cases hle : (b.readPos + n) % 2 ^ 64 ≤ b.writePos
  · have hwf : WF { b with readPos := (b.readPos + n) % 2 ^ 64 } :=
      ⟨hle, h.write_le, h.length_eq, h.capacity_pow⟩
    rw [if_pos hle] at hconsume
    obtain rfl := Option.some.inj hconsume
    split
    · exact hwf.clear_spec.1
    · exact hwf
  · rw [if_neg hle] at hconsume
    cases hconsume

/-- **`PopData` on a well-formed buffer** takes as many bytes from the front as asked for, or
all there are. -/
theorem WF.popData_spec (h : b.WF) (size : ℕ) :
    ∃ b', b.popData size = some (b', b.readable.take size) ∧ b'.WF ∧
      b'.readable = b.readable.drop size := by
  have hlen := h.length_readable
  unfold popData
  by_cases hnone : size = 0 ∨ b.readableSize = 0
  · refine ⟨b, ?_, h, ?_⟩
    · rw [if_pos hnone]
      obtain hzero | hzero := hnone
      · simp [hzero]
      · simp [List.length_eq_zero_iff.mp (hlen.trans hzero)]
    · obtain hzero | hzero := hnone
      · simp [hzero]
      · simp [List.length_eq_zero_iff.mp (hlen.trans hzero)]
  · have hpart : ∀ n ≤ b.readableSize, (b.buffer.drop b.readPos).take n = b.readable.take n := by
      intro n hn
      rw [readable, List.take_take, Nat.min_eq_left hn]
    simp only [if_neg hnone]
    by_cases hbig : b.readableSize < size
    · obtain ⟨b', hconsume, hwf, hdrop⟩ := h.consume_spec hlen.ge
      refine ⟨b', ?_, hwf, ?_⟩
      · rw [if_pos hbig, hconsume, hpart _ le_rfl, List.take_of_length_le hlen.le,
          List.take_of_length_le (by omega)]
      · rw [hdrop, List.drop_of_length_le hlen.le, List.drop_of_length_le (by omega)]
    · obtain ⟨b', hconsume, hwf, hdrop⟩ := h.consume_spec (n := size) (by omega)
      refine ⟨b', ?_, hwf, hdrop⟩
      rw [if_neg hbig, hconsume, hpart _ (by omega)]

/-- **`Shrink` on a well-formed buffer** ends and keeps the readable bytes. -/
theorem WF.shrink_spec (h : b.WF) :
    ∃ b', b.shrink = some b' ∧ b'.WF ∧ b'.readable = b.readable := by
  unfold shrink
  by_cases hempty : b.isEmpty = true
  · refine ⟨_, if_pos hempty, ⟨le_rfl, le_rfl, rfl, .inl rfl⟩, ?_⟩
    rw [h.isEmpty_iff.mp hempty]
    simp [readable]
  rw [if_neg hempty]
  by_cases hsmall : b.capacity ≤ kDefaultSize
  · exact ⟨b, if_pos hsmall, h, rfl⟩
  rw [if_neg hsmall]
  by_cases hload : b.capacity * b.highWaterPercent % 2 ^ 64 < b.readableSize * 100 % 2 ^ 64
  · exact ⟨b, if_pos hload, h, rfl⟩
  rw [if_neg hload]
  have hlen := h.length_readable
  have hcap := h.capacity_le
  have hwrite := h.write_le
  have hsize := h.readableSize_eq
  have hpos : 0 < b.readableSize := by
    rw [Bool.not_eq_true, h.isEmpty_eq_false, ← List.length_pos_iff, hlen] at hempty
    exact hempty
  obtain ⟨j, hj, hround, hle, _⟩ :=
    @roundUp2Power_spec b.readableSize 62 (by decide) hpos (by omega)
  have hmax : 2 ^ j ≤ 2 ^ 62 := Nat.pow_le_pow_right (by decide) hj
  refine ⟨_, by rw [hround], ⟨Nat.zero_le _, hle, ?_, .inr ⟨j, hj, rfl⟩⟩, ?_⟩
  · simp only [List.length_append, List.length_replicate]
    omega
  · simp only [← hlen]
    exact readable_front

/-- `Swap` exchanges the readable bytes of two well-formed buffers. -/
theorem WF.swap_spec {buf : TCBuffer} (h : b.WF) (hbuf : buf.WF) :
    (b.swap buf).1.WF ∧ (b.swap buf).2.WF ∧ (b.swap buf).1.readable = buf.readable ∧
      (b.swap buf).2.readable = b.readable :=
  ⟨⟨hbuf.read_le, hbuf.write_le, hbuf.length_eq, hbuf.capacity_pow⟩,
    ⟨h.read_le, h.write_le, h.length_eq, h.capacity_pow⟩, rfl, rfl⟩

/-- `SetHighWaterPercent` does not touch the content, and the buffer stays well formed. -/
theorem WF.setHighWaterPercent_spec (h : b.WF) (percents : ℕ) :
    (b.setHighWaterPercent percents).WF ∧
      (b.setHighWaterPercent percents).readable = b.readable := by
  unfold setHighWaterPercent
  split
  · exact ⟨h, rfl⟩
  · exact ⟨⟨h.read_le, h.write_le, h.length_eq, h.capacity_pow⟩, rfl⟩

end WellFormed

end TCBuffer

end Tars
