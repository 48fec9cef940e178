import Tars.Library.Scripts
import Tars.Util.Buffer

/-!
# Runs of `TC_Buffer` operations

Any number of buffers are used in any order. Against them stands a machine whose buffers are
plain byte queues: as long as an array of `2 ^ 62` bytes, half of `kMaxBufferSize`, holds the data
no assertion of the class fails and the readable bytes of every buffer are the content of its
queue. The last section looks at `PushData` with sizes near the end of `size_t`.
-/

namespace Tars

/-- A call of a member function on one of the buffers. -/
inductive BufferOp where
  /-- `PushData` of the bytes. -/
  | pushData (i : ℕ) (data : Bytes)
  /-- `AssureSpace`. -/
  | assureSpace (i : ℕ) (needsize : ℕ)
  /-- The caller writes bytes at `WriteAddr` and calls `Produce` with their number. -/
  | produce (i : ℕ) (data : Bytes)
  /-- `PopData` into memory of that size. -/
  | popData (i : ℕ) (size : ℕ)
  /-- `Consume`. -/
  | consume (i : ℕ) (n : ℕ)
  /-- `Shrink`. -/
  | shrink (i : ℕ)
  /-- `Clear`. -/
  | clear (i : ℕ)
  /-- `Swap` of the first buffer with the second. -/
  | swap (i j : ℕ)
  /-- `SetHighWaterPercent`. -/
  | setHighWaterPercent (i : ℕ) (percents : ℕ)
  deriving DecidableEq

/-- What a call gives back to its caller: the number of bytes pushed, or the bytes popped. -/
inductive BufferEvent where
  /-- The result of `PushData`. -/
  | pushed (i : ℕ) (n : ℕ)
  /-- The bytes that `PopData` copied out. -/
  | popped (i : ℕ) (data : Bytes)
  deriving DecidableEq

/-- The buffers of a program by number. A call is made on one of them, `Swap` on two. -/
abbrev Buffers := ℕ → TCBuffer

namespace Buffers

/-- The buffers of a program that has not used them yet. -/
def fresh : Buffers := fun _ => TCBuffer.new

/-- One buffer after a call that may fail an assertion. -/
def put (s : Buffers) (i : ℕ) : Option TCBuffer → Option (Buffers × List BufferEvent)
  | none => none
  | some b => some (Function.update s i b, [])

/-- One call. It is refused where an assertion fails, and where the caller writes beyond the
array. -/
def step (s : Buffers) : BufferOp → Option (Buffers × List BufferEvent)
  | .pushData i data =>
    match (s i).pushData data with
    | none => none
    | some (b, n) => some (Function.update s i b, [.pushed i n])
  | .assureSpace i needsize => s.put i ((s i).assureSpace needsize)
  | .produce i data =>
    if data.length ≤ (s i).writableSize then
      s.put i (some (((s i).storeAtWrite data).produce data.length))
    else none
  | .popData i size =>
    match (s i).popData size with
    | none => none
    | some (b, data) => some (Function.update s i b, [.popped i data])
  | .consume i n => s.put i ((s i).consume n)
  | .shrink i => s.put i (s i).shrink
  | .clear i => s.put i (some (s i).clear)
  | .swap i j =>
    let both := (s i).swap (s j)
    some (Function.update (Function.update s i both.1) j both.2, [])
  | .setHighWaterPercent i percents => s.put i (some ((s i).setHighWaterPercent percents))

/-- The calls whose data stays far below `kMaxBufferSize`, in the largest array that can be
allocated, and that respect the cursors. -/
def Moderate (s : Buffers) : BufferOp → Prop
  | .pushData i data => (s i).readableSize + data.length ≤ 2 ^ 62
  | .assureSpace i needsize => (s i).readableSize + needsize ≤ 2 ^ 62
  | .produce i data => data.length ≤ (s i).writableSize
  | .consume i n => n ≤ (s i).readableSize
  | _ => True

/-- Whether a call is moderate can be computed from the state before it, so samples can be checked
by evaluation. -/
instance decidableModerate (s : Buffers) : (op : BufferOp) → Decidable (s.Moderate op)
  | .pushData .. => inferInstanceAs (Decidable (_ ≤ _))
  | .assureSpace .. => inferInstanceAs (Decidable (_ ≤ _))
  | .produce .. => inferInstanceAs (Decidable (_ ≤ _))
  | .consume .. => inferInstanceAs (Decidable (_ ≤ _))
  | .popData .. | .shrink _ | .clear _ | .swap .. | .setHighWaterPercent .. => isTrue trivial

/-- All buffers are well formed, also those that no call has touched. -/
def WF (s : Buffers) : Prop := ∀ i, (s i).WF

/-- The readable bytes of all buffers, which are all that the specification knows of them. -/
def readable (s : Buffers) : ℕ → Bytes := fun i => (s i).readable

/-! ### Byte queues -/

/-- What the calls mean for byte queues: pushing appends, popping takes from the front, and
the calls that only move memory do nothing. -/
def fifoStep (q : ℕ → Bytes) : BufferOp → Option ((ℕ → Bytes) × List BufferEvent)
  | .pushData i data => some (Function.update q i (q i ++ data), [.pushed i data.length])
  | .produce i data => some (Function.update q i (q i ++ data), [])
  | .popData i size =>
    some (Function.update q i ((q i).drop size), [.popped i ((q i).take size)])
  | .consume i n => some (Function.update q i ((q i).drop n), [])
  | .clear i => some (Function.update q i [], [])
  | .swap i j => some (Function.update (Function.update q i (q j)) j (q i), [])
  | .assureSpace .. | .shrink _ | .setHighWaterPercent .. => some (q, [])

section Steps

variable {s : Buffers}

/-- Replacing one buffer by a well-formed one keeps all of them well formed. -/
theorem WF.update (h : s.WF) (i : ℕ) {b : TCBuffer} (hb : b.WF) :
    WF (Function.update s i b) := by
  intro j
  by_cases hj : j = i
  · subst hj
    rwa [Function.update_self]
  · rw [Function.update_of_ne hj]
    exact h j

/-- The readable bytes after replacing one buffer: only its own change, as in the abstract model
with its queues. -/
theorem readable_update (i : ℕ) (b : TCBuffer) :
    readable (Function.update s i b) = Function.update s.readable i b.readable := by
  funext j
  by_cases hj : j = i
  · subst hj
    rw [readable, Function.update_self, Function.update_self]
  · rw [readable, Function.update_of_ne hj, Function.update_of_ne hj]
    rfl

/-- A buffer that keeps its readable bytes can replace the old one unnoticed. -/
theorem readable_update_same {i : ℕ} {b : TCBuffer} (h : b.readable = (s i).readable) :
    readable (Function.update s i b) = s.readable := by
  rw [readable_update, h]
  exact Function.update_eq_self i s.readable

/-- **One moderate call.** It does not fail, keeps the buffers well formed and does to the
readable bytes what the byte queues say; `AssureSpace` makes the requested room. -/
theorem step_refines (h : s.WF) {op : BufferOp} (hop : s.Moderate op) :
    ∃ s' es, s.step op = some (s', es) ∧ WF s' ∧
      fifoStep s.readable op = some (readable s', es) ∧
      ∀ i n, op = .assureSpace i n → n ≤ (s' i).writableSize := by
  cases op with
  | pushData i data =>
    obtain ⟨b, hpush, hwf, happend⟩ := (h i).pushData_spec data (by
      rw [(h i).length_readable]
      exact hop)
    refine ⟨Function.update s i b, _, by rw [step, hpush], h.update i hwf, ?_, nofun⟩
    rw [readable_update, happend]
    rfl
  | assureSpace i needsize =>
    obtain ⟨b, hassure, hwf, hsame, hroom⟩ := (h i).assureSpace_spec needsize hop
    refine ⟨Function.update s i b, _, by rw [step, hassure, put], h.update i hwf, ?_, ?_⟩
    · rw [readable_update_same hsame]
      rfl
    · rintro j n heq
      obtain ⟨rfl, rfl⟩ := BufferOp.assureSpace.inj heq
      rwa [Function.update_self]
  | produce i data =>
    obtain ⟨hwf, happend⟩ := (h i).store_produce data hop
    refine ⟨_, _, by rw [step, if_pos (show data.length ≤ _ from hop), put], h.update i hwf, ?_,
      nofun⟩
    rw [readable_update, happend]
    rfl
  | popData i size =>
    obtain ⟨b, hpop, hwf, hdrop⟩ := (h i).popData_spec size
    refine ⟨Function.update s i b, _, by rw [step, hpop], h.update i hwf, ?_, nofun⟩
    rw [readable_update, hdrop]
    rfl
  | consume i n =>
    obtain ⟨b, hconsume, hwf, hdrop⟩ := (h i).consume_spec (n := n) (by
      rw [(h i).length_readable]
      exact hop)
    refine ⟨Function.update s i b, _, by rw [step, hconsume, put], h.update i hwf, ?_, nofun⟩
    rw [readable_update, hdrop]
    rfl
  | shrink i =>
    obtain ⟨b, hshrink, hwf, hsame⟩ := (h i).shrink_spec
    refine ⟨Function.update s i b, _, by rw [step, hshrink, put], h.update i hwf, ?_, nofun⟩
    rw [readable_update_same hsame]
    rfl
  | clear i =>
    obtain ⟨hwf, hnil⟩ := (h i).clear_spec
    refine ⟨_, _, by rw [step, put], h.update i hwf, ?_, nofun⟩
    rw [readable_update, hnil]
    rfl
  | swap i j =>
    obtain ⟨hfst, hsnd, hreadable, hreadable'⟩ := (h i).swap_spec (h j)
    refine ⟨_, _, rfl, (h.update i hfst).update j hsnd, ?_, nofun⟩
    rw [readable_update, readable_update, hreadable, hreadable']
    rfl
  | setHighWaterPercent i percents =>
    obtain ⟨hwf, hsame⟩ := (h i).setHighWaterPercent_spec percents
    refine ⟨_, _, by rw [step, put], h.update i hwf, ?_, nofun⟩
    rw [readable_update_same hsame]
    rfl

/-- A run of moderate calls refines the run of the byte queues. -/
theorem exec_refines (h : s.WF) {as : List BufferOp} (halong : Scripts.Along step Moderate s as) :
    ∃ s' es, Scripts.exec step s as = some (s', es) ∧
      Scripts.exec fifoStep s.readable as = some (readable s', es) ∧
      ∀ i n, as.getLast? = some (.assureSpace i n) → n ≤ (s' i).writableSize := by
  induction as generalizing s with
  | nil => exact ⟨s, [], rfl, rfl, nofun⟩
  | cons op ops ih =>
    obtain ⟨t, first, hstep, hwf, hfifo, hroom⟩ := step_refines h halong.1
    obtain ⟨s', rest, hexec, hfifos, hrooms⟩ := ih hwf (halong.2 t first hstep)
    refine ⟨s', first ++ rest, Scripts.exec_cons_eq_some.mpr ⟨t, first, rest, hstep, hexec, rfl⟩,
      Scripts.exec_cons_eq_some.mpr ⟨readable t, first, rest, hfifo, hfifos, rfl⟩, ?_⟩
    intro i n hlast
    cases ops with
    | nil =>
      obtain ⟨rfl, -⟩ := Prod.mk.inj (Option.some.inj hexec)
      exact hroom i n (Option.some.inj hlast)
    | cons op' ops => exact hrooms i n (by rwa [List.getLast?_cons_cons] at hlast)

end Steps

/-- Buffers that were not used yet are well formed. -/
theorem wf_fresh : WF fresh := fun _ => TCBuffer.wf_new

/-- **The buffers refine byte queues.** Every run of calls whose data stays far below
`kMaxBufferSize` is executed to its end without a failed assertion; all buffers are well formed
all the time, the readable bytes are the content of the queues that took the same calls, both
give the same results, and `AssureSpace` as the last call has made the requested room. -/
theorem runs_refine_fifo {as : List BufferOp} (halong : Scripts.Along step Moderate fresh as) :
    ∃ s es, Scripts.exec step fresh as = some (s, es) ∧ Scripts.Always step WF fresh as ∧
      Scripts.exec fifoStep (fun _ => []) as = some (readable s, es) ∧
      ∀ i n, as.getLast? = some (.assureSpace i n) → n ≤ (s i).writableSize := by
  obtain ⟨s, es, hexec, hfifo, hroom⟩ := exec_refines wf_fresh halong
  refine ⟨s, es, hexec, Scripts.always_of_along ?_ wf_fresh halong, hfifo, hroom⟩
  intro s op s' es hwf hop hstep
  obtain ⟨t, out, hstep', hwf', -⟩ := step_refines hwf hop
  obtain ⟨rfl, -⟩ := Prod.mk.inj (Option.some.inj (hstep'.symm.trans hstep))
  exact hwf'

/-- A run with growth, compaction, a shrink and an exchange. -/
private def mixedRun : List BufferOp :=
  [.pushData 0 (List.replicate 100 7), .consume 0 90, .assureSpace 0 120, .produce 0 [1, 2, 3],
    .setHighWaterPercent 0 99, .pushData 0 (List.replicate 300 9), .popData 0 305, .shrink 0,
    .swap 0 1, .popData 1 50, .clear 1, .assureSpace 1 40]

/-- `runs_refine_fifo` for a run with growth, compaction, a shrink and an exchange. -/
theorem runs_refine_fifo_mixed :
    ∃ s es, Scripts.exec step fresh mixedRun = some (s, es) ∧
      Scripts.Always step WF fresh mixedRun ∧
      Scripts.exec fifoStep (fun _ => []) mixedRun = some (readable s, es) ∧
      ∀ i n, mixedRun.getLast? = some (.assureSpace i n) → n ≤ (s i).writableSize :=
  runs_refine_fifo (by decide +kernel)

/-! ### Sizes near the end of `size_t` -/

section Limits

variable {s s' : Buffers} {es : List BufferEvent}

/-- A moderate call that was executed leaves the buffers well formed. -/
private theorem WF.step_moderate (h : s.WF) {op : BufferOp} (hop : s.Moderate op)
    (hstep : s.step op = some (s', es)) : WF s' := by
  obtain ⟨t, out, hstep', hwf, -⟩ := step_refines h hop
  obtain ⟨rfl, -⟩ := Prod.mk.inj (Option.some.inj (hstep'.symm.trans hstep))
  exact hwf

/-- Replacing one buffer by what a call left there keeps all of them well formed. -/
private theorem WF.put (h : s.WF) {i : ℕ} {out : Option TCBuffer}
    (hout : ∀ b, out = some b → b.WF) (hput : s.put i out = some (s', es)) : WF s' := by
  cases out with
  | none => cases hput
  | some b =>
    obtain ⟨rfl, -⟩ := Prod.mk.inj (Option.some.inj hput)
    exact h.update i (hout b rfl)

/-- Every call that succeeds leaves the buffers well formed, also one that is not moderate. -/
theorem WF.step (h : s.WF) {op : BufferOp} (hstep : s.step op = some (s', es)) : WF s' := by
  cases op with
  | pushData i data =>
    cases hpush : (s i).pushData data with
    | none =>
      rw [Buffers.step, hpush] at hstep
      cases hstep
    | some out =>
      rw [Buffers.step, hpush] at hstep
      obtain ⟨rfl, -⟩ := Prod.mk.inj (Option.some.inj hstep)
      exact h.update i ((h i).pushData_of_some hpush)
  | assureSpace i needsize => exact h.put (fun b hb => ((h i).assureSpace_of_some hb).2.1) hstep
  | consume i n => exact h.put (fun b hb => (h i).consume_of_some hb) hstep
  | produce i data =>
    by_cases hroom : data.length ≤ (s i).writableSize
    · exact h.step_moderate (show s.Moderate (.produce i data) from hroom) hstep
    · rw [Buffers.step, if_neg hroom] at hstep
      cases hstep
  | popData i size => exact h.step_moderate (show s.Moderate (.popData i size) from trivial) hstep
  | shrink i => exact h.step_moderate (show s.Moderate (.shrink i) from trivial) hstep
  | clear i => exact h.step_moderate (show s.Moderate (.clear i) from trivial) hstep
  | swap i j => exact h.step_moderate (show s.Moderate (.swap i j) from trivial) hstep
  | setHighWaterPercent i percents =>
    exact h.step_moderate (show s.Moderate (.setHighWaterPercent i percents) from trivial) hstep

/-- All reachable buffers are well formed, whatever calls were made before. -/
theorem wf_of_reachable (h : Scripts.Reachable step fresh s) : s.WF :=
  h.invariant (fun _ _ _ _ hwf hstep => WF.step hwf hstep) wf_fresh

end Limits

end Buffers

namespace TCBuffer

/-- No doubling in the loop of `RoundUp2Power` leaves `size_t`. -/
def RoundUpFits : ℕ → ℕ → ℕ → Prop
  | 0, _, _ => True
  | fuel + 1, size, roundUp =>
    roundUp < size → roundUp * 2 < 2 ^ 64 ∧ RoundUpFits fuel size (roundUp * 2)

/-- No free-space sum and no new capacity in the capacity loop of `AssureSpace` leaves
`size_t`. -/
def GrowFits : ℕ → ℕ → ℕ → ℕ → ℕ → Prop
  | 0, _, _, _, _ => True
  | fuel + 1, readPos, writePos, needsize, capacity =>
    writePos ≤ capacity ∧ capacity - writePos + readPos < 2 ^ 64 ∧
      (capacity - writePos + readPos < needsize →
        if capacity < kDefaultSize then GrowFits fuel readPos writePos needsize kDefaultSize
        else capacity ≤ kMaxBufferSize →
          RoundUpFits 65 capacity 1 ∧
            ∃ newCapacity, roundUp2Power capacity = some newCapacity ∧
              if capacity < newCapacity then
                GrowFits fuel readPos writePos needsize newCapacity
              else
                2 * newCapacity < 2 ^ 64 ∧
                  GrowFits fuel readPos writePos needsize (2 * newCapacity))

/-- What is asked of `PushData` at any size: it ends without a failed assertion, having appended
everything or refused and changed nothing, and no capacity computation overflows. -/
structure PushSound (b : TCBuffer) (data : Bytes) : Prop where
  /-- All bytes are appended and counted, or none and the buffer is as before. -/
  outcome : (∃ b', b.pushData data = some (b', data.length) ∧ b'.WF ∧
      b'.readable = b.readable ++ data) ∨
    b.pushData data = some (b, 0)
  /-- No computation of the new capacity overflows. -/
  fits : GrowFits 65 b.readPos b.writePos data.length b.capacity

/-- Rounding up a power of two from a smaller one does not overflow. -/
private theorem roundUpFits_pow (fuel : ℕ) {j k : ℕ} (hk : k ≤ 63) :
    RoundUpFits fuel (2 ^ k) (2 ^ j) := by
  induction fuel generalizing j with
  | zero => trivial
  | succ fuel ih =>
    intro hlt
    have hjk : j < k := (Nat.pow_lt_pow_iff_right (by decide)).mp hlt
    rw [← pow_succ]
    exact ⟨Nat.pow_lt_pow_right (by decide) (by omega), ih⟩

/-- The capacity loop computes with capacities only, whatever is needed. -/
private theorem growFits_of_isCapacity (fuel : ℕ) {readPos writePos needsize capacity : ℕ}
    (hread : readPos ≤ writePos) (hwrite : writePos ≤ capacity)
    (hcapacity : IsCapacity 63 capacity) :
    GrowFits fuel readPos writePos needsize capacity := by
  induction fuel generalizing capacity with
  | zero => trivial
  | succ fuel ih =>
    have hle := hcapacity.le
    refine ⟨hwrite, by omega, fun _ => ?_⟩
    by_cases hsmall : capacity < kDefaultSize
    · rw [if_pos hsmall]
      exact ih (by omega) isCapacity_default
    · rw [if_neg hsmall]
      intro hmax
      have hdouble := hcapacity.double hmax
      obtain hzero | ⟨k, hk, rfl⟩ := hcapacity
      · exact absurd (by rw [hzero]; decide) hsmall
      · refine ⟨roundUpFits_pow (j := 0) 65 hk, 2 ^ k, roundUp2Power_pow hk, ?_⟩
        rw [if_neg (lt_irrefl _)]
        exact ⟨by have := hdouble.le; omega, ih (by omega) hdouble⟩

section Limits

variable {b : TCBuffer} {data : Bytes}

/-- When the overflow guard of `PushData` lets a sum through that no array can hold, the call fails
in `AssureSpace`: a sum that has wrapped runs into the `assert(false)`, and one that has not asks
for an array of `2 ^ 63` bytes. -/
theorem WF.pushData_eq_none (h : b.WF) (hlarge : 2 ^ 62 < b.readableSize + data.length)
    (hguard : (b.readableSize + data.length) % 2 ^ 64 < kMaxBufferSize) :
    b.pushData data = none := by
  have hcapacity := h.capacity_le
  have hread := h.readableSize_eq
  have hwrite := h.write_le
  rw [pushData, if_neg (by omega), if_neg (by omega), h.assureSpace_eq_none hlarge]

/-- **`PushData` at every size.** On a well-formed buffer it is sound exactly when the largest array
holds the readable bytes and the new ones, or when the overflow guard refuses them. -/
theorem WF.pushSound_iff (h : b.WF) :
    b.PushSound data ↔
      b.readableSize + data.length ≤ 2 ^ 62 ∨
        kMaxBufferSize ≤ (b.readableSize + data.length) % 2 ^ 64 := by
  have hfits : GrowFits 65 b.readPos b.writePos data.length b.capacity :=
    growFits_of_isCapacity 65 h.read_le h.write_le h.isCapacity
  constructor
  · intro hsound
    by_contra hbad
    obtain ⟨hlarge, hguard⟩ := not_or.mp hbad
    have hnone : b.pushData data = none := h.pushData_eq_none (by omega) (by omega)
    obtain ⟨b', hpush, -⟩ | hpush := hsound.outcome
    · rw [hnone] at hpush
      cases hpush
    · rw [hnone] at hpush
      cases hpush
  · rintro (hsmall | hguard)
    · rw [← h.length_readable] at hsmall
      exact ⟨.inl (h.pushData_spec data hsmall), hfits⟩
    · have hrefused : b.pushData data = some (b, 0) := by
        rw [pushData, if_pos hguard, ite_self]
      exact ⟨.inr hrefused, hfits⟩

end Limits

end TCBuffer

/-- **`PushData` of any size on a reachable buffer** either appends everything or refuses and
changes nothing, without overflow and failed assertion, exactly when the largest array that can be
allocated holds the readable bytes and the new ones, or when the overflow guard sees a sum that it
refuses. -/
theorem Buffers.pushData_sound_iff {s : Buffers}
    (h : Scripts.Reachable Buffers.step Buffers.fresh s) (i : ℕ) (data : Bytes) :
    (s i).PushSound data ↔
      (s i).readableSize + data.length ≤ 2 ^ 62 ∨
        TCBuffer.kMaxBufferSize ≤ ((s i).readableSize + data.length) % 2 ^ 64 :=
  (Buffers.wf_of_reachable h i).pushSound_iff

/-- `Buffers.pushData_sound_iff` for a buffer that was not used yet, to which three bytes can be
pushed. -/
theorem Buffers.pushData_sound_iff_fresh :
    (Buffers.fresh 0).PushSound [1, 2, 3] ∧
      ((Buffers.fresh 0).PushSound [1, 2, 3] ↔
        (Buffers.fresh 0).readableSize + 3 ≤ 2 ^ 62 ∨
          TCBuffer.kMaxBufferSize ≤ ((Buffers.fresh 0).readableSize + 3) % 2 ^ 64) := by
  have hiff := Buffers.pushData_sound_iff ⟨[], [], rfl⟩ 0 [1, 2, 3]
  exact ⟨hiff.mpr (.inl (by decide)), hiff⟩

/-- A buffer with ten readable bytes is reachable, by one call that pushes them. The failing calls
start from there. -/
private theorem Buffers.reachable_ten :
    ∃ s, Scripts.Reachable Buffers.step Buffers.fresh s ∧ (s 0).readableSize = 10 := by
  have hwf : TCBuffer.new.WF := TCBuffer.wf_new
  obtain ⟨b, hpush, hb, hreadable⟩ := hwf.pushData_spec (List.replicate 10 0) (by decide +kernel)
  have hstep : Buffers.step Buffers.fresh (.pushData 0 (List.replicate 10 0)) =
      some (Function.update Buffers.fresh 0 b, [.pushed 0 10]) := by
    rw [Buffers.step, Buffers.fresh, hpush]
    rfl
  refine ⟨_, ⟨[_], _, Scripts.exec_cons_eq_some.mpr ⟨_, _, [], hstep, rfl, rfl⟩⟩, ?_⟩
  rw [Function.update_self, ← hb.length_readable, hreadable]
  rfl

/-- A buffer with ten bytes is asked to take five less than `2 ^ 64`: the guard sees the sum
five and the call fails an assertion. -/
theorem Buffers.pushData_wraps :
    ∃ s, Scripts.Reachable Buffers.step Buffers.fresh s ∧
      ∃ data : Bytes, data.length = 2 ^ 64 - 5 ∧ ¬(s 0).PushSound data := by
  obtain ⟨s, hreach, hten⟩ := Buffers.reachable_ten
  refine ⟨s, hreach, List.replicate (2 ^ 64 - 5) 0, List.length_replicate, ?_⟩
  rw [(Buffers.wf_of_reachable hreach 0).pushSound_iff, hten, List.length_replicate]
  decide +kernel

end Tars
