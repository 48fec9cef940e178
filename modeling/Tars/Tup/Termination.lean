import Tars.Tup.Fuel
import Tars.Tup.RoundTrip

/-!
# Whether decoding ends

With the guard every function of the input stream ends with as much fuel as there are bytes left,
and it stays in the buffer: every round of every loop reads a head, and every skip that the guard
lets through moves the cursor forward by less than `2 ^ 32` bytes from a position in the buffer.
-/

namespace Tars

open LittleEndian Decoding TarsOutputStream

namespace TarsInputStream

/-- The states that the guarded input stream goes through. -/
structure Sound (r : BufferReader) : Prop where
  /-- The length of the buffer is that of an object. -/
  fits : r.bufLen < 2 ^ 63
  /-- The buffer is in memory. -/
  memory : r.bufLen ≤ r.buf.length
  /-- The cursor has not been moved back. -/
  forward : r.backward = false
  /-- The cursor is not far behind the end of the buffer. -/
  near : r.cur ≤ r.bufLen + 2 ^ 32

/-- A state in which the cursor is at least `n` bytes further. -/
structure Ahead (r₀ : BufferReader) (n : ℕ) (r : BufferReader) : Prop where
  /-- The state is sound, so its cursor is in the buffer. -/
  sound : Sound r
  /-- The buffer is the same. -/
  bufLen : r.bufLen = r₀.bufLen
  /-- The cursor is further, by this number of bytes at least. -/
  cur : r₀.cur + n ≤ r.cur

/-- A state in which the cursor is at least `n` bytes further and still in the buffer. -/
structure Inside (r₀ : BufferReader) (n : ℕ) (r : BufferReader) : Prop extends Ahead r₀ n r where
  /-- The cursor is in the buffer. -/
  inside : r.cur ≤ r.bufLen

variable {r r₀ r' : BufferReader}

theorem Sound.ahead (h : Sound r) : Ahead r 0 r := ⟨h, rfl, le_rfl⟩

theorem Ahead.trans {m n k : ℕ} (h : Ahead r₀ m r) (h' : Ahead r n r') (hk : k ≤ m + n) :
    Ahead r₀ k r' :=
  ⟨h'.sound, h'.bufLen.trans h.bufLen, by have := h.cur; have := h'.cur; omega⟩

theorem Inside.weaken {m n : ℕ} (h : Inside r₀ m r) (hn : n ≤ m) : Inside r₀ n r :=
  ⟨⟨h.sound, h.bufLen, by have := h.cur; omega⟩, h.inside⟩

theorem Ahead.inside {m n k : ℕ} (h : Ahead r₀ m r) (h' : Inside r n r') (hk : k ≤ m + n) :
    Inside r₀ k r' :=
  ⟨h.trans h'.toAhead hk, h'.inside⟩

/-- A decoder that ends further on, seen from an earlier state. -/
theorem Ahead.halts {α : Type} {m : Decode α} (h : Ahead r₀ 0 r)
    (hm : Halts m r (fun _ => Ahead r 0) (Ahead r 0)) :
    Halts m r (fun _ => Ahead r₀ 0) (Ahead r₀ 0) :=
  hm.mono (fun _ _ h' => h.trans h' (Nat.zero_le _)) fun _ h' => h.trans h' (Nat.zero_le _)

/-! ### Primitives -/

/-- Bytes are looked at only in the buffer, and the cursor stays where it was. -/
theorem halts_peekTypeBuf (hr : Sound r) {offset size : ℕ}
    (hwrap : r.cur + offset + size < 2 ^ 64) :
    Halts (peekTypeBuf offset size) r
      (fun bs r' => r = r' ∧ bs.length = size ∧ r.cur + offset + size ≤ r.bufLen) (Ahead r 0) := by
  have hmemory := hr.memory
  rw [Halts, peekTypeBuf, Nat.mod_eq_of_lt hwrap]
  by_cases hover : r.cur + offset + size > r.bufLen
  · rw [if_pos hover]
    exact hr.ahead
  · rw [if_neg hover, if_pos (by omega)]
    refine ⟨rfl, ?_, by omega⟩
    rw [List.length_take, List.length_drop]
    omega

/-- The cursor is moved forward by the length, because the sum cannot wrap so close to the buffer.
-/
theorem halts_readHeadSkip {E : BufferReader → Prop} (hr : Sound r) {len : ℕ} (hlen : len < 2 ^ 63)
    (hnear : r.cur + len ≤ r.bufLen + 2 ^ 32) :
    Halts (readHeadSkip len) r (fun _ r' => Ahead r len r' ∧ r'.cur = r.cur + len) E := by
  have hfits := hr.fits
  have hmod : (r.cur + len) % 2 ^ 64 = r.cur + len := Nat.mod_eq_of_lt (by omega)
  have hforward : (r.backward || decide (2 ^ 63 ≤ len)) = false := by
    rw [hr.forward, Bool.false_or, decide_eq_false_iff_not]
    omega
  rw [Halts, readHeadSkip, hmod, hforward]
  exact ⟨⟨⟨hr.fits, hr.memory, rfl, hnear⟩, rfl, le_rfl⟩, rfl⟩

/-- The cursor is moved over bytes of the buffer. -/
theorem halts_readHeadSkip_inside {E : BufferReader → Prop} (hr : Sound r) {len : ℕ}
    (hinside : r.cur + len ≤ r.bufLen) : Halts (readHeadSkip len) r (fun _ => Inside r len) E := by
  have hfits := hr.fits
  refine (halts_readHeadSkip hr (by omega) (by omega)).mono ?_ fun _ h => h
  rintro - r' ⟨h, hcur⟩
  exact ⟨h, by rw [hcur, h.bufLen]; exact hinside⟩

/-- Bytes are read only in the buffer, and the cursor moves by their number. -/
theorem halts_readTypeBuf (hr : Sound r) {size : ℕ} (hwrap : r.cur + size < 2 ^ 64) :
    Halts (readTypeBuf size) r (fun bs r' => Inside r size r' ∧ bs.length = size)
      (Ahead r 0) := by
  refine (halts_peekTypeBuf hr hwrap).bind ?_
  rintro bs _ ⟨rfl, hsize, hinside⟩
  exact (halts_readHeadSkip_inside hr hinside).bind fun _ r' h => .pure ⟨h, hsize⟩

/-- The bytes of a vector are read only in the buffer. -/
theorem halts_readBuf (hr : Sound r) (hinside : r.cur ≤ r.bufLen) (len : ℕ) :
    Halts (readBuf len) r (fun _ => Inside r 0) (Ahead r 0) := by
  have hfits := hr.fits
  refine Halts.bind (Halts.ask ⟨rfl, rfl⟩ : Halts _ r (fun fits r' =>
    fits = decide (len ≤ r.bufLen ∧ (r.cur + len) % 2 ^ 64 ≤ r.bufLen) ∧ r = r') _) ?_
  rintro _ _ ⟨rfl, rfl⟩
  split
  · rename_i hlen
    rw [decide_eq_true_iff] at hlen
    exact (halts_readTypeBuf hr (by omega)).mono (fun _ _ h => h.1.weaken (Nat.zero_le _))
      fun _ h => h
  · exact .throw hr.ahead

/-- A head is looked at only in the buffer. -/
theorem halts_peekFromHead (hr : Sound r) :
    Halts peekFromHead r (fun head r' => r = r' ∧ 1 ≤ head.len ∧ r.cur + head.len ≤ r.bufLen)
      (Ahead r 0) := by
  have hfits := hr.fits
  have hnear := hr.near
  refine (halts_peekTypeBuf hr (by omega)).bind ?_
  rintro bs _ ⟨rfl, -, hfirst⟩
  dsimp only
  split
  · refine (halts_peekTypeBuf hr (by omega)).bind ?_
    rintro tag _ ⟨rfl, -, hsecond⟩
    exact .pure ⟨rfl, Nat.le_succ 1, hsecond⟩
  · exact .pure ⟨rfl, le_rfl, hfirst⟩

/-- A head takes at least one byte, so a loop that reads heads makes progress. -/
theorem halts_readFromHead (hr : Sound r) :
    Halts readFromHead r (fun _ => Inside r 1) (Ahead r 0) := by
  refine (halts_peekFromHead hr).bind ?_
  rintro head _ ⟨rfl, hone, hinside⟩
  exact (halts_readHeadSkip_inside hr hinside).bind fun _ r' h => .pure (h.weaken hone)

/-- So does a head without its tag, since both are read in the same way. -/
theorem halts_readFromHeadNoTag (hr : Sound r) :
    Halts readFromHeadNoTag r (fun _ => Inside r 1) (Ahead r 0) := by
  have hfits := hr.fits
  have hnear := hr.near
  refine (halts_peekTypeBuf hr (by omega)).bind ?_
  rintro bs _ ⟨rfl, -, hfirst⟩
  dsimp only
  split
  · have hnoTag : Halts (peekTypeBufNoTag 1 1) r (fun _ r' => r = r' ∧
        r.cur + 2 ≤ r.bufLen) (Ahead r 0) := by
      rw [Halts, peekTypeBufNoTag, Nat.mod_eq_of_lt (by omega)]
      by_cases hover : r.cur + 1 + 1 > r.bufLen
      · rw [if_pos hover]
        exact hr.ahead
      · rw [if_neg hover]
        exact ⟨rfl, by omega⟩
    apply hnoTag.bind
    rintro _ _ ⟨rfl, hinside⟩
    exact (halts_readHeadSkip_inside hr hinside).bind fun _ _ h => .pure (h.weaken (by decide))
  · exact (halts_readHeadSkip_inside hr hfirst).bind fun _ _ h => .pure h

/-! ### Fields -/

section Fields

variable {skip : HeadType → Decode Unit} {fuel n : ℕ}

/-- Skipping a payload ends if fewer than `fuel` bytes are left. -/
def SkipHalts (skip : HeadType → Decode Unit) (fuel : ℕ) : Prop :=
  ∀ type r, Sound r → r.cur ≤ r.bufLen → r.bufLen - r.cur < fuel →
    Halts (skip type) r (fun _ => Ahead r 0) (Ahead r 0)

/-- Every round of the loop reads a head, so it has ended before it runs out of rounds. -/
theorem halts_skipToTagLoop (hskip : SkipHalts skip fuel) (tag : UInt8) (hr : Sound r)
    (hfuel : r.bufLen - r.cur ≤ fuel) (hn : r.bufLen - r.cur < n) :
    Halts (skipToTagLoop skip tag n) r
      (fun found r' => Ahead r 0 r' ∧ (found ≠ none → Inside r 1 r')) (Ahead r 0) := by
  induction n generalizing r with
  | zero => exact absurd hn (Nat.not_lt_zero _)
  | succ n ih =>
    refine Halts.bind (Halts.ask rfl : Halts _ r (fun _ r' => r = r') _) ?_
    rintro ended _ rfl
    split
    · exact .pure ⟨hr.ahead, fun h => absurd rfl h⟩
    · refine (halts_peekFromHead hr).bind ?_
      rintro head _ ⟨rfl, hone, hinside⟩
      split
      · exact .pure ⟨hr.ahead, fun h => absurd rfl h⟩
      · split
        · refine (halts_readHeadSkip_inside hr hinside).bind fun _ r' h => ?_
          exact .pure ⟨(h.weaken (Nat.zero_le _)).toAhead, fun _ => h.weaken hone⟩
        · refine (halts_readHeadSkip_inside hr hinside).bind fun _ r' h => ?_
          have hcur := h.cur
          have hlen := h.bufLen
          have hin := h.inside
          have hpayload := hskip head.type r' h.sound h.inside (by omega)
          refine (hpayload.mono (fun _ _ h' => h') fun _ h' =>
            h.trans h' (Nat.zero_le _)).bind fun _ r'' h' => ?_
          have hahead : Ahead r 1 r'' := h.trans h' (by omega)
          have hcur' := hahead.cur
          have hlen' := hahead.bufLen
          refine (ih hahead.sound (by omega) (by omega)).mono ?_ fun _ h₁ =>
            hahead.trans h₁ (Nat.zero_le _)
          rintro found r₁ ⟨h₁, hfound⟩
          exact ⟨hahead.trans h₁ (Nat.zero_le _), fun hne => hahead.inside (hfound hne) (by omega)⟩

/-- There is enough fuel for a function that looks for a tag. -/
structure Ready (skip : HeadType → Decode Unit) (fuel n : ℕ) (r : BufferReader) : Prop where
  /-- Payloads can be skipped, and the skipping ends. -/
  skips : SkipHalts skip fuel
  /-- The state is sound, so its cursor is in the buffer. -/
  sound : Sound r
  /-- There is enough fuel behind the first head. -/
  fuel : r.bufLen - r.cur ≤ fuel
  /-- There are enough rounds for a head at every byte that is left. -/
  rounds : r.bufLen - r.cur < n

/-- Further on there is still enough fuel and enough rounds, since fewer bytes remain. -/
theorem Ready.ahead (h : Ready skip fuel n r) (h' : Ahead r 0 r') : Ready skip fuel n r' := by
  have hcur := h'.cur
  have hlen := h'.bufLen
  have hfuel := h.fuel
  have hrounds := h.rounds
  exact ⟨h.skips, h'.sound, by omega, by omega⟩

/-- Looking for a tag ends without an exception: the loop catches what the skipping throws. -/
theorem halts_tarsSkipToTag {E : BufferReader → Prop} (h : Ready skip fuel n r) (tag : UInt8) :
    Halts (tarsSkipToTag skip n tag) r
      (fun found r' => Ahead r 0 r' ∧ (found ≠ none → Inside r 1 r')) E :=
  (halts_skipToTagLoop h.skips tag h.sound h.fuel h.rounds).attempt fun _ h =>
    ⟨h, fun hne => absurd rfl hne⟩

section ReadField

variable {α : Type} {body : HeadType → Decode α}

/-- A `read` ends if reading the payload does, and without the field it ends at once. -/
theorem halts_readField (h : Ready skip fuel n r)
    (hbody : ∀ type r', Inside r 1 r' → Halts (body type) r' (fun _ => Ahead r 0) (Ahead r 0))
    (old : α) (tag : UInt8) (isRequire : Bool) :
    Halts (readField skip n body old tag isRequire) r (fun _ => Ahead r 0) (Ahead r 0) := by
  refine (halts_tarsSkipToTag h tag).bind ?_
  rintro (_ | type) r' ⟨h', hfound⟩
  · cases isRequire
    · exact .pure h'
    · exact .throw h'
  · exact hbody type r' (hfound (Option.some_ne_none type))

/-- A required `read` consumes at least the head, or throws. -/
theorem halts_readField_required (h : Ready skip fuel n r)
    (hbody : ∀ type r', Inside r 1 r' → Halts (body type) r' (fun _ => Inside r 1) (Ahead r 0))
    (old : α) (tag : UInt8) :
    Halts (readField skip n body old tag true) r (fun _ => Inside r 1) (Ahead r 0) := by
  refine (halts_tarsSkipToTag h tag).bind ?_
  rintro (_ | type) r' ⟨h', hfound⟩
  · exact .throw h'
  · exact hbody type r' (hfound (Option.some_ne_none type))

end ReadField

/-- A payload of another type ends in an exception, with the cursor where it was. -/
theorem Inside.halts_throw {α : Type} (h : Inside r 1 r') (e : TarsException)
    (Q : α → BufferReader → Prop) :
    Halts (Decoding.throw e : Decode α) r' Q (Ahead r 0) :=
  .throw (h.weaken (Nat.zero_le _)).toAhead

/-- A payload that starts with some bytes is at least as long as they are, or the read throws. -/
theorem Inside.halts_readTypeBuf (h : Inside r 1 r') {size : ℕ} (hsize : size < 2 ^ 63) :
    Halts (readTypeBuf size) r' (fun bs r'' => Inside r 1 r'' ∧ bs.length = size)
      (Ahead r 0) := by
  have hfits := h.sound.fits
  have hinside := h.inside
  refine (TarsInputStream.halts_readTypeBuf h.sound (by omega)).mono ?_ fun _ h' =>
    h.trans h' (Nat.zero_le _)
  rintro bs r'' ⟨h', hlength⟩
  exact ⟨h.toAhead.inside h' (by omega), hlength⟩

/-- A payload that is read as some bytes ends within the buffer or throws. -/
theorem Inside.halts_bytes {α : Type} (h : Inside r 1 r') {size : ℕ} (hsize : size < 2 ^ 63)
    (g : Bytes → α) : Halts (readTypeBuf size >>= fun bs => (pure (g bs) : Decode α)) r'
      (fun _ => Inside r 1) (Ahead r 0) :=
  (h.halts_readTypeBuf hsize).bind fun _ _ h' => .pure h'.1

/-- The payload of an integer ends within the buffer or throws, whatever the head type is. -/
theorem Inside.halts_integerBody (w : ℕ) (type : HeadType) (h : Inside r 1 r') :
    Halts (integerBody w type) r' (fun _ => Inside r 1) (Ahead r 0) := by
  cases type with
  | zeroTag => exact .pure h
  | char => exact h.halts_bytes (by decide) _
  | short =>
    rw [integerBody]
    split
    · exact h.halts_throw _ _
    · exact h.halts_bytes (by decide) _
  | int32 =>
    rw [integerBody]
    split
    · exact h.halts_throw _ _
    · exact h.halts_bytes (by decide) _
  | int64 =>
    rw [integerBody]
    split
    · exact h.halts_throw _ _
    · exact h.halts_bytes (by decide) _
  | _ => exact h.halts_throw _ _

/-- Where a decoder ends in the buffer it ends further on. -/
theorem halts_ahead {α : Type} {m : Decode α} (h : Halts m r' (fun _ => Inside r 1) (Ahead r 0)) :
    Halts m r' (fun _ => Ahead r 0) (Ahead r 0) :=
  h.mono (fun _ _ h' => (h'.weaken (Nat.zero_le _)).toAhead) fun _ h' => h'

/-- Converting the value changes neither the end nor the state in it. -/
theorem halts_map {α β : Type} {m : Decode α} {P : BufferReader → Prop} {E : BufferReader → Prop}
    (h : Halts m r (fun _ => P) E) (g : α → β) :
    Halts (m >>= fun v => (pure (g v) : Decode β)) r (fun _ => P) E :=
  h.bind fun _ _ h' => .pure h'

/-- Reading an integer ends, found or not, required or not. -/
theorem halts_readInteger (h : Ready skip fuel n r) {w : ℕ} (old : BitVec w) (tag : UInt8)
    (isRequire : Bool) :
    Halts (readField skip n (integerBody w) old tag isRequire) r (fun _ => Ahead r 0)
      (Ahead r 0) :=
  halts_readField h (fun type _ h' => halts_ahead (h'.halts_integerBody w type)) old tag isRequire

theorem halts_readBool (h : Ready skip fuel n r) (b : Bool) (tag : UInt8) (isRequire : Bool) :
    Halts (readBool skip n b tag isRequire) r (fun _ => Ahead r 0) (Ahead r 0) :=
  halts_map (halts_readInteger h _ tag isRequire) _

theorem halts_readInt (h : Ready skip fuel n r) (k : IntKind) (old : BitVec k.width) (tag : UInt8)
    (isRequire : Bool) :
    Halts (readInt skip n k old tag isRequire) r (fun _ => Ahead r 0) (Ahead r 0) := by
  cases k with
  | uint8 => exact halts_map (halts_readInteger h _ tag isRequire) _
  | uint16 => exact halts_map (halts_readInteger h _ tag isRequire) _
  | uint32 => exact halts_map (halts_readInteger h _ tag isRequire) _
  | _ => exact halts_readInteger h _ tag isRequire

theorem halts_readFloat (h : Ready skip fuel n r) (old : BitVec 32) (tag : UInt8)
    (isRequire : Bool) :
    Halts (readFloat skip n old tag isRequire) r (fun _ => Ahead r 0) (Ahead r 0) := by
  refine halts_readField h (fun type r' h' => halts_ahead ?_) old tag isRequire
  cases type with
  | zeroTag => exact .pure h'
  | float => exact h'.halts_bytes (by decide) _
  | _ => exact h'.halts_throw _ _

theorem halts_readDouble (types : Codegen) (h : Ready skip fuel n r) (old : BitVec 64)
    (tag : UInt8) (isRequire : Bool) :
    Halts (readDouble skip types n old tag isRequire) r (fun _ => Ahead r 0) (Ahead r 0) := by
  refine halts_readField h (fun type r' h' => halts_ahead ?_) old tag isRequire
  cases type with
  | zeroTag => exact .pure h'
  | float => exact h'.halts_bytes (by decide) _
  | double => exact h'.halts_bytes (by decide) _
  | _ => exact h'.halts_throw _ _

/-- A loaded number is below the power of 256 that its bytes allow. -/
private theorem load_lt_of_length {bs : Bytes} {size : ℕ} (h : bs.length = size) :
    load bs < 256 ^ size := h ▸ load_lt bs

theorem halts_readString (h : Ready skip fuel n r) (old : Bytes) (tag : UInt8) (isRequire : Bool) :
    Halts (readString skip n old tag isRequire) r (fun _ => Ahead r 0) (Ahead r 0) := by
  refine halts_readField h (fun type r' h' => halts_ahead ?_) old tag isRequire
  cases type with
  | string1 =>
    refine (h'.halts_readTypeBuf (by decide)).bind ?_
    rintro bs r'' ⟨h'', hlength⟩
    have hlt := load_lt_of_length hlength
    exact (h''.halts_readTypeBuf (by omega)).mono (fun _ _ h₁ => h₁.1) fun _ h₁ => h₁
  | string4 =>
    refine (h'.halts_readTypeBuf (by decide)).bind ?_
    rintro bs r'' ⟨h'', hlength⟩
    have hlt := (htonl (BitVec.ofNat 32 (load bs))).isLt
    dsimp only
    split
    · exact h''.halts_throw _ _
    · exact (h''.halts_readTypeBuf (by omega)).mono (fun _ _ h₁ => h₁.1) fun _ h₁ => h₁
  | _ => exact h'.halts_throw _ _

/-- The size of a container is required, so reading it consumes at least a head. -/
theorem halts_readSize (h : Ready skip fuel n r) :
    Halts (readSize skip n) r (fun _ => Inside r 1) (Ahead r 0) := by
  have hread : Halts (readUInt32 skip n 0 0 true) r (fun _ => Inside r 1) (Ahead r 0) :=
    halts_map (halts_readField_required h (fun type _ h' => h'.halts_integerBody 64 type) _ 0) _
  refine hread.bind fun size r' h' => ?_
  refine Halts.bind (Halts.ask h' : Halts _ r' (fun _ => Inside r 1) _) fun bufLen r'' h'' => ?_
  split
  · exact h''.halts_throw _ _
  · exact .pure h''

/-- The elements of a vector are read one after the other. -/
theorem halts_readEach {α : Type} {read : α → Decode α}
    (hread : ∀ x r', Ahead r 0 r' → Halts (read x) r' (fun _ => Ahead r' 0) (Ahead r' 0))
    (xs : List α) {r' : BufferReader} (h : Ahead r 0 r') :
    Halts (readEach read xs) r' (fun _ => Ahead r 0) (Ahead r 0) := by
  induction xs generalizing r' with
  | nil => exact .pure h
  | cons x xs ih =>
    refine (h.halts (hread x r' h)).bind fun y r'' h'' => ?_
    exact halts_map (ih h'') _

/-- The loop over the entries of a map ends if reading an entry does. -/
theorem halts_readEntries {α β : Type} (less : α → α → Bool) {read : Decode (α × β)}
    (hread : ∀ r', Ahead r 0 r' → Halts read r' (fun _ => Ahead r' 0) (Ahead r' 0)) (size : ℕ)
    (m : List (α × β)) {r' : BufferReader} (h : Ahead r 0 r') :
    Halts (readEntries less read size m) r' (fun _ => Ahead r 0) (Ahead r 0) := by
  induction size generalizing m r' with
  | zero => exact .pure h
  | succ size ih => exact (h.halts (hread r' h)).bind fun _ r'' h'' => ih _ h''

theorem halts_readBytes (h : Ready skip fuel n r) (old : Bytes) (tag : UInt8) (isRequire : Bool) :
    Halts (readBytes skip n old tag isRequire) r (fun _ => Ahead r 0) (Ahead r 0) := by
  refine halts_readField h (fun type r' h' => ?_) old tag isRequire
  have hahead := (h'.weaken (Nat.zero_le _)).toAhead
  have hsize (r'' : BufferReader) (h'' : Ahead r 0 r'') :
      Halts (readSize skip n) r'' (fun _ => Inside r 1) (Ahead r 0) := by
    exact (halts_readSize (h.ahead h'')).mono (fun _ _ h₁ => h''.inside h₁ (Nat.le_add_left 1 0))
      fun _ h₁ => h''.trans h₁ (Nat.zero_le _)
  cases type with
  | simpleList =>
    refine ((halts_readFromHead h'.sound).mono (fun _ _ h₁ => hahead.trans h₁.toAhead
      (Nat.zero_le _)) fun _ h₁ => hahead.trans h₁ (Nat.zero_le _)).bind fun hhead r'' h'' => ?_
    split
    · exact .throw h''
    · refine (hsize r'' h'').bind fun size r₁ h₁ => ?_
      exact (halts_readBuf h₁.sound h₁.inside size).mono
        (fun _ _ h₂ => h₁.toAhead.trans h₂.toAhead (Nat.zero_le _))
        fun _ h₂ => h₁.toAhead.trans h₂ (Nat.zero_le _)
  | list =>
    refine (hsize r' hahead).bind fun size r'' h'' => ?_
    refine halts_readEach (fun b r₁ h₁ => ?_) _ (h''.weaken (Nat.zero_le _)).toAhead
    exact halts_map (halts_readInteger (h.ahead h₁) _ 0 true) _
  | _ => exact h'.halts_throw _ _

/-! ### Skipping -/

/-- Every element of a container has a head, so skipping them ends, however many the size announces.
-/
theorem halts_skipEach (hskip : SkipHalts skip fuel) (size : ℕ) (hr : Sound r)
    (hfuel : r.bufLen - r.cur ≤ fuel) :
    Halts (skipEach skip size) r (fun _ => Ahead r 0) (Ahead r 0) := by
  induction size generalizing r with
  | zero => exact .pure hr.ahead
  | succ size ih =>
    have hhead : Halts (skipFieldHead skip) r (fun _ => Ahead r 0) (Ahead r 0) := by
      refine (halts_readFromHeadNoTag hr).bind fun type r' h => ?_
      have hcur := h.cur
      have hlen := h.bufLen
      have hin := h.inside
      exact (h.weaken (Nat.zero_le _)).toAhead.halts (hskip type r' h.sound hin (by omega))
    refine hhead.bind fun _ r' h => ?_
    have hcur := h.cur
    have hlen := h.bufLen
    exact h.halts (ih h.sound (by omega))

/-- Every field of a structure has a head, so the search for its end makes progress in each round.
-/
theorem halts_skipToStructEnd (hskip : SkipHalts skip fuel) (hr : Sound r)
    (hfuel : r.bufLen - r.cur ≤ fuel) (hn : r.bufLen - r.cur < n) :
    Halts (skipToStructEnd skip n) r (fun _ => Ahead r 0) (Ahead r 0) := by
  induction n generalizing r with
  | zero => exact absurd hn (Nat.not_lt_zero _)
  | succ n ih =>
    refine (halts_readFromHeadNoTag hr).bind fun type r' h => ?_
    have hcur := h.cur
    have hlen := h.bufLen
    have hin := h.inside
    have hpayload := hskip type r' h.sound hin (by omega)
    refine (hpayload.mono (fun _ _ h' => h.toAhead.trans h' (le_refl 1)) fun _ h' =>
      h.toAhead.trans h' (Nat.zero_le _)).bind fun _ r'' h' => ?_
    have hcur' := h'.cur
    have hlen' := h'.bufLen
    split
    · exact .pure (h'.trans h'.sound.ahead (Nat.zero_le _))
    · exact (ih h'.sound (by omega) (by omega)).mono (fun _ _ h₁ => h'.trans h₁ (Nat.zero_le _))
        fun _ h₁ => h'.trans h₁ (Nat.zero_le _)

end Fields

/-- A size that is not negative is converted without a change, so it stays below 2^31. -/
private theorem toSizeT_lt {size : BitVec 32} (hsize : ¬size.toInt < 0) :
    toSizeT size < 2 ^ 31 := by
  have hhi := size.toInt_lt
  rw [toSizeT, BitVec.signExtend, BitVec.toNat_ofInt]
  omega

/-- **The guarded `skipField` ends**, by induction on the fuel, which each nested field uses up by
its head. -/
theorem halts_skipField (fuel : ℕ) : SkipHalts (skipField true fuel) fuel := by
  induction fuel with
  | zero => exact fun _ _ _ _ hfuel => absurd hfuel (Nat.not_lt_zero _)
  | succ fuel ih =>
    intro type r hr hin hfuel
    have hready : Ready (skipField true fuel) fuel (fuel + 1) r := ⟨ih, hr, by omega, hfuel⟩
    have hskip (len : ℕ) (hlen : len ≤ 2 ^ 32) :
        Halts (readHeadSkip len) r (fun _ => Ahead r 0) (Ahead r 0) :=
      (halts_readHeadSkip hr (by omega) (by omega)).mono
        (fun _ _ h => h.1.trans h.1.sound.ahead (Nat.zero_le _)) fun _ h => h
    have hint {r' : BufferReader} (h : Ahead r 0 r') :
        Halts (readInt32 (skipField true fuel) (fuel + 1) 0 0 true) r' (fun _ => Inside r 1)
          (Ahead r 0) :=
      (halts_readField_required (hready.ahead h)
        (fun type _ h' => h'.halts_integerBody 32 type) _ 0).mono
          (fun _ _ h' => h.inside h' (Nat.le_add_left 1 0)) fun _ h' => h.trans h' (Nat.zero_le _)
    have hbytes {size : ℕ} (hsize : size < 2 ^ 32) {r' : BufferReader} (h : Inside r 0 r') :
        Halts (readHeadSkip size) r' (fun _ => Ahead r 0) (Ahead r 0) := by
      have hin' := h.inside
      exact (halts_readHeadSkip h.sound (by omega) (by omega)).mono
        (fun _ _ h' => h.toAhead.trans h'.1 (Nat.zero_le _)) fun _ h' => h'
    have heach (size : ℕ) {r' : BufferReader} (h : Inside r 1 r') :
        Halts (skipEach (skipField true fuel) size) r' (fun _ => Ahead r 0) (Ahead r 0) := by
      have hcur := h.cur
      have hlen := h.bufLen
      exact (h.weaken (Nat.zero_le _)).toAhead.halts
        (halts_skipEach ih size h.sound (by omega))
    have hwrap := hr.fits
    cases type with
    | char => exact hskip 1 (by decide)
    | short => exact hskip 2 (by decide)
    | int32 => exact hskip 4 (by decide)
    | int64 => exact hskip 8 (by decide)
    | float => exact hskip 4 (by decide)
    | double => exact hskip 8 (by decide)
    | string1 =>
      refine (halts_readTypeBuf hr (by omega)).bind ?_
      rintro bs r' ⟨h, hlength⟩
      have hlt := load_lt_of_length hlength
      exact hbytes (by omega) (h.weaken (Nat.zero_le _))
    | string4 =>
      refine (halts_readTypeBuf hr (by omega)).bind ?_
      rintro bs r' ⟨h, hlength⟩
      exact hbytes (htonl (BitVec.ofNat 32 (load bs))).isLt (h.weaken (Nat.zero_le _))
    | map => exact (hint hr.ahead).bind fun size r' h => heach _ h
    | list => exact (hint hr.ahead).bind fun size r' h => heach _ h
    | simpleList =>
      refine (halts_readFromHead hr).bind fun head r' h => ?_
      split
      · exact h.halts_throw _ _
      · refine (hint (h.weaken (Nat.zero_le _)).toAhead).bind fun size r'' h' => ?_
        split
        · exact .refuse
        · rename_i hsize
          have hlt : toSizeT size < 2 ^ 31 := toSizeT_lt fun hneg => hsize ⟨rfl, hneg⟩
          exact hbytes (by omega) (h'.weaken (Nat.zero_le _))
    | structBegin => exact halts_skipToStructEnd ih hr (by omega) hfuel
    | structEnd => exact .pure hr.ahead
    | zeroTag => exact .pure hr.ahead
    | invalid => exact .throw hr.ahead

/-! ### Reading -/

section Read

variable {fuel : ℕ}

/-- With enough fuel a function that looks for a tag is ready. -/
theorem ready_skipField (hr : Sound r) (hfuel : r.bufLen - r.cur < fuel) :
    Ready (skipField true fuel) fuel fuel r :=
  ⟨halts_skipField fuel, hr, hfuel.le, hfuel⟩

/-- The loop of the member function `skipToTag` ends, because each round moves the cursor on. -/
theorem halts_skipToLoop {n : ℕ} (tag : UInt8) (hr : Sound r) (hfuel : r.bufLen - r.cur ≤ fuel)
    (hn : r.bufLen - r.cur < n) :
    Halts (skipToLoop true fuel tag n) r (fun _ => Ahead r 0) (Ahead r 0) := by
  induction n generalizing r with
  | zero => exact absurd hn (Nat.not_lt_zero _)
  | succ n ih =>
    refine Halts.bind (Halts.ask rfl : Halts _ r (fun _ r' => r = r') _) ?_
    rintro ended _ rfl
    split
    · exact .pure hr.ahead
    · refine (halts_peekFromHead hr).bind ?_
      rintro head _ ⟨rfl, hone, hinside⟩
      split
      · exact .pure hr.ahead
      · refine (halts_readHeadSkip_inside hr hinside).bind fun _ r' h => ?_
        have hcur := h.cur
        have hlen := h.bufLen
        have hin := h.inside
        have hpayload := halts_skipField fuel head.type r' h.sound hin (by omega)
        refine (hpayload.mono (fun _ _ h' => h.toAhead.trans h' (k := 1) (by omega)) fun _ h' =>
          h.toAhead.trans h' (Nat.zero_le _)).bind fun _ r'' h' => ?_
        have hcur' := h'.cur
        have hlen' := h'.bufLen
        exact (ih h'.sound (by omega) (by omega)).mono (fun _ _ h₁ => h'.trans h₁ (Nat.zero_le _))
          fun _ h₁ => h'.trans h₁ (Nat.zero_le _)

variable (types : Codegen)

mutual

/-- **The guarded `read` ends**, by recursion on the type and, for structures, on the fields. -/
theorem halts_read : (t : Ty) → (old : t.denote) → (tag : UInt8) → (isRequire : Bool) →
    (r : BufferReader) → Sound r → r.bufLen - r.cur < fuel →
      Halts (read types true fuel t old tag isRequire) r (fun _ => Ahead r 0) (Ahead r 0)
  | .bool, old, tag, isRequire, r, hr, hfuel =>
    halts_readBool (ready_skipField hr hfuel) old tag isRequire
  | .int k, old, tag, isRequire, r, hr, hfuel =>
    halts_readInt (ready_skipField hr hfuel) k old tag isRequire
  | .float, old, tag, isRequire, r, hr, hfuel =>
    halts_readFloat (ready_skipField hr hfuel) old tag isRequire
  | .double, old, tag, isRequire, r, hr, hfuel =>
    halts_readDouble types (ready_skipField hr hfuel) old tag isRequire
  | .string, old, tag, isRequire, r, hr, hfuel =>
    halts_readString (ready_skipField hr hfuel) old tag isRequire
  | .bytes, old, tag, isRequire, r, hr, hfuel =>
    halts_readBytes (ready_skipField hr hfuel) old tag isRequire
  | .vector t, old, tag, isRequire, r, hr, hfuel => by
    have hready := ready_skipField hr hfuel
    refine halts_readField hready (fun type r' h => ?_) old tag isRequire
    have hahead := (h.weaken (Nat.zero_le _)).toAhead
    cases type with
    | list =>
      refine ((halts_readSize (hready.ahead hahead)).mono (fun _ _ h' => hahead.trans h'.toAhead
        (Nat.zero_le _)) fun _ h' => hahead.trans h' (Nat.zero_le _)).bind fun size r'' h' => ?_
      refine halts_readEach (fun x r₁ h₁ => ?_) _ h'
      have hcur := h₁.cur
      have hlen := h₁.bufLen
      exact halts_read t x 0 true r₁ h₁.sound (by omega)
    | _ => exact h.halts_throw _ _
  | .map k v, old, tag, isRequire, r, hr, hfuel => by
    have hready := ready_skipField hr hfuel
    refine halts_readField hready (fun type r' h => ?_) old tag isRequire
    have hahead := (h.weaken (Nat.zero_le _)).toAhead
    cases type with
    | map =>
      refine ((halts_readSize (hready.ahead hahead)).mono (fun _ _ h' => hahead.trans h'.toAhead
        (Nat.zero_le _)) fun _ h' => hahead.trans h' (Nat.zero_le _)).bind fun size r'' h' => ?_
      refine halts_readEntries _ (fun r₁ h₁ => ?_) _ _ h'
      have hcur := h₁.cur
      have hlen := h₁.bufLen
      refine (halts_read k _ 0 true r₁ h₁.sound (by omega)).bind fun key r₂ h₂ => ?_
      have hcur₂ := h₂.cur
      have hlen₂ := h₂.bufLen
      exact h₂.halts (halts_map (halts_read v _ 1 true r₂ h₂.sound (by omega)) _)
    | _ => exact h.halts_throw _ _
  | .struct fs, old, tag, isRequire, r, hr, hfuel => by
    refine halts_readField (ready_skipField hr hfuel) (fun type r' h => ?_) old tag isRequire
    have hahead := (h.weaken (Nat.zero_le _)).toAhead
    have hcur := h.cur
    have hlen := h.bufLen
    split
    · exact h.halts_throw _ _
    · refine (hahead.halts (halts_readFrom fs _ r' h.sound (by omega))).bind fun s r'' h' => ?_
      have hcur' := h'.cur
      have hlen' := h'.bufLen
      exact h'.halts (halts_map (halts_skipToStructEnd (halts_skipField fuel) h'.sound (by omega)
        (by omega)) fun _ => s)

/-- The guarded `readFrom` ends, one field after the other, further on in the buffer each time. -/
theorem halts_readFrom : (fs : Fields) → (old : fs.denote) → (r : BufferReader) → Sound r →
    r.bufLen - r.cur < fuel →
      Halts (readFrom types true fuel fs old) r (fun _ => Ahead r 0) (Ahead r 0)
  | .nil, _, _, hr, _ => .pure hr.ahead
  | .cons tag isRequire t fs, (old, olds), r, hr, hfuel => by
    refine (halts_read t old tag isRequire r hr hfuel).bind fun v r' h => ?_
    have hcur := h.cur
    have hlen := h.bufLen
    exact h.halts (halts_map (halts_readFrom fs olds r' h.sound (by omega)) _)

end

end Read

/-! ### All functions -/

/-- The functions of the input stream that a caller can run. -/
inductive Operation where
  /-- `read`. -/
  | read (t : Ty) (old : t.denote) (tag : UInt8) (isRequire : Bool)
  /-- The member function `skipToTag`. -/
  | skipToTag (tag : UInt8)
  /-- `skipField` with the head of the field. -/
  | skipField
  /-- `skipField` without the head of the field. -/
  | skipFieldType (type : HeadType)
  /-- `skipToStructEnd`. -/
  | skipToStructEnd

/-- A function of the input stream without its result. -/
def Operation.run (types : Codegen) (op : Operation) (guard : Bool) (fuel : ℕ) : Decode Unit :=
  match op with
  | .read t old tag isRequire =>
    TarsInputStream.read types guard fuel t old tag isRequire >>= fun _ => pure ()
  | .skipToTag tag => TarsInputStream.skipToTag guard fuel tag >>= fun _ => pure ()
  | .skipField => skipFieldHead (TarsInputStream.skipField guard fuel)
  | .skipFieldType type => TarsInputStream.skipField guard fuel type
  | .skipToStructEnd => TarsInputStream.skipToStructEnd (TarsInputStream.skipField guard fuel) fuel

variable (types : Codegen) (op : Operation)

/-- More fuel and no guard change nothing that goes well. -/
theorem Operation.approx_run {guard guard' : Bool} {n n' : ℕ}
    (hguard : guard' = true → guard = true) (hn : n ≤ n') :
    Approx (op.run types guard n) (op.run types guard' n') := by
  cases op with
  | read t old tag isRequire =>
    exact (approx_read types hguard hn t old tag isRequire).bind fun _ => .pure _
  | skipToTag tag => exact (approx_skipToTag hguard hn tag).bind fun _ => .pure _
  | skipField => exact approx_skipFieldHead (approx_skipField hguard hn)
  | skipFieldType type => exact approx_skipField hguard hn type
  | skipToStructEnd => exact approx_skipToStructEnd (approx_skipField hguard hn) hn

/-- With the guard every function ends, in a sound state that is not behind the first one. -/
theorem Operation.halts_run {fuel : ℕ} (hr : Sound r) (hin : r.cur ≤ r.bufLen)
    (hfuel : r.bufLen - r.cur < fuel) :
    Halts (op.run types true fuel) r (fun _ => Ahead r 0) (Ahead r 0) := by
  cases op with
  | read t old tag isRequire => exact halts_map (halts_read types t old tag isRequire r hr hfuel) _
  | skipToTag tag =>
    have hloop : Halts (skipToLoop true fuel tag fuel) r (fun _ => Ahead r 0) (Ahead r 0) :=
      halts_skipToLoop tag hr hfuel.le hfuel
    exact halts_map (hloop.attempt fun _ h => h) _
  | skipField =>
    refine (halts_readFromHeadNoTag hr).bind fun type r' h => ?_
    have hcur := h.cur
    have hlen := h.bufLen
    exact (h.weaken (Nat.zero_le _)).toAhead.halts
      (halts_skipField fuel type r' h.sound h.inside (by omega))
  | skipFieldType type => exact halts_skipField fuel type r hr hin hfuel
  | skipToStructEnd => exact halts_skipToStructEnd (halts_skipField fuel) hr hfuel.le hfuel

/-- The function returns or throws, and the cursor has never been moved back. -/
def Operation.Finishes (r : BufferReader) : Prop :=
  ∃ fuel, Good MovedBack (op.run types false fuel r)

/-- The input stream on a byte string, at a start position. -/
def start (buf : Bytes) (cur : ℕ) : BufferReader := ⟨buf, buf.length, cur, false⟩

/-- Whether the guard refuses: some `SimpleList` with a negative size is skipped. -/
def Operation.Refused (buf : Bytes) (cur : ℕ) : Prop :=
  op.run types true (buf.length - cur + 1) (start buf cur) = .refused

instance (buf : Bytes) (cur : ℕ) : Decidable (op.Refused types buf cur) :=
  inferInstanceAs (Decidable (_ = _))

section Start

variable {types op} {buf : Bytes} {cur : ℕ}

/-- With the guard the function ends well or is refused. -/
theorem Operation.good_of_not_refused (hfits : buf.length < 2 ^ 63) (hcur : cur ≤ buf.length)
    (h : ¬op.Refused types buf cur) :
    Good MovedBack (op.run types true (buf.length - cur + 1) (start buf cur)) := by
  have hsound : Sound (start buf cur) := ⟨hfits, le_rfl, rfl, by show cur ≤ buf.length + _; omega⟩
  have hhalts := op.halts_run types hsound hcur (Nat.lt_succ_self (buf.length - cur))
  rw [Halts] at hhalts
  rw [Operation.Refused] at h
  generalize op.run types true (buf.length - cur + 1) (start buf cur) = outcome at hhalts h ⊢
  have hforward {r' : BufferReader} (h' : Ahead (start buf cur) 0 r') : ¬MovedBack r' := by
    rw [MovedBack, h'.sound.forward]
    decide
  cases outcome with
  | ok v r' => exact hforward hhalts
  | thrown e r' => exact hforward hhalts
  | refused => exact absurd rfl h
  | _ => exact hhalts.elim

/-- What the guard does not refuse ends well without it. -/
theorem Operation.good_run (hfits : buf.length < 2 ^ 63) (hcur : cur ≤ buf.length)
    (h : ¬op.Refused types buf cur) :
    Good MovedBack (op.run types false (buf.length - cur + 1) (start buf cur)) := by
  have hgood := Operation.good_of_not_refused hfits hcur h
  have hfuel : op.run types true (buf.length - cur + 1) (start buf cur) ≠ .timeout := by
    intro htimeout
    rw [htimeout] at hgood
    exact hgood
  have happrox : Approx (op.run types true (buf.length - cur + 1))
      (op.run types false (buf.length - cur + 1)) :=
    op.approx_run types (fun hfalse => nomatch hfalse) le_rfl
  rw [happrox.agrees _ hfuel (.inl hgood)]
  exact hgood

/-- Two runs without the guard, one of which ends well, are the same or run out of fuel. -/
theorem Operation.run_eq_of_good {n n' : ℕ} {r : BufferReader}
    (hgood : Good MovedBack (op.run types false n r)) (h : op.run types false n' r ≠ .timeout) :
    op.run types false n' r = op.run types false n r := by
  have hfuel : op.run types false n r ≠ .timeout := by
    intro htimeout
    rw [htimeout] at hgood
    exact hgood
  rcases Nat.le_total n n' with hle | hle
  · exact (op.approx_run types (fun hguard => hguard) hle).agrees r hfuel (.inl hgood)
  · exact ((op.approx_run types (fun hguard => hguard) hle).agrees r h (.inr hgood)).symm

/-- What the guard refuses does not end well without the guard either, whatever fuel there is. -/
theorem Operation.not_finishes (h : op.Refused types buf cur) :
    ¬op.Finishes types (start buf cur) := by
  rintro ⟨fuel, hgood⟩
  have happrox : Approx (op.run types true (buf.length - cur + 1))
      (op.run types false (max (buf.length - cur + 1) fuel)) :=
    op.approx_run types (fun hfalse => nomatch hfalse) (Nat.le_max_left _ _)
  have hmore : op.run types false (max (buf.length - cur + 1) fuel) (start buf cur) =
      op.run types false fuel (start buf cur) :=
    (op.approx_run types (fun hguard => hguard) (Nat.le_max_right _ _)).agrees _
      (by intro htimeout; rw [htimeout] at hgood; exact hgood) (.inl hgood)
  rw [Operation.Refused] at h
  have hsame := happrox.agrees (start buf cur) (by rw [h]; exact nofun)
    (.inr (by rw [hmore]; exact hgood))
  rw [hmore, h] at hsame
  rw [hsame] at hgood
  exact hgood

/-- **Decoding ends without moving back exactly if** no `SimpleList` with a negative size is
skipped, which the guard finds out with as much fuel as there are bytes. -/
theorem Operation.finishes_iff (types : Codegen) (op : Operation) (buf : Bytes) (cur : ℕ)
    (hfits : buf.length < 2 ^ 63) (hcur : cur ≤ buf.length) :
    op.Finishes types (start buf cur) ↔ ¬op.Refused types buf cur :=
  ⟨fun hfinishes h => op.not_finishes h hfinishes,
    fun h => ⟨_, op.good_run hfits hcur h⟩⟩

/-- A list of two bytes is skipped, and then `true` is read. -/
theorem Operation.finishes_sample :
    (Operation.read .bool false 1 true).Finishes plainTypes
      (start [0x0D, 0x00, 0x00, 0x02, 0xAA, 0xBB, 0x10, 0x01] 0) :=
  (Operation.finishes_iff plainTypes _ _ 0 (by decide) (by decide)).mpr (by decide +kernel)

/-- **Decoding stays in the buffer if** no `SimpleList` with a negative size is skipped. -/
theorem Operation.in_bounds (types : Codegen) (op : Operation) (buf : Bytes) (cur : ℕ)
    (hfits : buf.length < 2 ^ 63) (hcur : cur ≤ buf.length) (h : ¬op.Refused types buf cur)
    (fuel : ℕ) : op.run types false fuel (start buf cur) ≠ .fault := by
  have hgood := op.good_run hfits hcur h
  intro hfault
  have hsame := op.run_eq_of_good hgood (by rw [hfault]; exact nofun)
  rw [hfault] at hsame
  rw [← hsame] at hgood
  exact hgood

/-- A string is skipped that is longer than the buffer. -/
theorem Operation.in_bounds_sample :
    Operation.skipField.run plainTypes false 100 (start [0x06, 0xFF, 0x61] 0) ≠ .fault :=
  Operation.in_bounds plainTypes _ _ 0 (by decide) (by decide) (by decide +kernel) 100

end Start

/-- A `SimpleList` with the size `-4` in front of the end of the buffer. -/
private abbrev loopBytes : Bytes := [0x0D, 0x00, 0x00, 0xFC]

/-- Skipping it moves the cursor back to the start. -/
private theorem skip_loopBytes (fuel : ℕ) (backward : Bool) :
    skipField false (fuel + 1) .simpleList ⟨loopBytes, 4, 1, backward⟩ =
      .ok () ⟨loopBytes, 4, 0, true⟩ := by
  have hat : At ⟨loopBytes, 4, 1, backward⟩ (writeToHead .char 0 ++ (encodeInteger (-4) 0 ++ [])) :=
    ⟨by show 4 < 2 ^ 63; decide, ⟨by show 1 ≤ 4; decide, by show 1 ≤ 4; decide⟩,
      by show (loopBytes.take 4).drop 1 = _; decide⟩
  have hsize := hat.advance
  rw [length_writeToHead] at hsize
  have hread : readInt32 (skipField false fuel) (fuel + 1) 0 0 true
      (BufferReader.advance ⟨loopBytes, 4, 1, backward⟩ (headLen 0)) =
        .ok (-4) ⟨loopBytes, 4, 4, backward⟩ :=
    reads_readInt .int32 (-4) 0 0 true _ _ hsize
  have hback : readHeadSkip (toSizeT (-4)) ⟨loopBytes, 4, 4, backward⟩ =
      .ok () ⟨loopBytes, 4, 0, true⟩ := by
    have hlen : toSizeT (-4) = 2 ^ 64 - 4 := by decide
    rw [readHeadSkip, hlen]
    cases backward <;> decide +kernel
  rw [skipField, bind_of_ok hat.readFromHead, if_neg (by decide), bind_of_ok hread,
    if_neg (by decide), hback]

/-- The loop never ends, because each round comes back to the head from which it started. -/
theorem skipToTagLoop_endless (fuel n : ℕ) (backward : Bool) :
    skipToTagLoop (skipField false fuel) 1 n ⟨loopBytes, 4, 0, backward⟩ = .timeout := by
  induction n generalizing backward with
  | zero => rfl
  | succ n ih =>
    have hat : At ⟨loopBytes, 4, 0, backward⟩ (writeToHead .simpleList 0 ++ [0x00, 0x00, 0xFC]) :=
      ⟨by show 4 < 2 ^ 63; decide, ⟨Nat.zero_le _, Nat.zero_le _⟩, rfl⟩
    have hmoved : BufferReader.advance ⟨loopBytes, 4, 0, backward⟩ 1 =
        ⟨loopBytes, 4, 1, backward⟩ := rfl
    have hskip := hat.readHeadSkip (length_writeToHead .simpleList 0)
    rw [headLen, if_pos (by decide), hmoved] at hskip
    have hend := hat.hasEnd_eq (by decide)
    rw [skipToTagLoop, bind_of_ok (ask_apply _ _), hend, if_neg (by decide),
      bind_of_ok hat.peekFromHead,
      if_neg (by decide), if_neg (by decide), headLen, if_pos (by decide), bind_of_ok hskip]
    cases fuel with
    | zero => rfl
    | succ fuel => rw [bind_of_ok (skip_loopBytes fuel backward), ih true]

/-- Four bytes on which `read` never ends. -/
theorem finishes_fails :
    (∀ fuel, (Operation.read .bool false 1 true).run plainTypes false fuel
      (start [0x0D, 0x00, 0x00, 0xFC] 0) = .timeout) ∧
    ¬(Operation.read .bool false 1 true).Finishes plainTypes
      (start [0x0D, 0x00, 0x00, 0xFC] 0) := by
  have hendless (fuel : ℕ) : (Operation.read .bool false 1 true).run plainTypes false fuel
      (start [0x0D, 0x00, 0x00, 0xFC] 0) = .timeout := by
    have hloop : skipToTagLoop (skipField false fuel) 1 fuel (start loopBytes 0) = .timeout :=
      skipToTagLoop_endless fuel fuel false
    have hfound : tarsSkipToTag (skipField false fuel) fuel 1 (start loopBytes 0) = .timeout := by
      rw [tarsSkipToTag, attempt, hloop]
    exact bind_of_timeout (bind_of_timeout (bind_of_timeout hfound))
  refine ⟨hendless, ?_⟩
  rintro ⟨fuel, hgood⟩
  rw [hendless fuel] at hgood
  exact hgood

/-- Seven bytes on which `skipField` reads the byte in front of the buffer. -/
theorem in_bounds_fails :
    Operation.skipField.run plainTypes false 3
      (start [0x09, 0x00, 0x02, 0x0D, 0x00, 0x00, 0xF8] 0) = .fault := by
  decide +kernel

end TarsInputStream

end Tars
