import Tars.Tup.RoundTrip
import Tars.Tup.Scalars
import Tars.Tup.Truncation

/-!
# Reading into arrays

Two overloads of `read` store into an array of the caller. The one for characters compares the
number of elements with the capacity. The one for other elements compares it with the length of the
input buffer and does not use the capacity at all. Both take the number from 64 bits and keep the
lower half of them. A store behind the last element has an outcome of its own here.

Whether a number that passes the wrong check really leads to a store behind the array depends on the
bytes of the elements. For scalars the condition says so exactly, in terms of these bytes; for all
types it is exact on the arrays that `write` writes.
-/

namespace Tars

open Decoding TarsOutputStream TarsInputStream

/-- What ends a read into an array: an exception of the encoding, or a store behind its last
element. -/
inductive ArrayException where
  /-- A store behind the last element. -/
  | outside
  /-- An exception of the encoding. -/
  | tars (e : TarsException)
  deriving DecidableEq

/-- A decoder that stores into an array, and can do so behind its end. -/
abbrev ArrayDecode := Decoder BufferReader ArrayException

/-- A decoder of the encoding as one that stores nothing into the array. -/
def lifted {α : Type} (m : Decode α) : ArrayDecode α := m.mapThrown .tars

namespace TarsInputStream

variable (types : Codegen) (fuel : ℕ)

/-! ### The overloads -/

/-- The shape of both overloads: find the tag, and read the payload or leave everything as it is. -/
def readFixed {α : Type} (body : HeadType → ArrayDecode α) (old : α) (tag : UInt8)
    (isRequire : Bool) : ArrayDecode α := do
  let found ← lifted (tarsSkipToTag (skipField false fuel) fuel tag)
  match found with
  | some type => body type
  | none => if isRequire then throw (.tars .requireNotExist) else pure old

/-- Store some characters at the front of a buffer. -/
def storeChars (buf bs : Bytes) : ArrayDecode Bytes :=
  if bs.length ≤ buf.length then pure (bs ++ buf.drop bs.length) else throw .outside

/-- What `read` of characters does behind the head: the number is read and compared with the
capacity. -/
def readCharsBody (buf : Bytes) (bufLen : BitVec 32) :
    HeadType → ArrayDecode (Bytes × BitVec 32)
  | .simpleList => do
    let hhead ← lifted readFromHead
    if hhead.type ≠ .char then throw (.tars .mismatch)
    else do
      let size ← lifted (readUInt32 (skipField false fuel) fuel 0 0 true)
      if size > bufLen then throw (.tars .invalidValue)
      else do
        let bs ← lifted (readBuf size.toNat)
        let buf ← storeChars buf bs
        pure (buf, size)
  | _ => throw (.tars .mismatch)

/-- `read` of characters into a buffer of `bufLen` bytes, over the old values of the buffer and of
`readLen`. -/
def readChars (buf : Bytes) (bufLen readLen : BitVec 32) (tag : UInt8) (isRequire : Bool) :
    ArrayDecode (Bytes × BitVec 32) :=
  readFixed fuel (readCharsBody fuel buf bufLen) (buf, readLen) tag isRequire

/-- `read` of an element behind the last one, up to the first store into it: the assignment of the
value, `clear`, `reserve` or `assign` of a container, `resetDefautlt` of a structure. -/
def readOutside : Ty → ArrayDecode Unit
  | .bytes => do
    lifted (readField (skipField false fuel) fuel (fun type =>
      match type with
      | .simpleList => do
        let hhead ← readFromHead
        if hhead.type ≠ .char then throw .mismatch
        else do
          let size ← readSize (skipField false fuel) fuel
          let _ ← readBuf size
          pure ()
      | .list => do
        let _ ← readSize (skipField false fuel) fuel
        pure ()
      | _ => throw .mismatch) () 0 true)
    throw .outside
  | .vector _ => do
    lifted (readField (skipField false fuel) fuel (fun type =>
      match type with
      | .list => do
        let _ ← readSize (skipField false fuel) fuel
        pure ()
      | _ => throw .mismatch) () 0 true)
    throw .outside
  | .map _ _ => do
    lifted (readField (skipField false fuel) fuel (fun type =>
      match type with
      | .map => do
        let _ ← readSize (skipField false fuel) fuel
        pure ()
      | _ => throw .mismatch) () 0 true)
    throw .outside
  | .struct _ => do
    lifted (readField (skipField false fuel) fuel (fun type =>
      if type ≠ .structBegin then throw .mismatch else pure ()) () 0 true)
    throw .outside
  | t => do
    let _ ← lifted (read types false fuel t (types.init t) 0 true)
    throw .outside

/-- The loop over the elements, which goes on behind the storage where that is shorter than the size
read. -/
def readElements (t : Ty) : ℕ → List t.denote → ArrayDecode (List t.denote)
  | 0, v => pure v
  | _ + 1, [] => do
    readOutside types fuel t
    pure []
  | size + 1, x :: xs => do
    let y ← lifted (read types false fuel t x 0 true)
    let ys ← readElements t size xs
    pure (y :: ys)

/-- What `read` of an array does behind the head. -/
def readArrayBody (t : ElementType) (v : List t.ty.denote) :
    HeadType → ArrayDecode (List t.ty.denote × BitVec 32)
  | .list => do
    let size ← lifted (readUInt32 (skipField false fuel) fuel 0 0 true)
    let bufLen ← ask BufferReader.bufLen
    if size.toNat > bufLen then throw (.tars .invalidValue)
    else do
      let v ← readElements types fuel t.ty size.toNat v
      pure (v, size)
  | _ => throw (.tars .mismatch)

/-- `read` of elements into an array, over the old values of its elements and of `readLen`. The
capacity is the number of elements; the code does not look at it. -/
def readArray (t : ElementType) (v : List t.ty.denote) (readLen : BitVec 32) (tag : UInt8)
    (isRequire : Bool) : ArrayDecode (List t.ty.denote × BitVec 32) :=
  readFixed fuel (readArrayBody types fuel t v) (v, readLen) tag isRequire

/-! ### The number of elements in the input -/

/-- The number of characters behind the head of a field, as it is encoded. -/
def charsFront : HeadType → Decode (BitVec 64)
  | .simpleList => do
    let hhead ← readFromHead
    if hhead.type ≠ .char then throw .mismatch
    else readInt64 (skipField false fuel) fuel 0 0 true
  | _ => throw .mismatch

/-- The number of elements behind the head of a field. -/
def arrayFront : HeadType → Decode (BitVec 64)
  | .list => readInt64 (skipField false fuel) fuel 0 0 true
  | _ => throw .mismatch

/-- The number of elements of the field with the tag. -/
def encodedCount (front : HeadType → Decode (BitVec 64)) (tag : UInt8) : Decode (BitVec 64) :=
  readField (skipField false fuel) fuel front 0 tag true

/-! ### What is to be shown -/

/-- A read into an array of `cap` elements stores nothing behind them, does not set `readLen` to
more than `cap` when it returns, and throws `TarsDecodeInvalidValue` when the encoded number of
elements is greater than `cap`. -/
structure Respects {α : Type} (cap : ℕ) (old : α × BitVec 32) (isRequire : Bool)
    (count : Decode (BitVec 64)) (m : ArrayDecode (α × BitVec 32)) (r : BufferReader) : Prop where
  /-- The stores stay inside the array. -/
  inside : ∀ r', m r ≠ .thrown .outside r'
  /-- The length; an optional field may be missing, which leaves everything as it is. -/
  readLen : ∀ v n r', m r = .ok (v, n) r' → n.toNat ≤ cap ∨ isRequire = false ∧ (v, n) = old
  /-- The exception is thrown if there are more elements than places. -/
  invalid : ∀ n r', count r = .ok n r' → (cap : ℤ) < n.toInt →
    ∃ r'', m r = .thrown (.tars .invalidValue) r''

section Shape

variable {types : Codegen} {fuel : ℕ} {α : Type} {r : BufferReader}

/-- A value of a decoder that stores nothing is the value of the lifted one, in the same state. -/
theorem lifted_of_ok {β : Type} {m : Decode β} {v : β} {r' : BufferReader} (h : m r = .ok v r') :
    lifted m r = .ok v r' := mapThrown_of_ok _ h

/-- An exception of a decoder that stores nothing is the exception of the lifted one, in the same
state. -/
theorem lifted_of_thrown {β : Type} {m : Decode β} {e : TarsException} {r' : BufferReader}
    (h : m r = .thrown e r') : lifted m r = .thrown (.tars e) r' := mapThrown_of_thrown _ h

/-- Two decoders one after the other, neither of which stores anything. -/
theorem lifted_bind {β γ : Type} (m : Decode β) (f : β → Decode γ) (g : γ → ArrayDecode α) :
    (lifted (m >>= f) >>= g) = lifted m >>= fun v => lifted (f v) >>= g := by
  funext r
  change Decoder.bind _ _ r = Decoder.bind _ _ r
  rw [Decoder.bind, Decoder.bind, lifted, lifted, Decoder.mapThrown, Decoder.mapThrown]
  cases hm : m r with
  | ok v t => rw [bind_of_ok hm]; rfl
  | thrown e t => rw [bind_of_thrown hm]
  | fault => rw [bind_of_fault hm]
  | refused => rw [bind_of_refused hm]
  | timeout => rw [bind_of_timeout hm]

/-- A decoder that is chosen by a condition may be lifted on either side of it. -/
theorem lifted_ite {c : Prop} [Decidable c] (e : TarsException) (m : Decode α) :
    lifted (if c then Decoding.throw e else m) =
      if c then Decoding.throw (ArrayException.tars e) else lifted m := by
  split <;> rfl

/-- A `UInt32` is the lower half of what is read. -/
theorem lifted_readUInt32 (g : BitVec 32 → ArrayDecode α) :
    (lifted (readUInt32 (skipField false fuel) fuel 0 0 true) >>= g) =
      lifted (readInt64 (skipField false fuel) fuel 0 0 true) >>= fun n => g (n.setWidth 32) :=
  lifted_bind _ _ g

/-- Without a number of elements in the input, nothing has been stored, and the values are the old
ones if the read returns at all. -/
structure Unread (old : α) (isRequire : Bool) (o : Outcome BufferReader ArrayException α) :
    Prop where
  /-- Nothing is stored outside of the array. -/
  inside : ∀ r', o ≠ .thrown .outside r'
  /-- Nothing is stored inside either: an optional field that is missing leaves what was there. -/
  unset : ∀ v r', o = .ok v r' → isRequire = false ∧ v = old

/-- A decoder that stores nothing and does not deliver a value. -/
theorem Unread.of_fails {β : Type} {m : Decode β} {rest : β → ArrayDecode α} {old : α}
    {isRequire : Bool} (h : Fails m r) : Unread old isRequire ((lifted m >>= rest) r) := by
  constructor
  · intro r' hthrown
    obtain hm | ⟨v, t, hm, -⟩ := bind_eq_thrown_iff.mp hthrown
    · obtain ⟨e, he, -⟩ := (mapThrown_eq_thrown_iff _).mp hm
      cases he
    · exact absurd ((mapThrown_eq_ok_iff _).mp hm) (h v t)
  · intro v r' hok
    obtain ⟨w, t, hm, -⟩ := bind_eq_ok_iff.mp hok
    exact absurd ((mapThrown_eq_ok_iff _).mp hm) (h w t)

/-- **The shape of both overloads.** Either the input has a number of elements, and the rest of the
payload is read with it, or nothing is stored. -/
theorem readFixed_cases {body : HeadType → ArrayDecode α} {front : HeadType → Decode (BitVec 64)}
    {rest : BitVec 64 → ArrayDecode α}
    (hbody : ∀ type r, body type r = (lifted (front type) >>= rest) r)
    (old : α) (tag : UInt8) (isRequire : Bool) (r : BufferReader) :
    (∃ n r', encodedCount fuel front tag r = .ok n r' ∧
      readFixed fuel body old tag isRequire r = rest n r') ∨
    Fails (encodedCount fuel front tag) r ∧
      Unread old isRequire (readFixed fuel body old tag isRequire r) := by
  by_cases hfound : ∃ found t, tarsSkipToTag (skipField false fuel) fuel tag r = .ok found t
  · obtain ⟨found, t, hfound⟩ := hfound
    cases found with
    | none =>
      right
      have hnone : readFixed fuel body old tag isRequire r =
          (if isRequire then throw (.tars .requireNotExist) else pure old : ArrayDecode α) t :=
        bind_of_ok (lifted_of_ok hfound)
      refine ⟨Fails.bind_of_ok hfound Fails.throw, ?_⟩
      rw [hnone]
      cases isRequire with
      | true =>
        constructor
        · rintro r' ⟨⟩
        · rintro v r' ⟨⟩
      | false =>
        constructor
        · rintro r' ⟨⟩
        · exact fun v r' hok => ⟨rfl, (Outcome.ok.inj hok).1.symm⟩
    | some type =>
      have hread : readFixed fuel body old tag isRequire r = (lifted (front type) >>= rest) t :=
        (bind_of_ok (lifted_of_ok hfound)).trans (hbody type t)
      have hcount : encodedCount fuel front tag r = front type t := bind_of_ok hfound
      by_cases hfront : ∃ n r', front type t = .ok n r'
      · obtain ⟨n, r', hfront⟩ := hfront
        exact .inl ⟨n, r', hcount.trans hfront, hread.trans (bind_of_ok (lifted_of_ok hfront))⟩
      · right
        have hfails : Fails (front type) t := fun n r' h => hfront ⟨n, r', h⟩
        exact ⟨fun n r' h => hfails n r' (hcount.symm.trans h), hread ▸ .of_fails hfails⟩
  · right
    have hfails : Fails (tarsSkipToTag (skipField false fuel) fuel tag) r :=
      fun found t h => hfound ⟨found, t, h⟩
    exact ⟨Fails.bind hfails, .of_fails hfails⟩

/-- A read that throws `TarsDecodeInvalidValue` respects every capacity, since it has stored
nothing. -/
theorem Respects.of_invalid {cap : ℕ} {old : α × BitVec 32} {isRequire : Bool}
    {count : Decode (BitVec 64)} {m : ArrayDecode (α × BitVec 32)} {r' : BufferReader}
    (h : m r = .thrown (.tars .invalidValue) r') : Respects cap old isRequire count m r := by
  refine ⟨fun t hthrown => ?_, fun v n t hok => ?_, fun _ _ _ _ => ⟨r', h⟩⟩
  · rw [h] at hthrown
    cases hthrown
  · rw [h] at hok
    cases hok

/-- A read that has nothing to read respects every capacity. -/
theorem Unread.respects {cap : ℕ} {old : α × BitVec 32} {isRequire : Bool}
    {count : Decode (BitVec 64)} {m : ArrayDecode (α × BitVec 32)}
    (h : Unread old isRequire (m r)) (hcount : Fails count r) :
    Respects cap old isRequire count m r :=
  ⟨h.inside, fun v n r' hok => .inr (h.unset (v, n) r' hok),
    fun n r' hn => absurd hn (hcount n r')⟩

end Shape

/-! ### Characters -/

section Chars

variable {fuel : ℕ} {r r' : BufferReader} {buf : Bytes} {bufLen : BitVec 32}

/-- The payload of characters behind their number, which is compared as an `Int32`. -/
def readCharsRest (buf : Bytes) (bufLen : BitVec 32) (n : BitVec 64) :
    ArrayDecode (Bytes × BitVec 32) :=
  if n.setWidth 32 > bufLen then throw (.tars .invalidValue)
  else do
    let bs ← lifted (readBuf (n.setWidth 32).toNat)
    let buf ← storeChars buf bs
    pure (buf, n.setWidth 32)

/-- What `read` of a character array does behind the head is to read the number and then to use it.
-/
theorem readCharsBody_eq (type : HeadType) (r : BufferReader) :
    readCharsBody fuel buf bufLen type r =
      (lifted (charsFront fuel type) >>= readCharsRest buf bufLen) r := by
  cases type with
  | simpleList =>
    rw [readCharsBody, charsFront, lifted_bind]
    refine congrFun (congrArg _ (funext fun hhead => ?_)) r
    rw [lifted_ite]
    split
    · rfl
    · exact lifted_readUInt32 _
  | _ => rfl

/-- As many bytes are read as are asked for. -/
theorem yields_readBuf (len : ℕ) : Yields (readBuf len) fun bs => bs.length = len := by
  refine Yields.trivial.bind fun fits _ => ?_
  cases fits with
  | false => exact Yields.throw
  | true =>
    have hpeek : Yields (peekTypeBuf 0 len) fun bs => bs.length = len := by
      intro r bs r' h
      rw [peekTypeBuf] at h
      split at h
      · cases h
      · split at h
        · obtain ⟨rfl, -⟩ := Outcome.ok.inj h
          rw [List.length_take, List.length_drop]
          omega
        · cases h
    exact hpeek.bind fun bs hbs => Yields.trivial.bind fun _ _ => Yields.pure hbs

/-- The only exception is that there are too few bytes. -/
theorem readBuf_thrown {len : ℕ} {e : TarsException} (h : readBuf len r = .thrown e r') :
    e = .overflow := by
  rw [readBuf, bind_of_ok (ask_apply _ _)] at h
  split at h
  · obtain h | ⟨bs, t, hpeek, h⟩ := bind_eq_thrown_iff.mp h
    · rw [peekTypeBuf] at h
      split at h
      · exact (Outcome.thrown.inj h).1.symm
      · split at h <;> cases h
    · obtain h | ⟨_, _, _, h⟩ := bind_eq_thrown_iff.mp h <;> cases h
  · exact (Outcome.thrown.inj h).1.symm

/-- A number of characters that passes the check is not greater than the capacity. -/
theorem readCharsRest_of_le {n : BitVec 64} (hbuf : buf.length = bufLen.toNat)
    (hle : ¬n.setWidth 32 > bufLen) :
    (∀ e r', readCharsRest buf bufLen n r = .thrown e r' → e = .tars .overflow) ∧
      ∀ v m r', readCharsRest buf bufLen n r = .ok (v, m) r' → m.toNat ≤ bufLen.toNat := by
  have hsize : (n.setWidth 32).toNat ≤ bufLen.toNat := Nat.not_lt.mp hle
  rw [readCharsRest, if_neg hle]
  constructor
  · intro e r' h
    obtain h | ⟨bs, t, hread, h⟩ := bind_eq_thrown_iff.mp h
    · obtain ⟨e', rfl, he⟩ := (mapThrown_eq_thrown_iff _).mp h
      rw [readBuf_thrown he]
    · have hlength := yields_readBuf _ _ _ _ ((mapThrown_eq_ok_iff _).mp hread)
      rw [storeChars, if_pos (by omega)] at h
      obtain h | ⟨_, _, _, h⟩ := bind_eq_thrown_iff.mp h <;> cases h
  · intro v m r' h
    obtain ⟨bs, t, -, h⟩ := bind_eq_ok_iff.mp h
    obtain ⟨buf', t', -, h⟩ := bind_eq_ok_iff.mp h
    obtain ⟨-, rfl⟩ := Prod.mk.inj (Outcome.ok.inj h).1
    exact hsize

/-- The lower half of a number of elements that is too great must be too great, too. -/
def CharsChecked (count : Decode (BitVec 64)) (bufLen : BitVec 32) (r : BufferReader) : Prop :=
  ∀ n r', count r = .ok n r' → (bufLen.toNat : ℤ) < n.toInt → n.setWidth 32 > bufLen

/-- **Characters.** The capacity is respected, but for numbers of elements whose lower half is in
order although they are too great. -/
theorem readChars_respects_iff (hbuf : buf.length = bufLen.toNat) (readLen : BitVec 32)
    (tag : UInt8) (isRequire : Bool) (r : BufferReader) :
    Respects bufLen.toNat (buf, readLen) isRequire (encodedCount fuel (charsFront fuel) tag)
        (readChars fuel buf bufLen readLen tag isRequire) r ↔
      CharsChecked (encodedCount fuel (charsFront fuel) tag) bufLen r := by
  obtain ⟨n, r', hcount, hread⟩ | ⟨hcount, hunread⟩ :=
    @readFixed_cases fuel _ _ _ _ readCharsBody_eq (buf, readLen) tag isRequire r
  · have hsame {n' : BitVec 64} {t : BufferReader}
        (h : encodedCount fuel (charsFront fuel) tag r = .ok n' t) : n' = n :=
      (Outcome.ok.inj (h.symm.trans hcount)).1
    by_cases hle : n.setWidth 32 > bufLen
    · have hinvalid : readChars fuel buf bufLen readLen tag isRequire r =
          .thrown (.tars .invalidValue) r' := by
        rw [readChars, hread, readCharsRest, if_pos hle]
        rfl
      refine iff_of_true (.of_invalid hinvalid) fun n' t h _ => ?_
      rwa [hsame h]
    · obtain ⟨hthrown, hok⟩ := readCharsRest_of_le (r := r') hbuf hle
      constructor
      · intro h n' t hn hgreat
        obtain ⟨t', hinvalid⟩ := h.invalid n' t hn hgreat
        cases hthrown _ _ (hread.symm.trans hinvalid)
      · intro hchecked
        refine ⟨fun t h => ?_, fun v m t h => .inl (hok v m t (hread.symm.trans h)), ?_⟩
        · cases hthrown _ _ (hread.symm.trans h)
        · intro n' t hn hgreat
          have hcontra := hchecked n' t hn hgreat
          rw [hsame hn] at hcontra
          exact absurd hcontra hle
  · refine iff_of_true (hunread.respects hcount) fun n r' hn => absurd hn (hcount n r')

end Chars

/-! ### Elements -/

section Elements

variable {types : Codegen} {fuel : ℕ}

/-- A store behind the last element is the end. -/
theorem fails_outside {α β : Type} (m : ArrayDecode α) (r : BufferReader) :
    Fails (m >>= fun _ => (throw .outside : ArrayDecode β)) r := by
  intro v r' h
  obtain ⟨_, _, -, h⟩ := bind_eq_ok_iff.mp h
  cases h

/-- Nothing is returned from behind the last element, so such a read never counts as a success. -/
theorem readOutside_fails (t : Ty) (r : BufferReader) : Fails (readOutside types fuel t) r := by
  cases t <;> exact fails_outside _ r

/-- The loop returns only if there are enough elements. -/
theorem readElements_ok {t : Ty} (v : List t.denote) : ∀ (size : ℕ) (r : BufferReader)
    (w : List t.denote) (r' : BufferReader),
    readElements types fuel t size v r = .ok w r' → size ≤ v.length := by
  induction v with
  | nil =>
    intro size r w r' h
    cases size with
    | zero => exact le_rfl
    | succ size => exact absurd h (Fails.bind (readOutside_fails t r) w r')
  | cons x xs ih =>
    intro size r w r' h
    cases size with
    | zero => exact Nat.zero_le _
    | succ size =>
      rw [readElements] at h
      obtain ⟨y, r₁, -, h⟩ := bind_eq_ok_iff.mp h
      obtain ⟨ys, r₂, hrest, -⟩ := bind_eq_ok_iff.mp h
      exact Nat.succ_le_succ (ih size r₁ ys r₂ hrest)

/-- With enough elements the loop stores nothing behind them. -/
theorem readElements_inside {t : Ty} (v : List t.denote) : ∀ (size : ℕ) (r r' : BufferReader),
    size ≤ v.length → readElements types fuel t size v r ≠ .thrown .outside r' := by
  induction v with
  | nil =>
    intro size r r' hsize h
    obtain rfl := Nat.le_zero.mp hsize
    cases h
  | cons x xs ih =>
    intro size r r' hsize h
    cases size with
    | zero => cases h
    | succ size =>
      rw [readElements] at h
      obtain h | ⟨y, r₁, -, h⟩ := bind_eq_thrown_iff.mp h
      · obtain ⟨e, he, -⟩ := (mapThrown_eq_thrown_iff _).mp h
        cases he
      · obtain h | ⟨_, _, _, h⟩ := bind_eq_thrown_iff.mp h
        · exact ih size r₁ r' (Nat.le_of_succ_le_succ hsize) h
        · cases h

/-- A value is read, and then there is a store behind the array. -/
theorem outside_of_ok {α : Type} {m : Decode α} {r r' : BufferReader} {v : α}
    (h : m r = .ok v r') :
    (lifted m >>= fun _ => (throw .outside : ArrayDecode Unit)) r = .thrown .outside r' :=
  bind_of_ok (lifted_of_ok h)

/-- A read of a scalar behind the last element. -/
theorem readOutside_scalar {t : Ty} (ht : t.Scalar) :
    readOutside types fuel t =
      (lifted (read types false fuel t (types.init t) 0 true) >>= fun _ => throw .outside) := by
  cases t with
  | bool | int | float | double => rfl
  | string | bytes | vector | map | struct => exact ht.elim

/-- **The loop over scalars** stores behind the array exactly when the number asks for it and as
many scalars follow each other in the input as there are elements, and one more. No scalar is an
invalid value. -/
theorem readElements_scalar {t : Ty} (ht : t.Scalar) (v : List t.denote) :
    ∀ (size : ℕ) (r : BufferReader), r.Backed →
      (∀ r', readElements types (fuel + 1) t size v r ≠ .thrown (.tars .invalidValue) r') ∧
        ((∃ r', readElements types (fuel + 1) t size v r = .thrown .outside r') ↔
          v.length < size ∧ scalarsAt t (v.length + 1) r.rest = true) := by
  induction v with
  | nil =>
    intro size r hr
    cases size with
    | zero =>
      constructor
      · rintro r' ⟨⟩
      · refine iff_of_false ?_ fun h => absurd h.1 (Nat.lt_irrefl _)
        rintro ⟨r', ⟨⟩⟩
    | succ size =>
      have hscan := @scans_read types false fuel t ht (types.init t) r hr
      have hloop : readElements types (fuel + 1) t (size + 1) [] r =
          (readOutside types (fuel + 1) t >>= fun _ => (pure [] : ArrayDecode _)) r := rfl
      rw [hloop, readOutside_scalar ht, scalarsAt]
      cases hat : scalarAt t r.rest with
      | some len =>
        rw [hat] at hscan
        obtain ⟨y, hread⟩ := hscan
        rw [bind_of_thrown (outside_of_ok hread)]
        constructor
        · rintro r' ⟨⟩
        · exact iff_of_true ⟨_, rfl⟩ ⟨Nat.succ_pos size, rfl⟩
      | none =>
        rw [hat] at hscan
        obtain ⟨e, r₁, hread, hne⟩ := hscan
        rw [bind_of_thrown (bind_of_thrown (lifted_of_thrown hread))]
        constructor
        · rintro r' h
          exact hne (ArrayException.tars.inj (Outcome.thrown.inj h).1)
        · refine iff_of_false ?_ fun h => by cases h.2
          rintro ⟨r', ⟨⟩⟩
  | cons x xs ih =>
    intro size r hr
    cases size with
    | zero =>
      constructor
      · rintro r' ⟨⟩
      · refine iff_of_false ?_ fun h => absurd h.1 (Nat.not_lt_zero _)
        rintro ⟨r', ⟨⟩⟩
    | succ size =>
      have hscan := @scans_read types false fuel t ht x r hr
      rw [List.length_cons, scalarsAt, readElements]
      cases hat : scalarAt t r.rest with
      | some len =>
        rw [hat] at hscan
        obtain ⟨y, hread⟩ := hscan
        obtain ⟨hvalid, hout⟩ := ih size (r.advance len) (hr.advance len)
        rw [rest_advance] at hout
        rw [bind_of_ok (lifted_of_ok hread), Nat.succ_lt_succ_iff]
        constructor
        · intro r' h
          obtain h | ⟨_, _, _, h⟩ := bind_eq_thrown_iff.mp h
          · exact hvalid r' h
          · cases h
        · refine Iff.trans (exists_congr fun r' => ?_) hout
          refine ⟨fun h => ?_, fun h => bind_eq_thrown_iff.mpr (.inl h)⟩
          obtain h | ⟨_, _, _, h⟩ := bind_eq_thrown_iff.mp h
          · exact h
          · cases h
      | none =>
        rw [hat] at hscan
        obtain ⟨e, r₁, hread, hne⟩ := hscan
        rw [bind_of_thrown (lifted_of_thrown hread)]
        constructor
        · rintro r' h
          exact hne (ArrayException.tars.inj (Outcome.thrown.inj h).1)
        · refine iff_of_false ?_ fun h => by cases h.2
          rintro ⟨r', ⟨⟩⟩

variable {t : ElementType} {v : List t.ty.denote} {readLen : BitVec 32} {tag : UInt8}
  {isRequire : Bool} {r : BufferReader}

/-- The payload of an array behind the number of its elements. -/
def readArrayRest (types : Codegen) (fuel : ℕ) (t : ElementType) (v : List t.ty.denote)
    (n : BitVec 64) : ArrayDecode (List t.ty.denote × BitVec 32) := do
  let bufLen ← ask BufferReader.bufLen
  if (n.setWidth 32).toNat > bufLen then throw (.tars .invalidValue)
  else do
    let v ← readElements types fuel t.ty (n.setWidth 32).toNat v
    pure (v, n.setWidth 32)

/-- What `read` of an array does behind the head is to read the number and then to use it. -/
theorem readArrayBody_eq (v : List t.ty.denote) (type : HeadType) (r : BufferReader) :
    readArrayBody types fuel t v type r =
      (lifted (arrayFront fuel type) >>= readArrayRest types fuel t v) r := by
  cases type with
  | list => exact congrFun (lifted_readUInt32 _) r
  | _ => rfl

/-- A number of elements that the input buffer could hold leads to the loop. -/
theorem readArrayRest_of_le {n : BitVec 64} (hle : ¬r.bufLen < (n.setWidth 32).toNat) :
    (∀ e r', readArrayRest types fuel t v n r = .thrown e r' ↔
      readElements types fuel t.ty (n.setWidth 32).toNat v r = .thrown e r') ∧
    ∀ w m r', readArrayRest types fuel t v n r = .ok (w, m) r' → m.toNat ≤ v.length := by
  have hloop : readArrayRest types fuel t v n r =
      (readElements types fuel t.ty (n.setWidth 32).toNat v >>= fun v =>
        pure (v, n.setWidth 32)) r := by
    rw [readArrayRest, bind_of_ok (ask_apply _ _), if_neg hle]
  rw [hloop]
  constructor
  · intro e r'
    refine ⟨fun h => ?_, fun h => bind_eq_thrown_iff.mpr (.inl h)⟩
    obtain h | ⟨_, _, _, h⟩ := bind_eq_thrown_iff.mp h
    · exact h
    · cases h
  · intro w m r' h
    obtain ⟨v', r₁, hok, h⟩ := bind_eq_ok_iff.mp h
    obtain ⟨-, rfl⟩ := Prod.mk.inj (Outcome.ok.inj h).1
    exact readElements_ok v _ _ _ _ hok

/-- Finding the number of elements keeps the buffer and moves the cursor alone. -/
theorem keeps_encodedCount (fuel : ℕ) (tag : UInt8) :
    Keeps BufferReader.memory (encodedCount fuel (arrayFront fuel) tag) := by
  refine keeps_readField (keeps_skipField false fuel) (fun type => ?_) fuel 0 tag true
  cases type with
  | list =>
    exact keeps_readField (keeps_skipField false fuel) (keeps_integerBody 64) fuel 0 0 true
  | _ => exact .throw _

/-- A number of elements that is dealt with as it should be, whatever the elements are: its lower
half is greater than the length of the input buffer, or it is not greater than the capacity, and
neither is its lower half. -/
def CountChecked (cap : ℕ) (n : BitVec 64) (bufLen : ℕ) : Prop :=
  bufLen < (n.setWidth 32).toNat ∨ n.toInt ≤ cap ∧ (n.setWidth 32).toNat ≤ cap

/-- With scalars behind it a number is also dealt with as it should be if it is negative, or as
small as it should be, and there are not more scalars than the array has room for. -/
def ScalarsChecked (t : Ty) (cap : ℕ) (n : BitVec 64) (r : BufferReader) : Prop :=
  CountChecked cap n r.bufLen ∨ n.toInt ≤ cap ∧ scalarsAt t (cap + 1) r.rest = false

/-- The number of elements, and what is read behind it. -/
theorem readArray_cases (types : Codegen) (fuel : ℕ) (v : List t.ty.denote) (readLen : BitVec 32)
    (tag : UInt8) (isRequire : Bool) (r : BufferReader) :
    (∃ n r', encodedCount fuel (arrayFront fuel) tag r = .ok n r' ∧ r'.memory = r.memory ∧
      readArray types fuel t v readLen tag isRequire r = readArrayRest types fuel t v n r') ∨
    Fails (encodedCount fuel (arrayFront fuel) tag) r ∧
      Respects v.length (v, readLen) isRequire (encodedCount fuel (arrayFront fuel) tag)
        (readArray types fuel t v readLen tag isRequire) r := by
  obtain ⟨n, r', hcount, hread⟩ | ⟨hcount, hunread⟩ :=
    @readFixed_cases fuel _ _ _ _ (@readArrayBody_eq types fuel t v) (v, readLen) tag isRequire r
  · exact .inl ⟨n, r', hcount, (keeps_encodedCount fuel tag).ok r n r' hcount, hread⟩
  · exact .inr ⟨hcount, hunread.respects hcount⟩

/-- A loop that stores nothing behind the array respects the capacity, if the number is not too
great. -/
theorem respects_of_inside {n : BitVec 64} {r' : BufferReader}
    (hcount : encodedCount fuel (arrayFront fuel) tag r = .ok n r')
    (hread : readArray types fuel t v readLen tag isRequire r = readArrayRest types fuel t v n r')
    (hle : ¬r'.bufLen < (n.setWidth 32).toNat) (hsmall : n.toInt ≤ v.length)
    (hinside : ∀ r'', readElements types fuel t.ty (n.setWidth 32).toNat v r' ≠
      .thrown .outside r'') :
    Respects v.length (v, readLen) isRequire (encodedCount fuel (arrayFront fuel) tag)
      (readArray types fuel t v readLen tag isRequire) r := by
  obtain ⟨hthrown, hok⟩ := @readArrayRest_of_le types fuel t v r' n hle
  refine ⟨fun r'' h => ?_, fun w m r'' h => .inl (hok w m r'' (hread.symm.trans h)),
    fun n' r'' hn hgreat => ?_⟩
  · exact hinside r'' ((hthrown _ _).mp (hread.symm.trans h))
  · obtain ⟨rfl, -⟩ := Outcome.ok.inj (hn.symm.trans hcount)
    omega

/-- A number whose lower half is greater than the input buffer is refused. -/
theorem respects_of_refused {n : BitVec 64} {r' : BufferReader}
    (hread : readArray types fuel t v readLen tag isRequire r = readArrayRest types fuel t v n r')
    (hgreat : r'.bufLen < (n.setWidth 32).toNat) :
    Respects v.length (v, readLen) isRequire (encodedCount fuel (arrayFront fuel) tag)
      (readArray types fuel t v readLen tag isRequire) r := by
  have hinvalid : readArray types fuel t v readLen tag isRequire r =
      .thrown (.tars .invalidValue) r' := by
    rw [hread, readArrayRest, bind_of_ok (ask_apply _ _), if_pos hgreat]
    rfl
  exact .of_invalid hinvalid

/-- **Elements.** The capacity is respected whenever the number is checked. -/
theorem readArray_respects
    (hchecked : ∀ n r', encodedCount fuel (arrayFront fuel) tag r = .ok n r' →
      CountChecked v.length n r.bufLen) :
    Respects v.length (v, readLen) isRequire (encodedCount fuel (arrayFront fuel) tag)
      (readArray types fuel t v readLen tag isRequire) r := by
  obtain ⟨n, r', hcount, hsame, hread⟩ | ⟨-, hrespects⟩ :=
    readArray_cases types fuel v readLen tag isRequire r
  · have hlen : r'.bufLen = r.bufLen := (Prod.mk.inj hsame).2
    by_cases hle : r'.bufLen < (n.setWidth 32).toNat
    · exact respects_of_refused hread hle
    · obtain hgreat | ⟨hsmall, hlow⟩ := hchecked n r' hcount
      · omega
      · exact respects_of_inside hcount hread hle hsmall fun r'' =>
          readElements_inside v _ r' r'' hlow
  · exact hrespects

/-- **Scalars.** When the capacity is respected, in terms of the bytes of the input. -/
theorem readArray_respects_iff (hscalar : t.ty.Scalar) (hr : r.Backed) :
    Respects v.length (v, readLen) isRequire (encodedCount fuel (arrayFront fuel) tag)
        (readArray types fuel t v readLen tag isRequire) r ↔
      ∀ n r', encodedCount fuel (arrayFront fuel) tag r = .ok n r' →
        ScalarsChecked t.ty v.length n r' := by
  cases fuel with
  | zero =>
    -- Without fuel not even the tag is found.
    have hnone : Fails (encodedCount 0 (arrayFront 0) tag) r := by
      intro n r' h
      cases h
    obtain ⟨n, r', hcount, -⟩ | ⟨-, hrespects⟩ :=
      readArray_cases types 0 v readLen tag isRequire r
    · exact absurd hcount (hnone n r')
    · exact iff_of_true hrespects fun n r' hcount => absurd hcount (hnone n r')
  | succ fuel =>
    obtain ⟨n, r', hcount, hsame, hread⟩ | ⟨hnone, hrespects⟩ :=
      readArray_cases types (fuel + 1) v readLen tag isRequire r
    · have hall : (∀ n' r'', encodedCount (fuel + 1) (arrayFront (fuel + 1)) tag r = .ok n' r'' →
          ScalarsChecked t.ty v.length n' r'') ↔ ScalarsChecked t.ty v.length n r' := by
        refine ⟨fun h => h n r' hcount, fun h n' r'' hn => ?_⟩
        obtain ⟨rfl, rfl⟩ := Outcome.ok.inj (hn.symm.trans hcount)
        exact h
      rw [hall]
      by_cases hle : r'.bufLen < (n.setWidth 32).toNat
      · exact iff_of_true (respects_of_refused hread hle) (.inl (.inl hle))
      obtain ⟨hthrown, -⟩ := @readArrayRest_of_le types (fuel + 1) t v r' n hle
      obtain ⟨hvalid, houtside⟩ := @readElements_scalar types fuel t.ty hscalar v
        (n.setWidth 32).toNat r' (hr.of_memory hsame)
      constructor
      · intro h
        have hsmall : n.toInt ≤ v.length := by
          by_contra hgreat
          obtain ⟨r'', hinvalid⟩ := h.invalid n r' hcount (by omega)
          exact hvalid r'' ((hthrown _ _).mp (hread.symm.trans hinvalid))
        by_cases hlow : (n.setWidth 32).toNat ≤ v.length
        · exact .inl (.inr ⟨hsmall, hlow⟩)
        · refine .inr ⟨hsmall, Bool.eq_false_iff.mpr fun hmany => ?_⟩
          obtain ⟨r'', hout⟩ := houtside.mpr ⟨by omega, hmany⟩
          exact h.inside r'' (hread.trans ((hthrown _ _).mpr hout))
      · rintro ((hgreat | ⟨hsmall, hlow⟩) | ⟨hsmall, hfew⟩)
        · exact absurd hgreat hle
        · exact respects_of_inside hcount hread hle hsmall fun r'' =>
            readElements_inside v _ r' r'' hlow
        · refine respects_of_inside hcount hread hle hsmall fun r'' hout => ?_
          have hmany := (houtside.mp ⟨r'', hout⟩).2
          rw [hfew] at hmany
          cases hmany
    · exact iff_of_true hrespects fun n r' hn => absurd hn (hnone n r')

end Elements

/-! ### The round trip -/

section RoundTrip

variable {types : Codegen} {fuel : ℕ}

/-- The elements are read back over the first elements of the array. -/
theorem readElements_eq {t : Ty} {bytes : t.denote → Bytes} (v : List t.denote) :
    ∀ (olds : List t.denote) (r : BufferReader) (rest : Bytes), v.length ≤ olds.length →
      (∀ x ∈ v, ∀ old, Reads (read types false fuel t old 0 true) (bytes x) x) →
      At r (v.flatMap bytes ++ rest) →
      readElements types fuel t v.length olds r =
        .ok (v ++ olds.drop v.length) (r.advance (v.flatMap bytes).length) := by
  induction v with
  | nil =>
    intro olds r rest _ _ _
    rfl
  | cons x xs ih =>
    intro olds r rest hroom hread hat
    cases olds with
    | nil => exact absurd hroom (by simp)
    | cons old olds =>
      rw [List.flatMap_cons, List.append_assoc] at hat
      have hfirst := hread x List.mem_cons_self old r _ hat
      have hrest := ih olds _ rest (Nat.le_of_succ_le_succ hroom)
        (fun y hy => hread y (List.mem_cons_of_mem x hy)) hat.advance
      rw [List.length_cons, readElements, bind_of_ok (lifted_of_ok hfirst), bind_of_ok hrest,
        BufferReader.advance_advance, List.flatMap_cons, List.length_append]
      rfl

/-- **An element behind the array.** A value that was written is stored there, at least in part: for
a container its number of elements is read before the container is touched. -/
theorem readOutside_write {t : Ty} {x : t.denote} (hx : t.Limited types.less (· < 2 ^ 32) x)
    {bs rest : Bytes} (h : write t x 0 = .ok bs) {r : BufferReader} (hat : At r (bs ++ rest)) :
    ∃ r', readOutside types (fuel + 1) t r = .thrown .outside r' := by
  have hsize {n : ℕ} {back : Bytes} {r : BufferReader} (hn : n < 2 ^ 32) (hback : n ≤ back.length)
      (hat : At r (writeInt32 (BitVec.ofNat 32 n) 0 ++ back)) :
      TarsInputStream.readSize (skipField false (fuel + 1)) (fuel + 1) r =
        .ok n (r.advance (writeInt32 (BitVec.ofNat 32 n) 0).length) := by
    have hcur := hat.cur_add_le
    rw [List.length_append] at hcur
    rw [At.readSize hn hat, if_neg (by omega)]
  cases t with
  | bool | int | float | double | string =>
    exact ⟨_, outside_of_ok (reads_write _ x hx 0 bs h (types.init _) true r rest hat)⟩
  | bytes =>
    obtain rfl := Except.ok.inj h
    rw [writeBytes, List.append_assoc, List.append_assoc, List.append_assoc] at hat
    have hhead := (Reads.readFromHead .char 0) _ _ hat.advance
    have hnext := hsize hx (by rw [List.length_append]; omega) hat.advance.advance
    have hlast := hat.advance.advance.advance.readBuf (Eq.refl x.length)
    rw [length_writeToHead] at hhead hnext hlast
    exact ⟨_, outside_of_ok ((bind_of_ok (hat.tarsSkipToTag (by decide))).trans
      ((bind_of_ok hhead).trans ((bind_of_ok hnext).trans (bind_of_ok hlast))))⟩
  | vector t =>
    obtain ⟨hok, rfl⟩ := write_vector_ok h
    rw [List.append_assoc, List.append_assoc] at hat
    have hmany := length_le_length_flatMap fun y hy => write_ne_nil (hok y hy)
    have hnext := hsize hx.1 (by rw [List.length_append]; omega) hat.advance
    rw [length_writeToHead] at hnext
    exact ⟨_, outside_of_ok ((bind_of_ok (hat.tarsSkipToTag (by decide))).trans
      (bind_of_ok hnext))⟩
  | map k v =>
    obtain ⟨hok, rfl⟩ := write_map_ok h
    rw [List.append_assoc, List.append_assoc] at hat
    have hmany := length_le_length_flatMap fun e he => writeEntry_ne_nil (hok e he)
    have hnext := hsize hx.1 (by rw [List.length_append]; omega) hat.advance
    rw [length_writeToHead] at hnext
    exact ⟨_, outside_of_ok ((bind_of_ok (hat.tarsSkipToTag (by decide))).trans
      (bind_of_ok hnext))⟩
  | struct fs =>
    rw [write] at h
    obtain ⟨fields, hfields, h⟩ := bind_eq_ok h
    obtain rfl := Except.ok.inj h
    rw [List.append_assoc, List.append_assoc] at hat
    exact ⟨_, outside_of_ok (bind_of_ok (hat.tarsSkipToTag (by decide)))⟩

/-- The elements that the array has no room for are stored behind it. -/
theorem readElements_overrun {t : Ty} (v : List t.denote) :
    ∀ (olds : List t.denote) (r : BufferReader) (rest : Bytes), olds.length < v.length →
      (∀ x ∈ v, t.Limited types.less (· < 2 ^ 32) x) →
      (∀ x ∈ v, write t x 0 = .ok (written (write t x 0))) →
      At r ((v.flatMap fun x => written (write t x 0)) ++ rest) →
      ∃ r', readElements types (fuel + 1) t v.length olds r = .thrown .outside r' := by
  induction v with
  | nil =>
    intro olds r rest hshort
    exact absurd hshort (Nat.not_lt_zero _)
  | cons x xs ih =>
    intro olds r rest hshort hlimited hok hat
    rw [List.flatMap_cons, List.append_assoc] at hat
    have hfirst := hok x List.mem_cons_self
    have hx := hlimited x List.mem_cons_self
    cases olds with
    | nil =>
      obtain ⟨r', hout⟩ := @readOutside_write types fuel t x hx _ _ hfirst r hat
      exact ⟨r', bind_of_thrown hout⟩
    | cons old olds =>
      have hread := @reads_write types false fuel t x hx 0 _ hfirst old true r _ hat
      obtain ⟨r', hout⟩ := ih olds _ rest (Nat.lt_of_succ_lt_succ hshort)
        (fun y hy => hlimited y (List.mem_cons_of_mem x hy))
        (fun y hy => hok y (List.mem_cons_of_mem x hy)) hat.advance
      refine ⟨r', ?_⟩
      rw [List.length_cons, readElements, bind_of_ok (lifted_of_ok hread), bind_of_thrown hout]

variable {t : ElementType}

/-- An array of fewer than `2 ^ 31` elements has been written with all its elements. -/
theorem writeArray_ok {v : List t.ty.denote} {tag : UInt8} {bs : Bytes}
    (hlength : v.length < 2 ^ 31)
    (h : writeArray t v (BitVec.ofNat 32 v.length) tag = .ok bs) :
    (∀ x ∈ v, write t.ty x 0 = .ok (written (write t.ty x 0))) ∧
      bs = writeToHead .list tag ++ (writeUInt32 (BitVec.ofNat 32 v.length) 0 ++
        v.flatMap fun x => written (write t.ty x 0)) := by
  have hrounds : (BitVec.ofNat 32 v.length).toInt.toNat = v.length := by
    rw [BitVec.toInt_ofNat', Int.bmod_def]
    omega
  rw [writeArray, hrounds, List.take_length] at h
  obtain ⟨elements, helements, h⟩ := bind_eq_ok h
  obtain ⟨hok, rfl⟩ := writeEach_ok helements
  exact ⟨hok, by rw [← List.append_assoc]; exact (Except.ok.inj h).symm⟩

/-- The bytes of a number of elements are a head and a number of at most eight bytes. -/
theorem length_writeUInt32_le (n : BitVec 32) : (writeUInt32 n 0).length ≤ 9 := by
  have heq : writeUInt32 n 0 = encodeInteger n.toNat 0 := writeInt_eq .uint32 n 0
  have hhead : headLen 0 = 1 := rfl
  rw [heq, length_encodeInteger]
  rcases integerSize_cases n.toNat with h | h | h | h | h <;> omega

/-- An array that is read back is read with its number of elements. -/
theorem readArray_of_size {olds : List t.ty.denote} {tag : UInt8} {n : ℕ} {bs rest : Bytes}
    (hn : n < 2 ^ 32) (hat : At (.setBuffer bs bs.length)
      (writeToHead .list tag ++ (writeUInt32 (BitVec.ofNat 32 n) 0 ++ rest)))
    (readLen : BitVec 32) (isRequire : Bool) :
    readArray types (fuel + 1) t olds readLen tag isRequire (.setBuffer bs bs.length) =
      (if n > bs.length then throw (.tars .invalidValue)
      else readElements types (fuel + 1) t.ty n olds >>= fun v =>
        pure (v, BitVec.ofNat 32 n) : ArrayDecode (List t.ty.denote × BitVec 32))
        ((BufferReader.setBuffer bs bs.length).advance
          (headLen tag + (writeUInt32 (BitVec.ofNat 32 n) 0).length)) := by
  have hnat : (BitVec.ofNat 32 n).toNat = n := by
    rw [BitVec.toNat_ofNat]
    omega
  have hsize : Reads (readUInt32 (skipField false (fuel + 1)) (fuel + 1) 0 0 true)
      (writeUInt32 (BitVec.ofNat 32 n) 0) (BitVec.ofNat 32 n) := by
    have hread := @reads_readInt (skipField false (fuel + 1)) fuel .uint32 (BitVec.ofNat 32 n) 0 0
      true
    rwa [← writeInt_eq] at hread
  have hnext : At ((BufferReader.setBuffer bs bs.length).advance (headLen tag))
      (writeUInt32 (BitVec.ofNat 32 n) 0 ++ rest) := by
    rw [← length_writeToHead .list tag]
    exact hat.advance
  rw [readArray, readFixed, bind_of_ok (lifted_of_ok (hat.tarsSkipToTag (by decide)))]
  change readArrayBody types (fuel + 1) t olds .list _ = _
  rw [readArrayBody, bind_of_ok (lifted_of_ok (hsize _ rest hnext)), bind_of_ok (ask_apply _ _),
    hnat, BufferReader.advance_advance]
  rfl

/-- What `write` writes for an array is at the start of the buffer. With `2 ^ 31` elements and more
it is only the number. -/
theorem at_writeArray {v : List t.ty.denote} {tag : UInt8} {bs : Bytes}
    (hlength : v.length < 2 ^ 32)
    (h : writeArray t v (BitVec.ofNat 32 v.length) tag = .ok bs) (hfits : bs.length < 2 ^ 63) :
    ∃ elements, At (.setBuffer bs bs.length) (writeToHead .list tag ++
      (writeUInt32 (BitVec.ofNat 32 v.length) 0 ++ elements)) ∧
      (2 ^ 31 ≤ v.length → bs.length < v.length) ∧
      (v.length < 2 ^ 31 →
        (∀ x ∈ v, write t.ty x 0 = .ok (written (write t.ty x 0))) ∧
        (elements = v.flatMap fun x => written (write t.ty x 0)) ∧ v.length ≤ bs.length ∧
        headLen tag + (writeUInt32 (BitVec.ofNat 32 v.length) 0).length + elements.length =
          bs.length) := by
  rcases Nat.lt_or_ge v.length (2 ^ 31) with hshort | hlong
  · obtain ⟨hok, hbs⟩ := writeArray_ok hshort h
    have hmany := length_le_length_flatMap fun x hx => write_ne_nil (hok x hx)
    have htotal := congrArg List.length hbs
    rw [List.length_append, List.length_append, length_writeToHead] at htotal
    refine ⟨_, ?_, fun hlong => by omega, fun _ => ⟨hok, rfl, by omega, by omega⟩⟩
    rw [← hbs]
    exact At.setBuffer hfits
  · have hnone : (BitVec.ofNat 32 v.length).toInt.toNat = 0 := by
      rw [BitVec.toInt_ofNat', Int.bmod_def]
      omega
    rw [writeArray, hnone, List.take_zero] at h
    have hbs : writeToHead .list tag ++ writeUInt32 (BitVec.ofNat 32 v.length) 0 ++ [] = bs :=
      Except.ok.inj h
    have hsmall : bs.length < 2 ^ 31 := by
      have hsize := length_writeUInt32_le (BitVec.ofNat 32 v.length)
      have hhead := headLen_le tag
      rw [← hbs, List.append_nil, List.length_append, length_writeToHead]
      omega
    refine ⟨[], ?_, fun _ => by omega, fun hshort => by omega⟩
    rw [← List.append_assoc, hbs]
    exact At.setBuffer hfits

/-- **The round trip.** An array is read back, into an array with at least as many elements, exactly
when it has fewer than `2 ^ 31`. -/
theorem readArray_writeArray_iff {v olds : List t.ty.denote} {tag : UInt8} {bs : Bytes}
    (hlength : v.length < 2 ^ 32) (hroom : v.length ≤ olds.length)
    (hlimited : ∀ x ∈ v, t.ty.Limited types.less (· < 2 ^ 32) x)
    (h : writeArray t v (BitVec.ofNat 32 v.length) tag = .ok bs) (hfits : bs.length < 2 ^ 63)
    (readLen : BitVec 32) (isRequire : Bool) :
    readArray types (fuel + 1) t olds readLen tag isRequire (.setBuffer bs bs.length) =
        .ok (v ++ olds.drop v.length, BitVec.ofNat 32 v.length) ⟨bs, bs.length, bs.length, false⟩ ↔
      v.length < 2 ^ 31 := by
  obtain ⟨elements, hat, hnone, hall⟩ := at_writeArray hlength h hfits
  rw [readArray_of_size hlength hat]
  constructor
  · intro hread
    by_contra hlong
    have hless := hnone (by omega)
    rw [if_pos (by omega)] at hread
    cases hread
  · intro hshort
    obtain ⟨hok, rfl, hmany, htotal⟩ := hall hshort
    have hnext := hat.advance.advance
    rw [BufferReader.advance_advance, length_writeToHead] at hnext
    rw [← List.append_nil (v.flatMap _)] at hnext
    have hread := @readElements_eq types (fuel + 1) t.ty _ v olds _ [] hroom
      (fun x hx old => reads_write t.ty x (hlimited x hx) 0 _ (hok x hx) old true) hnext
    rw [if_neg (by omega), bind_of_ok hread, BufferReader.advance_advance, htotal,
      BufferReader.setBuffer, BufferReader.advance, Nat.zero_add]
    rfl

/-- The number that is encoded for an array is the number of its elements. -/
theorem encodedCount_writeArray {n : ℕ} {tag : UInt8} {bs rest : Bytes} (hn : n < 2 ^ 32)
    (hat : At (.setBuffer bs bs.length)
      (writeToHead .list tag ++ (writeUInt32 (BitVec.ofNat 32 n) 0 ++ rest))) :
    ∃ r', encodedCount (fuel + 1) (arrayFront (fuel + 1)) tag (.setBuffer bs bs.length) =
      .ok (BitVec.ofNat 64 n) r' := by
  have hwide : writeUInt32 (BitVec.ofNat 32 n) 0 =
      encodeInteger (IntKind.int64.toInt (BitVec.ofNat 64 n)) 0 := by
    have hnat : (BitVec.ofNat 32 n).toNat = n := by
      rw [BitVec.toNat_ofNat]
      omega
    have hint : IntKind.int64.toInt (BitVec.ofNat 64 n) = n := by
      show (BitVec.ofNat 64 n).toInt = n
      rw [BitVec.toInt_ofNat', Int.bmod_def]
      omega
    have heq : writeUInt32 (BitVec.ofNat 32 n) 0 = encodeInteger (BitVec.ofNat 32 n).toNat 0 :=
      writeInt_eq .uint32 _ 0
    rw [heq, hnat, hint]
  have hnext : At ((BufferReader.setBuffer bs bs.length).advance (headLen tag))
      (writeUInt32 (BitVec.ofNat 32 n) 0 ++ rest) := by
    rw [← length_writeToHead .list tag]
    exact hat.advance
  rw [hwide] at hnext
  have hread := @reads_readInt (skipField false (fuel + 1)) fuel .int64 (BitVec.ofNat 64 n) 0 0
    true _ _ hnext
  exact ⟨_, (bind_of_ok (hat.tarsSkipToTag (by decide))).trans hread⟩

/-- **Written arrays.** On what `write` has written for an array, elements of any type, the capacity
is respected exactly when the array has room for all elements, or when there are `2 ^ 31` and more,
of which none was written. -/
theorem readArray_writeArray_respects_iff {v olds : List t.ty.denote} {tag : UInt8} {bs : Bytes}
    (hlength : v.length < 2 ^ 32)
    (hlimited : ∀ x ∈ v, t.ty.Limited types.less (· < 2 ^ 32) x)
    (h : writeArray t v (BitVec.ofNat 32 v.length) tag = .ok bs) (hfits : bs.length < 2 ^ 63)
    (readLen : BitVec 32) (isRequire : Bool) :
    Respects olds.length (olds, readLen) isRequire
        (encodedCount (fuel + 1) (arrayFront (fuel + 1)) tag)
        (readArray types (fuel + 1) t olds readLen tag isRequire) (.setBuffer bs bs.length) ↔
      v.length ≤ olds.length ∨ 2 ^ 31 ≤ v.length := by
  obtain ⟨elements, hat, hnone, hall⟩ := at_writeArray hlength h hfits
  obtain ⟨r', hcount⟩ := @encodedCount_writeArray fuel _ _ _ _ hlength hat
  have hlow : ((BitVec.ofNat 64 v.length).setWidth 32).toNat = v.length := by
    rw [BitVec.toNat_setWidth, BitVec.toNat_ofNat]
    omega
  have hint : (BitVec.ofNat 64 v.length).toInt = v.length := by
    rw [BitVec.toInt_ofNat', Int.bmod_def]
    omega
  constructor
  · intro hrespects
    by_contra hnot
    obtain ⟨hshort, hlong⟩ := not_or.mp hnot
    obtain ⟨hok, rfl, hmany, -⟩ := hall (by omega)
    have hnext := hat.advance.advance
    rw [BufferReader.advance_advance, length_writeToHead] at hnext
    rw [← List.append_nil (v.flatMap _)] at hnext
    obtain ⟨r'', hout⟩ := @readElements_overrun types fuel t.ty v olds _ [] (by omega) hlimited hok
      hnext
    refine hrespects.inside r'' ?_
    rw [readArray_of_size hlength hat, if_neg (by omega), bind_of_thrown hout]
  · intro hsmall
    refine readArray_respects fun n r'' hn => ?_
    obtain ⟨rfl, -⟩ := Outcome.ok.inj (hn.symm.trans hcount)
    rw [CountChecked, hlow, hint]
    rcases hsmall with hroom | hlong
    · exact .inr ⟨by omega, hroom⟩
    · exact .inl (hnone hlong)

/-- **The round trip of characters**, which have overloads of their own on both sides. -/
theorem readChars_writeChars {buf olds : Bytes} {bufLen : BitVec 32} {tag : UInt8}
    (hlength : buf.length < 2 ^ 32) (hroom : buf.length ≤ olds.length)
    (hbuf : olds.length = bufLen.toNat) {bs : Bytes}
    (h : writeChars buf (BitVec.ofNat 32 buf.length) tag = bs) (hfits : bs.length < 2 ^ 63)
    (readLen : BitVec 32) (isRequire : Bool) :
    readChars (fuel + 1) olds bufLen readLen tag isRequire (.setBuffer bs bs.length) =
      .ok (buf ++ olds.drop buf.length, BitVec.ofNat 32 buf.length)
        ⟨bs, bs.length, bs.length, false⟩ := by
  have hnat : (BitVec.ofNat 32 buf.length).toNat = buf.length := by
    rw [BitVec.toNat_ofNat]
    omega
  have hbs : writeToHead .simpleList tag ++ (writeToHead .char 0 ++
      (writeUInt32 (BitVec.ofNat 32 buf.length) 0 ++ (buf ++ []))) = bs := by
    rw [← h, writeChars, hnat, List.take_length, List.append_nil, List.append_assoc,
      List.append_assoc]
  have hat : At (.setBuffer bs bs.length) (writeToHead .simpleList tag ++ (writeToHead .char 0 ++
      (writeUInt32 (BitVec.ofNat 32 buf.length) 0 ++ (buf ++ [])))) := by
    rw [hbs]
    exact At.setBuffer hfits
  have hsize : Reads (readUInt32 (skipField false (fuel + 1)) (fuel + 1) 0 0 true)
      (writeUInt32 (BitVec.ofNat 32 buf.length) 0) (BitVec.ofNat 32 buf.length) := by
    have hread := @reads_readInt (skipField false (fuel + 1)) fuel .uint32
      (BitVec.ofNat 32 buf.length) 0 0 true
    rwa [← writeInt_eq] at hread
  have hhead := Reads.readFromHead .char 0 _ _ hat.advance
  have hcount := hsize _ _ hat.advance.advance
  have hbytes := hat.advance.advance.advance.readBuf (Eq.refl buf.length)
  have htotal := congrArg List.length hbs
  simp only [List.length_append, length_writeToHead, List.length_nil] at htotal
  rw [length_writeToHead] at hhead hcount hbytes
  rw [readChars, readFixed, bind_of_ok (lifted_of_ok (hat.tarsSkipToTag (by decide)))]
  change readCharsBody (fuel + 1) olds bufLen .simpleList _ = _
  have hle : ¬BitVec.ofNat 32 buf.length > bufLen := by
    rw [gt_iff_lt, BitVec.lt_def, hnat]
    omega
  have hend : (((((BufferReader.setBuffer bs bs.length).advance (headLen tag)).advance
      (writeToHead .char 0).length).advance
        (writeUInt32 (BitVec.ofNat 32 buf.length) 0).length).advance buf.length) =
      ⟨bs, bs.length, bs.length, false⟩ := by
    simp only [BufferReader.advance_advance, length_writeToHead]
    rw [BufferReader.setBuffer, BufferReader.advance, Nat.zero_add]
    congr 1
    omega
  rw [readCharsBody, bind_of_ok (lifted_of_ok hhead), if_neg (by decide),
    bind_of_ok (lifted_of_ok hcount), if_neg hle, hnat, bind_of_ok (lifted_of_ok hbytes),
    storeChars, if_pos hroom, hend]
  rfl

end RoundTrip

/-- **Arrays of the caller.** When the two overloads respect the capacity, for every input, capacity
and tag, and which arrays are read back from what has been written. For elements of any type the
capacity is respected if the number of elements is checked, and on the arrays that `write` writes
this is exact; for scalars the exact condition is about the bytes of the input. -/
theorem fixedArrays_sound_iff (types : Codegen) (fuel : ℕ) (tag : UInt8) (isRequire : Bool)
    (readLen : BitVec 32) :
    (∀ (r : BufferReader) (buf : Bytes) (bufLen : BitVec 32), buf.length = bufLen.toNat →
      (Respects bufLen.toNat (buf, readLen) isRequire (encodedCount fuel (charsFront fuel) tag)
          (readChars fuel buf bufLen readLen tag isRequire) r ↔
        CharsChecked (encodedCount fuel (charsFront fuel) tag) bufLen r)) ∧
    (∀ (r : BufferReader) (t : ElementType) (v : List t.ty.denote),
      (∀ n r', encodedCount fuel (arrayFront fuel) tag r = .ok n r' →
        CountChecked v.length n r.bufLen) →
      Respects v.length (v, readLen) isRequire (encodedCount fuel (arrayFront fuel) tag)
        (readArray types fuel t v readLen tag isRequire) r) ∧
    (∀ (r : BufferReader) (t : ElementType) (v : List t.ty.denote), t.ty.Scalar → r.Backed →
      (Respects v.length (v, readLen) isRequire (encodedCount fuel (arrayFront fuel) tag)
          (readArray types fuel t v readLen tag isRequire) r ↔
        ∀ n r', encodedCount fuel (arrayFront fuel) tag r = .ok n r' →
          ScalarsChecked t.ty v.length n r')) ∧
    (∀ (t : ElementType) (v olds : List t.ty.denote) (bs : Bytes), v.length < 2 ^ 32 →
      (∀ x ∈ v, t.ty.Limited types.less (· < 2 ^ 32) x) →
      writeArray t v (BitVec.ofNat 32 v.length) tag = .ok bs → bs.length < 2 ^ 63 →
      (Respects olds.length (olds, readLen) isRequire
          (encodedCount (fuel + 1) (arrayFront (fuel + 1)) tag)
          (readArray types (fuel + 1) t olds readLen tag isRequire) (.setBuffer bs bs.length) ↔
        v.length ≤ olds.length ∨ 2 ^ 31 ≤ v.length) ∧
      (v.length ≤ olds.length →
        (readArray types (fuel + 1) t olds readLen tag isRequire (.setBuffer bs bs.length) =
            .ok (v ++ olds.drop v.length, BitVec.ofNat 32 v.length)
              ⟨bs, bs.length, bs.length, false⟩ ↔
          v.length < 2 ^ 31))) ∧
    ∀ (buf olds : Bytes) (bufLen : BitVec 32) (bs : Bytes), buf.length < 2 ^ 32 →
      buf.length ≤ olds.length → olds.length = bufLen.toNat →
      writeChars buf (BitVec.ofNat 32 buf.length) tag = bs → bs.length < 2 ^ 63 →
      readChars (fuel + 1) olds bufLen readLen tag isRequire (.setBuffer bs bs.length) =
        .ok (buf ++ olds.drop buf.length, BitVec.ofNat 32 buf.length)
          ⟨bs, bs.length, bs.length, false⟩ :=
  ⟨fun r _ _ hbuf => readChars_respects_iff hbuf readLen tag isRequire r,
    fun _ _ _ hchecked => readArray_respects hchecked,
    fun _ _ _ hscalar hr => readArray_respects_iff hscalar hr,
    fun _ _ _ _ hlength hlimited h hfits =>
      ⟨readArray_writeArray_respects_iff hlength hlimited h hfits readLen isRequire,
        fun hroom => readArray_writeArray_iff hlength hroom hlimited h hfits readLen isRequire⟩,
    fun _ _ _ _ hlength hroom hbuf h hfits =>
      readChars_writeChars hlength hroom hbuf h hfits readLen isRequire⟩

/-- The elements of an array of `Short`, which are read by the template for arrays. -/
private abbrev shorts : ElementType := ⟨.int .short, by simp⟩

/-- An array of three numbers of type `Short`, with the number 3 in front of them. -/
private def sampleArray : Bytes := [9, 0, 3, 0, 1, 0, 2, 0, 3]

/-- The round trip of three numbers, over an array of four; an array of two does not respect its
capacity, and one of three does. -/
theorem fixedArrays_sound_iff_sample :
    writeArray shorts [1#16, 2#16, 3#16] 3 0 = .ok sampleArray ∧
      readArray plainTypes 1 shorts [0#16, 0#16, 0#16, 7#16] 0 0 true
          (.setBuffer sampleArray sampleArray.length) =
        .ok ([1#16, 2#16, 3#16, 7#16], 3) ⟨sampleArray, 9, 9, false⟩ ∧
      (¬Respects 2 ([0#16, 0#16], 0) true (encodedCount 1 (arrayFront 1) 0)
        (readArray plainTypes 1 shorts [0#16, 0#16] 0 0 true)
        (.setBuffer sampleArray sampleArray.length)) ∧
      Respects 3 ([0#16, 0#16, 0#16], 0) true (encodedCount 1 (arrayFront 1) 0)
        (readArray plainTypes 1 shorts [0#16, 0#16, 0#16] 0 0 true)
        (.setBuffer sampleArray sampleArray.length) := by
  have hwrite : writeArray shorts [1#16, 2#16, 3#16] 3 0 = .ok sampleArray := rfl
  obtain ⟨-, -, -, harrays, -⟩ := fixedArrays_sound_iff plainTypes 0 0 true 0
  have hall := harrays shorts [1#16, 2#16, 3#16]
  refine ⟨hwrite, ?_, ?_, ?_⟩
  · exact ((hall [0#16, 0#16, 0#16, 7#16] sampleArray (by decide) (fun _ _ => trivial) hwrite
      (by decide)).2 (by decide)).mpr (by decide)
  · intro hrespects
    have hsmall := (hall [0#16, 0#16] sampleArray (by decide) (fun _ _ => trivial) hwrite
      (by decide)).1.mp hrespects
    exact absurd hsmall (by decide)
  · exact (hall [0#16, 0#16, 0#16] sampleArray (by decide) (fun _ _ => trivial) hwrite
      (by decide)).1.mpr (by decide)

/-- The three numbers are stored into an array of two, and a number of `2 ^ 32 + 1` characters
passes for one. -/
theorem fixedArrays_sound_iff_fails :
    ¬Respects 2 ([0#16, 0#16], 0) true (encodedCount 1 (arrayFront 1) 0)
        (readArray plainTypes 1 shorts [0#16, 0#16] 0 0 true)
        (.setBuffer sampleArray sampleArray.length) ∧
      ¬Respects 1 ([0], 0) true (encodedCount 1 (charsFront 1) 0) (readChars 1 [0] 1 0 0 true)
        (.setBuffer [13, 0, 3, 0, 0, 0, 1, 0, 0, 0, 1, 7] 12) := by
  constructor
  · intro h
    have houtside : readArray plainTypes 1 shorts [0#16, 0#16] 0 0 true
        (.setBuffer sampleArray sampleArray.length) =
          .thrown .outside ⟨sampleArray, 9, 9, false⟩ := by
      decide +kernel
    exact h.inside _ houtside
  · intro h
    have hcount : encodedCount 1 (charsFront 1) 0
        (.setBuffer [13, 0, 3, 0, 0, 0, 1, 0, 0, 0, 1, 7] 12) =
          .ok (2 ^ 32 + 1) ⟨[13, 0, 3, 0, 0, 0, 1, 0, 0, 0, 1, 7], 12, 11, false⟩ := by
      decide +kernel
    have hread : readChars 1 [0] 1 0 0 true
        (.setBuffer [13, 0, 3, 0, 0, 0, 1, 0, 0, 0, 1, 7] 12) =
          .ok ([7], 1) ⟨[13, 0, 3, 0, 0, 0, 1, 0, 0, 0, 1, 7], 12, 12, false⟩ := by
      decide +kernel
    obtain ⟨r, hr⟩ := h.invalid _ _ hcount (by decide)
    rw [hread] at hr
    cases hr

end TarsInputStream

end Tars
