import Tars.Tup.Evolution

/-!
# Readers of other types

A field may be read with another type than it was written with, and so may everything nested in
it. What the reader gets is determined by the value and not by its bytes: `convert` says what it
is, for all pairs of types.
-/

namespace Tars

open LittleEndian Decoding TarsOutputStream TarsInputStream

/-! ### Conversions -/

/-- The integer that a value is written as, if it is written as one. -/
def Ty.integer : (t : Ty) → t.denote → Option ℤ
  | .bool, b => some (if b then 1 else 0)
  | .int k, n => some (k.toInt n)
  | _, _ => none

/-- What the reader of an integer type makes of an integer. Narrowing is not checked. -/
def IntKind.convert (k : IntKind) (z : ℤ) : Except TarsException (BitVec k.width) :=
  if 8 * integerSize z ≤ k.readWidth then .ok (BitVec.ofInt k.width z) else .error .mismatch

/-- What the reader of an integer type makes of a value. -/
def IntKind.convertValue (k : IntKind) (t : Ty) (v : t.denote) :
    Except TarsException (BitVec k.width) :=
  match t.integer v with
  | some z => k.convert z
  | none => .error .mismatch

/-- What the reader of a floating-point type makes of a value of another type: only a zero is
written alike. -/
def convertZero (w : ℕ) (t : Ty) (v : t.denote) : Except TarsException (BitVec w) :=
  if t.integer v = some 0 then .ok 0 else .error .mismatch

/-- The elements of a vector over the old ones. -/
def convertEach {α β : Type} (c : α → β → Except TarsException β) :
    List α → List β → Except TarsException (List β)
  | x :: xs, old :: olds => do
    let y ← c x old
    let ys ← convertEach c xs olds
    return y :: ys
  | _, _ => .ok []

/-- The entries of a map, inserted one after the other. -/
def convertEntries {α β γ : Type} (less : α → α → Bool) (c : γ → Except TarsException (α × β)) :
    List γ → List (α × β) → Except TarsException (List (α × β))
  | [], m => .ok m
  | e :: es, m => do
    let pr ← c e
    convertEntries less c es (insert less pr m)

mutual

/-- What the reader of the type `u` makes of a value of the type `t`, with the old value of its
target. -/
def convert (types : Codegen) :
    (u t : Ty) → t.denote → u.denote → Except TarsException u.denote
  | .bool, t, v, _ => do
    let c ← IntKind.char.convertValue t v
    return decide (c ≠ 0)
  | .int k, t, v, _ => k.convertValue t v
  | .float, t, v, _ =>
    match t, v with
    | .float, n => .ok n
    | t, v => convertZero 32 t v
  | .double, t, v, _ =>
    match t, v with
    | .double, n => .ok n
    | .float, n => .ok (types.toDouble (htonl (types.toFloat (types.toDouble (htonl n)))))
    | t, v => convertZero 64 t v
  | .string, t, v, _ =>
    match t, v with
    | .string, s => .ok s
    | _, _ => .error .mismatch
  | .bytes, t, v, old =>
    match t, v with
    | .bytes, v => .ok v
    | .vector t, xs => convertEach (fun x _ => do
        let c ← IntKind.char.convertValue t x
        return UInt8.ofNat c.toNat) xs (resize 0 xs.length old)
    | _, _ => .error .mismatch
  | .vector u, t, v, old =>
    match t, v with
    | .vector t, xs =>
      convertEach (fun x old => convert types u t x old) xs (resize (types.init u) xs.length old)
    | _, _ => .error .mismatch
  | .map k u, t, v, _ =>
    match t, v with
    | .map l t, m => convertEntries (types.less k) (fun e => do
        let key ← convert types k l e.1 (types.init k)
        let value ← convert types u t e.2 (types.init u)
        return (key, value)) m []
    | _, _ => .error .mismatch
  | .struct gs, t, v, old =>
    match t, v with
    | .struct fs, s => convertFields types gs (fs.toList s) (types.resetDefautlt gs old)
    | _, _ => .error .mismatch

/-- What the reader of the fields `gs` makes of other fields. -/
def convertFields (types : Codegen) :
    (gs : Fields) → List Field → gs.denote → Except TarsException gs.denote
  | .nil, _, _ => .ok ()
  | .cons tag isRequire u gs, fields, (old, olds) => do
    let v ← (match fields.find? fun f => f.tag = tag with
      | some f => convert types u f.type f.value old
      | none => if isRequire then .error .requireNotExist else .ok old)
    let vs ← convertFields types gs fields olds
    return (v, vs)

end

mutual

/-- All structures have their tags in ascending order, as the generator writes them. -/
def Ty.Ordered : Ty → Prop
  | .vector t => t.Ordered
  | .map k v => k.Ordered ∧ v.Ordered
  | .struct fs => fs.tags.Pairwise (· < ·) ∧ fs.Ordered
  | _ => True

/-- All structures in the fields have their tags in ascending order. -/
def Fields.Ordered : Fields → Prop
  | .nil => True
  | .cons _ _ t fs => t.Ordered ∧ fs.Ordered

end

/-! ### Decoders in front of bytes -/

/-- An outcome that is the expected one: the value with this state, or the exception. -/
def Meets {α : Type} (x : Except TarsException α) (r : BufferReader)
    (outcome : Outcome BufferReader TarsException α) : Prop :=
  match x with
  | .ok v => outcome = .ok v r
  | .error e => ∃ r', outcome = .thrown e r'

/-- A decoder that does what is expected in front of these bytes: it takes them off and delivers
the value, or it throws the exception. -/
def Answers {α : Type} (m : Decode α) (bs : Bytes) (x : Except TarsException α) : Prop :=
  ∀ r rest, r.bufLen ≤ r.buf.length → At r (bs ++ rest) →
    Meets x (r.advance bs.length) (m r)

section Answers

variable {α β : Type} {m : Decode α} {f : α → Decode β} {bs cs : Bytes}
  {x : Except TarsException α} {g : α → Except TarsException β}

/-- A decoder that reads a value from the bytes answers with that value. -/
theorem Reads.answers {v : α} (h : Reads m bs v) : Answers m bs (.ok v) :=
  fun r rest _ hat => h r rest hat

namespace Answers

/-- Returning a value answers with it in front of no bytes at all. -/
theorem pure (v : α) : Answers (Pure.pure v) [] (.ok v) := (Reads.pure v).answers

/-- An exception is thrown in front of any bytes. -/
theorem throw (e : TarsException) (bs : Bytes) :
    Answers (Decoding.throw e : Decode α) bs (.error e) := fun r _ _ _ => ⟨r, rfl⟩

/-- One decoder after the other answers as the expected outcomes do one after the other; an
exception of the first ends both. -/
theorem bind (hm : Answers m bs x) (hf : ∀ v, x = .ok v → Answers (f v) cs (g v)) :
    Answers (m >>= f) (bs ++ cs) (x >>= g) := by
  intro r rest hmemory hat
  rw [List.append_assoc] at hat
  have hfirst := hm r _ hmemory hat
  cases x with
  | error e =>
    obtain ⟨r', hthrown⟩ := hfirst
    exact ⟨r', bind_of_thrown hthrown⟩
  | ok v =>
    have hsecond := hf v rfl (r.advance bs.length) rest hmemory hat.advance
    have hrun : (m >>= f) r = f v (r.advance bs.length) := bind_of_ok hfirst
    rw [hrun, List.length_append, ← BufferReader.advance_advance]
    exact hsecond

/-- The value is converted after it has been read, and an exception is passed on as it is. -/
theorem map (hm : Answers m bs x) (h : α → β) :
    Answers (m >>= fun v => Pure.pure (h v)) bs (x >>= fun v => Pure.pure (h v)) := by
  have hboth := hm.bind (f := fun v => Pure.pure (h v)) (g := fun v => Pure.pure (h v))
    fun v _ => Answers.pure (h v)
  rwa [List.append_nil] at hboth

/-- The field at the cursor answers as its payload does behind the head. -/
theorem readField {skip : HeadType → Decode Unit} {rounds : ℕ} {body : HeadType → Decode α}
    {old : α} {type : HeadType} {tag : UInt8} {isRequire : Bool} (htype : type ≠ .structEnd)
    (hbody : Answers (body type) bs x) :
    Answers (TarsInputStream.readField skip (rounds + 1) body old tag isRequire)
      (writeToHead type tag ++ bs) x := by
  have hfound : Reads (TarsInputStream.tarsSkipToTag skip (rounds + 1) tag)
      (writeToHead type tag) (some type) := by
    intro r rest h
    rw [h.tarsSkipToTag htype, length_writeToHead]
  exact hfound.answers.bind (g := fun _ => x) fun found hok => by
    rw [← Except.ok.inj hok]
    exact hbody

/-- A field of a type that does not match. -/
theorem mismatch {skip : HeadType → Decode Unit} {rounds : ℕ} {body : HeadType → Decode α}
    {old : α} {t : Ty} {v : t.denote} {tag : UInt8} {isRequire : Bool}
    (hbody : body (wireType t v) = Decoding.throw .mismatch) :
    Answers (TarsInputStream.readField skip (rounds + 1) body old tag isRequire)
      (encode t v tag) (.error .mismatch) := by
  refine readField (wireType_ne t v) ?_
  rw [hbody]
  exact throw .mismatch _

/-- A field of a type that is written in another way. -/
theorem other {skip : HeadType → Decode Unit} {rounds : ℕ} {body : HeadType → Decode α} {old : α}
    {t : Ty} {v : t.denote} {tag : UInt8} {isRequire : Bool} (type : HeadType)
    (hne : wireType t v ≠ type)
    (hother : ∀ type', type' ≠ type → body type' = Decoding.throw .mismatch) :
    Answers (TarsInputStream.readField skip (rounds + 1) body old tag isRequire)
      (encode t v tag) (.error .mismatch) :=
  mismatch (hother _ hne)

/-- The size of a container is read, if enough bytes follow it, and what follows answers with it. -/
theorem readSize {skip : HeadType → Decode Unit} {rounds n : ℕ} {f : ℕ → Decode α}
    (hn : n < 2 ^ 31) (hbs : n ≤ bs.length) (hf : Answers (f n) bs x) :
    Answers (TarsInputStream.readSize skip (rounds + 1) >>= f) (encodeInteger n 0 ++ bs) x := by
  intro r rest hmemory hat
  have hcur := hat.cur_add_le
  rw [List.length_append, List.length_append] at hcur
  rw [List.append_assoc, ← writeInt32_length hn] at hat
  have hsize : TarsInputStream.readSize skip (rounds + 1) r = _ := At.readSize (by omega) hat
  rw [if_neg (by omega), writeInt32_length hn] at hsize
  rw [writeInt32_length hn] at hat
  have hrest := hf (r.advance (encodeInteger n 0).length) rest hmemory hat.advance
  rw [bind_of_ok hsize, List.length_append, ← BufferReader.advance_advance]
  exact hrest

end Answers

/-- The loop over the elements of a vector answers with each element converted over its old value.
-/
theorem answers_readEach {read : β → Decode β} {bytes : α → Bytes}
    {c : α → β → Except TarsException β} (xs : List α) : ∀ olds : List β,
      olds.length = xs.length → (∀ x ∈ xs, ∀ old, Answers (read old) (bytes x) (c x old)) →
        Answers (readEach read olds) (xs.flatMap bytes) (convertEach c xs olds) := by
  induction xs with
  | nil =>
    intro olds hlength _
    rw [List.length_eq_zero_iff.mp hlength]
    exact Answers.pure []
  | cons x xs ih =>
    intro olds hlength hread
    cases olds with
    | nil => exact absurd hlength (by simp)
    | cons old olds =>
      have hrest := ih olds (by simpa using hlength) fun y hy => hread y (List.mem_cons_of_mem _ hy)
      rw [readEach, List.flatMap_cons, convertEach]
      exact (hread x List.mem_cons_self old).bind fun y _ => hrest.map _

/-- The loop over the entries of a map answers with the map that the converted entries make. -/
theorem answers_readEntries {γ : Type} {less : α → α → Bool} {read : Decode (α × β)}
    {bytes : γ → Bytes} {c : γ → Except TarsException (α × β)} (xs : List γ) :
    ∀ m : List (α × β), (∀ e ∈ xs, Answers read (bytes e) (c e)) →
      Answers (readEntries less read xs.length m) (xs.flatMap bytes)
        (convertEntries less c xs m) := by
  induction xs with
  | nil =>
    intro m _
    exact Answers.pure m
  | cons e xs ih =>
    intro m hread
    rw [List.length_cons, readEntries, List.flatMap_cons, convertEntries]
    exact (hread e List.mem_cons_self).bind fun pr _ =>
      ih _ fun d hd => hread d (List.mem_cons_of_mem _ hd)

/-! ### Integers -/

section Integers

variable {skip : HeadType → Decode Unit} {rounds : ℕ} {tag : UInt8} {isRequire : Bool}

/-- The head types that integers are written with, zero among them. -/
theorem integerType_cases (k : ℕ) : integerType k = .zeroTag ∨ integerType k = .char ∨
    integerType k = .short ∨ integerType k = .int32 ∨ integerType k = .int64 := by
  unfold integerType
  split <;> simp

/-- Integers that take more bytes than a type has do not match it. -/
theorem integerBody_of_lt {w : ℕ} {z : ℤ} (hw : 8 ≤ w) (hsize : w < 8 * integerSize z) :
    integerBody w (integerType (integerSize z)) = Decoding.throw .mismatch := by
  rcases integerSize_cases z with ⟨hk, -⟩ | ⟨hk, -⟩ | ⟨hk, -⟩ | ⟨hk, -⟩ | hk <;>
    rw [hk] at hsize ⊢
  · omega
  · omega
  · rw [integerType, integerBody, if_pos (by omega)]
  · rw [integerType, integerBody, if_pos (by omega)]
  · have htype : integerType 8 = .int64 := rfl
    rw [htype, integerBody, if_pos (by omega)]

/-- The field of an integer is read by the types that it fits, and by no others. -/
theorem answers_integer {w : ℕ} {z : ℤ} (hw : 8 ≤ w) (hlo : -2 ^ 63 ≤ z) (hhi : z < 2 ^ 63)
    (old : BitVec w) :
    Answers (readField skip (rounds + 1) (integerBody w) old tag isRequire) (encodeInteger z tag)
      (if 8 * integerSize z ≤ w then .ok (BitVec.ofInt w z) else .error .mismatch) := by
  split
  · rename_i hsize
    exact (reads_integer old tag isRequire hsize hlo hhi).answers
  · rename_i hsize
    refine Answers.readField (integerType_ne _) ?_
    rw [integerBody_of_lt hw (by omega)]
    exact Answers.throw .mismatch _

/-- Narrowing an integer keeps its lower bits, which is what a cast of the code does. -/
theorem setWidth_ofInt {v w : ℕ} (z : ℤ) (h : v ≤ w) :
    (BitVec.ofInt w z).setWidth v = BitVec.ofInt v z := by
  have hdvd : ((2 ^ v : ℕ) : ℤ) ∣ (2 ^ w : ℕ) := Int.natCast_dvd_natCast.mpr (Nat.pow_dvd_pow 2 h)
  have hpos : ((2 ^ w : ℕ) : ℤ) ≠ 0 := Int.natCast_ne_zero.mpr (Nat.two_pow_pos w).ne'
  have hpos' : ((2 ^ v : ℕ) : ℤ) ≠ 0 := Int.natCast_ne_zero.mpr (Nat.two_pow_pos v).ne'
  apply BitVec.eq_of_toNat_eq
  rw [BitVec.toNat_setWidth, BitVec.toNat_ofInt, BitVec.toNat_ofInt]
  apply Int.natCast_inj.mp
  rw [Int.natCast_mod, Int.toNat_of_nonneg (Int.emod_nonneg z hpos),
    Int.toNat_of_nonneg (Int.emod_nonneg z hpos'), Int.emod_emod_of_dvd z hdvd]

/-- An unsigned type is read by way of the next wider signed one. -/
theorem answers_narrowed {v w : ℕ} {z : ℤ} (hw : 8 ≤ w) (hvw : v ≤ w) (hlo : -2 ^ 63 ≤ z)
    (hhi : z < 2 ^ 63) (old : BitVec w) :
    Answers (readField skip (rounds + 1) (integerBody w) old tag isRequire >>= fun i =>
        pure (i.setWidth v)) (encodeInteger z tag)
      (if 8 * integerSize z ≤ w then .ok (BitVec.ofInt v z) else .error .mismatch) := by
  have h : Answers (readField skip (rounds + 1) (integerBody w) old tag isRequire)
      (encodeInteger z tag) _ := answers_integer hw hlo hhi old
  have hnarrowed := h.map fun i => i.setWidth v
  by_cases hsize : 8 * integerSize z ≤ w
  · rw [if_pos hsize] at hnarrowed ⊢
    rw [← setWidth_ofInt z hvw]
    exact hnarrowed
  · rw [if_neg hsize] at hnarrowed ⊢
    exact hnarrowed

/-- **The reader of an integer type** in front of an integer. -/
theorem answers_readInt (k : IntKind) {z : ℤ} (hlo : -2 ^ 63 ≤ z) (hhi : z < 2 ^ 63)
    (old : BitVec k.width) : Answers (readInt skip (rounds + 1) k old tag isRequire)
      (encodeInteger z tag) (k.convert z) := by
  cases k with
  | char => exact answers_integer (by decide) hlo hhi old
  | short => exact answers_integer (by decide) hlo hhi old
  | int32 => exact answers_integer (by decide) hlo hhi old
  | int64 => exact answers_integer (by decide) hlo hhi old
  | uint8 => exact answers_narrowed (by decide) (by decide) hlo hhi _
  | uint16 => exact answers_narrowed (by decide) (by decide) hlo hhi _
  | uint32 => exact answers_narrowed (by decide) (by decide) hlo hhi _

/-- A value that counts as an integer is written exactly as that integer is, and it fits 64 bits. -/
theorem encode_of_integer (tag : UInt8) {t : Ty} {v : t.denote} {z : ℤ} (h : t.integer v = some z) :
    encode t v tag = encodeInteger z tag ∧ -2 ^ 63 ≤ z ∧ z < 2 ^ 63 := by
  cases t with
  | bool =>
    obtain rfl : (if v then 1 else 0) = z := Option.some.inj h
    refine ⟨rfl, ?_, ?_⟩ <;> split <;> norm_num
  | int k =>
    obtain rfl : k.toInt v = z := Option.some.inj h
    refine ⟨rfl, ?_⟩
    have hlo := v.le_toInt
    have hhi := v.toInt_lt
    have hlt : (v.toNat : ℤ) < 2 ^ k.width := by exact_mod_cast v.isLt
    cases k <;> norm_num [IntKind.toInt, IntKind.signed, IntKind.width] at hlo hhi hlt ⊢ <;> omega
  | _ => cases h

/-- Values that are not written as integers do not match integer types. -/
theorem integerBody_of_none {t : Ty} {v : t.denote} (h : t.integer v = none) (w : ℕ) :
    integerBody w (wireType t v) = Decoding.throw .mismatch := by
  cases t with
  | bool => cases h
  | int k => cases h
  | string =>
    rw [wireType]
    split <;> rfl
  | _ => rfl

/-- The reader of an integer type in front of any value. -/
theorem answers_convertValue (k : IntKind) (t : Ty) (v : t.denote) (old : BitVec k.width) :
    Answers (readInt skip (rounds + 1) k old tag isRequire) (encode t v tag)
      (k.convertValue t v) := by
  rw [IntKind.convertValue]
  cases hz : t.integer v with
  | some z =>
    obtain ⟨hencode, hlo, hhi⟩ := encode_of_integer tag hz
    rw [hencode]
    exact answers_readInt k hlo hhi old
  | none =>
    have hfield (w : ℕ) (old : BitVec w) :
        Answers (readField skip (rounds + 1) (integerBody w) old tag isRequire) (encode t v tag)
          (.error .mismatch) := Answers.mismatch (integerBody_of_none hz w)
    cases k with
    | uint8 => exact (hfield 16 (old.setWidth 16)).map fun i => i.setWidth 8
    | uint16 => exact (hfield 32 (old.setWidth 32)).map fun i => i.setWidth 16
    | uint32 => exact (hfield 64 (old.setWidth 64)).map fun i => i.setWidth 32
    | _ => exact hfield _ old

/-- Only a zero is written with `TarsHeadeZeroTag`, and every zero of an integer type is. -/
theorem wireType_eq_zeroTag_iff {t : Ty} {v : t.denote} :
    wireType t v = .zeroTag ↔ t.integer v = some 0 := by
  have hinteger (z : ℤ) : integerType (integerSize z) = .zeroTag ↔ some z = some 0 := by
    rw [Option.some.injEq]
    rcases integerSize_cases z with ⟨hk, hz⟩ | ⟨hk, -⟩ | ⟨hk, -⟩ | ⟨hk, -⟩ | hk <;> rw [hk]
    · simp [hz, integerType]
    all_goals
      have hz : z ≠ 0 := by
        rintro rfl
        exact absurd hk (by decide)
      simp [hz, integerType]
  cases t with
  | bool => exact hinteger _
  | int k => exact hinteger _
  | string =>
    refine ⟨fun htype => ?_, fun hzero => ?_⟩
    · rw [wireType] at htype
      split at htype <;> cases htype
    · cases hzero
  | _ =>
    constructor
    · intro htype
      cases htype
    · intro hzero
      cases hzero

/-- Only floating-point numbers are written like them, so no other field is taken for one. -/
theorem wireType_ne_floating {t : Ty} (v : t.denote) (hfloat : t ≠ .float) (hdouble : t ≠ .double) :
    wireType t v ≠ .float ∧ wireType t v ≠ .double := by
  have hinteger (k : ℕ) : integerType k ≠ .float ∧ integerType k ≠ .double := by
    rcases integerType_cases k with h | h | h | h | h <;> rw [h] <;> decide
  cases t with
  | bool => exact hinteger _
  | int k => exact hinteger _
  | float => exact absurd rfl hfloat
  | double => exact absurd rfl hdouble
  | string =>
    rw [wireType]
    split <;> decide
  | _ => exact ⟨nofun, nofun⟩

/-- The reader of a floating-point type in front of a value of a type that is not one. -/
theorem answers_convertZero {w : ℕ} {body : HeadType → Decode (BitVec w)} {old : BitVec w} {t : Ty}
    (v : t.denote) (hfloat : t ≠ .float) (hdouble : t ≠ .double) (hzero : body .zeroTag = pure 0)
    (hother : ∀ type, type ≠ .zeroTag → type ≠ .float → type ≠ .double →
      body type = Decoding.throw .mismatch) :
    Answers (readField skip (rounds + 1) body old tag isRequire) (encode t v tag)
      (convertZero w t v) := by
  obtain ⟨hfloat', hdouble'⟩ := wireType_ne_floating v hfloat hdouble
  rw [convertZero]
  split
  · rename_i hinteger
    rw [(encode_of_integer tag hinteger).1]
    refine Answers.readField (by decide) ?_
    have hsize : integerSize 0 = 0 := rfl
    rw [hsize, integerType, hzero, integerPayload, hsize]
    exact Answers.pure 0
  · rename_i hinteger
    have hne : wireType t v ≠ .zeroTag := fun htype => hinteger (wireType_eq_zeroTag_iff.mp htype)
    exact Answers.mismatch (hother _ hne hfloat' hdouble')

/-- The reader of a `Float` in front of any value. -/
theorem answers_readFloat {types : Codegen} (t : Ty) (v : t.denote) (old : BitVec 32) :
    Answers (readFloat skip (rounds + 1) old tag isRequire) (encode t v tag)
      (convert types .float t v old) := by
  cases t with
  | float => exact (reads_readFloat v old tag isRequire).answers
  | double => exact Answers.mismatch rfl
  | _ =>
    refine answers_convertZero v nofun nofun rfl fun type hzero hfloat hdouble => ?_
    cases type <;> first | rfl | contradiction

/-- A `Float` as it is in memory before the change of its byte order. -/
private theorem ofNat_load_netBytes (n : BitVec 32) :
    BitVec.ofNat 32 (load (netBytes 4 n.toNat)) = htonl n := rfl

/-- The reader of a `Double` in front of any value. -/
theorem answers_readDouble {types : Codegen} (t : Ty) (v : t.denote) (old : BitVec 64) :
    Answers (readDouble skip types (rounds + 1) old tag isRequire) (encode t v tag)
      (convert types .double t v old) := by
  cases t with
  | double => exact (reads_readDouble v old tag isRequire).answers
  | float =>
    have hread := (Reads.readTypeBuf (length_netBytes 4 v.toNat)).map fun bs =>
      types.toDouble (htonl (types.toFloat (types.toDouble (BitVec.ofNat 32 (load bs)))))
    rw [ofNat_load_netBytes] at hread
    rw [encode, wireType, payload]
    exact (Reads.readField (by decide) hread).answers
  | _ =>
    refine answers_convertZero v nofun nofun rfl fun type hzero hfloat hdouble => ?_
    cases type <;> first | rfl | contradiction

end Integers

/-! ### Other types -/

/-- The reader of a string in front of any value. -/
theorem answers_readString {skip : HeadType → Decode Unit} {rounds : ℕ} {tag : UInt8}
    {isRequire : Bool} {types : Codegen} (t : Ty) (v : t.denote)
    (hv : t.Valid types.less v) (old : Bytes) :
    Answers (readString skip (rounds + 1) old tag isRequire) (encode t v tag)
      (convert types .string t v old) := by
  have hinteger (k : ℕ) (bs : Bytes) :
      Answers (readString skip (rounds + 1) old tag isRequire)
        (writeToHead (integerType k) tag ++ bs) (.error .mismatch) := by
    refine Answers.readField (integerType_ne k) ?_
    rcases integerType_cases k with h | h | h | h | h <;> rw [h] <;>
      exact Answers.throw .mismatch bs
  cases t with
  | string => exact (reads_readString (write_eq .string v tag hv) old isRequire).answers
  | bool => exact hinteger _ _
  | int k => exact hinteger _ _
  | _ => exact Answers.mismatch rfl

end Answers

/-! ### Structures -/

/-- A value that a reader with this much fuel can read or pass over. -/
structure Readable (types : Codegen) (fuel : ℕ) (t : Ty) (v : t.denote) : Prop where
  /-- The value respects the limits. -/
  valid : t.Valid types.less v
  /-- The tags of its structures have been written in ascending order. -/
  ordered : t.Ordered
  /-- It has no map that is too large. -/
  skippable : Skippable t v
  /-- There is a unit of fuel for every byte. -/
  enough : (payload t v).length < fuel

/-- The fields of ordered structures are ordered themselves, so an induction over the type reaches
them. -/
theorem Fields.Ordered.of_mem : (fs : Fields) → (s : fs.denote) → fs.Ordered →
    ∀ f ∈ fs.toList s, f.type.Ordered
  | .nil, _, _, f, hf => absurd hf List.not_mem_nil
  | .cons _ _ _ fs, (_, vs), ⟨ht, hts⟩, f, hf => by
    rcases List.mem_cons.mp hf with rfl | hf
    · exact ht
    · exact of_mem fs vs hts f hf

namespace Readable

variable {types : Codegen} {fuel : ℕ}

/-- What is nested in a readable value is readable, if its type is ordered. -/
theorem within {t u : Ty} {v : t.denote} {w : u.denote} (h : Readable types fuel t v)
    (hw : Within w t v) (hordered : u.Ordered) : Readable types fuel u w := by
  have hlength := hw.length_payload_le
  have henough := h.enough
  exact ⟨hw.valid h.valid, hordered, fun k e m hm => h.skippable k e m (hm.trans hw), by omega⟩

/-- Every element of a readable vector is readable, with the fuel of the vector. -/
theorem element {t : Ty} {xs : List t.denote} (h : Readable types fuel (.vector t) xs)
    {x : t.denote} (hx : x ∈ xs) : Readable types fuel t x :=
  h.within (.element hx .refl) h.ordered

/-- Every key of a readable map is readable, with the fuel of the map. -/
theorem key {k t : Ty} {m : List (k.denote × t.denote)} (h : Readable types fuel (.map k t) m)
    {e : k.denote × t.denote} (he : e ∈ m) : Readable types fuel k e.1 :=
  h.within (.key he .refl) h.ordered.1

/-- Every value of a readable map is readable, with the fuel of the map. -/
theorem value {k t : Ty} {m : List (k.denote × t.denote)} (h : Readable types fuel (.map k t) m)
    {e : k.denote × t.denote} (he : e ∈ m) : Readable types fuel t e.2 :=
  h.within (.value he .refl) h.ordered.2

/-- Every field of a readable structure is readable, with the fuel of the structure. -/
theorem field {fs : Fields} {s : fs.denote} (h : Readable types fuel (.struct fs) s) {f : Field}
    (hf : f ∈ fs.toList s) : Readable types fuel f.type f.value :=
  h.within (.field hf .refl) (Fields.Ordered.of_mem fs s h.ordered.2 f hf)

end Readable

/-- Fields that a reader has in front of it, of which those with the tags `gs` are read. -/
structure Unread (types : Codegen) (fuel : ℕ) (fs : List Field) (rest : Bytes) (gs : Fields)
    (r : BufferReader) : Prop where
  /-- The fields are at the cursor. -/
  bytes : At r (fs.flatMap Field.bytes ++ rest)
  /-- The buffer is in memory. -/
  memory : r.bufLen ≤ r.buf.length
  /-- The tags have been written in ascending order. -/
  written : fs.Pairwise (fun f g => f.tag < g.tag)
  /-- The tags are read in ascending order. -/
  reading : gs.tags.Pairwise (· < ·)
  /-- There is enough fuel to pass over all fields. -/
  enough : fs.length < fuel
  /-- Each of the fields can be read or passed over. -/
  readable : ∀ f ∈ fs, Readable types fuel f.type f.value

namespace Unread

variable {types : Codegen} {guard : Bool} {fuel : ℕ} {fs : List Field} {rest : Bytes} {gs : Fields}
  {r : BufferReader} {tag : UInt8} {isRequire : Bool} {u : Ty}

/-- Each of the fields can be passed over, because it is skippable and the fuel suffices for it. -/
theorem skips (h : Unread types fuel fs rest gs r) {f : Field} (hf : f ∈ fs) :
    Reads (skipField guard fuel f.wireType) f.payload () :=
  have hreadable := h.readable f hf
  reads_skipField f.type f.value hreadable.valid hreadable.skippable fuel hreadable.enough

/-- What is left when the next tag of the reader and some fields in front have been dealt with. -/
theorem tail {front : Bytes} {back : List Field}
    (h : Unread types fuel fs rest (.cons tag isRequire u gs) r)
    (hbytes : fs.flatMap Field.bytes = front ++ back.flatMap Field.bytes)
    (hsub : back.Sublist fs) : Unread types fuel back rest gs (r.advance front.length) := by
  have hat := h.bytes
  rw [hbytes, List.append_assoc] at hat
  exact ⟨hat.advance, h.memory, h.written.sublist hsub, (List.pairwise_cons.mp h.reading).2,
    hsub.length_le.trans_lt h.enough, fun f hf => h.readable f (hsub.subset hf)⟩

/-- The loop passes over the fields in front, whose tags are smaller, and goes on with the rest. -/
theorem skipToTagLoop (guard : Bool) {front back : List Field}
    (h : Unread types fuel (front ++ back) rest gs r) (hfront : ∀ f ∈ front, f.tag < tag) :
    ∃ rounds, TarsInputStream.skipToTagLoop (skipField guard fuel) tag fuel r =
      TarsInputStream.skipToTagLoop (skipField guard fuel) tag (rounds + 1)
        (r.advance (front.flatMap Field.bytes).length) := by
  have henough := h.enough
  rw [List.length_append] at henough
  obtain ⟨rounds, hrounds⟩ : ∃ n, fuel = n + 1 + front.length :=
    ⟨fuel - 1 - front.length, by omega⟩
  have hat := h.bytes
  rw [List.flatMap_append, List.append_assoc] at hat
  refine ⟨rounds, ?_⟩
  nth_rewrite 2 [hrounds]
  exact skipToTagLoop_front front hat hfront fun f hf => h.skips (List.mem_append_left _ hf)

/-- The reader of a tag that has not been written. -/
theorem missing {front back : List Field}
    (h : Unread types fuel (front ++ back) rest (.cons tag isRequire u gs) r) (hends : Ends rest)
    (hfront : ∀ f ∈ front, f.tag < tag) (hback : ∀ f ∈ back, tag < f.tag) :
    tarsSkipToTag (skipField guard fuel) fuel tag r =
      .ok none (r.advance (front.flatMap Field.bytes).length) := by
  obtain ⟨rounds, hloop⟩ := h.skipToTagLoop guard hfront
  have hat := h.bytes
  rw [List.flatMap_append, List.append_assoc] at hat
  rw [skipToTagLoop_missing back hat.advance h.memory hends hback] at hloop
  rw [tarsSkipToTag, attempt_of_ok hloop]

/-- The reader of a tag that has been written goes on like one that has the field in front of
it. -/
theorem present {front back : List Field} {f : Field}
    (h : Unread types fuel (front ++ f :: back) rest (.cons f.tag isRequire u gs) r)
    (hfront : ∀ g ∈ front, g.tag < f.tag) :
    tarsSkipToTag (skipField guard fuel) fuel f.tag r =
      tarsSkipToTag (skipField guard fuel) fuel f.tag
        (r.advance (front.flatMap Field.bytes).length) := by
  obtain ⟨rounds, hloop⟩ := h.skipToTagLoop guard hfront
  have hat := h.bytes
  rw [List.flatMap_append, List.append_assoc] at hat
  have hhere := hat.advance
  rw [List.flatMap_cons, Field.bytes, List.append_assoc, List.append_assoc] at hhere
  have hfound (n : ℕ) : TarsInputStream.skipToTagLoop (skipField guard fuel) f.tag (n + 1)
      (r.advance (front.flatMap Field.bytes).length) = .ok (some f.wireType)
        ((r.advance (front.flatMap Field.bytes).length).advance (headLen f.tag)) :=
    hhere.skipToTagLoop (wireType_ne f.type f.value)
  have hdirect := hfound (fuel - 1)
  have hpos : 1 ≤ fuel := Nat.one_le_of_lt h.enough
  rw [Nat.sub_add_cancel hpos] at hdirect
  rw [tarsSkipToTag, attempt_of_ok (hloop.trans (hfound rounds)), attempt_of_ok hdirect]

end Unread

/-- A tag is found behind fields with other tags. -/
theorem find_append_of_lt {tag : UInt8} {front back : List Field} (h : ∀ f ∈ front, f.tag ≠ tag) :
    (front ++ back).find? (fun f => f.tag = tag) = back.find? fun f => f.tag = tag := by
  have hnone : front.find? (fun f => f.tag = tag) = none := by
    rw [List.find?_eq_none]
    intro f hf
    simpa using h f hf
  rw [List.find?_append, hnone, Option.none_or]

/-- Fields with other tags do not matter to the members, so they may be dropped from the front. -/
theorem convertFields_append {types : Codegen} {front back : List Field} :
    (gs : Fields) → (olds : gs.denote) → (∀ f ∈ front, f.tag ∉ gs.tags) →
      convertFields types gs (front ++ back) olds = convertFields types gs back olds
  | .nil, (), _ => rfl
  | .cons tag isRequire u gs, (old, olds), h => by
    have hhead : ∀ f ∈ front, f.tag ≠ tag := by
      rintro f hf rfl
      exact h f hf List.mem_cons_self
    rw [convertFields, convertFields, find_append_of_lt hhead,
      convertFields_append gs olds fun f hf htag => h f hf (List.mem_cons_of_mem _ htag)]

/-- What `readFrom` answers in front of some fields: the converted structure, or the exception that
the first field without an answer throws. -/
structure AnswersFields (types : Codegen) (guard : Bool) (fuel : ℕ) (fs : List Field)
    (rest : Bytes) (gs : Fields) (olds : gs.denote) (r : BufferReader) : Prop where
  /-- It delivers a structure and leaves some fields. -/
  reads : ∀ s, convertFields types gs fs olds = .ok s → ∃ front back,
    fs.flatMap Field.bytes = front ++ back.flatMap Field.bytes ∧
    Unread types fuel back rest .nil (r.advance front.length) ∧
    readFrom types guard fuel gs olds r = .ok s (r.advance front.length)
  /-- Or it throws the exception that the conversion throws. -/
  throws : ∀ e, convertFields types gs fs olds = .error e →
    ∃ r', readFrom types guard fuel gs olds r = .thrown e r'

/-- A `readFrom` whose first field has been dealt with. -/
theorem AnswersFields.cons {types : Codegen} {guard : Bool} {fuel : ℕ} {fs back : List Field}
    {front rest : Bytes} {gs : Fields} {olds : gs.denote} {r : BufferReader} {tag : UInt8}
    {isRequire : Bool} {u : Ty} {old : u.denote} {x : Except TarsException u.denote}
    (h : AnswersFields types guard fuel back rest gs olds (r.advance front.length))
    (hbytes : fs.flatMap Field.bytes = front ++ back.flatMap Field.bytes)
    (hread : Meets x (r.advance front.length) (read types guard fuel u old tag isRequire r))
    (hconvert : convertFields types (.cons tag isRequire u gs) fs (old, olds) = (do
      let v ← x
      let vs ← convertFields types gs back olds
      return (v, vs))) :
    AnswersFields types guard fuel fs rest (.cons tag isRequire u gs) (old, olds) r := by
  cases x with
  | error e =>
    obtain ⟨r', hthrown⟩ := hread
    have hrun : readFrom types guard fuel (.cons tag isRequire u gs) (old, olds) r =
        .thrown e r' := by
      rw [TarsInputStream.readFrom, bind_of_thrown hthrown]
    constructor
    · intro s hs
      rw [hconvert] at hs
      cases hs
    · intro e' he
      rw [hconvert] at he
      obtain rfl : e = e' := Except.error.inj he
      exact ⟨r', hrun⟩
  | ok v =>
    have hfirst : readFrom types guard fuel (.cons tag isRequire u gs) (old, olds) r =
        (readFrom types guard fuel gs olds >>= fun vs => pure (v, vs))
          (r.advance front.length) := by
      rw [TarsInputStream.readFrom, bind_of_ok hread]
    constructor
    · intro s hs
      rw [hconvert] at hs
      obtain ⟨vs, hvs, hpair⟩ := bind_eq_ok (show convertFields types gs back olds >>=
        (fun vs => pure (v, vs)) = .ok s from hs)
      obtain ⟨front', back', hbytes', hunread, hrun⟩ := h.reads vs hvs
      refine ⟨front ++ front', back', ?_, ?_, ?_⟩
      · rw [hbytes, hbytes', List.append_assoc]
      · rwa [List.length_append, ← BufferReader.advance_advance]
      · rw [hfirst, bind_of_ok hrun, List.length_append, BufferReader.advance_advance]
        rw [← Except.ok.inj hpair]
        rfl
    · intro e he
      rw [hconvert] at he
      cases hvs : convertFields types gs back olds with
      | ok vs =>
        rw [hvs] at he
        cases he
      | error e' =>
        rw [hvs] at he
        obtain rfl : e' = e := Except.error.inj he
        obtain ⟨r', hrun⟩ := h.throws e' hvs
        exact ⟨r', by rw [hfirst, bind_of_thrown hrun]⟩

/-- The head types of containers belong to one kind of type each, so a reader of another type meets
a mismatch. -/
theorem of_wireType_eq {t : Ty} {v : t.denote} : (wireType t v = .simpleList → t = .bytes) ∧
    (wireType t v = .list → ∃ e, t = .vector e) ∧ (wireType t v = .map → ∃ k e, t = .map k e) ∧
    (wireType t v = .structBegin → ∃ fs, t = .struct fs) := by
  have hinteger (k : ℕ) : integerType k ≠ .simpleList ∧ integerType k ≠ .list ∧
      integerType k ≠ .map ∧ integerType k ≠ .structBegin := by
    rcases integerType_cases k with h | h | h | h | h <;> rw [h] <;> decide
  cases t with
  | bool =>
    obtain ⟨hbytes, hlist, hmap, hstruct⟩ := hinteger (integerSize (if v then 1 else 0))
    exact ⟨(absurd · hbytes), (absurd · hlist), (absurd · hmap), (absurd · hstruct)⟩
  | int k =>
    obtain ⟨hbytes, hlist, hmap, hstruct⟩ := hinteger (integerSize (k.toInt v))
    exact ⟨(absurd · hbytes), (absurd · hlist), (absurd · hmap), (absurd · hstruct)⟩
  | string =>
    rw [wireType]
    split <;> exact ⟨nofun, nofun, nofun, nofun⟩
  | _ => simp [wireType]

/-! ### All types -/

section Read

variable {types : Codegen} {guard : Bool} {fuel : ℕ}

mutual

/-- **What a reader of any type gets** from the encoding of a value of any type. -/
theorem answers_read : (u : Ty) → u.Ordered → (t : Ty) → (v : t.denote) →
    Readable types (fuel + 1) t v → (old : u.denote) → (tag : UInt8) → (isRequire : Bool) →
      Answers (read types guard (fuel + 1) u old tag isRequire) (encode t v tag)
        (convert types u t v old)
  | .bool, _, t, v, _, old, tag, isRequire =>
    (answers_convertValue .char t v (if old then 1 else 0)).map fun c => decide (c ≠ 0)
  | .int k, _, t, v, _, old, tag, isRequire => answers_convertValue k t v old
  | .float, _, t, v, _, old, tag, isRequire => answers_readFloat t v old
  | .double, _, t, v, _, old, tag, isRequire => answers_readDouble t v old
  | .string, _, t, v, hv, old, tag, isRequire => answers_readString t v hv.valid old
  | .bytes, _, t, v, hv, old, tag, isRequire => by
    cases t with
    | bytes => exact (reads_read .bytes v hv.valid old tag isRequire).answers
    | vector t =>
      rw [TarsInputStream.read, encode, payload, convert]
      refine Answers.readField (wireType_ne _ _) ?_
      refine Answers.readSize hv.valid.1 ?_ ?_
      · exact length_le_length_flatMap fun x hx => encode_ne_nil t x 0
      · exact answers_readEach v _ (length_resize _ _ _) fun x _ y =>
          (answers_convertValue .char t x (BitVec.ofNat 8 y.toNat)).map fun c =>
            UInt8.ofNat c.toNat
    | _ =>
      have hbytes : wireType _ v ≠ .simpleList := fun h => nomatch of_wireType_eq.1 h
      have hlist : wireType _ v ≠ .list := fun h => nomatch of_wireType_eq.2.1 h
      refine Answers.mismatch ?_
      generalize wireType _ v = type at hbytes hlist
      cases type <;> first | rfl | contradiction
  | .vector u, hu, t, v, hv, old, tag, isRequire => by
    cases t with
    | vector t =>
      rw [TarsInputStream.read, encode, payload, convert]
      refine Answers.readField (wireType_ne _ _) ?_
      refine Answers.readSize hv.valid.1 ?_ ?_
      · exact length_le_length_flatMap fun x hx => encode_ne_nil t x 0
      · exact answers_readEach v _ (length_resize _ _ _) fun x hx y =>
          answers_read u hu t x (hv.element hx) y 0 true
    | _ =>
      refine Answers.other .list (fun h => ?_) fun type h => ?_
      · exact nomatch of_wireType_eq.2.1 h
      · cases type <;> first | rfl | contradiction
  | .map k u, hu, t, v, hv, old, tag, isRequire => by
    cases t with
    | map l t =>
      rw [TarsInputStream.read, encode, payload, convert]
      refine Answers.readField (wireType_ne _ _) ?_
      refine Answers.readSize hv.valid.1 ?_ ?_
      · exact length_le_length_flatMap fun e he =>
          List.append_ne_nil_of_left_ne_nil (encode_ne_nil l e.1 0) _
      · refine answers_readEntries v [] fun e he => ?_
        exact (answers_read k hu.1 l e.1 (hv.key he) _ 0 true).bind fun key _ =>
          (answers_read u hu.2 t e.2 (hv.value he) _ 1 true).map fun value => (key, value)
    | _ =>
      refine Answers.other .map (fun h => ?_) fun type h => ?_
      · exact nomatch of_wireType_eq.2.2.1 h
      · cases type <;> first | rfl | contradiction
  | .struct gs, hu, t, v, hv, old, tag, isRequire => by
    cases t with
    | struct fs =>
      rw [TarsInputStream.read, encode, payload, convert]
      refine Answers.readField (wireType_ne _ _) ?_
      intro r rest hmemory hat
      have henough := hv.enough
      have hcount := length_le_bytes (fs.toList v)
      rw [payload, List.length_append, encodeFields_eq] at henough
      rw [encodeFields_eq, List.append_assoc] at hat
      have hunread : Unread types (fuel + 1) (fs.toList v) (writeToHead .structEnd 0 ++ rest)
          gs r :=
        ⟨hat, hmemory, Fields.pairwise_toList v hv.ordered.1, hu.1, by omega,
          fun f hf => hv.field hf⟩
      have hfields := answers_readFrom (.inr ⟨rest, rfl⟩) gs hu.2 (types.resetDefautlt gs old)
        hunread
      cases hconvert : convertFields types gs (fs.toList v) (types.resetDefautlt gs old) with
      | ok s =>
        obtain ⟨front, back, hbytes, hend, hrun⟩ := hfields.reads s hconvert
        have hskips : Reads (skipToStructEnd (skipField guard (fuel + 1)) (fuel + 1))
            (back.flatMap Field.bytes ++ writeToHead .structEnd 0) () :=
          reads_skipToStructEnd_fields back hend.enough
            (reads_skipField_structEnd (Nat.succ_pos fuel)) fun f hf => hend.skips hf
        have hthere := hend.bytes
        rw [← List.append_assoc] at hthere
        have hlength : (encodeFields fs v ++ writeToHead .structEnd 0).length =
            front.length + (back.flatMap Field.bytes ++ writeToHead .structEnd 0).length := by
          rw [encodeFields_eq, hbytes, List.append_assoc, List.length_append]
        show (readFrom types guard (fuel + 1) gs (types.resetDefautlt gs old) >>= fun s =>
          skipToStructEnd (skipField guard (fuel + 1)) (fuel + 1) >>= fun _ => pure s) r = _
        rw [bind_of_ok hrun, bind_of_ok (hskips _ _ hthere), hlength, BufferReader.advance_advance]
        rfl
      | error e =>
        obtain ⟨r', hrun⟩ := hfields.throws e hconvert
        exact ⟨r', bind_of_thrown hrun⟩
    | _ =>
      refine Answers.other .structBegin (fun h => ?_) fun type h => if_pos h
      exact nomatch of_wireType_eq.2.2.2 h

/-- What `readFrom` gets from any fields is what the conversion of each of them says, by induction
on the reader's fields. -/
theorem answers_readFrom {rest : Bytes} (hends : Ends rest) : (gs : Fields) → gs.Ordered →
    (olds : gs.denote) → ∀ {fs r}, Unread types (fuel + 1) fs rest gs r →
      AnswersFields types guard (fuel + 1) fs rest gs olds r
  | .nil, _, (), fs, r, h => ⟨fun _ _ => ⟨[], fs, rfl, h, rfl⟩, nofun⟩
  | .cons tag isRequire u gs, hgs, (old, olds), fs, r, h => by
    obtain ⟨front, back, hfront, hback, hsplit⟩ := split_at_tag tag fs h.written
    have hreading := (List.pairwise_cons.mp h.reading).1
    have hothers : ∀ f ∈ front, f.tag ≠ tag := fun f hf => UInt8.ne_of_lt (hfront f hf)
    have hpassed : ∀ f ∈ front, f.tag ∉ gs.tags := fun f hf htag =>
      UInt8.lt_asymm (hfront f hf) (hreading f.tag htag)
    rcases hsplit with rfl | ⟨f, rfl, rfl⟩
    · have hbytes : (front ++ back).flatMap Field.bytes =
          front.flatMap Field.bytes ++ back.flatMap Field.bytes := List.flatMap_append
      have hrest := answers_readFrom hends gs hgs.2 olds
        (h.tail hbytes (List.sublist_append_right _ _))
      have hnone : back.find? (fun f => f.tag = tag) = none := by
        rw [List.find?_eq_none]
        intro f hf
        simpa using (UInt8.ne_of_lt (hback f hf)).symm
      refine hrest.cons (x := if isRequire then .error .requireNotExist else .ok old) hbytes ?_ ?_
      · have hread : read types guard (fuel + 1) u old tag isRequire r =
            absent isRequire old (r.advance (front.flatMap Field.bytes).length) :=
          read_absent u old (h.missing hends hfront hback)
        cases isRequire with
        | true => exact ⟨_, hread⟩
        | false => exact hread
      · rw [convertFields, find_append_of_lt hothers, hnone, convertFields_append gs olds hpassed]
    · have hbytes : (front ++ f :: back).flatMap Field.bytes =
          (front.flatMap Field.bytes ++ f.bytes) ++ back.flatMap Field.bytes := by
        rw [List.flatMap_append, List.flatMap_cons, List.append_assoc]
      have hsub : back.Sublist (front ++ f :: back) :=
        (List.sublist_cons_self _ _).trans (List.sublist_append_right _ _)
      have hrest := answers_readFrom hends gs hgs.2 olds (h.tail hbytes hsub)
      have hhere := h.bytes
      rw [hbytes, List.append_assoc, List.append_assoc] at hhere
      have hmem : f ∈ front ++ f :: back := List.mem_append_right _ List.mem_cons_self
      have hvalue := answers_read u hgs.1 f.type f.value (h.readable f hmem) old f.tag isRequire
        (r.advance (front.flatMap Field.bytes).length) _ h.memory hhere.advance
      have hread : read types guard (fuel + 1) u old f.tag isRequire r =
          read types guard (fuel + 1) u old f.tag isRequire
            (r.advance (front.flatMap Field.bytes).length) :=
        read_congr u old (h.present hfront)
      have hfind : (front ++ f :: back).find? (fun g => g.tag = f.tag) = some f := by
        rw [find_append_of_lt hothers, List.find?_cons_of_pos (by simp)]
      have hskipped : convertFields types gs (front ++ f :: back) olds =
          convertFields types gs back olds := by
        rw [List.append_cons]
        refine convertFields_append gs olds fun g hg htag => ?_
        rcases List.mem_append.mp hg with hg | hg
        · exact hpassed g hg htag
        · obtain rfl := List.mem_singleton.mp hg
          exact UInt8.lt_irrefl _ (hreading _ htag)
      refine hrest.cons (x := convert types u f.type f.value old) hbytes ?_ ?_
      · rw [hread, List.length_append, ← BufferReader.advance_advance]
        exact hvalue
      · rw [convertFields, hfind, hskipped]

end

end Read

/-- **What the reader of any type gets**: a value of the type `t` has been written, and the
reader of the type `u` gets what `convert` says, wherever in the buffer the field is. -/
theorem read_of_other_type (types : Codegen) (u t : Ty) (v : t.denote) (old : u.denote)
    (tag : UInt8) (isRequire : Bool) (hu : u.Ordered) (ht : t.Ordered)
    (hv : t.Valid types.less v) (hskip : Skippable t v) :
    ∃ bs, write t v tag = .ok bs ∧ ∀ fuel, bs.length ≤ fuel → ∀ r rest,
      r.bufLen ≤ r.buf.length → At r (bs ++ rest) →
        Meets (convert types u t v old) (r.advance bs.length)
          (read types false fuel u old tag isRequire r) := by
  refine ⟨encode t v tag, write_eq t v tag hv, ?_⟩
  intro fuel hfuel r rest hmemory hat
  have hhead := headLen_pos tag
  rw [encode, List.length_append, length_writeToHead] at hfuel
  obtain ⟨rounds, rfl⟩ : ∃ n, fuel = n + 1 := ⟨fuel - 1, by omega⟩
  exact answers_read u hu t v ⟨hv, ht, hskip, by omega⟩ old tag isRequire r rest hmemory hat

/-- A writer with a number, a vector, a text and a map. -/
private abbrev writerType : Ty :=
  .struct (.cons 1 true (.int .int32) (.cons 2 true (.vector (.int .uint8))
    (.cons 4 true .string (.cons 5 true (.map .string (.int .short)) .nil))))

/-- A reader with other types, one more field, and one less. -/
private abbrev readerType : Ty :=
  .struct (.cons 1 true (.int .uint8) (.cons 2 true .bytes
    (.cons 3 false (.int .int64) (.cons 5 true (.map .string .bool) .nil))))

/-- A value of the writer's type whose vector has one element. -/
private abbrev writerValue (n : BitVec 8) : writerType.denote :=
  (300, [n], [104, 105], [([97], 7)], ())

/-- What the two kinds of values give when the reader's structure is filled with them, computed. -/
private theorem convert_writerValue :
    convert plainTypes readerType writerType (writerValue 127) (0, [], 9, [], ()) =
      .ok (44, [127], 0, [([97], true)], ()) ∧
    convert plainTypes readerType writerType (writerValue 255) (0, [], 9, [], ()) =
      .error .mismatch := ⟨rfl, rfl⟩

/-- The values of the sample respect the limits, whatever their first field is. -/
private theorem valid_writerValue (n : BitVec 8) :
    writerType.Valid plainTypes.less (writerValue n) := by
  have hentries : ∀ e ∈ (writerValue n).2.2.2.1, Ty.string.Valid plainTypes.less e.1 ∧
      (Ty.int .short).Valid plainTypes.less e.2 := by
    intro e he
    obtain rfl := List.mem_singleton.mp he
    simp [Ty.Valid, maxStringLength]
  have hstring : Ty.string.Valid plainTypes.less [104, 105] := by
    simp [Ty.Valid, maxStringLength]
  exact ⟨trivial, ⟨by simp, fun _ _ => trivial⟩, hstring,
    ⟨by simp, List.pairwise_singleton _ _, hentries⟩, trivial⟩

/-- The reader of an unsigned byte gets the lower byte of `300`, and the one of truth values gets
one from a number; `255` was written as a `Short`, which is not read as a `Char`. -/
theorem read_of_other_type_sample :
    (∃ bs, write writerType (writerValue 127) 0 = .ok bs ∧
      read plainTypes false bs.length readerType (0, [], 9, [], ()) 0 true
        (.setBuffer bs bs.length) =
          .ok (44, [127], 0, [([97], true)], ()) ⟨bs, bs.length, bs.length, false⟩) ∧
    ∃ bs r, write writerType (writerValue 255) 0 = .ok bs ∧
      read plainTypes false bs.length readerType (0, [], 9, [], ()) 0 true
        (.setBuffer bs bs.length) = .thrown .mismatch r := by
  have hordered : readerType.Ordered ∧ writerType.Ordered := by
    simp [Ty.Ordered, Fields.Ordered, Fields.tags, Fields.types]
  have hat {bs : Bytes} (hfits : bs.length < 2 ^ 63) :
      At (.setBuffer bs bs.length) (bs ++ []) := by
    rw [List.append_nil]
    exact At.setBuffer hfits
  have hlength {n : BitVec 8} {bs : Bytes} (hbs : write writerType (writerValue n) 0 = .ok bs)
      (hlen : (encode writerType (writerValue n) 0).length < 2 ^ 63) : bs.length < 2 ^ 63 := by
    rw [write_eq writerType (writerValue n) 0 (valid_writerValue n)] at hbs
    rwa [← Except.ok.inj hbs]
  have hend (bs : Bytes) : (BufferReader.setBuffer bs bs.length).advance bs.length =
      ⟨bs, bs.length, bs.length, false⟩ := by
    rw [BufferReader.setBuffer, BufferReader.advance, Nat.zero_add]
  constructor
  · obtain ⟨bs, hbs, hread⟩ := read_of_other_type plainTypes readerType writerType
      (writerValue 127) (0, [], 9, [], ()) 0 true hordered.1 hordered.2 (valid_writerValue 127)
      (Skippable.of_length (by decide))
    have hmeets := hread bs.length le_rfl _ _ le_rfl (hat (hlength hbs (by decide)))
    rw [convert_writerValue.1, hend] at hmeets
    exact ⟨bs, hbs, hmeets⟩
  · obtain ⟨bs, hbs, hread⟩ := read_of_other_type plainTypes readerType writerType
      (writerValue 255) (0, [], 9, [], ()) 0 true hordered.1 hordered.2 (valid_writerValue 255)
      (Skippable.of_length (by decide))
    have hmeets := hread bs.length le_rfl _ _ le_rfl (hat (hlength hbs (by decide)))
    rw [convert_writerValue.2] at hmeets
    obtain ⟨r, hthrown⟩ := hmeets
    exact ⟨bs, r, hbs, hthrown⟩

end Tars
