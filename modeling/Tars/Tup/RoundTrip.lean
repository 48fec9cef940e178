import Tars.Tup.Cursor

/-!
# The round trip

What has been written with `write` is read back with `read`: first the integers in all sizes,
then the containers, and then all types by recursion over the type.
-/

namespace Tars

open LittleEndian Decoding TarsOutputStream TarsInputStream

section Fields

variable {skip : HeadType → Decode Unit} {rounds : ℕ} {α β : Type}

/-- The loop finds a field whose tag is at the cursor. -/
theorem At.skipToTagLoop {r : BufferReader} {type : HeadType} {tag : UInt8} {rest : Bytes}
    (h : At r (writeToHead type tag ++ rest)) (htype : type ≠ .structEnd) :
    TarsInputStream.skipToTagLoop skip tag (rounds + 1) r =
      .ok (some type) (r.advance (headLen tag)) := by
  have hne : writeToHead type tag ++ rest ≠ [] :=
    List.append_ne_nil_of_left_ne_nil (writeToHead_ne_nil type tag) rest
  have hother : ¬(type = .structEnd ∨ tag < tag) := by
    rintro (htype' | hlt)
    · exact htype htype'
    · exact UInt8.lt_irrefl tag hlt
  rw [TarsInputStream.skipToTagLoop, bind_of_ok (ask_apply _ _), h.hasEnd_eq hne,
    if_neg (by decide), bind_of_ok h.peekFromHead, if_neg hother, if_pos rfl,
    bind_of_ok (h.readHeadSkip (length_writeToHead type tag))]
  rfl

/-- A field whose tag is at the cursor is found. -/
theorem At.tarsSkipToTag {r : BufferReader} {type : HeadType} {tag : UInt8} {rest : Bytes}
    (h : At r (writeToHead type tag ++ rest)) (htype : type ≠ .structEnd) :
    TarsInputStream.tarsSkipToTag skip (rounds + 1) tag r =
      .ok (some type) (r.advance (headLen tag)) := by
  rw [TarsInputStream.tarsSkipToTag, attempt_of_ok (h.skipToTagLoop htype)]

/-- The payload of a field whose tag is at the cursor is read. -/
theorem Reads.readField {body : HeadType → Decode α} {old v : α} {type : HeadType} {tag : UInt8}
    {isRequire : Bool} {bs : Bytes} (htype : type ≠ .structEnd) (hbody : Reads (body type) bs v) :
    Reads (TarsInputStream.readField skip (rounds + 1) body old tag isRequire)
      (writeToHead type tag ++ bs) v := by
  have hfound : Reads (TarsInputStream.tarsSkipToTag skip (rounds + 1) tag)
      (writeToHead type tag) (some type) := by
    intro r rest h
    rw [h.tarsSkipToTag htype, length_writeToHead]
  exact hfound.bind hbody

/-! ### Integers -/

/-- The sizes of integers, each with the bounds that it says about the integer. -/
theorem integerSize_cases (z : ℤ) :
    integerSize z = 0 ∧ z = 0 ∨ integerSize z = 1 ∧ -2 ^ 7 ≤ z ∧ z < 2 ^ 7 ∨
      integerSize z = 2 ∧ -2 ^ 15 ≤ z ∧ z < 2 ^ 15 ∨
      integerSize z = 4 ∧ -2 ^ 31 ≤ z ∧ z < 2 ^ 31 ∨ integerSize z = 8 := by
  unfold integerSize
  repeat' split
  all_goals simp_all

/-- No integer is written like the end of a structure. -/
theorem integerType_ne (k : ℕ) : integerType k ≠ .structEnd := by
  unfold integerType
  split <;> decide

/-- A byte that was loaded is the byte that was stored. -/
private theorem ofNat_load (n : BitVec 8) : BitVec.ofNat 8 (load (netBytes 1 n.toNat)) = n := by
  have hbytes : netBytes 1 n.toNat = store 1 n.toNat := rfl
  have hlt : n.toNat < 256 ^ 1 := n.isLt
  rw [hbytes, load_store, Nat.mod_eq_of_lt hlt, BitVec.ofNat_toNat, BitVec.setWidth_eq]

/-- Sign extension of an integer that fits gives the same integer with more bits. -/
private theorem signExtend_ofInt {k : ℕ} (w : ℕ) {z : ℤ} (hk : 0 < k) (hlo : -2 ^ (k - 1) ≤ z)
    (hhi : z < 2 ^ (k - 1)) : (BitVec.ofInt k z).signExtend w = BitVec.ofInt w z := by
  rw [BitVec.signExtend, BitVec.toInt_ofInt_eq_self hk hlo hhi]

/-- The payload of an integer is read by every type that it fits. -/
theorem reads_integerBody {w : ℕ} {z : ℤ} (hw : 8 * integerSize z ≤ w) (hlo : -2 ^ 63 ≤ z)
    (hhi : z < 2 ^ 63) :
    Reads (integerBody w (integerType (integerSize z))) (integerPayload z) (BitVec.ofInt w z) := by
  have hbody (k : ℕ) (g : Bytes → BitVec w)
      (hg : g (netBytes k (BitVec.ofInt (8 * k) z).toNat) = BitVec.ofInt w z) :
      Reads (TarsInputStream.readTypeBuf k >>= fun bs => Pure.pure (g bs))
        (netBytes k (BitVec.ofInt (8 * k) z).toNat) (BitVec.ofInt w z) := by
    have hread := (Reads.readTypeBuf (length_netBytes k (BitVec.ofInt (8 * k) z).toNat)).map g
    rwa [hg] at hread
  rw [integerPayload]
  rcases integerSize_cases z with
    ⟨hk, hz⟩ | ⟨hk, hlo', hhi'⟩ | ⟨hk, hlo', hhi'⟩ | ⟨hk, hlo', hhi'⟩ | hk <;> rw [hk] at hw ⊢
  · subst hz
    exact Reads.pure 0
  · exact hbody 1 (fun bs => (BitVec.ofNat 8 (load bs)).signExtend w)
      (by rw [ofNat_load, signExtend_ofInt (k := 8) w (by decide) hlo' hhi'])
  · have h := hbody 2 (fun bs => (htons (BitVec.ofNat 16 (load bs))).signExtend w)
      (by rw [htons_load, signExtend_ofInt (k := 16) w (by decide) hlo' hhi'])
    rwa [integerType, integerBody, if_neg (by omega)]
  · have h := hbody 4 (fun bs => (htonl (BitVec.ofNat 32 (load bs))).signExtend w)
      (by rw [htonl_load, signExtend_ofInt (k := 32) w (by decide) hlo' hhi'])
    rwa [integerType, integerBody, if_neg (by omega)]
  · have h := hbody 8 (fun bs => (tarsHtonll (BitVec.ofNat 64 (load bs))).signExtend w)
      (by rw [tarsHtonll_load, signExtend_ofInt (k := 64) w (by decide) hlo hhi])
    have htype : integerType 8 = .int64 := rfl
    rwa [htype, integerBody, if_neg (by omega)]

/-- The field of an integer is read by every type that it fits. -/
theorem reads_integer {w : ℕ} {z : ℤ} (old : BitVec w) (tag : UInt8) (isRequire : Bool)
    (hw : 8 * integerSize z ≤ w) (hlo : -2 ^ 63 ≤ z) (hhi : z < 2 ^ 63) :
    Reads (readField skip (rounds + 1) (integerBody w) old tag isRequire) (encodeInteger z tag)
      (BitVec.ofInt w z) :=
  Reads.readField (integerType_ne _) (reads_integerBody hw hlo hhi)

/-- A signed integer is read from its field, whichever of the narrow forms it was written in. -/
theorem reads_signed {k : ℕ} (hk : k = 1 ∨ k = 2 ∨ k = 4 ∨ k = 8) (n old : BitVec (8 * k))
    (tag : UInt8) (isRequire : Bool) :
    Reads (readField skip (rounds + 1) (integerBody (8 * k)) old tag isRequire)
      (encodeInteger n.toInt tag) n := by
  have hpow : (2 : ℤ) ^ (8 * k - 1) ≤ 2 ^ 63 := by
    rcases hk with rfl | rfl | rfl | rfl <;> norm_num
  have hlo := n.le_toInt
  have hhi := n.toInt_lt
  have hsize := integerSize_toInt_le hk n
  have h : Reads (readField skip (rounds + 1) (integerBody (8 * k)) old tag isRequire)
      (encodeInteger n.toInt tag) (BitVec.ofInt (8 * k) n.toInt) :=
    reads_integer old tag isRequire (by omega) (by omega) (by omega)
  rwa [BitVec.ofInt_toInt] at h

/-- An unsigned integer is read from its field by way of the next wider signed type. -/
theorem reads_unsigned {k : ℕ} (hk : k = 1 ∨ k = 2 ∨ k = 4) (n : BitVec (8 * k))
    (old : BitVec (8 * (2 * k))) (tag : UInt8) (isRequire : Bool) :
    Reads (readField skip (rounds + 1) (integerBody (8 * (2 * k))) old tag isRequire >>=
        fun i => Pure.pure (i.setWidth (8 * k))) (encodeInteger n.toNat tag) n := by
  have hpow : (2 : ℤ) ^ (8 * k) ≤ 2 ^ (8 * (2 * k) - 1) ∧ (2 : ℤ) ^ (8 * k) ≤ 2 ^ 63 := by
    rcases hk with rfl | rfl | rfl <;> norm_num
  have hhi : (n.toNat : ℤ) < 2 ^ (8 * k) := by exact_mod_cast n.isLt
  have hlo : (0 : ℤ) ≤ n.toNat := Int.natCast_nonneg _
  have hsize : integerSize n.toNat ≤ 2 * k := integerSize_le (by omega) (by omega) (by omega)
  have hback : (BitVec.ofInt (8 * (2 * k)) n.toNat).setWidth (8 * k) = n := by
    rw [BitVec.ofInt_natCast, BitVec.setWidth_ofNat_of_le (by omega), BitVec.ofNat_toNat,
      BitVec.setWidth_eq]
  have hread : Reads (readField skip (rounds + 1) (integerBody (8 * (2 * k))) old tag isRequire)
      (encodeInteger n.toNat tag) (BitVec.ofInt (8 * (2 * k)) n.toNat) :=
    reads_integer old tag isRequire (by omega) (by omega) (by omega)
  have h := hread.map fun i => i.setWidth (8 * k)
  rwa [hback] at h

/-- **An integer is read back** by its type, and by every other type that has the same integer. -/
theorem reads_readInt (k : IntKind) (n old : BitVec k.width) (tag : UInt8) (isRequire : Bool) :
    Reads (readInt skip (rounds + 1) k old tag isRequire) (encodeInteger (k.toInt n) tag) n := by
  cases k with
  | char => exact reads_signed (k := 1) (by decide) n old tag isRequire
  | short => exact reads_signed (k := 2) (by decide) n old tag isRequire
  | int32 => exact reads_signed (k := 4) (by decide) n old tag isRequire
  | int64 => exact reads_signed (k := 8) (by decide) n old tag isRequire
  | uint8 => exact reads_unsigned (k := 1) (by decide) n _ tag isRequire
  | uint16 => exact reads_unsigned (k := 2) (by decide) n _ tag isRequire
  | uint32 => exact reads_unsigned (k := 4) (by decide) n _ tag isRequire

/-- A truth value is read back from the `Char` that it was written as. -/
theorem reads_readBool (b old : Bool) (tag : UInt8) (isRequire : Bool) :
    Reads (readBool skip (rounds + 1) old tag isRequire)
      (encodeInteger (if b then 1 else 0) tag) b := by
  have hint : IntKind.char.toInt (if b then 1 else 0) = if b then 1 else 0 := by cases b <;> rfl
  have hback : decide ((if b then 1 else 0 : BitVec 8) ≠ 0) = b := by cases b <;> rfl
  have hread : Reads (readChar skip (rounds + 1) (if old then 1 else 0) tag isRequire)
      (encodeInteger (if b then 1 else 0) tag) (if b then 1 else 0) := by
    rw [← hint]
    exact reads_readInt .char _ _ tag isRequire
  have h := hread.map fun c => decide (c ≠ 0)
  rwa [hback] at h

/-- A `Float` is read back from its four bytes. -/
theorem reads_readFloat (n old : BitVec 32) (tag : UInt8) (isRequire : Bool) :
    Reads (readFloat skip (rounds + 1) old tag isRequire) (encode .float n tag) n := by
  have hbody := (Reads.readTypeBuf (length_netBytes 4 n.toNat)).map fun bs =>
    htonl (BitVec.ofNat 32 (load bs))
  rw [htonl_load] at hbody
  rw [encode, wireType, payload]
  exact Reads.readField (by decide) hbody

/-- A `Double` is read back from its eight bytes. -/
theorem reads_readDouble {types : Codegen} (n old : BitVec 64) (tag : UInt8) (isRequire : Bool) :
    Reads (readDouble skip types (rounds + 1) old tag isRequire) (encode .double n tag) n := by
  have hbody := (Reads.readTypeBuf (length_netBytes 8 n.toNat)).map fun bs =>
    tarsHtonll (BitVec.ofNat 64 (load bs))
  rw [tarsHtonll_load] at hbody
  rw [encode, wireType, payload]
  exact Reads.readField (by decide) hbody

/-! ### Containers -/

/-- The length of a field of an integer is that of its head and of the bytes that the value needs.
-/
theorem length_encodeInteger (z : ℤ) (tag : UInt8) :
    (encodeInteger z tag).length = headLen tag + integerSize z := by
  rw [encodeInteger, List.length_append, length_writeToHead, integerPayload, length_netBytes]

/-- Widening an integer and narrowing it again changes nothing, so the wider type in between does
not matter. -/
private theorem setWidth_ofInt_toInt (n : BitVec 32) :
    (BitVec.ofInt 64 n.toInt).setWidth 32 = n := by
  have h : n.signExtend 64 = BitVec.ofInt 64 n.toInt := rfl
  rw [← h, ← BitVec.signExtend_eq_setWidth_of_le _ (by decide), BitVec.signExtend,
    BitVec.toInt_signExtend_of_le (by decide), BitVec.ofInt_toInt]

/-- A size is read back, also one that is negative as `Int32`. -/
theorem reads_readUInt32 (n : BitVec 32) :
    Reads (readUInt32 skip (rounds + 1) 0 0 true) (writeInt32 n 0) n := by
  have hlo := n.le_toInt
  have hhi := n.toInt_lt
  norm_num at hlo hhi
  have hsize := integerSize_toInt_le (k := 4) (by decide) n
  have hwide : Reads (readInt64 skip (rounds + 1) 0 0 true) (encodeInteger n.toInt 0)
      (BitVec.ofInt 64 n.toInt) :=
    reads_integer 0 0 true (by omega) (by omega) (by omega)
  have hnarrow := hwide.map fun i => i.setWidth 32
  rwa [setWidth_ofInt_toInt, ← writeInt32_eq] at hnarrow

/-- Reading a size compares it with the length of the buffer. -/
theorem At.readSize {r : BufferReader} {n : ℕ} {bs : Bytes} (hn : n < 2 ^ 32)
    (h : At r (writeInt32 (BitVec.ofNat 32 n) 0 ++ bs)) :
    TarsInputStream.readSize skip (rounds + 1) r =
      if n > r.bufLen then
        .thrown .invalidValue (r.advance (writeInt32 (BitVec.ofNat 32 n) 0).length)
      else .ok n (r.advance (writeInt32 (BitVec.ofNat 32 n) 0).length) := by
  have hnat : (BitVec.ofNat 32 n).toNat = n := by
    rw [BitVec.toNat_ofNat]
    omega
  rw [TarsInputStream.readSize, bind_of_ok (reads_readUInt32 _ r _ h), bind_of_ok (ask_apply _ _),
    hnat, BufferReader.bufLen_advance]
  split <;> rfl

/-- The size of a container is read, if what follows it has at least as many bytes. -/
theorem Reads.readSize {f : ℕ → Decode α} {n : ℕ} {bs : Bytes} {v : α} (hn : n < 2 ^ 32)
    (hbs : n ≤ bs.length) (hf : Reads (f n) bs v) :
    Reads (TarsInputStream.readSize skip (rounds + 1) >>= f)
      (writeInt32 (BitVec.ofNat 32 n) 0 ++ bs) v := by
  intro r rest h
  have hcur := h.cur_add_le
  rw [List.append_assoc] at h
  have hsize : TarsInputStream.readSize skip (rounds + 1) r = _ := At.readSize hn h
  simp only [List.length_append] at hcur
  rw [if_neg (by omega)] at hsize
  rw [bind_of_ok hsize, hf _ _ h.advance, BufferReader.advance_advance, List.length_append]

/-- The elements of a vector are read over its old ones. -/
theorem reads_readEach {read : α → Decode α} {bytes : α → Bytes} (xs : List α) :
    ∀ olds : List α, olds.length = xs.length → (∀ x ∈ xs, ∀ old, Reads (read old) (bytes x) x) →
      Reads (readEach read olds) (xs.flatMap bytes) xs := by
  induction xs with
  | nil =>
    intro olds hlength _
    rw [List.length_eq_zero_iff.mp hlength]
    exact Reads.pure []
  | cons x xs ih =>
    intro olds hlength hread
    cases olds with
    | nil => exact absurd hlength (by simp)
    | cons old olds =>
      have hrest := ih olds (by simpa using hlength) fun y hy => hread y (List.mem_cons_of_mem _ hy)
      rw [readEach, List.flatMap_cons]
      exact (hread x List.mem_cons_self old).bind (hrest.map _)

/-- A resized vector has the size that was asked for, longer or shorter than before. -/
theorem length_resize (init : α) (size : ℕ) (v : List α) : (resize init size v).length = size := by
  rw [resize, List.length_append, List.length_take, List.length_replicate]
  omega

/-- An entry that is greater than all others is inserted at the end. -/
theorem insert_of_forall {less : α → α → Bool} {entry : α × β} {m : List (α × β)}
    (h : ∀ e ∈ m, less e.1 entry.1 = true) : insert less entry m = m ++ [entry] := by
  induction m with
  | nil => rfl
  | cons e m ih =>
    rw [TarsInputStream.insert, if_pos (h e List.mem_cons_self),
      ih fun d hd => h d (List.mem_cons_of_mem _ hd)]
    rfl

/-- The entries of a map are read one after the other. -/
theorem reads_readEntries {less : α → α → Bool} {read : Decode (α × β)} {bytes : α × β → Bytes}
    (xs : List (α × β)) : ∀ m : List (α × β),
      (m ++ xs).Pairwise (fun d e => less d.1 e.1 = true) → (∀ e ∈ xs, Reads read (bytes e) e) →
        Reads (readEntries less read xs.length m) (xs.flatMap bytes) (m ++ xs) := by
  induction xs with
  | nil =>
    intro m _ _
    rw [List.append_nil]
    exact Reads.pure m
  | cons e xs ih =>
    intro m hsorted hread
    have hlast : ∀ d ∈ m, less d.1 e.1 = true := fun d hd =>
      (List.pairwise_append.mp hsorted).2.2 d hd e List.mem_cons_self
    rw [List.append_cons] at hsorted ⊢
    have hrest := ih (m ++ [e]) hsorted fun d hd => hread d (List.mem_cons_of_mem _ hd)
    rw [List.length_cons, readEntries, List.flatMap_cons]
    refine (hread e List.mem_cons_self).bind ?_
    rwa [insert_of_forall hlast]

/-- A vector of bytes is read back, whatever the member held before. -/
theorem reads_readBytes (v old : Bytes) (hv : v.length < 2 ^ 32) (tag : UInt8) (isRequire : Bool) :
    Reads (readBytes skip (rounds + 1) old tag isRequire) (writeBytes v tag) v := by
  rw [writeBytes, List.append_assoc, List.append_assoc]
  refine Reads.readField (by decide) ?_
  refine (Reads.readFromHead .char 0).bind ?_
  exact Reads.readSize hv le_rfl (Reads.readBuf rfl)

/-- A string that was written is read back, with one or with four bytes for its length. -/
theorem reads_readString {s bs : Bytes} {tag : UInt8} (hs : writeString s tag = .ok bs)
    (old : Bytes) (isRequire : Bool) :
    Reads (readString skip (rounds + 1) old tag isRequire) bs s := by
  have hmax : maxStringLength = 104857600 := rfl
  obtain ⟨-, hlimit, rfl⟩ | ⟨hshort, rfl⟩ := writeString_cases hs
  · refine Reads.readField (by decide) ?_
    refine (Reads.readTypeBuf (length_netBytes 4 s.length)).bind ?_
    rw [htonl_load_toNat (by omega)]
    show Reads (if s.length > maxStringLength then _ else _) s s
    rw [if_neg (by omega)]
    exact Reads.readTypeBuf rfl
  · refine Reads.readField (by decide) ?_
    have hload : load (store 1 s.length) = s.length := by
      rw [load_store, Nat.mod_eq_of_lt (by omega)]
    refine (Reads.readTypeBuf (length_store 1 s.length)).bind ?_
    rw [hload]
    exact Reads.readTypeBuf rfl

end Fields

/-! ### All types -/

section Read

variable {types : Codegen} {guard : Bool} {fuel : ℕ}

/-- The end of a structure is skipped: the loop finds it at once and stops behind it. -/
theorem reads_skipToStructEnd :
    Reads (skipToStructEnd (skipField guard (fuel + 1)) (fuel + 1)) (writeToHead .structEnd 0)
      () := by
  have h : Reads (skipToStructEnd (skipField guard (fuel + 1)) (fuel + 1))
      (writeToHead .structEnd 0 ++ ([] ++ [])) () :=
    (Reads.readFromHeadNoTag .structEnd 0).bind ((Reads.pure ()).bind (Reads.pure ()))
  rwa [List.append_nil, List.append_nil] at h

mutual

/-- **What has been written is read back**, whatever the target had before. -/
theorem reads_write : (t : Ty) → (v : t.denote) → t.Limited types.less (· < 2 ^ 32) v →
    (tag : UInt8) → (bs : Bytes) → write t v tag = .ok bs → (old : t.denote) →
      (isRequire : Bool) → Reads (read types guard (fuel + 1) t old tag isRequire) bs v
  | .bool, b, _, tag, bs, h, old, isRequire => by
    have hb : (if b then 1 else 0 : BitVec 8).toInt = if b then 1 else 0 := by cases b <;> rfl
    rw [write, writeBool, writeChar_eq, hb] at h
    rw [← Except.ok.inj h]
    exact reads_readBool b old tag isRequire
  | .int k, n, _, tag, bs, h, old, isRequire => by
    rw [write, writeInt_eq] at h
    rw [← Except.ok.inj h]
    exact reads_readInt k n old tag isRequire
  | .float, n, _, tag, bs, h, old, isRequire => by
    rw [write, writeFloat, store_htonl] at h
    rw [← Except.ok.inj h]
    exact reads_readFloat n old tag isRequire
  | .double, n, _, tag, bs, h, old, isRequire => by
    rw [write, writeDouble, store_tarsHtonll] at h
    rw [← Except.ok.inj h]
    exact reads_readDouble n old tag isRequire
  | .string, s, _, tag, bs, h, old, isRequire => reads_readString h old isRequire
  | .bytes, v, hv, tag, bs, h, old, isRequire => by
    rw [write] at h
    rw [← Except.ok.inj h]
    exact reads_readBytes v old hv tag isRequire
  | .vector t, v, ⟨hlength, hall⟩, tag, bs, h, old, isRequire => by
    obtain ⟨hok, rfl⟩ := write_vector_ok h
    have hread : ∀ x ∈ v, ∀ y, Reads (read types guard (fuel + 1) t y 0 true)
        (written (write t x 0)) x :=
      fun x hx y => reads_write t x (hall x hx) 0 _ (hok x hx) y true
    rw [TarsInputStream.read, List.append_assoc]
    refine Reads.readField (by decide) ?_
    refine Reads.readSize hlength ?_ ?_
    · exact length_le_length_flatMap fun x hx => write_ne_nil (hok x hx)
    · exact reads_readEach v _ (length_resize _ _ _) hread
  | .map k v, m, ⟨hlength, hsorted, hall⟩, tag, bs, h, old, isRequire => by
    obtain ⟨hok, rfl⟩ := write_map_ok h
    have hread : ∀ e ∈ m, Reads (do
        let key ← read types guard (fuel + 1) k (types.init k) 0 true
        let value ← read types guard (fuel + 1) v (types.init v) 1 true
        Pure.pure (key, value)) (written (writeEntry k v e)) e := by
      intro e he
      obtain ⟨key, value, hkey, hvalue, hbs⟩ := writeEntry_ok (hok e he)
      rw [hbs]
      exact (reads_write k e.1 (hall e he).1 0 key hkey _ true).bind
        ((reads_write v e.2 (hall e he).2 1 value hvalue _ true).map fun value => (e.1, value))
    rw [TarsInputStream.read, List.append_assoc]
    refine Reads.readField (by decide) ?_
    refine Reads.readSize hlength ?_ ?_
    · exact length_le_length_flatMap fun e he => writeEntry_ne_nil (hok e he)
    · exact reads_readEntries m [] hsorted hread
  | .struct fs, s, hs, tag, bs, h, old, isRequire => by
    rw [write] at h
    obtain ⟨fields, hfields, h⟩ := bind_eq_ok h
    rw [← Except.ok.inj h, TarsInputStream.read, List.append_assoc]
    refine Reads.readField (by decide) ?_
    exact (reads_writeTo fs s hs fields hfields _).bind (reads_skipToStructEnd.map fun _ => s)

/-- What has been written by `writeTo` is read back by `readFrom`. -/
theorem reads_writeTo : (fs : Fields) → (s : fs.denote) → fs.Limited types.less (· < 2 ^ 32) s →
    (bs : Bytes) → writeTo fs s = .ok bs → (old : fs.denote) →
      Reads (readFrom types guard (fuel + 1) fs old) bs s
  | .nil, (), _, bs, h, () => by
    rw [← Except.ok.inj h]
    exact Reads.pure ()
  | .cons tag isRequire t fs, (v, vs), ⟨hv, hvs⟩, bs, h, (old, olds) => by
    rw [writeTo] at h
    obtain ⟨field, hfield, h⟩ := bind_eq_ok h
    obtain ⟨rest, hrest, h⟩ := bind_eq_ok h
    rw [← Except.ok.inj h]
    exact (reads_write t v hv tag field hfield old isRequire).bind
      ((reads_writeTo fs vs hvs rest hrest olds).map fun vs => (v, vs))

end

/-- What has been encoded is read back, by induction over the type and with one case for each
reader. -/
theorem reads_read (t : Ty) (v : t.denote) (hv : t.Valid types.less v) (old : t.denote)
    (tag : UInt8) (isRequire : Bool) :
    Reads (read types guard (fuel + 1) t old tag isRequire) (encode t v tag) v :=
  reads_write t v (Ty.Valid.limited t v hv) tag _ (write_eq t v tag hv) old isRequire

end Read

/-! ### A buffer of its own -/

/-- Whether reading from a buffer that holds exactly these bytes gives the value, with the cursor
at the end, whatever the target had before and however much fuel there is. -/
def ReadsBack (types : Codegen) (t : Ty) (v : t.denote) (tag : UInt8) (bs : Bytes) : Prop :=
  ∀ fuel old isRequire, read types false (fuel + 1) t old tag isRequire (.setBuffer bs bs.length) =
    .ok v ⟨bs, bs.length, bs.length, false⟩

/-- A decoder that reads exactly the bytes of a buffer ends at its end. -/
theorem Reads.setBuffer {α : Type} {m : Decode α} {bs : Bytes} {v : α} (h : Reads m bs v)
    (hfits : bs.length < 2 ^ 63) :
    m (.setBuffer bs bs.length) = .ok v ⟨bs, bs.length, bs.length, false⟩ := by
  have hat : At (.setBuffer bs bs.length) (bs ++ []) := by
    rw [List.append_nil]
    exact At.setBuffer hfits
  have hend : (BufferReader.setBuffer bs bs.length).advance bs.length =
      ⟨bs, bs.length, bs.length, false⟩ := by
    rw [BufferReader.setBuffer, BufferReader.advance, Nat.zero_add]
  rw [h _ _ hat, hend]

/-- The integers of a type fit every wider signed type. -/
theorem IntKind.toInt_ofInt_of_width_lt {k l : IntKind} (n : BitVec k.width)
    (hsigned : l.signed = true) (hwidth : k.width < l.width) :
    l.toInt (BitVec.ofInt l.width (k.toInt n)) = k.toInt n := by
  have hpos : 0 < k.width := by cases k <;> decide
  have hpow : (2 : ℤ) ^ k.width ≤ 2 ^ (l.width - 1) :=
    pow_le_pow_right₀ (by decide) (by omega)
  have hhalf : (2 : ℤ) ^ (k.width - 1) ≤ 2 ^ k.width := pow_le_pow_right₀ (by decide) (by omega)
  have hrange : -2 ^ k.width ≤ k.toInt n ∧ k.toInt n < 2 ^ k.width := by
    rw [IntKind.toInt]
    split
    · have hlo := n.le_toInt
      have hhi := n.toInt_lt
      omega
    · have hhi : (n.toNat : ℤ) < 2 ^ k.width := by exact_mod_cast n.isLt
      omega
  rw [IntKind.toInt, if_pos hsigned]
  exact BitVec.toInt_ofInt_eq_self (by omega) (by omega) (by omega)

/-- **The round trip**: `read` gives back what `write` wrote, and every wider signed integer type
reads the integers of the narrower ones. -/
theorem read_write (types : Codegen) (tag : UInt8) :
    (∀ (t : Ty) (v : t.denote), t.Valid types.less v →
      ∃ bs, write t v tag = .ok bs ∧ (bs.length < 2 ^ 63 → ReadsBack types t v tag bs)) ∧
    ∀ (k l : IntKind) (n : BitVec k.width), l.signed = true → k.width < l.width →
      ∃ (bs : Bytes) (m : BitVec l.width), write (.int k) n tag = .ok bs ∧
        l.toInt m = k.toInt n ∧ ReadsBack types (.int l) m tag bs := by
  constructor
  · intro t v hv
    refine ⟨encode t v tag, write_eq t v tag hv, ?_⟩
    intro hfits fuel old isRequire
    exact (reads_read t v hv old tag isRequire).setBuffer hfits
  · intro k l n hsigned hwidth
    have hm := IntKind.toInt_ofInt_of_width_lt n hsigned hwidth
    refine ⟨encodeInteger (k.toInt n) tag, BitVec.ofInt l.width (k.toInt n), ?_, hm, ?_⟩
    · rw [write, writeInt_eq]
    · intro fuel old isRequire
      have hfits : (encodeInteger (k.toInt n) tag).length < 2 ^ 63 := by
        have hhead := headLen_le tag
        rw [length_encodeInteger]
        rcases integerSize_cases (k.toInt n) with h | h | h | h | h <;> omega
      have hread : Reads (read types false (fuel + 1) (.int l) old tag isRequire)
          (encodeInteger (l.toInt (BitVec.ofInt l.width (k.toInt n))) tag)
          (BitVec.ofInt l.width (k.toInt n)) := reads_readInt l _ old tag isRequire
      rw [hm] at hread
      exact hread.setBuffer hfits

/-- A structure with a map from strings to vectors, a negative integer and bytes. -/
private abbrev sampleType : Ty :=
  .struct (.cons 1 true (.map .string (.vector (.int .int32)))
    (.cons 2 true (.int .short) (.cons 20 false .bytes .nil)))

/-- A value of the type: a map with a vector of two integers and an empty one, a negative integer,
and three bytes. -/
private abbrev sampleValue : sampleType.denote :=
  ([([97], [1, 70000]), ([98], [])], -300, [1, 2, 3], ())

/-- The round trip of a structure with a map, a vector in it, and bytes. -/
theorem read_write_sample : ∃ bs, write sampleType sampleValue 200 = .ok bs ∧
    bs.length = 35 ∧ ReadsBack plainTypes sampleType sampleValue 200 bs := by
  have hvalid : sampleType.Valid plainTypes.less sampleValue := by
    have hentries : ∀ e ∈ sampleValue.1, Ty.string.Valid plainTypes.less e.1 ∧
        (Ty.vector (.int .int32)).Valid plainTypes.less e.2 := by
      intro e he
      rcases List.mem_pair.mp he with rfl | rfl <;> simp [Ty.Valid, maxStringLength]
    have hbytes : Ty.bytes.Valid plainTypes.less [1, 2, 3] := by simp [Ty.Valid]
    exact ⟨⟨by decide, by decide, hentries⟩, trivial, hbytes, trivial⟩
  obtain ⟨bs, hbs, hback⟩ := (read_write plainTypes 200).1 sampleType sampleValue hvalid
  have hlength : bs.length = 35 := by
    have hencode := write_eq sampleType sampleValue 200 hvalid
    rw [hbs] at hencode
    rw [Except.ok.inj hencode]
    decide
  exact ⟨bs, hbs, hlength, hback (by omega)⟩

end Tars
