import Tars.Tup.Output

/-!
# The encoding of a value

`encode` says what the bytes of a field are, without the detours of the overloads of `write`: an
integer takes as few bytes as it needs, whatever its type, and every field is a head that names
the type and the tag, followed by a payload that does not depend on the tag.
-/

namespace Tars

open LittleEndian TarsOutputStream

/-- The number of bytes that an integer needs behind its head: 0, 1, 2, 4 or 8. -/
def integerSize (z : ℤ) : ℕ :=
  if z = 0 then 0
  else if -2 ^ 7 ≤ z ∧ z < 2 ^ 7 then 1
  else if -2 ^ 15 ≤ z ∧ z < 2 ^ 15 then 2
  else if -2 ^ 31 ≤ z ∧ z < 2 ^ 31 then 4
  else 8

/-- The head type of integers of a size, which tells the reader how many bytes to read. -/
def integerType : ℕ → HeadType
  | 0 => .zeroTag
  | 1 => .char
  | 2 => .short
  | 4 => .int32
  | _ => .int64

/-- The bytes of an integer in network order, as few of them as its value needs. -/
def integerPayload (z : ℤ) : Bytes :=
  netBytes (integerSize z) (BitVec.ofInt (8 * integerSize z) z).toNat

/-- The field that is written for an integer: its head and its bytes. -/
def encodeInteger (z : ℤ) (tag : UInt8) : Bytes :=
  writeToHead (integerType (integerSize z)) tag ++ integerPayload z

/-- The head type that is written for a value. It depends on the value where integers are narrowed,
zero has no bytes, and short texts have a type of their own. -/
def wireType : (t : Ty) → t.denote → HeadType
  | .bool, b => integerType (integerSize (if b then 1 else 0))
  | .int k, n => integerType (integerSize (k.toInt n))
  | .float, _ => .float
  | .double, _ => .double
  | .string, s => if s.length > 255 then .string4 else .string1
  | .bytes, _ => .simpleList
  | .vector _, _ => .list
  | .map _ _, _ => .map
  | .struct _, _ => .structBegin

mutual

/-- The bytes of a value behind its head, by recursion over the type. -/
def payload : (t : Ty) → t.denote → Bytes
  | .bool, b => integerPayload (if b then 1 else 0)
  | .int k, n => integerPayload (k.toInt n)
  | .float, n => netBytes 4 n.toNat
  | .double, n => netBytes 8 n.toNat
  | .string, s => netBytes (if s.length > 255 then 4 else 1) s.length ++ s
  | .bytes, v => writeToHead .char 0 ++ encodeInteger v.length 0 ++ v
  | .vector t, v => encodeInteger v.length 0 ++
    v.flatMap fun x => writeToHead (wireType t x) 0 ++ payload t x
  | .map k v, m => encodeInteger m.length 0 ++
    m.flatMap fun e => (writeToHead (wireType k e.1) 0 ++ payload k e.1) ++
      (writeToHead (wireType v e.2) 1 ++ payload v e.2)
  | .struct fs, s => encodeFields fs s ++ writeToHead .structEnd 0

/-- The fields of a structure one after the other, without the heads that enclose the structure. -/
def encodeFields : (fs : Fields) → fs.denote → Bytes
  | .nil, _ => []
  | .cons tag _ t fs, (v, vs) => writeToHead (wireType t v) tag ++ payload t v ++ encodeFields fs vs

end

/-- The field that is written for a value: its head and its payload. -/
def encode (t : Ty) (v : t.denote) (tag : UInt8) : Bytes :=
  writeToHead (wireType t v) tag ++ payload t v

mutual

/-- The values that can be written and read back: containers have less than `2 ^ 31` elements,
strings respect the limit, and the entries of maps are in order. -/
def Ty.Valid (less : (t : Ty) → t.denote → t.denote → Bool) : (t : Ty) → t.denote → Prop
  | .bool, _ => True
  | .int _, _ => True
  | .float, _ => True
  | .double, _ => True
  | .string, s => s.length ≤ maxStringLength
  | .bytes, v => v.length < 2 ^ 31
  | .vector t, v => v.length < 2 ^ 31 ∧ ∀ x ∈ v, t.Valid less x
  | .map k v, m => m.length < 2 ^ 31 ∧ m.Pairwise (fun d e => less k d.1 e.1 = true) ∧
    ∀ e ∈ m, k.Valid less e.1 ∧ v.Valid less e.2
  | .struct fs, s => fs.Valid less s

/-- The structures that can be written and read back. -/
def Fields.Valid (less : (t : Ty) → t.denote → t.denote → Bool) : (fs : Fields) → fs.denote → Prop
  | .nil, _ => True
  | .cons _ _ t fs, (v, vs) => t.Valid less v ∧ fs.Valid less vs

end

mutual

/-- The values whose maps are in order and all whose containers have a number of elements that
fits. -/
def Ty.Limited (less : (t : Ty) → t.denote → t.denote → Bool) (Fits : ℕ → Prop) :
    (t : Ty) → t.denote → Prop
  | .bool, _ => True
  | .int _, _ => True
  | .float, _ => True
  | .double, _ => True
  | .string, _ => True
  | .bytes, v => Fits v.length
  | .vector t, v => Fits v.length ∧ ∀ x ∈ v, t.Limited less Fits x
  | .map k v, m => Fits m.length ∧ m.Pairwise (fun d e => less k d.1 e.1 = true) ∧
    ∀ e ∈ m, k.Limited less Fits e.1 ∧ v.Limited less Fits e.2
  | .struct fs, s => fs.Limited less Fits s

/-- The structures whose maps are in order and all whose containers fit. -/
def Fields.Limited (less : (t : Ty) → t.denote → t.denote → Bool) (Fits : ℕ → Prop) :
    (fs : Fields) → fs.denote → Prop
  | .nil, _ => True
  | .cons _ _ t fs, (v, vs) => t.Limited less Fits v ∧ fs.Limited less Fits vs

end

mutual

/-- A value that respects the limits of the statements about encodings respects them for sizes below
2^32. -/
theorem Ty.Valid.limited {less : (t : Ty) → t.denote → t.denote → Bool} :
    (t : Ty) → (v : t.denote) → t.Valid less v → t.Limited less (· < 2 ^ 32) v
  | .bool, _, _ => trivial
  | .int _, _, _ => trivial
  | .float, _, _ => trivial
  | .double, _, _ => trivial
  | .string, _, _ => trivial
  | .bytes, v, h => by
    have hlength : v.length < 2 ^ 31 := h
    show v.length < 2 ^ 32
    omega
  | .vector t, v, ⟨hlength, hall⟩ =>
    ⟨by omega, fun x hx => Ty.Valid.limited t x (hall x hx)⟩
  | .map k v, m, ⟨hlength, hsorted, hall⟩ =>
    ⟨by omega, hsorted, fun e he =>
      ⟨Ty.Valid.limited k e.1 (hall e he).1, Ty.Valid.limited v e.2 (hall e he).2⟩⟩
  | .struct fs, s, h => Fields.Valid.limited fs s h

/-- The same for the fields of a structure, by a mutual recursion with `Ty.Valid.limited`. -/
theorem Fields.Valid.limited {less : (t : Ty) → t.denote → t.denote → Bool} :
    (fs : Fields) → (s : fs.denote) → fs.Valid less s → fs.Limited less (· < 2 ^ 32) s
  | .nil, _, _ => trivial
  | .cons _ _ t fs, (v, vs), ⟨hv, hvs⟩ =>
    ⟨Ty.Valid.limited t v hv, Fields.Valid.limited fs vs hvs⟩

end

/-! ### Integers -/

/-- The size of an integer that fits a signed type. -/
theorem integerSize_le {z : ℤ} {k : ℕ} (hk : k = 1 ∨ k = 2 ∨ k = 4 ∨ k = 8)
    (hlo : -2 ^ (8 * k - 1) ≤ z) (hhi : z < 2 ^ (8 * k - 1)) : integerSize z ≤ k := by
  unfold integerSize
  rcases hk with rfl | rfl | rfl | rfl <;> norm_num at hlo hhi ⊢ <;> repeat' split
  all_goals omega

/-- A signed integer takes no more bytes than its type. -/
theorem integerSize_toInt_le {k : ℕ} (hk : k = 1 ∨ k = 2 ∨ k = 4 ∨ k = 8) (n : BitVec (8 * k)) :
    integerSize n.toInt ≤ k :=
  integerSize_le hk n.le_toInt n.toInt_lt

/-- The field of a signed integer that needs all its bytes. -/
theorem encodeInteger_of_size {w k : ℕ} (hw : w = 8 * k) (n : BitVec w) (tag : UInt8)
    (hsize : integerSize n.toInt = k) :
    encodeInteger n.toInt tag = writeToHead (integerType k) tag ++ netBytes k n.toNat := by
  subst hw
  rw [encodeInteger, integerPayload, hsize, BitVec.ofInt_toInt]

/-- A `Char` takes at most one byte behind its head, as the encoding of its value does. -/
theorem writeChar_eq (n : BitVec 8) (tag : UInt8) :
    writeChar n tag = encodeInteger n.toInt tag := by
  have hlo := n.le_toInt
  have hhi := n.toInt_lt
  norm_num at hlo hhi
  rw [writeChar]
  by_cases hn : n = 0
  · subst hn
    have hsize : integerSize (0 : BitVec 8).toInt = 0 := by decide
    rw [if_pos rfl, encodeInteger, integerPayload, hsize]
    exact (List.append_nil _).symm
  · have hz : n.toInt ≠ 0 := by
      intro hz
      exact hn (BitVec.eq_of_toInt_eq (by simpa using hz))
    have hsize : integerSize n.toInt = 1 := by
      unfold integerSize
      rw [if_neg hz, if_pos (by omega)]
    rw [if_neg hn, encodeInteger_of_size (k := 1) rfl n tag hsize]
    rfl

/-- Narrowing keeps the value of a signed integer that fits the narrower type. -/
theorem toInt_setWidth {w v : ℕ} (n : BitVec w) (hv : 0 < v) (hvw : v ≤ w)
    (hlo : -2 ^ (v - 1) ≤ n.toInt) (hhi : n.toInt < 2 ^ (v - 1)) :
    (n.setWidth v).toInt = n.toInt := by
  rw [← BitVec.signExtend_eq_setWidth_of_le n hvw, BitVec.signExtend,
    BitVec.toInt_ofInt_eq_self hv hlo hhi]

/-- Widening an unsigned integer into a wider signed type keeps its value. -/
theorem toInt_setWidth_of_lt {w v : ℕ} (n : BitVec w) (hwv : w < v) :
    (n.setWidth v).toInt = n.toNat := by
  have hlt := n.isLt
  have hpow : 2 * 2 ^ w ≤ 2 ^ v := by
    rw [← Nat.pow_succ']
    exact Nat.pow_le_pow_right (by decide) hwv
  have hnat : (n.setWidth v).toNat = n.toNat := by
    rw [BitVec.toNat_setWidth, Nat.mod_eq_of_lt (by omega)]
  rw [BitVec.toInt_eq_toNat_of_lt (by omega), hnat]

/-- A `Short` takes as few bytes as it needs. -/
theorem writeShort_eq (n : BitVec 16) (tag : UInt8) :
    writeShort n tag = encodeInteger n.toInt tag := by
  have hlo := n.le_toInt
  have hhi := n.toInt_lt
  norm_num at hlo hhi
  rw [writeShort]
  split
  · rename_i hrange
    rw [writeChar_eq, toInt_setWidth n (by decide) (by decide) (by norm_num; omega)
      (by norm_num; omega)]
  · rename_i hrange
    have hsize : integerSize n.toInt = 2 := by
      unfold integerSize
      rw [if_neg (by omega), if_neg (by omega), if_pos (by omega)]
    rw [encodeInteger_of_size (k := 2) rfl n tag hsize, store_htons]
    rfl

/-- An `Int32` takes as few bytes as it needs. -/
theorem writeInt32_eq (n : BitVec 32) (tag : UInt8) :
    writeInt32 n tag = encodeInteger n.toInt tag := by
  have hlo := n.le_toInt
  have hhi := n.toInt_lt
  norm_num at hlo hhi
  rw [writeInt32]
  split
  · rename_i hrange
    rw [writeShort_eq, toInt_setWidth n (by decide) (by decide) (by norm_num; omega)
      (by norm_num; omega)]
  · rename_i hrange
    have hsize : integerSize n.toInt = 4 := by
      unfold integerSize
      rw [if_neg (by omega), if_neg (by omega), if_neg (by omega), if_pos (by omega)]
    rw [encodeInteger_of_size (k := 4) rfl n tag hsize, store_htonl]
    rfl

/-- An `Int64` takes as few bytes as it needs. -/
theorem writeInt64_eq (n : BitVec 64) (tag : UInt8) :
    writeInt64 n tag = encodeInteger n.toInt tag := by
  rw [writeInt64]
  split
  · rename_i hrange
    rw [writeInt32_eq, toInt_setWidth n (by decide) (by decide) (by norm_num; omega)
      (by norm_num; omega)]
  · rename_i hrange
    have hsize : integerSize n.toInt = 8 := by
      unfold integerSize
      rw [if_neg (by omega), if_neg (by omega), if_neg (by omega), if_neg (by omega)]
    rw [encodeInteger_of_size (k := 8) rfl n tag hsize, store_tarsHtonll]
    rfl

/-- **Integers of all types are written alike**: the field depends on the value and not on the type,
so a narrow field is read into a wide member. -/
theorem writeInt_eq (k : IntKind) (n : BitVec k.width) (tag : UInt8) :
    writeInt k n tag = encodeInteger (k.toInt n) tag := by
  cases k with
  | char => exact writeChar_eq n tag
  | short => exact writeShort_eq n tag
  | int32 => exact writeInt32_eq n tag
  | int64 => exact writeInt64_eq n tag
  | uint8 =>
    have hwide := toInt_setWidth_of_lt n (v := 16) (by decide)
    exact (writeShort_eq _ tag).trans (by rw [hwide]; rfl)
  | uint16 =>
    have hwide := toInt_setWidth_of_lt n (v := 32) (by decide)
    exact (writeInt32_eq _ tag).trans (by rw [hwide]; rfl)
  | uint32 =>
    have hwide := toInt_setWidth_of_lt n (v := 64) (by decide)
    exact (writeInt64_eq _ tag).trans (by rw [hwide]; rfl)

/-- The length of a container as an `Int32` is written like the number itself, as long as it is not
negative. -/
theorem writeInt32_length {n : ℕ} (hn : n < 2 ^ 31) (tag : UInt8) :
    writeInt32 (BitVec.ofNat 32 n) tag = encodeInteger n tag := by
  have hnat : (BitVec.ofNat 32 n).toNat = n := by
    rw [BitVec.toNat_ofNat]
    omega
  rw [writeInt32_eq, BitVec.toInt_eq_toNat_of_lt (by omega), hnat]

/-! ### All types -/

/-- Elements that can all be written are written one after the other. -/
theorem writeEach_eq {α : Type} {write : α → Except TarsException Bytes} {bytes : α → Bytes}
    {xs : List α} (h : ∀ x ∈ xs, write x = .ok (bytes x)) :
    writeEach write xs = .ok (xs.flatMap bytes) := by
  induction xs with
  | nil => rfl
  | cons x xs ih =>
    rw [writeEach, h x List.mem_cons_self, ih fun y hy => h y (List.mem_cons_of_mem _ hy)]
    rfl

/-- The bytes that were written, if nothing was thrown. -/
def written : Except TarsException Bytes → Bytes
  | .ok bs => bs
  | .error _ => []

/-- Where one write after another has succeeded, both have. -/
theorem bind_eq_ok {α β ε : Type} {m : Except ε α} {f : α → Except ε β} {y : β}
    (h : m >>= f = .ok y) : ∃ x, m = .ok x ∧ f x = .ok y := by
  cases m with
  | ok x => exact ⟨x, rfl, h⟩
  | error e => cases h

/-- A loop that has succeeded wrote each element, and its bytes are theirs one after the other. -/
theorem writeEach_ok {α : Type} {write : α → Except TarsException Bytes} {xs : List α}
    {bs : Bytes} (h : writeEach write xs = .ok bs) :
    (∀ x ∈ xs, write x = .ok (written (write x))) ∧
      bs = xs.flatMap fun x => written (write x) := by
  induction xs generalizing bs with
  | nil => exact ⟨fun _ hx => absurd hx List.not_mem_nil, (Except.ok.inj h).symm⟩
  | cons x xs ih =>
    rw [writeEach] at h
    obtain ⟨front, hfront, h⟩ := bind_eq_ok h
    obtain ⟨back, hback, h⟩ := bind_eq_ok h
    obtain rfl : front ++ back = bs := Except.ok.inj h
    obtain ⟨hall, rfl⟩ := ih hback
    have hx : write x = .ok (written (write x)) := by rw [hfront, written]
    constructor
    · intro y hy
      rcases List.mem_cons.mp hy with rfl | hy
      · exact hx
      · exact hall y hy
    · rw [List.flatMap_cons, hfront, written]

/-- What `writeString` writes if it does not throw: the text behind its length, which takes four
bytes from 256 on. -/
theorem writeString_cases {s bs : Bytes} {tag : UInt8} (h : writeString s tag = .ok bs) :
    (255 < s.length ∧ s.length ≤ maxStringLength ∧
      bs = writeToHead .string4 tag ++ (netBytes 4 s.length ++ s)) ∨
    (s.length ≤ 255 ∧ bs = writeToHead .string1 tag ++ (store 1 s.length ++ s)) := by
  have hmax : maxStringLength = 104857600 := rfl
  rw [writeString] at h
  split at h
  · rename_i hlong
    split at h
    · cases h
    · rename_i hlimit
      have hlt : s.length < 2 ^ 32 := by omega
      rw [store_htonl_ofNat hlt, List.append_assoc] at h
      exact .inl ⟨hlong, by omega, (Except.ok.inj h).symm⟩
  · rename_i hshort
    rw [List.append_assoc] at h
    exact .inr ⟨by omega, (Except.ok.inj h).symm⟩

/-- A head has at least one byte, so no field is empty. -/
theorem writeToHead_ne_nil (type : HeadType) (tag : UInt8) : writeToHead type tag ≠ [] := by
  rw [writeToHead]
  split <;> exact List.cons_ne_nil _ _

/-- An encoded field is not empty, because it begins with a head. -/
theorem encode_ne_nil (t : Ty) (v : t.denote) (tag : UInt8) : encode t v tag ≠ [] :=
  List.append_ne_nil_of_left_ne_nil (writeToHead_ne_nil (wireType t v) tag) (payload t v)

/-- Everything that is written has a head, so every field takes at least one byte. -/
theorem write_ne_nil {t : Ty} {v : t.denote} {tag : UInt8} {bs : Bytes}
    (h : write t v tag = .ok bs) : bs ≠ [] := by
  have hfront {type : HeadType} {cs ds : Bytes} (hbs : writeToHead type tag ++ cs ++ ds = bs) :
      bs ≠ [] := by
    rw [← hbs, List.append_assoc]
    exact List.append_ne_nil_of_left_ne_nil (writeToHead_ne_nil type tag) _
  cases t with
  | bool =>
    rw [write, writeBool, writeChar_eq, encodeInteger] at h
    exact hfront ((List.append_nil _).trans (Except.ok.inj h))
  | int k =>
    rw [write, writeInt_eq, encodeInteger] at h
    exact hfront ((List.append_nil _).trans (Except.ok.inj h))
  | float =>
    rw [write, writeFloat] at h
    exact hfront ((List.append_nil _).trans (Except.ok.inj h))
  | double =>
    rw [write, writeDouble] at h
    exact hfront ((List.append_nil _).trans (Except.ok.inj h))
  | string =>
    rw [write] at h
    obtain ⟨-, -, rfl⟩ | ⟨-, rfl⟩ := writeString_cases h
    · exact hfront (List.append_assoc _ _ _)
    · exact hfront (List.append_assoc _ _ _)
  | bytes =>
    rw [write, writeBytes, List.append_assoc] at h
    rw [List.append_assoc, ← List.append_assoc] at h
    exact hfront (Except.ok.inj h)
  | vector t =>
    rw [write] at h
    obtain ⟨elements, _, h⟩ := bind_eq_ok h
    exact hfront (Except.ok.inj h)
  | map k v =>
    rw [write] at h
    obtain ⟨entries, _, h⟩ := bind_eq_ok h
    exact hfront (Except.ok.inj h)
  | struct fs =>
    rw [write] at h
    obtain ⟨fields, _, h⟩ := bind_eq_ok h
    exact hfront (Except.ok.inj h)

/-- What is written takes at least one byte for each element of a container. -/
theorem length_le_length_flatMap {α : Type} {bytes : α → Bytes} {xs : List α}
    (h : ∀ x ∈ xs, bytes x ≠ []) : xs.length ≤ (xs.flatMap bytes).length := by
  induction xs with
  | nil => exact Nat.zero_le _
  | cons x xs ih =>
    have hx : 0 < (bytes x).length := List.length_pos_iff.mpr (h x List.mem_cons_self)
    have hxs := ih fun y hy => h y (List.mem_cons_of_mem _ hy)
    rw [List.flatMap_cons, List.length_append, List.length_cons]
    omega

/-- An element takes no more bytes than all of them. -/
theorem length_le_of_mem_flatMap {α : Type} (bytes : α → Bytes) {xs : List α} {x : α}
    (h : x ∈ xs) : (bytes x).length ≤ (xs.flatMap bytes).length := by
  induction xs with
  | nil => exact absurd h List.not_mem_nil
  | cons y ys ih =>
    rw [List.flatMap_cons, List.length_append]
    rcases List.mem_cons.mp h with rfl | h
    · exact Nat.le_add_right _ _
    · exact (ih h).trans (Nat.le_add_left _ _)

/-- Writing an entry of a map: the key with tag 0 and the value with tag 1. -/
def writeEntry (k v : Ty) (e : k.denote × v.denote) : Except TarsException Bytes := do
  let key ← write k e.1 0
  let value ← write v e.2 1
  return key ++ value

/-- What writing an entry of a map has written. -/
theorem writeEntry_ok {k v : Ty} {e : k.denote × v.denote} {bs : Bytes}
    (h : writeEntry k v e = .ok bs) :
    ∃ key value, write k e.1 0 = .ok key ∧ write v e.2 1 = .ok value ∧ bs = key ++ value := by
  obtain ⟨key, hkey, h⟩ := bind_eq_ok h
  obtain ⟨value, hvalue, h⟩ := bind_eq_ok h
  exact ⟨key, value, hkey, hvalue, (Except.ok.inj h).symm⟩

/-- An entry of a map takes at least one byte. -/
theorem writeEntry_ne_nil {k v : Ty} {e : k.denote × v.denote} {bs : Bytes}
    (h : writeEntry k v e = .ok bs) : bs ≠ [] := by
  obtain ⟨key, value, hkey, _, rfl⟩ := writeEntry_ok h
  exact List.append_ne_nil_of_left_ne_nil (write_ne_nil hkey) _

/-- Writing a map that has succeeded wrote each entry behind the head and the size. -/
theorem write_map_ok {k v : Ty} {m : List (k.denote × v.denote)} {tag : UInt8} {bs : Bytes}
    (h : write (.map k v) m tag = .ok bs) :
    (∀ e ∈ m, writeEntry k v e = .ok (written (writeEntry k v e))) ∧
      bs = writeToHead .map tag ++ writeInt32 (BitVec.ofNat 32 m.length) 0 ++
        m.flatMap fun e => written (writeEntry k v e) := by
  rw [write] at h
  obtain ⟨entries, hentries, h⟩ := bind_eq_ok h
  obtain ⟨hok, rfl⟩ := writeEach_ok hentries
  exact ⟨hok, (Except.ok.inj h).symm⟩

/-- Writing a vector that has succeeded wrote each element behind the head and the size. -/
theorem write_vector_ok {t : Ty} {v : List t.denote} {tag : UInt8} {bs : Bytes}
    (h : write (.vector t) v tag = .ok bs) :
    (∀ x ∈ v, write t x 0 = .ok (written (write t x 0))) ∧
      bs = writeToHead .list tag ++ writeInt32 (BitVec.ofNat 32 v.length) 0 ++
        v.flatMap fun x => written (write t x 0) := by
  rw [write] at h
  obtain ⟨elements, helements, h⟩ := bind_eq_ok h
  obtain ⟨hok, rfl⟩ := writeEach_ok helements
  exact ⟨hok, (Except.ok.inj h).symm⟩

mutual

/-- **What has been written limits the sizes** of the containers in it. -/
theorem limited_of_write {less : (t : Ty) → t.denote → t.denote → Bool} {N : ℕ} :
    (t : Ty) → (v : t.denote) → (tag : UInt8) → (bs : Bytes) → t.Limited less (fun _ => True) v →
      write t v tag = .ok bs → bs.length < N → t.Limited less (· < N) v
  | .bool, _, _, _, _, _, _ => trivial
  | .int _, _, _, _, _, _, _ => trivial
  | .float, _, _, _, _, _, _ => trivial
  | .double, _, _, _, _, _, _ => trivial
  | .string, _, _, _, _, _, _ => trivial
  | .bytes, v, tag, bs, _, h, hN => by
    rw [write, writeBytes] at h
    have hlength := congrArg List.length (Except.ok.inj h)
    rw [List.length_append] at hlength
    show v.length < N
    omega
  | .vector t, v, tag, bs, ⟨_, hall⟩, h, hN => by
    obtain ⟨hok, rfl⟩ := write_vector_ok h
    have hmany := length_le_length_flatMap fun x hx => write_ne_nil (hok x hx)
    rw [List.length_append] at hN
    refine ⟨by omega, fun x hx => ?_⟩
    have hone := length_le_of_mem_flatMap (fun x => written (write t x 0)) hx
    exact limited_of_write t x 0 _ (hall x hx) (hok x hx) (by omega)
  | .map k v, m, tag, bs, ⟨_, hsorted, hall⟩, h, hN => by
    obtain ⟨hok, rfl⟩ := write_map_ok h
    have hmany := length_le_length_flatMap fun e he => writeEntry_ne_nil (hok e he)
    rw [List.length_append] at hN
    refine ⟨by omega, hsorted, fun e he => ?_⟩
    have hone := length_le_of_mem_flatMap (fun e => written (writeEntry k v e)) he
    obtain ⟨key, value, hkey, hvalue, hbs⟩ := writeEntry_ok (hok e he)
    rw [hbs, List.length_append] at hone
    exact ⟨limited_of_write k e.1 0 _ (hall e he).1 hkey (by omega),
      limited_of_write v e.2 1 _ (hall e he).2 hvalue (by omega)⟩
  | .struct fs, s, tag, bs, hs, h, hN => by
    rw [write] at h
    obtain ⟨fields, hfields, h⟩ := bind_eq_ok h
    have hlength := congrArg List.length (Except.ok.inj h)
    rw [List.length_append, List.length_append] at hlength
    exact limited_of_writeTo fs s _ hs hfields (by omega)

/-- What `writeTo` has written limits the sizes of the containers in the structure. -/
theorem limited_of_writeTo {less : (t : Ty) → t.denote → t.denote → Bool} {N : ℕ} :
    (fs : Fields) → (s : fs.denote) → (bs : Bytes) → fs.Limited less (fun _ => True) s →
      writeTo fs s = .ok bs → bs.length < N → fs.Limited less (· < N) s
  | .nil, _, _, _, _, _ => trivial
  | .cons tag _ t fs, (v, vs), bs, ⟨hv, hvs⟩, h, hN => by
    rw [writeTo] at h
    obtain ⟨field, hfield, h⟩ := bind_eq_ok h
    obtain ⟨rest, hrest, h⟩ := bind_eq_ok h
    have hlength := congrArg List.length (Except.ok.inj h)
    rw [List.length_append] at hlength
    exact ⟨limited_of_write t v tag _ hv hfield (by omega),
      limited_of_writeTo fs vs _ hvs hrest (by omega)⟩

end

mutual

/-- **`write` encodes** every value that respects the limits, and throws nothing. -/
theorem write_eq {less : (t : Ty) → t.denote → t.denote → Bool} :
    (t : Ty) → (v : t.denote) → (tag : UInt8) → t.Valid less v →
      write t v tag = .ok (encode t v tag)
  | .bool, b, tag, _ => by
    have hb : (if b then 1 else 0 : BitVec 8).toInt = if b then 1 else 0 := by cases b <;> rfl
    rw [write, writeBool, writeChar_eq, hb]
    rfl
  | .int k, n, tag, _ => by
    rw [write, writeInt_eq]
    rfl
  | .float, n, tag, _ => by
    rw [write, writeFloat, store_htonl]
    rfl
  | .double, n, tag, _ => by
    rw [write, writeDouble, store_tarsHtonll]
    rfl
  | .string, s, tag, h => by
    have hmax : s.length ≤ maxStringLength := h
    rw [write, writeString, encode, wireType, payload]
    split
    · have hnat : (BitVec.ofNat 32 s.length).toNat = s.length := by
        rw [BitVec.toNat_ofNat]
        unfold maxStringLength at hmax
        omega
      rw [if_neg (by omega), store_htonl, hnat, List.append_assoc]
    · rw [List.append_assoc]
      rfl
  | .bytes, v, tag, h => by
    rw [write, writeBytes, writeInt32_length h, encode, payload]
    simp only [wireType, List.append_assoc]
  | .vector t, v, tag, ⟨hlength, hall⟩ => by
    have hwrite := writeEach_eq fun x hx => write_eq t x 0 (hall x hx)
    rw [write, hwrite, writeInt32_length hlength, encode, payload]
    simp only [wireType, List.append_assoc]
    rfl
  | .map k v, m, tag, ⟨hlength, _, hall⟩ => by
    have hwrite : writeEach (fun e : k.denote × v.denote => do
        let key ← write k e.1 0
        let value ← write v e.2 1
        return key ++ value) m = .ok (m.flatMap fun e => encode k e.1 0 ++ encode v e.2 1) := by
      apply writeEach_eq
      intro e he
      rw [write_eq k e.1 0 (hall e he).1, write_eq v e.2 1 (hall e he).2]
      rfl
    rw [write, hwrite, writeInt32_length hlength, encode, payload]
    simp only [wireType, List.append_assoc]
    rfl
  | .struct fs, s, tag, h => by
    rw [write, writeTo_eq fs s h, encode, payload]
    simp only [wireType, ← List.append_assoc]
    rfl

/-- `writeTo` encodes the fields one after the other, in the order in which the structure declares
them. -/
theorem writeTo_eq {less : (t : Ty) → t.denote → t.denote → Bool} :
    (fs : Fields) → (s : fs.denote) → fs.Valid less s → writeTo fs s = .ok (encodeFields fs s)
  | .nil, _, _ => rfl
  | .cons tag _ t fs, (v, vs), ⟨hv, hvs⟩ => by
    rw [writeTo, write_eq t v tag hv, writeTo_eq fs vs hvs]
    rfl

end

end Tars
