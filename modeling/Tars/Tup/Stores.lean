import Tars.Tup.Encoding

/-!
# The stores of the output stream

Every `write` is a sequence of macros, each of which stores some bytes at the end of the content.
The functions below give these stores one by one, those before an exception included; together they
are the bytes of `write`.
-/

namespace Tars

namespace TarsOutputStream

open LittleEndian

/-- The stores of some writes, and the exception that ends them. -/
structure Stores where
  /-- The bytes of each store. -/
  chunks : List Bytes
  /-- The exception, if there is one. -/
  thrown : Option TarsException := none

/-- Stores, and then others unless there has been an exception. -/
def Stores.andThen (front back : Stores) : Stores :=
  match front.thrown with
  | some _ => front
  | none => ⟨front.chunks ++ back.chunks, back.thrown⟩

/-! ### The stores of each type -/

/-- `TarsWriteToHead`, which stores one byte or two, each by a store of its own. -/
def headStores (type : HeadType) (tag : UInt8) : List Bytes :=
  if tag < 15 then [[UInt8.ofNat (type.code + tag.toNat * 16)]]
  else [[UInt8.ofNat (type.code + 240)], [tag]]

/-- `write` of a `Char`, whose head and byte are stored one after the other. -/
def charStores (n : BitVec 8) (tag : UInt8) : List Bytes :=
  if n = 0 then headStores .zeroTag tag
  else headStores .char tag ++ [store 1 n.toNat]

/-- `write` of a `Bool`, which is stored as the `Char` 0 or 1. -/
def boolStores (b : Bool) (tag : UInt8) : List Bytes := charStores (if b then 1 else 0) tag

/-- `write` of a `Short`, which is stored as a `Char` where it fits one. -/
def shortStores (n : BitVec 16) (tag : UInt8) : List Bytes :=
  if n.toInt ≥ -128 ∧ n.toInt ≤ 127 then charStores (n.setWidth 8) tag
  else headStores .short tag ++ [store 2 (htons n).toNat]

/-- `write` of a `UInt8`, which is stored as a `Short`. -/
def uint8Stores (n : BitVec 8) (tag : UInt8) : List Bytes := shortStores (n.setWidth 16) tag

/-- `write` of an `Int32`, which is stored as a `Short` where it fits one. -/
def int32Stores (n : BitVec 32) (tag : UInt8) : List Bytes :=
  if n.toInt ≥ -32768 ∧ n.toInt ≤ 32767 then shortStores (n.setWidth 16) tag
  else headStores .int32 tag ++ [store 4 (htonl n).toNat]

/-- `write` of a `UInt16`, which is stored as an `Int32`. -/
def uint16Stores (n : BitVec 16) (tag : UInt8) : List Bytes := int32Stores (n.setWidth 32) tag

/-- `write` of an `Int64`, which is stored as an `Int32` where it fits one. -/
def int64Stores (n : BitVec 64) (tag : UInt8) : List Bytes :=
  if n.toInt ≥ -2147483648 ∧ n.toInt ≤ 2147483647 then int32Stores (n.setWidth 32) tag
  else headStores .int64 tag ++ [store 8 (tarsHtonll n).toNat]

/-- `write` of a `UInt32`, which is stored as an `Int64`. -/
def uint32Stores (n : BitVec 32) (tag : UInt8) : List Bytes := int64Stores (n.setWidth 64) tag

/-- `write` of an integer, the overload that belongs to its type. -/
def intStores : (k : IntKind) → BitVec k.width → UInt8 → List Bytes
  | .char => charStores
  | .uint8 => uint8Stores
  | .short => shortStores
  | .uint16 => uint16Stores
  | .int32 => int32Stores
  | .uint32 => uint32Stores
  | .int64 => int64Stores

/-- `write` of a string, which stores nothing when the string is too long. -/
def stringStores (s : Bytes) (tag : UInt8) : Stores :=
  if s.length > 255 then
    if s.length > maxStringLength then ⟨[], some .invalidValue⟩
    else ⟨headStores .string4 tag ++
      [store 4 (htonl (BitVec.ofNat 32 s.length)).toNat, s], none⟩
  else ⟨headStores .string1 tag ++ [store 1 s.length, s], none⟩

/-- The loop over the elements of a container, which stores until an exception ends it. -/
def eachStores {α : Type} (stores : α → Stores) : List α → Stores
  | [] => ⟨[], none⟩
  | x :: xs => (stores x).andThen (eachStores stores xs)

mutual

/-- `write`, the overload that belongs to the type, as the stores that it makes before it returns or
throws. -/
def stores : (t : Ty) → t.denote → UInt8 → Stores
  | .bool, b, tag => ⟨boolStores b tag, none⟩
  | .int k, n, tag => ⟨intStores k n tag, none⟩
  | .float, n, tag => ⟨headStores .float tag ++ [store 4 (htonl n).toNat], none⟩
  | .double, n, tag => ⟨headStores .double tag ++ [store 8 (tarsHtonll n).toNat], none⟩
  | .string, s, tag => stringStores s tag
  | .bytes, v, tag => ⟨headStores .simpleList tag ++ headStores .char 0 ++
      int32Stores (BitVec.ofNat 32 v.length) 0 ++ [v], none⟩
  | .vector t, v, tag =>
    .andThen ⟨headStores .list tag ++ int32Stores (BitVec.ofNat 32 v.length) 0, none⟩
      (eachStores (fun x => stores t x 0) v)
  | .map k v, m, tag =>
    .andThen ⟨headStores .map tag ++ int32Stores (BitVec.ofNat 32 m.length) 0, none⟩
      (eachStores (fun e => (stores k e.1 0).andThen (stores v e.2 1)) m)
  | .struct fs, s, tag =>
    (Stores.andThen ⟨headStores .structBegin tag, none⟩ (storesTo fs s)).andThen
      ⟨headStores .structEnd 0, none⟩

/-- `writeTo` of a generated structure, which stores its fields until one of them throws. -/
def storesTo : (fs : Fields) → fs.denote → Stores
  | .nil, _ => ⟨[], none⟩
  | .cons tag _ t fs, (v, vs) => (stores t v tag).andThen (storesTo fs vs)

end

/-- `write` of `len` characters behind a pointer, store by store. -/
def charsStores (buf : Bytes) (len : BitVec 32) (tag : UInt8) : Stores :=
  ⟨headStores .simpleList tag ++ headStores .char 0 ++ uint32Stores len 0 ++ [buf.take len.toNat],
    none⟩

/-- `write` of the `len` elements behind a pointer, store by store. -/
def arrayStores (t : ElementType) (v : List t.ty.denote) (len : BitVec 32) (tag : UInt8) :
    Stores :=
  .andThen ⟨headStores .list tag ++ uint32Stores len 0, none⟩
    (eachStores (fun x => stores t.ty x 0) (v.take len.toInt.toNat))

/-! ### The bytes that they store -/

/-- What some stores amount to as the result of a write. -/
inductive Gives : Stores → Except TarsException Bytes → Prop
  /-- All bytes were stored, and the write throws nothing. -/
  | ok (chunks : List Bytes) : Gives ⟨chunks, none⟩ (.ok chunks.flatten)
  /-- An exception, behind some bytes or none. -/
  | error (chunks : List Bytes) (e : TarsException) : Gives ⟨chunks, some e⟩ (.error e)

section Agreement

variable {α : Type} {front back : Stores} {r r' : Except TarsException Bytes}

/-- The bytes of a sequence of stores that throws nothing are what the stores append, in this order.
-/
theorem Gives.of_flatten {chunks : List Bytes} {bs : Bytes} (h : chunks.flatten = bs) :
    Gives ⟨chunks, none⟩ (.ok bs) := h ▸ .ok chunks

/-- One write after the other gives what their stores do one after the other. -/
theorem Gives.andThen (h : Gives front r) (h' : Gives back r') :
    Gives (front.andThen back) (do
      let bs ← r
      let bs' ← r'
      return bs ++ bs') := by
  cases h with
  | error chunks e => exact .error chunks e
  | ok chunks =>
    cases h' with
    | ok chunks' => exact .of_flatten List.flatten_append
    | error chunks' e => exact .error _ e

/-- Stores that throw nothing, and then a write, append the bytes of both. -/
theorem Gives.after {chunks : List Bytes} {bs : Bytes} (hchunks : chunks.flatten = bs)
    (h : Gives back r) :
    Gives (Stores.andThen ⟨chunks, none⟩ back) (do
      let bs' ← r
      return bs ++ bs') :=
  (Gives.of_flatten hchunks).andThen h

/-- A loop gives what the stores of its elements do, if each element's stores do. -/
theorem Gives.each {stores : α → Stores} {write : α → Except TarsException Bytes} {xs : List α}
    (h : ∀ x ∈ xs, Gives (stores x) (write x)) :
    Gives (eachStores stores xs) (writeEach write xs) := by
  induction xs with
  | nil => exact .ok []
  | cons x xs ih =>
    exact (h x List.mem_cons_self).andThen (ih fun y hy => h y (List.mem_cons_of_mem x hy))

@[simp] theorem flatten_headStores (type : HeadType) (tag : UInt8) :
    (headStores type tag).flatten = writeToHead type tag := by
  unfold headStores writeToHead
  split <;> rfl

@[simp] theorem flatten_charStores (n : BitVec 8) (tag : UInt8) :
    (charStores n tag).flatten = writeChar n tag := by
  unfold charStores writeChar
  split <;> simp

@[simp] theorem flatten_shortStores (n : BitVec 16) (tag : UInt8) :
    (shortStores n tag).flatten = writeShort n tag := by
  unfold shortStores writeShort
  split <;> simp

@[simp] theorem flatten_int32Stores (n : BitVec 32) (tag : UInt8) :
    (int32Stores n tag).flatten = writeInt32 n tag := by
  unfold int32Stores writeInt32
  split <;> simp

@[simp] theorem flatten_int64Stores (n : BitVec 64) (tag : UInt8) :
    (int64Stores n tag).flatten = writeInt64 n tag := by
  unfold int64Stores writeInt64
  split <;> simp

@[simp] theorem flatten_uint32Stores (n : BitVec 32) (tag : UInt8) :
    (uint32Stores n tag).flatten = writeUInt32 n tag := flatten_int64Stores _ tag

@[simp] theorem flatten_intStores (k : IntKind) (n : BitVec k.width) (tag : UInt8) :
    (intStores k n tag).flatten = writeInt k n tag := by
  cases k with
  | char => exact flatten_charStores n tag
  | uint8 => exact flatten_shortStores _ tag
  | short => exact flatten_shortStores n tag
  | uint16 => exact flatten_int32Stores _ tag
  | int32 => exact flatten_int32Stores n tag
  | uint32 => exact flatten_int64Stores _ tag
  | int64 => exact flatten_int64Stores n tag

/-- The stores of a string give what writing it does, the exception included. -/
theorem stringStores_gives (s : Bytes) (tag : UInt8) :
    Gives (stringStores s tag) (writeString s tag) := by
  unfold stringStores writeString
  split
  · split
    · exact .error [] _
    · exact .of_flatten (by simp)
  · exact .of_flatten (by simp)

mutual

/-- **The stores are the bytes of `write`**, also when an exception ends them early: by induction
over the type. -/
theorem stores_gives : (t : Ty) → (v : t.denote) → (tag : UInt8) →
    Gives (stores t v tag) (write t v tag)
  | .bool, b, tag => .of_flatten (flatten_charStores _ tag)
  | .int k, n, tag => .of_flatten (flatten_intStores k n tag)
  | .float, n, tag => .of_flatten (by simp [writeFloat])
  | .double, n, tag => .of_flatten (by simp [writeDouble])
  | .string, s, tag => stringStores_gives s tag
  | .bytes, v, tag => .of_flatten (by simp [writeBytes])
  | .vector t, v, tag => by
    have helements := Gives.each fun x (_ : x ∈ v) => stores_gives t x 0
    rw [stores, write]
    exact .after (by simp) helements
  | .map k v, m, tag => by
    have hentries := Gives.each fun e (_ : e ∈ m) =>
      (stores_gives k e.1 0).andThen (stores_gives v e.2 1)
    rw [stores, write]
    exact .after (by simp) hentries
  | .struct fs, s, tag => by
    have hfields := Gives.after (flatten_headStores .structBegin tag) (storesTo_gives fs s)
    have hall := hfields.andThen (.of_flatten (flatten_headStores .structEnd 0))
    rw [stores, write]
    cases hfields : writeTo fs s with
    | error e =>
      rw [hfields] at hall
      exact hall
    | ok bs =>
      rw [hfields] at hall
      exact hall

/-- The stores of a structure are the bytes of `writeTo`. -/
theorem storesTo_gives : (fs : Fields) → (s : fs.denote) → Gives (storesTo fs s) (writeTo fs s)
  | .nil, _ => .ok []
  | .cons tag _ t fs, (v, vs) => (stores_gives t v tag).andThen (storesTo_gives fs vs)

end

end Agreement

end TarsOutputStream

end Tars
