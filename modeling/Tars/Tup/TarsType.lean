import Tars.Cpp
import Tars.Library.LittleEndian

/-!
# The types of the Tars encoding

The types that can be encoded, with their values. Integers are bit vectors of the width that
they have in memory, on a machine that stores them with the least significant byte first; the
encoding has them in network order.
-/

namespace Tars

/-! ### Byte order -/

/-- `htons`, which is also `ntohs`: a change of the byte order on a machine that stores low bytes
first. -/
def htons (n : BitVec 16) : BitVec 16 := BitVec.ofNat 16 (LittleEndian.swap 2 n.toNat)

/-- `htonl`, which is also `ntohl`, likewise a change of the byte order. -/
def htonl (n : BitVec 32) : BitVec 32 := BitVec.ofNat 32 (LittleEndian.swap 4 n.toNat)

/-- `tars_htonll`, which is also `tars_ntohll`: both halves are converted and exchanged. -/
def tarsHtonll (x : BitVec 64) : BitVec 64 :=
  htonl (x.extractLsb' 0 32) ++ htonl (x.extractLsb' 32 32)

/-- The bytes of a number in network order, the highest one first. -/
def netBytes (k n : ℕ) : Bytes := (LittleEndian.store k n).reverse

@[simp] theorem length_netBytes (k n : ℕ) : (netBytes k n).length = k := by
  rw [netBytes, List.length_reverse, LittleEndian.length_store]

/-- Storing a converted `short` stores its bytes in network order. -/
theorem store_htons (n : BitVec 16) :
    LittleEndian.store 2 (htons n).toNat = netBytes 2 n.toNat := by
  have hlt : LittleEndian.swap 2 n.toNat < 2 ^ 16 := LittleEndian.swap_lt 2 n.toNat
  rw [htons, BitVec.toNat_ofNat, Nat.mod_eq_of_lt hlt, LittleEndian.store_swap, netBytes]

/-- Storing a converted `int` stores its bytes in network order. -/
theorem store_htonl (n : BitVec 32) :
    LittleEndian.store 4 (htonl n).toNat = netBytes 4 n.toNat := by
  have hlt : LittleEndian.swap 4 n.toNat < 2 ^ 32 := LittleEndian.swap_lt 4 n.toNat
  rw [htonl, BitVec.toNat_ofNat, Nat.mod_eq_of_lt hlt, LittleEndian.store_swap, netBytes]

/-- Storing a converted `long` stores its bytes in network order. -/
theorem store_tarsHtonll (x : BitVec 64) :
    LittleEndian.store 8 (tarsHtonll x).toNat = netBytes 8 x.toNat := by
  have hsplit : x.toNat = (x.extractLsb' 0 32).toNat + 256 ^ 4 * (x.extractLsb' 32 32).toNat := by
    have hlt := x.isLt
    simp only [BitVec.extractLsb'_toNat, Nat.shiftRight_eq_div_pow]
    omega
  have hjoin : (tarsHtonll x).toNat = (htonl (x.extractLsb' 32 32)).toNat +
      256 ^ 4 * (htonl (x.extractLsb' 0 32)).toNat := by
    have hlow := (htonl (x.extractLsb' 32 32)).isLt
    rw [tarsHtonll, BitVec.toNat_append, ← Nat.shiftLeft_add_eq_or_of_lt hlow,
      Nat.shiftLeft_eq]
    omega
  rw [hjoin, LittleEndian.store_add 4 4 _ _ (htonl _).isLt, store_htonl, store_htonl, hsplit,
    netBytes, netBytes, netBytes, LittleEndian.store_add 4 4 _ _ (BitVec.isLt _),
    List.reverse_append]

/-- Loading bytes in network order as if they were little-endian ones reverses them. -/
theorem netBytes_load (k n : ℕ) :
    netBytes k (LittleEndian.load (netBytes k n)) = LittleEndian.store k n := by
  have h := LittleEndian.store_load (netBytes k n)
  rw [length_netBytes] at h
  rw [netBytes, h, netBytes, List.reverse_reverse]

/-- A number that was loaded from `k` bytes fits `k` bytes again. -/
theorem load_netBytes_lt (k n : ℕ) : LittleEndian.load (netBytes k n) < 256 ^ k := by
  have h := LittleEndian.load_lt (netBytes k n)
  rwa [length_netBytes] at h

/-- Converting a `short` that was loaded in network order. -/
theorem htons_load (n : BitVec 16) :
    htons (BitVec.ofNat 16 (LittleEndian.load (netBytes 2 n.toNat))) = n := by
  apply BitVec.eq_of_toNat_eq
  apply LittleEndian.eq_of_store_eq (k := 2) (BitVec.isLt _) n.isLt
  have hlt : LittleEndian.load (netBytes 2 n.toNat) < 2 ^ 16 := load_netBytes_lt 2 n.toNat
  rw [store_htons, BitVec.toNat_ofNat, Nat.mod_eq_of_lt hlt, netBytes_load]

/-- Converting an `int` that was loaded in network order. -/
theorem htonl_load (n : BitVec 32) :
    htonl (BitVec.ofNat 32 (LittleEndian.load (netBytes 4 n.toNat))) = n := by
  apply BitVec.eq_of_toNat_eq
  apply LittleEndian.eq_of_store_eq (k := 4) (BitVec.isLt _) n.isLt
  have hlt : LittleEndian.load (netBytes 4 n.toNat) < 2 ^ 32 := load_netBytes_lt 4 n.toNat
  rw [store_htonl, BitVec.toNat_ofNat, Nat.mod_eq_of_lt hlt, netBytes_load]

/-- A number that fits is stored in network order. -/
theorem store_htonl_ofNat {n : ℕ} (hn : n < 2 ^ 32) :
    LittleEndian.store 4 (htonl (BitVec.ofNat 32 n)).toNat = netBytes 4 n := by
  rw [store_htonl, BitVec.toNat_ofNat, Nat.mod_eq_of_lt hn]

/-- A number that fits is loaded again from its bytes in network order. -/
theorem htonl_load_toNat {n : ℕ} (hn : n < 2 ^ 32) :
    (htonl (BitVec.ofNat 32 (LittleEndian.load (netBytes 4 n)))).toNat = n := by
  have h := htonl_load (BitVec.ofNat 32 n)
  rw [BitVec.toNat_ofNat, Nat.mod_eq_of_lt hn] at h
  rw [h, BitVec.toNat_ofNat, Nat.mod_eq_of_lt hn]

/-- Converting a `long` that was loaded in network order. -/
theorem tarsHtonll_load (n : BitVec 64) :
    tarsHtonll (BitVec.ofNat 64 (LittleEndian.load (netBytes 8 n.toNat))) = n := by
  apply BitVec.eq_of_toNat_eq
  apply LittleEndian.eq_of_store_eq (k := 8) (BitVec.isLt _) n.isLt
  have hlt : LittleEndian.load (netBytes 8 n.toNat) < 2 ^ 64 := load_netBytes_lt 8 n.toNat
  rw [store_tarsHtonll, BitVec.toNat_ofNat, Nat.mod_eq_of_lt hlt, netBytes_load]

/-! ### Types and values -/

/-- The types of encoded data, as the head of a field names them. -/
inductive HeadType where
  /-- `TarsHeadeChar`. -/
  | char
  /-- `TarsHeadeShort`. -/
  | short
  /-- `TarsHeadeInt32`. -/
  | int32
  /-- `TarsHeadeInt64`. -/
  | int64
  /-- `TarsHeadeFloat`. -/
  | float
  /-- `TarsHeadeDouble`. -/
  | double
  /-- `TarsHeadeString1`. -/
  | string1
  /-- `TarsHeadeString4`. -/
  | string4
  /-- `TarsHeadeMap`. -/
  | map
  /-- `TarsHeadeList`. -/
  | list
  /-- `TarsHeadeStructBegin`. -/
  | structBegin
  /-- `TarsHeadeStructEnd`. -/
  | structEnd
  /-- `TarsHeadeZeroTag`. -/
  | zeroTag
  /-- `TarsHeadeSimpleList`. -/
  | simpleList
  /-- The values `14` and `15`, which no type has. -/
  | invalid
  deriving DecidableEq

/-- The value of a head type in the lower half of a head byte. -/
def HeadType.code : HeadType → ℕ
  | .char => 0
  | .short => 1
  | .int32 => 2
  | .int64 => 3
  | .float => 4
  | .double => 5
  | .string1 => 6
  | .string4 => 7
  | .map => 8
  | .list => 9
  | .structBegin => 10
  | .structEnd => 11
  | .zeroTag => 12
  | .simpleList => 13
  | .invalid => 14

/-- The head type of a code, as the cast of its four bits gives it. -/
def HeadType.ofCode : ℕ → HeadType
  | 0 => .char
  | 1 => .short
  | 2 => .int32
  | 3 => .int64
  | 4 => .float
  | 5 => .double
  | 6 => .string1
  | 7 => .string4
  | 8 => .map
  | 9 => .list
  | 10 => .structBegin
  | 11 => .structEnd
  | 12 => .zeroTag
  | 13 => .simpleList
  | _ => .invalid

@[simp] theorem HeadType.ofCode_code (type : HeadType) : ofCode type.code = type := by
  cases type <;> rfl

theorem HeadType.code_lt (type : HeadType) : type.code < 15 := by
  cases type <;> decide

/-- The integer types that the encoding knows, signed and unsigned. -/
inductive IntKind where
  /-- `Char`. -/
  | char
  /-- `UInt8`. -/
  | uint8
  /-- `Short`. -/
  | short
  /-- `UInt16`. -/
  | uint16
  /-- `Int32`. -/
  | int32
  /-- `UInt32`. -/
  | uint32
  /-- `Int64`. -/
  | int64
  deriving DecidableEq

/-- The number of bits of an integer type. -/
@[reducible] def IntKind.width : IntKind → ℕ
  | .char | .uint8 => 8
  | .short | .uint16 => 16
  | .int32 | .uint32 => 32
  | .int64 => 64

/-- Whether an integer type has negative values, which decides how it is widened. -/
def IntKind.signed : IntKind → Bool
  | .char | .short | .int32 | .int64 => true
  | .uint8 | .uint16 | .uint32 => false

/-- The number of bits with which an integer type is read: an unsigned type is read by way of the
next wider signed one. -/
def IntKind.readWidth : IntKind → ℕ
  | .char => 8
  | .uint8 | .short => 16
  | .uint16 | .int32 => 32
  | .uint32 | .int64 => 64

/-- The integer that a value of an integer type stands for. -/
def IntKind.toInt (k : IntKind) (n : BitVec k.width) : ℤ :=
  if k.signed then n.toInt else n.toNat

mutual

/-- A type that can be encoded. A vector of `Char` is the type `bytes`. -/
inductive Ty where
  /-- `Bool`. -/
  | bool
  /-- An integer type. -/
  | int (k : IntKind)
  /-- `Float`. -/
  | float
  /-- `Double`. -/
  | double
  /-- `std::string`. -/
  | string
  /-- `vector<Char>`. -/
  | bytes
  /-- `vector<T>`. -/
  | vector (t : Ty)
  /-- `map<K, V>`. -/
  | map (k v : Ty)
  /-- A generated structure. -/
  | struct (fs : Fields)

/-- The fields of a structure in the order in which they are written and read. -/
inductive Fields where
  /-- No field. -/
  | nil
  /-- A field with its tag, whether it is required, and its type, and the fields after it. -/
  | cons (tag : UInt8) (isRequire : Bool) (t : Ty) (fs : Fields)

end

mutual

/-- The values of a type. Floating-point numbers are their representations; a map is the list of
its entries in ascending order. -/
@[reducible] def Ty.denote : Ty → Type
  | .bool => Bool
  | .int k => BitVec k.width
  | .float => BitVec 32
  | .double => BitVec 64
  | .string => Bytes
  | .bytes => Bytes
  | .vector t => List t.denote
  | .map k v => List (k.denote × v.denote)
  | .struct fs => fs.denote

/-- The values of the fields of a structure. -/
@[reducible] def Fields.denote : Fields → Type
  | .nil => Unit
  | .cons _ _ t fs => t.denote × fs.denote

end

/-- The types whose arrays are written and read by the templates for arrays. For an array of `Char`
the compiler chooses the overloads for characters, which are no templates. -/
structure ElementType where
  /-- The type of the elements. -/
  ty : Ty
  /-- It is not `Char`. -/
  notChar : ty ≠ .int .char

/-- The exceptions of the encoding, by their classes, which a caller can tell apart. -/
inductive TarsException where
  /-- `TarsDecodeException` itself, when the buffer is too short. -/
  | overflow
  /-- `TarsDecodeMismatch`. -/
  | mismatch
  /-- `TarsDecodeRequireNotExist`. -/
  | requireNotExist
  /-- `TarsDecodeInvalidValue`. -/
  | invalidValue
  deriving DecidableEq

/-- What the compiler and the generated code contribute to the types. -/
structure Codegen where
  /-- The value that a variable of this type has at first. -/
  init : (t : Ty) → t.denote
  /-- `operator<` on the keys of maps. -/
  less : (t : Ty) → t.denote → t.denote → Bool
  /-- `resetDefautlt` of a structure with these fields. -/
  resetDefautlt : (fs : Fields) → fs.denote → fs.denote
  /-- The conversion from `float` to `double`. -/
  toDouble : BitVec 32 → BitVec 64
  /-- The conversion from `double` to `float`. -/
  toFloat : BitVec 64 → BitVec 32

mutual

/-- The value of a type that is all zero or empty. -/
def Ty.zero : (t : Ty) → t.denote
  | .bool => false
  | .int _ => 0
  | .float => 0#32
  | .double => 0#64
  | .string => []
  | .bytes => []
  | .vector _ => []
  | .map _ _ => []
  | .struct fs => fs.zero

/-- The structure of zero or empty values, from which a new object starts. -/
def Fields.zero : (fs : Fields) → fs.denote
  | .nil => ()
  | .cons _ _ t fs => (t.zero, fs.zero)

end

/-- A choice of what the compiler and the generated code contribute, for programs whose keys are
integers or strings and that do not read a `Double` from a `Float`. -/
def plainTypes : Codegen where
  init := Ty.zero
  less
    | .bool => fun a b => !a && b
    | .int k => fun a b => decide (k.toInt a < k.toInt b)
    | .string => fun a b => decide (a < b)
    | _ => fun _ _ => false
  resetDefautlt fs _ := fs.zero
  toDouble _ := 0
  toFloat _ := 0

end Tars
