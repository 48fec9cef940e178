import Tars.Tup.TarsType

/-!
# The output stream

Every `write` appends bytes to the stream; the functions below give these bytes. `encode` says
which they are: the head of the field, which is the only part that depends on the tag, and its
payload.
-/

namespace Tars

namespace TarsOutputStream

open LittleEndian

/-- `TarsWriteToHead`: the type and a tag below 15 share a byte, other tags follow in one of their
own. -/
def writeToHead (type : HeadType) (tag : UInt8) : Bytes :=
  if tag < 15 then [UInt8.ofNat (type.code + tag.toNat * 16)]
  else [UInt8.ofNat (type.code + 240), tag]

/-- `write` of a `Char`, which writes zero as a head without bytes. -/
def writeChar (n : BitVec 8) (tag : UInt8) : Bytes :=
  if n = 0 then writeToHead .zeroTag tag
  else writeToHead .char tag ++ store 1 n.toNat

/-- `write` of a `Bool`, which is written as the `Char` 0 or 1. -/
def writeBool (b : Bool) (tag : UInt8) : Bytes := writeChar (if b then 1 else 0) tag

/-- `write` of a `Short`, which is written as a `Char` where it fits one. -/
def writeShort (n : BitVec 16) (tag : UInt8) : Bytes :=
  if n.toInt ≥ -128 ∧ n.toInt ≤ 127 then writeChar (n.setWidth 8) tag
  else writeToHead .short tag ++ store 2 (htons n).toNat

/-- `write` of a `UInt8`, which is written as a `Short`. -/
def writeUInt8 (n : BitVec 8) (tag : UInt8) : Bytes := writeShort (n.setWidth 16) tag

/-- `write` of an `Int32`, which is written as a `Short` where it fits one. -/
def writeInt32 (n : BitVec 32) (tag : UInt8) : Bytes :=
  if n.toInt ≥ -32768 ∧ n.toInt ≤ 32767 then writeShort (n.setWidth 16) tag
  else writeToHead .int32 tag ++ store 4 (htonl n).toNat

/-- `write` of a `UInt16`, which is written as an `Int32`. -/
def writeUInt16 (n : BitVec 16) (tag : UInt8) : Bytes := writeInt32 (n.setWidth 32) tag

/-- `write` of an `Int64`, which is written as an `Int32` where it fits one. -/
def writeInt64 (n : BitVec 64) (tag : UInt8) : Bytes :=
  if n.toInt ≥ -2147483648 ∧ n.toInt ≤ 2147483647 then writeInt32 (n.setWidth 32) tag
  else writeToHead .int64 tag ++ store 8 (tarsHtonll n).toNat

/-- `write` of a `UInt32`, which is written as an `Int64`. -/
def writeUInt32 (n : BitVec 32) (tag : UInt8) : Bytes := writeInt64 (n.setWidth 64) tag

/-- `write` of an integer, the overload that belongs to its type. -/
def writeInt : (k : IntKind) → BitVec k.width → UInt8 → Bytes
  | .char => writeChar
  | .uint8 => writeUInt8
  | .short => writeShort
  | .uint16 => writeUInt16
  | .int32 => writeInt32
  | .uint32 => writeUInt32
  | .int64 => writeInt64

/-- `write` of a `Float`, which always takes four bytes. -/
def writeFloat (n : BitVec 32) (tag : UInt8) : Bytes :=
  writeToHead .float tag ++ store 4 (htonl n).toNat

/-- `write` of a `Double`, which always takes eight bytes. -/
def writeDouble (n : BitVec 64) (tag : UInt8) : Bytes :=
  writeToHead .double tag ++ store 8 (tarsHtonll n).toNat

/-- `TARS_MAX_STRING_LENGTH`, the limit that writing and reading a string check. -/
def maxStringLength : ℕ := 100 * 1024 * 1024

/-- `write` of a string, whose size takes one byte up to 255 and four bytes above. -/
def writeString (s : Bytes) (tag : UInt8) : Except TarsException Bytes :=
  if s.length > 255 then
    if s.length > maxStringLength then .error .invalidValue
    else .ok (writeToHead .string4 tag ++ store 4 (htonl (BitVec.ofNat 32 s.length)).toNat ++ s)
  else .ok (writeToHead .string1 tag ++ store 1 s.length ++ s)

/-- `write` of a `vector<Char>`, a simple list whose bytes stand as they are. -/
def writeBytes (v : Bytes) (tag : UInt8) : Bytes :=
  writeToHead .simpleList tag ++ writeToHead .char 0 ++ writeInt32 (BitVec.ofNat 32 v.length) 0 ++
    v

/-- The loop over the elements of a container, which an exception ends. -/
def writeEach {α : Type} (write : α → Except TarsException Bytes) :
    List α → Except TarsException Bytes
  | [] => .ok []
  | x :: xs => do
    let front ← write x
    let back ← writeEach write xs
    return front ++ back

mutual

/-- `write`, the overload that belongs to the type. Only a string that is too long makes it throw.
-/
def write : (t : Ty) → t.denote → UInt8 → Except TarsException Bytes
  | .bool, b, tag => .ok (writeBool b tag)
  | .int k, n, tag => .ok (writeInt k n tag)
  | .float, n, tag => .ok (writeFloat n tag)
  | .double, n, tag => .ok (writeDouble n tag)
  | .string, s, tag => writeString s tag
  | .bytes, v, tag => .ok (writeBytes v tag)
  | .vector t, v, tag => do
    let elements ← writeEach (fun x => write t x 0) v
    return writeToHead .list tag ++ writeInt32 (BitVec.ofNat 32 v.length) 0 ++ elements
  | .map k v, m, tag => do
    let entries ← writeEach (fun e => do
      let key ← write k e.1 0
      let value ← write v e.2 1
      return key ++ value) m
    return writeToHead .map tag ++ writeInt32 (BitVec.ofNat 32 m.length) 0 ++ entries
  | .struct fs, s, tag => do
    let fields ← writeTo fs s
    return writeToHead .structBegin tag ++ fields ++ writeToHead .structEnd 0

/-- `writeTo` of a generated structure, which writes its fields in their order. -/
def writeTo : (fs : Fields) → fs.denote → Except TarsException Bytes
  | .nil, _ => .ok []
  | .cons tag _ t fs, (v, vs) => do
    let field ← write t v tag
    let rest ← writeTo fs vs
    return field ++ rest

end

/-- `write` of `len` characters behind a pointer, written like a vector of bytes. -/
def writeChars (buf : Bytes) (len : BitVec 32) (tag : UInt8) : Bytes :=
  writeToHead .simpleList tag ++ writeToHead .char 0 ++ writeUInt32 len 0 ++ buf.take len.toNat

/-- `write` of the `len` elements behind a pointer, with a signed index in its loop. -/
def writeArray (t : ElementType) (v : List t.ty.denote) (len : BitVec 32) (tag : UInt8) :
    Except TarsException Bytes := do
  let elements ← writeEach (fun x => write t.ty x 0) (v.take len.toInt.toNat)
  return writeToHead .list tag ++ writeUInt32 len 0 ++ elements

end TarsOutputStream

end Tars
