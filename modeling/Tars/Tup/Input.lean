import Tars.Library.Decoding
import Tars.Tup.Output

/-!
# The input stream

The reader is a cursor in a buffer. Its checks compute in `size_t`, its memory is what really is
behind `_buf`. Skipping moves the cursor without a check. `guard` asks for the input stream that
refuses the only skip that can move the cursor back; the input stream of the source is the one
without it.
-/

namespace Tars

open LittleEndian Decoding

/-- The members of `BufferReader` that decoding uses, together with a mark for a cursor that moved
back. -/
structure BufferReader where
  /-- The memory from `_buf` on. -/
  buf : Bytes
  /-- `_buf_len`. -/
  bufLen : ℕ
  /-- `_cur`. -/
  cur : ℕ
  /-- The cursor has been moved by a negative number of bytes. -/
  backward : Bool
  deriving DecidableEq

/-- What the input stream reads with: a decoder over the buffer that may throw. -/
abbrev Decode := Decoder BufferReader TarsException

/-- `setBuffer` with a pointer to some memory, of which `len` bytes are to be read. -/
def BufferReader.setBuffer (buf : Bytes) (len : ℕ) : BufferReader := ⟨buf, len, 0, false⟩

/-- `hasEnd`, which holds once the cursor has reached the stated length. -/
def BufferReader.hasEnd (r : BufferReader) : Bool := r.cur ≥ r.bufLen

/-- The head of a field as the stream reads it, with the number of bytes it took. -/
structure Head where
  /-- The head type. -/
  type : HeadType
  /-- The tag. -/
  tag : UInt8
  /-- The number of its bytes. -/
  len : ℕ

namespace TarsInputStream

/-! ### Primitives -/

/-- `TarsPeekTypeBuf` of some bytes, also `TarsPeekBuf`: the check adds with 64 bits, and bytes
behind the buffer are memory that the model does not know. -/
def peekTypeBuf (offset size : ℕ) : Decode Bytes := fun r =>
  if (r.cur + offset + size) % 2 ^ 64 > r.bufLen then .thrown .overflow r
  else if r.cur + offset + size ≤ r.buf.length then
    .ok ((r.buf.drop (r.cur + offset)).take size) r
  else .fault

/-- `TarsPeekTypeBufNoTag`, which checks the bounds and loads nothing, with the sum in `size_t`. -/
def peekTypeBufNoTag (offset size : ℕ) : Decode Unit := fun r =>
  if (r.cur + offset + size) % 2 ^ 64 > r.bufLen then .thrown .overflow r else .ok () r

/-- `TarsReadHeadSkip`. A number of bytes that was negative is at least `2 ^ 63` as `size_t`. -/
def readHeadSkip (len : ℕ) : Decode Unit := fun r =>
  .ok () { r with
    cur := (r.cur + len) % 2 ^ 64
    backward := r.backward || decide (2 ^ 63 ≤ len) }

/-- `TarsReadTypeBuf` of some bytes, also `TarsReadBuf` and `TarsReadStringBuf`: a load and a move
of the cursor. -/
def readTypeBuf (size : ℕ) : Decode Bytes := do
  let bs ← peekTypeBuf 0 size
  readHeadSkip size
  pure bs

/-- `BufferReader::readBuf`, which checks the length by itself before the sum that may wrap. -/
def readBuf (len : ℕ) : Decode Bytes := do
  let fits ← ask fun r => decide (len ≤ r.bufLen ∧ (r.cur + len) % 2 ^ 64 ≤ r.bufLen)
  if fits then readTypeBuf len else throw .overflow

/-- `TarsPeekFromHead`, which reads the type, the tag and the length of a head. -/
def peekFromHead : Decode Head := do
  let typeTag ← peekTypeBuf 0 1
  let type := HeadType.ofCode (load typeTag % 16)
  let tmpTag := load typeTag / 16
  if tmpTag = 15 then do
    let tag ← peekTypeBuf 1 1
    pure ⟨type, UInt8.ofNat (load tag), 2⟩
  else pure ⟨type, UInt8.ofNat tmpTag, 1⟩

/-- `readFromHead`, which reads a head and moves the cursor behind it. -/
def readFromHead : Decode Head := do
  let head ← peekFromHead
  readHeadSkip head.len
  pure head

/-- `readFromHeadNoTag`, which moves the cursor over a tag without reading it. -/
def readFromHeadNoTag : Decode HeadType := do
  let typeTag ← peekTypeBuf 0 1
  let type := HeadType.ofCode (load typeTag % 16)
  if load typeTag / 16 = 15 then do
    peekTypeBufNoTag 1 1
    readHeadSkip 2
    pure type
  else do
    readHeadSkip 1
    pure type

/-! ### Fields

What follows is given the function that skips a payload and a bound on the rounds of its loops.
-/

section Fields

variable (skip : HeadType → Decode Unit)

/-- The loop of `TarsSkipToTag`, which skips fields with smaller tags until it finds the tag or the
end. -/
def skipToTagLoop (tag : UInt8) : ℕ → Decode (Option HeadType)
  | 0 => exhausted
  | rounds + 1 => do
    let ended ← ask BufferReader.hasEnd
    if ended then pure none
    else do
      let head ← peekFromHead
      if head.type = .structEnd ∨ tag < head.tag then pure none
      else if tag = head.tag then do
        readHeadSkip head.len
        pure (some head.type)
      else do
        readHeadSkip head.len
        skip head.type
        skipToTagLoop tag rounds

/-- `TarsSkipToTag`: the head type of the field with the tag, if there is one. Exceptions are
swallowed. -/
def tarsSkipToTag (rounds : ℕ) (tag : UInt8) : Decode (Option HeadType) :=
  attempt (skipToTagLoop skip tag rounds) none

/-- The shape that all `read` functions share: find the tag, and read the payload or keep the
old value. -/
def readField {α : Type} (rounds : ℕ) (body : HeadType → Decode α) (old : α) (tag : UInt8)
    (isRequire : Bool) : Decode α := do
  let found ← tarsSkipToTag skip rounds tag
  match found with
  | some type => body type
  | none => if isRequire then throw .requireNotExist else pure old

/-- The payload of an integer of some width, in any size that fits it. -/
def integerBody (w : ℕ) : HeadType → Decode (BitVec w)
  | .zeroTag => pure 0
  | .char => do
    let bs ← readTypeBuf 1
    pure ((BitVec.ofNat 8 (load bs)).signExtend w)
  | .short => if w < 16 then throw .mismatch else do
    let bs ← readTypeBuf 2
    pure ((htons (BitVec.ofNat 16 (load bs))).signExtend w)
  | .int32 => if w < 32 then throw .mismatch else do
    let bs ← readTypeBuf 4
    pure ((htonl (BitVec.ofNat 32 (load bs))).signExtend w)
  | .int64 => if w < 64 then throw .mismatch else do
    let bs ← readTypeBuf 8
    pure ((tarsHtonll (BitVec.ofNat 64 (load bs))).signExtend w)
  | _ => throw .mismatch

/-- `read` of a `Char`, which accepts only fields that are 8 bits wide or zero. -/
def readChar (rounds : ℕ) : BitVec 8 → UInt8 → Bool → Decode (BitVec 8) :=
  readField skip rounds (integerBody 8)

/-- `read` of a `Short`, which accepts fields of up to 16 bits. -/
def readShort (rounds : ℕ) : BitVec 16 → UInt8 → Bool → Decode (BitVec 16) :=
  readField skip rounds (integerBody 16)

/-- `read` of an `Int32`, which accepts fields of up to 32 bits. -/
def readInt32 (rounds : ℕ) : BitVec 32 → UInt8 → Bool → Decode (BitVec 32) :=
  readField skip rounds (integerBody 32)

/-- `read` of an `Int64`, which accepts fields of every width. -/
def readInt64 (rounds : ℕ) : BitVec 64 → UInt8 → Bool → Decode (BitVec 64) :=
  readField skip rounds (integerBody 64)

/-- `read` of a `Bool`, which reads a `Char` and takes all but 0 as true. -/
def readBool (rounds : ℕ) (b : Bool) (tag : UInt8) (isRequire : Bool) : Decode Bool := do
  let c ← readChar skip rounds (if b then 1 else 0) tag isRequire
  pure (decide (c ≠ 0))

/-- `read` of a `UInt8`, which reads a `Short` and keeps its low byte. -/
def readUInt8 (rounds : ℕ) (n : BitVec 8) (tag : UInt8) (isRequire : Bool) :
    Decode (BitVec 8) := do
  let i ← readShort skip rounds (n.setWidth 16) tag isRequire
  pure (i.setWidth 8)

/-- `read` of a `UInt16`, which reads an `Int32` and keeps its low half. -/
def readUInt16 (rounds : ℕ) (n : BitVec 16) (tag : UInt8) (isRequire : Bool) :
    Decode (BitVec 16) := do
  let i ← readInt32 skip rounds (n.setWidth 32) tag isRequire
  pure (i.setWidth 16)

/-- `read` of a `UInt32`, which reads an `Int64` and keeps its low half. -/
def readUInt32 (rounds : ℕ) (n : BitVec 32) (tag : UInt8) (isRequire : Bool) :
    Decode (BitVec 32) := do
  let i ← readInt64 skip rounds (n.setWidth 64) tag isRequire
  pure (i.setWidth 32)

/-- `read` of an integer, the overload that belongs to its type. -/
def readInt (rounds : ℕ) : (k : IntKind) → BitVec k.width → UInt8 → Bool → Decode (BitVec k.width)
  | .char => readChar skip rounds
  | .uint8 => readUInt8 skip rounds
  | .short => readShort skip rounds
  | .uint16 => readUInt16 skip rounds
  | .int32 => readInt32 skip rounds
  | .uint32 => readUInt32 skip rounds
  | .int64 => readInt64 skip rounds

/-- `read` of a `Float`, whose zero takes a head without bytes. -/
def readFloat (rounds : ℕ) : BitVec 32 → UInt8 → Bool → Decode (BitVec 32) :=
  readField skip rounds fun type =>
    match type with
    | .zeroTag => pure 0
    | .float => do
      let bs ← readTypeBuf 4
      pure (htonl (BitVec.ofNat 32 (load bs)))
    | _ => throw .mismatch

/-- `read` of a `Double`. A `Float` is converted before and after the change of its byte
order. -/
def readDouble (types : Codegen) (rounds : ℕ) : BitVec 64 → UInt8 → Bool → Decode (BitVec 64) :=
  readField skip rounds fun type =>
    match type with
    | .zeroTag => pure 0
    | .float => do
      let bs ← readTypeBuf 4
      pure (types.toDouble (htonl (types.toFloat (types.toDouble (BitVec.ofNat 32 (load bs))))))
    | .double => do
      let bs ← readTypeBuf 8
      pure (tarsHtonll (BitVec.ofNat 64 (load bs)))
    | _ => throw .mismatch

/-- `read` of a string, whose size takes one byte or four; only the latter is checked against the
limit. -/
def readString (rounds : ℕ) : Bytes → UInt8 → Bool → Decode Bytes :=
  readField skip rounds fun type =>
    match type with
    | .string1 => do
      let bs ← readTypeBuf 1
      readTypeBuf (load bs)
    | .string4 => do
      let bs ← readTypeBuf 4
      let strLength := (htonl (BitVec.ofNat 32 (load bs))).toNat
      if strLength > TarsOutputStream.maxStringLength then throw .invalidValue
      else readTypeBuf strLength
    | _ => throw .mismatch

/-- The number of elements of a container, which may not be greater than the buffer. -/
def readSize (rounds : ℕ) : Decode ℕ := do
  let size ← readUInt32 skip rounds 0 0 true
  let bufLen ← ask BufferReader.bufLen
  if size.toNat > bufLen then throw .invalidValue else pure size.toNat

/-- The loop over the elements of a vector, each of which is read over its old value. -/
def readEach {α : Type} (read : α → Decode α) : List α → Decode (List α)
  | [] => pure []
  | x :: xs => do
    let y ← read x
    let ys ← readEach read xs
    pure (y :: ys)

/-- `resize` of a vector, which keeps the old elements that fit and appends initial ones. -/
def resize {α : Type} (init : α) (size : ℕ) (v : List α) : List α :=
  v.take size ++ List.replicate (size - v.length) init

/-- `insert` of a map: an entry whose key is there already is not inserted. -/
def insert {α β : Type} (less : α → α → Bool) (entry : α × β) : List (α × β) → List (α × β)
  | [] => [entry]
  | e :: m =>
    if less e.1 entry.1 then e :: insert less entry m
    else if less entry.1 e.1 then entry :: e :: m
    else e :: m

/-- The loop over the entries of a map, each of which is inserted before the next one is read. -/
def readEntries {α β : Type} (less : α → α → Bool) (read : Decode (α × β)) :
    ℕ → List (α × β) → Decode (List (α × β))
  | 0, m => pure m
  | size + 1, m => do
    let pr ← read
    readEntries less read size (insert less pr m)

/-- `read` of a `vector<Char>`, from a simple list or, element by element, from a list. -/
def readBytes (rounds : ℕ) (v : Bytes) : UInt8 → Bool → Decode Bytes :=
  readField skip rounds (fun type =>
    match type with
    | .simpleList => do
      let hhead ← readFromHead
      if hhead.type ≠ .char then throw .mismatch
      else do
        let size ← readSize skip rounds
        readBuf size
    | .list => do
      let size ← readSize skip rounds
      readEach (fun b => do
        let c ← readChar skip rounds (BitVec.ofNat 8 b.toNat) 0 true
        pure (UInt8.ofNat c.toNat)) (resize 0 size v)
    | _ => throw .mismatch) v

/-! ### Skipping -/

/-- `skipField` with the head of the field, which tells what is to be skipped. -/
def skipFieldHead : Decode Unit := do
  let type ← readFromHeadNoTag
  skip type

/-- The loops of `skipField` over the elements of a container. -/
def skipEach : ℕ → Decode Unit
  | 0 => pure ()
  | size + 1 => do
    skipFieldHead skip
    skipEach size

/-- `skipToStructEnd`, which skips fields until it has skipped the end of the structure. -/
def skipToStructEnd : ℕ → Decode Unit
  | 0 => exhausted
  | rounds + 1 => do
    let type ← readFromHeadNoTag
    skip type
    if type = .structEnd then pure () else skipToStructEnd rounds

end Fields

/-- An `Int32` as the `size_t` that it is converted to. -/
def toSizeT (n : BitVec 32) : ℕ := (n.signExtend 64).toNat

/-- The number of rounds of a loop from zero to an `Int32`. -/
def rounds (n : BitVec 32) : ℕ := n.toInt.toNat

/-- `skipField` without the head of the field, by the type that was read from there. -/
def skipField (guard : Bool) : ℕ → HeadType → Decode Unit
  | 0, _ => exhausted
  | fuel + 1, type =>
    match type with
    | .char => readHeadSkip 1
    | .short => readHeadSkip 2
    | .int32 => readHeadSkip 4
    | .int64 => readHeadSkip 8
    | .float => readHeadSkip 4
    | .double => readHeadSkip 8
    | .string1 => do
      let bs ← readTypeBuf 1
      readHeadSkip (load bs)
    | .string4 => do
      let bs ← readTypeBuf 4
      readHeadSkip (htonl (BitVec.ofNat 32 (load bs))).toNat
    | .map => do
      let size ← readInt32 (skipField guard fuel) (fuel + 1) 0 0 true
      skipEach (skipField guard fuel) (rounds (size * 2))
    | .list => do
      let size ← readInt32 (skipField guard fuel) (fuel + 1) 0 0 true
      skipEach (skipField guard fuel) (rounds size)
    | .simpleList => do
      let head ← readFromHead
      if head.type ≠ .char then throw .mismatch
      else do
        let size ← readInt32 (skipField guard fuel) (fuel + 1) 0 0 true
        if guard = true ∧ size.toInt < 0 then refuse else readHeadSkip (toSizeT size)
    | .structBegin => skipToStructEnd (skipField guard fuel) (fuel + 1)
    | .structEnd => pure ()
    | .zeroTag => pure ()
    | .invalid => throw .mismatch

/-! ### Reading -/

section Read

variable (types : Codegen) (guard : Bool) (fuel : ℕ)

/-- The loop of the member function `skipToTag`, which stops at the first tag that is not smaller.
-/
def skipToLoop (tag : UInt8) : ℕ → Decode Bool
  | 0 => exhausted
  | rounds + 1 => do
    let ended ← ask BufferReader.hasEnd
    if ended then pure false
    else do
      let head ← peekFromHead
      if tag ≤ head.tag ∨ head.type = .structEnd then
        pure (if head.type = .structEnd then false else decide (tag = head.tag))
      else do
        readHeadSkip head.len
        skipField guard fuel head.type
        skipToLoop tag rounds

/-- The member function `skipToTag`, which leaves the cursor in front of the head. -/
def skipToTag (tag : UInt8) : Decode Bool := attempt (skipToLoop guard fuel tag fuel) false

mutual

/-- `read`, the overload that belongs to the type, with fuel for what it skips and for its elements.
-/
def read : (t : Ty) → t.denote → UInt8 → Bool → Decode t.denote
  | .bool => readBool (skipField guard fuel) fuel
  | .int k => readInt (skipField guard fuel) fuel k
  | .float => readFloat (skipField guard fuel) fuel
  | .double => readDouble (skipField guard fuel) types fuel
  | .string => readString (skipField guard fuel) fuel
  | .bytes => fun v => readBytes (skipField guard fuel) fuel v
  | .vector t => fun v =>
    readField (skipField guard fuel) fuel (fun type =>
      match type with
      | .list => do
        let size ← readSize (skipField guard fuel) fuel
        readEach (fun x => read t x 0 true) (resize (types.init t) size v)
      | _ => throw .mismatch) v
  | .map k v =>
    readField (skipField guard fuel) fuel fun type =>
      match type with
      | .map => do
        let size ← readSize (skipField guard fuel) fuel
        readEntries (types.less k) (do
          let key ← read k (types.init k) 0 true
          let value ← read v (types.init v) 1 true
          pure (key, value)) size []
      | _ => throw .mismatch
  | .struct fs => fun s =>
    readField (skipField guard fuel) fuel (fun type => do
      if type ≠ .structBegin then throw .mismatch
      else do
        let s ← readFrom fs (types.resetDefautlt fs s)
        skipToStructEnd (skipField guard fuel) fuel
        pure s) s

/-- `readFrom` of a generated structure, after `resetDefautlt`: the members are read in their order.
-/
def readFrom : (fs : Fields) → fs.denote → Decode fs.denote
  | .nil, s => pure s
  | .cons tag isRequire t fs, (v, vs) => do
    let v ← read t v tag isRequire
    let vs ← readFrom fs vs
    pure (v, vs)

end

end Read

end TarsInputStream

end Tars
