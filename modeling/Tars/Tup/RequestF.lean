import Tars.Tup.RoundTrip

/-!
# The packets

The members of the generated packets in the order in which they are written. A map is the list of
its entries in ascending order.
-/

namespace Tars

open Decoding TarsOutputStream

/-- `map<string, string>`, the type of the maps in both kinds of packets. -/
abbrev stringMap : Ty := .map .string .string

/-- The entries of a map are in ascending order. -/
def Ascending (m : List (Bytes × Bytes)) : Prop := m.Pairwise fun d e => d.1 < e.1

instance (m : List (Bytes × Bytes)) : Decidable (Ascending m) :=
  inferInstanceAs (Decidable (m.Pairwise fun d e => d.1 < e.1))

/-- The order of the keys in the encoding is the order of their bytes. -/
theorem pairwise_less_iff {m : List (Bytes × Bytes)} :
    m.Pairwise (fun d e => plainTypes.less .string d.1 e.1 = true) ↔ Ascending m := by
  have h (d e : Bytes) : plainTypes.less .string d e = true ↔ d < e := decide_eq_true_iff
  simp only [h, Ascending]

/-- A map of strings is within limits when its size is and its keys ascend. -/
theorem stringMap_limited_iff {Fits : ℕ → Prop} {m : List (Bytes × Bytes)} :
    stringMap.Limited plainTypes.less Fits m ↔ Fits m.length ∧ Ascending m := by
  constructor
  · rintro ⟨hlength, hsorted, _⟩
    exact ⟨hlength, pairwise_less_iff.mp hsorted⟩
  · rintro ⟨hlength, hsorted⟩
    exact ⟨hlength, pairwise_less_iff.mpr hsorted, fun _ _ => ⟨trivial, trivial⟩⟩

/-- The members of `RequestPacket`, with strings and maps as lists of bytes and of entries. -/
structure RequestPacket where
  /-- `iVersion`. -/
  iVersion : BitVec 16
  /-- `cPacketType`. -/
  cPacketType : BitVec 8
  /-- `iMessageType`. -/
  iMessageType : BitVec 32
  /-- `iRequestId`. -/
  iRequestId : BitVec 32
  /-- `sServantName`. -/
  sServantName : Bytes
  /-- `sFuncName`. -/
  sFuncName : Bytes
  /-- `sBuffer`. -/
  sBuffer : Bytes
  /-- `iTimeout`. -/
  iTimeout : BitVec 32
  /-- `context`. -/
  context : List (Bytes × Bytes)
  /-- `status`. -/
  status : List (Bytes × Bytes)
  deriving DecidableEq

namespace RequestPacket

/-- The tags and types of the members, in the order in which the generated code writes them. -/
abbrev fields : Fields :=
  .cons 1 true (.int .short) <| .cons 2 true (.int .char) <| .cons 3 true (.int .int32) <|
  .cons 4 true (.int .int32) <| .cons 5 true .string <| .cons 6 true .string <|
  .cons 7 true .bytes <| .cons 8 true (.int .int32) <| .cons 9 true stringMap <|
  .cons 10 true stringMap .nil

/-- The members as a structure of the encoding, so that the general statements apply to packets. -/
def toFields (p : RequestPacket) : fields.denote :=
  (p.iVersion, p.cPacketType, p.iMessageType, p.iRequestId, p.sServantName, p.sFuncName,
    p.sBuffer, p.iTimeout, p.context, p.status, ())

/-- A structure of the encoding as a packet, member by member. -/
def ofFields : fields.denote → RequestPacket
  | (iVersion, cPacketType, iMessageType, iRequestId, sServantName, sFuncName, sBuffer, iTimeout,
      context, status, ()) =>
    ⟨iVersion, cPacketType, iMessageType, iRequestId, sServantName, sFuncName, sBuffer, iTimeout,
      context, status⟩

/-- A new packet, whose members have their default values. -/
def init : RequestPacket := ⟨0, 0, 0, 0, [], [], [], 0, [], []⟩

/-- `resetDefautlt`, which resets the integers and texts and leaves the containers as they are. -/
def resetDefautlt (p : RequestPacket) : RequestPacket :=
  { p with
    iVersion := 0
    cPacketType := 0
    iMessageType := 0
    iRequestId := 0
    sServantName := []
    sFuncName := []
    iTimeout := 0 }

/-- `writeTo`, which writes the members in the order of their tags. -/
def writeTo (p : RequestPacket) : Except TarsException Bytes :=
  TarsOutputStream.writeTo fields p.toFields

/-- `readFrom`, which resets the old members and reads over them. -/
def readFrom (fuel : ℕ) (p : RequestPacket) : Decode RequestPacket := do
  let s ← TarsInputStream.readFrom plainTypes false fuel fields p.resetDefautlt.toFields
  pure (ofFields s)

/-- The maps are maps, and all containers have a number of elements that fits. -/
def Limited (Fits : ℕ → Prop) (p : RequestPacket) : Prop :=
  fields.Limited plainTypes.less Fits p.toFields

/-- **What `writeTo` wrote is read back**, whatever the members were before. -/
theorem reads_readFrom {p : RequestPacket} {bs : Bytes} (hp : p.Limited (· < 2 ^ 32))
    (hbs : p.writeTo = .ok bs) (fuel : ℕ) (old : RequestPacket) :
    Reads (readFrom (fuel + 1) old) bs p :=
  (reads_writeTo fields p.toFields hp bs hbs old.resetDefautlt.toFields).map ofFields

/-- The bytes that were written bound the sizes of the containers, since each element takes one. -/
theorem limited_of_writeTo {p : RequestPacket} {bs : Bytes} {N : ℕ}
    (hp : p.Limited fun _ => True) (hbs : p.writeTo = .ok bs) (hN : bs.length < N) :
    p.Limited (· < N) :=
  Tars.limited_of_writeTo fields p.toFields bs hp hbs hN

/-- A packet is within limits when its bytes and its two maps are. -/
theorem limited_iff {Fits : ℕ → Prop} {p : RequestPacket} :
    p.Limited Fits ↔ Fits p.sBuffer.length ∧ (Fits p.context.length ∧ Ascending p.context) ∧
      Fits p.status.length ∧ Ascending p.status := by
  constructor
  · rintro ⟨_, _, _, _, _, _, hbuffer, _, hcontext, hstatus, _⟩
    exact ⟨hbuffer, stringMap_limited_iff.mp hcontext, stringMap_limited_iff.mp hstatus⟩
  · rintro ⟨hbuffer, hcontext, hstatus⟩
    exact ⟨trivial, trivial, trivial, trivial, trivial, trivial, hbuffer, trivial,
      stringMap_limited_iff.mpr hcontext, stringMap_limited_iff.mpr hstatus, trivial⟩

end RequestPacket

end Tars
