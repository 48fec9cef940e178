import Tars.Tup.Evolution
import Tars.Tup.RequestF

/-!
# Response packets

A response packet has seven required members and two optional ones, which are written only if they
are not empty. A new packet that is read from exactly what was written gets all members back.
-/

namespace Tars

open Decoding TarsOutputStream TarsInputStream

/-- The members of `ResponsePacket`, with strings and maps as lists of bytes and of entries. -/
structure ResponsePacket where
  /-- `iVersion`. -/
  iVersion : BitVec 16
  /-- `cPacketType`. -/
  cPacketType : BitVec 8
  /-- `iRequestId`. -/
  iRequestId : BitVec 32
  /-- `iMessageType`. -/
  iMessageType : BitVec 32
  /-- `iRet`. -/
  iRet : BitVec 32
  /-- `sBuffer`. -/
  sBuffer : Bytes
  /-- `status`. -/
  status : List (Bytes × Bytes)
  /-- `sResultDesc`. -/
  sResultDesc : Bytes
  /-- `context`. -/
  context : List (Bytes × Bytes)
  deriving DecidableEq

namespace ResponsePacket

/-- The tags and types of the required members, which every packet has. -/
abbrev fields : Fields :=
  .cons 1 true (.int .short) <| .cons 2 true (.int .char) <| .cons 3 true (.int .int32) <|
  .cons 4 true (.int .int32) <| .cons 5 true (.int .int32) <| .cons 6 true .bytes <|
  .cons 7 true stringMap .nil

/-- The required members as a structure of the encoding. -/
def toFields (p : ResponsePacket) : fields.denote :=
  (p.iVersion, p.cPacketType, p.iRequestId, p.iMessageType, p.iRet, p.sBuffer, p.status, ())

/-- A structure of the encoding and the optional members as a packet. -/
def ofFields : fields.denote → Bytes → List (Bytes × Bytes) → ResponsePacket
  | (iVersion, cPacketType, iRequestId, iMessageType, iRet, sBuffer, status, ()), sResultDesc,
      context =>
    ⟨iVersion, cPacketType, iRequestId, iMessageType, iRet, sBuffer, status, sResultDesc, context⟩

/-- A new packet, whose members have their default values. -/
def init : ResponsePacket := ⟨0, 0, 0, 0, 0, [], [], [], []⟩

/-- `resetDefautlt`, which resets the integers and texts and leaves the containers as they are. -/
def resetDefautlt (p : ResponsePacket) : ResponsePacket :=
  { p with
    iVersion := 0
    cPacketType := 0
    iRequestId := 0
    iMessageType := 0
    iRet := 0
    sResultDesc := [] }

/-- The `write` of `sResultDesc`, which is left out when it is empty. -/
def writeDesc (p : ResponsePacket) : Except TarsException Bytes :=
  if p.sResultDesc ≠ [] then write .string p.sResultDesc 8 else .ok []

/-- The `write` of `context`, which is left out when it is empty. -/
def writeContext (p : ResponsePacket) : Except TarsException Bytes :=
  if p.context ≠ [] then write stringMap p.context 9 else .ok []

/-- `writeTo`, which writes the required members and then the optional ones that are not empty. -/
def writeTo (p : ResponsePacket) : Except TarsException Bytes := do
  let required ← TarsOutputStream.writeTo fields p.toFields
  let desc ← p.writeDesc
  let context ← p.writeContext
  return required ++ (desc ++ context)

/-- `readFrom`, which resets the old members and reads over them. -/
def readFrom (fuel : ℕ) (p : ResponsePacket) : Decode ResponsePacket := do
  let s ← TarsInputStream.readFrom plainTypes false fuel fields p.resetDefautlt.toFields
  let desc ← read plainTypes false fuel .string p.resetDefautlt.sResultDesc 8 false
  let context ← read plainTypes false fuel stringMap p.resetDefautlt.context 9 false
  pure (ofFields s desc context)

section RoundTrip

variable {p : ResponsePacket} {r : BufferReader} {fuel : ℕ} {bs : Bytes}

/-- An optional member that was not written is not found. -/
private theorem read_missing {t : Ty} {old : t.denote} {tag : UInt8}
    (h : skipToTagLoop (skipField false (fuel + 1)) tag (fuel + 1) r = .ok none r) :
    read plainTypes false (fuel + 1) t old tag false r = .ok old r :=
  read_absent t old (attempt_of_ok h)

/-- The bytes that `writeTo` has written are those of its three parts one after the other. -/
theorem writeTo_ok (h : p.writeTo = .ok bs) : ∃ required desc context,
    TarsOutputStream.writeTo fields p.toFields = .ok required ∧
    p.writeDesc = .ok desc ∧ p.writeContext = .ok context ∧ bs = required ++ (desc ++ context) := by
  obtain ⟨required, hrequired, h⟩ := bind_eq_ok h
  obtain ⟨desc, hdesc, h⟩ := bind_eq_ok h
  obtain ⟨context, hcontext, h⟩ := bind_eq_ok h
  exact ⟨required, desc, context, hrequired, hdesc, hcontext, (Except.ok.inj h).symm⟩

/-- Reading `context` at the end of a packet, where a packet without one has no more bytes. -/
private theorem read_context (hmap : Ascending p.context) (hlength : bs.length < 2 ^ 32)
    (hbs : p.writeContext = .ok bs) (h : At r bs) (hmemory : r.bufLen ≤ r.buf.length) :
    read plainTypes false (fuel + 1) stringMap init.resetDefautlt.context 9 false r =
      .ok p.context (r.advance bs.length) := by
  by_cases hempty : p.context = []
  · rw [writeContext, if_neg (not_not.mpr hempty)] at hbs
    obtain rfl := Except.ok.inj hbs
    rw [hempty]
    exact read_missing (skipToTagLoop_end h hmemory)
  · rw [writeContext, if_pos hempty] at hbs
    have hlimited : stringMap.Limited plainTypes.less (· < 2 ^ 32) p.context :=
      limited_of_write stringMap p.context 9 bs (stringMap_limited_iff.mpr ⟨trivial, hmap⟩) hbs
        hlength
    exact reads_write stringMap p.context hlimited 9 bs hbs [] false r [] (by rwa [List.append_nil])

/-- Reading `sResultDesc` in front of `context`, whether or not it was written. -/
private theorem read_desc {context : Bytes}
    (hbs : p.writeDesc = .ok bs) (hcontext : p.writeContext = .ok context)
    (h : At r (bs ++ context)) (hmemory : r.bufLen ≤ r.buf.length) :
    read plainTypes false (fuel + 1) .string init.resetDefautlt.sResultDesc 8 false r =
      .ok p.sResultDesc (r.advance bs.length) := by
  by_cases hempty : p.sResultDesc = []
  · rw [writeDesc, if_neg (not_not.mpr hempty)] at hbs
    obtain rfl := Except.ok.inj hbs
    rw [hempty]
    rw [List.nil_append] at h
    by_cases hnone : p.context = []
    · rw [writeContext, if_neg (not_not.mpr hnone)] at hcontext
      obtain rfl := Except.ok.inj hcontext
      exact read_missing (skipToTagLoop_end h hmemory)
    · rw [writeContext, if_pos hnone] at hcontext
      obtain ⟨-, rfl⟩ := write_map_ok hcontext
      rw [List.append_assoc] at h
      exact read_missing (skipToTagLoop_stop h (.inr (by decide)))
  · rw [writeDesc, if_pos hempty] at hbs
    exact reads_write .string p.sResultDesc trivial 8 bs hbs [] false r context h

/-- **A new packet gets back what was written**, if nothing else is in the buffer. -/
theorem readFrom_init (hmaps : Ascending p.status ∧ Ascending p.context)
    (hbs : p.writeTo = .ok bs) (hlength : bs.length < 2 ^ 32) (h : At r bs)
    (hmemory : r.bufLen ≤ r.buf.length) (fuel : ℕ) :
    readFrom (fuel + 1) init r = .ok p (r.advance bs.length) := by
  obtain ⟨required, desc, context, hrequired, hdesc, hcontext, rfl⟩ := writeTo_ok hbs
  rw [List.length_append, List.length_append] at hlength
  have hmap : fields.Limited plainTypes.less (fun _ => True) p.toFields :=
    ⟨trivial, trivial, trivial, trivial, trivial, trivial,
      stringMap_limited_iff.mpr ⟨trivial, hmaps.1⟩, trivial⟩
  have hlimited : fields.Limited plainTypes.less (· < 2 ^ 32) p.toFields :=
    limited_of_writeTo fields p.toFields required hmap hrequired (by omega)
  have hread : TarsInputStream.readFrom plainTypes false (fuel + 1) fields
      init.resetDefautlt.toFields r = .ok p.toFields (r.advance required.length) :=
    reads_writeTo fields p.toFields hlimited required hrequired _ r _ h
  rw [readFrom, bind_of_ok hread, bind_of_ok (read_desc hdesc hcontext h.advance hmemory),
    bind_of_ok (read_context hmaps.2 (by omega) hcontext h.advance.advance hmemory)]
  rw [BufferReader.advance_advance, BufferReader.advance_advance, List.length_append,
    List.length_append]
  rfl

end RoundTrip

end ResponsePacket

end Tars
