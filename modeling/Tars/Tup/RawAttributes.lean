import Tars.Tup.UniRoundTrip

/-!
# Raw attributes

`putUnknown` stores a text between the begin and the end of a structure, and `getUnknown` takes
both off again if there is something between them. The texts of other names play no part until
the attributes are encoded.
-/

namespace Tars

open Decoding TarsOutputStream TarsInputStream

/-- `writeUnknownV2`, which encloses the text in the heads of a structure with tag 0. -/
def TarsOutputStream.writeUnknownV2 (s : Bytes) : Bytes :=
  writeToHead .structBegin 0 ++ s ++ writeToHead .structEnd 0

namespace UniAttribute

/-- `putUnknown`, which stores a text under a name by way of the output stream. -/
def putUnknown (a : UniAttribute) (name value : Bytes) : UniAttribute :=
  let a := { a with os := [] }
  let a := { a with os := a.os ++ writeUnknownV2 value }
  { a with data := assign name a.os a.data }

/-- `getUnknown`, which strips the first and the last byte of what is stored and refuses up to two
bytes. -/
def getUnknown (a : UniAttribute) (name : Bytes) : Except UniException Bytes :=
  match a.data.lookup name with
  | some v => if v.length > 2 then .ok ((v.drop 1).take (v.length - 2)) else .error .runtimeError
  | none => .error .runtimeError

/-- `encode` into a string or a vector. Where `write` throws, it has left something in the output
stream. -/
def encode (a : UniAttribute) (leftover : Bytes) : UniAttribute × Except UniException Bytes :=
  let a := { a with os := [] }
  match write attributes a.data 0 with
  | .error e => ({ a with os := a.os ++ leftover }, .error (.tars e))
  | .ok bs =>
    let a := { a with os := a.os ++ bs }
    (a, .ok a.os)

/-- `encode` into a buffer of a length: also the new value of `len`. -/
def encodeBuffer (a : UniAttribute) (leftover buff : Bytes) (len : ℕ) :
    UniAttribute × Bytes × ℕ × Option UniException :=
  match a.encode leftover with
  | (a, .error e) => (a, buff, len, some e)
  | (a, .ok bs) =>
    if len < bs.length then (a, buff, len, some .runtimeError)
    else (a, UniPacket.memcpy buff 0 bs, bs.length, none)

/-- `decode`, which replaces the attributes by those read from the buffer. -/
def decode (fuel : ℕ) (a : UniAttribute) (buff : Bytes) :
    Decoder BufferReader UniException UniAttribute := do
  setBuffer buff
  let data ← liftDecode (read plainTypes false fuel attributes [] 0 true)
  return { a with data }

/-- A call that changes attributes, either of a value of some type or of a raw text. -/
inductive Call (types : Codegen) where
  /-- `put`. -/
  | put (call : UniPacket.Put types)
  /-- `putUnknown`. -/
  | putUnknown (name value : Bytes)

namespace Call

variable {types : Codegen}

/-- The name of the attribute that the call changes. -/
def name : Call types → Bytes
  | put call => call.name
  | putUnknown name _ => name

/-- The attributes after the call, whether or not it threw. -/
def apply (a : UniAttribute) : Call types → UniAttribute
  | put call => (a.put call.name call.t call.v call.leftover).1
  | putUnknown name value => a.putUnknown name value

end Call

section Raw

variable {types : Codegen} {a : UniAttribute} {name value bs leftover : Bytes}

/-- Whatever `getUnknown` gives has two bytes less than what is stored, and is not empty. -/
theorem of_getUnknown_eq_ok (h : a.getUnknown name = .ok value) :
    ∃ v, a.data.lookup name = some v ∧ v.length = value.length + 2 ∧ value ≠ [] := by
  rw [getUnknown] at h
  split at h
  · rename_i v hv
    split at h
    · rename_i hlong
      have hlength := congrArg List.length (Except.ok.inj h)
      rw [List.length_take, List.length_drop] at hlength
      refine ⟨v, hv, by omega, ?_⟩
      rintro rfl
      rw [List.length_nil] at hlength
      omega
    · cases h
  · cases h

/-- What is encoded, if nothing is thrown: the attributes, and nothing of what the stream held
before. -/
theorem encode_eq_ok_iff :
    (a.encode leftover).2 = .ok bs ↔ write attributes a.data 0 = .ok bs := by
  rw [encode]
  cases hwrite : write attributes a.data 0 with
  | error e =>
    constructor
    · intro h
      cases h
    · intro h
      cases h
  | ok cs =>
    constructor
    · intro h
      exact congrArg Except.ok (Except.ok.inj h)
    · intro h
      exact congrArg Except.ok (Except.ok.inj h)

/-- Into a buffer that is long enough the same bytes are encoded. -/
theorem encodeBuffer_eq {buff : Bytes} {len : ℕ} (h : (a.encode leftover).2 = .ok bs) :
    (a.encodeBuffer leftover buff len).2 =
      if len < bs.length then (buff, len, some .runtimeError)
      else (bs ++ buff.drop bs.length, bs.length, none) := by
  rw [encodeBuffer]
  obtain ⟨b, result, hpair⟩ : ∃ b result, a.encode leftover = (b, result) := ⟨_, _, rfl⟩
  rw [hpair] at h ⊢
  obtain rfl : result = .ok bs := h
  dsimp only
  split
  · rfl
  · rw [UniPacket.memcpy, List.take_zero, List.nil_append, Nat.zero_add]

/-! ### The round trip -/

/-- Decoding the bytes into any attributes, `getUnknown` gives the text. -/
def Recovers (bs name value : Bytes) : Prop :=
  ∀ fuel (c : UniAttribute) r, ∃ c' r', c.decode (fuel + 1) bs r = .ok c' r' ∧
    c'.getUnknown name = .ok value

/-- When bytes are decoded, and to what: the attributes are replaced, and all other members stay. -/
theorem decode_eq_ok_iff {fuel : ℕ} {c c' : UniAttribute} {r r' : BufferReader} :
    c.decode fuel bs r = .ok c' r' ↔ ∃ data,
      read plainTypes false fuel attributes [] 0 true (.setBuffer bs bs.length) = .ok data r' ∧
      c' = { c with data } := by
  rw [decode]
  constructor
  · intro h
    obtain ⟨_, _, hset, h⟩ := bind_eq_ok_iff.mp h
    obtain ⟨-, rfl⟩ := Outcome.ok.inj hset
    obtain ⟨data, t, hdata, h⟩ := bind_eq_ok_iff.mp h
    obtain ⟨rfl, rfl⟩ := Outcome.ok.inj h
    exact ⟨data, UniPacket.liftDecode_eq_ok_iff.mp hdata, rfl⟩
  · rintro ⟨data, hdata, rfl⟩
    refine bind_eq_ok_iff.mpr ⟨(), _, rfl, ?_⟩
    exact bind_eq_ok_iff.mpr ⟨data, r', UniPacket.liftDecode_eq_ok_iff.mpr hdata, rfl⟩

/-- A text that comes back is not empty, and its size fits 32 bits. -/
theorem Recovers.fits (h : Recovers bs name value) :
    value ≠ [] ∧ value.length + 2 < 2 ^ 32 := by
  obtain ⟨c', r', hdecode, hget⟩ := h 0 ⟨[], 0, []⟩ (.setBuffer [] 0)
  obtain ⟨data, hread, rfl⟩ := decode_eq_ok_iff.mp hdecode
  obtain ⟨v, hlookup, hlength, hne⟩ := of_getUnknown_eq_ok hget
  have hbytes : Yields (read plainTypes false 1 .bytes (plainTypes.init .bytes) 1 true)
      fun v : Bytes => v.length < 2 ^ 32 := yields_readBytes _ 1
  have hyields := (yields_read_map hbytes [] 0 _ _ _ hread).2
  obtain ⟨front, back, heq, -⟩ := List.lookup_eq_some_iff.mp hlookup
  have hmem : (name, v) ∈ data := by
    have hdata : data = front ++ (name, v) :: back := heq
    rw [hdata]
    exact List.mem_append_right front List.mem_cons_self
  have hfits : v.length < 2 ^ 32 := hyields _ hmem
  exact ⟨hne, by omega⟩

/-- Calls that store an integer under a new name and a text over the old one. -/
private abbrev sampleCalls : List (Call plainTypes) :=
  [.put ⟨[98], .int .int32, (300 : BitVec 32), trivial, []⟩, .putUnknown [99] []]

end Raw

end UniAttribute

end Tars
