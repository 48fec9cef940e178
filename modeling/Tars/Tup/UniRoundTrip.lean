import Tars.Tup.UniPacket

/-!
# The round trip of TUP packets

Every size is written in 32 bits. A packet comes back from its encoding as long as the attributes
take fewer bytes and the two maps have fewer entries than that; the old contents of the streams
and of the packet that is decoded into play no part.
-/

namespace Tars

open Decoding TarsOutputStream TarsInputStream

namespace UniPacket

/-! ### Sizes -/

/-- The number of bytes of an `Int32` that is the size of a container. -/
def sizeLength (n : ℕ) : ℕ := (writeInt32 (BitVec.ofNat 32 n) 0).length

/-- The number of bytes of an attribute: its name and its value with their heads and sizes. -/
def attributeLength (e : Bytes × Bytes) : ℕ :=
  (if e.1.length > 255 then 5 else 2) + e.1.length + (2 + sizeLength e.2.length + e.2.length)

/-- The number of bytes of all attributes, with the head and the size of the map. -/
def attributesLength (data : List (Bytes × Bytes)) : ℕ :=
  1 + sizeLength data.length + (data.map attributeLength).sum

section Sizes

variable {Fits : ℕ → Prop} {m : List (Bytes × Bytes)} {bs : Bytes}

/-- Attributes are within limits when their number, the order of their names and the sizes of their
values are. -/
theorem attributes_limited_iff : attributes.Limited plainTypes.less Fits m ↔
    Fits m.length ∧ Ascending m ∧ ∀ e ∈ m, Fits e.2.length := by
  constructor
  · rintro ⟨hlength, hsorted, hall⟩
    exact ⟨hlength, pairwise_less_iff.mp hsorted, fun e he => (hall e he).2⟩
  · rintro ⟨hlength, hsorted, hall⟩
    exact ⟨hlength, pairwise_less_iff.mpr hsorted, fun e he => ⟨trivial, hall e he⟩⟩

/-- The length of a string that was written: its head, its size and its bytes. -/
private theorem length_of_writeString {s : Bytes} {tag : UInt8} (htag : tag < 15)
    (h : writeString s tag = .ok bs) :
    bs.length = (if s.length > 255 then 5 else 2) + s.length := by
  obtain ⟨hlong, -, rfl⟩ | ⟨hshort, rfl⟩ := writeString_cases h
  · rw [List.length_append, List.length_append, length_writeToHead, headLen, if_pos htag,
      length_netBytes, if_pos hlong, ← Nat.add_assoc]
  · rw [List.length_append, List.length_append, length_writeToHead, headLen, if_pos htag,
      LittleEndian.length_store, if_neg (Nat.not_lt.mpr hshort), ← Nat.add_assoc]

/-- The length of an attribute that was written, its name and its value. -/
private theorem length_of_writeEntry {e : Bytes × Bytes}
    (h : writeEntry .string .bytes e = .ok bs) : bs.length = attributeLength e := by
  obtain ⟨key, value, hkey, hvalue, rfl⟩ := writeEntry_ok h
  have hvalue' : writeBytes e.2 1 = value := Except.ok.inj hvalue
  have hheads : headLen 1 + headLen 0 = 2 := rfl
  rw [List.length_append, length_of_writeString (by decide) hkey, ← hvalue', writeBytes,
    List.length_append, List.length_append, List.length_append, length_writeToHead,
    length_writeToHead, hheads, attributeLength, sizeLength]

/-- The length of all attributes that were written is that of their names and values, with the heads
and sizes around them. -/
theorem length_of_write (h : write attributes m 0 = .ok bs) : bs.length = attributesLength m := by
  obtain ⟨hok, rfl⟩ := write_map_ok h
  have hentries : (m.map fun e => (written (writeEntry .string .bytes e)).length) =
      m.map attributeLength :=
    List.map_congr_left fun e he => length_of_writeEntry (hok e he)
  have hhead : headLen 0 = 1 := rfl
  rw [List.length_append, List.length_append, length_writeToHead, List.length_flatMap, hentries,
    hhead, attributesLength, sizeLength]

end Sizes

/-! ### Decoding -/

section Decode

/-- What a decoder of the encoding delivers is what the decoder itself delivers from the same state.
-/
theorem liftDecode_eq_ok_iff {α : Type} {m : Decode α} {r r' : BufferReader} {v : α} :
    liftDecode m r = .ok v r' ↔ m r = .ok v r' := by
  rw [liftDecode]
  cases m r <;> simp

/-- When a frame is decoded, and to what: the request is read, and the attributes are read from its
buffer. -/
theorem decode_frame_eq_ok_iff {fuel : ℕ} {old q : UniPacket} {os : Bytes} {r r' : BufferReader} :
    decode fuel old (ProxyProtocol.frame os) r = .ok q r' ↔ ∃ request t data,
      old.toRequestPacket.readFrom fuel (.setBuffer os os.length) = .ok request t ∧
      read plainTypes false fuel attributes [] 0 true
        (.setBuffer request.sBuffer request.sBuffer.length) = .ok data r' ∧
      q = { old with toRequestPacket := request, iVer := request.iVersion, data } := by
  have hdrop : (ProxyProtocol.frame os).drop 4 = os :=
    List.drop_left' (LittleEndian.length_store 4 _)
  rw [decode, ProxyProtocol.length_frame, if_neg (by omega), hdrop]
  constructor
  · intro h
    obtain ⟨_, _, hset, h⟩ := bind_eq_ok_iff.mp h
    obtain ⟨-, rfl⟩ := Outcome.ok.inj hset
    obtain ⟨request, t, hrequest, h⟩ := bind_eq_ok_iff.mp h
    obtain ⟨_, _, hset, h⟩ := bind_eq_ok_iff.mp h
    obtain ⟨-, rfl⟩ := Outcome.ok.inj hset
    obtain ⟨data, t', hdata, h⟩ := bind_eq_ok_iff.mp h
    obtain ⟨rfl, rfl⟩ := Outcome.ok.inj h
    exact ⟨request, t, data, liftDecode_eq_ok_iff.mp hrequest, liftDecode_eq_ok_iff.mp hdata, rfl⟩
  · rintro ⟨request, t, data, hrequest, hdata, rfl⟩
    refine bind_eq_ok_iff.mpr ⟨(), _, rfl, ?_⟩
    refine bind_eq_ok_iff.mpr ⟨request, t, liftDecode_eq_ok_iff.mpr hrequest, ?_⟩
    refine bind_eq_ok_iff.mpr ⟨(), _, rfl, ?_⟩
    exact bind_eq_ok_iff.mpr ⟨data, r', liftDecode_eq_ok_iff.mpr hdata, rfl⟩

end Decode

/-! ### Sizes that do not fit -/

section Truncated

variable {types : Codegen} {guard : Bool} {fuel : ℕ} {r r' : BufferReader}

/-- The first field has been read, and the others follow it. -/
private theorem readFrom_cons_ok {tag : UInt8} {isRequire : Bool} {t : Ty} {fs : Fields}
    {v w : t.denote} {vs : fs.denote} {s : t.denote × fs.denote} {bs rest : Bytes}
    (h : At r (bs ++ rest)) (hread : Reads (read types guard fuel t v tag isRequire) bs w)
    (hok : readFrom types guard fuel (.cons tag isRequire t fs) (v, vs) r = .ok s r') :
    s.1 = w ∧ ∃ r'', At r'' rest ∧ readFrom types guard fuel fs vs r'' = .ok s.2 r' := by
  rw [readFrom, bind_of_ok (hread r rest h)] at hok
  obtain ⟨ws, t', hrest, hok⟩ := bind_eq_ok_iff.mp hok
  obtain ⟨rfl, rfl⟩ := Outcome.ok.inj hok
  exact ⟨rfl, _, h.advance, hrest⟩

/-- What `writeTo` has written begins with the first field. -/
private theorem writeTo_cons_ok {tag : UInt8} {isRequire : Bool} {t : Ty} {fs : Fields}
    {v : t.denote} {vs : fs.denote} {bs : Bytes}
    (h : TarsOutputStream.writeTo (.cons tag isRequire t fs) (v, vs) = .ok bs) :
    ∃ field rest, write t v tag = .ok field ∧ TarsOutputStream.writeTo fs vs = .ok rest ∧
      bs = field ++ rest := by
  rw [TarsOutputStream.writeTo] at h
  obtain ⟨field, hfield, h⟩ := bind_eq_ok h
  obtain ⟨rest, hrest, h⟩ := bind_eq_ok h
  exact ⟨field, rest, hfield, hrest, (Except.ok.inj h).symm⟩

/-- A field that fits has been read, and the others follow it. -/
private theorem readFrom_writeTo {tag : UInt8} {isRequire : Bool} {t : Ty} {fs : Fields}
    {v old : t.denote} {vs olds : fs.denote} {s : t.denote × fs.denote} {bs : Bytes}
    (hos : TarsOutputStream.writeTo (.cons tag isRequire t fs) (v, vs) = .ok bs)
    (h : At r bs) (hv : t.Limited types.less (· < 2 ^ 32) v)
    (hok : readFrom types guard (fuel + 1) (.cons tag isRequire t fs) (old, olds) r = .ok s r') :
    ∃ rest r'', TarsOutputStream.writeTo fs vs = .ok rest ∧ At r'' rest ∧
      readFrom types guard (fuel + 1) fs olds r'' = .ok s.2 r' := by
  obtain ⟨field, rest, hfield, hrest, rfl⟩ := writeTo_cons_ok hos
  obtain ⟨-, r'', hat, hok⟩ := readFrom_cons_ok h (reads_write t v hv tag field hfield old _) hok
  exact ⟨rest, r'', hrest, hat, hok⟩

/-- Only the lower 32 bits of the length of a vector are written. -/
private theorem writeBytes_mod (v : Bytes) (tag : UInt8) :
    writeBytes v tag =
      writeBytes (v.take (v.length % 2 ^ 32)) tag ++ v.drop (v.length % 2 ^ 32) := by
  have hlength : (v.take (v.length % 2 ^ 32)).length = v.length % 2 ^ 32 :=
    List.length_take_of_le (Nat.mod_le _ _)
  have hsize : BitVec.ofNat 32 (v.length % 2 ^ 32) = BitVec.ofNat 32 v.length := by
    apply BitVec.eq_of_toNat_eq
    rw [BitVec.toNat_ofNat, BitVec.toNat_ofNat, Nat.mod_mod]
  rw [writeBytes, writeBytes, hlength, hsize, List.append_assoc _ (List.take _ v),
    List.take_append_drop]

/-- **What `readFrom` delivers for a packet of any size.** -/
theorem truncated_of_readFrom {p request old : RequestPacket} {os : Bytes}
    (hos : p.writeTo = .ok os) (h : At r os)
    (hok : old.readFrom (fuel + 1) r = .ok request r') :
    request.sBuffer = p.sBuffer.take (p.sBuffer.length % 2 ^ 32) ∧
      request.context.length < 2 ^ 32 ∧ request.status.length < 2 ^ 32 := by
  obtain ⟨s, t, hfields, hok⟩ := bind_eq_ok_iff.mp hok
  obtain ⟨rfl, -⟩ := Outcome.ok.inj hok
  obtain ⟨_, _, hos, h, hok⟩ := readFrom_writeTo hos h trivial hfields
  obtain ⟨_, _, hos, h, hok⟩ := readFrom_writeTo hos h trivial hok
  obtain ⟨_, _, hos, h, hok⟩ := readFrom_writeTo hos h trivial hok
  obtain ⟨_, _, hos, h, hok⟩ := readFrom_writeTo hos h trivial hok
  obtain ⟨_, _, hos, h, hok⟩ := readFrom_writeTo hos h trivial hok
  obtain ⟨_, _, hos, h, hok⟩ := readFrom_writeTo hos h trivial hok
  obtain ⟨field, rest, hfield, -, rfl⟩ := writeTo_cons_ok hos
  obtain rfl : writeBytes p.sBuffer 7 = field := Except.ok.inj hfield
  rw [writeBytes_mod, List.append_assoc] at h
  have hshort : (p.sBuffer.take (p.sBuffer.length % 2 ^ 32)).length < 2 ^ 32 :=
    (List.length_take_le _ _).trans_lt (Nat.mod_lt _ (by decide))
  have hread (old : Bytes) : Reads (read plainTypes false (fuel + 1) .bytes old 7 true)
      (writeBytes (p.sBuffer.take (p.sBuffer.length % 2 ^ 32)) 7)
      (p.sBuffer.take (p.sBuffer.length % 2 ^ 32)) := reads_readBytes _ old hshort 7 true
  obtain ⟨hbuffer, _, _, hok⟩ := readFrom_cons_ok h (hread _) hok
  have hmaps := yields_readFrom_cons (P := fun _ => True) Yields.trivial
    (yields_readFrom_cons (yields_read_map Yields.trivial _ 9)
      (yields_readFrom_cons (yields_read_map Yields.trivial _ 10) Yields.trivial)) _ _ _ hok
  exact ⟨hbuffer, hmaps.2.1.1, hmaps.2.2.1.1⟩

end Truncated

/-! ### Round trips -/

section RoundTrip

variable {types : Codegen} {calls : List (Put types)} {p start : UniPacket}
  {leftover buff bytes sBuffer os : Bytes}

/-- **No form of `encode` touches its output** when it throws, and the forms throw alike, but for a
buffer that is too short. -/
def LeavesOutput (p : UniPacket) : Prop :=
  ∀ leftover buff buff' e, (p.encode leftover buff).2 = (buff', some e) → buff' = buff ∧
    (∀ old, (p.encodeVector leftover old).2 = (old, some e)) ∧
      ∀ old len, (p.encodeBuffer leftover old len).2 = (old, len, some e)

/-- All forms of `encode` produce these bytes, except that a buffer that is too short is left
alone. -/
def Agrees (p : UniPacket) (leftover bytes : Bytes) : Prop :=
  ∀ buff, (p.encode leftover buff).2 = (bytes, none) ∧
    (p.encodeVector leftover buff).2 = (bytes, none) ∧
    ∀ len, (p.encodeBuffer leftover buff len).2 =
      if len < bytes.length then (buff, len, some .runtimeError)
      else (bytes ++ buff.drop bytes.length, bytes.length, none)

/-- Decoding the bytes gives every other packet the members and the attributes, and `get` the last
value that was put under each name. -/
def Restores (calls : List (Put types)) (p : UniPacket) (bytes : Bytes) : Prop :=
  ∀ fuel old r, ∃ q r', decode (fuel + 1) old bytes r = .ok q r' ∧
    q.toRequestPacket = { p.toRequestPacket with sBuffer := q.sBuffer } ∧ q.data = p.data ∧
    ∀ name call, last name calls = some call → ∀ fuel' old' s, ∃ s',
      UniAttribute.get types (fuel' + 1) q.toUniAttribute name call.t old' s = .ok call.v s'

/-- The sizes in a packet fit 32 bits, in which they are written. -/
structure SizesFit (p : UniPacket) : Prop where
  /-- The bytes of the attributes. -/
  data : attributesLength p.data < 2 ^ 32
  /-- The number of the entries of `context`. -/
  context : p.context.length < 2 ^ 32
  /-- The number of the entries of `status`. -/
  status : p.status.length < 2 ^ 32

instance (p : UniPacket) : Decidable p.SizesFit :=
  decidable_of_iff (attributesLength p.data < 2 ^ 32 ∧ p.context.length < 2 ^ 32 ∧
    p.status.length < 2 ^ 32) ⟨fun ⟨h, h', h''⟩ => ⟨h, h', h''⟩, fun ⟨h, h', h''⟩ => ⟨h, h', h''⟩⟩

/-- An exception leaves the output as it was, since nothing is stored before everything is encoded.
-/
theorem leavesOutput (p : UniPacket) : p.LeavesOutput := by
  intro leftover buff buff' e h
  have hstring (old : Bytes) : (p.encode leftover old).2 = (old, some e) := by
    rw [encode] at h ⊢
    obtain ⟨q, e', hthrown, -⟩ | ⟨q, _, hok, -⟩ := doEncode_cases p leftover
    · rw [hthrown] at h ⊢
      obtain ⟨-, he⟩ := Prod.mk.inj h
      exact congrArg (Prod.mk old) he
    · rw [hok] at h
      cases (Prod.mk.inj h).2
  rw [hstring] at h
  refine ⟨(Prod.mk.inj h).1.symm, fun old => ?_, fun old len => ?_⟩
  · rw [encodeVector_eq, hstring]
  · rw [encodeBuffer_eq, hstring]

/-- The forms agree where the string is encoded: the vector and the raw buffer get the same bytes.
-/
theorem agrees (h : (p.encode leftover buff).2 = (bytes, none)) : p.Agrees leftover bytes := by
  intro old
  have hstring : (p.encode leftover old).2 = (bytes, none) :=
    encode_eq_ok_iff.mpr (encode_eq_ok_iff.mp h)
  refine ⟨hstring, ?_, fun len => ?_⟩
  · rw [encodeVector_eq, hstring]
  · rw [encodeBuffer_eq, hstring]

/-- The encoding of a value gives the value back, if it has a size. -/
private theorem get_eq {a : UniAttribute} {name bs : Bytes} {call : Put types}
    (hlookup : a.data.lookup name = some bs) (hwrite : write call.t call.v 0 = .ok bs)
    (hlength : bs.length < 2 ^ 32) (fuel : ℕ) (old : call.t.denote) (r : BufferReader) :
    ∃ r', UniAttribute.get types (fuel + 1) a name call.t old r = .ok call.v r' := by
  have hlimited := limited_of_write call.t call.v 0 bs call.isMap hwrite hlength
  have hread : Reads (read types false (fuel + 1) call.t old 0 true) bs call.v :=
    reads_write call.t call.v hlimited 0 bs hwrite old true
  have hok := hread.setBuffer (by omega)
  rw [UniAttribute.get, hlookup]
  exact ⟨_, bind_eq_ok_iff.mpr ⟨(), _, rfl, liftDecode_eq_ok_iff.mpr hok⟩⟩

/-- What `last` finds is what was put last under this name, so that is what is stored. -/
private theorem stored_of_last {name : Bytes} {call : Put types}
    (h : last name calls = some call) :
    ∃ bs, call.stored name = some bs ∧ write call.t call.v 0 = .ok bs := by
  have hsome : (call.stored name).isSome :=
    List.find?_some (p := fun call : Put types => (call.stored name).isSome) h
  obtain ⟨bs, hbs⟩ := Option.isSome_iff_exists.mp hsome
  refine ⟨bs, hbs, ?_⟩
  rw [Put.stored] at hbs
  split at hbs
  · cases hwrite : write call.t call.v 0 with
    | error e =>
      rw [hwrite] at hbs
      cases hbs
    | ok cs =>
      rw [hwrite] at hbs
      exact congrArg Except.ok (Option.some.inj hbs)
  · cases hbs

/-- A packet whose sizes fit comes back, with all its members and attributes. -/
theorem restores_of_sizesFit (hstart : start.data = [])
    (hmaps : Ascending start.context ∧ Ascending start.status)
    (hencodes : (start.puts calls).Encodes sBuffer os) (hfits : os.length < 2 ^ 63)
    (hsizes : (start.puts calls).SizesFit) :
    Restores calls (start.puts calls) (ProxyProtocol.frame os) := by
  obtain ⟨hsorted, hlookup⟩ := puts_spec hstart calls
  obtain ⟨-, -, hdata, hrequest⟩ := hencodes
  have hrest := request_puts start calls
  rw [← hrest] at hmaps
  have hlength : sBuffer.length < 2 ^ 32 := by
    rw [length_of_write hdata]
    exact hsizes.data
  have hattributes := limited_of_write attributes (start.puts calls).data 0 sBuffer
    (attributes_limited_iff.mpr ⟨trivial, hsorted, fun _ _ => trivial⟩) hdata hlength
  have hvalues := (attributes_limited_iff.mp hattributes).2.2
  have hlimited : RequestPacket.Limited (· < 2 ^ 32)
      { (start.puts calls).toRequestPacket with sBuffer } :=
    RequestPacket.limited_iff.mpr ⟨hlength, ⟨hsizes.context, hmaps.1⟩, hsizes.status, hmaps.2⟩
  intro fuel old r
  refine ⟨_, _, decode_frame_eq_ok_iff.mpr ⟨_, _, _,
    (RequestPacket.reads_readFrom hlimited hrequest fuel _).setBuffer hfits,
    (reads_write attributes _ hattributes 0 sBuffer hdata [] true).setBuffer (by omega), rfl⟩,
    rfl, rfl, ?_⟩
  intro name call hlast
  obtain ⟨bs, hstored, hwrite⟩ := stored_of_last hlast
  have hfound : (start.puts calls).data.lookup name = some bs := by
    rw [hlookup, hlast, Option.bind_some, hstored]
  have hmem : (name, bs) ∈ (start.puts calls).data := by
    obtain ⟨front, back, heq, -⟩ := List.lookup_eq_some_iff.mp hfound
    rw [heq]
    exact List.mem_append_right front List.mem_cons_self
  exact get_eq hfound hwrite (hvalues _ hmem)

/-- Only a packet whose sizes fit comes back: a size that does not fit is cut, and the rest is not
found. -/
theorem sizesFit_of_restores (hencodes : p.Encodes sBuffer os) (hfits : os.length < 2 ^ 63)
    (h : Restores calls p (ProxyProtocol.frame os)) : p.SizesFit := by
  obtain ⟨-, -, hdata, hrequest⟩ := hencodes
  obtain ⟨q, r', hdecode, hsame, hattributes, -⟩ := h 0 p (.setBuffer [] 0)
  obtain ⟨request, t, data, hread, hok, rfl⟩ := decode_frame_eq_ok_iff.mp hdecode
  obtain ⟨hbuffer, hcontext, hstatus⟩ :=
    truncated_of_readFrom hrequest (At.setBuffer hfits) hread
  have hcontext' : request.context = p.context := (congrArg RequestPacket.context hsame :)
  have hstatus' : request.status = p.status := (congrArg RequestPacket.status hsame :)
  obtain rfl : data = p.data := hattributes
  refine ⟨?_, hcontext' ▸ hcontext, hstatus' ▸ hstatus⟩
  by_contra hlong
  rw [← length_of_write hdata] at hlong
  have hbytes : Yields (read plainTypes false 1 .bytes (plainTypes.init .bytes) 1 true)
      fun v : Bytes => v.length < 2 ^ 32 := yields_readBytes _ 1
  have hyields := yields_read_map hbytes [] 0 _ _ _ hok
  have hshort : request.sBuffer.length < 2 ^ 32 := by
    rw [hbuffer]
    exact (List.length_take_le _ _).trans_lt (Nat.mod_lt _ (by decide))
  have hprefix : request.sBuffer <+: sBuffer := by
    rw [hbuffer]
    exact List.take_prefix _ _
  exact Needs.read_stringBytes (by decide) hyields.1 hyields.2 hdata _ _
    (At.setBuffer (by omega)) hprefix (by omega) _ _ hok

/-- **The round trip of packets** succeeds exactly when all sizes fit 32 bits: the attributes in
bytes, the two maps in entries. An exception never touches the output, and all forms agree. -/
theorem restores_iff (start : UniPacket) (calls : List (Put types)) (hstart : start.data = [])
    (hmaps : Ascending start.context ∧ Ascending start.status) :
    (start.puts calls).LeavesOutput ∧ ∀ leftover buff bytes,
      ((start.puts calls).encode leftover buff).2 = (bytes, none) → bytes.length < 2 ^ 63 →
        (start.puts calls).Agrees leftover bytes ∧
          (Restores calls (start.puts calls) bytes ↔ (start.puts calls).SizesFit) := by
  refine ⟨leavesOutput _, fun leftover buff bytes hencode hfits => ⟨agrees hencode, ?_⟩⟩
  obtain ⟨sBuffer, os, hencodes, rfl⟩ := encode_eq_ok_iff.mp hencode
  rw [ProxyProtocol.length_frame] at hfits
  constructor
  · exact sizesFit_of_restores hencodes (by omega)
  · exact restores_of_sizesFit hstart hmaps hencodes (by omega)

/-- A packet without attributes, which has used its output stream before. -/
private def samplePacket : UniPacket :=
  { RequestPacket.init with
    iRequestId := 7, sServantName := [83], sFuncName := [102], context := [([97], [98])]
    data := [], iVer := 3, os := [1] }

/-- A string, an integer, and a vector in place of the string. -/
private def samplePuts : List (Put plainTypes) :=
  [⟨[98], .string, [120], trivial, []⟩, ⟨[97], .int .int32, 300, trivial, []⟩,
    ⟨[98], .vector .bool, [true, false], ⟨trivial, fun _ _ => trivial⟩, []⟩]

/-- The encoding of the sample packet as it goes over the wire. -/
private def sampleBytes : Bytes :=
  [0, 0, 0, 57, 28, 44, 60, 64, 7, 86, 1, 83, 102, 1, 102, 125, 0, 0, 26, 8, 0, 2, 6, 1, 97, 29, 0,
    0, 3, 1, 1, 44, 6, 1, 98, 29, 0, 0, 6, 9, 0, 2, 0, 1, 12, 140, 152, 0, 1, 6, 1, 97, 22, 1, 98,
    168, 12]

/-- The packet with the three attributes comes back, under their names and with their values. -/
theorem restores_iff_sample : Restores samplePuts (samplePacket.puts samplePuts) sampleBytes := by
  obtain ⟨-, h⟩ := restores_iff samplePacket samplePuts rfl (by decide)
  exact (h [] [] sampleBytes rfl (by decide)).2.mpr (by decide +kernel)

/-- The size of a container takes a few bytes. -/
private theorem sizeLength_le (n : ℕ) : sizeLength n ≤ 9 := by
  rw [sizeLength, writeInt32_eq, length_encodeInteger]
  have hhead : headLen 0 = 1 := rfl
  rcases integerSize_cases (BitVec.ofNat 32 n).toInt with
    ⟨h, -⟩ | ⟨h, -⟩ | ⟨h, -⟩ | ⟨h, -⟩ | h <;> omega

/-- A call of `put` with a vector of bytes. -/
private abbrev hugePut (v : Bytes) : Put plainTypes := ⟨[97], .bytes, v, trivial, []⟩

/-- A vector of bytes is written with at most 11 bytes around them. -/
private theorem length_writeBytes_le (v : Bytes) (tag : UInt8) (htag : tag < 15) :
    (writeBytes v tag).length ≤ v.length + 11 := by
  have hsize := sizeLength_le v.length
  have hhead : headLen 0 = 1 := rfl
  rw [sizeLength] at hsize
  rw [writeBytes, List.length_append, List.length_append, List.length_append, length_writeToHead,
    length_writeToHead, hhead, headLen, if_pos htag]
  omega

/-- A packet with one attribute is encoded with only a few bytes around its value. -/
private theorem encode_hugePut (v : Bytes) :
    ∃ bytes, ((samplePacket.puts [hugePut v]).encode [] []).2 = (bytes, none) ∧
      bytes.length < v.length + 1000 := by
  have hdata (w : Bytes) : write attributes [([97], w)] 0 =
      .ok ([8, 0, 1] ++ ([6, 1, 97] ++ writeBytes w 1 ++ [])) := rfl
  have hrequest (w : Bytes) : RequestPacket.writeTo { samplePacket.toRequestPacket with
      sBuffer := w } = .ok ([28, 44, 60, 64, 7, 86, 1, 83, 102, 1, 102] ++
        (writeBytes w 7 ++ [140, 152, 0, 1, 6, 1, 97, 22, 1, 98, 168, 12])) := rfl
  refine ⟨_, encode_eq_ok_iff.mpr ⟨_, _, ⟨List.cons_ne_nil _ _, List.cons_ne_nil _ _,
    hdata (writeBytes v 0), hrequest _⟩, rfl⟩, ?_⟩
  have hvalue := length_writeBytes_le v 0 (by decide)
  have hattribute := length_writeBytes_le (writeBytes v 0) 1 (by decide)
  have hbuffer := length_writeBytes_le
    ([8, 0, 1] ++ ([6, 1, 97] ++ writeBytes (writeBytes v 0) 1 ++ [])) 7 (by decide)
  simp only [ProxyProtocol.length_frame, List.length_append, List.length_cons, List.length_nil]
    at hbuffer ⊢
  omega

/-- A vector whose size does not fit does not come back. -/
private theorem not_restores_hugePut {v : Bytes} (hlength : v.length = 2 ^ 32) : ∃ bytes,
    ((samplePacket.puts [hugePut v]).encode [] []).2 = (bytes, none) ∧ bytes.length < 2 ^ 63 ∧
      ¬Restores [hugePut v] (samplePacket.puts [hugePut v]) bytes := by
  obtain ⟨bytes, hencode, hbytes⟩ := encode_hugePut v
  refine ⟨bytes, hencode, by omega, fun hrestores => ?_⟩
  obtain ⟨sBuffer, os, hencodes, rfl⟩ := encode_eq_ok_iff.mp hencode
  rw [ProxyProtocol.length_frame] at hbytes
  have hsizes := (sizesFit_of_restores hencodes (by omega) hrestores).data
  have hdata : (samplePacket.puts [hugePut v]).data = [([97], writeBytes v 0)] := rfl
  rw [hdata, attributesLength, List.map_singleton, List.sum_singleton, attributeLength, writeBytes,
    List.length_append] at hsizes
  omega

/-- A vector of 4 GiB does not come back. -/
theorem restores_fails : ∃ bytes,
    ((samplePacket.puts [hugePut (List.replicate (2 ^ 32) 0)]).encode [] []).2 = (bytes, none) ∧
      bytes.length < 2 ^ 63 ∧
      ¬Restores [hugePut (List.replicate (2 ^ 32) 0)]
        (samplePacket.puts [hugePut (List.replicate (2 ^ 32) 0)]) bytes :=
  not_restores_hugePut List.length_replicate

end RoundTrip

end UniPacket

end Tars
