import Tars.Tup.ProxyProtocol
import Tars.Tup.Truncation

/-!
# TUP packets

A `UniPacket` keeps every attribute as its encoding under tag 0. `encode` writes the map of these
encodings into `sBuffer` and then the whole packet, with its length in front. All operations share
one output stream, and all one input stream, the reader of the decoders here.
-/

namespace Tars

open Decoding TarsOutputStream TarsInputStream

/-- The exceptions that leave the functions of a packet. -/
inductive UniException where
  /-- A `runtime_error` of the packet itself. -/
  | runtimeError
  /-- An exception of the encoding. -/
  | tars (e : TarsException)
  deriving DecidableEq

/-- A decoder of the encoding as one of packets. -/
def liftDecode {α : Type} (m : Decode α) : Decoder BufferReader UniException α := fun r =>
  match m r with
  | .ok v r => .ok v r
  | .thrown e r => .thrown (.tars e) r
  | .fault => .fault
  | .refused => .refused
  | .timeout => .timeout

/-- `reset` and `setBuffer` of the input stream: what it has read before does not matter. -/
def setBuffer (bs : Bytes) : Decoder BufferReader UniException Unit := fun _ =>
  .ok () (.setBuffer bs bs.length)

/-- The type of `_data`, as it is written and read by the encoding. -/
abbrev attributes : Ty := .map .string .bytes

/-- `_data[name] = v`, which replaces an entry of that name or inserts one in the order of the keys.
-/
def assign (name v : Bytes) : List (Bytes × Bytes) → List (Bytes × Bytes)
  | [] => [(name, v)]
  | e :: m =>
    if e.1 < name then e :: assign name v m
    else if name < e.1 then (name, v) :: e :: m
    else (name, v) :: m

/-- The members of `UniAttribute`, but for the input stream. -/
structure UniAttribute where
  /-- `_data`. -/
  data : List (Bytes × Bytes)
  /-- `_iVer`. -/
  iVer : BitVec 16
  /-- The content of `os`. -/
  os : Bytes

namespace UniAttribute

/-- `put`. Where `write` throws, it has left something in the output stream. -/
def put (a : UniAttribute) (name : Bytes) (t : Ty) (v : t.denote) (leftover : Bytes) :
    UniAttribute × Option UniException :=
  let a := { a with os := [] }
  match write t v 0 with
  | .error e => ({ a with os := a.os ++ leftover }, some (.tars e))
  | .ok bs =>
    let a := { a with os := a.os ++ bs }
    ({ a with data := assign name a.os a.data }, none)

/-- `get` over an old value, which throws where no attribute has the name. -/
def get (types : Codegen) (fuel : ℕ) (a : UniAttribute) (name : Bytes) (t : Ty) (old : t.denote) :
    Decoder BufferReader UniException t.denote :=
  match a.data.lookup name with
  | none => throw .runtimeError
  | some v => do
    setBuffer v
    liftDecode (read types false fuel t old 0 true)

end UniAttribute

/-- The members of `UniPacket`, but for the input stream. -/
structure UniPacket extends RequestPacket, UniAttribute

namespace UniPacket

/-- `doEncode`, which leaves the packet in the output stream. -/
def doEncode (p : UniPacket) (leftover : Bytes) : UniPacket × Option UniException :=
  if p.sServantName = [] then (p, some .runtimeError)
  else if p.sFuncName = [] then (p, some .runtimeError)
  else
    let p := { p with os := [] }
    match write attributes p.data 0 with
    | .error e => ({ p with os := p.os ++ leftover }, some (.tars e))
    | .ok bs =>
      let p := { p with os := p.os ++ bs }
      let p := { p with sBuffer := p.os, os := [] }
      match p.toRequestPacket.writeTo with
      | .error e => ({ p with os := p.os ++ leftover }, some (.tars e))
      | .ok bs => ({ p with os := p.os ++ bs }, none)

/-- `iHeaderLen` in memory, in network order: the length of the content and of itself. -/
def header (os : Bytes) : Bytes :=
  LittleEndian.store 4 (htonl (BitVec.ofNat 32 (4 + os.length))).toNat

/-- `memcpy` of some bytes to an offset, over those that were there. -/
def memcpy (buff : Bytes) (offset : ℕ) (src : Bytes) : Bytes :=
  buff.take offset ++ src ++ buff.drop (offset + src.length)

/-- `encode` into a string: the packet, the string, and an exception. -/
def encode (p : UniPacket) (leftover buff : Bytes) : UniPacket × Bytes × Option UniException :=
  match doEncode { p with os := [] } leftover with
  | (p, some e) => (p, buff, some e)
  | (p, none) => (p, header p.os ++ p.os, none)

/-- `encode` into a vector, which is resized to the length and filled by two copies. -/
def encodeVector (p : UniPacket) (leftover buff : Bytes) :
    UniPacket × Bytes × Option UniException :=
  match doEncode { p with os := [] } leftover with
  | (p, some e) => (p, buff, some e)
  | (p, none) =>
    let buff := resize 0 (4 + p.os.length) buff
    (p, memcpy (memcpy buff 0 (header p.os)) 4 p.os, none)

/-- `encode` into a buffer of a length: also the new value of `len`. -/
def encodeBuffer (p : UniPacket) (leftover buff : Bytes) (len : ℕ) :
    UniPacket × Bytes × ℕ × Option UniException :=
  match doEncode { p with os := [] } leftover with
  | (p, some e) => (p, buff, len, some e)
  | (p, none) =>
    if len < 4 + p.os.length then (p, buff, len, some .runtimeError)
    else (p, memcpy (memcpy buff 0 (header p.os)) 4 p.os, 4 + p.os.length, none)

/-- `decode` of a buffer, over the old members: the four bytes of the length are skipped unread. -/
def decode (fuel : ℕ) (p : UniPacket) (buff : Bytes) :
    Decoder BufferReader UniException UniPacket :=
  if buff.length < 4 then throw .runtimeError
  else do
    setBuffer (buff.drop 4)
    let request ← liftDecode (p.toRequestPacket.readFrom fuel)
    setBuffer request.sBuffer
    let data ← liftDecode (read plainTypes false fuel attributes [] 0 true)
    return { p with toRequestPacket := request, iVer := request.iVersion, data }

/-! ### Attributes -/

/-- A call of `put`. The maps in the value are maps. -/
structure Put (types : Codegen) where
  /-- The name. -/
  name : Bytes
  /-- The type of the value. -/
  t : Ty
  /-- The value. -/
  v : t.denote
  /-- The maps in the value are in order. -/
  isMap : t.Limited types.less (fun _ => True) v
  /-- What is left in the output stream, if it throws. -/
  leftover : Bytes

/-- The packet after some calls of `put`, an exception of which leaves the packet usable. -/
def puts {types : Codegen} (p : UniPacket) (calls : List (Put types)) : UniPacket :=
  calls.foldl (fun p call => { p with
    toUniAttribute := (p.put call.name call.t call.v call.leftover).1 }) p

/-- The encoding that a call of `put` stores under a name. -/
def Put.stored {types : Codegen} (name : Bytes) (call : Put types) : Option Bytes :=
  if call.name = name then (write call.t call.v 0).toOption else none

/-- The last call of `put` that stored something under a name. -/
def last {types : Codegen} (name : Bytes) (calls : List (Put types)) : Option (Put types) :=
  calls.reverse.find? fun call => (call.stored name).isSome

section Attributes

variable {types : Codegen} {name name' v : Bytes} {m : List (Bytes × Bytes)}

/-- What is under a name after an assignment: the new value under its own name, the old one under
every other. -/
theorem lookup_assign : (assign name v m).lookup name' =
    if name' = name then some v else m.lookup name' := by
  induction m with
  | nil =>
    rw [assign, List.lookup_cons, List.lookup_nil]
    by_cases h : name' = name
    · simp [h]
    · simp [h, beq_eq_false_iff_ne.mpr h]
  | cons e m ih =>
    rw [assign]
    split
    · rename_i hlt
      rw [List.lookup_cons, ih, List.lookup_cons]
      by_cases he : name' = e.1
      · have hne : name' ≠ name := by
          rintro rfl
          exact List.lt_irrefl e.1 (he ▸ hlt)
        simp only [beq_iff_eq.mpr he, if_neg hne]
      · rw [beq_eq_false_iff_ne.mpr he]
    split
    · rw [List.lookup_cons]
      by_cases h : name' = name
      · rw [beq_iff_eq.mpr h, if_pos h]
      · rw [beq_eq_false_iff_ne.mpr h, if_neg h]
    · rename_i hlt hgt
      have heq : e.1 = name := List.le_antisymm (List.not_lt.mp hgt) (List.not_lt.mp hlt)
      rw [List.lookup_cons, List.lookup_cons, heq]
      by_cases h : name' = name
      · rw [beq_iff_eq.mpr h, if_pos h]
      · rw [beq_eq_false_iff_ne.mpr h, if_neg h]

/-- After an assignment every entry is the new one or was there before. -/
theorem mem_assign {e : Bytes × Bytes} (h : e ∈ assign name v m) : e = (name, v) ∨ e ∈ m := by
  induction m with
  | nil => exact .inl (List.mem_singleton.mp h)
  | cons d m ih =>
    rw [assign] at h
    split at h
    · rcases List.mem_cons.mp h with rfl | h
      · exact .inr List.mem_cons_self
      · exact (ih h).imp id (List.mem_cons_of_mem d)
    split at h
    · exact List.mem_cons.mp h
    · exact (List.mem_cons.mp h).imp id (List.mem_cons_of_mem d)

/-- An assignment keeps the entries in the order of their keys. -/
theorem ascending_assign (h : Ascending m) : Ascending (assign name v m) := by
  induction m with
  | nil => exact List.pairwise_singleton _ _
  | cons e m ih =>
    obtain ⟨hfirst, hrest⟩ := List.pairwise_cons.mp h
    rw [assign]
    split
    · rename_i hlt
      refine List.pairwise_cons.mpr ⟨fun d hd => ?_, ih hrest⟩
      rcases mem_assign hd with rfl | hd
      · exact hlt
      · exact hfirst d hd
    split
    · rename_i hlt
      refine List.pairwise_cons.mpr ⟨fun d hd => ?_, h⟩
      rcases List.mem_cons.mp hd with rfl | hd
      · exact hlt
      · exact List.lt_trans hlt (hfirst d hd)
    · rename_i hlt hgt
      have heq : e.1 = name := List.le_antisymm (List.not_lt.mp hgt) (List.not_lt.mp hlt)
      exact List.pairwise_cons.mpr ⟨fun d hd => heq ▸ hfirst d hd, hrest⟩

/-- One more call of `put` changes the packet as the calls before it left it. -/
theorem puts_concat (p : UniPacket) (calls : List (Put types)) (call : Put types) :
    p.puts (calls ++ [call]) = { p.puts calls with
      toUniAttribute := ((p.puts calls).put call.name call.t call.v call.leftover).1 } := by
  rw [puts, List.foldl_append]
  rfl

/-- The attributes after a call of `put`: the value is stored under its name, or nothing changes if
it cannot be written. -/
theorem data_put (a : UniAttribute) (call : Put types) :
    (a.put call.name call.t call.v call.leftover).1.data =
      match write call.t call.v 0 with
      | .error _ => a.data
      | .ok bs => assign call.name bs a.data := by
  rw [UniAttribute.put]
  cases write call.t call.v 0 <;> rfl

/-- Calls of `put` leave the other members, since they only write attributes. -/
theorem request_puts (p : UniPacket) (calls : List (Put types)) :
    (p.puts calls).toRequestPacket = p.toRequestPacket := by
  induction calls using List.reverseRecOn with
  | nil => rfl
  | append_singleton calls call ih =>
    rw [puts_concat]
    exact ih

/-- **The attributes after some calls of `put`** are in order, and under every name there is what
the last call stored. -/
theorem puts_spec {p : UniPacket} (hempty : p.data = []) (calls : List (Put types)) :
    Ascending (p.puts calls).data ∧
      ∀ name, (p.puts calls).data.lookup name = (last name calls).bind (Put.stored name) := by
  induction calls using List.reverseRecOn with
  | nil =>
    have hnone : (p.puts ([] : List (Put types))).data = [] := hempty
    rw [hnone]
    exact ⟨List.Pairwise.nil, fun _ => rfl⟩
  | append_singleton calls call ih =>
    obtain ⟨hsorted, hlookup⟩ := ih
    have hdata : (p.puts (calls ++ [call])).data =
        match write call.t call.v 0 with
        | .error _ => (p.puts calls).data
        | .ok bs => assign call.name bs (p.puts calls).data := by
      rw [puts_concat]
      exact data_put _ call
    have hlast (name : Bytes) : last name (calls ++ [call]) =
        if (call.stored name).isSome then some call else last name calls := by
      rw [last, List.reverse_append, List.reverse_singleton, List.singleton_append,
        List.find?_cons]
      split <;> simp_all [last]
    rw [hdata]
    cases hwrite : write call.t call.v 0 with
    | error e =>
      refine ⟨hsorted, fun name => ?_⟩
      have hnone : call.stored name = none := by
        rw [Put.stored, hwrite]
        split <;> rfl
      rw [hlast, hnone, Option.isSome_none, if_neg (by decide)]
      exact hlookup name
    | ok bs =>
      refine ⟨ascending_assign hsorted, fun name => ?_⟩
      show (assign call.name bs (p.puts calls).data).lookup name = _
      rw [lookup_assign, hlast]
      by_cases hname : name = call.name
      · have hsome : call.stored name = some bs := by
          rw [Put.stored, if_pos hname.symm, hwrite]
          rfl
        rw [if_pos hname, hsome, Option.isSome_some, if_pos rfl, Option.bind_some, hsome]
      · have hnone : call.stored name = none := by
          rw [Put.stored, if_neg (Ne.symm hname)]
        rw [if_neg hname, hnone, Option.isSome_none, if_neg (by decide)]
        exact hlookup name

end Attributes

/-! ### The forms of `encode` -/

section Forms

variable {p : UniPacket} {leftover buff bytes : Bytes}

/-- When the packet can be encoded, and what it is encoded to. -/
def Encodes (p : UniPacket) (sBuffer os : Bytes) : Prop :=
  p.sServantName ≠ [] ∧ p.sFuncName ≠ [] ∧ write attributes p.data 0 = .ok sBuffer ∧
    RequestPacket.writeTo { p.toRequestPacket with sBuffer } = .ok os

/-- `doEncode` with both names set does not throw for their sake. -/
private theorem doEncode_eq (hservant : p.sServantName ≠ []) (hfunc : p.sFuncName ≠ []) :
    p.doEncode leftover =
      match write attributes p.data 0 with
      | .error e => ({ p with os := leftover }, some (.tars e))
      | .ok sBuffer =>
        match RequestPacket.writeTo { p.toRequestPacket with sBuffer } with
        | .error e => ({ p with sBuffer, os := leftover }, some (.tars e))
        | .ok os => ({ p with sBuffer, os }, none) := by
  rw [doEncode, if_neg hservant, if_neg hfunc]
  rfl

/-- **`doEncode`** throws, or leaves the encoded packet in the output stream. -/
theorem doEncode_cases (p : UniPacket) (leftover : Bytes) :
    (∃ q e, doEncode { p with os := [] } leftover = (q, some e) ∧
        ∀ sBuffer os, ¬p.Encodes sBuffer os) ∨
      ∃ q sBuffer, doEncode { p with os := [] } leftover = (q, none) ∧
        p.Encodes sBuffer q.os := by
  by_cases hservant : p.sServantName = []
  · exact .inl ⟨_, _, if_pos hservant, fun _ _ h => h.1 hservant⟩
  by_cases hfunc : p.sFuncName = []
  · exact .inl ⟨_, _, (if_neg hservant).trans (if_pos hfunc), fun _ _ h => h.2.1 hfunc⟩
  rw [doEncode_eq (p := { p with os := [] }) hservant hfunc]
  cases hdata : write attributes p.data 0 with
  | error e =>
    refine .inl ⟨_, _, rfl, fun _ _ h => ?_⟩
    rw [h.2.2.1] at hdata
    cases hdata
  | ok sBuffer =>
    dsimp only
    cases hrequest : RequestPacket.writeTo { p.toRequestPacket with sBuffer } with
    | error e =>
      refine .inl ⟨_, _, rfl, fun sBuffer' os h => ?_⟩
      obtain ⟨-, -, hdata', hrequest'⟩ := h
      rw [hdata] at hdata'
      obtain rfl := Except.ok.inj hdata'
      rw [hrequest] at hrequest'
      cases hrequest'
    | ok os =>
      exact .inr ⟨_, sBuffer, rfl, hservant, hfunc, hdata, hrequest⟩

/-- Two copies one behind the other leave both sources and then the rest of the buffer. -/
theorem memcpy_memcpy (buff h os : Bytes) :
    memcpy (memcpy buff 0 h) h.length os = h ++ os ++ buff.drop (h.length + os.length) := by
  have hfirst : memcpy buff 0 h = h ++ buff.drop h.length := by
    rw [memcpy, List.take_zero, List.nil_append, Nat.zero_add]
  rw [hfirst, memcpy, List.take_left, ← List.drop_drop, List.drop_left, List.drop_drop]

/-- The header in front of a packet has four bytes. -/
theorem length_header (os : Bytes) : (header os).length = 4 := LittleEndian.length_store 4 _

/-- The vector and the string get the same bytes, or are both unchanged. -/
theorem encodeVector_eq (p : UniPacket) (leftover buff : Bytes) :
    (p.encodeVector leftover buff).2 = (p.encode leftover buff).2 := by
  rw [encodeVector, encode]
  obtain ⟨q, e, hthrown, -⟩ | ⟨q, sBuffer, hok, -⟩ := doEncode_cases p leftover
  · rw [hthrown]
  · rw [hok]
    have hcopy := memcpy_memcpy (resize 0 (4 + q.os.length) buff) (header q.os) q.os
    rw [length_header, List.drop_of_length_le (length_resize _ _ _).le, List.append_nil] at hcopy
    show (_, _) = _
    rw [hcopy]

/-- The buffer gets the same bytes as a string, if it is long enough. -/
theorem encodeBuffer_eq (p : UniPacket) (leftover buff : Bytes) (len : ℕ) :
    (p.encodeBuffer leftover buff len).2 =
      match (p.encode leftover buff).2 with
      | (_, some e) => (buff, len, some e)
      | (bytes, none) =>
        if len < bytes.length then (buff, len, some .runtimeError)
        else (bytes ++ buff.drop bytes.length, bytes.length, none) := by
  rw [encodeBuffer, encode]
  obtain ⟨q, e, hthrown, -⟩ | ⟨q, sBuffer, hok, -⟩ := doEncode_cases p leftover
  · rw [hthrown]
  · rw [hok]
    have hcopy := memcpy_memcpy buff (header q.os) q.os
    rw [length_header] at hcopy
    dsimp only
    rw [List.length_append, length_header]
    split
    · rfl
    · rw [hcopy]

/-- A packet is encoded to the frame of what its members are encoded to. -/
theorem encode_eq_ok_iff :
    (p.encode leftover buff).2 = (bytes, none) ↔
      ∃ sBuffer os, p.Encodes sBuffer os ∧ bytes = ProxyProtocol.frame os := by
  rw [encode]
  obtain ⟨q, e, hthrown, hnever⟩ | ⟨q, sBuffer, hok, hencodes⟩ := doEncode_cases p leftover
  · rw [hthrown]
    refine iff_of_false (fun h => ?_) fun ⟨sBuffer, os, h, _⟩ => hnever sBuffer os h
    cases (Prod.mk.inj h).2
  · rw [hok]
    constructor
    · intro h
      exact ⟨sBuffer, q.os, hencodes, (Prod.mk.inj h).1.symm⟩
    · rintro ⟨sBuffer', os', ⟨-, -, hdata, hrequest⟩, rfl⟩
      obtain ⟨-, -, hdata', hrequest'⟩ := hencodes
      rw [hdata'] at hdata
      obtain rfl := Except.ok.inj hdata
      rw [hrequest'] at hrequest
      obtain rfl := Except.ok.inj hrequest
      rfl

end Forms

end UniPacket

end Tars
