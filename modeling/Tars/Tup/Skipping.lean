import Tars.Tup.RoundTrip

/-!
# Skipping fields

`skipField` moves the cursor over the payload of a field that it does not know. It counts the keys
and the values of a map in one `Int32`, so that it passes over a map with `2 ^ 30` entries or more
as if it were empty; it is exact on every field in which there is no such map.
-/

namespace Tars

open LittleEndian Decoding TarsOutputStream TarsInputStream

/-! ### Fields as a list -/

/-- A field as it was written: its tag, its type and its value. -/
structure Field where
  /-- The tag. -/
  tag : UInt8
  /-- The type. -/
  type : Ty
  /-- The value. -/
  value : type.denote

/-- The head type that the value of a field is written with. -/
def Field.wireType (f : Field) : HeadType := Tars.wireType f.type f.value

/-- The bytes of a field behind its head, which is what the skipping has to pass. -/
def Field.payload (f : Field) : Bytes := Tars.payload f.type f.value

/-- The bytes of a field, its head in front of its payload. -/
def Field.bytes (f : Field) : Bytes := writeToHead f.wireType f.tag ++ f.payload

/-- The fields of a structure with their values, in the order in which they are written. -/
def Fields.toList : (fs : Fields) → fs.denote → List Field
  | .nil, _ => []
  | .cons tag _ t fs, (v, vs) => ⟨tag, t, v⟩ :: fs.toList vs

/-- A structure is the list of its fields, so a statement about fields in a row is one about
structures. -/
theorem encodeFields_eq : (fs : Fields) → (s : fs.denote) →
    encodeFields fs s = (fs.toList s).flatMap Field.bytes
  | .nil, _ => rfl
  | .cons _ _ _ fs, (_, vs) => by
    rw [encodeFields, encodeFields_eq fs vs]
    rfl

/-- No field is written like the end of a structure. -/
theorem wireType_ne (t : Ty) (v : t.denote) : wireType t v ≠ .structEnd := by
  cases t with
  | bool => exact integerType_ne _
  | int k => exact integerType_ne _
  | string =>
    rw [wireType]
    split <;> decide
  | _ =>
    rw [wireType]
    decide

/-- The bytes of several fields, of which each has one. -/
theorem length_le_bytes (fs : List Field) : fs.length ≤ (fs.flatMap Field.bytes).length :=
  length_le_length_flatMap fun f _ => encode_ne_nil f.type f.value f.tag

/-- A part of some bytes is not longer than all of them. -/
theorem length_le_of_mem {c : Bytes} {chunks : List Bytes} (hc : c ∈ chunks) :
    c.length ≤ chunks.flatten.length :=
  (List.sublist_flatten_of_mem hc).length_le

/-- Entries as a list of their keys and values. -/
theorem flatten_pairs {α : Type} (key value : α → Bytes) (m : List α) :
    (m.flatMap fun e => [key e, value e]).flatten = m.flatMap fun e => key e ++ value e := by
  induction m with
  | nil => rfl
  | cons e m ih =>
    rw [List.flatMap_cons, List.flatten_append, ih, List.flatMap_cons]
    simp

/-- A value is nested in another one, or it is the other one. -/
inductive Within {u : Ty} (w : u.denote) : (t : Ty) → t.denote → Prop where
  /-- The value itself, at its own type. -/
  | refl : Within w u w
  /-- In an element of a vector. -/
  | element {t : Ty} {x : t.denote} {v : List t.denote} (hx : x ∈ v) (h : Within w t x) :
      Within w (.vector t) v
  /-- In a key of a map. -/
  | key {k v : Ty} {e : k.denote × v.denote} {m : List (k.denote × v.denote)} (he : e ∈ m)
      (h : Within w k e.1) : Within w (.map k v) m
  /-- In a value of a map. -/
  | value {k v : Ty} {e : k.denote × v.denote} {m : List (k.denote × v.denote)} (he : e ∈ m)
      (h : Within w v e.2) : Within w (.map k v) m
  /-- In a field of a structure. -/
  | field {fs : Fields} {s : fs.denote} {f : Field} (hf : f ∈ fs.toList s)
      (h : Within w f.type f.value) : Within w (.struct fs) s

/-- Nesting is transitive: what is nested in a nested value is nested in the whole. -/
theorem Within.trans {t u x : Ty} {v : t.denote} {w : u.denote} {y : x.denote} (hw : Within y u w)
    (hv : Within w t v) : Within y t v := by
  induction hv with
  | refl => exact hw
  | element hx _ ih => exact .element hx ih
  | key he _ ih => exact .key he ih
  | value he _ ih => exact .value he ih
  | field hf _ ih => exact .field hf ih

/-- All maps in a value have less than `2 ^ 30` entries. -/
def Skippable (t : Ty) (v : t.denote) : Prop :=
  ∀ (k e : Ty) (m : List (k.denote × e.denote)), Within (u := .map k e) m t v → m.length < 2 ^ 30

/-! ### Loops -/

section Loops

variable {skip : HeadType → Decode Unit} {rounds : ℕ}

/-- A field is skipped with its head, once its payload can be skipped. -/
theorem reads_skipFieldHead {type : HeadType} {tag : UInt8} {bs : Bytes}
    (h : Reads (skip type) bs ()) : Reads (skipFieldHead skip) (writeToHead type tag ++ bs) () :=
  (Reads.readFromHeadNoTag type tag).bind h

/-- The elements of a container are skipped one after the other. -/
theorem reads_skipEach (chunks : List Bytes) (h : ∀ c ∈ chunks, Reads (skipFieldHead skip) c ()) :
    Reads (skipEach skip chunks.length) chunks.flatten () := by
  induction chunks with
  | nil => exact Reads.pure ()
  | cons c chunks ih =>
    rw [List.length_cons, skipEach, List.flatten_cons]
    exact (h c List.mem_cons_self).bind (ih fun d hd => h d (List.mem_cons_of_mem _ hd))

/-- The fields of a structure are skipped up to its end. -/
theorem reads_skipToStructEnd_fields (fs : List Field) (hrounds : fs.length < rounds)
    (hend : Reads (skip .structEnd) [] ()) (h : ∀ f ∈ fs, Reads (skip f.wireType) f.payload ()) :
    Reads (skipToStructEnd skip rounds) (fs.flatMap Field.bytes ++ writeToHead .structEnd 0)
      () := by
  induction fs generalizing rounds with
  | nil =>
    obtain ⟨rounds, rfl⟩ : ∃ n, rounds = n + 1 := ⟨rounds - 1, by omega⟩
    have hread : Reads (skipToStructEnd skip (rounds + 1))
        (writeToHead .structEnd 0 ++ ([] ++ [])) () :=
      (Reads.readFromHeadNoTag .structEnd 0).bind (hend.bind (Reads.pure ()))
    simpa using hread
  | cons f fs ih =>
    obtain ⟨rounds, rfl⟩ : ∃ n, rounds = n + 1 := ⟨rounds - 1, by omega⟩
    have hrest : Reads (skipToStructEnd skip rounds)
        (fs.flatMap Field.bytes ++ writeToHead .structEnd 0) () :=
      ih (by simpa using hrounds) fun g hg => h g (List.mem_cons_of_mem _ hg)
    rw [skipToStructEnd, List.flatMap_cons, Field.bytes, List.append_assoc, List.append_assoc]
    refine (Reads.readFromHeadNoTag f.wireType f.tag).bind ?_
    refine (h f List.mem_cons_self).bind ?_
    have htype : f.wireType ≠ .structEnd := wireType_ne f.type f.value
    rwa [if_neg htype]

end Loops

/-! ### All fields -/

section SkipField

variable {guard : Bool} {fuel : ℕ}

/-- The end of a structure has no payload, so only its head is passed. -/
theorem reads_skipField_structEnd (hfuel : 0 < fuel) :
    Reads (skipField guard fuel .structEnd) [] () := by
  obtain ⟨fuel, rfl⟩ : ∃ n, fuel = n + 1 := ⟨fuel - 1, by omega⟩
  exact Reads.pure ()

/-- A size that is not negative as an `Int32`. -/
theorem toInt_ofNat_of_lt {n : ℕ} (hn : n < 2 ^ 31) : (BitVec.ofNat 32 n).toInt = n := by
  have hnat : (BitVec.ofNat 32 n).toNat = n := by
    rw [BitVec.toNat_ofNat]
    omega
  rw [BitVec.toInt_eq_toNat_of_lt (by omega), hnat]

/-- The size of a container is read as an `Int32`. -/
theorem reads_readInt32_size {skip : HeadType → Decode Unit} {rounds n : ℕ} (hn : n < 2 ^ 31) :
    Reads (readInt32 skip (rounds + 1) 0 0 true) (encodeInteger n 0) (BitVec.ofNat 32 n) := by
  have hread : Reads (readInt32 skip (rounds + 1) 0 0 true)
      (encodeInteger (BitVec.ofNat 32 n).toInt 0) (BitVec.ofNat 32 n) :=
    reads_readInt .int32 _ _ 0 true
  rwa [toInt_ofNat_of_lt hn] at hread

/-- An integer is skipped by the number of bytes that its head type announces. -/
theorem reads_skipField_integer (z : ℤ) :
    Reads (skipField guard (fuel + 1) (integerType (integerSize z))) (integerPayload z) () := by
  have hlength : (integerPayload z).length = integerSize z := by
    rw [integerPayload, length_netBytes]
  generalize integerPayload z = bs at hlength ⊢
  rcases integerSize_cases z with
    ⟨hk, -⟩ | ⟨hk, -⟩ | ⟨hk, -⟩ | ⟨hk, -⟩ | hk <;> rw [hk] at hlength ⊢
  · rw [List.length_eq_zero_iff.mp hlength]
    exact Reads.pure ()
  all_goals exact Reads.readHeadSkip hlength

/-- The bytes of a vector are skipped by one jump over as many bytes as its length says. -/
theorem reads_skipField_bytes {v : Bytes} (hv : v.length < 2 ^ 31) :
    Reads (skipField guard (fuel + 1) .simpleList) (payload .bytes v) () := by
  have hint := toInt_ofNat_of_lt hv
  have hsize : toSizeT (BitVec.ofNat 32 v.length) = v.length := by
    rw [toSizeT, BitVec.signExtend, hint, BitVec.ofInt_natCast, BitVec.toNat_ofNat]
    omega
  rw [payload, List.append_assoc, skipField]
  refine (Reads.readFromHead .char 0).bind ((reads_readInt32_size hv).bind ?_)
  rw [hint, if_neg (by omega), hsize]
  exact Reads.readHeadSkip rfl

/-- A string is skipped with its size, in whichever of the two forms it was written. -/
theorem reads_skipField_string {s : Bytes} (hs : s.length ≤ maxStringLength) :
    Reads (skipField guard (fuel + 1) (wireType .string s)) (payload .string s) () := by
  have hmax : maxStringLength = 104857600 := rfl
  rw [wireType, payload]
  by_cases hlong : s.length > 255
  · have hlt : s.length < 2 ^ 32 := by omega
    rw [if_pos hlong, if_pos hlong, skipField]
    refine (Reads.readTypeBuf (length_netBytes 4 s.length)).bind ?_
    rw [htonl_load_toNat hlt]
    exact Reads.readHeadSkip rfl
  · have hload : load (netBytes 1 s.length) = s.length := by
      have hbytes : netBytes 1 s.length = store 1 s.length := rfl
      rw [hbytes, load_store, Nat.mod_eq_of_lt (by omega)]
    rw [if_neg hlong, if_neg hlong, skipField]
    refine (Reads.readTypeBuf (length_netBytes 1 s.length)).bind ?_
    rw [hload]
    exact Reads.readHeadSkip rfl

end SkipField

section Recursion

variable {guard : Bool} {less : (t : Ty) → t.denote → t.denote → Bool}

/-- The elements of a vector are skipped one after the other, each with its own head. -/
theorem reads_skipField_list {fuel : ℕ} {chunks : List Bytes} (hlength : chunks.length < 2 ^ 31)
    (h : ∀ c ∈ chunks, Reads (skipFieldHead (skipField guard fuel)) c ()) :
    Reads (skipField guard (fuel + 1) .list) (encodeInteger chunks.length 0 ++ chunks.flatten)
      () := by
  have hrounds : TarsInputStream.rounds (BitVec.ofNat 32 chunks.length) = chunks.length := by
    rw [TarsInputStream.rounds, toInt_ofNat_of_lt hlength, Int.toNat_natCast]
  rw [skipField]
  refine (reads_readInt32_size hlength).bind ?_
  rw [hrounds]
  exact reads_skipEach chunks h

/-- The entries of a map are skipped, if twice their number is an `Int32`. -/
theorem reads_skipField_map {fuel n : ℕ} {chunks : List Bytes} (hchunks : chunks.length = n * 2)
    (hlength : n < 2 ^ 30) (h : ∀ c ∈ chunks, Reads (skipFieldHead (skipField guard fuel)) c ()) :
    Reads (skipField guard (fuel + 1) .map) (encodeInteger n 0 ++ chunks.flatten) () := by
  have htwice : BitVec.ofNat 32 n * 2 = BitVec.ofNat 32 chunks.length := by
    rw [hchunks, BitVec.ofNat_mul]
    rfl
  have hrounds : TarsInputStream.rounds (BitVec.ofNat 32 n * 2) = chunks.length := by
    rw [htwice, TarsInputStream.rounds, toInt_ofNat_of_lt (by omega), Int.toNat_natCast]
  rw [skipField]
  refine (reads_readInt32_size (by omega)).bind ?_
  rw [hrounds]
  exact reads_skipEach chunks h

mutual

/-- **`skipField` is exact** on every field in which no map is too large. -/
theorem reads_skipField : (t : Ty) → (v : t.denote) → t.Valid less v → Skippable t v →
    (fuel : ℕ) → (payload t v).length < fuel →
      Reads (skipField guard fuel (wireType t v)) (payload t v) ()
  | _, _, _, _, 0, hfuel => absurd hfuel (Nat.not_lt_zero _)
  | .bool, b, _, _, fuel + 1, _ => reads_skipField_integer _
  | .int k, n, _, _, fuel + 1, _ => reads_skipField_integer _
  | .float, n, _, _, fuel + 1, _ => Reads.readHeadSkip (length_netBytes 4 n.toNat)
  | .double, n, _, _, fuel + 1, _ => Reads.readHeadSkip (length_netBytes 8 n.toNat)
  | .string, s, h, _, fuel + 1, _ => reads_skipField_string h
  | .bytes, v, h, _, fuel + 1, _ => reads_skipField_bytes h
  | .vector t, v, ⟨hlength, hall⟩, hskip, fuel + 1, hfuel => by
    have hflat : payload (.vector t) v =
        encodeInteger v.length 0 ++ (v.map fun x => encode t x 0).flatten := by
      rw [payload, List.flatMap_def]
      rfl
    rw [hflat, List.length_append] at hfuel
    have helement : ∀ c ∈ v.map fun x => encode t x 0,
        Reads (skipFieldHead (skipField guard fuel)) c () := by
      intro c hc
      have hc' := length_le_of_mem hc
      have hhead := headLen_pos 0
      obtain ⟨x, hx, rfl⟩ := List.mem_map.mp hc
      rw [encode, List.length_append, length_writeToHead] at hc'
      exact reads_skipFieldHead (reads_skipField t x (hall x hx)
        (fun k e m hm => hskip k e m (.element hx hm)) fuel (by omega))
    have h := reads_skipField_list (by rwa [List.length_map]) helement
    rwa [List.length_map, ← hflat] at h
  | .map k v, m, ⟨hlength, _, hall⟩, hskip, fuel + 1, hfuel => by
    have hchunks : (m.flatMap fun e => [encode k e.1 0, encode v e.2 1]).length = m.length * 2 := by
      simp [List.length_flatMap, List.map_const', List.sum_replicate]
    have hflat : payload (.map k v) m = encodeInteger m.length 0 ++
        (m.flatMap fun e => [encode k e.1 0, encode v e.2 1]).flatten := by
      rw [payload, flatten_pairs]
      rfl
    rw [hflat, List.length_append] at hfuel
    have helement : ∀ c ∈ m.flatMap fun e => [encode k e.1 0, encode v e.2 1],
        Reads (skipFieldHead (skipField guard fuel)) c () := by
      intro c hc
      have hc' := length_le_of_mem hc
      obtain ⟨e, he, hce⟩ := List.mem_flatMap.mp hc
      rcases List.mem_pair.mp hce with rfl | rfl
      · rw [encode, List.length_append, length_writeToHead] at hc'
        have hhead := headLen_pos 0
        exact reads_skipFieldHead (reads_skipField k e.1 (hall e he).1
          (fun k e m hm => hskip k e m (.key he hm)) fuel (by omega))
      · rw [encode, List.length_append, length_writeToHead] at hc'
        have hhead := headLen_pos 1
        exact reads_skipFieldHead (reads_skipField v e.2 (hall e he).2
          (fun k e m hm => hskip k e m (.value he hm)) fuel (by omega))
    have h := reads_skipField_map hchunks (hskip k v m .refl) helement
    rwa [← hflat] at h
  | .struct fs, s, h, hskip, fuel + 1, hfuel => by
    rw [payload, List.length_append, length_writeToHead] at hfuel
    have hhead := headLen_pos 0
    have hfields := reads_skipField_fields fs s h
      (fun f hf k e m hm => hskip k e m (.field hf hm)) fuel (by omega)
    have hcount := length_le_bytes (fs.toList s)
    rw [encodeFields_eq] at hfuel
    rw [wireType, payload, encodeFields_eq, skipField]
    exact reads_skipToStructEnd_fields _ (by omega) (reads_skipField_structEnd (by omega)) hfields

/-- `skipField` is exact on the fields of a structure. -/
theorem reads_skipField_fields : (fs : Fields) → (s : fs.denote) → fs.Valid less s →
    (∀ f ∈ fs.toList s, Skippable f.type f.value) → (fuel : ℕ) →
      (encodeFields fs s).length ≤ fuel → ∀ f ∈ fs.toList s,
        Reads (skipField guard fuel f.wireType) f.payload ()
  | .nil, _, _, _, _, _, f, hf => absurd hf List.not_mem_nil
  | .cons tag _ t fs, (v, vs), ⟨hv, hvs⟩, hskip, fuel, hfuel, f, hf => by
    rw [encodeFields, List.length_append, List.length_append, length_writeToHead] at hfuel
    have hhead := headLen_pos tag
    rcases List.mem_cons.mp hf with rfl | hf
    · exact reads_skipField t v hv (hskip _ List.mem_cons_self) fuel (by omega)
    · exact reads_skipField_fields fs vs hvs (fun g hg => hskip g (List.mem_cons_of_mem _ hg)) fuel
        (by omega) f hf

end

/-- The bytes of an entry are among those of its map. -/
private theorem length_entry_le {k v : Ty} {m : (Ty.map k v).denote} {e : k.denote × v.denote}
    (he : e ∈ m) :
    (encode k e.1 0).length + (encode v e.2 1).length ≤ (payload (.map k v) m).length := by
  have hpayload : payload (.map k v) m =
      encodeInteger m.length 0 ++ m.flatMap fun e => encode k e.1 0 ++ encode v e.2 1 := rfl
  have hle := length_le_of_mem_flatMap (fun e => encode k e.1 0 ++ encode v e.2 1) he
  beta_reduce at hle
  rw [List.length_append] at hle
  rw [hpayload, List.length_append]
  omega

/-- The payload of a nested value is not longer than that of the value it is nested in. -/
theorem Within.length_payload_le {t u : Ty} {w : u.denote} {v : t.denote} (h : Within w t v) :
    (payload u w).length ≤ (payload t v).length := by
  induction h with
  | refl => exact le_rfl
  | @element t x v hx _ ih =>
    have hle := length_le_of_mem_flatMap (fun x => encode t x 0) hx
    have hpayload : payload (.vector t) v =
        encodeInteger v.length 0 ++ v.flatMap fun x => encode t x 0 := rfl
    beta_reduce at hle
    rw [encode, List.length_append] at hle
    rw [hpayload, List.length_append]
    omega
  | @key k v e m he _ ih =>
    have hle := length_entry_le he
    rw [encode, List.length_append] at hle
    omega
  | @value k v e m he _ ih =>
    have hle := length_entry_le he
    rw [encode, encode, List.length_append, List.length_append] at hle
    omega
  | @field fs s f hf _ ih =>
    have hle : f.bytes.length ≤ ((fs.toList s).flatMap Field.bytes).length :=
      length_le_of_mem_flatMap Field.bytes hf
    rw [Field.bytes, List.length_append] at hle
    rw [payload, encodeFields_eq, List.length_append]
    exact ih.trans (by rw [Field.payload] at hle; omega)

/-- A map that is too large is passed over as if it were empty. -/
theorem reads_skipField_large {fuel n : ℕ} (hlarge : 2 ^ 30 ≤ n) (hn : n < 2 ^ 31) :
    Reads (skipField guard (fuel + 1) .map) (encodeInteger n 0) () := by
  have htwice : BitVec.ofNat 32 n * 2 = BitVec.ofNat 32 (n * 2) := by
    rw [BitVec.ofNat_mul]
    rfl
  have hrounds : TarsInputStream.rounds (BitVec.ofNat 32 n * 2) = 0 := by
    have hint : (BitVec.ofNat 32 (n * 2)).toInt < 0 := by
      rw [BitVec.toInt_eq_toNat_cond, BitVec.toNat_ofNat]
      split <;> omega
    rw [htwice, TarsInputStream.rounds]
    omega
  have hread : Reads (skipField guard (fuel + 1) .map) (encodeInteger n 0 ++ []) () := by
    rw [skipField]
    refine (reads_readInt32_size hn).bind ?_
    rw [hrounds]
    exact Reads.pure ()
  rwa [List.append_nil] at hread

end Recursion

end Tars
