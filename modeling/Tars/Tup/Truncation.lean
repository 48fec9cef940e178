import Tars.Tup.RoundTrip

/-!
# What does not fit

A size is written in 32 bits, so that no container that is read has more elements than that, and
no container is read where bytes of it are missing.
-/

namespace Tars

open LittleEndian Decoding TarsOutputStream TarsInputStream

/-! ### Sizes -/

section Sizes

variable {skip : HeadType → Decode Unit} {rounds : ℕ} {α β : Type}

/-- A required field is the payload that is found. -/
theorem yields_readField {body : HeadType → Decode α} {P : α → Prop}
    (hbody : ∀ type, Yields (body type) P) (old : α) (tag : UInt8) :
    Yields (readField skip rounds body old tag true) P := by
  refine Yields.trivial.bind fun found _ => ?_
  cases found with
  | some type => exact hbody type
  | none => exact Yields.throw

/-- A size that was read has 32 bits, whatever the buffer says. -/
theorem yields_readSize : Yields (readSize skip rounds) (· < 2 ^ 32) := by
  refine Yields.trivial.bind fun size _ => Yields.trivial.bind fun bufLen _ => ?_
  split
  · exact Yields.throw
  · exact Yields.pure size.isLt

/-- The loop over the elements of a vector keeps its length. -/
theorem yields_readEach {read : α → Decode α} (xs : List α) :
    Yields (readEach read xs) fun ys => ys.length = xs.length := by
  induction xs with
  | nil => exact Yields.pure rfl
  | cons x xs ih =>
    refine Yields.trivial.bind fun y _ => ih.bind fun ys hys => Yields.pure ?_
    rw [List.length_cons, List.length_cons, hys]

/-- Inserting adds one entry at most, none if the key was there. -/
theorem length_insert_le (less : α → α → Bool) (entry : α × β) (m : List (α × β)) :
    (TarsInputStream.insert less entry m).length ≤ m.length + 1 := by
  induction m with
  | nil => exact le_rfl
  | cons e m ih =>
    rw [TarsInputStream.insert]
    split
    · rw [List.length_cons, List.length_cons]
      omega
    split
    · exact le_rfl
    · exact Nat.le_succ _

/-- An entry after an insertion is the new one or an old one. -/
theorem mem_insert {less : α → α → Bool} {entry : α × β} {m : List (α × β)} {e : α × β}
    (h : e ∈ TarsInputStream.insert less entry m) : e = entry ∨ e ∈ m := by
  induction m with
  | nil => exact .inl (List.mem_singleton.mp h)
  | cons d m ih =>
    rw [TarsInputStream.insert] at h
    split at h
    · rcases List.mem_cons.mp h with rfl | h
      · exact .inr List.mem_cons_self
      · exact (ih h).imp id (List.mem_cons_of_mem d)
    split at h
    · exact List.mem_cons.mp h
    · exact .inr h

/-- The loop over the entries of a map yields at most one entry for each round, and none but what
the entries yield. -/
theorem yields_readEntries {less : α → α → Bool} {read : Decode (α × β)} {P : α × β → Prop}
    (hread : Yields read P) (size : ℕ) : ∀ m : List (α × β), (∀ e ∈ m, P e) →
      Yields (readEntries less read size m) fun m' =>
        m'.length ≤ m.length + size ∧ ∀ e ∈ m', P e := by
  induction size with
  | zero =>
    intro m hm
    exact Yields.pure ⟨le_rfl, hm⟩
  | succ size ih =>
    intro m hm
    refine hread.bind fun pr hpr => ?_
    have hinsert : ∀ e ∈ TarsInputStream.insert less pr m, P e := by
      intro e he
      rcases mem_insert he with rfl | he
      · exact hpr
      · exact hm e he
    refine (ih _ hinsert).mono ?_
    rintro m' ⟨hlength, hall⟩
    have hle := length_insert_le less pr m
    exact ⟨by omega, hall⟩

/-- A vector of bytes that was read is as long as its length field says, which has 32 bits. -/
theorem yields_readBytes (old : Bytes) (tag : UInt8) :
    Yields (readBytes skip rounds old tag true) fun v => v.length < 2 ^ 32 := by
  refine yields_readField (fun type => ?_) old tag
  split
  · refine Yields.trivial.bind fun hhead _ => ?_
    split
    · exact Yields.throw
    refine yields_readSize.bind fun size hsize => ?_
    intro r v r' hok
    obtain ⟨fits, t, -, hok⟩ := bind_eq_ok_iff.mp hok
    split at hok
    · obtain ⟨bs, t', hpeek, hok⟩ := bind_eq_ok_iff.mp hok
      obtain ⟨_, t'', -, hok⟩ := bind_eq_ok_iff.mp hok
      obtain ⟨rfl, -⟩ := Outcome.ok.inj hok
      rw [peekTypeBuf] at hpeek
      split at hpeek
      · cases hpeek
      split at hpeek
      · obtain ⟨rfl, -⟩ := Outcome.ok.inj hpeek
        rw [List.length_take]
        omega
      · cases hpeek
    · cases hok
  · refine yields_readSize.bind fun size hsize => (yields_readEach _).mono fun ys hys => ?_
    rw [hys, length_resize]
    exact hsize
  · exact Yields.throw

/-- A map that was read has fewer than 2^32 entries, and its values are as the values read. -/
theorem yields_read_map {types : Codegen} {guard : Bool} {fuel : ℕ} {k v : Ty}
    {P : v.denote → Prop} (hvalue : Yields (read types guard fuel v (types.init v) 1 true) P)
    (old : (Ty.map k v).denote) (tag : UInt8) :
    Yields (read types guard fuel (.map k v) old tag true) fun m =>
      m.length < 2 ^ 32 ∧ ∀ e ∈ m, P e.2 := by
  refine yields_readField (fun type => ?_) old tag
  split
  · refine yields_readSize.bind fun size hsize => ?_
    have hentry : Yields (do
        let key ← read types guard fuel k (types.init k) 0 true
        let value ← read types guard fuel v (types.init v) 1 true
        Pure.pure (key, value)) fun e => P e.2 :=
      Yields.trivial.bind fun key _ => hvalue.bind fun value hP => Yields.pure hP
    refine (yields_readEntries hentry size [] fun e he => absurd he List.not_mem_nil).mono ?_
    rintro m ⟨hlength, hall⟩
    rw [List.length_nil, Nat.zero_add] at hlength
    exact ⟨by omega, hall⟩
  · exact Yields.throw

/-- A structure yields what its first field and its other fields do. -/
theorem yields_readFrom_cons {types : Codegen} {guard : Bool} {fuel : ℕ} {tag : UInt8}
    {isRequire : Bool} {t : Ty} {fs : Fields} {v : t.denote} {vs : fs.denote}
    {P : t.denote → Prop} {Q : fs.denote → Prop}
    (hfield : Yields (read types guard fuel t v tag isRequire) P)
    (hrest : Yields (readFrom types guard fuel fs vs) Q) :
    Yields (readFrom types guard fuel (.cons tag isRequire t fs) (v, vs)) fun s =>
      P s.1 ∧ Q s.2 :=
  hfield.bind fun _ hv => hrest.bind fun _ hvs => Yields.pure ⟨hv, hvs⟩

end Sizes

/-! ### Missing bytes -/

/-- A decoder that fails where the last of these bytes are missing. -/
def Needs {α : Type} (m : Decode α) (bs : Bytes) : Prop :=
  ∀ r front, At r front → front <+: bs → front.length < bs.length → Fails m r

/-- Looking at more bytes than there are in front of the cursor gives no value. -/
theorem At.peekTypeBuf_fails {r : BufferReader} {front : Bytes} {size : ℕ} (h : At r front)
    (hlong : front.length < size) (hsize : size < 2 ^ 63) :
    Fails (TarsInputStream.peekTypeBuf 0 size) r := by
  have hfits := h.fits
  have hcur := h.cur_add
  have hmod : (r.cur + 0 + size) % 2 ^ 64 = r.cur + 0 + size := Nat.mod_eq_of_lt (by omega)
  intro v r' hok
  rw [TarsInputStream.peekTypeBuf, hmod] at hok
  split at hok
  · cases hok
  split at hok
  · omega
  · cases hok

namespace Needs

variable {α β : Type} {m : Decode α} {f : α → Decode β} {bs cs : Bytes} {v : α}

/-- Nothing can be missing from no bytes, so a decoder that reads none needs none. -/
theorem nil (m : Decode α) : Needs m [] := fun _ _ _ _ hlt => absurd hlt (Nat.not_lt_zero _)

/-- One decoder after the other needs all bytes of both, if each needs its own. -/
theorem bind (hread : Reads m bs v) (hm : Needs m bs) (hf : Needs (f v) cs) :
    Needs (m >>= f) (bs ++ cs) := by
  intro r front h hprefix hlt
  by_cases hshort : front.length < bs.length
  · have hfront : front <+: bs :=
      List.prefix_of_prefix_length_le hprefix (List.prefix_append bs cs) (by omega)
    exact (hm r front h hfront hshort).bind
  · obtain ⟨front', rfl⟩ : bs <+: front :=
      List.prefix_of_prefix_length_le (List.prefix_append bs cs) hprefix (by omega)
    have hfront : front' <+: cs := (List.prefix_append_right_inj bs).mp hprefix
    rw [List.length_append, List.length_append] at hlt
    exact Fails.bind_of_ok (hread r front' h) (hf _ front' h.advance hfront (by omega))

/-- Converting the value afterwards needs no further bytes, and no fewer. -/
theorem map (hm : Needs m bs) (g : α → β) :
    Needs (m >>= fun v => Pure.pure (g v)) bs :=
  fun r front h hprefix hlt => (hm r front h hprefix hlt).bind

/-- Reading some bytes needs all of them: with fewer in the buffer there is no value. -/
theorem readTypeBuf {size : ℕ} (hlength : bs.length = size) (hsize : size < 2 ^ 63) :
    Needs (TarsInputStream.readTypeBuf size) bs := by
  subst hlength
  exact fun r front h _ hlt => (h.peekTypeBuf_fails hlt hsize).bind

/-- Reading the bytes of a vector needs all of them. -/
theorem readBuf {len : ℕ} (hlength : bs.length = len) (hlen : len < 2 ^ 63) :
    Needs (TarsInputStream.readBuf len) bs := by
  subst hlength
  intro r front h _ hlt
  rw [TarsInputStream.readBuf]
  refine Fails.bind_of_ok (ask_apply _ r) ?_
  split
  · exact (h.peekTypeBuf_fails hlt hlen).bind
  · exact Fails.throw

/-- A head of one byte needs that byte, so no field is found where there are no bytes. -/
theorem readFromHead (type : HeadType) {tag : UInt8} (htag : tag < 15) :
    Needs TarsInputStream.readFromHead (writeToHead type tag) := by
  intro r front h _ hlt
  rw [length_writeToHead, headLen, if_pos htag] at hlt
  exact (h.peekTypeBuf_fails hlt (by decide)).bind.bind

section Fields

variable {skip : HeadType → Decode Unit} {rounds : ℕ}

/-- Where no field follows, a required field is not found. -/
private theorem readField_nil {body : HeadType → Decode α} {old : α} {tag : UInt8}
    {r : BufferReader} (h : At r []) :
    Fails (TarsInputStream.readField skip (rounds + 1) body old tag true) r := by
  intro v r' hok
  obtain ⟨found, t, hfound, hok⟩ := bind_eq_ok_iff.mp hok
  cases found with
  | none => cases hok
  | some type =>
    have hfail : Fails (TarsInputStream.peekTypeBuf 0 1) r :=
      h.peekTypeBuf_fails (by decide) (by decide)
    rw [TarsInputStream.tarsSkipToTag, attempt] at hfound
    split at hfound
    · obtain ⟨hnone, -⟩ := Outcome.ok.inj hfound
      cases hnone
    · rw [TarsInputStream.skipToTagLoop] at hfound
      obtain ⟨ended, t', hended, hfound⟩ := bind_eq_ok_iff.mp hfound
      split at hfound
      · obtain ⟨hnone, -⟩ := Outcome.ok.inj hfound
        cases hnone
      · obtain ⟨-, rfl⟩ := Outcome.ok.inj hended
        exact absurd hfound (hfail.bind.bind _ _)

/-- A required field with a head of one byte. -/
theorem readField {body : HeadType → Decode α} {old : α} {type : HeadType} {tag : UInt8}
    (htag : tag < 15) (htype : type ≠ .structEnd) (hbody : Needs (body type) bs) :
    Needs (TarsInputStream.readField skip (rounds + 1) body old tag true)
      (writeToHead type tag ++ bs) := by
  intro r front h hprefix hlt
  have hone : (writeToHead type tag).length = 1 := by
    rw [length_writeToHead, headLen, if_pos htag]
  by_cases hempty : front = []
  · subst hempty
    exact readField_nil h
  have hpos : 0 < front.length := List.length_pos_iff.mpr hempty
  obtain ⟨front', rfl⟩ : writeToHead type tag <+: front :=
    List.prefix_of_prefix_length_le (List.prefix_append _ bs) hprefix (by omega)
  have hfront : front' <+: bs := (List.prefix_append_right_inj _).mp hprefix
  rw [List.length_append, List.length_append] at hlt
  have hrest := h.advance
  rw [length_writeToHead] at hrest
  exact Fails.bind_of_ok (h.tarsSkipToTag htype) (hbody _ front' hrest hfront (by omega))

/-- The payload of an integer needs all its bytes, in each size that fits. -/
theorem integerBody {w : ℕ} {z : ℤ} (hw : 8 * integerSize z ≤ w) :
    Needs (TarsInputStream.integerBody w (integerType (integerSize z))) (integerPayload z) := by
  have hbody (k : ℕ) (hk : k < 2 ^ 63) (g : Bytes → BitVec w) :
      Needs (TarsInputStream.readTypeBuf k >>= fun bs => Pure.pure (g bs))
        (netBytes k (BitVec.ofInt (8 * k) z).toNat) :=
    (readTypeBuf (length_netBytes k _) hk).map g
  rw [integerPayload]
  rcases integerSize_cases z with ⟨hk, -⟩ | ⟨hk, -⟩ | ⟨hk, -⟩ | ⟨hk, -⟩ | hk <;> rw [hk] at hw ⊢
  · exact nil _
  · exact hbody 1 (by decide) _
  · rw [integerType, TarsInputStream.integerBody, if_neg (by omega)]
    exact hbody 2 (by decide) _
  · rw [integerType, TarsInputStream.integerBody, if_neg (by omega)]
    exact hbody 4 (by decide) _
  · have htype : integerType 8 = .int64 := rfl
    rw [htype, TarsInputStream.integerBody, if_neg (by omega)]
    exact hbody 8 (by decide) _

/-- A size needs its head and all its bytes. -/
theorem readUInt32 (n : BitVec 32) :
    Needs (TarsInputStream.readUInt32 skip (rounds + 1) 0 0 true) (writeInt32 n 0) := by
  have hsize := integerSize_toInt_le (k := 4) (by decide) n
  rw [writeInt32_eq]
  exact (readField (by decide) (integerType_ne _) (integerBody (by omega))).map _

/-- The size of a container and its elements are all needed, one after the other. -/
theorem readSize {f : ℕ → Decode α} {n : ℕ} (hn : n < 2 ^ 32) (hf : Needs (f n) bs) :
    Needs (TarsInputStream.readSize skip (rounds + 1) >>= f)
      (writeInt32 (BitVec.ofNat 32 n) 0 ++ bs) := by
  intro r front h hprefix hlt
  by_cases hshort : front.length < (writeInt32 (BitVec.ofNat 32 n) 0).length
  · have hfront : front <+: writeInt32 (BitVec.ofNat 32 n) 0 :=
      List.prefix_of_prefix_length_le hprefix (List.prefix_append _ bs) (by omega)
    exact (readUInt32 _ r front h hfront hshort).bind.bind
  · obtain ⟨front', rfl⟩ : writeInt32 (BitVec.ofNat 32 n) 0 <+: front :=
      List.prefix_of_prefix_length_le (List.prefix_append _ bs) hprefix (by omega)
    have hfront : front' <+: bs := (List.prefix_append_right_inj _).mp hprefix
    rw [List.length_append, List.length_append] at hlt
    have hsize : TarsInputStream.readSize skip (rounds + 1) r = _ := At.readSize hn h
    split at hsize
    · rw [Fails, bind_of_thrown hsize]
      exact nofun
    · exact Fails.bind_of_ok hsize (hf _ front' h.advance hfront (by omega))

/-- The entries of a map need all their bytes, if each entry does. -/
theorem readEntries {less : α → α → Bool} {read : Decode (α × β)} {bytes : α × β → Bytes}
    (xs : List (α × β)) (hread : ∀ e ∈ xs, Reads read (bytes e) e)
    (hneeds : ∀ e ∈ xs, Needs read (bytes e)) :
    ∀ m : List (α × β),
      Needs (TarsInputStream.readEntries less read xs.length m) (xs.flatMap bytes) := by
  induction xs with
  | nil =>
    intro m
    exact nil _
  | cons e xs ih =>
    intro m
    have hrest := ih (fun d hd => hread d (List.mem_cons_of_mem e hd))
      (fun d hd => hneeds d (List.mem_cons_of_mem e hd)) (TarsInputStream.insert less e m)
    rw [List.length_cons, TarsInputStream.readEntries, List.flatMap_cons]
    exact bind (hread e List.mem_cons_self) (hneeds e List.mem_cons_self) hrest

/-- A vector of bytes needs its two heads, its size and all its bytes. -/
theorem readBytes {v : Bytes} (old : Bytes) (hv : v.length < 2 ^ 32) {tag : UInt8}
    (htag : tag < 15) :
    Needs (TarsInputStream.readBytes skip (rounds + 1) old tag true) (writeBytes v tag) := by
  rw [writeBytes, List.append_assoc, List.append_assoc]
  refine readField htag (by decide) ?_
  exact bind (Reads.readFromHead .char 0) (readFromHead .char (by decide))
    (readSize hv (readBuf rfl (by omega)))

/-- A string needs its head, its size and all its bytes. -/
theorem readString {s bs old : Bytes} {tag : UInt8} (hs : writeString s tag = .ok bs)
    (htag : tag < 15) :
    Needs (TarsInputStream.readString skip (rounds + 1) old tag true) bs := by
  have hmax : maxStringLength = 104857600 := rfl
  obtain ⟨hlong, hlimit, rfl⟩ | ⟨hshort, rfl⟩ := writeString_cases hs
  · refine readField htag (by decide) ?_
    have hlength := length_netBytes 4 s.length
    refine bind (Reads.readTypeBuf hlength) (readTypeBuf hlength (by decide)) ?_
    rw [htonl_load_toNat (by omega)]
    show Needs (if s.length > maxStringLength then _ else _) s
    rw [if_neg (by omega)]
    exact readTypeBuf rfl (by omega)
  · refine readField htag (by decide) ?_
    have hload : load (store 1 s.length) = s.length := by
      rw [load_store, Nat.mod_eq_of_lt (by omega)]
    have hlength := length_store 1 s.length
    refine bind (Reads.readTypeBuf hlength) (readTypeBuf hlength (by decide)) ?_
    rw [hload]
    exact readTypeBuf rfl (by omega)

end Fields

/-- A map from strings to bytes needs the bytes of all its entries. -/
theorem read_stringBytes {types : Codegen} {guard : Bool} {fuel : ℕ}
    {m old : (Ty.map .string .bytes).denote} {tag : UInt8} {bs : Bytes} (htag : tag < 15)
    (hlength : m.length < 2 ^ 32) (hvalues : ∀ e ∈ m, e.2.length < 2 ^ 32)
    (h : write (.map .string .bytes) m tag = .ok bs) :
    Needs (TarsInputStream.read types guard (fuel + 1) (.map .string .bytes) old tag true) bs := by
  obtain ⟨hok, rfl⟩ := write_map_ok h
  have hentry : ∀ e ∈ m, Reads (do
        let key ← TarsInputStream.read types guard (fuel + 1) .string (types.init .string) 0 true
        let value ← TarsInputStream.read types guard (fuel + 1) .bytes (types.init .bytes) 1 true
        Pure.pure (key, value)) (written (writeEntry .string .bytes e)) e ∧
      Needs (do
        let key ← TarsInputStream.read types guard (fuel + 1) .string (types.init .string) 0 true
        let value ← TarsInputStream.read types guard (fuel + 1) .bytes (types.init .bytes) 1 true
        Pure.pure (key, value)) (written (writeEntry .string .bytes e)) := by
    intro e he
    obtain ⟨key, value, hkey, hvalue, hbs⟩ := writeEntry_ok (hok e he)
    have hvalue' : writeBytes e.2 1 = value := Except.ok.inj hvalue
    have hread : Reads (TarsInputStream.read types guard (fuel + 1) .string (types.init .string) 0
        true) key e.1 := reads_readString hkey _ true
    rw [hbs, ← hvalue']
    constructor
    · exact hread.bind ((reads_readBytes e.2 _ (hvalues e he) 1 true).map fun value => (e.1, value))
    · exact bind hread (readString hkey (by decide))
        ((readBytes _ (hvalues e he) (by decide)).map fun value => (e.1, value))
  rw [TarsInputStream.read, List.append_assoc]
  refine readField htag (by decide) (readSize hlength ?_)
  exact readEntries m (fun e he => (hentry e he).1) (fun e he => (hentry e he).2) []

end Needs

/-! ### Missing memory -/

/-- A decoder that leaves its memory where the last of these bytes are missing from the memory, but
not from the buffer. -/
def Faults {α : Type} (m : Decode α) (bs : Bytes) : Prop :=
  ∀ r front, At r front → r.cur + bs.length ≤ r.bufLen → front <+: bs →
    front.length < bs.length → m r = .fault

/-- Looking at more bytes than there is memory reads behind it, although the length allows it. -/
theorem At.peekTypeBuf_faults {r : BufferReader} {front : Bytes} {size : ℕ} (h : At r front)
    (hlong : front.length < size) (hsize : r.cur + size ≤ r.bufLen) :
    TarsInputStream.peekTypeBuf 0 size r = .fault := by
  have hfits := h.fits
  have hcur := h.cur_add
  have hmod : (r.cur + 0 + size) % 2 ^ 64 = r.cur + 0 + size := Nat.mod_eq_of_lt (by omega)
  rw [TarsInputStream.peekTypeBuf, hmod, if_neg (by omega), if_neg (by omega)]

namespace Faults

variable {α β : Type} {m : Decode α} {f : α → Decode β} {bs cs : Bytes} {v : α}

/-- Where nothing is read, nothing can lie outside of the memory. -/
theorem nil (m : Decode α) : Faults m [] :=
  fun _ _ _ _ _ hlt => absurd hlt (Nat.not_lt_zero _)

/-- One decoder after the other reaches outside where the first or the second one does. -/
theorem bind (hread : Reads m bs v) (hm : Faults m bs) (hf : Faults (f v) cs) :
    Faults (m >>= f) (bs ++ cs) := by
  intro r front h hroom hprefix hlt
  rw [List.length_append] at hroom hlt
  by_cases hshort : front.length < bs.length
  · have hfront : front <+: bs :=
      List.prefix_of_prefix_length_le hprefix (List.prefix_append bs cs) (by omega)
    exact bind_of_fault (hm r front h (by omega) hfront hshort)
  · obtain ⟨front', rfl⟩ : bs <+: front :=
      List.prefix_of_prefix_length_le (List.prefix_append bs cs) hprefix (by omega)
    have hfront : front' <+: cs := (List.prefix_append_right_inj bs).mp hprefix
    rw [List.length_append] at hlt
    have hroom' : (r.advance bs.length).cur + cs.length ≤ (r.advance bs.length).bufLen := by
      rw [BufferReader.cur_advance, BufferReader.bufLen_advance]
      omega
    rw [bind_of_ok (hread r front' h)]
    exact hf _ front' h.advance hroom' hfront (by omega)

/-- Converting the value afterwards reaches no further into memory. -/
theorem map (hm : Faults m bs) (g : α → β) : Faults (m >>= fun v => Pure.pure (g v)) bs :=
  fun r front h hroom hprefix hlt => bind_of_fault (hm r front h hroom hprefix hlt)

/-- Reading more bytes than the memory has reaches outside of it. -/
theorem readTypeBuf {size : ℕ} (hlength : bs.length = size) :
    Faults (TarsInputStream.readTypeBuf size) bs := by
  subst hlength
  exact fun r front h hroom _ hlt => bind_of_fault (h.peekTypeBuf_faults hlt hroom)

section Fields

variable {skip : HeadType → Decode Unit} {rounds : ℕ}

/-- The tag of a field with a head of one byte. -/
private theorem tarsSkipToTag (type : HeadType) {tag : UInt8} (htag : tag < 15) :
    Faults (TarsInputStream.tarsSkipToTag skip (rounds + 1) tag) (writeToHead type tag) := by
  intro r front h hroom hprefix hlt
  rw [length_writeToHead, headLen, if_pos htag] at hroom hlt
  have hend : r.hasEnd = false := by
    rw [BufferReader.hasEnd, decide_eq_false_iff_not]
    omega
  have hpeek : TarsInputStream.peekFromHead r = .fault :=
    bind_of_fault (h.peekTypeBuf_faults hlt hroom)
  have hloop : TarsInputStream.skipToTagLoop skip tag (rounds + 1) r = .fault := by
    rw [TarsInputStream.skipToTagLoop, bind_of_ok (ask_apply _ _), hend, if_neg (by decide),
      bind_of_fault hpeek]
  rw [TarsInputStream.tarsSkipToTag, attempt, hloop]

/-- A field with a head of one byte faults if its payload does: the head itself is there. -/
theorem readField {body : HeadType → Decode α} {old : α} {type : HeadType} {tag : UInt8}
    {isRequire : Bool} (htag : tag < 15) (htype : type ≠ .structEnd)
    (hbody : Faults (body type) bs) :
    Faults (TarsInputStream.readField skip (rounds + 1) body old tag isRequire)
      (writeToHead type tag ++ bs) := by
  have hfound : Reads (TarsInputStream.tarsSkipToTag skip (rounds + 1) tag)
      (writeToHead type tag) (some type) := by
    intro r rest h
    rw [h.tarsSkipToTag htype, length_writeToHead]
  exact bind hfound (tarsSkipToTag type htag) hbody

/-- The payload of an integer reaches outside of the memory when its bytes are cut. -/
theorem integerBody {w : ℕ} {z : ℤ} (hw : 8 * integerSize z ≤ w) :
    Faults (TarsInputStream.integerBody w (integerType (integerSize z))) (integerPayload z) := by
  have hbody (k : ℕ) (g : Bytes → BitVec w) :
      Faults (TarsInputStream.readTypeBuf k >>= fun bs => Pure.pure (g bs))
        (netBytes k (BitVec.ofInt (8 * k) z).toNat) :=
    (readTypeBuf (length_netBytes k _)).map g
  rw [integerPayload]
  rcases integerSize_cases z with ⟨hk, -⟩ | ⟨hk, -⟩ | ⟨hk, -⟩ | ⟨hk, -⟩ | hk <;> rw [hk] at hw ⊢
  · exact nil _
  · exact hbody 1 _
  · rw [integerType, TarsInputStream.integerBody, if_neg (by omega)]
    exact hbody 2 _
  · rw [integerType, TarsInputStream.integerBody, if_neg (by omega)]
    exact hbody 4 _
  · have htype : integerType 8 = .int64 := rfl
    rw [htype, TarsInputStream.integerBody, if_neg (by omega)]
    exact hbody 8 _

/-- A signed integer reaches outside of the memory when its head or its payload is cut. -/
theorem signed {k : ℕ} (hk : k = 1 ∨ k = 2 ∨ k = 4 ∨ k = 8) (n old : BitVec (8 * k))
    {tag : UInt8} (htag : tag < 15) (isRequire : Bool) :
    Faults (TarsInputStream.readField skip (rounds + 1) (TarsInputStream.integerBody (8 * k)) old
      tag isRequire) (encodeInteger n.toInt tag) := by
  have hsize := integerSize_toInt_le hk n
  exact readField htag (integerType_ne _) (integerBody (by omega))

end Fields

/-- A structure reaches outside of the memory where its first field or one of the others does. -/
theorem readFrom_cons {types : Codegen} {guard : Bool} {fuel : ℕ} {tag : UInt8} {isRequire : Bool}
    {t : Ty} {fs : Fields} {old w : t.denote} {olds : fs.denote}
    (hread : Reads (TarsInputStream.read types guard fuel t old tag isRequire) bs w)
    (hfield : Faults (TarsInputStream.read types guard fuel t old tag isRequire) bs)
    (hrest : Faults (TarsInputStream.readFrom types guard fuel fs olds) cs) :
    Faults (TarsInputStream.readFrom types guard fuel (.cons tag isRequire t fs) (old, olds))
      (bs ++ cs) :=
  bind hread hfield (hrest.map _)

end Faults

end Tars
