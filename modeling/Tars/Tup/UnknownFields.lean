import Tars.Tup.Evolution

/-!
# Fields that are passed on unread

`readUnknown` takes the fields behind the known ones as bytes, and `writeUnknown` appends them to
what is written. How far it gets depends on where `skipField` leaves the cursor: in front of the
entries of a map that is too large, which are then taken for fields. Inside of a structure they
are passed over up to its end.
-/

namespace Tars

open LittleEndian Decoding TarsOutputStream TarsInputStream

/-! ### The source -/

/-- `DataHead::peekFrom`, written a second time in the source beside `TarsPeekFromHead`. -/
def DataHead.peekFrom : Decode Head := do
  let h ← peekTypeBuf 0 1
  let type := HeadType.ofCode (load h % 16)
  if load h / 16 = 15 then do
    let tag ← peekTypeBuf 1 1
    pure ⟨type, UInt8.ofNat (load tag), 2⟩
  else pure ⟨type, UInt8.ofNat (load h / 16), 1⟩

namespace TarsInputStream

/-- `BufferReader::skip`, which checks the bounds and then moves the cursor. -/
def skip (len : ℕ) : Decode Unit := do
  let fits ← ask fun r => decide (len ≤ r.bufLen ∧ (r.cur + len) % 2 ^ 64 ≤ r.bufLen)
  if fits then readHeadSkip len else throw .overflow

/-- The construction of a string from the bytes of the buffer between two positions. Neither the
memory behind the buffer nor a negative length makes a string. -/
def substring (start last : ℕ) : Decode Bytes := fun r =>
  if start ≤ last ∧ last ≤ r.buf.length then .ok ((r.buf.drop start).take (last - start)) r
  else .fault

section ReadUnknown

variable (guard : Bool) (fuel : ℕ)

/-- The loop of `readUnknown`, which passes fields while their tags grow and keeps where the last
one ended. -/
def readUnknownLoop (lasttag : UInt8) (last : ℕ) : ℕ → Decode ℕ
  | 0 => exhausted
  | rounds + 1 => do
    let ended ← ask BufferReader.hasEnd
    if ended then pure last
    else do
      let h ← DataHead.peekFrom
      if h.tag ≤ lasttag then pure last
      else do
        skip h.len
        skipField guard fuel h.type
        let last ← ask BufferReader.cur
        readUnknownLoop h.tag last rounds

/-- `readUnknown`, which copies the bytes of the fields that the loop has passed. -/
def readUnknown (tag : UInt8) : Decode Bytes := do
  let start ← ask BufferReader.cur
  let last ← readUnknownLoop guard fuel tag start fuel
  substring start last

end ReadUnknown

end TarsInputStream

/-- `writeUnknown`, which writes the bytes as they are, behind what was written before. -/
def TarsOutputStream.writeUnknown (s : Bytes) : Bytes := s

/-! ### Where skipping ends -/

/-- Outside of nested structures, the value contains no map with `2 ^ 30` entries or more. -/
def Ty.Passable : (t : Ty) → t.denote → Prop
  | .vector t, v => ∀ x ∈ v, t.Passable x
  | .map k v, m => m.length < 2 ^ 30 ∧ ∀ e ∈ m, k.Passable e.1 ∧ v.Passable e.2
  | _, _ => True

/-- A field that is passed over exactly: the cursor stands right behind it afterwards. -/
def Field.Passable (f : Field) : Prop := f.type.Passable f.value

section Leaves

variable {guard : Bool} {less : (t : Ty) → t.denote → t.denote → Bool}

/-- A decoder that skips leaves these fields of some bytes in front of the cursor. They are
elements, keys or values of containers. -/
structure Leaves (less : (t : Ty) → t.denote → t.denote → Bool) (m : Decode Unit) (bytes : Bytes)
    (rest : List Field) : Prop where
  /-- It passes over what is in front of them. -/
  skips : ∃ front, bytes = front ++ rest.flatMap Field.bytes ∧ Reads m front ()
  /-- The fields that are left respect the limits, so they can be decoded. -/
  valid : ∀ f ∈ rest, f.type.Valid less f.value
  /-- Their tags are those of elements, keys and values. -/
  tags : ∀ f ∈ rest, f.tag ≤ 1

/-- What is exactly passed over leaves nothing behind, so the relay adds nothing to it. -/
theorem Leaves.nil {m : Decode Unit} {bytes : Bytes} (h : Reads m bytes ()) :
    Leaves less m bytes [] :=
  ⟨⟨bytes, (List.append_nil _).symm, h⟩, by simp, by simp⟩

/-- What is read first is in front of what is left. -/
theorem Leaves.bind {α : Type} {m : Decode α} {v : α} {f : α → Decode Unit} {bytes more : Bytes}
    {rest : List Field} (hm : Reads m bytes v) (h : Leaves less (f v) more rest) :
    Leaves less (m >>= f) (bytes ++ more) rest := by
  obtain ⟨⟨front, rfl, hreads⟩, hvalid, htags⟩ := h
  exact ⟨⟨bytes ++ front, (List.append_assoc _ _ _).symm, hm.bind hreads⟩, hvalid, htags⟩

/-- What `skipField` leaves of a field whose payload is not too long for the fuel: nothing, exactly
if the field is passed over. -/
def LeavesFields (guard : Bool) (less : (t : Ty) → t.denote → t.denote → Bool) (fuel : ℕ) : Prop :=
  ∀ f : Field, f.type.Valid less f.value → f.payload.length < fuel → ∃ rest,
    Leaves less (skipField guard fuel f.wireType) f.payload rest ∧ (rest = [] ↔ f.Passable)

/-- What the payload of a field leaves is in front of the fields that follow. -/
theorem skipEach_leaves {fuel : ℕ} (hskip : LeavesFields guard less fuel) (n : ℕ) :
    ∀ fs : List Field, n ≤ fs.length → (fs.flatMap Field.bytes).length ≤ fuel →
      (∀ f ∈ fs, f.type.Valid less f.value) → (∀ f ∈ fs, f.tag ≤ 1) →
      ∃ rest, Leaves less (skipEach (skipField guard fuel) n) (fs.flatMap Field.bytes) rest ∧
        fs.length ≤ rest.length + n ∧
        (rest.length + n = fs.length ↔ ∀ f ∈ fs.take n, f.Passable) := by
  induction n with
  | zero =>
    intro fs _ _ hvalid htags
    exact ⟨fs, ⟨⟨[], rfl, Reads.pure ()⟩, hvalid, htags⟩, le_rfl, by simp⟩
  | succ n ih =>
    intro fs hn hfuel hvalid htags
    cases fs with
    | nil => simp at hn
    | cons f fs =>
      have hhead := headLen_pos f.tag
      rw [List.flatMap_cons, List.length_append, Field.bytes, List.length_append,
        length_writeToHead] at hfuel
      obtain ⟨left, ⟨⟨front, hpayload, hreads⟩, hleft, hlefttags⟩, hexact⟩ :=
        hskip f (hvalid f List.mem_cons_self) (by omega)
      have hlength := congrArg List.length hpayload
      rw [List.length_append] at hlength
      rw [List.length_cons] at hn
      obtain ⟨rest, hrest, hle, hiff⟩ := ih (left ++ fs)
        (by rw [List.length_append]; omega)
        (by rw [List.flatMap_append, List.length_append]; omega)
        (fun g hg => (List.mem_append.mp hg).elim (hleft g)
          fun hg => hvalid g (List.mem_cons_of_mem _ hg))
        (fun g hg => (List.mem_append.mp hg).elim (hlefttags g)
          fun hg => htags g (List.mem_cons_of_mem _ hg))
      rw [List.length_append] at hle
      refine ⟨rest, ?_, ?_, ?_⟩
      · have hbytes : (f :: fs).flatMap Field.bytes =
            (writeToHead f.wireType f.tag ++ front) ++ (left ++ fs).flatMap Field.bytes := by
          rw [List.flatMap_cons, Field.bytes, hpayload, List.flatMap_append]
          simp only [List.append_assoc]
        rw [hbytes]
        exact Leaves.bind (reads_skipFieldHead hreads) hrest
      · rw [List.length_cons]
        omega
      · rw [List.length_cons, List.take_succ_cons, List.forall_mem_cons, ← hexact]
        cases left with
        | nil =>
          rw [List.nil_append] at hiff
          rw [← hiff]
          constructor
          · intro heq
            exact ⟨rfl, by omega⟩
          · rintro ⟨-, heq⟩
            omega
        | cons g left =>
          rw [List.length_cons] at hle
          constructor
          · intro heq
            omega
          · rintro ⟨hnil, -⟩
            cases hnil

/-- Inside of a structure, what a field leaves is passed over like the fields that follow. -/
theorem reads_skipToStructEnd_leaves {fuel : ℕ} (hfuel : 0 < fuel)
    (hskip : LeavesFields guard less fuel) (rounds : ℕ) :
    ∀ fs : List Field, (fs.flatMap Field.bytes).length < rounds →
      (fs.flatMap Field.bytes).length ≤ fuel → (∀ f ∈ fs, f.type.Valid less f.value) →
      Reads (skipToStructEnd (skipField guard fuel) rounds)
        (fs.flatMap Field.bytes ++ writeToHead .structEnd 0) () := by
  induction rounds with
  | zero =>
    intro fs hrounds
    omega
  | succ rounds ih =>
    intro fs hrounds hle hvalid
    cases fs with
    | nil =>
      exact reads_skipToStructEnd_fields [] (Nat.succ_pos _) (reads_skipField_structEnd hfuel)
        (by simp)
    | cons f fs =>
      have hhead := headLen_pos f.tag
      rw [List.flatMap_cons, List.length_append, Field.bytes, List.length_append,
        length_writeToHead] at hrounds hle
      obtain ⟨left, ⟨⟨front, hpayload, hreads⟩, hleft, -⟩, -⟩ :=
        hskip f (hvalid f List.mem_cons_self) (by omega)
      have hlength := congrArg List.length hpayload
      rw [List.length_append] at hlength
      have hrest := ih (left ++ fs)
        (by rw [List.flatMap_append, List.length_append]; omega)
        (by rw [List.flatMap_append, List.length_append]; omega)
        (fun g hg => (List.mem_append.mp hg).elim (hleft g)
          fun hg => hvalid g (List.mem_cons_of_mem _ hg))
      have hbytes : (f :: fs).flatMap Field.bytes ++ writeToHead .structEnd 0 =
          writeToHead f.wireType f.tag ++ (front ++
            ((left ++ fs).flatMap Field.bytes ++ writeToHead .structEnd 0)) := by
        rw [List.flatMap_cons, Field.bytes, hpayload, List.flatMap_append]
        simp only [List.append_assoc]
      have htype : f.wireType ≠ .structEnd := wireType_ne f.type f.value
      rw [hbytes, skipToStructEnd]
      refine (Reads.readFromHeadNoTag f.wireType f.tag).bind (hreads.bind ?_)
      rwa [if_neg htype]

/-- The field of an integer has a head, so it is never empty. -/
private theorem length_encodeInteger_pos (n : ℤ) : 0 < (encodeInteger n 0).length := by
  have hhead := headLen_pos 0
  rw [length_encodeInteger]
  omega

/-- The elements of a vector as fields, each with the tag 0. -/
def elementFields (t : Ty) (v : List t.denote) : List Field := v.map fun x => ⟨0, t, x⟩

/-- The keys and values of a map as fields. -/
def entryFields (k v : Ty) (m : List (k.denote × v.denote)) : List Field :=
  m.flatMap fun e => [⟨0, k, e.1⟩, ⟨1, v, e.2⟩]

theorem payload_vector (t : Ty) (v : List t.denote) : payload (.vector t) v =
    encodeInteger v.length 0 ++ (elementFields t v).flatMap Field.bytes := by
  rw [payload, elementFields, List.flatMap_map]
  rfl

theorem payload_map (k v : Ty) (m : List (k.denote × v.denote)) : payload (.map k v) m =
    encodeInteger m.length 0 ++ (entryFields k v m).flatMap Field.bytes := by
  rw [payload, entryFields, List.flatMap_assoc]
  simp only [List.flatMap_cons, List.flatMap_nil, List.append_nil]
  rfl

theorem length_entryFields (k v : Ty) (m : List (k.denote × v.denote)) :
    (entryFields k v m).length = m.length * 2 := by
  simp [entryFields, List.length_flatMap, List.map_const', List.sum_replicate]

/-- A value without a map in it is passed over exactly, so nothing of it is left behind. -/
private theorem leaves_simple {t : Ty} {v : t.denote} {fuel : ℕ} (hv : t.Valid less v)
    (hfuel : (payload t v).length < fuel) (hpassable : t.Passable v)
    (hnone : ∀ (k e : Ty) (m : List (k.denote × e.denote)), ¬Within (u := .map k e) m t v) :
    ∃ rest, Leaves less (skipField guard fuel (wireType t v)) (payload t v) rest ∧
      (rest = [] ↔ t.Passable v) :=
  ⟨[], .nil (reads_skipField t v hv (fun k e m hm => absurd hm (hnone k e m)) fuel hfuel),
    iff_of_true rfl hpassable⟩

/-- What is left of the elements of a vector. -/
private theorem leaves_vector {fuel : ℕ} (hskip : LeavesFields guard less fuel) {t : Ty}
    {v : List t.denote} (hv : (Ty.vector t).Valid less v)
    (hfuel : (payload (.vector t) v).length < fuel + 1) :
    ∃ rest, Leaves less (skipField guard (fuel + 1) .list) (payload (.vector t) v) rest ∧
      (rest = [] ↔ (Ty.vector t).Passable v) := by
  obtain ⟨hlength, hall⟩ := hv
  have hcount : (elementFields t v).length = v.length := List.length_map _
  have hsize := length_encodeInteger_pos v.length
  rw [payload_vector, List.length_append] at hfuel
  have hvalid : ∀ f ∈ elementFields t v, f.type.Valid less f.value ∧ f.tag ≤ 1 := by
    intro f hf
    obtain ⟨x, hx, rfl⟩ := List.mem_map.mp hf
    exact ⟨hall x hx, (by decide : (0 : UInt8) ≤ 1)⟩
  obtain ⟨rest, hrest, -, hiff⟩ := skipEach_leaves hskip v.length (elementFields t v)
    hcount.ge (by omega) (fun f hf => (hvalid f hf).1) fun f hf => (hvalid f hf).2
  have hrounds : TarsInputStream.rounds (BitVec.ofNat 32 v.length) = v.length := by
    rw [TarsInputStream.rounds, toInt_ofNat_of_lt hlength, Int.toNat_natCast]
  refine ⟨rest, ?_, ?_⟩
  · rw [payload_vector, skipField]
    refine Leaves.bind (reads_readInt32_size hlength) ?_
    rwa [hrounds]
  · rw [← hcount, List.take_length, Nat.add_eq_right, List.length_eq_zero_iff] at hiff
    rw [hiff, elementFields, List.forall_mem_map]
    exact Iff.rfl

/-- What is left of the keys and values of a map: all of them, if there are too many. -/
private theorem leaves_map {fuel : ℕ} (hskip : LeavesFields guard less fuel) {k e : Ty}
    {m : List (k.denote × e.denote)} (hm : (Ty.map k e).Valid less m)
    (hfuel : (payload (.map k e) m).length < fuel + 1) :
    ∃ rest, Leaves less (skipField guard (fuel + 1) .map) (payload (.map k e) m) rest ∧
      (rest = [] ↔ (Ty.map k e).Passable m) := by
  obtain ⟨hlength, -, hall⟩ := hm
  have hcount := length_entryFields k e m
  have hsize := length_encodeInteger_pos m.length
  rw [payload_map, List.length_append] at hfuel
  have hvalid : ∀ f ∈ entryFields k e m, f.type.Valid less f.value ∧ f.tag ≤ 1 := by
    intro f hf
    obtain ⟨d, hd, hfd⟩ := List.mem_flatMap.mp hf
    rcases List.mem_pair.mp hfd with rfl | rfl
    · exact ⟨(hall d hd).1, (by decide : (0 : UInt8) ≤ 1)⟩
    · exact ⟨(hall d hd).2, (by decide : (1 : UInt8) ≤ 1)⟩
  by_cases hlarge : 2 ^ 30 ≤ m.length
  · refine ⟨entryFields k e m, ⟨⟨encodeInteger m.length 0, payload_map k e m,
      reads_skipField_large hlarge hlength⟩, fun f hf => (hvalid f hf).1,
      fun f hf => (hvalid f hf).2⟩, ?_⟩
    constructor
    · intro hnil
      rw [hnil, List.length_nil] at hcount
      omega
    · rintro ⟨hsmall, -⟩
      omega
  · obtain ⟨rest, hrest, -, hiff⟩ := skipEach_leaves hskip (m.length * 2) (entryFields k e m)
      hcount.ge (by omega) (fun f hf => (hvalid f hf).1) fun f hf => (hvalid f hf).2
    have htwice : BitVec.ofNat 32 m.length * 2 = BitVec.ofNat 32 (m.length * 2) := by
      rw [BitVec.ofNat_mul]
      rfl
    have hrounds : TarsInputStream.rounds (BitVec.ofNat 32 m.length * 2) = m.length * 2 := by
      rw [htwice, TarsInputStream.rounds, toInt_ofNat_of_lt (by omega), Int.toNat_natCast]
    refine ⟨rest, ?_, ?_⟩
    · rw [payload_map, skipField]
      refine Leaves.bind (reads_readInt32_size hlength) ?_
      rwa [hrounds]
    · rw [← hcount, List.take_length, Nat.add_eq_right, List.length_eq_zero_iff] at hiff
      rw [hiff]
      constructor
      · intro hpass
        refine ⟨by omega, fun d hd => ⟨?_, ?_⟩⟩
        · exact hpass _ (List.mem_flatMap.mpr ⟨d, hd, List.mem_cons_self⟩)
        · exact hpass _ (List.mem_flatMap.mpr ⟨d, hd, List.mem_cons_of_mem _ List.mem_cons_self⟩)
      · rintro ⟨-, hpass⟩ f hf
        obtain ⟨d, hd, hfd⟩ := List.mem_flatMap.mp hf
        rcases List.mem_pair.mp hfd with rfl | rfl
        · exact (hpass d hd).1
        · exact (hpass d hd).2

/-- **What `skipField` leaves** of a field: nothing exactly if outside of nested structures there
is no map that is too large. -/
theorem leavesFields (guard : Bool) (less : (t : Ty) → t.denote → t.denote → Bool) (fuel : ℕ) :
    LeavesFields guard less fuel := by
  induction fuel with
  | zero =>
    intro f _ hfuel
    omega
  | succ fuel ih =>
    rintro ⟨tag, t, v⟩ hv hfuel
    cases t with
    | vector t => exact leaves_vector ih hv hfuel
    | map k e => exact leaves_map ih hv hfuel
    | struct fs =>
      have hhead := headLen_pos 0
      have hbytes : Field.payload ⟨tag, .struct fs, v⟩ =
          (fs.toList v).flatMap Field.bytes ++ writeToHead .structEnd 0 := by
        rw [Field.payload, payload, encodeFields_eq]
      rw [hbytes, List.length_append, length_writeToHead] at hfuel
      refine ⟨[], .nil ?_, iff_of_true rfl trivial⟩
      rw [hbytes]
      exact reads_skipToStructEnd_leaves (by omega) ih (fuel + 1) _ (by omega) (by omega)
        (Fields.Valid.of_mem fs v hv)
    | _ => exact leaves_simple hv hfuel trivial fun k e m hm => by cases hm

end Leaves

/-! ### Taking the fields behind -/

section ReadUnknown

variable {guard : Bool} {less : (t : Ty) → t.denote → t.denote → Bool} {fuel rounds last : ℕ}
  {r : BufferReader} {lasttag tag : UInt8} {type : HeadType} {rest : Bytes}

/-- `peekFrom` does exactly what `TarsPeekFromHead` does, so the lemmas on the one hold of the
other. -/
theorem DataHead.peekFrom_eq : DataHead.peekFrom = peekFromHead := rfl

/-- Moving the cursor over bytes with a check passes exactly them, if they are there. -/
theorem At.skip {bs : Bytes} {len : ℕ} (h : At r (bs ++ rest)) (hlen : bs.length = len) :
    TarsInputStream.skip len r = .ok () (r.advance len) := by
  have hfits := h.fits
  have hcur := h.cur_add_le
  rw [List.length_append] at hcur
  have hmod : (r.cur + len) % 2 ^ 64 = r.cur + len := Nat.mod_eq_of_lt (by omega)
  have hdecide : decide (len ≤ r.bufLen ∧ (r.cur + len) % 2 ^ 64 ≤ r.bufLen) = true := by
    rw [hmod, decide_eq_true_iff]
    omega
  rw [TarsInputStream.skip, bind_of_ok (ask_apply _ _), hdecide, if_pos rfl]
  exact h.readHeadSkip hlen

/-- The loop goes as far into a field with a greater tag as `skipField` does. -/
theorem readUnknownLoop_skip {front : Bytes}
    (h : At r (writeToHead type tag ++ (front ++ rest))) (htag : lasttag < tag)
    (hskip : Reads (skipField guard fuel type) front ()) :
    readUnknownLoop guard fuel lasttag last (rounds + 1) r =
      readUnknownLoop guard fuel tag (r.cur + (headLen tag + front.length)) rounds
        (r.advance (headLen tag + front.length)) := by
  have hne : writeToHead type tag ++ (front ++ rest) ≠ [] :=
    List.append_ne_nil_of_left_ne_nil (writeToHead_ne_nil type tag) _
  have hbody := h.advance
  rw [length_writeToHead] at hbody
  rw [readUnknownLoop, bind_of_ok (ask_apply _ _), h.hasEnd_eq hne, if_neg (by decide),
    DataHead.peekFrom_eq, bind_of_ok h.peekFromHead, if_neg (UInt8.not_le.mpr htag),
    bind_of_ok (h.skip (length_writeToHead _ _)), bind_of_ok (hskip _ _ hbody),
    bind_of_ok (ask_apply _ _), BufferReader.advance_advance, BufferReader.cur_advance]

/-- The loop stops at a head whose tag is not greater. -/
theorem readUnknownLoop_stop (h : At r (writeToHead type tag ++ rest)) (htag : tag ≤ lasttag) :
    readUnknownLoop guard fuel lasttag last (rounds + 1) r = .ok last r := by
  have hne : writeToHead type tag ++ rest ≠ [] :=
    List.append_ne_nil_of_left_ne_nil (writeToHead_ne_nil type tag) rest
  rw [readUnknownLoop, bind_of_ok (ask_apply _ _), h.hasEnd_eq hne, if_neg (by decide),
    DataHead.peekFrom_eq, bind_of_ok h.peekFromHead, if_pos htag]
  rfl

/-- The loop stops at the end of the structure or of the buffer. -/
theorem readUnknownLoop_ends (h : At r rest) (hends : Ends rest)
    (hmemory : r.bufLen ≤ r.buf.length) :
    readUnknownLoop guard fuel lasttag last (rounds + 1) r = .ok last r := by
  rcases hends with rfl | ⟨more, rfl⟩
  · have hcur := h.cur_add
    have hend : r.hasEnd = true := by
      rw [List.length_nil] at hcur
      rw [BufferReader.hasEnd, decide_eq_true_iff]
      omega
    rw [readUnknownLoop, bind_of_ok (ask_apply _ _), hend, if_pos rfl]
    rfl
  · exact readUnknownLoop_stop h UInt8.zero_le

/-- Fields that can be passed over are taken as a whole. -/
theorem readUnknownLoop_passable (guard : Bool) (fuel : ℕ) (hends : Ends rest) (fs : List Field) :
    ∀ {r lasttag rounds}, At r (fs.flatMap Field.bytes ++ rest) → r.bufLen ≤ r.buf.length →
      (fs.flatMap Field.bytes).length < fuel → fs.length < rounds →
      (∀ f ∈ fs, f.type.Valid less f.value) → (∀ f ∈ fs, f.Passable) →
      (∀ f ∈ fs, lasttag < f.tag) → fs.Pairwise (fun f g => f.tag < g.tag) →
      readUnknownLoop guard fuel lasttag r.cur rounds r =
        .ok (r.cur + (fs.flatMap Field.bytes).length)
          (r.advance (fs.flatMap Field.bytes).length) := by
  induction fs with
  | nil =>
    intro r lasttag rounds h hmemory _ hrounds _ _ _ _
    obtain ⟨rounds, rfl⟩ : ∃ n, rounds = n + 1 := ⟨rounds - 1, by omega⟩
    exact readUnknownLoop_ends h hends hmemory
  | cons f fs ih =>
    intro r lasttag rounds h hmemory hfuel hrounds hvalid hpass htags hsorted
    obtain ⟨rounds, rfl⟩ : ∃ n, rounds = n + 1 := ⟨rounds - 1, by omega⟩
    obtain ⟨hless, hsorted⟩ := List.pairwise_cons.mp hsorted
    have hhead := headLen_pos f.tag
    have hlength : f.bytes.length = headLen f.tag + f.payload.length := by
      rw [Field.bytes, List.length_append, length_writeToHead]
    rw [List.flatMap_cons, List.length_append, hlength] at hfuel
    obtain ⟨left, hleft, hiff⟩ := leavesFields guard less fuel f
      (hvalid f List.mem_cons_self) (by omega)
    obtain rfl := hiff.mpr (hpass f List.mem_cons_self)
    obtain ⟨front, hfront, hreads⟩ := hleft.skips
    rw [List.flatMap_nil, List.append_nil] at hfront
    subst hfront
    rw [List.flatMap_cons, List.append_assoc] at h
    have hnext := h.advance
    rw [Field.bytes, List.append_assoc] at h
    have hrest := ih hnext hmemory (by omega) (Nat.lt_of_succ_lt_succ hrounds)
      (fun g hg => hvalid g (List.mem_cons_of_mem _ hg))
      (fun g hg => hpass g (List.mem_cons_of_mem _ hg)) hless hsorted
    rw [readUnknownLoop_skip h (htags f List.mem_cons_self) hreads, ← hlength]
    rw [BufferReader.cur_advance] at hrest
    rw [hrest, BufferReader.advance_advance, List.flatMap_cons, List.length_append, Nat.add_assoc]

/-- In front of a field that cannot be passed over, or within it, the loop stops early. -/
theorem readUnknownLoop_stuck (guard : Bool) (fuel : ℕ) (fs : List Field) :
    ∀ {r lasttag rounds}, At r (fs.flatMap Field.bytes ++ rest) →
      (fs.flatMap Field.bytes).length < fuel → fs.length < rounds →
      (∀ f ∈ fs, f.type.Valid less f.value) → (¬∀ f ∈ fs, f.Passable) →
      (∀ f ∈ fs, lasttag < f.tag) → fs.Pairwise (fun f g => f.tag < g.tag) →
      ∃ n < (fs.flatMap Field.bytes).length,
        readUnknownLoop guard fuel lasttag r.cur rounds r = .ok (r.cur + n) (r.advance n) := by
  induction fs with
  | nil =>
    intro r lasttag rounds _ _ _ _ hstuck
    exact absurd (by simp) hstuck
  | cons f fs ih =>
    intro r lasttag rounds h hfuel hrounds hvalid hstuck htags hsorted
    rw [List.length_cons] at hrounds
    obtain ⟨rounds, rfl⟩ : ∃ n, rounds = n + 1 := ⟨rounds - 1, by omega⟩
    obtain ⟨hless, hsorted⟩ := List.pairwise_cons.mp hsorted
    have hhead := headLen_pos f.tag
    have hlength : f.bytes.length = headLen f.tag + f.payload.length := by
      rw [Field.bytes, List.length_append, length_writeToHead]
    rw [List.flatMap_cons, List.length_append, hlength] at hfuel
    obtain ⟨left, hleft, hiff⟩ := leavesFields guard less fuel f
      (hvalid f List.mem_cons_self) (by omega)
    obtain ⟨front, hfront, hreads⟩ := hleft.skips
    have htag := htags f List.mem_cons_self
    rw [List.flatMap_cons, List.append_assoc] at h
    cases left with
    | nil =>
      rw [List.flatMap_nil, List.append_nil] at hfront
      subst hfront
      have hnext := h.advance
      rw [Field.bytes, List.append_assoc] at h
      have hstuck' : ¬∀ g ∈ fs, g.Passable := by
        intro hall
        exact hstuck (List.forall_mem_cons.mpr ⟨hiff.mp rfl, hall⟩)
      obtain ⟨n, hn, hrest⟩ := ih hnext (by omega) (Nat.lt_of_succ_lt_succ hrounds)
        (fun g hg => hvalid g (List.mem_cons_of_mem _ hg)) hstuck' hless hsorted
      refine ⟨f.bytes.length + n, ?_, ?_⟩
      · rw [List.flatMap_cons, List.length_append]
        omega
      · rw [readUnknownLoop_skip h htag hreads, ← hlength]
        rw [BufferReader.cur_advance] at hrest
        rw [hrest, BufferReader.advance_advance, Nat.add_assoc]
    | cons g left =>
      -- The tag of what is left is at most 1, and that of the field is greater than the last one.
      obtain ⟨rounds, rfl⟩ : ∃ n, rounds = n + 1 := ⟨rounds - 1, by omega⟩
      have hfrontLength := congrArg List.length hfront
      have hgpos : 0 < g.bytes.length := List.length_pos_iff.mpr
        (encode_ne_nil g.type g.value g.tag)
      rw [List.length_append, List.flatMap_cons, List.length_append] at hfrontLength
      rw [Field.bytes, hfront, List.append_assoc, List.append_assoc] at h
      have hthere := h.advance.advance
      rw [length_writeToHead, BufferReader.advance_advance, List.flatMap_cons, Field.bytes,
        List.append_assoc, List.append_assoc] at hthere
      have hsmall : g.tag ≤ f.tag := by
        have hg : g.tag.toNat ≤ 1 := hleft.tags g List.mem_cons_self
        have hf : lasttag.toNat < f.tag.toNat := htag
        show g.tag.toNat ≤ f.tag.toNat
        omega
      refine ⟨headLen f.tag + front.length, ?_, ?_⟩
      · rw [List.flatMap_cons, List.length_append]
        omega
      · rw [readUnknownLoop_skip h htag hreads, readUnknownLoop_stop hthere hsmall]

end ReadUnknown

/-! ### The relay -/

section Relay

variable {types : Codegen} {fuel : ℕ} {rest : Bytes} {ws rs : Fields} {vs : ws.denote} {t : UInt8}

/-- What a reader that knows all fields up to some tag has in front of it: these fields, and the
others behind them. -/
structure Ahead (types : Codegen) (fields known back : List Field) (rest : Bytes) (rs : Fields)
    (r : BufferReader) : Prop where
  /-- The fields are at the cursor. -/
  bytes : At r (known.flatMap Field.bytes ++ (back.flatMap Field.bytes ++ rest))
  /-- The buffer is in memory. -/
  memory : r.bufLen ≤ r.buf.length
  /-- The tags have been written in ascending order. -/
  written : (known ++ back).Pairwise (fun f g => f.tag < g.tag)
  /-- The tags are read in ascending order. -/
  reading : rs.tags.Pairwise (· < ·)
  /-- The known fields are read. -/
  asked : ∀ f ∈ known, f.tag ∈ rs.tags
  /-- The other fields are behind all that are read. -/
  behind : ∀ f ∈ back, ∀ tag ∈ rs.tags, tag < f.tag
  /-- The types match wherever the reader knows a tag. -/
  matching : ∀ f ∈ known, ∀ u, (f.tag, u) ∈ rs.types → f.type = u
  /-- The values respect the limits. -/
  valid : ∀ f ∈ known, f.type.Valid types.less f.value
  /-- The known fields are among those that were written. -/
  sub : ∀ f ∈ known, f ∈ fields
  /-- No field that is still to be read is missing. -/
  all : ∀ f ∈ fields, f.tag ∈ rs.tags → f ∈ known

variable {fields known back : List Field} {r : BufferReader} {tag : UInt8} {isRequire : Bool}
  {u : Ty}

/-- A tag that is greater than the first one of a structure is read later. -/
private theorem mem_tags_of_lt {f : Field} (hf : f.tag ∈ (Fields.cons tag isRequire u rs).tags)
    (hlt : tag < f.tag) : f.tag ∈ rs.tags := by
  rcases List.mem_cons.mp hf with heq | hmem
  · exact absurd heq (UInt8.ne_of_lt hlt).symm
  · exact hmem

/-- A known field is read, and what remains is behind it. -/
theorem Ahead.present {v : u.denote} (h : Ahead types fields (⟨tag, u, v⟩ :: known) back rest
    (.cons tag isRequire u rs) r) :
    Ahead types fields known back rest rs (r.advance (encode u v tag).length) := by
  obtain ⟨hless, hwritten⟩ := List.pairwise_cons.mp h.written
  have hlater : ∀ f ∈ known, tag < f.tag := fun f hf => hless f (List.mem_append_left _ hf)
  have hat := h.bytes
  rw [List.flatMap_cons, List.append_assoc] at hat
  refine ⟨hat.advance, h.memory, hwritten, (List.pairwise_cons.mp h.reading).2, ?_, ?_, ?_, ?_, ?_,
    ?_⟩
  · intro f hf
    exact mem_tags_of_lt (h.asked f (List.mem_cons_of_mem _ hf)) (hlater f hf)
  · intro f hf tag' htag'
    exact h.behind f hf tag' (List.mem_cons_of_mem _ htag')
  · intro f hf u' hu'
    exact h.matching f (List.mem_cons_of_mem _ hf) u' (List.mem_cons_of_mem _ hu')
  · intro f hf
    exact h.valid f (List.mem_cons_of_mem _ hf)
  · intro f hf
    exact h.sub f (List.mem_cons_of_mem _ hf)
  · intro f hf htag
    rcases List.mem_cons.mp (h.all f hf (List.mem_cons_of_mem _ htag)) with rfl | hmem
    · exact absurd ((List.pairwise_cons.mp h.reading).1 tag htag) (UInt8.lt_irrefl tag)
    · exact hmem

/-- A field that is not there changes nothing for those that are read after it. -/
theorem Ahead.missing (h : Ahead types fields known back rest (.cons tag isRequire u rs) r)
    (hlater : ∀ f ∈ known, tag < f.tag) : Ahead types fields known back rest rs r := by
  refine ⟨h.bytes, h.memory, h.written, (List.pairwise_cons.mp h.reading).2, ?_, ?_, ?_, h.valid,
    h.sub, ?_⟩
  · intro f hf
    exact mem_tags_of_lt (h.asked f hf) (hlater f hf)
  · intro f hf tag' htag'
    exact h.behind f hf tag' (List.mem_cons_of_mem _ htag')
  · intro f hf u' hu'
    exact h.matching f hf u' (List.mem_cons_of_mem _ hu')
  · intro f hf htag
    exact h.all f hf (List.mem_cons_of_mem _ htag)

/-- The next field is there, or all known fields have greater tags. -/
theorem Ahead.next (h : Ahead types fields known back rest (.cons tag isRequire u rs) r) :
    (∃ v known', known = ⟨tag, u, v⟩ :: known') ∨ ∀ f ∈ known, tag < f.tag := by
  cases known with
  | nil => exact .inr (by simp)
  | cons f known' =>
    rcases List.mem_cons.mp (h.asked f List.mem_cons_self) with heq | hmem
    · obtain ⟨tag', u', v⟩ := f
      obtain rfl : tag' = tag := heq
      obtain rfl := h.matching _ List.mem_cons_self u List.mem_cons_self
      exact .inl ⟨v, known', rfl⟩
    · have hlt := (List.pairwise_cons.mp h.reading).1 f.tag hmem
      refine .inr fun g hg => ?_
      rcases List.mem_cons.mp hg with rfl | hg
      · exact hlt
      · exact UInt8.lt_trans hlt
          ((List.pairwise_cons.mp h.written).1 g (List.mem_append_left _ hg))

/-- **A reader that knows all fields up to some tag** reads exactly these. -/
theorem Ahead.readFrom (fuel : ℕ) (hends : Ends rest) : (rs : Fields) → (olds : rs.denote) →
    ∀ {known : List Field} {r : BufferReader}, Ahead types fields known back rest rs r →
      Complete fields rs → ∃ s, Holds fields rs olds s ∧
        TarsInputStream.readFrom types false (fuel + 1) rs olds r =
          .ok s (r.advance (known.flatMap Field.bytes).length)
  | .nil, _, known, r, h, _ => by
    obtain rfl : known = [] := by
      apply List.eq_nil_iff_forall_not_mem.mpr
      intro f hf
      exact absurd (h.asked f hf) List.not_mem_nil
    exact ⟨(), trivial, rfl⟩
  | .cons tag isRequire u rs, (old, olds), known, r, h, hcomplete => by
    rcases h.next with ⟨v, known', rfl⟩ | hlater
    · obtain ⟨s, hholds, hread⟩ := h.present.readFrom fuel hends rs olds hcomplete.2
      have hmem := h.sub _ List.mem_cons_self
      have hat := h.bytes
      rw [List.flatMap_cons, List.append_assoc] at hat
      have hone : read types false (fuel + 1) u old tag isRequire r =
          .ok v (r.advance (encode u v tag).length) :=
        reads_read u v (h.valid _ List.mem_cons_self) old tag isRequire r _ hat
      refine ⟨(v, s), ⟨.inl hmem, hholds⟩, ?_⟩
      rw [TarsInputStream.readFrom, bind_of_ok hone, bind_of_ok hread, BufferReader.advance_advance,
        List.flatMap_cons, List.length_append]
      rfl
    · have habsent : Absent fields tag := by
        intro f hf htag
        have hlt := hlater f (h.all f hf (by rw [htag]; exact List.mem_cons_self))
        exact UInt8.ne_of_lt hlt htag.symm
      have hoptional : isRequire = false := by
        by_contra hrequire
        exact hcomplete.1 (by simpa using hrequire) habsent
      obtain ⟨s, hholds, hread⟩ := (h.missing hlater).readFrom fuel hends rs olds hcomplete.2
      have hat := h.bytes
      rw [← List.append_assoc, ← List.flatMap_append] at hat
      have hloop : skipToTagLoop (skipField false (fuel + 1)) tag (fuel + 1) r = .ok none r := by
        refine skipToTagLoop_missing (known ++ back) hat h.memory hends ?_
        intro f hf
        rcases List.mem_append.mp hf with hf | hf
        · exact hlater f hf
        · exact h.behind f hf tag List.mem_cons_self
      have hone : read types false (fuel + 1) u old tag isRequire r = .ok old r := by
        rw [read_absent u old (by rw [tarsSkipToTag, attempt_of_ok hloop]), hoptional]
        rfl
      refine ⟨(old, s), ⟨.inr ⟨habsent, rfl⟩, hholds⟩, ?_⟩
      rw [TarsInputStream.readFrom, bind_of_ok hone, bind_of_ok hread]
      rfl

/-! ### The property -/

/-- The fields with greater tags, which a reader that stops at a tag does not know. -/
def unknownFields (t : UInt8) (fields : List Field) : List Field :=
  fields.filter fun f => decide (t < f.tag)

/-- `write` of several fields, each with its own tag, one after the other. -/
def writeFields (fields : List Field) : Except TarsException Bytes :=
  writeEach (fun f => write f.type f.value f.tag) fields

/-- A reader knows the tags and the types of these fields, and reads in ascending order. -/
structure Knows (rs : Fields) (fields : List Field) : Prop where
  /-- The tags of the fields are read. -/
  tags : ∀ f ∈ fields, f.tag ∈ rs.tags
  /-- The types match wherever the reader knows a tag. -/
  types : ∀ f ∈ fields, ∀ u, (f.tag, u) ∈ rs.types → f.type = u
  /-- The tags are read in ascending order. -/
  reading : rs.tags.Pairwise (· < ·)

/-- What a relay sends of the fields that it has after reading: all that it has been sent, and of
the optional ones that were missing any whose values can be written. -/
structure Forwarded (types : Codegen) (fields kept sent : List Field) : Prop where
  /-- They are sent in order. -/
  sub : sent.Sublist kept
  /-- None that was there is left out. -/
  all : ∀ f ∈ kept, f ∈ fields → f ∈ sent
  /-- The fields that are sent can be written. -/
  valid : ∀ f ∈ sent, f.type.Valid types.less f.value

/-- **Unknown fields survive a relay**: a relay reads the fields `rs` of what has been written, and
then takes what is behind the tag `t` unread. It gets exactly the bytes of the fields with greater
tags, with the cursor at the end of the structure or of the buffer. Whatever it sends of the fields
that it has read, in front of these bytes, a reader that knows all tags reads every value. -/
def Relayed (types : Codegen) (ws : Fields) (vs : ws.denote) (rs : Fields) (t : UInt8) : Prop :=
  ∀ rest, Ends rest → ∃ enough, ∀ fuel ≥ enough, ∀ olds r, r.bufLen ≤ r.buf.length →
    At r (encodeFields ws vs ++ rest) → ∃ s r', readFrom types false fuel rs olds r = .ok s r' ∧
      Holds (ws.toList vs) rs olds s ∧
      ∃ unknown, readUnknown false fuel t r' =
          .ok unknown (r.advance (encodeFields ws vs).length) ∧
        unknown = (unknownFields t (ws.toList vs)).flatMap Field.bytes ∧
        ∀ sent, Forwarded types (ws.toList vs) (rs.toList s) sent →
          (∀ f ∈ ws.toList vs, f ∈ sent ++ unknownFields t (ws.toList vs)) ∧
          ∃ body, writeFields sent = .ok body ∧ ∀ rest', Ends rest' → ∃ enough', ∀ fuel' ≥ enough',
            ∀ full olds' r'', Knows full (sent ++ unknownFields t (ws.toList vs)) →
              r''.bufLen ≤ r''.buf.length → At r'' (body ++ writeUnknown unknown ++ rest') →
              Correct types fuel' (sent ++ unknownFields t (ws.toList vs)) full olds' r''

/-- What has been written is well formed, and the relay knows exactly the fields up to some tag,
and perhaps optional ones that are not there. -/
structure Relays (types : Codegen) (ws : Fields) (vs : ws.denote) (rs : Fields) (t : UInt8) :
    Prop where
  /-- The types and limits are respected. -/
  wellFormed : WellFormed types ws vs rs
  /-- The fields up to the tag are known. -/
  known : ∀ f ∈ ws.toList vs, f.tag ≤ t → f.tag ∈ rs.tags
  /-- No field with a greater tag is. -/
  upTo : ∀ tag ∈ rs.tags, tag ≤ t
  /-- What is not there is optional. -/
  complete : Complete (ws.toList vs) rs

/-- The bytes that the cursor has passed can be copied from the buffer, as the relay does. -/
theorem At.substring {bs : Bytes} (h : At r (bs ++ rest)) :
    TarsInputStream.substring r.cur (r.cur + bs.length) (r.advance bs.length) =
      .ok bs (r.advance bs.length) := by
  have hcur := h.cur_add
  rw [List.length_append] at hcur
  have hbytes : (r.buf.drop r.cur).take bs.length = bs := by
    have htake := congrArg (List.take bs.length) h.bytes
    rw [List.take_left, List.drop_take, List.take_take] at htake
    rwa [Nat.min_eq_left (by omega)] at htake
  have hinside : r.cur ≤ r.cur + bs.length ∧ r.cur + bs.length ≤ r.buf.length := by omega
  rw [TarsInputStream.substring, BufferReader.advance, if_pos hinside, Nat.add_sub_cancel_left,
    hbytes]

/-- Sorted fields are those up to a tag and those behind it. -/
theorem known_append_unknown (t : UInt8) (fs : List Field)
    (hfs : fs.Pairwise (fun f g => f.tag < g.tag)) :
    fs.filter (fun f => decide (f.tag ≤ t)) ++ unknownFields t fs = fs := by
  induction fs with
  | nil => rfl
  | cons f fs ih =>
    obtain ⟨hless, hfs⟩ := List.pairwise_cons.mp hfs
    rw [unknownFields] at ih ⊢
    by_cases hf : f.tag ≤ t
    · have hnot : ¬t < f.tag := UInt8.not_lt.mpr hf
      rw [List.filter_cons_of_pos (by simpa using hf),
        List.filter_cons_of_neg (by simpa using hnot), List.cons_append, ih hfs]
    · have hlt : t < f.tag := UInt8.not_le.mp hf
      have hnone : (f :: fs).filter (fun f => decide (f.tag ≤ t)) = [] := by
        rw [List.filter_eq_nil_iff]
        intro g hg
        rcases List.mem_cons.mp hg with rfl | hg
        · simpa using hf
        · have hg' := UInt8.not_le.mpr (UInt8.lt_trans hlt (hless g hg))
          simpa using hg'
      have hall : (f :: fs).filter (fun f => decide (t < f.tag)) = f :: fs := by
        rw [List.filter_eq_self]
        intro g hg
        rcases List.mem_cons.mp hg with rfl | hg
        · simpa using hlt
        · simpa using UInt8.lt_trans hlt (hless g hg)
      rw [hnone, hall, List.nil_append]

/-- Fields that are in the order of their tags have different ones, so a tag determines the field.
-/
private theorem eq_of_tag_eq {fs : List Field} (hfs : fs.Pairwise (fun f g => f.tag < g.tag))
    {f g : Field} (hf : f ∈ fs) (hg : g ∈ fs) (htag : f.tag = g.tag) : f = g := by
  have hnodup : (fs.map Field.tag).Nodup := by
    rw [List.nodup_iff_pairwise_ne, List.pairwise_map]
    exact hfs.imp UInt8.ne_of_lt
  exact List.inj_on_of_nodup_map hnodup hf hg htag

/-- A field that was there and is read is kept. -/
theorem Holds.mem_toList (hfs : fields.Pairwise (fun f g => f.tag < g.tag)) {f : Field}
    (hf : f ∈ fields) : (rs : Fields) → (olds s : rs.denote) → Holds fields rs olds s →
      f.tag ∈ rs.tags → f ∈ rs.toList s
  | .nil, _, _, _, htag => absurd htag List.not_mem_nil
  | .cons tag _ u rs, (_, olds), (v, vs), ⟨hv, hvs⟩, htag => by
    rcases List.mem_cons.mp htag with heq | htag
    · rcases hv with hmem | ⟨habsent, -⟩
      · rw [eq_of_tag_eq hfs hf hmem heq]
        exact List.mem_cons_self
      · exact absurd heq (habsent f hf)
    · exact List.mem_cons_of_mem _ (mem_toList hfs hf rs olds vs hvs htag)

/-- The tag of a field of a structure is among the tags that its type declares. -/
theorem Fields.mem_tags {fs : Fields} {s : fs.denote} {f : Field} (hf : f ∈ fs.toList s) :
    f.tag ∈ fs.tags :=
  List.mem_map_of_mem (Fields.mem_types hf)

/-- The unknown fields are those that were written and lie behind the tag. -/
theorem mem_unknownFields {f : Field} {fs : List Field} :
    f ∈ unknownFields t fs ↔ f ∈ fs ∧ t < f.tag := by
  rw [unknownFields, List.mem_filter, decide_eq_true_iff]

namespace Relays

/-- What the relay has in front of it: the known fields that it passes, and the unknown ones that it
keeps. -/
theorem ahead (h : Relays types ws vs rs t) (hmemory : r.bufLen ≤ r.buf.length)
    (hat : At r (encodeFields ws vs ++ rest)) :
    Ahead types (ws.toList vs) ((ws.toList vs).filter fun f => decide (f.tag ≤ t))
      (unknownFields t (ws.toList vs)) rest rs r := by
  have hwritten := Fields.pairwise_toList vs h.wellFormed.written
  have hsplit := known_append_unknown t (ws.toList vs) hwritten
  have hmem {f : Field} (hf : f ∈ (ws.toList vs).filter fun f => decide (f.tag ≤ t)) :
      f ∈ ws.toList vs ∧ f.tag ≤ t := by
    rwa [List.mem_filter, decide_eq_true_iff] at hf
  refine ⟨?_, hmemory, by rwa [hsplit], h.wellFormed.reading, ?_, ?_, ?_, ?_, ?_, ?_⟩
  · rwa [← List.append_assoc, ← List.flatMap_append, hsplit, ← encodeFields_eq]
  · exact fun f hf => h.known f (hmem hf).1 (hmem hf).2
  · intro f hf tag htag
    exact UInt8.lt_of_le_of_lt (h.upTo tag htag) (mem_unknownFields.mp hf).2
  · exact fun f hf u hu => h.wellFormed.matching f.tag f.type u (Fields.mem_types (hmem hf).1) hu
  · exact fun f hf => Fields.Valid.of_mem ws vs h.wellFormed.valid f (hmem hf).1
  · exact fun f hf => (hmem hf).1
  · intro f hf htag
    rw [List.mem_filter, decide_eq_true_iff]
    exact ⟨hf, h.upTo _ htag⟩

/-- What holds of the fields that the relay does not know. -/
theorem unknown (h : Relays types ws vs rs t) :
    (∀ f ∈ unknownFields t (ws.toList vs), f.type.Valid types.less f.value) ∧
    (∀ f ∈ unknownFields t (ws.toList vs), t < f.tag) ∧
    (unknownFields t (ws.toList vs)).Pairwise (fun f g => f.tag < g.tag) ∧
    ((unknownFields t (ws.toList vs)).flatMap Field.bytes).length ≤ (encodeFields ws vs).length ∧
    (unknownFields t (ws.toList vs)).length ≤ (encodeFields ws vs).length := by
  have hwritten := Fields.pairwise_toList vs h.wellFormed.written
  have hsplit := known_append_unknown t (ws.toList vs) hwritten
  have hbytes : ((unknownFields t (ws.toList vs)).flatMap Field.bytes).length ≤
      (encodeFields ws vs).length := by
    rw [encodeFields_eq]
    nth_rewrite 2 [← hsplit]
    rw [List.flatMap_append, List.length_append]
    exact Nat.le_add_left _ _
  refine ⟨fun f hf => ?_, fun f hf => (mem_unknownFields.mp hf).2, hwritten.filter _, hbytes,
    (length_le_bytes _).trans hbytes⟩
  exact Fields.Valid.of_mem ws vs h.wellFormed.valid f (mem_unknownFields.mp hf).1

/-- What has been written is what the relay knows and what it does not. -/
theorem length_eq (h : Relays types ws vs rs t) : (encodeFields ws vs).length =
    (((ws.toList vs).filter fun f => decide (f.tag ≤ t)).flatMap Field.bytes).length +
      ((unknownFields t (ws.toList vs)).flatMap Field.bytes).length := by
  have hwritten := Fields.pairwise_toList vs h.wellFormed.written
  rw [encodeFields_eq, ← List.length_append, ← List.flatMap_append,
    known_append_unknown t (ws.toList vs) hwritten]

/-- What the relay sends is read with all values. -/
theorem reread (h : Relays types ws vs rs t) {olds s : rs.denote}
    (hholds : Holds (ws.toList vs) rs olds s) {sent : List Field}
    (hforwarded : Forwarded types (ws.toList vs) (rs.toList s) sent) :
    (∀ f ∈ ws.toList vs, f ∈ sent ++ unknownFields t (ws.toList vs)) ∧
    ∃ body, writeFields sent = .ok body ∧ ∀ rest', Ends rest' → ∃ enough', ∀ fuel' ≥ enough',
      ∀ full olds' r'', Knows full (sent ++ unknownFields t (ws.toList vs)) →
        r''.bufLen ≤ r''.buf.length →
        At r'' (body ++ writeUnknown ((unknownFields t (ws.toList vs)).flatMap Field.bytes) ++
          rest') →
        Correct types fuel' (sent ++ unknownFields t (ws.toList vs)) full olds' r'' := by
  have hwritten := Fields.pairwise_toList vs h.wellFormed.written
  obtain ⟨hvalid, hbehind, hsorted, -, -⟩ := h.unknown
  constructor
  · intro f hf
    by_cases htag : f.tag ≤ t
    · have hkept := Holds.mem_toList hwritten hf rs olds s hholds (h.known f hf htag)
      exact List.mem_append_left _ (hforwarded.all f hkept hf)
    · exact List.mem_append_right _ (mem_unknownFields.mpr ⟨hf, UInt8.not_le.mp htag⟩)
  · have hbody : writeFields sent = .ok (sent.flatMap Field.bytes) :=
      writeEach_eq fun f hf => write_eq f.type f.value f.tag (hforwarded.valid f hf)
    refine ⟨sent.flatMap Field.bytes, hbody, fun rest' hends => ?_⟩
    refine ⟨(sent ++ unknownFields t (ws.toList vs)).length + 1, ?_⟩
    intro fuel' hfuel full olds' r'' hknows hmemory hat
    have hremaining : Remaining types fuel' (sent ++ unknownFields t (ws.toList vs)) rest' full
        r'' := by
      refine ⟨?_, hmemory, ?_, hknows.reading, hfuel, hknows.types, ?_, ?_⟩
      · rwa [List.flatMap_append]
      · refine List.pairwise_append.mpr
          ⟨(Fields.pairwise_toList s h.wellFormed.reading).sublist hforwarded.sub, hsorted, ?_⟩
        intro f hf g hg
        exact UInt8.lt_of_le_of_lt (h.upTo f.tag (Fields.mem_tags (hforwarded.sub.subset hf)))
          (hbehind g hg)
      · intro f hf
        exact (List.mem_append.mp hf).elim (hforwarded.valid f) (hvalid f)
      · intro f hf hnot
        exact absurd (hknows.tags f hf) hnot
    exact hremaining.correct hends full olds' (fun f hf => hf) fun f hf _ => hf

/-- **Unknown fields survive** if they can be passed over. -/
theorem relayed (h : Relays types ws vs rs t)
    (hpass : ∀ f ∈ unknownFields t (ws.toList vs), f.Passable) : Relayed types ws vs rs t := by
  intro rest hends
  refine ⟨(encodeFields ws vs).length + 1, ?_⟩
  intro fuel hfuel olds r hmemory hat
  obtain ⟨hvalid, hbehind, hsorted, hbytes, hcount⟩ := h.unknown
  have hahead := h.ahead hmemory hat
  obtain ⟨fuel, rfl⟩ : ∃ n, fuel = n + 1 := ⟨fuel - 1, by omega⟩
  obtain ⟨s, hholds, hread⟩ := hahead.readFrom fuel hends rs olds h.complete
  have hthere := hahead.bytes.advance
  have hrounds : (unknownFields t (ws.toList vs)).length < fuel + 1 := by omega
  have hloop := readUnknownLoop_passable false (fuel + 1) hends _ hthere hmemory (by omega) hrounds
    hvalid hpass hbehind hsorted
  refine ⟨s, _, hread, hholds, _, ?_, rfl, fun sent hforwarded => h.reread hholds hforwarded⟩
  rw [readUnknown, bind_of_ok (ask_apply _ _), bind_of_ok hloop, hthere.substring,
    BufferReader.advance_advance, h.length_eq]

end Relays

/-- Unknown fields that survive can be passed over, or else the relay would not have found what
follows. -/
theorem Relayed.passable (hrelayed : Relayed types ws vs rs t) (h : Relays types ws vs rs t) :
    ∀ f ∈ unknownFields t (ws.toList vs), f.Passable := by
  by_contra hstuck
  obtain ⟨enough, hall⟩ := hrelayed [] (.inl rfl)
  have hat : At (.setBuffer (encodeFields ws vs) (encodeFields ws vs).length)
      (encodeFields ws vs ++ []) := by
    rw [List.append_nil]
    exact At.setBuffer h.wellFormed.fits
  obtain ⟨hvalid, hbehind, hsorted, hbytes, hcount⟩ := h.unknown
  obtain ⟨fuel, henough, hfuel⟩ : ∃ n, n + 1 ≥ enough ∧ (encodeFields ws vs).length < n + 1 :=
    ⟨enough + (encodeFields ws vs).length, by omega, by omega⟩
  obtain ⟨s, r', hread, -, unknown, hunknown, -, -⟩ := hall (fuel + 1) henough rs.zero _ le_rfl hat
  have hahead := h.ahead le_rfl hat
  obtain ⟨s', -, hread'⟩ := hahead.readFrom fuel (.inl rfl) rs rs.zero h.complete
  obtain rfl := (Outcome.ok.inj (hread.symm.trans hread')).2
  have hrounds : (unknownFields t (ws.toList vs)).length < fuel + 1 := by omega
  obtain ⟨n, hn, hloop⟩ := readUnknownLoop_stuck false (fuel + 1) _ hahead.bytes.advance (by omega)
    hrounds hvalid hstuck hbehind hsorted
  rw [readUnknown, bind_of_ok (ask_apply _ _), bind_of_ok hloop, TarsInputStream.substring]
    at hunknown
  split at hunknown
  · have hcur := congrArg BufferReader.cur (Outcome.ok.inj hunknown).2
    have hlength := h.length_eq
    simp only [BufferReader.cur_advance] at hcur
    omega
  · cases hunknown

/-- **Unknown fields survive a relay exactly if** none of them contains, outside of nested
structures, a map with `2 ^ 30` entries or more. -/
theorem relayed_iff (h : Relays types ws vs rs t) :
    Relayed types ws vs rs t ↔
      ∀ f ∈ ws.toList vs, t < f.tag → f.type.Passable f.value := by
  constructor
  · intro hrelayed f hf htag
    exact hrelayed.passable h f (mem_unknownFields.mpr ⟨hf, htag⟩)
  · intro hpass
    apply h.relayed
    intro f hf
    obtain ⟨hmem, htag⟩ := mem_unknownFields.mp hf
    exact hpass f hmem htag

end Relay

/-- A writer with three fields, of which the relay of the sample knows the first. -/
private abbrev threeFields : Fields :=
  .cons 1 true (.int .short) (.cons 3 true (.map (.int .int32) .bool) (.cons 20 true .string .nil))

/-- A relay that knows one of the three fields and asks for one that is not there. -/
theorem relayed_sample :
    Relayed plainTypes threeFields (-300, [(5, true)], [97, 98], ())
      (.cons 1 true (.int .short) (.cons 2 false .bool .nil)) 2 := by
  refine (relayed_iff ⟨⟨?_, by decide, by decide, by decide, ?_⟩, ?_, ?_, ?_⟩).mpr ?_
  · have hmap : (Ty.map (.int .int32) .bool).Valid plainTypes.less [(5, true)] := by
      simp [Ty.Valid]
    have hstring : Ty.string.Valid plainTypes.less [97, 98] := by
      simp [Ty.Valid, maxStringLength]
    exact ⟨trivial, hmap, hstring, trivial⟩
  · intro tag t u ht hu
    simp only [Fields.types, List.mem_cons, Prod.mk.injEq, List.not_mem_nil, or_false] at ht hu
    rcases ht with ⟨rfl, rfl⟩ | ⟨rfl, rfl⟩ | ⟨rfl, rfl⟩ <;>
      rcases hu with ⟨htag, rfl⟩ | ⟨htag, rfl⟩ <;> first | rfl | exact absurd htag (by decide)
  · intro f hf htag
    simp only [Fields.toList, List.mem_cons, List.not_mem_nil, or_false] at hf
    rcases hf with rfl | rfl | rfl
    · exact List.mem_cons_self
    · exact absurd htag (by decide : ¬(3 : UInt8) ≤ 2)
    · exact absurd htag (by decide : ¬(20 : UInt8) ≤ 2)
  · exact List.forall_mem_cons.mpr ⟨by decide, List.forall_mem_singleton.mpr (by decide)⟩
  · refine ⟨fun _ habsent => ?_, fun hfalse => absurd hfalse (by decide), trivial⟩
    exact habsent _ List.mem_cons_self rfl
  · intro f hf _
    simp only [Fields.toList, List.mem_cons, List.not_mem_nil, or_false] at hf
    rcases hf with rfl | rfl | rfl
    · trivial
    · exact ⟨by decide, fun e _ => ⟨trivial, trivial⟩⟩
    · trivial

/-! ### A large map is cut off -/

/-- The field of a writer that writes nothing but a map. -/
private abbrev onlyMap : Fields := .cons 1 true (.map (.int .int32) .bool) .nil

/-- A relay that knows nothing may stand behind the writer. -/
theorem relays_onlyMap {n : ℕ} (hn : n < 2 ^ 31) :
    Relays plainTypes onlyMap (trueMap n, ()) .nil 0 := by
  refine ⟨⟨⟨valid_trueMap hn, trivial⟩, ?_, by decide, by decide, ?_⟩, ?_,
    fun _ hmem => absurd hmem List.not_mem_nil, trivial⟩
  · have hentries := length_entries_trueMap_le n
    have hsize := length_encodeInteger_le n 0
    have hfields : encodeFields onlyMap (trueMap n, ()) = writeToHead .map 1 ++
        (encodeInteger (trueMap n).length 0 ++ (trueMap n).flatMap fun d =>
          encode (.int .int32) d.1 0 ++ encode .bool d.2 1) ++ [] := rfl
    rw [hfields, length_trueMap]
    simp only [List.length_append, length_writeToHead, List.length_nil]
    have hhead : headLen 1 = 1 := rfl
    omega
  · intro tag t u _ hu
    cases hu
  · intro f hf htag
    rw [List.mem_singleton.mp hf] at htag
    exact absurd htag (by decide : ¬(1 : UInt8) ≤ 0)

/-- The first key of a map that is too large is taken for a field with the tag `0`. -/
theorem readUnknown_large {n fuel : ℕ} (hlarge : 2 ^ 30 ≤ n) (hn : n < 2 ^ 31) (hfuel : 1 < fuel)
    {r : BufferReader} {rest : Bytes}
    (hat : At r (encodeFields onlyMap (trueMap n, ()) ++ rest)) :
    ∃ r', readUnknown false fuel 0 r = .ok (writeToHead .map 1 ++ encodeInteger n 0) r' := by
  obtain ⟨k, rfl⟩ : ∃ k, fuel = k + 2 := ⟨fuel - 2, by omega⟩
  obtain ⟨entries, hentries⟩ : ∃ entries, trueMap n = (0, true) :: entries := by
    obtain ⟨m, rfl⟩ : ∃ m, n = m + 1 := ⟨n - 1, by omega⟩
    exact ⟨_, by rw [trueMap, List.range_succ_eq_map]; rfl⟩
  obtain ⟨more, hmore⟩ : ∃ more, encodeFields onlyMap (trueMap n, ()) ++ rest =
      writeToHead .map 1 ++ (encodeInteger n 0 ++ (writeToHead .zeroTag 0 ++ more)) := by
    have hpayload : payload (.map (.int .int32) .bool) (trueMap n) = encodeInteger n 0 ++
        (encode (.int .int32) 0 0 ++ (encode .bool true 1 ++
          entries.flatMap fun d => encode (.int .int32) d.1 0 ++ encode .bool d.2 1)) := by
      rw [payload, length_trueMap, hentries, List.flatMap_cons, List.append_assoc]
      rfl
    have hkey : encode (.int .int32) 0 0 = writeToHead .zeroTag 0 ++ [] := rfl
    rw [encodeFields, wireType, hpayload, hkey]
    simp only [List.append_assoc, List.nil_append]
    exact ⟨_, rfl⟩
  rw [hmore] at hat
  have hkey := hat.advance.advance
  rw [length_writeToHead, BufferReader.advance_advance] at hkey
  have hskip : readUnknownLoop false (k + 2) 0 r.cur (k + 2) r =
      readUnknownLoop false (k + 2) 1 (r.cur + (headLen 1 + (encodeInteger n 0).length)) (k + 1)
        (r.advance (headLen 1 + (encodeInteger n 0).length)) :=
    readUnknownLoop_skip hat (by decide) (reads_skipField_large hlarge hn)
  rw [readUnknownLoop_stop hkey UInt8.zero_le] at hskip
  rw [← List.append_assoc] at hat
  have hsub := hat.substring
  rw [List.length_append, length_writeToHead] at hsub
  exact ⟨_, by rw [readUnknown, bind_of_ok (ask_apply _ _), bind_of_ok hskip, hsub]⟩

/-- A map that is too large is relayed without its entries, because the loop takes its end to be
where the cursor is. -/
theorem large_map_is_cut {n : ℕ} (hlarge : 2 ^ 30 ≤ n) (hn : n < 2 ^ 31) :
    Relays plainTypes onlyMap (trueMap n, ()) .nil 0 ∧
    ¬Relayed plainTypes onlyMap (trueMap n, ()) .nil 0 ∧
    ∀ fuel > 1, ∃ r', readUnknown false fuel 0 (.setBuffer (encodeFields onlyMap (trueMap n, ()))
      (encodeFields onlyMap (trueMap n, ())).length) =
        .ok (writeToHead .map 1 ++ encodeInteger n 0) r' := by
  have hrelays := relays_onlyMap hn
  refine ⟨hrelays, ?_, fun fuel hfuel => ?_⟩
  · intro hrelayed
    have hpass := hrelayed.passable hrelays ⟨1, .map (.int .int32) .bool, trueMap n⟩
      (mem_unknownFields.mpr ⟨List.mem_cons_self, (by decide : (0 : UInt8) < 1)⟩)
    have hlength : (trueMap n).length < 2 ^ 30 := hpass.1
    rw [length_trueMap] at hlength
    omega
  · have hat : At (.setBuffer (encodeFields onlyMap (trueMap n, ()))
        (encodeFields onlyMap (trueMap n, ())).length)
        (encodeFields onlyMap (trueMap n, ()) ++ []) := by
      rw [List.append_nil]
      exact At.setBuffer hrelays.wellFormed.fits
    exact readUnknown_large hlarge hn hfuel hat

/-- A map with `2 ^ 30` entries behind the known fields: nothing of it but its size is passed
on. -/
theorem relayed_fails :
    Relays plainTypes onlyMap (trueMap (2 ^ 30), ()) .nil 0 ∧
    ¬Relayed plainTypes onlyMap (trueMap (2 ^ 30), ()) .nil 0 ∧
    ∀ fuel > 1, ∃ r', readUnknown false fuel 0
      (.setBuffer (encodeFields onlyMap (trueMap (2 ^ 30), ()))
        (encodeFields onlyMap (trueMap (2 ^ 30), ())).length) =
          .ok (writeToHead .map 1 ++ encodeInteger ((2 ^ 30 : ℕ) : ℤ) 0) r' :=
  large_map_is_cut le_rfl (Nat.pow_lt_pow_right (by decide) (by decide))

end Tars
