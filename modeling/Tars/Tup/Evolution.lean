import Tars.Tup.Skipping

/-!
# Readers and writers with different fields

A structure is written with some fields and read with others; the fields that both have are of the
same type. Every `read` passes over the fields with smaller tags that are still in front of it, so
the reader finds what the writer wrote as long as `skipField` is exact on what it passes over.
-/

namespace Tars

open LittleEndian Decoding TarsOutputStream TarsInputStream

/-! ### Finding a tag -/

section SkipToTag

variable {skip : HeadType → Decode Unit} {rounds : ℕ} {tag : UInt8} {r : BufferReader}
  {rest : Bytes}

/-- What stands behind the fields of a structure: the end of the buffer or that of the
structure. -/
def Ends (rest : Bytes) : Prop := rest = [] ∨ ∃ more, rest = writeToHead .structEnd 0 ++ more

/-- The loop passes over a field with a smaller tag, as far as `skipField` takes it. -/
theorem skipToTagLoop_skip {type : HeadType} {tag' : UInt8} {bs : Bytes}
    (h : At r (writeToHead type tag' ++ (bs ++ rest))) (htype : type ≠ .structEnd)
    (htag : tag' < tag) (hskip : Reads (skip type) bs ()) :
    skipToTagLoop skip tag (rounds + 1) r =
      skipToTagLoop skip tag rounds (r.advance (headLen tag' + bs.length)) := by
  have hne : writeToHead type tag' ++ (bs ++ rest) ≠ [] :=
    List.append_ne_nil_of_left_ne_nil (writeToHead_ne_nil type tag') _
  have hother : ¬(type = .structEnd ∨ tag < tag') := by
    rintro (htype' | hlt)
    · exact htype htype'
    · exact UInt8.lt_asymm htag hlt
  have hbody := h.advance
  rw [length_writeToHead] at hbody
  rw [TarsInputStream.skipToTagLoop, bind_of_ok (ask_apply _ _), h.hasEnd_eq hne,
    if_neg (by decide), bind_of_ok h.peekFromHead, if_neg hother,
    if_neg (UInt8.ne_of_lt htag).symm, bind_of_ok (h.readHeadSkip (length_writeToHead _ _)),
    bind_of_ok (hskip _ _ hbody), BufferReader.advance_advance]

/-- The loop passes over the fields with smaller tags. -/
theorem skipToTagLoop_front (front : List Field) (h : At r (front.flatMap Field.bytes ++ rest))
    (htags : ∀ f ∈ front, f.tag < tag) (hskip : ∀ f ∈ front, Reads (skip f.wireType) f.payload ()) :
    skipToTagLoop skip tag (rounds + front.length) r =
      skipToTagLoop skip tag rounds (r.advance (front.flatMap Field.bytes).length) := by
  induction front generalizing r with
  | nil => rfl
  | cons f front ih =>
    rw [List.flatMap_cons, Field.bytes, List.append_assoc, List.append_assoc] at h
    have hstep : skipToTagLoop skip tag (rounds + front.length + 1) r =
        skipToTagLoop skip tag (rounds + front.length)
          (r.advance (headLen f.tag + f.payload.length)) :=
      skipToTagLoop_skip h (wireType_ne f.type f.value) (htags f List.mem_cons_self)
        (hskip f List.mem_cons_self)
    have hfront := h.advance.advance
    rw [length_writeToHead, BufferReader.advance_advance] at hfront
    have hrest := ih hfront (fun g hg => htags g (List.mem_cons_of_mem _ hg))
      fun g hg => hskip g (List.mem_cons_of_mem _ hg)
    rw [List.length_cons, ← Nat.add_assoc, hstep, hrest, BufferReader.advance_advance,
      List.flatMap_cons, Field.bytes, List.length_append, List.length_append, length_writeToHead]

/-- The loop stops at the end of a structure and at a greater tag. -/
theorem skipToTagLoop_stop {type : HeadType} {tag' : UInt8}
    (h : At r (writeToHead type tag' ++ rest)) (hstop : type = .structEnd ∨ tag < tag') :
    skipToTagLoop skip tag (rounds + 1) r = .ok none r := by
  have hne : writeToHead type tag' ++ rest ≠ [] :=
    List.append_ne_nil_of_left_ne_nil (writeToHead_ne_nil type tag') rest
  rw [TarsInputStream.skipToTagLoop, bind_of_ok (ask_apply _ _), h.hasEnd_eq hne,
    if_neg (by decide), bind_of_ok h.peekFromHead, if_pos hstop]
  rfl

/-- The loop stops at the end of the buffer. -/
theorem skipToTagLoop_end (h : At r []) (hmemory : r.bufLen ≤ r.buf.length) :
    skipToTagLoop skip tag (rounds + 1) r = .ok none r := by
  have hcur := h.cur_add
  have hend : r.hasEnd = true := by
    rw [List.length_nil] at hcur
    rw [BufferReader.hasEnd, decide_eq_true_iff]
    omega
  rw [TarsInputStream.skipToTagLoop, bind_of_ok (ask_apply _ _), hend, if_pos rfl]
  rfl

/-- The loop stops at a greater tag and at the end of the structure or the buffer. -/
theorem skipToTagLoop_missing (back : List Field) (h : At r (back.flatMap Field.bytes ++ rest))
    (hmemory : r.bufLen ≤ r.buf.length) (hends : Ends rest) (htags : ∀ f ∈ back, tag < f.tag) :
    skipToTagLoop skip tag (rounds + 1) r = .ok none r := by
  cases back with
  | cons f back =>
    rw [List.flatMap_cons, Field.bytes, List.append_assoc, List.append_assoc] at h
    exact skipToTagLoop_stop h (.inr (htags f List.mem_cons_self))
  | nil =>
    rw [List.flatMap_nil, List.nil_append] at h
    rcases hends with rfl | ⟨more, rfl⟩
    · exact skipToTagLoop_end h hmemory
    · exact skipToTagLoop_stop h (.inl rfl)

end SkipToTag

/-! ### Reading depends on the tag that is found -/

section Found

variable {types : Codegen} {guard : Bool} {fuel : ℕ} {r r' : BufferReader} {tag : UInt8}
  {isRequire : Bool}

/-- Two states in which a decoder does the same. -/
private theorem bind_congr_state {α β : Type} {m : Decode α} {f : α → Decode β}
    (h : m r = m r') : (m >>= f) r = (m >>= f) r' := by
  show Decoder.bind m f r = Decoder.bind m f r'
  rw [Decoder.bind, Decoder.bind, h]

/-- A `read` starts by looking for its tag, so states from which that search ends in the same way
are read alike. -/
theorem read_congr (t : Ty) (old : t.denote)
    (h : tarsSkipToTag (skipField guard fuel) fuel tag r =
      tarsSkipToTag (skipField guard fuel) fuel tag r') :
    read types guard fuel t old tag isRequire r = read types guard fuel t old tag isRequire r' := by
  have hfield {α : Type} (body : HeadType → Decode α) (old : α) :
      readField (skipField guard fuel) fuel body old tag isRequire r =
        readField (skipField guard fuel) fuel body old tag isRequire r' := bind_congr_state h
  cases t with
  | bool => exact bind_congr_state (hfield _ _)
  | int k =>
    cases k with
    | uint8 => exact bind_congr_state (hfield _ _)
    | uint16 => exact bind_congr_state (hfield _ _)
    | uint32 => exact bind_congr_state (hfield _ _)
    | _ => exact hfield _ _
  | _ => exact hfield _ _

/-- What `read` does when its tag is not found. -/
def absent {α : Type} (isRequire : Bool) (old : α) (r : BufferReader) :
    Outcome BufferReader TarsException α :=
  if isRequire then .thrown .requireNotExist r else .ok old r

/-- A conversion that gives back the old value is no change where the field is absent. -/
private theorem absent_map {α β : Type} {m : Decode α} {g : α → β} {c : α} {old : β}
    (h : m r = absent isRequire c r') (hg : g c = old) :
    (m >>= fun c => pure (g c)) r = absent isRequire old r' := by
  subst hg
  cases isRequire with
  | true => exact bind_of_thrown h
  | false => exact bind_of_ok h

/-- A `read` whose tag is not found throws or leaves its target unchanged. -/
theorem read_absent (t : Ty) (old : t.denote)
    (h : tarsSkipToTag (skipField guard fuel) fuel tag r = .ok none r') :
    read types guard fuel t old tag isRequire r = absent isRequire old r' := by
  have hfield {α : Type} (body : HeadType → Decode α) (old : α) :
      readField (skipField guard fuel) fuel body old tag isRequire r =
        absent isRequire old r' := by
    rw [readField, bind_of_ok h]
    cases isRequire <;> rfl
  cases t with
  | bool => exact absent_map (hfield _ _) (by cases old <;> rfl)
  | int k =>
    cases k with
    | uint8 => exact absent_map (hfield _ _) (BitVec.setWidth_setWidth_of_le _ (by decide))
    | uint16 => exact absent_map (hfield _ _) (BitVec.setWidth_setWidth_of_le _ (by decide))
    | uint32 => exact absent_map (hfield _ _) (BitVec.setWidth_setWidth_of_le _ (by decide))
    | _ => exact hfield _ _
  | _ => exact hfield _ _

end Found

/-! ### Readers -/

/-- The tags of a structure and their types, which two versions of it must agree on. -/
def Fields.types : Fields → List (UInt8 × Ty)
  | .nil => []
  | .cons tag _ t fs => (tag, t) :: fs.types

/-- The tags of the fields of a structure, in the order in which they are read. -/
def Fields.tags (fs : Fields) : List UInt8 := fs.types.map Prod.fst

/-- No field that was written has this tag, so a reader does not find it. -/
def Absent (fields : List Field) (tag : UInt8) : Prop := ∀ f ∈ fields, f.tag ≠ tag

/-- Whether reading one field after the other goes as it should: a field that has been written is
read back; one that has not is left unchanged if it is optional, and otherwise
`TarsDecodeRequireNotExist` is thrown. After an exception the reader may go on. -/
def Correct (types : Codegen) (fuel : ℕ) (fields : List Field) :
    (rs : Fields) → rs.denote → BufferReader → Prop
  | .nil, _, _ => True
  | .cons tag isRequire t rs, (old, olds), r =>
    match read types false fuel t old tag isRequire r with
    | .ok v r' => (⟨tag, t, v⟩ ∈ fields ∨ Absent fields tag ∧ isRequire = false ∧ v = old) ∧
        Correct types fuel fields rs olds r'
    | .thrown e r' => Absent fields tag ∧ isRequire = true ∧ e = .requireNotExist ∧
        Correct types fuel fields rs olds r'
    | _ => False

/-- Every field that the reader requires has been written. -/
def Complete (fields : List Field) : Fields → Prop
  | .nil => True
  | .cons tag isRequire _ rs => (isRequire = true → ¬Absent fields tag) ∧ Complete fields rs

/-- A structure has what has been written, and otherwise its old values. -/
def Holds (fields : List Field) : (rs : Fields) → rs.denote → rs.denote → Prop
  | .nil, _, _ => True
  | .cons tag _ t rs, (old, olds), (v, vs) =>
    (⟨tag, t, v⟩ ∈ fields ∨ Absent fields tag ∧ v = old) ∧ Holds fields rs olds vs

/-- What a reader that still has to read `rs` has in front of it. -/
structure Remaining (types : Codegen) (fuel : ℕ) (fs : List Field) (rest : Bytes) (rs : Fields)
    (r : BufferReader) : Prop where
  /-- The fields are at the cursor. -/
  bytes : At r (fs.flatMap Field.bytes ++ rest)
  /-- The buffer is in memory. -/
  memory : r.bufLen ≤ r.buf.length
  /-- The tags have been written in ascending order. -/
  written : fs.Pairwise (fun f g => f.tag < g.tag)
  /-- The tags are read in ascending order. -/
  reading : rs.tags.Pairwise (· < ·)
  /-- There is enough fuel to pass over all fields. -/
  enough : fs.length < fuel
  /-- The types match wherever both sides know a tag. -/
  matching : ∀ f ∈ fs, ∀ t, (f.tag, t) ∈ rs.types → f.type = t
  /-- The values respect the limits. -/
  valid : ∀ f ∈ fs, f.type.Valid types.less f.value
  /-- `skipField` is exact on the fields that are not read. -/
  skips : ∀ f ∈ fs, f.tag ∉ rs.tags → Reads (skipField false fuel f.wireType) f.payload ()

/-- The fields in front of a tag, the field with the tag, and the fields behind it. -/
theorem split_at_tag (tag : UInt8) (fs : List Field)
    (hfs : fs.Pairwise (fun f g => f.tag < g.tag)) :
    ∃ front back, (∀ f ∈ front, f.tag < tag) ∧ (∀ f ∈ back, tag < f.tag) ∧
      (fs = front ++ back ∨ ∃ f, f.tag = tag ∧ fs = front ++ f :: back) := by
  induction fs with
  | nil => exact ⟨[], [], by simp, by simp, .inl rfl⟩
  | cons f fs ih =>
    obtain ⟨hf, hfs⟩ := List.pairwise_cons.mp hfs
    rcases Nat.lt_trichotomy f.tag.toNat tag.toNat with hlt | heq | hgt
    · obtain ⟨front, back, hfront, hback, hsplit⟩ := ih hfs
      refine ⟨f :: front, back, ?_, hback, ?_⟩
      · intro g hg
        rcases List.mem_cons.mp hg with rfl | hg
        · exact hlt
        · exact hfront g hg
      · rcases hsplit with rfl | ⟨g, hg, rfl⟩
        · exact .inl rfl
        · exact .inr ⟨g, hg, rfl⟩
    · obtain rfl : f.tag = tag := UInt8.toNat_inj.mp heq
      exact ⟨[], fs, by simp, hf, .inr ⟨f, rfl, rfl⟩⟩
    · refine ⟨[], f :: fs, by simp, ?_, .inl rfl⟩
      intro g hg
      rcases List.mem_cons.mp hg with rfl | hg
      · exact hgt
      · exact UInt8.lt_trans hgt (hf g hg)

namespace Remaining

variable {types : Codegen} {fuel : ℕ} {fs : List Field} {rest : Bytes} {rs : Fields}
  {r : BufferReader} {tag : UInt8} {isRequire : Bool} {t : Ty}

/-- What remains when the next tag of the reader and some fields in front have been dealt with. -/
theorem tail {front : Bytes} {fs' : List Field}
    (h : Remaining types fuel fs rest (.cons tag isRequire t rs) r)
    (hbytes : fs.flatMap Field.bytes = front ++ fs'.flatMap Field.bytes) (hsub : fs'.Sublist fs)
    (htags : ∀ f ∈ fs', tag < f.tag) :
    Remaining types fuel fs' rest rs (r.advance front.length) := by
  have hat := h.bytes
  rw [hbytes, List.append_assoc] at hat
  refine ⟨hat.advance, h.memory, h.written.sublist hsub, (List.pairwise_cons.mp h.reading).2,
    hsub.length_le.trans_lt h.enough, ?_, fun f hf => h.valid f (hsub.subset hf), ?_⟩
  · intro f hf u hu
    exact h.matching f (hsub.subset hf) u (List.mem_cons_of_mem _ hu)
  · intro f hf hnot
    refine h.skips f (hsub.subset hf) ?_
    intro hmem
    rcases List.mem_cons.mp hmem with heq | hmem
    · exact UInt8.ne_of_lt (htags f hf) heq.symm
    · exact hnot hmem

/-- **One `read`** gives the value of the field with its tag, if there is one, and leaves the
fields with greater tags. -/
theorem read_step (h : Remaining types fuel fs rest (.cons tag isRequire t rs) r)
    (hends : Ends rest) (old : t.denote) :
    ∃ front fs', fs.flatMap Field.bytes = front ++ fs'.flatMap Field.bytes ∧
      Remaining types fuel fs' rest rs (r.advance front.length) ∧ (∀ f ∈ fs', f ∈ fs) ∧
      (∀ f ∈ fs, f.tag ∈ rs.tags → f ∈ fs') ∧
      ((∃ v, ⟨tag, t, v⟩ ∈ fs ∧
        read types false fuel t old tag isRequire r = .ok v (r.advance front.length)) ∨
      Absent fs tag ∧
        read types false fuel t old tag isRequire r = absent isRequire old (r.advance front.length))
    := by
  obtain ⟨front, back, hfront, hback, hsplit⟩ := split_at_tag tag fs h.written
  have hreading := (List.pairwise_cons.mp h.reading).1
  have hlarger {f : Field} (hf : f.tag ∈ rs.tags) : tag < f.tag := hreading _ hf
  have hfrontSkips : ∀ f ∈ front, f ∈ fs →
      Reads (skipField false fuel f.wireType) f.payload () := by
    intro f hf hmem
    refine h.skips f hmem ?_
    intro htag
    rcases List.mem_cons.mp htag with heq | htag
    · exact UInt8.ne_of_lt (hfront f hf) heq
    · exact UInt8.lt_asymm (hfront f hf) (hlarger htag)
  have henough := h.enough
  rcases hsplit with rfl | ⟨f, hf, rfl⟩
  · have hbytes : (front ++ back).flatMap Field.bytes =
        front.flatMap Field.bytes ++ back.flatMap Field.bytes := List.flatMap_append
    have hat := h.bytes
    rw [hbytes, List.append_assoc] at hat
    obtain ⟨rounds, hrounds⟩ : ∃ n, fuel = n + 1 + front.length :=
      ⟨fuel - 1 - front.length, by rw [List.length_append] at henough; omega⟩
    have hloop : skipToTagLoop (skipField false fuel) tag (rounds + 1 + front.length) r =
        .ok none (r.advance (front.flatMap Field.bytes).length) := by
      rw [skipToTagLoop_front front hat hfront fun f hf =>
        hfrontSkips f hf (List.mem_append_left _ hf)]
      exact skipToTagLoop_missing back hat.advance h.memory hends hback
    have hfound : tarsSkipToTag (skipField false fuel) fuel tag r =
        .ok none (r.advance (front.flatMap Field.bytes).length) := by
      rw [tarsSkipToTag, hrounds, attempt_of_ok (hrounds ▸ hloop)]
    refine ⟨_, back, hbytes, h.tail hbytes (List.sublist_append_right _ _) hback,
      fun f hf => List.mem_append_right _ hf, ?_, .inr ⟨?_, read_absent t old hfound⟩⟩
    · intro f hf htag
      rcases List.mem_append.mp hf with hf | hf
      · exact absurd (hlarger htag) (UInt8.lt_asymm (hfront f hf))
      · exact hf
    · intro f hf
      rcases List.mem_append.mp hf with hf | hf
      · exact UInt8.ne_of_lt (hfront f hf)
      · exact (UInt8.ne_of_lt (hback f hf)).symm
  · have hmem : f ∈ front ++ f :: back := by simp
    obtain ⟨tag', t', v⟩ := f
    have htype : t' = t := h.matching _ hmem t (by rw [hf]; exact List.mem_cons_self)
    subst htype
    have htag : tag' = tag := hf
    subst htag
    have hbytes : (front ++ ⟨tag', t', v⟩ :: back).flatMap Field.bytes =
        (front.flatMap Field.bytes ++ encode t' v tag') ++ back.flatMap Field.bytes := by
      rw [List.flatMap_append, List.flatMap_cons, List.append_assoc]
      rfl
    have hat := h.bytes
    rw [hbytes, List.append_assoc, List.append_assoc] at hat
    obtain ⟨rounds, hrounds⟩ : ∃ n, fuel = n + 1 + front.length :=
      ⟨fuel - 1 - front.length, by rw [List.length_append, List.length_cons] at henough; omega⟩
    have hhere : At (r.advance (front.flatMap Field.bytes).length)
        (writeToHead (wireType t' v) tag' ++
          (payload t' v ++ (back.flatMap Field.bytes ++ rest))) := by
      rw [← List.append_assoc]
      exact hat.advance
    have hloop : skipToTagLoop (skipField false fuel) tag' fuel r = .ok (some (wireType t' v))
        ((r.advance (front.flatMap Field.bytes).length).advance (headLen tag')) := by
      nth_rewrite 2 [hrounds]
      rw [skipToTagLoop_front front hat hfront fun f hf =>
        hfrontSkips f hf (List.mem_append_left _ hf)]
      exact hhere.skipToTagLoop (wireType_ne t' v)
    have hfuel : fuel = (fuel - 1) + 1 := by omega
    have hfound : tarsSkipToTag (skipField false fuel) fuel tag' r =
        tarsSkipToTag (skipField false fuel) fuel tag'
          (r.advance (front.flatMap Field.bytes).length) := by
      have hthere : tarsSkipToTag (skipField false fuel) (fuel - 1 + 1) tag'
          (r.advance (front.flatMap Field.bytes).length) = .ok (some (wireType t' v))
            ((r.advance (front.flatMap Field.bytes).length).advance (headLen tag')) :=
        hhere.tarsSkipToTag (wireType_ne t' v)
      rw [← hfuel] at hthere
      rw [hthere, tarsSkipToTag, attempt_of_ok hloop]
    have hread : read types false fuel t' old tag' isRequire r = .ok v
        (r.advance (front.flatMap Field.bytes ++ encode t' v tag').length) := by
      have hvalid := h.valid _ hmem
      have hhere' : read types false (fuel - 1 + 1) t' old tag' isRequire
          (r.advance (front.flatMap Field.bytes).length) = .ok v
            ((r.advance (front.flatMap Field.bytes).length).advance (encode t' v tag').length) :=
        reads_read t' v hvalid old tag' isRequire _ _ hat.advance
      rw [← hfuel] at hhere'
      rw [read_congr t' old hfound, hhere', BufferReader.advance_advance, List.length_append]
    have hsub : back.Sublist (front ++ ⟨tag', t', v⟩ :: back) :=
      (List.sublist_cons_self _ _).trans (List.sublist_append_right _ _)
    refine ⟨_, back, hbytes, h.tail hbytes hsub hback, fun f hf => hsub.subset hf, ?_,
      .inl ⟨v, hmem, hread⟩⟩
    intro f hf htag
    rcases List.mem_append.mp hf with hf | hf
    · exact absurd (hlarger htag) (UInt8.lt_asymm (hfront f hf))
    · rcases List.mem_cons.mp hf with rfl | hf
      · exact absurd (hlarger htag) (UInt8.lt_irrefl _)
      · exact hf

end Remaining

section Run

variable {types : Codegen} {fuel : ℕ} {rest : Bytes} {fields : List Field}

/-- **Reading goes as it should** in front of the remaining fields. -/
theorem Remaining.correct (hends : Ends rest) : (rs : Fields) → (olds : rs.denote) →
    ∀ {fs r}, Remaining types fuel fs rest rs r → (∀ f ∈ fs, f ∈ fields) →
      (∀ f ∈ fields, f.tag ∈ rs.tags → f ∈ fs) → Correct types fuel fields rs olds r
  | .nil, _, _, _, _, _, _ => trivial
  | .cons tag isRequire t rs, (old, olds), fs, r, h, hsub, hall => by
    obtain ⟨front, fs', -, hremaining, hsub', hall', hread⟩ := h.read_step hends old
    have hrest : Correct types fuel fields rs olds (r.advance front.length) := by
      refine hremaining.correct hends rs olds (fun f hf => hsub f (hsub' f hf)) ?_
      intro f hf htag
      exact hall' f (hall f hf (List.mem_cons_of_mem _ htag)) htag
    rcases hread with ⟨v, hmem, hread⟩ | ⟨habsent, hread⟩
    · rw [Correct, hread]
      exact ⟨.inl (hsub _ hmem), hrest⟩
    · have hnone : Absent fields tag := by
        intro f hf htag
        exact habsent f (hall f hf (by rw [htag]; exact List.mem_cons_self)) htag
      cases isRequire with
      | true =>
        rw [Correct, hread]
        exact ⟨hnone, rfl, rfl, hrest⟩
      | false =>
        rw [Correct, hread]
        exact ⟨.inr ⟨hnone, rfl, rfl⟩, hrest⟩

/-- What `readFrom` does in front of some fields: each field that it finds is read back, and the
others are missing. -/
structure ReadsFrom (types : Codegen) (fuel : ℕ) (fields fs : List Field) (rest : Bytes)
    (rs : Fields) (olds : rs.denote) (r : BufferReader) : Prop where
  /-- If all required fields are there, it reads a part of the fields. -/
  complete : Complete fields rs → ∃ s front fs', Holds fields rs olds s ∧
    fs.flatMap Field.bytes = front ++ fs'.flatMap Field.bytes ∧
    Remaining types fuel fs' rest .nil (r.advance front.length) ∧
    readFrom types false fuel rs olds r = .ok s (r.advance front.length)
  /-- If a required member is missing, it throws. -/
  missing : ¬Complete fields rs → ∃ r', readFrom types false fuel rs olds r =
    .thrown .requireNotExist r'

/-- A `readFrom` whose first field has been read goes on with the others, from behind the field. -/
theorem ReadsFrom.cons {fs fs' : List Field} {front : Bytes} {rs : Fields} {olds : rs.denote}
    {r : BufferReader} {tag : UInt8} {isRequire : Bool} {t : Ty} {v old : t.denote}
    (h : ReadsFrom types fuel fields fs' rest rs olds (r.advance front.length))
    (hbytes : fs.flatMap Field.bytes = front ++ fs'.flatMap Field.bytes)
    (hcomplete : isRequire = true → ¬Absent fields tag)
    (hv : ⟨tag, t, v⟩ ∈ fields ∨ Absent fields tag ∧ v = old)
    (hread : read types false fuel t old tag isRequire r = .ok v (r.advance front.length)) :
    ReadsFrom types fuel fields fs rest (.cons tag isRequire t rs) (old, olds) r := by
  constructor
  · intro hrs
    obtain ⟨s, front', fs'', hholds, hbytes', hremaining, hrun⟩ := h.complete hrs.2
    refine ⟨(v, s), front ++ front', fs'', ⟨hv, hholds⟩, ?_, ?_, ?_⟩
    · rw [hbytes, hbytes', List.append_assoc]
    · rwa [List.length_append, ← BufferReader.advance_advance]
    · rw [TarsInputStream.readFrom, bind_of_ok hread, bind_of_ok hrun, List.length_append,
        BufferReader.advance_advance]
      rfl
  · intro hrs
    obtain ⟨r', hrun⟩ := h.missing fun hrs' => hrs ⟨hcomplete, hrs'⟩
    exact ⟨r', by rw [TarsInputStream.readFrom, bind_of_ok hread, bind_of_thrown hrun]⟩

/-- `readFrom` in front of the remaining fields reads each member from its field, or keeps what it
had. -/
theorem Remaining.readsFrom (hends : Ends rest) : (rs : Fields) → (olds : rs.denote) →
    ∀ {fs r}, Remaining types fuel fs rest rs r → (∀ f ∈ fs, f ∈ fields) →
      (∀ f ∈ fields, f.tag ∈ rs.tags → f ∈ fs) → ReadsFrom types fuel fields fs rest rs olds r
  | .nil, _, fs, r, h, _, _ =>
    ⟨fun _ => ⟨(), [], fs, trivial, rfl, h, rfl⟩, fun hnot => absurd trivial hnot⟩
  | .cons tag isRequire t rs, (old, olds), fs, r, h, hsub, hall => by
    obtain ⟨front, fs', hbytes, hremaining, hsub', hall', hread⟩ := h.read_step hends old
    have hrest : ReadsFrom types fuel fields fs' rest rs olds (r.advance front.length) := by
      refine hremaining.readsFrom hends rs olds (fun f hf => hsub f (hsub' f hf)) ?_
      intro f hf htag
      exact hall' f (hall f hf (List.mem_cons_of_mem _ htag)) htag
    rcases hread with ⟨v, hmem, hread⟩ | ⟨habsent, hread⟩
    · exact hrest.cons hbytes (fun _ hnone => hnone _ (hsub _ hmem) rfl) (.inl (hsub _ hmem)) hread
    · have hnone : Absent fields tag := by
        intro f hf htag
        exact habsent f (hall f hf (by rw [htag]; exact List.mem_cons_self)) htag
      cases isRequire with
      | true =>
        refine ⟨fun hrs => absurd hnone (hrs.1 rfl), fun _ => ⟨r.advance front.length, ?_⟩⟩
        rw [TarsInputStream.readFrom, bind_of_thrown hread]
      | false => exact hrest.cons hbytes (fun hfalse => nomatch hfalse) (.inr ⟨hnone, rfl⟩) hread

/-! ### The property -/

/-- **Schema evolution**: the fields `ws` with the values `vs` have been written, and a structure
with the fields `rs` is read. -/
structure Evolves (types : Codegen) (ws : Fields) (vs : ws.denote) (rs : Fields) : Prop where
  /-- Reading the fields goes as it should, at top level and in a structure. -/
  fields : ∀ rest, Ends rest → ∃ enough, ∀ fuel ≥ enough, ∀ olds r, r.bufLen ≤ r.buf.length →
    At r (encodeFields ws vs ++ rest) → Correct types fuel (ws.toList vs) rs olds r
  /-- Reading the structure leaves the cursor behind its end, if all required fields are there. -/
  struct : ∃ enough, ∀ fuel ≥ enough, ∀ tag isRequire old r rest, r.bufLen ≤ r.buf.length →
    At r (encode (.struct ws) vs tag ++ rest) →
      (Complete (ws.toList vs) rs →
        ∃ s, Holds (ws.toList vs) rs (types.resetDefautlt rs old) s ∧
          read types false fuel (.struct rs) old tag isRequire r =
            .ok s (r.advance (encode (.struct ws) vs tag).length)) ∧
      (¬Complete (ws.toList vs) rs →
        ∃ r', read types false fuel (.struct rs) old tag isRequire r = .thrown .requireNotExist r')
  /-- `skipField` is exact on the fields that are not read, and on what is nested in them. -/
  skips : ∀ f ∈ ws.toList vs, f.tag ∉ rs.tags → ∀ (t : Ty) (v : t.denote),
    Within v f.type f.value → ∃ enough, ∀ fuel ≥ enough,
      Reads (skipField false fuel (wireType t v)) (payload t v) ()

/-- What has been written is well formed, and the reader matches. -/
structure WellFormed (types : Codegen) (ws : Fields) (vs : ws.denote) (rs : Fields) : Prop where
  /-- The values respect the limits. -/
  valid : ws.Valid types.less vs
  /-- The bytes fit a buffer. -/
  fits : (encodeFields ws vs).length < 2 ^ 63
  /-- The tags have been written in ascending order. -/
  written : ws.tags.Pairwise (· < ·)
  /-- The tags are read in ascending order. -/
  reading : rs.tags.Pairwise (· < ·)
  /-- The types match wherever both versions have a tag. -/
  matching : ∀ tag t u, (tag, t) ∈ ws.types → (tag, u) ∈ rs.types → t = u

end Run

/-! ### From structures to lists of fields -/

/-- The tags and types of the fields are those of the structure. -/
theorem Fields.map_toList : (fs : Fields) → (s : fs.denote) →
    (fs.toList s).map (fun f => (f.tag, f.type)) = fs.types
  | .nil, _ => rfl
  | .cons tag _ t fs, s => congrArg ((tag, t) :: ·) (fs.map_toList s.2)

/-- A structure whose tags are in order has its fields in order. -/
theorem Fields.pairwise_toList {fs : Fields} (s : fs.denote) (h : fs.tags.Pairwise (· < ·)) :
    (fs.toList s).Pairwise (fun f g => f.tag < g.tag) := by
  rw [Fields.tags, ← fs.map_toList s, List.map_map, List.pairwise_map] at h
  exact h

/-- A field of a written structure has a tag and a type that the structure declares. -/
theorem Fields.mem_types {fs : Fields} {s : fs.denote} {f : Field} (hf : f ∈ fs.toList s) :
    (f.tag, f.type) ∈ fs.types := by
  rw [← fs.map_toList s]
  exact List.mem_map_of_mem hf

/-- The values of a structure that respects the limits. -/
theorem Fields.Valid.of_mem {less : (t : Ty) → t.denote → t.denote → Bool} :
    (fs : Fields) → (s : fs.denote) → fs.Valid less s → ∀ f ∈ fs.toList s, f.type.Valid less f.value
  | .nil, _, _, f, hf => absurd hf List.not_mem_nil
  | .cons _ _ _ fs, (_, vs), ⟨hv, hvs⟩, f, hf => by
    rcases List.mem_cons.mp hf with rfl | hf
    · exact hv
    · exact of_mem fs vs hvs f hf

/-- What is nested in a value that respects the limits. -/
theorem Within.valid {less : (t : Ty) → t.denote → t.denote → Bool} {t u : Ty} {w : u.denote}
    {v : t.denote} (h : Within w t v) (hv : t.Valid less v) : u.Valid less w := by
  induction h with
  | refl => exact hv
  | element hx _ ih => exact ih (hv.2 _ hx)
  | key he _ ih => exact ih (hv.2.2 _ he).1
  | value he _ ih => exact ih (hv.2.2 _ he).2
  | field hf _ ih => exact ih (Fields.Valid.of_mem _ _ hv _ hf)

namespace WellFormed

variable {types : Codegen} {ws rs : Fields} {vs : ws.denote}

/-- The payload of a field is shorter than all fields. -/
theorem length_payload_lt {f : Field} (hf : f ∈ ws.toList vs) :
    f.payload.length < (encodeFields ws vs).length := by
  have hle := length_le_of_mem_flatMap Field.bytes hf
  have hhead := headLen_pos f.tag
  rw [Field.bytes, List.length_append, length_writeToHead] at hle
  rw [encodeFields_eq]
  omega

/-- Before anything is read, all the written fields remain to be read or skipped. -/
theorem remaining (h : WellFormed types ws vs rs)
    (hskip : ∀ f ∈ ws.toList vs, f.tag ∉ rs.tags → Skippable f.type f.value) {fuel : ℕ}
    (hfuel : (encodeFields ws vs).length < fuel) {rest : Bytes} {r : BufferReader}
    (hmemory : r.bufLen ≤ r.buf.length) (hat : At r (encodeFields ws vs ++ rest)) :
    Remaining types fuel (ws.toList vs) rest rs r := by
  have hvalid := Fields.Valid.of_mem ws vs h.valid
  refine ⟨?_, hmemory, Fields.pairwise_toList vs h.written, h.reading, ?_, ?_, hvalid, ?_⟩
  · rwa [← encodeFields_eq]
  · have hlength := length_le_bytes (ws.toList vs)
    rw [← encodeFields_eq] at hlength
    omega
  · intro f hf u hu
    exact h.matching f.tag f.type u (Fields.mem_types hf) hu
  · intro f hf hnot
    have hlength := length_payload_lt hf
    exact reads_skipField f.type f.value (hvalid f hf) (hskip f hf hnot) fuel
      (by rw [Field.payload] at hlength; omega)

/-- Reading the structure, if what is not read can be skipped. -/
theorem read_struct (h : WellFormed types ws vs rs)
    (hskip : ∀ f ∈ ws.toList vs, f.tag ∉ rs.tags → Skippable f.type f.value) {fuel : ℕ}
    (hfuel : (encodeFields ws vs).length < fuel) (tag : UInt8) (isRequire : Bool)
    (old : rs.denote) {rest : Bytes} {r : BufferReader} (hmemory : r.bufLen ≤ r.buf.length)
    (hat : At r (encode (.struct ws) vs tag ++ rest)) :
    (Complete (ws.toList vs) rs →
      ∃ s, Holds (ws.toList vs) rs (types.resetDefautlt rs old) s ∧
        read types false fuel (.struct rs) old tag isRequire r =
          .ok s (r.advance (encode (.struct ws) vs tag).length)) ∧
    (¬Complete (ws.toList vs) rs →
      ∃ r', read types false fuel (.struct rs) old tag isRequire r =
        .thrown .requireNotExist r') := by
  obtain ⟨rounds, rfl⟩ : ∃ n, fuel = n + 1 := ⟨fuel - 1, by omega⟩
  have hencode : encode (.struct ws) vs tag ++ rest = writeToHead .structBegin tag ++
      (encodeFields ws vs ++ (writeToHead .structEnd 0 ++ rest)) := by
    rw [encode, wireType, payload, List.append_assoc, List.append_assoc]
  rw [hencode] at hat
  have hinside := hat.advance
  rw [length_writeToHead] at hinside
  have hends : Ends (writeToHead .structEnd 0 ++ rest) := .inr ⟨rest, rfl⟩
  have hmemory' : (r.advance (headLen tag)).bufLen ≤ (r.advance (headLen tag)).buf.length := hmemory
  have hremaining := h.remaining hskip hfuel hmemory' hinside
  have hfrom := hremaining.readsFrom hends rs (types.resetDefautlt rs old) (fun f hf => hf)
    fun f hf _ => hf
  have hfound : tarsSkipToTag (skipField false (rounds + 1)) (rounds + 1) tag r =
      .ok (some .structBegin) (r.advance (headLen tag)) := hat.tarsSkipToTag (by decide)
  have hread : read types false (rounds + 1) (.struct rs) old tag isRequire r =
      (do
        let s ← readFrom types false (rounds + 1) rs (types.resetDefautlt rs old)
        skipToStructEnd (skipField false (rounds + 1)) (rounds + 1)
        pure s) (r.advance (headLen tag)) := by
    rw [TarsInputStream.read]
    exact bind_of_ok hfound
  rw [hread]
  constructor
  · intro hcomplete
    obtain ⟨s, front, fs', hholds, hbytes, hend, hrun⟩ := hfrom.complete hcomplete
    refine ⟨s, hholds, ?_⟩
    have hskips := reads_skipToStructEnd_fields fs' (by have := hend.enough; omega)
      (reads_skipField_structEnd (by omega)) fun f hf => hend.skips f hf List.not_mem_nil
    have hthere := hend.bytes
    rw [← List.append_assoc] at hthere
    have hlength : (encode (.struct ws) vs tag).length =
        headLen tag +
          (front.length + (fs'.flatMap Field.bytes ++ writeToHead .structEnd 0).length) := by
      rw [encode, wireType, payload, encodeFields_eq, hbytes]
      simp only [List.length_append, length_writeToHead]
      omega
    rw [bind_of_ok hrun, bind_of_ok (hskips _ _ hthere), hlength, BufferReader.advance_advance,
      BufferReader.advance_advance]
    rfl
  · intro hmissing
    obtain ⟨r', hrun⟩ := hfrom.missing hmissing
    exact ⟨r', bind_of_thrown hrun⟩

end WellFormed

/-- A map has at least one byte for every entry. -/
theorem length_le_payload_map {k e : Ty} (m : List (k.denote × e.denote)) :
    (encodeInteger m.length 0).length + m.length ≤ (payload (.map k e) m).length := by
  have hentries : payload (.map k e) m =
      encodeInteger m.length 0 ++ m.flatMap fun d => encode k d.1 0 ++ encode e d.2 1 := rfl
  have hcount : m.length ≤ (m.flatMap fun d => encode k d.1 0 ++ encode e d.2 1).length := by
    apply length_le_length_flatMap
    intro d _
    exact List.append_ne_nil_of_left_ne_nil (encode_ne_nil k d.1 0) _
  rw [hentries, List.length_append]
  omega

/-- A map that is too large is not skipped. -/
theorem not_reads_skipField_large {k e : Ty} {m : List (k.denote × e.denote)} {fuel : ℕ}
    (hlarge : 2 ^ 30 ≤ m.length) (hlength : m.length < 2 ^ 31)
    (hfits : (payload (.map k e) m).length < 2 ^ 63) :
    ¬Reads (skipField false (fuel + 1) .map) (payload (.map k e) m) () := by
  intro hreads
  have hat : At (.setBuffer (payload (.map k e) m) (payload (.map k e) m).length)
      (payload (.map k e) m ++ []) := by
    rw [List.append_nil]
    exact At.setBuffer hfits
  have hentries : payload (.map k e) m =
      encodeInteger m.length 0 ++ m.flatMap fun d => encode k d.1 0 ++ encode e d.2 1 := rfl
  have hcount := length_le_payload_map m
  have hexact := hreads _ _ hat
  rw [hentries] at hexact hcount
  rw [hentries, List.append_assoc] at hat
  rw [reads_skipField_large hlarge hlength _ _ hat] at hexact
  have hcur := congrArg BufferReader.cur (Outcome.ok.inj hexact).2
  rw [BufferReader.cur_advance, BufferReader.cur_advance] at hcur
  omega

/-- What has been passed over without loss had no map that is too large. -/
theorem Evolves.skippable {types : Codegen} {ws rs : Fields} {vs : ws.denote}
    (hevolves : Evolves types ws vs rs) (h : WellFormed types ws vs rs) :
    ∀ f ∈ ws.toList vs, f.tag ∉ rs.tags → Skippable f.type f.value := by
  intro f hf hnot k e m hm
  by_contra hlarge
  obtain ⟨enough, hexact⟩ := hevolves.skips f hf hnot _ _ hm
  have hvalid := hm.valid (Fields.Valid.of_mem ws vs h.valid f hf)
  have hfits := hm.length_payload_le
  have hshorter := WellFormed.length_payload_lt hf
  have hall := h.fits
  rw [Field.payload] at hshorter
  exact not_reads_skipField_large (by omega) hvalid.1 (by omega) (hexact (enough + 1) (by omega))

/-- What has no map that is too large is passed over without loss. -/
theorem WellFormed.evolves {types : Codegen} {ws rs : Fields} {vs : ws.denote}
    (h : WellFormed types ws vs rs)
    (hskip : ∀ f ∈ ws.toList vs, f.tag ∉ rs.tags → Skippable f.type f.value) :
    Evolves types ws vs rs := by
  refine ⟨?_, ?_, ?_⟩
  · intro rest hends
    refine ⟨(encodeFields ws vs).length + 1, ?_⟩
    intro fuel hfuel olds r hmemory hat
    exact (h.remaining hskip (by omega) hmemory hat).correct hends rs olds (fun f hf => hf)
      fun f hf _ => hf
  · refine ⟨(encodeFields ws vs).length + 1, ?_⟩
    intro fuel hfuel tag isRequire old r rest hmemory hat
    exact h.read_struct hskip (by omega) tag isRequire old hmemory hat
  · intro f hf hnot t v hv
    refine ⟨(payload t v).length + 1, ?_⟩
    intro fuel hfuel
    exact reads_skipField t v (hv.valid (Fields.Valid.of_mem ws vs h.valid f hf))
      (fun k e m hm => hskip f hf hnot k e m (hm.trans hv)) fuel (by omega)

/-- **Schema evolution works exactly if** no field that is not read contains a map with `2 ^ 30`
entries or more. -/
theorem evolves_iff {types : Codegen} {ws rs : Fields} {vs : ws.denote}
    (h : WellFormed types ws vs rs) :
    Evolves types ws vs rs ↔
      ∀ f ∈ ws.toList vs, f.tag ∉ rs.tags → Skippable f.type f.value :=
  ⟨fun hevolves => hevolves.skippable h, h.evolves⟩

/-- A field with less than `2 ^ 30` bytes can be skipped. -/
theorem Skippable.of_length {t : Ty} {v : t.denote} (h : (payload t v).length < 2 ^ 30) :
    Skippable t v := by
  intro k e m hm
  have hle := hm.length_payload_le
  have hcount := length_le_payload_map m
  omega

/-- A writer with three fields, among them a map that readers of the sample skip. -/
private abbrev sampleFields : Fields :=
  .cons 0 true (.map (.int .int32) .bool) (.cons 1 true (.int .short) (.cons 20 true .string .nil))

/-- A reader that knows one of the three fields and asks for one that is not there. -/
theorem evolves_sample :
    Evolves plainTypes sampleFields ([(5, true)], -300, [97, 98], ())
      (.cons 1 true (.int .short) (.cons 2 false .bool .nil)) := by
  refine (evolves_iff ⟨?_, by decide, by decide, by decide, ?_⟩).mpr ?_
  · have hmap : (Ty.map (.int .int32) .bool).Valid plainTypes.less [(5, true)] := by
      simp [Ty.Valid]
    have hstring : Ty.string.Valid plainTypes.less [97, 98] := by
      simp [Ty.Valid, maxStringLength]
    exact ⟨hmap, trivial, hstring, trivial⟩
  · intro tag t u ht hu
    simp only [Fields.types, List.mem_cons, Prod.mk.injEq, List.not_mem_nil, or_false] at ht hu
    rcases ht with ⟨rfl, rfl⟩ | ⟨rfl, rfl⟩ | ⟨rfl, rfl⟩ <;>
      rcases hu with ⟨htag, rfl⟩ | ⟨htag, rfl⟩ <;> first | rfl | exact absurd htag (by decide)
  · intro f hf _
    apply Skippable.of_length
    simp only [Fields.toList, List.mem_cons, List.not_mem_nil, or_false] at hf
    rcases hf with rfl | rfl | rfl <;> decide

/-! ### A large map -/

/-- The map from the numbers below `n` to `true`. -/
def trueMap (n : ℕ) : List (BitVec 32 × Bool) :=
  (List.range n).map fun i => (BitVec.ofNat 32 i, true)

@[simp] theorem length_trueMap (n : ℕ) : (trueMap n).length = n := by
  rw [trueMap, List.length_map, List.length_range]

/-- A map from small keys to `true` respects the limits as long as its size is below 2^31. -/
theorem valid_trueMap {n : ℕ} (hn : n < 2 ^ 31) :
    (Ty.map (.int .int32) .bool).Valid plainTypes.less (trueMap n) := by
  refine ⟨by rwa [length_trueMap], ?_, fun _ _ => ⟨trivial, trivial⟩⟩
  rw [trueMap, List.pairwise_map]
  apply List.pairwise_lt_range.imp_of_mem
  intro i j hi hj hij
  have hint (m : ℕ) (hm : m ∈ List.range n) :
      IntKind.int32.toInt (BitVec.ofNat 32 m) = m :=
    toInt_ofNat_of_lt (by have := List.mem_range.mp hm; omega)
  show decide (IntKind.int32.toInt (BitVec.ofNat 32 i) < IntKind.int32.toInt (BitVec.ofNat 32 j)) =
    true
  rw [hint i hi, hint j hj, decide_eq_true_iff]
  exact_mod_cast hij

/-- Where every element takes at most `c` bytes, a list of them takes at most `c` for each. -/
theorem length_flatMap_le {α : Type} {bytes : α → Bytes} {c : ℕ} (xs : List α)
    (h : ∀ x, (bytes x).length ≤ c) : (xs.flatMap bytes).length ≤ xs.length * c := by
  induction xs with
  | nil => simp
  | cons x xs ih =>
    have hx := h x
    rw [List.flatMap_cons, List.length_append, List.length_cons, Nat.succ_mul]
    omega

/-- The field of an integer is small: a head of two bytes at most, and eight bytes of payload. -/
theorem length_encodeInteger_le (z : ℤ) (tag : UInt8) : (encodeInteger z tag).length ≤ 10 := by
  have hhead := headLen_le tag
  rw [length_encodeInteger]
  rcases integerSize_cases z with h | h | h | h | h <;> omega

/-- The entries of the map are small, so a map of many entries still fits a buffer. -/
theorem length_entries_trueMap_le (n : ℕ) : ((trueMap n).flatMap fun d =>
    encode (.int .int32) d.1 0 ++ encode .bool d.2 1).length ≤ n * 20 := by
  have hlength := length_flatMap_le (trueMap n) fun d =>
    (List.length_append.trans_le (Nat.add_le_add
      (length_encodeInteger_le (IntKind.int32.toInt d.1) 0)
      (length_encodeInteger_le (if d.2 then 1 else 0) 1)))
  rwa [length_trueMap] at hlength

/-- The fields of a writer that puts a map in front of a truth value. -/
private abbrev mapFields : Fields :=
  .cons 0 true (.map (.int .int32) .bool) (.cons 1 true .bool .nil)

/-- Behind a map that is too large, the first entry of the map is taken for the next field. -/
theorem read_behind_large_map {n fuel : ℕ} (hlarge : 2 ^ 30 ≤ n) (hn : n < 2 ^ 31)
    (hfuel : 3 < fuel) (b : Bool) {r : BufferReader} {rest : Bytes}
    (hat : At r (encodeFields mapFields (trueMap n, b, ()) ++ rest)) :
    ∃ r', read plainTypes false fuel .bool b 1 true r = .ok true r' := by
  obtain ⟨k, rfl⟩ : ∃ k, fuel = k + 4 := ⟨fuel - 4, by omega⟩
  obtain ⟨entries, hentries⟩ : ∃ entries, trueMap n = (0, true) :: entries := by
    obtain ⟨m, rfl⟩ : ∃ m, n = m + 1 := ⟨n - 1, by omega⟩
    exact ⟨_, by rw [trueMap, List.range_succ_eq_map]; rfl⟩
  obtain ⟨more, hmore⟩ : ∃ more, encodeFields mapFields (trueMap n, b, ()) ++ rest =
      writeToHead .map 0 ++ (encodeInteger n 0 ++
        (writeToHead .zeroTag 0 ++ ([] ++ (encode .bool true 1 ++ more)))) := by
    have hpayload : payload (.map (.int .int32) .bool) (trueMap n) = encodeInteger n 0 ++
        (encode (.int .int32) 0 0 ++ (encode .bool true 1 ++
          entries.flatMap fun d => encode (.int .int32) d.1 0 ++ encode .bool d.2 1)) := by
      rw [payload, length_trueMap, hentries, List.flatMap_cons, List.append_assoc]
      rfl
    have hkey : encode (.int .int32) 0 0 = writeToHead .zeroTag 0 ++ [] := rfl
    rw [encodeFields, wireType, hpayload, hkey]
    simp only [List.append_assoc]
    exact ⟨_, rfl⟩
  rw [hmore] at hat
  have hsize := hat.advance
  rw [length_writeToHead] at hsize
  have hkey := hsize.advance
  rw [BufferReader.advance_advance] at hkey
  have hvalue := hkey.advance.advance
  rw [length_writeToHead, BufferReader.advance_advance, List.length_nil, Nat.add_zero] at hvalue
  have hloop : skipToTagLoop (skipField false (k + 4)) 1 (k + 4) r =
      skipToTagLoop (skipField false (k + 4)) 1 (k + 2)
        ((r.advance (headLen 0 + (encodeInteger n 0).length)).advance (headLen 0)) := by
    rw [skipToTagLoop_skip hat (by decide) (by decide) (reads_skipField_large hlarge hn),
      skipToTagLoop_skip hkey (by decide) (by decide) (Reads.pure ())]
    rfl
  have hvalue' := hvalue
  rw [encode, List.append_assoc] at hvalue'
  have hfound : tarsSkipToTag (skipField false (k + 4)) (k + 4) 1 r =
      tarsSkipToTag (skipField false (k + 4)) (k + 4) 1
        ((r.advance (headLen 0 + (encodeInteger n 0).length)).advance (headLen 0)) := by
    rw [tarsSkipToTag, attempt, attempt, hloop,
      hvalue'.skipToTagLoop (wireType_ne .bool true),
      hvalue'.skipToTagLoop (wireType_ne .bool true)]
  exact ⟨_, (read_congr .bool b hfound).trans (reads_read .bool true trivial b 1 true _ _ hvalue)⟩

/-- The structure of the sample respects the limits and is well formed for a reader of one field. -/
theorem wellFormed_trueMap {n : ℕ} (hn : n < 2 ^ 31) (b : Bool) :
    WellFormed plainTypes mapFields (trueMap n, b, ()) (.cons 1 true .bool .nil) := by
  refine ⟨⟨valid_trueMap hn, trivial, trivial⟩, ?_, by decide, by decide, ?_⟩
  · have hentries := length_entries_trueMap_le n
    have hsize := length_encodeInteger_le n 0
    have hbool := length_encodeInteger_le (if b then 1 else 0) 1
    have hfields : encodeFields mapFields (trueMap n, b, ()) = writeToHead .map 0 ++
        (encodeInteger (trueMap n).length 0 ++ (trueMap n).flatMap fun d =>
          encode (.int .int32) d.1 0 ++ encode .bool d.2 1) ++
        (encodeInteger (if b then 1 else 0) 1 ++ []) := rfl
    rw [hfields, length_trueMap]
    simp only [List.length_append, length_writeToHead, List.length_nil]
    have hhead : headLen 0 = 1 := rfl
    omega
  · intro tag t u ht hu
    simp only [Fields.types, List.mem_cons, Prod.mk.injEq, List.not_mem_nil, or_false] at ht hu
    obtain ⟨htag, rfl⟩ := hu
    rcases ht with ⟨rfl, rfl⟩ | ⟨-, rfl⟩
    · exact absurd htag (by decide)
    · rfl

/-- A map that is too large is not passed over: the reader lands in its entries and takes a value
there for the field behind the map. -/
theorem large_map_fails {n : ℕ} (hlarge : 2 ^ 30 ≤ n) (hn : n < 2 ^ 31) (b : Bool) :
    WellFormed plainTypes mapFields (trueMap n, b, ()) (.cons 1 true .bool .nil) ∧
    ¬Evolves plainTypes mapFields (trueMap n, b, ()) (.cons 1 true .bool .nil) ∧
    ∀ fuel > 3, ∃ r', read plainTypes false fuel .bool b 1 true
      (.setBuffer (encodeFields mapFields (trueMap n, b, ()))
        (encodeFields mapFields (trueMap n, b, ())).length) = .ok true r' := by
  have hwell := wellFormed_trueMap hn b
  refine ⟨hwell, ?_, ?_⟩
  · intro hevolves
    have hother : (0 : UInt8) ∉ [1] := by decide
    have hskip := hevolves.skippable hwell ⟨0, .map (.int .int32) .bool, trueMap n⟩
      List.mem_cons_self hother _ _ _ .refl
    rw [length_trueMap] at hskip
    omega
  · intro fuel hfuel
    have hat : At (.setBuffer (encodeFields mapFields (trueMap n, b, ()))
        (encodeFields mapFields (trueMap n, b, ())).length)
        (encodeFields mapFields (trueMap n, b, ()) ++ []) := by
      rw [List.append_nil]
      exact At.setBuffer hwell.fits
    exact read_behind_large_map hlarge hn hfuel b hat

/-- A map with `2 ^ 30` entries that are all `true` is passed over, and then `false` is read as
`true`. -/
theorem evolves_fails :
    WellFormed plainTypes mapFields (trueMap (2 ^ 30), false, ()) (.cons 1 true .bool .nil) ∧
    ¬Evolves plainTypes mapFields (trueMap (2 ^ 30), false, ()) (.cons 1 true .bool .nil) ∧
    ∀ fuel > 3, ∃ r', read plainTypes false fuel .bool false 1 true
      (.setBuffer (encodeFields mapFields (trueMap (2 ^ 30), false, ()))
        (encodeFields mapFields (trueMap (2 ^ 30), false, ())).length) = .ok true r' :=
  large_map_fails le_rfl (Nat.pow_lt_pow_right (by decide) (by decide)) false

end Tars
