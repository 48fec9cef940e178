import Tars.Tup.Cursor

/-!
# Scalars in a buffer

Whether a scalar with the tag 0 can be read is a matter of the bytes at the cursor: a head of one or
two bytes with this tag and a head type that the type can hold, and behind it as many bytes as the
head type asks for. `scalarAt` finds this out without reading, and `scans_read` says that reading
finds the same. Nothing has to be skipped before the tag 0, so that neither the fuel nor the rest of
the input plays a part.
-/

namespace Tars

open LittleEndian Decoding TarsInputStream

/-! ### The buffer of a reader -/

/-- The buffer of a reader: the memory and how much of it can be read. -/
def BufferReader.memory (r : BufferReader) : Bytes × ℕ := (r.buf, r.bufLen)

/-- The buffer of the reader is an object in memory. -/
structure BufferReader.Backed (r : BufferReader) : Prop where
  /-- Its length is that of an object. -/
  fits : r.bufLen < 2 ^ 63
  /-- The buffer is in memory, as far as it says that it reaches. -/
  backed : r.bufLen ≤ r.buf.length

/-- A reader with the same buffer is backed, too. -/
theorem BufferReader.Backed.of_memory {r r' : BufferReader} (h : r.Backed)
    (hsame : r'.memory = r.memory) : r'.Backed := by
  obtain ⟨hbuf, hlen⟩ := Prod.mk.inj hsame
  exact ⟨hlen ▸ h.fits, by rw [hlen, hbuf]; exact h.backed⟩

namespace TarsInputStream

variable {skip : HeadType → Decode Unit}

theorem keeps_peekTypeBuf (offset size : ℕ) :
    Keeps BufferReader.memory (peekTypeBuf offset size) := by
  constructor
  · intro r bs r' h
    rw [peekTypeBuf] at h
    split at h
    · cases h
    · split at h
      · obtain ⟨-, rfl⟩ := Outcome.ok.inj h
        rfl
      · cases h
  · intro r e r' h
    rw [peekTypeBuf] at h
    split at h
    · obtain ⟨-, rfl⟩ := Outcome.thrown.inj h
      rfl
    · split at h <;> cases h

theorem keeps_peekTypeBufNoTag (offset size : ℕ) :
    Keeps BufferReader.memory (peekTypeBufNoTag offset size) := by
  constructor
  · intro r v r' h
    rw [peekTypeBufNoTag] at h
    split at h
    · cases h
    · obtain ⟨-, rfl⟩ := Outcome.ok.inj h
      rfl
  · intro r e r' h
    rw [peekTypeBufNoTag] at h
    split at h
    · obtain ⟨-, rfl⟩ := Outcome.thrown.inj h
      rfl
    · cases h

theorem keeps_readHeadSkip (len : ℕ) : Keeps BufferReader.memory (readHeadSkip len) := by
  constructor
  · intro r v r' h
    obtain ⟨-, rfl⟩ := Outcome.ok.inj h
    rfl
  · intro r e r' h
    cases h

theorem keeps_readTypeBuf (size : ℕ) : Keeps BufferReader.memory (readTypeBuf size) :=
  (keeps_peekTypeBuf 0 size).bind fun bs => (keeps_readHeadSkip size).bind fun _ => .pure bs

theorem keeps_peekFromHead : Keeps BufferReader.memory peekFromHead := by
  refine (keeps_peekTypeBuf 0 1).bind fun typeTag => ?_
  dsimp only
  split
  · exact (keeps_peekTypeBuf 1 1).bind fun tag => .pure _
  · exact .pure _

theorem keeps_readFromHead : Keeps BufferReader.memory readFromHead :=
  keeps_peekFromHead.bind fun head => (keeps_readHeadSkip head.len).bind fun _ => .pure head

theorem keeps_readFromHeadNoTag : Keeps BufferReader.memory readFromHeadNoTag := by
  refine (keeps_peekTypeBuf 0 1).bind fun typeTag => ?_
  dsimp only
  split
  · exact (keeps_peekTypeBufNoTag 1 1).bind fun _ => (keeps_readHeadSkip 2).bind fun _ => .pure _
  · exact (keeps_readHeadSkip 1).bind fun _ => .pure _

theorem keeps_skipToTagLoop (hskip : ∀ type, Keeps BufferReader.memory (skip type)) (tag : UInt8) :
    ∀ rounds, Keeps BufferReader.memory (skipToTagLoop skip tag rounds)
  | 0 => .exhausted
  | rounds + 1 => by
    refine (Keeps.ask _).bind fun ended => ?_
    split
    · exact .pure none
    · refine keeps_peekFromHead.bind fun head => ?_
      split
      · exact .pure none
      · split
        · exact (keeps_readHeadSkip head.len).bind fun _ => .pure _
        · exact (keeps_readHeadSkip head.len).bind fun _ =>
            (hskip head.type).bind fun _ => keeps_skipToTagLoop hskip tag rounds

theorem keeps_tarsSkipToTag (hskip : ∀ type, Keeps BufferReader.memory (skip type)) (rounds : ℕ)
    (tag : UInt8) : Keeps BufferReader.memory (tarsSkipToTag skip rounds tag) :=
  (keeps_skipToTagLoop hskip tag rounds).attempt none

theorem keeps_readField {α : Type} {body : HeadType → Decode α}
    (hskip : ∀ type, Keeps BufferReader.memory (skip type))
    (hbody : ∀ type, Keeps BufferReader.memory (body type)) (rounds : ℕ) (old : α) (tag : UInt8)
    (isRequire : Bool) :
    Keeps BufferReader.memory (readField skip rounds body old tag isRequire) := by
  refine (keeps_tarsSkipToTag hskip rounds tag).bind fun found => ?_
  cases found with
  | some type => exact hbody type
  | none =>
    dsimp only
    split
    · exact .throw _
    · exact .pure old

theorem keeps_integerBody (w : ℕ) (type : HeadType) :
    Keeps BufferReader.memory (integerBody w type) := by
  cases type with
  | zeroTag => exact .pure _
  | char => exact (keeps_readTypeBuf 1).bind fun _ => .pure _
  | short =>
    rw [integerBody]
    split
    · exact .throw _
    · exact (keeps_readTypeBuf 2).bind fun _ => .pure _
  | int32 =>
    rw [integerBody]
    split
    · exact .throw _
    · exact (keeps_readTypeBuf 4).bind fun _ => .pure _
  | int64 =>
    rw [integerBody]
    split
    · exact .throw _
    · exact (keeps_readTypeBuf 8).bind fun _ => .pure _
  | _ => exact .throw _

theorem keeps_skipFieldHead (hskip : ∀ type, Keeps BufferReader.memory (skip type)) :
    Keeps BufferReader.memory (skipFieldHead skip) :=
  keeps_readFromHeadNoTag.bind hskip

theorem keeps_skipEach (hskip : ∀ type, Keeps BufferReader.memory (skip type)) :
    ∀ size, Keeps BufferReader.memory (skipEach skip size)
  | 0 => .pure ()
  | size + 1 => (keeps_skipFieldHead hskip).bind fun _ => keeps_skipEach hskip size

theorem keeps_skipToStructEnd (hskip : ∀ type, Keeps BufferReader.memory (skip type)) :
    ∀ rounds, Keeps BufferReader.memory (skipToStructEnd skip rounds)
  | 0 => .exhausted
  | rounds + 1 => by
    refine keeps_readFromHeadNoTag.bind fun type => (hskip type).bind fun _ => ?_
    split
    · exact .pure ()
    · exact keeps_skipToStructEnd hskip rounds

/-- **Skipping keeps the buffer**: whatever a skip does to the cursor, the memory and its stated
length stay. -/
theorem keeps_skipField (guard : Bool) :
    ∀ fuel type, Keeps BufferReader.memory (skipField guard fuel type)
  | 0, _ => .exhausted
  | fuel + 1, type => by
    have hskip := keeps_skipField guard fuel
    have hsize := keeps_readField hskip (keeps_integerBody 32) (fuel + 1) 0 0 true
    cases type with
    | char | short | int32 | int64 | float | double => exact keeps_readHeadSkip _
    | string1 => exact (keeps_readTypeBuf 1).bind fun _ => keeps_readHeadSkip _
    | string4 => exact (keeps_readTypeBuf 4).bind fun _ => keeps_readHeadSkip _
    | map => exact hsize.bind fun _ => keeps_skipEach hskip _
    | list => exact hsize.bind fun _ => keeps_skipEach hskip _
    | simpleList =>
      refine keeps_readFromHead.bind fun head => ?_
      split
      · exact .throw _
      · refine hsize.bind fun size => ?_
        split
        · exact .refuse
        · exact keeps_readHeadSkip _
    | structBegin => exact keeps_skipToStructEnd hskip _
    | structEnd | zeroTag => exact .pure ()
    | invalid => exact .throw _

end TarsInputStream

/-! ### Scanning -/

/-- The bytes that are left to be read, from the cursor to the end of the buffer. -/
def BufferReader.rest (r : BufferReader) : Bytes := (r.buf.take r.bufLen).drop r.cur

/-- The head at the front of some bytes, if there is one. The tag may stand in a byte of its own. -/
def headAt : Bytes → Option Head
  | [] => none
  | b :: bs =>
    if b.toNat / 16 = 15 then bs.head?.map fun tag => ⟨HeadType.ofCode (b.toNat % 16), tag, 2⟩
    else some ⟨HeadType.ofCode (b.toNat % 16), UInt8.ofNat (b.toNat / 16), 1⟩

/-- The length of the field with the tag 0 at the front of some bytes, if there is one and the bytes
behind its head are there, too; `payload` says how many there are for a head type. -/
def fieldAt (payload : HeadType → Option ℕ) (bs : Bytes) : Option ℕ :=
  (headAt bs).bind fun head =>
    if head.tag = 0 then
      ((payload head.type).map (head.len + ·)).filter fun len => decide (len ≤ bs.length)
    else none

/-- The number of bytes behind the head of an integer that is read with so many bits. -/
def intPayload (w : ℕ) : HeadType → Option ℕ
  | .zeroTag => some 0
  | .char => some 1
  | .short => if w < 16 then none else some 2
  | .int32 => if w < 32 then none else some 4
  | .int64 => if w < 64 then none else some 8
  | _ => none

/-- The types that are not put together from others. Strings and vectors of `Char` are not among
them, since they have a length of their own. -/
def Ty.Scalar : Ty → Prop
  | .bool | .int _ | .float | .double => True
  | .string | .bytes | .vector _ | .map _ _ | .struct _ => False

/-- The number of bytes behind the head of a scalar. -/
def Ty.payload : Ty → HeadType → Option ℕ
  | .bool => intPayload 8
  | .int k => intPayload k.readWidth
  | .float => fun type =>
    match type with
    | .zeroTag => some 0
    | .float => some 4
    | _ => none
  | .double => fun type =>
    match type with
    | .zeroTag => some 0
    | .float => some 4
    | .double => some 8
    | _ => none
  | .string | .bytes | .vector _ | .map _ _ | .struct _ => fun _ => none

/-- The length of the scalar of this type at the front of some bytes, if there is one. -/
def scalarAt (t : Ty) : Bytes → Option ℕ := fieldAt t.payload

/-- So many scalars of this type follow each other at the front of some bytes. -/
def scalarsAt (t : Ty) : ℕ → Bytes → Bool
  | 0, _ => true
  | count + 1, bs =>
    match scalarAt t bs with
    | none => false
    | some len => scalarsAt t count (bs.drop len)

/-- A decoder delivers a value and moves on by the length that is found by scanning, or throws an
exception that is not about an invalid value. -/
def Scans {α : Type} (m : Decode α) (scan : Bytes → Option ℕ) : Prop :=
  ∀ r : BufferReader, r.Backed →
    match scan r.rest with
    | some len => ∃ v, m r = .ok v (r.advance len)
    | none => ∃ e r', m r = .thrown e r' ∧ e ≠ .invalidValue

/-- What is read behind a head has the length that belongs to the head type. -/
def Measures {α : Type} (body : HeadType → Decode α) (payload : HeadType → Option ℕ) : Prop :=
  ∀ (type : HeadType) (r : BufferReader), r.Backed → r.cur ≤ r.bufLen →
    match (payload type).filter fun len => decide (len ≤ r.rest.length) with
    | some len => ∃ v, body type r = .ok v (r.advance len)
    | none => ∃ e r', body type r = .thrown e r' ∧ e ≠ .invalidValue

section Scanning

variable {r : BufferReader} {bs : Bytes} {α β : Type} {skip : HeadType → Decode Unit}

/-- The bytes that are left are at the cursor. -/
theorem BufferReader.Backed.at (h : r.Backed) (hcur : r.cur ≤ r.bufLen) : At r r.rest :=
  ⟨h.fits, ⟨hcur, Nat.le_trans hcur h.backed⟩, rfl⟩

/-- As many bytes are left as lie between the cursor and the stated length. -/
theorem BufferReader.Backed.length_rest (h : r.Backed) : r.rest.length = r.bufLen - r.cur := by
  have hbacked := h.backed
  rw [rest, List.length_drop, List.length_take, Nat.min_eq_left hbacked]

/-- The bytes that are left after some others have been read are the rest of what was left. -/
theorem rest_advance (n : ℕ) : (r.advance n).rest = r.rest.drop n := by
  rw [BufferReader.rest, BufferReader.rest, List.drop_drop]
  rfl

/-- Moving the cursor forward keeps the buffer that backs it. -/
theorem BufferReader.Backed.advance (h : r.Backed) (n : ℕ) : (r.advance n).Backed :=
  ⟨h.fits, h.backed⟩

/-- Bytes that are not there cannot be read: the check of the length throws. -/
theorem readTypeBuf_short (h : r.Backed) (hcur : r.cur ≤ r.bufLen) {size : ℕ}
    (hsize : size < 2 ^ 62) (hshort : r.rest.length < size) :
    readTypeBuf size r = .thrown .overflow r := by
  have hfits := h.fits
  rw [h.length_rest] at hshort
  have hmod : (r.cur + 0 + size) % 2 ^ 64 = r.cur + size := Nat.mod_eq_of_lt (by omega)
  refine bind_of_thrown ?_
  rw [peekTypeBuf, hmod, if_pos (by omega)]

/-- Bytes that are there are read, and the cursor moves behind them. -/
theorem readTypeBuf_enough (h : r.Backed) (hcur : r.cur ≤ r.bufLen) {size : ℕ}
    (hsize : size ≤ r.rest.length) :
    readTypeBuf size r = .ok (r.rest.take size) (r.advance size) := by
  have hat : At r (r.rest.take size ++ r.rest.drop size) := by
    rw [List.take_append_drop]
    exact h.at hcur
  exact hat.readTypeBuf (by rw [List.length_take, Nat.min_eq_left hsize])

/-- Some bytes behind the head, and a value made of them. -/
theorem measures_bytes (h : r.Backed) (hcur : r.cur ≤ r.bufLen) {size : ℕ} (hsize : size < 2 ^ 62)
    (f : Bytes → α) :
    match (some size).filter fun len => decide (len ≤ r.rest.length) with
    | some len => ∃ v, ((do let bs ← readTypeBuf size; pure (f bs)) : Decode α) r =
        .ok v (r.advance len)
    | none => ∃ e r', ((do let bs ← readTypeBuf size; pure (f bs)) : Decode α) r = .thrown e r' ∧
        e ≠ .invalidValue := by
  by_cases henough : size ≤ r.rest.length
  · rw [Option.filter_some, if_pos (by simpa using henough)]
    exact ⟨_, bind_of_ok (readTypeBuf_enough h hcur henough)⟩
  · rw [Option.filter_some, if_neg (by simpa using henough)]
    exact ⟨.overflow, r, bind_of_thrown (readTypeBuf_short h hcur hsize (by omega)), by decide⟩

/-- A payload without bytes is measured by a decoder that reads nothing. -/
theorem measures_nothing (v : α) :
    match (some 0).filter fun len => decide (len ≤ r.rest.length) with
    | some len => ∃ w, (pure v : Decode α) r = .ok w (r.advance len)
    | none => ∃ e r', (pure v : Decode α) r = .thrown e r' ∧ e ≠ .invalidValue := by
  rw [Option.filter_some, if_pos (by simp)]
  exact ⟨v, rfl⟩

/-- A head type that the type cannot hold is a mismatch, however many bytes follow. -/
theorem measures_mismatch :
    match (none : Option ℕ).filter fun len => decide (len ≤ r.rest.length) with
    | some len => ∃ v, (throw .mismatch : Decode α) r = .ok v (r.advance len)
    | none => ∃ e r', (throw .mismatch : Decode α) r = .thrown e r' ∧ e ≠ .invalidValue :=
  ⟨.mismatch, r, rfl, by decide⟩

/-- The decoder of an integer measures the payloads of the head types that it accepts. -/
theorem measures_integerBody (w : ℕ) : Measures (integerBody w) (intPayload w) := by
  intro type r h hcur
  cases type with
  | zeroTag => exact measures_nothing _
  | char => exact measures_bytes h hcur (by decide) _
  | short =>
    rw [intPayload, integerBody]
    by_cases hw : w < 16
    · rw [if_pos hw, if_pos hw]
      exact measures_mismatch
    · rw [if_neg hw, if_neg hw]
      exact measures_bytes h hcur (by decide) _
  | int32 =>
    rw [intPayload, integerBody]
    by_cases hw : w < 32
    · rw [if_pos hw, if_pos hw]
      exact measures_mismatch
    · rw [if_neg hw, if_neg hw]
      exact measures_bytes h hcur (by decide) _
  | int64 =>
    rw [intPayload, integerBody]
    by_cases hw : w < 64
    · rw [if_pos hw, if_pos hw]
      exact measures_mismatch
    · rw [if_neg hw, if_neg hw]
      exact measures_bytes h hcur (by decide) _
  | _ => exact measures_mismatch

/-- A single byte in memory holds its own number. -/
private theorem load_singleton (b : UInt8) : load [b] = b.toNat := by
  simp [load]

/-- Looking at a head finds the one at the front of the bytes that are left. -/
theorem peekFromHead_eq (h : r.Backed) (hcur : r.cur < r.bufLen) :
    peekFromHead r =
      match headAt r.rest with
      | some head => .ok head r
      | none => .thrown .overflow r := by
  have hat := h.at hcur.le
  have hlength := h.length_rest
  cases hrest : r.rest with
  | nil =>
    rw [hrest, List.length_nil] at hlength
    omega
  | cons b bs =>
    rw [hrest] at hat hlength
    have hone : At r ([b] ++ bs) := hat
    have hfirst : peekTypeBuf 0 1 r = .ok [b] r := hone.peekTypeBuf_zero List.length_singleton
    rw [peekFromHead, bind_of_ok hfirst, load_singleton, headAt]
    by_cases hlong : b.toNat / 16 = 15
    · rw [if_pos hlong, if_pos hlong]
      cases bs with
      | nil =>
        have hfits := h.fits
        have hmod : (r.cur + 1 + 1) % 2 ^ 64 = r.cur + 2 := Nat.mod_eq_of_lt (by omega)
        have hshort : peekTypeBuf 1 1 r = .thrown .overflow r := by
          rw [List.length_singleton] at hlength
          rw [peekTypeBuf, hmod, if_pos (by omega)]
        exact bind_of_thrown hshort
      | cons tag bs =>
        have htwo : At r ([b] ++ ([tag] ++ bs)) := hat
        have hsecond : peekTypeBuf 1 1 r = .ok [tag] r := htwo.peekTypeBuf List.length_singleton
        rw [bind_of_ok hsecond, load_singleton, UInt8.ofNat_toNat]
        rfl
    · rw [if_neg hlong, if_neg hlong]
      rfl

/-- A head that is found is within the bytes. -/
theorem headAt_le {head : Head} (h : headAt bs = some head) : head.len ≤ bs.length := by
  cases bs with
  | nil => cases h
  | cons b bs =>
    rw [headAt] at h
    split at h
    · obtain ⟨tag, htag, rfl⟩ := Option.map_eq_some_iff.mp h
      cases bs with
      | nil => cases htag
      | cons tag bs => simp
    · obtain rfl := Option.some.inj h
      simp

/-- **Finding the tag 0.** The field is at the front of the bytes that are left, or nowhere: nothing
is skipped, since no tag is less. -/
theorem tarsSkipToTag_zero (h : r.Backed) (rounds : ℕ) :
    tarsSkipToTag skip (rounds + 1) 0 r =
      match headAt r.rest with
      | some head =>
        if head.type = .structEnd ∨ head.tag ≠ 0 then .ok none r
        else .ok (some head.type) (r.advance head.len)
      | none => .ok none r := by
  have hlength := h.length_rest
  by_cases hend : r.hasEnd = true
  · have hcur : r.bufLen ≤ r.cur := by simpa [BufferReader.hasEnd] using hend
    rw [List.length_eq_zero_iff.mp (show r.rest.length = 0 by omega)]
    refine attempt_of_ok ?_
    rw [skipToTagLoop, bind_of_ok (ask_apply _ _), hend, if_pos rfl]
    rfl
  · have hcur : r.cur < r.bufLen := by
      rw [BufferReader.hasEnd, decide_eq_true_iff] at hend
      omega
    have hpeek := peekFromHead_eq h hcur
    have hloop : skipToTagLoop skip 0 (rounds + 1) r =
        (peekFromHead >>= fun head =>
          if head.type = .structEnd ∨ 0 < head.tag then pure none
          else if 0 = head.tag then do
            readHeadSkip head.len
            pure (some head.type)
          else do
            readHeadSkip head.len
            skip head.type
            skipToTagLoop skip 0 rounds) r := by
      rw [skipToTagLoop, bind_of_ok (ask_apply _ _), if_neg hend]
    cases hhead : headAt r.rest with
    | none =>
      rw [hhead] at hpeek
      rw [tarsSkipToTag, attempt, hloop, bind_of_thrown hpeek]
    | some head =>
      rw [hhead] at hpeek
      rw [bind_of_ok hpeek] at hloop
      have hpos : (0 : UInt8) < head.tag ↔ head.tag ≠ 0 := by
        rw [UInt8.lt_iff_toNat_lt, ne_eq, ← UInt8.toNat_inj]
        exact Nat.pos_iff_ne_zero
      by_cases hstop : head.type = .structEnd ∨ head.tag ≠ 0
      · dsimp only
        rw [if_pos hstop]
        refine attempt_of_ok (hloop.trans ?_)
        rw [if_pos (by rwa [hpos])]
        rfl
      · have hzero : head.tag = 0 := by
          by_contra hne
          exact hstop (.inr hne)
        have hat : At r (r.rest.take head.len ++ r.rest.drop head.len) := by
          rw [List.take_append_drop]
          exact h.at hcur.le
        dsimp only
        rw [if_neg hstop]
        refine attempt_of_ok (hloop.trans ?_)
        rw [if_neg (by rwa [hpos]), if_pos hzero.symm,
          bind_of_ok (hat.readHeadSkip (by rw [List.length_take, Nat.min_eq_left
            (headAt_le hhead)]))]
        rfl

/-- **A required field with the tag 0** is read exactly when it is at the front of the bytes that
are left. -/
theorem scans_readField {body : HeadType → Decode α} {payload : HeadType → Option ℕ}
    (hbody : Measures body payload) (hend : payload .structEnd = none) (rounds : ℕ) (old : α) :
    Scans (readField skip (rounds + 1) body old 0 true) (fieldAt payload) := by
  intro r h
  have hfound := @tarsSkipToTag_zero r skip h rounds
  have hmissing (hnone : tarsSkipToTag skip (rounds + 1) 0 r = .ok none r) :
      ∃ e r', readField skip (rounds + 1) body old 0 true r = .thrown e r' ∧
        e ≠ .invalidValue :=
    ⟨.requireNotExist, r, bind_of_ok hnone, by decide⟩
  rw [fieldAt]
  cases hhead : headAt r.rest with
  | none =>
    rw [hhead] at hfound
    exact hmissing hfound
  | some head =>
    have hle := headAt_le hhead
    have hlength := h.length_rest
    rw [hhead] at hfound
    rw [Option.bind_some]
    by_cases hzero : head.tag = 0
    · rw [if_pos hzero]
      by_cases hstruct : head.type = .structEnd
      · rw [hstruct, hend]
        exact hmissing (hfound.trans (if_pos (.inl hstruct)))
      · have hread : readField skip (rounds + 1) body old 0 true r =
            body head.type (r.advance head.len) :=
          bind_of_ok (hfound.trans (if_neg (not_or.mpr ⟨hstruct, not_not.mpr hzero⟩)))
        have hcur : r.cur ≤ r.bufLen := by
          by_contra hpast
          rw [List.length_eq_zero_iff.mp (show r.rest.length = 0 by omega)] at hhead
          cases hhead
        have hmeasure := hbody head.type (r.advance head.len) (h.advance head.len) (by
          rw [BufferReader.cur_advance, BufferReader.bufLen_advance]
          omega)
        rw [rest_advance, List.length_drop] at hmeasure
        rw [hread]
        cases hpayload : payload head.type with
        | none =>
          rw [hpayload] at hmeasure
          exact hmeasure
        | some size =>
          rw [hpayload, Option.filter_some] at hmeasure
          rw [Option.map_some, Option.filter_some]
          by_cases henough : size ≤ r.rest.length - head.len
          · rw [if_pos (by simpa using henough)] at hmeasure
            rw [if_pos (by rw [decide_eq_true_iff]; omega)]
            obtain ⟨v, hv⟩ := hmeasure
            exact ⟨v, by rw [hv, BufferReader.advance_advance]⟩
          · rw [if_neg (by simpa using henough)] at hmeasure
            rw [if_neg (by rw [decide_eq_true_iff]; omega)]
            exact hmeasure
    · rw [if_neg hzero]
      exact hmissing (hfound.trans (if_pos (.inr hzero)))

/-- Making another value of what was read takes as many bytes, and fails in the same cases. -/
theorem Scans.map {m : Decode α} {scan : Bytes → Option ℕ} (h : Scans m scan) (f : α → β) :
    Scans (do let v ← m; pure (f v)) scan := by
  intro r hr
  have hm := h r hr
  cases hscan : scan r.rest with
  | some len =>
    rw [hscan] at hm
    obtain ⟨v, hv⟩ := hm
    exact ⟨f v, bind_of_ok hv⟩
  | none =>
    rw [hscan] at hm
    obtain ⟨e, r', hthrown, hne⟩ := hm
    exact ⟨e, r', bind_of_thrown hthrown, hne⟩

/-- An integer of some width is scanned: it takes its head and the payload that the head announces.
-/
theorem scans_integer (w rounds : ℕ) (old : BitVec w) :
    Scans (readField skip (rounds + 1) (integerBody w) old 0 true) (fieldAt (intPayload w)) :=
  scans_readField (measures_integerBody w) rfl rounds old

/-- **Scalars are read where scanning finds them.** So the condition on a scalar can be stated on
the bytes, without the reader. -/
theorem scans_read {types : Codegen} {guard : Bool} {fuel : ℕ} {t : Ty} (ht : t.Scalar)
    (old : t.denote) : Scans (read types guard (fuel + 1) t old 0 true) (scalarAt t) := by
  cases t with
  | bool => exact (scans_integer 8 fuel _).map _
  | int k =>
    cases k with
    | char => exact scans_integer 8 fuel old
    | short => exact scans_integer 16 fuel old
    | int32 => exact scans_integer 32 fuel old
    | int64 => exact scans_integer 64 fuel old
    | uint8 => exact (scans_integer 16 fuel _).map _
    | uint16 => exact (scans_integer 32 fuel _).map _
    | uint32 => exact (scans_integer 64 fuel _).map _
  | float =>
    refine scans_readField (fun type r h hcur => ?_) rfl fuel old
    cases type with
    | zeroTag => exact measures_nothing _
    | float => exact measures_bytes h hcur (by decide) _
    | _ => exact measures_mismatch
  | double =>
    refine scans_readField (fun type r h hcur => ?_) rfl fuel old
    cases type with
    | zeroTag => exact measures_nothing _
    | float => exact measures_bytes h hcur (by decide) _
    | double => exact measures_bytes h hcur (by decide) _
    | _ => exact measures_mismatch
  | string | bytes | vector | map | struct => exact ht.elim

end Scanning

end Tars
