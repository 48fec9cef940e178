import Tars.Tup.Encoding
import Tars.Tup.Input

/-!
# Reading what is at the cursor

`At r bs` says that the bytes `bs` are those from the cursor to the end of what can be read. What
is read from the front of them is taken off, so that facts about single reads compose.
-/

namespace Tars

open LittleEndian Decoding TarsOutputStream TarsInputStream

/-- The reader whose cursor has moved forward by some bytes. -/
def BufferReader.advance (r : BufferReader) (n : ℕ) : BufferReader := { r with cur := r.cur + n }

@[simp] theorem BufferReader.advance_advance (r : BufferReader) (m n : ℕ) :
    (r.advance m).advance n = r.advance (m + n) := by
  simp only [advance, Nat.add_assoc]

@[simp] theorem BufferReader.bufLen_advance (r : BufferReader) (n : ℕ) :
    (r.advance n).bufLen = r.bufLen := rfl

@[simp] theorem BufferReader.cur_advance (r : BufferReader) (n : ℕ) :
    (r.advance n).cur = r.cur + n := rfl

/-- These bytes are at the cursor, and no others can be read. -/
structure At (r : BufferReader) (bs : Bytes) : Prop where
  /-- The length of the buffer is that of an object. -/
  fits : r.bufLen < 2 ^ 63
  /-- The cursor is in the buffer. -/
  inside : r.cur ≤ r.bufLen ∧ r.cur ≤ r.buf.length
  /-- The bytes between the cursor and the end of the buffer. -/
  bytes : (r.buf.take r.bufLen).drop r.cur = bs

namespace At

variable {r : BufferReader} {bs front rest : Bytes}

/-- Bytes that stand at the cursor reach no further than the buffer and its stated length do. -/
theorem cur_add (h : At r bs) : r.cur + bs.length = min r.bufLen r.buf.length := by
  have hlength := congrArg List.length h.bytes
  have hinside := h.inside
  rw [List.length_drop, List.length_take] at hlength
  omega

/-- Bytes that stand at the cursor end within the stated length of the buffer. -/
theorem cur_add_le (h : At r bs) : r.cur + bs.length ≤ r.bufLen := by
  have hcur := h.cur_add
  omega

/-- Once the bytes at the front are passed, those behind them stand at the cursor. -/
theorem advance (h : At r (front ++ rest)) : At (r.advance front.length) rest := by
  have hcur := h.cur_add
  rw [List.length_append] at hcur
  refine ⟨h.fits, ⟨?_, ?_⟩, ?_⟩
  · show r.cur + front.length ≤ r.bufLen
    omega
  · show r.cur + front.length ≤ r.buf.length
    omega
  · show (r.buf.take r.bufLen).drop (r.cur + front.length) = rest
    rw [← List.drop_drop, h.bytes, List.drop_left]

/-- A new buffer is read from its start, with all its bytes in front of the cursor. -/
theorem setBuffer (hfits : bs.length < 2 ^ 63) : At (.setBuffer bs bs.length) bs :=
  ⟨hfits, ⟨Nat.zero_le _, Nat.zero_le _⟩, by simp [BufferReader.setBuffer]⟩

/-- While there are bytes the buffer has not ended. -/
theorem hasEnd_eq (h : At r bs) (hne : bs ≠ []) : r.hasEnd = false := by
  have hcur := h.cur_add_le
  have hpos : 0 < bs.length := List.length_pos_iff.mpr hne
  rw [BufferReader.hasEnd, decide_eq_false_iff_not]
  omega

/-- Peeking with an offset returns the bytes that stand behind a front of that length. -/
theorem peekTypeBuf {size : ℕ} (h : At r (front ++ (bs ++ rest))) (hsize : bs.length = size) :
    TarsInputStream.peekTypeBuf front.length size r = .ok bs r := by
  subst hsize
  have hfits := h.fits
  have hcur := h.cur_add
  rw [List.length_append, List.length_append] at hcur
  have hmod : (r.cur + front.length + bs.length) % 2 ^ 64 = r.cur + front.length + bs.length :=
    Nat.mod_eq_of_lt (by omega)
  have hbytes : (r.buf.drop (r.cur + front.length)).take bs.length = bs := by
    have hdrop : (r.buf.take r.bufLen).drop (r.cur + front.length) = bs ++ rest :=
      h.advance.bytes
    have htake := congrArg (List.take bs.length) hdrop
    rw [List.take_left, List.drop_take, List.take_take] at htake
    rwa [Nat.min_eq_left (by omega)] at htake
  rw [TarsInputStream.peekTypeBuf, hmod, if_neg (by omega), if_pos (by omega), hbytes]

/-- Moving the cursor over the bytes that stand there never runs out of the buffer. -/
theorem readHeadSkip {len : ℕ} (h : At r (bs ++ rest)) (hlen : bs.length = len) :
    TarsInputStream.readHeadSkip len r = .ok () (r.advance len) := by
  subst hlen
  have hfits := h.fits
  have hcur := h.cur_add_le
  rw [List.length_append] at hcur
  have hmod : (r.cur + bs.length) % 2 ^ 64 = r.cur + bs.length := Nat.mod_eq_of_lt (by omega)
  have hforward : decide (2 ^ 63 ≤ bs.length) = false := by
    rw [decide_eq_false_iff_not]
    omega
  rw [TarsInputStream.readHeadSkip, hmod, hforward, Bool.or_false]
  rfl

/-- Looking at the bytes at the cursor leaves the cursor where it is. -/
theorem peekTypeBuf_zero {size : ℕ} (h : At r (bs ++ rest)) (hsize : bs.length = size) :
    TarsInputStream.peekTypeBuf 0 size r = .ok bs r := by
  have hfront : At r ([] ++ (bs ++ rest)) := h
  exact hfront.peekTypeBuf hsize

/-- Reading as many bytes as stand at the cursor returns them and moves the cursor behind them. -/
theorem readTypeBuf {size : ℕ} (h : At r (bs ++ rest)) (hsize : bs.length = size) :
    TarsInputStream.readTypeBuf size r = .ok bs (r.advance size) := by
  rw [TarsInputStream.readTypeBuf, bind_of_ok (h.peekTypeBuf_zero hsize),
    bind_of_ok (h.readHeadSkip hsize)]
  rfl

/-- Reading the bytes of a vector returns those at the cursor, since they lie in the buffer. -/
theorem readBuf {len : ℕ} (h : At r (bs ++ rest)) (hlen : bs.length = len) :
    TarsInputStream.readBuf len r = .ok bs (r.advance len) := by
  have hfits := h.fits
  have hcur := h.cur_add_le
  rw [List.length_append] at hcur
  have hmod : (r.cur + len) % 2 ^ 64 = r.cur + len := Nat.mod_eq_of_lt (by omega)
  have hdecide : decide (len ≤ r.bufLen ∧ (r.cur + len) % 2 ^ 64 ≤ r.bufLen) = true := by
    rw [hmod, decide_eq_true_iff]
    omega
  rw [TarsInputStream.readBuf, bind_of_ok (ask_apply _ _), hdecide, if_pos rfl]
  exact h.readTypeBuf hlen

end At

/-! ### Heads -/

/-- The length of a field's head: tags from 15 on take a byte of their own. -/
def headLen (tag : UInt8) : ℕ := if tag < 15 then 1 else 2

@[simp] theorem length_writeToHead (type : HeadType) (tag : UInt8) :
    (writeToHead type tag).length = headLen tag := by
  rw [writeToHead, headLen]
  split <;> rfl

theorem headLen_pos (tag : UInt8) : 0 < headLen tag := by
  rw [headLen]
  split <;> decide

/-- A head has at most two bytes: the second one is there for tags from 15 on. -/
theorem headLen_le (tag : UInt8) : headLen tag ≤ 2 := by
  rw [headLen]
  split <;> decide

/-- A single byte in memory holds the number it was made from. -/
private theorem load_byte {n : ℕ} (hn : n < 256) : load [UInt8.ofNat n] = n := by
  rw [load, load, UInt8.toNat_ofNat']
  omega

namespace At

variable {r : BufferReader} {type : HeadType} {tag : UInt8} {rest : Bytes}

/-- Looking at a head that was written returns its type, tag and length and moves nothing. -/
theorem peekFromHead (h : At r (writeToHead type tag ++ rest)) :
    TarsInputStream.peekFromHead r = .ok ⟨type, tag, headLen tag⟩ r := by
  have hcode := type.code_lt
  by_cases hshort : tag < 15
  · have htag : tag.toNat < 15 := hshort
    rw [writeToHead, if_pos hshort] at h
    have hload : load [UInt8.ofNat (type.code + tag.toNat * 16)] = type.code + tag.toNat * 16 :=
      load_byte (by omega)
    have htype : (type.code + tag.toNat * 16) % 16 = type.code := by omega
    have hquot : (type.code + tag.toNat * 16) / 16 = tag.toNat := by omega
    rw [TarsInputStream.peekFromHead, bind_of_ok (h.peekTypeBuf_zero List.length_singleton),
      hload, htype, hquot, if_neg (by omega), HeadType.ofCode_code, headLen, if_pos hshort,
      UInt8.ofNat_toNat]
    rfl
  · rw [writeToHead, if_neg hshort] at h
    have hload : load [UInt8.ofNat (type.code + 240)] = type.code + 240 := load_byte (by omega)
    have htype : (type.code + 240) % 16 = type.code := by omega
    have hquot : (type.code + 240) / 16 = 15 := by omega
    have hfirst : At r ([UInt8.ofNat (type.code + 240)] ++ ([tag] ++ rest)) := h
    have hsecond : TarsInputStream.peekTypeBuf 1 1 r = .ok [tag] r :=
      hfirst.peekTypeBuf List.length_singleton
    have htag : load [tag] = tag.toNat := by simp [load]
    rw [TarsInputStream.peekFromHead, bind_of_ok (hfirst.peekTypeBuf_zero List.length_singleton),
      hload, htype, hquot, if_pos rfl, bind_of_ok hsecond, htag, HeadType.ofCode_code, headLen,
      if_neg hshort,
      UInt8.ofNat_toNat]
    rfl

/-- Reading a head that was written returns its type, tag and length and moves the cursor behind it.
-/
theorem readFromHead (h : At r (writeToHead type tag ++ rest)) :
    TarsInputStream.readFromHead r =
      .ok ⟨type, tag, headLen tag⟩ (r.advance (headLen tag)) := by
  rw [TarsInputStream.readFromHead, bind_of_ok h.peekFromHead,
    bind_of_ok (h.readHeadSkip (length_writeToHead type tag))]
  rfl

/-- Reading a head without its tag returns its type and moves the cursor behind the whole head. -/
theorem readFromHeadNoTag (h : At r (writeToHead type tag ++ rest)) :
    TarsInputStream.readFromHeadNoTag r = .ok type (r.advance (headLen tag)) := by
  have hcode := type.code_lt
  have hskip := h.readHeadSkip (length_writeToHead type tag)
  by_cases hshort : tag < 15
  · have htag : tag.toNat < 15 := hshort
    rw [headLen, if_pos hshort] at hskip ⊢
    rw [writeToHead, if_pos hshort] at h
    have hload : load [UInt8.ofNat (type.code + tag.toNat * 16)] = type.code + tag.toNat * 16 :=
      load_byte (by omega)
    have htype : (type.code + tag.toNat * 16) % 16 = type.code := by omega
    rw [TarsInputStream.readFromHeadNoTag, bind_of_ok (h.peekTypeBuf_zero List.length_singleton),
      hload, htype, if_neg (by omega), HeadType.ofCode_code, bind_of_ok hskip]
    rfl
  · rw [headLen, if_neg hshort] at hskip ⊢
    rw [writeToHead, if_neg hshort] at h
    have hload : load [UInt8.ofNat (type.code + 240)] = type.code + 240 := load_byte (by omega)
    have htype : (type.code + 240) % 16 = type.code := by omega
    have hfirst : At r ([UInt8.ofNat (type.code + 240)] ++ ([tag] ++ rest)) := h
    have hsecond : TarsInputStream.peekTypeBufNoTag 1 1 r = .ok () r := by
      have hfits := h.fits
      have hcur := h.cur_add_le
      simp only [List.cons_append, List.nil_append, List.length_cons] at hcur
      rw [TarsInputStream.peekTypeBufNoTag, if_neg (by omega)]
    rw [TarsInputStream.readFromHeadNoTag,
      bind_of_ok (hfirst.peekTypeBuf_zero List.length_singleton), hload, htype, if_pos (by omega),
      HeadType.ofCode_code, bind_of_ok hsecond, bind_of_ok hskip]
    rfl

end At

/-! ### What a decoder reads -/

/-- A decoder that takes these bytes off the front, whatever follows them, and delivers this
value. -/
def Reads {α : Type} (m : Decode α) (bs : Bytes) (v : α) : Prop :=
  ∀ r rest, At r (bs ++ rest) → m r = .ok v (r.advance bs.length)

namespace Reads

variable {α β : Type} {m : Decode α} {f : α → Decode β} {bs cs : Bytes} {v : α} {w : β}

/-- Returning a value reads no bytes, which ends every sequence of reads. -/
theorem pure (v : α) : Reads (Pure.pure v) [] v := fun _ _ _ => rfl

/-- One decoder after the other reads the bytes of the first and then those of the second. -/
theorem bind (hm : Reads m bs v) (hf : Reads (f v) cs w) : Reads (m >>= f) (bs ++ cs) w := by
  intro r rest h
  rw [List.append_assoc] at h
  rw [bind_of_ok (hm r _ h), hf _ _ h.advance, BufferReader.advance_advance, List.length_append]

/-- The value is converted after it has been read. -/
theorem map (hm : Reads m bs v) (g : α → β) : Reads (m >>= fun v => Pure.pure (g v)) bs (g v) := by
  have h : Reads (m >>= fun v => Pure.pure (g v)) (bs ++ []) (g v) := hm.bind (pure (g v))
  rwa [List.append_nil] at h

/-- Reading as many bytes as there are returns exactly them. -/
theorem readTypeBuf {size : ℕ} (hsize : bs.length = size) :
    Reads (TarsInputStream.readTypeBuf size) bs bs := by
  intro r rest h
  rw [h.readTypeBuf hsize, hsize]

/-- The bytes of a vector are read in one piece, as they stand in the buffer. -/
theorem readBuf {len : ℕ} (hlen : bs.length = len) :
    Reads (TarsInputStream.readBuf len) bs bs := by
  intro r rest h
  rw [h.readBuf hlen, hlen]

/-- Skipping as many bytes as there are reads them and returns nothing. -/
theorem readHeadSkip {len : ℕ} (hlen : bs.length = len) :
    Reads (TarsInputStream.readHeadSkip len) bs () := by
  intro r rest h
  rw [h.readHeadSkip hlen, hlen]

/-- Reading a head reads exactly the bytes that `writeToHead` writes. -/
theorem readFromHead (type : HeadType) (tag : UInt8) :
    Reads TarsInputStream.readFromHead (writeToHead type tag) ⟨type, tag, headLen tag⟩ := by
  intro r rest h
  rw [h.readFromHead, length_writeToHead]

/-- A head is read without its tag, but the cursor passes both its bytes. -/
theorem readFromHeadNoTag (type : HeadType) (tag : UInt8) :
    Reads TarsInputStream.readFromHeadNoTag (writeToHead type tag) type := by
  intro r rest h
  rw [h.readFromHeadNoTag, length_writeToHead]

end Reads

end Tars
