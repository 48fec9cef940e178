import Tars.Library.Framing
import Tars.Tup.TarsType

/-!
# Packet extraction

The parsers of `AppProtocol` take one packet off the front of what has been received. Both are
rules in the sense of `Framing`, so the packets do not depend on how the stream was cut.
-/

namespace Tars

open LittleEndian

/-- A type of a length field: an integer type of 1, 2 or 4 bytes. -/
structure LengthType where
  /-- The integer type that the parser is instantiated with. -/
  kind : IntKind
  /-- It is not wider than 4 bytes. -/
  narrow : kind.width ≤ 32

/-- `sizeof(T)`, the number of bytes that the length field occupies. -/
def LengthType.size (T : LengthType) : ℕ := T.kind.width / 8

/-- Whether a length type can hold the length of a frame that ends with the length. -/
def LengthType.Covers (T : LengthType) (offset : ℕ) : Prop :=
  offset + T.size < 2 ^ (if T.kind.signed then T.kind.width - 1 else T.kind.width)

/-- `net2host`, which switches on `sizeof(T)`: a type of 8 bytes meets no case and the function
returns 0. -/
def net2host : (k : IntKind) → BitVec k.width → BitVec k.width
  | .char | .uint8 => fun len => len
  | .short | .uint16 => htons
  | .int32 | .uint32 => htonl
  | .int64 => fun _ => 0

namespace AppProtocol

/-- What one call of a parser leaves: its answer, what remains of the input, and the output string.
-/
structure Parsed where
  /-- The return code: 0 to wait, 1 for a packet, -1 for an error. -/
  code : ℤ
  /-- `in`. -/
  input : Bytes
  /-- `out`. -/
  output : Bytes
  deriving DecidableEq

/-- The length in front of a packet, as `parseLen` reads it. -/
def headerLen (input : Bytes) : ℤ := (htonl (BitVec.ofNat 32 (load (input.take 4)))).toInt

/-- `parseLen`, which cuts a frame whose first four bytes hold its length and drops these bytes. -/
def parseLen (iMaxLength : ℤ) (input output : Bytes) : Parsed :=
  if input.length < 4 then ⟨0, input, output⟩
  else
    let iHeaderLen := headerLen input
    if iHeaderLen < 4 ∨ iHeaderLen > iMaxLength then ⟨-1, input, output⟩
    else if toInt32 input.length < iHeaderLen then ⟨0, input, output⟩
    else ⟨1, input.drop iHeaderLen.toNat, (input.drop 4).take (iHeaderLen.toNat - 4)⟩

/-- `parse`, which is `parseLen` with a limit of 10000000 bytes. -/
def parse : Bytes → Bytes → Parsed := parseLen 10000000

/-- The length in front of a packet, as `parseStream` reads it. -/
def streamHeaderLen (offset : ℕ) (T : LengthType) (netorder : Bool) (input : Bytes) : ℤ :=
  let iHeaderLen := BitVec.ofNat T.kind.width (load ((input.drop offset).take T.size))
  T.kind.toInt (if netorder then net2host T.kind iHeaderLen else iHeaderLen)

/-- `parseStream`, which cuts a frame whose length field of type `T` stands `offset` bytes behind
its start. -/
def parseStream (offset : ℕ) (T : LengthType) (netorder : Bool) (input output : Bytes) : Parsed :=
  if input.length < (offset + T.size) % 2 ^ 64 then ⟨0, input, output⟩
  else
    let iHeaderLen := streamHeaderLen offset T netorder input
    if iHeaderLen < T.kind.toInt (BitVec.ofNat T.kind.width (offset + T.size)) ∨
        toUInt32 iHeaderLen > 100000000 then ⟨-1, input, output⟩
    else if input.length < toUInt32 iHeaderLen then ⟨0, input, output⟩
    else ⟨1, input.drop iHeaderLen.toNat, input.take iHeaderLen.toNat⟩

/-! ### The caller -/

/-- The variables of a caller that receives a stream. -/
structure Receiver where
  /-- `in`. -/
  input : Bytes
  /-- `out`. -/
  output : Bytes
  /-- The packets that were extracted so far, the first one first. -/
  packets : List Bytes
  /-- The last return code, with which the loop of the caller has ended. -/
  code : ℤ
  deriving DecidableEq

/-- Call the parser until it does not return `1`. -/
def extract (parser : Bytes → Bytes → Parsed) : ℕ → Receiver → Option Receiver
  | 0, _ => none
  | fuel + 1, s =>
    let r := parser s.input s.output
    if r.code = 1 then extract parser fuel ⟨r.input, r.output, s.packets ++ [r.output], r.code⟩
    else some ⟨r.input, r.output, s.packets, r.code⟩

/-- Append a chunk to `in` and extract all the packets that are complete now. -/
def feed (parser : Bytes → Bytes → Parsed) (fuel : ℕ) (s : Receiver) (chunk : Bytes) :
    Option Receiver :=
  extract parser fuel { s with input := s.input ++ chunk }

/-- The state before anything has been received, with some old text in the output string. -/
def start (output : Bytes) : Receiver := ⟨[], output, [], 0⟩

/-! ### Parsers and rules -/

/-- What a parser does by a verdict: it returns 0 to wait, -1 to reject, or 1 with the packet. -/
def answer (input output : Bytes) : Framing.Verdict Bytes → Parsed
  | .wait => ⟨0, input, output⟩
  | .reject => ⟨-1, input, output⟩
  | .frame n packet => ⟨1, input.drop n, packet⟩

/-- A parser follows a rule when it answers as the rule decides on every input below the rule's
bound. -/
def Follows (parser : Bytes → Bytes → Parsed) (R : Framing.Rule UInt8 Bytes) : Prop :=
  ∀ input output, input.length < R.bound →
    parser input output = answer input output (R.decide input)

/-- The variables of the caller by the state of the stream. -/
def receiver (output : Bytes) (s : Framing.State UInt8 Bytes) : Receiver :=
  ⟨s.rest, s.packets.getLastD output, s.packets, if s.rejected then -1 else 0⟩

section Follows

variable {parser : Bytes → Bytes → Parsed} {R : Framing.Rule UInt8 Bytes} {output : Bytes}

/-- The loop of the caller drains its input: it takes all the frames that the rule finds and leaves
what waits for more. -/
theorem extract_eq (h : Follows parser R) (output : Bytes) {input : Bytes}
    (hbound : input.length < R.bound) {fuel : ℕ} (hfuel : input.length < fuel)
    (packets : List Bytes) (code : ℤ) :
    extract parser fuel ⟨input, packets.getLastD output, packets, code⟩ =
      some (receiver output (R.drain packets input)) := by
  induction input using R.induction generalizing fuel packets code with
  | wait input hwait =>
    obtain ⟨fuel, rfl⟩ := Nat.exists_eq_add_one_of_ne_zero (Nat.ne_of_gt (Nat.zero_lt_of_lt hfuel))
    have hparse := h input (packets.getLastD output) hbound
    rw [hwait, answer] at hparse
    rw [extract, hparse, Framing.Rule.drain_wait hwait]
    exact if_neg (by decide : ¬(0 : ℤ) = 1)
  | reject input hreject =>
    obtain ⟨fuel, rfl⟩ := Nat.exists_eq_add_one_of_ne_zero (Nat.ne_of_gt (Nat.zero_lt_of_lt hfuel))
    have hparse := h input (packets.getLastD output) hbound
    rw [hreject, answer] at hparse
    rw [extract, hparse, Framing.Rule.drain_reject hreject]
    exact if_neg (by decide : ¬(-1 : ℤ) = 1)
  | frame input n packet hframe ih =>
    obtain ⟨fuel, rfl⟩ := Nat.exists_eq_add_one_of_ne_zero (Nat.ne_of_gt (Nat.zero_lt_of_lt hfuel))
    have hpos := R.pos hframe
    have hle := R.le hframe
    have hparse := h input (packets.getLastD output) hbound
    rw [hframe, answer] at hparse
    have hlast : (packets ++ [packet]).getLastD output = packet := List.getLastD_concat
    have hshorter : (input.drop n).length < fuel := by
      rw [List.length_drop]
      omega
    have hdrop := ih (by rw [List.length_drop]; omega) hshorter (packets ++ [packet]) 1
    rw [hlast] at hdrop
    rw [extract, hparse, if_pos rfl, Framing.Rule.drain_frame hframe]
    exact hdrop

/-- Feeding a chunk to a parser that follows a rule does what feeding it to the rule does. -/
theorem feed_eq (h : Follows parser R) {s : Framing.State UInt8 Bytes} {chunk : Bytes} {fuel : ℕ}
    (hbound : (s.rest ++ chunk).length < R.bound) (hfuel : (s.rest ++ chunk).length < fuel) :
    feed parser fuel (receiver output s) chunk = some (receiver output (R.feed s chunk)) :=
  extract_eq h output hbound hfuel s.packets _

/-- Feeding chunks one after the other to a parser that follows a rule does what feeding them to the
rule does. -/
theorem feed_chunks (h : Follows parser R) {fuel : ℕ} (chunks : List Bytes) :
    ∀ s : Framing.State UInt8 Bytes, (s.rest ++ chunks.flatten).length < R.bound →
      (s.rest ++ chunks.flatten).length < fuel →
        chunks.foldlM (feed parser fuel) (receiver output s) =
          some (receiver output (chunks.foldl R.feed s)) := by
  induction chunks with
  | nil => exact fun _ _ _ => rfl
  | cons chunk chunks ih =>
    intro s hbound hfuel
    rw [List.flatten_cons, ← List.append_assoc, List.length_append] at hbound hfuel
    have hrest : (R.feed s chunk).rest.length ≤ (s.rest ++ chunk).length :=
      Framing.Rule.length_rest_le
    rw [List.foldlM_cons, feed_eq h (by omega) (by omega), List.foldl_cons]
    refine ih (R.feed s chunk) ?_ ?_ <;> rw [List.length_append] <;> omega

/-- **The chunks do not matter** to a parser that follows a rule. -/
theorem feed_independent (h : Follows parser R) (output : Bytes) (chunks : List Bytes) {fuel : ℕ}
    (hbound : chunks.flatten.length < R.bound) (hfuel : chunks.flatten.length < fuel) :
    chunks.foldlM (feed parser fuel) (start output) =
      some (receiver output (R.feed Framing.Rule.start chunks.flatten)) := by
  rw [← R.feed_chunks hbound]
  exact feed_chunks h chunks Framing.Rule.start (by simpa [Framing.Rule.start] using hbound)
    (by simpa [Framing.Rule.start] using hfuel)

end Follows

/-! ### The rules of the parsers -/

/-- What a parser has to do with streams: the chunks do not matter, a return code of `1` takes a
packet off the front behind some stripped bytes, and any other leaves everything. -/
structure Segments (parser : Bytes → Bytes → Parsed) (stripped : ℕ) : Prop where
  /-- Feeding in chunks ends as feeding at once. -/
  independent (output : Bytes) {chunks : List Bytes} {fuel : ℕ} :
    chunks.flatten.length < 2 ^ 31 → chunks.flatten.length < fuel →
      ∃ s, chunks.foldlM (feed parser fuel) (start output) = some s ∧
        [chunks.flatten].foldlM (feed parser fuel) (start output) = some s
  /-- What a single call does. -/
  answers {input : Bytes} (output : Bytes) : input.length < 2 ^ 31 →
    ((parser input output).code = 1 ∧ (parser input output).input.length < input.length ∧
      input.take stripped ++ (parser input output).output ++ (parser input output).input = input) ∨
    (((parser input output).code = 0 ∨ (parser input output).code = -1) ∧
      (parser input output).input = input ∧ (parser input output).output = output)

/-- A parser that follows a rule whose packets are the frames without the stripped bytes. -/
theorem Follows.takesApart {parser : Bytes → Bytes → Parsed} {R : Framing.Rule UInt8 Bytes}
    {stripped : ℕ} (h : Follows parser R) (hbound : R.bound = 2 ^ 31)
    (hpacket : ∀ {input n packet}, R.decide input = .frame n packet →
      input.take stripped ++ packet = input.take n) : Segments parser stripped where
  independent output chunks fuel hlength hfuel := by
    rw [← hbound] at hlength
    refine ⟨_, feed_independent h output chunks hlength hfuel, ?_⟩
    have hone : [chunks.flatten].flatten = chunks.flatten := by
      rw [List.flatten_cons, List.flatten_nil, List.append_nil]
    have hwhole := feed_independent h output [chunks.flatten]
      (by rwa [hone]) (show [chunks.flatten].flatten.length < fuel by rwa [hone])
    rwa [hone] at hwhole
  answers {input} output hlength := by
    have hparse := h input output (by rwa [hbound])
    cases hverdict : R.decide input with
    | wait =>
      rw [hverdict, answer] at hparse
      rw [hparse]
      exact .inr ⟨.inl rfl, rfl, rfl⟩
    | reject =>
      rw [hverdict, answer] at hparse
      rw [hparse]
      exact .inr ⟨.inr rfl, rfl, rfl⟩
    | frame n packet =>
      have hpos := R.pos hverdict
      have hle := R.le hverdict
      rw [hverdict, answer] at hparse
      rw [hparse]
      refine .inl ⟨rfl, ?_, ?_⟩
      · show (input.drop n).length < input.length
        rw [List.length_drop]
        omega
      · show input.take stripped ++ packet ++ input.drop n = input
        rw [hpacket hverdict, List.take_append_drop]

/-- How `parseLen` finds the packets of a stream, as a prefix that tells each packet's size. -/
def lenPrefix (iMaxLength : ℤ) : Framing.Prefix UInt8 where
  header := 4
  stripped := 4
  size header :=
    if headerLen header < 4 ∨ headerLen header > iMaxLength then none
    else some (headerLen header).toNat
  header_pos := by decide
  size_pos {_ _} h := by
    split at h
    · cases h
    · cases h
      omega
  stripped_le {_ _} h := by
    split at h
    · cases h
    · cases h
      omega

@[simp] theorem lenPrefix_header (iMaxLength : ℤ) : (lenPrefix iMaxLength).header = 4 := rfl

@[simp] theorem lenPrefix_stripped (iMaxLength : ℤ) : (lenPrefix iMaxLength).stripped = 4 := rfl

theorem lenPrefix_size (iMaxLength : ℤ) (header : Bytes) : (lenPrefix iMaxLength).size header =
    if headerLen header < 4 ∨ headerLen header > iMaxLength then none
    else some (headerLen header).toNat := rfl

/-- The length is in the first four bytes, so what follows does not matter to it. -/
theorem headerLen_take (input : Bytes) : headerLen (input.take 4) = headerLen input := by
  rw [headerLen, List.take_take, Nat.min_self, headerLen]

/-- A parser that follows the rule for a length in front. -/
private theorem follows_prefix {parser : Bytes → Bytes → Parsed} {P : Framing.Prefix UInt8}
    {bound : ℕ} (h : ∀ input output, input.length < bound → parser input output =
      if input.length < P.header then ⟨0, input, output⟩
      else (P.size (input.take P.header)).elim ⟨-1, input, output⟩ fun n =>
        if input.length < n then ⟨0, input, output⟩
        else ⟨1, input.drop n, (input.take n).drop P.stripped⟩) :
    Follows parser (P.rule bound) := by
  intro input output hbound
  show parser input output = answer input output (P.verdict input)
  rw [h input output hbound, Framing.Prefix.verdict]
  by_cases hheader : input.length < P.header
  · rw [if_pos hheader, if_pos hheader, answer]
  rw [if_neg hheader, if_neg hheader]
  cases P.size (input.take P.header) with
  | none => rfl
  | some n =>
    show _ = answer input output (if input.length < n then .wait else .frame n _)
    rw [Option.elim_some, apply_ite (answer input output), answer, answer]

/-- `parseLen` follows the rule of its prefix, on inputs whose length fits an `int`. -/
theorem parseLen_follows (iMaxLength : ℤ) :
    Follows (parseLen iMaxLength) ((lenPrefix iMaxLength).rule (2 ^ 31)) := by
  apply follows_prefix
  intro input output hbound
  simp only [parseLen, lenPrefix_header, lenPrefix_stripped, lenPrefix_size, headerLen_take,
    toInt32_of_lt hbound]
  by_cases hmalformed : headerLen input < 4 ∨ headerLen input > iMaxLength
  · rw [if_pos hmalformed, if_pos hmalformed, Option.elim_none]
  have hpart : (input.length : ℤ) < headerLen input ↔ input.length < (headerLen input).toNat := by
    omega
  rw [if_neg hmalformed, if_neg hmalformed, Option.elim_some, List.drop_take]
  simp only [hpart]

/-! ### `parseStream` -/

/-- The values of a type that is at most 32 bits wide stay below 2^32. -/
private theorem toInt_lt (T : LengthType) (n : BitVec T.kind.width) : T.kind.toInt n < 2 ^ 32 := by
  have hpow : (2 : ℤ) ^ T.kind.width ≤ 2 ^ 32 := pow_le_pow_right₀ (by decide) T.narrow
  have hhalf : (2 : ℤ) ^ (T.kind.width - 1) ≤ 2 ^ T.kind.width :=
    pow_le_pow_right₀ (by decide) (Nat.sub_le _ _)
  have hhi := n.toInt_lt
  have hnat : (n.toNat : ℤ) < 2 ^ T.kind.width := by exact_mod_cast n.isLt
  rw [IntKind.toInt]
  split <;> omega

/-- The length in front of a packet is below `2 ^ 32`. -/
theorem streamHeaderLen_lt (offset : ℕ) (T : LengthType) (netorder : Bool) (input : Bytes) :
    streamHeaderLen offset T netorder input < 2 ^ 32 := toInt_lt T _

/-- A total length that the type covers is read back unchanged. -/
private theorem toInt_ofNat {T : LengthType} {offset : ℕ} (h : T.Covers offset) :
    T.kind.toInt (BitVec.ofNat T.kind.width (offset + T.size)) = (offset + T.size : ℕ) := by
  have hpos : 0 < T.kind.width := by cases T.kind <;> decide
  have hdouble : 2 ^ T.kind.width = 2 * 2 ^ (T.kind.width - 1) := by
    rw [← Nat.pow_succ', Nat.succ_eq_add_one, Nat.sub_add_cancel hpos]
  rw [LengthType.Covers] at h
  have hnat : (BitVec.ofNat T.kind.width (offset + T.size)).toNat = offset + T.size := by
    rw [BitVec.toNat_ofNat]
    apply Nat.mod_eq_of_lt
    split at h <;> omega
  rw [IntKind.toInt]
  split
  · rename_i hsigned
    rw [if_pos hsigned] at h
    rw [BitVec.toInt_eq_toNat_of_lt (by omega), hnat]
  · rw [hnat]

/-- How `parseStream` finds the packets of a stream, as a prefix that tells each packet's size. -/
def streamPrefix (offset : ℕ) (T : LengthType) (netorder : Bool) : Framing.Prefix UInt8 where
  header := offset + T.size
  stripped := 0
  size header :=
    if streamHeaderLen offset T netorder header < (offset + T.size : ℕ) ∨
        streamHeaderLen offset T netorder header > 100000000 then none
    else some (streamHeaderLen offset T netorder header).toNat
  header_pos := by
    have hsize : 0 < T.size := by
      rw [LengthType.size]
      cases T.kind <;> decide
    omega
  size_pos {_ _} h := by
    have hsize : 0 < T.size := by
      rw [LengthType.size]
      cases T.kind <;> decide
    split at h
    · cases h
    · cases h
      omega
  stripped_le _ := Nat.zero_le _

/-- `parseStream` follows the rule of its prefix when the length type covers the header. -/
theorem parseStream_follows {offset : ℕ} {T : LengthType} (hcovers : T.Covers offset)
    (netorder : Bool) :
    Follows (parseStream offset T netorder) ((streamPrefix offset T netorder).rule (2 ^ 31)) := by
  apply follows_prefix
  intro input output _
  have hheader : streamHeaderLen offset T netorder (input.take (offset + T.size)) =
      streamHeaderLen offset T netorder input := by
    rw [streamHeaderLen, List.drop_take, List.take_take, Nat.add_sub_cancel_left, Nat.min_self,
      streamHeaderLen]
  have hmod : (offset + T.size) % 2 ^ 64 = offset + T.size := by
    have hpow : 2 ^ (if T.kind.signed then T.kind.width - 1 else T.kind.width) ≤ 2 ^ 64 := by
      have hnarrow := T.narrow
      apply Nat.pow_le_pow_right (by decide)
      split <;> omega
    exact Nat.mod_eq_of_lt (Nat.lt_of_lt_of_le hcovers hpow)
  have hlt := streamHeaderLen_lt offset T netorder input
  simp only [parseStream, streamPrefix, hheader, hmod, toInt_ofNat hcovers]
  by_cases hsmall : streamHeaderLen offset T netorder input < (offset + T.size : ℕ)
  · rw [if_pos (Or.inl hsmall), if_pos (Or.inl hsmall), Option.elim_none]
  have hnat : toUInt32 (streamHeaderLen offset T netorder input) =
      (streamHeaderLen offset T netorder input).toNat := by
    rw [toUInt32, Int.emod_eq_of_lt (by omega) hlt]
  have hlarge : (streamHeaderLen offset T netorder input).toNat > 100000000 ↔
      streamHeaderLen offset T netorder input > 100000000 := by omega
  simp only [hnat, hlarge, List.drop_zero]
  by_cases hmalformed : streamHeaderLen offset T netorder input < (offset + T.size : ℕ) ∨
      streamHeaderLen offset T netorder input > 100000000
  · rw [if_pos hmalformed, if_pos hmalformed, Option.elim_none]
  · rw [if_neg hmalformed, if_neg hmalformed, Option.elim_some]

/-- **Packet extraction does not depend on the cuts**, whatever the limit of `parseLen` and for
every `parseStream` whose length type covers its header. -/
theorem segments :
    (∀ iMaxLength, Segments (parseLen iMaxLength) 4) ∧
    ∀ (offset : ℕ) (T : LengthType) (netorder : Bool), T.Covers offset →
      Segments (parseStream offset T netorder) 0 := by
  constructor
  · intro iMaxLength
    exact (parseLen_follows iMaxLength).takesApart rfl Framing.Prefix.take_stripped_append
  · intro offset T netorder hcovers
    exact (parseStream_follows hcovers netorder).takesApart rfl Framing.Prefix.take_stripped_append

/-- A stream with two packets of `parseStream` with a length of 2 bytes behind 1 byte, cut within
both. -/
theorem segments_sample :
    LengthType.Covers ⟨.short, by decide⟩ 1 ∧
      Segments (parseStream 1 ⟨.short, by decide⟩ true) 0 ∧
      [[9, 0], [4, 7, 9], [0, 3]].foldlM (feed (parseStream 1 ⟨.short, by decide⟩ true) 8)
        (start []) = some ⟨[], [9, 0, 3], [[9, 0, 4, 7], [9, 0, 3]], 0⟩ := by
  have hcovers : LengthType.Covers ⟨.short, by decide⟩ 1 := by
    rw [LengthType.Covers]
    decide
  exact ⟨hcovers, segments.2 1 _ true hcovers, by decide +kernel⟩

end AppProtocol

end Tars
