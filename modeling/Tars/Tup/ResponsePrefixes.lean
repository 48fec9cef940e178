import Tars.Tup.ProxyProtocol
import Tars.Tup.ResponseDecoders
import Tars.Tup.Truncation

/-!
# Prefixes of responses

A stream of responses is cut at any byte, and the front is decoded. The complete responses come out
and the rest stays, unless the stream is too long for a `uint32_t`, or the cut leaves 20 to 23
bytes of a response whose first members take more than the bytes behind the length.
-/

namespace Tars

open LittleEndian Decoding TarsOutputStream TarsInputStream

/-! ### The first members -/

namespace ResponsePacket

/-- The first members of a response, those that `tarsResponseLen` reads from a partial one. -/
def head (p : ResponsePacket) : ProxyProtocol.tarsHead.denote :=
  (p.iVersion, p.cPacketType, p.iRequestId, p.iMessageType, p.iRet, ())

/-- The bytes of the first members, as `writeTo` begins with them. -/
def headBytes (p : ResponsePacket) : Bytes := encodeFields ProxyProtocol.tarsHead p.head

/-- The number of these bytes: five heads and as many bytes as the integers need. -/
def headLength (p : ResponsePacket) : ℕ :=
  5 + integerSize p.iVersion.toInt + integerSize p.cPacketType.toInt +
    integerSize p.iRequestId.toInt + integerSize p.iMessageType.toInt + integerSize p.iRet.toInt

section Head

variable {p : ResponsePacket} {bs : Bytes}

/-- The bytes are the fields of five integers, one behind the other, each with its own tag. -/
theorem headBytes_eq (p : ResponsePacket) : p.headBytes =
    encodeInteger p.iVersion.toInt 1 ++ (encodeInteger p.cPacketType.toInt 2 ++
      (encodeInteger p.iRequestId.toInt 3 ++ (encodeInteger p.iMessageType.toInt 4 ++
        (encodeInteger p.iRet.toInt 5 ++ [])))) := rfl

/-- The bytes are as many as the sizes of the five fields add up to. -/
theorem length_headBytes (p : ResponsePacket) : p.headBytes.length = p.headLength := by
  have hhead : headLen 1 = 1 ∧ headLen 2 = 1 ∧ headLen 3 = 1 ∧ headLen 4 = 1 ∧ headLen 5 = 1 := by
    decide
  obtain ⟨h1, h2, h3, h4, h5⟩ := hhead
  simp only [headBytes_eq, List.length_append, length_encodeInteger, h1, h2, h3, h4, h5,
    List.length_nil, headLength]
  omega

/-- There are at most 20 of them, since each of the integers has a type that limits its field. -/
theorem headLength_le (p : ResponsePacket) : p.headLength ≤ 20 := by
  have hversion := integerSize_toInt_le (k := 2) (by decide) p.iVersion
  have htype := integerSize_toInt_le (k := 1) (by decide) p.cPacketType
  have hid := integerSize_toInt_le (k := 4) (by decide) p.iRequestId
  have hmessage := integerSize_toInt_le (k := 4) (by decide) p.iMessageType
  have hret := integerSize_toInt_le (k := 4) (by decide) p.iRet
  rw [headLength]
  omega

/-- The first integer of a structure that was written. -/
theorem writeTo_int {k : IntKind} {tag : UInt8} {isRequire : Bool} {fs : Fields}
    {n : BitVec k.width} {vs : fs.denote}
    (h : TarsOutputStream.writeTo (.cons tag isRequire (.int k) fs) (n, vs) = .ok bs) :
    ∃ rest, TarsOutputStream.writeTo fs vs = .ok rest ∧
      bs = encodeInteger (k.toInt n) tag ++ rest := by
  rw [TarsOutputStream.writeTo, TarsOutputStream.write, writeInt_eq] at h
  obtain ⟨field, hfield, h⟩ := bind_eq_ok h
  obtain ⟨rest, hrest, h⟩ := bind_eq_ok h
  rw [Except.ok.inj hfield]
  exact ⟨rest, hrest, (Except.ok.inj h).symm⟩

/-- The bytes of a response begin with its first members. -/
theorem writeTo_begins (h : p.writeTo = .ok bs) : ∃ rest, bs = p.headBytes ++ rest := by
  obtain ⟨required, desc, context, hrequired, -, -, rfl⟩ := writeTo_ok h
  obtain ⟨rest1, hrest1, rfl⟩ := writeTo_int hrequired
  obtain ⟨rest2, hrest2, rfl⟩ := writeTo_int hrest1
  obtain ⟨rest3, hrest3, rfl⟩ := writeTo_int hrest2
  obtain ⟨rest4, hrest4, rfl⟩ := writeTo_int hrest3
  obtain ⟨rest5, -, rfl⟩ := writeTo_int hrest4
  refine ⟨rest5 ++ (desc ++ context), ?_⟩
  simp only [headBytes_eq, List.append_assoc, List.nil_append]
  rfl

/-- Peeking reads exactly the bytes of the first members. -/
theorem reads_head (p : ResponsePacket) (fuel : ℕ) :
    Reads (ProxyProtocol.tarsPeek (fuel + 1)) p.headBytes () := by
  have hlimited : ProxyProtocol.tarsHead.Limited plainTypes.less (· < 2 ^ 32) p.head :=
    ⟨trivial, trivial, trivial, trivial, trivial, trivial⟩
  have hvalid : ProxyProtocol.tarsHead.Valid plainTypes.less p.head :=
    ⟨trivial, trivial, trivial, trivial, trivial, trivial⟩
  exact (reads_writeTo _ _ hlimited _ (writeTo_eq _ _ hvalid) _).map fun _ => ()

/-- They are missed where the memory ends among them. -/
theorem faults_head (p : ResponsePacket) (fuel : ℕ) :
    Faults (ProxyProtocol.tarsPeek (fuel + 1)) p.headBytes := by
  have hmember {k : ℕ} (hk : k = 1 ∨ k = 2 ∨ k = 4 ∨ k = 8) (n old : BitVec (8 * k))
      (tag : UInt8) (htag : tag < 15) :
      Reads (readField (skipField false (fuel + 1)) (fuel + 1) (integerBody (8 * k)) old tag false)
        (encodeInteger n.toInt tag) n ∧
      Faults (readField (skipField false (fuel + 1)) (fuel + 1) (integerBody (8 * k)) old tag false)
        (encodeInteger n.toInt tag) :=
    ⟨reads_signed hk n old tag false, Faults.signed hk n old htag false⟩
  have hversion := hmember (k := 2) (by decide) p.iVersion 0 1 (by decide)
  have htype := hmember (k := 1) (by decide) p.cPacketType 0 2 (by decide)
  have hid := hmember (k := 4) (by decide) p.iRequestId 0 3 (by decide)
  have hmessage := hmember (k := 4) (by decide) p.iMessageType 0 4 (by decide)
  have hret := hmember (k := 4) (by decide) p.iRet 0 5 (by decide)
  refine Faults.map ?_ fun _ => ()
  rw [headBytes_eq]
  exact .readFrom_cons hversion.1 hversion.2 <| .readFrom_cons htype.1 htype.2 <|
    .readFrom_cons hid.1 hid.2 <| .readFrom_cons hmessage.1 hmessage.2 <|
    .readFrom_cons hret.1 hret.2 (.nil _)

end Head

end ResponsePacket

namespace ProxyProtocol

/-! ### Cuts -/

/-- A response with the length of the frame in front of it. -/
def responseFrame (rsp : ResponsePacket) : Except TarsException Bytes := do
  let os ← rsp.writeTo
  return frame os

/-- The number of frames that end in front of a cut. -/
def complete : List Bytes → ℕ → ℕ
  | [], _ => 0
  | f :: frames, cut => if f.length ≤ cut then complete frames (cut - f.length) + 1 else 0

/-- The length of the frames that end in front of a cut. -/
def consumed (frames : List Bytes) (cut : ℕ) : ℕ :=
  (frames.take (complete frames cut)).flatten.length

/-- Whether a cut leaves at least 20 bytes of a frame, but not all of the first members of its
response. -/
def straddles : List ResponsePacket → List Bytes → ℕ → Bool
  | rsp :: packets, f :: frames, cut =>
    if f.length ≤ cut then straddles packets frames (cut - f.length)
    else decide (20 ≤ cut ∧ cut < 4 + rsp.headLength)
  | _, _, _ => false

/-- With enough fuel `tarsResponse` appends exactly these responses and returns this position. -/
def Delivers (recvBuffer : Bytes) (packets : List ResponsePacket) (pos : ℕ) : Prop :=
  ∀ fuels done, packets.length < fuels.length → (∀ fuel ∈ fuels, 0 < fuel) →
    ∃ parts, loop (tarsRound recvBuffer) fuels (start done) = .ok () ⟨pos, done ++ packets, parts⟩

/-- A stream can be decoded in two parts: what the first call leaves, the second one completes. -/
structure Incremental (packets : List ResponsePacket) (frames : List Bytes) (cut : ℕ) : Prop where
  /-- In front of the cut, exactly the responses whose frames are complete are decoded. -/
  front : Delivers (frames.flatten.take cut) (packets.take (complete frames cut))
    (consumed frames cut)
  /-- The rest that was not consumed and the later bytes give the other responses. -/
  rest : Delivers (frames.flatten.drop (consumed frames cut)) (packets.drop (complete frames cut))
    (frames.flatten.length - consumed frames cut)
  /-- Decoding all at once gives all responses. -/
  whole : Delivers frames.flatten packets frames.flatten.length

section Cuts

variable {packets : List ResponsePacket} {f : Bytes} {frames : List Bytes} {cut : ℕ}

/-- A cut behind the first frame consumes it and what the rest of the cut consumes of the others. -/
theorem consumed_cons (h : f.length ≤ cut) :
    consumed (f :: frames) cut = f.length + consumed frames (cut - f.length) := by
  rw [consumed, complete, if_pos h, List.take_succ_cons, List.flatten_cons, List.length_append,
    consumed]

/-- There are no more complete frames than frames, wherever the bytes are cut. -/
theorem complete_le (frames : List Bytes) (cut : ℕ) : complete frames cut ≤ frames.length := by
  induction frames generalizing cut with
  | nil => exact le_rfl
  | cons f frames ih =>
    have hle := ih (cut - f.length)
    rw [complete, List.length_cons]
    split <;> omega

/-- Behind what is consumed stand exactly the frames that are not complete. -/
theorem drop_consumed (frames : List Bytes) (cut : ℕ) :
    frames.flatten.drop (consumed frames cut) = (frames.drop (complete frames cut)).flatten := by
  have hsplit : frames.flatten = (frames.take (complete frames cut)).flatten ++
      (frames.drop (complete frames cut)).flatten := by
    rw [← List.flatten_append, List.take_append_drop]
  rw [hsplit]
  exact List.drop_left

/-- All frames are complete if nothing is cut off. -/
theorem complete_length (frames : List Bytes) :
    complete frames frames.flatten.length = frames.length := by
  induction frames with
  | nil => rfl
  | cons f frames ih =>
    rw [complete, List.flatten_cons, List.length_append, if_pos (Nat.le_add_right _ _),
      Nat.add_sub_cancel_left, ih, List.length_cons]

/-- Where nothing is cut off, all bytes are consumed. -/
theorem consumed_length (frames : List Bytes) :
    consumed frames frames.flatten.length = frames.flatten.length := by
  rw [consumed, complete_length, List.take_length]

/-- Where nothing is cut off, no frame is cut. -/
theorem straddles_length (packets : List ResponsePacket) (frames : List Bytes) :
    straddles packets frames frames.flatten.length = false := by
  induction frames generalizing packets with
  | nil => cases packets <;> rfl
  | cons f frames ih =>
    cases packets with
    | nil => rfl
    | cons rsp packets =>
      rw [straddles, List.flatten_cons, List.length_append, if_pos (Nat.le_add_right _ _),
        Nat.add_sub_cancel_left, ih]

end Cuts

/-! ### Rounds -/

section Rounds

variable {recvBuffer os rest : Bytes} {rsp : ResponsePacket} {s t : Responses} {cut : ℕ}

/-- The length in front of a response, of which the first bytes are there. -/
theorem responseLen_eq {input : Bytes} (hlength : 4 + os.length < 2 ^ 32)
    (h : input.take 4 = (frame os).take 4) : responseLen input = 4 + os.length := by
  rw [responseLen, h, ← List.append_nil (frame os), take_frame, htonl_load, BitVec.toNat_ofNat]
  omega

/-- The bytes that remain, as long as their number fits a `uint32_t`. -/
theorem remaining_eq (hdrop : recvBuffer.drop s.pos = rest)
    (hlength : rest.length < 2 ^ 32) : remaining recvBuffer s.pos = rest.length := by
  rw [← hdrop, List.length_drop] at hlength
  rw [← hdrop, List.length_drop, remaining, Nat.mod_eq_of_lt hlength]

/-- The bytes behind the length of the packet at the position. -/
theorem drop_add_four (hdrop : recvBuffer.drop s.pos = rest) :
    recvBuffer.drop (s.pos + 4) = rest.drop 4 := by
  rw [← hdrop, List.drop_drop]

/-- A round that finds no length leaves the loop. -/
theorem tarsRound_short (hdrop : recvBuffer.drop s.pos = rest) (hshort : rest.length < 4)
    (fuel : ℕ) : tarsRound recvBuffer fuel s = .ok false s := by
  have hremaining := remaining_eq hdrop (by omega)
  simp only [tarsRound, packetRound]
  rw [if_pos (.inr (by omega))]

/-- A round that finds a complete frame takes it. -/
theorem tarsRound_frame (hmaps : Ascending rsp.status ∧ Ascending rsp.context)
    (hos : rsp.writeTo = .ok os) (hdrop : recvBuffer.drop s.pos = frame os ++ rest)
    (hlength : (frame os ++ rest).length < 2 ^ 32) (fuel : ℕ) :
    ∃ parts, tarsRound recvBuffer (fuel + 1) s =
      .ok true ⟨s.pos + (frame os).length, s.done ++ [rsp], parts⟩ := by
  have hremaining := remaining_eq hdrop hlength
  have hbehind := drop_add_four hdrop
  have hreceived := congrArg List.length hdrop
  rw [List.length_append, length_frame] at hlength hremaining hreceived
  rw [List.length_drop] at hreceived
  rw [frame, List.append_assoc, List.drop_left' (length_store 4 _)] at hbehind
  have hheader : responseLen (recvBuffer.drop s.pos) = 4 + os.length := by
    refine responseLen_eq (by omega) ?_
    rw [hdrop, List.take_append_of_le_length (by rw [length_frame]; omega)]
  have hat : At (.setBuffer (os ++ rest) os.length) os := by
    refine ⟨?_, ⟨Nat.zero_le _, Nat.zero_le _⟩, ?_⟩
    · show os.length < 2 ^ 63
      omega
    · rw [BufferReader.setBuffer, List.take_left, List.drop_zero]
  have hmemory : os.length ≤ (os ++ rest).length := by
    rw [List.length_append]
    omega
  have hread := ResponsePacket.readFrom_init hmaps hos (by omega) hat hmemory fuel
  have hpacket : tarsPacket recvBuffer (fuel + 1) s.pos (4 + os.length) s =
      .ok rsp ⟨s.pos + (4 + os.length), s.done, s.parts ++ [(s.pos + 4, os.length)]⟩ := by
    rw [tarsPacket, bind_of_ok (advance_apply _ _), hbehind, sizeSub_of_le (by omega),
      Nat.add_sub_cancel_left]
    simp only [decodePart, hread]
  refine ⟨s.parts ++ [(s.pos + 4, os.length)], ?_⟩
  simp only [tarsRound, packetRound]
  rw [if_neg (by omega), if_neg (by omega), hheader, bind_of_ok hpacket, length_frame]
  rfl

/-- The peek at the first members works if all of them have been received. -/
private theorem peek_head {n : ℕ} (hos : rsp.writeTo = .ok os) (hn : n ≤ os.length)
    (start fuel : ℕ) :
    ∃ parts, decodePart (os.take n) start 20 (tarsPeek (fuel + 1)) s =
      if n < rsp.headLength then .fault else .ok () ⟨s.pos, s.done, parts⟩ := by
  obtain ⟨rest, rfl⟩ := ResponsePacket.writeTo_begins hos
  have hhead := rsp.length_headBytes
  have hle := rsp.headLength_le
  refine ⟨s.parts ++ [(start, 20)], ?_⟩
  have hat (bs : Bytes) : At (.setBuffer bs 20) (bs.take 20) :=
    ⟨(by decide : 20 < 2 ^ 63), ⟨Nat.zero_le _, Nat.zero_le _⟩, List.drop_zero⟩
  by_cases hmissing : n < rsp.headLength
  · have htake : (rsp.headBytes ++ rest).take n = rsp.headBytes.take n :=
      List.take_append_of_le_length (by omega)
    have hlength : (rsp.headBytes.take n).length = n := by
      rw [List.length_take]
      omega
    have hfront := hat (rsp.headBytes.take n)
    rw [List.take_take, Nat.min_eq_right (by omega)] at hfront
    have hfault := rsp.faults_head fuel _ _ hfront
      (by show 0 + rsp.headBytes.length ≤ 20; omega) (List.take_prefix _ _) (by omega)
    rw [if_pos hmissing, htake]
    simp only [decodePart, hfault]
  · have hsplit : (rsp.headBytes ++ rest).take (min 20 n) =
        rsp.headBytes ++ rest.take (min 20 n - rsp.headBytes.length) := by
      rw [List.take_append, List.take_of_length_le (by omega)]
    have hfront := hat ((rsp.headBytes ++ rest).take n)
    rw [List.take_take, hsplit] at hfront
    have hread := rsp.reads_head fuel _ _ hfront
    rw [if_neg hmissing]
    simp only [decodePart, hread]

/-- A round that finds a part of a frame leaves the loop, unless it finds 20 bytes, but not all of
the first members. -/
theorem tarsRound_incomplete (hos : rsp.writeTo = .ok os) (hlength : (frame os).length < 2 ^ 32)
    (hdrop : recvBuffer.drop s.pos = (frame os).take cut) (hcut : cut < (frame os).length)
    (fuel : ℕ) :
    ∃ parts, tarsRound recvBuffer (fuel + 1) s =
      if 20 ≤ cut ∧ cut < 4 + rsp.headLength then .fault else .ok false ⟨s.pos, s.done, parts⟩ := by
  have htake : ((frame os).take cut).length = cut := by
    rw [List.length_take]
    omega
  by_cases hshort : cut < 4
  · refine ⟨s.parts, ?_⟩
    rw [if_neg (by omega)]
    exact tarsRound_short hdrop (by omega) _
  have hremaining := remaining_eq hdrop (by omega)
  have hbehind := drop_add_four hdrop
  have hreceived := congrArg List.length hdrop
  rw [List.length_drop, htake] at hreceived
  rw [htake] at hremaining
  rw [List.drop_take, frame, List.drop_left' (length_store 4 _)] at hbehind
  rw [length_frame] at hlength hcut
  have hheader : responseLen (recvBuffer.drop s.pos) = 4 + os.length := by
    apply responseLen_eq hlength
    rw [hdrop, List.take_take, Nat.min_eq_left (by omega)]
  simp only [tarsRound, packetRound]
  rw [if_neg (by omega), hheader, if_pos (by omega), hbehind, hremaining]
  by_cases htwenty : cut < 20
  · refine ⟨s.parts, ?_⟩
    rw [if_pos htwenty, if_neg (by omega)]
  · obtain ⟨parts, hpeek⟩ :=
      peek_head (s := s) hos (n := cut - 4) (by omega) (s.pos + 4) fuel
    refine ⟨parts, ?_⟩
    rw [if_neg htwenty]
    by_cases hmissing : cut < 4 + rsp.headLength
    · rw [if_pos (by omega)] at hpeek
      rw [bind_of_fault hpeek, if_pos ⟨by omega, hmissing⟩]
    · rw [if_neg (by omega)] at hpeek
      rw [bind_of_ok hpeek, if_neg fun h => hmissing h.2]
      rfl

end Rounds

/-! ### Runs -/

section Runs

variable {recvBuffer : Bytes} {packets : List ResponsePacket} {frames : List Bytes}
  {s t : Responses} {cut : ℕ}

/-- **The loop over the front of a stream** takes the complete frames, and then leaves the received
bytes if the cut straddles the first members. -/
theorem loop_tarsRound
    (hframes : List.Forall₂ (fun rsp f => responseFrame rsp = .ok f) packets frames)
    (hcut : cut < 2 ^ 32) (hmaps : ∀ p ∈ packets, Ascending p.status ∧ Ascending p.context)
    (hlimit : ∀ f ∈ frames, f.length ≤ 10000000)
    (hdrop : recvBuffer.drop s.pos = frames.flatten.take cut) {fuels : List ℕ}
    (hfuels : complete frames cut < fuels.length) (hpos : ∀ fuel ∈ fuels, 0 < fuel) :
    ∃ parts, loop (tarsRound recvBuffer) fuels s =
      if straddles packets frames cut then .fault
      else .ok () ⟨s.pos + consumed frames cut, s.done ++ packets.take (complete frames cut),
        parts⟩ := by
  induction hframes generalizing cut s fuels with
  | nil =>
    obtain _ | ⟨fuel, fuels⟩ := fuels
    · exact absurd hfuels (Nat.not_lt_zero _)
    rw [List.flatten_nil, List.take_nil] at hdrop
    refine ⟨s.parts, ?_⟩
    rw [loop, bind_of_ok (tarsRound_short hdrop (by decide) fuel)]
    rw [List.take_nil, List.append_nil]
    rfl
  | @cons rsp f packets frames hrsp _ ih =>
    obtain ⟨os, hos, hf⟩ := bind_eq_ok hrsp
    obtain rfl : frame os = f := Except.ok.inj hf
    obtain _ | ⟨fuel, fuels⟩ := fuels
    · exact absurd hfuels (Nat.not_lt_zero _)
    obtain ⟨fuel, rfl⟩ := Nat.exists_eq_add_one.mpr (hpos fuel List.mem_cons_self)
    have hlength := hlimit (frame os) List.mem_cons_self
    rw [List.flatten_cons] at hdrop
    by_cases hfits : (frame os).length ≤ cut
    · have hsplit : (frame os ++ frames.flatten).take cut =
          frame os ++ frames.flatten.take (cut - (frame os).length) := by
        rw [List.take_append, List.take_of_length_le hfits]
      have hreceived : (frame os ++ frames.flatten.take (cut - (frame os).length)).length <
          2 ^ 32 := by
        rw [List.length_append, List.length_take]
        omega
      rw [hsplit] at hdrop
      obtain ⟨parts, hround⟩ := tarsRound_frame (hmaps rsp List.mem_cons_self) hos hdrop hreceived
        fuel
      rw [complete, if_pos hfits, List.length_cons] at hfuels
      have hrest : recvBuffer.drop (s.pos + (frame os).length) =
          frames.flatten.take (cut - (frame os).length) := by
        rw [← List.drop_drop, hdrop, List.drop_left]
      obtain ⟨parts', hloop⟩ := ih (by omega) (fun p hp => hmaps p (List.mem_cons_of_mem _ hp))
        (fun f hf => hlimit f (List.mem_cons_of_mem _ hf))
        (s := ⟨s.pos + (frame os).length, s.done ++ [rsp], parts⟩) hrest (by omega)
        (fun k hk => hpos k (List.mem_cons_of_mem _ hk))
      refine ⟨parts', ?_⟩
      rw [loop, bind_of_ok hround, straddles, if_pos hfits, complete, if_pos hfits,
        consumed_cons hfits, List.take_succ_cons, ← Nat.add_assoc]
      rw [List.append_assoc] at hloop
      exact hloop
    · have hincomplete : (frame os ++ frames.flatten).take cut = (frame os).take cut :=
        List.take_append_of_le_length (by omega)
      rw [hincomplete] at hdrop
      obtain ⟨parts, hround⟩ := tarsRound_incomplete hos (by omega) hdrop (by omega) fuel
      refine ⟨parts, ?_⟩
      rw [straddles, if_neg hfits, consumed, complete, if_neg hfits, loop]
      by_cases hstraddles : 20 ≤ cut ∧ cut < 4 + rsp.headLength
      · rw [if_pos hstraddles] at hround
        rw [bind_of_fault hround, if_pos (decide_eq_true hstraddles)]
      · rw [if_neg hstraddles] at hround
        rw [bind_of_ok hround, decide_eq_false hstraddles, List.take_zero, List.take_zero,
          List.append_nil]
        rfl

/-- In front of a stream that is too long for a `uint32_t`, no round gets to the end. -/
theorem loop_tarsRound_pos (hlong : s.pos + 2 ^ 32 ≤ recvBuffer.length) {fuels : List ℕ}
    (h : loop (tarsRound recvBuffer) fuels s = .ok () t) : t.pos + 2 ^ 32 ≤ recvBuffer.length := by
  induction fuels generalizing s with
  | nil => cases h
  | cons fuel fuels ih =>
    obtain ⟨more, u, hround, h⟩ := bind_eq_ok_iff.mp h
    obtain ⟨rfl, hpos⟩ | ⟨rfl, hinside, hle, hpos⟩ := tarsRound_ok hround
    · obtain ⟨-, rfl⟩ := Outcome.ok.inj h
      rwa [hpos]
    · refine ih ?_ h
      rw [remaining] at hle
      omega

/-- A stream whose cut straddles nothing delivers the complete responses and stops behind them. -/
private theorem delivers
    (hframes : List.Forall₂ (fun rsp f => responseFrame rsp = .ok f) packets frames)
    (hcut : cut < 2 ^ 32) (hmaps : ∀ p ∈ packets, Ascending p.status ∧ Ascending p.context)
    (hlimit : ∀ f ∈ frames, f.length ≤ 10000000) (hstraddles : straddles packets frames cut = false)
    (hreceived : recvBuffer = frames.flatten.take cut) :
    Delivers recvBuffer (packets.take (complete frames cut)) (consumed frames cut) := by
  intro fuels done hfuels hpos
  have hle := complete_le frames cut
  rw [← hframes.length_eq] at hle
  rw [List.length_take, Nat.min_eq_left hle] at hfuels
  obtain ⟨parts, hloop⟩ :=
    loop_tarsRound (s := start done) hframes hcut hmaps hlimit hreceived hfuels hpos
  have hpos' : (start done).pos + consumed frames cut = consumed frames cut := Nat.zero_add _
  rw [hstraddles, if_neg (by decide), hpos'] at hloop
  exact ⟨parts, hloop⟩

/-- A whole stream delivers all its responses, as the case of a cut at its end. -/
private theorem delivers_whole
    (hframes : List.Forall₂ (fun rsp f => responseFrame rsp = .ok f) packets frames)
    (hfits : frames.flatten.length < 2 ^ 32)
    (hmaps : ∀ p ∈ packets, Ascending p.status ∧ Ascending p.context)
    (hlimit : ∀ f ∈ frames, f.length ≤ 10000000) :
    Delivers frames.flatten packets frames.flatten.length := by
  have h := delivers hframes hfits hmaps hlimit (straddles_length packets frames)
    List.take_length.symm
  rwa [complete_length, consumed_length, ← hframes.length_eq, List.take_length] at h

/-- One unit of fuel for each round is enough. -/
private theorem replicate_pos (n : ℕ) : ∀ fuel ∈ List.replicate n 1, 0 < fuel := by
  intro fuel hfuel
  rw [List.eq_of_mem_replicate hfuel]
  exact Nat.one_pos

/-- Where the front is decoded, the cut straddles nothing. -/
private theorem not_straddles
    (hframes : List.Forall₂ (fun rsp f => responseFrame rsp = .ok f) packets frames)
    (hcut : cut < 2 ^ 32) (hmaps : ∀ p ∈ packets, Ascending p.status ∧ Ascending p.context)
    (hlimit : ∀ f ∈ frames, f.length ≤ 10000000)
    (h : Delivers (frames.flatten.take cut) (packets.take (complete frames cut))
      (consumed frames cut)) : straddles packets frames cut = false := by
  have hle := complete_le frames cut
  rw [← hframes.length_eq] at hle
  have hlength : complete frames cut < (List.replicate (packets.length + 1) 1).length := by
    rw [List.length_replicate]
    omega
  obtain ⟨parts, hloop⟩ :=
    h _ [] (by rwa [List.length_take, Nat.min_eq_left hle]) (replicate_pos _)
  obtain ⟨parts', hfault⟩ :=
    loop_tarsRound (s := start []) hframes hcut hmaps hlimit rfl hlength (replicate_pos _)
  rw [hloop] at hfault
  refine Bool.eq_false_iff.mpr fun hstraddles => ?_
  rw [hstraddles, if_pos rfl] at hfault
  cases hfault

/-- A stream that is too long is not decoded at once. -/
private theorem not_long (h : Delivers recvBuffer packets recvBuffer.length) :
    recvBuffer.length < 2 ^ 32 := by
  by_contra hlong
  have hlength : packets.length < (List.replicate (packets.length + 1) 1).length := by
    rw [List.length_replicate]
    omega
  obtain ⟨parts, hloop⟩ := h _ [] hlength (replicate_pos _)
  have hlong' : (start []).pos + 2 ^ 32 ≤ recvBuffer.length := by
    show 0 + 2 ^ 32 ≤ _
    omega
  have hend : recvBuffer.length + 2 ^ 32 ≤ recvBuffer.length := loop_tarsRound_pos hlong' hloop
  omega

/-- **Incremental decoding works exactly if** the stream is shorter than `2 ^ 32` bytes and the cut
does not leave 20 bytes of a frame without all of the first members of its response. -/
theorem incremental_iff (hmaps : ∀ p ∈ packets, Ascending p.status ∧ Ascending p.context)
    (hframes : List.Forall₂ (fun rsp f => responseFrame rsp = .ok f) packets frames)
    (hlimit : ∀ f ∈ frames, f.length ≤ 10000000) (hcut : cut ≤ frames.flatten.length) :
    Incremental packets frames cut ↔
      frames.flatten.length < 2 ^ 32 ∧ straddles packets frames cut = false := by
  constructor
  · intro h
    have hfits := not_long h.whole
    exact ⟨hfits, not_straddles hframes (hcut.trans_lt hfits) hmaps hlimit h.front⟩
  · rintro ⟨hfits, hstraddles⟩
    refine ⟨delivers hframes (hcut.trans_lt hfits) hmaps hlimit hstraddles rfl, ?_,
      delivers_whole hframes hfits hmaps hlimit⟩
    have hlength := congrArg List.length (drop_consumed frames cut)
    rw [List.length_drop] at hlength
    have hrest : (frames.drop (complete frames cut)).flatten.length < 2 ^ 32 := by omega
    rw [drop_consumed, hlength]
    exact delivers_whole (List.forall₂_drop _ hframes) hrest
      (fun p hp => hmaps p (List.mem_of_mem_drop hp)) fun f hf => hlimit f (List.mem_of_mem_drop hf)

/-- Two new responses, cut in the second one, behind its first members. -/
theorem incremental_iff_sample : ∃ f, responseFrame .init = .ok f ∧
    Incremental [.init, .init] [f, f] 25 := by
  refine ⟨[0, 0, 0, 14, 28, 44, 60, 76, 92, 109, 0, 12, 120, 12], rfl, ?_⟩
  exact (incremental_iff (by decide) (.cons rfl (.cons rfl .nil)) (by decide) (by decide)).mpr
    ⟨by decide, by decide⟩

/-- A response whose first members take all the bytes of their types. -/
private def wideResponse : ResponsePacket :=
  { ResponsePacket.init with
    iVersion := 300
    cPacketType := 1
    iRequestId := 100000
    iMessageType := 100000
    iRet := -100000 }

/-- Its frame cannot be cut behind 20 bytes: its first members take 20 bytes behind the length, of
which only 16 are there. -/
theorem incremental_fails : ∃ f, responseFrame wideResponse = .ok f ∧
    ¬Incremental [wideResponse] [f] 20 := by
  refine ⟨[0, 0, 0, 29, 17, 1, 44, 32, 1, 50, 0, 1, 134, 160, 66, 0, 1, 134, 160, 82, 255, 254,
    121, 96, 109, 0, 12, 120, 12], rfl, fun h => ?_⟩
  exact absurd (not_straddles (.cons rfl .nil) (by decide) (by decide) (by decide) h.front)
    (by decide)

end Runs

end ProxyProtocol

end Tars
