import Tars.Tup.ResponsePrefixes

/-!
# Responses of other protocols

`streamResponse` takes frames off a stream whose length and request id stand somewhere in each
frame. Where every frame has both, the decoder follows a rule in the sense of `Framing`, so a
client that receives the stream in any chunks gets one response for each frame, with its id.
-/

namespace Tars

open LittleEndian Decoding

namespace ProxyProtocol

/-- Where a frame has its length and its request id, and how they are written. -/
structure StreamLayout where
  /-- `offset`. -/
  offset : ℕ
  /-- `T`. -/
  T : LengthType
  /-- `netorder`. -/
  netorder : Bool
  /-- `idOffset`. -/
  idOffset : ℕ
  /-- `K`. -/
  K : IntKind
  /-- `idNetorder`. -/
  idNetorder : Bool
  /-- The length field ends at an address. -/
  addressable : offset + T.size < 2 ^ 64

namespace StreamLayout

variable (L : StreamLayout)

/-- The length that a frame says it has, in its first bytes. -/
def headerLen (input : Bytes) : ℤ := AppProtocol.streamHeaderLen L.offset L.T L.netorder input

/-- The response that a frame becomes: the frame itself and the id in it. -/
def response (f : Bytes) : ResponsePacket :=
  { ResponsePacket.init with
    sBuffer := f
    iRequestId := streamRequestId L.K L.idNetorder ((f.drop L.idOffset).take (L.K.width / 8)) }

/-- A frame that has a length, which is its own, and a request id. -/
structure IsFrame (f : Bytes) : Prop where
  /-- The length field is in the frame. -/
  length : L.offset + L.T.size ≤ f.length
  /-- The request id is in the frame. -/
  id : L.idOffset + L.K.width / 8 ≤ f.length
  /-- The length is that of the frame. -/
  headerLen : L.headerLen f = f.length

/-- `streamResponse` of this layout, with a round for every byte. -/
def streamResponse (recvBuffer : Bytes) (done : List ResponsePacket) :
    Outcome Responses ResponseException Unit :=
  loop (fun _ => streamRound L.offset L.T L.netorder L.idOffset L.K L.idNetorder recvBuffer)
    (List.replicate (recvBuffer.length + 1) 0) (start done)

/-- A client that appends a chunk to what it has kept and removes what the decoder has consumed. -/
def receive (s : Bytes × List ResponsePacket) (chunk : Bytes) :
    Option (Bytes × List ResponsePacket) :=
  match L.streamResponse (s.1 ++ chunk) s.2 with
  | .ok _ t => some ((s.1 ++ chunk).drop t.pos, t.done)
  | _ => none

/-- How the decoder finds its frames. A length below the header or below the id's end counts as
none. -/
def framePrefix : Framing.Prefix UInt8 where
  header := L.offset + L.T.size
  stripped := 0
  size header :=
    if L.headerLen header < (L.offset + L.T.size : ℕ) ∨
        L.headerLen header < (L.idOffset + L.K.width / 8 : ℕ) then none
    else some (L.headerLen header).toNat
  header_pos := by
    have hsize : 0 < L.T.size := by
      rw [LengthType.size]
      cases L.T.kind <;> decide
    omega
  size_pos {_ _} h := by
    have hsize : 0 < L.T.size := by
      rw [LengthType.size]
      cases L.T.kind <;> decide
    split at h
    · cases h
    · cases h
      omega
  stripped_le _ := Nat.zero_le _

/-- The rule for streams that a `uint32_t` can measure. -/
def rule : Framing.Rule UInt8 Bytes := L.framePrefix.rule (2 ^ 32)

variable {L} {recvBuffer xs : Bytes} {s : Responses}

/-- Only the bytes up to the end of the length field matter for it. -/
theorem headerLen_take (input : Bytes) :
    L.headerLen (input.take (L.offset + L.T.size)) = L.headerLen input := by
  rw [headerLen, headerLen, AppProtocol.streamHeaderLen, List.drop_take, List.take_take,
    Nat.add_sub_cancel_left, Nat.min_self, AppProtocol.streamHeaderLen]

/-- What has been received behind a frame does not matter for its length. -/
theorem headerLen_append {ys : Bytes} (h : L.offset + L.T.size ≤ xs.length) :
    L.headerLen (xs ++ ys) = L.headerLen xs := by
  rw [← headerLen_take (xs ++ ys), List.take_append_of_le_length h, headerLen_take]

/-- What the verdict of the rule is computed from. -/
theorem size_take (input : Bytes) : L.framePrefix.size (input.take (L.offset + L.T.size)) =
    if L.headerLen input < (L.offset + L.T.size : ℕ) ∨
        L.headerLen input < (L.idOffset + L.K.width / 8 : ℕ) then none
    else some (L.headerLen input).toNat := by
  show (if L.headerLen (input.take (L.offset + L.T.size)) < _ ∨ _ then none else _) = _
  rw [headerLen_take]

/-- When the rule waits: the length field has not been received, or not all of the frame. -/
theorem decide_eq_wait (h : L.rule.decide xs = .wait) : xs.length < L.offset + L.T.size ∨
    L.offset + L.T.size ≤ xs.length ∧ 0 < L.headerLen xs ∧ xs.length < (L.headerLen xs).toNat := by
  have hverdict : L.framePrefix.verdict xs = .wait := h
  rw [Framing.Prefix.verdict] at hverdict
  split at hverdict
  · rename_i hshort
    exact .inl hshort
  · rename_i hlong
    have hheader : L.framePrefix.header = L.offset + L.T.size := rfl
    rw [hheader] at hlong
    refine .inr ⟨by omega, ?_⟩
    rw [hheader, size_take] at hverdict
    split at hverdict
    · cases hverdict
    · rename_i n hsize
      split at hsize
      · cases hsize
      · obtain rfl := Option.some.inj hsize
        split at hverdict
        · omega
        · cases hverdict

/-- The rule takes a frame when enough bytes are there for a length that covers the header and the
id. -/
theorem decide_eq_frame {n : ℕ} {f : Bytes} : L.rule.decide xs = .frame n f ↔
    n ≤ xs.length ∧ L.headerLen xs = n ∧ L.offset + L.T.size ≤ n ∧ L.idOffset + L.K.width / 8 ≤ n ∧
      f = xs.take n := by
  have hheader : L.framePrefix.header = L.offset + L.T.size := rfl
  have hstripped : L.framePrefix.stripped = 0 := rfl
  show L.framePrefix.verdict xs = .frame n f ↔ _
  rw [Framing.Prefix.verdict_eq_frame, hheader, hstripped, size_take, List.drop_zero]
  constructor
  · rintro ⟨hlong, hn, hsize, rfl⟩
    split at hsize
    · cases hsize
    · have hn' := Option.some.inj hsize
      exact ⟨hn, by omega, by omega, by omega, rfl⟩
  · rintro ⟨hn, hlen, hsize, hid, rfl⟩
    exact ⟨by omega, hn, by rw [if_neg (by omega), hlen, Int.toNat_natCast], rfl⟩

/-- The decoder leaves its loop where the rule waits. -/
theorem streamRound_wait (hdrop : recvBuffer.drop s.pos = xs) (hlength : xs.length < 2 ^ 32)
    (h : L.rule.decide xs = .wait) :
    streamRound L.offset L.T L.netorder L.idOffset L.K L.idNetorder recvBuffer s = .ok false s := by
  have hremaining := remaining_eq hdrop hlength
  have haddress := Nat.mod_eq_of_lt L.addressable
  have hlen := congrArg List.length hdrop
  rw [List.length_drop] at hlen
  have hsize : 0 < L.offset + L.T.size := L.framePrefix.header_pos
  rw [streamRound]
  simp only [hdrop, hremaining, haddress]
  obtain hshort | ⟨hlong, hpos, hpart⟩ := decide_eq_wait h
  · rw [if_pos (.inr hshort)]
  · have hlt : L.headerLen xs < 2 ^ 32 := AppProtocol.streamHeaderLen_lt _ _ _ xs
    have hheader : AppProtocol.streamHeaderLen L.offset L.T L.netorder xs = L.headerLen xs := rfl
    have hnat : toUInt32 (L.headerLen xs) = (L.headerLen xs).toNat := by
      rw [toUInt32, Int.emod_eq_of_lt (by omega) hlt]
    rw [if_neg (by omega), if_neg (by omega), hheader, hnat, if_pos hpart]

/-- The decoder takes the frames that the rule takes. -/
theorem streamRound_frame (hdrop : recvBuffer.drop s.pos = xs) (hlength : xs.length < 2 ^ 32)
    {n : ℕ} {f : Bytes} (h : L.rule.decide xs = .frame n f) :
    ∃ parts, streamRound L.offset L.T L.netorder L.idOffset L.K L.idNetorder recvBuffer s =
      .ok true ⟨s.pos + n, s.done ++ [L.response f], parts⟩ := by
  obtain ⟨hn, hheader, hsize, hid, rfl⟩ := decide_eq_frame.mp h
  have hpos := L.rule.pos h
  have hremaining := remaining_eq hdrop hlength
  have haddress := Nat.mod_eq_of_lt L.addressable
  have hlen := congrArg List.length hdrop
  rw [List.length_drop] at hlen
  have hheader' : AppProtocol.streamHeaderLen L.offset L.T L.netorder xs = n := hheader
  have hnat : toUInt32 (n : ℤ) = n := by
    rw [toUInt32, Int.emod_eq_of_lt (by omega) (by omega), Int.toNat_natCast]
  have hframe : copyPart recvBuffer s.pos n s =
      .ok (xs.take n) { s with parts := s.parts ++ [(s.pos, n)] } := by
    rw [copyPart, if_pos (by omega), hdrop]
  have hrequest : copyPart recvBuffer (s.pos + L.idOffset) (L.K.width / 8)
      { s with parts := s.parts ++ [(s.pos, n)] } =
        .ok (((xs.take n).drop L.idOffset).take (L.K.width / 8))
          { s with parts := s.parts ++ [(s.pos, n)] ++ [(s.pos + L.idOffset, L.K.width / 8)] } := by
    have hbytes : (recvBuffer.drop (s.pos + L.idOffset)).take (L.K.width / 8) =
        ((xs.take n).drop L.idOffset).take (L.K.width / 8) := by
      rw [← List.drop_drop, hdrop, List.drop_take, List.take_take, Nat.min_eq_left (by omega)]
    rw [copyPart, if_pos (by omega), hbytes]
  refine ⟨s.parts ++ [(s.pos, n)] ++ [(s.pos + L.idOffset, L.K.width / 8)], ?_⟩
  rw [streamRound]
  simp only [hdrop, hremaining, haddress, hheader', hnat]
  rw [if_neg (by omega), if_neg (by omega), if_neg (by omega), if_neg (by omega), Int.toNat_natCast,
    bind_of_ok hframe, bind_of_ok hrequest]
  rfl

/-- **The loop follows the rule**: it takes the frames that the rule takes off what has been
received. -/
theorem loop_eq (hlength : recvBuffer.length < 2 ^ 32) (xs : Bytes) :
    ∀ (s : Responses) (packets : List Bytes) (rounds : ℕ), recvBuffer.drop s.pos = xs →
      xs.length < rounds → (L.rule.drain packets xs).rejected = false →
        ∃ pos taken parts, loop (fun _ => streamRound L.offset L.T L.netorder L.idOffset L.K
            L.idNetorder recvBuffer) (List.replicate rounds 0) s =
              .ok () ⟨pos, s.done ++ taken.map L.response, parts⟩ ∧
          (L.rule.drain packets xs).rest = recvBuffer.drop pos ∧
          (L.rule.drain packets xs).packets = packets ++ taken := by
  induction xs using L.rule.induction with
  | wait xs h =>
    intro s packets rounds hdrop hrounds _
    obtain ⟨rounds, rfl⟩ : ∃ n, rounds = n + 1 := ⟨rounds - 1, by omega⟩
    have hxs := congrArg List.length hdrop
    rw [List.length_drop] at hxs
    have hround := streamRound_wait hdrop (by omega) h
    refine ⟨s.pos, [], s.parts, ?_, ?_, ?_⟩
    · rw [List.replicate_succ, loop, bind_of_ok hround, List.map_nil, List.append_nil]
      rfl
    · rw [Framing.Rule.drain_wait h, hdrop]
    · rw [Framing.Rule.drain_wait h, List.append_nil]
  | reject xs h =>
    intro s packets rounds _ _ hrejected
    rw [Framing.Rule.drain_reject h] at hrejected
    cases hrejected
  | frame xs n f h ih =>
    intro s packets rounds hdrop hrounds hrejected
    obtain ⟨rounds, rfl⟩ : ∃ n, rounds = n + 1 := ⟨rounds - 1, by omega⟩
    have hxs := congrArg List.length hdrop
    rw [List.length_drop] at hxs
    have hpos := L.rule.pos h
    have hle := L.rule.le h
    obtain ⟨parts, hround⟩ := streamRound_frame hdrop (by omega) h
    rw [Framing.Rule.drain_frame h] at hrejected ⊢
    have hrest : recvBuffer.drop (s.pos + n) = xs.drop n := by rw [← List.drop_drop, hdrop]
    have hshorter : (xs.drop n).length < rounds := by
      rw [List.length_drop]
      omega
    obtain ⟨pos, taken, parts', hloop, hend, htaken⟩ :=
      ih ⟨s.pos + n, s.done ++ [L.response f], parts⟩ (packets ++ [f]) rounds hrest hshorter
        hrejected
    refine ⟨pos, f :: taken, parts', ?_, hend, ?_⟩
    · rw [List.replicate_succ, loop, bind_of_ok hround, if_pos rfl, hloop, List.map_cons,
        List.append_assoc, List.singleton_append]
    · rw [htaken, List.append_assoc, List.singleton_append]

/-- What the client has when the stream is in this state. -/
def receiver (L : StreamLayout) (done : List ResponsePacket) (s : Framing.State UInt8 Bytes) :
    Bytes × List ResponsePacket := (s.rest, done ++ s.packets.map L.response)

/-- Receiving one chunk does to the client what feeding it to the rule does to the stream. -/
theorem receive_eq (done : List ResponsePacket) {t : Framing.State UInt8 Bytes} {chunk : Bytes}
    (hlength : (t.rest ++ chunk).length < 2 ^ 32) (h : (L.rule.feed t chunk).rejected = false) :
    L.receive (L.receiver done t) chunk = some (L.receiver done (L.rule.feed t chunk)) := by
  obtain ⟨pos, taken, parts, hloop, hrest, htaken⟩ := loop_eq hlength (t.rest ++ chunk)
    (start (done ++ t.packets.map L.response)) t.packets _ rfl (Nat.lt_succ_self _) h
  have hstream : L.streamResponse (t.rest ++ chunk) (done ++ t.packets.map L.response) = _ := hloop
  rw [receive, receiver, hstream, receiver, Framing.Rule.feed, hrest, htaken, List.map_append,
    ← List.append_assoc]
  rfl

/-- The rule waits for the rest of a frame. -/
theorem IsFrame.decide_part {f part rest : Bytes} (hf : L.IsFrame f) (hf' : f = part ++ rest)
    (hshort : part.length < f.length) : L.rule.decide part = .wait := by
  show L.framePrefix.verdict part = .wait
  rw [Framing.Prefix.verdict]
  split
  · rfl
  · rename_i hlong
    have hheader : L.framePrefix.header = L.offset + L.T.size := rfl
    rw [hheader] at hlong ⊢
    have hlen : L.headerLen part = f.length := by
      rw [← hf.headerLen, hf', headerLen_append (by omega)]
    have hsize := hf.length
    have hid := hf.id
    rw [size_take, hlen, if_neg (by omega), Int.toNat_natCast]
    exact if_pos hshort

/-- The rule takes a frame off the front, whatever follows it. -/
theorem IsFrame.decide_append {f : Bytes} (hf : L.IsFrame f) (rest : Bytes) :
    L.rule.decide (f ++ rest) = .frame f.length f := by
  have hle : f.length ≤ (f ++ rest).length := by
    rw [List.length_append]
    omega
  have hlen : L.headerLen (f ++ rest) = f.length := by
    rw [headerLen_append hf.length, hf.headerLen]
  exact decide_eq_frame.mpr ⟨hle, hlen, hf.length, hf.id, (List.take_left).symm⟩

/-- The frames of a stream and a part of one more. -/
theorem drain_frames {part : Bytes} (hpart : L.rule.decide part = .wait) (frames : List Bytes) :
    ∀ packets : List Bytes, (∀ f ∈ frames, L.IsFrame f) →
      L.rule.drain packets (frames.flatten ++ part) = ⟨part, packets ++ frames, false⟩ := by
  induction frames with
  | nil =>
    intro packets _
    rw [List.flatten_nil, List.nil_append, Framing.Rule.drain_wait hpart, List.append_nil]
  | cons f frames ih =>
    intro packets hframes
    have hf := hframes f List.mem_cons_self
    rw [List.flatten_cons, List.append_assoc, Framing.Rule.drain_frame (hf.decide_append _),
      List.drop_left, ih _ fun g hg => hframes g (List.mem_cons_of_mem _ hg), List.append_assoc,
      List.singleton_append]

/-- The frames of this layout that are at most so long. Two of them that begin alike have the same
length field, so neither goes on behind the other. -/
def code (L : StreamLayout) (limit : ℕ) : Framing.Code UInt8 Bytes where
  IsFrame f := L.IsFrame f ∧ f.length ≤ limit
  bytes f := f
  limit := limit
  length_le h := h.2
  ne_nil {f} h := by
    have hpos := L.framePrefix.header_pos
    have hheader : L.framePrefix.header = L.offset + L.T.size := rfl
    have hlong := h.1.length
    exact List.ne_nil_of_length_pos (by omega)
  prefixFree {f g rest} hf hg h := by
    have hlen : L.headerLen g = L.headerLen f := by rw [h, headerLen_append hf.1.length]
    have hsame : g.length = f.length := by
      have hg' := hg.1.headerLen
      have hf' := hf.1.headerLen
      omega
    rw [h, List.length_append] at hsame
    exact List.length_eq_zero_iff.mp (by omega)

/-- The rule waits for the rest of what the client keeps. -/
theorem decide_isPart {limit : ℕ} {part : Bytes} (h : (L.code limit).IsPart part) :
    L.rule.decide part = .wait := by
  obtain rfl | ⟨f, rest, hf, hbytes, hshort⟩ := h
  · exact L.rule.nil
  · exact hf.1.decide_part hbytes hshort

/-- The client takes the complete frames off its buffer, as long as a `uint32_t` can hold the
length of the buffer. -/
theorem takes_receive (L : StreamLayout) (limit : ℕ) :
    (L.code limit).Takes (2 ^ 32) L.response L.receive := by
  intro kept chunk done frames part hframes hpart hbytes hlength
  have hstream : (L.code limit).stream frames = frames.flatten :=
    congrArg List.flatten (List.map_id frames)
  rw [hstream] at hbytes
  have hdrain : L.rule.feed ⟨kept, [], false⟩ chunk = ⟨part, frames, false⟩ := by
    rw [Framing.Rule.feed, hbytes]
    exact drain_frames (decide_isPart hpart) frames [] fun f hf => (hframes f hf).1
  have hone := receive_eq (L := L) (t := ⟨kept, [], false⟩) done hlength
    (by rw [hdrain])
  rw [hdrain, receiver, receiver, List.map_nil, List.append_nil] at hone
  exact hone

/-- **Every chunking of a stream gives the same responses**: whatever chunks the frames of a stream
and a part of one more are received in, the client gets one response for each frame, in order and
with its bytes and its id, and keeps the part. The stream may be of any length: what a `uint32_t`
must measure is a frame and a chunk, not more, since the client keeps less than a frame. -/
theorem receive_stream (L : StreamLayout) (limit : ℕ) (frames : List Bytes) (part : Bytes)
    (hframes : ∀ f ∈ frames, L.IsFrame f ∧ f.length ≤ limit)
    (hpart : part = [] ∨ ∃ f rest, (L.IsFrame f ∧ f.length ≤ limit) ∧ f = part ++ rest ∧
      part.length < f.length)
    (chunks : List Bytes) (hbytes : chunks.flatten = frames.flatten ++ part)
    (hchunks : ∀ chunk ∈ chunks, limit + chunk.length < 2 ^ 32) (done : List ResponsePacket) :
    chunks.foldlM L.receive ([], done) = some (part, done ++ frames.map L.response) := by
  have hstream : (L.code limit).stream frames = frames.flatten :=
    congrArg List.flatten (List.map_id frames)
  rw [← hstream] at hbytes
  exact (L.takes_receive limit).chunks hpart chunks [] done frames (.inl rfl) hframes hbytes hchunks

/-- A length of two bytes and an id of four behind it, both in network order. -/
private def sampleLayout : StreamLayout :=
  ⟨0, ⟨.uint16, by decide⟩, true, 2, .uint32, true, by decide⟩

/-- Two frames and the first byte of a third one, in chunks that cut all of them. -/
theorem receive_stream_sample :
    [[0], [8, 0, 0, 0, 5, 1], [2, 0, 6], [0, 0, 0, 9, 0]].foldlM sampleLayout.receive ([], []) =
      some ([0], [[0, 8, 0, 0, 0, 5, 1, 2], [0, 6, 0, 0, 0, 9]].map sampleLayout.response) ∧
    [[0, 8, 0, 0, 0, 5, 1, 2], [0, 6, 0, 0, 0, 9]].map
      (fun f => (sampleLayout.response f).iRequestId) = [5, 9] := by
  have hframe : sampleLayout.IsFrame [0, 6, 0, 0, 0, 9] := ⟨by decide, by decide, by decide⟩
  have hframes : ∀ f ∈ [[0, 8, 0, 0, 0, 5, 1, 2], [0, 6, 0, 0, 0, 9]],
      sampleLayout.IsFrame f ∧ f.length ≤ 8 := by
    intro f hf
    obtain rfl | rfl := List.mem_pair.mp hf
    · exact ⟨⟨by decide, by decide, by decide⟩, by decide⟩
    · exact ⟨hframe, by decide⟩
  refine ⟨?_, by decide⟩
  exact receive_stream sampleLayout 8 _ [0] hframes
    (.inr ⟨_, [6, 0, 0, 0, 9], ⟨hframe, by decide⟩, rfl, by decide⟩) _ rfl (by decide) []

end StreamLayout

end ProxyProtocol

end Tars
