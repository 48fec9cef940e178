import Tars.Tup.ResponsePrefixes
import Tars.Tup.UniRoundTrip

/-!
# TUP calls

The first members of a TUP response are at most 15 bytes, so what `tupResponseLen` reads from a
partial packet has always been received: whatever chunks the responses arrive in, the client gets
each of them once. A response has the whole packet in its buffer, from which the client decodes
what the server has put into it.
-/

namespace Tars

open LittleEndian Decoding TarsOutputStream TarsInputStream

/-! ### The first members -/

namespace RequestPacket

/-- The first members of a packet, those that `tupResponseLen` reads from a partial one. -/
def front (p : RequestPacket) : ProxyProtocol.tupHead.denote :=
  (p.iVersion, p.cPacketType, p.iMessageType, p.iRequestId, ())

/-- The bytes of the first members, as `writeTo` begins with them. -/
def frontBytes (p : RequestPacket) : Bytes := encodeFields ProxyProtocol.tupHead p.front

variable {p : RequestPacket} {bs : Bytes}

/-- The bytes are the fields of four integers, one behind the other, each with its own tag. -/
theorem frontBytes_eq (p : RequestPacket) : p.frontBytes =
    encodeInteger p.iVersion.toInt 1 ++ (encodeInteger p.cPacketType.toInt 2 ++
      (encodeInteger p.iMessageType.toInt 3 ++ (encodeInteger p.iRequestId.toInt 4 ++ []))) := rfl

/-- There are at most 15 of them, since each of the integers has a type that limits its field. -/
theorem length_frontBytes_le (p : RequestPacket) : p.frontBytes.length ≤ 15 := by
  have hhead : headLen 1 = 1 ∧ headLen 2 = 1 ∧ headLen 3 = 1 ∧ headLen 4 = 1 := by decide
  obtain ⟨h1, h2, h3, h4⟩ := hhead
  have hversion := integerSize_toInt_le (k := 2) (by decide) p.iVersion
  have htype := integerSize_toInt_le (k := 1) (by decide) p.cPacketType
  have hmessage := integerSize_toInt_le (k := 4) (by decide) p.iMessageType
  have hid := integerSize_toInt_le (k := 4) (by decide) p.iRequestId
  simp only [frontBytes_eq, List.length_append, length_encodeInteger, h1, h2, h3, h4,
    List.length_nil]
  omega

/-- The bytes of a packet begin with its first members. -/
theorem writeTo_begins (h : p.writeTo = .ok bs) : ∃ rest, bs = p.frontBytes ++ rest := by
  obtain ⟨rest1, hrest1, rfl⟩ := ResponsePacket.writeTo_int h
  obtain ⟨rest2, hrest2, rfl⟩ := ResponsePacket.writeTo_int hrest1
  obtain ⟨rest3, hrest3, rfl⟩ := ResponsePacket.writeTo_int hrest2
  obtain ⟨rest4, -, rfl⟩ := ResponsePacket.writeTo_int hrest3
  refine ⟨rest4, ?_⟩
  simp only [frontBytes_eq, List.append_assoc, List.nil_append]
  rfl

/-- Peeking at a TUP packet reads exactly the bytes of its first members. -/
theorem reads_front (p : RequestPacket) (fuel : ℕ) :
    Reads (ProxyProtocol.tupPeek (fuel + 1)) p.frontBytes () := by
  have hlimited : ProxyProtocol.tupHead.Limited plainTypes.less (· < 2 ^ 32) p.front :=
    ⟨trivial, trivial, trivial, trivial, trivial⟩
  have hvalid : ProxyProtocol.tupHead.Valid plainTypes.less p.front :=
    ⟨trivial, trivial, trivial, trivial, trivial⟩
  exact (reads_writeTo _ _ hlimited _ (writeTo_eq _ _ hvalid) _).map fun _ => ()

end RequestPacket

namespace ProxyProtocol

/-! ### Rounds -/

/-- What `tupResponseLen` makes of a packet in its frame. -/
def tupRsp (p : RequestPacket) (f : Bytes) : ResponsePacket :=
  { ResponsePacket.init with
    cPacketType := p.cPacketType
    iMessageType := p.iMessageType
    iRequestId := p.iRequestId
    iVersion := p.iVersion
    context := p.context
    sBuffer := f }

/-- The frame of a packet, as `tarsRequest` and `encode` of a `UniPacket` write it, of at most so
many bytes. -/
structure IsTupFrame (limit : ℕ) (p : RequestPacket) (f : Bytes) : Prop where
  /-- The frame has been written. -/
  request : tarsRequest p = .ok f
  /-- The maps are ones that a `std::map` can hold. -/
  maps : Ascending p.context ∧ Ascending p.status
  /-- The frame is not longer than the limit. -/
  short : f.length ≤ limit

section Rounds

variable {limit : ℕ} {recvBuffer f rest : Bytes} {p : RequestPacket} {s : Responses}

/-- A round of `tupResponseLen` that finds a complete frame takes it. -/
theorem tupRound_frame (hf : IsTupFrame limit p f) (hdrop : recvBuffer.drop s.pos = f ++ rest)
    (hlength : (f ++ rest).length < 2 ^ 32) (fuel : ℕ) :
    ∃ parts, tupRound recvBuffer (fuel + 1) s =
      .ok true ⟨s.pos + f.length, s.done ++ [tupRsp p f], parts⟩ := by
  obtain ⟨os, hos, hframe⟩ := bind_eq_ok hf.request
  obtain rfl : frame os = f := Except.ok.inj hframe
  have hremaining := remaining_eq hdrop hlength
  have hreceived := congrArg List.length hdrop
  have hcopied : (recvBuffer.drop s.pos).take (4 + os.length) = frame os := by
    rw [hdrop, List.take_left' (length_frame os)]
  rw [List.length_append, length_frame] at hlength hremaining hreceived
  rw [List.length_drop] at hreceived
  have hheader : responseLen (recvBuffer.drop s.pos) = 4 + os.length := by
    refine responseLen_eq (by omega) ?_
    rw [hdrop, List.take_append_of_le_length (by rw [length_frame]; omega)]
  have hbody : (frame os).drop 4 = os := List.drop_left' (length_store 4 _)
  have hlimited : p.Limited (· < 2 ^ 32) :=
    RequestPacket.limited_of_writeTo (RequestPacket.limited_iff.mpr ⟨trivial,
      ⟨trivial, hf.maps.1⟩, trivial, hf.maps.2⟩) hos (by omega)
  have hread := (RequestPacket.reads_readFrom hlimited hos fuel .init).setBuffer (by omega)
  have hpacket : tupPacket recvBuffer (fuel + 1) s.pos (4 + os.length) s =
      .ok (tupRsp p (frame os)) ⟨s.pos + (4 + os.length), s.done,
        s.parts ++ [(s.pos, 4 + os.length)] ++ [(s.pos + 4, os.length)]⟩ := by
    have hcopy : copyPart recvBuffer s.pos (4 + os.length) s =
        .ok (frame os) { s with parts := s.parts ++ [(s.pos, 4 + os.length)] } := by
      rw [copyPart, if_pos (by omega), hcopied]
    have hdecode : decodePart ((frame os).drop 4) (s.pos + 4) os.length
        (RequestPacket.readFrom (fuel + 1) .init)
          ⟨s.pos + (4 + os.length), s.done, s.parts ++ [(s.pos, 4 + os.length)]⟩ =
        .ok p ⟨s.pos + (4 + os.length), s.done,
          s.parts ++ [(s.pos, 4 + os.length)] ++ [(s.pos + 4, os.length)]⟩ := by
      simp only [decodePart, hbody, hread]
    rw [tupPacket, bind_of_ok hcopy, bind_of_ok (advance_apply _ _), sizeSub_of_le (by omega),
      Nat.add_sub_cancel_left, bind_of_ok hdecode]
    rfl
  refine ⟨s.parts ++ [(s.pos, 4 + os.length)] ++ [(s.pos + 4, os.length)], ?_⟩
  simp only [tupRound, packetRound]
  rw [if_neg (by omega), if_neg (by omega), hheader, bind_of_ok hpacket, length_frame]
  rfl

/-- A round that finds a part of a frame leaves the loop: the first members have been received
before it looks at them. -/
theorem tupRound_part {part : Bytes} (hlimit : limit < 2 ^ 32) (hf : IsTupFrame limit p f)
    (hf' : f = part ++ rest) (hshort : part.length < f.length)
    (hdrop : recvBuffer.drop s.pos = part) (fuel : ℕ) :
    ∃ parts, tupRound recvBuffer (fuel + 1) s = .ok false ⟨s.pos, s.done, parts⟩ := by
  obtain ⟨os, hos, hframe⟩ := bind_eq_ok hf.request
  obtain rfl : frame os = f := Except.ok.inj hframe
  have hlength := hf.short.trans_lt hlimit
  have hremaining := remaining_eq hdrop (by omega)
  have hreceived := congrArg List.length hdrop
  rw [List.length_drop] at hreceived
  by_cases hfour : part.length < 4
  · refine ⟨s.parts, ?_⟩
    simp only [tupRound, packetRound]
    rw [if_pos (.inr (by omega))]
  rw [length_frame] at hlength hshort
  have hheader : responseLen (recvBuffer.drop s.pos) = 4 + os.length := by
    refine responseLen_eq hlength ?_
    rw [hdrop, hf', List.take_append_of_le_length (by omega)]
  simp only [tupRound, packetRound]
  rw [if_neg (by omega), hheader, if_pos (by omega), hremaining]
  by_cases htwenty : part.length < 20
  · refine ⟨s.parts, ?_⟩
    rw [if_pos htwenty]
  obtain ⟨more, rfl⟩ := RequestPacket.writeTo_begins hos
  have hfront := p.length_frontBytes_le
  have hbehind := drop_add_four hdrop
  have hbytes : part.drop 4 ++ rest = p.frontBytes ++ more := by
    rw [← List.drop_append_of_le_length (by omega), ← hf', frame,
      List.drop_left' (length_store 4 _)]
  have hpeeked : (part.drop 4).take 20 =
      p.frontBytes ++ (((part.drop 4).take 20).drop p.frontBytes.length) := by
    have htake := congrArg (List.take p.frontBytes.length) hbytes
    rw [List.take_left, List.take_append_of_le_length (by rw [List.length_drop]; omega)] at htake
    nth_rewrite 1 [← List.take_append_drop p.frontBytes.length ((part.drop 4).take 20)]
    rw [List.take_take, Nat.min_eq_left (by omega), htake]
  have hat : At (.setBuffer (part.drop 4) 20)
      (p.frontBytes ++ (((part.drop 4).take 20).drop p.frontBytes.length)) := by
    rw [← hpeeked]
    exact ⟨(by decide : 20 < 2 ^ 63), ⟨Nat.zero_le _, Nat.zero_le _⟩, List.drop_zero⟩
  have hpeek : decodePart (recvBuffer.drop (s.pos + 4)) (s.pos + 4) 20 (tupPeek (fuel + 1)) s =
      .ok () ⟨s.pos, s.done, s.parts ++ [(s.pos + 4, 20)]⟩ := by
    rw [hbehind]
    simp only [decodePart, p.reads_front fuel _ _ hat]
  refine ⟨s.parts ++ [(s.pos + 4, 20)], ?_⟩
  rw [if_neg htwenty, bind_of_ok hpeek]
  rfl

end Rounds

/-! ### Runs -/

/-- `tupResponse`, with a round for every byte, which is enough since every round advances. -/
def tupResponse (fuel : ℕ) (recvBuffer : Bytes) (done : List ResponsePacket) :
    Outcome Responses ResponseException Unit :=
  loop (tupRound recvBuffer) (List.replicate (recvBuffer.length + 1) fuel) (start done)

/-- A client that appends a chunk to what it has kept and removes what the decoder has consumed. -/
def tupReceive (fuel : ℕ) (s : Bytes × List ResponsePacket) (chunk : Bytes) :
    Option (Bytes × List ResponsePacket) :=
  match tupResponse fuel (s.1 ++ chunk) s.2 with
  | .ok _ t => some ((s.1 ++ chunk).drop t.pos, t.done)
  | _ => none

/-- Packets with their frames, one behind the other, as the peer sends them. -/
def stream (sent : List (RequestPacket × Bytes)) : Bytes := (sent.map Prod.snd).flatten

/-- The responses that the client gets for packets with their frames. -/
def responses (sent : List (RequestPacket × Bytes)) : List ResponsePacket :=
  sent.map fun e => tupRsp e.1 e.2

/-- Nothing, or a part of a frame that is not the whole one. -/
def IsPart (limit : ℕ) (part : Bytes) : Prop :=
  part = [] ∨ ∃ p f rest, IsTupFrame limit p f ∧ f = part ++ rest ∧ part.length < f.length

section Runs

variable {limit fuel : ℕ} {recvBuffer part : Bytes} {s : Responses}
  {sent : List (RequestPacket × Bytes)}

/-- A frame has the four bytes of its length. -/
theorem IsTupFrame.four_le {p : RequestPacket} {f : Bytes} (h : IsTupFrame limit p f) :
    4 ≤ f.length := by
  obtain ⟨os, -, hframe⟩ := bind_eq_ok h.request
  rw [← Except.ok.inj hframe, length_frame]
  omega

/-- **The loop takes the complete frames** and leaves the part. -/
theorem loop_tupRound (hlimit : limit < 2 ^ 32) (hpart : IsPart limit part)
    (hsent : ∀ e ∈ sent, IsTupFrame limit e.1 e.2) :
    ∀ (s : Responses) (rounds : ℕ), recvBuffer.drop s.pos = stream sent ++ part →
      (stream sent ++ part).length < 2 ^ 32 → (stream sent).length < rounds →
        ∃ parts, loop (tupRound recvBuffer) (List.replicate rounds (fuel + 1)) s =
          .ok () ⟨s.pos + (stream sent).length, s.done ++ responses sent, parts⟩ := by
  induction sent with
  | nil =>
    intro s rounds hdrop hlength hrounds
    obtain ⟨rounds, rfl⟩ : ∃ n, rounds = n + 1 := ⟨rounds - 1, by omega⟩
    have hround : ∃ parts, tupRound recvBuffer (fuel + 1) s = .ok false ⟨s.pos, s.done, parts⟩ := by
      obtain rfl | ⟨p, f, rest, hf, hf', hshort⟩ := hpart
      · refine ⟨s.parts, ?_⟩
        have hremaining := remaining_eq hdrop hlength
        have hnone : (stream [] ++ []).length = 0 := rfl
        rw [hnone] at hremaining
        simp only [tupRound, packetRound]
        rw [if_pos (.inr (by omega))]
      · exact tupRound_part hlimit hf hf' hshort hdrop fuel
    obtain ⟨parts, hround⟩ := hround
    refine ⟨parts, ?_⟩
    rw [List.replicate_succ, loop, bind_of_ok hround]
    show Outcome.ok () (Responses.mk s.pos s.done parts) = .ok () ⟨s.pos + 0, s.done ++ [], parts⟩
    rw [List.append_nil, Nat.add_zero]
  | cons e sent ih =>
    intro s rounds hdrop hlength hrounds
    have he := hsent e List.mem_cons_self
    have hfour := he.four_le
    have hcons : stream (e :: sent) = e.2 ++ stream sent := rfl
    rw [hcons, List.append_assoc] at hdrop hlength
    rw [hcons, List.length_append] at hrounds
    obtain ⟨rounds, rfl⟩ : ∃ n, rounds = n + 1 := ⟨rounds - 1, by omega⟩
    obtain ⟨parts, hround⟩ := tupRound_frame he hdrop hlength fuel
    have hrest : recvBuffer.drop (s.pos + e.2.length) = stream sent ++ part := by
      rw [← List.drop_drop, hdrop, List.drop_left]
    rw [List.length_append] at hlength
    obtain ⟨parts', hloop⟩ := ih (fun d hd => hsent d (List.mem_cons_of_mem _ hd))
      ⟨s.pos + e.2.length, s.done ++ [tupRsp e.1 e.2], parts⟩ rounds hrest (by omega) (by omega)
    refine ⟨parts', ?_⟩
    rw [List.replicate_succ, loop, bind_of_ok hround, if_pos rfl, hloop, hcons, List.length_append,
      List.append_assoc, Nat.add_assoc]
    rfl

/-- One chunk: the client takes the frames that are complete. -/
theorem tupReceive_eq {kept chunk : Bytes} (hlimit : limit < 2 ^ 32) (hpart : IsPart limit part)
    (hsent : ∀ e ∈ sent, IsTupFrame limit e.1 e.2) (hbytes : kept ++ chunk = stream sent ++ part)
    (hlength : (kept ++ chunk).length < 2 ^ 32) (done : List ResponsePacket) :
    tupReceive (fuel + 1) (kept, done) chunk = some (part, done ++ responses sent) := by
  rw [hbytes] at hlength
  have hle : (stream sent).length < (stream sent ++ part).length + 1 := by
    rw [List.length_append]
    omega
  obtain ⟨parts, hloop⟩ := loop_tupRound hlimit hpart hsent (start done) _ rfl hlength hle
  have hresponse : tupResponse (fuel + 1) (stream sent ++ part) done = _ := hloop
  rw [tupReceive, hbytes, hresponse]
  show some ((stream sent ++ part).drop (0 + (stream sent).length), _) = _
  rw [Nat.zero_add, List.drop_left]
  rfl

/-- The frames of packets that are at most so long, with their packets. Their first four bytes are
their lengths, so neither of two frames goes on behind the other. -/
def tupCode (hlimit : limit < 2 ^ 32) : Framing.Code UInt8 (RequestPacket × Bytes) where
  IsFrame e := IsTupFrame limit e.1 e.2
  bytes e := e.2
  limit := limit
  length_le h := h.short
  ne_nil h := List.ne_nil_of_length_pos (Nat.lt_of_lt_of_le (by decide) h.four_le)
  prefixFree {e g rest} he hg h := by
    have hfour := he.four_le
    obtain ⟨os, -, hos⟩ := bind_eq_ok hg.request
    obtain ⟨es, -, hes⟩ := bind_eq_ok he.request
    have hos : frame os = g.2 := Except.ok.inj hos
    have hes : frame es = e.2 := Except.ok.inj hes
    have hglen := hg.short.trans_lt hlimit
    have helen := he.short.trans_lt hlimit
    have hleng : responseLen g.2 = 4 + os.length := by
      refine responseLen_eq (by rw [← length_frame, hos]; exact hglen) ?_
      rw [hos]
    have hlene : responseLen g.2 = 4 + es.length := by
      refine responseLen_eq (by rw [← length_frame, hes]; exact helen) ?_
      rw [hes, h, List.take_append_of_le_length hfour]
    have hsame : g.2.length = e.2.length := by
      rw [← hos, ← hes, length_frame, length_frame]
      omega
    rw [h, List.length_append] at hsame
    exact List.length_eq_zero_iff.mp (by omega)

/-- What the client keeps is a part in the sense of the frames. -/
theorem isPart_tupCode (hlimit : limit < 2 ^ 32) : (tupCode hlimit).IsPart part ↔
    IsPart limit part := by
  constructor
  · rintro (hnone | ⟨⟨p, f⟩, rest, hf, hbytes, hshort⟩)
    · exact .inl hnone
    · exact .inr ⟨p, f, rest, hf, hbytes, hshort⟩
  · rintro (hnone | ⟨p, f, rest, hf, hbytes, hshort⟩)
    · exact .inl hnone
    · exact .inr ⟨(p, f), rest, hf, hbytes, hshort⟩

/-- **Every chunking gives the same responses**: whatever chunks the frames of packets and a part
of one more are received in, the client gets a response for each packet, in order, and keeps the
part. -/
theorem tupReceive_chunks (hlimit : limit < 2 ^ 32) (hpart : IsPart limit part)
    (hsent : ∀ e ∈ sent, IsTupFrame limit e.1 e.2) (chunks : List Bytes)
    (hbytes : chunks.flatten = stream sent ++ part)
    (hchunks : ∀ chunk ∈ chunks, limit + chunk.length < 2 ^ 32) :
    chunks.foldlM (tupReceive (fuel + 1)) ([], []) = some (part, responses sent) := by
  have htakes : (tupCode hlimit).Takes (2 ^ 32) (fun e => tupRsp e.1 e.2)
      (tupReceive (fuel + 1)) := by
    intro kept chunk done frames part hframes hpart hfront hlength
    exact tupReceive_eq hlimit ((isPart_tupCode hlimit).mp hpart) hframes hfront hlength done
  exact htakes.chunks ((isPart_tupCode hlimit).mpr hpart) chunks [] [] sent (.inl rfl) hsent hbytes
    hchunks

end Runs

end ProxyProtocol

/-! ### Calls -/

namespace UniPacket

/-- `UniPacket()`, which sets both versions to 3 and leaves the output stream empty. -/
def init : UniPacket := { RequestPacket.init with iVersion := 3, data := [], iVer := 3, os := [] }

/-- `createResponse`, a new packet with the names and the id of the request. -/
def createResponse (p : UniPacket) : UniPacket :=
  { init with
    sServantName := p.sServantName
    sFuncName := p.sFuncName
    iRequestId := p.iRequestId }

/-- `setTarsContext`, which replaces the context of the packet and leaves the rest. -/
def setTarsContext (p : UniPacket) (value : List (Bytes × Bytes)) : UniPacket :=
  { p with context := value }

/-- `setTarsStatus`, which replaces the status of the packet and leaves the rest. -/
def setTarsStatus (p : UniPacket) (value : List (Bytes × Bytes)) : UniPacket :=
  { p with status := value }

/-- `STATUS_RESULT_CODE`, the key of the status under which a server puts its result code. -/
def STATUS_RESULT_CODE : Bytes := bytes "STATUS_RESULT_CODE"

/-- `STATUS_RESULT_DESC`, the key of the status under which a server puts a text about it. -/
def STATUS_RESULT_DESC : Bytes := bytes "STATUS_RESULT_DESC"

/-- `getTarsResultCode`, which is 0 where the status has no code. -/
def getTarsResultCode (p : UniPacket) : ℤ :=
  match p.status.lookup STATUS_RESULT_CODE with
  | none => 0
  | some code => atoi code

/-- `getTarsResultDesc`, which is empty where the status has no text. -/
def getTarsResultDesc (p : UniPacket) : Bytes :=
  match p.status.lookup STATUS_RESULT_DESC with
  | none => []
  | some desc => desc

end UniPacket

/-- A request that a server answers, with everything that goes into the response. -/
structure Reply (types : Codegen) where
  /-- The request that is answered. -/
  request : UniPacket
  /-- The context of the response. -/
  context : List (Bytes × Bytes)
  /-- The status of the response. -/
  status : List (Bytes × Bytes)
  /-- What the server puts into it. -/
  calls : List (UniPacket.Put types)
  /-- What the output stream holds before. -/
  leftover : Bytes

namespace Reply

variable {types : Codegen}

/-- The response before the server puts something into it. -/
def fresh (r : Reply types) : UniPacket :=
  (r.request.createResponse.setTarsContext r.context).setTarsStatus r.status

/-- The response, after all the values have been put into it. -/
def packet (r : Reply types) : UniPacket := r.fresh.puts r.calls

/-- What `encode` makes of the response: the frame that goes to the client. -/
def encoded (r : Reply types) : Bytes := (r.packet.encode r.leftover []).2.1

/-- The response can be sent: nothing has thrown, and its sizes fit the fields that hold them. -/
structure IsSent (limit : ℕ) (r : Reply types) : Prop where
  /-- The maps are ones that a `std::map` can hold. -/
  maps : Ascending r.context ∧ Ascending r.status
  /-- `encode` has not thrown. -/
  encodes : (r.packet.encode r.leftover []).2.2 = none
  /-- The sizes in the packet fit 32 bits. -/
  sizes : r.packet.SizesFit
  /-- The frame is not longer than the limit. -/
  short : r.encoded.length ≤ limit

/-- The client gets what the server has put into the response. -/
structure Delivers (r : Reply types) (rsp : ResponsePacket) : Prop where
  /-- It finds the request, by its id. -/
  requestId : rsp.iRequestId = r.request.iRequestId
  /-- The values come back under their names. -/
  restores : UniPacket.Restores r.calls r.packet rsp.sBuffer
  /-- The result text is the one that the server has set, if it has. -/
  result : ∀ fuel old s q s', UniPacket.decode (fuel + 1) old rsp.sBuffer s = .ok q s' →
    q.getTarsResultDesc = (r.status.lookup UniPacket.STATUS_RESULT_DESC).getD [] ∧
      (r.status.lookup UniPacket.STATUS_RESULT_CODE = none → q.getTarsResultCode = 0) ∧
        ∀ code, -2 ^ 31 ≤ code → code < 2 ^ 31 →
          r.status.lookup UniPacket.STATUS_RESULT_CODE = some (toString code) →
            q.getTarsResultCode = code

variable {limit : ℕ} {r : Reply types}

/-- The values do not touch the members of the request that the packet is made of. -/
theorem packet_toRequestPacket (r : Reply types) :
    r.packet.toRequestPacket = r.fresh.toRequestPacket := UniPacket.request_puts r.fresh r.calls

/-- What is sent is the frame of a packet with the members of the response, and the values can be
got from it. -/
theorem IsSent.spec (h : r.IsSent limit) (hlimit : limit < 2 ^ 32) :
    ∃ sBuffer, ProxyProtocol.IsTupFrame limit { r.packet.toRequestPacket with sBuffer } r.encoded ∧
      UniPacket.Restores r.calls r.packet r.encoded := by
  have hencode : (r.packet.encode r.leftover []).2 = (r.encoded, none) :=
    Prod.ext rfl h.encodes
  obtain ⟨sBuffer, os, hencodes, hframe⟩ := UniPacket.encode_eq_ok_iff.mp hencode
  have hlength := h.short.trans_lt hlimit
  rw [hframe, ProxyProtocol.length_frame] at hlength
  refine ⟨sBuffer, ⟨?_, ?_, h.short⟩, ?_⟩
  · rw [ProxyProtocol.tarsRequest, hencodes.2.2.2, hframe]
    rfl
  · rw [packet_toRequestPacket]
    exact h.maps
  · rw [hframe]
    exact UniPacket.restores_of_sizesFit rfl h.maps hencodes (by omega) h.sizes

/-- The client gets what the server put, if `get` finds the values in the frame. -/
theorem delivers {sBuffer : Bytes} (h : UniPacket.Restores r.calls r.packet r.encoded) :
    r.Delivers
      (ProxyProtocol.tupRsp { r.packet.toRequestPacket with sBuffer } r.encoded) where
  requestId := by
    show r.packet.toRequestPacket.iRequestId = r.request.iRequestId
    rw [packet_toRequestPacket]
    rfl
  restores := h
  result := by
    intro fuel old s q s' hdecode
    obtain ⟨q', s'', hdecode', hsame, -, -⟩ := h fuel old s
    obtain ⟨rfl, -⟩ := Outcome.ok.inj (hdecode.symm.trans hdecode')
    have hstatus : q.status = r.status := by
      rw [hsame]
      exact congrArg RequestPacket.status r.packet_toRequestPacket
    rw [UniPacket.getTarsResultDesc, UniPacket.getTarsResultCode, hstatus]
    refine ⟨?_, fun hnone => ?_, fun code hlo hhi hcode => ?_⟩
    · cases r.status.lookup UniPacket.STATUS_RESULT_DESC <;> rfl
    · rw [hnone]
    · rw [hcode]
      exact atoi_toString hlo hhi

open ProxyProtocol in
/-- The frames of the responses, and what the client makes of them. -/
theorem frames (hlimit : limit < 2 ^ 32) (replies : List (Reply types)) :
    (∀ r ∈ replies, r.IsSent limit) →
      ∃ sent, (∀ e ∈ sent, IsTupFrame limit e.1 e.2) ∧
        stream sent = (replies.map encoded).flatten ∧
          List.Forall₂ Delivers replies (responses sent) := by
  induction replies with
  | nil =>
    intro _
    refine ⟨[], ?_, rfl, .nil⟩
    rintro e ⟨⟩
  | cons r replies ih =>
    intro hsent
    obtain ⟨sBuffer, hframe, hrestores⟩ := (hsent r List.mem_cons_self).spec hlimit
    obtain ⟨sent, hall, hstream, hdelivers⟩ :=
      ih fun d hd => hsent d (List.mem_cons_of_mem _ hd)
    refine ⟨({ r.packet.toRequestPacket with sBuffer }, r.encoded) :: sent, ?_, ?_,
      .cons (delivers hrestores) hdelivers⟩
    · rintro e (_ | ⟨_, he⟩)
      · exact hframe
      · exact hall e he
    · rw [List.map_cons, List.flatten_cons, ← hstream]
      rfl

open ProxyProtocol in
/-- **The responses of TUP calls reach their callers.** Whatever chunks the encoded responses and a
part of one more are received in, the client gets one response for each of them, in order and
under the id of its request, and decodes from it the values, the result code and the description
that the server has put into it. -/
theorem tupReceive_encoded (hlimit : limit < 2 ^ 32) (fuel : ℕ) (replies : List (Reply types))
    (hsent : ∀ r ∈ replies, r.IsSent limit) (part : Bytes) (hpart : IsPart limit part)
    (chunks : List Bytes) (hchunks : ∀ chunk ∈ chunks, limit + chunk.length < 2 ^ 32)
    (hbytes : chunks.flatten = (replies.map encoded).flatten ++ part) :
    ∃ done, chunks.foldlM (tupReceive (fuel + 1)) ([], []) = some (part, done) ∧
      List.Forall₂ Delivers replies done := by
  obtain ⟨sent, hall, hstream, hdelivers⟩ := frames hlimit replies hsent
  rw [← hstream] at hbytes
  exact ⟨_, tupReceive_chunks hlimit hpart hall chunks hbytes hchunks, hdelivers⟩

/-- A response with a result code and a string. -/
private def sample : Reply plainTypes where
  request := { UniPacket.init with iRequestId := 7, sServantName := [83], sFuncName := [102] }
  context := [([97], [98])]
  status := [(UniPacket.STATUS_RESULT_CODE, toString (-3))]
  calls := [⟨[98], .string, [120], trivial, []⟩]
  leftover := []

/-- The sample can be sent, in a frame of at most 100 bytes. -/
private theorem isSent_sample : sample.IsSent 100 where
  maps := by decide
  encodes := rfl
  sizes := by decide +kernel
  short := by decide +kernel

/-- Two responses arrive in three chunks, of which the second holds the end of one and the start of
the other. -/
theorem tupReceive_encoded_sample : ∃ done,
    [sample.encoded.take 30, sample.encoded.drop 30 ++ sample.encoded.take 2,
        sample.encoded.drop 2].foldlM (ProxyProtocol.tupReceive 4) ([], []) = some ([], done) ∧
      List.Forall₂ Delivers [sample, sample] done := by
  refine @tupReceive_encoded _ 100 (by decide) 3 [sample, sample] ?_ [] (.inl rfl) _ ?_ ?_
  · intro r hr
    obtain rfl : r = sample := by simpa using hr
    exact isSent_sample
  · decide +kernel
  · decide +kernel

end Reply

end Tars
