import Tars.Tup.AppProtocol
import Tars.Tup.ResponseF

/-!
# The response decoders

The decoders of `ProxyProtocol` take one response after the other off what has been received. All
checks of the length in front of a response have empty bodies. Progress fails where a length is too
small, where the peek at a partial packet reaches behind the received bytes, and where the decoding
of a packet does not end.
-/

namespace Tars

open LittleEndian Decoding

/-- The exceptions that leave a decoder of responses: those of the encoding, and one of the standard
library. -/
inductive ResponseException where
  /-- An exception of the decoding. -/
  | decode (e : TarsException)
  /-- The `length_error` of a vector. -/
  | lengthError
  deriving DecidableEq

/-- The variables of a decoder, with a record of the bytes that it has touched. -/
structure Responses where
  /-- `pos`. -/
  pos : ℕ
  /-- `done`. -/
  done : List ResponsePacket
  /-- The parts of the received bytes that were copied or given to an input stream: where they
  start and how long they are. -/
  parts : List (ℕ × ℕ)
  deriving DecidableEq

/-- A decoder of responses, which works on its variables and may throw. -/
abbrev Respond := Decoder Responses ResponseException

namespace ProxyProtocol

/-- Decode a part of the received bytes with an input stream that finds it in some memory. -/
def decodePart {α : Type} (memory : Bytes) (start size : ℕ) (m : Decode α) : Respond α := fun s =>
  let s := { s with parts := s.parts ++ [(start, size)] }
  match m (.setBuffer memory size) with
  | .ok v _ => .ok v s
  | .thrown e _ => .thrown (.decode e) s
  | .fault => .fault
  | .refused => .refused
  | .timeout => .timeout

/-- `memcpy` of a part of the received bytes, which must lie inside them. -/
def copyPart (recvBuffer : Bytes) (start size : ℕ) : Respond Bytes := fun s =>
  if start + size ≤ recvBuffer.length then
    .ok ((recvBuffer.drop start).take size) { s with parts := s.parts ++ [(start, size)] }
  else .fault

/-- `done.push_back`, which appends a response to those delivered before it. -/
def pushBack (rsp : ResponsePacket) : Respond Unit := fun s =>
  .ok () { s with done := s.done ++ [rsp] }

/-- Move `pos` behind a number of bytes, as `pos += n` does. -/
def advance (n : ℕ) : Respond Unit := fun s => .ok () { s with pos := s.pos + n }

@[simp] theorem advance_apply (n : ℕ) (s : Responses) :
    advance n s = .ok () { s with pos := s.pos + n } := rfl

/-- The length in front of a packet, as the decoders of responses read it. -/
def responseLen (input : Bytes) : ℕ := (htonl (BitVec.ofNat 32 (load (input.take 4)))).toNat

/-- The `uint32_t` that holds the number of bytes from a position on. -/
def remaining (recvBuffer : Bytes) (pos : ℕ) : ℕ := (recvBuffer.length - pos) % 2 ^ 32

/-- One round of the loops of `tarsResponseLen` and `tupResponseLen`; whether there is another one.
They differ in what they read from a partial packet, and in how they take a packet that starts at a
position and has a length. -/
def packetRound (recvBuffer : Bytes) (peek : Decode Unit)
    (packet : ℕ → ℕ → Respond ResponsePacket) : Respond Bool := fun s =>
  let len := remaining recvBuffer s.pos
  if recvBuffer.length ≤ s.pos ∨ len < 4 then .ok false s
  else
    let iHeaderLen := responseLen (recvBuffer.drop s.pos)
    if len < iHeaderLen then
      if len < 20 then .ok false s
      else (do
        decodePart (recvBuffer.drop (s.pos + 4)) (s.pos + 4) 20 peek
        pure false) s
    else (do
      let rsp ← packet s.pos iHeaderLen
      pushBack rsp
      pure true) s

/-- The members of a response that `tarsResponseLen` reads from a partial one, all optional. -/
abbrev tarsHead : Fields :=
  .cons 1 false (.int .short) <| .cons 2 false (.int .char) <| .cons 3 false (.int .int32) <|
  .cons 4 false (.int .int32) <| .cons 5 false (.int .int32) .nil

/-- What `tarsResponseLen` reads from a partial response to find out about its rest. -/
def tarsPeek (fuel : ℕ) : Decode Unit := do
  let _ ← TarsInputStream.readFrom plainTypes false fuel tarsHead tarsHead.zero
  pure ()

/-- How `tarsResponseLen` takes a response: it moves `pos` first and then reads behind the length.
-/
def tarsPacket (recvBuffer : Bytes) (fuel pos iHeaderLen : ℕ) : Respond ResponsePacket := do
  advance iHeaderLen
  decodePart (recvBuffer.drop (pos + 4)) (pos + 4) (sizeSub iHeaderLen 4)
    (ResponsePacket.readFrom fuel .init)

/-- One round of the loop of `tarsResponseLen`, for the response at the current position. -/
def tarsRound (recvBuffer : Bytes) (fuel : ℕ) : Respond Bool :=
  packetRound recvBuffer (tarsPeek fuel) (tarsPacket recvBuffer fuel)

/-- The first members of a response of TUP, which is a request. -/
abbrev tupHead : Fields :=
  .cons 1 true (.int .short) <| .cons 2 true (.int .char) <| .cons 3 true (.int .int32) <|
  .cons 4 true (.int .int32) .nil

/-- What `tupResponseLen` reads from a partial response to find out about its rest. -/
def tupPeek (fuel : ℕ) : Decode Unit := do
  let _ ← TarsInputStream.readFrom plainTypes false fuel tupHead tupHead.zero
  pure ()

/-- How `tupResponseLen` takes a response, which it copies with the length in front. -/
def tupPacket (recvBuffer : Bytes) (fuel pos iHeaderLen : ℕ) : Respond ResponsePacket := do
  let buffer ← copyPart recvBuffer pos iHeaderLen
  advance iHeaderLen
  let req ← decodePart (buffer.drop 4) (pos + 4) (sizeSub iHeaderLen 4)
    (RequestPacket.readFrom fuel .init)
  pure { ResponsePacket.init with
    cPacketType := req.cPacketType
    iMessageType := req.iMessageType
    iRequestId := req.iRequestId
    iVersion := req.iVersion
    context := req.context
    sBuffer := buffer }

/-- One round of the loop of `tupResponseLen`, for the response at the current position. -/
def tupRound (recvBuffer : Bytes) (fuel : ℕ) : Respond Bool :=
  packetRound recvBuffer (tupPeek fuel) (tupPacket recvBuffer fuel)

/-- The id of a response, as `streamResponse` reads it. -/
def streamRequestId (K : IntKind) (idNetorder : Bool) (bs : Bytes) : BitVec 32 :=
  let requestId := BitVec.ofNat K.width (load bs)
  BitVec.ofInt 32 (K.toInt (if idNetorder then net2host K requestId else requestId))

/-- One round of the loop of `streamResponse`. Reserving a negative number of bytes throws. -/
def streamRound (offset : ℕ) (T : LengthType) (netorder : Bool) (idOffset : ℕ) (K : IntKind)
    (idNetorder : Bool) (recvBuffer : Bytes) : Respond Bool := fun s =>
  let len := remaining recvBuffer s.pos
  if recvBuffer.length ≤ s.pos ∨ len < (offset + T.size) % 2 ^ 64 then .ok false s
  else if recvBuffer.length < s.pos + offset + T.size then .fault
  else
    let iHeaderLen := AppProtocol.streamHeaderLen offset T netorder (recvBuffer.drop s.pos)
    if len < toUInt32 iHeaderLen then .ok false s
    else if iHeaderLen < 0 then .thrown .lengthError s
    else (do
      let sBuffer ← copyPart recvBuffer s.pos iHeaderLen.toNat
      let requestId ← copyPart recvBuffer (s.pos + idOffset) (K.width / 8)
      pushBack { ResponsePacket.init with
        sBuffer
        iRequestId := streamRequestId K idNetorder requestId }
      advance iHeaderLen.toNat
      pure true) s

/-- The loop of a decoder, with the fuel of each round. -/
def loop (round : ℕ → Respond Bool) : List ℕ → Respond Unit
  | [] => exhausted
  | fuel :: fuels => do
    let more ← round fuel
    if more then loop round fuels else pure ()

/-- The variables of a decoder at first: the position 0, and what was delivered before. -/
def start (done : List ResponsePacket) : Responses := ⟨0, done, []⟩

/-! ### Progress -/

/-- The position and all parts are in the received bytes. -/
structure Inside (recvBuffer : Bytes) (s : Responses) : Prop where
  /-- The position is not behind the received bytes. -/
  pos : s.pos ≤ recvBuffer.length
  /-- The parts that were touched lie inside the received bytes. -/
  parts : ∀ part ∈ s.parts, part.1 + part.2 ≤ recvBuffer.length

/-- A decoder ends inside, with a value and a state that satisfy `P` or with an exception of the
decoding. -/
def Tidy {α : Type} (recvBuffer : Bytes) (P : α → Responses → Prop) :
    Outcome Responses ResponseException α → Prop
  | .ok v s => P v s ∧ Inside recvBuffer s
  | .thrown (.decode _) s => Inside recvBuffer s
  | _ => False

/-- A round advances or leaves the loop, so the loop cannot stand still. -/
def Advances (recvBuffer : Bytes) (s : Responses) :
    Outcome Responses ResponseException Bool → Prop :=
  Tidy recvBuffer fun more s' => if more then s.pos < s'.pos else s'.pos = s.pos

/-- The states in which the rounds of a loop start. -/
inductive Reaches (round : ℕ → Respond Bool) (s : Responses) : Responses → Prop where
  /-- The first state. -/
  | refl : Reaches round s s
  /-- One more round. -/
  | next {fuel : ℕ} {t u : Responses} :
    Reaches round s t → round fuel t = .ok true u → Reaches round s u

/-- A decoder makes progress: every round that is reached advances or leaves the loop, and the call
returns a position in the received bytes or throws an exception of the decoding. -/
structure MakesProgress (recvBuffer : Bytes) (round : ℕ → Respond Bool)
    (done : List ResponsePacket) : Prop where
  /-- The rounds. -/
  rounds : ∀ s, Reaches round (start done) s → ∃ fuel, Advances recvBuffer s (round fuel s)
  /-- The whole loop. -/
  returns : ∃ fuels, Tidy recvBuffer (fun _ _ => True) (loop round fuels (start done))

section Progress

variable {recvBuffer : Bytes} {round : ℕ → Respond Bool} {s t u : Responses} {Sound : ℕ → Prop}

/-- One more round in front of those that reach a state reaches it from the earlier state. -/
theorem Reaches.head {fuel : ℕ} (hround : round fuel s = .ok true t) (h : Reaches round t u) :
    Reaches round s u := by
  induction h with
  | refl => exact .next .refl hround
  | next _ hnext ih => exact .next ih hnext

/-- The first state is inside, because nothing has been touched and the position is 0. -/
theorem inside_start (done : List ResponsePacket) : Inside recvBuffer (start done) :=
  ⟨Nat.zero_le _, fun _ hpart => absurd hpart List.not_mem_nil⟩

/-- A loop returns when each of its rounds either ends it or moves the position forward, by strong
induction on the bytes that remain. -/
theorem exists_returns (hinside : Inside recvBuffer s)
    (h : ∀ t, Reaches round s t → Inside recvBuffer t ∧
      ∃ fuel, Advances recvBuffer t (round fuel t)) :
    ∃ fuels, Tidy recvBuffer (fun _ _ => True) (loop round fuels s) := by
  induction hn : recvBuffer.length - s.pos using Nat.strong_induction_on generalizing s with
  | _ n ih =>
    obtain ⟨-, fuel, hadvances⟩ := h s .refl
    cases hround : round fuel s with
    | ok more t =>
      rw [hround] at hadvances
      obtain ⟨hpos, hinside'⟩ := hadvances
      cases more with
      | true =>
        have hpos' : s.pos < t.pos := hpos
        have hle := hinside'.pos
        obtain ⟨fuels, hfuels⟩ := ih (recvBuffer.length - t.pos) (by omega) hinside'
          (fun u hu => h u (hu.head hround)) rfl
        refine ⟨fuel :: fuels, ?_⟩
        rw [loop, bind_of_ok hround]
        exact hfuels
      | false =>
        refine ⟨[fuel], ?_⟩
        rw [loop, bind_of_ok hround]
        exact ⟨trivial, hinside'⟩
    | thrown e t =>
      rw [hround] at hadvances
      refine ⟨[fuel], ?_⟩
      rw [loop, bind_of_thrown hround]
      cases e with
      | decode e => exact hadvances
      | lengthError => exact hadvances.elim
    | fault =>
      rw [hround] at hadvances
      exact hadvances.elim
    | refused =>
      rw [hround] at hadvances
      exact hadvances.elim
    | timeout =>
      rw [hround] at hadvances
      exact hadvances.elim

/-- **A loop makes progress exactly if** the positions of its rounds are sound, where that is what
one round needs. -/
theorem makesProgress_iff
    (hround : ∀ s, Inside recvBuffer s →
      ((∃ fuel, Advances recvBuffer s (round fuel s)) ↔ Sound s.pos))
    (hnext : ∀ s fuel t, Inside recvBuffer s → Sound s.pos → round fuel s = .ok true t →
      Inside recvBuffer t) (done : List ResponsePacket) :
    MakesProgress recvBuffer round done ↔ ∀ s, Reaches round (start done) s → Sound s.pos := by
  constructor
  · intro h s hs
    suffices Inside recvBuffer s ∧ Sound s.pos from this.2
    induction hs with
    | refl =>
      have hinside : Inside recvBuffer (start done) := inside_start done
      exact ⟨hinside, (hround _ hinside).mp (h.rounds _ .refl)⟩
    | next hreaches heq ih =>
      have hinside := hnext _ _ _ ih.1 ih.2 heq
      exact ⟨hinside, (hround _ hinside).mp (h.rounds _ (.next hreaches heq))⟩
  · intro h
    have hinside : ∀ s, Reaches round (start done) s → Inside recvBuffer s := by
      intro s hs
      induction hs with
      | refl => exact inside_start done
      | next hreaches heq ih => exact hnext _ _ _ ih (h _ hreaches) heq
    have hrounds : ∀ s, Reaches round (start done) s →
        ∃ fuel, Advances recvBuffer s (round fuel s) :=
      fun s hs => (hround s (hinside s hs)).mpr (h s hs)
    exact ⟨hrounds, exists_returns (inside_start done) fun t ht => ⟨hinside t ht, hrounds t ht⟩⟩

end Progress

/-! ### Packets with a length in front -/

/-- The decoding of some memory ends with some fuel: it returns or throws. -/
def Ends {α : Type} (m : ℕ → Decode α) (memory : Bytes) (size : ℕ) : Prop :=
  ∃ fuel, Good (fun _ => False) (m fuel (.setBuffer memory size))

/-- A position is sound: the bytes that are peeked at in a partial packet of 20 bytes or more have
been received, the length of a complete packet is not less than that of the length itself, and the
decoding of either ends. -/
def PacketSound {α : Type} (recvBuffer : Bytes) (peek : ℕ → Decode Unit) (body : ℕ → Decode α)
    (memory : ℕ → ℕ → Bytes) (pos : ℕ) : Prop :=
  let len := remaining recvBuffer pos
  let iHeaderLen := responseLen (recvBuffer.drop pos)
  pos < recvBuffer.length → 4 ≤ len →
    if len < iHeaderLen then
      20 ≤ len → pos + 24 ≤ recvBuffer.length ∧ Ends peek (recvBuffer.drop (pos + 4)) 20
    else 4 ≤ iHeaderLen ∧ Ends body (memory pos iHeaderLen) (iHeaderLen - 4)

/-- The positions that are sound for `tarsResponseLen`: from there its round accesses nothing
outside the buffer, and it moves on or ends. -/
def TarsSound (recvBuffer : Bytes) : ℕ → Prop :=
  PacketSound recvBuffer tarsPeek (fun fuel => ResponsePacket.readFrom fuel .init)
    fun pos _ => recvBuffer.drop (pos + 4)

/-- The positions that are sound for `tupResponseLen`: from there its round accesses nothing outside
the buffer, and it moves on or ends. -/
def TupSound (recvBuffer : Bytes) : ℕ → Prop :=
  PacketSound recvBuffer tupPeek (fun fuel => RequestPacket.readFrom fuel .init)
    fun pos iHeaderLen => ((recvBuffer.drop pos).take iHeaderLen).drop 4

section Packets

variable {recvBuffer : Bytes} {s t : Responses} {α β : Type}

/-- Decoding a part is tidy if the part is inside and the decoding ends. -/
theorem tidy_decodePart {P : α → Responses → Prop} {memory : Bytes} {start size : ℕ} {m : Decode α}
    (hinside : Inside recvBuffer s)
    (hP : ∀ v, P v { s with parts := s.parts ++ [(start, size)] }) :
    Tidy recvBuffer P (decodePart memory start size m s) ↔
      start + size ≤ recvBuffer.length ∧ Good (fun _ => False) (m (.setBuffer memory size)) := by
  have hparts : Inside recvBuffer { s with parts := s.parts ++ [(start, size)] } ↔
      start + size ≤ recvBuffer.length := by
    constructor
    · intro h
      exact h.parts (start, size) (List.mem_append_right _ (List.mem_singleton_self _))
    · intro h
      refine ⟨hinside.pos, fun part hpart => ?_⟩
      rcases List.mem_append.mp hpart with hpart | hpart
      · exact hinside.parts part hpart
      · rw [List.mem_singleton.mp hpart]
        exact h
  rw [decodePart]
  cases m (.setBuffer memory size) with
  | ok v r =>
    exact ⟨fun h => ⟨hparts.mp h.2, id⟩, fun h => ⟨hP v, hparts.mpr h.1⟩⟩
  | thrown e r => exact ⟨fun h => ⟨hparts.mp h, id⟩, fun h => hparts.mpr h.1⟩
  | _ => exact ⟨fun h => h.elim, fun h => h.2.elim⟩

/-- Going on after a decoder that is tidy: the whole is tidy exactly when the first part is, if the
rest asks for just that. -/
theorem tidy_bind {P : α → Responses → Prop} {Q : β → Responses → Prop} {m : Respond α}
    {f : α → Respond β} (h : ∀ v t, m s = .ok v t →
      (Tidy recvBuffer Q (f v t) ↔ P v t ∧ Inside recvBuffer t)) :
    Tidy recvBuffer Q ((m >>= f) s) ↔ Tidy recvBuffer P (m s) := by
  cases hm : m s with
  | ok v t =>
    rw [bind_of_ok hm]
    exact h v t hm
  | thrown e t =>
    rw [bind_of_thrown hm]
    cases e <;> exact Iff.rfl
  | fault =>
    rw [bind_of_fault hm]
    exact Iff.rfl
  | refused =>
    rw [bind_of_refused hm]
    exact Iff.rfl
  | timeout =>
    rw [bind_of_timeout hm]
    exact Iff.rfl

/-- A tidy outcome stays tidy when less is asked of its value. -/
theorem Tidy.mono {P Q : α → Responses → Prop} {outcome : Outcome Responses ResponseException α}
    (h : Tidy recvBuffer P outcome) (hPQ : ∀ v t, P v t → Q v t) : Tidy recvBuffer Q outcome := by
  cases outcome with
  | ok v t => exact ⟨hPQ v t h.1, h.2⟩
  | thrown e t => cases e <;> exact h
  | _ => exact h

/-- The decoding of a part has succeeded, so the decoder ended well on the bytes of the part. -/
theorem good_of_decodePart {memory : Bytes} {start size : ℕ} {m : Decode α} {v : α}
    (h : decodePart memory start size m s = .ok v t) :
    Good (fun _ => False) (m (.setBuffer memory size)) := by
  rw [decodePart] at h
  cases hm : m (.setBuffer memory size) with
  | ok v r => exact id
  | _ =>
    rw [hm] at h
    cases h

/-- The number of bytes in a `uint32_t` is not greater than the real one. -/
theorem remaining_le (recvBuffer : Bytes) (pos : ℕ) :
    remaining recvBuffer pos ≤ recvBuffer.length - pos := Nat.mod_le _ _

/-- How a packet is taken: it needs a length that is not less than that of the length itself, and
that the decoding of the rest ends. -/
structure Takes (recvBuffer : Bytes) (packet : ℕ → ℕ → ℕ → Respond ResponsePacket)
    (body : ℕ → Decode α) (memory : ℕ → ℕ → Bytes) : Prop where
  /-- When taking it is tidy. -/
  tidy_iff (s : Responses) (iHeaderLen fuel : ℕ) :
    Inside recvBuffer s → s.pos + iHeaderLen ≤ recvBuffer.length →
      (Tidy recvBuffer (fun _ t => s.pos < t.pos) (packet fuel s.pos iHeaderLen s) ↔
        4 ≤ iHeaderLen ∧ Good (fun _ => False)
          (body fuel (.setBuffer (memory s.pos iHeaderLen) (iHeaderLen - 4))))
  /-- If it is taken, its decoding has ended. -/
  good (s t : Responses) (iHeaderLen fuel : ℕ) (v : ResponsePacket) :
    s.pos + iHeaderLen ≤ recvBuffer.length → 4 ≤ iHeaderLen →
      packet fuel s.pos iHeaderLen s = .ok v t → Good (fun _ => False)
        (body fuel (.setBuffer (memory s.pos iHeaderLen) (iHeaderLen - 4)))

section Round

variable {peek : ℕ → Decode Unit} {packet : ℕ → ℕ → ℕ → Respond ResponsePacket}
  {body : ℕ → Decode α} {memory : ℕ → ℕ → Bytes}

/-- Appending a packet that was taken changes neither the position nor the bytes touched, so only
taking it matters. -/
private theorem tidy_append (recvBuffer : Bytes)
    (packet : ℕ → ℕ → ℕ → Respond ResponsePacket) (fuel : ℕ) {iHeaderLen : ℕ} :
    Advances recvBuffer s ((do
      let rsp ← packet fuel s.pos iHeaderLen
      pushBack rsp
      pure true : Respond Bool) s) ↔
      Tidy recvBuffer (fun _ t => s.pos < t.pos) (packet fuel s.pos iHeaderLen s) := by
  refine tidy_bind fun v t _ => ?_
  constructor
  · rintro ⟨hpos, hinside⟩
    exact ⟨hpos, hinside.pos, hinside.parts⟩
  · rintro ⟨hpos, hinside⟩
    exact ⟨hpos, hinside.pos, hinside.parts⟩

/-- Peeking at a partial packet needs its 24 bytes to be there and its 20 bytes to be decoded. -/
private theorem tidy_peek (fuel : ℕ) (hinside : Inside recvBuffer s) :
    Advances recvBuffer s ((do
      decodePart (recvBuffer.drop (s.pos + 4)) (s.pos + 4) 20 (peek fuel)
      pure false : Respond Bool) s) ↔
      s.pos + 24 ≤ recvBuffer.length ∧
        Good (fun _ => False) (peek fuel (.setBuffer (recvBuffer.drop (s.pos + 4)) 20)) := by
  have hpart : Tidy recvBuffer (fun _ t => t.pos = s.pos)
      (decodePart (recvBuffer.drop (s.pos + 4)) (s.pos + 4) 20 (peek fuel) s) ↔ _ :=
    tidy_decodePart hinside fun _ => rfl
  rw [← hpart]
  exact tidy_bind fun _ _ _ => Iff.rfl

/-- **What one round needs**: that the position is sound, whichever of the two loops it belongs to.
-/
theorem packetRound_advances_iff (htakes : Takes recvBuffer packet body memory)
    (hinside : Inside recvBuffer s) :
    (∃ fuel, Advances recvBuffer s (packetRound recvBuffer (peek fuel) (packet fuel) s)) ↔
      PacketSound recvBuffer peek body memory s.pos := by
  have hle := remaining_le recvBuffer s.pos
  have hpos := hinside.pos
  simp only [packetRound, PacketSound]
  by_cases hshort : recvBuffer.length ≤ s.pos ∨ remaining recvBuffer s.pos < 4
  · refine iff_of_true ⟨0, ?_⟩ fun hlt hfour => absurd hshort (by omega)
    rw [if_pos hshort]
    exact ⟨rfl, hinside⟩
  have hsound {P : Prop} : (s.pos < recvBuffer.length → 4 ≤ remaining recvBuffer s.pos → P) ↔ P :=
    ⟨fun h => h (by omega) (by omega), fun h _ _ => h⟩
  rw [hsound]
  simp only [if_neg hshort]
  by_cases hincomplete : remaining recvBuffer s.pos < responseLen (recvBuffer.drop s.pos)
  · simp only [if_pos hincomplete]
    by_cases htwenty : remaining recvBuffer s.pos < 20
    · refine iff_of_true ⟨0, ?_⟩ fun h => absurd htwenty (by omega)
      rw [if_pos htwenty]
      exact ⟨rfl, hinside⟩
    · have hsound' {P : Prop} : (20 ≤ remaining recvBuffer s.pos → P) ↔ P :=
        ⟨fun h => h (by omega), fun h _ => h⟩
      simp only [if_neg htwenty, hsound', tidy_peek _ hinside, exists_and_left, Ends]
  · simp only [if_neg hincomplete, tidy_append]
    have hfits : s.pos + responseLen (recvBuffer.drop s.pos) ≤ recvBuffer.length := by omega
    simp only [htakes.tidy_iff s _ _ hinside hfits, exists_and_left, Ends]

/-- A sound round that goes on ends inside the buffer, where the next round starts. -/
theorem packetRound_inside (htakes : Takes recvBuffer packet body memory) (fuel : ℕ)
    (hinside : Inside recvBuffer s) (hsound : PacketSound recvBuffer peek body memory s.pos)
    (h : packetRound recvBuffer (peek fuel) (packet fuel) s = .ok true t) :
    Inside recvBuffer t := by
  have hle := remaining_le recvBuffer s.pos
  have hpos := hinside.pos
  simp only [packetRound] at h
  simp only [PacketSound] at hsound
  split at h
  · cases h
  rename_i hlong
  split at h
  · split at h
    · cases h
    · obtain ⟨_, _, -, h⟩ := bind_eq_ok_iff.mp h
      cases h
  rename_i hcomplete
  have hfour : 4 ≤ responseLen (recvBuffer.drop s.pos) := by
    have hsound' := hsound (by omega) (by omega)
    rw [if_neg hcomplete] at hsound'
    exact hsound'.1
  obtain ⟨rsp, u, hpacket, -⟩ := bind_eq_ok_iff.mp h
  have hgood := htakes.good s u _ fuel rsp (by omega) hfour hpacket
  have htidy := (htakes.tidy_iff s _ fuel hinside (by omega)).mpr ⟨hfour, hgood⟩
  have hadvances := (tidy_append recvBuffer packet fuel).mpr htidy
  rw [h] at hadvances
  exact hadvances.2

end Round

/-- The size of the rest of a packet, if it wraps. -/
private theorem sizeSub_lt {iHeaderLen : ℕ} (h : iHeaderLen < 4) :
    2 ^ 63 ≤ sizeSub iHeaderLen 4 := by
  rw [sizeSub, if_neg (by omega)]
  omega

/-- Decoding the rest of a packet from some memory, behind which `pos` is. -/
private theorem tidy_rest {m : Decode α} {P : α → Responses → Prop} {memory : Bytes}
    {pos iHeaderLen : ℕ} (hfits : recvBuffer.length < 2 ^ 63) (hinside : Inside recvBuffer s)
    (hle : pos + iHeaderLen ≤ recvBuffer.length)
    (hP : 4 ≤ iHeaderLen → ∀ v parts, P v { s with parts }) :
    Tidy recvBuffer P (decodePart memory (pos + 4) (sizeSub iHeaderLen 4) m s) ↔
      4 ≤ iHeaderLen ∧ Good (fun _ => False) (m (.setBuffer memory (iHeaderLen - 4))) := by
  by_cases hfour : 4 ≤ iHeaderLen
  · rw [tidy_decodePart hinside fun v => hP hfour v _, sizeSub_of_le hfour]
    exact and_congr_left' ⟨fun _ => hfour, fun _ => by omega⟩
  · refine iff_of_false (fun h => ?_) fun h => hfour h.1
    have hpart := (tidy_decodePart (P := fun _ _ => True) hinside fun _ => trivial).mp
      (h.mono fun _ _ _ => trivial)
    have hlarge := sizeSub_lt (Nat.lt_of_not_le hfour)
    omega

/-- How `tarsResponseLen` takes a packet: it reads in the received bytes themselves, so decoding may
run past the packet. -/
theorem tarsPacket_takes (hfits : recvBuffer.length < 2 ^ 63) :
    Takes recvBuffer (tarsPacket recvBuffer) (fun fuel => ResponsePacket.readFrom fuel .init)
      fun pos _ => recvBuffer.drop (pos + 4) where
  tidy_iff s iHeaderLen fuel hinside hle :=
    tidy_rest (s := { s with pos := s.pos + iHeaderLen }) hfits ⟨hle, hinside.parts⟩ hle
      fun hfour _ _ => by
        show s.pos < s.pos + iHeaderLen
        omega
  good s t iHeaderLen fuel v _ hfour h := by
    have hgood := good_of_decodePart (s := { s with pos := s.pos + iHeaderLen }) h
    rwa [sizeSub_of_le hfour] at hgood

/-- The copy of a packet that has been received completely succeeds. -/
private theorem copyPart_eq {start size : ℕ} (hle : start + size ≤ recvBuffer.length) :
    copyPart recvBuffer start size s =
      .ok ((recvBuffer.drop start).take size) { s with parts := s.parts ++ [(start, size)] } :=
  if_pos hle

/-- How `tupResponseLen` takes a packet: it reads in a copy that ends with the packet. -/
theorem tupPacket_takes (hfits : recvBuffer.length < 2 ^ 63) :
    Takes recvBuffer (tupPacket recvBuffer) (fun fuel => RequestPacket.readFrom fuel .init)
      fun pos iHeaderLen => ((recvBuffer.drop pos).take iHeaderLen).drop 4 where
  tidy_iff s iHeaderLen fuel hinside hle := by
    have hcopied : Inside recvBuffer
        ⟨s.pos + iHeaderLen, s.done, s.parts ++ [(s.pos, iHeaderLen)]⟩ := by
      refine ⟨hle, fun part hpart => ?_⟩
      rcases List.mem_append.mp hpart with hpart | hpart
      · exact hinside.parts part hpart
      · rw [List.mem_singleton.mp hpart]
        exact hle
    have hrest : Tidy recvBuffer (fun _ t => s.pos < t.pos) (decodePart
        (((recvBuffer.drop s.pos).take iHeaderLen).drop 4) (s.pos + 4) (sizeSub iHeaderLen 4)
          (RequestPacket.readFrom fuel .init)
          ⟨s.pos + iHeaderLen, s.done, s.parts ++ [(s.pos, iHeaderLen)]⟩) ↔ _ :=
      tidy_rest hfits hcopied hle fun hfour _ _ => by
        show s.pos < s.pos + iHeaderLen
        omega
    rw [← hrest, tupPacket, bind_of_ok (copyPart_eq hle), bind_of_ok (advance_apply _ _)]
    exact tidy_bind fun _ _ _ => Iff.rfl
  good s t iHeaderLen fuel v hle hfour h := by
    rw [tupPacket, bind_of_ok (copyPart_eq hle), bind_of_ok (advance_apply _ _)] at h
    obtain ⟨req, u, hreq, -⟩ := bind_eq_ok_iff.mp h
    have hgood := good_of_decodePart
      (s := ⟨s.pos + iHeaderLen, s.done, s.parts ++ [(s.pos, iHeaderLen)]⟩) hreq
    rwa [sizeSub_of_le hfour] at hgood

end Packets

/-! ### Streams -/

/-- The positions that are sound for `streamResponse`: the length in front of a packet can be read,
and a complete packet is neither empty nor negative, and its id has been received. -/
def StreamSound (offset : ℕ) (T : LengthType) (netorder : Bool) (idOffset : ℕ) (K : IntKind)
    (recvBuffer : Bytes) (pos : ℕ) : Prop :=
  let len := remaining recvBuffer pos
  let iHeaderLen := AppProtocol.streamHeaderLen offset T netorder (recvBuffer.drop pos)
  pos < recvBuffer.length → (offset + T.size) % 2 ^ 64 ≤ len →
    pos + offset + T.size ≤ recvBuffer.length ∧
      (toUInt32 iHeaderLen ≤ len →
        0 < iHeaderLen ∧ pos + idOffset + K.width / 8 ≤ recvBuffer.length)

section Streams

variable {offset idOffset : ℕ} {T : LengthType} {netorder idNetorder : Bool} {K : IntKind}
  {recvBuffer : Bytes} {s t : Responses}

/-- **What one round of `streamResponse` needs**: that the position is sound, which no fuel enters.
-/
theorem streamRound_advances_iff (hinside : Inside recvBuffer s) :
    Advances recvBuffer s (streamRound offset T netorder idOffset K idNetorder recvBuffer s) ↔
      StreamSound offset T netorder idOffset K recvBuffer s.pos := by
  have hle := remaining_le recvBuffer s.pos
  have hpos := hinside.pos
  simp only [streamRound, StreamSound]
  by_cases hshort : recvBuffer.length ≤ s.pos ∨
      remaining recvBuffer s.pos < (offset + T.size) % 2 ^ 64
  · rw [if_pos hshort]
    exact iff_of_true ⟨rfl, hinside⟩ fun hlt hlen => absurd hshort (by omega)
  have hsound {P : Prop} : (s.pos < recvBuffer.length →
      (offset + T.size) % 2 ^ 64 ≤ remaining recvBuffer s.pos → P) ↔ P :=
    ⟨fun h => h (by omega) (by omega), fun h _ _ => h⟩
  rw [if_neg hshort, hsound]
  have hlt := AppProtocol.streamHeaderLen_lt offset T netorder (recvBuffer.drop s.pos)
  generalize AppProtocol.streamHeaderLen offset T netorder (recvBuffer.drop s.pos) = iHeaderLen
    at hlt ⊢
  by_cases hbehind : recvBuffer.length < s.pos + offset + T.size
  · rw [if_pos hbehind]
    exact iff_of_false id fun h => absurd h.1 (by omega)
  have hbefore : s.pos + offset + T.size ≤ recvBuffer.length := by omega
  rw [if_neg hbehind, and_iff_right hbefore]
  by_cases hincomplete : remaining recvBuffer s.pos < toUInt32 iHeaderLen
  · rw [if_pos hincomplete]
    exact iff_of_true ⟨rfl, hinside⟩ fun h => absurd hincomplete (by omega)
  have hcomplete {P : Prop} : (toUInt32 iHeaderLen ≤ remaining recvBuffer s.pos → P) ↔ P :=
    ⟨fun h => h (by omega), fun h _ => h⟩
  rw [if_neg hincomplete, hcomplete]
  by_cases hnegative : iHeaderLen < 0
  · rw [if_pos hnegative]
    exact iff_of_false id fun h => by omega
  have hnat : toUInt32 iHeaderLen = iHeaderLen.toNat := by
    rw [toUInt32, Int.emod_eq_of_lt (by omega) hlt]
  have hfits : s.pos + iHeaderLen.toNat ≤ recvBuffer.length := by omega
  rw [if_neg hnegative, bind_of_ok (copyPart_eq hfits)]
  by_cases hid : s.pos + idOffset + K.width / 8 ≤ recvBuffer.length
  · rw [bind_of_ok (copyPart_eq hid), and_iff_left hid]
    have hlast (done : List ResponsePacket) : Advances recvBuffer s
        (.ok true ⟨s.pos + iHeaderLen.toNat, done, s.parts ++ [(s.pos, iHeaderLen.toNat)] ++
          [(s.pos + idOffset, K.width / 8)]⟩) ↔ 0 < iHeaderLen := by
      constructor
      · rintro ⟨hgrow, -⟩
        have hgrow' : s.pos < s.pos + iHeaderLen.toNat := hgrow
        omega
      · intro hgrow
        refine ⟨?_, hfits, fun part hpart => ?_⟩
        · show s.pos < s.pos + iHeaderLen.toNat
          omega
        · rcases List.mem_append.mp hpart with hpart | hpart
          · rcases List.mem_append.mp hpart with hpart | hpart
            · exact hinside.parts part hpart
            · rw [List.mem_singleton.mp hpart]
              exact hfits
          · rw [List.mem_singleton.mp hpart]
            exact hid
    exact hlast _
  · have hfault : copyPart recvBuffer (s.pos + idOffset) (K.width / 8)
        { s with parts := s.parts ++ [(s.pos, iHeaderLen.toNat)] } = .fault := if_neg hid
    rw [bind_of_fault hfault]
    exact iff_of_false id fun h => hid h.2

/-- A round that goes on ends inside the buffer, where the next round starts. -/
theorem streamRound_inside (hinside : Inside recvBuffer s)
    (hsound : StreamSound offset T netorder idOffset K recvBuffer s.pos)
    (h : streamRound offset T netorder idOffset K idNetorder recvBuffer s = .ok true t) :
    Inside recvBuffer t := by
  have hadvances : Advances recvBuffer s
      (streamRound offset T netorder idOffset K idNetorder recvBuffer s) :=
    (streamRound_advances_iff hinside).mpr hsound
  rw [h] at hadvances
  exact hadvances.2

end Streams

/-! ### All decoders -/

section All

variable {recvBuffer : Bytes}

/-- `tarsResponseLen` makes progress exactly if the positions that it reaches are sound. -/
theorem tarsRound_progress_iff (hfits : recvBuffer.length < 2 ^ 63) (done : List ResponsePacket) :
    MakesProgress recvBuffer (tarsRound recvBuffer) done ↔
      ∀ s, Reaches (tarsRound recvBuffer) (start done) s → TarsSound recvBuffer s.pos :=
  makesProgress_iff (fun _ hinside => packetRound_advances_iff (tarsPacket_takes hfits) hinside)
    (fun _ fuel _ hinside hsound h =>
      packetRound_inside (tarsPacket_takes hfits) fuel hinside hsound h) done

/-- `tupResponseLen` makes progress exactly if the positions that it reaches are sound for it. -/
theorem tupRound_progress_iff (hfits : recvBuffer.length < 2 ^ 63) (done : List ResponsePacket) :
    MakesProgress recvBuffer (tupRound recvBuffer) done ↔
      ∀ s, Reaches (tupRound recvBuffer) (start done) s → TupSound recvBuffer s.pos :=
  makesProgress_iff (fun _ hinside => packetRound_advances_iff (tupPacket_takes hfits) hinside)
    (fun _ fuel _ hinside hsound h =>
      packetRound_inside (tupPacket_takes hfits) fuel hinside hsound h) done

/-- `streamResponse` makes progress exactly if the positions that it reaches are sound for it. -/
theorem streamRound_progress_iff (offset : ℕ) (T : LengthType) (netorder : Bool) (idOffset : ℕ)
    (K : IntKind) (idNetorder : Bool) (done : List ResponsePacket) :
    let round := fun _ : ℕ => streamRound offset T netorder idOffset K idNetorder recvBuffer
    MakesProgress recvBuffer round done ↔ ∀ s, Reaches round (start done) s →
      StreamSound offset T netorder idOffset K recvBuffer s.pos :=
  makesProgress_iff
    (fun _ hinside => ⟨fun ⟨_, h⟩ => (streamRound_advances_iff hinside).mp h,
      fun h => ⟨0, (streamRound_advances_iff hinside).mpr h⟩⟩)
    (fun _ _ _ hinside hsound h => streamRound_inside hinside hsound h) done

end All

/-- **The decoders make progress exactly if** all positions that they reach are sound. -/
theorem progress_iff (recvBuffer : Bytes) (hfits : recvBuffer.length < 2 ^ 63)
    (done : List ResponsePacket) :
    (MakesProgress recvBuffer (tarsRound recvBuffer) done ↔
      ∀ s, Reaches (tarsRound recvBuffer) (start done) s → TarsSound recvBuffer s.pos) ∧
    (MakesProgress recvBuffer (tupRound recvBuffer) done ↔
      ∀ s, Reaches (tupRound recvBuffer) (start done) s → TupSound recvBuffer s.pos) ∧
    ∀ offset T netorder idOffset K idNetorder,
      let round := fun _ : ℕ => streamRound offset T netorder idOffset K idNetorder recvBuffer
      MakesProgress recvBuffer round done ↔ ∀ s, Reaches round (start done) s →
        StreamSound offset T netorder idOffset K recvBuffer s.pos := by
  refine ⟨tarsRound_progress_iff hfits done, tupRound_progress_iff hfits done, ?_⟩
  intro offset T netorder idOffset K idNetorder
  exact streamRound_progress_iff offset T netorder idOffset K idNetorder done

/-- What a round has done when it returns: it leaves the loop where it was, or it has taken a packet
of the length in front of it. -/
theorem tarsRound_ok {recvBuffer : Bytes} {fuel : ℕ} {more : Bool} {s t : Responses}
    (h : tarsRound recvBuffer fuel s = .ok more t) :
    more = false ∧ t.pos = s.pos ∨
      more = true ∧ s.pos < recvBuffer.length ∧
        responseLen (recvBuffer.drop s.pos) ≤ remaining recvBuffer s.pos ∧
        t.pos = s.pos + responseLen (recvBuffer.drop s.pos) := by
  simp only [tarsRound, packetRound] at h
  split at h
  · obtain ⟨rfl, rfl⟩ := Outcome.ok.inj h
    exact .inl ⟨rfl, rfl⟩
  rename_i hlong
  split at h
  · split at h
    · obtain ⟨rfl, rfl⟩ := Outcome.ok.inj h
      exact .inl ⟨rfl, rfl⟩
    · obtain ⟨_, u, hpeek, h⟩ := bind_eq_ok_iff.mp h
      obtain ⟨rfl, rfl⟩ := Outcome.ok.inj h
      rw [decodePart] at hpeek
      split at hpeek
      · obtain ⟨-, rfl⟩ := Outcome.ok.inj hpeek
        exact .inl ⟨rfl, rfl⟩
      all_goals cases hpeek
  rename_i hcomplete
  obtain ⟨rsp, u, hpacket, h⟩ := bind_eq_ok_iff.mp h
  rw [tarsPacket, bind_of_ok (advance_apply _ _), decodePart] at hpacket
  split at hpacket
  · obtain ⟨-, rfl⟩ := Outcome.ok.inj hpacket
    obtain ⟨rfl, rfl⟩ := Outcome.ok.inj h
    exact .inr ⟨rfl, by omega, by omega, rfl⟩
  all_goals cases hpacket

/-- The frame of a new response, 14 bytes whose members are all zero or empty. -/
private abbrev newResponse : Bytes :=
  [0, 0, 0, 14, 28, 44, 60, 76, 92, 109, 0, 12, 120, 12]

/-- Decoding the frame makes progress: it reaches the positions 0 and 14, and both are sound. -/
theorem progress_iff_sample : MakesProgress newResponse (tarsRound newResponse) [] := by
  refine (progress_iff newResponse (by decide) []).1.mpr fun s hs => ?_
  have hpos : s.pos = 0 ∨ s.pos = 14 := by
    induction hs with
    | refl => exact .inl rfl
    | @next fuel t u _ hround ih =>
      obtain ⟨hfalse, -⟩ | ⟨-, hlt, -, hu⟩ := tarsRound_ok hround
      · cases hfalse
      have hlt' : t.pos < 14 := hlt
      obtain hzero | hend := ih
      · rw [hzero] at hu
        exact .inr hu
      · omega
  obtain hzero | hend := hpos
  · intro _ _
    rw [hzero, if_neg (by decide)]
    have hbody : ResponsePacket.readFrom 1 .init (.setBuffer (newResponse.drop 4) 10) =
        .ok .init ⟨newResponse.drop 4, 10, 10, false⟩ := by decide +kernel
    refine ⟨by decide, 1, ?_⟩
    show Good _ (ResponsePacket.readFrom 1 .init (.setBuffer (newResponse.drop 4) 10))
    rw [hbody]
    exact id
  · intro hlt
    rw [hend] at hlt
    exact absurd hlt (by decide)

/-- Four bytes that are zero, the length of a frame of no bytes. -/
private abbrev zeros : Bytes := [0, 0, 0, 0]

/-- On four bytes that are zero no decoder makes progress. -/
theorem progress_fails : ¬MakesProgress zeros (tarsRound zeros) [] ∧
    ¬MakesProgress zeros (tupRound zeros) [] ∧
    ¬MakesProgress zeros (fun _ => streamRound 0 ⟨.uint32, by decide⟩ true 0 .uint32 true zeros)
      [] := by
  refine ⟨fun h => ?_, fun h => ?_, fun h => ?_⟩
  · have hsound :=
      (tarsRound_progress_iff (by decide) []).mp h _ .refl (by decide) (by decide)
    rw [if_neg (by decide)] at hsound
    exact absurd hsound.1 (by decide)
  · have hsound :=
      (tupRound_progress_iff (by decide) []).mp h _ .refl (by decide) (by decide)
    rw [if_neg (by decide)] at hsound
    exact absurd hsound.1 (by decide)
  · have hsound :=
      (streamRound_progress_iff _ _ _ _ _ _ []).mp h _ .refl (by decide) (by decide)
    exact absurd (hsound.2 (by decide)).1 (by decide)

end ProxyProtocol

end Tars
