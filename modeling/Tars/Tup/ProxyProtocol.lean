import Tars.Tup.AppProtocol
import Tars.Tup.RequestF

/-!
# Requests on the wire

`tarsRequest` puts the length of the whole frame in front of a packet, which `parse` checks and
strips.
-/

namespace Tars

open LittleEndian AppProtocol

namespace ProxyProtocol

/-- A packet with the length of the frame in front of it. -/
def frame (os : Bytes) : Bytes := store 4 (htonl (BitVec.ofNat 32 (4 + os.length))).toNat ++ os

/-- `tarsRequest`, which frames the bytes that the request writes. -/
def tarsRequest (request : RequestPacket) : Except TarsException Bytes := do
  let os ← request.writeTo
  return frame os

@[simp] theorem length_frame (os : Bytes) : (frame os).length = 4 + os.length := by
  rw [frame, List.length_append, length_store]

/-- The four bytes in front of a packet are the length of the whole frame, in network order. -/
theorem take_frame (os rest : Bytes) :
    (frame os ++ rest).take 4 = netBytes 4 (BitVec.ofNat 32 (4 + os.length)).toNat := by
  rw [frame, store_htonl, List.append_assoc]
  exact List.take_left' (length_netBytes 4 _)

/-- The header of a frame says how long the frame is, the header included. -/
theorem headerLen_frame {os : Bytes} (h : 4 + os.length < 2 ^ 31) (rest : Bytes) :
    headerLen (frame os ++ rest) = (4 + os.length : ℕ) := by
  have hnat : (BitVec.ofNat 32 (4 + os.length)).toNat = 4 + os.length := by
    rw [BitVec.toNat_ofNat]
    omega
  rw [headerLen, take_frame, htonl_load, BitVec.toInt_eq_toNat_of_lt (by omega), hnat]

/-- Behind the four bytes of the length stands the packet, whatever follows the frame. -/
theorem drop_take_frame (os rest : Bytes) :
    ((frame os ++ rest).take (4 + os.length)).drop 4 = os := by
  rw [List.take_left' (length_frame os), frame]
  exact List.drop_left' (length_store 4 _)

/-- A frame at the front is found, whatever follows it, as long as its length is allowed. -/
theorem verdict_frame {iMaxLength : ℤ} {os : Bytes} (hmax : (4 + os.length : ℕ) ≤ iMaxLength)
    (h : 4 + os.length < 2 ^ 31) (rest : Bytes) :
    (lenPrefix iMaxLength).verdict (frame os ++ rest) = .frame (4 + os.length) os := by
  have hlength : (frame os ++ rest).length = 4 + os.length + rest.length := by
    rw [List.length_append, length_frame]
  rw [Framing.Prefix.verdict_eq_frame, hlength, lenPrefix_header, lenPrefix_stripped,
    lenPrefix_size, headerLen_take, headerLen_frame h, if_neg (by omega), Int.toNat_natCast,
    drop_take_frame]
  exact ⟨by omega, by omega, rfl, rfl⟩

/-- Frames one after the other are taken off one after the other. -/
theorem drain_frames (iMaxLength : ℤ) (bound : ℕ) (bodies : List Bytes) :
    ∀ packets : List Bytes, (∀ body ∈ bodies, (4 + body.length : ℕ) ≤ iMaxLength ∧
      4 + body.length < 2 ^ 31) →
      ((lenPrefix iMaxLength).rule bound).drain packets (bodies.flatMap frame) =
        ⟨[], packets ++ bodies, false⟩ := by
  induction bodies with
  | nil =>
    intro packets _
    rw [List.append_nil]
    exact Framing.Rule.drain_wait (Framing.Rule.nil _)
  | cons body bodies ih =>
    intro packets hall
    obtain ⟨hmax, hlength⟩ := hall body List.mem_cons_self
    have hverdict : ((lenPrefix iMaxLength).rule bound).decide
        (frame body ++ bodies.flatMap frame) = .frame (4 + body.length) body := by
      rw [Framing.Prefix.rule_decide, verdict_frame hmax hlength]
    rw [List.flatMap_cons, Framing.Rule.drain_frame hverdict, List.drop_left' (length_frame body),
      ih _ fun b hb => hall b (List.mem_cons_of_mem _ hb), List.append_assoc, List.singleton_append]

/-- What is in the frames of requests: each is the body of its request behind a length. -/
theorem exists_bodies {packets : List RequestPacket} {frames : List Bytes}
    (h : List.Forall₂ (fun p f => tarsRequest p = .ok f) packets frames) :
    ∃ bodies, frames = bodies.map frame ∧
      List.Forall₂ (fun (p : RequestPacket) body => p.writeTo = .ok body) packets bodies := by
  induction h with
  | nil => exact ⟨[], rfl, .nil⟩
  | @cons p f packets frames hp _ ih =>
    obtain ⟨bodies, rfl, hbodies⟩ := ih
    obtain ⟨body, hbody, hf⟩ := bind_eq_ok hp
    obtain rfl : frame body = f := Except.ok.inj hf
    exact ⟨body :: bodies, rfl, .cons hbody hbodies⟩

/-- Whether decoding a body gives a packet, whatever was in the target before. -/
def Decodes (p : RequestPacket) (body : Bytes) : Prop :=
  ∀ fuel old, RequestPacket.readFrom (fuel + 1) old (.setBuffer body body.length) =
    .ok p ⟨body, body.length, body.length, false⟩

/-- Bodies of requests are decoded to the requests, in the same order. -/
theorem decodes_all {packets : List RequestPacket} {bodies : List Bytes}
    (hmaps : ∀ p ∈ packets, Ascending p.context ∧ Ascending p.status)
    (hsize : ∀ body ∈ bodies, body.length < 2 ^ 31)
    (h : List.Forall₂ (fun (p : RequestPacket) body => p.writeTo = .ok body) packets bodies) :
    List.Forall₂ Decodes packets bodies := by
  induction h with
  | nil => exact .nil
  | @cons p body packets bodies hp _ ih =>
    obtain ⟨hcontext, hstatus⟩ := hmaps p List.mem_cons_self
    have hlength := hsize body List.mem_cons_self
    have hmap : p.Limited fun _ => True :=
      RequestPacket.limited_iff.mpr ⟨trivial, ⟨trivial, hcontext⟩, trivial, hstatus⟩
    have hlimited : p.Limited (· < 2 ^ 32) :=
      RequestPacket.limited_of_writeTo hmap hp (by omega)
    refine .cons ?_ (ih (fun q hq => hmaps q (List.mem_cons_of_mem _ hq))
      fun b hb => hsize b (List.mem_cons_of_mem _ hb))
    intro fuel old
    exact (RequestPacket.reads_readFrom hlimited hp fuel old).setBuffer (by omega)

/-- **Requests survive the wire**: the frames of any requests are taken apart in order and decoded
to the requests, and nothing is left. -/
theorem requests_round_trip {packets : List RequestPacket} {frames : List Bytes}
    (hmaps : ∀ p ∈ packets, Ascending p.context ∧ Ascending p.status)
    (hframes : List.Forall₂ (fun p f => tarsRequest p = .ok f) packets frames)
    (hlimit : ∀ f ∈ frames, f.length ≤ 10000000) (htotal : frames.flatten.length < 2 ^ 31)
    (output : Bytes) {fuel : ℕ} (hfuel : frames.flatten.length < fuel) :
    ∃ bodies, extract parse fuel ⟨frames.flatten, output, [], 0⟩ =
        some ⟨[], bodies.getLastD output, bodies, 0⟩ ∧ List.Forall₂ Decodes packets bodies := by
  obtain ⟨bodies, rfl, hbodies⟩ := exists_bodies hframes
  have hsize : ∀ body ∈ bodies, 4 + body.length ≤ 10000000 := by
    intro body hbody
    have hle := hlimit (frame body) (List.mem_map_of_mem hbody)
    rwa [length_frame] at hle
  refine ⟨bodies, ?_, ?_⟩
  · rw [← List.flatMap_def] at htotal hfuel ⊢
    have hdrain := drain_frames 10000000 (2 ^ 31) bodies []
      fun body hbody => ⟨by have := hsize body hbody; omega, by have := hsize body hbody; omega⟩
    have hextract := extract_eq (parseLen_follows 10000000) output htotal hfuel [] 0
    rw [hdrain] at hextract
    exact hextract
  · exact decodes_all hmaps (fun body hbody => by have := hsize body hbody; omega) hbodies

/-- A request with maps and bytes, and a new one. -/
private def sampleRequests : List RequestPacket :=
  [⟨3, 0, 0, -7, [83], [102], [1, 2], 3000, [([97], [98]), ([99], [])], [([0], [1])]⟩, .init]

/-- The frames of the sample requests as they go over the wire. -/
private def sampleFrames : List Bytes :=
  [[0, 0, 0, 48, 16, 3, 44, 60, 64, 249, 86, 1, 83, 102, 1, 102, 125, 0, 0, 2, 1, 2, 129, 11, 184,
    152, 0, 2, 6, 1, 97, 22, 1, 98, 6, 1, 99, 22, 0, 168, 0, 1, 6, 1, 0, 22, 1, 1],
    [0, 0, 0, 20, 28, 44, 60, 76, 86, 0, 102, 0, 125, 0, 12, 140, 152, 12, 168, 12]]

/-- The round trip of the two requests, which are framed, joined, taken apart and decoded. -/
theorem requests_round_trip_sample :
    ∃ bodies, extract parse 100 ⟨sampleFrames.flatten, [], [], 0⟩ =
        some ⟨[], bodies.getLastD [], bodies, 0⟩ ∧ List.Forall₂ Decodes sampleRequests bodies := by
  have hframes : List.Forall₂ (fun p f => tarsRequest p = .ok f) sampleRequests sampleFrames :=
    .cons rfl (.cons rfl .nil)
  exact requests_round_trip (by decide) hframes (by decide) (by decide +kernel) []
    (by decide +kernel)

end ProxyProtocol

end Tars
