/-!
# Cutting a stream into frames

A rule says of what has been received so far whether to wait for more, to reject it, or to take a
frame off its front. If receiving more does not change that a frame is taken or that the input is
rejected, then the frames do not depend on how the stream was cut into chunks.

The last part is about clients that keep only what they have not taken yet. Their buffers stay
short however long the stream is, so the frames they take need a bound on each buffer and none on
the stream.
-/

namespace Framing

universe u v

/-- What a rule says of some input: wait for more, take a frame, or reject it. -/
inductive Verdict (β : Type v) where
  /-- More is needed. -/
  | wait
  /-- The input is malformed. -/
  | reject
  /-- So much is taken off the front, and this is what was in it. -/
  | frame (size : Nat) (packet : β)

/-- A rule whose frames are not empty and complete, and which keeps to its verdicts as long as no
more than some bound has been received. -/
structure Rule (α : Type u) (β : Type v) where
  /-- The verdict on what has been received. -/
  decide : List α → Verdict β
  /-- How long the stream may become. -/
  bound : Nat
  /-- Nothing is neither a frame nor malformed. -/
  nil : decide [] = .wait
  /-- A frame is not empty. -/
  pos {xs n b} : decide xs = .frame n b → 0 < n
  /-- A frame has been received. -/
  le {xs n b} : decide xs = .frame n b → n ≤ xs.length
  /-- A frame remains one when more input follows it. -/
  frame {xs ys n b} : (xs ++ ys).length < bound → decide xs = .frame n b →
    decide (xs ++ ys) = .frame n b
  /-- Malformed input remains malformed when more input follows it. -/
  reject {xs ys} : (xs ++ ys).length < bound → decide xs = .reject → decide (xs ++ ys) = .reject

/-- What has become of a stream: what is left of it, what was taken, and whether it was rejected. -/
structure State (α : Type u) (β : Type v) where
  /-- What has been received and not been taken. -/
  rest : List α
  /-- What was in the frames. -/
  packets : List β
  /-- Whether the rest is malformed. -/
  rejected : Bool

namespace Rule

variable {α : Type u} {β : Type v} (R : Rule α β)

/-- Take frames off until the rule waits or rejects. -/
def drain (packets : List β) (xs : List α) : State α β :=
  match h : R.decide xs with
  | .wait => ⟨xs, packets, false⟩
  | .reject => ⟨xs, packets, true⟩
  | .frame n b =>
    have : xs.length - n < xs.length := Nat.sub_lt (Nat.lt_of_lt_of_le (R.pos h) (R.le h)) (R.pos h)
    drain (packets ++ [b]) (xs.drop n)
termination_by xs.length

variable {R} {packets : List β} {xs ys : List α}

/-- The rule waits, so all input is kept until there is more. -/
theorem drain_wait (h : R.decide xs = .wait) : R.drain packets xs = ⟨xs, packets, false⟩ := by
  rw [drain]
  split
  · rfl
  · rename_i h'
    rw [h] at h'
    cases h'
  · rename_i h'
    rw [h] at h'
    cases h'

/-- The rule rejects the input, so nothing more is taken. -/
theorem drain_reject (h : R.decide xs = .reject) :
    R.drain packets xs = ⟨xs, packets, true⟩ := by
  rw [drain]
  split
  · rename_i h'
    rw [h] at h'
    cases h'
  · rfl
  · rename_i h'
    rw [h] at h'
    cases h'

/-- The rule takes a frame, and goes on with what is behind it. -/
theorem drain_frame {n : Nat} {b : β} (h : R.decide xs = .frame n b) :
    R.drain packets xs = R.drain (packets ++ [b]) (xs.drop n) := by
  rw [drain]
  split
  · rename_i h'
    rw [h] at h'
    cases h'
  · rename_i h'
    rw [h] at h'
    cases h'
  · rename_i h'
    rw [h] at h'
    cases h'
    rfl

/-- Induction over the frames of the input: for bytes that wait, for bytes that are rejected, and
for a frame in front of bytes with the property. -/
theorem induction (R : Rule α β) {motive : List α → Prop}
    (wait : ∀ xs, R.decide xs = .wait → motive xs)
    (reject : ∀ xs, R.decide xs = .reject → motive xs)
    (frame : ∀ xs n b, R.decide xs = .frame n b → motive (xs.drop n) → motive xs)
    (xs : List α) : motive xs := by
  cases h : R.decide xs with
  | wait => exact wait xs h
  | reject => exact reject xs h
  | frame n b =>
    have hpos := R.pos h
    have hle := R.le h
    exact frame xs n b h (induction R wait reject frame (xs.drop n))
termination_by xs.length
decreasing_by
  rw [List.length_drop]
  omega

/-- What has not been taken is a part of the input. -/
theorem length_rest_le : (R.drain packets xs).rest.length ≤ xs.length := by
  induction xs using R.induction generalizing packets with
  | wait xs h => exact Nat.le_of_eq (by rw [drain_wait h])
  | reject xs h => exact Nat.le_of_eq (by rw [drain_reject h])
  | frame xs n b h ih =>
    rw [drain_frame h]
    refine Nat.le_trans ih ?_
    rw [List.length_drop]
    exact Nat.sub_le _ _

/-- **Waiting with a part of the input makes no difference.** -/
theorem drain_append (hbound : (xs ++ ys).length < R.bound) :
    R.drain (R.drain packets xs).packets ((R.drain packets xs).rest ++ ys) =
      R.drain packets (xs ++ ys) := by
  induction xs using R.induction generalizing packets with
  | wait xs h => rw [drain_wait h]
  | reject xs h => rw [drain_reject h]
  | frame xs n b h ih =>
    have hdrop : (xs ++ ys).drop n = xs.drop n ++ ys := List.drop_append_of_le_length (R.le h)
    have hlength : (xs.drop n ++ ys).length < R.bound := by
      rw [← hdrop, List.length_drop]
      omega
    rw [drain_frame h, drain_frame (R.frame hbound h), hdrop]
    exact ih hlength

variable (R)

/-- Receive a chunk and take off what is complete. -/
def feed (s : State α β) (chunk : List α) : State α β := R.drain s.packets (s.rest ++ chunk)

/-- Before anything has been received: nothing is left and nothing was taken. -/
def start : State α β := ⟨[], [], false⟩

/-- **The chunks do not matter**: receiving a stream in chunks comes to the same as receiving it at
once. -/
theorem feed_chunks {chunks : List (List α)} (hbound : chunks.flatten.length < R.bound) :
    chunks.foldl R.feed start = R.feed start chunks.flatten := by
  have hall : ∀ (chunks : List (List α)) (xs : List α), (xs ++ chunks.flatten).length < R.bound →
      chunks.foldl R.feed (R.drain [] xs) = R.drain [] (xs ++ chunks.flatten) := by
    intro chunks
    induction chunks with
    | nil =>
      intro xs _
      rw [List.flatten_nil, List.append_nil]
      rfl
    | cons chunk chunks ih =>
      intro xs h
      rw [List.flatten_cons, ← List.append_assoc] at h ⊢
      have hfront : (xs ++ chunk).length < R.bound := by
        rw [List.length_append] at h
        omega
      have hfeed : R.feed (R.drain [] xs) chunk = R.drain [] (xs ++ chunk) := drain_append hfront
      rw [List.foldl_cons, hfeed, ih _ h]
  have hstart : (start : State α β) = R.drain [] [] := (drain_wait R.nil).symm
  have h := hall chunks [] (by rwa [List.nil_append])
  rw [← hstart, List.nil_append] at h
  rw [h]
  rfl

end Rule

/-! ### Frames with a length in front -/

section LengthPrefixed

variable {α : Type u}

/-- The length of a frame is computed from its first bytes; the packet is the frame without some
bytes at its front. -/
structure Prefix (α : Type u) where
  /-- How many bytes the length is computed from. -/
  header : Nat
  /-- How many bytes are not part of the packet. -/
  stripped : Nat
  /-- The length, if it is well formed. -/
  size : List α → Option Nat
  /-- The length is computed from something. -/
  header_pos : 0 < header
  /-- No frame is empty, so every frame that is found shortens the input. -/
  size_pos {xs n} : size xs = some n → 0 < n
  /-- Every frame has the bytes that are stripped. -/
  stripped_le {xs n} : size xs = some n → stripped ≤ n

namespace Prefix

variable (P : Prefix α) {xs ys : List α} {n : Nat} {packet : List α}

/-- The verdict on some input: wait for the header, then for as much as it says. -/
def verdict (xs : List α) : Verdict (List α) :=
  if xs.length < P.header then .wait
  else
    match P.size (xs.take P.header) with
    | none => .reject
    | some n => if xs.length < n then .wait else .frame n ((xs.take n).drop P.stripped)

variable {P}

/-- When a frame is taken: the header is there, and so is all that it says. -/
theorem verdict_eq_frame : P.verdict xs = .frame n packet ↔
    P.header ≤ xs.length ∧ n ≤ xs.length ∧ P.size (xs.take P.header) = some n ∧
      packet = (xs.take n).drop P.stripped := by
  constructor
  · intro h
    unfold verdict at h
    split at h
    · cases h
    rename_i hlong
    split at h
    · cases h
    rename_i m hsize
    split at h
    · cases h
    rename_i hwhole
    cases h
    exact ⟨Nat.le_of_not_lt hlong, Nat.le_of_not_lt hwhole, hsize, rfl⟩
  · rintro ⟨hheader, hle, hsize, rfl⟩
    rw [verdict, if_neg (Nat.not_lt_of_le hheader), hsize]
    exact if_neg (Nat.not_lt_of_le hle)

/-- When the input is rejected: the header is there, and no size can be read from it. -/
theorem verdict_eq_reject : P.verdict xs = .reject ↔
    P.header ≤ xs.length ∧ P.size (xs.take P.header) = none := by
  constructor
  · intro h
    unfold verdict at h
    split at h
    · cases h
    rename_i hlong
    split at h
    · exact ⟨Nat.le_of_not_lt hlong, ‹_›⟩
    · split at h <;> cases h
  · rintro ⟨hheader, hsize⟩
    rw [verdict, if_neg (Nat.not_lt_of_le hheader), hsize]

/-- More input does not change a part at its front. -/
theorem take_append_of_le (h : n ≤ xs.length) : (xs ++ ys).take n = xs.take n :=
  List.take_append_of_le_length h

variable (P)

/-- The rule, which holds for streams of any length. -/
def rule (bound : Nat) : Rule α (List α) where
  decide := P.verdict
  bound := bound
  nil := if_pos P.header_pos
  pos h := P.size_pos (verdict_eq_frame.mp h).2.2.1
  le h := (verdict_eq_frame.mp h).2.1
  frame {xs ys n packet} _ h := by
    obtain ⟨hheader, hle, hsize, hpacket⟩ := verdict_eq_frame.mp h
    have hlength : xs.length ≤ (xs ++ ys).length := by simp
    rw [verdict_eq_frame, take_append_of_le hheader, take_append_of_le hle]
    exact ⟨Nat.le_trans hheader hlength, Nat.le_trans hle hlength, hsize, hpacket⟩
  reject {xs ys} _ h := by
    obtain ⟨hheader, hsize⟩ := verdict_eq_reject.mp h
    have hlength : xs.length ≤ (xs ++ ys).length := by simp
    rw [verdict_eq_reject, take_append_of_le hheader]
    exact ⟨Nat.le_trans hheader hlength, hsize⟩

@[simp] theorem rule_decide (bound : Nat) : (P.rule bound).decide = P.verdict := rfl

variable {P}

/-- The stripped bytes and the packet are the frame. -/
theorem take_stripped_append (h : P.verdict xs = .frame n packet) :
    xs.take P.stripped ++ packet = xs.take n := by
  obtain ⟨_, _, hsize, rfl⟩ := verdict_eq_frame.mp h
  have hfront : xs.take P.stripped = (xs.take n).take P.stripped := by
    rw [List.take_take, Nat.min_eq_left (P.stripped_le hsize)]
  rw [hfront, List.take_append_drop]

end Prefix

end LengthPrefixed

/-! ### Clients that keep the incomplete frame -/

universe w

/-- The frames of a protocol. None of them is empty, none of them has another one at its front, and
all of them are at most so long. -/
structure Code (α : Type u) (β : Type v) where
  /-- The packets that may be sent, since a receiver will find them again. -/
  IsFrame : β → Prop
  /-- The bytes of a frame. -/
  bytes : β → List α
  /-- How long a frame may be. -/
  limit : Nat
  /-- A frame is at most so long. -/
  length_le {f} : IsFrame f → (bytes f).length ≤ limit
  /-- A frame is not empty. -/
  ne_nil {f} : IsFrame f → bytes f ≠ []
  /-- A frame that begins with another one has nothing behind it. -/
  prefixFree {f g rest} : IsFrame f → IsFrame g → bytes g = bytes f ++ rest → rest = []

namespace Code

variable {α : Type u} {β : Type v} {γ : Type w} (C : Code α β)

/-- Frames one behind the other, as they are sent. -/
def stream (frames : List β) : List α := (frames.map C.bytes).flatten

/-- Nothing, or the front of a frame that is not complete: what a client keeps when it has taken
all complete frames. -/
def IsPart (part : List α) : Prop :=
  part = [] ∨ ∃ f rest, C.IsFrame f ∧ C.bytes f = part ++ rest ∧
    part.length < (C.bytes f).length

variable {C} {part xs ys : List α} {frames : List β}

/-- One frame in front of others comes first in the stream. -/
@[simp] theorem stream_cons (f : β) (frames : List β) :
    C.stream (f :: frames) = C.bytes f ++ C.stream frames := rfl

/-- What a client keeps is no longer than a frame. -/
theorem IsPart.length_le (h : C.IsPart part) : part.length ≤ C.limit := by
  obtain rfl | ⟨f, rest, hf, -, hshort⟩ := h
  · exact Nat.zero_le _
  · exact Nat.le_trans (Nat.le_of_lt hshort) (C.length_le hf)

/-- What a client keeps does not begin with a complete frame. -/
theorem IsPart.frames_eq_nil (h : C.IsPart xs) (hframes : ∀ f ∈ frames, C.IsFrame f)
    (hxs : xs = C.stream frames ++ ys) : frames = [] := by
  cases frames with
  | nil => rfl
  | cons g frames =>
    exfalso
    have hg := hframes g List.mem_cons_self
    rw [stream_cons, List.append_assoc] at hxs
    obtain rfl | ⟨f, rest, hf, hbytes, hshort⟩ := h
    · exact C.ne_nil hg (List.append_eq_nil_iff.mp hxs.symm).1
    · rw [hxs, List.append_assoc] at hbytes
      have hnone := C.prefixFree hg hf hbytes
      have hlength := congrArg List.length hnone
      rw [hbytes, hxs] at hshort
      simp only [List.length_append, List.length_nil] at hshort hlength
      omega

/-- The front of a stream is some of its frames and a part of the next one. -/
theorem split_stream (hpart : C.IsPart part) (frames : List β) :
    (∀ f ∈ frames, C.IsFrame f) → ∀ xs, xs ++ ys = C.stream frames ++ part →
      ∃ front back part', frames = front ++ back ∧ xs = C.stream front ++ part' ∧
        C.IsPart part' ∧ part' ++ ys = C.stream back ++ part := by
  induction frames with
  | nil =>
    intro _ xs hxs
    refine ⟨[], [], xs, rfl, rfl, ?_, hxs⟩
    have hxs' : xs ++ ys = part := hxs
    obtain rfl | ⟨f, rest, hf, hbytes, hshort⟩ := hpart
    · exact .inl (List.append_eq_nil_iff.mp hxs').1
    · refine .inr ⟨f, ys ++ rest, hf, by rw [hbytes, ← hxs', List.append_assoc], ?_⟩
      rw [← hxs', List.length_append] at hshort
      omega
  | cons f frames ih =>
    intro hframes xs hxs
    rw [stream_cons, List.append_assoc] at hxs
    have hf := hframes f List.mem_cons_self
    have htail : ∀ g ∈ frames, C.IsFrame g := fun g hg => hframes g (List.mem_cons_of_mem _ hg)
    -- The cut is in the first frame or behind it.
    obtain ⟨more, hmore, hys⟩ | ⟨more, rfl, hys⟩ := List.append_eq_append_iff.mp hxs
    · cases more with
      | nil =>
        rw [List.append_nil] at hmore
        refine ⟨[f], frames, [], rfl, ?_, .inl rfl, hys⟩
        rw [← hmore, stream_cons, List.append_nil]
        exact (List.append_nil _).symm
      | cons b more =>
        refine ⟨[], f :: frames, xs, rfl, rfl, .inr ⟨f, b :: more, hf, hmore, ?_⟩, ?_⟩
        · rw [hmore, List.length_append, List.length_cons]
          omega
        · rw [stream_cons, List.append_assoc, hxs]
    · obtain ⟨front, back, part', rfl, rfl, hpart', hback⟩ := ih htail more hys.symm
      exact ⟨f :: front, back, part', rfl, (List.append_assoc _ _ _).symm, hpart', hback⟩

/-- A client with a buffer takes the complete frames off it, as long as the buffer is shorter than
some bound, and makes a response of each of them. -/
def Takes (C : Code α β) (bound : Nat) (response : β → γ)
    (receive : List α × List γ → List α → Option (List α × List γ)) : Prop :=
  ∀ kept chunk done frames part, (∀ f ∈ frames, C.IsFrame f) → C.IsPart part →
    kept ++ chunk = C.stream frames ++ part → (kept ++ chunk).length < bound →
      receive (kept, done) chunk = some (part, done ++ frames.map response)

/-- **The chunks of a stream do not matter**, and neither does its length: a client that takes the
complete frames off its buffer makes one response of each frame, in order, and keeps the part. -/
theorem Takes.chunks {bound : Nat} {response : β → γ}
    {receive : List α × List γ → List α → Option (List α × List γ)}
    (h : C.Takes bound response receive) (hpart : C.IsPart part) (chunks : List (List α)) :
    ∀ kept done frames, C.IsPart kept → (∀ f ∈ frames, C.IsFrame f) →
      kept ++ chunks.flatten = C.stream frames ++ part →
        (∀ chunk ∈ chunks, C.limit + chunk.length < bound) →
          chunks.foldlM receive (kept, done) = some (part, done ++ frames.map response) := by
  induction chunks with
  | nil =>
    intro kept done frames hkept hframes hbytes _
    rw [List.flatten_nil, List.append_nil] at hbytes
    obtain rfl := hkept.frames_eq_nil hframes hbytes
    obtain rfl : kept = part := hbytes
    rw [List.map_nil, List.append_nil]
    rfl
  | cons chunk chunks ih =>
    intro kept done frames hkept hframes hbytes hchunks
    rw [List.flatten_cons, ← List.append_assoc] at hbytes
    obtain ⟨front, back, part', rfl, hfront, hpart', hback⟩ :=
      split_stream hpart frames hframes _ hbytes
    have hlength : (kept ++ chunk).length < bound := by
      have hchunk := hchunks chunk List.mem_cons_self
      have hle := hkept.length_le
      rw [List.length_append]
      omega
    have hone := h kept chunk done front part'
      (fun f hf => hframes f (List.mem_append_left _ hf)) hpart' hfront hlength
    rw [List.foldlM_cons, hone, List.map_append, ← List.append_assoc]
    exact ih part' (done ++ front.map response) back hpart'
      (fun f hf => hframes f (List.mem_append_right _ hf)) hback
      fun c hc => hchunks c (List.mem_cons_of_mem _ hc)

end Code

end Framing
