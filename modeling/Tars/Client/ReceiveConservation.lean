import Tars.Client.ResponseFraming

/-!
# What one call of `doResponse` passes on

`readv` closes the transceiver at the end of the file and on an error, and `close` clears the
receive buffer. So a call of `doResponse` passes on all bytes that it got, behind those that
were in the buffer before, exactly when the kernel's last answer is `EAGAIN`; bytes that the
peer sent just before it closed are lost.
-/

namespace Tars

namespace Transceiver

open ReadResult

/-- The bytes that `readv` delivers in one call of `doResponse`. It fails without a socket. -/
def delivered (t : Transceiver) (answers : List ReadResult) : Bytes :=
  if t.fd = none then [] else deliveredBy answers

/-- No `readv` of the call closes a socket: there is none, or the last answer is `EAGAIN`. -/
def StaysOpen (t : Transceiver) (answers : List ReadResult) : Prop :=
  t.fd = none ∨ batchOf answers ≠ none

instance (t : Transceiver) (answers : List ReadResult) : Decidable (t.StaysOpen answers) :=
  inferInstanceAs (Decidable (_ ∨ _))

/-- The strings in `done` are the old content of the receive buffer and, behind it, all bytes
that `readv` delivered. -/
def PassesOnAll (t : Transceiver) (answers : List ReadResult) : Prop :=
  ∃ t' done ret, t.doResponse answers = some (t', done, ret) ∧
    done.flatten = t.recvBuffer.readable ++ t.delivered answers

section Reading

variable {t u : Transceiver} {answers : List ReadResult}

/-- Storing what was read keeps the receive buffer well formed whenever it succeeds. -/
theorem wf_of_storeRead {b b' : TCBuffer} (h : b.WF) {bs : Bytes}
    (hstore : storeRead b bs = some b') : b'.WF := by
  unfold storeRead at hstore
  simp only at hstore
  by_cases hfits : bs.length ≤ b.writableSize
  · rw [if_pos hfits] at hstore
    obtain rfl := Option.some.inj hstore
    exact (h.store_produce bs hfits).1
  · have hroom : (bs.take b.writableSize).length = b.writableSize := by
      rw [List.length_take]
      omega
    obtain ⟨hwf, -⟩ := h.store_produce (bs.take b.writableSize) hroom.le
    rw [hroom] at hwf
    rw [if_neg hfits] at hstore
    obtain ⟨⟨c, n⟩, hpush, rfl⟩ := Option.map_eq_some_iff.mp hstore
    exact hwf.pushData_of_some hpush

/-- How one iteration of the loop of `doResponse` can end, at any size: the old content and
8 KiB fitted, and it is the last one before `EAGAIN`, the last one before a close, or one that
leaves the rest of the answers. -/
theorem readOnce_of_some (hwf : t.recvBuffer.WF) {next : Option (List ReadResult)}
    (h : t.readOnce answers = some (u, next)) :
    t.recvBuffer.readableSize + 8 * 1024 ≤ 2 ^ 62 ∧ ∃ b : TCBuffer, b.WF ∧
      (next = none ∧ b.readable = t.recvBuffer.readable ∧
          (u = { t with recvBuffer := b } ∧ batchOf answers ≠ none ∨
            u = { t with recvBuffer := b }.close ∧ (t.fd = none ∨ batchOf answers = none)) ∨
        ∃ rest, next = some rest ∧ u = { t with recvBuffer := b } ∧
          (batchOf answers = none ↔ batchOf rest = none)) := by
  unfold readOnce at h
  cases hspace : t.recvBuffer.assureSpace (8 * 1024) with
  | none => simp [hspace] at h
  | some b =>
    obtain ⟨hneed, hb, hsame, -⟩ := hwf.assureSpace_of_some hspace
    refine ⟨hneed, ?_⟩
    rw [hspace] at h
    dsimp only at h
    by_cases hfd : t.fd = none
    · rw [if_pos hfd] at h
      obtain ⟨rfl, rfl⟩ := Prod.mk.inj (Option.some.inj h)
      exact ⟨b, hb, .inl ⟨rfl, hsame, .inr ⟨rfl, .inl hfd⟩⟩⟩
    rw [if_neg hfd] at h
    match answers, h with
    | [], h | .again :: _, h =>
      obtain ⟨rfl, rfl⟩ := Prod.mk.inj (Option.some.inj h)
      exact ⟨b, hb, .inl ⟨rfl, hsame, .inl ⟨rfl, nofun⟩⟩⟩
    | .error :: _, h | .data [] :: _, h =>
      obtain ⟨rfl, rfl⟩ := Prod.mk.inj (Option.some.inj h)
      exact ⟨b, hb, .inl ⟨rfl, hsame, .inr ⟨rfl, .inr rfl⟩⟩⟩
    | .data (c :: cs) :: rest, h =>
      obtain ⟨stored, hstore, heq⟩ := Option.map_eq_some_iff.mp h
      obtain ⟨rfl, rfl⟩ := Prod.mk.inj heq
      refine ⟨stored, wf_of_storeRead hb hstore, .inr ⟨_, rfl, rfl, ?_⟩⟩
      rw [batchOf_leave, batchOf, Option.map_eq_none_iff, Option.map_eq_none_iff]

/-- How the loop of `doResponse` can end, at any size: what is readable then fits an array of
`2 ^ 62` bytes together with 8 KiB, and it was cleared if a socket was closed. -/
theorem readLoop_of_some (hwf : t.recvBuffer.WF) {fuel : ℕ}
    (h : t.readLoop fuel answers = some u) :
    ∃ b : TCBuffer, b.WF ∧ b.readableSize + 8 * 1024 ≤ 2 ^ 62 ∧
      (u = { t with recvBuffer := b } ∧ batchOf answers ≠ none ∨
        u = { t with recvBuffer := b }.close ∧ (t.fd = none ∨ batchOf answers = none)) := by
  induction fuel generalizing t answers with
  | zero => cases h
  | succ fuel ih =>
    rw [readLoop] at h
    cases hone : t.readOnce answers with
    | none => simp [hone] at h
    | some out =>
      obtain ⟨v, next⟩ := out
      obtain ⟨hneed, b, hb, ⟨rfl, hsame, hend⟩ | ⟨rest, rfl, rfl, hiff⟩⟩ :=
        readOnce_of_some hwf hone
      · rw [hone] at h
        obtain rfl := Option.some.inj h
        refine ⟨b, hb, ?_, hend⟩
        rwa [← hb.length_readable, hsame, hwf.length_readable]
      · rw [hone] at h
        obtain ⟨c, hc, hlast, hend⟩ := ih hb h
        refine ⟨c, hc, hlast, ?_⟩
        rw [ne_eq, hiff]
        exact hend

/-- When a socket is closed in the loop of `doResponse` nothing is readable behind it. -/
theorem readable_close {fd : ℕ} (hfd : t.fd = some fd) : t.close.recvBuffer.readable = [] := by
  simp only [close, hfd]
  simp [TCBuffer.readable, TCBuffer.clear, TCBuffer.readableSize, sizeSub]

/-- **Conservation of received bytes.** For any content of the receive buffer and any answers of
the kernel, one call of `doResponse` passes on the old content and everything that it was
delivered, in order, exactly when no `readv` of it closes the socket, or there is nothing to
lose, and all these bytes and 8 KiB fit an array of `2 ^ 62` bytes. -/
theorem passesOnAll_iff (hwf : t.recvBuffer.WF) :
    t.PassesOnAll answers ↔
      (t.StaysOpen answers ∨ t.recvBuffer.readable ++ t.delivered answers = []) ∧
        (t.recvBuffer.readable ++ t.delivered answers).length + 8 * 1024 ≤ 2 ^ 62 := by
  constructor
  · rintro ⟨t', done, ret, hread, hall⟩
    cases hloop : t.readLoop (totalBytes answers + 1) answers with
    | none => simp [doResponse, hloop] at hread
    | some u =>
      obtain ⟨b, hb, hfits, hend⟩ := readLoop_of_some hwf hloop
      have hpassed (hu : u.recvBuffer.WF) :
          t.recvBuffer.readable ++ t.delivered answers = u.recvBuffer.readable := by
        obtain ⟨t'', ret', hread', -⟩ := doResponse_of_loop hu hloop
        obtain ⟨-, heq⟩ := Prod.mk.inj (Option.some.inj (hread.symm.trans hread'))
        rw [← hall, (Prod.mk.inj heq).1]
        split <;> simp_all
      obtain ⟨rfl, hopen⟩ | ⟨rfl, hclosed⟩ := hend
      · rw [hpassed hb]
        exact ⟨.inl (.inr hopen), by rwa [hb.length_readable]⟩
      · cases hfd : t.fd with
        | none =>
          have hsame : ({ t with recvBuffer := b } : Transceiver).close =
              { t with recvBuffer := b } := by simp only [close, hfd]
          rw [hsame] at hpassed
          rw [hpassed hb]
          exact ⟨.inl (.inl hfd), by rwa [hb.length_readable]⟩
        | some fd =>
          have hgone : ({ t with recvBuffer := b } : Transceiver).close.recvBuffer.readable = [] :=
            readable_close hfd
          have hwf' : ({ t with recvBuffer := b } : Transceiver).close.recvBuffer.WF := by
            simpa [close, hfd] using hb.clear_spec.1
          rw [hpassed hwf', hgone]
          exact ⟨.inr rfl, by decide⟩
  · rintro ⟨hopen, hfits⟩
    rw [List.length_append] at hfits
    cases hfd : t.fd with
    | none =>
      obtain ⟨b, hb, hsame, hloop⟩ :=
        readLoop_of_closed hfd hwf (by omega) answers (totalBytes answers)
      obtain ⟨t', ret, hread, -⟩ := doResponse_of_loop hb hloop
      refine ⟨t', _, ret, hread, ?_⟩
      rw [delivered, if_pos hfd, ← hsame]
      split <;> simp_all
    | some fd =>
      have hdelivered : t.delivered answers = deliveredBy answers := by simp [delivered, hfd]
      rw [hdelivered] at hopen hfits
      obtain ⟨b, hb, ⟨batch, hbatch, hloop, hall⟩ | ⟨hbatch, hloop⟩⟩ :=
        readLoop_spec hfd hwf hfits (Nat.lt_succ_self (totalBytes answers))
      · obtain ⟨t', ret, hread, -⟩ := doResponse_of_loop hb hloop
        refine ⟨t', _, ret, hread, ?_⟩
        rw [hdelivered, ← batchOf_eq_some hbatch, ← hall]
        split <;> simp_all
      · have hnothing : t.recvBuffer.readable ++ deliveredBy answers = [] :=
          hopen.resolve_left fun h => h.elim (by simp [hfd]) (absurd hbatch)
        have hgone : ({ t with recvBuffer := b } : Transceiver).close.recvBuffer.readable = [] :=
          readable_close hfd
        obtain ⟨t', ret, hread, -⟩ := doResponse_of_loop
          (by simpa [close, hfd] using hb.clear_spec.1) hloop
        refine ⟨t', _, ret, hread, ?_⟩
        rw [hdelivered, hnothing, hgone]
        rfl

end Reading

/-- A connected transceiver that received nothing yet, so its buffers are empty. -/
def connected : Transceiver := { new with fd := some 0 }

/-- `passesOnAll_iff` for a response that is followed by `EAGAIN`, which is passed on. -/
theorem passesOnAll_iff_answered :
    connected.PassesOnAll [.data (bytes "1:ok"), .again] ∧
      (connected.PassesOnAll [.data (bytes "1:ok"), .again] ↔
        (connected.StaysOpen [.data (bytes "1:ok"), .again] ∨
            connected.recvBuffer.readable ++
              connected.delivered [.data (bytes "1:ok"), .again] = []) ∧
          (connected.recvBuffer.readable ++
            connected.delivered [.data (bytes "1:ok"), .again]).length + 8 * 1024 ≤ 2 ^ 62) := by
  have hwf : connected.recvBuffer.WF := TCBuffer.wf_new
  exact ⟨(passesOnAll_iff hwf).mpr (by decide), passesOnAll_iff hwf⟩

/-- A response that the peer sends before it closes is not passed on. -/
theorem last_response_lost :
    ∃ (t : Transceiver) (answers : List ReadResult),
      t.recvBuffer.WF ∧ t.delivered answers = bytes "1:ok" ∧ ¬t.PassesOnAll answers := by
  refine ⟨connected, [.data (bytes "1:ok"), .data []], TCBuffer.wf_new, by decide, ?_⟩
  rintro ⟨t', done, ret, hread, hall⟩
  have hnothing : (connected.doResponse [.data (bytes "1:ok"), .data []]).map (·.2.1) = some [] :=
    rfl
  rw [hread] at hnothing
  obtain rfl := Option.some.inj hnothing
  exact absurd hall (by decide)

end Transceiver

end Tars
