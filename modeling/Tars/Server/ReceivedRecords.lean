import Tars.Server.Connection

/-!
# Which bytes reach the handlers

One connection is read by a sequence of calls of `recv`, until one finds it closed and
`processNet` deletes it. The records that were queued until then hold all bytes that `::read`
returned, in order, exactly when the last call did not read anything before it failed: with
`-1` the bytes that it read are deleted together with the connection.
-/

namespace Tars

namespace Connection

open ReadResult

/-- What `processNet` does for `EPOLLIN`: a connection that was found closed is deleted, else the
records are passed to `insertRecvQueue`. There are no events for a deleted connection. -/
def processNet : Option Connection → List ReadResult →
    Option (Option Connection × List TagRecvData)
  | none, _ => none
  | some c, answers =>
    match c.recv answers with
    | none => none
    | some (c, vRecvData, ret) => some (if ret < 0 then (none, []) else (some c, vRecvData))

/-- A call of `recv` that loses no bytes: it does not end with the end of the file or an error,
`EINTR` included, or has read nothing before. -/
def Harmless (answers : List ReadResult) : Prop := batchOf answers ≠ none ∨ readBy answers = []

instance (answers : List ReadResult) : Decidable (Harmless answers) :=
  inferInstanceAs (Decidable (_ ∨ _))

section Receiving

variable {c : Connection} {answers : List ReadResult} {s : Option Connection}
  {script : List (List ReadResult)} {records : List TagRecvData}

/-- A call that finds the connection closed ends with the connection and its bytes deleted. -/
theorem processNet_of_closed (h : batchOf answers = none) :
    processNet (some c) answers = some (none, []) := by
  have hloop := recvLoop_spec c.recvbuffer answers (Nat.lt_succ_self _)
  rw [h] at hloop
  rw [processNet, recv, hloop]
  rfl

/-- Any other call on an empty receive buffer leaves the connection as it was and passes on
what it has read. -/
theorem processNet_of_open (hlfd : c.lfd ≠ none) (hempty : c.recvbuffer = [])
    (h : batchOf answers ≠ none) :
    ∃ vRecvData, processNet (some c) answers = some (some c, vRecvData) ∧
      vRecvData.flatMap TagRecvData.buffer = readBy answers := by
  obtain ⟨hclosed, -⟩ | ⟨batch, hbatch, hrecv⟩ := recv_spec answers hlfd hempty
  · exact absurd hclosed h
  · rw [← batchOf_eq_some hbatch, processNet, hrecv]
    have hret : ¬(if batch = [] then (0 : ℤ) else 1) < 0 := by split <;> decide
    refine ⟨_, congrArg some (if_neg hret), ?_⟩
    by_cases hnone : batch = []
    · rw [if_pos hnone, hnone, List.flatMap_nil]
    · rw [if_neg hnone, List.flatMap_singleton]

/-- A connection that was not accepted from a listening socket passes on nothing. -/
theorem processNet_of_unaccepted (hlfd : c.lfd = none) {vRecvData : List TagRecvData}
    (h : processNet (some c) answers = some (s, vRecvData)) :
    vRecvData = [] ∧ ∀ d ∈ s, d.lfd = none := by
  have hloop := recvLoop_spec c.recvbuffer answers (Nat.lt_succ_self _)
  rw [processNet, recv, hloop] at h
  cases hbatch : batchOf answers with
  | none =>
    simp only [hbatch, Option.isSome_none] at h
    obtain ⟨rfl, rfl⟩ := Prod.mk.inj (Option.some.inj h)
    exact ⟨rfl, fun d hd => by cases hd⟩
  | some batch =>
    simp only [hbatch, Option.isSome_some, hlfd, ne_eq, not_true_eq_false, false_and,
      if_false] at h
    obtain ⟨rfl, rfl⟩ := Prod.mk.inj (Option.some.inj h)
    exact ⟨rfl, fun d hd => by rw [← Option.some.inj hd]⟩

/-- From an accepted connection with an empty receive buffer exactly the runs of harmless calls
pass on all bytes. -/
private theorem run_of_accepted (hlfd : c.lfd ≠ none) (hempty : c.recvbuffer = [])
    (hexec : Scripts.exec processNet (some c) script = some (s, records)) :
    records.flatMap TagRecvData.buffer = script.flatMap readBy ↔
      ∀ answers ∈ script, Harmless answers := by
  induction script generalizing records with
  | nil =>
    obtain ⟨-, rfl⟩ := Prod.mk.inj (Option.some.inj hexec)
    simp
  | cons answers script ih =>
    obtain ⟨t, first, rest, hstep, hrest, rfl⟩ := Scripts.exec_cons_eq_some.mp hexec
    rw [List.flatMap_append, List.flatMap_cons, List.forall_mem_cons]
    by_cases hbatch : batchOf answers = none
    · rw [processNet_of_closed hbatch] at hstep
      obtain ⟨rfl, rfl⟩ := Prod.mk.inj (Option.some.inj hstep)
      cases script with
      | nil =>
        obtain ⟨-, rfl⟩ := Prod.mk.inj (Option.some.inj hrest)
        simp only [List.flatMap_nil, List.append_nil, Harmless, hbatch, ne_eq, not_true_eq_false,
          false_or, List.not_mem_nil, false_implies, implies_true, and_true]
        exact eq_comm
      | cons next script => cases hrest
    · obtain ⟨vRecvData, hstep', hbytes⟩ := processNet_of_open hlfd hempty hbatch
      obtain ⟨rfl, rfl⟩ := Prod.mk.inj (Option.some.inj (hstep'.symm.trans hstep))
      rw [hbytes, List.append_cancel_left_eq, ih hrest]
      simp [Harmless, hbatch]

end Receiving

/-- **Conservation of received bytes.** Take any sequence of calls of `recv` on a connection,
with any answers of the kernel, until the connection is deleted. The buffers of the queued
records are all bytes that `::read` returned, in order, exactly when the connection came from
a listening socket and every call is harmless, or nothing was read at all. -/
theorem records_hold_all_iff {c : Connection} {script : List (List ReadResult)}
    {s : Option Connection} {records : List TagRecvData} (hempty : c.recvbuffer = [])
    (hexec : Scripts.exec processNet (some c) script = some (s, records)) :
    records.flatMap TagRecvData.buffer = script.flatMap readBy ↔
      (c.lfd ≠ none ∧ ∀ answers ∈ script, Harmless answers) ∨ script.flatMap readBy = [] := by
  by_cases hlfd : c.lfd = none
  · have hnothing : (∀ d ∈ s, d.lfd = none) ∧ records = [] := by
      refine Scripts.exec_keeps (I := fun t es => (∀ d ∈ t, d.lfd = none) ∧ es = []) ?_
        ⟨fun d hd => by rwa [← Option.some.inj hd], rfl⟩ hexec
      rintro (_ | d) answers t es past ⟨hnone, rfl⟩ hstep
      · cases hstep
      · obtain ⟨rfl, hnext⟩ := processNet_of_unaccepted (hnone d rfl) hstep
        exact ⟨hnext, rfl⟩
    rw [hnothing.2, List.flatMap_nil, eq_comm]
    simp [hlfd]
  · rw [run_of_accepted hlfd hempty hexec]
    refine ⟨fun hall => .inl ⟨hlfd, hall⟩, fun hcases => ?_⟩
    obtain ⟨-, hall⟩ | hnothing := hcases
    · exact hall
    · exact fun answers hmem => .inr (List.flatMap_eq_nil_iff.mp hnothing answers hmem)

/-- A new connection from the listening socket 3, which has not read anything. -/
def accepted : Connection :=
  { uid := 1, lfd := some 3, sock := some 7, ip := bytes "127.0.0.1", port := 5000,
    recvbuffer := [] }

/-- `records_hold_all_iff` for two requests and the close of the peer: both requests reach the
handlers. -/
theorem records_hold_all_iff_sample :
    ∃ s records, Scripts.exec processNet (some accepted)
        [[.data (bytes "1:a:b"), .again], [.data (bytes "2:a:c")], [.data []]] =
      some (s, records) ∧
      records.map TagRecvData.buffer = [bytes "1:a:b", bytes "2:a:c"] ∧
      (records.flatMap TagRecvData.buffer =
          [[ReadResult.data (bytes "1:a:b"), .again], [.data (bytes "2:a:c")],
            [.data []]].flatMap readBy ↔
        (accepted.lfd ≠ none ∧
            ∀ answers ∈ [[ReadResult.data (bytes "1:a:b"), .again], [.data (bytes "2:a:c")],
              [.data []]], Harmless answers) ∨
          [[ReadResult.data (bytes "1:a:b"), .again], [.data (bytes "2:a:c")],
            [.data []]].flatMap readBy = []) :=
  ⟨_, _, rfl, rfl, records_hold_all_iff rfl rfl⟩

/-- A chunk that fills the array is read, and the end of the file behind it is found in the same
call. -/
private theorem full_chunk_then_end {bs : Bytes} (h : bs.length = bufferSize) :
    batchOf [.data bs, .data []] = none ∧ readBy [.data bs, .data []] = bs := by
  have hdrop : bs.drop bufferSize = [] := List.drop_eq_nil_of_le h.le
  constructor
  · rw [← Option.not_isSome_iff_eq_none, batchOf_full [.data []] h.ge, hdrop]
    decide
  · rw [readBy_full [.data []] h.ge, hdrop, List.take_of_length_le h.le]
    exact List.append_nil bs

/-- A request of exactly 32 KiB after which the peer closes is read and deleted. -/
theorem full_chunk_lost :
    ∃ script s records, Scripts.exec processNet (some accepted) script = some (s, records) ∧
      records.flatMap TagRecvData.buffer ≠ script.flatMap readBy := by
  have hlen : (List.replicate bufferSize 97 : Bytes).length = bufferSize := List.length_replicate
  generalize (List.replicate bufferSize 97 : Bytes) = bs at hlen
  obtain ⟨hbatch, hread⟩ := full_chunk_then_end hlen
  refine ⟨[[.data bs, .data []]], none, [],
    Scripts.exec_cons_eq_some.mpr ⟨none, [], [], processNet_of_closed hbatch, rfl, rfl⟩, ?_⟩
  rw [List.flatMap_cons, hread, List.flatMap_nil, List.flatMap_nil, List.append_nil]
  rintro rfl
  exact absurd hlen (by decide)

end Connection

end Tars
