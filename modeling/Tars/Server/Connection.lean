import Tars.Cpp
import Tars.Library.Scripts

/-!
# Connections of the server

The network thread accepts connections and reads requests from them into the receive queue
of the adapter, from which a handler takes them. Identifiers of connections are handed out
once: the thread never returns one to `_free`.
-/

namespace Tars

/-- The members of `tagRecvData` that the handlers use: whose bytes they are, and what they are. -/
structure TagRecvData where
  /-- `uid`, the connection. -/
  uid : ℕ
  /-- `buffer`, what was received. -/
  buffer : Bytes
  /-- `ip` of the client. -/
  ip : Bytes
  /-- `port` of the client. -/
  port : ℕ
  /-- `isClosed`: the record only says that the connection was closed. -/
  isClosed : Bool
  /-- `fd` of the connection; `none` stands for `-1`. -/
  fd : Option ℕ
  deriving DecidableEq

/-- The members of `Connection` that receiving uses, among them the bytes that were not yet passed
on. -/
structure Connection where
  /-- `_uid`. -/
  uid : ℕ
  /-- `_lfd`, the listening socket; `none` stands for `-1`. -/
  lfd : Option ℕ
  /-- `_sock`; `none` while it is not valid. -/
  sock : Option ℕ
  /-- `_ip`. -/
  ip : Bytes
  /-- `_port`. -/
  port : ℕ
  /-- `_recvbuffer`. -/
  recvbuffer : Bytes

namespace Connection

open ReadResult

/-- `sizeof buffer` in `recv`: the most that one call of `::read` or `::recvfrom` returns. -/
def bufferSize : ℕ := 32 * 1024

/-- The loop of `recv`: what is in the receive buffer afterwards, and whether the call goes
on. The first argument bounds the iterations. -/
def recvLoop : ℕ → Bytes → List ReadResult → Option (Bytes × Bool)
  | 0, _, _ => none
  | fuel + 1, recvbuffer, answers =>
    match answers with
    | [] | .again :: _ => some (recvbuffer, true)
    | .error :: _ | .data [] :: _ => some (recvbuffer, false)
    | .data (b :: bs) :: rest =>
      let received := (b :: bs).take bufferSize
      if received.length < bufferSize then some (recvbuffer ++ received, true)
      else recvLoop fuel (recvbuffer ++ received) (leave ((b :: bs).drop bufferSize) rest)

/-- `recv`: the connection, the records in `o`, and the value returned. -/
def recv (c : Connection) (answers : List ReadResult) :
    Option (Connection × List TagRecvData × ℤ) :=
  match recvLoop (totalBytes answers + 1) c.recvbuffer answers with
  | none => none
  | some (recvbuffer, false) => some ({ c with recvbuffer }, [], -1)
  | some (recvbuffer, true) =>
    if c.lfd ≠ none ∧ recvbuffer ≠ [] then
      let recv : TagRecvData :=
        { uid := c.uid, buffer := recvbuffer, ip := c.ip, port := c.port, isClosed := false,
          fd := c.sock }
      some ({ c with recvbuffer := [] }, [recv], 1)
    else some ({ c with recvbuffer }, [], 0)

/-- The bytes that one call of `recv` reads, if it does not find the connection closed: the
loop ends with the first call of `::read` that does not fill the array. -/
def batchOf : List ReadResult → Option Bytes
  | [] | .again :: _ => some []
  | .error :: _ | .data [] :: _ => none
  | .data (b :: bs) :: rest =>
    if (b :: bs).length % bufferSize = 0 then (batchOf rest).map (b :: bs ++ ·)
    else some (b :: bs)

/-- The bytes that `::read` returns during one call of `recv`, whatever ends the call. -/
def readBy : List ReadResult → Bytes
  | .data (b :: bs) :: rest =>
    if (b :: bs).length % bufferSize = 0 then b :: bs ++ readBy rest else b :: bs
  | _ => []

section Receiving

variable {c : Connection} {answers : List ReadResult}

/-- A call that does not find the connection closed reads its batch. -/
theorem batchOf_eq_some {batch : Bytes} (h : batchOf answers = some batch) :
    batch = readBy answers := by
  induction answers generalizing batch with
  | nil => exact (Option.some.inj h).symm
  | cons answer rest ih =>
    match answer with
    | .again => exact (Option.some.inj h).symm
    | .error | .data [] => cases h
    | .data (b :: bs) =>
      rw [batchOf] at h
      rw [readBy]
      by_cases hfull : (b :: bs).length % bufferSize = 0
      · rw [if_pos hfull] at h ⊢
        obtain ⟨tail, htail, rfl⟩ := Option.map_eq_some_iff.mp h
        rw [ih htail]
      · rw [if_neg hfull] at h ⊢
        exact (Option.some.inj h).symm

/-- Whether what is available fills the arrays does not change when one of them is filled. -/
private theorem length_drop_mod {bs : Bytes} (h : bufferSize ≤ bs.length) :
    bs.length % bufferSize = (bs.drop bufferSize).length % bufferSize := by
  rw [List.length_drop]
  exact Nat.mod_eq_sub_mod h

/-- A call of `::read` that fills the array takes it from the front of what is read. -/
theorem readBy_full {bs : Bytes} (rest : List ReadResult) (h : bufferSize ≤ bs.length) :
    readBy (.data bs :: rest) =
      bs.take bufferSize ++ readBy (leave (bs.drop bufferSize) rest) := by
  cases bs with
  | nil => exact absurd h (by decide)
  | cons b bs =>
    have hall := List.take_append_drop bufferSize (b :: bs)
    rw [readBy, length_drop_mod h]
    cases hdrop : (b :: bs).drop bufferSize with
    | nil =>
      rw [hdrop, List.append_nil] at hall
      simp [leave, hall]
    | cons d ds =>
      rw [hdrop] at hall
      simp only [leave, reduceCtorEq, if_false, readBy]
      split
      · rw [← List.append_assoc, hall]
      · exact hall.symm

/-- A call of `::read` that fills the array does not end the call of `recv`. -/
theorem batchOf_full {bs : Bytes} (rest : List ReadResult) (h : bufferSize ≤ bs.length) :
    (batchOf (.data bs :: rest)).isSome = (batchOf (leave (bs.drop bufferSize) rest)).isSome := by
  cases bs with
  | nil => exact absurd h (by decide)
  | cons b bs =>
    rw [batchOf, length_drop_mod h]
    cases hdrop : (b :: bs).drop bufferSize with
    | nil => simp [leave]
    | cons d ds =>
      simp only [leave, reduceCtorEq, if_false, batchOf]
      split <;> simp

/-- **The loop of `recv`** ends with what was read behind what was in the buffer. -/
theorem recvLoop_spec {fuel : ℕ} (recvbuffer : Bytes) (answers : List ReadResult)
    (hfuel : totalBytes answers < fuel) :
    recvLoop fuel recvbuffer answers =
      some (recvbuffer ++ readBy answers, (batchOf answers).isSome) := by
  induction fuel generalizing recvbuffer answers with
  | zero => omega
  | succ fuel ih =>
    match answers, hfuel with
    | [], _ | .again :: _, _ | .error :: _, _ | .data [] :: _, _ =>
      simp [recvLoop, batchOf, readBy]
    | .data (b :: bs) :: rest, hfuel =>
      rw [totalBytes_cons] at hfuel
      by_cases hshort : (b :: bs).length < bufferSize
      · have hmod : ¬(b :: bs).length % bufferSize = 0 := by
          rw [Nat.mod_eq_of_lt hshort]
          simp
        rw [recvLoop, batchOf, readBy, if_neg hmod, if_neg hmod,
          List.take_of_length_le (le_of_lt hshort)]
        exact if_pos hshort
      · have hfull : ((b :: bs).take bufferSize).length = bufferSize :=
          List.length_take_of_le (by omega)
        rw [recvLoop, readBy_full rest (by omega), batchOf_full rest (by omega),
          ← List.append_assoc]
        simp only [hfull, lt_self_iff_false, if_false]
        refine ih _ _ ?_
        rw [totalBytes_leave, List.length_drop]
        unfold bufferSize at hshort ⊢
        omega

/-- **`recv`** with an empty receive buffer makes one record of a nonempty batch, and the
buffer is empty again unless the connection was found closed. -/
theorem recv_spec (answers : List ReadResult) (hlfd : c.lfd ≠ none) (hempty : c.recvbuffer = []) :
    (batchOf answers = none ∧ ∃ recvbuffer,
        c.recv answers = some ({ c with recvbuffer }, [], -1)) ∨
      ∃ batch, batchOf answers = some batch ∧
        c.recv answers = some (c, if batch = [] then [] else
          [{ uid := c.uid, buffer := batch, ip := c.ip, port := c.port, isClosed := false,
             fd := c.sock }], if batch = [] then 0 else 1) := by
  have hloop := recvLoop_spec c.recvbuffer answers (Nat.lt_succ_self _)
  rw [hempty, List.nil_append] at hloop
  have hsame : ({ c with recvbuffer := [] } : Connection) = c := by
    rw [← hempty]
  cases hbatch : batchOf answers with
  | none =>
    rw [hbatch] at hloop
    refine .inl ⟨rfl, readBy answers, ?_⟩
    rw [recv, hempty, hloop]
    rfl
  | some batch =>
    rw [hbatch, ← batchOf_eq_some hbatch] at hloop
    refine .inr ⟨batch, rfl, ?_⟩
    rw [recv, hempty, hloop]
    by_cases hnone : batch = []
    · simp [hnone, hsame]
    · simp [hnone, hlfd, hsame]

end Receiving

end Connection

end Tars
