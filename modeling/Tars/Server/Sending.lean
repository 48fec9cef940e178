import Tars.Server.Connection

/-!
# Sending on a connection of the server

A response is passed to `::send` at once. What the kernel does not take of it is not kept: nothing
puts slices into `_sendbuffer`, which `EPOLLOUT` flushes.
-/

namespace Tars

/-- The answer of `::send` and `::writev`: so many bytes were taken, try again, or an error. -/
inductive WriteResult where
  /-- It takes this many bytes, or all of them if there are fewer. -/
  | accepted (n : ℕ)
  /-- It fails with `EAGAIN`. -/
  | again
  /-- It fails with `EINTR`. -/
  | interrupted
  /-- It fails with another error. -/
  | error
  deriving DecidableEq

/-- The most that the kernel takes in one call. -/
def maxWrite : ℕ := 2 ^ 31 - 4096

/-- The members of `Connection` that sending uses: the slices that wait for the socket. -/
structure Sender where
  /-- `_sendbuffer`: the data of its slices. -/
  sendbuffer : List Bytes
  /-- `_bClose`. -/
  bClose : Bool

/-- What a call that sends does: the bytes that the kernel takes, and the value that is returned. -/
structure Sent where
  /-- The bytes that the kernel took. -/
  took : Bytes
  /-- The value returned; `none` stands for `-1`. -/
  bytes : Option ℕ
  deriving DecidableEq

namespace Sender

/-- `tcpSend` hands bytes to `::send` once, and says what was taken and what it returned. -/
def tcpSend (data : Bytes) (answer : WriteResult) : Sent :=
  if data.length = 0 then ⟨[], some 0⟩
  else
    match answer with
    | .accepted n => ⟨data.take (min n maxWrite), some (min (min n maxWrite) data.length)⟩
    | .again | .interrupted => ⟨[], some 0⟩
    | .error => ⟨[], none⟩

/-- `tcpWriteV` hands several buffers to `::writev` once, which takes them as if they were one. -/
def tcpWriteV (buffers : List Bytes) (answer : WriteResult) : Sent :=
  match answer with
  | .accepted n =>
    ⟨buffers.flatten.take (min n maxWrite), some (min (min n maxWrite) buffers.flatten.length)⟩
  | .again => ⟨[], some 0⟩
  | .interrupted | .error => ⟨[], none⟩

/-- `send` of slices, at most `max scIovMax 16` with each call of `::writev`. -/
def sendSlices (scIovMax : ℕ) : List WriteResult → List Bytes → Sent
  | _, [] => ⟨[], some 0⟩
  | [], _ :: _ => ⟨[], some 0⟩
  | answer :: answers, slices =>
    let vecs := slices.take (max scIovMax 16)
    let sent := tcpWriteV vecs answer
    if sent.bytes = none ∨ sent.bytes = some 0 then sent
    else if sent.bytes = some vecs.flatten.length then
      let rest := sendSlices scIovMax answers (slices.drop (max scIovMax 16))
      ⟨sent.took ++ rest.took, rest.bytes.map (vecs.flatten.length + ·)⟩
    else sent

/-- `adjustSlices` drops the bytes that were sent from the front of the slices. -/
def adjustSlices : List Bytes → ℕ → List Bytes
  | [], _ => []
  | slice :: slices, toSkippedBytes =>
    if slice.length ≤ toSkippedBytes then adjustSlices slices (toSkippedBytes - slice.length)
    else slice.drop toSkippedBytes :: slices

/-- `clearSlices` drops all slices, as if as many bytes as fit into the length were sent. -/
def clearSlices (slices : List Bytes) : List Bytes := adjustSlices slices (2 ^ 64 - 1)

/-- The end of `send`: the connection and the value returned. -/
def finishSend (c : Sender) : Sender × ℤ :=
  if c.sendbuffer.flatten.length ≥ 8 * 1024 then
    ({ c with sendbuffer := clearSlices c.sendbuffer }, -2)
  else if c.bClose = true ∧ c.sendbuffer = [] then (c, -2)
  else (c, 0)

/-- `send` of a response: the connection, the bytes that the kernel took and the value returned. -/
def send (c : Sender) (buffer : Bytes) (answer : WriteResult) : Sender × Bytes × ℤ :=
  let sent := tcpSend buffer answer
  match sent.bytes with
  | none => (c, sent.took, -1)
  | some _ => ((finishSend c).1, sent.took, (finishSend c).2)

/-- `send` of what is in `_sendbuffer`, from its front on. -/
def sendByEpollOut (scIovMax : ℕ) (c : Sender) (answers : List WriteResult) :
    Sender × Bytes × ℤ :=
  let sent := sendSlices scIovMax answers c.sendbuffer
  match sent.bytes with
  | none => (c, sent.took, -1)
  | some bytes =>
    let c := { c with sendbuffer := adjustSlices c.sendbuffer bytes }
    ((finishSend c).1, sent.took, (finishSend c).2)

/-- `send` without arguments, for `EPOLLOUT`: it sends what is in `_sendbuffer`, if there is
anything. -/
def flush (scIovMax : ℕ) (c : Sender) (answers : List WriteResult) : Sender × Bytes × ℤ :=
  if c.sendbuffer = [] then (c, [], 0) else c.sendByEpollOut scIovMax answers

/-- `setClose`: the connection, and whether nothing is left to send. -/
def setClose (c : Sender) : Sender × Bool := ({ c with bClose := true }, c.sendbuffer.isEmpty)

/-- The members of a new connection: nothing waits and it is not to be closed. -/
def new : Sender := ⟨[], false⟩

/-! ### The flush -/

section Flush

variable {scIovMax : ℕ} {c : Sender}

/-- Skipping bytes of slices is dropping them from the bytes of all slices together. -/
theorem flatten_adjustSlices (slices : List Bytes) (n : ℕ) :
    (adjustSlices slices n).flatten = slices.flatten.drop n := by
  induction slices generalizing n with
  | nil => rw [adjustSlices, List.flatten_nil, List.drop_nil]
  | cons slice slices ih =>
    rw [adjustSlices, List.flatten_cons]
    split
    · rename_i hle
      rw [ih, List.drop_append, List.drop_of_length_le hle, List.nil_append]
    · rename_i hlt
      rw [List.flatten_cons, List.drop_append_of_le_length (by omega)]

/-- What `::writev` took is the front of the slices. -/
theorem tcpWriteV_took {slices : List Bytes} {answer : WriteResult} {bytes : ℕ}
    (h : (tcpWriteV slices answer).bytes = some bytes) :
    (tcpWriteV slices answer).took = slices.flatten.take bytes ∧ bytes ≤ slices.flatten.length := by
  cases answer with
  | accepted n =>
    cases h
    refine ⟨?_, Nat.min_le_right _ _⟩
    show slices.flatten.take (min n maxWrite) = _
    rw [List.take_eq_take_iff]
    omega
  | again =>
    cases h
    exact ⟨rfl, Nat.zero_le _⟩
  | interrupted => cases h
  | error => cases h

/-- The first call of `::writev` takes some bytes, and the rest is sent as the remaining slices are.
-/
theorem sendSlices_cons (answer : WriteResult) (answers : List WriteResult)
    {slices : List Bytes} (hne : slices ≠ []) :
    sendSlices scIovMax (answer :: answers) slices =
      if (tcpWriteV (slices.take (max scIovMax 16)) answer).bytes = none ∨
          (tcpWriteV (slices.take (max scIovMax 16)) answer).bytes = some 0 then
        tcpWriteV (slices.take (max scIovMax 16)) answer
      else if (tcpWriteV (slices.take (max scIovMax 16)) answer).bytes =
          some (slices.take (max scIovMax 16)).flatten.length then
        ⟨(tcpWriteV (slices.take (max scIovMax 16)) answer).took ++
            (sendSlices scIovMax answers (slices.drop (max scIovMax 16))).took,
          (sendSlices scIovMax answers (slices.drop (max scIovMax 16))).bytes.map
            ((slices.take (max scIovMax 16)).flatten.length + ·)⟩
      else tcpWriteV (slices.take (max scIovMax 16)) answer := by
  cases slices with
  | nil => exact absurd rfl hne
  | cons slice slices => rfl

/-- What was sent of the slices is their front. -/
theorem sendSlices_took (answers : List WriteResult) {slices : List Bytes} {bytes : ℕ}
    (h : (sendSlices scIovMax answers slices).bytes = some bytes) :
    (sendSlices scIovMax answers slices).took = slices.flatten.take bytes ∧
      bytes ≤ slices.flatten.length := by
  induction answers generalizing slices bytes with
  | nil =>
    cases slices with
    | nil =>
      cases h
      exact ⟨rfl, le_rfl⟩
    | cons slice slices =>
      cases h
      exact ⟨rfl, Nat.zero_le _⟩
  | cons answer answers ih =>
    by_cases hempty : slices = []
    · subst hempty
      cases h
      exact ⟨rfl, le_rfl⟩
    have hall : slices.flatten = (slices.take (max scIovMax 16)).flatten ++
        (slices.drop (max scIovMax 16)).flatten := by
      rw [← List.flatten_append, List.take_append_drop]
    rw [sendSlices_cons answer answers hempty] at h ⊢
    split at h
    · rename_i hfirst
      obtain ⟨htook, hle⟩ := tcpWriteV_took h
      rw [if_pos hfirst, htook, hall, List.take_append_of_le_length hle, List.length_append]
      exact ⟨rfl, by omega⟩
    rename_i hfirst
    rw [if_neg hfirst]
    split at h
    · rename_i hwhole
      rw [if_pos hwhole]
      obtain ⟨htook, -⟩ := tcpWriteV_took hwhole
      obtain ⟨more, hmore, rfl⟩ := Option.map_eq_some_iff.mp h
      obtain ⟨htook', hle'⟩ := ih hmore
      rw [htook, htook', hall, List.take_length_add_append, List.take_length, List.length_append]
      exact ⟨rfl, by omega⟩
    · rename_i hwhole
      rw [if_neg hwhole]
      obtain ⟨htook, hle⟩ := tcpWriteV_took h
      rw [htook, hall, List.take_append_of_le_length hle, List.length_append]
      exact ⟨rfl, by omega⟩

/-- The end of a `send` that returns `0` leaves the connection. -/
theorem finishSend_eq (h : (finishSend c).2 = 0) : (finishSend c).1 = c := by
  unfold finishSend at h ⊢
  split at h
  · cases h
  rename_i hsmall
  rw [if_neg hsmall]
  split at h
  · cases h
  · rename_i hopen
    rw [if_neg hopen]

/-- **The flush loses nothing**: what the kernel took and what is left in `_sendbuffer` are what was
in it. -/
theorem flush_conserves (answers : List WriteResult)
    (h : (c.flush scIovMax answers).2.2 = 0) :
    (c.flush scIovMax answers).2.1 ++ (c.flush scIovMax answers).1.sendbuffer.flatten =
      c.sendbuffer.flatten := by
  by_cases hempty : c.sendbuffer = []
  · rw [flush, if_pos hempty, List.nil_append]
  rw [flush, if_neg hempty] at h ⊢
  cases hbytes : (sendSlices scIovMax answers c.sendbuffer).bytes with
  | none =>
    simp only [sendByEpollOut, hbytes] at h
    cases h
  | some bytes =>
    obtain ⟨htook, -⟩ := sendSlices_took answers hbytes
    simp only [sendByEpollOut, hbytes] at h ⊢
    rw [finishSend_eq h, htook, flatten_adjustSlices, List.take_append_drop]

end Flush

/-! ### Responses -/

/-- What happens on a connection: a response is sent, or there is room to write. -/
inductive Action where
  /-- A response is passed to `send`. -/
  | send (buffer : Bytes) (answer : WriteResult)
  /-- `EPOLLOUT` flushes. -/
  | flush (answers : List WriteResult)

/-- One step of a connection without a fatal error and with a backlog below the limit: the bytes
that the kernel took. -/
def step (scIovMax : ℕ) (c : Sender) : Action → Option (Sender × List Bytes)
  | .send buffer answer =>
    let (c, took, iRet) := c.send buffer answer
    if iRet = 0 then some (c, [took]) else none
  | .flush answers =>
    let (c, took, iRet) := c.flush scIovMax answers
    if iRet = 0 then some (c, [took]) else none

/-- The kernel takes a response whole: it is empty, or one call takes all its bytes. -/
def Takes : Action → Prop
  | .send buffer answer =>
    buffer = [] ∨ ∃ n, answer = .accepted n ∧ buffer.length ≤ n ∧ buffer.length ≤ maxWrite
  | .flush _ => True

section Responses

open Scripts

variable {scIovMax : ℕ} {c c' : Sender}

/-- What the kernel took is the front of the response. -/
theorem tcpSend_prefix (buffer : Bytes) (answer : WriteResult) :
    (tcpSend buffer answer).took <+: buffer := by
  unfold tcpSend
  split
  · exact List.nil_prefix
  · cases answer with
    | accepted n => exact List.take_prefix _ _
    | _ => exact List.nil_prefix

/-- When the kernel took all of it, by one call of `tcpSend`, so that nothing is dropped. -/
theorem tcpSend_took_iff (buffer : Bytes) (answer : WriteResult) :
    (tcpSend buffer answer).took = buffer ↔ Takes (.send buffer answer) := by
  unfold tcpSend Takes
  by_cases hempty : buffer = []
  · subst hempty
    simp
  have hlength : buffer.length ≠ 0 := fun h => hempty (List.length_eq_zero_iff.mp h)
  rw [if_neg hlength]
  cases answer with
  | accepted n =>
    constructor
    · intro htook
      have htaken := List.take_eq_self_iff _ |>.mp htook
      exact .inr ⟨n, rfl, by omega, by omega⟩
    · rintro (h | ⟨n', hn, hle, hmax⟩)
      · exact absurd h hempty
      · cases hn
        exact List.take_of_length_le (by omega)
  | again => simp [hempty, eq_comm]
  | interrupted => simp [hempty, eq_comm]
  | error => simp [hempty, eq_comm]

/-- A response that was passed to `send`; a flush brings none. -/
def response : Action → Bytes
  | .send buffer _ => buffer
  | .flush _ => []

/-- One step of a connection on which nothing is waiting. -/
theorem step_spec {a : Action} {took : List Bytes} (hempty : c.sendbuffer = [])
    (hstep : c.step scIovMax a = some (c', took)) : c'.sendbuffer = [] ∧ ∃ t, took = [t] ∧
      t <+: response a ∧ (t = response a ↔ Takes a) := by
  cases a with
  | send buffer answer =>
    cases hbytes : (tcpSend buffer answer).bytes with
    | none => simp [step, send, hbytes] at hstep
    | some bytes =>
      simp only [step, send, hbytes] at hstep
      split at hstep
      · rename_i hcode
        cases hstep
        rw [finishSend_eq hcode]
        exact ⟨hempty, _, rfl, tcpSend_prefix buffer answer, tcpSend_took_iff buffer answer⟩
      · cases hstep
  | flush answers =>
    rw [step, flush, if_pos hempty] at hstep
    cases hstep
    exact ⟨hempty, [], rfl, List.nil_prefix, fun _ => trivial, fun _ => rfl⟩

/-- Whole runs of a connection on which nothing is waiting. -/
theorem exec_spec {as : List Action} {took : List Bytes} (hempty : c.sendbuffer = [])
    (hrun : exec (step scIovMax) c as = some (c', took)) : c'.sendbuffer = [] ∧
      took.flatten.length ≤ (as.flatMap response).length ∧
        (took.flatten = as.flatMap response ↔ ∀ a ∈ as, Takes a) := by
  induction as generalizing c took with
  | nil =>
    cases hrun
    exact ⟨hempty, le_rfl, fun _ _ ha => absurd ha List.not_mem_nil, fun _ => rfl⟩
  | cons a as ih =>
    obtain ⟨d, first, rest, hstep, hrest, rfl⟩ := exec_cons_eq_some.mp hrun
    obtain ⟨hempty', t, rfl, hprefix, htakes⟩ := step_spec hempty hstep
    obtain ⟨hempty'', hle, hall⟩ := ih hempty' hrest
    have hshort := hprefix.length_le
    have htook : ([t] ++ rest).flatten = t ++ rest.flatten := rfl
    refine ⟨hempty'', ?_, ?_⟩
    · rw [htook, List.flatMap_cons, List.length_append, List.length_append]
      omega
    rw [htook, List.flatMap_cons, List.forall_mem_cons, ← htakes, ← hall]
    constructor
    · intro heq
      have hlength := congrArg List.length heq
      rw [List.length_append, List.length_append] at hlength
      exact List.append_inj heq (by omega)
    · rintro ⟨rfl, hrest⟩
      rw [hrest]

/-- **Responses are sent completely** exactly when the kernel takes every one of them whole: what it
took so far and what is kept in `_sendbuffer` are the responses in order. -/
theorem conserves_iff {as : List Action} {took : List Bytes}
    (hrun : exec (step scIovMax) new as = some (c, took)) :
    took.flatten ++ c.sendbuffer.flatten = as.flatMap response ↔ ∀ a ∈ as, Takes a := by
  obtain ⟨hempty, -, hall⟩ := exec_spec rfl hrun
  rw [hempty, List.flatten_nil, List.append_nil]
  exact hall

/-- Two responses that are taken whole, with a flush between them. -/
theorem conserves_sample : ∃ c took,
    exec (step 1024) new
      [.send [1, 2, 3] (.accepted 5), .flush [.accepted 9], .send [4] (.accepted 1)] =
        some (c, took) ∧
      took.flatten ++ c.sendbuffer.flatten = [1, 2, 3, 4] := by
  refine ⟨new, [[1, 2, 3], [], [4]], rfl, ?_⟩
  have hrun : exec (step 1024) new
      [.send [1, 2, 3] (.accepted 5), .flush [.accepted 9], .send [4] (.accepted 1)] =
        some (new, [[1, 2, 3], [], [4]]) := rfl
  refine (conserves_iff hrun).mpr ?_
  intro a ha
  simp only [List.mem_cons, List.not_mem_nil, or_false] at ha
  rcases ha with rfl | rfl | rfl
  · exact .inr ⟨5, rfl, by decide, by decide⟩
  · trivial
  · exact .inr ⟨1, rfl, by decide, by decide⟩

/-- Of a response of three bytes the kernel takes one; the others are lost. -/
theorem conserves_fails : exec (step 1024) new [.send [1, 2, 3] (.accepted 1)] = some (new, [[1]]) ∧
    [[1]].flatten ++ new.sendbuffer.flatten ≠
      [Action.send [1, 2, 3] (.accepted 1)].flatMap response :=
  ⟨rfl, by decide⟩

end Responses

end Sender

end Tars
