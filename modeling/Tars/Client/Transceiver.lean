import Tars.Util.Buffer

/-!
# The transceiver of a client connection

A `Transceiver` owns one socket, a send buffer and a receive buffer. What the kernel
answers to a system call is an argument of the operation, and what the kernel keeps
about sockets is part of the state. Sockets are numbered in the order of their
creation, so a number that the operating system hands out twice stays two sockets.
-/

namespace Tars

/-- The answer of `::send`: so many bytes were taken, try again, or an error. -/
inductive SendResult where
  /-- It takes this many bytes, or all of them if there are fewer. -/
  | accepted (n : ℕ)
  /-- It fails with `EAGAIN`. -/
  | again
  /-- It fails with another error. -/
  | error
  deriving DecidableEq

/-- Where `connect` ends: it throws at one of its calls, or assigns the socket. -/
inductive ConnectOutcome where
  /-- `socket` fails. -/
  | socketFails
  /-- `setTcpNoDelay` or `setKeepAlive` fails. -/
  | optionFails
  /-- `setBlock` fails. -/
  | blockFails
  /-- `getAddress` fails. -/
  | addressFails
  /-- `::connect` fails. -/
  | connectFails
  /-- `::connect` succeeds at once. -/
  | connected
  /-- `::connect` is in progress. -/
  | inProgress
  deriving DecidableEq

/-- The outcomes after which `connect` assigns the new socket. -/
def ConnectOutcome.assigns (o : ConnectOutcome) : Bool := o == .connected || o == .inProgress

/-- What the kernel keeps about the sockets of one transceiver. -/
structure Kernel where
  /-- The number of sockets that were created. -/
  created : ℕ
  /-- The sockets that are open. -/
  opened : List ℕ
  /-- The sockets in the epoll set. -/
  registered : List ℕ
  /-- The bytes that `::send` accepted on a socket so far. -/
  accepted : ℕ → Bytes

namespace Kernel

/-- At the start no socket was created and nothing was sent. -/
def new : Kernel := ⟨0, [], [], fun _ => []⟩

/-- `::socket`; the new socket is the number `created`, which no socket had before. -/
def socket (k : Kernel) : Kernel :=
  { k with created := k.created + 1, opened := k.created :: k.opened }

/-- `::close`: the socket is open no longer. What it has accepted stays accepted. -/
def close (k : Kernel) (fd : ℕ) : Kernel := { k with opened := k.opened.filter (· ≠ fd) }

/-- `addFd`: `epoll_wait` reports events of the socket from then on. -/
def addFd (k : Kernel) (fd : ℕ) : Kernel := { k with registered := fd :: k.registered }

/-- `delFd`: `epoll_wait` reports no event of the socket any more. -/
def delFd (k : Kernel) (fd : ℕ) : Kernel :=
  { k with registered := k.registered.filter (· ≠ fd) }

/-- `::send` takes bytes on a socket, behind those it has taken before. -/
def accept (k : Kernel) (fd : ℕ) (bs : Bytes) : Kernel :=
  { k with accepted := fun s => if s = fd then k.accepted s ++ bs else k.accepted s }

end Kernel

/-- The members of `Transceiver`, with the kernel's part: the sockets and the bytes that they took.
-/
structure Transceiver where
  /-- `_fd`; `none` stands for `-1`. -/
  fd : Option ℕ
  /-- `_sendBuffer`. -/
  sendBuffer : TCBuffer
  /-- `_recvBuffer`. -/
  recvBuffer : TCBuffer
  /-- The sockets in the kernel. -/
  kernel : Kernel

namespace Transceiver

open ReadResult

/-- `eRetError`: the request was not sent, and the caller has to do something about it. -/
def eRetError : ℤ := -1

/-- `eRetFull`: a part of the request waits in the send buffer. -/
def eRetFull : ℤ := 1

/-- The constructor: there is no socket, and the buffers are empty. -/
def new : Transceiver := ⟨none, .new, .new, .new⟩

/-- `isValid`: there is a socket, whether or not it is connected yet. -/
def isValid (t : Transceiver) : Bool := t.fd.isSome

/-- `close`: the socket is closed and both buffers are cleared, if there is a socket at all. -/
def close (t : Transceiver) : Transceiver :=
  match t.fd with
  | none => t
  | some fd =>
    { fd := none
      sendBuffer := t.sendBuffer.clear
      recvBuffer := t.recvBuffer.clear
      kernel := (t.kernel.delFd fd).close fd }

/-- `connect`: the transceiver afterwards and whether it returned without an
exception. A failure of `getAddress` does not close the new socket. -/
def connect (t : Transceiver) (outcome : ConnectOutcome) : Transceiver × Bool :=
  let fd := t.kernel.created
  match outcome with
  | .socketFails => (t, false)
  | .optionFails | .blockFails | .connectFails =>
    ({ t with kernel := t.kernel.socket.close fd }, false)
  | .addressFails => ({ t with kernel := t.kernel.socket }, false)
  | .connected | .inProgress =>
    ({ t with fd := some fd, kernel := t.kernel.socket.addFd fd }, true)

/-- The most bytes that one `::send` takes, however many it is given. -/
def maxSend : ℕ := 0x7ffff000

/-- The bytes of `buf` that `::send` takes under an answer, nothing for an error that
`send` returns. The length is passed as `uint32_t`. -/
def sendCount (buf : Bytes) : SendResult → Option ℕ
  | .accepted n => some (min n (min (buf.length % 2 ^ 32) maxSend))
  | .again => some 0
  | .error => none

/-- `send`, which turns `EAGAIN` into zero bytes. An invalid `_fd` gives `EBADF`. -/
def send (t : Transceiver) (buf : Bytes) (answer : SendResult) : Transceiver × ℤ :=
  match t.fd, sendCount buf answer with
  | some fd, some n => ({ t with kernel := t.kernel.accept fd (buf.take n) }, n)
  | _, _ => (t, -1)

/-- `sendRequest`: what was not sent goes to the send buffer. -/
def sendRequest (t : Transceiver) (pData : Bytes) (answer : SendResult) :
    Option (Transceiver × ℤ) :=
  if !t.sendBuffer.isEmpty then some (t, eRetError)
  else
    let (t, iRet) := t.send pData answer
    if iRet < 0 then some (t, eRetError)
    else if iRet < toInt32 pData.length then
      match t.sendBuffer.pushData (pData.drop iRet.toNat) with
      | none => none
      | some (sendBuffer, _) => some ({ t with sendBuffer }, eRetFull)
    else some (t, iRet)

/-- The part of `doRequest` in front of `doInvoke`, with the value if it returns there. -/
def flush (t : Transceiver) (answer : SendResult) : Option (Transceiver × Option ℤ) :=
  if t.sendBuffer.isEmpty then some (t, none)
  else
    let (t, iRet) := t.send t.sendBuffer.readable answer
    if iRet < 0 then some (t, some iRet)
    else if 0 < iRet then
      match t.sendBuffer.consume iRet.toNat with
      | none => none
      | some sendBuffer =>
        if sendBuffer.isEmpty then
          sendBuffer.shrink.map fun sendBuffer => ({ t with sendBuffer }, none)
        else some ({ t with sendBuffer }, some 0)
    else some (t, none)

/-- `sizeof stackBuffer` in `doResponse`: what a read may return beyond the receive buffer. -/
def stackBufferSize : ℕ := 64 * 1024

/-- Store what `readv` delivered: first into the receive buffer, then what is in the
stack buffer behind it. -/
def storeRead (recvBuffer : TCBuffer) (bs : Bytes) : Option TCBuffer :=
  let room := recvBuffer.writableSize
  if bs.length ≤ room then some ((recvBuffer.storeAtWrite bs).produce bs.length)
  else
    (((recvBuffer.storeAtWrite (bs.take room)).produce room).pushData (bs.drop room)).map Prod.fst

/-- One iteration of the loop of `doResponse`, under what the kernel has at this and the
later calls of `readv`. The second component is what is left for the next iteration, if
there is one: bytes that do not fit into the two buffers stay in the kernel, and without
further answers there is nothing more to read. -/
def readOnce (t : Transceiver) (answers : List ReadResult) :
    Option (Transceiver × Option (List ReadResult)) :=
  match t.recvBuffer.assureSpace (8 * 1024) with
  | none => none
  | some recvBuffer =>
    if t.fd = none then some ({ t with recvBuffer }.close, none)
    else
      match answers with
      | [] | .again :: _ => some ({ t with recvBuffer }, none)
      | .error :: _ | .data [] :: _ => some ({ t with recvBuffer }.close, none)
      | .data (b :: bs) :: rest =>
        let room := recvBuffer.writableSize + stackBufferSize
        (storeRead recvBuffer ((b :: bs).take room)).map fun recvBuffer =>
          ({ t with recvBuffer }, some (leave ((b :: bs).drop room) rest))

/-- The loop of `doResponse`. The first argument bounds the iterations. -/
def readLoop : ℕ → Transceiver → List ReadResult → Option Transceiver
  | 0, _, _ => none
  | fuel + 1, t, answers =>
    match t.readOnce answers with
    | none => none
    | some (t, none) => some t
    | some (t, some rest) => readLoop fuel t rest

/-- `doResponse`: the transceiver, the strings in `done`, and the value returned. -/
def doResponse (t : Transceiver) (answers : List ReadResult) :
    Option (Transceiver × List Bytes × ℤ) :=
  match t.readLoop (totalBytes answers + 1) answers with
  | none => none
  | some t =>
    if t.recvBuffer.isEmpty then some (t, [], 0)
    else
      match t.recvBuffer.consume t.recvBuffer.readableSize with
      | none => none
      | some recvBuffer =>
        let done := [t.recvBuffer.readable]
        if 8 * 1024 * 1024 < recvBuffer.capacity then
          recvBuffer.shrink.map fun recvBuffer => ({ t with recvBuffer }, done, 1)
        else some ({ t with recvBuffer }, done, 1)

/-! ### What one operation can do -/

/-- The send buffer is well formed, and it is empty while there is no socket. -/
structure WF (t : Transceiver) : Prop where
  /-- The representation invariant of the send buffer. -/
  send_wf : t.sendBuffer.WF
  /-- A closed transceiver has nothing to send. -/
  closed_empty : t.fd = none → t.sendBuffer.readable = []

/-- A new transceiver is well formed, since its buffers are new. -/
theorem wf_new : new.WF := ⟨TCBuffer.wf_new, fun _ => TCBuffer.readable_new⟩

/-- `sendRequest` returns `eRetError` under this answer: bytes are still buffered, there
is no socket, or `::send` fails. -/
def Refuses (t : Transceiver) (answer : SendResult) : Prop :=
  t.sendBuffer.isEmpty = false ∨ t.fd = none ∨ answer = .error

instance (t : Transceiver) (answer : SendResult) : Decidable (t.Refuses answer) :=
  inferInstanceAs (Decidable (_ ∨ _ ∨ _))

/-- The comparison with `(int)iSize` detects that bytes are left when `::send` took `n`
bytes of a payload, and an empty send buffer can take them. -/
def KeepsTail (pData : Bytes) (n : ℕ) : Prop :=
  n = pData.length ∨
    (n : ℤ) < toInt32 pData.length ∧ pData.length - n ≤ 2 ^ 62

instance (pData : Bytes) (n : ℕ) : Decidable (KeepsTail pData n) :=
  inferInstanceAs (Decidable (_ ∨ _ ∧ _))

/-- Payloads below `2 ^ 31` bytes never lose their tail. -/
theorem keepsTail_of_lt {pData : Bytes} {n : ℕ} (hlen : pData.length < 2 ^ 31)
    (hn : n ≤ pData.length) : KeepsTail pData n := by
  by_cases hall : n = pData.length
  · exact .inl hall
  · refine .inr ⟨?_, ?_⟩
    · rw [toInt32_of_lt hlen]
      omega
    · omega

section Operations

variable {t t' : Transceiver} {pData : Bytes} {answer : SendResult} {n : ℕ}

/-- `::send` takes at most the payload, and at most `maxSend` bytes. -/
theorem sendCount_le (h : sendCount pData answer = some n) : n ≤ pData.length ∧ n ≤ maxSend := by
  have hmod := Nat.mod_le pData.length (2 ^ 32)
  cases answer with
  | accepted m =>
    obtain rfl := Option.some.inj h
    omega
  | again =>
    obtain rfl := Option.some.inj h
    omega
  | error => cases h

/-- Whatever `::send` takes of a payload that fits the send buffer, the rest of it fits, too. -/
theorem rest_le (hlen : pData.length ≤ 2 ^ 62) :
    ∀ n, sendCount pData answer = some n → pData.length - n ≤ 2 ^ 62 :=
  fun n _ => (Nat.sub_le _ n).trans hlen

/-- `::send` fails exactly under the answer that says so. -/
theorem sendCount_eq_none : sendCount pData answer = none ↔ answer = .error := by
  cases answer <;> simp [sendCount]

/-- `send` fails without a socket or under an error. -/
theorem send_fails (h : t.fd = none ∨ answer = .error) : t.send pData answer = (t, -1) := by
  unfold send
  obtain hfd | rfl := h
  · rw [hfd]
  · cases t.fd <;> rfl

/-- Otherwise the kernel takes a prefix of the bytes. -/
theorem send_accepts {fd : ℕ} (hfd : t.fd = some fd) (hn : sendCount pData answer = some n) :
    t.send pData answer = ({ t with kernel := t.kernel.accept fd (pData.take n) }, (n : ℤ)) := by
  unfold send
  rw [hfd, hn]

/-- A transceiver that refuses a request stays as it is. -/
theorem sendRequest_of_refuses (h : t.Refuses answer) :
    t.sendRequest pData answer = some (t, eRetError) := by
  unfold sendRequest
  obtain hbuffered | hfail := h
  · simp [hbuffered]
  · by_cases hempty : t.sendBuffer.isEmpty = true
    · simp [hempty, send_fails hfail]
    · simp [hempty]

/-- **`sendRequest` that is not refused.** The kernel takes a prefix of the payload on
the current socket. The send buffer then holds the rest, unless the comparison with
`(int)iSize` drops it. A rest that is larger than any array would make `PushData` fail. -/
theorem WF.sendRequest_of_accepts (h : t.WF)
    (hsize : ∀ n, sendCount pData answer = some n → pData.length - n ≤ 2 ^ 62)
    (haccept : ¬t.Refuses answer) :
    ∃ fd n t' ret, t.fd = some fd ∧ sendCount pData answer = some n ∧
      t.sendRequest pData answer = some (t', ret) ∧ ret ≠ eRetError ∧ t'.WF ∧ t'.fd = t.fd ∧
      t.sendBuffer.readable = [] ∧ t'.recvBuffer = t.recvBuffer ∧
      t'.kernel = t.kernel.accept fd (pData.take n) ∧
      t'.sendBuffer.readable = if KeepsTail pData n then pData.drop n else [] := by
  unfold Refuses at haccept
  push Not at haccept
  obtain ⟨hempty, hfd, hok⟩ := haccept
  rw [ne_eq, Bool.not_eq_false] at hempty
  obtain ⟨fd, hfd⟩ := Option.ne_none_iff_exists'.mp hfd
  obtain ⟨n, hn⟩ := Option.ne_none_iff_exists'.mp
    (fun hnone => hok (sendCount_eq_none.mp hnone) : sendCount pData answer ≠ none)
  have hempty' := h.send_wf.isEmpty_iff.mp hempty
  obtain ⟨hle, hmax⟩ := sendCount_le hn
  have hsend : t.sendRequest pData answer = if (n : ℤ) < toInt32 pData.length then
      match t.sendBuffer.pushData (pData.drop n) with
      | none => none
      | some (b, _) => some ({ t with
          sendBuffer := b, kernel := t.kernel.accept fd (pData.take n) }, eRetFull)
      else some ({ t with kernel := t.kernel.accept fd (pData.take n) }, (n : ℤ)) := by
    unfold sendRequest
    rw [hempty, send_accepts hfd hn]
    simp only [Bool.not_true, Bool.false_eq_true, if_false, Int.toNat_natCast]
    rw [if_neg (by omega)]
  refine ⟨fd, n, ?_⟩
  by_cases hincomplete : (n : ℤ) < toInt32 pData.length
  · have hfits : (pData.drop n).length ≤ 2 ^ 62 := by
      rw [List.length_drop]
      exact hsize n hn
    obtain ⟨b, hpush, hwf, hreadable⟩ := h.send_wf.pushData_spec (pData.drop n) (by
      rwa [hempty', List.length_nil, Nat.zero_add])
    rw [hempty', List.nil_append] at hreadable
    rw [List.length_drop] at hfits
    refine ⟨{ t with sendBuffer := b, kernel := t.kernel.accept fd (pData.take n) }, eRetFull,
      hfd, hn, ?_, by decide, ⟨hwf, fun hnone => ?_⟩, rfl, hempty', rfl, rfl, ?_⟩
    · rw [hsend, if_pos hincomplete, hpush]
    · exact absurd (hfd.symm.trans hnone) (by simp)
    · rw [if_pos (.inr ⟨hincomplete, hfits⟩)]
      exact hreadable
  · refine ⟨{ t with kernel := t.kernel.accept fd (pData.take n) }, n, hfd, hn, ?_, ?_,
      ⟨h.send_wf, fun hnone => ?_⟩, rfl, hempty', rfl, rfl, ?_⟩
    · rw [hsend, if_neg hincomplete]
    · unfold eRetError
      omega
    · exact absurd (hfd.symm.trans hnone) (by simp)
    · simp only [KeepsTail, hincomplete, false_and, or_false, hempty']
      by_cases hall : n = pData.length
      · simp [hall]
      · simp [hall]

/-- The value that `sendRequest` returns when it is not refused: `eRetFull` if the comparison with
`(int)iSize` says that bytes are left, and otherwise the number of bytes that `::send` took. -/
theorem sendRequest_returns {t' : Transceiver} {ret : ℤ} (haccept : ¬t.Refuses answer)
    (hn : sendCount pData answer = some n) (hsend : t.sendRequest pData answer = some (t', ret)) :
    ret = if (n : ℤ) < toInt32 pData.length then eRetFull else n := by
  unfold Refuses at haccept
  push Not at haccept
  obtain ⟨hempty, hfd, -⟩ := haccept
  obtain ⟨fd, hfd⟩ := Option.ne_none_iff_exists'.mp hfd
  have hempty : t.sendBuffer.isEmpty = true := by simpa using hempty
  have hpos : ¬((n : ℤ) < 0) := by omega
  simp only [sendRequest, hempty, send_accepts hfd hn, Bool.not_true, Bool.false_eq_true, if_false,
    if_neg hpos] at hsend
  split at hsend
  · rename_i hleft
    rw [if_pos hleft]
    split at hsend
    · cases hsend
    · exact (Prod.mk.inj (Option.some.inj hsend)).2.symm
  · rename_i hleft
    rw [if_neg hleft]
    exact (Prod.mk.inj (Option.some.inj hsend)).2.symm

/-- `sendRequest` returns `eRetError` exactly when the transceiver refuses: bytes are still
buffered, there is no socket, or `::send` fails. -/
theorem WF.sendRequest_total (h : t.WF) (hlen : pData.length ≤ 2 ^ 62) (answer : SendResult) :
    ∃ t' ret, t.sendRequest pData answer = some (t', ret) ∧ t'.WF ∧ t'.fd = t.fd ∧
      t'.recvBuffer = t.recvBuffer ∧ (ret = eRetError ↔ t.Refuses answer) := by
  by_cases hrefuse : t.Refuses answer
  · exact ⟨t, eRetError, sendRequest_of_refuses hrefuse, h, rfl, rfl, by simp [hrefuse]⟩
  · obtain ⟨fd, n, t', ret, -, -, hsend, hret, hwf, hfd, -, hrecv, -⟩ :=
      h.sendRequest_of_accepts (rest_le hlen) hrefuse
    exact ⟨t', ret, hsend, hwf, hfd, hrecv, by simp [hret, hrefuse]⟩

/-- **`doRequest` up to `doInvoke`** moves a prefix of the buffered bytes to the current
socket, or does nothing. -/
theorem WF.flush_spec (h : t.WF) (answer : SendResult) :
    ∃ t' ret, t.flush answer = some (t', ret) ∧ t'.WF ∧ t'.fd = t.fd ∧
      t'.recvBuffer = t.recvBuffer ∧
      (t' = t ∨ ∃ fd n, t.fd = some fd ∧ sendCount t.sendBuffer.readable answer = some n ∧
        t'.kernel = t.kernel.accept fd (t.sendBuffer.readable.take n) ∧
        t'.sendBuffer.readable = t.sendBuffer.readable.drop n) := by
  unfold flush
  by_cases hempty : t.sendBuffer.isEmpty = true
  · exact ⟨t, none, if_pos hempty, h, rfl, rfl, .inl rfl⟩
  rw [if_neg hempty]
  by_cases hfail : t.fd = none ∨ answer = .error
  · refine ⟨t, some (-1), ?_, h, rfl, rfl, .inl rfl⟩
    simp [send_fails hfail]
  push Not at hfail
  obtain ⟨fd, hfd⟩ := Option.ne_none_iff_exists'.mp hfail.1
  obtain ⟨n, hn⟩ := Option.ne_none_iff_exists'.mp
    (fun hnone => hfail.2 (sendCount_eq_none.mp hnone) :
      sendCount t.sendBuffer.readable answer ≠ none)
  obtain ⟨hle, -⟩ := sendCount_le hn
  let kernel' := t.kernel.accept fd (t.sendBuffer.readable.take n)
  rw [send_accepts hfd hn]
  simp only [Int.toNat_natCast]
  rw [if_neg (by omega)]
  by_cases hpos : (0 : ℤ) < n
  · obtain ⟨b, hconsume, hwf, hreadable⟩ := h.send_wf.consume_spec hle
    rw [if_pos hpos, hconsume]
    by_cases hall : b.isEmpty = true
    · obtain ⟨b', hshrink, hwf', hreadable'⟩ := hwf.shrink_spec
      refine ⟨{ t with sendBuffer := b', kernel := kernel' }, none, ?_,
        ⟨hwf', fun hnone => absurd (hfd.symm.trans hnone) (by simp)⟩, rfl, rfl,
        .inr ⟨fd, n, hfd, hn, rfl, hreadable'.trans hreadable⟩⟩
      simp [hall, hshrink, kernel']
    · refine ⟨{ t with
          sendBuffer := b
          kernel := t.kernel.accept fd (t.sendBuffer.readable.take n) }, some 0, ?_,
        ⟨hwf, fun hnone => absurd (hfd.symm.trans hnone) (by simp)⟩, rfl, rfl,
        .inr ⟨fd, n, hfd, hn, rfl, hreadable⟩⟩
      simp [hall]
  · refine ⟨{ t with kernel := kernel' }, none, by rw [if_neg hpos],
      ⟨h.send_wf, fun hnone => absurd (hfd.symm.trans hnone) (by simp)⟩, rfl, rfl,
      .inr ⟨fd, n, hfd, hn, rfl, ?_⟩⟩
    have hzero : n = 0 := by omega
    rw [hzero, List.drop_zero]

/-- `close` leaves nothing to send, so a later socket starts with an empty buffer. -/
theorem WF.close (h : t.WF) : t.close.WF := by
  unfold Transceiver.close
  cases t.fd with
  | none => exact h
  | some fd => exact ⟨h.send_wf.clear_spec.1, fun _ => h.send_wf.clear_spec.2⟩

/-- One iteration touches nothing but the receive buffer, unless it closes and ends. -/
theorem readOnce_cases {answers : List ReadResult} {next : Option (List ReadResult)}
    (h : t.readOnce answers = some (t', next)) :
    (∃ b, t' = { t with recvBuffer := b }) ∨
      next = none ∧ ∃ b, t' = { t with recvBuffer := b }.close := by
  unfold readOnce at h
  cases hspace : t.recvBuffer.assureSpace (8 * 1024) with
  | none => simp [hspace] at h
  | some b =>
    simp only [hspace] at h
    split at h
    · obtain ⟨rfl, rfl⟩ := Prod.mk.inj (Option.some.inj h)
      exact .inr ⟨rfl, b, rfl⟩
    · split at h
      · exact .inl ⟨b, (Prod.mk.inj (Option.some.inj h)).1.symm⟩
      · exact .inl ⟨b, (Prod.mk.inj (Option.some.inj h)).1.symm⟩
      · obtain ⟨rfl, rfl⟩ := Prod.mk.inj (Option.some.inj h)
        exact .inr ⟨rfl, b, rfl⟩
      · obtain ⟨rfl, rfl⟩ := Prod.mk.inj (Option.some.inj h)
        exact .inr ⟨rfl, b, rfl⟩
      · obtain ⟨b', -, heq⟩ := Option.map_eq_some_iff.mp h
        exact .inl ⟨b', (Prod.mk.inj heq).1.symm⟩

/-- The loop of `doResponse` touches nothing but the receive buffer, unless it closes. -/
theorem readLoop_cases {fuel : ℕ} {answers : List ReadResult}
    (h : t.readLoop fuel answers = some t') :
    (∃ b, t' = { t with recvBuffer := b }) ∨ ∃ b, t' = { t with recvBuffer := b }.close := by
  induction fuel generalizing t answers with
  | zero => cases h
  | succ fuel ih =>
    rw [readLoop] at h
    split at h
    · cases h
    · rename_i u hone
      obtain rfl := Option.some.inj h
      obtain hsame | ⟨-, hclosed⟩ := readOnce_cases hone
      · exact .inl hsame
      · exact .inr hclosed
    · rename_i u rest hone
      obtain ⟨b, rfl⟩ | ⟨hnone, -⟩ := readOnce_cases hone
      · obtain ⟨b', rfl⟩ | ⟨b', rfl⟩ := ih h
        · exact .inl ⟨b', rfl⟩
        · exact .inr ⟨b', rfl⟩
      · cases hnone

/-- **What `doResponse` can do.** It touches nothing but the receive buffer, or it closes
the connection. -/
theorem doResponse_cases {answers : List ReadResult} {done : List Bytes} {ret : ℤ}
    (h : t.doResponse answers = some (t', done, ret)) :
    (∃ b, t' = { t with recvBuffer := b }) ∨
      ∃ b b', t' = { ({ t with recvBuffer := b } : Transceiver).close with recvBuffer := b' } := by
  unfold doResponse at h
  cases hloop : t.readLoop (totalBytes answers + 1) answers with
  | none => simp [hloop] at h
  | some u =>
    have hrest : ∃ b, t' = { u with recvBuffer := b } := by
      simp only [hloop] at h
      split at h
      · simp only [Option.some.injEq, Prod.mk.injEq] at h
        exact ⟨u.recvBuffer, h.1.symm⟩
      · split at h
        · cases h
        · split at h
          · obtain ⟨b, -, heq⟩ := Option.map_eq_some_iff.mp h
            exact ⟨b, (congrArg Prod.fst heq).symm⟩
          · exact ⟨_, (congrArg Prod.fst (Option.some.inj h)).symm⟩
    obtain ⟨b', rfl⟩ := hrest
    obtain ⟨b, rfl⟩ | ⟨b, rfl⟩ := readLoop_cases hloop
    · exact .inl ⟨b', rfl⟩
    · exact .inr ⟨b, b', rfl⟩

/-- `doResponse` keeps a transceiver well formed: what it reads fits into the receive buffer. -/
theorem WF.doResponse (h : t.WF) {answers : List ReadResult} {done : List Bytes} {ret : ℤ}
    (hread : t.doResponse answers = some (t', done, ret)) : t'.WF := by
  obtain ⟨b, rfl⟩ | ⟨b, b', rfl⟩ := doResponse_cases hread
  · exact ⟨h.send_wf, h.closed_empty⟩
  · have hclose := WF.close (t := { t with recvBuffer := b }) ⟨h.send_wf, h.closed_empty⟩
    exact ⟨hclose.send_wf, hclose.closed_empty⟩

/-- `connect` keeps the send buffer, also when it replaces a socket. -/
theorem connect_sendBuffer (outcome : ConnectOutcome) :
    (t.connect outcome).1.sendBuffer = t.sendBuffer := by
  cases outcome <;> rfl

/-- `connect` changes `_fd` only when it returns, and then to the new socket. -/
theorem connect_fd (outcome : ConnectOutcome) :
    (t.connect outcome).1.fd = if outcome.assigns then some t.kernel.created else t.fd := by
  cases outcome <;> rfl

/-- `connect` returns without an exception exactly when it assigns the new socket. -/
theorem connect_snd (outcome : ConnectOutcome) : (t.connect outcome).2 = outcome.assigns := by
  cases outcome <;> rfl

/-- `connect` sends nothing: the sockets have taken what they had taken. -/
theorem connect_accepted (outcome : ConnectOutcome) :
    (t.connect outcome).1.kernel.accepted = t.kernel.accepted := by
  cases outcome <;> rfl

/-- `connect` that assigns a socket created exactly that one. -/
theorem connect_created {outcome : ConnectOutcome} (h : outcome.assigns = true) :
    (t.connect outcome).1.kernel.created = t.kernel.created + 1 := by
  cases outcome with
  | connected | inProgress => rfl
  | _ => cases h

/-- `connect` only adds sockets, so those that were created stay created. -/
theorem connect_created_le (outcome : ConnectOutcome) :
    t.kernel.created ≤ (t.connect outcome).1.kernel.created := by
  cases outcome with
  | socketFails => exact le_rfl
  | _ => exact Nat.le_succ _

/-- `connect` keeps a transceiver well formed: it does not touch the buffers. -/
theorem WF.connect (h : t.WF) (outcome : ConnectOutcome) : (t.connect outcome).1.WF := by
  refine ⟨?_, fun hnone => ?_⟩
  · rw [connect_sendBuffer]
    exact h.send_wf
  · rw [connect_fd] at hnone
    rw [connect_sendBuffer]
    split at hnone
    · cases hnone
    · exact h.closed_empty hnone

end Operations

end Transceiver

end Tars
