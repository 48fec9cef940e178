import Tars.Server.NetInvariant

/-!
# Runs of the server

Every action keeps what is known of the server, and shows at most one event. From this follows that
the bytes of a response are written to the socket of its request alone.
-/

namespace Tars

/-- The value that `recv` returns says whether the connection was found closed. -/
theorem Connection.recv_ret {c c' : Connection} {answers : List ReadResult}
    {vRecvData : List TagRecvData} {ret : ℤ} (h : c.recv answers = some (c', vRecvData, ret)) :
    ret < 0 ↔ batchOf answers = none := by
  have hloop := recvLoop_spec c.recvbuffer answers (Nat.lt_succ_self _)
  rw [recv, hloop] at h
  cases hbatch : batchOf answers with
  | none =>
    simp only [hbatch, Option.isSome_none] at h
    cases h
    simp
  | some batch =>
    simp only [hbatch, Option.isSome_some] at h
    split at h <;>
    · cases h
      simp

namespace NetServer

/-- `EPOLLIN` finds that a connection was closed, by this side before or by the peer now. -/
def FoundClosed (c : NetConnection) : Option (List ReadResult) → Prop
  | none => False
  | some answers => c.sock = none ∨ Connection.batchOf answers = none

/-- An action closes a connection: `epoll_wait` reports an error, `recv` finds it closed, or there
is a command `'c'` for it. -/
def Closes (s : NetServer) : NetAction → NetConnection → Prop
  | .net thread uid report, c =>
    s.connection thread uid = some c ∧ (report.error = true ∨ FoundClosed c report.input)
  | .pipe thread _, c =>
    ∃ it deSendData, (s.netThreads thread).deSendData = it :: deSendData ∧ it.cmd = .close ∧
      s.connection thread it.uid = some c
  | _, _ => False

instance (c : NetConnection) : (input : Option (List ReadResult)) → Decidable (FoundClosed c input)
  | none => isFalse id
  | some _ => inferInstanceAs (Decidable (_ ∨ _))

/-- A command `'c'` at the front of the queue closes the connection that it finds. -/
theorem not_closes_pipe {s : NetServer} {thread : ℕ} {answer : WriteResult} :
    (∀ it ∈ (s.netThreads thread).deSendData.head?, it.cmd = .close →
        s.connection thread it.uid = none) ↔ ∀ c, ¬s.Closes (.pipe thread answer) c := by
  constructor
  · rintro h c ⟨it, deSendData, hdata, hcmd, hc⟩
    rw [h it (by rw [hdata]; rfl) hcmd] at hc
    cases hc
  · intro h it hit hcmd
    obtain ⟨deSendData, hdata⟩ := List.head?_eq_some_iff.mp hit
    exact Option.eq_none_iff_forall_ne_some.mpr fun c hc => h c ⟨it, deSendData, hdata, hcmd, hc⟩

/-- Whether an action closes a connection can be computed: it is the one that is reported, or the
one of the command. -/
instance decidableCloses (s : NetServer) : (a : NetAction) → Decidable (∀ c, ¬s.Closes a c)
  | .net thread uid report =>
    decidable_of_iff (∀ c ∈ s.connection thread uid,
        ¬(report.error = true ∨ FoundClosed c report.input))
      ⟨fun h c hcloses => h c hcloses.1 hcloses.2, fun h c hc hclosed => h c ⟨hc, hclosed⟩⟩
  | .pipe _ _ => decidable_of_iff _ not_closes_pipe
  | .accept _ _ _ _ | .swap _ | .take _ | .respond _ _ | .close _ => isTrue fun _ h => h

/-- The events of an action. At most one is shown, and a closing names the connection that is
closed. -/
inductive Emits (n : ℕ) (s : NetServer) (a : NetAction) : List NetEvent → Prop where
  /-- It closes a connection, and this is all that can be observed. -/
  | closed {c : NetConnection} (h : s.Closes a c) : Emits n s a [.closed c.serial c.sock]
  /-- It does nothing that can be observed. -/
  | nothing (h : ∀ c, ¬s.Closes a c) : Emits n s a []
  /-- It accepts a connection under the next number. -/
  | accepted (h : ∀ c, ¬s.Closes a c) (fd uid : ℕ) :
    Emits n s a [.accepted s.accepts (fd % n) uid fd]
  /-- It writes to the socket of the connection that the response belongs to. -/
  | wrote (h : ∀ c, ¬s.Closes a c) {thread uid fd : ℕ} {c : NetConnection}
    (hc : s.connection thread uid = some c) (hsock : c.sock = some fd) (bytes : Bytes) :
    Emits n s a [.wrote c.serial fd (some c.serial) bytes]

section Steps

variable {n scIovMax : ℕ} {s s' : NetServer} {past es : List NetEvent} {thread uid : ℕ}
  {c c' : NetConnection} {a : NetAction}

/-- `EPOLLIN`: either the connection is found closed and deleted, or it is the same as before, but
for what it received. -/
theorem processInput_inv (h : Inv n s past) (hc : s.connection thread uid = some c)
    {input : Option (List ReadResult)} {deleted : Bool}
    (hstep : s.processInput thread c input = some (s', c', es, deleted)) :
    deleted = true ∧ FoundClosed c input ∧ es = [.closed c.serial c.sock] ∧
        Inv n s' (past ++ es) ∨
      deleted = false ∧ ¬FoundClosed c input ∧ es = [] ∧ Inv n s' past ∧
        s'.connection thread uid = some c' ∧ c'.serial = c.serial ∧ c'.sock = c.sock := by
  have hself := h.connections.stored hc
  cases input with
  | none =>
    obtain ⟨rfl, rfl, rfl, rfl⟩ : s = s' ∧ c = c' ∧ [] = es ∧ false = deleted := by
      simpa [processInput] using hstep
    exact .inr ⟨rfl, id, rfl, h, hc, rfl, rfl⟩
  | some answers =>
    simp only [processInput] at hstep
    split at hstep
    · cases hstep
    rename_i received vRecvData ret hrecv
    obtain ⟨⟨recvbuffer, rfl⟩, hrecords⟩ := Connection.recv_keeps hrecv
    have hclosed : ret < 0 ↔ FoundClosed c (some answers) := by
      rw [Connection.recv_ret hrecv, FoundClosed]
      by_cases hsock : c.sock = none
      · simp [hsock, Connection.batchOf]
      · simp [hsock]
    have htouch := h.touch { c with recvbuffer } hc rfl rfl rfl rfl hself.sendbuffer_eq
    have hc' : (s.setConnection thread { c with recvbuffer }).connection thread uid =
        some { c with recvbuffer } := by
      rw [connection_setConnection, if_pos ⟨rfl, hself.uid_eq.symm⟩]
    split at hstep
    · rename_i hneg
      obtain ⟨hes, hinv⟩ := htouch.delConnection hc'
      obtain ⟨rfl, rfl, rfl, rfl⟩ : _ = s' ∧ _ = c' ∧ _ = es ∧ true = deleted := by
        simpa using hstep
      exact .inl ⟨rfl, hclosed.mp hneg, hes, hinv⟩
    · rename_i hpos
      rw [hclosed] at hpos
      split at hstep
      · rename_i hlfd
        exact absurd hlfd hself.lfd_ne
      · obtain ⟨rfl, rfl, rfl, rfl⟩ : _ = s' ∧ _ = c' ∧ es = [] ∧ deleted = false := by
          simpa using hstep
        refine .inr ⟨rfl, hpos, rfl, htouch.insertRecvQueue _ ?_, hc', rfl, rfl⟩
        intro r hr _
        obtain ⟨data, hdata, rfl⟩ := List.mem_map.mp hr
        obtain ⟨huid, hfd, -⟩ := hrecords data hdata
        refine ⟨{ c with recvbuffer }, ?_, rfl⟩
        obtain ⟨fd, -, hthread, ⟨hsock, -⟩ | ⟨hsock, -⟩⟩ := hself.history
        · have hroute : threadOfFd n data.fd = thread := by
            rw [hfd]
            simp only [hsock, threadOfFd, hthread]
          have huid' : data.uid = uid := huid.trans hself.uid_eq
          rw [hroute, huid']
          exact hc'
        · exact absurd (.inl hsock) hpos

/-- What a system call that sends shows: nothing, or the bytes that the kernel took from the open
socket. -/
theorem wrote_cases (c : NetConnection) (origin : Option ℕ) (took : Bytes) :
    wrote c origin took = [] ∨
      ∃ fd, c.sock = some fd ∧ wrote c origin took = [.wrote c.serial fd origin took] := by
  cases hsock : c.sock with
  | none =>
    rw [wrote, hsock]
    exact .inl rfl
  | some fd =>
    rw [wrote, hsock]
    by_cases hempty : took = []
    · exact .inl (if_pos hempty)
    · exact .inr ⟨fd, rfl, if_neg hempty⟩

/-- `EPOLLOUT` sends nothing, because nothing waits in a `_sendbuffer`. -/
theorem processOutput_inv (scIovMax : ℕ) (h : Inv n s past) (hc : s.connection thread uid = some c)
    (output : Option (List WriteResult)) :
    (s.processOutput scIovMax thread c output).2 = [] ∧
      Inv n (s.processOutput scIovMax thread c output).1 past := by
  have hempty := (h.connections.stored hc).sendbuffer_eq
  cases output with
  | none => exact ⟨rfl, h⟩
  | some answers =>
    have hflush (answers : List WriteResult) :
        c.toSender.flush scIovMax answers = (c.toSender, [], 0) := if_pos hempty
    simp only [processOutput, hflush]
    constructor
    · unfold NetServer.wrote
      split <;> rfl
    · exact h.touch _ hc rfl rfl rfl rfl hempty

/-- `processNet` shows that a connection is closed or nothing, and keeps what is known. -/
theorem processNet_inv (h : Inv n s past) {report : NetReport}
    (hstep : s.processNet scIovMax thread uid report = some (s', es)) :
    Emits n s (.net thread uid report) es ∧ Inv n s' (past ++ es) := by
  unfold processNet at hstep
  split at hstep
  · cases hstep
  rename_i c hc
  split at hstep
  · rename_i herror
    obtain ⟨hes, hinv⟩ := h.delConnection hc
    have heq : s.delConnection thread c = (s', es) := Option.some.inj hstep
    rw [heq] at hes hinv
    refine ⟨?_, hinv⟩
    rw [show es = [.closed c.serial c.sock] from hes]
    exact .closed ⟨hc, .inl herror⟩
  rename_i herror
  split at hstep
  · cases hstep
  · rename_i s₁ c₁ es₁ hinput
    obtain ⟨rfl, rfl⟩ := Prod.mk.inj (Option.some.inj hstep)
    obtain ⟨-, hfound, rfl, hinv⟩ | ⟨hfalse, -⟩ := processInput_inv h hc hinput
    · exact ⟨.closed ⟨hc, .inr hfound⟩, hinv⟩
    · cases hfalse
  · rename_i s₁ c₁ es₁ hinput
    obtain ⟨hfalse, -⟩ | ⟨-, hfound, rfl, hinv, hc₁, -, -⟩ := processInput_inv h hc hinput
    · cases hfalse
    obtain ⟨hnone, hinv'⟩ := processOutput_inv scIovMax hinv hc₁ report.output
    obtain ⟨rfl, rfl⟩ := Prod.mk.inj (Option.some.inj hstep)
    rw [hnone]
    refine ⟨.nothing ?_, by simpa using hinv'⟩
    rintro c' ⟨hc', hcloses⟩
    rw [hc] at hc'
    obtain rfl := Option.some.inj hc'
    rcases hcloses with herror' | hfound'
    · exact herror herror'
    · exact hfound hfound'

/-- A command of `processPipe` writes to the connection of its request or closes it, and keeps what
is known. -/
theorem processCommand_inv (h : Inv n s past) {it : TagSendData} {answer : WriteResult}
    (hknows : ∃ c, s.connection thread it.uid = some c ∧ c.serial = it.serial)
    (hstep : s.processCommand thread it answer = some (s', es)) :
    ((∃ c, it.cmd = .close ∧ s.connection thread it.uid = some c ∧
          es = [.closed c.serial c.sock]) ∨
        it.cmd ≠ .close ∧ (es = [] ∨ ∃ c fd bytes, s.connection thread it.uid = some c ∧
          c.sock = some fd ∧ es = [.wrote c.serial fd (some c.serial) bytes])) ∧
      Inv n s' (past ++ es) := by
  obtain ⟨c, hc, hserial⟩ := hknows
  have hself := h.connections.stored hc
  cases hcmd : it.cmd with
  | close =>
    have hc' : (s.setConnection thread { c with toSender := c.toSender.setClose.1 }).connection
        thread it.uid = some { c with toSender := c.toSender.setClose.1 } := by
      rw [connection_setConnection, if_pos ⟨rfl, hself.uid_eq.symm⟩]
    obtain ⟨hes, hinv⟩ := (h.touch { c with toSender := c.toSender.setClose.1 } hc rfl rfl rfl
      rfl hself.sendbuffer_eq).delConnection hc'
    have hempty : c.toSender.setClose.2 = true := by
      rw [Sender.setClose, hself.sendbuffer_eq]
      rfl
    simp only [processCommand, hcmd, hc, hempty, if_true] at hstep
    obtain ⟨rfl, rfl⟩ := Prod.mk.inj (Option.some.inj hstep)
    exact ⟨.inl ⟨c, rfl, hc, hes⟩, hinv⟩
  | send buffer ip port =>
    simp only [processCommand, hcmd, hc] at hstep
    obtain ⟨rfl, rfl⟩ := Prod.mk.inj (Option.some.inj hstep)
    have hempty := Sender.send_sendbuffer (c := c.toSender) hself.sendbuffer_eq buffer
      (if c.sock = none then .error else answer)
    have htouch := h.touch { c with toSender := (c.toSender.send buffer
      (if c.sock = none then .error else answer)).1 } hc rfl rfl rfl rfl hempty
    rcases wrote_cases c (some it.serial) (c.toSender.send buffer
      (if c.sock = none then .error else answer)).2.1 with hnone | ⟨fd, hsock, hwrote⟩
    · rw [hnone, List.append_nil]
      exact ⟨.inr ⟨nofun, .inl rfl⟩, htouch⟩
    · rw [hwrote, ← hserial]
      exact ⟨.inr ⟨nofun, .inr ⟨c, fd, _, hc, hsock, rfl⟩⟩, htouch.wrote _ _ _ _⟩

/-- `processPipe` handles the first command, whose connection is still stored. -/
theorem pipe_inv (h : Inv n s past) {answer : WriteResult}
    (hstep : s.pipe thread answer = some (s', es)) :
    Emits n s (.pipe thread answer) es ∧ Inv n s' (past ++ es) := by
  unfold pipe at hstep
  split at hstep
  · cases hstep
  rename_i it deSendData hdata
  have hsame : (s.setThread thread { s.netThreads thread with deSendData }).connection =
      s.connection := connection_setThread s thread _ rfl
  have hknows : ∃ c, s.connection thread it.uid = some c ∧ c.serial = it.serial :=
    h.queues.commands (.inr (by rw [hdata]; exact List.mem_cons_self))
  have hrest : Inv n (s.setThread thread { s.netThreads thread with deSendData }) past := by
    refine h.setThread rfl rfl fun it' hit => .inl ?_
    rw [hdata]
    exact hit.imp id fun hmem => List.mem_cons_of_mem it hmem
  rw [← hsame] at hknows
  obtain ⟨hcases, hinv⟩ := processCommand_inv hrest hknows hstep
  rw [hsame] at hcases
  refine ⟨?_, hinv⟩
  have hnever (hcmd : it.cmd ≠ .close) (c : NetConnection) : ¬s.Closes (.pipe thread answer) c := by
    rintro ⟨it', rest, hdata', hclose, -⟩
    rw [hdata] at hdata'
    obtain ⟨rfl, rfl⟩ := List.cons.inj hdata'
    exact hcmd hclose
  rcases hcases with ⟨c, hclose, hc, rfl⟩ | ⟨hcmd, rfl | ⟨c, fd, bytes, hc, hsock, rfl⟩⟩
  · exact .closed ⟨it, deSendData, hdata, hclose, hc⟩
  · exact .nothing (hnever hcmd)
  · exact .wrote (hnever hcmd) hc hsock bytes

/-- A command for a request that was taken carries the number of its connection, so it will find
this one or none. -/
theorem pushCommand_inv (h : Inv n s past) {recv : ReceivedRecord} (hrecv : recv ∈ s.requests)
    (cmd : NetCommand) :
    Inv n (s.pushCommand (threadOfFd n recv.data.fd) ⟨recv.serial, recv.data.uid, cmd⟩) past := by
  refine h.setThread rfl rfl fun it hit => ?_
  rcases hit with hit | hit
  · rcases List.mem_append.mp hit with hit | hit
    · exact .inl (.inl hit)
    · rw [List.mem_singleton.mp hit]
      exact .inr (h.queues.requests hrecv)
  · exact .inl (.inr hit)

/-- **What an action does**: it keeps what is known, and shows at most one event. -/
theorem step_inv (h : Inv n s past) (hstep : s.step n scIovMax a = some (s', es)) :
    Emits n s a es ∧ Inv n s' (past ++ es) := by
  cases a with
  | accept lfd fd ip port =>
    obtain ⟨hconnections, hkeep⟩ := h.connections.accept hstep
    obtain ⟨-, uid, free, -, rfl, -, -, hrbuffer, hrequests, -, hqueues, -⟩ := accept_eq_some hstep
    have hnever (c : NetConnection) : ¬s.Closes (.accept lfd fd ip port) c := id
    refine ⟨.accepted hnever fd uid, hconnections, ?_⟩
    refine h.queues.mono (fun thread uid c hc => ⟨c, hkeep thread uid c hc, rfl⟩) ?_ ?_ ?_
    · intro lfd' r hr _
      exact .inl (hrbuffer ▸ hr)
    · intro r hr
      exact .inl (hrequests ▸ hr)
    · intro thread it hit
      rw [(hqueues thread).1, (hqueues thread).2] at hit
      exact .inl hit
  | net thread uid report => exact processNet_inv h hstep
  | swap thread =>
    simp only [step, swap] at hstep
    split at hstep
    · obtain ⟨rfl, rfl⟩ := Prod.mk.inj (Option.some.inj hstep)
      refine ⟨.nothing fun _ hc => hc, ?_⟩
      rw [List.append_nil]
      refine h.setThread rfl rfl fun it hit => .inl ?_
      exact hit.elim (fun hmem => absurd hmem List.not_mem_nil) .inl
    · cases hstep
  | pipe thread answer => exact pipe_inv h hstep
  | take lfd =>
    simp only [step, take] at hstep
    split at hstep
    · cases hstep
    rename_i recv rest hrbuffer
    obtain ⟨rfl, rfl⟩ := Prod.mk.inj (Option.some.inj hstep)
    refine ⟨.nothing fun _ hc => hc, ?_⟩
    rw [List.append_nil]
    have hrest : ∀ lfd', ∀ r ∈ Function.update s.rbuffer lfd rest lfd', r ∈ s.rbuffer lfd' := by
      intro lfd' r hr
      rw [Function.update_apply] at hr
      split at hr
      · rename_i heq
        rw [heq, hrbuffer]
        exact List.mem_cons_of_mem recv hr
      · exact hr
    split
    · exact ⟨h.connections.congr rfl (fun _ => rfl) rfl rfl, h.queues.mono (Keeps.of_eq rfl)
        (fun lfd' r hr _ => .inl (hrest lfd' r hr)) (fun _ hr => .inl hr) fun _ _ hit => .inl hit⟩
    · rename_i hopen
      refine ⟨h.connections.congr rfl (fun _ => rfl) rfl rfl, h.queues.mono (Keeps.of_eq rfl)
        (fun lfd' r hr _ => .inl (hrest lfd' r hr)) ?_ fun _ _ hit => .inl hit⟩
      intro r hr
      rcases List.mem_append.mp hr with hr | hr
      · exact .inl hr
      · rw [List.mem_singleton.mp hr]
        have hmem : recv ∈ s.rbuffer lfd := by
          rw [hrbuffer]
          exact List.mem_cons_self
        exact .inr (h.queues.received hmem (Bool.not_eq_true _ ▸ hopen))
  | respond request buffer =>
    simp only [step, respond] at hstep
    split at hstep
    · cases hstep
    rename_i recv hrecv
    obtain ⟨rfl, rfl⟩ := Prod.mk.inj (Option.some.inj hstep)
    refine ⟨.nothing fun _ hc => hc, ?_⟩
    rw [List.append_nil]
    exact pushCommand_inv h (List.mem_of_getElem? hrecv) _
  | close request =>
    simp only [step, close] at hstep
    split at hstep
    · cases hstep
    rename_i recv hrecv
    obtain ⟨rfl, rfl⟩ := Prod.mk.inj (Option.some.inj hstep)
    refine ⟨.nothing fun _ hc => hc, ?_⟩
    rw [List.append_nil]
    exact pushCommand_inv h (List.mem_of_getElem? hrecv) _

end Steps

/-- **What is known after a run** of any number of threads and handlers. -/
theorem run_inv {n scIovMax : ℕ} {s : NetServer} {as : List NetAction} {es : List NetEvent}
    (hexec : Scripts.exec (step n scIovMax) start as = some (s, es)) : Inv n s es :=
  Scripts.exec_keeps (fun _ _ _ _ _ h hstep => (step_inv h hstep).2) (inv_start n) hexec

/-! ### Isolation -/

/-- What was written to sockets so far, was written by the connection of the request, to its own
descriptor, before it was closed. -/
def Isolated (es : List NetEvent) : Prop :=
  ∀ past w fd origin bytes rest, es = past ++ .wrote w fd origin bytes :: rest →
    origin = some w ∧ owner past fd = some w ∧ closings w past = []

/-- One more event keeps the isolation, if it is no write or goes to the connection of its request.
-/
theorem Isolated.append {past : List NetEvent} {e : NetEvent} (h : Isolated past)
    (hlast : ∀ w fd origin bytes, e = .wrote w fd origin bytes →
      origin = some w ∧ owner past fd = some w ∧ closings w past = []) :
    Isolated (past ++ [e]) := by
  intro past' w fd origin bytes rest heq
  rcases List.eq_nil_or_concat rest with rfl | ⟨rest', last, rfl⟩
  · obtain ⟨rfl, hlast'⟩ := List.append_inj' heq rfl
    exact hlast w fd origin bytes (List.cons.inj hlast').1
  · rw [List.concat_eq_append, ← List.cons_append, ← List.append_assoc] at heq
    obtain ⟨hpast, -⟩ := List.append_inj' heq rfl
    exact h past' w fd origin bytes rest' hpast

variable {n scIovMax : ℕ} {s : NetServer} {as : List NetAction} {es : List NetEvent}

/-- **Responses are isolated**, in every run of any number of threads: whenever bytes are written
to a descriptor, they belong to a response to a request of the connection that writes them, the
descriptor is that of this connection, and it has not been closed. -/
theorem responses_isolated (hexec : Scripts.exec (step n scIovMax) start as = some (s, es))
    {past rest : List NetEvent} {w fd : ℕ} {origin : Option ℕ} {bytes : Bytes}
    (hes : es = past ++ .wrote w fd origin bytes :: rest) :
    origin = some w ∧ owner past fd = some w ∧ closings w past = [] := by
  have hall : Inv n s es ∧ Isolated es := by
    refine Scripts.exec_keeps (I := fun s past => Inv n s past ∧ Isolated past) ?_ ?_ hexec
    · intro s a s' es past ⟨hinv, hisolated⟩ hstep
      obtain ⟨hemits, hinv'⟩ := step_inv hinv hstep
      refine ⟨hinv', ?_⟩
      cases hemits with
      | closed => exact hisolated.append nofun
      | nothing => rwa [List.append_nil]
      | accepted => exact hisolated.append nofun
      | wrote _ hc hsock bytes =>
        refine hisolated.append fun w fd origin bytes heq => ?_
        obtain ⟨rfl, rfl, rfl, rfl⟩ := NetEvent.wrote.inj heq
        obtain ⟨fd', -, -, ⟨hsock', -, howner, hnever⟩ | ⟨hsock', -⟩⟩ :=
          (hinv.connections.stored hc).history
        · rw [hsock] at hsock'
          obtain rfl := Option.some.inj hsock'
          exact ⟨rfl, howner, hnever⟩
        · rw [hsock] at hsock'
          cases hsock'
    · exact ⟨inv_start n, fun past _ _ _ _ _ heq => absurd heq (by simp)⟩
  exact hall.2 past w fd origin bytes rest hes

/-- A connection is accepted, and its request is answered. -/
def answered : List NetAction :=
  [.accept 3 5 [49] 80, .net 1 1 ⟨false, some [.data [7]], none⟩, .take 3, .respond 0 [8, 9],
    .swap 1, .pipe 1 (.accepted 2)]

/-- The statement on the run of `answered`: the response is written on the socket of the connection
that asked. -/
theorem responses_isolated_sample : ∃ s past,
    Scripts.exec (step 2 1024) start answered =
      some (s, past ++ [.wrote 0 5 (some 0) [8, 9]]) ∧
    owner past 5 = some 0 ∧ closings 0 past = [] := by
  have hevents : (Scripts.exec (step 2 1024) start answered).map Prod.snd =
      some ([.accepted 0 1 1 5] ++ [.wrote 0 5 (some 0) [8, 9]]) := by decide +kernel
  obtain ⟨⟨s, es⟩, hexec, rfl⟩ := Option.map_eq_some_iff.mp hevents
  exact ⟨s, _, hexec, (responses_isolated hexec rfl).2⟩

end NetServer

end Tars
