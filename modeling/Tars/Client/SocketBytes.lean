import Tars.Client.ProxyRuns

/-!
# Which sockets take bytes

Only the current socket of a transceiver takes bytes. A socket that was replaced or closed keeps
what it has, and one that has not been created has nothing.
-/

namespace Tars

namespace Transceiver

/-- Only the current socket has taken bytes, and it is still the current one or closed. -/
structure Sends (t t' : Transceiver) : Prop where
  /-- The current socket is the same, or there is none any more. -/
  fd : t'.fd = t.fd ∨ t'.fd = none
  /-- No socket was created, so no other one can be meant. -/
  created : t'.kernel.created = t.kernel.created
  /-- The other sockets have accepted what they had accepted before. -/
  accepted : ∀ fd, t.fd ≠ some fd → t'.kernel.accepted fd = t.kernel.accepted fd

/-- What is known of the sockets: those in use were created, and only those have taken bytes. -/
structure KnownSockets (t : Transceiver) : Prop where
  /-- The current socket was created. -/
  fd_lt {fd : ℕ} : t.fd = some fd → fd < t.kernel.created
  /-- A socket that was not created has taken nothing. -/
  fresh {fd : ℕ} : t.kernel.created ≤ fd → t.kernel.accepted fd = []

section Operations

variable {t t' t'' : Transceiver} {pData : Bytes} {answer : SendResult}

theorem Sends.refl (t : Transceiver) : Sends t t := ⟨.inl rfl, rfl, fun _ _ => rfl⟩

theorem Sends.trans (h : Sends t t') (h' : Sends t' t'') : Sends t t'' where
  fd := by
    obtain hsame' | hnone := h'.fd
    · rw [hsame']
      exact h.fd
    · exact .inr hnone
  created := h'.created.trans h.created
  accepted fd hne := by
    refine (h'.accepted fd ?_).trans (h.accepted fd hne)
    obtain hsame | hnone := h.fd
    · rwa [hsame]
    · simp [hnone]

/-- What does not concern the kernel sends nothing: the current socket and all accepted bytes stay.
-/
theorem Sends.of_kernel (hfd : t'.fd = t.fd) (hkernel : t'.kernel = t.kernel) : Sends t t' :=
  ⟨.inl hfd, by rw [hkernel], fun _ _ => by rw [hkernel]⟩

/-- What is sent keeps the sockets known, since it goes to the current one. -/
theorem KnownSockets.sends (h : KnownSockets t) (hsends : Sends t t') : KnownSockets t' where
  fd_lt hfd := by
    rw [hsends.created]
    obtain hsame | hnone := hsends.fd
    · exact h.fd_lt (hsame ▸ hfd)
    · rw [hnone] at hfd
      cases hfd
  fresh {fd} hle := by
    rw [hsends.created] at hle
    rw [hsends.accepted fd fun hfd => (h.fd_lt hfd).not_ge hle]
    exact h.fresh hle

/-- A new transceiver has no socket, and nothing was taken by one. -/
theorem sockets_new : KnownSockets new where
  fd_lt h := nomatch h
  fresh _ := rfl

/-- `send` gives bytes to the current socket alone, also when the kernel refuses them. -/
theorem sends_send (t : Transceiver) (buf : Bytes) (answer : SendResult) :
    Sends t (t.send buf answer).1 := by
  unfold send
  split
  · rename_i fd n hfd _
    refine ⟨.inl rfl, rfl, fun fd' hne => if_neg ?_⟩
    rintro rfl
    exact hne hfd
  · exact .refl t

/-- `sendRequest` gives bytes to the current socket alone, since it only calls `send`. -/
theorem sends_sendRequest {ret : ℤ} (h : t.sendRequest pData answer = some (t', ret)) :
    Sends t t' := by
  unfold sendRequest at h
  split at h
  · obtain ⟨rfl, -⟩ := Prod.mk.inj (Option.some.inj h)
    exact .refl t
  have hsends := sends_send t pData answer
  generalize t.send pData answer = r at h hsends
  obtain ⟨u, iRet⟩ := r
  simp only at h
  split at h
  · obtain ⟨rfl, -⟩ := Prod.mk.inj (Option.some.inj h)
    exact hsends
  · split at h
    · split at h
      · cases h
      · obtain ⟨rfl, -⟩ := Prod.mk.inj (Option.some.inj h)
        exact hsends.trans (.of_kernel rfl rfl)
    · obtain ⟨rfl, -⟩ := Prod.mk.inj (Option.some.inj h)
      exact hsends

/-- `doRequest` up to `doInvoke` gives bytes to the current socket alone. -/
theorem sends_flush {ret : Option ℤ} (h : t.flush answer = some (t', ret)) : Sends t t' := by
  unfold flush at h
  split at h
  · obtain ⟨rfl, -⟩ := Prod.mk.inj (Option.some.inj h)
    exact .refl t
  have hsends := sends_send t t.sendBuffer.readable answer
  generalize t.send t.sendBuffer.readable answer = r at h hsends
  obtain ⟨u, iRet⟩ := r
  simp only at h
  split at h
  · obtain ⟨rfl, -⟩ := Prod.mk.inj (Option.some.inj h)
    exact hsends
  · split at h
    · split at h
      · cases h
      · split at h
        · obtain ⟨b, -, heq⟩ := Option.map_eq_some_iff.mp h
          obtain ⟨rfl, -⟩ := Prod.mk.inj heq
          exact hsends.trans (.of_kernel rfl rfl)
        · obtain ⟨rfl, -⟩ := Prod.mk.inj (Option.some.inj h)
          exact hsends.trans (.of_kernel rfl rfl)
    · obtain ⟨rfl, -⟩ := Prod.mk.inj (Option.some.inj h)
      exact hsends

/-- `close` and `doResponse` give bytes to no socket: the one closes and the other reads. -/
theorem sends_close (t : Transceiver) : Sends t t.close := by
  unfold close
  split
  · exact .refl t
  · exact ⟨.inr rfl, rfl, fun _ _ => rfl⟩

theorem sends_doResponse {answers : List ReadResult} {done : List Bytes} {ret : ℤ}
    (h : t.doResponse answers = some (t', done, ret)) : Sends t t' := by
  obtain ⟨b, rfl⟩ | ⟨b, b', rfl⟩ := doResponse_cases h
  · exact .of_kernel rfl rfl
  · have hread : Sends t { t with recvBuffer := b } := .of_kernel rfl rfl
    exact (hread.trans (sends_close _)).trans (.of_kernel rfl rfl)

/-- `connect` makes at most one socket, which has taken nothing. -/
theorem KnownSockets.connect (h : KnownSockets t) (outcome : ConnectOutcome) :
    KnownSockets (t.connect outcome).1 where
  fd_lt {fd} hfd := by
    have hle := connect_created_le (t := t) outcome
    rw [connect_fd] at hfd
    split at hfd
    · rename_i hassigns
      rw [connect_created hassigns, ← Option.some.inj hfd]
      exact Nat.lt_succ_self _
    · exact (h.fd_lt hfd).trans_le hle
  fresh hle := by
    rw [connect_accepted]
    exact h.fresh ((connect_created_le outcome).trans hle)

end Operations

end Transceiver

namespace ProxyRun

open ObjectProxy Transceiver

variable {s s' : ProxyRun} {a : Action} {events : List Event}

/-- What an action of a client sends. An `invoke` connects first. -/
theorem sends_step (hstep : s.step a = some (s', events)) :
    match a with
    | .invoke _ outcome _ => Sends (s.proxy.trans.connect outcome).1 s'.proxy.trans
    | _ => Sends s.proxy.trans s'.proxy.trans := by
  cases a with
  | invoke msg outcome answer =>
    obtain ⟨returned, hinvoke, -⟩ := step_invoke hstep
    obtain ⟨-, -, -, heq⟩ | ⟨-, -, trans, hasSend, handed, hhanded, heq⟩ := invoke_cases hinvoke
    · rw [heq]
      exact .refl _
    · rw [(Prod.mk.inj heq).1, (pushMessage_frame hasSend).1]
      obtain ⟨-, rfl, -⟩ | ⟨-, iRet, hsend, -⟩ := hhanded
      · exact .refl _
      · exact sends_sendRequest hsend
  | output answer answers =>
    obtain ⟨trans, ret, hflush, hcases⟩ := doRequest_cases (step_output hstep).1
    obtain ⟨-, heq, -⟩ | ⟨-, hloop⟩ := hcases
    · rw [heq]
      exact sends_flush hflush
    · exact doInvoke_rule (I := fun t _ => Sends s.proxy.trans t) []
        (fun _ _ _ _ _ _ _ _ hsends hsend => hsends.trans (sends_sendRequest hsend))
        (sends_flush hflush) hloop
  | input answers =>
    obtain ⟨trans, done, ret, hread, ⟨-, hall⟩ | ⟨-, heq, -⟩⟩ :=
      handleInputImp_cases (step_input hstep).1
    · rw [(Prod.mk.inj hall).1, (finishAll_frame done).1]
      exact sends_doResponse hread
    · rw [heq]
      exact sends_doResponse hread

/-- An action of a client keeps its sockets: those that exist stay, and a new one gets a new number.
-/
theorem sockets_step (h : KnownSockets s.proxy.trans) (hstep : s.step a = some (s', events)) :
    KnownSockets s'.proxy.trans ∧ s.proxy.trans.kernel.created ≤ s'.proxy.trans.kernel.created := by
  have hsends := sends_step hstep
  cases a with
  | invoke msg outcome answer =>
    refine ⟨(h.connect outcome).sends hsends, ?_⟩
    rw [hsends.created]
    exact connect_created_le outcome
  | output answer answers | input answers => exact ⟨h.sends hsends, hsends.created.ge⟩

end ProxyRun

end Tars
