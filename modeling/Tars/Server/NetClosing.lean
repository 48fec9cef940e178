import Tars.Server.NetRuns

/-!
# Connections that are closed

`delConnection` leaves a closed connection in `_uid_connection` and its identifier out of `_free`.
So the pool of identifiers only shrinks, and a closed connection can be deleted again.
-/

namespace Tars

namespace NetServer

/-! ### The identifiers -/

/-- A connection of a thread is open: it is stored, and its socket was not closed. -/
def isOpen (s : NetServer) (thread uid : ℕ) : Bool :=
  match s.connection thread uid with
  | none => false
  | some c => c.sock.isSome

/-- The number of open connections of a thread, counted over all its identifiers. -/
def openCount (s : NetServer) (thread : ℕ) : ℕ :=
  (List.range' 1 total).countP (s.isOpen thread)

/-- The identifiers of a thread are those of its open connections and those in `_free`. -/
structure Pooled (s : NetServer) (thread : ℕ) : Prop where
  /-- The next connection finds an identifier, if there are not too many open. -/
  room : s.openCount thread < total → (s.netThreads thread).free ≠ []
  /-- Open connections have identifiers of the pool, from 1 to its size. -/
  range {uid c} : s.connection thread uid = some c → c.sock ≠ none → 1 ≤ c.uid ∧ c.uid ≤ total
  /-- Open connections have different identifiers. -/
  distinct {uid uid' c c'} : s.connection thread uid = some c →
    s.connection thread uid' = some c' → c.sock ≠ none → c'.sock ≠ none → c.uid = c'.uid →
    c.serial = c'.serial
  /-- Connections that are closed are removed. -/
  removed {uid c} : s.connection thread uid = some c → c.sock ≠ none
  /-- Identifiers without a connection are in `_free`. -/
  returned {uid} : 1 ≤ uid → uid ≤ total → s.connection thread uid = none →
    uid ∈ (s.netThreads thread).free

section Pool

variable {n scIovMax : ℕ} {s s' : NetServer} {past es : List NetEvent} {as : List NetAction}

/-- As long as no connection was closed, all identifiers are accounted for. -/
theorem Inv.pooled (h : Inv n s past) (hnever : ∀ serial, closings serial past = [])
    (thread : ℕ) : Pooled s thread := by
  obtain ⟨k, hk, hfree, hall⟩ := h.connections.pool thread
  have hopen {uid : ℕ} {c : NetConnection} (hc : s.connection thread uid = some c) :
      c.sock ≠ none := by
    obtain ⟨fd, -, -, ⟨hsock, -⟩ | ⟨-, j, hclosed⟩⟩ := (h.connections.stored hc).history
    · simp [hsock]
    · rw [hnever] at hclosed
      cases hclosed
  have huid {uid : ℕ} {c : NetConnection} (hc : s.connection thread uid = some c) :
      c.uid = uid ∧ 1 ≤ uid ∧ uid ≤ k :=
    ⟨(h.connections.stored hc).uid_eq, (hall uid).mp (by simp [hc])⟩
  refine ⟨?_, ?_, ?_, fun hc => hopen hc, ?_⟩
  · intro hcount hnil
    rw [hnil] at hfree
    have hk' : k = total := by
      have hlen := congrArg List.length hfree
      rw [List.length_range', List.length_nil] at hlen
      omega
    have hfull : s.openCount thread = (List.range' 1 total).length := by
      rw [openCount, List.countP_eq_length]
      intro uid huid
      rw [List.mem_range'_1] at huid
      have hsome := (hall uid).mpr (by omega)
      obtain ⟨c, hc⟩ := Option.ne_none_iff_exists'.mp hsome
      rw [isOpen, hc]
      exact Option.isSome_iff_ne_none.mpr (hopen hc)
    rw [hfull, List.length_range'] at hcount
    omega
  · intro uid c hc _
    obtain ⟨heq, hlo, hhi⟩ := huid hc
    omega
  · intro uid uid' c c' hc hc' _ _ heq
    rw [(huid hc).1, (huid hc').1] at heq
    subst heq
    rw [hc] at hc'
    rw [Option.some.inj hc']
  · intro uid hlo hhi hnone
    rw [hfree, List.mem_range'_1]
    have hgone : ¬(1 ≤ uid ∧ uid ≤ k) := fun hin => (hall uid).mpr hin hnone
    omega

/-- A connection that was closed is still there, under the uid that it had, so the pool of its
thread is not right. -/
theorem Inv.not_pooled (h : Inv n s past) (serial : ℕ) (hclosed : closings serial past ≠ []) :
    ∃ thread, ¬Pooled s thread := by
  obtain ⟨thread, uid, c, hc, rfl⟩ := h.connections.closed hclosed
  refine ⟨thread, fun hpool => ?_⟩
  obtain ⟨fd, -, -, ⟨-, -, -, hnever⟩ | ⟨hsock, -⟩⟩ := (h.connections.stored hc).history
  · exact hclosed hnever
  · exact hpool.removed hc hsock

/-- No connection is closed by a step that does not call `delConnection`. -/
theorem Emits.closings_eq {a : NetAction} (h : Emits n s a es) (hnever : ∀ c, ¬s.Closes a c)
    (serial : ℕ) : closings serial es = [] := by
  cases h with
  | closed hcloses => exact absurd hcloses (hnever _)
  | nothing => rfl
  | accepted => rfl
  | wrote => rfl

/-- **The pool of identifiers**, in every run of any number of threads: it is kept in all states of
a run exactly when no connection is closed. -/
theorem pooled_iff (hexec : Scripts.exec (step n scIovMax) start as = some (s, es)) :
    Scripts.Always (step n scIovMax) (fun s => ∀ thread, Pooled s thread) start as ↔
      Scripts.Along (step n scIovMax) (fun s a => ∀ c, ¬s.Closes a c) start as := by
  refine Scripts.always_iff_along
    (I := fun s => ∃ past, Inv n s past ∧ ∀ serial, closings serial past = []) ?_ ?_ ?_ ?_ hexec
  · rintro s ⟨past, hinv, hnever⟩
    exact hinv.pooled hnever
  · rintro s a s' es ⟨past, hinv, hnever⟩ hopen hstep
    obtain ⟨hemits, hinv'⟩ := step_inv hinv hstep
    refine ⟨past ++ es, hinv', fun serial => ?_⟩
    rw [closings_append, hnever, hemits.closings_eq hopen, List.append_nil]
  · rintro s a s' es ⟨past, hinv, -⟩ hcloses hstep hpool
    obtain ⟨hemits, hinv'⟩ := step_inv hinv hstep
    rw [not_forall] at hcloses
    obtain ⟨c, hc⟩ := hcloses
    rw [not_not] at hc
    cases hemits with
    | closed _ =>
      rename_i d _
      obtain ⟨thread, hbroken⟩ := hinv'.not_pooled d.serial (by
        rw [closings_append, closings_closed, if_pos rfl]
        simp)
      exact hbroken (hpool thread)
    | nothing hnever => exact hnever c hc
    | accepted hnever => exact hnever c hc
    | wrote hnever => exact hnever c hc
  · exact ⟨[], inv_start n, fun _ => rfl⟩

end Pool

/-- Three connections are accepted in two threads, the request of one of them is answered, and a
fourth connection is accepted. -/
def answering : List NetAction :=
  [.accept 3 5 [49] 80, .accept 3 6 [49] 81, .accept 3 7 [49] 82,
    .net 1 2 ⟨false, some [.data [7]], none⟩, .take 3, .respond 0 [8, 9], .swap 1,
    .pipe 1 (.accepted 2), .accept 3 9 [49] 83]

/-- In the run of `answering` no connection is closed, so the pool is kept in all its states. -/
theorem pooled_iff_sample : ∃ s es, Scripts.exec (step 2 1024) start answering = some (s, es) ∧
    es = [.accepted 0 1 1 5, .accepted 1 0 1 6, .accepted 2 1 2 7, .wrote 2 7 (some 2) [8, 9],
      .accepted 3 1 3 9] ∧
    Scripts.Along (step 2 1024) (fun s a => ∀ c, ¬s.Closes a c) start answering ∧
    Scripts.Always (step 2 1024) (fun s => ∀ thread, Pooled s thread) start answering := by
  have hevents : (Scripts.exec (step 2 1024) start answering).map Prod.snd =
      some [.accepted 0 1 1 5, .accepted 1 0 1 6, .accepted 2 1 2 7, .wrote 2 7 (some 2) [8, 9],
        .accepted 3 1 3 9] := by decide +kernel
  have halong : Scripts.Along (step 2 1024) (fun s a => ∀ c, ¬s.Closes a c) start answering := by
    decide +kernel
  obtain ⟨⟨s, es⟩, hexec, hes⟩ := Option.map_eq_some_iff.mp hevents
  exact ⟨s, es, hexec, hes, halong, (pooled_iff hexec).mpr halong⟩

/-- A connection is accepted, and `epoll_wait` reports an error for it. -/
def hangingUp : List NetAction := [.accept 3 5 [49] 80, .net 1 1 ⟨true, none, none⟩]

/-- After `hangingUp` the closed connection is still in `_uid_connection`, so the pool of its thread
is not right. -/
theorem pooled_fails : ∃ s es, Scripts.exec (step 2 1024) start hangingUp = some (s, es) ∧
    ¬Scripts.Always (step 2 1024) (fun s => ∀ thread, Pooled s thread) start hangingUp := by
  have hevents : (Scripts.exec (step 2 1024) start hangingUp).map Prod.snd =
      some [.accepted 0 1 1 5, .closed 0 (some 5)] := by decide +kernel
  obtain ⟨⟨s, es⟩, hexec, rfl⟩ := Option.map_eq_some_iff.mp hevents
  refine ⟨s, _, hexec, fun hall => ?_⟩
  obtain ⟨thread, hbroken⟩ := (run_inv hexec).not_pooled 0 (by decide)
  exact hbroken (hall.last hexec thread)

/-! ### Records that a connection is closed -/

section Signals

variable {n scIovMax : ℕ} {s s' : NetServer} {past es : List NetEvent} {as : List NetAction}
  {a : NetAction}

/-- An action closes at most one connection, so its signals are those of this one. -/
theorem Closes.unique {c c' : NetConnection} (h : s.Closes a c) (h' : s.Closes a c') : c = c' := by
  cases a with
  | net thread uid report =>
    rw [Closes] at h h'
    exact Option.some.inj (h.1.symm.trans h'.1)
  | pipe thread answer =>
    obtain ⟨it, deSendData, hdata, -, hc⟩ := h
    obtain ⟨it', deSendData', hdata', -, hc'⟩ := h'
    rw [hdata] at hdata'
    obtain ⟨rfl, rfl⟩ := List.cons.inj hdata'
    exact Option.some.inj (hc.symm.trans hc')
  | accept | swap | take | respond | close => exact absurd h id

/-- A connection was closed once at most, with its descriptor. -/
def SignalledOnce (es : List NetEvent) (serial : ℕ) : Prop :=
  closings serial es = [] ∨
    ∃ thread uid fd, .accepted serial thread uid fd ∈ es ∧ closings serial es = [some fd]

/-- There is no record with a descriptor that is not valid. -/
def ValidFd (e : NetEvent) : Prop := ∀ serial, e ≠ .closed serial none

/-- A step makes a record with a valid descriptor exactly when what it closes is open. -/
theorem Emits.validFd_iff (h : Emits n s a es) :
    (∀ e ∈ es, ValidFd e) ↔ ∀ c, s.Closes a c → c.sock ≠ none := by
  cases h with
  | closed hcloses =>
    rename_i c
    constructor
    · intro hvalid c' hcloses' hsock
      obtain rfl := hcloses.unique hcloses'
      exact hvalid _ (List.mem_singleton_self _) c.serial (by rw [hsock])
    · intro hopen e he serial heq
      rw [List.mem_singleton.mp he] at heq
      exact hopen c hcloses (NetEvent.closed.inj heq).2
  | nothing hnever => simp [hnever]
  | accepted hnever => simp [hnever, ValidFd]
  | wrote hnever => simp [hnever, ValidFd]

/-- All connections were closed once at most exactly when all descriptors were valid. -/
theorem Inv.signalledOnce_iff_validFd (h : Inv n s es) :
    (∀ serial, SignalledOnce es serial) ↔ ∀ e ∈ es, ValidFd e := by
  constructor
  · rintro honce e he serial rfl
    have hmem : none ∈ closings serial es :=
      List.mem_filterMap.mpr ⟨_, he, if_pos rfl⟩
    rcases honce serial with hnever | ⟨thread, uid, fd, -, hclosed⟩
    · rw [hnever] at hmem
      cases hmem
    · rw [hclosed, List.mem_singleton] at hmem
      cases hmem
  · intro hvalid serial
    by_cases hnever : closings serial es = []
    · exact .inl hnever
    obtain ⟨thread, uid, c, hc, rfl⟩ := h.connections.closed hnever
    obtain ⟨fd, haccepted, -, ⟨-, -, -, hnever'⟩ | ⟨-, k, hclosed⟩⟩ :=
      (h.connections.stored hc).history
    · exact absurd hnever' hnever
    refine .inr ⟨thread, uid, fd, haccepted, ?_⟩
    cases k with
    | zero => exact hclosed
    | succ k =>
      have hmem : none ∈ closings c.serial es := by
        rw [hclosed, List.replicate_succ]
        exact List.mem_cons_of_mem _ List.mem_cons_self
      obtain ⟨e, he, heq⟩ := List.mem_filterMap.mp hmem
      cases e with
      | closed serial fd' =>
        dsimp only at heq
        split at heq
        · exact absurd (congrArg (NetEvent.closed serial) (Option.some.inj heq))
            (hvalid _ he serial)
        · cases heq
      | accepted | wrote => cases heq

/-- **That a connection is closed is signalled once**, in every run of any number of threads, with
its descriptor, exactly when no error, no end of the input and no command `'c'` is handled for a
connection that is closed already. -/
theorem signalledOnce_iff (hexec : Scripts.exec (step n scIovMax) start as = some (s, es)) :
    (∀ serial, SignalledOnce es serial) ↔
      Scripts.Along (step n scIovMax) (fun s a => ∀ c, s.Closes a c → c.sock ≠ none) start as := by
  rw [(run_inv hexec).signalledOnce_iff_validFd, ← Scripts.each_outputs_iff [] hexec]
  refine Scripts.each_iff_along (I := fun s past => Inv n s past) ?_ ?_ (inv_start n) hexec
  · intro s a s' es past hinv hstep
    exact (step_inv hinv hstep).2
  · intro s a s' es past hinv hstep
    exact (step_inv hinv hstep).1.validFd_iff

end Signals

/-- In the run of `hangingUp` the one connection is signalled once, so nothing was closed that was
not open. -/
theorem signalledOnce_iff_sample : ∃ s es,
    Scripts.exec (step 2 1024) start hangingUp = some (s, es) ∧
    (∀ serial, SignalledOnce es serial) ∧ Scripts.Along (step 2 1024)
      (fun s a => ∀ c, s.Closes a c → c.sock ≠ none) start hangingUp := by
  have hevents : (Scripts.exec (step 2 1024) start hangingUp).map Prod.snd =
      some [.accepted 0 1 1 5, .closed 0 (some 5)] := by decide +kernel
  obtain ⟨⟨s, es⟩, hexec, rfl⟩ := Option.map_eq_some_iff.mp hevents
  have hall (serial : ℕ) :
      SignalledOnce [.accepted 0 1 1 5, .closed 0 (some 5)] serial := by
    by_cases hserial : serial = 0
    · rw [hserial]
      exact .inr ⟨1, 1, 5, List.mem_cons_self, rfl⟩
    · exact .inl (by simp [closings, Ne.symm hserial])
  exact ⟨s, _, hexec, hall, (signalledOnce_iff hexec).mp hall⟩

/-- A handler closes the connection of a request twice. -/
def closingTwice : List NetAction :=
  [.accept 3 5 [49] 80, .net 1 1 ⟨false, some [.data [7]], none⟩, .take 3, .close 0, .close 0,
    .swap 1, .pipe 1 .again, .pipe 1 .again]

/-- In the run of `closingTwice` there are two records, the second without a descriptor. -/
theorem signalledOnce_fails : ∃ s es,
    Scripts.exec (step 2 1024) start closingTwice = some (s, es) ∧ ¬SignalledOnce es 0 := by
  have hevents : (Scripts.exec (step 2 1024) start closingTwice).map Prod.snd =
      some [.accepted 0 1 1 5, .closed 0 (some 5), .closed 0 none] := by decide +kernel
  obtain ⟨⟨s, es⟩, hexec, rfl⟩ := Option.map_eq_some_iff.mp hevents
  refine ⟨s, _, hexec, ?_⟩
  rintro (hnever | ⟨thread, uid, fd, -, honce⟩)
  · cases hnever
  · cases honce

end NetServer

end Tars
