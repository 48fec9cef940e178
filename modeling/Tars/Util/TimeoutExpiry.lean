import Tars.Util.TimeoutStore

/-!
# Expiry

`timeout()` erases all due entries in one loop, `timeout(t)` one of them at each call. Both erase
the entries whose deadline has come from all three containers, in the order of their deadlines and
in push order among equal ones, and touch nothing else.
-/

namespace Tars

namespace TimeoutQueue

open TimeoutStore

variable {T : Type*}

/-- `timeout(t)` is called at the time `iNow` until it returns `false`; the elements that it gives
are collected. `fuel` bounds the number of calls. -/
def expireLoop : ℕ → TimeoutQueue T → ℤ → Option (TimeoutQueue T × List T)
  | 0, _, _ => none
  | fuel + 1, q, iNow =>
    match q.timeoutOne iNow with
    | none => none
    | some (q', none) => some (q', [])
    | some (q', some t) => (expireLoop fuel q' iNow).map fun r => (r.1, t :: r.2)

/-- All calls of `timeout(t)` at the time `iNow`. Every call but the last erases a node of
`_time`. -/
def expire (q : TimeoutQueue T) (iNow : ℤ) : Option (TimeoutQueue T × List T) :=
  expireLoop (q.time.length + 1) q iNow

/-- The deadline of an id has come: `_time` has a node of it that is due. -/
def isExpired (q : TimeoutQueue T) (iNow : ℤ) (id : ℕ) : Bool :=
  q.time.any fun n => n.dataIter = id && n.deadline ≤ iNow

/-- By deadline, and in push order among equal deadlines. -/
def ExpiresBefore (entries : List (ℕ × StoreEntry T)) (a b : ℕ × StoreEntry T) : Prop :=
  a.2.deadline < b.2.deadline ∨ a.2.deadline = b.2.deadline ∧ [a, b].Sublist entries

/-- What is left at the time `iNow` in `q'`, when the entries `es` were erased in this order. -/
structure Expired (q : TimeoutQueue T) (s : TimeoutStore T) (iNow : ℤ) (q' : TimeoutQueue T)
    (es : List (ℕ × StoreEntry T)) : Prop where
  /-- `_time` has lost the nodes that are due. -/
  time_eq : q'.time = q.time.filter fun n => iNow < n.deadline
  /-- `_send` has lost the nodes of the entries that are due. -/
  send_eq : q'.send = q.send.filter fun n => !q.isExpired iNow n.dataIter
  /-- `_data` has lost the entries that are due. -/
  lookup_eq : ∀ id, q'.data.lookup id = if q.isExpired iNow id then none else q.data.lookup id
  /-- The erased entries are those that are due. -/
  perm : es.Perm (s.entries.filter (isDue iNow))
  /-- They were erased in order. -/
  order : es.Pairwise (ExpiresBefore s.entries)

section Entries

variable {q : TimeoutQueue T} {s : TimeoutStore T} {iNow : ℤ} {e : ℕ × StoreEntry T}

/-- No id is in the store twice, since the ids of the store are the keys of `_data`. -/
theorem Represents.ids_nodup (h : q.Represents s) : (s.entries.map Prod.fst).Nodup := by
  rw [List.Nodup, List.pairwise_map]
  apply h.push_order.imp
  intro a b hab heq
  rw [heq] at hab
  exact Nat.lt_irrefl _ hab

/-- A deadline node belongs to an entry of the store. -/
theorem Represents.node_entry (h : q.Represents s) {n : TimeNode} (hn : n ∈ q.time) :
    ∃ e ∈ s.entries, e.1 = n.dataIter ∧ e.2.deadline = n.deadline := by
  obtain ⟨info, hinfo, hback⟩ := h.linked.time_data n hn
  refine ⟨(n.dataIter, ⟨info.ptr, n.deadline, info.hasSend⟩), ?_, rfl, rfl⟩
  rw [h.entry_iff]
  refine ⟨info, hinfo, rfl, rfl, ?_⟩
  rw [hback]
  exact hn

/-- The deadline of an entry is that of its node. -/
theorem Represents.deadline_eq (h : q.Represents s) (he : e ∈ s.entries) {n : TimeNode}
    (hn : n ∈ q.time) (hid : n.dataIter = e.1) : n.deadline = e.2.deadline := by
  obtain ⟨f, hf, hfid, hfdeadline⟩ := h.node_entry hn
  have hfe : f = e := List.inj_on_of_nodup_map h.ids_nodup hf he (hfid.trans hid)
  rw [← hfdeadline, hfe]

/-- The deadline node of a due entry is there, so the expiry paths find the entry. -/
theorem Represents.isExpired_of_mem (h : q.Represents s) (he : e ∈ s.entries)
    (hdue : isDue iNow e = true) : q.isExpired iNow e.1 = true := by
  obtain ⟨info, -, -, -, hnode⟩ := (h.entry_iff e.1 e.2).mp he
  have hdeadline : e.2.deadline ≤ iNow := by simpa [isDue] using hdue
  exact List.any_eq_true.mpr ⟨_, hnode, by simp [hdeadline]⟩

/-- No other entry that is due comes before the earliest one. -/
theorem earliest_before {l : List (ℕ × StoreEntry T)} (h : earliest l = some e)
    {f : ℕ × StoreEntry T} (hf : f ∈ l) : f = e ∨ ExpiresBefore l e f := by
  induction l generalizing e f with
  | nil => cases hf
  | cons g rest ih =>
    cases hrest : earliest rest with
    | none =>
      have hnil : rest = [] := by
        cases rest with
        | nil => rfl
        | cons a as =>
          rw [earliest] at hrest
          split at hrest
          · cases hrest
          · split at hrest <;> cases hrest
      subst hnil
      simp only [earliest] at h
      obtain rfl := Option.some.inj h
      exact .inl (List.mem_singleton.mp hf)
    | some k =>
      simp only [earliest, hrest] at h
      split at h
      · next hlt =>
        obtain rfl := Option.some.inj h
        rcases List.mem_cons.mp hf with rfl | hf
        · exact .inr (.inl hlt)
        · obtain heq | hbefore | ⟨heq, hsub⟩ := ih hrest hf
          · exact .inl heq
          · exact .inr (.inl hbefore)
          · exact .inr (.inr ⟨heq, hsub.trans (List.sublist_cons_self g rest)⟩)
      · next hle =>
        obtain rfl := Option.some.inj h
        rcases List.mem_cons.mp hf with heq | hf
        · exact .inl heq
        · have hsub : [g, f].Sublist (g :: rest) := (List.singleton_sublist.mpr hf).cons_cons g
          have hkf : k.2.deadline ≤ f.2.deadline := by
            obtain rfl | hbefore | ⟨heq, -⟩ := ih hrest hf
            · exact Int.le_refl _
            · exact Int.le_of_lt hbefore
            · exact Int.le_of_eq heq
          right
          rcases Int.lt_or_eq_of_le (Int.le_trans (Int.not_lt.mp hle) hkf) with hlt | heq
          · exact .inl hlt
          · exact .inr ⟨heq, hsub⟩

/-- Taking the only element with its key away and putting it in front. -/
private theorem cons_filter_perm {α : Type*} {f : α → ℕ} {a : α} {l : List α}
    (hnodup : (l.map f).Nodup) (ha : a ∈ l) : (a :: l.filter fun b => f b ≠ f a).Perm l := by
  induction l with
  | nil => cases ha
  | cons b l ih =>
    obtain ⟨hnotin, hrest⟩ := List.nodup_cons.mp hnodup
    rcases List.mem_cons.mp ha with rfl | ha
    · rw [List.filter_cons_of_neg (by simp), List.filter_eq_self.mpr]
      intro c hc
      rw [decide_eq_true_eq]
      intro heq
      exact hnotin (heq ▸ List.mem_map_of_mem hc)
    · have hne : f b ≠ f a := fun heq => hnotin (heq ▸ List.mem_map_of_mem ha)
      rw [List.filter_cons_of_pos (by simpa using hne)]
      exact (List.Perm.swap b a _).trans ((ih hrest ha).cons b)

end Entries

section Expiry

variable {q q' : TimeoutQueue T} {s : TimeoutStore T} {iNow : ℤ} {e : ℕ × StoreEntry T}
  {es : List (ℕ × StoreEntry T)}

/-- When nothing is due, nothing is erased and nobody is told: the base of the induction over the
due entries. -/
theorem Represents.expired_nil (h : q.Represents s) (hnone : s.entries.filter (isDue iNow) = []) :
    Expired q s iNow q [] := by
  have hlate : ∀ n ∈ q.time, iNow < n.deadline := by
    intro n hn
    obtain ⟨e, he, -, hdeadline⟩ := h.node_entry hn
    have hnotdue := List.filter_eq_nil_iff.mp hnone e he
    simp only [isDue, decide_eq_true_eq] at hnotdue
    omega
  have hexpired (id : ℕ) : q.isExpired iNow id = false := by
    rw [isExpired, List.any_eq_false]
    intro n hn
    simp [hlate n hn]
  refine ⟨?_, ?_, fun id => ?_, ?_, List.Pairwise.nil⟩
  · rw [List.filter_eq_self.mpr]
    intro n hn
    exact decide_eq_true (hlate n hn)
  · rw [List.filter_eq_self.mpr]
    intro n _
    rw [hexpired, Bool.not_false]
  · rw [hexpired, if_neg Bool.false_ne_true]
  · rw [hnone]

/-- The earliest due entry is erased first, and the rest as if it had not been there: the step of
the induction. -/
theorem Represents.expired_cons (h : q.Represents s)
    (hearliest : earliest (s.entries.filter (isDue iNow)) = some e) (hmem : e.1 ∈ q.data)
    (hrest : Expired (q.erase e.1).1 (s.remove e.1) iNow q' es) :
    Expired q s iNow q' (e :: es) := by
  obtain ⟨he, hdue⟩ := List.mem_filter.mp (earliest_mem hearliest)
  have hdeadline : e.2.deadline ≤ iNow := by simpa [isDue] using hdue
  have htime := h.linked.erase_time hmem
  have hexpired (id : ℕ) :
      (q.erase e.1).1.isExpired iNow id = (decide (id ≠ e.1) && q.isExpired iNow id) := by
    rw [isExpired, isExpired, htime, List.any_filter, Bool.eq_iff_iff]
    simp only [List.any_eq_true, Bool.and_eq_true, decide_eq_true_eq]
    constructor
    · rintro ⟨n, hn, hne, rfl, hle⟩
      exact ⟨hne, n, hn, rfl, hle⟩
    · rintro ⟨hne, n, hn, rfl, hle⟩
      exact ⟨n, hn, hne, rfl, hle⟩
  have hself : q.isExpired iNow e.1 = true := h.isExpired_of_mem he hdue
  have hremove : (s.remove e.1).entries.filter (isDue iNow) =
      (s.entries.filter (isDue iNow)).filter fun f => f.1 ≠ e.1 := List.filter_comm _ _ _
  refine ⟨?_, ?_, fun id => ?_, ?_, ?_⟩
  · rw [hrest.time_eq, htime, List.filter_filter]
    apply List.filter_congr
    intro n hn
    by_cases hid : n.dataIter = e.1
    · have hsame := h.deadline_eq he hn hid
      simp [hid, hsame, hdeadline]
    · simp [hid]
  · rw [hrest.send_eq, h.linked.erase_send hmem, List.filter_filter]
    apply List.filter_congr
    intro n _
    rw [hexpired]
    by_cases hid : n.dataIter = e.1
    · simp [hid, hself]
    · simp [hid]
  · rw [hrest.lookup_eq, hexpired, erase_lookup]
    by_cases hid : id = e.1
    · simp [hid, hself]
    · simp [hid]
  · refine (hrest.perm.cons e).trans ?_
    rw [hremove]
    exact cons_filter_perm (h.ids_nodup.sublist (List.filter_sublist.map _))
      (earliest_mem hearliest)
  · refine List.pairwise_cons.mpr ⟨fun f hf => ?_, ?_⟩
    · have hfdue := hrest.perm.mem_iff.mp hf
      rw [hremove, List.mem_filter, decide_eq_true_eq] at hfdue
      obtain heq | hlt | ⟨heq, hsub⟩ := earliest_before hearliest hfdue.1
      · exact absurd (congrArg Prod.fst heq) hfdue.2
      · exact .inl hlt
      · exact .inr ⟨heq, hsub.trans List.filter_sublist⟩
    · apply hrest.order.imp
      rintro a b (hlt | ⟨heq, hsub⟩)
      · exact .inl hlt
      · exact .inr ⟨heq, hsub.trans List.filter_sublist⟩

/-- Both forms of expiry erase the due entries, one after the other. -/
theorem Represents.expireLoop (h : q.Represents s) (iNow : ℤ) {fuel : ℕ}
    (hfuel : q.time.length < fuel) :
    ∃ q' es, TimeoutQueue.timeoutLoop fuel q iNow = some q' ∧
      TimeoutQueue.expireLoop fuel q iNow = some (q', es.map fun e => e.2.ptr) ∧
      Expired q s iNow q' es := by
  induction fuel generalizing q s with
  | zero => omega
  | succ fuel ih =>
    rw [timeoutLoop_succ, TimeoutQueue.expireLoop]
    rcases h.timeoutOne_cases iNow with ⟨hone, hnone⟩ | ⟨e, hearliest, hmem, hone, hshort⟩
    · rw [hone]
      exact ⟨q, [], rfl, rfl, h.expired_nil hnone⟩
    · obtain ⟨q', es, hall, heach, hrest⟩ := ih (h.erase hmem) (by omega)
      rw [hone]
      refine ⟨q', e :: es, hall, ?_, h.expired_cons hearliest hmem hrest⟩
      dsimp only
      rw [heach, Option.map_some, List.map_cons]

/-- Every call that the queue answers, the store answers in the same way. -/
theorem Represents.step_back (h : q.Represents s) {call : QueueCall T}
    {answers : List (QueueAnswer T)} (hstep : q.step call = some (q', answers)) :
    ∃ s', s.step call = some (s', answers) ∧ q'.Represents s' := by
  cases hs : s.step call with
  | some r =>
    obtain ⟨s', answers'⟩ := r
    obtain ⟨q'', hq, hnext⟩ := h.step hs
    obtain ⟨rfl, rfl⟩ := Prod.mk.inj (Option.some.inj (hq.symm.trans hstep))
    exact ⟨s', rfl, hnext⟩
  | none =>
    cases call with
    | popSend del =>
      rw [TimeoutStore.step, Option.map_eq_none_iff, TimeoutStore.popSend, h.fifo] at hs
      obtain ⟨q'', hpop, -⟩ := Option.map_eq_some_iff.mp hstep
      rw [TimeoutQueue.popSend] at hpop
      cases hlast : q.send.getLast? with
      | none =>
        rw [hlast] at hpop
        cases hpop
      | some n =>
        obtain ⟨send, hsend⟩ := List.getLast?_eq_some_iff.mp hlast
        rw [hsend, List.reverse_append] at hs
        cases hs
    | push | get | erase | getSend | timeout | timeoutOne => cases hs

/-- **Expiry is exact.** In every state that the calls of the queue can reach, and for every time,
`timeout()` ends and erases the entries whose deadline has come from the three containers and
nothing else, and the remaining nodes keep their order. Calling `timeout(t)` at this time until it
returns `false` ends in the same state, and gives the elements of the erased entries by deadline
and in push order among equal deadlines. -/
theorem expiry_exact (calls : List (QueueCall T)) (q : TimeoutQueue T)
    (answers : List (QueueAnswer T))
    (hexec : Scripts.exec TimeoutQueue.step .new calls = some (q, answers)) :
    ∃ s, Scripts.exec TimeoutStore.step .empty calls = some (s, answers) ∧ q.Represents s ∧
      ∀ iNow, ∃ q' es, q.timeout iNow = some q' ∧
        q.expire iNow = some (q', es.map fun e => e.2.ptr) ∧ Expired q s iNow q' es := by
  obtain ⟨s, hs, hrep⟩ := Scripts.exec_simulation (R := fun s q => q.Represents s)
    (fun s q call q' answers h hstep => h.step_back hstep) represents_new hexec
  exact ⟨s, hs, hrep, fun iNow => hrep.expireLoop iNow (Nat.lt_succ_self _)⟩

/-- Three entries, two of them with the same deadline and two of them unsent. -/
def sampleExpiry : List (QueueCall Bool) :=
  [.push true 7 50 false, .push false 8 20 false, .push false 9 50 true, .push true 6 70 false]

/-- The statement for the state after `sampleExpiry` at the time 50. -/
theorem expiry_exact_sample :
    ∃ q s, Scripts.exec TimeoutQueue.step .new sampleExpiry =
        some (q, [.pushed true, .pushed true, .pushed true, .pushed true]) ∧
      q.Represents s ∧ ∃ q' es, q.timeout 50 = some q' ∧
        q.expire 50 = some (q', es.map fun e => e.2.ptr) ∧ Expired q s 50 q' es := by
  obtain ⟨s, -, hrep, hall⟩ := expiry_exact sampleExpiry _ _ rfl
  exact ⟨_, s, rfl, hrep, hall 50⟩

/-- The elements that expire there, by deadline and in push order. -/
example : ((Scripts.exec TimeoutQueue.step .new sampleExpiry).bind fun r =>
    r.1.expire 50).map Prod.snd = some [false, true, false] := by
  decide

end Expiry

end TimeoutQueue

end Tars
