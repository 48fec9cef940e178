import Tars.System.ServedOnce

/-!
# What happens on one socket

A socket carries at most one message, and nothing is served for it later. Here the message is read
at once, so the request is the message and the response is what the servant returned for it.
-/

namespace Tars

namespace RemoteCalls

open NetServer ObjectProxy

/-- A socket for which nothing waits: what it has taken was read, and every request from it was
served. -/
structure Settled (site : Site) (s : RemoteCalls) (notes : List RemoteNote) (e : Endpoint) :
    Prop where
  /-- The server has read everything. -/
  read : s.unread e = []
  /-- It has served everything that was read from this socket. -/
  served : (requestsOn site s e).length = (servedOn e notes).length

/-- A socket that carries one message, somewhere on its way to a servant and back. -/
structure Carries (site : Site) (s : RemoteCalls) (notes : List RemoteNote) (e : Endpoint)
    (data : Bytes) : Prop where
  /-- The socket takes the message from its front. -/
  sent : s.sent e <+: data
  /-- The server reads it at once. -/
  read : (s.passed e).read = 0 ∧ requestsOn site s e = [] ∨
    (s.passed e).read = data.length ∧ s.sent e = data ∧
      (requestsOn site s e = [data] ∨ requestsOn site s e = [])
  /-- It is served at most once. -/
  served : servedOn e notes = [] ∨ ∃ outcome, servedOn e notes = [(data, outcome)]
  /-- What is written is the buffer that the servant returned. -/
  written : (s.passed e).written = [] ∨
    ∃ code, servedOn e notes = [(data, .ok (code, (s.passed e).written))]

section Sockets

variable {site : Site} {s s' : RemoteCalls} {notes new : List RemoteNote} {e : Endpoint}
  {data : Bytes} {a : RemoteAction}

/-- What a step of the server does to one socket: nothing, or it reads from it, writes to it or
calls a servant for it. -/
theorem ServerStep.at_socket (h : ServerStep site s s' notes new a) (e : Endpoint) :
    s'.passed e = s.passed e ∧ requestsOn site s' e = requestsOn site s e ∧ servedOn e new = [] ∨
      (∃ answers, Connection.readBy answers <+: s.unread e ∧
        (Whole e.client s a → Connection.readBy answers = [] ∨
          s.Awaits e.client (Connection.readBy answers)) ∧
        s'.passed e = { s.passed e with
          read := (s.passed e).read + (Connection.readBy answers).length } ∧
        requestsOn site s' e =
          requestsOn site s e ++ (Connection.batchOf answers).toList.filter (· ≠ []) ∧
        servedOn e new = []) ∨
      (∃ buffer took front rest, (Whole e.client s a → took = [] ∨ took = buffer) ∧
        s'.passed e = { s.passed e with written := (s.passed e).written ++ took } ∧
        (servedOn e notes).filterMap responded = front ++ buffer :: rest ∧
        (front = [] → (s.passed e).written = []) ∧ requestsOn site s' e = requestsOn site s e ∧
        servedOn e new = []) ∨
      ∃ p, s'.passed e = s.passed e ∧ requestsOn site s' e = requestsOn site s e ∧
        servedOn e new = [p] := by
  cases h.effect with
  | quiet hpassed hrequests hserved =>
    exact .inl ⟨by rw [hpassed], hrequests e, servedOn_eq_nil hserved e⟩
  | read e' answers hfront hwhole hpassed hrequests hserved =>
    by_cases heq : e = e'
    · subst heq
      refine .inr (.inl ⟨answers, hfront, hwhole, ?_, ?_, servedOn_eq_nil hserved e⟩)
      · rw [hpassed]
        exact Function.update_self ..
      · rw [hrequests, if_pos rfl]
    · refine .inl ⟨?_, ?_, servedOn_eq_nil hserved e⟩
      · rw [hpassed]
        exact Function.update_of_ne heq ..
      · rw [hrequests, if_neg heq, List.append_nil]
  | wrote e' buffer took front rest hwhole hpassed hresponses hfirst hrequests hserved =>
    by_cases heq : e = e'
    · subst heq
      refine .inr (.inr (.inl ⟨buffer, took, front, rest, hwhole, ?_, hresponses, hfirst,
        hrequests e, servedOn_eq_nil hserved e⟩))
      rw [hpassed, if_pos rfl]
    · refine .inl ⟨?_, hrequests e, servedOn_eq_nil hserved e⟩
      rw [hpassed, if_neg heq, List.append_nil]
  | served e' request outcome hpassed hrequests hserved =>
    by_cases heq : e = e'
    · subst heq
      exact .inr (.inr (.inr ⟨(request, outcome), by rw [hpassed], hrequests e,
        by simp [servedOn, hserved]⟩))
    · exact .inl ⟨by rw [hpassed], hrequests e, by simp [servedOn, hserved, Ne.symm heq]⟩

/-- The clients send nothing in a step of the server. -/
theorem ServerStep.sent (h : ServerStep site s s' notes new a) (e : Endpoint) :
    s'.sent e = s.sent e := by
  rw [RemoteCalls.sent, RemoteCalls.sent, trans, trans, h.clients]

/-- A batch without bytes makes no request, so reading nothing files nothing. -/
theorem batch_filter_of_nil {answers : List ReadResult} (h : Connection.readBy answers = []) :
    (Connection.batchOf answers).toList.filter (· ≠ []) = [] := by
  cases hbatch : Connection.batchOf answers with
  | none => rfl
  | some batch =>
    rw [Connection.batchOf_eq_some hbatch, h]
    rfl

/-- A batch with bytes makes one request, unless the connection is closed. -/
theorem batch_filter_of_ne_nil {answers : List ReadResult} (hdata : data ≠ [])
    (h : Connection.readBy answers = data) :
    (Connection.batchOf answers).toList.filter (· ≠ []) = [data] ∨
      (Connection.batchOf answers).toList.filter (· ≠ []) = [] := by
  cases hbatch : Connection.batchOf answers with
  | none => exact .inr rfl
  | some batch =>
    rw [Connection.batchOf_eq_some hbatch, h]
    exact .inl (by simp [hdata])

/-- A step of the server on a socket for which nothing waits. -/
theorem Settled.serverStep (h : Settled site s notes e) (hstep : ServerStep site s s' notes new a) :
    Settled site s' (notes ++ new) e ∧ servedOn e new = [] := by
  obtain ⟨hpassed, hrequests, hserved⟩ | ⟨answers, hfront, -, hpassed, hrequests, hserved⟩ |
    ⟨buffer, took, front, rest, -, hpassed, -, -, hrequests, hserved⟩ |
    ⟨p, hpassed, hrequests, hserved⟩ := hstep.at_socket e
  · refine ⟨⟨?_, ?_⟩, hserved⟩
    · rw [unread, hstep.sent, hpassed]
      exact h.read
    · rw [hrequests, servedOn_append, hserved, List.append_nil]
      exact h.served
  · rw [h.read, List.prefix_nil] at hfront
    refine ⟨⟨?_, ?_⟩, hserved⟩
    · rw [unread, hstep.sent, hpassed, hfront]
      exact h.read
    · rw [hrequests, batch_filter_of_nil hfront, List.append_nil, servedOn_append, hserved,
        List.append_nil]
      exact h.served
  · refine ⟨⟨?_, ?_⟩, hserved⟩
    · rw [unread, hstep.sent, hpassed]
      exact h.read
    · rw [hrequests, servedOn_append, hserved, List.append_nil]
      exact h.served
  · -- Nothing is left that a servant could be called for.
    have honce := (hstep.accounts.once e).length_le
    rw [hrequests, servedOn_append, hserved, List.length_map, List.length_append, h.served,
      List.length_singleton] at honce
    omega

/-- A step of the server on a socket that carries one message. -/
theorem Carries.serverStep (h : Carries site s notes e data) (hdata : data ≠ [])
    (hstep : ServerStep site s s' notes new a) (hwhole : Whole e.client s a)
    (hawaits : ∀ bytes, s.Awaits e.client bytes → bytes = data) :
    Carries site s' (notes ++ new) e data ∧ (s'.passed e).got = (s.passed e).got ∧
      ((s.passed e).written ≠ [] → (s'.passed e).written = (s.passed e).written) := by
  have hsent := hstep.sent e
  obtain ⟨hpassed, hrequests, hserved⟩ | ⟨answers, hfront, hbytes, hpassed, hrequests, hserved⟩ |
    ⟨buffer, took, front, rest, htook, hpassed, hresponses, hfirst, hrequests, hserved⟩ |
    ⟨p, hpassed, hrequests, hserved⟩ := hstep.at_socket e
  · rw [hpassed]
    refine ⟨⟨?_, ?_, ?_, ?_⟩, rfl, fun _ => rfl⟩
    · rw [hsent]
      exact h.sent
    · rw [hpassed, hrequests, hsent]
      exact h.read
    · rw [servedOn_append, hserved, List.append_nil]
      exact h.served
    · rw [hpassed, servedOn_append, hserved, List.append_nil]
      exact h.written
  · rw [hpassed]
    refine ⟨⟨?_, ?_, ?_, ?_⟩, rfl, fun _ => rfl⟩
    · rw [hsent]
      exact h.sent
    · rw [hpassed, hrequests, hsent]
      obtain hnone | hawaited := hbytes hwhole
      · rw [hnone, batch_filter_of_nil hnone, List.append_nil]
        exact h.read
      · -- The whole message is read.
        have hall := hawaits _ hawaited
        rw [hall] at hfront
        obtain ⟨hzero, hnone⟩ | ⟨hread, hsame, -⟩ := h.read
        · rw [unread, hzero, List.drop_zero] at hfront
          refine .inr ⟨?_, h.sent.eq_of_length_le hfront.length_le, ?_⟩
          · rw [hzero, Nat.zero_add, hall]
          · rw [hnone, List.nil_append]
            exact batch_filter_of_ne_nil hdata hall
        · rw [unread, hread, hsame, List.drop_length, List.prefix_nil] at hfront
          exact absurd hfront hdata
    · rw [servedOn_append, hserved, List.append_nil]
      exact h.served
    · rw [hpassed, servedOn_append, hserved, List.append_nil]
      exact h.written
  · -- The only response is that of the only call.
    obtain ⟨code, hone, rfl, rfl⟩ : ∃ code, servedOn e notes = [(data, .ok (code, buffer))] ∧
        front = [] ∧ rest = [] := by
      obtain hnone | ⟨outcome, hone⟩ := h.served
      · rw [hnone] at hresponses
        simp at hresponses
      · rw [hone] at hresponses
        cases outcome with
        | error u =>
          have hlist : [] = front ++ buffer :: rest := hresponses
          simp at hlist
        | ok r =>
          have hlist : [r.2] = front ++ buffer :: rest := hresponses
          have hlength := congrArg List.length hlist
          simp only [List.length_append, List.length_cons, List.length_nil] at hlength
          obtain rfl := List.length_eq_zero_iff.mp (show front.length = 0 by omega)
          obtain rfl := List.length_eq_zero_iff.mp (show rest.length = 0 by omega)
          obtain rfl := (List.cons.inj hlist).1
          exact ⟨r.1, hone, rfl, rfl⟩
    have hempty := hfirst rfl
    refine ⟨⟨?_, ?_, ?_, ?_⟩, by rw [hpassed], fun hne => absurd hempty hne⟩
    · rw [hsent]
      exact h.sent
    · rw [hpassed, hrequests, hsent]
      exact h.read
    · rw [servedOn_append, hserved, List.append_nil]
      exact h.served
    · rw [hpassed, servedOn_append, hserved, List.append_nil, hempty, List.nil_append]
      obtain hnone | hall := htook hwhole
      · exact .inl hnone
      · rw [hall]
        exact .inr ⟨code, hone⟩
  · -- The message is served for the first time.
    have honce := hstep.accounts.once e
    rw [hrequests, servedOn_append, hserved, List.map_append] at honce
    have hlength := honce.length_le
    rw [List.length_append, List.length_map, List.map_singleton, List.length_singleton] at hlength
    have hmem : p.1 ∈ requestsOn site s e := honce.subset (List.mem_append_right _ (by simp))
    obtain ⟨hread, hsame, hrequest⟩ : (s.passed e).read = data.length ∧ s.sent e = data ∧
        requestsOn site s e = [data] := by
      obtain ⟨-, hnone⟩ | ⟨hread, hsame, hone | hnone⟩ := h.read
      · rw [hnone] at hmem
        exact absurd hmem List.not_mem_nil
      · exact ⟨hread, hsame, hone⟩
      · rw [hnone] at hmem
        exact absurd hmem List.not_mem_nil
    rw [hrequest, List.length_singleton] at hlength
    have hfirst : servedOn e notes = [] := List.length_eq_zero_iff.mp (by omega)
    have hp : p = (data, p.2) := by
      rw [hrequest, List.mem_singleton] at hmem
      rw [← hmem]
    have hwritten : (s.passed e).written = [] := by
      obtain hnone | ⟨code, hone⟩ := h.written
      · exact hnone
      · rw [hfirst] at hone
        cases hone
    rw [hpassed]
    refine ⟨⟨?_, ?_, ?_, ?_⟩, rfl, fun _ => rfl⟩
    · rw [hsent]
      exact h.sent
    · rw [hpassed, hrequests, hsent]
      exact h.read
    · rw [servedOn_append, hserved, hfirst, List.nil_append]
      exact .inr ⟨p.2, by rw [← hp]⟩
    · rw [hpassed]
      exact .inl hwritten

end Sockets

end RemoteCalls

end Tars
