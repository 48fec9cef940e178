/-!
# Decoders

A decoder reads from a state and either delivers a value, throws an exception with the state
it had then, or ends in one of three ways that leave no state: it touches memory that is not
its own, it is refused by a guard, or it runs out of fuel. The guard and the fuel are not part
of a decoder's task. A decoder with less fuel or with a guard approximates the one without, and
what a decoder does with enough fuel is stated with `Halts`.
-/

namespace Decoding

universe u v w

/-- How a decoder ends: with a value, with an exception, outside its input, refused, or out of fuel.
-/
inductive Outcome (σ : Type u) (ε : Type v) (α : Type w) where
  /-- With a value. -/
  | ok (value : α) (s : σ)
  /-- With an exception. -/
  | thrown (e : ε) (s : σ)
  /-- By an access to memory that is not its own. -/
  | fault
  /-- By its guard. -/
  | refused
  /-- Without fuel. -/
  | timeout
  deriving DecidableEq

/-- A decoder: a function from states to outcomes, which may change the state. -/
def Decoder (σ : Type u) (ε : Type v) (α : Type w) := σ → Outcome σ ε α

section Combinators

variable {σ : Type u} {ε : Type v} {α β : Type w}

/-- Deliver a value without reading, in any state, which stays as it is. -/
def Decoder.pure (v : α) : Decoder σ ε α := fun s => .ok v s

/-- Read with one decoder and then with another one that depends on the value. -/
def Decoder.bind (m : Decoder σ ε α) (f : α → Decoder σ ε β) : Decoder σ ε β := fun s =>
  match m s with
  | .ok v s' => f v s'
  | .thrown e s' => .thrown e s'
  | .fault => .fault
  | .refused => .refused
  | .timeout => .timeout

instance : Monad (Decoder σ ε) where
  pure := Decoder.pure
  bind := Decoder.bind

/-- Throw an exception and leave the state as it is. -/
def throw (e : ε) : Decoder σ ε α := fun s => .thrown e s

/-- Be refused: a guard of the decoder does not let it go on. -/
def refuse : Decoder σ ε α := fun _ => .refused

/-- Run out of fuel: nothing is known of what the source does. -/
def exhausted : Decoder σ ε α := fun _ => .timeout

/-- Ask for a property of the state. Neither the value nor the state depends on the input that is
left. -/
def ask (f : σ → α) : Decoder σ ε α := fun s => .ok (f s) s

/-- Read, and deliver a value instead of an exception, in the state in which it was thrown. -/
def attempt (m : Decoder σ ε α) (v : α) : Decoder σ ε α := fun s =>
  match m s with
  | .thrown _ s' => .ok v s'
  | outcome => outcome

@[simp] theorem ask_apply (f : σ → α) (s : σ) : (ask f : Decoder σ ε α) s = .ok (f s) s := rfl

section Run

variable {m : Decoder σ ε α} {f : α → Decoder σ ε β} {s s' : σ} {v : α} {e : ε}

/-- After a value the second decoder reads on, from the state that the first one left. -/
theorem bind_of_ok (h : m s = .ok v s') : (m >>= f) s = f v s' := by
  show Decoder.bind m f s = _
  rw [Decoder.bind, h]

/-- After an exception the second decoder does not start. -/
theorem bind_of_thrown (h : m s = .thrown e s') : (m >>= f) s = .thrown e s' := by
  show Decoder.bind m f s = _
  rw [Decoder.bind, h]

/-- After an access to other memory it does not. -/
theorem bind_of_fault (h : m s = .fault) : (m >>= f) s = .fault := by
  show Decoder.bind m f s = _
  rw [Decoder.bind, h]

/-- After a refusal the second decoder does not start. -/
theorem bind_of_refused (h : m s = .refused) : (m >>= f) s = .refused := by
  show Decoder.bind m f s = _
  rw [Decoder.bind, h]

/-- A decoder that runs out of fuel does so whatever was to be read behind it. -/
theorem bind_of_timeout (h : m s = .timeout) : (m >>= f) s = .timeout := by
  show Decoder.bind m f s = _
  rw [Decoder.bind, h]

/-- An attempt that succeeds delivers the value of the decoder. -/
theorem attempt_of_ok {w : α} (h : m s = .ok v s') : attempt m w s = .ok v s' := by
  rw [attempt, h]

end Run

/-- The same decoder with exceptions of another type; values and the other outcomes stay. -/
def Decoder.mapThrown {ε' : Type v} (f : ε → ε') (m : Decoder σ ε α) : Decoder σ ε' α := fun s =>
  match m s with
  | .ok v s' => .ok v s'
  | .thrown e s' => .thrown (f e) s'
  | .fault => .fault
  | .refused => .refused
  | .timeout => .timeout

section MapThrown

variable {ε' : Type v} (f : ε → ε') {m : Decoder σ ε α} {s s' : σ} {v : α} {e : ε}

/-- A value and the state stay as they are when the exceptions are replaced by others. -/
theorem mapThrown_of_ok (h : m s = .ok v s') : m.mapThrown f s = .ok v s' := by
  rw [Decoder.mapThrown, h]

/-- An exception is replaced by the other one, in the same state. -/
theorem mapThrown_of_thrown (h : m s = .thrown e s') : m.mapThrown f s = .thrown (f e) s' := by
  rw [Decoder.mapThrown, h]

/-- There are no other values when exceptions are replaced. -/
theorem mapThrown_eq_ok_iff : m.mapThrown f s = .ok v s' ↔ m s = .ok v s' := by
  rw [Decoder.mapThrown]
  cases m s <;> simp

/-- There are no other exceptions when they are replaced: each one comes from one of the decoder. -/
theorem mapThrown_eq_thrown_iff {e' : ε'} :
    m.mapThrown f s = .thrown e' s' ↔ ∃ e, f e = e' ∧ m s = .thrown e s' := by
  constructor
  · intro h
    rw [Decoder.mapThrown] at h
    cases hm : m s with
    | thrown e t =>
      rw [hm] at h
      obtain ⟨rfl, rfl⟩ := Outcome.thrown.inj h
      exact ⟨e, rfl, rfl⟩
    | _ =>
      rw [hm] at h
      cases h
  · rintro ⟨e, rfl, hm⟩
    exact mapThrown_of_thrown f hm

end MapThrown

section Exceptions

variable {m : Decoder σ ε α} {f : α → Decoder σ ε β} {s s' : σ} {e : ε}

/-- One of two decoders throws, if both together do. -/
theorem bind_eq_thrown_iff : (m >>= f) s = .thrown e s' ↔
    m s = .thrown e s' ∨ ∃ v t, m s = .ok v t ∧ f v t = .thrown e s' := by
  cases hm : m s with
  | ok v t =>
    rw [bind_of_ok hm]
    constructor
    · exact fun h => .inr ⟨v, t, rfl, h⟩
    · rintro (h | ⟨v', t', h, hf⟩)
      · cases h
      · obtain ⟨rfl, rfl⟩ := Outcome.ok.inj h
        exact hf
  | thrown e' t => simp [bind_of_thrown hm]
  | fault => simp [bind_of_fault hm]
  | refused => simp [bind_of_refused hm]
  | timeout => simp [bind_of_timeout hm]

end Exceptions

end Combinators

/-! ### Less fuel and guards -/

section Approximation

variable {σ : Type u} {ε : Type v} {α β : Type w} {bad : σ → Prop}

/-- The decoder has ended, and the state is not bad. -/
def Good (bad : σ → Prop) : Outcome σ ε α → Prop
  | .ok _ s => ¬bad s
  | .thrown _ s => ¬bad s
  | _ => False

/-- A decoder that leaves a bad state bad, if it ends. -/
def Spoils (bad : σ → Prop) (m : Decoder σ ε α) : Prop := ∀ s, bad s → ¬Good bad (m s)

/-- Two decoders that leave bad states bad and that do the same where one of them does well and
the first one has enough fuel. -/
structure Approximates (bad : σ → Prop) (m m' : Decoder σ ε α) : Prop where
  /-- They do the same where one of them does well and the first one has enough fuel. -/
  agrees : ∀ s, m s ≠ .timeout → Good bad (m s) ∨ Good bad (m' s) → m' s = m s
  /-- The first one leaves bad states bad. -/
  left : Spoils bad m
  /-- The second one leaves bad states bad. -/
  right : Spoils bad m'

namespace Approximates

/-- A decoder that asks for no fuel and has no guard approximates itself. -/
theorem refl {m : Decoder σ ε α} (h : Spoils bad m) : Approximates bad m m :=
  ⟨fun _ _ _ => rfl, h, h⟩

theorem pure (v : α) : Approximates bad (Pure.pure v : Decoder σ ε α) (Pure.pure v) :=
  refl fun _ hs hgood => hgood hs

theorem throw (e : ε) : Approximates bad (throw e : Decoder σ ε α) (throw e) :=
  refl fun _ hs hgood => hgood hs

theorem ask (f : σ → α) : Approximates bad (ask f : Decoder σ ε α) (ask f) :=
  refl fun _ hs hgood => hgood hs

/-- Without fuel nothing is said, so any decoder is approximated. -/
theorem exhausted {m : Decoder σ ε α} (h : Spoils bad m) : Approximates bad exhausted m :=
  ⟨fun _ hs => absurd rfl hs, fun _ _ hgood => hgood, h⟩

/-- A guard may refuse where the other decoder does not do well. -/
theorem refuse {m : Decoder σ ε α} (h : ∀ s, ¬Good bad (m s)) : Approximates bad refuse m := by
  refine ⟨?_, fun _ _ hgood => hgood, fun s _ => h s⟩
  rintro s - (hgood | hgood)
  · exact hgood.elim
  · exact absurd hgood (h s)

/-- What is read first has gone well, if everything has. -/
private theorem good_of_bind {m : Decoder σ ε α} {f : α → Decoder σ ε β} {s : σ}
    (hf : ∀ v, Spoils bad (f v)) (h : Good bad ((m >>= f) s)) : Good bad (m s) := by
  cases hm : m s with
  | ok v s' =>
    rw [bind_of_ok hm] at h
    exact fun hbad => hf v s' hbad h
  | thrown e s' =>
    rw [bind_of_thrown hm] at h
    exact h
  | fault =>
    rw [bind_of_fault hm] at h
    exact h
  | refused =>
    rw [bind_of_refused hm] at h
    exact h
  | timeout =>
    rw [bind_of_timeout hm] at h
    exact h

/-- One after the other: if both parts are approximated, so is the whole. -/
theorem bind {m m' : Decoder σ ε α} {f f' : α → Decoder σ ε β} (h : Approximates bad m m')
    (hf : ∀ v, Approximates bad (f v) (f' v)) : Approximates bad (m >>= f) (m' >>= f') := by
  have hleft : ∀ v, Spoils bad (f v) := fun v => (hf v).left
  have hright : ∀ v, Spoils bad (f' v) := fun v => (hf v).right
  refine ⟨?_, fun s hs hgood => h.left s hs (good_of_bind hleft hgood),
    fun s hs hgood => h.right s hs (good_of_bind hright hgood)⟩
  intro s hfuel hgood
  have hfuel' : m s ≠ .timeout := fun hm => hfuel (bind_of_timeout hm)
  have hsame := h.agrees s hfuel' (hgood.imp (good_of_bind hleft) (good_of_bind hright))
  cases hm : m s with
  | ok v s' =>
    rw [hm] at hsame
    rw [bind_of_ok hm] at hfuel hgood ⊢
    rw [bind_of_ok hsame] at hgood ⊢
    exact (hf v).agrees s' hfuel hgood
  | thrown e s' =>
    rw [hm] at hsame
    rw [bind_of_thrown hm, bind_of_thrown hsame]
  | fault =>
    rw [hm] at hsame
    rw [bind_of_fault hm, bind_of_fault hsame]
  | refused =>
    rw [hm] at hsame
    rw [bind_of_refused hm, bind_of_refused hsame]
  | timeout => exact absurd hm hfuel'

/-- An attempt goes well if what is attempted does. -/
private theorem good_attempt {m : Decoder σ ε α} {v : α} {s : σ} :
    Good bad (attempt m v s) ↔ Good bad (m s) := by
  rw [attempt]
  cases m s <;> exact Iff.rfl

/-- Attempts are approximated if what is attempted is: an exception is caught in both. -/
theorem attempt {m m' : Decoder σ ε α} (h : Approximates bad m m') (v : α) :
    Approximates bad (Decoding.attempt m v) (Decoding.attempt m' v) := by
  refine ⟨?_, fun s hs hgood => h.left s hs (good_attempt.mp hgood),
    fun s hs hgood => h.right s hs (good_attempt.mp hgood)⟩
  intro s hfuel hgood
  have hfuel' : m s ≠ .timeout := by
    intro hm
    rw [Decoding.attempt, hm] at hfuel
    exact hfuel rfl
  have hsame := h.agrees s hfuel' (hgood.imp good_attempt.mp good_attempt.mp)
  rw [Decoding.attempt, Decoding.attempt, hsame]

/-- Both decide alike, so the two branches can be compared one by one. -/
theorem ite {c : Prop} [Decidable c] {m m' n n' : Decoder σ ε α} (h : Approximates bad m m')
    (h' : Approximates bad n n') :
    Approximates bad (if c then m else n) (if c then m' else n') := by
  split
  · exact h
  · exact h'

/-- A loop with fewer rounds approximates one with more, if one more round of both does. -/
theorem rounds {ι : Type} {loop loop' : Nat → ι → Decoder σ ε α}
    (hzero : ∀ i, loop 0 i = Decoding.exhausted) (hzero' : ∀ i, loop' 0 i = Decoding.exhausted)
    (hstep : ∀ n n', n ≤ n' → (∀ i, Approximates bad (loop n i) (loop' n' i)) →
      ∀ i, Approximates bad (loop (n + 1) i) (loop' (n' + 1) i)) {n n' : Nat} (h : n ≤ n') (i : ι) :
    Approximates bad (loop n i) (loop' n' i) := by
  induction n' generalizing n i with
  | zero =>
    obtain rfl : n = 0 := Nat.le_zero.mp h
    rw [hzero, hzero']
    exact refl fun _ _ hgood => hgood
  | succ n' ih =>
    cases n with
    | zero =>
      rw [hzero]
      exact exhausted (hstep n' n' (Nat.le_refl n') (fun i => ih (Nat.le_refl n') i) i).right
    | succ n =>
      have hn := Nat.le_of_succ_le_succ h
      exact hstep n n' hn (fun i => ih hn i) i

end Approximates

end Approximation

/-! ### Decoders that end -/

section Halts

variable {σ : Type u} {ε : Type v} {α β : Type w}

/-- From this state the decoder ends: with a value that satisfies `Q`, with an exception in a
state that satisfies `E`, or by a guard. -/
def Halts (m : Decoder σ ε α) (s : σ) (Q : α → σ → Prop) (E : σ → Prop) : Prop :=
  match m s with
  | .ok v s' => Q v s'
  | .thrown _ s' => E s'
  | .refused => True
  | _ => False

namespace Halts

variable {m : Decoder σ ε α} {f : α → Decoder σ ε β} {s : σ} {Q Q' : α → σ → Prop}
  {R : β → σ → Prop} {E E' : σ → Prop}

/-- Consequence: what holds afterwards may be weakened, both behind a value and behind an exception.
-/
theorem mono (h : Halts m s Q E) (hQ : ∀ v s', Q v s' → Q' v s') (hE : ∀ s', E s' → E' s') :
    Halts m s Q' E' := by
  rw [Halts] at h ⊢
  cases hm : m s with
  | ok v s' =>
    rw [hm] at h
    exact hQ v s' h
  | thrown e s' =>
    rw [hm] at h
    exact hE s' h
  | _ =>
    rw [hm] at h
    exact h

theorem pure {v : α} (h : Q v s) : Halts (Pure.pure v : Decoder σ ε α) s Q E := h

theorem throw {e : ε} (h : E s) : Halts (throw e : Decoder σ ε α) s Q E := h

theorem refuse : Halts (refuse : Decoder σ ε α) s Q E := trivial

theorem ask {f : σ → α} (h : Q (f s) s) : Halts (ask f : Decoder σ ε α) s Q E := h

/-- One after the other: the second decoder halts in every state that the first may leave. -/
theorem bind (h : Halts m s Q E) (hf : ∀ v s', Q v s' → Halts (f v) s' R E) :
    Halts (m >>= f) s R E := by
  rw [Halts] at h ⊢
  cases hm : m s with
  | ok v s' =>
    rw [hm] at h
    rw [bind_of_ok hm]
    exact hf v s' h
  | thrown e s' =>
    rw [hm] at h
    rw [bind_of_thrown hm]
    exact h
  | fault =>
    rw [hm] at h
    exact h.elim
  | refused => rw [bind_of_refused hm]; trivial
  | timeout =>
    rw [hm] at h
    exact h.elim

/-- An attempt ends with a value, also where the decoder throws. -/
theorem attempt {w : α} (h : Halts m s Q E) (hE : ∀ s', E s' → Q w s') :
    Halts (Decoding.attempt m w) s Q E' := by
  rw [Halts] at h ⊢
  rw [Decoding.attempt]
  cases hm : m s with
  | thrown e s' =>
    rw [hm] at h
    exact hE s' h
  | _ =>
    rw [hm] at h
    exact h

end Halts

end Halts

/-! ### Values of decoders -/

section Values

variable {σ : Type u} {ε : Type v} {α β : Type w}

/-- From this state the decoder does not deliver a value. -/
def Fails (m : Decoder σ ε α) (s : σ) : Prop := ∀ v s', m s ≠ .ok v s'

/-- The values that the decoder delivers have a property. -/
def Yields (m : Decoder σ ε α) (P : α → Prop) : Prop := ∀ s v s', m s = .ok v s' → P v

variable {m : Decoder σ ε α} {f : α → Decoder σ ε β} {s s' : σ} {v : α} {w : β}

/-- Both decoders deliver a value, if both together do. -/
theorem bind_eq_ok_iff :
    (m >>= f) s = .ok w s' ↔ ∃ v t, m s = .ok v t ∧ f v t = .ok w s' := by
  constructor
  · intro h
    cases hm : m s with
    | ok v t =>
      rw [bind_of_ok hm] at h
      exact ⟨v, t, rfl, h⟩
    | thrown e t => simp [bind_of_thrown hm] at h
    | fault => simp [bind_of_fault hm] at h
    | refused => simp [bind_of_refused hm] at h
    | timeout => simp [bind_of_timeout hm] at h
  · rintro ⟨v, t, hm, hf⟩
    rw [bind_of_ok hm, hf]

namespace Fails

theorem throw {e : ε} : Fails (throw e : Decoder σ ε α) s := nofun

/-- The first decoder fails, so the second does not start. -/
theorem bind (h : Fails m s) : Fails (m >>= f) s := by
  intro w s' hok
  obtain ⟨v, t, hm, -⟩ := bind_eq_ok_iff.mp hok
  exact h v t hm

/-- The second decoder fails where the first has left it. -/
theorem bind_of_ok {t : σ} (hm : m s = .ok v t) (h : Fails (f v) t) : Fails (m >>= f) s := by
  intro w s' hok
  rw [Decoding.bind_of_ok hm] at hok
  exact h w s' hok

end Fails

namespace Yields

variable {P Q : α → Prop} {R : β → Prop}

theorem trivial : Yields m fun _ => True := fun _ _ _ _ => True.intro

theorem pure (h : P v) : Yields (Pure.pure v : Decoder σ ε α) P := by
  intro s w s' hok
  obtain ⟨rfl, -⟩ := Outcome.ok.inj hok
  exact h

theorem throw {e : ε} : Yields (throw e : Decoder σ ε α) P := nofun

/-- Consequence: what holds of the values may be weakened. -/
theorem mono (h : Yields m P) (hPQ : ∀ v, P v → Q v) : Yields m Q :=
  fun s v s' hok => hPQ v (h s v s' hok)

/-- Two properties of the values hold together if each of them holds. -/
theorem and (hP : Yields m P) (hQ : Yields m Q) : Yields m fun v => P v ∧ Q v :=
  fun s v s' hok => ⟨hP s v s' hok, hQ s v s' hok⟩

/-- One after the other: the values are those of the second decoder. -/
theorem bind (h : Yields m P) (hf : ∀ v, P v → Yields (f v) R) : Yields (m >>= f) R := by
  intro s w s' hok
  obtain ⟨v, t, hm, hok⟩ := bind_eq_ok_iff.mp hok
  exact hf v (h s v t hm) t w s' hok

end Yields

/-! ### What decoders keep -/

/-- Whatever state the decoder ends in, with a value or with an exception, this part of it is the
same as before. -/
structure Keeps {γ : Type w} (part : σ → γ) (m : Decoder σ ε α) : Prop where
  /-- With a value. -/
  ok : ∀ s v s', m s = .ok v s' → part s' = part s
  /-- With an exception. -/
  thrown : ∀ s e s', m s = .thrown e s' → part s' = part s

namespace Keeps

variable {γ : Type w} {part : σ → γ}

theorem pure (v : α) : Keeps part (Pure.pure v : Decoder σ ε α) := by
  constructor
  · rintro s w s' ⟨⟩
    rfl
  · rintro s e s' ⟨⟩

theorem throw (e : ε) : Keeps part (throw e : Decoder σ ε α) := by
  constructor
  · rintro s v s' ⟨⟩
  · rintro s e s' ⟨⟩
    rfl

theorem ask (f : σ → α) : Keeps part (ask f : Decoder σ ε α) := by
  constructor
  · rintro s v s' ⟨⟩
    rfl
  · rintro s e s' ⟨⟩

theorem exhausted : Keeps part (exhausted : Decoder σ ε α) := by
  constructor
  · rintro s v s' ⟨⟩
  · rintro s e s' ⟨⟩

theorem refuse : Keeps part (refuse : Decoder σ ε α) := by
  constructor
  · rintro s v s' ⟨⟩
  · rintro s e s' ⟨⟩

/-- One after the other: a part that both keep is kept. -/
theorem bind (h : Keeps part m) (hf : ∀ v, Keeps part (f v)) : Keeps part (m >>= f) := by
  constructor
  · intro s w s' hok
    obtain ⟨v, t, hm, hok⟩ := bind_eq_ok_iff.mp hok
    exact ((hf v).ok t w s' hok).trans (h.ok s v t hm)
  · intro s e s' hthrown
    obtain hm | ⟨v, t, hm, hthrown⟩ := bind_eq_thrown_iff.mp hthrown
    · exact h.thrown s e s' hm
    · exact ((hf v).thrown t e s' hthrown).trans (h.ok s v t hm)

/-- An attempt keeps what the decoder keeps, also when it catches an exception. -/
theorem attempt (h : Keeps part m) (v : α) : Keeps part (attempt m v) := by
  constructor
  · intro s w s' hok
    rw [Decoding.attempt] at hok
    cases hm : m s with
    | thrown e t =>
      rw [hm] at hok
      obtain ⟨-, rfl⟩ := Outcome.ok.inj hok
      exact h.thrown s e t hm
    | ok u t =>
      rw [hm] at hok
      obtain ⟨-, rfl⟩ := Outcome.ok.inj hok
      exact h.ok s u t hm
    | fault | refused | timeout => simp [hm] at hok
  · intro s e s' hthrown
    rw [Decoding.attempt] at hthrown
    cases hm : m s <;> simp [hm] at hthrown

end Keeps

end Values

end Decoding
