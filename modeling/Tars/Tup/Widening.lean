import Tars.Tup.Interchange

/-!
# Wider types

A reader whose types are wider than those of the writer gets every value, and what it writes is
again what it has read, byte for byte. A message can so pass through any number of programs that
were built with wider types.
-/

namespace Tars

open LittleEndian Decoding TarsOutputStream TarsInputStream

/-! ### Integers -/

/-- The least integer of a type, 0 for an unsigned one. -/
def IntKind.min (k : IntKind) : ℤ := if k.signed then -2 ^ (k.width - 1) else 0

/-- The greatest integer of a type, with all its bits or all but the sign. -/
def IntKind.max (k : IntKind) : ℤ := if k.signed then 2 ^ (k.width - 1) - 1 else 2 ^ k.width - 1

/-- The integers of a type are between its least and its greatest one. -/
theorem IntKind.toInt_mem (k : IntKind) (n : BitVec k.width) :
    k.min ≤ k.toInt n ∧ k.toInt n ≤ k.max := by
  have hlo := n.le_toInt
  have hhi := n.toInt_lt
  have hlt : (n.toNat : ℤ) < 2 ^ k.width := by exact_mod_cast n.isLt
  rw [min, max, toInt]
  split <;> omega

/-- An integer between the least and the greatest one of a type is the value of what is stored for
it, so that the type can take the place of any type whose bounds are within its own. -/
theorem IntKind.toInt_ofInt_of_mem {k : IntKind} {z : ℤ} (hlo : k.min ≤ z) (hhi : z ≤ k.max) :
    k.toInt (BitVec.ofInt k.width z) = z := by
  rw [min] at hlo
  rw [max] at hhi
  rw [toInt]
  split
  · rename_i hsigned
    rw [if_pos hsigned] at hlo hhi
    have hpos : 0 < k.width := by cases k <;> decide
    exact BitVec.toInt_ofInt_eq_self hpos hlo (by omega)
  · rename_i hsigned
    rw [if_neg hsigned] at hlo hhi
    obtain ⟨n, rfl⟩ := Int.eq_ofNat_of_zero_le hlo
    have hn : n < 2 ^ k.width := by
      have hn' : (n : ℤ) < (2 ^ k.width : ℕ) := by push_cast; omega
      exact_mod_cast hn'
    rw [BitVec.ofInt_natCast, BitVec.toNat_ofNat, Nat.mod_eq_of_lt hn]

/-- All integers of one type are integers of the other. -/
def IntKind.Fits (k l : IntKind) : Prop := l.min ≤ k.min ∧ k.max ≤ l.max

instance (k l : IntKind) : Decidable (k.Fits l) := inferInstanceAs (Decidable (_ ∧ _))

/-! ### Types -/

mutual

/-- The second type is at least as wide as the first one: the integers in it have all values that
those in the first one have, and everything else is alike. Keys have the same type. -/
inductive Ty.Widens : Ty → Ty → Prop where
  /-- `Bool` -/
  | bool : Ty.Widens .bool .bool
  /-- A `Bool` is written as one of the integers that all types have. -/
  | boolInt (k : IntKind) : Ty.Widens .bool (.int k)
  /-- An integer type fits another one that has all its values. -/
  | int {k l : IntKind} (h : k.Fits l) : Ty.Widens (.int k) (.int l)
  /-- `Float`. -/
  | float : Ty.Widens .float .float
  /-- `Double`. -/
  | double : Ty.Widens .double .double
  /-- `std::string`. -/
  | string : Ty.Widens .string .string
  /-- `vector<Char>`. -/
  | bytes : Ty.Widens .bytes .bytes
  /-- `vector<T>`. -/
  | vector {t u : Ty} (h : Ty.Widens t u) : Ty.Widens (.vector t) (.vector u)
  /-- `map<K, V>`. -/
  | map {k t u : Ty} (h : Ty.Widens t u) : Ty.Widens (.map k t) (.map k u)
  /-- A generated structure. -/
  | struct {fs gs : Fields} (h : Fields.Widens fs gs) : Ty.Widens (.struct fs) (.struct gs)

/-- Fields with the same tags, of which each is at least as wide. -/
inductive Fields.Widens : Fields → Fields → Prop where
  /-- No field. -/
  | nil : Fields.Widens .nil .nil
  /-- One field and the ones after it. -/
  | cons {tag : UInt8} {p q : Bool} {t u : Ty} {fs gs : Fields} (h : Ty.Widens t u)
      (hs : Fields.Widens fs gs) : Fields.Widens (.cons tag p t fs) (.cons tag q u gs)

end

/-! ### Containers -/

section Containers

variable {α β γ : Type}

/-- If everything in a list has a counterpart, the list has one, element by element. -/
theorem exists_forall₂ {P : α → β → Prop} {xs : List α} (h : ∀ x ∈ xs, ∃ y, P x y) :
    ∃ ys, List.Forall₂ P xs ys := by
  induction xs with
  | nil => exact ⟨[], .nil⟩
  | cons x xs ih =>
    obtain ⟨y, hy⟩ := h x List.mem_cons_self
    obtain ⟨ys, hys⟩ := ih fun z hz => h z (List.mem_cons_of_mem x hz)
    exact ⟨y :: ys, .cons hy hys⟩

/-- Two lists whose elements have the same bytes in pairs have the same bytes. -/
theorem flatMap_eq_of_forall₂ {f : α → Bytes} {g : β → Bytes} {xs : List α} {ys : List β}
    (h : List.Forall₂ (fun x y => g y = f x) xs ys) : ys.flatMap g = xs.flatMap f := by
  induction h with
  | nil => rfl
  | cons hxy _ ih => rw [List.flatMap_cons, List.flatMap_cons, hxy, ih]

/-- Everything in the second list belongs to something in the first one. -/
theorem exists_of_forall₂ {P : α → β → Prop} {xs : List α} {ys : List β}
    (h : List.Forall₂ P xs ys) {y : β} (hy : y ∈ ys) : ∃ x ∈ xs, P x y := by
  induction h with
  | nil => exact absurd hy List.not_mem_nil
  | @cons x _ xs _ hxy _ ih =>
    rcases List.mem_cons.mp hy with rfl | hy
    · exact ⟨x, List.mem_cons_self, hxy⟩
    · obtain ⟨x', hx', hP⟩ := ih hy
      exact ⟨x', List.mem_cons_of_mem _ hx', hP⟩

end Containers

/-! ### All types -/

/-- A value of one type that is written like a value of another type, behind any tag, and that
respects the limits of its own type. A reader of its type therefore gets it from the bytes of the
other value, by the round trip alone. -/
structure Alike (types : Codegen) (t : Ty) (v : t.denote) (u : Ty) (w : u.denote) : Prop where
  /-- The types in the heads of the two fields agree. -/
  wireType : wireType u w = wireType t v
  /-- The bytes behind the two heads agree. -/
  payload : payload u w = payload t v
  /-- The second value can be written without an error. -/
  valid : u.Valid types.less w

namespace Alike

variable {types : Codegen}

/-- Values that are written alike have the same fields. -/
theorem encode_eq {t u : Ty} {v : t.denote} {w : u.denote} (h : Alike types t v u w)
    (tag : UInt8) : encode u w tag = encode t v tag := by
  rw [encode, encode, h.wireType, h.payload]

/-- The same integer is written alike by all types that have it, truth values included: the size
of the field depends on the integer and not on the type. -/
theorem int {t : Ty} {v : t.denote} {l : IntKind} {w : BitVec l.width}
    (h : t.integer v = some (l.toInt w)) : Alike types t v (.int l) w := by
  cases t with
  | bool =>
    have hz := Option.some.inj h
    exact ⟨by rw [Tars.wireType, Tars.wireType, ← hz], by rw [Tars.payload, Tars.payload, ← hz],
      trivial⟩
  | int k =>
    have hz := Option.some.inj h
    exact ⟨by rw [Tars.wireType, Tars.wireType, ← hz], by rw [Tars.payload, Tars.payload, ← hz],
      trivial⟩
  | _ => cases h

/-- Two vectors are written alike if their elements are. -/
theorem vector {t u : Ty} {xs : List t.denote} {ys : List u.denote}
    (hv : (Ty.vector t).Valid types.less xs)
    (h : List.Forall₂ (fun x y => Alike types t x u y) xs ys) :
    Alike types (.vector t) xs (.vector u) ys := by
  have hlength := h.length_eq
  have hbytes : ys.flatMap (encode u · 0) = xs.flatMap (encode t · 0) :=
    flatMap_eq_of_forall₂ (h.imp fun _ _ hxy => hxy.encode_eq 0)
  refine ⟨rfl, ?_, ⟨hlength ▸ hv.1, fun y hy => ?_⟩⟩
  · show encodeInteger ys.length 0 ++ ys.flatMap (encode u · 0) =
      encodeInteger xs.length 0 ++ xs.flatMap (encode t · 0)
    rw [hbytes, hlength]
  · obtain ⟨x, -, hxy⟩ := exists_of_forall₂ h hy
    exact hxy.valid

/-- Two maps are written alike if they have the same keys and their values are written alike; the
keys keep the order in which the map has them. -/
theorem map {k t u : Ty} {es : List (k.denote × t.denote)} {es' : List (k.denote × u.denote)}
    (hv : (Ty.map k t).Valid types.less es)
    (h : List.Forall₂ (fun e e' => e'.1 = e.1 ∧ Alike types t e.2 u e'.2) es es') :
    Alike types (.map k t) es (.map k u) es' := by
  have hlength := h.length_eq
  have hbytes : es'.flatMap (fun e => encode k e.1 0 ++ encode u e.2 1) =
      es.flatMap fun e => encode k e.1 0 ++ encode t e.2 1 :=
    flatMap_eq_of_forall₂ (h.imp fun _ _ hee => by rw [hee.1, hee.2.encode_eq 1])
  have hkeys : es'.map Prod.fst = es.map Prod.fst := by
    have hsame : List.Forall₂ (fun x y => x = y) (es.map Prod.fst) (es'.map Prod.fst) := by
      rw [List.forall₂_map_left_iff, List.forall₂_map_right_iff]
      exact h.imp fun _ _ hee => hee.1.symm
    rw [List.forall₂_eq_eq_eq] at hsame
    exact hsame.symm
  have hsorted : es'.Pairwise fun d e => types.less k d.1 e.1 = true := by
    have hes := hv.2.1
    rw [← List.pairwise_map (f := Prod.fst) (R := fun a b => types.less k a b = true)] at hes ⊢
    rwa [hkeys]
  refine ⟨rfl, ?_, ⟨hlength ▸ hv.1, hsorted, fun e' he' => ?_⟩⟩
  · show encodeInteger es'.length 0 ++ es'.flatMap _ = encodeInteger es.length 0 ++ es.flatMap _
    rw [hlength]
    exact congrArg (_ ++ ·) hbytes
  · obtain ⟨e, he, hkey, hvalue⟩ := exists_of_forall₂ h he'
    rw [hkey]
    exact ⟨(hv.2.2 e he).1, hvalue.valid⟩

end Alike

mutual

/-- **Every value of a narrower type has a counterpart in the wider one** that is written with the
same bytes. -/
theorem Ty.Widens.alike {types : Codegen} : {t u : Ty} → Ty.Widens t u → (v : t.denote) →
    t.Valid types.less v → ∃ w, Alike types t v u w
  | _, _, .bool, v, hv => ⟨v, rfl, rfl, hv⟩
  | _, _, .float, v, hv => ⟨v, rfl, rfl, hv⟩
  | _, _, .double, v, hv => ⟨v, rfl, rfl, hv⟩
  | _, _, .string, v, hv => ⟨v, rfl, rfl, hv⟩
  | _, _, .bytes, v, hv => ⟨v, rfl, rfl, hv⟩
  | _, _, .boolInt k, v, _ => by
    have hmem : k.min ≤ (if v then 1 else 0) ∧ (if v then 1 else 0) ≤ k.max := by
      cases k <;> cases v <;> decide
    exact ⟨_, Alike.int (by rw [IntKind.toInt_ofInt_of_mem hmem.1 hmem.2]; rfl)⟩
  | _, _, @Ty.Widens.int k _ h, v, _ => by
    obtain ⟨hlo, hhi⟩ := k.toInt_mem v
    have hback := IntKind.toInt_ofInt_of_mem (h.1.trans hlo) (hhi.trans h.2)
    exact ⟨_, Alike.int (by rw [hback]; rfl)⟩
  | _, _, .vector h, xs, hv => by
    obtain ⟨ys, hys⟩ := exists_forall₂ fun x hx => h.alike x (hv.2 x hx)
    exact ⟨ys, Alike.vector hv hys⟩
  | _, _, @Ty.Widens.map k t u h, es, hv => by
    have hentry : ∀ e ∈ es, ∃ e' : k.denote × u.denote,
        e'.1 = e.1 ∧ Alike types t e.2 u e'.2 := by
      intro e he
      obtain ⟨w, hw⟩ := h.alike e.2 (hv.2.2 e he).2
      exact ⟨(e.1, w), rfl, hw⟩
    obtain ⟨es', hes'⟩ := exists_forall₂ hentry
    exact ⟨es', Alike.map hv hes'⟩
  | _, _, .struct h, s, hv => by
    obtain ⟨s', hvalid, hfields⟩ := h.alike s hv
    refine ⟨s', rfl, ?_, hvalid⟩
    rw [payload, payload, hfields]

/-- Every structure has a counterpart with wider fields that is written with the same bytes. -/
theorem Fields.Widens.alike {types : Codegen} : {fs gs : Fields} → Fields.Widens fs gs →
    (s : fs.denote) → fs.Valid types.less s →
      ∃ s', gs.Valid types.less s' ∧ encodeFields gs s' = encodeFields fs s
  | _, _, .nil, (), _ => ⟨(), trivial, rfl⟩
  | _, _, @Fields.Widens.cons tag _ _ _ _ _ _ h hs, (v, vs), ⟨hv, hvs⟩ => by
    obtain ⟨w, hw⟩ := h.alike v hv
    obtain ⟨ws, hws, hrest⟩ := hs.alike vs hvs
    refine ⟨(w, ws), ⟨hw.valid, hws⟩, ?_⟩
    rw [encodeFields, encodeFields, hw.wireType, hw.payload, hrest]

end

/-! ### Relays -/

/-- A program that reads a message with its own type and writes again what it has got. -/
def relay (types : Codegen) (tag : UInt8) (u : Ty) (bs : Bytes) : Option Bytes :=
  match read types false bs.length u (types.init u) tag true (.setBuffer bs bs.length) with
  | .ok w _ => (write u w tag).toOption
  | _ => none

/-- A relay passes on the bytes of every value of its own type: it reads the value back and what it
writes is determined by the value. -/
theorem relay_encode {types : Codegen} {u : Ty} {w : u.denote} {tag : UInt8}
    (hw : u.Valid types.less w) (hfits : (encode u w tag).length < 2 ^ 63) :
    relay types tag u (encode u w tag) = some (encode u w tag) := by
  have hpos : 0 < (encode u w tag).length := List.length_pos_of_ne_nil (encode_ne_nil u w tag)
  obtain ⟨fuel, hfuel⟩ : ∃ n, (encode u w tag).length = n + 1 :=
    ⟨(encode u w tag).length - 1, by omega⟩
  have hreads : Reads (read types false (encode u w tag).length u (types.init u) tag true)
      (encode u w tag) w := by
    rw [hfuel]
    exact reads_read u w hw (types.init u) tag true
  rw [relay, hreads.setBuffer hfits]
  show (write u w tag).toOption = _
  rw [write_eq u w tag hw]
  rfl

/-- **Relays with wider and wider types pass a message on unchanged**, however many there are. The
value is one that the first program can write, and the message fits a buffer. -/
theorem relays_eq (types : Codegen) (t : Ty) (us : List Ty) (hus : (t :: us).IsChain Ty.Widens)
    (v : t.denote) (hv : t.Valid types.less v) (tag : UInt8) :
    ∃ bs, write t v tag = .ok bs ∧
      (bs.length < 2 ^ 63 → us.foldlM (fun bs u => relay types tag u bs) bs = some bs) := by
  refine ⟨encode t v tag, write_eq t v tag hv, ?_⟩
  intro hfits
  -- The next relay has the counterpart of the value, whose bytes are those of the message.
  induction us generalizing t with
  | nil => rfl
  | cons u us ih =>
    obtain ⟨hwidens, hus⟩ := List.isChain_cons_cons.mp hus
    obtain ⟨w, hw⟩ := hwidens.alike v hv
    have hbytes : encode t v tag = encode u w tag := (hw.encode_eq tag).symm
    rw [hbytes] at hfits ⊢
    rw [List.foldlM_cons, relay_encode hw.valid hfits]
    exact ih u hus w hw.valid hfits

/-- A structure with a vector of integers and a map to other integers. -/
private abbrev relayedType (k l : IntKind) : Ty :=
  .struct (.cons 1 true (.vector (.int k)) (.cons 2 true (.map .string (.int l)) .nil))

/-- A message passes through programs with two wider types. -/
theorem relays_eq_sample :
    ∃ bs, write (relayedType .short .uint8) ([1, -300], [([97], 200)], ()) 7 = .ok bs ∧
      bs.length = 19 ∧
      [relayedType .int32 .short, relayedType .int64 .int32].foldlM
        (fun bs u => relay plainTypes 7 u bs) bs = some bs := by
  have hwidens {k k' l l' : IntKind} (hk : k.Fits k') (hl : l.Fits l') :
      (relayedType k l).Widens (relayedType k' l') :=
    .struct (.cons (.vector (.int hk)) (.cons (.map (.int hl)) .nil))
  have hchain : [relayedType .short .uint8, relayedType .int32 .short,
      relayedType .int64 .int32].IsChain Ty.Widens :=
    .cons_cons (hwidens (by decide) (by decide))
      (.cons_cons (hwidens (by decide) (by decide)) (.singleton _))
  have hentries : ∀ e ∈ [(([97] : Bytes), (200 : BitVec 8))],
      Ty.string.Valid plainTypes.less e.1 ∧ (Ty.int .uint8).Valid plainTypes.less e.2 := by
    intro e he
    obtain rfl := List.mem_singleton.mp he
    simp [Ty.Valid, maxStringLength]
  have hvalid : (relayedType .short .uint8).Valid plainTypes.less
      ([1, -300], [([97], 200)], ()) :=
    ⟨⟨by simp, fun _ _ => trivial⟩, ⟨by simp, List.pairwise_singleton _ _, hentries⟩, trivial⟩
  obtain ⟨bs, hbs, hrelays⟩ := relays_eq plainTypes (relayedType .short .uint8)
    [relayedType .int32 .short, relayedType .int64 .int32] hchain
    ([1, -300], [([97], 200)], ()) hvalid 7
  have hlength : bs.length = 19 := by
    rw [write_eq _ _ 7 hvalid] at hbs
    rw [← Except.ok.inj hbs]
    decide
  exact ⟨bs, hbs, hlength, hrelays (by omega)⟩

end Tars
