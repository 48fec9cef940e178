import Tars.Tup.Truncation
import Tars.Tup.Widening

/-!
# What the readers accept

Whatever bytes a reader accepts, what it gets from them can be written and read back: sizes fit
their fields, texts are not too long, and maps are in order. So a program that reads a message and
writes it again needs to do so once: its output stays as it is.
-/

namespace Tars

open Decoding TarsOutputStream TarsInputStream

/-! ### Values that can be stored -/

/-- A value that can be written and read back. -/
def Ty.Storable (types : Codegen) (t : Ty) (v : t.denote) : Prop :=
  t.Limited types.less (· < 2 ^ 32) v ∧ ∀ tag, ∃ bs, write t v tag = .ok bs

/-- A structure that can be written and read back. -/
def Fields.Storable (types : Codegen) (fs : Fields) (s : fs.denote) : Prop :=
  fs.Limited types.less (· < 2 ^ 32) s ∧ ∃ bs, writeTo fs s = .ok bs

/-- What the code of the reader relies on: keys are ordered, and the values that variables have
before something is read can be stored. -/
structure Codegen.Lawful (types : Codegen) : Prop where
  /-- The order of keys is transitive, so an insertion keeps the entries in order. -/
  less_trans : ∀ (t : Ty) (a b c : t.denote), types.less t a b = true → types.less t b c = true →
    types.less t a c = true
  /-- The first value of a variable. -/
  init : ∀ t : Ty, t.Storable types (types.init t)
  /-- A structure after `resetDefautlt` can be stored if it could be before. -/
  resetDefautlt : ∀ (fs : Fields) (s : fs.denote), fs.Storable types s →
    fs.Storable types (types.resetDefautlt fs s)

section Storable

variable {types : Codegen} {t k v : Ty} {fs : Fields}

/-- A loop of writes succeeds if each of them does. -/
theorem writeEach_isOk {α : Type} {write : α → Except TarsException Bytes} {xs : List α}
    (h : ∀ x ∈ xs, ∃ bs, write x = .ok bs) : ∃ bs, writeEach write xs = .ok bs := by
  have hwritten : ∀ x ∈ xs, write x = .ok (written (write x)) := by
    intro x hx
    obtain ⟨bs, hbs⟩ := h x hx
    rw [hbs, written]
  exact ⟨_, writeEach_eq hwritten⟩

/-- A vector is storable when its elements are and its length fits the 32 bits of a size. -/
theorem storable_vector {xs : List t.denote} (hlength : xs.length < 2 ^ 32)
    (h : ∀ x ∈ xs, t.Storable types x) : (Ty.vector t).Storable types xs := by
  refine ⟨⟨hlength, fun x hx => (h x hx).1⟩, fun tag => ?_⟩
  obtain ⟨bs, hbs⟩ := writeEach_isOk fun x hx => (h x hx).2 0
  rw [write, hbs]
  exact ⟨_, rfl⟩

/-- Whether a value can be written does not depend on the tag. -/
theorem write_isOk {x : t.denote} {tag : UInt8} {bs : Bytes} (h : write t x tag = .ok bs)
    (tag' : UInt8) : ∃ bs', write t x tag' = .ok bs' := by
  cases t with
  | bool | int | float | double | bytes => exact ⟨_, rfl⟩
  | string =>
    rw [write]
    obtain ⟨hlong, hmax, -⟩ | ⟨hshort, -⟩ := writeString_cases h
    · exact ⟨_, by rw [writeString, if_pos hlong, if_neg (Nat.not_lt.mpr hmax)]⟩
    · exact ⟨_, by rw [writeString, if_neg (Nat.not_lt.mpr hshort)]⟩
  | vector t =>
    rw [write] at h ⊢
    obtain ⟨elements, helements, -⟩ := bind_eq_ok h
    rw [helements]
    exact ⟨_, rfl⟩
  | map k v =>
    rw [write] at h ⊢
    obtain ⟨entries, hentries, -⟩ := bind_eq_ok h
    rw [hentries]
    exact ⟨_, rfl⟩
  | struct fs =>
    rw [write] at h ⊢
    obtain ⟨fields, hfields, -⟩ := bind_eq_ok h
    rw [hfields]
    exact ⟨_, rfl⟩

/-- The elements of a storable vector are storable, which is what the induction hypothesis for the
element type asks for. -/
theorem Ty.Storable.elements {xs : List t.denote} (h : (Ty.vector t).Storable types xs)
    {x : t.denote} (hx : x ∈ xs) : t.Storable types x := by
  obtain ⟨bs, hbs⟩ := h.2 0
  exact ⟨h.1.2 x hx, write_isOk ((write_vector_ok hbs).1 x hx)⟩

/-- The fields of a storable structure are storable together. -/
theorem Ty.Storable.fields {s : fs.denote} (h : (Ty.struct fs).Storable types s) :
    fs.Storable types s := by
  obtain ⟨bs, hbs⟩ := h.2 0
  rw [write] at hbs
  obtain ⟨fields, hfields, -⟩ := bind_eq_ok hbs
  exact ⟨h.1, fields, hfields⟩

/-- Storing a structure is storing its first field and then the others, so inductions over the
fields split here. -/
theorem storable_cons_iff {tag : UInt8} {isRequire : Bool} {x : t.denote} {xs : fs.denote} :
    (Fields.cons tag isRequire t fs).Storable types (x, xs) ↔
      t.Storable types x ∧ fs.Storable types xs := by
  constructor
  · rintro ⟨⟨hx, hxs⟩, bs, hbs⟩
    rw [TarsOutputStream.writeTo] at hbs
    obtain ⟨field, hfield, hbs⟩ := bind_eq_ok hbs
    obtain ⟨rest, hrest, -⟩ := bind_eq_ok hbs
    exact ⟨⟨hx, write_isOk hfield⟩, hxs, rest, hrest⟩
  · rintro ⟨⟨hx, hwrite⟩, hxs, rest, hrest⟩
    obtain ⟨field, hfield⟩ := hwrite tag
    refine ⟨⟨hx, hxs⟩, field ++ rest, ?_⟩
    rw [TarsOutputStream.writeTo, hfield]
    show (do let rest ← TarsOutputStream.writeTo fs xs; return field ++ rest) = _
    rw [hrest]
    rfl

/-- A map is storable when it is sorted by its keys, its size fits, and each key and value is
storable. -/
theorem storable_map {m : List (k.denote × v.denote)} (hlength : m.length < 2 ^ 32)
    (hsorted : m.Pairwise fun d e => types.less k d.1 e.1 = true)
    (h : ∀ e ∈ m, k.Storable types e.1 ∧ v.Storable types e.2) :
    (Ty.map k v).Storable types m := by
  refine ⟨⟨hlength, hsorted, fun e he => ⟨(h e he).1.1, (h e he).2.1⟩⟩, fun tag => ?_⟩
  have hentry : ∀ e ∈ m, ∃ bs, writeEntry k v e = .ok bs := by
    intro e he
    obtain ⟨key, hkey⟩ := (h e he).1.2 0
    obtain ⟨value, hvalue⟩ := (h e he).2.2 1
    rw [writeEntry, hkey]
    show ∃ bs, (do let value ← write v e.2 1; return key ++ value) = _
    rw [hvalue]
    exact ⟨_, rfl⟩
  obtain ⟨bs, hbs⟩ := writeEach_isOk hentry
  have hwrite : write (.map k v) m tag = (do
      let entries ← writeEach (writeEntry k v) m
      return writeToHead .map tag ++ writeInt32 (BitVec.ofNat 32 m.length) 0 ++ entries) := by
    rw [write]
    rfl
  rw [hwrite, hbs]
  exact ⟨_, rfl⟩

/-- A structure is storable when its fields are, since it adds only two heads to them. -/
theorem storable_struct {s : fs.denote} (h : fs.Storable types s) :
    (Ty.struct fs).Storable types s := by
  refine ⟨h.1, fun tag => ?_⟩
  obtain ⟨bs, hbs⟩ := h.2
  rw [write, hbs]
  exact ⟨_, rfl⟩

end Storable

/-! ### Readers -/

section Readers

variable {types : Codegen} {skip : HeadType → Decode Unit} {guard : Bool} {rounds fuel : ℕ}
  {α β : Type}

/-- A field is the payload that is found, or the old value. -/
theorem yields_readField_old {body : HeadType → Decode α} {P : α → Prop} {old : α}
    (hbody : ∀ type, Yields (body type) P) (hold : P old) (tag : UInt8) (isRequire : Bool) :
    Yields (readField skip rounds body old tag isRequire) P := by
  refine Yields.trivial.bind fun found _ => ?_
  cases found with
  | some type => exact hbody type
  | none =>
    cases isRequire with
    | true => exact Yields.throw
    | false => exact Yields.pure hold

/-- The elements of a vector that were read have what every element that is read has. -/
theorem yields_readEach_all {read : α → Decode α} {P : α → Prop} {xs : List α}
    (h : ∀ x ∈ xs, Yields (read x) P) : Yields (readEach read xs) fun ys => ∀ y ∈ ys, P y := by
  induction xs with
  | nil => exact Yields.pure fun y hy => absurd hy List.not_mem_nil
  | cons x xs ih =>
    refine (h x List.mem_cons_self).bind fun y hy =>
      (ih fun z hz => h z (List.mem_cons_of_mem _ hz)).bind fun ys hys => Yields.pure ?_
    intro z hz
    obtain rfl | hz := List.mem_cons.mp hz
    · exact hy
    · exact hys z hz

/-- The elements that a vector has after `resize` were there before or have their initial value. -/
theorem mem_resize {init : α} {size : ℕ} {xs : List α} {x : α}
    (h : x ∈ resize init size xs) : x ∈ xs ∨ x = init := by
  rw [resize] at h
  obtain h | h := List.mem_append.mp h
  · exact .inl (List.mem_of_mem_take h)
  · exact .inr (List.eq_of_mem_replicate h)

/-- An insertion keeps the entries in order, whether the key is new or not. -/
theorem pairwise_insert {less : α → α → Bool}
    (htrans : ∀ a b c, less a b = true → less b c = true → less a c = true) (entry : α × β)
    {m : List (α × β)} (h : m.Pairwise fun d e => less d.1 e.1 = true) :
    (TarsInputStream.insert less entry m).Pairwise fun d e => less d.1 e.1 = true := by
  induction m with
  | nil => exact List.pairwise_singleton _ _
  | cons d m ih =>
    obtain ⟨hd, hm⟩ := List.pairwise_cons.mp h
    rw [TarsInputStream.insert]
    split
    · rename_i hbefore
      refine List.pairwise_cons.mpr ⟨fun e he => ?_, ih hm⟩
      obtain rfl | he := mem_insert he
      · exact hbefore
      · exact hd e he
    split
    · rename_i hbehind
      refine List.pairwise_cons.mpr ⟨fun e he => ?_, h⟩
      obtain rfl | he := List.mem_cons.mp he
      · exact hbehind
      · exact htrans _ _ _ hbehind (hd e he)
    · exact h

/-- The entries of a map that were read are in order. -/
theorem yields_readEntries_sorted {less : α → α → Bool} {read : Decode (α × β)}
    (htrans : ∀ a b c, less a b = true → less b c = true → less a c = true) (size : ℕ) :
    ∀ m : List (α × β), m.Pairwise (fun d e => less d.1 e.1 = true) →
      Yields (readEntries less read size m) fun m' =>
        m'.Pairwise fun d e => less d.1 e.1 = true := by
  induction size with
  | zero =>
    intro m hm
    exact Yields.pure hm
  | succ size ih =>
    intro m hm
    exact Yields.trivial.bind fun pr _ => ih _ (pairwise_insert htrans pr hm)

/-- What `readTypeBuf` yields has exactly the size that was asked for. -/
theorem yields_readTypeBuf (size : ℕ) : Yields (readTypeBuf size) fun bs => bs.length = size := by
  intro r v r' hok
  obtain ⟨bs, t, hpeek, hok⟩ := bind_eq_ok_iff.mp hok
  obtain ⟨_, t', -, hok⟩ := bind_eq_ok_iff.mp hok
  obtain ⟨rfl, -⟩ := Outcome.ok.inj hok
  rw [peekTypeBuf] at hpeek
  split at hpeek
  · cases hpeek
  split at hpeek
  · obtain ⟨rfl, -⟩ := Outcome.ok.inj hpeek
    rw [List.length_take, List.length_drop]
    omega
  · cases hpeek

/-- A text that `readString` yields is no longer than `maxStringLength`, provided the old text was
not. -/
theorem yields_readString {old : Bytes} (hold : old.length ≤ maxStringLength) (tag : UInt8)
    (isRequire : Bool) :
    Yields (readString skip rounds old tag isRequire) fun s => s.length ≤ maxStringLength := by
  refine yields_readField_old (P := fun s : Bytes => s.length ≤ maxStringLength)
    (fun type => ?_) hold tag isRequire
  split
  · refine (yields_readTypeBuf 1).bind fun bs hbs => (yields_readTypeBuf _).mono fun s hs => ?_
    have hlt := LittleEndian.load_lt bs
    rw [hbs] at hlt
    have hmax : maxStringLength = 104857600 := rfl
    omega
  · refine Yields.trivial.bind fun bs _ => ?_
    dsimp only
    split
    · exact Yields.throw
    · rename_i hmax
      refine (yields_readTypeBuf _).mono fun s hs => ?_
      rw [hs]
      exact Nat.not_lt.mp hmax
  · exact Yields.throw

/-- Vectors of bytes, which may keep the old value. -/
theorem yields_readBytes_old {old : Bytes} (hold : old.length < 2 ^ 32) (tag : UInt8)
    (isRequire : Bool) :
    Yields (readBytes skip rounds old tag isRequire) fun v => v.length < 2 ^ 32 := by
  intro r v r' hok
  obtain ⟨found, t, hfound, hok⟩ := bind_eq_ok_iff.mp hok
  cases found with
  | some type =>
    refine yields_readBytes old tag r v r' (bind_eq_ok_iff.mpr ⟨some type, t, hfound, hok⟩)
  | none =>
    cases isRequire with
    | true => cases hok
    | false =>
      obtain ⟨rfl, -⟩ := Outcome.ok.inj hok
      exact hold

mutual

/-- **What a reader accepts can be stored**, and so written again: by induction over the type, with
one case for each reader. -/
theorem yields_read (h : types.Lawful) : (t : Ty) → (old : t.denote) → t.Storable types old →
    (tag : UInt8) → (isRequire : Bool) →
      Yields (read types guard fuel t old tag isRequire) (t.Storable types)
  | .bool, _, _, _, _ => Yields.trivial.mono fun _ _ => ⟨trivial, fun _ => ⟨_, rfl⟩⟩
  | .int k, _, _, _, _ => Yields.trivial.mono fun _ _ => ⟨trivial, fun _ => ⟨_, rfl⟩⟩
  | .float, _, _, _, _ => Yields.trivial.mono fun _ _ => ⟨trivial, fun _ => ⟨_, rfl⟩⟩
  | .double, _, _, _, _ => Yields.trivial.mono fun _ _ => ⟨trivial, fun _ => ⟨_, rfl⟩⟩
  | .string, old, hold, tag, isRequire => by
    have hlength {s : Bytes} : Ty.string.Storable types s ↔ s.length ≤ maxStringLength := by
      constructor
      · rintro ⟨-, hs⟩
        obtain ⟨bs, hbs⟩ := hs 0
        have hmax : maxStringLength = 104857600 := rfl
        obtain ⟨-, hle, -⟩ | ⟨hle, -⟩ := writeString_cases hbs
        · exact hle
        · omega
      · intro hs
        refine ⟨trivial, fun tag => ?_⟩
        rw [write, writeString]
        split
        · rw [if_neg (Nat.not_lt.mpr hs)]
          exact ⟨_, rfl⟩
        · exact ⟨_, rfl⟩
    exact (yields_readString (hlength.mp hold) tag isRequire).mono fun s hs => hlength.mpr hs
  | .bytes, old, hold, tag, isRequire =>
    (yields_readBytes_old hold.1 tag isRequire).mono fun _ hv => ⟨hv, fun _ => ⟨_, rfl⟩⟩
  | .vector t, old, hold, tag, isRequire => by
    refine yields_readField_old (fun type => ?_) hold tag isRequire
    split
    · refine yields_readSize.bind fun size hsize => ?_
      have heach : ∀ x ∈ resize (types.init t) size old,
          Yields (read types guard fuel t x 0 true) (t.Storable types) := by
        intro x hx
        obtain hx | rfl := mem_resize hx
        · exact yields_read h t x (hold.elements hx) 0 true
        · exact yields_read h t _ (h.init t) 0 true
      refine ((yields_readEach _).and (yields_readEach_all heach)).mono ?_
      rintro ys ⟨hlength, hall⟩
      rw [length_resize] at hlength
      exact storable_vector (by omega) hall
    · exact Yields.throw
  | .map k v, old, hold, tag, isRequire => by
    refine yields_readField_old (fun type => ?_) hold tag isRequire
    split
    · refine yields_readSize.bind fun size hsize => ?_
      have hentry : Yields (do
          let key ← read types guard fuel k (types.init k) 0 true
          let value ← read types guard fuel v (types.init v) 1 true
          Pure.pure (key, value)) fun e => k.Storable types e.1 ∧ v.Storable types e.2 :=
        (yields_read h k _ (h.init k) 0 true).bind fun key hkey =>
          (yields_read h v _ (h.init v) 1 true).bind fun value hvalue =>
            Yields.pure ⟨hkey, hvalue⟩
      refine ((yields_readEntries hentry size [] fun e he => absurd he List.not_mem_nil).and
        (yields_readEntries_sorted (h.less_trans k) size [] List.Pairwise.nil)).mono ?_
      rintro m ⟨⟨hlength, hall⟩, hpairwise⟩
      rw [List.length_nil, Nat.zero_add] at hlength
      exact storable_map (by omega) hpairwise hall
    · exact Yields.throw
  | .struct fs, old, hold, tag, isRequire => by
    refine yields_readField_old (fun type => ?_) hold tag isRequire
    split
    · exact Yields.throw
    · refine (yields_readFrom h fs _ (h.resetDefautlt fs old hold.fields)).bind fun s hs => ?_
      exact Yields.trivial.bind fun _ _ => Yields.pure (storable_struct hs)

/-- Whatever `readFrom` accepts can be stored, provided the structure read into could be: fields
that are missing keep their old values. -/
theorem yields_readFrom (h : types.Lawful) : (fs : Fields) → (olds : fs.denote) →
    fs.Storable types olds → Yields (readFrom types guard fuel fs olds) (fs.Storable types)
  | .nil, (), hold => Yields.trivial.mono fun _ _ => ⟨trivial, [], rfl⟩
  | .cons tag isRequire t fs, (old, olds), hold => by
    obtain ⟨hold, holds⟩ := storable_cons_iff.mp hold
    exact (yields_readFrom_cons (yields_read h t old hold tag isRequire)
      (yields_readFrom h fs olds holds)).mono fun s hs => storable_cons_iff.mpr hs

end

end Readers

/-! ### Relays -/

/-- **A relay changes a message at most once.** Whatever bytes a program has received, what it
reads from them can be written, and from what has been written the next reader gets the same value
and the next relay the same bytes, as long as their number fits. -/
theorem relay_normalises {types : Codegen} (h : types.Lawful) (t : Ty) (tag : UInt8) (bs : Bytes)
    (v : t.denote) (r : BufferReader)
    (hread : read types false bs.length t (types.init t) tag true (.setBuffer bs bs.length) =
      .ok v r) :
    ∃ bs', relay types tag t bs = some bs' ∧ (bs'.length < 2 ^ 63 →
      (∀ old isRequire, ∃ r', read types false bs'.length t old tag isRequire
        (.setBuffer bs' bs'.length) = .ok v r') ∧
      relay types tag t bs' = some bs') := by
  obtain ⟨hlimited, hwrite⟩ := yields_read h t _ (h.init t) tag true _ v r hread
  obtain ⟨bs', hbs'⟩ := hwrite tag
  have hrelay : relay types tag t bs = some bs' := by
    rw [relay, hread]
    show (write t v tag).toOption = some bs'
    rw [hbs']
    rfl
  refine ⟨bs', hrelay, fun hfits => ?_⟩
  obtain ⟨fuel, hfuel⟩ : ∃ fuel, bs'.length = fuel + 1 :=
    Nat.exists_eq_add_one.mpr (List.length_pos_iff.mpr (write_ne_nil hbs'))
  have hagain (old : t.denote) (isRequire : Bool) : ∃ r', read types false bs'.length t old tag
      isRequire (.setBuffer bs' bs'.length) = .ok v r' := by
    have hreads : Reads (read types false bs'.length t old tag isRequire) bs' v := by
      rw [hfuel]
      exact reads_write t v hlimited tag bs' hbs' old isRequire
    exact ⟨_, hreads.setBuffer hfits⟩
  refine ⟨hagain, ?_⟩
  obtain ⟨r', hr'⟩ := hagain (types.init t) true
  rw [relay, hr']
  show (write t v tag).toOption = some bs'
  rw [hbs']
  rfl

mutual

/-- The default value of every type can be stored, so reading may start from it. -/
theorem storable_zero : (t : Ty) → t.Storable plainTypes t.zero
  | .bool | .int _ | .float | .double => ⟨trivial, fun _ => ⟨_, rfl⟩⟩
  | .string => ⟨trivial, fun _ => ⟨_, rfl⟩⟩
  | .bytes => ⟨(by decide : 0 < 2 ^ 32), fun _ => ⟨_, rfl⟩⟩
  | .vector _ => storable_vector (by simp [Ty.zero]) fun _ hx => absurd hx List.not_mem_nil
  | .map _ _ => storable_map (by simp [Ty.zero]) List.Pairwise.nil fun _ he =>
      absurd he List.not_mem_nil
  | .struct fs => storable_struct (storable_zeroFields fs)

/-- A structure of zeros can be stored, so a reader may start from one and keep what the input does
not mention. -/
theorem storable_zeroFields : (fs : Fields) → fs.Storable plainTypes fs.zero
  | .nil => ⟨trivial, [], rfl⟩
  | .cons _ _ t fs => storable_cons_iff.mpr ⟨storable_zero t, storable_zeroFields fs⟩

end

/-- The choice for plain types is lawful, so the statements about a lawful choice are not empty. -/
theorem lawful_plainTypes : plainTypes.Lawful where
  less_trans := by
    intro t a b c hab hbc
    cases t with
    | bool =>
      revert a b c
      decide
    | int k =>
      have hab' : k.toInt a < k.toInt b := of_decide_eq_true hab
      have hbc' : k.toInt b < k.toInt c := of_decide_eq_true hbc
      exact decide_eq_true (hab'.trans hbc')
    | string =>
      have hab' : (a : Bytes) < b := of_decide_eq_true hab
      have hbc' : (b : Bytes) < c := of_decide_eq_true hbc
      exact decide_eq_true (List.lt_trans hab' hbc')
    | float | double | bytes | vector | map | struct => cases hab
  init := storable_zero
  resetDefautlt fs _ _ := storable_zeroFields fs

/-- A structure with an integer and a map, so that both a width and an order can be wrong. -/
private abbrev acceptedType : Ty :=
  .struct (.cons 1 true (.int .int32) (.cons 2 true (.map .string (.int .short)) .nil))

/-- A message that no writer produces: the integer takes more bytes than it needs, the entries of
the map are not in order, and behind them there is a field that the reader does not know. -/
private def acceptedBytes : Bytes :=
  [10, 18, 0, 0, 0, 5, 40, 0, 2, 6, 1, 98, 16, 1, 6, 1, 97, 17, 0, 2, 48, 9, 11]

/-- The first relay shortens the message, and the others leave it as it is. -/
theorem relay_normalises_sample :
    relay plainTypes 0 acceptedType acceptedBytes =
        some [10, 16, 5, 40, 0, 2, 6, 1, 97, 16, 2, 6, 1, 98, 16, 1, 11] ∧
      relay plainTypes 0 acceptedType [10, 16, 5, 40, 0, 2, 6, 1, 97, 16, 2, 6, 1, 98, 16, 1, 11] =
        some [10, 16, 5, 40, 0, 2, 6, 1, 97, 16, 2, 6, 1, 98, 16, 1, 11] := by
  have hread : read plainTypes false acceptedBytes.length acceptedType
      (plainTypes.init acceptedType) 0 true (.setBuffer acceptedBytes acceptedBytes.length) =
        .ok (5, [([97], 2), ([98], 1)], ()) ⟨acceptedBytes, 23, 23, false⟩ := by decide +kernel
  have hwrite : write acceptedType (5, [([97], 2), ([98], 1)], ()) 0 =
      .ok [10, 16, 5, 40, 0, 2, 6, 1, 97, 16, 2, 6, 1, 98, 16, 1, 11] := by decide +kernel
  obtain ⟨bs', hrelay, hagain⟩ := relay_normalises lawful_plainTypes acceptedType 0 acceptedBytes
    _ _ hread
  have hshort : relay plainTypes 0 acceptedType acceptedBytes =
      some [10, 16, 5, 40, 0, 2, 6, 1, 97, 16, 2, 6, 1, 98, 16, 1, 11] := by
    rw [relay, hread]
    show (write acceptedType (5, [([97], 2), ([98], 1)], ()) 0).toOption = _
    rw [hwrite]
    rfl
  obtain rfl := Option.some.inj (hrelay.symm.trans hshort)
  exact ⟨hshort, (hagain (by decide)).2⟩

end Tars
