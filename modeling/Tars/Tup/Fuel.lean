import Tars.Tup.Input

/-!
# Less fuel and the guard

All functions of the input stream with less fuel or with the guard approximate those with more
fuel and without it: they do the same as long as the cursor has not been moved back.
-/

namespace Tars

open LittleEndian Decoding

namespace TarsInputStream

/-- The cursor has been moved back, after which the fuel no longer bounds the run. -/
abbrev MovedBack (r : BufferReader) : Prop := r.backward = true

/-- What more fuel and no guard do not change. -/
abbrev Approx {α : Type} : Decode α → Decode α → Prop := Approximates MovedBack

/-! ### Primitives -/

theorem approx_peekTypeBuf (offset size : ℕ) :
    Approx (peekTypeBuf offset size) (peekTypeBuf offset size) := by
  refine .refl fun r hr => ?_
  rw [peekTypeBuf]
  split
  · exact fun hgood => hgood hr
  · split
    · exact fun hgood => hgood hr
    · exact fun hgood => hgood

theorem approx_peekTypeBufNoTag (offset size : ℕ) :
    Approx (peekTypeBufNoTag offset size) (peekTypeBufNoTag offset size) := by
  refine .refl fun r hr => ?_
  rw [peekTypeBufNoTag]
  split <;> exact fun hgood => hgood hr

theorem approx_readHeadSkip (len : ℕ) : Approx (readHeadSkip len) (readHeadSkip len) := by
  refine .refl fun r hr hgood => hgood ?_
  show (r.backward || _) = true
  rw [hr, Bool.true_or]

theorem approx_readTypeBuf (size : ℕ) : Approx (readTypeBuf size) (readTypeBuf size) :=
  (approx_peekTypeBuf 0 size).bind fun _ => (approx_readHeadSkip size).bind fun _ => .pure _

theorem approx_readBuf (len : ℕ) : Approx (readBuf len) (readBuf len) :=
  (Approximates.ask _).bind fun _ => (approx_readTypeBuf len).ite (.throw _)

theorem approx_peekFromHead : Approx peekFromHead peekFromHead :=
  (approx_peekTypeBuf 0 1).bind fun _ =>
    ((approx_peekTypeBuf 1 1).bind fun _ => .pure _).ite (.pure _)

theorem approx_readFromHead : Approx readFromHead readFromHead :=
  approx_peekFromHead.bind fun head => (approx_readHeadSkip head.len).bind fun _ => .pure _

theorem approx_readFromHeadNoTag : Approx readFromHeadNoTag readFromHeadNoTag :=
  (approx_peekTypeBuf 0 1).bind fun _ =>
    ((approx_peekTypeBufNoTag 1 1).bind fun _ => (approx_readHeadSkip 2).bind fun _ =>
      .pure _).ite ((approx_readHeadSkip 1).bind fun _ => .pure _)

/-! ### Fields -/

section Fields

variable {skip skip' : HeadType → Decode Unit} {n n' : ℕ}

theorem approx_skipToTagLoop (hskip : ∀ type, Approx (skip type) (skip' type)) (tag : UInt8)
    (hn : n ≤ n') : Approx (skipToTagLoop skip tag n) (skipToTagLoop skip' tag n') := by
  have hstep (m m' : ℕ) (_ : m ≤ m')
      (ih : ∀ tag, Approx (skipToTagLoop skip tag m) (skipToTagLoop skip' tag m')) (tag : UInt8) :
      Approx (skipToTagLoop skip tag (m + 1)) (skipToTagLoop skip' tag (m' + 1)) := by
    refine (Approximates.ask _).bind fun _ => (Approximates.pure _).ite ?_
    refine approx_peekFromHead.bind fun head => (Approximates.pure _).ite ?_
    refine Approximates.ite ((approx_readHeadSkip head.len).bind fun _ => .pure _) ?_
    exact (approx_readHeadSkip head.len).bind fun _ => (hskip head.type).bind fun _ => ih tag
  exact Approximates.rounds (fun _ => rfl) (fun _ => rfl) hstep hn tag

theorem approx_tarsSkipToTag (hskip : ∀ type, Approx (skip type) (skip' type)) (hn : n ≤ n')
    (tag : UInt8) : Approx (tarsSkipToTag skip n tag) (tarsSkipToTag skip' n' tag) :=
  (approx_skipToTagLoop hskip tag hn).attempt none

theorem approx_readField {α : Type} {body body' : HeadType → Decode α}
    (hskip : ∀ type, Approx (skip type) (skip' type)) (hn : n ≤ n')
    (hbody : ∀ type, Approx (body type) (body' type)) (old : α) (tag : UInt8) (isRequire : Bool) :
    Approx (readField skip n body old tag isRequire) (readField skip' n' body' old tag isRequire) :=
  (approx_tarsSkipToTag hskip hn tag).bind fun found =>
    match found with
    | some type => hbody type
    | none => Approximates.ite (.throw _) (.pure _)

/-- A payload that is read as some bytes needs no fuel of its own, so approximation holds trivially
of it. -/
private theorem approx_bytes {α : Type} (size : ℕ) (g : Bytes → Decode α)
    (hg : ∀ bs, Approx (g bs) (g bs)) :
    Approx (readTypeBuf size >>= g) (readTypeBuf size >>= g) :=
  (approx_readTypeBuf size).bind hg

theorem approx_integerBody (w : ℕ) (type : HeadType) :
    Approx (integerBody w type) (integerBody w type) := by
  cases type with
  | zeroTag => exact .pure _
  | char => exact approx_bytes 1 _ fun _ => .pure _
  | short => exact Approximates.ite (.throw _) (approx_bytes 2 _ fun _ => .pure _)
  | int32 => exact Approximates.ite (.throw _) (approx_bytes 4 _ fun _ => .pure _)
  | int64 => exact Approximates.ite (.throw _) (approx_bytes 8 _ fun _ => .pure _)
  | _ => exact .throw _

theorem approx_readInteger (hskip : ∀ type, Approx (skip type) (skip' type)) (hn : n ≤ n') {w : ℕ}
    (old : BitVec w) (tag : UInt8) (isRequire : Bool) :
    Approx (readField skip n (integerBody w) old tag isRequire)
      (readField skip' n' (integerBody w) old tag isRequire) :=
  approx_readField hskip hn (approx_integerBody w) old tag isRequire

theorem approx_readBool (hskip : ∀ type, Approx (skip type) (skip' type)) (hn : n ≤ n') (b : Bool)
    (tag : UInt8) (isRequire : Bool) :
    Approx (readBool skip n b tag isRequire) (readBool skip' n' b tag isRequire) :=
  (approx_readInteger hskip hn _ tag isRequire).bind fun _ => .pure _

theorem approx_readInt (hskip : ∀ type, Approx (skip type) (skip' type)) (hn : n ≤ n') (k : IntKind)
    (old : BitVec k.width) (tag : UInt8) (isRequire : Bool) :
    Approx (readInt skip n k old tag isRequire) (readInt skip' n' k old tag isRequire) := by
  cases k with
  | uint8 => exact (approx_readInteger hskip hn _ tag isRequire).bind fun _ => .pure _
  | uint16 => exact (approx_readInteger hskip hn _ tag isRequire).bind fun _ => .pure _
  | uint32 => exact (approx_readInteger hskip hn _ tag isRequire).bind fun _ => .pure _
  | _ => exact approx_readInteger hskip hn _ tag isRequire

theorem approx_readFloat (hskip : ∀ type, Approx (skip type) (skip' type)) (hn : n ≤ n')
    (old : BitVec 32) (tag : UInt8) (isRequire : Bool) :
    Approx (readFloat skip n old tag isRequire) (readFloat skip' n' old tag isRequire) := by
  refine approx_readField hskip hn (fun type => ?_) old tag isRequire
  cases type with
  | zeroTag => exact .pure _
  | float => exact approx_bytes 4 _ fun _ => .pure _
  | _ => exact .throw _

theorem approx_readDouble (types : Codegen) (hskip : ∀ type, Approx (skip type) (skip' type))
    (hn : n ≤ n') (old : BitVec 64) (tag : UInt8) (isRequire : Bool) :
    Approx (readDouble skip types n old tag isRequire)
      (readDouble skip' types n' old tag isRequire) := by
  refine approx_readField hskip hn (fun type => ?_) old tag isRequire
  cases type with
  | zeroTag => exact .pure _
  | float => exact approx_bytes 4 _ fun _ => .pure _
  | double => exact approx_bytes 8 _ fun _ => .pure _
  | _ => exact .throw _

theorem approx_readString (hskip : ∀ type, Approx (skip type) (skip' type)) (hn : n ≤ n')
    (old : Bytes) (tag : UInt8) (isRequire : Bool) :
    Approx (readString skip n old tag isRequire) (readString skip' n' old tag isRequire) := by
  refine approx_readField hskip hn (fun type => ?_) old tag isRequire
  cases type with
  | string1 => exact approx_bytes 1 _ fun _ => approx_readTypeBuf _
  | string4 => exact approx_bytes 4 _ fun _ => Approximates.ite (.throw _) (approx_readTypeBuf _)
  | _ => exact .throw _

theorem approx_readSize (hskip : ∀ type, Approx (skip type) (skip' type)) (hn : n ≤ n') :
    Approx (readSize skip n) (readSize skip' n') :=
  (approx_readInt hskip hn .uint32 0 0 true).bind fun _ =>
    (Approximates.ask _).bind fun _ => Approximates.ite (.throw _) (.pure _)

theorem approx_readEach {α : Type} {read read' : α → Decode α}
    (h : ∀ x, Approx (read x) (read' x)) (xs : List α) :
    Approx (readEach read xs) (readEach read' xs) := by
  induction xs with
  | nil => exact .pure _
  | cons x xs ih => exact (h x).bind fun _ => ih.bind fun _ => .pure _

theorem approx_readEntries {α β : Type} (less : α → α → Bool) {read read' : Decode (α × β)}
    (h : Approx read read') (size : ℕ) (m : List (α × β)) :
    Approx (readEntries less read size m) (readEntries less read' size m) := by
  induction size generalizing m with
  | zero => exact .pure _
  | succ size ih => exact h.bind fun _ => ih _

theorem approx_readBytes (hskip : ∀ type, Approx (skip type) (skip' type)) (hn : n ≤ n')
    (old : Bytes) (tag : UInt8) (isRequire : Bool) :
    Approx (readBytes skip n old tag isRequire) (readBytes skip' n' old tag isRequire) := by
  refine approx_readField hskip hn (fun type => ?_) old tag isRequire
  cases type with
  | simpleList =>
    refine approx_readFromHead.bind fun _ => Approximates.ite (.throw _) ?_
    exact (approx_readSize hskip hn).bind fun _ => approx_readBuf _
  | list =>
    refine (approx_readSize hskip hn).bind fun _ => approx_readEach (fun _ => ?_) _
    exact (approx_readInteger hskip hn _ 0 true).bind fun _ => .pure _
  | _ => exact .throw _

/-! ### Skipping -/

theorem approx_skipFieldHead (hskip : ∀ type, Approx (skip type) (skip' type)) :
    Approx (skipFieldHead skip) (skipFieldHead skip') :=
  approx_readFromHeadNoTag.bind hskip

theorem approx_skipEach (hskip : ∀ type, Approx (skip type) (skip' type)) (size : ℕ) :
    Approx (skipEach skip size) (skipEach skip' size) := by
  induction size with
  | zero => exact .pure _
  | succ size ih => exact (approx_skipFieldHead hskip).bind fun _ => ih

theorem approx_skipToStructEnd (hskip : ∀ type, Approx (skip type) (skip' type)) (hn : n ≤ n') :
    Approx (skipToStructEnd skip n) (skipToStructEnd skip' n') := by
  have hstep (m m' : ℕ) (_ : m ≤ m')
      (ih : ∀ _ : Unit, Approx (skipToStructEnd skip m) (skipToStructEnd skip' m')) (_ : Unit) :
      Approx (skipToStructEnd skip (m + 1)) (skipToStructEnd skip' (m' + 1)) :=
    approx_readFromHeadNoTag.bind fun type => (hskip type).bind fun _ =>
      (Approximates.pure _).ite (ih ())
  exact Approximates.rounds (fun _ => rfl) (fun _ => rfl) hstep hn ()

end Fields

section Guard

variable {guard guard' : Bool} {n n' : ℕ}

/-- A move by a negative number of bytes goes backwards, so it does not end well. -/
private theorem not_good_readHeadSkip {size : BitVec 32} (hsize : size.toInt < 0)
    (r : BufferReader) : ¬Good MovedBack (readHeadSkip (toSizeT size) r) := by
  have hlarge : 2 ^ 63 ≤ toSizeT size := by
    have hlo := size.le_toInt
    rw [toSizeT, BitVec.signExtend, BitVec.toNat_ofInt]
    omega
  intro hgood
  apply hgood
  show (r.backward || decide (2 ^ 63 ≤ toSizeT size)) = true
  rw [decide_eq_true hlarge, Bool.or_true]

theorem approx_skipField (hguard : guard' = true → guard = true) (hn : n ≤ n') (type : HeadType) :
    Approx (skipField guard n type) (skipField guard' n' type) := by
  refine Approximates.rounds (fun _ => rfl) (fun _ => rfl) ?_ hn type
  intro m m' hm ih type
  have hint : Approx (readInt32 (skipField guard m) (m + 1) 0 0 true)
      (readInt32 (skipField guard' m') (m' + 1) 0 0 true) :=
    approx_readInteger ih (Nat.succ_le_succ hm) 0 0 true
  cases type with
  | string1 => exact approx_bytes 1 _ fun _ => approx_readHeadSkip _
  | string4 => exact approx_bytes 4 _ fun _ => approx_readHeadSkip _
  | map => exact hint.bind fun _ => approx_skipEach ih _
  | list => exact hint.bind fun _ => approx_skipEach ih _
  | simpleList =>
    refine approx_readFromHead.bind fun _ => Approximates.ite (.throw _) (hint.bind fun size => ?_)
    by_cases hsize : size.toInt < 0
    · by_cases hboth : guard' = true ∧ size.toInt < 0
      · rw [if_pos hboth, if_pos ⟨hguard hboth.1, hsize⟩]
        exact .refl fun _ _ hgood => hgood
      · rw [if_neg hboth]
        split
        · exact .refuse (not_good_readHeadSkip hsize)
        · exact approx_readHeadSkip _
    · rw [if_neg fun h => hsize h.2, if_neg fun h => hsize h.2]
      exact approx_readHeadSkip _
  | structBegin => exact approx_skipToStructEnd ih (Nat.succ_le_succ hm)
  | structEnd => exact .pure _
  | zeroTag => exact .pure _
  | invalid => exact .throw _
  | _ => exact approx_readHeadSkip _

/-! ### Reading -/

theorem approx_skipToTag (hguard : guard' = true → guard = true) (hn : n ≤ n') (tag : UInt8) :
    Approx (skipToTag guard n tag) (skipToTag guard' n' tag) := by
  have hstep (m m' : ℕ) (_ : m ≤ m')
      (ih : ∀ tag, Approx (skipToLoop guard n tag m) (skipToLoop guard' n' tag m')) (tag : UInt8) :
      Approx (skipToLoop guard n tag (m + 1)) (skipToLoop guard' n' tag (m' + 1)) := by
    refine (Approximates.ask _).bind fun _ => (Approximates.pure _).ite ?_
    refine approx_peekFromHead.bind fun head => (Approximates.pure _).ite ?_
    exact (approx_readHeadSkip head.len).bind fun _ =>
      (approx_skipField hguard hn head.type).bind fun _ => ih tag
  have hloop := Approximates.rounds (fun _ => rfl) (fun _ => rfl) hstep hn tag
  exact hloop.attempt false

variable (types : Codegen)

mutual

/-- **`read` with less fuel or with the guard** does the same, as long as it does well. -/
theorem approx_read (hguard : guard' = true → guard = true) (hn : n ≤ n') :
    (t : Ty) → (old : t.denote) → (tag : UInt8) → (isRequire : Bool) →
      Approx (read types guard n t old tag isRequire) (read types guard' n' t old tag isRequire)
  | .bool, old, tag, isRequire =>
    approx_readBool (approx_skipField hguard hn) hn old tag isRequire
  | .int k, old, tag, isRequire =>
    approx_readInt (approx_skipField hguard hn) hn k old tag isRequire
  | .float, old, tag, isRequire =>
    approx_readFloat (approx_skipField hguard hn) hn old tag isRequire
  | .double, old, tag, isRequire =>
    approx_readDouble types (approx_skipField hguard hn) hn old tag isRequire
  | .string, old, tag, isRequire =>
    approx_readString (approx_skipField hguard hn) hn old tag isRequire
  | .bytes, old, tag, isRequire =>
    approx_readBytes (approx_skipField hguard hn) hn old tag isRequire
  | .vector t, old, tag, isRequire => by
    refine approx_readField (approx_skipField hguard hn) hn (fun type => ?_) old tag isRequire
    cases type with
    | list =>
      exact (approx_readSize (approx_skipField hguard hn) hn).bind fun _ =>
        approx_readEach (fun x => approx_read hguard hn t x 0 true) _
    | _ => exact .throw _
  | .map k v, old, tag, isRequire => by
    refine approx_readField (approx_skipField hguard hn) hn (fun type => ?_) old tag isRequire
    cases type with
    | map =>
      refine (approx_readSize (approx_skipField hguard hn) hn).bind fun _ =>
        approx_readEntries _ ?_ _ _
      exact (approx_read hguard hn k _ 0 true).bind fun _ =>
        (approx_read hguard hn v _ 1 true).bind fun _ => .pure _
    | _ => exact .throw _
  | .struct fs, old, tag, isRequire => by
    refine approx_readField (approx_skipField hguard hn) hn (fun type => ?_) old tag isRequire
    refine Approximates.ite (.throw _) ((approx_readFrom hguard hn fs _).bind fun _ => ?_)
    exact (approx_skipToStructEnd (approx_skipField hguard hn) hn).bind fun _ => .pure _

/-- `readFrom` with less fuel or with the guard does the same where it does well, member by member.
-/
theorem approx_readFrom (hguard : guard' = true → guard = true) (hn : n ≤ n') :
    (fs : Fields) → (old : fs.denote) →
      Approx (readFrom types guard n fs old) (readFrom types guard' n' fs old)
  | .nil, _ => .pure _
  | .cons tag isRequire t fs, (old, olds) =>
    (approx_read hguard hn t old tag isRequire).bind fun _ =>
      (approx_readFrom hguard hn fs olds).bind fun _ => .pure _

end

end Guard

end TarsInputStream

end Tars
