import Mathlib.Data.List.TakeWhile
import Mathlib.Data.Nat.Digits.Lemmas
import Mathlib.Tactic.Ring

/-!
# C++ integers and strings

The text protocol of the client and the server is built from `std::string::find`,
`substr`, `to_string` and `atoi`. This file gives these functions on byte lists and
proves that an id that `to_string` printed is what `atoi` reads back. The last section says
what the kernel answers to a program that reads from a socket.
-/

namespace Tars

/-- The content of a `std::string` or of a byte buffer. -/
abbrev Bytes := List UInt8

/-- The bytes of a string literal of the source. -/
def bytes (s : String) : Bytes := s.toList.map (fun c => UInt8.ofNat c.toNat)

/-- The separator `':'` of the text protocol, between the id, the method and the body. -/
def colon : UInt8 := 58

/-! ### Machine integers -/

/-- Conversion of an unsigned size to `int`: the low 32 bits as a signed number. -/
def toInt32 (n : ℕ) : ℤ :=
  if n % 2 ^ 32 < 2 ^ 31 then (n % 2 ^ 32 : ℕ) else (n % 2 ^ 32 : ℕ) - 2 ^ 32

/-- Conversion of an `int` to `uint32_t`, which wraps negative numbers. -/
def toUInt32 (i : ℤ) : ℕ := (i % 2 ^ 32).toNat

/-- The difference of two `size_t` values, which wraps below zero. -/
def sizeSub (a b : ℕ) : ℕ := if b ≤ a then a - b else a + 2 ^ 64 - b

/-- A difference that is not negative does not wrap. -/
theorem sizeSub_of_le {a b : ℕ} (h : b ≤ a) : sizeSub a b = a - b := if_pos h

/-- Sizes below `2 ^ 31` survive the conversion to `int`. -/
theorem toInt32_of_lt {n : ℕ} (h : n < 2 ^ 31) : toInt32 n = n := by
  have hmod : n % 2 ^ 32 = n := Nat.mod_eq_of_lt (by omega)
  rw [toInt32, hmod, if_pos h]

/-- Sizes from `2 ^ 31` to `2 ^ 32 - 1` become negative. -/
theorem toInt32_neg {n : ℕ} (hlo : 2 ^ 31 ≤ n) (hhi : n < 2 ^ 32) : toInt32 n < 0 := by
  have hmod : n % 2 ^ 32 = n := Nat.mod_eq_of_lt hhi
  rw [toInt32, hmod, if_neg (by omega)]
  omega

/-- An `int` has a value between `-2 ^ 31` and `2 ^ 31 - 1`. -/
theorem toInt32_bounds (n : ℕ) : -2 ^ 31 ≤ toInt32 n ∧ toInt32 n < 2 ^ 31 := by
  unfold toInt32
  split <;> omega

/-- A `uint32_t` survives the way through `int`, as in the ids that are stored in one and read as
the other. -/
theorem toUInt32_toInt32 {n : ℕ} (h : n < 2 ^ 32) : toUInt32 (toInt32 n) = n := by
  unfold toUInt32 toInt32
  split <;> omega

/-! ### Searching and cutting -/

/-- `s.find(c)` for a one-character needle; `none` stands for `npos`. -/
def find (c : UInt8) (s : Bytes) : Option ℕ := s.findIdx? (· == c)

/-- `s.substr(0, pos)` for a position that `find` returned: the whole string if it found nothing. -/
def substrTo (s : Bytes) : Option ℕ → Bytes
  | none => s
  | some pos => s.take pos

/-- `s.substr(pos + 1)` for a position that `find` returned; `npos + 1` is `0`. -/
def substrAfter (s : Bytes) : Option ℕ → Bytes
  | none => s
  | some pos => s.drop (pos + 1)

/-- A needle that does not occur is not found. -/
theorem find_eq_none {c : UInt8} {s : Bytes} (h : c ∉ s) : find c s = none := by
  rw [find, List.findIdx?_eq_none_iff]
  intro x hx
  simpa using fun heq : x = c => h (heq ▸ hx)

/-- The first occurrence is behind a part without the needle. -/
theorem find_append_cons {c : UInt8} {s t : Bytes} (h : c ∉ s) :
    find c (s ++ c :: t) = some s.length := by
  have hs : s.findIdx? (· == c) = none := find_eq_none h
  simp [find, List.findIdx?_append, hs, List.findIdx?_cons]

/-- Cutting at the first separator gives the part in front of it. -/
theorem substrTo_find_append {c : UInt8} {s t : Bytes} (h : c ∉ s) :
    substrTo (s ++ c :: t) (find c (s ++ c :: t)) = s := by
  simp [find_append_cons h, substrTo]

/-- Cutting behind the first separator gives the rest, whatever separators the rest contains. -/
theorem substrAfter_find_append {c : UInt8} {s t : Bytes} (h : c ∉ s) :
    substrAfter (s ++ c :: t) (find c (s ++ c :: t)) = t := by
  rw [find_append_cons h, substrAfter, List.drop_append]
  simp

/-! ### Decimal numbers -/

/-- The character of a decimal digit, in ASCII: the digits follow each other from `'0'` on. -/
def digitByte (d : ℕ) : UInt8 := UInt8.ofNat (48 + d)

/-- `isdigit` in the C locale: the characters from `0` to `9`. -/
def isDigit (b : UInt8) : Bool := 48 ≤ b.toNat && b.toNat ≤ 57

/-- `isspace` in the C locale: a blank and the five control characters. -/
def isSpace (b : UInt8) : Bool := b == 32 || (9 ≤ b.toNat && b.toNat ≤ 13)

/-- `to_string` of a natural number: its decimal digits, and `0` for zero. -/
def natToString (n : ℕ) : Bytes :=
  if n = 0 then [digitByte 0] else ((Nat.digits 10 n).map digitByte).reverse

/-- `to_string(int)`: a minus sign for a negative number, then its digits. -/
def toString (i : ℤ) : Bytes :=
  if i < 0 then 45 :: natToString i.natAbs else natToString i.natAbs

/-- The number that the longest prefix of decimal digits denotes. -/
def leadingNumber (s : Bytes) : ℕ :=
  (s.takeWhile isDigit).foldl (fun v b => 10 * v + (b.toNat - 48)) 0

/-- `strtol` with base ten: leading blanks, an optional sign and digits, saturated
to the range of `long`. -/
def strtol (s : Bytes) : ℤ :=
  match s.dropWhile isSpace with
  | 45 :: t => max (-2 ^ 63) (-(leadingNumber t : ℤ))
  | 43 :: t => min (2 ^ 63 - 1) (leadingNumber t : ℤ)
  | t => min (2 ^ 63 - 1) (leadingNumber t : ℤ)

/-- `atoi`, which converts the result of `strtol` to `int`. -/
def atoi (s : Bytes) : ℤ := toInt32 (strtol s % 2 ^ 32).toNat

/-- A decimal digit is printed as its ASCII code. -/
theorem digitByte_toNat {d : ℕ} (h : d < 10) : (digitByte d).toNat = 48 + d := by
  rw [digitByte, UInt8.toNat_ofNat']
  exact Nat.mod_eq_of_lt (by omega)

/-- Printed digits are digits, so reading goes on over all of them. -/
theorem isDigit_digitByte {d : ℕ} (h : d < 10) : isDigit (digitByte d) = true := by
  simp only [isDigit, digitByte_toNat h, Bool.and_eq_true, decide_eq_true_eq]
  omega

/-- Every character of a printed natural number is a digit. -/
theorem natToString_isDigit {n : ℕ} {b : UInt8} (h : b ∈ natToString n) : isDigit b = true := by
  unfold natToString at h
  split at h
  · obtain rfl := List.mem_singleton.mp h
    exact isDigit_digitByte (by omega)
  · obtain ⟨d, hd, rfl⟩ := List.mem_map.mp (List.mem_reverse.mp h)
    exact isDigit_digitByte (Nat.digits_lt_base (by omega) hd)

/-- A printed number is not empty, so there is something to read back. -/
theorem natToString_ne_nil (n : ℕ) : natToString n ≠ [] := by
  unfold natToString
  split
  · simp
  · simpa [Nat.digits_eq_nil_iff_eq_zero]

private theorem foldl_digits (l : List ℕ) (h : ∀ d ∈ l, d < 10) :
    (l.map digitByte).reverse.foldl (fun v b => 10 * v + (b.toNat - 48)) 0 =
      Nat.ofDigits 10 l := by
  induction l with
  | nil => rfl
  | cons d l ih =>
    have hd : (digitByte d).toNat - 48 = d := by
      rw [digitByte_toNat (h d (by simp))]
      omega
    rw [List.map_cons, List.reverse_cons, List.foldl_append, List.foldl_cons, List.foldl_nil,
      ih fun e he => h e (List.mem_cons_of_mem _ he), hd, Nat.ofDigits_cons]
    ring

/-- Reading the digits of a printed natural number gives the number. -/
theorem leadingNumber_natToString (n : ℕ) : leadingNumber (natToString n) = n := by
  have hall : (natToString n).takeWhile isDigit = natToString n :=
    List.takeWhile_eq_self_iff.mpr fun b hb => natToString_isDigit hb
  rw [leadingNumber, hall, natToString]
  split
  · simp [digitByte_toNat, *]
  · rw [foldl_digits _ fun d hd => Nat.digits_lt_base (by omega) hd, Nat.ofDigits_digits]

private theorem natToString_cons (n : ℕ) :
    ∃ b t, natToString n = b :: t ∧ isSpace b = false ∧ b ≠ 45 ∧ b ≠ 43 := by
  obtain ⟨b, t, hbt⟩ := List.exists_cons_of_ne_nil (natToString_ne_nil n)
  have hdigit : isDigit b = true := natToString_isDigit (n := n) (hbt ▸ List.mem_cons_self)
  simp only [isDigit, Bool.and_eq_true, decide_eq_true_eq] at hdigit
  have hne {c : UInt8} (hc : c.toNat < 48) : b ≠ c := by
    rintro rfl
    omega
  refine ⟨b, t, hbt, ?_, hne (by decide), hne (by decide)⟩
  have h32 := hne (c := 32) (by decide)
  simp only [isSpace, Bool.or_eq_false_iff, beq_eq_false_iff_ne, ne_eq, h32, not_false_eq_true,
    true_and, Bool.and_eq_false_iff, decide_eq_false_iff_not]
  omega

/-- `strtol` reads a printed number back when it fits in a `long`. -/
theorem strtol_toString {i : ℤ} (hlo : -2 ^ 63 ≤ i) (hhi : i < 2 ^ 63) :
    strtol (toString i) = i := by
  obtain ⟨b, t, hbt, hspace, hminus, hplus⟩ := natToString_cons i.natAbs
  unfold toString
  by_cases hneg : i < 0
  · have hdrop : (45 :: natToString i.natAbs).dropWhile isSpace = 45 :: natToString i.natAbs := by
      rw [List.dropWhile_cons_of_neg (by decide)]
    rw [if_pos hneg, strtol, hdrop]
    simp only [leadingNumber_natToString]
    omega
  · have hdrop : (natToString i.natAbs).dropWhile isSpace = natToString i.natAbs := by
      rw [hbt, List.dropWhile_cons_of_neg (by simp [hspace])]
    rw [if_neg hneg, strtol, hdrop]
    split
    · rename_i u hu
      exact absurd (List.cons.inj (hbt.symm.trans hu)).1 hminus
    · rename_i u hu
      exact absurd (List.cons.inj (hbt.symm.trans hu)).1 hplus
    · rw [leadingNumber_natToString]
      omega

/-- **Printing and reading ids.** `atoi` recovers every `int` that `to_string` printed. -/
theorem atoi_toString {i : ℤ} (hlo : -2 ^ 31 ≤ i) (hhi : i < 2 ^ 31) : atoi (toString i) = i := by
  rw [atoi, strtol_toString (by omega) (by omega), toInt32]
  split <;> omega

/-- A printed `int` has at most ten digits and a sign. -/
theorem length_toString_le {i : ℤ} (hlo : -2 ^ 31 ≤ i) (hhi : i < 2 ^ 31) :
    (toString i).length ≤ 11 := by
  have hnat : (natToString i.natAbs).length ≤ 10 := by
    unfold natToString
    split
    · simp
    · rw [List.length_reverse, List.length_map, Nat.digits_length_le_iff (by decide)]
      omega
  unfold toString
  split
  · rw [List.length_cons]
    omega
  · omega

/-- A printed number contains no separator, so it can stand in front of one. -/
theorem colon_notMem_toString (i : ℤ) : colon ∉ toString i := by
  have hnat : colon ∉ natToString i.natAbs := fun h => absurd (natToString_isDigit h) (by decide)
  unfold toString
  split
  · simpa [colon] using hnat
  · exact hnat

/-! ### Reading from a socket -/

/-- The answer of `::read` and `::readv`: bytes, nothing yet, or an error. No bytes are the end. -/
inductive ReadResult where
  /-- These bytes are there; no byte at all means that the peer closed. -/
  | data (bs : Bytes)
  /-- It fails with `EAGAIN`. -/
  | again
  /-- It fails with another error. -/
  | error
  deriving DecidableEq

namespace ReadResult

/-- The answers to the next calls after one that did not take these bytes. -/
def leave (left : Bytes) (rest : List ReadResult) : List ReadResult :=
  if left = [] then rest else .data left :: rest

/-- The number of bytes that the answers deliver, if all of them are asked for. -/
def totalBytes (answers : List ReadResult) : ℕ :=
  (answers.map fun | .data bs => bs.length | _ => 0).sum

/-- The first answer that delivers bytes, and the rest. -/
theorem totalBytes_cons (bs : Bytes) (rest : List ReadResult) :
    totalBytes (.data bs :: rest) = bs.length + totalBytes rest := by
  simp [totalBytes]

/-- Bytes that are left by one read are delivered by a later one, so nothing of what the kernel has
is lost. -/
theorem totalBytes_leave (left : Bytes) (rest : List ReadResult) :
    totalBytes (leave left rest) = left.length + totalBytes rest := by
  unfold leave
  split
  · rename_i hempty
    simp [hempty]
  · exact totalBytes_cons left rest

end ReadResult

end Tars
