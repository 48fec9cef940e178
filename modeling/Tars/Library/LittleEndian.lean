import Mathlib.Algebra.Order.Group.Nat
import Mathlib.Data.Nat.ModEq

/-!
# Numbers in memory

A number of `k` bytes is stored with its least significant byte first. Storing and loading are
inverse to each other on numbers that fit, and the change of the byte order is its own inverse.
-/

namespace LittleEndian

/-- The number that bytes stand for, the least significant one first. -/
def load : List UInt8 → ℕ
  | [] => 0
  | b :: bs => b.toNat + 256 * load bs

/-- The lowest `k` bytes of a number, the lowest one first; what is above them is lost. -/
def store : ℕ → ℕ → List UInt8
  | 0, _ => []
  | k + 1, n => UInt8.ofNat n :: store k (n / 256)

/-- A number with its `k` bytes in the opposite order. -/
def swap (k n : ℕ) : ℕ := load (store k n).reverse

@[simp] theorem length_store (k n : ℕ) : (store k n).length = k := by
  induction k generalizing n with
  | zero => rfl
  | succ k ih => rw [store, List.length_cons, ih]

/-- A loaded number fits its bytes, so storing it there loses nothing. -/
theorem load_lt (bs : List UInt8) : load bs < 256 ^ bs.length := by
  induction bs with
  | nil => exact Nat.one_pos
  | cons b bs ih =>
    have hb := b.toNat_lt
    rw [load, List.length_cons, Nat.pow_succ]
    omega

/-- Loading what was stored gives the number back, as far as it fits the bytes. -/
theorem load_store (k n : ℕ) : load (store k n) = n % 256 ^ k := by
  induction k generalizing n with
  | zero => rw [store, load, Nat.pow_zero, Nat.mod_one]
  | succ k ih =>
    rw [store, load, ih, Nat.pow_succ', Nat.mod_mul, UInt8.toNat_ofNat']

/-- Numbers that fit are told apart by their bytes. -/
theorem eq_of_store_eq {k m n : ℕ} (hm : m < 256 ^ k) (hn : n < 256 ^ k)
    (h : store k m = store k n) : m = n := by
  have hload := congrArg load h
  rwa [load_store, load_store, Nat.mod_eq_of_lt hm, Nat.mod_eq_of_lt hn] at hload

/-- Storing what was loaded gives the bytes back, so a number of `k` bytes and `k` bytes are the
same thing. -/
theorem store_load (bs : List UInt8) : store bs.length (load bs) = bs := by
  induction bs with
  | nil => rfl
  | cons b bs ih =>
    have hb := b.toNat_lt
    have hhead : UInt8.ofNat (b.toNat + 256 * load bs) = b := by
      apply UInt8.toNat_inj.mp
      rw [UInt8.toNat_ofNat']
      omega
    have htail : (b.toNat + 256 * load bs) / 256 = load bs := by omega
    rw [load, List.length_cons, store, hhead, htail, ih]

/-- The bytes of a number with its bytes in the opposite order. -/
theorem store_swap (k n : ℕ) : store k (swap k n) = (store k n).reverse := by
  have h := store_load (store k n).reverse
  rwa [List.length_reverse, length_store] at h

/-- A number with swapped bytes fits the same bytes, so it can be swapped back. -/
theorem swap_lt (k n : ℕ) : swap k n < 256 ^ k := by
  have h := load_lt (store k n).reverse
  rwa [List.length_reverse, length_store] at h

/-- The bytes of a number that is put together from two. -/
theorem store_add (k l m n : ℕ) (hm : m < 256 ^ k) :
    store (k + l) (m + 256 ^ k * n) = store k m ++ store l n := by
  induction k generalizing m with
  | zero =>
    have hzero : m = 0 := by simpa using hm
    simp [hzero, store]
  | succ k ih =>
    have hdiv : (m + 256 ^ (k + 1) * n) / 256 = m / 256 + 256 ^ k * n := by
      rw [Nat.pow_succ', Nat.mul_assoc, Nat.add_mul_div_left _ _ (by decide : 0 < 256)]
    have hbyte : UInt8.ofNat (m + 256 ^ (k + 1) * n) = UInt8.ofNat m := by
      apply UInt8.toNat_inj.mp
      rw [UInt8.toNat_ofNat', UInt8.toNat_ofNat', Nat.pow_succ', Nat.mul_assoc]
      exact Nat.add_mul_mod_self_left _ _ _
    have hlt : m / 256 < 256 ^ k := by
      rw [Nat.pow_succ] at hm
      exact Nat.div_lt_of_lt_mul (by rwa [Nat.mul_comm] at hm)
    rw [show k + 1 + l = (k + l) + 1 by omega, store, store, hdiv, hbyte, ih _ hlt,
      List.cons_append]

end LittleEndian
