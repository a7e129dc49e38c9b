import Mathlib.Algebra.Ring.Int.Defs
import Mathlib.Algebra.Ring.Nat
import Mathlib.Data.Nat.Basic
import Mathlib.Data.List.Basic

/-!
# Skynet.Lib.Endian

The bytes of a number in either order, and readings of them.
-/

namespace Endian

/-- The low `k` bytes of `n`, the lowest first. -/
def le : Nat → Nat → List UInt8
  | 0, _ => []
  | k + 1, n => UInt8.ofNat n :: le k (n / 256)

def ofLe : List UInt8 → Nat
  | [] => 0
  | b :: bs => b.toNat + 256 * ofLe bs

@[simp] theorem le_length (k n : Nat) : (le k n).length = k := by
  induction k generalizing n with
  | zero => rfl
  | succ k ih => simp [le, ih]

theorem ofLe_le (k n : Nat) : ofLe (le k n) = n % 256 ^ k := by
  induction k generalizing n with
  | zero => simp [le, ofLe, Nat.mod_one]
  | succ k ih =>
    have hb : (UInt8.ofNat n).toNat = n % 256 := UInt8.toNat_ofNat'
    rw [le, ofLe, ih, hb, Nat.pow_succ, Nat.mul_comm (256 ^ k) 256, Nat.mod_mul]

theorem ofLe_lt (bs : List UInt8) : ofLe bs < 256 ^ bs.length := by
  induction bs with
  | nil => simp [ofLe]
  | cons b bs ih =>
    have hb := b.toNat_lt
    rw [ofLe, List.length_cons, Nat.pow_succ]
    omega

/-- The bytes of the number that bytes stand for are these bytes. -/
theorem le_ofLe (bs : List UInt8) : le bs.length (ofLe bs) = bs := by
  induction bs with
  | nil => rfl
  | cons b bs ih =>
    have hb := b.toNat_lt
    have hlow : UInt8.ofNat (b.toNat + 256 * ofLe bs) = b := by
      apply UInt8.toNat_inj.mp
      rw [UInt8.toNat_ofNat']
      omega
    have hdiv : (b.toNat + 256 * ofLe bs) / 256 = ofLe bs := by omega
    rw [List.length_cons, ofLe, le, hlow, hdiv, ih]

/-- A byte of a list is a digit of the number that the list stands for. -/
theorem toNat_getD (bs : List UInt8) (n : Nat) : (bs.getD n 0).toNat = ofLe bs / 256 ^ n % 256 := by
  induction bs generalizing n with
  | nil => simp [ofLe]
  | cons b bs ih =>
    have hb := b.toNat_lt
    cases n with
    | zero =>
      rw [List.getD_cons_zero, ofLe, Nat.pow_zero, Nat.div_one]
      omega
    | succ n =>
      have hdiv : (b.toNat + 256 * ofLe bs) / 256 = ofLe bs := by omega
      rw [List.getD_cons_succ, ih, ofLe, Nat.pow_succ', ← Nat.div_div_eq_div_mul, hdiv]

/-- The bytes of a number in two parts. -/
theorem le_add (j k n : Nat) : le (j + k) n = le j n ++ le k (n / 256 ^ j) := by
  induction j generalizing n with
  | zero => simp [le]
  | succ j ih =>
    rw [Nat.succ_add, le, ih, le, List.cons_append, Nat.div_div_eq_div_mul, Nat.pow_succ, Nat.mul_comm (256 ^ j)]

theorem le_mod (k n : Nat) : le k (n % 256 ^ k) = le k n := by
  induction k generalizing n with
  | zero => rfl
  | succ k ih =>
    have hb : UInt8.ofNat (n % 256 ^ (k + 1)) = UInt8.ofNat n := by
      apply UInt8.toNat_inj.mp
      rw [UInt8.toNat_ofNat', UInt8.toNat_ofNat', Nat.pow_succ, Nat.mul_comm, Nat.mod_mul_right_mod]
    have hd : n % 256 ^ (k + 1) / 256 = n / 256 % 256 ^ k := by
      rw [Nat.pow_succ, Nat.mul_comm, Nat.mod_mul_right_div_self]
    rw [le, hb, hd, ih, le]

/-- A number below `256 ^ k` is read back from its `k` bytes. -/
theorem ofLe_le_of_lt {k n : Nat} (h : n < 256 ^ k) : ofLe (le k n) = n := by
  rw [ofLe_le, Nat.mod_eq_of_lt h]

/-- The low `k` bytes of `n`, the highest first. -/
def be (k n : Nat) : List UInt8 := (le k n).reverse

def ofBe (bs : List UInt8) : Nat := ofLe bs.reverse

@[simp] theorem be_length (k n : Nat) : (be k n).length = k := by
  rw [be, List.length_reverse, le_length]

theorem be_succ (k n : Nat) : be (k + 1) n = UInt8.ofNat (n / 256 ^ k) :: be k n := by
  rw [be, le_add, List.reverse_append]
  rfl

theorem ofBe_be (k n : Nat) : ofBe (be k n) = n % 256 ^ k := by
  rw [ofBe, be, List.reverse_reverse, ofLe_le]

theorem be_ofBe (bs : List UInt8) : be bs.length (ofBe bs) = bs := by
  rw [be, ofBe, ← List.length_reverse, le_ofLe, List.reverse_reverse]

end Endian
