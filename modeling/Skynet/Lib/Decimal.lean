import Mathlib.Algebra.Ring.Int.Defs
import Mathlib.Algebra.Ring.Nat
import Mathlib.Data.Nat.Basic
import Mathlib.Data.List.TakeWhile

/-!
# Skynet.Lib.Decimal

Numbers as text, as the C library reads and prints them.

* `strtol` : `strtol` with the base 10.
* `decimal` : `sprintf` with `%d` or `%u`.
* `strtol_decimal` : what was printed is read back.
-/

namespace Decimal

def isSpace (b : UInt8) : Bool := b = 32 ∨ 9 ≤ b ∧ b ≤ 13

def digit (b : UInt8) : Nat :=
  if 48 ≤ b ∧ b ≤ 57 then b.toNat - 48
  else if 97 ≤ b ∧ b ≤ 122 then b.toNat - 87
  else if 65 ≤ b ∧ b ≤ 90 then b.toNat - 55
  else 36

def digits (base : Nat) (s : List UInt8) : Nat :=
  (s.takeWhile fun b => digit b < base).foldl (fun n b => n * base + digit b) 0

/-- The sign, and the text behind it. -/
def sign : List UInt8 → Bool × List UInt8
  | 45 :: s => (true, s)
  | 43 :: s => (false, s)
  | s => (false, s)

def strtol (s : List UInt8) : Int :=
  let (negative, s) := sign (s.dropWhile isSpace)
  if negative then max (-(digits 10 s : Int)) (-2 ^ 63) else min (digits 10 s : Int) (2 ^ 63 - 1)

theorem strtol_le (s : List UInt8) : strtol s ≤ 2 ^ 63 - 1 := by
  unfold strtol
  generalize sign (s.dropWhile isSpace) = p
  obtain ⟨negative, s⟩ := p
  cases negative with
  | true => simp only [if_true]; omega
  | false => simp only [Bool.false_eq_true, if_false]; omega

def decimal (n : Nat) : List UInt8 := (Nat.toDigits 10 n).map fun c => UInt8.ofNat c.toNat

/-! ### Reading what was printed -/

/-- A byte that stands for a digit. -/
def IsDigit (b : UInt8) : Prop := 48 ≤ b.toNat ∧ b.toNat ≤ 57

theorem IsDigit.digit_eq {b : UInt8} (h : IsDigit b) : digit b = b.toNat - 48 := by
  unfold digit
  rw [if_pos ⟨UInt8.le_iff_toNat_le.mpr h.1, UInt8.le_iff_toNat_le.mpr h.2⟩]

theorem IsDigit.not_isSpace {b : UInt8} (h : IsDigit b) : isSpace b = false := by
  have h32 : b ≠ 32 := by
    rintro rfl
    exact absurd h.1 (by decide)
  have h13 : ¬ b ≤ 13 := by
    rw [UInt8.le_iff_toNat_le]
    exact fun hle => absurd (Nat.le_trans h.1 hle) (by decide)
  simp [isSpace, h32, h13]

theorem isDigit_of_char {c : Char} (h : c.isDigit) : (UInt8.ofNat c.toNat).toNat = c.toNat ∧ IsDigit
    (UInt8.ofNat c.toNat) := by
  obtain ⟨h48, h57⟩ : 48 ≤ c.toNat ∧ c.toNat ≤ 57 := Char.isDigit_iff_toNat.mp h
  have hto : (UInt8.ofNat c.toNat).toNat = c.toNat := by
    rw [UInt8.toNat_ofNat', Nat.mod_eq_of_lt (by omega)]
  exact ⟨hto, by rw [hto]; exact h48, by rw [hto]; exact h57⟩

theorem isDigit_of_mem {n : Nat} {b : UInt8} (h : b ∈ decimal n) : IsDigit b := by
  obtain ⟨c, hc, rfl⟩ := List.mem_map.mp h
  exact (isDigit_of_char (Nat.isDigit_of_mem_toDigits (by decide) (by decide) hc)).2

theorem decimal_ne_nil (n : Nat) : decimal n ≠ [] := by
  simp [decimal, Nat.toDigits_ne_nil]

/-- No NUL is printed. -/
theorem zero_not_mem_decimal (n : Nat) : (0 : UInt8) ∉ decimal n := by
  intro h
  exact absurd (isDigit_of_mem h).1 (by decide)

theorem foldl_digit {cs : List Char} (h : ∀ c ∈ cs, c.isDigit) (n : Nat) :
    (cs.map fun c => UInt8.ofNat c.toNat).foldl (fun n b => n * 10 + digit b) n = Nat.ofDigitChars 10 cs n := by
  induction cs generalizing n with
  | nil => rfl
  | cons c cs ih =>
    obtain ⟨hto, hdigit⟩ := isDigit_of_char (h c List.mem_cons_self)
    rw [List.map_cons, List.foldl_cons, ih fun c hc => h c (List.mem_cons_of_mem _ hc), hdigit.digit_eq, hto]
    simp [Nat.ofDigitChars_cons, Nat.mul_comm]

theorem digits_decimal (n : Nat) : digits 10 (decimal n) = n := by
  have htake : (decimal n).takeWhile (fun b => decide (digit b < 10)) = decimal n := by
    rw [List.takeWhile_eq_self_iff]
    intro b hb
    have hdigit := isDigit_of_mem hb
    rw [hdigit.digit_eq, decide_eq_true_eq]
    have := hdigit.2
    omega
  rw [digits, htake, decimal, foldl_digit fun c hc => Nat.isDigit_of_mem_toDigits (by decide) (by decide) hc]
  exact Nat.ofDigitChars_ten_toDigits

/-- In front of a digit there is neither a blank nor a sign. -/
theorem sign_decimal (n : Nat) : sign ((decimal n).dropWhile isSpace) = (false, decimal n) := by
  have hdigit : ∀ b ∈ decimal n, IsDigit b := fun b hb => isDigit_of_mem hb
  cases hn : decimal n with
  | nil => exact absurd hn (decimal_ne_nil n)
  | cons b bs =>
    have hb : IsDigit b := hdigit b (by rw [hn]; exact List.mem_cons_self)
    rw [List.dropWhile_cons_of_neg (by rw [hb.not_isSpace]; decide)]
    unfold sign
    split
    · rename_i heq
      cases heq
      exact absurd hb.1 (by decide)
    · rename_i heq
      cases heq
      exact absurd hb.1 (by decide)
    · rfl

theorem strtol_decimal {n : Nat} (h : n < 2 ^ 63) : strtol (decimal n) = n := by
  unfold strtol
  rw [sign_decimal]
  simp only [digits_decimal, Bool.false_eq_true, if_false]
  omega

end Decimal
