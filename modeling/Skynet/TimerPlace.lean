import Skynet.Timer
import Mathlib.Tactic.NormNum
import Mathlib.Tactic.SplitIfs

/-!
# Skynet.TimerPlace

The arithmetic of the wheel. `placeOf` and `shiftLoop` are put in terms of quotients, and
`place_shift` is the fact the wheel rests on: when the clock moves on by one, `add_node` would put
a pending node where it put it before, unless the node is in the one list that `timer_shift` moves.
-/

namespace Skynet
namespace Timers

theorem or_low_bits (x k : Nat) : x ||| (2 ^ k - 1) = 2 ^ k * (x / 2 ^ k) + (2 ^ k - 1) := by
  apply Nat.eq_of_testBit_eq
  intro i
  have hlt : 2 ^ k - 1 < 2 ^ k := Nat.sub_lt (Nat.two_pow_pos k) (by decide)
  rw [Nat.testBit_or, Nat.testBit_two_pow_mul_add _ hlt, Nat.testBit_two_pow_sub_one, Nat.testBit_div_two_pow]
  by_cases h : i < k
  · simp [h]
  · simp [h, Nat.sub_add_cancel (Nat.le_of_not_lt h)]

theorem or_low_bits_eq (x y k : Nat) :
    (x ||| (2 ^ k - 1) = y ||| (2 ^ k - 1)) ↔ x / 2 ^ k = y / 2 ^ k := by
  rw [or_low_bits, or_low_bits]
  constructor
  · intro h
    exact Nat.eq_of_mul_eq_mul_left (Nat.two_pow_pos k) (Nat.add_right_cancel h)
  · intro h; rw [h]

/-- The list among the top `n + 1` levels, from level `l` on, of a node whose remaining digits are
`a` when those of the clock are `b`: the first level below which the two agree. -/
def upper : Nat → Nat → Nat → Nat → ListRef
  | 0, l, a, _ => .t l (a % 64)
  | n + 1, l, a, b => if a / 64 = b / 64 then .t l (a % 64) else upper n (l + 1) (a / 64) (b / 64)

/-- The list of a node that expires at `e` when the clock is `c`, by digits. -/
def place (e c : Nat) : ListRef :=
  if e / 256 = c / 256 then .near (e % 256) else upper 3 0 (e / 256) (c / 256)

theorem placeOf_eq (e c : Nat) : placeOf e c = place e c := by
  have h8 := or_low_bits_eq e c 8
  have h14 := or_low_bits_eq e c 14
  have h20 := or_low_bits_eq e c 20
  have h26 := or_low_bits_eq e c 26
  have near : e &&& 255 = e % 256 := Nat.and_two_pow_sub_one_eq_mod e 8
  have level : ∀ x, x &&& 63 = x % 64 := fun x => Nat.and_two_pow_sub_one_eq_mod x 6
  norm_num at h8 h14 h20 h26
  simp only [placeOf, levelLoop, place, upper, timeNearMask, timeNear, timeNearShift, timeLevelShift,
    timeLevelMask, timeLevel, Nat.shiftLeft_eq, Nat.shiftRight_eq_div_pow]
  norm_num [h8, h14, h20, h26, near, level, Nat.div_div_eq_div_mul]
  split_ifs <;> simp

/-- The list moved when the digits of the clock from level `l` on become `b`: that of the lowest
digit that is not 0. -/
def moved : Nat → Nat → Nat → Nat × Nat
  | 0, l, b => (l, b % 64)
  | n + 1, l, b => if b % 64 ≠ 0 then (l, b % 64) else moved n (l + 1) (b / 64)

theorem shiftLoop_eq {c : Nat} (h0 : c ≠ 0) (hc : c < 2 ^ 32) :
    shiftLoop c 4 0 timeNear (c >>> timeNearShift) =
      if c % 256 = 0 then some (moved 3 0 (c / 256)) else none := by
  have low : ∀ x k, x &&& (2 ^ k - 1) = x % 2 ^ k := Nat.and_two_pow_sub_one_eq_mod
  have h8 := low c 8
  have h14 := low c 14
  have h20 := low c 20
  have h26 := low c 26
  have level : ∀ x, x &&& 63 = x % 64 := fun x => low x 6
  norm_num at h8 h14 h20 h26 hc
  simp only [shiftLoop, moved, timeNear, timeNearShift, timeLevelShift, timeLevelMask, timeLevel,
    Nat.shiftLeft_eq, Nat.shiftRight_eq_div_pow]
  norm_num [h8, h14, h20, h26, level, Nat.div_div_eq_div_mul]
  split_ifs <;> first | rfl | omega

/-- When the clock moves on from `b` to `b + 1`, a node whose list changes is in the list that is
moved. The induction follows the carry: it goes on to the next digit exactly when the current
one becomes 0. -/
theorem upper_moved : ∀ (n l a b : Nat), a ≠ b → (b < a ∨ a / 64 ^ n < b / 64 ^ n) →
    (a = b + 1 ∨ upper n l a (b + 1) ≠ upper n l a b) →
    upper n l a b = .t (moved n l (b + 1)).1 (moved n l (b + 1)).2 := by
  intro n
  induction n with
  | zero =>
    intro l a b _ _ h
    rcases h with rfl | h
    · rfl
    · exact absurd rfl h
  | succ n ih =>
    intro l a b hab hord h
    by_cases hcarry : (b + 1) % 64 = 0
    · have hb : (b + 1) / 64 = b / 64 + 1 := by omega
      have hord' : b / 64 < a / 64 ∨ a / 64 / 64 ^ n < b / 64 / 64 ^ n := by
        rcases hord with h | h
        · left; omega
        · right
          rwa [Nat.pow_succ', ← Nat.div_div_eq_div_mul, ← Nat.div_div_eq_div_mul] at h
      have hne : a / 64 ≠ b / 64 := by
        rcases hord' with h | h
        · omega
        · intro he; rw [he] at h; exact Nat.lt_irrefl _ h
      have hup : upper (n + 1) l a b = upper n (l + 1) (a / 64) (b / 64) := by
        simp only [upper, if_neg hne]
      have hmv : moved (n + 1) l (b + 1) = moved n (l + 1) (b / 64 + 1) := by
        simp only [moved, hcarry, ne_eq, not_true, if_false, hb]
      rw [hup, hmv]
      refine ih (l + 1) (a / 64) (b / 64) hne hord' ?_
      by_cases hk : a / 64 = b / 64 + 1
      · exact .inl hk
      · rcases h with rfl | h
        · exact absurd hb hk
        · right
          simpa only [upper, hb, if_neg hk, if_neg hne] using h
    · have hb : (b + 1) / 64 = b / 64 := by omega
      have hup : upper (n + 1) l a (b + 1) = upper (n + 1) l a b := by simp only [upper, hb]
      rcases h with rfl | h
      · simp only [upper, hb, if_true, moved, ne_eq, hcarry, not_false_eq_true, if_true]
      · exact absurd hup h

/-- When the clock moves from `c` to `c + 1` without a wrap, a node that expires `r` ticks after `c`
keeps its place, or is in the list that is moved. -/
theorem place_succ {c e r : Nat} (hc : c + 1 < 2 ^ 32) (hr : 1 ≤ r) (hr' : r < 2 ^ 31)
    (h : e = (c + r) % 2 ^ 32) :
    place e (c + 1) = place e c ∨ ((c + 1) % 256 = 0 ∧
      place e c = .t (moved 3 0 ((c + 1) / 256)).1 (moved 3 0 ((c + 1) / 256)).2) := by
  by_cases hcarry : (c + 1) % 256 = 0
  · have hb : (c + 1) / 256 = c / 256 + 1 := by omega
    have hab : e / 256 ≠ c / 256 := by omega
    have hord : c / 256 < e / 256 ∨ e / 256 / 64 ^ 3 < c / 256 / 64 ^ 3 := by omega
    have hp : place e c = upper 3 0 (e / 256) (c / 256) := by simp only [place, if_neg hab]
    by_cases hk : e / 256 = c / 256 + 1
    · exact .inr ⟨hcarry, by rw [hp, hb]; exact upper_moved 3 0 _ _ hab hord (.inl hk)⟩
    · have hp' : place e (c + 1) = upper 3 0 (e / 256) (c / 256 + 1) := by
        simp only [place, hb, if_neg hk]
      by_cases hu : upper 3 0 (e / 256) (c / 256 + 1) = upper 3 0 (e / 256) (c / 256)
      · exact .inl (by rw [hp, hp', hu])
      · exact .inr ⟨hcarry, by rw [hp, hb]; exact upper_moved 3 0 _ _ hab hord (.inr hu)⟩
  · left
    have hb : (c + 1) / 256 = c / 256 := by omega
    simp only [place, hb]

theorem place_top {e c : Nat} (h : e / 2 ^ 26 ≠ c / 2 ^ 26) : place e c = .t 3 (e / 2 ^ 26 % 64) := by
  have h26 : e / 256 / 64 / 64 / 64 ≠ c / 256 / 64 / 64 / 64 := by omega
  have h20 : e / 256 / 64 / 64 ≠ c / 256 / 64 / 64 := fun h => h26 (by rw [h])
  have h14 : e / 256 / 64 ≠ c / 256 / 64 := fun h => h20 (by rw [h])
  have h8 : e / 256 ≠ c / 256 := fun h => h14 (by rw [h])
  simp only [place, upper, if_neg h8, if_neg h14, if_neg h20, if_neg h26]
  congr 1
  omega

/-- When the clock wraps to 0, a node keeps its place or is in `t[3][0]`. -/
theorem place_wrap {e r : Nat} (hr : 1 ≤ r) (hr' : r < 2 ^ 31) (h : e = (2 ^ 32 - 1 + r) % 2 ^ 32) :
    place e 0 = place e (2 ^ 32 - 1) ∨ place e (2 ^ 32 - 1) = .t 3 0 := by
  rw [place_top (c := 2 ^ 32 - 1) (by omega)]
  by_cases h0 : e / 2 ^ 26 = 0
  · right; rw [h0]
  · exact .inl (place_top (by omega))

theorem place_eq_near {e c : Nat} : place e c = .near (c % 256) ↔ e = c := by
  constructor
  · intro h
    unfold place at h
    split at h
    · simp only [ListRef.near.injEq] at h; omega
    · exfalso
      simp only [upper] at h
      split_ifs at h
  · rintro rfl; simp only [place, if_true]

end Timers
end Skynet
