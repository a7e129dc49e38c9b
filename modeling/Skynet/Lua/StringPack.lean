import Mathlib.Tactic.Common
import Mathlib.Tactic.Ring
import Skynet.Lib.Endian

/-!
# Skynet.Lua.StringPack

`string.pack`, `string.unpack` and `string.sub` for the big-endian formats that the packets use. Strings
are lists of bytes and positions count from one, as in Lua; `none` is a raised error.

* `unpackInt_packInt` : an integer that `string.pack` takes is read back.
* `sub_append` : `string.sub` cuts a part out of the middle.
-/

namespace Skynet
namespace Lua

abbrev Bytes := List UInt8

/-- The integers that fit `size` bytes. -/
def Fits (size : Nat) (n : Int) : Prop := -2 ^ (8 * size - 1) ≤ n ∧ n < 2 ^ (8 * size - 1)

instance (size : Nat) (n : Int) : Decidable (Fits size n) := inferInstanceAs (Decidable (_ ∧ _))

/-- `string.pack(">i<size>", n)`, for a 64-bit integer. -/
def packInt (size : Nat) (n : Int) : Option Bytes :=
  if size < 8 ∧ ¬Fits size n then none else some (Endian.be size (n % 2 ^ 64).toNat)

/-- `string.pack(">s<size>", s)`. -/
def packString (size : Nat) (s : Bytes) : Option Bytes :=
  if size < 8 ∧ ¬s.length < 2 ^ (8 * size) then none else some (Endian.be size s.length ++ s)

/-- The bytes that a format of `size` bytes reads at a position. -/
def field (size : Nat) (s : Bytes) (pos : Nat) : Option Bytes :=
  if pos - 1 + size ≤ s.length then some ((s.drop (pos - 1)).take size) else none

/-- `string.unpack(">I<size>", s, pos)`. -/
def unpackUint (size : Nat) (s : Bytes) (pos : Nat) : Option Nat := (field size s pos).map Endian.ofBe

/-- The signed number of `size` bytes. -/
def signed (size m : Nat) : Int := if m < 2 ^ (8 * size - 1) then (m : Int) else m - 2 ^ (8 * size)

/-- `string.unpack(">i<size>", s, pos)`. -/
def unpackInt (size : Nat) (s : Bytes) (pos : Nat) : Option Int := (unpackUint size s pos).map (signed size)

/-- `string.sub(s, i, j)` for positive `i` and `j`. -/
def sub (s : Bytes) (i j : Nat) : Bytes := (s.take j).drop (i - 1)

section Lemmas

variable {size : Nat} {n : Int} {pre bs post : Bytes}

theorem packInt_eq (h : Fits size n) : packInt size n = some (Endian.be size (n % 2 ^ 64).toNat) :=
  if_neg fun hn => hn.2 h

theorem packInt_none (hs : size < 8) (h : ¬Fits size n) : packInt size n = none := if_pos ⟨hs, h⟩

theorem packString_eq {s : Bytes} (h : s.length < 2 ^ (8 * size)) :
    packString size s = some (Endian.be size s.length ++ s) :=
  if_neg fun hn => hn.2 h

theorem field_append (h : bs.length = size) : field size (pre ++ bs ++ post) (pre.length + 1) = some bs := by
  rw [field, if_pos (by simp only [List.length_append]; omega), Nat.add_sub_cancel, List.append_assoc,
    List.drop_left, ← h, List.take_left]

theorem sub_append : sub (pre ++ bs ++ post) (pre.length + 1) (pre.length + bs.length) = bs := by
  rw [sub, Nat.add_sub_cancel, ← List.length_append, List.take_left, List.drop_left]

theorem field_some {s : Bytes} {pos : Nat} (h : field size s pos = some bs) :
    pos - 1 + size ≤ s.length ∧ bs = (s.drop (pos - 1)).take size := by
  simp only [field] at h
  split at h
  · rename_i hle
    cases h
    exact ⟨hle, rfl⟩
  · cases h

/-- The signed reading of the low bytes of a number. -/
theorem signed_low (hpos : 0 < size) (hle : size ≤ 8) (h : Fits size n) :
    signed size ((n % 2 ^ 64).toNat % 256 ^ size) = n := by
  have hsize : (256 : Nat) ^ size = 2 * 2 ^ (8 * size - 1) := by
    rw [show (256 : Nat) = 2 ^ 8 from rfl, ← Nat.pow_mul, ← Nat.pow_succ', Nat.succ_eq_add_one,
      Nat.sub_add_cancel (by omega)]
  have hdvd : (256 ^ size : Nat) ∣ 2 ^ 64 := by
    rw [show (2 : Nat) ^ 64 = 256 ^ 8 by decide]
    exact Nat.pow_dvd_pow 256 hle
  obtain ⟨hlow, hhigh⟩ := h
  have htwo : (2 : Int) ^ (8 * size) = 2 * 2 ^ (8 * size - 1) := by
    rw [← Int.pow_succ', Nat.sub_add_cancel (by omega)]
  have hmod : (((n % 2 ^ 64).toNat % 256 ^ size : Nat) : Int) = n % (256 ^ size : Nat) := by
    rw [Int.natCast_mod, Int.toNat_of_nonneg (Int.emod_nonneg n (by decide))]
    exact Int.emod_emod_of_dvd n (by exact_mod_cast hdvd)
  have hcast : ((256 ^ size : Nat) : Int) = 2 * 2 ^ (8 * size - 1) := by
    rw [hsize]
    push_cast
    rfl
  rw [hcast] at hmod
  rw [signed, htwo]
  have hk : (0 : Int) < 2 ^ (8 * size - 1) := Int.pow_pos (by decide)
  have hkn : ((2 ^ (8 * size - 1) : Nat) : Int) = 2 ^ (8 * size - 1) := by push_cast; rfl
  generalize (2 : Int) ^ (8 * size - 1) = k at *
  generalize (n % 2 ^ 64).toNat % 256 ^ size = m at *
  generalize 2 ^ (8 * size - 1) = k' at *
  rcases Int.lt_or_le n 0 with hneg | hnn
  · have : n % (2 * k) = n + 2 * k := by
      rw [← Int.add_emod_right]
      exact Int.emod_eq_of_lt (by omega) (by omega)
    rw [if_neg (by omega)]
    omega
  · rw [Int.emod_eq_of_lt hnn (by omega)] at hmod
    rw [if_pos (by omega)]
    omega

theorem unpackInt_packInt (hpos : 0 < size) (hle : size ≤ 8) (h : Fits size n) (hbs : packInt size n = some bs) :
    bs.length = size ∧ unpackInt size (pre ++ bs ++ post) (pre.length + 1) = some n := by
  rw [packInt_eq h] at hbs
  cases hbs
  refine ⟨Endian.be_length .., ?_⟩
  rw [unpackInt, unpackUint, field_append (Endian.be_length ..), Option.map_some, Option.map_some, Endian.ofBe_be]
  exact congrArg some (signed_low hpos hle h)

end Lemmas

end Lua
end Skynet
