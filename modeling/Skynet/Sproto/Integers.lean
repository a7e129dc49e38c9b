import Mathlib.Data.Nat.Bitwise
import Skynet.Sproto.Callback

/-!
# Skynet.Sproto.Integers

Integers of 32 and 64 bits: the signed widening on both sides, and the array that is rewritten in place
when its first wide item comes.

* `Small v` : the callback gives `v` in four bytes.
* `rearrange_spec` : the items written so far are widened in place.
* `putInteger_spec` : after any items, the array holds each of them in the width of the widest.
-/

namespace Skynet
namespace Sproto

/-! ### Words -/

theorem land_two_pow_ne_zero {n i : Nat} (h : n < 2 ^ (i + 1)) : n &&& 2 ^ i ≠ 0 ↔ 2 ^ i ≤ n := by
  have hpos : 0 < 2 ^ i := Nat.two_pow_pos i
  rw [Nat.pow_succ] at h
  rw [Nat.and_two_pow, Nat.testBit_eq_decide_div_mod_eq]
  by_cases hle : 2 ^ i ≤ n
  · have hone : n / 2 ^ i = 1 := Nat.div_eq_of_lt_le (by omega) (by omega)
    simp [hone, hle]
  · have hzero : n / 2 ^ i = 0 := Nat.div_eq_of_lt (by omega)
    simp [hzero, hle]

/-- The integers that the encode callback gives in four bytes. -/
def Small (v : BitVec 64) : Prop := -2 ^ 31 ≤ v.toInt ∧ v.toInt < 2 ^ 31

instance (v : BitVec 64) : Decidable (Small v) := inferInstanceAs (Decidable (_ ∧ _))

theorem small_iff (v : BitVec 64) : (v.sshiftRight 31 = 0 ∨ v.sshiftRight 31 = -1) ↔ Small v := by
  have hsh : (v.sshiftRight 31).toInt = v.toInt / 2 ^ 31 := by
    rw [BitVec.toInt_sshiftRight, Int.shiftRight_eq_div_pow]; rfl
  have h0 : (0 : BitVec 64).toInt = 0 := rfl
  have h1 : (-1 : BitVec 64).toInt = -1 := rfl
  rw [← BitVec.toInt_inj, ← BitVec.toInt_inj, hsh, h0, h1]
  unfold Small
  omega

theorem small_toNat {v : BitVec 64} (h : Small v) : v.toNat < 2 ^ 31 ∨ 2 ^ 64 - 2 ^ 31 ≤ v.toNat := by
  obtain ⟨h1, h2⟩ := h
  rw [BitVec.toInt_eq_toNat_cond] at h1 h2
  split at h1 <;> omega

/-- The four bytes behind the low ones of a small integer repeat its sign. -/
theorem le_eight_small {v : BitVec 64} (h : Small v) :
    Endian.le 8 v.toNat = Endian.le 4 v.toNat ++ uint32ToUint64 (decide (2 ^ 31 ≤ v.toNat % 2 ^ 32)) := by
  rw [show (8 : Nat) = 4 + 4 from rfl, Endian.le_add]
  congr 1
  have hv := v.isLt
  rcases small_toNat h with hlo | hhi
  · rw [show v.toNat / 256 ^ 4 = 0 by omega, show v.toNat % 2 ^ 32 = v.toNat by omega, decide_eq_false (by omega)]
    rfl
  · rw [show v.toNat / 256 ^ 4 = 2 ^ 32 - 1 by omega, decide_eq_true (by omega)]
    rfl

/-- `putInteger` looks at the sign in the number the callback wrote. -/
theorem sign_ofLe (v : BitVec 64) :
    decide (Endian.ofLe (Endian.le 4 v.toNat) &&& 0x80000000 ≠ 0) = decide (2 ^ 31 ≤ v.toNat % 2 ^ 32) := by
  rw [Endian.ofLe_le]
  exact decide_eq_decide.mpr (land_two_pow_ne_zero (n := v.toNat % 256 ^ 4) (i := 31) (Nat.mod_lt _ (by decide)))

theorem or_shiftLeft {lo hi : Nat} (hlo : lo < 2 ^ 32) (hhi : hi < 2 ^ 32) :
    (BitVec.ofNat 64 lo ||| BitVec.ofNat 64 hi <<< 32).toNat = lo + 2 ^ 32 * hi := by
  have hshift : (BitVec.ofNat 64 hi <<< 32).toNat = 2 ^ 32 * hi := by
    rw [BitVec.toNat_shiftLeft, BitVec.toNat_ofNat, Nat.mod_eq_of_lt (by omega : hi < 2 ^ 64), Nat.shiftLeft_eq,
      Nat.mod_eq_of_lt (by omega), Nat.mul_comm]
  rw [BitVec.toNat_or, hshift, BitVec.toNat_ofNat, Nat.mod_eq_of_lt (by omega : lo < 2 ^ 64), Nat.or_comm,
    ← Nat.two_pow_add_eq_or_of_lt hlo, Nat.add_comm]

theorem expand64_small {v : BitVec 64} (h : Small v) : expand64 (v.toNat % 256 ^ 4) = v := by
  have hv := v.isLt
  have hmod : v.toNat % 256 ^ 4 < 2 ^ 32 := Nat.mod_lt _ (by decide)
  have hsign := land_two_pow_ne_zero (n := v.toNat % 256 ^ 4) (i := 31) hmod
  unfold expand64
  split
  · rename_i hneg
    have hle := hsign.mp hneg
    have hhi : BitVec.allOnes 64 <<< 32 = BitVec.ofNat 64 0xffffffff <<< 32 := by decide
    apply BitVec.eq_of_toNat_eq
    rw [hhi, or_shiftLeft hmod (by decide)]
    rcases small_toNat h with hlo | hhi <;> omega
  · rename_i hpos
    have hlt : ¬2 ^ 31 ≤ v.toNat % 256 ^ 4 := fun hle => hpos (hsign.mpr hle)
    apply BitVec.eq_of_toNat_eq
    rw [BitVec.toNat_ofNat, Nat.mod_eq_of_lt (by omega)]
    rcases small_toNat h with hlo | hhi <;> omega

theorem halves_toNat (v : BitVec 64) : BitVec.ofNat 64 (v.toNat % 256 ^ 4) |||
    BitVec.ofNat 64 (v.toNat / 256 ^ 4 % 256 ^ 4) <<< 32 = v := by
  have hv := v.isLt
  have hlo : v.toNat % 256 ^ 4 < 2 ^ 32 := Nat.mod_lt _ (by decide)
  have hhi : v.toNat / 256 ^ 4 % 256 ^ 4 < 2 ^ 32 := Nat.mod_lt _ (by decide)
  apply BitVec.eq_of_toNat_eq
  rw [or_shiftLeft hlo hhi]
  omega

/-! ### The array in place -/

/-- The items in `w` bytes each. -/
def words (w : Nat) (vs : List (BitVec 64)) : Bytes := vs.flatMap fun v => Endian.le w v.toNat

theorem words_append (w : Nat) (vs ws : List (BitVec 64)) : words w (vs ++ ws) = words w vs ++ words w ws :=
  List.flatMap_append

theorem words_singleton (w : Nat) (v : BitVec 64) : words w [v] = Endian.le w v.toNat := by simp [words]

@[simp] theorem words_length (w : Nat) (vs : List (BitVec 64)) : (words w vs).length = vs.length * w := by
  induction vs with
  | nil => simp [words]
  | cons v vs ih =>
    rw [← List.singleton_append, words_append, List.length_append, ih, words_singleton, Endian.le_length,
      List.length_append, Nat.add_mul, List.length_singleton, Nat.one_mul]

/-- The sign of an item in its fourth byte. -/
theorem sign_byte (v : BitVec 64) :
    decide ((((Endian.le 4 v.toNat).getD 3 0).toNat) &&& 0x80 ≠ 0) = decide (2 ^ 31 ≤ v.toNat % 2 ^ 32) := by
  have hbyte : ((Endian.le 4 v.toNat).getD 3 0).toNat = v.toNat / 256 / 256 / 256 % 256 := UInt8.toNat_ofNat'
  rw [hbyte]
  have := land_two_pow_ne_zero (n := v.toNat / 256 / 256 / 256 % 256) (i := 7) (Nat.mod_lt _ (by decide))
  apply decide_eq_decide.mpr
  rw [show (0x80 : Nat) = 2 ^ 7 from rfl, this]
  omega

theorem rearrange_spec {vs : List (BitVec 64)} (hsmall : ∀ v ∈ vs, Small v) {m : Nat → UInt8}
    (hm : Mem.slice m 0 (vs.length * 4) = words 4 vs) :
    Mem.slice (rearrange vs.length m) 0 (vs.length * 8) = words 8 vs ∧
    ∀ j, vs.length * 8 ≤ j → rearrange vs.length m j = m j := by
  induction vs using List.reverseRecOn generalizing m with
  | nil => exact ⟨rfl, fun _ _ => rfl⟩
  | append_singleton vs v ih =>
    have hlen : (vs ++ [v]).length = vs.length + 1 := by simp
    rw [hlen] at hm ⊢
    -- the last item is copied to its place, and the sign is put behind it
    rw [Nat.add_mul, Mem.slice_add, words_append, words_singleton] at hm
    obtain ⟨hfirst, hlast⟩ := List.append_inj hm (by simp)
    rw [Nat.zero_add, Nat.one_mul] at hlast
    simp only [rearrange, hlast]
    have hsign : Mem.blit m (vs.length * 8) (Endian.le 4 v.toNat) (vs.length * 8 + 3) =
        (Endian.le 4 v.toNat).getD 3 0 := by
      rw [Mem.blit_of_mem (by omega) (by rw [Endian.le_length]; omega), List.get_eq_getElem]
      simp only [Nat.add_sub_cancel_left]
      rfl
    rw [hsign, sign_byte]
    have hblock : ∀ m' : Nat → UInt8, Mem.blit (Mem.blit m' (vs.length * 8) (Endian.le 4 v.toNat)) (vs.length * 8 + 4)
        (uint32ToUint64 (decide (2 ^ 31 ≤ v.toNat % 2 ^ 32))) = Mem.blit m' (vs.length * 8) (Endian.le 8 v.toNat) := by
      intro m'
      have happ := Mem.blit_append m' (vs.length * 8) (Endian.le 4 v.toNat)
        (uint32ToUint64 (decide (2 ^ 31 ≤ v.toNat % 2 ^ 32)))
      rw [Endian.le_length] at happ
      rw [happ, ← le_eight_small (hsmall v (by simp))]
    rw [hblock]
    obtain ⟨ih1, ih2⟩ := ih (fun w hw => hsmall w (by simp [hw])) (m := Mem.blit m (vs.length * 8) (Endian.le 8 v.toNat))
      (by rw [Mem.slice_blit_below (by omega)]; exact hfirst)
    constructor
    · rw [Nat.add_mul, Mem.slice_add, ih1, words_append, words_singleton, Nat.zero_add, Nat.one_mul]
      congr 1
      rw [Mem.slice_congr fun j hj _ => ih2 j hj]
      simpa using Mem.slice_blit m (vs.length * 8) (Endian.le 8 v.toNat)
    · intro j hj
      rw [ih2 j (by omega), Mem.blit_of_ge (by rw [Endian.le_length]; omega)]

/-- The bytes that the encode callback gives for an integer. -/
def integerBytes (v : BitVec 64) : Bytes := if Small v then Endian.le 4 v.toNat else Endian.le 8 v.toNat

/-- The width of an array: eight bytes from the first item on that needs them. -/
def width (vs : List (BitVec 64)) : Nat := if ∀ v ∈ vs, Small v then 4 else 8

/-- The array after the items `vs`, of `size` bytes behind the length byte. -/
structure Written (size : Nat) (vs : List (BitVec 64)) (a : IntArray) : Prop where
  intlen : a.intlen = width vs
  index : a.index = vs.length + 1
  buffer : a.buffer = vs.length * width vs
  mem : Mem.slice a.mem 0 a.buffer = words (width vs) vs
  size : a.size + a.buffer = size

theorem width_nil : width [] = 4 := by
  unfold width
  rw [if_pos]
  intro v h
  cases h

theorem written_init (size : Nat) :
    Written size [] { intlen := 4, index := 1, mem := fun _ => 0, buffer := 0, size := size } where
  intlen := width_nil.symm
  index := rfl
  buffer := by rw [List.length_nil, Nat.zero_mul]
  mem := rfl
  size := Nat.add_zero size

theorem nextInteger_written {size : Nat} {vs : List (BitVec 64)} {v : BitVec 64} {a : IntArray}
    (hlen : a.intlen = width (vs ++ [v])) (hidx : a.index = vs.length + 1)
    (hbuf : a.buffer = vs.length * a.intlen) (hmem : Mem.slice a.mem 0 a.buffer = words a.intlen vs)
    (hsize : a.size + a.buffer = size) (hroom : a.intlen ≤ a.size) :
    Written size (vs ++ [v]) (nextInteger a (Endian.le a.intlen v.toNat)) where
  intlen := hlen
  index := by simp [nextInteger, hidx]
  buffer := by simp [nextInteger, hbuf, ← hlen, Nat.add_mul]
  mem := by
    simp only [nextInteger]
    have happ := Mem.slice_blit_append a.mem a.buffer (Endian.le a.intlen v.toNat)
    rw [Endian.le_length] at happ
    rw [happ, hmem, ← hlen, words_append, words_singleton]
  size := by simp only [nextInteger]; omega

theorem putInteger_spec {size : Nat} {vs : List (BitVec 64)} {a : IntArray} (h : Written size vs a) (v : BitVec 64)
    (hroom : (vs.length + 1) * 8 ≤ size) :
    ∃ a', putInteger a (integerBytes v) = .ok (some a') ∧ Written size (vs ++ [v]) a' := by
  have hwidth : width vs = 4 ∨ width vs = 8 := by unfold width; split <;> simp
  have hbuf := h.buffer
  have hsz := h.size
  have h8 : ¬a.size < 8 := by rcases hwidth with hw | hw <;> rw [hw] at hbuf <;> omega
  rw [putInteger, if_neg h8]
  by_cases hv : Small v
  · -- an item of four bytes, alone or with its sign
    have hall : (∀ w ∈ vs ++ [v], Small w) ↔ ∀ w ∈ vs, Small w := by
      rw [List.forall_mem_append, List.forall_mem_singleton]
      exact and_iff_left hv
    have hsame : width (vs ++ [v]) = width vs := by simp only [width, hall]
    rw [integerBytes, if_pos hv, if_pos (Endian.le_length 4 _)]
    rcases hwidth with hw | hw
    · rw [if_neg (by rw [h.intlen, hw]; decide)]
      have hw4 : a.intlen = 4 := by rw [h.intlen, hw]
      refine ⟨_, rfl, ?_⟩
      rw [← hw4]
      exact nextInteger_written (by rw [hsame, h.intlen]) h.index (by rw [hbuf, h.intlen])
        (by rw [h.mem, h.intlen]) hsz (by omega)
    · rw [if_pos (by rw [h.intlen, hw])]
      have hw8 : a.intlen = 8 := by rw [h.intlen, hw]
      refine ⟨_, rfl, ?_⟩
      rw [sign_ofLe, ← le_eight_small hv, ← hw8]
      exact nextInteger_written (by rw [hsame, h.intlen]) h.index (by rw [hbuf, h.intlen])
        (by rw [h.mem, h.intlen]) hsz (by omega)
  · -- an item of eight bytes, after which all have eight
    have hwide : width (vs ++ [v]) = 8 := by
      unfold width
      rw [if_neg]
      intro hall
      exact hv (hall v (by simp))
    rw [integerBytes, if_neg hv, if_neg (by rw [Endian.le_length]; decide), if_neg (by rw [Endian.le_length]; decide)]
    rcases hwidth with hw | hw
    · have hsmall : ∀ w ∈ vs, Small w := by
        by_contra hnot
        rw [width, if_neg hnot] at hw
        cases hw
      have hused : (a.index - 1) * 4 = vs.length * 4 := by rw [h.index]; simp
      rw [hw] at hbuf
      have hmem := h.mem
      rw [hbuf, hw] at hmem
      obtain ⟨hre, -⟩ := rearrange_spec hsmall hmem
      rw [widen, if_pos (by rw [h.intlen, hw])]
      simp only [hused]
      rw [if_neg (by omega), if_neg (by omega)]
      refine ⟨_, rfl, ?_⟩
      have hidx : a.index - 1 = vs.length := by rw [h.index]; rfl
      apply nextInteger_written (a := { a with
        size := a.size - vs.length * 4
        buffer := a.buffer + vs.length * 4
        mem := rearrange (a.index - 1) a.mem
        intlen := 8 }) hwide.symm h.index
      · simp only; omega
      · simp only [hidx, hbuf, ← Nat.mul_add]
        exact hre
      · simp only; omega
      · simp only; omega
    · have hw8 : a.intlen = 8 := by rw [h.intlen, hw]
      rw [widen, if_neg (by omega)]
      refine ⟨_, rfl, ?_⟩
      rw [← hw8]
      exact nextInteger_written (by rw [hwide, hw8]) h.index (by rw [hbuf, h.intlen]) (by rw [h.mem, h.intlen]) hsz (by omega)

end Sproto
end Skynet
