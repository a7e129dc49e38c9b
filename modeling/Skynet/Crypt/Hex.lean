import Mathlib.Algebra.Ring.Int.Defs
import Mathlib.Algebra.Ring.Nat
import Mathlib.Data.List.Basic
import Mathlib.Tactic.Common

/-!
# Skynet.Crypt.Hex

The hex codec of `lua-crypt.c`.

* `CryptError.overflow` : an `int` counter leaves the `int`s, which has no meaning in C. The counter of `ltohex` is
  doubled, the one of `lfromhex` goes up by two.
* A Lua string has a zero byte behind its end.

* `fromhexLoop_cases` : how `lfromhex` ends.
* `hex_codec_iff` : for which texts the codec is as it should be.
-/

namespace Skynet
namespace Crypt

abbrev Bytes := List UInt8

inductive CryptError where
  /-- "Invalid hex text size %d" -/
  | hexSize (sz : Nat)
  /-- "Invalid hex text" -/
  | hexText
  | overflow
deriving Repr, DecidableEq

/-- `static char hex[]` -/
def hex : List UInt8 :=
  [0x30, 0x31, 0x32, 0x33, 0x34, 0x35, 0x36, 0x37, 0x38, 0x39, 0x61, 0x62, 0x63, 0x64, 0x65, 0x66]

/-- The loop of `ltohex` from `i` on. -/
def tohexLoop : Nat → Bytes → Except CryptError Bytes
  | _, [] => .ok []
  | i, b :: text =>
    if i * 2 + 1 < 2 ^ 31 then
      (tohexLoop (i + 1) text).map fun buffer =>
        hex.getD (b.toNat >>> 4) 0 :: hex.getD (b.toNat &&& 0xf) 0 :: buffer
    else .error .overflow

theorem tohexLoop_cons (i : Nat) (b : UInt8) (text : Bytes) : tohexLoop i (b :: text) =
    if i * 2 + 1 < 2 ^ 31 then
      (tohexLoop (i + 1) text).map fun buffer =>
        hex.getD (b.toNat >>> 4) 0 :: hex.getD (b.toNat &&& 0xf) 0 :: buffer
    else .error .overflow := rfl

def ltohex (text : Bytes) : Except CryptError Bytes := tohexLoop 0 text

/-- `HEX`, with the value as it is stored in a `uint8_t`. -/
def HEX (c : UInt8) : Nat := if 0x30 ≤ c.toNat ∧ c.toNat ≤ 0x39 then c.toNat - 0x30 else (c.toNat + 256 - 0x61 + 10) % 256

/-- The loop of `lfromhex` from `i` on. -/
def fromhexLoop : Nat → Bytes → Except CryptError Bytes
  | _, [] => .ok []
  | _, [c] => if 16 < HEX c ∨ 16 < HEX 0 then .error .hexText else .ok []
  | i, c :: d :: text =>
    if 16 < HEX c ∨ 16 < HEX d then .error .hexText
    else if i + 2 < 2 ^ 31 then
      (fromhexLoop (i + 2) text).map fun buffer => UInt8.ofNat (HEX c <<< 4 ||| HEX d) :: buffer
    else .error .overflow

theorem fromhexLoop_cons (i : Nat) (c d : UInt8) (text : Bytes) : fromhexLoop i (c :: d :: text) =
    if 16 < HEX c ∨ 16 < HEX d then .error .hexText
    else if i + 2 < 2 ^ 31 then
      (fromhexLoop (i + 2) text).map fun buffer => UInt8.ofNat (HEX c <<< 4 ||| HEX d) :: buffer
    else .error .overflow := rfl

def lfromhex (text : Bytes) : Except CryptError Bytes :=
  if text.length % 2 = 1 then .error (.hexSize text.length) else fromhexLoop 0 text

/-! ### Digits -/

/-- The digits `0`-`9` and `a`-`f`. -/
def IsDigit (c : UInt8) : Prop := (0x30 ≤ c.toNat ∧ c.toNat ≤ 0x39) ∨ (0x61 ≤ c.toNat ∧ c.toNat ≤ 0x66)

instance (c : UInt8) : Decidable (IsDigit c) := inferInstanceAs (Decidable (_ ∨ _))

theorem hex_getD {n : Nat} (hn : n < 16) : (hex.getD n 0).toNat = if n < 10 then 0x30 + n else 0x57 + n := by
  revert n
  decide

/-- The characters that `lfromhex` takes for digits: `W` to the grave accent, and `g`, beside the digits. -/
theorem HEX_le_iff (c : UInt8) : HEX c ≤ 16 ↔ (0x30 ≤ c.toNat ∧ c.toNat ≤ 0x39) ∨ (0x57 ≤ c.toNat ∧ c.toNat ≤ 0x67) := by
  have := c.toNat_lt
  unfold HEX
  split <;> omega

theorem HEX_lt {c : UInt8} (h : IsDigit c) : HEX c < 16 := by
  unfold HEX
  unfold IsDigit at h
  split <;> omega

theorem HEX_hex {n : Nat} (hn : n < 16) : HEX (hex.getD n 0) = n := by
  unfold HEX
  rw [hex_getD hn]
  split <;> split <;> omega

theorem hex_HEX {c : UInt8} (h : IsDigit c) : hex.getD (HEX c) 0 = c := by
  apply UInt8.toNat.inj
  rw [hex_getD (HEX_lt h)]
  unfold HEX
  unfold IsDigit at h
  split <;> split <;> omega

/-! ### A byte and its two digits -/

theorem high_lt (b : UInt8) : b.toNat >>> 4 < 16 := by
  have := b.toNat_lt
  rw [Nat.shiftRight_eq_div_pow]
  omega

theorem low_lt (b : UInt8) : b.toNat &&& 0xf < 16 := Nat.lt_succ_of_le Nat.and_le_right

theorem ofNat_digits {m n : Nat} (hm : m < 16) (hn : n < 16) :
    (UInt8.ofNat (m <<< 4 ||| n)).toNat >>> 4 = m ∧ (UInt8.ofNat (m <<< 4 ||| n)).toNat &&& 0xf = n := by
  have hor : m <<< 4 ||| n = m * 16 + n := by
    rw [← Nat.shiftLeft_add_eq_or_of_lt (by omega : n < 2 ^ 4), Nat.shiftLeft_eq]
  have hnat : (UInt8.ofNat (m <<< 4 ||| n)).toNat = m * 16 + n := by
    rw [hor, UInt8.toNat_ofNat']
    omega
  rw [hnat, Nat.shiftRight_eq_div_pow, show (0xf : Nat) = 2 ^ 4 - 1 from rfl, Nat.and_two_pow_sub_one_eq_mod]
  omega

theorem ofNat_high_low (b : UInt8) : UInt8.ofNat ((b.toNat >>> 4) <<< 4 ||| (b.toNat &&& 0xf)) = b := by
  apply UInt8.toNat.inj
  obtain ⟨hhigh, hlow⟩ := ofNat_digits (high_lt b) (low_lt b)
  generalize UInt8.ofNat ((b.toNat >>> 4) <<< 4 ||| (b.toNat &&& 0xf)) = c at hhigh hlow
  simp only [Nat.shiftRight_eq_div_pow] at hhigh
  have hc := Nat.and_two_pow_sub_one_eq_mod c.toNat 4
  have hb := Nat.and_two_pow_sub_one_eq_mod b.toNat 4
  simp only [show 2 ^ 4 - 1 = 0xf from rfl] at hc hb
  omega

/-! ### Encoding -/

theorem tohexLoop_ok {i : Nat} {text : Bytes} (h : i + text.length ≤ 2 ^ 30) :
    ∃ buffer, tohexLoop i text = .ok buffer ∧ buffer.length = 2 * text.length := by
  induction text generalizing i with
  | nil => exact ⟨[], rfl, rfl⟩
  | cons b text ih =>
    simp only [List.length_cons] at h
    obtain ⟨buffer, hbuffer, hlength⟩ := ih (i := i + 1) (by omega)
    refine ⟨_, by rw [tohexLoop_cons, if_pos (by omega), hbuffer]; rfl, ?_⟩
    simp only [List.length_cons, hlength]
    omega

theorem tohexLoop_overflow {i : Nat} {text : Bytes} (h : 2 ^ 30 < i + text.length) (hne : text ≠ []) :
    tohexLoop i text = .error .overflow := by
  induction text generalizing i with
  | nil => exact absurd rfl hne
  | cons b text ih =>
    rw [tohexLoop_cons]
    split
    · rw [ih]
      · rfl
      · simp only [List.length_cons] at h
        omega
      · rintro rfl
        simp only [List.length_cons, List.length_nil] at h
        omega
    · rfl

/-- What was encoded comes back. -/
theorem fromhexLoop_tohexLoop {i j : Nat} {text buffer : Bytes} (h : tohexLoop i text = .ok buffer)
    (hj : j + buffer.length < 2 ^ 31) : fromhexLoop j buffer = .ok text := by
  induction text generalizing i j buffer with
  | nil =>
    obtain rfl : [] = buffer := Except.ok.inj h
    rfl
  | cons b text ih =>
    rw [tohexLoop_cons] at h
    split at h
    · obtain ⟨rest, hrest, rfl⟩ : ∃ rest, tohexLoop (i + 1) text = .ok rest ∧
          hex.getD (b.toNat >>> 4) 0 :: hex.getD (b.toNat &&& 0xf) 0 :: rest = buffer := by
        cases hr : tohexLoop (i + 1) text with
        | error e => simp [hr, Except.map] at h
        | ok rest => exact ⟨rest, rfl, by simpa [hr, Except.map] using h⟩
      simp only [List.length_cons] at hj
      have hhigh := HEX_hex (high_lt b)
      have hlow := HEX_hex (low_lt b)
      have := high_lt b
      have := low_lt b
      rw [fromhexLoop_cons, if_neg (by omega), if_pos (by omega), ih hrest (by omega), hhigh, hlow, ofNat_high_low]
      rfl
    · cases h

/-! ### Decoding -/

/-- The induction over the pairs of a text of even length. -/
theorem pairs_induction {motive : (text : Bytes) → text.length % 2 = 0 → Prop} (nil : motive [] rfl)
    (pair : ∀ c d text h h', motive text h → motive (c :: d :: text) h') : ∀ text h, motive text h
  | [], _ => nil
  | [_], h => by cases h
  | c :: d :: text, h =>
    have heven : text.length % 2 = 0 := by
      simp only [List.length_cons] at h
      omega
    pair c d text heven h (pairs_induction nil pair text heven)

/-- A text of digits is decoded, and encoded again it is the same text. -/
theorem fromhexLoop_ok {text : Bytes} (heven : text.length % 2 = 0) (hdigits : ∀ c ∈ text, IsDigit c) {i : Nat}
    (h : i + text.length < 2 ^ 31) :
    ∃ buffer, fromhexLoop i text = .ok buffer ∧ 2 * buffer.length = text.length ∧
      ∀ j, j + buffer.length ≤ 2 ^ 30 → tohexLoop j buffer = .ok text := by
  induction text, heven using pairs_induction generalizing i with
  | nil => exact ⟨[], rfl, rfl, fun j _ => rfl⟩
  | pair c d text _ _ ih =>
    have hc := hdigits c (by simp)
    have hd := hdigits d (by simp)
    simp only [List.length_cons] at h
    obtain ⟨buffer, hbuffer, hlength, hback⟩ := ih (fun c hc => hdigits c (by simp [hc])) (i := i + 2) (by omega)
    have hhex := HEX_lt hc
    have hhex' := HEX_lt hd
    refine ⟨UInt8.ofNat (HEX c <<< 4 ||| HEX d) :: buffer, ?_, by simp only [List.length_cons]; omega, fun j hj => ?_⟩
    · rw [fromhexLoop_cons, if_neg (by omega), if_pos (by omega), hbuffer]
      rfl
    · simp only [List.length_cons] at hj
      obtain ⟨hhigh, hlow⟩ := ofNat_digits hhex hhex'
      rw [tohexLoop_cons, if_pos (by omega), hback (j + 1) (by omega), hhigh, hlow, hex_HEX hc, hex_HEX hd]
      rfl

/-- How `lfromhex` ends: with the first pair that it refuses, if the counter is still an `int` there, with the counter
running over, or with a text of characters that it takes. -/
theorem fromhexLoop_cases {text : Bytes} (heven : text.length % 2 = 0) {i : Nat} (hi : i < 2 ^ 31) (hi2 : i % 2 = 0) :
    (fromhexLoop i text = .error .hexText ∧ ∃ c ∈ text.take (2 ^ 31 - i), 16 < HEX c) ∨
    (fromhexLoop i text = .error .overflow ∧ 2 ^ 31 ≤ i + text.length ∧ ∀ c ∈ text.take (2 ^ 31 - i), HEX c ≤ 16) ∨
    ((∃ buffer, fromhexLoop i text = .ok buffer) ∧ i + text.length < 2 ^ 31 ∧ ∀ c ∈ text, HEX c ≤ 16) := by
  induction text, heven using pairs_induction generalizing i with
  | nil => exact .inr (.inr ⟨⟨[], rfl⟩, by simpa using hi, by simp⟩)
  | pair c d text _ _ ih =>
    have htake : (c :: d :: text).take (2 ^ 31 - i) = c :: d :: text.take (2 ^ 31 - (i + 2)) := by
      rw [show 2 ^ 31 - i = 2 ^ 31 - (i + 2) + 1 + 1 by omega]
      rfl
    rw [htake, fromhexLoop_cons]
    simp only [List.length_cons, List.mem_cons, exists_eq_or_imp, forall_eq_or_imp]
    by_cases hbad : 16 < HEX c ∨ 16 < HEX d
    · exact .inl ⟨if_pos hbad, by tauto⟩
    · have hc : HEX c ≤ 16 := by omega
      have hd : HEX d ≤ 16 := by omega
      rw [if_neg hbad]
      by_cases hnext : i + 2 < 2 ^ 31
      · rw [if_pos hnext]
        rcases ih hnext (by omega) with ⟨he, c, hmem, hlt⟩ | ⟨he, hlength, hall⟩ | ⟨⟨buffer, hok⟩, hlength, hall⟩
        · exact .inl ⟨by rw [he]; rfl, .inr (.inr ⟨c, hmem, hlt⟩)⟩
        · exact .inr (.inl ⟨by rw [he]; rfl, by omega, hc, hd, hall⟩)
        · exact .inr (.inr ⟨⟨_, by rw [hok]; rfl⟩, by omega, hc, hd, hall⟩)
      · rw [if_neg hnext, show 2 ^ 31 - (i + 2) = 0 by omega]
        exact .inr (.inl ⟨rfl, by omega, hc, hd, by simp⟩)

/-! ### The codec -/

/-- The texts of the codec: pairs of digits. -/
def IsHex (t : Bytes) : Prop := t.length % 2 = 0 ∧ ∀ c ∈ t, IsDigit c

/-- `hexdecode(hexencode(s))` is `s`, `hexdecode` takes `t` when it is hex and `hexencode` gives it back, and it raises
an error of Lua when it is not. -/
structure Meets (s t : Bytes) : Prop where
  decoded : ltohex s >>= lfromhex = .ok s
  encoded : IsHex t → lfromhex t >>= ltohex = .ok t
  refused : ¬IsHex t → lfromhex t = .error (.hexSize t.length) ∨ lfromhex t = .error .hexText

/-- The characters that are no digits and that `lfromhex` takes: `W` to the grave accent, and `g`. -/
def Misread (c : UInt8) : Prop := (0x57 ≤ c.toNat ∧ c.toNat ≤ 0x60) ∨ c.toNat = 0x67

instance (c : UInt8) : Decidable (Misread c) := inferInstanceAs (Decidable (_ ∨ _))

/-- The texts that `lfromhex` treats as it should: those of an odd length, those with a character among the first `2 ^ 31`
that is neither a digit nor misread, and those of digits whose length is an `int`. -/
def TextOk (t : Bytes) : Prop :=
  t.length % 2 = 1 ∨ (∃ c ∈ t.take (2 ^ 31), ¬IsDigit c ∧ ¬Misread c) ∨ t.length < 2 ^ 31 ∧ ∀ c ∈ t, IsDigit c

theorem HEX_gt_iff (c : UInt8) : 16 < HEX c ↔ ¬IsDigit c ∧ ¬Misread c := by
  rw [← Nat.not_le, HEX_le_iff, IsDigit, Misread]
  omega

theorem lfromhex_odd {t : Bytes} (h : t.length % 2 = 1) : lfromhex t = .error (.hexSize t.length) := if_pos h

theorem lfromhex_even {t : Bytes} (h : t.length % 2 = 0) : lfromhex t = fromhexLoop 0 t := if_neg (by omega)

theorem decoded_iff (s : Bytes) : ltohex s >>= lfromhex = .ok s ↔ s.length < 2 ^ 30 := by
  constructor
  · intro h
    by_contra hlength
    by_cases hlast : s.length = 2 ^ 30
    · -- the encoder is done and the decoder runs over
      have hfits : 0 + s.length ≤ 2 ^ 30 := by omega
      obtain ⟨buffer, hbuffer, hbufferLength⟩ := tohexLoop_ok hfits
      have heven : buffer.length % 2 = 0 := by omega
      have hdecoded : fromhexLoop 0 buffer = .ok s := by
        rw [ltohex, hbuffer] at h
        rwa [← lfromhex_even heven]
      rcases fromhexLoop_cases heven (i := 0) (by decide) rfl with
        ⟨he, -⟩ | ⟨he, -⟩ | ⟨-, hlt, -⟩
      · cases he.symm.trans hdecoded
      · cases he.symm.trans hdecoded
      · omega
    · have hne : s ≠ [] := by
        rintro rfl
        simp at hlength
      rw [ltohex, tohexLoop_overflow (by omega) hne] at h
      cases h
  · intro hlength
    have hfits : 0 + s.length ≤ 2 ^ 30 := by omega
    obtain ⟨buffer, hbuffer, hbufferLength⟩ := tohexLoop_ok hfits
    rw [ltohex, hbuffer]
    have heven : buffer.length % 2 = 0 := by omega
    exact (lfromhex_even heven).trans (fromhexLoop_tohexLoop hbuffer (by omega))

/-- How `lfromhex` ends on a text of even length, by its characters. -/
theorem lfromhex_cases {t : Bytes} (heven : t.length % 2 = 0) :
    (lfromhex t = .error .hexText ∧ ∃ c ∈ t.take (2 ^ 31), ¬IsDigit c ∧ ¬Misread c) ∨
    ((∀ c ∈ t.take (2 ^ 31), IsDigit c ∨ Misread c) ∧
      (lfromhex t = .error .overflow ∧ 2 ^ 31 ≤ t.length ∨ (∃ buffer, lfromhex t = .ok buffer) ∧ t.length < 2 ^ 31)) := by
  have hle (c : UInt8) : HEX c ≤ 16 ↔ IsDigit c ∨ Misread c := by
    rw [← Nat.not_lt, HEX_gt_iff, not_and_or, not_not, not_not]
  rw [lfromhex_even heven]
  have hcases := fromhexLoop_cases heven (i := 0) (by decide) rfl
  simp only [HEX_gt_iff, hle, Nat.sub_zero, Nat.zero_add] at hcases
  rcases hcases with h | ⟨he, hlength, hall⟩ | ⟨hok, hlength, hall⟩
  · exact .inl h
  · exact .inr ⟨hall, .inl ⟨he, hlength⟩⟩
  · exact .inr ⟨fun c hc => hall c (List.mem_of_mem_take hc), .inr ⟨hok, hlength⟩⟩

theorem text_ok_iff (t : Bytes) :
    ((IsHex t → lfromhex t >>= ltohex = .ok t) ∧
      (¬IsHex t → lfromhex t = .error (.hexSize t.length) ∨ lfromhex t = .error .hexText)) ↔ TextOk t := by
  obtain hodd | heven : t.length % 2 = 1 ∨ t.length % 2 = 0 := by omega
  · have hnot : ¬IsHex t := fun h => by
      have := h.1
      omega
    exact iff_of_true ⟨fun h => absurd h hnot, fun _ => .inl (lfromhex_odd hodd)⟩ (.inl hodd)
  · have heq : TextOk t ↔ (∃ c ∈ t.take (2 ^ 31), ¬IsDigit c ∧ ¬Misread c) ∨ t.length < 2 ^ 31 ∧ ∀ c ∈ t, IsDigit c := by
      rw [TextOk]
      exact or_iff_right (by omega)
    rw [heq]
    rcases lfromhex_cases heven with ⟨he, hbad⟩ | ⟨htaken, ⟨he, hlength⟩ | ⟨⟨buffer, hok⟩, hlength⟩⟩
    · refine iff_of_true ⟨fun hhex => ?_, fun _ => .inr he⟩ (.inl hbad)
      obtain ⟨c, hc, hdigit, -⟩ := hbad
      exact absurd (hhex.2 c (List.mem_of_mem_take hc)) hdigit
    · refine iff_of_false (fun ⟨hencoded, hrefused⟩ => ?_) ?_
      · by_cases hhex : IsHex t
        · rw [he] at hencoded
          cases hencoded hhex
        · rw [he] at hrefused
          rcases hrefused hhex with h | h <;> cases h
      · rintro (⟨c, hc, hdigit, hmisread⟩ | ⟨hlt, -⟩)
        · exact (htaken c hc).elim hdigit hmisread
        · omega
    · by_cases hdigits : ∀ c ∈ t, IsDigit c
      · refine iff_of_true ⟨fun _ => ?_, fun hhex => absurd ⟨heven, hdigits⟩ hhex⟩ (.inr ⟨hlength, hdigits⟩)
        obtain ⟨buffer, hbuffer, hbufferLength, hback⟩ := fromhexLoop_ok heven hdigits (i := 0) (by omega)
        rw [lfromhex_even heven, hbuffer]
        exact hback 0 (by omega)
      · refine iff_of_false (fun ⟨_, hrefused⟩ => ?_) ?_
        · rcases hrefused (fun hhex => hdigits hhex.2) with h | h <;> cases hok.symm.trans h
        · rintro (⟨c, hc, hdigit, hmisread⟩ | ⟨-, hall⟩)
          · exact (htaken c hc).elim hdigit hmisread
          · exact hdigits hall

/-- The codec is as it should be on the byte strings below `2 ^ 30` bytes and on the texts of `TextOk`: the bound 16 in
`hi > 16` lets `g` through, and the test of a value lets the ten characters below `a` through. -/
theorem hex_codec_iff (s t : Bytes) : Meets s t ↔ s.length < 2 ^ 30 ∧ TextOk t := by
  rw [← decoded_iff, ← text_ok_iff]
  exact ⟨fun h => ⟨h.decoded, h.encoded, h.refused⟩, fun ⟨hdecoded, hencoded, hrefused⟩ => ⟨hdecoded, hencoded, hrefused⟩⟩

/-- `hexdecode "WW"` is the byte 0, whose hex is `"00"`. -/
theorem hexdecode_misreads :
    ¬(∀ s t : Bytes, Meets s t) ∧ lfromhex [0x57, 0x57] = .ok [0] ∧ ltohex [0] = .ok [0x30, 0x30] := by
  refine ⟨fun h => ?_, by decide, by decide⟩
  rcases (h [] [0x57, 0x57]).refused (by unfold IsHex; decide) with herror | herror <;> exact absurd herror (by decide)

end Crypt
end Skynet
