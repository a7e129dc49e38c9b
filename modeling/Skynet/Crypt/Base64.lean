import Mathlib.Data.List.Basic
import Mathlib.Algebra.BigOperators.Group.List.Basic
import Mathlib.Tactic.Common
import Skynet.Lib.Outcome
import Skynet.Crypt.Hex

/-!
# Skynet.Crypt.Base64

The base64 codec of `lua-crypt.c`.

* `Base64Error.overflow` : a length that is no `int`, or an `int` counter that runs over.

* `Groups` : the texts of groups of four characters and what they stand for.
* `decodeLoop_iff` : `lb64decode` takes the texts whose digits are such groups and that do not end in a skipped byte.
* `base64_iff` : for which byte strings and texts the codec is as it should be.
-/

namespace Skynet
namespace Crypt

inductive Base64Error where
  /-- "Invalid base64 text" -/
  | text
  | overflow
deriving Repr, DecidableEq

/-- `static const char* encoding` -/
def encoding : Bytes :=
  [0x41, 0x42, 0x43, 0x44, 0x45, 0x46, 0x47, 0x48, 0x49, 0x4a, 0x4b, 0x4c, 0x4d, 0x4e, 0x4f, 0x50,
    0x51, 0x52, 0x53, 0x54, 0x55, 0x56, 0x57, 0x58, 0x59, 0x5a, 0x61, 0x62, 0x63, 0x64, 0x65, 0x66,
    0x67, 0x68, 0x69, 0x6a, 0x6b, 0x6c, 0x6d, 0x6e, 0x6f, 0x70, 0x71, 0x72, 0x73, 0x74, 0x75, 0x76,
    0x77, 0x78, 0x79, 0x7a, 0x30, 0x31, 0x32, 0x33, 0x34, 0x35, 0x36, 0x37, 0x38, 0x39, 0x2b, 0x2f]

def encodingAt (n : Nat) : UInt8 := encoding.getD n 0

/-- `=` -/
abbrev pad : UInt8 := 0x3d

/-- The loop and the `switch` of `lb64encode`. -/
def encodeLoop : Bytes → Bytes
  | a :: b :: c :: text =>
    let v := a.toNat <<< 16 ||| b.toNat <<< 8 ||| c.toNat
    encodingAt (v >>> 18) :: encodingAt (v >>> 12 &&& 0x3f) :: encodingAt (v >>> 6 &&& 0x3f) ::
      encodingAt (v &&& 0x3f) :: encodeLoop text
  | [a, b] =>
    let v := a.toNat <<< 8 ||| b.toNat
    [encodingAt (v >>> 10), encodingAt (v >>> 4 &&& 0x3f), encodingAt ((v &&& 0xf) <<< 2), pad]
  | [a] =>
    let v := a.toNat
    [encodingAt (v >>> 2), encodingAt ((v &&& 3) <<< 4), pad, pad]
  | [] => []

def lb64encode (text : Bytes) : Except Base64Error Bytes :=
  let encode_sz := (text.length + 2) / 3 * 4
  if encode_sz < 2 ^ 31 then .ok (encodeLoop text) else .error .overflow

/-- `static const int decoding[]` -/
def decoding : List Int :=
  [62, -1, -1, -1, 63, 52, 53, 54, 55, 56, 57, 58, 59, 60, 61, -1, -1, -1, -2, -1, -1, -1,
    0, 1, 2, 3, 4, 5, 6, 7, 8, 9, 10, 11, 12, 13, 14, 15, 16, 17, 18, 19, 20, 21,
    22, 23, 24, 25, -1, -1, -1, -1, -1, -1, 26, 27, 28, 29, 30, 31, 32, 33, 34, 35, 36, 37,
    38, 39, 40, 41, 42, 43, 44, 45, 46, 47, 48, 49, 50, 51]

def b64index (c : UInt8) : Int :=
  if c.toNat < 43 then -1
  else if decoding.length ≤ c.toNat - 43 then -1
  else decoding.getD (c.toNat - 43) 0

/-- A turn of the inner loop of `lb64decode`: the next index, with the bytes before it skipped. -/
def nextIndex : Nat → Bytes → Except Base64Error (Int × Nat × Bytes)
  | _, [] => .error .text
  | i, b :: text =>
    if i + 1 < 2 ^ 31 then
      if b64index b = -1 then nextIndex (i + 1) text else .ok (b64index b, i + 1, text)
    else .error .overflow

structure Group where
  c0 : Int
  c1 : Int
  c2 : Int
  c3 : Int
deriving Repr, DecidableEq

/-- The inner loop, whose four turns are written out. -/
def readGroup (i : Nat) (text : Bytes) : Except Base64Error (Group × Nat × Bytes) := do
  let (c0, i, text) ← nextIndex i text
  let (c1, i, text) ← nextIndex i text
  let (c2, i, text) ← nextIndex i text
  let (c3, i, text) ← nextIndex i text
  return (⟨c0, c1, c2, c3⟩, i, text)

def Group.padding (g : Group) : Nat := [g.c0, g.c1, g.c2, g.c3].count (-2)

/-- The `switch` of `lb64decode`: the bytes of a group. -/
def Group.bytes (g : Group) : Except Base64Error Bytes :=
  match g.padding with
  | 0 =>
    let v := g.c0.toNat <<< 18 ||| g.c1.toNat <<< 12 ||| g.c2.toNat <<< 6 ||| g.c3.toNat
    .ok [UInt8.ofNat (v >>> 16), UInt8.ofNat (v >>> 8 &&& 0xff), UInt8.ofNat (v &&& 0xff)]
  | 1 =>
    if g.c3 ≠ -2 ∨ g.c2.toNat &&& 3 ≠ 0 then .error .text
    else
      let v := g.c0.toNat <<< 10 ||| g.c1.toNat <<< 4 ||| g.c2.toNat >>> 2
      .ok [UInt8.ofNat (v >>> 8), UInt8.ofNat (v &&& 0xff)]
  | 2 =>
    if g.c3 ≠ -2 ∨ g.c2 ≠ -2 ∨ g.c1.toNat &&& 0xf ≠ 0 then .error .text
    else
      let v := g.c0.toNat <<< 2 ||| g.c1.toNat >>> 4
      .ok [UInt8.ofNat v]
  | _ => .error .text

theorem nextIndex_length {i : Nat} {text : Bytes} {x : Int} {j : Nat} {rest : Bytes}
    (h : nextIndex i text = .ok (x, j, rest)) : rest.length < text.length := by
  induction text generalizing i with
  | nil => cases h
  | cons b text ih =>
    simp only [nextIndex] at h
    split at h
    · split at h
      · have := ih h
        simp only [List.length_cons]
        omega
      · cases h
        simp
    · cases h

/-- What the four turns have in common. -/
theorem readGroup_eq_ok {i : Nat} {text : Bytes} {g : Group} {j : Nat} {rest : Bytes}
    (h : readGroup i text = .ok (g, j, rest)) : ∃ i₁ t₁ i₂ t₂ i₃ t₃,
      nextIndex i text = .ok (g.c0, i₁, t₁) ∧ nextIndex i₁ t₁ = .ok (g.c1, i₂, t₂) ∧
      nextIndex i₂ t₂ = .ok (g.c2, i₃, t₃) ∧ nextIndex i₃ t₃ = .ok (g.c3, j, rest) := by
  unfold readGroup at h
  obtain ⟨⟨c0, i₁, t₁⟩, h₀, h⟩ := Outcome.ok_of_bind h
  obtain ⟨⟨c1, i₂, t₂⟩, h₁, h⟩ := Outcome.ok_of_bind h
  obtain ⟨⟨c2, i₃, t₃⟩, h₂, h⟩ := Outcome.ok_of_bind h
  obtain ⟨⟨c3, i₄, t₄⟩, h₃, h⟩ := Outcome.ok_of_bind h
  cases h
  exact ⟨i₁, t₁, i₂, t₂, i₃, t₃, h₀, h₁, h₂, h₃⟩

theorem readGroup_length {i : Nat} {text : Bytes} {g : Group} {j : Nat} {rest : Bytes}
    (h : readGroup i text = .ok (g, j, rest)) : rest.length < text.length := by
  obtain ⟨i₁, t₁, i₂, t₂, i₃, t₃, h₀, h₁, h₂, h₃⟩ := readGroup_eq_ok h
  have := nextIndex_length h₀
  have := nextIndex_length h₁
  have := nextIndex_length h₂
  have := nextIndex_length h₃
  omega

/-- The outer loop of `lb64decode`. -/
def decodeLoop (i : Nat) (text : Bytes) : Except Base64Error Bytes :=
  if text = [] then .ok []
  else
    match _h : readGroup i text with
    | .error e => .error e
    | .ok (g, j, rest) =>
      match g.bytes with
      | .error e => .error e
      | .ok out => (decodeLoop j rest).map (out ++ ·)
termination_by text.length
decreasing_by exact readGroup_length _h

def lb64decode (text : Bytes) : Except Base64Error Bytes := decodeLoop 0 text

/-! ### Characters -/

theorem b64index_encodingAt {n : Nat} (hn : n < 64) : b64index (encodingAt n) = n := by
  revert n
  decide +kernel

theorem b64index_pad : b64index pad = -2 := by decide +kernel

/-- A byte is skipped, the padding, or the character of its index. -/
theorem b64index_cases (c : UInt8) :
    b64index c = -1 ∨ c = pad ∨ 0 ≤ b64index c ∧ b64index c < 64 ∧ encodingAt (b64index c).toNat = c := by
  have h : ∀ n < 256, b64index (UInt8.ofNat n) = -1 ∨ UInt8.ofNat n = pad ∨
      0 ≤ b64index (UInt8.ofNat n) ∧ b64index (UInt8.ofNat n) < 64 ∧
        encodingAt (b64index (UInt8.ofNat n)).toNat = UInt8.ofNat n := by decide +kernel
  have hc := h c.toNat c.toNat_lt
  rwa [UInt8.ofNat_toNat] at hc

/-- The digits of the alphabet, and no padding. -/
theorem exists_index {c : UInt8} (h : b64index c ≠ -1) (hpad : c ≠ pad) : ∃ n : Nat, n < 64 ∧ b64index c = n ∧ encodingAt n = c := by
  rcases b64index_cases c with hc | hc | ⟨hnonneg, hlt, hchar⟩
  · exact absurd hc h
  · exact absurd hc hpad
  · exact ⟨(b64index c).toNat, by omega, by omega, hchar⟩

theorem encodingAt_ne_pad {n : Nat} (hn : n < 64) : encodingAt n ≠ pad := by
  intro h
  have hindex := b64index_encodingAt hn
  rw [h, b64index_pad] at hindex
  omega

/-! ### Bits -/

theorem or_of_dvd {a b k : Nat} (ha : 2 ^ k ∣ a) (hb : b < 2 ^ k) : a ||| b = a + b := by
  obtain ⟨q, rfl⟩ := ha
  rw [Nat.mul_comm, ← Nat.shiftLeft_eq, Nat.shiftLeft_add_eq_or_of_lt hb]

theorem or_six {a b c d : Nat} (hb : b < 64) (hc : c < 64) (hd : d < 64) :
    a <<< 18 ||| b <<< 12 ||| c <<< 6 ||| d = a * 2 ^ 18 + b * 2 ^ 12 + c * 2 ^ 6 + d := by
  simp only [Nat.shiftLeft_eq]
  have h1 : a * 2 ^ 18 ||| b * 2 ^ 12 = a * 2 ^ 18 + b * 2 ^ 12 := or_of_dvd (k := 18) (by omega) (by omega)
  have h2 : a * 2 ^ 18 + b * 2 ^ 12 ||| c * 2 ^ 6 = a * 2 ^ 18 + b * 2 ^ 12 + c * 2 ^ 6 :=
    or_of_dvd (k := 12) (by omega) (by omega)
  rw [h1, h2, or_of_dvd (k := 6) (by omega) (by omega)]

theorem or_eight {a b c : Nat} (hb : b < 256) (hc : c < 256) : a <<< 16 ||| b <<< 8 ||| c =
    a * 2 ^ 16 + b * 2 ^ 8 + c := by
  simp only [Nat.shiftLeft_eq]
  have h1 : a * 2 ^ 16 ||| b * 2 ^ 8 = a * 2 ^ 16 + b * 2 ^ 8 := or_of_dvd (k := 16) (by omega) (by omega)
  rw [h1, or_of_dvd (k := 8) (by omega) (by omega)]

theorem or_two (a : Nat) {b : Nat} (hb : b < 256) : a <<< 8 ||| b = a * 2 ^ 8 + b := by
  rw [Nat.shiftLeft_eq, or_of_dvd (k := 8) (by omega) (by omega)]

theorem or_pad_one {a b c : Nat} (hb : b < 64) (hc : c < 64) : a <<< 10 ||| b <<< 4 ||| c >>> 2 =
    a * 2 ^ 10 + b * 2 ^ 4 + c / 2 ^ 2 := by
  simp only [Nat.shiftLeft_eq, Nat.shiftRight_eq_div_pow]
  have h1 : a * 2 ^ 10 ||| b * 2 ^ 4 = a * 2 ^ 10 + b * 2 ^ 4 := or_of_dvd (k := 10) (by omega) (by omega)
  rw [h1, or_of_dvd (k := 4) (by omega) (by omega)]

theorem or_pad_two (a : Nat) {b : Nat} (hb : b < 64) : a <<< 2 ||| b >>> 4 = a * 2 ^ 2 + b / 2 ^ 4 := by
  simp only [Nat.shiftLeft_eq, Nat.shiftRight_eq_div_pow]
  rw [or_of_dvd (k := 2) (by omega) (by omega)]

theorem and_six (n : Nat) : n &&& 0x3f = n % 64 := Nat.and_two_pow_sub_one_eq_mod n 6

theorem and_eight (n : Nat) : n &&& 0xff = n % 256 := Nat.and_two_pow_sub_one_eq_mod n 8

theorem and_four (n : Nat) : n &&& 0xf = n % 16 := Nat.and_two_pow_sub_one_eq_mod n 4

theorem and_two (n : Nat) : n &&& 3 = n % 4 := Nat.and_two_pow_sub_one_eq_mod n 2

/-! ### Groups -/

def Group.of (c0 c1 c2 c3 : UInt8) : Group := ⟨b64index c0, b64index c1, b64index c2, b64index c3⟩

/-- A group is well formed: no padding before the third character, none before another character, and the bits that the
padding leaves over are zero. -/
def GroupOk (c0 c1 c2 c3 : UInt8) : Prop :=
  c0 ≠ pad ∧ c1 ≠ pad ∧ (c2 ≠ pad ∧ c3 ≠ pad ∨ c2 ≠ pad ∧ c3 = pad ∧ b64index c2 % 4 = 0 ∨
    c2 = pad ∧ c3 = pad ∧ b64index c1 % 16 = 0)

theorem natCast_ne_neg_two (n : Nat) : (n : Int) ≠ -2 := by omega

/-- The bytes of three characters and more. -/
theorem bytes_full {a b c d : Nat} (hb : b < 64) (hc : c < 64) (hd : d < 64) :
    Group.bytes ⟨a, b, c, d⟩ = .ok [UInt8.ofNat (a * 4 + b / 16), UInt8.ofNat (b % 16 * 16 + c / 4), UInt8.ofNat (c % 4 * 64 + d)] := by
  have hpadding : Group.padding ⟨a, b, c, d⟩ = 0 := by
    simp [Group.padding, natCast_ne_neg_two]
  have hor := or_six (a := a) hb hc hd
  simp only [Group.bytes, hpadding, Int.toNat_natCast, hor, and_eight, Nat.shiftRight_eq_div_pow]
  rw [show (a * 2 ^ 18 + b * 2 ^ 12 + c * 2 ^ 6 + d) / 2 ^ 16 = a * 4 + b / 16 by omega,
    show (a * 2 ^ 18 + b * 2 ^ 12 + c * 2 ^ 6 + d) / 2 ^ 8 % 256 = b % 16 * 16 + c / 4 by omega,
    show (a * 2 ^ 18 + b * 2 ^ 12 + c * 2 ^ 6 + d) % 256 = c % 4 * 64 + d by omega]

theorem bytes_pad_one {a b c : Nat} (hb : b < 64) (hc : c < 64) :
    Group.bytes ⟨a, b, c, -2⟩ = if c % 4 = 0 then .ok [UInt8.ofNat (a * 4 + b / 16), UInt8.ofNat (b % 16 * 16 + c / 4)]
      else .error .text := by
  have hpadding : Group.padding ⟨a, b, c, -2⟩ = 1 := by
    simp [Group.padding, natCast_ne_neg_two]
  have hor := or_pad_one (a := a) hb hc
  simp only [Group.bytes, hpadding, Int.toNat_natCast, hor, and_eight, and_two]
  rw [Nat.shiftRight_eq_div_pow, show (a * 2 ^ 10 + b * 2 ^ 4 + c / 2 ^ 2) / 2 ^ 8 = a * 4 + b / 16 by omega,
    show (a * 2 ^ 10 + b * 2 ^ 4 + c / 2 ^ 2) % 256 = b % 16 * 16 + c / 4 by omega]
  simp [ite_not]

theorem bytes_pad_two {a b : Nat} (hb : b < 64) :
    Group.bytes ⟨a, b, -2, -2⟩ = if b % 16 = 0 then .ok [UInt8.ofNat (a * 4 + b / 16)] else .error .text := by
  have hpadding : Group.padding ⟨a, b, -2, -2⟩ = 2 := by
    simp [Group.padding, natCast_ne_neg_two]
  have hor := or_pad_two a hb
  simp only [Group.bytes, hpadding, Int.toNat_natCast, hor, and_four]
  rw [show a * 2 ^ 2 + b / 2 ^ 4 = a * 4 + b / 16 by omega]
  simp [ite_not]

/-- Padding where none may be. -/
theorem bytes_error {g : Group} (h : g.c0 = -2 ∨ g.c1 = -2 ∨ g.c2 = -2 ∧ g.c3 ≠ -2) : g.bytes = .error .text := by
  obtain ⟨c0, c1, c2, c3⟩ := g
  by_cases h0 : c0 = -2 <;> by_cases h1 : c1 = -2 <;> by_cases h2 : c2 = -2 <;> by_cases h3 : c3 = -2 <;>
    simp_all [Group.bytes, Group.padding]

/-- The three kinds of groups, or no bytes. -/
theorem group_cases {c0 c1 c2 c3 : UInt8} (h0 : b64index c0 ≠ -1) (h1 : b64index c1 ≠ -1) (h2 : b64index c2 ≠ -1)
    (h3 : b64index c3 ≠ -1) :
    (∃ a b c d : Nat, (a < 64 ∧ b < 64 ∧ c < 64 ∧ d < 64) ∧
      c0 = encodingAt a ∧ c1 = encodingAt b ∧ c2 = encodingAt c ∧ c3 = encodingAt d ∧
      Group.of c0 c1 c2 c3 = ⟨a, b, c, d⟩) ∨
    (∃ a b c : Nat, (a < 64 ∧ b < 64 ∧ c < 64) ∧ c0 = encodingAt a ∧ c1 = encodingAt b ∧ c2 = encodingAt c ∧ c3 = pad ∧
      Group.of c0 c1 c2 c3 = ⟨a, b, c, -2⟩) ∨
    (∃ a b : Nat, (a < 64 ∧ b < 64) ∧ c0 = encodingAt a ∧ c1 = encodingAt b ∧ c2 = pad ∧ c3 = pad ∧
      Group.of c0 c1 c2 c3 = ⟨a, b, -2, -2⟩) ∨
    (Group.of c0 c1 c2 c3).bytes = .error .text ∧ ¬GroupOk c0 c1 c2 c3 := by
  by_cases hp0 : c0 = pad
  · exact .inr (.inr (.inr ⟨bytes_error (.inl (by rw [Group.of, hp0, b64index_pad])), fun h => h.1 hp0⟩))
  by_cases hp1 : c1 = pad
  · exact .inr (.inr (.inr ⟨bytes_error (.inr (.inl (by rw [Group.of, hp1, b64index_pad]))), fun h => h.2.1 hp1⟩))
  obtain ⟨a, ha, ha', rfl⟩ := exists_index h0 hp0
  obtain ⟨b, hb, hb', rfl⟩ := exists_index h1 hp1
  by_cases hp2 : c2 = pad
  · by_cases hp3 : c3 = pad
    · subst hp2 hp3
      exact .inr (.inr (.inl ⟨a, b, ⟨ha, hb⟩, rfl, rfl, rfl, rfl, by rw [Group.of, ha', hb', b64index_pad]⟩))
    · obtain ⟨d, hd, hd', rfl⟩ := exists_index h3 hp3
      refine .inr (.inr (.inr ⟨bytes_error (.inr (.inr ⟨?_, ?_⟩)), fun h => ?_⟩))
      · rw [Group.of, hp2, b64index_pad]
      · rw [Group.of, hd']
        exact natCast_ne_neg_two d
      · rcases h.2.2 with ⟨hn, -⟩ | ⟨hn, -⟩ | ⟨-, hn, -⟩
        · exact hn hp2
        · exact hn hp2
        · exact hp3 hn
  · obtain ⟨c, hc, hc', rfl⟩ := exists_index h2 hp2
    by_cases hp3 : c3 = pad
    · subst hp3
      exact .inr (.inl ⟨a, b, c, ⟨ha, hb, hc⟩, rfl, rfl, rfl, rfl, by rw [Group.of, ha', hb', hc', b64index_pad]⟩)
    · obtain ⟨d, hd, hd', rfl⟩ := exists_index h3 hp3
      exact .inl ⟨a, b, c, d, ⟨ha, hb, hc, hd⟩, rfl, rfl, rfl, rfl, by rw [Group.of, ha', hb', hc', hd']⟩

theorem toNat_ofNat_of_lt {n : Nat} (h : n < 256) : (UInt8.ofNat n).toNat = n := by
  rw [UInt8.toNat_ofNat', Nat.mod_eq_of_lt h]

/-- The bytes of a group are encoded as the group, which is padded when they are fewer than three. -/
theorem encode_of_bytes {c0 c1 c2 c3 : UInt8} {out : Bytes} (h0 : b64index c0 ≠ -1) (h1 : b64index c1 ≠ -1)
    (h2 : b64index c2 ≠ -1) (h3 : b64index c3 ≠ -1) (h : (Group.of c0 c1 c2 c3).bytes = .ok out) :
    GroupOk c0 c1 c2 c3 ∧ encodeLoop out = [c0, c1, c2, c3] ∧ (out.length = 3 ∨ c3 = pad) := by
  rcases group_cases h0 h1 h2 h3 with ⟨a, b, c, d, ⟨ha, hb, hc, hd⟩, rfl, rfl, rfl, rfl, hg⟩ |
    ⟨a, b, c, ⟨ha, hb, hc⟩, rfl, rfl, rfl, rfl, hg⟩ | ⟨a, b, ⟨ha, hb⟩, rfl, rfl, rfl, rfl, hg⟩ | ⟨herror, -⟩
  · rw [hg, bytes_full hb hc hd] at h
    cases h
    refine ⟨⟨encodingAt_ne_pad ha, encodingAt_ne_pad hb, .inl ⟨encodingAt_ne_pad hc, encodingAt_ne_pad hd⟩⟩, ?_, .inl rfl⟩
    simp only [encodeLoop]
    rw [toNat_ofNat_of_lt (by omega), toNat_ofNat_of_lt (by omega), toNat_ofNat_of_lt (by omega),
      or_eight (by omega) (by omega)]
    obtain ⟨e1, e2, e3, e4⟩ : ((a * 4 + b / 16) * 2 ^ 16 + (b % 16 * 16 + c / 4) * 2 ^ 8 + (c % 4 * 64 + d)) / 2 ^ 18 = a ∧
        ((a * 4 + b / 16) * 2 ^ 16 + (b % 16 * 16 + c / 4) * 2 ^ 8 + (c % 4 * 64 + d)) / 2 ^ 12 % 64 = b ∧
        ((a * 4 + b / 16) * 2 ^ 16 + (b % 16 * 16 + c / 4) * 2 ^ 8 + (c % 4 * 64 + d)) / 2 ^ 6 % 64 = c ∧
        ((a * 4 + b / 16) * 2 ^ 16 + (b % 16 * 16 + c / 4) * 2 ^ 8 + (c % 4 * 64 + d)) % 64 = d := by
      omega
    simp only [and_six, Nat.shiftRight_eq_div_pow, e1, e2, e3, e4]
  · rw [hg, bytes_pad_one hb hc] at h
    split at h
    · rename_i hzero
      cases h
      refine ⟨⟨encodingAt_ne_pad ha, encodingAt_ne_pad hb, .inr (.inl ⟨encodingAt_ne_pad hc, rfl, ?_⟩)⟩, ?_, .inr rfl⟩
      · rw [b64index_encodingAt hc]
        omega
      · simp only [encodeLoop]
        rw [toNat_ofNat_of_lt (by omega), toNat_ofNat_of_lt (by omega), or_two _ (by omega)]
        obtain ⟨e1, e2, e3⟩ : ((a * 4 + b / 16) * 2 ^ 8 + (b % 16 * 16 + c / 4)) / 2 ^ 10 = a ∧
            ((a * 4 + b / 16) * 2 ^ 8 + (b % 16 * 16 + c / 4)) / 2 ^ 4 % 64 = b ∧
            ((a * 4 + b / 16) * 2 ^ 8 + (b % 16 * 16 + c / 4)) % 16 * 2 ^ 2 = c := by
          omega
        simp only [and_six, and_four, Nat.shiftRight_eq_div_pow, Nat.shiftLeft_eq, e1, e2, e3]
    · cases h
  · rw [hg, bytes_pad_two hb] at h
    split at h
    · rename_i hzero
      cases h
      refine ⟨⟨encodingAt_ne_pad ha, encodingAt_ne_pad hb, .inr (.inr ⟨rfl, rfl, ?_⟩)⟩, ?_, .inr rfl⟩
      · rw [b64index_encodingAt hb]
        omega
      · simp only [encodeLoop]
        rw [toNat_ofNat_of_lt (by omega)]
        obtain ⟨e1, e2⟩ : (a * 4 + b / 16) / 2 ^ 2 = a ∧ (a * 4 + b / 16) % 4 * 2 ^ 4 = b := by
          omega
        simp only [and_two, Nat.shiftRight_eq_div_pow, Nat.shiftLeft_eq, e1, e2]
    · cases h
  · rw [herror] at h
    cases h

/-- A well-formed group has bytes. -/
theorem bytes_of_groupOk {c0 c1 c2 c3 : UInt8} (h0 : b64index c0 ≠ -1) (h1 : b64index c1 ≠ -1) (h2 : b64index c2 ≠ -1)
    (h3 : b64index c3 ≠ -1) (h : GroupOk c0 c1 c2 c3) : ∃ out, (Group.of c0 c1 c2 c3).bytes = .ok out := by
  rcases group_cases h0 h1 h2 h3 with ⟨a, b, c, d, ⟨ha, hb, hc, hd⟩, rfl, rfl, rfl, rfl, hg⟩ |
    ⟨a, b, c, ⟨ha, hb, hc⟩, rfl, rfl, rfl, rfl, hg⟩ | ⟨a, b, ⟨ha, hb⟩, rfl, rfl, rfl, rfl, hg⟩ | ⟨-, hnot⟩
  · exact ⟨_, by rw [hg, bytes_full hb hc hd]⟩
  · have hzero : c % 4 = 0 := by
      rcases h.2.2 with ⟨-, hn⟩ | ⟨-, -, hz⟩ | ⟨hn, -⟩
      · exact absurd rfl hn
      · rw [b64index_encodingAt hc] at hz
        omega
      · exact absurd hn (encodingAt_ne_pad hc)
    exact ⟨_, by rw [hg, bytes_pad_one hb hc, if_pos hzero]⟩
  · have hzero : b % 16 = 0 := by
      rcases h.2.2 with ⟨hn, -⟩ | ⟨hn, -⟩ | ⟨-, -, hz⟩
      · exact absurd rfl hn
      · exact absurd rfl hn
      · rw [b64index_encodingAt hb] at hz
        omega
    exact ⟨_, by rw [hg, bytes_pad_two hb, if_pos hzero]⟩
  · exact absurd h hnot

/-! ### Texts of groups -/

/-- The texts of groups, and the bytes that they stand for. -/
inductive Groups : Bytes → Bytes → Prop
  | nil : Groups [] []
  | cons {c0 c1 c2 c3 : UInt8} {cs o r : Bytes} (h : (Group.of c0 c1 c2 c3).bytes = .ok o) (hr : Groups cs r) :
    Groups (c0 :: c1 :: c2 :: c3 :: cs) (o ++ r)

theorem groups_three (a b c : UInt8) {cs r : Bytes} (h : Groups cs r) (hcs : cs = encodeLoop r) :
    Groups (encodeLoop (a :: b :: c :: r)) (a :: b :: c :: r) := by
  have ha := a.toNat_lt
  have hb := b.toNat_lt
  have hc := c.toNat_lt
  simp only [encodeLoop, or_eight hb hc, and_six, Nat.shiftRight_eq_div_pow]
  rw [← hcs]
  refine .cons (o := [a, b, c]) ?_ h
  rw [Group.of, b64index_encodingAt (by omega), b64index_encodingAt (by omega), b64index_encodingAt (by omega),
    b64index_encodingAt (by omega), bytes_full (by omega) (by omega) (by omega)]
  obtain ⟨e1, e2, e3⟩ :
      (a.toNat * 2 ^ 16 + b.toNat * 2 ^ 8 + c.toNat) / 2 ^ 18 * 4 +
        (a.toNat * 2 ^ 16 + b.toNat * 2 ^ 8 + c.toNat) / 2 ^ 12 % 64 / 16 = a.toNat ∧
      (a.toNat * 2 ^ 16 + b.toNat * 2 ^ 8 + c.toNat) / 2 ^ 12 % 64 % 16 * 16 +
        (a.toNat * 2 ^ 16 + b.toNat * 2 ^ 8 + c.toNat) / 2 ^ 6 % 64 / 4 = b.toNat ∧
      (a.toNat * 2 ^ 16 + b.toNat * 2 ^ 8 + c.toNat) / 2 ^ 6 % 64 % 4 * 64 +
        (a.toNat * 2 ^ 16 + b.toNat * 2 ^ 8 + c.toNat) % 64 = c.toNat := by
    omega
  rw [e1, e2, e3, UInt8.ofNat_toNat, UInt8.ofNat_toNat, UInt8.ofNat_toNat]

theorem groups_two (a b : UInt8) : Groups (encodeLoop [a, b]) [a, b] := by
  have ha := a.toNat_lt
  have hb := b.toNat_lt
  simp only [encodeLoop, or_two _ hb, and_six, and_four]
  simp only [Nat.shiftRight_eq_div_pow, Nat.shiftLeft_eq]
  refine .cons (o := [a, b]) ?_ .nil
  rw [Group.of, b64index_encodingAt (by omega), b64index_encodingAt (by omega), b64index_encodingAt (by omega),
    b64index_pad, bytes_pad_one (by omega) (by omega), if_pos (by omega)]
  obtain ⟨e1, e2⟩ :
      (a.toNat * 2 ^ 8 + b.toNat) / 2 ^ 10 * 4 + (a.toNat * 2 ^ 8 + b.toNat) / 2 ^ 4 % 64 / 16 = a.toNat ∧
      (a.toNat * 2 ^ 8 + b.toNat) / 2 ^ 4 % 64 % 16 * 16 + (a.toNat * 2 ^ 8 + b.toNat) % 16 * 2 ^ 2 / 4 = b.toNat := by
    omega
  rw [e1, e2, UInt8.ofNat_toNat, UInt8.ofNat_toNat]

theorem groups_one (a : UInt8) : Groups (encodeLoop [a]) [a] := by
  have ha := a.toNat_lt
  simp only [encodeLoop, and_two, Nat.shiftRight_eq_div_pow, Nat.shiftLeft_eq]
  refine .cons (o := [a]) ?_ .nil
  rw [Group.of, b64index_encodingAt (by omega), b64index_encodingAt (by omega), b64index_pad, bytes_pad_two (by omega),
    if_pos (by omega), show a.toNat / 2 ^ 2 * 4 + a.toNat % 4 * 2 ^ 4 / 16 = a.toNat by omega, UInt8.ofNat_toNat]

theorem groups_encode (s : Bytes) : Groups (encodeLoop s) s := by
  induction s using encodeLoop.induct with
  | case1 a b c text ih => exact groups_three a b c ih rfl
  | case2 a b => exact groups_two a b
  | case3 a => exact groups_one a
  | case4 => exact .nil

theorem Groups.length_eq {cs r : Bytes} (h : Groups cs r) : cs.length % 4 = 0 ∧ (cs = [] → r = []) := by
  induction h with
  | nil => exact ⟨rfl, fun _ => rfl⟩
  | cons _ _ ih =>
    refine ⟨?_, fun he => by cases he⟩
    simp only [List.length_cons]
    omega

/-- An equals sign with two or more characters behind it: it is not in the last group. -/
def MidPadded (cs : Bytes) : Prop := ∃ l₁ l₂, cs = l₁ ++ pad :: l₂ ∧ 2 ≤ l₂.length

theorem midPadded_cons {c : UInt8} {cs : Bytes} : MidPadded (c :: cs) ↔ c = pad ∧ 2 ≤ cs.length ∨ MidPadded cs := by
  constructor
  · rintro ⟨l₁, l₂, he, hlength⟩
    cases l₁ with
    | nil =>
      cases he
      exact .inl ⟨rfl, hlength⟩
    | cons d l₁ =>
      cases he
      exact .inr ⟨l₁, l₂, rfl, hlength⟩
  · rintro (⟨rfl, hlength⟩ | ⟨l₁, l₂, rfl, hlength⟩)
    · exact ⟨[], cs, rfl, hlength⟩
    · exact ⟨c :: l₁, l₂, rfl, hlength⟩

theorem length_encodeLoop (s : Bytes) : (encodeLoop s).length = (s.length + 2) / 3 * 4 := by
  induction s using encodeLoop.induct with
  | case1 a b c text ih =>
    simp only [encodeLoop, List.length_cons, ih]
    omega
  | case2 | case3 | case4 => simp [encodeLoop]

/-- A text of well-formed groups. -/
def WellFormed : Bytes → Prop
  | [] => True
  | c0 :: c1 :: c2 :: c3 :: cs => GroupOk c0 c1 c2 c3 ∧ WellFormed cs
  | _ => False

/-- A byte that `lb64decode` does not skip. -/
abbrev IsDigit64 (c : UInt8) : Prop := b64index c ≠ -1

theorem Groups.wellFormed {cs r : Bytes} (hcs : ∀ c ∈ cs, IsDigit64 c) (h : Groups cs r) : WellFormed cs := by
  induction h with
  | nil => trivial
  | cons h _ ih =>
    simp only [List.forall_mem_cons] at hcs
    obtain ⟨h0, h1, h2, h3, hrest⟩ := hcs
    exact ⟨(encode_of_bytes h0 h1 h2 h3 h).1, ih hrest⟩

theorem WellFormed.groups {cs : Bytes} (hcs : ∀ c ∈ cs, IsDigit64 c) (h : WellFormed cs) : ∃ r, Groups cs r := by
  induction cs using WellFormed.induct with
  | case1 => exact ⟨[], .nil⟩
  | case2 c0 c1 c2 c3 cs ih =>
    simp only [List.forall_mem_cons] at hcs
    obtain ⟨h0, h1, h2, h3, hrest⟩ := hcs
    obtain ⟨out, hout⟩ := bytes_of_groupOk h0 h1 h2 h3 h.1
    obtain ⟨r, hr⟩ := ih hrest h.2
    exact ⟨_, .cons hout hr⟩
  | case3 cs hnil hcons =>
    unfold WellFormed at h
    split at h
    · exact absurd rfl hnil
    · exact absurd rfl (hcons _ _ _ _ _)
    · exact h.elim

/-- Groups that are padded at the end alone are the encoding of their bytes. -/
theorem Groups.encode {cs r : Bytes} (hcs : ∀ c ∈ cs, IsDigit64 c) (h : Groups cs r) (hmid : ¬MidPadded cs) :
    encodeLoop r = cs := by
  induction h with
  | nil => rfl
  | @cons c0 c1 c2 c3 cs out r h hr ih =>
    simp only [List.forall_mem_cons] at hcs
    obtain ⟨h0, h1, h2, h3, hrest⟩ := hcs
    obtain ⟨-, hout, hlast⟩ := encode_of_bytes h0 h1 h2 h3 h
    simp only [midPadded_cons, not_or] at hmid
    obtain ⟨-, -, -, hpadded, hmid⟩ := hmid
    have hrest := ih hrest hmid
    have hlength := hr.length_eq
    by_cases hthree : out.length = 3
    · obtain ⟨a, b, c, rfl⟩ := List.length_eq_three.mp hthree
      simp only [encodeLoop, List.cons.injEq, and_true] at hout
      simp only [List.cons_append, List.nil_append, encodeLoop, hout, hrest]
    · have hpad := hlast.resolve_left hthree
      have hnil : cs = [] := by
        cases cs with
        | nil => rfl
        | cons c cs =>
          refine absurd ⟨hpad, ?_⟩ hpadded
          simp only [List.length_cons] at hlength ⊢
          omega
      subst hnil
      rw [hlength.2 rfl, List.append_nil, hout]

/-! ### Skipped bytes -/

/-- A text without the bytes that `lb64decode` skips. -/
def digits (text : Bytes) : Bytes := text.filter fun c => decide (IsDigit64 c)

/-- A text that does not end in a skipped byte. -/
def Closed (text : Bytes) : Prop := ∀ c ∈ text.getLast?, IsDigit64 c

theorem isDigit64_of_mem {c : UInt8} {text : Bytes} (h : c ∈ digits text) : IsDigit64 c :=
  of_decide_eq_true (List.mem_filter.mp h).2

theorem digits_skip {b : UInt8} (hb : b64index b = -1) (text : Bytes) : digits (b :: text) = digits text :=
  List.filter_cons_of_neg (by simp [IsDigit64, hb])

theorem digits_digit {b : UInt8} (hb : IsDigit64 b) (text : Bytes) : digits (b :: text) = b :: digits text :=
  List.filter_cons_of_pos (by simpa using hb)

theorem closed_digit {b : UInt8} (hb : IsDigit64 b) (text : Bytes) : Closed (b :: text) ↔ Closed text := by
  cases text with
  | nil => simpa [Closed] using hb
  | cons c text => rw [Closed, Closed, List.getLast?_cons_cons]

theorem closed_skip {b c : UInt8} {text : Bytes} : Closed (b :: c :: text) ↔ Closed (c :: text) := by
  rw [Closed, Closed, List.getLast?_cons_cons]

/-- A text that ends in a digit has one. -/
theorem digits_ne_nil {text : Bytes} (h : Closed text) (hne : text ≠ []) : digits text ≠ [] := by
  obtain ⟨c, hc⟩ : ∃ c, text.getLast? = some c := ⟨_, List.getLast?_eq_some_getLast hne⟩
  exact List.ne_nil_of_mem (List.mem_filter.mpr ⟨List.mem_of_getLast? hc, decide_eq_true (h c hc)⟩)

theorem nextIndex_ok {i : Nat} {text : Bytes} {x : Int} {j : Nat} {rest : Bytes}
    (h : nextIndex i text = .ok (x, j, rest)) : ∃ c, x = b64index c ∧ digits text = c :: digits rest ∧
      (Closed text ↔ Closed rest) ∧ j + rest.length = i + text.length ∧ j < 2 ^ 31 := by
  induction text generalizing i with
  | nil => cases h
  | cons b text ih =>
    simp only [nextIndex] at h
    split at h
    · rename_i hi
      split at h
      · rename_i hb
        obtain ⟨c, hc, hdigits, hclosed, hlength, hj⟩ := ih h
        refine ⟨c, hc, by rw [digits_skip hb, hdigits], ?_, by simp only [List.length_cons]; omega, hj⟩
        cases text with
        | nil => cases h
        | cons d text => rw [closed_skip, hclosed]
      · rename_i hb
        cases h
        exact ⟨b, rfl, digits_digit hb _, closed_digit hb _, by simp only [List.length_cons]; omega, hi⟩
    · cases h

theorem nextIndex_of_digits {i : Nat} {text : Bytes} {c : UInt8} {cs : Bytes} (h : digits text = c :: cs)
    (hlt : i + text.length < 2 ^ 31) : ∃ j rest, nextIndex i text = .ok (b64index c, j, rest) ∧ digits rest = cs ∧
      j + rest.length = i + text.length := by
  have hsome : ∃ x j rest, nextIndex i text = .ok (x, j, rest) := by
    induction text generalizing i with
    | nil => cases h
    | cons b text ih =>
      simp only [List.length_cons] at hlt
      simp only [nextIndex, if_pos (show i + 1 < 2 ^ 31 by omega)]
      split
      · rename_i hb
        rw [digits_skip hb] at h
        exact ih h (by omega)
      · exact ⟨_, _, _, rfl⟩
  obtain ⟨x, j, rest, hnext⟩ := hsome
  obtain ⟨d, rfl, hdigits, -, hlength, -⟩ := nextIndex_ok hnext
  rw [h, List.cons.injEq] at hdigits
  obtain ⟨rfl, rfl⟩ := hdigits
  exact ⟨j, rest, hnext, rfl, hlength⟩

theorem readGroup_ok {i : Nat} {text : Bytes} {g : Group} {j : Nat} {rest : Bytes}
    (h : readGroup i text = .ok (g, j, rest)) : ∃ c0 c1 c2 c3, g = Group.of c0 c1 c2 c3 ∧
      digits text = c0 :: c1 :: c2 :: c3 :: digits rest ∧ (Closed text ↔ Closed rest) ∧
      j + rest.length = i + text.length ∧ j < 2 ^ 31 := by
  obtain ⟨i₁, t₁, i₂, t₂, i₃, t₃, h₀, h₁, h₂, h₃⟩ := readGroup_eq_ok h
  obtain ⟨c0, hc0, hd0, hclosed0, hl0, -⟩ := nextIndex_ok h₀
  obtain ⟨c1, hc1, hd1, hclosed1, hl1, -⟩ := nextIndex_ok h₁
  obtain ⟨c2, hc2, hd2, hclosed2, hl2, -⟩ := nextIndex_ok h₂
  obtain ⟨c3, hc3, hd3, hclosed3, hl3, hj⟩ := nextIndex_ok h₃
  refine ⟨c0, c1, c2, c3, ?_, by rw [hd0, hd1, hd2, hd3], ?_, by omega, hj⟩
  · obtain ⟨x0, x1, x2, x3⟩ := g
    rw [Group.of, ← hc0, ← hc1, ← hc2, ← hc3]
  · rw [hclosed0, hclosed1, hclosed2, hclosed3]

theorem readGroup_of_digits {i : Nat} {text : Bytes} {c0 c1 c2 c3 : UInt8} {cs : Bytes}
    (h : digits text = c0 :: c1 :: c2 :: c3 :: cs) (hlt : i + text.length < 2 ^ 31) :
    ∃ r, readGroup i text = .ok r := by
  obtain ⟨i₁, t₁, h₀, hd, hl₀⟩ := nextIndex_of_digits h hlt
  obtain ⟨i₂, t₂, h₁, hd, hl₁⟩ := nextIndex_of_digits hd (i := i₁) (by omega)
  obtain ⟨i₃, t₃, h₂, hd, hl₂⟩ := nextIndex_of_digits hd (i := i₂) (by omega)
  obtain ⟨i₄, t₄, h₃, hd, hl₃⟩ := nextIndex_of_digits hd (i := i₃) (by omega)
  refine ⟨(Group.of c0 c1 c2 c3, i₄, t₄), ?_⟩
  simp only [readGroup, h₀, h₁, h₂, h₃, bind, Except.bind]
  rfl

/-- The loop takes the texts of groups that do not end in a skipped byte, and whose length is an `int`. -/
theorem decodeLoop_iff {i : Nat} {text r : Bytes} (hi : i < 2 ^ 31) :
    decodeLoop i text = .ok r ↔ Closed text ∧ i + text.length < 2 ^ 31 ∧ Groups (digits text) r := by
  fun_induction decodeLoop i text generalizing r with
  | case1 i =>
    constructor
    · intro h
      obtain rfl := Except.ok.inj h
      exact ⟨by simp [Closed], by simpa using hi, .nil⟩
    · rintro ⟨-, -, h⟩
      rw [(h.length_eq).2 rfl]
  | case2 i text hne e he =>
    refine iff_of_false (by simp) ?_
    rintro ⟨hclosed, hlt, h⟩
    have hsome : ∃ r, readGroup i text = .ok r := by
      generalize hcs : digits text = cs at h
      cases h with
      | nil => exact absurd hcs (digits_ne_nil hclosed hne)
      | cons => exact readGroup_of_digits hcs hlt
    obtain ⟨r, hr⟩ := hsome
    cases he.symm.trans hr
  | case3 i text hne g j rest hg e he =>
    refine iff_of_false (by simp) ?_
    rintro ⟨-, -, h⟩
    obtain ⟨c0, c1, c2, c3, rfl, hdigits, -⟩ := readGroup_ok hg
    rw [hdigits] at h
    cases h with
    | cons hout => cases he.symm.trans hout
  | case4 i text hne g j rest hg out hout ih =>
    obtain ⟨c0, c1, c2, c3, rfl, hdigits, hclosed, hlength, hj⟩ := readGroup_ok hg
    have ih := fun r => ih (r := r) hj
    rw [hdigits, hclosed, ← hlength]
    constructor
    · intro h
      cases hrest : decodeLoop j rest with
      | error e =>
        rw [hrest] at h
        cases h
      | ok r' =>
        rw [hrest] at h
        cases h
        obtain ⟨hc, hl, hr⟩ := (ih r').mp hrest
        exact ⟨hc, hl, .cons hout hr⟩
    · rintro ⟨hc, hl, h⟩
      cases h with
      | cons hout' hr =>
        cases hout.symm.trans hout'
        rw [(ih _).mpr ⟨hc, hl, hr⟩]
        rfl

/-! ### The codec -/

/-- A byte that `lb64decode` skips. -/
abbrev Skipped : Type := { b : UInt8 // b64index b = -1 }

/-- A text with the skipped bytes `gap n` before its character `n`, or at its end. -/
def spread : Bytes → (Nat → List Skipped) → Bytes
  | [], gap => (gap 0).map (·.1)
  | c :: cs, gap => (gap 0).map (·.1) ++ c :: spread cs fun n => gap (n + 1)

theorem digits_append_skipped (bs : List Skipped) (text : Bytes) : digits (bs.map (·.1) ++ text) = digits text := by
  induction bs with
  | nil => rfl
  | cons b bs ih =>
    rw [List.map_cons, List.cons_append, digits_skip b.2, ih]

theorem digits_spread {cs : Bytes} (hcs : ∀ c ∈ cs, IsDigit64 c) (gap : Nat → List Skipped) : digits (spread cs gap) = cs := by
  induction cs generalizing gap with
  | nil => rw [spread, ← List.append_nil (List.map _ _), digits_append_skipped]; rfl
  | cons c cs ih =>
    rw [spread, digits_append_skipped, digits_digit (hcs c (List.mem_cons_self ..)),
      ih fun d hd => hcs d (List.mem_cons_of_mem _ hd)]

theorem closed_append (bs : Bytes) {c : UInt8} {text : Bytes} : Closed (bs ++ c :: text) ↔ Closed (c :: text) := by
  induction bs with
  | nil => rfl
  | cons b bs ih =>
    cases bs with
    | nil => exact closed_skip
    | cons d bs => rw [List.cons_append, List.cons_append, closed_skip, ← List.cons_append, ih]

/-- A text closes when nothing is skipped at its end. -/
theorem closed_spread {cs : Bytes} (hcs : ∀ c ∈ cs, IsDigit64 c) (gap : Nat → List Skipped) :
    Closed (spread cs gap) ↔ gap cs.length = [] := by
  induction cs generalizing gap with
  | nil =>
    rw [spread, List.length_nil, Closed]
    constructor
    · intro h
      by_contra hne
      obtain ⟨b, hb⟩ : ∃ b, (gap 0).getLast? = some b := ⟨_, List.getLast?_eq_some_getLast hne⟩
      exact h b.1 (by rw [List.getLast?_map, hb]; rfl) b.2
    · intro h
      simp [h]
  | cons c cs ih =>
    rw [spread, closed_append, closed_digit (hcs c (List.mem_cons_self ..)),
      ih fun d hd => hcs d (List.mem_cons_of_mem _ hd), List.length_cons]

theorem length_spread (cs : Bytes) (gap : Nat → List Skipped) :
    (spread cs gap).length = cs.length + ((List.range (cs.length + 1)).map fun n => (gap n).length).sum := by
  induction cs generalizing gap with
  | nil => simp [spread]
  | cons c cs ih =>
    have hsum : ((List.range (cs.length + 1 + 1)).map fun n => (gap n).length).sum =
        (gap 0).length + ((List.range (cs.length + 1)).map fun n => (gap (n + 1)).length).sum := by
      rw [List.range_succ_eq_map, List.map_cons, List.sum_cons, List.map_map]
      rfl
    rw [spread, List.length_append, List.length_map, List.length_cons, ih, List.length_cons, hsum]
    omega

theorem isDigit64_encode (s : Bytes) : ∀ c ∈ encodeLoop s, IsDigit64 c := by
  have hchar {n : Nat} (hn : n < 64) : IsDigit64 (encodingAt n) := by
    rw [IsDigit64, b64index_encodingAt hn]
    omega
  have hpad : IsDigit64 pad := by
    rw [IsDigit64, b64index_pad]
    omega
  induction s using encodeLoop.induct with
  | case1 a b c text ih =>
    have ha := a.toNat_lt
    have hb := b.toNat_lt
    have hc := c.toNat_lt
    simp only [encodeLoop, or_eight hb hc, and_six, Nat.shiftRight_eq_div_pow, List.forall_mem_cons]
    exact ⟨hchar (by omega), hchar (by omega), hchar (by omega), hchar (by omega), ih⟩
  | case2 a b =>
    have ha := a.toNat_lt
    have hb := b.toNat_lt
    simp only [encodeLoop, or_two _ hb, and_six, and_four]
    simp only [Nat.shiftRight_eq_div_pow, Nat.shiftLeft_eq, List.forall_mem_cons]
    exact ⟨hchar (by omega), hchar (by omega), hchar (by omega), hpad, by simp⟩
  | case3 a =>
    have ha := a.toNat_lt
    simp only [encodeLoop, and_two, Nat.shiftRight_eq_div_pow, Nat.shiftLeft_eq, List.forall_mem_cons]
    exact ⟨hchar (by omega), hchar (by omega), hpad, hpad, by simp⟩
  | case4 => simp [encodeLoop]

/-- What is encoded comes back, also with skipped bytes anywhere in it, and a text that is decoded is the encoding of its
bytes but for what is skipped, with the padding in its last group. -/
structure Base64Meets (s : Bytes) (gap : Nat → List Skipped) (t : Bytes) : Prop where
  decoded : ∃ e, lb64encode s = .ok e ∧ lb64decode e = .ok s ∧ lb64decode (spread e gap) = .ok s
  encoded : ∀ r, lb64decode t = .ok r → lb64encode r = .ok (digits t) ∧ ¬MidPadded (digits t)

/-- The number of bytes in the gaps of a text of `n` characters. -/
def gapLength (gap : Nat → List Skipped) (n : Nat) : Nat := ((List.range (n + 1)).map fun i => (gap i).length).sum

theorem lb64decode_iff {t r : Bytes} : lb64decode t = .ok r ↔ Closed t ∧ t.length < 2 ^ 31 ∧ Groups (digits t) r := by
  rw [lb64decode, decodeLoop_iff (by decide), Nat.zero_add]

theorem decoded_base64_iff (s : Bytes) (gap : Nat → List Skipped) :
    (∃ e, lb64encode s = .ok e ∧ lb64decode e = .ok s ∧ lb64decode (spread e gap) = .ok s) ↔
      gap ((s.length + 2) / 3 * 4) = [] ∧
        (s.length + 2) / 3 * 4 + gapLength gap ((s.length + 2) / 3 * 4) < 2 ^ 31 := by
  have hdigit := isDigit64_encode s
  have hlength := length_encodeLoop s
  have hplain : spread (encodeLoop s) (fun _ => []) = encodeLoop s := by
    generalize encodeLoop s = cs
    induction cs with
    | nil => rfl
    | cons c cs ih => rw [spread, ih]; rfl
  have hspread : ∀ gap, lb64decode (spread (encodeLoop s) gap) = .ok s ↔ gap ((s.length + 2) / 3 * 4) = [] ∧
      (s.length + 2) / 3 * 4 + gapLength gap ((s.length + 2) / 3 * 4) < 2 ^ 31 := by
    intro gap
    rw [lb64decode_iff, closed_spread hdigit, length_spread, digits_spread hdigit, hlength, gapLength,
      ← and_assoc, and_iff_left (groups_encode s)]
  rw [lb64encode]
  constructor
  · rintro ⟨e, he, -, hdecode⟩
    split at he
    · cases he
      exact (hspread gap).mp hdecode
    · cases he
  · intro h
    refine ⟨encodeLoop s, if_pos (by omega), ?_, (hspread gap).mpr h⟩
    rw [← hplain, hspread]
    exact ⟨rfl, by simp [gapLength]; omega⟩

theorem encoded_base64_iff (t : Bytes) :
    (∀ r, lb64decode t = .ok r → lb64encode r = .ok (digits t) ∧ ¬MidPadded (digits t)) ↔
      ¬(Closed t ∧ t.length < 2 ^ 31 ∧ WellFormed (digits t) ∧ MidPadded (digits t)) := by
  constructor
  · rintro h ⟨hclosed, hlt, hwell, hmid⟩
    obtain ⟨r, hr⟩ := hwell.groups fun c hc => isDigit64_of_mem hc
    exact (h r (lb64decode_iff.mpr ⟨hclosed, hlt, hr⟩)).2 hmid
  · intro h r hr
    obtain ⟨hclosed, hlt, hgroups⟩ := lb64decode_iff.mp hr
    have hwell := hgroups.wellFormed fun c hc => isDigit64_of_mem hc
    have hmid : ¬MidPadded (digits t) := fun hmid => h ⟨hclosed, hlt, hwell, hmid⟩
    have hencode := hgroups.encode (fun c hc => isDigit64_of_mem hc) hmid
    have hlength : (digits t).length ≤ t.length := List.length_filter_le ..
    refine ⟨?_, hmid⟩
    rw [lb64encode, if_pos, hencode]
    rw [← length_encodeLoop, hencode]
    omega

/-- The codec is as it should be when the encoded text with its skipped bytes has a length that is an `int` and no skipped
byte at its end, and when the other text is not one of groups of which an earlier one is padded. -/
theorem base64_iff (s : Bytes) (gap : Nat → List Skipped) (t : Bytes) :
    Base64Meets s gap t ↔
      gap ((s.length + 2) / 3 * 4) = [] ∧ (s.length + 2) / 3 * 4 + gapLength gap ((s.length + 2) / 3 * 4) < 2 ^ 31 ∧
      ¬(Closed t ∧ t.length < 2 ^ 31 ∧ WellFormed (digits t) ∧ MidPadded (digits t)) := by
  rw [← and_assoc, ← decoded_base64_iff, ← encoded_base64_iff]
  exact ⟨fun h => ⟨h.decoded, h.encoded⟩, fun ⟨hdecoded, hencoded⟩ => ⟨hdecoded, hencoded⟩⟩

/-- A line break behind `"QQ=="` is not taken, and `"QQ==QQ=="` is. -/
theorem base64_line_break :
    ¬(∀ s gap t, Base64Meets s gap t) ∧ (∀ r, lb64decode [0x51, 0x51, 0x3d, 0x3d, 0x0a] ≠ .ok r) ∧
      lb64decode [0x51, 0x51, 0x3d, 0x3d, 0x51, 0x51, 0x3d, 0x3d] = .ok [0x41, 0x41] := by
  refine ⟨fun h => ?_, fun r hr => ?_, ?_⟩
  · have hbreak := (decoded_base64_iff [0x41] fun n => if n = 4 then [⟨0x0a, by decide⟩] else []).mp (h _ _ []).decoded
    exact absurd hbreak.1 (by simp)
  · exact (lb64decode_iff.mp hr).1 0x0a rfl (by decide)
  · rw [lb64decode_iff]
    refine ⟨by unfold Closed; simp; decide, by decide, ?_⟩
    exact .cons (o := [0x41]) (by decide +kernel) (.cons (o := [0x41]) (by decide +kernel) .nil)

end Crypt
end Skynet
