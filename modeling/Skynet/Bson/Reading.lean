import Skynet.Bson.Document
import Skynet.Lib.Outcome

/-!
# Skynet.Bson.Reading

What the functions of a reader do while it is in front of bytes of the block.

* `At` : the bytes in the range of a reader.
* `Explained` : the errors of a decoding, with what there is in the block when a byte outside of it is read or a length
  overflows.
* The lemmas `_at` are about the bytes that are there, and the lemmas `_reads` about any bytes.
-/

namespace Skynet
namespace Bson

open Lua
open Seri (toInt32 toUint32)
open Decimal (strtol)

/-! ### Numbers in bytes -/

theorem toInt32_of_lt {n : Nat} (h : n < 2 ^ 31) : toInt32 n = n := by
  unfold toInt32
  rw [Int.bmod_eq_of_le] <;> omega

theorem eq_of_toInt32 {n m : Nat} (hn : n < 2 ^ 32) (h : toInt32 n = m) : n = m := by
  unfold toInt32 at h
  rw [Int.bmod_def] at h
  split at h <;> omega

theorem toUint32_toInt32 {n : Nat} (h : n < 2 ^ 32) : toUint32 (toInt32 n) = n := by
  unfold toUint32 toInt32
  rw [show (0x100000000 : Int) = ((2 ^ 32 : Nat) : Int) from rfl, Int.bmod_emod]
  omega

theorem le_ofNat {w k : Nat} {xs : Bytes} (hw : w = 8 * k) (hxs : xs.length = k) :
    Endian.le k (BitVec.ofNat w (Endian.ofLe xs)).toNat = xs := by
  have hlt := Endian.ofLe_lt xs
  have hpow : 256 ^ k = 2 ^ w := by rw [hw, Nat.pow_mul]
  rw [BitVec.toNat_ofNat, Nat.mod_eq_of_lt (by rw [← hpow, ← hxs]; exact hlt), ← hxs, Endian.le_ofLe]

theorem ofNat_ofLe {w k : Nat} (v : BitVec w) (hw : w = 8 * k) :
    BitVec.ofNat w (Endian.ofLe (Endian.le k v.toNat)) = v := by
  have hpow : 256 ^ k = 2 ^ w := by rw [hw, Nat.pow_mul]
  rw [Endian.ofLe_le_of_lt (by rw [hpow]; exact v.isLt), BitVec.ofNat_toNat, BitVec.setWidth_eq]

/-! ### A reader in front of bytes -/

/-- `bs` are the bytes in the range of the reader. -/
structure At (data : Bytes) (r : Reader) (bs : Bytes) : Prop where
  ptr : 0 ≤ r.ptr
  size : r.size = bs.length
  rest : ∃ tail, data.drop r.ptr.toNat = bs ++ tail
  bound : r.ptr + bs.length ≤ data.length

/-- The number in four bytes of the block. -/
def lengthAt (data : Bytes) (p : Nat) : Int := toInt32 (Endian.ofLe ((data.drop p).take 4))

/-- There are a type and a key in front of a place in the block. -/
def FieldAt (data : Bytes) (bt : UInt8) (key : Bytes) (p : Nat) : Prop :=
  0 ∉ key ∧ ∃ q, p = q + key.length + 2 ∧ (data.drop q).take (key.length + 2) = bt :: (key ++ [0])

/-- The kinds of fields that begin with a length. -/
def Kind.hasLength : Kind → Bool
  | .string | .document | .array | .binary | .dbpointer | .jscode | .symbol | .codews => true
  | _ => false

/-- What there is in the block when a decoding ends with an error. -/
def Explained (data : Bytes) : DecodeError → Prop
  | .outside pos =>
    ∃ array key p, FieldAt data (tableKind array).byte key p ∧ lengthAt data p < 0 ∧ pos = p + lengthAt data p - 1
  | .overflow =>
    (∃ k key p, FieldAt data (Kind.byte k) key p ∧ k.hasLength = true ∧
      (lengthAt data p < 0 ∨ k = .dbpointer ∧ 2 ^ 31 - 12 ≤ lengthAt data p)) ∨
    ∃ bt key p, FieldAt data bt key p ∧ strtol key = 2 ^ 63 - 1
  | .fuel => False
  | _ => True

section Reading

variable {data : Bytes} {r : Reader} {xs ys bs : Bytes}

theorem At.skip (h : At data r (xs ++ ys)) : At data (r.skip xs.length) ys := by
  obtain ⟨hptr, hsize, ⟨tail, htail⟩, hbound⟩ := h
  rw [List.length_append] at hsize hbound
  refine ⟨by simp only [Reader.skip]; omega, by simp only [Reader.skip]; omega, ⟨tail, ?_⟩,
    by simp only [Reader.skip]; omega⟩
  have hto : (r.ptr + xs.length).toNat = r.ptr.toNat + xs.length := by omega
  rw [Reader.skip, hto, ← List.drop_drop, htail, List.append_assoc, List.drop_left]

/-- A range of which only the front is looked at. -/
theorem At.front (h : At data r (xs ++ ys)) : At data { r with size := xs.length } xs := by
  obtain ⟨hptr, hsize, ⟨tail, htail⟩, hbound⟩ := h
  rw [List.length_append] at hbound
  exact ⟨hptr, rfl, ⟨ys ++ tail, by rw [htail, List.append_assoc]⟩, by simp only; omega⟩

theorem bytesAt_at (h : At data r (xs ++ ys)) : bytesAt data r.ptr xs.length = .ok xs := by
  obtain ⟨hptr, -, ⟨tail, htail⟩, hbound⟩ := h
  rw [List.length_append] at hbound
  rw [bytesAt, if_pos ⟨hptr, by omega⟩, htail, List.append_assoc, List.take_left]

theorem pushlstring_at (h : At data r (xs ++ ys)) {n : Int} (hn : n = xs.length) :
    pushlstring data r.ptr n = .ok xs := by
  rw [pushlstring, if_neg (by omega), hn, Int.toNat_natCast, bytesAt_at h]

theorem readNat_at (h : At data r (xs ++ ys)) {n : Nat} (hn : n = xs.length) :
    readNat data r n = .ok (Endian.ofLe xs, r.skip n) := by
  have hsize := h.size
  rw [List.length_append] at hsize
  have hcheck : checkReader r n = .ok () := by rw [checkReader, if_neg (by omega)]
  rw [readNat, hcheck]
  simp only [bind, Except.bind]
  rw [hn, bytesAt_at h]

theorem readBytes_at (h : At data r (xs ++ ys)) (hdata : data.length < 2 ^ 31) {n : Int} (hn : n = xs.length) :
    readBytes r n = .ok (r.ptr, r.skip n) := by
  obtain ⟨hptr, hsize, -, hbound⟩ := h
  rw [List.length_append] at hsize hbound
  have hcheck : checkReader r n = .ok () := by rw [checkReader, if_neg (by omega)]
  have hint : int (r.size - n) = .ok (r.size - n) := by rw [int, if_pos (by omega)]
  rw [readBytes, hcheck]
  simp only [bind, Except.bind, hint]
  rfl

theorem readByte_at {b : UInt8} (h : At data r (b :: ys)) :
    readByte data r = .ok (b.toNat, r.skip 1) ∧ At data (r.skip 1) ys := by
  have hat : At data r ([b] ++ ys) := h
  refine ⟨?_, hat.skip⟩
  rw [readByte, readNat_at (n := 1) hat rfl]
  rfl

theorem cstringLoop_at (h : At data r (xs ++ 0 :: ys)) (hxs : 0 ∉ xs) {fuel i : Nat} (hi : i ≤ xs.length)
    (hfuel : xs.length < fuel + i) : cstringLoop data r fuel i = .ok xs.length := by
  induction fuel generalizing i with
  | zero => omega
  | succ fuel ih =>
    have hsize := h.size
    rw [List.length_append, List.length_cons] at hsize
    have hsplit : xs ++ 0 :: ys = (xs ++ 0 :: ys).take i ++ (xs ++ 0 :: ys).drop i := (List.take_append_drop i _).symm
    have hat := h
    rw [hsplit] at hat
    have hlen : ((xs ++ 0 :: ys).take i).length = i := by simp; omega
    have hskip := hat.skip
    rw [hlen, List.drop_append_of_le_length hi] at hskip
    rw [cstringLoop, if_neg (by omega)]
    -- the byte at `i` is one of the text, or the zero byte behind it
    rcases Nat.lt_or_eq_of_le hi with hlt | heq
    · have hdrop : xs.drop i = xs[i] :: xs.drop (i + 1) := List.drop_eq_getElem_cons hlt
      rw [hdrop] at hskip
      have hfront : At data (r.skip i) ([xs[i]] ++ (xs.drop (i + 1) ++ 0 :: ys)) := hskip
      have hbyte : bytesAt data (r.ptr + i) 1 = .ok [xs[i]] := bytesAt_at hfront
      have hne : ¬ [xs[i]] = [0] := by
        intro he
        exact hxs ((List.cons.inj he).1 ▸ List.getElem_mem hlt)
      rw [hbyte]
      simp only [bind, Except.bind]
      rw [if_neg hne]
      exact ih hlt (by omega)
    · rw [heq, List.drop_length, List.nil_append] at hskip
      have hfront : At data (r.skip xs.length) ([0] ++ ys) := hskip
      have hbyte : bytesAt data (r.ptr + xs.length) 1 = .ok [0] := bytesAt_at hfront
      rw [heq, hbyte]
      rfl

theorem readCstring_at (h : At data r (xs ++ 0 :: ys)) (hxs : 0 ∉ xs) :
    readCstring data r = .ok (xs, r.skip (xs.length + 1)) ∧ At data (r.skip (xs.length + 1)) ys := by
  have hbound := h.bound
  have hptr := h.ptr
  rw [List.length_append, List.length_cons] at hbound
  have hloop : cstringLoop data r (data.length + 1) 0 = .ok xs.length :=
    cstringLoop_at h hxs (Nat.zero_le _) (by omega)
  constructor
  · rw [readCstring, hloop]
    simp only [bind, Except.bind, bytesAt_at h]
  · have hat : At data r ((xs ++ [0]) ++ ys) := by rw [List.append_assoc]; exact h
    have hskip := hat.skip
    rwa [List.length_append, List.length_singleton] at hskip

end Reading

end Bson
end Skynet
