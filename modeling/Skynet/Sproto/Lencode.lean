import Skynet.Sproto.EncodeBound
import Skynet.Sproto.PackBound

/-!
# Skynet.Sproto.Lencode

`lencode` of `lsproto.c`, and the buffers in which the encoder stays inside.

* `lencode` : the buffer is made twice as large until the table is encoded.
* `encode_contained_iff` : only the widening of an array of integers goes behind the end, and where it does not, what `lencode`
  returns is a whole encoding.
-/

namespace Skynet
namespace Sproto

open Lua

def ENCODE_BUFFERSIZE : Nat := 2050

/-- Why `lencode` does not return a string. -/
inductive LencodeError where
  | fault (f : Fault)
  /-- "object is too large (>%d)" -/
  | tooLarge
deriving Repr, DecidableEq

/-- The loop of `lencode`, with a buffer of `sz` bytes: the string, and the size of the buffer that is kept. -/
def lencodeLoop (co : Coercions) (ts : List SprotoType) (st : SprotoType) (tbl : Entries) :
    Nat → Nat → Except LencodeError (Bytes × Nat)
  | 0, _ => .error (.fault .fuel)
  | fuel + 1, sz =>
    match encodeTable co ts st sz tbl with
    | .error e => .error (.fault e)
    | .ok (some bs) => .ok (bs, sz)
    | .ok none =>
      match expandBuffer sz (sz * 2) with
      | .error _ => .error .tooLarge
      | .ok _ => lencodeLoop co ts st tbl fuel (sz * 2)

def lencode (co : Coercions) (ts : List SprotoType) (st : SprotoType) (tbl : Entries) (sz : Nat) :
    Except LencodeError (Bytes × Nat) := lencodeLoop co ts st tbl ENCODE_MAXSIZE sz

/-! ### Inside of the buffer -/

/-- A call of `sproto_encode` that writes inside of its buffer: it returns -1, or the length of a whole encoding. -/
def Contained (whole : Bytes → Prop) (n : Nat) : Except Fault (Option Bytes) → Prop
  | .ok none => True
  | .ok (some bs) => bs.length ≤ n ∧ whole bs
  | .error _ => False

/-- A call of `lencode` that returns a whole encoding, if it returns. -/
def Delivered (whole : Bytes → Prop) : Except LencodeError (Bytes × Nat) → Prop
  | .ok (bs, sz) => bs.length ≤ sz ∧ whole bs
  | .error .tooLarge => True
  | .error (.fault _) => False

/-- An array of integers is widened over the end of a buffer of `n` bytes: `S` bytes follow the byte of its width there, `k` items of
four bytes come before one that needs eight, and `4 * k + 8 ≤ S < 8 * k`. -/
def Overruns (ts : List SprotoType) (st : SprotoType) (es : Entries) (n : Nat) : Prop :=
  Space.table ts ENCODE_DEEPLEVEL st es n = .overrun

instance (ts : List SprotoType) (st : SprotoType) (es : Entries) (n : Nat) : Decidable (Overruns ts st es n) :=
  inferInstanceAs (Decidable (_ = _))

/-- `lencode` comes to a buffer of `sz * 2 ^ j` bytes. -/
def Tries (ts : List SprotoType) (st : SprotoType) (es : Entries) (sz j : Nat) : Prop :=
  ∀ i < j, Space.table ts ENCODE_DEEPLEVEL st es (sz * 2 ^ i) = .short ∧ sz * 2 ^ (i + 1) ≤ ENCODE_MAXSIZE

section Encode

variable {co : Coercions} {ts : List SprotoType} {st : SprotoType} {es : Entries}

theorem tries_zero (sz : Nat) : Tries ts st es sz 0 := nofun

theorem tries_succ {sz j : Nat} : Tries ts st es sz (j + 1) ↔
    (Space.table ts ENCODE_DEEPLEVEL st es sz = .short ∧ sz * 2 ≤ ENCODE_MAXSIZE) ∧ Tries ts st es (sz * 2) j := by
  have hpow : ∀ i, sz * 2 ^ (i + 1) = sz * 2 * 2 ^ i := fun i => by rw [Nat.pow_succ', Nat.mul_assoc]
  constructor
  · intro h
    refine ⟨by simpa using h 0 (Nat.succ_pos j), fun i hi => ?_⟩
    have := h (i + 1) (by omega)
    rwa [hpow i, hpow (i + 1)] at this
  · rintro ⟨hfirst, h⟩ i hi
    cases i with
    | zero => simpa using hfirst
    | succ i =>
      rw [hpow i, hpow (i + 1)]
      exact h i (by omega)

theorem expandBuffer_double {sz : Nat} (hsz : 0 < sz) :
    expandBuffer sz (sz * 2) = if ENCODE_MAXSIZE < sz * 2 then .error .tooLarge else .ok (sz * 2) := by
  obtain ⟨n, hn⟩ : ∃ n, sz * 2 = n + 1 := ⟨sz * 2 - 1, by omega⟩
  have hloop : expandLoop (sz * 2) (sz * 2) sz = sz * 2 := by
    conv_lhs => rw [hn, expandLoop]
    rw [if_neg (by omega)]
  rw [expandBuffer, hloop]

/-- A call of `sproto_encode` by `lencode` does what the space of the table says. -/
theorem encodeTable_cases (co : Coercions) (hwf : ∀ st ∈ ts, Valid ts.length st) (hst : st ∈ ts) (hok : Fits ts ENCODE_DEEPLEVEL st es) {n : Nat}
    (hn : n < 2 ^ 31) :
    match Space.table ts ENCODE_DEEPLEVEL st es n with
    | .short => encodeTable co ts st n es = .ok none
    | .overrun => encodeTable co ts st n es = .error .overrun
    | .fits _ => ∃ bs, encodeTable co ts st n es = .ok (some bs) ∧ bs.length ≤ n ∧ TableWire ts ENCODE_DEEPLEVEL st es bs := by
  obtain ⟨i, hi⟩ := List.mem_iff_getElem?.mp hst
  have hobeys : Obeys none _ (sprotoEncode (encode co ts ENCODE_DEEPLEVEL) st n (encodeUd es)) _ :=
    tables_obey hwf ENCODE_DEEPLEVEL i st es n hi hok hn
  unfold encodeTable
  revert hobeys
  cases Space.table ts ENCODE_DEEPLEVEL st es n with
  | short =>
    rintro ⟨ud, h⟩
    rw [h]; rfl
  | overrun =>
    intro h
    rw [show _ = Except.error Fault.overrun from h]; rfl
  | fits k =>
    rintro ⟨r, ud, h, bs, rfl, hlen, hle, hwire⟩
    exact ⟨bs, by rw [h]; rfl, by omega, hwire⟩

theorem contained_iff (hwf : ∀ st ∈ ts, Valid ts.length st) (hst : st ∈ ts) (hok : Fits ts ENCODE_DEEPLEVEL st es) {n : Nat}
    (hn : n < 2 ^ 31) :
    Contained (TableWire ts ENCODE_DEEPLEVEL st es) n (encodeTable co ts st n es) ↔ ¬Overruns ts st es n := by
  have hcases := encodeTable_cases co hwf hst hok hn
  unfold Overruns
  revert hcases
  cases Space.table ts ENCODE_DEEPLEVEL st es n with
  | short =>
    intro h
    rw [h]
    exact iff_of_true trivial nofun
  | overrun =>
    intro h
    rw [h]
    exact iff_of_false id fun hno => hno rfl
  | fits k =>
    rintro ⟨bs, h, hlen, hwire⟩
    rw [h]
    exact iff_of_true ⟨hlen, hwire⟩ nofun

/-- The loop of `lencode` from a buffer on: by the rounds, each of which doubles the size. -/
theorem lencodeLoop_delivered_iff (hwf : ∀ st ∈ ts, Valid ts.length st) (hst : st ∈ ts) (hok : Fits ts ENCODE_DEEPLEVEL st es)
    {fuel sz : Nat} (hpos : 0 < sz) (hsz : sz < 2 ^ 31) (hfuel : ENCODE_MAXSIZE < sz * 2 ^ fuel) (hround : 0 < fuel) :
    Delivered (TableWire ts ENCODE_DEEPLEVEL st es) (lencodeLoop co ts st es fuel sz) ↔
      ∀ j, Tries ts st es sz j → ¬Overruns ts st es (sz * 2 ^ j) := by
  have hmax : ENCODE_MAXSIZE = 0x1000000 := rfl
  induction fuel generalizing sz with
  | zero => omega
  | succ fuel ih =>
    have hcases := encodeTable_cases co hwf hst hok hsz
    rw [lencodeLoop]
    cases hspace : Space.table ts ENCODE_DEEPLEVEL st es sz with
    | short =>
      rw [hspace] at hcases
      have hfirst : ¬Overruns ts st es (sz * 2 ^ 0) := by
        rw [Nat.pow_zero, Nat.mul_one, Overruns, hspace]
        nofun
      simp only [show encodeTable co ts st sz es = _ from hcases, expandBuffer_double hpos]
      by_cases hlarge : ENCODE_MAXSIZE < sz * 2
      · rw [if_pos hlarge]
        refine iff_of_true trivial fun j htries => ?_
        cases j with
        | zero => exact hfirst
        | succ j => have := (tries_succ.mp htries).1.2; omega
      · rw [if_neg hlarge]
        simp only
        have hfuel' : ENCODE_MAXSIZE < sz * 2 * 2 ^ fuel := by rwa [Nat.mul_assoc, ← Nat.pow_succ']
        have hround' : 0 < fuel := by
          rcases Nat.eq_zero_or_pos fuel with rfl | h
          · omega
          · exact h
        refine (ih (by omega) (by omega) hfuel' hround').trans ?_
        constructor
        · intro h j htries
          cases j with
          | zero => exact hfirst
          | succ j =>
            rw [Nat.pow_succ', ← Nat.mul_assoc]
            exact h j (tries_succ.mp htries).2
        · intro h j htries
          have hnext := h (j + 1) (tries_succ.mpr ⟨⟨hspace, by omega⟩, htries⟩)
          rwa [Nat.pow_succ', ← Nat.mul_assoc] at hnext
    | overrun =>
      rw [hspace] at hcases
      simp only [show encodeTable co ts st sz es = _ from hcases]
      refine iff_of_false id fun h => ?_
      have hzero := h 0 (tries_zero sz)
      rw [Nat.pow_zero, Nat.mul_one] at hzero
      exact hzero hspace
    | fits k =>
      rw [hspace] at hcases
      obtain ⟨bs, h, hlen, hwire⟩ := hcases
      simp only [h]
      refine iff_of_true ⟨hlen, hwire⟩ fun j htries => ?_
      cases j with
      | zero =>
        rw [Nat.pow_zero, Nat.mul_one, Overruns, hspace]
        nofun
      | succ j =>
        have := (tries_succ.mp htries).1.1
        rw [hspace] at this
        cases this

theorem lencode_delivered_iff (hwf : ∀ st ∈ ts, Valid ts.length st) (hst : st ∈ ts) (hok : Fits ts ENCODE_DEEPLEVEL st es) {sz : Nat}
    (hpos : 0 < sz) (hsz : sz < 2 ^ 31) :
    Delivered (TableWire ts ENCODE_DEEPLEVEL st es) (lencode co ts st es sz) ↔
      ∀ j, Tries ts st es sz j → ¬Overruns ts st es (sz * 2 ^ j) := by
  refine lencodeLoop_delivered_iff hwf hst hok hpos hsz ?_ (by decide)
  calc ENCODE_MAXSIZE < 2 ^ ENCODE_MAXSIZE := Nat.lt_two_pow_self
    _ ≤ sz * 2 ^ ENCODE_MAXSIZE := Nat.le_mul_of_pos_left _ hpos

end Encode

/-- For a table that conforms to its type, the encoder stays inside of a buffer exactly if no array of integers is widened over its
end, and `lencode` returns nothing but whole encodings exactly if that happens in no buffer it comes to. -/
theorem encode_contained_iff (co : Coercions) {ts : List SprotoType} (hwf : ∀ st ∈ ts, Valid ts.length st) {st : SprotoType}
    (hst : st ∈ ts) {es : Entries} (hok : Fits ts ENCODE_DEEPLEVEL st es) {n : Nat} (hn : n < 2 ^ 31) :
    (Contained (TableWire ts ENCODE_DEEPLEVEL st es) n (encodeTable co ts st n es) ↔ ¬Overruns ts st es n) ∧
    (0 < n → (Delivered (TableWire ts ENCODE_DEEPLEVEL st es) (lencode co ts st es n) ↔
      ∀ j, Tries ts st es n j → ¬Overruns ts st es (n * 2 ^ j))) :=
  ⟨contained_iff hwf hst hok hn, fun hpos => lencode_delivered_iff hwf hst hok hpos hn⟩

/-! ### An array that is widened too late -/

/-- A type with an array of integers. -/
def numbersType : SprotoType where
  base := 0
  maxn := 1
  f := [{ tag := 0, type := .integer, array := true, name := [110], key := -1 }]

/-- `k` integers of 32 bits and one of 64 bits. -/
def numbersTable (k : Nat) : Entries :=
  [(.string [110], .table (arrayEntries 1 (List.replicate k (Value.integer 7) ++ [Value.integer 0x123456789a])))]

theorem numbersType_valid : ∀ st ∈ [numbersType], Valid 1 st := by
  intro st hst
  rw [List.mem_singleton.mp hst]
  exact ⟨rfl, by simp [numbersType], by simp [numbersType], by simp [numbersType], by simp [numbersType]⟩

theorem numbersTable_fits (k : Nat) : Fits [numbersType] ENCODE_DEEPLEVEL numbersType (numbersTable k) := by
  refine ⟨by simp [numbersTable, Distinct], ?_⟩
  intro p hp
  rw [List.mem_singleton.mp hp]
  refine ⟨_, List.mem_singleton_self _, rfl, .inl ⟨by decide, .array rfl (List.Perm.refl _) fun v hv => ?_⟩⟩
  rcases List.mem_append.mp hv with hv | hv
  · rw [List.eq_of_mem_replicate hv]
    exact .integer _
  · rw [List.mem_singleton.mp hv]
    exact .integer _

theorem encode_contained_iff_numbers :
    (Contained (TableWire [numbersType] ENCODE_DEEPLEVEL numbersType (numbersTable 1)) 100
      (encodeTable ⟨fun _ => none, fun _ => [], fun _ => []⟩ [numbersType] numbersType 100 (numbersTable 1)) ↔
      ¬Overruns [numbersType] numbersType (numbersTable 1) 100) ∧
    (Delivered (TableWire [numbersType] ENCODE_DEEPLEVEL numbersType (numbersTable 1))
      (lencode ⟨fun _ => none, fun _ => [], fun _ => []⟩ [numbersType] numbersType (numbersTable 1) 100) ↔
      ∀ j, Tries [numbersType] numbersType (numbersTable 1) 100 j →
        ¬Overruns [numbersType] numbersType (numbersTable 1) (100 * 2 ^ j)) :=
  have h := encode_contained_iff ⟨fun _ => none, fun _ => [], fun _ => []⟩ numbersType_valid (List.mem_singleton_self _)
    (numbersTable_fits 1) (show 100 < 2 ^ 31 by decide)
  ⟨h.1, h.2 (by decide)⟩

/-- The array of such a table is widened over the end of a buffer that has room for `room` bytes behind the width. -/
theorem numbersTable_overruns {k room : Nat} (hk : 4 * k + 8 ≤ room) (hroom : room < 8 * k) (hlt : k < 2 ^ 30) :
    Overruns [numbersType] numbersType (numbersTable k) (room + 9) := by
  have hnil : ∀ v ∈ List.replicate k (Value.integer 7) ++ [Value.integer 0x123456789a], v.isNil = false := by
    intro v hv
    rcases List.mem_append.mp hv with hv | hv
    · rw [List.eq_of_mem_replicate hv]; rfl
    · rw [List.mem_singleton.mp hv]; rfl
  have hsmall : ∀ v ∈ List.replicate k (Value.integer 7), Small (Space.integerOf v) := by
    intro v hv
    rw [List.eq_of_mem_replicate hv]
    decide
  have hvals : Space.arrayValues { tag := 0, type := .integer, array := true, name := [110], key := -1 }
      (.table (arrayEntries 1 (List.replicate k (Value.integer 7) ++ [Value.integer 0x123456789a]))) = _ :=
    arrayValues_eq (by decide) (List.Perm.refl _) hnil (by
      rw [arrayValues_length (by decide) (List.Perm.refl _) hnil]
      simp only [List.length_append, List.length_replicate, List.length_singleton]
      omega)
  have hints : Space.integers room 0 (List.replicate k (Value.integer 7) ++ [Value.integer 0x123456789a]) = _ :=
    Space.integers_append hsmall (by decide) room 0
  rw [Nat.zero_add, List.length_replicate, if_neg (by omega), if_pos hroom] at hints
  have harray : Space.integerArray (List.replicate k (Value.integer 7) ++ [Value.integer 0x123456789a]) (room + 1) = .overrun := by
    rw [Space.integerArray, if_neg (by omega), Nat.add_sub_cancel, hints]
    rfl
  have hget : getfield (numbersTable k) [110] =
      .table (arrayEntries 1 (List.replicate k (Value.integer 7) ++ [Value.integer 0x123456789a])) := rfl
  have hfit : ¬room + 9 < 2 + 2 * numbersType.maxn := by simp only [numbersType]; omega
  rw [Overruns, show ENCODE_DEEPLEVEL = 63 + 1 from rfl, Space.table, Space.take, if_neg hfit, Space.bind_fits]
  simp only [numbersType, Space.fields, hget, Space.field, if_true, Space.items, hvals]
  rw [if_neg (by omega), show room + 9 - (2 + 2 * 1) - 4 = room + 1 by omega, harray]
  rfl

/-- In the first buffer of `lencode`, 256 small integers before a wide one are widened over the end. -/
theorem numbers_overrun : Fits [numbersType] ENCODE_DEEPLEVEL numbersType (numbersTable 256) ∧
    ¬Contained (TableWire [numbersType] ENCODE_DEEPLEVEL numbersType (numbersTable 256)) ENCODE_BUFFERSIZE
      (encodeTable ⟨fun _ => none, fun _ => [], fun _ => []⟩ [numbersType] numbersType ENCODE_BUFFERSIZE (numbersTable 256)) ∧
    ¬Delivered (TableWire [numbersType] ENCODE_DEEPLEVEL numbersType (numbersTable 256))
      (lencode ⟨fun _ => none, fun _ => [], fun _ => []⟩ [numbersType] numbersType (numbersTable 256) ENCODE_BUFFERSIZE) := by
  have hst : numbersType ∈ [numbersType] := List.mem_singleton_self _
  have hover : Overruns [numbersType] numbersType (numbersTable 256) (2041 + 9) :=
    numbersTable_overruns (by decide) (by decide) (by decide)
  refine ⟨numbersTable_fits 256, ?_, ?_⟩
  · rw [contained_iff numbersType_valid hst (numbersTable_fits 256) (by decide), not_not]
    exact hover
  · rw [lencode_delivered_iff numbersType_valid hst (numbersTable_fits 256) (by decide) (by decide)]
    intro h
    exact h 0 (tries_zero _) hover

end Sproto
end Skynet
