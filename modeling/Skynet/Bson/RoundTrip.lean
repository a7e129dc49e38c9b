import Skynet.Bson.Accepted
import Skynet.Bson.Emits

/-!
# Skynet.Bson.RoundTrip

Decoding what was encoded.

* `Storable` : the values that are encoded without an error.
* `toDoc` : the document that the encoder writes for a table, and `stored` what is decoded from it.
* `bson_roundtrip` : a table of storable values whose block is shorter than `2 ^ 30` bytes is encoded, and decoded to what
  `stored` says.
-/

namespace Skynet
namespace Bson

open Lua
open Seri (toInt32 toUint32)
open Decimal (decimal strtol strtol_decimal zero_not_mem_decimal)

/-! ### Strings -/

/-- A string that is no special value, or one of the special values in good order. -/
inductive TextOk : Bytes → Prop
  | plain {s : Bytes} (h : ∀ subt str, s ≠ 0 :: subt :: str) : TextOk s
  | binary (subtype : UInt8) (bs : Bytes) : TextOk (0 :: Kind.binary.byte :: subtype :: bs)
  | objectid {id : Bytes} (h : id.length = 12) : TextOk (0 :: Kind.objectid.byte :: id)
  | date {bs : Bytes} (h : bs.length = 4) : TextOk (0 :: Kind.date.byte :: bs)
  | timestamp {bs : Bytes} (h : bs.length = 8) : TextOk (0 :: Kind.timestamp.byte :: bs)
  | regex {r1 r2 : Bytes} (h1 : 0 ∉ r1) (h2 : 0 ∉ r2) : TextOk (0 :: Kind.regex.byte :: (r1 ++ 0 :: (r2 ++ [0])))
  | null : TextOk [0, Kind.null.byte]
  | minkey : TextOk [0, Kind.minkey.byte]
  | maxkey : TextOk [0, Kind.maxkey.byte]
  /-- Bytes with the length in front that makes the decoder keep just these. -/
  | raw (k : Raw) {bs : Bytes} (hfour : 4 ≤ bs.length) (h : toInt32 (Endian.ofLe (bs.take 4)) + k.extra = bs.length) :
      TextOk (0 :: k.kind.byte :: bs)

def specialScalar (subt : UInt8) (str : Bytes) : Scalar :=
  match Kind.ofCode subt.toNat with
  | some .binary => .binary (str.headD 0) str.tail
  | some .objectid => .objectid str
  | some .date => .date (BitVec.ofNat 64 (Endian.ofLe str * 1000))
  | some .timestamp => .timestamp (BitVec.ofNat 32 (Endian.ofLe (str.take 4)))
    (BitVec.ofNat 32 (Endian.ofLe (str.drop 4)))
  | some .regex => .regex (str.takeWhile (· ≠ 0)) (str.dropWhile (· ≠ 0)).tail.dropLast
  | some .minkey => .minkey
  | some .maxkey => .maxkey
  | some .dbpointer => .raw .dbpointer str
  | some .jscode => .raw .jscode str
  | some .symbol => .raw .symbol str
  | some .codews => .raw .codews str
  | _ => .null

/-- The field that is written for a string. -/
def textScalar : Bytes → Scalar
  | 0 :: subt :: str => specialScalar subt str
  | str => .string str 0

/-- What is needed of the field for a value: its bytes are written, and it is read as the value. -/
structure Written (f : Buffer → Except EncodeError Buffer) (key : Bytes) (v : Value) (s : Scalar) : Prop where
  emits : Emits f (s.kind.byte :: (key ++ 0 :: s.bytes))
  value : s.value = v
  ok : ∀ rest, s.Ok rest

theorem emits_field {f : Buffer → Except EncodeError Buffer} {type : UInt8} {key X : Bytes} (h : Emits f X) :
    Emits (fun b => appendKey b type key >>= f) (type :: (key ++ 0 :: X)) := by
  have hall := (Emits.appendKey type key).bind h
  rwa [List.cons_append, List.append_assoc] at hall

theorem appendString_special (key : Bytes) (subt : UInt8) (str : Bytes) :
    (fun b => appendString b key (0 :: subt :: str)) =
      fun b => appendKey b subt key >>= fun b => appendSpecial b subt str := rfl

theorem le_ofInt {n : Nat} (h : n < 2 ^ 32) : Endian.le 4 (BitVec.ofInt 32 n).toNat = Endian.le 4 n := by
  rw [BitVec.ofInt_natCast, BitVec.toNat_ofNat, Nat.mod_eq_of_lt h]

/-- A length that does not fit in four bytes is not written at all. -/
theorem Emits.of_lt {f : Buffer → Except EncodeError Buffer} {X Y : Bytes} (hlen : X.length = Y.length)
    (h : Y.length < 2 ^ 30 → Emits f X ∧ X = Y) : Emits f Y := by
  intro b hb hfits
  obtain ⟨hf, rfl⟩ := h (by omega)
  exact hf b hb hfits

theorem plain_written {s : Bytes} (h : ∀ subt str, s ≠ 0 :: subt :: str) (key : Bytes) :
    Written (fun b => appendString b key s) key (.string s) (.string s 0) := by
  refine ⟨?_, rfl, fun _ => trivial⟩
  have hf : (fun b => appendString b key s) = (fun b => appendKey b Kind.string.byte key >>= fun b =>
      reserveLength b >>= fun r => writeString r.2 s >>=
        fun b => .ok (writeLength b (BitVec.ofNat 32 (s.length + 1)) r.1)) := by
    funext b
    unfold appendString
    split
    · exact absurd rfl (h _ _)
    · rfl
  rw [hf]
  apply emits_field
  refine Emits.of_lt (X := Endian.le 4 (BitVec.ofNat 32 (s.length + 1)).toNat ++ (s ++ [0])) (by simp [Scalar.bytes]) ?_
  intro hlt
  refine ⟨(Emits.write (s ++ [0])).withLength _, ?_⟩
  simp only [Scalar.bytes, List.length_append, Endian.le_length] at hlt ⊢
  rw [BitVec.toNat_ofNat, Nat.mod_eq_of_lt (by omega), List.append_assoc]

theorem special_written {subt : UInt8} {str key : Bytes} {s : Scalar} (hkind : s.kind.byte = subt)
    (hemits : Emits (fun b => appendSpecial b subt str) s.bytes) (hvalue : s.value = .string (0 :: subt :: str))
    (hok : ∀ rest, s.Ok rest) :
    Written (fun b => appendString b key (0 :: subt :: str)) key (.string (0 :: subt :: str)) s := by
  refine ⟨?_, hvalue, hok⟩
  rw [appendString_special, hkind]
  exact emits_field hemits

theorem binary_emits (subtype : UInt8) (bs : Bytes) :
    Emits (fun b => writeBinary b (subtype :: bs)) (Scalar.binary subtype bs).bytes := by
  refine Emits.of_lt (X := Endian.le 4 (BitVec.ofInt 32 bs.length).toNat ++ (subtype :: bs)) (by simp [Scalar.bytes]) ?_
  intro hlt
  simp only [Scalar.bytes, List.length_append, Endian.le_length] at hlt
  have hlen : (((subtype :: bs).length : Nat) : Int) - 1 = (bs.length : Nat) := by rw [List.length_cons]; omega
  have hemits := (Emits.write (subtype :: bs)).withLength (BitVec.ofInt 32 (((subtype :: bs).length : Nat) - 1))
  rw [hlen] at hemits
  refine ⟨?_, by rw [le_ofInt (by simp at hlt; omega)]; rfl⟩
  simp only [writeBinary, hlen]
  exact hemits

theorem regex_emits {r1 r2 : Bytes} (h2 : 0 ∉ r2) :
    Emits (fun b => appendRegex b (r1 ++ 0 :: (r2 ++ [0]))) (Scalar.regex r1 r2).bytes := by
  have hlast : (r1 ++ 0 :: (r2 ++ [0])).dropLast = r1 ++ 0 :: r2 := by
    rw [show r1 ++ 0 :: (r2 ++ [0]) = (r1 ++ 0 :: r2) ++ [0] by simp, List.dropLast_concat]
  have hwhile : ((r1 ++ 0 :: r2).reverse.takeWhile (· ≠ 0)) = r2.reverse := by
    rw [List.reverse_append, List.reverse_cons, List.append_assoc, List.takeWhile_append_of_pos]
    · simp
    · intro b hb
      rw [List.mem_reverse] at hb
      exact decide_eq_true fun hzero => h2 (hzero ▸ hb)
  have hlen : (r1 ++ 0 :: r2).length - r2.length = r1.length + 1 := by simp; omega
  have hfront : (r1 ++ 0 :: r2).take r1.length = r1 := List.take_left
  have hback : (r1 ++ 0 :: r2).drop (r1.length + 1) = r2 := by
    rw [show r1 ++ 0 :: r2 = (r1 ++ [0]) ++ r2 by simp, show r1.length + 1 = (r1 ++ [0]).length by simp, List.drop_left]
  have hne : ¬ r2.reverse.length = (r1 ++ 0 :: r2).length := by simp; omega
  have hf : (fun b => appendRegex b (r1 ++ 0 :: (r2 ++ [0]))) =
    fun b => writeString b r1 >>= fun b => writeString b r2 := by
    funext b
    simp only [appendRegex, hlast, hwhile]
    rw [if_neg hne, List.length_reverse, hlen, Nat.add_sub_cancel, hfront, hback]
  have hbytes : (Scalar.regex r1 r2).bytes = (r1 ++ [0]) ++ (r2 ++ [0]) := by simp [Scalar.bytes]
  rw [hf, hbytes]
  exact (Emits.write (r1 ++ [0])).bind (Emits.write (r2 ++ [0]))

/-- Dates are stored as milliseconds. -/
theorem date_seconds {n : Nat} (h : n < 2 ^ 32) : toUint32 ((BitVec.ofNat 64 (n * 1000)).toInt.tdiv 1000) = n := by
  rw [toInt_ofNat_of_lt (by omega), toUint32]
  have hdiv : (((n * 1000 : Nat) : Int)).tdiv 1000 = n := by
    rw [Int.natCast_mul]
    exact Int.mul_tdiv_cancel _ (by decide)
  rw [hdiv]
  omega

theorem emits_objectid {id : Bytes} (h : id.length = 12) :
    Emits (fun b => appendSpecial b Kind.objectid.byte id) (Scalar.objectid id).bytes := by
  have hf : (fun b => appendSpecial b Kind.objectid.byte id) = fun b => write b id := by
    funext b
    exact if_neg (not_not.mpr h)
  rw [hf]
  exact Emits.write id

theorem emits_date {bs : Bytes} (h : bs.length = 4) :
    Emits (fun b => appendSpecial b Kind.date.byte bs)
      (Scalar.date (BitVec.ofNat 64 (Endian.ofLe bs * 1000))).bytes := by
  have hf :
      (fun b => appendSpecial b Kind.date.byte bs) =
        fun b => writeInt64 b (BitVec.ofNat 64 (Endian.ofLe bs * 1000)) := by
    funext b
    exact if_neg (not_not.mpr h)
  rw [hf]
  exact Emits.write _

theorem date_value {bs : Bytes} (h : bs.length = 4) :
    (Scalar.date (BitVec.ofNat 64 (Endian.ofLe bs * 1000))).value = makeObject .date bs := by
  have hlt := Endian.ofLe_lt bs
  rw [h] at hlt
  rw [Scalar.value, date_seconds (by simpa using hlt), ← h, Endian.le_ofLe]

theorem emits_timestamp {bs : Bytes} (h : bs.length = 8) :
    Emits (fun b => appendSpecial b Kind.timestamp.byte bs)
      (Scalar.timestamp (BitVec.ofNat 32 (Endian.ofLe (bs.take 4)))
        (BitVec.ofNat 32 (Endian.ofLe (bs.drop 4)))).bytes := by
  have hf : (fun b => appendSpecial b Kind.timestamp.byte bs) =
      fun b => writeInt32 b (BitVec.ofNat 32 (Endian.ofLe (bs.take 4))) >>= fun b =>
        writeInt32 b (BitVec.ofNat 32 (Endian.ofLe (bs.drop 4))) := by
    funext b
    exact if_neg (not_not.mpr h)
  rw [hf]
  exact (Emits.write _).bind (Emits.write _)

theorem timestamp_value {bs : Bytes} (h : bs.length = 8) :
    (Scalar.timestamp (BitVec.ofNat 32 (Endian.ofLe (bs.take 4))) (BitVec.ofNat 32 (Endian.ofLe (bs.drop 4)))).value =
      makeObject .timestamp bs := by
  rw [Scalar.value, le_ofNat (w := 32) (k := 4) rfl (by simp; omega), le_ofNat (w := 32) (k := 4) rfl (by simp; omega),
    List.take_append_drop]

theorem emits_raw (k : Raw) (bs : Bytes) : Emits (fun b => appendSpecial b k.kind.byte bs) (Scalar.raw k bs).bytes := by
  have hf : (fun b => appendSpecial b k.kind.byte bs) = fun b => write b bs := by cases k <;> rfl
  rw [hf]
  exact Emits.write bs

theorem raw_ok {k : Raw} {bs : Bytes} (hfour : 4 ≤ bs.length)
    (h : toInt32 (Endian.ofLe (bs.take 4)) + k.extra = bs.length)
    (rest : Bytes) : (Scalar.raw k bs).Ok rest := by
  rw [Scalar.ok_raw, List.length_append, List.take_append_of_le_length hfour]
  exact ⟨by omega, h⟩

theorem text_written {s : Bytes} (h : TextOk s) (key : Bytes) :
    Written (fun b => appendString b key s) key (.string s) (textScalar s) := by
  cases h with
  | plain h =>
    have hs : textScalar s = .string s 0 := by
      unfold textScalar
      split
      · exact absurd rfl (h _ _)
      · rfl
    rw [hs]
    exact plain_written h key
  | binary subtype bs => exact special_written rfl (binary_emits subtype bs) rfl fun _ => trivial
  | @objectid id h => exact special_written rfl (emits_objectid h) rfl fun _ => h
  | @date bs h => exact special_written rfl (emits_date h) (date_value h) fun _ => trivial
  | @timestamp bs h => exact special_written rfl (emits_timestamp h) (timestamp_value h) fun _ => trivial
  | @regex r1 r2 h1 h2 =>
    have hs : textScalar (0 :: Kind.regex.byte :: (r1 ++ 0 :: (r2 ++ [0]))) = .regex r1 r2 := by
      have hne : ∀ b ∈ r1, decide (b ≠ 0) = true := fun b hb => decide_eq_true fun hzero => h1 (hzero ▸ hb)
      change Scalar.regex ((r1 ++ 0 :: (r2 ++ [0])).takeWhile (· ≠ 0))
        ((r1 ++ 0 :: (r2 ++ [0])).dropWhile (· ≠ 0)).tail.dropLast = _
      rw [List.takeWhile_append_of_pos hne, List.dropWhile_append_of_pos hne]
      simp
    rw [hs]
    exact special_written rfl (regex_emits h2) (by simp [Scalar.value, makeObject]) fun _ => ⟨h1, h2⟩
  | null => exact special_written (s := .null) rfl Emits.nothing rfl fun _ => trivial
  | minkey => exact special_written (s := .minkey) rfl Emits.nothing rfl fun _ => trivial
  | maxkey => exact special_written (s := .maxkey) rfl Emits.nothing rfl fun _ => trivial
  | @raw k bs hfour h =>
    have hs : textScalar (0 :: k.kind.byte :: bs) = .raw k bs := by cases k <;> rfl
    rw [hs]
    exact special_written rfl (emits_raw k bs) rfl (raw_ok hfour h)

/-! ### Numbers -/

def integerScalar (v : BitVec 64) : Scalar := if is32bit v then .int32 (v.setWidth 32) else .int64 v

theorem integer_written (key : Bytes) (v : BitVec 64) :
    Written (fun b => appendInteger b key v) key (.integer v) (integerScalar v) := by
  by_cases hv : is32bit v = true
  · have hs : integerScalar v = .int32 (v.setWidth 32) := if_pos hv
    have hf :
        (fun b => appendInteger b key v) =
          fun b => appendKey b Kind.int32.byte key >>= fun b => writeInt32 b (v.setWidth 32) := by
      funext b
      exact if_pos hv
    have hvalue : BitVec.ofInt 64 (v.setWidth 32).toInt = v := by
      obtain ⟨hge, hlt⟩ := of_decide_eq_true hv
      have hto : (v.setWidth 32).toInt = v.toInt := by
        have hmod : ((v.toNat : Nat) : Int).bmod (2 ^ 32) = v.toInt.bmod (2 ^ 32) := by
          rw [BitVec.toInt_eq_toNat_bmod, Int.bmod_bmod_of_dvd (by decide)]
        rw [BitVec.toInt_setWidth, hmod, Int.bmod_eq_of_le] <;> omega
      rw [hto, BitVec.ofInt_toInt]
    rw [hs]
    refine ⟨?_, congrArg Value.integer hvalue, fun _ => trivial⟩
    rw [hf]
    exact emits_field (Emits.write _)
  · have hs : integerScalar v = .int64 v := if_neg hv
    have hf : (fun b => appendInteger b key v) = fun b => appendKey b Kind.int64.byte key >>=
      fun b => writeInt64 b v := by
      funext b
      exact if_neg hv
    rw [hs]
    refine ⟨?_, rfl, fun _ => trivial⟩
    rw [hf]
    exact emits_field (Emits.write _)

theorem double_written (key : Bytes) (bits : BitVec 64) :
    Written (fun b => appendDouble b key bits) key (.number bits) (.real bits) :=
  ⟨emits_field (Emits.write _), rfl, fun _ => trivial⟩

/-! ### Tables -/

section Tables

variable (rawlen : Entries → Nat) (fmt : BitVec 64 → Bytes)

/-- A key that is a string or a number, without a zero byte in its text. -/
def KeyText (k : Value) : Prop := ∃ key, tolstring fmt k = some key ∧ 0 ∉ key

/-- The values with tables that are nested at most so deep. Up to the length of a table there are values. -/
inductive Storable : Nat → Value → Prop
  | boolean {levels : Nat} (v : Bool) : Storable levels (.boolean v)
  | integer {levels : Nat} (v : BitVec 64) : Storable levels (.integer v)
  | number {levels : Nat} (bits : BitVec 64) : Storable levels (.number bits)
  | string {levels : Nat} {s : Bytes} (h : TextOk s) : Storable levels (.string s)
  | table {levels : Nat} {es : Entries} (hkey : ∀ p ∈ es, KeyText fmt p.1) (hval : ∀ p ∈ es, Storable levels p.2)
      (hseq : ∀ i < rawlen es, (rawgeti es (i + 1)).isNil = false) : Storable (levels + 1) (.table es)

/-- What `is_rawarray` finds. -/
def ordered (es : Entries) : Bool :=
  match isRawarray rawlen es with
  | .ok array => array
  | .error _ => false

/-- The pairs of a document with their keys as texts. -/
def dictItems (es : Entries) : List (Bytes × Value) := es.map fun p => ((tolstring fmt p.1).getD [], p.2)

/-- The pairs of a table as they are written. -/
def items (es : Entries) : List (Bytes × Value) :=
  if ordered rawlen es then (List.range (rawlen es)).map fun i => (bsonNumstr i, rawgeti es (i + 1))
  else dictItems fmt es

/-- The field for a value in front of others. -/
def addField : Nat → Bytes → Value → Doc → Doc
  | _, key, .integer v, rest => .field key (integerScalar v) rest
  | _, key, .number bits, rest => .field key (.real bits) rest
  | _, key, .string s, rest => .field key (textScalar s) rest
  | _, key, .boolean v, rest => .field key (.boolean (if v then 1 else 0)) rest
  | levels + 1, key, .table es, rest =>
    .nested (ordered rawlen es) key ((items rawlen fmt es).foldr (fun p d => addField levels p.1 p.2 d) .nil) rest
  | _, _, _, rest => rest

/-- What is decoded from a value that was encoded. -/
def stored : Nat → Value → Value
  | levels + 1, .table es =>
    .table ((items rawlen fmt es).foldl (fun t p => setKey t (keyValue (ordered rawlen es) p.1) (stored levels p.2)) [])
  | _, v => v

/-- The document of a table. -/
def toDoc (levels : Nat) (its : List (Bytes × Value)) : Doc :=
  its.foldr (fun p d => addField rawlen fmt levels p.1 p.2 d) .nil

def storedTable (array : Bool) (levels : Nat) (its : List (Bytes × Value)) : Entries :=
  its.foldl (fun t p => setKey t (keyValue array p.1) (stored rawlen fmt levels p.2)) []

/-- What is needed of the field for a value, in a document or an array. -/
structure Kept (levels : Nat) (v : Value) : Prop where
  emits : ∀ key, Emits (fun b => appendOne (appendTable rawlen fmt levels) b key v)
    (addField rawlen fmt levels key v .nil).bytes
  bytes : ∀ key d, (addField rawlen fmt levels key v d).bytes = (addField rawlen fmt levels key v .nil).bytes ++ d.bytes
  table : ∀ array key d es, (addField rawlen fmt levels key v d).table array es =
    d.table array (setKey es (keyValue array key) (stored rawlen fmt levels v))
  ok : ∀ array key d, FieldKeyOk array key → d.Ok array → (addField rawlen fmt levels key v d).Ok array

variable {rawlen fmt} {levels : Nat}

theorem Kept.of_written {v : Value} {s : Scalar} (hadd : ∀ key d, addField rawlen fmt levels key v d = .field key s d)
    (hstored : stored rawlen fmt levels v = v)
    (h : ∀ key, Written (fun b => appendOne (appendTable rawlen fmt levels) b key v) key v s) :
    Kept rawlen fmt levels v where
  emits key := by
    rw [hadd, Doc.bytes_field, Doc.bytes_nil, List.append_nil]
    exact (h key).emits
  bytes key d := by simp [hadd]
  table array key d es := by rw [hadd, hstored, Doc.table_field, (h key).value]
  ok array key d hkey hd := by
    rw [hadd]
    exact ⟨hkey, (h key).ok _, hd⟩

theorem toDoc_bytes {its : List (Bytes × Value)} (h : ∀ p ∈ its, Kept rawlen fmt levels p.2) :
    (toDoc rawlen fmt levels its).bytes = its.flatMap fun p => (addField rawlen fmt levels p.1 p.2 .nil).bytes := by
  induction its with
  | nil => rfl
  | cons p its ih =>
    rw [List.flatMap_cons, ← ih fun q hq => h q (List.mem_cons_of_mem _ hq)]
    exact (h p List.mem_cons_self).bytes p.1 _

theorem toDoc_table {its : List (Bytes × Value)} (h : ∀ p ∈ its, Kept rawlen fmt levels p.2) (array : Bool) :
    (toDoc rawlen fmt levels its).table array [] = storedTable rawlen fmt array levels its := by
  have hloop :
      ∀ es, (toDoc rawlen fmt levels its).table array es =
        its.foldl (fun t p => setKey t (keyValue array p.1) (stored rawlen fmt levels p.2)) es := by
    induction its with
    | nil => intro es; rfl
    | cons p its ih =>
      intro es
      rw [List.foldl_cons, ← ih fun q hq => h q (List.mem_cons_of_mem _ hq)]
      exact (h p List.mem_cons_self).table array p.1 _ es
  exact hloop []

theorem toDoc_ok {its : List (Bytes × Value)} (h : ∀ p ∈ its, Kept rawlen fmt levels p.2) {array : Bool}
    (hkey : ∀ p ∈ its, FieldKeyOk array p.1) : (toDoc rawlen fmt levels its).Ok array := by
  induction its with
  | nil => trivial
  | cons p its ih =>
    exact (h p List.mem_cons_self).ok array p.1 _ (hkey p List.mem_cons_self)
      (ih (fun q hq => h q (List.mem_cons_of_mem _ hq)) fun q hq => hkey q (List.mem_cons_of_mem _ hq))

theorem numstr_ok (i : Nat) : FieldKeyOk true (bsonNumstr i) := by
  refine ⟨zero_not_mem_decimal _, fun _ => ?_⟩
  rw [bsonNumstr, strtol_decimal (by omega)]
  omega

/-- The pairs that are written are pairs of the table. -/
theorem forall_items {es : Entries} {P : Value → Prop} (hseq : ∀ i < rawlen es, (rawgeti es (i + 1)).isNil = false)
    (h : ∀ p ∈ es, P p.2) : ∀ q ∈ items rawlen fmt es, P q.2 := by
  intro q hq
  unfold items at hq
  split at hq
  · obtain ⟨i, hi, rfl⟩ := List.mem_map.mp hq
    exact h _ (mem_of_rawget (hseq i (List.mem_range.mp hi)))
  · obtain ⟨p, hp, rfl⟩ := List.mem_map.mp hq
    exact h p hp

theorem dictItems_key {es : Entries} (hkey : ∀ p ∈ es, KeyText fmt p.1) {q : Bytes × Value} (h : q ∈ dictItems fmt es) :
    FieldKeyOk false q.1 := by
  obtain ⟨p, hp, rfl⟩ := List.mem_map.mp h
  obtain ⟨key, htext, hzero⟩ := hkey p hp
  refine ⟨?_, fun h => absurd h (by decide)⟩
  rw [htext]
  exact hzero

theorem items_key {es : Entries} (hkey : ∀ p ∈ es, KeyText fmt p.1) :
    ∀ p ∈ items rawlen fmt es, FieldKeyOk (ordered rawlen es) p.1 := by
  intro q h
  unfold items at h
  cases ho : ordered rawlen es with
  | true =>
    rw [ho, if_pos rfl] at h
    obtain ⟨i, -, rfl⟩ := List.mem_map.mp h
    exact numstr_ok i
  | false =>
    rw [ho, if_neg (by decide)] at h
    exact dictItems_key hkey h

/-- The key behind which `is_rawarray` looks is one of the table. -/
theorem isRawarray_ok {es : Entries} (hseq : ∀ i < rawlen es, (rawgeti es (i + 1)).isNil = false) :
    isRawarray rawlen es = .ok (ordered rawlen es) := by
  by_cases hlen : 0 < rawlen es
  · have hlast := hseq (rawlen es - 1) (by omega)
    rw [show rawlen es - 1 + 1 = rawlen es by omega] at hlast
    have hmem : (intKey (rawlen es), rawgeti es (rawlen es)) ∈ es := mem_of_rawget hlast
    have hnext : ∃ more, hasNext es (intKey (rawlen es)) = .ok more := by
      unfold hasNext
      split
      · rename_i hnil
        have hall := List.dropWhile_eq_nil_iff.mp hnil _ hmem
        rw [intKey, sameKey_integer_self] at hall
        cases hall
      · exact ⟨_, rfl⟩
    obtain ⟨more, hmore⟩ := hnext
    have hraw : isRawarray rawlen es = .ok !more := by
      rw [isRawarray, if_pos hlen, hmore]
      rfl
    rw [ordered, hraw]
  · have hraw : isRawarray rawlen es = .ok false := if_neg hlen
    rw [ordered, hraw]

theorem packArray_emits {one : Buffer → Bytes → Value → Except EncodeError Buffer} {es : Entries} {n : Nat}
    {out : Bytes × Value → Bytes} (h : ∀ i < n, Emits (fun b => one b (bsonNumstr i) (rawgeti es (i + 1)))
      (out (bsonNumstr i, rawgeti es (i + 1)))) : Emits (fun b => packArray one b es n)
        (wrap (((List.range n).map fun i => (bsonNumstr i, rawgeti es (i + 1))).flatMap out)) := by
  rw [List.flatMap_map]
  exact Emits.document (Emits.foldlM fun i hi => h i (List.mem_range.mp hi))

theorem packSimpleDict_emits {one : Buffer → Bytes → Value → Except EncodeError Buffer} {es : Entries}
    {out : Bytes × Value → Bytes} (hkey : ∀ p ∈ es, KeyText fmt p.1)
    (h : ∀ p ∈ es, ∀ key, Emits (fun b => one b key p.2) (out (key, p.2))) :
    Emits (fun b => packSimpleDict fmt one b es) (wrap ((dictItems fmt es).flatMap out)) := by
  rw [dictItems, List.flatMap_map]
  refine Emits.document (Emits.foldlM ?_)
  intro p hp
  obtain ⟨key, htext, -⟩ := hkey p hp
  simp only [packDictData, htext, Option.getD_some]
  exact h p hp key

theorem nested_bytes (array : Bool) (key : Bytes) (inner d : Doc) :
    (Doc.nested array key inner d).bytes = (Doc.nested array key inner .nil).bytes ++ d.bytes := by
  simp

theorem appendTable_emits {es : Entries} {key : Bytes} (hkey : ∀ p ∈ es, KeyText fmt p.1)
    (hseq : ∀ i < rawlen es, (rawgeti es (i + 1)).isNil = false)
    (hits : ∀ p ∈ items rawlen fmt es, Kept rawlen fmt levels p.2) :
    Emits (fun b => appendTable rawlen fmt (levels + 1) b key es)
      ((tableKind (ordered rawlen es)).byte ::
        (key ++ 0 :: wrap (toDoc rawlen fmt levels (items rawlen fmt es)).bytes)) := by
  have hraw := isRawarray_ok hseq
  rw [toDoc_bytes hits]
  cases ho : ordered rawlen es with
  | true =>
    rw [ho] at hraw
    have hf : (fun b => appendTable rawlen fmt (levels + 1) b key es) =
      fun b => appendKey b Kind.array.byte key >>= fun b =>
        packArray (appendOne (appendTable rawlen fmt levels)) b es (rawlen es) := by
      funext b
      rw [appendTable, hraw]
      rfl
    have hits' := hits
    rw [items, if_pos ho] at hits' ⊢
    rw [hf]
    refine emits_field (packArray_emits fun i hi => ?_)
    exact (hits' _ (List.mem_map.mpr ⟨i, List.mem_range.mpr hi, rfl⟩)).emits (bsonNumstr i)
  | false =>
    rw [ho] at hraw
    have hf : (fun b => appendTable rawlen fmt (levels + 1) b key es) = fun b => appendKey b Kind.document.byte key >>=
        fun b => packSimpleDict fmt (appendOne (appendTable rawlen fmt levels)) b es := by
      funext b
      rw [appendTable, hraw]
      rfl
    have hits' := hits
    rw [items, if_neg (by rw [ho]; decide)] at hits' ⊢
    rw [hf]
    refine emits_field (packSimpleDict_emits hkey fun p hp key => ?_)
    exact (hits' _ (List.mem_map.mpr ⟨p, hp, rfl⟩)).emits key

theorem kept_of_storable {v : Value} (h : Storable rawlen fmt levels v) : Kept rawlen fmt levels v := by
  induction h with
  | @boolean levels v =>
    refine Kept.of_written (s := .boolean (if v then 1 else 0)) (fun _ _ => by cases levels <;> rfl)
      (by cases levels <;> rfl) ?_
    intro key
    exact ⟨emits_field (Emits.write _), by cases v <;> rfl, fun _ => trivial⟩
  | @integer levels v =>
    exact Kept.of_written (fun _ _ => by cases levels <;> rfl) (by cases levels <;> rfl)
      fun key => integer_written key v
  | @number levels bits =>
    exact Kept.of_written (fun _ _ => by cases levels <;> rfl) (by cases levels <;> rfl)
      fun key => double_written key bits
  | @string levels s h =>
    exact Kept.of_written (fun _ _ => by cases levels <;> rfl) (by cases levels <;> rfl) fun key => text_written h key
  | @table levels es hkey hval hseq ih =>
    have hits : ∀ p ∈ items rawlen fmt es, Kept rawlen fmt levels p.2 := forall_items hseq ih
    refine ⟨?_, ?_, ?_, ?_⟩
    · intro key
      change Emits (fun b => appendTable rawlen fmt (levels + 1) b key es)
        ((tableKind (ordered rawlen es)).byte ::
          (key ++ 0 :: (wrap (toDoc rawlen fmt levels (items rawlen fmt es)).bytes ++ [])))
      rw [List.append_nil]
      exact appendTable_emits hkey hseq hits
    · intro key d
      exact nested_bytes ..
    · intro array key d t
      change (d.table array (setKey t (keyValue array key)
        (.table ((toDoc rawlen fmt levels (items rawlen fmt es)).table (ordered rawlen es) [])))) = _
      rw [toDoc_table hits]
      rfl
    · intro array key d hkeyOk hd
      exact ⟨hkeyOk, toDoc_ok hits (items_key hkey), hd⟩

/-! ### The calls -/

theorem getLength_block {d : Doc} (h : d.block.length < 2 ^ 31) : getLength d.block = .ok (d.block.length : Int) := by
  have hat : At d.block { ptr := 0, size := d.block.length } (d.block.take ((d.block.length : Nat) : Int).toNat) :=
    at_front (by omega) (Int.le_refl _)
  rw [Int.toNat_natCast, List.take_length, Doc.block, wrap, List.append_assoc] at hat
  rw [Doc.block, wrap_length] at h
  have hbytes := bytesAt_at hat
  rw [Endian.le_length] at hbytes
  rw [getLength, Doc.block, wrap, List.append_assoc, hbytes]
  simp only [bind, Except.bind]
  rw [Endian.ofLe_le_of_lt (by simp; omega), toInt32_of_lt h]
  simp
  omega

/-- The block of a document that is in order is decoded to its table. -/
theorem ldecode_ok {d : Doc} (hd : d.Ok false) (h : d.block.length < 2 ^ 31) : ldecode d.block = .ok d.value :=
  ldecode_block h (getLength_block h) (Int.le_refl _) hd (by rw [Int.toNat_natCast, List.take_length])

variable (rawlen fmt)

/-- The document of the table that is given to `encode`. -/
def rootDoc (es : Entries) : Doc := toDoc rawlen fmt MAX_DEPTH (dictItems fmt es)

/-- What is decoded for it. -/
def rootTable (es : Entries) : Entries := storedTable rawlen fmt false MAX_DEPTH (dictItems fmt es)

variable {rawlen fmt}

theorem rootItems_kept {es : Entries} (hval : ∀ p ∈ es, Storable rawlen fmt MAX_DEPTH p.2) :
    ∀ p ∈ dictItems fmt es, Kept rawlen fmt MAX_DEPTH p.2 := by
  intro q hq
  obtain ⟨p, hp, rfl⟩ := List.mem_map.mp hq
  exact kept_of_storable (hval p hp)

theorem lencode_eq {es : Entries} (hkey : ∀ p ∈ es, KeyText fmt p.1)
    (hval : ∀ p ∈ es, Storable rawlen fmt MAX_DEPTH p.2)
    (hsize : (rootDoc rawlen fmt es).block.length < 2 ^ 30) :
    lencode rawlen fmt es = .ok (rootDoc rawlen fmt es).block := by
  have hemits : Emits (fun b => packSimpleDict fmt (appendOne (appendTable rawlen fmt MAX_DEPTH)) b es)
      (wrap ((dictItems fmt es).flatMap fun p => (addField rawlen fmt MAX_DEPTH p.1 p.2 .nil).bytes)) :=
    packSimpleDict_emits hkey fun p hp key => (kept_of_storable (hval p hp)).emits key
  rw [← toDoc_bytes (rootItems_kept hval)] at hemits
  obtain ⟨b, hpack, hbytes, -⟩ := hemits bsonCreate bsonCreate_ok
    (by simpa [bsonCreate, rootDoc, Doc.block] using hsize)
  change packSimpleDict fmt (appendOne (appendTable rawlen fmt MAX_DEPTH)) bsonCreate es = .ok b at hpack
  rw [lencode, hpack]
  exact congrArg Except.ok hbytes

def argItems (pairs : List (Value × Value)) : List Value := pairs.flatMap fun p => [p.1, p.2]

theorem packArguments_eq {one : Buffer → Bytes → Value → Except EncodeError Buffer} {pairs : List (Value × Value)}
    (hkey : ∀ p ∈ pairs, KeyText fmt p.1) (i : Nat) (b : Buffer) :
    packArguments fmt one i b (argItems pairs) = (dictItems fmt pairs).foldlM (fun b p => one b p.1 p.2) b := by
  induction pairs generalizing i b with
  | nil => rfl
  | cons p pairs ih =>
    obtain ⟨key, htext, -⟩ := hkey p List.mem_cons_self
    rw [argItems, List.flatMap_cons, ← argItems]
    simp only [List.cons_append, List.nil_append, packArguments, htext, dictItems, List.map_cons, List.foldlM_cons,
      Option.getD_some]
    congr 1
    funext b'
    exact ih (fun q hq => hkey q (List.mem_cons_of_mem _ hq)) (i + 2) b'

theorem lencodeOrder_eq {pairs : Entries} (hkey : ∀ p ∈ pairs, KeyText fmt p.1)
    (hval : ∀ p ∈ pairs, Storable rawlen fmt MAX_DEPTH p.2) (hsize : (rootDoc rawlen fmt pairs).block.length < 2 ^ 30) :
    lencodeOrder rawlen fmt (argItems pairs) = .ok (rootDoc rawlen fmt pairs).block := by
  have hits := rootItems_kept hval
  have heven : ¬ (argItems pairs).length % 2 ≠ 0 := by
    have hlen : (argItems pairs).length = pairs.length * 2 := by simp [argItems]
    omega
  have hemits := Emits.document (Emits.foldlM (f := fun b p => appendOne (appendTable rawlen fmt MAX_DEPTH) b p.1 p.2)
    fun p hp => (hits p hp).emits p.1)
  rw [← toDoc_bytes hits] at hemits
  obtain ⟨b, hpack, hbytes, -⟩ := hemits bsonCreate bsonCreate_ok
    (by simpa [bsonCreate, rootDoc, Doc.block] using hsize)
  have hdict :
      packOrderedDict fmt (appendOne (appendTable rawlen fmt MAX_DEPTH)) bsonCreate (argItems pairs) = .ok b := by
    rw [packOrderedDict]
    simp only [packArguments_eq hkey]
    exact hpack
  rw [lencodeOrder, if_neg heven, hdict]
  exact congrArg Except.ok hbytes

/-- A table of storable values, of which the block is less than `2 ^ 30` bytes, is encoded, by `encode` and from its pairs by
`encode_order`, and decoded. -/
theorem bson_roundtrip {es : Entries} (hkey : ∀ p ∈ es, KeyText fmt p.1)
    (hval : ∀ p ∈ es, Storable rawlen fmt MAX_DEPTH p.2)
    (hsize : (rootDoc rawlen fmt es).block.length < 2 ^ 30) :
    lencode rawlen fmt es = .ok (rootDoc rawlen fmt es).block ∧
      lencodeOrder rawlen fmt (argItems es) = .ok (rootDoc rawlen fmt es).block ∧
        ldecode (rootDoc rawlen fmt es).block = .ok (.table (rootTable rawlen fmt es)) := by
  have hits := rootItems_kept hval
  have hok : (rootDoc rawlen fmt es).Ok false := toDoc_ok hits fun q hq => dictItems_key hkey hq
  refine ⟨lencode_eq hkey hval hsize, lencodeOrder_eq hkey hval hsize, ?_⟩
  rw [ldecode_ok hok (by omega), Doc.value, rootDoc, toDoc_table hits]
  rfl

theorem bson_roundtrip_array :
    ∃ bs, lencode List.length (fun _ => []) [(.string [97], .table [(intKey 1, .boolean true)])] = .ok bs ∧
      lencodeOrder List.length (fun _ => []) [.string [97], .table [(intKey 1, .boolean true)]] = .ok bs ∧
      ldecode bs = .ok (.table [(.string [97], .table [(intKey 1, .boolean true)])]) := by
  refine ⟨_, bson_roundtrip ?_ ?_ ?_⟩
  · intro p hp
    cases List.mem_singleton.mp hp
    exact ⟨[97], rfl, by decide⟩
  · intro p hp
    cases List.mem_singleton.mp hp
    refine .table ?_ ?_ (by decide)
    · intro q hq
      cases List.mem_singleton.mp hq
      exact ⟨[49], rfl, by decide⟩
    · intro q hq
      cases List.mem_singleton.mp hq
      exact .boolean true
  · decide

end Tables

end Bson
end Skynet
