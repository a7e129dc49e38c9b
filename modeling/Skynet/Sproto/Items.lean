import Skynet.Lua.Table
import Skynet.Sproto.Integers

/-!
# Skynet.Sproto.Items

The values of a type, and the encode callback at one of them.

* `Holds buf off bs` : the bytes `bs` are in the input at an offset.
* `TableOk` : the tables that conform to a type without maps.
* `Opens f es ud` : the encode callback looks at the array of a field, or has not yet looked at it.
-/

namespace Skynet
namespace Sproto

open Lua

/-! ### Bytes of the input -/

/-- The bytes `bs` are at an offset of the input. -/
def Holds (buf : Bytes) (off : Nat) (bs : Bytes) : Prop := ∃ post, buf.drop off = bs ++ post

section Holds

variable {buf a b : Bytes} {off : Nat}

theorem Holds.all (buf : Bytes) : Holds buf 0 buf := ⟨[], by rw [List.drop_zero, List.append_nil]⟩

theorem Holds.nil (buf : Bytes) (off : Nat) : Holds buf off [] := ⟨buf.drop off, rfl⟩

theorem Holds.left (h : Holds buf off (a ++ b)) : Holds buf off a := by
  obtain ⟨post, h⟩ := h
  exact ⟨b ++ post, by rw [h, List.append_assoc]⟩

theorem Holds.right (h : Holds buf off (a ++ b)) : Holds buf (off + a.length) b := by
  obtain ⟨post, h⟩ := h
  refine ⟨post, ?_⟩
  rw [← List.drop_drop, h, List.append_assoc, List.drop_left]

theorem Holds.take (h : Holds buf off a) : (buf.drop off).take a.length = a := by
  obtain ⟨post, h⟩ := h
  rw [h, List.take_left]

theorem Holds.bound (h : Holds buf off a) (hpos : 0 < a.length) : off + a.length ≤ buf.length := by
  obtain ⟨post, h⟩ := h
  have := congrArg List.length h
  rw [List.length_drop, List.length_append] at this
  omega

theorem Holds.get {j : Nat} {x : UInt8} (h : Holds buf off a) (hx : a[j]? = some x) : Holds buf (off + j) [x] := by
  obtain ⟨hlt, rfl⟩ := List.getElem?_eq_some_iff.mp hx
  have hsplit : a = a.take j ++ (a[j] :: a.drop (j + 1)) := by
    rw [List.getElem_cons_drop, List.take_append_drop]
  rw [hsplit, ← List.singleton_append] at h
  have := h.right.left
  rwa [List.length_take, Nat.min_eq_left (Nat.le_of_lt hlt)] at this

theorem readLe_holds {k n : Nat} (h : Holds buf off (Endian.le k n)) (hk : 0 < k) :
    readLe buf k off = .ok (n % 256 ^ k) := by
  have hbound := h.bound (by rw [Endian.le_length]; exact hk)
  have htake := h.take
  rw [Endian.le_length] at hbound htake
  rw [readLe, if_pos hbound, htake, Endian.ofLe_le]

theorem toword_holds {n : Nat} (h : Holds buf off (Endian.le 2 n)) (hn : n < 2 ^ 16) : toword buf off = .ok n := by
  rw [toword, readLe_holds h (by omega), Nat.mod_eq_of_lt (by omega)]

theorem todword_holds {n : Nat} (h : Holds buf off (Endian.le 4 n)) (hn : n < 2 ^ 32) : todword buf off = .ok n := by
  rw [todword, readLe_holds h (by decide), Nat.mod_eq_of_lt (by omega)]

theorem toqword_holds {v : BitVec 64} (h : Holds buf off (Endian.le 8 v.toNat)) : toqword buf off = .ok v := by
  rw [show (8 : Nat) = 4 + 4 from rfl, Endian.le_add] at h
  have hhi := h.right
  rw [Endian.le_length] at hhi
  rw [toqword, todword, readLe_holds h.left (by decide), todword, readLe_holds hhi (by decide)]
  simp only [bind, Except.bind, halves_toNat]

theorem Holds.filled_size (h : Holds buf off (filled a)) (hlen : a.length < 2 ^ 32) :
    todword buf off = .ok a.length := todword_holds h.left hlen

theorem Holds.filled_body (h : Holds buf off (filled a)) : Holds buf (off + SIZEOF_LENGTH) a := by
  have := h.right
  rwa [Endian.le_length] at this

end Holds

theorem filled_length (bs : Bytes) : (filled bs).length = bs.length + 4 := by
  rw [filled, List.length_append, Endian.le_length, Nat.add_comm]; rfl

theorem int32_of_lt {n : Nat} (h : n < 2 ^ 31) : int32 n = n := by
  unfold int32
  rw [Int.bmod_eq_of_le] <;> omega

theorem uint32_of_lt {n : Nat} (h : n < 2 ^ 31) : uint32 n = n := by
  unfold uint32
  omega

/-! ### Values of a type -/

/-- The values of a field's type, where `sub` tells the tables of a struct. -/
inductive ItemOk (ts : List SprotoType) (sub : SprotoType → Entries → Prop) : FieldType → Value → Prop
  | integer (v : BitVec 64) : ItemOk ts sub .integer (.integer v)
  | boolean (b : Bool) : ItemOk ts sub .boolean (.boolean b)
  | string (s : Bytes) : ItemOk ts sub .string (.string s)
  | struct {i : Nat} {st : SprotoType} {es : Entries} (hst : ts[i]? = some st) (h : sub st es) :
      ItemOk ts sub (.struct i) (.table es)

/-- The values of a field: those of its type, or the arrays of them. -/
inductive FieldOk (ts : List SprotoType) (sub : SprotoType → Entries → Prop) (f : Field) : Value → Prop
  | item {v : Value} (ha : f.array = false) (hv : ItemOk ts sub f.type v) : FieldOk ts sub f v
  | array {es : Entries} {vs : List Value} (ha : f.array = true) (hes : es.Perm (arrayEntries 1 vs))
      (hvs : ∀ v ∈ vs, ItemOk ts sub f.type v) : FieldOk ts sub f (.table es)

/-- The tables that conform to a type, with at most `left` levels: distinct keys that are names of fields,
and values of these fields. -/
def TableOk (ts : List SprotoType) : Nat → SprotoType → Entries → Prop
  | 0, st, es => st.f = [] ∧ es = []
  | left + 1, st, es => Distinct es ∧ ∀ p ∈ es, ∃ f ∈ st.f, p.1 = .string f.name ∧ FieldOk ts (TableOk ts left) f p.2

/-- Bytes that are enough for a value, where `sub` tells the bytes for a struct. -/
def itemRoom (ts : List SprotoType) (sub : SprotoType → Entries → Nat) : FieldType → Value → Nat
  | .string, .string s => s.length + 4
  | .struct i, .table es =>
    match ts[i]? with
    | some st => sub st es + 4
    | none => 0
  | _, _ => 12

def fieldRoom (ts : List SprotoType) (sub : SprotoType → Entries → Nat) (f : Field) : Value → Nat
  | .table es => if f.array then (es.map fun p => itemRoom ts sub f.type p.2).sum + 13 else itemRoom ts sub f.type (.table es)
  | v => itemRoom ts sub f.type v

/-- Bytes that are enough for the fields of a table. -/
def fieldsRoom (ts : List SprotoType) (sub : SprotoType → Entries → Nat) (fs : List Field) (es : Entries) : Nat :=
  (fs.map fun f => if (getfield es f.name).isNil then 0 else fieldRoom ts sub f (getfield es f.name)).sum

/-- Bytes that are enough for a table; the encoder asks for up to eight bytes before it looks for a value. -/
def tableRoom (ts : List SprotoType) : Nat → SprotoType → Entries → Nat
  | 0, st, _ => SIZEOF_HEADER + st.maxn * SIZEOF_FIELD
  | left + 1, st, es => SIZEOF_HEADER + st.maxn * SIZEOF_FIELD + fieldsRoom ts (tableRoom ts left) st.f es + 8

/-! ### The encode callback -/

section Items

variable {co : Coercions} {ts : List SprotoType} {left : Nat}

/-- The state of the encode callback in the array of a field. -/
def opened (f : Field) (es : Entries) (self : EncodeUd) : EncodeUd := { self with arrayTag := some f.tag, array := es }

/-- The array of the field is the one looked at, or is not looked at yet. -/
structure Opens (f : Field) (es : Entries) (ud : EncodeUd) : Prop where
  tbl : getfield ud.tbl f.name = .table es
  array : ud.arrayTag = some f.tag → ud.array = es

theorem Opens.opened {f : Field} {es : Entries} {self : EncodeUd} (h : Opens f es self) : Opens f es (opened f es self) :=
  ⟨h.tbl, fun _ => rfl⟩

theorem opened_opened (f : Field) (es : Entries) (self : EncodeUd) : opened f es (opened f es self) = opened f es self := rfl

theorem Opens.openArray {f : Field} {es : Entries} {self : EncodeUd} (h : Opens f es self) (args : EncodeArg)
    (hname : args.tagname = f.name) (htag : args.tagid = f.tag) : Sproto.openArray args self = .ok (true, Sproto.opened f es self) := by
  unfold Sproto.openArray
  split
  · rename_i ht
    rw [htag] at ht
    have harr := h.array ht
    obtain ⟨tbl, arrayTag, array, iter⟩ := self
    simp only at ht harr
    rw [ht, harr]; rfl
  · rw [hname, h.tbl, htag]; rfl

theorem lookup_item {f : Field} {es : Entries} {self : EncodeUd} (h : Opens f es self) (hkey : f.key < 0)
    (args : EncodeArg) (hname : args.tagname = f.name) (htag : args.tagid = f.tag) (hmain : args.mainindex = f.key)
    (hidx : 0 < args.index) : lookup args self = .ok (some (rawgeti es args.index), opened f es self) := by
  have hitem : arrayItem args (opened f es self) = (rawgeti es args.index, opened f es self) := by
    rw [arrayItem, if_neg (by rw [hmain]; omega)]; rfl
  rw [lookup, if_pos hidx, h.openArray args hname htag]
  simp only [bind, Except.bind, if_true, hitem]

theorem lookup_noarray {f : Field} {self : EncodeUd} (h : getfield self.tbl f.name = .nil)
    (hnew : self.arrayTag ≠ some f.tag) (args : EncodeArg) (hname : args.tagname = f.name) (htag : args.tagid = f.tag)
    (hidx : 0 < args.index) : lookup args self = .ok (none, opened f [] self) := by
  have hopen : openArray args self = .ok (false, opened f [] self) := by
    rw [openArray, if_neg (by rw [htag]; exact hnew), hname, h, htag]; rfl
  rw [lookup, if_pos hidx, hopen]
  simp [bind, Except.bind]

/-- The value that is looked up decides the result of the callback. -/
theorem encode_of_lookup {args : EncodeArg} {self self' : EncodeUd} {v : Value} {r : CbResult}
    (h : lookup args self = .ok (some v, self')) (hv : v.isNil = false)
    (hr : encodeValue co (encodeStruct ts (encode co ts left)) args v = .ok r) :
    encode co ts (left + 1) args self = .ok (r, self') := by
  rw [encode, h]
  simp only [bind, Except.bind]
  cases v with
  | nil => cases hv
  | _ => simp only [hr]

theorem encode_nil {args : EncodeArg} {self self' : EncodeUd} (h : lookup args self = .ok (some .nil, self')) :
    encode co ts (left + 1) args self = .ok (.nil, self') := by
  rw [encode, h]; rfl

theorem encode_noarray {args : EncodeArg} {self self' : EncodeUd} (h : lookup args self = .ok (none, self')) :
    encode co ts (left + 1) args self = .ok (.noarray, self') := by
  rw [encode, h]; rfl

theorem encodeValue_integer {sub : Nat → Nat → Entries → Except Fault CbResult} {args : EncodeArg}
    (ht : args.type = .integer) (v : BitVec 64) :
    encodeValue co sub args (.integer v) = .ok (.wrote (integerBytes v)) := by
  simp only [encodeValue, ht, Coercions.toInteger, integerBytes, small_iff]
  split <;> rfl

theorem encodeValue_boolean {sub : Nat → Nat → Entries → Except Fault CbResult} {args : EncodeArg}
    (ht : args.type = .boolean) (b : Bool) :
    encodeValue co sub args (.boolean b) = .ok (.wrote (Endian.le 4 (if b then 1 else 0))) := by
  simp only [encodeValue, ht]

end Items

end Sproto
end Skynet
