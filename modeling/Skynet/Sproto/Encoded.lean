import Mathlib.Data.Set.List
import Skynet.Sproto.Wire

/-!
# Skynet.Sproto.Encoded

`sproto_encode` with the callback of `lsproto.c` writes the format.

* `Tail es k ws` : the items of an array from an index on.
* `encodeMap_spec` : a map is written in the order of `lua_next`.
* `FieldEncoded` : what `sproto_encode` makes of a field that is present.
* `table_encoded` : a table that conforms to its type is encoded into every buffer that is large enough.
-/

namespace Skynet
namespace Sproto

open Lua

/-! ### Strings and structs -/

/-- A table and its encoding. -/
structure TableEncoded (co : Coercions) (ts : List SprotoType) (left : Nat) (st : SprotoType) (es : Entries) (bs : Bytes) :
    Prop where
  encoded : ∀ size, tableRoom ts left st es ≤ size →
    ∃ ud, sprotoEncode (encode co ts left) st size (encodeUd es) = .ok (some bs, ud)
  length : bs.length ≤ tableRoom ts left st es

/-- A string or a struct and its encoding. -/
structure ItemEncoded (co : Coercions) (ts : List SprotoType) (left : Nat) (t : FieldType) (v : Value) (bs : Bytes) :
    Prop where
  encoded : ∀ args : EncodeArg, args.type = t → itemRoom ts (tableRoom ts left) t v ≤ args.length + 4 →
    encodeValue co (encodeStruct ts (encode co ts left)) args v = .ok (.wrote bs)
  length : bs.length + 4 ≤ itemRoom ts (tableRoom ts left) t v

section Encode

variable {co : Coercions} {ts : List SprotoType} {left : Nat} {f : Field} {es : Entries} {self : EncodeUd}

theorem string_encoded (s : Bytes) : ItemEncoded co ts left .string (.string s) s where
  encoded := by
    intro args ht hroom
    have hlen : ¬args.length < s.length := by simp only [itemRoom] at hroom; omega
    simp only [encodeValue, ht, Coercions.toStr, if_neg hlen]
  length := by simp [itemRoom]

theorem struct_encoded {i : Nat} {st : SprotoType} {bs : Bytes} (hst : ts[i]? = some st)
    (h : TableEncoded co ts left st es bs) : ItemEncoded co ts left (.struct i) (.table es) bs where
  encoded := by
    intro args ht hroom
    simp only [itemRoom, hst] at hroom
    obtain ⟨ud, henc⟩ := h.encoded args.length (by omega)
    simp only [encodeValue, ht, encodeStruct, hst, henc, bind, Except.bind]
  length := by
    have := h.length
    simp only [itemRoom, hst]
    omega

/-! ### Arrays -/

/-- From index `k` on the array has the items `ws`, and nil behind them. -/
def Tail (es : Entries) (k : Nat) (ws : List Value) : Prop :=
  ∀ j, j ≤ ws.length → rawgeti es (k + j) = ws[j]?.getD .nil

theorem Tail.nil {es : Entries} {k : Nat} (h : Tail es k []) : rawgeti es k = .nil := by
  have := h 0 (Nat.le_refl 0)
  rwa [Nat.add_zero] at this

theorem Tail.head {es : Entries} {k : Nat} {w : Value} {ws : List Value} (h : Tail es k (w :: ws)) :
    rawgeti es k = w := by
  have := h 0 (Nat.zero_le _)
  rwa [Nat.add_zero] at this

theorem Tail.tail {es : Entries} {k : Nat} {w : Value} {ws : List Value} (h : Tail es k (w :: ws)) :
    Tail es (k + 1) ws := by
  intro j hj
  have := h (j + 1) (by simpa using hj)
  rwa [← Nat.add_assoc, Nat.add_right_comm, List.getElem?_cons_succ] at this

/-- The callback behind the last item. -/
theorem encode_last (ho : Opens f es self) (hkey : f.key < 0) {k : Nat} (hk : 0 < k) (h : rawgeti es k = .nil)
    (len : Nat) :
    encode co ts (left + 1) { fieldArg f with length := len, index := k } self = .ok (.nil, opened f es self) := by
  apply encode_nil
  have := lookup_item ho hkey { fieldArg f with length := len, index := k } rfl rfl rfl hk
  rw [this]
  simp only [h]

/-- The callback at an item. -/
theorem encode_item (ho : Opens f es self) (hkey : f.key < 0) {k len : Nat} (hk : 0 < k) {v : Value}
    (h : rawgeti es k = v) (hv : v.isNil = false) {r : CbResult}
    (hr : encodeValue co (encodeStruct ts (encode co ts left)) { fieldArg f with length := len, index := k } v = .ok r) :
    encode co ts (left + 1) { fieldArg f with length := len, index := k } self = .ok (r, opened f es self) := by
  refine encode_of_lookup ?_ hv hr
  have := lookup_item ho hkey { fieldArg f with length := len, index := k } rfl rfl rfl hk
  rw [this]
  simp only [h]

theorem encodeBooleans_spec (hkey : f.key < 0) (ht : f.type = .boolean) {bs : List Bool} {fuel k size : Nat}
    {body : Bytes} (ho : Opens f es self) (hk : 0 < k) (h : Tail es k (bs.map .boolean)) (hfuel : bs.length < fuel)
    (hsize : bs.length ≤ size) :
    encodeBooleans (encode co ts (left + 1)) (fieldArg f) fuel k body size self =
      .ok (.done (body ++ bs.map booleanByte), opened f es self) := by
  induction bs generalizing fuel k size body self with
  | nil =>
    obtain ⟨fuel, rfl⟩ : ∃ n, fuel = n + 1 := ⟨fuel - 1, by omega⟩
    rw [encodeBooleans, encode_last ho hkey hk h.nil 4]
    simp [bind, Except.bind]
  | cons b bs ih =>
    rw [List.length_cons] at hfuel hsize
    obtain ⟨fuel, rfl⟩ : ∃ n, fuel = n + 1 := ⟨fuel - 1, by omega⟩
    rw [encodeBooleans, encode_item ho hkey hk h.head rfl (encodeValue_boolean ht b)]
    simp only [bind, Except.bind]
    rw [if_neg (by omega), ih ho.opened (Nat.succ_pos k) h.tail (by omega) (by omega), opened_opened]
    have hbyte : (if Endian.ofLe (Endian.le 4 (if b then 1 else 0)) ≠ 0 then (1 : UInt8) else 0) = booleanByte b := by
      cases b <;> rfl
    simp [hbyte]

theorem encodeObjects_spec (hkey : f.key < 0) {ws : List Value} {bss : List Bytes} {fuel k size : Nat}
    {body : Bytes} (ho : Opens f es self) (hk : 0 < k) (h : Tail es k ws) (hnil : ∀ w ∈ ws, w.isNil = false)
    (hcode : List.Forall₂ (ItemEncoded co ts left f.type) ws bss) (hfuel : size < fuel)
    (hsize : (ws.map (itemRoom ts (tableRoom ts left) f.type)).sum + 4 ≤ size) :
    encodeObjects (encode co ts (left + 1)) (fieldArg f) fuel k body size self =
      .ok (.done (body ++ (bss.map filled).flatten), opened f es self) := by
  have hlen : SIZEOF_LENGTH = 4 := rfl
  induction hcode generalizing fuel k size body self with
  | nil =>
    obtain ⟨fuel, rfl⟩ : ∃ n, fuel = n + 1 := ⟨fuel - 1, by omega⟩
    rw [encodeObjects, if_neg (by omega), encode_last ho hkey hk h.nil]
    simp [bind, Except.bind]
  | @cons w bs ws bss hw _ ih =>
    rw [List.map_cons, List.sum_cons] at hsize
    obtain ⟨fuel, rfl⟩ : ∃ n, fuel = n + 1 := ⟨fuel - 1, by omega⟩
    have hroom := hw.length
    rw [encodeObjects, if_neg (by omega), encode_item ho hkey hk h.head (hnil w (List.mem_cons_self ..))
      (hw.encoded { fieldArg f with length := size - SIZEOF_LENGTH, index := k } rfl (by simp only; omega))]
    simp only [bind, Except.bind]
    rw [if_neg (by omega), ih ho.opened (Nat.succ_pos k) h.tail (fun v hv => hnil v (List.mem_cons_of_mem _ hv))
      (by omega) (by omega), opened_opened]
    simp

/-- The bytes of an array behind its last item. -/
theorem written_body {size : Nat} {vs : List (BitVec 64)} {a : IntArray} (h : Written size vs a) :
    (if a.buffer = 0 then [] else UInt8.ofNat a.intlen :: Mem.slice a.mem 0 a.buffer) = integersBody vs := by
  have hbuf := h.buffer
  unfold integersBody
  by_cases hvs : vs = []
  · have hzero : a.buffer = 0 := by rw [hbuf, hvs, List.length_nil, Nat.zero_mul]
    rw [if_pos hzero, if_pos hvs]
  · have hpos := List.length_pos_iff.mpr hvs
    have hne : a.buffer ≠ 0 := by rcases width_cases vs with hw | hw <;> rw [hw] at hbuf <;> omega
    rw [if_neg hne, if_neg hvs, h.mem, h.intlen]

theorem encodeIntegers_spec (hkey : f.key < 0) (ht : f.type = .integer) {vs ws : List (BitVec 64)} {fuel size : Nat}
    {a : IntArray} (ho : Opens f es self) (ha : Written size vs a) (h : Tail es (vs.length + 1) (ws.map .integer))
    (hfuel : ws.length < fuel) (hsize : (vs ++ ws).length * 8 ≤ size) :
    encodeIntegers (encode co ts (left + 1)) (fieldArg f) fuel a self =
      .ok (.done (integersBody (vs ++ ws)), opened f es self) := by
  induction ws generalizing vs fuel a self with
  | nil =>
    obtain ⟨fuel, rfl⟩ : ∃ n, fuel = n + 1 := ⟨fuel - 1, by omega⟩
    have hlast : rawgeti es a.index = .nil := by rw [ha.index]; exact h.nil
    have hpos : 0 < a.index := by rw [ha.index]; omega
    rw [encodeIntegers, encode_last ho hkey hpos hlast 8]
    simp only [bind, Except.bind, List.append_nil, written_body ha]
  | cons w ws ih =>
    rw [List.length_cons] at hfuel
    obtain ⟨fuel, rfl⟩ : ∃ n, fuel = n + 1 := ⟨fuel - 1, by omega⟩
    obtain ⟨a', hput, ha'⟩ := putInteger_spec ha w (by rw [List.length_append, List.length_cons] at hsize; omega)
    rw [List.map_cons] at h
    have hitem : rawgeti es a.index = .integer w := by rw [ha.index]; exact h.head
    have htail : Tail es ((vs ++ [w]).length + 1) (ws.map .integer) := by
      rw [List.length_append, List.length_singleton]
      exact h.tail
    have hpos : 0 < a.index := by rw [ha.index]; omega
    rw [encodeIntegers, encode_item ho hkey hpos hitem rfl (encodeValue_integer ht w)]
    simp only [bind, Except.bind, hput]
    rw [ih ho.opened ha' htail (by omega) (by rw [List.append_assoc]; exact hsize), opened_opened, List.append_assoc,
      List.singleton_append]

/-! ### Maps -/

/-- `lua_next` at the `n`th pair of the map of a field. -/
def atPair (f : Field) (es : Entries) (n : Nat) (self : EncodeUd) : EncodeUd := { opened f es self with iter := n }

theorem lookup_pair (ho : Opens f es self) (hkey : 0 ≤ f.key) (args : EncodeArg) (hname : args.tagname = f.name)
    (htag : args.tagid = f.tag) (hmain : args.mainindex = f.key) (hidx : 0 < args.index) :
    lookup args self = .ok (match es[self.iter]? with
      | none => (some .nil, atPair f es 0 self)
      | some p => (some p.2, atPair f es (self.iter + 1) self)) := by
  rw [lookup, if_pos hidx, ho.openArray args hname htag]
  simp only [bind, Except.bind, if_true, arrayItem, hmain]
  rw [if_pos hkey]
  have harray : (opened f es self).array = es := rfl
  have hiter : (opened f es self).iter = self.iter := rfl
  rw [harray, hiter]
  cases es[self.iter]? <;> rfl

/-- A map is written in the order of its pairs, and the next one starts at the first pair again. -/
theorem encodeMap_spec (hkey : 0 ≤ f.key) {rest : Entries} {bss : List Bytes} {fuel k size : Nat} {body : Bytes}
    (ho : Opens f es self) (hk : 0 < k) (hrest : es.drop self.iter = rest) (hnil : ∀ p ∈ rest, p.2.isNil = false)
    (hcode : List.Forall₂ (ItemEncoded co ts left f.type) (rest.map Prod.snd) bss) (hfuel : size < fuel)
    (hsize : ((rest.map Prod.snd).map (itemRoom ts (tableRoom ts left) f.type)).sum + 4 ≤ size) :
    encodeObjects (encode co ts (left + 1)) (fieldArg f) fuel k body size self =
      .ok (.done (body ++ (bss.map filled).flatten), atPair f es 0 self) := by
  have hlen : SIZEOF_LENGTH = 4 := rfl
  induction rest generalizing fuel k size body self bss with
  | nil =>
    cases hcode
    obtain ⟨fuel, rfl⟩ : ∃ n, fuel = n + 1 := ⟨fuel - 1, by omega⟩
    have hlook := lookup_pair ho hkey { fieldArg f with length := size - SIZEOF_LENGTH, index := k } rfl rfl rfl hk
    rw [List.getElem?_eq_none (List.drop_eq_nil_iff.mp hrest)] at hlook
    rw [encodeObjects, if_neg (by omega), encode_nil hlook]
    simp [bind, Except.bind]
  | cons p rest ih =>
    rw [List.map_cons] at hcode
    cases hcode with
    | @cons _ bs _ bss hp hcode =>
      rw [List.map_cons, List.map_cons, List.sum_cons] at hsize
      obtain ⟨fuel, rfl⟩ : ∃ n, fuel = n + 1 := ⟨fuel - 1, by omega⟩
      have hroom := hp.length
      have hget : es[self.iter]? = some p := by
        rw [← List.head?_drop, hrest, List.head?_cons]
      have hnext : es.drop (self.iter + 1) = rest := by
        rw [← List.tail_drop, hrest, List.tail_cons]
      have hlook := lookup_pair ho hkey { fieldArg f with length := size - SIZEOF_LENGTH, index := k } rfl rfl rfl hk
      rw [hget] at hlook
      have ho' : Opens f es (atPair f es (self.iter + 1) self) := ⟨ho.tbl, fun _ => rfl⟩
      rw [encodeObjects, if_neg (by omega), encode_of_lookup hlook (hnil p (List.mem_cons_self ..))
        (hp.encoded { fieldArg f with length := size - SIZEOF_LENGTH, index := k } rfl (by simp only; omega))]
      simp only [bind, Except.bind]
      rw [if_neg (by omega), ih ho' (Nat.succ_pos k) hnext (fun q hq => hnil q (List.mem_cons_of_mem _ hq)) hcode (by omega)
        (by omega)]
      simp [atPair, opened]

/-! ### Fields -/

/-- What is left of the state behind a field. -/
structure Left (f : Field) (ud ud' : EncodeUd) : Prop where
  tbl : ud'.tbl = ud.tbl
  tag : ud'.arrayTag = ud.arrayTag ∨ ud'.arrayTag = some f.tag
  iter : ud'.iter = 0

/-- A field that is present, and its encoding. -/
structure FieldEncoded (co : Coercions) (ts : List SprotoType) (left : Nat) (f : Field) (v : Value) (r : FieldResult) :
    Prop where
  encoded : ∀ size self, fieldRoom ts (tableRoom ts left) f v ≤ size → getfield self.tbl f.name = v →
    self.arrayTag ≠ some f.tag → self.iter = 0 → ∃ self', encodeField (encode co ts (left + 1)) f size self = .ok (r, self') ∧
      Left f self self'
  size : r.size ≤ fieldRoom ts (tableRoom ts left) f v

theorem lookup_field {args : EncodeArg} (hname : args.tagname = f.name) (hidx : args.index = 0) :
    lookup args self = .ok (some (getfield self.tbl f.name), self) := by
  rw [lookup, if_neg (by omega), hname]

/-- The callback for a field that is no array. -/
theorem encode_scalar {v : Value} (hv : getfield self.tbl f.name = v) (hnil : v.isNil = false)
    {len : Nat} {r : CbResult}
    (hr : encodeValue co (encodeStruct ts (encode co ts left)) { fieldArg f with length := len } v = .ok r) :
    encode co ts (left + 1) { fieldArg f with length := len } self = .ok (r, self) := by
  refine encode_of_lookup ?_ hnil hr
  rw [← hv]
  exact lookup_field rfl rfl

/-- A field of a type that is no number. -/
theorem encodeField_object (ha : f.array = false) (hint : f.type ≠ .integer) (hbool : f.type ≠ .boolean) (size : Nat) :
    encodeField (encode co ts (left + 1)) f size self =
      (do let (bs, ud) ← encodeObject (encode co ts (left + 1)) (fieldArg f) size self
          .ok (.ofBytes bs, ud)) := by
  rw [encodeField, if_neg (by rw [ha]; decide)]
  split
  · rename_i htype; exact absurd htype hint
  · rename_i htype; exact absurd htype hbool
  · rfl
  · rfl

theorem encodeField_number (ha : f.array = false) (hnum : f.type = .integer ∨ f.type = .boolean) (size : Nat) :
    encodeField (encode co ts (left + 1)) f size self = encodeNumber (encode co ts (left + 1)) (fieldArg f) size self := by
  rw [encodeField, if_neg (by rw [ha]; decide)]
  rcases hnum with ht | ht <;> rw [ht]

/-- What the encoder makes of an integer. -/
theorem encodeNumber_integer (ht : f.type = .integer) {x : BitVec 64} (hv : getfield self.tbl f.name = .integer x) (size : Nat) :
    encodeNumber (encode co ts (left + 1)) (fieldArg f) size self =
      .ok (if x.toNat < 0x7fff then .inline ((x.toNat + 1) * 2)
        else .ofBytes (if size < (integerBytes x).length + 4 then none else some (filled (integerBytes x))), self) := by
  have hL : SIZEOF_LENGTH = 4 := rfl
  have hcb : encode co ts (left + 1) { fieldArg f with length := 8 } self = .ok (.wrote (integerBytes x), self) :=
    encode_scalar hv rfl (encodeValue_integer ht x)
  have hlt := x.isLt
  simp only [encodeNumber, hcb, bind, Except.bind]
  by_cases hx : Small x
  · have hbytes : integerBytes x = Endian.le 4 x.toNat := by rw [integerBytes, if_pos hx]
    have hof : Endian.ofLe (Endian.le 4 x.toNat) = x.toNat % 256 ^ 4 := Endian.ofLe_le 4 _
    have hlow : x.toNat % 256 ^ 4 < 0x7fff ↔ x.toNat < 0x7fff := by rcases small_toNat hx with hlo | hhi <;> omega
    rw [hbytes, if_pos (Endian.le_length 4 _), hof]
    by_cases hinline : x.toNat < 0x7fff
    · rw [if_pos (hlow.mpr hinline), if_pos hinline, Nat.mod_eq_of_lt (by omega)]
    · rw [if_neg (fun h => hinline (hlow.mp h)), if_neg hinline, encodeInteger, Endian.le_length, hL, Endian.le_mod]
  · have hbytes : integerBytes x = Endian.le 8 x.toNat := by rw [integerBytes, if_neg hx]
    have hof : Endian.ofLe (Endian.le 8 x.toNat) = x.toNat := by
      rw [Endian.ofLe_le]
      exact Nat.mod_eq_of_lt hlt
    have hlarge : ¬x.toNat < 0x7fff := by
      intro hlow
      apply hx
      unfold Small
      rw [BitVec.toInt_eq_toNat_cond]
      split <;> omega
    rw [hbytes, if_neg (by rw [Endian.le_length]; decide), if_pos (Endian.le_length 8 _), if_neg hlarge, hof, encodeUint64,
      Endian.le_length, hL]

/-- An integer in its record, or in four or eight bytes of data. -/
theorem integer_encoded {tab : SprotoType → Entries → Bytes → Prop} (ha : f.array = false) (ht : f.type = .integer)
    (v : BitVec 64) : ∃ r, FieldWire ts tab f (.integer v) r ∧ FieldEncoded co ts left f (.integer v) r := by
  have hroom : fieldRoom ts (tableRoom ts left) f (.integer v) = 12 := by simp only [fieldRoom, ht, itemRoom]
  have hbytes : (integerBytes v).length ≤ 8 := by
    unfold integerBytes
    split <;> rw [Endian.le_length]
    decide
  by_cases hinline : v.toNat < 0x7fff
  · refine ⟨.inline ((v.toNat + 1) * 2), .inline ha ht hinline, ?_, Nat.zero_le _⟩
    intro size self _ hget _ hiter
    refine ⟨self, ?_, rfl, .inl rfl, hiter⟩
    rw [encodeField_number ha (.inl ht), encodeNumber_integer ht hget, if_pos hinline]
  · refine ⟨.data (filled (integerBytes v)), .integer ha ht, ?_, ?_⟩
    · intro size self hsize hget _ hiter
      refine ⟨self, ?_, rfl, .inl rfl, hiter⟩
      rw [encodeField_number ha (.inl ht), encodeNumber_integer ht hget, if_neg hinline, if_neg (by omega)]
      rfl
    · simp only [FieldResult.size, filled_length]
      omega

/-- What the encoder makes of a boolean. -/
theorem encodeNumber_boolean (ht : f.type = .boolean) {b : Bool} (hv : getfield self.tbl f.name = .boolean b) (size : Nat) :
    encodeNumber (encode co ts (left + 1)) (fieldArg f) size self = .ok (.inline (((if b then 1 else 0) + 1) * 2), self) := by
  have hcb : encode co ts (left + 1) { fieldArg f with length := 8 } self =
      .ok (.wrote (Endian.le 4 (if b then 1 else 0)), self) := encode_scalar hv rfl (encodeValue_boolean ht b)
  simp only [encodeNumber, hcb, bind, Except.bind]
  cases b <;> rfl

theorem boolean_encoded (ha : f.array = false) (ht : f.type = .boolean) (b : Bool) :
    FieldEncoded co ts left f (.boolean b) (.inline (((if b then 1 else 0) + 1) * 2)) where
  encoded := by
    intro size self _ hget _ hiter
    refine ⟨self, ?_, rfl, .inl rfl, hiter⟩
    rw [encodeField_number ha (.inr ht), encodeNumber_boolean ht hget]
  size := Nat.zero_le _

theorem object_encoded (ha : f.array = false) (hint : f.type ≠ .integer) (hbool : f.type ≠ .boolean)
    {v : Value} (hnil : v.isNil = false) (hroom : fieldRoom ts (tableRoom ts left) f v = itemRoom ts (tableRoom ts left) f.type v)
    {bs : Bytes} (h : ItemEncoded co ts left f.type v bs) : FieldEncoded co ts left f v (.data (filled bs)) where
  encoded := by
    intro size self hsize hget _ hiter
    have hL : SIZEOF_LENGTH = 4 := rfl
    have hlen := h.length
    have hcb : encode co ts (left + 1) { fieldArg f with length := size - SIZEOF_LENGTH } self = .ok (.wrote bs, self) :=
      encode_scalar hget hnil (h.encoded _ rfl (by simp only; omega))
    have hobj : encodeObject (encode co ts (left + 1)) (fieldArg f) size self = .ok (some (filled bs), self) := by
      rw [encodeObject, if_neg (by omega), hcb]
      simp only [bind, Except.bind]
      rw [if_neg (by omega)]
    refine ⟨self, ?_, rfl, .inl rfl, hiter⟩
    rw [encodeField_object ha hint hbool, hobj]
    rfl
  size := by
    have := h.length
    simp only [FieldResult.size, filled_length]
    omega

/-- An array whose items are written by their loop. -/
theorem array_encoded (ha : f.array = true) {body : Bytes}
    (hitems : ∀ size self, fieldRoom ts (tableRoom ts left) f (.table es) ≤ size + 4 → Opens f es self → self.iter = 0 →
      ∃ self', encodeItems (encode co ts (left + 1)) (fieldArg f) size self = .ok (.done body, self') ∧
        self'.tbl = self.tbl ∧ self'.arrayTag = some f.tag ∧ self'.iter = 0)
    (hbody : body.length + 4 ≤ fieldRoom ts (tableRoom ts left) f (.table es)) :
    FieldEncoded co ts left f (.table es) (.data (filled body)) where
  encoded := by
    intro size self hsize hget htag hiter
    have hL : SIZEOF_LENGTH = 4 := rfl
    obtain ⟨self', henc, htbl, htag', hiter'⟩ := hitems (size - SIZEOF_LENGTH) self (by omega) ⟨hget, fun h => absurd h htag⟩ hiter
    refine ⟨self', ?_, htbl, .inr htag', hiter'⟩
    rw [encodeField, if_pos ha, encodeArray, if_neg (by omega), henc]
    rfl
  size := by
    simp only [FieldResult.size, filled_length]
    omega

theorem arrayEntries_values {vs : List Value} (h : ∀ v ∈ vs, v.isNil = false) (i : Nat) :
    (arrayEntries i vs).map Prod.snd = vs := by
  induction vs generalizing i with
  | nil => rfl
  | cons v vs ih =>
    rw [arrayEntries, h v (List.mem_cons_self ..)]
    have := ih (fun w hw => h w (List.mem_cons_of_mem _ hw)) (i + 1)
    simp [this]

/-- The room of an array is that of its items. -/
theorem fieldRoom_array {sub : SprotoType → Entries → Nat} (ha : f.array = true)
    {vs : List Value} (hes : es.Perm (arrayEntries 1 vs)) (h : ∀ v ∈ vs, v.isNil = false) :
    fieldRoom ts sub f (.table es) = (vs.map (itemRoom ts sub f.type)).sum + 13 := by
  have hvals := arrayEntries_values h 1
  have hsum := (hes.map fun p => itemRoom ts sub f.type p.2).sum_nat
  have hmap : (arrayEntries 1 vs).map (fun p => itemRoom ts sub f.type p.2) = vs.map (itemRoom ts sub f.type) := by
    conv_rhs => rw [← hvals, List.map_map]
    rfl
  rw [fieldRoom, if_pos ha, hsum, hmap]

theorem room_length {t : FieldType} (vs : List Value) (h : ∀ v ∈ vs, itemRoom ts (tableRoom ts left) t v = 12) :
    (vs.map (itemRoom ts (tableRoom ts left) t)).sum = vs.length * 12 := by
  induction vs with
  | nil => rfl
  | cons v vs ih =>
    rw [List.map_cons, List.sum_cons, h v (List.mem_cons_self ..), ih fun w hw => h w (List.mem_cons_of_mem _ hw),
      List.length_cons]
    omega

theorem integers_encoded (ha : f.array = true) (hkey : f.key < 0) (ht : f.type = .integer) (xs : List (BitVec 64))
    (hes : es.Perm (arrayEntries 1 (xs.map .integer)))
    (hroom : fieldRoom ts (tableRoom ts left) f (.table es) < 2 ^ 31) :
    FieldEncoded co ts left f (.table es) (.data (filled (integersBody xs))) := by
  have hnil : ∀ v ∈ xs.map Value.integer, v.isNil = false := by
    intro v hv
    obtain ⟨x, -, rfl⟩ := List.mem_map.mp hv
    rfl
  have hsum : fieldRoom ts (tableRoom ts left) f (.table es) = xs.length * 12 + 13 := by
    rw [fieldRoom_array ha hes hnil, ht, room_length, List.length_map]
    intro v hv
    obtain ⟨x, -, rfl⟩ := List.mem_map.mp hv
    rfl
  have hbody : (integersBody xs).length ≤ xs.length * 8 + 1 := by
    unfold integersBody
    split
    · exact Nat.zero_le _
    · rw [List.length_cons, words_length]
      rcases width_cases xs with hw | hw
      · rw [hw]; omega
      · rw [hw]
  refine array_encoded ha ?_ (by omega)
  intro size self hsize ho hiter
  have htail : Tail es 1 (xs.map .integer) := fun j hj => rawgeti_array hes hnil (by rw [List.length_map]; omega) hj
  have hspec : encodeIntegers (encode co ts (left + 1)) (fieldArg f) (size + 1)
      { intlen := 4, index := 1, mem := fun _ => 0, buffer := 0, size := size - 1 } self =
        .ok (.done (integersBody ([] ++ xs)), opened f es self) :=
    encodeIntegers_spec hkey ht ho (written_init (size - 1)) (by rw [List.length_nil, Nat.zero_add]; exact htail) (by omega)
      (by rw [List.nil_append]; omega)
  have htype : (fieldArg f).type = .integer := ht
  refine ⟨opened f es self, ?_, rfl, rfl, hiter⟩
  rw [encodeItems, htype]
  simp only [encodeIntegerArray]
  rw [if_neg (by omega), hspec, List.nil_append]

theorem booleans_encoded (ha : f.array = true) (hkey : f.key < 0) (ht : f.type = .boolean) (bs : List Bool)
    (hes : es.Perm (arrayEntries 1 (bs.map .boolean)))
    (hroom : fieldRoom ts (tableRoom ts left) f (.table es) < 2 ^ 31) :
    FieldEncoded co ts left f (.table es) (.data (filled (bs.map booleanByte))) := by
  have hnil : ∀ v ∈ bs.map Value.boolean, v.isNil = false := by
    intro v hv
    obtain ⟨b, -, rfl⟩ := List.mem_map.mp hv
    rfl
  have hsum : fieldRoom ts (tableRoom ts left) f (.table es) = bs.length * 12 + 13 := by
    rw [fieldRoom_array ha hes hnil, ht, room_length, List.length_map]
    intro v hv
    obtain ⟨b, -, rfl⟩ := List.mem_map.mp hv
    rfl
  refine array_encoded ha ?_ (by rw [List.length_map]; omega)
  intro size self hsize ho hiter
  have htail : Tail es 1 (bs.map .boolean) := fun j hj => rawgeti_array hes hnil (by rw [List.length_map]; omega) hj
  have htype : (fieldArg f).type = .boolean := ht
  have hspec : encodeBooleans (encode co ts (left + 1)) (fieldArg f) (size + 2) 1 [] size self =
      .ok (.done ([] ++ bs.map booleanByte), opened f es self) :=
    encodeBooleans_spec hkey ht ho (by decide) htail (by omega) (by omega)
  refine ⟨opened f es self, ?_, rfl, rfl, hiter⟩
  rw [encodeItems, htype]
  simp only
  rw [hspec, List.nil_append]

/-- The bytes of the items fit into their room, and each takes at least four. -/
theorem filled_flatten_le {t : FieldType} {vs : List Value} {bss : List Bytes}
    (h : List.Forall₂ (ItemEncoded co ts left t) vs bss) :
    (bss.map filled).flatten.length ≤ (vs.map (itemRoom ts (tableRoom ts left) t)).sum ∧
    vs.length * 4 ≤ (bss.map filled).flatten.length := by
  induction h with
  | nil => simp
  | cons hv _ ih =>
    have := hv.length
    simp only [List.map_cons, List.flatten_cons, List.length_append, filled_length, List.sum_cons, List.length_cons]
    omega

theorem encodeItems_objects (hint : f.type ≠ .integer) (hbool : f.type ≠ .boolean) (size : Nat) (self : EncodeUd) :
    encodeItems (encode co ts (left + 1)) (fieldArg f) size self =
      encodeObjects (encode co ts (left + 1)) (fieldArg f) (size + 1) 1 [] size self := by
  unfold encodeItems
  split
  · rename_i htype; exact absurd htype hint
  · rename_i htype; exact absurd htype hbool
  · rfl

theorem objects_encoded (ha : f.array = true) (hkey : f.key < 0) (hint : f.type ≠ .integer) (hbool : f.type ≠ .boolean)
    {vs : List Value} {bss : List Bytes} (hnil : ∀ v ∈ vs, v.isNil = false) (hes : es.Perm (arrayEntries 1 vs))
    (hcode : List.Forall₂ (ItemEncoded co ts left f.type) vs bss)
    (hroom : fieldRoom ts (tableRoom ts left) f (.table es) < 2 ^ 31) :
    FieldEncoded co ts left f (.table es) (.data (filled (bss.map filled).flatten)) := by
  have hsum : fieldRoom ts (tableRoom ts left) f (.table es) =
      (vs.map (itemRoom ts (tableRoom ts left) f.type)).sum + 13 := fieldRoom_array ha hes hnil
  obtain ⟨hle, hcount⟩ := filled_flatten_le hcode
  refine array_encoded ha ?_ (by omega)
  intro size self hsize ho hiter
  have htail : Tail es 1 vs := fun j hj => rawgeti_array hes hnil (by omega) hj
  have hspec : encodeObjects (encode co ts (left + 1)) (fieldArg f) (size + 1) 1 [] size self =
      .ok (.done ([] ++ (bss.map filled).flatten), opened f es self) :=
    encodeObjects_spec hkey ho (by decide) htail hnil hcode (by omega) (by omega)
  exact ⟨opened f es self, by rw [encodeItems_objects hint hbool, hspec, List.nil_append], rfl, rfl, hiter⟩

theorem map_encoded (ha : f.array = true) (hkey : 0 ≤ f.key) (hint : f.type ≠ .integer) (hbool : f.type ≠ .boolean)
    {bss : List Bytes} (hnil : ∀ p ∈ es, p.2.isNil = false)
    (hcode : List.Forall₂ (ItemEncoded co ts left f.type) (es.map Prod.snd) bss) :
    FieldEncoded co ts left f (.table es) (.data (filled (bss.map filled).flatten)) := by
  have hsum : fieldRoom ts (tableRoom ts left) f (.table es) =
      ((es.map Prod.snd).map (itemRoom ts (tableRoom ts left) f.type)).sum + 13 := by
    rw [fieldRoom, if_pos ha, List.map_map]
    rfl
  obtain ⟨hle, -⟩ := filled_flatten_le hcode
  refine array_encoded ha ?_ (by omega)
  intro size self hsize ho hiter
  have hspec : encodeObjects (encode co ts (left + 1)) (fieldArg f) (size + 1) 1 [] size self =
      .ok (.done ([] ++ (bss.map filled).flatten), atPair f es 0 self) :=
    encodeMap_spec hkey ho (by decide) (by rw [hiter, List.drop_zero]) hnil hcode (by omega) (by omega)
  exact ⟨atPair f es 0 self, by rw [encodeItems_objects hint hbool, hspec, List.nil_append], rfl, rfl, rfl⟩

/-! ### Fields of a type -/

/-- The tables of a level have encodings. -/
def TablesEncoded (co : Coercions) (ts : List SprotoType) (left : Nat) : Prop :=
  ∀ (i : Nat) (st : SprotoType) (es : Entries), ts[i]? = some st → Fits ts left st es → tableRoom ts left st es < 2 ^ 31 →
    ∃ bs, TableWire ts left st es bs ∧ TableEncoded co ts left st es bs

/-- A string or a struct of a level has an encoding. -/
theorem item_encoded (htables : TablesEncoded co ts left) {t : FieldType} (hint : t ≠ .integer) (hbool : t ≠ .boolean)
    {v : Value} (h : ItemOk ts (Fits ts left) t v) (hroom : itemRoom ts (tableRoom ts left) t v < 2 ^ 31) :
    ∃ bs, ItemWire ts (TableWire ts left) t v bs ∧ ItemEncoded co ts left t v bs := by
  cases h with
  | integer v => exact absurd rfl hint
  | boolean b => exact absurd rfl hbool
  | string s => exact ⟨s, .string s, string_encoded s⟩
  | struct hst h =>
    simp only [itemRoom, hst] at hroom
    obtain ⟨bs, hwire, hbs⟩ := htables _ _ _ hst h (by omega)
    exact ⟨bs, .struct hst hwire, struct_encoded hst hbs⟩

theorem items_encoded (htables : TablesEncoded co ts left) {t : FieldType} (hint : t ≠ .integer) (hbool : t ≠ .boolean)
    {vs : List Value} (h : ∀ v ∈ vs, ItemOk ts (Fits ts left) t v)
    (hroom : (vs.map (itemRoom ts (tableRoom ts left) t)).sum < 2 ^ 31) :
    ∃ bss, List.Forall₂ (ItemWire ts (TableWire ts left) t) vs bss ∧ List.Forall₂ (ItemEncoded co ts left t) vs bss := by
  induction vs with
  | nil => exact ⟨[], .nil, .nil⟩
  | cons v vs ih =>
    rw [List.map_cons, List.sum_cons] at hroom
    obtain ⟨bs, hwire, hbs⟩ := item_encoded htables hint hbool (h v (List.mem_cons_self ..)) (by omega)
    obtain ⟨bss, hwires, hbss⟩ := ih (fun w hw => h w (List.mem_cons_of_mem _ hw)) (by omega)
    exact ⟨bs :: bss, .cons hwire hwires, .cons hbs hbss⟩

theorem field_encoded (htables : TablesEncoded co ts left) {v : Value}
    (h : (f.key < 0 ∧ FieldOk ts (Fits ts left) f v) ∨ (0 ≤ f.key ∧ MapOk ts (Fits ts left) f v))
    (hroom : fieldRoom ts (tableRoom ts left) f v < 2 ^ 31) :
    ∃ r, FieldWire ts (TableWire ts left) f v r ∧ FieldEncoded co ts left f v r := by
  rcases h with ⟨hkey, h⟩ | ⟨hkey, h⟩
  · cases h with
    | item ha hv =>
      generalize ht : f.type = t at hv
      cases hv with
      | integer v => exact integer_encoded ha ht v
      | boolean b => exact ⟨_, .boolean ha ht, boolean_encoded ha ht b⟩
      | string s =>
        have hr : fieldRoom ts (tableRoom ts left) f (.string s) = itemRoom ts (tableRoom ts left) f.type (.string s) := by
          simp only [fieldRoom]
        exact ⟨_, .object ha (by rw [ht]; exact .string s),
          object_encoded ha (by rw [ht]; nofun) (by rw [ht]; nofun) rfl hr (by rw [ht]; exact string_encoded s)⟩
      | @struct i st es hst hes =>
        have hr : fieldRoom ts (tableRoom ts left) f (.table es) = itemRoom ts (tableRoom ts left) f.type (.table es) := by
          rw [fieldRoom, if_neg (by rw [ha]; decide)]
        obtain ⟨bs, hwire, hbs⟩ := item_encoded htables (t := .struct i) nofun nofun (.struct hst hes)
          (by rw [← ht, ← hr]; exact hroom)
        exact ⟨_, .object ha (by rw [ht]; exact hwire),
          object_encoded ha (by rw [ht]; nofun) (by rw [ht]; nofun) rfl hr (by rw [ht]; exact hbs)⟩
    | @array es vs ha hes hvs =>
      have hnil : ∀ v ∈ vs, v.isNil = false := fun v hv => (hvs v hv).isNil
      have hsum : fieldRoom ts (tableRoom ts left) f (.table es) =
          (vs.map (itemRoom ts (tableRoom ts left) f.type)).sum + 13 := fieldRoom_array ha hes hnil
      by_cases hint : f.type = .integer
      · obtain ⟨xs, rfl⟩ : vs ∈ Set.range (List.map Value.integer) := by
          rw [Set.range_list_map]
          intro v hv
          have hok := hvs v hv
          rw [hint] at hok
          cases hok with
          | integer x => exact ⟨x, rfl⟩
        exact ⟨_, .integers ha hint hes, integers_encoded ha hkey hint xs hes hroom⟩
      by_cases hbool : f.type = .boolean
      · obtain ⟨bs, rfl⟩ : vs ∈ Set.range (List.map Value.boolean) := by
          rw [Set.range_list_map]
          intro v hv
          have hok := hvs v hv
          rw [hbool] at hok
          cases hok with
          | boolean b => exact ⟨b, rfl⟩
        exact ⟨_, .booleans ha hbool hes, booleans_encoded ha hkey hbool bs hes hroom⟩
      · obtain ⟨bss, hwires, hbss⟩ := items_encoded htables hint hbool hvs (by omega)
        exact ⟨_, .objects ha hkey hint hbool hes hwires, objects_encoded ha hkey hint hbool hnil hes hbss hroom⟩
  · cases h with
    | @map i st es ha ht hst hd hes =>
      have hnil : ∀ p ∈ es, p.2.isNil = false := by
        intro p hp
        obtain ⟨e, he, -⟩ := hes p hp
        rw [he]
        rfl
      have hint : f.type ≠ .integer := by rw [ht]; nofun
      have hbool : f.type ≠ .boolean := by rw [ht]; nofun
      have hsum : fieldRoom ts (tableRoom ts left) f (.table es) =
          ((es.map Prod.snd).map (itemRoom ts (tableRoom ts left) f.type)).sum + 13 := by
        rw [fieldRoom, if_pos ha, List.map_map]
        rfl
      have hvs : ∀ v ∈ es.map Prod.snd, ItemOk ts (Fits ts left) f.type v := by
        intro v hv
        obtain ⟨p, hp, rfl⟩ := List.mem_map.mp hv
        obtain ⟨e, he, hfits, -⟩ := hes p hp
        rw [ht, he]
        exact .struct hst hfits
      obtain ⟨bss, hwires, hbss⟩ := items_encoded htables hint hbool hvs (by omega)
      refine ⟨_, .map ha hkey ht hst hd ?_ hwires, map_encoded ha hkey hint hbool hnil hbss⟩
      intro p hp
      obtain ⟨e, he, -, hkeyed⟩ := hes p hp
      exact ⟨e, he, hkeyed⟩

/-- A field of the table `es` and what becomes of it. -/
def Coded (co : Coercions) (ts : List SprotoType) (left : Nat) (es : Entries) (c : Field × FieldResult) : Prop :=
  Codes ts (TableWire ts left) es c ∧
    ((getfield es c.1.name).isNil = false → FieldEncoded co ts left c.1 (getfield es c.1.name) c.2)

/-- The room of the fields. -/
def codeRoom (ts : List SprotoType) (left : Nat) (es : Entries) (code : List (Field × FieldResult)) : Nat :=
  fieldsRoom ts (tableRoom ts left) (code.map Prod.fst) es

theorem codeRoom_cons (f : Field) (r : FieldResult)
    (code : List (Field × FieldResult)) : codeRoom ts left es ((f, r) :: code) =
      (if (getfield es f.name).isNil then 0 else fieldRoom ts (tableRoom ts left) f (getfield es f.name)) +
        codeRoom ts left es code := by
  simp only [codeRoom, fieldsRoom, List.map_cons, List.sum_cons]

/-- A field that is not there. -/
theorem encodeField_absent {size : Nat} (hsize : 8 ≤ size) (h : getfield self.tbl f.name = .nil)
    (htag : self.arrayTag ≠ some f.tag) (hiter : self.iter = 0) :
    ∃ self', encodeField (encode co ts (left + 1)) f size self = .ok (.absent, self') ∧ Left f self self' := by
  have hL : SIZEOF_LENGTH = 4 := rfl
  by_cases ha : f.array = true
  · have hcb : ∀ len, encode co ts (left + 1) { fieldArg f with length := len, index := 1 } self =
        .ok (.noarray, opened f [] self) :=
      fun len => encode_noarray (lookup_noarray h htag { fieldArg f with length := len, index := 1 } rfl rfl Nat.one_pos)
    have hitems : encodeItems (encode co ts (left + 1)) (fieldArg f) (size - SIZEOF_LENGTH) self =
        .ok (.noarray, opened f [] self) := by
      unfold encodeItems
      split
      · rw [encodeIntegerArray, if_neg (by omega), encodeIntegers, hcb 8]; rfl
      · rw [encodeBooleans, hcb 4]; rfl
      · rw [encodeObjects, if_neg (by omega), hcb (size - SIZEOF_LENGTH - SIZEOF_LENGTH)]; rfl
    refine ⟨opened f [] self, ?_, rfl, .inr rfl, hiter⟩
    rw [encodeField, if_pos ha, encodeArray, if_neg (by omega), hitems]
    rfl
  · have hcb : ∀ len, encode co ts (left + 1) { fieldArg f with length := len } self = .ok (.nil, self) := by
      intro len
      apply encode_nil
      rw [← h]
      exact lookup_field rfl rfl
    have hobj : encodeObject (encode co ts (left + 1)) (fieldArg f) size self = .ok (some [], self) := by
      rw [encodeObject, if_neg (by omega), hcb (size - SIZEOF_LENGTH)]; rfl
    have hnum : encodeNumber (encode co ts (left + 1)) (fieldArg f) size self = .ok (.absent, self) := by
      rw [encodeNumber, hcb 8]; rfl
    refine ⟨self, ?_, rfl, .inl rfl, hiter⟩
    rw [encodeField, if_neg ha]
    split
    · exact hnum
    · exact hnum
    · rw [hobj]; rfl
    · rw [hobj]; rfl

/-- The records of a field that is present. -/
theorem addRecord_spec {maxn : Nat} {f : Field} {value : Nat} {v : EncodeVars} (hlast : -1 ≤ v.lasttag)
    (htag : f.tag < 0x7fff) (hfit : (v.records ++ (skips v.lasttag f ++ [value])).length ≤ maxn) :
    addRecord maxn f value v =
      .ok (some { v with records := v.records ++ (skips v.lasttag f ++ [value]), lasttag := f.tag }) := by
  have hrec : (if 0 < (f.tag : Int) - v.lasttag - 1 then [(((f.tag : Int) - v.lasttag - 1 - 1) * 2 + 1).toNat, value]
      else [value]) = skips v.lasttag f ++ [value] := by
    unfold skips
    split <;> rfl
  simp only [addRecord, hrec]
  rw [if_neg (by omega), if_neg (by omega)]

/-- The array tag behind a field is none of the fields that come. -/
theorem Left.fresh {fs : List Field} {self' : EncodeUd} (h : Left f self self') (hasc : Ascending f.tag fs) (hnew : ∀ g ∈ fs, self.arrayTag ≠ some g.tag) :
    ∀ g ∈ fs, self'.arrayTag ≠ some g.tag := by
  intro g hg
  rcases h.tag with h | h
  · rw [h]
    exact hnew g hg
  · rw [h]
    obtain ⟨i, hi⟩ := List.mem_iff_getElem?.mp hg
    have hgt := hasc.lt hi
    intro he
    have := Option.some.inj he
    omega

theorem encodeFields_spec {maxn : Nat} {code : List (Field × FieldResult)} {v : EncodeVars} {self : EncodeUd} {prev : Int}
    (hcode : ∀ c ∈ code, Coded co ts left es c) (hasc : Ascending prev (code.map Prod.fst)) (hlast : -1 ≤ v.lasttag)
    (hle : v.lasttag ≤ prev) (htags : ∀ c ∈ code, c.1.tag < 0x7fff)
    (hfit : v.records.length + (layout v.lasttag code).1.length ≤ maxn) (hroom : codeRoom ts left es code + 8 ≤ v.size)
    (htbl : self.tbl = es) (hiter : self.iter = 0) (hnew : ∀ c ∈ code, self.arrayTag ≠ some c.1.tag) :
    ∃ v' self', encodeFields (encode co ts (left + 1)) maxn (code.map Prod.fst) v self = .ok (.done v', self') ∧
      v'.records = v.records ++ (layout v.lasttag code).1 ∧ v'.data = v.data ++ (layout v.lasttag code).2 := by
  induction code generalizing v self prev with
  | nil =>
    refine ⟨v, self, rfl, ?_, ?_⟩
    · rw [layout, List.append_nil]
    · rw [layout, List.append_nil]
  | cons c code ih =>
    obtain ⟨f, r⟩ := c
    obtain ⟨hlt, hasc'⟩ := hasc
    rw [codeRoom_cons] at hroom
    have hcode' : ∀ c ∈ code, Coded co ts left es c := fun c hc => hcode c (List.mem_cons_of_mem _ hc)
    have htags' : ∀ c ∈ code, c.1.tag < 0x7fff := fun c hc => htags c (List.mem_cons_of_mem _ hc)
    have htag : f.tag < 0x7fff := htags _ (List.mem_cons_self ..)
    have hself : self.arrayTag ≠ some f.tag := hnew _ (List.mem_cons_self ..)
    have hnew' : ∀ self', Left f self self' → ∀ c ∈ code, self'.arrayTag ≠ some c.1.tag := by
      intro self' hleft c hc
      refine hleft.fresh hasc' ?_ c.1 (List.mem_map_of_mem hc)
      intro g hg
      obtain ⟨d, hd, rfl⟩ := List.mem_map.mp hg
      exact hnew d (List.mem_cons_of_mem _ hd)
    have hle' : v.lasttag ≤ (f.tag : Int) := by simp only at hlt; omega
    simp only [List.map_cons, encodeFields]
    obtain ⟨hwire, henc⟩ := hcode _ (List.mem_cons_self ..)
    rcases hwire with ⟨hnil, habs⟩ | ⟨hnil, hf⟩
    · simp only at hnil habs
      subst habs
      rw [hnil] at hroom
      simp only [Value.isNil, if_true] at hroom
      obtain ⟨self', henc, hleft⟩ : ∃ self', encodeField (encode co ts (left + 1)) f v.size self = .ok (.absent, self') ∧
          Left f self self' := encodeField_absent (by omega) (by rw [htbl]; exact hnil) hself hiter
      rw [henc]
      simp only [bind, Except.bind, putField, layout] at hfit ⊢
      exact ih hcode' hasc' hlast hle' htags' hfit
        (by omega) (hleft.tbl.trans htbl) hleft.iter (hnew' self' hleft)
    · simp only at hnil hf henc
      have hf' := henc hnil
      rw [hnil] at hroom
      simp only [Bool.false_eq_true, if_false] at hroom
      obtain ⟨self', hrun, hleft⟩ := hf'.encoded v.size self (by omega) (by rw [htbl]) hself hiter
      rw [hrun]
      simp only [bind, Except.bind]
      have hsize := hf'.size
      have hput : ∀ (value : Nat) (w : EncodeVars), w.records = v.records → w.lasttag = v.lasttag →
          codeRoom ts left es code + 8 ≤ w.size →
          v.records.length + (skips v.lasttag f ++ value :: (layout f.tag code).1).length ≤ maxn →
          ∃ w', addRecord maxn f value w = .ok (some w') ∧ w'.data = w.data ∧
            ∃ v' self'', encodeFields (encode co ts (left + 1)) maxn (code.map Prod.fst) w' self' = .ok (.done v', self'') ∧
              v'.records = v.records ++ (skips v.lasttag f ++ value :: (layout f.tag code).1) ∧
              v'.data = w.data ++ (layout f.tag code).2 := by
        intro value w hrec hwl hws hw
        rw [← hrec, ← hwl] at hw ⊢
        rw [← hwl] at hlast
        simp only [List.length_append, List.length_cons] at hw
        have hadd := addRecord_spec hlast htag (show (w.records ++ (skips w.lasttag f ++ [value])).length ≤ maxn by
          simp only [List.length_append, List.length_cons, List.length_nil]; omega)
        refine ⟨_, hadd, rfl, ?_⟩
        obtain ⟨v', self'', hrun, hr, hd⟩ := ih (v := { w with
            records := w.records ++ (skips w.lasttag f ++ [value])
            lasttag := f.tag }) hcode' hasc' (by simp only; omega) (Int.le_refl _) htags' (by
              simp only [List.length_append, List.length_cons, List.length_nil]; omega) hws (hleft.tbl.trans htbl)
          hleft.iter (hnew' self' hleft)
        refine ⟨v', self'', hrun, ?_, hd⟩
        rw [hr]
        simp only [List.append_assoc, List.cons_append, List.nil_append]
      rcases hf.shape with ⟨n, -, rfl⟩ | ⟨body, rfl⟩
      · rw [layout] at hfit ⊢
        obtain ⟨w', hadd, -, hrun⟩ := hput ((n + 1) * 2) v rfl rfl (by omega) hfit
        simp only [putField, hadd, bind, Except.bind]
        exact hrun
      · rw [layout] at hfit ⊢
        simp only [FieldResult.size] at hsize
        obtain ⟨w', hadd, -, hrun⟩ := hput 0 { v with
          data := v.data ++ filled body
          size := v.size - (filled body).length } rfl rfl (by simp only; omega) hfit
        simp only [putField, hadd, bind, Except.bind]
        rw [List.append_assoc] at hrun
        exact hrun

/-! ### Tables -/

theorem layout_data {code : List (Field × FieldResult)} {last : Int} (hcode : ∀ c ∈ code, Coded co ts left es c) :
    (layout last code).2.length ≤ codeRoom ts left es code := by
  induction code generalizing last with
  | nil => exact Nat.zero_le _
  | cons c code ih =>
    obtain ⟨f, r⟩ := c
    have htail : ∀ last, (layout last code).2.length ≤ codeRoom ts left es code :=
      fun last => ih fun c hc => hcode c (List.mem_cons_of_mem _ hc)
    rw [codeRoom_cons]
    obtain ⟨hwire, henc⟩ := hcode _ (List.mem_cons_self ..)
    rcases hwire with ⟨-, habs⟩ | ⟨hnil, hf⟩
    · simp only at habs
      subst habs
      have := htail last
      simp only [layout]
      omega
    · simp only at hnil hf henc
      rw [hnil]
      simp only [Bool.false_eq_true, if_false]
      have hsize := (henc hnil).size
      have := htail f.tag
      rcases hf.shape with ⟨n, -, rfl⟩ | ⟨body, rfl⟩
      · rw [layout]; simp only; omega
      · simp only [FieldResult.size] at hsize
        rw [layout]
        simp only [List.length_append]
        omega

/-- Fields whose values are right have encodings. -/
theorem exists_code (htables : TablesEncoded co ts left) {fs : List Field}
    (hok : ∀ f ∈ fs, (getfield es f.name).isNil = false →
      (f.key < 0 ∧ FieldOk ts (Fits ts left) f (getfield es f.name)) ∨
      (0 ≤ f.key ∧ MapOk ts (Fits ts left) f (getfield es f.name)))
    (hroom : fieldsRoom ts (tableRoom ts left) fs es < 2 ^ 31) :
    ∃ code : List (Field × FieldResult), code.map Prod.fst = fs ∧ ∀ c ∈ code, Coded co ts left es c := by
  induction fs with
  | nil => exact ⟨[], rfl, by simp⟩
  | cons f fs ih =>
    rw [fieldsRoom, List.map_cons, List.sum_cons] at hroom
    obtain ⟨code, hfst, hcode⟩ := ih (fun g hg => hok g (List.mem_cons_of_mem _ hg)) (by rw [fieldsRoom]; omega)
    have hr : ∃ r, Coded co ts left es (f, r) := by
      cases hnil : (getfield es f.name).isNil with
      | true => exact ⟨.absent, .inl ⟨eq_nil_of_isNil hnil, rfl⟩, fun hno => by rw [hnil] at hno; cases hno⟩
      | false =>
        rw [hnil] at hroom
        simp only [Bool.false_eq_true, if_false] at hroom
        obtain ⟨r, hwire, henc⟩ := field_encoded htables (hok f (List.mem_cons_self ..) hnil)
          (show fieldRoom ts (tableRoom ts left) f (getfield es f.name) < 2 ^ 31 by omega)
        exact ⟨r, .inr ⟨hnil, hwire⟩, fun _ => henc⟩
    obtain ⟨r, hr⟩ := hr
    refine ⟨(f, r) :: code, by rw [List.map_cons, hfst], ?_⟩
    intro c hc
    rcases List.mem_cons.mp hc with rfl | hc
    · exact hr
    · exact hcode c hc

/-- A field that is present has a value of the field. -/
theorem Fits.field {n : Nat} {st : SprotoType} (hwf : Valid n st) (h : Fits ts (left + 1) st es)
    (hf : f ∈ st.f) (hnil : (getfield es f.name).isNil = false) :
    (f.key < 0 ∧ FieldOk ts (Fits ts left) f (getfield es f.name)) ∨
      (0 ≤ f.key ∧ MapOk ts (Fits ts left) f (getfield es f.name)) := by
  obtain ⟨g, hg, hkey, hok⟩ := h.2 _ (mem_of_rawget hnil)
  have hname : f.name = g.name := Value.string.inj hkey
  have hnodup : (st.f.map Field.name).Nodup := List.pairwise_map.mpr hwf.names
  rw [List.inj_on_of_nodup_map hnodup hf hg hname]
  exact hname ▸ hok

/-- A table of a level, if the tables below it have encodings. -/
theorem table_encoded {n : Nat} {st : SprotoType} (htables : TablesEncoded co ts left) (hwf : Valid n st)
    (hok : Fits ts (left + 1) st es) (hroom : tableRoom ts (left + 1) st es < 2 ^ 31) :
    ∃ bs, TableWire ts (left + 1) st es bs ∧ TableEncoded co ts (left + 1) st es bs := by
  have hH : SIZEOF_HEADER = 2 := rfl
  have hF : SIZEOF_FIELD = 2 := rfl
  rw [tableRoom, hH, hF] at hroom
  obtain ⟨hasc, -, -⟩ := maxn_base hwf.imported
  obtain ⟨code, hfst, hcode⟩ := exists_code htables (fun f hf => hok.field hwf hf)
    (show fieldsRoom ts (tableRoom ts left) st.f es < 2 ^ 31 by omega)
  have hcodeRoom : codeRoom ts left es code = fieldsRoom ts (tableRoom ts left) st.f es := by rw [codeRoom, hfst]
  have htags : ∀ c ∈ code, c.1.tag < 0x7fff := fun c hc => hwf.tags _ (hfst ▸ List.mem_map_of_mem hc)
  have hrecords := records_fit hwf.imported hfst
  have hdata : (layout (-1) code).2.length ≤ codeRoom ts left es code := layout_data hcode
  refine ⟨tableBytes code, ⟨code, hfst, fun c hc => (hcode c hc).1, rfl⟩, ?_, ?_⟩
  · intro size hsize
    rw [tableRoom, hH, hF] at hsize
    obtain ⟨v', self', hrun, hr, hd⟩ : ∃ v' self', encodeFields (encode co ts (left + 1)) st.maxn (code.map Prod.fst)
          { records := [], data := [], size := size - (2 + st.maxn * 2), lasttag := -1 } (encodeUd es) = .ok (.done v', self') ∧
        v'.records = [] ++ (layout (-1) code).1 ∧ v'.data = [] ++ (layout (-1) code).2 :=
      encodeFields_spec hcode (hfst ▸ hasc) (Int.le_refl _) (Int.le_refl _) htags
        (by simp only [List.length_nil]; omega) (by simp only; omega) rfl rfl (by simp [encodeUd])
    refine ⟨self', ?_⟩
    rw [hfst] at hrun
    simp only [List.nil_append] at hr hd
    simp only [sprotoEncode, hH, hF]
    rw [if_neg (by omega), hrun]
    simp only [bind, Except.bind, hr, hd]
    rfl
  · rw [tableBytes_length, tableRoom, hH, hF]
    omega

/-- A table without fields, at the deepest level. -/
theorem empty_encoded {st : SprotoType} (himp : importType st.f = some st) (hf : st.f = []) :
    TableEncoded co ts 0 st [] (tableBytes []) := by
  have hmaxn : st.maxn = 0 := by
    obtain ⟨-, hmax, -⟩ := maxn_base himp
    rw [hmax, hf]; rfl
  refine ⟨?_, ?_⟩
  · intro size hsize
    rw [tableRoom, hmaxn] at hsize
    refine ⟨encodeUd [], ?_⟩
    simp only [sprotoEncode, hf, hmaxn, encodeFields]
    rw [if_neg (by omega)]
    rfl
  · rw [tableBytes_length, tableRoom, hmaxn]
    exact Nat.le_refl 2

theorem tables_encoded (hwf : ∀ st ∈ ts, Valid ts.length st) (left : Nat) : TablesEncoded co ts left := by
  induction left with
  | zero =>
    intro i st es hst hok hroom
    obtain ⟨hf, rfl⟩ := hok
    exact ⟨_, ⟨hf, rfl, rfl⟩, empty_encoded (hwf st (List.mem_of_getElem? hst)).imported hf⟩
  | succ left ih =>
    intro i st es hst hok hroom
    exact table_encoded ih (hwf st (List.mem_of_getElem? hst)) hok hroom

end Encode

end Sproto
end Skynet
