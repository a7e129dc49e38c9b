import Skynet.Bson.Slots

/-!
# Skynet.Bson.Replace

An assignment to a field of an encoded document: `__newindex` of `lua-bson.c`, which overwrites the bytes of the value.

* `Userdata` : the `bson` that `encode` returns, with the index that `makeindex` leaves.
* `View` : what a script sees of it, a table of which some fields can be assigned.
* `bson_replace_run` : through any calls the block is decoded to the table of the view.
-/

namespace Skynet
namespace Bson

open Lua
open Seri (toInt32 toUint32)

inductive ReplaceError where
  /-- "call makeindex first" -/
  | noIndex
  /-- "Can't replace key : %s" -/
  | key (key : Option Bytes)
  /-- Lua's error for an argument of another type. -/
  | argument
  /-- "Type mismatch, need bson type %d" -/
  | mismatch (type : Nat)
  /-- "Invalid object id" -/
  | objectId
  /-- "Invalid date" -/
  | date
  /-- "Invalid timestamp" -/
  | timestamp
  /-- "%f must be a 32bit integer " -/
  | integer32 (n : BitVec 64)
  /-- "%f must be a 64bit integer " -/
  | integer64 (n : BitVec 64)
  /-- "Can't replace type %d" -/
  | type (type : Nat)
  /-- A byte outside of the block is written. -/
  | outside (pos : Int)
deriving Repr, DecidableEq

/-- The userdata `bson`, with its user value. -/
structure Userdata where
  block : Bytes
  index : Option Entries

def Userdata.makeindex (b : Userdata) : Except DecodeError Userdata := do
  let t ← lmakeindex b.block
  .ok { b with index := some t }

/-- `lua_toboolean` -/
def toboolean : Value → Bool
  | .nil => false
  | .boolean v => v
  | _ => true

section Replace

-- `lua_tonumber` of a value that is a number or the text of one, and the text of a float
variable (tonumber : Value → Option (BitVec 64)) (fmt : BitVec 64 → Bytes)

/-- The switch of `replace_object`. -/
def objectBytes (type : Nat) (data : Bytes) : Except ReplaceError Bytes :=
  match Kind.ofCode type with
  | some .objectid => if data.length ≠ 2 + 12 then .error .objectId else .ok ((data.drop 2).take 12)
  | some .date =>
    if data.length ≠ 2 + 4 then .error .date
    else .ok (Endian.le 8 (BitVec.ofNat 64 (Endian.ofLe ((data.drop 2).take 4) * 1000)).toNat)
  | some .timestamp =>
    if data.length ≠ 2 + 8 then .error .timestamp
    else .ok (Endian.le 4 (BitVec.ofNat 32 (Endian.ofLe ((data.drop 2).take 4))).toNat ++
      Endian.le 4 (BitVec.ofNat 32 (Endian.ofLe ((data.drop 6).take 4))).toNat)
  | _ => .ok []

/-- `replace_object` -/
def replaceObject (type : Nat) (v : Value) : Except ReplaceError Bytes :=
  match tolstring fmt v with
  | none => .error .argument
  | some data =>
    if data.length < 6 ∨ data[0]? ≠ some 0 ∨ data[1]? ≠ some (UInt8.ofNat type) then .error (.mismatch type)
    else objectBytes type data

/-- The switch of `lreplace`: the bytes that are written. There is room for 16 in the buffer. -/
def replaceBytes (type : Nat) (v : Value) : Except ReplaceError Bytes :=
  match Kind.ofCode type with
  | some .real =>
    match tonumber v with
    | none => .error .argument
    | some bits => .ok (Endian.le 8 bits.toNat)
  | some .boolean => .ok [if toboolean v then 1 else 0]
  | some .objectid | some .date | some .timestamp => replaceObject fmt type v
  | some .int32 =>
    match v with
    | .integer i => .ok (Endian.le 4 (i.setWidth 32).toNat)
    | v => .error (.integer32 ((tonumber v).getD 0))
  | some .int64 =>
    match v with
    | .integer i => .ok (Endian.le 8 i.toNat)
    | v => .error (.integer64 ((tonumber v).getD 0))
  | _ => .error (.type type)

/-- `bs` is written at an offset of the block. -/
def overwrite (block : Bytes) (offset : Int) (bs : Bytes) : Except ReplaceError Bytes :=
  if 0 ≤ offset ∧ offset + bs.length ≤ block.length then
    .ok (block.take offset.toNat ++ bs ++ block.drop (offset.toNat + bs.length))
  else .error (.outside offset)

/-- `lreplace` -/
def Userdata.replace (b : Userdata) (key v : Value) : Except ReplaceError Userdata :=
  match b.index with
  | none => .error .noIndex
  | some t =>
    match rawget t key with
    | .integer n => do
      let id := toInt32 n.toInt
      let type := id % 2 ^ BSON_TYPE_SHIFT
      let offset := id / 2 ^ BSON_TYPE_SHIFT
      let bs ← replaceBytes tonumber fmt type.toNat v
      let block ← overwrite b.block offset bs
      .ok { b with block := block }
    | _ => .error (.key (tolstring fmt key))

/-! ### What a script sees -/

/-- How long the text of a value of a kind is behind its first two bytes. -/
def Kind.payload : Kind → Nat
  | objectid => 12
  | date => 4
  | timestamp => 8
  | _ => 0

def assignedObject (k : Kind) (v : Value) : Option Value :=
  (tolstring fmt v).bind fun data =>
    if data.length = 2 + k.payload ∧ data.take 2 = [0, k.byte] then some (.string data) else none

/-- The value that is decoded for a field of a kind to which `v` is assigned, if that can be done. -/
def assigned (k : Kind) (v : Value) : Option Value :=
  match k with
  | .real => (tonumber v).map .number
  | .boolean => some (.boolean (toboolean v))
  | .int32 =>
    match v with
    | .integer i => some (.integer (BitVec.ofInt 64 (i.setWidth 32).toInt))
    | _ => none
  | .int64 =>
    match v with
    | .integer i => some (.integer i)
    | _ => none
  | .objectid | .date | .timestamp => assignedObject fmt k v
  | _ => none

/-- A table, the kinds of its fields that have a fixed size, and whether there is an index. -/
structure View where
  table : Entries
  kinds : Value → Option Kind
  indexed : Bool

inductive Op where
  | makeindex
  | replace (key v : Value)

/-- What a call leaves of the userdata, also when it ends with an error. -/
def Userdata.step (b : Userdata) : Op → Userdata
  | .makeindex =>
    match b.makeindex with
    | .ok b' => b'
    | .error _ => b
  | .replace key v =>
    match b.replace tonumber fmt key v with
    | .ok b' => b'
    | .error _ => b

/-- The table with the field set, if that can be done. -/
def View.replace (s : View) (key v : Value) : Option View :=
  if s.indexed then
    ((s.kinds key).bind fun k => assigned tonumber fmt k v).map fun w => { s with table := setKey s.table key w }
  else none

def View.step (s : View) : Op → View
  | .makeindex => { s with indexed := true }
  | .replace key v => (s.replace tonumber fmt key v).getD s

variable {tonumber fmt}

/-! ### The values -/

/-- The bytes that are written for a value are those of a field that is read as `w`. -/
structure Assigns (bs : Bytes) (k : Kind) (w : Value) (s : Scalar) : Prop where
  kind : s.kind = k
  bytes : bs = s.bytes
  size : s.bytes.length = k.fixedSize
  value : s.value = w
  ok : ∀ rest, s.Ok rest

def IsObject (k : Kind) : Prop := k = .objectid ∨ k = .date ∨ k = .timestamp

theorem objectBytes_ok {k : Kind} (hk : IsObject k) {bs : Bytes} (h : bs.length = k.payload) :
    ∃ X s, objectBytes k.code (0 :: k.byte :: bs) = .ok X ∧ Assigns X k (.string (0 :: k.byte :: bs)) s := by
  rcases hk with rfl | rfl | rfl
  · have hlen : bs.length = 12 := h
    have hbytes : objectBytes Kind.objectid.code (0 :: Kind.objectid.byte :: bs) = .ok (bs.take 12) :=
      if_neg (not_not.mpr (by simp [hlen]))
    rw [List.take_of_length_le (by omega)] at hbytes
    exact ⟨bs, .objectid bs, hbytes, rfl, rfl, hlen, rfl, fun _ => hlen⟩
  · have hlen : bs.length = 4 := h
    have hbytes : objectBytes Kind.date.code (0 :: Kind.date.byte :: bs) =
        .ok (Endian.le 8 (BitVec.ofNat 64 (Endian.ofLe (bs.take 4) * 1000)).toNat) :=
      if_neg (not_not.mpr (by simp [hlen]))
    rw [List.take_of_length_le (by omega)] at hbytes
    exact ⟨_, .date (BitVec.ofNat 64 (Endian.ofLe bs * 1000)), hbytes, rfl, rfl, Endian.le_length .., date_value hlen,
      fun _ => trivial⟩
  · have hlen : bs.length = 8 := h
    have hbytes : objectBytes Kind.timestamp.code (0 :: Kind.timestamp.byte :: bs) =
        .ok (Endian.le 4 (BitVec.ofNat 32 (Endian.ofLe (bs.take 4))).toNat ++
          Endian.le 4 (BitVec.ofNat 32 (Endian.ofLe ((bs.drop 4).take 4))).toNat) :=
      if_neg (not_not.mpr (by simp [hlen]))
    rw [List.take_of_length_le (l := bs.drop 4) (by simp; omega)] at hbytes
    exact ⟨_, .timestamp (BitVec.ofNat 32 (Endian.ofLe (bs.take 4))) (BitVec.ofNat 32 (Endian.ofLe (bs.drop 4))),
      hbytes, rfl, rfl, by simp [Scalar.bytes, Kind.fixedSize], timestamp_value hlen, fun _ => trivial⟩

theorem objectBytes_error {k : Kind} (hk : IsObject k) {data : Bytes} (h : data.length ≠ 2 + k.payload) :
    ∃ e, objectBytes k.code data = .error e := by
  rcases hk with rfl | rfl | rfl
  · exact ⟨_, if_pos h⟩
  · exact ⟨_, if_pos h⟩
  · exact ⟨_, if_pos h⟩

theorem payload_room {k : Kind} (hk : IsObject k) : 4 ≤ k.payload := by
  rcases hk with rfl | rfl | rfl <;> decide

theorem header_of {data : Bytes} {b : UInt8} (h0 : data[0]? = some 0) (h1 : data[1]? = some b) :
    ∃ bs, data = 0 :: b :: bs := by
  cases data with
  | nil => cases h0
  | cons a data =>
    cases data with
    | nil => cases h1
    | cons c bs => exact ⟨bs, by rw [Option.some.inj h0, Option.some.inj h1]⟩

/-- What `replace_object` does with a text. -/
theorem replaceObject_text {k : Kind} (hk : IsObject k) {v : Value} {data : Bytes}
    (htext : tolstring fmt v = some data) :
    (∃ X s, (data.length = 2 + k.payload ∧ data.take 2 = [0, k.byte]) ∧ replaceObject fmt k.code v = .ok X ∧
      Assigns X k (.string data) s) ∨
      ¬ (data.length = 2 + k.payload ∧ data.take 2 = [0, k.byte]) ∧ ∃ e, replaceObject fmt k.code v = .error e := by
  have hroom := payload_room hk
  unfold replaceObject
  simp only [htext]
  by_cases hhead : data[0]? = some 0 ∧ data[1]? = some k.byte
  · obtain ⟨bs, rfl⟩ := header_of hhead.1 hhead.2
    by_cases hlen : (0 :: k.byte :: bs).length = 2 + k.payload
    · simp only [List.length_cons] at hlen
      have hpayload : bs.length = k.payload := by omega
      obtain ⟨X, s, hbytes, hs⟩ := objectBytes_ok hk hpayload
      refine .inl ⟨X, s, ⟨by simp only [List.length_cons]; omega, rfl⟩, ?_, hs⟩
      rw [if_neg]
      · exact hbytes
      · rintro (hlt | h0 | h1)
        · simp only [List.length_cons] at hlt
          omega
        · exact h0 rfl
        · exact h1 rfl
    · refine .inr ⟨fun h => hlen h.1, ?_⟩
      split
      · exact ⟨_, rfl⟩
      · exact objectBytes_error hk hlen
  · refine .inr ⟨?_, _, if_pos (.inr ?_)⟩
    · rintro ⟨hlen, htake⟩
      apply hhead
      have h0 : (data.take 2)[0]? = some 0 := by rw [htake]; rfl
      have h1 : (data.take 2)[1]? = some k.byte := by rw [htake]; rfl
      rw [List.getElem?_take_of_lt (by decide)] at h0 h1
      exact ⟨h0, h1⟩
    · rw [← not_and_or]
      exact hhead

theorem replaceObject_cases {k : Kind} (hk : IsObject k) (v : Value) :
    (∃ X s w, assignedObject fmt k v = some w ∧ replaceObject fmt k.code v = .ok X ∧ Assigns X k w s) ∨
      assignedObject fmt k v = none ∧ ∃ e, replaceObject fmt k.code v = .error e := by
  rw [assignedObject]
  cases htext : tolstring fmt v with
  | none => exact .inr ⟨rfl, .argument, by simp only [replaceObject, htext]⟩
  | some data =>
    rw [Option.bind_some]
    rcases replaceObject_text hk htext with ⟨X, s, hgood, hbytes, hs⟩ | ⟨hbad, herror⟩
    · exact .inl ⟨X, s, _, if_pos hgood, hbytes, hs⟩
    · exact .inr ⟨if_neg hbad, herror⟩

/-- What `lreplace` writes for a field of a fixed size. -/
theorem replaceBytes_cases {k : Kind} (hsize : 0 < k.fixedSize) (v : Value) :
    (∃ X s w, assigned tonumber fmt k v = some w ∧ replaceBytes tonumber fmt k.code v = .ok X ∧ Assigns X k w s) ∨
      assigned tonumber fmt k v = none ∧ ∃ e, replaceBytes tonumber fmt k.code v = .error e := by
  cases k with
  | real =>
    cases hnumber : tonumber v with
    | none =>
      refine .inr ⟨by simp only [assigned, hnumber, Option.map_none], .argument, ?_⟩
      simp only [replaceBytes, Kind.ofCode_code, hnumber]
    | some bits =>
      refine .inl ⟨Endian.le 8 bits.toNat, .real bits, .number bits, by simp only [assigned, hnumber, Option.map_some],
        ?_, rfl, rfl, Endian.le_length .., rfl, fun _ => trivial⟩
      simp only [replaceBytes, Kind.ofCode_code, hnumber]
  | boolean =>
    exact .inl ⟨_, .boolean (if toboolean v then 1 else 0), _, rfl, rfl, rfl, rfl, rfl, by cases toboolean v <;> rfl,
      fun _ => trivial⟩
  | int32 =>
    cases v with
    | integer i =>
      exact .inl ⟨_, .int32 (i.setWidth 32), _, rfl, rfl, rfl, rfl, Endian.le_length .., rfl, fun _ => trivial⟩
    | _ => exact .inr ⟨rfl, _, rfl⟩
  | int64 =>
    cases v with
    | integer i => exact .inl ⟨_, .int64 i, _, rfl, rfl, rfl, rfl, Endian.le_length .., rfl, fun _ => trivial⟩
    | _ => exact .inr ⟨rfl, _, rfl⟩
  | objectid => exact replaceObject_cases (.inl rfl) v
  | date => exact replaceObject_cases (.inr (.inl rfl)) v
  | timestamp => exact replaceObject_cases (.inr (.inr rfl)) v
  | _ => exact absurd hsize (Nat.lt_irrefl 0)

/-! ### Calls -/

/-- The userdata holds the block of a document, which is what the view shows. -/
structure Shows (b : Userdata) (s : View) (d : Doc) : Prop where
  block : b.block = d.block
  steady : d.Steady
  keys : d.keys.Nodup
  size : d.block.length < 2 ^ 26
  index : b.index = if s.indexed then some d.index else none
  kinds : ∀ key, s.kinds key = (slotOf d.places key 4).map Prod.fst
  table : s.table = d.table false []

theorem slotOf_key {ps : List Place} {key : Value} {off : Nat} {x : Kind × Nat} (h : slotOf ps key off = some x) :
    ∃ s, key = .string s := by
  induction ps generalizing off with
  | nil => cases h
  | cons p ps ih =>
    rw [slotOf] at h
    by_cases hkey : (Value.string p.key).sameKey key = true
    · exact ⟨p.key, (eq_of_sameKey hkey).symm⟩
    · rw [if_neg hkey] at h
      exact ih h

theorem overwrite_eq {A X B bs : Bytes} {o : Int} (ho : o = A.length) (hlen : bs.length = X.length) :
    overwrite (A ++ X ++ B) o bs = .ok (A ++ bs ++ B) := by
  have hto : o.toNat = A.length := by omega
  rw [overwrite, if_pos ⟨by omega, by simp only [List.length_append]; omega⟩, hto, hlen, List.append_assoc A X B,
    List.take_left, ← List.append_assoc, List.drop_left' (by rw [List.length_append])]

/-- The block with the new value. -/
theorem overwrite_block {d : Doc} {key pre X post : Bytes} {k : Kind} {s : Scalar} (h : Located d key k pre X post)
    (hkind : s.kind = k) (hlen : s.bytes.length = k.fixedSize) {o : Nat} (ho : o = 4 + pre.length) :
    overwrite d.block o s.bytes = .ok (d.put key s).block ∧ (d.put key s).block.length = d.block.length := by
  have hput := h.put s hkind
  have hlength : (d.put key s).bytes.length = d.bytes.length := by
    rw [hput, h.bytes]
    simp only [List.length_append, hlen, h.size]
  have hblock : ∀ Y : Bytes, Endian.le 4 (d.bytes.length + 5) ++ (pre ++ Y ++ post) ++ [0] =
      (Endian.le 4 (d.bytes.length + 5) ++ pre) ++ Y ++ (post ++ [0]) := fun Y => by simp
  have hold : d.block = (Endian.le 4 (d.bytes.length + 5) ++ pre) ++ X ++ (post ++ [0]) := by
    rw [← hblock, ← h.bytes]
    rfl
  have hnew : (d.put key s).block = (Endian.le 4 (d.bytes.length + 5) ++ pre) ++ s.bytes ++ (post ++ [0]) := by
    rw [← hblock, ← hput, ← hlength]
    rfl
  constructor
  · rw [hold, hnew]
    refine overwrite_eq ?_ (hlen.trans h.size.symm)
    rw [ho, List.length_append, Endian.le_length]
  · rw [Doc.block, Doc.block, wrap_length, wrap_length, hlength]

theorem Userdata.step_makeindex {b : Userdata} {s : View} {d : Doc} (h : Shows b s d) :
    Shows (b.step tonumber fmt .makeindex) (s.step tonumber fmt .makeindex) d := by
  have hindex : b.makeindex = .ok { b with index := some d.index } := by
    rw [Userdata.makeindex, h.block, makeindex_block h.steady.ok h.size]
    rfl
  have hstep : b.step tonumber fmt .makeindex = { b with index := some d.index } := by
    rw [Userdata.step]
    simp only [hindex]
  rw [hstep]
  exact ⟨h.block, h.steady, h.keys, h.size, rfl, h.kinds, h.table⟩

theorem located_lt {d : Doc} {key pre X post : Bytes} {k : Kind} {o : Nat} (hsize : d.block.length < 2 ^ 26)
    (h : Located d key k pre X post) (ho : o = 4 + pre.length) : o < 2 ^ 26 := by
  have hbody := congrArg List.length h.bytes
  simp only [List.length_append] at hbody
  rw [Doc.block, wrap_length] at hsize
  omega

/-- An assignment that goes through. -/
theorem replace_ok {b : Userdata} {s : View} {d : Doc} (h : Shows b s d) (hindexed : s.indexed = true) {key : Bytes}
    {k : Kind} {o : Nat} (hslot : slotOf d.places (.string key) 4 = some (k, o)) {v w : Value} {X : Bytes} {c : Scalar}
    (hbytes : replaceBytes tonumber fmt k.code v = .ok X) (hc : Assigns X k w c) :
    b.replace tonumber fmt (.string key) v = .ok { b with block := (d.put key c).block } ∧
      Shows { b with block := (d.put key c).block } { s with table := setKey s.table (.string key) w }
        (d.put key c) := by
  obtain ⟨hsize, pre, Y, post, hloc, ho⟩ := located_of_slot h.steady hslot
  obtain ⟨hover, hlength⟩ := overwrite_block hloc hc.kind hc.size ho
  have hplaces := hloc.places c hc.kind hc.size
  obtain ⟨htype, hoffset⟩ := id_split hsize (located_lt h.size hloc ho)
  constructor
  · have hget : rawget d.index (.string key) = .integer (BitVec.ofNat 64 (idOf k o)) := by
      rw [Doc.index, rawget_indexOf h.keys, hslot]
    rw [Userdata.replace, h.index, if_pos hindexed]
    simp only [hget, htype, hoffset, hbytes, bind, Except.bind, h.block, hc.bytes, hover]
  · refine ⟨rfl, h.steady.put key hc.ok, ?_, by rw [hlength]; exact h.size, ?_, ?_, ?_⟩
    · rw [Doc.keys, hplaces]
      exact h.keys
    · rw [Doc.index, hplaces]
      exact h.index
    · rw [hplaces]
      exact h.kinds
    · rw [hloc.table c [] (value_isNil c) h.keys, ← h.table, hc.value]

/-- An assignment goes through in the block just when it does in the view. -/
theorem replace_refines {b : Userdata} {s : View} {d : Doc} (h : Shows b s d) (key v : Value) :
    (∃ b' s' d', b.replace tonumber fmt key v = .ok b' ∧ s.replace tonumber fmt key v = some s' ∧ Shows b' s' d') ∨
      (∃ e, b.replace tonumber fmt key v = .error e) ∧ s.replace tonumber fmt key v = none := by
  by_cases hindexed : s.indexed = true
  · have hindex : b.index = some d.index := by rw [h.index, if_pos hindexed]
    rw [View.replace, if_pos hindexed, h.kinds]
    cases hslot : slotOf d.places key 4 with
    | none =>
      have hget : rawget d.index key = .nil := by
        rw [Doc.index, rawget_indexOf h.keys, hslot]
        rfl
      exact .inr ⟨⟨.key (tolstring fmt key), by simp only [Userdata.replace, hindex, hget]⟩, rfl⟩
    | some place =>
      obtain ⟨k, o⟩ := place
      obtain ⟨text, rfl⟩ := slotOf_key hslot
      obtain ⟨hsize, pre, Y, post, hloc, ho⟩ := located_of_slot h.steady hslot
      simp only [Option.map_some, Option.bind_some]
      obtain ⟨X, c, w, hassigned, hbytes, hc⟩ | ⟨hassigned, e, herror⟩ := @replaceBytes_cases tonumber fmt k hsize v
      · obtain ⟨hreplace, hshows⟩ := replace_ok h hindexed hslot hbytes hc
        rw [hassigned]
        exact .inl ⟨_, _, _, hreplace, rfl, hshows⟩
      · have hget : rawget d.index (.string text) = .integer (BitVec.ofNat 64 (idOf k o)) := by
          rw [Doc.index, rawget_indexOf h.keys, hslot]
        obtain ⟨htype, -⟩ := id_split hsize (located_lt h.size hloc ho)
        rw [hassigned]
        exact .inr ⟨⟨e, by simp only [Userdata.replace, hindex, hget, htype, herror, bind, Except.bind]⟩, rfl⟩
  · have hindex : b.index = none := by rw [h.index, if_neg hindexed]
    exact .inr ⟨⟨.noIndex, by simp only [Userdata.replace, hindex]⟩, if_neg hindexed⟩

theorem Userdata.step_replace {b : Userdata} {s : View} {d : Doc} (h : Shows b s d) (key v : Value) :
    ∃ d', Shows (b.step tonumber fmt (.replace key v)) (s.step tonumber fmt (.replace key v)) d' := by
  obtain ⟨b', s', d', hb, hs, hd⟩ | ⟨⟨e, he⟩, hs⟩ := @replace_refines tonumber fmt b s d h key v
  · simp only [Userdata.step, View.step, hb, hs]
    exact ⟨d', hd⟩
  · simp only [Userdata.step, View.step, he, hs]
    exact ⟨d, h⟩

theorem shows_run {b : Userdata} {s : View} {d : Doc} (h : Shows b s d) (ops : List Op) :
    ∃ d', Shows (ops.foldl (Userdata.step tonumber fmt) b) (ops.foldl (View.step tonumber fmt) s) d' := by
  induction ops generalizing b s d with
  | nil => exact ⟨d, h⟩
  | cons op ops ih =>
    cases op with
    | makeindex => exact ih (Userdata.step_makeindex h)
    | replace key v =>
      obtain ⟨d', hd'⟩ := Userdata.step_replace h key v
      exact ih hd'

end Replace

/-! ### Documents that were encoded -/

section Encoded

variable (rawlen : Entries → Nat) (fmt : BitVec 64 → Bytes)

/-- The kind of the field that is written for a value, but for a table. -/
def kindOf : Value → Option Kind
  | .boolean _ => some .boolean
  | .integer v => some (integerScalar v).kind
  | .number _ => some .real
  | .string s => some (textScalar s).kind
  | _ => none

/-- The kinds of the fields of a fixed size. -/
def kindAt (its : List (Bytes × Value)) (key : Value) : Option Kind :=
  ((its.find? fun p => (Value.string p.1).sameKey key).bind fun p => kindOf p.2).filter fun k => 0 < k.fixedSize

/-- What is seen of a table that was encoded. -/
def View.ofTable (es : Entries) : View where
  table := rootTable rawlen fmt es
  kinds := kindAt (dictItems fmt es)
  indexed := false

/-- The field that is written for a value. -/
structure FieldOf (levels : Nat) (v : Value) (k : Kind) (n : Nat) : Prop where
  places : ∀ key d, (addField rawlen fmt levels key v d).places = ⟨key, k, n⟩ :: d.places
  steady : ∀ key d, 0 ∉ key → d.Steady → (addField rawlen fmt levels key v d).Steady
  kind : (kindOf v).filter (fun k => 0 < k.fixedSize) = if 0 < k.fixedSize then some k else none

variable {rawlen fmt} {tonumber : Value → Option (BitVec 64)}

theorem fieldOf_scalar {levels : Nat} {v : Value} {s : Scalar}
    (hadd : ∀ key d, addField rawlen fmt levels key v d = .field key s d) (hok : ∀ rest, s.Ok rest)
    (hkind : kindOf v = some s.kind) : FieldOf rawlen fmt levels v s.kind s.bytes.length where
  places key d := by rw [hadd]; rfl
  steady key d hkey hd := by rw [hadd]; exact ⟨hkey, hok, hd⟩
  kind := by rw [hkind]; by_cases h : 0 < s.kind.fixedSize <;> simp [h, Option.filter]

theorem fieldOf_storable {levels : Nat} {v : Value} (h : Storable rawlen fmt levels v) :
    ∃ k n, FieldOf rawlen fmt levels v k n := by
  cases h with
  | boolean v =>
    have hadd : ∀ key d, addField rawlen fmt levels key (.boolean v) d = .field key (.boolean (if v then 1 else 0)) d :=
      fun _ _ => by cases levels <;> rfl
    exact ⟨_, _, fieldOf_scalar hadd (fun _ => trivial) rfl⟩
  | integer v =>
    refine ⟨_, _, fieldOf_scalar (s := integerScalar v) (fun _ _ => by cases levels <;> rfl) (fun _ => ?_) rfl⟩
    unfold integerScalar
    split <;> trivial
  | number bits =>
    exact ⟨_, _, fieldOf_scalar (s := .real bits) (fun _ _ => by cases levels <;> rfl) (fun _ => trivial) rfl⟩
  | @string _ s h =>
    exact ⟨_, _, fieldOf_scalar (fun _ _ => by cases levels <;> rfl) (text_written h []).ok rfl⟩
  | @table levels es hkey hval hseq =>
    have hits : ∀ p ∈ items rawlen fmt es, Kept rawlen fmt levels p.2 :=
      forall_items hseq fun p hp => kept_of_storable (hval p hp)
    refine ⟨tableKind (ordered rawlen es), _, fun _ _ => rfl, fun _ _ h hd => ⟨h, toDoc_ok hits (items_key hkey), hd⟩, ?_⟩
    rw [if_neg (by cases ordered rawlen es <;> exact Nat.lt_irrefl 0)]
    rfl

section Items

variable {levels : Nat} {its : List (Bytes × Value)}

theorem toDoc_cons (p : Bytes × Value) (its : List (Bytes × Value)) :
    toDoc rawlen fmt levels (p :: its) = addField rawlen fmt levels p.1 p.2 (toDoc rawlen fmt levels its) := rfl

theorem toDoc_steady (h : ∀ p ∈ its, ∃ k n, FieldOf rawlen fmt levels p.2 k n) (hkey : ∀ p ∈ its, 0 ∉ p.1) :
    (toDoc rawlen fmt levels its).Steady := by
  induction its with
  | nil => trivial
  | cons p its ih =>
    obtain ⟨k, n, hp⟩ := h p List.mem_cons_self
    rw [toDoc_cons]
    exact hp.steady _ _ (hkey p List.mem_cons_self)
      (ih (fun q hq => h q (List.mem_cons_of_mem _ hq)) fun q hq => hkey q (List.mem_cons_of_mem _ hq))

theorem toDoc_keys (h : ∀ p ∈ its, ∃ k n, FieldOf rawlen fmt levels p.2 k n) :
    (toDoc rawlen fmt levels its).keys = its.map Prod.fst := by
  induction its with
  | nil => rfl
  | cons p its ih =>
    obtain ⟨k, n, hp⟩ := h p List.mem_cons_self
    rw [toDoc_cons, Doc.keys, hp.places, List.map_cons, List.map_cons, ← ih fun q hq => h q (List.mem_cons_of_mem _ hq)]
    rfl

/-- The kinds in the index are those of the values. -/
theorem toDoc_slot (h : ∀ p ∈ its, ∃ k n, FieldOf rawlen fmt levels p.2 k n) (key : Value) (off : Nat) :
    (slotOf (toDoc rawlen fmt levels its).places key off).map Prod.fst = kindAt its key := by
  induction its generalizing off with
  | nil => rfl
  | cons p its ih =>
    obtain ⟨k, n, hp⟩ := h p List.mem_cons_self
    rw [toDoc_cons, hp.places, slotOf, kindAt, List.find?_cons]
    cases hkey : (Value.string p.1).sameKey key with
    | true =>
      rw [if_pos rfl]
      simp only [Option.bind_some, hp.kind]
      split <;> rfl
    | false =>
      rw [if_neg (by decide)]
      exact ih (fun q hq => h q (List.mem_cons_of_mem _ hq)) _

end Items

theorem shows_encoded {es : Entries} (hkey : ∀ p ∈ es, KeyText fmt p.1)
    (hdist : ((dictItems fmt es).map Prod.fst).Nodup)
    (hval : ∀ p ∈ es, Storable rawlen fmt MAX_DEPTH p.2) (hsize : (rootDoc rawlen fmt es).block.length < 2 ^ 26) :
    Shows { block := (rootDoc rawlen fmt es).block, index := none } (View.ofTable rawlen fmt es)
      (rootDoc rawlen fmt es) := by
  have hfields : ∀ p ∈ dictItems fmt es, ∃ k n, FieldOf rawlen fmt MAX_DEPTH p.2 k n := by
    intro q hq
    obtain ⟨p, hp, rfl⟩ := List.mem_map.mp hq
    exact fieldOf_storable (hval p hp)
  refine ⟨rfl, toDoc_steady hfields fun q hq => (dictItems_key hkey hq).1, ?_, hsize, rfl, ?_, ?_⟩
  · rw [rootDoc, toDoc_keys hfields]
    exact hdist
  · exact fun key => (toDoc_slot hfields key 4).symm
  · exact (toDoc_table (rootItems_kept hval) false).symm

end Encoded

end Bson
end Skynet
