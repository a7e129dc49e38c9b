import Skynet.Bson.Decode

/-!
# Skynet.Bson.Document

The documents that are between the bytes and the tables.

* `Doc` : the fields of a document, with the documents in it.
* `Doc.block` : the bytes of a document.
* `Doc.table` : the table it is for Lua.
* `Doc.Ok` : what the lengths and the keys have to satisfy.
-/

namespace Skynet
namespace Bson

open Lua
open Seri (toInt32 toUint32)
open Decimal (strtol)

/-- The kinds of which the bytes are kept with their length in front. -/
inductive Raw where
  | dbpointer
  | jscode
  | symbol
  | codews
deriving Repr, DecidableEq

namespace Raw

def kind : Raw → Kind
  | dbpointer => .dbpointer
  | jscode => .jscode
  | symbol => .symbol
  | codews => .codews

/-- How many bytes there are beyond the number in front. -/
def extra : Raw → Int
  | dbpointer => 16
  | jscode => 4
  | symbol => 4
  | codews => 0

end Raw

/-- The value of a field that is no document. -/
inductive Scalar where
  | real (bits : BitVec 64)
  /-- The byte behind a string may be any. -/
  | string (s : Bytes) (last : UInt8)
  | binary (subtype : UInt8) (bs : Bytes)
  | objectid (id : Bytes)
  | boolean (v : UInt8)
  | date (v : BitVec 64)
  | null
  | minkey
  | maxkey
  | regex (r1 r2 : Bytes)
  | int32 (v : BitVec 32)
  | timestamp (inc ts : BitVec 32)
  | int64 (v : BitVec 64)
  | raw (k : Raw) (bs : Bytes)

namespace Scalar

def kind : Scalar → Kind
  | real _ => .real
  | string _ _ => .string
  | binary _ _ => .binary
  | objectid _ => .objectid
  | boolean _ => .boolean
  | date _ => .date
  | null => .null
  | minkey => .minkey
  | maxkey => .maxkey
  | regex _ _ => .regex
  | int32 _ => .int32
  | timestamp _ _ => .timestamp
  | int64 _ => .int64
  | raw k _ => k.kind

def bytes : Scalar → Bytes
  | real bits => Endian.le 8 bits.toNat
  | string s last => Endian.le 4 (s.length + 1) ++ s ++ [last]
  | binary subtype bs => Endian.le 4 bs.length ++ subtype :: bs
  | objectid id => id
  | boolean v => [v]
  | date v => Endian.le 8 v.toNat
  | null => []
  | minkey => []
  | maxkey => []
  | regex r1 r2 => r1 ++ 0 :: (r2 ++ [0])
  | int32 v => Endian.le 4 v.toNat
  | timestamp inc ts => Endian.le 4 inc.toNat ++ Endian.le 4 ts.toNat
  | int64 v => Endian.le 8 v.toNat
  | raw _ bs => bs

def value : Scalar → Value
  | real bits => .number bits
  | string s _ => .string s
  | binary subtype bs => makeObject .binary (subtype :: bs)
  | objectid id => makeObject .objectid id
  | boolean v => .boolean (v.toNat ≠ 0)
  | date v => makeObject .date (Endian.le 4 (toUint32 (v.toInt.tdiv 1000)))
  | null => makeObject .null []
  | minkey => makeObject .minkey []
  | maxkey => makeObject .maxkey []
  | regex r1 r2 => makeObject .regex (r1 ++ [0] ++ r2 ++ [0])
  | int32 v => .integer (BitVec.ofInt 64 v.toInt)
  | timestamp inc ts => makeObject .timestamp (Endian.le 4 inc.toNat ++ Endian.le 4 ts.toNat)
  | int64 v => .integer v
  | raw k bs => makeObject k.kind bs

/-- With the bytes `rest` behind it. A raw field may be shorter than the number in front of it, which then goes on into the
next field. -/
def Ok (rest : Bytes) : Scalar → Prop
  | objectid id => id.length = 12
  | regex r1 r2 => 0 ∉ r1 ∧ 0 ∉ r2
  | raw k bs => 4 ≤ (bs ++ rest).length ∧ toInt32 (Endian.ofLe ((bs ++ rest).take 4)) + k.extra = bs.length
  | _ => True

theorem ok_raw {k : Raw} {bs rest : Bytes} : (raw k bs).Ok rest ↔
    4 ≤ (bs ++ rest).length ∧ toInt32 (Endian.ofLe ((bs ++ rest).take 4)) + k.extra = bs.length := Iff.rfl

end Scalar

/-- The fields of a document. -/
inductive Doc where
  | nil
  | field (key : Bytes) (v : Scalar) (rest : Doc)
  | nested (array : Bool) (key : Bytes) (inner rest : Doc)

/-- The bytes of a document, of which the fields are `body`. -/
def wrap (body : Bytes) : Bytes := Endian.le 4 (body.length + 5) ++ body ++ [0]

def tableKind (array : Bool) : Kind := if array then .array else .document

def keyValue (array : Bool) (key : Bytes) : Value :=
  if array then .integer (BitVec.ofInt 64 (toInt32 (strtol key + 1))) else .string key

/-- In an array the number that the text stands for is not the largest one. -/
def FieldKeyOk (array : Bool) (key : Bytes) : Prop := 0 ∉ key ∧ (array = true → strtol key + 1 < 2 ^ 63)

namespace Doc

def bytes : Doc → Bytes
  | nil => []
  | field key v rest => v.kind.byte :: (key ++ 0 :: (v.bytes ++ rest.bytes))
  | nested array key inner rest => (tableKind array).byte :: (key ++ 0 :: (wrap inner.bytes ++ rest.bytes))

def block (d : Doc) : Bytes := wrap d.bytes

/-- The fields are set one after the other. -/
def table (array : Bool) : Doc → Entries → Entries
  | nil, es => es
  | field key v rest, es => rest.table array (setKey es (keyValue array key) v.value)
  | nested a key inner rest, es => rest.table array (setKey es (keyValue array key) (.table (inner.table a [])))

def value (d : Doc) : Value := .table (d.table false [])

def Ok (array : Bool) : Doc → Prop
  | nil => True
  | field key v rest => FieldKeyOk array key ∧ v.Ok rest.bytes ∧ rest.Ok array
  | nested a key inner rest => FieldKeyOk array key ∧ inner.Ok a ∧ rest.Ok array

@[simp] theorem bytes_nil : nil.bytes = [] := rfl

@[simp] theorem bytes_field (key : Bytes) (v : Scalar) (rest : Doc) :
    (field key v rest).bytes = v.kind.byte :: (key ++ 0 :: (v.bytes ++ rest.bytes)) := rfl

@[simp] theorem bytes_nested (array : Bool) (key : Bytes) (inner rest : Doc) :
    (nested array key inner rest).bytes = (tableKind array).byte :: (key ++ 0 :: (wrap inner.bytes ++ rest.bytes)) :=
      rfl

@[simp] theorem table_field (array : Bool) (key : Bytes) (v : Scalar) (rest : Doc) (es : Entries) :
    (field key v rest).table array es = rest.table array (setKey es (keyValue array key) v.value) := rfl

@[simp] theorem table_nested (array a : Bool) (key : Bytes) (inner rest : Doc) (es : Entries) :
    (nested a key inner rest).table array es =
      rest.table array (setKey es (keyValue array key) (.table (inner.table a []))) := rfl

end Doc

@[simp] theorem wrap_length (body : Bytes) : (wrap body).length = body.length + 5 := by
  simp [wrap]
  omega

theorem fieldKey_ok {array : Bool} {key : Bytes} (h : FieldKeyOk array key) :
    fieldKey array key = .ok (keyValue array key) := by
  cases array with
  | false => rfl
  | true => rw [fieldKey, if_pos rfl, if_pos (h.2 rfl), keyValue, if_pos rfl]

theorem ofCode_tableKind (array : Bool) : Kind.ofCode (tableKind array).byte.toNat = some (tableKind array) := by
  rw [Kind.byte_toNat, Kind.ofCode_code]

end Bson
end Skynet
