import Skynet.Bson.Encode

/-!
# Skynet.Bson.Decode

`decode` of `lua-bson.c`.

* The pointer of a reader is an offset into the block and may be moved by any `int`. What is read through it has to lie in
  the block (`outside`), and the arithmetic on lengths has to stay in an `int` (`overflow`).
* A `size_t` that comes from a negative `int` is more than Lua can allocate (`tooLarge`).
* The C stack, on which nested documents are read, is not modelled.
-/

namespace Skynet
namespace Bson

open Lua
open Seri (toInt32 toUint32)
open Decimal (strtol)

inductive DecodeError where
  /-- "Invalid bson block (%d:%d)" -/
  | block (size sz : Int)
  /-- "Invalid bson block : cstring" -/
  | cstring
  /-- "Invalid document end" -/
  | documentEnd
  /-- "Invalid bson string , length = %d" -/
  | string (length : Int)
  /-- "Invalid bson type : %d" -/
  | type (bt : Nat)
  /-- Lua's error for a string that is too large. -/
  | tooLarge
  /-- A byte outside of the block is read. -/
  | outside (pos : Int)
  | overflow
  /-- The loops took more rounds than there are bytes. -/
  | fuel
deriving Repr, DecidableEq

/-- Values cannot be compared, but errors can. -/
instance (x : Except DecodeError Value) (e : DecodeError) : Decidable (x = .error e) :=
  match x with
  | .ok _ => .isFalse (by simp)
  | .error d => decidable_of_iff (d = e) ⟨congrArg _, Except.error.inj⟩

/-- `struct bson_reader` -/
structure Reader where
  ptr : Int
  size : Int
deriving Repr, DecidableEq

/-- The result of `int` arithmetic. -/
def int (n : Int) : Except DecodeError Int := if -2 ^ 31 ≤ n ∧ n < 2 ^ 31 then .ok n else .error .overflow

def checkReader (br : Reader) (sz : Int) : Except DecodeError Unit :=
  if br.size < sz then .error (.block br.size sz) else .ok ()

/-- The reader moved over `sz` bytes. -/
def Reader.skip (br : Reader) (sz : Int) : Reader := { ptr := br.ptr + sz, size := br.size - sz }

/-- `read_bytes`: the offset of the bytes, which are not read. -/
def readBytes (br : Reader) (sz : Int) : Except DecodeError (Int × Reader) := do
  checkReader br sz
  let size ← int (br.size - sz)
  .ok (br.ptr, { ptr := br.ptr + sz, size := size })

section Reading

variable (data : Bytes)

/-- The `n` bytes at an offset of the block. -/
def bytesAt (ptr : Int) (n : Nat) : Except DecodeError Bytes :=
  if 0 ≤ ptr ∧ ptr + n ≤ data.length then .ok ((data.drop ptr.toNat).take n) else .error (.outside ptr)

/-- A string of Lua from the bytes at an offset. -/
def pushlstring (ptr n : Int) : Except DecodeError Bytes :=
  if n < 0 then .error .tooLarge else bytesAt data ptr n.toNat

/-- A number of `n` bytes. -/
def readNat (br : Reader) (n : Nat) : Except DecodeError (Nat × Reader) := do
  checkReader br n
  let bs ← bytesAt data br.ptr n
  .ok (Endian.ofLe bs, br.skip n)

def readByte (br : Reader) : Except DecodeError (Nat × Reader) := readNat data br 1

def readInt32 (br : Reader) : Except DecodeError (Int × Reader) := do
  let (v, br) ← readNat data br 4
  .ok (toInt32 v, br)

/-- `read_int64` and `read_double` -/
def readInt64 (br : Reader) : Except DecodeError (BitVec 64 × Reader) := do
  let (v, br) ← readNat data br 8
  .ok (BitVec.ofNat 64 v, br)

/-- The loop of `read_cstring` from byte `i` on. -/
def cstringLoop (br : Reader) : Nat → Nat → Except DecodeError Nat
  | 0, _ => .error .fuel
  | fuel + 1, i =>
    if i = br.size then .error .cstring
    else do
      let b ← bytesAt data (br.ptr + i) 1
      if b = [0] then .ok i else cstringLoop br fuel (i + 1)

/-- `read_cstring` -/
def readCstring (br : Reader) : Except DecodeError (Bytes × Reader) := do
  let i ← cstringLoop data br (data.length + 1) 0
  let s ← bytesAt data br.ptr i
  .ok (s, br.skip (i + 1))

/-- `make_object` -/
def makeObject (k : Kind) (bs : Bytes) : Value := .string (0 :: k.byte :: bs)

/-- The key of a field: an `int` in an array, whose text is read as a `long`. -/
def fieldKey (array : Bool) (key : Bytes) : Except DecodeError Value :=
  if array then
    if strtol key + 1 < 2 ^ 63 then .ok (.integer (BitVec.ofInt 64 (toInt32 (strtol key + 1)))) else .error .overflow
  else .ok (.string key)

/-- The value of a field of a kind, with `dict` for a document in it. -/
def unpackValue (dict : Bool → Reader → Except DecodeError (Value × Reader)) (t : Reader) :
    Kind → Except DecodeError (Value × Reader)
  | .real => do
    let (v, t) ← readInt64 data t
    .ok (.number v, t)
  | .boolean => do
    let (v, t) ← readByte data t
    .ok (.boolean (v ≠ 0), t)
  | .string => do
    let (sz, t) ← readInt32 data t
    if sz ≤ 0 then .error (.string sz)
    else do
      let (ptr, t) ← readBytes t sz
      let s ← pushlstring data ptr (sz - 1)
      .ok (.string s, t)
  | .document => dict false t
  | .array => dict true t
  | .binary => do
    let (sz, t) ← readInt32 data t
    let (subtype, t) ← readByte data t
    let (ptr, t) ← readBytes t sz
    let s ← pushlstring data ptr sz
    .ok (makeObject .binary (UInt8.ofNat subtype :: s), t)
  | .objectid => do
    let (ptr, t) ← readBytes t 12
    let s ← pushlstring data ptr 12
    .ok (makeObject .objectid s, t)
  | .date => do
    let (date, t) ← readInt64 data t
    .ok (makeObject .date (Endian.le 4 (toUint32 (date.toInt.tdiv 1000))), t)
  | .minkey => .ok (makeObject .minkey [], t)
  | .maxkey => .ok (makeObject .maxkey [], t)
  | .null => .ok (makeObject .null [], t)
  | .regex => do
    let (r1, t) ← readCstring data t
    let (r2, t) ← readCstring data t
    .ok (makeObject .regex (r1 ++ [0] ++ r2 ++ [0]), t)
  | .int32 => do
    let (v, t) ← readInt32 data t
    .ok (.integer (BitVec.ofInt 64 v), t)
  | .timestamp => do
    let (inc, t) ← readInt32 data t
    let (ts, t) ← readInt32 data t
    .ok (makeObject .timestamp (Endian.le 4 (toUint32 inc) ++ Endian.le 4 (toUint32 ts)), t)
  | .int64 => do
    let (v, t) ← readInt64 data t
    .ok (.integer v, t)
  | .dbpointer => do
    let ptr := t.ptr
    let (sz, t) ← readInt32 data t
    let (_, t) ← readBytes t (← int (sz + 12))
    let s ← pushlstring data ptr (← int (sz + 16))
    .ok (makeObject .dbpointer s, t)
  | .jscode => do
    let ptr := t.ptr
    let (sz, t) ← readInt32 data t
    let (_, t) ← readBytes t sz
    let s ← pushlstring data ptr (← int (sz + 4))
    .ok (makeObject .jscode s, t)
  | .symbol => do
    let ptr := t.ptr
    let (sz, t) ← readInt32 data t
    let (_, t) ← readBytes t sz
    let s ← pushlstring data ptr (← int (sz + 4))
    .ok (makeObject .symbol s, t)
  | .codews => do
    let ptr := t.ptr
    let (sz, t) ← readInt32 data t
    let (_, t) ← readBytes t (← int (sz - 4))
    let s ← pushlstring data ptr sz
    .ok (makeObject .codews s, t)

/-- The loop of `unpack_dict`. No key raises an error in `lua_rawset`, as it is an integer or a string. -/
def unpackFields (dict : Bool → Reader → Except DecodeError (Value × Reader)) (array : Bool) :
    Nat → Entries → Reader → Except DecodeError Entries
  | 0, _, _ => .error .fuel
  | fuel + 1, es, t =>
    if t.size = 0 then .ok es
    else do
      let (bt, t) ← readByte data t
      let (key, t) ← readCstring data t
      let key ← fieldKey array key
      match Kind.ofCode bt with
      | none => .error (.type bt)
      | some k => do
        let (v, t) ← unpackValue data dict t k
        unpackFields dict array fuel (setKey es key v) t

/-- `unpack_dict`; a nested call is made in a smaller range of bytes. -/
def unpackDict : Nat → Bool → Reader → Except DecodeError (Value × Reader)
  | 0, _, _ => .error .fuel
  | fuel + 1, array, br => do
    let (sz, br) ← readInt32 data br
    let sz ← int (sz - 5)
    let (bytes, br) ← readBytes br sz
    let (e, br) ← readByte data br
    if e ≠ 0 then .error .documentEnd
    else do
      let es ← unpackFields data (unpackDict fuel) array (sz.toNat + 1) [] { ptr := bytes, size := sz }
      .ok (.table es, br)

/-- `get_length` at the front of the block -/
def getLength : Except DecodeError Int := do
  let bs ← bytesAt data 0 4
  .ok (toInt32 (Endian.ofLe bs))

/-- `decode` -/
def ldecode : Except DecodeError Value := do
  let len ← getLength data
  let (v, _) ← unpackDict data (data.length + 1) false { ptr := 0, size := len }
  .ok v

end Reading

end Bson
end Skynet
