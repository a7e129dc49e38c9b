import Skynet.Sproto.Decode

/-!
# Skynet.Sproto.Callback

The callbacks `encode` and `decode` of `lsproto.c`, between Lua tables and the encoder and decoder.

* Structs are nested through the callbacks; `left` is `ENCODE_DEEPLEVEL - deep`.
* The pointers to the names of fields are compared by the code; as each field of a type has its own
  name string, the tag of the field stands for the pointer.
* Tables have no metatables. Slots of the Lua stack are fields of the state here, and the size of the
  stack is not modelled.
-/

namespace Skynet
namespace Sproto

open Lua

def ENCODE_DEEPLEVEL : Nat := 64

/-- Lua's conversions between strings and numbers, which `lua_tointegerx` and `lua_tolstring` use. -/
structure Coercions where
  strToInteger : Bytes → Option (BitVec 64)
  integerToStr : BitVec 64 → Bytes
  numberToStr : BitVec 64 → Bytes

/-- `lua_tointegerx`. -/
def Coercions.toInteger (co : Coercions) : Value → Option (BitVec 64)
  | .integer v => some v
  | .number bits => floatToInteger bits
  | .string s => co.strToInteger s
  | _ => none

/-- `lua_isstring` and `lua_tolstring`. -/
def Coercions.toStr (co : Coercions) : Value → Option Bytes
  | .string s => some s
  | .integer v => some (co.integerToStr v)
  | .number bits => some (co.numberToStr bits)
  | _ => none

/-! ### Encoding -/

/-- `struct encode_ud`: the table, the array that is encoded (`array_tag`, `array_index`), and how far
`lua_next` went in it. -/
structure EncodeUd where
  tbl : Entries
  arrayTag : Option Nat
  array : Entries
  iter : Nat

def encodeUd (tbl : Entries) : EncodeUd := { tbl := tbl, arrayTag := none, array := [], iter := 0 }

/-- The array of a field, at its first item. -/
def openArray (args : EncodeArg) (self : EncodeUd) : Except Fault (Bool × EncodeUd) :=
  if self.arrayTag = some args.tagid then .ok (true, self)
  else
    match getfield self.tbl args.tagname with
    | .nil => .ok (false, { self with arrayTag := some args.tagid, array := [] })
    | .table es => .ok (true, { self with arrayTag := some args.tagid, array := es })
    | v => .error (.luaError (.notArray args.tagname args.index v.typeName))

/-- The item of an array: by its index, or the next pair of a map. -/
def arrayItem (args : EncodeArg) (self : EncodeUd) : Value × EncodeUd :=
  if 0 ≤ args.mainindex then
    match self.array[self.iter]? with
    | none => (.nil, { self with iter := 0 })
    | some p => (p.2, { self with iter := self.iter + 1 })
  else (rawgeti self.array args.index, self)

/-- The value to encode; none where there is no array. -/
def lookup (args : EncodeArg) (self : EncodeUd) : Except Fault (Option Value × EncodeUd) :=
  if 0 < args.index then do
    let (isArray, self) ← openArray args self
    if isArray then
      let (v, self) := arrayItem args self
      .ok (some v, self)
    else .ok (none, self)
  else .ok (some (getfield self.tbl args.tagname), self)

/-- The cases of `encode` for a value that is not nil; `sub` encodes a struct. -/
def encodeValue (co : Coercions) (sub : Nat → Nat → Entries → Except Fault CbResult) (args : EncodeArg) (v : Value) :
    Except Fault CbResult :=
  match args.type with
  | .integer =>
    match co.toInteger v with
    | none => .error (.luaError (.notInteger args.tagname args.index v.typeName))
    | some v =>
      let vh := v.sshiftRight 31
      if vh = 0 ∨ vh = -1 then .ok (.wrote (Endian.le 4 v.toNat)) else .ok (.wrote (Endian.le 8 v.toNat))
  | .boolean =>
    match v with
    | .boolean b => .ok (.wrote (Endian.le 4 (if b then 1 else 0)))
    | v => .error (.luaError (.notBoolean args.tagname args.index v.typeName))
  | .string =>
    match co.toStr v with
    | none => .error (.luaError (.notString args.tagname args.index v.typeName))
    | some s => if args.length < s.length then .ok .error else .ok (.wrote s)
  | .struct st =>
    match v with
    | .table es => sub st args.length es
    | v => .error (.luaError (.notTable args.tagname args.index v.typeName))

/-- The nested call of `sproto_encode`. -/
def encodeStruct (ts : List SprotoType) (cb : EncodeCb EncodeUd) (i size : Nat) (es : Entries) :
    Except Fault CbResult :=
  match ts[i]? with
  | none => .error .beyond
  | some st => do
    let (bs, _) ← sprotoEncode cb st size (encodeUd es)
    match bs with
    | none => .ok .error
    | some bs => .ok (.wrote bs)

/-- `encode`. -/
def encode (co : Coercions) (ts : List SprotoType) : Nat → EncodeCb EncodeUd
  | 0, _, _ => .error (.luaError .tooDeep)
  | left + 1, args, self => do
    let (v, self) ← lookup args self
    match v with
    | none => .ok (.noarray, self)
    | some .nil => .ok (.nil, self)
    | some v => do
      let r ← encodeValue co (encodeStruct ts (encode co ts left)) args v
      .ok (r, self)

/-- The call of `sproto_encode` by `lencode`. -/
def encodeTable (co : Coercions) (ts : List SprotoType) (st : SprotoType) (size : Nat) (tbl : Entries) :
    Except Fault (Option Bytes) :=
  (sprotoEncode (encode co ts ENCODE_DEEPLEVEL) st size (encodeUd tbl)).map (·.1)

/-! ### Decoding -/

/-- `struct decode_ud`: the table, the array that is filled, which is the value of `arrayName` in the
table, and for a map the tag of the main key and its value. -/
structure DecodeUd where
  result : Entries
  arrayTag : Option Nat
  arrayName : Bytes
  array : Entries
  mainindexTag : Int
  key : Value

def decodeUd (mainindexTag : Int) : DecodeUd :=
  { result := [], arrayTag := none, arrayName := [], array := [], mainindexTag := mainindexTag, key := .nil }

/-- A new array, in the table under its name. -/
def newArray (args : DecodeArg) (self : DecodeUd) : DecodeUd :=
  { self with
    arrayTag := some args.tagid
    arrayName := args.tagname
    array := []
    result := setfield self.result args.tagname (.table []) }

def putArray (self : DecodeUd) (array : Entries) : DecodeUd :=
  { self with array := array, result := setfield self.result self.arrayName (.table array) }

/-- The end of `decode`: the value is stored. -/
def store (args : DecodeArg) (v : Value) (self : DecodeUd) : DecodeUd :=
  if 0 < args.index then putArray self (rawseti self.array args.index.toNat v)
  else
    let self := if self.mainindexTag = args.tagid then { self with key := v } else self
    { self with result := setfield self.result args.tagname v }

/-- The bytes of a string. -/
def pushString (buf : Bytes) (offset : Nat) (length : Int) : Except Fault Value :=
  if 0 ≤ length ∧ offset + length ≤ buf.length then .ok (.string ((buf.drop offset).take length.toNat))
  else .error .beyond

/-- The case `SPROTO_TSTRUCT` of `decode`, from the result of `sproto_decode`: a return other than 0, or
the state with the struct stored. -/
def putStruct (args : DecodeArg) (length : Int) (self : DecodeUd) :
    Option (Int × DecodeUd) → Except Fault (Int × DecodeUd)
  | none => .ok (-1, self)
  | some (r, sub) =>
    if r ≠ length then .ok (r, self)
    else if 0 ≤ args.mainindex then
      if sub.key.isNil then .error (.luaError (.noMainIndex args.mainindex args.tagname))
      else
        match rawset self.array sub.key (.table sub.result) with
        | none => .error (.luaError .badIndex)
        | some array => .ok (0, putArray self array)
    else .ok (0, store args (.table sub.result) self)

/-- The cases of `decode` by the type and the value; `sub` decodes a struct. -/
def decodeValue (buf : Bytes) (sub : Nat → Nat → Int → Except Fault (Option (Int × DecodeUd))) (args : DecodeArg)
    (self : DecodeUd) : Except Fault (Int × DecodeUd) :=
  match args.type, args.value with
  | .integer, .u64 v => .ok (0, store args (.integer v) self)
  | .boolean, .u64 v => .ok (0, store args (.boolean (v.setWidth 32 ≠ 0)) self)
  | .string, .range offset length => do
    let s ← pushString buf offset length
    .ok (0, store args s self)
  | .struct st, .range offset length => do
    let r ← sub st offset length
    putStruct args length self r
  | _, _ => .error .beyond

/-- The nested call of `sproto_decode`. -/
def decodeStruct (ts : List SprotoType) (buf : Bytes) (cb : DecodeCb DecodeUd) (mainindex : Int) (i offset : Nat)
    (length : Int) : Except Fault (Option (Int × DecodeUd)) :=
  match ts[i]? with
  | none => .error .beyond
  | some st => sprotoDecode cb buf st offset length (decodeUd (if 0 ≤ mainindex then mainindex else -1))

/-- `decode`. -/
def decode (ts : List SprotoType) (buf : Bytes) : Nat → DecodeCb DecodeUd
  | 0, _, _ => .error (.luaError .tooDeep)
  | left + 1, args, self =>
    let isNew := args.index ≠ 0 ∧ self.arrayTag ≠ some args.tagid
    let self := if isNew then newArray args self else self
    if isNew ∧ args.index < 0 then .ok (0, self)
    else decodeValue buf (decodeStruct ts buf (decode ts buf left) args.mainindex) args self

/-- The call of `sproto_decode` by `ldecode`: the table and the size used. -/
def decodeTable (ts : List SprotoType) (st : SprotoType) (buf : Bytes) : Except Fault (Option (Int × Entries)) :=
  (sprotoDecode (decode ts buf ENCODE_DEEPLEVEL) buf st 0 (int32 buf.length) (decodeUd (-1))).map
    fun r => r.map fun (n, ud) => (n, ud.result)

end Sproto
end Skynet
