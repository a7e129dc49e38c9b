import Skynet.Lib.Endian
import Skynet.Sproto.Pack
import Skynet.Sproto.Type

/-!
# Skynet.Sproto.Encode

`sproto_encode` of `sproto.c`, for any callback.

* A function that fills a part of the buffer gives the bytes it puts there; `none` is the return of
  -1. The state of the callback (`ud`) is passed through.
* Where the code writes outside of the buffer, or a record outside of the header, there is no result
  (`Fault.overrun`).
* Sizes are `int` in the source; they only shrink here.
-/

namespace Skynet
namespace Sproto

def SIZEOF_LENGTH : Nat := 4
def SIZEOF_HEADER : Nat := 2
def SIZEOF_FIELD : Nat := 2

/-- The errors that `lsproto.c` raises, with the data of their messages. -/
inductive LuaError where
  /-- "The table is too deep" -/
  | tooDeep
  /-- ".*%s(%d) should be a table (Is a %s)" -/
  | notArray (tagname : Bytes) (index : Int) (type : Lua.Value.TypeName)
  /-- ".%s[%d] is not an integer (Is a %s)" -/
  | notInteger (tagname : Bytes) (index : Int) (type : Lua.Value.TypeName)
  /-- ".%s[%d] is not a boolean (Is a %s)" -/
  | notBoolean (tagname : Bytes) (index : Int) (type : Lua.Value.TypeName)
  /-- ".%s[%d] is not a string (Is a %s)" -/
  | notString (tagname : Bytes) (index : Int) (type : Lua.Value.TypeName)
  /-- ".%s[%d] is not a table (Is a %s)" -/
  | notTable (tagname : Bytes) (index : Int) (type : Lua.Value.TypeName)
  /-- "Can't find main index (tag=%d) in [%s]" -/
  | noMainIndex (mainindex : Int) (tagname : Bytes)
  /-- Lua's error for a key that is nil or NaN. -/
  | badIndex
deriving Repr, DecidableEq

/-- Why a call does not return. -/
inductive Fault where
  | luaError (e : LuaError)
  /-- The assertion of `encode_object`. -/
  | assertion
  | overrun
  | beyond
  | fuel
deriving Repr, DecidableEq

/-- `struct sproto_arg` as the encoder fills it; the value is what the callback writes. -/
structure EncodeArg where
  tagname : Bytes
  tagid : Nat
  type : FieldType
  length : Nat
  index : Nat
  mainindex : Int

/-- The return of the encode callback: `SPROTO_CB_ERROR`, `SPROTO_CB_NIL`, `SPROTO_CB_NOARRAY`, or the
bytes it wrote to `args->value`, whose number it returns. -/
inductive CbResult where
  | error
  | nil
  | noarray
  | wrote (bytes : Bytes)
deriving Repr, DecidableEq

abbrev EncodeCb (σ : Type) := EncodeArg → σ → Except Fault (CbResult × σ)

variable {σ : Type}

/-! ### Single values -/

/-- Bytes behind their `fill_size`. -/
def filled (bs : Bytes) : Bytes := Endian.le SIZEOF_LENGTH bs.length ++ bs

def encodeInteger (v size : Nat) : Option Bytes :=
  if size < SIZEOF_LENGTH + 4 then none else some (filled (Endian.le 4 v))

def encodeUint64 (v size : Nat) : Option Bytes :=
  if size < SIZEOF_LENGTH + 8 then none else some (filled (Endian.le 8 v))

/-- `encode_object`; no bytes where there is no object. -/
def encodeObject (cb : EncodeCb σ) (args : EncodeArg) (size : Nat) (ud : σ) : Except Fault (Option Bytes × σ) :=
  if size < SIZEOF_LENGTH then .ok (none, ud)
  else do
    let (r, ud) ← cb { args with length := size - SIZEOF_LENGTH } ud
    match r with
    | .nil => .ok (some [], ud)
    | .error => .ok (none, ud)
    | .noarray => .ok (none, ud)
    | .wrote bs => if size - SIZEOF_LENGTH < bs.length then .error .assertion else .ok (some (filled bs), ud)

/-! ### Arrays -/

/-- How the loop over an array ends. -/
inductive ArrayResult where
  | fail
  | noarray
  | done (body : Bytes)

def uint32ToUint64 (negative : Bool) : Bytes := List.replicate 4 (if negative then 0xff else 0)

/-- The variables of `encode_integer_array`. The memory starts behind the length byte (`header + 1`), and
`buffer` is an offset in it. -/
structure IntArray where
  intlen : Nat
  index : Nat
  mem : Nat → UInt8
  buffer : Nat
  size : Nat

/-- The loop that widens the first items in place, the last one first. -/
def rearrange : Nat → (Nat → UInt8) → Nat → UInt8
  | 0, m => m
  | i + 1, m =>
    let m := Mem.blit m (i * 8) (Mem.slice m (i * 4) 4)
    let m := Mem.blit m (i * 8 + 4) (uint32ToUint64 ((m (i * 8 + 3)).toNat &&& 0x80 ≠ 0))
    rearrange i m

/-- The change to eight bytes for each item. A size below 0 is compared as an unsigned number and passes
the check. -/
def widen (a : IntArray) : Except Fault (Option IntArray) :=
  if a.intlen = 4 then
    let used := (a.index - 1) * 4
    if a.size < used then .error .overrun
    else if a.size - used < 8 then .ok none
    else .ok (some { a with
      size := a.size - used
      buffer := a.buffer + used
      mem := rearrange (a.index - 1) a.mem
      intlen := 8 })
  else .ok (some a)

def nextInteger (a : IntArray) (bs : Bytes) : IntArray :=
  { a with
    mem := Mem.blit a.mem a.buffer bs
    size := a.size - a.intlen
    buffer := a.buffer + a.intlen
    index := a.index + 1 }

/-- One item that the callback wrote. -/
def putInteger (a : IntArray) (bs : Bytes) : Except Fault (Option IntArray) :=
  if a.size < 8 then .ok none
  else if bs.length = 4 then
    if a.intlen = 8 then
      .ok (some (nextInteger a (bs ++ uint32ToUint64 (Endian.ofLe bs &&& 0x80000000 ≠ 0))))
    else .ok (some (nextInteger a bs))
  else if bs.length ≠ 8 then .ok none
  else (widen a).map fun a => a.map fun a => nextInteger a bs

def encodeIntegers (cb : EncodeCb σ) (args : EncodeArg) :
    Nat → IntArray → σ → Except Fault (ArrayResult × σ)
  | 0, _, _ => .error .fuel
  | fuel + 1, a, ud => do
    let (r, ud) ← cb { args with length := 8, index := a.index } ud
    match r with
    | .nil => .ok (.done (if a.buffer = 0 then [] else UInt8.ofNat a.intlen :: Mem.slice a.mem 0 a.buffer), ud)
    | .noarray => .ok (.noarray, ud)
    | .error => .ok (.fail, ud)
    | .wrote bs =>
      match ← putInteger a bs with
      | none => .ok (.fail, ud)
      | some a => encodeIntegers cb args fuel a ud

/-- `encode_integer_array`. -/
def encodeIntegerArray (cb : EncodeCb σ) (args : EncodeArg) (size : Nat) (ud : σ) :
    Except Fault (ArrayResult × σ) :=
  if size < 1 then .ok (.fail, ud)
  else encodeIntegers cb args (size + 1)
    { intlen := 4, index := 1, mem := fun _ => 0, buffer := 0, size := size - 1 } ud

def encodeBooleans (cb : EncodeCb σ) (args : EncodeArg) :
    Nat → Nat → Bytes → Nat → σ → Except Fault (ArrayResult × σ)
  | 0, _, _, _, _ => .error .fuel
  | fuel + 1, index, body, size, ud => do
    let (r, ud) ← cb { args with length := 4, index := index } ud
    match r with
    | .nil => .ok (.done body, ud)
    | .noarray => .ok (.noarray, ud)
    | .error => .ok (.fail, ud)
    | .wrote bs =>
      if size < 1 then .ok (.fail, ud)
      else encodeBooleans cb args fuel (index + 1) (body ++ [if Endian.ofLe bs ≠ 0 then 1 else 0]) (size - 1) ud

def encodeObjects (cb : EncodeCb σ) (args : EncodeArg) :
    Nat → Nat → Bytes → Nat → σ → Except Fault (ArrayResult × σ)
  | 0, _, _, _, _ => .error .fuel
  | fuel + 1, index, body, size, ud =>
    if size < SIZEOF_LENGTH then .ok (.fail, ud)
    else do
      let (r, ud) ← cb { args with length := size - SIZEOF_LENGTH, index := index } ud
      match r with
      | .nil => .ok (.done body, ud)
      | .noarray => .ok (.noarray, ud)
      | .error => .ok (.fail, ud)
      | .wrote bs =>
        if size - SIZEOF_LENGTH < bs.length then .error .overrun
        else encodeObjects cb args fuel (index + 1) (body ++ filled bs) (size - SIZEOF_LENGTH - bs.length) ud

/-- The loop for the type of the items. -/
def encodeItems (cb : EncodeCb σ) (args : EncodeArg) (size : Nat) (ud : σ) : Except Fault (ArrayResult × σ) :=
  match args.type with
  | .integer => encodeIntegerArray cb args size ud
  | .boolean => encodeBooleans cb args (size + 2) 1 [] size ud
  | _ => encodeObjects cb args (size + 1) 1 [] size ud

/-- `encode_array`; no bytes where there is no array. -/
def encodeArray (cb : EncodeCb σ) (args : EncodeArg) (size : Nat) (ud : σ) : Except Fault (Option Bytes × σ) :=
  if size < SIZEOF_LENGTH then .ok (none, ud)
  else do
    let (r, ud) ← encodeItems cb args (size - SIZEOF_LENGTH) ud
    match r with
    | .fail => .ok (none, ud)
    | .noarray => .ok (some [], ud)
    | .done body => .ok (some (filled body), ud)

/-! ### Fields -/

/-- What becomes of a field: the two early returns of `sproto_encode`, no field, a value for its record, or
data. -/
inductive FieldResult where
  | fail
  | zero
  | absent
  | inline (value : Nat)
  | data (bytes : Bytes)
deriving Repr, DecidableEq

def FieldResult.ofBytes : Option Bytes → FieldResult
  | none => .fail
  | some [] => .absent
  | some bs => .data bs

def fieldArg (f : Field) : EncodeArg :=
  { tagname := f.name, tagid := f.tag, type := f.type, length := 0, index := 0, mainindex := f.key }

/-- The cases `SPROTO_TINTEGER` and `SPROTO_TBOOLEAN`. -/
def encodeNumber (cb : EncodeCb σ) (args : EncodeArg) (size : Nat) (ud : σ) : Except Fault (FieldResult × σ) := do
  let (r, ud) ← cb { args with length := 8 } ud
  match r with
  | .nil => .ok (.absent, ud)
  | .noarray => .ok (.zero, ud)
  | .error => .ok (.fail, ud)
  | .wrote bs =>
    if bs.length = 4 then
      if Endian.ofLe bs < 0x7fff then .ok (.inline ((Endian.ofLe bs + 1) * 2), ud)
      else .ok (.ofBytes (encodeInteger (Endian.ofLe bs) size), ud)
    else if bs.length = 8 then .ok (.ofBytes (encodeUint64 (Endian.ofLe bs) size), ud)
    else .ok (.fail, ud)

def encodeField (cb : EncodeCb σ) (f : Field) (size : Nat) (ud : σ) : Except Fault (FieldResult × σ) :=
  if f.array then do
    let (bs, ud) ← encodeArray cb (fieldArg f) size ud
    .ok (.ofBytes bs, ud)
  else
    match f.type with
    | .integer => encodeNumber cb (fieldArg f) size ud
    | .boolean => encodeNumber cb (fieldArg f) size ud
    | .string | .struct _ => do
      let (bs, ud) ← encodeObject cb (fieldArg f) size ud
      .ok (.ofBytes bs, ud)

/-- The variables of `sproto_encode`; `index` is the number of records. -/
structure EncodeVars where
  records : List Nat
  data : Bytes
  size : Nat
  lasttag : Int

/-- The record of a field, behind one for the tags it skips. -/
def addRecord (maxn : Nat) (f : Field) (value : Nat) (v : EncodeVars) : Except Fault (Option EncodeVars) :=
  let tag := f.tag - v.lasttag - 1
  let skip := (tag - 1) * 2 + 1
  if 0 < tag ∧ 0xffff < skip then .ok none
  else
    let records := v.records ++ (if 0 < tag then [skip.toNat, value] else [value])
    if maxn < records.length then .error .overrun
    else .ok (some { v with records := records, lasttag := f.tag })

/-- How the loop over the fields ends. -/
inductive EncodeResult where
  | fail
  | zero
  | done (v : EncodeVars)

/-- What a field adds. -/
def putField (maxn : Nat) (f : Field) (v : EncodeVars) : FieldResult → Except Fault EncodeResult
  | .fail => .ok .fail
  | .zero => .ok .zero
  | .absent => .ok (.done v)
  | .inline value => do
    match ← addRecord maxn f value v with
    | none => .ok .fail
    | some v => .ok (.done v)
  | .data bs => do
    match ← addRecord maxn f 0 { v with data := v.data ++ bs, size := v.size - bs.length } with
    | none => .ok .fail
    | some v => .ok (.done v)

def encodeFields (cb : EncodeCb σ) (maxn : Nat) : List Field → EncodeVars → σ → Except Fault (EncodeResult × σ)
  | [], v, ud => .ok (.done v, ud)
  | f :: fs, v, ud => do
    let (r, ud) ← encodeField cb f v.size ud
    match ← putField maxn f v r with
    | .fail => .ok (.fail, ud)
    | .zero => .ok (.zero, ud)
    | .done v => encodeFields cb maxn fs v ud

/-- `sproto_encode`: the bytes from the start of the buffer to the size returned. -/
def sprotoEncode (cb : EncodeCb σ) (st : SprotoType) (size : Nat) (ud : σ) : Except Fault (Option Bytes × σ) :=
  let headerSz := SIZEOF_HEADER + st.maxn * SIZEOF_FIELD
  if size < headerSz then .ok (none, ud)
  else do
    let (r, ud) ← encodeFields cb st.maxn st.f
      { records := [], data := [], size := size - headerSz, lasttag := -1 } ud
    match r with
    | .fail => .ok (none, ud)
    | .zero => .ok (some [], ud)
    | .done v =>
      .ok (some (Endian.le SIZEOF_HEADER v.records.length ++ v.records.flatMap (Endian.le SIZEOF_FIELD) ++ v.data), ud)

end Sproto
end Skynet
