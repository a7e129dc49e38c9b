import Skynet.Lib.Decimal
import Skynet.Lib.Endian
import Skynet.Lua.Table
import Skynet.Seri.Pack

/-!
# Skynet.Bson.Encode

`encode` and `encode_order` of `lua-bson.c`.

* A special value (a date, a regular expression, ...) is a string that begins with a zero byte and the byte of its type.
* `rawlen` is `lua_rawlen`, and the pairs of a table are in the order in which `lua_next` visits them; `fmt` is the text of
  a float as a key.
* The tables have no metatables. Values that are encoded already (userdata) are not modelled, and neither is Lua's limit on
  the size of its stack.
-/

namespace Skynet
namespace Bson

open Lua
open Seri (toInt32)
open Decimal (decimal)

abbrev Bytes := List UInt8

def DEFAULT_CAP : Nat := 64
def MAX_DEPTH : Nat := 128

/-- `BSON_REAL` and so on, but for `BSON_UNDEFINED`, which the code does not handle. -/
inductive Kind where
  | real
  | string
  | document
  | array
  | binary
  | objectid
  | boolean
  | date
  | null
  | regex
  | dbpointer
  | jscode
  | symbol
  | codews
  | int32
  | timestamp
  | int64
  | minkey
  | maxkey
deriving Repr, DecidableEq

namespace Kind

def code : Kind → Nat
  | real => 1
  | string => 2
  | document => 3
  | array => 4
  | binary => 5
  | objectid => 7
  | boolean => 8
  | date => 9
  | null => 10
  | regex => 11
  | dbpointer => 12
  | jscode => 13
  | symbol => 14
  | codews => 15
  | int32 => 16
  | timestamp => 17
  | int64 => 18
  | minkey => 255
  | maxkey => 127

def all : List Kind :=
  [real, string, document, array, binary, objectid, boolean, date, null, regex, dbpointer, jscode, symbol, codews,
    int32, timestamp, int64, minkey, maxkey]

def ofCode (n : Nat) : Option Kind := all.find? fun k => k.code = n

def byte (k : Kind) : UInt8 := UInt8.ofNat k.code

@[simp] theorem byte_toNat (k : Kind) : k.byte.toNat = k.code := by cases k <;> rfl

@[simp] theorem ofCode_code (k : Kind) : ofCode k.code = some k := by cases k <;> rfl

theorem code_of_ofCode {n : Nat} {k : Kind} (h : ofCode n = some k) : k.code = n := by
  rw [ofCode] at h
  have hk := List.find?_some h
  exact of_decide_eq_true hk

theorem byte_of_ofCode {b : UInt8} {k : Kind} (h : ofCode b.toNat = some k) : k.byte = b := by
  apply UInt8.toNat_inj.mp
  rw [byte_toNat, code_of_ofCode h]

end Kind

inductive EncodeError where
  /-- "Too depth while encoding bson" -/
  | tooDepth
  /-- "Invalid object id %s" -/
  | objectId
  /-- "Invalid date" -/
  | date
  /-- "Invalid timestamp" -/
  | timestamp
  /-- "Invalid subtype %d" -/
  | subtype (subt : Nat)
  /-- "Invalid value type : %s" -/
  | valueType (t : Value.TypeName)
  /-- "Invalid key type : %s" -/
  | keyType (t : Value.TypeName)
  /-- Lua's error for a key that `lua_next` does not find. -/
  | next
  /-- "Invalid ordered dict" -/
  | ordered
  /-- "Argument %d need a string" -/
  | argument (i : Nat)
  /-- The size of the buffer as an `int` overflows. -/
  | overflow
  /-- A byte behind the buffer is written. -/
  | overrun
deriving Repr, DecidableEq

/-! ### The buffer -/

/-- `struct bson`; `size` is the length of the bytes. -/
structure Buffer where
  bytes : Bytes
  cap : Nat

def bsonCreate : Buffer := { bytes := [], cap := DEFAULT_CAP }

/-- The loop of `bson_reserve`: `cap` is doubled until it is more than `n`. -/
def double : Nat → Nat → Nat → Option Nat
  | 0, _, _ => none
  | fuel + 1, cap, n =>
    if 2 ^ 31 ≤ cap * 2 then none
    else if cap * 2 ≤ n then double fuel (cap * 2) n
    else some (cap * 2)

/-- `bson_reserve` -/
def bsonReserve (b : Buffer) (sz : Int) : Except EncodeError Buffer :=
  if b.bytes.length + sz ≤ b.cap then .ok b
  else
    match double 32 b.cap (b.bytes.length + sz).toNat with
    | none => .error .overflow
    | some cap => .ok { b with cap := cap }

/-- Bytes stored behind the ones that are there. -/
def store (b : Buffer) (bs : Bytes) : Except EncodeError Buffer :=
  if b.bytes.length + bs.length ≤ b.cap then .ok { b with bytes := b.bytes ++ bs } else .error .overrun

/-- What is common to the functions that write: room for the bytes, and the bytes. -/
def write (b : Buffer) (bs : Bytes) : Except EncodeError Buffer := do
  let b ← bsonReserve b (toInt32 bs.length)
  store b bs

def writeByte (b : Buffer) (v : UInt8) : Except EncodeError Buffer := write b [v]

def writeInt32 (b : Buffer) (v : BitVec 32) : Except EncodeError Buffer := write b (Endian.le 4 v.toNat)

def writeInt64 (b : Buffer) (v : BitVec 64) : Except EncodeError Buffer := write b (Endian.le 8 v.toNat)

def writeDouble (b : Buffer) (d : BitVec 64) : Except EncodeError Buffer := write b (Endian.le 8 d.toNat)

def writeString (b : Buffer) (key : Bytes) : Except EncodeError Buffer := write b (key ++ [0])

/-- `reserve_length`: four bytes, of which it does not matter what they are, and where they are. -/
def reserveLength (b : Buffer) : Except EncodeError (Nat × Buffer) := do
  let b' ← write b [0, 0, 0, 0]
  .ok (b.bytes.length, b')

def writeLength (b : Buffer) (v : BitVec 32) (off : Nat) : Buffer :=
  { b with bytes := b.bytes.take off ++ Endian.le 4 v.toNat ++ b.bytes.drop (off + 4) }

def appendKey (b : Buffer) (type : UInt8) (key : Bytes) : Except EncodeError Buffer := do
  let b ← writeByte b type
  writeString b key

/-! ### Values -/

def is32bit (v : BitVec 64) : Bool := -2 ^ 31 ≤ v.toInt ∧ v.toInt < 2 ^ 31

/-- `append_number` for an integer. -/
def appendInteger (b : Buffer) (key : Bytes) (v : BitVec 64) : Except EncodeError Buffer :=
  if is32bit v then do
    let b ← appendKey b Kind.int32.byte key
    writeInt32 b (v.setWidth 32)
  else do
    let b ← appendKey b Kind.int64.byte key
    writeInt64 b v

/-- `append_number` for a float. -/
def appendDouble (b : Buffer) (key : Bytes) (bits : BitVec 64) : Except EncodeError Buffer := do
  let b ← appendKey b Kind.real.byte key
  writeDouble b bits

/-- `write_binary`; the length is that of the bytes behind the subtype. -/
def writeBinary (b : Buffer) (buffer : Bytes) : Except EncodeError Buffer := do
  let (length, b) ← reserveLength b
  let b ← write b buffer
  .ok (writeLength b (BitVec.ofInt 32 (buffer.length - 1)) length)

/-- The case `BSON_REGEX` of `append_one`: the last byte is left out, and the two parts are what is before and behind the last
zero byte of the others. Without such a byte `write_string` is called with the length -1. -/
def appendRegex (b : Buffer) (str : Bytes) : Except EncodeError Buffer :=
  let s := str.dropLast
  let i := (s.reverse.takeWhile (· ≠ 0)).length
  if i = s.length then .error .overrun
  else do
    let b ← writeString b (s.take (s.length - i - 1))
    writeString b (s.drop (s.length - i))

/-- The special value with the subtype `subt`. -/
def appendSpecial (b : Buffer) (subt : UInt8) (str : Bytes) : Except EncodeError Buffer :=
  match Kind.ofCode subt.toNat with
  | some .binary => writeBinary b str
  | some .objectid => if str.length ≠ 12 then .error .objectId else write b str
  | some .jscode | some .dbpointer | some .symbol | some .codews => write b str
  | some .date =>
    if str.length ≠ 4 then .error .date else writeInt64 b (BitVec.ofNat 64 (Endian.ofLe str * 1000))
  | some .timestamp =>
    if str.length ≠ 8 then .error .timestamp
    else do
      let b ← writeInt32 b (BitVec.ofNat 32 (Endian.ofLe (str.take 4)))
      writeInt32 b (BitVec.ofNat 32 (Endian.ofLe (str.drop 4)))
  | some .regex => appendRegex b str
  | some .minkey | some .maxkey | some .null => .ok b
  | _ => .error (.subtype subt.toNat)

def appendString (b : Buffer) (key : Bytes) : Bytes → Except EncodeError Buffer
  | 0 :: subt :: str => do
    let b ← appendKey b subt key
    appendSpecial b subt str
  | str => do
    let b ← appendKey b Kind.string.byte key
    let (off, b) ← reserveLength b
    let b ← writeString b str
    .ok (writeLength b (BitVec.ofNat 32 (str.length + 1)) off)

/-- `append_one`, for a table with `appendTable`. -/
def appendOne (appendTable : Buffer → Bytes → Entries → Except EncodeError Buffer) (b : Buffer) (key : Bytes) :
    Value → Except EncodeError Buffer
  | .integer v => appendInteger b key v
  | .number bits => appendDouble b key bits
  | .string str => appendString b key str
  | .table es => appendTable b key es
  | .boolean v => do
    let b ← appendKey b Kind.boolean.byte key
    writeByte b (if v then 1 else 0)
  | v => .error (.valueType v.typeName)

/-! ### Tables -/

/-- `bson_numstr`; the table of the first 1024 texts holds what `sprintf` gives. -/
def bsonNumstr (i : Nat) : Bytes := decimal (i % 2 ^ 32)

/-- `write_byte(b, 0)` at the end of a document, and its length. -/
def finish (b : Buffer) (length : Nat) : Except EncodeError Buffer := do
  let b ← writeByte b 0
  .ok (writeLength b (BitVec.ofNat 32 (b.bytes.length - length)) length)

/-- `lua_next` behind a key: whether there is a pair. -/
def hasNext (es : Entries) (k : Value) : Except EncodeError Bool :=
  match es.dropWhile fun p => !p.1.sameKey k with
  | [] => .error .next
  | _ :: rest => .ok !rest.isEmpty

/-- `lua_tolstring` of a key. -/
def tolstring (fmt : BitVec 64 → Bytes) : Value → Option Bytes
  | .string s => some s
  | .integer v => some (if v.toInt < 0 then 45 :: decimal v.toInt.natAbs else decimal v.toInt.natAbs)
  | .number bits => some (fmt bits)
  | _ => none

section Tables

variable (rawlen : Entries → Nat) (fmt : BitVec 64 → Bytes)

def isRawarray (es : Entries) : Except EncodeError Bool :=
  if 0 < rawlen es then do
    let more ← hasNext es (intKey (rawlen es))
    .ok !more
  else .ok false

def packArray (one : Buffer → Bytes → Value → Except EncodeError Buffer) (b : Buffer) (es : Entries) (len : Nat) :
    Except EncodeError Buffer := do
  let (length, b) ← reserveLength b
  let b ← (List.range len).foldlM (fun b i => one b (bsonNumstr i) (rawgeti es (i + 1))) b
  finish b length

def packDictData (one : Buffer → Bytes → Value → Except EncodeError Buffer) (b : Buffer) (p : Value × Value) :
    Except EncodeError Buffer :=
  match tolstring fmt p.1 with
  | none => .error (.keyType p.1.typeName)
  | some key => one b key p.2

def packSimpleDict (one : Buffer → Bytes → Value → Except EncodeError Buffer) (b : Buffer) (es : Entries) :
    Except EncodeError Buffer := do
  let (length, b) ← reserveLength b
  let b ← es.foldlM (packDictData fmt one) b
  finish b length

/-- `append_table`, where `levels` more levels are allowed. -/
def appendTable : Nat → Buffer → Bytes → Entries → Except EncodeError Buffer
  | 0, _, _, _ => .error .tooDepth
  | levels + 1, b, key, es => do
    if ← isRawarray rawlen es then do
      let b ← appendKey b Kind.array.byte key
      packArray (appendOne (appendTable levels)) b es (rawlen es)
    else do
      let b ← appendKey b Kind.document.byte key
      packSimpleDict fmt (appendOne (appendTable levels)) b es

/-- The loop of `pack_ordered_dict`, from argument `i` on. -/
def packArguments (one : Buffer → Bytes → Value → Except EncodeError Buffer) : Nat → Buffer → List Value →
    Except EncodeError Buffer
  | i, b, k :: v :: args =>
    match tolstring fmt k with
    | none => .error (.argument (i + 1))
    | some key => do
      let b ← one b key v
      packArguments one (i + 2) b args
  | _, b, _ => .ok b

def packOrderedDict (one : Buffer → Bytes → Value → Except EncodeError Buffer) (b : Buffer) (args : List Value) :
    Except EncodeError Buffer := do
  let (length, b) ← reserveLength b
  let b ← packArguments fmt one 0 b args
  finish b length

/-- `encode` -/
def lencode (es : Entries) : Except EncodeError Bytes := do
  let b ← packSimpleDict fmt (appendOne (appendTable rawlen fmt MAX_DEPTH)) bsonCreate es
  .ok b.bytes

/-- `encode_order` -/
def lencodeOrder (args : List Value) : Except EncodeError Bytes :=
  if args.length % 2 ≠ 0 then .error .ordered
  else do
    let b ← packOrderedDict fmt (appendOne (appendTable rawlen fmt MAX_DEPTH)) bsonCreate args
    .ok b.bytes

end Tables

end Bson
end Skynet
