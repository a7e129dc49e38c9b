import Skynet.Lib.Endian
import Skynet.Lua.Value

/-!
# Skynet.Seri.Pack

`luaseri_pack` of `lua-seri.c`: the write buffer in blocks of 128 bytes, and the encoding of Lua
values.

* The functions that encode a value give the sequence of their `wb_push` calls, each with its bytes;
  `luaseriPack` carries the calls out and joins the blocks (`seri`).
* `rawlen` is `lua_rawlen`, which depends on how Lua split a table into its array and hash parts.
  The metatables of the tables have no `__pairs`.
* Lua's limit on the size of its stack is not modelled.
-/

namespace Skynet
namespace Seri

open Lua

abbrev Bytes := List UInt8

def BLOCK_SIZE : Nat := 128
def MAX_COOKIE : Nat := 32
def MAX_DEPTH : Nat := 32

/-! ### The write buffer -/

/-- `int` arithmetic: the value of an integer in 32 bits. -/
def toInt32 (n : Int) : Int := n.bmod (2 ^ 32)

/-- An `int` as an unsigned number of 32 bits. -/
def toUint32 (n : Int) : Nat := (n % 0x100000000).toNat

/-- The blocks before the current one, what is written to the current one (`ptr` is its length),
and `len`. -/
structure WriteBlock where
  full : List Bytes
  current : Bytes
  len : Int

def wbInit : WriteBlock := { full := [], current := [], len := 0 }

/-- `b->current = b->current->next = blk_alloc()`. -/
def nextBlock (b : WriteBlock) : WriteBlock := { b with full := b.full ++ [b.current], current := [] }

/-- The code of `wb_push` from the test of the room left in the block; each further round takes at
least one byte. -/
def pushLoop : Nat → WriteBlock → Bytes → WriteBlock
  | 0, b, _ => b
  | fuel + 1, b, buf =>
    if (b.current.length : Int) ≤ BLOCK_SIZE - buf.length then
      { b with current := b.current ++ buf, len := toInt32 (b.len + buf.length) }
    else
      let copy := BLOCK_SIZE - b.current.length
      let b := { b with current := b.current ++ buf.take copy, len := toInt32 (b.len + copy) }
      pushLoop fuel (nextBlock b) (buf.drop copy)

/-- `wb_push`. -/
def wbPush (b : WriteBlock) (buf : Bytes) : WriteBlock :=
  pushLoop (buf.length + 1) (if b.current.length = BLOCK_SIZE then nextBlock b else b) buf

/-- The loop of `seri`: the bytes copied from the blocks. -/
def seriLoop : List Bytes → Int → Bytes
  | [], _ => []
  | b :: next, len =>
    if len ≤ 0 then []
    else if (BLOCK_SIZE : Int) ≤ len then b.take BLOCK_SIZE ++ seriLoop next (len - BLOCK_SIZE)
    else b.take len.toNat

/-- `seri`: the buffer and its size. A negative size is one that no allocation can satisfy. -/
def seri (b : WriteBlock) : Option (Bytes × Int) :=
  if b.len < 0 then none else some (seriLoop (b.full ++ [b.current]) b.len, b.len)

/-! ### Values -/

inductive SeriError where
  /-- "serialize can't pack too depth table". -/
  | tooDepth
  /-- "Invalid serialize stream". -/
  | invalidStream
  /-- Lua's error for a key that is NaN. -/
  | badIndex
  /-- A byte outside of the buffer is read. -/
  | beyond
  /-- The reader's loops took more rounds than there are bytes. -/
  | fuel
deriving Repr, DecidableEq

def TYPE_NIL : Nat := 0
def TYPE_BOOLEAN : Nat := 1
def TYPE_NUMBER : Nat := 2
def TYPE_NUMBER_ZERO : Nat := 0
def TYPE_NUMBER_BYTE : Nat := 1
def TYPE_NUMBER_WORD : Nat := 2
def TYPE_NUMBER_DWORD : Nat := 4
def TYPE_NUMBER_QWORD : Nat := 6
def TYPE_NUMBER_REAL : Nat := 8
def TYPE_USERDATA : Nat := 3
def TYPE_SHORT_STRING : Nat := 4
def TYPE_LONG_STRING : Nat := 5
def TYPE_TABLE : Nat := 6

/-- `COMBINE_TYPE(t, v)`, as the byte it is stored in. -/
def combineType (t v : Nat) : Bytes := [UInt8.ofNat (t ||| v <<< 3)]

def wbNil : List Bytes := [combineType TYPE_NIL 0]

def wbBoolean (b : Bool) : List Bytes := [combineType TYPE_BOOLEAN (if b then 1 else 0)]

def wbInteger (v : BitVec 64) : List Bytes :=
  if v.toInt = 0 then [combineType TYPE_NUMBER TYPE_NUMBER_ZERO]
  else if v.toInt ≠ toInt32 v.toInt then [combineType TYPE_NUMBER TYPE_NUMBER_QWORD, Endian.le 8 v.toNat]
  else if v.toInt < 0 then [combineType TYPE_NUMBER TYPE_NUMBER_DWORD, Endian.le 4 v.toNat]
  else if v.toInt < 0x100 then [combineType TYPE_NUMBER TYPE_NUMBER_BYTE, Endian.le 1 v.toNat]
  else if v.toInt < 0x10000 then [combineType TYPE_NUMBER TYPE_NUMBER_WORD, Endian.le 2 v.toNat]
  else [combineType TYPE_NUMBER TYPE_NUMBER_DWORD, Endian.le 4 v.toNat]

def wbReal (bits : BitVec 64) : List Bytes :=
  [combineType TYPE_NUMBER TYPE_NUMBER_REAL, Endian.le 8 bits.toNat]

def wbPointer (p : BitVec 64) : List Bytes := [combineType TYPE_USERDATA 0, Endian.le 8 p.toNat]

/-- `wb_string`; `len` is the length as an `int`. -/
def wbString (str : Bytes) : List Bytes :=
  let len := toInt32 str.length
  if len < MAX_COOKIE then
    combineType TYPE_SHORT_STRING (toUint32 len) :: if 0 < len then [str.take len.toNat] else []
  else if len < 0x10000 then
    [combineType TYPE_LONG_STRING 2, Endian.le 2 len.toNat, str.take len.toNat]
  else [combineType TYPE_LONG_STRING 4, Endian.le 4 len.toNat, str.take len.toNat]

/-- The first bytes of a table with an array part of `n` values. -/
def tableHeader (n : Int) : List Bytes :=
  if MAX_COOKIE - 1 ≤ n then combineType TYPE_TABLE (MAX_COOKIE - 1) :: wbInteger (BitVec.ofInt 64 n)
  else [combineType TYPE_TABLE (toUint32 n)]

/-- The keys that `wb_table_hash` leaves out: they are in the array part. -/
def inArray (n : Int) : Value → Bool
  | .integer x => decide (0 < x.toInt ∧ x.toInt ≤ n)
  | _ => false

/-- Values packed one after the other. -/
def packSeq (one : Value → Except SeriError (List Bytes)) : List Value → Except SeriError (List Bytes)
  | [] => .ok []
  | v :: vs => do
    let a ← one v
    let b ← packSeq one vs
    .ok (a ++ b)

/-- `wb_table_array`, for an array part of `n` values that are packed with `one`. -/
def wbTableArray (one : Value → Except SeriError (List Bytes)) (es : Entries) (n : Int) :
    Except SeriError (List Bytes) := do
  let array ← packSeq one ((List.range n.toNat).map fun i => rawgeti es (i + 1))
  .ok (tableHeader n ++ array)

/-- `wb_table_hash`. -/
def wbTableHash (one : Value → Except SeriError (List Bytes)) (es : Entries) (n : Int) :
    Except SeriError (List Bytes) := do
  let hash ← packSeq one ((es.filter fun p => !inArray n p.1).flatMap fun p => [p.1, p.2])
  .ok (hash ++ wbNil)

def wbTableParts (one : Value → Except SeriError (List Bytes)) (es : Entries) (n : Int) :
    Except SeriError (List Bytes) := do
  let array ← wbTableArray one es n
  let hash ← wbTableHash one es n
  .ok (array ++ hash)

/-- `wb_table`; the size of the array part is `lua_rawlen` as an `int`. -/
def wbTable (rawlen : Entries → Nat) (one : Value → Except SeriError (List Bytes)) (es : Entries) :
    Except SeriError (List Bytes) :=
  wbTableParts one es (toInt32 (rawlen es))

/-- `pack_one`, with `left = MAX_DEPTH + 1 - depth`. -/
def packOne (rawlen : Entries → Nat) : Nat → Value → Except SeriError (List Bytes)
  | 0, _ => .error .tooDepth
  | left + 1, v =>
    match v with
    | .nil => .ok wbNil
    | .integer v => .ok (wbInteger v)
    | .number bits => .ok (wbReal bits)
    | .boolean b => .ok (wbBoolean b)
    | .string s => .ok (wbString s)
    | .lightuserdata p => .ok (wbPointer p)
    | .table es => wbTable rawlen (packOne rawlen left) es

/-- `luaseri_pack`: the buffer and the size, if the size can be allocated. -/
def luaseriPack (rawlen : Entries → Nat) (vs : List Value) : Except SeriError (Option (Bytes × Int)) := do
  let pushes ← packSeq (packOne rawlen (MAX_DEPTH + 1)) vs
  .ok (seri (pushes.foldl wbPush wbInit))

end Seri
end Skynet
