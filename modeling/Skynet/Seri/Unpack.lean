import Skynet.Seri.Pack

/-!
# Skynet.Seri.Unpack

`luaseri_unpack` of `lua-seri.c`. The cursor of the read block is an offset into the buffer and may
be moved by any `int`; what is read through it has to lie in the buffer.
-/

namespace Skynet
namespace Seri

open Lua

structure ReadBlock where
  buffer : Bytes
  len : Int
  ptr : Int

/-- `rb_read`: the offset of the bytes, and the block moved behind them. -/
def rbRead (rb : ReadBlock) (sz : Int) : Option (Int × ReadBlock) :=
  if rb.len < sz then none
  else some (rb.ptr, { rb with ptr := rb.ptr + sz, len := rb.len - sz })

/-- The `n` bytes at an offset of the buffer. -/
def bytesAt (buffer : Bytes) (ptr n : Int) : Except SeriError Bytes :=
  if 0 ≤ ptr ∧ 0 ≤ n ∧ ptr + n ≤ buffer.length then .ok ((buffer.drop ptr.toNat).take n.toNat)
  else .error .beyond

/-- `rb_read` with the check of its result and the copy of the bytes. -/
def readBytes (rb : ReadBlock) (n : Int) : Except SeriError (Bytes × ReadBlock) :=
  match rbRead rb n with
  | none => .error .invalidStream
  | some (ptr, rb') => do
    let bs ← bytesAt rb.buffer ptr n
    .ok (bs, rb')

/-- A number of `n` bytes. -/
def readNat (rb : ReadBlock) (n : Nat) : Except SeriError (Nat × ReadBlock) := do
  let (bs, rb) ← readBytes rb n
  .ok (Endian.ofLe bs, rb)

/-- `get_integer`. -/
def getInteger (rb : ReadBlock) (cookie : Nat) : Except SeriError (BitVec 64 × ReadBlock) :=
  if cookie = TYPE_NUMBER_ZERO then .ok (0, rb)
  else if cookie = TYPE_NUMBER_BYTE then do
    let (n, rb) ← readNat rb 1
    .ok (BitVec.ofNat 64 n, rb)
  else if cookie = TYPE_NUMBER_WORD then do
    let (n, rb) ← readNat rb 2
    .ok (BitVec.ofNat 64 n, rb)
  else if cookie = TYPE_NUMBER_DWORD then do
    let (n, rb) ← readNat rb 4
    .ok (BitVec.ofInt 64 (toInt32 n), rb)
  else if cookie = TYPE_NUMBER_QWORD then do
    let (n, rb) ← readNat rb 8
    .ok (BitVec.ofNat 64 n, rb)
  else .error .invalidStream

/-- `get_buffer`, the length converted to `int`. -/
def getBuffer (rb : ReadBlock) (n : Nat) : Except SeriError (Value × ReadBlock) := do
  let (bs, rb) ← readBytes rb (toInt32 n)
  .ok (.string bs, rb)

/-- The size of the array part: the cookie, or an integer behind it. -/
def arraySize (rb : ReadBlock) (cookie : Nat) : Except SeriError (Int × ReadBlock) :=
  if cookie = MAX_COOKIE - 1 then do
    let (type, rb) ← readNat rb 1
    let cookie := type >>> 3
    if type &&& 7 ≠ TYPE_NUMBER ∨ cookie = TYPE_NUMBER_REAL then .error .invalidStream
    else do
      let (n, rb) ← getInteger rb cookie
      .ok (toInt32 n.toInt, rb)
  else .ok (cookie, rb)

/-- The loop over the array part: `n` values from index `i` on. -/
def readArray (one : ReadBlock → Except SeriError (Value × ReadBlock)) :
    Nat → Nat → Entries → ReadBlock → Except SeriError (Entries × ReadBlock)
  | 0, _, t, rb => .ok (t, rb)
  | n + 1, i, t, rb => do
    let (v, rb) ← one rb
    readArray one n (i + 1) (rawseti t i v) rb

/-- The loop over the hash part, up to a nil key. -/
def readHash (one : ReadBlock → Except SeriError (Value × ReadBlock)) :
    Nat → Entries → ReadBlock → Except SeriError (Entries × ReadBlock)
  | 0, _, _ => .error .fuel
  | fuel + 1, t, rb => do
    let (k, rb) ← one rb
    if k.isNil then .ok (t, rb)
    else do
      let (v, rb) ← one rb
      match rawset t k v with
      | none => .error .badIndex
      | some t => readHash one fuel t rb

/-- `unpack_table`. -/
def unpackTable (one : ReadBlock → Except SeriError (Value × ReadBlock)) (rb : ReadBlock) (cookie : Nat) :
    Except SeriError (Value × ReadBlock) := do
  let (n, rb) ← arraySize rb cookie
  let (t, rb) ← readArray one n.toNat 1 [] rb
  let (t, rb) ← readHash one (rb.len.toNat + 1) t rb
  .ok (.table t, rb)

/-- `push_value`, reading the values of a table with `one`. -/
def pushValue (one : ReadBlock → Except SeriError (Value × ReadBlock)) (rb : ReadBlock) (type cookie : Nat) :
    Except SeriError (Value × ReadBlock) :=
  if type = TYPE_NIL then .ok (.nil, rb)
  else if type = TYPE_BOOLEAN then .ok (.boolean (cookie ≠ 0), rb)
  else if type = TYPE_NUMBER then
    if cookie = TYPE_NUMBER_REAL then do
      let (n, rb) ← readNat rb 8
      .ok (.number (BitVec.ofNat 64 n), rb)
    else do
      let (n, rb) ← getInteger rb cookie
      .ok (.integer n, rb)
  else if type = TYPE_USERDATA then do
    let (n, rb) ← readNat rb 8
    .ok (.lightuserdata (BitVec.ofNat 64 n), rb)
  else if type = TYPE_SHORT_STRING then getBuffer rb cookie
  else if type = TYPE_LONG_STRING then
    if cookie = 2 then do
      let (n, rb) ← readNat rb 2
      getBuffer rb n
    else if cookie ≠ 4 then .error .invalidStream
    else do
      let (n, rb) ← readNat rb 4
      getBuffer rb n
  else if type = TYPE_TABLE then unpackTable one rb cookie
  else .error .invalidStream

/-- `unpack_one`; a nested call is made behind at least one byte. -/
def unpackOne : Nat → ReadBlock → Except SeriError (Value × ReadBlock)
  | 0, _ => .error .fuel
  | fuel + 1, rb => do
    let (type, rb) ← readNat rb 1
    pushValue (unpackOne fuel) rb (type &&& 7) (type >>> 3)

/-- The loop of `luaseri_unpack`, up to the end of the buffer. -/
def unpackLoop : Nat → ReadBlock → Except SeriError (List Value)
  | 0, _ => .error .fuel
  | fuel + 1, rb =>
    match rbRead rb 1 with
    | none => .ok []
    | some _ => do
      let (type, rb') ← readNat rb 1
      let (v, rb') ← pushValue (unpackOne rb.len.toNat) rb' (type &&& 7) (type >>> 3)
      let vs ← unpackLoop fuel rb'
      .ok (v :: vs)

/-- `luaseri_unpack(buffer, len)`. -/
def luaseriUnpack (buffer : Bytes) (len : Int) : Except SeriError (List Value) :=
  if len = 0 then .ok []
  else unpackLoop (len.toNat + 1) { buffer := buffer, len := len, ptr := 0 }

end Seri
end Skynet
