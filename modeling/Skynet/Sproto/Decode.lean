import Skynet.Sproto.Encode

/-!
# Skynet.Sproto.Decode

`sproto_decode` of `sproto.c`, for any callback. A pointer into the input is an offset; a read outside
of the input gives no result (`Fault.beyond`). `none` is the return of -1.
-/

namespace Skynet
namespace Sproto

/-- An unsigned number of 32 bits as an `int`. -/
def int32 (n : Nat) : Int := (n : Int).bmod 0x100000000

/-- An `int` as an unsigned number of 32 bits. -/
def uint32 (n : Int) : Nat := (n % 0x100000000).toNat

/-- What `args->value` points to: nothing, an integer of 64 bits, or `length` bytes of the input. -/
inductive DecodeValue where
  | null
  | u64 (v : BitVec 64)
  | range (offset : Nat) (length : Int)

/-- `struct sproto_arg` as the decoder fills it. -/
structure DecodeArg where
  tagname : Bytes
  tagid : Nat
  type : FieldType
  value : DecodeValue
  index : Int
  mainindex : Int

abbrev DecodeCb (σ : Type) := DecodeArg → σ → Except Fault (Int × σ)

/-- The number in the `k` bytes at an offset. -/
def readLe (buf : Bytes) (k offset : Nat) : Except Fault Nat :=
  if offset + k ≤ buf.length then .ok (Endian.ofLe ((buf.drop offset).take k)) else .error .beyond

def toword (buf : Bytes) (offset : Nat) : Except Fault Nat := readLe buf 2 offset

def todword (buf : Bytes) (offset : Nat) : Except Fault Nat := readLe buf 4 offset

def expand64 (v : Nat) : BitVec 64 :=
  if v &&& 0x80000000 ≠ 0 then BitVec.ofNat 64 v ||| BitVec.allOnes 64 <<< 32 else BitVec.ofNat 64 v

/-- The low and the high half of an integer of 64 bits. -/
def toqword (buf : Bytes) (offset : Nat) : Except Fault (BitVec 64) := do
  let low ← todword buf offset
  let hi ← todword buf (offset + 4)
  .ok (BitVec.ofNat 64 low ||| BitVec.ofNat 64 hi <<< 32)

variable {σ : Type}

/-! ### Arrays -/

/-- A loop that hands `n` integers to the callback; its return is not looked at. -/
def decodeItems (cb : DecodeCb σ) (args : DecodeArg) (item : Nat → Except Fault (BitVec 64)) :
    Nat → Nat → σ → Except Fault σ
  | 0, _, ud => .ok ud
  | n + 1, i, ud => do
    let v ← item i
    let (_, ud) ← cb { args with index := i + 1, value := .u64 v } ud
    decodeItems cb args item n (i + 1) ud

/-- The case `SPROTO_TINTEGER` of `decode_array`, behind the size. -/
def decodeIntegers (cb : DecodeCb σ) (args : DecodeArg) (buf : Bytes) (stream sz : Nat) (ud : σ) :
    Except Fault (Option σ) := do
  let len ← readLe buf 1 stream
  let stream := stream + 1
  let sz := sz - 1
  if len = 4 then
    if sz % 4 ≠ 0 then .ok none
    else do
      let ud ← decodeItems cb args (fun i => (todword buf (stream + i * 4)).map expand64) (sz / 4) 0 ud
      .ok (some ud)
  else if len = 8 then
    if sz % 8 ≠ 0 then .ok none
    else do
      let ud ← decodeItems cb args (fun i => toqword buf (stream + i * 8)) (sz / 8) 0 ud
      .ok (some ud)
  else .ok none

/-- `decode_array_object`. -/
def decodeArrayObject (cb : DecodeCb σ) (args : DecodeArg) (buf : Bytes) :
    Nat → Nat → Int → Nat → σ → Except Fault (Option σ)
  | 0, _, _, _, _ => .error .fuel
  | fuel + 1, stream, sz, index, ud =>
    if 0 < sz then
      if sz < SIZEOF_LENGTH then .ok none
      else do
        let hsz ← todword buf stream
        let stream := stream + SIZEOF_LENGTH
        let sz := sz - SIZEOF_LENGTH
        if uint32 sz < hsz then .ok none
        else do
          let (r, ud) ← cb { args with index := index, value := .range stream (int32 hsz) } ud
          if r ≠ 0 then .ok none
          else decodeArrayObject cb args buf fuel (stream + hsz) (sz - hsz) (index + 1) ud
    else .ok (some ud)

/-- `decode_array`. -/
def decodeArray (cb : DecodeCb σ) (args : DecodeArg) (buf : Bytes) (stream : Nat) (ud : σ) :
    Except Fault (Option σ) := do
  let sz ← todword buf stream
  if sz = 0 then do
    let (_, ud) ← cb { args with index := -1, value := .null } ud
    .ok (some ud)
  else
    match args.type with
    | .integer => decodeIntegers cb args buf (stream + SIZEOF_LENGTH) sz ud
    | .boolean => do
      let ud ← decodeItems cb args
        (fun i => (readLe buf 1 (stream + SIZEOF_LENGTH + i)).map (BitVec.ofNat 64)) sz 0 ud
      .ok (some ud)
    | .string | .struct _ => decodeArrayObject cb args buf (sz + 1) (stream + SIZEOF_LENGTH) (int32 sz) 1 ud

/-! ### Fields -/

def decodeArg (f : Field) : DecodeArg :=
  { tagname := f.name, tagid := f.tag, type := f.type, value := .null, index := 0, mainindex := f.key }

/-- An integer behind its size. -/
def decodeInteger (cb : DecodeCb σ) (args : DecodeArg) (buf : Bytes) (currentdata : Nat) (ud : σ) :
    Except Fault (Option σ) := do
  let sz ← todword buf currentdata
  if sz = 4 then do
    let v ← todword buf (currentdata + SIZEOF_LENGTH)
    let (_, ud) ← cb { args with value := .u64 (expand64 v) } ud
    .ok (some ud)
  else if sz ≠ 8 then .ok none
  else do
    let v ← toqword buf (currentdata + SIZEOF_LENGTH)
    let (_, ud) ← cb { args with value := .u64 v } ud
    .ok (some ud)

/-- A string or a struct behind its size. -/
def decodeObject (cb : DecodeCb σ) (args : DecodeArg) (buf : Bytes) (currentdata : Nat) (ud : σ) :
    Except Fault (Option σ) := do
  let sz ← todword buf currentdata
  let (r, ud) ← cb { args with value := .range (currentdata + SIZEOF_LENGTH) (int32 sz) } ud
  if r ≠ 0 then .ok none else .ok (some ud)

/-- A field whose data is at `currentdata`. -/
def decodeData (cb : DecodeCb σ) (buf : Bytes) (f : Field) (currentdata : Nat) (ud : σ) :
    Except Fault (Option σ) :=
  if f.array then decodeArray cb (decodeArg f) buf currentdata ud
  else
    match f.type with
    | .integer => decodeInteger cb (decodeArg f) buf currentdata ud
    | .boolean => .ok none
    | .string | .struct _ => decodeObject cb (decodeArg f) buf currentdata ud

/-- A field whose value is in its record. -/
def decodeInline (cb : DecodeCb σ) (f : Field) (value : Nat) (ud : σ) : Except Fault (Option σ) :=
  if f.array = false ∧ (f.type = .integer ∨ f.type = .boolean) then do
    let (_, ud) ← cb { decodeArg f with value := .u64 (BitVec.ofNat 64 value) } ud
    .ok (some ud)
  else .ok none

/-- The search for the field and its decoding; a tag that the type does not have is passed over. -/
def decodeTag (cb : DecodeCb σ) (buf : Bytes) (st : SprotoType) (tag value : Int) (currentdata : Nat) (ud : σ) :
    Except Fault (Option σ) :=
  match findtag st tag with
  | none => .ok (some ud)
  | some f =>
    if value < 0 then decodeData cb buf f currentdata ud
    else decodeInline cb f value.toNat ud

/-- The loop over the records: the size left behind the data, and the state of the callback. -/
def decodeFields (cb : DecodeCb σ) (buf : Bytes) (st : SprotoType) :
    Nat → Nat → Int → Nat → Int → σ → Except Fault (Option (Int × σ))
  | 0, _, _, _, size, ud => .ok (some (size, ud))
  | fn + 1, stream, tag, datastream, size, ud => do
    let value ← toword buf stream
    let stream := stream + SIZEOF_FIELD
    let tag := tag + 1
    if value % 2 = 1 then decodeFields cb buf st fn stream (tag + (value / 2 : Nat)) datastream size ud
    else
      let value : Int := (value / 2 : Nat) - 1
      if value < 0 then
        if size < SIZEOF_LENGTH then .ok none
        else do
          let sz ← todword buf datastream
          let skip := (sz + SIZEOF_LENGTH) % 0x100000000
          if uint32 size < skip then .ok none
          else do
            match ← decodeTag cb buf st tag value datastream ud with
            | none => .ok none
            | some ud => decodeFields cb buf st fn stream tag (datastream + skip) (size - skip) ud
      else do
        match ← decodeTag cb buf st tag value datastream ud with
        | none => .ok none
        | some ud => decodeFields cb buf st fn stream tag datastream size ud

/-- `sproto_decode` on the `size` bytes at an offset of the input: the size used, and the state of the
callback. -/
def sprotoDecode (cb : DecodeCb σ) (buf : Bytes) (st : SprotoType) (data : Nat) (size : Int) (ud : σ) :
    Except Fault (Option (Int × σ)) :=
  if size < SIZEOF_HEADER then .ok none
  else do
    let fn ← toword buf data
    let stream := data + SIZEOF_HEADER
    let left := size - SIZEOF_HEADER
    if left < fn * SIZEOF_FIELD then .ok none
    else do
      let r ← decodeFields cb buf st fn stream (-1) (stream + fn * SIZEOF_FIELD) (left - fn * SIZEOF_FIELD) ud
      .ok (r.map fun (left, ud) => (size - left, ud))

end Sproto
end Skynet
