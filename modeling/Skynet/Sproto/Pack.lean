import Mathlib.Algebra.Order.Group.Nat
import Skynet.Lib.Mem

/-!
# Skynet.Sproto.Pack

The zero packing of `sproto.c`: `pack_seg`, `write_ff`, `sproto_pack` and `sproto_unpack`.

* A source pointer is the list of the bytes from it to the end of its buffer; reading more of them
  than there are is a read beyond the buffer, and the function has no result then.
* The output is a memory of bytes and offsets into it. The buffer sizes are integers, as they go
  below 0 when the output does not fit. Sizes are `int` in the source and unbounded here: no sum
  overflows while the source and the output reserved for it are shorter than `2 ^ 31`.
-/

namespace Skynet
namespace Sproto

abbrev Bytes := List UInt8

/-- The first `n` bytes from a source pointer on, if they lie in its buffer. -/
def readBytes (src : Bytes) (n : Nat) : Option Bytes :=
  if n ≤ src.length then some (src.take n) else none

/-- The variables of the loop of `pack_seg`. -/
structure SegVars where
  header : Nat
  notzero : Nat
  buffer : Nat
  sz : Int
  mem : Nat → UInt8

def segByte (v : SegVars) (i : Nat) (b : UInt8) : SegVars :=
  if b ≠ 0 then
    let v := { v with notzero := v.notzero + 1, header := v.header ||| 1 <<< i }
    if 0 < v.sz then
      { v with mem := Mem.blit v.mem v.buffer [b], buffer := v.buffer + 1, sz := v.sz - 1 }
    else v
  else v

def segLoop : Nat → Bytes → SegVars → SegVars
  | _, [], v => v
  | i, b :: bs, v => segLoop (i + 1) bs (segByte v i b)

/-- `pack_seg(src, buffer, sz, n)`: the bytes it accounts for, and the output. -/
def packSeg (src : Bytes) (buffer : Nat) (sz : Int) (n : Nat) (mem : Nat → UInt8) :
    Option (Nat × (Nat → UInt8)) := do
  let src ← readBytes src 8
  let v := segLoop 0 src { header := 0, notzero := 0, buffer := buffer + 1, sz := sz - 1, mem := mem }
  let notzero := if (v.notzero = 7 ∨ v.notzero = 6) ∧ 0 < n then 8 else v.notzero
  if notzero = 8 then
    if 0 < n then some (8, v.mem) else some (10, v.mem)
  else if 0 ≤ sz - 1 then
    some (notzero + 1, Mem.blit v.mem buffer [UInt8.ofNat v.header])
  else some (notzero + 1, v.mem)

/-- `write_ff(src, des, n)`. -/
def writeFf (src : Bytes) (des n : Nat) (mem : Nat → UInt8) : Option (Nat → UInt8) := do
  let bytes ← readBytes src n
  let align8n := (n + 7) / 8 * 8
  some (Mem.blit mem des
    ((0xff : UInt8) :: UInt8.ofNat (align8n / 8 - 1) :: bytes ++ List.replicate (align8n - n) 0))

/-- The variables of `sproto_pack`. `buffer` is `bufferv + size` throughout. -/
structure PackVars where
  ffSrcstart : Bytes
  ffDesstart : Nat
  ffN : Nat
  size : Nat
  bufsz : Int
  mem : Nat → UInt8

/-- `if (bufsz >= 0) write_ff(ff_srcstart, ff_desstart, n)`. -/
def flushFf (v : PackVars) (n : Nat) : Option PackVars :=
  if 0 ≤ v.bufsz then do
    let mem ← writeFf v.ffSrcstart v.ffDesstart n v.mem
    some { v with mem := mem }
  else some v

/-- The source pointer of the round at offset `i`: the source itself, or `tmp` for the last group
when it is shorter than 8 bytes. -/
def packSrc (s : Bytes) (i : Nat) : Option Bytes :=
  if 0 < i + 8 - s.length then do
    let head ← readBytes (s.drop i) (8 - (i + 8 - s.length))
    some (head ++ List.replicate (i + 8 - s.length) 0)
  else some (s.drop i)

/-- The round of the loop of `sproto_pack` at offset `i`. -/
def packRound (s : Bytes) (i : Nat) (v : PackVars) : Option PackVars := do
  let src ← packSrc s i
  let (n, mem) ← packSeg src v.size v.bufsz v.ffN v.mem
  let w := { v with bufsz := v.bufsz - n, mem := mem }
  if n = 10 then
    some { w with ffSrcstart := src, ffDesstart := w.size, ffN := 1, size := w.size + n }
  else if n = 8 ∧ 0 < w.ffN then
    if w.ffN + 1 = 256 then do
      let w ← flushFf w (256 * 8)
      some { w with ffN := 0, size := w.size + n }
    else some { w with ffN := w.ffN + 1, size := w.size + n }
  else if 0 < w.ffN then do
    let w ← flushFf w (w.ffN * 8)
    some { w with ffN := 0, size := w.size + n }
  else some { w with size := w.size + n }

/-- The first `m` rounds of the loop. -/
def packRounds (s : Bytes) (v : PackVars) : Nat → Option PackVars
  | 0 => some v
  | m + 1 => (packRounds s v m).bind (packRound s (8 * m))

/-- The write after the loop. -/
def packEnd (s : Bytes) (v : PackVars) : Option PackVars :=
  if v.ffN = 1 then flushFf v 8
  else if 1 < v.ffN then flushFf v (s.length - (s.length - v.ffSrcstart.length))
  else some v

/-- `sproto_pack(s, |s|, mem, bufsz)`: the size it returns and the output. -/
def sprotoPack (s : Bytes) (mem : Nat → UInt8) (bufsz : Int) : Option (Nat × (Nat → UInt8)) := do
  let v ← packRounds s { ffSrcstart := [], ffDesstart := 0, ffN := 0, size := 0, bufsz := bufsz, mem := mem }
    ((s.length + 7) / 8)
  let v ← packEnd s v
  some (v.size, v.mem)

/-- The output size `lpack` reserves for a source of `sz` bytes. -/
def packBound (sz : Nat) : Nat := (sz + 2047) / 2048 * 2 + sz + 2

/-- How `sproto_unpack` ends without a size: the stream is refused (`return -1`), or a byte
beyond the source is read. -/
inductive UnpackFail where
  | invalid
  | beyond
deriving Repr, DecidableEq

/-- The variables of `sproto_unpack`. -/
structure UnpackVars where
  src : Bytes
  srcsz : Int
  buffer : Nat
  bufsz : Int
  size : Nat
  mem : Nat → UInt8

/-- One write of the inner loop, `if (bufsz > 0) { *buffer = ..; --bufsz; ++buffer; }`. -/
def unpackPut (v : UnpackVars) (b : Except UnpackFail UInt8) : Except UnpackFail UnpackVars :=
  if 0 < v.bufsz then do
    let b ← b
    pure { v with mem := Mem.blit v.mem v.buffer [b], bufsz := v.bufsz - 1, buffer := v.buffer + 1 }
  else pure v

def readByte : Bytes → Except UnpackFail UInt8
  | [] => .error .beyond
  | b :: _ => .ok b

/-- The inner loop of `sproto_unpack`, from bit `i` on with `k` bits to go. -/
def unpackSeg (header : Nat) : Nat → Nat → UnpackVars → Except UnpackFail UnpackVars
  | _, 0, v => .ok v
  | i, k + 1, v =>
    if (header >>> i) &&& 1 = 1 then
      if v.srcsz < 0 then .error .invalid
      else do
        let w ← unpackPut v (readByte v.src)
        unpackSeg header (i + 1) k { w with src := w.src.drop 1, srcsz := w.srcsz - 1, size := w.size + 1 }
    else do
      let w ← unpackPut v (.ok 0)
      unpackSeg header (i + 1) k { w with size := w.size + 1 }

/-- `if (bufsz >= n) memcpy(buffer, src, n)`. -/
def unpackCopy (v : UnpackVars) (n : Nat) : Except UnpackFail (Nat → UInt8) :=
  if (n : Int) ≤ v.bufsz then
    match readBytes v.src n with
    | some bytes => .ok (Mem.blit v.mem v.buffer bytes)
    | none => .error .beyond
  else .ok v.mem

/-- The branch `header == 0xff`, with `src` past the header. -/
def unpackFf (v : UnpackVars) : Except UnpackFail UnpackVars :=
  if v.srcsz < 0 then .error .invalid
  else do
    let c ← readByte v.src
    let n := (c.toNat + 1) * 8
    if v.srcsz < n + 1 then .error .invalid
    else
      let v := { v with srcsz := v.srcsz - (n + 1), src := v.src.drop 1 }
      let mem ← unpackCopy v n
      .ok { v with mem := mem, bufsz := v.bufsz - n, buffer := v.buffer + n, src := v.src.drop n,
                   size := v.size + n }

/-- One round of the loop of `sproto_unpack`. -/
def unpackRound (v : UnpackVars) : Except UnpackFail UnpackVars := do
  let header ← readByte v.src
  let v := { v with srcsz := v.srcsz - 1, src := v.src.drop 1 }
  if header = 0xff then unpackFf v else unpackSeg header.toNat 0 8 v

/-- The loop of `sproto_unpack`; a round takes at least one byte of `srcsz`. -/
def unpackLoop : Nat → UnpackVars → Except UnpackFail UnpackVars
  | 0, v => .ok v
  | fuel + 1, v =>
    if 0 < v.srcsz then do
      let v ← unpackRound v
      unpackLoop fuel v
    else .ok v

/-- `sproto_unpack(p, |p|, mem, bufsz)`: the size it returns and the output. -/
def sprotoUnpack (p : Bytes) (mem : Nat → UInt8) (bufsz : Int) :
    Except UnpackFail (Nat × (Nat → UInt8)) := do
  let v ← unpackLoop p.length
    { src := p, srcsz := p.length, buffer := 0, bufsz := bufsz, size := 0, mem := mem }
  .ok (v.size, v.mem)

end Sproto
end Skynet
