import Skynet.Lib.Endian
import Skynet.Lib.Feistel
import Skynet.Lib.Outcome
import Skynet.Crypt.Hex

/-!
# Skynet.Crypt.Des

`desencode` and `desdecode` of `lua-crypt.c`.

* `exchange` : the line `T = ((X >> k) ^ Y) & m; Y ^= T; X ^= (T << k)`, of which the permutations are made. The source
  has no shift where `k` is 0.
* `DesError.overflow` : a length that is no `int`, or an `int` counter that runs over. `DesError.outOfBounds` : a read
  of `buffer[-1]`.

* `des_crypt_reversed` : a block is decrypted by the schedule in the reverse order.
* `unpad_ok_iff` : the buffers that end in a padding.
* `desdecode_iff_desencode`, `desdecode_outOfBounds_iff` : how `desdecode` ends.
-/

namespace Skynet
namespace Crypt

inductive DesError where
  /-- "Invalid key size %d, need 8 bytes" -/
  | keySize (sz : Nat)
  /-- "Invalid des crypt text length %d" -/
  | textLength (sz : Nat)
  /-- "Invalid des crypt text" -/
  | text
  | overflow
  | outOfBounds
deriving Repr, DecidableEq

/-! ### The tables -/

def SB1 : List UInt32 :=
  [0x01010400, 0x00000000, 0x00010000, 0x01010404, 0x01010004, 0x00010404, 0x00000004, 0x00010000,
    0x00000400, 0x01010400, 0x01010404, 0x00000400, 0x01000404, 0x01010004, 0x01000000, 0x00000004,
    0x00000404, 0x01000400, 0x01000400, 0x00010400, 0x00010400, 0x01010000, 0x01010000, 0x01000404,
    0x00010004, 0x01000004, 0x01000004, 0x00010004, 0x00000000, 0x00000404, 0x00010404, 0x01000000,
    0x00010000, 0x01010404, 0x00000004, 0x01010000, 0x01010400, 0x01000000, 0x01000000, 0x00000400,
    0x01010004, 0x00010000, 0x00010400, 0x01000004, 0x00000400, 0x00000004, 0x01000404, 0x00010404,
    0x01010404, 0x00010004, 0x01010000, 0x01000404, 0x01000004, 0x00000404, 0x00010404, 0x01010400,
    0x00000404, 0x01000400, 0x01000400, 0x00000000, 0x00010004, 0x00010400, 0x00000000, 0x01010004]

def SB2 : List UInt32 :=
  [0x80108020, 0x80008000, 0x00008000, 0x00108020, 0x00100000, 0x00000020, 0x80100020, 0x80008020,
    0x80000020, 0x80108020, 0x80108000, 0x80000000, 0x80008000, 0x00100000, 0x00000020, 0x80100020,
    0x00108000, 0x00100020, 0x80008020, 0x00000000, 0x80000000, 0x00008000, 0x00108020, 0x80100000,
    0x00100020, 0x80000020, 0x00000000, 0x00108000, 0x00008020, 0x80108000, 0x80100000, 0x00008020,
    0x00000000, 0x00108020, 0x80100020, 0x00100000, 0x80008020, 0x80100000, 0x80108000, 0x00008000,
    0x80100000, 0x80008000, 0x00000020, 0x80108020, 0x00108020, 0x00000020, 0x00008000, 0x80000000,
    0x00008020, 0x80108000, 0x00100000, 0x80000020, 0x00100020, 0x80008020, 0x80000020, 0x00100020,
    0x00108000, 0x00000000, 0x80008000, 0x00008020, 0x80000000, 0x80100020, 0x80108020, 0x00108000]

def SB3 : List UInt32 :=
  [0x00000208, 0x08020200, 0x00000000, 0x08020008, 0x08000200, 0x00000000, 0x00020208, 0x08000200,
    0x00020008, 0x08000008, 0x08000008, 0x00020000, 0x08020208, 0x00020008, 0x08020000, 0x00000208,
    0x08000000, 0x00000008, 0x08020200, 0x00000200, 0x00020200, 0x08020000, 0x08020008, 0x00020208,
    0x08000208, 0x00020200, 0x00020000, 0x08000208, 0x00000008, 0x08020208, 0x00000200, 0x08000000,
    0x08020200, 0x08000000, 0x00020008, 0x00000208, 0x00020000, 0x08020200, 0x08000200, 0x00000000,
    0x00000200, 0x00020008, 0x08020208, 0x08000200, 0x08000008, 0x00000200, 0x00000000, 0x08020008,
    0x08000208, 0x00020000, 0x08000000, 0x08020208, 0x00000008, 0x00020208, 0x00020200, 0x08000008,
    0x08020000, 0x08000208, 0x00000208, 0x08020000, 0x00020208, 0x00000008, 0x08020008, 0x00020200]

def SB4 : List UInt32 :=
  [0x00802001, 0x00002081, 0x00002081, 0x00000080, 0x00802080, 0x00800081, 0x00800001, 0x00002001,
    0x00000000, 0x00802000, 0x00802000, 0x00802081, 0x00000081, 0x00000000, 0x00800080, 0x00800001,
    0x00000001, 0x00002000, 0x00800000, 0x00802001, 0x00000080, 0x00800000, 0x00002001, 0x00002080,
    0x00800081, 0x00000001, 0x00002080, 0x00800080, 0x00002000, 0x00802080, 0x00802081, 0x00000081,
    0x00800080, 0x00800001, 0x00802000, 0x00802081, 0x00000081, 0x00000000, 0x00000000, 0x00802000,
    0x00002080, 0x00800080, 0x00800081, 0x00000001, 0x00802001, 0x00002081, 0x00002081, 0x00000080,
    0x00802081, 0x00000081, 0x00000001, 0x00002000, 0x00800001, 0x00002001, 0x00802080, 0x00800081,
    0x00002001, 0x00002080, 0x00800000, 0x00802001, 0x00000080, 0x00800000, 0x00002000, 0x00802080]

def SB5 : List UInt32 :=
  [0x00000100, 0x02080100, 0x02080000, 0x42000100, 0x00080000, 0x00000100, 0x40000000, 0x02080000,
    0x40080100, 0x00080000, 0x02000100, 0x40080100, 0x42000100, 0x42080000, 0x00080100, 0x40000000,
    0x02000000, 0x40080000, 0x40080000, 0x00000000, 0x40000100, 0x42080100, 0x42080100, 0x02000100,
    0x42080000, 0x40000100, 0x00000000, 0x42000000, 0x02080100, 0x02000000, 0x42000000, 0x00080100,
    0x00080000, 0x42000100, 0x00000100, 0x02000000, 0x40000000, 0x02080000, 0x42000100, 0x40080100,
    0x02000100, 0x40000000, 0x42080000, 0x02080100, 0x40080100, 0x00000100, 0x02000000, 0x42080000,
    0x42080100, 0x00080100, 0x42000000, 0x42080100, 0x02080000, 0x00000000, 0x40080000, 0x42000000,
    0x00080100, 0x02000100, 0x40000100, 0x00080000, 0x00000000, 0x40080000, 0x02080100, 0x40000100]

def SB6 : List UInt32 :=
  [0x20000010, 0x20400000, 0x00004000, 0x20404010, 0x20400000, 0x00000010, 0x20404010, 0x00400000,
    0x20004000, 0x00404010, 0x00400000, 0x20000010, 0x00400010, 0x20004000, 0x20000000, 0x00004010,
    0x00000000, 0x00400010, 0x20004010, 0x00004000, 0x00404000, 0x20004010, 0x00000010, 0x20400010,
    0x20400010, 0x00000000, 0x00404010, 0x20404000, 0x00004010, 0x00404000, 0x20404000, 0x20000000,
    0x20004000, 0x00000010, 0x20400010, 0x00404000, 0x20404010, 0x00400000, 0x00004010, 0x20000010,
    0x00400000, 0x20004000, 0x20000000, 0x00004010, 0x20000010, 0x20404010, 0x00404000, 0x20400000,
    0x00404010, 0x20404000, 0x00000000, 0x20400010, 0x00000010, 0x00004000, 0x20400000, 0x00404010,
    0x00004000, 0x00400010, 0x20004010, 0x00000000, 0x20404000, 0x20000000, 0x00400010, 0x20004010]

def SB7 : List UInt32 :=
  [0x00200000, 0x04200002, 0x04000802, 0x00000000, 0x00000800, 0x04000802, 0x00200802, 0x04200800,
    0x04200802, 0x00200000, 0x00000000, 0x04000002, 0x00000002, 0x04000000, 0x04200002, 0x00000802,
    0x04000800, 0x00200802, 0x00200002, 0x04000800, 0x04000002, 0x04200000, 0x04200800, 0x00200002,
    0x04200000, 0x00000800, 0x00000802, 0x04200802, 0x00200800, 0x00000002, 0x04000000, 0x00200800,
    0x04000000, 0x00200800, 0x00200000, 0x04000802, 0x04000802, 0x04200002, 0x04200002, 0x00000002,
    0x00200002, 0x04000000, 0x04000800, 0x00200000, 0x04200800, 0x00000802, 0x00200802, 0x04200800,
    0x00000802, 0x04000002, 0x04200802, 0x04200000, 0x00200800, 0x00000000, 0x00000002, 0x04200802,
    0x00000000, 0x00200802, 0x04200000, 0x00000800, 0x04000002, 0x04000800, 0x00000800, 0x00200002]

def SB8 : List UInt32 :=
  [0x10001040, 0x00001000, 0x00040000, 0x10041040, 0x10000000, 0x10001040, 0x00000040, 0x10000000,
    0x00040040, 0x10040000, 0x10041040, 0x00041000, 0x10041000, 0x00041040, 0x00001000, 0x00000040,
    0x10040000, 0x10000040, 0x10001000, 0x00001040, 0x00041000, 0x00040040, 0x10040040, 0x10041000,
    0x00001040, 0x00000000, 0x00000000, 0x10040040, 0x10000040, 0x10001000, 0x00041040, 0x00040000,
    0x00041040, 0x00040000, 0x10041000, 0x00001000, 0x00000040, 0x10040040, 0x00001000, 0x00041040,
    0x10001000, 0x00000040, 0x10000040, 0x10040000, 0x10040040, 0x10000000, 0x00040000, 0x10001040,
    0x00000000, 0x10041040, 0x00040040, 0x10000040, 0x10040000, 0x10001000, 0x10001040, 0x00000000,
    0x10041040, 0x00041000, 0x00041000, 0x00001040, 0x00001040, 0x00040040, 0x10000000, 0x10041000]

def LHs : List UInt32 :=
  [0x00000000, 0x00000001, 0x00000100, 0x00000101, 0x00010000, 0x00010001, 0x00010100, 0x00010101,
    0x01000000, 0x01000001, 0x01000100, 0x01000101, 0x01010000, 0x01010001, 0x01010100, 0x01010101]

def RHs : List UInt32 :=
  [0x00000000, 0x01000000, 0x00010000, 0x01010000, 0x00000100, 0x01000100, 0x00010100, 0x01010100,
    0x00000001, 0x01000001, 0x00010001, 0x01010001, 0x00000101, 0x01000101, 0x00010101, 0x01010101]

/-! ### The block cipher -/

def GET_UINT32 (b : Bytes) (i : Nat) : UInt32 := UInt32.ofNat (Endian.ofBe ((b.drop i).take 4))

def PUT_UINT32 (n : UInt32) : Bytes := Endian.be 4 n.toNat

def exchange (k m X Y : UInt32) : UInt32 × UInt32 :=
  let T := ((X >>> k) ^^^ Y) &&& m
  (X ^^^ (T <<< k), Y ^^^ T)

def DES_IP (X Y : UInt32) : UInt32 × UInt32 :=
  let (X, Y) := exchange 4 0x0F0F0F0F X Y
  let (X, Y) := exchange 16 0x0000FFFF X Y
  let (Y, X) := exchange 2 0x33333333 Y X
  let (Y, X) := exchange 8 0x00FF00FF Y X
  let Y := ((Y <<< 1) ||| (Y >>> 31)) &&& 0xFFFFFFFF
  let (X, Y) := exchange 0 0xAAAAAAAA X Y
  let X := ((X <<< 1) ||| (X >>> 31)) &&& 0xFFFFFFFF
  (X, Y)

def DES_FP (X Y : UInt32) : UInt32 × UInt32 :=
  let X := ((X <<< 31) ||| (X >>> 1)) &&& 0xFFFFFFFF
  let (X, Y) := exchange 0 0xAAAAAAAA X Y
  let Y := ((Y <<< 31) ||| (Y >>> 1)) &&& 0xFFFFFFFF
  let (Y, X) := exchange 8 0x00FF00FF Y X
  let (Y, X) := exchange 2 0x33333333 Y X
  let (X, Y) := exchange 16 0x0000FFFF X Y
  let (X, Y) := exchange 4 0x0F0F0F0F X Y
  (X, Y)

def box (table : List UInt32) (T : UInt32) : UInt32 := table.getD (T &&& 0x3F).toNat 0

/-- `Y` after `DES_ROUND(X, Y)`, with the two words of the schedule that it takes. -/
def DES_ROUND (k k' X Y : UInt32) : UInt32 :=
  let T := k ^^^ X
  let Y := Y ^^^ (box SB8 T ^^^ box SB6 (T >>> 8) ^^^ box SB4 (T >>> 16) ^^^ box SB2 (T >>> 24))
  let T := k' ^^^ ((X <<< 28) ||| (X >>> 4))
  Y ^^^ (box SB7 T ^^^ box SB5 (T >>> 8) ^^^ box SB3 (T >>> 16) ^^^ box SB1 (T >>> 24))

/-- The lines `DES_ROUND(Y, X); DES_ROUND(X, Y);` as long as there are words. -/
def desRounds : List UInt32 → UInt32 × UInt32 → UInt32 × UInt32
  | k₀ :: k₁ :: k₂ :: k₃ :: SK, (X, Y) =>
    let X := DES_ROUND k₀ k₁ Y X
    let Y := DES_ROUND k₂ k₃ X Y
    desRounds SK (X, Y)
  | _, s => s

def des_crypt (SK : List UInt32) (input : Bytes) : Bytes :=
  let (X, Y) := DES_IP (GET_UINT32 input 0) (GET_UINT32 input 4)
  let (X, Y) := desRounds SK (X, Y)
  let (Y, X) := DES_FP Y X
  PUT_UINT32 Y ++ PUT_UINT32 X

/-! ### The key schedule -/

def half (table : List UInt32) (X : UInt32) : UInt32 := table.getD (X &&& 0xF).toNat 0

def rotateHalf (X s : UInt32) : UInt32 := ((X <<< s) ||| (X >>> (28 - s))) &&& 0x0FFFFFFF

def lshift (X s m : UInt32) : UInt32 := (X <<< s) &&& m

def rshift (X s m : UInt32) : UInt32 := (X >>> s) &&& m

/-- The loop of `des_main_ks`, with the turns that are left. -/
def subkeys : Nat → Nat → UInt32 → UInt32 → List UInt32
  | 0, _, _, _ => []
  | n + 1, i, X, Y =>
    let s : UInt32 := if i < 2 ∨ i = 8 ∨ i = 15 then 1 else 2
    let X := rotateHalf X s
    let Y := rotateHalf Y s
    let k : UInt32 := lshift X 4 0x24000000 ||| lshift X 28 0x10000000
      ||| lshift X 14 0x08000000 ||| lshift X 18 0x02080000
      ||| lshift X 6 0x01000000 ||| lshift X 9 0x00200000
      ||| rshift X 1 0x00100000 ||| lshift X 10 0x00040000
      ||| lshift X 2 0x00020000 ||| rshift X 10 0x00010000
      ||| rshift Y 13 0x00002000 ||| rshift Y 4 0x00001000
      ||| lshift Y 6 0x00000800 ||| rshift Y 1 0x00000400
      ||| rshift Y 14 0x00000200 ||| (Y &&& 0x00000100)
      ||| rshift Y 5 0x00000020 ||| rshift Y 10 0x00000010
      ||| rshift Y 3 0x00000008 ||| rshift Y 18 0x00000004
      ||| rshift Y 26 0x00000002 ||| rshift Y 24 0x00000001
    let k' : UInt32 := lshift X 15 0x20000000 ||| lshift X 17 0x10000000
      ||| lshift X 10 0x08000000 ||| lshift X 22 0x04000000
      ||| rshift X 2 0x02000000 ||| lshift X 1 0x01000000
      ||| lshift X 16 0x00200000 ||| lshift X 11 0x00100000
      ||| lshift X 3 0x00080000 ||| rshift X 6 0x00040000
      ||| lshift X 15 0x00020000 ||| rshift X 4 0x00010000
      ||| rshift Y 2 0x00002000 ||| lshift Y 8 0x00001000
      ||| rshift Y 14 0x00000808 ||| rshift Y 9 0x00000400
      ||| (Y &&& 0x00000200) ||| lshift Y 7 0x00000100
      ||| rshift Y 7 0x00000020 ||| rshift Y 3 0x00000011
      ||| lshift Y 2 0x00000004 ||| rshift Y 21 0x00000002
    k :: k' :: subkeys n (i + 1) X Y

def des_main_ks (key : Bytes) : List UInt32 :=
  let X := GET_UINT32 key 0
  let Y := GET_UINT32 key 4
  let (Y, X) := exchange 4 0x0F0F0F0F Y X
  let (Y, X) := exchange 0 0x10101010 Y X
  let X := (half LHs X <<< 3) ||| (half LHs (X >>> 8) <<< 2)
    ||| (half LHs (X >>> 16) <<< 1) ||| half LHs (X >>> 24)
    ||| (half LHs (X >>> 5) <<< 7) ||| (half LHs (X >>> 13) <<< 6)
    ||| (half LHs (X >>> 21) <<< 5) ||| (half LHs (X >>> 29) <<< 4)
  let Y := (half RHs (Y >>> 1) <<< 3) ||| (half RHs (Y >>> 9) <<< 2)
    ||| (half RHs (Y >>> 17) <<< 1) ||| half RHs (Y >>> 25)
    ||| (half RHs (Y >>> 4) <<< 7) ||| (half RHs (Y >>> 12) <<< 6)
    ||| (half RHs (Y >>> 20) <<< 5) ||| (half RHs (Y >>> 28) <<< 4)
  subkeys 16 0 (X &&& 0x0FFFFFFF) (Y &&& 0x0FFFFFFF)

def des_key (key : Bytes) : Except DesError (List UInt32) :=
  if key.length ≠ 8 then .error (.keySize key.length) else .ok (des_main_ks key)

/-- The schedule of `ldesdecode`. -/
def reversed (ESK : List UInt32) : List UInt32 :=
  (List.range 16).flatMap fun j => [ESK.getD (30 - 2 * j) 0, ESK.getD (31 - 2 * j) 0]

/-! ### The text -/

/-- `n` turns of `des_crypt(SK, text+i, buffer+i)`. -/
def cryptLoop (SK : List UInt32) : Nat → Bytes → Bytes
  | 0, _ => []
  | n + 1, text => des_crypt SK (text.take 8) ++ cryptLoop SK n (text.drop 8)

/-- `tail` of `ldesencode`, with `bytes` bytes of the text from `i` on. -/
def desTail (text : Bytes) (i bytes : Nat) : Bytes :=
  (List.range 8).map fun j => if j < bytes then text.getD (i + j) 0 else if j = bytes then 0x80 else 0

def ldesencode (key text : Bytes) : Except DesError Bytes := do
  let SK ← des_key key
  if 2 ^ 31 ≤ text.length then .error .overflow
  let i := text.length / 8 * 8
  return cryptLoop SK (text.length / 8) text ++ des_crypt SK (desTail text i (text.length - i))

/-- The loop over the end of the buffer, with `i + 1`. -/
def paddingLoop (buffer : Bytes) : Nat → Nat → Except DesError Nat
  | 0, padding =>
    -- `i` is -1, which is no less than `textsz-8` as a `size_t`
    if buffer.length = 8 then .error .outOfBounds else .ok padding
  | i + 1, padding =>
    if buffer.length - 8 ≤ i then
      if buffer.getD i 0 = 0 then paddingLoop buffer i (padding + 1)
      else if buffer.getD i 0 = 0x80 then .ok padding
      else .error .text
    else .ok padding

def unpad (buffer : Bytes) : Except DesError Bytes := do
  let padding ← paddingLoop buffer buffer.length 1
  if 8 < padding then .error .text
  return buffer.take (buffer.length - padding)

def ldesdecode (key text : Bytes) : Except DesError Bytes := do
  let ESK ← des_key key
  if text.length % 8 ≠ 0 ∨ text.length = 0 then .error (.textLength text.length)
  if 2 ^ 31 ≤ text.length then .error .overflow
  unpad (cryptLoop (reversed ESK) (text.length / 8) text)

/-! ### The permutations -/

/-- The bits of the mask fit into the word after the shift. -/
def Fits (k m : UInt32) : Prop := (m <<< k) >>> k = m

instance (k m : UInt32) : Decidable (Fits k m) := inferInstanceAs (Decidable (_ = _))

theorem shift_shift_and {k m : UInt32} (h : Fits k m) (x : UInt32) : ((x &&& m) <<< k) >>> k = x &&& m := by
  have hbits := congrArg UInt32.toBitVec h
  apply UInt32.toBitVec_inj.1
  simp only [UInt32.toBitVec_shiftRight, UInt32.toBitVec_shiftLeft, UInt32.toBitVec_and] at hbits ⊢
  generalize (k.toBitVec % 32).toNat = n at hbits ⊢
  ext i hi
  have hbit := congrArg (fun b => b[i]) hbits
  simp at hbit ⊢
  cases hm : m.toBitVec[i] <;> rw [hm] at hbit <;> simp_all [BitVec.getLsbD_eq_getElem]

theorem xor_xor_self (x y : UInt32) : (x ^^^ y) ^^^ y = x := by
  rw [UInt32.xor_assoc, UInt32.xor_self, UInt32.xor_zero]

theorem xor_xor_xor_self (x y z : UInt32) : (x ^^^ z) ^^^ (y ^^^ z) = x ^^^ y := by
  rw [UInt32.xor_comm y z, ← UInt32.xor_assoc, xor_xor_self]

/-- A second `exchange` undoes the first. -/
theorem exchange_exchange {k m : UInt32} (h : Fits k m) (X Y : UInt32) :
    exchange k m (exchange k m X Y).1 (exchange k m X Y).2 = (X, Y) := by
  simp only [exchange, UInt32.shiftRight_xor, shift_shift_and h, xor_xor_xor_self, xor_xor_self]

theorem fits_4 : Fits 4 0x0F0F0F0F := by decide

theorem fits_16 : Fits 16 0x0000FFFF := by decide

theorem fits_2 : Fits 2 0x33333333 := by decide

theorem fits_8 : Fits 8 0x00FF00FF := by decide

theorem fits_0 : Fits 0 0xAAAAAAAA := by decide

theorem and_ones (x : UInt32) : x &&& 0xFFFFFFFF = x := UInt32.and_neg_one

theorem rotate_right_left (x : UInt32) :
    (((x <<< 1) ||| (x >>> 31)) <<< 31) ||| (((x <<< 1) ||| (x >>> 31)) >>> 1) = x := by
  have h : (x.toBitVec.rotateLeft 1).rotateLeft 31 = x.toBitVec := by
    ext i hi
    simp only [BitVec.getElem_rotateLeft]
    split <;> split <;> first | omega | (congr 1; omega)
  apply UInt32.toBitVec_inj.1
  simpa [BitVec.rotateLeft_def] using h

theorem rotate_left_right (x : UInt32) :
    (((x <<< 31) ||| (x >>> 1)) <<< 1) ||| (((x <<< 31) ||| (x >>> 1)) >>> 31) = x := by
  have h : (x.toBitVec.rotateLeft 31).rotateLeft 1 = x.toBitVec := by
    ext i hi
    simp only [BitVec.getElem_rotateLeft]
    split <;> split <;> first | omega | (congr 1; omega)
  apply UInt32.toBitVec_inj.1
  simpa [BitVec.rotateLeft_def] using h

theorem DES_FP_IP (X Y : UInt32) : DES_FP (DES_IP X Y).1 (DES_IP X Y).2 = (X, Y) := by
  simp only [DES_IP, DES_FP, and_ones, rotate_right_left, exchange_exchange fits_16, exchange_exchange fits_4,
    exchange_exchange fits_2, exchange_exchange fits_8, exchange_exchange fits_0]

theorem DES_IP_FP (X Y : UInt32) : DES_IP (DES_FP X Y).1 (DES_FP X Y).2 = (X, Y) := by
  simp only [DES_IP, DES_FP, and_ones, rotate_left_right, exchange_exchange fits_16, exchange_exchange fits_4,
    exchange_exchange fits_2, exchange_exchange fits_8, exchange_exchange fits_0]

/-! ### The rounds -/

/-- What a round is to the half that it changes. -/
def desF (k k' X : UInt32) : UInt32 := DES_ROUND k k' X 0

theorem DES_ROUND_eq (k k' X Y : UInt32) : DES_ROUND k k' X Y = Y ^^^ desF k k' X := by
  simp only [DES_ROUND, desF, UInt32.zero_xor, UInt32.xor_assoc]

/-- The functions of the rounds, two words of the schedule each. -/
def roundFunctions : List UInt32 → List (UInt32 → UInt32)
  | k :: k' :: SK => desF k k' :: roundFunctions SK
  | _ => []

theorem desRounds_eq (SK : List UInt32) (n : Nat) (hn : SK.length = 4 * n) (s : UInt32 × UInt32) :
    desRounds SK s = Feistel.run (· ^^^ ·) (roundFunctions SK) s := by
  induction n generalizing SK s with
  | zero =>
    rw [List.length_eq_zero_iff.mp hn]
    rfl
  | succ n ih =>
    obtain ⟨k₀, SK, rfl⟩ := List.exists_cons_of_length_pos (by omega : 0 < SK.length)
    obtain ⟨k₁, SK, rfl⟩ := List.exists_cons_of_length_pos (by simp at hn; omega : 0 < SK.length)
    obtain ⟨k₂, SK, rfl⟩ := List.exists_cons_of_length_pos (by simp at hn; omega : 0 < SK.length)
    obtain ⟨k₃, SK, rfl⟩ := List.exists_cons_of_length_pos (by simp at hn; omega : 0 < SK.length)
    obtain ⟨X, Y⟩ := s
    simp only [desRounds, roundFunctions, Feistel.run_cons, Feistel.round, DES_ROUND_eq]
    exact ih SK (by simp at hn; omega) _

theorem roundFunctions_getD (SK : List UInt32) (n : Nat) (hn : SK.length = 2 * n) :
    roundFunctions SK = (List.range n).map fun j => desF (SK.getD (2 * j) 0) (SK.getD (2 * j + 1) 0) := by
  induction n generalizing SK with
  | zero =>
    rw [List.length_eq_zero_iff.mp hn]
    rfl
  | succ n ih =>
    obtain ⟨k, SK, rfl⟩ := List.exists_cons_of_length_pos (by omega : 0 < SK.length)
    obtain ⟨k', SK, rfl⟩ := List.exists_cons_of_length_pos (by simp at hn; omega : 0 < SK.length)
    rw [roundFunctions, ih SK (by simp at hn; omega), List.range_succ_eq_map, List.map_cons, List.map_map]
    rfl

theorem roundFunctions_pairs (g h : Nat → UInt32) (js : List Nat) :
    roundFunctions (js.flatMap fun j => [g j, h j]) = js.map fun j => desF (g j) (h j) := by
  induction js with
  | nil => rfl
  | cons j js ih => simp [roundFunctions, ih]

@[simp] theorem reversed_length (SK : List UInt32) : (reversed SK).length = 32 := by
  simp [reversed]

/-- The schedule of `ldesdecode` has the rounds in the reverse order. -/
theorem roundFunctions_reversed {SK : List UInt32} (hSK : SK.length = 32) :
    roundFunctions (reversed SK) = (roundFunctions SK).reverse := by
  rw [reversed, roundFunctions_pairs, roundFunctions_getD SK 16 hSK]
  rfl

/-! ### Blocks -/

theorem GET_PUT (x y : UInt32) :
    GET_UINT32 (PUT_UINT32 x ++ PUT_UINT32 y) 0 = x ∧ GET_UINT32 (PUT_UINT32 x ++ PUT_UINT32 y) 4 = y := by
  have hword : ∀ x : UInt32, UInt32.ofNat (Endian.ofBe (PUT_UINT32 x)) = x := by
    intro x
    have hlt : x.toNat < 256 ^ 4 := x.toNat_lt
    rw [PUT_UINT32, Endian.ofBe_be, Nat.mod_eq_of_lt hlt, UInt32.ofNat_toNat]
  have hlen : ∀ x, (PUT_UINT32 x).length = 4 := fun x => Endian.be_length 4 x.toNat
  constructor
  · rw [GET_UINT32, List.drop_zero, List.take_left' (hlen x), hword]
  · rw [GET_UINT32, List.drop_left' (hlen x), List.take_of_length_le (Nat.le_of_eq (hlen y)), hword]

theorem PUT_GET {b : Bytes} (hb : b.length = 8) : PUT_UINT32 (GET_UINT32 b 0) ++ PUT_UINT32 (GET_UINT32 b 4) = b := by
  have hword : ∀ bs : Bytes, bs.length = 4 → PUT_UINT32 (UInt32.ofNat (Endian.ofBe bs)) = bs := by
    intro bs hbs
    have hlt : Endian.ofBe bs < 2 ^ 32 := by
      have := Endian.ofLe_lt bs.reverse
      rw [List.length_reverse, hbs] at this
      exact this
    rw [PUT_UINT32, UInt32.toNat_ofNat_of_lt' hlt, ← hbs, Endian.be_ofBe]
  rw [GET_UINT32, GET_UINT32, hword _ (by simp [hb]), hword _ (by simp [hb]), List.drop_zero]
  rw [List.take_of_length_le (by simp [hb] : (b.drop 4).length ≤ 4), List.take_append_drop]

@[simp] theorem des_crypt_length (SK : List UInt32) (b : Bytes) : (des_crypt SK b).length = 8 := by
  simp [des_crypt, PUT_UINT32]

/-- `des_crypt` with two schedules, of which the second has the rounds of the first in the reverse order. -/
theorem des_crypt_des_crypt {SK SK' : List UInt32} (hSK : SK.length = 32) (hSK' : SK'.length = 32)
    (hrev : roundFunctions SK' = (roundFunctions SK).reverse) {b : Bytes} (hb : b.length = 8) :
    des_crypt SK' (des_crypt SK b) = b := by
  have hback : ∀ t : UInt32 × UInt32, Feistel.run (· ^^^ ·) (roundFunctions SK).reverse
      ((Feistel.run (· ^^^ ·) (roundFunctions SK) t).2, (Feistel.run (· ^^^ ·) (roundFunctions SK) t).1) = (t.2, t.1) :=
    Feistel.run_reverse_swap xor_xor_self (roundFunctions SK)
  simp only [des_crypt, desRounds_eq SK 8 hSK, desRounds_eq SK' 8 hSK', hrev, GET_PUT, DES_IP_FP, hback, DES_FP_IP,
    PUT_GET hb]

/-! ### The text in blocks -/

theorem des_main_ks_length (key : Bytes) : (des_main_ks key).length = 32 := by
  have h : ∀ n i X Y, (subkeys n i X Y).length = 2 * n := by
    intro n
    induction n with
    | zero => intro i X Y; rfl
    | succ n ih =>
      intro i X Y
      simp only [subkeys, List.length_cons, ih]
      omega
  exact h 16 0 _ _

@[simp] theorem cryptLoop_length (SK : List UInt32) (n : Nat) (text : Bytes) :
    (cryptLoop SK n text).length = 8 * n := by
  induction n generalizing text with
  | zero => rfl
  | succ n ih =>
    rw [cryptLoop, List.length_append, des_crypt_length, ih]
    omega

/-- The loop only reads the blocks that it crypts. -/
theorem cryptLoop_append (SK : List UInt32) (m n : Nat) {s : Bytes} (hs : s.length = 8 * m) (t : Bytes) :
    cryptLoop SK (m + n) (s ++ t) = cryptLoop SK m s ++ cryptLoop SK n t := by
  induction m generalizing s with
  | zero =>
    rw [List.length_eq_zero_iff.mp hs, Nat.zero_add]
    rfl
  | succ m ih =>
    have hdrop : (s.drop 8).length = 8 * m := by
      rw [List.length_drop]
      omega
    rw [Nat.succ_add, cryptLoop, cryptLoop, List.take_append_of_le_length (by omega),
      List.drop_append_of_le_length (by omega), ih hdrop, List.append_assoc]

theorem cryptLoop_cryptLoop {SK SK' : List UInt32} (hSK : SK.length = 32) (hSK' : SK'.length = 32)
    (hrev : roundFunctions SK' = (roundFunctions SK).reverse) (n : Nat) {s : Bytes} (hs : s.length = 8 * n) :
    cryptLoop SK' n (cryptLoop SK n s) = s := by
  induction n generalizing s with
  | zero => rw [List.length_eq_zero_iff.mp hs]; rfl
  | succ n ih =>
    have htake : (s.take 8).length = 8 := by
      rw [List.length_take]
      omega
    have hdrop : (s.drop 8).length = 8 * n := by
      rw [List.length_drop]
      omega
    rw [cryptLoop, cryptLoop, List.take_left' (des_crypt_length SK _), List.drop_left' (des_crypt_length SK _),
      ih hdrop, des_crypt_des_crypt hSK hSK' hrev htake, List.take_append_drop]

/-- A text with its padding. -/
def padded (text : Bytes) : Bytes := text ++ 0x80 :: List.replicate (7 - text.length % 8) 0

theorem padded_length (text : Bytes) : (padded text).length = 8 * (text.length / 8 + 1) := by
  simp only [padded, List.length_append, List.length_cons, List.length_replicate]
  omega

theorem desTail_eq (text : Bytes) {r : Nat} (hr : text.length % 8 = r) :
    desTail text (text.length / 8 * 8) r = text.drop (text.length / 8 * 8) ++ 0x80 :: List.replicate (7 - r) 0 := by
  have hlen : (text.drop (text.length / 8 * 8)).length = r := by
    rw [List.length_drop]
    omega
  apply List.ext_getElem
  · simp only [desTail, List.length_map, List.length_range, List.length_append, hlen, List.length_cons,
      List.length_replicate]
    omega
  · intro j hj hj'
    simp only [desTail, List.length_map, List.length_range] at hj
    simp only [desTail, List.getElem_map, List.getElem_range]
    by_cases hlt : j < r
    · rw [if_pos hlt, List.getElem_append_left (by omega), List.getElem_drop]
      simp [List.getElem?_eq_getElem (by omega : text.length / 8 * 8 + j < text.length)]
    · rw [if_neg hlt, List.getElem_append_right (by omega)]
      simp only [hlen]
      obtain ⟨k, rfl⟩ := Nat.exists_eq_add_of_le (Nat.le_of_not_lt hlt)
      cases k with
      | zero => simp
      | succ k => simp [Nat.add_sub_cancel_left]

theorem ldesencode_eq (key text : Bytes) : ldesencode key text =
    if key.length ≠ 8 then .error (.keySize key.length)
    else if 2 ^ 31 ≤ text.length then .error .overflow
    else .ok (cryptLoop (des_main_ks key) (text.length / 8 + 1) (padded text)) := by
  have htail : cryptLoop (des_main_ks key) (text.length / 8 + 1) (padded text) =
      cryptLoop (des_main_ks key) (text.length / 8) text ++
        des_crypt (des_main_ks key) (desTail text (text.length / 8 * 8) (text.length - text.length / 8 * 8)) := by
    have htake : (text.take (text.length / 8 * 8)).length = 8 * (text.length / 8) := by
      rw [List.length_take]
      omega
    have hsplit : padded text = text.take (text.length / 8 * 8) ++
        (desTail text (text.length / 8 * 8) (text.length % 8)) := by
      rw [desTail_eq text rfl, ← List.append_assoc, List.take_append_drop, padded]
    have hloop : cryptLoop (des_main_ks key) (text.length / 8) text =
        cryptLoop (des_main_ks key) (text.length / 8) (text.take (text.length / 8 * 8)) := by
      have := cryptLoop_append (des_main_ks key) (text.length / 8) 0 htake (text.drop (text.length / 8 * 8))
      rw [List.take_append_drop, Nat.add_zero] at this
      rw [this, cryptLoop, List.append_nil]
    have hmod : text.length - text.length / 8 * 8 = text.length % 8 := by omega
    have htaillen : (desTail text (text.length / 8 * 8) (text.length % 8)).length = 8 := by simp [desTail]
    rw [hsplit, cryptLoop_append _ _ _ htake, hloop, hmod, cryptLoop, cryptLoop, List.append_nil,
      List.take_of_length_le (Nat.le_of_eq htaillen)]
  rw [htail]
  unfold ldesencode des_key
  split
  · rfl
  · by_cases h : 2 ^ 31 ≤ text.length
    · simp only [h, if_true]
      rfl
    · simp only [h, if_false]
      rfl

/-! ### The padding -/

/-- The zeros at the end of the buffer, eight of them at most. -/
theorem paddingLoop_zeros (q : Bytes) {n : Nat} (hn : n ≤ 8) (z p : Nat) (hz : z ≤ n) :
    paddingLoop (q ++ List.replicate n 0) (q.length + z) p =
      paddingLoop (q ++ List.replicate n 0) q.length (p + z) := by
  induction z generalizing p with
  | zero => rfl
  | succ z ih =>
    have hget : (q ++ List.replicate n (0 : UInt8)).getD (q.length + z) 0 = 0 := by
      rw [List.getD_eq_getElem?_getD, List.getElem?_append_right (Nat.le_add_right ..), Nat.add_sub_cancel_left]
      rw [List.getElem?_replicate]
      split <;> rfl
    have hread : (q ++ List.replicate n (0 : UInt8)).length - 8 ≤ q.length + z := by
      rw [List.length_append, List.length_replicate]
      omega
    rw [← Nat.add_assoc, paddingLoop, if_pos hread, if_pos hget, ih (p + 1) (by omega), Nat.add_right_comm,
      Nat.add_assoc]

theorem unpad_last (q : Bytes) {b : UInt8} (hb : b ≠ 0) {z : Nat} (hz : z ≤ 7) :
    unpad (q ++ b :: List.replicate z 0) = if b = 0x80 then .ok q else .error .text := by
  have happ : q ++ b :: List.replicate z (0 : UInt8) = (q ++ [b]) ++ List.replicate z 0 := by simp
  have hlen : ((q ++ [b]) ++ List.replicate z (0 : UInt8)).length = (q ++ [b]).length + z := by
    rw [List.length_append, List.length_replicate]
  have hloop : paddingLoop ((q ++ [b]) ++ List.replicate z 0) ((q ++ [b]).length + z) 1 =
      if b = 0x80 then .ok (1 + z) else .error .text := by
    have hget : ((q ++ [b]) ++ List.replicate z (0 : UInt8)).getD q.length 0 = b := by simp
    have hread : ((q ++ [b]) ++ List.replicate z (0 : UInt8)).length - 8 ≤ q.length := by
      rw [hlen, List.length_append, List.length_singleton]
      omega
    have hone : (q ++ [b]).length = q.length + 1 := by simp
    rw [paddingLoop_zeros (q ++ [b]) (by omega) z 1 (Nat.le_refl z), hone, paddingLoop, if_pos hread, hget, if_neg hb]
  rw [happ, unpad, hlen, hloop]
  split
  · have htake : ((q ++ [b]) ++ List.replicate z (0 : UInt8)).take ((q ++ [b]).length + z - (1 + z)) = q := by
      rw [List.length_append, List.length_singleton, List.append_assoc]
      exact List.take_left' (by omega)
    have hle : ¬8 < 1 + z := by omega
    simp only [bind, Except.bind, hle, if_false, htake]
    rfl
  · rfl

theorem unpad_zeros (q : Bytes) :
    unpad (q ++ List.replicate 8 0) = if q = [] then .error .outOfBounds else .error .text := by
  have hlen : (q ++ List.replicate 8 (0 : UInt8)).length = q.length + 8 := by simp
  rw [unpad, hlen, paddingLoop_zeros q (Nat.le_refl 8) 8 1 (Nat.le_refl 8)]
  cases q with
  | nil => rfl
  | cons b q =>
    have hstop : ¬((b :: q) ++ List.replicate 8 (0 : UInt8)).length - 8 ≤ q.length := by
      rw [hlen, List.length_cons]
      omega
    rw [List.length_cons, paddingLoop, if_neg hstop]
    rfl

/-- The last byte that is not 0, or `n` zeros. -/
theorem exists_last (buffer : Bytes) (n : Nat) (hn : n ≤ buffer.length) :
    (∃ q b z, z < n ∧ b ≠ 0 ∧ buffer = q ++ b :: List.replicate z 0) ∨ ∃ q, buffer = q ++ List.replicate n 0 := by
  induction n with
  | zero => exact .inr ⟨buffer, by simp⟩
  | succ n ih =>
    obtain ⟨q, b, z, hz, hb, hq⟩ | ⟨q, hq⟩ := ih (by omega)
    · exact .inl ⟨q, b, z, by omega, hb, hq⟩
    · have hlen := congrArg List.length hq
      rw [List.length_append, List.length_replicate] at hlen
      obtain ⟨q, b, rfl⟩ := List.eq_nil_or_concat' q |>.resolve_left (by
        rintro rfl
        rw [List.length_nil] at hlen
        omega)
      by_cases hb : b = 0
      · exact .inr ⟨q, by rw [hq, hb, List.append_assoc, List.replicate_succ]; rfl⟩
      · exact .inl ⟨q, b, n, Nat.lt_succ_self n, hb, by rw [hq, List.append_assoc]; rfl⟩

theorem unpad_ok_iff {buffer text : Bytes} (hlen : 8 ≤ buffer.length) (hblocks : buffer.length % 8 = 0) :
    unpad buffer = .ok text ↔ buffer = padded text := by
  constructor
  · intro h
    obtain ⟨q, b, z, hz, hb, rfl⟩ | ⟨q, rfl⟩ := exists_last buffer 8 hlen
    · rw [unpad_last q hb (by omega)] at h
      split at h
      case isTrue heq =>
        cases h
        rw [List.length_append, List.length_cons, List.length_replicate] at hblocks
        have hpad : z = 7 - text.length % 8 := by omega
        rw [padded, heq, hpad]
      case isFalse => cases h
    · rw [unpad_zeros] at h
      split at h <;> cases h
  · rintro rfl
    rw [padded, unpad_last text (by decide) (by omega), if_pos rfl]

theorem unpad_outOfBounds_iff {buffer : Bytes} (hlen : 8 ≤ buffer.length) :
    unpad buffer = .error .outOfBounds ↔ buffer = List.replicate 8 0 := by
  constructor
  · intro h
    obtain ⟨q, b, z, hz, hb, rfl⟩ | ⟨q, rfl⟩ := exists_last buffer 8 hlen
    · rw [unpad_last q hb (by omega)] at h
      split at h <;> cases h
    · rw [unpad_zeros] at h
      split at h
      case isTrue hq => rw [hq, List.nil_append]
      case isFalse => cases h
  · rintro rfl
    exact unpad_zeros []

/-! ### `desdecode` -/

theorem ldesdecode_eq (key text : Bytes) : ldesdecode key text =
    if key.length ≠ 8 then .error (.keySize key.length)
    else if text.length % 8 ≠ 0 ∨ text.length = 0 then .error (.textLength text.length)
    else if 2 ^ 31 ≤ text.length then .error .overflow
    else unpad (cryptLoop (reversed (des_main_ks key)) (text.length / 8) text) := by
  unfold ldesdecode des_key
  split
  · rfl
  · by_cases hlen : text.length % 8 ≠ 0 ∨ text.length = 0
    · simp only [hlen, if_true]
      rfl
    · by_cases hbig : 2 ^ 31 ≤ text.length
      · simp only [hlen, hbig, if_true, if_false]
        rfl
      · simp only [hlen, hbig, if_false]
        rfl

theorem decrypt_eq_iff (key : Bytes) {s t : Bytes} {n : Nat} (hs : s.length = 8 * n) (ht : t.length = 8 * n) :
    cryptLoop (reversed (des_main_ks key)) n s = t ↔ cryptLoop (des_main_ks key) n t = s := by
  have hks := des_main_ks_length key
  have hrev := reversed_length (des_main_ks key)
  constructor
  · rintro rfl
    refine cryptLoop_cryptLoop hrev hks ?_ n hs
    rw [roundFunctions_reversed hks, List.reverse_reverse]
  · rintro rfl
    exact cryptLoop_cryptLoop hks hrev (roundFunctions_reversed hks) n ht

/-- `desdecode` gives a text for nothing but what `desencode` makes of this text. -/
theorem desdecode_iff_desencode (key text crypt : Bytes) :
    ldesdecode key crypt = .ok text ↔ ldesencode key text = .ok crypt ∧ text.length < 2 ^ 31 - 8 := by
  have hpad := padded_length text
  rw [ldesdecode_eq, ldesencode_eq]
  by_cases hkey : key.length ≠ 8
  · simp only [if_pos hkey, reduceCtorEq, false_and]
  rw [if_neg hkey, if_neg hkey]
  constructor
  · intro h
    split at h
    · cases h
    split at h
    · cases h
    rename_i hblocks hbig
    have hcrypt : crypt.length = 8 * (crypt.length / 8) := by omega
    rw [unpad_ok_iff (by rw [cryptLoop_length]; omega) (by rw [cryptLoop_length]; omega)] at h
    have hn := congrArg List.length h
    rw [cryptLoop_length, hpad] at hn
    have hn' : crypt.length / 8 = text.length / 8 + 1 := by omega
    rw [hn', decrypt_eq_iff key (by omega) hpad] at h
    refine ⟨?_, by omega⟩
    rw [if_neg (by omega), h]
  · rintro ⟨h, hsmall⟩
    rw [if_neg (by omega)] at h
    have h := Except.ok.inj h
    have hlen := congrArg List.length h
    rw [cryptLoop_length] at hlen
    rw [if_neg (by omega), if_neg (by omega), unpad_ok_iff (by rw [cryptLoop_length]; omega)
      (by rw [cryptLoop_length]; omega)]
    have hn : crypt.length / 8 = text.length / 8 + 1 := by omega
    rw [hn, decrypt_eq_iff key hlen.symm hpad]
    exact h

/-- The one text on which `desdecode` reads in front of its buffer. -/
theorem desdecode_outOfBounds_iff (key crypt : Bytes) :
    ldesdecode key crypt = .error .outOfBounds ↔
      key.length = 8 ∧ crypt = des_crypt (des_main_ks key) (List.replicate 8 0) := by
  have hone : ∀ b : Bytes, b.length = 8 → cryptLoop (des_main_ks key) 1 b = des_crypt (des_main_ks key) b := by
    intro b hb
    rw [cryptLoop, cryptLoop, List.append_nil, List.take_of_length_le (Nat.le_of_eq hb)]
  have hzeros : (List.replicate 8 (0 : UInt8)).length = 8 * 1 := rfl
  rw [ldesdecode_eq]
  constructor
  · intro h
    split at h
    · cases h
    split at h
    · cases h
    split at h
    · cases h
    rename_i hkey hblocks hbig
    refine ⟨not_not.mp hkey, ?_⟩
    rw [unpad_outOfBounds_iff (by rw [cryptLoop_length]; omega)] at h
    have hn := congrArg List.length h
    rw [cryptLoop_length, List.length_replicate] at hn
    have hn' : crypt.length / 8 = 1 := by omega
    rw [hn', decrypt_eq_iff key (by omega) hzeros, hone _ rfl] at h
    exact h.symm
  · rintro ⟨hkey, hcrypt⟩
    have hlen : crypt.length = 8 := by rw [hcrypt, des_crypt_length]
    have hplain : cryptLoop (reversed (des_main_ks key)) 1 crypt = List.replicate 8 0 := by
      rw [decrypt_eq_iff key hlen hzeros, hone _ rfl, hcrypt]
    rw [if_neg (not_not.mpr hkey), if_neg (by omega), if_neg (by omega), hlen]
    rw [show 8 / 8 = 1 from rfl, hplain]
    exact unpad_zeros []

end Crypt
end Skynet
