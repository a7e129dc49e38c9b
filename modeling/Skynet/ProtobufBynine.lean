import Mathlib.Algebra.Order.BigOperators.Group.List
import Skynet.Lua.StringPack

/-!
# Skynet.ProtobufBynine

The packets of `protobuf_bynine.lua`: a header of nine bytes, then the fields one after the other.

* A method that raises an error is `none`. Fields are written to the buffer, and the header is put before
  them at the end; the reader has a position in the buffer and the length from the header.
* A string has a zero behind it, a binary has not.
* `read_write` : a field is read back where it stands, except an empty binary.
* `packet_roundtrip` : which packets are written, and which of them are read back.
-/

namespace Skynet
namespace ProtobufBynine

open Lua

/-- The fields of a `Protobuf_bynine` that its methods use. -/
structure Packet where
  m_packetBuf : Bytes
  m_packetlen : Int
  m_packetPos : Nat
  m_cmd : Int
  m_protobufname : Bytes
  m_version : Int
  m_subversion : Int
  m_code : Int

def packetByHeaderSize : Nat := 9

def serverPacketDefaultVer : Int := 1

def serverPacketDefaultSubver : Int := 1

/-- `ctor` without data. -/
def empty : Packet where
  m_packetBuf := []
  m_packetlen := packetByHeaderSize
  m_packetPos := packetByHeaderSize + 1
  m_cmd := -1
  m_protobufname := [0x42, 0x59]
  m_version := serverPacketDefaultVer
  m_subversion := serverPacketDefaultSubver
  m_code := 0

def initPacketBegin (p : Packet) : Option Packet := do
  let len ← unpackInt 2 p.m_packetBuf 1
  let version ← unpackInt 1 p.m_packetBuf 5
  let subversion ← unpackInt 1 p.m_packetBuf 6
  let cmd ← unpackInt 2 p.m_packetBuf 7
  let code ← unpackInt 1 p.m_packetBuf 9
  some { p with m_packetlen := len + 2, m_version := version, m_subversion := subversion, m_cmd := cmd, m_code := code }

/-- `ctor` with data. -/
def ctor (data : Bytes) : Option Packet := initPacketBegin { empty with m_packetBuf := data }

/-! ### Reading -/

/-- `read` with the format `!1>i<len>`; it returns `false` behind the end. -/
def read (len : Nat) (p : Packet) : Option (Option Int × Packet) :=
  if len ≤ 0 ∨ p.m_packetlen ≤ 0 ∨ p.m_packetlen < p.m_packetPos + len - 1 then some (none, p)
  else do
    let value ← unpackInt len p.m_packetBuf p.m_packetPos
    some (some value, { p with m_packetPos := p.m_packetPos + len })

/-- `self:read(len, fmt) or -1`. -/
def readNumber (len : Nat) (p : Packet) : Option (Int × Packet) := do
  let (value, p) ← read len p
  some (value.getD (-1), p)

def readByte : Packet → Option (Int × Packet) := readNumber 1

def readShort : Packet → Option (Int × Packet) := readNumber 2

def readInt : Packet → Option (Int × Packet) := readNumber 4

def readInt64 : Packet → Option (Int × Packet) := readNumber 8

/-- What a method returns: a number or a string. -/
inductive Value where
  | number (n : Int)
  | string (s : Bytes)
deriving DecidableEq, Repr

def readString (p : Packet) : Option (Value × Packet) := do
  let (strlen, p) ← readInt p
  if strlen ≤ 0 ∨ p.m_packetlen < strlen + p.m_packetPos - 1 then some (.string [], p)
  else
    let len := strlen.toNat
    let value := if 1 < len then sub p.m_packetBuf p.m_packetPos (p.m_packetPos + len - 2) else []
    some (.string value, { p with m_packetPos := p.m_packetPos + len })

def readBinary (p : Packet) : Option (Value × Packet) := do
  let (binlen, p) ← readInt p
  if binlen ≤ 0 then some (.number (-1), p)
  else
    let len := binlen.toNat
    some (.string (sub p.m_packetBuf p.m_packetPos (p.m_packetPos + len - 1)), { p with m_packetPos := p.m_packetPos + len })

/-! ### Writing -/

/-- `write`, from the result of `string.pack`. -/
def write (packstr : Option Bytes) (len : Nat) (p : Packet) : Option Packet := do
  let packstr ← packstr
  some { p with m_packetBuf := p.m_packetBuf ++ packstr, m_packetlen := p.m_packetlen + len }

/-- The mask takes a negative byte to a number above 127. -/
def writeByte (value : Int) (p : Packet) : Option Packet := write (packInt 1 (value % 256)) 1 p

def writeShort (value : Int) (p : Packet) : Option Packet := write (packInt 2 (value % 65536)) 2 p

def writeInt (value : Int) (p : Packet) : Option Packet := write (packInt 4 value) 4 p

def writeInt64 (value : Int) (p : Packet) : Option Packet := write (packInt 8 value) 8 p

def writeString (value : Bytes) (p : Packet) : Option Packet :=
  write (packString 4 (value ++ [0])) ((value ++ [0]).length + 4) p

def writeBinary (value : Bytes) (p : Packet) : Option Packet := write (packString 4 value) (value.length + 4) p

def writeBegin (cmd : Int) (p : Packet) : Option Packet := if 0 ≤ cmd then some { p with m_cmd := cmd } else none

def writeEnd (p : Packet) : Option Packet := do
  if p.m_cmd < 0 then none
  let len ← packInt 2 (p.m_packetlen - 2)
  let version ← packInt 1 p.m_version
  let subversion ← packInt 1 p.m_subversion
  let cmd ← packInt 2 p.m_cmd
  let code ← packInt 1 p.m_code
  some { p with m_packetBuf := len ++ p.m_protobufname ++ version ++ subversion ++ cmd ++ code ++ p.m_packetBuf }

/-- `getBeginCmd`. -/
def getBeginCmd (p : Packet) : Option Int := if 0 ≤ p.m_cmd then some p.m_cmd else none

/-! ### Packets -/

/-- One call of a writer, and of the reader that goes with it. -/
inductive Call where
  | byte (n : Int)
  | short (n : Int)
  | int (n : Int)
  | int64 (n : Int)
  | string (s : Bytes)
  | binary (s : Bytes)
deriving DecidableEq, Repr

namespace Call

def write : Call → Packet → Option Packet
  | .byte n => writeByte n
  | .short n => writeShort n
  | .int n => writeInt n
  | .int64 n => writeInt64 n
  | .string s => writeString s
  | .binary s => writeBinary s

def read : Call → Packet → Option (Value × Packet)
  | .byte _ => fun p => (readByte p).map fun r => (.number r.1, r.2)
  | .short _ => fun p => (readShort p).map fun r => (.number r.1, r.2)
  | .int _ => fun p => (readInt p).map fun r => (.number r.1, r.2)
  | .int64 _ => fun p => (readInt64 p).map fun r => (.number r.1, r.2)
  | .string _ => readString
  | .binary _ => readBinary

/-- The value written. -/
def value : Call → Value
  | .byte n => .number n
  | .short n => .number n
  | .int n => .number n
  | .int64 n => .number n
  | .string s => .string s
  | .binary s => .string s

/-- The value fits the field. -/
def Valid : Call → Prop
  | .byte n => Lua.Fits 1 n
  | .short n => Lua.Fits 2 n
  | .int n => Lua.Fits 4 n
  | .int64 n => Lua.Fits 8 n
  | .string _ => True
  | .binary _ => True

def size : Call → Nat
  | .byte _ => 1
  | .short _ => 2
  | .int _ => 4
  | .int64 _ => 8
  | .string s => s.length + 5
  | .binary s => s.length + 4

/-- No negative byte or short. -/
def Packable : Call → Prop
  | .byte n => 0 ≤ n
  | .short n => 0 ≤ n
  | _ => True

/-- No empty binary. -/
def Readable : Call → Prop
  | .binary s => s ≠ []
  | _ => True

end Call

def writeCalls : List Call → Packet → Option Packet
  | [], p => some p
  | c :: cs, p => do writeCalls cs (← c.write p)

def readCalls : List Call → Packet → Option (List Value × Packet)
  | [], p => some ([], p)
  | c :: cs, p => do
    let (v, p) ← c.read p
    let (vs, p) ← readCalls cs p
    some (v :: vs, p)

/-- `writeBegin`, the writers and `writeEnd`: the buffer that is sent. -/
def writePacket (cmd : Int) (calls : List Call) : Option Bytes := do
  let p ← writeBegin cmd empty
  let p ← writeCalls calls p
  let p ← writeEnd p
  some p.m_packetBuf

/-- The command of a packet and its fields. -/
def readPacket (calls : List Call) (data : Bytes) : Option (Int × List Value) := do
  let p ← ctor data
  let cmd ← getBeginCmd p
  let (values, _) ← readCalls calls p
  some (cmd, values)

def total (calls : List Call) : Nat := packetByHeaderSize + (calls.map Call.size).sum

/-! ### A field -/

/-- The bytes of a field. -/
def Call.pack : Call → Option Bytes
  | .byte n => packInt 1 (n % 256)
  | .short n => packInt 2 (n % 65536)
  | .int n => packInt 4 n
  | .int64 n => packInt 8 n
  | .string s => packString 4 (s ++ [0])
  | .binary s => packString 4 s

/-- What the reader returns. -/
def Call.readBack : Call → Value
  | .binary [] => .number (-1)
  | c => c.value

section Field

variable {c : Call} {p : Packet} {bs pre post : Bytes}

theorem write_eq (c : Call) (p : Packet) : c.write p = write c.pack c.size p := by
  cases c with
  | string s =>
    have hsize : (s ++ [0]).length + 4 = s.length + 5 := by rw [List.length_append, List.length_singleton]
    simp only [Call.write, writeString, Call.pack, Call.size, hsize]
  | _ => rfl

/-- A masked number fits when it was not negative. -/
theorem fits_masked {size : Nat} {n : Int} (hsize : 0 < size) (h : Fits size n) :
    Fits size (n % 2 ^ (8 * size)) ↔ 0 ≤ n := by
  obtain ⟨hlow, hhigh⟩ := h
  have htwo : (2 : Int) ^ (8 * size) = 2 * 2 ^ (8 * size - 1) := by
    rw [← Int.pow_succ', Nat.sub_add_cancel (by omega)]
  have hk : (0 : Int) < 2 ^ (8 * size - 1) := Int.pow_pos (by decide)
  rw [Fits, htwo]
  generalize (2 : Int) ^ (8 * size - 1) = k at *
  rcases Int.lt_or_le n 0 with hneg | hnn
  · have : n % (2 * k) = n + 2 * k := by
      rw [← Int.add_emod_right]
      exact Int.emod_eq_of_lt (by omega) (by omega)
    omega
  · rw [Int.emod_eq_of_lt hnn (by omega)]
    omega

theorem packInt_some {size : Nat} {n : Int} (hs : size < 8) (h : packInt size n = some bs) : Fits size n := by
  by_contra hn
  rw [packInt_none hs hn] at h
  cases h

theorem packInt_length {size : Nat} {n : Int} (h : packInt size n = some bs) : bs.length = size := by
  simp only [packInt] at h
  split at h
  · cases h
  · cases h
    exact Endian.be_length ..

theorem packString_some {size : Nat} {s : Bytes} (h : packString size s = some bs) :
    bs = Endian.be size s.length ++ s := by
  simp only [packString] at h
  split at h
  · cases h
  · cases h
    rfl

/-- Only what is packable is written, with its size. -/
theorem pack_some (hv : c.Valid) (h : c.pack = some bs) : c.Packable ∧ bs.length = c.size := by
  cases c with
  | byte n => exact ⟨(fits_masked (by decide) hv).mp (packInt_some (by decide) h), packInt_length h⟩
  | short n => exact ⟨(fits_masked (by decide) hv).mp (packInt_some (by decide) h), packInt_length h⟩
  | int n => exact ⟨trivial, packInt_length h⟩
  | int64 n => exact ⟨trivial, packInt_length h⟩
  | string s =>
    refine ⟨trivial, ?_⟩
    simp only [packString_some h, List.length_append, Endian.be_length, List.length_singleton, Call.size]
    omega
  | binary s =>
    refine ⟨trivial, ?_⟩
    simp only [packString_some h, List.length_append, Endian.be_length, Call.size]
    omega

theorem pack_ok (hv : c.Valid) (hp : c.Packable) (hs : c.size ≤ 65537) : ∃ bs, c.pack = some bs := by
  cases c with
  | byte n => exact ⟨_, packInt_eq ((fits_masked (by decide) hv).mpr hp)⟩
  | short n => exact ⟨_, packInt_eq ((fits_masked (by decide) hv).mpr hp)⟩
  | int n => exact ⟨_, packInt_eq hv⟩
  | int64 n => exact ⟨_, packInt_eq hv⟩
  | string s =>
    refine ⟨_, packString_eq ?_⟩
    simp only [Call.size] at hs
    simp only [List.length_append, List.length_singleton]
    omega
  | binary s =>
    refine ⟨_, packString_eq ?_⟩
    simp only [Call.size] at hs
    omega

/-- A number that stands at the position. -/
theorem readNumber_spec {len : Nat} {n : Int} (hpos : 0 < len) (hle : len ≤ 8) (hn : Fits len n)
    (hbs : packInt len n = some bs) (hbuf : p.m_packetBuf = pre ++ bs ++ post) (hat : p.m_packetPos = pre.length + 1)
    (hlen : p.m_packetlen = (pre ++ bs ++ post).length) :
    readNumber len p = some (n, { p with m_packetPos := p.m_packetPos + len }) := by
  obtain ⟨hsize, hread⟩ := unpackInt_packInt hpos hle hn hbs
  have hin : ¬(len ≤ 0 ∨ p.m_packetlen ≤ 0 ∨ p.m_packetlen < p.m_packetPos + len - 1) := by
    simp only [hlen, hat, List.length_append]
    omega
  rw [readNumber, read, if_neg hin, hbuf, hat, hread]
  rfl

/-- The length before a string. -/
theorem readInt_length {len : Nat} (hlt : len < 2 ^ 31) (hbuf : p.m_packetBuf = pre ++ Endian.be 4 len ++ post)
    (hat : p.m_packetPos = pre.length + 1) (hlen : p.m_packetlen = (pre ++ Endian.be 4 len ++ post).length) :
    readInt p = some ((len : Int), { p with m_packetPos := p.m_packetPos + 4 }) := by
  have hfits : Fits 4 len := by
    simp only [Fits]
    omega
  have hbs : packInt 4 len = some (Endian.be 4 len) := by
    rw [packInt_eq hfits, Int.emod_eq_of_lt (by omega) (by omega), Int.toNat_natCast]
  exact readNumber_spec (by decide) (by decide) hfits hbs hbuf hat hlen

/-- A field that stands at the position. -/
theorem read_write (hv : c.Valid) (h : c.pack = some bs) (hs : c.size ≤ 65537)
    (hbuf : p.m_packetBuf = pre ++ bs ++ post) (hat : p.m_packetPos = pre.length + 1)
    (hlen : p.m_packetlen = (pre ++ bs ++ post).length) :
    c.read p = some (c.readBack, { p with m_packetPos := p.m_packetPos + c.size }) := by
  obtain ⟨hp, hsize⟩ := pack_some hv h
  cases c with
  | byte n =>
    have hmod : n % 256 = n := Int.emod_eq_of_lt hp (by have := hv.2; omega)
    rw [Call.pack, hmod] at h
    simp only [Call.read, readByte, readNumber_spec (by decide) (by decide) hv h hbuf hat hlen, Option.map_some]
    rfl
  | short n =>
    have hmod : n % 65536 = n := Int.emod_eq_of_lt hp (by have := hv.2; omega)
    rw [Call.pack, hmod] at h
    simp only [Call.read, readShort, readNumber_spec (by decide) (by decide) hv h hbuf hat hlen, Option.map_some]
    rfl
  | int n =>
    simp only [Call.read, readInt, readNumber_spec (by decide) (by decide) hv h hbuf hat hlen, Option.map_some]
    rfl
  | int64 n =>
    simp only [Call.read, readInt64, readNumber_spec (by decide) (by decide) hv h hbuf hat hlen, Option.map_some]
    rfl
  | string s =>
    rw [packString_some h] at hbuf hlen
    have hbuf' : p.m_packetBuf = pre ++ Endian.be 4 (s ++ [0]).length ++ (s ++ [0] ++ post) := by
      simpa only [List.append_assoc] using hbuf
    have hlen' : p.m_packetlen = (pre ++ Endian.be 4 (s ++ [0]).length ++ (s ++ [0] ++ post)).length := by
      simpa only [List.append_assoc] using hlen
    simp only [Call.size] at hs
    have hint := readInt_length (by simp only [List.length_append, List.length_singleton]; omega) hbuf' hat hlen'
    have hin : ¬(((s ++ [0]).length : Int) ≤ 0 ∨
        p.m_packetlen < (s ++ [0]).length + ((p.m_packetPos + 4 : Nat) : Int) - 1) := by
      simp only [hlen, hat, List.length_append, List.length_singleton, Endian.be_length]
      omega
    simp only [Call.read, readString, hint, Option.bind_eq_bind, Option.bind_some, if_neg hin, Int.toNat_natCast]
    have hcut : (if 1 < (s ++ [0]).length then
        sub p.m_packetBuf (p.m_packetPos + 4) (p.m_packetPos + 4 + (s ++ [0]).length - 2) else []) = s := by
      have hparts : p.m_packetBuf = (pre ++ Endian.be 4 (s ++ [0]).length) ++ s ++ ([0] ++ post) := by
        simpa only [List.append_assoc] using hbuf
      have hfrom : p.m_packetPos + 4 = (pre ++ Endian.be 4 (s ++ [0]).length).length + 1 := by
        rw [hat, List.length_append, Endian.be_length]
      have hto : p.m_packetPos + 4 + (s ++ [0]).length - 2 = (pre ++ Endian.be 4 (s ++ [0]).length).length + s.length := by
        simp only [hat, List.length_append, Endian.be_length, List.length_singleton]
        omega
      split
      · rw [hto, hfrom, hparts, sub_append]
      · rename_i hshort
        rw [List.length_append, List.length_singleton] at hshort
        exact (List.length_eq_zero_iff.mp (by omega)).symm
    rw [hcut]
    simp only [Call.readBack, Call.value, Call.size, List.length_append, List.length_singleton, Nat.add_assoc]
    rw [Nat.add_comm 4 (s.length + 1)]
  | binary s =>
    rw [packString_some h] at hbuf hlen
    simp only [Call.size] at hs
    have hbuf' : p.m_packetBuf = pre ++ Endian.be 4 s.length ++ (s ++ post) := by
      simpa only [List.append_assoc] using hbuf
    have hlen' : p.m_packetlen = (pre ++ Endian.be 4 s.length ++ (s ++ post)).length := by
      simpa only [List.append_assoc] using hlen
    have hint := readInt_length (by omega) hbuf' hat hlen'
    simp only [Call.read, readBinary, hint, Option.bind_eq_bind, Option.bind_some, Int.toNat_natCast]
    cases s with
    | nil => rfl
    | cons b s =>
      have hparts : p.m_packetBuf = (pre ++ Endian.be 4 (b :: s).length) ++ (b :: s) ++ post := by
        simpa only [List.append_assoc] using hbuf
      have hfrom : p.m_packetPos + 4 = (pre ++ Endian.be 4 (b :: s).length).length + 1 := by
        rw [hat, List.length_append, Endian.be_length]
      have hto : p.m_packetPos + 4 + (b :: s).length - 1 =
          (pre ++ Endian.be 4 (b :: s).length).length + (b :: s).length := by
        simp only [hat, List.length_append, Endian.be_length]
        omega
      rw [if_neg (by simp only [List.length_cons]; omega), hto, hfrom, hparts, sub_append]
      simp only [Call.readBack, Call.value, Call.size, List.length_append, Endian.be_length, List.length_cons]
      congr 3
      omega

end Field

/-! ### A packet -/

def Call.bytes (c : Call) : Bytes := c.pack.getD []

section Fields

variable {calls : List Call} {p p' : Packet} {cmd : Int} {data pre post : Bytes}

theorem size_le (calls : List Call) : ∀ c ∈ calls, c.size + packetByHeaderSize ≤ total calls := by
  intro c hc
  have := List.single_le_sum (fun x _ => Nat.zero_le x) c.size (List.mem_map_of_mem (f := Call.size) hc)
  rw [total]
  omega

/-- The fields are written one behind the other. -/
theorem writeCalls_some (hv : ∀ c ∈ calls, c.Valid) (h : writeCalls calls p = some p') :
    (∀ c ∈ calls, c.pack = some c.bytes) ∧
      p' = { p with m_packetBuf := p.m_packetBuf ++ calls.flatMap Call.bytes,
                    m_packetlen := p.m_packetlen + (calls.map Call.size).sum } := by
  induction calls generalizing p with
  | nil =>
    cases h
    simp
  | cons c calls ih =>
    simp only [writeCalls, write_eq, write] at h
    cases hc : c.pack with
    | none =>
      rw [hc] at h
      cases h
    | some bs =>
      rw [hc] at h
      obtain ⟨hpacked, hp'⟩ := ih (fun d hd => hv d (List.mem_cons_of_mem _ hd)) h
      have hbytes : c.bytes = bs := by rw [Call.bytes, hc]; rfl
      refine ⟨List.forall_mem_cons.mpr ⟨hc.trans (congrArg some hbytes.symm), hpacked⟩, ?_⟩
      rw [hp', List.flatMap_cons, hbytes, List.map_cons, List.sum_cons, List.append_assoc]
      simp only [Packet.mk.injEq, true_and, and_true]
      omega

theorem writeCalls_ok (hv : ∀ c ∈ calls, c.Valid) (hp : ∀ c ∈ calls, c.Packable) (hs : ∀ c ∈ calls, c.size ≤ 65537)
    (p : Packet) : ∃ p', writeCalls calls p = some p' := by
  induction calls generalizing p with
  | nil => exact ⟨p, rfl⟩
  | cons c calls ih =>
    obtain ⟨hvc, hv⟩ := List.forall_mem_cons.mp hv
    obtain ⟨hpc, hp⟩ := List.forall_mem_cons.mp hp
    obtain ⟨hsc, hs⟩ := List.forall_mem_cons.mp hs
    obtain ⟨bs, hbs⟩ := pack_ok hvc hpc hsc
    simp only [writeCalls, write_eq, write, hbs]
    exact ih hv hp hs _

/-- The fields that stand at the position. -/
theorem readCalls_spec (hv : ∀ c ∈ calls, c.Valid) (hpacked : ∀ c ∈ calls, c.pack = some c.bytes)
    (hs : ∀ c ∈ calls, c.size ≤ 65537) (hbuf : p.m_packetBuf = pre ++ calls.flatMap Call.bytes)
    (hat : p.m_packetPos = pre.length + 1) (hlen : p.m_packetlen = (pre ++ calls.flatMap Call.bytes).length) :
    ∃ p', readCalls calls p = some (calls.map Call.readBack, p') := by
  induction calls generalizing p pre with
  | nil => exact ⟨p, rfl⟩
  | cons c calls ih =>
    obtain ⟨hvc, hv⟩ := List.forall_mem_cons.mp hv
    obtain ⟨hpc, hpacked⟩ := List.forall_mem_cons.mp hpacked
    obtain ⟨hsc, hs⟩ := List.forall_mem_cons.mp hs
    rw [List.flatMap_cons, ← List.append_assoc] at hbuf hlen
    have hsize := (pack_some hvc hpc).2
    obtain ⟨p', hp'⟩ := ih (p := { p with m_packetPos := p.m_packetPos + c.size }) hv hpacked hs hbuf (by
      simp only [hat, List.length_append, hsize]
      omega) hlen
    refine ⟨p', ?_⟩
    simp only [readCalls, read_write hvc hpc hsc hbuf hat hlen, Option.bind_eq_bind, Option.bind_some, hp', List.map_cons]

/-- What is put before the fields. -/
def header (len : Nat) (cmd : Int) : Bytes :=
  Endian.be 2 len ++ [0x42, 0x59] ++ [1] ++ [1] ++ Endian.be 2 cmd.toNat ++ [0]

theorem packInt_two {n : Nat} (h : n < 2 ^ 15) : packInt 2 n = some (Endian.be 2 n) := by
  rw [packInt_eq (by simp only [Fits]; omega), Int.emod_eq_of_lt (by omega) (by omega), Int.toNat_natCast]

theorem packInt_one : packInt 1 1 = some [1] := by decide

theorem packInt_zero : packInt 1 0 = some [0] := by decide

/-- `writeEnd` succeeds when the length fits two bytes with a sign. -/
theorem writePacket_eq (hcmd : 0 ≤ cmd ∧ cmd ≤ 32767) (hw : writeCalls calls { empty with m_cmd := cmd } = some p')
    (hv : ∀ c ∈ calls, c.Valid) :
    writePacket cmd calls =
      if total calls ≤ 32769 then some (header (total calls - 2) cmd ++ calls.flatMap Call.bytes) else none := by
  obtain ⟨-, hp'⟩ := writeCalls_some hv hw
  have hlen : p'.m_packetlen - 2 = (total calls - 2 : Nat) := by
    rw [hp', total]
    simp only [empty, packetByHeaderSize]
    omega
  have hc : ¬p'.m_cmd < 0 := by
    rw [hp']
    simp only
    omega
  rw [writePacket, writeBegin, if_pos hcmd.1]
  simp only [Option.bind_eq_bind, Option.bind_some, hw, writeEnd, if_neg hc, hlen]
  obtain ⟨n, rfl⟩ := Int.eq_ofNat_of_zero_le hcmd.1
  split
  · rw [packInt_two (by omega)]
    have hcmd2 : packInt 2 p'.m_cmd = some (Endian.be 2 n) := by
      rw [hp']
      exact packInt_two (by omega)
    have hver : packInt 1 p'.m_version = some [1] := by
      rw [hp']
      exact packInt_one
    have hsub : packInt 1 p'.m_subversion = some [1] := by
      rw [hp']
      exact packInt_one
    have hcode : packInt 1 p'.m_code = some [0] := by
      rw [hp']
      exact packInt_zero
    simp only [Option.bind_some, hver, hsub, hcmd2, hcode, header, Int.toNat_natCast]
    rw [hp']
    rfl
  · rw [packInt_none (by decide) (by simp only [Fits]; omega)]
    rfl

/-- A number of the header. -/
theorem unpack_at (pre : Bytes) {size pos : Nat} {n : Int} {bs : Bytes} (hpos : 0 < size) (hle : size ≤ 8) (hn : Fits size n)
    (hbs : packInt size n = some bs) (hdata : data = pre ++ bs ++ post) (hat : pre.length + 1 = pos) :
    unpackInt size data pos = some n := by
  rw [hdata, ← hat]
  exact (unpackInt_packInt hpos hle hn hbs).2

/-- The header is read back. -/
theorem ctor_header {len n : Nat} (hlen : len < 2 ^ 15) (hn : n < 2 ^ 15) (body : Bytes) :
    ctor (header len n ++ body) =
      some { empty with m_packetBuf := header len n ++ body, m_packetlen := len + 2, m_cmd := n } := by
  have hfits : ∀ {m : Nat}, m < 2 ^ 15 → Fits 2 m := fun hm => by simp only [Fits]; omega
  have hbyte : Fits 1 1 ∧ Fits 1 0 := by decide
  have hl : unpackInt 2 (header len n ++ body) 1 = some (len : Int) :=
    unpack_at [] (by decide) (by decide) (hfits hlen) (packInt_two hlen)
      (by simp only [header, List.append_assoc, List.nil_append]; rfl) rfl
  have hv : unpackInt 1 (header len n ++ body) 5 = some 1 :=
    unpack_at (Endian.be 2 len ++ [0x42, 0x59]) (by decide) (by decide) hbyte.1 packInt_one
      (by simp only [header, List.append_assoc]; rfl) (by simp)
  have hs : unpackInt 1 (header len n ++ body) 6 = some 1 :=
    unpack_at (Endian.be 2 len ++ [0x42, 0x59] ++ [1]) (by decide) (by decide) hbyte.1 packInt_one
      (by simp only [header, List.append_assoc]; rfl) (by simp)
  have hc : unpackInt 2 (header len n ++ body) 7 = some (n : Int) :=
    unpack_at (Endian.be 2 len ++ [0x42, 0x59] ++ [1] ++ [1]) (by decide) (by decide) (hfits hn)
      (packInt_two hn) (by simp only [header, List.append_assoc, Int.toNat_natCast]; rfl) (by simp)
  have hz : unpackInt 1 (header len n ++ body) 9 = some 0 :=
    unpack_at (Endian.be 2 len ++ [0x42, 0x59] ++ [1] ++ [1] ++ Endian.be 2 n) (by decide) (by decide) hbyte.2
      packInt_zero (by simp only [header, List.append_assoc, Int.toNat_natCast]; rfl) (by simp)
  simp only [ctor, initPacketBegin, hl, hv, hs, hc, hz, Option.bind_eq_bind, Option.bind_some]
  rfl

theorem header_length (len : Nat) (cmd : Int) : (header len cmd).length = packetByHeaderSize := by
  simp [header, packetByHeaderSize]

/-- A packet that has been written is read: its command, and each field as its reader returns it. -/
theorem readPacket_spec (hcmd : 0 ≤ cmd ∧ cmd ≤ 32767) (hv : ∀ c ∈ calls, c.Valid)
    (hpacked : ∀ c ∈ calls, c.pack = some c.bytes) (htotal : total calls ≤ 32769) :
    readPacket calls (header (total calls - 2) cmd ++ calls.flatMap Call.bytes) = some (cmd, calls.map Call.readBack) := by
  obtain ⟨n, rfl⟩ := Int.eq_ofNat_of_zero_le hcmd.1
  have hs : ∀ c ∈ calls, c.size ≤ 65537 := fun c hc => by have := size_le calls c hc; omega
  have hnine : packetByHeaderSize ≤ total calls := by simp only [total]; omega
  have hbody : (calls.flatMap Call.bytes).length = (calls.map Call.size).sum := by
    rw [List.length_flatMap]
    congr 1
    refine List.map_congr_left ?_
    intro c hc
    exact (pack_some (hv c hc) (hpacked c hc)).2
  obtain ⟨p', hp'⟩ := readCalls_spec
    (p := { empty with m_packetBuf := header (total calls - 2) n ++ calls.flatMap Call.bytes,
                       m_packetlen := (total calls - 2 : Nat) + 2, m_cmd := n })
    hv hpacked hs rfl (by rw [header_length]; rfl) (by
      simp only [List.length_append, header_length, hbody]
      simp only [total, packetByHeaderSize] at hnine ⊢
      omega)
  rw [readPacket, ctor_header (by simp only [packetByHeaderSize] at hnine; omega) (by omega)]
  simp only [Option.bind_eq_bind, Option.bind_some, getBeginCmd, if_pos (Int.natCast_nonneg n), hp']

theorem readBack_eq {c : Call} : c.readBack = c.value ↔ c.Readable := by
  cases c with
  | binary s => cases s <;> simp [Call.readBack, Call.value, Call.Readable]
  | _ => simp [Call.readBack, Call.Readable]

theorem map_readBack : calls.map Call.readBack = calls.map Call.value ↔ ∀ c ∈ calls, c.Readable := by
  rw [List.map_inj_left]
  simp only [readBack_eq]

/-- What is written is read back, and what the gate accepts can be written. -/
def RoundTrips (cmd : Int) (calls : List Call) : Prop :=
  (∀ data, writePacket cmd calls = some data → readPacket calls data = some (cmd, calls.map Call.value)) ∧
    (total calls ≤ 65537 → ∃ data, writePacket cmd calls = some data)

/-- **Packets.** What is written is read back, and everything up to the gate's limit is written, exactly if
the packet is over that limit (nothing is written then), or no longer than 32769 bytes with no negative
byte or short and no empty binary. -/
theorem packet_roundtrip (cmd : Int) (calls : List Call) (hcmd : 0 ≤ cmd ∧ cmd ≤ 32767) (hv : ∀ c ∈ calls, c.Valid) :
    RoundTrips cmd calls ↔
      65537 < total calls ∨ (total calls ≤ 32769 ∧ (∀ c ∈ calls, c.Packable) ∧ ∀ c ∈ calls, c.Readable) := by
  have hread : ∀ data, writePacket cmd calls = some data → total calls ≤ 32769 ∧ (∀ c ∈ calls, c.Packable) ∧
      readPacket calls data = some (cmd, calls.map Call.readBack) := by
    intro data h
    cases hw : writeCalls calls { empty with m_cmd := cmd } with
    | none =>
      rw [writePacket, writeBegin, if_pos hcmd.1] at h
      simp only [Option.bind_eq_bind, Option.bind_some, hw] at h
      cases h
    | some p' =>
      obtain ⟨hpacked, -⟩ := writeCalls_some hv hw
      rw [writePacket_eq hcmd hw hv] at h
      split at h
      · rename_i htotal
        cases h
        exact ⟨htotal, fun c hc => (pack_some (hv c hc) (hpacked c hc)).1, readPacket_spec hcmd hv hpacked htotal⟩
      · cases h
  constructor
  · rintro ⟨hback, hwrites⟩
    rcases Nat.lt_or_ge 65537 (total calls) with hbig | hsmall
    · exact .inl hbig
    · obtain ⟨data, hdata⟩ := hwrites hsmall
      obtain ⟨htotal, hpackable, hgot⟩ := hread data hdata
      refine .inr ⟨htotal, hpackable, map_readBack.mp ?_⟩
      rw [hback data hdata] at hgot
      exact (congrArg Prod.snd (Option.some.inj hgot)).symm
  · rintro (hbig | ⟨htotal, hpackable, hreadable⟩)
    · refine ⟨fun data h => ?_, fun h => by omega⟩
      have := (hread data h).1
      omega
    · refine ⟨fun data h => ?_, fun _ => ?_⟩
      · rw [(hread data h).2.2, map_readBack.mpr hreadable]
      · have hs : ∀ c ∈ calls, c.size ≤ 65537 := fun c hc => by have := size_le calls c hc; omega
        obtain ⟨p', hp'⟩ := writeCalls_ok hv hpackable hs { empty with m_cmd := cmd }
        exact ⟨_, by rw [writePacket_eq hcmd hp' hv, if_pos htotal]⟩

/-- Two bytes, a string with a zero in it and an empty string. -/
theorem packet_roundtrip_login :
    ∃ data, writePacket 0x101 [.byte 7, .int64 (-2), .string [0x61, 0, 0x62], .string [], .binary [0]] = some data ∧
      readPacket [.byte 7, .int64 (-2), .string [0x61, 0, 0x62], .string [], .binary [0]] data =
        some (0x101, [.number 7, .number (-2), .string [0x61, 0, 0x62], .string [], .string [0]]) := by
  have h := (packet_roundtrip 0x101 [.byte 7, .int64 (-2), .string [0x61, 0, 0x62], .string [], .binary [0]] (by decide)
    (by simp only [List.forall_mem_cons, Call.Valid]; exact ⟨by decide, by decide, trivial, trivial, trivial, fun _ h => (nomatch h)⟩)).mpr
    (.inr ⟨by decide, by
      simp only [List.forall_mem_cons, Call.Packable]
      exact ⟨by decide, trivial, trivial, trivial, trivial, fun _ h => (nomatch h)⟩, by
      simp only [List.forall_mem_cons, Call.Readable]
      exact ⟨trivial, trivial, trivial, trivial, by decide, fun _ h => (nomatch h)⟩⟩)
  obtain ⟨data, hdata⟩ := h.2 (by decide)
  exact ⟨data, hdata, h.1 data hdata⟩

theorem total_binary (s : Bytes) : total [.binary s] = s.length + 13 := by
  simp only [total, List.map_cons, List.map_nil, List.sum_cons, List.sum_nil, Call.size, packetByHeaderSize]
  omega

theorem writePacket_long {s : Bytes} (hs : 32756 < s.length) (hmax : s.length ≤ 65524) :
    writePacket 1 [.binary s] = none := by
  have hv : ∀ c ∈ [Call.binary s], c.Valid := List.forall_mem_singleton.mpr trivial
  obtain ⟨p', hp'⟩ := writeCalls_ok hv (List.forall_mem_singleton.mpr trivial)
    (List.forall_mem_singleton.mpr (show s.length + 4 ≤ 65537 by omega)) { empty with m_cmd := 1 }
  rw [writePacket_eq (by decide) hp' hv, if_neg (by rw [total_binary]; omega)]

/-- A negative byte or short cannot be written, nor a packet of 32770 bytes; an empty binary is read as -1. -/
theorem packet_not_roundtrip :
    ¬RoundTrips 1 [.byte (-1)] ∧ ¬RoundTrips 1 [.short (-1)] ∧ ¬RoundTrips 1 [.binary (List.replicate 32757 0)] ∧
      ¬RoundTrips 1 [.binary []] := by
  have hlength : (List.replicate 32757 (0 : UInt8)).length = 32757 := List.length_replicate
  refine ⟨?_, ?_, ?_, ?_⟩
  · rintro ⟨-, hwrites⟩
    obtain ⟨data, hdata⟩ := hwrites (by decide)
    cases hdata
  · rintro ⟨-, hwrites⟩
    obtain ⟨data, hdata⟩ := hwrites (by decide)
    cases hdata
  · rintro ⟨-, hwrites⟩
    obtain ⟨data, hdata⟩ := hwrites (by rw [total_binary, hlength]; decide)
    rw [writePacket_long (by rw [hlength]; decide) (by rw [hlength]; decide)] at hdata
    cases hdata
  · rintro ⟨hback, -⟩
    have hread : readPacket [.binary []] [0, 11, 66, 89, 1, 1, 0, 1, 0, 0, 0, 0, 0] = some (1, [.number (-1)]) := by decide
    rw [hback _ (by decide)] at hread
    cases hread

end Fields

end ProtobufBynine
end Skynet
