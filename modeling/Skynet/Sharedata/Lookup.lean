import Skynet.Sharedata.Conf

/-!
# Skynet.Sharedata.Lookup

How a structure is read: `lindexconf` and `lnextkey`, over `lookup_key`.

* A key that Lua gets is a value; a table of the structure comes out as a pointer, which is the table itself.
* `lua_tolstring` at an index without a string has a length of 0.
-/

namespace Skynet
namespace Sharedata

open Lua

inductive Fault where
  /-- A slot outside of the hash part is read. -/
  | beyond
  /-- The loop of `lookup_key` goes in a circle. -/
  | fuel
  /-- A Lua error for the key. -/
  | raised
deriving DecidableEq, Repr

/-- What `pushvalue` pushes. -/
inductive Answer where
  | value (v : Value)
  | table (tbl : Table)

/-- Missing results are nil. -/
def Answer.adjust (r : Option Answer) : Answer := r.getD (.value .nil)

section Reads

variable (L : Int → Option Bytes)

def pushvalue : Val Table → Answer
  | .real n => .value (.number n)
  | .integer d => .value (.integer d)
  | .string index => .value (.string ((L index).getD []))
  | .boolean b => .value (.boolean b)
  | .table tbl => .table tbl
  | .nil => .value .nil

/-- The test in the loop of `lookup_key`. -/
def Node.hasKey (n : Node Table) (keyhash : UInt32) (key : Int) (keytype : KeyType) (str : Bytes) : Bool :=
  keyhash = n.keyhash &&
    match n.keytype with
    | .integer => keytype = .integer && n.key = key
    | .string => keytype = .string && str = (L n.key).getD []

def lookupLoop (hash : List (Node Table)) (keyhash : UInt32) (key : Int) (keytype : KeyType) (str : Bytes) :
    Nat → Nat → Except Fault (Option Nat)
  | 0, _ => .error .fuel
  | fuel + 1, i =>
    match hash[i]? with
    | none => .error .beyond
    | some n =>
      if n.hasKey L keyhash key keytype str then .ok (some i)
      else if n.next < 0 then .ok none
      else lookupLoop hash keyhash key keytype str fuel n.next.toNat

/-- `lookup_key`: the slot of a key. -/
def lookup_key (tbl : Table) (keyhash : UInt32) (key : Int) (keytype : KeyType) (str : Bytes) :
    Except Fault (Option Nat) :=
  if tbl.sizehash = 0 then .ok none
  else
    let pos := mainpos keyhash tbl.sizehash
    match tbl.hash[pos]? with
    | none => .error .beyond
    | some n =>
      if keyhash ≠ n.keyhash ∧ n.nocolliding then .ok none
      else lookupLoop L tbl.hash keyhash key keytype str tbl.sizehash pos

/-- The end of `lindexconf`. -/
def pushnode (tbl : Table) (found : Option Nat) : Option Answer :=
  found.bind fun i => tbl.hash[i]?.map fun n => pushvalue L n.v

def lindexconf (tbl : Table) : Value → Except Fault (Option Answer)
  | .number _ => .error .raised
  | .integer d =>
    let key := toInt d
    if 0 < key ∧ key ≤ tbl.sizearray then .ok (tbl.array[(key - 1).toNat]?.map (pushvalue L))
    else (lookup_key L tbl (UInt32.ofInt key) key .integer []).map (pushnode L tbl)
  | .string str => (lookup_key L tbl (calchash str) 0 .string str).map (pushnode L tbl)
  | _ => .error .raised

def pushkey (n : Node Table) : Value :=
  match n.keytype with
  | .integer => .integer (BitVec.ofInt 64 n.key)
  | .string => .string ((L n.key).getD [])

def pushfirsthash (tbl : Table) : Option Value := tbl.hash.head?.map (pushkey L)

/-- The first index from `i` on that has a value, as a key. -/
def nextarray (tbl : Table) (i : Nat) : Option Value :=
  ((tbl.array.drop i).findIdx? fun v => !v.isNil).map fun j => .integer (BitVec.ofNat 64 (i + j + 1))

/-- The key after the slot of a key. -/
def nexthash (tbl : Table) (found : Option Nat) : Option Value :=
  found.bind fun i => tbl.hash[i + 1]?.map (pushkey L)

def lnextkey (tbl : Table) : Value → Except Fault (Option Value)
  | .nil => .ok ((nextarray tbl 0).or (pushfirsthash L tbl))
  | .number _ => .ok none
  | .integer d =>
    let key := toInt d
    if 0 < key ∧ key ≤ tbl.sizearray then .ok ((nextarray tbl key.toNat).or (pushfirsthash L tbl))
    else (lookup_key L tbl (UInt32.ofInt key) key .integer []).map (nexthash L tbl)
  | .string str => (lookup_key L tbl (calchash str) 0 .string str).map (nexthash L tbl)
  | _ => .error .raised

/-- The keys that `lnextkey` gives from a key on, each the next one of the one before. -/
def traverse (tbl : Table) : Nat → Value → Except Fault (List Value)
  | 0, _ => .error .fuel
  | fuel + 1, k => do
    match ← lnextkey L tbl k with
    | none => .ok []
    | some k' => do
      let ks ← traverse tbl fuel k'
      .ok (k' :: ks)

end Reads

end Sharedata
end Skynet
