import Mathlib.Algebra.Ring.Int.Defs
import Mathlib.Algebra.Ring.Nat
import Mathlib.Data.List.Perm.Basic
import Mathlib.Data.List.Forall2

/-!
# Skynet.Lua.Value

Lua values as the C code sees them through the Lua API, and raw access to tables.

* Integers, floats and light userdata are 64-bit words; a float is its bit pattern.
* A table is the list of its pairs in the order `lua_next` visits them. Tables are compared by
  identity in Lua; where keys are compared here, one of them is a new object or no table at all, so
  a table is never the same key as another.
* `Same` : two values are built alike, with the pairs of a table in any order.
-/

namespace Skynet
namespace Lua

inductive Value where
  | nil
  | boolean (b : Bool)
  | integer (v : BitVec 64)
  | number (bits : BitVec 64)
  | string (s : List UInt8)
  | lightuserdata (p : BitVec 64)
  | table (entries : List (Value × Value))

abbrev Entries := List (Value × Value)

namespace Value

def isNil : Value → Bool
  | nil => true
  | _ => false

/-- Equality of keys, by `luaV_rawequalobj`. -/
def sameKey : Value → Value → Bool
  | nil, nil => true
  | boolean a, boolean b => a == b
  | integer a, integer b => a == b
  | number a, number b => a == b
  | string a, string b => a == b
  | lightuserdata a, lightuserdata b => a == b
  | _, _ => false

/-- The types that `lua_typename` names. -/
inductive TypeName where
  | nil
  | boolean
  | number
  | string
  | userdata
  | table
deriving Repr, DecidableEq

def typeName : Value → TypeName
  | nil => .nil
  | boolean _ => .boolean
  | integer _ => .number
  | number _ => .number
  | string _ => .string
  | lightuserdata _ => .userdata
  | table _ => .table

end Value

/-! ### Floats -/

def floatExponent (bits : BitVec 64) : Nat := bits.toNat / 2 ^ 52 % 2 ^ 11

def floatMantissa (bits : BitVec 64) : Nat := bits.toNat % 2 ^ 52

def isNaN (bits : BitVec 64) : Bool := floatExponent bits = 2047 ∧ floatMantissa bits ≠ 0

/-- The magnitude of a float, when it is an integral number. -/
def floatMagnitude (bits : BitVec 64) : Option Nat :=
  let e := floatExponent bits
  let m := floatMantissa bits
  if e = 2047 then none
  else if e = 0 then if m = 0 then some 0 else none
  else if 1075 ≤ e then some ((2 ^ 52 + m) * 2 ^ (e - 1075))
  else if (2 ^ 52 + m) % 2 ^ (1075 - e) = 0 then some ((2 ^ 52 + m) / 2 ^ (1075 - e))
  else none

/-- `luaV_tointeger(key, &k, 0)` for a float: the integer of the same value, if there is one. -/
def floatToInteger (bits : BitVec 64) : Option (BitVec 64) :=
  match floatMagnitude bits with
  | none => none
  | some m =>
    let v : Int := if 2 ^ 63 ≤ bits.toNat then -m else m
    if -2 ^ 63 ≤ v ∧ v < 2 ^ 63 then some (BitVec.ofInt 64 v) else none

/-! ### Tables -/

/-- The value of a key; nil if the table does not have it. -/
def rawget (t : Entries) (k : Value) : Value :=
  match t.find? fun p => p.1.sameKey k with
  | some p => p.2
  | none => .nil

/-- `lua_rawgeti`. -/
def rawgeti (t : Entries) (i : Nat) : Value := rawget t (.integer (BitVec.ofNat 64 i))

/-- `lua_getfield`, for a table without metatable. -/
def getfield (t : Entries) (name : List UInt8) : Value := rawget t (.string name)

/-- A key that is one already is set; nil takes the pair out. -/
def setKey (t : Entries) (k v : Value) : Entries :=
  if v.isNil then t.filter fun p => !p.1.sameKey k
  else if t.any fun p => p.1.sameKey k then t.map fun p => if p.1.sameKey k then (p.1, v) else p
  else t ++ [(k, v)]

/-- `lua_rawseti`. -/
def rawseti (t : Entries) (i : Nat) (v : Value) : Entries := setKey t (.integer (BitVec.ofNat 64 i)) v

/-- `lua_setfield`, for a table without metatable. -/
def setfield (t : Entries) (name : List UInt8) (v : Value) : Entries := setKey t (.string name) v

/-- The key under which a pair is stored (`luaH_newkey`): an integral float becomes an integer; nil
and NaN are no keys. -/
def newKey : Value → Option Value
  | .nil => none
  | .number bits =>
    match floatToInteger bits with
    | some i => some (.integer i)
    | none => if isNaN bits then none else some (.number bits)
  | k => some k

/-- `lua_rawset`; no result when Lua raises an error for the key. -/
def rawset (t : Entries) (k v : Value) : Option Entries := (newKey k).map fun k => setKey t k v

/-- The keys a table can hold. -/
def KeyOk (k : Value) : Prop := newKey k = some k

/-! ### Structural equality -/

mutual

/-- Built alike: equal, or tables with the same pairs. -/
inductive Same : Value → Value → Prop
  | nil : Same .nil .nil
  | boolean (b : Bool) : Same (.boolean b) (.boolean b)
  | integer (v : BitVec 64) : Same (.integer v) (.integer v)
  | number (bits : BitVec 64) : Same (.number bits) (.number bits)
  | string (s : List UInt8) : Same (.string s) (.string s)
  | lightuserdata (p : BitVec 64) : Same (.lightuserdata p) (.lightuserdata p)
  | table {es es' : Entries} (h : SamePairs es es') : Same (.table es) (.table es')

/-- Each pair of the first list has its own pair in the second, and no pair is left over there. -/
inductive SamePairs : Entries → Entries → Prop
  | nil : SamePairs [] []
  | cons {k v k' v' : Value} {es es' rest : Entries} (hk : Same k k') (hv : Same v v')
      (hperm : es'.Perm ((k', v') :: rest)) (h : SamePairs es rest) : SamePairs ((k, v) :: es) es'

end

def SamePair (p q : Value × Value) : Prop := Same p.1 q.1 ∧ Same p.2 q.2

theorem samePairs_of_forall₂ {es mid es' : Entries} (h : List.Forall₂ SamePair es mid) (hp : es'.Perm mid) :
    SamePairs es es' := by
  induction h generalizing es' with
  | nil =>
    rw [List.perm_nil.mp hp]
    exact .nil
  | cons hpq _ ih => exact .cons hpq.1 hpq.2 hp (ih (List.Perm.refl _))

/-- Pairs alike up to the order on both sides. -/
theorem samePairs_of_perm {es mid mid' es' : Entries} (h₁ : es.Perm mid) (h : List.Forall₂ SamePair mid mid')
    (h₂ : mid'.Perm es') : SamePairs es es' := by
  obtain ⟨m, hm, hp⟩ := List.perm_comp_forall₂ h₁ h
  exact samePairs_of_forall₂ hm (h₂.symm.trans hp.symm)

theorem Same.isNil_eq {v v' : Value} (h : Same v v') : v'.isNil = v.isNil := by
  cases h <;> rfl

theorem Same.keyOk {k k' : Value} (h : Same k k') (hk : KeyOk k) : KeyOk k' := by
  cases h <;> first | exact hk | rfl

end Lua
end Skynet
