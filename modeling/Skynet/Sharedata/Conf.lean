import Skynet.Lua.Value

/-!
# Skynet.Sharedata.Conf

How `lua-sharedata.c` makes a structure of a Lua table: `lnewconf` with `convtable` and what that calls.

* `struct table *` is the table itself. `convtable` returns the table it fills, so `ctx->tbl` has no
  place in the context; `arraytype` and `array` are one list of values, `sizearray` and `sizehash` the lengths.
* `Host` is what Lua and the C library do here: the length of a table, the memory a call of `malloc`
  gives, with what is left in it, and the room on the stack of strings. `calls` is the number of C calls that
  Lua still lets nest.
* The strings of all tables are in one map. A key that is no number is read as a string, and the
  string of a table is the empty one.
-/

namespace Skynet
namespace Sharedata

open Lua

abbrev Bytes := List UInt8

/-! ### The structure -/

inductive KeyType where
  | integer
  | string
deriving DecidableEq, Repr

/-- `union value` with its `valuetype`. -/
inductive Val (T : Type) where
  | nil
  | real (bits : BitVec 64)
  | string (index : Int)
  | boolean (b : Bool)
  | table (tbl : T)
  | integer (d : BitVec 64)

def Val.isNil {T : Type} : Val T → Bool
  | .nil => true
  | _ => false

structure Node (T : Type) where
  v : Val T
  /-- integer key or index of string table -/
  key : Int
  /-- next slot index -/
  next : Int
  keyhash : UInt32
  keytype : KeyType
  nocolliding : Bool

inductive Table where
  | mk (array : List (Val Table)) (hash : List (Node Table))

namespace Table

def array : Table → List (Val Table)
  | mk array _ => array

def hash : Table → List (Node Table)
  | mk _ hash => hash

def sizearray (tbl : Table) : Nat := tbl.array.length

def sizehash (tbl : Table) : Nat := tbl.hash.length

@[simp] theorem array_mk (array : List (Val Table)) (hash : List (Node Table)) : (mk array hash).array = array := rfl

@[simp] theorem hash_mk (array : List (Val Table)) (hash : List (Node Table)) : (mk array hash).hash = hash := rfl

end Table

/-! ### The strings -/

/-- The table at index 1 of `ctx->L`, which gives the strings their indices, and `string_index`. -/
structure StringMap where
  entries : List (Bytes × Int)
  string_index : Int
  le_index : ∀ p ∈ entries, p.2 ≤ string_index
  inj_string : ∀ p ∈ entries, ∀ q ∈ entries, p.1 = q.1 → p = q
  inj_index : ∀ p ∈ entries, ∀ q ∈ entries, p.2 = q.2 → p = q

namespace StringMap

/-- Index 1 is reserved for the dirty flag. -/
def init : StringMap where
  entries := []
  string_index := 1
  le_index := by simp
  inj_string := by simp
  inj_index := by simp

/-- A new string gets the next index. -/
def add (m : StringMap) (str : Bytes) (hnew : ∀ p ∈ m.entries, p.1 ≠ str) : StringMap where
  entries := m.entries ++ [(str, m.string_index + 1)]
  string_index := m.string_index + 1
  le_index := by
    intro p hp
    rcases List.mem_append.mp hp with hp | hp
    · exact Int.le_trans (m.le_index p hp) (by omega)
    · obtain rfl := List.mem_singleton.mp hp
      exact Int.le_refl _
  inj_string := by
    intro p hp q hq h
    rcases List.mem_append.mp hp with hp | hp <;> rcases List.mem_append.mp hq with hq | hq
    · exact m.inj_string p hp q hq h
    · rw [List.mem_singleton.mp hq] at h
      exact absurd h (hnew p hp)
    · rw [List.mem_singleton.mp hp] at h
      exact absurd h.symm (hnew q hq)
    · rw [List.mem_singleton.mp hp, List.mem_singleton.mp hq]
  inj_index := by
    intro p hp q hq h
    rcases List.mem_append.mp hp with hp | hp <;> rcases List.mem_append.mp hq with hq | hq
    · exact m.inj_index p hp q hq h
    · have hle := m.le_index p hp
      rw [h, List.mem_singleton.mp hq] at hle
      exact absurd hle (by simp only; omega)
    · have hle := m.le_index q hq
      rw [← h, List.mem_singleton.mp hp] at hle
      exact absurd hle (by simp only; omega)
    · rw [List.mem_singleton.mp hp, List.mem_singleton.mp hq]

/-- `stringindex`. -/
def stringindex (m : StringMap) (str : Bytes) : Int × StringMap :=
  match h : m.entries.find? fun p => p.1 = str with
  | some p => (p.2, m)
  | none => (m.string_index + 1, m.add str fun p hp he => by simpa [he] using List.find?_eq_none.mp h p hp)

end StringMap

/-! ### Keys -/

def calchashLoop (str : Bytes) (step : Nat) : Nat → Nat → UInt32 → UInt32
  | 0, _, h => h
  | fuel + 1, l1, h =>
    if l1 < step then h
    else calchashLoop str step fuel (l1 - step) (h ^^^ ((h <<< 5) + (h >>> 2) + (str.getD (l1 - 1) 0).toUInt32))

def calchash (str : Bytes) : UInt32 :=
  calchashLoop str (str.length / 32 + 1) (str.length + 1) str.length (UInt32.ofNat str.length)

/-- `(int)lua_tointeger`. -/
def toInt (d : BitVec 64) : Int := (d.setWidth 32).toInt

/-- `lua_tointeger`, for the keys of type `LUA_TNUMBER`. -/
def tointeger : Value → Option (BitVec 64)
  | .integer d => some d
  | .number bits => some ((floatToInteger bits).getD 0)
  | _ => none

/-- `lua_tolstring` for a key that is no number: no string has a length of 0. -/
def tolstring : Value → Bytes
  | .string s => s
  | _ => []

/-- What `ishashkey` finds: a key of the array part, or the key, hash and type for a slot. -/
inductive Place where
  | array (key : Int)
  | hash (key : Int) (keyhash : UInt32) (keytype : KeyType)
deriving DecidableEq, Repr

def ishashkey (sizearray : Nat) (k : Value) (m : StringMap) : Place × StringMap :=
  match tointeger k with
  | some d =>
    let key := toInt d
    if 0 < key ∧ key ≤ sizearray then (.array key, m) else (.hash key (UInt32.ofInt key) .integer, m)
  | none =>
    let s := tolstring k
    let (key, m) := m.stringindex s
    (.hash key (calchash s) .string, m)

/-! ### The conversion -/

/-- What is left in the memory of a slot. -/
structure Junk where
  key : Int
  next : Int
  keyhash : UInt32
  keytype : KeyType

structure Host where
  rawlen : Entries → Nat
  /-- `luaH_getn` returns an `int`. -/
  rawlen_lt : ∀ es, rawlen es < 2 ^ 31
  /-- What each call of `malloc` gives. -/
  malloc : Nat → Option (Nat → Junk)
  /-- The slots that `luaL_checkstack` can get. -/
  stack : Nat

structure Context where
  stringmap : StringMap
  /-- the calls of `malloc` so far -/
  mallocs : Nat

inductive Error where
  /-- "Invalid key %f" -/
  | invalidKey (bits : BitVec 64)
  /-- "Invalid key type %s" -/
  | invalidKeyType (type : Value.TypeName)
  /-- "Unsupport value type %s" -/
  | unsupported (type : Value.TypeName)
  /-- "memory error" -/
  | memory
  /-- Lua's "C stack overflow" -/
  | cStack
  /-- "stack overflow" of `luaL_checkstack` -/
  | stack
  /-- The count of the keys does not fit an `int`. -/
  | overflow
  /-- `assert(n)` -/
  | assertion
  /-- A slot outside of the hash part. -/
  | beyond

/-- The conversion of a table. -/
abbrev Conv := Entries → Context → Except Error (Table × Context)

def malloc (host : Host) (ctx : Context) : Except Error ((Nat → Junk) × Context) :=
  match host.malloc ctx.mallocs with
  | some junk => .ok (junk, { ctx with mallocs := ctx.mallocs + 1 })
  | none => .error .memory

/-- The keys that `countsize` counts. -/
def countKey (sizearray : Nat) : Value → Except Error Nat
  | .integer nkey => .ok (if 0 < nkey.toInt ∧ nkey.toInt ≤ sizearray then 0 else 1)
  | .number bits => .error (.invalidKey bits)
  | .string _ => .ok 1
  | .table _ => .ok 1
  | k => .error (.invalidKeyType k.typeName)

def countsize (sizearray : Nat) : Entries → Except Error Nat
  | [] => .ok 0
  | (k, _) :: es => do
    let n ← countKey sizearray k
    let rest ← countsize sizearray es
    .ok (n + rest)

/-- `setvalue`; `lua_call` runs `convtable`. -/
def setvalue (host : Host) (conv : Conv) (v : Value) (ctx : Context) : Except Error (Val Table × Context) :=
  match v with
  | .nil => .ok (.nil, ctx)
  | .integer d => .ok (.integer d, ctx)
  | .number bits => .ok (.real bits, ctx)
  | .string s =>
    let (index, m) := ctx.stringmap.stringindex s
    .ok (.string index, { ctx with stringmap := m })
  | .boolean b => .ok (.boolean b, ctx)
  | .table es => do
    let (_, ctx) ← malloc host ctx
    let (tbl, ctx) ← conv es ctx
    .ok (.table tbl, ctx)
  | .lightuserdata _ => .error (.unsupported .userdata)

def setarray (host : Host) (conv : Conv) (tbl : Table) (v : Value) (key : Int) (ctx : Context) :
    Except Error (Table × Context) := do
  let (w, ctx) ← setvalue host conv v ctx
  .ok (.mk (tbl.array.set (key - 1).toNat w) tbl.hash, ctx)

/-- The main position of a hash. -/
def mainpos (keyhash : UInt32) (sizehash : Nat) : Nat := keyhash.toNat % sizehash

/-- The body of the loop of `fillnocolliding`. -/
def nocolliding (host : Host) (conv : Conv) (st : Table × Context) (pair : Value × Value) :
    Except Error (Table × Context) :=
  let (tbl, ctx) := st
  let (place, m) := ishashkey tbl.sizearray pair.1 ctx.stringmap
  let ctx := { ctx with stringmap := m }
  match place with
  | .array key => setarray host conv tbl pair.2 key ctx
  | .hash key keyhash keytype =>
    let pos := mainpos keyhash tbl.sizehash
    match tbl.hash[pos]? with
    | none => .error .beyond
    | some n =>
      if n.v.isNil then do
        let (w, ctx) ← setvalue host conv pair.2 ctx
        .ok (.mk tbl.array (tbl.hash.set pos ⟨w, key, -1, keyhash, keytype, true⟩), ctx)
      else .ok (tbl, ctx)

def fillnocolliding (host : Host) (conv : Conv) (es : Entries) (st : Table × Context) :
    Except Error (Table × Context) :=
  es.foldlM (nocolliding host conv) st

/-- `fillcolliding`, for the slot `i` that it found: the slot goes behind the main position. -/
def linkNode (hash : List (Node Table)) (pos : Nat) (main : Node Table) (i : Nat) (key : Int) (keyhash : UInt32)
    (keytype : KeyType) : List (Node Table) :=
  let hash := hash.modify i fun n => { n with next := main.next }
  let hash := hash.modify pos fun n => { n with next := i, nocolliding := false }
  hash.modify i fun n => { n with key := key, keytype := keytype, keyhash := keyhash, nocolliding := false }

/-- The body of the loop of `fillcolliding`; `emptyslot` stays 0. -/
def colliding (host : Host) (conv : Conv) (st : Table × Context) (pair : Value × Value) :
    Except Error (Table × Context) :=
  let (tbl, ctx) := st
  let (place, m) := ishashkey tbl.sizearray pair.1 ctx.stringmap
  let ctx := { ctx with stringmap := m }
  match place with
  | .array _ => .ok (tbl, ctx)
  | .hash key keyhash keytype =>
    let pos := mainpos keyhash tbl.sizehash
    match tbl.hash[pos]? with
    | none => .error .beyond
    | some main =>
      if main.keytype = keytype ∧ main.key = key then .ok (tbl, ctx)
      else
        match tbl.hash.findIdx? fun n => n.v.isNil with
        | none => .error .assertion
        | some i => do
          let hash := linkNode tbl.hash pos main i key keyhash keytype
          let (w, ctx) ← setvalue host conv pair.2 ctx
          .ok (.mk tbl.array (hash.modify i fun n => { n with v := w }), ctx)

def fillcolliding (host : Host) (conv : Conv) (es : Entries) (st : Table × Context) :
    Except Error (Table × Context) :=
  es.foldlM (colliding host conv) st

/-- The loop over the array part of a table that has no other keys. -/
def fillarray (host : Host) (conv : Conv) (es : Entries) (st : Table × Context) : Except Error (Table × Context) :=
  (List.range st.1.sizearray).foldlM
    (fun st i => setarray host conv st.1 (rawgeti es (i + 1)) (i + 1 : Nat) st.2) st

/-- A slot as `convtable` leaves it after `malloc`. -/
def emptySlot (junk : Junk) : Node Table := ⟨.nil, junk.key, junk.next, junk.keyhash, junk.keytype, false⟩

/-- `arraytype` and `array`. -/
def mallocArray (host : Host) (sizearray : Nat) (ctx : Context) : Except Error Context :=
  if sizearray = 0 then .ok ctx
  else do
    let (_, ctx) ← malloc host ctx
    let (_, ctx) ← malloc host ctx
    .ok ctx

/-- `convtable`, with the conversion that `setvalue` calls. -/
def convtableBody (host : Host) (conv : Conv) (es : Entries) (ctx : Context) : Except Error (Table × Context) := do
  let sizearray := host.rawlen es
  let ctx ← mallocArray host sizearray ctx
  let array := List.replicate sizearray Val.nil
  let sizehash ← countsize sizearray es
  if 2 ^ 31 ≤ sizehash then .error .overflow
  else if sizehash = 0 then fillarray host conv es (.mk array [], ctx)
  else do
    let (junk, ctx) ← malloc host ctx
    let st ← fillnocolliding host conv es (.mk array ((List.range sizehash).map fun i => emptySlot (junk i)), ctx)
    fillcolliding host conv es st

def convtable (host : Host) : Nat → Conv
  | 0 => fun _ _ => .error .cStack
  | calls + 1 => convtableBody host (convtable host calls)

/-! ### The object -/

/-- The root table, and the stack of `tbl->L`. -/
structure Conf where
  root : Table
  L : Int → Option Bytes

/-- `convert_stringmap`: each string goes to the slot of its index. -/
def convert_stringmap (m : StringMap) : Int → Option Bytes :=
  fun idx => (m.entries.find? fun p => p.2 = idx).map Prod.fst

/-- `lnewconf`, for an argument that is a table, with `pconv`. -/
def lnewconf (host : Host) (calls : Nat) (es : Entries) : Except Error Conf := do
  -- `luaL_newstate`, and the root table
  let (_, ctx) ← malloc host ⟨.init, 0⟩
  let (_, ctx) ← malloc host ctx
  let (tbl, ctx) ← convtable host calls es ctx
  if host.stack < ctx.stringmap.string_index + 3 then .error .stack
  else .ok ⟨tbl, convert_stringmap ctx.stringmap⟩

end Sharedata
end Skynet
