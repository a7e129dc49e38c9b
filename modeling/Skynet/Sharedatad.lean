import Mathlib.Logic.Function.Basic
import Skynet.Lib.Run
import Skynet.Lua.Value

/-!
# Skynet.Sharedatad

The shared data service, `sharedatad.lua`. A name has an entry in `pool` with its object, made by
`sharedata.host.new` out of a table, and the responses of the services that wait for a new one.

* An object is the address of a C structure; `objmap` has it until it is deleted, so a new object gets
  an address that is not in `objmap`. The map holds the entry while the object is in use, then `true`.
* What `loadfile`, `load` and a chunk do is a parameter. A chunk that yields lets other requests in;
  here it does not.
* A request that raises an error leaves the state as it is at that point.

`CMD.update` takes the old entry apart before it evaluates the new value. `update_error_iff` says when
an error leaves everything as it was; `update_answers` is what a successful update does.
-/

namespace Skynet
namespace Sharedatad

open Lua

abbrev Bytes := List UInt8
abbrev Cobj := Nat
abbrev Response := Nat

inductive Error where
  | raised (message : Bytes)
  /-- `error ("Unknown data type " .. dt)` -/
  | unknownDataType (dt : Value.TypeName)
  | assertionFailed
  /-- `host.new` -/
  | unsupported
deriving DecidableEq, Repr

/-- `pool[name]`. -/
structure Entry where
  value : Entries
  obj : Cobj
  watch : List Response

/-- `pool_count[name]`. -/
structure Count where
  n : Nat
  threshold : Nat

/-- `objmap[cobj]`: the entry, or `true` for an object that waits to be collected. -/
inductive Mark where
  | entry
  | dropped
deriving DecidableEq, Repr

structure State where
  pool : Bytes → Option Entry
  pool_count : Bytes → Option Count
  objmap : Cobj → Option Mark
  collect_tick : Int
  /-- the C side: `ref` and `dirty` of an object -/
  ref : Cobj → Int
  dirty : Cobj → Bool

def State.init : State where
  pool := fun _ => none
  pool_count := fun _ => none
  objmap := fun _ => none
  collect_tick := 600
  ref := fun _ => 0
  dirty := fun _ => false

/-! ### The C side -/

/-- `countsize`: the types of key that it lets pass. -/
def keyType : Value → Bool
  | .integer _ => true
  | .string _ => true
  | .table _ => true
  | _ => false

mutual

/-- `setvalue`. Values of other types (functions, userdata, threads) are as unsupported as light userdata. -/
def setvalue : Value → Bool
  | .nil => true
  | .boolean _ => true
  | .integer _ => true
  | .number _ => true
  | .string _ => true
  | .lightuserdata _ => false
  | .table es => convtable es

/-- `convtable`: whether a table is taken over. -/
def convtable : List (Value × Value) → Bool
  | [] => true
  | (k, v) :: es => keyType k && setvalue v && convtable es

end

def incref (s : State) (cobj : Cobj) : State := { s with ref := Function.update s.ref cobj (s.ref cobj + 1) }

def decref (s : State) (cobj : Cobj) : State := { s with ref := Function.update s.ref cobj (s.ref cobj - 1) }

def markdirty (s : State) (cobj : Cobj) : State := { s with dirty := Function.update s.dirty cobj true }

/-- `host.new`, which gets the address `cobj`. -/
def hostNew (s : State) (tbl : Entries) (cobj : Cobj) : Except Error State :=
  if convtable tbl then
    .ok { s with ref := Function.update s.ref cobj 0, dirty := Function.update s.dirty cobj false }
  else .error .unsupported

/-! ### The commands -/

/-- What happens when a file or a text is loaded and its chunk is run with arguments, in an environment of
its own: an error, or the globals it left and the value it returned. -/
structure Loader (Chunk : Type) where
  loadfile : Bytes → Except Bytes Chunk
  load : Bytes → Bytes → Except Bytes Chunk
  pcall : Chunk → List Value → Except Bytes (Entries × Value)

section Commands

variable {Chunk : Type} (loader : Loader Chunk)

def newobj (name : Bytes) (tbl : Entries) (cobj : Cobj) (s : State) : Except Error Unit × State :=
  if (s.pool name).isSome then (.error .assertionFailed, s)
  else
    match hostNew s tbl cobj with
    | .error e => (.error e, s)
    | .ok s =>
      let s := incref s cobj
      (.ok (), { s with
        objmap := Function.update s.objmap cobj (some .entry)
        pool := Function.update s.pool name (some ⟨tbl, cobj, []⟩)
        pool_count := Function.update s.pool_count name (some ⟨0, 16⟩) })

/-- The table that `t` stands for: itself, or what its chunk makes. The character `@` names a file. -/
def evaluate (name : Bytes) (t : Value) (args : List Value) : Except Error Entries :=
  match t with
  | .table es => .ok es
  | .nil => .ok []
  | .string code =>
    let f := match code with
      | 0x40 :: path => loader.loadfile path
      | _ => loader.load code name
    match f with
    | .error message => .error (.raised message)
    | .ok f =>
      match loader.pcall f args with
      | .error message => .error (.raised message)
      | .ok (_, .table ret) => .ok ret
      | .ok (value, _) => .ok value
  | t => .error (.unknownDataType t.typeName)

def new (name : Bytes) (t : Value) (args : List Value) (cobj : Cobj) (s : State) : Except Error Unit × State :=
  match evaluate loader name t args with
  | .error e => (.error e, s)
  | .ok value => newobj name value cobj s

/-- `CMD.delete`, with the responses it gives. -/
def delete (name : Bytes) (s : State) : Except Error (List (Response × Option Cobj)) × State :=
  match s.pool name with
  | none => (.error .assertionFailed, s)
  | some v =>
    let s := { s with pool := Function.update s.pool name none, pool_count := Function.update s.pool_count name none }
    if (s.objmap v.obj).isSome then
      let s := decref { s with objmap := Function.update s.objmap v.obj (some .dropped) } v.obj
      (.ok (v.watch.map fun response => (response, none)), s)
    else (.error .assertionFailed, s)

def query (name : Bytes) (s : State) : Except Error Cobj × State :=
  match s.pool name with
  | none => (.error .assertionFailed, s)
  | some v => (.ok v.obj, incref s v.obj)

def confirm (cobj : Cobj) (s : State) : State := if (s.objmap cobj).isSome then decref s cobj else s

def collect10sec (s : State) : State := if 10 < s.collect_tick then { s with collect_tick := 10 } else s

/-- The part of `CMD.update` before `CMD.new`. -/
def takeApart (name : Bytes) (s : State) : State :=
  match s.pool name with
  | none => s
  | some v =>
    let s := decref { s with objmap := Function.update s.objmap v.obj (some .dropped) } v.obj
    { s with pool := Function.update s.pool name none, pool_count := Function.update s.pool_count name none }

/-- `CMD.update`, with the responses it gives. -/
def update (name : Bytes) (t : Value) (args : List Value) (cobj : Cobj) (s : State) :
    Except Error (List (Response × Option Cobj)) × State :=
  let v := s.pool name
  match new loader name t args cobj (takeApart name s) with
  | (.error e, s) => (.error e, s)
  | (.ok (), s) =>
    match s.pool name, v with
    | none, _ => (.error .assertionFailed, s)
    | some _, none => (.ok [], collect10sec s)
    | some new, some old =>
      (.ok (old.watch.map fun response => (response, some new.obj)), collect10sec (markdirty s old.obj))

/-- `CMD.monitor`, where `alive` is what a response answers to `TEST`; `none` is no reply. -/
def monitor (name : Bytes) (obj : Cobj) (response : Response) (alive : Response → Bool) (s : State) :
    Except Error (Option Cobj) × State :=
  match s.pool name with
  | none => (.error .assertionFailed, s)
  | some v =>
    if obj ≠ v.obj then (.ok (some v.obj), s)
    else
      match s.pool_count name with
      | none => (.error .assertionFailed, s)
      | some count =>
        let full := count.threshold < count.n + 1
        let watch := if full then v.watch.filter alive else v.watch
        let n := if full then count.n + 1 - (v.watch.length - watch.length) else count.n + 1
        let threshold := if full then n * 2 else count.threshold
        (.ok none, { s with
          pool := Function.update s.pool name (some { v with watch := watch ++ [response] })
          pool_count := Function.update s.pool_count name (some ⟨n, threshold⟩) })

/-- One round of `collectobj`. -/
def collectobj (s : State) : State :=
  if s.collect_tick ≤ 0 then
    { s with collect_tick := 600
             objmap := fun obj => if s.objmap obj = some .dropped ∧ s.ref obj ≤ 0 then none else s.objmap obj }
  else { s with collect_tick := s.collect_tick - 1 }

/-- A request, with the address that `host.new` gets. -/
inductive Request where
  | new (name : Bytes) (t : Value) (args : List Value) (cobj : Cobj)
  | delete (name : Bytes)
  | query (name : Bytes)
  | confirm (cobj : Cobj)
  | update (name : Bytes) (t : Value) (args : List Value) (cobj : Cobj)
  | monitor (name : Bytes) (obj : Cobj) (response : Response) (alive : Response → Bool)
  | collect

/-- The state after a request, whether it raised an error or not. A new object has an address that no other
object has. -/
def step (s : State) : Request → Option State
  | .new name t args cobj => if s.objmap cobj = none then some (new loader name t args cobj s).2 else none
  | .delete name => some (delete name s).2
  | .query name => some (query name s).2
  | .confirm cobj => some (confirm cobj s)
  | .update name t args cobj => if s.objmap cobj = none then some (update loader name t args cobj s).2 else none
  | .monitor name obj response alive => some (monitor name obj response alive s).2
  | .collect => some (collectobj s)

/-! ### Updates -/

/-- What the claim says of an update that raised an error, from `s` to `s'`. -/
structure AllOrNothing (name : Bytes) (v : Entry) (s s' : State) : Prop where
  query : (query name s').1 = .ok v.obj
  registered : ∃ v', s'.pool name = some v' ∧ ∀ response ∈ v.watch, response ∈ v'.watch
  answered : ∀ t args cobj responses s'', update loader name t args cobj s' = (.ok responses, s'') →
    ∀ response ∈ v.watch, (response, some cobj) ∈ responses
  ref : s'.ref v.obj = s.ref v.obj

variable {loader} {name : Bytes} {t : Value} {args : List Value} {cobj : Cobj} {s s' : State} {e : Error}

theorem newobj_error {tbl : Entries} (h : newobj name tbl cobj s = (.error e, s')) : s' = s := by
  simp only [newobj] at h
  split at h
  · exact (Prod.mk.inj h).2.symm
  · split at h
    · exact (Prod.mk.inj h).2.symm
    · cases h

theorem newobj_ok {tbl : Entries} (h : newobj name tbl cobj s = (.ok (), s')) :
    s'.pool = Function.update s.pool name (some ⟨tbl, cobj, []⟩) := by
  simp only [newobj] at h
  split at h
  · cases h
  · split at h
    · cases h
    · rename_i s₁ hs
      simp only [hostNew] at hs
      split at hs
      · cases hs
        rw [← (Prod.mk.inj h).2]
        rfl
      · cases hs

/-- `CMD.new` that raises an error leaves the state alone. -/
theorem new_error (h : new loader name t args cobj s = (.error e, s')) : s' = s := by
  simp only [new] at h
  split at h
  · exact (Prod.mk.inj h).2.symm
  · exact newobj_error h

theorem new_ok (h : new loader name t args cobj s = (.ok (), s')) :
    ∃ value, s'.pool = Function.update s.pool name (some ⟨value, cobj, []⟩) := by
  simp only [new] at h
  split at h
  · cases h
  · exact ⟨_, newobj_ok h⟩

theorem takeApart_pool : (takeApart name s).pool name = none := by
  cases hv : s.pool name with
  | none => simp only [takeApart, hv]
  | some v => simp only [takeApart, hv, Function.update_self]

/-- An update raises the errors of `CMD.new`, after the entry was taken apart. -/
theorem update_error (h : update loader name t args cobj s = (.error e, s')) : s' = takeApart name s := by
  simp only [update] at h
  split at h
  · rename_i hnew
    rw [← (Prod.mk.inj h).2]
    exact new_error hnew
  · rename_i s₁ hnew
    obtain ⟨value, hpool⟩ := new_ok hnew
    rw [hpool, Function.update_self] at h
    cases hv : s.pool name with
    | none => rw [hv] at h; cases h
    | some v => rw [hv] at h; cases h

/-- A successful update answers all services that wait for the name, with the new object. -/
theorem update_answers {v : Entry} {responses : List (Response × Option Cobj)} (hv : s.pool name = some v)
    (h : update loader name t args cobj s = (.ok responses, s')) :
    responses = v.watch.map fun response => (response, some cobj) := by
  simp only [update, hv] at h
  split at h
  · cases h
  · rename_i s₁ hnew
    obtain ⟨value, hpool⟩ := new_ok hnew
    rw [hpool, Function.update_self] at h
    cases h
    rfl

/-- Nothing happens when there was no entry to take apart. -/
theorem update_error_unregistered (h : update loader name t args cobj s = (.error e, s')) (hnone : s.pool name = none) :
    s' = s := by
  rw [update_error h, takeApart, hnone]

/-- **Updates that fail.** An update that raises an error leaves the old object, its watchers and its
references as they were if and only if there is no old object. -/
theorem update_error_iff (h : update loader name t args cobj s = (.error e, s')) :
    (∀ v, s.pool name = some v → AllOrNothing loader name v s s') ↔ s.pool name = none := by
  constructor
  · intro hall
    by_contra hne
    obtain ⟨v, hv⟩ := Option.ne_none_iff_exists'.mp hne
    have hquery := (hall v hv).query
    rw [update_error h, query, takeApart_pool] at hquery
    cases hquery
  · intro hnone v hv
    rw [hnone] at hv
    cases hv

end Commands

/-- A loader that finds no file and takes no text. -/
def noLoader : Loader Unit where
  loadfile := fun _ => .error []
  load := fun _ _ => .error []
  pcall := fun _ _ => .error []

/-- The first update of a name, with a text that does not load. -/
theorem update_error_first : ∃ s', update noLoader [0x61] (.string [0x78]) [] 1 .init = (.error (.raised []), s') ∧
    ∀ v, State.init.pool [0x61] = some v → AllOrNothing noLoader [0x61] v .init s' := by
  have h : update noLoader [0x61] (.string [0x78]) [] 1 .init = (.error (.raised []), .init) := rfl
  exact ⟨.init, h, (update_error_iff h).mpr rfl⟩

/-- A name with an object and a watcher, and an update with a boolean. -/
theorem update_loses_object : ¬ ∀ (requests : List Request) (s : State) (name : Bytes) (t : Value) (cobj : Cobj) (e : Error)
    (s' : State), Lts.run (step noLoader) .init requests = some s → s.objmap cobj = none →
      update noLoader name t [] cobj s = (.error e, s') → ∀ v, s.pool name = some v → AllOrNothing noLoader name v s s' := by
  intro hclaim
  let requests : List Request := [.new [0x61] .nil [] 1, .query [0x61], .confirm 1, .monitor [0x61] 1 7 fun _ => true]
  obtain ⟨s, hrun⟩ : ∃ s, Lts.run (step noLoader) .init requests = some s := ⟨_, rfl⟩
  have hs := Option.some.inj hrun
  have hpool : s.pool [0x61] = some ⟨[], 1, [7]⟩ := by rw [← hs]; rfl
  have hfresh : s.objmap 2 = none := by rw [← hs]; rfl
  obtain ⟨s', h⟩ : ∃ s', update noLoader [0x61] (.boolean true) [] 2 s = (.error (.unknownDataType .boolean), s') := by
    rw [← hs]
    exact ⟨_, rfl⟩
  have hnone := (update_error_iff h).mp fun v hv => hclaim requests s _ _ 2 _ s' hrun hfresh h v hv
  rw [hpool] at hnone
  cases hnone

end Sharedatad
end Skynet
