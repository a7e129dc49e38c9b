import Skynet.Sproto.Decode
import Skynet.Sproto.Type

/-!
# Skynet.Sproto.Create

`sproto_create` of `sproto.c`: the types and the protocols in the bytes of a schema. A pointer into the
bytes is an offset, `none` is NULL or the return of -1, and a read outside of the bytes gives no result.
-/

namespace Skynet
namespace Sproto

/-- `struct protocol`; a type is known by its index. -/
structure Protocol where
  name : Bytes
  tag : Nat
  request : Option Nat
  response : Option Nat
deriving DecidableEq

/-- `struct sproto`; a type stands behind its name. -/
structure Bundle where
  type : List (Bytes × SprotoType)
  proto : List Protocol
deriving DecidableEq

/-! ### Arrays and structs -/

/-- The loop of `count_array`. -/
def countLoop (buf : Bytes) : Nat → Nat → Nat → Nat → Except Fault (Option Nat)
  | 0, _, _, _ => .error .fuel
  | fuel + 1, stream, length, n =>
    if 0 < length then
      if length < SIZEOF_LENGTH then .ok none
      else do
        let nsz ← todword buf stream
        let nsz := (nsz + SIZEOF_LENGTH) % 2 ^ 32
        if length < nsz then .ok none
        else countLoop buf fuel (stream + nsz) (length - nsz) (n + 1)
    else .ok (some n)

def countArray (buf : Bytes) (stream : Nat) : Except Fault (Option Nat) := do
  let length ← todword buf stream
  countLoop buf (length + 1) (stream + SIZEOF_LENGTH) length 0

/-- The loop of `struct_field` over the values from `field` on, with the data from `stream` on. -/
def structLoop (buf : Bytes) : Nat → Nat → Nat → Nat → Except Fault Bool
  | 0, _, _, _ => .ok true
  | n + 1, field, stream, sz => do
    let value ← toword buf field
    if value ≠ 0 then structLoop buf n (field + SIZEOF_FIELD) stream sz
    else if sz < SIZEOF_LENGTH then .ok false
    else do
      let dsz ← todword buf stream
      let dsz := (SIZEOF_LENGTH + dsz) % 2 ^ 32
      if sz < dsz then .ok false
      else structLoop buf n (field + SIZEOF_FIELD) (stream + dsz) (sz - dsz)

def structField (buf : Bytes) (stream sz : Nat) : Except Fault (Option Nat) :=
  if sz < SIZEOF_LENGTH then .ok none
  else do
    let fn ← toword buf stream
    let header := SIZEOF_HEADER + SIZEOF_FIELD * fn
    if sz < header then .ok none
    else do
      let ok ← structLoop buf fn (stream + SIZEOF_HEADER) (stream + header) (sz - header)
      .ok (if ok then some fn else none)

def importString (buf : Bytes) (stream : Nat) : Except Fault Bytes := do
  let sz ← todword buf stream
  if stream + SIZEOF_LENGTH + sz ≤ buf.length then .ok ((buf.drop (stream + SIZEOF_LENGTH)).take sz) else .error .beyond

/-! ### Fields -/

/-- `struct field` while it is read; `none` is the NULL or the -1 that it starts with. -/
structure FieldRead where
  tag : Option Nat
  type : Option FieldType
  array : Bool
  name : Option Bytes
  key : Int
deriving DecidableEq

/-- The built-in types below `SPROTO_TSTRUCT`. -/
def buildinType : Nat → Option FieldType
  | 0 => some .integer
  | 1 => some .boolean
  | 2 => some .string
  | _ => none

/-- The `switch` of `import_field`. -/
def importFieldTag (type_n tag value : Nat) (f : FieldRead) : Option FieldRead :=
  match tag with
  | 1 => (buildinType value).map fun t => { f with type := some t }
  | 2 => if type_n ≤ value ∨ f.type.isSome then none else some { f with type := some (.struct value) }
  | 3 => some { f with tag := some value }
  | 4 => some (if value = 0 then f else { f with array := true })
  | 5 => some { f with key := value }
  | _ => none

/-- The loop of `import_field`, with the number of values left and the tag of the next one; the data begins
at `strings`. -/
def importFieldLoop (buf : Bytes) (type_n strings : Nat) : Nat → Nat → Nat → FieldRead → Except Fault (Option FieldRead)
  | 0, _, _, f => .ok (some f)
  | n + 1, at_, tag, f => do
    let value ← toword buf at_
    if value % 2 = 1 then importFieldLoop buf type_n strings n (at_ + SIZEOF_FIELD) (tag + value / 2 + 1) f
    else if tag = 0 then
      if value ≠ 0 then .ok none
      else do
        let name ← importString buf strings
        importFieldLoop buf type_n strings n (at_ + SIZEOF_FIELD) (tag + 1) { f with name := some name }
    else if value = 0 then .ok none
    else
      match importFieldTag type_n tag (value / 2 - 1) f with
      | none => .ok none
      | some f => importFieldLoop buf type_n strings n (at_ + SIZEOF_FIELD) (tag + 1) f

/-- The check at the end of `import_field`. -/
def FieldRead.field (f : FieldRead) : Option Field := do
  let tag ← f.tag
  let type ← f.type
  let name ← f.name
  some { tag := tag, type := type, array := f.array, name := name, key := f.key }

/-- `import_field`: the field and the end of its bytes. -/
def importField (buf : Bytes) (type_n stream : Nat) : Except Fault (Option (Field × Nat)) := do
  let sz ← todword buf stream
  let stream := stream + SIZEOF_LENGTH
  let some fn ← structField buf stream sz | .ok none
  let values := stream + SIZEOF_HEADER
  let some f ← importFieldLoop buf type_n (values + fn * SIZEOF_FIELD) fn values 0
    { tag := none, type := none, array := false, name := none, key := -1 } | .ok none
  .ok (f.field.map fun f => (f, stream + sz))

/-! ### Types -/

/-- The loop of `import_type` over the fields, with the number of fields left. -/
def importFieldsLoop (buf : Bytes) (type_n : Nat) : Nat → Nat → Int → Nat → List Field → Except Fault (Option (List Field × Nat))
  | 0, _, _, maxn, fs => .ok (some (fs, maxn))
  | n + 1, stream, last, maxn, fs => do
    let some (f, stream) ← importField buf type_n stream | .ok none
    if f.tag ≤ last then .ok none
    else importFieldsLoop buf type_n n stream f.tag (if last + 1 < f.tag then maxn + 1 else maxn) (fs ++ [f])

/-- The loop of `import_type` that looks whether the values are 0. -/
def allZero (buf : Bytes) : Nat → Nat → Except Fault Bool
  | 0, _ => .ok true
  | n + 1, at_ => do
    let v ← toword buf at_
    if v ≠ 0 then .ok false else allZero buf n (at_ + SIZEOF_FIELD)

/-- `import_type`: the type and the end of its bytes. A type with an array of no fields reads its first field
all the same. -/
def importTypeAt (buf : Bytes) (type_n stream : Nat) : Except Fault (Option ((Bytes × SprotoType) × Nat)) := do
  let sz ← todword buf stream
  let stream := stream + SIZEOF_LENGTH
  let result := stream + sz
  let some fn ← structField buf stream sz | .ok none
  if fn = 0 ∨ 2 < fn then .ok none
  else do
    let zero ← allZero buf fn (stream + SIZEOF_HEADER)
    if !zero then .ok none
    else do
      let stream := stream + SIZEOF_HEADER + fn * SIZEOF_FIELD
      let name ← importString buf stream
      if fn = 1 then .ok (some ((name, { base := 0, maxn := 0, f := [] }), result))
      else do
        let sz ← todword buf stream
        let stream := stream + (sz + SIZEOF_LENGTH) % 2 ^ 32
        let some n ← countArray buf stream | .ok none
        if n = 0 then .error .beyond
        else do
          let some (f, maxn) ← importFieldsLoop buf type_n n (stream + SIZEOF_LENGTH) (-1) n [] | .ok none
          .ok (some ((name, { base := importBase f, maxn := maxn, f := f }), result))

/-! ### Protocols -/

structure ProtocolRead where
  name : Option Bytes
  tag : Option Nat
  request : Option Nat
  response : Option Nat
deriving DecidableEq

/-- The `switch` of `import_protocol` behind the name. -/
def importProtocolField (type_n i : Nat) (value : Int) (p : ProtocolRead) : Option ProtocolRead :=
  match i with
  | 1 => if value < 0 then none else some { p with tag := some value.toNat }
  | 2 => if value < 0 ∨ type_n ≤ value then none else some { p with request := some value.toNat }
  | 3 => if value < 0 ∨ type_n ≤ value then none else some { p with response := some value.toNat }
  | _ => none

/-- The loop of `import_protocol`, with the number of values left: it goes by the position of a value, not by
its tag. -/
def importProtocolLoop (buf : Bytes) (type_n strings : Nat) : Nat → Nat → Nat → ProtocolRead → Except Fault (Option ProtocolRead)
  | 0, _, _, p => .ok (some p)
  | n + 1, at_, i, p => do
    let value ← toword buf at_
    if value % 2 = 1 then importProtocolLoop buf type_n strings n (at_ + SIZEOF_FIELD) (i + 1) p
    else
      let value : Int := (value / 2 : Nat) - 1
      if i = 0 then
        if value ≠ -1 then .ok none
        else do
          let name ← importString buf strings
          importProtocolLoop buf type_n strings n (at_ + SIZEOF_FIELD) (i + 1) { p with name := some name }
      else
        match importProtocolField type_n i value p with
        | none => .ok none
        | some p => importProtocolLoop buf type_n strings n (at_ + SIZEOF_FIELD) (i + 1) p

def ProtocolRead.protocol (p : ProtocolRead) : Option Protocol := do
  let name ← p.name
  let tag ← p.tag
  some { name := name, tag := tag, request := p.request, response := p.response }

/-- `import_protocol`: the protocol and the end of its bytes. With -1 for the number of values there is none to
look at. -/
def importProtocol (buf : Bytes) (type_n stream : Nat) : Except Fault (Option (Protocol × Nat)) := do
  let sz ← todword buf stream
  let stream := stream + SIZEOF_LENGTH
  let fn ← structField buf stream sz
  let values := stream + SIZEOF_HEADER
  let some p ← importProtocolLoop buf type_n (values + fn.getD 0 * SIZEOF_FIELD) (fn.getD 0) values 0
    { name := none, tag := none, request := none, response := none } | .ok none
  .ok (p.protocol.map fun p => (p, stream + sz))

/-! ### The schema -/

/-- `create_from_bundle` counts the types and the protocols. -/
structure Sections where
  type_n : Nat
  typedata : Nat
  protocol_n : Nat
  protocoldata : Nat

/-- The loop of `create_from_bundle` over the values, with their number left. -/
def sectionsLoop (buf : Bytes) : Nat → Nat → Nat → Nat → Sections → Except Fault (Option Sections)
  | 0, _, _, _, s => .ok (some s)
  | n + 1, i, at_, content, s => do
    let value ← toword buf at_
    if value ≠ 0 then .ok none
    else do
      let some count ← countArray buf content | .ok none
      let s := if i = 0 then { s with type_n := count, typedata := content + SIZEOF_LENGTH }
        else { s with protocol_n := count, protocoldata := content + SIZEOF_LENGTH }
      let sz ← todword buf content
      sectionsLoop buf n (i + 1) (at_ + SIZEOF_FIELD) (content + (sz + SIZEOF_LENGTH) % 2 ^ 32) s

/-- A loop over the items of an array. -/
def importItems {α : Type} (item : Nat → Except Fault (Option (α × Nat))) : Nat → Nat → List α → Except Fault (Option (List α))
  | 0, _, xs => .ok (some xs)
  | n + 1, stream, xs => do
    let some (x, stream) ← item stream | .ok none
    importItems item n stream (xs ++ [x])

def createFromBundle (buf : Bytes) (sz : Nat) : Except Fault (Option Bundle) := do
  let some fn ← structField buf 0 sz | .ok none
  if 2 < fn then .ok none
  else do
    let some s ← sectionsLoop buf fn 0 SIZEOF_HEADER (SIZEOF_HEADER + fn * SIZEOF_FIELD)
      { type_n := 0, typedata := 0, protocol_n := 0, protocoldata := 0 } | .ok none
    let some type ← importItems (importTypeAt buf s.type_n) s.type_n s.typedata [] | .ok none
    let some proto ← importItems (importProtocol buf s.type_n) s.protocol_n s.protocoldata [] | .ok none
    .ok (some { type := type, proto := proto })

def sprotoCreate (proto : Bytes) : Except Fault (Option Bundle) := createFromBundle proto proto.length

/-! ### Queries -/

/-- A string of C ends at the first 0. -/
def cstring (s : Bytes) : Bytes := s.takeWhile (· ≠ 0)

def sprotoPrototag (sp : Bundle) (name : Bytes) : Int :=
  match sp.proto.find? fun p => cstring name = cstring p.name with
  | some p => p.tag
  | none => -1

def queryProto (sp : Bundle) (tag : Int) : Option Protocol :=
  Bisect.find (fun p : Protocol => (p.tag : Int)) sp.proto tag (sp.proto.length + 1) 0 sp.proto.length

end Sproto
end Skynet
