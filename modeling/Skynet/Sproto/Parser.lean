import Mathlib.Data.List.Sort
import Skynet.Sproto.Encode

/-!
# Skynet.Sproto.Parser

`sprotoparser.lua` behind its grammar: the tables of types and protocols that are built from the captures
of `lpeg.match`. `none` is an error.

* `parser_parsed` : in the tables of a schema that is accepted, the names of the types and of the protocols
  differ, the fields of a type ascend with their tags, a main key stands on arrays only, and the tags of
  the protocols differ.
-/

namespace Skynet
namespace Sproto

/-! ### Captures -/

def isAlpha (c : UInt8) : Bool := (97 ≤ c && c ≤ 122) || (65 ≤ c && c ≤ 90) || c == 95

def isAlnum (c : UInt8) : Bool := isAlpha c || (48 ≤ c && c ≤ 57)

def isWord : Bytes → Bool
  | [] => false
  | c :: cs => isAlpha c && cs.all isAlnum

/-- What `name` captures. -/
structure Word where
  bytes : Bytes
  word : isWord bytes = true
deriving DecidableEq

/-- What `STRUCT` captures: fields with a `*` or without one, and nested types. -/
inductive Struct where
  | nil
  | field (name : Word) (tag : Nat) (star : Bool) (typename : Bytes) (mainkey : List Word) (rest : Struct)
  | type (name : Word) (struct : Struct) (rest : Struct)

/-- The type of a request or of a response, by its name or in place. -/
inductive SubType where
  | typename (name : Bytes)
  | struct (struct : Struct)

/-- The two kinds of `SUBPROTO`. -/
inductive What where
  | request
  | response
deriving DecidableEq

inductive Obj where
  | type (name : Word) (struct : Struct)
  | protocol (name : Word) (tag : Nat) (subs : List (What × SubType))

/-! ### Tables -/

abbrev Table (α : Type) := List (Bytes × α)

def Table.set {α : Type} (t : Table α) (k : Bytes) (v : α) : Table α := (k, v) :: t.filter fun p => p.1 ≠ k

/-- A field of a type. -/
structure TypeField where
  name : Bytes
  tag : Nat
  array : Bool
  key : Option Bytes
  typename : Bytes
deriving DecidableEq

structure ProtocolType where
  tag : Nat
  request : Option Bytes
  response : Option Bytes
deriving DecidableEq

structure Schema where
  type : Table (List TypeField)
  protocol : Table ProtocolType
deriving DecidableEq

/-- The bytes of an ASCII text. -/
def text (s : String) : Bytes := s.toList.map Char.toUInt8

/-- `a .. "." .. b` -/
def dotted (a b : Bytes) : Bytes := a ++ 46 :: b

/-- The captures of a field behind its tag. -/
def captures (star : Bool) (typename : Bytes) (mainkey : List Word) : List Bytes :=
  (if star then [[42]] else []) ++ typename :: mainkey.map Word.bytes

/-- The field that `convert.type` makes of its captures: `f[3]`, `f[4]` and `f[5]` are looked at. -/
def convertField (name : Word) (tag : Nat) (f : List Bytes) : Option TypeField := do
  let third ← f[0]?
  let array := third = [42]
  let fieldtype ← (if array then f[1]? else some third)
  let mainkey := f[2]?
  if mainkey.isSome ∧ ¬array then none
  else some { name := name.bytes, tag := tag, array := array, key := mainkey, typename := fieldtype }

/-- `table.sort` of the fields. -/
def byTag (fs : List TypeField) : List TypeField := fs.insertionSort fun a b => a.tag ≤ b.tag

/-- `convert.type`: `all` are the types so far, `result` the fields. -/
def convertType (typename : Bytes) : Table (List TypeField) → List TypeField → Struct →
    Option (Table (List TypeField) × List TypeField)
  | all, result, .nil => some (all, byTag result)
  | all, result, .field name tag star fieldtype mainkey rest =>
    if result.any fun f => f.name = name.bytes then none
    else if result.any fun f => f.tag = tag then none
    else do
      let field ← convertField name tag (captures star fieldtype mainkey)
      convertType typename all (result ++ [field]) rest
  | all, result, .type name struct rest =>
    let nesttypename := dotted typename name.bytes
    if (all.lookup nesttypename).isSome then none
    else do
      let (all, fields) ← convertType nesttypename all [] struct
      convertType typename (all.set nesttypename fields) result rest

def What.name : What → Bytes
  | .request => text "request"
  | .response => text "response"

def ProtocolType.get (p : ProtocolType) : What → Option Bytes
  | .request => p.request
  | .response => p.response

def ProtocolType.put (p : ProtocolType) (what : What) (typename : Bytes) : ProtocolType :=
  match what with
  | .request => { p with request := some typename }
  | .response => { p with response := some typename }

/-- `convert.protocol`. -/
def convertProtocol (name : Word) : Table (List TypeField) → ProtocolType → List (What × SubType) →
    Option (Table (List TypeField) × ProtocolType)
  | all, result, [] => some (all, result)
  | all, result, (what, sub) :: subs =>
    if (result.get what).isSome then none
    else
      match sub with
      | .typename typename => convertProtocol name all (result.put what typename) subs
      | .struct struct => do
        let typename := dotted name.bytes what.name
        let (all, fields) ← convertType typename all [] struct
        convertProtocol name (all.set typename fields) (result.put what typename) subs

def adjust : Schema → List Obj → Option Schema
  | result, [] => some result
  | result, .type name struct :: r =>
    if (result.type.lookup name.bytes).isSome then none
    else do
      let (all, fields) ← convertType name.bytes result.type [] struct
      adjust { result with type := all.set name.bytes fields } r
  | result, .protocol name tag subs :: r =>
    if (result.protocol.lookup name.bytes).isSome then none
    else do
      let (all, p) ← convertProtocol name result.type { tag := tag, request := none, response := none } subs
      adjust { type := all, protocol := result.protocol.set name.bytes p } r

/-! ### Checks -/

def buildinTypes (t : Bytes) : Option Nat :=
  if t = text "integer" then some 0
  else if t = text "boolean" then some 1
  else if t = text "string" then some 2
  else none

/-- `ptype:match "(.+)%..+$"`: what stands before the last dot that has something on either side. -/
def outer (ptype : Bytes) : Option Bytes :=
  ((List.range ptype.length).reverse.find? fun k => 0 < k ∧ ptype[k]? = some 46 ∧ k + 1 < ptype.length).map ptype.take

theorem outer_length {ptype p : Bytes} (h : outer ptype = some p) : p.length < ptype.length := by
  obtain ⟨k, hk, rfl⟩ := Option.map_eq_some_iff.mp h
  have hmem := List.mem_of_find?_eq_some hk
  rw [List.mem_reverse, List.mem_range] at hmem
  rw [List.length_take]
  omega

/-- The calls of `checktype`, with fuel. -/
def checktypeCalls (types : Table (List TypeField)) (t : Bytes) : Nat → Bytes → Option Bytes
  | 0, _ => none
  | fuel + 1, ptype =>
    if (buildinTypes t).isSome then some t
    else if (types.lookup (dotted ptype t)).isSome then some (dotted ptype t)
    else
      match outer ptype with
      | some p => checktypeCalls types t fuel p
      | none => if (types.lookup t).isSome then some t else none

def checktype (types : Table (List TypeField)) (ptype t : Bytes) : Option Bytes :=
  checktypeCalls types t (ptype.length + 1) ptype

theorem checktypeCalls_fuel {types : Table (List TypeField)} {t ptype : Bytes} {m n : Nat} (hm : ptype.length < m)
    (hn : ptype.length < n) : checktypeCalls types t m ptype = checktypeCalls types t n ptype := by
  induction m generalizing n ptype with
  | zero => omega
  | succ m ih =>
    obtain ⟨n, rfl⟩ : ∃ n', n = n' + 1 := ⟨n - 1, by omega⟩
    simp only [checktypeCalls]
    cases hp : outer ptype with
    | none => rfl
    | some p =>
      have hlt := outer_length hp
      simp only [ih (show p.length < m by omega) (show p.length < n by omega)]

/-- `checktype` as it stands in the source. -/
theorem checktype_eq (types : Table (List TypeField)) (ptype t : Bytes) :
    checktype types ptype t =
      if (buildinTypes t).isSome then some t
      else if (types.lookup (dotted ptype t)).isSome then some (dotted ptype t)
      else
        match outer ptype with
        | some p => checktype types p t
        | none => if (types.lookup t).isSome then some t else none := by
  rw [checktype, checktypeCalls]
  cases hp : outer ptype with
  | none => rfl
  | some p => simp only [checktypeCalls_fuel (outer_length hp) (Nat.lt_succ_self p.length), checktype]

/-- The loop of `check_protocol`, with the tags seen. -/
def checkProtocols (types : Table (List TypeField)) : List Nat → Table ProtocolType → Bool
  | _, [] => true
  | map, (_, v) :: ps =>
    !map.contains v.tag && v.request.all (fun t => (types.lookup t).isSome) &&
      v.response.all (fun t => (types.lookup t).isSome) && checkProtocols types (v.tag :: map) ps

def checkProtocol (r : Schema) : Option Schema :=
  if checkProtocols r.type [] r.protocol then some r else none

def flattypename (r : Schema) : Option Schema := do
  let types ← r.type.mapM fun (typename, t) => do
    let fields ← t.mapM fun f => (checktype r.type typename f.typename).map fun fullname => { f with typename := fullname }
    some (typename, fields)
  some { r with type := types }

/-- `parser`, from the captures on. -/
def parser (objs : List Obj) : Option Schema := do
  let r ← adjust { type := [], protocol := [] } objs
  let r ← checkProtocol r
  flattypename r

/-! ### The tables of an accepted schema -/

/-- The fields of a type that are read so far. -/
structure Read (fs : List TypeField) : Prop where
  names : fs.Pairwise fun f g => f.name ≠ g.name
  tags : fs.Pairwise fun f g => f.tag ≠ g.tag
  key : ∀ f ∈ fs, f.key.isSome → f.array = true

/-- The fields of a type. -/
structure TypeOk (fs : List TypeField) : Prop where
  names : fs.Pairwise fun f g => f.name ≠ g.name
  tags : fs.Pairwise fun f g => f.tag < g.tag
  key : ∀ f ∈ fs, f.key.isSome → f.array = true

structure TypesOk (all : Table (List TypeField)) : Prop where
  names : (all.map Prod.fst).Nodup
  types : ∀ p ∈ all, TypeOk p.2

structure Parsed (r : Schema) : Prop extends TypesOk r.type where
  protocols : (r.protocol.map Prod.fst).Nodup
  words : ∀ p ∈ r.protocol, isWord p.1 = true
  protocolTags : r.protocol.Pairwise fun p q => p.2.tag ≠ q.2.tag

theorem convertField_some {name : Word} {tag : Nat} {f : List Bytes} {field : TypeField}
    (h : convertField name tag f = some field) :
    field.name = name.bytes ∧ field.tag = tag ∧ (field.key.isSome → field.array = true) := by
  obtain ⟨third, -, h⟩ := Option.bind_eq_some_iff.mp h
  obtain ⟨fieldtype, -, h⟩ := Option.bind_eq_some_iff.mp h
  simp only at h
  split at h
  · cases h
  · rename_i hkey
    rw [← Option.some.inj h]
    refine ⟨rfl, rfl, fun hsome => ?_⟩
    by_contra harray
    exact hkey ⟨hsome, by simpa using harray⟩

theorem Read.add {fs : List TypeField} (h : Read fs) {field : TypeField} (hname : ∀ f ∈ fs, f.name ≠ field.name)
    (htag : ∀ f ∈ fs, f.tag ≠ field.tag) (hkey : field.key.isSome → field.array = true) : Read (fs ++ [field]) where
  names := List.pairwise_append.mpr ⟨h.names, List.pairwise_singleton .., fun f hf g hg => by
    rw [List.mem_singleton.mp hg]; exact hname f hf⟩
  tags := List.pairwise_append.mpr ⟨h.tags, List.pairwise_singleton .., fun f hf g hg => by
    rw [List.mem_singleton.mp hg]; exact htag f hf⟩
  key := by
    intro f hf
    rcases List.mem_append.mp hf with hf | hf
    · exact h.key f hf
    · rw [List.mem_singleton.mp hf]; exact hkey

theorem Read.sorted {fs : List TypeField} (h : Read fs) : TypeOk (byTag fs) := by
  have hperm : (byTag fs).Perm fs := List.perm_insertionSort _ fs
  have hle : (byTag fs).Pairwise fun f g => f.tag ≤ g.tag :=
    List.pairwise_insertionSort (fun f g : TypeField => f.tag ≤ g.tag) fs
  have hne : (byTag fs).Pairwise fun f g => f.tag ≠ g.tag := hperm.symm.pairwise h.tags fun hne => hne.symm
  exact {
    names := hperm.symm.pairwise h.names fun hne => hne.symm
    tags := (hle.and hne).imp fun hlt => Nat.lt_of_le_of_ne hlt.1 hlt.2
    key := fun f hf => h.key f (hperm.mem_iff.mp hf) }

theorem Table.nodup_set {α : Type} {t : Table α} (h : (t.map Prod.fst).Nodup) (k : Bytes) (v : α) :
    ((t.set k v).map Prod.fst).Nodup := by
  rw [Table.set, List.map_cons, List.nodup_cons]
  refine ⟨fun hmem => ?_, h.sublist (List.filter_sublist.map _)⟩
  obtain ⟨p, hp, hpk⟩ := List.mem_map.mp hmem
  exact of_decide_eq_true (List.mem_filter.mp hp).2 hpk

theorem Table.mem_set {α : Type} {t : Table α} {k : Bytes} {v : α} {p : Bytes × α} (h : p ∈ t.set k v) :
    p = (k, v) ∨ p ∈ t :=
  (List.mem_cons.mp h).imp id fun hp => (List.mem_filter.mp hp).1

theorem TypesOk.set {all : Table (List TypeField)} (h : TypesOk all) (k : Bytes) {fs : List TypeField} (hfs : TypeOk fs) :
    TypesOk (all.set k fs) where
  names := Table.nodup_set h.names k fs
  types := by
    intro p hp
    rcases Table.mem_set hp with rfl | hp
    · exact hfs
    · exact h.types p hp

theorem convertType_ok {s : Struct} {typename : Bytes} {all all' : Table (List TypeField)} {result fs : List TypeField}
    (h : convertType typename all result s = some (all', fs)) (hall : TypesOk all) (hresult : Read result) :
    TypesOk all' ∧ TypeOk fs := by
  induction s generalizing typename all all' result fs with
  | nil =>
    cases h
    exact ⟨hall, hresult.sorted⟩
  | field name tag star fieldtype mainkey rest ih =>
    simp only [convertType, Option.bind_eq_bind] at h
    split at h
    · cases h
    · rename_i hname
      split at h
      · cases h
      · rename_i htag
        obtain ⟨field, hfield, h⟩ := Option.bind_eq_some_iff.mp h
        obtain ⟨hn, ht, hkey⟩ := convertField_some hfield
        simp only [List.any_eq_true, decide_eq_true_eq, not_exists, not_and] at hname htag
        exact ih h hall (hresult.add (hn ▸ hname) (ht ▸ htag) hkey)
  | type name struct rest ihs ihr =>
    simp only [convertType, Option.bind_eq_bind] at h
    split at h
    · cases h
    · obtain ⟨⟨all₁, fields⟩, hstruct, h⟩ := Option.bind_eq_some_iff.mp h
      obtain ⟨hall₁, hfields⟩ := ihs hstruct hall ⟨.nil, .nil, nofun⟩
      exact ihr h (hall₁.set _ hfields) hresult

theorem convertProtocol_ok {name : Word} {subs : List (What × SubType)} {all all' : Table (List TypeField)} {p p' : ProtocolType}
    (h : convertProtocol name all p subs = some (all', p')) (hall : TypesOk all) : TypesOk all' := by
  induction subs generalizing all p with
  | nil => cases h; exact hall
  | cons sub subs ih =>
    obtain ⟨what, typename | struct⟩ := sub
    · simp only [convertProtocol] at h
      split at h
      · cases h
      · exact ih h hall
    · simp only [convertProtocol, Option.bind_eq_bind] at h
      split at h
      · cases h
      · obtain ⟨⟨all₁, fields⟩, hstruct, h⟩ := Option.bind_eq_some_iff.mp h
        obtain ⟨hall₁, hfields⟩ := convertType_ok hstruct hall ⟨.nil, .nil, nofun⟩
        exact ih h (hall₁.set _ hfields)

theorem adjust_ok {objs : List Obj} {r r' : Schema} (h : adjust r objs = some r') (htypes : TypesOk r.type)
    (hprotos : (r.protocol.map Prod.fst).Nodup) (hwords : ∀ p ∈ r.protocol, isWord p.1 = true) :
    TypesOk r'.type ∧ (r'.protocol.map Prod.fst).Nodup ∧ ∀ p ∈ r'.protocol, isWord p.1 = true := by
  induction objs generalizing r with
  | nil =>
    cases h
    exact ⟨htypes, hprotos, hwords⟩
  | cons obj objs ih =>
    cases obj with
    | type name struct =>
      simp only [adjust, Option.bind_eq_bind] at h
      split at h
      · cases h
      · obtain ⟨⟨all, fields⟩, hstruct, h⟩ := Option.bind_eq_some_iff.mp h
        obtain ⟨hall, hfields⟩ := convertType_ok hstruct htypes ⟨.nil, .nil, nofun⟩
        exact ih h (hall.set _ hfields) hprotos hwords
    | protocol name tag subs =>
      simp only [adjust, Option.bind_eq_bind] at h
      split at h
      · cases h
      · obtain ⟨⟨all, p⟩, hproto, h⟩ := Option.bind_eq_some_iff.mp h
        refine ih h (convertProtocol_ok hproto htypes) (Table.nodup_set hprotos _ _) ?_
        intro q hq
        rcases Table.mem_set hq with rfl | hq
        · exact name.word
        · exact hwords q hq

theorem checkProtocols_tags {types : Table (List TypeField)} {ps : Table ProtocolType} {map : List Nat}
    (h : checkProtocols types map ps = true) :
    (ps.Pairwise fun p q => p.2.tag ≠ q.2.tag) ∧ ∀ p ∈ ps, p.2.tag ∉ map := by
  induction ps generalizing map with
  | nil => exact ⟨.nil, nofun⟩
  | cons p ps ih =>
    simp only [checkProtocols, Bool.and_eq_true, Bool.not_eq_true', List.contains_eq_mem, decide_eq_false_iff_not] at h
    obtain ⟨hpairs, hnot⟩ := ih h.2
    refine ⟨List.pairwise_cons.mpr ⟨fun q hq heq => hnot q hq (heq ▸ List.mem_cons_self ..), hpairs⟩, ?_⟩
    intro q hq
    rcases List.mem_cons.mp hq with rfl | hq
    · exact h.1.1.1
    · exact fun hmem => hnot q hq (List.mem_cons_of_mem _ hmem)

/-- What `mapM` gives, item by item. -/
theorem forall₂_of_mapM {α β : Type} {f : α → Option β} {xs : List α} {ys : List β} (h : xs.mapM f = some ys) :
    List.Forall₂ (fun x y => f x = some y) xs ys := by
  induction xs generalizing ys with
  | nil => cases h; exact .nil
  | cons x xs ih =>
    rw [List.mapM_cons] at h
    obtain ⟨y, hy, h⟩ := Option.bind_eq_some_iff.mp h
    obtain ⟨ys, hys, h⟩ := Option.bind_eq_some_iff.mp h
    cases h
    exact .cons hy (ih hys)

/-- What two lists have in common that are alike item by item. -/
theorem map_eq_of_forall₂ {α β γ : Type} {R : α → β → Prop} {g : α → γ} {g' : β → γ} {xs : List α} {ys : List β}
    (h : List.Forall₂ R xs ys) (hR : ∀ x y, R x y → g' y = g x) : ys.map g' = xs.map g := by
  induction h with
  | nil => rfl
  | cons hxy _ ih => rw [List.map_cons, List.map_cons, hR _ _ hxy, ih]

theorem exists_of_forall₂ {α β : Type} {R : α → β → Prop} {xs : List α} {ys : List β} (h : List.Forall₂ R xs ys) {y : β}
    (hy : y ∈ ys) : ∃ x ∈ xs, R x y := by
  induction h with
  | nil => cases hy
  | @cons x _ _ _ hxy _ ih =>
    rcases List.mem_cons.mp hy with rfl | hy
    · exact ⟨x, List.mem_cons_self .., hxy⟩
    · obtain ⟨x, hx, hxy⟩ := ih hy
      exact ⟨x, List.mem_cons_of_mem _ hx, hxy⟩

/-- A field without the name of its type. -/
def TypeField.untyped (f : TypeField) : TypeField := { f with typename := [] }

/-- A name in full changes nothing else of a field. -/
theorem TypeOk.flat {fs fs' : List TypeField} (h : TypeOk fs) (hsame : fs'.map TypeField.untyped = fs.map TypeField.untyped) :
    TypeOk fs' := by
  have hback : ∀ {R : TypeField → TypeField → Prop}, (∀ f g, R f.untyped g.untyped ↔ R f g) → fs.Pairwise R → fs'.Pairwise R := by
    intro R hR hpairs
    have huntyped : (fs.map TypeField.untyped).Pairwise R := List.pairwise_map.mpr (hpairs.imp (hR _ _).mpr)
    rw [← hsame, List.pairwise_map] at huntyped
    exact huntyped.imp (hR _ _).mp
  refine ⟨hback (fun _ _ => Iff.rfl) h.names, hback (fun _ _ => Iff.rfl) h.tags, ?_⟩
  intro f hf hkey
  have hmem : f.untyped ∈ fs.map TypeField.untyped := hsame ▸ List.mem_map_of_mem hf
  obtain ⟨g, hg, heq⟩ := List.mem_map.mp hmem
  have harray := congrArg TypeField.array heq
  have hsomekey := congrArg TypeField.key heq
  simp only [TypeField.untyped] at harray hsomekey
  rw [← harray]
  exact h.key g hg (hsomekey ▸ hkey)

theorem flattypename_parsed {r r' : Schema} (h : flattypename r = some r') (hr : Parsed r) : Parsed r' := by
  obtain ⟨types, htypes, h⟩ := Option.bind_eq_some_iff.mp h
  cases h
  have hall := forall₂_of_mapM htypes
  have hflat : ∀ p q : Bytes × List TypeField, (do
      let fields ← p.2.mapM fun f => (checktype r.type p.1 f.typename).map fun fullname => { f with typename := fullname }
      some (p.1, fields)) = some q → q.1 = p.1 ∧ q.2.map TypeField.untyped = p.2.map TypeField.untyped := by
    intro p q hpq
    obtain ⟨fields, hfields, hpq⟩ := Option.bind_eq_some_iff.mp hpq
    cases hpq
    refine ⟨rfl, map_eq_of_forall₂ (forall₂_of_mapM hfields) ?_⟩
    intro f f' hff'
    obtain ⟨fullname, -, rfl⟩ := Option.map_eq_some_iff.mp hff'
    rfl
  refine { names := ?_, types := ?_, protocols := hr.protocols, words := hr.words, protocolTags := hr.protocolTags }
  · rw [map_eq_of_forall₂ hall fun p q hpq => (hflat p q hpq).1]
    exact hr.names
  · intro q hq
    obtain ⟨p, hp, hpq⟩ := exists_of_forall₂ hall hq
    exact (hr.types p hp).flat (hflat p q hpq).2

theorem parser_parsed {objs : List Obj} {r : Schema} (h : parser objs = some r) : Parsed r := by
  obtain ⟨r₁, hadjust, h⟩ := Option.bind_eq_some_iff.mp h
  obtain ⟨r₂, hcheck, h⟩ := Option.bind_eq_some_iff.mp h
  obtain ⟨htypes, hprotos, hwords⟩ := adjust_ok hadjust ⟨List.nodup_nil, nofun⟩ List.nodup_nil nofun
  rw [checkProtocol] at hcheck
  split at hcheck
  · rename_i hp
    cases hcheck
    exact flattypename_parsed h { htypes with protocols := hprotos, words := hwords, protocolTags := (checkProtocols_tags hp).1 }
  · cases hcheck

end Sproto
end Skynet
