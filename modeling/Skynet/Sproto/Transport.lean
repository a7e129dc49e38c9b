import Mathlib.Data.List.TakeWhile
import Skynet.Sproto.Import

/-!
# Skynet.Sproto.Transport

The transport of a schema: `sproto_create` on the bytes that `packgroup` makes of an accepted schema.

* `Transported` : the types and the protocols in C are those of the schema, and the queries find them.
* `create_group` : what `sproto_create` gives, unless the length of the types wraps around.
* `transported_iff` : the schemas that are transported. The others have no type at all, a tag of `2 ^ 63 - 1`,
  or protocols behind types that take `2 ^ 32 - 4` bytes or more.
-/

namespace Skynet
namespace Sproto

/-! ### The same schema -/

/-- A type by its name, and a type in C. -/
def NamesType (sp : Bundle) (typename : Bytes) (t : FieldType) : Prop :=
  match t with
  | .integer => typename = text "integer"
  | .boolean => typename = text "boolean"
  | .string => typename = text "string"
  | .struct i => ∃ st, sp.type[i]? = some (typename, st)

/-- A main key by the name of its field, and the tag in C. -/
def SameKey (r : Schema) (typename : Bytes) (name : Option Bytes) (key : Int) : Prop :=
  match name with
  | none => key = -1
  | some name => ∃ t, (typename, t) ∈ r.type ∧ ∃ f ∈ t, f.name = name ∧ key = f.tag

structure SameTypeField (r : Schema) (sp : Bundle) (f : TypeField) (g : Field) : Prop where
  name : g.name = f.name
  tag : g.tag = f.tag
  array : g.array = f.array
  type : NamesType sp f.typename g.type
  key : SameKey r f.typename f.key g.key

/-- The type of a request or of a response. -/
def SameRef (sp : Bundle) (typename : Option Bytes) (i : Option Nat) : Prop :=
  match typename, i with
  | none, none => True
  | some typename, some i => ∃ st, sp.type[i]? = some (typename, st)
  | _, _ => False

structure SameProtocol (sp : Bundle) (p : Bytes × ProtocolType) (q : Protocol) : Prop where
  name : q.name = p.1
  tag : q.tag = p.2.tag
  request : SameRef sp p.2.request q.request
  response : SameRef sp p.2.response q.response

/-- The types and the protocols in C are those of the schema, and the queries find them. -/
structure Transported (r : Schema) (sp : Bundle) : Prop where
  typeNames : (sp.type.map Prod.fst).Perm (r.type.map Prod.fst)
  types : ∀ p ∈ r.type, ∃ st, (p.1, st) ∈ sp.type ∧ List.Forall₂ (SameTypeField r sp) p.2 st.f
  protocolNames : (sp.proto.map Protocol.name).Perm (r.protocol.map Prod.fst)
  protocols : ∀ p ∈ r.protocol, ∃ q ∈ sp.proto, SameProtocol sp p q
  found : ∀ t ∈ sp.type, ∀ f ∈ t.2.f, findtag t.2 f.tag = some f
  notFound : ∀ t ∈ sp.type, ∀ tag : Int, (∀ f ∈ t.2.f, (f.tag : Int) ≠ tag) → findtag t.2 tag = none
  byTag : ∀ q ∈ sp.proto, queryProto sp q.tag = some q
  byName : ∀ q ∈ sp.proto, sprotoPrototag sp q.name = q.tag

/-! ### The bytes of the group -/

variable {buf : Bytes}

def PackProto.result (p : PackProto) : Option Protocol := if p.Good then some p.imported else none

theorem structField_one {off : Nat} {tt : Bytes} (h : Holds buf off (message [0] [tt])) (hlen : tt.length < 2 ^ 32) :
    structField buf off (message [0] [tt]).length = .ok (some 1) := by
  have hL : SIZEOF_LENGTH = 4 := rfl
  have hH : SIZEOF_HEADER = 2 := rfl
  have hF : SIZEOF_FIELD = 2 := rfl
  have hdata := h.message.2.2
  rw [List.flatMap_singleton] at hdata
  have hvalue : toword buf (off + SIZEOF_HEADER) = .ok 0 := toword_holds h.message.2.1 (by decide)
  have hsize : todword buf (off + (SIZEOF_HEADER + SIZEOF_FIELD * 1)) = .ok tt.length := hdata.filled_size hlen
  rw [structField, message_length, List.flatMap_singleton, filled_length, if_neg (by omega), toword_holds h.message.1 (by decide)]
  simp only [bind, Except.bind, List.length_singleton]
  rw [if_neg (by omega), structLoop, hvalue]
  simp only [bind, Except.bind, hsize]
  rw [if_neg (by decide), if_neg (by omega), if_neg (by omega), structLoop]
  rfl

theorem structField_two {off : Nat} {tt tp : Bytes} (h : Holds buf off (message [0, 0] [tt, tp])) (hlen : tt.length + 4 < 2 ^ 32)
    (hlen' : tp.length < 2 ^ 32) : structField buf off (message [0, 0] [tt, tp]).length = .ok (some 2) := by
  have hL : SIZEOF_LENGTH = 4 := rfl
  have hH : SIZEOF_HEADER = 2 := rfl
  have hF : SIZEOF_FIELD = 2 := rfl
  have hdata := h.message.2.2
  rw [List.flatMap_cons, List.flatMap_singleton] at hdata
  have hdata' := hdata.right
  rw [filled_length] at hdata'
  have hvalues := h.message.2.1
  have hvalue : toword buf (off + SIZEOF_HEADER) = .ok 0 := toword_holds hvalues.left (by decide)
  have hvalue' : toword buf (off + SIZEOF_HEADER + SIZEOF_FIELD) = .ok 0 := toword_holds hvalues.right (by decide)
  have hsize : todword buf (off + (SIZEOF_HEADER + SIZEOF_FIELD * 2)) = .ok tt.length := hdata.left.filled_size (by omega)
  have hsize' : todword buf (off + (SIZEOF_HEADER + SIZEOF_FIELD * 2) + (SIZEOF_LENGTH + tt.length)) = .ok tp.length := by
    rw [hL, Nat.add_comm 4]
    exact hdata'.filled_size hlen'
  rw [structField, message_length, List.flatMap_cons, List.flatMap_singleton, List.length_append, filled_length, filled_length,
    if_neg (by omega), toword_holds h.message.1 (by decide)]
  simp only [bind, Except.bind, List.length_cons, List.length_nil]
  rw [if_neg (by omega), structLoop, hvalue]
  simp only [bind, Except.bind, hsize]
  rw [if_neg (by decide), if_neg (by omega), Nat.mod_eq_of_lt (by omega), if_neg (by omega), structLoop, hvalue']
  simp only [bind, Except.bind, hsize']
  rw [if_neg (by decide), if_neg (by omega), if_neg (by omega), structLoop]
  rfl

/-- What the importers need to know of a schema that is packed. -/
structure GroupOk (types : List (Bytes × List PackField)) (protos : List PackProto) : Prop where
  typeOk : ∀ q ∈ types, (typeStruct q.1 q.2).length < 2 ^ 32 ∧ ∀ i ∈ q.2, i.Ok types.length
  protoOk : ∀ p ∈ protos, p.Ok types.length
  size : (typesBytes types).length < 2 ^ 32
  protoSize : (protosBytes protos).length < 2 ^ 32

/-- The schema that comes out. -/
def importedGroup (types : List (Bytes × List PackField)) (protos : List PackProto) : Option Bundle := do
  let type ← types.mapM importedType
  let proto ← protos.mapM PackProto.result
  some { type := type, proto := proto }

theorem import_types {types : List (Bytes × List PackField)} {protos : List PackProto} (hok : GroupOk types protos) {stream : Nat}
    (h : Holds buf stream (typesBytes types)) :
    importItems (importTypeAt buf types.length) types.length stream [] = .ok (types.mapM importedType) := by
  rw [importItems_packed h fun q hq off hoff => importTypeAt_packed hoff (hok.typeOk q hq).1 (hok.typeOk q hq).2]
  simp

theorem import_protos {types : List (Bytes × List PackField)} {protos : List PackProto} (hok : GroupOk types protos) {stream : Nat}
    (h : Holds buf stream (protosBytes protos)) :
    importItems (importProtocol buf types.length) protos.length stream [] = .ok (protos.mapM PackProto.result) := by
  have hitem : ∀ p ∈ protos, ∀ off, Holds buf off p.bytes →
      importProtocol buf types.length off = .ok (p.result.map fun q => (q, off + p.bytes.length)) := by
    intro p hp off hoff
    rw [importProtocol_packed hoff (hok.protoOk p hp), PackProto.result]
    split <;> rfl
  rw [importItems_packed h hitem]
  simp

/-- A group of types only. -/
theorem create_types {types : List (Bytes × List PackField)} (hok : GroupOk types []) :
    sprotoCreate (message [0] [typesBytes types]) = .ok (importedGroup types []) := by
  have hbuf := Holds.all (message [0] [typesBytes types])
  have hdata : Holds (message [0] [typesBytes types]) 4 (filled (typesBytes types)) := by
    have := hbuf.message.2.2
    rwa [List.flatMap_singleton] at this
  have hvalue : toword (message [0] [typesBytes types]) SIZEOF_HEADER = .ok 0 := toword_holds hbuf.message.2.1 (by decide)
  have hcount : countArray (message [0] [typesBytes types]) (SIZEOF_HEADER + 1 * SIZEOF_FIELD) = .ok (some types.length) :=
    countArray_items hdata hok.size
  have hsize : todword (message [0] [typesBytes types]) (SIZEOF_HEADER + 1 * SIZEOF_FIELD) = .ok (typesBytes types).length :=
    hdata.filled_size hok.size
  have htypes : importItems (importTypeAt (message [0] [typesBytes types]) types.length) types.length
      (SIZEOF_HEADER + 1 * SIZEOF_FIELD + SIZEOF_LENGTH) [] = .ok (types.mapM importedType) := import_types hok hdata.filled_body
  rw [sprotoCreate, createFromBundle, structField_one hbuf hok.size]
  simp only [bind, Except.bind, sectionsLoop, hvalue, hcount, hsize]
  rw [if_neg (by decide), if_neg (by decide)]
  simp only [if_true, htypes, importedGroup]
  cases types.mapM importedType <;> rfl

/-- A group of types and protocols. -/
theorem create_both {types : List (Bytes × List PackField)} {protos : List PackProto} (hok : GroupOk types protos)
    (hsmall : (typesBytes types).length + 4 < 2 ^ 32) :
    sprotoCreate (message [0, 0] [typesBytes types, protosBytes protos]) = .ok (importedGroup types protos) := by
  obtain ⟨buf, hb⟩ : ∃ buf, buf = message [0, 0] [typesBytes types, protosBytes protos] := ⟨_, rfl⟩
  have hbuf : Holds buf 0 (message [0, 0] [typesBytes types, protosBytes protos]) := hb ▸ Holds.all buf
  have hdata := hbuf.message.2.2
  rw [List.flatMap_cons, List.flatMap_singleton] at hdata
  have hdata' := hdata.right
  rw [filled_length] at hdata'
  have hvalue : toword buf SIZEOF_HEADER = .ok 0 := toword_holds hbuf.message.2.1.left (by decide)
  have hvalue' : toword buf (SIZEOF_HEADER + SIZEOF_FIELD) = .ok 0 := toword_holds hbuf.message.2.1.right (by decide)
  have hcount : countArray buf (SIZEOF_HEADER + 2 * SIZEOF_FIELD) = .ok (some types.length) := countArray_items hdata.left hok.size
  have hsize : todword buf (SIZEOF_HEADER + 2 * SIZEOF_FIELD) = .ok (typesBytes types).length := hdata.left.filled_size hok.size
  have hcount' : countArray buf (SIZEOF_HEADER + 2 * SIZEOF_FIELD + ((typesBytes types).length + SIZEOF_LENGTH)) =
      .ok (some protos.length) := countArray_items hdata' hok.protoSize
  have hsize' : todword buf (SIZEOF_HEADER + 2 * SIZEOF_FIELD + ((typesBytes types).length + SIZEOF_LENGTH)) =
      .ok (protosBytes protos).length := hdata'.filled_size hok.protoSize
  have htypes : importItems (importTypeAt buf types.length) types.length (SIZEOF_HEADER + 2 * SIZEOF_FIELD + SIZEOF_LENGTH) [] =
      .ok (types.mapM importedType) := import_types hok hdata.left.filled_body
  have hprotos : importItems (importProtocol buf types.length) protos.length
      (SIZEOF_HEADER + 2 * SIZEOF_FIELD + ((typesBytes types).length + SIZEOF_LENGTH) + SIZEOF_LENGTH) [] =
      .ok (protos.mapM PackProto.result) := import_protos hok hdata'.filled_body
  have hmod : ((typesBytes types).length + SIZEOF_LENGTH) % 2 ^ 32 = (typesBytes types).length + SIZEOF_LENGTH :=
    Nat.mod_eq_of_lt hsmall
  have hfn : structField buf 0 buf.length = .ok (some 2) := by
    have := structField_two hbuf hsmall hok.protoSize
    rwa [← hb] at this
  have hsections : sectionsLoop buf 2 0 SIZEOF_HEADER (SIZEOF_HEADER + 2 * SIZEOF_FIELD)
      { type_n := 0, typedata := 0, protocol_n := 0, protocoldata := 0 } =
      .ok (some { type_n := types.length, typedata := SIZEOF_HEADER + 2 * SIZEOF_FIELD + SIZEOF_LENGTH, protocol_n := protos.length,
                  protocoldata := SIZEOF_HEADER + 2 * SIZEOF_FIELD + ((typesBytes types).length + SIZEOF_LENGTH) + SIZEOF_LENGTH }) := by
    simp only [sectionsLoop, bind, Except.bind, hvalue, hvalue', hcount, hsize, hmod, hcount', hsize']
    rw [if_neg (by decide), if_neg (by decide)]
    rfl
  rw [← hb, sprotoCreate, createFromBundle, hfn]
  simp only [bind, Except.bind, hsections]
  rw [if_neg (by decide)]
  simp only [htypes, importedGroup]
  cases types.mapM importedType with
  | none => rfl
  | some type =>
    simp only [hprotos]
    cases protos.mapM PackProto.result <;> rfl

/-! ### References -/

theorem getElem?_of_forall₂ {α β : Type} {R : α → β → Prop} {xs : List α} {ys : List β} (h : List.Forall₂ R xs ys) {n : Nat} {x : α}
    (hx : xs[n]? = some x) : ∃ y, ys[n]? = some y ∧ R x y := by
  induction h generalizing n with
  | nil => cases hx
  | @cons a b _ _ hab _ ih =>
    cases n with
    | zero => exact ⟨b, rfl, Option.some.inj hx ▸ hab⟩
    | succ n => exact ih hx

theorem mem_of_lookup {α : Type} {t : Table α} {k : Bytes} {v : α} (h : t.lookup k = some v) : (k, v) ∈ t := by
  obtain ⟨l, l', rfl, -⟩ := List.lookup_eq_some_iff.mp h
  exact List.mem_append_right _ (List.mem_cons_self ..)

/-- An entry has the index of its type. -/
theorem allTypes_lookup {ts : Table (List TypeField)} {typename : Bytes} {entry : TypeEntry}
    (h : (allTypes ts).lookup typename = some entry) :
    ∃ t, ts[entry.id]? = some (typename, t) ∧ entry.fields = keyFields t := by
  obtain ⟨⟨⟨name, t⟩, id⟩, hmem, heq⟩ := List.mem_map.mp (mem_of_lookup h)
  cases heq
  exact ⟨t, List.mk_mem_zipIdx_iff_getElem?.mp hmem, rfl⟩

theorem keyFields_lookup {t : List TypeField} {k : Bytes} {tag : Nat} (h : (keyFields t).lookup k = some tag) :
    ∃ f ∈ t, f.name = k ∧ f.tag = tag := by
  have hall : ∀ (t : List TypeField) (fields : Table Nat) (p : Bytes × Nat),
      p ∈ t.foldl (fun fields f => if (buildinTypes f.typename).isSome then fields.set f.name f.tag else fields) fields →
        p ∈ fields ∨ ∃ f ∈ t, p = (f.name, f.tag) := by
    intro t
    induction t with
    | nil => exact fun fields p hp => .inl hp
    | cons f t ih =>
      intro fields p hp
      rcases ih _ p hp with hp | ⟨g, hg, heq⟩
      · simp only at hp
        split at hp
        · exact (Table.mem_set hp).symm.imp id fun heq => ⟨f, List.mem_cons_self .., heq⟩
        · exact .inl hp
      · exact .inr ⟨g, List.mem_cons_of_mem _ hg, heq⟩
  rcases hall t [] (k, tag) (mem_of_lookup h) with hmem | ⟨f, hf, heq⟩
  · cases hmem
  · cases heq
    exact ⟨f, hf, rfl, rfl⟩

/-- Where the numbers of a field come from. -/
structure FieldRefs (ts : Table (List TypeField)) (f : TypeField) (i : PackField) : Prop where
  type : ∀ id, i.type = some id → ∃ t, ts[id]? = some (f.typename, t)
  key : ∀ k, i.key = some k → ∃ name t, f.key = some name ∧ (f.typename, t) ∈ ts ∧ ∃ g ∈ t, g.name = name ∧ g.tag = k

theorem fieldInfo_refs {ts : Table (List TypeField)} {f : TypeField} {i : PackField} (h : fieldInfo (allTypes ts) f = some i) :
    FieldRefs ts f i := by
  obtain ⟨subtype, hsub, h⟩ := Option.bind_eq_some_iff.mp h
  obtain ⟨key, hkey, h⟩ := Option.bind_eq_some_iff.mp h
  cases h
  have hentry : ∀ entry, subtype = some entry → ∃ t, ts[entry.id]? = some (f.typename, t) ∧ entry.fields = keyFields t := by
    rintro entry rfl
    split at hsub
    · cases hsub
    · obtain ⟨e, he, heq⟩ := Option.map_eq_some_iff.mp hsub
      cases heq
      exact allTypes_lookup he
  constructor
  · intro id hid
    obtain ⟨entry, hsome, rfl⟩ := Option.map_eq_some_iff.mp hid
    obtain ⟨t, ht, -⟩ := hentry entry hsome
    exact ⟨t, ht⟩
  · rintro k rfl
    cases hk : f.key with
    | none =>
      rw [hk] at hkey
      cases hkey
    | some name =>
      rw [hk] at hkey
      obtain ⟨entry, hsome, hkey⟩ := Option.bind_eq_some_iff.mp hkey
      obtain ⟨tag, htag, heq⟩ := Option.map_eq_some_iff.mp hkey
      cases heq
      obtain ⟨t, ht, hfields⟩ := hentry entry hsome
      exact ⟨name, t, rfl, List.mem_of_getElem? ht, keyFields_lookup (hfields ▸ htag)⟩

theorem refInfo_some {ts : Table (List TypeField)} {typename : Option Bytes} {ref : Option Nat}
    (h : refInfo (allTypes ts) typename = some ref) :
    (typename = none ∧ ref = none) ∨ ∃ name id t, typename = some name ∧ ref = some id ∧ ts[id]? = some (name, t) := by
  cases typename with
  | none => exact .inl ⟨rfl, (Option.some.inj h).symm⟩
  | some name =>
    obtain ⟨entry, hentry, rfl⟩ := Option.map_eq_some_iff.mp h
    obtain ⟨t, ht, -⟩ := allTypes_lookup hentry
    exact .inr ⟨name, entry.id, t, rfl, rfl, ht⟩

/-! ### Sizes -/

theorem length_le_flatMap {α : Type} {g : α → Bytes} {xs : List α} {x : α} (h : x ∈ xs) : (g x).length ≤ (xs.flatMap g).length := by
  rw [List.flatMap_def]
  exact (List.sublist_flatten_of_mem (List.mem_map_of_mem h)).length_le

theorem fields_le_struct (name : Bytes) (fields : List PackField) :
    (fields.flatMap PackField.bytes).length ≤ (typeStruct name fields).length := by
  rw [typeStruct]
  cases fields with
  | nil => exact Nat.zero_le _
  | cons i fields =>
    rw [List.isEmpty_cons, if_neg (by decide), message_length, List.flatMap_cons (f := filled), List.flatMap_singleton,
      List.length_append, filled_length, filled_length]
    omega

theorem length_le_typesBytes (types : List (Bytes × List PackField)) : types.length ≤ (typesBytes types).length := by
  induction types with
  | nil => exact Nat.zero_le _
  | cons q types ih =>
    rw [typesBytes] at ih ⊢
    rw [List.flatMap_cons, List.length_append, filled_length, List.length_cons]
    omega

theorem buildinTypes_lt {t : Bytes} {id : Nat} (h : buildinTypes t = some id) : id < 3 := by
  rw [buildinTypes] at h
  split at h
  · cases h; decide
  · split at h
    · cases h; decide
    · split at h
      · cases h; decide
      · cases h

theorem Packs.ok {r : Schema} {types : List (Bytes × List PackField)} {protos : List PackProto} (h : Packs r types protos)
    (hr : Parsed r) : GroupOk types protos where
  size := h.size
  protoSize := h.protoSize
  typeOk := by
    intro q hq
    obtain ⟨p, hp, -, hinfo⟩ := exists_of_forall₂ h.typeInfo hq
    have hstruct := length_le_flatMap (g := fun q : Bytes × List PackField => filled (typeStruct q.1 q.2)) hq
    rw [← typesBytes, filled_length] at hstruct
    have hsize := h.size
    refine ⟨by omega, fun i hi => ?_⟩
    obtain ⟨f, hf, hi'⟩ := exists_of_forall₂ hinfo hi
    obtain ⟨-, -, harray, hbuildin, hkey⟩ := fieldInfo_some hi'
    have hrefs := fieldInfo_refs hi'
    have hbytes := Nat.le_trans (length_le_flatMap (g := PackField.bytes) hi) (fields_le_struct q.1 q.2)
    have hname : i.name.length ≤ i.bytes.length := by
      rw [PackField.bytes, filled_length, message_length, List.flatMap_singleton, filled_length]
      omega
    exact {
      toPacked := h.fields q hq i hi
      buildin := fun id hid => buildinTypes_lt (hbuildin ▸ hid)
      type := fun id hid => by
        obtain ⟨t, ht⟩ := hrefs.type id hid
        rw [← h.typeInfo.length_eq]
        exact (List.getElem?_eq_some_iff.mp ht).1
      key := fun hsome => harray ▸ (hr.types p ((sortTypes_perm r.type).mem_iff.mp hp)).key f hf (hkey ▸ hsome)
      name := by omega
      size := by omega }
  protoOk := by
    intro i hi
    obtain ⟨p, -, -, -, hreq, hresp⟩ := exists_of_forall₂ h.protoInfo hi
    have hsize := h.protoSize
    have hbytes := length_le_flatMap (g := PackProto.bytes) hi
    rw [← protosBytes] at hbytes
    have hbound : ∀ {typename : Option Bytes} {ref : Option Nat}, refInfo (allTypes (sortTypes r.type)) typename = some ref →
        ∀ id, ref = some id → id < types.length := by
      rintro typename ref href id rfl
      obtain ⟨-, hnone⟩ | ⟨name, id', t, -, heq, ht⟩ := refInfo_some href
      · cases hnone
      · cases heq
        rw [← h.typeInfo.length_eq]
        exact (List.getElem?_eq_some_iff.mp ht).1
    exact { ids := h.ids i hi, request := hbound hreq, response := hbound hresp, size := by omega }

/-! ### What is imported -/

theorem importFields_ascending {fs : List Field} {maxn : Nat} {last : Int} (h : Ascending last fs) :
    importFields maxn last fs = some (maxn + gaps last fs) := by
  induction fs generalizing maxn last with
  | nil => rfl
  | cons f fs ih =>
    have hlt := h.1
    rw [importFields, if_neg (by omega), ih h.2, gaps]
    split <;> simp only [Option.some.injEq] <;> omega

theorem ascending_of_pairwise {fs : List Field} {last : Int} (h : fs.Pairwise fun f g => f.tag < g.tag)
    (hlast : ∀ f ∈ fs, last < f.tag) : Ascending last fs := by
  induction fs generalizing last with
  | nil => trivial
  | cons f fs ih =>
    obtain ⟨hf, hfs⟩ := List.pairwise_cons.mp h
    exact ⟨hlast f (List.mem_cons_self ..), ih hfs fun g hg => by have := hf g hg; omega⟩

/-- Fields with ascending tags make a type. -/
theorem importType_ascending {fs : List Field} (h : fs.Pairwise fun f g => f.tag < g.tag) :
    ∃ st, importType fs = some st ∧ st.f = fs := by
  have hasc : Ascending (-1) fs := ascending_of_pairwise h fun f _ => by omega
  exact ⟨_, by rw [importType, importFields_ascending hasc]; rfl, rfl⟩

/-- A type that is packed, and the type in C. -/
structure TypeImported (q : Bytes × List PackField) (t : Bytes × SprotoType) : Prop where
  name : t.1 = q.1
  fields : t.2.f = q.2.map PackField.imported
  imported : importType t.2.f = some t.2

theorem importedType_some {q : Bytes × List PackField} {t : Bytes × SprotoType} (h : importedType q = some t) :
    TypeImported q t ∧ ∀ i ∈ q.2, i.Good := by
  rw [importedType] at h
  split at h
  · rename_i hg
    obtain ⟨st, hst, rfl⟩ := Option.map_eq_some_iff.mp h
    have hf : st.f = q.2.map PackField.imported := by
      rw [importType] at hst
      obtain ⟨m, -, rfl⟩ := Option.map_eq_some_iff.mp hst
      rfl
    exact ⟨⟨rfl, hf, hf ▸ hst⟩, hg⟩
  · cases h

theorem importedType_good {q : Bytes × List PackField} (hg : ∀ i ∈ q.2, i.Good) (htags : q.2.Pairwise fun i j => i.tag < j.tag) :
    ∃ t, importedType q = some t := by
  obtain ⟨st, hst, -⟩ := importType_ascending (List.pairwise_map.mpr htags : (q.2.map PackField.imported).Pairwise _)
  exact ⟨(q.1, st), by rw [importedType, if_pos hg, hst]; rfl⟩

theorem result_some {p : PackProto} {q : Protocol} (h : p.result = some q) : q = p.imported ∧ p.Good := by
  rw [PackProto.result] at h
  split at h
  · rename_i hg
    cases h
    exact ⟨rfl, hg⟩
  · cases h

theorem mapM_some {α β : Type} {f : α → Option β} {xs : List α} (h : ∀ x ∈ xs, ∃ y, f x = some y) : ∃ ys, xs.mapM f = some ys := by
  induction xs with
  | nil => exact ⟨[], rfl⟩
  | cons x xs ih =>
    obtain ⟨y, hy⟩ := h x (List.mem_cons_self ..)
    obtain ⟨ys, hys⟩ := ih fun z hz => h z (List.mem_cons_of_mem _ hz)
    exact ⟨y :: ys, by rw [List.mapM_cons, hy, hys]; rfl⟩

theorem exists_right {α β : Type} {R : α → β → Prop} {xs : List α} {ys : List β} (h : List.Forall₂ R xs ys) {x : α} (hx : x ∈ xs) :
    ∃ y ∈ ys, R x y := by
  obtain ⟨n, hn⟩ := List.mem_iff_getElem?.mp hx
  obtain ⟨y, hy, hxy⟩ := getElem?_of_forall₂ h hn
  exact ⟨y, List.mem_of_getElem? hy, hxy⟩

theorem forall₂_imp_right {α β : Type} {R S : α → β → Prop} {xs : List α} {ys : List β} (h : List.Forall₂ R xs ys)
    (himp : ∀ x, ∀ y ∈ ys, R x y → S x y) : List.Forall₂ S xs ys := by
  induction h with
  | nil => exact .nil
  | cons hxy _ ih => exact .cons (himp _ _ (List.mem_cons_self ..) hxy) (ih fun x y hy => himp x y (List.mem_cons_of_mem _ hy))

/-! ### Tags -/

/-- No tag of the schema is `2 ^ 63 - 1`. -/
structure TagsFit (r : Schema) : Prop where
  fields : ∀ p ∈ r.type, ∀ f ∈ p.2, f.tag ≠ lastTag
  protocols : ∀ p ∈ r.protocol, p.2.tag ≠ lastTag

section Packs

variable {r : Schema} {types : List (Bytes × List PackField)} {protos : List PackProto}

theorem Packs.index_ne (h : Packs r types protos) {id : Nat} {name : Bytes} {t : List TypeField}
    (ht : (sortTypes r.type)[id]? = some (name, t)) : id ≠ lastTag := by
  have hlt := (List.getElem?_eq_some_iff.mp ht).1
  have hlen := length_le_typesBytes types
  have hsize := h.size
  rw [h.typeInfo.length_eq] at hlt
  rw [lastTag]
  omega

theorem Packs.good (h : Packs r types protos) (ht : TagsFit r) : (∀ q ∈ types, ∀ i ∈ q.2, i.Good) ∧ ∀ p ∈ protos, p.Good := by
  constructor
  · intro q hq i hi id hid
    obtain ⟨p, hp, -, hinfo⟩ := exists_of_forall₂ h.typeInfo hq
    obtain ⟨f, hf, hi'⟩ := exists_of_forall₂ hinfo hi
    obtain ⟨-, htag, -, hbuildin, -⟩ := fieldInfo_some hi'
    have hrefs := fieldInfo_refs hi'
    rw [PackField.ids] at hid
    rcases List.mem_append.mp hid with hid | hid
    · cases hb : i.buildin with
      | some b =>
        rw [hb] at hid
        have hlt := buildinTypes_lt (hbuildin ▸ hb)
        rw [List.mem_singleton.mp hid, lastTag]
        omega
      | none =>
        rw [hb] at hid
        obtain ⟨t, hst⟩ := hrefs.type id (Option.mem_toList.mp hid)
        exact h.index_ne hst
    · rcases List.mem_cons.mp hid with rfl | hid
      · rw [htag]
        exact ht.fields p ((sortTypes_perm r.type).mem_iff.mp hp) f hf
      · obtain ⟨name, t, -, hmem, g, hg, -, rfl⟩ := hrefs.key id (Option.mem_toList.mp hid)
        exact ht.fields (f.typename, t) ((sortTypes_perm r.type).mem_iff.mp hmem) g hg
  · intro i hi id hid
    obtain ⟨p, hp, -, htag, hreq, hresp⟩ := exists_of_forall₂ h.protoInfo hi
    have href : ∀ {typename : Option Bytes} {ref : Option Nat}, refInfo (allTypes (sortTypes r.type)) typename = some ref →
        ∀ id, ref = some id → id ≠ lastTag := by
      rintro typename ref href id rfl
      obtain ⟨-, hnone⟩ | ⟨name, id', t, -, heq, hst⟩ := refInfo_some href
      · cases hnone
      · cases heq
        exact h.index_ne hst
    rcases List.mem_cons.mp hid with rfl | hid
    · rw [htag]
      exact ht.protocols p ((sortProtocols_perm r.protocol).mem_iff.mp hp)
    · rcases List.mem_append.mp hid with hid | hid
      · exact href hreq id (Option.mem_toList.mp hid)
      · exact href hresp id (Option.mem_toList.mp hid)

theorem Packs.tagsFit (h : Packs r types protos) (hg : ∀ q ∈ types, ∀ i ∈ q.2, i.Good) (hp : ∀ p ∈ protos, p.Good) : TagsFit r := by
  constructor
  · intro p hp f hf
    obtain ⟨q, hq, -, hinfo⟩ := exists_right h.typeInfo ((sortTypes_perm r.type).mem_iff.mpr hp)
    obtain ⟨i, hi, hi'⟩ := exists_right hinfo hf
    rw [← (fieldInfo_some hi').2.1]
    exact hg q hq i hi i.tag (List.mem_append_right _ (List.mem_cons_self ..))
  · intro p hmem
    obtain ⟨i, hi, -, htag, -⟩ := exists_right h.protoInfo ((sortProtocols_perm r.protocol).mem_iff.mpr hmem)
    rw [← htag]
    exact hp i hi i.tag (List.mem_cons_self ..)

/-- The tags of the fields that are packed ascend. -/
theorem Packs.ascending (h : Packs r types protos) (hr : Parsed r) {q : Bytes × List PackField} (hq : q ∈ types) :
    q.2.Pairwise fun i j => i.tag < j.tag := by
  obtain ⟨p, hp, -, hinfo⟩ := exists_of_forall₂ h.typeInfo hq
  have htags := (hr.types p ((sortTypes_perm r.type).mem_iff.mp hp)).tags
  have hmap : q.2.map PackField.tag = p.2.map TypeField.tag := map_eq_of_forall₂ hinfo fun f i hi => (fieldInfo_some hi).2.1
  have hpairs : (p.2.map TypeField.tag).Pairwise (· < ·) := List.pairwise_map.mpr htags
  rw [← hmap, List.pairwise_map] at hpairs
  exact hpairs

theorem Packs.imported (h : Packs r types protos) (hr : Parsed r) (ht : TagsFit r) : ∃ sp, importedGroup types protos = some sp := by
  obtain ⟨hg, hp⟩ := h.good ht
  obtain ⟨type, htype⟩ := mapM_some fun q hq => importedType_good (hg q hq) (h.ascending hr hq)
  obtain ⟨proto, hproto⟩ := mapM_some fun p (hmem : p ∈ protos) => (⟨p.imported, if_pos (hp p hmem)⟩ : ∃ q, p.result = some q)
  exact ⟨⟨type, proto⟩, by rw [importedGroup, htype, hproto]; rfl⟩

/-- The types and protocols in C, item by item. -/
theorem importedGroup_some {sp : Bundle} (h : importedGroup types protos = some sp) :
    List.Forall₂ TypeImported types sp.type ∧ (∀ q ∈ types, ∀ i ∈ q.2, i.Good) ∧
      sp.proto = protos.map PackProto.imported ∧ ∀ p ∈ protos, p.Good := by
  obtain ⟨type, htype, h⟩ := Option.bind_eq_some_iff.mp h
  obtain ⟨proto, hproto, h⟩ := Option.bind_eq_some_iff.mp h
  cases h
  have htypes := forall₂_of_mapM htype
  have hprotos := forall₂_of_mapM hproto
  refine ⟨htypes.imp fun _ _ hq => (importedType_some hq).1, ?_, ?_, ?_⟩
  · intro q hq
    obtain ⟨t, -, ht⟩ := exists_right htypes hq
    exact (importedType_some ht).2
  · have hmap := map_eq_of_forall₂ hprotos fun p q hq => (show id q = p.imported from (result_some hq).1)
    rwa [List.map_id] at hmap
  · intro p hp
    obtain ⟨q, -, hq⟩ := exists_right hprotos hp
    exact (result_some hq).2

/-- An index of a type leads to its name. -/
theorem Packs.type_at {sp : Bundle} (h : Packs r types protos) (hsp : List.Forall₂ TypeImported types sp.type) {id : Nat}
    {name : Bytes} {t : List TypeField} (ht : (sortTypes r.type)[id]? = some (name, t)) : ∃ st, sp.type[id]? = some (name, st) := by
  obtain ⟨q, hq, hname, -⟩ := getElem?_of_forall₂ h.typeInfo ht
  obtain ⟨⟨name', st⟩, hst, himp⟩ := getElem?_of_forall₂ hsp hq
  obtain rfl : name' = name := himp.name.trans hname
  exact ⟨st, hst⟩

theorem buildinType_text {t : Bytes} {id : Nat} (h : buildinTypes t = some id) (sp : Bundle) :
    NamesType sp t ((buildinType id).getD .integer) := by
  rw [buildinTypes] at h
  split at h
  · rename_i ht
    cases h
    exact ht
  · split at h
    · rename_i ht
      cases h
      exact ht
    · split at h
      · rename_i ht
        cases h
        exact ht
      · cases h

theorem Packs.same_field {sp : Bundle} (h : Packs r types protos) (hsp : List.Forall₂ TypeImported types sp.type) {f : TypeField}
    {i : PackField} (hi : fieldInfo (allTypes (sortTypes r.type)) f = some i) (hp : i.Packed) : SameTypeField r sp f i.imported := by
  obtain ⟨hname, htag, harray, hbuildin, hkey⟩ := fieldInfo_some hi
  have hrefs := fieldInfo_refs hi
  refine ⟨hname, htag, harray, ?_, ?_⟩
  · rw [PackField.imported]
    cases hb : i.buildin with
    | some id => exact buildinType_text (hbuildin ▸ hb) sp
    | none =>
      obtain ⟨id, hid⟩ := Option.isSome_iff_exists.mp (hp.kind hb)
      obtain ⟨t, ht⟩ := hrefs.type id hid
      simp only [hid, Option.getD_some]
      exact h.type_at hsp ht
  · rw [PackField.imported]
    cases hk : i.key with
    | none =>
      have hnone : f.key = none := Option.not_isSome_iff_eq_none.mp (by rw [← hkey, hk]; intro h; cases h)
      rw [hnone]
      rfl
    | some k =>
      obtain ⟨name, t, hfkey, hmem, g, hg, hgname, hgtag⟩ := hrefs.key k hk
      rw [hfkey]
      exact ⟨t, (sortTypes_perm r.type).mem_iff.mp hmem, g, hg, hgname, by simp [hgtag]⟩

theorem Packs.same_ref {sp : Bundle} (h : Packs r types protos) (hsp : List.Forall₂ TypeImported types sp.type)
    {typename : Option Bytes} {ref : Option Nat} (href : refInfo (allTypes (sortTypes r.type)) typename = some ref) :
    SameRef sp typename ref := by
  obtain ⟨rfl, rfl⟩ | ⟨name, id, t, rfl, rfl, ht⟩ := refInfo_some href
  · trivial
  · exact h.type_at hsp ht

theorem cstring_word {name : Bytes} (h : isWord name = true) : cstring name = name := by
  have hzero : ∀ c ∈ name, c ≠ 0 := by
    intro c hc
    have halnum : isAlnum c = true := by
      cases name with
      | nil => cases hc
      | cons d ds =>
        rw [isWord, Bool.and_eq_true] at h
        rcases List.mem_cons.mp hc with rfl | hc
        · rw [isAlnum, h.1, Bool.true_or]
        · exact List.all_eq_true.mp h.2 c hc
    rintro rfl
    revert halnum
    decide
  rw [cstring, List.takeWhile_eq_self_iff]
  exact fun c hc => by simpa using hzero c hc

theorem sortProtocols_tags (hr : Parsed r) : (sortProtocols r.protocol).Pairwise fun p q => p.2.tag < q.2.tag := by
  have hle : (sortProtocols r.protocol).Pairwise fun p q => p.2.tag ≤ q.2.tag :=
    List.pairwise_insertionSort (fun p q : Bytes × ProtocolType => p.2.tag ≤ q.2.tag) r.protocol
  have hne : (sortProtocols r.protocol).Pairwise fun p q => p.2.tag ≠ q.2.tag :=
    (sortProtocols_perm r.protocol).symm.pairwise hr.protocolTags fun hne => hne.symm
  exact (hle.and hne).imp fun hlt => Nat.lt_of_le_of_ne hlt.1 hlt.2

theorem Packs.transported {sp : Bundle} (h : Packs r types protos) (hr : Parsed r) (hsp : importedGroup types protos = some sp) :
    Transported r sp := by
  obtain ⟨htypes, -, hproto, -⟩ := importedGroup_some hsp
  have htypenames : sp.type.map Prod.fst = (sortTypes r.type).map Prod.fst :=
    (map_eq_of_forall₂ htypes fun _ _ hq => hq.name).trans (map_eq_of_forall₂ h.typeInfo fun _ _ hq => hq.1)
  have hprotonames : sp.proto.map Protocol.name = (sortProtocols r.protocol).map Prod.fst := by
    rw [hproto, List.map_map]
    exact map_eq_of_forall₂ h.protoInfo fun _ _ hq => hq.1
  have himported : ∀ t ∈ sp.type, importType t.2.f = some t.2 := fun t ht => by
    obtain ⟨q, -, hq⟩ := exists_of_forall₂ htypes ht
    exact hq.imported
  have htags : sp.proto.Pairwise fun p q => p.tag < q.tag := by
    have hmap : sp.proto.map Protocol.tag = (sortProtocols r.protocol).map fun p => p.2.tag := by
      rw [hproto, List.map_map]
      exact map_eq_of_forall₂ h.protoInfo fun _ _ hq => hq.2.1
    have hpairs : ((sortProtocols r.protocol).map fun p => p.2.tag).Pairwise (· < ·) := List.pairwise_map.mpr (sortProtocols_tags hr)
    rw [← hmap, List.pairwise_map] at hpairs
    exact hpairs
  have hnodup : (sp.proto.map Protocol.name).Nodup := by
    rw [hprotonames]
    exact ((sortProtocols_perm r.protocol).map Prod.fst).nodup_iff.mpr hr.protocols
  have hwords : ∀ q ∈ sp.proto, cstring q.name = q.name := by
    intro q hq
    have hmem : q.name ∈ (sortProtocols r.protocol).map Prod.fst := hprotonames ▸ List.mem_map_of_mem hq
    obtain ⟨p, hp, heq⟩ := List.mem_map.mp hmem
    rw [← heq]
    exact cstring_word (hr.words p ((sortProtocols_perm r.protocol).mem_iff.mp hp))
  refine {
    typeNames := htypenames ▸ (sortTypes_perm r.type).map Prod.fst
    types := ?_
    protocolNames := hprotonames ▸ (sortProtocols_perm r.protocol).map Prod.fst
    protocols := ?_
    found := fun t ht f hf => findtag_mem (himported t ht) hf
    notFound := fun t ht tag hnone => findtag_none (himported t ht) hnone
    byTag := ?_
    byName := ?_ }
  · intro p hp
    obtain ⟨q, hq, hname, hinfo⟩ := exists_right h.typeInfo ((sortTypes_perm r.type).mem_iff.mpr hp)
    obtain ⟨⟨name, st⟩, hst, himp⟩ := exists_right htypes hq
    obtain rfl : name = p.1 := himp.name.trans hname
    refine ⟨st, hst, ?_⟩
    have hf : st.f = q.2.map PackField.imported := himp.fields
    rw [hf, List.forall₂_map_right_iff]
    exact forall₂_imp_right hinfo fun f i hi hfi => h.same_field htypes hfi (h.fields q hq i hi)
  · intro p hp
    obtain ⟨i, hi, hname, htag, hreq, hresp⟩ := exists_right h.protoInfo ((sortProtocols_perm r.protocol).mem_iff.mpr hp)
    exact ⟨i.imported, hproto ▸ List.mem_map_of_mem hi, hname, htag, h.same_ref htypes hreq, h.same_ref htypes hresp⟩
  · intro q hq
    obtain ⟨n, hn⟩ := List.mem_iff_getElem?.mp hq
    have hlen := (List.getElem?_eq_some_iff.mp hn).1
    have hkeys : sp.proto.Pairwise fun p q => (p.tag : Int) < q.tag := htags.imp fun hlt => by omega
    exact Bisect.find_mem hkeys hn (Nat.zero_le n) hlen (Nat.le_refl _) (by omega)
  · intro q hq
    rw [sprotoPrototag]
    split
    · rename_i p hfind
      have heq := List.find?_some hfind
      have hp := List.mem_of_find?_eq_some hfind
      rw [decide_eq_true_eq, hwords q hq, hwords p hp] at heq
      rw [List.inj_on_of_nodup_map hnodup hp hq heq.symm]
    · rename_i hnone
      exact absurd (decide_eq_true rfl) (List.find?_eq_none.mp hnone q hq)

end Packs

/-! ### A length that wraps around

The length of the types, with the 4 bytes of its own, is less than 4 in 32 bits: the protocols are then looked for in the
first type. -/

theorem toword_bytes {off : Nat} {a b : UInt8} {bs : Bytes} (h : Holds buf off (a :: b :: bs)) :
    toword buf off = .ok (a.toNat + 256 * b.toNat) := by
  have htwo : Holds buf off [a, b] := h.left (b := bs)
  have hread : readLe buf 2 off = .ok (Endian.ofLe [a, b]) := readLe_bytes htwo (Nat.succ_pos 1)
  rw [toword, hread]
  simp [Endian.ofLe]

theorem todword_bytes {off : Nat} {a b c d : UInt8} {bs : Bytes} (h : Holds buf off (a :: b :: c :: d :: bs)) :
    todword buf off = .ok (a.toNat + 256 * (b.toNat + 256 * (c.toNat + 256 * d.toNat))) := by
  have hfour : Holds buf off [a, b, c, d] := h.left (b := bs)
  have hread : readLe buf 4 off = .ok (Endian.ofLe [a, b, c, d]) := readLe_bytes hfour (Nat.succ_pos 3)
  rw [todword, hread]
  simp [Endian.ofLe]

theorem Holds.tail {off : Nat} {a : UInt8} {bs : Bytes} (h : Holds buf off (a :: bs)) : Holds buf (off + 1) bs :=
  Holds.right (a := [a]) h

theorem structField_some {off sz fn : Nat} (h : structField buf off sz = .ok (some fn)) :
    toword buf off = .ok fn ∧ SIZEOF_HEADER + SIZEOF_FIELD * fn ≤ sz := by
  rw [structField] at h
  split at h
  · cases h
  · simp only [bind, Except.bind] at h
    split at h
    · cases h
    · rename_i v hv
      split at h
      · cases h
      · rename_i hle
        split at h
        · cases h
        · split at h
          · cases h
            exact ⟨hv, by omega⟩
          · cases h

theorem importProtocol_some {type_n pos : Nat} {x : Protocol × Nat} (h : importProtocol buf type_n pos = .ok (some x)) :
    ∃ sz fn p, todword buf pos = .ok sz ∧ structField buf (pos + SIZEOF_LENGTH) sz = .ok (some fn) ∧ fn ≠ 0 ∧
      importProtocolLoop buf type_n (pos + SIZEOF_LENGTH + SIZEOF_HEADER + fn * SIZEOF_FIELD) fn
        (pos + SIZEOF_LENGTH + SIZEOF_HEADER) 0 { name := none, tag := none, request := none, response := none } = .ok (some p) ∧
      p.tag.isSome := by
  simp only [importProtocol, bind, Except.bind] at h
  split at h
  · cases h
  · rename_i sz hsz
    split at h
    · cases h
    · rename_i fn hfn
      split at h
      · cases h
      · rename_i p' hp'
        split at h
        · rename_i p
          obtain ⟨q, hq, rfl⟩ := Option.map_eq_some_iff.mp (Except.ok.inj h)
          obtain ⟨name, hname, hq⟩ := Option.bind_eq_some_iff.mp hq
          obtain ⟨tag, htag, hq⟩ := Option.bind_eq_some_iff.mp hq
          have hne : fn.getD 0 ≠ 0 := by
            intro hzero
            rw [hzero, importProtocolLoop] at hp'
            cases hp'
            cases hname
          cases fn with
          | none => exact absurd rfl hne
          | some fn => exact ⟨sz, fn, p, hsz, hfn, hne, hp', by rw [htag]; rfl⟩
        · cases h

/-- A value of 0 for the name alone leaves the tag as it was. -/
theorem importProtocolLoop_name {type_n strings at_ n : Nat} {p p' : ProtocolRead} (hname : toword buf at_ = .ok 0)
    (h : importProtocolLoop buf type_n strings (n + 1) at_ 0 p = .ok (some p')) :
    ∃ name, importProtocolLoop buf type_n strings n (at_ + SIZEOF_FIELD) 1 { p with name := some name } = .ok (some p') := by
  rw [importProtocolLoop, hname] at h
  simp only [bind, Except.bind] at h
  rw [if_neg (by decide), if_pos trivial, if_neg (by decide)] at h
  cases hs : importString buf strings with
  | error e => rw [hs] at h; cases h
  | ok name => exact ⟨name, by rw [hs] at h; exact h⟩

/-- A value of 0 is no tag. -/
theorem importProtocolLoop_noTag {type_n strings at_ n : Nat} {p p' : ProtocolRead} (htag : toword buf at_ = .ok 0) :
    importProtocolLoop buf type_n strings (n + 1) at_ 1 p ≠ .ok (some p') := by
  intro h
  rw [importProtocolLoop, htag] at h
  simp only [bind, Except.bind] at h
  rw [if_neg (by decide), if_neg (by decide), importProtocolField, if_pos (by decide)] at h
  cases h

/-- No protocol is read in the first type, at any of the four places. -/
theorem importProtocol_in_type {type_n off w : Nat} {q : Bytes × List PackField} (hq : Holds buf off (filled (typeStruct q.1 q.2)))
    (hw : w < 4) (x : Protocol × Nat) : importProtocol buf type_n (off + w) ≠ .ok (some x) := by
  intro h
  obtain ⟨sz, fn, p, hsz, hfn, hne, hloop, htag⟩ := importProtocol_some h
  obtain ⟨hword, hle⟩ := structField_some hfn
  -- the number of values, the value for the name and what is behind
  obtain ⟨d, e, bs, hstruct, hd⟩ : ∃ (d e : UInt8) (bs : Bytes), typeStruct q.1 q.2 = d :: 0 :: 0 :: 0 :: e :: bs ∧
      (d = 1 ∨ d = 2 ∧ e = 0 ∧ ∃ bs', bs = 0 :: bs') := by
    rw [typeStruct]
    split
    · exact ⟨1, _, _, rfl, .inl rfl⟩
    · exact ⟨2, 0, _, rfl, .inr ⟨rfl, rfl, _, rfl⟩⟩
  obtain ⟨m₀, m₁, m₂, m₃, hlen⟩ : ∃ m₀ m₁ m₂ m₃, Endian.le SIZEOF_LENGTH (typeStruct q.1 q.2).length = [m₀, m₁, m₂, m₃] :=
    ⟨_, _, _, _, rfl⟩
  rw [filled, hlen, hstruct] at hq
  have hbody : Holds buf (off + 4) (d :: 0 :: 0 :: 0 :: e :: bs) := hq.tail.tail.tail.tail
  obtain rfl | rfl | rfl | rfl : w = 0 ∨ w = 1 ∨ w = 2 ∨ w = 3 := by omega
  · have hfnd : fn = d.toNat := by
      have := hword.symm.trans (toword_bytes hbody)
      simpa using Except.ok.inj this
    have hname : toword buf (off + 0 + SIZEOF_LENGTH + SIZEOF_HEADER) = .ok 0 := toword_bytes hbody.tail.tail
    rcases hd with rfl | ⟨rfl, rfl, bs', rfl⟩
    · obtain rfl : fn = 1 := hfnd
      obtain ⟨name, hend⟩ := importProtocolLoop_name hname hloop
      cases hend
      cases htag
    · obtain rfl : fn = 2 := hfnd
      obtain ⟨name, hend⟩ := importProtocolLoop_name hname hloop
      have htagword : toword buf (off + 0 + SIZEOF_LENGTH + SIZEOF_HEADER + SIZEOF_FIELD) = .ok 0 :=
        toword_bytes hbody.tail.tail.tail.tail
      exact importProtocolLoop_noTag htagword hend
  · have hzero : toword buf (off + 1 + SIZEOF_LENGTH) = .ok 0 := toword_bytes hbody.tail
    exact hne (Except.ok.inj (hword.symm.trans hzero))
  · have hzero : toword buf (off + 2 + SIZEOF_LENGTH) = .ok 0 := toword_bytes hbody.tail.tail
    exact hne (Except.ok.inj (hword.symm.trans hzero))
  · -- the last byte of the length, the number of values and the value for the name are taken for the length
    have hlength : todword buf (off + 3) = .ok (m₃.toNat + 256 * (d.toNat + 256 * (0 + 256 * 0))) := todword_bytes hq.tail.tail.tail
    have hsmall : sz ≤ 255 + 256 * d.toNat := by
      have := Except.ok.inj (hsz.symm.trans hlength)
      have := m₃.toNat_lt
      omega
    have hfne : fn = 256 * e.toNat := by
      have hcount : toword buf (off + 3 + SIZEOF_LENGTH) = .ok ((0 : UInt8).toNat + 256 * e.toNat) := toword_bytes hbody.tail.tail.tail
      simpa using Except.ok.inj (hword.symm.trans hcount)
    have hpos : e.toNat ≠ 0 := by
      intro hzero
      rw [hzero] at hfne
      exact hne hfne
    rcases hd with rfl | ⟨rfl, rfl, -⟩
    · have hH : SIZEOF_HEADER = 2 := rfl
      have hF : SIZEOF_FIELD * fn = 2 * fn := rfl
      have hone : (1 : UInt8).toNat = 1 := rfl
      omega
    · exact hpos rfl

/-- What `sproto_create` has read. -/
theorem create_some {sp : Bundle} (h : sprotoCreate buf = .ok (some sp)) :
    ∃ fn s, toword buf 0 = .ok fn ∧
      sectionsLoop buf fn 0 SIZEOF_HEADER (SIZEOF_HEADER + fn * SIZEOF_FIELD)
        { type_n := 0, typedata := 0, protocol_n := 0, protocoldata := 0 } = .ok (some s) ∧
      importItems (importProtocol buf s.type_n) s.protocol_n s.protocoldata [] = .ok (some sp.proto) := by
  simp only [sprotoCreate, createFromBundle, bind, Except.bind] at h
  split at h
  · cases h
  · rename_i v hv
    split at h
    · rename_i fn
      split at h
      · cases h
      · split at h
        · cases h
        · rename_i s' hs
          split at h
          · rename_i s
            split at h
            · cases h
            · split at h
              · split at h
                · cases h
                · rename_i proto' hproto
                  split at h
                  · cases h
                    exact ⟨fn, s, (structField_some hv).1, hs, hproto⟩
                  · cases h
              · cases h
          · cases h
    · cases h

theorem create_wrapped {types : List (Bytes × List PackField)} {protos : List PackProto} (hsize : (typesBytes types).length < 2 ^ 32)
    (hne : types ≠ []) (hbig : 2 ^ 32 ≤ (typesBytes types).length + 4) {sp : Bundle}
    (h : sprotoCreate (message [0, 0] [typesBytes types, protosBytes protos]) = .ok (some sp)) : sp.proto = [] := by
  obtain ⟨buf, hb⟩ : ∃ buf, buf = message [0, 0] [typesBytes types, protosBytes protos] := ⟨_, rfl⟩
  have hbuf : Holds buf 0 (message [0, 0] [typesBytes types, protosBytes protos]) := hb ▸ Holds.all buf
  rw [← hb] at h
  obtain ⟨fn, s, hfn, hsections, hproto⟩ := create_some h
  obtain rfl : fn = 2 := Except.ok.inj (hfn.symm.trans (toword_holds hbuf.message.1 (by decide)))
  have hdata := hbuf.message.2.2
  rw [List.flatMap_cons, List.flatMap_singleton] at hdata
  have hvalue : toword buf SIZEOF_HEADER = .ok 0 := toword_holds hbuf.message.2.1.left (by decide)
  have hvalue' : toword buf (SIZEOF_HEADER + SIZEOF_FIELD) = .ok 0 := toword_holds hbuf.message.2.1.right (by decide)
  have hcount : countArray buf (SIZEOF_HEADER + 2 * SIZEOF_FIELD) = .ok (some types.length) := countArray_items hdata.left hsize
  have hlength : todword buf (SIZEOF_HEADER + 2 * SIZEOF_FIELD) = .ok (typesBytes types).length := hdata.left.filled_size hsize
  obtain ⟨w, hw, hmod⟩ : ∃ w, w < 4 ∧ ((typesBytes types).length + SIZEOF_LENGTH) % 2 ^ 32 = w := by
    have hL : SIZEOF_LENGTH = 4 := rfl
    exact ⟨_, by omega, rfl⟩
  simp only [sectionsLoop, bind, Except.bind, hvalue, hvalue', hcount, hlength, hmod] at hsections
  rw [if_neg (by decide), if_neg (by decide)] at hsections
  cases hn : countArray buf (SIZEOF_HEADER + 2 * SIZEOF_FIELD + w) with
  | error e => rw [hn] at hsections; cases hsections
  | ok n =>
    rw [hn] at hsections
    cases n with
    | none => cases hsections
    | some n =>
      simp only at hsections
      split at hsections
      · cases hsections
      · obtain rfl := Option.some.inj (Except.ok.inj hsections)
        simp only [Nat.zero_add, one_ne_zero, if_false] at hproto
        cases n with
        | zero =>
          rw [importItems] at hproto
          exact (Option.some.inj (Except.ok.inj hproto)).symm
        | succ n =>
          obtain ⟨q, qs, rfl⟩ := List.exists_cons_of_ne_nil hne
          have hq : Holds buf (SIZEOF_HEADER + 2 * SIZEOF_FIELD + SIZEOF_LENGTH) (filled (typeStruct q.1 q.2)) := by
            have := hdata.left.filled_body
            rw [typesBytes, List.flatMap_cons] at this
            exact this.left
          rw [importItems] at hproto
          simp only [bind, Except.bind] at hproto
          split at hproto
          · cases hproto
          · rename_i x hx
            split at hproto
            · have hpos : SIZEOF_HEADER + 2 * SIZEOF_FIELD + w + SIZEOF_LENGTH = SIZEOF_HEADER + 2 * SIZEOF_FIELD + SIZEOF_LENGTH + w :=
                Nat.add_right_comm ..
              rw [hpos] at hx
              exact absurd hx (importProtocol_in_type hq hw _)
            · cases hproto

/-! ### The schemas that are transported -/

/-- The bytes of a field. -/
def fieldSize (f : TypeField) : Nat :=
  4 + (2 + 2 * (4 + (if f.array then 1 else 0) + (if f.key.isSome then 1 else 0)) + (4 + f.name.length))

/-- The bytes of a type. -/
def typeSize (p : Bytes × List TypeField) : Nat :=
  4 + if p.2.isEmpty then 4 + (4 + p.1.length) else 6 + (4 + p.1.length) + (4 + (p.2.map fieldSize).sum)

def typesSize (r : Schema) : Nat := (r.type.map typeSize).sum

theorem fields_length {ts : Table (List TypeField)} {fs : List TypeField} {is : List PackField}
    (h : List.Forall₂ (fun f i => fieldInfo (allTypes ts) f = some i) fs is) (hp : ∀ i ∈ is, i.Packed) :
    (is.flatMap PackField.bytes).length = (fs.map fieldSize).sum := by
  induction h with
  | nil => rfl
  | @cons f i fs is hi _ ih =>
    obtain ⟨hname, -, harray, -, hkey⟩ := fieldInfo_some hi
    have hkind : i.kind.length = 2 := by
      rw [PackField.kind]
      cases hb : i.buildin with
      | some id => rfl
      | none =>
        obtain ⟨id, hid⟩ := Option.isSome_iff_exists.mp ((hp i (List.mem_cons_self ..)).kind hb)
        rw [hid]
        rfl
    have hkeylen : (i.key.map wire).toList.length = if f.key.isSome then 1 else 0 := by
      rw [← hkey]
      cases i.key <;> rfl
    have hbytes : i.bytes.length = fieldSize f := by
      rw [PackField.bytes, filled_length, message_length, List.flatMap_singleton, filled_length, i.values_eq, fieldSize, hname, harray]
      simp only [List.length_cons, List.length_append, hkind, hkeylen]
      split <;> simp <;> omega
    rw [List.flatMap_cons, List.length_append, hbytes, ih fun j hj => hp j (List.mem_cons_of_mem _ hj), List.map_cons, List.sum_cons]

theorem types_length {ts : Table (List TypeField)} {ps : Table (List TypeField)} {qs : List (Bytes × List PackField)}
    (h : List.Forall₂ (TypePacked (allTypes ts)) ps qs) (hp : ∀ q ∈ qs, ∀ i ∈ q.2, i.Packed) :
    (typesBytes qs).length = (ps.map typeSize).sum := by
  induction h with
  | nil => rfl
  | @cons p q ps qs hpq _ ih =>
    obtain ⟨hname, hinfo⟩ := hpq
    have hfields := fields_length hinfo (hp q (List.mem_cons_self ..))
    have htype : (filled (typeStruct q.1 q.2)).length = typeSize p := by
      rw [filled_length, typeStruct, typeSize, hname, ← hfields]
      have hempty : q.2.isEmpty = p.2.isEmpty := by
        rw [Bool.eq_iff_iff, List.isEmpty_iff_length_eq_zero, List.isEmpty_iff_length_eq_zero, hinfo.length_eq]
      rw [hempty]
      split
      · rw [message_length, List.flatMap_singleton, filled_length, List.length_singleton]
        omega
      · rw [message_length, List.flatMap_cons (f := filled), List.flatMap_singleton, List.length_append, filled_length, filled_length]
        simp only [List.length_cons, List.length_nil]
        omega
    rw [typesBytes] at ih ⊢
    rw [List.flatMap_cons, List.length_append, htype, ih fun r hr => hp r (List.mem_cons_of_mem _ hr), List.map_cons, List.sum_cons]

/-- A schema is transported if and only if it has a type, no tag of `2 ^ 63 - 1`, and types in less than `2 ^ 32 - 4` bytes
where protocols stand behind them. -/
theorem transported_iff {objs : List Obj} {r : Schema} {bs : Bytes} (hr : parser objs = some r) (hbs : packgroup r = some bs) :
    (∃ sp, sprotoCreate bs = .ok (some sp) ∧ Transported r sp) ↔
      r.type ≠ [] ∧ TagsFit r ∧ (r.protocol = [] ∨ typesSize r + 4 < 2 ^ 32) := by
  have hparsed := parser_parsed hr
  by_cases hne : r.type = []
  · have hempty : bs = [0, 0] := by
      rw [packgroup, if_pos (by rw [hne]; rfl)] at hbs
      split at hbs
      · exact (Option.some.inj hbs).symm
      · cases hbs
    subst hempty
    constructor
    · rintro ⟨sp, hsp, -⟩
      cases hsp
    · rintro ⟨hne', -⟩
      exact absurd hne hne'
  · obtain ⟨types, protos, hpacks, rfl⟩ := packgroup_some hbs hparsed hne
    have hok := hpacks.ok hparsed
    have hsize : (typesBytes types).length = typesSize r := by
      rw [types_length hpacks.typeInfo hpacks.fields, typesSize]
      exact ((sortTypes_perm r.type).map typeSize).sum_nat
    have hprotos : protos = [] ↔ r.protocol = [] := by
      rw [← List.length_eq_zero_iff, ← List.length_eq_zero_iff, ← hpacks.protoInfo.length_eq, (sortProtocols_perm r.protocol).length_eq]
    have hgroup : r.protocol = [] ∨ typesSize r + 4 < 2 ^ 32 →
        sprotoCreate (groupBytes types protos) = .ok (importedGroup types protos) := by
      intro hsmall
      rw [groupBytes]
      by_cases hp : protos = []
      · subst hp
        exact create_types hok
      · rw [if_neg (by simpa using hp)]
        exact create_both hok (hsize ▸ hsmall.resolve_left (hprotos.not.mp hp))
    constructor
    · rintro ⟨sp, hsp, htrans⟩
      have hsmall : r.protocol = [] ∨ typesSize r + 4 < 2 ^ 32 := by
        by_contra hbig
        obtain ⟨hprotocol, hwrap⟩ := not_or.mp hbig
        have hp := hprotos.not.mpr hprotocol
        rw [groupBytes, if_neg (by simpa using hp)] at hsp
        have hnone := create_wrapped hok.size (fun h => hne ?_) (by omega) hsp
        · have hperm := htrans.protocolNames
          rw [hnone, List.map_nil] at hperm
          exact hprotocol (List.map_eq_nil_iff.mp hperm.symm.eq_nil)
        · have hlen := hpacks.typeInfo.length_eq
          rw [h, (sortTypes_perm r.type).length_eq] at hlen
          exact List.length_eq_zero_iff.mp hlen
      rw [hgroup hsmall] at hsp
      obtain ⟨-, hg, -, hp⟩ := importedGroup_some (Except.ok.inj hsp)
      exact ⟨hne, hpacks.tagsFit hg hp, hsmall⟩
    · rintro ⟨-, htags, hsmall⟩
      obtain ⟨sp, hsp⟩ := hpacks.imported hparsed htags
      exact ⟨sp, by rw [hgroup hsmall, hsp], hpacks.transported hparsed hsp⟩

/-- A schema without any type is accepted and makes two bytes, and so does a tag that wraps around: `sproto_create` returns
NULL for both. -/
theorem schema_not_transported :
    (∃ bs, (parser []).bind packgroup = some bs ∧ ∀ sp, sprotoCreate bs ≠ .ok (some sp)) ∧
    ∃ bs, (parser [.type ⟨text "person", by decide⟩ (.field ⟨text "age", by decide⟩ lastTag false (text "integer") [] .nil)]).bind
      packgroup = some bs ∧ ∀ sp, sprotoCreate bs ≠ .ok (some sp) := by
  have hnull : ∀ {bs : Bytes}, sprotoCreate bs = .ok none → ∀ sp, sprotoCreate bs ≠ .ok (some sp) := by
    intro bs h sp hsp
    rw [h] at hsp
    cases hsp
  refine ⟨⟨[0, 0], by decide, hnull rfl⟩, ?_⟩
  refine ⟨[1, 0, 0, 0, 45, 0, 0, 0, 41, 0, 0, 0, 2, 0, 0, 0, 0, 0, 6, 0, 0, 0, 112, 101, 114, 115, 111, 110, 21, 0, 0, 0, 17, 0, 0, 0,
    4, 0, 0, 0, 2, 0, 1, 0, 0, 0, 3, 0, 0, 0, 97, 103, 101], by decide, hnull (by decide)⟩

/-- A person with phones, and a protocol that asks for one. -/
def addressBook : List Obj :=
  [.type ⟨text "person", by decide⟩
    (.type ⟨text "phone", by decide⟩ (.field ⟨text "number", by decide⟩ 0 false (text "string") [] .nil)
      (.field ⟨text "phones", by decide⟩ 3 true (text "phone") [⟨text "number", by decide⟩]
        (.field ⟨text "name", by decide⟩ 0 false (text "string") [] .nil))),
   .protocol ⟨text "find", by decide⟩ 1 [(.response, .typename (text "person"))]]

def addressSchema : Schema where
  type := [(text "person", [⟨text "name", 0, false, none, text "string"⟩,
      ⟨text "phones", 3, true, some (text "number"), text "person.phone"⟩]),
    (text "person.phone", [⟨text "number", 0, false, none, text "string"⟩])]
  protocol := [(text "find", ⟨1, none, some (text "person")⟩)]

theorem addressBook_transported :
    ∃ bs sp, packgroup addressSchema = some bs ∧ sprotoCreate bs = .ok (some sp) ∧ Transported addressSchema sp := by
  have hr : parser addressBook = some addressSchema := by decide
  have hsome : (packgroup addressSchema).isSome = true := by decide +kernel
  obtain ⟨bs, hbs⟩ := Option.isSome_iff_exists.mp hsome
  have htags : TagsFit addressSchema := ⟨by decide, by decide⟩
  obtain ⟨sp, hsp, h⟩ := (transported_iff hr hbs).mpr ⟨by decide, htags, .inr (by decide)⟩
  exact ⟨bs, sp, hbs, hsp, h⟩

end Sproto
end Skynet
