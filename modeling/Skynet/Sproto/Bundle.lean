import Skynet.Sproto.Parser

/-!
# Skynet.Sproto.Bundle

`packgroup` of `sprotoparser.lua`: a schema as bytes. `none` is an error.

* `message` : the form of all that is packed, values of two bytes with the data that they refer to.
* `packgroup_some` : a schema with types is packed type by type and protocol by protocol in this form.
-/

namespace Skynet
namespace Sproto

/-! ### Packing -/

def packbytes (str : Bytes) : Option Bytes :=
  if str.length < 2 ^ 32 then some (Endian.le 4 str.length ++ str) else none

/-- `(id + 1) * 2` in 64 bits. -/
def wire (id : Nat) : Nat := (id + 1) * 2 % 2 ^ 64

/-- A number from `2 ^ 63` on is a float. -/
def packvalue (id : Nat) : Option Bytes :=
  if id < 2 ^ 63 ∧ wire id < 2 ^ 16 then some (Endian.le 2 (wire id)) else none

/-- The table `tmp` of `packtype`. -/
structure PackField where
  name : Bytes
  tag : Nat
  array : Bool
  buildin : Option Nat
  type : Option Nat
  key : Option Nat

def packfield (f : PackField) : Option Bytes := do
  let fields : Bytes := if f.array then (if f.key.isSome then [6, 0] else [5, 0]) else [4, 0]
  let kind ← (match f.buildin with
    | some id => (packvalue id).map fun v => v ++ [1, 0]
    | none => do
      let id ← f.type
      (packvalue id).map fun v => [1, 0] ++ v)
  let tag ← packvalue f.tag
  let array ← (if f.array then packvalue 1 else some [])
  let key ← (match f.key with
    | some k => packvalue k
    | none => some [])
  let name ← packbytes f.name
  packbytes (fields ++ [0, 0] ++ kind ++ tag ++ array ++ key ++ name)

/-- An entry of `alltypes`: the index of a type, and the tags of the fields that can be a main key. -/
structure TypeEntry where
  id : Nat
  fields : Table Nat

/-- The table `tmp` for a field. -/
def fieldInfo (alltypes : Table TypeEntry) (f : TypeField) : Option PackField := do
  let buildin := buildinTypes f.typename
  let subtype ← (if buildin.isSome then some none else (alltypes.lookup f.typename).map some)
  let key ← (match f.key with
    | some k => do
      let subtype ← subtype
      (subtype.fields.lookup k).map some
    | none => some none)
  some { name := f.name, tag := f.tag, array := f.array, buildin := buildin, type := subtype.map TypeEntry.id, key := key }

def packtype (name : Bytes) (t : List TypeField) (alltypes : Table TypeEntry) : Option Bytes := do
  let fields ← t.mapM fun f => do
    let tmp ← fieldInfo alltypes f
    packfield tmp
  let name ← packbytes name
  if fields.isEmpty then packbytes ([1, 0] ++ [0, 0] ++ name)
  else do
    let fields ← packbytes fields.flatten
    packbytes ([2, 0] ++ [0, 0] ++ [0, 0] ++ name ++ fields)

/-- The value for the type of a request or a response. -/
def packref (alltypes : Table TypeEntry) (typename : Option Bytes) : Option Bytes :=
  match typename with
  | some t => do
    let entry ← alltypes.lookup t
    packvalue entry.id
  | none => some [1, 0]

def packproto (name : Bytes) (p : ProtocolType) (alltypes : Table TypeEntry) : Option Bytes := do
  let request ← packref alltypes p.request
  let tag ← packvalue p.tag
  let name ← packbytes name
  if p.request.isNone ∧ p.response.isNone then packbytes ([2, 0] ++ [0, 0] ++ tag ++ name)
  else if p.response.isNone then packbytes ([3, 0] ++ [0, 0] ++ tag ++ request ++ name)
  else do
    let response ← packref alltypes p.response
    packbytes ([4, 0] ++ [0, 0] ++ tag ++ request ++ response ++ name)

/-- The order of strings, byte by byte. -/
def nameLe : Bytes → Bytes → Bool
  | [], _ => true
  | _ :: _, [] => false
  | a :: as, b :: bs => a < b || (a == b && nameLe as bs)

/-- The types in the order of their names. -/
def sortTypes (t : Table (List TypeField)) : Table (List TypeField) :=
  t.insertionSort fun p q => nameLe p.1 q.1

def sortProtocols (p : Table ProtocolType) : Table ProtocolType := p.insertionSort fun p q => p.2.tag ≤ q.2.tag

/-- The tags of the fields with a built-in type. -/
def keyFields (t : List TypeField) : Table Nat :=
  t.foldl (fun fields f => if (buildinTypes f.typename).isSome then fields.set f.name f.tag else fields) []

/-- `alltypes`, from the types in their order. -/
def allTypes (ts : Table (List TypeField)) : Table TypeEntry :=
  ts.zipIdx.map fun (p, id) => (p.1, { id := id, fields := keyFields p.2 })

def packgroup (r : Schema) : Option Bytes :=
  if r.type.isEmpty then
    if r.protocol.isEmpty then some [0, 0] else none
  else do
    let alltypes := allTypes (sortTypes r.type)
    let tt ← (sortTypes r.type).mapM fun (name, t) => packtype name t alltypes
    let tt ← packbytes tt.flatten
    if r.protocol.isEmpty then some ([1, 0] ++ [0, 0] ++ tt)
    else do
      let tp ← (sortProtocols r.protocol).mapM fun (name, p) => packproto name p alltypes
      let tp ← packbytes tp.flatten
      some ([2, 0] ++ [0, 0] ++ [0, 0] ++ tt ++ tp)

/-! ### The form of what is packed -/

/-- A struct as it is packed: its values, and the data behind them. -/
def message (values : List Nat) (datas : List Bytes) : Bytes :=
  Endian.le 2 values.length ++ values.flatMap (Endian.le 2) ++ datas.flatMap filled

def Packable (id : Nat) : Prop := id < 2 ^ 63 ∧ wire id < 2 ^ 16

theorem packvalue_some {id : Nat} {v : Bytes} (h : packvalue id = some v) : v = Endian.le 2 (wire id) ∧ Packable id := by
  rw [packvalue] at h
  split at h
  · rename_i hid
    cases h
    exact ⟨rfl, hid⟩
  · cases h

theorem packbytes_some {str bs : Bytes} (h : packbytes str = some bs) : bs = filled str ∧ str.length < 2 ^ 32 := by
  rw [packbytes] at h
  split at h
  · rename_i hlen
    cases h
    exact ⟨rfl, hlen⟩
  · cases h

/-- The numbers that are packed for a field. -/
def PackField.ids (f : PackField) : List Nat :=
  (match f.buildin with | some id => [id] | none => f.type.toList) ++ f.tag :: f.key.toList

/-- The values for the type of a field: one of them is skipped. -/
def PackField.kind (f : PackField) : List Nat :=
  match f.buildin with
  | some id => [wire id, 1]
  | none => 1 :: (f.type.map wire).toList

/-- The values of a field. -/
def PackField.values (f : PackField) : List Nat :=
  0 :: f.kind ++ wire f.tag :: (if f.array then [wire 1] else []) ++ (f.key.map wire).toList

def PackField.bytes (f : PackField) : Bytes := filled (message f.values [f.name])

/-- What holds of a field that has been packed. -/
structure PackField.Packed (f : PackField) : Prop where
  ids : ∀ id ∈ f.ids, Packable id
  kind : f.buildin = none → f.type.isSome

theorem kind_some {f : PackField} {kind : Bytes} (h : (match f.buildin with
    | some id => (packvalue id).map fun v => v ++ [1, 0]
    | none => do
      let id ← f.type
      (packvalue id).map fun v => [1, 0] ++ v) = some kind) :
    kind = f.kind.flatMap (Endian.le 2) ∧ f.kind.length = 2 ∧ (f.buildin = none → f.type.isSome) ∧
      ∀ id ∈ (match f.buildin with | some id => [id] | none => f.type.toList), Packable id := by
  rw [PackField.kind]
  cases hb : f.buildin with
  | some id =>
    rw [hb] at h
    obtain ⟨v, hv, rfl⟩ := Option.map_eq_some_iff.mp h
    obtain ⟨rfl, hid⟩ := packvalue_some hv
    exact ⟨rfl, rfl, nofun, fun _ hmem => List.mem_singleton.mp hmem ▸ hid⟩
  | none =>
    rw [hb] at h
    obtain ⟨id, hid, h⟩ := Option.bind_eq_some_iff.mp h
    obtain ⟨v, hv, rfl⟩ := Option.map_eq_some_iff.mp h
    obtain ⟨rfl, hpack⟩ := packvalue_some hv
    rw [hid]
    exact ⟨rfl, rfl, fun _ => rfl, fun _ hmem => Option.mem_toList.mp hmem |> Option.some.inj |>.symm ▸ hpack⟩

theorem packfield_some {f : PackField} {bs : Bytes} (h : packfield f = some bs) (hkey : f.key.isSome → f.array = true) :
    bs = f.bytes ∧ f.Packed := by
  obtain ⟨kind, hkind, h⟩ := Option.bind_eq_some_iff.mp h
  obtain ⟨tagv, htag, h⟩ := Option.bind_eq_some_iff.mp h
  obtain ⟨arrayv, harray, h⟩ := Option.bind_eq_some_iff.mp h
  obtain ⟨keyv, hkeyv, h⟩ := Option.bind_eq_some_iff.mp h
  obtain ⟨namev, hname, h⟩ := Option.bind_eq_some_iff.mp h
  obtain ⟨rfl, -⟩ := packbytes_some hname
  obtain ⟨rfl, -⟩ := packbytes_some h
  obtain ⟨rfl, htagp⟩ := packvalue_some htag
  obtain ⟨rfl, hkindlen, hsome, hkindp⟩ := kind_some hkind
  have harr : arrayv = (if f.array then [wire 1] else []).flatMap (Endian.le 2) := by
    cases ha : f.array with
    | true => rw [ha] at harray; exact Option.some.inj harray.symm
    | false => rw [ha] at harray; exact Option.some.inj harray.symm
  have hkeys : keyv = (f.key.map wire).toList.flatMap (Endian.le 2) ∧ ∀ id ∈ f.key.toList, Packable id := by
    cases hk : f.key with
    | none =>
      rw [hk] at hkeyv
      exact ⟨Option.some.inj hkeyv.symm, nofun⟩
    | some k =>
      rw [hk] at hkeyv
      obtain ⟨rfl, hp⟩ := packvalue_some hkeyv
      exact ⟨rfl, fun _ hmem => List.mem_singleton.mp hmem ▸ hp⟩
  have hhead : (if f.array then (if f.key.isSome then ([6, 0] : Bytes) else [5, 0]) else [4, 0]) = Endian.le 2 f.values.length := by
    rw [PackField.values]
    simp only [List.length_append, List.length_cons, hkindlen]
    cases ha : f.array <;> cases hk : f.key
    · rfl
    · rw [hk, ha] at hkey; cases hkey rfl
    · simp only [if_true, List.length_singleton]; rfl
    · simp only [if_true, Option.isSome_some, Option.map_some, Option.toList_some, List.length_singleton]; rfl
  refine ⟨?_, ?_, hsome⟩
  · rw [PackField.bytes, message, hhead, harr, hkeys.1]
    simp only [PackField.values, List.flatMap_append, List.flatMap_cons, List.flatMap_nil, List.append_nil, List.append_assoc,
      List.cons_append, List.nil_append]
    rfl
  · intro id hid
    rw [PackField.ids] at hid
    rcases List.mem_append.mp hid with hid | hid
    · exact hkindp id hid
    · rcases List.mem_cons.mp hid with rfl | hid
      · exact htagp
      · exact hkeys.2 id hid

theorem fieldInfo_some {alltypes : Table TypeEntry} {f : TypeField} {i : PackField} (h : fieldInfo alltypes f = some i) :
    i.name = f.name ∧ i.tag = f.tag ∧ i.array = f.array ∧ i.buildin = buildinTypes f.typename ∧ i.key.isSome = f.key.isSome := by
  obtain ⟨subtype, -, h⟩ := Option.bind_eq_some_iff.mp h
  obtain ⟨key, hkey, h⟩ := Option.bind_eq_some_iff.mp h
  cases h
  refine ⟨rfl, rfl, rfl, rfl, ?_⟩
  cases hk : f.key with
  | none =>
    rw [hk] at hkey
    obtain rfl := Option.some.inj hkey
    rfl
  | some k =>
    rw [hk] at hkey
    obtain ⟨entry, -, hkey⟩ := Option.bind_eq_some_iff.mp hkey
    obtain ⟨tag, -, rfl⟩ := Option.map_eq_some_iff.mp hkey
    rfl

/-- The bytes of a type behind their length. -/
def typeStruct (name : Bytes) (fields : List PackField) : Bytes :=
  if fields.isEmpty then message [0] [name] else message [0, 0] [name, fields.flatMap PackField.bytes]

theorem fields_some {alltypes : Table TypeEntry} {t : List TypeField} {bss : List Bytes}
    (h : List.Forall₂ (fun f bs => (do
      let tmp ← fieldInfo alltypes f
      packfield tmp) = some bs) t bss) (hkey : ∀ f ∈ t, f.key.isSome → f.array = true) :
    ∃ fields : List PackField, List.Forall₂ (fun f i => fieldInfo alltypes f = some i) t fields ∧
      bss = fields.map PackField.bytes ∧ ∀ i ∈ fields, i.Packed := by
  induction h with
  | nil => exact ⟨[], .nil, rfl, nofun⟩
  | @cons f bs t bss hf _ ih =>
    obtain ⟨fields, hinfo, rfl, hpacked⟩ := ih fun g hg => hkey g (List.mem_cons_of_mem _ hg)
    obtain ⟨i, hi, hbs⟩ := Option.bind_eq_some_iff.mp hf
    obtain ⟨-, -, harray, -, hsome⟩ := fieldInfo_some hi
    obtain ⟨rfl, hp⟩ := packfield_some hbs fun hk => harray ▸ hkey f (List.mem_cons_self ..) (hsome ▸ hk)
    exact ⟨i :: fields, .cons hi hinfo, rfl, List.forall_mem_cons.mpr ⟨hp, hpacked⟩⟩

theorem packtype_some {name : Bytes} {t : List TypeField} {alltypes : Table TypeEntry} {bs : Bytes}
    (h : packtype name t alltypes = some bs) (hkey : ∀ f ∈ t, f.key.isSome → f.array = true) :
    ∃ fields : List PackField, List.Forall₂ (fun f i => fieldInfo alltypes f = some i) t fields ∧
      bs = filled (typeStruct name fields) ∧ ∀ i ∈ fields, i.Packed := by
  obtain ⟨bss, hbss, h⟩ := Option.bind_eq_some_iff.mp h
  obtain ⟨namev, hname, h⟩ := Option.bind_eq_some_iff.mp h
  obtain ⟨rfl, -⟩ := packbytes_some hname
  obtain ⟨fields, hinfo, rfl, hpacked⟩ := fields_some (forall₂_of_mapM hbss) hkey
  refine ⟨fields, hinfo, ?_, hpacked⟩
  rw [typeStruct]
  cases fields with
  | nil =>
    obtain ⟨rfl, -⟩ := packbytes_some h
    rw [List.isEmpty_nil, if_pos rfl]
    simp only [message, List.length_cons, List.length_nil, List.flatMap_cons, List.flatMap_nil, List.append_nil, List.append_assoc]
    rfl
  | cons i fields =>
    obtain ⟨fieldsv, hfields, h⟩ := Option.bind_eq_some_iff.mp h
    obtain ⟨rfl, -⟩ := packbytes_some hfields
    obtain ⟨rfl, -⟩ := packbytes_some h
    rw [List.isEmpty_cons, if_neg (by decide), ← List.flatMap_def]
    simp only [message, List.length_cons, List.length_nil, List.flatMap_cons, List.flatMap_nil, List.append_nil, List.append_assoc]
    rfl

/-- What is packed of a protocol. -/
structure PackProto where
  name : Bytes
  tag : Nat
  request : Option Nat
  response : Option Nat

def refInfo (alltypes : Table TypeEntry) (typename : Option Bytes) : Option (Option Nat) :=
  match typename with
  | some t => (alltypes.lookup t).map fun entry => some entry.id
  | none => some none

def PackProto.ids (p : PackProto) : List Nat := p.tag :: (p.request.toList ++ p.response.toList)

/-- The values of a protocol. -/
def PackProto.values (p : PackProto) : List Nat :=
  0 :: wire p.tag :: match p.request, p.response with
    | none, none => []
    | some r, none => [wire r]
    | none, some s => [1, wire s]
    | some r, some s => [wire r, wire s]

def PackProto.bytes (p : PackProto) : Bytes := filled (message p.values [p.name])

theorem packref_some {alltypes : Table TypeEntry} {typename : Option Bytes} {bs : Bytes} (h : packref alltypes typename = some bs) :
    ∃ r, refInfo alltypes typename = some r ∧ bs = Endian.le 2 ((r.map wire).getD 1) ∧ r.isSome = typename.isSome ∧
      ∀ id ∈ r.toList, Packable id := by
  cases typename with
  | none => exact ⟨none, rfl, Option.some.inj h.symm, rfl, nofun⟩
  | some t =>
    obtain ⟨entry, hentry, h⟩ := Option.bind_eq_some_iff.mp h
    obtain ⟨rfl, hid⟩ := packvalue_some h
    exact ⟨some entry.id, by rw [refInfo, hentry]; rfl, rfl, rfl, fun _ hmem => List.mem_singleton.mp hmem ▸ hid⟩

theorem packproto_some {name : Bytes} {p : ProtocolType} {alltypes : Table TypeEntry} {bs : Bytes}
    (h : packproto name p alltypes = some bs) :
    ∃ i : PackProto, i.name = name ∧ i.tag = p.tag ∧ refInfo alltypes p.request = some i.request ∧
      refInfo alltypes p.response = some i.response ∧ bs = i.bytes ∧ ∀ id ∈ i.ids, Packable id := by
  obtain ⟨requestv, hrequest, h⟩ := Option.bind_eq_some_iff.mp h
  obtain ⟨tagv, htag, h⟩ := Option.bind_eq_some_iff.mp h
  obtain ⟨namev, hname, h⟩ := Option.bind_eq_some_iff.mp h
  obtain ⟨rfl, htagp⟩ := packvalue_some htag
  obtain ⟨rfl, -⟩ := packbytes_some hname
  obtain ⟨r, hr, rfl, hrsome, hrp⟩ := packref_some hrequest
  cases hresponse : p.response with
  | none =>
    refine ⟨{ name := name, tag := p.tag, request := r, response := none }, rfl, rfl, hr, rfl, ?_, ?_⟩
    · cases r with
      | none =>
        rw [hresponse, show p.request.isNone = true by simpa using hrsome.symm] at h
        obtain ⟨rfl, -⟩ := packbytes_some h
        simp only [PackProto.bytes, PackProto.values, message, List.length_cons, List.length_nil, List.flatMap_cons, List.flatMap_nil,
          List.append_nil, List.append_assoc]
        rfl
      | some r =>
        rw [hresponse, show p.request.isNone = false by simpa using hrsome.symm] at h
        obtain ⟨rfl, -⟩ := packbytes_some h
        simp only [PackProto.bytes, PackProto.values, message, List.length_cons, List.length_nil, List.flatMap_cons, List.flatMap_nil,
          List.append_nil, List.append_assoc]
        rfl
    · intro id hid
      rcases List.mem_cons.mp hid with rfl | hid
      · exact htagp
      · exact hrp id (by simpa using hid)
  | some s =>
    rw [if_neg (by rw [hresponse]; exact fun hn => nomatch hn.2), if_neg (by rw [hresponse]; exact nofun)] at h
    obtain ⟨responsev, hresponsev, h⟩ := Option.bind_eq_some_iff.mp h
    obtain ⟨t, ht, rfl, htsome, htp⟩ := packref_some hresponsev
    obtain ⟨rfl, -⟩ := packbytes_some h
    obtain ⟨s', rfl⟩ := Option.isSome_iff_exists.mp (htsome.trans (by rw [hresponse]; rfl))
    refine ⟨{ name := name, tag := p.tag, request := r, response := some s' }, rfl, rfl, hr, hresponse ▸ ht, ?_, ?_⟩
    · cases r <;>
      · simp only [PackProto.bytes, PackProto.values, message, List.length_cons, List.length_nil, List.flatMap_cons, List.flatMap_nil,
          List.append_nil, List.append_assoc]
        rfl
    · intro id hid
      rcases List.mem_cons.mp hid with rfl | hid
      · exact htagp
      · rcases List.mem_append.mp hid with hid | hid
        · exact hrp id hid
        · exact htp id hid

theorem sortTypes_perm (t : Table (List TypeField)) : (sortTypes t).Perm t := List.perm_insertionSort ..

theorem sortProtocols_perm (p : Table ProtocolType) : (sortProtocols p).Perm p := List.perm_insertionSort ..

def typesBytes (types : List (Bytes × List PackField)) : Bytes := types.flatMap fun q => filled (typeStruct q.1 q.2)

def protosBytes (protos : List PackProto) : Bytes := protos.flatMap PackProto.bytes

def groupBytes (types : List (Bytes × List PackField)) (protos : List PackProto) : Bytes :=
  if protos.isEmpty then message [0] [typesBytes types] else message [0, 0] [typesBytes types, protosBytes protos]

/-- A type, and what is packed of it. -/
def TypePacked (alltypes : Table TypeEntry) (p : Bytes × List TypeField) (q : Bytes × List PackField) : Prop :=
  q.1 = p.1 ∧ List.Forall₂ (fun f i => fieldInfo alltypes f = some i) p.2 q.2

/-- A protocol, and what is packed of it. -/
def ProtoPacked (alltypes : Table TypeEntry) (p : Bytes × ProtocolType) (i : PackProto) : Prop :=
  i.name = p.1 ∧ i.tag = p.2.tag ∧ refInfo alltypes p.2.request = some i.request ∧ refInfo alltypes p.2.response = some i.response

/-- What is packed of a schema: its types in the order of their names, and its protocols in the order of their
tags. -/
structure Packs (r : Schema) (types : List (Bytes × List PackField)) (protos : List PackProto) : Prop where
  typeInfo : List.Forall₂ (TypePacked (allTypes (sortTypes r.type))) (sortTypes r.type) types
  protoInfo : List.Forall₂ (ProtoPacked (allTypes (sortTypes r.type))) (sortProtocols r.protocol) protos
  fields : ∀ q ∈ types, ∀ i ∈ q.2, i.Packed
  ids : ∀ i ∈ protos, ∀ id ∈ i.ids, Packable id
  size : (typesBytes types).length < 2 ^ 32
  protoSize : (protosBytes protos).length < 2 ^ 32

theorem types_some {alltypes : Table TypeEntry} {ts : Table (List TypeField)} {tt : List Bytes}
    (h : List.Forall₂ (fun p bs => packtype p.1 p.2 alltypes = some bs) ts tt) (hts : ∀ p ∈ ts, TypeOk p.2) :
    ∃ types : List (Bytes × List PackField),
      List.Forall₂ (TypePacked alltypes) ts types ∧
      tt.flatten = typesBytes types ∧ ∀ q ∈ types, ∀ i ∈ q.2, i.Packed := by
  induction h with
  | nil => exact ⟨[], .nil, rfl, nofun⟩
  | @cons p bs ts tt hp _ ih =>
    obtain ⟨types, hinfo, htt, hpacked⟩ := ih fun p hp => hts p (List.mem_cons_of_mem _ hp)
    obtain ⟨fields, hfields, rfl, hfp⟩ := packtype_some hp (hts p (List.mem_cons_self ..)).key
    refine ⟨(p.1, fields) :: types, .cons ⟨rfl, hfields⟩ hinfo, ?_, List.forall_mem_cons.mpr ⟨hfp, hpacked⟩⟩
    rw [List.flatten_cons, htt, typesBytes, typesBytes, List.flatMap_cons]

theorem protos_some {alltypes : Table TypeEntry} {ps : Table ProtocolType} {tp : List Bytes}
    (h : List.Forall₂ (fun p bs => packproto p.1 p.2 alltypes = some bs) ps tp) :
    ∃ protos : List PackProto,
      List.Forall₂ (ProtoPacked alltypes) ps protos ∧
      tp.flatten = protosBytes protos ∧ ∀ i ∈ protos, ∀ id ∈ i.ids, Packable id := by
  induction h with
  | nil => exact ⟨[], .nil, rfl, nofun⟩
  | @cons p bs ps tp hp _ ih =>
    obtain ⟨protos, hinfo, htp, hpacked⟩ := ih
    obtain ⟨i, hname, htag, hreq, hresp, rfl, hids⟩ := packproto_some hp
    refine ⟨i :: protos, .cons ⟨hname, htag, hreq, hresp⟩ hinfo, ?_, List.forall_mem_cons.mpr ⟨hids, hpacked⟩⟩
    rw [List.flatten_cons, htp, protosBytes, protosBytes, List.flatMap_cons]

theorem packgroup_some {r : Schema} {bs : Bytes} (h : packgroup r = some bs) (hr : Parsed r) (hne : r.type ≠ []) :
    ∃ types protos, Packs r types protos ∧ bs = groupBytes types protos := by
  rw [packgroup, if_neg (by simpa using hne)] at h
  obtain ⟨tt, htt, h⟩ := Option.bind_eq_some_iff.mp h
  obtain ⟨ttv, httv, h⟩ := Option.bind_eq_some_iff.mp h
  obtain ⟨rfl, hsize⟩ := packbytes_some httv
  obtain ⟨types, htypes, hflat, hfields⟩ := types_some (forall₂_of_mapM htt) fun p hp =>
    hr.types p ((sortTypes_perm r.type).mem_iff.mp hp)
  rw [hflat] at h hsize
  cases hp : r.protocol with
  | nil =>
    rw [hp] at h
    cases h
    have hnone : List.Forall₂ (ProtoPacked (allTypes (sortTypes r.type))) (sortProtocols r.protocol) [] := by
      rw [hp]; exact .nil
    refine ⟨types, [], ⟨htypes, hnone, hfields, nofun, hsize, by decide⟩, ?_⟩
    rw [groupBytes, List.isEmpty_nil, if_pos rfl]
    simp only [message, List.length_cons, List.length_nil, List.flatMap_cons, List.flatMap_nil, List.append_nil]
    rfl
  | cons p ps =>
    rw [if_neg (by rw [hp]; exact nofun)] at h
    obtain ⟨tp, htp, h⟩ := Option.bind_eq_some_iff.mp h
    obtain ⟨tpv, htpv, h⟩ := Option.bind_eq_some_iff.mp h
    obtain ⟨rfl, hpsize⟩ := packbytes_some htpv
    obtain ⟨protos, hprotos, hpflat, hids⟩ := protos_some (forall₂_of_mapM htp)
    rw [hpflat] at h hpsize
    cases h
    refine ⟨types, protos, ⟨htypes, hprotos, hfields, hids, hsize, hpsize⟩, ?_⟩
    have hne : protos ≠ [] := by
      rintro rfl
      have hlen := hprotos.length_eq
      rw [(sortProtocols_perm r.protocol).length_eq, hp] at hlen
      cases hlen
    rw [groupBytes, if_neg (by simpa using hne)]
    simp only [message, List.length_cons, List.length_nil, List.flatMap_cons, List.flatMap_nil, List.append_nil, List.append_assoc]
    rfl

end Sproto
end Skynet
