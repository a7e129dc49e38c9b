import Skynet.Sproto.Wire

/-!
# Skynet.Sproto.Version

Two versions of a schema: which types go together, and what a table of one is in the other.

* `Versions ts ts' R` : the structs that `R` relates have fields of the same type under their common tags.
* `common st st' es` : the fields of a table that the other type has too.
* `ItemSeen` : a value of a type as the other type sees it.
-/

namespace Skynet
namespace Sproto

open Lua

/-! ### Compatible types -/

/-- The same type of two schemas, where `R` tells the structs that go together. -/
inductive SameType (R : Nat → Nat → Prop) : FieldType → FieldType → Prop
  | integer : SameType R .integer .integer
  | boolean : SameType R .boolean .boolean
  | string : SameType R .string .string
  | struct {i j : Nat} (h : R i j) : SameType R (.struct i) (.struct j)

section SameType

variable {R : Nat → Nat → Prop} {t t' : FieldType}

theorem SameType.integer_iff (h : SameType R t t') : t' = .integer ↔ t = .integer := by
  cases h <;> simp

theorem SameType.boolean_iff (h : SameType R t t') : t' = .boolean ↔ t = .boolean := by
  cases h <;> simp

end SameType

/-- The names of two fields may differ. -/
structure SameField (R : Nat → Nat → Prop) (f f' : Field) : Prop where
  array : f'.array = f.array
  key : f'.key = f.key
  type : SameType R f.type f'.type

def Versions (ts ts' : List SprotoType) (R : Nat → Nat → Prop) : Prop :=
  ∀ i j st st', R i j → ts[i]? = some st → ts'[j]? = some st' → ∀ f ∈ st.f, ∀ f' ∈ st'.f, f.tag = f'.tag → SameField R f f'

/-- The main key of each map is a field of its structs. -/
def MainKeys (ts : List SprotoType) : Prop :=
  ∀ st ∈ ts, ∀ f ∈ st.f, 0 ≤ f.key → ∀ i sub, f.type = .struct i → ts[i]? = some sub → ∃ g ∈ sub.f, (g.tag : Int) = f.key

/-! ### Values -/

/-- The fields that are present in a table of `st` and have a tag of `st'`, with the fields of that tag, in the order of the tags. -/
def common (st st' : SprotoType) (es : Entries) : List (Field × Field) :=
  st.f.filterMap fun f =>
    if (getfield es f.name).isNil then none else (st'.f.find? fun g => g.tag = f.tag).map fun g => (f, g)

mutual

/-- A value as the other type sees it: of a table it has the common fields and no others. -/
inductive ItemSeen (ts ts' : List SprotoType) : FieldType → FieldType → Value → Value → Prop
  | integer (v : BitVec 64) : ItemSeen ts ts' .integer .integer (.integer v) (.integer v)
  | boolean (b : Bool) : ItemSeen ts ts' .boolean .boolean (.boolean b) (.boolean b)
  | string (s : Bytes) : ItemSeen ts ts' .string .string (.string s) (.string s)
  | struct {i j : Nat} {st st' : SprotoType} {es : Entries} {out : List ((Field × Field) × Value)} (hst : ts[i]? = some st)
      (hst' : ts'[j]? = some st') (hcommon : out.map Prod.fst = common st st' es)
      (h : ∀ x ∈ out, FieldSeen ts ts' x.1.1 x.1.2 (getfield es x.1.1.name) x.2) :
      ItemSeen ts ts' (.struct i) (.struct j) (.table es) (.table (out.map fun x => (.string x.1.2.name, x.2)))

/-- The value of a field; an array and a map keep their keys. -/
inductive FieldSeen (ts ts' : List SprotoType) : Field → Field → Value → Value → Prop
  | item {f f' : Field} {v v' : Value} (ha : f.array = false) (h : ItemSeen ts ts' f.type f'.type v v') :
      FieldSeen ts ts' f f' v v'
  | array {f f' : Field} {es : Entries} {items : List (Value × Value × Value)} (ha : f.array = true)
      (hes : es.Perm (items.map fun x => (x.1, x.2.1))) (h : ∀ x ∈ items, ItemSeen ts ts' f.type f'.type x.2.1 x.2.2) :
      FieldSeen ts ts' f f' (.table es) (.table (items.map fun x => (x.1, x.2.2)))

end

theorem ItemSeen.isNil {ts ts' : List SprotoType} {t t' : FieldType} {v v' : Value} (h : ItemSeen ts ts' t t' v v') :
    v'.isNil = false := by
  cases h <;> rfl

/-- An array of values that look alike in both versions. -/
theorem FieldSeen.of_values {ts ts' : List SprotoType} {f f' : Field} {es : Entries} {vs : List Value} (ha : f.array = true)
    (hes : es.Perm (arrayEntries 1 vs)) (h : ∀ v ∈ vs, ItemSeen ts ts' f.type f'.type v v) :
    FieldSeen ts ts' f f' (.table es) (.table (arrayEntries 1 vs)) := by
  have hsame : (arrayEntries 1 vs).map (fun p => (p.1, p.2)) = arrayEntries 1 vs := List.map_id _
  have hitems : FieldSeen ts ts' f f' (.table es)
      (.table (((arrayEntries 1 vs).map fun p => (p.1, p.2, p.2)).map fun x => (x.1, x.2.2))) := by
    refine .array ha ?_ ?_
    · rw [List.map_map]
      exact hes.trans (List.Perm.of_eq hsame.symm)
    · intro x hx
      obtain ⟨p, hp, rfl⟩ := List.mem_map.mp hx
      obtain ⟨n, v, hv, -, rfl⟩ := mem_arrayEntries.mp hp
      exact h v (List.mem_of_getElem? hv)
  rw [List.map_map] at hitems
  rw [← hsame]
  exact hitems

theorem findtag_eq {st : SprotoType} (himp : importType st.f = some st) (tag : Nat) :
    findtag st tag = st.f.find? fun g => g.tag = tag := by
  cases hfind : st.f.find? fun g => g.tag = tag with
  | some g =>
    have htag : g.tag = tag := by simpa using List.find?_some hfind
    rw [← htag, findtag_mem himp (List.mem_of_find?_eq_some hfind)]
  | none =>
    rw [List.find?_eq_none] at hfind
    refine findtag_none himp fun f hf htag => ?_
    have hno := hfind f hf
    simp only [decide_eq_true_eq] at hno
    exact hno (Int.ofNat.inj htag)

end Sproto
end Skynet
