import Skynet.Sproto.Items

/-!
# Skynet.Sproto.Wire

The format of encoded tables.

* `Fits` : the tables that conform to a type, with maps.
* `layout` : the records and the data of the fields, in order.
* `TableWire` : the bytes of a table.
* `layout_length` : there are no more records than the header has room for.
-/

namespace Skynet
namespace Sproto

open Lua

/-! ### Maps -/

/-- The key of a struct in a map is the value of its main key. -/
def Keyed (st : SprotoType) (key : Int) (k : Value) (es : Entries) : Prop :=
  k.isNil = false ∧ ∃ g ∈ st.f, (g.tag : Int) = key ∧ g.array = false ∧ (∀ i, g.type ≠ .struct i) ∧ getfield es g.name = k

/-- The maps of a field. -/
inductive MapOk (ts : List SprotoType) (sub : SprotoType → Entries → Prop) (f : Field) : Value → Prop
  | map {i : Nat} {st : SprotoType} {es : Entries} (ha : f.array = true) (ht : f.type = .struct i) (hst : ts[i]? = some st)
      (hd : Distinct es) (hes : ∀ p ∈ es, ∃ e, p.2 = .table e ∧ sub st e ∧ Keyed st f.key p.1 e) : MapOk ts sub f (.table es)

/-- The tables that conform to a type: as `TableOk`, where a field with a main key has a map. -/
def Fits (ts : List SprotoType) : Nat → SprotoType → Entries → Prop
  | 0, st, es => st.f = [] ∧ es = []
  | left + 1, st, es => Distinct es ∧ ∀ p ∈ es, ∃ f ∈ st.f, p.1 = .string f.name ∧
      ((f.key < 0 ∧ FieldOk ts (Fits ts left) f p.2) ∨ (0 ≤ f.key ∧ MapOk ts (Fits ts left) f p.2))

theorem ItemOk.imp {ts : List SprotoType} {sub sub' : SprotoType → Entries → Prop} {t : FieldType} {v : Value}
    (himp : ∀ st ∈ ts, ∀ es, sub st es → sub' st es) (h : ItemOk ts sub t v) : ItemOk ts sub' t v := by
  cases h with
  | integer v => exact .integer v
  | boolean b => exact .boolean b
  | string s => exact .string s
  | struct hst h => exact .struct hst (himp _ (List.mem_of_getElem? hst) _ h)

theorem FieldOk.imp {ts : List SprotoType} {sub sub' : SprotoType → Entries → Prop} {f : Field} {v : Value}
    (himp : ∀ st ∈ ts, ∀ es, sub st es → sub' st es) (h : FieldOk ts sub f v) : FieldOk ts sub' f v := by
  cases h with
  | item ha hv => exact .item ha (hv.imp himp)
  | array ha hes hvs => exact .array ha hes fun v hv => (hvs v hv).imp himp

/-- Without maps it is the same. -/
theorem TableOk.fits {ts : List SprotoType} {n left : Nat} (hwf : ∀ st ∈ ts, WellFormed n st) {st : SprotoType} (hst : st ∈ ts)
    {es : Entries} (h : TableOk ts left st es) : Fits ts left st es := by
  induction left generalizing st es with
  | zero => exact h
  | succ left ih =>
    have himp : ∀ st ∈ ts, ∀ es, TableOk ts left st es → Fits ts left st es := fun st hst es h => ih hst h
    refine ⟨h.1, fun p hp => ?_⟩
    obtain ⟨f, hf, hkey, hok⟩ := h.2 p hp
    refine ⟨f, hf, hkey, .inl ⟨?_, ?_⟩⟩
    · rw [(hwf st hst).key f hf]
      decide
    · exact hok.imp himp

theorem ItemOk.isNil {ts : List SprotoType} {sub : SprotoType → Entries → Prop} {t : FieldType} {v : Value}
    (h : ItemOk ts sub t v) : v.isNil = false := by
  cases h <;> rfl

/-! ### Values -/

/-- The bytes of an array of integers. -/
def integersBody (vs : List (BitVec 64)) : Bytes :=
  if vs = [] then [] else UInt8.ofNat (width vs) :: words (width vs) vs

theorem width_cases (vs : List (BitVec 64)) : width vs = 4 ∨ width vs = 8 := by
  unfold width; split <;> simp

def booleanByte (b : Bool) : UInt8 := if b then 1 else 0

/-- The bytes of a string or a struct, where `tab` tells the bytes of a table. -/
inductive ItemWire (ts : List SprotoType) (tab : SprotoType → Entries → Bytes → Prop) : FieldType → Value → Bytes → Prop
  | string (s : Bytes) : ItemWire ts tab .string (.string s) s
  | struct {i : Nat} {st : SprotoType} {es : Entries} {bs : Bytes} (hst : ts[i]? = some st) (h : tab st es bs) :
      ItemWire ts tab (.struct i) (.table es) bs

theorem ItemWire.type_ne {ts : List SprotoType} {tab : SprotoType → Entries → Bytes → Prop} {t : FieldType} {v : Value} {bs : Bytes}
    (h : ItemWire ts tab t v bs) : t ≠ .integer ∧ t ≠ .boolean := by
  cases h <;> exact ⟨nofun, nofun⟩

/-- The value in a record or the data of a field. -/
inductive FieldWire (ts : List SprotoType) (tab : SprotoType → Entries → Bytes → Prop) (f : Field) : Value → FieldResult → Prop
  | inline {v : BitVec 64} (ha : f.array = false) (ht : f.type = .integer) (hv : v.toNat < 0x7fff) :
      FieldWire ts tab f (.integer v) (.inline ((v.toNat + 1) * 2))
  | integer {v : BitVec 64} (ha : f.array = false) (ht : f.type = .integer) :
      FieldWire ts tab f (.integer v) (.data (filled (integerBytes v)))
  | boolean {b : Bool} (ha : f.array = false) (ht : f.type = .boolean) :
      FieldWire ts tab f (.boolean b) (.inline (((if b then 1 else 0) + 1) * 2))
  | object {v : Value} {bs : Bytes} (ha : f.array = false) (h : ItemWire ts tab f.type v bs) :
      FieldWire ts tab f v (.data (filled bs))
  | integers {es : Entries} {xs : List (BitVec 64)} (ha : f.array = true) (ht : f.type = .integer)
      (hes : es.Perm (arrayEntries 1 (xs.map .integer))) : FieldWire ts tab f (.table es) (.data (filled (integersBody xs)))
  | booleans {es : Entries} {bs : List Bool} (ha : f.array = true) (ht : f.type = .boolean)
      (hes : es.Perm (arrayEntries 1 (bs.map .boolean))) : FieldWire ts tab f (.table es) (.data (filled (bs.map booleanByte)))
  | objects {es : Entries} {vs : List Value} {bss : List Bytes} (ha : f.array = true) (hkey : f.key < 0)
      (hint : f.type ≠ .integer) (hbool : f.type ≠ .boolean) (hes : es.Perm (arrayEntries 1 vs)) (h : List.Forall₂ (ItemWire ts tab f.type) vs bss) :
      FieldWire ts tab f (.table es) (.data (filled (bss.map filled).flatten))
  | map {i : Nat} {st : SprotoType} {es : Entries} {bss : List Bytes} (ha : f.array = true) (hkey : 0 ≤ f.key)
      (ht : f.type = .struct i) (hst : ts[i]? = some st) (hd : Distinct es)
      (hkeys : ∀ p ∈ es, ∃ e, p.2 = .table e ∧ Keyed st f.key p.1 e)
      (h : List.Forall₂ (ItemWire ts tab f.type) (es.map Prod.snd) bss) :
      FieldWire ts tab f (.table es) (.data (filled (bss.map filled).flatten))

/-- The bytes of data that a field takes. -/
def FieldResult.size : FieldResult → Nat
  | .data bs => bs.length
  | _ => 0

theorem FieldWire.shape {ts : List SprotoType} {tab : SprotoType → Entries → Bytes → Prop} {f : Field} {v : Value} {r : FieldResult}
    (h : FieldWire ts tab f v r) : (∃ n, n < 0x7fff ∧ r = .inline ((n + 1) * 2)) ∨ ∃ body, r = .data (filled body) := by
  cases h with
  | inline ha ht hv => exact .inl ⟨_, hv, rfl⟩
  | @boolean b ha ht => exact .inl ⟨if b then 1 else 0, by cases b <;> decide, rfl⟩
  | integer => exact .inr ⟨_, rfl⟩
  | object => exact .inr ⟨_, rfl⟩
  | integers => exact .inr ⟨_, rfl⟩
  | booleans => exact .inr ⟨_, rfl⟩
  | objects => exact .inr ⟨_, rfl⟩
  | map => exact .inr ⟨_, rfl⟩

/-- A field of the table `es`: it is absent, or it has a value. -/
def Codes (ts : List SprotoType) (tab : SprotoType → Entries → Bytes → Prop) (es : Entries) (c : Field × FieldResult) : Prop :=
  (getfield es c.1.name = .nil ∧ c.2 = .absent) ∨
  ((getfield es c.1.name).isNil = false ∧ FieldWire ts tab c.1 (getfield es c.1.name) c.2)

/-! ### Tables -/

/-- The record for the tags that are skipped. -/
def skips (last : Int) (f : Field) : List Nat :=
  if 0 < f.tag - last - 1 then [((f.tag - last - 1 - 1) * 2 + 1).toNat] else []

/-- The records and the data of fields behind the tag `last`. -/
def layout : Int → List (Field × FieldResult) → List Nat × Bytes
  | _, [] => ([], [])
  | last, (f, .inline value) :: code => (skips last f ++ value :: (layout f.tag code).1, (layout f.tag code).2)
  | last, (f, .data bs) :: code => (skips last f ++ 0 :: (layout f.tag code).1, bs ++ (layout f.tag code).2)
  | last, _ :: code => layout last code

/-- The header with the records, and the data. -/
def tableBytes (code : List (Field × FieldResult)) : Bytes :=
  Endian.le SIZEOF_HEADER (layout (-1) code).1.length ++ (layout (-1) code).1.flatMap (Endian.le SIZEOF_FIELD) ++ (layout (-1) code).2

/-- The bytes of a table, with at most `left` levels. -/
def TableWire (ts : List SprotoType) : Nat → SprotoType → Entries → Bytes → Prop
  | 0, st, es, bs => st.f = [] ∧ es = [] ∧ bs = tableBytes []
  | left + 1, st, es, bs => ∃ code : List (Field × FieldResult), code.map Prod.fst = st.f ∧
      (∀ c ∈ code, Codes ts (TableWire ts left) es c) ∧ bs = tableBytes code

/-- The records fit the header: a record for skipped tags is paid for by a gap of the type or by a field
that is absent. -/
theorem layout_length {code : List (Field × FieldResult)} {last prev : Int} (hle : last ≤ prev)
    (hasc : Ascending prev (code.map Prod.fst)) :
    (layout last code).1.length ≤ code.length + gaps prev (code.map Prod.fst) + (if last < prev then 1 else 0) := by
  induction code generalizing last prev with
  | nil => simp only [layout, List.length_nil]; omega
  | cons c code ih =>
    obtain ⟨f, r⟩ := c
    obtain ⟨hlt, hasc'⟩ := hasc
    simp only [List.map_cons, gaps, List.length_cons]
    have hskip : (skips last f).length ≤ (if prev + 1 < f.tag then 1 else 0) + (if last < prev then 1 else 0) := by
      unfold skips
      split
      · simp only [List.length_singleton]
        split <;> split <;> omega
      · exact Nat.zero_le _
    have hpresent := ih (Int.le_refl f.tag) hasc'
    rw [if_neg (by omega)] at hpresent
    have habsent := ih (show last ≤ f.tag by simp only at hlt; omega) hasc'
    rw [if_pos (by simp only at hlt; omega)] at habsent
    cases r with
    | inline value =>
      simp only [layout, List.length_append, List.length_cons]
      omega
    | data bs =>
      simp only [layout, List.length_append, List.length_cons]
      omega
    | fail => simp only [layout]; omega
    | zero => simp only [layout]; omega
    | absent => simp only [layout]; omega

/-- The records of all the fields of a type fit its header. -/
theorem records_fit {st : SprotoType} (himp : importType st.f = some st) {code : List (Field × FieldResult)}
    (hfst : code.map Prod.fst = st.f) : (layout (-1) code).1.length ≤ st.maxn := by
  obtain ⟨hasc, hmax, -⟩ := maxn_base himp
  have hlen := layout_length (Int.le_refl (-1)) (hfst ▸ hasc)
  have hsame : code.length = st.f.length := by rw [← hfst, List.length_map]
  rw [hfst, if_neg (by omega)] at hlen
  omega

theorem records_length (rs : List Nat) : (rs.flatMap (Endian.le SIZEOF_FIELD)).length = 2 * rs.length := by
  have hF : SIZEOF_FIELD = 2 := rfl
  induction rs with
  | nil => rfl
  | cons r rs ih => rw [List.flatMap_cons, List.length_append, ih, Endian.le_length, List.length_cons]; omega

theorem tableBytes_length (code : List (Field × FieldResult)) :
    (tableBytes code).length = 2 + 2 * (layout (-1) code).1.length + (layout (-1) code).2.length := by
  have hH : SIZEOF_HEADER = 2 := rfl
  rw [tableBytes, List.length_append, List.length_append, Endian.le_length, records_length, hH]

end Sproto
end Skynet
