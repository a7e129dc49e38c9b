import Mathlib.Data.List.Pairwise
import Skynet.Lib.Bisect
import Skynet.Lua.Value

/-!
# Skynet.Sproto.Type

The types of a sproto schema as `import_type` builds them, and the search for a field by its tag.

* `findtag_mem` : each field of a type is found under its tag, by index where the tags have no gaps
  and by binary search elsewhere.
* `findtag_none` : nothing is found under another tag.
* `Valid.records_bound` : `maxn` is less than `2 ^ 15`.
-/

namespace Skynet
namespace Sproto

/-- The type of a field without the array flag; a struct has the index of its type. -/
inductive FieldType where
  | integer
  | boolean
  | string
  | struct (st : Nat)
deriving Repr, DecidableEq

structure Field where
  tag : Nat
  type : FieldType
  array : Bool
  name : List UInt8
  key : Int
deriving Repr, DecidableEq

/-- `n` is the length of `f`. -/
structure SprotoType where
  base : Int
  maxn : Nat
  f : List Field
deriving Repr, DecidableEq

/-! ### Import -/

/-- The loop of `import_type` over its fields: `maxn`, if the tags ascend. -/
def importFields : Nat → Int → List Field → Option Nat
  | maxn, _, [] => some maxn
  | maxn, last, f :: fs =>
    if f.tag ≤ last then none
    else importFields (if last + 1 < f.tag then maxn + 1 else maxn) f.tag fs

/-- `base`: the first tag if the tags have no gaps. -/
def importBase (f : List Field) : Int :=
  match f.head?, f.getLast? with
  | some a, some b => if (b.tag : Int) - a.tag + 1 = f.length then a.tag else -1
  | _, _ => 0

/-- The end of `import_type`, from the fields read. -/
def importType (f : List Field) : Option SprotoType :=
  (importFields f.length (-1) f).map fun maxn => { base := importBase f, maxn := maxn, f := f }

/-- The number of fields with a gap before their tag. -/
def gaps : Int → List Field → Nat
  | _, [] => 0
  | last, f :: fs => (if last + 1 < f.tag then 1 else 0) + gaps f.tag fs

/-- The tags ascend from `last` on. -/
def Ascending : Int → List Field → Prop
  | _, [] => True
  | last, f :: fs => last < f.tag ∧ Ascending f.tag fs

theorem importFields_some {f : List Field} {maxn m : Nat} {last : Int} (h : importFields maxn last f = some m) :
    Ascending last f ∧ m = maxn + gaps last f := by
  induction f generalizing maxn last with
  | nil => cases h; exact ⟨trivial, rfl⟩
  | cons f fs ih =>
    simp only [importFields] at h
    split at h
    · cases h
    · rename_i hlt
      obtain ⟨hasc, hm⟩ := ih h
      refine ⟨⟨by omega, hasc⟩, ?_⟩
      rw [hm, gaps]
      split <;> omega

/-- What `import_type` and `import_field` guarantee of a type among `n`, for a type whose names differ
and that has no maps. -/
structure WellFormed (n : Nat) (st : SprotoType) : Prop where
  imported : importType st.f = some st
  tags : ∀ f ∈ st.f, f.tag < 0x7fff
  names : st.f.Pairwise fun f g => f.name ≠ g.name
  subtype : ∀ f ∈ st.f, ∀ i, f.type = .struct i → i < n
  key : ∀ f ∈ st.f, f.key = -1

/-- The same for a type that may have maps: arrays of structs with a main key. -/
structure Valid (n : Nat) (st : SprotoType) : Prop where
  imported : importType st.f = some st
  tags : ∀ f ∈ st.f, f.tag < 0x7fff
  names : st.f.Pairwise fun f g => f.name ≠ g.name
  subtype : ∀ f ∈ st.f, ∀ i, f.type = .struct i → i < n
  map : ∀ f ∈ st.f, 0 ≤ f.key → f.array = true ∧ ∃ i, f.type = .struct i

theorem WellFormed.valid {n : Nat} {st : SprotoType} (h : WellFormed n st) : Valid n st where
  imported := h.imported
  tags := h.tags
  names := h.names
  subtype := h.subtype
  map := by
    intro f hf hkey
    rw [h.key f hf] at hkey
    omega

theorem maxn_base {st : SprotoType} (himp : importType st.f = some st) :
    Ascending (-1) st.f ∧ st.maxn = st.f.length + gaps (-1) st.f ∧ st.base = importBase st.f := by
  rw [importType, Option.map_eq_some_iff] at himp
  obtain ⟨m, hm, hst⟩ := himp
  obtain ⟨hasc, hmax⟩ := importFields_some hm
  refine ⟨hasc, ?_, ?_⟩
  · rw [← hmax, ← hst]
  · rw [← hst]

/-- Fields and gaps take their tags: together there are no more than tags up to the limit. -/
theorem gaps_le {fs : List Field} {last : Int} {limit : Int} (hasc : Ascending last fs) (hl : last < limit)
    (htags : ∀ f ∈ fs, (f.tag : Int) < limit) : last + fs.length + gaps last fs < limit := by
  induction fs generalizing last with
  | nil => simp only [List.length_nil, gaps]; omega
  | cons f fs ih =>
    have := ih hasc.2 (htags f (List.mem_cons_self ..)) fun g hg => htags g (List.mem_cons_of_mem _ hg)
    have hlt := hasc.1
    simp only [List.length_cons, gaps]
    split <;> push_cast at * <;> omega

theorem Valid.records_bound {n : Nat} {st : SprotoType} (h : Valid n st) : st.maxn < 2 ^ 15 := by
  obtain ⟨hasc, hmax, -⟩ := maxn_base h.imported
  have := gaps_le hasc (show (-1 : Int) < 0x7fff by decide) fun f hf => by have := h.tags f hf; omega
  omega

/-! ### The search for a tag -/

/-- The loop of `findtag` between two indices. -/
def findtagLoop (f : List Field) (tag : Int) : Nat → Nat → Nat → Option Field
  | 0, _, _ => none
  | fuel + 1, lo, hi =>
    if lo < hi then
      let mid := (lo + hi) / 2
      match f[mid]? with
      | none => none
      | some x =>
        if x.tag = tag then some x
        else if x.tag < tag then findtagLoop f tag fuel (mid + 1) hi
        else findtagLoop f tag fuel lo mid
    else none

/-- `findtag`. -/
def findtag (st : SprotoType) (tag : Int) : Option Field :=
  if 0 ≤ st.base then
    let i := tag - st.base
    if i < 0 ∨ st.f.length ≤ i then none else st.f[i.toNat]?
  else findtagLoop st.f tag (st.f.length + 1) 0 st.f.length

theorem Ascending.lt {fs : List Field} {last : Int} (h : Ascending last fs) {i : Nat} {f : Field}
    (hi : fs[i]? = some f) : last + i < f.tag := by
  induction fs generalizing last i with
  | nil => cases hi
  | cons g fs ih =>
    cases i with
    | zero => cases hi; have := h.1; omega
    | succ i => have := ih h.2 hi; have := h.1; push_cast; omega

theorem Ascending.lt_of_lt {fs : List Field} {last : Int} (h : Ascending last fs) {i j : Nat} {f g : Field}
    (hi : fs[i]? = some f) (hj : fs[j]? = some g) (hij : i < j) : f.tag + (j - i) ≤ g.tag := by
  induction fs generalizing last i j with
  | nil => cases hi
  | cons x fs ih =>
    obtain ⟨j, rfl⟩ : ∃ j', j = j' + 1 := ⟨j - 1, by omega⟩
    cases i with
    | zero =>
      cases hi
      have := h.2.lt hj
      omega
    | succ i =>
      have := ih h.2 hi hj (by omega)
      omega

theorem Ascending.pairwise {fs : List Field} {last : Int} (h : Ascending last fs) : fs.Pairwise fun f g => f.tag < g.tag := by
  induction fs generalizing last with
  | nil => exact .nil
  | cons f fs ih =>
    refine List.pairwise_cons.mpr ⟨fun g hg => ?_, ih h.2⟩
    obtain ⟨k, hk⟩ := List.mem_iff_getElem?.mp hg
    have hlt : (f.tag : Int) + k < g.tag := h.2.lt hk
    omega

/-- The loop is a binary search for the tag. -/
theorem findtagLoop_eq (f : List Field) (tag : Int) (fuel lo hi : Nat) :
    findtagLoop f tag fuel lo hi = Bisect.find (fun x => (x.tag : Int)) f tag fuel lo hi := by
  induction fuel generalizing lo hi with
  | zero => rfl
  | succ fuel ih =>
    simp only [findtagLoop, Bisect.find, ih]
    cases f[(lo + hi) / 2]? <;> rfl

/-- Without gaps the index of a field is its tag less the first one. -/
theorem importBase_index {f : List Field} {last : Int} (hasc : Ascending last f) (hb : 0 ≤ importBase f) {i : Nat}
    {x : Field} (hx : f[i]? = some x) : (x.tag : Int) = importBase f + i := by
  have hlen : i < f.length := (List.getElem?_eq_some_iff.mp hx).1
  obtain ⟨a, ha⟩ : ∃ a, f[0]? = some a := ⟨_, List.getElem?_eq_getElem (by omega)⟩
  obtain ⟨b, hlast⟩ : ∃ b, f[f.length - 1]? = some b := ⟨_, List.getElem?_eq_getElem (by omega)⟩
  have hbase : importBase f = if (b.tag : Int) - a.tag + 1 = f.length then (a.tag : Int) else -1 := by
    rw [importBase, List.head?_eq_getElem?, List.getLast?_eq_getElem?, ha, hlast]
  rw [hbase] at hb ⊢
  split at hb
  · rename_i hnogap
    rw [if_pos hnogap]
    -- the tags ascend from the first to this one and from this one to the last
    have h1 : (a.tag : Int) + i ≤ x.tag := by
      rcases Nat.eq_zero_or_pos i with rfl | hpos
      · rw [ha] at hx; cases hx; omega
      · have := hasc.lt_of_lt ha hx hpos; omega
    have h2 : (x.tag : Int) + (f.length - 1 - i : Nat) ≤ b.tag := by
      rcases Nat.eq_or_lt_of_le (show i ≤ f.length - 1 by omega) with rfl | hlt
      · rw [hlast] at hx; cases hx; omega
      · have := hasc.lt_of_lt hx hlast hlt; omega
    omega
  · omega

theorem findtag_mem {st : SprotoType} (himp : importType st.f = some st) {f : Field} (hf : f ∈ st.f) :
    findtag st f.tag = some f := by
  obtain ⟨hasc, -, hbase⟩ := maxn_base himp
  obtain ⟨i, hi⟩ := List.mem_iff_getElem?.mp hf
  have hlen : i < st.f.length := (List.getElem?_eq_some_iff.mp hi).1
  unfold findtag
  split
  · rename_i hb
    have htag := importBase_index hasc (hbase ▸ hb) hi
    rw [← hbase] at htag
    simp only
    rw [if_neg (by omega), show ((f.tag : Int) - st.base).toNat = i by omega, hi]
  · rw [findtagLoop_eq]
    have htags : st.f.Pairwise fun f g => (f.tag : Int) < g.tag := hasc.pairwise.imp fun hlt => by omega
    exact Bisect.find_mem htags hi (Nat.zero_le i) hlen (Nat.le_refl _) (by omega)

theorem findtag_some {st : SprotoType} (himp : importType st.f = some st) {tag : Int} {f : Field}
    (h : findtag st tag = some f) : f ∈ st.f ∧ f.tag = tag := by
  obtain ⟨hasc, -, hbase⟩ := maxn_base himp
  simp only [findtag] at h
  split at h
  · rename_i hb
    split at h
    · cases h
    · have htag := importBase_index hasc (hbase ▸ hb) h
      rw [← hbase] at htag
      exact ⟨List.mem_of_getElem? h, by omega⟩
  · rw [findtagLoop_eq] at h
    exact Bisect.find_some h

theorem findtag_none {st : SprotoType} (himp : importType st.f = some st) {tag : Int} (h : ∀ f ∈ st.f, (f.tag : Int) ≠ tag) :
    findtag st tag = none := by
  cases hf : findtag st tag with
  | none => rfl
  | some f =>
    obtain ⟨hmem, htag⟩ := findtag_some himp hf
    exact absurd htag (h f hmem)

end Sproto
end Skynet
