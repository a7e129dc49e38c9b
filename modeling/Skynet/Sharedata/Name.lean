import Skynet.Lib.Chain
import Skynet.Lib.Outcome
import Skynet.Sharedata.Lookup

/-!
# Skynet.Sharedata.Name

What the keys and values of a structure stand for, as long as its string map only grows.

* `Name` : a key of a structure. `nameOf` is the one that `ishashkey` makes of a key of a Lua table
  (`ishashkey_cases`), `named` the one of a type and a key in a slot.
* `Agrees` : a value of the structure is made of a value of the Lua table.
* `lookupLoop_chain` : the loop of `lookup_key` finds the first slot of the chain that has the key.
-/

namespace Skynet
namespace Sharedata

open Lua

/-! ### The string map -/

namespace StringMap

/-- All strings of one map have their index in the other. -/
def Sub (m m' : StringMap) : Prop := ∀ p ∈ m.entries, p ∈ m'.entries

theorem Sub.refl (m : StringMap) : m.Sub m := fun _ hp => hp

theorem Sub.trans {m m' m'' : StringMap} (h : m.Sub m') (h' : m'.Sub m'') : m.Sub m'' := fun p hp => h' p (h p hp)

theorem stringindex_spec (m : StringMap) (s : Bytes) :
    m.Sub (m.stringindex s).2 ∧ (s, (m.stringindex s).1) ∈ (m.stringindex s).2.entries := by
  unfold stringindex
  split
  · rename_i p hp
    have hs : p.1 = s := by simpa using List.find?_some hp
    refine ⟨.refl m, ?_⟩
    rw [← hs]
    exact List.mem_of_find?_eq_some hp
  · exact ⟨fun p hp => List.mem_append_left _ hp, List.mem_append_right _ (List.mem_singleton_self _)⟩

end StringMap

theorem convert_stringmap_eq_some {m : StringMap} {idx : Int} {s : Bytes} :
    convert_stringmap m idx = some s ↔ (s, idx) ∈ m.entries := by
  rw [convert_stringmap, Option.map_eq_some_iff]
  constructor
  · rintro ⟨p, hp, rfl⟩
    have hidx : p.2 = idx := by simpa using List.find?_some hp
    rw [← hidx]
    exact List.mem_of_find?_eq_some hp
  · intro h
    cases hfind : m.entries.find? fun p => p.2 = idx with
    | none =>
      have hne := List.find?_eq_none.mp hfind _ h
      exact absurd (decide_eq_true rfl) hne
    | some p =>
      have hidx : p.2 = idx := by simpa using List.find?_some hfind
      have hp := m.inj_index p (List.mem_of_find?_eq_some hfind) _ h hidx
      exact ⟨p, rfl, by rw [hp]⟩

/-- The stack has the strings of a map. -/
def Reads (L : Int → Option Bytes) (m : StringMap) : Prop := ∀ p ∈ m.entries, L p.2 = some p.1

theorem reads_convert (m : StringMap) : Reads (convert_stringmap m) m := fun _ hp => convert_stringmap_eq_some.mpr hp

theorem Reads.sub {L : Int → Option Bytes} {m m' : StringMap} (h : Reads L m') (hsub : m.Sub m') : Reads L m :=
  fun p hp => h p (hsub p hp)

/-! ### Keys -/

inductive Name where
  | integer (key : Int)
  | string (s : Bytes)
deriving DecidableEq

def nameOf (k : Value) : Name :=
  match tointeger k with
  | some d => .integer (toInt d)
  | none => .string (tolstring k)

@[simp] theorem nameOf_integer (d : BitVec 64) : nameOf (.integer d) = .integer (toInt d) := rfl

@[simp] theorem nameOf_string (s : Bytes) : nameOf (.string s) = .string s := rfl

def hashOf : Name → UInt32
  | .integer key => UInt32.ofInt key
  | .string s => calchash s

def inArray (sizearray : Nat) : Name → Bool
  | .integer key => decide (0 < key ∧ key ≤ sizearray)
  | .string _ => false

theorem inArray_iff {sizearray : Nat} {a : Name} :
    inArray sizearray a = true ↔ ∃ i, a = .integer (i + 1 : Nat) ∧ i < sizearray := by
  cases a with
  | integer key =>
    simp only [inArray, decide_eq_true_eq, Name.integer.injEq]
    constructor
    · rintro ⟨hpos, hle⟩
      exact ⟨(key - 1).toNat, by omega, by omega⟩
    · rintro ⟨i, rfl, hi⟩
      omega
  | string s => simp [inArray]

/-- The name of a slot's type and key. -/
def named (m : StringMap) : KeyType → Int → Option Name
  | .integer, key => some (.integer key)
  | .string, key => (convert_stringmap m key).map .string

theorem named_mono {m m' : StringMap} (h : m.Sub m') {kt : KeyType} {key : Int} {a : Name}
    (ha : named m kt key = some a) : named m' kt key = some a := by
  cases kt with
  | integer => exact ha
  | string =>
    obtain ⟨s, hs, rfl⟩ := Option.map_eq_some_iff.mp ha
    exact Option.map_eq_some_iff.mpr ⟨s, convert_stringmap_eq_some.mpr (h _ (convert_stringmap_eq_some.mp hs)), rfl⟩

theorem named_inj {m : StringMap} {kt kt' : KeyType} {key key' : Int} {a : Name} (h : named m kt key = some a)
    (h' : named m kt' key' = some a) : kt = kt' ∧ key = key' := by
  cases kt <;> cases kt'
  · cases h
    cases h'
    exact ⟨rfl, rfl⟩
  · cases h
    obtain ⟨s, -, hs⟩ := Option.map_eq_some_iff.mp h'
    cases hs
  · cases h'
    obtain ⟨s, -, hs⟩ := Option.map_eq_some_iff.mp h
    cases hs
  · obtain ⟨s, hs, rfl⟩ := Option.map_eq_some_iff.mp h
    obtain ⟨s', hs', he⟩ := Option.map_eq_some_iff.mp h'
    cases he
    have := m.inj_string _ (convert_stringmap_eq_some.mp hs) _ (convert_stringmap_eq_some.mp hs') rfl
    exact ⟨rfl, congrArg Prod.snd this⟩

theorem ishashkey_cases (sizearray : Nat) (k : Value) (m : StringMap) :
    m.Sub (ishashkey sizearray k m).2 ∧
    ((∃ i, (ishashkey sizearray k m).1 = .array (i + 1 : Nat) ∧ nameOf k = .integer (i + 1 : Nat) ∧ i < sizearray) ∨
      ∃ key kt, (ishashkey sizearray k m).1 = .hash key (hashOf (nameOf k)) kt ∧ inArray sizearray (nameOf k) = false ∧
        named (ishashkey sizearray k m).2 kt key = some (nameOf k)) := by
  unfold ishashkey nameOf
  cases tointeger k with
  | some d =>
    simp only
    split
    · rename_i hin
      have harray : inArray sizearray (.integer (toInt d)) = true := decide_eq_true hin
      obtain ⟨i, hi, hlt⟩ := inArray_iff.mp harray
      rw [Name.integer.injEq] at hi
      rw [hi]
      exact ⟨.refl m, .inl ⟨i, rfl, rfl, hlt⟩⟩
    · rename_i hin
      exact ⟨.refl m, .inr ⟨_, .integer, rfl, decide_eq_false hin, rfl⟩⟩
  | none =>
    obtain ⟨hsub, hmem⟩ := m.stringindex_spec (tolstring k)
    refine ⟨hsub, .inr ⟨_, .string, rfl, rfl, ?_⟩⟩
    exact Option.map_eq_some_iff.mpr ⟨_, convert_stringmap_eq_some.mpr hmem, rfl⟩

/-! ### Values -/

/-- A table that `conv` made, when the strings at the end of it are in the map. -/
def Made (conv : Conv) (m : StringMap) (tbl : Table) (es : Entries) : Prop :=
  ∃ ctx ctx', conv es ctx = .ok (tbl, ctx') ∧ ctx'.stringmap.Sub m

inductive Agrees (conv : Conv) (m : StringMap) : Val Table → Value → Prop
  | nil : Agrees conv m .nil .nil
  | real (bits : BitVec 64) : Agrees conv m (.real bits) (.number bits)
  | integer (d : BitVec 64) : Agrees conv m (.integer d) (.integer d)
  | string {index : Int} {s : Bytes} (h : (s, index) ∈ m.entries) : Agrees conv m (.string index) (.string s)
  | boolean (b : Bool) : Agrees conv m (.boolean b) (.boolean b)
  | table {tbl : Table} {es : Entries} (h : Made conv m tbl es) : Agrees conv m (.table tbl) (.table es)

theorem Agrees.mono {conv : Conv} {m m' : StringMap} (hsub : m.Sub m') {w : Val Table} {v : Value}
    (h : Agrees conv m w v) : Agrees conv m' w v := by
  cases h with
  | nil => exact .nil
  | real bits => exact .real bits
  | integer d => exact .integer d
  | string h => exact .string (hsub _ h)
  | boolean b => exact .boolean b
  | table h =>
    obtain ⟨ctx, ctx', hconv, hm⟩ := h
    exact .table ⟨ctx, ctx', hconv, hm.trans hsub⟩

theorem Agrees.isNil_eq {conv : Conv} {m : StringMap} {w : Val Table} {v : Value} (h : Agrees conv m w v) :
    w.isNil = v.isNil := by
  cases h <;> rfl

/-! ### Chains -/

def Node.name (m : StringMap) (n : Node Table) : Option Name := named m n.keytype n.key

/-- The slots for `Chain`: a slot is used when it has a value. -/
def slotOf (hash : List (Node Table)) (i : Nat) : Option (Option Nat) :=
  match hash[i]? with
  | none => none
  | some n => if n.v.isNil then none else some (if n.next < 0 then none else some n.next.toNat)

theorem slotOf_used {hash : List (Node Table)} {i : Nat} {n : Node Table} (h : hash[i]? = some n)
    (hn : n.v.isNil = false) : slotOf hash i = some (if n.next < 0 then none else some n.next.toNat) := by
  simp [slotOf, h, hn]

theorem slotOf_free {hash : List (Node Table)} {i : Nat} {n : Node Table} (h : hash[i]? = some n)
    (hn : n.v.isNil = true) : slotOf hash i = none := by
  simp [slotOf, h, hn]

theorem slotOf_eq_some {hash : List (Node Table)} {i : Nat} {o : Option Nat} (h : slotOf hash i = some o) :
    ∃ n, hash[i]? = some n ∧ n.v.isNil = false ∧ o = if n.next < 0 then none else some n.next.toNat := by
  unfold slotOf at h
  split at h
  · cases h
  · rename_i n hn
    split at h
    · cases h
    · rename_i hnil
      cases h
      exact ⟨n, hn, by simpa using hnil, rfl⟩

theorem slotOf_lt {hash : List (Node Table)} {i : Nat} (h : (slotOf hash i).isSome) : i < hash.length := by
  obtain ⟨o, ho⟩ := Option.isSome_iff_exists.mp h
  obtain ⟨n, hn, -⟩ := slotOf_eq_some ho
  exact (List.getElem?_eq_some_iff.mp hn).1

section Lookup

variable (L : Int → Option Bytes) (hash : List (Node Table)) (keyhash : UInt32) (key : Int) (keytype : KeyType) (str : Bytes)

/-- The test of a slot. -/
def slotHasKey (i : Nat) : Bool :=
  match hash[i]? with
  | some n => n.hasKey L keyhash key keytype str
  | none => false

theorem lookupLoop_chain {i fuel : Nat} {c : List Nat} (h : Chain (slotOf hash) i c) (hfuel : c.length ≤ fuel) :
    lookupLoop L hash keyhash key keytype str fuel i = .ok (c.find? (slotHasKey L hash keyhash key keytype str)) := by
  induction h generalizing fuel with
  | @last i h =>
    obtain ⟨fuel, rfl⟩ := Nat.exists_eq_succ_of_ne_zero (n := fuel) (by simp at hfuel; omega)
    obtain ⟨n, hn, -, hnext⟩ := slotOf_eq_some h
    have hlast : n.next < 0 := by
      by_contra hge
      rw [if_neg hge] at hnext
      cases hnext
    simp only [lookupLoop, hn, List.find?_cons, slotHasKey, List.find?_nil]
    cases n.hasKey L keyhash key keytype str with
    | true => rfl
    | false => simp [hlast]
  | @link i j c h hc ih =>
    obtain ⟨fuel, rfl⟩ := Nat.exists_eq_succ_of_ne_zero (n := fuel) (by simp at hfuel; omega)
    obtain ⟨n, hn, -, hnext⟩ := slotOf_eq_some h
    have hlink : ¬n.next < 0 ∧ n.next.toNat = j := by
      by_cases hlt : n.next < 0
      · rw [if_pos hlt] at hnext
        cases hnext
      · rw [if_neg hlt] at hnext
        cases hnext
        exact ⟨hlt, rfl⟩
    simp only [lookupLoop, hn, List.find?_cons, slotHasKey]
    cases n.hasKey L keyhash key keytype str with
    | true => rfl
    | false =>
      rw [if_neg hlink.1, hlink.2]
      exact ih (by simpa using hfuel)

/-- Whatever the slots lead to, a slot that is found has the key. -/
theorem lookupLoop_found {i j fuel : Nat} (h : lookupLoop L hash keyhash key keytype str fuel i = .ok (some j)) :
    slotHasKey L hash keyhash key keytype str j = true := by
  induction fuel generalizing i with
  | zero => cases h
  | succ fuel ih =>
    rw [lookupLoop] at h
    split at h
    · cases h
    · rename_i n hn
      split at h
      · rename_i hkey
        cases h
        simp only [slotHasKey, hn]
        exact hkey
      · split at h
        · cases h
        · exact ih h

end Lookup

end Sharedata
end Skynet
