import Mathlib.Data.List.Nodup
import Mathlib.Data.List.Perm.Lattice
import Skynet.Lua.Value

/-!
# Skynet.Lua.Table

Tables with distinct keys, and the pairs of an array.

* `rawget_of_mem`, `mem_of_rawget` : what is read at a key is the value of its pair.
* `setArray_eq` : setting values at successive indices adds the pairs of those that are not nil.
* `rawgeti_array` : the values of an array are read at their indices, and nil behind them.
-/

namespace Skynet
namespace Lua

/-! ### Keys -/

theorem eq_of_sameKey {a b : Value} (h : a.sameKey b = true) : a = b := by
  cases a <;> cases b <;> first | cases h; done | rfl | exact congrArg _ (eq_of_beq h)

theorem sameKey_comm (a b : Value) : a.sameKey b = b.sameKey a := by
  cases a <;> cases b <;> first | rfl | exact Bool.beq_comm

theorem sameKey_right {a b b' : Value} (h : Same b b') : a.sameKey b' = a.sameKey b := by
  cases a <;> cases h <;> rfl

theorem sameKey_left {a a' b : Value} (h : Same a a') : a'.sameKey b = a.sameKey b := by
  cases h <;> cases b <;> rfl

theorem sameKey_integer_self (x : BitVec 64) : Value.sameKey (.integer x) (.integer x) = true :=
  beq_self_eq_true x

theorem sameKey_string_self (s : List UInt8) : Value.sameKey (.string s) (.string s) = true :=
  beq_self_eq_true s

/-- No two keys of a table are the same. -/
def Distinct (es : Entries) : Prop := es.Pairwise fun p q => p.1.sameKey q.1 = false

theorem Distinct.perm {es es' : Entries} (h : Distinct es) (hp : es.Perm es') : Distinct es' :=
  (hp.pairwise_iff fun {_ _} hpq => by rw [sameKey_comm]; exact hpq).mp h

/-- Pairs with distinct keys are distinct; a table is no key of its own here. -/
theorem Distinct.nodup {es : Entries} (h : Distinct es) (hself : ∀ p ∈ es, p.1.sameKey p.1 = true) : es.Nodup := by
  apply List.Pairwise.imp_of_mem _ h
  rintro p q hp - hne rfl
  rw [hself p hp] at hne
  cases hne

theorem rawget_of_mem {es : Entries} (hd : Distinct es) {k v : Value} (hk : k.sameKey k = true)
    (h : (k, v) ∈ es) : rawget es k = v := by
  unfold rawget
  induction es with
  | nil => cases h
  | cons e es ih =>
    obtain ⟨hhead, htail⟩ := List.pairwise_cons.mp hd
    rw [List.find?_cons]
    rcases List.mem_cons.mp h with rfl | h
    · rw [hk]
    · rw [hhead _ h]
      exact ih htail h

theorem mem_of_rawget {es : Entries} {k : Value} (h : (rawget es k).isNil = false) : (k, rawget es k) ∈ es := by
  unfold rawget at h ⊢
  split
  · rename_i p hp
    have hsame := List.find?_some hp
    have hk : p.1 = k := eq_of_sameKey hsame
    have hmem := List.mem_of_find?_eq_some hp
    rwa [← hk]
  · rename_i hnone
    rw [hnone] at h
    cases h

theorem eq_nil_of_isNil {v : Value} (h : v.isNil = true) : v = .nil := by
  cases v with
  | nil => rfl
  | _ => cases h

/-- Setting a key that the table does not have. -/
theorem setKey_fresh {t : Entries} {key v : Value} (h : ∀ p ∈ t, p.1.sameKey key = false) :
    setKey t key v = if v.isNil then t else t ++ [(key, v)] := by
  unfold setKey
  split
  · rw [List.filter_eq_self]
    intro p hp
    rw [h p hp]; rfl
  · rw [if_neg]
    rw [Bool.not_eq_true, List.any_eq_false]
    intro p hp
    rw [h p hp]; decide

/-- Setting the last key again. -/
theorem setKey_last {t : Entries} {key v w : Value} (h : ∀ p ∈ t, p.1.sameKey key = false)
    (hk : key.sameKey key = true) (hv : v.isNil = false) : setKey (t ++ [(key, w)]) key v = t ++ [(key, v)] := by
  have hany : (t ++ [(key, w)]).any (fun p => p.1.sameKey key) = true := by simp [hk]
  have hmap : t.map (fun p => if p.1.sameKey key then (p.1, v) else p) = t := by
    conv_rhs => rw [← List.map_id t]
    apply List.map_congr_left
    intro p hp
    rw [h p hp]; rfl
  rw [setKey, if_neg (by rw [hv]; decide), if_pos hany, List.map_append, hmap]
  simp [hk]

/-! ### Arrays -/

def intKey (i : Nat) : Value := .integer (BitVec.ofNat 64 i)

theorem sameKey_intKey {i j : Nat} (hi : i < 2 ^ 64) (hj : j < 2 ^ 64) (h : i ≠ j) :
    (intKey i).sameKey (intKey j) = false := by
  have hne : BitVec.ofNat 64 i ≠ BitVec.ofNat 64 j := by
    intro he
    have := congrArg BitVec.toNat he
    rw [BitVec.toNat_ofNat, BitVec.toNat_ofNat, Nat.mod_eq_of_lt hi, Nat.mod_eq_of_lt hj] at this
    exact h this
  exact beq_false_of_ne hne

theorem toInt_ofNat_of_lt {i : Nat} (h : i < 2 ^ 63) : (BitVec.ofNat 64 i).toInt = i := by
  rw [BitVec.toInt_ofNat', Int.bmod_eq_of_le] <;> omega

/-- The values set at `i`, `i + 1` and so on. -/
def setArray : Nat → Entries → List Value → Entries
  | _, t, [] => t
  | i, t, v :: vs => setArray (i + 1) (rawseti t i v) vs

theorem setArray_nil (i : Nat) (t : Entries) : setArray i t [] = t := rfl

theorem setArray_cons (i : Nat) (t : Entries) (v : Value) (vs : List Value) :
    setArray i t (v :: vs) = setArray (i + 1) (rawseti t i v) vs := rfl

/-- The pairs of the values at `i`, `i + 1` and so on. -/
def arrayEntries : Nat → List Value → Entries
  | _, [] => []
  | i, v :: vs => (if v.isNil then [] else [(intKey i, v)]) ++ arrayEntries (i + 1) vs

theorem arrayEntries_nil (i : Nat) : arrayEntries i [] = [] := rfl

theorem arrayEntries_cons (i : Nat) (v : Value) (vs : List Value) :
    arrayEntries i (v :: vs) = (if v.isNil then [] else [(intKey i, v)]) ++ arrayEntries (i + 1) vs := rfl

theorem mem_arrayEntries {vs : List Value} {i : Nat} {p : Value × Value} : p ∈ arrayEntries i vs ↔
    ∃ j v, vs[j]? = some v ∧ v.isNil = false ∧ p = (intKey (i + j), v) := by
  induction vs generalizing i with
  | nil => simp [arrayEntries_nil]
  | cons v vs ih =>
    rw [arrayEntries_cons, List.mem_append, ih]
    constructor
    · rintro (h | ⟨j, w, hj, hw, rfl⟩)
      · split at h
        · cases h
        · rename_i hv
          exact ⟨0, v, rfl, Bool.eq_false_iff.mpr hv, List.mem_singleton.mp h⟩
      · exact ⟨j + 1, w, hj, hw, by rw [Nat.add_assoc, Nat.add_comm 1 j]⟩
    · rintro ⟨j, w, hj, hw, rfl⟩
      cases j with
      | zero =>
        cases hj
        left
        rw [if_neg (by rw [hw]; decide)]
        exact List.mem_singleton.mpr rfl
      | succ j => exact .inr ⟨j, w, hj, hw, by rw [Nat.add_assoc, Nat.add_comm 1 j]⟩

theorem arrayEntries_fresh {vs : List Value} {i j : Nat} (hi : i + vs.length ≤ 2 ^ 64) (hj : j < 2 ^ 64)
    (hij : j < i ∨ i + vs.length ≤ j) : ∀ p ∈ arrayEntries i vs, p.1.sameKey (intKey j) = false := by
  intro p hp
  rw [mem_arrayEntries] at hp
  obtain ⟨l, v, hl, -, rfl⟩ := hp
  have hlen : l < vs.length := (List.getElem?_eq_some_iff.mp hl).1
  exact sameKey_intKey (by omega) hj (by omega)

theorem arrayEntries_distinct {vs : List Value} {i : Nat} (hi : i + vs.length ≤ 2 ^ 64) :
    Distinct (arrayEntries i vs) := by
  induction vs generalizing i with
  | nil => exact .nil
  | cons v vs ih =>
    rw [List.length_cons] at hi
    have htail := ih (i := i + 1) (by omega)
    rw [arrayEntries_cons]
    split
    · exact htail
    · refine List.pairwise_cons.mpr ⟨?_, htail⟩
      intro p hp
      rw [sameKey_comm]
      exact arrayEntries_fresh (by omega) (by omega) (.inl (by omega)) p hp

theorem arrayEntries_nodup {vs : List Value} {i : Nat} (hi : i + vs.length ≤ 2 ^ 64) :
    (arrayEntries i vs).Nodup := by
  apply (arrayEntries_distinct hi).nodup
  intro p hp
  rw [mem_arrayEntries] at hp
  obtain ⟨j, v, -, -, rfl⟩ := hp
  exact sameKey_integer_self _

theorem arrayEntries_append (vs ws : List Value) (i : Nat) :
    arrayEntries i (vs ++ ws) = arrayEntries i vs ++ arrayEntries (i + vs.length) ws := by
  induction vs generalizing i with
  | nil => rfl
  | cons v vs ih =>
    rw [List.cons_append, arrayEntries_cons, ih, arrayEntries_cons, List.append_assoc, List.length_cons,
      Nat.add_assoc, Nat.add_comm 1]

theorem arrayEntries_singleton {v : Value} (h : v.isNil = false) (i : Nat) : arrayEntries i [v] = [(intKey i, v)] := by
  simp [arrayEntries_cons, arrayEntries_nil, h]

theorem arrayEntries_same {vs vs' : List Value} (h : List.Forall₂ Same vs vs') (i : Nat) :
    List.Forall₂ SamePair (arrayEntries i vs) (arrayEntries i vs') := by
  induction h generalizing i with
  | nil => exact .nil
  | cons hv _ ih =>
    rw [arrayEntries_cons, arrayEntries_cons, hv.isNil_eq]
    split
    · exact ih (i + 1)
    · exact .cons ⟨.integer _, hv⟩ (ih (i + 1))

theorem setArray_eq {vs : List Value} {i : Nat} {t : Entries} (hi : i + vs.length ≤ 2 ^ 64)
    (ht : ∀ p ∈ t, ∀ j, i ≤ j → j < i + vs.length → p.1.sameKey (intKey j) = false) :
    setArray i t vs = t ++ arrayEntries i vs := by
  induction vs generalizing i t with
  | nil => simp [setArray_nil, arrayEntries_nil]
  | cons v vs ih =>
    rw [List.length_cons] at hi ht
    have hset : rawseti t i v = t ++ (if v.isNil then [] else [(intKey i, v)]) := by
      change setKey t (intKey i) v = _
      rw [setKey_fresh fun p hp => ht p hp i (Nat.le_refl i) (by omega)]
      split
      · rw [List.append_nil]
      · rfl
    rw [setArray_cons, hset, ih (by omega), arrayEntries_cons, List.append_assoc]
    intro p hp j hij hj
    rcases List.mem_append.mp hp with hp | hp
    · exact ht p hp j (by omega) (by omega)
    · split at hp
      · cases hp
      · rw [List.mem_singleton.mp hp]
        exact sameKey_intKey (by omega) (by omega) (by omega)

/-- Behind an array there is nil. -/
theorem rawgeti_behind {es : Entries} {vs : List Value} (hes : es.Perm (arrayEntries 1 vs)) {j : Nat} (hj : vs.length ≤ j)
    (hlt : 1 + j < 2 ^ 64) : rawgeti es (1 + j) = .nil := by
  apply eq_nil_of_isNil
  by_contra hnil
  have hmem := hes.mem_iff.mp (mem_of_rawget (Bool.not_eq_true _ ▸ hnil))
  have hfresh : (intKey (1 + j)).sameKey (intKey (1 + j)) = false :=
    arrayEntries_fresh (by omega) hlt (.inr (by omega)) _ hmem
  rw [intKey, sameKey_integer_self] at hfresh
  cases hfresh

/-- Within an array there are its values, however long it is. -/
theorem rawgeti_mem {es : Entries} {vs : List Value} (hes : es.Perm (arrayEntries 1 vs)) (hvs : ∀ v ∈ vs, v.isNil = false)
    {j : Nat} (hj : j < vs.length) : rawgeti es (1 + j) ∈ vs := by
  have hv : vs[j]? = some vs[j] := List.getElem?_eq_getElem hj
  have hmem : (intKey (1 + j), vs[j]) ∈ es := by
    rw [hes.mem_iff, mem_arrayEntries]
    exact ⟨j, vs[j], hv, hvs _ (List.getElem_mem hj), rfl⟩
  unfold rawgeti rawget
  split
  · rename_i p hp
    have hmem' := List.mem_of_find?_eq_some hp
    rw [hes.mem_iff, mem_arrayEntries] at hmem'
    obtain ⟨i, v, hi, -, rfl⟩ := hmem'
    exact List.mem_of_getElem? hi
  · rename_i hnone
    have hno := List.find?_eq_none.mp hnone _ hmem
    exact absurd (sameKey_integer_self _) hno

/-- Reading an array by its indices, whatever the order of its pairs. -/
theorem rawgeti_array {es : Entries} {vs : List Value} (hes : es.Perm (arrayEntries 1 vs))
    (hvs : ∀ v ∈ vs, v.isNil = false) (hlen : vs.length < 2 ^ 63) {j : Nat} (hj : j ≤ vs.length) :
    rawgeti es (1 + j) = vs[j]?.getD .nil := by
  have hd : Distinct es := (arrayEntries_distinct (by omega)).perm hes.symm
  cases hv : vs[j]? with
  | some v =>
    have hmem : (intKey (1 + j), v) ∈ es := by
      rw [hes.mem_iff, mem_arrayEntries]
      exact ⟨j, v, hv, hvs v (List.mem_of_getElem? hv), rfl⟩
    exact rawget_of_mem hd (sameKey_integer_self _) hmem
  | none => exact rawgeti_behind hes (List.getElem?_eq_none_iff.mp hv) (by omega)

end Lua
end Skynet
