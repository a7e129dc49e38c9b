import Skynet.Lua.Table

/-!
# Skynet.Lua.Setting

Setting keys of a table.

* `rawget_setKey` : what is read behind an assignment.
* `setKey_setKey`, `setKey_comm` : the assignment of one key twice, and of two keys.
-/

namespace Skynet
namespace Lua

/-- The pair of a key with a new value, and any other pair as it is. -/
def putValue (key v : Value) (p : Value × Value) : Value × Value := if p.1.sameKey key then (p.1, v) else p

section Setting

variable {t : Entries} {key k v v' w : Value}

@[simp] theorem putValue_fst (key v : Value) (p : Value × Value) : (putValue key v p).1 = p.1 := by
  unfold putValue
  split <;> rfl

theorem setKey_present (hv : v.isNil = false) (h : (t.any fun p => p.1.sameKey key) = true) :
    setKey t key v = t.map (putValue key v) := by
  rw [setKey, if_neg (by rw [hv]; decide), if_pos h]
  rfl

theorem setKey_absent (hv : v.isNil = false) (h : (t.any fun p => p.1.sameKey key) = false) :
    setKey t key v = t ++ [(key, v)] := by
  rw [setKey, if_neg (by rw [hv]; decide), if_neg (by rw [h]; decide)]

theorem any_map_putValue : ((t.map (putValue key v)).any fun p => p.1.sameKey k) = t.any fun p => p.1.sameKey k := by
  simp [List.any_map, Function.comp_def]

/-- A key that is set is there. -/
theorem any_setKey (hv : v.isNil = false) :
    ((setKey t key v).any fun p => p.1.sameKey k) = (key.sameKey k || t.any fun p => p.1.sameKey k) := by
  cases h : t.any fun p => p.1.sameKey key with
  | true =>
    rw [setKey_present hv h, any_map_putValue]
    cases hk : key.sameKey k with
    | true => rw [← eq_of_sameKey hk, h]; rfl
    | false => rfl
  | false =>
    rw [setKey_absent hv h, List.any_append]
    simp [Bool.or_comm]

theorem rawget_setKey (hv : v.isNil = false) :
    rawget (setKey t key v) k = if key.sameKey k then v else rawget t k := by
  cases h : t.any fun p => p.1.sameKey key with
  | true =>
    have hfind : (setKey t key v).find? (fun p => p.1.sameKey k) =
      (t.find? fun p => p.1.sameKey k).map (putValue key v) := by
      rw [setKey_present hv h, List.find?_map]
      simp [Function.comp_def]
    unfold rawget
    rw [hfind]
    cases hp : t.find? fun p => p.1.sameKey k with
    | none =>
      have hnone := List.find?_eq_none.mp hp
      obtain ⟨p, hmem, hpk⟩ := List.any_eq_true.mp h
      by_cases hk : key.sameKey k = true
      · exact absurd (by rw [eq_of_sameKey hpk]; exact hk) (hnone p hmem)
      · rw [if_neg hk]
        rfl
    | some p =>
      have hpk : p.1 = k := by
        have hsome := List.find?_some hp
        exact eq_of_sameKey hsome
      simp only [Option.map_some, putValue, hpk, sameKey_comm k key]
      split <;> rfl
  | false =>
    have hnone : ∀ p ∈ t, p.1.sameKey key = false := fun p hp => Bool.eq_false_iff.mpr (List.any_eq_false.mp h p hp)
    unfold rawget
    rw [setKey_absent hv h, List.find?_append]
    by_cases hk : key.sameKey k = true
    · have hmiss : t.find? (fun p => p.1.sameKey k) = none := by
        rw [List.find?_eq_none]
        intro p hp
        rw [← eq_of_sameKey hk, hnone p hp]
        decide
      rw [hmiss, if_pos hk]
      simp [hk]
    · rw [if_neg hk]
      cases t.find? fun p => p.1.sameKey k <;> simp [hk]

theorem setKey_setKey (hself : key.sameKey key = true) (hv : v.isNil = false) (hv' : v'.isNil = false) :
    setKey (setKey t key v) key v' = setKey t key v' := by
  have hthere : ((setKey t key v).any fun p => p.1.sameKey key) = true := by
    rw [any_setKey hv, hself]
    rfl
  have hput : ∀ p, putValue key v' (putValue key v p) = putValue key v' p := by
    intro p
    cases hp : p.1.sameKey key <;> simp [putValue, hp]
  rw [setKey_present hv' hthere]
  cases h : t.any fun p => p.1.sameKey key with
  | true =>
    rw [setKey_present hv h, setKey_present hv' h, List.map_map]
    exact List.map_congr_left fun p _ => hput p
  | false =>
    have hnone : ∀ p ∈ t, p.1.sameKey key = false := fun p hp => Bool.eq_false_iff.mpr (List.any_eq_false.mp h p hp)
    have hid : t.map (putValue key v') = t := by
      conv_rhs => rw [← List.map_id t]
      apply List.map_congr_left
      intro p hp
      rw [putValue, hnone p hp]
      rfl
    rw [setKey_absent hv h, setKey_absent hv' h, List.map_append, hid]
    simp [putValue, hself]

/-- A key that is there may be set after another one. -/
theorem setKey_comm (hthere : (t.any fun p => p.1.sameKey key) = true) (hne : k.sameKey key = false)
    (hv : v.isNil = false) (hw : w.isNil = false) : setKey (setKey t key v) k w = setKey (setKey t k w) key v := by
  have hthere' : ((setKey t k w).any fun p => p.1.sameKey key) = true := by
    rw [any_setKey hw, hthere, Bool.or_true]
  rw [setKey_present hv hthere', setKey_present hv hthere]
  have hcomm : ∀ p, putValue k w (putValue key v p) = putValue key v (putValue k w p) := by
    intro p
    cases hp : p.1.sameKey key <;> cases hq : p.1.sameKey k <;> simp [putValue, hp, hq]
    rw [eq_of_sameKey hq, hne] at hp
    cases hp
  cases h : t.any fun p => p.1.sameKey k with
  | true =>
    rw [setKey_present hw (by rw [any_map_putValue]; exact h), setKey_present hw h, List.map_map, List.map_map]
    exact List.map_congr_left fun p _ => hcomm p
  | false =>
    rw [setKey_absent hw (by rw [any_map_putValue]; exact h), setKey_absent hw h, List.map_append]
    simp [putValue, hne]

end Setting

end Lua
end Skynet
