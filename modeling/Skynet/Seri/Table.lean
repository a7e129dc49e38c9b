import Skynet.Lua.Table
import Skynet.Seri.Pack

/-!
# Skynet.Seri.Table

The two parts of a packed table: the values at `1 .. n`, and the pairs with other keys.

* `split_perm` : for every `n` the two parts hold the pairs of the table, each once.
-/

namespace Skynet
namespace Seri

open Lua

theorem inArray_iff {n : Int} {k : Value} : inArray n k = true ↔ ∃ x, k = .integer x ∧ 0 < x.toInt ∧ x.toInt ≤ n := by
  cases k with
  | integer x => simp [inArray]
  | _ => simp [inArray]

theorem filter_inArray_nodup {es : Entries} (hd : Distinct es) (n : Int) :
    (es.filter fun p => inArray n p.1).Nodup := by
  apply Distinct.nodup (List.Pairwise.filter _ hd)
  intro p hp
  obtain ⟨x, hx, -⟩ := inArray_iff.mp (List.mem_filter.mp hp).2
  rw [hx]
  exact sameKey_integer_self x

/-- The values `wb_table_array` packs. -/
def arrayValues (es : Entries) (n : Nat) : List Value := (List.range n).map fun i => rawgeti es (i + 1)

/-- The pairs left out of the hash part are the pairs of the array part. -/
theorem arrayEntries_perm {es : Entries} (hd : Distinct es) (hval : ∀ p ∈ es, p.2.isNil = false) {n : Nat}
    (hn : n < 2 ^ 31) : (es.filter fun p => inArray n p.1).Perm (arrayEntries 1 (arrayValues es n)) := by
  have hlen : (arrayValues es n).length = n := by simp [arrayValues]
  rw [List.perm_ext_iff_of_nodup (filter_inArray_nodup hd n) (arrayEntries_nodup (by omega))]
  rintro ⟨k, v⟩
  rw [List.mem_filter, inArray_iff, mem_arrayEntries]
  constructor
  · rintro ⟨hmem, x, rfl, hpos, hle⟩
    have hx : (x.toNat : Int) = x.toInt := by
      rw [BitVec.toInt_eq_toNat_cond] at hpos ⊢
      have := x.isLt
      split at hpos <;> split <;> omega
    refine ⟨x.toNat - 1, v, ?_, hval _ hmem, ?_⟩
    · rw [arrayValues, List.getElem?_map, List.getElem?_range (by omega), Option.map_some,
        show x.toNat - 1 + 1 = x.toNat by omega, rawgeti, BitVec.ofNat_toNat, BitVec.setWidth_eq,
        rawget_of_mem hd (sameKey_integer_self x) hmem]
    · rw [intKey, show 1 + (x.toNat - 1) = x.toNat by omega, BitVec.ofNat_toNat, BitVec.setWidth_eq]
  · rintro ⟨j, w, hj, hw, he⟩
    have hjn : j < n := by rw [← hlen]; exact (List.getElem?_eq_some_iff.mp hj).1
    rw [arrayValues, List.getElem?_map, List.getElem?_range hjn, Option.map_some, Option.some.injEq] at hj
    subst hj
    rw [he, Nat.add_comm 1 j]
    refine ⟨mem_of_rawget hw, BitVec.ofNat 64 (j + 1), rfl, ?_, ?_⟩
    · rw [toInt_ofNat_of_lt (by omega)]; omega
    · rw [toInt_ofNat_of_lt (by omega)]; omega

theorem split_perm {es : Entries} (hd : Distinct es) (hval : ∀ p ∈ es, p.2.isNil = false) {n : Nat}
    (hn : n < 2 ^ 31) :
    es.Perm (arrayEntries 1 (arrayValues es n) ++ es.filter fun p => !inArray n p.1) :=
  (List.filter_append_perm (fun p => inArray n p.1) es).symm.trans
    ((arrayEntries_perm hd hval hn).append_right _)

end Seri
end Skynet
