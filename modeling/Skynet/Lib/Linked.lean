import Mathlib.Data.List.Basic
import Mathlib.Logic.Function.Basic

/-!
# Skynet.Lib.Linked

Singly linked lists. A node is named by an index, and `next` gives the link of each node.

* `Linked next o c` : from the link `o` on, the nodes are `c`.
* `Linked.congr` : a list only depends on the links of its own nodes.
* `Linked.push`, `Linked.unlink` : a node is put in front; the node behind another one is taken out.
-/

def Linked {ι : Type*} (next : ι → Option ι) : Option ι → List ι → Prop
  | o, [] => o = none
  | o, i :: c => o = some i ∧ Linked next (next i) c

namespace Linked

variable {ι : Type*} {next next' : ι → Option ι} {o : Option ι} {i j : ι} {c d : List ι}

theorem congr (hnext : ∀ i ∈ c, next' i = next i) (h : Linked next o c) : Linked next' o c := by
  induction c generalizing o with
  | nil => exact h
  | cons i c ih =>
    refine ⟨h.1, ?_⟩
    rw [hnext i (List.mem_cons_self ..)]
    exact ih (fun j hj => hnext j (List.mem_cons_of_mem _ hj)) h.2

variable [DecidableEq ι]

theorem update (hi : i ∉ c) (h : Linked next o c) (o' : Option ι) : Linked (Function.update next i o') o c := by
  refine h.congr fun j hj => Function.update_of_ne ?_ _ _
  rintro rfl
  exact hi hj

theorem push (hi : i ∉ c) (h : Linked next o c) : Linked (Function.update next i o) (some i) (i :: c) := by
  refine ⟨rfl, ?_⟩
  rw [Function.update_self]
  exact h.update hi o

theorem unlink (hnodup : (c ++ i :: j :: d).Nodup) (h : Linked next o (c ++ i :: j :: d)) :
    Linked (Function.update next i (next j)) o (c ++ i :: d) := by
  induction c generalizing o with
  | nil =>
    obtain ⟨ho, -, hrest⟩ := h
    have hi : i ∉ d := fun hmem => (List.nodup_cons.mp hnodup).1 (List.mem_cons_of_mem _ hmem)
    refine ⟨ho, ?_⟩
    rw [Function.update_self]
    exact hrest.update hi _
  | cons k c ih =>
    rw [List.cons_append] at hnodup h
    obtain ⟨hk, hnodup⟩ := List.nodup_cons.mp hnodup
    have hne : k ≠ i := by
      rintro rfl
      exact hk (List.mem_append_right _ (List.mem_cons_self ..))
    refine ⟨h.1, ?_⟩
    rw [Function.update_of_ne hne]
    exact ih hnodup h.2

end Linked
