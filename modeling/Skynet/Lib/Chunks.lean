import Mathlib.Data.List.Basic
import Mathlib.Tactic.Common

/-!
# Skynet.Lib.Chunks

A queue of elements that is kept as a list of nodes with a block each, and an offset into the first block.

* `blockAt` : a read of a block that does not go over its ends.
* `Unread` : the elements that the nodes hold from the offset on.
-/

namespace Chunks

variable {ν α : Type*}

/-- The `n` elements at `start` of a block. -/
def blockAt (block : List α) (start n : Int) : Option (List α) :=
  if 0 ≤ start ∧ 0 ≤ n ∧ start + n ≤ block.length then some ((block.drop start.toNat).take n.toNat) else none

theorem blockAt_eq {block : List α} {i n : Nat} (h : i + n ≤ block.length) :
    blockAt block i n = some ((block.drop i).take n) := by
  rw [blockAt, if_pos (by omega)]
  rfl

variable (block : ν → List α) (size : ν → Int)

/-- The sizes of the nodes are the ones of their blocks, and no block is read to its end. -/
inductive Unread : List ν → Int → List α → Prop
  | nil : Unread [] 0 []
  | cons {node : ν} {next : List ν} {o : Nat} {s : List α} : size node = (block node).length → o < (block node).length →
      Unread next 0 s → Unread (node :: next) o ((block node).drop o ++ s)

variable {block size} {node : ν} {next : List ν} {o : Int} {s : List α}

theorem Unread.push {nodes : List ν} (h : Unread block size nodes o s) (hsize : size node = (block node).length)
    (hne : block node ≠ []) : Unread block size (nodes ++ [node]) o (s ++ block node) := by
  induction h with
  | nil =>
    have hnew : Unread block size [node] 0 ((block node).drop 0 ++ []) := .cons hsize (List.length_pos_iff.mpr hne) .nil
    rwa [List.drop_zero, List.append_nil] at hnew
  | cons hs ho _ ih =>
    rw [List.append_assoc]
    exact .cons hs ho ih

theorem Unread.nodes_nil (h : Unread block size [] o s) : o = 0 ∧ s = [] := by
  cases h
  exact ⟨rfl, rfl⟩

theorem Unread.length_pos (h : Unread block size (node :: next) o s) : 0 < s.length := by
  cases h with
  | cons _ ho _ =>
    rw [List.length_append, List.length_drop]
    omega

/-- The first block with more of it read. -/
theorem Unread.skip {o n : Nat} (hsize : size node = (block node).length) (h : Unread block size next 0 s)
    (ho : o + n < (block node).length) :
    Unread block size (node :: next) (o + n : Nat) (((block node).drop o ++ s).drop n) := by
  have hlen : ((block node).drop o).length = (block node).length - o := List.length_drop
  rw [List.drop_append_of_le_length (by omega), List.drop_drop]
  exact .cons hsize ho h

/-- The next element is in the same block or is the first one of the next block. -/
theorem Unread.advance (h : Unread block size (node :: next) o s) :
    (size node - o - 1 = 0 ∧ Unread block size next 0 (s.drop 1)) ∨
      (size node - o - 1 ≠ 0 ∧ Unread block size (node :: next) (o + 1) (s.drop 1)) := by
  cases h with
  | @cons _ _ o s hsize ho hnext =>
    have hlen : ((block node).drop o).length = (block node).length - o := List.length_drop
    by_cases hlast : o + 1 = (block node).length
    · refine .inl ⟨by rw [hsize]; omega, ?_⟩
      rw [show 1 = ((block node).drop o).length by omega, List.drop_left]
      exact hnext
    · have hskip : Unread block size (node :: next) (o + 1 : Nat) (((block node).drop o ++ s).drop 1) :=
        Unread.skip hsize hnext (by omega)
      rw [Int.natCast_add] at hskip
      exact .inr ⟨by rw [hsize]; omega, hskip⟩

end Chunks
