import Mathlib.Data.List.Basic
import Mathlib.Data.List.Range
import Mathlib.Logic.Function.Basic

/-!
# Skynet.Lib.Mem

A flat memory of cells, written in blocks and read back in slices.
-/

namespace Mem

variable {α : Type*}

/-- Write `bs` from address `a` on. -/
def blit (m : Nat → α) (a : Nat) (bs : List α) : Nat → α :=
  fun j => if h : a ≤ j ∧ j - a < bs.length then bs.get ⟨j - a, h.2⟩ else m j

/-- The `n` cells from address `a` on. -/
def slice (m : Nat → α) (a n : Nat) : List α := (List.range n).map fun i => m (a + i)

@[simp] theorem slice_length (m : Nat → α) (a n : Nat) : (slice m a n).length = n := by simp [slice]

@[simp] theorem slice_zero (m : Nat → α) (a : Nat) : slice m a 0 = [] := rfl

theorem slice_add (m : Nat → α) (a n k : Nat) : slice m a (n + k) = slice m a n ++ slice m (a + n) k := by
  simp only [slice, List.range_add, List.map_append, List.map_map]
  congr 1
  apply List.map_congr_left
  intro i _
  simp only [Function.comp, Nat.add_assoc]

theorem slice_succ (m : Nat → α) (a n : Nat) : slice m a (n + 1) = m a :: slice m (a + 1) n := by
  rw [Nat.add_comm n 1, slice_add]; rfl

theorem slice_congr {m m' : Nat → α} {a n : Nat} (h : ∀ j, a ≤ j → j < a + n → m j = m' j) :
    slice m a n = slice m' a n := by
  apply List.map_congr_left
  intro i hi
  exact h _ (Nat.le_add_right ..) (Nat.add_lt_add_left (List.mem_range.mp hi) a)

theorem blit_nil (m : Nat → α) (a : Nat) : blit m a [] = m := by
  funext j; simp [blit]

theorem blit_of_lt {m : Nat → α} {a j : Nat} {bs : List α} (h : j < a) : blit m a bs j = m j := by
  unfold blit; rw [dif_neg]; omega

theorem blit_of_ge {m : Nat → α} {a j : Nat} {bs : List α} (h : a + bs.length ≤ j) :
    blit m a bs j = m j := by
  unfold blit; rw [dif_neg]; omega

theorem blit_of_mem {m : Nat → α} {a j : Nat} {bs : List α} (ha : a ≤ j) (h : j - a < bs.length) :
    blit m a bs j = bs.get ⟨j - a, h⟩ := by
  unfold blit; rw [dif_pos ⟨ha, h⟩]

/-- Two blocks written one after the other are one block. -/
theorem blit_append (m : Nat → α) (a : Nat) (xs ys : List α) :
    blit (blit m a xs) (a + xs.length) ys = blit m a (xs ++ ys) := by
  funext j
  by_cases h1 : j < a
  · rw [blit_of_lt (by omega), blit_of_lt h1, blit_of_lt h1]
  by_cases h2 : j < a + xs.length
  · rw [blit_of_lt h2, blit_of_mem (by omega) (by omega), blit_of_mem (by omega) (by simp; omega)]
    simp only [List.get_eq_getElem]
    rw [List.getElem_append_left]
  by_cases h3 : j < a + xs.length + ys.length
  · rw [blit_of_mem (by omega) (by omega), blit_of_mem (by omega) (by simp; omega)]
    simp only [List.get_eq_getElem]
    rw [List.getElem_append_right (by omega)]
    congr 1
    omega
  · rw [blit_of_ge (by omega), blit_of_ge (by omega), blit_of_ge (by simp; omega)]

/-- A block written is read back. -/
theorem slice_blit (m : Nat → α) (a : Nat) (bs : List α) : slice (blit m a bs) a bs.length = bs := by
  apply List.ext_get (by simp)
  intro i h1 h2
  simp [slice, blit, h2]

/-- A slice below a block is unchanged by writing the block. -/
theorem slice_blit_below {m : Nat → α} {a n b : Nat} {bs : List α} (h : a + n ≤ b) :
    slice (blit m b bs) a n = slice m a n :=
  slice_congr fun _ _ hj => blit_of_lt (Nat.lt_of_lt_of_le hj h)

/-- A slice above a block is unchanged by writing the block. -/
theorem slice_blit_above {m : Nat → α} {a n b : Nat} {bs : List α} (h : b + bs.length ≤ a) :
    slice (blit m b bs) a n = slice m a n :=
  slice_congr fun _ hj _ => blit_of_ge (Nat.le_trans h hj)

/-- Writing a block right after a slice extends it. -/
theorem slice_blit_append (m : Nat → α) (n : Nat) (bs : List α) :
    slice (blit m n bs) 0 (n + bs.length) = slice m 0 n ++ bs := by
  rw [slice_add, slice_blit_below (by omega), Nat.zero_add, slice_blit]

end Mem
