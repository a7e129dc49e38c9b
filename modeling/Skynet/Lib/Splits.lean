import Mathlib.Data.Multiset.Bind
import Mathlib.Data.Multiset.Filter
import Mathlib.Algebra.Order.Group.Multiset

/-!
# Skynet.Lib.Splits

Splitting a multiset into pieces of given shapes.

* `Splits piece m` : `m` is a sum of pieces.
* `splits_iff` : either nothing is left, or some piece can be taken away and the rest splits. A search
  that tries every piece is complete by this.
* `count_bind_filter` : an element that only pieces of one kind contain is counted by these alone.
-/

namespace Pieces

variable {ι α : Type*} (piece : ι → Multiset α)

/-- `m` is the sum of the pieces `s`. -/
def Into (s : Multiset ι) (m : Multiset α) : Prop := s.bind piece = m

def Splits (m : Multiset α) : Prop := ∃ s, Into piece s m

variable {piece} {m : Multiset α}

theorem splits_zero : Splits piece 0 := ⟨0, Multiset.zero_bind ..⟩

theorem splits_add (i : ι) (h : Splits piece m) : Splits piece (piece i + m) := by
  obtain ⟨s, hs⟩ := h
  exact ⟨i ::ₘ s, by rw [Into, Multiset.cons_bind, hs]⟩

theorem splits_iff [DecidableEq α] :
    Splits piece m ↔ m = 0 ∨ ∃ i, piece i ≤ m ∧ Splits piece (m - piece i) := by
  constructor
  · rintro ⟨s, rfl⟩
    induction s using Multiset.induction with
    | empty => exact .inl (Multiset.zero_bind ..)
    | cons i s _ =>
      refine .inr ⟨i, ?_, s, ?_⟩
      · rw [Multiset.cons_bind]
        exact Multiset.le_add_right ..
      · rw [Multiset.cons_bind, add_tsub_cancel_left]
        rfl
  · rintro (rfl | ⟨i, hle, h⟩)
    · exact splits_zero
    · have := splits_add i h
      rwa [add_tsub_cancel_of_le hle] at this

theorem count_bind_filter [DecidableEq α] {P : ι → Prop} [DecidablePred P] {a : α} {s : Multiset ι}
    (h : ∀ i ∈ s, a ∈ piece i → P i) :
    ((s.filter P).bind piece).count a = (s.bind piece).count a := by
  induction s using Multiset.induction with
  | empty => rfl
  | cons i s ih =>
    have hs := ih fun j hj => h j (Multiset.mem_cons_of_mem hj)
    rw [Multiset.cons_bind, Multiset.count_add]
    by_cases hi : P i
    · rw [Multiset.filter_cons_of_pos _ hi, Multiset.cons_bind, Multiset.count_add, hs]
    · have hnot : a ∉ piece i := fun ha => hi (h i (Multiset.mem_cons_self ..) ha)
      rw [Multiset.filter_cons_of_neg _ hi, hs, Multiset.count_eq_zero_of_notMem hnot, Nat.zero_add]

end Pieces
