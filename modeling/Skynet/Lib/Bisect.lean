import Mathlib.Order.Lattice
import Mathlib.Tactic.Common

/-!
# Skynet.Lib.Bisect

Binary search with inclusive bounds, as a C loop writes it: the index searched for is known only
through a comparison `c i`, which is negative below it, zero at it and positive above it.

* `Ascends c n` : the comparisons of the first `n` indices come in that order, zero at most once.
* `search_spec` : the search ends at the zero, or at the first index with a positive comparison.
* `find_mem`, `find_some` : the same over a list with ascending keys, with an exclusive upper bound.
-/

namespace Bisect

/-- The index found, or the place where it would have to be put. -/
def search (c : Nat → Int) (lo hi : Int) : Nat ⊕ Nat :=
  if lo ≤ hi then
    let mid := (lo + hi) / 2
    if c mid.toNat = 0 then .inl mid.toNat
    else if c mid.toNat < 0 then search c (mid + 1) hi
    else search c lo (mid - 1)
  else .inr lo.toNat
termination_by (hi + 1 - lo).toNat
decreasing_by all_goals omega

def Ascends (c : Nat → Int) (n : Nat) : Prop := ∀ i j, i < j → j < n → 0 ≤ c i → 0 < c j

variable {c : Nat → Int} {n : Nat}

theorem Ascends.neg_of_le (h : Ascends c n) {i m : Nat} (hm : m < n) (hc : c m < 0) (hi : i ≤ m) : c i < 0 := by
  rcases Nat.eq_or_lt_of_le hi with rfl | hlt
  · exact hc
  · by_contra hge
    have := h i m hlt hm (by omega)
    omega

theorem Ascends.pos_of_le (h : Ascends c n) {i m : Nat} (hi : i < n) (hc : 0 < c m) (hm : m ≤ i) : 0 < c i := by
  rcases Nat.eq_or_lt_of_le hm with rfl | hlt
  · exact hc
  · exact h m i hlt hi (by omega)

/-- What a search between `lo` and `hi` returns, when everything below `lo` is too small and everything
above `hi` too large. -/
theorem search_between (h : Ascends c n) (lo hi : Int) (hlo : 0 ≤ lo) (hhi : hi < n) (hle : lo ≤ hi + 1)
    (below : ∀ i : Nat, (i : Int) < lo → c i < 0) (above : ∀ i : Nat, hi < i → i < n → 0 < c i) :
    match search c lo hi with
    | .inl m => m < n ∧ c m = 0
    | .inr k => k ≤ n ∧ (∀ i, i < k → c i < 0) ∧ ∀ i, k ≤ i → i < n → 0 < c i := by
  fun_induction search c lo hi with
  | case1 lo hi hlt mid hzero => exact ⟨by omega, hzero⟩
  | case2 lo hi hlt mid hne hneg ih =>
    refine ih (by omega) hhi (by omega) ?_ above
    intro i hi
    exact h.neg_of_le (by omega) hneg (by omega)
  | case3 lo hi hlt mid hne hneg ih =>
    refine ih hlo (by omega) (by omega) below ?_
    intro i hmid hi
    exact h.pos_of_le hi (show 0 < c mid.toNat by omega) (by omega)
  | case4 lo hi hlt =>
    refine ⟨by omega, fun i hi => below i (by omega), fun i hle hi => above i (by omega) hi⟩

theorem search_spec (h : Ascends c n) :
    match search c 0 (n - 1) with
    | .inl m => m < n ∧ c m = 0
    | .inr k => k ≤ n ∧ (∀ i, i < k → c i < 0) ∧ ∀ i, k ≤ i → i < n → 0 < c i :=
  search_between h 0 (n - 1) (Int.le_refl _) (by omega) (by omega) (fun i hi => by omega) fun i hlt hi => by omega

/-! ### A list by its keys -/

variable {α : Type} {key : α → Int} {xs : List α}

/-- Binary search between two indices, the second one excluded. -/
def find (key : α → Int) (xs : List α) (k : Int) : Nat → Nat → Nat → Option α
  | 0, _, _ => none
  | fuel + 1, lo, hi =>
    if lo < hi then
      let mid := (lo + hi) / 2
      match xs[mid]? with
      | none => none
      | some x => if key x = k then some x else if key x < k then find key xs k fuel (mid + 1) hi else find key xs k fuel lo mid
    else none

theorem find_some {k : Int} {x : α} {fuel lo hi : Nat} (h : find key xs k fuel lo hi = some x) : x ∈ xs ∧ key x = k := by
  induction fuel generalizing lo hi with
  | zero => cases h
  | succ fuel ih =>
    simp only [find] at h
    split at h
    · split at h
      · cases h
      · rename_i y hy
        split at h
        · rename_i hkey
          cases h
          exact ⟨List.mem_of_getElem? hy, hkey⟩
        · split at h
          · exact ih h
          · exact ih h
    · cases h

/-- Where the keys ascend, each item is found. -/
theorem find_mem (hasc : xs.Pairwise fun x y => key x < key y) {i : Nat} {x : α} (hx : xs[i]? = some x) {fuel lo hi : Nat}
    (hlo : lo ≤ i) (hhi : i < hi) (hlen : hi ≤ xs.length) (hfuel : hi < lo + fuel) :
    find key xs (key x) fuel lo hi = some x := by
  have hlt : ∀ {i j : Nat} {x y : α}, xs[i]? = some x → xs[j]? = some y → i < j → key x < key y := by
    intro i j x y hi hj hij
    obtain ⟨hilt, rfl⟩ := List.getElem?_eq_some_iff.mp hi
    obtain ⟨hjlt, rfl⟩ := List.getElem?_eq_some_iff.mp hj
    exact List.pairwise_iff_getElem.mp hasc i j hilt hjlt hij
  induction fuel generalizing lo hi with
  | zero => omega
  | succ fuel ih =>
    obtain ⟨y, hy⟩ : ∃ y, xs[(lo + hi) / 2]? = some y := ⟨_, List.getElem?_eq_getElem (by omega)⟩
    simp only [find]
    rw [if_pos (by omega), hy]
    simp only
    rcases Nat.lt_trichotomy i ((lo + hi) / 2) with hbelow | heq | habove
    · have := hlt hx hy hbelow
      rw [if_neg (by omega), if_neg (by omega)]
      exact ih hlo hbelow (by omega) (by omega)
    · rw [← heq, hx, Option.some.injEq] at hy
      subst hy
      rw [if_pos rfl]
    · have := hlt hy hx habove
      rw [if_neg (by omega), if_pos (by omega)]
      exact ih habove hhi hlen (by omega)

end Bisect
