import Mathlib.Data.List.Basic
import Mathlib.Logic.Function.Basic

/-!
# Skynet.Lib.Ring

A ring buffer that grows: `head` is the first item, `tail` the first free slot, and the ring is
unrolled into a larger one as soon as the last slot is taken.

* `Holds r xs` : the items of `r`, from `head` on, are `xs`.
* `push_holds` : pushing appends, whatever the position of the wrap and the new size.
* `write_holds`, `unroll_holds` : the parts of a push, for rings that grow before they are written.
* `pop_holds`  : popping takes the first item, and finds none only when there is none.
-/

structure RingBuf (α : Type*) where
  cap : Nat
  head : Nat
  tail : Nat
  slots : Nat → α

namespace RingBuf

variable {α : Type*}

/-- The slot after `i`. -/
def advance (cap i : Nat) : Nat := if cap ≤ i + 1 then 0 else i + 1

/-- The items of a full ring, moved to the front of a ring of `cap` slots. -/
def expand (r : RingBuf α) (cap : Nat) : RingBuf α :=
  { cap := cap, head := 0, tail := r.cap, slots := fun i => r.slots ((r.head + i) % r.cap) }

def push (grow : Nat → Nat) (r : RingBuf α) (x : α) : RingBuf α :=
  let r' := { r with slots := Function.update r.slots r.tail x, tail := advance r.cap r.tail }
  if r'.head = r'.tail then expand r' (grow r.cap) else r'

def pop (r : RingBuf α) : Option (α × RingBuf α) :=
  if r.head = r.tail then none
  else some (r.slots r.head, { r with head := advance r.cap r.head })

structure Holds (r : RingBuf α) (xs : List α) : Prop where
  head_lt : r.head < r.cap
  length_lt : xs.length < r.cap
  tail_eq : r.tail = (r.head + xs.length) % r.cap
  slots_eq : ∀ i, (h : i < xs.length) → r.slots ((r.head + i) % r.cap) = xs.get ⟨i, h⟩

/-- A position in a ring, with the wrap written out. -/
theorem mod_eq {cap h i : Nat} (hh : h < cap) (hi : i ≤ cap) :
    (h + i) % cap = if h + i < cap then h + i else h + i - cap := by
  split
  · rename_i hlt; exact Nat.mod_eq_of_lt hlt
  · rename_i hge
    rw [Nat.mod_eq_sub_mod (by omega), Nat.mod_eq_of_lt (by omega)]

theorem mod_inj {cap h i j : Nat} (hh : h < cap) (hi : i < cap) (hj : j < cap) (hne : i ≠ j) :
    (h + i) % cap ≠ (h + j) % cap := by
  rw [mod_eq hh (Nat.le_of_lt hi), mod_eq hh (Nat.le_of_lt hj)]
  split <;> split <;> omega

theorem advance_mod {cap h i : Nat} (hh : h < cap) (hi : i < cap) :
    advance cap ((h + i) % cap) = (h + (i + 1)) % cap := by
  rw [mod_eq hh (Nat.le_of_lt hi), mod_eq hh hi, advance]
  split <;> split <;> split <;> omega

theorem advance_eq {cap h : Nat} (hh : h < cap) : advance cap h = (h + 1) % cap := by
  have := advance_mod (i := 0) hh (by omega)
  rwa [Nat.add_zero, Nat.mod_eq_of_lt hh] at this

theorem advance_lt {cap h : Nat} (hh : h < cap) : advance cap h < cap := by
  rw [advance]; split <;> omega

theorem head_eq_tail_iff {r : RingBuf α} {xs : List α} (h : Holds r xs) : r.head = r.tail ↔ xs = [] := by
  rw [h.tail_eq, mod_eq h.head_lt (Nat.le_of_lt h.length_lt), ← List.length_eq_zero_iff]
  have := h.length_lt
  have := h.head_lt
  split <;> omega

theorem empty_holds {cap : Nat} (hcap : 0 < cap) (slots : Nat → α) :
    Holds { cap := cap, head := 0, tail := 0, slots := slots } [] where
  head_lt := hcap
  length_lt := hcap
  tail_eq := by simp
  slots_eq := by intro i h; cases h

/-- The items, with one more behind them in the slot `tail`. -/
theorem write_slots {r : RingBuf α} {xs : List α} (h : Holds r xs) (x : α) (i : Nat) (hi : i < (xs ++ [x]).length) :
    Function.update r.slots r.tail x ((r.head + i) % r.cap) = (xs ++ [x]).get ⟨i, hi⟩ := by
  have hl := h.length_lt
  rw [List.length_append, List.length_singleton] at hi
  by_cases hlast : i = xs.length
  · subst hlast
    rw [← h.tail_eq, Function.update_self]
    simp
  · have hi' : i < xs.length := by omega
    rw [h.tail_eq, Function.update_of_ne (mod_inj h.head_lt (by omega) hl hlast), h.slots_eq i hi']
    simp [List.getElem_append_left hi']

theorem advance_tail {r : RingBuf α} {xs : List α} (h : Holds r xs) :
    advance r.cap r.tail = (r.head + (xs.length + 1)) % r.cap := by
  rw [h.tail_eq, advance_mod h.head_lt h.length_lt]

/-- Writing to `tail` appends, as long as a slot stays free. -/
theorem write_holds {r : RingBuf α} {xs : List α} (h : Holds r xs) (hroom : xs.length + 1 < r.cap) (x : α) :
    Holds { r with slots := Function.update r.slots r.tail x, tail := advance r.cap r.tail } (xs ++ [x]) where
  head_lt := h.head_lt
  length_lt := by rw [List.length_append]; exact hroom
  tail_eq := by rw [List.length_append]; exact advance_tail h
  slots_eq := write_slots h x

/-- The slot behind `tail` is `head` when only one slot is free. -/
theorem advance_tail_eq_head_iff {r : RingBuf α} {xs : List α} (h : Holds r xs) :
    advance r.cap r.tail = r.head ↔ xs.length + 1 = r.cap := by
  have hh := h.head_lt
  have hl := h.length_lt
  rw [advance_tail h, mod_eq hh hl]
  split <;> omega

/-- The items moved to the front of other slots. -/
theorem unroll_holds {r : RingBuf α} {xs : List α} (h : Holds r xs) {cap : Nat} (hcap : xs.length < cap)
    {slots : Nat → α} (hslots : ∀ i < xs.length, slots i = r.slots ((r.head + i) % r.cap)) :
    Holds { cap := cap, head := 0, tail := xs.length, slots := slots } xs where
  head_lt := by simp only; omega
  length_lt := hcap
  tail_eq := by simp only [Nat.zero_add]; rw [Nat.mod_eq_of_lt hcap]
  slots_eq := by
    intro i hi
    simp only [Nat.zero_add]
    rw [Nat.mod_eq_of_lt (by omega), hslots i hi, h.slots_eq i hi]

theorem push_holds (grow : Nat → Nat) {r : RingBuf α} {xs : List α} (h : Holds r xs)
    (hgrow : r.cap < grow r.cap) (x : α) : Holds (push grow r x) (xs ++ [x]) := by
  have hl := h.length_lt
  simp only [push]
  split
  -- the last slot was taken: the items fill the old ring, from `head` all around
  · rename_i hfull
    have hlen := (advance_tail_eq_head_iff h).mp hfull.symm
    refine ⟨?_, ?_, ?_, ?_⟩
    · simp only [expand]; omega
    · simp only [expand, List.length_append, List.length_singleton]; omega
    · simp only [expand, List.length_append, List.length_singleton, Nat.zero_add]
      rw [Nat.mod_eq_of_lt (by omega), hlen]
    · intro i hi
      have hi' : i < grow r.cap := by
        rw [List.length_append, List.length_singleton] at hi; omega
      simp only [expand, Nat.zero_add, Nat.mod_eq_of_lt hi']
      exact write_slots h x i hi
  · rename_i hroom
    have hne := mt (advance_tail_eq_head_iff h).mpr (Ne.symm hroom)
    exact write_holds h (by omega) x

theorem pop_none {r : RingBuf α} (h : Holds r []) : pop r = none := by
  rw [pop, if_pos ((head_eq_tail_iff h).mpr rfl)]

theorem pop_holds {r : RingBuf α} {x : α} {xs : List α} (h : Holds r (x :: xs)) :
    ∃ r', pop r = some (x, r') ∧ r'.cap = r.cap ∧ Holds r' xs := by
  have hh := h.head_lt
  have hl := h.length_lt
  rw [List.length_cons] at hl
  have hfirst : r.slots r.head = x := by
    have := h.slots_eq 0 (by simp)
    rwa [Nat.add_zero, Nat.mod_eq_of_lt hh] at this
  have hadv : ∀ i, (advance r.cap r.head + i) % r.cap = (r.head + (i + 1)) % r.cap := by
    intro i
    rw [advance_eq hh, Nat.mod_add_mod, Nat.add_assoc, Nat.add_comm 1 i]
  refine ⟨{ r with head := advance r.cap r.head }, ?_, rfl, advance_lt hh, ?_, ?_, ?_⟩
  · rw [pop, if_neg, hfirst]
    intro heq
    exact List.cons_ne_nil _ _ ((head_eq_tail_iff h).mp heq)
  · simp only; omega
  · simp only [hadv]; exact h.tail_eq
  · intro i hi
    simp only [hadv]
    exact h.slots_eq (i + 1) (by simp; omega)

end RingBuf
