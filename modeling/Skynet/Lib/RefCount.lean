import Mathlib.Logic.Function.Basic
import Mathlib.Data.List.Nodup

/-!
# Skynet.Lib.RefCount

Cells with a reference count, at addresses that are used again. Grabbing or releasing at an address that
is not allocated is a fault, so "no fault" says that nothing is used after it was freed or freed twice.

* `Counted h holders` : the count of every cell is the number of its holders, and no cell is without one.
* `Owned h created` : every value is in one place, a cell or the values freed.
* `alloc`, `grab`, `release` keep both.
-/

namespace RefCount

variable {α : Type*}

structure Cell (α : Type*) where
  count : Int
  val : α

/-- The cells, the values of those that were freed, and whether there was a fault. -/
structure Heap (α : Type*) where
  cell : Nat → Option (Cell α)
  freed : List α
  fault : Bool

namespace Heap

def empty : Heap α := ⟨fun _ => none, [], false⟩

def alloc (h : Heap α) (a : Nat) (v : α) : Heap α := { h with cell := Function.update h.cell a (some ⟨1, v⟩) }

def grab (h : Heap α) (a : Nat) : Heap α :=
  match h.cell a with
  | none => { h with fault := true }
  | some c => { h with cell := Function.update h.cell a (some { c with count := c.count + 1 }) }

/-- The cell is freed when its count comes to 0. -/
def release (h : Heap α) (a : Nat) : Heap α :=
  match h.cell a with
  | none => { h with fault := true }
  | some c =>
    if c.count - 1 = 0 then { h with cell := Function.update h.cell a none, freed := c.val :: h.freed }
    else { h with cell := Function.update h.cell a (some { c with count := c.count - 1 }) }

/-- The value at an address. -/
def val (h : Heap α) (a : Nat) : Option α := (h.cell a).map Cell.val

end Heap

open Heap

structure Counted (h : Heap α) (holders : Nat → Nat) : Prop where
  fault : h.fault = false
  count : ∀ a c, h.cell a = some c → c.count = holders a ∧ 0 < holders a
  held : ∀ a, 0 < holders a → (h.cell a).isSome

structure Owned (h : Heap α) (created : α → Prop) : Prop where
  place : ∀ v, created v ↔ v ∈ h.freed ∨ ∃ a, h.val a = some v
  nodup : h.freed.Nodup
  apart : ∀ a v, h.val a = some v → v ∉ h.freed
  inj : ∀ a b v, h.val a = some v → h.val b = some v → a = b

variable {h : Heap α} {holders holders' : Nat → Nat} {created : α → Prop} {a b : Nat} {v : α}

theorem Counted.val_isSome (hc : Counted h holders) (ha : 0 < holders a) : ∃ v, h.val a = some v := by
  obtain ⟨c, hcell⟩ := Option.isSome_iff_exists.mp (hc.held a ha)
  exact ⟨c.val, by rw [val, hcell]; rfl⟩

theorem Counted.of_val (hc : Counted h holders) (hv : h.val a = some v) : 0 < holders a := by
  obtain ⟨c, hcell, _⟩ := Option.map_eq_some_iff.mp hv
  exact (hc.count a c hcell).2

/-- A cell at an address of its own, with one holder. -/
theorem Counted.alloc (hc : Counted h holders) (hfree : h.cell a = none) (v : α)
    (hat : holders' a = holders a + 1) (hother : ∀ b, b ≠ a → holders' b = holders b) :
    Counted (h.alloc a v) holders' where
  fault := hc.fault
  count b c hcell := by
    simp only [Heap.alloc] at hcell
    by_cases hb : b = a
    · subst hb
      rw [Function.update_self] at hcell
      have hzero : holders b = 0 := by
        by_contra hne
        have := hc.held b (Nat.pos_of_ne_zero hne)
        rw [hfree] at this
        cases this
      rw [← Option.some.inj hcell, hat, hzero]
      exact ⟨rfl, Nat.one_pos⟩
    · rw [Function.update_of_ne hb] at hcell
      rw [hother b hb]
      exact hc.count b c hcell
  held b hb := by
    simp only [Heap.alloc]
    by_cases hb' : b = a
    · rw [hb', Function.update_self]
      rfl
    · rw [Function.update_of_ne hb']
      exact hc.held b (by rwa [hother b hb'] at hb)

/-- One more holder of a cell that has one. -/
theorem Counted.grab (hc : Counted h holders) (ha : 0 < holders a)
    (hat : holders' a = holders a + 1) (hother : ∀ b, b ≠ a → holders' b = holders b) :
    Counted (h.grab a) holders' := by
  obtain ⟨c, hcell⟩ := Option.isSome_iff_exists.mp (hc.held a ha)
  have hgrab : h.grab a = { h with cell := Function.update h.cell a (some { c with count := c.count + 1 }) } := by
    rw [Heap.grab, hcell]
  rw [hgrab]
  refine ⟨hc.fault, fun b d hd => ?_, fun b hb => ?_⟩
  · by_cases hb : b = a
    · subst hb
      simp only [Function.update_self, Option.some.injEq] at hd
      rw [← hd, hat]
      refine ⟨?_, Nat.succ_pos _⟩
      simp only [(hc.count b c hcell).1]
      omega
    · simp only [Function.update_of_ne hb] at hd
      rw [hother b hb]
      exact hc.count b d hd
  · by_cases hb' : b = a
    · simp only [hb', Function.update_self]
      rfl
    · simp only [Function.update_of_ne hb']
      exact hc.held b (by rwa [hother b hb'] at hb)

/-- A holder fewer; without holders the cell is freed. -/
theorem Counted.release (hc : Counted h holders) (ha : 0 < holders a)
    (hat : holders' a + 1 = holders a) (hother : ∀ b, b ≠ a → holders' b = holders b) :
    Counted (h.release a) holders' := by
  obtain ⟨c, hcell⟩ := Option.isSome_iff_exists.mp (hc.held a ha)
  have hcount := (hc.count a c hcell).1
  simp only [Heap.release, hcell]
  split
  · rename_i hlast
    refine ⟨hc.fault, fun b d hd => ?_, fun b hb => ?_⟩
    · by_cases hb : b = a
      · simp only [hb, Function.update_self] at hd
        cases hd
      · simp only [Function.update_of_ne hb] at hd
        rw [hother b hb]
        exact hc.count b d hd
    · have hb' : b ≠ a := by
        rintro rfl
        omega
      simp only [Function.update_of_ne hb']
      exact hc.held b (by rwa [hother b hb'] at hb)
  · rename_i hmore
    refine ⟨hc.fault, fun b d hd => ?_, fun b hb => ?_⟩
    · by_cases hb : b = a
      · subst hb
        simp only [Function.update_self, Option.some.injEq] at hd
        rw [← hd]
        simp only
        omega
      · simp only [Function.update_of_ne hb] at hd
        rw [hother b hb]
        exact hc.count b d hd
    · by_cases hb' : b = a
      · simp only [hb', Function.update_self]
        rfl
      · simp only [Function.update_of_ne hb']
        exact hc.held b (by rwa [hother b hb'] at hb)

/-! ### Values -/

theorem val_alloc (h : Heap α) (a b : Nat) (v : α) : (h.alloc a v).val b = if b = a then some v else h.val b := by
  simp only [val, alloc]
  by_cases hb : b = a
  · rw [if_pos hb, hb, Function.update_self]
    rfl
  · rw [if_neg hb, Function.update_of_ne hb]

theorem val_grab (h : Heap α) (a b : Nat) : (h.grab a).val b = h.val b := by
  simp only [val, grab]
  cases hcell : h.cell a with
  | none => rfl
  | some c =>
    by_cases hb : b = a
    · simp only [hb, Function.update_self, hcell]
      rfl
    · simp only [Function.update_of_ne hb]

theorem freed_grab (h : Heap α) (a : Nat) : (h.grab a).freed = h.freed := by
  simp only [grab]
  split <;> rfl

/-- A release frees the value of its cell, or changes no value. -/
theorem release_cases (h : Heap α) (a : Nat) :
    (∃ v, h.val a = some v ∧ (h.release a).freed = v :: h.freed ∧
      ∀ b, (h.release a).val b = if b = a then none else h.val b) ∨
    ((h.release a).freed = h.freed ∧ ∀ b, (h.release a).val b = h.val b) := by
  cases hcell : h.cell a with
  | none =>
    have hsame : h.release a = { h with fault := true } := by rw [release, hcell]
    rw [hsame]
    exact .inr ⟨rfl, fun _ => rfl⟩
  | some c =>
    simp only [release, hcell]
    split
    · refine .inl ⟨c.val, by rw [val, hcell]; rfl, rfl, fun b => ?_⟩
      simp only [val]
      by_cases hb : b = a
      · rw [if_pos hb, hb, Function.update_self]
        rfl
      · rw [if_neg hb, Function.update_of_ne hb]
    · refine .inr ⟨rfl, fun b => ?_⟩
      simp only [val]
      by_cases hb : b = a
      · rw [hb, Function.update_self, hcell]
        rfl
      · rw [Function.update_of_ne hb]

/-- The value of a cell that has another holder stays. -/
theorem Counted.val_release (hc : Counted h holders) (hb : b ≠ a ∨ 1 < holders a) : (h.release a).val b = h.val b := by
  cases hcell : h.cell a with
  | none => simp only [Heap.release, hcell]; rfl
  | some c =>
    have hcount := (hc.count a c hcell).1
    simp only [Heap.release, hcell, val]
    by_cases hba : b = a
    · have hmore : ¬c.count - 1 = 0 := by
        have := hb.resolve_left (fun hne => hne hba)
        omega
      rw [if_neg hmore, hba, hcell]
      simp only [Function.update_self]
      rfl
    · split <;> simp only [Function.update_of_ne hba]

theorem Owned.alloc {created' : α → Prop} (ho : Owned h created) (hfree : h.cell a = none) (hnew : ¬created v)
    (hc : ∀ u, created' u ↔ created u ∨ u = v) : Owned (h.alloc a v) created' := by
  have hval : h.val a = none := by rw [val, hfree]; rfl
  have hnotFreed : v ∉ h.freed := fun hv => hnew ((ho.place v).mpr (.inl hv))
  have hnowhere : ∀ b, h.val b ≠ some v := fun b hb => hnew ((ho.place v).mpr (.inr ⟨b, hb⟩))
  refine ⟨fun u => ?_, ho.nodup, fun b u hb => ?_, fun b c u hb hcu => ?_⟩
  · rw [hc, ho.place]
    constructor
    · rintro ((hfreed | ⟨b, hb⟩) | rfl)
      · exact .inl hfreed
      · have hne : b ≠ a := by rintro rfl; rw [hval] at hb; cases hb
        exact .inr ⟨b, by rw [val_alloc, if_neg hne]; exact hb⟩
      · exact .inr ⟨a, by rw [val_alloc, if_pos rfl]⟩
    · rintro (hfreed | ⟨b, hb⟩)
      · exact .inl (.inl hfreed)
      · rw [val_alloc] at hb
        split at hb
        · exact .inr (Option.some.inj hb).symm
        · exact .inl (.inr ⟨b, hb⟩)
  · rw [val_alloc] at hb
    split at hb
    · rw [← Option.some.inj hb]
      exact hnotFreed
    · exact ho.apart b u hb
  · rw [val_alloc] at hb hcu
    split at hb
    · rename_i hba
      split at hcu
      · rename_i hca
        rw [hba, hca]
      · rw [← Option.some.inj hb] at hcu
        exact absurd hcu (hnowhere c)
    · split at hcu
      · rw [← Option.some.inj hcu] at hb
        exact absurd hb (hnowhere b)
      · exact ho.inj b c u hb hcu

theorem Owned.congr {h' : Heap α} (ho : Owned h created) (hfreed : h'.freed = h.freed) (hval : ∀ b, h'.val b = h.val b) :
    Owned h' created where
  place := by simp only [hfreed, hval]; exact ho.place
  nodup := by rw [hfreed]; exact ho.nodup
  apart := by simp only [hfreed, hval]; exact ho.apart
  inj := by simp only [hval]; exact ho.inj

theorem Owned.grab (ho : Owned h created) (a : Nat) : Owned (h.grab a) created :=
  ho.congr (freed_grab h a) (val_grab h a)

theorem Owned.release (ho : Owned h created) (a : Nat) : Owned (h.release a) created := by
  rcases release_cases h a with ⟨v, hv, hfreed, hval⟩ | ⟨hfreed, hval⟩
  · refine ⟨fun u => ?_, ?_, fun b u hb => ?_, fun b c u hb hc => ?_⟩
    · rw [ho.place, hfreed, List.mem_cons]
      constructor
      · rintro (hu | ⟨b, hb⟩)
        · exact .inl (.inr hu)
        · by_cases hba : b = a
          · rw [hba, hv] at hb
            exact .inl (.inl (Option.some.inj hb).symm)
          · exact .inr ⟨b, by rw [hval, if_neg hba]; exact hb⟩
      · rintro ((rfl | hu) | ⟨b, hb⟩)
        · exact .inr ⟨a, hv⟩
        · exact .inl hu
        · rw [hval] at hb
          split at hb
          · cases hb
          · exact .inr ⟨b, hb⟩
    · rw [hfreed, List.nodup_cons]
      exact ⟨ho.apart a v hv, ho.nodup⟩
    · rw [hval] at hb
      split at hb
      · cases hb
      · rename_i hba
        rw [hfreed, List.mem_cons]
        rintro (rfl | hu)
        · exact hba (ho.inj b a u hb hv)
        · exact ho.apart b u hb hu
    · rw [hval] at hb hc
      split at hb
      · cases hb
      · split at hc
        · cases hc
        · exact ho.inj b c u hb hc
  · exact ho.congr hfreed hval

end RefCount
