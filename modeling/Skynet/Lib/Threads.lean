import Mathlib.Algebra.Ring.Int.Defs
import Mathlib.Algebra.Ring.Nat
import Mathlib.Data.List.Basic

/-!
# Skynet.Lib.Threads

Threads that carry out a list of operations each. The first operation of a list is the next step of its thread; it may
put further ones before the rest. What the pending operations stand for (a lock, a reference) is counted over all
threads.

* `sumOf f as` : the sum of `f` over a list; `sumOf_set` is a change at one place.
* `total f ts` : the sum of `f` over all pending operations.
* `total_set` : what a step of one thread changes.
* `total_append` : a new thread.
* `collect` : what the pending operations carry, thread by thread.
-/

namespace Threads

variable {α : Type*} {f : α → Nat} {as : List α} {ts : List (List α)} {i : Nat} {a b q : α} {rest : List α}

/-- 1 for the number itself. -/
def one (a b : Nat) : Nat := if a = b then 1 else 0

@[simp] theorem one_self (a : Nat) : one a a = 1 := if_pos rfl

theorem one_of_ne {a b : Nat} (h : a ≠ b) : one a b = 0 := if_neg h

def sumOf (f : α → Nat) (as : List α) : Nat := (as.map f).sum

@[simp] theorem sumOf_nil (f : α → Nat) : sumOf f [] = 0 := rfl

@[simp] theorem sumOf_cons (f : α → Nat) (a : α) (as : List α) : sumOf f (a :: as) = f a + sumOf f as := by
  rw [sumOf, List.map_cons, List.sum_cons, sumOf]

@[simp] theorem sumOf_append (f : α → Nat) (as bs : List α) : sumOf f (as ++ bs) = sumOf f as + sumOf f bs := by
  rw [sumOf, List.map_append, List.sum_append, sumOf, sumOf]

theorem sumOf_eq_zero : sumOf f as = 0 ↔ ∀ a ∈ as, f a = 0 := by
  induction as with
  | nil => exact iff_of_true rfl fun a ha => by cases ha
  | cons a as ih => rw [sumOf_cons, Nat.add_eq_zero_iff, ih, List.forall_mem_cons]

theorem le_sumOf (f : α → Nat) (h : a ∈ as) : f a ≤ sumOf f as := by
  induction as with
  | nil => cases h
  | cons c as ih =>
    rw [sumOf_cons]
    rcases List.mem_cons.mp h with rfl | h
    · omega
    · have := ih h
      omega

theorem sumOf_set (f : α → Nat) (h : as[i]? = some a) (b : α) : sumOf f (as.set i b) + f a = sumOf f as + f b := by
  induction as generalizing i with
  | nil => cases h
  | cons c as ih =>
    cases i with
    | zero =>
      cases h
      simp only [List.set_cons_zero, sumOf_cons]
      omega
    | succ i =>
      rw [List.getElem?_cons_succ] at h
      have hset := ih h
      simp only [List.set_cons_succ, sumOf_cons]
      omega

/-- After a change at one place, a member is the new one, or was there beside the old one. -/
theorem mem_set_cases (h : as[i]? = some a) (hq : q ∈ as.set i b) : q = b ∨ q ∈ as ∧ ∀ f : α → Nat, f a + f q ≤ sumOf f as := by
  induction as generalizing i with
  | nil => cases h
  | cons c as ih =>
    cases i with
    | zero =>
      cases h
      rcases List.mem_cons.mp hq with rfl | hq
      · exact .inl rfl
      · refine .inr ⟨List.mem_cons_of_mem _ hq, fun f => ?_⟩
        have := le_sumOf f hq
        rw [sumOf_cons]
        omega
    | succ i =>
      rw [List.getElem?_cons_succ] at h
      rcases List.mem_cons.mp hq with rfl | hq
      · refine .inr ⟨List.mem_cons_self .., fun f => ?_⟩
        have := le_sumOf f (List.mem_of_getElem? h)
        rw [sumOf_cons]
        omega
      · rcases ih h hq with rfl | ⟨hmem, hle⟩
        · exact .inl rfl
        · refine .inr ⟨List.mem_cons_of_mem _ hmem, fun f => ?_⟩
          have := hle f
          rw [sumOf_cons]
          omega

def total (f : α → Nat) (ts : List (List α)) : Nat := sumOf (sumOf f) ts

theorem total_append (f : α → Nat) (ts : List (List α)) (as : List α) : total f (ts ++ [as]) = total f ts + sumOf f as := by
  rw [total, sumOf_append, sumOf_cons, sumOf_nil, Nat.add_zero, total]

/-- The first operation of a thread is carried out. -/
theorem total_set (f : α → Nat) (h : ts[i]? = some (a :: rest)) (new : List α) :
    total f (ts.set i (new ++ rest)) + f a = total f ts + sumOf f new := by
  have hset := sumOf_set (sumOf f) h (new ++ rest)
  rw [sumOf_cons, sumOf_append] at hset
  rw [total, total]
  omega

theorem sumOf_add {g k : α → Nat} (h : ∀ a, f a = g a + k a) (as : List α) : sumOf f as = sumOf g as + sumOf k as := by
  induction as with
  | nil => rfl
  | cons a as ih =>
    rw [sumOf_cons, sumOf_cons, sumOf_cons, ih, h]
    omega

theorem total_add {g k : α → Nat} (h : ∀ a, f a = g a + k a) (ts : List (List α)) : total f ts = total g ts + total k ts :=
  sumOf_add (sumOf_add h) ts

theorem total_mono {g : α → Nat} (h : ∀ a, f a ≤ g a) (ts : List (List α)) : total f ts ≤ total g ts := by
  have hsum := total_add (k := fun a => g a - f a) (fun a => (Nat.add_sub_of_le (h a)).symm) ts
  omega

/-- A pending operation is counted. -/
theorem le_total (f : α → Nat) (h : ts[i]? = some (a :: rest)) : f a ≤ total f ts := by
  have hset := total_set f h []
  rw [sumOf_nil] at hset
  omega

theorem le_total_mem (f : α → Nat) (hts : as ∈ ts) (ha : a ∈ as) : f a ≤ total f ts :=
  Nat.le_trans (le_sumOf f ha) (le_sumOf (sumOf f) hts)

/-! ### What the pending operations carry -/

variable {β : Type*} {f : α → List β} {g : α → Nat} {new : List α}

def collect (f : α → List β) (ts : List (List α)) : List β := ts.flatMap (List.flatMap f)

theorem collect_append (ts us : List (List α)) : collect f (ts ++ us) = collect f ts ++ collect f us :=
  List.flatMap_append

theorem collect_eq_nil (hg : ∀ a, g a = 0 → f a = []) (h : total g ts = 0) : collect f ts = [] := by
  rw [collect, List.flatMap_eq_nil_iff]
  intro t ht
  rw [List.flatMap_eq_nil_iff]
  intro a ha
  exact hg a (sumOf_eq_zero.mp (sumOf_eq_zero.mp h t ht) a ha)

theorem collect_set (h : i < ts.length) (as : List α) :
    collect f (ts.set i as) = collect f (ts.take i) ++ as.flatMap f ++ collect f (ts.drop (i + 1)) := by
  rw [collect, List.set_eq_take_append_cons_drop, if_pos h, List.flatMap_append, List.flatMap_cons, collect, collect,
    List.append_assoc]

theorem collect_self (h : ts[i]? = some as) :
    collect f ts = collect f (ts.take i) ++ as.flatMap f ++ collect f (ts.drop (i + 1)) := by
  obtain ⟨hlt, rfl⟩ := List.getElem?_eq_some_iff.mp h
  have hset := collect_set (f := f) hlt (ts.get ⟨i, hlt⟩)
  rwa [List.get_eq_getElem, List.set_getElem_self] at hset

/-- The first operation of a thread carries nothing, and those that replace it. -/
theorem collect_set_nil (h : ts[i]? = some (a :: rest)) (ha : f a = []) (hnew : new.flatMap f = []) :
    collect f (ts.set i (new ++ rest)) = collect f ts := by
  have hlt := (List.getElem?_eq_some_iff.mp h).1
  rw [collect_set hlt, collect_self h, List.flatMap_append, List.flatMap_cons, ha, hnew]

/-- Only the first operation of a thread is counted, so that what is carried is carried by it. -/
theorem collect_only (hg : ∀ a, g a = 0 → f a = []) (h : ts[i]? = some (a :: rest)) (hone : total g ts ≤ g a)
    (new : List α) : collect f ts = f a ∧ collect f (ts.set i (new ++ rest)) = new.flatMap f := by
  have hlt := (List.getElem?_eq_some_iff.mp h).1
  have hset := total_set g h []
  rw [sumOf_nil, Nat.add_zero, List.nil_append] at hset
  have hnil : collect f (ts.set i rest) = [] := collect_eq_nil hg (by omega)
  rw [collect_set hlt] at hnil
  obtain ⟨hbefore, hafter⟩ := List.append_eq_nil_iff.mp hnil
  obtain ⟨htake, hrest⟩ := List.append_eq_nil_iff.mp hbefore
  rw [collect_self h, collect_set hlt, List.flatMap_cons, List.flatMap_append, htake, hrest, hafter]
  simp only [List.nil_append, List.append_nil, and_self]

end Threads
