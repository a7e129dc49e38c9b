import Mathlib.Data.List.Basic
import Mathlib.Tactic.Common

/-!
# Skynet.Lib.Feistel

Feistel networks: two halves, one of which is changed by a function of the other in each round.

* `run_reverse_swap` : the rounds in the reverse order, on the halves in the other places, lead back.
-/

namespace Feistel

variable {α : Type*} (op : α → α → α)

def round (f : α → α) (s : α × α) : α × α := (s.2, op s.1 (f s.2))

def run : List (α → α) → α × α → α × α
  | [], s => s
  | f :: fs, s => run fs (round op f s)

@[simp] theorem run_nil (s : α × α) : run op [] s = s := rfl

@[simp] theorem run_cons (f : α → α) (fs : List (α → α)) (s : α × α) : run op (f :: fs) s = run op fs (round op f s) :=
  rfl

theorem run_append (fs gs : List (α → α)) (s : α × α) : run op (fs ++ gs) s = run op gs (run op fs s) := by
  induction fs generalizing s with
  | nil => rfl
  | cons f fs ih => simp [ih]

variable {op}

/-- A round leads back from its result when the halves change places before and after. -/
theorem round_swap (hop : ∀ x y, op (op x y) y = x) (f : α → α) (s : α × α) :
    round op f ((round op f s).2, (round op f s).1) = (s.2, s.1) := by
  simp [round, hop]

theorem run_reverse_swap (hop : ∀ x y, op (op x y) y = x) (fs : List (α → α)) (s : α × α) :
    run op fs.reverse ((run op fs s).2, (run op fs s).1) = (s.2, s.1) := by
  induction fs generalizing s with
  | nil => rfl
  | cons f fs ih => simp [run_append, ih, round_swap hop]

end Feistel
