import Mathlib.Tactic.Common

/-!
# Skynet.Lib.Outcome

Computations that return a result or an error.

* `Outcome Q E x` : the result of `x` satisfies `Q`, or its error satisfies `E`.
* `Outcome.bind`, `Outcome.foldlM` : the rules for a sequence and for a loop over a list, whose
  invariant speaks of the part of the list that is done.
-/

universe u v

variable {α β : Type u} {ε : Type v}

def Outcome (Q : α → Prop) (E : ε → Prop) : Except ε α → Prop
  | .ok a => Q a
  | .error e => E e

namespace Outcome

variable {Q Q' : α → Prop} {R : β → Prop} {E E' : ε → Prop} {x : Except ε α}

theorem imp (h : Outcome Q E x) (hQ : ∀ a, Q a → Q' a) (hE : ∀ e, E e → E' e) : Outcome Q' E' x := by
  cases x with
  | ok a => exact hQ a h
  | error e => exact hE e h

theorem mono (h : Outcome Q E x) (hQ : ∀ a, Q a → Q' a) : Outcome Q' E x := h.imp hQ fun _ he => he

theorem of_ok {a : α} (h : Outcome Q E x) (hx : x = .ok a) : Q a := by
  rw [hx] at h
  exact h

theorem of_error {e : ε} (h : Outcome Q E x) (hx : x = .error e) : E e := by
  rw [hx] at h
  exact h

theorem bind_eq {f : α → Except ε β} (h : Outcome Q E x) (hf : ∀ a, x = .ok a → Q a → Outcome R E (f a)) :
    Outcome R E (x >>= f) := by
  cases x with
  | ok a => exact hf a rfl h
  | error e => exact h

theorem bind {f : α → Except ε β} (h : Outcome Q E x) (hf : ∀ a, Q a → Outcome R E (f a)) : Outcome R E (x >>= f) :=
  h.bind_eq fun a _ ha => hf a ha

/-- A sequence has a result when its parts have. -/
theorem ok_of_bind {f : α → Except ε β} {b : β} (h : x >>= f = .ok b) : ∃ a, x = .ok a ∧ f a = .ok b := by
  cases x with
  | error e => cases h
  | ok a => exact ⟨a, rfl, h⟩

/-- The invariant is of what is done and what is at hand. -/
theorem foldlM {as : List α} {f : β → α → Except ε β} {b : β} (I : List α → β → Prop) (hstart : I [] b)
    (hstep : ∀ done a rest b, as = done ++ a :: rest → I done b → Outcome (I (done ++ [a])) E (f b a)) :
    Outcome (I as) E (as.foldlM f b) := by
  have hloop : ∀ rest done b, as = done ++ rest → I done b → Outcome (I as) E (rest.foldlM f b) := by
    intro rest
    induction rest with
    | nil =>
      intro done b has hb
      rw [has, List.append_nil]
      exact hb
    | cons a rest ih =>
      intro done b has hb
      rw [List.foldlM_cons]
      refine Outcome.bind (hstep done a rest b has hb) fun b hb => ?_
      exact ih (done ++ [a]) b (by rw [has, List.append_assoc]; rfl) hb
  exact hloop as [] b rfl hstart

end Outcome
