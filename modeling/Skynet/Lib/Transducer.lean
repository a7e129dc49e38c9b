import Mathlib.Data.List.Basic
import Mathlib.Data.Option.Basic

/-!
# Skynet.Lib.Transducer

Machines that answer every input with a list of outputs.

* `run` : a machine that can fail, on a list of inputs. The result has each input with its answer.
* `trace` : the same for a machine that has an answer to everything.
* `Allowed` : every input satisfies a guard in the state that it comes in.
* `run_eq_trace` : what refines the total machine in one step does so in every run.
-/

namespace Transducer

variable {σ τ ε ο : Type*}

def run (step : σ → ε → Option (σ × List ο)) : σ → List ε → Option (σ × List (ε × List ο))
  | s, [] => some (s, [])
  | s, e :: es => (step s e).bind fun r => (run step r.1 es).map fun u => (u.1, (e, r.2) :: u.2)

def trace (step : τ → ε → τ × List ο) : τ → List ε → τ × List (ε × List ο)
  | t, [] => (t, [])
  | t, e :: es => ((trace step (step t e).1 es).1, (e, (step t e).2) :: (trace step (step t e).1 es).2)

def Allowed (step : τ → ε → τ × List ο) (guard : τ → ε → Prop) : τ → List ε → Prop
  | _, [] => True
  | t, e :: es => guard t e ∧ Allowed step guard (step t e).1 es

section Total

variable {step : τ → ε → τ × List ο} {guard : τ → ε → Prop}

@[simp] theorem trace_nil (t : τ) : trace step t [] = (t, []) := rfl

@[simp] theorem trace_cons (t : τ) (e : ε) (es : List ε) : trace step t (e :: es) =
    ((trace step (step t e).1 es).1, (e, (step t e).2) :: (trace step (step t e).1 es).2) := rfl

theorem allowed_append {t : τ} {es fs : List ε} :
    Allowed step guard t (es ++ fs) ↔ Allowed step guard t es ∧ Allowed step guard (trace step t es).1 fs := by
  induction es generalizing t with
  | nil => simp [Allowed]
  | cons e es ih => simp only [List.cons_append, Allowed, ih, trace_cons, and_assoc]

/-- What one allowed step keeps. -/
theorem trace_invariant {P : τ → Prop} (hstep : ∀ t e, P t → guard t e → P (step t e).1) {t : τ} {es : List ε}
    (ht : P t)
    (hes : Allowed step guard t es) : P (trace step t es).1 := by
  induction es generalizing t with
  | nil => exact ht
  | cons e es ih => exact ih (hstep t e ht hes.1) hes.2

end Total

variable {step : σ → ε → Option (σ × List ο)} {step' : τ → ε → τ × List ο} {guard : τ → ε → Prop} {R : σ → τ → Prop}

theorem run_eq_trace
    (hstep : ∀ s t e, R s t → guard t e → ∃ s', step s e = some (s', (step' t e).2) ∧ R s' (step' t e).1)
    {s : σ} {t : τ} {es : List ε} (h : R s t) (hes : Allowed step' guard t es) :
    ∃ s', run step s es = some (s', (trace step' t es).2) ∧ R s' (trace step' t es).1 := by
  induction es generalizing s t with
  | nil => exact ⟨s, rfl, h⟩
  | cons e es ih =>
    obtain ⟨s₁, hs₁, hR₁⟩ := hstep s t e h hes.1
    obtain ⟨s₂, hs₂, hR₂⟩ := ih hR₁ hes.2
    refine ⟨s₂, ?_, hR₂⟩
    rw [run, hs₁, Option.bind_some, hs₂]
    rfl

end Transducer
