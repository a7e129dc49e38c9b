import Mathlib.Data.List.Basic
import Mathlib.Data.Option.Basic

/-!
# Skynet.Lib.Run

Labelled transition systems given by a partial step function. A label carries every choice the
environment makes (which thread moves, how many bytes a call accepts), so `step s a` is a
function; `none` means that `a` cannot be taken in `s`.

* `run step s as` : the state reached by the labels `as`, if each one can be taken.
* `run_invariant` : what one step preserves, every run preserves.
* `Guarded G s as` : every label of the run from `s` satisfies `G` in the state it is taken in.
* `of_check` : a run on given labels, by a test.
* `count_le` : what a measure that the counted steps decrease says of their number.
-/

namespace Lts

variable {σ α : Type*} (step : σ → α → Option σ)

def run : σ → List α → Option σ
  | s, [] => some s
  | s, a :: as =>
    match step s a with
    | some s' => run s' as
    | none => none

variable {step}

theorem run_cons_eq_bind (s : σ) (a : α) (as : List α) :
    run step s (a :: as) = (step s a).bind fun t => run step t as := by
  change (match step s a with | some t => run step t as | none => none) = _
  cases step s a <;> rfl

theorem run_cons {s s' : σ} {a : α} {as : List α} :
    run step s (a :: as) = some s' ↔ ∃ t, step s a = some t ∧ run step t as = some s' := by
  rw [run_cons_eq_bind, Option.bind_eq_some_iff]

theorem run_append {s s' : σ} {as bs : List α} :
    run step s (as ++ bs) = some s' ↔ ∃ t, run step s as = some t ∧ run step t bs = some s' := by
  induction as generalizing s with
  | nil =>
    rw [List.nil_append]
    constructor
    · rintro hs; exact ⟨s, rfl, hs⟩
    · rintro ⟨t, ht, hs⟩; exact Option.some.inj ht ▸ hs
  | cons a as ih =>
    simp only [List.cons_append, run_cons, ih]
    constructor
    · rintro ⟨t, ht, u, hu, hs⟩; exact ⟨u, ⟨t, ht, hu⟩, hs⟩
    · rintro ⟨u, ⟨t, ht, hu⟩, hs⟩; exact ⟨t, ht, u, hu, hs⟩

/-- The invariant rule: a property of the first state that every step preserves holds in the
last one. -/
theorem run_invariant {P : σ → Prop} (hstep : ∀ s a s', P s → step s a = some s' → P s')
    {s s' : σ} {as : List α} (h : run step s as = some s') (hs : P s) : P s' := by
  induction as generalizing s with
  | nil => exact Option.some.inj h ▸ hs
  | cons a as ih =>
    obtain ⟨t, ht, hr⟩ := run_cons.mp h
    exact ih hr (hstep s a t hs ht)

/-- Every label of the run from `s` satisfies `G` in the state it is taken in. -/
def Guarded (step : σ → α → Option σ) (G : σ → α → Prop) : σ → List α → Prop
  | _, [] => True
  | s, a :: as => G s a ∧ ∀ t, step s a = some t → Guarded step G t as

/-- The invariant rule for runs whose steps all satisfy `G`. -/
theorem run_invariant_of_guarded {P : σ → Prop} {G : σ → α → Prop}
    (hstep : ∀ s a s', P s → G s a → step s a = some s' → P s')
    {s s' : σ} {as : List α} (h : run step s as = some s') (hg : Guarded step G s as) (hs : P s) :
    P s' := by
  induction as generalizing s with
  | nil => exact Option.some.inj h ▸ hs
  | cons a as ih =>
    obtain ⟨t, ht, hr⟩ := run_cons.mp h
    exact ih hr (hg.2 t ht) (hstep s a t hs hg.1 ht)

theorem Guarded.imp {G H : σ → α → Prop} (hGH : ∀ s a, G s a → H s a) {s : σ} {as : List α}
    (h : Guarded step G s as) : Guarded step H s as := by
  induction as generalizing s with
  | nil => trivial
  | cons a as ih => exact ⟨hGH s a h.1, fun t ht => ih (h.2 t ht)⟩

/-- Two guards that agree in every state that satisfies an invariant. -/
theorem guarded_iff_of_invariant {P : σ → Prop} {G H : σ → α → Prop}
    (hstep : ∀ s a s', P s → step s a = some s' → P s') (hGH : ∀ s a, P s → (G s a ↔ H s a)) {s : σ}
    {as : List α} (hs : P s) : Guarded step G s as ↔ Guarded step H s as := by
  induction as generalizing s with
  | nil => exact Iff.rfl
  | cons a as ih =>
    refine and_congr (hGH s a hs) (forall_congr' fun t => ?_)
    exact ⟨fun h ht => (ih (hstep s a t hs ht)).mp (h ht), fun h ht => (ih (hstep s a t hs ht)).mpr (h ht)⟩

/-- Labels that satisfy `G` in every state. -/
theorem guarded_of_forall {G : σ → α → Prop} {as : List α} (h : ∀ a ∈ as, ∀ s, G s a) (s : σ) :
    Guarded step G s as := by
  induction as generalizing s with
  | nil => trivial
  | cons a as ih =>
    exact ⟨h a (List.mem_cons_self ..) s, fun t _ => ih (fun b hb => h b (List.mem_cons_of_mem _ hb)) t⟩

theorem guarded_cons {G : σ → α → Prop} {s t : σ} {a : α} {as : List α} (ha : G s a) (h : step s a = some t)
    (has : Guarded step G t as) : Guarded step G s (a :: as) := by
  refine ⟨ha, ?_⟩
  intro u hu
  rw [h, Option.some.injEq] at hu
  exact hu ▸ has

theorem guarded_append {G : σ → α → Prop} {s : σ} {as bs : List α} (has : Guarded step G s as)
    (hbs : ∀ t, run step s as = some t → Guarded step G t bs) : Guarded step G s (as ++ bs) := by
  induction as generalizing s with
  | nil => exact hbs s rfl
  | cons a as ih =>
    refine ⟨has.1, ?_⟩
    intro t ht
    exact ih (has.2 t ht) fun u hu => hbs u (run_cons.mpr ⟨t, ht, hu⟩)

theorem guarded_of_append {G : σ → α → Prop} {s t : σ} {as bs : List α} (h : Guarded step G s (as ++ bs))
    (hrun : run step s as = some t) : Guarded step G t bs := by
  induction as generalizing s with
  | nil =>
    rw [← Option.some.inj hrun]
    exact h
  | cons a as ih =>
    obtain ⟨u, hu, hr⟩ := run_cons.mp hrun
    exact ih (h.2 u hu) hr

/-- A test of a run on given labels: each step satisfies `g`, and the last state `p`. -/
def check (step : σ → α → Option σ) (g : σ → α → Bool) (p : σ → Bool) : σ → List α → Bool
  | s, [] => p s
  | s, a :: as =>
    g s a && match step s a with
      | some t => check step g p t as
      | none => false

theorem of_check {g : σ → α → Bool} {p : σ → Bool} {G : σ → α → Prop} (hg : ∀ s a, g s a = true → G s a) {s : σ}
    {as : List α} (h : check step g p s as = true) :
    ∃ t, run step s as = some t ∧ Guarded step G s as ∧ p t = true := by
  induction as generalizing s with
  | nil => exact ⟨s, rfl, trivial, h⟩
  | cons a as ih =>
    simp only [check, Bool.and_eq_true] at h
    obtain ⟨hga, hrest⟩ := h
    split at hrest
    · rename_i u hu
      obtain ⟨t, hrun, hguard, hp⟩ := ih hrest
      refine ⟨t, run_cons.mpr ⟨u, hu, hrun⟩, ⟨hg s a hga, ?_⟩, hp⟩
      intro v hv
      rw [hu] at hv
      cases hv
      exact hguard
    · cases hrest

/-- How many labels of the run from `s` satisfy `g` in the state they are taken in. -/
def count (step : σ → α → Option σ) (g : σ → α → Bool) : σ → List α → Nat
  | _, [] => 0
  | s, a :: as =>
    (if g s a then 1 else 0) + match step s a with
      | some t => count step g t as
      | none => 0

theorem count_le {P : σ → Prop} {g : σ → α → Bool} {μ : σ → Nat}
    (hstep : ∀ s a s', P s → step s a = some s' → P s' ∧ μ s' ≤ μ s ∧ (g s a = true → μ s' < μ s)) {s s' : σ} {as : List α}
    (h : run step s as = some s') (hs : P s) : count step g s as + μ s' ≤ μ s := by
  induction as generalizing s with
  | nil =>
    rw [← Option.some.inj h, count]
    omega
  | cons a as ih =>
    obtain ⟨t, ht, hr⟩ := run_cons.mp h
    obtain ⟨hP, hle, hlt⟩ := hstep s a t hs ht
    have hrest := ih hr hP
    simp only [count, ht]
    split
    · rename_i hg
      have := hlt hg
      omega
    · omega

end Lts
