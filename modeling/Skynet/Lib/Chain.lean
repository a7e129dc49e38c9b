import Mathlib.Data.List.Nodup
import Mathlib.Data.List.Perm.Subperm
import Mathlib.Data.List.Range

/-!
# Skynet.Lib.Chain

Slots that are linked by the index of the next one, as the slots of a hash table with chains in it.

* A slot is free (`none`), the last of its chain (`some none`) or leads on.
* `Chain slot i c` : the slots passed from `i` to the end. There is at most one such list, and it passes no
  slot twice (`nodup`), so it is no longer than there are slots (`length_le`).
* `Reaches slot i j` : `j` is on the chain from `i`. It stays so when a free slot becomes the end of a chain of
  its own (`Reaches.imp`) or is put behind a used one (`Reaches.insert`).
-/

inductive Chain {ι : Type*} (slot : ι → Option (Option ι)) : ι → List ι → Prop
  | last {i : ι} (h : slot i = some none) : Chain slot i [i]
  | link {i j : ι} {c : List ι} (h : slot i = some (some j)) (hc : Chain slot j c) : Chain slot i (i :: c)

namespace Chain

variable {ι : Type*} {slot slot' : ι → Option (Option ι)} {i j m f : ι} {c d : List ι}

theorem head_mem (h : Chain slot i c) : i ∈ c := by
  cases h with
  | last h => exact List.mem_cons_self ..
  | link h hc => exact List.mem_cons_self ..

theorem used (h : Chain slot i c) : ∀ j ∈ c, (slot j).isSome := by
  induction h with
  | last h =>
    intro j hj
    rw [List.mem_singleton.mp hj, h]
    rfl
  | link h _ ih =>
    intro j hj
    rcases List.mem_cons.mp hj with rfl | hj
    · rw [h]
      rfl
    · exact ih j hj

theorem unique (hc : Chain slot i c) (hd : Chain slot i d) : c = d := by
  induction hc generalizing d with
  | last h =>
    cases hd with
    | last h' => rfl
    | link h' hd => rw [h] at h'; cases h'
  | link h hc ih =>
    cases hd with
    | last h' => rw [h] at h'; cases h'
    | link h' hd =>
      rw [h] at h'
      cases h'
      rw [ih hd]

/-- The rest of a chain is the chain from there. -/
theorem rest (h : Chain slot i c) (hj : j ∈ c) : ∃ d, Chain slot j d ∧ d <:+ c := by
  induction h with
  | last h =>
    rw [List.mem_singleton.mp hj]
    exact ⟨_, .last h, List.suffix_refl _⟩
  | link h hc ih =>
    rcases List.mem_cons.mp hj with rfl | hj
    · exact ⟨_, .link h hc, List.suffix_refl _⟩
    · obtain ⟨d, hd, hsuffix⟩ := ih hj
      exact ⟨d, hd, hsuffix.trans (List.suffix_cons ..)⟩

theorem nodup (h : Chain slot i c) : c.Nodup := by
  induction h with
  | last h => exact List.nodup_singleton _
  | link h hc ih =>
    refine List.nodup_cons.mpr ⟨fun hmem => ?_, ih⟩
    obtain ⟨d, hd, hsuffix⟩ := hc.rest hmem
    -- the chain from here would be a part of itself
    have heq := hd.unique (.link h hc)
    have hle := hsuffix.length_le
    rw [heq, List.length_cons] at hle
    omega

theorem length_le {slot : Nat → Option (Option Nat)} {i n : Nat} {c : List Nat} (h : Chain slot i c)
    (hn : ∀ j, (slot j).isSome → j < n) : c.length ≤ n := by
  have hsub : c ⊆ List.range n := fun j hj => List.mem_range.mpr (hn j (h.used j hj))
  have hle := (h.nodup.subperm hsub).length_le
  rwa [List.length_range] at hle

theorem imp (hslot : ∀ i o, slot i = some o → slot' i = some o) (h : Chain slot i c) : Chain slot' i c := by
  induction h with
  | last h => exact .last (hslot _ _ h)
  | link h _ ih => exact .link (hslot _ _ h) ih

/-- The chain with `f` behind `m`. -/
theorem insert {o : Option ι} (hf : slot f = none) (hm : slot m = some o) (hf' : slot' f = some o)
    (hm' : slot' m = some (some f)) (hother : ∀ i, i ≠ f → i ≠ m → slot' i = slot i) (h : Chain slot i c) :
    ∃ c', Chain slot' i c' ∧ c ⊆ c' := by
  have hne : ∀ {i o}, slot i = some o → i ≠ f := by
    rintro i o hi rfl
    rw [hf] at hi
    cases hi
  induction h with
  | @last i h =>
    by_cases him : i = m
    · subst him
      rw [hm] at h
      cases h
      exact ⟨_, .link hm' (.last hf'), by simp⟩
    · exact ⟨_, .last ((hother i (hne h) him).trans h), List.Subset.refl _⟩
  | @link i j c h hc ih =>
    obtain ⟨c', hc', hsub⟩ := ih
    by_cases him : i = m
    · subst him
      rw [hm] at h
      cases h
      exact ⟨_, .link hm' (.link hf' hc'), List.cons_subset_cons _ (List.Subset.trans hsub (List.subset_cons_self ..))⟩
    · exact ⟨_, .link ((hother i (hne h) him).trans h) hc', List.cons_subset_cons _ hsub⟩

end Chain

def Reaches {ι : Type*} (slot : ι → Option (Option ι)) (i j : ι) : Prop := ∃ c, Chain slot i c ∧ j ∈ c

namespace Reaches

variable {ι : Type*} {slot slot' : ι → Option (Option ι)} {i j m f : ι}

theorem last (h : slot i = some none) : Reaches slot i i := ⟨_, .last h, List.mem_singleton_self _⟩

theorem rest (h : Reaches slot i j) : ∃ c, Chain slot j c := by
  obtain ⟨c, hc, hj⟩ := h
  obtain ⟨d, hd, -⟩ := hc.rest hj
  exact ⟨d, hd⟩

theorem imp (hslot : ∀ i o, slot i = some o → slot' i = some o) (h : Reaches slot i j) : Reaches slot' i j := by
  obtain ⟨c, hc, hj⟩ := h
  exact ⟨c, hc.imp hslot, hj⟩

theorem insert {o : Option ι} (hf : slot f = none) (hm : slot m = some o) (hf' : slot' f = some o)
    (hm' : slot' m = some (some f)) (hother : ∀ i, i ≠ f → i ≠ m → slot' i = slot i) (h : Reaches slot i j) :
    Reaches slot' i j := by
  obtain ⟨c, hc, hj⟩ := h
  obtain ⟨c', hc', hsub⟩ := hc.insert hf hm hf' hm' hother
  exact ⟨c', hc', hsub hj⟩

/-- The new slot is reached from the one it was put behind. -/
theorem inserted {o : Option ι} (hf : slot f = none) (hm : slot m = some o) (hf' : slot' f = some o)
    (hm' : slot' m = some (some f)) (hother : ∀ i, i ≠ f → i ≠ m → slot' i = slot i) {c : List ι}
    (hc : Chain slot m c) : Reaches slot' m f := by
  cases hc with
  | last h =>
    rw [hm] at h
    cases h
    exact ⟨_, .link hm' (.last hf'), by simp⟩
  | link h hc =>
    rw [hm] at h
    cases h
    obtain ⟨c', hc', -⟩ := hc.insert hf hm hf' hm' hother
    exact ⟨_, .link hm' (.link hf' hc'), by simp⟩

end Reaches
