import Mathlib.Data.List.Nodup
import Mathlib.Data.List.Perm.Basic
import Skynet.Snax.Responses

/-!
# Skynet.Snax.Cache

What every step keeps of the responses of the server.

* `Inv` : each response is of one user and one session, and a complete one has a number of its own below `u.index`.
* `Turn.inv` : every step keeps that, and the bound of `u.index`.
-/

namespace Skynet
namespace Msgserver

variable {ι : Type*}

/-! ### The invariant -/

structure Inv (k : Core ι) : Prop where
  unique : ∀ u u' q q' c, (q, c) ∈ k.response u → (q', c) ∈ k.response u' → u = u' ∧ q = q'
  keys : ∀ u, ((k.response u).map Prod.fst).Nodup
  lt : ∀ u q c, (q, c) ∈ k.response u → c < k.ncells
  task_lt : ∀ t ∈ k.tasks, t.cell < k.ncells
  task_nodup : (k.tasks.map Task.cell).Nodup
  task_user : ∀ t ∈ k.tasks, ∀ u q, (q, t.cell) ∈ k.response u → u = t.user
  waiting : ∀ t ∈ k.tasks, (k.cells t.cell).response = none ∧ (k.cells t.cell).fd ≠ none
  index_lt : ∀ u q c, (q, c) ∈ k.response u → (k.cells c).fd = none → (k.cells c).index < k.index u
  index_inj : ∀ u q q' c c', (q, c) ∈ k.response u → (q', c') ∈ k.response u → (k.cells c).fd = none →
    (k.cells c').fd = none → (k.cells c).index = (k.cells c').index → c = c'

variable {k : Core ι}

theorem Inv.cells_nodup (inv : Inv k) (u : Nat) : ((k.response u).map Prod.snd).Nodup := by
  refine (List.Nodup.of_map Prod.fst (inv.keys u)).map_on fun p hp p' hp' heq => ?_
  obtain ⟨q, c⟩ := p
  obtain ⟨q', c'⟩ := p'
  obtain rfl : c = c' := heq
  rw [(inv.unique u u q q' c hp hp').2]

/-- Some responses are dropped. -/
theorem Inv.sub (inv : Inv k) (response : Nat → List (Nat × Nat)) (h : ∀ u, (response u).Sublist (k.response u)) :
    Inv { k with response := response } where
  unique u u' q q' c hc hc' := inv.unique u u' q q' c ((h u).subset hc) ((h u').subset hc')
  keys u := (inv.keys u).sublist ((h u).map _)
  lt u q c hc := inv.lt u q c ((h u).subset hc)
  task_lt := inv.task_lt
  task_nodup := inv.task_nodup
  task_user t ht u q hc := inv.task_user t ht u q ((h u).subset hc)
  waiting := inv.waiting
  index_lt u q c hc := inv.index_lt u q c ((h u).subset hc)
  index_inj u q q' c c' hc hc' := inv.index_inj u q q' c c' ((h u).subset hc) ((h u).subset hc')

theorem Inv.drop (inv : Inv k) (u session : Nat) : Inv (k.drop u session) := by
  refine inv.sub _ fun v => ?_
  by_cases hv : v = u
  · subst hv
    rw [Function.update_self]
    exact List.filter_sublist
  · rw [Function.update_of_ne hv]

theorem mem_call {u session fd v q c : Nat} (h : (q, c) ∈ (k.call u session fd).response v) :
    (v = u ∧ q = session ∧ c = k.ncells) ∨ (q, c) ∈ k.response v := by
  simp only [Core.call] at h
  by_cases hv : v = u
  · subst hv
    rw [Function.update_self] at h
    rcases List.mem_cons.mp h with heq | h
    · cases heq
      exact .inl ⟨rfl, rfl, rfl⟩
    · exact .inr (List.mem_of_mem_filter h)
  · rw [Function.update_of_ne hv] at h
    exact .inr h

theorem Inv.call (inv : Inv k) (u session fd : Nat) : Inv (k.call u session fd) := by
  have hold : ∀ c, c < k.ncells → (k.call u session fd).cells c = k.cells c := fun c hc =>
    Function.update_of_ne (by omega) ..
  have hnew : ((k.call u session fd).cells k.ncells).fd ≠ none := by
    simp only [Core.call, Function.update_self]
    exact Option.some_ne_none fd
  constructor
  case unique =>
    intro v v' q q' c hc hc'
    rcases mem_call hc with ⟨rfl, rfl, rfl⟩ | h₁
    · rcases mem_call hc' with ⟨rfl, rfl, -⟩ | h₂
      · exact ⟨rfl, rfl⟩
      · exact absurd (inv.lt _ _ _ h₂) (Nat.lt_irrefl _)
    · rcases mem_call hc' with ⟨rfl, rfl, rfl⟩ | h₂
      · exact absurd (inv.lt _ _ _ h₁) (Nat.lt_irrefl _)
      · exact inv.unique v v' q q' c h₁ h₂
  case keys =>
    intro v
    simp only [Core.call]
    by_cases hv : v = u
    · subst hv
      rw [Function.update_self, List.map_cons, List.nodup_cons]
      refine ⟨fun hmem => ?_, (inv.keys v).sublist (List.filter_sublist.map _)⟩
      obtain ⟨p, hp, heq⟩ := List.mem_map.mp hmem
      exact absurd heq (of_decide_eq_true (List.mem_filter.mp hp).2)
    · rw [Function.update_of_ne hv]
      exact inv.keys v
  case lt =>
    intro v q c hc
    simp only [Core.call]
    rcases mem_call hc with ⟨-, -, rfl⟩ | hc
    · exact Nat.lt_succ_self _
    · exact Nat.lt_succ_of_lt (inv.lt v q c hc)
  case task_lt =>
    intro t ht
    simp only [Core.call] at ht ⊢
    rcases List.mem_append.mp ht with ht | ht
    · exact Nat.lt_succ_of_lt (inv.task_lt t ht)
    · rw [List.mem_singleton.mp ht]
      exact Nat.lt_succ_self _
  case task_nodup =>
    simp only [Core.call, List.map_append, List.map_cons, List.map_nil]
    refine List.Nodup.append inv.task_nodup (List.nodup_singleton _) ?_
    intro c hc hc'
    obtain ⟨t, ht, rfl⟩ := List.mem_map.mp hc
    have := inv.task_lt t ht
    have := List.mem_singleton.mp hc'
    omega
  case task_user =>
    intro t ht v q hc
    rcases List.mem_append.mp ht with ht | ht
    · rcases mem_call hc with ⟨-, -, hcell⟩ | hc
      · have := inv.task_lt t ht
        omega
      · exact inv.task_user t ht v q hc
    · rw [List.mem_singleton.mp ht] at hc ⊢
      rcases mem_call hc with ⟨rfl, -, -⟩ | hc
      · rfl
      · exact absurd (inv.lt _ _ _ hc) (Nat.lt_irrefl _)
  case waiting =>
    intro t ht
    rcases List.mem_append.mp ht with ht | ht
    · rw [hold _ (inv.task_lt t ht)]
      exact inv.waiting t ht
    · rw [List.mem_singleton.mp ht]
      refine ⟨?_, hnew⟩
      simp only [Core.call, Function.update_self]
  case index_lt =>
    intro v q c hc hfd
    rcases mem_call hc with ⟨-, -, rfl⟩ | hc
    · exact absurd hfd hnew
    · rw [hold _ (inv.lt v q c hc)] at hfd ⊢
      exact inv.index_lt v q c hc hfd
  case index_inj =>
    intro v q q' c c' hc hc' hfd hfd' heq
    rcases mem_call hc with ⟨-, -, rfl⟩ | hc
    · exact absurd hfd hnew
    · rcases mem_call hc' with ⟨-, -, rfl⟩ | hc'
      · exact absurd hfd' hnew
      · rw [hold _ (inv.lt v q c hc)] at hfd heq
        rw [hold _ (inv.lt v q' c' hc')] at hfd' heq
        exact inv.index_inj v q q' c c' hc hc' hfd hfd' heq

/-- A request that has no response yet is sent again. -/
theorem Inv.again (inv : Inv k) {c : Nat} (fd : Nat) (version : ι) (u : Nat) : Inv (k.again c fd version u) := by
  have hfd : ∀ c', ((k.again c fd version u).cells c').fd = none →
      c' ≠ c ∧ (k.again c fd version u).cells c' = k.cells c' := by
    intro c' h
    by_cases hc : c' = c
    · subst hc
      simp only [Core.again, Core.setCell, Function.update_self] at h
      cases h
    · exact ⟨hc, Function.update_of_ne hc ..⟩
  refine ⟨inv.unique, inv.keys, inv.lt, inv.task_lt, inv.task_nodup, inv.task_user, ?_, ?_, ?_⟩
  · intro t ht
    obtain ⟨hresponse, hne⟩ := inv.waiting t ht
    simp only [Core.again, Core.setCell]
    by_cases hc : t.cell = c
    · subst hc
      rw [Function.update_self]
      exact ⟨hresponse, Option.some_ne_none fd⟩
    · rw [Function.update_of_ne hc]
      exact ⟨hresponse, hne⟩
  · intro v q c' hc' hnone
    obtain ⟨-, hcell⟩ := hfd c' hnone
    rw [hcell] at hnone ⊢
    exact inv.index_lt v q c' hc' hnone
  · intro v q q' c₁ c₂ h₁ h₂ hnone₁ hnone₂ heq
    have hcell₁ := (hfd c₁ hnone₁).2
    have hcell₂ := (hfd c₂ hnone₂).2
    rw [hcell₁] at hnone₁ heq
    rw [hcell₂] at hnone₂ heq
    exact inv.index_inj v q q' c₁ c₂ h₁ h₂ hnone₁ hnone₂ heq

theorem Inv.finish (inv : Inv k) (i : Nat) : Inv (k.finish i) where
  unique := inv.unique
  keys := inv.keys
  lt := inv.lt
  task_lt t ht := inv.task_lt t ((List.eraseIdx_sublist ..).subset ht)
  task_nodup := inv.task_nodup.sublist ((List.eraseIdx_sublist ..).map _)
  task_user t ht := inv.task_user t ((List.eraseIdx_sublist ..).subset ht)
  waiting t ht := inv.waiting t ((List.eraseIdx_sublist ..).subset ht)
  index_lt := inv.index_lt
  index_inj := inv.index_inj

/-- The cell `c` has become the youngest response of the user. -/
def Core.bump (k : Core ι) (u c : Nat) (data : Bytes) (version : ι) : Core ι where
  response := k.response
  index := Function.update k.index u (k.index u + 1)
  cells := Function.update k.cells c ⟨none, some data, some version, k.index u⟩
  ncells := k.ncells
  tasks := k.tasks

theorem Core.again_answer {n c fd u : Nat} {version : ι} {data : Bytes} (h : (k.cells c).response = some data) :
    (k.again c fd version u).answer n u c = (k.bump u c data version).retire n u := by
  simp only [Core.again, Core.answer, Core.setCell, Core.bump, Function.update_self, Function.update_idem, h]

theorem Core.ready_answer {n : Nat} {t : Task} {version : ι} {data : Bytes} :
    (k.ready t data version).answer n t.user t.cell = (k.bump t.user t.cell data version).retire n t.user := by
  simp only [Core.ready, Core.answer, Core.setCell, Core.bump, Function.update_self, Function.update_idem]

theorem Inv.bump (inv : Inv k) {u c : Nat} {data : Bytes} {version : ι}
    (howner : ∀ v q, (q, c) ∈ k.response v → v = u) (htask : ∀ t ∈ k.tasks, t.cell ≠ c) :
    Inv (k.bump u c data version) := by
  have hold : ∀ c', c' ≠ c → (k.bump u c data version).cells c' = k.cells c' := fun c' hc => Function.update_of_ne hc ..
  have hself : ((k.bump u c data version).cells c).index = k.index u := by
    simp only [Core.bump, Function.update_self]
  have hindex : ∀ v, k.index v ≤ (k.bump u c data version).index v := by
    intro v
    simp only [Core.bump]
    by_cases hv : v = u
    · subst hv
      rw [Function.update_self]
      exact Nat.le_succ _
    · rw [Function.update_of_ne hv]
  refine ⟨inv.unique, inv.keys, inv.lt, inv.task_lt, inv.task_nodup, inv.task_user, ?_, ?_, ?_⟩
  · intro t ht
    rw [hold _ (htask t ht)]
    exact inv.waiting t ht
  · intro v q c' hc' hnone
    by_cases hc : c' = c
    · subst hc
      obtain rfl := howner v q hc'
      rw [hself]
      simp only [Core.bump, Function.update_self]
      exact Nat.lt_succ_self _
    · rw [hold c' hc] at hnone ⊢
      exact Nat.lt_of_lt_of_le (inv.index_lt v q c' hc' hnone) (hindex v)
  · intro v q q' c₁ c₂ h₁ h₂ hnone₁ hnone₂ heq
    by_cases hc₁ : c₁ = c
    · by_cases hc₂ : c₂ = c
      · rw [hc₁, hc₂]
      · obtain rfl := howner v q (hc₁ ▸ h₁)
        rw [hc₁, hself, hold c₂ hc₂] at heq
        rw [hold c₂ hc₂] at hnone₂
        have := inv.index_lt v q' c₂ h₂ hnone₂
        omega
    · rw [hold c₁ hc₁] at hnone₁ heq
      by_cases hc₂ : c₂ = c
      · obtain rfl := howner v q' (hc₂ ▸ h₂)
        rw [hc₂, hself] at heq
        have := inv.index_lt v q c₁ h₁ hnone₁
        omega
      · rw [hold c₂ hc₂] at hnone₂ heq
        exact inv.index_inj v q q' c₁ c₂ h₁ h₂ hnone₁ hnone₂ heq

/-! ### What is retired -/

@[simp] theorem renumbered_fd (n : Nat) (cell : Cell ι) : (renumbered n cell).fd = cell.fd := by
  unfold renumbered
  split <;> rfl

@[simp] theorem renumbered_response (n : Nat) (cell : Cell ι) : (renumbered n cell).response = cell.response := by
  unfold renumbered
  split <;> rfl

@[simp] theorem renumbered_version (n : Nat) (cell : Cell ι) : (renumbered n cell).version = cell.version := by
  unfold renumbered
  split <;> rfl

/-- The responses of the user `u` are retired. -/
structure RetiredOf (n : Nat) (k k' : Core ι) (u : Nat) : Prop where
  sub : ∀ v, (k'.response v).Sublist (k.response v)
  kept : ∀ v q c, (q, c) ∈ k.response v → (v = u → ¬ Expired n k.cells c) → (q, c) ∈ k'.response v
  young : ∀ q c, (q, c) ∈ k'.response u → ¬ Expired n k.cells c
  fd : ∀ c, (k'.cells c).fd = (k.cells c).fd
  response : ∀ c, (k'.cells c).response = (k.cells c).response
  version : ∀ c, (k'.cells c).version = (k.cells c).version
  other : ∀ v q c, v ≠ u → (q, c) ∈ k.response v → k'.cells c = k.cells c
  renumbered : ∀ q c, (q, c) ∈ k'.response u → (k.cells c).fd = none → (k'.cells c).index + n = (k.cells c).index
  index : ∀ v, v ≠ u → k'.index v = k.index v
  le : ∀ q c, (q, c) ∈ k'.response u → (k.cells c).fd = none → (k'.cells c).index < k'.index u
  attained : k'.index u = 1 ∨
    ∃ q c, (q, c) ∈ k.response u ∧ (k.cells c).fd = none ∧ k'.index u + n = (k.cells c).index + 1
  ncells : k'.ncells = k.ncells
  tasks : k'.tasks = k.tasks

theorem Inv.retire_cases (inv : Inv k) (n u : Nat) :
    (k.index u < n * 2 ∧ k.retire n u = k) ∨ (n * 2 ≤ k.index u ∧ RetiredOf n k (k.retire n u) u) := by
  by_cases hold : n * 2 ≤ k.index u
  · refine .inr ⟨hold, ?_⟩
    have hr := retireLoop_spec n (inv.cells_nodup u) k.cells 0
    have hmem : ∀ q c, (q, c) ∈ (retireLoop n (k.response u) k.cells 0).1 ↔
        (q, c) ∈ k.response u ∧ ¬ Expired n k.cells c := by
      intro q c
      rw [hr.kept, List.mem_filter, decide_eq_true_iff]
    rw [Core.retire, if_pos hold]
    dsimp only
    constructor
    case sub =>
      intro v
      by_cases hv : v = u
      · subst hv
        simp only [Function.update_self, hr.kept]
        exact List.filter_sublist
      · simp only [Function.update_of_ne hv]
        exact List.Sublist.refl _
    case kept =>
      intro v q c hc hyoung
      by_cases hv : v = u
      · subst hv
        simp only [Function.update_self]
        exact (hmem q c).mpr ⟨hc, hyoung rfl⟩
      · simp only [Function.update_of_ne hv]
        exact hc
    case young =>
      intro q c hc
      simp only [Function.update_self] at hc
      exact ((hmem q c).mp hc).2
    case fd =>
      intro c
      simp only [hr.cell]
      split
      · exact renumbered_fd ..
      · rfl
    case response =>
      intro c
      simp only [hr.cell]
      split
      · exact renumbered_response ..
      · rfl
    case version =>
      intro c
      simp only [hr.cell]
      split
      · exact renumbered_version ..
      · rfl
    case other =>
      intro v q c hv hc
      simp only [hr.cell]
      refine if_neg fun hmem => ?_
      obtain ⟨⟨q', c'⟩, hp, rfl⟩ := List.mem_map.mp hmem
      exact hv (inv.unique v u q q' _ hc hp).1
    case renumbered =>
      intro q c hc hfd
      simp only [Function.update_self] at hc
      obtain ⟨hc, hyoung⟩ := (hmem q c).mp hc
      have hge : n ≤ (k.cells c).index := Nat.le_of_not_lt fun hlt => hyoung ⟨hfd, hlt⟩
      simp only [hr.cell]
      rw [if_pos (List.mem_map.mpr ⟨(q, c), hc, rfl⟩), Msgserver.renumbered, if_pos ⟨hfd, hge⟩]
      exact Nat.sub_add_cancel hge
    case index => exact fun v hv => Function.update_of_ne hv ..
    case le =>
      intro q c hc hfd
      simp only [Function.update_self] at hc ⊢
      have hle := hr.index_le (q, c) hc hfd
      obtain ⟨hc, hyoung⟩ := (hmem q c).mp hc
      have hge : n ≤ (k.cells c).index := Nat.le_of_not_lt fun hlt => hyoung ⟨hfd, hlt⟩
      simp only [hr.cell]
      rw [if_pos (List.mem_map.mpr ⟨(q, c), hc, rfl⟩), Msgserver.renumbered, if_pos ⟨hfd, hge⟩]
      exact Nat.lt_succ_of_le hle
    case attained =>
      simp only [Function.update_self]
      obtain hzero | ⟨⟨q, c⟩, hc, hfd, heq⟩ := hr.attained
      · exact .inl (by rw [hzero])
      · refine .inr ⟨q, c, ((hmem q c).mp hc).1, hfd, ?_⟩
        simp only at heq
        omega
    case ncells => rfl
    case tasks => rfl
  · exact .inl ⟨by omega, by rw [Core.retire, if_neg hold]⟩

theorem Inv.retiredOf {k' : Core ι} {n u : Nat} (inv : Inv k) (h : RetiredOf n k k' u) : Inv k' := by
  have hmem : ∀ v q c, (q, c) ∈ k'.response v → (q, c) ∈ k.response v := fun v q c hc => (h.sub v).subset hc
  constructor
  case unique => exact fun v v' q q' c hc hc' => inv.unique v v' q q' c (hmem _ _ _ hc) (hmem _ _ _ hc')
  case keys => exact fun v => (inv.keys v).sublist ((h.sub v).map _)
  case lt => exact fun v q c hc => h.ncells ▸ inv.lt v q c (hmem _ _ _ hc)
  case task_lt => exact fun t ht => h.ncells ▸ inv.task_lt t (h.tasks ▸ ht)
  case task_nodup =>
    rw [h.tasks]
    exact inv.task_nodup
  case task_user => exact fun t ht v q hc => inv.task_user t (h.tasks ▸ ht) v q (hmem _ _ _ hc)
  case waiting =>
    intro t ht
    rw [h.fd, h.response]
    exact inv.waiting t (h.tasks ▸ ht)
  case index_lt =>
    intro v q c hc hfd
    rw [h.fd] at hfd
    by_cases hv : v = u
    · subst hv
      exact h.le q c hc hfd
    · rw [h.other v q c hv (hmem _ _ _ hc), h.index v hv]
      exact inv.index_lt v q c (hmem _ _ _ hc) hfd
  case index_inj =>
    intro v q q' c c' hc hc' hfd hfd' heq
    rw [h.fd] at hfd hfd'
    refine inv.index_inj v q q' c c' (hmem _ _ _ hc) (hmem _ _ _ hc') hfd hfd' ?_
    by_cases hv : v = u
    · subst hv
      have := h.renumbered q c hc hfd
      have := h.renumbered q' c' hc' hfd'
      omega
    · rw [h.other v q c hv (hmem _ _ _ hc), h.other v q' c' hv (hmem _ _ _ hc')] at heq
      exact heq

theorem Inv.retire (inv : Inv k) (n u : Nat) : Inv (k.retire n u) := by
  obtain ⟨-, heq⟩ | ⟨-, h⟩ := inv.retire_cases n u
  · rw [heq]
    exact inv
  · exact inv.retiredOf h

/-! ### The bound of the index -/

def Bounded (n : Nat) (k : Core ι) : Prop := ∀ u, k.index u < n * 2

theorem Inv.retire_bounded (inv : Inv k) {n u : Nat} (hn : 0 < n) (hu : k.index u ≤ n * 2)
    (hother : ∀ v, v ≠ u → k.index v < n * 2) : Bounded n (k.retire n u) := by
  intro v
  obtain ⟨hlt, heq⟩ | ⟨-, h⟩ := inv.retire_cases n u
  · rw [heq]
    by_cases hv : v = u
    · rw [hv]
      exact hlt
    · exact hother v hv
  · by_cases hv : v = u
    · subst hv
      obtain hone | ⟨q, c, hc, hfd, hmax⟩ := h.attained
      · omega
      · have := inv.index_lt v q c hc hfd
        omega
    · rw [h.index v hv]
      exact hother v hv

/-! ### A step -/

/-- A task that has returned is none of the others. -/
theorem Inv.other_task (inv : Inv k) {i : Nat} {t : Task} (h : k.tasks[i]? = some t) :
    ∀ t' ∈ (k.finish i).tasks, t'.cell ≠ t.cell := by
  intro t' ht' heq
  obtain ⟨hi, rfl⟩ := List.getElem?_eq_some_iff.mp h
  have hperm := (List.getElem_cons_eraseIdx_perm hi).map Task.cell
  have hnodup := hperm.nodup_iff.mpr inv.task_nodup
  rw [List.map_cons, List.nodup_cons] at hnodup
  exact hnodup.1 (heq ▸ List.mem_map_of_mem ht')

theorem mem_of_lookup {l : List (Nat × Nat)} {q c : Nat} (h : l.lookup q = some c) : (q, c) ∈ l := by
  obtain ⟨l₁, l₂, rfl, -⟩ := List.lookup_eq_some_iff.mp h
  exact List.mem_append_right _ (List.mem_cons_self ..)

/-- The cell of a request that is answered from the responses. -/
theorem Inv.resend {s : Server ι} (inv : Inv (core s)) {v c : Nat} {msg data : Bytes} (version : ι)
    (hlookup : (s.users v).response.lookup (sessionOf msg) = some c) (hresponse : (s.cells c).response = some data) :
    Inv ((core s).bump v c data version) := by
  have hmem : (sessionOf msg, c) ∈ (core s).response v := mem_of_lookup hlookup
  refine inv.bump (fun v' q hmem' => (inv.unique _ _ _ _ _ hmem' hmem).1) fun t ht heq => ?_
  have hnone := (inv.waiting t ht).1
  simp only [core, heq, hresponse] at hnone
  cases hnone

/-- The cell of a task that returns. -/
theorem Inv.returned (inv : Inv k) {i : Nat} {t : Task} (ht : k.tasks[i]? = some t) (data : Bytes) (version : ι) :
    Inv ((k.finish i).bump t.user t.cell data version) :=
  (inv.finish i).bump (inv.task_user t (List.mem_of_getElem? ht)) (inv.other_task ht)

end Msgserver
end Skynet
