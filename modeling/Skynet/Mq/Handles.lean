import Skynet.Mq.Placed

/-!
# Skynet.Mq.Handles

A worker finds the context of a queue by its handle, and a handle may be given again while a queue still has it. Here no
handle is: then a worker has the context of its queue.

* `Unused` : a handle that no context, queue or launch has.
* `Sound` : the invariant of the places and of the handles.
* `found_eq` : a worker finds the context of its queue.
* `handled_of_perform` : an operation keeps the handles.
-/

namespace Skynet
namespace Mq

open Threads

variable {s s' s₁ : Node} {x q c i : Nat} {op : Op} {new rest : List Op} {ch : Choice}

/-- The handle of the context is in use. -/
structure Live (v : View) : Prop where
  live : (∃ ctx, v.context = some ctx ∧ ctx.registered = true) ∨ v.queue ≠ none ∨ 0 < v.opens

def Unused (s : Node) (handle : Nat) : Prop := handle ≠ 0 ∧ ∀ x, Live (s.view x) → s.handles x ≠ handle

/-- `skynet_handle_register` returns a handle that is not in use. -/
def Careful (s : Node) : Label → Prop
  | .spawn _ => True
  | .run i ch => ∀ rest, s.threads[i]? = some (.register :: rest) → Unused s ch.handle

/-! ### The invariant -/

/-- The launch of a context knows its handle. -/
def Op.Named (s : Node) : Op → Prop
  | .store c handle | .create c handle | .init c handle => handle = s.handles c
  | _ => True

structure Handled (s : Node) : Prop where
  owned : ∀ t ∈ s.threads, ∀ op ∈ t, op.Owned ∧ op.Named s
  queue : ∀ q mq, s.queue q = some mq → mq.handle = s.handles q
  context : ∀ c ctx, s.context c = some ctx → ctx.handle = 0 ∨ ctx.handle = s.handles c
  nonzero : ∀ c, c < s.contexts → s.handles c ≠ 0
  distinct : ∀ a b, Live (s.view a) → Live (s.view b) → s.handles a = s.handles b → a = b

theorem mem_after (hop : s.threads[i]? = some (op :: rest)) {t : List Op} {y : Op}
    (ht : t ∈ s.threads.set i (new ++ rest)) (hy : y ∈ t) : y ∈ new ∨ ∃ t ∈ s.threads, y ∈ t := by
  rcases List.mem_or_eq_of_mem_set ht with ht | rfl
  · exact .inr ⟨t, ht, hy⟩
  · rcases List.mem_append.mp hy with hy | hy
    · exact .inl hy
    · exact .inr ⟨_, List.mem_of_getElem? hop, List.mem_cons_of_mem _ hy⟩

theorem handles_of_perform (h : perform s ch op = some (s₁, new)) :
    s₁.handles = s.handles ∨ op = .register ∧ s₁.handles = Function.update s.handles s.contexts ch.handle := by
  cases op with
  | take | dispatch | round | measure | swap | mqRelease | drop | grab | release | mark | retire =>
    simp only [perform] at h
    repeat' split at h
    all_goals first | cases h; exact .inl rfl | cases h
  | push c msgs =>
    cases msgs with
    | nil => cases h; exact .inl rfl
    | cons msg msgs =>
      simp only [perform] at h
      repeat' split at h
      all_goals first | cases h; exact .inl rfl | cases h
  | register => cases h; exact .inr ⟨rfl, rfl⟩
  | deliver | link | free | store | create | init => cases h; exact .inl rfl

theorem some_of_update {α : Type} {f : Nat → Option α} {v : Option α} {a : α} (h : Function.update f q v x = some a) :
    x = q ∧ v = some a ∨ f x = some a := by
  by_cases hx : x = q
  · rw [hx, Function.update_self] at h
    exact .inl ⟨hx, h⟩
  · rw [Function.update_of_ne hx] at h
    exact .inr h

/-- A queue keeps its handle. -/
theorem queue_of_perform (h : perform s ch op = some (s₁, new)) {mq : MessageQueue} (hq : s₁.queue q = some mq) :
    (∃ mq', s.queue q = some mq' ∧ mq.handle = mq'.handle) ∨ op = .create q mq.handle := by
  have hset : ∀ {q' : Nat} {mq₀ mq₁ : MessageQueue}, s.queue q' = some mq₀ →
      Function.update s.queue q' (some mq₁) q = some mq → mq₁.handle = mq₀.handle →
        ∃ mq', s.queue q = some mq' ∧ mq.handle = mq'.handle := by
    intro q' mq₀ mq₁ hq' hq hsame
    rcases some_of_update hq with ⟨rfl, he⟩ | hq
    · cases he
      exact ⟨mq₀, hq', hsame⟩
    · exact ⟨mq, hq, rfl⟩
  cases op with
  | take | dispatch | measure | swap | mqRelease | grab | release | retire =>
    simp only [perform] at h
    repeat' split at h
    all_goals first | cases h; exact .inl ⟨mq, hq, rfl⟩ | cases h
  | round q' c k n =>
    simp only [perform] at h
    split at h
    · cases h
    · rename_i mq₀ hq₀
      split at h <;>
        · cases h
          exact .inl (hset hq₀ hq rfl)
  | drop q' =>
    simp only [perform] at h
    split at h
    · cases h
    · rename_i mq₀ hq₀
      split at h
      · cases h
        exact .inl (hset hq₀ hq rfl)
      · split at h
        · cases h
        · cases h
          exact .inl (hset hq₀ hq rfl)
  | mark c =>
    simp only [perform] at h
    split at h
    · cases h
    · rename_i mq₀ hq₀
      split at h
      · cases h
      · split at h <;>
          · cases h
            exact .inl (hset hq₀ hq rfl)
  | push c msgs =>
    cases msgs with
    | nil => cases h; exact .inl ⟨mq, hq, rfl⟩
    | cons msg msgs =>
      simp only [perform] at h
      split at h
      · cases h
      · rename_i mq₀ hq₀
        split at h <;>
          · cases h
            exact .inl (hset hq₀ hq rfl)
  | free q' =>
    cases h
    rcases some_of_update hq with ⟨-, he⟩ | hq
    · cases he
    · exact .inl ⟨mq, hq, rfl⟩
  | create c handle =>
    cases h
    rcases some_of_update hq with ⟨rfl, he⟩ | hq
    · cases he
      exact .inr rfl
    · exact .inl ⟨mq, hq, rfl⟩
  | deliver | link | register | store | init => cases h; exact .inl ⟨mq, hq, rfl⟩

/-- A context keeps its handle, once it has one. -/
theorem context_of_perform (h : perform s ch op = some (s₁, new)) {ctx : Context} (hc : s₁.context c = some ctx) :
    (∃ ctx', s.context c = some ctx' ∧ ctx.handle = ctx'.handle) ∨ ctx.handle = 0 ∨ op = .store c ctx.handle := by
  have hmap : ∀ {c' : Nat} {f : Context → Context}, Function.update s.context c' ((s.context c').map f) c = some ctx →
      (∀ ctx, (f ctx).handle = ctx.handle) → ∃ ctx', s.context c = some ctx' ∧ ctx.handle = ctx'.handle := by
    intro c' f hc hf
    rcases some_of_update hc with ⟨hcc, he⟩ | hc
    · obtain ⟨ctx', hctx', rfl⟩ := Option.map_eq_some_iff.mp he
      exact ⟨ctx', hcc ▸ hctx', hf ctx'⟩
    · exact ⟨ctx, hc, rfl⟩
  cases op with
  | take | round | measure | swap | mqRelease | drop =>
    simp only [perform] at h
    repeat' split at h
    all_goals first | cases h; exact .inl ⟨ctx, hc, rfl⟩ | cases h
  | dispatch q =>
    simp only [perform] at h
    split at h
    · cases h
    · split at h
      · split at h
        · cases h
          exact .inl ⟨ctx, hc, rfl⟩
        · cases h
          exact .inl (hmap hc fun _ => rfl)
      · cases h
  | grab handle msgs | retire handle =>
    simp only [perform] at h
    split at h
    · split at h
      · cases h
        exact .inl ⟨ctx, hc, rfl⟩
      · cases h
        exact .inl (hmap hc fun _ => rfl)
    · cases h
  | push c msgs =>
    cases msgs with
    | nil => cases h; exact .inl ⟨ctx, hc, rfl⟩
    | cons msg msgs =>
      simp only [perform] at h
      repeat' split at h
      all_goals first | cases h; exact .inl ⟨ctx, hc, rfl⟩ | cases h
  | release c' =>
    simp only [perform] at h
    split at h
    · cases h
    · rename_i ctx₀ hctx₀
      cases h
      rcases some_of_update hc with ⟨rfl, he⟩ | hc
      · cases he
        exact .inl ⟨ctx₀, hctx₀, rfl⟩
      · exact .inl ⟨ctx, hc, rfl⟩
  | mark c' =>
    simp only [perform] at h
    split at h
    · cases h
    · split at h
      · cases h
      · split at h <;>
          · cases h
            rcases some_of_update hc with ⟨-, he⟩ | hc
            · cases he
            · exact .inl ⟨ctx, hc, rfl⟩
  | register =>
    cases h
    rcases some_of_update hc with ⟨-, he⟩ | hc
    · cases he
      exact .inr (.inl rfl)
    · exact .inl ⟨ctx, hc, rfl⟩
  | store c' handle =>
    cases h
    rcases some_of_update hc with ⟨rfl, he⟩ | hc
    · obtain ⟨ctx', -, rfl⟩ := Option.map_eq_some_iff.mp he
      exact .inr (.inr rfl)
    · exact .inl ⟨ctx, hc, rfl⟩
  | deliver | link | free | create | init => cases h; exact .inl ⟨ctx, hc, rfl⟩

theorem Move.live {own : Prop} {v v' : View} (h : Move own v v') (hl : Live v') :
    Live v ∨ v.context = none ∧ 0 < v'.opens := by
  obtain ⟨hlive⟩ := hl
  cases h with
  | same => exact .inl ⟨hlive⟩
  | grab hctx hreg => exact .inl ⟨.inl ⟨_, hctx, hreg⟩⟩
  | @handle ctx hctx handle | @release ctx _ hctx =>
    rcases hlive with ⟨ctx', he, hreg⟩ | hlive
    · cases he
      exact .inl ⟨.inl ⟨ctx, hctx, hreg⟩⟩
    · exact .inl ⟨.inr hlive⟩
  | retire hctx hreg => exact .inl ⟨.inl ⟨_, hctx, hreg⟩⟩
  | pop hq | leave hq | dropped hq | free hq | push hq | link hq | mark hq =>
    exact .inl ⟨.inr (.inl (hq ▸ Option.some_ne_none _))⟩
  | register hctx => exact .inr ⟨hctx, Nat.succ_pos _⟩
  | create _ hopens => exact .inl ⟨.inr (.inr (by omega))⟩

/-- What a step of a run here keeps: the invariant of the places, and the handles. -/
structure Sound (s : Node) : Prop where
  inv : Inv s
  handled : Handled s

section Step

variable (hs : Sound s) (hop : s.threads[i]? = some (op :: rest)) (hrun : perform s ch op = some (s₁, new))

include hs hop

theorem owned_head : op.Owned ∧ op.Named s :=
  hs.handled.owned _ (List.mem_of_getElem? hop) op (List.mem_cons_self ..)

theorem sound_move (hrun : perform s ch op = some (s₁, new)) (x : Nat) :
    Move True (s.view x) ((s.after s₁ i (new ++ rest)).view x) :=
  move_of_perform hs.inv (fun _ => (owned_head hs hop).1) hop hrun x

end Step

theorem live_of_perform (hs : Sound s) (hop : s.threads[i]? = some (op :: rest))
    (hrun : perform s ch op = some (s₁, new)) (hl : Live ((s.after s₁ i (new ++ rest)).view x)) :
    Live (s.view x) ∨ op = .register ∧ x = s.contexts := by
  rcases (sound_move hs hop hrun x).live hl with hl | ⟨hcontext, hopens⟩
  · exact .inl hl
  · refine .inr ?_
    by_contra hx
    exact absurd (unopened hs.inv hop hrun hcontext hx) (Nat.ne_of_gt hopens)

/-- A context that is live, or that a thread has a reference of, has been created. -/
theorem lt_of_context (hi : Inv s) (h : s.context x ≠ none ∨ s.queue x ≠ none) : x < s.contexts := by
  by_contra hx
  obtain ⟨hcontext, hqueue⟩ := hi.fresh x (Nat.le_of_not_lt hx)
  rcases h with h | h
  · exact h hcontext
  · exact h hqueue

theorem lt_of_live (hi : Inv s) (h : Live (s.view x)) : x < s.contexts := by
  refine lt_of_context hi ?_
  rcases h.live with ⟨ctx, hctx, -⟩ | hq | hopens
  · exact .inl fun hnone => absurd (Eq.trans (Eq.symm hctx) hnone) (Option.some_ne_none ctx)
  · exact .inr hq
  · refine .inl fun hnone => ?_
    have hzero := ((hi.good x).noContext hnone).2.2
    omega

theorem context_of_owes (hi : Inv s) {t : List Op} (ht : t ∈ s.threads) {y : Op} (hy : y ∈ t) (howes : 0 < y.owes x) :
    s.context x ≠ none := by
  have hle := le_total_mem (Op.owes x) ht hy
  obtain ⟨ctx, hctx, -⟩ := (hi.good x).owned (Nat.lt_of_lt_of_le howes hle)
  exact fun hnone => absurd (Eq.trans (Eq.symm hctx) hnone) (Option.some_ne_none ctx)

/-- Handles are given to new contexts only. -/
theorem handles_eq (hrun : perform s ch op = some (s₁, new)) (hx : ¬(op = .register ∧ x = s.contexts)) :
    s₁.handles x = s.handles x := by
  rcases handles_of_perform hrun with he | ⟨hreg, he⟩
  · rw [he]
  · rw [he, Function.update_of_ne fun hx' => hx ⟨hreg, hx'⟩]

theorem named_kept (hi : Inv s) (hrun : perform s ch op = some (s₁, new)) {t : List Op} (ht : t ∈ s.threads) {y : Op}
    (hy : y ∈ t) (hnamed : y.Named s) : y.Named s₁ := by
  have hkept : ∀ c, 0 < y.owes c → s₁.handles c = s.handles c := by
    intro c howes
    refine handles_eq hrun ?_
    rintro ⟨-, rfl⟩
    have hlt := lt_of_context hi (.inl (context_of_owes hi ht hy howes))
    exact absurd hlt (Nat.lt_irrefl _)
  cases y with
  | store c handle | create c handle | init c handle =>
    exact hnamed.trans (hkept c (by rw [Op.owes, one_self]; exact Nat.one_pos)).symm
  | _ => trivial

/-- A worker finds the context of its queue. -/
theorem found_eq (hs : Sound s) {mq : MessageQueue} (hq : s.queue q = some mq)
    (hfinds : s.finds mq.handle (some c) = true) : c = q := by
  obtain ⟨ctx, hctx, hreg, hhandle⟩ := finds_some hfinds
  have hqueue := hs.handled.queue q mq hq
  have hlive : Live (s.view q) := ⟨.inr (.inl fun hnone => absurd (hq.symm.trans hnone) (Option.some_ne_none mq))⟩
  have hnonzero := hs.handled.nonzero q (lt_of_live hs.inv hlive)
  refine hs.handled.distinct c q ⟨.inl ⟨ctx, hctx, hreg⟩⟩ hlive ?_
  rcases hs.handled.context c ctx hctx with hzero | hgiven
  · rw [hzero] at hhandle
    exact absurd (hhandle.trans hqueue).symm hnonzero
  · rw [← hgiven, hhandle, hqueue]

theorem new_owned (hs : Sound s) (hop : s.threads[i]? = some (op :: rest))
    (hrun : perform s ch op = some (s₁, new)) : ∀ y ∈ new, y.Owned ∧ y.Named s₁ := by
  obtain ⟨howned, hnamed⟩ := owned_head hs hop
  cases op with
  | dispatch q =>
    simp only [perform] at hrun
    split at hrun
    · cases hrun
    · rename_i mq hq
      split at hrun
      · rename_i hfinds
        split at hrun
        · cases hrun
          simp only [List.forall_mem_cons]
          exact ⟨⟨trivial, trivial⟩, ⟨trivial, trivial⟩, List.forall_mem_nil _⟩
        · rename_i c hfound
          rw [hfound] at hfinds
          cases hrun
          exact List.forall_mem_singleton.mpr ⟨found_eq hs hq hfinds, trivial⟩
      · cases hrun
  | round q c k n =>
    simp only [perform] at hrun
    split at hrun
    · cases hrun
    · split at hrun
      · cases hrun
        simp only [List.forall_mem_cons]
        exact ⟨⟨trivial, trivial⟩, ⟨trivial, trivial⟩, List.forall_mem_nil _⟩
      · cases hrun
        exact List.forall_mem_singleton.mpr ⟨howned, trivial⟩
  | measure q c k n msg =>
    simp only [perform] at hrun
    split at hrun
    · cases hrun
    · cases hrun
      exact List.forall_mem_singleton.mpr ⟨howned, trivial⟩
  | deliver q c k n msg =>
    simp only [perform] at hrun
    split at hrun <;>
      · cases hrun
        exact List.forall_mem_singleton.mpr ⟨howned, trivial⟩
  | register =>
    cases hrun
    have hgiven : Function.update s.handles s.contexts ch.handle s.contexts = ch.handle := Function.update_self ..
    exact List.forall_mem_singleton.mpr ⟨trivial, hgiven.symm⟩
  | store c handle | create c handle =>
    cases hrun
    exact List.forall_mem_singleton.mpr ⟨trivial, hnamed⟩
  | push c msgs =>
    cases msgs with
    | nil =>
      cases hrun
      exact List.forall_mem_singleton.mpr ⟨trivial, trivial⟩
    | cons msg msgs =>
      simp only [perform] at hrun
      repeat' split at hrun
      all_goals cases hrun
      all_goals exact List.forall_mem_singleton.mpr ⟨trivial, trivial⟩
  | take | swap | mqRelease | drop | grab | release | mark | retire | init =>
    simp only [perform] at hrun
    repeat' split at hrun
    all_goals cases hrun
    all_goals
      intro y hy
      simp only [List.mem_cons, List.not_mem_nil, or_false] at hy
    all_goals rcases hy with rfl | rfl | rfl <;> exact ⟨trivial, trivial⟩
  | link | free =>
    cases hrun
    exact List.forall_mem_nil _

theorem handled_of_perform (hs : Sound s) (hop : s.threads[i]? = some (op :: rest))
    (hrun : perform s ch op = some (s₁, new)) (hunused : op = .register → Unused s ch.handle) :
    Handled (s.after s₁ i (new ++ rest)) := by
  obtain ⟨howned, hnamed⟩ := owned_head hs hop
  have hlt : ∀ {y}, s.context y ≠ none ∨ s.queue y ≠ none → ¬(op = .register ∧ y = s.contexts) := by
    rintro y hy ⟨-, rfl⟩
    exact absurd (lt_of_context hs.inv hy) (Nat.lt_irrefl _)
  have hsome : ∀ {α : Type} {a : Option α} {b : α}, a = some b → a ≠ none := by
    intro α a b he
    rw [he]
    exact Option.some_ne_none b
  refine ⟨?_, ?_, ?_, ?_, ?_⟩
  · intro t ht y hy
    rcases mem_after hop ht hy with hnew | ⟨t, ht, hy⟩
    · exact new_owned hs hop hrun y hnew
    · obtain ⟨hyOwned, hyNamed⟩ := hs.handled.owned t ht y hy
      exact ⟨hyOwned, named_kept hs.inv hrun ht hy hyNamed⟩
  · intro q mq hq
    rcases queue_of_perform hrun hq with ⟨mq', hq', he⟩ | rfl
    · exact (he.trans (hs.handled.queue q mq' hq')).trans (handles_eq hrun (hlt (.inr (hsome hq')))).symm
    · cases hrun
      exact hnamed
  · intro c ctx hctx
    rcases context_of_perform hrun hctx with ⟨ctx', hctx', he⟩ | hzero | rfl
    · rcases hs.handled.context c ctx' hctx' with hzero | hgiven
      · exact .inl (he.trans hzero)
      · exact .inr ((he.trans hgiven).trans (handles_eq hrun (hlt (.inl (hsome hctx')))).symm)
    · exact .inl hzero
    · cases hrun
      exact .inr hnamed
  · intro c hc
    by_cases hx : op = .register ∧ c = s.contexts
    · obtain ⟨rfl, rfl⟩ := hx
      cases hrun
      change Function.update s.handles s.contexts ch.handle s.contexts ≠ 0
      rw [Function.update_self]
      exact (hunused rfl).1
    · change s₁.handles c ≠ 0
      rw [handles_eq hrun hx]
      refine hs.handled.nonzero c ?_
      obtain ⟨-, -, hcontexts⟩ := new_of_perform hrun c
      change c < s₁.contexts at hc
      rcases hcontexts with hsame | ⟨hreg, hsucc⟩
      · omega
      · have hne : c ≠ s.contexts := fun he => hx ⟨hreg, he⟩
        omega
  · -- the new context has a handle that no other has
    have hnew : ∀ {a}, op = .register → Live (s.view a) → s₁.handles s.contexts ≠ s₁.handles a := by
      rintro a rfl ha
      have hne : a ≠ s.contexts := Nat.ne_of_lt (lt_of_live hs.inv ha)
      cases hrun
      change Function.update s.handles s.contexts ch.handle s.contexts ≠ Function.update s.handles s.contexts ch.handle a
      rw [Function.update_self, Function.update_of_ne hne]
      exact ((hunused rfl).2 a ha).symm
    intro a b ha hb he
    rcases live_of_perform hs hop hrun ha with ha | ⟨hreg, rfl⟩
    · rcases live_of_perform hs hop hrun hb with hb | ⟨hreg, rfl⟩
      · have hold : ∀ {y}, Live (s.view y) → s₁.handles y = s.handles y := by
          intro y hy
          refine handles_eq hrun ?_
          rintro ⟨-, rfl⟩
          exact absurd (lt_of_live hs.inv hy) (Nat.lt_irrefl _)
        refine hs.handled.distinct a b ha hb ?_
        rw [← hold ha, ← hold hb]
        exact he
      · exact absurd he.symm (hnew hreg ha)
    · rcases live_of_perform hs hop hrun hb with hb | ⟨-, rfl⟩
      · exact absurd he (hnew hreg hb)
      · rfl

end Mq
end Skynet
