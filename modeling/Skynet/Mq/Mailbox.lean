import Skynet.Mq.Carry

/-!
# Skynet.Mq.Mailbox

What becomes of the messages of a queue: the service takes them in their order, and those that are left when it is gone
are dropped, with an error to the source of each.

* `Mailbox` : the messages are taken in order, each once, and the queue is freed once.
* `kept_of_carry`, `freed_of_perform` : what a step keeps.
* `mailbox_kept` : every run in which no handle in use is given again.
* `handle_reused` : a run in which one is.
-/

namespace Skynet
namespace Mq

open Threads

variable {s s' s₁ : Node} {x q c i : Nat} {op : Op} {new rest : List Op} {ch : Choice}

/-- `xs` was dispatched to the service and `ys` was dropped. -/
structure Kept (s : Node) (q : Nat) (xs ys : List Message) : Prop where
  fates : s.fates q = xs.map (.dispatched q) ++ ys.map .dropped
  errors : s.errors q = ys.map fun msg => (s.handles q, msg.source)
  retired : ys ≠ [] → s.context q = none ∧ q < s.contexts
  waiting : ∀ mq, s.queue q = some mq → ∃ zs, mq.ring.Holds zs ∧ s.accepted q = xs ++ ys ++ s.flight q ++ zs
  empty : s.queue q = none → s.flight q = [] ∧ s.accepted q = xs ++ ys

/-- The queue of a context that is gone is in one place, or it was freed, once. -/
structure Freed (s : Node) (q : Nat) : Prop where
  once : s.freed q ≤ 1
  after : s.freed q = 1 → s.queue q = none ∧ s.context q = none ∧ q < s.contexts
  gone : s.context q = none → q < s.contexts → s.freed q = 1 ∨ s.queue q ≠ none ∧ s.linked q + s.held q = 1

structure Mailbox (s : Node) (q : Nat) : Prop where
  kept : ∃ xs ys, Kept s q xs ys
  freed : Freed s q

/-! ### The order -/

/-- `Kept`, for the messages alone. -/
structure Box.Kept (q handle : Nat) (b : Box) (xs ys : List Message) : Prop where
  fates : b.fates = xs.map (.dispatched q) ++ ys.map .dropped
  errors : b.errors = ys.map fun msg => (handle, msg.source)
  waiting : ∀ ring, b.ring = some ring → ∃ zs, ring.Holds zs ∧ b.accepted = xs ++ ys ++ b.flight ++ zs
  empty : b.ring = none → b.flight = [] ∧ b.accepted = xs ++ ys

theorem kept_iff {xs ys : List Message} : Kept s q xs ys ↔
    (s.box q).Kept q (s.handles q) xs ys ∧ (ys ≠ [] → s.context q = none ∧ q < s.contexts) := by
  constructor
  · rintro ⟨hfates, herrors, hretired, hwaiting, hempty⟩
    refine ⟨⟨hfates, herrors, ?_, ?_⟩, hretired⟩
    · intro ring hring
      obtain ⟨mq, hq, rfl⟩ := Option.map_eq_some_iff.mp hring
      exact hwaiting mq hq
    · intro hring
      exact hempty (Option.map_eq_none_iff.mp hring)
  · rintro ⟨⟨hfates, herrors, hwaiting, hempty⟩, hretired⟩
    refine ⟨hfates, herrors, hretired, ?_, ?_⟩
    · intro mq hq
      exact hwaiting mq.ring (Option.map_eq_some_iff.mpr ⟨mq, hq, rfl⟩)
    · intro hq
      exact hempty (Option.map_eq_none_iff.mpr hq)

theorem box_ring {mq : MessageQueue} (hq : s.queue q = some mq) : (s.box q).ring = some mq.ring :=
  Option.map_eq_some_iff.mpr ⟨mq, hq, rfl⟩

/-- A step keeps the order of the messages. -/
theorem kept_of_carry (hi : Inv s) {b : Box} {xs ys : List Message} (h : Kept s q xs ys) (hc : Carry s q b) :
    ∃ xs' ys', b.Kept q (s.handles q) xs' ys' ∧ (ys' ≠ [] → s.context q = none ∧ q < s.contexts) := by
  obtain ⟨hfates, herrors, hretired, hwaiting, hempty⟩ := h
  have hnone : s.context q ≠ none → ys = [] := by
    intro hctx
    by_contra hys
    exact hctx (hretired hys).1
  cases hc with
  | same => exact ⟨xs, ys, (kept_iff.mp ⟨hfates, herrors, hretired, hwaiting, hempty⟩).1, hretired⟩
  | @take mq msg ring hq hpop hflight =>
    obtain ⟨zs, hring, haccepted⟩ := hwaiting mq hq
    obtain ⟨zs', rfl, hring'⟩ := holds_pop hring hpop
    refine ⟨xs, ys, ⟨hfates, herrors, ?_, nofun⟩, hretired⟩
    intro ring' he
    cases he
    refine ⟨zs', hring', haccepted.trans ?_⟩
    rw [hflight]
    simp only [List.append_nil, List.append_assoc, List.cons_append, List.nil_append]
  | @deliver msg hctx hflight =>
    obtain rfl := hnone hctx
    refine ⟨xs ++ [msg], [], ⟨?_, herrors, ?_, ?_⟩, fun h => absurd rfl h⟩
    · rw [hfates, List.map_append]
      simp only [List.map_nil, List.append_nil, List.map_cons]
    · intro ring hring
      obtain ⟨mq, hq, rfl⟩ := Option.map_eq_some_iff.mp hring
      obtain ⟨zs, hholds, haccepted⟩ := hwaiting mq hq
      refine ⟨zs, hholds, haccepted.trans ?_⟩
      rw [hflight]
      simp only [List.append_nil]
    · intro hring
      have hnil := (hempty (Option.map_eq_none_iff.mp hring)).1
      rw [hflight] at hnil
      cases hnil
  | @drop mq msg ring hq hpop hflight hctx =>
    obtain ⟨zs, hring, haccepted⟩ := hwaiting mq hq
    obtain ⟨zs', rfl, hring'⟩ := holds_pop hring hpop
    refine ⟨xs, ys ++ [msg], ⟨?_, ?_, ?_, nofun⟩, fun _ => ⟨hctx, lt_of_context hi (.inr fun hnone => ?_)⟩⟩
    · rw [hfates, List.map_append, List.map_singleton, List.append_assoc]
    · rw [herrors, List.map_append, List.map_singleton]
    · intro ring' he
      cases he
      refine ⟨zs', hring', haccepted.trans ?_⟩
      change xs ++ ys ++ s.flight q ++ (msg :: zs') = xs ++ (ys ++ [msg]) ++ s.flight q ++ zs'
      rw [hflight]
      simp only [List.append_nil, List.append_assoc, List.cons_append, List.nil_append]
    · rw [hq] at hnone
      cases hnone
  | @free mq hq hpop hflight hctx =>
    obtain ⟨zs, hring, haccepted⟩ := hwaiting mq hq
    have hzs : zs = [] := (RingBuf.head_eq_tail_iff hring).mp (pop_none_iff.mp hpop)
    rw [hflight, hzs, List.append_nil, List.append_nil] at haccepted
    exact ⟨xs, ys, ⟨hfates, herrors, nofun, fun _ => ⟨hflight, haccepted⟩⟩, hretired⟩
  | @push mq hq hctx msg =>
    obtain ⟨zs, hring, haccepted⟩ := hwaiting mq hq
    refine ⟨xs, ys, ⟨hfates, herrors, ?_, nofun⟩, hretired⟩
    intro ring he
    cases he
    refine ⟨zs ++ [msg], holds_push hring msg, ?_⟩
    change s.accepted q ++ [msg] = xs ++ ys ++ s.flight q ++ (zs ++ [msg])
    rw [haccepted, List.append_assoc _ zs]
  | create hq hctx handle =>
    obtain ⟨hflight, haccepted⟩ := hempty hq
    refine ⟨xs, ys, ⟨hfates, herrors, ?_, nofun⟩, hretired⟩
    intro ring he
    cases he
    refine ⟨[], RingBuf.empty_holds (by decide) _, haccepted.trans ?_⟩
    change xs ++ ys = xs ++ ys ++ s.flight q ++ []
    rw [hflight, List.append_nil, List.append_nil]

/-! ### The end of a queue -/

theorem Move.gone {own : Prop} {v v' : View} (h : Move own v v') (hcontext : v.context = none) :
    v'.context = none ∨ 0 < v'.opens := by
  cases h with
  | same | pop | leave | dropped | free | push | link | create => exact .inl hcontext
  | grab hctx | handle hctx | release hctx | retire hctx =>
    rw [hcontext] at hctx
    cases hctx
  | mark => exact .inl rfl
  | register => exact .inr (Nat.succ_pos _)

theorem Move.closed {own : Prop} {v v' : View} (h : Move own v v') (hcontext : v.context ≠ none) :
    v'.context ≠ none ∨ v'.queue ≠ none := by
  cases h with
  | same | pop | leave | dropped | free | push | link | create => exact .inl hcontext
  | grab | handle | release | retire | register => exact .inl (Option.some_ne_none _)
  | mark => exact .inr (Option.some_ne_none _)

/-- A released queue is in one place. -/
theorem Move.placed {v v' : View} (h : Move True v v') (hg : Good v)
    (hold : ∀ mq, v.queue = some mq → mq.release = true → v.placed = 1) {mq' : MessageQueue}
    (hq' : v'.queue = some mq') (hrelease : mq'.release = true) : v'.placed = 1 := by
  have howed : ∀ {mq}, v.queue = some mq → mq.release = true → ¬0 < v.owes := by
    intro mq hq hyes howes
    rw [hg.unmarked howes hq] at hyes
    cases hyes
  cases h with
  | same | grab | handle | release | retire | register => exact hold mq' hq' hrelease
  | @pop mq _ _ hq | @dropped mq hq => cases hq'; exact hold mq hq hrelease
  | leave hq _ _ howes => cases hq'; exact absurd (howes trivial) (howed hq hrelease)
  | free => cases hq'
  | push hq howes | link hq howes => cases hq'; exact absurd howes (howed hq hrelease)
  | @mark mq _ hq hnot =>
    obtain ⟨-, hplaced, hidle, -⟩ := hg.queue mq hq
    change v.placed + _ = 1
    cases hglobal : mq.inGlobal with
    | true => rw [hplaced hglobal]; rfl
    | false => rw [(hidle hglobal).2.2 hnot]; rfl
  | create => cases hq'; cases hrelease

theorem contexts_le (hrun : perform s ch op = some (s₁, new)) : s.contexts ≤ s₁.contexts := by
  obtain ⟨-, -, hcontexts⟩ := new_of_perform hrun 0
  omega

/-- The context of a new number is there. -/
theorem lt_of_gone (hrun : perform s ch op = some (s₁, new))
    (hcontext : (s.after s₁ i (new ++ rest)).context x = none)
    (hx : x < (s.after s₁ i (new ++ rest)).contexts) : x < s.contexts := by
  obtain ⟨-, -, hcontexts⟩ := new_of_perform hrun x
  change x < s₁.contexts at hx
  rcases hcontexts with hsame | ⟨rfl, hsucc⟩
  · omega
  · by_contra hge
    have he : x = s.contexts := by omega
    subst he
    cases hrun
    change Function.update s.context s.contexts (some ⟨0, 2, true⟩) s.contexts = none at hcontext
    rw [Function.update_self] at hcontext
    cases hcontext

theorem new_frees (hrun : perform s ch op = some (s₁, new)) (q : Nat) :
    sumOf (Op.frees q) new ≤ op.frees q ∨ ∃ mq, s₁.queue q = some mq ∧ mq.ring.pop = none := by
  cases op with
  | drop q' =>
    simp only [perform] at hrun
    split at hrun
    · cases hrun
    · rename_i mq hq
      split at hrun
      · rename_i hpop
        cases hrun
        by_cases hx : q' = q
        · subst hx
          exact .inr ⟨_, Function.update_self .., hpop⟩
        · refine .inl ?_
          rw [sumOf_cons, sumOf_nil, Op.frees, one_of_ne hx]
          exact Nat.zero_le _
      · split at hrun
        · cases hrun
        · cases hrun
          exact .inl (Nat.zero_le _)
  | push c msgs =>
    cases msgs with
    | nil =>
      cases hrun
      exact .inl (Nat.zero_le _)
    | cons msg msgs =>
      simp only [perform] at hrun
      repeat' split at hrun
      all_goals cases hrun
      all_goals exact .inl (Nat.zero_le _)
  | take | dispatch | round | measure | deliver | swap | mqRelease | grab | release | mark | retire | init =>
    simp only [perform] at hrun
    repeat' split at hrun
    all_goals cases hrun
    all_goals exact .inl (Nat.zero_le _)
  | link | free | register | store | create =>
    cases hrun
    exact .inl (Nat.zero_le _)

/-- Everything that a run here keeps. -/
structure Delivered (s : Node) : Prop where
  sound : Sound s
  frees : ∀ q, 0 < s.frees q → ∃ mq, s.queue q = some mq ∧ mq.ring.pop = none
  released : ∀ q mq, s.queue q = some mq → mq.release = true → s.linked q + s.held q = 1
  mailbox : ∀ q, Mailbox s q

section Run

variable (hd : Delivered s) (hop : s.threads[i]? = some (op :: rest)) (hrun : perform s ch op = some (s₁, new))

include hd hop hrun

theorem carry_of_delivered (x : Nat) : Carry s x ((s.after s₁ i (new ++ rest)).box x) :=
  carry_of_perform hd.sound hd.frees hop hrun x

theorem gone_kept (hcontext : s.context x = none) (hx : x < s.contexts) :
    (s.after s₁ i (new ++ rest)).context x = none := by
  rcases (sound_move hd.sound hop hrun x).gone hcontext with hnone | hopens
  · exact hnone
  · have hzero := unopened hd.sound.inv hop hrun hcontext fun hreg => absurd hreg.2 (Nat.ne_of_lt hx)
    exact absurd hzero (Nat.ne_of_gt hopens)

theorem released_of_perform {mq : MessageQueue} (hq : (s.after s₁ i (new ++ rest)).queue x = some mq)
    (hrelease : mq.release = true) :
    (s.after s₁ i (new ++ rest)).linked x + (s.after s₁ i (new ++ rest)).held x = 1 :=
  (sound_move hd.sound hop hrun x).placed (hd.sound.inv.good x) (hd.released x) hq hrelease

theorem frees_of_perform (hi' : Inv (s.after s₁ i (new ++ rest))) (hpos : 0 < (s.after s₁ i (new ++ rest)).frees q) :
    ∃ mq, (s.after s₁ i (new ++ rest)).queue q = some mq ∧ mq.ring.pop = none := by
  rcases new_frees hrun q with hle | hfound
  · have hset := total_set (Op.frees q) hop new
    have hbefore : 0 < s.frees q := by
      change 0 < total (Op.frees q) (s.threads.set i (new ++ rest)) at hpos
      change 0 < total (Op.frees q) s.threads
      omega
    obtain ⟨mq, hq, hpop⟩ := hd.frees q hbefore
    have hctx : s.context q = none := by
      have hdrops : s.frees q ≤ s.drops q := by
        refine total_mono ?_ s.threads
        intro y
        cases y <;> first | exact Nat.zero_le _ | exact Nat.le_refl _
      obtain ⟨mq', hq', hrelease⟩ := hd.sound.inv.drops q (Nat.lt_of_lt_of_le hbefore hdrops)
      exact ((hd.sound.inv.good q).queue mq' hq').release.mp hrelease
    have hring : ((s.after s₁ i (new ++ rest)).box q).ring = some mq.ring := by
      have hc := carry_of_delivered hd hop hrun q
      generalize hb : (s.after s₁ i (new ++ rest)).box q = b at hc
      cases hc with
      | same | deliver => exact box_ring hq
      | take hq' hpop' | drop hq' hpop' =>
        rw [hq, Option.some.injEq] at hq'
        rw [← hq', hpop] at hpop'
        cases hpop'
      | free =>
        -- the queue is freed, and no thread frees it again
        have hnone := Option.map_eq_none_iff.mp (congrArg Box.ring hb)
        have hplaced : _ + (s.after s₁ i (new ++ rest)).held q = 0 := (hi'.good q).noQueue hnone
        have hle : (s.after s₁ i (new ++ rest)).frees q ≤ (s.after s₁ i (new ++ rest)).held q := by
          refine total_mono ?_ _
          intro y
          cases y <;> first | exact Nat.zero_le _ | exact Nat.le_refl _
        omega
      | push _ hctx' => exact absurd hctx hctx'
      | create _ hctx' => exact absurd hctx hctx'
    obtain ⟨mq', hq', he⟩ := Option.map_eq_some_iff.mp hring
    exact ⟨mq', hq', he ▸ hpop⟩
  · exact hfound

/-- The queue is as it was, it is freed, or it is created. -/
theorem freed_cases (x : Nat) :
    (s.after s₁ i (new ++ rest)).freed x = s.freed x ∧
        ((s.after s₁ i (new ++ rest)).queue x = none ↔ s.queue x = none) ∨
      s.context x = none ∧ (s.after s₁ i (new ++ rest)).freed x = s.freed x + 1 ∧ s.queue x ≠ none ∧
        (s.after s₁ i (new ++ rest)).queue x = none ∨
      s.context x ≠ none ∧ (s.after s₁ i (new ++ rest)).freed x = s.freed x := by
  have hc := carry_of_delivered hd hop hrun x
  generalize hb : (s.after s₁ i (new ++ rest)).box x = b at hc
  have hfreed : (s.after s₁ i (new ++ rest)).freed x = b.freed := congrArg Box.freed hb
  have hring : ((s.after s₁ i (new ++ rest)).queue x).map (·.ring) = b.ring := congrArg Box.ring hb
  have hnone : (s.after s₁ i (new ++ rest)).queue x = none ↔ b.ring = none := by
    rw [← hring, Option.map_eq_none_iff]
  cases hc with
  | same | deliver => exact .inl ⟨hfreed, hnone.trans Option.map_eq_none_iff⟩
  | take hq | drop hq | push hq =>
    refine .inl ⟨hfreed, hnone.trans ?_⟩
    rw [hq]
    exact ⟨nofun, nofun⟩
  | free hq _ _ hctx =>
    refine .inr (.inl ⟨hctx, hfreed, ?_, hnone.mpr rfl⟩)
    rw [hq]
    exact Option.some_ne_none _
  | create _ hctx => exact .inr (.inr ⟨hctx, hfreed⟩)

theorem freed_of_perform (hi' : Inv (s.after s₁ i (new ++ rest))) (x : Nat) :
    Freed (s.after s₁ i (new ++ rest)) x := by
  obtain ⟨honce, hafter, hgone⟩ := (hd.mailbox x).freed
  have hcases := freed_cases hd hop hrun x
  have hle := contexts_le hrun
  refine ⟨?_, ?_, ?_⟩
  · rcases hcases with ⟨hfreed, -⟩ | ⟨-, hfreed, hq, -⟩ | ⟨-, hfreed⟩
    · omega
    · have hne : s.freed x ≠ 1 := fun he => hq (hafter he).1
      omega
    · omega
  · intro hone
    rcases hcases with ⟨hfreed, hq⟩ | ⟨hctx, -, hq, hq'⟩ | ⟨hctx, hfreed⟩
    · obtain ⟨hnone, hcontext, hx⟩ := hafter (hfreed ▸ hone)
      exact ⟨hq.mpr hnone, gone_kept hd hop hrun hcontext hx, Nat.lt_of_lt_of_le hx hle⟩
    · have hx := lt_of_context hd.sound.inv (.inr hq)
      exact ⟨hq', gone_kept hd hop hrun hctx hx, Nat.lt_of_lt_of_le hx hle⟩
    · exact absurd (hafter (hfreed ▸ hone)).2.1 hctx
  · intro hcontext' hx'
    cases hq' : (s.after s₁ i (new ++ rest)).queue x with
    | some mq =>
      have hrelease := ((hi'.good x).queue mq hq').release.mpr hcontext'
      exact .inr ⟨Option.some_ne_none mq, released_of_perform hd hop hrun hq' hrelease⟩
    | none =>
      refine .inl ?_
      have hcontext : s.context x = none := by
        by_contra hctx
        rcases (sound_move hd.sound hop hrun x).closed hctx with h | h
        · exact h hcontext'
        · exact h hq'
      rcases hcases with ⟨hfreed, hq⟩ | ⟨-, hfreed, hq, -⟩ | ⟨hctx, -⟩
      · have hx := lt_of_gone hrun hcontext' hx'
        rcases hgone hcontext hx with hone | ⟨hne, -⟩
        · exact hfreed.trans hone
        · exact absurd (hq.mp hq') hne
      · have hne : s.freed x ≠ 1 := fun he => hq (hafter he).1
        omega
      · exact absurd hcontext hctx

theorem kept_of_perform (x : Nat) : ∃ xs ys, Kept (s.after s₁ i (new ++ rest)) x xs ys := by
  obtain ⟨xs, ys, hkept⟩ := (hd.mailbox x).kept
  have hle := contexts_le hrun
  obtain ⟨xs', ys', hbox, hretired⟩ := kept_of_carry hd.sound.inv hkept (carry_of_delivered hd hop hrun x)
  refine ⟨xs', ys', kept_iff.mpr ⟨?_, ?_⟩⟩
  · refine ⟨hbox.fates, ?_, hbox.waiting, hbox.empty⟩
    rw [hbox.errors]
    refine List.map_congr_left ?_
    intro msg hmsg
    obtain ⟨-, hx⟩ := hretired (List.ne_nil_of_mem hmsg)
    have he : s₁.handles x = s.handles x := handles_eq hrun fun hreg => absurd hreg.2 (Nat.ne_of_lt hx)
    exact congrArg (·, msg.source) he.symm
  · intro hys
    obtain ⟨hcontext, hx⟩ := hretired hys
    exact ⟨gone_kept hd hop hrun hcontext hx, Nat.lt_of_lt_of_le hx hle⟩

end Run

theorem delivered_of_perform (hd : Delivered s) (hop : s.threads[i]? = some (op :: rest))
    (hrun : perform s ch op = some (s₁, new)) (hunused : op = .register → Unused s ch.handle) :
    Delivered (s.after s₁ i (new ++ rest)) := by
  have hi' := inv_of_perform hd.sound.inv hop hrun
  exact ⟨⟨hi', handled_of_perform hd.sound hop hrun hunused⟩, fun _ => frees_of_perform hd hop hrun hi',
    fun _ _ => released_of_perform hd hop hrun, fun x => ⟨kept_of_perform hd hop hrun x, freed_of_perform hd hop hrun hi' x⟩⟩

theorem delivered_start : Delivered Node.start where
  sound := by
    refine ⟨inv_start, ⟨nofun, nofun, nofun, nofun, ?_⟩⟩
    rintro a b ⟨⟨ctx, hctx, -⟩ | hq | hopens⟩
    · cases hctx
    · exact absurd rfl hq
    · exact absurd hopens (Nat.lt_irrefl 0)
  frees _ h := absurd h (Nat.lt_irrefl 0)
  released _ _ hq := nomatch hq
  mailbox _ := by
    refine ⟨⟨[], [], ⟨rfl, rfl, fun h => absurd rfl h, nofun, fun _ => ⟨rfl, rfl⟩⟩⟩, ⟨Nat.zero_le 1, nofun, nofun⟩⟩

theorem delivered_spawn (hd : Delivered s) (task : Task) : Delivered (s.spawn task) := by
  obtain ⟨⟨hi, howned, hqueue, hcontext, hnonzero, hdistinct⟩, hfrees, hreleased, hmailbox⟩ := hd
  have hflight : ∀ q, (s.spawn task).flight q = s.flight q := by
    intro q
    rw [Node.flight, Node.spawn, collect_append, Node.flight]
    cases task <;> exact List.append_nil _
  refine ⟨⟨inv_of_step hi (rfl : step s (.spawn task) = some _), ?_, hqueue, hcontext, hnonzero, ?_⟩, ?_, ?_, ?_⟩
  · intro t ht y hy
    rcases List.mem_append.mp ht with ht | ht
    · exact howned t ht y hy
    · rw [List.mem_singleton.mp ht] at hy
      rw [List.mem_singleton.mp hy]
      cases task <;> exact ⟨trivial, trivial⟩
  · intro a b ha hb
    rw [view_spawn] at ha hb
    exact hdistinct a b ha hb
  · intro q hq
    have hzero : (s.spawn task).frees q = s.frees q := total_spawn s (by cases task <;> rfl)
    exact hfrees q (hzero ▸ hq)
  · intro q mq hq hrelease
    rw [held_spawn]
    exact hreleased q mq hq hrelease
  · intro q
    obtain ⟨⟨xs, ys, hfates, herrors, hretired, hwaiting, hempty⟩, honce, hafter, hgone⟩ := hmailbox q
    refine ⟨⟨xs, ys, hfates, herrors, hretired, ?_, ?_⟩, honce, hafter, ?_⟩
    · rw [hflight]
      exact hwaiting
    · rw [hflight]
      exact hempty
    · rw [held_spawn]
      exact hgone

theorem delivered_of_step {l : Label} (hd : Delivered s) (hcareful : Careful s l) (h : step s l = some s') :
    Delivered s' := by
  cases l with
  | spawn task =>
    cases h
    exact delivered_spawn hd task
  | run i ch =>
    simp only [step] at h
    split at h
    · rename_i op rest hop
      split at h
      · rename_i s₁ new hrun
        cases h
        rw [perform_threads hrun]
        exact delivered_of_perform hd hop hrun fun he => hcareful rest (he ▸ hop)
      · cases h
    · cases h

theorem careful_of_head (h : s.threads[i]? = some (op :: rest)) (hop : op ≠ .register) : Careful s (.run i ch) := by
  intro rest' h'
  rw [h, Option.some.injEq, List.cons.injEq] at h'
  exact absurd h'.1 hop

def noChoice : Choice := ⟨none, 0, true, 0⟩

/-- The service is retired, and its handle is given to another before a worker has seen the queue. -/
def reused : List Label :=
  launched ++ ([.run 1 noChoice, .run 1 noChoice, .spawn (.killer 5), .run 2 ⟨some 0, 0, true, 0⟩, .run 2 noChoice,
    .run 2 noChoice, .spawn .launcher, .run 3 ⟨none, 5, true, 0⟩, .run 3 noChoice, .run 3 noChoice, .run 3 noChoice,
    .spawn .worker, .run 4 noChoice, .run 4 ⟨some 1, 0, true, 0⟩, .run 4 noChoice, .run 4 noChoice, .run 4 noChoice] :
      List Label)

end Mq
end Skynet
