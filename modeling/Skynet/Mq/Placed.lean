import Skynet.Mq.Node

/-!
# Skynet.Mq.Placed

Where a message queue is: linked in the global queue, held by a thread, or in neither place.

`in_global` is written under the lock of the queue, the global queue has a lock of its own, and a worker holds a queue
outside of both. So the places are counted over all threads, and `View` has all that a step may change of one queue and
its context.

* `Good` : the invariant of a queue and its context, with the reference count.
* `Move`, `good_of_move` : what a step does to them.
* `queue_placed` : a queue is in one place at most, and empty with `in_global` 0 when it is in none.
-/

namespace Skynet
namespace Mq

open Threads

variable {s s' : Node} {x q c i : Nat} {op : Op} {new rest : List Op} {ch : Choice} {own : Prop}

/-! ### Counts -/

/-- Whether the operation has the queue: no other thread may take it. -/
def Op.holds (q : Nat) : Op → Nat
  | .dispatch q' | .round q' _ _ _ | .measure q' _ _ _ _ | .deliver q' _ _ _ _ | .swap q' _ => one q' q
  | .link q' | .mqRelease q' | .drop q' | .free q' | .init q' _ => one q' q
  | _ => 0

/-- Whether the operation has a reference of the context, which the thread gives back later. -/
def Op.owes (c : Nat) : Op → Nat
  | .round _ c' _ _ | .measure _ c' _ _ _ | .deliver _ c' _ _ _ | .swap _ c' => one c' c
  | .push c' _ | .release c' | .store c' _ | .create c' _ | .init c' _ => one c' c
  | _ => 0

def Op.marks (c : Nat) : Op → Nat
  | .mark c' => one c' c
  | _ => 0

/-- Whether the queue of the context is still to be created. -/
def Op.opens (c : Nat) : Op → Nat
  | .store c' _ | .create c' _ => one c' c
  | _ => 0

namespace Node

def linked (s : Node) (q : Nat) : Nat := sumOf (fun q' => one q' q) s.global

def held (s : Node) (q : Nat) : Nat := total (Op.holds q) s.threads

def owes (s : Node) (c : Nat) : Nat := total (Op.owes c) s.threads

def marks (s : Node) (c : Nat) : Nat := total (Op.marks c) s.threads

def opens (s : Node) (c : Nat) : Nat := total (Op.opens c) s.threads

end Node

/-! ### One queue and its context -/

structure View where
  context : Option Context
  queue : Option MessageQueue
  placed : Nat
  owes : Nat
  marks : Nat
  opens : Nat

def Node.view (s : Node) (x : Nat) : View :=
  ⟨s.context x, s.queue x, s.linked x + s.held x, s.owes x, s.marks x, s.opens x⟩

/-- A queue is placed once while `in_global` is 1. Otherwise it is empty, and placed only to be dropped. -/
structure GoodQueue (v : View) (mq : MessageQueue) : Prop where
  ring : ∃ xs, mq.ring.Holds xs
  placed : mq.inGlobal = true → v.placed = 1
  idle : mq.inGlobal = false → mq.ring.head = mq.ring.tail ∧ v.placed ≤ 1 ∧ (mq.release = false → v.placed = 0)
  release : mq.release = true ↔ v.context = none

/-- The references of a context are those of the handle storage and of the threads. The last one is followed by
`skynet_mq_mark_release`. -/
structure GoodContext (v : View) (ctx : Context) : Prop where
  ref : ctx.ref = ctx.registered.toNat + v.owes
  marks : v.marks = if ctx.ref = 0 then 1 else 0
  opens : v.opens = 0 ∧ v.queue.isSome ∨ v.opens = 1 ∧ v.queue = none

structure Good (v : View) : Prop where
  queue : ∀ mq, v.queue = some mq → GoodQueue v mq
  noQueue : v.queue = none → v.placed = 0
  context : ∀ ctx, v.context = some ctx → GoodContext v ctx
  noContext : v.context = none → v.owes = 0 ∧ v.marks = 0 ∧ v.opens = 0

/-- What a step may do to a queue and its context. If every worker has the context of its queue, `own`, a queue is only
left by a worker with a reference. -/
inductive Move (own : Prop) (v : View) : View → Prop
  | same : Move own v v
  | grab {ctx : Context} (hctx : v.context = some ctx) (hreg : ctx.registered = true) :
      Move own v { v with context := some { ctx with ref := ctx.ref + 1 }, owes := v.owes + 1 }
  | handle {ctx : Context} (hctx : v.context = some ctx) (handle : Nat) :
      Move own v { v with context := some { ctx with handle := handle } }
  | pop {mq : MessageQueue} {msg : Message} {ring : RingBuf Message} (hq : v.queue = some mq)
      (hpop : mq.ring.pop = some (msg, ring)) (hplaced : 0 < v.placed) :
      Move own v { v with queue := some { mq with ring := ring } }
  | leave {mq : MessageQueue} {placed : Nat} (hq : v.queue = some mq) (hpop : mq.ring.pop = none)
      (hplaced : placed + 1 = v.placed) (howes : own → 0 < v.owes) :
      Move own v { v with queue := some { mq with inGlobal := false }, placed := placed }
  | dropped {mq : MessageQueue} (hq : v.queue = some mq) (hpop : mq.ring.pop = none) (hplaced : 0 < v.placed)
      (hrelease : mq.release = true) : Move own v { v with queue := some { mq with inGlobal := false } }
  | free {mq : MessageQueue} {placed : Nat} (hq : v.queue = some mq) (hrelease : mq.release = true)
      (hplaced : placed + 1 = v.placed) : Move own v { v with queue := none, placed := placed }
  | push {mq : MessageQueue} (hq : v.queue = some mq) (howes : 0 < v.owes) (hglobal : mq.inGlobal = true)
      (msg : Message) : Move own v { v with queue := some (mq.push msg) }
  | link {mq : MessageQueue} (hq : v.queue = some mq) (howes : 0 < v.owes) (hglobal : mq.inGlobal = false)
      (msg : Message) : Move own v { v with queue := some (mq.push msg), placed := v.placed + 1 }
  | release {ctx : Context} {owes : Nat} (hctx : v.context = some ctx) (howes : owes + 1 = v.owes) :
      Move own v { v with
        context := some { ctx with ref := ctx.ref - 1 }
        owes := owes
        marks := v.marks + if ctx.ref - 1 = 0 then 1 else 0 }
  | mark {mq : MessageQueue} {marks : Nat} (hq : v.queue = some mq) (hrelease : mq.release = false)
      (hmarks : marks + 1 = v.marks) :
      Move own v { v with
        context := none
        queue := some { mq with release := true }
        marks := marks
        placed := v.placed + if mq.inGlobal then 0 else 1 }
  | retire {ctx : Context} (hctx : v.context = some ctx) (hreg : ctx.registered = true) :
      Move own v { v with context := some { ctx with registered := false }, owes := v.owes + 1 }
  | register (hctx : v.context = none) (hq : v.queue = none) :
      Move own v { v with context := some ⟨0, 2, true⟩, owes := v.owes + 1, opens := v.opens + 1 }
  | create {opens : Nat} (handle : Nat) (hopens : opens + 1 = v.opens) :
      Move own v { v with queue := some (.create handle), placed := v.placed + 1, opens := opens }

theorem pop_none_iff {ring : RingBuf Message} : ring.pop = none ↔ ring.head = ring.tail := by
  unfold RingBuf.pop
  split
  · rename_i h
    exact ⟨fun _ => h, fun _ => rfl⟩
  · rename_i h
    exact ⟨nofun, fun he => absurd he h⟩

theorem holds_pop {ring ring' : RingBuf Message} {msg : Message} {xs : List Message} (h : ring.Holds xs)
    (hpop : ring.pop = some (msg, ring')) : ∃ ys, xs = msg :: ys ∧ ring'.Holds ys := by
  cases xs with
  | nil =>
    rw [RingBuf.pop_none h] at hpop
    cases hpop
  | cons y ys =>
    obtain ⟨ring'', hpop', -, hholds⟩ := RingBuf.pop_holds h
    rw [hpop] at hpop'
    cases hpop'
    exact ⟨ys, rfl, hholds⟩

theorem holds_push {mq : MessageQueue} {xs : List Message} (h : mq.ring.Holds xs) (msg : Message) :
    (mq.push msg).ring.Holds (xs ++ [msg]) := by
  have hlt := h.head_lt
  exact RingBuf.push_holds _ h (show mq.ring.cap < mq.ring.cap * 2 by omega) msg

theorem Good.owned {v : View} (hg : Good v) (howes : 0 < v.owes) :
    ∃ ctx, v.context = some ctx ∧ GoodContext v ctx := by
  cases hctx : v.context with
  | none =>
    have hzero := (hg.noContext hctx).1
    omega
  | some ctx => exact ⟨ctx, rfl, hg.context ctx hctx⟩

/-- The queue of a context that a thread has a reference of is not marked. -/
theorem Good.unmarked {v : View} {mq : MessageQueue} (hg : Good v) (howes : 0 < v.owes) (hq : v.queue = some mq) :
    mq.release = false := by
  obtain ⟨ctx, hctx, -⟩ := hg.owned howes
  rw [← Bool.not_eq_true, (hg.queue mq hq).release, hctx]
  exact Option.some_ne_none ctx

theorem Good.placed_le_one {v : View} {mq : MessageQueue} (hg : Good v) (hq : v.queue = some mq) : v.placed ≤ 1 := by
  obtain ⟨-, hplaced, hidle, -⟩ := hg.queue mq hq
  cases hglobal : mq.inGlobal with
  | true => exact Nat.le_of_eq (hplaced hglobal)
  | false => exact (hidle hglobal).2.1

/-- The queue changes, and its places. -/
theorem Good.setQueue {v : View} {mq mq' : MessageQueue} {placed : Nat} (hg : Good v) (hq : v.queue = some mq)
    (hg' : GoodQueue { v with queue := some mq', placed := placed } mq') :
    Good { v with queue := some mq', placed := placed } := by
  refine ⟨?_, nofun, ?_, hg.noContext⟩
  · intro mq₁ h
    cases h
    exact hg'
  · intro ctx hctx
    obtain ⟨href, hmarks, hopens⟩ := hg.context ctx hctx
    refine ⟨href, hmarks, ?_⟩
    rcases hopens with ⟨hopens, -⟩ | ⟨-, hnone⟩
    · exact .inl ⟨hopens, rfl⟩
    · rw [hq] at hnone
      cases hnone

/-- The context changes, and the references that threads have of it. -/
theorem Good.setContext {v : View} {ctx ctx' : Context} {owes marks : Nat} (hg : Good v) (hctx : v.context = some ctx)
    (href : ctx'.ref = ctx'.registered.toNat + owes) (hmarks : marks = if ctx'.ref = 0 then 1 else 0) :
    Good { v with context := some ctx', owes := owes, marks := marks } := by
  refine ⟨?_, hg.noQueue, ?_, nofun⟩
  · intro mq hq
    obtain ⟨hring, hplaced, hidle, hrelease⟩ := hg.queue mq hq
    rw [hctx] at hrelease
    exact ⟨hring, hplaced, hidle, hrelease.trans ⟨nofun, nofun⟩⟩
  · intro ctx₁ h
    cases h
    exact ⟨href, hmarks, (hg.context ctx hctx).opens⟩

theorem good_of_move {v v' : View} (hg : Good v) (h : Move own v v') : Good v' := by
  cases h with
  | same => exact hg
  | @grab ctx hctx hreg =>
    obtain ⟨href, hmarks, -⟩ := hg.context ctx hctx
    rw [hreg, Bool.toNat_true] at href
    have hne : ctx.ref ≠ 0 := by omega
    refine hg.setContext hctx ?_ ?_
    · simp only [hreg, Bool.toNat_true]
      omega
    · rw [hmarks, if_neg hne, if_neg (Nat.succ_ne_zero _)]
  | handle hctx handle =>
    obtain ⟨href, hmarks, -⟩ := hg.context _ hctx
    exact hg.setContext hctx href hmarks
  | pop hq hpop hplaced =>
    obtain ⟨⟨xs, hring⟩, hplace, hidle, hrelease⟩ := hg.queue _ hq
    obtain ⟨ys, -, hring'⟩ := holds_pop hring hpop
    refine hg.setQueue hq ⟨⟨ys, hring'⟩, hplace, ?_, hrelease⟩
    intro hglobal
    rw [pop_none_iff.mpr (hidle hglobal).1] at hpop
    cases hpop
  | @leave mq placed hq hpop hplaced =>
    obtain ⟨hring, -, -, hrelease⟩ := hg.queue _ hq
    have hone := hg.placed_le_one hq
    have hzero : placed = 0 := by omega
    exact hg.setQueue hq ⟨hring, nofun, fun _ => ⟨pop_none_iff.mp hpop,
      Nat.le_trans (Nat.le_of_eq hzero) (Nat.zero_le 1), fun _ => hzero⟩, hrelease⟩
  | dropped hq hpop hplaced hrel =>
    obtain ⟨hring, -, -, hrelease⟩ := hg.queue _ hq
    refine hg.setQueue hq ⟨hring, nofun, fun _ => ⟨pop_none_iff.mp hpop, hg.placed_le_one hq, ?_⟩, hrelease⟩
    intro hfalse
    rw [hrel] at hfalse
    cases hfalse
  | @free mq placed hq hrel hplaced =>
    have hctx := (hg.queue mq hq).release.mp hrel
    have hone := hg.placed_le_one hq
    refine ⟨nofun, fun _ => ?_, ?_, hg.noContext⟩
    · change placed = 0
      omega
    · intro ctx h
      rw [hctx] at h
      cases h
  | push hq howes hglobal msg =>
    obtain ⟨⟨xs, hring⟩, hplace, -, hrelease⟩ := hg.queue _ hq
    exact hg.setQueue hq ⟨⟨_, holds_push hring msg⟩, fun _ => hplace hglobal, nofun, hrelease⟩
  | link hq howes hglobal msg =>
    obtain ⟨⟨xs, hring⟩, -, hidle, hrelease⟩ := hg.queue _ hq
    have hzero := (hidle hglobal).2.2 (hg.unmarked howes hq)
    exact hg.setQueue hq ⟨⟨_, holds_push hring msg⟩, fun _ => congrArg (· + 1) hzero, nofun, hrelease⟩
  | @release ctx owes hctx howes =>
    obtain ⟨href, hmarks, -⟩ := hg.context ctx hctx
    have hne : ctx.ref ≠ 0 := by omega
    refine hg.setContext hctx ?_ ?_
    · change ctx.ref - 1 = ctx.registered.toNat + owes
      omega
    · rw [hmarks, if_neg hne, Nat.zero_add]
  | @mark mq marks hq hrel hmarks =>
    obtain ⟨hring, hplace, hidle, hrelease⟩ := hg.queue mq hq
    cases hctx : v.context with
    | none =>
      rw [hrelease.mpr hctx] at hrel
      cases hrel
    | some ctx =>
      obtain ⟨href, hmark, hopens⟩ := hg.context ctx hctx
      have hzero : ctx.ref = 0 := by
        by_contra hne
        rw [if_neg hne] at hmark
        omega
      rw [if_pos hzero] at hmark
      have hfree : v.owes = 0 ∧ marks = 0 ∧ v.opens = 0 := by
        refine ⟨by omega, by omega, ?_⟩
        rcases hopens with ⟨hopens, -⟩ | ⟨-, hnone⟩
        · exact hopens
        · rw [hq] at hnone
          cases hnone
      refine ⟨?_, nofun, nofun, fun _ => hfree⟩
      intro mq₁ h
      cases h
      refine ⟨hring, ?_, ?_, ⟨fun _ => rfl, fun _ => rfl⟩⟩
      · intro hglobal
        change mq.inGlobal = true at hglobal
        simp only [hglobal, if_true, Nat.add_zero]
        exact hplace hglobal
      · intro hglobal
        change mq.inGlobal = false at hglobal
        obtain ⟨hempty, -, hnot⟩ := hidle hglobal
        refine ⟨hempty, ?_, nofun⟩
        simp only [hglobal, Bool.false_eq_true, if_false, hnot hrel]
        exact Nat.le_refl _
  | @retire ctx hctx hreg =>
    obtain ⟨href, hmarks, -⟩ := hg.context ctx hctx
    rw [hreg, Bool.toNat_true] at href
    refine hg.setContext hctx ?_ hmarks
    change ctx.ref = false.toNat + (v.owes + 1)
    rw [Bool.toNat_false]
    omega
  | register hctx hq =>
    obtain ⟨howes, hmarks, hopens⟩ := hg.noContext hctx
    refine ⟨?_, hg.noQueue, ?_, nofun⟩
    · intro mq h
      rw [hq] at h
      cases h
    · intro ctx' h
      cases h
      refine ⟨?_, hmarks, .inr ⟨congrArg (· + 1) hopens, hq⟩⟩
      change 2 = true.toNat + (v.owes + 1)
      rw [Bool.toNat_true, howes]
  | @create opens handle hopens =>
    cases hctx : v.context with
    | none =>
      have hzero := (hg.noContext hctx).2.2
      omega
    | some ctx =>
      obtain ⟨href, hmarks, hopen⟩ := hg.context ctx hctx
      rcases hopen with ⟨hopen, -⟩ | ⟨hopen, hnone⟩
      · omega
      · have hplaced := hg.noQueue hnone
        have hzero : opens = 0 := by omega
        refine ⟨?_, nofun, ?_, nofun⟩
        · intro mq h
          cases h
          exact ⟨⟨[], RingBuf.empty_holds (by decide) _⟩, fun _ => congrArg (· + 1) hplaced, nofun, ⟨nofun, nofun⟩⟩
        · intro ctx' h
          cases h
          exact ⟨href, hmarks, .inl ⟨hzero, rfl⟩⟩

/-! ### Steps -/

theorem perform_threads (h : perform s ch op = some (s', new)) : s'.threads = s.threads := by
  cases op with
  | take | dispatch | round | measure | swap | mqRelease | drop | grab | release | mark | retire =>
    simp only [perform] at h
    repeat' split at h
    all_goals first | cases h; rfl | cases h
  | push c msgs =>
    cases msgs with
    | nil => cases h; rfl
    | cons msg msgs =>
      simp only [perform] at h
      repeat' split at h
      all_goals first | cases h; rfl | cases h
  | deliver | link | free | register | store | create | init => cases h; rfl

/-- What a step changes in the counts. -/
structure Counts (s s' : Node) (op : Op) (new : List Op) (x : Nat) : Prop where
  held : s'.held x + op.holds x = s.held x + sumOf (Op.holds x) new
  owes : s'.owes x + op.owes x = s.owes x + sumOf (Op.owes x) new
  marks : s'.marks x + op.marks x = s.marks x + sumOf (Op.marks x) new
  opens : s'.opens x + op.opens x = s.opens x + sumOf (Op.opens x) new

theorem move_of_eq {v v' w : View} (h : Move own v w) (he : v' = w) : Move own v v' := he ▸ h

/-- A step that only passes the queue on. -/
theorem move_same (hcontext : s'.context x = s.context x) (hqueue : s'.queue x = s.queue x)
    (hplaced : s'.linked x + s'.held x = s.linked x + s.held x) (howes : s'.owes x = s.owes x)
    (hmarks : s'.marks x = s.marks x) (hopens : s'.opens x = s.opens x) : Move own (s.view x) (s'.view x) := by
  have hview : s'.view x = s.view x := by
    rw [Node.view, hcontext, hqueue, hplaced, howes, hmarks, hopens, Node.view]
  rw [hview]
  exact .same

/-- The node after an operation. -/
def Node.after (s s₁ : Node) (i : Nat) (work : List Op) : Node := { s₁ with threads := s.threads.set i work }

section Moves

variable {s₁ : Node}

theorem counts_after (hop : s.threads[i]? = some (op :: rest)) (s₁ : Node) (new : List Op) (x : Nat) :
    Counts s (s.after s₁ i (new ++ rest)) op new x :=
  ⟨total_set _ hop new, total_set _ hop new, total_set _ hop new, total_set _ hop new⟩

/-- The queue is taken from the global queue, put back, or passed on. -/
theorem move_pass (hop : s.threads[i]? = some (op :: rest))
    (h : op = .take ∨ (∃ q, op = .link q) ∨ (∃ q c, op = .swap q c) ∨ ∃ q, op = .mqRelease q)
    (hrun : perform s ch op = some (s₁, new)) (x : Nat) : Move own (s.view x) ((s.after s₁ i (new ++ rest)).view x) := by
  obtain ⟨hheld, howes, hmarks, hopens⟩ := counts_after hop s₁ new x
  rcases h with rfl | ⟨q, rfl⟩ | ⟨q, c, rfl⟩ | ⟨q, rfl⟩
  · simp only [perform] at hrun
    split at hrun
    · cases hrun
      exact move_same rfl rfl (congrArg _ hheld) howes hmarks hopens
    · rename_i q global hglobal
      cases hrun
      simp only [Op.holds, Op.owes, Op.marks, Op.opens, sumOf_cons, sumOf_nil] at hheld howes hmarks hopens
      refine move_same rfl rfl ?_ howes hmarks hopens
      simp only [Node.linked, Node.after, hglobal, sumOf_cons] at hheld ⊢
      omega
  · cases hrun
    simp only [Op.holds, Op.owes, Op.marks, Op.opens, sumOf_nil] at hheld howes hmarks hopens
    refine move_same rfl rfl ?_ howes hmarks hopens
    simp only [Node.linked, Node.after, sumOf_append, sumOf_cons, sumOf_nil] at hheld ⊢
    omega
  · simp only [perform] at hrun
    split at hrun
    · split at hrun
      · cases hrun
        simp only [Op.holds, Op.owes, Op.marks, Op.opens, sumOf_cons, sumOf_nil] at hheld howes hmarks hopens
        refine move_same rfl rfl ?_ (by omega) hmarks hopens
        simp only [Node.linked, Node.after] at hheld ⊢
        omega
      · rename_i nq global hglobal
        cases hrun
        simp only [Op.holds, Op.owes, Op.marks, Op.opens, sumOf_cons, sumOf_nil] at hheld howes hmarks hopens
        refine move_same rfl rfl ?_ (by omega) hmarks hopens
        simp only [Node.linked, Node.after, hglobal, sumOf_cons] at hheld ⊢
        omega
    · cases hrun
  · simp only [perform] at hrun
    split at hrun
    · cases hrun
    · split at hrun
      · cases hrun
        simp only [Op.holds, Op.owes, Op.marks, Op.opens, sumOf_cons, sumOf_nil] at hheld howes hmarks hopens
        refine move_same rfl rfl ?_ howes hmarks hopens
        simp only [Node.linked, Node.after] at hheld ⊢
        omega
      · cases hrun
        simp only [Op.holds, Op.owes, Op.marks, Op.opens, sumOf_nil] at hheld howes hmarks hopens
        refine move_same rfl rfl ?_ howes hmarks hopens
        simp only [Node.linked, Node.after, sumOf_append, sumOf_cons, sumOf_nil] at hheld ⊢
        omega

theorem view_eq {v : View} (hcontext : s'.context x = v.context) (hqueue : s'.queue x = v.queue)
    (hplaced : s'.linked x + s'.held x = v.placed) (howes : s'.owes x = v.owes) (hmarks : s'.marks x = v.marks)
    (hopens : s'.opens x = v.opens) : s'.view x = v := by
  rw [Node.view, hcontext, hqueue, hplaced, howes, hmarks, hopens]

theorem finds_some {handle : Nat} (h : s.finds handle (some c) = true) :
    ∃ ctx, s.context c = some ctx ∧ ctx.registered = true ∧ ctx.handle = handle := by
  obtain ⟨ctx, hctx, hyes⟩ := (Option.any_eq_true ..).mp h
  rw [Bool.and_eq_true, beq_iff_eq] at hyes
  exact ⟨ctx, hctx, hyes⟩

/-- A reference is taken for the thread. -/
theorem move_refer {handle : Nat} (hfinds : s.finds handle (some c) = true) (x : Nat) {work : List Op}
    (hheld : (s.after (s.grab c) i work).held x = s.held x)
    (howes : (s.after (s.grab c) i work).owes x = s.owes x + one c x)
    (hmarks : (s.after (s.grab c) i work).marks x = s.marks x)
    (hopens : (s.after (s.grab c) i work).opens x = s.opens x) :
    Move own (s.view x) ((s.after (s.grab c) i work).view x) := by
  obtain ⟨ctx, hctx, hreg, -⟩ := finds_some hfinds
  by_cases hx : c = x
  · subst hx
    rw [one_self] at howes
    have hcontext : (s.after (s.grab c) i work).context c = some { ctx with ref := ctx.ref + 1 } := by
      simp only [Node.after, Node.grab, Node.setContext, Function.update_self, hctx, Option.map_some]
    exact move_of_eq (.grab hctx hreg) (view_eq hcontext rfl (congrArg _ hheld) howes hmarks hopens)
  · rw [one_of_ne hx] at howes
    have hcontext : (s.after (s.grab c) i work).context x = s.context x := by
      simp only [Node.after, Node.grab, Node.setContext, Function.update_of_ne (Ne.symm hx)]
    exact move_same hcontext rfl (congrArg _ hheld) howes hmarks hopens

theorem move_find (hop : s.threads[i]? = some (op :: rest)) (h : (∃ q, op = .dispatch q) ∨ ∃ handle msgs, op = .grab handle msgs)
    (hrun : perform s ch op = some (s₁, new)) (x : Nat) : Move own (s.view x) ((s.after s₁ i (new ++ rest)).view x) := by
  obtain ⟨hheld, howes, hmarks, hopens⟩ := counts_after hop s₁ new x
  rcases h with ⟨q, rfl⟩ | ⟨handle, msgs, rfl⟩
  · simp only [perform] at hrun
    split at hrun
    · cases hrun
    · split at hrun
      · rename_i hfinds
        split at hrun
        · cases hrun
          simp only [Op.holds, Op.owes, Op.marks, Op.opens, sumOf_cons, sumOf_nil] at hheld howes hmarks hopens
          exact move_same rfl rfl (congrArg _ (by omega)) howes hmarks hopens
        · rename_i c hfound
          cases hrun
          rw [hfound] at hfinds
          simp only [Op.holds, Op.owes, Op.marks, Op.opens, sumOf_cons, sumOf_nil] at hheld howes hmarks hopens
          exact move_refer hfinds x (by omega) (by omega) hmarks hopens
      · cases hrun
  · simp only [perform] at hrun
    split at hrun
    · rename_i hfinds
      split at hrun
      · cases hrun
        simp only [Op.holds, Op.owes, Op.marks, Op.opens, sumOf_nil] at hheld howes hmarks hopens
        exact move_same rfl rfl (congrArg _ hheld) howes hmarks hopens
      · rename_i c hfound
        cases hrun
        rw [hfound] at hfinds
        simp only [Op.holds, Op.owes, Op.marks, Op.opens, sumOf_cons, sumOf_nil] at hheld howes hmarks hopens
        exact move_refer hfinds x (by omega) (by omega) hmarks hopens
    · cases hrun

theorem linked_append (h : s'.global = s.global ++ [q]) (x : Nat) : s'.linked x = s.linked x + one q x := by
  rw [Node.linked, h, sumOf_append, sumOf_cons, sumOf_nil, Nat.add_zero, Node.linked]

/-- A queue changes, and where it is. -/
theorem move_set {mq' : Option MessageQueue} (hcontext : s'.context x = s.context x)
    (hqueue : s'.queue = Function.update s.queue q mq')
    (hother : x ≠ q → s'.linked x + s'.held x = s.linked x + s.held x) (howes : s'.owes x = s.owes x)
    (hmarks : s'.marks x = s.marks x) (hopens : s'.opens x = s.opens x)
    (hself : x = q → Move own (s.view x) { s.view x with queue := mq', placed := s'.linked x + s'.held x }) :
    Move own (s.view x) (s'.view x) := by
  by_cases hx : x = q
  · refine move_of_eq (hself hx) (view_eq hcontext ?_ rfl howes hmarks hopens)
    rw [hqueue, hx, Function.update_self]
  · refine move_same hcontext ?_ (hother hx) howes hmarks hopens
    rw [hqueue, Function.update_of_ne hx]

/-- The places after a move, as they are counted. -/
theorem Move.stay {v : View} {queue : Option MessageQueue} {placed placed' : Nat}
    (h : Move own v { v with queue := queue, placed := placed }) (hplaced : placed' = placed) :
    Move own v { v with queue := queue, placed := placed' } := by
  rw [hplaced]
  exact h

/-- The context of a worker is that of its queue. -/
def Op.Owned : Op → Prop
  | .round q c _ _ | .measure q c _ _ _ | .deliver q c _ _ _ | .swap q c => c = q
  | _ => True

/-- A worker takes a message, or finds the queue empty. -/
theorem move_take (hop : s.threads[i]? = some (op :: rest)) (h : ∃ q c k n, op = .round q c k n) (hown : own → op.Owned)
    (hrun : perform s ch op = some (s₁, new)) (x : Nat) : Move own (s.view x) ((s.after s₁ i (new ++ rest)).view x) := by
  obtain ⟨hheld, howes, hmarks, hopens⟩ := counts_after hop s₁ new x
  have hholds := le_total (Op.holds x) hop
  have howed := le_total (Op.owes x) hop
  obtain ⟨q, c, k, n, rfl⟩ := h
  simp only [perform] at hrun
  split at hrun
  · cases hrun
  · rename_i mq hq
    split at hrun
    · rename_i hpop
      cases hrun
      simp only [Op.holds, Op.owes, Op.marks, Op.opens, sumOf_cons, sumOf_nil] at hheld howes hmarks hopens
      refine move_set rfl rfl ?_ (by omega) hmarks hopens ?_
      · intro hx
        rw [one_of_ne (Ne.symm hx)] at hheld
        exact congrArg _ hheld
      · rintro rfl
        rw [one_self] at hheld
        refine .leave hq hpop (congrArg (s.linked x + ·) hheld) ?_
        intro hyes
        rw [Op.owes, show c = x from hown hyes, one_self] at howed
        exact howed
    · rename_i msg ring hpop
      cases hrun
      simp only [Op.holds, Op.owes, Op.marks, Op.opens, sumOf_cons, sumOf_nil] at hheld howes hmarks hopens hholds
      refine move_set rfl rfl (fun _ => congrArg _ (by omega)) (by omega) hmarks hopens ?_
      rintro rfl
      rw [one_self] at hholds hheld
      exact .stay (.pop hq hpop (Nat.lt_of_lt_of_le hholds (Nat.le_add_left ..))) (congrArg _ (by omega))

/-- A thread looks at the queue that it has, or handles a message that it has taken. -/
theorem move_look (hop : s.threads[i]? = some (op :: rest))
    (h : (∃ q c k n msg, op = .measure q c k n msg) ∨ ∃ q c k n msg, op = .deliver q c k n msg)
    (hrun : perform s ch op = some (s₁, new)) (x : Nat) : Move own (s.view x) ((s.after s₁ i (new ++ rest)).view x) := by
  obtain ⟨hheld, howes, hmarks, hopens⟩ := counts_after hop s₁ new x
  rcases h with ⟨q, c, k, n, msg, rfl⟩ | ⟨q, c, k, n, msg, rfl⟩
  · simp only [perform] at hrun
    split at hrun
    · cases hrun
    · cases hrun
      simp only [Op.holds, Op.owes, Op.marks, Op.opens, sumOf_cons, sumOf_nil] at hheld howes hmarks hopens
      exact move_same rfl rfl (congrArg _ (by omega)) (by omega) hmarks hopens
  · simp only [perform] at hrun
    split at hrun <;>
      · cases hrun
        simp only [Op.holds, Op.owes, Op.marks, Op.opens, sumOf_cons, sumOf_nil] at hheld howes hmarks hopens
        exact move_same rfl rfl (congrArg _ (by omega)) (by omega) hmarks hopens

/-- A released queue is emptied and freed. -/
theorem move_drop (hop : s.threads[i]? = some (op :: rest)) (h : op = .drop q ∨ op = .free q) {mq : MessageQueue}
    (hq : s.queue q = some mq) (hrelease : mq.release = true) (hrun : perform s ch op = some (s₁, new)) (x : Nat) :
    Move own (s.view x) ((s.after s₁ i (new ++ rest)).view x) := by
  obtain ⟨hheld, howes, hmarks, hopens⟩ := counts_after hop s₁ new x
  have hholds := le_total (Op.holds x) hop
  rcases h with rfl | rfl
  · simp only [perform, hq] at hrun
    split at hrun
    · rename_i hpop
      cases hrun
      simp only [Op.holds, Op.owes, Op.marks, Op.opens, sumOf_cons, sumOf_nil] at hheld howes hmarks hopens hholds
      refine move_set rfl rfl (fun _ => congrArg _ (by omega)) howes hmarks hopens ?_
      rintro rfl
      rw [one_self] at hholds hheld
      exact .stay (.dropped hq hpop (Nat.lt_of_lt_of_le hholds (Nat.le_add_left ..)) hrelease) (congrArg _ (by omega))
    · rename_i msg ring hpop
      split at hrun
      · cases hrun
      · cases hrun
        simp only [Op.holds, Op.owes, Op.marks, Op.opens, sumOf_cons, sumOf_nil] at hheld howes hmarks hopens hholds
        refine move_set rfl rfl (fun _ => congrArg _ (by omega)) howes hmarks hopens ?_
        rintro rfl
        rw [one_self] at hholds hheld
        exact .stay (.pop hq hpop (Nat.lt_of_lt_of_le hholds (Nat.le_add_left ..))) (congrArg _ (by omega))
  · cases hrun
    simp only [Op.holds, Op.owes, Op.marks, Op.opens, sumOf_nil] at hheld howes hmarks hopens
    refine move_set rfl rfl ?_ howes hmarks hopens ?_
    · intro hx
      rw [one_of_ne (Ne.symm hx)] at hheld
      exact congrArg _ hheld
    · rintro rfl
      rw [one_self] at hheld
      exact .free hq hrelease (congrArg (s.linked x + ·) hheld)

/-- A sender pushes. -/
theorem move_push (hop : s.threads[i]? = some (op :: rest)) (h : ∃ c msgs, op = .push c msgs)
    (hrun : perform s ch op = some (s₁, new)) (x : Nat) : Move own (s.view x) ((s.after s₁ i (new ++ rest)).view x) := by
  obtain ⟨hheld, howes, hmarks, hopens⟩ := counts_after hop s₁ new x
  have howed := le_total (Op.owes x) hop
  obtain ⟨c, msgs, rfl⟩ := h
  cases msgs with
  | nil =>
    cases hrun
    simp only [Op.holds, Op.owes, Op.marks, Op.opens, sumOf_cons, sumOf_nil] at hheld howes hmarks hopens
    exact move_same rfl rfl (congrArg _ (by omega)) (by omega) hmarks hopens
  | cons msg msgs =>
    simp only [perform] at hrun
    split at hrun
    · cases hrun
    · rename_i mq hq
      split at hrun
      · rename_i hglobal
        cases hrun
        simp only [Op.holds, Op.owes, Op.marks, Op.opens, sumOf_cons, sumOf_nil] at hheld howes hmarks hopens howed
        refine move_set rfl rfl (fun _ => congrArg _ (by omega)) (by omega) hmarks hopens ?_
        rintro rfl
        rw [one_self] at howed
        exact .stay (.push (v := s.view x) hq howed hglobal msg) (congrArg _ (by omega))
      · rename_i hglobal
        cases hrun
        simp only [Op.holds, Op.owes, Op.marks, Op.opens, sumOf_cons, sumOf_nil] at hheld howes hmarks hopens howed
        refine move_set rfl rfl ?_ (by omega) hmarks hopens ?_
        · intro hx
          rw [linked_append (s := s) (q := c) rfl, one_of_ne (Ne.symm hx)]
          omega
        · rintro rfl
          rw [one_self] at howed
          refine .stay (.link (v := s.view x) hq howed (Bool.of_not_eq_true hglobal) msg) ?_
          rw [linked_append (s := s) (q := x) rfl, one_self]
          change _ = s.linked x + s.held x + 1
          omega

/-- A context changes, and what the threads have of it. -/
theorem move_context {ctx' : Option Context}
    (hcontext : s'.context = Function.update s.context c ctx') (hqueue : x ≠ c → s'.queue x = s.queue x)
    (hplaced : x ≠ c → s'.linked x + s'.held x = s.linked x + s.held x) (howes : x ≠ c → s'.owes x = s.owes x)
    (hmarks : x ≠ c → s'.marks x = s.marks x) (hopens : x ≠ c → s'.opens x = s.opens x)
    (hself : x = c → Move own (s.view x)
      ⟨ctx', s'.queue x, s'.linked x + s'.held x, s'.owes x, s'.marks x, s'.opens x⟩) :
    Move own (s.view x) (s'.view x) := by
  by_cases hx : x = c
  · refine move_of_eq (hself hx) (view_eq ?_ rfl rfl rfl rfl rfl)
    rw [hcontext, hx, Function.update_self]
  · refine move_same ?_ (hqueue hx) (hplaced hx) (howes hx) (hmarks hx) (hopens hx)
    rw [hcontext, Function.update_of_ne hx]

/-- A reference is given back. -/
theorem move_release (hop : s.threads[i]? = some (op :: rest)) (h : ∃ c, op = .release c)
    (hrun : perform s ch op = some (s₁, new)) (x : Nat) : Move own (s.view x) ((s.after s₁ i (new ++ rest)).view x) := by
  obtain ⟨hheld, howes, hmarks, hopens⟩ := counts_after hop s₁ new x
  obtain ⟨c, rfl⟩ := h
  simp only [perform] at hrun
  split at hrun
  · cases hrun
  · rename_i ctx hctx
    have hnew : sumOf (Op.holds x) new = 0 ∧ sumOf (Op.owes x) new = 0 ∧ sumOf (Op.opens x) new = 0 ∧
        sumOf (Op.marks x) new = if ctx.ref - 1 = 0 then one c x else 0 := by
      cases hrun
      split <;> exact ⟨rfl, rfl, rfl, rfl⟩
    obtain ⟨hnewHeld, hnewOwes, hnewOpens, hnewMarks⟩ := hnew
    cases hrun
    rw [hnewHeld] at hheld
    rw [hnewOwes] at howes
    rw [hnewMarks] at hmarks
    rw [hnewOpens] at hopens
    simp only [Op.holds, Op.owes, Op.marks, Op.opens] at hheld howes hmarks hopens
    refine move_context rfl (fun _ => rfl) (fun _ => congrArg _ hheld) ?_ ?_ (fun _ => hopens) ?_
    · intro hx
      rw [one_of_ne (Ne.symm hx)] at howes
      exact howes
    · intro hx
      rw [one_of_ne (Ne.symm hx), ite_self] at hmarks
      exact hmarks
    · rintro rfl
      rw [one_self] at howes hmarks
      refine move_of_eq (.release (v := s.view x) hctx howes) ?_
      rw [View.mk.injEq]
      exact ⟨rfl, rfl, congrArg _ hheld, rfl, hmarks, hopens⟩

/-- The slot of a context in the handle storage is cleared, and its reference is left to the thread. -/
theorem move_retire (hop : s.threads[i]? = some (op :: rest)) (h : ∃ handle, op = .retire handle)
    (hrun : perform s ch op = some (s₁, new)) (x : Nat) : Move own (s.view x) ((s.after s₁ i (new ++ rest)).view x) := by
  obtain ⟨hheld, howes, hmarks, hopens⟩ := counts_after hop s₁ new x
  obtain ⟨handle, rfl⟩ := h
  simp only [perform] at hrun
  split at hrun
  · rename_i hfinds
    split at hrun
    · cases hrun
      exact move_same rfl rfl (congrArg _ hheld) howes hmarks hopens
    · rename_i c hfound
      rw [hfound] at hfinds
      obtain ⟨ctx, hctx, hreg, -⟩ := finds_some hfinds
      rw [hctx, Option.map_some] at hrun
      cases hrun
      simp only [Op.holds, Op.owes, Op.marks, Op.opens, sumOf_cons, sumOf_nil] at hheld howes hmarks hopens
      refine move_context rfl (fun _ => rfl) (fun _ => congrArg _ hheld) ?_ (fun _ => hmarks) (fun _ => hopens) ?_
      · intro hx
        rw [one_of_ne (Ne.symm hx)] at howes
        exact howes
      · rintro rfl
        rw [one_self] at howes
        refine move_of_eq (.retire (v := s.view x) hctx hreg) ?_
        rw [View.mk.injEq]
        exact ⟨rfl, rfl, congrArg _ hheld, howes, hmarks, hopens⟩
  · cases hrun

/-- `skynet_mq_mark_release`. -/
theorem move_mark (hop : s.threads[i]? = some (op :: rest)) (h : ∃ c, op = .mark c)
    (hrun : perform s ch op = some (s₁, new)) (x : Nat) : Move own (s.view x) ((s.after s₁ i (new ++ rest)).view x) := by
  obtain ⟨hheld, howes, hmarks, hopens⟩ := counts_after hop s₁ new x
  obtain ⟨c, rfl⟩ := h
  simp only [perform] at hrun
  split at hrun
  · cases hrun
  · rename_i mq hq
    split at hrun
    · cases hrun
    · rename_i hrelease
      have hnew : new = [] ∧ s₁.context = Function.update s.context c none ∧
          s₁.queue = Function.update s.queue c (some { mq with release := true }) ∧
          s₁.linked x = s.linked x + if mq.inGlobal then 0 else one c x := by
        split at hrun <;> rename_i hglobal <;> cases hrun <;> refine ⟨rfl, rfl, rfl, ?_⟩
        · rw [if_pos hglobal]
          rfl
        · rw [if_neg hglobal]
          exact linked_append rfl x
      obtain ⟨rfl, hcontext, hqueue, hlinked⟩ := hnew
      simp only [Op.holds, Op.owes, Op.marks, Op.opens, sumOf_nil] at hheld howes hmarks hopens
      have hlinked' : (s.after s₁ i ([] ++ rest)).linked x = s.linked x + if mq.inGlobal then 0 else one c x := hlinked
      refine move_context hcontext ?_ ?_ (fun _ => howes) ?_ (fun _ => hopens) ?_
      · intro hx
        exact (congrFun hqueue x).trans (Function.update_of_ne hx ..)
      · intro hx
        rw [hlinked', one_of_ne (Ne.symm hx), ite_self]
        exact congrArg _ hheld
      · intro hx
        rw [one_of_ne (Ne.symm hx)] at hmarks
        exact hmarks
      · rintro rfl
        rw [one_self] at hmarks hlinked'
        refine move_of_eq (.mark (v := s.view x) hq (Bool.of_not_eq_true hrelease) hmarks) ?_
        rw [View.mk.injEq]
        refine ⟨rfl, (congrFun hqueue x).trans (Function.update_self ..), ?_, howes, rfl, hopens⟩
        rw [hlinked']
        change _ = s.linked x + s.held x + _
        omega

/-- A context is created, up to the init function. -/
theorem move_open (hfresh : s.context s.contexts = none ∧ s.queue s.contexts = none)
    (hop : s.threads[i]? = some (op :: rest))
    (h : op = .register ∨ (∃ c handle, op = .store c handle) ∨ (∃ c handle, op = .create c handle) ∨
      ∃ c handle, op = .init c handle)
    (hrun : perform s ch op = some (s₁, new)) (x : Nat) : Move own (s.view x) ((s.after s₁ i (new ++ rest)).view x) := by
  obtain ⟨hheld, howes, hmarks, hopens⟩ := counts_after hop s₁ new x
  rcases h with rfl | ⟨c, handle, rfl⟩ | ⟨c, handle, rfl⟩ | ⟨c, handle, rfl⟩
  · cases hrun
    simp only [Op.holds, Op.owes, Op.marks, Op.opens, sumOf_cons, sumOf_nil] at hheld howes hmarks hopens
    refine move_context rfl (fun _ => rfl) (fun _ => congrArg _ hheld) ?_ (fun _ => hmarks) ?_ ?_
    · intro hx
      rw [one_of_ne (Ne.symm hx)] at howes
      exact howes
    · intro hx
      rw [one_of_ne (Ne.symm hx)] at hopens
      exact hopens
    · rintro rfl
      rw [one_self] at howes hopens
      refine move_of_eq (.register (v := s.view s.contexts) hfresh.1 hfresh.2) ?_
      rw [View.mk.injEq]
      exact ⟨rfl, rfl, congrArg _ hheld, howes, hmarks, hopens⟩
  · simp only [perform] at hrun
    cases hctx : s.context c with
    | none =>
      rw [hctx] at hrun
      cases hrun
      simp only [Op.holds, Op.owes, Op.marks, Op.opens, sumOf_cons, sumOf_nil] at hheld howes hmarks hopens
      refine move_same ?_ rfl (congrArg _ hheld) (by omega) hmarks (by omega)
      by_cases hx : x = c
      · rw [hx, hctx]
        exact Function.update_self ..
      · exact Function.update_of_ne hx ..
    | some ctx =>
      rw [hctx] at hrun
      cases hrun
      simp only [Op.holds, Op.owes, Op.marks, Op.opens, sumOf_cons, sumOf_nil] at hheld howes hmarks hopens
      refine move_context rfl (fun _ => rfl) (fun _ => congrArg _ hheld) (fun _ => by omega) (fun _ => hmarks)
        (fun _ => by omega) ?_
      rintro rfl
      refine move_of_eq (.handle (v := s.view x) hctx handle) ?_
      rw [View.mk.injEq]
      exact ⟨rfl, rfl, congrArg _ hheld, by change _ = s.owes x; omega, hmarks, by change _ = s.opens x; omega⟩
  · cases hrun
    have hopen := le_total (Op.opens x) hop
    simp only [Op.holds, Op.owes, Op.marks, Op.opens, sumOf_cons, sumOf_nil] at hheld howes hmarks hopens hopen
    by_cases hx : x = c
    · subst hx
      rw [one_self] at hheld hopens
      refine move_of_eq (.create (v := s.view x) handle hopens) (view_eq rfl (Function.update_self ..) ?_ ?_ hmarks rfl)
      · change s.linked x + _ = s.linked x + s.held x + 1
        omega
      · change _ = s.owes x
        omega
    · rw [one_of_ne (Ne.symm hx)] at hheld hopens
      exact move_same rfl (Function.update_of_ne hx ..) (congrArg _ (by omega)) (by omega) hmarks (by omega)
  · simp only [perform] at hrun
    split at hrun <;>
      · cases hrun
        simp only [Op.holds, Op.owes, Op.marks, Op.opens, sumOf_cons, sumOf_nil] at hheld howes hmarks hopens
        exact move_same rfl rfl (congrArg _ (by omega)) (by omega) hmarks hopens

end Moves

/-! ### The invariant -/

/-- Whether the operation empties or frees the queue. -/
def Op.drops (q : Nat) : Op → Nat
  | .drop q' | .free q' => one q' q
  | _ => 0

def Node.drops (s : Node) (q : Nat) : Nat := total (Op.drops q) s.threads

structure Inv (s : Node) : Prop where
  good : ∀ x, Good (s.view x)
  fresh : ∀ x, s.contexts ≤ x → s.context x = none ∧ s.queue x = none
  drops : ∀ q, 0 < s.drops q → ∃ mq, s.queue q = some mq ∧ mq.release = true

theorem drops_le_held (s : Node) (q : Nat) : s.drops q ≤ s.held q := by
  refine total_mono ?_ s.threads
  intro op
  cases op <;> first | exact Nat.zero_le _ | exact Nat.le_refl _

variable {s₁ : Node}

/-- Only `skynet_mq_release` begins to empty a queue, and only `skynet_handle_register` opens a context. -/
theorem new_of_perform (h : perform s ch op = some (s₁, new)) (x : Nat) :
    (sumOf (Op.drops x) new ≤ op.drops x ∨
      ∃ mq, s.queue x = some mq ∧ mq.release = true ∧ s₁.queue x = some mq) ∧
    (sumOf (Op.opens x) new ≤ op.opens x ∨ op = .register ∧ x = s.contexts) ∧
    (s₁.contexts = s.contexts ∨ op = .register ∧ s₁.contexts = s.contexts + 1) := by
  cases op with
  | mqRelease q =>
    simp only [perform] at h
    split at h
    · cases h
    · rename_i mq hq
      split at h
      · rename_i hrelease
        cases h
        refine ⟨?_, .inl (Nat.zero_le _), .inl rfl⟩
        by_cases hx : q = x
        · subst hx
          exact .inr ⟨mq, hq, hrelease, hq⟩
        · refine .inl ?_
          rw [sumOf_cons, sumOf_nil, Op.drops, one_of_ne hx]
          exact Nat.zero_le _
      · cases h
        exact ⟨.inl (Nat.zero_le _), .inl (Nat.zero_le _), .inl rfl⟩
  | drop q =>
    simp only [perform] at h
    repeat' split at h
    all_goals first | cases h; exact ⟨.inl (Nat.le_refl _), .inl (Nat.zero_le _), .inl rfl⟩ | cases h
  | register =>
    cases h
    refine ⟨.inl (Nat.zero_le _), ?_, .inr ⟨rfl, rfl⟩⟩
    by_cases hx : s.contexts = x
    · exact .inr ⟨rfl, hx.symm⟩
    · refine .inl ?_
      rw [sumOf_cons, sumOf_nil, Op.opens, one_of_ne hx]
      exact Nat.zero_le _
  | store c handle =>
    cases h
    exact ⟨.inl (Nat.zero_le _), .inl (Nat.le_refl _), .inl rfl⟩
  | push c msgs =>
    cases msgs with
    | nil =>
      cases h
      exact ⟨.inl (Nat.zero_le _), .inl (Nat.zero_le _), .inl rfl⟩
    | cons msg msgs =>
      simp only [perform] at h
      repeat' split at h
      all_goals first | cases h; exact ⟨.inl (Nat.zero_le _), .inl (Nat.zero_le _), .inl rfl⟩ | cases h
  | take | dispatch | round | measure | swap | grab | release | mark | retire | init | deliver =>
    simp only [perform] at h
    repeat' split at h
    all_goals first | cases h; exact ⟨.inl (Nat.zero_le _), .inl (Nat.zero_le _), .inl rfl⟩ | cases h
  | link | free | create =>
    cases h
    exact ⟨.inl (Nat.zero_le _), .inl (Nat.zero_le _), .inl rfl⟩

theorem move_of_perform (hi : Inv s) (hown : own → op.Owned) (hop : s.threads[i]? = some (op :: rest))
    (hrun : perform s ch op = some (s₁, new)) (x : Nat) : Move own (s.view x) ((s.after s₁ i (new ++ rest)).view x) := by
  have hdrops : ∀ q, op.drops q = 1 → ∃ mq, s.queue q = some mq ∧ mq.release = true := by
    intro q hq
    have hle := le_total (Op.drops q) hop
    exact hi.drops q (Nat.lt_of_lt_of_le (hq ▸ Nat.one_pos) hle)
  cases op with
  | take => exact move_pass hop (.inl rfl) hrun x
  | link q => exact move_pass hop (.inr (.inl ⟨q, rfl⟩)) hrun x
  | swap q c => exact move_pass hop (.inr (.inr (.inl ⟨q, c, rfl⟩))) hrun x
  | mqRelease q => exact move_pass hop (.inr (.inr (.inr ⟨q, rfl⟩))) hrun x
  | dispatch q => exact move_find hop (.inl ⟨q, rfl⟩) hrun x
  | grab handle msgs => exact move_find hop (.inr ⟨handle, msgs, rfl⟩) hrun x
  | round q c k n => exact move_take hop ⟨q, c, k, n, rfl⟩ hown hrun x
  | measure q c k n msg => exact move_look hop (.inl ⟨q, c, k, n, msg, rfl⟩) hrun x
  | deliver q c k n msg => exact move_look hop (.inr ⟨q, c, k, n, msg, rfl⟩) hrun x
  | drop q =>
    obtain ⟨mq, hq, hrelease⟩ := hdrops q (one_self q)
    exact move_drop hop (.inl rfl) hq hrelease hrun x
  | free q =>
    obtain ⟨mq, hq, hrelease⟩ := hdrops q (one_self q)
    exact move_drop hop (.inr rfl) hq hrelease hrun x
  | push c msgs => exact move_push hop ⟨c, msgs, rfl⟩ hrun x
  | release c => exact move_release hop ⟨c, rfl⟩ hrun x
  | mark c => exact move_mark hop ⟨c, rfl⟩ hrun x
  | retire handle => exact move_retire hop ⟨handle, rfl⟩ hrun x
  | register => exact move_open (hi.fresh s.contexts (Nat.le_refl _)) hop (.inl rfl) hrun x
  | store c handle => exact move_open (hi.fresh s.contexts (Nat.le_refl _)) hop (.inr (.inl ⟨c, handle, rfl⟩)) hrun x
  | create c handle =>
    exact move_open (hi.fresh s.contexts (Nat.le_refl _)) hop (.inr (.inr (.inl ⟨c, handle, rfl⟩))) hrun x
  | init c handle =>
    exact move_open (hi.fresh s.contexts (Nat.le_refl _)) hop (.inr (.inr (.inr ⟨c, handle, rfl⟩))) hrun x

/-- A queue that is released stays so until it is freed. -/
theorem Move.released {v v' : View} {mq : MessageQueue} (h : Move own v v') (hg : Good v) (hq : v.queue = some mq)
    (hrelease : mq.release = true) : (∃ mq', v'.queue = some mq' ∧ mq'.release = true) ∨ v'.placed = 0 := by
  have hone := hg.placed_le_one hq
  cases h with
  | same | grab | handle | release | retire | register => exact .inl ⟨mq, hq, hrelease⟩
  | pop hq' | leave hq' | dropped hq' | push hq' | link hq' =>
    rw [hq, Option.some.injEq] at hq'
    subst hq'
    exact .inl ⟨_, rfl, hrelease⟩
  | mark => exact .inl ⟨_, rfl, rfl⟩
  | @free _ placed _ _ hplaced =>
    refine .inr ?_
    change placed = 0
    omega
  | create _ hopens =>
    cases hctx : v.context with
    | none =>
      have hzero := (hg.noContext hctx).2.2
      omega
    | some ctx =>
      rcases (hg.context ctx hctx).opens with ⟨hzero, -⟩ | ⟨-, hnone⟩
      · omega
      · rw [hq] at hnone
        cases hnone

/-- A number that is not used stays so, but for the context that is opened. -/
theorem Move.unused {v v' : View} (h : Move own v v') (hg : Good v) (hcontext : v.context = none) (hqueue : v.queue = none) :
    v'.context = none ∧ v'.queue = none ∨ 0 < v'.opens := by
  obtain ⟨howes, hmarks, hopens⟩ := hg.noContext hcontext
  cases h with
  | same => exact .inl ⟨hcontext, hqueue⟩
  | grab hctx | handle hctx | release hctx | retire hctx =>
    rw [hcontext] at hctx
    cases hctx
  | pop hq | leave hq | dropped hq | free hq | push hq | link hq | mark hq =>
    rw [hqueue] at hq
    cases hq
  | register => exact .inr (Nat.succ_pos _)
  | create _ hopen => omega

/-- A number without a context is opened by `skynet_handle_register` only. -/
theorem unopened (hi : Inv s) (hop : s.threads[i]? = some (op :: rest)) (hrun : perform s ch op = some (s₁, new))
    (hcontext : s.context x = none) (hx : ¬(op = .register ∧ x = s.contexts)) :
    (s.after s₁ i (new ++ rest)).opens x = 0 := by
  obtain ⟨-, hopen, -⟩ := new_of_perform hrun x
  have hopens := total_set (Op.opens x) hop new
  have hzero : total (Op.opens x) s.threads = 0 := ((hi.good x).noContext hcontext).2.2
  have hle := hopen.resolve_right hx
  change total (Op.opens x) (s.threads.set i (new ++ rest)) = 0
  omega

theorem inv_of_perform (hi : Inv s) (hop : s.threads[i]? = some (op :: rest))
    (hrun : perform s ch op = some (s₁, new)) : Inv (s.after s₁ i (new ++ rest)) := by
  have hmove : ∀ x, Move False (s.view x) ((s.after s₁ i (new ++ rest)).view x) :=
    move_of_perform hi False.elim hop hrun
  have hgood : ∀ x, Good ((s.after s₁ i (new ++ rest)).view x) := fun x => good_of_move (hi.good x) (hmove x)
  refine ⟨hgood, ?_, ?_⟩
  · intro x hx
    obtain ⟨-, -, hcontexts⟩ := new_of_perform hrun x
    have hx : s.contexts ≤ x ∧ ¬(op = .register ∧ x = s.contexts) := by
      change s₁.contexts ≤ x at hx
      rcases hcontexts with hsame | ⟨hreg, hsucc⟩
      · refine ⟨by omega, ?_⟩
        rintro ⟨rfl, -⟩
        cases hrun
        exact absurd hsame (Nat.succ_ne_self _)
      · exact ⟨by omega, fun h => by omega⟩
    obtain ⟨hcontext, hqueue⟩ := hi.fresh x hx.1
    rcases (hmove x).unused (hi.good x) hcontext hqueue with hnone | hpos
    · exact hnone
    · exact absurd (unopened hi hop hrun hcontext hx.2) (Nat.ne_of_gt hpos)
  · intro q hq
    obtain ⟨hdrop, -, -⟩ := new_of_perform hrun q
    have hdrops := total_set (Op.drops q) hop new
    rcases hdrop with hle | ⟨mq, hmq, hrelease, hmq'⟩
    · have hpos : 0 < s.drops q := by
        change 0 < total (Op.drops q) (s.threads.set i (new ++ rest)) at hq
        change 0 < total (Op.drops q) s.threads
        omega
      obtain ⟨mq, hmq, hrelease⟩ := hi.drops q hpos
      rcases (hmove q).released (hi.good q) hmq hrelease with hkept | hfree
      · exact hkept
      · have hheld := drops_le_held (s.after s₁ i (new ++ rest)) q
        change (s.after s₁ i (new ++ rest)).linked q + (s.after s₁ i (new ++ rest)).held q = 0 at hfree
        omega
    · exact ⟨mq, hmq', hrelease⟩

theorem inv_start : Inv Node.start where
  good _ := ⟨nofun, fun _ => rfl, nofun, fun _ => ⟨rfl, rfl, rfl⟩⟩
  fresh _ _ := ⟨rfl, rfl⟩
  drops _ h := absurd h (Nat.lt_irrefl 0)

/-- The node with a new thread. -/
def Node.spawn (s : Node) (task : Task) : Node := { s with threads := s.threads ++ [[task.op]] }

theorem total_spawn (s : Node) {f : Op → Nat} {task : Task} (hf : f task.op = 0) :
    total f (s.spawn task).threads = total f s.threads := by
  rw [Node.spawn, total_append, sumOf_cons, sumOf_nil, hf, Nat.add_zero]

theorem held_spawn (s : Node) (task : Task) (x : Nat) : (s.spawn task).held x = s.held x :=
  total_spawn s (by cases task <;> rfl)

theorem view_spawn (s : Node) (task : Task) (x : Nat) : (s.spawn task).view x = s.view x := by
  refine view_eq rfl rfl (congrArg _ (held_spawn s task x)) ?_ ?_ ?_ <;>
    exact total_spawn s (by cases task <;> rfl)

theorem inv_of_step {l : Label} (hi : Inv s) (h : step s l = some s') : Inv s' := by
  cases l with
  | spawn task =>
    cases h
    refine ⟨fun x => (view_spawn s task x).symm ▸ hi.good x, hi.fresh, ?_⟩
    intro q hq
    have hdrops : (s.spawn task).drops q = s.drops q := total_spawn s (by cases task <;> rfl)
    exact hi.drops q (hdrops ▸ hq)
  | run i ch =>
    simp only [step] at h
    split at h
    · rename_i op rest hop
      split at h
      · rename_i s₁ new hrun
        cases h
        rw [perform_threads hrun]
        exact inv_of_perform hi hop hrun
      · cases h
    · cases h

theorem inv_of_run {ls : List Label} (h : Lts.run step Node.start ls = some s) : Inv s :=
  Lts.run_invariant (fun _ _ _ hi => inv_of_step hi) h inv_start

/-- Whether the queue waits for the init function of its service, or a thread has it for anything else. -/
def Op.starts (q : Nat) : Op → Nat
  | .init q' _ => one q' q
  | _ => 0

def Op.works (q : Nat) (op : Op) : Nat := op.holds q - op.starts q

def Node.starting (s : Node) (q : Nat) : Nat := total (Op.starts q) s.threads

def Node.worked (s : Node) (q : Nat) : Nat := total (Op.works q) s.threads

theorem held_eq (s : Node) (q : Nat) : s.held q = s.worked q + s.starting q := by
  refine total_add ?_ s.threads
  intro op
  cases op <;> first | rfl | exact (Nat.sub_add_cancel (Nat.le_refl _)).symm

/-- In every run, a queue is linked once, or has one thread, or neither; and then it waits for the init function of its
service, or it is empty and `in_global` is 0. -/
theorem queue_placed {ls : List Label} (h : Lts.run step Node.start ls = some s) {mq : MessageQueue}
    (hq : s.queue q = some mq) :
    s.linked q = 1 ∧ s.worked q = 0 ∨ s.linked q = 0 ∧ s.worked q = 1 ∨
      s.linked q = 0 ∧ s.worked q = 0 ∧ (s.starting q = 0 → mq.inGlobal = false ∧ mq.ring.Holds []) := by
  have hi := inv_of_run h
  have hgood := (hi.good q).queue mq hq
  have hone := (hi.good q).placed_le_one hq
  have hheld := held_eq s q
  change s.linked q + s.held q ≤ 1 at hone
  rcases Nat.eq_zero_or_pos (s.linked q) with hlinked | hlinked
  · rcases Nat.eq_zero_or_pos (s.worked q) with hworked | hworked
    · refine .inr (.inr ⟨hlinked, hworked, ?_⟩)
      intro hstarting
      have hnone : mq.inGlobal = false := by
        rw [← Bool.not_eq_true]
        intro hglobal
        have hplaced : s.linked q + s.held q = 1 := hgood.placed hglobal
        omega
      refine ⟨hnone, ?_⟩
      obtain ⟨xs, hring⟩ := hgood.ring
      have hempty := (RingBuf.head_eq_tail_iff hring).mp (hgood.idle hnone).1
      exact hempty ▸ hring
    · exact .inr (.inl ⟨hlinked, by omega⟩)
  · exact .inl ⟨by omega, by omega⟩

/-- A service is launched, and a message is sent to it. -/
def launched : List Label :=
  [.spawn .launcher, .run 0 ⟨none, 5, true, 0⟩, .run 0 ⟨none, 5, true, 0⟩, .run 0 ⟨none, 5, true, 0⟩,
    .run 0 ⟨none, 5, true, 0⟩, .run 0 ⟨none, 5, true, 0⟩, .run 0 ⟨none, 5, true, 0⟩,
    .spawn (.sender 5 [⟨1, 2, 3, 4⟩]), .run 1 ⟨some 0, 0, true, 0⟩, .run 1 ⟨none, 0, true, 0⟩]

theorem queue_placed_launched :
    ∃ s mq, Lts.run step Node.start launched = some s ∧ s.queue 0 = some mq ∧
      (s.linked 0 = 1 ∧ s.worked 0 = 0 ∨ s.linked 0 = 0 ∧ s.worked 0 = 1 ∨
        s.linked 0 = 0 ∧ s.worked 0 = 0 ∧ (s.starting 0 = 0 → mq.inGlobal = false ∧ mq.ring.Holds [])) := by
  have hrun : Lts.run step Node.start launched = some _ := rfl
  exact ⟨_, _, hrun, rfl, queue_placed hrun rfl⟩

end Mq
end Skynet
