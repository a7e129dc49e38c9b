import Skynet.Mq.Handles

/-!
# Skynet.Mq.Carry

The messages of a queue: those in its ring, the one that a worker has taken, and those that were dispatched or dropped.

* `Carry` : what a step does to the messages of a queue.
* `carry_of_perform` : an operation does so, and leaves the messages of other queues alone.
-/

namespace Skynet
namespace Mq

open Threads

variable {s s' s₁ : Node} {x q c i : Nat} {op : Op} {new rest : List Op} {ch : Choice}

/-- The message that the operation has taken out of the queue. -/
def Op.msgs (q : Nat) : Op → List Message
  | .measure q' _ _ _ msg | .deliver q' _ _ _ msg => if q' = q then [msg] else []
  | _ => []

/-- The messages that workers have taken. -/
def Node.flight (s : Node) (q : Nat) : List Message := collect (Op.msgs q) s.threads

/-- Whether the operation frees the queue. -/
def Op.frees (q : Nat) : Op → Nat
  | .free q' => one q' q
  | _ => 0

def Node.frees (s : Node) (q : Nat) : Nat := total (Op.frees q) s.threads

structure Box where
  ring : Option (RingBuf Message)
  flight : List Message
  accepted : List Message
  fates : List Fate
  errors : List (Nat × Nat)
  freed : Nat

def Node.box (s : Node) (q : Nat) : Box :=
  ⟨(s.queue q).map (·.ring), s.flight q, s.accepted q, s.fates q, s.errors q, s.freed q⟩

/-- What a step does to the messages of a queue. -/
inductive Carry (s : Node) (x : Nat) : Box → Prop
  | same : Carry s x (s.box x)
  | take {mq : MessageQueue} {msg : Message} {ring : RingBuf Message} (hq : s.queue x = some mq)
      (hpop : mq.ring.pop = some (msg, ring)) (hflight : s.flight x = []) :
      Carry s x { s.box x with ring := some ring, flight := [msg] }
  | deliver {msg : Message} (hctx : s.context x ≠ none) (hflight : s.flight x = [msg]) :
      Carry s x { s.box x with flight := [], fates := s.fates x ++ [Fate.dispatched x msg] }
  | drop {mq : MessageQueue} {msg : Message} {ring : RingBuf Message} (hq : s.queue x = some mq)
      (hpop : mq.ring.pop = some (msg, ring)) (hflight : s.flight x = []) (hctx : s.context x = none) :
      Carry s x { s.box x with
        ring := some ring
        fates := s.fates x ++ [Fate.dropped msg]
        errors := s.errors x ++ [(s.handles x, msg.source)] }
  | free {mq : MessageQueue} (hq : s.queue x = some mq) (hpop : mq.ring.pop = none) (hflight : s.flight x = [])
      (hctx : s.context x = none) : Carry s x { s.box x with ring := none, freed := s.freed x + 1 }
  | push {mq : MessageQueue} (hq : s.queue x = some mq) (hctx : s.context x ≠ none) (msg : Message) :
      Carry s x { s.box x with ring := some (mq.push msg).ring, accepted := s.accepted x ++ [msg] }
  | create (hq : s.queue x = none) (hctx : s.context x ≠ none) (handle : Nat) :
      Carry s x { s.box x with ring := some (MessageQueue.create handle).ring }

theorem box_eq {b : Box} (hring : (s'.queue x).map (·.ring) = b.ring) (hflight : s'.flight x = b.flight)
    (haccepted : s'.accepted x = b.accepted) (hfates : s'.fates x = b.fates) (herrors : s'.errors x = b.errors)
    (hfreed : s'.freed x = b.freed) : s'.box x = b := by
  rw [Node.box, hring, hflight, haccepted, hfates, herrors, hfreed]

theorem carry_of_eq {b b' : Box} (h : Carry s x b) (he : b' = b) : Carry s x b' := he ▸ h

theorem ring_set {mq mq' : MessageQueue} (hq : s.queue q = some mq) (hring : mq'.ring = mq.ring) (x : Nat) :
    (Function.update s.queue q (some mq') x).map (·.ring) = (s.queue x).map (·.ring) := by
  by_cases hx : x = q
  · rw [hx, Function.update_self, hq, Option.map_some, Option.map_some, hring]
  · rw [Function.update_of_ne hx]

theorem ring_self (s : Node) (q : Nat) (mq : MessageQueue) :
    (Function.update s.queue q (some mq) q).map (·.ring) = some mq.ring := by rw [Function.update_self, Option.map_some]

theorem ring_of_ne (s : Node) {q x : Nat} (mq : Option MessageQueue) (hx : x ≠ q) :
    (Function.update s.queue q mq x).map (·.ring) = (s.queue x).map (·.ring) := by rw [Function.update_of_ne hx]

theorem flight_same (hop : s.threads[i]? = some (op :: rest)) (s₁ : Node) (hmsgs : op.msgs x = [])
    (hnew : new.flatMap (Op.msgs x) = []) : (s.after s₁ i (new ++ rest)).flight x = s.flight x :=
  collect_set_nil hop hmsgs hnew

/-- The thread that has the queue has its message. -/
theorem flight_held (hi : Inv s) (hop : s.threads[i]? = some (op :: rest)) (hholds : op.holds q = 1)
    {mq : MessageQueue} (hq : s.queue q = some mq) (s₁ : Node) (new : List Op) :
    s.flight q = op.msgs q ∧ (s.after s₁ i (new ++ rest)).flight q = new.flatMap (Op.msgs q) := by
  have hone : s.linked q + s.held q ≤ 1 := (hi.good q).placed_le_one hq
  refine collect_only (g := Op.holds q) ?_ hop ?_ new
  · intro y hy
    cases y with
    | measure q' _ _ _ msg | deliver q' _ _ _ msg =>
      refine if_neg fun he => ?_
      rw [Op.holds, he, one_self] at hy
      cases hy
    | _ => rfl
  · change s.held q ≤ op.holds q
    omega

theorem carry_quiet (hop : s.threads[i]? = some (op :: rest)) (hring : (s₁.queue x).map (·.ring) = (s.queue x).map (·.ring))
    (haccepted : s₁.accepted = s.accepted) (hfates : s₁.fates = s.fates) (herrors : s₁.errors = s.errors)
    (hfreed : s₁.freed = s.freed) (hmsgs : op.msgs x = []) (hnew : new.flatMap (Op.msgs x) = []) :
    Carry s x ((s.after s₁ i (new ++ rest)).box x) :=
  carry_of_eq .same (box_eq hring (flight_same hop s₁ hmsgs hnew) (congrFun haccepted x) (congrFun hfates x)
    (congrFun herrors x) (congrFun hfreed x))

theorem carry_round (hs : Sound s) (hop : s.threads[i]? = some (op :: rest)) (h : ∃ q c k n, op = .round q c k n)
    (hrun : perform s ch op = some (s₁, new)) (x : Nat) : Carry s x ((s.after s₁ i (new ++ rest)).box x) := by
  obtain ⟨q, c, k, n, rfl⟩ := h
  simp only [perform] at hrun
  split at hrun
  · cases hrun
  · rename_i mq hq
    split at hrun
    · cases hrun
      exact carry_quiet hop (ring_set hq (by rfl) x) rfl rfl rfl rfl rfl rfl
    · rename_i msg ring hpop
      cases hrun
      by_cases hx : x = q
      · subst hx
        obtain ⟨hbefore, hafter⟩ := flight_held hs.inv hop (one_self x) hq (s.setQueue x (some { mq with ring := ring }))
          [.measure x c k n msg]
        refine carry_of_eq (.take hq hpop hbefore) (box_eq ?_ ?_ rfl rfl rfl rfl)
        · exact ring_self ..
        · rw [hafter]
          simp [Op.msgs]
      · refine carry_quiet hop (ring_of_ne s _ hx) rfl rfl rfl rfl rfl ?_
        simp [Op.msgs, Ne.symm hx]

theorem queue_of_holds (hi : Inv s) (hop : s.threads[i]? = some (op :: rest)) (hholds : op.holds q = 1) :
    ∃ mq, s.queue q = some mq := by
  cases hq : s.queue q with
  | some mq => exact ⟨mq, rfl⟩
  | none =>
    have hzero : s.linked q + s.held q = 0 := (hi.good q).noQueue hq
    have hle : op.holds q ≤ s.held q := le_total (Op.holds q) hop
    omega

theorem context_of_head (hi : Inv s) (hop : s.threads[i]? = some (op :: rest)) (howes : op.owes x = 1) :
    s.context x ≠ none :=
  context_of_owes hi (List.mem_of_getElem? hop) (List.mem_cons_self ..) (howes ▸ Nat.one_pos)

theorem carry_deliver (hs : Sound s) (hop : s.threads[i]? = some (op :: rest))
    (h : (∃ q c k n msg, op = .measure q c k n msg) ∨ ∃ q c k n msg, op = .deliver q c k n msg)
    (hrun : perform s ch op = some (s₁, new)) (x : Nat) : Carry s x ((s.after s₁ i (new ++ rest)).box x) := by
  rcases h with ⟨q, c, k, n, msg, rfl⟩ | ⟨q, c, k, n, msg, rfl⟩
  · simp only [perform] at hrun
    split at hrun
    · cases hrun
    · rename_i mq hq
      cases hrun
      by_cases hx : x = q
      · subst hx
        obtain ⟨hbefore, hafter⟩ := flight_held hs.inv hop (one_self x) hq s
          [.deliver x c k (if k = 0 ∧ 0 ≤ ch.weight then mq.length >>> ch.weight.toNat else n) msg]
        refine carry_of_eq .same (box_eq rfl ?_ rfl rfl rfl rfl)
        rw [hafter]
        change _ = s.flight x
        rw [hbefore]
        simp [Op.msgs]
      · refine carry_quiet hop rfl rfl rfl rfl rfl ?_ ?_ <;> simp [Op.msgs, Ne.symm hx]
  · have hcq : c = q := (owned_head hs hop).1
    subst hcq
    obtain ⟨mq, hq⟩ := queue_of_holds hs.inv hop (one_self c)
    have hctx := context_of_head hs.inv hop (one_self c)
    obtain ⟨hbefore, hafter⟩ := flight_held hs.inv hop (one_self c) hq s₁ new
    have hnew : ∀ y, new.flatMap (Op.msgs y) = [] := by
      intro y
      simp only [perform] at hrun
      split at hrun <;>
        · cases hrun
          rfl
    have hkept : s₁.queue = s.queue ∧ s₁.accepted = s.accepted ∧ s₁.errors = s.errors ∧ s₁.freed = s.freed ∧
        s₁.fates = Function.update s.fates c (s.fates c ++ [Fate.dispatched c msg]) := by
      cases hrun
      exact ⟨rfl, rfl, rfl, rfl, rfl⟩
    obtain ⟨hqueue, haccepted, herrors, hfreed, hfates⟩ := hkept
    by_cases hx : x = c
    · subst hx
      rw [Op.msgs, if_pos rfl] at hbefore
      refine carry_of_eq (.deliver hctx hbefore) (box_eq ?_ (hafter.trans (hnew x)) (congrFun haccepted x) ?_
        (congrFun herrors x) (congrFun hfreed x))
      · exact congrArg (fun f => (f x).map (·.ring)) hqueue
      · exact (congrFun hfates x).trans (Function.update_self ..)
    · have hsame : s₁.fates x = s.fates x := (congrFun hfates x).trans (Function.update_of_ne hx ..)
      refine carry_of_eq .same (box_eq ?_ (flight_same hop s₁ ?_ (hnew x)) (congrFun haccepted x) hsame
        (congrFun herrors x) (congrFun hfreed x))
      · exact congrArg (fun f => (f x).map (·.ring)) hqueue
      · exact if_neg (Ne.symm hx)

theorem carry_drop (hs : Sound s) (hfrees : ∀ q, 0 < s.frees q → ∃ mq, s.queue q = some mq ∧ mq.ring.pop = none)
    (hop : s.threads[i]? = some (op :: rest)) (h : op = .drop q ∨ op = .free q)
    (hrun : perform s ch op = some (s₁, new)) (x : Nat) : Carry s x ((s.after s₁ i (new ++ rest)).box x) := by
  have hdrops : op.drops q = 1 := by rcases h with rfl | rfl <;> exact one_self q
  have hholds : op.holds q = 1 := by rcases h with rfl | rfl <;> exact one_self q
  obtain ⟨mq, hq, hrelease⟩ := hs.inv.drops q (Nat.lt_of_lt_of_le (hdrops ▸ Nat.one_pos) (le_total (Op.drops q) hop))
  have hctx : s.context q = none := ((hs.inv.good q).queue mq hq).release.mp hrelease
  obtain ⟨hbefore, hafter⟩ := flight_held hs.inv hop hholds hq s₁ new
  have hmsgs : ∀ y, op.msgs y = [] := by rcases h with rfl | rfl <;> exact fun _ => rfl
  rw [hmsgs q] at hbefore
  rcases h with rfl | rfl
  · simp only [perform, hq] at hrun
    split at hrun
    · cases hrun
      exact carry_quiet hop (ring_set hq (by rfl) x) rfl rfl rfl rfl rfl rfl
    · rename_i msg ring hpop
      split at hrun
      · cases hrun
      · cases hrun
        by_cases hx : x = q
        · subst hx
          refine carry_of_eq (.drop hq hpop hbefore hctx) (box_eq (ring_self ..) (hafter.trans hbefore.symm) rfl
            (Function.update_self ..) ?_ rfl)
          rw [← hs.handled.queue x mq hq]
          exact Function.update_self ..
        · exact carry_of_eq .same (box_eq (ring_of_ne s _ hx) (flight_same hop _ rfl rfl) rfl
            (Function.update_of_ne hx ..) (Function.update_of_ne hx ..) rfl)
  · obtain ⟨mq', hq', hpop⟩ := hfrees q (Nat.lt_of_lt_of_le (by rw [Op.frees, one_self]; exact Nat.one_pos)
      (le_total (Op.frees q) hop))
    cases hrun
    by_cases hx : x = q
    · subst hx
      refine carry_of_eq (.free hq' hpop hbefore hctx) (box_eq ?_ (hafter.trans hbefore.symm) rfl rfl rfl
        (Function.update_self ..))
      exact congrArg (Option.map _) (Function.update_self x none s.queue)
    · exact carry_of_eq .same (box_eq (ring_of_ne s _ hx) (flight_same hop _ rfl rfl) rfl rfl rfl
        (Function.update_of_ne hx ..))

theorem carry_push (hs : Sound s) (hop : s.threads[i]? = some (op :: rest)) (h : ∃ c msgs, op = .push c msgs)
    (hrun : perform s ch op = some (s₁, new)) (x : Nat) : Carry s x ((s.after s₁ i (new ++ rest)).box x) := by
  obtain ⟨c, msgs, rfl⟩ := h
  have hctx := context_of_head hs.inv hop (one_self c)
  cases msgs with
  | nil =>
    cases hrun
    exact carry_quiet hop rfl rfl rfl rfl rfl rfl rfl
  | cons msg msgs =>
    simp only [perform] at hrun
    split at hrun
    · cases hrun
    · rename_i mq hq
      split at hrun <;>
        · cases hrun
          by_cases hx : x = c
          · subst hx
            exact carry_of_eq (.push hq hctx msg) (box_eq (ring_self ..) (flight_same hop _ rfl rfl)
              (Function.update_self ..) rfl rfl rfl)
          · exact carry_of_eq .same (box_eq (ring_of_ne s _ hx) (flight_same hop _ rfl rfl) (Function.update_of_ne hx ..)
              rfl rfl rfl)

theorem carry_create (hs : Sound s) (hop : s.threads[i]? = some (op :: rest)) (h : ∃ c handle, op = .create c handle)
    (hrun : perform s ch op = some (s₁, new)) (x : Nat) : Carry s x ((s.after s₁ i (new ++ rest)).box x) := by
  obtain ⟨c, handle, rfl⟩ := h
  have hctx := context_of_head hs.inv hop (one_self c)
  have hq : s.queue c = none := by
    obtain ⟨ctx, hctx'⟩ := Option.ne_none_iff_exists'.mp hctx
    have hopen : 0 < s.opens c := by
      have hle := le_total (Op.opens c) hop
      rw [Op.opens, one_self] at hle
      exact hle
    rcases ((hs.inv.good c).context ctx hctx').opens with ⟨hzero, -⟩ | ⟨-, hnone⟩
    · exact absurd hzero (Nat.ne_of_gt hopen)
    · exact hnone
  cases hrun
  by_cases hx : x = c
  · subst hx
    exact carry_of_eq (.create hq hctx handle) (box_eq (ring_self ..) (flight_same hop _ rfl rfl) rfl rfl rfl rfl)
  · exact carry_quiet hop (ring_of_ne s _ hx) rfl rfl rfl rfl rfl rfl

theorem carry_of_perform (hs : Sound s)
    (hfrees : ∀ q, 0 < s.frees q → ∃ mq, s.queue q = some mq ∧ mq.ring.pop = none)
    (hop : s.threads[i]? = some (op :: rest)) (hrun : perform s ch op = some (s₁, new)) (x : Nat) :
    Carry s x ((s.after s₁ i (new ++ rest)).box x) := by
  cases op with
  | round q c k n => exact carry_round hs hop ⟨q, c, k, n, rfl⟩ hrun x
  | measure q c k n msg => exact carry_deliver hs hop (.inl ⟨q, c, k, n, msg, rfl⟩) hrun x
  | deliver q c k n msg => exact carry_deliver hs hop (.inr ⟨q, c, k, n, msg, rfl⟩) hrun x
  | drop q => exact carry_drop hs hfrees hop (.inl rfl) hrun x
  | free q => exact carry_drop hs hfrees hop (.inr rfl) hrun x
  | push c msgs => exact carry_push hs hop ⟨c, msgs, rfl⟩ hrun x
  | create c handle => exact carry_create hs hop ⟨c, handle, rfl⟩ hrun x
  | mark c =>
    simp only [perform] at hrun
    split at hrun
    · cases hrun
    · rename_i mq hq
      split at hrun
      · cases hrun
      · split at hrun <;>
          · cases hrun
            exact carry_quiet hop (ring_set hq (by rfl) x) rfl rfl rfl rfl rfl rfl
  | take | dispatch | swap | mqRelease | grab | release | retire | init =>
    simp only [perform] at hrun
    repeat' split at hrun
    all_goals cases hrun
    all_goals exact carry_quiet hop rfl rfl rfl rfl rfl rfl rfl
  | link | register | store =>
    cases hrun
    exact carry_quiet hop rfl rfl rfl rfl rfl rfl rfl

end Mq
end Skynet
