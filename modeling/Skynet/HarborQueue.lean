import Mathlib.Data.List.Infix
import Mathlib.Tactic.Ring
import Skynet.Lib.Ring

/-!
# Skynet.HarborQueue

The queue of messages of `service_harbor.c` (`struct harbor_msg_queue`), which `ServiceHarbor` has as a list. A ring
that keeps one slot free, and that is moved to one of twice the size before a message would take it.

* A message is copied as a whole, so its type is a parameter.
* `fresh size` is what is in the slots of a ring of this size that was just allocated.
* `none` : the new size is no `int` any more, and no allocation of that many bytes succeeds (`skynet_malloc` aborts).

* `pushQueueMsg_queued`, `popQueue_queued` : the two operations on the list of the messages held.
* `popped_in_order` : over any calls, what is popped is what was pushed, in this order, and the next message is found.
* `popAll_eq` : a loop of `pop_queue` takes all the messages.
-/

namespace Skynet
namespace HarborQueue

variable {α : Type}

def DEFAULT_QUEUE_SIZE : Nat := 1024

structure HarborMsgQueue (α : Type) where
  size : Nat
  head : Nat
  tail : Nat
  data : Nat → α

def newQueue (fresh : Nat → Nat → α) : HarborMsgQueue α :=
  { size := DEFAULT_QUEUE_SIZE, head := 0, tail := 0, data := fresh DEFAULT_QUEUE_SIZE }

/-- The queue with twice the slots, the messages from slot 0 on. -/
def doubled (fresh : Nat → Nat → α) (q : HarborMsgQueue α) : HarborMsgQueue α where
  size := q.size * 2
  head := 0
  tail := q.size - 1
  data := fun i => if i < q.size - 1 then q.data ((i + q.head) % q.size) else fresh (q.size * 2) i

def pushQueueMsg (fresh : Nat → Nat → α) (q : HarborMsgQueue α) (m : α) : Option (HarborMsgQueue α) := do
  let q ←
    if (q.tail + 1) % q.size = q.head then
      if q.size * 2 < 2 ^ 31 then some (doubled fresh q) else none
    else some q
  return { q with data := Function.update q.data q.tail m, tail := (q.tail + 1) % q.size }

def popQueue (q : HarborMsgQueue α) : Option (α × HarborMsgQueue α) :=
  if q.head = q.tail then none else some (q.data q.head, { q with head := (q.head + 1) % q.size })

/-- A loop over `pop_queue`, as in `dispatch_queue` and `release_queue`. -/
def popAll : Nat → HarborMsgQueue α → List α
  | 0, _ => []
  | fuel + 1, q =>
    match popQueue q with
    | none => []
    | some (m, q) => m :: popAll fuel q

/-! ### The messages held -/

def HarborMsgQueue.ring (q : HarborMsgQueue α) : RingBuf α := { cap := q.size, head := q.head, tail := q.tail, slots := q.data }

/-- The queue holds the messages `ms`, from `head` on. -/
structure Queued (q : HarborMsgQueue α) (ms : List α) : Prop where
  holds : q.ring.Holds ms
  size : ∃ k ≤ 20, q.size = DEFAULT_QUEUE_SIZE * 2 ^ k

variable {q : HarborMsgQueue α} {ms : List α}

theorem newQueue_queued (fresh : Nat → Nat → α) : Queued (newQueue fresh) [] where
  holds := RingBuf.empty_holds (Nat.zero_lt_succ 1023) _
  size := ⟨0, by decide, rfl⟩

theorem advance_tail (h : Queued q ms) : (q.tail + 1) % q.size = RingBuf.advance q.size q.tail := by
  have htail : q.tail = (q.head + ms.length) % q.size := h.holds.tail_eq
  have hlt : q.tail < q.size := by
    rw [htail]
    exact Nat.mod_lt _ (Nat.zero_lt_of_lt h.holds.length_lt)
  exact (RingBuf.advance_eq hlt).symm

/-- With a slot to spare, a message is appended. -/
theorem write_queued (h : Queued q ms) (hroom : ms.length + 1 < q.size) (m : α) :
    Queued { q with data := Function.update q.data q.tail m, tail := (q.tail + 1) % q.size } (ms ++ [m]) where
  holds := by
    rw [advance_tail h]
    exact RingBuf.write_holds h.holds hroom m
  size := h.size

theorem doubled_queued (fresh : Nat → Nat → α) (h : Queued q ms) (hfull : ms.length + 1 = q.size)
    (hint : q.size * 2 < 2 ^ 31) : Queued (doubled fresh q) ms where
  holds := by
    have htail : q.size - 1 = ms.length := by omega
    have hcap : ms.length < q.size * 2 := by omega
    simp only [doubled, HarborMsgQueue.ring, htail]
    refine RingBuf.unroll_holds h.holds hcap fun i hi => ?_
    rw [if_pos hi, Nat.add_comm]
    rfl
  size := by
    obtain ⟨k, hk, hsize⟩ := h.size
    have hlt : k < 20 := by
      rw [hsize, DEFAULT_QUEUE_SIZE, show 1024 * 2 ^ k * 2 = 2 ^ (k + 11) by ring] at hint
      have := (Nat.pow_lt_pow_iff_right (by decide : 1 < 2)).mp hint
      omega
    exact ⟨k + 1, hlt, by rw [doubled, hsize, Nat.pow_succ, Nat.mul_assoc]⟩

theorem pushQueueMsg_queued (fresh : Nat → Nat → α) (h : Queued q ms) (m : α) :
    (pushQueueMsg fresh q m = none ∧ ms.length + 1 = 2 ^ 30) ∨
    ∃ q', pushQueueMsg fresh q m = some q' ∧ Queued q' (ms ++ [m]) := by
  have hlt : ms.length < q.size := h.holds.length_lt
  have hfull : (q.tail + 1) % q.size = q.head ↔ ms.length + 1 = q.size := by
    rw [advance_tail h]
    exact RingBuf.advance_tail_eq_head_iff h.holds
  by_cases hlen : ms.length + 1 = q.size
  · by_cases hint : q.size * 2 < 2 ^ 31
    · refine .inr ⟨_, by rw [pushQueueMsg, if_pos (hfull.mpr hlen), if_pos hint]; rfl, ?_⟩
      exact write_queued (doubled_queued fresh h hlen hint) (by simp only [doubled]; omega) m
    · left
      refine ⟨by rw [pushQueueMsg, if_pos (hfull.mpr hlen), if_neg hint]; rfl, ?_⟩
      obtain ⟨k, hk, hsize⟩ := h.size
      have hmax : q.size ≤ 2 ^ 30 := by
        rw [hsize]
        exact Nat.mul_le_mul_left 1024 (Nat.pow_le_pow_right (by decide) hk)
      omega
  · exact .inr ⟨_, by rw [pushQueueMsg, if_neg (mt hfull.mp hlen)]; rfl, write_queued h (by omega) m⟩

theorem popQueue_nil (h : Queued q []) : popQueue q = none := if_pos ((RingBuf.head_eq_tail_iff h.holds).mpr rfl)

theorem popQueue_cons {m : α} (h : Queued q (m :: ms)) : ∃ q', popQueue q = some (m, q') ∧ Queued q' ms := by
  obtain ⟨r, hpop, -, hr⟩ := RingBuf.pop_holds h.holds
  have hadv : RingBuf.advance q.size q.head = (q.head + 1) % q.size := RingBuf.advance_eq h.holds.head_lt
  rw [RingBuf.pop] at hpop
  split at hpop
  · cases hpop
  · rename_i hne
    obtain ⟨hm, rfl⟩ := Prod.mk.inj (Option.some.inj hpop)
    refine ⟨{ q with head := (q.head + 1) % q.size }, ?_, ?_, h.size⟩
    · rw [← hm]
      exact if_neg hne
    · rw [← hadv]
      exact hr

/-- The loops that empty a queue take its messages in their order. -/
theorem popAll_eq {fuel : Nat} (h : Queued q ms) (hfuel : ms.length ≤ fuel) : popAll fuel q = ms := by
  induction fuel generalizing q ms with
  | zero => rw [List.length_eq_zero_iff.mp (Nat.le_zero.mp hfuel), popAll]
  | succ fuel ih =>
    rw [popAll]
    cases ms with
    | nil => rw [popQueue_nil h]
    | cons m ms =>
      obtain ⟨q', hpop, h'⟩ := popQueue_cons h
      rw [hpop]
      exact congrArg (m :: ·) (ih h' (Nat.le_of_succ_le_succ hfuel))

/-! ### Any calls -/

inductive Call (α : Type) where
  | push (m : α)
  | pop

def pushed : List (Call α) → List α
  | [] => []
  | .push m :: cs => m :: pushed cs
  | .pop :: cs => pushed cs

/-- The messages that the calls pop, and the queue they leave. -/
def run (fresh : Nat → Nat → α) : HarborMsgQueue α → List (Call α) → Option (List α × HarborMsgQueue α)
  | q, [] => some ([], q)
  | q, .push m :: cs => do
    let q ← pushQueueMsg fresh q m
    run fresh q cs
  | q, .pop :: cs =>
    match popQueue q with
    | none => run fresh q cs
    | some (m, q) => (run fresh q cs).map fun r => (m :: r.1, r.2)

/-- A push of the calls finds `2 ^ 30 - 1` messages, of which `ms` were there at first. -/
def Overfull (fresh : Nat → Nat → α) (q : HarborMsgQueue α) (ms : List α) (cs : List (Call α)) : Prop :=
  ∃ before m after popped q', cs = before ++ Call.push m :: after ∧ run fresh q before = some (popped, q') ∧
    (ms ++ pushed before).length = popped.length + (2 ^ 30 - 1)

theorem run_queued (fresh : Nat → Nat → α) (h : Queued q ms) (cs : List (Call α)) :
    (run fresh q cs = none ∧ Overfull fresh q ms cs) ∨
    ∃ popped q' left, run fresh q cs = some (popped, q') ∧ Queued q' left ∧ popped ++ left = ms ++ pushed cs := by
  induction cs generalizing q ms with
  | nil => exact .inr ⟨[], q, ms, rfl, h, by rw [pushed, List.append_nil, List.nil_append]⟩
  | cons c cs ih =>
    cases c with
    | push m =>
      obtain ⟨hnone, hlen⟩ | ⟨q₁, hpush, h₁⟩ := pushQueueMsg_queued fresh h m
      · left
        refine ⟨by rw [run, hnone]; rfl, [], m, cs, [], q, rfl, rfl, ?_⟩
        rw [pushed, List.append_nil, List.length_nil]
        omega
      · have hrun : run fresh q (.push m :: cs) = run fresh q₁ cs := by rw [run, hpush]; rfl
        rw [hrun, pushed, List.append_cons]
        obtain ⟨hnone, before, m', after, popped, q', hcs, hbefore, hlen⟩ | hsome := ih h₁
        · left
          refine ⟨hnone, .push m :: before, m', after, popped, q', by rw [hcs]; rfl, ?_, ?_⟩
          · rw [run, hpush]
            exact hbefore
          · rw [pushed, List.append_cons]
            exact hlen
        · exact .inr hsome
    | pop =>
      cases ms with
      | nil =>
        have hrun : ∀ cs, run fresh q (.pop :: cs) = run fresh q cs := fun cs => by rw [run, popQueue_nil h]
        rw [hrun, pushed]
        obtain ⟨hnone, before, m', after, popped, q', hcs, hbefore, hlen⟩ | hsome := ih h
        · exact .inl ⟨hnone, .pop :: before, m', after, popped, q', by rw [hcs]; rfl, by rw [hrun]; exact hbefore, hlen⟩
        · exact .inr hsome
      | cons m ms =>
        obtain ⟨q₁, hpop, h₁⟩ := popQueue_cons h
        have hrun : ∀ cs, run fresh q (.pop :: cs) = (run fresh q₁ cs).map fun r => (m :: r.1, r.2) := by
          intro cs
          rw [run, hpop]
        rw [hrun, pushed]
        obtain ⟨hnone, before, m', after, popped, q', hcs, hbefore, hlen⟩ | ⟨popped, q', left, hsome, h', heq⟩ := ih h₁
        · left
          refine ⟨by rw [hnone]; rfl, .pop :: before, m', after, m :: popped, q', by rw [hcs]; rfl, ?_, ?_⟩
          · rw [hrun, hbefore]
            rfl
          · rw [pushed, List.cons_append, List.length_cons, hlen, List.length_cons]
            omega
        · exact .inr ⟨m :: popped, q', left, by rw [hsome]; rfl, h', congrArg (m :: ·) heq⟩

/-- Over any calls on a new queue, what is popped is what was pushed, in its order. The next `pop_queue` gives the
next message, and none only when there is none. The only calls that do not end are those that push to a queue of
`2 ^ 30 - 1` messages. -/
theorem popped_in_order (fresh : Nat → Nat → α) (cs : List (Call α)) :
    (∀ popped q, run fresh (newQueue fresh) cs = some (popped, q) →
      popped <+: pushed cs ∧ (popQueue q).map Prod.fst = ((pushed cs).drop popped.length).head? ∧
      popAll (pushed cs).length q = (pushed cs).drop popped.length) ∧
    (run fresh (newQueue fresh) cs = none → Overfull fresh (newQueue fresh) [] cs) := by
  obtain ⟨hnone, hover⟩ | ⟨popped, q, left, hsome, hq, heq⟩ := run_queued fresh (newQueue_queued fresh) cs
  · refine ⟨fun popped q h => ?_, fun _ => hover⟩
    rw [hnone] at h
    cases h
  · refine ⟨fun popped' q' h => ?_, fun h => absurd (hsome.symm.trans h) (Option.some_ne_none _)⟩
    rw [hsome] at h
    cases h
    rw [List.nil_append] at heq
    rw [← heq, List.drop_left]
    refine ⟨List.prefix_append .., ?_, popAll_eq hq (by rw [List.length_append]; omega)⟩
    cases left with
    | nil => rw [popQueue_nil hq]; rfl
    | cons m left =>
      obtain ⟨q₁, hpop, -⟩ := popQueue_cons hq
      rw [hpop]
      rfl

theorem popped_in_order_three : ∃ q : HarborMsgQueue Nat,
    run (fun _ _ => 0) (newQueue fun _ _ => 0) [.push 5, .push 6, .pop, .push 7] = some ([5], q) ∧
    (popQueue q).map Prod.fst = some 6 ∧ popAll 3 q = [6, 7] :=
  ⟨_, rfl, ((popped_in_order (fun _ _ => 0) [.push 5, .push 6, .pop, .push 7]).1 [5] _ rfl).2⟩

end HarborQueue
end Skynet
