import Skynet.TimerPlace
import Mathlib.Algebra.BigOperators.Group.Finset.Basic
import Mathlib.Data.Finset.Prod
import Mathlib.Algebra.Order.Group.Multiset
import Mathlib.Algebra.BigOperators.Group.Finset.Piecewise
import Mathlib.Tactic.Abel

/-!
# Skynet.TimerWheel

The invariant of the wheel (`Placed T`): every node is in the list where `add_node` would put it
now. `timerShift_placed` shows that a shift keeps it for nodes that are pending, and
`timerShift_nodes` that the cascade loses and duplicates nothing.
-/

namespace Skynet
namespace Timers

/-- The lists of the wheel. -/
@[irreducible] def refs : Finset ListRef :=
  (Finset.range 256).image .near ∪ (Finset.range 4 ×ˢ Finset.range 64).image fun p => .t p.1 p.2

theorem near_mem_refs {i : Nat} (h : i < 256) : .near i ∈ refs := by simp [refs, h]

theorem t_mem_refs {i j : Nat} (hi : i < 4) (hj : j < 64) : .t i j ∈ refs := by simp [refs, hi, hj]

theorem place_mem_refs (e c : Nat) : place e c ∈ refs := by
  simp only [place, upper]
  split_ifs
  · exact near_mem_refs (Nat.mod_lt _ (by decide))
  all_goals exact t_mem_refs (by decide) (Nat.mod_lt _ (by decide))

/-- All nodes in the wheel. -/
def Timer.nodes (T : Timer) : Multiset TimerNode := ∑ l ∈ refs, (T.list l : Multiset TimerNode)

theorem sum_update {f : ListRef → List TimerNode} {l : ListRef} (b : List TimerNode) (hl : l ∈ refs) :
    ∑ x ∈ refs, (Function.update f l b x : Multiset TimerNode) + (f l : Multiset TimerNode) =
      ∑ x ∈ refs, (f x : Multiset TimerNode) + (b : Multiset TimerNode) := by
  have hcomp : (fun x => (Function.update f l b x : Multiset TimerNode)) =
      Function.update (fun x => (f x : Multiset TimerNode)) l b := by
    funext x
    by_cases hx : x = l
    · subst hx; simp
    · simp [hx]
  rw [hcomp, Finset.sum_update_of_mem hl, ← Finset.add_sum_erase refs _ hl, Finset.sdiff_singleton_eq_erase]
  abel

theorem link_nodes {T : Timer} {l : ListRef} {n : TimerNode} (hl : l ∈ refs) :
    (link T l n).nodes = T.nodes + {n} := by
  have h := sum_update (f := T.list) (T.list l ++ [n]) hl
  rw [← Multiset.coe_add, add_comm (T.list l : Multiset TimerNode) _, ← add_assoc] at h
  exact add_right_cancel h

theorem linkClear_nodes {T : Timer} {l : ListRef} (hl : l ∈ refs) :
    (linkClear T l).2.nodes + ((linkClear T l).1 : Multiset TimerNode) = T.nodes := by
  have h := sum_update (f := T.list) [] hl
  rw [Multiset.coe_nil, add_zero] at h
  exact h

@[simp] theorem addNode_time (T : Timer) (n : TimerNode) : (addNode T n).time = T.time := rfl

theorem addNode_nodes (T : Timer) (n : TimerNode) : (addNode T n).nodes = T.nodes + {n} := by
  rw [addNode, placeOf_eq]; exact link_nodes (place_mem_refs _ _)

theorem mem_addNode {T : Timer} {n m : TimerNode} {l : ListRef} :
    m ∈ (addNode T n).list l ↔ m ∈ T.list l ∨ m = n ∧ l = place n.expire T.time := by
  rw [addNode, placeOf_eq, link]
  by_cases hl : l = place n.expire T.time
  · subst hl; simp
  · simp [hl]

theorem foldl_addNode_time (ns : List TimerNode) (T : Timer) : (ns.foldl addNode T).time = T.time := by
  induction ns generalizing T with
  | nil => rfl
  | cons n ns ih => rw [List.foldl_cons, ih, addNode_time]

theorem foldl_addNode_nodes (ns : List TimerNode) (T : Timer) :
    (ns.foldl addNode T).nodes = T.nodes + (ns : Multiset TimerNode) := by
  induction ns generalizing T with
  | nil => simp
  | cons n ns ih => rw [List.foldl_cons, ih, addNode_nodes, add_assoc, ← Multiset.cons_coe, Multiset.singleton_add]

theorem mem_foldl_addNode {ns : List TimerNode} {T : Timer} {m : TimerNode} {l : ListRef} :
    m ∈ (ns.foldl addNode T).list l ↔ m ∈ T.list l ∨ m ∈ ns ∧ l = place m.expire T.time := by
  induction ns generalizing T with
  | nil => simp
  | cons n ns ih =>
    rw [List.foldl_cons, ih, mem_addNode, addNode_time, List.mem_cons]
    constructor
    · rintro ((h | ⟨rfl, hl⟩) | ⟨hm, hl⟩)
      · exact .inl h
      · exact .inr ⟨.inl rfl, hl⟩
      · exact .inr ⟨.inr hm, hl⟩
    · rintro (h | ⟨rfl | hm, hl⟩)
      · exact .inl (.inl h)
      · exact .inl (.inr ⟨rfl, hl⟩)
      · exact .inr ⟨hm, hl⟩

theorem moveList_time (T : Timer) (i j : Nat) : (moveList T i j).time = T.time := by
  simp only [moveList, foldl_addNode_time, linkClear]

theorem moveList_nodes (T : Timer) {i j : Nat} (hi : i < 4) (hj : j < 64) :
    (moveList T i j).nodes = T.nodes := by
  simp only [moveList, foldl_addNode_nodes]
  exact linkClear_nodes (t_mem_refs hi hj)

theorem mem_moveList {T : Timer} {i j : Nat} {m : TimerNode} {l : ListRef} :
    m ∈ (moveList T i j).list l ↔
      (m ∈ T.list l ∧ l ≠ .t i j) ∨ m ∈ T.list (.t i j) ∧ l = place m.expire T.time := by
  simp only [moveList, mem_foldl_addNode, linkClear]
  by_cases hl : l = .t i j
  · subst hl; simp
  · simp [hl]

/-- Every node is in the list where `add_node` would put it now. -/
def Placed (T : Timer) : Prop := ∀ l n, n ∈ T.list l → l = place n.expire T.time

/-- Every node expires within 2^31 ticks and not now. -/
def Pending (T : Timer) : Prop :=
  ∀ l n, n ∈ T.list l → ∃ r, 1 ≤ r ∧ r < 2 ^ 31 ∧ n.expire = (T.time + r) % 2 ^ 32

theorem moved_lt (b : Nat) : (moved 3 0 b).1 < 4 ∧ (moved 3 0 b).2 < 64 := by
  simp only [moved]
  split_ifs <;> exact ⟨by show _ < 4; omega, Nat.mod_lt _ (by decide)⟩

/-- After the clock has moved, moving the one list whose nodes changed place restores `Placed`. -/
theorem moveList_placed {T : Timer} {i j : Nat}
    (h : ∀ l n, n ∈ T.list l → l = place n.expire T.time ∨ l = .t i j) : Placed (moveList T i j) := by
  intro l n hn
  rw [moveList_time]
  rcases mem_moveList.mp hn with ⟨hl, hne⟩ | ⟨_, he⟩
  · exact (h l n hl).resolve_right hne
  · exact he

theorem timerShift_time (T : Timer) : (timerShift T).time = (T.time + 1) % 2 ^ 32 := by
  simp only [timerShift]
  split
  · rw [moveList_time]
  · split
    · rw [moveList_time]
    · rfl

/-- The shift neither loses nor duplicates a node. -/
theorem timerShift_nodes (T : Timer) : (timerShift T).nodes = T.nodes := by
  simp only [timerShift]
  split
  · exact moveList_nodes _ (by decide) (by decide)
  · rename_i h0
    rw [shiftLoop_eq h0 (Nat.mod_lt _ (by decide))]
    split
    · rename_i i idx he
      split at he
      · have hlt := moved_lt ((T.time + 1) % 2 ^ 32 / 256)
        rw [Option.some.inj he] at hlt
        exact moveList_nodes _ hlt.1 hlt.2
      · cases he
    · rfl

theorem timerShift_placed {T : Timer} (ht : T.time < 2 ^ 32) (hp : Placed T) (hr : Pending T) :
    Placed (timerShift T) := by
  simp only [timerShift]
  split
  · rename_i h0
    have hlast : T.time = 2 ^ 32 - 1 := by omega
    refine moveList_placed fun l n hn => ?_
    obtain ⟨r, hr1, hr2, he⟩ := hr l n hn
    rw [hp l n hn, h0, hlast]
    rw [hlast] at he
    rcases place_wrap hr1 hr2 he with h | h
    · exact .inl h.symm
    · exact .inr h
  · rename_i h0
    have hsucc : (T.time + 1) % 2 ^ 32 = T.time + 1 := by omega
    have hkey : ∀ l n, n ∈ T.list l → l = place n.expire (T.time + 1) ∨ ((T.time + 1) % 256 = 0 ∧
        l = .t (moved 3 0 ((T.time + 1) / 256)).1 (moved 3 0 ((T.time + 1) / 256)).2) := by
      intro l n hn
      obtain ⟨r, hr1, hr2, he⟩ := hr l n hn
      rw [hp l n hn]
      rcases place_succ (by omega) hr1 hr2 he with h | h
      · exact .inl h.symm
      · exact .inr h
    rw [shiftLoop_eq h0 (Nat.mod_lt _ (by decide)), hsucc]
    by_cases hc : (T.time + 1) % 256 = 0
    · rw [if_pos hc]
      refine moveList_placed fun l n hn => ?_
      rcases hkey l n hn with h | ⟨_, h⟩
      · exact .inl h
      · exact .inr h
    · rw [if_neg hc]
      intro l n hn
      exact (hkey l n hn).resolve_right fun h => hc h.1

/-- What `timer_execute` dispatches: in a wheel that is `Placed`, exactly the nodes that expire
now. -/
theorem mem_executed {T : Timer} (hp : Placed T) {l : ListRef} {n : TimerNode} (hn : n ∈ T.list l) :
    l = executed T ↔ n.expire = T.time := by
  have hm : T.time &&& timeNearMask = T.time % 256 := Nat.and_two_pow_sub_one_eq_mod T.time 8
  rw [executed, hm, hp l n hn]
  exact place_eq_near

theorem executed_mem_refs (T : Timer) : executed T ∈ refs := by
  have hm : T.time &&& timeNearMask = T.time % 256 := Nat.and_two_pow_sub_one_eq_mod T.time 8
  rw [executed, hm]
  exact near_mem_refs (Nat.mod_lt _ (by decide))

end Timers
end Skynet
