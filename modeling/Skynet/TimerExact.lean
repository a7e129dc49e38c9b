import Skynet.TimerWheel
import Mathlib.Order.Bounds.Basic

/-!
# Skynet.TimerExact

Exactness of the wheel over whole runs: whatever the starting clock and however `timer_add` calls
fall between the locked sections of `timer_update`, a node is dispatched once, in the call whose
shift brings the clock to its expiry.

`Core` is the invariant. It is stated for a list `held` of nodes taken out of the wheel and not
yet dispatched and a lower bound `lo` on what is due: between two locked sections nothing left in
the wheel is due, right after a shift the nodes of this tick still are.
-/

namespace Skynet
namespace Timers

/-- The shift at which a node is due. -/
def Added.due (a : Added) : Nat := a.shifts + a.delay

structure Core (t0 : Nat) (s : System) (held : List TimerNode) (lo : Nat) : Prop where
  clock : s.T.time = (t0 + s.shifts) % 2 ^ 32
  placed : Placed s.T
  wheel : ∀ l n, n ∈ s.T.list l → ∃ a ∈ s.added, a.node = n ∧ lo ≤ a.due
  now : ∀ n ∈ held, ∃ a ∈ s.added, a.node = n ∧ a.due = s.shifts
  added : ∀ a ∈ s.added, a.time = (t0 + a.shifts) % 2 ^ 32 ∧ a.shifts ≤ s.shifts ∧ 1 ≤ a.delay ∧
    a.delay < 2 ^ 31 ∧ a.node.expire = (a.time + a.delay) % 2 ^ 32
  ids : ∀ a ∈ s.added, a.node.id < s.added.length
  nodup : (s.added.map (·.node)).Nodup
  logged : ∀ e ∈ s.log, e.call ≤ s.shifts ∧ ∃ a ∈ s.added, a.node = e.node ∧ e.call = a.due ∧
    e.time = (a.time + a.delay) % 2 ^ 32
  conserve : s.T.nodes + (held : Multiset TimerNode) + (s.log.map (·.node) : List TimerNode) =
    (s.added.map (·.node) : List TimerNode)

/-- The nodes `dispatch_list` has in hand. -/
def Pc.current : Pc → List TimerNode
  | .idle => []
  | .before ns => ns
  | .after ns => ns

/-- What holds whenever the lock is free. No node is ever dispatched before the shift. -/
structure Inv (t0 : Nat) (s : System) : Prop where
  core : Core t0 s s.pc.current (s.shifts + 1)
  calls : s.calls = s.shifts
  phase : ∀ ns, s.pc ≠ .before ns

theorem Core.expire {t0 : Nat} {s : System} {held : List TimerNode} {lo : Nat} (c : Core t0 s held lo)
    {a : Added} (ha : a ∈ s.added) : a.node.expire = (t0 + a.due) % 2 ^ 32 := by
  obtain ⟨ht, _, _, _, he⟩ := c.added a ha
  rw [he, ht, Added.due]; omega

theorem Core.pending {t0 : Nat} {s : System} {held : List TimerNode}
    (c : Core t0 s held (s.shifts + 1)) : Pending s.T := by
  intro l n hn
  obtain ⟨a, ha, rfl, hlo⟩ := c.wheel l n hn
  obtain ⟨_, hle, _, hlt, _⟩ := c.added a ha
  have hdue : a.due = a.shifts + a.delay := rfl
  refine ⟨a.due - s.shifts, by omega, by omega, ?_⟩
  rw [c.expire ha, c.clock]; omega

theorem Core.time_lt {t0 : Nat} {s : System} {held : List TimerNode} {lo : Nat}
    (c : Core t0 s held lo) : s.T.time < 2 ^ 32 := by
  rw [c.clock]; exact Nat.mod_lt _ (by decide)

/-- Before the shift nothing is due, so `timer_execute` finds its list empty. -/
theorem Core.executed_nil {t0 : Nat} {s : System} {held : List TimerNode}
    (c : Core t0 s held (s.shifts + 1)) : s.T.list (executed s.T) = [] := by
  rw [List.eq_nil_iff_forall_not_mem]
  intro n hn
  have hnow := (mem_executed c.placed hn).mp rfl
  obtain ⟨r, hr1, hr2, he⟩ := c.pending _ n hn
  have := c.time_lt
  omega

/-- After the shift the list `timer_execute` takes holds exactly what is due, and leaves the rest. -/
theorem executeAfter_inv {t0 : Nat} {s : System} (c : Core t0 s [] s.shifts) (hcalls : s.calls = s.shifts) :
    Inv t0 s.executeAfter := by
  have hdue : ∀ l n, n ∈ s.T.list l → ∃ a ∈ s.added, a.node = n ∧
      (a.due = s.shifts ∧ l = executed s.T ∨ s.shifts + 1 ≤ a.due ∧ l ≠ executed s.T) := by
    intro l n hn
    obtain ⟨a, ha, rfl, hlo⟩ := c.wheel l n hn
    obtain ⟨_, hle, _, hlt, _⟩ := c.added a ha
    have hd : a.due = a.shifts + a.delay := rfl
    have hx := mem_executed c.placed hn
    rw [c.expire ha, c.clock] at hx
    refine ⟨a, ha, rfl, ?_⟩
    by_cases he : a.due = s.shifts
    · exact .inl ⟨he, hx.mpr (by rw [he])⟩
    · exact .inr ⟨by omega, fun hl => by have := hx.mp hl; omega⟩
  simp only [System.executeAfter]
  by_cases hne : s.T.list (executed s.T) = []
  · simp only [hne, ne_eq, not_true, if_false]
    refine ⟨{ c with wheel := fun l n hn => ?_ }, hcalls, fun ns h => by cases h⟩
    obtain ⟨a, ha, he, ⟨_, hl⟩ | ⟨hd, _⟩⟩ := hdue l n hn
    · rw [hl, hne] at hn; cases hn
    · exact ⟨a, ha, he, hd⟩
  · simp only [ne_eq, hne, not_false_eq_true, if_true]
    refine ⟨{ c with placed := ?_, wheel := ?_, now := ?_, conserve := ?_ }, hcalls,
      fun ns h => by cases h⟩
    · intro l n hn
      by_cases hl : l = executed s.T
      · simp [linkClear, hl] at hn
      · simp only [linkClear, Function.update_of_ne hl] at hn; exact c.placed l n hn
    · intro l n hn
      by_cases hl : l = executed s.T
      · simp [linkClear, hl] at hn
      · simp only [linkClear, Function.update_of_ne hl] at hn
        obtain ⟨a, ha, he, ⟨_, hl'⟩ | ⟨hd, _⟩⟩ := hdue l n hn
        · exact absurd hl' hl
        · exact ⟨a, ha, he, hd⟩
    · intro n hn
      obtain ⟨a, ha, he, ⟨hd, _⟩ | ⟨_, hl⟩⟩ := hdue _ n hn
      · exact ⟨a, ha, he, hd⟩
      · exact absurd rfl hl
    · show (linkClear s.T (executed s.T)).2.nodes + ((linkClear s.T (executed s.T)).1 : Multiset TimerNode) + _ = _
      rw [linkClear_nodes (executed_mem_refs s.T)]
      simpa using c.conserve

theorem mem_timerShift {T : Timer} {l : ListRef} {n : TimerNode} (h : n ∈ (timerShift T).list l)
    (hp : Placed (timerShift T)) : ∃ l', n ∈ T.list l' := by
  have hn : n ∈ (timerShift T).nodes := by
    rw [Timer.nodes, Multiset.mem_sum]
    exact ⟨l, by rw [hp l n h]; exact place_mem_refs _ _, Multiset.mem_coe.mpr h⟩
  rw [timerShift_nodes, Timer.nodes, Multiset.mem_sum] at hn
  obtain ⟨l', _, hl'⟩ := hn
  exact ⟨l', Multiset.mem_coe.mp hl'⟩

/-- A `timer_update` call up to its first unlock. -/
theorem executeBefore_inv {t0 : Nat} {s : System} (c : Core t0 s [] (s.shifts + 1))
    (hcalls : s.calls = s.shifts + 1) : Inv t0 s.executeBefore := by
  simp only [System.executeBefore, c.executed_nil, ne_eq, not_true, if_false]
  have hp := timerShift_placed c.time_lt c.placed c.pending
  refine executeAfter_inv (s := { s with T := timerShift s.T, shifts := s.shifts + 1 })
    { c with clock := ?_, placed := hp, wheel := ?_, now := ?_, added := ?_, logged := ?_, conserve := ?_ }
    hcalls
  · show (timerShift s.T).time = (t0 + (s.shifts + 1)) % 2 ^ 32
    rw [timerShift_time, c.clock]; omega
  · intro l n hn
    obtain ⟨l', hl'⟩ := mem_timerShift hn hp
    exact c.wheel l' n hl'
  · intro n hn; cases hn
  · intro a ha
    obtain ⟨h1, h2, h3⟩ := c.added a ha
    exact ⟨h1, Nat.le_succ_of_le h2, h3⟩
  · intro e he
    obtain ⟨h1, h2⟩ := c.logged e he
    exact ⟨Nat.le_succ_of_le h1, h2⟩
  · show (timerShift s.T).nodes + _ + _ = _
    rw [timerShift_nodes]; exact c.conserve

/-- The node `timer_add` links is new, and is due later than now. -/
theorem add_inv {t0 : Nat} {s : System} (inv : Inv t0 s) (event : TimerEvent) {time : Nat}
    (h1 : 1 ≤ time) (h2 : time < 2 ^ 31) :
    Inv t0 { s with T := timerAdd s.T s.added.length event time,
                    added := s.added ++ [⟨⟨s.added.length, (time + s.T.time) % 2 ^ 32, event⟩, s.T.time,
                      s.shifts, time⟩] } := by
  have c := inv.core
  have old : ∀ {P : Added → Prop}, (∃ a ∈ s.added, P a) → ∃ a ∈ s.added ++ [(⟨⟨s.added.length,
      (time + s.T.time) % 2 ^ 32, event⟩, s.T.time, s.shifts, time⟩ : Added)], P a := by
    rintro P ⟨a, ha, hp⟩; exact ⟨a, List.mem_append_left _ ha, hp⟩
  refine ⟨⟨c.clock, ?_, ?_, fun n hn => old (c.now n hn), ?_, ?_, ?_, ?_, ?_⟩, inv.calls, inv.phase⟩
  · intro l n hn
    rcases mem_addNode.mp hn with hn | ⟨rfl, hl⟩
    · exact c.placed l n hn
    · exact hl
  · intro l n hn
    rcases mem_addNode.mp hn with hn | ⟨rfl, _⟩
    · exact old (c.wheel l n hn)
    · exact ⟨_, List.mem_append_right _ (List.mem_singleton.mpr rfl), rfl, by simp only [Added.due]; omega⟩
  · intro a ha
    rcases List.mem_append.mp ha with ha | ha
    · exact c.added a ha
    · rw [List.mem_singleton] at ha
      subst ha
      exact ⟨c.clock, Nat.le_refl _, h1, h2, by rw [Nat.add_comm]⟩
  · intro a ha
    rw [List.length_append, List.length_singleton]
    rcases List.mem_append.mp ha with ha | ha
    · exact Nat.lt_succ_of_lt (c.ids a ha)
    · rw [List.mem_singleton] at ha
      subst ha; exact Nat.lt_succ_self _
  · rw [List.map_append, List.nodup_append]
    refine ⟨c.nodup, by simp, ?_⟩
    intro n hn m hm hnm
    obtain ⟨a, ha, rfl⟩ := List.mem_map.mp hn
    have hid := c.ids a ha
    simp only [List.map_cons, List.map_nil, List.mem_singleton] at hm
    rw [hnm, hm] at hid
    exact Nat.lt_irrefl _ hid
  · intro e he
    obtain ⟨hle, hex⟩ := c.logged e he
    exact ⟨hle, old hex⟩
  · show (addNode s.T _).nodes + _ + _ = _
    rw [addNode_nodes, List.map_append, ← Multiset.coe_add, ← c.conserve]
    simp only [List.map_cons, List.map_nil, Multiset.coe_singleton]
    abel

/-- `dispatch_list` pushes the message of a node that is due at this very shift. -/
theorem dispatch_inv {t0 : Nat} {s : System} (inv : Inv t0 s) {n : TimerNode} {ns : List TimerNode}
    (hpc : s.pc = .after (n :: ns)) :
    Inv t0 { s with pc := .after ns, log := s.log ++ [⟨n, s.calls, s.T.time⟩] } := by
  have c := inv.core
  rw [hpc] at c
  refine ⟨⟨c.clock, c.placed, c.wheel, fun m hm => c.now m (List.mem_cons_of_mem _ hm), c.added, c.ids,
    c.nodup, ?_, ?_⟩, inv.calls, fun ms h => by cases h⟩
  · intro e he
    rcases List.mem_append.mp he with he | he
    · exact c.logged e he
    · rw [List.mem_singleton] at he
      subst he
      obtain ⟨a, ha, hn, hd⟩ := c.now n (List.mem_cons_self ..)
      refine ⟨Nat.le_of_eq inv.calls, a, ha, hn, by rw [hd]; exact inv.calls, ?_⟩
      rw [← (c.added a ha).2.2.2.2, c.expire ha, hd]; exact c.clock
  · rw [List.map_append, ← Multiset.coe_add, ← c.conserve]
    simp only [List.map_cons, List.map_nil, Pc.current, ← Multiset.cons_coe, ← Multiset.singleton_add]
    abel

theorem step_inv {t0 : Nat} (s : System) (a : Step) (s' : System) (inv : Inv t0 s)
    (h : s.step a = some s') : Inv t0 s' := by
  cases a with
  | add event time =>
    simp only [System.step] at h
    split at h
    · rename_i ht; cases h; exact add_inv inv event ht.1 ht.2
    · cases h
  | update =>
    simp only [System.step] at h
    split at h
    · rename_i hpc
      cases h
      have c := inv.core
      rw [hpc] at c
      exact executeBefore_inv (s := { s with calls := s.calls + 1 }) { c with } (by rw [inv.calls])
    · cases h
  | dispatch =>
    simp only [System.step] at h
    split at h
    · rename_i hpc; exact absurd hpc (inv.phase _)
    · rename_i hpc; cases h; exact dispatch_inv inv hpc
    · cases h
  | relock =>
    simp only [System.step] at h
    split at h
    · rename_i hpc; exact absurd hpc (inv.phase _)
    · rename_i hpc
      cases h
      have c := inv.core
      rw [hpc] at c
      refine executeAfter_inv { c with wheel := fun l n hn => ?_ } inv.calls
      obtain ⟨a, ha, he, hd⟩ := c.wheel l n hn
      exact ⟨a, ha, he, Nat.le_of_succ_le hd⟩
    · cases h

theorem init_inv {t0 : Nat} (h : t0 < 2 ^ 32) : Inv t0 (System.init t0) where
  core :=
    { clock := (Nat.mod_eq_of_lt h).symm
      placed := fun l n hn => by cases hn
      wheel := fun l n hn => by cases hn
      now := fun n hn => by cases hn
      added := fun a ha => by cases ha
      ids := fun a ha => by cases ha
      nodup := List.nodup_nil
      logged := fun e he => by cases he
      conserve := by simp [System.init, Timer.nodes, Pc.current] }
  calls := rfl
  phase := fun ns h => by cases h

/-! ## Exactness -/

/-- How often a node has been dispatched. -/
def System.dispatches (s : System) (n : TimerNode) : Nat := (s.log.map (·.node)).count n

/-- The number of `timer_update` calls that have returned. -/
def System.finished (s : System) : Nat := if s.pc = .idle then s.calls else s.calls - 1

theorem Core.conserve_count {t0 : Nat} {s : System} {held : List TimerNode} {lo : Nat}
    (c : Core t0 s held lo) {a : Added} (ha : a ∈ s.added) :
    s.T.nodes.count a.node + held.count a.node + s.dispatches a.node = 1 := by
  have h := congrArg (Multiset.count a.node) c.conserve
  rw [Multiset.count_add, Multiset.count_add, Multiset.coe_count, Multiset.coe_count, Multiset.coe_count,
    List.count_eq_one_of_mem c.nodup (List.mem_map.mpr ⟨a, ha, rfl⟩)] at h
  exact h

/-- Nodes are told apart by their address, so the record of a node is unique. -/
theorem Core.added_unique {t0 : Nat} {s : System} {held : List TimerNode} {lo : Nat}
    (c : Core t0 s held lo) {a b : Added} (ha : a ∈ s.added) (hb : b ∈ s.added) (h : a.node = b.node) :
    a = b :=
  List.inj_on_of_nodup_map c.nodup ha hb h

/-- **Exactness of the timer wheel.** In every run from any clock value, for every node added when
the clock read `a.time`, after `a.shifts` shifts, with delay `a.delay`: it is dispatched at most
once; exactly once when call number `a.due` has returned, and not at all before that call has
begun; and where it is dispatched, the call is that one and the clock, just shifted, reads
`a.time + a.delay` modulo 2^32. Shift number `a.due` is the first after the addition that brings
the clock there. -/
theorem timer_exact (t0 : UInt32) (as : List Step) (s : System)
    (h : Lts.run System.step (System.init t0.toNat) as = some s) (a : Added) (ha : a ∈ s.added) :
    s.T.time = (t0.toNat + s.shifts) % 2 ^ 32 ∧
    IsLeast { k | a.shifts < k ∧ (t0.toNat + k) % 2 ^ 32 = (a.time + a.delay) % 2 ^ 32 } a.due ∧
    s.dispatches a.node ≤ 1 ∧
    (a.due ≤ s.finished → s.dispatches a.node = 1) ∧
    (s.calls < a.due → s.dispatches a.node = 0) ∧
    (∀ e ∈ s.log, e.node = a.node → e.call = a.due ∧ e.time = (a.time + a.delay) % 2 ^ 32) := by
  have inv : Inv t0.toNat s := Lts.run_invariant step_inv h (init_inv t0.toNat_lt)
  have c := inv.core
  have hcount := c.conserve_count ha
  have hlog : ∀ e ∈ s.log, e.node = a.node →
      e.call = a.due ∧ e.call ≤ s.shifts ∧ e.time = (a.time + a.delay) % 2 ^ 32 := by
    intro e he hn
    obtain ⟨hle, b, hb, hbn, hcall, htime⟩ := c.logged e he
    have : b = a := c.added_unique hb ha (hbn.trans hn)
    subst this
    exact ⟨hcall, hle, htime⟩
  refine ⟨c.clock, ?_, by omega, ?_, ?_, fun e he hn => ⟨(hlog e he hn).1, (hlog e he hn).2.2⟩⟩
  · obtain ⟨ht, _, h1, h2, _⟩ := c.added a ha
    rw [ht]
    refine ⟨⟨?_, ?_⟩, ?_⟩
    · simp only [Added.due]; omega
    · simp only [Added.due]; omega
    · rintro k ⟨hk, he⟩
      simp only [Added.due]; omega
  · intro hfin
    -- neither in the wheel nor in hand: what is there is due later than a finished call
    have hw : s.T.nodes.count a.node = 0 := by
      rw [Multiset.count_eq_zero, Timer.nodes, Multiset.mem_sum]
      rintro ⟨l, _, hl⟩
      obtain ⟨b, hb, hbn, hd⟩ := c.wheel l _ (Multiset.mem_coe.mp hl)
      have : b = a := c.added_unique hb ha hbn
      subst this
      have := inv.calls
      simp only [System.finished] at hfin
      split at hfin <;> omega
    have hh : s.pc.current.count a.node = 0 := by
      rw [List.count_eq_zero]
      intro hm
      obtain ⟨b, hb, hbn, hd⟩ := c.now _ hm
      have : b = a := c.added_unique hb ha hbn
      subst this
      have hcalls := inv.calls
      have hpos := (c.added b ha).2.2.1
      simp only [System.finished] at hfin
      split at hfin
      · rename_i hpc; rw [hpc] at hm; cases hm
      · simp only [Added.due] at hd hfin; omega
    omega
  · intro hlt
    rw [System.dispatches, List.count_eq_zero]
    intro hm
    obtain ⟨e, he, hn⟩ := List.mem_map.mp hm
    have := hlog e he hn
    have := inv.calls
    omega

/-- A node added two ticks before the clock wraps, with delay 3, and one with delay 300 that goes
through `t[3][0]`: the first is dispatched in the third call, at clock 1. -/
def wrapRun : List Step :=
  [.add ⟨7, 1⟩ 3, .add ⟨8, 2⟩ 300, .update, .update, .update, .add ⟨9, 3⟩ 1, .dispatch, .relock]

theorem timer_exact_wrap :
    ∃ s, Lts.run System.step (System.init (4294967294 : UInt32).toNat) wrapRun = some s ∧
      ∃ a ∈ s.added, a.due = 3 ∧ a.node.event = ⟨7, 1⟩ ∧ s.dispatches a.node = 1 := by
  obtain ⟨s, hs⟩ := Option.isSome_iff_exists.mp
    (show (Lts.run System.step (System.init (4294967294 : UInt32).toNat) wrapRun).isSome = true by decide)
  have hv : (Lts.run System.step (System.init (4294967294 : UInt32).toNat) wrapRun).map
      (fun s => (s.added.head?, s.finished)) =
      some (some ⟨⟨0, 1, ⟨7, 1⟩⟩, 4294967294, 0, 3⟩, 3) := by decide
  rw [hs, Option.map_some, Option.some.injEq, Prod.mk.injEq] at hv
  obtain ⟨hhead, hfin⟩ := hv
  have ha := List.mem_of_mem_head? hhead
  refine ⟨s, hs, _, ha, rfl, rfl, (timer_exact 4294967294 wrapRun s hs _ ha).2.2.2.1 ?_⟩
  rw [hfin]; decide

end Timers
end Skynet
