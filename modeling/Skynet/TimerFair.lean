import Skynet.TimerExact

/-!
# Skynet.TimerFair

Nodes that expire at the same tick are dispatched in the order in which they were added.

* `Ordered` : the order of the nodes of one list. All nodes of one expiry are in one list of the wheel, so that a list
  that is moved meets none of them where its nodes go.
* `Fair` : the invariant. What expires together and was added before a node that was dispatched has been dispatched.
* `timer_fair` : every run.
-/

namespace Skynet
namespace Timers

/-- Of two nodes that expire together, the one added first stands first. -/
def Ordered (ns : List TimerNode) : Prop := ns.Pairwise fun m n => m.expire = n.expire → m.id < n.id

/-! ## The wheel -/

theorem ordered_addNode {T : Timer} {n : TimerNode} (h : ∀ l, Ordered (T.list l))
    (hn : ∀ l m, m ∈ T.list l → m.expire = n.expire → m.id < n.id) (l : ListRef) : Ordered ((addNode T n).list l) := by
  by_cases hl : l = placeOf n.expire T.time
  · subst hl
    simp only [addNode, link, Function.update_self]
    refine List.pairwise_append.mpr ⟨h _, List.pairwise_singleton .., ?_⟩
    intro m hm n' hn'
    rw [List.mem_singleton.mp hn']
    exact hn _ m hm
  · simp only [addNode, link, Function.update_of_ne hl]
    exact h l

/-- The nodes of a list are linked in its order, behind older ones. -/
theorem ordered_foldl {ns : List TimerNode} {T : Timer} (hns : Ordered ns) (h : ∀ l, Ordered (T.list l))
    (hn : ∀ n ∈ ns, ∀ l m, m ∈ T.list l → m.expire = n.expire → m.id < n.id) (l : ListRef) :
    Ordered ((ns.foldl addNode T).list l) := by
  induction ns generalizing T with
  | nil => exact h l
  | cons n ns ih =>
    obtain ⟨hfirst, hrest⟩ := List.pairwise_cons.mp hns
    refine ih hrest (ordered_addNode h (hn n (List.mem_cons_self ..))) ?_
    intro n' hn' l m hm he
    rcases mem_addNode.mp hm with hm | ⟨rfl, -⟩
    · exact hn n' (List.mem_cons_of_mem _ hn') l m hm he
    · exact hfirst n' hn' he

theorem mem_linkClear {T : Timer} {l l' : ListRef} {n : TimerNode} (h : n ∈ (linkClear T l).2.list l') :
    l' ≠ l ∧ n ∈ T.list l' := by
  by_cases hl : l' = l
  · subst hl
    simp only [linkClear, Function.update_self, List.not_mem_nil] at h
  · simp only [linkClear, Function.update_of_ne hl] at h
    exact ⟨hl, h⟩

theorem ordered_linkClear {T : Timer} {l : ListRef} (h : ∀ l, Ordered (T.list l)) (l' : ListRef) :
    Ordered ((linkClear T l).2.list l') := by
  by_cases hl : l' = l
  · subst hl
    simp only [linkClear, Function.update_self]
    exact List.Pairwise.nil
  · simp only [linkClear, Function.update_of_ne hl]
    exact h l'

/-- The list of a node is told by its expiry, so that no node left in the wheel expires with one that is moved. -/
theorem ordered_moveList {T : Timer} {f : Nat → ListRef} (hf : ∀ l n, n ∈ T.list l → l = f n.expire)
    (h : ∀ l, Ordered (T.list l)) (i j : Nat) (l : ListRef) : Ordered ((moveList T i j).list l) := by
  refine ordered_foldl (h _) (ordered_linkClear h) ?_ l
  intro n hn l' m hm he
  obtain ⟨hne, hm⟩ := mem_linkClear hm
  refine absurd ?_ hne
  rw [hf l' m hm, he, ← hf _ n hn]

theorem ordered_timerShift {T : Timer} (hp : Placed T) (h : ∀ l, Ordered (T.list l)) (l : ListRef) :
    Ordered ((timerShift T).list l) := by
  have hmove : ∀ time i j, Ordered ((moveList { T with time := time } i j).list l) := by
    intro time i j
    exact ordered_moveList (T := { T with time := time }) (f := fun e => place e T.time) hp h i j l
  simp only [timerShift]
  split
  · exact hmove _ 3 0
  · split
    · exact hmove _ _ _
    · exact h l

/-! ## The invariant -/

structure Fair (s : System) : Prop where
  wheel : ∀ l, Ordered (s.T.list l)
  held : Ordered s.pc.current
  numbered : ∀ (i : Nat) (a : Added), s.added[i]? = some a → a.node.id = i
  sorted : ∀ a ∈ s.added, ∀ b ∈ s.added, a.node.id < b.node.id → a.shifts ≤ b.shifts
  log : ∀ (before : List Dispatched) (e : Dispatched) (after : List Dispatched), s.log = before ++ e :: after →
    ∀ a ∈ s.added, a.node.expire = e.node.expire → a.node.id < e.node.id → a.node ∈ before.map (·.node)

theorem fair_executeAfter {s : System} (h : Fair s) : Fair s.executeAfter := by
  simp only [System.executeAfter]
  split
  · exact { h with wheel := ordered_linkClear h.wheel, held := h.wheel _ }
  · exact { h with held := List.Pairwise.nil }

theorem fair_executeBefore {t0 : Nat} {s : System} (h : Fair s) (c : Core t0 s [] (s.shifts + 1)) :
    Fair s.executeBefore := by
  simp only [System.executeBefore, c.executed_nil, ne_eq, not_true, if_false]
  exact fair_executeAfter { h with wheel := ordered_timerShift c.placed h.wheel }

/-- A node that is added is behind all others. -/
theorem fair_add {t0 : Nat} {s : System} (h : Fair s) (inv : Inv t0 s) (event : TimerEvent) (time : Nat) :
    Fair { s with T := timerAdd s.T s.added.length event time,
                  added := s.added ++ [⟨⟨s.added.length, (time + s.T.time) % 2 ^ 32, event⟩, s.T.time,
                    s.shifts, time⟩] } := by
  have c := inv.core
  refine ⟨ordered_addNode h.wheel ?_, h.held, ?_, ?_, ?_⟩
  · intro l m hm _
    obtain ⟨a, ha, rfl, -⟩ := c.wheel l m hm
    exact c.ids a ha
  · intro i a ha
    rw [List.getElem?_append] at ha
    split at ha
    · exact h.numbered i a ha
    · obtain ⟨hi, rfl⟩ := List.getElem?_eq_some_iff.mp ha
      simp only [List.length_singleton] at hi
      simp only [List.getElem_singleton]
      omega
  · intro a ha b hb hab
    rcases List.mem_append.mp ha with ha | ha
    · rcases List.mem_append.mp hb with hb | hb
      · exact h.sorted a ha b hb hab
      · rw [List.mem_singleton.mp hb]
        exact (c.added a ha).2.1
    · rw [List.mem_singleton.mp ha] at hab
      rcases List.mem_append.mp hb with hb | hb
      · exact absurd hab (Nat.not_lt.mpr (Nat.le_of_lt (c.ids b hb)))
      · rw [List.mem_singleton.mp hb] at hab
        exact absurd hab (Nat.lt_irrefl _)
  · intro before e after hlog a ha he hid
    rcases List.mem_append.mp ha with ha | ha
    · exact h.log before e after hlog a ha he hid
    · -- what was dispatched was added before
      obtain ⟨-, b, hb, hnode, -⟩ := c.logged e (by rw [hlog]; exact List.mem_append_right _ (List.mem_cons_self ..))
      rw [List.mem_singleton.mp ha, ← hnode] at hid
      exact absurd hid (Nat.not_lt.mpr (Nat.le_of_lt (c.ids b hb)))

/-- What expires with the next node and was added before it is not in the wheel, where later ticks wait, and not among
the nodes still in hand, which stand in order. -/
theorem dispatched_of_head {t0 : Nat} {s : System} {n : TimerNode} {ns : List TimerNode} (h : Fair s) (inv : Inv t0 s)
    (hpc : s.pc = .after (n :: ns)) {a : Added} (ha : a ∈ s.added) (he : a.node.expire = n.expire)
    (hid : a.node.id < n.id) : a.node ∈ s.log.map (·.node) := by
  have c := inv.core
  rw [hpc] at c
  have hheld : Ordered (n :: ns) := by
    have := h.held
    rwa [hpc] at this
  obtain ⟨b, hb, hbn, hdue⟩ := c.now n (List.mem_cons_self ..)
  have hlate : a.due ≤ s.shifts := by
    have hsorted := h.sorted a ha b hb (by rw [hbn]; exact hid)
    have hexpire := c.expire ha
    rw [he, ← hbn, c.expire hb] at hexpire
    obtain ⟨-, -, -, hdelay, -⟩ := c.added a ha
    simp only [Added.due] at hdue hexpire ⊢
    omega
  have hwheel : s.T.nodes.count a.node = 0 := by
    rw [Multiset.count_eq_zero, Timer.nodes, Multiset.mem_sum]
    rintro ⟨l, -, hl⟩
    obtain ⟨d, hd, hdn, hdd⟩ := c.wheel l _ (Multiset.mem_coe.mp hl)
    rw [c.added_unique hd ha hdn] at hdd
    omega
  have hhand : (n :: ns).count a.node = 0 := by
    rw [List.count_eq_zero]
    intro hm
    rcases List.mem_cons.mp hm with hm | hm
    · rw [hm] at hid
      exact Nat.lt_irrefl _ hid
    · have := (List.pairwise_cons.mp hheld).1 _ hm he.symm
      omega
  have hcount := c.conserve_count ha
  have hpos : 0 < s.dispatches a.node := by
    rw [hwheel] at hcount
    simp only [Pc.current] at hcount
    omega
  exact List.count_pos_iff.mp hpos

theorem fair_dispatch {t0 : Nat} {s : System} {n : TimerNode} {ns : List TimerNode} (h : Fair s) (inv : Inv t0 s)
    (hpc : s.pc = .after (n :: ns)) :
    Fair { s with pc := .after ns, log := s.log ++ [⟨n, s.calls, s.T.time⟩] } := by
  refine { h with held := ?_, log := ?_ }
  · have hheld := h.held
    rw [hpc] at hheld
    exact (List.pairwise_cons.mp hheld).2
  · intro before e after hlog a ha he hid
    rcases List.eq_nil_or_concat after with rfl | ⟨mid, d, rfl⟩
    · obtain ⟨hbefore, hlast⟩ := List.append_inj' hlog rfl
      rw [← hbefore]
      rw [← (List.cons.inj hlast).1] at he hid
      exact dispatched_of_head h inv hpc ha he hid
    · rw [List.concat_eq_append, ← List.cons_append, ← List.append_assoc] at hlog
      exact h.log before e mid (List.append_inj' hlog rfl).1 a ha he hid

/-! ## Runs -/

theorem fair_of_step {t0 : Nat} {s s' : System} {a : Step} (h : Fair s) (inv : Inv t0 s) (hstep : s.step a = some s') :
    Fair s' := by
  have c := inv.core
  cases a with
  | add event time =>
    simp only [System.step] at hstep
    split at hstep
    · cases hstep
      exact fair_add h inv event time
    · cases hstep
  | update =>
    simp only [System.step] at hstep
    split at hstep
    · rename_i hpc
      cases hstep
      rw [hpc] at c
      exact fair_executeBefore { h with } { c with }
    · cases hstep
  | dispatch =>
    simp only [System.step] at hstep
    split at hstep
    · rename_i hpc
      exact absurd hpc (inv.phase _)
    · rename_i hpc
      cases hstep
      exact fair_dispatch h inv hpc
    · cases hstep
  | relock =>
    simp only [System.step] at hstep
    split at hstep
    · rename_i hpc
      exact absurd hpc (inv.phase _)
    · cases hstep
      exact fair_executeAfter h
    · cases hstep

theorem fair_init (t0 : Nat) : Fair (System.init t0) where
  wheel := fun _ => List.Pairwise.nil
  held := List.Pairwise.nil
  numbered := fun _ _ h => nomatch h
  sorted := fun _ h => nomatch h
  log := by
    intro before e after h
    have := congrArg List.length h
    simp [System.init] at this

/-- When a node is dispatched, every node that expires at the same tick and was added before it has been dispatched. -/
theorem timer_fair (t0 : UInt32) (as : List Step) (s : System)
    (h : Lts.run System.step (System.init t0.toNat) as = some s) {i j : Nat} {a b : Added} (ha : s.added[i]? = some a)
    (hb : s.added[j]? = some b) (hij : i < j) (hexpire : a.node.expire = b.node.expire)
    {before after : List Dispatched} {e : Dispatched} (hlog : s.log = before ++ e :: after) (he : e.node = b.node) :
    ∃ d ∈ before, d.node = a.node := by
  have hinv : Inv t0.toNat s ∧ Fair s := by
    refine Lts.run_invariant (P := fun s => Inv t0.toNat s ∧ Fair s) ?_ h ⟨init_inv t0.toNat_lt, fair_init _⟩
    rintro s l s' ⟨inv, hf⟩ hs
    exact ⟨step_inv s l s' inv hs, fair_of_step hf inv hs⟩
  obtain ⟨-, hf⟩ := hinv
  have hmem := hf.log before e after hlog a (List.mem_of_getElem? ha) (by rw [he]; exact hexpire) (by
    rw [he, hf.numbered i a ha, hf.numbered j b hb]
    exact hij)
  exact List.mem_map.mp hmem

/-- Two timers for the tick 260 of a clock that starts at 250: the first is linked to `t[0][1]` and moved at tick 256,
and then the second is added. -/
def crossing : List Step :=
  (.add ⟨7, 1⟩ 10 :: List.replicate 6 .update : List Step) ++ (.add ⟨8, 2⟩ 4 :: List.replicate 4 .update : List Step) ++
    ([.dispatch, .dispatch] : List Step)

theorem timer_fair_crossing :
    ∃ s first second, Lts.run System.step (System.init (250 : UInt32).toNat) crossing = some s ∧
      s.log = [first, second] ∧ second.node.event = ⟨8, 2⟩ ∧ ∃ d ∈ [first], d.node = ⟨0, 260, ⟨7, 1⟩⟩ := by
  have hrun : Lts.run System.step (System.init (250 : UInt32).toNat) crossing = some _ := rfl
  exact ⟨_, _, _, hrun, rfl, rfl,
    timer_fair 250 crossing _ hrun (i := 0) (j := 1) (a := ⟨⟨0, 260, ⟨7, 1⟩⟩, 250, 0, 10⟩)
      (b := ⟨⟨1, 260, ⟨8, 2⟩⟩, 256, 6, 4⟩) rfl rfl (by decide) rfl
      (show [_, _] = [_] ++ _ :: [] from rfl) rfl⟩

end Timers
end Skynet
