import Skynet.HandleRegistry

/-!
# Skynet.HandleZero

Handle 0. `skynet_handle_init` starts the allocation index at 1 (`reserve 0 for system`), and
`skynet_handle_retireall` skips a context whose handle is 0. The search of `skynet_handle_register`
masks the index to 24 bits on its way, and nothing in it passes over 0: once the index has come
close to `0xffffff`, a search that meets only taken slots up to there tries 0 next.

* `findFree_zero` : when the first free slot of a search is the one of candidate 0.
* `register_zero_iff` : the same for a whole registration, which may double the table first, in
  terms of the live handles.
* `zero_reserved_iff` : every run; `zero_handed_out` : a run that gets handle 0.
-/

namespace Skynet
namespace Handle

theorem mod_zero_of_or_harbor {h b : Nat} (hh : h < 2 ^ 24) : (h ||| b <<< 24) % 2 ^ 24 = h := by
  rw [or_harbor_mod (Nat.le_refl 24) hh, Nat.mod_eq_of_lt hh]

/-! ## The search -/

/-- The index stays in `1 .. 2^24`, so the search wraps at most once, and comes to 0 only after every
candidate from the index up to `0xffffff`. -/
theorem findFree_zero {s : HandleStorage} (hs : ∃ k, k ≤ 24 ∧ s.slotSize = 2 ^ k) (h1 : 1 ≤ s.handleIndex)
    (h2 : s.handleIndex ≤ 2 ^ 24) :
    (∃ i, findFree s = some i ∧ candidate s i = 0) ↔
      2 ^ 24 < s.handleIndex + s.slotSize ∧
      (∀ h, s.handleIndex ≤ h → h < 2 ^ 24 → s.slot (h % s.slotSize) ≠ none) ∧ s.slot 0 = none := by
  obtain ⟨k, hk, hsz⟩ := hs
  have hle : 2 ^ k ≤ 2 ^ 24 := Nat.pow_le_pow_right (by decide) hk
  have hslot : ∀ i, candidate s i &&& (s.slotSize - 1) = (i + s.handleIndex) % s.slotSize := by
    intro i
    rw [candidate_eq, hsz, low_bits, Nat.mod_mod_of_dvd _ (Nat.pow_dvd_pow 2 hk)]
  simp only [findFree, List.find?_range_eq_some, List.mem_range, Option.isNone_iff_eq_none, hslot,
    Bool.not_eq_true', Option.isNone_eq_false_iff, Option.isSome_iff_ne_none]
  simp only [candidate_eq]
  have hwrap : (2 ^ 24) % s.slotSize = 0 := by
    rw [hsz]; exact Nat.mod_eq_zero_of_dvd (Nat.pow_dvd_pow 2 hk)
  constructor
  · rintro ⟨i, ⟨hfree, hi, hbefore⟩, hzero⟩
    have hsum : i + s.handleIndex = 2 ^ 24 := by omega
    rw [hsum, hwrap] at hfree
    refine ⟨by omega, fun h hge hlt => ?_, hfree⟩
    have := hbefore (h - s.handleIndex) (by omega)
    rwa [Nat.sub_add_cancel hge] at this
  · rintro ⟨hnear, htaken, hfree⟩
    have hsum : 2 ^ 24 - s.handleIndex + s.handleIndex = 2 ^ 24 := by omega
    refine ⟨2 ^ 24 - s.handleIndex, ⟨by rw [hsum, hwrap]; exact hfree, by omega, fun j hj => ?_⟩, ?_⟩
    · exact htaken (j + s.handleIndex) (by omega) (by omega)
    · rw [hsum, Nat.mod_self]

theorem Placed.taken_iff {own : CtxId → Nat} {s : HandleStorage} (p : Placed own s) (j : Nat) : s.slot j ≠ none ↔ ∃ c, InTable s c ∧ own c % s.slotSize = j := by
  obtain ⟨k, _, hsz⟩ := p.size
  have hown : ∀ i c, s.slot i = some c → i = own c % s.slotSize := by
    intro i c hi
    have := p.slot_own i c hi
    rwa [hsz, low_bits, ← hsz] at this
  constructor
  · intro h
    obtain ⟨c, hc⟩ := Option.ne_none_iff_exists'.mp h
    exact ⟨c, ⟨j, hc⟩, (hown j c hc).symm⟩
  · rintro ⟨c, ⟨i, hi⟩, he⟩
    rw [← he, ← hown i c hi, hi]
    simp

/-! ## A registration -/

/-- A live handle sits in the slot that `h` has in a table of size `m`. -/
def Registry.Taken (s : Registry) (m h : Nat) : Prop := ∃ c x, s.live c = some x ∧ x % m = h % m

/-- In a table of size `m`, every handle from the index up to `0xffffff` is taken, within one search,
and 0 is not. -/
structure Registry.ZeroFirst (s : Registry) (m : Nat) : Prop where
  near : 2 ^ 24 < s.store.handleIndex + m
  taken : ∀ h, s.store.handleIndex ≤ h → h < 2 ^ 24 → s.Taken m h
  free : ¬ s.Taken m 0

/-- The next registration comes to handle 0: in the table as it is, or, when that one is full and can
grow, in the table of twice the size. -/
def Registry.ComesToZero (s : Registry) : Prop :=
  s.ZeroFirst s.store.slotSize ∨
    (∀ h, s.Taken s.store.slotSize h) ∧ s.store.slotSize * 2 ≤ 2 ^ 24 ∧ s.ZeroFirst (s.store.slotSize * 2)

/-- What the claim says of one operation. -/
def Registry.ReturnsNonzero (s : Registry) : Op → Prop
  | .register ctx => s.live ctx = none → ∀ store handle,
      skynetHandleRegister (Function.update s.handle ctx 0) s.store ctx = .ok (store, handle) →
        handle % 2 ^ 24 ≠ 0
  | _ => True

/-- The condition on one operation. -/
def Registry.KeepsFromZero (s : Registry) : Op → Prop
  | .register ctx => s.live ctx = none → ¬ s.ComesToZero
  | _ => True

structure Registry.IndexInv (s : Registry) : Prop where
  base : s.Inv
  low : 1 ≤ s.store.handleIndex
  high : s.store.handleIndex ≤ 2 ^ 24

/-- The table a search ends in: the table as it is, or the doubled one. -/
structure SearchTable (own : CtxId → Nat) (s t : HandleStorage) : Prop where
  placed : Placed own t
  inTable : ∀ c, InTable t c ↔ InTable s c
  index : t.handleIndex = s.handleIndex
  harbor : t.harbor = s.harbor

theorem register_found {own : CtxId → Nat} {s : HandleStorage} (hd : CtxId → Nat) (ctx : CtxId) (p : Placed own s)
    {i : Nat} (h : findFree s = some i) :
    SearchTable own s s ∧ ∃ store, skynetHandleRegister hd s ctx = .ok (store, candidate s i ||| s.harbor) ∧
      store.handleIndex = candidate s i + 1 :=
  ⟨⟨p, fun _ => Iff.rfl, rfl, rfl⟩, _, registerLoop_found h, rfl⟩

theorem register_doubled {own hd : CtxId → Nat} {s : HandleStorage} (ctx : CtxId) (p : Placed own s)
    (hagree : ∀ c, InTable s c → hd c &&& (s.slotSize * 2 - 1) = own c &&& (s.slotSize * 2 - 1))
    (h : findFree s = none) (hcap : s.slotSize * 2 - 1 ≤ handleMask) :
    ∃ t i store, SearchTable own s t ∧ t.slotSize = s.slotSize * 2 ∧ findFree t = some i ∧
      skynetHandleRegister hd s ctx = .ok (store, candidate t i ||| s.harbor) ∧
      store.handleIndex = candidate t i + 1 := by
  obtain ⟨f, hf, hp, hin, hfree⟩ := doubled_spec p (fun j hj => findFree_none p.size h hj) hagree hcap
  obtain ⟨i, hi⟩ := Option.ne_none_iff_exists'.mp hfree
  exact ⟨_, i, _, ⟨hp, hin, rfl, rfl⟩, rfl, hi,
    (registerLoop_doubled h hcap hf).trans (registerLoop_found hi), rfl⟩

theorem candidate_lt (s : HandleStorage) (i : Nat) : candidate s i < 2 ^ 24 := by
  rw [candidate_eq]; exact Nat.mod_lt _ (by decide)

theorem handle_mod {s t : HandleStorage} {own : CtxId → Nat} (p : Placed own s) (i : Nat) :
    (candidate t i ||| s.harbor) % 2 ^ 24 = candidate t i := by
  obtain ⟨b, hb⟩ := p.harbor
  rw [hb]
  exact mod_zero_of_or_harbor (candidate_lt t i)

theorem Registry.Inv.agree {s : Registry} (inv : s.Inv) {ctx : CtxId} (hl : s.live ctx = none) (m : Nat) :
    ∀ c, InTable s.store c →
      Function.update s.handle ctx 0 c &&& m = s.handle c &&& m := by
  intro c hc
  have hne : c ≠ ctx := by rintro rfl; exact (inv.inTable c).mp hc hl
  rw [Function.update_of_ne hne]

theorem Registry.Inv.taken_iff {s : Registry} (inv : s.Inv) {t : HandleStorage}
    (ht : SearchTable s.handle s.store t) (h : Nat) :
    t.slot (h % t.slotSize) ≠ none ↔ s.Taken t.slotSize h := by
  rw [ht.placed.taken_iff]
  constructor
  · rintro ⟨c, hc, he⟩
    obtain ⟨x, hx⟩ := Option.ne_none_iff_exists'.mp ((inv.inTable c).mp ((ht.inTable c).mp hc))
    exact ⟨c, x, hx, by rw [← inv.stored c x hx]; exact he⟩
  · rintro ⟨c, x, hx, he⟩
    exact ⟨c, (ht.inTable c).mpr ((inv.inTable c).mpr (by simp [hx])), by rw [inv.stored c x hx]; exact he⟩

theorem Registry.IndexInv.zeroFirst_iff {s : Registry} (inv : s.IndexInv) {t : HandleStorage}
    (ht : SearchTable s.handle s.store t) :
    (∃ i, findFree t = some i ∧ candidate t i = 0) ↔ s.ZeroFirst t.slotSize := by
  have hlow : 1 ≤ t.handleIndex := ht.index ▸ inv.low
  have hhigh : t.handleIndex ≤ 2 ^ 24 := ht.index ▸ inv.high
  have hzero : t.slot 0 = none ↔ ¬ s.Taken t.slotSize 0 := by
    rw [← inv.base.taken_iff ht, Nat.zero_mod, not_not]
  rw [findFree_zero ht.placed.size hlow hhigh, hzero, ht.index]
  constructor
  · rintro ⟨hnear, htaken, hfree⟩
    exact ⟨hnear, fun h hge hlt => (inv.base.taken_iff ht h).mp (htaken h hge hlt), hfree⟩
  · rintro ⟨hnear, htaken, hfree⟩
    exact ⟨hnear, fun h hge hlt => (inv.base.taken_iff ht h).mpr (htaken h hge hlt), hfree⟩

/-- When a registration returns handle 0. -/
theorem Registry.IndexInv.register_zero_iff {s : Registry} (inv : s.IndexInv) {ctx : CtxId}
    (hl : s.live ctx = none) :
    (∃ store handle, skynetHandleRegister (Function.update s.handle ctx 0) s.store ctx = .ok (store, handle) ∧
      handle % 2 ^ 24 = 0) ↔ s.ComesToZero := by
  have hself : SearchTable s.handle s.store s.store := ⟨inv.base.placed, fun _ => Iff.rfl, rfl, rfl⟩
  have hcapeq : s.store.slotSize * 2 - 1 ≤ handleMask ↔ s.store.slotSize * 2 ≤ 2 ^ 24 := by
    rw [handleMask]; omega
  cases hff : findFree s.store with
  | some i =>
    obtain ⟨_, store, hreg, _⟩ := register_found (Function.update s.handle ctx 0) ctx inv.base.placed hff
    have hnotFull : ¬ ∀ h, s.Taken s.store.slotSize h := by
      intro hfull
      have hfree := findFree_some hff
      obtain ⟨k, _, hsz⟩ := inv.base.placed.size
      rw [hsz, low_bits, ← hsz] at hfree
      exact (inv.base.taken_iff hself _).mpr (hfull _) hfree
    have hfirst := inv.zeroFirst_iff hself
    rw [hff] at hfirst
    constructor
    · rintro ⟨store', handle, hreg', hzero⟩
      rw [hreg] at hreg'
      cases hreg'
      rw [handle_mod inv.base.placed] at hzero
      exact .inl (hfirst.mp ⟨i, rfl, hzero⟩)
    · rintro (hz | ⟨hfull, _⟩)
      · obtain ⟨j, hj, hzero⟩ := hfirst.mpr hz
        cases hj
        exact ⟨store, _, hreg, by rw [handle_mod inv.base.placed]; exact hzero⟩
      · exact absurd hfull hnotFull
  | none =>
    have hfull : ∀ h, s.Taken s.store.slotSize h := by
      intro h
      obtain ⟨k, _, hsz⟩ := inv.base.placed.size
      have hpos : 0 < s.store.slotSize := by rw [hsz]; exact Nat.two_pow_pos k
      obtain ⟨c, hc⟩ := findFree_none inv.base.placed.size hff (Nat.mod_lt h hpos)
      exact (inv.base.taken_iff hself h).mp (by rw [hc]; simp)
    have hnotFirst : ¬ s.ZeroFirst s.store.slotSize := fun hz => hz.free (hfull 0)
    by_cases hcap : s.store.slotSize * 2 - 1 ≤ handleMask
    · obtain ⟨t, i, store, ht, hsize, hfree, hreg, _⟩ :=
        register_doubled ctx inv.base.placed (inv.base.agree hl _) hff hcap
      have hfirst := inv.zeroFirst_iff ht
      rw [hfree, hsize] at hfirst
      constructor
      · rintro ⟨store', handle, hreg', hzero⟩
        rw [hreg] at hreg'
        cases hreg'
        rw [handle_mod inv.base.placed] at hzero
        exact .inr ⟨hfull, hcapeq.mp hcap, hfirst.mp ⟨i, rfl, hzero⟩⟩
      · rintro (hz | ⟨_, _, hz⟩)
        · exact absurd hz hnotFirst
        · obtain ⟨j, hj, hzero⟩ := hfirst.mpr hz
          cases hj
          exact ⟨store, _, hreg, by rw [handle_mod inv.base.placed]; exact hzero⟩
    · have herr : skynetHandleRegister (Function.update s.handle ctx 0) s.store ctx = .error .tableFull :=
        registerLoop_tableFull hff hcap
      rw [herr]
      constructor
      · rintro ⟨_, _, h, _⟩; cases h
      · rintro (hz | ⟨_, hle, _⟩)
        · exact absurd hz hnotFirst
        · exact absurd (hcapeq.mpr hle) hcap

/-! ## Every run -/

theorem Registry.init_indexInv (harbor : Nat) : (Registry.init harbor).IndexInv :=
  ⟨Registry.init_inv harbor, Nat.le_refl 1, Nat.one_le_two_pow⟩

theorem retire_index (hd : CtxId → Nat) (s : HandleStorage) (handle : Nat) :
    (skynetHandleRetire hd s handle).1.handleIndex = s.handleIndex := by
  simp only [skynetHandleRetire]
  split
  · split <;> rfl
  · rfl

theorem Registry.step_indexInv (s : Registry) (op : Op) (s' : Registry) (inv : s.IndexInv)
    (h : s.step op = some s') : s'.IndexInv := by
  have hbase := Registry.step_inv s op s' inv.base h
  have hindex : 1 ≤ s'.store.handleIndex ∧ s'.store.handleIndex ≤ 2 ^ 24 := by
    cases op with
    | register ctx =>
      simp only [Registry.step] at h
      split at h
      · rename_i hl
        have hreg : ∀ store handle,
            skynetHandleRegister (Function.update s.handle ctx 0) s.store ctx = .ok (store, handle) →
              ∃ t i, store.handleIndex = candidate t i + 1 := by
          intro store handle hr
          cases hff : findFree s.store with
          | some i =>
            obtain ⟨_, store', hr', hi⟩ :=
              register_found (Function.update s.handle ctx 0) ctx inv.base.placed hff
            rw [hr] at hr'
            cases hr'
            exact ⟨_, i, hi⟩
          | none =>
            by_cases hcap : s.store.slotSize * 2 - 1 ≤ handleMask
            · obtain ⟨t, i, store', _, _, _, hr', hi⟩ :=
                register_doubled ctx inv.base.placed (inv.base.agree hl _) hff hcap
              rw [hr] at hr'
              cases hr'
              exact ⟨t, i, hi⟩
            · rw [show skynetHandleRegister _ _ ctx = _ from registerLoop_tableFull hff hcap] at hr
              cases hr
        split at h
        · rename_i store handle hr
          cases h
          obtain ⟨t, i, hi⟩ := hreg store handle hr
          have := candidate_lt t i
          simp only [hi]
          omega
        · cases h
      · cases h
    | retire handle =>
      simp only [Registry.step, Option.some.injEq] at h
      subst h
      simp only [retire_index]
      exact ⟨inv.low, inv.high⟩
    | grab _ => cases h; exact ⟨inv.low, inv.high⟩
  exact ⟨hbase, hindex.1, hindex.2⟩

/-- **Handle 0 is kept back exactly as long as no search is driven to it.** In every history of
registrations and retirements, all registrations return a handle with a nonzero low part if and
only if none of them starts in a state where every slot from the allocation index up to `0xffffff`
is taken and slot 0 is free. -/
theorem zero_reserved_iff (harbor : Nat) (ops : List Op) :
    Lts.Guarded Registry.step Registry.ReturnsNonzero (Registry.init harbor) ops ↔
      Lts.Guarded Registry.step Registry.KeepsFromZero (Registry.init harbor) ops := by
  refine Lts.guarded_iff_of_invariant Registry.step_indexInv (fun s op inv => ?_) (Registry.init_indexInv harbor)
  cases op with
  | register ctx =>
    refine forall_congr' fun hl => ?_
    rw [← inv.register_zero_iff hl]
    simp only [not_exists, not_and]
  | retire _ => exact Iff.rfl
  | grab _ => exact Iff.rfl

/-! ## A run that gets handle 0 -/

/-- The empty table with its index at `n`. -/
def emptied (harbor n : Nat) : HandleStorage := { skynetHandleInit harbor with handleIndex := n }

/-- `n` contexts one after the other, each retired before the next one is registered. -/
def churnOps (harbor : Nat) : Nat → List Op
  | 0 => []
  | n + 1 => churnOps harbor n ++ ([.register 0, .retire ((n + 1) ||| (skynetHandleInit harbor).harbor)] : List Op)

theorem register_emptied (hd : CtxId → Nat) (harbor n : Nat) (ctx : CtxId) :
    skynetHandleRegister hd (emptied harbor n) ctx =
      .ok ({ emptied harbor n with
              slot := Function.update (fun _ => none) (candidate (emptied harbor n) 0 &&& 3) (some ctx),
              handleIndex := candidate (emptied harbor n) 0 + 1 },
        candidate (emptied harbor n) 0 ||| (skynetHandleInit harbor).harbor) := by
  have hfree : findFree (emptied harbor n) = some 0 := rfl
  exact registerLoop_found hfree

theorem retire_emptied {hd : CtxId → Nat} {harbor n ctx : Nat} {h i : Nat} (hat : h &&& 3 = i) (hh : hd ctx = h) :
    (skynetHandleRetire hd
      { emptied harbor n with slot := Function.update (fun _ => none) i (some ctx) } h).1 = emptied harbor n := by
  have hslot : (emptied harbor n).slotSize - 1 = 3 := rfl
  simp only [skynetHandleRetire, hslot, hat, Function.update_self, hh, if_true, Function.update_idem]
  rw [Function.update_eq_self_iff.mpr rfl]
  rfl

/-- After `n` rounds the table is empty and the index has advanced by `n`. -/
theorem churn_run (harbor n : Nat) (hn : n < 2 ^ 24) :
    ∃ s, Lts.run Registry.step (Registry.init harbor) (churnOps harbor n) = some s ∧
      s.store = emptied harbor (n + 1) ∧ s.live = fun _ => none := by
  induction n with
  | zero => exact ⟨_, rfl, rfl, rfl⟩
  | succ n ih =>
    obtain ⟨s, hrun, hstore, hlive⟩ := ih (by omega)
    have hcand : candidate (emptied harbor (n + 1)) 0 = n + 1 := by
      rw [candidate_eq]
      simp only [emptied, Nat.zero_add]
      exact Nat.mod_eq_of_lt hn
    let handle := (n + 1) ||| (skynetHandleInit harbor).harbor
    have hlow : handle &&& 3 = (n + 1) &&& 3 := by
      rw [show (3 : Nat) = 2 ^ 2 - 1 from rfl, low_bits, low_bits]
      exact or_harbor_mod (by decide) hn
    have hreg := register_emptied (Function.update s.handle 0 0) harbor (n + 1) 0
    rw [hcand] at hreg
    let registered : Registry :=
      { store := { emptied harbor (n + 2) with slot := Function.update (fun _ => none) ((n + 1) &&& 3) (some 0) },
        handle := Function.update s.handle 0 handle, live := Function.update s.live 0 (some handle) }
    have h1 : s.step (.register 0) = some registered := by
      simp only [Registry.step, hstore, hreg, hlive, if_true, registered]
      rfl
    let retired : Registry :=
      { registered with store := emptied harbor (n + 2), live := fun _ => none }
    have h2 : registered.step (.retire handle) = some retired := by
      simp only [Registry.step, registered, retired, hlive]
      rw [retire_emptied hlow (Function.update_self ..)]
      congr
      funext c
      by_cases hc : c = 0
      · subst hc
        simp
      · simp [Function.update_of_ne hc]
    refine ⟨retired, Lts.run_append.mpr ⟨s, hrun, ?_⟩, rfl, rfl⟩
    exact Lts.run_cons.mpr ⟨registered, h1, Lts.run_cons.mpr ⟨retired, h2, rfl⟩⟩

/-- The `2^24`th registration of a process that retires each service before it starts the next one
returns handle 0 of the node. -/
theorem zero_handed_out :
    ¬ ∀ (harbor : Nat) (ops : List Op),
      Lts.Guarded Registry.step Registry.ReturnsNonzero (Registry.init harbor) ops := by
  intro hclaim
  obtain ⟨n, hn⟩ : ∃ n, n + 1 = 2 ^ 24 := ⟨2 ^ 24 - 1, by norm_num⟩
  obtain ⟨s, hrun, hstore, hlive⟩ := churn_run 0 n (by omega)
  have hlast := Lts.guarded_of_append (hclaim 0 (churnOps 0 n ++ [Op.register 0])) hrun
  have hreg := register_emptied (Function.update s.handle 0 0) 0 (n + 1) 0
  rw [← hstore] at hreg
  have hzero : candidate s.store 0 = 0 := by
    have hindex : s.store.handleIndex = 2 ^ 24 := by rw [hstore, ← hn]; rfl
    rw [candidate_eq, hindex, Nat.zero_add, Nat.mod_self]
  refine hlast.1 (by rw [hlive]) _ _ hreg ?_
  rw [hzero]
  rfl

end Handle
end Skynet
