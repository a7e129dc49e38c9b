import Skynet.Handle

/-!
# Skynet.HandleSpec

What each operation of the handle storage does to a table in which every context sits in the slot
given by the low bits of the handle it was given (`Placed own s`, where `own c` is that handle).

* `findFree_none` : the search fails only when every slot is taken.
* `rehash_spec` : doubling moves every context to the slot of its own handle, provided the handle
  read out of each context agrees with its own on the bits of the doubled size.
* `register_spec`, `grab_spec`, `retire_spec` : the operations.
-/

namespace Skynet
namespace Handle

/-- `c` is in the table. -/
def InTable (s : HandleStorage) (c : CtxId) : Prop := ∃ i, s.slot i = some c

structure Placed (own : CtxId → Nat) (s : HandleStorage) : Prop where
  size : ∃ k, k ≤ 24 ∧ s.slotSize = 2 ^ k
  harbor : ∃ b, s.harbor = b <<< 24
  slot_own : ∀ i c, s.slot i = some c → i = own c &&& (s.slotSize - 1)

theorem low_bits (x k : Nat) : x &&& (2 ^ k - 1) = x % 2 ^ k := Nat.and_two_pow_sub_one_eq_mod x k

theorem candidate_eq (s : HandleStorage) (i : Nat) : candidate s i = (i + s.handleIndex) % 2 ^ 24 :=
  low_bits _ 24

theorem or_harbor_mod {h b k : Nat} (hk : k ≤ 24) (hh : h < 2 ^ 24) :
    (h ||| b <<< 24) % 2 ^ k = h % 2 ^ k := by
  rw [Nat.or_comm, ← Nat.shiftLeft_add_eq_or_of_lt hh, Nat.shiftLeft_eq]
  obtain ⟨m, hm⟩ := Nat.pow_dvd_pow 2 hk
  rw [hm, show b * (2 ^ k * m) + h = h + 2 ^ k * (b * m) by ring, Nat.add_mul_mod_self_left]

theorem Placed.inj {own : CtxId → Nat} {s : HandleStorage} (p : Placed own s) {c : CtxId}
    {i j : Nat} (hi : s.slot i = some c) (hj : s.slot j = some c) : i = j :=
  (p.slot_own i c hi).trans (p.slot_own j c hj).symm

theorem findFree_some {s : HandleStorage} {i : Nat} (h : findFree s = some i) :
    s.slot (candidate s i &&& (s.slotSize - 1)) = none := by
  have := List.find?_some h
  simpa using this

/-- The candidates of one search cover every residue, so a failed search saw every slot. -/
theorem findFree_none {s : HandleStorage} (hs : ∃ k, k ≤ 24 ∧ s.slotSize = 2 ^ k)
    (h : findFree s = none) {j : Nat} (hj : j < s.slotSize) : ∃ c, s.slot j = some c := by
  obtain ⟨k, hk, hsz⟩ := hs
  have hpos : 0 < 2 ^ k := Nat.two_pow_pos k
  rw [hsz] at hj
  let i := (j + (2 ^ k - s.handleIndex % 2 ^ k)) % 2 ^ k
  have hi : i ∈ List.range s.slotSize := by
    rw [List.mem_range, hsz]; exact Nat.mod_lt _ hpos
  have hcand : candidate s i &&& (s.slotSize - 1) = j := by
    rw [candidate_eq, hsz, low_bits, Nat.mod_mod_of_dvd _ (Nat.pow_dvd_pow 2 hk)]
    have hr : s.handleIndex % 2 ^ k < 2 ^ k := Nat.mod_lt _ hpos
    calc (i + s.handleIndex) % 2 ^ k
        = (j + (2 ^ k - s.handleIndex % 2 ^ k) + s.handleIndex % 2 ^ k) % 2 ^ k := by
          simp only [i, Nat.add_mod, Nat.mod_mod]
      _ = (j + 2 ^ k) % 2 ^ k := by congr 1; omega
      _ = j := by rw [Nat.add_mod_right, Nat.mod_eq_of_lt hj]
  have hn := List.find?_eq_none.mp h i hi
  rw [hcand] at hn
  simpa [Option.isNone_iff_eq_none, ← Option.ne_none_iff_exists'] using hn

/-! ## Doubling -/

/-- After `n` rounds the new table holds the contexts of the first `n` old slots, each at the slot
of its own handle. Two of them cannot collide: their own handles differ already on the bits of
the old size. -/
theorem rehash_spec {own hd : CtxId → Nat} {s : HandleStorage} (p : Placed own s)
    (hfull : ∀ j, j < s.slotSize → ∃ c, s.slot j = some c)
    (hagree : ∀ c, InTable s c → hd c &&& (s.slotSize * 2 - 1) = own c &&& (s.slotSize * 2 - 1)) :
    ∀ n, n ≤ s.slotSize → ∃ f, rehash hd s n = .ok f ∧
      ∀ j c, f j = some c ↔ ∃ i, i < n ∧ s.slot i = some c ∧ j = own c &&& (s.slotSize * 2 - 1) := by
  obtain ⟨k, _, hsz⟩ := p.size
  have hdbl : ∀ x, x &&& (s.slotSize * 2 - 1) = x % (2 ^ k * 2) := by
    intro x; rw [hsz, ← Nat.pow_succ]; exact low_bits x (k + 1)
  intro n
  induction n with
  | zero => intro _; exact ⟨fun _ => none, rfl, by simp⟩
  | succ n ih =>
    intro hn
    obtain ⟨f, hf, hfs⟩ := ih (by omega)
    obtain ⟨c, hc⟩ := hfull n hn
    have hfree : f (own c &&& (s.slotSize * 2 - 1)) = none := by
      by_contra hne
      obtain ⟨d, hd'⟩ := Option.ne_none_iff_exists'.mp hne
      obtain ⟨i, hi, hsi, he⟩ := (hfs _ d).mp hd'
      -- equal modulo the doubled size, hence modulo the old one: the same old slot
      have hi' := p.slot_own i d hsi
      have hn' := p.slot_own n c hc
      rw [hdbl, hdbl] at he
      rw [hsz, low_bits] at hi' hn'
      have := congrArg (· % 2 ^ k) he
      simp only [Nat.mod_mul_right_mod] at this
      omega
    refine ⟨Function.update f (own c &&& (s.slotSize * 2 - 1)) (some c), ?_, ?_⟩
    · simp only [rehash, hf, hc, hagree c ⟨n, hc⟩, hfree]; rfl
    · intro j d
      by_cases hj : j = own c &&& (s.slotSize * 2 - 1)
      · subst hj
        simp only [Function.update_self, Option.some.injEq]
        constructor
        · rintro rfl; exact ⟨n, by omega, hc, rfl⟩
        · rintro ⟨i, hi, hsi, he⟩
          by_cases hin : i = n
          · subst hin; rw [hc] at hsi; exact Option.some.inj hsi
          · have := (hfs _ d).mpr ⟨i, by omega, hsi, he⟩
            rw [hfree] at this; cases this
      · rw [Function.update_of_ne hj, hfs]
        constructor
        · rintro ⟨i, hi, hsi, he⟩; exact ⟨i, by omega, hsi, he⟩
        · rintro ⟨i, hi, hsi, he⟩
          refine ⟨i, ?_, hsi, he⟩
          by_contra hge
          have : i = n := by omega
          subst this
          rw [hc] at hsi; cases hsi; exact hj he

/-- The doubled table: placed as before, with the same contexts, and with a free slot. -/
theorem doubled_spec {own hd : CtxId → Nat} {s : HandleStorage} (p : Placed own s)
    (hfull : ∀ j, j < s.slotSize → ∃ c, s.slot j = some c)
    (hagree : ∀ c, InTable s c → hd c &&& (s.slotSize * 2 - 1) = own c &&& (s.slotSize * 2 - 1))
    (hcap : s.slotSize * 2 - 1 ≤ handleMask) :
    ∃ f, rehash hd s s.slotSize = .ok f ∧
      Placed own { s with slot := f, slotSize := s.slotSize * 2 } ∧
      (∀ c, (∃ j, f j = some c) ↔ InTable s c) ∧
      findFree { s with slot := f, slotSize := s.slotSize * 2 } ≠ none := by
  obtain ⟨k, hk, hsz⟩ := p.size
  obtain ⟨f, hf, hfs⟩ := rehash_spec p hfull hagree s.slotSize (Nat.le_refl _)
  have hlt : ∀ {i c}, s.slot i = some c → i < s.slotSize := by
    intro i c h
    rw [p.slot_own i c h, hsz, low_bits]; exact Nat.mod_lt _ (Nat.two_pow_pos k)
  have hk' : k + 1 ≤ 24 := by
    rw [hsz, handleMask, ← Nat.pow_succ] at hcap
    by_contra hgt
    have : 2 ^ 25 ≤ 2 ^ (k + 1) := Nat.pow_le_pow_right (by decide) (by omega)
    omega
  have hsize : ∃ k', k' ≤ 24 ∧ s.slotSize * 2 = 2 ^ k' := ⟨k + 1, hk', by rw [hsz, Nat.pow_succ]⟩
  have hp : Placed own { s with slot := f, slotSize := s.slotSize * 2 } :=
    ⟨hsize, p.harbor, fun j c h => by obtain ⟨_, _, _, he⟩ := (hfs j c).mp h; exact he⟩
  refine ⟨f, hf, hp, ?_, ?_⟩
  · intro c
    constructor
    · rintro ⟨j, hj⟩; obtain ⟨i, _, hi, _⟩ := (hfs j c).mp hj; exact ⟨i, hi⟩
    · rintro ⟨i, hi⟩; exact ⟨_, (hfs _ c).mpr ⟨i, hlt hi, hi, rfl⟩⟩
  · -- slots 0 and `slotSize` cannot both be taken: their contexts would share old slot 0
    intro hnone
    have hpos : 0 < 2 ^ k := Nat.two_pow_pos k
    obtain ⟨c, hc⟩ := findFree_none hsize hnone (j := 0) (by show 0 < s.slotSize * 2; omega)
    obtain ⟨d, hd'⟩ := findFree_none hsize hnone (j := s.slotSize) (by show s.slotSize < _ * 2; omega)
    obtain ⟨i, _, hi, hci⟩ := (hfs 0 c).mp hc
    obtain ⟨j, _, hj, hdj⟩ := (hfs s.slotSize d).mp hd'
    have hi' := p.slot_own i c hi
    have hj' := p.slot_own j d hj
    rw [hsz, ← Nat.pow_succ, low_bits] at hci hdj
    rw [hsz, low_bits] at hi' hj'
    have h0 := congrArg (· % 2 ^ k) hci
    have h1 := congrArg (· % 2 ^ k) hdj
    simp only [Nat.pow_succ, Nat.mod_mul_right_mod, Nat.zero_mod, Nat.mod_self] at h0 h1
    have hij : i = j := by omega
    subst hij
    rw [hi] at hj; cases hj
    omega

/-! ## The operations -/

/-- What a successful registration of `ctx` does, whether or not the table was doubled. -/
structure Registered (own : CtxId → Nat) (s s' : HandleStorage) (ctx : CtxId) (handle : Nat) :
    Prop where
  placed : Placed (Function.update own ctx handle) s'
  inTable : ∀ c, InTable s' c ↔ c = ctx ∨ InTable s c
  names : s'.name = s.name
  harbor : s'.harbor = s.harbor

theorem registered_of_free {own : CtxId → Nat} {s : HandleStorage} {ctx : CtxId} {i : Nat}
    (p : Placed own s) (hctx : ¬ InTable s ctx) (h : findFree s = some i) :
    Registered own s { s with slot := Function.update s.slot (candidate s i &&& (s.slotSize - 1)) (some ctx),
                              handleIndex := candidate s i + 1 } ctx (candidate s i ||| s.harbor) := by
  obtain ⟨k, hk, hsz⟩ := p.size
  obtain ⟨b, hb⟩ := p.harbor
  have hfree := findFree_some h
  have hlow : (candidate s i ||| s.harbor) &&& (s.slotSize - 1) = candidate s i &&& (s.slotSize - 1) := by
    rw [hsz, hb, low_bits, low_bits, or_harbor_mod hk]
    rw [candidate_eq]; exact Nat.mod_lt _ (by decide)
  refine ⟨⟨⟨k, hk, hsz⟩, ⟨b, hb⟩, ?_⟩, ?_, rfl, rfl⟩
  · intro j c hj
    by_cases he : j = candidate s i &&& (s.slotSize - 1)
    · rw [he] at hj ⊢
      simp only [Function.update_self, Option.some.injEq] at hj
      subst hj
      rw [Function.update_self]; exact hlow.symm
    · simp only [Function.update_of_ne he] at hj
      have hne : c ≠ ctx := fun hc => hctx ⟨j, hc ▸ hj⟩
      rw [Function.update_of_ne hne]; exact p.slot_own j c hj
  · intro c
    constructor
    · rintro ⟨j, hj⟩
      by_cases he : j = candidate s i &&& (s.slotSize - 1)
      · simp only [he, Function.update_self, Option.some.injEq] at hj; exact .inl hj.symm
      · simp only [Function.update_of_ne he] at hj; exact .inr ⟨j, hj⟩
    · rintro (rfl | ⟨j, hj⟩)
      · exact ⟨candidate s i &&& (s.slotSize - 1), by simp⟩
      · have he : j ≠ candidate s i &&& (s.slotSize - 1) := by
          rintro rfl; rw [hfree] at hj; cases hj
        exact ⟨j, by simp only [Function.update_of_ne he]; exact hj⟩

theorem registerLoop_found {hd : CtxId → Nat} {s : HandleStorage} {ctx : CtxId} {n i : Nat}
    (h : findFree s = some i) :
    registerLoop hd ctx (n + 1) s =
      .ok ({ s with slot := Function.update s.slot (candidate s i &&& (s.slotSize - 1)) (some ctx),
                    handleIndex := candidate s i + 1 }, candidate s i ||| s.harbor) := by
  rw [registerLoop, h]

theorem registerLoop_doubled {hd : CtxId → Nat} {s : HandleStorage} {ctx : CtxId} {n : Nat}
    {f : Nat → Option CtxId} (h : findFree s = none) (hcap : s.slotSize * 2 - 1 ≤ handleMask)
    (hf : rehash hd s s.slotSize = .ok f) :
    registerLoop hd ctx (n + 1) s =
      registerLoop hd ctx n { s with slot := f, slotSize := s.slotSize * 2 } := by
  rw [registerLoop, h]
  simp only [if_pos hcap, hf]

theorem registerLoop_tableFull {hd : CtxId → Nat} {s : HandleStorage} {ctx : CtxId} {n : Nat}
    (h : findFree s = none) (hcap : ¬ s.slotSize * 2 - 1 ≤ handleMask) :
    registerLoop hd ctx (n + 1) s = .error .tableFull := by
  rw [registerLoop, h]
  simp only [if_neg hcap]

/-- Registration of a context that is not in the table, when every handle read by a doubling agrees
with the context's own: it succeeds, or stops because the table cannot grow. -/
theorem register_spec {own hd : CtxId → Nat} {s : HandleStorage} {ctx : CtxId} (p : Placed own s)
    (hctx : ¬ InTable s ctx)
    (hagree : findFree s = none → ∀ c, InTable s c →
      hd c &&& (s.slotSize * 2 - 1) = own c &&& (s.slotSize * 2 - 1)) :
    skynetHandleRegister hd s ctx = .error .tableFull ∨
      ∃ s' handle, skynetHandleRegister hd s ctx = .ok (s', handle) ∧
        Registered own s s' ctx handle := by
  unfold skynetHandleRegister
  cases hff : findFree s with
  | some i => exact .inr ⟨_, _, registerLoop_found hff, registered_of_free p hctx hff⟩
  | none =>
    by_cases hcap : s.slotSize * 2 - 1 ≤ handleMask
    · obtain ⟨f, hf, hp, hin, hfree⟩ :=
        doubled_spec p (fun j hj => findFree_none p.size hff hj) (hagree hff) hcap
      obtain ⟨i, hi⟩ := Option.ne_none_iff_exists'.mp hfree
      have hctx' : ¬ InTable { s with slot := f, slotSize := s.slotSize * 2 } ctx :=
        fun h => hctx ((hin ctx).mp h)
      have r := registered_of_free hp hctx' hi
      refine .inr ⟨_, _, (registerLoop_doubled hff hcap hf).trans (registerLoop_found hi),
        r.placed, fun c => ?_, r.names, r.harbor⟩
      rw [r.inTable c]; exact or_congr Iff.rfl (hin c)
    · exact .inl (registerLoop_tableFull hff hcap)

theorem grab_spec {own hd : CtxId → Nat} {s : HandleStorage} {handle : Nat} {c : CtxId}
    (p : Placed own s) (hown : InTable s c → hd c = own c) :
    skynetHandleGrab hd s handle = some c ↔ InTable s c ∧ hd c = handle := by
  simp only [skynetHandleGrab]
  constructor
  · intro h
    split at h
    · rename_i d hd'
      split at h
      · cases h; exact ⟨⟨_, hd'⟩, ‹_›⟩
      · cases h
    · cases h
  · rintro ⟨⟨i, hi⟩, he⟩
    have := p.slot_own i c hi
    rw [← hown ⟨i, hi⟩, he] at this
    rw [this] at hi
    simp only [hi, he, if_true]

theorem retire_snd (hd : CtxId → Nat) (s : HandleStorage) (handle : Nat) :
    (skynetHandleRetire hd s handle).2 = skynetHandleGrab hd s handle := by
  simp only [skynetHandleRetire, skynetHandleGrab]
  cases s.slot (handle &&& (s.slotSize - 1)) with
  | none => rfl
  | some d => by_cases h : hd d = handle <;> simp [h]

/-- Retiring takes exactly the context found out of the table. -/
theorem retire_spec {own : CtxId → Nat} (hd : CtxId → Nat) {s : HandleStorage} (p : Placed own s) (handle : Nat) :
    Placed own (skynetHandleRetire hd s handle).1 ∧
      ∀ c, InTable (skynetHandleRetire hd s handle).1 c ↔
        InTable s c ∧ skynetHandleGrab hd s handle ≠ some c := by
  simp only [skynetHandleRetire, skynetHandleGrab]
  cases hslot : s.slot (handle &&& (s.slotSize - 1)) with
  | none => exact ⟨p, by simp⟩
  | some d =>
    by_cases hd' : hd d = handle
    · simp only [if_pos hd']
      refine ⟨⟨p.size, p.harbor, ?_⟩, ?_⟩
      · intro j c hj
        by_cases he : j = handle &&& (s.slotSize - 1)
        · simp [he] at hj
        · simp only [Function.update_of_ne he] at hj; exact p.slot_own j c hj
      · intro c
        constructor
        · rintro ⟨j, hj⟩
          by_cases he : j = handle &&& (s.slotSize - 1)
          · simp [he] at hj
          · simp only [Function.update_of_ne he] at hj
            refine ⟨⟨j, hj⟩, ?_⟩
            rintro hdc; cases hdc
            exact he (p.inj hj hslot)
        · rintro ⟨⟨j, hj⟩, hne⟩
          have he : j ≠ handle &&& (s.slotSize - 1) := by
            rintro rfl; rw [hslot] at hj; cases hj; exact hne rfl
          exact ⟨j, by simp only [Function.update_of_ne he]; exact hj⟩
    · simp only [if_neg hd']
      exact ⟨p, by simp⟩

end Handle
end Skynet
