import Mathlib.Algebra.BigOperators.Ring.Finset
import Skynet.Mahjong.Hu

/-!
# Skynet.Mahjong.Honours

Runs of honours. The encoding of `mahjongPool.lua` numbers the tiles of the three suits and lists winds,
dragons and flowers by name, in blocks that are 16 apart, so a run never leaves its block. But inside the
blocks of the winds and the dragons the codes are consecutive as well, and `compute` looks at nothing
but codes: it takes east, south and west for a run.

* `run_inside` : a run of tiles lies in a suit, or among the honours.
* `suited_iff` : an accepted hand has a split with runs in the suits only just when each honour comes in
  threes, except for one that leaves a pair.
-/

namespace Skynet
namespace Mahjong
namespace GameRoundLogic

open Pieces

/-- The codes of characters, circles and bamboos. -/
def IsSuit (v : Nat) : Prop := (0x01 ≤ v ∧ v ≤ 0x09) ∨ (0x11 ≤ v ∧ v ≤ 0x19) ∨ (0x21 ≤ v ∧ v ≤ 0x29)

/-- The codes of winds, dragons and flowers. -/
def IsHonour (v : Nat) : Prop := (0x31 ≤ v ∧ v ≤ 0x34) ∨ (0x41 ≤ v ∧ v ≤ 0x43) ∨ (0x51 ≤ v ∧ v ≤ 0x58)

instance : DecidablePred IsSuit := fun _ => inferInstanceAs (Decidable (_ ∨ _))

instance : DecidablePred IsHonour := fun _ => inferInstanceAs (Decidable (_ ∨ _))

/-- The codes of the encoding. -/
def IsTile (v : Nat) : Prop := IsSuit v ∨ IsHonour v

instance : DecidablePred IsTile := fun _ => inferInstanceAs (Decidable (_ ∨ _))

/-- The three tiles of a run in one suit. -/
def SuitRun (k : Nat) : Prop :=
  (0x01 ≤ k ∧ k + 2 ≤ 0x09) ∨ (0x11 ≤ k ∧ k + 2 ≤ 0x19) ∨ (0x21 ≤ k ∧ k + 2 ≤ 0x29)

/-- What the claim asks of a split. -/
def SuitRuns (melds : Multiset Meld) : Prop := ∀ k, .run k ∈ melds → SuitRun k

/-- Every honour comes in threes, but for one that may leave a pair. -/
def HonoursInThrees (m : Multiset Nat) : Prop :=
  ∃ q, ∀ v, IsHonour v → m.count v % 3 = 0 ∨ v = q ∧ m.count v % 3 = 2

/-! ### Blocks -/

/-- The tile that names a meld. -/
def Meld.low : Meld → Nat
  | .triplet k => k
  | .run k => k

/-- A run of tiles does not leave its block: the codes between two blocks are no tiles. -/
theorem run_inside {k : Nat} (h0 : IsTile k) (h2 : IsTile (k + 2)) :
    SuitRun k ∧ ¬IsHonour k ∧ ¬IsHonour (k + 1) ∧ ¬IsHonour (k + 2) ∨
      IsHonour k ∧ IsHonour (k + 1) ∧ IsHonour (k + 2) := by
  simp only [IsTile, IsSuit, IsHonour, SuitRun] at h2 ⊢
  obtain (h0 | h0 | h0) | h0 | h0 | h0 := h0 <;> omega

/-- The tiles of a meld are honours, all or none. -/
theorem honour_iff {i : Meld} (h : ∀ v ∈ i.tiles, IsTile v) {v : Nat} (hv : v ∈ i.tiles) :
    IsHonour v ↔ IsHonour i.low := by
  cases i with
  | triplet k =>
    have hk : v = k := by simpa [Meld.tiles] using hv
    rw [hk, Meld.low]
  | run k =>
    have hrun := run_inside (h k (by simp [Meld.tiles])) (h (k + 2) (by simp [Meld.tiles]))
    have hk : v = k ∨ v = k + 1 ∨ v = k + 2 := by simpa [Meld.tiles] using hv
    rw [Meld.low]
    rcases hk with rfl | rfl | rfl <;> rcases hrun with ⟨_, h0, h1, h2⟩ | ⟨h0, h1, h2⟩ <;> simp [h0, h1, h2]

theorem card_tiles_meld (i : Meld) : i.tiles.card = 3 := by
  cases i <;> rfl

/-! ### Counting honours -/

/-- The melds hold a multiple of three honours. -/
theorem countP_melds {melds : Multiset Meld} (h : ∀ i ∈ melds, ∀ v ∈ i.tiles, IsTile v) :
    (melds.bind Meld.tiles).countP IsHonour % 3 = 0 := by
  induction melds using Multiset.induction with
  | empty => rfl
  | cons i melds ih =>
    have hrest := ih fun j hj => h j (Multiset.mem_cons_of_mem hj)
    have hi := h i (Multiset.mem_cons_self ..)
    rw [Multiset.cons_bind, Multiset.countP_add, Nat.add_mod, hrest]
    by_cases hlow : IsHonour i.low
    · have hall : i.tiles.countP IsHonour = i.tiles.card :=
        Multiset.countP_eq_card.mpr fun v hv => (honour_iff hi hv).mpr hlow
      rw [hall, card_tiles_meld]
    · have hnone : i.tiles.countP IsHonour = 0 :=
        Multiset.countP_eq_zero.mpr fun v hv hh => hlow ((honour_iff hi hv).mp hh)
      rw [hnone]

/-- When all honours but `q` come in threes, `q` decides the remainder. -/
theorem countP_mod {m : Multiset Nat} {q : Nat} (h : ∀ v, IsHonour v → v ≠ q → m.count v % 3 = 0) :
    m.countP IsHonour % 3 = (if IsHonour q then m.count q else 0) % 3 := by
  have hsum : m.countP IsHonour = ∑ v ∈ m.toFinset with IsHonour v, m.count v := by
    rw [Multiset.countP_eq_card_filter, ← Multiset.toFinset_sum_count_eq]
    have hset : (m.filter IsHonour).toFinset = m.toFinset.filter IsHonour := by
      ext v
      simp
    rw [hset]
    refine Finset.sum_congr rfl fun v hv => ?_
    rw [Multiset.count_filter, if_pos (Finset.mem_filter.mp hv).2]
  have hrest : (∑ v ∈ ({v ∈ m.toFinset | IsHonour v}).erase q, m.count v) % 3 = 0 := by
    refine Nat.mod_eq_zero_of_dvd (Finset.dvd_sum fun v hv => ?_)
    obtain ⟨hne, hv⟩ := Finset.mem_erase.mp hv
    exact Nat.dvd_of_mod_eq_zero (h v (Finset.mem_filter.mp hv).2 hne)
  rw [hsum]
  by_cases hq : q ∈ {v ∈ m.toFinset | IsHonour v}
  · rw [← Finset.add_sum_erase _ _ hq, Nat.add_mod, hrest, if_pos (Finset.mem_filter.mp hq).2]
    omega
  · rw [Finset.erase_eq_of_notMem hq] at hrest
    rw [hrest]
    split
    · rename_i hh
      have hzero : m.count q = 0 := by
        rw [Multiset.count_eq_zero]
        intro hmem
        exact hq (Finset.mem_filter.mpr ⟨Multiset.mem_toFinset.mpr hmem, hh⟩)
      rw [hzero]
    · rfl

/-! ### Accepted hands -/

section Accepted

variable {m : Multiset Nat} {p q : Nat} {melds : Multiset Meld}

theorem count_wins (h : WinsWith p melds m) (v : Nat) :
    m.count v = (if v = p then 2 else 0) + (melds.bind Meld.tiles).count v := by
  rw [← show _ = m from h, Multiset.count_add, count_pair]

theorem tiles_isTile (hm : ∀ v ∈ m, IsTile v) (h : WinsWith p melds m) : ∀ i ∈ melds, ∀ v ∈ i.tiles, IsTile v := by
  intro i hi v hv
  refine hm v ?_
  rw [← show _ = m from h]
  exact Multiset.mem_add.mpr (.inr (Multiset.mem_bind.mpr ⟨i, hi, hv⟩))

theorem suitRun_not_honour {k v : Nat} (h : SuitRun k) (hv : v = k ∨ v = k + 1 ∨ v = k + 2) : ¬IsHonour v := by
  simp only [SuitRun, IsHonour] at *
  omega

/-- In a split with runs in the suits only, an honour is in the pair or in triplets. -/
theorem honoursInThrees_of_suitRuns (h : WinsWith p melds m) (hs : SuitRuns melds) : HonoursInThrees m := by
  have hthrees : ∀ v, IsHonour v → (melds.bind Meld.tiles).count v % 3 = 0 := by
    intro v hv
    rw [Multiset.count_bind]
    refine Nat.mod_eq_zero_of_dvd (Multiset.dvd_sum fun c hc => ?_)
    obtain ⟨i, hi, rfl⟩ := Multiset.mem_map.mp hc
    cases i with
    | triplet k =>
      rw [Meld.tiles, count_triplet]
      split
      · exact Nat.dvd_refl 3
      · exact Nat.dvd_zero 3
    | run k =>
      have hnot : ¬(v = k ∨ v = k + 1 ∨ v = k + 2) := fun hv' => suitRun_not_honour (hs k hi) hv' hv
      rw [Meld.tiles, count_run, if_neg hnot]
      exact Nat.dvd_zero 3
  refine ⟨p, fun v hv => ?_⟩
  have hcount := count_wins h v
  have hmod := hthrees v hv
  by_cases hp : v = p
  · rw [if_pos hp] at hcount
    exact .inr ⟨hp, by omega⟩
  · rw [if_neg hp] at hcount
    exact .inl (by omega)

/-- The triplets of the honours in `m`. -/
def honourTriplets (m : Multiset Nat) : Multiset Meld :=
  (m.toFinset.filter IsHonour).val.bind fun v => Multiset.replicate (m.count v / 3) (.triplet v)

theorem count_honourTriplets (m : Multiset Nat) (v : Nat) :
    ((honourTriplets m).bind Meld.tiles).count v = if IsHonour v then 3 * (m.count v / 3) else 0 := by
  have hone : ∀ k, (Multiset.bind (Multiset.replicate (m.count k / 3) (Meld.triplet k)) Meld.tiles).count v =
      if k = v then 3 * (m.count k / 3) else 0 := by
    intro k
    rw [Multiset.count_bind, Multiset.map_replicate, Multiset.sum_replicate, Meld.tiles, count_triplet, nsmul_eq_mul, Nat.cast_id]
    by_cases hk : v = k
    · rw [if_pos hk, if_pos hk.symm, Nat.mul_comm]
    · rw [if_neg hk, if_neg (Ne.symm hk), Nat.mul_zero]
  rw [honourTriplets, Multiset.bind_assoc, Multiset.count_bind]
  simp only [hone]
  show ∑ k ∈ m.toFinset.filter IsHonour, (if k = v then 3 * (m.count k / 3) else 0) = _
  rw [Finset.sum_ite_eq']
  have hmem : v ∈ m.toFinset.filter IsHonour ↔ v ∈ m ∧ IsHonour v := by
    rw [Finset.mem_filter, Multiset.mem_toFinset]
  by_cases hv : IsHonour v
  · by_cases hm : v ∈ m
    · rw [if_pos (hmem.mpr ⟨hm, hv⟩), if_pos hv]
    · rw [if_neg (fun h => hm (hmem.mp h).1), if_pos hv, Multiset.count_eq_zero_of_notMem hm, Nat.zero_div, Nat.mul_zero]
  · rw [if_neg (fun h => hv (hmem.mp h).2), if_neg hv]

theorem run_notMem_honourTriplets (m : Multiset Nat) (k : Nat) : .run k ∉ honourTriplets m := by
  intro h
  obtain ⟨v, _, hv⟩ := Multiset.mem_bind.mp h
  cases Multiset.eq_of_mem_replicate hv

theorem countP_pair (p : Nat) : ({p, p} : Multiset Nat).countP IsHonour = if IsHonour p then 2 else 0 := by
  split
  · rename_i hp
    exact Multiset.countP_eq_card.mpr fun v hv => by
      have hv' : v = p := by simpa using hv
      rwa [hv']
  · rename_i hp
    exact Multiset.countP_eq_zero.mpr fun v hv => by
      have hv' : v = p := by simpa using hv
      rwa [hv']

/-- The pair is of honours exactly when there is an honour that is left over. -/
theorem pair_honour_iff (hm : ∀ v ∈ m, IsTile v) (h : WinsWith p melds m)
    (hq : ∀ v, IsHonour v → m.count v % 3 = 0 ∨ v = q ∧ m.count v % 3 = 2) :
    IsHonour p ↔ IsHonour q ∧ m.count q % 3 = 2 := by
  have hmod : m.countP IsHonour % 3 = (if IsHonour q then m.count q else 0) % 3 := by
    refine countP_mod fun v hv hne => ?_
    rcases hq v hv with h0 | ⟨heq, _⟩
    · exact h0
    · exact absurd heq hne
  have hmelds := countP_melds (tiles_isTile hm h)
  have hpair : m.countP IsHonour = (if IsHonour p then 2 else 0) + (melds.bind Meld.tiles).countP IsHonour := by
    rw [← show _ = m from h, Multiset.countP_add, countP_pair]
  rw [hpair] at hmod
  by_cases hp : IsHonour p
  · rw [if_pos hp] at hmod
    by_cases hhq : IsHonour q
    · rw [if_pos hhq] at hmod
      exact iff_of_true hp ⟨hhq, by omega⟩
    · rw [if_neg hhq] at hmod
      omega
  · rw [if_neg hp] at hmod
    refine iff_of_false hp fun ⟨hhq, h2⟩ => ?_
    rw [if_pos hhq] at hmod
    omega

/-- When the honours come in threes, their runs can be laid out as triplets. -/
theorem exists_suitRuns (hm : ∀ v ∈ m, IsTile v) (h : WinsWith p melds m) (hthrees : HonoursInThrees m) :
    ∃ p' melds', WinsWith p' melds' m ∧ SuitRuns melds' := by
  obtain ⟨q, hq⟩ := hthrees
  have htiles := tiles_isTile hm h
  have hpq := pair_honour_iff hm h hq
  let suits := melds.filter fun i => ¬IsHonour i.low
  let p' := if IsHonour p then q else p
  have hsuits : ∀ v, ¬IsHonour v → (suits.bind Meld.tiles).count v = (melds.bind Meld.tiles).count v := by
    intro v hv
    exact count_bind_filter fun i hi hmem hlow => hv ((honour_iff (htiles i hi) hmem).mpr hlow)
  have hnone : ∀ v, IsHonour v → (suits.bind Meld.tiles).count v = 0 := by
    intro v hv
    refine Multiset.count_eq_zero_of_notMem fun hmem => ?_
    obtain ⟨i, hi, hvi⟩ := Multiset.mem_bind.mp hmem
    obtain ⟨himelds, hlow⟩ := Multiset.mem_filter.mp hi
    exact hlow ((honour_iff (htiles i himelds) hvi).mp hv)
  refine ⟨p', suits + honourTriplets m, ?_, ?_⟩
  · ext v
    rw [Multiset.count_add, count_pair, Multiset.add_bind, Multiset.count_add, count_honourTriplets]
    have hcount := count_wins h v
    by_cases hv : IsHonour v
    · rw [hnone v hv, if_pos hv]
      have hthree := hq v hv
      by_cases hp : IsHonour p
      · obtain ⟨_, h2⟩ := hpq.mp hp
        simp only [p', if_pos hp]
        by_cases hvq : v = q
        · subst hvq
          rw [if_pos rfl]
          omega
        · rw [if_neg hvq]
          omega
      · have hne : v ≠ p := fun heq => hp (heq ▸ hv)
        simp only [p', if_neg hp, if_neg hne]
        have h2 : ¬(v = q ∧ m.count v % 3 = 2) := fun ⟨heq, h2⟩ => hp (hpq.mpr ⟨heq ▸ hv, heq ▸ h2⟩)
        have h0 := hthree.resolve_right h2
        omega
    · rw [hsuits v hv, if_neg hv, hcount]
      by_cases hp : IsHonour p
      · have hne : v ≠ p := fun heq => hv (heq ▸ hp)
        have hne' : v ≠ q := fun heq => hv (heq ▸ (hpq.mp hp).1)
        simp only [p', if_pos hp, if_neg hne, if_neg hne', Nat.add_zero]
      · simp only [p', if_neg hp, Nat.add_zero]
  · intro k hk
    rcases Multiset.mem_add.mp hk with hk | hk
    · obtain ⟨hmem, hlow⟩ := Multiset.mem_filter.mp hk
      have ht := htiles _ hmem
      rcases run_inside (ht k (by simp [Meld.tiles])) (ht (k + 2) (by simp [Meld.tiles])) with ⟨hs, _⟩ | ⟨h0, _⟩
      · exact hs
      · exact absurd h0 hlow
    · exact absurd hk (run_notMem_honourTriplets m k)

end Accepted

/-- **Runs of honours.** A hand of tiles that `isCanHu` accepts has a split whose runs all lie in the three
suits if and only if each of its honours comes in threes, except for at most one of which two are
left over. -/
theorem suitRuns_iff (visit : Nat → List Nat → List Nat) (hvisit : ∀ n ks, (visit n ks).Perm ks)
    (handCardMap : List Nat) (cardValue : Int) (fuel : Nat) (hfuel : handCardMap.length ≤ fuel)
    (htiles : ∀ v ∈ handTiles handCardMap cardValue, IsTile v)
    (haccepted : isCanHu visit fuel handCardMap cardValue = some true) :
    (∃ p melds, WinsWith p melds (handTiles handCardMap cardValue) ∧ SuitRuns melds) ↔
      HonoursInThrees (handTiles handCardMap cardValue) := by
  obtain ⟨b, hb, hiff⟩ := isCanHu_spec hvisit (card_handTiles hfuel)
  rw [hb, Option.some.injEq] at haccepted
  obtain ⟨p, melds, hwins⟩ := hiff.mp haccepted
  constructor
  · rintro ⟨p', melds', hw, hs⟩
    exact honoursInThrees_of_suitRuns hw hs
  · exact exists_suitRuns htiles hwins

/-- Three east winds, a run of circles and a pair of red dragons. -/
theorem suitRuns_triplet :
    let hand := [0x31, 0x31, 0x31, 0x12, 0x13, 0x14, 0x41]
    ∃ p melds, WinsWith p melds (handTiles hand 0x41) ∧ SuitRuns melds := by
  have hthrees : HonoursInThrees (handTiles [0x31, 0x31, 0x31, 0x12, 0x13, 0x14, 0x41] 0x41) := by
    have hbelow : ∀ v < 0x59, IsHonour v →
        (handTiles [0x31, 0x31, 0x31, 0x12, 0x13, 0x14, 0x41] 0x41).count v % 3 = 0 ∨
          v = 0x41 ∧ (handTiles [0x31, 0x31, 0x31, 0x12, 0x13, 0x14, 0x41] 0x41).count v % 3 = 2 := by
      decide
    refine ⟨0x41, fun v hv => hbelow v ?_ hv⟩
    simp only [IsHonour] at hv
    omega
  exact (suitRuns_iff (fun _ ks => ks) (fun _ ks => List.Perm.refl ks) _ 0x41 8 (by decide) (by decide) (by decide)).mpr
    hthrees

/-- East, south and west are taken for a run. -/
theorem windRun_accepted :
    ¬ ∀ (visit : Nat → List Nat → List Nat) (handCardMap : List Nat) (cardValue : Int) (fuel : Nat),
      (∀ n ks, (visit n ks).Perm ks) → (∀ v ∈ handTiles handCardMap cardValue, IsTile v) →
        isCanHu visit fuel handCardMap cardValue = some true →
          ∃ p melds, WinsWith p melds (handTiles handCardMap cardValue) ∧ SuitRuns melds := by
  intro hclaim
  obtain ⟨p, melds, hw, hs⟩ := hclaim (fun _ ks => ks) [0x31, 0x32, 0x33, 0x01] 0x01 5 (fun _ ks => List.Perm.refl ks)
    (by decide) (by decide)
  obtain ⟨q, hq⟩ := honoursInThrees_of_suitRuns hw hs
  have hone : (handTiles [0x31, 0x32, 0x33, 0x01] 0x01).count 0x31 = 1 := by decide
  have h := hq 0x31 (by decide)
  omega

end GameRoundLogic
end Mahjong
end Skynet
