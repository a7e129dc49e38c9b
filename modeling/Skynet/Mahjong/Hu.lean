import Mathlib.Algebra.BigOperators.Group.Finset.Piecewise
import Mathlib.Algebra.Order.BigOperators.Group.List
import Mathlib.Algebra.Order.Group.Nat
import Skynet.Lib.Splits
import Skynet.Mahjong.Rules

/-!
# Skynet.Mahjong.Hu

The search of `isCanHu` as the code runs it: `compute` takes a triplet or a run out of a table of counts,
calls itself on the same table and puts the tiles back, while `pairs` goes through the table.

The order in which `pairs` visits the keys is not specified: `visit n keys` is the order of the `n`th call
of `pairs`, any rearrangement of the keys. A key whose count has become 0 stays in the table.

* `compute_spec` : with more fuel than tiles, `compute` returns, its table is as before, and the answer
  says whether the tiles split into triplets and runs.
* `isCanHu_spec` : the whole search; `isCanHu_eq` : it answers as the rules do.
-/

namespace Skynet
namespace Mahjong
namespace GameRoundLogic

open Pieces

/-- A Lua table from tile codes to numbers of tiles. -/
@[ext] structure HandCards where
  keys : List Nat
  get : Nat → Option Nat
  nodup : keys.Nodup
  mem_keys : ∀ k, k ∈ keys ↔ (get k).isSome

namespace HandCards

def empty : HandCards := ⟨[], fun _ => none, List.nodup_nil, fun _ => by simp⟩

/-- `handCards[k] = v`. -/
def set (t : HandCards) (k v : Nat) : HandCards where
  keys := if (t.get k).isSome then t.keys else t.keys ++ [k]
  get := Function.update t.get k (some v)
  nodup := by
    split
    · exact t.nodup
    · rename_i hk
      rw [List.nodup_append]
      refine ⟨t.nodup, List.nodup_singleton k, fun a ha b hb => ?_⟩
      rw [List.mem_singleton.mp hb]
      rintro rfl
      exact hk ((t.mem_keys a).mp ha)
  mem_keys := by
    intro j
    by_cases hj : j = k
    · subst hj
      split
      · rename_i hk
        simp [t.mem_keys, hk]
      · simp
    · rw [Function.update_of_ne hj]
      split
      · exact t.mem_keys j
      · simp [hj, t.mem_keys]

/-- `handCards[k]`, with 0 where there is no such key. -/
def count (t : HandCards) (k : Nat) : Nat := (t.get k).getD 0

end HandCards

/-- The table, and how many times `pairs` was called. -/
structure State where
  handCards : HandCards
  visits : Nat

namespace State

def count (s : State) (k : Nat) : Nat := s.handCards.count k

def set (s : State) (k v : Nat) : State := { s with handCards := s.handCards.set k v }

end State

/-- The keys in the order of the next `pairs`. -/
def pairs (visit : Nat → List Nat → List Nat) (s : State) : List Nat × State :=
  (visit s.visits s.handCards.keys, { s with visits := s.visits + 1 })

/-- A loop of `compute` over the keys not visited yet: take tiles out, call `recurse`, put them back. -/
def tryEach (can : State → Nat → Bool) (take put : State → Nat → State) (recurse : State → Option (Bool × State)) :
    List Nat → State → Option (Bool × State)
  | [], s => some (false, s)
  | k :: ks, s =>
    if can s k then
      match recurse (take s k) with
      | none => none
      | some (pIsOk, s) =>
        let s := put s k
        if pIsOk then some (true, s) else tryEach can take put recurse ks s
    else tryEach can take put recurse ks s

def hasTriplet (s : State) (k : Nat) : Bool := 3 ≤ s.count k

def takeTriplet (s : State) (k : Nat) : State := s.set k (s.count k - 3)

def putTriplet (s : State) (k : Nat) : State := s.set k (s.count k + 3)

def hasRun (s : State) (k : Nat) : Bool := 0 < s.count k ∧ 0 < s.count (k + 1) ∧ 0 < s.count (k + 2)

def takeRun (s : State) (k : Nat) : State :=
  let s := s.set k (s.count k - 1)
  let s := s.set (k + 1) (s.count (k + 1) - 1)
  s.set (k + 2) (s.count (k + 2) - 1)

def putRun (s : State) (k : Nat) : State :=
  let s := s.set k (s.count k + 1)
  let s := s.set (k + 1) (s.count (k + 1) + 1)
  s.set (k + 2) (s.count (k + 2) + 1)

/-- `compute`; `none` when the fuel is used up. -/
def compute (visit : Nat → List Nat → List Nat) : Nat → State → Option (Bool × State)
  | 0, _ => none
  | fuel + 1, s =>
    let (ks, s) := pairs visit s
    let pHandCount := ks.foldl (fun n k => n + s.count k) 0
    if pHandCount = 0 then some (true, s)
    else
      let (ks, s) := pairs visit s
      match tryEach hasTriplet takeTriplet putTriplet (compute visit fuel) ks s with
      | none => none
      | some (true, s) => some (true, s)
      | some (false, s) =>
        let (ks, s) := pairs visit s
        tryEach hasRun takeRun putRun (compute visit fuel) ks s

/-- The loop of `isNormalHu`: the pair is not put back when the rest splits. -/
def heads (recurse : State → Option (Bool × State)) : List Nat → State → Option (Bool × State)
  | [], s => some (false, s)
  | k :: ks, s =>
    if 2 ≤ s.count k then
      match recurse (s.set k (s.count k - 2)) with
      | none => none
      | some (true, s) => some (true, s)
      | some (false, s) => heads recurse ks (s.set k (s.count k + 2))
    else heads recurse ks s

def isNormalHu (visit : Nat → List Nat → List Nat) (fuel : Nat) (s : State) : Option (Bool × State) :=
  let (ks, s) := pairs visit s
  heads (compute visit fuel) ks s

/-- `if not pHandCards[v] then pHandCards[v] = 0 end; pHandCards[v] = pHandCards[v] + 1`. -/
def addCard (t : HandCards) (v : Nat) : HandCards :=
  let t := if (t.get v).isSome then t else t.set v 0
  t.set v (t.count v + 1)

/-- `isCanHu` on the tiles of a hand. -/
def isCanHu (visit : Nat → List Nat → List Nat) (fuel : Nat) (handCardMap : List Nat) (cardValue : Int) : Option Bool :=
  let pHandCards := handCardMap.foldl addCard .empty
  let pHandCards := if 0 < cardValue then addCard pHandCards cardValue.toNat else pHandCards
  (isNormalHu visit fuel ⟨pHandCards, 0⟩).map Prod.fst

/-! ### What it searches for -/

/-- A triplet or a run, by its lowest tile. -/
inductive Meld where
  | triplet (k : Nat)
  | run (k : Nat)
deriving DecidableEq, Repr

def Meld.tiles : Meld → Multiset Nat
  | .triplet k => {k, k, k}
  | .run k => {k, k + 1, k + 2}

/-- The tiles are a pair and these melds. -/
def WinsWith (p : Nat) (melds : Multiset Meld) (m : Multiset Nat) : Prop := {p, p} + melds.bind Meld.tiles = m

def Wins (m : Multiset Nat) : Prop := ∃ p melds, WinsWith p melds m

theorem wins_iff {m : Multiset Nat} : Wins m ↔ ∃ p, {p, p} ≤ m ∧ Splits Meld.tiles (m - {p, p}) := by
  constructor
  · rintro ⟨p, melds, rfl⟩
    exact ⟨p, Multiset.le_add_right .., melds, by rw [add_tsub_cancel_left]; rfl⟩
  · rintro ⟨p, hle, melds, hm⟩
    exact ⟨p, melds, by rw [WinsWith, show melds.bind Meld.tiles = _ from hm, add_tsub_cancel_of_le hle]⟩

theorem count_triplet (k j : Nat) : ({k, k, k} : Multiset Nat).count j = if j = k then 3 else 0 := by
  by_cases h : j = k <;> simp [h]

theorem count_pair (k j : Nat) : ({k, k} : Multiset Nat).count j = if j = k then 2 else 0 := by
  by_cases h : j = k <;> simp [h]

theorem count_run (k j : Nat) :
    ({k, k + 1, k + 2} : Multiset Nat).count j = if j = k ∨ j = k + 1 ∨ j = k + 2 then 1 else 0 := by
  by_cases h0 : j = k
  · simp [h0]
  · by_cases h1 : j = k + 1
    · simp [h1]
    · by_cases h2 : j = k + 2 <;> simp [h0, h1, h2]

namespace HandCards

variable {t u : HandCards} {k v : Nat}

/-- The tiles that the table counts. -/
def tiles (t : HandCards) : Multiset Nat := ∑ k ∈ t.keys.toFinset, Multiset.replicate (t.count k) k

theorem isSome_of_count (h : 0 < t.count k) : (t.get k).isSome := by
  rw [count] at h
  cases hk : t.get k with
  | none => simp [hk] at h
  | some _ => rfl

theorem count_set (j : Nat) : (t.set k v).count j = if j = k then v else t.count j := by
  simp only [count, set]
  by_cases hj : j = k
  · rw [if_pos hj, hj, Function.update_self, Option.getD_some]
  · rw [if_neg hj, Function.update_of_ne hj]

theorem keys_set (h : (t.get k).isSome) : (t.set k v).keys = t.keys := if_pos h

theorem isSome_set {j : Nat} (h : (t.get j).isSome) : ((t.set k v).get j).isSome := by
  simp only [set]
  by_cases hj : j = k
  · rw [hj, Function.update_self]
    rfl
  · rwa [Function.update_of_ne hj]

/-- A table is determined by its keys and their counts. -/
theorem eq_of_counts (hkeys : t.keys = u.keys) (h : ∀ j, t.count j = u.count j) : t = u := by
  refine HandCards.ext hkeys (funext fun j => ?_)
  have hsome : (t.get j).isSome = (u.get j).isSome := by
    rw [Bool.eq_iff_iff, ← t.mem_keys, ← u.mem_keys, hkeys]
  have hcount := h j
  simp only [count] at hcount
  cases ht : t.get j with
  | none => cases hu : u.get j with
    | none => rfl
    | some _ => simp [ht, hu] at hsome
  | some a => cases hu : u.get j with
    | none => simp [ht, hu] at hsome
    | some b => rw [ht, hu] at hcount; exact congrArg some hcount

theorem count_tiles (j : Nat) : t.tiles.count j = t.count j := by
  rw [tiles, Multiset.count_sum']
  simp only [Multiset.count_replicate]
  rw [Finset.sum_ite_eq']
  split
  · rfl
  · rename_i hj
    rw [List.mem_toFinset, t.mem_keys, Option.not_isSome_iff_eq_none] at hj
    rw [count, hj]
    rfl

theorem card_tiles : t.tiles.card = (t.keys.map t.count).sum := by
  rw [tiles, Multiset.card_sum]
  simp only [Multiset.card_replicate]
  rw [List.sum_toFinset _ t.nodup]

theorem tiles_take {m : Multiset Nat} (h : ∀ j, u.count j = t.count j - m.count j) : u.tiles = t.tiles - m := by
  ext j
  rw [count_tiles, Multiset.count_sub, count_tiles, h]

end HandCards

section Loops

open HandCards

variable {s : State} {k v : Nat}

theorem hasTriplet_iff : hasTriplet s k = true ↔ 3 ≤ s.handCards.count k := decide_eq_true_iff

theorem hasRun_iff : hasRun s k = true ↔
    0 < s.handCards.count k ∧ 0 < s.handCards.count (k + 1) ∧ 0 < s.handCards.count (k + 2) :=
  decide_eq_true_iff

theorem triplet_le : hasTriplet s k = true ↔ {k, k, k} ≤ s.handCards.tiles := by
  rw [Multiset.le_iff_count, hasTriplet_iff]
  simp only [count_triplet, count_tiles]
  constructor
  · intro h j
    split
    · subst k
      exact h
    · exact Nat.zero_le _
  · intro h
    simpa using h k

theorem run_le : hasRun s k = true ↔ {k, k + 1, k + 2} ≤ s.handCards.tiles := by
  rw [Multiset.le_iff_count, hasRun_iff]
  simp only [count_run, count_tiles]
  constructor
  · rintro ⟨h0, h1, h2⟩ j
    split
    · rename_i hj
      rcases hj with rfl | rfl | rfl
      · exact h0
      · exact h1
      · exact h2
    · exact Nat.zero_le _
  · intro h
    refine ⟨?_, ?_, ?_⟩
    · simpa [Nat.one_le_iff_ne_zero, Nat.pos_iff_ne_zero] using h k
    · simpa [Nat.one_le_iff_ne_zero, Nat.pos_iff_ne_zero] using h (k + 1)
    · simpa [Nat.one_le_iff_ne_zero, Nat.pos_iff_ne_zero] using h (k + 2)

theorem tiles_takeTriplet : (takeTriplet s k).handCards.tiles = s.handCards.tiles - {k, k, k} := by
  refine tiles_take fun j => ?_
  simp only [takeTriplet, State.set, count_set, count_triplet]
  split
  · subst k
    rfl
  · rfl

theorem tiles_takeRun : (takeRun s k).handCards.tiles = s.handCards.tiles - {k, k + 1, k + 2} := by
  refine tiles_take fun j => ?_
  simp only [takeRun, State.set, State.count, count_set, count_run]
  by_cases h0 : j = k
  · simp [h0]
  · by_cases h1 : j = k + 1
    · simp [h1]
    · by_cases h2 : j = k + 2 <;> simp [h0, h1, h2]

theorem put_takeTriplet (h : hasTriplet s k = true) :
    putTriplet ⟨(takeTriplet s k).handCards, v⟩ k = ⟨s.handCards, v⟩ := by
  have h3 := hasTriplet_iff.mp h
  have hk := isSome_of_count (Nat.lt_of_lt_of_le (by decide) h3)
  simp only [putTriplet, takeTriplet, State.set, State.count, State.mk.injEq, and_true]
  refine eq_of_counts ?_ fun j => ?_
  · rw [keys_set (isSome_set hk), keys_set hk]
  · simp only [count_set]
    split
    · subst k
      simp only [if_true]
      omega
    · rfl

theorem put_takeRun (h : hasRun s k = true) : putRun ⟨(takeRun s k).handCards, v⟩ k = ⟨s.handCards, v⟩ := by
  obtain ⟨h0, h1, h2⟩ := hasRun_iff.mp h
  have hk0 := isSome_of_count h0
  have hk1 := isSome_of_count h1
  have hk2 := isSome_of_count h2
  simp only [putRun, takeRun, State.set, State.count, State.mk.injEq, and_true]
  refine eq_of_counts ?_ fun j => ?_
  · rw [keys_set (isSome_set (isSome_set (isSome_set (isSome_set (isSome_set hk2))))),
      keys_set (isSome_set (isSome_set (isSome_set (isSome_set hk1)))),
      keys_set (isSome_set (isSome_set (isSome_set hk0))), keys_set (isSome_set (isSome_set hk2)),
      keys_set (isSome_set hk1), keys_set hk0]
  · simp only [count_set]
    by_cases hj0 : j = k
    · simp [hj0]
      omega
    · by_cases hj1 : j = k + 1
      · simp [hj1]
        omega
      · by_cases hj2 : j = k + 2
        · simp [hj2]
          omega
        · simp [hj0, hj1, hj2]

end Loops

/-! ### The search -/

/-- What a recursive call does with a table of fewer than `n` tiles. -/
def Answers (recurse : State → Option (Bool × State)) (n : Nat) : Prop :=
  ∀ s : State, s.handCards.tiles.card < n →
    ∃ b v, recurse s = some (b, ⟨s.handCards, v⟩) ∧ (b = true ↔ Splits Meld.tiles s.handCards.tiles)

/-- A loop that takes out three tiles `m k` where they are, and puts back what it took. -/
theorem tryEach_spec {can : State → Nat → Bool} {take put : State → Nat → State} {m : Nat → Multiset Nat}
    {recurse : State → Option (Bool × State)} {n : Nat} (hm : ∀ k, 0 < (m k).card)
    (hcan : ∀ s k, can s k = true ↔ m k ≤ s.handCards.tiles)
    (htake : ∀ s k, (take s k).handCards.tiles = s.handCards.tiles - m k)
    (hput : ∀ s k v, can s k = true → put ⟨(take s k).handCards, v⟩ k = ⟨s.handCards, v⟩)
    (hrec : Answers recurse n) (ks : List Nat) {s : State} (hn : s.handCards.tiles.card ≤ n) :
    ∃ b v, tryEach can take put recurse ks s = some (b, ⟨s.handCards, v⟩) ∧
      (b = true ↔ ∃ k ∈ ks, m k ≤ s.handCards.tiles ∧ Splits Meld.tiles (s.handCards.tiles - m k)) := by
  induction ks generalizing s with
  | nil => exact ⟨false, s.visits, rfl, by simp⟩
  | cons k ks ih =>
    rw [tryEach]
    simp only [List.exists_mem_cons_iff]
    by_cases hk : can s k = true
    · have hle := (hcan s k).mp hk
      have hfewer : (take s k).handCards.tiles.card < n := by
        have hpos := hm k
        have hcard := Multiset.card_le_card hle
        rw [htake, Multiset.card_sub hle]
        omega
      obtain ⟨b, v, hb, hiff⟩ := hrec (take s k) hfewer
      rw [if_pos hk, hb]
      simp only [hput s k v hk]
      rw [htake] at hiff
      cases b with
      | true => exact ⟨true, v, rfl, iff_of_true rfl (.inl ⟨hle, hiff.mp rfl⟩)⟩
      | false =>
        have hno : ¬(m k ≤ s.handCards.tiles ∧ Splits Meld.tiles (s.handCards.tiles - m k)) :=
          fun h => absurd (hiff.mpr h.2) (by decide)
        obtain ⟨b, v', hb', hiff'⟩ := ih (s := ⟨s.handCards, v⟩) hn
        exact ⟨b, v', hb', by rw [hiff', or_iff_right hno]⟩
    · have hno : ¬(m k ≤ s.handCards.tiles ∧ Splits Meld.tiles (s.handCards.tiles - m k)) :=
        fun h => hk ((hcan s k).mpr h.1)
      obtain ⟨b, v, hb, hiff⟩ := ih hn
      exact ⟨b, v, by rw [if_neg hk]; exact hb, by rw [hiff, or_iff_right hno]⟩

section Search

variable {visit : Nat → List Nat → List Nat} (hvisit : ∀ n ks, (visit n ks).Perm ks)

include hvisit

theorem mem_visit {n k : Nat} {t : HandCards} : k ∈ visit n t.keys ↔ 0 < t.count k ∨ k ∈ t.keys ∧ t.count k = 0 := by
  rw [(hvisit n t.keys).mem_iff]
  constructor
  · intro hk
    by_cases h0 : t.count k = 0
    · exact .inr ⟨hk, h0⟩
    · exact .inl (Nat.pos_of_ne_zero h0)
  · rintro (h | ⟨h, _⟩)
    · exact (t.mem_keys k).mpr (HandCards.isSome_of_count h)
    · exact h

/-- `pHandCount` is the number of tiles. -/
theorem handCount_eq (n : Nat) (s : State) :
    (visit n s.handCards.keys).foldl (fun n k => n + s.count k) 0 = s.handCards.tiles.card := by
  have hfold : ∀ (ks : List Nat) (c : Nat), ks.foldl (fun n k => n + s.count k) c = c + (ks.map s.handCards.count).sum := by
    intro ks
    induction ks with
    | nil => simp
    | cons k ks ih =>
      intro c
      rw [List.foldl_cons, ih, List.map_cons, List.sum_cons, State.count, Nat.add_assoc]
  rw [hfold, Nat.zero_add, HandCards.card_tiles]
  exact ((hvisit n s.handCards.keys).map _).sum_eq

/-- Every meld that fits is found by its lowest tile. -/
theorem exists_visit {n : Nat} {t : HandCards} {m : Nat → Multiset Nat} (hm : ∀ k, k ∈ m k) {P : Nat → Prop} :
    (∃ k ∈ visit n t.keys, m k ≤ t.tiles ∧ P k) ↔ ∃ k, m k ≤ t.tiles ∧ P k := by
  constructor
  · rintro ⟨k, _, h⟩
    exact ⟨k, h⟩
  · rintro ⟨k, hle, hp⟩
    have hk : 0 < t.count k := by
      rw [← HandCards.count_tiles]
      exact Multiset.count_pos.mpr (Multiset.mem_of_le hle (hm k))
    exact ⟨k, (mem_visit hvisit).mpr (.inl hk), hle, hp⟩

/-- **`compute`.** With more fuel than tiles it returns; the table is as it was; the answer is whether the
tiles split into triplets and runs. The induction is on the fuel: each call has three tiles fewer. -/
theorem compute_spec (fuel : Nat) : Answers (compute visit fuel) fuel := by
  induction fuel with
  | zero => exact fun s h => absurd h (Nat.not_lt_zero _)
  | succ fuel ih =>
    intro s hn
    have hcard : s.handCards.tiles.card ≤ fuel := Nat.le_of_lt_succ hn
    have hcount := handCount_eq hvisit s.visits ⟨s.handCards, s.visits + 1⟩
    simp only at hcount
    simp only [compute, pairs, hcount]
    split
    · rename_i hzero
      exact ⟨true, _, rfl, iff_of_true rfl (by rw [Multiset.card_eq_zero.mp hzero]; exact splits_zero)⟩
    · rename_i hne
      have hne' : s.handCards.tiles ≠ 0 := fun h => hne (by rw [h]; rfl)
      obtain ⟨b, v, hb, hiff⟩ := tryEach_spec (m := fun k => {k, k, k}) (by simp) (fun s k => triplet_le)
        (fun s k => tiles_takeTriplet) (fun s k v h => put_takeTriplet h) ih
        (visit (s.visits + 1) s.handCards.keys) (s := ⟨s.handCards, s.visits + 1 + 1⟩) hcard
      rw [hb]
      rw [exists_visit hvisit (by simp)] at hiff
      have hsplit : Splits Meld.tiles s.handCards.tiles ↔
          (∃ k, {k, k, k} ≤ s.handCards.tiles ∧ Splits Meld.tiles (s.handCards.tiles - {k, k, k})) ∨
          ∃ k, {k, k + 1, k + 2} ≤ s.handCards.tiles ∧ Splits Meld.tiles (s.handCards.tiles - {k, k + 1, k + 2}) := by
        rw [splits_iff, or_iff_right hne']
        constructor
        · rintro ⟨i, hle, h⟩
          cases i with
          | triplet k => exact .inl ⟨k, hle, h⟩
          | run k => exact .inr ⟨k, hle, h⟩
        · rintro (⟨k, hle, h⟩ | ⟨k, hle, h⟩)
          · exact ⟨.triplet k, hle, h⟩
          · exact ⟨.run k, hle, h⟩
      cases b with
      | true => exact ⟨true, v, rfl, iff_of_true rfl (hsplit.mpr (.inl (hiff.mp rfl)))⟩
      | false =>
        have hno : ¬∃ k, {k, k, k} ≤ s.handCards.tiles ∧ Splits Meld.tiles (s.handCards.tiles - {k, k, k}) :=
          fun h => Bool.noConfusion (hiff.mpr h)
        obtain ⟨b, v', hb', hiff'⟩ := tryEach_spec (m := fun k => {k, k + 1, k + 2}) (by simp) (fun s k => run_le)
          (fun s k => tiles_takeRun) (fun s k v h => put_takeRun h) ih
          (visit v s.handCards.keys) (s := ⟨s.handCards, v + 1⟩) hcard
        rw [exists_visit hvisit (by simp)] at hiff'
        exact ⟨b, v', hb', by rw [hiff', hsplit, or_iff_right hno]⟩

end Search

theorem tiles_takePair {s : State} {k : Nat} :
    (s.set k (s.count k - 2)).handCards.tiles = s.handCards.tiles - {k, k} := by
  refine HandCards.tiles_take fun j => ?_
  simp only [State.set, HandCards.count_set, count_pair]
  split
  · subst k
    rfl
  · rfl

theorem pair_le {s : State} {k : Nat} : 2 ≤ s.count k ↔ {k, k} ≤ s.handCards.tiles := by
  rw [Multiset.le_iff_count]
  simp only [count_pair, HandCards.count_tiles]
  constructor
  · intro h j
    split
    · subst k
      exact h
    · exact Nat.zero_le _
  · intro h
    simpa [State.count] using h k

theorem put_takePair {s : State} {k v : Nat} (h : 2 ≤ s.count k) :
    State.set ⟨(s.set k (s.count k - 2)).handCards, v⟩ k
      (State.count ⟨(s.set k (s.count k - 2)).handCards, v⟩ k + 2) = ⟨s.handCards, v⟩ := by
  have hk := HandCards.isSome_of_count (Nat.lt_of_lt_of_le (by decide) h)
  simp only [State.count] at h
  simp only [State.set, State.count, State.mk.injEq, and_true]
  refine HandCards.eq_of_counts ?_ fun j => ?_
  · rw [HandCards.keys_set (HandCards.isSome_set hk), HandCards.keys_set hk]
  · simp only [HandCards.count_set]
    split
    · subst k
      simp only [if_true]
      omega
    · rfl

/-- The loop over the pairs. -/
theorem heads_spec {recurse : State → Option (Bool × State)} {n : Nat} (hrec : Answers recurse n) (ks : List Nat)
    {s : State} (hn : s.handCards.tiles.card ≤ n + 1) :
    ∃ b s', heads recurse ks s = some (b, s') ∧
      (b = true ↔ ∃ k ∈ ks, {k, k} ≤ s.handCards.tiles ∧ Splits Meld.tiles (s.handCards.tiles - {k, k})) := by
  induction ks generalizing s with
  | nil => exact ⟨false, s, rfl, by simp⟩
  | cons k ks ih =>
    rw [heads]
    simp only [List.exists_mem_cons_iff]
    by_cases hk : 2 ≤ s.count k
    · have hle := pair_le.mp hk
      have hfewer : (s.set k (s.count k - 2)).handCards.tiles.card < n := by
        have hcard := Multiset.card_le_card hle
        rw [tiles_takePair, Multiset.card_sub hle]
        simp only [Multiset.insert_eq_cons, Multiset.card_cons, Multiset.card_singleton] at hcard ⊢
        omega
      obtain ⟨b, v, hb, hiff⟩ := hrec _ hfewer
      rw [if_pos hk, hb]
      rw [tiles_takePair] at hiff
      cases b with
      | true => exact ⟨true, _, rfl, iff_of_true rfl (.inl ⟨hle, hiff.mp rfl⟩)⟩
      | false =>
        have hno : ¬({k, k} ≤ s.handCards.tiles ∧ Splits Meld.tiles (s.handCards.tiles - {k, k})) :=
          fun h => Bool.noConfusion (hiff.mpr h.2)
        simp only [put_takePair hk]
        obtain ⟨b, s', hb', hiff'⟩ := ih (s := ⟨s.handCards, v⟩) hn
        exact ⟨b, s', hb', by rw [hiff', or_iff_right hno]⟩
    · have hno : ¬({k, k} ≤ s.handCards.tiles ∧ Splits Meld.tiles (s.handCards.tiles - {k, k})) :=
        fun h => hk (pair_le.mpr h.1)
      obtain ⟨b, s', hb, hiff⟩ := ih hn
      exact ⟨b, s', by rw [if_neg hk]; exact hb, by rw [hiff, or_iff_right hno]⟩

theorem tiles_addCard (t : HandCards) (v : Nat) : (addCard t v).tiles = v ::ₘ t.tiles := by
  ext j
  have hadd : (addCard t v).count j = if j = v then t.count v + 1 else t.count j := by
    rw [addCard]
    by_cases hv : (t.get v).isSome = true
    · simp only [hv, if_true, HandCards.count_set]
    · have hzero : t.count v = 0 := by
        rw [Bool.not_eq_true, Option.isSome_eq_false_iff, Option.isNone_iff_eq_none] at hv
        rw [HandCards.count, hv]
        rfl
      simp only [if_neg hv, HandCards.count_set, hzero, if_true]
      split <;> rfl
  rw [HandCards.count_tiles, hadd, Multiset.count_cons, HandCards.count_tiles]
  by_cases hj : j = v <;> simp [hj]

theorem tiles_foldl (cards : List Nat) (t : HandCards) :
    (cards.foldl addCard t).tiles = (cards : Multiset Nat) + t.tiles := by
  induction cards generalizing t with
  | nil => simp
  | cons v cards ih =>
    rw [List.foldl_cons, ih, tiles_addCard, ← Multiset.cons_coe, Multiset.cons_add, Multiset.add_cons]

/-- The tiles of a hand with the extra tile. -/
def handTiles (handCardMap : List Nat) (cardValue : Int) : Multiset Nat :=
  handCardMap + if 0 < cardValue then {cardValue.toNat} else 0

theorem card_handTiles {handCardMap : List Nat} {cardValue : Int} {fuel : Nat} (hfuel : handCardMap.length ≤ fuel) :
    (handTiles handCardMap cardValue).card ≤ fuel + 1 := by
  rw [handTiles, Multiset.card_add, Multiset.coe_card]
  split
  · rw [Multiset.card_singleton]
    omega
  · rw [Multiset.card_zero]
    omega

section Hand

variable {visit : Nat → List Nat → List Nat} (hvisit : ∀ n ks, (visit n ks).Perm ks)

include hvisit

theorem isCanHu_spec {handCardMap : List Nat} {cardValue : Int} {fuel : Nat}
    (hfuel : (handTiles handCardMap cardValue).card ≤ fuel + 1) :
    ∃ b, isCanHu visit fuel handCardMap cardValue = some b ∧ (b = true ↔ Wins (handTiles handCardMap cardValue)) := by
  let built := handCardMap.foldl addCard .empty
  let t := if 0 < cardValue then addCard built cardValue.toNat else built
  have htiles : t.tiles = handTiles handCardMap cardValue := by
    have hbuilt : built.tiles = handCardMap := by
      rw [tiles_foldl, show HandCards.empty.tiles = 0 from rfl, add_zero]
    simp only [t, handTiles]
    split
    · rw [tiles_addCard, hbuilt, add_comm, Multiset.singleton_add]
    · rw [hbuilt, add_zero]
  rw [← htiles] at hfuel ⊢
  obtain ⟨b, s', hb, hiff⟩ := heads_spec (compute_spec hvisit fuel) (visit 0 t.keys) (s := ⟨t, 1⟩) hfuel
  rw [exists_visit hvisit (by simp), ← wins_iff] at hiff
  refine ⟨b, ?_, hiff⟩
  rw [isCanHu, isNormalHu]
  exact congrArg (Option.map Prod.fst) hb

end Hand

/-! ### The rules -/

section Rules

variable {keys : List Nat} {handCards : Nat → Nat} {m : Multiset Nat}

/-- The table `handCards` counts the tiles `m`, and has their codes among its keys. -/
structure Counts (keys : List Nat) (handCards : Nat → Nat) (m : Multiset Nat) : Prop where
  count : ∀ j, m.count j = handCards j
  mem_keys : ∀ j ∈ m, j ∈ keys

theorem Counts.sum_eq_zero (h : Counts keys handCards m) : (keys.map handCards).sum = 0 ↔ m = 0 := by
  rw [List.sum_eq_zero_iff, Multiset.eq_zero_iff_forall_notMem]
  constructor
  · intro hzero j hj
    have hcount := hzero _ (List.mem_map_of_mem (h.mem_keys j hj))
    rw [← h.count] at hcount
    exact Multiset.count_ne_zero.mpr hj hcount
  · intro hnone c hc
    obtain ⟨j, _, rfl⟩ := List.mem_map.mp hc
    rw [← h.count]
    exact Multiset.count_eq_zero_of_notMem (hnone j)

theorem Counts.sub (h : Counts keys handCards m) {u : Multiset Nat} {f : Nat → Nat}
    (hf : ∀ j, f j = handCards j - u.count j) : Counts keys f (m - u) where
  count j := by rw [Multiset.count_sub, h.count, hf]
  mem_keys j hj := h.mem_keys j (Multiset.mem_of_le (Multiset.sub_le_self ..) hj)

theorem Counts.sub_triplet (h : Counts keys handCards m) (k : Nat) :
    Counts keys (Function.update handCards k (handCards k - 3)) (m - {k, k, k}) := by
  refine h.sub fun j => ?_
  rw [count_triplet, Function.update_apply]
  split
  · subst k
    rfl
  · rfl

theorem Counts.sub_run (h : Counts keys handCards m) (k : Nat) :
    Counts keys (fun c => if c = k ∨ c = k + 1 ∨ c = k + 2 then handCards c - 1 else handCards c)
      (m - {k, k + 1, k + 2}) := by
  refine h.sub fun j => ?_
  rw [count_run]
  split <;> rfl

theorem Counts.triplet_le (h : Counts keys handCards m) (k : Nat) : {k, k, k} ≤ m ↔ k ∈ keys ∧ 3 ≤ handCards k := by
  rw [Multiset.le_iff_count, ← h.count]
  simp only [count_triplet]
  constructor
  · intro hle
    have hk : 3 ≤ m.count k := by simpa using hle k
    exact ⟨h.mem_keys k (Multiset.count_pos.mp (by omega)), hk⟩
  · rintro ⟨_, hk⟩ j
    split
    · subst k
      exact hk
    · exact Nat.zero_le _

theorem Counts.run_le (h : Counts keys handCards m) (k : Nat) :
    {k, k + 1, k + 2} ≤ m ↔ k ∈ keys ∧ 0 < handCards k ∧ 0 < handCards (k + 1) ∧ 0 < handCards (k + 2) := by
  rw [Multiset.le_iff_count, ← h.count, ← h.count, ← h.count]
  simp only [count_run]
  constructor
  · intro hle
    have h0 : 1 ≤ m.count k := by simpa using hle k
    have h1 : 1 ≤ m.count (k + 1) := by simpa using hle (k + 1)
    have h2 : 1 ≤ m.count (k + 2) := by simpa using hle (k + 2)
    exact ⟨h.mem_keys k (Multiset.count_pos.mp h0), h0, h1, h2⟩
  · rintro ⟨_, h0, h1, h2⟩ j
    split
    · rename_i hj
      rcases hj with rfl | rfl | rfl
      · exact h0
      · exact h1
      · exact h2
    · exact Nat.zero_le _

/-- `compute` of the rules answers the same question. -/
theorem rules_compute_iff (fuel : Nat) (h : Counts keys handCards m) (hfuel : m.card ≤ fuel) :
    Mahjong.compute keys fuel handCards = true ↔ Splits Meld.tiles m := by
  induction fuel generalizing handCards m with
  | zero =>
    have hm : m = 0 := Multiset.card_eq_zero.mp (Nat.le_zero.mp hfuel)
    rw [Mahjong.compute, if_pos (h.sum_eq_zero.mpr hm), hm]
    exact iff_of_true rfl splits_zero
  | succ fuel ih =>
    by_cases hm : m = 0
    · rw [Mahjong.compute, if_pos (h.sum_eq_zero.mpr hm), hm]
      exact iff_of_true rfl splits_zero
    · rw [Mahjong.compute, if_neg (fun hz => hm (h.sum_eq_zero.mp hz)), splits_iff, or_iff_right hm]
      simp only [Bool.or_eq_true, List.any_eq_true, Bool.and_eq_true, decide_eq_true_eq]
      have hfewer : ∀ u : Multiset Nat, u ≤ m → 0 < u.card → (m - u).card ≤ fuel := by
        intro u hle hpos
        rw [Multiset.card_sub hle]
        omega
      constructor
      · rintro (⟨k, hk, h3, hrest⟩ | ⟨k, hk, h1, hrest⟩)
        · have hle := (h.triplet_le k).mpr ⟨hk, h3⟩
          exact ⟨.triplet k, hle, (ih (h.sub_triplet k) (hfewer _ hle (by simp))).mp hrest⟩
        · have hle := (h.run_le k).mpr ⟨hk, h1⟩
          exact ⟨.run k, hle, (ih (h.sub_run k) (hfewer _ hle (by simp))).mp hrest⟩
      · rintro ⟨i, hle, hrest⟩
        cases i with
        | triplet k =>
          obtain ⟨hk, h3⟩ := (h.triplet_le k).mp hle
          exact .inl ⟨k, hk, h3, (ih (h.sub_triplet k) (hfewer _ hle (by simp))).mpr hrest⟩
        | run k =>
          obtain ⟨hk, h1⟩ := (h.run_le k).mp hle
          exact .inr ⟨k, hk, h1, (ih (h.sub_run k) (hfewer _ hle (by simp))).mpr hrest⟩

theorem rules_isCanHu_iff (handCards : List Nat) (cardValue : Nat) :
    Mahjong.isCanHu handCards cardValue = true ↔ Wins (handTiles handCards cardValue) := by
  let cards := if 0 < cardValue then handCards ++ [cardValue] else handCards
  have htiles : handTiles handCards cardValue = (cards : Multiset Nat) := by
    simp only [handTiles, cards]
    by_cases hc : 0 < cardValue
    · rw [if_pos hc, if_pos (by omega), Int.toNat_natCast, ← Multiset.coe_add]
      rfl
    · rw [if_neg hc, if_neg (by omega), add_zero]
  have h : Counts cards.dedup cards.count (cards : Multiset Nat) :=
    ⟨fun j => Multiset.coe_count .., fun j hj => List.mem_dedup.mpr hj⟩
  rw [htiles, wins_iff]
  show Mahjong.isNormalHu cards.dedup cards.count = true ↔ _
  simp only [Mahjong.isNormalHu, List.any_eq_true, Bool.and_eq_true, decide_eq_true_eq]
  have hpair : ∀ k, {k, k} ≤ (cards : Multiset Nat) ↔ k ∈ cards.dedup ∧ 2 ≤ cards.count k := by
    intro k
    rw [Multiset.le_iff_count, ← Multiset.coe_count]
    simp only [count_pair]
    constructor
    · intro hle
      have hk : 2 ≤ (cards : Multiset Nat).count k := by simpa using hle k
      exact ⟨h.mem_keys k (Multiset.count_pos.mp (by omega)), hk⟩
    · rintro ⟨_, hk⟩ j
      split
      · subst k
        exact hk
      · exact Nat.zero_le _
  have hsub : ∀ k, Counts cards.dedup (Function.update cards.count k (cards.count k - 2)) (cards - {k, k}) := by
    intro k
    refine h.sub fun j => ?_
    rw [count_pair, Function.update_apply]
    split
    · subst k
      rfl
    · rfl
  have hfuel : ∀ k, ((cards : Multiset Nat) - {k, k}).card ≤ (cards.dedup.map cards.count).sum := by
    intro k
    rw [List.sum_map_count_dedup_eq_length, ← Multiset.coe_card]
    exact Multiset.card_le_card (Multiset.sub_le_self ..)
  constructor
  · rintro ⟨k, hk, h2, hrest⟩
    exact ⟨k, (hpair k).mpr ⟨hk, h2⟩, (rules_compute_iff _ (hsub k) (hfuel k)).mp hrest⟩
  · rintro ⟨k, hle, hrest⟩
    obtain ⟨hk, h2⟩ := (hpair k).mp hle
    exact ⟨k, hk, h2, (rules_compute_iff _ (hsub k) (hfuel k)).mpr hrest⟩

/-- The search on the table answers as the rules do, whatever the order of `pairs`. -/
theorem isCanHu_eq {visit : Nat → List Nat → List Nat} (hvisit : ∀ n ks, (visit n ks).Perm ks)
    (handCards : List Nat) (cardValue fuel : Nat) (hfuel : (handTiles handCards cardValue).card ≤ fuel + 1) :
    isCanHu visit fuel handCards cardValue = some (Mahjong.isCanHu handCards cardValue) := by
  obtain ⟨b, hb, hiff⟩ := isCanHu_spec hvisit hfuel
  rw [← rules_isCanHu_iff, ← Bool.eq_iff_iff] at hiff
  rw [hb, hiff]

end Rules

/-- **The winning-hand search.** In whatever order `pairs` visits the table, `isCanHu` returns, and says
whether the hand with the extra tile is a pair, triplets and runs; `compute` returns too, with its
table as it was. -/
theorem isCanHu_correct (visit : Nat → List Nat → List Nat) (hvisit : ∀ n ks, (visit n ks).Perm ks) :
    (∀ (handCardMap : List Nat) (cardValue : Int) (fuel : Nat), handCardMap.length ≤ fuel →
      ∃ b, isCanHu visit fuel handCardMap cardValue = some b ∧
        (b = true ↔ ∃ p melds, WinsWith p melds (handTiles handCardMap cardValue))) ∧
    ∀ (s : State) (fuel : Nat), s.handCards.tiles.card < fuel →
      ∃ b v, compute visit fuel s = some (b, ⟨s.handCards, v⟩) := by
  refine ⟨fun handCardMap cardValue fuel hfuel => isCanHu_spec hvisit (card_handTiles hfuel), fun s fuel hn => ?_⟩
  obtain ⟨b, v, hb, _⟩ := compute_spec hvisit fuel s hn
  exact ⟨b, v, hb⟩

/-- A pair, a triplet and a run, visited backwards. -/
theorem isCanHu_correct_backwards : isCanHu (fun _ ks => ks.reverse) 7 [2, 5, 5, 5, 2, 17, 18] 19 = some true ∧
    ∃ b, isCanHu (fun _ ks => ks.reverse) 7 [2, 5, 5, 5, 2, 17, 18] 19 = some b ∧
      (b = true ↔ ∃ p melds, WinsWith p melds (handTiles [2, 5, 5, 5, 2, 17, 18] 19)) :=
  ⟨by decide, (isCanHu_correct _ fun _ ks => ks.reverse_perm).1 _ _ 7 (by decide)⟩

end GameRoundLogic
end Mahjong
end Skynet
