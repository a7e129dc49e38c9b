import Skynet.Mahjong.Rules
import Mathlib.Data.List.Perm.Basic
import Mathlib.Algebra.Order.Ring.Int
import Mathlib.Data.Multiset.Bind
import Mathlib.Data.Multiset.Range
import Mathlib.Data.Multiset.Replicate
import Mathlib.Tactic.Positivity

/-!
# Skynet.Mahjong.Pool

The wall of `logic/common/mahjongPool.lua`: built from a table of card types, shuffled, stacked, then dealt and drawn
from the front.

The numbers of Lua are those of an ordered ring `V`. A key of the table is a number after `tonumber`, and of a value
only its length counts. `pairs` may visit the table in any order, so the table is a list. Places of the wall count
from 1. `none` is an error, or an access outside of the wall.

* `initMahjongPool_eq_none_iff` : there is a wall as soon as the table describes a tile.
* `initMahjongPool_perm`        : the wall is a permutation of the tiles that the table describes.
* `serves_flatten`              : what is dealt and drawn, in this order, then what remains, is the wall.
-/

namespace Skynet
namespace Mahjong
namespace Pool

section

variable {K N V : Type} [Ring V] [LinearOrder V]

/-! ### The wall -/

/-- `pool[i], pool[j] = pool[j], pool[i]` -/
def swap (i j : Nat) (pool : List V) : Option (List V) :=
  if (0 < i ∧ i ≤ pool.length) ∧ 0 < j ∧ j ≤ pool.length then some (pool.swap (i - 1) (j - 1)) else none

/-- One pass of the first loop of `initMahjongPool`. -/
def addType (tonumber : K → Option V) (pool : List V) (kv : K × List N) : List V :=
  let cardType := (tonumber kv.1).getD (-1)
  if 0 ≤ cardType ∧ cardType < 5 then
    (List.range kv.2.length).foldl (fun pool i =>
      let cardValue := cardType * 16 + ((i + 1 : Nat) : V)
      pool ++ [cardValue] ++ [cardValue] ++ [cardValue] ++ [cardValue]) pool
  else if cardType = 5 then
    (List.range kv.2.length).foldl (fun pool i => pool ++ [cardType * 16 + ((i + 1 : Nat) : V)]) pool
  else pool

/-- `math.random(m)`, where `r` is what the generator gives. An empty interval is an error. -/
def random (m r : Nat) : Option Nat := if m = 0 then none else some (r % m + 1)

def shuffleMahjongPool (maxCardCount : Nat) (rs : Nat → Nat × Nat) (pool : List V) : Option (List V) :=
  (List.range 200).foldlM (fun pool k => do
    let swapIndex1 ← random maxCardCount (rs k).1
    let swapIndex2 ← random maxCardCount (rs k).2
    swap swapIndex1 swapIndex2 pool) pool

/-- One tile of `onStackCard`, with `cardCount` tiles before it: the first one like it that is not yet passed comes
to its place. If there is none, the wall stays as it is. -/
def stackNext (s : Nat × List V) (q : V) : Option (Nat × List V) :=
  let cardCount := s.1 + 1
  match (List.range' cardCount (s.2.length + 1 - cardCount)).find? fun i => s.2[i - 1]? = some q with
  | some i => (swap cardCount i s.2).map (cardCount, ·)
  | none => some (cardCount, s.2)

def pDealCards : List (List Nat) :=
  [[0x01, 0x01, 0x01, 0x02, 0x02, 0x02, 0x03, 0x03, 0x03, 0x04, 0x04, 0x04, 0x05],
   [0x11, 0x11, 0x11, 0x12, 0x12, 0x12, 0x13, 0x13, 0x13, 0x14, 0x14, 0x14, 0x15],
   [0x21, 0x21, 0x21, 0x22, 0x22, 0x22, 0x23, 0x23, 0x23, 0x24, 0x24, 0x24, 0x25],
   [0x31, 0x31, 0x31, 0x32, 0x32, 0x32, 0x33, 0x33, 0x33, 0x34, 0x34, 0x04, 0x05]]

def pDrawCards : List Nat := [0x07, 0x03, 0x08, 0x08, 0x09, 0x09]

/-- `onStackCard`, with the two tables of tiles in it. -/
def onStackCard (pDealCards : List (List V)) (pDrawCards : List V) (pool : List V) : Option (List V) := do
  let s ← pDealCards.foldlM (fun s v => v.foldlM stackNext s) (0, pool)
  let s ← pDrawCards.foldlM stackNext s
  return s.2

def initMahjongPool (tonumber : K → Option V) (cardTypeTable : List (K × List N)) (rs : Nat → Nat × Nat) :
    Option (List V) := do
  let pool := cardTypeTable.foldl (addType tonumber) []
  let pool ← shuffleMahjongPool pool.length rs pool
  onStackCard (pDealCards.map (List.map Nat.cast)) (pDrawCards.map Nat.cast) pool

end

section

variable {V : Type}

/-- `table.remove(pool, 1)` -/
def pop : List V → Option V × List V
  | [] => (none, [])
  | popCard :: pool => (some popCard, pool)

/-- The inner loop of `dealCards`. Adding nil at the end of a table changes nothing. -/
def dealHand : Nat → List V → List V → List V × List V
  | 0, handCards, pool => (handCards, pool)
  | n + 1, handCards, pool => dealHand n (handCards ++ (pop pool).1.toList) (pop pool).2

def dealLoop (mahjongNum : Nat) : Nat → List (List V) → List V → List (List V) × List V
  | 0, dealCardMap, pool => (dealCardMap, pool)
  | playerNum + 1, dealCardMap, pool =>
    let (handCards, pool) := dealHand mahjongNum [] pool
    dealLoop mahjongNum playerNum (dealCardMap ++ [handCards]) pool

def dealCards (playerNum : Nat) (mahjongNum : Option Nat) (pool : List V) : List (List V) × List V :=
  dealLoop (mahjongNum.getD 1) playerNum [] pool

def drawCard (pool : List V) : Option V × List V := pop pool

/-- What the game asks of the wall. -/
inductive Call where
  | dealCards (playerNum : Nat) (mahjongNum : Option Nat)
  | drawCard
deriving Repr, DecidableEq

/-- The hands that a call takes, a drawn tile being a hand of one. -/
def serve (pool : List V) : Call → List (List V) × List V
  | .dealCards playerNum mahjongNum => dealCards playerNum mahjongNum pool
  | .drawCard => ([(drawCard pool).1.toList], (drawCard pool).2)

def serves : List V → List Call → List (List (List V)) × List V
  | pool, [] => ([], pool)
  | pool, c :: cs => ((serve pool c).1 :: (serves (serve pool c).2 cs).1, (serves (serve pool c).2 cs).2)

/-- The sizes of the hands that a call is for. -/
def Call.sizes : Call → List Nat
  | .dealCards playerNum mahjongNum => List.replicate playerNum (mahjongNum.getD 1)
  | .drawCard => [1]

end

/-! ### The wall is what the table describes -/

section

variable {K N V : Type} [Ring V] [LinearOrder V]

/-- Four copies of each tile of a suit, of the winds and of the dragons, one of each flower. -/
def copies : Option V → Nat
  | some cardType => if 0 ≤ cardType ∧ cardType < 5 then 4 else if cardType = 5 then 1 else 0
  | none => 0

/-- The tiles that an entry of the table describes. -/
def tiles (tonumber : K → Option V) (kv : K × List N) : Multiset V :=
  (Multiset.range kv.2.length).bind fun i =>
    Multiset.replicate (copies (tonumber kv.1)) ((tonumber kv.1).getD 0 * 16 + ((i + 1 : Nat) : V))

def described (tonumber : K → Option V) (cardTypeTable : List (K × List N)) : Multiset V :=
  (cardTypeTable : Multiset (K × List N)).bind (tiles tonumber)

theorem foldl_coe {α β : Type} {f : List α → β → List α} {g : β → Multiset α}
    (h : ∀ pool b, ((f pool b : List α) : Multiset α) = pool + g b) (bs : List β) (pool : List α) :
    ((bs.foldl f pool : List α) : Multiset α) = pool + (bs : Multiset β).bind g := by
  induction bs generalizing pool with
  | nil => simp
  | cons b bs ih => rw [List.foldl_cons, ih, h, ← Multiset.cons_coe, Multiset.cons_bind, add_assoc]

theorem addType_coe [IsStrictOrderedRing V] (tonumber : K → Option V) (pool : List V) (kv : K × List N) :
    ((addType tonumber pool kv : List V) : Multiset V) = pool + tiles tonumber kv := by
  have hone : ∀ (pool : List V) (v : V), ((pool ++ [v] : List V) : Multiset V) = pool + {v} := fun _ _ => rfl
  unfold addType tiles
  cases tonumber kv.1 with
  | none =>
    have hneg : (-1 : V) < 0 := neg_one_lt_zero
    have hfive : (-1 : V) ≠ 5 := (hneg.trans (by positivity)).ne
    rw [Option.getD_none, if_neg (fun h => absurd h.1 hneg.not_ge), if_neg hfive]
    simp [copies]
  | some cardType =>
    simp only [copies, Option.getD_some]
    split
    · rw [foldl_coe (g := fun i => Multiset.replicate 4 (cardType * 16 + ((i + 1 : Nat) : V))), Multiset.coe_range]
      intro pool i
      rw [hone, hone, hone, hone, add_assoc, add_assoc, add_assoc]
      rfl
    · split
      · rename_i h5
        rw [foldl_coe (g := fun i => Multiset.replicate 1 (cardType * 16 + ((i + 1 : Nat) : V))), Multiset.coe_range]
        intro pool i
        rfl
      · simp

/-! ### Shuffled and stacked -/

theorem foldlM_keeps {α σ : Type} {I : σ → Prop} {f : σ → α → Option σ}
    (h : ∀ s a, I s → ∃ s', f s a = some s' ∧ I s') (as : List α) (s : σ) (hs : I s) :
    ∃ s', as.foldlM f s = some s' ∧ I s' := by
  induction as generalizing s with
  | nil => exact ⟨s, rfl, hs⟩
  | cons a as ih =>
    obtain ⟨s', hf, hs'⟩ := h s a hs
    rw [List.foldlM_cons, hf]
    exact ih s' hs'

omit [Ring V] [LinearOrder V] in
theorem swap_keeps {i j : Nat} {pool : List V} (hi : 0 < i) (hi' : i ≤ pool.length) (hj : 0 < j)
    (hj' : j ≤ pool.length) : ∃ pool', swap i j pool = some pool' ∧ pool'.Perm pool :=
  ⟨pool.swap (i - 1) (j - 1), if_pos ⟨⟨hi, hi'⟩, hj, hj'⟩, List.swap_perm ..⟩

theorem random_range {m : Nat} (hm : m ≠ 0) (r : Nat) : ∃ i, random m r = some i ∧ 0 < i ∧ i ≤ m :=
  ⟨r % m + 1, if_neg hm, Nat.succ_pos _, Nat.mod_lt _ (Nat.pos_of_ne_zero hm)⟩

omit [Ring V] [LinearOrder V] in
theorem shuffleMahjongPool_keeps {pool : List V} (hpool : pool.length ≠ 0) (rs : Nat → Nat × Nat) :
    ∃ pool', shuffleMahjongPool pool.length rs pool = some pool' ∧ pool'.Perm pool := by
  refine foldlM_keeps (fun p k hp => ?_) _ pool (List.Perm.refl _)
  obtain ⟨i, hri, hi, hi'⟩ := random_range hpool (rs k).1
  obtain ⟨j, hrj, hj, hj'⟩ := random_range hpool (rs k).2
  obtain ⟨p', hswap, hp'⟩ := swap_keeps hi (hp.length_eq ▸ hi') hj (hp.length_eq ▸ hj')
  rw [hri, hrj]
  exact ⟨p', hswap, hp'.trans hp⟩

omit [Ring V] in
theorem stackNext_keeps {pool : List V} (s : Nat × List V) (q : V) (hs : s.2.Perm pool) :
    ∃ s', stackNext s q = some s' ∧ s'.2.Perm pool := by
  unfold stackNext
  dsimp only
  split
  · rename_i i hfind
    -- the place that was found is one of the range, so the range is not empty
    obtain ⟨hle, hlt⟩ := List.mem_range'_1.mp (List.mem_of_find?_eq_some hfind)
    have hswap : ∃ p', swap (s.1 + 1) i s.2 = some p' ∧ p'.Perm s.2 :=
      swap_keeps (by omega) (by omega) (by omega) (by omega)
    obtain ⟨p', hswap, hp'⟩ := hswap
    exact ⟨(s.1 + 1, p'), by rw [hswap]; rfl, hp'.trans hs⟩
  · exact ⟨(s.1 + 1, s.2), rfl, hs⟩

omit [Ring V] in
/-- Whatever tiles are asked for, and how often, stacking loses none and adds none. -/
theorem onStackCard_keeps (pDealCards : List (List V)) (pDrawCards : List V) (pool : List V) :
    ∃ pool', onStackCard pDealCards pDrawCards pool = some pool' ∧ pool'.Perm pool := by
  have hdeal := foldlM_keeps (I := fun s : Nat × List V => s.2.Perm pool)
    (fun s v hs => foldlM_keeps stackNext_keeps v s hs) pDealCards (0, pool) (List.Perm.refl _)
  obtain ⟨s, hs, hperm⟩ := hdeal
  obtain ⟨s', hs', hperm'⟩ := foldlM_keeps stackNext_keeps pDrawCards s hperm
  exact ⟨s'.2, by rw [onStackCard, hs]; simp [hs'], hperm'⟩

end

/-! ### Dealt and drawn -/

section

variable {V : Type}

theorem dealHand_eq (n : Nat) (handCards pool : List V) :
    dealHand n handCards pool = (handCards ++ pool.take n, pool.drop n) := by
  induction n generalizing handCards pool with
  | zero => simp [dealHand]
  | succ n ih =>
    rw [dealHand, ih]
    cases pool with
    | nil => simp [pop]
    | cons v pool => simp [pop]

theorem dealLoop_spec (mahjongNum playerNum : Nat) (dealCardMap : List (List V)) (pool : List V) :
    ∃ hands, dealLoop mahjongNum playerNum dealCardMap pool =
        (dealCardMap ++ hands, pool.drop (playerNum * mahjongNum)) ∧
      hands.flatten = pool.take (playerNum * mahjongNum) ∧
      (playerNum * mahjongNum ≤ pool.length → hands.map List.length = List.replicate playerNum mahjongNum) := by
  induction playerNum generalizing dealCardMap pool with
  | zero => exact ⟨[], by simp [dealLoop], by simp, fun _ => rfl⟩
  | succ playerNum ih =>
    rw [dealLoop, dealHand_eq]
    obtain ⟨hands, heq, hflat, hlen⟩ := ih (dealCardMap ++ [[] ++ pool.take mahjongNum]) (pool.drop mahjongNum)
    refine ⟨pool.take mahjongNum :: hands, ?_, ?_, fun hle => ?_⟩
    · simp only [List.nil_append] at heq ⊢
      rw [heq, List.drop_drop, Nat.succ_mul, Nat.add_comm mahjongNum]
      simp
    · rw [List.flatten_cons, hflat, Nat.succ_mul, Nat.add_comm, ← List.take_add]
    · rw [Nat.succ_mul] at hle
      rw [List.map_cons, hlen (by rw [List.length_drop]; omega), List.length_take, List.replicate_succ,
        Nat.min_eq_left (by omega)]

/-- A call takes the first tiles of the wall, hand after hand. -/
theorem serve_spec (pool : List V) (c : Call) :
    (serve pool c).1.flatten ++ (serve pool c).2 = pool ∧
      (c.sizes.sum ≤ pool.length → (serve pool c).1.map List.length = c.sizes) := by
  cases c with
  | dealCards playerNum mahjongNum =>
    obtain ⟨hands, heq, hflat, hlen⟩ := dealLoop_spec (mahjongNum.getD 1) playerNum [] pool
    simp only [serve, dealCards, Call.sizes, heq, List.nil_append, hflat, List.take_append_drop, true_and]
    intro hle
    exact hlen (by simpa using hle)
  | drawCard =>
    cases pool with
    | nil => exact ⟨rfl, fun hle => absurd hle (Nat.not_succ_le_zero 0)⟩
    | cons v pool => exact ⟨rfl, fun _ => rfl⟩

theorem serves_flatten (pool : List V) (cs : List Call) :
    (serves pool cs).1.flatten.flatten ++ (serves pool cs).2 = pool := by
  induction cs generalizing pool with
  | nil => rfl
  | cons c cs ih =>
    rw [serves, List.flatten_cons, List.flatten_append, List.append_assoc, ih]
    exact (serve_spec pool c).1

theorem serves_sizes (pool : List V) (cs : List Call) (h : (cs.map fun c => c.sizes.sum).sum ≤ pool.length) :
    (serves pool cs).1.map (List.map List.length) = cs.map Call.sizes := by
  induction cs generalizing pool with
  | nil => rfl
  | cons c cs ih =>
    rw [List.map_cons, List.sum_cons] at h
    obtain ⟨hflat, hlen⟩ := serve_spec pool c
    have hc := hlen (by omega)
    have hrest : (serve pool c).2.length = pool.length - c.sizes.sum := by
      have := congrArg List.length hflat
      rw [List.length_append, List.length_flatten, hc] at this
      omega
    rw [serves, List.map_cons, List.map_cons, hc, ih _ (by omega)]

end

/-! ### The wall of a game -/

section

variable {K N V : Type} [Ring V] [LinearOrder V] [IsStrictOrderedRing V]

theorem built_coe (tonumber : K → Option V) (cardTypeTable : List (K × List N)) :
    ((cardTypeTable.foldl (addType tonumber) [] : List V) : Multiset V) = described tonumber cardTypeTable := by
  rw [foldl_coe (addType_coe tonumber)]
  exact zero_add _

/-- With no tile, the first `math.random` has an empty interval. -/
theorem initMahjongPool_spec (tonumber : K → Option V) (cardTypeTable : List (K × List N)) (rs : Nat → Nat × Nat) :
    (initMahjongPool tonumber cardTypeTable rs = none ∧ described tonumber cardTypeTable = 0) ∨
    ∃ wall, initMahjongPool tonumber cardTypeTable rs = some wall ∧
      (wall : Multiset V) = described tonumber cardTypeTable ∧ wall ≠ [] := by
  rw [← built_coe]
  simp only [initMahjongPool]
  generalize cardTypeTable.foldl (addType tonumber) [] = pool
  by_cases hpool : pool.length = 0
  · left
    obtain rfl := List.length_eq_zero_iff.mp hpool
    refine ⟨?_, rfl⟩
    rw [shuffleMahjongPool, List.range_succ_eq_map, List.foldlM_cons]
    rfl
  · right
    obtain ⟨p₁, hshuffle, hp₁⟩ := shuffleMahjongPool_keeps hpool rs
    obtain ⟨p₂, hstack, hp₂⟩ := onStackCard_keeps (pDealCards.map (List.map Nat.cast)) (pDrawCards.map Nat.cast) p₁
    have hperm := hp₂.trans hp₁
    refine ⟨p₂, by rw [hshuffle]; exact hstack, Multiset.coe_eq_coe.mpr hperm, fun hnil => hpool ?_⟩
    rw [← hperm.length_eq, hnil, List.length_nil]

theorem initMahjongPool_perm {tonumber : K → Option V} {cardTypeTable : List (K × List N)} {rs : Nat → Nat × Nat}
    {wall : List V} (h : initMahjongPool tonumber cardTypeTable rs = some wall) :
    (wall : Multiset V) = described tonumber cardTypeTable ∧ wall ≠ [] := by
  obtain ⟨hnone, -⟩ | ⟨wall', hsome, hwall⟩ := initMahjongPool_spec tonumber cardTypeTable rs
  · rw [hnone] at h
    cases h
  · rw [hsome] at h
    cases h
    exact hwall

theorem initMahjongPool_eq_none_iff (tonumber : K → Option V) (cardTypeTable : List (K × List N))
    (rs : Nat → Nat × Nat) :
    initMahjongPool tonumber cardTypeTable rs = none ↔ described tonumber cardTypeTable = 0 := by
  obtain ⟨hnone, hzero⟩ | ⟨wall, hsome, hwall, hne⟩ := initMahjongPool_spec tonumber cardTypeTable rs
  · exact iff_of_true hnone hzero
  · refine iff_of_false (by rw [hsome]; exact Option.some_ne_none _) fun hzero => hne ?_
    rw [hzero] at hwall
    exact (Multiset.coe_eq_zero wall).mp hwall

/-- For any table, any numbers that the generator gives and any calls: there is a wall as soon as the table
describes a tile, it is a permutation of the tiles described, and what the calls take, in their order, and what
remains is the wall. Calls that the wall can serve take hands of the right sizes. -/
theorem wall_conserved (tonumber : K → Option V) (cardTypeTable : List (K × List N)) (rs : Nat → Nat × Nat) :
    (initMahjongPool tonumber cardTypeTable rs = none ↔ described tonumber cardTypeTable = 0) ∧
    ∀ wall, initMahjongPool tonumber cardTypeTable rs = some wall →
      (wall : Multiset V) = described tonumber cardTypeTable ∧
      ∀ cs, (serves wall cs).1.flatten.flatten ++ (serves wall cs).2 = wall ∧
        ((cs.map fun c => c.sizes.sum).sum ≤ wall.length →
          (serves wall cs).1.map (List.map List.length) = cs.map Call.sizes) :=
  ⟨initMahjongPool_eq_none_iff tonumber cardTypeTable rs, fun wall h =>
    ⟨(initMahjongPool_perm h).1, fun cs => ⟨serves_flatten wall cs, serves_sizes wall cs⟩⟩⟩

/-- A table with one bamboo and two flowers: the wall ends with the three bamboos that are not first. -/
def bambooAndFlowers : List (Int × List String) := [(2, ["1"]), (5, ["spring", "summer"])]

theorem wall_conserved_flowers :
    (([33, 82, 81, 33, 33, 33] : List Int) : Multiset Int) = described some bambooAndFlowers ∧
    (serves ([33, 82, 81, 33, 33, 33] : List Int) [.dealCards 2 none, .drawCard]).1.map (List.map List.length) =
      [[1, 1], [1]] := by
  have hwall : initMahjongPool some bambooAndFlowers (fun k => (k, k * k)) = some [33, 82, 81, 33, 33, 33] := by
    decide +kernel
  have h := (wall_conserved some bambooAndFlowers fun k => (k, k * k)).2 _ hwall
  exact ⟨h.1, (h.2 _).2 (by decide)⟩

theorem copies_natCast {k : Nat} (hk : k < 5) : copies (some (k : V)) = 4 :=
  if_pos ⟨Nat.cast_nonneg k, Nat.cast_lt_ofNat.mpr hk⟩

/-- The table of the GD game describes the tiles of a round, whatever the names of the tiles. -/
theorem described_onGetCardTypeTable (names : Nat → List N) (hnames : ∀ n, (names n).length = n) :
    described some (onGetCardTypeTable.map fun kn => ((kn.1 : V), names kn.2)) =
      ((mahjongPool.map Nat.cast : List V) : Multiset V) := by
  rw [described, ← Multiset.map_coe, Multiset.bind_map, mahjongPool, List.map_flatMap, ← Multiset.coe_bind]
  refine Multiset.bind_congr fun kn hkn => ?_
  have hk : kn.1 < 5 := by
    revert kn
    decide
  rw [List.map_flatMap, ← Multiset.coe_bind, Multiset.coe_range, tiles, hnames, copies_natCast hk]
  refine Multiset.bind_congr fun i _ => ?_
  rw [List.map_replicate, Multiset.coe_replicate, Option.getD_some]
  push_cast
  rfl

/-- The walls that a round of the GD game starts from. -/
theorem onGetCardTypeTable_perm {names : Nat → List N} (hnames : ∀ n, (names n).length = n) {rs : Nat → Nat × Nat}
    {wall : List V}
    (h : initMahjongPool some (onGetCardTypeTable.map fun kn => ((kn.1 : V), names kn.2)) rs = some wall) :
    wall.Perm (mahjongPool.map Nat.cast) :=
  Multiset.coe_eq_coe.mp ((initMahjongPool_perm h).1.trans (described_onGetCardTypeTable names hnames))

end

end Pool
end Mahjong
end Skynet
