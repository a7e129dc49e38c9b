import Mathlib.Data.List.Perm.Basic
import Skynet.Mahjong.RoundInv

/-!
# Skynet.Mahjong.Tiles

Where the 136 tiles are: in the wall, in the hands, in the melds and in the discard lists.

A discard that is claimed stays in the discard list of the player who made it. So a meld has the tiles that its owner
put into it (`ownCount`): with these no tile is lost and none is counted twice.

* `tiles_of_goes` : a step moves tiles, and keeps their multiset.
* `tiles_conserved` : so does a run.
* `out_ranks` : a discard has a rank of at most 100, since the players keep 9 tiles each.
-/

namespace Skynet
namespace Mahjong

variable {c : Config} {s t : State} {seat : Seat} {op : Op}

/-- The tiles of a round, where a meld with code `opValue` has `meldCount opValue` tiles. -/
def State.tiles (s : State) (meldCount : Nat → Nat) : List Nat :=
  s.pool ++ seats.flatMap fun i =>
    s.hand i ++ (s.handle i).flatMap (fun m => List.replicate (meldCount m.iOpValue) m.iCardValue) ++
      (s.out i).map Card.iCardValue

/-- The tiles that the owner of a meld put into it. -/
def ownCount (opValue : Nat) : Nat :=
  if isPeng opValue then 2 else if isAnGang opValue then 4 else 3

/-- The tiles that are shown in a meld. -/
def shownCount (opValue : Nat) : Nat := if isPeng opValue then 3 else 4

/-! ### Counting -/

def meldTiles (handle : List Op) (v : Nat) : Nat :=
  (handle.map fun m => if m.iCardValue = v then ownCount m.iOpValue else 0).sum

/-- The tiles `v` at a seat. -/
def State.at (s : State) (v : Nat) (i : Seat) : Nat :=
  (s.hand i).count v + meldTiles (s.handle i) v + ((s.out i).map Card.iCardValue).count v

def State.total (s : State) (v : Nat) : Nat := s.pool.count v + (seats.map (s.at v)).sum

theorem count_melds (handle : List Op) (v : Nat) :
    (handle.flatMap fun m => List.replicate (ownCount m.iOpValue) m.iCardValue).count v = meldTiles handle v := by
  induction handle with
  | nil => rfl
  | cons m ms ih =>
    rw [List.flatMap_cons, List.count_append, ih, List.count_replicate]
    simp only [beq_iff_eq, meldTiles, List.map_cons, List.sum_cons]

theorem count_tiles (s : State) (v : Nat) : (s.tiles ownCount).count v = s.total v := by
  simp only [State.tiles, State.total, State.at, seats, List.count_append, List.flatMap_cons, List.flatMap_nil,
    count_melds, List.map_cons, List.map_nil, List.sum_cons, List.sum_nil, List.count_nil]

/-- Only the tiles of one seat change. -/
theorem sum_seats {f g : Seat → Nat} (hseat : seat ∈ seats) (h : ∀ i, i ≠ seat → g i = f i) :
    (seats.map g).sum + f seat = (seats.map f).sum + g seat := by
  simp only [seats, List.mem_cons, List.not_mem_nil, or_false] at hseat
  simp only [seats, List.map_cons, List.map_nil, List.sum_cons, List.sum_nil]
  obtain rfl | rfl | rfl | rfl := hseat
  · rw [h 2 (by decide), h 3 (by decide), h 4 (by decide)]
    omega
  · rw [h 1 (by decide), h 3 (by decide), h 4 (by decide)]
    omega
  · rw [h 1 (by decide), h 2 (by decide), h 4 (by decide)]
    omega
  · rw [h 1 (by decide), h 2 (by decide), h 3 (by decide)]
    omega

/-- Tiles that move between the wall and one seat. -/
theorem total_eq {v : Nat} (hseat : seat ∈ seats) (h : ∀ i, i ≠ seat → t.at v i = s.at v i)
    (hmove : t.pool.count v + t.at v seat = s.pool.count v + s.at v seat) : t.total v = s.total v := by
  have hsum := sum_seats hseat h
  simp only [State.total]
  omega

theorem count_eraseTimes {card n : Nat} {hand : List Nat} (h : n ≤ hand.count card) (v : Nat) :
    (eraseTimes card n hand).count v + (if card = v then n else 0) = hand.count v := by
  induction n generalizing hand with
  | zero => simp [eraseTimes]
  | succ n ih =>
    have hcount : n ≤ (hand.erase card).count card := by
      rw [List.count_erase_self]
      omega
    have hrest := ih hcount
    rw [List.count_erase] at hrest
    rw [eraseTimes]
    by_cases hv : card = v
    · subst hv
      simp only [beq_self_eq_true, if_true] at hrest ⊢
      omega
    · have hv' : (card == v) = false := beq_false_of_ne hv
      simp only [hv, hv', Bool.false_eq_true, if_false] at hrest ⊢
      omega

/-- A peng that becomes a bu gang gets one tile. -/
theorem meldTiles_buGang {handle : List Op} {card : Nat} {m : Op} (hm : m ∈ handle) (he : m.iCardValue = card)
    (hp : isPeng m.iOpValue = true) (v : Nat) :
    meldTiles (meld handle ⟨BU_GANG, card⟩) v = meldTiles handle v + if card = v then 1 else 0 := by
  have hreplace : ∀ hs : List Op, m ∈ hs →
      meldTiles (replaceFirst (fun m => isPeng m.iOpValue && m.iCardValue == card) ⟨BU_GANG, card⟩ hs) v =
        meldTiles hs v + if card = v then 1 else 0 := by
    intro hs
    induction hs with
    | nil => exact fun hm => by cases hm
    | cons h hs ih =>
      intro hm
      rw [replaceFirst]
      split
      · rename_i hh
        simp only [Bool.and_eq_true, beq_iff_eq] at hh
        have hown : ownCount BU_GANG = 3 ∧ ownCount h.iOpValue = 2 := ⟨by decide, if_pos hh.1⟩
        simp only [meldTiles, List.map_cons, List.sum_cons, hown, hh.2]
        split
        · omega
        · omega
      · rename_i hh
        have hm' : m ∈ hs := by
          refine (List.mem_cons.mp hm).resolve_left fun e => hh ?_
          simp only [← e, hp, he, beq_self_eq_true, Bool.and_self]
        have hrest := ih hm'
        simp only [meldTiles, List.map_cons, List.sum_cons] at hrest ⊢
        omega
  have hmeld : meld handle ⟨BU_GANG, card⟩ =
      replaceFirst (fun m => isPeng m.iOpValue && m.iCardValue == card) ⟨BU_GANG, card⟩ handle :=
    if_pos buGang_code.2.2.2
  rw [hmeld]
  exact hreplace handle hm

theorem meldTiles_append (handle : List Op) (m : Op) (v : Nat) :
    meldTiles (handle ++ [m]) v = meldTiles handle v + if m.iCardValue = v then ownCount m.iOpValue else 0 := by
  simp only [meldTiles, List.map_append, List.sum_append, List.map_cons, List.map_nil, List.sum_cons, List.sum_nil]
  omega

/-! ### Steps -/

/-- An operation moves tiles from a hand to its meld. -/
theorem total_melded (s : State) (op : Op) (hseat : seat ∈ seats)
    (hcount : cardCount op.iOpValue ≤ (s.hand seat).count op.iCardValue)
    (hmeld : ∀ v, meldTiles (meld (s.handle seat) op) v =
      meldTiles (s.handle seat) v + if op.iCardValue = v then cardCount op.iOpValue else 0) (v : Nat) :
    (melded s seat op).total v = s.total v := by
  refine total_eq hseat ?_ ?_
  · intro i hi
    simp only [State.at, melded, Function.update_of_ne hi]
  · have herase := count_eraseTimes hcount v
    simp only [State.at, melded, Function.update_self, hmeld v]
    omega

theorem total_melded_peng {card : Nat} (s : State) (hseat : seat ∈ seats) (hcount : 2 ≤ (s.hand seat).count card)
    (v : Nat) : (melded s seat ⟨PENG, card⟩).total v = s.total v := by
  refine total_melded s ⟨PENG, card⟩ hseat ?_ (fun v => ?_) v
  · rw [cardCount_codes.1]
    exact hcount
  · have hmeld : meld (s.handle seat) ⟨PENG, card⟩ = s.handle seat ++ [⟨PENG, card⟩] :=
      if_neg (by rw [peng_code.2.2.2]; exact Bool.false_ne_true)
    have hown : ownCount PENG = 2 := by decide
    rw [hmeld, meldTiles_append, hown, cardCount_codes.1]

theorem total_melded_gang {card : Nat} (s : State) (hseat : seat ∈ seats) (hcount : 3 ≤ (s.hand seat).count card)
    (v : Nat) : (melded s seat ⟨GANG, card⟩).total v = s.total v := by
  refine total_melded s ⟨GANG, card⟩ hseat ?_ (fun v => ?_) v
  · rw [cardCount_codes.2.1]
    exact hcount
  · have hmeld : meld (s.handle seat) ⟨GANG, card⟩ = s.handle seat ++ [⟨GANG, card⟩] :=
      if_neg (by rw [gang_code.2.2.2]; exact Bool.false_ne_true)
    have hown : ownCount GANG = 3 := by decide
    rw [hmeld, meldTiles_append, hown, cardCount_codes.2.1]

theorem total_melded_buGang {card : Nat} {m : Op} (s : State) (hseat : seat ∈ seats) (hcard : card ∈ s.hand seat)
    (hm : m ∈ s.handle seat) (he : m.iCardValue = card) (hp : isPeng m.iOpValue = true) (v : Nat) :
    (melded s seat ⟨BU_GANG, card⟩).total v = s.total v := by
  refine total_melded s ⟨BU_GANG, card⟩ hseat ?_ (fun v => ?_) v
  · rw [cardCount_codes.2.2.2]
    exact List.count_pos_iff.mpr hcard
  · rw [cardCount_codes.2.2.2]
    exact meldTiles_buGang hm he hp v

/-- A discard moves a tile from a hand to the discard list. -/
theorem total_discarded {card : Nat} (s : State) (hseat : seat ∈ seats) (hcard : card ∈ s.hand seat) (v : Nat) :
    (discarded c s seat card).total v = s.total v := by
  refine total_eq hseat ?_ ?_
  · intro i hi
    simp only [State.at, discarded, State.stopTimer, Function.update_of_ne hi]
  · have hpos := List.count_pos_iff.mpr hcard
    simp only [State.at, discarded, State.stopTimer, Function.update_self, List.map_append, List.count_append,
      List.map_cons, List.map_nil, List.count_singleton, List.count_erase]
    by_cases hv : card = v
    · subst hv
      simp only [beq_self_eq_true, if_true]
      omega
    · have hv' : (card == v) = false := beq_false_of_ne hv
      simp only [hv', Bool.false_eq_true, if_false]
      omega

/-- A draw moves a tile from the wall to a hand. -/
theorem total_drawn {card : Nat} {pool : List Nat} (hseat : seat ∈ seats) (hpool : s.pool = card :: pool) (v : Nat) :
    (drawn c { s with pool := pool } seat card).total v = s.total v := by
  refine total_eq hseat ?_ ?_
  · intro i hi
    simp only [State.at, drawn, Function.update_of_ne hi]
  · simp only [State.at, drawn, Function.update_self, hpool, List.count_append, List.count_cons, List.count_nil]
    omega

/-- The deal moves tiles from the wall to the hands. -/
theorem count_dealt (pool : List Nat) (hand : Seat → List Nat) {is : List Seat} (hnd : is.Nodup) (v : Nat) :
    (dealt pool hand is).1.count v + (is.map fun i => ((dealt pool hand is).2 i).count v).sum =
      pool.count v + (is.map fun i => (hand i).count v).sum := by
  induction is generalizing pool hand with
  | nil => rfl
  | cons i is ih =>
    obtain ⟨hi, hnd⟩ := List.nodup_cons.mp hnd
    have hrest := ih (pool.drop iDealCardCount) (Function.update hand i (hand i ++ pool.take iDealCardCount)) hnd
    have hsame : (is.map fun j =>
        (Function.update hand i (hand i ++ pool.take iDealCardCount) j).count v) =
        is.map fun j => (hand j).count v := by
      refine List.map_congr_left fun j hj => ?_
      rw [Function.update_of_ne fun h => hi (by rw [← h]; exact hj)]
    have hsplit : pool.count v = (pool.take iDealCardCount).count v + (pool.drop iDealCardCount).count v := by
      rw [← List.count_append, List.take_append_drop]
    rw [hsame] at hrest
    rw [dealt, List.map_cons, List.sum_cons, List.map_cons, List.sum_cons, dealt_frame hi, Function.update_self,
      List.count_append]
    omega

theorem total_of_stay {l : Label} (h : Stay c s l t) (v : Nat) : t.total v = s.total v := by
  cases h with
  | aside => rfl
  | decline => rfl
  | deal hs hix =>
    rw [procNextProgress_deal (s := s.stopTimer .makeBanker) hix]
    have hdeal := count_dealt s.pool s.hand (show seats.Nodup by decide) v
    simp only [State.total, State.at, seats, List.map_cons, List.map_nil, List.sum_cons, List.sum_nil,
      processDealCards, State.startTimer, State.stopTimer] at hdeal ⊢
    omega
  | begin hs hix =>
    rw [procNextProgress_begin (s := s.stopTimer .dealCards) hix]
    rfl
  | claim hp hturn hwho hcard he hop =>
    subst he
    exact total_discarded (c := c) s hp.cur hcard v
  | passDraw hp hs hpass he =>
    subst he
    rfl
  | stale => rfl
  | peng hp hseat hs hne hcount htake he =>
    subst he
    exact total_melded_peng (operating s _) hseat hcount v
  | buGang hp hs hv hm he hpeng htake hu hop =>
    subst hu
    exact total_melded_buGang (operating s _) hp.cur hv hm he hpeng v

theorem total_of_turn {l : Label} (h : Turn c s l t seat) (v : Nat) : t.total v = s.total v := by
  cases h with
  | first => rfl
  | discard hp hturn hwho hcard he hop =>
    subst he
    exact total_discarded (c := c) s hp.cur hcard v
  | passOut => rfl
  | passBuGang => rfl
  | gang hp hseat hs hne hcount htake he =>
    subst he
    exact total_melded_gang (operating s _) hseat hcount v
  | buGang hp hs hv hm he hpeng htake hu hop =>
    subst hu
    exact total_melded_buGang (operating s _) hp.cur hv hm he hpeng v

/-- A step keeps the multiset of the tiles. -/
theorem total_of_goes {l : Label} (hi : Inv s) (h : Goes c s l t) (v : Nat) : t.total v = s.total v := by
  cases h with
  | stay hst => exact total_of_stay hst v
  | draw hturn hpool =>
    rw [total_drawn (ready_of_turn hi hturn).seat_mem hpool v]
    exact total_of_turn hturn v

theorem total_onGameStart (c : Config) (pool : List Nat) (money : Seat → Int) (v : Nat) :
    (onGameStart c pool money).total v = pool.count v := by
  simp [State.total, State.at, seats, onGameStart, procNextProgress, processMakeBanker, State.broadcast,
    State.startTimer, meldTiles]

/-- The tiles of the wall, of the hands and of the discard lists, with those that each player put into its melds, are
the tiles of the game. -/
theorem tiles_conserved (c : Config) (pool : List Nat) (hpool : pool.Perm mahjongPool) (money : Seat → Int)
    (ls : List Label) (t : State) (hrun : Lts.run (step c) (onGameStart c pool money) ls = some t)
    (hret : Lts.Guarded (step c) (Returns c) (onGameStart c pool money) ls) (hover : t.finished = false) :
    (t.tiles ownCount).Perm mahjongPool := by
  have hinv : t.finished = true ∨ Inv t ∧ ∀ v, t.total v = pool.count v := by
    refine round_invariant (P := fun t => ∀ v, t.total v = pool.count v) (G := fun _ _ => True) ?_
      (inv_onGameStart c hpool money) (total_onGameStart c pool money) hrun ?_
    · intro s l t hi hs _ hgo v
      rw [total_of_goes hi hgo, hs]
    · exact hret.imp fun s l h => ⟨h, trivial⟩
  rw [hover] at hinv
  obtain ⟨-, htotal⟩ := hinv.resolve_left Bool.false_ne_true
  refine List.Perm.trans (List.perm_iff_count.mpr fun v => ?_) hpool
  rw [count_tiles, htotal]

/-- A peng of the tile 3, with the discarded tile still in the discard list. -/
def claimOfThree : List Label :=
  opening ++ ([.outCard 101 0x07, .outCard 102 0x03, .takeOperation 101 0x08 0x03] : List Label)

theorem tiles_conserved_claimOfThree : ∃ t, Lts.run (step room) (stackedStart [0x07, 0x03]) claimOfThree = some t ∧
    t.handle 1 = [⟨PENG, 3⟩] ∧ (t.tiles ownCount).Perm mahjongPool := by
  have htest : Lts.check (step room) (returns room) (fun t => !t.finished && decide (t.handle 1 = [⟨PENG, 3⟩]))
      (stackedStart [0x07, 0x03]) claimOfThree = true := by decide +kernel
  obtain ⟨t, hrun, hret, ht⟩ := Lts.of_check (fun _ _ => returns_of_test) htest
  simp only [Bool.and_eq_true, Bool.not_eq_true', decide_eq_true_eq] at ht
  exact ⟨t, hrun, ht.2, tiles_conserved room _ (stacked_perm (by decide)) _ _ t hrun hret ht.1⟩

/-- With three tiles for a peng, the claimed discard is counted twice. -/
theorem claimed_discard_counted_twice : ¬ ∀ (c : Config) (pool : List Nat) (money : Seat → Int) (ls : List Label)
    (t : State), pool.Perm mahjongPool → Lts.run (step c) (onGameStart c pool money) ls = some t →
    t.finished = false → (t.tiles shownCount).Perm mahjongPool := by
  intro h
  have htest : Lts.check (step room) (fun _ _ => true)
      (fun t => !t.finished && decide ((t.tiles shownCount).length = 137)) (stackedStart [0x07, 0x03]) claimOfThree =
      true := by decide +kernel
  obtain ⟨t, hrun, -, ht⟩ := Lts.of_check (G := fun _ _ => True) (fun _ _ _ => trivial) htest
  simp only [Bool.and_eq_true, Bool.not_eq_true', decide_eq_true_eq] at ht
  have hlen := (h room _ _ _ t (stacked_perm (by decide)) hrun ht.1).length_eq
  rw [ht.2, length_mahjongPool] at hlen
  cases hlen

/-! ### Ranks -/

/-- The discards are numbered in order. -/
def Ranked (s : State) : Prop :=
  s.outCardNum = (seats.map fun i => (s.out i).length).sum ∧ ∀ i, ∀ card ∈ s.out i, card.iRank ≤ s.outCardNum

theorem ranked_discarded {card : Nat} (hseat : seat ∈ seats) (h : Ranked s) : Ranked (discarded c s seat card) := by
  refine ⟨?_, ?_⟩
  · have hsum := sum_seats (f := fun i => (s.out i).length)
      (g := fun i => ((discarded c s seat card).out i).length) hseat
      (fun i hi => by simp only [discarded, State.stopTimer, Function.update_of_ne hi])
    have hself : ((discarded c s seat card).out seat).length = (s.out seat).length + 1 := by
      simp only [discarded, State.stopTimer, Function.update_self, List.length_append, List.length_singleton]
    have hnum : (discarded c s seat card).outCardNum = s.outCardNum + 1 := rfl
    rw [hself] at hsum
    rw [hnum, h.1]
    omega
  · intro i v hv
    change v.iRank ≤ s.outCardNum + 1
    simp only [discarded, State.stopTimer, Function.update_apply] at hv
    split at hv
    · obtain hv | hv := List.mem_append.mp hv
      · exact Nat.le_succ_of_le (h.2 seat v hv)
      · cases List.mem_singleton.mp hv
        exact Nat.le_refl _
    · exact Nat.le_succ_of_le (h.2 i v hv)

theorem ranked_of_turn {l : Label} (h : Turn c s l t seat) (hr : Ranked s) : Ranked t := by
  cases h with
  | first => exact hr
  | discard hp hturn hwho hcard he hop =>
    subst he
    exact ranked_discarded (c := c) (s := s) hp.cur hr
  | passOut => exact hr
  | passBuGang => exact hr
  | gang hp hseat hs hne hcount htake he =>
    subst he
    exact hr
  | buGang hp hs hv hm he hpeng htake hu hop =>
    subst hu
    exact hr

theorem ranked_of_goes {l : Label} (h : Goes c s l t) (hr : Ranked s) : Ranked t := by
  cases h with
  | draw hturn hpool =>
    have hu := ranked_of_turn hturn hr
    exact hu
  | stay hst =>
    cases hst with
    | aside => exact hr
    | decline => exact hr
    | deal hs hix =>
      rw [procNextProgress_deal (s := s.stopTimer .makeBanker) hix]
      exact hr
    | begin hs hix =>
      rw [procNextProgress_begin (s := s.stopTimer .dealCards) hix]
      exact hr
    | claim hp hturn hwho hcard he hop =>
      subst he
      exact ranked_discarded (c := c) (s := s) hp.cur hr
    | passDraw hp hs hpass he =>
      subst he
      exact hr
    | stale => exact hr
    | peng hp hseat hs hne hcount htake he =>
      subst he
      exact hr
    | buGang hp hs hv hm he hpeng htake hu hop =>
      subst hu
      exact hr

theorem ranked_onGameStart (c : Config) (pool : List Nat) (money : Seat → Int) : Ranked (onGameStart c pool money) :=
  ⟨rfl, fun _ _ h => by cases h⟩

theorem length_melds (handle : List Op) :
    2 * handle.length ≤ (handle.flatMap fun m => List.replicate (ownCount m.iOpValue) m.iCardValue).length := by
  induction handle with
  | nil => exact Nat.le_refl _
  | cons m ms ih =>
    have hown : 2 ≤ ownCount m.iOpValue := by
      unfold ownCount
      split
      · omega
      · split <;> omega
    rw [List.flatMap_cons, List.length_append, List.length_replicate, List.length_cons]
    omega

/-- The players keep 9 tiles each, with four melds. -/
theorem outCardNum_le {pool : List Nat} (hpool : pool.Perm mahjongPool) (htotal : ∀ v, s.total v = pool.count v)
    (hr : Ranked s) (hsize : ∀ i ∈ seats, s.size i = 13 ∨ s.size i = 14) : s.outCardNum ≤ 100 := by
  have hperm : (s.tiles ownCount).Perm mahjongPool := by
    refine List.Perm.trans (List.perm_iff_count.mpr fun v => ?_) hpool
    rw [count_tiles, htotal]
  have hlen : (s.tiles ownCount).length = 136 := by rw [hperm.length_eq, length_mahjongPool]
  have hown : ∀ i ∈ seats, 9 ≤ (s.hand i).length +
      ((s.handle i).flatMap fun m => List.replicate (ownCount m.iOpValue) m.iCardValue).length := by
    intro i hi
    have hi' := hsize i hi
    have hmelds := length_melds (s.handle i)
    rw [State.size] at hi'
    omega
  have h1 := hown 1 (by decide)
  have h2 := hown 2 (by decide)
  have h3 := hown 3 (by decide)
  have h4 := hown 4 (by decide)
  simp only [State.tiles, seats, List.flatMap_cons, List.flatMap_nil, List.length_append, List.length_nil,
    List.length_map] at hlen
  rw [hr.1]
  simp only [seats, List.map_cons, List.map_nil, List.sum_cons, List.sum_nil]
  omega

theorem out_ranks {pool : List Nat} (hpool : pool.Perm mahjongPool) (htotal : ∀ v, s.total v = pool.count v)
    (hr : Ranked s) (hsize : ∀ i ∈ seats, s.size i = 13 ∨ s.size i = 14) :
    (seats.all fun i => (s.out i).all fun card => byteFits card.iRank) = true := by
  have hnum := outCardNum_le hpool htotal hr hsize
  simp only [List.all_eq_true]
  intro i _ card hcard
  have hrank := hr.2 i card hcard
  simp only [byteFits, decide_eq_true_eq]
  omega

/-- What is counted in a round that has not been stopped. Gangs are recorded after the first draw. -/
structure Counted (pool : List Nat) (s : State) : Prop where
  total : ∀ v, s.total v = pool.count v
  ranked : Ranked s
  early : s.status = .none ∨ s.status = .drawCard → s.gangs = []

theorem early_of_goes {l : Label} (h : Goes c s l t) (he : s.status = .none ∨ s.status = .drawCard → s.gangs = []) :
    t.status = .none ∨ t.status = .drawCard → t.gangs = [] := by
  cases h with
  | @draw u seat card pool hturn hpool =>
    have hstatus : (drawn c { u with pool := pool } seat card).status = .opDrawCard ∨
        (drawn c { u with pool := pool } seat card).status = .outCard := by
      simp only [drawn]
      split
      · exact .inl rfl
      · exact .inr rfl
    intro ht
    obtain h | h := hstatus <;> rw [h] at ht <;> simp at ht
  | stay hst =>
    cases hst with
    | aside => exact he
    | decline => exact he
    | deal hs hix =>
      rw [procNextProgress_deal (s := s.stopTimer .makeBanker) hix]
      exact fun _ => he (.inl hs)
    | begin hs hix =>
      rw [procNextProgress_begin (s := s.stopTimer .dealCards) hix]
      exact fun _ => he (.inl hs)
    | claim => exact fun ht => by obtain h | h := ht <;> cases h
    | passDraw _ _ _ hu =>
      subst hu
      exact fun ht => by obtain h | h := ht <;> cases h
    | stale => exact he
    | peng => exact fun ht => by obtain h | h := ht <;> cases h
    | buGang => exact fun ht => by obtain h | h := ht <;> cases h

theorem counted_of_goes {pool : List Nat} {l : Label} (hi : Inv s) (hc : Counted pool s) (h : Goes c s l t) :
    Counted pool t :=
  ⟨fun v => (total_of_goes hi h v).trans (hc.total v), ranked_of_goes h hc.ranked, early_of_goes h hc.early⟩

theorem counted_onGameStart (c : Config) (pool : List Nat) (money : Seat → Int) :
    Counted pool (onGameStart c pool money) :=
  ⟨total_onGameStart c pool money, ranked_onGameStart c pool money, fun _ => rfl⟩

end Mahjong
end Skynet
