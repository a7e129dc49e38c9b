import Mathlib.Algebra.Order.Group.Nat
import Mathlib.Algebra.Order.BigOperators.Group.List
import Mathlib.Data.List.Dedup
import Skynet.Mahjong.Turns

/-!
# Skynet.Mahjong.Gangs

The table of the gangs of a round (`iGangTurnMoneyTable`) against the gangs that were carried out.

`onDealGangTurnMoney` tests for a bu gang twice, so a ming gang gets no entry. Without ming gangs, and without an gangs
(which raise an error), the table is right: a robbed bu gang is the last entry, and it is removed.

* `Accounts` : the table and the melds, while nothing is settled.
* `gangs_accounted` : the table at the settlement.
-/

namespace Skynet
namespace Mahjong

variable {c : Config} {s t : State} {seat : Seat} {op : Op} {pool : List Nat}

/-- An entry of the table, without its money. -/
def GangInfo.gang (v : GangInfo) : Gang := ⟨v.iSeatId, v.iTSeatId, ⟨v.iOpValue, v.iCardValue⟩⟩

/-- The gangs that were carried out, but for the robbed ones. -/
def State.standing (s : State) : List Gang :=
  s.carried.filter fun g => !(isBuGang g.op.iOpValue && s.robbed.contains (g.seat, g.op.iCardValue))

/-- No ming gang and no an gang is carried out, and the round is not settled yet. -/
def NoMingGang (c : Config) (s : State) (l : Label) : Prop :=
  s.settled = [] ∧ ∀ seat v, taking c s l ≠ some (seat, ⟨GANG, v⟩) ∧ taking c s l ≠ some (seat, ⟨AN_GANG, v⟩)

structure Accounts (s : State) : Prop where
  table : s.gangs.map GangInfo.gang = s.carried
  robbed : s.robbed = []
  codes : ∀ g ∈ s.carried, g.op.iOpValue = BU_GANG
  melds : ∀ i, ∀ m ∈ s.handle i, m.iOpValue = PENG ∨ m.iOpValue = BU_GANG
  once : ∀ i v, (s.carried.countP fun g => g.seat = i ∧ g.op.iCardValue = v) = (s.handle i).count ⟨BU_GANG, v⟩
  last : s.status = .opBuGangCard → ∃ v, s.gangs.getLast? = some v ∧ v.iSeatId = s.curSeat

/-! ### Bu gangs -/

theorem map_setLastDone {done : Bool} {vs ws : List GangInfo} (h : setLastDone done vs = some ws) :
    ws.map GangInfo.gang = vs.map GangInfo.gang := by
  induction vs generalizing ws with
  | nil => cases h
  | cons v vs ih =>
    cases vs with
    | nil =>
      cases h
      rfl
    | cons w vs =>
      simp only [setLastDone, Option.map_eq_some_iff] at h
      obtain ⟨us, hus, rfl⟩ := h
      rw [List.map_cons, ih hus]
      rfl

theorem count_meld_buGang {handle : List Op} {card : Nat} {m : Op}
    (hcodes : ∀ m ∈ handle, m.iOpValue = PENG ∨ m.iOpValue = BU_GANG) (hm : m ∈ handle)
    (he : m.iCardValue = card) (hp : isPeng m.iOpValue = true) (v : Nat) :
    (meld handle ⟨BU_GANG, card⟩).count ⟨BU_GANG, v⟩ =
      handle.count ⟨BU_GANG, v⟩ + if card = v then 1 else 0 := by
  have hreplace : ∀ hs : List Op, (∀ m ∈ hs, m.iOpValue = PENG ∨ m.iOpValue = BU_GANG) → m ∈ hs →
      (replaceFirst (fun m => isPeng m.iOpValue && m.iCardValue == card) ⟨BU_GANG, card⟩ hs).count ⟨BU_GANG, v⟩ =
        hs.count ⟨BU_GANG, v⟩ + if card = v then 1 else 0 := by
    intro hs
    induction hs with
    | nil => exact fun _ hm => by cases hm
    | cons h hs ih =>
      intro hcodes hm
      rw [replaceFirst]
      split
      · rename_i hh
        simp only [Bool.and_eq_true, beq_iff_eq] at hh
        have hpeng : h.iOpValue = PENG := by
          refine (hcodes h (List.mem_cons_self ..)).resolve_right fun hb => ?_
          rw [hb, buGang_code.1] at hh
          cases hh.1
        have hne : h ≠ ⟨BU_GANG, v⟩ := by
          intro e
          rw [e] at hpeng
          cases hpeng
        rw [List.count_cons_of_ne hne, List.count_cons]
        simp only [beq_iff_eq, Op.mk.injEq, true_and]
      · rename_i hh
        have hm' : m ∈ hs := by
          refine (List.mem_cons.mp hm).resolve_left fun e => hh ?_
          simp only [← e, hp, he, beq_self_eq_true, Bool.and_self]
        have hrest := ih (fun m hm => hcodes m (List.mem_cons_of_mem _ hm)) hm'
        rw [List.count_cons, List.count_cons, hrest]
        omega
  have hmeld : meld handle ⟨BU_GANG, card⟩ =
      replaceFirst (fun m => isPeng m.iOpValue && m.iCardValue == card) ⟨BU_GANG, card⟩ handle :=
    if_pos buGang_code.2.2.2
  rw [hmeld]
  exact hreplace handle hcodes hm

theorem mem_replaceFirst {p : Op → Bool} {m h : Op} {hs : List Op} (hm : h ∈ replaceFirst p m hs) :
    h = m ∨ h ∈ hs := by
  induction hs with
  | nil => cases hm
  | cons k hs ih =>
    rw [replaceFirst] at hm
    split at hm
    · obtain rfl | hm := List.mem_cons.mp hm
      · exact .inl rfl
      · exact .inr (List.mem_cons_of_mem _ hm)
    · obtain rfl | hm := List.mem_cons.mp hm
      · exact .inr (List.mem_cons_self ..)
      · exact (ih hm).imp_right (List.mem_cons_of_mem _)

/-- A bu gang gets its entry. -/
theorem accounts_buGang {v : Nat} {m : Op} (offers : Option (Seat → Offer)) (ha : Accounts s)
    (hm : m ∈ s.handle s.curSeat) (he : m.iCardValue = v) (hp : isPeng m.iOpValue = true) :
    let u := buGanged c (operating s offers) s.curSeat v
    u.gangs.map GangInfo.gang = u.carried ∧ (∀ g ∈ u.carried, g.op.iOpValue = BU_GANG) ∧
      (∀ i, ∀ m ∈ u.handle i, m.iOpValue = PENG ∨ m.iOpValue = BU_GANG) ∧
      ∀ i w, (u.carried.countP fun g => g.seat = i ∧ g.op.iCardValue = w) = (u.handle i).count ⟨BU_GANG, w⟩ := by
  have hcarried : (buGanged c (operating s offers) s.curSeat v).carried =
      s.carried ++ [⟨s.curSeat, s.curSeat, ⟨BU_GANG, v⟩⟩] :=
    if_pos (by rw [buGang_code.2.2.2, Bool.or_true, Bool.true_or])
  have hhandle : (buGanged c (operating s offers) s.curSeat v).handle =
      Function.update s.handle s.curSeat (meld (s.handle s.curSeat) ⟨BU_GANG, v⟩) := rfl
  simp only [hcarried, hhandle]
  refine ⟨?_, ?_, ?_, ?_⟩
  · change (s.gangs ++ [buGangInfo c s.curSeat s.curSeat v]).map GangInfo.gang = _
    rw [List.map_append, ha.table]
    rfl
  · intro g hg
    obtain hg | hg := List.mem_append.mp hg
    · exact ha.codes g hg
    · rw [List.mem_singleton.mp hg]
  · intro i h hmem
    rw [Function.update_apply] at hmem
    split at hmem
    · rw [meld, if_pos buGang_code.2.2.2] at hmem
      obtain rfl | hmem := mem_replaceFirst hmem
      · exact .inr rfl
      · exact ha.melds _ h hmem
    · exact ha.melds i h hmem
  · intro i w
    rw [List.countP_append, ha.once i w, List.countP_singleton, Function.update_apply]
    by_cases hi : i = s.curSeat
    · subst hi
      rw [if_pos rfl, count_meld_buGang (ha.melds _) hm he hp]
      simp only [true_and, decide_eq_true_eq]
    · rw [if_neg hi]
      have hi' : ¬ s.curSeat = i := fun h => hi h.symm
      simp only [hi', false_and, decide_false, Bool.false_eq_true, if_false, Nat.add_zero]

theorem accounts_of_stay {l : Label} (h : Stay c s l t) (ha : Accounts s) : Accounts t := by
  cases h with
  | aside => exact ⟨ha.table, ha.robbed, ha.codes, ha.melds, ha.once, ha.last⟩
  | decline => exact ⟨ha.table, ha.robbed, ha.codes, ha.melds, ha.once, ha.last⟩
  | deal hs hix =>
    rw [procNextProgress_deal (s := s.stopTimer .makeBanker) hix]
    exact ⟨ha.table, ha.robbed, ha.codes, ha.melds, ha.once, ha.last⟩
  | begin hs hix =>
    rw [procNextProgress_begin (s := s.stopTimer .dealCards) hix]
    exact ⟨ha.table, ha.robbed, ha.codes, ha.melds, ha.once, nofun⟩
  | claim hp hturn hdisc hcard he hop =>
    subst he
    exact ⟨ha.table, ha.robbed, ha.codes, ha.melds, ha.once, nofun⟩
  | passDraw hp hs hpass he =>
    subst he
    exact ⟨ha.table, ha.robbed, ha.codes, ha.melds, ha.once, nofun⟩
  | stale hp hs => exact ⟨ha.table, ha.robbed, ha.codes, ha.melds, ha.once, ha.last⟩
  | @peng l seat offers u hp hseat hs hne hcount htake he =>
    subst he
    have hcarried : (melded (operating s offers) seat ⟨PENG, s.lastOut⟩).carried = s.carried :=
      if_neg (by rw [peng_code.2.1, peng_code.2.2.1, peng_code.2.2.2]; decide)
    have hmeld : meld (s.handle seat) ⟨PENG, s.lastOut⟩ = s.handle seat ++ [⟨PENG, s.lastOut⟩] :=
      if_neg (by rw [peng_code.2.2.2]; exact Bool.false_ne_true)
    refine ⟨ha.table.trans hcarried.symm, ha.robbed, ?_, ?_, ?_, nofun⟩
    · intro g hg
      have hg' : g ∈ s.carried := hcarried ▸ hg
      exact ha.codes g hg'
    · intro i m hm
      change m ∈ Function.update s.handle seat (meld (s.handle seat) ⟨PENG, s.lastOut⟩) i at hm
      rw [Function.update_apply, hmeld] at hm
      split at hm
      · obtain hm | hm := List.mem_append.mp hm
        · exact ha.melds _ m hm
        · rw [List.mem_singleton.mp hm]
          exact .inl rfl
      · exact ha.melds i m hm
    · intro i v
      change List.countP _ (melded (operating s offers) seat ⟨PENG, s.lastOut⟩).carried =
        (Function.update s.handle seat (meld (s.handle seat) ⟨PENG, s.lastOut⟩) i).count ⟨BU_GANG, v⟩
      rw [hcarried, ha.once i v, Function.update_apply, hmeld]
      split
      · rename_i hi
        have hne : (⟨PENG, s.lastOut⟩ : Op) ≠ ⟨BU_GANG, v⟩ := by
          intro e
          cases e
        rw [hi, List.count_append, List.count_singleton, beq_false_of_ne hne]
        rfl
      · rfl
  | @buGang l v m offers u hp hs hv hm he hpeng htake hu hop =>
    subst hu
    obtain ⟨htable, hcodes, hmelds, honce⟩ := accounts_buGang (c := c) offers ha hm he hpeng
    refine ⟨?_, ha.robbed, hcodes, hmelds, honce, fun _ => ⟨_, List.getLast?_concat .., rfl⟩⟩
    rw [← htable]
    change (s.gangs ++ [{ buGangInfo c s.curSeat s.curSeat v with iIsDone := false }]).map GangInfo.gang =
      (s.gangs ++ [buGangInfo c s.curSeat s.curSeat v]).map GangInfo.gang
    rw [List.map_append, List.map_append]
    rfl

theorem accounts_of_turn {l : Label} (h : Turn c s l t seat) (ha : Accounts s) (hno : NoMingGang c s l) :
    Accounts t := by
  cases h with
  | first => exact ⟨ha.table, ha.robbed, ha.codes, ha.melds, ha.once, ha.last⟩
  | discard hp hturn hdisc hcard he hop =>
    subst he
    exact ⟨ha.table, ha.robbed, ha.codes, ha.melds, ha.once, nofun⟩
  | passOut => exact ⟨ha.table, ha.robbed, ha.codes, ha.melds, ha.once, nofun⟩
  | passBuGang hp hs hpass hg =>
    exact ⟨(map_setLastDone hg).trans ha.table, ha.robbed, ha.codes, ha.melds, ha.once, nofun⟩
  | gang hp hseat hs hne hcount htake he => exact absurd htake (hno.2 _ _).1
  | @buGang l v m offers u hp hs hv hm he hpeng htake hu hop =>
    subst hu
    obtain ⟨htable, hcodes, hmelds, honce⟩ := accounts_buGang (c := c) offers ha hm he hpeng
    exact ⟨htable, ha.robbed, hcodes, hmelds, honce, nofun⟩

theorem accounts_drawn {card : Nat} {rest : List Nat} (ha : Accounts s) :
    Accounts (drawn c { s with pool := rest } seat card) := by
  refine ⟨ha.table, ha.robbed, ha.codes, ha.melds, ha.once, ?_⟩
  intro hs
  simp only [drawn] at hs
  split at hs <;> cases hs

/-! ### Copies of a tile -/

theorem count_copies (vs : List Nat) (n v : Nat) : (vs.flatMap (List.replicate n)).count v = n * vs.count v := by
  induction vs with
  | nil => rfl
  | cons w vs ih =>
    rw [List.flatMap_cons, List.count_append, ih, List.count_replicate, List.count_cons, Nat.mul_add]
    split <;> omega

theorem count_mahjongPool (v : Nat) : mahjongPool.count v ≤ 4 := by
  have hpool : mahjongPool = mahjongPool.dedup.flatMap (List.replicate 4) := by decide +kernel
  have hone := List.nodup_iff_count.mp (List.nodup_dedup mahjongPool) v
  rw [hpool, count_copies]
  omega

theorem at_buGang (s : State) (v : Nat) (i : Seat) : 3 * (s.handle i).count ⟨BU_GANG, v⟩ ≤ s.at v i := by
  have hmelds : ∀ hs : List Op, 3 * hs.count ⟨BU_GANG, v⟩ ≤ meldTiles hs v := by
    intro hs
    induction hs with
    | nil => exact Nat.le_refl _
    | cons h hs ih =>
      rw [List.count_cons]
      simp only [meldTiles, List.map_cons, List.sum_cons, beq_iff_eq] at ih ⊢
      split
      · rename_i he
        have hown : ownCount BU_GANG = 3 := by decide
        rw [he, if_pos rfl, hown]
        omega
      · omega
  have hle := hmelds (s.handle i)
  rw [State.at]
  omega

theorem le_sum_seats {f : Seat → Nat} {i j : Seat} (hi : i ∈ seats) (hj : j ∈ seats) (hne : i ≠ j) :
    f i + f j ≤ (seats.map f).sum := by
  simp only [seats, List.mem_cons, List.not_mem_nil, or_false] at hi hj
  simp only [seats, List.map_cons, List.map_nil, List.sum_cons, List.sum_nil]
  obtain rfl | rfl | rfl | rfl := hi <;> obtain rfl | rfl | rfl | rfl := hj <;>
    first
    | exact absurd rfl hne
    | omega

/-- Two players cannot both have a bu gang of a tile. -/
theorem buGang_seat {i j : Seat} {v : Nat} (hpool : pool.Perm mahjongPool) (htotal : ∀ v, s.total v = pool.count v)
    (hi : i ∈ seats) (hj : j ∈ seats) (hone : 0 < (s.handle i).count ⟨BU_GANG, v⟩)
    (hone' : 0 < (s.handle j).count ⟨BU_GANG, v⟩) : i = j := by
  by_contra hne
  have hfour : s.total v ≤ 4 := by
    rw [htotal, hpool.count_eq]
    exact count_mahjongPool v
  have hsum := le_sum_seats (f := s.at v) hi hj hne
  have hai := at_buGang s v i
  have haj := at_buGang s v j
  rw [State.total] at hfour
  omega

theorem count_buGang_le {i : Seat} {v : Nat} (hpool : pool.Perm mahjongPool)
    (htotal : ∀ v, s.total v = pool.count v) (hi : i ∈ seats) : (s.handle i).count ⟨BU_GANG, v⟩ ≤ 1 := by
  have hfour : s.total v ≤ 4 := by
    rw [htotal, hpool.count_eq]
    exact count_mahjongPool v
  have hle : s.at v i ≤ (seats.map (s.at v)).sum := List.le_sum_of_mem (List.mem_map_of_mem hi)
  have hai := at_buGang s v i
  rw [State.total] at hfour
  omega

/-! ### The settlement -/

theorem standing_of_robbed_nil (h : s.robbed = []) : s.standing = s.carried := by
  rw [State.standing, h]
  simp

theorem mem_robbedSeats {v : Nat} (ha : Accounts s) (k : Seat) :
    k ∈ robbedSeats s v ↔ k ∈ seats ∧ 0 < (s.handle k).count ⟨BU_GANG, v⟩ := by
  simp only [robbedSeats, List.mem_filter, List.any_eq_true, Bool.and_eq_true, beq_iff_eq, List.count_pos_iff]
  refine and_congr_right fun _ => ⟨?_, fun h => ⟨_, h, buGang_code.2.2.2, rfl⟩⟩
  rintro ⟨m, hm, hbu, he⟩
  have hcode : m.iOpValue = BU_GANG := by
    refine (ha.melds k m hm).resolve_left fun hp => ?_
    rw [hp, peng_code.2.2.2] at hbu
    cases hbu
  have heq : m = ⟨BU_GANG, v⟩ := by
    rw [← hcode, ← he]
  rw [← heq]
  exact hm

/-- The entry of the robbed bu gang is the last one, and there is no other of its seat and tile. -/
theorem standing_of_rob {v : GangInfo} {offers : Option (Seat → Offer)} (hpool : pool.Perm mahjongPool)
    (htotal : ∀ v, s.total v = pool.count v) (hp : Playing s) (hs : s.status = .opBuGangCard) (ha : Accounts s)
    (hv : s.gangs.getLast? = some v) :
    let u := onDealClientUserHu c (operating s offers) seat ⟨QIANGGANGHU, v.iCardValue⟩
    u.gangs.map GangInfo.gang = u.standing := by
  have hcode : isQiangGangHu QIANGGANGHU = true := by decide
  obtain ⟨w, hw, hseat⟩ := ha.last hs
  rw [hv] at hw
  cases hw
  have hsplit : s.gangs = s.gangs.dropLast ++ [v] := (List.dropLast_append_getLast? v hv).symm
  have hcarried : s.carried = s.gangs.dropLast.map GangInfo.gang ++ [v.gang] := by
    rw [← ha.table]
    conv_lhs => rw [hsplit]
    rw [List.map_append]
    rfl
  have hcur : 0 < (s.handle s.curSeat).count ⟨BU_GANG, v.iCardValue⟩ := by
    rw [← ha.once, hcarried, List.countP_append, List.countP_singleton, if_pos]
    · omega
    · exact decide_eq_true ⟨hseat, rfl⟩
  have honly : ∀ k, k ∈ robbedSeats s v.iCardValue ↔ k = s.curSeat := by
    intro k
    rw [mem_robbedSeats ha]
    refine ⟨fun h => buGang_seat hpool htotal h.1 hp.cur h.2 hcur, ?_⟩
    rintro rfl
    exact ⟨hp.cur, hcur⟩
  have hrobbed : ∀ g : Gang, ((robbedSeats s v.iCardValue).map fun k => (k, v.iCardValue)).contains
      (g.seat, g.op.iCardValue) = true ↔ g.seat = s.curSeat ∧ g.op.iCardValue = v.iCardValue := by
    intro g
    simp only [List.contains_iff_mem, List.mem_map, Prod.mk.injEq]
    constructor
    · rintro ⟨k, hk, rfl, hc⟩
      exact ⟨(honly _).mp hk, hc.symm⟩
    · rintro ⟨hg, hc⟩
      exact ⟨g.seat, (honly _).mpr hg, rfl, hc.symm⟩
  have hkeep : ∀ g ∈ s.gangs.dropLast.map GangInfo.gang,
      ¬ (g.seat = s.curSeat ∧ g.op.iCardValue = v.iCardValue) := by
    intro g hg hsame
    have hle := count_buGang_le (v := v.iCardValue) hpool htotal hp.cur
    rw [← ha.once, hcarried, List.countP_append, List.countP_singleton,
      if_pos (decide_eq_true ⟨hseat, rfl⟩)] at hle
    have hpos := List.countP_pos_iff (p := fun g : Gang =>
      decide (g.seat = s.curSeat ∧ g.op.iCardValue = v.iCardValue)).mpr ⟨g, hg, decide_eq_true hsame⟩
    omega
  have hstanding : State.standing (onDealClientUserHu c (operating s offers) seat ⟨QIANGGANGHU, v.iCardValue⟩) =
      s.carried.filter fun g => !(isBuGang g.op.iOpValue &&
        ((robbedSeats s v.iCardValue).map fun k => (k, v.iCardValue)).contains (g.seat, g.op.iCardValue)) := by
    simp only [State.standing, onDealClientUserHu, hcode, if_true]
    change s.carried.filter (fun g => !(isBuGang g.op.iOpValue && (s.robbed ++ _).contains _)) = _
    rw [ha.robbed]
    rfl
  have hgangs : (onDealClientUserHu c (operating s offers) seat ⟨QIANGGANGHU, v.iCardValue⟩).gangs =
      s.gangs.dropLast := by
    simp only [onDealClientUserHu, hcode, if_true]
    rfl
  simp only []
  rw [hstanding, hgangs, hcarried, List.filter_append]
  have hinit : (s.gangs.dropLast.map GangInfo.gang).filter (fun g => !(isBuGang g.op.iOpValue &&
      ((robbedSeats s v.iCardValue).map fun k => (k, v.iCardValue)).contains (g.seat, g.op.iCardValue))) =
      s.gangs.dropLast.map GangInfo.gang := by
    rw [List.filter_eq_self]
    intro g hg
    have hno := Bool.eq_false_iff.mpr fun h => hkeep g hg ((hrobbed g).mp h)
    rw [hno, Bool.and_false]
    rfl
  have hlast : [v.gang].filter (fun g => !(isBuGang g.op.iOpValue &&
      ((robbedSeats s v.iCardValue).map fun k => (k, v.iCardValue)).contains (g.seat, g.op.iCardValue))) = [] := by
    have hbu : v.gang.op.iOpValue = BU_GANG := ha.codes _ (by rw [hcarried]; simp)
    have hin := (hrobbed v.gang).mpr ⟨hseat, rfl⟩
    rw [List.filter_cons_of_neg, List.filter_nil]
    rw [hin, hbu, buGang_code.2.2.2]
    decide
  rw [hinit, hlast, List.append_nil]

theorem settled_of_stop (result : Nat) : (onGameStopRound c s result).state.settled = s.settled ++ [s.gangs] ∧
    (onGameStopRound c s result).state.standing = s.standing := by
  unfold onGameStopRound
  simp only []
  split
  · exact ⟨rfl, rfl⟩
  · split
    · exact ⟨rfl, rfl⟩
    · exact ⟨rfl, rfl⟩

/-- Before the settlement, and after it. -/
inductive Ledger (pool : List Nat) (s : State) : Prop
  | playing : s.settled = [] → Inv s → Counted pool s → Accounts s → Ledger pool s
  | settled : s.settled ≠ [] → (∀ table ∈ s.settled, table.map GangInfo.gang = s.standing) → Ledger pool s

theorem ledger_of_stop {result : Nat} (hs : s.settled = []) (h : s.gangs.map GangInfo.gang = s.standing) :
    Ledger pool (onGameStopRound c s result).state := by
  obtain ⟨hsettled, hstanding⟩ := settled_of_stop (c := c) (s := s) result
  rw [hs, List.nil_append] at hsettled
  refine .settled (by rw [hsettled]; exact List.cons_ne_nil _ _) ?_
  intro table htable
  rw [hsettled, List.mem_singleton] at htable
  rw [htable, hstanding, h]

theorem ledger_of_step {l : Label} (hpool : pool.Perm mahjongPool) (hs : Ledger pool s) (hno : NoMingGang c s l)
    (h : step c s l = some t) : Ledger pool t := by
  cases hs with
  | settled hne => exact absurd hno.1 hne
  | playing hset hi hc ha =>
    obtain ⟨r, hr, rfl⟩ := state_of_step h
    cases outcome_cases hi hr with
    | stay hst =>
      refine .playing ((unsettled_of_stay hst).settled.trans hset) (inv_of_stay hi hst) ?_ (accounts_of_stay hst ha)
      exact counted_of_goes hi hc (.stay hst)
    | @turn u seat hturn =>
      have hready := ready_of_turn hi hturn
      have hau := accounts_of_turn hturn ha hno
      have hu : u.settled = [] := (unsettled_of_turn hturn).settled.trans hset
      obtain ⟨card, rest, hcard, he⟩ | ⟨hempty, he⟩ := drawCard_cases (c := c) hready.status hready.seat_mem
      · rw [he]
        have hgo : Goes c s l (drawn c { u with pool := rest } seat card) := .draw hturn hcard
        exact .playing hu (inv_of_goes hi hgo) (counted_of_goes hi hc hgo) (accounts_drawn hau)
      · rw [he]
        exact ledger_of_stop hu (hau.table.trans (standing_of_robbed_nil hau.robbed).symm)
    | win hwin =>
      cases hwin with
      | @ziMo v offers hp hst htake =>
        have hcode : isQiangGangHu ZIMO = false := by decide
        refine ledger_of_stop ?_ ?_
        · simp only [onDealClientUserHu, hcode, Bool.false_eq_true, if_false]
          exact hset
        · rw [standing_of_robbed_nil]
          · simp only [onDealClientUserHu, hcode, Bool.false_eq_true, if_false]
            exact ha.table
          · simp only [onDealClientUserHu, hcode, Bool.false_eq_true, if_false]
            exact ha.robbed
      | @qiangGangHu seat v offers hp hseat hst hne hv htake =>
        refine ledger_of_stop ?_ (standing_of_rob hpool hc.total hp hst ha hv)
        simp only [onDealClientUserHu]
        split
        · exact hset
        · exact hset
    | anGang htake => exact absurd htake (hno.2 _ _).2
    | noReconnect => exact .playing hset hi hc ha

/-- At the settlement the table has one entry for each bu gang that was carried out and not robbed, with its seat, its
payer and its tile, and no other entry. -/
theorem gangs_accounted (c : Config) (pool : List Nat) (hpool : pool.Perm mahjongPool) (money : Seat → Int)
    (ls : List Label) (t : State) (hrun : Lts.run (step c) (onGameStart c pool money) ls = some t)
    (hno : Lts.Guarded (step c) (NoMingGang c) (onGameStart c pool money) ls) :
    ∀ table ∈ t.settled, table.map GangInfo.gang = t.standing := by
  have haccounts : Accounts (onGameStart c pool money) := by
    refine ⟨rfl, rfl, ?_, ?_, fun _ _ => rfl, nofun⟩
    · intro g hg
      cases hg
    · intro i m hm
      cases hm
  have hstart : Ledger pool (onGameStart c pool money) :=
    .playing rfl (inv_onGameStart c hpool money) (counted_onGameStart c pool money) haccounts
  have hledger := Lts.run_invariant_of_guarded (fun s l t hs hno h => ledger_of_step hpool hs hno h) hrun hno hstart
  cases hledger with
  | playing hset =>
    intro table htable
    rw [hset] at htable
    cases htable
  | settled _ h => exact h

/-- A test for `NoMingGang`. -/
def noMingGang (c : Config) (s : State) (l : Label) : Bool :=
  s.settled.isEmpty && match taking c s l with
    | some (_, op) => decide (op.iOpValue ≠ GANG ∧ op.iOpValue ≠ AN_GANG)
    | none => true

theorem noMingGang_of_test {l : Label} (h : noMingGang c s l = true) : NoMingGang c s l := by
  simp only [noMingGang, Bool.and_eq_true, List.isEmpty_iff] at h
  refine ⟨h.1, fun seat v => ⟨fun he => ?_, fun he => ?_⟩⟩
  · simp [he] at h
  · simp [he] at h

/-- The first player makes a bu gang of the tile 3 that the fourth one does not rob, and wins with the next tile. -/
def buGangWin : List Label :=
  pengOfThree ++ ([.takeOperation 101 0x40 0x03, .takeOperation 104 0 0, .takeOperation 101 0x200 0x09] : List Label)

theorem gangs_accounted_buGangWin : ∃ t,
    Lts.run (step room) (stackedStart [0x07, 0x03, 0x08, 0x08, 0x09, 0x09, 0x09]) buGangWin = some t ∧
    ∃ table ∈ t.settled, table.map GangInfo.gang = [⟨1, 1, ⟨BU_GANG, 3⟩⟩] := by
  have htest : Lts.check (step room) (noMingGang room) (fun t => !t.settled.isEmpty &&
      decide (t.standing = [⟨1, 1, ⟨BU_GANG, 3⟩⟩])) (stackedStart [0x07, 0x03, 0x08, 0x08, 0x09, 0x09, 0x09])
      buGangWin = true := by decide +kernel
  obtain ⟨t, hrun, hno, ht⟩ := Lts.of_check (fun _ _ => noMingGang_of_test) htest
  simp only [Bool.and_eq_true, Bool.not_eq_true', decide_eq_true_eq] at ht
  obtain ⟨table, htable⟩ := List.isEmpty_eq_false_iff_exists_mem.mp ht.1
  refine ⟨t, hrun, table, htable, ?_⟩
  rw [gangs_accounted room _ (stacked_perm (by decide)) _ _ t hrun hno table htable, ht.2]

/-- The first player makes a ming gang of the tile 3, and wins with the tile it draws for it. -/
def mingGangWin : List Label :=
  offerOfThree ++ ([.takeOperation 101 0x10 0x03, .takeOperation 101 0x200 0x05] : List Label)

/-- A ming gang gets no entry. -/
theorem mingGang_without_entry : ¬ ∀ (c : Config) (pool : List Nat) (money : Seat → Int) (ls : List Label) (t : State),
    pool.Perm mahjongPool → Lts.run (step c) (onGameStart c pool money) ls = some t →
    ∀ table ∈ t.settled, table.map GangInfo.gang = t.standing := by
  intro h
  have htest : Lts.check (step room) (fun _ _ => true) (fun t => (t.settled.any fun table => table.isEmpty) &&
      decide (t.standing = [⟨1, 2, ⟨GANG, 3⟩⟩])) (stackedStart [0x07, 0x03, 0x05]) mingGangWin = true := by
    decide +kernel
  obtain ⟨t, hrun, -, ht⟩ := Lts.of_check (G := fun _ _ => True) (fun _ _ _ => trivial) htest
  simp only [Bool.and_eq_true, List.any_eq_true, List.isEmpty_iff, decide_eq_true_eq] at ht
  obtain ⟨⟨table, htable, hnil⟩, hstanding⟩ := ht
  have heq := h room _ _ _ t (stacked_perm (by decide)) hrun table htable
  rw [hnil, hstanding] at heq
  cases heq

end Mahjong
end Skynet
