import Mathlib.Data.List.Basic
import Skynet.Mahjong.Errors
import Skynet.Mahjong.Settlement

/-!
# Skynet.Mahjong.Wallet

The result of a round in the balance of a player and in what the money server is told.

`onGameStopRound` takes the signed result off the balance, where it should add it; what is reported is right.

* `recordedMoney` : the amounts that the gang and hu records of a round have for a seat.
* `wallet_agrees` : the two agree exactly when the result is 0, or leaves nothing either way.
-/

namespace Skynet
namespace Mahjong

variable {c : Config} {s t : State} {seat : Seat}

/-- The sum of the amounts that the records have for a seat. A robbed gang does not count. -/
def recordedMoney (gangs : List GangInfo) (hus : List HuInfo) (p : Seat) : Int :=
  ((gangs.filter fun v => v.iQGHSeatIds == some []).map fun v => v.iGangTurnMoney p).sum +
    (hus.map fun v => v.iHuTurnMoney p).sum

/-- The discards have ranks that `writeByte` can send. -/
def RanksFit (s : State) : Prop := ∀ i ∈ seats, ∀ card ∈ s.out i, byteFits card.iRank = true

/-- The balance is that before plus the result, and the money server is told the result. -/
structure Agrees (c : Config) (s t : State) (seat : Seat) (total : Int) : Prop where
  money : t.money seat = max 0 (s.money seat + total)
  reports : ∃ reports, t.reports = s.reports ++ reports ∧ ∀ m, (c.userId seat, m) ∈ reports ↔ m = total

theorem addGangs_total {table table' : Seat → StopInfo} {gangs : List GangInfo} (h : addGangs table gangs = some table')
    (p : Seat) : (table' p).iTotalTurnMoney = (table p).iTotalTurnMoney +
      ((gangs.filter fun v => v.iQGHSeatIds == some []).map fun v => v.iGangTurnMoney p).sum := by
  induction gangs generalizing table with
  | nil =>
    cases h
    simp
  | cons v vs ih =>
    simp only [addGangs] at h
    split at h
    · cases h
    · rename_i hq
      rw [ih h, addGang_total, List.filter_cons_of_pos (by rw [hq]; rfl), List.map_cons, List.sum_cons]
      omega
    · rename_i w ws hq
      rw [ih h, List.filter_cons_of_neg (by rw [hq]; simp)]

theorem addHus_total (table : Seat → StopInfo) (hus : List HuInfo) (p : Seat) :
    (addHus table hus p).iTotalTurnMoney =
      (table p).iTotalTurnMoney + (hus.map fun v => v.iHuTurnMoney p).sum := by
  have hfold : ∀ info : StopInfo, (hus.foldl (fun info v => info.addHu v p) info).iTotalTurnMoney =
      info.iTotalTurnMoney + (hus.map fun v => v.iHuTurnMoney p).sum := by
    induction hus with
    | nil => simp
    | cons v vs ih =>
      intro info
      rw [List.foldl_cons, ih, addHu_total, List.map_cons, List.sum_cons]
      omega
  exact hfold _

/-- The total of a seat is the sum of its amounts. -/
theorem total_eq_recordedMoney {gangs : List GangInfo} {hus : List HuInfo} {table : Seat → StopInfo}
    (h : onGetGameStopHuInfo gangs hus = some table) (p : Seat) :
    (table p).iTotalTurnMoney = recordedMoney gangs hus p := by
  simp only [onGetGameStopHuInfo, Option.map_eq_some_iff] at h
  obtain ⟨table₁, h₁, rfl⟩ := h
  have hgangs := addGangs_total h₁ p
  have hhus := addHus_total (fun p => (table₁ p).nameGangs) hus p
  rw [show ((StopInfo.zero).iTotalTurnMoney) = 0 from rfl, zero_add] at hgangs
  rw [recordedMoney, ← hgangs]
  exact hhus

theorem onGetGameStopHuInfo_isSome (gangs : List GangInfo) (hus : List HuInfo) :
    (∃ table, onGetGameStopHuInfo gangs hus = some table) ↔ ∀ v ∈ gangs, v.iQGHSeatIds ≠ none := by
  rw [← addGangs_isSome fun _ => .zero, Option.isSome_iff_exists]
  simp only [onGetGameStopHuInfo, Option.map_eq_some_iff]
  constructor
  · rintro ⟨table, table₁, h, -⟩
    exact ⟨table₁, h⟩
  · rintro ⟨table₁, h⟩
    exact ⟨_, table₁, h, rfl⟩

/-- The reports of a settlement have one entry for each player. -/
theorem mem_reports {amounts : Seat → Int} (hseat : seat ∈ seats) (hrobot : c.isRobot seat = false) (m : Int) :
    (c.userId seat, m) ∈ ((seats.filter fun i => !c.isRobot i).map fun i => (c.userId i, amounts i)) ↔
      m = amounts seat := by
  simp only [List.mem_map, List.mem_filter, Prod.mk.injEq]
  constructor
  · rintro ⟨i, ⟨hi, -⟩, hu, rfl⟩
    rw [c.userId_inj i hi seat hseat hu]
  · rintro rfl
    exact ⟨seat, ⟨hseat, by rw [hrobot]; rfl⟩, rfl, rfl⟩

/-- The subtraction gives the same as the sum only for a result of 0, or where nothing is left either way. -/
theorem paid_eq_iff (money total : Int) :
    paid money total = max 0 (money + total) ↔ total = 0 ∨ money + total ≤ 0 ∧ money - total ≤ 0 := by
  unfold paid
  split
  · omega
  · omega

/-- A settlement of a coin room. -/
theorem onGameStopRound_coin (result : Nat) {table : Seat → StopInfo} (hcoin : c.isBattleRoom = false)
    (htable : onGetGameStopHuInfo s.gangs s.hus = some table) (hfit : RanksFit s) :
    ∃ t, onGameStopRound c s result = .returned t ∧
      (∀ i ∈ seats, t.money i = paid (s.money i) (table i).iTotalTurnMoney) ∧
      t.reports = s.reports ++
        (seats.filter fun i => !c.isRobot i).map fun i => (c.userId i, (table i).iTotalTurnMoney) := by
  have hall : (seats.all fun i => (s.out i).all fun card => byteFits card.iRank) = true := by
    simp only [List.all_eq_true]
    exact hfit
  unfold onGameStopRound
  simp only [State.clearAllRoundTimer, htable, hall, if_true]
  refine ⟨_, rfl, ?_, ?_⟩
  · intro i hi
    exact if_pos hi
  · simp only [State.tableStop, hcoin, Bool.false_eq_true, if_false, State.broadcast, State.reset,
      State.clearAllRoundTimer]
    congr 1
    refine List.map_congr_left fun i hi => ?_
    rw [if_pos (List.mem_of_mem_filter hi)]

theorem stop_isSome {result : Nat} (h : onGameStopRound c s result = .returned t) :
    (∃ table, onGetGameStopHuInfo s.gangs s.hus = some table) ∧ RanksFit s := by
  unfold onGameStopRound at h
  simp only [] at h
  split at h
  · cases h
  · rename_i table htable
    split at h
    · rename_i hall
      simp only [List.all_eq_true] at hall
      exact ⟨⟨table, htable⟩, hall⟩
    · cases h

/-- The settlement of a coin room agrees with the result of a player exactly when it raises no error, and the result
is 0 or leaves nothing either way. -/
theorem wallet_agrees (c : Config) (s : State) (result : Nat) (seat : Seat) (hcoin : c.isBattleRoom = false)
    (hseat : seat ∈ seats) (hrobot : c.isRobot seat = false) :
    (∃ t table, onGameStopRound c s result = .returned t ∧ onGetGameStopHuInfo s.gangs s.hus = some table ∧
      Agrees c s t seat (table seat).iTotalTurnMoney) ↔
    (∀ v ∈ s.gangs, v.iQGHSeatIds ≠ none) ∧ RanksFit s ∧
      (recordedMoney s.gangs s.hus seat = 0 ∨
        s.money seat + recordedMoney s.gangs s.hus seat ≤ 0 ∧ s.money seat - recordedMoney s.gangs s.hus seat ≤ 0) := by
  rw [← onGetGameStopHuInfo_isSome s.gangs s.hus]
  constructor
  · rintro ⟨t, table, hstop, htable, hag⟩
    obtain ⟨hsome, hfit⟩ := stop_isSome hstop
    obtain ⟨t', hstop', hmoney, -⟩ := onGameStopRound_coin result hcoin htable hfit
    rw [hstop] at hstop'
    cases hstop'
    refine ⟨hsome, hfit, ?_⟩
    rw [← total_eq_recordedMoney htable, ← paid_eq_iff, ← hmoney seat hseat]
    exact hag.money
  · rintro ⟨⟨table, htable⟩, hfit, hzero⟩
    obtain ⟨t, hstop, hmoney, hreports⟩ := onGameStopRound_coin result hcoin htable hfit
    refine ⟨t, table, hstop, htable, ?_, _, hreports, mem_reports hseat hrobot⟩
    rw [hmoney seat hseat, paid_eq_iff, total_eq_recordedMoney htable]
    exact hzero

/-- A draw game leaves the balances as they are. -/
theorem wallet_agrees_draw : ∃ t table, onGameStopRound room (stackedStart []) 0 = .returned t ∧
    onGetGameStopHuInfo (stackedStart []).gangs (stackedStart []).hus = some table ∧
    Agrees room (stackedStart []) t 1 (table 1).iTotalTurnMoney := by
  refine (wallet_agrees room (stackedStart []) 0 1 rfl (by decide) rfl).mpr ⟨?_, ?_, .inl rfl⟩
  · intro v hv
    cases hv
  · intro i _ card hcard
    cases hcard

/-- The winner by self-draw is told to have won 60, and its balance falls by 60. -/
theorem winner_pays : ¬ ∀ (c : Config) (pool : List Nat) (money : Seat → Int) (ls : List Label) (t : State),
    pool.Perm mahjongPool → Lts.run (step c) (onGameStart c pool money) ls = some t → t.finished = true →
    c.isBattleRoom = false → ∀ i ∈ seats, c.isRobot i = false → ∀ m, (c.userId i, m) ∈ t.reports →
    t.money i = max 0 (money i + m) := by
  intro h
  have htest : Lts.check (step room) (fun _ _ => true) (fun t => t.finished && decide (t.money 1 = 940) &&
      t.reports.contains (101, 60)) (stackedStart [0x05]) selfDraw = true := by decide +kernel
  obtain ⟨t, hrun, -, ht⟩ := Lts.of_check (G := fun _ _ => True) (fun _ _ _ => trivial) htest
  simp only [Bool.and_eq_true, decide_eq_true_eq, List.contains_iff_mem] at ht
  have hmoney := h room _ _ _ t (stacked_perm (by decide)) hrun ht.1.1 rfl 1 (by decide) rfl 60 ht.2
  rw [ht.1.2] at hmoney
  cases hmoney

end Mahjong
end Skynet
