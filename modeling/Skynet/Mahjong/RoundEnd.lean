import Skynet.Mahjong.Round

/-!
# Skynet.Mahjong.RoundEnd

A round ends in `onGameStopRound` only, whatever state the handler starts from.

* `ends_handled` : what a handler leaves of `finished`.
* `stopped_of_step`, `turnMoney_of_stop` : the last step of a round, and the results that it leaves at the players.
-/

namespace Skynet
namespace Mahjong

variable {c : Config} {s t : State} {b : Bool}

/-- A handler leaves the round as it is, or ends it in `onGameStopRound`. -/
inductive Ends (c : Config) (b : Bool) : Outcome → Prop
  | goes {t : State} (h : t.finished = b) : Ends c b (.returned t)
  | raised {t : State} {e : Err} (h : t.finished = b) : Ends c b (.raised t e)
  | stops {s t : State} {result : Nat} (h : onGameStopRound c s result = .returned t) : Ends c b (.returned t)

theorem ends_onGameStopRound (result : Nat) (h : s.finished = b) : Ends c b (onGameStopRound c s result) := by
  cases hstop : onGameStopRound c s result with
  | returned t => exact .stops hstop
  | raised t e =>
    refine .raised ?_
    rw [← h]
    unfold onGameStopRound at hstop
    simp only [] at hstop
    split at hstop
    · cases hstop
      rfl
    · split at hstop
      · cases hstop
      · cases hstop
        rfl

theorem ends_drawCard (seat : Seat) (h : s.finished = b) : Ends c b (drawCard c s seat) := by
  unfold drawCard
  split
  · exact .goes h
  · split
    · exact ends_onGameStopRound 0 h
    · split
      · exact .goes h
      · exact .raised h

theorem ends_onClientCmdOutCard (userId outCard : Int) (h : s.finished = b) :
    Ends c b (onClientCmdOutCard c s userId outCard) := by
  unfold onClientCmdOutCard
  split
  · exact .goes h
  · split
    · exact .goes h
    · split
      · exact .goes h
      · split
        · exact .goes h
        · simp only []
          split
          · exact .goes h
          · exact ends_drawCard _ h

theorem ends_onDealClientUserTakeOp (seat : Seat) (op : Op) (h : s.finished = b) :
    Ends c b (onDealClientUserTakeOp c s seat op) := by
  unfold onDealClientUserTakeOp
  simp only []
  split
  · exact .raised h
  · rename_i s' hs'
    have hsame : s'.finished = b := by
      unfold onDealGangTurnMoney at hs'
      split at hs'
      · simp only [Option.map_eq_some_iff] at hs'
        obtain ⟨-, -, rfl⟩ := hs'
        exact h
      · cases hs'
        exact h
    split
    · split
      · exact .raised hsame
      · exact .goes hsame
    · split
      · exact ends_drawCard _ hsame
      · exact .goes hsame

theorem ends_allPassed (h : s.finished = b) : Ends c b (allPassed c s) := by
  unfold allPassed
  simp only []
  split
  · exact ends_drawCard _ h
  · split
    · exact .goes h
    · exact .raised h
  · split
    · exact .raised h
    · exact ends_drawCard _ h
  · exact .goes h

theorem ends_onClientUserHasAllOp (h : s.finished = b) : Ends c b (onClientUserHasAllOp c s) := by
  unfold onClientUserHasAllOp
  simp only []
  split
  · exact .raised h
  · split
    · split
      · refine ends_onGameStopRound 1 ?_
        unfold onDealClientUserHu
        simp only []
        split
        · exact h
        · exact h
      · exact ends_onDealClientUserTakeOp _ _ h
    · exact ends_allPassed h

theorem ends_onClientCmdTakeOpreation (userId iOpValue iCardValue : Int) (h : s.finished = b) :
    Ends c b (onClientCmdTakeOpreation c s userId iOpValue iCardValue) := by
  unfold onClientCmdTakeOpreation
  split
  · exact .goes h
  · split
    · exact .goes h
    · split
      · exact .raised h
      · simp only []
        split
        · exact .goes h
        · exact ends_onClientUserHasAllOp h

theorem ends_fired (dice : List Int) (key : Timer) (h : s.finished = b) : Ends c b (fired c s dice key) := by
  cases key with
  | makeBanker | dealCards =>
    refine .goes ?_
    unfold procNextProgress
    simp only []
    split
    · exact h
    · exact h
    · exact h
  | drawCard => exact ends_drawCard _ h
  | outCard =>
    simp only [fired, onOutCardTimerTimeOut]
    split
    · split
      · exact .raised h
      · exact ends_onClientCmdOutCard _ _ h
    · exact .raised h
  | opOutCard | opDarwCard | opBuGangCard => exact ends_onClientUserHasAllOp h

theorem ends_handled {l : Label} {r : Outcome} (hr : handled c s l = some r) (h : s.finished = b) : Ends c b r := by
  cases l with
  | outCard userId iCardValue =>
    cases hr
    exact ends_onClientCmdOutCard _ _ h
  | takeOperation userId iOpValue iCardValue =>
    cases hr
    exact ends_onClientCmdTakeOpreation _ _ _ h
  | requestAI userId iAiType =>
    cases hr
    unfold onClientCmdRequestAI
    split
    · exact .goes h
    · exact .goes h
  | timer key dice =>
    simp only [handled] at hr
    split at hr
    · cases hr
      exact ends_fired _ _ h
    · cases hr
  | reconnect userId =>
    cases hr
    unfold onSendUserReconnetSucccess
    split
    · exact .goes h
    · split
      · split
        · exact .raised h
        · exact .goes h
      · exact .raised h

theorem going_of_step {l : Label} (h : step c s l = some t) : s.finished = false := by
  unfold step at h
  split at h
  · cases h
  · rename_i hs
    exact Bool.eq_false_iff.mpr hs

/-- A step that ends the round does so in `onGameStopRound`. -/
theorem stopped_of_step {l : Label} (h : step c s l = some t) (hend : t.finished = true) :
    ∃ s' result, onGameStopRound c s' result = .returned t := by
  have hs := going_of_step h
  unfold step at h
  split at h
  · cases h
  · split at h
    · rename_i hr
      cases h
      cases ends_handled hr hs with
      | goes hgoes =>
        rw [hgoes] at hend
        cases hend
      | stops hstop => exact ⟨_, _, hstop⟩
    · rename_i hr
      cases h
      cases ends_handled hr hs with
      | raised hraised =>
        rw [hraised] at hend
        cases hend
    · cases h

/-- The results of the players are the totals of the settlement. -/
theorem turnMoney_of_stop {result : Nat} (h : onGameStopRound c s result = .returned t) :
    ∃ table, onGetGameStopHuInfo s.gangs s.hus = some table ∧
      ∀ i ∈ seats, t.turnMoney i = (table i).iTotalTurnMoney := by
  unfold onGameStopRound at h
  simp only [] at h
  split at h
  · cases h
  · rename_i table htable
    split at h
    · cases h
      exact ⟨table, htable, fun i hi => if_pos hi⟩
    · cases h

end Mahjong
end Skynet
