import Mathlib.Data.List.Basic
import Skynet.Mahjong.Tiles

/-!
# Skynet.Mahjong.Errors

Which handlers raise an error. There are two causes: `onSetGangTurnMonyInfo` calls a method that does not exist for an
an gang, and `onGetGameStopHuInfo` takes the length of a field that the records of `onDealGangTurnMoney` do not have.

* `Settles c s l gangs` : the label ends the round, and `gangs` is the gang table then.
* `Safe` : no an gang is carried out, and the round is not settled with a gang in the table.
* `no_error` : a round whose steps are all `Safe` raises no error.
-/

namespace Skynet
namespace Mahjong

variable {c : Config} {s t : State} {seat : Seat} {op : Op} {pool : List Nat}

/-- The label ends the round with a win, or as the next player would draw from the empty wall. -/
inductive Settles (c : Config) (s : State) (l : Label) : List GangInfo → Prop
  | ziMo {seat : Seat} {v : Nat} : taking c s l = some (seat, ⟨ZIMO, v⟩) → Settles c s l s.gangs
  | qiangGangHu {seat : Seat} {v : Nat} : taking c s l = some (seat, ⟨QIANGGANGHU, v⟩) →
      Settles c s l s.gangs.dropLast
  | discard {card : Nat} : s.pool = [] → discarding c s l = some card →
      (∀ i ∈ seats, claimOps s s.curSeat card i = []) → Settles c s l s.gangs
  | passOut : s.pool = [] → s.status = .opOutCard → Passes c s l → Settles c s l s.gangs
  | passBuGang {gangs : List GangInfo} : s.pool = [] → s.status = .opBuGangCard → Passes c s l →
      setLastDone true s.gangs = some gangs → Settles c s l gangs
  | gang {seat : Seat} {v : Nat} : s.pool = [] → taking c s l = some (seat, ⟨GANG, v⟩) → Settles c s l s.gangs
  | buGang {seat : Seat} {v : Nat} : s.pool = [] → taking c s l = some (seat, ⟨BU_GANG, v⟩) →
      (∀ i ∈ seats, robOps s seat ⟨BU_GANG, v⟩ i = []) → Settles c s l (s.gangs ++ [buGangInfo c seat s.curSeat v])

structure Safe (c : Config) (s : State) (l : Label) : Prop where
  anGang : ∀ seat v, taking c s l ≠ some (seat, ⟨AN_GANG, v⟩)
  settle : ∀ gangs, Settles c s l gangs → gangs = []

/-! ### Settlements -/

theorem robOps_melded (s : State) (op : Op) (i : Seat) : robOps (melded s seat op) seat op i = robOps s seat op i := by
  simp only [robOps]
  split
  · rename_i h
    have hi : i ≠ seat := by simpa using (Bool.and_eq_true_iff.mp h).2
    simp only [melded, Function.update_of_ne hi]
  · rfl

/-- A draw from the empty wall ends the round. -/
theorem settles_of_turn {l : Label} {u : State} (h : Turn c s l u seat) (hpool : u.pool = [])
    (hearly : s.status = .drawCard → s.gangs = []) : u.gangs = [] ∨ Settles c s l u.gangs := by
  cases h with
  | first hs => exact .inl (hearly hs)
  | @discard l card tuoGuan sent t hp hturn hdisc hcard he hop =>
    subst he
    refine .inr (.discard hpool hdisc fun i hi => ?_)
    by_contra hne
    have hsome := (hasOp_eq (s := discarded c { s with tuoGuan := tuoGuan, sent := sent } s.curSeat card) rfl
      fun i op h => coded_claimOps h).mpr ⟨i, hi, hne⟩
    rw [hop] at hsome
    cases hsome
  | passOut hp hs hpass => exact .inr (.passOut hpool hs hpass)
  | passBuGang hp hs hpass hg => exact .inr (.passBuGang hpool hs hpass hg)
  | gang hp hseat hs hne hcount htake he =>
    subst he
    exact .inr (.gang hpool htake)
  | @buGang l v m offers u hp hs hv hm he hpeng htake hu hop =>
    subst hu
    refine .inr (.buGang hpool htake fun i hi => ?_)
    by_contra hne
    have hne' : robOps (melded (operating s offers) s.curSeat ⟨BU_GANG, v⟩) s.curSeat ⟨BU_GANG, v⟩ i ≠ [] := by
      rw [robOps_melded]
      exact hne
    have hsome := (hasOp_eq (s := buGanged c (operating s offers) s.curSeat v) rfl
      fun i op h => coded_robOps h).mpr ⟨i, hi, hne'⟩
    rw [hop] at hsome
    cases hsome

theorem settles_of_win {l : Label} {u : State} (h : Win c s l u) : Settles c s l u.gangs ∧ u.out = s.out := by
  have hcode : isQiangGangHu ZIMO = false ∧ isQiangGangHu QIANGGANGHU = true := by decide
  cases h with
  | ziMo hp hs htake =>
    simp only [onDealClientUserHu, hcode, Bool.false_eq_true, if_false]
    exact ⟨.ziMo htake, rfl⟩
  | qiangGangHu hp hseat hs hne hv htake =>
    simp only [onDealClientUserHu, hcode, if_true]
    exact ⟨.qiangGangHu htake, rfl⟩

/-- The settlement without gangs. -/
theorem onGameStopRound_returns (result : Nat) (hg : s.gangs = [])
    (hout : (seats.all fun i => (s.out i).all fun card => byteFits card.iRank) = true) :
    ∃ t, onGameStopRound c s result = .returned t := by
  simp only [onGameStopRound, State.clearAllRoundTimer, hg, hout]
  exact ⟨_, rfl⟩

theorem Playing.sizes (hp : Playing s) : ∀ i ∈ seats, s.size i = 13 ∨ s.size i = 14 := by
  intro i hi
  by_cases hturn : s.turnStatus
  · have hsize := hp.turn hturn i hi
    split at hsize
    · exact .inr hsize
    · exact .inl hsize
  · exact .inl (hp.even hturn i hi)

theorem Win.playing {l : Label} {u : State} (h : Win c s l u) : Playing s := by
  cases h with
  | ziMo hp => exact hp
  | qiangGangHu hp => exact hp

/-- A `Safe` step raises no error. -/
theorem returns_of_safe {l : Label} (hpool : pool.Perm mahjongPool) (hi : Inv s) (hc : Counted pool s)
    (hsafe : Safe c s l) (hl : ∀ userId, l ≠ .reconnect userId) : Returns c s l := by
  intro t e h
  generalize hout : Outcome.raised t e = out at h
  cases outcome_cases hi h with
  | stay => cases hout
  | @turn u seat hturn =>
    have hready := ready_of_turn hi hturn
    obtain ⟨card, rest, hcard, he⟩ | ⟨hempty, he⟩ := drawCard_cases (c := c) hready.status hready.seat_mem
    · rw [he] at hout
      cases hout
    · have hgangs : u.gangs = [] := by
        obtain h | h := settles_of_turn hturn hempty fun hs => hc.early (.inr hs)
        · exact h
        · exact hsafe.settle _ h
      have htotal : ∀ v, u.total v = pool.count v := fun v => (total_of_turn hturn v).trans (hc.total v)
      obtain ⟨t', ht'⟩ := onGameStopRound_returns (c := c) 0 hgangs
        (out_ranks hpool htotal (ranked_of_turn hturn hc.ranked) fun i hi => .inl (hready.even i hi))
      rw [he, ht'] at hout
      cases hout
  | @win u hwin =>
    obtain ⟨hset, hsame⟩ := settles_of_win hwin
    have hfits := out_ranks hpool hc.total hc.ranked hwin.playing.sizes
    rw [← hsame] at hfits
    obtain ⟨t', ht'⟩ := onGameStopRound_returns (c := c) 1 (hsafe.settle _ hset) hfits
    rw [ht'] at hout
    cases hout
  | anGang htake => exact hsafe.anGang _ _ htake
  | noReconnect hrec => exact hl _ hrec

theorem guarded_returns {ls : List Label} (hpool : pool.Perm mahjongPool) (hi : Inv s) (hc : Counted pool s)
    (hrun : Lts.run (step c) s ls = some t) (hls : ∀ l ∈ ls, ∀ userId, l ≠ .reconnect userId)
    (hsafe : Lts.Guarded (step c) (Safe c) s ls) : Lts.Guarded (step c) (Returns c) s ls := by
  induction ls generalizing s with
  | nil => trivial
  | cons l ls ih =>
    have hret := returns_of_safe hpool hi hc hsafe.1 (hls l (List.mem_cons_self ..))
    refine ⟨hret, fun u hu => ?_⟩
    obtain ⟨u', hu', hrest⟩ := Lts.run_cons.mp hrun
    rw [hu] at hu'
    cases hu'
    cases hover : u.finished with
    | true =>
      cases ls with
      | nil => trivial
      | cons l' ls =>
        obtain ⟨w, hw, -⟩ := Lts.run_cons.mp hrest
        simp [step, hover] at hw
    | false =>
      have hgo := goes_of_step hi hret hu hover
      exact ih (inv_of_goes hi hgo) (counted_of_goes hi hc hgo) hrest
        (fun l' hl' => hls l' (List.mem_cons_of_mem _ hl')) (hsafe.2 u hu)

/-- A round raises no error as long as no an gang is carried out and no gang is in the table at the settlement. -/
theorem no_error (c : Config) (pool : List Nat) (hpool : pool.Perm mahjongPool) (money : Seat → Int)
    (ls : List Label) (t : State) (hrun : Lts.run (step c) (onGameStart c pool money) ls = some t)
    (hls : ∀ l ∈ ls, ∀ userId, l ≠ .reconnect userId)
    (hsafe : Lts.Guarded (step c) (Safe c) (onGameStart c pool money) ls) :
    Lts.Guarded (step c) (Returns c) (onGameStart c pool money) ls :=
  guarded_returns hpool (inv_onGameStart c hpool money) (counted_onGameStart c pool money) hrun hls hsafe

/-- Of the labels that are `Safe`, only a reconnect can raise an error. -/
theorem same_of_raised {l : Label} (hpool : pool.Perm mahjongPool) (hi : Inv s) (hc : Counted pool s)
    (hsafe : Safe c s l) (hret : ¬ Returns c s l) (h : step c s l = some t) : t = s := by
  by_cases hl : ∃ userId, l = .reconnect userId
  · obtain ⟨userId, rfl⟩ := hl
    simp only [step, handled, onSendUserReconnetSucccess] at h
    split at h
    · cases h
    · split at h
      · rename_i r hr
        refine absurd ?_ hret
        intro u e he
        simp only [handled, onSendUserReconnetSucccess] at he
        rw [hr] at he
        cases he
      · rename_i r e hr
        cases h
        split at hr
        · cases hr
        · split at hr
          · split at hr
            · cases hr
              rfl
            · cases hr
          · cases hr
            rfl
      · cases h
  · exact absurd (returns_of_safe hpool hi hc hsafe fun userId he => hl ⟨userId, he⟩) hret

/-- The invariant rule for rounds whose steps are `Safe`. A reconnect that raises an error changes nothing. -/
theorem safe_invariant {P : State → Prop} {G : State → Label → Prop} {ls : List Label}
    (hpool : pool.Perm mahjongPool)
    (hstep : ∀ s l t, Inv s → Counted pool s → P s → G s l → Goes c s l t → P t)
    (hi : Inv s) (hc : Counted pool s) (hs : P s) (hrun : Lts.run (step c) s ls = some t)
    (hg : Lts.Guarded (step c) (fun s l => Safe c s l ∧ G s l) s ls) :
    t.finished = true ∨ Inv t ∧ Counted pool t ∧ P t := by
  refine Lts.run_invariant_of_guarded (P := fun s => s.finished = true ∨ Inv s ∧ Counted pool s ∧ P s) ?_ hrun hg
    (.inr ⟨hi, hc, hs⟩)
  rintro s l t hs ⟨hsafe, hg⟩ h
  obtain hover | ⟨hi, hc, hs⟩ := hs
  · simp [step, hover] at h
  · cases hover : t.finished with
    | true => exact .inl rfl
    | false =>
      by_cases hret : Returns c s l
      · have hgo := goes_of_step hi hret h hover
        exact .inr ⟨inv_of_goes hi hgo, counted_of_goes hi hc hgo, hstep s l t hi hc hs hg hgo⟩
      · have hsame : t = s := same_of_raised hpool hi hc hsafe hret h
        rw [hsame]
        exact .inr ⟨hi, hc, hs⟩

/-- A test for `Safe`, for rounds without gangs. -/
def safe (c : Config) (s : State) (l : Label) : Bool :=
  s.gangs.isEmpty && match taking c s l with
    | some (_, op) => decide (op.iOpValue ≠ AN_GANG ∧ op.iOpValue ≠ BU_GANG)
    | none => true

theorem safe_of_test {l : Label} (h : safe c s l = true) : Safe c s l := by
  simp only [safe, Bool.and_eq_true, List.isEmpty_iff] at h
  obtain ⟨hg, htake⟩ := h
  refine ⟨fun seat v he => ?_, fun gangs hset => ?_⟩
  · simp [he] at htake
  · cases hset with
    | ziMo => exact hg
    | qiangGangHu => rw [hg, List.dropLast_nil]
    | discard => exact hg
    | passOut => exact hg
    | passBuGang _ _ _ hlast => rw [hg, setLastDone] at hlast; cases hlast
    | gang => exact hg
    | buGang _ he => simp [he] at htake

/-- The first player wins with the first tile it draws. -/
def selfDraw : List Label := opening ++ [Label.takeOperation 101 0x200 0x05]

theorem no_error_selfDraw : ∃ t, Lts.run (step room) (stackedStart [0x05]) selfDraw = some t ∧ t.finished = true ∧
    Lts.Guarded (step room) (Returns room) (stackedStart [0x05]) selfDraw := by
  have htest : Lts.check (step room) (safe room) (fun t => t.finished) (stackedStart [0x05]) selfDraw = true := by
    decide +kernel
  obtain ⟨t, hrun, hsafe, hover⟩ := Lts.of_check (fun _ _ => safe_of_test) htest
  exact ⟨t, hrun, hover, no_error room _ (stacked_perm (by decide)) _ _ t hrun (by simp [selfDraw, opening]) hsafe⟩

/-- An an gang raises an error. -/
theorem anGang_raises : ¬ ∀ (c : Config) (pool : List Nat) (money : Seat → Int) (ls : List Label) (s : State)
    (l : Label), pool.Perm mahjongPool → Lts.run (step c) (onGameStart c pool money) ls = some s →
    (∀ l' ∈ l :: ls, ∀ userId, l' ≠ .reconnect userId) → Returns c s l := by
  intro h
  have htest : Lts.check (step room) (fun _ _ => true)
      (fun s => !returns room s (.takeOperation 101 0x20 0x01)) (stackedStart [0x01]) opening = true := by
    decide +kernel
  obtain ⟨s, hrun, -, hs⟩ := Lts.of_check (G := fun _ _ => True) (fun _ _ _ => trivial) htest
  have hret := h room _ _ _ s (.takeOperation 101 0x20 0x01) (stacked_perm (by decide)) hrun (by simp [opening])
  simp only [Bool.not_eq_true', returns] at hs
  split at hs
  · rename_i u e he
    exact hret u e he
  · cases hs

end Mahjong
end Skynet
