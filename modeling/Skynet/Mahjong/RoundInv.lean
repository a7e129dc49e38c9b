import Mathlib.Data.List.Basic
import Mathlib.Data.List.Perm.Subperm
import Skynet.Mahjong.RoundStep

/-!
# Skynet.Mahjong.RoundInv

`Inv` over whole runs of a round. A handler that returns either leaves the turn (`Stay`), or ends it and draws the
next tile (`Turn`), or a player wins; the rest are errors.

* `outcome_cases` : these are all the outcomes, with the states written out.
* `inv_of_run` : a run in which no handler has raised an error keeps `Inv` until the round is over.
* `hand_size` : 13 tiles for each seat, and 14 for the current player who has to discard.
-/

namespace Skynet
namespace Mahjong

variable {c : Config} {s t : State} {seat : Seat} {op : Op}

/-! ### The operations of a phase -/

/-- An operation that is offered, with what it needs. -/
inductive PhaseOp (s : State) (seat : Seat) : Op → Prop
  | peng : s.status = .opOutCard → seat ≠ s.curSeat → 2 ≤ (s.hand seat).count s.lastOut →
      PhaseOp s seat ⟨PENG, s.lastOut⟩
  | gang : s.status = .opOutCard → seat ≠ s.curSeat → 3 ≤ (s.hand seat).count s.lastOut →
      PhaseOp s seat ⟨GANG, s.lastOut⟩
  | anGang {v : Nat} : s.status = .opDrawCard → seat = s.curSeat → 4 ≤ (s.hand seat).count v →
      PhaseOp s seat ⟨AN_GANG, v⟩
  | buGang {v : Nat} {m : Op} : s.status = .opDrawCard → seat = s.curSeat → v ∈ s.hand seat →
      m ∈ s.handle seat → m.iCardValue = v → isPeng m.iOpValue = true → PhaseOp s seat ⟨BU_GANG, v⟩
  | ziMo {v : Nat} : s.status = .opDrawCard → seat = s.curSeat → PhaseOp s seat ⟨ZIMO, v⟩
  | qiangGangHu {v : GangInfo} : s.status = .opBuGangCard → seat ≠ s.curSeat → s.gangs.getLast? = some v →
      PhaseOp s seat ⟨QIANGGANGHU, v.iCardValue⟩

theorem phaseOp_of_mem (h : op ∈ s.phaseOps seat) : PhaseOp s seat op := by
  unfold State.phaseOps at h
  split at h
  · rename_i hs
    simp only [claimOps] at h
    split at h
    · cases h
    · rename_i hseat
      obtain ⟨rfl, hcount⟩ | ⟨rfl, hcount⟩ := mem_onGetUserOpValueWhenOutCard h
      · exact .gang hs hseat hcount
      · exact .peng hs hseat hcount
  · rename_i hs
    split at h
    · rename_i hseat
      cases mem_onGetUserOpValueWhenDrawCard h with
      | anGang hcount => exact .anGang hs hseat hcount
      | buGang hv hm he hp => exact .buGang hs hseat hv hm he hp
      | ziMo => exact .ziMo hs hseat
    · cases h
  · rename_i hs
    split at h
    · rename_i v hv
      simp only [robOps] at h
      split at h
      · rename_i hrob
        have hseat : seat ≠ s.curSeat := by simpa using (Bool.and_eq_true_iff.mp hrob).2
        cases mem_onGetUserOpValueWhenBuGang h
        exact .qiangGangHu hs hseat hv
      · cases h
    · cases h
  · cases h

/-! ### Outcomes -/

/-- The state in which an operation is carried out. -/
def operating (s : State) (offers : Option (Seat → Offer)) : State :=
  { s with offers := offers, timers := opStopped s.timers }

/-- What leaves the turn as it is, or gives it to a player who has a meld now. -/
inductive Stay (c : Config) (s : State) : Label → State → Prop
  | aside {l : Label} {tuoGuan : Seat → Bool} {sent : List (Seat × Packet)} :
      Stay c s l { s with tuoGuan := tuoGuan, sent := sent }
  | decline {l : Label} {o : Seat → Offer} {seat : Seat} : s.offers = some o → Playing s → s.opStatus →
      (∃ i ∈ seats, 0 < (Function.update o seat { o seat with iOpValue := 0 } i).iOpValue) →
      Stay c s l { s with offers := some (Function.update o seat { o seat with iOpValue := 0 }) }
  | deal {dice : List Int} : s.status = .none → s.progressIndex = 2 →
      Stay c s (.timer .makeBanker dice) (procNextProgress c (s.stopTimer .makeBanker) dice)
  | begin {dice : List Int} : s.status = .none → s.progressIndex = 3 →
      Stay c s (.timer .dealCards dice) (procNextProgress c (s.stopTimer .dealCards) dice)
  | claim {l : Label} {card : Nat} {tuoGuan : Seat → Bool} {sent : List (Seat × Packet)} {t : State} :
      Playing s → s.turnStatus → discarding c s l = some card → card ∈ s.hand s.curSeat →
      t = discarded c { s with tuoGuan := tuoGuan, sent := sent } s.curSeat card → t.hasOp = true →
      Stay c s l ({ t with status := .opOutCard }.startTimer .opOutCard (c.iOperationTime * 1000))
  | passDraw {l : Label} {t : State} : Playing s → s.status = .opDrawCard → Passes c s l →
      t = { s.clearUserOp with status := .outCard, timers := opStopped s.timers } →
      Stay c s l (t.startTimer .outCard (c.outCardTime s s.curSeat))
  | stale {l : Label} : Playing s → s.status = .outCard →
      Stay c s l { s.clearUserOp with timers := opStopped s.timers }
  | peng {l : Label} {seat : Seat} {offers : Option (Seat → Offer)} {u : State} : Playing s → seat ∈ seats →
      s.status = .opOutCard → seat ≠ s.curSeat → 2 ≤ (s.hand seat).count s.lastOut →
      taking c s l = some (seat, ⟨PENG, s.lastOut⟩) →
      u = taken c (melded (operating s offers) seat ⟨PENG, s.lastOut⟩) seat ⟨PENG, s.lastOut⟩ →
      Stay c s l ({ u with status := .outCard, curSeat := seat }.startTimer .outCard (c.outCardTime s seat))
  /-- A bu gang that may be robbed. -/
  | buGang {l : Label} {v : Nat} {m : Op} {offers : Option (Seat → Offer)} {u : State} : Playing s →
      s.status = .opDrawCard → v ∈ s.hand s.curSeat → m ∈ s.handle s.curSeat → m.iCardValue = v →
      isPeng m.iOpValue = true → taking c s l = some (s.curSeat, ⟨BU_GANG, v⟩) →
      u = buGanged c (operating s offers) s.curSeat v → u.hasOp = true →
      Stay c s l ({ u with
        gangs := s.gangs ++ [{ buGangInfo c s.curSeat s.curSeat v with iIsDone := false }]
        status := .opBuGangCard }.startTimer .opBuGangCard (c.iOperationTime * 1000))

/-- The states in which the player at a seat draws the next tile. -/
inductive Turn (c : Config) (s : State) : Label → State → Seat → Prop
  | first {dice : List Int} : s.status = .drawCard → s.curSeat = 1 →
      Turn c s (.timer .drawCard dice) (s.stopTimer .drawCard) 1
  | discard {l : Label} {card : Nat} {tuoGuan : Seat → Bool} {sent : List (Seat × Packet)} {t : State} :
      Playing s → s.turnStatus → discarding c s l = some card → card ∈ s.hand s.curSeat →
      t = discarded c { s with tuoGuan := tuoGuan, sent := sent } s.curSeat card → t.hasOp = false →
      Turn c s l { t with status := .drawCard, curSeat := 0 } (nextSeat s.curSeat)
  | passOut {l : Label} {offers : Option (Seat → Offer)} : Playing s → s.status = .opOutCard → Passes c s l →
      Turn c s l { operating s offers with status := .drawCard } (nextSeat s.curSeat)
  | passBuGang {l : Label} {offers : Option (Seat → Offer)} {gangs : List GangInfo} : Playing s →
      s.status = .opBuGangCard → Passes c s l → setLastDone true s.gangs = some gangs →
      Turn c s l { operating s offers with status := .drawCard, gangs := gangs } s.curSeat
  | gang {l : Label} {seat : Seat} {offers : Option (Seat → Offer)} {u : State} : Playing s → seat ∈ seats →
      s.status = .opOutCard → seat ≠ s.curSeat → 3 ≤ (s.hand seat).count s.lastOut →
      taking c s l = some (seat, ⟨GANG, s.lastOut⟩) →
      u = taken c (melded (operating s offers) seat ⟨GANG, s.lastOut⟩) seat ⟨GANG, s.lastOut⟩ →
      Turn c s l { u with status := .drawCard, curSeat := 0 } seat
  | buGang {l : Label} {v : Nat} {m : Op} {offers : Option (Seat → Offer)} {u : State} : Playing s →
      s.status = .opDrawCard → v ∈ s.hand s.curSeat → m ∈ s.handle s.curSeat → m.iCardValue = v →
      isPeng m.iOpValue = true → taking c s l = some (s.curSeat, ⟨BU_GANG, v⟩) →
      u = buGanged c (operating s offers) s.curSeat v → u.hasOp = false →
      Turn c s l { u with status := .drawCard, curSeat := 0 } s.curSeat

/-- A win, with the state in which the round is settled. -/
inductive Win (c : Config) (s : State) : Label → State → Prop
  | ziMo {l : Label} {v : Nat} {offers : Option (Seat → Offer)} : Playing s → s.status = .opDrawCard →
      taking c s l = some (s.curSeat, ⟨ZIMO, v⟩) →
      Win c s l (onDealClientUserHu c (operating s offers) s.curSeat ⟨ZIMO, v⟩)
  | qiangGangHu {l : Label} {seat : Seat} {v : GangInfo} {offers : Option (Seat → Offer)} : Playing s →
      seat ∈ seats → s.status = .opBuGangCard → seat ≠ s.curSeat → s.gangs.getLast? = some v →
      taking c s l = some (seat, ⟨QIANGGANGHU, v.iCardValue⟩) →
      Win c s l (onDealClientUserHu c (operating s offers) seat ⟨QIANGGANGHU, v.iCardValue⟩)

/-- What a handler does. -/
inductive Does (c : Config) (s : State) (l : Label) : Outcome → Prop
  | stay {t : State} : Stay c s l t → Does c s l (.returned t)
  | turn {u : State} {seat : Seat} : Turn c s l u seat → Does c s l (drawCard c u seat)
  | win {u : State} : Win c s l u → Does c s l (onGameStopRound c u 1)
  | anGang {seat : Seat} {v : Nat} {t : State} : taking c s l = some (seat, ⟨AN_GANG, v⟩) →
      t.finished = s.finished → Does c s l (.raised t .nilMethod)
  | noReconnect {userId : Int} {e : Err} : l = .reconnect userId → c.isBattleRoom = true ∨ 128 ≤ s.pool.length →
      Does c s l (.raised s e)

theorem isWin_codes {v : Nat} : isWin ⟨ZIMO, v⟩ = true ∧ isWin ⟨QIANGGANGHU, v⟩ = true ∧ isWin ⟨PENG, v⟩ = false ∧
    isWin ⟨GANG, v⟩ = false ∧ isWin ⟨AN_GANG, v⟩ = false ∧ isWin ⟨BU_GANG, v⟩ = false := by
  have hcodes : isWin ⟨ZIMO, 0⟩ = true ∧ isWin ⟨QIANGGANGHU, 0⟩ = true ∧ isWin ⟨PENG, 0⟩ = false ∧
      isWin ⟨GANG, 0⟩ = false ∧ isWin ⟨AN_GANG, 0⟩ = false ∧ isWin ⟨BU_GANG, 0⟩ = false := by decide
  exact hcodes

theorem does_of_take {l : Label} {offers : Option (Seat → Offer)} (hp : Playing s) (hseat : seat ∈ seats)
    (hop : PhaseOp s seat op) (hwin : isWin op = false) (htake : taking c s l = some (seat, op)) :
    Does c s l (onDealClientUserTakeOp c (operating s offers) seat op) := by
  cases hop with
  | peng hs hne hcount =>
    rw [takeOp_peng]
    exact .stay (.peng hp hseat hs hne hcount htake rfl)
  | gang hs hne hcount =>
    rw [takeOp_gang]
    exact .turn (.gang hp hseat hs hne hcount htake rfl)
  | anGang hs hcur hcount =>
    rw [takeOp_anGang]
    exact .anGang htake rfl
  | buGang hs hcur hv hm he hpeng =>
    subst hcur
    rw [takeOp_buGang]
    split
    · rename_i hrob
      exact .stay (.buGang hp hs hv hm he hpeng htake rfl hrob)
    · rename_i hrob
      exact .turn (.buGang hp hs hv hm he hpeng htake rfl (Bool.eq_false_iff.mpr hrob))
  | ziMo => rw [isWin_codes.1] at hwin; cases hwin
  | qiangGangHu => rw [isWin_codes.2.1] at hwin; cases hwin

theorem does_of_win {l : Label} {offers : Option (Seat → Offer)} (hp : Playing s) (hseat : seat ∈ seats)
    (hop : PhaseOp s seat op) (hwin : isWin op = true) (htake : taking c s l = some (seat, op)) :
    Does c s l (onGameStopRound c (onDealClientUserHu c (operating s offers) seat op) 1) := by
  cases hop with
  | peng => rw [isWin_codes.2.2.1] at hwin; cases hwin
  | gang => rw [isWin_codes.2.2.2.1] at hwin; cases hwin
  | anGang => rw [isWin_codes.2.2.2.2.1] at hwin; cases hwin
  | buGang => rw [isWin_codes.2.2.2.2.2] at hwin; cases hwin
  | ziMo hs hcur =>
    subst hcur
    exact .win (.ziMo hp hs htake)
  | qiangGangHu hs hne hv => exact .win (.qiangGangHu hp hseat hs hne hv htake)

/-- The outcomes of a state with `Inv`. -/
theorem outcome_cases {l : Label} {r : Outcome} (hi : Inv s) (h : handled c s l = some r) : Does c s l r := by
  cases next_of_handled hi h with
  | aside => exact .stay .aside
  | decline ho hp hop hany => exact .stay (.decline ho hp hop hany)
  | noReconnect hpool => exact .noReconnect rfl hpool
  | deal hs hix => exact .stay (.deal hs hix)
  | begin hs hix => exact .stay (.begin hs hix)
  | first hs hcur => exact .turn (.first hs hcur)
  | claim hp ht hwho hcard he hop => exact .stay (.claim hp ht hwho hcard he hop)
  | discard hp ht hwho hcard he hop => exact .turn (.discard hp ht hwho hcard he hop)
  | passOut hp hs hpass => exact .turn (.passOut hp hs hpass)
  | passDraw hp hs hpass he => exact .stay (.passDraw hp hs hpass he)
  | passBuGang hp hs hpass hg => exact .turn (.passBuGang hp hs hpass hg)
  | stale hp hs => exact .stay (.stale hp hs)
  | take hp hseat hop hwin htake => exact does_of_take hp hseat (phaseOp_of_mem hop) hwin htake
  | win hp hseat hop hwin htake => exact does_of_win hp hseat (phaseOp_of_mem hop) hwin htake

/-! ### Sizes -/

theorem size_update_hand (hand : List Nat) (i : Seat) :
    State.size { s with hand := Function.update s.hand seat hand } i =
      if i = seat then hand.length + 3 * (s.handle seat).length else s.size i := by
  simp only [State.size, Function.update_apply]
  split
  · rename_i hi
    rw [hi]
  · rfl

theorem length_meld (handle : List Op) (op : Op) :
    (meld handle op).length = if isBuGang op.iOpValue then handle.length else handle.length + 1 := by
  rw [meld]
  split
  · exact length_replaceFirst _ _ _
  · exact List.length_append

theorem size_melded (s : State) (op : Op) (hcount : cardCount op.iOpValue ≤ (s.hand seat).count op.iCardValue) (i : Seat) :
    (melded s seat op).size i + (if i = seat then cardCount op.iOpValue else 0) =
      s.size i + if i = seat ∧ isBuGang op.iOpValue = false then 3 else 0 := by
  simp only [State.size, melded, Function.update_apply]
  by_cases hi : i = seat
  · subst hi
    have herase := length_eraseTimes hcount
    simp only [if_true, true_and, length_meld]
    cases isBuGang op.iOpValue with
    | false =>
      simp only [Bool.false_eq_true, if_false, if_true]
      omega
    | true =>
      simp only [Bool.true_eq_false, if_false, if_true]
      omega
  · simp only [hi, if_false, false_and]

theorem cardCount_codes :
    cardCount PENG = 2 ∧ cardCount GANG = 3 ∧ cardCount AN_GANG = 4 ∧ cardCount BU_GANG = 1 := by decide

theorem even_of_opOutCard (hp : Playing s) (hs : s.status = .opOutCard) : Even s := by
  refine hp.even fun hturn => ?_
  obtain h | h := hturn <;> rw [hs] at h <;> cases h

theorem even_of_opBuGangCard (hp : Playing s) (hs : s.status = .opBuGangCard) : Even s := by
  refine hp.even fun hturn => ?_
  obtain h | h := hturn <;> rw [hs] at h <;> cases h

/-- After a discard each seat has 13 tiles. -/
theorem even_discarded {card : Nat} (hp : Playing s) (ht : s.turnStatus) (hcard : card ∈ s.hand s.curSeat) :
    ∀ i ∈ seats, State.size { s with hand := Function.update s.hand s.curSeat ((s.hand s.curSeat).erase card) } i =
      13 := by
  intro i hi
  have hsize := hp.turn ht i hi
  rw [size_update_hand]
  split
  · rename_i hcur
    rw [if_pos hcur, State.size, hcur] at hsize
    have hlen := List.length_erase_of_mem hcard
    have hpos := List.length_pos_of_mem hcard
    omega
  · rename_i hcur
    rw [if_neg hcur] at hsize
    exact hsize

theorem nextSeat_mem (h : seat ∈ seats) : nextSeat seat ∈ seats := by
  simp only [seats, List.mem_cons, List.not_mem_nil, or_false] at h
  obtain rfl | rfl | rfl | rfl := h <;> decide

theorem even_buGang {v : Nat} {offers : Option (Seat → Offer)} (hp : Playing s) (hs : s.status = .opDrawCard)
    (hv : v ∈ s.hand s.curSeat) : Even (melded (operating s offers) s.curSeat ⟨BU_GANG, v⟩) := by
  intro i hi
  have hturn := hp.turn (.inr hs) i hi
  have hcount : cardCount BU_GANG ≤ (s.hand s.curSeat).count v := by
    rw [cardCount_codes.2.2.2]
    exact List.count_pos_iff.mpr hv
  have hmeld := size_melded (operating s offers) ⟨BU_GANG, v⟩ hcount i
  change (melded _ _ _).size i + (if i = s.curSeat then cardCount BU_GANG else 0) =
    s.size i + if i = s.curSeat ∧ isBuGang BU_GANG = false then 3 else 0 at hmeld
  rw [hturn, cardCount_codes.2.2.2, buGang_code.2.2.2] at hmeld
  by_cases hcur : i = s.curSeat
  · simp only [hcur, if_true, Bool.true_eq_false, and_false, if_false] at hmeld ⊢
    omega
  · simp only [hcur, if_false, false_and] at hmeld
    exact hmeld

/-! ### Drawing -/

/-- The state in which the player at `seat` draws. -/
structure Ready (s : State) (seat : Seat) : Prop where
  status : s.status = .drawCard
  index : s.progressIndex = 4
  even : Even s
  seat_mem : seat ∈ seats
  timers : s.timers .makeBanker = none ∧ s.timers .dealCards = none ∧ s.timers .drawCard = none
  outCard : s.timers .outCard = none

theorem phaseOps_drawn {card : Nat} {pool : List Nat} (hops : 0 < opValue (drawOps s seat card)) :
    (drawn c { s with pool := pool } seat card).phaseOps = fun i => if i = seat then drawOps s seat card else [] := by
  have hstatus : (drawn c { s with pool := pool } seat card).status = .opDrawCard := if_pos hops
  funext i
  simp only [State.phaseOps, hstatus]
  by_cases hi : i = seat
  · subst hi
    simp [drawn, drawOps]
  · simp only [drawn, hi, if_false]

theorem coded_drawOps {card : Nat} (h : op ∈ drawOps s seat card) : Coded op := coded_draw h

theorem playing_drawn {card : Nat} {pool : List Nat} (hr : Ready s seat) :
    Playing (drawn c { s with pool := pool } seat card) := by
  have hsize : ∀ i ∈ seats, (drawn c { s with pool := pool } seat card).size i = if i = seat then 14 else 13 := by
    intro i hi
    have h13 := hr.even i hi
    simp only [drawn, State.size, Function.update_apply]
    split
    · rename_i he
      rw [he, State.size] at h13
      rw [he, List.length_append, List.length_singleton]
      omega
    · exact h13
  by_cases hops : 0 < opValue (drawOps s seat card)
  · have hstatus : (drawn c { s with pool := pool } seat card).status = .opDrawCard := if_pos hops
    have htimers : (drawn c { s with pool := pool } seat card).timers =
        Function.update s.timers .opDarwCard (some (c.iOperationTime * 1000)) := if_pos hops
    refine ⟨hr.index, .inr (.inr (.inl hstatus)), hr.seat_mem, fun _ => hsize, ?_, ?_, ?_, ?_, ?_⟩
    · exact fun hno => absurd (.inr hstatus) hno
    · refine ⟨_, rfl, ?_, fun _ => ⟨seat, hr.seat_mem, ?_⟩⟩
      · rw [phaseOps_drawn hops]
        exact .of _
      · simp only [Offer.of, if_true]
        exact hops
    · intro hbu
      rw [hstatus] at hbu
      cases hbu
    · rw [htimers]
      exact hr.timers
    · intro hout
      rw [htimers] at hout
      exact absurd hr.outCard hout
  · have hstatus : (drawn c { s with pool := pool } seat card).status = .outCard := if_neg hops
    have htimers : (drawn c { s with pool := pool } seat card).timers =
        Function.update s.timers .outCard (some (c.outCardTime s seat)) := if_neg hops
    have hnil : drawOps s seat card = [] :=
      opValue_eq_zero (fun op hop => coded_drawOps hop) (Nat.eq_zero_of_not_pos hops)
    have hphase : (drawn c { s with pool := pool } seat card).phaseOps = fun _ => [] := by
      funext i
      simp only [State.phaseOps, hstatus]
    refine ⟨hr.index, .inl hstatus, hr.seat_mem, fun _ => hsize, ?_, ?_, ?_, ?_, fun _ => hstatus⟩
    · exact fun hno => absurd (.inl hstatus) hno
    · refine ⟨_, rfl, ?_, ?_⟩
      · have hoffers : (fun i => Offer.of (if i = seat then drawOps { s with pool := pool } seat card else [])) =
            fun _ => .of [] := by
          have hnil' : drawOps { s with pool := pool } seat card = [] := hnil
          simp only [hnil', ite_self]
        rw [hphase, hoffers]
        exact .of _
      · rintro (h | h | h) <;> rw [hstatus] at h <;> cases h
    · intro hbu
      rw [hstatus] at hbu
      cases hbu
    · rw [htimers]
      exact hr.timers

/-! ### One handler -/

theorem dealt_frame {pool : List Nat} {hand : Seat → List Nat} {is : List Seat} {i : Seat} (hi : i ∉ is) :
    (dealt pool hand is).2 i = hand i := by
  induction is generalizing pool hand with
  | nil => rfl
  | cons j js ih =>
    rw [dealt, ih fun h => hi (List.mem_cons_of_mem _ h)]
    refine Function.update_of_ne (fun h => hi ?_) _ _
    rw [h]
    exact List.mem_cons_self ..

theorem length_dealt {pool : List Nat} {hand : Seat → List Nat} {is : List Seat} (hnd : is.Nodup)
    (hpool : is.length * iDealCardCount ≤ pool.length) {i : Seat} (hi : i ∈ is) :
    ((dealt pool hand is).2 i).length = (hand i).length + iDealCardCount := by
  induction is generalizing pool hand with
  | nil => cases hi
  | cons j js ih =>
    obtain ⟨hj, hnd⟩ := List.nodup_cons.mp hnd
    rw [List.length_cons, Nat.succ_mul] at hpool
    rw [dealt]
    by_cases he : i = j
    · subst he
      rw [dealt_frame hj, Function.update_self, List.length_append, List.length_take]
      omega
    · have hjs : i ∈ js := (List.mem_cons.mp hi).resolve_left he
      have hdrop : js.length * iDealCardCount ≤ (pool.drop iDealCardCount).length := by
        rw [List.length_drop]
        omega
      rw [ih hnd hdrop hjs, Function.update_of_ne he]

theorem procNextProgress_deal {dice : List Int} (h : s.progressIndex = 2) :
    procNextProgress c s dice = { processDealCards s dice with progressIndex := 3 } := by
  simp only [procNextProgress, h]

theorem procNextProgress_begin {dice : List Int} (h : s.progressIndex = 3) :
    procNextProgress c s dice =
      { { s with curSeat := 1, status := .drawCard }.startTimer .drawCard 3000 with progressIndex := 4 } := by
  simp only [procNextProgress, h]

/-- A seat that has discarded is offered nothing, and the others what they can claim. -/
theorem claimOps_discarded {card : Nat} {timers : Timer → Option Nat} :
    State.phaseOps { discarded c s s.curSeat card with status := .opOutCard, timers := timers } =
      claimOps s s.curSeat card := by
  funext i
  simp only [State.phaseOps, claimOps, State.lastOut, discarded, State.stopTimer, Function.update_self,
    List.getLast?_concat, Option.map_some, Option.getD_some]
  by_cases hi : i = s.curSeat
  · simp only [hi, if_true]
  · simp only [hi, if_false, Function.update_of_ne hi]

theorem hasOp_some {o : Seat → Offer} (ho : s.offers = some o) (h : s.hasOp = true) :
    ∃ i ∈ seats, 0 < (o i).iOpValue := by
  simp only [State.hasOp, ho, List.any_eq_true, decide_eq_true_eq] at h
  exact h

theorem turn_ne (hs : s.status = .opOutCard ∨ s.status = .opBuGangCard) : ¬ s.turnStatus := by
  rintro (h | h) <;> obtain hs | hs := hs <;> rw [hs] at h <;> cases h

theorem inv_of_stay {l : Label} (hi : Inv s) (h : Stay c s l t) : Inv t := by
  cases h with
  | aside =>
    cases hi with
    | start hs hix hpool hhand htm => exact .start hs hix hpool hhand htm
    | dealt hs hix heven htm => exact .dealt hs hix heven htm
    | first hs hix hcur heven htm => exact .first hs hix hcur heven htm
    | playing hp =>
      exact .playing ⟨hp.index, hp.status, hp.cur, hp.turn, hp.even, hp.offers, hp.gangs, hp.timers, hp.outCard⟩
  | @decline l o seat ho hp hop hany =>
    obtain ⟨o', ho', hoff, -⟩ := hp.offers
    rw [ho] at ho'
    cases ho'
    exact .playing ⟨hp.index, hp.status, hp.cur, hp.turn, hp.even, ⟨_, rfl, hoff.decline seat, fun _ => hany⟩,
      hp.gangs, hp.timers, hp.outCard⟩
  | deal hs hix =>
    rw [procNextProgress_deal (s := s.stopTimer .makeBanker) hix]
    cases hi with
    | start _ _ hpool hhand htm =>
      have hpool' : seats.length * iDealCardCount ≤ s.pool.length := hpool
      refine .dealt hs rfl ?_ ?_
      · intro i hi
        have hlen : ((dealt s.pool s.hand seats).2 i).length = (s.hand i).length + iDealCardCount :=
          length_dealt (by decide) hpool' hi
        rw [(hhand i).1] at hlen
        change ((dealt s.pool s.hand seats).2 i).length + 3 * (s.handle i).length = 13
        rw [hlen, (hhand i).2]
        rfl
      · intro key hkey
        by_cases hb : key = .makeBanker
        · subst hb
          rfl
        · have hnone := htm key hb
          change Function.update (Function.update s.timers .makeBanker none) .dealCards (some 2000) key = none
          rw [Function.update_of_ne hkey, Function.update_of_ne hb, hnone]
    | dealt _ hix' => rw [hix] at hix'; cases hix'
    | first _ hix' => rw [hix] at hix'; cases hix'
    | playing hp => rw [hp.index] at hix; cases hix
  | begin hs hix =>
    rw [procNextProgress_begin (s := s.stopTimer .dealCards) hix]
    cases hi with
    | dealt _ _ heven htm =>
      refine .first rfl rfl rfl heven ?_
      intro key hkey
      change Function.update (Function.update s.timers .dealCards none) .drawCard (some 3000) key = none
      rw [Function.update_of_ne hkey, Function.update_apply]
      split
      · rfl
      · rename_i hb
        exact htm key hb
    | start _ hix' => rw [hix] at hix'; cases hix'
    | first _ hix' => rw [hix] at hix'; cases hix'
    | playing hp => rw [hp.index] at hix; cases hix
  | claim hp hturn hwho hcard he hop =>
    subst he
    have heven := even_discarded hp hturn hcard
    refine .playing ⟨hp.index, .inr (.inl rfl), hp.cur, ?_, fun _ => heven, ?_, ?_, hp.timers, ?_⟩
    · exact fun ht => absurd ht (turn_ne (.inl rfl))
    · refine ⟨_, rfl, ?_, fun _ => hasOp_some rfl hop⟩
      rw [State.startTimer, claimOps_discarded]
      exact .of _
    · exact fun hbu => by cases hbu
    · exact fun hout => absurd rfl hout
  | passDraw hp hs hpass he =>
    subst he
    refine .playing ⟨hp.index, .inl rfl, hp.cur, fun _ => hp.turn (.inr hs), ?_, ?_, ?_, hp.timers, fun _ => rfl⟩
    · exact fun hno => absurd (.inl rfl) hno
    · refine ⟨_, rfl, .of _, ?_⟩
      rintro (h | h | h) <;> cases h
    · exact fun hbu => by cases hbu
  | stale hp hs =>
    refine .playing ⟨hp.index, .inl hs, hp.cur, fun _ => hp.turn (.inl hs), ?_, ?_, ?_, hp.timers, fun _ => hs⟩
    · exact fun hno => absurd (.inl hs) hno
    · have hphase : State.phaseOps { s.clearUserOp with timers := opStopped s.timers } = fun _ => [] := by
        funext i
        simp only [State.phaseOps, State.clearUserOp, hs]
      refine ⟨_, rfl, ?_, ?_⟩
      · rw [hphase]
        exact .of _
      · rintro (h | h | h) <;> rw [State.clearUserOp, hs] at h <;> cases h
    · intro hbu
      rw [State.clearUserOp, hs] at hbu
      cases hbu
  | @peng l seat offers u hp hseat hs hne hcount htake he =>
    subst he
    have hsize : ∀ i ∈ seats, (melded (operating s offers) seat ⟨PENG, s.lastOut⟩).size i =
        if i = seat then 14 else 13 := by
      intro i hi
      have heven := even_of_opOutCard hp hs i hi
      have hcount' : cardCount PENG ≤ (s.hand seat).count s.lastOut := by
        rw [cardCount_codes.1]
        exact hcount
      have hmeld := size_melded (operating s offers) ⟨PENG, s.lastOut⟩ hcount' i
      change (melded _ _ _).size i + (if i = seat then cardCount PENG else 0) =
        s.size i + if i = seat ∧ isBuGang PENG = false then 3 else 0 at hmeld
      rw [heven, cardCount_codes.1, peng_code.2.2.2] at hmeld
      split
      · rename_i hi
        simp only [hi, and_self, if_true] at hmeld
        rw [hi]
        omega
      · rename_i hi
        simp only [hi, false_and, if_false] at hmeld
        exact hmeld
    refine .playing ⟨hp.index, .inl rfl, hseat, fun _ => hsize, ?_, ?_, ?_, hp.timers, fun _ => rfl⟩
    · exact fun hno => absurd (.inl rfl) hno
    · refine ⟨_, rfl, ?_, ?_⟩
      · have hrob : (fun i => Offer.of (robOps (melded (operating s offers) seat ⟨PENG, s.lastOut⟩) seat
            ⟨PENG, s.lastOut⟩ i)) = fun _ => .of [] := by
          funext i
          rw [robOps_eq_nil peng_code.2.2.2]
        rw [hrob]
        exact .of _
      · rintro (h | h | h) <;> cases h
    · exact fun hbu => by cases hbu
  | @buGang l v m offers u hp hs hv hm he hpeng htake hu hop =>
    subst hu
    have hsize : ∀ i ∈ seats, (melded (operating s offers) s.curSeat ⟨BU_GANG, v⟩).size i = 13 :=
      even_buGang hp hs hv
    refine .playing ⟨hp.index, .inr (.inr (.inr rfl)), hp.cur, ?_, fun _ => hsize, ?_, ?_, hp.timers, ?_⟩
    · exact fun ht => absurd ht (turn_ne (.inr rfl))
    · refine ⟨_, rfl, ?_, fun _ => hasOp_some rfl hop⟩
      have hphase : State.phaseOps ({ buGanged c (operating s offers) s.curSeat v with
            gangs := s.gangs ++ [{ buGangInfo c s.curSeat s.curSeat v with iIsDone := false }]
            status := .opBuGangCard }.startTimer .opBuGangCard (c.iOperationTime * 1000)) =
          robOps (melded (operating s offers) s.curSeat ⟨BU_GANG, v⟩) s.curSeat ⟨BU_GANG, v⟩ := by
        funext i
        simp only [State.phaseOps, State.startTimer, List.getLast?_concat]
        rfl
      rw [hphase]
      exact .of _
    · exact fun _ => ⟨_, List.getLast?_concat .., rfl⟩
    · intro hout
      have hstatus := hp.outCard hout
      rw [hs] at hstatus
      cases hstatus

theorem nextSeat_ready {offers : Option (Seat → Offer)} (hp : Playing s) (hs : s.status = .opOutCard) :
    Ready { operating s offers with status := .drawCard } (nextSeat s.curSeat) := by
  have heven : Even s := even_of_opOutCard hp hs
  refine ⟨rfl, hp.index, heven, nextSeat_mem hp.cur, hp.timers, ?_⟩
  by_contra hout
  have hstatus := hp.outCard hout
  rw [hs] at hstatus
  cases hstatus

theorem ready_of_turn {l : Label} (hi : Inv s) (h : Turn c s l t seat) : Ready t seat := by
  cases h with
  | first hs hcur =>
    cases hi with
    | first _ hix _ heven htm =>
      refine ⟨hs, hix, heven, by decide, ?_, htm .outCard (by decide)⟩
      exact ⟨htm .makeBanker (by decide), htm .dealCards (by decide), rfl⟩
    | start hs' => rw [hs] at hs'; cases hs'
    | dealt hs' => rw [hs] at hs'; cases hs'
    | playing hp =>
      obtain h | h | h | h := hp.status <;> rw [hs] at h <;> cases h
  | discard hp hturn hwho hcard he hop =>
    subst he
    exact ⟨rfl, hp.index, even_discarded hp hturn hcard, nextSeat_mem hp.cur, hp.timers, rfl⟩
  | passOut hp hs hpass => exact nextSeat_ready hp hs
  | passBuGang hp hs hpass hg =>
    have heven : Even s := even_of_opBuGangCard hp hs
    refine ⟨rfl, hp.index, heven, hp.cur, hp.timers, ?_⟩
    by_contra hout
    have hstatus := hp.outCard hout
    rw [hs] at hstatus
    cases hstatus
  | @gang l seat offers u hp hseat hs hne hcount htake he =>
    subst he
    refine ⟨rfl, hp.index, ?_, hseat, hp.timers, ?_⟩
    · intro i hi
      have heven := even_of_opOutCard hp hs i hi
      have hcount' : cardCount GANG ≤ (s.hand seat).count s.lastOut := by
        rw [cardCount_codes.2.1]
        exact hcount
      have hmeld := size_melded (operating s offers) ⟨GANG, s.lastOut⟩ hcount' i
      change (melded _ _ _).size i + (if i = seat then cardCount GANG else 0) =
        s.size i + if i = seat ∧ isBuGang GANG = false then 3 else 0 at hmeld
      rw [heven, cardCount_codes.2.1, gang_code.2.2.2] at hmeld
      change (melded _ _ _).size i = 13
      by_cases hi : i = seat
      · simp only [hi, and_self, if_true] at hmeld ⊢
        omega
      · simp only [hi, false_and, if_false] at hmeld
        exact hmeld
    · by_contra hout
      have hstatus := hp.outCard hout
      rw [hs] at hstatus
      cases hstatus
  | buGang hp hs hv hm he hpeng htake hu hop =>
    subst hu
    refine ⟨rfl, hp.index, even_buGang hp hs hv, hp.cur, hp.timers, ?_⟩
    by_contra hout
    have hstatus := hp.outCard hout
    rw [hs] at hstatus
    cases hstatus

/-- What only the end of a round changes. -/
structure Unsettled (s t : State) : Prop where
  finished : t.finished = s.finished
  hus : t.hus = s.hus
  robbed : t.robbed = s.robbed
  settled : t.settled = s.settled
  reports : t.reports = s.reports
  money : t.money = s.money
  turnMoney : t.turnMoney = s.turnMoney

theorem unsettled_of_stay {l : Label} (h : Stay c s l t) : Unsettled s t := by
  cases h with
  | aside => exact ⟨rfl, rfl, rfl, rfl, rfl, rfl, rfl⟩
  | decline => exact ⟨rfl, rfl, rfl, rfl, rfl, rfl, rfl⟩
  | deal hs hix =>
    rw [procNextProgress_deal (s := s.stopTimer .makeBanker) hix]
    exact ⟨rfl, rfl, rfl, rfl, rfl, rfl, rfl⟩
  | begin hs hix =>
    rw [procNextProgress_begin (s := s.stopTimer .dealCards) hix]
    exact ⟨rfl, rfl, rfl, rfl, rfl, rfl, rfl⟩
  | claim hp hturn hwho hcard he hop =>
    subst he
    exact ⟨rfl, rfl, rfl, rfl, rfl, rfl, rfl⟩
  | passDraw hp hs hpass he =>
    subst he
    exact ⟨rfl, rfl, rfl, rfl, rfl, rfl, rfl⟩
  | stale => exact ⟨rfl, rfl, rfl, rfl, rfl, rfl, rfl⟩
  | peng hp hseat hs hne hcount htake he =>
    subst he
    exact ⟨rfl, rfl, rfl, rfl, rfl, rfl, rfl⟩
  | buGang hp hs hv hm he hpeng htake hu hop =>
    subst hu
    exact ⟨rfl, rfl, rfl, rfl, rfl, rfl, rfl⟩

theorem unsettled_of_turn {l : Label} (h : Turn c s l t seat) : Unsettled s t := by
  cases h with
  | first => exact ⟨rfl, rfl, rfl, rfl, rfl, rfl, rfl⟩
  | discard hp hturn hwho hcard he hop =>
    subst he
    exact ⟨rfl, rfl, rfl, rfl, rfl, rfl, rfl⟩
  | passOut => exact ⟨rfl, rfl, rfl, rfl, rfl, rfl, rfl⟩
  | passBuGang => exact ⟨rfl, rfl, rfl, rfl, rfl, rfl, rfl⟩
  | gang hp hseat hs hne hcount htake he =>
    subst he
    exact ⟨rfl, rfl, rfl, rfl, rfl, rfl, rfl⟩
  | buGang hp hs hv hm he hpeng htake hu hop =>
    subst hu
    exact ⟨rfl, rfl, rfl, rfl, rfl, rfl, rfl⟩

/-! ### The operation that is carried out -/

/-- `taking` names the operation that the handler carries out. -/
theorem handled_of_taking {l : Label} {r : Outcome} (htake : taking c s l = some (seat, op))
    (h : handled c s l = some r) : ∃ offers timers, r =
      if isWin op then
        onGameStopRound c (onDealClientUserHu c { s with offers := offers, timers := timers } seat op) 1
      else onDealClientUserTakeOp c { s with offers := offers, timers := timers } seat op := by
  have hall : ∀ (u : State) (o : Seat → Offer), u.offers = some o → firstSelected o seats = some (seat, op) →
      onClientUserHasAllOp c u = if isWin op
        then onGameStopRound c (onDealClientUserHu c { u with timers := opStopped u.timers } seat op) 1
        else onDealClientUserTakeOp c { u with timers := opStopped u.timers } seat op := by
    intro u o ho hfirst
    unfold onClientUserHasAllOp
    rw [stopTimers_eq]
    simp only [ho, hfirst]
    rfl
  have htimer : ∀ key, handled c s l = some (onClientUserHasAllOp c (s.stopTimer key)) →
      (s.offers.bind fun offers => firstSelected offers seats) = some (seat, op) → ∃ offers timers, r =
      if isWin op then
        onGameStopRound c (onDealClientUserHu c { s with offers := offers, timers := timers } seat op) 1
      else onDealClientUserTakeOp c { s with offers := offers, timers := timers } seat op := by
    intro key hl ht
    obtain ⟨o, ho, hfirst⟩ := Option.bind_eq_some_iff.mp ht
    rw [hl] at h
    cases h
    rw [hall (s.stopTimer key) o ho hfirst]
    exact ⟨s.offers, _, rfl⟩
  cases l with
  | takeOperation userId iOpValue iCardValue =>
    simp only [taking] at htake
    split at htake
    · rename_i hst
      split at htake
      · rename_i who o hu ho
        split at htake
        · cases htake
        · rename_i hany
          cases h
          have hst' : ¬ (s.status ≠ .opOutCard ∧ s.status ≠ .opDrawCard ∧ s.status ≠ .opBuGangCard) := by
            rintro ⟨h1, h2, h3⟩
            obtain h | h | h := hst
            · exact h1 h
            · exact h2 h
            · exact h3 h
          simp only [onClientCmdTakeOpreation, if_neg hst', hu, ho, hany]
          rw [if_neg Bool.false_ne_true, hall _ _ rfl htake]
          exact ⟨_, _, rfl⟩
      · cases htake
    · cases htake
  | timer key dice =>
    simp only [handled] at h
    split at h
    · rename_i time ht
      simp only [taking] at htake
      split at htake
      · rename_i hkey
        obtain ⟨rfl | rfl | rfl, -⟩ := hkey
        · exact htimer .opOutCard (by simp only [handled, ht]; rfl) htake
        · exact htimer .opDarwCard (by simp only [handled, ht]; rfl) htake
        · exact htimer .opBuGangCard (by simp only [handled, ht]; rfl) htake
      · cases htake
    · cases h
  | outCard => cases htake
  | requestAI => cases htake
  | reconnect => cases htake

/-- An operation is carried out for the sender of the message that selects it, to whom it is offered. -/
theorem taking_spec {l : Label} (hi : Inv s) (h : taking c s l = some (seat, op)) :
    ∃ userId o, l = .takeOperation userId op.iOpValue op.iCardValue ∧ c.playerOf userId = some seat ∧ s.opStatus ∧
      s.offers = some o ∧ 0 < (o seat).iOpValue ∧ op ∈ (o seat).iOpTable ∧ op ∈ s.phaseOps seat := by
  cases l with
  | takeOperation userId iOpValue iCardValue =>
    simp only [taking] at h
    split at h
    · rename_i hst
      obtain ⟨o, ho, hoff, -⟩ := (hi.playing_of_op hst).offers
      cases hu : c.playerOf userId with
      | none => simp only [hu] at h; cases h
      | some who =>
        simp only [hu, ho] at h
        obtain hdec | ⟨op', hmem, hpos, hval, hcard, -, hfirst⟩ := hoff.answered who iOpValue iCardValue
        · rw [hdec] at h
          split at h
          · cases h
          · rw [firstSelected_none (hoff.decline who).selected_none] at h
            cases h
        · split at h
          · cases h
          · rw [hfirst seats (mem_seats_of_playerOf hu)] at h
            cases h
            refine ⟨userId, o, ?_, hu, hst, ho, hpos, ?_, hmem⟩
            · rw [hval, hcard]
            · rw [hoff.table]
              exact hmem
    · cases h
  | timer key dice =>
    simp only [taking] at h
    split at h
    · rename_i hkey
      obtain ⟨o, ho, hoff, -⟩ := (hi.playing_of_timer hkey.1 hkey.2).offers
      rw [ho, Option.bind_some, firstSelected_none hoff.selected_none] at h
      cases h
    · cases h
  | outCard => cases h
  | requestAI => cases h
  | reconnect => cases h

/-! ### Runs -/

/-- No handler raises an error on the label. -/
def Returns (c : Config) (s : State) (l : Label) : Prop := ∀ t e, handled c s l ≠ some (.raised t e)

/-- What a step that raises no error does to a round that is not over after it. -/
inductive Goes (c : Config) (s : State) (l : Label) : State → Prop
  | stay {t : State} : Stay c s l t → Goes c s l t
  | draw {u : State} {seat : Seat} {card : Nat} {pool : List Nat} : Turn c s l u seat → u.pool = card :: pool →
      Goes c s l (drawn c { u with pool := pool } seat card)

theorem goes_of_step {l : Label} (hi : Inv s) (hret : Returns c s l) (h : step c s l = some t)
    (ht : t.finished = false) : Goes c s l t := by
  simp only [step] at h
  split at h
  · cases h
  · split at h
    · rename_i r hr
      cases h
      generalize hout : Outcome.returned t = out at hr
      cases outcome_cases hi hr with
      | stay hst =>
        cases hout
        exact .stay hst
      | turn hturn =>
        have hready := ready_of_turn hi hturn
        obtain ⟨card, pool, hpool, he⟩ | ⟨-, he⟩ := drawCard_cases (c := c) hready.status hready.seat_mem
        · rw [he] at hout
          cases hout
          exact .draw hturn hpool
        · rw [he] at hout
          rw [onGameStopRound_over hout.symm] at ht
          cases ht
      | win hwin =>
        rw [onGameStopRound_over hout.symm] at ht
        cases ht
      | anGang => cases hout
      | noReconnect => cases hout
    · rename_i r e hr
      exact absurd hr (hret r e)
    · cases h

theorem inv_of_goes {l : Label} (hi : Inv s) (h : Goes c s l t) : Inv t := by
  cases h with
  | stay hst => exact inv_of_stay hi hst
  | draw hturn hpool => exact .playing (playing_drawn (ready_of_turn hi hturn))

theorem length_mahjongPool : mahjongPool.length = 136 := by
  simp [mahjongPool, onGetCardTypeTable]

theorem inv_onGameStart (c : Config) {pool : List Nat} (hpool : pool.Perm mahjongPool) (money : Seat → Int) :
    Inv (onGameStart c pool money) := by
  refine .start rfl rfl ?_ (fun _ => ⟨rfl, rfl⟩) ?_
  · change 52 ≤ pool.length
    rw [hpool.length_eq, length_mahjongPool]
    decide
  · intro key hkey
    exact Function.update_of_ne hkey _ _

/-- The invariant rule for rounds: what the step of a round that goes on preserves, holds until the round is over. -/
theorem round_invariant {P : State → Prop} {G : State → Label → Prop} {ls : List Label}
    (hstep : ∀ s l t, Inv s → P s → G s l → Goes c s l t → P t) (hi : Inv s) (hs : P s)
    (hrun : Lts.run (step c) s ls = some t)
    (hg : Lts.Guarded (step c) (fun s l => Returns c s l ∧ G s l) s ls) : t.finished = true ∨ Inv t ∧ P t := by
  refine Lts.run_invariant_of_guarded (P := fun s => s.finished = true ∨ Inv s ∧ P s) ?_ hrun hg (.inr ⟨hi, hs⟩)
  rintro s l t hs ⟨hret, hg⟩ h
  obtain hover | ⟨hi, hs⟩ := hs
  · simp [step, hover] at h
  · cases hover : t.finished with
    | true => exact .inl rfl
    | false =>
      have hgo := goes_of_step hi hret h hover
      exact .inr ⟨inv_of_goes hi hgo, hstep s l t hi hs hg hgo⟩

theorem inv_of_run {ls : List Label} (hi : Inv s) (hrun : Lts.run (step c) s ls = some t)
    (hret : Lts.Guarded (step c) (Returns c) s ls) (ht : t.finished = false) : Inv t := by
  have hinv := Lts.run_invariant_of_guarded (P := fun s => s.finished = true ∨ Inv s) ?_ hrun hret (.inr hi)
  · exact hinv.resolve_left (by rw [ht]; exact Bool.false_ne_true)
  · intro s l t hs hret h
    obtain hover | hi := hs
    · simp [step, hover] at h
    · cases hover : t.finished with
      | true => exact .inl rfl
      | false => exact .inr (inv_of_goes hi (goes_of_step hi hret h hover))

/-! ### Hand sizes -/

/-- Each seat has 13 tiles, and the current player 14 exactly when it has to discard or may declare something. An
operation that is carried out finds its tiles, and a bu gang its peng. -/
theorem hand_size (c : Config) (pool : List Nat) (hpool : pool.Perm mahjongPool) (money : Seat → Int)
    (ls : List Label) (t : State) (hrun : Lts.run (step c) (onGameStart c pool money) ls = some t)
    (hret : Lts.Guarded (step c) (Returns c) (onGameStart c pool money) ls) (hover : t.finished = false) :
    (2 < t.progressIndex → ∀ i ∈ seats, (t.hand i).length + 3 * (t.handle i).length =
      if (t.status = .outCard ∨ t.status = .opDrawCard) ∧ i = t.curSeat then 14 else 13) ∧
    (t.status = .outCard ∨ t.status = .opDrawCard → t.curSeat ∈ seats) ∧
    ∀ l seat op, taking c t l = some (seat, op) →
      cardCount op.iOpValue ≤ (t.hand seat).count op.iCardValue ∧
      (isBuGang op.iOpValue = true → ∃ m ∈ t.handle seat, m.iCardValue = op.iCardValue ∧ isPeng m.iOpValue = true) := by
  have hi : Inv t := inv_of_run (inv_onGameStart c hpool money) hrun hret hover
  refine ⟨?_, ?_, ?_⟩
  · intro hdone i hmem
    cases hi with
    | start _ hix => omega
    | dealt hs _ heven =>
      rw [if_neg (by rw [hs]; simp)]
      exact heven i hmem
    | first hs _ _ heven =>
      rw [if_neg (by rw [hs]; simp)]
      exact heven i hmem
    | playing hp =>
      by_cases hturn : t.turnStatus
      · have hturn' : t.status = .outCard ∨ t.status = .opDrawCard := hturn
        simp only [hturn', true_and]
        exact hp.turn hturn i hmem
      · rw [if_neg fun h => hturn h.1]
        exact hp.even hturn i hmem
  · intro hturn
    cases hi with
    | start hs => rw [hs] at hturn; simp at hturn
    | dealt hs => rw [hs] at hturn; simp at hturn
    | first hs => rw [hs] at hturn; simp at hturn
    | playing hp => exact hp.cur
  · intro l seat op htake
    obtain ⟨-, -, -, -, -, -, -, -, hop⟩ := taking_spec hi htake
    obtain ⟨hpeng, hgang, hanGang, hbuGang⟩ := cardCount_codes
    have hwin : cardCount ZIMO = 0 ∧ isBuGang ZIMO = false ∧ cardCount QIANGGANGHU = 0 ∧
        isBuGang QIANGGANGHU = false := by decide
    cases phaseOp_of_mem hop with
    | peng _ _ hcount => exact ⟨by rw [hpeng]; exact hcount, fun h => by rw [peng_code.2.2.2] at h; cases h⟩
    | gang _ _ hcount => exact ⟨by rw [hgang]; exact hcount, fun h => by rw [gang_code.2.2.2] at h; cases h⟩
    | anGang _ _ hcount => exact ⟨by rw [hanGang]; exact hcount, fun h => by rw [anGang_code.2.2.2] at h; cases h⟩
    | buGang _ _ hv hm he hp =>
      exact ⟨by rw [hbuGang]; exact List.count_pos_iff.mpr hv, fun _ => ⟨_, hm, he, hp⟩⟩
    | ziMo => exact ⟨by rw [hwin.1]; exact Nat.zero_le _, fun h => by rw [hwin.2.1] at h; cases h⟩
    | qiangGangHu => exact ⟨by rw [hwin.2.2.1]; exact Nat.zero_le _, fun h => by rw [hwin.2.2.2] at h; cases h⟩

/-! ### A stacked wall -/

/-- A wall as `onStackCard` makes it: the tiles dealt to the four seats, the first draws, and the other tiles. -/
def stacked (draws : List Nat) : List Nat :=
  let front :=
    [0x01, 0x01, 0x01, 0x02, 0x02, 0x02, 0x03, 0x03, 0x03, 0x04, 0x04, 0x04, 0x05] ++
    [0x11, 0x11, 0x11, 0x12, 0x12, 0x12, 0x13, 0x13, 0x13, 0x14, 0x14, 0x14, 0x15] ++
    [0x21, 0x21, 0x21, 0x22, 0x22, 0x22, 0x23, 0x23, 0x23, 0x24, 0x24, 0x24, 0x25] ++
    [0x31, 0x31, 0x31, 0x32, 0x32, 0x32, 0x33, 0x33, 0x33, 0x34, 0x34, 0x04, 0x05] ++ draws
  front ++ mahjongPool.diff front

/-- The first draws are tiles that are not dealt. -/
theorem stacked_perm {draws : List Nat}
    (h : draws.Subperm [0x01, 0x03, 0x05, 0x07, 0x07, 0x08, 0x08, 0x09, 0x09, 0x09]) :
    (stacked draws).Perm mahjongPool := by
  have hall : (stacked [0x01, 0x03, 0x05, 0x07, 0x07, 0x08, 0x08, 0x09, 0x09, 0x09]).Perm mahjongPool := by
    decide +kernel
  have hfront := (List.sublist_append_left _ _).subperm.trans hall.subperm
  exact List.subperm_append_diff_self_of_count_le
    (List.subperm_ext_iff.mp (((List.subperm_append_left _).mpr h).trans hfront))

/-- A coin room with four players. -/
def room : Config :=
  { iBasePoint := 10
    iServerFee := 0
    iOperationTime := 10
    iOutCardTime := 15
    isBattleRoom := false
    iCurRound := 0
    userId := fun i => 100 + i
    isRobot := fun _ => false
    userId_inj := fun i _ j _ h => by simpa using h }

abbrev stackedStart (draws : List Nat) : State := onGameStart room (stacked draws) fun _ => 1000

/-- The deal and the first draw. -/
def opening : List Label := [.timer .makeBanker [], .timer .dealCards [], .timer .drawCard []]

/-- A test for `Returns`. -/
def returns (c : Config) (s : State) (l : Label) : Bool :=
  match handled c s l with
  | some (.raised _ _) => false
  | _ => true

theorem returns_of_test {l : Label} (h : returns c s l = true) : Returns c s l := by
  intro t e he
  simp only [returns, he] at h
  cases h

/-- The tile 3 is a peng of the first player, who then draws with the fourth one in hand. -/
def pengOfThree : List Label :=
  opening ++ ([.outCard 101 0x07, .outCard 102 0x03, .takeOperation 101 0x08 0x03, .outCard 101 0x05,
    .outCard 102 0x15, .outCard 103 0x08, .outCard 104 0x09] : List Label)

theorem hand_size_pengOfThree : ∃ t,
    Lts.run (step room) (stackedStart [0x07, 0x03, 0x08, 0x08, 0x09, 0x09]) pengOfThree = some t ∧
    (t.hand 1).length + 3 * (t.handle 1).length = 14 ∧
    ∃ m ∈ t.handle 1, m.iCardValue = 3 ∧ isPeng m.iOpValue = true := by
  have htest : Lts.check (step room) (returns room) (fun t => !t.finished && decide (t.progressIndex = 4) &&
      decide (t.status = .opDrawCard) && decide (t.curSeat = 1) &&
      decide (taking room t (.takeOperation 101 0x40 0x03) = some (1, ⟨BU_GANG, 3⟩)))
      (stackedStart [0x07, 0x03, 0x08, 0x08, 0x09, 0x09]) pengOfThree = true := by decide +kernel
  obtain ⟨t, hrun, hret, ht⟩ := Lts.of_check (fun _ _ => returns_of_test) htest
  simp only [Bool.and_eq_true, Bool.not_eq_true', decide_eq_true_eq] at ht
  obtain ⟨⟨⟨⟨hover, hix⟩, hs⟩, hcur⟩, htake⟩ := ht
  have hsize := hand_size room _ (stacked_perm (by decide)) _ _ t hrun hret hover
  refine ⟨t, hrun, ?_, (hsize.2.2 _ _ _ htake).2 rfl⟩
  have hone := hsize.1 (by omega) 1 (by decide)
  rw [hs, hcur] at hone
  simpa using hone

end Mahjong
end Skynet
