import Mathlib.Logic.Function.Basic
import Mathlib.Data.List.Basic
import Skynet.Mahjong.Turns

/-!
# Skynet.Mahjong.Secrecy

What the packets tell a player about the tiles of the others. Two runs with the same labels, that differ only in the
wall and in the hands of the other players, are told apart by the reconnect packet: it has every hand, where the packet
of the deal has zeros for the tiles of the others.

* `Alike` : the two states agree on what a player may know.
* `outCard_told`, `hasAllOp_told` : the packets of a handler, from what the player may know before and after.
* `hidden_information` : a player who gets no reconnect packet is told the same in both runs.
-/

namespace Skynet
namespace Mahjong

variable {c : Config} {s t : State} {p seat : Seat} {op : Op}

def Packet.isStopRound : Packet → Bool
  | .stopRound .. => true
  | _ => false

/-- The packets that were sent to a player, without those of the end of the round. -/
def State.told (s : State) (p : Seat) : List Packet :=
  (s.sent.filter fun x => decide (x.1 = p) && !x.2.isStopRound).map Prod.snd

/-- The states agree on everything but the tiles in the wall and in the hands of the others. -/
structure Alike (p : Seat) (s t : State) : Prop where
  hand : s.hand p = t.hand p
  sizes : ∀ i ∈ seats, (s.hand i).length = (t.hand i).length
  wall : s.pool.length = t.pool.length
  handle : ∀ i ∈ seats, s.handle i = t.handle i
  out : ∀ i ∈ seats, s.out i = t.out i
  offers : ∀ i ∈ seats, (s.offers.map fun o => o i) = t.offers.map fun o => o i
  status : s.status = t.status
  curSeat : s.curSeat = t.curSeat
  banker : s.banker = t.banker
  index : s.progressIndex = t.progressIndex
  gangs : s.gangs.length = t.gangs.length

/-- Two rounds that get the same messages and timers. -/
def both (c : Config) (st : State × State) (l : Label) : Option (State × State) :=
  match step c st.1 l, step c st.2 l with
  | some s, some t => some (s, t)
  | _, _ => none

/-! ### Packets -/

theorem told_append (s : State) (sent : List (Seat × Packet)) (p : Seat) :
    State.told { s with sent := s.sent ++ sent } p =
      s.told p ++ (sent.filter fun x => decide (x.1 = p) && !x.2.isStopRound).map Prod.snd := by
  simp only [State.told, List.filter_append, List.map_append]

/-- One packet for each seat of a list. -/
theorem told_each {is : List Seat} (hnd : is.Nodup) (s : State) (f : Seat → Packet)
    (hf : ∀ i, (f i).isStopRound = false) :
    State.told { s with sent := s.sent ++ is.map fun i => (i, f i) } p = s.told p ++ if p ∈ is then [f p] else [] := by
  rw [told_append]
  congr 1
  induction is with
  | nil => rfl
  | cons i is ih =>
    obtain ⟨hi, hnd⟩ := List.nodup_cons.mp hnd
    by_cases hp : i = p
    · subst hp
      rw [List.map_cons, List.filter_cons_of_pos (by simp [hf]), List.map_cons, ih hnd, if_neg hi,
        if_pos (List.mem_cons_self ..)]
    · have hp' : p ≠ i := fun h => hp h.symm
      rw [List.map_cons, List.filter_cons_of_neg (by simp [hp]), ih hnd]
      simp only [List.mem_cons, hp', false_or]

theorem seats_nodup : seats.Nodup := by decide

theorem told_seats (hp : p ∈ seats) (s : State) (f : Seat → Packet) (hf : ∀ i, (f i).isStopRound = false) :
    State.told { s with sent := s.sent ++ seats.map fun i => (i, f i) } p = s.told p ++ [f p] := by
  rw [told_each seats_nodup s f hf, if_pos hp]

theorem told_broadcast (hp : p ∈ seats) (s : State) {packet : Packet} (hstop : packet.isStopRound = false)
    (userId : Int) : (s.broadcast c packet userId).told p =
      s.told p ++ if c.userId p = userId then [] else [packet] := by
  rw [State.broadcast, told_each (seats_nodup.filter _) s (fun _ => packet) fun _ => hstop]
  congr 1
  by_cases hu : c.userId p = userId
  · rw [if_pos hu, if_neg]
    intro hmem
    simp [hu] at hmem
  · rw [if_neg hu, if_pos]
    exact List.mem_filter.mpr ⟨hp, decide_eq_true hu⟩

/-! ### Drawing -/

/-- What a player is told of a draw at `seat`, with the state after it. -/
def drawPart (c : Config) (p seat : Seat) (s s' : State) : List Packet :=
  if s'.pool.length = s.pool.length ∨ seat ∉ seats then []
  else if seat = p then
    let card := (s'.hand p).getLast?.getD 0
    [.grabCard card (onGetUserOpValueWhenDrawCard (s'.hand p) (s'.handle p) card)]
  else [.currentPlayer (c.userId seat)]

theorem stop_told (c : Config) (s : State) (result : Nat) (p : Seat) :
    (onGameStopRound c s result).state.told p = s.told p ∧
      (onGameStopRound c s result).state.out = s.out ∧
      ((onGameStopRound c s result).state.pool = s.pool ∨
        (onGameStopRound c s result).state.pool = s.pool.drop 4) := by
  unfold onGameStopRound
  simp only []
  split
  · exact ⟨rfl, rfl, .inl rfl⟩
  · split
    · refine ⟨?_, rfl, .inr rfl⟩
      have hnone : ∀ is : List Seat, ∀ packet : Packet, packet.isStopRound = true →
          ((is.map fun i => (i, packet)).filter fun x => decide (x.1 = p) && !x.2.isStopRound) = [] := by
        intro is packet hstop
        rw [List.filter_eq_nil_iff]
        intro x hx
        obtain ⟨i, -, rfl⟩ := List.mem_map.mp hx
        simp [hstop]
      simp only [Outcome.state, State.tableStop, State.told, State.reset, State.clearAllRoundTimer, State.broadcast,
        List.filter_append, List.map_append]
      rw [hnone _ _ rfl, List.map_nil, List.append_nil]
    · exact ⟨rfl, rfl, .inr rfl⟩

theorem drawn_told {card : Nat} {pool : List Nat} (hp : p ∈ seats) (hseat : seat ∈ seats)
    (hpool : s.pool = card :: pool) :
    (drawn c { s with pool := pool } seat card).told p =
      s.told p ++ drawPart c p seat s (drawn c { s with pool := pool } seat card) := by
  have hlen : ¬ ((drawn c { s with pool := pool } seat card).pool.length = s.pool.length ∨ seat ∉ seats) := by
    change ¬ (pool.length = s.pool.length ∨ seat ∉ seats)
    rw [hpool, List.length_cons]
    rintro (h | h)
    · omega
    · exact h hseat
  have hpart : drawPart c p seat s (drawn c { s with pool := pool } seat card) =
      if seat = p then ([.grabCard card (drawOps s p card)] : List Packet) else [.currentPlayer (c.userId seat)] := by
    rw [drawPart, if_neg hlen]
    split
    · rename_i he
      subst he
      simp [drawn, drawOps]
    · rfl
  have hsent : (drawn c { s with pool := pool } seat card).told p = State.told
      { s with sent := s.sent ++ drawPackets c seat card (drawOps s seat card) } p := rfl
  have hothers : (s.broadcast c (.currentPlayer (c.userId seat)) (c.userId seat)).told p =
      s.told p ++ if c.userId p = c.userId seat then [] else ([.currentPlayer (c.userId seat)] : List Packet) :=
    told_broadcast hp s rfl (c.userId seat)
  have hself := told_append (s.broadcast c (.currentPlayer (c.userId seat)) (c.userId seat))
    [(seat, .grabCard card (drawOps s seat card))] p
  rw [hpart, hsent, drawPackets, ← List.append_assoc]
  refine hself.trans ?_
  rw [hothers, List.append_assoc]
  congr 1
  by_cases he : seat = p
  · subst he
    simp [Packet.isStopRound]
  · have hu : ¬ c.userId p = c.userId seat := fun h => he (c.userId_inj p hp seat hseat h).symm
    simp [he, hu]

theorem drawCard_told (seat : Seat) (hp : p ∈ seats) :
    (drawCard c s seat).state.told p = s.told p ++ drawPart c p seat s (drawCard c s seat).state ∧
      (drawCard c s seat).state.out = s.out := by
  have hsame : ∀ u : State, u.pool = s.pool → drawPart c p seat s u = [] := by
    intro u hu
    exact if_pos (.inl (by rw [hu]))
  unfold drawCard
  split
  · exact ⟨by rw [Outcome.state, hsame s rfl, List.append_nil], rfl⟩
  · split
    · rename_i hpool
      obtain ⟨htold, hout, hdrop⟩ := stop_told c s 0 p
      refine ⟨?_, hout⟩
      rw [htold, hsame, List.append_nil]
      obtain h | h := hdrop
      · exact h
      · rw [h, hpool]
        rfl
    · rename_i card pool hpool
      split
      · rename_i hseat
        exact ⟨drawn_told hp hseat hpool, rfl⟩
      · rename_i hseat
        have hnil : drawPart c p seat s { s with pool := pool } = [] := if_pos (.inr hseat)
        refine ⟨?_, rfl⟩
        rw [Outcome.state, hnil, List.append_nil]
        rfl

/-! ### Handlers -/

/-- Without a draw nothing more is told. -/
theorem told_still {s' : State} {packets : List Packet} (htold : s'.told p = packets) (hpool : s'.pool = s.pool) :
    s'.told p = packets ++ drawPart c p seat s s' := by
  rw [drawPart, if_pos (.inl (by rw [hpool])), List.append_nil, htold]

/-- A discard that is accepted shows in the discard list. -/
theorem outCard_told (hp : p ∈ seats) (s : State) (userId v : Int) :
    (onClientCmdOutCard c s userId v).state = s ∨ s.curSeat ∈ seats ∧ ∃ card,
      (onClientCmdOutCard c s userId v).state.out =
        Function.update s.out s.curSeat (s.out s.curSeat ++ [⟨card, 0, s.outCardNum + 1⟩]) ∧
      (onClientCmdOutCard c s userId v).state.told p =
        s.told p ++ [Packet.outCard (c.userId s.curSeat) card (claimOps s s.curSeat card p)] ++
          drawPart c p (nextSeat s.curSeat) s (onClientCmdOutCard c s userId v).state := by
  unfold onClientCmdOutCard
  split
  · exact .inl rfl
  · rename_i seat hu
    split
    · exact .inl rfl
    · rename_i card hf
      split
      · exact .inl rfl
      · split
        · exact .inl rfl
        · rename_i hcur
          have hcur' : s.curSeat = seat := by simpa using hcur
          subst hcur'
          have htold : (discarded c s s.curSeat card).told p =
              s.told p ++ [Packet.outCard (c.userId s.curSeat) card (claimOps s s.curSeat card p)] :=
            told_seats hp s (fun i => .outCard (c.userId s.curSeat) card (claimOps s s.curSeat card i)) fun _ => rfl
          refine .inr ⟨mem_seats_of_playerOf hu, card, ?_⟩
          simp only []
          split
          · exact ⟨rfl, told_still htold rfl⟩
          · obtain ⟨hdraw, hout⟩ := drawCard_told (c := c) (nextSeat s.curSeat)
              (s := { discarded c s s.curSeat card with status := .drawCard, curSeat := 0 }) hp
            refine ⟨hout, ?_⟩
            rw [← htold]
            exact hdraw

/-- An an gang is not broadcast: the error comes first. -/
def isBroadcast (op : Op) : Bool := !isAnGang op.iOpValue || isGang op.iOpValue || isBuGang op.iOpValue

/-- What a player is told when the offers are answered, with the state after it. -/
def answerPart (c : Config) (p : Seat) (s s' : State) : List Packet :=
  match s.offers with
  | none => []
  | some o =>
    match firstSelected o seats with
    | some (i, op) =>
      if isWin op then []
      else if isBroadcast op then
        .takeOperation (c.userId i) op s.curSeat (robOps s i op p) :: drawPart c p i s s'
      else []
    | none => drawPart c p (if s.status = .opOutCard then nextSeat s.curSeat else s.curSeat) s s'

theorem onDealGangTurnMoney_cases (c : Config) (s : State) (seat : Seat) (op : Op) :
    isBroadcast op = false ∧ onDealGangTurnMoney c s seat op = none ∨
      isBroadcast op = true ∧ ∃ gangs, onDealGangTurnMoney c s seat op = some { s with gangs := gangs } := by
  simp only [isBroadcast, onDealGangTurnMoney, onSetGangTurnMonyInfo]
  cases isAnGang op.iOpValue with
  | false =>
    cases isBuGang op.iOpValue with
    | false => exact .inr ⟨rfl, s.gangs, rfl⟩
    | true =>
      cases isGang op.iOpValue with
      | false => exact .inr ⟨rfl, _, rfl⟩
      | true => exact .inr ⟨rfl, _, rfl⟩
  | true =>
    cases isBuGang op.iOpValue with
    | false =>
      cases isGang op.iOpValue with
      | false => exact .inl ⟨rfl, rfl⟩
      | true => exact .inr ⟨rfl, _, rfl⟩
    | true =>
      cases isGang op.iOpValue with
      | false => exact .inr ⟨rfl, _, rfl⟩
      | true => exact .inr ⟨rfl, _, rfl⟩

theorem hu_told (s : State) (seat : Seat) (op : Op) : (onDealClientUserHu c s seat op).told p = s.told p := by
  simp only [onDealClientUserHu]
  split
  · rfl
  · rfl

theorem takeOp_told (hp : p ∈ seats) (s : State) (seat : Seat) (op : Op) :
    (onDealClientUserTakeOp c s seat op).state.told p = s.told p ++ if isBroadcast op then
      .takeOperation (c.userId seat) op s.curSeat (robOps s seat op p) ::
        drawPart c p seat s (onDealClientUserTakeOp c s seat op).state
      else [] := by
  unfold onDealClientUserTakeOp
  simp only []
  obtain ⟨hno, hmoney⟩ | ⟨hyes, gangs, hmoney⟩ := onDealGangTurnMoney_cases c (melded s seat op) seat op
  · rw [hmoney, hno]
    exact (List.append_nil _).symm
  · rw [hmoney, hyes, if_pos rfl]
    simp only []
    have htold : (taken c { melded s seat op with gangs := gangs } seat op).told p =
        s.told p ++ [Packet.takeOperation (c.userId seat) op s.curSeat (robOps s seat op p)] := by
      rw [← robOps_melded s op p]
      exact told_seats hp { melded s seat op with gangs := gangs }
        (fun i => .takeOperation (c.userId seat) op s.curSeat (robOps (melded s seat op) seat op i)) fun _ => rfl
    rw [← List.singleton_append, ← List.append_assoc, ← htold]
    split
    · split
      · exact told_still rfl rfl
      · exact told_still rfl rfl
    · split
      · exact (drawCard_told (c := c) seat hp
          (s := { taken c { melded s seat op with gangs := gangs } seat op with
            status := .drawCard, curSeat := 0 })).1
      · exact told_still rfl rfl

theorem allPassed_told (hp : p ∈ seats) (s : State) : (allPassed c s).state.told p = s.told p ++
    drawPart c p (if s.status = .opOutCard then nextSeat s.curSeat else s.curSeat) s (allPassed c s).state := by
  unfold allPassed
  simp only []
  split
  · rename_i hs
    have hs' : s.status = .opOutCard := hs
    rw [if_pos hs']
    exact (drawCard_told (c := c) (nextSeat s.curSeat) hp
      (s := { s.clearUserOp with status := .drawCard })).1
  · split
    · exact told_still rfl rfl
    · exact told_still rfl rfl
  · rename_i hs
    have hs' : ¬ s.status = .opOutCard := by
      have hbu : s.status = .opBuGangCard := hs
      rw [hbu]
      nofun
    rw [if_neg hs']
    split
    · exact told_still rfl rfl
    · rename_i gangs hg
      exact (drawCard_told (c := c) s.curSeat hp
        (s := { s.clearUserOp with gangs := gangs, status := .drawCard })).1
  · exact told_still rfl rfl

theorem hasAllOp_told (hp : p ∈ seats) (s : State) : (onClientUserHasAllOp c s).state.told p =
    s.told p ++ answerPart c p s (onClientUserHasAllOp c s).state := by
  cases ho : s.offers with
  | none =>
    simp only [onClientUserHasAllOp, stopTimers_eq, answerPart, ho]
    exact (List.append_nil _).symm
  | some o =>
    cases hsel : firstSelected o seats with
    | none =>
      simp only [onClientUserHasAllOp, stopTimers_eq, answerPart, ho, hsel]
      exact allPassed_told hp { s with offers := some o, timers := opStopped s.timers }
    | some x =>
      obtain ⟨i, op⟩ := x
      simp only [onClientUserHasAllOp, stopTimers_eq, answerPart, ho, hsel]
      split
      · rename_i hwin
        have hwin' : isWin op = true := hwin
        rw [if_pos hwin', List.append_nil, (stop_told c _ 1 p).1, hu_told]
        rfl
      · rename_i hwin
        have hwin' : ¬ isWin op = true := hwin
        rw [if_neg hwin']
        exact takeOp_told hp { s with offers := some o, timers := opStopped s.timers } i op

/-! ### Two runs -/

theorem drawPart_congr {s' t' : State} (hp : p ∈ seats) (ha : Alike p s t) (ha' : Alike p s' t') :
    drawPart c p seat s s' = drawPart c p seat t t' := by
  simp only [drawPart, ha.wall, ha'.wall, ha'.hand, ha'.handle p hp]

theorem firstSelected_congr {o o' : Seat → Offer} {is : List Seat} (h : ∀ i ∈ is, o i = o' i) :
    firstSelected o is = firstSelected o' is := by
  induction is with
  | nil => rfl
  | cons i is ih =>
    simp only [firstSelected, h i (List.mem_cons_self ..), ih fun j hj => h j (List.mem_cons_of_mem _ hj)]

/-- The offers of both states, if there are any. -/
theorem Alike.offers_cases (ha : Alike p s t) : s.offers = none ∧ t.offers = none ∨
    ∃ o o', s.offers = some o ∧ t.offers = some o' ∧ ∀ i ∈ seats, o i = o' i := by
  have hone := ha.offers 1 (by decide)
  cases hs : s.offers with
  | none =>
    cases ht : t.offers with
    | none => exact .inl ⟨rfl, rfl⟩
    | some o' => rw [hs, ht] at hone; cases hone
  | some o =>
    cases ht : t.offers with
    | none => rw [hs, ht] at hone; cases hone
    | some o' =>
      refine .inr ⟨o, o', rfl, rfl, fun i hi => ?_⟩
      have hi' := ha.offers i hi
      rw [hs, ht] at hi'
      exact Option.some.inj hi'

theorem answerPart_congr {s' t' : State} (hp : p ∈ seats) (ha : Alike p s t) (ha' : Alike p s' t') :
    answerPart c p s s' = answerPart c p t t' := by
  obtain ⟨hs, ht⟩ | ⟨o, o', hs, ht, hoff⟩ := ha.offers_cases
  · simp only [answerPart, hs, ht]
  · have hrob : ∀ seat op, robOps s seat op p = robOps t seat op p := by
      intro seat op
      simp only [robOps, ha.hand]
    simp only [answerPart, hs, ht, firstSelected_congr hoff, ha.status, ha.curSeat, hrob, drawPart_congr hp ha ha']

theorem answered_congr {o o' : Seat → Offer} (h : ∀ i ∈ seats, o i = o' i) (hseat : seat ∈ seats)
    (iOpValue iCardValue : Int) {i : Seat} (hi : i ∈ seats) :
    answered o seat iOpValue iCardValue i = answered o' seat iOpValue iCardValue i := by
  simp only [answered, h seat hseat]
  cases (o' seat).select iOpValue iCardValue with
  | none => simp only [Function.update_apply, h i hi]
  | some op =>
    simp only []
    split
    · simp only [Function.update_apply, h i hi]
    · simp only [h i hi]

theorem hasAllOp_congr (hp : p ∈ seats) (ha : Alike p s t) (hsame : s.told p = t.told p)
    (ha' : Alike p (onClientUserHasAllOp c s).state (onClientUserHasAllOp c t).state) :
    (onClientUserHasAllOp c s).state.told p = (onClientUserHasAllOp c t).state.told p := by
  rw [hasAllOp_told hp, hasAllOp_told hp, hsame, answerPart_congr hp ha ha']

theorem takeOperation_congr {userId iOpValue iCardValue : Int} (hp : p ∈ seats) (ha : Alike p s t)
    (hsame : s.told p = t.told p) (ha' : Alike p (onClientCmdTakeOpreation c s userId iOpValue iCardValue).state
      (onClientCmdTakeOpreation c t userId iOpValue iCardValue).state) :
    (onClientCmdTakeOpreation c s userId iOpValue iCardValue).state.told p =
      (onClientCmdTakeOpreation c t userId iOpValue iCardValue).state.told p := by
  revert ha'
  simp only [onClientCmdTakeOpreation, ha.status]
  split
  · exact fun _ => hsame
  · split
    · exact fun _ => hsame
    · rename_i seat hu
      obtain ⟨hs, ht⟩ | ⟨o, o', hs, ht, hoff⟩ := ha.offers_cases
      · simp only [hs, ht]
        exact fun _ => hsame
      · simp only [hs, ht]
        have hans : ∀ i ∈ seats, answered o seat iOpValue iCardValue i = answered o' seat iOpValue iCardValue i :=
          fun i hi => answered_congr hoff (mem_seats_of_playerOf hu) iOpValue iCardValue hi
        have hany : (seats.any fun i => (answered o seat iOpValue iCardValue i).pending) =
            seats.any fun i => (answered o' seat iOpValue iCardValue i).pending := by
          rw [Bool.eq_iff_iff, List.any_eq_true, List.any_eq_true]
          refine exists_congr fun i => and_congr_right fun hi => ?_
          rw [hans i hi]
        rw [hany]
        split
        · exact fun _ => hsame
        · refine hasAllOp_congr hp ⟨ha.hand, ha.sizes, ha.wall, ha.handle, ha.out, ?_, rfl, ha.curSeat,
            ha.banker, ha.index, ha.gangs⟩ hsame
          exact fun i hi => congrArg some (hans i hi)

/-- A discard of the same player shows in both runs. -/
theorem outCard_congr {userId v v' : Int} (hp : p ∈ seats) (ha : Alike p s t) (hsame : s.told p = t.told p)
    (ha' : Alike p (onClientCmdOutCard c s userId v).state (onClientCmdOutCard c t userId v').state) :
    (onClientCmdOutCard c s userId v).state.told p = (onClientCmdOutCard c t userId v').state.told p := by
  have hgrown : ∀ (xs : List Card) (x : Card), xs ++ [x] ≠ xs := by
    intro xs x h
    have hlen := congrArg List.length h
    rw [List.length_append, List.length_singleton] at hlen
    omega
  obtain hs | ⟨hcur, card, hout, htold⟩ := outCard_told (c := c) hp s userId v
  · obtain ht | ⟨hcur, card, hout, htold⟩ := outCard_told (c := c) hp t userId v'
    · rw [hs, ht, hsame]
    · have hcon := ha'.out t.curSeat hcur
      rw [hs, hout, Function.update_self, ha.out t.curSeat hcur] at hcon
      exact absurd hcon.symm (hgrown _ _)
  · obtain ht | ⟨hcur', card', hout', htold'⟩ := outCard_told (c := c) hp t userId v'
    · have hcon := ha'.out s.curSeat hcur
      rw [ht, hout, Function.update_self, ← ha.out s.curSeat hcur] at hcon
      exact absurd hcon (hgrown _ _)
    · have hboth := ha'.out s.curSeat hcur
      rw [hout, hout', ← ha.curSeat, Function.update_self, Function.update_self, ha.out s.curSeat hcur] at hboth
      have hcard : card = card' := by
        have hlast := List.append_cancel_left hboth
        simp only [List.cons.injEq, Card.mk.injEq] at hlast
        exact hlast.1.1
      have hclaim : claimOps s s.curSeat card p = claimOps t s.curSeat card p := by
        simp only [claimOps, ha.hand]
      rw [htold, htold', hsame, ← ha.curSeat, ← hcard, hclaim, drawPart_congr hp ha ha']

/-- The packet of the deal has zeros for the tiles of the others. -/
theorem dealPacket_congr {dice : List Int} (ha : Alike p s t) : dealPacket s dice p = dealPacket t dice p := by
  have hmask : (seats.map fun i => (i, (s.hand i).map fun v => if i = p then v else 0)) =
      seats.map fun i => (i, (t.hand i).map fun v => if i = p then v else 0) := by
    refine List.map_congr_left fun i hi => ?_
    by_cases he : i = p
    · subst he
      rw [ha.hand]
    · simp only [he, if_false, List.map_const', ha.sizes i hi]
  rw [dealPacket, dealPacket, ha.banker, hmask]

theorem progress_congr {dice : List Int} (hp : p ∈ seats) (ha : Alike p s t) (hsame : s.told p = t.told p)
    (ha' : Alike p (procNextProgress c s dice) (procNextProgress c t dice)) :
    (procNextProgress c s dice).told p = (procNextProgress c t dice).told p := by
  have hdeal : ∀ u : State, u.progressIndex = 2 → (procNextProgress c u dice).told p =
      u.told p ++ [dealPacket (procNextProgress c u dice) dice p] := by
    intro u hu
    rw [procNextProgress_deal hu]
    exact told_seats hp { u with pool := (dealt u.pool u.hand seats).1, hand := (dealt u.pool u.hand seats).2 }
      (fun i => dealPacket { u with
        pool := (dealt u.pool u.hand seats).1, hand := (dealt u.pool u.hand seats).2 } dice i) fun _ => rfl
  by_cases htwo : s.progressIndex = 2
  · rw [hdeal s htwo, hdeal t (ha.index.symm.trans htwo), hsame, dealPacket_congr ha']
  · have hrest : ∀ u : State, u.progressIndex = s.progressIndex → (procNextProgress c u dice).told p =
        u.told p ++ if s.progressIndex = 1 then
          (if c.userId p = -1 then []
          else ([.readyStart 1 [] (if c.isBattleRoom then some c.iCurRound else none)] : List Packet)) else [] := by
      intro u hu
      simp only [procNextProgress, hu]
      split
      · rename_i h
        rw [if_pos h]
        exact told_broadcast (c := c) hp { u with banker := 1, curSeat := 1 } rfl (-1)
      · rename_i h
        exact absurd h htwo
      · rename_i h _
        rw [if_neg h, List.append_nil]
        rfl
    rw [hrest s rfl, hrest t ha.index.symm, hsame]

/-- The timer of a discard: both players discard, or neither has a tile. -/
theorem timeOut_congr (hp : p ∈ seats) (ha : Alike p s t) (hsame : s.told p = t.told p)
    (ha' : Alike p (onOutCardTimerTimeOut c s).state (onOutCardTimerTimeOut c t).state) :
    (onOutCardTimerTimeOut c s).state.told p = (onOutCardTimerTimeOut c t).state.told p := by
  revert ha'
  simp only [onOutCardTimerTimeOut, ha.curSeat]
  split
  · rename_i hcur
    have hsize := ha.sizes t.curSeat hcur
    cases hs : (s.hand t.curSeat).getLast? with
    | none =>
      rw [List.getLast?_eq_none_iff] at hs
      have ht : t.hand t.curSeat = [] := by
        rw [hs, List.length_nil] at hsize
        exact List.length_eq_zero_iff.mp hsize.symm
      simp only [ht, List.getLast?_nil]
      exact fun _ => hsame
    | some card =>
      cases ht : (t.hand t.curSeat).getLast? with
      | none =>
        rw [List.getLast?_eq_none_iff] at ht
        rw [ht, List.length_nil, List.length_eq_zero_iff] at hsize
        rw [hsize] at hs
        cases hs
      | some card' =>
        refine outCard_congr hp ⟨ha.hand, ha.sizes, ha.wall, ha.handle, ha.out, ha.offers, ha.status, ha.curSeat,
          ha.banker, ha.index, ha.gangs⟩ ?_
        have htold : ∀ u : State, (onUserSetTuoGuan c u t.curSeat true).told p = u.told p ++
            if c.userId p = -1 then [] else ([.userAI (c.userId t.curSeat) 1] : List Packet) := fun u =>
          told_broadcast (c := c) hp { u with tuoGuan := Function.update u.tuoGuan t.curSeat true } rfl (-1)
        rw [htold, htold, hsame]
  · exact fun _ => hsame

theorem reconnect_told {userId : Int} (h : c.playerOf userId ≠ some p) (s : State) :
    (onSendUserReconnetSucccess c s userId).state.told p = s.told p := by
  unfold onSendUserReconnetSucccess
  split
  · rfl
  · rename_i seat hu
    have hne : seat ≠ p := fun he => h (he ▸ hu)
    split
    · split
      · rfl
      · refine (told_append s _ p).trans ?_
        rw [List.filter_cons_of_neg (by simp [hne]), List.filter_nil, List.map_nil, List.append_nil]
    · rfl

/-- One step: a player who is not sent the reconnect packet is told the same. -/
theorem told_of_handled {l : Label} {r r' : Outcome} (hp : p ∈ seats) (ha : Alike p s t) (hsame : s.told p = t.told p)
    (hl : ∀ userId, l = .reconnect userId → c.playerOf userId ≠ some p) (hs : handled c s l = some r)
    (ht : handled c t l = some r') (ha' : Alike p r.state r'.state) : r.state.told p = r'.state.told p := by
  cases l with
  | outCard userId v =>
    cases hs
    cases ht
    exact outCard_congr hp ha hsame ha'
  | takeOperation userId iOpValue iCardValue =>
    cases hs
    cases ht
    exact takeOperation_congr hp ha hsame ha'
  | requestAI userId iAiType =>
    cases hs
    cases ht
    simp only [onClientCmdRequestAI]
    split
    · exact hsame
    · rename_i seat hu
      have htold : ∀ u : State, (onUserSetTuoGuan c u seat (iAiType = 1)).told p = u.told p ++
          if c.userId p = -1 then []
          else ([.userAI (c.userId seat) (if decide (iAiType = 1) then 1 else 0)] : List Packet) := fun u =>
        told_broadcast (c := c) hp { u with tuoGuan := Function.update u.tuoGuan seat (iAiType = 1) } rfl (-1)
      exact (htold s).trans (hsame ▸ (htold t).symm)
  | reconnect userId =>
    cases hs
    cases ht
    rw [reconnect_told (hl userId rfl), reconnect_told (hl userId rfl), hsame]
  | timer key dice =>
    simp only [handled] at hs ht
    split at hs
    · split at ht
      · cases hs
        cases ht
        have hstop : Alike p (s.stopTimer key) (t.stopTimer key) :=
          ⟨ha.hand, ha.sizes, ha.wall, ha.handle, ha.out, ha.offers, ha.status, ha.curSeat, ha.banker, ha.index,
            ha.gangs⟩
        have htold : (s.stopTimer key).told p = (t.stopTimer key).told p := hsame
        cases key with
        | makeBanker => exact progress_congr hp hstop htold ha'
        | dealCards => exact progress_congr hp hstop htold ha'
        | drawCard =>
          have hcur : (s.stopTimer .drawCard).curSeat = (t.stopTimer .drawCard).curSeat := ha.curSeat
          simp only [fired] at ha' ⊢
          rw [(drawCard_told _ hp).1, (drawCard_told _ hp).1, htold, drawPart_congr hp hstop ha', hcur]
        | outCard => exact timeOut_congr hp hstop htold ha'
        | opOutCard => exact hasAllOp_congr hp hstop htold ha'
        | opDarwCard => exact hasAllOp_congr hp hstop htold ha'
        | opBuGangCard => exact hasAllOp_congr hp hstop htold ha'
      · cases ht
    · cases hs

theorem told_of_both {l : Label} {s' t' : State} (hp : p ∈ seats) (ha : Alike p s t) (hsame : s.told p = t.told p)
    (hl : ∀ userId, l = .reconnect userId → c.playerOf userId ≠ some p) (h : both c (s, t) l = some (s', t'))
    (ha' : Alike p s' t') : s'.told p = t'.told p := by
  simp only [both] at h
  split at h
  · rename_i u w hu hw
    cases h
    obtain ⟨r, hr, rfl⟩ := state_of_step hu
    obtain ⟨r', hr', rfl⟩ := state_of_step hw
    exact told_of_handled hp ha hsame hl hr hr' ha'
  · cases h

theorem told_of_run {ls : List Label} {s' t' : State} (hp : p ∈ seats)
    (hrun : Lts.run (both c) (s, t) ls = some (s', t'))
    (hg : Lts.Guarded (both c) (fun st l => Alike p st.1 st.2 ∧
      ∀ userId, l = .reconnect userId → c.playerOf userId ≠ some p) (s, t) ls)
    (ha' : Alike p s' t') (hsame : s.told p = t.told p) : s'.told p = t'.told p := by
  induction ls generalizing s t with
  | nil =>
    cases hrun
    exact hsame
  | cons l ls ih =>
    obtain ⟨⟨u, w⟩, hstep, hrest⟩ := Lts.run_cons.mp hrun
    have hguard := hg.2 _ hstep
    have hmid : Alike p u w := by
      cases ls with
      | nil =>
        cases hrest
        exact ha'
      | cons l' ls => exact hguard.1.1
    exact ih hrest hguard (told_of_both hp hg.1.1 hsame hg.1.2 hstep hmid)

/-- Two rounds that get the same labels, and differ only in the wall and in the hands of the other players: a player who
is not sent the reconnect packet is told the same in both. -/
theorem hidden_information (c : Config) (p : Seat) (hp : p ∈ seats) (pool pool' : List Nat) (money : Seat → Int)
    (ls : List Label) (s t : State)
    (hrun : Lts.run (both c) (onGameStart c pool money, onGameStart c pool' money) ls = some (s, t))
    (hg : Lts.Guarded (both c) (fun st l => Alike p st.1 st.2 ∧
      ∀ userId, l = .reconnect userId → c.playerOf userId ≠ some p)
      (onGameStart c pool money, onGameStart c pool' money) ls)
    (ha : Alike p s t) : s.told p = t.told p :=
  told_of_run hp hrun hg ha rfl

instance (p : Seat) (s t : State) : Decidable (Alike p s t) :=
  decidable_of_iff (s.hand p = t.hand p ∧ (∀ i ∈ seats, (s.hand i).length = (t.hand i).length) ∧
      s.pool.length = t.pool.length ∧ (∀ i ∈ seats, s.handle i = t.handle i) ∧ (∀ i ∈ seats, s.out i = t.out i) ∧
      (∀ i ∈ seats, (s.offers.map fun o => o i) = t.offers.map fun o => o i) ∧ s.status = t.status ∧
      s.curSeat = t.curSeat ∧ s.banker = t.banker ∧ s.progressIndex = t.progressIndex ∧
      s.gangs.length = t.gangs.length)
    ⟨fun ⟨h1, h2, h3, h4, h5, h6, h7, h8, h9, h10, h11⟩ => ⟨h1, h2, h3, h4, h5, h6, h7, h8, h9, h10, h11⟩,
      fun ⟨h1, h2, h3, h4, h5, h6, h7, h8, h9, h10, h11⟩ => ⟨h1, h2, h3, h4, h5, h6, h7, h8, h9, h10, h11⟩⟩

/-- The wall with the circles and the bamboos exchanged: the second and the third player exchange their hands. -/
def exchanged (pool : List Nat) : List Nat :=
  pool.map fun v => if v / 16 = 1 then v + 16 else if v / 16 = 2 then v - 16 else v

abbrev exchangedStart (draws : List Nat) : State := onGameStart room (exchanged (stacked draws)) fun _ => 1000

theorem hidden_information_deal : ∃ s t, Lts.run (both room) (stackedStart [], exchangedStart [])
    [.timer .makeBanker []] = some (s, t) ∧ s.hand 2 ≠ t.hand 2 ∧ s.told 1 = t.told 1 := by
  have htest : Lts.check (both room) (fun st l => decide (Alike 1 st.1 st.2) && decide (l = .timer .makeBanker []))
      (fun st => decide (Alike 1 st.1 st.2) && decide (st.1.hand 2 ≠ st.2.hand 2))
      (stackedStart [], exchangedStart []) [.timer .makeBanker []] = true := by decide +kernel
  obtain ⟨⟨s, t⟩, hrun, hg, ht⟩ := Lts.of_check (G := fun st l => Alike 1 st.1 st.2 ∧
    ∀ userId, l = .reconnect userId → room.playerOf userId ≠ some 1) (fun st l h => by
      simp only [Bool.and_eq_true, decide_eq_true_eq] at h
      refine ⟨h.1, fun userId he => ?_⟩
      rw [h.2] at he
      cases he) htest
  simp only [Bool.and_eq_true, decide_eq_true_eq] at ht
  exact ⟨s, t, hrun, ht.2, hidden_information room 1 (by decide) (stacked []) (exchanged (stacked []))
    (fun _ => 1000) _ s t hrun hg ht.1⟩

/-- A reconnect packet with the tile `v` in the hand of the player at `seat`. -/
def Packet.shows (seat : Seat) (v : Nat) : Packet → Bool
  | .reconnect _ _ players => players.any fun u => decide (u.iSeatId = seat) && u.iHandCardMap.contains v
  | _ => false

/-- The reconnect packet shows the hands of the others. -/
theorem reconnect_shows_hands : ¬ ∀ (c : Config) (p : Seat) (pool pool' : List Nat) (money : Seat → Int)
    (ls : List Label) (s t : State), p ∈ seats → pool.Perm mahjongPool → pool'.Perm mahjongPool →
    Lts.run (both c) (onGameStart c pool money, onGameStart c pool' money) ls = some (s, t) →
    Lts.Guarded (both c) (fun st _ => Alike p st.1 st.2) (onGameStart c pool money, onGameStart c pool' money) ls →
    Alike p s t → s.told p = t.told p := by
  intro h
  have htest : Lts.check (both room) (fun st _ => decide (Alike 1 st.1 st.2)) (fun st =>
      decide (Alike 1 st.1 st.2) && (st.1.told 1).any (Packet.shows 2 0x11) && !(st.2.told 1).any (Packet.shows 2 0x11))
      (stackedStart [], exchangedStart []) [.timer .makeBanker [], .reconnect 101] = true := by decide +kernel
  obtain ⟨⟨s, t⟩, hrun, hg, ht⟩ := Lts.of_check (G := fun st _ => Alike 1 st.1 st.2)
    (fun _ _ h => by simpa only [decide_eq_true_eq] using h) htest
  simp only [Bool.and_eq_true, Bool.not_eq_true', decide_eq_true_eq] at ht
  obtain ⟨⟨ha, hs⟩, ht⟩ := ht
  have hsame := h room 1 (stacked []) (exchanged (stacked [])) (fun _ => 1000) _ s t (by decide) (stacked_perm (by decide))
    (by decide +kernel) hrun hg ha
  rw [hsame, ht] at hs
  cases hs

end Mahjong
end Skynet
