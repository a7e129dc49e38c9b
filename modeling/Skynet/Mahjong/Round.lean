import Mathlib.Logic.Function.Basic
import Mathlib.Data.List.Basic
import Skynet.Lib.Run
import Skynet.Mahjong.Rules

/-!
# Skynet.Mahjong.Round

A round of the game (`logic/common/gameRound.lua`) with the GD rules: four seats, 13 tiles dealt to each.

A handler runs from a state to its end without a yield, or it raises a Lua error and leaves the state as it is at
that point; `Outcome` has both. The handlers below are the commands of the clients and the callbacks of the round
timers. A timer may fire at any time while it is pending, so times are kept but nothing depends on them.

* `onClientCmdOutCard`, `onClientCmdTakeOpreation`, `onClientCmdRequestAI` : the commands of a client.
* `onClientUserHasAllOp` : the offered operations are all answered, or their time is over.
* `drawCard`, `onGameStopRound` : the next turn, and the end of the round.
* `step` : one message or one timer. A run ends when the round is over.
-/

namespace Skynet
namespace Mahjong

/-- `iMaxUserCount` seats. -/
def seats : List Seat := [1, 2, 3, 4]

def iDealCardCount : Nat := 13

inductive Status
  | none | drawCard | outCard | opOutCard | opDrawCard | opBuGangCard
deriving Repr, DecidableEq

inductive Timer
  | makeBanker | dealCards | drawCard | outCard | opOutCard | opDarwCard | opBuGangCard
deriving Repr, DecidableEq

/-- A discarded tile. In a hand a tile has `iStatus` 0 and `iRank` -1. -/
structure Card where
  iCardValue : Nat
  iStatus : Nat
  iRank : Nat
deriving Repr, DecidableEq

/-- An entry of `m_pCurOpUserTable`. A cleared entry has `iOpValue` 0, and its other fields are not read. -/
structure Offer where
  iOpValue : Nat
  iOpTable : List Op
  iSelectOp : Option Op
deriving Repr, DecidableEq

def Offer.of (ops : List Op) : Offer := ⟨opValue ops, ops, none⟩

/-- The room: its configuration, and the users at the seats. A user has one seat at most (`onCheckUserStatus`). -/
structure Config where
  iBasePoint : Int
  iServerFee : Int
  iOperationTime : Nat
  iOutCardTime : Nat
  isBattleRoom : Bool
  iCurRound : Nat
  userId : Seat → Int
  isRobot : Seat → Bool
  userId_inj : ∀ i ∈ seats, ∀ j ∈ seats, userId i = userId j → i = j

/-- What the packet at the end of a round shows of a user. -/
structure StopUser where
  iUserId : Int
  iSeatId : Seat
  iMoney : Int
  iTurnMoney : Int
  iHandCardMap : List Nat
  iHandleCardMap : List Op
  iOutCardMap : List Card
  iGameStopHuInfo : StopInfo

/-- What the reconnect packet shows of a user. -/
structure ReconnectUser where
  iUserId : Int
  iSeatId : Seat
  iMoney : Int
  iHandCardMap : List Nat
  iHandleCardMap : List Op
  iOutCardMap : List Card
deriving Repr, DecidableEq

/-- The packets of a round, with the fields that `sendPacket` writes and that are not constants of the room. -/
inductive Packet
  | readyStart (iBankerSeatId : Seat) (iDiceTable : List Int) (iCurRound : Option Nat)
  | dealCard (iBankerSeatId : Seat) (iDiceTable : List Int) (iHandCardMap : List (Seat × List Nat))
  | currentPlayer (iUserId : Int)
  | grabCard (iCardValue : Nat) (iOpTable : List Op)
  | outCard (iUserId : Int) (iCardValue : Nat) (iOpTable : List Op)
  | takeOperation (iUserId : Int) (op : Op) (iTargetSeatId : Seat) (iOpTable : List Op)
  | userAI (iUserId : Int) (iAiType : Nat)
  | stopRound (iResultType : Nat) (iMaCardMap : List Nat) (iUserInfoTable : List StopUser)
  | reconnect (iUserId : Int) (iBankSeatId : Nat) (iPlayerTable : List ReconnectUser)

/-- Lua errors: a call of a nil method, an index and a length of nil, `string.pack` of a number too large, and the
assertion of a writer. -/
inductive Err
  | nilMethod | nilIndex | nilLength | overflow | assertion
deriving Repr, DecidableEq

/-- A gang that was carried out, with the seat that pays for it. -/
structure Gang where
  seat : Seat
  payer : Seat
  op : Op
deriving Repr, DecidableEq

structure State where
  pool : List Nat
  status : Status
  /-- `m_iCurOutCardSeatId`. -/
  curSeat : Seat
  banker : Seat
  outCardNum : Nat
  /-- `m_pCurOpUserTable`: empty, or with an entry for every seat. -/
  offers : Option (Seat → Offer)
  progressIndex : Nat
  hand : Seat → List Nat
  handle : Seat → List Op
  out : Seat → List Card
  tuoGuan : Seat → Bool
  turnMoney : Seat → Int
  money : Seat → Int
  gangs : List GangInfo
  hus : List HuInfo
  timers : Timer → Option Nat
  /-- What was sent to each seat, and to the money server. -/
  sent : List (Seat × Packet)
  reports : List (Int × Int)
  /-- History: the gangs carried out, the bu gangs that were robbed, and the gang tables that were settled. -/
  carried : List Gang
  robbed : List (Seat × Nat)
  settled : List (List GangInfo)
  finished : Bool

inductive Outcome
  | returned (s : State)
  | raised (s : State) (e : Err)

/-! ### Timers, packets and offers -/

def State.startTimer (s : State) (key : Timer) (time : Nat) : State :=
  { s with timers := Function.update s.timers key (some time) }

def State.stopTimer (s : State) (key : Timer) : State :=
  { s with timers := Function.update s.timers key none }

/-- `clearAllRoundTimer`: every timer but `opBuGangCard`. -/
def State.clearAllRoundTimer (s : State) : State :=
  { s with timers := fun key => if key = .opBuGangCard then s.timers key else none }

/-- `onSendToGameUser`. -/
def State.send (s : State) (seat : Seat) (packet : Packet) : State :=
  { s with sent := s.sent ++ [(seat, packet)] }

/-- `onBroadcastTableUsers`: to every user but `userId`. -/
def State.broadcast (s : State) (c : Config) (packet : Packet) (userId : Int) : State :=
  { s with sent := s.sent ++ (seats.filter fun i => c.userId i ≠ userId).map fun i => (i, packet) }

/-- `onClearUserOp`. -/
def State.clearUserOp (s : State) : State := { s with offers := some fun _ => .of [] }

def Config.outCardTime (c : Config) (s : State) (seat : Seat) : Nat :=
  if s.tuoGuan seat then 1000 else c.iOutCardTime * 1000

def Config.playerOf (c : Config) (userId : Int) : Option Seat := seats.find? fun i => c.userId i = userId

def nextSeat (seat : Seat) : Seat := if seat = seats.length then 1 else seat + 1

/-! ### The end of a round -/

/-- `GameRound:onReset`. -/
def State.reset (s : State) : State :=
  { s.clearAllRoundTimer with
    status := .none
    offers := none
    banker := -1
    outCardNum := 0
    gangs := []
    hus := []
    curSeat := -1 }

/-- A player's balance after a turn. -/
def paid (money turnMoney : Int) : Int := if 0 < money - turnMoney then money - turnMoney else 0

/-- `writeByte` keeps the low byte, and `string.pack` takes it as a signed one. -/
def byteFits (n : Nat) : Bool := n % 256 < 128

def State.stopUser (s : State) (c : Config) (table : Seat → StopInfo) (i : Seat) : StopUser :=
  { iUserId := c.userId i
    iSeatId := i
    iMoney := s.money i
    iTurnMoney := s.turnMoney i
    iHandCardMap := s.hand i
    iHandleCardMap := s.handle i
    iOutCardMap := s.out i
    iGameStopHuInfo := table i }

/-- `GameTable:onGameStopRound`: in a coin room the result of each player is reported, and the round is reset. -/
def State.tableStop (s : State) (c : Config) : State :=
  let reports := if c.isBattleRoom then []
    else (seats.filter fun i => !c.isRobot i).map fun i => (c.userId i, s.turnMoney i)
  { s.reset with reports := s.reports ++ reports, finished := true }

/-- `onGameStopRound`. The four tiles of `onGetGameLogicExtendInfo` are taken from the wall. In the packet only
the ranks of the discards grow with the round; every other byte is a seat, a tile or the size of a hand. -/
def onGameStopRound (c : Config) (s : State) (resultType : Nat) : Outcome :=
  let s := { s.clearAllRoundTimer with settled := s.settled ++ [s.gangs] }
  match onGetGameStopHuInfo s.gangs s.hus with
  | none => .raised s .nilLength
  | some table =>
    let maCards := s.pool.take 4
    let s := { s with
      pool := s.pool.drop 4
      money := fun i => if i ∈ seats then paid (s.money i) (table i).iTotalTurnMoney else s.money i
      turnMoney := fun i => if i ∈ seats then (table i).iTotalTurnMoney else s.turnMoney i }
    if seats.all fun i => (s.out i).all fun card => byteFits card.iRank then
      .returned ((s.broadcast c (.stopRound resultType maCards (seats.map (s.stopUser c table))) (-1)).tableStop c)
    else .raised s .overflow

/-! ### Drawing -/

/-- What is offered to the player at `seat` who draws `card`. -/
def drawOps (s : State) (seat : Seat) (card : Nat) : List Op :=
  onGetUserOpValueWhenDrawCard (s.hand seat ++ [card]) (s.handle seat) card

/-- The others are told who draws, and the player what it is. -/
def drawPackets (c : Config) (seat : Seat) (card : Nat) (ops : List Op) : List (Seat × Packet) :=
  ((seats.filter fun i => c.userId i ≠ c.userId seat).map fun i => (i, .currentPlayer (c.userId seat))) ++
    [(seat, .grabCard card ops)]

/-- The next turn: `seat` has drawn `card`. -/
def drawn (c : Config) (s : State) (seat : Seat) (card : Nat) : State :=
  let ops := drawOps s seat card
  { s with
    hand := Function.update s.hand seat (s.hand seat ++ [card])
    sent := s.sent ++ drawPackets c seat card ops
    offers := some fun i => .of (if i = seat then ops else [])
    curSeat := seat
    status := if 0 < opValue ops then .opDrawCard else .outCard
    timers := if 0 < opValue ops then Function.update s.timers .opDarwCard (some (c.iOperationTime * 1000))
      else Function.update s.timers .outCard (some (c.outCardTime s seat)) }

/-- `drawCard` for the player at `seat`, who is nil when there is none. -/
def drawCard (c : Config) (s : State) (seat : Seat) : Outcome :=
  if s.status ≠ .drawCard then .returned s
  else
    match s.pool with
    | [] => onGameStopRound c s 0
    | card :: pool =>
      if seat ∈ seats then .returned (drawn c { s with pool := pool } seat card)
      else .raised { s with pool := pool } .nilIndex

/-! ### Discarding -/

/-- What is offered to the player at `i` when `card` is discarded at `seat`. -/
def claimOps (s : State) (seat : Seat) (card : Nat) (i : Seat) : List Op :=
  if i = seat then [] else onGetUserOpValueWhenOutCard (s.hand i) card

/-- The player at `seat` has discarded `card`, and the others may claim it. -/
def discarded (c : Config) (s : State) (seat : Seat) (card : Nat) : State :=
  { s.stopTimer .outCard with
    hand := Function.update s.hand seat ((s.hand seat).erase card)
    outCardNum := s.outCardNum + 1
    out := Function.update s.out seat (s.out seat ++ [⟨card, 0, s.outCardNum + 1⟩])
    offers := some fun i => .of (claimOps s seat card i)
    sent := s.sent ++ seats.map fun i => (i, .outCard (c.userId seat) card (claimOps s seat card i)) }

/-- Whether an operation is offered to a seat. -/
def State.hasOp (s : State) : Bool :=
  match s.offers with
  | some offers => seats.any fun i => 0 < (offers i).iOpValue
  | none => false

def onClientCmdOutCard (c : Config) (s : State) (userId outCard : Int) : Outcome :=
  match c.playerOf userId with
  | none => .returned s
  | some seat =>
    match (s.hand seat).find? fun (v : Nat) => (v : Int) = outCard with
    | none => .returned s
    | some card =>
      if s.status ≠ .outCard ∧ s.status ≠ .opDrawCard then .returned s
      else if s.curSeat ≠ seat then .returned s
      else
        let s := discarded c s seat card
        if s.hasOp then
          .returned ({ s with status := .opOutCard }.startTimer .opOutCard (c.iOperationTime * 1000))
        else drawCard c { s with status := .drawCard, curSeat := 0 } (nextSeat s.curSeat)

/-! ### Operations -/

/-- How many tiles an operation takes from the hand. -/
def cardCount (opValue : Nat) : Nat :=
  if isPeng opValue then 2
  else if isGang opValue then 3
  else if isBuGang opValue then 1
  else if isAnGang opValue then 4
  else 0

def eraseTimes (card : Nat) : Nat → List Nat → List Nat
  | 0, hand => hand
  | n + 1, hand => eraseTimes card n (hand.erase card)

/-- The first meld that satisfies `p` becomes `m`. -/
def replaceFirst (p : Op → Bool) (m : Op) : List Op → List Op
  | [] => []
  | h :: hs => if p h then m :: hs else h :: replaceFirst p m hs

/-- The meld of an operation: a bu gang turns the peng of its tile into a gang. -/
def meld (handle : List Op) (op : Op) : List Op :=
  if isBuGang op.iOpValue then
    replaceFirst (fun m => isPeng m.iOpValue && m.iCardValue == op.iCardValue) ⟨BU_GANG, op.iCardValue⟩ handle
  else handle ++ [op]

/-- The tiles and melds after an operation. -/
def melded (s : State) (seat : Seat) (op : Op) : State :=
  { s with
    hand := Function.update s.hand seat (eraseTimes op.iCardValue (cardCount op.iOpValue) (s.hand seat))
    handle := Function.update s.handle seat (meld (s.handle seat) op)
    carried := if isGang op.iOpValue || isBuGang op.iOpValue || isAnGang op.iOpValue
      then s.carried ++ [⟨seat, s.curSeat, op⟩] else s.carried }

/-- `onDealGangTurnMoney`. It tests for a bu gang twice. `none` is the error of `onSetGangTurnMonyInfo`. -/
def onDealGangTurnMoney (c : Config) (s : State) (seat : Seat) (op : Op) : Option State :=
  if isBuGang op.iOpValue || isBuGang op.iOpValue || isAnGang op.iOpValue then
    let temp : GangInfo :=
      { iSeatId := seat
        iTSeatId := s.curSeat
        iOpValue := op.iOpValue
        iCardValue := op.iCardValue
        iIsDone := true
        iGSPSeatIds := []
        iQGHSeatIds := none
        iGangTurnMoney := fun _ => 0 }
    (onSetGangTurnMonyInfo seats temp c.iBasePoint).map fun temp => { s with gangs := s.gangs ++ [temp] }
  else some s

/-- `iIsDone` of the last gang. `none` is an index of nil. -/
def setLastDone (done : Bool) : List GangInfo → Option (List GangInfo)
  | [] => none
  | [v] => some [{ v with iIsDone := done }]
  | v :: vs => (setLastDone done vs).map (v :: ·)

/-- What is offered to the player at `i` when the player at `seat` takes `op`. -/
def robOps (s : State) (seat : Seat) (op : Op) (i : Seat) : List Op :=
  if isBuGang op.iOpValue && i != seat then onGetUserOpValueWhenBuGang (s.hand i) op.iCardValue else []

/-- The operation is broadcast, and the others may rob a bu gang. -/
def taken (c : Config) (s : State) (seat : Seat) (op : Op) : State :=
  { s with
    offers := some fun i => .of (robOps s seat op i)
    sent := s.sent ++ seats.map fun i => (i, .takeOperation (c.userId seat) op s.curSeat (robOps s seat op i)) }

def onDealClientUserTakeOp (c : Config) (s : State) (seat : Seat) (op : Op) : Outcome :=
  let s := melded s seat op
  match onDealGangTurnMoney c s seat op with
  | none => .raised s .nilMethod
  | some s =>
    let s := taken c s seat op
    if s.hasOp then
      match setLastDone false s.gangs with
      | none => .raised s .nilIndex
      | some gangs =>
        .returned ({ s with gangs := gangs, status := .opBuGangCard }.startTimer .opBuGangCard
          (c.iOperationTime * 1000))
    else if isGang op.iOpValue || isBuGang op.iOpValue || isAnGang op.iOpValue then
      drawCard c { s with status := .drawCard, curSeat := 0 } seat
    else
      let s := { s with status := .outCard, curSeat := seat }
      .returned (s.startTimer .outCard (c.outCardTime s seat))

/-- The seats with a bu gang of the tile. -/
def robbedSeats (s : State) (cardValue : Nat) : List Seat :=
  seats.filter fun k => (s.handle k).any fun q => isBuGang q.iOpValue && q.iCardValue == cardValue

/-- `onDealClientUserHu`. A robbed bu gang is a peng again, and the last gang is not paid for. -/
def onDealClientUserHu (c : Config) (s : State) (seat : Seat) (op : Op) : State :=
  let tSeat := if isQiangGangHu op.iOpValue
    then (robbedSeats s op.iCardValue).getLast?.getD s.curSeat else s.curSeat
  let s := if isQiangGangHu op.iOpValue then
      { s with
        handle := fun k => replaceFirst (fun q => isBuGang q.iOpValue && q.iCardValue == op.iCardValue)
          ⟨PENG, op.iCardValue⟩ (s.handle k)
        gangs := s.gangs.dropLast
        robbed := s.robbed ++ (robbedSeats s op.iCardValue).map fun k => (k, op.iCardValue) }
    else s
  let temp : HuInfo :=
    { iSeatId := seat
      iTSeatId := tSeat
      iOpValue := op.iOpValue
      iCardValue := op.iCardValue
      iHandCardMap := s.hand seat
      iHuTurnMoney := fun _ => 0 }
  { s with hus := s.hus ++ [onSetHuTurnMonyInfo seats temp c.iBasePoint] }

/-- The operation that a seat has selected. -/
def Offer.selected (o : Offer) : Option Op := if 0 < o.iOpValue then o.iSelectOp else none

/-- The first seat with a selected operation. -/
def firstSelected (offers : Seat → Offer) : List Seat → Option (Seat × Op)
  | [] => none
  | i :: is =>
    match (offers i).selected with
    | some op => some (i, op)
    | none => firstSelected offers is

/-- No operation was selected: the turn goes on. -/
def allPassed (c : Config) (s : State) : Outcome :=
  let s := s.clearUserOp
  match s.status with
  | .opOutCard => drawCard c { s with status := .drawCard } (nextSeat s.curSeat)
  | .opDrawCard =>
    if s.curSeat ∈ seats then
      .returned ({ s with status := .outCard }.startTimer .outCard (c.outCardTime s s.curSeat))
    else .raised { s with status := .outCard } .nilIndex
  | .opBuGangCard =>
    match setLastDone true s.gangs with
    | none => .raised s .nilIndex
    | some gangs => drawCard c { s with gangs := gangs, status := .drawCard } s.curSeat
  | _ => .returned s

def onClientUserHasAllOp (c : Config) (s : State) : Outcome :=
  let s := ((s.stopTimer .opOutCard).stopTimer .opDarwCard).stopTimer .opBuGangCard
  match s.offers with
  | none => .raised s .nilIndex
  | some offers =>
    match firstSelected offers seats with
    | some (i, op) =>
      if isHu op.iOpValue || isZiMo op.iOpValue || isQiangGangHu op.iOpValue || isGangShangKaiHua op.iOpValue ||
          isGangShangPao op.iOpValue then
        onGameStopRound c (onDealClientUserHu c s i op) 1
      else onDealClientUserTakeOp c s i op
    | none => allPassed c s

/-- The entry of the sender, with the operation it has selected. `data.iOpValue` is that of the selected one. -/
def Offer.select (o : Offer) (iOpValue iCardValue : Int) : Option Op :=
  if 0 < o.iOpValue ∧ o.iSelectOp = none then
    o.iOpTable.find? fun v => (v.iOpValue : Int) = iOpValue ∧ (v.iCardValue : Int) = iCardValue
  else none

/-- An operation was selected at another seat: only an offered hu stays. -/
def Offer.yield (o : Offer) : Offer :=
  if 0 < o.iOpValue then
    let o := if isHu o.iOpValue then o else { o with iOpValue := 0 }
    match o.iSelectOp with
    | some op => if isHu op.iOpValue then o else { o with iOpValue := 0 }
    | none => o
  else o

/-- The offers after the message of `seat`. -/
def answered (offers : Seat → Offer) (seat : Seat) (iOpValue iCardValue : Int) : Seat → Offer :=
  match (offers seat).select iOpValue iCardValue with
  | none => Function.update offers seat { offers seat with iOpValue := 0 }
  | some op =>
    if isGuo op.iOpValue then
      Function.update offers seat { offers seat with iOpValue := 0, iSelectOp := some op }
    else fun i => if i = seat then { offers seat with iSelectOp := some op } else (offers i).yield

/-- An operation is offered and not answered. -/
def Offer.pending (o : Offer) : Bool := 0 < o.iOpValue && o.iSelectOp.isNone

def onClientCmdTakeOpreation (c : Config) (s : State) (userId iOpValue iCardValue : Int) : Outcome :=
  if s.status ≠ .opOutCard ∧ s.status ≠ .opDrawCard ∧ s.status ≠ .opBuGangCard then .returned s
  else
    match c.playerOf userId with
    | none => .returned s
    | some seat =>
      match s.offers with
      | none => .raised s .nilIndex
      | some offers =>
        let offers := answered offers seat iOpValue iCardValue
        let s := { s with offers := some offers }
        if seats.any fun i => (offers i).pending then .returned s else onClientUserHasAllOp c s

/-! ### The other handlers -/

def onUserSetTuoGuan (c : Config) (s : State) (seat : Seat) (isTuoGuan : Bool) : State :=
  { s with tuoGuan := Function.update s.tuoGuan seat isTuoGuan }.broadcast c
    (.userAI (c.userId seat) (if isTuoGuan then 1 else 0)) (-1)

def onClientCmdRequestAI (c : Config) (s : State) (userId iAiType : Int) : Outcome :=
  match c.playerOf userId with
  | none => .returned s
  | some seat => .returned (onUserSetTuoGuan c s seat (iAiType = 1))

/-- `onOutCardTimerTimeOut`: the last tile of the hand is discarded. -/
def onOutCardTimerTimeOut (c : Config) (s : State) : Outcome :=
  if s.curSeat ∈ seats then
    match (s.hand s.curSeat).getLast? with
    | none => .raised s .nilIndex
    | some card => onClientCmdOutCard c (onUserSetTuoGuan c s s.curSeat true) (c.userId s.curSeat) card
  else .raised s .nilIndex

/-- `process_makeBanker`, with the banker and the dice of `onMakeBanker`. -/
def processMakeBanker (c : Config) (s : State) : State :=
  let s := { s with banker := 1, curSeat := 1 }
  (s.broadcast c (.readyStart 1 [] (if c.isBattleRoom then some c.iCurRound else none)) (-1)).startTimer
    .makeBanker 2000

/-- `dealCards`: `iDealCardCount` tiles for each seat in turn. -/
def dealt (pool : List Nat) (hand : Seat → List Nat) : List Seat → List Nat × (Seat → List Nat)
  | [] => (pool, hand)
  | i :: is =>
    dealt (pool.drop iDealCardCount) (Function.update hand i (hand i ++ pool.take iDealCardCount)) is

/-- `onSendGameUserDealCard` to the player at `seat`: the tiles of the others are sent as 0. -/
def dealPacket (s : State) (dice : List Int) (seat : Seat) : Packet :=
  .dealCard s.banker dice (seats.map fun i => (i, (s.hand i).map fun v => if i = seat then v else 0))

def processDealCards (s : State) (dice : List Int) : State :=
  let (pool, hand) := dealt s.pool s.hand seats
  let s := { s with pool := pool, hand := hand }
  { s with sent := s.sent ++ seats.map fun i => (i, dealPacket s dice i) }.startTimer .dealCards 2000

def procNextProgress (c : Config) (s : State) (dice : List Int) : State :=
  let next := match s.progressIndex with
    | 1 => processMakeBanker c s
    | 2 => processDealCards s dice
    | _ => { s with curSeat := 1, status := .drawCard }.startTimer .drawCard 3000
  { next with progressIndex := s.progressIndex + 1 }

/-- The callback of a timer. The dice are those of `onDealCardDice`. -/
def fired (c : Config) (s : State) (dice : List Int) : Timer → Outcome
  | .makeBanker => .returned (procNextProgress c s dice)
  | .dealCards => .returned (procNextProgress c s dice)
  | .drawCard => drawCard c s s.curSeat
  | .outCard => onOutCardTimerTimeOut c s
  | .opOutCard => onClientUserHasAllOp c s
  | .opDarwCard => onClientUserHasAllOp c s
  | .opBuGangCard => onClientUserHasAllOp c s

/-- `onGetUserReconnectGameInfo`. -/
def State.reconnectUser (s : State) (c : Config) (i : Seat) : ReconnectUser :=
  { iUserId := c.userId i
    iSeatId := i
    iMoney := s.money i
    iHandCardMap := s.hand i
    iHandleCardMap := s.handle i
    iOutCardMap := s.out i }

/-- `GameTable:onSendUserReconnetSucccess` during a round. `iBankSeatId` is the number of tiles in the wall, and the
`iBasePoint` of a battle room is nil. -/
def onSendUserReconnetSucccess (c : Config) (s : State) (userId : Int) : Outcome :=
  match c.playerOf userId with
  | none => .returned s
  | some seat =>
    if byteFits s.pool.length then
      if c.isBattleRoom then .raised s .assertion
      else .returned (s.send seat (.reconnect userId s.pool.length (seats.map (s.reconnectUser c))))
    else .raised s .overflow

/-! ### Runs -/

/-- The round that `onGameStart` starts with a shuffled wall, for users with some money. -/
def onGameStart (c : Config) (pool : List Nat) (money : Seat → Int) : State :=
  procNextProgress c
    { pool := pool
      status := .none
      curSeat := -1
      banker := -1
      outCardNum := 0
      offers := none
      progressIndex := 1
      hand := fun _ => []
      handle := fun _ => []
      out := fun _ => []
      tuoGuan := fun _ => false
      turnMoney := fun _ => 0
      money := money
      gangs := []
      hus := []
      timers := fun _ => none
      sent := []
      reports := []
      carried := []
      robbed := []
      settled := []
      finished := false } []

inductive Label
  | outCard (userId iCardValue : Int)
  | takeOperation (userId iOpValue iCardValue : Int)
  | requestAI (userId iAiType : Int)
  | timer (key : Timer) (dice : List Int)
  | reconnect (userId : Int)
deriving Repr, DecidableEq

/-- What the handler of a label does. A timer that is not pending does not fire. -/
def handled (c : Config) (s : State) : Label → Option Outcome
  | .outCard userId iCardValue => some (onClientCmdOutCard c s userId iCardValue)
  | .takeOperation userId iOpValue iCardValue => some (onClientCmdTakeOpreation c s userId iOpValue iCardValue)
  | .requestAI userId iAiType => some (onClientCmdRequestAI c s userId iAiType)
  | .timer key dice =>
    match s.timers key with
    | some _ => some (fired c (s.stopTimer key) dice key)
    | none => none
  | .reconnect userId => some (onSendUserReconnetSucccess c s userId)

def step (c : Config) (s : State) (l : Label) : Option State :=
  if s.finished then none
  else
    match handled c s l with
    | some (.returned s) => some s
    | some (.raised s _) => some s
    | none => none

end Mahjong
end Skynet
