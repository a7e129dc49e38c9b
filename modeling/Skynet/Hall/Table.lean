import Mathlib.Data.List.Count
import Mathlib.Data.List.Range
import Mathlib.Logic.Function.Basic
import Skynet.GameServer

/-!
# Skynet.Hall.Table

A table of a coin room or of a battle room (`logic/common/gameTable.lua`): its users, the room that was created on it,
and the coroutines that wait for the answer of a `skynet.call`. The round that is played is a parameter.

A coroutine runs from one call to the next; a `Task` is what it does when a call returns, and it makes the next call
at its end. Calls in a row with nothing in between are one. What another service answers is chosen by the label. The
logins and the creations of rooms come from the queue of the game server, so that one of them is under way at a time;
the commands of the clients run in the queue `cs` of the table; a closed connection and the timers of the round are in
no queue.

* `onCheckUserStatus` and the tasks after it : a login.
* `onDismissBattleRoom`, `onRefundBattlePay` : the tasks of a dismissal.
* `onGameStopRound` : the end of a round.
* `step` : a message, a timer, or the answer to a call.
-/

namespace Skynet
namespace Hall

open GameServer (TableStatus TableData)

/-! ### The data -/

/-- A `GameUser`. A user who logs in again is another object. -/
structure User where
  object : Nat
  m_userId : Int
  m_seatId : Nat
  m_socketfd : Int
  m_ready : Int
  isRobot : Bool
  m_isOnline : Bool
deriving Repr, DecidableEq

/-- What does not change in `m_commonConfig`, with the prices of `FriendBattleConfig` for the local game. -/
structure Room where
  m_tableId : Int
  iGameTable : Nat
  iMJCode : Int
  isBattleRoom : Bool
  iMaxUserCount : Nat
  iLevelNeedMoney : Int
  iBattlePayType : Int
  iDiamondTable : Option (Int → Option Nat)

/-- `m_battleConfig`. -/
structure Battle where
  iUserId : Int
  iRoomId : Int
  iTableId : Int
  iRoundNum : Int
  iCurRound : Int
  iPlayType : Int
  iBattlePayMode : Int
deriving Repr, DecidableEq

/-- `GameRound`, as far as the table uses it. -/
structure Game (R : Type) where
  onReset : R → R
  onGameStart : R → R

/-- The data of a login. `onCheckUserStatus` fills in the balances. -/
structure Login where
  iUserId : Int
  socketfd : Int
  iIsRobot : Bool
  iReady : Int
  iDiamond : Int
  iMoney : Int
deriving Repr, DecidableEq

inductive LoginStatus
  | successNewconnect | successReconnect
  | errorUserkey | errorUserlogintable | errorTableMaxCount
  | errorBattleNotCreateed | errorBattleNotEnoughFee | errorMysql
deriving Repr, DecidableEq

def LoginStatus.isError : LoginStatus → Bool
  | .successNewconnect | .successReconnect => false
  | _ => true

/-- What the other services answer. `mtkey` is `iLastTableId`, if the key is right; `ok` is for the diamond server, and
`flag` is the ready flag of a user object that has left its seat. -/
structure Answer where
  iDiamond : Int
  mtkey : Option Int
  isDisconnect : Bool
  iMoney : Option Int
  ok : Bool
  flag : Bool
deriving Repr, DecidableEq

inductive Task
  /-- A login: `onGetUserDiamond`, `onCheckUserMTkey`, `onIsDisconnectUser` and `onGetUserInfo`. -/
  | checkDiamond (d : Login)
  | checkMTkey (d : Login)
  | checkDisconnect (d : Login)
  | checkUserInfo (d : Login)
  /-- The two calls of `onUpdateUserDiamond`, in `onCheckUserBattlePay`. -/
  | charge (d : Login) (pDiamond : Nat)
  | charged (d : Login) (ok : Bool)
  /-- The calls of `onDealUserLoginTableSuccess`. -/
  | report (object : Nat)
  | reported (object : Nat)
  | enter (object : Nat) (userId socketfd : Int)
  /-- `onDealUserReconnectTableSuccess`. -/
  | rebind (userId socketfd : Int)
  /-- `onDealUserLoginError`. -/
  | answered (userId : Int)
  /-- `onRefundBattlePay`, the loop of `onDismissBattleRoom`, and its end. -/
  | refund (pDiamond : Nat)
  | kick (rest : List Nat)
  | reset
  /-- `onDealUserLogoutTableSuccess`. `asked` if the user has sent the command. -/
  | leave (object : Nat) (userId : Int) (asked : Bool)
  | removed (object : Nat) (asked : Bool)
  /-- The end of `onClientCmdLogout`, for a user who does not own the battle room. -/
  | left
  | disconnected (object : Nat) (userId : Int)
  /-- `onUpdateMoneyExpAndLogEx` and the loop after it, in `onGameStopRound`. -/
  | pay (rest : List Nat)
  | sweep (rest : List Nat)
  /-- `onClientCmdCreateBattleRoom`. -/
  | created
  | done
deriving Repr, DecidableEq

inductive Cmd
  | ready
  | logout (iLeave : Int)
deriving Repr, DecidableEq

/-- The round that the table has started, and the settlement that has not ended. -/
inductive RoundPhase
  | none | running | stopped
deriving Repr, DecidableEq

structure Table (R : Type) where
  m_tableUserMap : Nat → Option User
  m_tableStatus : TableStatus
  /-- `m_commonConfig.iRoomId`. -/
  iRoomId : Int
  m_battleConfig : Battle
  m_battleFeePaid : Bool
  m_gameRound : R
  phase : RoundPhase
  /-- The queue `cs`: the commands that wait, with their connection, and the coroutine that runs. -/
  thread_queue : List (Int × Int × Cmd)
  current_thread : Option (Nat × Int)
  /-- The login or the creation that is under way. -/
  entering : Option Nat
  /-- The coroutines are numbered, and so are the user objects. -/
  threads : Nat → List Task
  count : Nat
  objects : Nat
  deleted : List Nat
  /-- History: the rooms that were created, what was charged and refunded for each of them, the answers to the
  logins, the rounds of the room that were started and that have ended, and the settlements that have ended. -/
  creations : Nat
  charges : List (Nat × Nat)
  refunds : List (Nat × Nat)
  answers : Nat → Option LoginStatus
  starts : Nat
  stops : Nat
  settled : Nat

/-- A message to another service. -/
inductive Msg
  | removeUser (userId : Int)
  | updateTableData (data : TableData)
  | setUserAndGameTable (userId socketfd : Int)
deriving Repr, DecidableEq

variable {R : Type} (r : Room) (g : Game R)

/-! ### The users -/

def Room.seats : List Nat := List.range' 1 r.iMaxUserCount

/-- `onGetUserByUserId`. -/
def Table.find (t : Table R) (userId : Int) : Option User :=
  r.seats.findSome? fun i => (t.m_tableUserMap i).filter fun u => u.m_userId == userId

def Table.userCount (t : Table R) : Nat := r.seats.countP fun i => (t.m_tableUserMap i).isSome

/-- `onGetReadyUserCount`. -/
def Table.readyUserCount (t : Table R) : Nat :=
  r.seats.countP fun i => (t.m_tableUserMap i).any fun u => u.m_ready == 1

/-- `onAutoSeat`. -/
def Table.autoSeat (t : Table R) : Option Nat := r.seats.find? fun i => (t.m_tableUserMap i).isNone

/-- Some fields of one user object change. -/
def Table.modify (t : Table R) (object : Nat) (f : User → User) : Table R :=
  { t with m_tableUserMap := fun i => (t.m_tableUserMap i).map fun u => if u.object = object then f u else u }

/-- `onAddNewUser`. -/
def Table.addNewUser (t : Table R) (seat : Nat) (d : Login) : Table R :=
  { t with
    m_tableUserMap := Function.update t.m_tableUserMap seat
      (some ⟨t.objects, d.iUserId, seat, d.socketfd, d.iReady, d.iIsRobot, false⟩)
    objects := t.objects + 1 }

/-- The end of `onRemoveUser`. -/
def Table.removeUser (t : Table R) (object : Nat) : Table R :=
  { t with
    m_tableUserMap := fun i => (t.m_tableUserMap i).filter fun u => u.object != object
    deleted := t.deleted ++ [object] }

/-- `onResetTable`. -/
def Table.onReset (t : Table R) : Table R :=
  { t with
    m_gameRound := g.onReset t.m_gameRound
    phase := .none
    m_tableUserMap := fun _ => none
    m_tableStatus := .gameStop }

/-! ### The room -/

def isBattleOwner (t : Table R) (userId : Int) : Bool := r.isBattleRoom && userId == t.m_battleConfig.iUserId

/-- `BATTLE_PAY_WINER` is 1. -/
def isWinerPay (t : Table R) : Bool := r.isBattleRoom && t.m_battleConfig.iBattlePayMode == 1

def onGetBattlePayNum (t : Table R) : Nat :=
  if r.isBattleRoom then
    match r.iDiamondTable with
    | some iDiamondTable => (iDiamondTable t.m_battleConfig.iRoundNum).getD 1
    | none => 0
  else 0

def onCheckTableIsAlive (t : Table R) : Bool := 0 < t.userCount r || t.m_tableStatus != .battleStop

def onUserCanLogoutTable (t : Table R) : Bool :=
  if r.isBattleRoom then t.m_tableStatus == .battleStop || t.m_tableStatus == .battleCreated
  else t.m_tableStatus != .gamePlaying

/-- `onSetBattleRoomConfig`. -/
def onSetBattleRoomConfig (t : Table R) (data : Battle) : Table R :=
  { t with
    m_battleConfig := { data with iCurRound := t.m_battleConfig.iCurRound }
    m_tableStatus := .battleCreated
    iRoomId := data.iRoomId
    creations := t.creations + 1
    starts := 0
    stops := 0 }

/-- The data of `onGameTableUpdateTableData`. -/
def tableData (t : Table R) : TableData :=
  { iTableId := r.m_tableId
    iGameTable := r.iGameTable
    iGameTableInfo :=
      { iTableStatus := t.m_tableStatus
        iIsAlive := onCheckTableIsAlive r t
        iCommonConfig := ⟨t.iRoomId, r.m_tableId, t.userCount r, r.iMJCode⟩
        iBattleConfig := if r.isBattleRoom then
            some ⟨t.m_battleConfig.iRoomId, t.m_battleConfig.iUserId, t.m_battleConfig.iTableId, t.m_battleConfig.iPlayType⟩
          else none }
    iUserTable := r.seats.filterMap fun i => (t.m_tableUserMap i).map fun u => (u.m_userId, u.m_socketfd) }

/-! ### A login -/

/-- The exits of `onCheckUserBattlePay`. The first room of the day is never free: `m_battleConfig` has no
`iBattleDayFirstFree`. -/
inductive BattlePay
  | yes | no
  /-- The owner is charged. -/
  | charge (pDiamond : Nat)
deriving Repr, DecidableEq

def onCheckUserBattlePay (t : Table R) (d : Login) : BattlePay :=
  if !r.isBattleRoom || t.m_battleFeePaid then .yes
  else if r.iBattlePayType = 1 then
    let pDiamond := onGetBattlePayNum r t
    if isWinerPay r t then
      if pDiamond ≤ d.iDiamond then .yes else .no
    else if isBattleOwner r t d.iUserId then
      if pDiamond ≤ d.iDiamond then .charge pDiamond else .no
    else .no
  else .no

def onCheckTableStatus (t : Table R) : Bool :=
  !r.isBattleRoom || t.m_tableStatus == .battleCreated || t.m_tableStatus == .gamePlaying

def onCheckUserEnoughMoney (d : Login) : Bool := r.isBattleRoom || r.iLevelNeedMoney ≤ d.iMoney

/-- What the user is answered: the status of `onCheckUserStatus`, or that there is no seat after all. -/
def Table.answer (t : Table R) (id : Nat) (status : LoginStatus) : Table R :=
  { t with answers := Function.update t.answers id (some status) }

/-- `onDealUserLoginError`, to its call: the client is told, the counts are, or another table is opened. -/
def onDealUserLoginError (t : Table R) (id : Nat) (d : Login) (status : LoginStatus) : Table R × List Task :=
  (t.answer id status, [.answered d.iUserId])

/-- `onDealUserLoginTableSuccess`, to its first call. -/
def onDealUserLoginTableSuccess (t : Table R) (id : Nat) (d : Login) : Table R × List Task :=
  match t.autoSeat r with
  | none => (t.answer id .errorMysql, [.done])
  | some seat =>
    ((t.answer id .successNewconnect).addNewUser seat d,
      [.report t.objects, .reported t.objects, .enter t.objects d.iUserId d.socketfd])

/-- `onDealUserReconnectTableSuccess`, to its first call. -/
def onDealUserReconnectTableSuccess (t : Table R) (id : Nat) (d : Login) : Table R × List Task :=
  match t.find r d.iUserId with
  | none => (t.answer id .successReconnect, [])
  | some u =>
    -- the packet of a battle room reads `iBasePoint` of `m_battleConfig`, which has none: `writeInt` raises an error
    if r.isBattleRoom then
      ((t.answer id .successReconnect).modify u.object fun u => { u with m_socketfd := d.socketfd }, [])
    else
      ((t.answer id .successReconnect).modify u.object fun u => { u with m_socketfd := d.socketfd, m_isOnline := true },
        [.rebind d.iUserId d.socketfd])

/-- `onCheckUserStatus` after `onGetUserInfo`. -/
def checkUserInfo (t : Table R) (id : Nat) (d : Login) : Option Int → Table R × List Task
  | none => onDealUserLoginError t id d .errorUserkey
  | some iMoney =>
    let d := { d with iMoney := iMoney }
    if (t.find r d.iUserId).isSome then onDealUserLoginError t id d .errorTableMaxCount
    else if r.iMaxUserCount ≤ t.userCount r then onDealUserLoginError t id d .errorTableMaxCount
    else if !onCheckUserEnoughMoney r d then onDealUserLoginError t id d .errorBattleNotEnoughFee
    else
      match onCheckUserBattlePay r t d with
      | .yes => onDealUserLoginTableSuccess r t id d
      | .no => onDealUserLoginError t id d .errorBattleNotEnoughFee
      | .charge pDiamond => (t, [.charge d pDiamond])

/-! ### A dismissal -/

/-- `onDealUserLogoutTableSuccess`: the broadcast, and the calls for redis. -/
def onDealUserLogoutTableSuccess (t : Table R) (userId : Int) (asked : Bool) : List Task :=
  match t.find r userId with
  | none => []
  | some u => [.leave u.object u.m_userId asked]

/-- The loop of `onDismissBattleRoom`, from a seat on. -/
def kick (t : Table R) : List Nat → List Task
  | [] => [.reset, .done]
  | i :: is =>
    match t.m_tableUserMap i with
    | none => kick t is
    | some u =>
      match onDealUserLogoutTableSuccess r t u.m_userId false with
      | [] => kick t is
      | work => work ++ [Task.kick is]

/-- Does `onRefundBattlePay` give the diamonds back? -/
def refunds (t : Table R) : Bool :=
  t.m_battleFeePaid && !isWinerPay r t && t.m_tableStatus == .battleCreated && r.iBattlePayType == 1

def onDismissBattleRoom (t : Table R) : List Task :=
  if r.isBattleRoom then
    if refunds r t then [.refund (onGetBattlePayNum r t), .kick r.seats] else kick r t r.seats
  else []

/-- `asked` if the client has sent the command. -/
def onClientCmdLogout (t : Table R) (userId iLeave : Int) (asked : Bool) : List Task :=
  match t.find r userId with
  | none => []
  | some _ =>
    if onUserCanLogoutTable r t then
      if isBattleOwner r t userId then
        if iLeave = 1 then onDealUserLogoutTableSuccess r t userId asked ++ [Task.done] else onDismissBattleRoom r t
      else if r.isBattleRoom then onDealUserLogoutTableSuccess r t userId asked ++ [Task.left]
      else onDealUserLogoutTableSuccess r t userId asked ++ [Task.done]
    else []

/-! ### The rounds -/

/-- `onGameStart`; the game of the room is reported, and in a coin room the users pay the service fee. -/
def Table.startGame (t : Table R) : Table R :=
  { t with
    m_gameRound := g.onGameStart t.m_gameRound
    phase := .running
    m_tableStatus := .gamePlaying
    starts := t.starts + 1 }

def onCheckGameTableStartGame (t : Table R) : Table R × List Task :=
  if t.m_tableStatus = .gamePlaying then (t, [])
  else if t.readyUserCount r = r.iMaxUserCount then (t.startGame g, [.done])
  else (t, [])

def onClientCmdReady (t : Table R) (userId : Int) : Table R × List Task :=
  match t.find r userId with
  | none => (t, [])
  | some u => onCheckGameTableStartGame r g (t.modify u.object fun u => { u with m_ready := 1 })

/-- The end of `onGameStopRound`. -/
def Table.settle (t : Table R) : Table R :=
  { t with
    m_gameRound := g.onReset t.m_gameRound
    phase := .none
    settled := t.settled + 1 }

/-- The loop that takes the offline users from the table, from a seat on. A nil user raises an error. -/
def sweep (t : Table R) : List Nat → Table R × List Task
  | [] => (t.settle g, [])
  | i :: is =>
    match t.m_tableUserMap i with
    | none => (t, [])
    | some u =>
      let t := t.modify u.object fun u => { u with m_ready := 0 }
      if u.m_socketfd ≤ 0 then
        match t.find r u.m_userId with
        | none => sweep t is
        | some v => (t, [.disconnected v.object v.m_userId, .sweep is])
      else sweep t is

/-- `onUpdateMoneyExpAndLogEx`, from a seat on: two calls for each user. -/
def pay (t : Table R) : List Nat → Table R × List Task
  | [] => sweep r g t r.seats
  | i :: is =>
    match t.m_tableUserMap i with
    | none => pay t is
    | some u => if u.isRobot then pay t is else (t, [.pay is])

/-- `onGameStopRound`, to its first call. -/
def onGameStopRound (t : Table R) : Table R × List Task :=
  let t := { t with phase := .stopped, stops := t.stops + 1 }
  if !r.isBattleRoom then pay r g { t with m_tableStatus := .gameStop } r.seats
  else if t.m_battleConfig.iRoundNum = t.m_battleConfig.iCurRound then
    ({ t with m_tableStatus := .gameStop }.settle g, [])
  else
    ({ t with
      m_tableStatus := .gamePlaying
      m_battleConfig := { t.m_battleConfig with iCurRound := t.m_battleConfig.iCurRound + 1 } }.settle g, [])

/-- `onDisconnect` after its call. -/
def disconnected (t : Table R) (object : Nat) (userId : Int) : Table R × List Task :=
  let t := t.modify object fun u => { u with m_isOnline := false }
  if !r.isBattleRoom && t.m_tableStatus != .gamePlaying then (t, onClientCmdLogout r t userId 0 false) else (t, [])

/-! ### The coroutines -/

/-- The ready flag of a user object. -/
def readyFlag (t : Table R) (object : Nat) (flag : Bool) : Bool :=
  match r.seats.findSome? fun i => (t.m_tableUserMap i).filter fun u => u.object == object with
  | some u => u.m_ready == 1
  | none => flag

/-- A call of the coroutine `id` has returned. `rest` is what it does after the function at hand; the new work of the
coroutine comes with the table. -/
def perform (t : Table R) (id : Nat) (ans : Answer) (rest : List Task) : Task → Table R × List Task × Option Msg
  | .checkDiamond d =>
    if onCheckTableStatus r t then (t, .checkMTkey { d with iDiamond := ans.iDiamond } :: rest, none)
    else
      let (t, work) := onDealUserLoginError t id d .errorBattleNotCreateed
      (t, work ++ rest, none)
  | .checkMTkey d =>
    match ans.mtkey with
    | none =>
      let (t, work) := onDealUserLoginError t id d .errorUserkey
      (t, work ++ rest, none)
    | some iLastTableId =>
      if 0 < iLastTableId then
        if r.m_tableId = iLastTableId then (t, .checkDisconnect d :: rest, none)
        else
          let (t, work) := onDealUserLoginError t id d .errorUserlogintable
          (t, work ++ rest, none)
      else (t, .checkUserInfo d :: rest, none)
  | .checkDisconnect d =>
    if ans.isDisconnect then
      let (t, work) := onDealUserReconnectTableSuccess r t id d
      (t, work ++ rest, none)
    else (t, .checkUserInfo d :: rest, none)
  | .checkUserInfo d =>
    let (t, work) := checkUserInfo r t id d ans.iMoney
    (t, work ++ rest, none)
  | .charge d pDiamond =>
    ({ t with charges := if ans.ok then t.charges ++ [(t.creations, pDiamond)] else t.charges },
      .charged d ans.ok :: rest, none)
  | .charged d ok =>
    if ok then
      let (t, work) := onDealUserLoginTableSuccess r { t with m_battleFeePaid := true } id d
      (t, work ++ rest, none)
    else
      let (t, work) := onDealUserLoginError t id d .errorBattleNotEnoughFee
      (t, work ++ rest, none)
  | .report object =>
    let t := t.modify object fun u => { u with m_isOnline := true }
    (t, rest, some (.updateTableData (tableData r t)))
  | .reported object =>
    -- `onSendUserLoginSuccess` reads the round info of the user, which `delete` has taken away
    if r.isBattleRoom && t.deleted.contains object then (t, [], none) else (t, rest, none)
  | .enter object userId socketfd =>
    let (t, work) := if readyFlag r t object ans.flag then onCheckGameTableStartGame r g t else (t, [])
    (t, work ++ rest, some (.setUserAndGameTable userId socketfd))
  | .rebind userId socketfd => (t, rest, some (.setUserAndGameTable userId socketfd))
  | .answered userId => (t, (if isBattleOwner r t userId then onDismissBattleRoom r t else []) ++ rest, none)
  | .refund pDiamond =>
    ({ t with refunds := if ans.ok then t.refunds ++ [(t.creations, pDiamond)] else t.refunds }, rest, none)
  | .kick is => (t, kick r t is ++ rest, none)
  | .reset => (t.onReset g, rest, none)
  | .leave object userId asked => (t, .removed object asked :: rest, some (.removeUser userId))
  | .removed object _ => (t.removeUser object, rest, none)
  | .left =>
    (t, (if t.userCount r = 0 ∧ t.m_tableStatus = .battleStop then onDismissBattleRoom r t else []) ++ rest, none)
  | .disconnected object userId =>
    let (t, work) := disconnected r t object userId
    (t, work ++ rest, none)
  | .pay is =>
    let (t, work) := pay r g t is
    (t, work ++ rest, none)
  | .sweep is =>
    let (t, work) := sweep r g t is
    (t, work ++ rest, none)
  | .created => (t, rest, some (.updateTableData (tableData r t)))
  | .done => (t, rest, none)

/-! ### Runs -/

inductive Event (R : Type)
  /-- `onClientCmdCreateBattleRoom` and `onClientCmdLogin`, from the game server. -/
  | create (data : Battle)
  | login (d : Login)
  /-- `onReceiveData`. -/
  | receive (userId socketfd : Int) (cmd : Cmd)
  /-- The next command of the queue runs. -/
  | serve
  /-- `onDisconnect`, for a connection that has been closed. -/
  | disconnect (userId socketfd : Int)
  /-- A move of the round, and its end. -/
  | play (round : R)
  | stopRound
  | resume (id : Nat) (ans : Answer)

/-- The coroutine `id` waits for the next of its calls, or has ended. -/
def Table.put (t : Table R) (id : Nat) (work : List Task) : Table R :=
  { t with
    threads := Function.update t.threads id work
    entering := if work = [] ∧ t.entering = some id then none else t.entering
    current_thread := if work = [] ∧ t.current_thread.any (fun c => c.1 == id) then none else t.current_thread }

/-- A new coroutine. -/
def Table.spawn (t : Table R) (work : List Task) : Table R := { t with count := t.count + 1 }.put t.count work

/-- The next command is taken from the queue. -/
def Table.take (t : Table R) (socketfd : Int) (rest : List (Int × Int × Cmd)) : Table R :=
  { t with thread_queue := rest, current_thread := some (t.count, socketfd) }

/-- A command of a client. -/
def command (t : Table R) (userId : Int) : Cmd → Table R × List Task
  | .ready => onClientCmdReady r g t userId
  | .logout iLeave => (t, onClientCmdLogout r t userId iLeave true)

def step (t : Table R) : Event R → Option (Table R × Option Msg)
  | .create data =>
    if t.entering = none then
      some ({ onSetBattleRoomConfig t data with entering := some t.count }.spawn [.created, .done], none)
    else none
  | .login d =>
    if t.entering = none then some ({ t with entering := some t.count }.spawn [.checkDiamond d], none) else none
  | .receive userId socketfd cmd =>
    match t.find r userId with
    | none => some (t, none)
    | some _ => some ({ t with thread_queue := t.thread_queue ++ [(userId, socketfd, cmd)] }, none)
  | .serve =>
    match t.current_thread, t.thread_queue with
    | none, (userId, socketfd, cmd) :: rest =>
      let (t, work) := command r g (t.take socketfd rest) userId cmd
      some (t.spawn work, none)
    | _, _ => none
  | .disconnect userId _ =>
    match t.find r userId with
    | none => some (t, none)
    | some u => some (t.spawn [.disconnected u.object u.m_userId], none)
  | .play round => if t.phase = .running then some ({ t with m_gameRound := round }, none) else none
  | .stopRound =>
    if t.phase = .running then
      let (t, work) := onGameStopRound r g t
      some (t.spawn work, none)
    else none
  | .resume id ans =>
    match t.threads id with
    | [] => none
    | task :: rest =>
      let (t, work, msg) := perform r g t id ans rest task
      some (t.put id work, msg)

/-- The table alone. -/
def tableStep (t : Table R) (e : Event R) : Option (Table R) := (step r g t e).map Prod.fst

/-- `GameTable:init`. -/
def initial (round : R) : Table R :=
  { m_tableUserMap := fun _ => none
    m_tableStatus := .gameStop
    iRoomId := -1
    m_battleConfig := ⟨0, 0, 0, 0, 0, 0, 0⟩
    m_battleFeePaid := false
    m_gameRound := round
    phase := .none
    thread_queue := []
    current_thread := none
    entering := none
    threads := fun _ => []
    count := 0
    objects := 0
    deleted := []
    creations := 0
    charges := []
    refunds := []
    answers := fun _ => none
    starts := 0
    stops := 0
    settled := 0 }

end Hall
end Skynet
