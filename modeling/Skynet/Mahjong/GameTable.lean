import Mathlib.Logic.Function.Basic
import Mathlib.Data.List.Count
import Skynet.Mahjong.Round

/-!
# Skynet.Mahjong.GameTable

The table of a coin room (`logic/common/gameTable.lua`): its users, the round they play, and the coroutines that
wait for the answer of a `skynet.call`.

A coroutine runs from one call to the next; `Task` is what it does when a call returns. Calls in a row that leave the
table alone are one task, `done`. The commands of the clients run one after the other in the queue `cs`; the round
timers, a login and a closed socket are not in that queue. The balances and the service fee are left out.

* `onCheckGameTableStartGame` : a new round, when everybody is ready.
* `payFrom`, `clearFrom` : `onUpdateMoneyExpAndLogEx` and the rest of `onGameStopRound`.
* `Table.step` : a message, a timer, or the answer to a call.
-/

namespace Skynet
namespace Mahjong

inductive TableStatus
  | gameStop | gamePlaying
deriving Repr, DecidableEq

/-- A `GameUser`. A user who logs in again is another object. -/
structure User where
  object : Nat
  m_userId : Int
  m_ready : Int
  m_socketfd : Int
  isRobot : Bool
  m_pTurnMoney : Int
deriving Repr, DecidableEq

/-! ### The users -/

/-- `m_tableUserMap`. A user has one seat at most. -/
structure Users where
  user : Seat → Option User
  user_inj : ∀ i ∈ seats, ∀ j ∈ seats, ∀ u v, user i = some u → user j = some v → u.m_userId = v.m_userId → i = j

namespace Users

/-- `onGetUserByUserId`. -/
def find (us : Users) (userId : Int) : Option User :=
  seats.findSome? fun i => (us.user i).filter fun u => u.m_userId == userId

theorem ne_of_find {us : Users} {userId : Int} (h : us.find userId = none) :
    ∀ i ∈ seats, ∀ u, us.user i = some u → u.m_userId ≠ userId := by
  intro i hi u hu he
  have hnone := List.findSome?_eq_none_iff.mp h i hi
  rw [hu, Option.filter_some, if_pos (beq_iff_eq.mpr he)] at hnone
  cases hnone

/-- The users with some fields changed. -/
def map (us : Users) (f : Seat → User → User) (hf : ∀ i u, (f i u).m_userId = u.m_userId) : Users where
  user i := (us.user i).map (f i)
  user_inj i hi j hj u v hu hv h := by
    simp only [Option.map_eq_some_iff] at hu hv
    obtain ⟨u, hu, rfl⟩ := hu
    obtain ⟨v, hv, rfl⟩ := hv
    rw [hf, hf] at h
    exact us.user_inj i hi j hj u v hu hv h

/-- `onRemoveUser`: the object that is to go may have left already. -/
def remove (us : Users) (object : Nat) : Users where
  user i := (us.user i).filter fun u => u.object != object
  user_inj i hi j hj u v hu hv h := by
    rw [Option.filter_eq_some_iff] at hu hv
    exact us.user_inj i hi j hj u v hu.1 hv.1 h

def add (us : Users) (seat : Seat) (u : User) (h : us.find u.m_userId = none) : Users where
  user := Function.update us.user seat (some u)
  user_inj i hi j hj v w hv hw he := by
    by_cases his : i = seat
    · by_cases hjs : j = seat
      · rw [his, hjs]
      · rw [his, Function.update_self, Option.some.injEq] at hv
        rw [Function.update_of_ne hjs] at hw
        exact absurd (hv ▸ he.symm) (ne_of_find h j hj w hw)
    · rw [Function.update_of_ne his] at hv
      by_cases hjs : j = seat
      · rw [hjs, Function.update_self, Option.some.injEq] at hw
        exact absurd (hw ▸ he) (ne_of_find h i hi v hv)
      · rw [Function.update_of_ne hjs] at hw
        exact us.user_inj i hi j hj v w hv hw he

@[simp] theorem map_user (us : Users) (f : Seat → User → User) (hf : ∀ i u, (f i u).m_userId = u.m_userId) (i : Seat) :
    (us.map f hf).user i = (us.user i).map (f i) := rfl

@[simp] theorem remove_user (us : Users) (object : Nat) (i : Seat) :
    (us.remove object).user i = (us.user i).filter fun u => u.object != object := rfl

@[simp] theorem add_user (us : Users) (seat : Seat) (u : User) (h : us.find u.m_userId = none) :
    (us.add seat u h).user = Function.update us.user seat (some u) := rfl

/-- `onAutoSeat`. -/
def autoSeat (us : Users) : Option Seat := seats.find? fun i => (us.user i).isNone

/-- `onGetReadyUserCount`. -/
def readyCount (us : Users) : Nat := seats.countP fun i => (us.user i).any fun u => u.m_ready == 1

def setReady (us : Users) (userId : Int) : Users :=
  us.map (fun _ u => if u.m_userId = userId then { u with m_ready := 1 } else u) (by intros; split <;> rfl)

def clearReady (us : Users) (seat : Seat) : Users :=
  us.map (fun i u => if i = seat then { u with m_ready := 0 } else u) (by intros; split <;> rfl)

/-- `onSetTurnMoney`, for every player. -/
def setTurnMoney (us : Users) (turnMoney : Seat → Int) : Users :=
  us.map (fun i u => { u with m_pTurnMoney := turnMoney i }) fun _ _ => rfl

def setSocketfd (us : Users) (userId socketfd : Int) : Users :=
  us.map (fun _ u => if u.m_userId = userId then { u with m_socketfd := socketfd } else u)
    (by intros; split <;> rfl)

theorem exists_of_readyCount {us : Users} (h : us.readyCount = seats.length) :
    ∀ i ∈ seats, ∃ u, us.user i = some u ∧ u.m_ready = 1 := by
  intro i hi
  have hany := List.countP_eq_length.mp h i hi
  rw [Option.any_eq_true] at hany
  obtain ⟨u, hu, hready⟩ := hany
  exact ⟨u, hu, beq_iff_eq.mp hready⟩

end Users

/-! ### The table -/

/-- `m_commonConfig` of the room, as far as a round reads it. -/
structure Room where
  iBasePoint : Int
  iServerFee : Int
  iOperationTime : Nat
  iOutCardTime : Nat

/-- The configuration of a round. `m_players` is `m_tableUserMap`. -/
def Room.config (room : Room) (us : Users) (h : us.readyCount = seats.length) : Config where
  iBasePoint := room.iBasePoint
  iServerFee := room.iServerFee
  iOperationTime := room.iOperationTime
  iOutCardTime := room.iOutCardTime
  isBattleRoom := false
  iCurRound := 0
  userId i := ((us.user i).map User.m_userId).getD 0
  isRobot i := ((us.user i).map User.isRobot).getD false
  userId_inj i hi j hj he := by
    obtain ⟨u, hu, -⟩ := Users.exists_of_readyCount h i hi
    obtain ⟨v, hv, -⟩ := Users.exists_of_readyCount h j hj
    rw [hu, hv] at he
    exact us.user_inj i hi j hj u v hu hv he

/-- The rounds of a table are numbered from 1. -/
structure Round where
  number : Nat
  config : Config
  state : State

/-- What a coroutine does when the call that it waits for returns. -/
inductive Task
  /-- `onGetMoneyClient`: the result of the round is sent to the money server. -/
  | report (number : Nat) (userId iTurnMoney : Int)
  /-- `onSendToMoneyServer`: the next user. -/
  | pay (number : Nat) (rest : List Seat)
  /-- The user before has left: the loop that clears the users goes on. -/
  | clear (number : Nat) (rest : List Seat)
  /-- `onAddOneUserDisconnect`, in `onDisconnect`. -/
  | disconnected (userId : Int)
  /-- `onRemoveUser` of the game server, and the calls of `onDealUserLogoutTableRedis`. -/
  | leave (object : Nat)
  /-- The calls of `onDealUserLoginTableSuccess`. -/
  | loggedIn (object : Nat)
  | done
deriving Repr, DecidableEq

inductive Cmd
  | ready
  | logout
  | outCard (iCardValue : Int)
  | takeOperation (iOpValue iCardValue : Int)
  | requestAI (iAiType : Int)
deriving Repr, DecidableEq

structure Table where
  users : Users
  m_tableStatus : TableStatus
  round : Option Round
  /-- The queue `cs`: the commands that wait, and the coroutine that runs. -/
  thread_queue : List (Int × Cmd)
  current_thread : Option Nat
  /-- The coroutine of `schedulerMgr:update`. While it waits no other timer fires. -/
  updating : Option Nat
  /-- The coroutines that wait for a call. -/
  threads : Nat → List Task
  /-- The users that have been created, and the rounds that have been started. -/
  objects : Nat
  rounds : Nat
  /-- History: the reports to the money server with the number of their round, the rounds that have ended, and for
  each reset the settlement that made it and the round that was reset. -/
  reports : List (Nat × Int × Int)
  ended : List Round
  resets : List (Nat × Nat)

/-- What a new round takes: the shuffled wall, and the balances. -/
structure Start where
  pool : List Nat
  money : Seat → Int

def onCheckGameTableStartGame (room : Room) (t : Table) (start : Start) : Table × List Task :=
  if t.m_tableStatus = .gamePlaying then (t, [])
  else if h : t.users.readyCount = seats.length then
    let c := room.config t.users h
    -- `onReportGameUsers`, and the service fee
    ({ t with
      users := t.users.setTurnMoney fun _ => 0
      m_tableStatus := .gamePlaying
      rounds := t.rounds + 1
      round := some ⟨t.rounds + 1, c, onGameStart c start.pool start.money⟩ }, [.done])
  else (t, [])

/-! ### The settlement -/

/-- The end of `onGameStopRound`, from a seat on. A nil user raises an error, which ends the coroutine. -/
def clearFrom (number : Nat) (t : Table) : List Seat → Table × List Task
  | [] =>
    ({ t with
      round := t.round.map fun r => { r with state := r.state.reset }
      resets := t.resets ++ [(number, t.rounds)] }, [])
  | i :: is =>
    match t.users.user i with
    | none => (t, [])
    | some u =>
      let t := { t with users := t.users.clearReady i }
      if u.m_socketfd ≤ 0 then (t, [.disconnected u.m_userId, .clear number is]) else clearFrom number t is

/-- `onUpdateMoneyExpAndLogEx`, from a seat on. -/
def payFrom (number : Nat) (t : Table) : List Seat → Table × List Task
  | [] => clearFrom number t seats
  | i :: is =>
    match t.users.user i with
    | none => payFrom number t is
    | some u =>
      if u.isRobot then payFrom number t is
      else (t, [.report number u.m_userId u.m_pTurnMoney, .pay number is])

/-- The table of a round that has ended: the players have their results. -/
def Table.stop (t : Table) (r : Round) : Table :=
  { t with
    users := t.users.setTurnMoney r.state.turnMoney
    m_tableStatus := .gameStop
    round := some r
    ended := t.ended ++ [r] }

/-- `GameTable:onGameStopRound`, to its first call. -/
def Table.onGameStopRound (t : Table) (r : Round) : Table × List Task := payFrom r.number (t.stop r) seats

/-- The players of a round are still at their seats. -/
def Table.seated (t : Table) (c : Config) : Bool :=
  seats.all fun i => (t.users.user i).any fun u => u.m_userId == c.userId i

/-- A message or a timer of the round. A round that has lost a player is not followed: its handlers read a nil
player. -/
def Table.inRound (t : Table) (l : Label) : Option (Table × List Task) :=
  match t.round with
  | none => none
  | some r =>
    if t.seated r.config then
      match Mahjong.step r.config r.state l with
      | none => none
      | some s =>
        if s.finished then some (t.onGameStopRound { r with state := s }) else some ({ t with round := some { r with state := s } }, [])
    else none

/-! ### The commands -/

/-- `onClientCmdLogout`, to the calls before the user is removed. -/
def onClientCmdLogout (t : Table) (userId : Int) : Table × List Task :=
  match t.users.find userId with
  | none => (t, [])
  | some u => if t.m_tableStatus = .gamePlaying then (t, []) else (t, [.leave u.object, .done])

def onClientCmdReady (room : Room) (t : Table) (userId : Int) (start : Start) : Table × List Task :=
  match t.users.find userId with
  | none => (t, [])
  | some _ => onCheckGameTableStartGame room { t with users := t.users.setReady userId } start

/-- `onClientCmdOutCard`, `onClientCmdTakeOpreation` and `onClientCmdRequestAI` of the table. -/
def onClientCmdRound (t : Table) (l : Label) : Table × List Task :=
  if t.m_tableStatus = .gamePlaying then (t.inRound l).getD (t, []) else (t, [])

def command (room : Room) (t : Table) (userId : Int) (start : Start) : Cmd → Table × List Task
  | .ready => onClientCmdReady room t userId start
  | .logout => onClientCmdLogout t userId
  | .outCard iCardValue => onClientCmdRound t (.outCard userId iCardValue)
  | .takeOperation iOpValue iCardValue => onClientCmdRound t (.takeOperation userId iOpValue iCardValue)
  | .requestAI iAiType => onClientCmdRound t (.requestAI userId iAiType)

/-- The end of `onDealUserLoginTableSuccess`. The flag of a user who has left meanwhile is not kept here. -/
def onLoggedIn (room : Room) (t : Table) (object : Nat) (start : Start) : Table × List Task :=
  if seats.any fun i => (t.users.user i).any fun u => u.object == object && u.m_ready != 1 then (t, [])
  else onCheckGameTableStartGame room t start

/-- A call has returned. -/
def perform (room : Room) (t : Table) (start : Start) : Task → Table × List Task
  | .report number userId iTurnMoney => ({ t with reports := t.reports ++ [(number, userId, iTurnMoney)] }, [])
  | .pay number rest => payFrom number t rest
  | .clear number rest => clearFrom number t rest
  | .disconnected userId => onClientCmdLogout t userId
  | .leave object => ({ t with users := t.users.remove object }, [])
  | .loggedIn object => onLoggedIn room t object start
  | .done => (t, [])

/-! ### Runs -/

inductive Event
  /-- `onReceiveData`. -/
  | receive (userId : Int) (cmd : Cmd)
  /-- The next command of the queue runs. -/
  | serve (id : Nat) (start : Start)
  | timer (id : Nat) (key : Timer) (dice : List Int)
  /-- The last checks of `onCheckUserStatus`, and `onAddNewUser`. -/
  | login (id : Nat) (userId iReady socketfd : Int) (isRobot : Bool)
  | reconnect (userId socketfd : Int)
  /-- `onDisconnect`. -/
  | disconnect (id : Nat) (userId : Int)
  | resume (id : Nat) (start : Start)

/-- The coroutine `id` waits for the next of its calls, or has ended. -/
def Table.put (t : Table) (id : Nat) (work : List Task) : Table :=
  { t with
    threads := Function.update t.threads id work
    current_thread := if work = [] ∧ t.current_thread = some id then none else t.current_thread
    updating := if work = [] ∧ t.updating = some id then none else t.updating }

/-- A new user takes the first free seat. -/
def Table.addUser (t : Table) (seat : Seat) (userId iReady socketfd : Int) (isRobot : Bool)
    (h : t.users.find userId = none) : Table :=
  { t with
    users := t.users.add seat ⟨t.objects, userId, iReady, socketfd, isRobot, 0⟩ h
    objects := t.objects + 1 }

def Table.step (room : Room) (t : Table) : Event → Option Table
  | .receive userId cmd =>
    match t.users.find userId with
    | none => some t
    | some _ => some { t with thread_queue := t.thread_queue ++ [(userId, cmd)] }
  | .serve id start =>
    match t.threads id, t.current_thread, t.thread_queue with
    | [], none, (userId, cmd) :: rest =>
      let (t, work) := command room { t with thread_queue := rest, current_thread := some id } userId start cmd
      some (t.put id work)
    | _, _, _ => none
  | .timer id key dice =>
    match t.threads id, t.updating, ({ t with updating := some id }).inRound (.timer key dice) with
    | [], none, some (t, work) => some (t.put id work)
    | _, _, _ => none
  | .login id userId iReady socketfd isRobot =>
    match t.threads id, t.users.autoSeat, h : t.users.find userId with
    | [], some seat, none => some ((t.addUser seat userId iReady socketfd isRobot h).put id [.loggedIn t.objects])
    | _, _, _ => none
  | .reconnect userId socketfd => some { t with users := t.users.setSocketfd userId socketfd }
  | .disconnect id userId =>
    match t.threads id, t.users.find userId with
    | [], some _ => some (t.put id [.disconnected userId])
    | _, _ => none
  | .resume id start =>
    match t.threads id with
    | [] => none
    | task :: rest =>
      let (t, work) := perform room t start task
      some (t.put id (work ++ rest))

/-- A table where no round has been played yet, with some users. -/
def Table.opened (users : Users) (objects : Nat) : Table :=
  { users := users
    m_tableStatus := .gameStop
    round := none
    thread_queue := []
    current_thread := none
    updating := none
    threads := fun _ => []
    objects := objects
    rounds := 0
    reports := []
    ended := []
    resets := [] }

end Mahjong
end Skynet
