import Mathlib.Algebra.BigOperators.Group.List.Basic
import Skynet.Hall.Seats
import Skynet.Mahjong.Round
import Skynet.ProtobufBynine

/-!
# Skynet.Hall.Reconnect

The packet for a user who reconnects, and the report of the users of a game. `gameTable.lua` puts a table of fields
together, and `sendPacket.lua` hands the fields to the writers one after the other. A field that is nil raises an error.

* `PlayerInfo.calls_shown` : a record whose counts are those of its lists.
* `seated_eq` : the seats up to the number of users, and the seats beyond.
* `reconnect_faithful` : when the packets say what the table is.
-/

namespace Skynet
namespace Hall

open ProtobufBynine (Call)
open Lua (Bytes)

/-! ### The packets -/

/-- What the packets read of the configuration of the table, and the `iMJCode` of `m_battleConfig`. -/
structure Config where
  iServerId : Int
  iLevel : Int
  iPlayType : Int
  iServerFee : Int
  iBasePoint : Int
  iOutCardTime : Int
  iOperationTime : Int
  iMaxCardCount : Int
  iBattleMJCode : Int

/-- What they read of a user besides. -/
structure Profile where
  m_userInfoStr : Bytes
  m_money : Int

/-- `onGetUserReconnectGameInfo`. -/
structure GameInfo where
  iIsAI : Int
  iHandCardCount : Nat
  iHandCardMap : List Nat
  iHandleCardCount : Nat
  iHandleCardMap : List Mahjong.Op
  iOutCardCount : Nat
  iOutCardMap : List Mahjong.Card
  iCurGradCard : Int
  iExtendInfo : Bytes

/-- A record of `iPlayerTable`. -/
structure PlayerInfo extends GameInfo where
  iUserId : Int
  iSeatId : Nat
  iUserInfoStr : Bytes
  iMoney : Int

/-- A record of `iPlayerMoneyTable`. -/
structure MoneyInfo where
  iUserId : Int
  iSeatId : Nat
  iReady : Int
  iMoneyTable : List Int

/-- `iBattleConfig`. -/
structure BattleInfo where
  iRoomId : Int
  iTableId : Int
  iUserId : Int
  iMJCode : Int
  iRoundNum : Int
  iPlayType : Int
  iBasePoint : Option Int
  iCurRound : Int
  iExtendInfo : Bytes
  iUserCount : Nat
  iPlayerMoneyTable : List MoneyInfo

structure ReconnectInfo where
  iMJCode : Int
  iPlayType : Int
  iServerFee : Int
  iBasePoint : Int
  iOutCardTime : Int
  iOperationTime : Int
  iUserId : Int
  iBankSeatId : Int
  iMaxUserCount : Nat
  iMaxCardCount : Int
  iRemainCard : Int
  iIsInGame : Int
  iUserCount : Nat
  iPlayerTable : List PlayerInfo
  iIsBattleRoom : Int
  iBattleConfig : Option BattleInfo

structure ReportInfo where
  iServerId : Int
  iTableId : Int
  iLevel : Int
  iUserCount : Nat
  iUserIdTable : List Int

/-! ### The writers -/

/-- A loop from 1 to a count that writes the fields of each entry of a list. -/
def writeLoop {α : Type} (fields : α → List Call) : Nat → List α → Option (List Call)
  | 0, _ => some []
  | _ + 1, [] => none
  | n + 1, a :: as => do
    let rest ← writeLoop fields n as
    some (fields a ++ rest)

def handFields (iCardValue : Nat) : List Call := [.byte iCardValue]

def handleFields (op : Mahjong.Op) : List Call := [.int op.iOpValue, .byte op.iCardValue]

def outFields (card : Mahjong.Card) : List Call := [.byte card.iCardValue, .byte card.iStatus, .int card.iRank]

def PlayerInfo.calls (v : PlayerInfo) : Option (List Call) := do
  let hand ← writeLoop handFields v.iHandCardCount v.iHandCardMap
  let handle ← writeLoop handleFields v.iHandleCardCount v.iHandleCardMap
  let out ← writeLoop outFields v.iOutCardCount v.iOutCardMap
  some (([.int v.iUserId, .byte v.iSeatId, .string v.iUserInfoStr, .int64 v.iMoney, .byte v.iIsAI,
      .byte v.iHandCardCount] : List Call) ++
    hand ++ [Call.byte v.iHandleCardCount] ++ handle ++ [Call.byte v.iOutCardCount] ++ out ++
    ([.byte v.iCurGradCard, .string v.iExtendInfo] : List Call))

def MoneyInfo.calls (iCurRound : Int) (v : MoneyInfo) : Option (List Call) := do
  let money ← writeLoop (fun n => [.int n]) (iCurRound - 1).toNat v.iMoneyTable
  some (([.int v.iUserId, .byte v.iSeatId, .byte v.iReady] : List Call) ++ money)

def BattleInfo.calls (v : BattleInfo) : Option (List Call) := do
  let iBasePoint ← v.iBasePoint
  let money ← v.iPlayerMoneyTable.mapM (MoneyInfo.calls v.iCurRound)
  some (([.int v.iRoomId, .int v.iTableId, .int v.iUserId, .int v.iMJCode, .int v.iRoundNum, .int v.iPlayType,
    .int iBasePoint, .int v.iCurRound, .string v.iExtendInfo, .int v.iUserCount] : List Call) ++ money.flatten)

def ReconnectInfo.header (info : ReconnectInfo) : List Call :=
  [.int info.iMJCode, .int info.iPlayType, .int info.iServerFee, .int info.iBasePoint, .short info.iOutCardTime,
    .short info.iOperationTime, .int info.iUserId, .byte info.iBankSeatId, .byte info.iMaxUserCount,
    .int info.iMaxCardCount, .int info.iRemainCard, .byte info.iIsInGame, .short info.iUserCount]

/-- `sendPacket.onServerCmdClientReconnectSuccess`. -/
def onServerCmdClientReconnectSuccess (info : ReconnectInfo) : Option (List Call) := do
  let players ← info.iPlayerTable.mapM PlayerInfo.calls
  let battle ← if info.iIsBattleRoom = 1 then info.iBattleConfig.bind BattleInfo.calls else some []
  some (info.header ++ players.flatten ++ [Call.byte info.iIsBattleRoom] ++ battle)

/-- `sendPacket.onReportGameUsers`. -/
def ReportInfo.calls (info : ReportInfo) : List Call :=
  ([.short info.iServerId, .int info.iTableId, .short info.iLevel, .int info.iUserCount] : List Call) ++
    info.iUserIdTable.map Call.int

/-! ### The table -/

section Table

variable (r : Room) (c : Config) (profile : Nat → Profile) (t : Table Mahjong.State)

/-- The numbers from 1 to a number. -/
def upTo (n : Nat) : List Nat := List.range' 1 n

/-- `GameRound:onGetUserReconnectGameInfo`. `m_players` is `m_tableUserMap`. -/
def onGetUserReconnectGameInfo (seatId : Nat) : Option GameInfo :=
  (t.m_tableUserMap seatId).map fun _ =>
    { iIsAI := 1
      iHandCardCount := (t.m_gameRound.hand seatId).length
      iHandCardMap := t.m_gameRound.hand seatId
      iHandleCardCount := (t.m_gameRound.handle seatId).length
      iHandleCardMap := t.m_gameRound.handle seatId
      iOutCardCount := (t.m_gameRound.out seatId).length
      iOutCardMap := t.m_gameRound.out seatId
      iCurGradCard := 0
      iExtendInfo := [] }

/-- What is shown of a user outside a game. -/
def noGame : GameInfo := ⟨0, 0, [], 0, [], 0, [], 0, []⟩

/-- The loop over the users, from a seat on. -/
def playerTable : List Nat → Option (List PlayerInfo)
  | [] => some []
  | i :: is =>
    match t.m_tableUserMap i with
    | none => playerTable is
    | some u => do
      let temp ← if t.m_tableStatus = .gamePlaying then onGetUserReconnectGameInfo t i else some noGame
      let rest ← playerTable is
      some (⟨temp, u.m_userId, u.m_seatId, (profile u.object).m_userInfoStr, (profile u.object).m_money⟩ :: rest)

def moneyTable : List MoneyInfo :=
  r.seats.filterMap fun i => (t.m_tableUserMap i).map fun u =>
    ⟨u.m_userId, u.m_seatId, if u.m_ready = 1 then 1 else 0, List.replicate (t.m_battleConfig.iCurRound - 1).toNat 0⟩

/-- `iBasePoint` is not in `m_battleConfig`. -/
def battleInfo : BattleInfo :=
  { iRoomId := t.m_battleConfig.iRoomId
    iTableId := t.m_battleConfig.iTableId
    iUserId := t.m_battleConfig.iUserId
    iMJCode := c.iBattleMJCode
    iRoundNum := t.m_battleConfig.iRoundNum
    iPlayType := t.m_battleConfig.iPlayType
    iBasePoint := none
    iCurRound := t.m_battleConfig.iCurRound
    iExtendInfo := []
    iUserCount := t.userCount r
    iPlayerMoneyTable := moneyTable r t }

/-- The fields of `onSendUserReconnetSucccess`. The number of tiles in the wall is written over the banker. -/
def reconnectInfo (userId : Int) : Option ReconnectInfo := do
  let iPlayerTable ← playerTable profile t (upTo (t.userCount r))
  some
    { iMJCode := r.iMJCode
      iPlayType := c.iPlayType
      iServerFee := c.iServerFee
      iBasePoint := c.iBasePoint
      iOutCardTime := c.iOutCardTime - 1
      iOperationTime := c.iOperationTime - 1
      iUserId := userId
      iBankSeatId := if t.m_tableStatus = .gamePlaying then t.m_gameRound.pool.length else 0
      iMaxUserCount := r.iMaxUserCount
      iMaxCardCount := c.iMaxCardCount
      iRemainCard := 0
      iIsInGame := if t.m_tableStatus = .gamePlaying then 1 else 0
      iUserCount := t.userCount r
      iPlayerTable := iPlayerTable
      iIsBattleRoom := if r.isBattleRoom then 1 else 0
      iBattleConfig := if r.isBattleRoom then some (battleInfo r c t) else none }

/-- The packet of `onSendUserReconnetSucccess`, if one is sent. -/
def onSendUserReconnetSucccess (userId : Int) : Option (List Call) := do
  let _ ← t.find r userId
  let info ← reconnectInfo r c profile t userId
  onServerCmdClientReconnectSuccess info

/-- `onReportGameUsers`. -/
def onReportGameUsers : List Call :=
  ReportInfo.calls
    { iServerId := c.iServerId
      iTableId := r.m_tableId
      iLevel := c.iLevel
      iUserCount := t.userCount r
      iUserIdTable := (upTo (t.userCount r)).filterMap fun i => (t.m_tableUserMap i).map (·.m_userId) }

/-! ### What they ought to say -/

/-- The users at the table, by their seats. -/
def Table.seated : List User := r.seats.filterMap t.m_tableUserMap

/-- What a record shows. -/
structure Shown where
  iUserId : Int
  iSeatId : Nat
  iUserInfoStr : Bytes
  iMoney : Int
  iIsAI : Int
  hand : List Nat
  handle : List Mahjong.Op
  out : List Mahjong.Card
  iCurGradCard : Int
  iExtendInfo : Bytes

/-- A record in a packet: each list has its length before it. -/
def Shown.calls (x : Shown) : List Call :=
  ([.int x.iUserId, .byte x.iSeatId, .string x.iUserInfoStr, .int64 x.iMoney, .byte x.iIsAI, .byte x.hand.length] :
      List Call) ++
    x.hand.flatMap handFields ++ [Call.byte x.handle.length] ++ x.handle.flatMap handleFields ++ [Call.byte x.out.length] ++
    x.out.flatMap outFields ++ ([.byte x.iCurGradCard, .string x.iExtendInfo] : List Call)

/-- The hand, the melds and the discards of a seat. There are none outside a game. -/
def tiles (seatId : Nat) : List Nat × List Mahjong.Op × List Mahjong.Card :=
  if t.m_tableStatus = .gamePlaying then
    (t.m_gameRound.hand seatId, t.m_gameRound.handle seatId, t.m_gameRound.out seatId)
  else ([], [], [])

/-- A record is that of a user. -/
structure Own (u : User) (x : Shown) : Prop where
  iUserId : x.iUserId = u.m_userId
  iSeatId : x.iSeatId = u.m_seatId
  tiles : (x.hand, x.handle, x.out) = tiles t u.m_seatId

/-- The fields before the records stand at fixed places. Each user has one record. -/
structure Faithful (calls : List Call) : Prop where
  bank : t.m_tableStatus = .gamePlaying → calls[7]? = some (.byte t.m_gameRound.banker)
  remain : t.m_tableStatus = .gamePlaying → calls[10]? = some (.int t.m_gameRound.pool.length)
  users : ∃ (us : List User) (xs : List Shown) (rest : List Call), us.Perm (t.seated r) ∧ List.Forall₂ (Own t) us xs ∧
    xs.length = t.userCount r ∧ calls.drop 12 = .short xs.length :: (xs.flatMap Shown.calls ++ rest)

/-- The report lists as many users as it says, and they are those at the table. -/
def Listed (calls : List Call) : Prop :=
  ∃ ids : List Int, ids.Perm ((t.seated r).map (·.m_userId)) ∧ ids.length = t.userCount r ∧
    calls.drop 3 = .int ids.length :: ids.map .int

end Table

/-! ### The users -/

section Users

variable {r : Room} {c : Config} {profile : Nat → Profile} {t : Table Mahjong.State}

theorem userCount_eq : t.userCount r = (t.seated r).length := by
  rw [Table.userCount, Table.seated]
  induction r.seats with
  | nil => rfl
  | cons i is ih =>
    cases hu : t.m_tableUserMap i <;> simp [hu, ih]

theorem userCount_le : t.userCount r ≤ r.iMaxUserCount :=
  List.countP_le_length.trans_eq List.length_range'

/-- The users at the seats beyond the number of users. -/
def Table.beyond (r : Room) (t : Table Mahjong.State) : List User :=
  (List.range' (1 + t.userCount r) (r.iMaxUserCount - t.userCount r)).filterMap t.m_tableUserMap

/-- The users whom the loops find. -/
def Table.within (r : Room) (t : Table Mahjong.State) : List User := (upTo (t.userCount r)).filterMap t.m_tableUserMap

theorem seated_eq : t.seated r = t.within r ++ t.beyond r := by
  rw [Table.seated, Table.within, Table.beyond, ← List.filterMap_append, Room.seats, upTo, List.range'_append_1,
    Nat.add_sub_cancel' userCount_le]

/-- Nobody sits beyond the number of users. -/
def Dense (r : Room) (t : Table Mahjong.State) : Prop := ∀ i u, t.m_tableUserMap i = some u → i ≤ t.userCount r

theorem beyond_nil (hseating : Seating r t) : t.beyond r = [] ↔ Dense r t := by
  rw [Table.beyond, List.filterMap_eq_nil_iff]
  constructor
  · intro h i u hu
    by_contra hi
    obtain ⟨-, -, hmax⟩ := hseating.seat i u hu
    have hnone := h i (List.mem_range'_1.mpr ⟨by omega, by omega⟩)
    rw [hu] at hnone
    cases hnone
  · intro h i hi
    by_contra hu
    obtain ⟨u, hu⟩ := Option.ne_none_iff_exists'.mp hu
    have hle := h i u hu
    have hge := (List.mem_range'_1.mp hi).1
    omega

end Users

/-! ### The records -/

section Records

variable {r : Room} {c : Config} {profile : Nat → Profile} {t : Table Mahjong.State}

theorem writeLoop_length {α : Type} (fields : α → List Call) (as : List α) :
    writeLoop fields as.length as = some (as.flatMap fields) := by
  induction as with
  | nil => rfl
  | cons a as ih => simp only [List.length_cons, writeLoop, ih, Option.bind_eq_bind, Option.bind_some, List.flatMap_cons]

/-- The record that the loop builds for a user. -/
def shown (profile : Nat → Profile) (t : Table Mahjong.State) (u : User) : Shown :=
  { iUserId := u.m_userId
    iSeatId := u.m_seatId
    iUserInfoStr := (profile u.object).m_userInfoStr
    iMoney := (profile u.object).m_money
    iIsAI := if t.m_tableStatus = .gamePlaying then 1 else 0
    hand := (tiles t u.m_seatId).1
    handle := (tiles t u.m_seatId).2.1
    out := (tiles t u.m_seatId).2.2
    iCurGradCard := 0
    iExtendInfo := [] }

/-- The record with its counts. -/
def Shown.info (x : Shown) : PlayerInfo :=
  ⟨⟨x.iIsAI, x.hand.length, x.hand, x.handle.length, x.handle, x.out.length, x.out, x.iCurGradCard, x.iExtendInfo⟩,
    x.iUserId, x.iSeatId, x.iUserInfoStr, x.iMoney⟩

theorem calls_shown (x : Shown) : x.info.calls = some x.calls := by
  simp only [PlayerInfo.calls, Shown.info, writeLoop_length, Option.bind_eq_bind, Option.bind_some, Shown.calls]

theorem mapM_shown (xs : List Shown) :
    (xs.map Shown.info).mapM PlayerInfo.calls = some (xs.map Shown.calls) := by
  induction xs with
  | nil => rfl
  | cons x xs ih =>
    rw [List.map_cons, List.mapM_cons, calls_shown, ih]
    rfl

theorem playerTable_eq (hseating : Seating r t) (is : List Nat) :
    playerTable profile t is = some ((is.filterMap t.m_tableUserMap).map fun u => (shown profile t u).info) := by
  induction is with
  | nil => rfl
  | cons i is ih =>
    rw [playerTable]
    cases hu : t.m_tableUserMap i with
    | none => rw [List.filterMap_cons_none hu, ← ih]
    | some u =>
      have hseat := (hseating.seat i u hu).1
      rw [List.filterMap_cons_some hu, List.map_cons, ih]
      by_cases hp : t.m_tableStatus = .gamePlaying
      · simp only [hp, if_true, onGetUserReconnectGameInfo, hu, Option.map_some, Option.bind_eq_bind, Option.bind_some,
          shown, Shown.info, tiles, hseat]
      · simp only [hp, if_false, Option.bind_eq_bind, Option.bind_some, shown, Shown.info, tiles, noGame, List.length_nil]

theorem own_shown (u : User) : Own t u (shown profile t u) := ⟨rfl, rfl, rfl⟩

/-- The number of fields of a record. -/
def width (t : Table Mahjong.State) (u : User) : Nat :=
  10 + (tiles t u.m_seatId).1.length + 2 * (tiles t u.m_seatId).2.1.length + 3 * (tiles t u.m_seatId).2.2.length

theorem length_fields {α : Type} (fields : α → List Call) {k : Nat} (h : ∀ a, (fields a).length = k) (as : List α) :
    (as.flatMap fields).length = k * as.length := by
  induction as with
  | nil => rfl
  | cons a as ih => rw [List.flatMap_cons, List.length_append, h, ih, List.length_cons, Nat.mul_succ, Nat.add_comm]

theorem length_own {u : User} {x : Shown} (h : Own t u x) : x.calls.length = width t u := by
  have hhand := length_fields handFields (k := 1) (fun _ => rfl) x.hand
  have hhandle := length_fields handleFields (k := 2) (fun _ => rfl) x.handle
  have hout := length_fields outFields (k := 3) (fun _ => rfl) x.out
  rw [width, ← h.tiles]
  simp only [Shown.calls, List.length_append, List.length_cons, List.length_nil, hhand, hhandle, hout]
  omega

theorem length_records {us : List User} {xs : List Shown} (h : List.Forall₂ (Own t) us xs) :
    (xs.flatMap Shown.calls).length = (us.map (width t)).sum := by
  induction h with
  | nil => rfl
  | cons hown _ ih =>
    rw [List.flatMap_cons, List.length_append, length_own hown, ih, List.map_cons, List.sum_cons]

end Records

/-! ### The packets and the table -/

section Packets

variable {r : Room} {c : Config} {profile : Nat → Profile} {t : Table Mahjong.State}

/-- The fields before the number of users. -/
def front (r : Room) (c : Config) (t : Table Mahjong.State) (userId : Int) : List Call :=
  [.int r.iMJCode, .int c.iPlayType, .int c.iServerFee, .int c.iBasePoint, .short (c.iOutCardTime - 1),
    .short (c.iOperationTime - 1), .int userId,
    .byte (if t.m_tableStatus = .gamePlaying then t.m_gameRound.pool.length else 0), .byte r.iMaxUserCount,
    .int c.iMaxCardCount, .int 0, .byte (if t.m_tableStatus = .gamePlaying then 1 else 0)]

theorem coin_packet (hseating : Seating r t) (hcoin : r.isBattleRoom = false) {userId : Int}
    (huser : (t.find r userId).isSome) :
    onSendUserReconnetSucccess r c profile t userId =
      some (front r c t userId ++ .short (t.userCount r) ::
        (((t.within r).map (shown profile t)).flatMap Shown.calls ++ [Call.byte 0])) := by
  obtain ⟨u, hu⟩ := Option.isSome_iff_exists.mp huser
  have hplayers := mapM_shown ((t.within r).map (shown profile t))
  rw [List.map_map] at hplayers
  have htable : playerTable profile t (upTo (t.userCount r)) =
      some ((t.within r).map (Shown.info ∘ shown profile t)) := playerTable_eq hseating _
  simp only [onSendUserReconnetSucccess, reconnectInfo, hu, htable, hcoin, Option.bind_eq_bind, Option.bind_some,
    onServerCmdClientReconnectSuccess, hplayers, Bool.false_eq_true, if_false, zero_ne_one, ReconnectInfo.header, front,
    List.flatMap_def, List.cons_append, List.nil_append, List.append_assoc]

/-- The packet of a battle room is not sent. -/
theorem battle_packet (hbattle : r.isBattleRoom = true) (userId : Int) :
    onSendUserReconnetSucccess r c profile t userId = none := by
  rw [onSendUserReconnetSucccess, reconnectInfo]
  cases t.find r userId with
  | none => rfl
  | some u =>
    cases playerTable profile t (upTo (t.userCount r)) with
    | none => rfl
    | some players =>
      simp only [Option.bind_eq_bind, Option.bind_some, onServerCmdClientReconnectSuccess, hbattle, if_true, battleInfo,
        BattleInfo.calls, Option.bind_none, Option.bind_fun_none]

theorem coin_faithful (hseating : Seating r t) (userId : Int) :
    Faithful r t (front r c t userId ++ .short (t.userCount r) ::
        (((t.within r).map (shown profile t)).flatMap Shown.calls ++ [Call.byte 0])) ↔
      (t.m_tableStatus = .gamePlaying → t.m_gameRound.banker = 0 ∧ t.m_gameRound.pool = []) ∧ Dense r t := by
  have hshown : ∀ us : List User, List.Forall₂ (Own t) us (us.map (shown profile t)) := by
    intro us
    rw [List.forall₂_map_right_iff, List.forall₂_same]
    exact fun u _ => own_shown u
  constructor
  · intro h
    refine ⟨?_, ?_⟩
    · intro hp
      have hbank := h.bank hp
      have hremain := h.remain hp
      simp only [front, hp, if_true, List.cons_append, List.getElem?_cons_succ, List.getElem?_cons_zero,
        Option.some.injEq, Call.byte.injEq, Call.int.injEq] at hbank hremain
      have hnil : t.m_gameRound.pool.length = 0 := by omega
      rw [hnil] at hbank
      exact ⟨hbank.symm, List.length_eq_zero_iff.mp hnil⟩
    · obtain ⟨us, xs, rest, hperm, hown, hlength, hdrop⟩ := h.users
      rw [← beyond_nil hseating]
      -- the fields that a user beyond would need are not there
      have hfields := congrArg List.length hdrop
      have hsum := (hperm.map (width t)).sum_eq
      rw [seated_eq, List.map_append, List.sum_append] at hsum
      simp only [front, List.cons_append, List.nil_append, List.drop_succ_cons, List.drop_zero, List.length_cons,
        List.length_append, List.length_nil, length_records hown, length_records (hshown (t.within r)), hsum] at hfields
      cases hbeyond : t.beyond r with
      | nil => rfl
      | cons u more =>
        rw [hbeyond, List.map_cons, List.sum_cons, width] at hfields
        omega
  · rintro ⟨hgame, hdense⟩
    have hseated : t.seated r = t.within r := by
      rw [seated_eq, (beyond_nil hseating).mpr hdense, List.append_nil]
    refine ⟨?_, ?_, t.within r, (t.within r).map (shown profile t), [.byte 0], ?_, hshown _, ?_, ?_⟩
    · intro hp
      obtain ⟨hbanker, hpool⟩ := hgame hp
      simp only [front, hp, hbanker, hpool, if_true, List.length_nil]
      rfl
    · intro hp
      rw [(hgame hp).2]
      rfl
    · rw [hseated]
    · rw [List.length_map, userCount_eq, hseated]
    · rw [List.length_map, ← hseated, ← userCount_eq]
      rfl

theorem report_iff (hseating : Seating r t) : Listed r t (onReportGameUsers r c t) ↔ Dense r t := by
  have hids : (upTo (t.userCount r)).filterMap (fun i => (t.m_tableUserMap i).map (·.m_userId)) =
      (t.within r).map (·.m_userId) := List.map_filterMap.symm
  have hdrop : (onReportGameUsers r c t).drop 3 = .int (t.userCount r) :: ((t.within r).map (·.m_userId)).map .int := by
    rw [onReportGameUsers, hids]
    rfl
  rw [Listed, hdrop, ← beyond_nil hseating]
  constructor
  · rintro ⟨ids, hperm, hlength, hcalls⟩
    have hfields := congrArg List.length hcalls
    have hseated := hperm.length_eq
    simp only [List.length_cons, List.length_map, seated_eq, List.length_append] at hfields hseated
    exact List.length_eq_zero_iff.mp (by omega)
  · intro hbeyond
    have hseated : t.seated r = t.within r := by rw [seated_eq, hbeyond, List.append_nil]
    refine ⟨(t.within r).map (·.m_userId), ?_, ?_, ?_⟩
    · rw [hseated]
    · rw [List.length_map, userCount_eq, hseated]
    · rw [List.length_map, userCount_eq, hseated]

/-- `onGameStart` is what sends the report, when all users are ready. -/
theorem report_at_start (hseating : Seating r t) (hready : t.readyUserCount r = r.iMaxUserCount) :
    Listed r t (onReportGameUsers r c t) := by
  refine (report_iff hseating).mpr ?_
  have hle : t.readyUserCount r ≤ t.userCount r := by
    refine List.countP_mono_left ?_
    intro i _ hi
    obtain ⟨u, hu, -⟩ := (Option.any_eq_true ..).mp hi
    rw [hu]
    rfl
  intro i u hu
  exact (hseating.seat i u hu).2.2.trans (hready.symm.le.trans hle)

/-- The packet for a user is sent, and says what the table is. -/
def PacketOk (r : Room) (c : Config) (profile : Nat → Profile) (t : Table Mahjong.State) (userId : Int) : Prop :=
  ∃ calls, onSendUserReconnetSucccess r c profile t userId = some calls ∧ Faithful r t calls

theorem packet_iff (c : Config) (profile : Nat → Profile) (hseating : Seating r t) {userId : Int}
    (huser : (t.find r userId).isSome) :
    PacketOk r c profile t userId ↔ r.isBattleRoom = false ∧
      (t.m_tableStatus = .gamePlaying → t.m_gameRound.banker = 0 ∧ t.m_gameRound.pool = []) ∧ Dense r t := by
  cases hbattle : r.isBattleRoom with
  | true =>
    refine ⟨?_, fun h => nomatch h.1⟩
    rintro ⟨calls, hcalls, -⟩
    rw [battle_packet hbattle] at hcalls
    cases hcalls
  | false =>
    rw [PacketOk, coin_packet hseating hbattle huser]
    constructor
    · rintro ⟨calls, hcalls, hfaithful⟩
      cases hcalls
      exact ⟨rfl, (coin_faithful hseating userId).mp hfaithful⟩
    · rintro ⟨-, h⟩
      exact ⟨_, rfl, (coin_faithful hseating userId).mpr h⟩

def someConfig : Config := ⟨1, 1, 0, 10, 5, 12, 8, 14, 0⟩

def someProfile : Nat → Profile := fun _ => ⟨[], 100⟩

/-- A round with a banker and a wall, and with no tiles at the seats. -/
def someRound (banker : Int) (pool : List Nat) : Mahjong.State :=
  { pool := pool
    status := .none
    curSeat := banker
    banker := banker
    outCardNum := 0
    offers := none
    progressIndex := 1
    hand := fun _ => []
    handle := fun _ => []
    out := fun _ => []
    tuoGuan := fun _ => false
    turnMoney := fun _ => 0
    money := fun _ => 0
    gangs := []
    hus := []
    timers := fun _ => none
    sent := []
    reports := []
    carried := []
    robbed := []
    settled := []
    finished := false }

def idleRound : Game Mahjong.State := ⟨id, id⟩

/-- A user logs in: the calls of the coroutine return. -/
def enters (id : Nat) (d : Login) : List (Event Mahjong.State) := .login d :: List.replicate 6 (.resume id fine)

/-- Users 5 and 6 log in, and user 5 leaves: the only user sits at seat 2. -/
def leaves : List (Event Mahjong.State) :=
  List.flatten [enters 0 (guest 5 3), enters 1 (guest 6 4), [.receive 5 3 (.logout 0), .serve],
    List.replicate 3 (.resume 2 fine)]

/-- Both are ready, and a round goes on. -/
def plays : List (Event Mahjong.State) :=
  List.flatten [enters 0 { guest 5 3 with iReady := 1 }, enters 1 { guest 6 4 with iReady := 1 },
    [.play (someRound 1 [0x11, 0x12])]]

end Packets

end Hall
end Skynet
