import Mathlib.Algebra.Ring.Int.Defs
import Mathlib.Algebra.Ring.Nat
import Mathlib.Data.List.AList
import Mathlib.Logic.Function.Basic
import Skynet.Lib.Run

/-!
# Skynet.GameServer

The tables and the users of `logic/common/gameServer.lua`: which service each table is, what it has reported, and at
which table each user sits. A Lua table that is iterated over is an `AList`; the order of `pairs` is that of its
entries.

* `onGameTableUpdateTableData`, `onRemoveUser` : the messages of the tables.
* `onReportServerData`, `onReportBattleData`, `onAllCmdRequestUserBattleData` : what the other servers are told.
* `reports_faithful` : that is right only while no table has reported.
-/

namespace Skynet
namespace GameServer

/-- The values of `m_tableStatus` that occur. -/
inductive TableStatus
  | gameStop | gamePlaying | battleCreated | battleStop
deriving Repr, DecidableEq

/-- `m_gameRoomConfig`. -/
structure Config where
  iLevel : Int
  iServerId : Int
  iMJCode : Int
  iIsBattleRoom : Int
deriving Repr, DecidableEq

structure CommonConfig where
  iRoomId : Int
  iTableId : Int
  iUserCount : Nat
  iMJCode : Int
deriving Repr, DecidableEq

structure BattleConfig where
  iRoomId : Int
  iUserId : Int
  iTableId : Int
  iPlayType : Int
deriving Repr, DecidableEq

structure GameTableInfo where
  iTableStatus : TableStatus
  iIsAlive : Bool
  iCommonConfig : CommonConfig
  iBattleConfig : Option BattleConfig
deriving Repr, DecidableEq

/-- What `GameTable:onGameTableUpdateTableData` sends. `iUserTable` has the ids and the sockets of the users. -/
structure TableData where
  iTableId : Int
  iGameTable : Nat
  iGameTableInfo : GameTableInfo
  iUserTable : List (Int × Int)
deriving Repr, DecidableEq

structure State where
  m_totalUserCount : Int
  m_userIdToTableIdMap : AList fun _ : Int => Int
  m_tableIdToGameTableMap : AList fun _ : Int => Nat
  m_gameTableToGameTableInfoMap : Nat → Option GameTableInfo
  /-- The address of the last service that was started. -/
  services : Nat

def init : State :=
  { m_totalUserCount := 0
    m_userIdToTableIdMap := ∅
    m_tableIdToGameTableMap := ∅
    m_gameTableToGameTableInfoMap := fun _ => none
    services := 0 }

def isBattleServer (c : Config) : Bool := c.iIsBattleRoom == 1

/-! ### The tables and their users -/

def onRemoveUser (s : State) (userId : Int) : State :=
  { s with
    m_userIdToTableIdMap := s.m_userIdToTableIdMap.erase userId
    m_totalUserCount := s.m_totalUserCount - 1 }

/-- One user of the loop in `onGameTableUpdateTableData`. -/
def updateUser (tableId : Int) (s : State) (user : Int × Int) : State :=
  { s with
    m_totalUserCount :=
      if user.1 ∈ s.m_userIdToTableIdMap then s.m_totalUserCount else s.m_totalUserCount + 1
    m_userIdToTableIdMap := s.m_userIdToTableIdMap.insert user.1 tableId }

def updateTable (s : State) (data : TableData) : State :=
  if data.iTableId ∈ s.m_tableIdToGameTableMap then s
  else { s with
    m_tableIdToGameTableMap := s.m_tableIdToGameTableMap.insert data.iTableId data.iGameTable
    m_gameTableToGameTableInfoMap :=
      Function.update s.m_gameTableToGameTableInfoMap data.iGameTable (some data.iGameTableInfo) }

def onGameTableUpdateTableData (s : State) : Option TableData → State
  | none => s
  | some data => data.iUserTable.foldl (updateUser data.iTableId) (updateTable s data)

/-- A table that does not exist is started. -/
def onDealCheckAndAddTable (s : State) (tableId : Int) : State :=
  match s.m_tableIdToGameTableMap.lookup tableId with
  | some pGameTable => { s with m_tableIdToGameTableMap := s.m_tableIdToGameTableMap.insert tableId pGameTable }
  | none =>
    { s with
      services := s.services + 1
      m_tableIdToGameTableMap := s.m_tableIdToGameTableMap.insert tableId (s.services + 1) }

structure RoomData where
  iUserId : Int
  iRoomId : Int
  iTableId : Int
  iMJCode : Int
  iRoundNum : Int
deriving Repr, DecidableEq

def onCheckDataValid (c : Config) (data : RoomData) : Bool :=
  if data.iUserId ≤ 0 || data.iRoomId ≤ 0 || data.iTableId ≤ 0 || data.iMJCode ≤ 0 || data.iRoundNum ≤ 0 then false
  else data.iMJCode == c.iMJCode

/-- `onClientCmdCreateBattleRoom`, without the call of the table. -/
def onClientCmdCreateBattleRoom (c : Config) (s : State) (data : RoomData) : State :=
  if onCheckDataValid c data then onDealCheckAndAddTable s data.iTableId else s

/-- `onClientCmdLogin`, without the call of the table. -/
def onClientCmdLogin (c : Config) (s : State) (iUserId iTableId : Option Int) : State :=
  match iUserId, iTableId with
  | some _, some tableId =>
    if tableId ∉ s.m_tableIdToGameTableMap ∧ isBattleServer c then s else onDealCheckAndAddTable s tableId
  | _, _ => s

/-! ### The reports -/

/-- The entry that the reports use for a table. -/
def infoOf (s : State) (tableId : Int) : Option GameTableInfo :=
  (s.m_tableIdToGameTableMap.lookup tableId).bind s.m_gameTableToGameTableInfoMap

/-- The entries of both maps, joined by the address of the table. -/
def tableInfos (s : State) : List (Option GameTableInfo) :=
  s.m_tableIdToGameTableMap.entries.map fun e => s.m_gameTableToGameTableInfoMap e.2

structure BattleRow where
  iRoomId : Int
  iUserId : Int
  iTableId : Int
  iPlayType : Int
  iTableStatus : TableStatus
deriving Repr, DecidableEq

structure BattleReport where
  iServerId : Int
  iLevel : Int
  iAliveBattleRoom : Nat
  iTableList : List BattleRow
deriving Repr, DecidableEq

def battleRow (info : GameTableInfo) : Option BattleRow :=
  match info.iBattleConfig with
  | some b =>
    if info.iIsAlive then some ⟨b.iRoomId, b.iUserId, b.iTableId, b.iPlayType, info.iTableStatus⟩ else none
  | none => none

/-- The loop of `onReportBattleData`: `iAliveBattleRoom` and `iTableList`. -/
def battleLoop : List (Option GameTableInfo) → Nat → List BattleRow → Nat × List BattleRow
  | [], n, rows => (n, rows)
  | e :: es, n, rows =>
    match e.bind battleRow with
    | some row => battleLoop es (n + 1) (rows ++ [row])
    | none => battleLoop es n rows

def onReportBattleData (c : Config) (s : State) : Option BattleReport :=
  if isBattleServer c then
    let (iAliveBattleRoom, iTableList) := battleLoop (tableInfos s) 0 []
    some ⟨c.iServerId, c.iLevel, iAliveBattleRoom, iTableList⟩
  else none

structure ServerRow where
  iTableId : Int
  iMJCode : Int
  iUserCount : Nat
  iRoomId : Int
deriving Repr, DecidableEq

structure ServerReport where
  iAllocLevel : Int
  iAllocServerId : Int
  iRoomCount : Nat
  iUserCount : Int
  iTableList : List ServerRow
deriving Repr, DecidableEq

def serverRow (info : GameTableInfo) : ServerRow :=
  ⟨info.iCommonConfig.iTableId, info.iCommonConfig.iMJCode, info.iCommonConfig.iUserCount, info.iCommonConfig.iRoomId⟩

/-- The loop of `onReportServerData`. `iTableList` is the field of `info`, which nothing has set before the loop. -/
def serverLoop : List (Option GameTableInfo) → Nat → Option (List ServerRow) → Except String (Nat × List ServerRow)
  | [], n, iTableList => .ok (n, iTableList.getD [])
  | none :: es, n, iTableList => serverLoop es n iTableList
  | some info :: es, n, iTableList =>
    match iTableList with
    | none => .error "attempt to get length of a nil value (field 'iTableList')"
    | some rows => serverLoop es (n + 1) (some (rows ++ [serverRow info]))

def onReportServerData (c : Config) (s : State) : Except String ServerReport :=
  match serverLoop (tableInfos s) 0 none with
  | .error e => .error e
  | .ok (iRoomCount, iTableList) => .ok ⟨c.iLevel, c.iServerId, iRoomCount, s.m_totalUserCount, iTableList⟩

/-- Is the user told that the room is not in use? -/
def onAllCmdRequestUserBattleData (c : Config) (s : State) (iUserId iRoomId iTableId : Int) : Bool :=
  isBattleServer c && match (infoOf s iTableId).bind fun info => info.iBattleConfig.map fun b => (info, b) with
    | some (info, b) => b.iRoomId == iRoomId && b.iUserId == iUserId && !info.iIsAlive
    | none => false

/-! ### Runs -/

inductive Label
  | createBattleRoom (data : RoomData)
  | login (iUserId iTableId : Option Int)
  /-- `onCreatANewGameTable`. `onCreatNewTableId` has stopped at the table `k`. -/
  | newTable (k : Int) (iUserId : Option Int)
  | update (data : Option TableData)
  | removeUser (userId : Int)
deriving Repr, DecidableEq

/-- `latest` is what each table has reported last. -/
structure Reported where
  server : State
  latest : AList fun _ : Int => GameTableInfo

def step (c : Config) (s : Reported) : Label → Option Reported
  | .createBattleRoom data => some { s with server := onClientCmdCreateBattleRoom c s.server data }
  | .login iUserId iTableId => some { s with server := onClientCmdLogin c s.server iUserId iTableId }
  | .newTable k iUserId =>
    if k ∈ s.server.m_tableIdToGameTableMap ∧ k + 1 ∉ s.server.m_tableIdToGameTableMap then
      some { s with server := onClientCmdLogin c s.server iUserId (some (k + 1)) }
    else none
  | .update none => some { s with server := onGameTableUpdateTableData s.server none }
  | .update (some data) =>
    some { server := onGameTableUpdateTableData s.server (some data)
           latest := s.latest.insert data.iTableId data.iGameTableInfo }
  | .removeUser userId => some { s with server := onRemoveUser s.server userId }

def start : Reported := ⟨init, ∅⟩

/-- The reports use what each table has reported last, and list the tables that have reported. -/
structure Faithful (c : Config) (s : Reported) : Prop where
  used : ∀ tableId info, s.latest.lookup tableId = some info → infoOf s.server tableId = some info
  listed : ∃ r, onReportServerData c s.server = .ok r ∧ r.iRoomCount = r.iTableList.length ∧
    r.iTableList.Perm (s.latest.entries.map fun e => serverRow e.2)
  battles : ∀ r, onReportBattleData c s.server = some r → r.iAliveBattleRoom = r.iTableList.length ∧
    r.iTableList.Perm (s.latest.entries.filterMap fun e => battleRow e.2)

theorem serverLoop_none {es : List (Option GameTableInfo)} (h : ∀ e ∈ es, e = none) (n : Nat) :
    serverLoop es n none = .ok (n, []) := by
  induction es with
  | nil => rfl
  | cons e es ih =>
    rw [h e (List.mem_cons_self ..)]
    exact ih fun e he => h e (List.mem_cons_of_mem _ he)

/-- The first table with an entry stops the report. -/
theorem serverLoop_error {es : List (Option GameTableInfo)} {info : GameTableInfo} (h : some info ∈ es) (n : Nat) :
    ∃ e, serverLoop es n none = .error e := by
  induction es with
  | nil => cases h
  | cons e es ih =>
    cases e with
    | some _ => exact ⟨_, rfl⟩
    | none =>
      rcases List.mem_cons.mp h with h | h
      · cases h
      · exact ih h

theorem battleLoop_none {es : List (Option GameTableInfo)} (h : ∀ e ∈ es, e = none) (n : Nat)
    (rows : List BattleRow) : battleLoop es n rows = (n, rows) := by
  induction es with
  | nil => rfl
  | cons e es ih =>
    rw [h e (List.mem_cons_self ..)]
    exact ih fun e he => h e (List.mem_cons_of_mem _ he)

theorem mem_tableInfos {s : State} {tableId : Int} {info : GameTableInfo} (h : infoOf s tableId = some info) :
    some info ∈ tableInfos s := by
  obtain ⟨pGameTable, htable, hinfo⟩ := Option.bind_eq_some_iff.mp h
  exact List.mem_map.mpr ⟨⟨tableId, pGameTable⟩, AList.mem_lookup_iff.mp htable, hinfo⟩

/-- No table has reported. -/
def Silent (s : Reported) : Prop :=
  s.latest = ∅ ∧ ∀ pGameTable, s.server.m_gameTableToGameTableInfoMap pGameTable = none

theorem Silent.faithful {s : Reported} (h : Silent s) (c : Config) : Faithful c s := by
  have hnone : ∀ e ∈ tableInfos s.server, e = none := by
    intro e he
    obtain ⟨t, -, rfl⟩ := List.mem_map.mp he
    exact h.2 t.2
  refine ⟨?_, ?_, ?_⟩
  · intro tableId info hlatest
    rw [h.1] at hlatest
    cases hlatest
  · refine ⟨⟨c.iLevel, c.iServerId, 0, s.server.m_totalUserCount, []⟩, ?_, rfl, ?_⟩
    · rw [onReportServerData, serverLoop_none hnone]
    · rw [h.1]
      exact .refl _
  · intro r hr
    rw [onReportBattleData, battleLoop_none hnone] at hr
    split at hr
    · cases hr
      rw [h.1]
      exact ⟨rfl, .refl _⟩
    · cases hr

/-- A table that has reported is not listed as it should be. -/
theorem not_faithful {c : Config} {s : Reported} {tableId : Int} (h : tableId ∈ s.latest) : ¬Faithful c s := by
  intro hf
  obtain ⟨info, hinfo⟩ := Option.isSome_iff_exists.mp (AList.lookup_isSome.mpr h)
  obtain ⟨e, herr⟩ := serverLoop_error (mem_tableInfos (hf.used tableId info hinfo)) 0
  obtain ⟨r, hr, -⟩ := hf.listed
  rw [onReportServerData, herr] at hr
  cases hr

theorem infos_addTable (s : State) (tableId : Int) :
    (onDealCheckAndAddTable s tableId).m_gameTableToGameTableInfoMap = s.m_gameTableToGameTableInfoMap := by
  simp only [onDealCheckAndAddTable]
  split <;> rfl

theorem infos_login (c : Config) (s : State) (iUserId iTableId : Option Int) :
    (onClientCmdLogin c s iUserId iTableId).m_gameTableToGameTableInfoMap = s.m_gameTableToGameTableInfoMap := by
  simp only [onClientCmdLogin]
  split
  · split
    · rfl
    · exact infos_addTable ..
  · rfl

theorem silent_step {c : Config} {s t : Reported} {l : Label} (h : Silent s) (hl : ∀ data, l ≠ .update (some data))
    (hs : step c s l = some t) : Silent t := by
  cases l with
  | createBattleRoom data =>
    cases hs
    refine ⟨h.1, ?_⟩
    simp only [onClientCmdCreateBattleRoom]
    split
    · rw [infos_addTable]
      exact h.2
    · exact h.2
  | login iUserId iTableId =>
    cases hs
    refine ⟨h.1, ?_⟩
    rw [infos_login]
    exact h.2
  | newTable k iUserId =>
    simp only [step] at hs
    split at hs
    · cases hs
      refine ⟨h.1, ?_⟩
      rw [infos_login]
      exact h.2
    · cases hs
  | update data =>
    cases data with
    | none => cases hs; exact h
    | some data => exact absurd rfl (hl data)
  | removeUser userId => cases hs; exact h

theorem latest_step {c : Config} {s t : Reported} {l : Label} {tableId : Int} (h : tableId ∈ s.latest)
    (hs : step c s l = some t) : tableId ∈ t.latest := by
  cases l with
  | createBattleRoom data => cases hs; exact h
  | login iUserId iTableId => cases hs; exact h
  | newTable k iUserId =>
    simp only [step] at hs
    split at hs
    · cases hs; exact h
    · cases hs
  | update data =>
    cases data with
    | none => cases hs; exact h
    | some data => cases hs; exact (AList.mem_insert _).mpr (.inr h)
  | removeUser userId => cases hs; exact h

theorem latest_of_mem {c : Config} {s t : Reported} {as : List Label} {data : TableData}
    (h : Lts.run (step c) s as = some t) (hdata : Label.update (some data) ∈ as) : data.iTableId ∈ t.latest := by
  induction as generalizing s with
  | nil => cases hdata
  | cons l as ih =>
    obtain ⟨u, hu, hr⟩ := Lts.run_cons.mp h
    rcases List.mem_cons.mp hdata with rfl | hdata
    · cases hu
      have hmem : data.iTableId ∈ s.latest.insert data.iTableId data.iGameTableInfo :=
        (AList.mem_insert _).mpr (.inl rfl)
      exact Lts.run_invariant (P := fun u => data.iTableId ∈ u.latest) (fun _ _ _ => latest_step) hr hmem
    · exact ih hr hdata

/-- The reports are right as long as no table has reported, and never after: a table that this server has started is
in the one map before it reports, so its entry never gets into the other, and an entry that does stops the report. -/
theorem reports_faithful {c : Config} {s : Reported} {as : List Label} (h : Lts.run (step c) start as = some s) :
    Faithful c s ↔ ∀ data, Label.update (some data) ∉ as := by
  refine ⟨?_, ?_⟩
  · intro hf data hdata
    exact not_faithful (latest_of_mem h hdata) hf
  · intro hno
    have hguard : Lts.Guarded (step c) (fun _ l => ∀ data, l ≠ .update (some data)) start as := by
      refine Lts.guarded_of_forall ?_ _
      rintro l hl - data rfl
      exact hno data hl
    have hstart : Silent start := ⟨rfl, fun _ => rfl⟩
    exact (Lts.run_invariant_of_guarded (fun _ _ _ => silent_step) h hguard hstart).faithful c

def battleServer : Config := ⟨100, 1100, 100, 1⟩

/-- Table 7, with its owner 5. -/
def roomSeven : TableData :=
  ⟨7, 1, ⟨.battleCreated, true, ⟨42, 7, 1, 100⟩, some ⟨42, 5, 7, 1⟩⟩, [(5, 3)]⟩

/-- A room is created, and its table reports: the reports do not have it. -/
theorem report_lost :
    ∃ as s, Lts.run (step battleServer) start as = some s ∧ s.latest.lookup 7 = some roomSeven.iGameTableInfo ∧
      infoOf s.server 7 = none ∧ ¬Faithful battleServer s := by
  have hrun : Lts.run (step battleServer) start
      [.createBattleRoom ⟨5, 42, 7, 100, 4⟩, .update (some roomSeven)] = some _ := rfl
  refine ⟨_, _, hrun, by decide, by decide, ?_⟩
  have hmem := latest_of_mem hrun (List.mem_cons_of_mem _ (List.mem_singleton_self _))
  exact not_faithful hmem

/-- Before the table reports there is nothing to list. -/
theorem reports_faithful_created :
    ∃ s, Lts.run (step battleServer) start [.createBattleRoom ⟨5, 42, 7, 100, 4⟩] = some s ∧
      7 ∈ s.server.m_tableIdToGameTableMap ∧ Faithful battleServer s := by
  have hrun : Lts.run (step battleServer) start [.createBattleRoom ⟨5, 42, 7, 100, 4⟩] = some _ := rfl
  exact ⟨_, hrun, by decide, (reports_faithful hrun).mpr (by simp)⟩

end GameServer
end Skynet
