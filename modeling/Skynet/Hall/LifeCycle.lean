import Skynet.Hall.Seats

/-!
# Skynet.Hall.LifeCycle

The rounds of a battle room. `iCurRound` counts from 0, so that the first round is not the last even of one, and the
status after a round that is not the last is `GAME_STATUS_PLAYING`, in which `onCheckGameTableStartGame` starts
nothing. The status after the last round is that of a coin room, in which nobody may leave.

* `Life` : the room since its creation, and who has been ready since the last round.
* `Lives` : what the room is to do.
* `life_cycle` : it does so until the first round has ended and everybody is ready again, and never to the end.
* `life_stuck` : a room for four rounds, after the first.
-/

namespace Skynet
namespace Hall

open GameServer (TableStatus)

variable {R : Type} {r : Room} {g : Game R} {t t' : Table R}

/-! ### The room -/

/-- The table since the room was created, the users that have sent Ready since the last round ended, and whether the
room has been dismissed. -/
structure Life (R : Type) where
  table : Table R
  readied : List Int
  dismissed : Bool

def readiedOf (r : Room) (t : Table R) (readied : List Int) : Event R → List Int
  | .serve =>
    match t.current_thread, t.thread_queue with
    | none, (userId, _, .ready) :: _ => if (t.find r userId).isSome then userId :: readied else readied
    | _, _ => readied
  | .stopRound => []
  | _ => readied

def resets (t : Table R) : Event R → Bool
  | .resume id _ =>
    match t.threads id with
    | .reset :: _ => true
    | _ => false
  | _ => false

/-- Until the next room is created. -/
def lifeStep (r : Room) (g : Game R) (l : Life R) : Event R → Option (Life R)
  | .create _ => none
  | e =>
    (tableStep r g l.table e).map fun t => ⟨t, readiedOf r l.table l.readied e, l.dismissed || resets l.table e⟩

/-- Everybody has been ready since the last round. -/
def everybody (r : Room) (l : Life R) : Bool :=
  r.seats.all fun i => (l.table.m_tableUserMap i).any fun u => l.readied.contains u.m_userId

/-- A room for `n` rounds. -/
structure Lives (r : Room) (n : Int) (l : Life R) : Prop where
  rounds : (l.table.starts : Int) ≤ n
  again : l.table.stops ≠ 0 → (l.table.stops : Int) < n → everybody r l = true → l.table.starts = l.table.stops + 1
  waits : l.table.stops ≠ 0 → l.table.starts = l.table.stops + 1 → everybody r l = true
  leave : (l.table.stops : Int) = n → onUserCanLogoutTable r l.table = true
  gone : (l.table.stops : Int) = n → l.table.userCount r = 0 → onCheckTableIsAlive r l.table = false

/-! ### What a step is to the rounds -/

/-- The round, and the counts. -/
structure SameRound (t t' : Table R) : Prop where
  status : t'.m_tableStatus = t.m_tableStatus
  battle : t'.m_battleConfig = t.m_battleConfig
  phase : t'.phase = t.phase
  starts : t'.starts = t.starts
  stops : t'.stops = t.stops

/-- A round starts. -/
structure Starts (t t' : Table R) : Prop where
  before : t.m_tableStatus ≠ .gamePlaying
  status : t'.m_tableStatus = .gamePlaying
  battle : t'.m_battleConfig = t.m_battleConfig
  starts : t'.starts = t.starts + 1
  stops : t'.stops = t.stops

theorem SameRound.refl (t : Table R) : SameRound t t := ⟨rfl, rfl, rfl, rfl, rfl⟩

theorem rounds_startGame (t : Table R) :
    SameRound t (onCheckGameTableStartGame r g t).1 ∨ Starts t (onCheckGameTableStartGame r g t).1 := by
  simp only [onCheckGameTableStartGame]
  split
  · exact .inl (.refl t)
  · rename_i hstatus
    split
    · exact .inr ⟨hstatus, rfl, rfl, rfl, rfl⟩
    · exact .inl (.refl t)

theorem rounds_command (t : Table R) (userId : Int) (cmd : Cmd) :
    SameRound t (command r g t userId cmd).1 ∨ Starts t (command r g t userId cmd).1 := by
  cases cmd with
  | logout iLeave => exact .inl (.refl t)
  | ready =>
    simp only [command, onClientCmdReady]
    split
    · exact .inl (.refl t)
    · rename_i u _
      rcases rounds_startGame (r := r) (g := g) (t.modify u.object fun u => { u with m_ready := 1 }) with
        ⟨hs, hb, hp, hst, hsp⟩ | ⟨hbefore, hs, hb, hst, hsp⟩
      · exact .inl ⟨hs, hb, hp, hst, hsp⟩
      · exact .inr ⟨hbefore, hs, hb, hst, hsp⟩

theorem round_entry {id : Nat} {x : Task} {new : List Task} (h : Entry r t id x t' new) : SameRound t t' := by
  cases h with
  | next | toCharge => exact .refl t
  | failed | absent | unsent | reconnected | charge => exact ⟨rfl, rfl, rfl, rfl, rfl⟩
  | full h | entered h => rcases h with ⟨-, -, -, -, -, -, rfl⟩ | ⟨-, rfl⟩ <;> exact ⟨rfl, rfl, rfl, rfl, rfl⟩

theorem rounds_perform {id : Nat} {ans : Answer} {rest work : List Task} {x : Task} {msg : Option Msg}
    (hreset : x ≠ .reset) (hsettlement : x.settlement = false) (h : perform r g t id ans rest x = (t', work, msg)) :
    SameRound t t' ∨ Starts t t' := by
  by_cases hlogin : x.login = none
  · cases x with
    | checkDiamond | checkMTkey | checkDisconnect | checkUserInfo | charge | charged => cases hlogin
    | pay | sweep => cases hsettlement
    | reset => exact absurd rfl hreset
    | reported object =>
      simp only [perform] at h
      split at h <;> cases h <;> exact .inl (.refl t)
    | enter object userId socketfd =>
      simp only [perform] at h
      split at h <;> cases h
      · exact rounds_startGame t
      · exact .inl (.refl t)
    | disconnected object userId =>
      simp only [perform, disconnected] at h
      split at h <;> cases h <;> exact .inl ⟨rfl, rfl, rfl, rfl, rfl⟩
    | report | refund | removed => cases h; exact .inl ⟨rfl, rfl, rfl, rfl, rfl⟩
    | rebind | answered | kick | leave | left | created | done => cases h; exact .inl (.refl t)
  · obtain ⟨-, new, -, hentry⟩ := entry_of_perform hlogin h
    exact .inl (round_entry hentry)

/-! ### A battle room settles nothing -/

/-- No settlement waits for other services. -/
def Unsettled (t : Table R) : Prop := ∀ y, Has t y → y.settlement = false

theorem settlement_entry {id : Nat} {x y : Task} {new : List Task} (h : Entry r t id x t' new) (hy : y ∈ new) :
    y.settlement = false := by
  cases h with
  | next _ hd' =>
    rw [List.mem_singleton.mp hy]
    rename_i z _ _ _ _ _ _
    cases z <;> first | rfl | cases hd'
  | toCharge | charge | failed | full | reconnected => rw [List.mem_singleton.mp hy]; rfl
  | absent | unsent => cases hy
  | entered =>
    simp only [List.mem_cons, List.not_mem_nil, or_false] at hy
    rcases hy with rfl | rfl | rfl <;> rfl

theorem settlement_of_dismissing {y : Task} (h : y.dismissing = true) : y.settlement = false := by
  cases y <;> first | rfl | cases h

theorem unsettled_of_moved (hbattle : r.isBattleRoom = true) (hu : Unsettled t) {e : Event R} {msg : Option Msg}
    (h : Moved r g t e t' msg) : Unsettled t' := by
  intro y hy
  rcases has_of_moved h hy with hy | hy
  · exact hu y hy
  · cases hy with
    | create | login | disconnect | done | left | leave | removed => rfl
    | entry _ _ hentry hy => exact settlement_entry hentry hy
    | dismissing _ hdis => exact settlement_of_dismissing hdis
    | settling hwhen =>
      rcases hwhen with ⟨-, hcoin⟩ | ⟨x, hx, hyes⟩
      · rw [hbattle] at hcoin
        cases hcoin
      · rw [hu x hx] at hyes
        cases hyes

/-! ### A step of the room -/

/-- A step, to the rounds of a battle room. -/
inductive Rounds (r : Room) (t t' : Table R) : Event R → Prop
  | same {e : Event R} : e ≠ .stopRound → SameRound t t' → Rounds r t t' e
  | starts {e : Event R} : e ≠ .stopRound → Starts t t' → Rounds r t t' e
  | last : t.phase = .running → t.m_battleConfig.iRoundNum = t.m_battleConfig.iCurRound →
      t'.m_tableStatus = .gameStop → t'.m_battleConfig = t.m_battleConfig → t'.phase = .none →
      t'.starts = t.starts → t'.stops = t.stops + 1 → Rounds r t t' .stopRound
  | next : t.phase = .running → t.m_battleConfig.iRoundNum ≠ t.m_battleConfig.iCurRound →
      t'.m_tableStatus = .gamePlaying →
      t'.m_battleConfig = { t.m_battleConfig with iCurRound := t.m_battleConfig.iCurRound + 1 } → t'.phase = .none →
      t'.starts = t.starts → t'.stops = t.stops + 1 → Rounds r t t' .stopRound

theorem rounds_of_moved (hbattle : r.isBattleRoom = true) (hu : Unsettled t) {e : Event R} {msg : Option Msg}
    (h : Moved r g t e t' msg) (hcreate : ∀ data, e ≠ .create data) (hreset : resets t e = false) :
    Rounds r t t' e := by
  cases h with
  | @create data => exact absurd rfl (hcreate data)
  | unknown | gone => exact .same (fun h => by cases h) (.refl t)
  | login | receive | disconnect | play => exact .same (fun h => by cases h) ⟨rfl, rfl, rfl, rfl, rfl⟩
  | @serve userId socketfd cmd rest t₁ work _ _ hc =>
    have hrounds := rounds_command (r := r) (g := g) (t.take socketfd rest) userId cmd
    rw [hc] at hrounds
    rcases hrounds with ⟨hs, hb, hp, hst, hsp⟩ | ⟨hbefore, hs, hb, hst, hsp⟩
    · exact .same (fun h => by cases h) ⟨hs, hb, hp, hst, hsp⟩
    · exact .starts (fun h => by cases h) ⟨hbefore, hs, hb, hst, hsp⟩
  | @stopRound t₁ work hphase hs =>
    simp only [onGameStopRound, hbattle, Bool.not_true, Bool.false_eq_true, if_false] at hs
    split at hs
    · rename_i hround
      cases hs
      exact .last hphase hround rfl rfl rfl rfl rfl
    · rename_i hround
      cases hs
      exact .next hphase hround rfl rfl rfl rfl rfl
  | @resume id ans x rest work t₁ msg hx hp =>
    have hne : x ≠ .reset := by
      rintro rfl
      simp [resets, hx] at hreset
    rcases rounds_perform hne (hu x (has_head hx)) hp with ⟨hs, hb, hp, hst, hsp⟩ | ⟨hbefore, hs, hb, hst, hsp⟩
    · exact .same (fun h => by cases h) ⟨hs, hb, hp, hst, hsp⟩
    · exact .starts (fun h => by cases h) ⟨hbefore, hs, hb, hst, hsp⟩

/-! ### Runs -/

/-- The rounds of a room for `n` rounds, created where `iCurRound` was `c`. -/
structure Counted (n c : Int) (t : Table R) : Prop where
  total : t.m_battleConfig.iRoundNum = n
  first : t.stops = 0 → t.m_battleConfig.iCurRound = c ∧
    (t.m_tableStatus = .battleCreated ∧ t.starts = 0 ∨ t.m_tableStatus = .gamePlaying ∧ t.starts = 1)
  later : t.stops ≠ 0 → t.m_tableStatus = .gamePlaying ∨ t.m_tableStatus = .gameStop
  stuck : c ≠ n → t.stops ≠ 0 → t.m_tableStatus = .gamePlaying ∧ t.phase = .none ∧ t.stops = 1 ∧ t.starts ≤ 1

theorem Counted.starts_le {n c : Int} (h : Counted n c t) (hstops : t.stops = 0) : t.starts ≤ 1 := by
  rcases (h.first hstops).2 with ⟨-, hs⟩ | ⟨-, hs⟩ <;> omega

theorem counted_of_rounds {n c : Int} {e : Event R} (h : Counted n c t) (hr : Rounds r t t' e) : Counted n c t' := by
  cases hr with
  | same _ hs =>
    obtain ⟨hstatus, hbattle, hphase, hstarts, hstops⟩ := hs
    refine ⟨?_, ?_, ?_, ?_⟩
    · rw [hbattle]; exact h.total
    · rw [hstops, hbattle, hstatus, hstarts]; exact h.first
    · rw [hstops, hstatus]; exact h.later
    · rw [hstops, hstatus, hphase, hstarts]; exact h.stuck
  | starts _ hs =>
    obtain ⟨hbefore, hstatus, hbattle, hstarts, hstops⟩ := hs
    refine ⟨?_, ?_, ?_, ?_⟩
    · rw [hbattle]; exact h.total
    · rw [hstops, hbattle, hstatus, hstarts]
      intro hzero
      obtain ⟨hround, ⟨-, hnone⟩ | ⟨hplaying, -⟩⟩ := h.first hzero
      · exact ⟨hround, .inr ⟨rfl, by rw [hnone]⟩⟩
      · exact absurd hplaying hbefore
    · exact fun _ => .inl hstatus
    · rw [hstops]
      intro hc hne
      exact absurd (h.stuck hc hne).1 hbefore
  | last hphase hround hstatus hbattle hnone hstarts hstops =>
    refine ⟨?_, ?_, fun _ => .inr hstatus, ?_⟩
    · rw [hbattle]; exact h.total
    · intro hzero
      omega
    · intro hc _
      by_cases hzero : t.stops = 0
      · rw [h.total, (h.first hzero).1] at hround
        exact absurd hround.symm hc
      · rw [(h.stuck hc hzero).2.1] at hphase
        cases hphase
  | next hphase hround hstatus hbattle hnone hstarts hstops =>
    refine ⟨?_, ?_, fun _ => .inl hstatus, ?_⟩
    · rw [hbattle]; exact h.total
    · intro hzero
      omega
    · intro hc _
      by_cases hzero : t.stops = 0
      · exact ⟨hstatus, hnone, by rw [hstops, hzero], by rw [hstarts]; exact h.starts_le hzero⟩
      · rw [(h.stuck hc hzero).2.1] at hphase
        cases hphase

structure Lived (n c : Int) (l : Life R) : Prop where
  unsettled : Unsettled l.table
  counted : l.dismissed = false → Counted n c l.table

theorem lived_of_step (hbattle : r.isBattleRoom = true) {n c : Int} {l l' : Life R} {e : Event R} (hl : Lived n c l)
    (h : lifeStep r g l e = some l') : Lived n c l' := by
  have hcreate : ∀ data, e ≠ .create data := by
    rintro data rfl
    cases h
  have hstep : ∃ t', tableStep r g l.table e = some t' ∧
      l' = ⟨t', readiedOf r l.table l.readied e, l.dismissed || resets l.table e⟩ := by
    cases e with
    | create data => exact absurd rfl (hcreate data)
    | _ =>
      obtain ⟨t', hstep, rfl⟩ := Option.map_eq_some_iff.mp h
      exact ⟨t', hstep, rfl⟩
  obtain ⟨t', hstep, rfl⟩ := hstep
  obtain ⟨msg, hmoved⟩ := moved_of_tableStep hstep
  refine ⟨unsettled_of_moved hbattle hl.unsettled hmoved, ?_⟩
  intro hdismissed
  rw [Bool.or_eq_false_iff] at hdismissed
  exact counted_of_rounds (hl.counted hdismissed.1)
    (rounds_of_moved hbattle hl.unsettled hmoved hcreate hdismissed.2)

theorem unsettled_of_run (hbattle : r.isBattleRoom = true) {round : R} {es : List (Event R)}
    (h : Lts.run (tableStep r g) (initial round) es = some t) : Unsettled t := by
  have hstep : ∀ (s : Table R) (e : Event R) (s' : Table R), Unsettled s → tableStep r g s e = some s' →
      Unsettled s' := by
    intro s e s' hs hs'
    obtain ⟨msg, hmoved⟩ := moved_of_tableStep hs'
    exact unsettled_of_moved hbattle hs hmoved
  exact Lts.run_invariant hstep h fun _ ⟨_, hy⟩ => nomatch hy

theorem lived_of_create (hbattle : r.isBattleRoom = true) {data : Battle} (hu : Unsettled t)
    (h : tableStep r g t (.create data) = some t') :
    Lived data.iRoundNum t.m_battleConfig.iCurRound ⟨t', [], false⟩ := by
  obtain ⟨msg, hmoved⟩ := moved_of_tableStep h
  refine ⟨unsettled_of_moved hbattle hu hmoved, fun _ => ?_⟩
  cases hmoved with
  | create => exact ⟨rfl, fun _ => ⟨rfl, .inl ⟨rfl, rfl⟩⟩, fun hne => absurd rfl hne, fun _ hne => absurd rfl hne⟩

/-- After a round nobody may leave. -/
theorem cannot_leave (hbattle : r.isBattleRoom = true) {n c : Int} (h : Counted n c t) (hstops : t.stops ≠ 0) :
    onUserCanLogoutTable r t = false := by
  simp only [onUserCanLogoutTable, hbattle, if_true]
  rcases h.later hstops with hs | hs <;> rw [hs] <;> rfl

/-- A battle room does what it is to do until the first round has ended and, if it is not the last, until everybody is
ready again. Where `iCurRound` is what an earlier room has left, and is the number of rounds, more than one round may
start; but when the last has ended nobody may leave. -/
theorem life_cycle (r : Room) (g : Game R) (hbattle : r.isBattleRoom = true) {round : R} {es es' : List (Event R)}
    {data : Battle} {t₁ : Table R} {l : Life R} (h : Lts.run (tableStep r g) (initial round) es = some t)
    (hcreate : tableStep r g t (.create data) = some t₁) (hn : 1 ≤ data.iRoundNum)
    (hrun : Lts.run (lifeStep r g) ⟨t₁, [], false⟩ es' = some l) (hlive : l.dismissed = false) :
    ((l.table.stops : Int) = data.iRoundNum → ¬Lives r data.iRoundNum l) ∧
      (t.m_battleConfig.iCurRound ≠ data.iRoundNum → (Lives r data.iRoundNum l ↔
        l.table.stops = 0 ∨ (l.table.stops : Int) < data.iRoundNum ∧ everybody r l = false)) := by
  have hlived : Lived data.iRoundNum t.m_battleConfig.iCurRound l :=
    Lts.run_invariant (fun _ _ _ hl hstep => lived_of_step hbattle hl hstep) hrun
      (lived_of_create hbattle (unsettled_of_run hbattle h) hcreate)
  have hcounted := hlived.counted hlive
  have hend : (l.table.stops : Int) = data.iRoundNum → ¬Lives r data.iRoundNum l := by
    intro hstops hlives
    have hleave := hlives.leave hstops
    rw [cannot_leave hbattle hcounted (by omega)] at hleave
    cases hleave
  have hfirst : l.table.stops = 0 → Lives r data.iRoundNum l := by
    intro hzero
    have hstarts := hcounted.starts_le hzero
    exact ⟨by omega, fun hne => absurd hzero hne, fun hne => absurd hzero hne, fun he => by omega, fun he => by omega⟩
  refine ⟨hend, fun hc => ⟨?_, ?_⟩⟩
  · intro hlives
    by_cases hzero : l.table.stops = 0
    · exact .inl hzero
    · obtain ⟨-, -, hone, hstarts⟩ := hcounted.stuck hc hzero
      have hless : (l.table.stops : Int) < data.iRoundNum := by
        have hne : (l.table.stops : Int) ≠ data.iRoundNum := fun he => hend he hlives
        omega
      refine .inr ⟨hless, Bool.eq_false_iff.mpr fun heverybody => ?_⟩
      have hagain := hlives.again hzero hless heverybody
      omega
  · rintro (hzero | ⟨hless, hnot⟩)
    · exact hfirst hzero
    · by_cases hzero : l.table.stops = 0
      · exact hfirst hzero
      · obtain ⟨-, -, hone, hstarts⟩ := hcounted.stuck hc hzero
        exact ⟨by omega, fun _ _ hyes => absurd hyes (by rw [hnot]; nofun), fun _ he => by omega, fun he => by omega,
          fun he => by omega⟩

/-! ### Four rounds -/

def fourRounds : Battle := ⟨5, 42, 7, 4, 0, 1, 0⟩

/-- The table on which the room has just been created. -/
def newRoom : Table Unit :=
  { onSetBattleRoomConfig (initial ()) fourRounds with entering := some 0 }.spawn [.created, .done]

def everybodyReady : List (Event Unit) := [.receive 5 3 .ready, .serve, .receive 6 4 .ready, .serve]

/-- The owner and a guest log in and are ready, and the first round starts. -/
def firstRound : List (Event Unit) :=
  List.flatten [calls 0 2, [.login (guest 5 3)], calls 1 8, [.login (guest 6 4)], calls 2 6, everybodyReady, calls 4 1]

theorem life_cycle_first :
    ∃ l, tableStep battleRoom idleGame (initial ()) (.create fourRounds) = some newRoom ∧
      Lts.run (lifeStep battleRoom idleGame) ⟨newRoom, [], false⟩ firstRound = some l ∧ l.table.starts = 1 ∧
      Lives battleRoom 4 l := by
  have hcheck : Lts.check (lifeStep battleRoom idleGame) (fun _ _ => true)
      (fun l => !l.dismissed && l.table.starts == 1 && l.table.stops == 0) ⟨newRoom, [], false⟩ firstRound = true := by
    decide +kernel
  obtain ⟨l, hrun, -, hlast⟩ := Lts.of_check (fun _ _ h => h) hcheck
  simp only [Bool.and_eq_true, Bool.not_eq_true', beq_iff_eq] at hlast
  have hinitial : Lts.run (tableStep battleRoom idleGame) (initial ()) [] = some (initial ()) := rfl
  have hcreate : tableStep battleRoom idleGame (initial ()) (.create fourRounds) = some newRoom := rfl
  refine ⟨l, hcreate, hrun, hlast.1.2, ?_⟩
  have hcycle := life_cycle battleRoom idleGame rfl hinitial hcreate (by decide) hrun hlast.1.1
  exact (hcycle.2 (by decide)).mpr (.inl hlast.2)

/-- The first round has ended and everybody is ready again: no round starts. -/
theorem life_stuck :
    ∃ l, tableStep battleRoom idleGame (initial ()) (.create fourRounds) = some newRoom ∧
      Lts.run (lifeStep battleRoom idleGame) ⟨newRoom, [], false⟩ (firstRound ++ .stopRound :: everybodyReady) =
        some l ∧
      l.dismissed = false ∧ l.table.starts = 1 ∧ l.table.stops = 1 ∧ everybody battleRoom l = true ∧
      ¬Lives battleRoom 4 l := by
  have hcheck : Lts.check (lifeStep battleRoom idleGame) (fun _ _ => true)
      (fun l => !l.dismissed && l.table.starts == 1 && l.table.stops == 1 && everybody battleRoom l)
      ⟨newRoom, [], false⟩ (firstRound ++ .stopRound :: everybodyReady) = true := by decide +kernel
  obtain ⟨l, hrun, -, hlast⟩ := Lts.of_check (fun _ _ h => h) hcheck
  simp only [Bool.and_eq_true, Bool.not_eq_true', beq_iff_eq] at hlast
  obtain ⟨⟨⟨hlive, hstarts⟩, hstops⟩, heverybody⟩ := hlast
  refine ⟨l, rfl, hrun, hlive, hstarts, hstops, heverybody, fun h => ?_⟩
  have hagain := h.again (by omega) (by omega) heverybody
  omega

end Hall
end Skynet
