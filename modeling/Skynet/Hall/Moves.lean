import Skynet.Hall.Steps

/-!
# Skynet.Hall.Moves

The steps of a table: what they leave as it is, what they are to a coroutine that does not run, and the tasks that
they bring.

* `same_perform`, `sameQueue_perform` : what the tasks do not change.
* `moved_of_step` : the steps of a table.
* `onward_perform` : the status.
* `aside_of_moved` : what a step is to a coroutine that does not run.
* `has_of_moved` : the tasks that a step brings.
-/

namespace Skynet
namespace Hall

variable {R : Type} {r : Room} {g : Game R}

/-! ### What no task changes -/

/-- The room that is on the table. -/
def Battle.room (b : Battle) : Battle := { b with iCurRound := 0 }

/-- The queue, the coroutines, and the room. -/
structure SameQueue (t t' : Table R) : Prop where
  thread_queue : t'.thread_queue = t.thread_queue
  current_thread : t'.current_thread = t.current_thread
  entering : t'.entering = t.entering
  threads : t'.threads = t.threads
  count : t'.count = t.count
  battle : t'.m_battleConfig.room = t.m_battleConfig.room
  creations : t'.creations = t.creations

/-- And what a login or a refund may change. -/
structure Same (t t' : Table R) : Prop extends SameQueue t t' where
  m_battleFeePaid : t'.m_battleFeePaid = t.m_battleFeePaid
  charges : t'.charges = t.charges
  refunds : t'.refunds = t.refunds
  answers : t'.answers = t.answers

theorem SameQueue.refl (t : Table R) : SameQueue t t := ⟨rfl, rfl, rfl, rfl, rfl, rfl, rfl⟩

theorem Same.refl (t : Table R) : Same t t := ⟨.refl t, rfl, rfl, rfl, rfl⟩

theorem same_of_modify {t t' : Table R} {object : Nat} {f : User → User} (h : Same (t.modify object f) t') :
    Same t t' := ⟨⟨h.1.1, h.1.2, h.1.3, h.1.4, h.1.5, h.1.6, h.1.7⟩, h.2, h.3, h.4, h.5⟩

theorem same_startGame (t : Table R) : Same t (onCheckGameTableStartGame r g t).1 := by
  simp only [onCheckGameTableStartGame]
  split
  · exact .refl t
  · split
    · exact ⟨⟨rfl, rfl, rfl, rfl, rfl, rfl, rfl⟩, rfl, rfl, rfl, rfl⟩
    · exact .refl t

theorem same_sweep (t : Table R) (is : List Nat) : Same t (sweep r g t is).1 := by
  induction is generalizing t with
  | nil => exact ⟨⟨rfl, rfl, rfl, rfl, rfl, rfl, rfl⟩, rfl, rfl, rfl, rfl⟩
  | cons i is ih =>
    simp only [sweep]
    split
    · exact .refl t
    · split
      · split
        · exact same_of_modify (ih _)
        · exact same_of_modify (.refl _)
      · exact same_of_modify (ih _)

theorem same_pay (t : Table R) (is : List Nat) : Same t (pay r g t is).1 := by
  induction is generalizing t with
  | nil => exact same_sweep t _
  | cons i is ih =>
    simp only [pay]
    split
    · exact ih t
    · split
      · exact ih t
      · exact .refl t

theorem same_stop (t : Table R) : Same t (onGameStopRound r g t).1 := by
  simp only [onGameStopRound]
  split
  · obtain ⟨⟨hq, hc, he, ht, hn, hb, hcs⟩, hpaid, hch, href, hans⟩ := same_pay (r := r) (g := g)
      { t with phase := .stopped, stops := t.stops + 1, m_tableStatus := .gameStop } r.seats
    exact ⟨⟨hq, hc, he, ht, hn, hb, hcs⟩, hpaid, hch, href, hans⟩
  · split <;> exact ⟨⟨rfl, rfl, rfl, rfl, rfl, rfl, rfl⟩, rfl, rfl, rfl, rfl⟩

theorem same_ready (t : Table R) (userId : Int) : Same t (onClientCmdReady r g t userId).1 := by
  simp only [onClientCmdReady]
  split
  · exact .refl t
  · exact same_of_modify (same_startGame _)

theorem same_disconnected (t : Table R) (object : Nat) (userId : Int) :
    Same t (disconnected r t object userId).1 := by
  simp only [disconnected]
  split <;> exact same_of_modify (.refl _)

theorem same_command (t : Table R) (userId : Int) (cmd : Cmd) : Same t (command r g t userId cmd).1 := by
  cases cmd with
  | ready => exact same_ready t userId
  | logout iLeave => exact .refl t

theorem kept_command (t : Table R) (userId : Int) (cmd : Cmd) : Kept t (command r g t userId cmd).1 := by
  cases cmd with
  | ready => exact kept_ready t userId
  | logout iLeave => exact .refl t

theorem exits_command (t : Table R) (userId : Int) (cmd : Cmd) :
    ∀ x ∈ (command r g t userId cmd).2, x.exits = true := by
  cases cmd with
  | ready => exact fun x hx => exits_of_settling (settling_ready x hx)
  | logout iLeave => exact exits_logout

theorem same_entry {t t' : Table R} {id : Nat} {x : Task} {new : List Task} (h : Entry r t id x t' new) :
    SameQueue t t' := by
  cases h with
  | next | toCharge => exact .refl t
  | failed | absent | unsent | reconnected | charge => exact ⟨rfl, rfl, rfl, rfl, rfl, rfl, rfl⟩
  | full h | entered h =>
    rcases h with ⟨-, -, -, -, -, -, rfl⟩ | ⟨-, rfl⟩ <;> exact ⟨rfl, rfl, rfl, rfl, rfl, rfl, rfl⟩

/-- A task that neither is one of a login nor refunds. -/
theorem same_perform {t t' : Table R} {id : Nat} {ans : Answer} {rest work : List Task} {x : Task}
    {msg : Option Msg} (hx : x.login = none) (hrefund : ∀ pDiamond, x ≠ .refund pDiamond)
    (h : perform r g t id ans rest x = (t', work, msg)) : Same t t' := by
  cases x with
  | checkDiamond | checkMTkey | checkDisconnect | checkUserInfo | charge | charged => cases hx
  | refund pDiamond => exact absurd rfl (hrefund pDiamond)
  | reported object =>
    simp only [perform] at h
    split at h <;> cases h <;> exact .refl t
  | enter object userId socketfd =>
    simp only [perform] at h
    split at h <;> cases h
    · exact same_startGame t
    · exact .refl t
  | disconnected object userId => cases h; exact same_disconnected t object userId
  | pay is => cases h; exact same_pay t is
  | sweep is => cases h; exact same_sweep t is
  | report => cases h; exact same_of_modify (.refl _)
  | reset | removed => cases h; exact ⟨⟨rfl, rfl, rfl, rfl, rfl, rfl, rfl⟩, rfl, rfl, rfl, rfl⟩
  | rebind | answered | kick | leave | left | created | done => cases h; exact .refl t

theorem sameQueue_perform {t t' : Table R} {id : Nat} {ans : Answer} {rest work : List Task} {x : Task}
    {msg : Option Msg} (h : perform r g t id ans rest x = (t', work, msg)) : SameQueue t t' := by
  by_cases hx : x.login = none
  · by_cases hrefund : ∃ pDiamond, x = .refund pDiamond
    · obtain ⟨pDiamond, rfl⟩ := hrefund
      cases h
      exact ⟨rfl, rfl, rfl, rfl, rfl, rfl, rfl⟩
    · exact (same_perform hx (fun pDiamond he => hrefund ⟨pDiamond, he⟩) h).toSameQueue
  · obtain ⟨-, new, -, hentry⟩ := entry_of_perform hx h
    exact same_entry hentry

/-! ### The steps -/

inductive Moved (r : Room) (g : Game R) (t : Table R) : Event R → Table R → Option Msg → Prop
  | create {data : Battle} : t.entering = none →
      Moved r g t (.create data)
        ({ onSetBattleRoomConfig t data with entering := some t.count }.spawn [.created, .done]) none
  | login {d : Login} : t.entering = none →
      Moved r g t (.login d) ({ t with entering := some t.count }.spawn [.checkDiamond d]) none
  | unknown {userId socketfd : Int} {cmd : Cmd} : t.find r userId = none →
      Moved r g t (.receive userId socketfd cmd) t none
  | receive {userId socketfd : Int} {cmd : Cmd} {u : User} : t.find r userId = some u →
      Moved r g t (.receive userId socketfd cmd)
        { t with thread_queue := t.thread_queue ++ [(userId, socketfd, cmd)] } none
  | serve {userId socketfd : Int} {cmd : Cmd} {rest : List (Int × Int × Cmd)} {t₁ : Table R} {work : List Task} :
      t.current_thread = none → t.thread_queue = (userId, socketfd, cmd) :: rest →
      command r g (t.take socketfd rest) userId cmd = (t₁, work) →
      Moved r g t .serve (t₁.spawn work) none
  | gone {userId socketfd : Int} : t.find r userId = none → Moved r g t (.disconnect userId socketfd) t none
  | disconnect {userId socketfd : Int} {u : User} : t.find r userId = some u →
      Moved r g t (.disconnect userId socketfd) (t.spawn [.disconnected u.object u.m_userId]) none
  | play {round : R} : t.phase = .running → Moved r g t (.play round) { t with m_gameRound := round } none
  | stopRound {t₁ : Table R} {work : List Task} : t.phase = .running → onGameStopRound r g t = (t₁, work) →
      Moved r g t .stopRound (t₁.spawn work) none
  | resume {id : Nat} {ans : Answer} {x : Task} {rest work : List Task} {t₁ : Table R} {msg : Option Msg} :
      t.threads id = x :: rest → perform r g t id ans rest x = (t₁, work, msg) →
      Moved r g t (.resume id ans) (t₁.put id work) msg

theorem moved_of_step {t t' : Table R} {e : Event R} {msg : Option Msg} (h : step r g t e = some (t', msg)) :
    Moved r g t e t' msg := by
  cases e with
  | create data =>
    simp only [step] at h
    split at h
    · rename_i he
      cases h
      exact .create he
    · cases h
  | login d =>
    simp only [step] at h
    split at h
    · rename_i he
      cases h
      exact .login he
    · cases h
  | receive userId socketfd cmd =>
    simp only [step] at h
    cases hu : t.find r userId with
    | none =>
      rw [hu] at h
      cases h
      exact .unknown hu
    | some u =>
      rw [hu] at h
      cases h
      exact .receive hu
  | serve =>
    simp only [step] at h
    split at h
    · rename_i hc hq
      cases h
      exact .serve hc hq rfl
    · cases h
  | disconnect userId socketfd =>
    simp only [step] at h
    cases hu : t.find r userId with
    | none =>
      rw [hu] at h
      cases h
      exact .gone hu
    | some u =>
      rw [hu] at h
      cases h
      exact .disconnect hu
  | play round =>
    simp only [step] at h
    split at h
    · rename_i hp
      cases h
      exact .play hp
    · cases h
  | stopRound =>
    simp only [step] at h
    split at h
    · rename_i hp
      cases h
      exact .stopRound hp rfl
    · cases h
  | resume id ans =>
    simp only [step] at h
    split at h
    · cases h
    · rename_i x rest hx
      cases h
      exact .resume hx rfl

theorem moved_of_tableStep {t t' : Table R} {e : Event R} (h : tableStep r g t e = some t') :
    ∃ msg, Moved r g t e t' msg := by
  obtain ⟨⟨t₁, msg⟩, hstep, rfl⟩ := Option.map_eq_some_iff.mp h
  exact ⟨msg, moved_of_step hstep⟩

/-! ### The status -/

/-- Only the creation of a room sets another status. -/
def Onward (t t' : Table R) : Prop :=
  t'.m_tableStatus = t.m_tableStatus ∨ t'.m_tableStatus = .gamePlaying ∨ t'.m_tableStatus = .gameStop

theorem onward_startGame (t : Table R) : Onward t (onCheckGameTableStartGame r g t).1 := by
  simp only [onCheckGameTableStartGame]
  split
  · exact .inl rfl
  · split
    · exact .inr (.inl rfl)
    · exact .inl rfl

theorem onward_ready (t : Table R) (userId : Int) : Onward t (onClientCmdReady r g t userId).1 := by
  simp only [onClientCmdReady]
  split
  · exact .inl rfl
  · exact onward_startGame (Table.modify t _ _)

theorem status_sweep (t : Table R) (is : List Nat) : (sweep r g t is).1.m_tableStatus = t.m_tableStatus := by
  induction is generalizing t with
  | nil => rfl
  | cons i is ih =>
    simp only [sweep]
    split
    · rfl
    · split
      · split
        · exact ih (Table.modify t _ _)
        · rfl
      · exact ih (Table.modify t _ _)

theorem status_pay (t : Table R) (is : List Nat) : (pay r g t is).1.m_tableStatus = t.m_tableStatus := by
  induction is generalizing t with
  | nil => exact status_sweep t _
  | cons i is ih =>
    simp only [pay]
    split
    · exact ih t
    · split
      · exact ih t
      · rfl

theorem onward_stop (t : Table R) : Onward t (onGameStopRound r g t).1 := by
  simp only [onGameStopRound]
  split
  · exact .inr (.inr (status_pay _ _))
  · split
    · exact .inr (.inr rfl)
    · exact .inr (.inl rfl)

theorem onward_command (t : Table R) (userId : Int) (cmd : Cmd) : Onward t (command r g t userId cmd).1 := by
  cases cmd with
  | ready => exact onward_ready t userId
  | logout iLeave => exact .inl rfl

theorem status_entry {t t' : Table R} {id : Nat} {x : Task} {new : List Task} (h : Entry r t id x t' new) :
    t'.m_tableStatus = t.m_tableStatus := by
  cases h with
  | next | toCharge | failed | absent | unsent | reconnected | charge => rfl
  | full h | entered h => rcases h with ⟨-, -, -, -, -, -, rfl⟩ | ⟨-, rfl⟩ <;> rfl

theorem onward_perform {t t' : Table R} {id : Nat} {ans : Answer} {rest work : List Task} {x : Task}
    {msg : Option Msg} (h : perform r g t id ans rest x = (t', work, msg)) : Onward t t' := by
  by_cases hx : x.login = none
  · cases x with
    | checkDiamond | checkMTkey | checkDisconnect | checkUserInfo | charge | charged => cases hx
    | reported object =>
      simp only [perform] at h
      split at h <;> cases h <;> exact .inl rfl
    | enter object userId socketfd =>
      simp only [perform] at h
      split at h <;> cases h
      · exact onward_startGame t
      · exact .inl rfl
    | disconnected object userId =>
      simp only [perform, disconnected] at h
      split at h <;> cases h <;> exact .inl rfl
    | pay is => cases h; exact .inl (status_pay t is)
    | sweep is => cases h; exact .inl (status_sweep t is)
    | reset => cases h; exact .inr (.inr rfl)
    | report | refund | removed | rebind | answered | kick | leave | left | created | done => cases h; exact .inl rfl
  · obtain ⟨-, new, -, hentry⟩ := entry_of_perform hx h
    exact .inl (status_entry hentry)

/-! ### The other coroutines -/

theorem put_self (t : Table R) (id : Nat) (work : List Task) : (t.put id work).threads id = work :=
  Function.update_self ..

theorem put_of_ne (t : Table R) {id id' : Nat} (work : List Task) (h : id' ≠ id) :
    (t.put id work).threads id' = t.threads id' := Function.update_of_ne h ..

theorem put_entering_of_ne {t : Table R} {id id' : Nat} (work : List Task) (h : id' ≠ id)
    (he : t.entering = some id') : (t.put id work).entering = some id' := by
  simp only [Table.put, he, Option.some.injEq, h, and_false, if_false]

theorem put_entering_self {t : Table R} {id : Nat} {work : List Task} (hwork : work ≠ [])
    (he : t.entering = some id) : (t.put id work).entering = some id := by
  simp only [Table.put, hwork, he, false_and, if_false]

theorem owner_congr {t t' : Table R} (h : t'.m_battleConfig.room = t.m_battleConfig.room) (userId : Int) :
    isBattleOwner r t' userId = isBattleOwner r t userId := by
  have howner : t'.m_battleConfig.room.iUserId = t.m_battleConfig.room.iUserId := congrArg Battle.iUserId h
  simp only [Battle.room] at howner
  rw [isBattleOwner, isBattleOwner, howner]

theorem answers_entry {t t' : Table R} {id id' : Nat} {x : Task} {new : List Task} (h : Entry r t id x t' new)
    (hne : id' ≠ id) : t'.answers id' = t.answers id' := by
  cases h with
  | next | toCharge | charge => rfl
  | failed | absent | unsent | reconnected => exact Function.update_of_ne hne ..
  | full h | entered h =>
    rcases h with ⟨-, -, -, -, -, -, rfl⟩ | ⟨-, rfl⟩ <;> exact Function.update_of_ne hne ..

theorem answers_perform {t t' : Table R} {id id' : Nat} {ans : Answer} {rest work : List Task} {x : Task}
    {msg : Option Msg} (h : perform r g t id ans rest x = (t', work, msg)) (hne : id' ≠ id ∨ x.login = none) :
    t'.answers id' = t.answers id' := by
  by_cases hx : x.login = none
  · by_cases hrefund : ∃ pDiamond, x = .refund pDiamond
    · obtain ⟨pDiamond, rfl⟩ := hrefund
      cases h
      rfl
    · exact congrFun (same_perform hx (fun pDiamond he => hrefund ⟨pDiamond, he⟩) h).answers id'
  · obtain ⟨-, new, -, hentry⟩ := entry_of_perform hx h
    exact answers_entry hentry (hne.resolve_right hx)

/-- What a step is to a coroutine that does not run. -/
structure Aside (id : Nat) (t t' : Table R) : Prop where
  threads : t'.threads id = t.threads id
  answers : t'.answers id = t.answers id
  count : t.count ≤ t'.count
  /-- While its login is under way there is no other, and the room stays. -/
  entering : t.entering = some id → t'.entering = some id ∧ t'.m_battleConfig.room = t.m_battleConfig.room

theorem aside_refl (id : Nat) (t : Table R) : Aside id t t := ⟨rfl, rfl, le_rfl, fun he => ⟨he, rfl⟩⟩

theorem aside_spawn {t t₁ : Table R} {id : Nat} (work : List Task) (hid : id < t.count) (h : Same t t₁) :
    Aside id t (t₁.spawn work) := by
  have hne : id ≠ t₁.count := by rw [h.count]; exact Nat.ne_of_lt hid
  refine ⟨?_, congrFun h.answers id, ?_, ?_⟩
  · exact (put_of_ne _ work hne).trans (congrFun h.threads id)
  · exact h.count.ge.trans (Nat.le_succ _)
  · exact fun he => ⟨put_entering_of_ne work hne (h.entering.trans he), h.battle⟩

theorem aside_of_moved {t t' : Table R} {e : Event R} {msg : Option Msg} {id : Nat} (h : Moved r g t e t' msg)
    (hid : id < t.count) (he : ∀ ans, e ≠ .resume id ans) : Aside id t t' := by
  cases h with
  | unknown | gone => exact aside_refl id t
  | receive | play => exact ⟨rfl, rfl, le_rfl, fun he => ⟨he, rfl⟩⟩
  | create hnone | login hnone =>
    refine ⟨put_of_ne _ _ (Nat.ne_of_lt hid), rfl, Nat.le_succ _, ?_⟩
    intro he
    rw [hnone] at he
    cases he
  | disconnect => exact aside_spawn _ hid (.refl t)
  | @serve userId socketfd cmd rest t₁ work _ _ hc =>
    have hsame := same_command (r := r) (g := g) (t.take socketfd rest) userId cmd
    rw [hc] at hsame
    obtain ⟨hthreads, hanswers, hcount, hentering⟩ := aside_spawn (t := t.take socketfd rest) work hid hsame
    exact ⟨hthreads, hanswers, hcount, hentering⟩
  | @stopRound t₁ work _ hs =>
    have hsame := same_stop (r := r) (g := g) t
    rw [hs] at hsame
    exact aside_spawn work hid hsame
  | @resume id' ans x rest work t₁ msg hx hp =>
    have hne : id ≠ id' := by
      rintro rfl
      exact he ans rfl
    have hsame := sameQueue_perform hp
    have hanswers : t₁.answers id = t.answers id := answers_perform hp (.inl hne)
    refine ⟨?_, hanswers, hsame.count.ge, ?_⟩
    · exact (put_of_ne _ work hne).trans (congrFun hsame.threads id)
    · exact fun he => ⟨put_entering_of_ne work hne (hsame.entering.trans he), hsame.battle⟩

/-- The coroutines that have not begun. -/
def Unborn (t : Table R) : Prop := ∀ id, t.count ≤ id → t.threads id = []

theorem unborn_put {t : Table R} {id : Nat} {work : List Task} (h : Unborn t) (hid : id < t.count) :
    Unborn (t.put id work) := by
  intro id' hid'
  rw [put_of_ne _ _ (Nat.ne_of_gt (hid.trans_le hid'))]
  exact h id' hid'

theorem unborn_spawn {t t₁ : Table R} {work : List Task} (h : Unborn t) (hthreads : t₁.threads = t.threads)
    (hcount : t₁.count = t.count) : Unborn (t₁.spawn work) := by
  have hnext : Unborn ({ t₁ with count := t₁.count + 1 } : Table R) := by
    intro id hid
    rw [show t₁.threads id = t.threads id from congrFun hthreads id]
    exact h id (hcount ▸ Nat.le_of_succ_le hid)
  exact unborn_put hnext (Nat.lt_succ_self _)

theorem unborn_of_moved {t t' : Table R} {e : Event R} {msg : Option Msg} (h : Unborn t)
    (hm : Moved r g t e t' msg) : Unborn t' := by
  cases hm with
  | unknown | gone | receive | play => exact h
  | create | login => exact unborn_spawn h rfl rfl
  | disconnect => exact unborn_spawn h rfl rfl
  | @serve userId socketfd cmd rest t₁ work _ _ hc =>
    have hsame := same_command (r := r) (g := g) (t.take socketfd rest) userId cmd
    rw [hc] at hsame
    exact unborn_spawn h hsame.threads hsame.count
  | @stopRound t₁ work _ hs =>
    have hsame := same_stop (r := r) (g := g) t
    rw [hs] at hsame
    exact unborn_spawn h hsame.threads hsame.count
  | @resume id ans x rest work t₁ msg hx hp =>
    have hsame := sameQueue_perform hp
    have hid : id < t.count := by
      by_contra hid
      rw [h id (Nat.le_of_not_lt hid)] at hx
      cases hx
    refine unborn_put ?_ (hid.trans_le hsame.count.ge)
    intro id' hid'
    rw [hsame.threads]
    exact h id' (hsame.count ▸ hid')

/-! ### The tasks of the table -/

/-- A coroutine has the task before it. -/
def Has (t : Table R) (x : Task) : Prop := ∃ id, x ∈ t.threads id

theorem has_put {t : Table R} {id : Nat} {work : List Task} {y : Task} (h : Has (t.put id work) y) :
    y ∈ work ∨ Has t y := by
  obtain ⟨id', hy⟩ := h
  by_cases hid : id' = id
  · rw [hid, put_self] at hy
    exact .inl hy
  · rw [put_of_ne _ _ hid] at hy
    exact .inr ⟨id', hy⟩

theorem has_head {t : Table R} {id : Nat} {x : Task} {rest : List Task} (hx : t.threads id = x :: rest) : Has t x :=
  ⟨id, by rw [hx]; exact List.mem_cons_self ..⟩

theorem has_spawn {t t₁ : Table R} {work : List Task} {y : Task} (hthreads : t₁.threads = t.threads)
    (h : Has (t₁.spawn work) y) : y ∈ work ∨ Has t y := by
  rcases has_put h with hy | ⟨id, hy⟩
  · exact .inl hy
  · exact .inr ⟨id, hthreads ▸ hy⟩

/-- A task that a step brings. -/
inductive Begun (r : Room) (t : Table R) : Event R → Task → Prop
  | create {data : Battle} : Begun r t (.create data) .created
  | login {d : Login} : Begun r t (.login d) (.checkDiamond d)
  | entry {id : Nat} {ans : Answer} {x y : Task} {rest new : List Task} {t₁ : Table R} : t.threads id = x :: rest →
      x.login ≠ none → Entry r t id x t₁ new → y ∈ new → Begun r t (.resume id ans) y
  | disconnect {userId socketfd : Int} {u : User} : t.find r userId = some u →
      Begun r t (.disconnect userId socketfd) (.disconnected u.object u.m_userId)
  | done {e : Event R} : Begun r t e .done
  | left {e : Event R} : Begun r t e .left
  | dismissing {e : Event R} {y : Task} : r.isBattleRoom = true ∨ (∃ x, Has t x ∧ x.dismissing = true) →
      y.dismissing = true → Begun r t e y
  | settling {e : Event R} {y : Task} :
      e = .stopRound ∧ r.isBattleRoom = false ∨ (∃ x, Has t x ∧ x.settlement = true) → y.settling = true →
      (¬Unconnected t → ∃ is, y = .pay is) → Begun r t e y
  | leave {e : Event R} {i : Nat} {u : User} {asked : Bool} : t.m_tableUserMap i = some u →
      r.isBattleRoom = true ∨ (∃ x, Has t x ∧ (x.dismissing = true ∨ x.offline = true)) ∨ asked = true →
      Begun r t e (.leave u.object u.m_userId asked)
  | removed {id : Nat} {ans : Answer} {object : Nat} {userId : Int} {asked : Bool} {rest : List Task} :
      t.threads id = .leave object userId asked :: rest → Begun r t (.resume id ans) (.removed object asked)

theorem begun_of_brings {t : Table R} {id : Nat} {ans : Answer} {x y : Task} {rest : List Task}
    (hx : t.threads id = x :: rest) (h : Brings r t x y) : Begun r t (.resume id ans) y := by
  cases h with
  | done => exact .done
  | left => exact .left
  | dismissing hbattle hy => exact .dismissing (hbattle.imp_right fun hdis => ⟨x, has_head hx, hdis⟩) hy
  | settling hsettlement hy hplain => exact .settling (.inr ⟨x, has_head hx, hsettlement⟩) hy hplain
  | leave hu hbattle =>
    refine .leave hu (hbattle.imp_right fun hkind => .inl ⟨x, has_head hx, hkind⟩)
  | removed => exact .removed hx

theorem begun_command {t : Table R} {userId socketfd : Int} {rest : List (Int × Int × Cmd)} {cmd : Cmd} {e : Event R}
    {y : Task} (hy : y ∈ (command r g (t.take socketfd rest) userId cmd).2) : Begun r t e y := by
  cases cmd with
  | ready =>
    rw [done_ready y hy]
    exact .done
  | logout iLeave =>
    rcases mem_logout hy with rfl | rfl | ⟨u, hu, rfl⟩ | ⟨-, hy⟩
    · exact .done
    · exact .left
    · obtain ⟨i, -, hi, -⟩ := find_some hu
      exact .leave hi (.inr (.inr rfl))
    · have hbrings : Brings r (t.take socketfd rest) .done y := brings_dismiss hy
      cases hbrings with
      | done => exact .done
      | left => exact .left
      | dismissing hbattle hy => exact .dismissing (.inl (hbattle.resolve_right nofun)) hy
      | settling hsettlement => cases hsettlement
      | leave hu hbattle => exact .leave hu (.inl (hbattle.resolve_right nofun))

theorem begun_stop {t : Table R} {y : Task} (hy : y ∈ (onGameStopRound r g t).2) : Begun r t .stopRound y := by
  simp only [onGameStopRound] at hy
  split at hy
  · rename_i hcoin
    refine .settling (.inl ⟨rfl, by simpa using hcoin⟩) (settling_pay y hy) fun hplain => ?_
    exact pay_plain (t := { t with phase := .stopped, stops := t.stops + 1, m_tableStatus := .gameStop }) hplain y hy
  · split at hy <;> cases hy

theorem has_of_moved {t t' : Table R} {e : Event R} {msg : Option Msg} (h : Moved r g t e t' msg) {y : Task}
    (hy : Has t' y) : Has t y ∨ Begun r t e y := by
  cases h with
  | unknown | gone => exact .inl hy
  | receive | play => exact .inl hy
  | create =>
    rcases has_spawn (t := t) rfl hy with hy | hy
    · simp only [List.mem_cons, List.not_mem_nil, or_false] at hy
      rcases hy with rfl | rfl
      · exact .inr .create
      · exact .inr .done
    · exact .inl hy
  | login =>
    rcases has_spawn (t := t) rfl hy with hy | hy
    · rw [List.mem_singleton.mp hy]
      exact .inr .login
    · exact .inl hy
  | disconnect hu =>
    rcases has_spawn (t := t) rfl hy with hy | hy
    · rw [List.mem_singleton.mp hy]
      exact .inr (.disconnect hu)
    · exact .inl hy
  | @serve userId socketfd cmd rest t₁ work _ _ hc =>
    have hsame := same_command (r := r) (g := g) (t.take socketfd rest) userId cmd
    rw [hc] at hsame
    rcases has_spawn (t := t) hsame.threads hy with hy | hy
    · exact .inr (begun_command (by rw [hc]; exact hy))
    · exact .inl hy
  | @stopRound t₁ work _ hs =>
    have hsame := same_stop (r := r) (g := g) t
    rw [hs] at hsame
    rcases has_spawn (t := t) hsame.threads hy with hy | hy
    · exact .inr (begun_stop (by rw [hs]; exact hy))
    · exact .inl hy
  | @resume id ans x rest work t₁ msg hx hp =>
    have hthreads := (sameQueue_perform hp).threads
    rcases has_put hy with hy | ⟨id', hy⟩
    · by_cases hlogin : x.login = none
      · rcases brings_of_perform hlogin hp hy with hy | hy
        · exact .inl ⟨id, by rw [hx]; exact List.mem_cons_of_mem _ hy⟩
        · exact .inr (begun_of_brings hx hy)
      · obtain ⟨-, new, rfl, hentry⟩ := entry_of_perform hlogin hp
        rcases List.mem_append.mp hy with hy | hy
        · exact .inr (.entry hx hlogin hentry hy)
        · exact .inl ⟨id, by rw [hx]; exact List.mem_cons_of_mem _ hy⟩
    · exact .inl ⟨id', hthreads ▸ hy⟩

end Hall
end Skynet
