import Skynet.Mahjong.Errors
import Skynet.Mahjong.GameTable
import Skynet.Mahjong.RoundEnd

/-!
# Skynet.Mahjong.Settling

The settlement of a round, with everything that can run while its coroutine waits.

`GameTable:onGameStopRound` stops the table first, and clears the ready flags and the round only after the calls for
each user. A round timer runs it outside of the queue `cs`, and a socket that closes is never in that queue.

* `Undisturbed` : no round is started and no user leaves while a settlement still needs them.
* `Sound` : the invariant. The table waits, a round is played, or one coroutine settles the last round.
* `settlement_atomic` : in an undisturbed run every settlement is complete.
* `disconnect_unreported` : a socket that closes during the settlement.
-/

namespace Skynet
namespace Mahjong

variable {room : Room} {t t' : Table} {r : Round} {prev : List Round} {us us' : Users} {i : Seat} {u v : User}
  {id n : Nat} {work : List Task} {start : Start}

/-! ### What a settlement needs -/

/-- The round that a task settles. -/
def Task.number : Task → Option Nat
  | .report number _ _ => some number
  | .pay number _ => some number
  | .clear number _ => some number
  | _ => none

/-- The seats that a task still has to visit. Whoever is to be paid is cleared afterwards. -/
def Task.visits : Task → List Seat
  | .report .. => seats
  | .pay .. => seats
  | .clear _ rest => rest
  | _ => []

/-- A coroutine settles the round `n`. -/
def Table.settling (t : Table) (n : Nat) : Prop := ∃ id, ∃ task ∈ t.threads id, task.number = some n

/-- A Ready, or the end of a login, for which everybody is ready. -/
def Table.startsRound (t : Table) : Event → Prop
  | .serve _ _ => ∃ userId rest, t.thread_queue = (userId, .ready) :: rest ∧
      (t.users.setReady userId).readyCount = seats.length
  | .resume id _ => (∃ object rest, t.threads id = .loggedIn object :: rest) ∧ t.users.readyCount = seats.length
  | _ => False

/-- The user that is removed from the table. -/
def Table.leaving (t : Table) : Event → Option Nat
  | .resume id _ =>
    match t.threads id with
    | .leave object :: _ => some object
    | _ => none
  | _ => none

/-- No round is started while another one is settled. No user leaves during a round, nor while a settlement has still
to visit its seat. -/
structure Undisturbed (t : Table) (e : Event) : Prop where
  start : t.startsRound e → ∀ n, ¬ t.settling n
  leave : ∀ object, t.leaving e = some object → t.m_tableStatus = .gameStop ∧
    ∀ i u, t.users.user i = some u → u.object = object → ∀ id, ∀ task ∈ t.threads id, i ∉ task.visits

/-- What the money server is to be told of the players at `is`. -/
def Round.owedFrom (r : Round) (is : List Seat) : List (Int × Int) :=
  (is.filter fun i => !r.config.isRobot i).map fun i => (r.config.userId i, r.state.turnMoney i)

def Round.owed (r : Round) : List (Int × Int) := r.owedFrom seats

/-- What it has been told of the round `n`. -/
def Table.reported (t : Table) (n : Nat) : List (Int × Int) := (t.reports.filter fun x => x.1 == n).map Prod.snd

/-! ### The users -/

/-- The user at a seat stays, with all that the settlement reads of it. -/
def Keeps (us us' : Users) (i : Seat) : Prop :=
  ∀ u, us.user i = some u → ∃ v, us'.user i = some v ∧ v.m_userId = u.m_userId ∧ v.isRobot = u.isRobot ∧
    v.m_pTurnMoney = u.m_pTurnMoney

/-- The player of the round is at the seat. -/
def Users.Plays (us : Users) (c : Config) (i : Seat) : Prop :=
  ∃ u, us.user i = some u ∧ u.m_userId = c.userId i ∧ u.isRobot = c.isRobot i

/-- And has the result of the round. -/
def Users.Owes (us : Users) (r : Round) (i : Seat) : Prop :=
  ∃ u, us.user i = some u ∧ u.m_userId = r.config.userId i ∧ u.isRobot = r.config.isRobot i ∧
    u.m_pTurnMoney = r.state.turnMoney i

theorem keeps_map (f : Seat → User → User) (hf : ∀ i u, (f i u).m_userId = u.m_userId)
    (hr : ∀ i u, (f i u).isRobot = u.isRobot ∧ (f i u).m_pTurnMoney = u.m_pTurnMoney) : Keeps us (us.map f hf) i := by
  intro u hu
  exact ⟨f i u, by rw [Users.map_user, hu, Option.map_some], hf i u, hr i u⟩

theorem keeps_setReady (userId : Int) : Keeps us (us.setReady userId) i := by
  refine keeps_map _ _ fun _ _ => ?_
  split
  · exact ⟨rfl, rfl⟩
  · exact ⟨rfl, rfl⟩

theorem keeps_setSocketfd (userId socketfd : Int) : Keeps us (us.setSocketfd userId socketfd) i := by
  refine keeps_map _ _ fun _ _ => ?_
  split
  · exact ⟨rfl, rfl⟩
  · exact ⟨rfl, rfl⟩

theorem keeps_add {seat : Seat} (h : us.find u.m_userId = none) (hseat : us.user seat = none) :
    Keeps us (us.add seat u h) i := by
  intro v hv
  have hne : i ≠ seat := by
    rintro rfl
    rw [hseat] at hv
    cases hv
  exact ⟨v, by rw [Users.add_user, Function.update_of_ne hne, hv], rfl, rfl, rfl⟩

theorem keeps_remove {object : Nat} (h : ∀ u, us.user i = some u → u.object ≠ object) : Keeps us (us.remove object) i := by
  intro u hu
  exact ⟨u, by rw [Users.remove_user, hu, Option.filter_some, if_pos (bne_iff_ne.mpr (h u hu))], rfl, rfl, rfl⟩

theorem Users.Plays.keep {c : Config} (h : us.Plays c i) (hk : Keeps us us' i) : us'.Plays c i := by
  obtain ⟨u, hu, hid, hrobot⟩ := h
  obtain ⟨v, hv, hvid, hvrobot, -⟩ := hk u hu
  exact ⟨v, hv, hvid.trans hid, hvrobot.trans hrobot⟩

theorem Users.Owes.keep (h : us.Owes r i) (hk : Keeps us us' i) : us'.Owes r i := by
  obtain ⟨u, hu, hid, hrobot, hmoney⟩ := h
  obtain ⟨v, hv, hvid, hvrobot, hvmoney⟩ := hk u hu
  exact ⟨v, hv, hvid.trans hid, hvrobot.trans hrobot, hvmoney.trans hmoney⟩

theorem user_of_autoSeat {seat : Seat} (h : us.autoSeat = some seat) : us.user seat = none := by
  have hnone := List.find?_some h
  exact Option.isNone_iff_eq_none.mp hnone

/-! ### The invariant -/

/-- The tasks of a coroutine that settle a round. -/
def settlement (work : List Task) : List Task := work.filter fun task => task.number.isSome

/-- The settlement of the round is complete. -/
def PaidOff (t : Table) (r : Round) : Prop := t.reported r.number = r.owed ∧ (r.number, r.number) ∈ t.resets

/-- How far a settlement has come. -/
inductive Progress (t : Table) (r : Round) : List Task → Prop
  | report {userId iTurnMoney : Int} {rest : List Seat}
      (hpaid : t.reported r.number ++ (userId, iTurnMoney) :: r.owedFrom rest = r.owed)
      (hrest : ∀ i ∈ rest, i ∈ seats) (howes : ∀ i ∈ seats, t.users.Owes r i) :
      Progress t r [.report r.number userId iTurnMoney, .pay r.number rest]
  | pay {rest : List Seat} (hpaid : t.reported r.number ++ r.owedFrom rest = r.owed)
      (hrest : ∀ i ∈ rest, i ∈ seats) (howes : ∀ i ∈ seats, t.users.Owes r i) : Progress t r [.pay r.number rest]
  | clear {rest : List Seat} (hpaid : t.reported r.number = r.owed)
      (hrest : ∀ i ∈ rest, (t.users.user i).isSome) : Progress t r [.clear r.number rest]

/-- The coroutine `id` settles the round `r`, and all earlier rounds are settled. -/
structure Ending (t : Table) (r : Round) (prev : List Round) (id : Nat) : Prop where
  status : t.m_tableStatus = .gameStop
  round : t.round = some r
  number : r.number = t.rounds
  finished : r.state.finished = true
  ended : t.ended = prev ++ [r]
  quiet : ∀ j ≠ id, settlement (t.threads j) = []
  done : ∀ r' ∈ prev, PaidOff t r' ∧ r'.number < t.rounds

inductive Phase (t : Table) : Prop
  | idle (hstatus : t.m_tableStatus = .gameStop) (hround : ∀ r, t.round = some r → r.state.finished = true)
      (hquiet : ∀ id, settlement (t.threads id) = []) (hdone : ∀ r ∈ t.ended, PaidOff t r)
  | playing {r : Round} (hstatus : t.m_tableStatus = .gamePlaying) (hround : t.round = some r)
      (hnumber : r.number = t.rounds) (hgoing : r.state.finished = false)
      (hplays : ∀ i ∈ seats, t.users.Plays r.config i) (hquiet : ∀ id, settlement (t.threads id) = [])
      (hdone : ∀ r ∈ t.ended, PaidOff t r ∧ r.number < t.rounds)
  | settling {r : Round} {prev : List Round} {id : Nat} (hending : Ending t r prev id)
      (hprogress : Progress t r (settlement (t.threads id)))

/-- The histories. -/
structure Recorded (t : Table) : Prop where
  numbers : ∀ r ∈ t.ended, r.number ≤ t.rounds
  sorted : t.ended.Pairwise fun r r' => r.number < r'.number
  reports : ∀ x ∈ t.reports, ∃ r ∈ t.ended, r.number = x.1
  kept : ∀ x ∈ t.resets, x.1 = x.2
  stopped : ∀ r ∈ t.ended, ∃ s result, Mahjong.onGameStopRound r.config s result = .returned r.state

structure Sound (t : Table) : Prop extends Recorded t where
  phase : Phase t

/-- What a step that is not part of a settlement leaves as it is. -/
structure Frame (t t' : Table) : Prop where
  status : t'.m_tableStatus = t.m_tableStatus
  round : t'.round = t.round
  rounds : t'.rounds = t.rounds
  reports : t'.reports = t.reports
  ended : t'.ended = t.ended
  resets : t'.resets = t.resets
  work : ∀ id, settlement (t'.threads id) = settlement (t.threads id)
  plays : t.m_tableStatus = .gamePlaying → ∀ i ∈ seats, Keeps t.users t'.users i
  visits : ∀ id, ∀ task ∈ t.threads id, ∀ i ∈ task.visits, Keeps t.users t'.users i

theorem Frame.reported (hf : Frame t t') (n : Nat) : t'.reported n = t.reported n := by
  rw [Table.reported, Table.reported, hf.reports]

theorem Frame.closed (hf : Frame t t') (h : PaidOff t r) : PaidOff t' r := by
  rw [PaidOff, hf.reported, hf.resets]
  exact h

theorem mem_of_settlement {task : Task} {work : List Task} (h : settlement (t.threads id) = work)
    (hmem : task ∈ work) : task ∈ t.threads id :=
  List.mem_of_mem_filter (h ▸ hmem)

theorem Frame.progress (hf : Frame t t') (h : Progress t r (settlement (t.threads id))) :
    Progress t' r (settlement (t'.threads id)) := by
  rw [hf.work]
  generalize hwork : settlement (t.threads id) = work at h
  cases h with
  | report hpaid hrest howes =>
    have hmem := mem_of_settlement hwork (List.mem_cons_self ..)
    exact .report (by rw [hf.reported]; exact hpaid) hrest fun i hi => (howes i hi).keep (hf.visits _ _ hmem i hi)
  | pay hpaid hrest howes =>
    have hmem := mem_of_settlement hwork (List.mem_cons_self ..)
    exact .pay (by rw [hf.reported]; exact hpaid) hrest fun i hi => (howes i hi).keep (hf.visits _ _ hmem i hi)
  | clear hpaid hrest =>
    have hmem := mem_of_settlement hwork (List.mem_cons_self ..)
    refine .clear (by rw [hf.reported]; exact hpaid) ?_
    intro i hi
    obtain ⟨u, hu⟩ := Option.isSome_iff_exists.mp (hrest i hi)
    obtain ⟨v, hv, -⟩ := hf.visits _ _ hmem i hi u hu
    rw [hv]
    rfl

theorem Recorded.frame (hr : Recorded t) (hf : Frame t t') : Recorded t' := by
  refine ⟨?_, ?_, ?_, ?_, ?_⟩
  · rw [hf.ended, hf.rounds]
    exact hr.numbers
  · rw [hf.ended]
    exact hr.sorted
  · rw [hf.ended, hf.reports]
    exact hr.reports
  · rw [hf.resets]
    exact hr.kept
  · rw [hf.ended]
    exact hr.stopped

theorem Sound.frame (hs : Sound t) (hf : Frame t t') : Sound t' := by
  refine ⟨hs.toRecorded.frame hf, ?_⟩
  cases hs.phase with
  | idle hstatus hround hquiet hdone =>
    refine .idle (hf.status.trans hstatus) (by rw [hf.round]; exact hround) (fun id => (hf.work id).trans (hquiet id)) ?_
    rw [hf.ended]
    exact fun r hr => hf.closed (hdone r hr)
  | playing hstatus hround hnumber hgoing hplays hquiet hdone =>
    refine .playing (hf.status.trans hstatus) (hf.round.trans hround) (hnumber.trans hf.rounds.symm) hgoing
      (fun i hi => (hplays i hi).keep (hf.plays hstatus i hi)) (fun id => (hf.work id).trans (hquiet id)) ?_
    rw [hf.ended, hf.rounds]
    exact fun r hr => ⟨hf.closed (hdone r hr).1, (hdone r hr).2⟩
  | settling he hprogress =>
    refine .settling ⟨hf.status.trans he.status, hf.round.trans he.round, he.number.trans hf.rounds.symm, he.finished,
      hf.ended.trans he.ended, fun j hj => (hf.work j).trans (he.quiet j hj), ?_⟩ (hf.progress hprogress)
    rw [hf.rounds]
    exact fun r' hr' => ⟨hf.closed (he.done r' hr').1, (he.done r' hr').2⟩

theorem keeps_refl (us : Users) (i : Seat) : Keeps us us i := fun u hu => ⟨u, hu, rfl, rfl, rfl⟩

theorem settlement_put (h : settlement work = settlement (t.threads id)) (j : Nat) :
    settlement ((t.put id work).threads j) = settlement (t.threads j) := by
  simp only [Table.put]
  by_cases hj : j = id
  · subst hj
    rw [Function.update_self, h]
  · rw [Function.update_of_ne hj]

/-- The users change, and the tasks of a coroutine that settle nothing. -/
theorem Sound.users (hs : Sound t) (hwork : settlement work = settlement (t.threads id))
    (hkeeps : ∀ i, Keeps t.users us i) : Sound ({ t with users := us }.put id work) :=
  hs.frame ⟨rfl, rfl, rfl, rfl, rfl, rfl, settlement_put (t := { t with users := us }) hwork, fun _ i _ => hkeeps i,
    fun _ _ _ i _ => hkeeps i⟩

theorem Sound.put (hs : Sound t) (hwork : settlement work = settlement (t.threads id)) : Sound (t.put id work) :=
  hs.users hwork (keeps_refl t.users)

/-! ### The settlement -/

/-- The loop that clears the users goes on to its end, or to the call for a user who has no socket. -/
theorem clearFrom_cases (n : Nat) (is : List Seat) (t : Table) (h : ∀ i ∈ is, (t.users.user i).isSome) :
    (∃ us, clearFrom n t is =
      ({ t with
        users := us
        round := t.round.map fun r => { r with state := r.state.reset }
        resets := t.resets ++ [(n, t.rounds)] }, [])) ∨
    ∃ us work rest, clearFrom n t is = ({ t with users := us }, work ++ [Task.clear n rest]) ∧ settlement work = [] ∧
      ∀ i ∈ rest, (us.user i).isSome := by
  induction is generalizing t with
  | nil => exact .inl ⟨t.users, rfl⟩
  | cons i is ih =>
    obtain ⟨u, hu⟩ := Option.isSome_iff_exists.mp (h i (List.mem_cons_self ..))
    have hrest : ∀ j ∈ is, ((t.users.clearReady i).user j).isSome := by
      intro j hj
      rw [Users.clearReady, Users.map_user, Option.isSome_map]
      exact h j (List.mem_cons_of_mem _ hj)
    simp only [clearFrom, hu]
    split
    · exact .inr ⟨_, [.disconnected u.m_userId], is, rfl, rfl, hrest⟩
    · exact ih _ hrest

theorem payFrom_cases (n : Nat) {is : List Seat} (his : ∀ i ∈ is, i ∈ seats) (howes : ∀ i ∈ seats, t.users.Owes r i) :
    (∃ userId iTurnMoney rest, payFrom n t is = (t, [.report n userId iTurnMoney, .pay n rest]) ∧
      r.owedFrom is = (userId, iTurnMoney) :: r.owedFrom rest ∧ ∀ i ∈ rest, i ∈ seats) ∨
    payFrom n t is = clearFrom n t seats ∧ r.owedFrom is = [] := by
  induction is with
  | nil => exact .inr ⟨rfl, rfl⟩
  | cons i is ih =>
    have hrest : ∀ j ∈ is, j ∈ seats := fun j hj => his j (List.mem_cons_of_mem _ hj)
    obtain ⟨u, hu, hid, hrobot, hmoney⟩ := howes i (his i (List.mem_cons_self ..))
    simp only [payFrom, hu]
    cases hr : u.isRobot with
    | true =>
      have hskip : r.owedFrom (i :: is) = r.owedFrom is := by
        rw [Round.owedFrom, List.filter_cons_of_neg (by rw [← hrobot, hr]; exact Bool.false_ne_true), Round.owedFrom]
      rw [if_pos rfl, hskip]
      exact ih hrest
    | false =>
      have howed : r.owedFrom (i :: is) = (u.m_userId, u.m_pTurnMoney) :: r.owedFrom is := by
        rw [Round.owedFrom, List.filter_cons_of_pos (by rw [← hrobot, hr]; rfl), List.map_cons, hid, hmoney, Round.owedFrom]
      rw [if_neg Bool.false_ne_true]
      exact .inl ⟨_, _, is, rfl, howed, hrest⟩

theorem settlement_append (work more : List Task) : settlement (work ++ more) = settlement work ++ settlement more :=
  List.filter_append ..

/-- The thread of the settlement goes on. -/
theorem Ending.put (he : Ending t r prev id) (us : Users) (work : List Task) :
    Ending ({ t with users := us }.put id work) r prev id := by
  refine ⟨he.status, he.round, he.number, he.finished, he.ended, ?_, he.done⟩
  intro j hj
  simp only [Table.put]
  rw [Function.update_of_ne hj]
  exact he.quiet j hj

theorem sound_of_clear (hrec : Recorded t) (he : Ending t r prev id) (hpaid : t.reported r.number = r.owed)
    {rest : List Seat} (hrest : ∀ i ∈ rest, (t.users.user i).isSome) (more : List Task) (hmore : settlement more = []) :
    Sound ((clearFrom r.number t rest).1.put id ((clearFrom r.number t rest).2 ++ more)) := by
  rcases clearFrom_cases r.number rest t hrest with ⟨us, hclear⟩ | ⟨us, work, rest', hclear, hwork, hrest'⟩
  · rw [hclear]
    refine ⟨⟨hrec.numbers, hrec.sorted, hrec.reports, ?_, hrec.stopped⟩, .idle he.status ?_ ?_ ?_⟩
    · intro x hx
      rcases List.mem_append.mp hx with hx | hx
      · exact hrec.kept x hx
      · rw [List.mem_singleton.mp hx]
        exact he.number
    · intro r' hr'
      simp only [Table.put, he.round, Option.map_some, Option.some.injEq] at hr'
      subst hr'
      exact he.finished
    · intro j
      simp only [Table.put]
      by_cases hj : j = id
      · rw [hj, Function.update_self]
        exact hmore
      · rw [Function.update_of_ne hj]
        exact he.quiet j hj
    · intro r' hr'
      simp only [Table.put, he.ended] at hr'
      rcases List.mem_append.mp hr' with hr' | hr'
      · exact ⟨(he.done r' hr').1.1, List.mem_append_left _ (he.done r' hr').1.2⟩
      · rw [List.mem_singleton.mp hr']
        exact ⟨hpaid, List.mem_append_right _ (by rw [he.number]; exact List.mem_cons_self ..)⟩
  · rw [hclear]
    have he' := he.put us (work ++ [Task.clear r.number rest'] ++ more)
    refine ⟨⟨hrec.numbers, hrec.sorted, hrec.reports, hrec.kept, hrec.stopped⟩, .settling he' ?_⟩
    simp only [Table.put, Function.update_self, settlement_append, hwork, hmore, List.append_nil]
    exact Progress.clear hpaid hrest'

theorem sound_of_pay (hrec : Recorded t) (he : Ending t r prev id) {rest : List Seat}
    (hpaid : t.reported r.number ++ r.owedFrom rest = r.owed) (hrest : ∀ i ∈ rest, i ∈ seats)
    (howes : ∀ i ∈ seats, t.users.Owes r i) (more : List Task) (hmore : settlement more = []) :
    Sound ((payFrom r.number t rest).1.put id ((payFrom r.number t rest).2 ++ more)) := by
  rcases payFrom_cases r.number hrest howes with ⟨userId, iTurnMoney, rest', hpay, howed, hrest'⟩ | ⟨hpay, howed⟩
  · rw [hpay]
    have he' := he.put t.users ([Task.report r.number userId iTurnMoney, .pay r.number rest'] ++ more)
    refine ⟨⟨hrec.numbers, hrec.sorted, hrec.reports, hrec.kept, hrec.stopped⟩, .settling he' ?_⟩
    simp only [Table.put, Function.update_self, settlement_append, hmore, List.append_nil]
    rw [howed] at hpaid
    exact .report hpaid hrest' howes
  · rw [hpay]
    rw [howed, List.append_nil] at hpaid
    refine sound_of_clear hrec he hpaid ?_ more hmore
    intro i hi
    obtain ⟨u, hu, -⟩ := howes i hi
    rw [hu]
    rfl

/-- A round that goes on is the one that is played. -/
theorem Sound.playing (hs : Sound t) (hround : t.round = some r) (hgoing : r.state.finished = false) :
    t.m_tableStatus = .gamePlaying ∧ r.number = t.rounds ∧ (∀ i ∈ seats, t.users.Plays r.config i) ∧
      (∀ id, settlement (t.threads id) = []) ∧ ∀ r' ∈ t.ended, PaidOff t r' ∧ r'.number < t.rounds := by
  cases hs.phase with
  | idle _ hover =>
    rw [hover r hround] at hgoing
    cases hgoing
  | playing hstatus hround' hnumber _ hplays hquiet hdone =>
    rw [hround] at hround'
    cases hround'
    exact ⟨hstatus, hnumber, hplays, hquiet, hdone⟩
  | settling he _ =>
    have hround' := he.round
    rw [hround] at hround'
    cases hround'
    rw [he.finished] at hgoing
    cases hgoing

/-- A round has ended: its coroutine begins the settlement. -/
theorem sound_of_end (hs : Sound t) (hround : t.round = some r) (hgoing : r.state.finished = false) {s : State}
    (hend : s.finished = true) (hstop : ∃ s' result, Mahjong.onGameStopRound r.config s' result = .returned s) :
    Sound ((t.onGameStopRound { r with state := s }).1.put id (t.onGameStopRound { r with state := s }).2) := by
  obtain ⟨-, hnumber, hplays, hquiet, hdone⟩ := hs.playing hround hgoing
  have hpaid : t.reported r.number = [] := by
    rw [Table.reported, List.map_eq_nil_iff, List.filter_eq_nil_iff]
    intro x hx he
    obtain ⟨r', hr', hx'⟩ := hs.reports x hx
    have hlt := (hdone r' hr').2
    rw [hx', beq_iff_eq.mp he, hnumber] at hlt
    exact lt_irrefl _ hlt
  have he : Ending (t.stop { r with state := s }) { r with state := s } t.ended id :=
    ⟨rfl, rfl, hnumber, hend, rfl, fun j _ => hquiet j, hdone⟩
  rw [← List.append_nil (t.onGameStopRound { r with state := s }).2]
  refine sound_of_pay ?_ he ?_ (fun i hi => hi) ?_ [] rfl
  · refine ⟨?_, ?_, ?_, hs.kept, ?_⟩
    · intro r' hr'
      rcases List.mem_append.mp hr' with hr' | hr'
      · exact hs.numbers r' hr'
      · rw [List.mem_singleton.mp hr']
        exact hnumber.le
    · refine List.pairwise_append.mpr ⟨hs.sorted, List.pairwise_singleton .., ?_⟩
      intro r' hr' r'' hr''
      rw [List.mem_singleton.mp hr'']
      exact (hdone r' hr').2.trans_eq hnumber.symm
    · intro x hx
      obtain ⟨r', hr', hx'⟩ := hs.reports x hx
      exact ⟨r', List.mem_append_left _ hr', hx'⟩
    · intro r' hr'
      rcases List.mem_append.mp hr' with hr' | hr'
      · exact hs.stopped r' hr'
      · rw [List.mem_singleton.mp hr']
        exact hstop
  · change t.reported r.number ++ _ = _
    rw [hpaid]
    rfl
  · intro i hi
    obtain ⟨u, hu, hid, hrobot⟩ := hplays i hi
    refine ⟨{ u with m_pTurnMoney := s.turnMoney i }, ?_, hid, hrobot, rfl⟩
    change (t.users.user i).map _ = _
    rw [hu, Option.map_some]

/-- A command or a timer of the round. -/
theorem sound_of_inRound (hs : Sound t) (hquiet : settlement (t.threads id) = []) {l : Label}
    (h : t.inRound l = some (t', work)) : Sound (t'.put id work) := by
  unfold Table.inRound at h
  split at h
  · cases h
  · rename_i r hround
    split at h
    · split at h
      · cases h
      · rename_i s hstep
        have hgoing := going_of_step hstep
        split at h
        · rename_i hend
          have hsound : Sound ((t.onGameStopRound { r with state := s }).1.put id
              (t.onGameStopRound { r with state := s }).2) := sound_of_end hs hround hgoing hend (stopped_of_step hstep hend)
          rw [Option.some.inj h] at hsound
          exact hsound
        · rename_i hend
          rw [Bool.not_eq_true] at hend
          obtain ⟨hstatus, hnumber, hplays, hquiets, hdone⟩ := hs.playing hround hgoing
          cases h
          exact Sound.put ⟨⟨hs.numbers, hs.sorted, hs.reports, hs.kept, hs.stopped⟩,
            .playing hstatus rfl hnumber hend hplays hquiets hdone⟩ hquiet.symm
    · cases h

/-! ### Starting a round, and the other handlers -/

/-- A handler that settles nothing. -/
structure Quietly (t t' : Table) (work : List Task) : Prop where
  sound : Sound t'
  threads : t'.threads = t.threads
  work : settlement work = []

theorem Quietly.put (hq : Quietly t t' work) (more : List Task) (h : settlement more = settlement (t.threads id)) :
    Sound (t'.put id (work ++ more)) :=
  hq.sound.put (by rw [settlement_append, hq.work, List.nil_append, hq.threads, h])

theorem settling_of_progress {n : Nat} {task : Task} {rest : List Task} (h : settlement (t.threads id) = task :: rest)
    (hn : task.number = some n) : t.settling n :=
  ⟨id, task, mem_of_settlement h (List.mem_cons_self ..), hn⟩

theorem Progress.settling (h : Progress t r (settlement (t.threads id))) : t.settling r.number := by
  generalize hwork : settlement (t.threads id) = work at h
  cases h with
  | report => exact settling_of_progress hwork rfl
  | pay => exact settling_of_progress hwork rfl
  | clear => exact settling_of_progress hwork rfl

theorem quietly_of_start (hs : Sound t) (hfree : t.users.readyCount = seats.length → ∀ n, ¬ t.settling n) :
    Quietly t (onCheckGameTableStartGame room t start).1 (onCheckGameTableStartGame room t start).2 := by
  unfold onCheckGameTableStartGame
  split
  · exact ⟨hs, rfl, rfl⟩
  · rename_i hstatus
    split
    · rename_i hready
      cases hs.phase with
      | playing hplaying => exact absurd hplaying hstatus
      | settling _ hprogress => exact absurd hprogress.settling (hfree hready _)
      | idle _ _ hquiet hdone =>
        refine ⟨⟨⟨?_, hs.sorted, hs.reports, hs.kept, hs.stopped⟩,
          .playing rfl rfl rfl rfl ?_ hquiet fun r hr => ⟨hdone r hr, Nat.lt_succ_of_le (hs.numbers r hr)⟩⟩, rfl, rfl⟩
        · exact fun r hr => (hs.numbers r hr).trans (Nat.le_succ _)
        · intro i hi
          obtain ⟨u, hu, -⟩ := Users.exists_of_readyCount hready i hi
          refine ⟨{ u with m_pTurnMoney := 0 }, ?_, ?_, ?_⟩
          · change (t.users.user i).map _ = _
            rw [hu, Option.map_some]
          · simp only [Room.config, hu, Option.map_some, Option.getD_some]
          · simp only [Room.config, hu, Option.map_some, Option.getD_some]
    · exact ⟨hs, rfl, rfl⟩

theorem quietly_of_logout (hs : Sound t) (userId : Int) :
    Quietly t (onClientCmdLogout t userId).1 (onClientCmdLogout t userId).2 := by
  unfold onClientCmdLogout
  split
  · exact ⟨hs, rfl, rfl⟩
  · split
    · exact ⟨hs, rfl, rfl⟩
    · exact ⟨hs, rfl, rfl⟩

theorem quietly_of_ready (hs : Sound t) {userId : Int}
    (hfree : (t.users.setReady userId).readyCount = seats.length → ∀ n, ¬ t.settling n) :
    Quietly t (onClientCmdReady room t userId start).1 (onClientCmdReady room t userId start).2 := by
  unfold onClientCmdReady
  split
  · exact ⟨hs, rfl, rfl⟩
  · have hready : Sound { t with users := t.users.setReady userId } :=
      hs.frame ⟨rfl, rfl, rfl, rfl, rfl, rfl, fun _ => rfl, fun _ i _ => keeps_setReady userId,
        fun _ _ _ i _ => keeps_setReady userId⟩
    exact ⟨(quietly_of_start hready hfree).sound, (quietly_of_start hready hfree).threads,
      (quietly_of_start hready hfree).work⟩

/-- The commands of a client. -/
theorem sound_of_command (hs : Sound t) (hquiet : settlement (t.threads id) = []) {userId : Int} {cmd : Cmd}
    (hfree : cmd = .ready → (t.users.setReady userId).readyCount = seats.length → ∀ n, ¬ t.settling n) :
    Sound ((command room t userId start cmd).1.put id (command room t userId start cmd).2) := by
  have hround : ∀ l, Sound ((onClientCmdRound t l).1.put id (onClientCmdRound t l).2) := by
    intro l
    unfold onClientCmdRound
    split
    · cases hin : t.inRound l with
      | none => exact hs.put hquiet.symm
      | some p => exact sound_of_inRound hs hquiet hin
    · exact hs.put hquiet.symm
  cases cmd with
  | ready =>
    rw [← List.append_nil (command room t userId start .ready).2]
    exact (quietly_of_ready hs (hfree rfl)).put [] hquiet.symm
  | logout =>
    rw [← List.append_nil (command room t userId start .logout).2]
    exact (quietly_of_logout hs userId).put [] hquiet.symm
  | outCard iCardValue => exact hround _
  | takeOperation iOpValue iCardValue => exact hround _
  | requestAI iAiType => exact hround _

/-! ### A call returns -/

/-- Only the coroutine of the last round has something to settle. -/
theorem Sound.settles (hs : Sound t) {task : Task} {rest : List Task}
    (hwork : settlement (t.threads id) = task :: rest) :
    ∃ r prev, Ending t r prev id ∧ Progress t r (task :: rest) := by
  cases hs.phase with
  | idle _ _ hquiet _ =>
    rw [hquiet] at hwork
    cases hwork
  | playing _ _ _ _ _ hquiet _ =>
    rw [hquiet] at hwork
    cases hwork
  | settling he hprogress =>
    rename_i r prev id'
    by_cases hid : id = id'
    · subst hid
      rw [hwork] at hprogress
      exact ⟨r, prev, he, hprogress⟩
    · rw [he.quiet id hid] at hwork
      cases hwork

theorem settlement_cons {task : Task} {rest : List Task} (hwork : t.threads id = task :: rest)
    (hn : task.number.isSome = true) : settlement (t.threads id) = task :: settlement rest := by
  rw [hwork]
  exact List.filter_cons_of_pos (p := fun task : Task => task.number.isSome) hn

theorem settlement_skip {task : Task} {rest : List Task} (hwork : t.threads id = task :: rest)
    (hn : task.number.isSome = false) : settlement rest = settlement (t.threads id) := by
  rw [hwork]
  exact (List.filter_cons_of_neg (p := fun task : Task => task.number.isSome) (Bool.eq_false_iff.mp hn)).symm

/-- The money server is told the result of a player. -/
theorem sound_of_report (hs : Sound t) {userId iTurnMoney : Int} {rest : List Task}
    (hwork : t.threads id = .report n userId iTurnMoney :: rest) :
    Sound ({ t with reports := t.reports ++ [(n, userId, iTurnMoney)] }.put id rest) := by
  obtain ⟨r, prev, he, hprogress⟩ := hs.settles (settlement_cons hwork rfl)
  generalize hrest : settlement rest = todo at hprogress
  cases hprogress with
  | report hpaid hseats howes =>
    have hreported : ∀ m, Table.reported ({ t with reports := t.reports ++ [(r.number, userId, iTurnMoney)] }.put id rest) m =
        t.reported m ++ if r.number = m then [(userId, iTurnMoney)] else [] := by
      intro m
      simp only [Table.reported, Table.put, List.filter_append, List.map_append, List.filter_cons, List.filter_nil,
        beq_iff_eq]
      split
      · rfl
      · rfl
    have he' : Ending ({ t with reports := t.reports ++ [(r.number, userId, iTurnMoney)] }.put id rest) r prev id := by
      refine ⟨he.status, he.round, he.number, he.finished, he.ended, ?_, ?_⟩
      · intro j hj
        simp only [Table.put]
        rw [Function.update_of_ne hj]
        exact he.quiet j hj
      · intro r' hr'
        obtain ⟨⟨hpaid', hreset⟩, hlt⟩ := he.done r' hr'
        refine ⟨⟨?_, hreset⟩, hlt⟩
        rw [hreported, if_neg (by rw [he.number]; exact hlt.ne'), List.append_nil, hpaid']
    refine ⟨⟨hs.numbers, hs.sorted, ?_, hs.kept, hs.stopped⟩, .settling he' ?_⟩
    · intro x hx
      rcases List.mem_append.mp hx with hx | hx
      · exact hs.reports x hx
      · rw [List.mem_singleton.mp hx]
        exact ⟨r, by rw [he'.ended]; exact List.mem_append_right _ (List.mem_cons_self ..), rfl⟩
    · simp only [Table.put, Function.update_self, hrest]
      refine .pay ?_ hseats howes
      have hsame := hreported r.number
      rw [if_pos rfl] at hsame
      change Table.reported ({ t with reports := t.reports ++ [(r.number, userId, iTurnMoney)] }.put id rest) r.number ++ _ = _
      rw [hsame, List.append_assoc]
      exact hpaid

theorem sound_of_resume (hs : Sound t) {task : Task} {rest : List Task} (hwork : t.threads id = task :: rest)
    (hg : Undisturbed t (.resume id start)) :
    Sound ((perform room t start task).1.put id ((perform room t start task).2 ++ rest)) := by
  cases task with
  | report number userId iTurnMoney => exact sound_of_report hs hwork
  | pay number is =>
    obtain ⟨r, prev, he, hprogress⟩ := hs.settles (settlement_cons hwork rfl)
    generalize hrest : settlement rest = todo at hprogress
    cases hprogress with
    | pay hpaid hseats howes => exact sound_of_pay hs.toRecorded he hpaid hseats howes rest hrest
  | clear number is =>
    obtain ⟨r, prev, he, hprogress⟩ := hs.settles (settlement_cons hwork rfl)
    generalize hrest : settlement rest = todo at hprogress
    cases hprogress with
    | clear hpaid hseats => exact sound_of_clear hs.toRecorded he hpaid hseats rest hrest
  | disconnected userId => exact (quietly_of_logout hs userId).put rest (settlement_skip hwork rfl)
  | leave object =>
    obtain ⟨hstatus, hseat⟩ := hg.leave object (by simp only [Table.leaving, hwork])
    refine hs.frame ⟨rfl, rfl, rfl, rfl, rfl, rfl, settlement_put (settlement_skip hwork rfl), ?_, ?_⟩
    · intro hplaying
      rw [hstatus] at hplaying
      cases hplaying
    · intro j task htask i hi
      exact keeps_remove fun u hu he => hseat i u hu he j task htask hi
  | loggedIn object =>
    refine Quietly.put ?_ rest (settlement_skip hwork rfl)
    simp only [perform, onLoggedIn]
    split
    · exact ⟨hs, rfl, rfl⟩
    · exact quietly_of_start hs fun hready => hg.start ⟨⟨object, rest, hwork⟩, hready⟩
  | done => exact hs.put (settlement_skip hwork rfl)

theorem sound_of_step {e : Event} (hs : Sound t) (hg : Undisturbed t e) (h : t.step room e = some t') : Sound t' := by
  cases e with
  | receive userId cmd =>
    simp only [Table.step] at h
    split at h
    · cases h
      exact hs
    · cases h
      exact hs.frame ⟨rfl, rfl, rfl, rfl, rfl, rfl, fun _ => rfl, fun _ i _ => keeps_refl _ i, fun _ _ _ i _ => keeps_refl _ i⟩
  | serve id start =>
    simp only [Table.step] at h
    split at h
    · rename_i userId cmd rest hnone hfree hqueue
      cases h
      have hqueued : Sound { t with thread_queue := rest, current_thread := some id } :=
        hs.frame ⟨rfl, rfl, rfl, rfl, rfl, rfl, fun _ => rfl, fun _ i _ => keeps_refl _ i, fun _ _ _ i _ => keeps_refl _ i⟩
      refine sound_of_command hqueued (by rw [hnone]; rfl) ?_
      rintro rfl hready
      exact hg.start ⟨userId, rest, hqueue, hready⟩
    · cases h
  | timer id key dice =>
    simp only [Table.step] at h
    split at h
    · rename_i t₁ work hnone hfree hin
      cases h
      have hupdating : Sound { t with updating := some id } :=
        hs.frame ⟨rfl, rfl, rfl, rfl, rfl, rfl, fun _ => rfl, fun _ i _ => keeps_refl _ i, fun _ _ _ i _ => keeps_refl _ i⟩
      exact sound_of_inRound hupdating (by rw [hnone]; rfl) hin
    · cases h
  | login id userId iReady socketfd isRobot =>
    simp only [Table.step] at h
    split at h
    · rename_i seat hnone hseat hnew
      cases h
      refine hs.frame ⟨rfl, rfl, rfl, rfl, rfl, rfl, ?_, fun _ i _ => keeps_add hnew (user_of_autoSeat hseat),
        fun _ _ _ i _ => keeps_add hnew (user_of_autoSeat hseat)⟩
      exact settlement_put (t := t.addUser seat userId iReady socketfd isRobot hnew) (by
        change _ = settlement (t.threads id)
        rw [hnone]
        rfl)
    · cases h
  | reconnect userId socketfd =>
    cases h
    exact hs.frame ⟨rfl, rfl, rfl, rfl, rfl, rfl, fun _ => rfl, fun _ i _ => keeps_setSocketfd userId socketfd,
      fun _ _ _ i _ => keeps_setSocketfd userId socketfd⟩
  | disconnect id userId =>
    simp only [Table.step] at h
    split at h
    · rename_i u hnone hu
      cases h
      exact hs.put (by rw [hnone]; rfl)
    · cases h
  | resume id start =>
    simp only [Table.step] at h
    split at h
    · cases h
    · rename_i task rest hwork
      cases h
      exact sound_of_resume hs hwork hg

/-! ### Runs -/

/-- The settlements of a table are atomic. -/
structure Atomic (t : Table) : Prop where
  /-- Rounds end one after the other, each in a settlement that gives the totals. -/
  rounds : t.ended.Pairwise fun r r' => r.number < r'.number
  totals : ∀ r ∈ t.ended, ∃ s result table, Mahjong.onGameStopRound r.config s result = .returned r.state ∧
    onGetGameStopHuInfo s.gangs s.hus = some table ∧
    r.owed = (seats.filter fun i => !r.config.isRobot i).map fun i => (r.config.userId i, (table i).iTotalTurnMoney)
  /-- Nobody is reported twice, and everybody when the settlement is complete. -/
  once : ∀ r ∈ t.ended, t.reported r.number <+: r.owed
  complete : ∀ r ∈ t.ended, t.settling r.number ∨ t.reported r.number = r.owed ∧ (r.number, r.number) ∈ t.resets
  /-- No round has been started after the one that is settled. -/
  alone : ∀ n, t.settling n → n = t.rounds
  /-- A settlement resets its own round. -/
  kept : ∀ x ∈ t.resets, x.1 = x.2

theorem sound_opened (us : Users) (objects : Nat) : Sound (.opened us objects) := by
  have hnone : ∀ r, r ∉ (Table.opened us objects).ended := fun _ => List.not_mem_nil
  refine ⟨⟨?_, .nil, ?_, ?_, ?_⟩, .idle rfl ?_ (fun _ => rfl) ?_⟩
  · exact fun r hr => absurd hr (hnone r)
  · exact fun x hx => absurd hx List.not_mem_nil
  · exact fun x hx => absurd hx List.not_mem_nil
  · exact fun r hr => absurd hr (hnone r)
  · intro r hr
    cases hr
  · exact fun r hr => absurd hr (hnone r)

theorem Sound.number_of_settling (hs : Sound t) {n : Nat} (h : t.settling n) :
    ∃ r prev id, Ending t r prev id ∧ r.number = n := by
  obtain ⟨id, task, htask, hn⟩ := h
  have hmem : task ∈ settlement (t.threads id) := List.mem_filter.mpr ⟨htask, by rw [hn]; rfl⟩
  obtain ⟨first, rest, hwork⟩ := List.exists_cons_of_ne_nil (List.ne_nil_of_mem hmem)
  obtain ⟨r, prev, he, hprogress⟩ := hs.settles hwork
  refine ⟨r, prev, id, he, ?_⟩
  rw [hwork] at hmem
  cases hprogress with
  | report =>
    rcases List.mem_pair.mp hmem with rfl | rfl
    · exact Option.some.inj hn
    · exact Option.some.inj hn
  | pay =>
    rw [List.mem_singleton.mp hmem] at hn
    exact Option.some.inj hn
  | clear =>
    rw [List.mem_singleton.mp hmem] at hn
    exact Option.some.inj hn

theorem Progress.paid {work : List Task} (h : Progress t r work) : t.reported r.number <+: r.owed := by
  cases h with
  | report hpaid => exact ⟨_, hpaid⟩
  | pay hpaid => exact ⟨_, hpaid⟩
  | clear hpaid => exact ⟨[], (List.append_nil _).trans hpaid⟩

theorem Sound.atomic (hs : Sound t) : Atomic t := by
  have hclosed : ∀ r ∈ t.ended, t.settling r.number ∧ t.reported r.number <+: r.owed ∨ PaidOff t r := by
    intro r hr
    cases hs.phase with
    | idle _ _ _ hdone => exact .inr (hdone r hr)
    | playing _ _ _ _ _ _ hdone => exact .inr (hdone r hr).1
    | settling he hprogress =>
      rw [he.ended] at hr
      rcases List.mem_append.mp hr with hr | hr
      · exact .inr (he.done r hr).1
      · rw [List.mem_singleton.mp hr]
        exact .inl ⟨hprogress.settling, hprogress.paid⟩
  refine ⟨hs.sorted, ?_, ?_, ?_, ?_, hs.kept⟩
  · intro r hr
    obtain ⟨s, result, hstop⟩ := hs.stopped r hr
    obtain ⟨table, htable, hmoney⟩ := turnMoney_of_stop hstop
    refine ⟨s, result, table, hstop, htable, List.map_congr_left fun i hi => ?_⟩
    rw [hmoney i (List.mem_of_mem_filter hi)]
  · intro r hr
    rcases hclosed r hr with h | h
    · exact h.2
    · exact ⟨[], (List.append_nil _).trans h.1⟩
  · intro r hr
    exact (hclosed r hr).imp_left And.left
  · intro n hn
    obtain ⟨r, prev, id, he, rfl⟩ := hs.number_of_settling hn
    exact he.number

/-- If no round is started while another one is settled, and no user leaves a round that is played or settled, every
settlement is atomic. -/
theorem settlement_atomic (room : Room) (us : Users) (objects : Nat) (es : List Event) (t : Table)
    (hrun : Lts.run (Table.step room) (.opened us objects) es = some t)
    (hg : Lts.Guarded (Table.step room) Undisturbed (.opened us objects) es) : Atomic t :=
  (Lts.run_invariant_of_guarded (P := Sound) (fun _ _ _ hs hu h => sound_of_step hs hu h) hrun hg
    (sound_opened us objects)).atomic

/-! ### A round that is won by the first draw -/

def fourUsers : Users where
  user i := if i ∈ seats then some ⟨i.toNat, 100 + i, 1, 5, false, 0⟩ else none
  user_inj i hi j hj u v hu hv he := by
    rw [if_pos hi, Option.some.injEq] at hu
    rw [if_pos hj, Option.some.injEq] at hv
    rw [← hu, ← hv] at he
    exact Int.add_left_cancel he

def coinRoom : Room := { iBasePoint := 10, iServerFee := 0, iOperationTime := 10, iOutCardTime := 15 }

def stackedWall : Start := ⟨stacked [0x05], fun _ => 1000⟩

/-- The deal and the win: the coroutine 0 is that of the command that ends the round. -/
def winByDraw : List Event :=
  [.resume 0 stackedWall, .timer 0 .makeBanker [], .timer 0 .dealCards [], .timer 0 .drawCard [],
    .receive 101 (.takeOperation 0x200 0x05), .serve 0 stackedWall]

/-- A table that has started the round for the Ready of a user. -/
def started : List Event := [.receive 101 .ready, .serve 0 stackedWall]

theorem undisturbed_started :
    Lts.Guarded (Table.step coinRoom) Undisturbed (.opened fourUsers 5) started := by
  refine ⟨⟨False.elim, nofun⟩, ?_⟩
  intro t ht
  cases ht
  refine ⟨⟨?_, nofun⟩, fun _ _ => trivial⟩
  rintro - n ⟨id, task, htask, -⟩
  cases htask

/-- A test for steps that neither start a round nor remove a user. -/
def calm (t : Table) : Event → Bool
  | .serve _ _ => t.thread_queue.all fun x => x.2 != .ready
  | .resume id _ => (t.threads id).all fun task => task == .done || task.number.isSome
  | _ => true

theorem undisturbed_of_calm {e : Event} (h : calm t e = true) : Undisturbed t e := by
  cases e with
  | serve id start =>
    refine ⟨?_, nofun⟩
    rintro ⟨userId, rest, hqueue, -⟩
    simp [calm, hqueue] at h
  | resume id start =>
    refine ⟨?_, ?_⟩
    · rintro ⟨⟨object, rest, hwork⟩, -⟩
      simp [calm, hwork, Task.number] at h
    · intro object hleave
      simp only [Table.leaving] at hleave
      split at hleave
      · rename_i hwork
        simp [calm, hwork, Task.number] at h
      · cases hleave
  | receive | timer | login | reconnect | disconnect => exact ⟨False.elim, nofun⟩

/-- The whole round, with its settlement. -/
theorem settlement_atomic_winByDraw : ∃ t, Lts.run (Table.step coinRoom) (.opened fourUsers 5)
      (started ++ (winByDraw ++ List.replicate 8 (Event.resume 0 stackedWall))) = some t ∧
    t.reported 1 = [(101, 60), (102, -20), (103, -20), (104, -20)] ∧ t.resets = [(1, 1)] ∧ Atomic t := by
  have hrun : ∃ t, Lts.run (Table.step coinRoom) (.opened fourUsers 5) started = some t ∧
      Lts.check (Table.step coinRoom) calm (fun t => decide (t.resets = [(1, 1)]) &&
        decide (t.reported 1 = [(101, 60), (102, -20), (103, -20), (104, -20)]))
        t (winByDraw ++ List.replicate 8 (Event.resume 0 stackedWall)) = true := ⟨_, rfl, by decide +kernel⟩
  obtain ⟨t, ht, htest⟩ := hrun
  obtain ⟨t', hrun', hguard, hp⟩ := Lts.of_check (fun _ _ => undisturbed_of_calm) htest
  simp only [Bool.and_eq_true, decide_eq_true_eq] at hp
  have hall : Lts.run (Table.step coinRoom) (.opened fourUsers 5)
      (started ++ (winByDraw ++ List.replicate 8 (Event.resume 0 stackedWall))) = some t' :=
    Lts.run_append.mpr ⟨t, ht, hrun'⟩
  refine ⟨t', hall, hp.2, hp.1, settlement_atomic coinRoom fourUsers 5 _ t' hall ?_⟩
  refine Lts.guarded_append undisturbed_started fun u hu => ?_
  rw [ht] at hu
  cases hu
  exact hguard

/-- The socket of a user closes while the winner is reported: that user leaves, and is never reported. -/
theorem disconnect_unreported : ¬ ∀ (room : Room) (us : Users) (objects : Nat) (es : List Event) (t : Table),
    Lts.run (Table.step room) (.opened us objects) es = some t → Atomic t := by
  intro h
  have htest : Lts.check (Table.step coinRoom) (fun _ _ => true) (fun t => t.ended.any fun r =>
      decide (r.number = 1) && !(t.reported 1).isPrefixOf r.owed) (.opened fourUsers 5)
      (started ++ winByDraw ++ ([.disconnect 1 102, .resume 1 stackedWall, .resume 1 stackedWall] : List Event) ++
        List.replicate 6 (Event.resume 0 stackedWall)) = true := by decide +kernel
  obtain ⟨t, hrun, -, ht⟩ := Lts.of_check (G := fun _ _ => True) (fun _ _ _ => trivial) htest
  simp only [List.any_eq_true, Bool.and_eq_true, decide_eq_true_eq, Bool.not_eq_true'] at ht
  obtain ⟨r, hr, hnumber, hprefix⟩ := ht
  have honce := (h coinRoom fourUsers 5 _ t hrun).once r hr
  rw [hnumber, ← List.isPrefixOf_iff_prefix, hprefix] at honce
  cases honce

/-- A Ready for which everybody is ready starts the next round, also when the last one is being settled. -/
theorem ready_restarts {userId : Int} {rest : List (Int × Cmd)} (hstatus : t.m_tableStatus = .gameStop)
    (hqueue : t.thread_queue = (userId, .ready) :: rest) (huser : (t.users.find userId).isSome)
    (hready : (t.users.setReady userId).readyCount = seats.length) (hn : t.settling n)
    (h : t.step room (.serve id start) = some t') : t'.rounds = t.rounds + 1 ∧ t'.settling n := by
  obtain ⟨u, hu⟩ := Option.isSome_iff_exists.mp huser
  simp only [Table.step] at h
  split at h
  · rename_i userId' cmd rest' hnone _ hqueue'
    rw [hqueue, List.cons.injEq, Prod.mk.injEq] at hqueue'
    obtain ⟨⟨rfl, rfl⟩, rfl⟩ := hqueue'
    simp only [command, onClientCmdReady, hu, onCheckGameTableStartGame, hstatus, dif_pos hready] at h
    cases h
    refine ⟨rfl, ?_⟩
    obtain ⟨j, task, htask, hnumber⟩ := hn
    have hj : j ≠ id := by
      rintro rfl
      rw [hnone] at htask
      cases htask
    refine ⟨j, task, ?_, hnumber⟩
    simp only [Table.put]
    rw [Function.update_of_ne hj]
    exact htask
  · cases h

end Mahjong
end Skynet
