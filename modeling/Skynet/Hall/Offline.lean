import Skynet.Hall.Seats

/-!
# Skynet.Hall.Offline

The end of a round in a coin room. The loop of `onGameStopRound` is to take the users from the table whose connection
has closed, and tests `m_socketfd <= 0`; but `onDisconnect` leaves `m_socketfd` as it is, so that nobody is taken.

* `Watch` : the table, and the connections that have closed.
* `Calm` : nobody is offline when a round stops, and no connection closes before its settlement has ended.
* `Swept` : what the settlement is to leave.
* `offline_swept` : a run of calm steps.
* `offline_stays` : a user whose connection closes in the middle of a round.
-/

namespace Skynet
namespace Hall

variable {R : Type} {r : Room} {g : Game R} {t t' : Table R}

/-! ### The connections -/

/-- The table, the connections that have closed, the user objects that sat at the table when the last round stopped,
and those that have left at their own request. -/
structure Watch (R : Type) where
  table : Table R
  closed : List Int
  seated : List Nat
  quit : List Nat

inductive Happening (R : Type)
  | close (socketfd : Int)
  | table (e : Event R)

/-- The table hears of a connection when it has closed. -/
def heard (closed : List Int) : Event R → Bool
  | .disconnect _ socketfd => closed.contains socketfd
  | _ => true

def seatedOf (r : Room) (t : Table R) (seated : List Nat) : Event R → List Nat
  | .stopRound => r.seats.filterMap fun i => (t.m_tableUserMap i).map User.object
  | _ => seated

def quitOf (t : Table R) (quit : List Nat) : Event R → List Nat
  | .resume id _ =>
    match t.threads id with
    | .removed object true :: _ => object :: quit
    | _ => quit
  | _ => quit

def watchStep (r : Room) (g : Game R) (w : Watch R) : Happening R → Option (Watch R)
  | .close socketfd => some { w with closed := socketfd :: w.closed }
  | .table e =>
    if heard w.closed e then
      (tableStep r g w.table e).map fun t => ⟨t, w.closed, seatedOf r w.table w.seated e, quitOf w.table w.quit e⟩
    else none

def watchInitial (round : R) : Watch R := ⟨initial round, [], [], []⟩

/-- The connection is open. -/
def online (closed : List Int) (socketfd : Int) : Bool := 0 < socketfd && !closed.contains socketfd

/-- The settlement has left nobody who is offline, and everybody else, unless at the own request. -/
structure Swept (w : Watch R) : Prop where
  offline : ∀ i u, w.table.m_tableUserMap i = some u → online w.closed u.m_socketfd = true
  kept : ∀ object ∈ w.seated, object ∈ w.quit ∨ ∃ i u, w.table.m_tableUserMap i = some u ∧ u.object = object

/-! ### The condition -/

def Table.tasks (t : Table R) : List Task := (List.range t.count).flatMap t.threads

/-- `onGameStopRound` has not ended. -/
def settling (t : Table R) : Bool := t.tasks.any Task.settlement

/-- The connections of the users at the table, and of the login that is under way. -/
def connections (r : Room) (t : Table R) : List Int :=
  r.seats.filterMap (fun i => (t.m_tableUserMap i).map User.m_socketfd) ++
    t.tasks.filterMap fun x => x.login.map Login.socketfd

def Calm (r : Room) (w : Watch R) : Happening R → Bool
  | .close socketfd => !(settling w.table && (connections r w.table).contains socketfd)
  | .table .stopRound =>
    (connections r w.table).all (online w.closed) && !w.table.tasks.any Task.offline
  | .table (.disconnect userId _) => !settling w.table || (w.table.find r userId).isNone
  | .table (.login d) => !settling w.table || online w.closed d.socketfd
  | .table _ => true

/-! ### The tasks of a coin room -/

/-- No dismissal is under way, as there is none in a coin room. -/
def Coin (t : Table R) : Prop := ∀ y, Has t y → y.dismissing = false

/-- What a new task says about the step. -/
structure Newly (r : Room) (t : Table R) (e : Event R) (y : Task) : Prop where
  dismissing : y.dismissing = false
  settlement : y.settlement = true → e = .stopRound ∨ ∃ x, Has t x ∧ x.settlement = true
  offline : y.offline = true → Unconnected t ∨ (∃ x, Has t x ∧ x.offline = true) ∨
    ∃ userId socketfd, e = .disconnect userId socketfd ∧ t.find r userId ≠ none
  login : ∀ d, y.login = some d → e = .login d ∨ ∃ x d', Has t x ∧ x.login = some d' ∧ d.socketfd = d'.socketfd

theorem newly_plain {e : Event R} {y : Task} (hlogin : y.login = none) (hdis : y.dismissing = false)
    (hsettlement : y.settlement = false) (hoffline : y.offline = false) : Newly r t e y := by
  refine ⟨hdis, ?_, ?_, ?_⟩
  · simp [hsettlement]
  · simp [hoffline]
  · simp [hlogin]

theorem newly_entry {id : Nat} {ans : Answer} {x y : Task} {rest new : List Task} (hx : t.threads id = x :: rest)
    (h : Entry r t id x t' new) (hy : y ∈ new) : Newly r t (.resume id ans) y := by
  have hnext : ∀ {y : Task} {d d' : Login}, x.login = some d → y.login = some d' → d'.socketfd = d.socketfd →
      Newly r t (.resume id ans) y := by
    intro y d d' hd hd' hsocketfd
    have hnot : y.exits = false := by
      cases hexits : y.exits with
      | false => rfl
      | true => rw [login_of_exits hexits] at hd'; cases hd'
    have hkind : y.dismissing = false ∧ y.settlement = false ∧ y.offline = false := by
      cases y <;> first | exact ⟨rfl, rfl, rfl⟩ | cases hnot
    refine ⟨hkind.1, ?_, ?_, ?_⟩
    · rw [hkind.2.1]; nofun
    · rw [hkind.2.2]; nofun
    · intro d₁ hd₁
      rw [hd', Option.some.injEq] at hd₁
      exact .inr ⟨x, d, has_head hx, hd, hd₁ ▸ hsocketfd⟩
  cases h with
  | next hd hd' hsame =>
    rw [List.mem_singleton.mp hy]
    exact hnext hd hd' hsame.2
  | toCharge hd =>
    rw [List.mem_singleton.mp hy]
    exact hnext rfl rfl (by rw [hd])
  | charge =>
    rw [List.mem_singleton.mp hy]
    exact hnext rfl rfl rfl
  | absent | unsent => cases hy
  | failed | full | reconnected =>
    rw [List.mem_singleton.mp hy]
    exact newly_plain rfl rfl rfl rfl
  | entered =>
    simp only [List.mem_cons, List.not_mem_nil, or_false] at hy
    rcases hy with rfl | rfl | rfl <;> exact newly_plain rfl rfl rfl rfl

theorem newly_of_begun (hcoin : r.isBattleRoom = false) (hc : Coin t) {e : Event R} {y : Task} (h : Begun r t e y) :
    Newly r t e y := by
  have hbattle : r.isBattleRoom ≠ true := by rw [hcoin]; nofun
  have hdis : ¬∃ x, Has t x ∧ x.dismissing = true := by
    rintro ⟨x, hx, hyes⟩
    rw [hc x hx] at hyes
    cases hyes
  cases h with
  | create | done | left => exact newly_plain rfl rfl rfl rfl
  | @login d =>
    refine ⟨rfl, nofun, nofun, ?_⟩
    intro d' hd'
    cases hd'
    exact .inl rfl
  | entry hx _ hentry hy => exact newly_entry hx hentry hy
  | @disconnect userId socketfd u hu =>
    refine ⟨rfl, nofun, fun _ => .inr (.inr ⟨userId, socketfd, rfl, ?_⟩), nofun⟩
    rw [hu]
    nofun
  | dismissing hwhen => exact absurd (hwhen.resolve_left hbattle) hdis
  | settling hwhen hy hplain =>
    refine ⟨?_, fun _ => hwhen.imp_left And.left, ?_, ?_⟩
    · cases y <;> first | rfl | cases hy
    · intro hoffline
      by_contra hnot
      obtain ⟨is, rfl⟩ := hplain fun hu => hnot (.inl hu)
      cases hoffline
    · intro d hd
      rw [login_of_exits (exits_of_settling hy)] at hd
      cases hd
  | @leave e i u asked _ hwhen =>
    refine ⟨rfl, nofun, ?_, nofun⟩
    intro hoffline
    rcases hwhen.resolve_left hbattle with ⟨x, hx, hyes | hyes⟩ | rfl
    · exact absurd ⟨x, hx, hyes⟩ hdis
    · exact .inr (.inl ⟨x, hx, hyes⟩)
    · cases hoffline
  | @removed id ans object userId asked rest hx =>
    refine ⟨rfl, nofun, ?_, nofun⟩
    intro hoffline
    refine .inr (.inl ⟨_, has_head hx, ?_⟩)
    cases asked with
    | true => cases hoffline
    | false => rfl

/-! ### The end of a settlement -/

theorem settled_startGame (t : Table R) : (onCheckGameTableStartGame r g t).1.settled = t.settled := by
  simp only [onCheckGameTableStartGame]
  split
  · rfl
  · split <;> rfl

theorem settled_command (t : Table R) (userId : Int) (cmd : Cmd) : (command r g t userId cmd).1.settled = t.settled := by
  cases cmd with
  | ready =>
    simp only [command, onClientCmdReady]
    split
    · rfl
    · exact settled_startGame _
  | logout iLeave => rfl

theorem settled_entry {id : Nat} {x : Task} {new : List Task} (h : Entry r t id x t' new) : t'.settled = t.settled := by
  cases h with
  | next | toCharge | failed | absent | unsent | reconnected | charge => rfl
  | full h | entered h => rcases h with ⟨-, -, -, -, -, -, rfl⟩ | ⟨-, rfl⟩ <;> rfl

theorem settled_of_perform {id : Nat} {ans : Answer} {rest work : List Task} {x : Task} {msg : Option Msg}
    (hx : x.settlement = false) (h : perform r g t id ans rest x = (t', work, msg)) : t'.settled = t.settled := by
  by_cases hlogin : x.login = none
  · cases x with
    | checkDiamond | checkMTkey | checkDisconnect | checkUserInfo | charge | charged => cases hlogin
    | pay | sweep => cases hx
    | reported object =>
      simp only [perform] at h
      split at h <;> cases h <;> rfl
    | enter object userId socketfd =>
      simp only [perform] at h
      split at h <;> cases h
      · exact settled_startGame t
      · rfl
    | disconnected object userId =>
      simp only [perform, disconnected] at h
      split at h <;> cases h <;> rfl
    | report | refund | reset | removed | rebind | answered | kick | leave | left | created | done => cases h; rfl
  · obtain ⟨-, new, -, hentry⟩ := entry_of_perform hlogin h
    exact settled_entry hentry

theorem settled_of_moved {e : Event R} {msg : Option Msg} (h : Moved r g t e t' msg) (hne : t'.settled ≠ t.settled) :
    e = .stopRound ∨ ∃ x, Has t x ∧ x.settlement = true := by
  cases h with
  | unknown | gone | receive | play | create | login | disconnect => exact absurd rfl hne
  | @serve userId socketfd cmd rest t₁ work _ _ hc =>
    have hsettled := settled_command (r := r) (g := g) (t.take socketfd rest) userId cmd
    rw [hc] at hsettled
    exact absurd hsettled hne
  | stopRound => exact .inl rfl
  | @resume id ans x rest work t₁ msg hx hp =>
    refine .inr ⟨x, has_head hx, ?_⟩
    by_contra hsettlement
    have hsame : t₁.settled = t.settled := settled_of_perform (Bool.of_not_eq_true hsettlement) hp
    exact hne hsame

/-! ### Runs -/

theorem mem_tasks (h : Unborn t) {x : Task} : x ∈ t.tasks ↔ Has t x := by
  simp only [Table.tasks, List.mem_flatMap, List.mem_range]
  refine ⟨fun ⟨id, _, hx⟩ => ⟨id, hx⟩, ?_⟩
  rintro ⟨id, hx⟩
  refine ⟨id, ?_, hx⟩
  by_contra hid
  rw [h id (Nat.le_of_not_lt hid)] at hx
  cases hx

theorem settling_iff (h : Unborn t) : settling t = true ↔ ∃ x, Has t x ∧ x.settlement = true := by
  simp only [settling, List.any_eq_true, mem_tasks h]

theorem connections_user (h : Seating r t) {i : Nat} {u : User} (hu : t.m_tableUserMap i = some u) :
    u.m_socketfd ∈ connections r t := by
  refine List.mem_append_left _ (List.mem_filterMap.mpr ⟨i, mem_seats.mpr (h.seat i u hu).2, ?_⟩)
  rw [hu]
  rfl

theorem connections_login (h : Unborn t) {x : Task} {d : Login} (hx : Has t x) (hd : x.login = some d) :
    d.socketfd ∈ connections r t := by
  refine List.mem_append_right _ (List.mem_filterMap.mpr ⟨x, (mem_tasks h).mpr hx, ?_⟩)
  rw [hd]
  rfl

/-- Everybody is online. -/
structure Attended (w : Watch R) : Prop where
  users : ∀ i u, w.table.m_tableUserMap i = some u → online w.closed u.m_socketfd = true
  logins : ∀ x d, Has w.table x → x.login = some d → online w.closed d.socketfd = true
  tasks : ∀ x, Has w.table x → x.offline = false
  kept : ∀ object ∈ w.seated, object ∈ w.quit ∨ ∃ i u, w.table.m_tableUserMap i = some u ∧ u.object = object

structure Watched (r : Room) (w : Watch R) : Prop where
  seated : Seated r w.table
  unborn : Unborn w.table
  coin : Coin w.table
  attended : (∃ x, Has w.table x ∧ x.settlement = true) → Attended w

theorem online_pos {closed : List Int} {socketfd : Int} (h : online closed socketfd = true) : 0 < socketfd := by
  simp only [online, Bool.and_eq_true, decide_eq_true_eq] at h
  exact h.1

theorem quit_quitOf {quit : List Nat} {object : Nat} (e : Event R) (h : object ∈ quit) : object ∈ quitOf t quit e := by
  cases e with
  | resume id ans =>
    simp only [quitOf]
    split
    · exact List.mem_cons_of_mem _ h
    · exact h
  | _ => exact h

theorem coin_of_moved (hcoin : r.isBattleRoom = false) (hc : Coin t) {e : Event R} {msg : Option Msg}
    (h : Moved r g t e t' msg) : Coin t' := by
  intro y hy
  rcases has_of_moved h hy with hy | hy
  · exact hc y hy
  · exact (newly_of_begun hcoin hc hy).dismissing

/-- When the round stops, or while it is settled. -/
theorem attended_before {w : Watch R} (hw : Watched r w) {e : Event R} (hcalm : Calm r w (.table e) = true)
    (hwhen : e = .stopRound ∨ ∃ x, Has w.table x ∧ x.settlement = true) :
    Attended { w with seated := seatedOf r w.table w.seated e } := by
  by_cases he : e = .stopRound
  · subst he
    simp only [Calm, Bool.and_eq_true, List.all_eq_true, Bool.not_eq_true', List.any_eq_false] at hcalm
    refine ⟨?_, ?_, ?_, ?_⟩
    · exact fun i u hu => hcalm.1 _ (connections_user hw.seated.seating hu)
    · exact fun x d hx hd => hcalm.1 _ (connections_login hw.unborn hx hd)
    · intro x hx
      have hnot := hcalm.2 x ((mem_tasks hw.unborn).mpr hx)
      simpa using hnot
    · intro object hobject
      obtain ⟨i, -, hi⟩ := List.mem_filterMap.mp hobject
      obtain ⟨u, hu, rfl⟩ := Option.map_eq_some_iff.mp hi
      exact .inr ⟨i, u, hu, rfl⟩
  · have hseated : seatedOf r w.table w.seated e = w.seated := by
      cases e <;> first | rfl | exact absurd rfl he
    rw [hseated]
    exact hw.attended (hwhen.resolve_left he)

theorem attended_of_moved (hcoin : r.isBattleRoom = false) {w : Watch R} (hw : Watched r w) {e : Event R}
    {msg : Option Msg} (h : Moved r g w.table e t' msg) (hcalm : Calm r w (.table e) = true)
    (hwhen : e = .stopRound ∨ ∃ x, Has w.table x ∧ x.settlement = true) :
    Attended ⟨t', w.closed, seatedOf r w.table w.seated e, quitOf w.table w.quit e⟩ := by
  obtain ⟨husers, hlogins, htasks, hkept⟩ := attended_before hw hcalm hwhen
  have hsettling : e ≠ .stopRound → settling w.table = true := fun he =>
    (settling_iff hw.unborn).mpr (hwhen.resolve_left he)
  refine ⟨?_, ?_, ?_, ?_⟩
  · intro i v hv
    rcases came_of_moved h hv with ⟨u, hu, -, -, hsame | ⟨id, ans, d, rest, -, -, hx, -, -, hd⟩⟩ |
      ⟨-, -, id, ans, x, d, rest, -, hx, hlogin, -, hd⟩
    · rw [hsame]; exact husers i u hu
    · rw [hd]; exact hlogins _ d (has_head hx) rfl
    · rw [hd]; exact hlogins x d (has_head hx) hlogin
  · intro y d hy hd
    rcases has_of_moved h hy with hy | hy
    · exact hlogins y d hy hd
    · rcases (newly_of_begun hcoin hw.coin hy).login d hd with rfl | ⟨x, d', hx, hd', hsame⟩
      · simpa [Calm, hsettling nofun] using hcalm
      · rw [hsame]; exact hlogins x d' hx hd'
  · intro y hy
    rcases has_of_moved h hy with hy | hy
    · exact htasks y hy
    · by_contra hoffline
      rcases (newly_of_begun hcoin hw.coin hy).offline (Bool.of_not_eq_false hoffline) with ⟨i, u, hu, hle⟩ |
        ⟨x, hx, hyes⟩ | ⟨userId, socketfd, rfl, hfind⟩
      · exact absurd (online_pos (husers i u hu)) (Int.not_lt.mpr hle)
      · rw [htasks x hx] at hyes
        cases hyes
      · simp only [Calm, hsettling nofun, Bool.not_true, Bool.false_or, Option.isNone_iff_eq_none] at hcalm
        exact hfind hcalm
  · intro object hobject
    rcases hkept object hobject with hquit | ⟨i, u, hu, rfl⟩
    · exact .inl (quit_quitOf e hquit)
    · rcases stays_of_moved h hu with ⟨v, hv, hsame, -⟩ | ⟨id, ans, rest, rfl, ⟨asked, hx⟩ | hx⟩
      · exact .inr ⟨i, v, hv, hsame⟩
      · have hasked : asked = true := by
          have hoffline := htasks _ (has_head hx)
          cases asked with
          | true => rfl
          | false => cases hoffline
        subst hasked
        refine .inl ?_
        simp only [quitOf, hx]
        exact List.mem_cons_self ..
      · have hdis := hw.coin _ (has_head hx)
        cases hdis

theorem watched_of_table (hcoin : r.isBattleRoom = false) {w : Watch R} (hw : Watched r w) {e : Event R}
    {msg : Option Msg} (hstep : tableStep r g w.table e = some t') (h : Moved r g w.table e t' msg)
    (hcalm : Calm r w (.table e) = true) :
    Watched r ⟨t', w.closed, seatedOf r w.table w.seated e, quitOf w.table w.quit e⟩ := by
  refine ⟨seated_of_step hw.seated hstep, unborn_of_moved hw.unborn h, coin_of_moved hcoin hw.coin h, ?_⟩
  rintro ⟨y, hy, hsettlement⟩
  refine attended_of_moved hcoin hw h hcalm ?_
  rcases has_of_moved h hy with hy | hy
  · exact .inr ⟨y, hy, hsettlement⟩
  · exact (newly_of_begun hcoin hw.coin hy).settlement hsettlement

theorem watched_of_close {w : Watch R} (hw : Watched r w) {socketfd : Int}
    (hcalm : Calm r w (.close socketfd) = true) : Watched r { w with closed := socketfd :: w.closed } := by
  refine ⟨hw.seated, hw.unborn, hw.coin, ?_⟩
  intro hwhen
  obtain ⟨husers, hlogins, htasks, hkept⟩ := hw.attended hwhen
  have hother : ∀ fd ∈ connections r w.table, fd ≠ socketfd := by
    rintro fd hfd rfl
    simp [Calm, (settling_iff hw.unborn).mpr hwhen, hfd] at hcalm
  have hopen : ∀ fd ∈ connections r w.table, online w.closed fd = true → online (socketfd :: w.closed) fd = true := by
    intro fd hfd hyes
    simp only [online, Bool.and_eq_true, decide_eq_true_eq, Bool.not_eq_true', List.contains_cons, Bool.or_eq_false_iff]
      at hyes ⊢
    exact ⟨hyes.1, by simpa using hother fd hfd, hyes.2⟩
  refine ⟨?_, ?_, htasks, hkept⟩
  · exact fun i u hu => hopen _ (connections_user hw.seated.seating hu) (husers i u hu)
  · exact fun x d hx hd => hopen _ (connections_login hw.unborn hx hd) (hlogins x d hx hd)

theorem watched_of_step (hcoin : r.isBattleRoom = false) {w w' : Watch R} {l : Happening R} (hw : Watched r w)
    (hcalm : Calm r w l = true) (h : watchStep r g w l = some w') : Watched r w' := by
  cases l with
  | close socketfd =>
    cases h
    exact watched_of_close hw hcalm
  | table e =>
    simp only [watchStep] at h
    split at h
    · obtain ⟨t', hstep, rfl⟩ := Option.map_eq_some_iff.mp h
      obtain ⟨msg, hmoved⟩ := moved_of_tableStep hstep
      exact watched_of_table hcoin hw hstep hmoved hcalm
    · cases h

theorem watched_initial (r : Room) (round : R) : Watched r (watchInitial round) where
  seated := seated_initial round
  unborn _ _ := rfl
  coin _ hy := nomatch hy.choose_spec
  attended := fun ⟨_, ⟨_, hx⟩, _⟩ => nomatch hx

/-- When `onGameStopRound` ends, nobody is offline at the table, and everybody is who sat there when the round stopped
and has not left: in every run in which nobody is offline when a round stops, and no connection closes until its
settlement has ended. -/
theorem offline_swept (r : Room) (g : Game R) (hcoin : r.isBattleRoom = false) {round : R} {ls : List (Happening R)}
    {l : Happening R} {w w' : Watch R} (h : Lts.run (watchStep r g) (watchInitial round) ls = some w)
    (hcalm : Lts.Guarded (watchStep r g) (fun w l => Calm r w l = true) (watchInitial round) ls)
    (hl : Calm r w l = true) (hstep : watchStep r g w l = some w') (hend : w'.table.settled ≠ w.table.settled) :
    Swept w' := by
  have hw : Watched r w := Lts.run_invariant_of_guarded
    (fun _ _ _ hw hl hstep => watched_of_step hcoin hw hl hstep) h hcalm (watched_initial r round)
  cases l with
  | close socketfd =>
    cases hstep
    exact absurd rfl hend
  | table e =>
    simp only [watchStep] at hstep
    split at hstep
    · obtain ⟨t', htable, rfl⟩ := Option.map_eq_some_iff.mp hstep
      obtain ⟨msg, hmoved⟩ := moved_of_tableStep htable
      obtain ⟨husers, -, -, hkept⟩ := attended_of_moved hcoin hw hmoved hl (settled_of_moved hmoved hend)
      exact ⟨husers, hkept⟩
    · cases hstep

/-! ### A round of two -/

/-- The users 5 and 6 log in at the connections 3 and 4, and play. -/
def playing : List (Happening Unit) :=
  (List.flatten [[.login (guest 5 3)], calls 0 6, [.login (guest 6 4)], calls 1 6, [.receive 5 3 .ready, .serve,
    .receive 6 4 .ready, .serve], calls 3 1]).map .table

/-- The last step of a settlement, in this state, ends it. -/
def endsWith (l : Happening Unit) (w : Watch Unit) : Bool :=
  Calm coinRoom w l && (watchStep coinRoom idleGame w l).any fun w' =>
    w'.table.settled != w.table.settled && w'.seated == [0, 1]

theorem offline_swept_playing :
    ∃ w w', Lts.run (watchStep coinRoom idleGame) (watchInitial ())
        (playing ++ ([.table .stopRound, .table (.resume 4 fine)] : List (Happening Unit))) = some w ∧
      watchStep coinRoom idleGame w (.table (.resume 4 fine)) = some w' ∧ w'.seated = [0, 1] ∧ Swept w' := by
  have hcheck : Lts.check (watchStep coinRoom idleGame) (Calm coinRoom) (endsWith (.table (.resume 4 fine)))
      (watchInitial ()) (playing ++ ([.table .stopRound, .table (.resume 4 fine)] : List (Happening Unit))) = true := by decide +kernel
  obtain ⟨w, hrun, hcalm, hlast⟩ := Lts.of_check (fun _ _ h => h) hcheck
  simp only [endsWith, Bool.and_eq_true, Option.any_eq_true, bne_iff_ne, beq_iff_eq] at hlast
  obtain ⟨hl, w', hstep, hend, hseated⟩ := hlast
  exact ⟨w, w', hrun, hstep, hseated, offline_swept coinRoom idleGame rfl hrun hcalm hl hstep hend⟩

/-- The connection 3 closes in the middle of the round, and the table hears of it: the settlement ends, and the user 5
still sits at the table, without a connection. -/
theorem offline_stays :
    ∃ w w', Lts.run (watchStep coinRoom idleGame) (watchInitial ())
        (playing ++ ([.close 3, .table (.disconnect 5 3), .table (.resume 4 fine), .table .stopRound,
          .table (.resume 5 fine)] : List (Happening Unit))) = some w ∧
      watchStep coinRoom idleGame w (.table (.resume 5 fine)) = some w' ∧ w'.table.settled = w.table.settled + 1 ∧
      w'.closed = [3] ∧ w'.table.m_tableUserMap 1 = some ⟨0, 5, 1, 3, 0, false, false⟩ ∧ ¬Swept w' := by
  have hrun : Lts.run (watchStep coinRoom idleGame) (watchInitial ())
      (playing ++ ([.close 3, .table (.disconnect 5 3), .table (.resume 4 fine), .table .stopRound,
        .table (.resume 5 fine)] : List (Happening Unit))) = some _ := rfl
  refine ⟨_, _, hrun, rfl, rfl, rfl, rfl, ?_⟩
  intro h
  exact absurd (h.offline 1 _ rfl) (by decide)

end Hall
end Skynet
