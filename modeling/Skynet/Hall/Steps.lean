import Skynet.Hall.Table

/-!
# Skynet.Hall.Steps

What the coroutines of a table do, said once: how a login goes on (`Entry`), which users the other tasks leave at
their seats (`Kept`), and which tasks they bring (`Brings`).

* `entry_of_perform` : the tasks of a login.
* `kept_of_perform` : the other tasks keep the users, unless a user is removed or the table is reset.
* `mem_dismiss`, `mem_logout` : the work of a dismissal and of a logout.
* `exits_of_perform`, `brings_of_perform` : the work that a task leaves.
-/

namespace Skynet
namespace Hall

variable {R : Type} {r : Room} {g : Game R}

/-! ### Seats -/

theorem mem_seats {i : Nat} : i ∈ r.seats ↔ 1 ≤ i ∧ i ≤ r.iMaxUserCount := by
  rw [Room.seats, List.mem_range'_1]
  omega

theorem find_none {t : Table R} {userId : Int} :
    t.find r userId = none ↔ ∀ i ∈ r.seats, ∀ u, t.m_tableUserMap i = some u → u.m_userId ≠ userId := by
  simp only [Table.find, List.findSome?_eq_none_iff]
  refine forall₂_congr fun i _ => ?_
  cases t.m_tableUserMap i with
  | none => simp
  | some u => simp [Option.filter_eq_none_iff]

theorem find_some {t : Table R} {userId : Int} {u : User} (h : t.find r userId = some u) :
    ∃ i ∈ r.seats, t.m_tableUserMap i = some u ∧ u.m_userId = userId := by
  obtain ⟨i, hi, hfilter⟩ := List.exists_of_findSome?_eq_some h
  rw [Option.filter_eq_some_iff] at hfilter
  exact ⟨i, hi, hfilter.1, beq_iff_eq.mp hfilter.2⟩

theorem autoSeat_some {t : Table R} {seat : Nat} (h : t.autoSeat r = some seat) :
    seat ∈ r.seats ∧ t.m_tableUserMap seat = none := by
  have hnone := List.find?_some h
  exact ⟨List.mem_of_find?_eq_some h, Option.isNone_iff_eq_none.mp hnone⟩

/-! ### A login -/

def Task.login : Task → Option Login
  | .checkDiamond d | .checkMTkey d | .checkDisconnect d | .checkUserInfo d | .charge d _ | .charged d _ => some d
  | _ => none

/-- The user of a login that waits for the diamond server. -/
def Task.paying : Task → Option Int
  | .charge d _ | .charged d _ => some d.iUserId
  | _ => none

/-- The checks are over, and `t₁` is the table with its fee. -/
def Accepted (r : Room) (t : Table R) (x : Task) (d : Login) (t₁ : Table R) : Prop :=
  (∃ d₀ iMoney, x = .checkUserInfo d₀ ∧ d = { d₀ with iMoney := iMoney } ∧ t.find r d.iUserId = none ∧
    onCheckUserBattlePay r t d = .yes ∧ t₁ = t) ∨
  (x = .charged d true ∧ t₁ = { t with m_battleFeePaid := true })

/-- A task of a login, the table after it, and the new work. -/
inductive Entry (r : Room) (t : Table R) (id : Nat) : Task → Table R → List Task → Prop
  | next {x y : Task} {d d' : Login} : x.login = some d → y.login = some d' →
      d'.iUserId = d.iUserId ∧ d'.socketfd = d.socketfd → x.paying = none → y.paying = none → Entry r t id x t [y]
  | failed {x : Task} {d : Login} {status : LoginStatus} : x.login = some d → (∀ d, x ≠ .charged d true) →
      status.isError = true → Entry r t id x (t.answer id status) [.answered d.iUserId]
  | full {x : Task} {d : Login} {t₁ : Table R} : Accepted r t x d t₁ → t.autoSeat r = none →
      Entry r t id x (t₁.answer id .errorMysql) [.done]
  | entered {x : Task} {d : Login} {t₁ : Table R} {seat : Nat} : Accepted r t x d t₁ → t.autoSeat r = some seat →
      Entry r t id x ((t₁.answer id .successNewconnect).addNewUser seat d)
        [.report t.objects, .reported t.objects, .enter t.objects d.iUserId d.socketfd]
  | absent {d : Login} : t.find r d.iUserId = none →
      Entry r t id (.checkDisconnect d) (t.answer id .successReconnect) []
  | unsent {d : Login} {u : User} : t.find r d.iUserId = some u →
      Entry r t id (.checkDisconnect d)
        ((t.answer id .successReconnect).modify u.object fun u => { u with m_socketfd := d.socketfd }) []
  | reconnected {d : Login} {u : User} : t.find r d.iUserId = some u →
      Entry r t id (.checkDisconnect d)
        ((t.answer id .successReconnect).modify u.object fun u => { u with m_socketfd := d.socketfd, m_isOnline := true })
        [.rebind d.iUserId d.socketfd]
  | toCharge {d₀ d : Login} {iMoney : Int} {pDiamond : Nat} : d = { d₀ with iMoney := iMoney } →
      t.find r d.iUserId = none → onCheckUserBattlePay r t d = .charge pDiamond →
      Entry r t id (.checkUserInfo d₀) t [.charge d pDiamond]
  | charge {d : Login} {pDiamond : Nat} {ok : Bool} :
      Entry r t id (.charge d pDiamond)
        { t with charges := if ok then t.charges ++ [(t.creations, pDiamond)] else t.charges } [.charged d ok]

theorem entry_accepted {t t₁ : Table R} {id : Nat} {x : Task} {d : Login} (h : Accepted r t x d t₁) :
    Entry r t id x (onDealUserLoginTableSuccess r t₁ id d).1 (onDealUserLoginTableSuccess r t₁ id d).2 := by
  have hseat : t₁.autoSeat r = t.autoSeat r ∧ t₁.objects = t.objects := by
    rcases h with ⟨-, -, -, -, -, -, rfl⟩ | ⟨-, rfl⟩ <;> exact ⟨rfl, rfl⟩
  simp only [onDealUserLoginTableSuccess, hseat.1, hseat.2]
  cases hs : t.autoSeat r with
  | none => exact .full h hs
  | some seat => exact .entered h hs

theorem entry_checkUserInfo (t : Table R) (id : Nat) (d : Login) (iMoney : Option Int) :
    Entry r t id (.checkUserInfo d) (checkUserInfo r t id d iMoney).1 (checkUserInfo r t id d iMoney).2 := by
  cases iMoney with
  | none => exact .failed rfl (by simp) rfl
  | some iMoney =>
    simp only [checkUserInfo]
    split
    · exact .failed (d := d) rfl (by simp) rfl
    · rename_i hfind
      have hnone : t.find r ({ d with iMoney := iMoney } : Login).iUserId = none := by simpa using hfind
      split
      · exact .failed (d := d) rfl (by simp) rfl
      · split
        · exact .failed (d := d) rfl (by simp) rfl
        · cases hpay : onCheckUserBattlePay r t { d with iMoney := iMoney } with
          | yes => exact entry_accepted (.inl ⟨d, iMoney, rfl, rfl, hnone, hpay, rfl⟩)
          | no => exact .failed (d := d) rfl (by simp) rfl
          | charge pDiamond => exact .toCharge rfl hnone hpay

/-- A task of a login sends nothing, and goes on as `Entry` says. -/
theorem entry_of_perform {t t' : Table R} {id : Nat} {ans : Answer} {rest work : List Task} {x : Task}
    {msg : Option Msg} (hx : x.login ≠ none) (h : perform r g t id ans rest x = (t', work, msg)) :
    msg = none ∧ ∃ new, work = new ++ rest ∧ Entry r t id x t' new := by
  cases x with
  | checkDiamond d =>
    simp only [perform] at h
    split at h
    · cases h
      exact ⟨rfl, [_], rfl, .next rfl rfl ⟨rfl, rfl⟩ rfl rfl⟩
    · cases h
      exact ⟨rfl, _, rfl, .failed rfl (by simp) rfl⟩
  | checkMTkey d =>
    simp only [perform] at h
    split at h
    · cases h
      exact ⟨rfl, _, rfl, .failed rfl (by simp) rfl⟩
    · split at h
      · split at h
        · cases h
          exact ⟨rfl, [_], rfl, .next rfl rfl ⟨rfl, rfl⟩ rfl rfl⟩
        · cases h
          exact ⟨rfl, _, rfl, .failed rfl (by simp) rfl⟩
      · cases h
        exact ⟨rfl, [_], rfl, .next rfl rfl ⟨rfl, rfl⟩ rfl rfl⟩
  | checkDisconnect d =>
    simp only [perform] at h
    split at h
    · simp only [onDealUserReconnectTableSuccess] at h
      cases hu : t.find r d.iUserId with
      | none =>
        rw [hu] at h
        cases h
        exact ⟨rfl, [], rfl, .absent hu⟩
      | some u =>
        simp only [hu] at h
        split at h
        · cases h
          exact ⟨rfl, [], rfl, .unsent hu⟩
        · cases h
          exact ⟨rfl, _, rfl, .reconnected hu⟩
    · cases h
      exact ⟨rfl, [_], rfl, .next rfl rfl ⟨rfl, rfl⟩ rfl rfl⟩
  | checkUserInfo d =>
    simp only [perform] at h
    cases h
    exact ⟨rfl, _, rfl, entry_checkUserInfo t id d ans.iMoney⟩
  | charge d pDiamond =>
    simp only [perform] at h
    cases h
    exact ⟨rfl, [_], rfl, .charge⟩
  | charged d ok =>
    simp only [perform] at h
    cases ok with
    | true =>
      cases h
      exact ⟨rfl, _, rfl, entry_accepted (.inr ⟨rfl, rfl⟩)⟩
    | false =>
      cases h
      exact ⟨rfl, _, rfl, .failed rfl (by simp) rfl⟩
  | _ => exact absurd rfl hx

/-! ### The users -/

/-- A user without the flags. -/
def User.fixed (u : User) : User := { u with m_ready := 0, m_isOnline := false }

theorem fixed_eq {u v : User} (h : v.fixed = u.fixed) : v.object = u.object ∧ v.m_userId = u.m_userId ∧
    v.m_seatId = u.m_seatId ∧ v.m_socketfd = u.m_socketfd ∧ v.isRobot = u.isRobot := by
  simp only [User.fixed, User.mk.injEq] at h
  exact ⟨h.1, h.2.1, h.2.2.1, h.2.2.2.1, h.2.2.2.2.2.1⟩

/-- The same users sit at the same seats. -/
structure Kept (t t' : Table R) : Prop where
  users : ∀ i, (t'.m_tableUserMap i).map User.fixed = (t.m_tableUserMap i).map User.fixed
  objects : t'.objects = t.objects

theorem Kept.refl (t : Table R) : Kept t t := ⟨fun _ => rfl, rfl⟩

theorem Kept.trans {t t' t'' : Table R} (h : Kept t t') (h' : Kept t' t'') : Kept t t'' :=
  ⟨fun i => (h'.users i).trans (h.users i), h'.objects.trans h.objects⟩

theorem kept_of_eq {t t' : Table R} (h : t'.m_tableUserMap = t.m_tableUserMap) (ho : t'.objects = t.objects) :
    Kept t t' := ⟨fun i => by rw [h], ho⟩

theorem Kept.user {t t' : Table R} (h : Kept t t') {i : Nat} {v : User} (hv : t'.m_tableUserMap i = some v) :
    ∃ u, t.m_tableUserMap i = some u ∧ v.fixed = u.fixed := by
  have hi := h.users i
  rw [hv, Option.map_some, eq_comm, Option.map_eq_some_iff] at hi
  obtain ⟨u, hu, hfixed⟩ := hi
  exact ⟨u, hu, hfixed.symm⟩

theorem kept_modify (t : Table R) (object : Nat) {f : User → User} (hf : ∀ u, (f u).fixed = u.fixed) :
    Kept t (t.modify object f) := by
  refine ⟨?_, rfl⟩
  intro i
  simp only [Table.modify, Option.map_map]
  congr 1
  funext u
  simp only [Function.comp_apply]
  split
  · exact hf u
  · rfl

theorem kept_startGame (t : Table R) : Kept t (onCheckGameTableStartGame r g t).1 := by
  simp only [onCheckGameTableStartGame]
  split
  · exact .refl t
  · split
    · exact kept_of_eq rfl rfl
    · exact .refl t

theorem kept_ready (t : Table R) (userId : Int) : Kept t (onClientCmdReady r g t userId).1 := by
  simp only [onClientCmdReady]
  split
  · exact .refl t
  · rename_i u _
    have hmodify : Kept t (t.modify u.object fun u => { u with m_ready := 1 }) := kept_modify t _ fun _ => rfl
    exact hmodify.trans (kept_startGame _)

theorem kept_sweep (t : Table R) (is : List Nat) : Kept t (sweep r g t is).1 := by
  induction is generalizing t with
  | nil => exact kept_of_eq rfl rfl
  | cons i is ih =>
    simp only [sweep]
    split
    · exact .refl t
    · rename_i u _
      have hmodify : Kept t (t.modify u.object fun u => { u with m_ready := 0 }) := kept_modify t _ fun _ => rfl
      split
      · split
        · exact hmodify.trans (ih _)
        · exact hmodify
      · exact hmodify.trans (ih _)

theorem kept_pay (t : Table R) (is : List Nat) : Kept t (pay r g t is).1 := by
  induction is generalizing t with
  | nil => exact kept_sweep t _
  | cons i is ih =>
    simp only [pay]
    split
    · exact ih t
    · split
      · exact ih t
      · exact .refl t

theorem kept_stop (t : Table R) : Kept t (onGameStopRound r g t).1 := by
  simp only [onGameStopRound]
  split
  · obtain ⟨hu, ho⟩ := kept_pay (r := r) (g := g)
      { t with phase := .stopped, stops := t.stops + 1, m_tableStatus := .gameStop } r.seats
    exact ⟨hu, ho⟩
  · split
    · exact kept_of_eq rfl rfl
    · exact kept_of_eq rfl rfl

theorem kept_disconnected (t : Table R) (object : Nat) (userId : Int) :
    Kept t (disconnected r t object userId).1 := by
  simp only [disconnected]
  split <;> exact kept_modify t _ fun _ => rfl

/-- A task that is not one of a login keeps the users, or it removes one, or it resets the table. -/
theorem kept_of_perform {t t' : Table R} {id : Nat} {ans : Answer} {rest work : List Task} {x : Task}
    {msg : Option Msg} (hx : x.login = none) (hremoved : ∀ object asked, x ≠ .removed object asked)
    (hreset : x ≠ .reset) (h : perform r g t id ans rest x = (t', work, msg)) : Kept t t' := by
  cases x with
  | checkDiamond | checkMTkey | checkDisconnect | checkUserInfo | charge | charged => cases hx
  | removed object asked => exact absurd rfl (hremoved object asked)
  | reset => exact absurd rfl hreset
  | report object => cases h; exact kept_modify t _ fun _ => rfl
  | reported object =>
    simp only [perform] at h
    split at h <;> cases h <;> exact .refl t
  | enter object userId socketfd =>
    simp only [perform] at h
    split at h <;> cases h
    · exact kept_startGame t
    · exact .refl t
  | disconnected object userId => cases h; exact kept_disconnected t object userId
  | pay is => cases h; exact kept_pay t is
  | sweep is => cases h; exact kept_sweep t is
  | refund => cases h; exact kept_of_eq rfl rfl
  | rebind | answered | kick | leave | left | created | done => cases h; exact .refl t

/-! ### The tasks of a dismissal and of a logout -/

theorem mem_logoutSuccess {t : Table R} {userId : Int} {asked : Bool} {x : Task}
    (h : x ∈ onDealUserLogoutTableSuccess r t userId asked) :
    ∃ u, t.find r userId = some u ∧ x = .leave u.object u.m_userId asked := by
  simp only [onDealUserLogoutTableSuccess] at h
  split at h
  · cases h
  · rename_i u hu
    exact ⟨u, hu, List.mem_singleton.mp h⟩

theorem mem_kick {t : Table R} {is : List Nat} {x : Task} (h : x ∈ kick r t is) :
    x = .reset ∨ x = .done ∨ (∃ is, x = .kick is) ∨
      ∃ userId u, t.find r userId = some u ∧ x = .leave u.object u.m_userId false := by
  induction is with
  | nil =>
    simp only [kick, List.mem_cons, List.not_mem_nil, or_false] at h
    rcases h with h | h
    · exact .inl h
    · exact .inr (.inl h)
  | cons i is ih =>
    simp only [kick] at h
    split at h
    · exact ih h
    · rename_i u _
      split at h
      · exact ih h
      · rcases List.mem_append.mp h with hx | hx
        · obtain ⟨v, hv, hx⟩ := mem_logoutSuccess hx
          exact .inr (.inr (.inr ⟨u.m_userId, v, hv, hx⟩))
        · exact .inr (.inr (.inl ⟨is, List.mem_singleton.mp hx⟩))

theorem mem_dismiss {t : Table R} {x : Task} (h : x ∈ onDismissBattleRoom r t) :
    x = .refund (onGetBattlePayNum r t) ∧ refunds r t = true ∨ x = .reset ∨ x = .done ∨ (∃ is, x = .kick is) ∨
      ∃ userId u, t.find r userId = some u ∧ x = .leave u.object u.m_userId false := by
  simp only [onDismissBattleRoom] at h
  split at h
  · split at h
    · rename_i hrefunds
      simp only [List.mem_cons, List.not_mem_nil, or_false] at h
      rcases h with h | h
      · exact .inl ⟨h, hrefunds⟩
      · exact .inr (.inr (.inr (.inl ⟨_, h⟩)))
    · exact .inr (mem_kick h)
  · cases h

/-- A logout is that of the user, or a dismissal. -/
theorem mem_logout {t : Table R} {userId iLeave : Int} {asked : Bool} {x : Task}
    (h : x ∈ onClientCmdLogout r t userId iLeave asked) :
    x = .done ∨ x = .left ∨ (∃ u, t.find r userId = some u ∧ x = .leave u.object u.m_userId asked) ∨
      isBattleOwner r t userId = true ∧ x ∈ onDismissBattleRoom r t := by
  simp only [onClientCmdLogout] at h
  split at h
  · cases h
  · split at h
    · split at h
      · rename_i howner
        split at h
        · rcases List.mem_append.mp h with hx | hx
          · exact .inr (.inr (.inl (mem_logoutSuccess hx)))
          · exact .inl (List.mem_singleton.mp hx)
        · exact .inr (.inr (.inr ⟨howner, h⟩))
      · split at h
        · rcases List.mem_append.mp h with hx | hx
          · exact .inr (.inr (.inl (mem_logoutSuccess hx)))
          · exact .inr (.inl (List.mem_singleton.mp hx))
        · rcases List.mem_append.mp h with hx | hx
          · exact .inr (.inr (.inl (mem_logoutSuccess hx)))
          · exact .inl (List.mem_singleton.mp hx)
    · cases h

/-- The tasks of a dismissal. -/
def Task.dismissing : Task → Bool
  | .refund _ | .kick _ | .reset => true
  | _ => false

/-- The tasks of `onDisconnect`, and of the logout that it makes. -/
def Task.offline : Task → Bool
  | .disconnected .. | .leave _ _ false | .removed _ false => true
  | _ => false

/-- The tasks of a settlement. -/
def Task.settlement : Task → Bool
  | .pay _ | .sweep _ => true
  | _ => false

/-- The tasks of the functions that take users from the table, and of a settlement. -/
def Task.exits : Task → Bool
  | .refund _ | .kick _ | .reset | .leave .. | .removed .. | .left | .disconnected .. | .pay _ | .sweep _ | .done =>
    true
  | _ => false

theorem exits_dismiss {t : Table R} : ∀ x ∈ onDismissBattleRoom r t, x.exits = true := by
  intro x hx
  rcases mem_dismiss hx with ⟨rfl, -⟩ | rfl | rfl | ⟨_, rfl⟩ | ⟨_, _, -, rfl⟩ <;> rfl

theorem exits_logout {t : Table R} {userId iLeave : Int} {asked : Bool} :
    ∀ x ∈ onClientCmdLogout r t userId iLeave asked, x.exits = true := by
  intro x hx
  rcases mem_logout hx with rfl | rfl | ⟨_, -, rfl⟩ | ⟨-, hx⟩
  · rfl
  · rfl
  · rfl
  · exact exits_dismiss x hx

theorem exits_kick {t : Table R} {is : List Nat} : ∀ x ∈ kick r t is, x.exits = true := by
  intro x hx
  rcases mem_kick hx with rfl | rfl | ⟨_, rfl⟩ | ⟨_, _, -, rfl⟩ <;> rfl

/-- The tasks of a settlement, and of the start of a round. -/
def Task.settling : Task → Bool
  | .disconnected .. | .pay _ | .sweep _ | .done => true
  | _ => false

theorem exits_of_settling {x : Task} (h : x.settling = true) : x.exits = true := by
  cases x <;> first | rfl | cases h

theorem done_startGame {t : Table R} : ∀ x ∈ (onCheckGameTableStartGame r g t).2, x = .done := by
  intro x hx
  simp only [onCheckGameTableStartGame] at hx
  split at hx
  · cases hx
  · split at hx
    · exact List.mem_singleton.mp hx
    · cases hx

theorem done_ready {t : Table R} {userId : Int} : ∀ x ∈ (onClientCmdReady r g t userId).2, x = .done := by
  intro x hx
  simp only [onClientCmdReady] at hx
  split at hx
  · cases hx
  · exact done_startGame x hx

theorem settling_startGame {t : Table R} : ∀ x ∈ (onCheckGameTableStartGame r g t).2, x.settling = true := by
  intro x hx
  rw [done_startGame x hx]
  rfl

theorem settling_ready {t : Table R} {userId : Int} : ∀ x ∈ (onClientCmdReady r g t userId).2, x.settling = true := by
  intro x hx
  rw [done_ready x hx]
  rfl

theorem settling_sweep {t : Table R} {is : List Nat} : ∀ x ∈ (sweep r g t is).2, x.settling = true := by
  induction is generalizing t with
  | nil => exact fun x hx => absurd hx List.not_mem_nil
  | cons i is ih =>
    intro x hx
    simp only [sweep] at hx
    split at hx
    · cases hx
    · split at hx
      · split at hx
        · exact ih x hx
        · simp only [List.mem_cons, List.not_mem_nil, or_false] at hx
          rcases hx with rfl | rfl <;> rfl
      · exact ih x hx

theorem settling_pay {t : Table R} {is : List Nat} : ∀ x ∈ (pay r g t is).2, x.settling = true := by
  induction is generalizing t with
  | nil => exact settling_sweep
  | cons i is ih =>
    intro x hx
    simp only [pay] at hx
    split at hx
    · exact ih x hx
    · split at hx
      · exact ih x hx
      · rw [List.mem_singleton.mp hx]; rfl

theorem settling_stop {t : Table R} : ∀ x ∈ (onGameStopRound r g t).2, x.settling = true := by
  intro x hx
  simp only [onGameStopRound] at hx
  split at hx
  · exact settling_pay x hx
  · split at hx <;> cases hx

theorem exits_disconnected {t : Table R} {object : Nat} {userId : Int} :
    ∀ x ∈ (disconnected r t object userId).2, x.exits = true := by
  intro x hx
  simp only [disconnected] at hx
  split at hx
  · exact exits_logout x hx
  · cases hx

/-- The work of a task that is not one of a login: it ends the coroutine, or the rest stays behind what is new. -/
theorem exits_of_perform {t t' : Table R} {id : Nat} {ans : Answer} {rest work : List Task} {x : Task}
    {msg : Option Msg} (hx : x.login = none) (h : perform r g t id ans rest x = (t', work, msg)) :
    work = [] ∨ ∃ new, work = new ++ rest ∧ ∀ y ∈ new, y.exits = true := by
  have hnil : ∀ y ∈ ([] : List Task), y.exits = true := fun y hy => absurd hy List.not_mem_nil
  cases x with
  | checkDiamond | checkMTkey | checkDisconnect | checkUserInfo | charge | charged => cases hx
  | reported object =>
    simp only [perform] at h
    split at h <;> cases h
    · exact .inl rfl
    · exact .inr ⟨[], rfl, hnil⟩
  | enter object userId socketfd =>
    simp only [perform] at h
    split at h <;> cases h
    · exact .inr ⟨_, rfl, fun y hy => exits_of_settling (settling_startGame y hy)⟩
    · exact .inr ⟨[], rfl, hnil⟩
  | answered userId =>
    simp only [perform] at h
    split at h <;> cases h
    · exact .inr ⟨_, rfl, exits_dismiss⟩
    · exact .inr ⟨[], rfl, hnil⟩
  | left =>
    simp only [perform] at h
    split at h <;> cases h
    · exact .inr ⟨_, rfl, exits_dismiss⟩
    · exact .inr ⟨[], rfl, hnil⟩
  | kick is => cases h; exact .inr ⟨_, rfl, exits_kick⟩
  | leave object userId asked => cases h; exact .inr ⟨[.removed object asked], rfl, by simp [Task.exits]⟩
  | disconnected object userId => cases h; exact .inr ⟨_, rfl, exits_disconnected⟩
  | pay is => cases h; exact .inr ⟨_, rfl, fun y hy => exits_of_settling (settling_pay y hy)⟩
  | sweep is => cases h; exact .inr ⟨_, rfl, fun y hy => exits_of_settling (settling_sweep y hy)⟩
  | report | rebind | refund | reset | removed | created | done => cases h; exact .inr ⟨[], rfl, hnil⟩

/-! ### What a task brings -/

/-- A user without a connection. -/
def Unconnected (t : Table R) : Prop := ∃ i u, t.m_tableUserMap i = some u ∧ u.m_socketfd ≤ 0

/-- Where every connection is one, the loop takes nobody from the table. -/
theorem sweep_plain {t : Table R} {is : List Nat} (h : ¬Unconnected t) : (sweep r g t is).2 = [] := by
  induction is generalizing t with
  | nil => rfl
  | cons i is ih =>
    simp only [sweep]
    split
    · rfl
    · rename_i u hu
      have hnext : ¬Unconnected (t.modify u.object fun u => { u with m_ready := 0 }) := by
        rintro ⟨i, v, hv, hle⟩
        obtain ⟨v', hv', rfl⟩ := Option.map_eq_some_iff.mp hv
        refine h ⟨i, v', hv', ?_⟩
        split at hle <;> exact hle
      rw [if_neg fun hle => h ⟨i, u, hu, hle⟩]
      exact ih hnext

theorem pay_plain {t : Table R} {is : List Nat} (h : ¬Unconnected t) : ∀ y ∈ (pay r g t is).2, ∃ is, y = .pay is := by
  induction is with
  | nil =>
    intro y hy
    rw [show (pay r g t []).2 = (sweep r g t r.seats).2 from rfl, sweep_plain h] at hy
    cases hy
  | cons i is ih =>
    intro y hy
    simp only [pay] at hy
    split at hy
    · exact ih y hy
    · split at hy
      · exact ih y hy
      · exact ⟨is, List.mem_singleton.mp hy⟩

/-- The new tasks of one that is not of a login. -/
inductive Brings (r : Room) (t : Table R) : Task → Task → Prop
  | done {x : Task} : Brings r t x .done
  | left {x : Task} : Brings r t x .left
  | dismissing {x y : Task} : r.isBattleRoom = true ∨ x.dismissing = true → y.dismissing = true → Brings r t x y
  | settling {x y : Task} : x.settlement = true → y.settling = true → (¬Unconnected t → ∃ is, y = .pay is) →
      Brings r t x y
  | leave {x : Task} {i : Nat} {u : User} : t.m_tableUserMap i = some u →
      r.isBattleRoom = true ∨ x.dismissing = true ∨ x.offline = true → Brings r t x (.leave u.object u.m_userId false)
  | removed {object : Nat} {userId : Int} {asked : Bool} :
      Brings r t (.leave object userId asked) (.removed object asked)

theorem brings_kick {t : Table R} {is : List Nat} {x y : Task} (hx : r.isBattleRoom = true ∨ x.dismissing = true)
    (hy : y ∈ kick r t is) : Brings r t x y := by
  rcases mem_kick hy with rfl | rfl | ⟨_, rfl⟩ | ⟨_, u, hu, rfl⟩
  · exact .dismissing hx rfl
  · exact .done
  · exact .dismissing hx rfl
  · obtain ⟨i, -, hi, -⟩ := find_some hu
    exact .leave hi (hx.imp_right .inl)

theorem brings_dismiss {t : Table R} {x y : Task} (hy : y ∈ onDismissBattleRoom r t) : Brings r t x y := by
  have hbattle : r.isBattleRoom = true := by
    by_contra hcoin
    rw [onDismissBattleRoom, if_neg hcoin] at hy
    cases hy
  rcases mem_dismiss hy with ⟨rfl, -⟩ | rfl | rfl | ⟨_, rfl⟩ | ⟨_, u, hu, rfl⟩
  · exact .dismissing (.inl hbattle) rfl
  · exact .dismissing (.inl hbattle) rfl
  · exact .done
  · exact .dismissing (.inl hbattle) rfl
  · obtain ⟨i, -, hi, -⟩ := find_some hu
    exact .leave hi (.inl hbattle)

theorem brings_disconnected {t : Table R} {object : Nat} {userId : Int} {y : Task}
    (hy : y ∈ (disconnected r t object userId).2) : Brings r t (.disconnected object userId) y := by
  simp only [disconnected] at hy
  split at hy
  · rename_i hcoin
    rcases mem_logout hy with rfl | rfl | ⟨v, hv, rfl⟩ | ⟨howner, -⟩
    · exact .done
    · exact .left
    · obtain ⟨i, -, hi, -⟩ := find_some hv
      obtain ⟨u, hu, rfl⟩ := Option.map_eq_some_iff.mp hi
      split <;> exact .leave (u := u) hu (.inr (.inr rfl))
    · -- in a coin room nobody owns the room
      simp only [Bool.and_eq_true, Bool.not_eq_true'] at hcoin
      simp [isBattleOwner, hcoin.1] at howner
  · cases hy

theorem brings_of_perform {t t' : Table R} {id : Nat} {ans : Answer} {rest work : List Task} {x y : Task}
    {msg : Option Msg} (hx : x.login = none) (h : perform r g t id ans rest x = (t', work, msg)) (hy : y ∈ work) :
    y ∈ rest ∨ Brings r t x y := by
  have happend : ∀ {new : List Task}, y ∈ new ++ rest → (y ∈ new → Brings r t x y) → y ∈ rest ∨ Brings r t x y := by
    intro new hy hnew
    rcases List.mem_append.mp hy with hy | hy
    · exact .inr (hnew hy)
    · exact .inl hy
  cases x with
  | checkDiamond | checkMTkey | checkDisconnect | checkUserInfo | charge | charged => cases hx
  | reported object =>
    simp only [perform] at h
    split at h <;> cases h
    · cases hy
    · exact .inl hy
  | enter object userId socketfd =>
    simp only [perform] at h
    split at h <;> cases h
    · exact happend hy fun hy => by rw [done_startGame y hy]; exact .done
    · exact .inl hy
  | answered userId =>
    simp only [perform] at h
    split at h <;> cases h
    · exact happend hy brings_dismiss
    · exact .inl hy
  | left =>
    simp only [perform] at h
    split at h <;> cases h
    · exact happend hy brings_dismiss
    · exact .inl hy
  | kick is => cases h; exact happend hy (brings_kick (.inr rfl))
  | leave object userId asked =>
    cases h
    rcases List.mem_cons.mp hy with rfl | hy
    · exact .inr .removed
    · exact .inl hy
  | disconnected object userId => cases h; exact happend hy brings_disconnected
  | pay is =>
    cases h
    exact happend hy fun hy => .settling rfl (settling_pay y hy) fun hplain => pay_plain hplain y hy
  | sweep is =>
    cases h
    refine happend hy fun hy => .settling rfl (settling_sweep y hy) fun hplain => ?_
    rw [sweep_plain hplain] at hy
    cases hy
  | report | refund | reset | removed | rebind | created | done => cases h; exact .inl hy

end Hall
end Skynet
