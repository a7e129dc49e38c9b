import Skynet.Hall.Seats

/-!
# Skynet.Hall.LoginErrors

A login that is answered with an error. Its coroutine changes neither the seats nor the status nor the round of the
table, unless the user owns the battle room: then it dismisses the room, whoever sits there.

* `Attempt` : a login that has failed, or that may still fail.
* `Taken` : a login that has been answered with success.
* `failed_login_harmless` : the login of another user than the owner.
* `owner_login_dismisses` : the owner, at a second connection with a wrong key.
-/

namespace Skynet
namespace Hall

variable {R : Type} {r : Room} {g : Game R} {t t' : Table R}

structure Untouched (t t' : Table R) : Prop where
  users : t'.m_tableUserMap = t.m_tableUserMap
  status : t'.m_tableStatus = t.m_tableStatus
  round : t'.m_gameRound = t.m_gameRound

/-- In this state the next step of the login `d`, in the coroutine `id`, leaves the table as it is. -/
def Leaves (r : Room) (g : Game R) (id : Nat) (d : Login) (s : Table R) (e : Event R) : Prop :=
  e = .login d ∨ (∃ ans, e = .resume id ans) → ∀ s', tableStep r g s e = some s' → Untouched s s'

/-- The coroutine `id` of a login of `userId`. -/
inductive Attempt (r : Room) (userId : Int) (id : Nat) (t : Table R) : Prop
  | trying {x : Task} {d : Login} : t.entering = some id → isBattleOwner r t userId = false → t.threads id = [x] →
      x.login = some d → d.iUserId = userId → Attempt r userId id t
  | failed : t.entering = some id → isBattleOwner r t userId = false → t.threads id = [.answered userId] →
      Attempt r userId id t
  | full : t.threads id = [.done] → Attempt r userId id t
  | ended : t.threads id = [] → Attempt r userId id t

def Taken (id : Nat) (t : Table R) : Prop :=
  (∃ status, t.answers id = some status ∧ status.isError = false) ∧ ∀ y ∈ t.threads id, y.login = none

/-! ### The steps of the others -/

theorem Attempt.aside {userId : Int} {id : Nat} (h : Attempt r userId id t) (ha : Aside id t t') :
    Attempt r userId id t' := by
  cases h with
  | trying he howner hx hd hid =>
    obtain ⟨he', hroom⟩ := ha.entering he
    exact .trying he' ((owner_congr hroom userId).trans howner) (ha.threads.trans hx) hd hid
  | failed he howner hx =>
    obtain ⟨he', hroom⟩ := ha.entering he
    exact .failed he' ((owner_congr hroom userId).trans howner) (ha.threads.trans hx)
  | full hx => exact .full (ha.threads.trans hx)
  | ended hx => exact .ended (ha.threads.trans hx)

theorem Taken.aside {id : Nat} (h : Taken id t) (ha : Aside id t t') : Taken id t' := by
  obtain ⟨⟨status, hstatus, herror⟩, hplain⟩ := h
  refine ⟨⟨status, ha.answers.trans hstatus, herror⟩, ?_⟩
  rw [ha.threads]
  exact hplain

/-! ### The steps of the login -/

theorem untouched_accepted {x : Task} {d : Login} {t₁ : Table R} {id : Nat} {status : LoginStatus}
    (h : Accepted r t x d t₁) : Untouched t (t₁.answer id status) := by
  rcases h with ⟨-, -, -, -, -, -, rfl⟩ | ⟨-, rfl⟩ <;> exact ⟨rfl, rfl, rfl⟩

theorem taken_put {id : Nat} (status : LoginStatus) {work : List Task} (hanswer : t.answers id = some status)
    (herror : status.isError = false) (hplain : ∀ y ∈ work, y.login = none) : Taken id (t.put id work) := by
  refine ⟨⟨status, hanswer, herror⟩, ?_⟩
  rw [put_self]
  exact hplain

theorem attempt_entry {userId : Int} {id : Nat} {x : Task} {d : Login} {new : List Task}
    (he : t.entering = some id) (howner : isBattleOwner r t userId = false) (hd : x.login = some d)
    (hid : d.iUserId = userId) (h : Entry r t id x t' new) :
    Attempt r userId id (t'.put id new) ∧ Untouched t t' ∨ Taken id (t'.put id new) := by
  have hlogin : ∀ d', x.login = some d' → d'.iUserId = userId := by
    intro d' hd'
    rw [hd, Option.some.injEq] at hd'
    rw [← hd', hid]
  have hentering : ∀ y : Task, ({ t with charges := t.charges }.put id [y]).entering = some id := fun y =>
    put_entering_self (List.cons_ne_nil y []) he
  cases h with
  | @next x y d₁ d' hd₁ hd' hid' _ _ =>
    refine .inl ⟨.trying (hentering y) howner (put_self ..) hd' ?_, rfl, rfl, rfl⟩
    exact hid'.1.trans (hlogin _ hd₁)
  | @failed x d₁ status hd₁ _ _ =>
    refine .inl ⟨.failed (hentering _) howner ?_, rfl, rfl, rfl⟩
    rw [put_self, hlogin _ hd₁]
  | full haccepted => exact .inl ⟨.full (put_self ..), untouched_accepted haccepted⟩
  | entered haccepted =>
    refine .inr (taken_put .successNewconnect (Function.update_self ..) rfl ?_)
    intro y hy
    simp only [List.mem_cons, List.not_mem_nil, or_false] at hy
    rcases hy with rfl | rfl | rfl <;> rfl
  | absent | unsent => exact .inr (taken_put .successReconnect (Function.update_self ..) rfl (List.forall_mem_nil _))
  | reconnected =>
    refine .inr (taken_put .successReconnect (Function.update_self ..) rfl ?_)
    intro y hy
    rw [List.mem_singleton.mp hy]
    rfl
  | @toCharge d₀ d iMoney pDiamond hd' =>
    refine .inl ⟨.trying (hentering _) howner (put_self ..) rfl ?_, rfl, rfl, rfl⟩
    rw [hd']
    exact hlogin d₀ rfl
  | charge => exact .inl ⟨.trying (hentering _) howner (put_self ..) rfl (hlogin _ rfl), rfl, rfl, rfl⟩

theorem attempt_resume {userId : Int} {id : Nat} {ans : Answer} {x : Task} {rest work : List Task} {msg : Option Msg}
    (h : Attempt r userId id t) (hx : t.threads id = x :: rest)
    (hp : perform r g t id ans rest x = (t', work, msg)) :
    Attempt r userId id (t'.put id work) ∧ Untouched t t' ∨ Taken id (t'.put id work) := by
  cases h with
  | trying he howner hthread hd hid =>
    rw [hx, List.cons.injEq] at hthread
    obtain ⟨rfl, rfl⟩ := hthread
    obtain ⟨-, new, rfl, hentry⟩ := entry_of_perform (by rw [hd]; nofun) hp
    rw [List.append_nil]
    exact attempt_entry he howner hd hid hentry
  | failed he howner hthread =>
    rw [hx, List.cons.injEq] at hthread
    obtain ⟨rfl, rfl⟩ := hthread
    simp only [perform, howner, Bool.false_eq_true, if_false, List.append_nil] at hp
    cases hp
    exact .inl ⟨.ended (put_self ..), rfl, rfl, rfl⟩
  | full hthread =>
    rw [hx, List.cons.injEq] at hthread
    obtain ⟨rfl, rfl⟩ := hthread
    cases hp
    exact .inl ⟨.ended (put_self ..), rfl, rfl, rfl⟩
  | ended hthread =>
    rw [hx] at hthread
    cases hthread

theorem taken_resume {id : Nat} {ans : Answer} {x : Task} {rest work : List Task} {msg : Option Msg}
    (h : Taken id t) (hx : t.threads id = x :: rest) (hp : perform r g t id ans rest x = (t', work, msg)) :
    Taken id (t'.put id work) := by
  obtain ⟨⟨status, hstatus, herror⟩, hplain⟩ := h
  rw [hx] at hplain
  have hlogin : x.login = none := hplain x (List.mem_cons_self ..)
  refine taken_put status ((answers_perform hp (.inr hlogin)).trans hstatus) herror ?_
  rcases exits_of_perform hlogin hp with rfl | ⟨new, rfl, hnew⟩
  · exact fun y hy => absurd hy List.not_mem_nil
  · intro y hy
    rcases List.mem_append.mp hy with hy | hy
    · exact login_of_exits (hnew y hy)
    · exact hplain y (List.mem_cons_of_mem _ hy)

/-! ### Runs -/

theorem count_of_moved {e : Event R} {msg : Option Msg} {id : Nat} (h : Moved r g t e t' msg) (hid : id < t.count) :
    id < t'.count := by
  by_cases he : ∃ ans, e = .resume id ans
  · obtain ⟨ans, rfl⟩ := he
    cases h with
    | resume hx hp => exact hid.trans_le (sameQueue_perform hp).count.ge
  · exact hid.trans_le (aside_of_moved h hid fun ans h => he ⟨ans, h⟩).count

theorem taken_of_moved {e : Event R} {msg : Option Msg} {id : Nat} (h : Taken id t) (hm : Moved r g t e t' msg)
    (hid : id < t.count) : Taken id t' := by
  by_cases he : ∃ ans, e = .resume id ans
  · obtain ⟨ans, rfl⟩ := he
    cases hm with
    | resume hx hp => exact taken_resume h hx hp
  · exact h.aside (aside_of_moved hm hid fun ans h => he ⟨ans, h⟩)

theorem taken_of_run {es : List (Event R)} {id : Nat} (h : Taken id t) (hid : id < t.count)
    (hrun : Lts.run (tableStep r g) t es = some t') : Taken id t' := by
  have hstep : ∀ (s : Table R) (e : Event R) (s' : Table R), Taken id s ∧ id < s.count → tableStep r g s e = some s' →
      Taken id s' ∧ id < s'.count := by
    rintro s e s' ⟨hs, hlt⟩ hs'
    obtain ⟨msg, hm⟩ := moved_of_tableStep hs'
    exact ⟨taken_of_moved hs hm hlt, count_of_moved hm hlt⟩
  exact (Lts.run_invariant hstep hrun ⟨h, hid⟩).1

theorem leaves_of_attempt {userId : Int} {id : Nat} {d : Login} {t₂ : Table R} {status : LoginStatus}
    {es : List (Event R)} (h : Attempt r userId id t) (hid : id < t.count)
    (hrun : Lts.run (tableStep r g) t es = some t₂) (hanswer : t₂.answers id = some status)
    (herror : status.isError = true) : Lts.Guarded (tableStep r g) (Leaves r g id d) t es := by
  induction es generalizing t with
  | nil => trivial
  | cons e es ih =>
    obtain ⟨t₁, hstep, hrest⟩ := Lts.run_cons.mp hrun
    obtain ⟨msg, hmoved⟩ := moved_of_tableStep hstep
    have hlt := count_of_moved hmoved hid
    -- a login that was answered with success is not answered again
    have hnot : ¬Taken id t₁ := by
      intro htaken
      obtain ⟨⟨status', hstatus', hsuccess⟩, -⟩ := taken_of_run htaken hlt hrest
      rw [hanswer, Option.some.injEq] at hstatus'
      rw [← hstatus', herror] at hsuccess
      cases hsuccess
    have hnext : Attempt r userId id t₁ ∧ (e = .login d ∨ (∃ ans, e = .resume id ans) → Untouched t t₁) := by
      by_cases he : ∃ ans, e = .resume id ans
      · obtain ⟨ans, rfl⟩ := he
        cases hmoved with
        | @resume _ _ x rest work t' msg hx hp =>
          rcases attempt_resume h hx hp with ⟨hattempt, huntouched⟩ | htaken
          · exact ⟨hattempt, fun _ => ⟨huntouched.users, huntouched.status, huntouched.round⟩⟩
          · exact absurd htaken hnot
      · refine ⟨h.aside (aside_of_moved hmoved hid fun ans h => he ⟨ans, h⟩), ?_⟩
        rintro (rfl | he')
        · cases hmoved
          exact ⟨rfl, rfl, rfl⟩
        · exact absurd he' he
    refine ⟨?_, ?_⟩
    · intro he s' hs'
      rw [hstep, Option.some.injEq] at hs'
      rw [← hs']
      exact hnext.2 he
    · intro s' hs'
      rw [hstep, Option.some.injEq] at hs'
      rw [← hs']
      exact ih hnext.1 hlt hrest

/-- Every step of a login that fails leaves the seats, the status and the round as they are, in whatever state of the
table it begins, if the user does not own the battle room. -/
theorem failed_login_harmless (r : Room) (g : Game R) {es : List (Event R)} {d : Login} {t₂ : Table R}
    {status : LoginStatus} (h : Lts.run (tableStep r g) t (.login d :: es) = some t₂)
    (hanswer : t₂.answers t.count = some status) (herror : status.isError = true)
    (howner : isBattleOwner r t d.iUserId = false) :
    Lts.Guarded (tableStep r g) (Leaves r g t.count d) t (.login d :: es) := by
  obtain ⟨t₁, hstep, hrun⟩ := Lts.run_cons.mp h
  obtain ⟨msg, hmoved⟩ := moved_of_tableStep hstep
  cases hmoved with
  | login hnone =>
    have hattempt : Attempt r d.iUserId t.count
        ({ t with entering := some t.count }.spawn [.checkDiamond d]) :=
      .trying (put_entering_self (List.cons_ne_nil _ _) rfl) howner (put_self ..) rfl rfl
    refine ⟨?_, ?_⟩
    · intro _ s' hs'
      rw [hstep, Option.some.injEq] at hs'
      rw [← hs']
      exact ⟨rfl, rfl, rfl⟩
    · intro s' hs'
      rw [hstep, Option.some.injEq] at hs'
      rw [← hs']
      exact leaves_of_attempt hattempt (Nat.lt_succ_self _) hrun hanswer herror

/-! ### The owner -/

/-- The owner 5 opens a room for four rounds, and the owner and the guest 6 log in. -/
def opened : List (Event Unit) :=
  List.flatten [[.create ⟨5, 42, 7, 4, 0, 1, 0⟩], calls 0 2, [.login (guest 5 3)], calls 1 8, [.login (guest 6 4)],
    calls 2 6]

def wrongKey : Answer := { fine with mtkey := none }

/-- The guest tries again at another connection. -/
theorem failed_login_harmless_guest :
    ∃ t t₂, Lts.run (tableStep battleRoom idleGame) (initial ()) opened = some t ∧
      Lts.run (tableStep battleRoom idleGame) t (.login (guest 6 9) :: List.replicate 3 (.resume 3 wrongKey)) =
        some t₂ ∧
      Lts.Guarded (tableStep battleRoom idleGame) (Leaves battleRoom idleGame t.count (guest 6 9)) t
        (.login (guest 6 9) :: List.replicate 3 (.resume 3 wrongKey)) := by
  have hopened : Lts.run (tableStep battleRoom idleGame) (initial ()) opened = some _ := rfl
  refine ⟨_, _, hopened, rfl, ?_⟩
  have herror : LoginStatus.errorUserkey.isError = true := rfl
  exact failed_login_harmless battleRoom idleGame rfl rfl herror rfl

/-- The owner tries again: the login is answered with an error, and its own steps have taken both users from the
table. -/
theorem owner_login_dismisses :
    ∃ t t₂, Lts.run (tableStep battleRoom idleGame) (initial ()) opened = some t ∧
      (t.m_tableUserMap 1).isSome ∧ (t.m_tableUserMap 2).isSome ∧ t.m_tableStatus = .battleCreated ∧
      Lts.run (tableStep battleRoom idleGame) t (.login (guest 5 9) :: List.replicate 13 (.resume 3 wrongKey)) =
        some t₂ ∧
      t.count = 3 ∧ t₂.answers 3 = some .errorUserkey ∧ t₂.threads 3 = [] ∧
      t₂.m_tableUserMap 1 = none ∧ t₂.m_tableUserMap 2 = none ∧ t₂.m_tableStatus = .gameStop := by
  have hopened : Lts.run (tableStep battleRoom idleGame) (initial ()) opened = some _ := rfl
  exact ⟨_, _, hopened, rfl, rfl, rfl, rfl, rfl, rfl, rfl, rfl, rfl, rfl⟩

end Hall
end Skynet
