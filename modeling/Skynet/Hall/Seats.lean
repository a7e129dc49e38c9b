import Skynet.Hall.Moves

/-!
# Skynet.Hall.Seats

Who sits where. A login checks that the user is not at the table, and may then wait for the diamond server before the
user gets a seat; meanwhile users leave, but only a login brings one, and there is one login at a time.

* `Seating` : the users at their seats.
* `Entering` : the login that is under way, and the user it may bring.
* `seats_allocated` : both hold in every run, and no user takes the seat of another.
-/

namespace Skynet
namespace Hall

variable {R : Type} {r : Room} {g : Game R} {t t' : Table R}

structure Seating (r : Room) (t : Table R) : Prop where
  seat : ∀ i u, t.m_tableUserMap i = some u → u.m_seatId = i ∧ 1 ≤ i ∧ i ≤ r.iMaxUserCount
  distinct : ∀ i j u v, t.m_tableUserMap i = some u → t.m_tableUserMap j = some v → u.m_userId = v.m_userId → i = j
  created : ∀ i u, t.m_tableUserMap i = some u → u.object < t.objects

/-- A login comes alone, it is the one that is under way, and its user is not at the table. -/
def Orderly (r : Room) (t : Table R) (id : Nat) (work : List Task) : Prop :=
  ∀ x rest, work = x :: rest → (x.login ≠ none → t.entering = some id) ∧ (∀ y ∈ rest, y.login = none) ∧
    ∀ userId, x.paying = some userId → t.find r userId = none

def Entering (r : Room) (t : Table R) : Prop := ∀ id, Orderly r t id (t.threads id)

/-! ### Fewer users -/

/-- Some of the users sit where they sat. -/
def Sub (t t' : Table R) : Prop :=
  t'.objects = t.objects ∧ ∀ i v, t'.m_tableUserMap i = some v → ∃ u, t.m_tableUserMap i = some u ∧
    v.object = u.object ∧ v.m_userId = u.m_userId ∧ v.m_seatId = u.m_seatId

theorem Kept.sub (h : Kept t t') : Sub t t' := by
  refine ⟨h.objects, ?_⟩
  intro i v hv
  obtain ⟨u, hu, hfixed⟩ := h.user hv
  obtain ⟨hobject, hid, hseat, -, -⟩ := fixed_eq hfixed
  exact ⟨u, hu, hobject, hid, hseat⟩

theorem sub_modify (t : Table R) (object : Nat) {f : User → User}
    (hf : ∀ u, (f u).object = u.object ∧ (f u).m_userId = u.m_userId ∧ (f u).m_seatId = u.m_seatId) :
    Sub t (t.modify object f) := by
  refine ⟨rfl, ?_⟩
  intro i v hv
  obtain ⟨u, hu, rfl⟩ := Option.map_eq_some_iff.mp hv
  refine ⟨u, hu, ?_⟩
  split
  · exact hf u
  · exact ⟨rfl, rfl, rfl⟩

theorem sub_removeUser (t : Table R) (object : Nat) : Sub t (t.removeUser object) := by
  refine ⟨rfl, ?_⟩
  intro i v hv
  exact ⟨v, (Option.filter_eq_some_iff.mp hv).1, rfl, rfl, rfl⟩

theorem sub_onReset (t : Table R) : Sub t (t.onReset g) := ⟨rfl, fun _ _ hv => nomatch hv⟩

theorem Sub.find_none (hs : Sub t t') {userId : Int} (h : t.find r userId = none) : t'.find r userId = none := by
  rw [Hall.find_none] at h ⊢
  intro i hi v hv
  obtain ⟨u, hu, -, hid, -⟩ := hs.2 i v hv
  rw [hid]
  exact h i hi u hu

theorem Seating.sub (h : Seating r t) (hs : Sub t t') : Seating r t' where
  seat i v hv := by
    obtain ⟨u, hu, -, -, hseat⟩ := hs.2 i v hv
    rw [hseat]
    exact h.seat i u hu
  distinct i j u v hu hv he := by
    obtain ⟨u', hu', -, hid, -⟩ := hs.2 i u hu
    obtain ⟨v', hv', -, hid', -⟩ := hs.2 j v hv
    rw [hid, hid'] at he
    exact h.distinct i j u' v' hu' hv' he
  created i v hv := by
    obtain ⟨u, hu, hobject, -, -⟩ := hs.2 i v hv
    rw [hobject, hs.1]
    exact h.created i u hu

theorem sub_of_perform {id : Nat} {ans : Answer} {rest work : List Task} {x : Task} {msg : Option Msg}
    (hx : x.login = none) (h : perform r g t id ans rest x = (t', work, msg)) : Sub t t' := by
  by_cases hremoved : ∃ object asked, x = .removed object asked
  · obtain ⟨object, asked, rfl⟩ := hremoved
    cases h
    exact sub_removeUser t object
  · by_cases hreset : x = .reset
    · subst hreset
      cases h
      exact sub_onReset t
    · exact (kept_of_perform hx (fun object asked he => hremoved ⟨object, asked, he⟩) hreset h).sub

/-! ### A new user -/

/-- The user gets a free seat, and is at no other. -/
def Added (r : Room) (t t' : Table R) (userId : Int) : Prop :=
  t.find r userId = none ∧ t'.objects = t.objects + 1 ∧ ∃ seat u, t.autoSeat r = some seat ∧
    t'.m_tableUserMap = Function.update t.m_tableUserMap seat (some u) ∧ u.object = t.objects ∧
    u.m_userId = userId ∧ u.m_seatId = seat

theorem Seating.added (h : Seating r t) {userId : Int} (ha : Added r t t' userId) : Seating r t' := by
  obtain ⟨hnone, hobjects, seat, w, hseat, husers, hobject, hid, hseatId⟩ := ha
  obtain ⟨hmem, hfree⟩ := autoSeat_some hseat
  have hother : ∀ i u, i ≠ seat → t'.m_tableUserMap i = some u → t.m_tableUserMap i = some u := by
    intro i u hi hu
    rw [husers, Function.update_of_ne hi] at hu
    exact hu
  have hself : ∀ u, t'.m_tableUserMap seat = some u → u = w := by
    intro u hu
    rw [husers, Function.update_self, Option.some.injEq] at hu
    exact hu.symm
  have hnew : ∀ i u, i ≠ seat → t'.m_tableUserMap i = some u → u.m_userId ≠ userId := by
    intro i u hi hu
    have hu := hother i u hi hu
    exact find_none.mp hnone i (mem_seats.mpr (h.seat i u hu).2) u hu
  refine ⟨?_, ?_, ?_⟩
  · intro i u hu
    by_cases hi : i = seat
    · subst hi
      rw [hself u hu]
      exact ⟨hseatId, mem_seats.mp hmem⟩
    · exact h.seat i u (hother i u hi hu)
  · intro i j u v hu hv he
    by_cases hi : i = seat
    · by_cases hj : j = seat
      · rw [hi, hj]
      · subst hi
        rw [hself u hu, hid] at he
        exact absurd he.symm (hnew j v hj hv)
    · by_cases hj : j = seat
      · subst hj
        rw [hself v hv, hid] at he
        exact absurd he (hnew i u hi hu)
      · exact h.distinct i j u v (hother i u hi hu) (hother j v hj hv) he
  · intro i u hu
    rw [hobjects]
    by_cases hi : i = seat
    · subst hi
      rw [hself u hu, hobject]
      exact Nat.lt_succ_self _
    · exact Nat.lt_succ_of_lt (h.created i u (hother i u hi hu))

/-- A task of a login keeps the users in their seats, or brings the user it is for. -/
theorem seats_of_entry {id : Nat} {x : Task} {new : List Task} (h : Entry r t id x t' new)
    (habsent : ∀ userId, x.paying = some userId → t.find r userId = none) :
    Sub t t' ∨ ∃ userId, Added r t t' userId := by
  cases h with
  | next | toCharge => exact .inl (Kept.refl t).sub
  | failed | absent | charge => exact .inl (kept_of_eq rfl rfl).sub
  | full h =>
    refine .inl ?_
    rcases h with ⟨-, -, -, -, -, -, rfl⟩ | ⟨-, rfl⟩ <;> exact (kept_of_eq rfl rfl).sub
  | unsent | reconnected => exact .inl (sub_modify _ _ fun _ => ⟨rfl, rfl, rfl⟩)
  | @entered x d t₁ seat h hseat =>
    refine .inr ⟨d.iUserId, ?_⟩
    rcases h with ⟨-, -, -, -, hnone, -, rfl⟩ | ⟨rfl, rfl⟩
    · exact ⟨hnone, rfl, seat, _, hseat, rfl, rfl, rfl, rfl⟩
    · exact ⟨habsent _ rfl, rfl, seat, _, hseat, rfl, rfl, rfl, rfl⟩

/-! ### The login that is under way -/

theorem login_of_exits {x : Task} (h : x.exits = true) : x.login = none := by
  cases x <;> first | rfl | cases h

theorem login_of_paying {x : Task} {userId : Int} (h : x.paying = some userId) : x.login ≠ none := by
  cases x with
  | charge | charged => nofun
  | _ => cases h

theorem orderly_plain {id : Nat} {work : List Task} (h : ∀ y ∈ work, y.login = none) : Orderly r t id work := by
  rintro x rest rfl
  have hx := h x (List.mem_cons_self ..)
  refine ⟨fun hlogin => absurd hx hlogin, fun y hy => h y (List.mem_cons_of_mem _ hy), ?_⟩
  intro userId hpaying
  exact absurd hx (login_of_paying hpaying)

/-- The users of the other table are fewer. -/
theorem Orderly.sub {id : Nat} {work : List Task} (h : Orderly r t id work) (hs : Sub t t')
    (he : t'.entering = t.entering) : Orderly r t' id work := by
  intro x rest hwork
  obtain ⟨hlogin, hrest, hpaying⟩ := h x rest hwork
  exact ⟨fun hx => he.trans (hlogin hx), hrest, fun userId hx => hs.find_none (hpaying userId hx)⟩

/-- A login is under way in the coroutine `id`, so that another has none. -/
theorem Orderly.other {id id' : Nat} {work : List Task} (h : Orderly r t id' work) (he : t.entering = some id)
    (hne : id' ≠ id) : ∀ y ∈ work, y.login = none := by
  cases work with
  | nil => exact fun y hy => absurd hy List.not_mem_nil
  | cons x rest =>
    obtain ⟨hlogin, hrest, -⟩ := h x rest rfl
    intro y hy
    rcases List.mem_cons.mp hy with rfl | hy
    · by_contra hy
      rw [hlogin hy, Option.some.injEq] at he
      exact hne he
    · exact hrest y hy

theorem entering_put {id : Nat} {work : List Task} (hothers : ∀ id', id' ≠ id → Orderly r t id' (t.threads id'))
    (hwork : Orderly r t id work) : Entering r (t.put id work) := by
  intro id' x rest hx
  by_cases hid : id' = id
  · subst hid
    simp only [Table.put, Function.update_self] at hx
    obtain ⟨hlogin, hrest, hpaying⟩ := hwork x rest hx
    refine ⟨?_, hrest, hpaying⟩
    intro hne
    simp only [Table.put, hx, reduceCtorEq, false_and, if_false]
    exact hlogin hne
  · simp only [Table.put, Function.update_of_ne hid] at hx
    obtain ⟨hlogin, hrest, hpaying⟩ := hothers id' hid x rest hx
    refine ⟨?_, hrest, hpaying⟩
    intro hne
    have he := hlogin hne
    simp only [Table.put, he, Option.some.injEq, hid, and_false, if_false]

theorem orderly_of_perform {id : Nat} {ans : Answer} {rest work : List Task} {x : Task} {msg : Option Msg}
    (h : Orderly r t id (x :: rest)) (hp : perform r g t id ans rest x = (t', work, msg)) :
    Orderly r t' id work := by
  obtain ⟨hlogin, hrest, hpaying⟩ := h x rest rfl
  have hplain : ∀ new : List Task, (∀ y ∈ new, y.login = none) → Orderly r t' id (new ++ rest) := by
    intro new hnew
    refine orderly_plain ?_
    intro y hy
    rcases List.mem_append.mp hy with hy | hy
    · exact hnew y hy
    · exact hrest y hy
  by_cases hx : x.login = none
  · rcases exits_of_perform hx hp with rfl | ⟨new, rfl, hnew⟩
    · exact orderly_plain fun y hy => absurd hy List.not_mem_nil
    · exact hplain new fun y hy => login_of_exits (hnew y hy)
  · have he : t'.entering = some id := (sameQueue_perform hp).entering.trans (hlogin hx)
    obtain ⟨-, new, rfl, hentry⟩ := entry_of_perform hx hp
    cases hentry with
    | next _ _ _ _ hy =>
      rintro y' ys hwork
      cases hwork
      refine ⟨fun _ => he, hrest, ?_⟩
      intro userId hpay
      rw [hy] at hpay
      cases hpay
    | toCharge _ hnone =>
      rintro y' ys hy
      cases hy
      refine ⟨fun _ => he, hrest, ?_⟩
      intro userId hpay
      cases hpay
      exact hnone
    | charge =>
      rintro y' ys hy
      cases hy
      exact ⟨fun _ => he, hrest, fun userId hpay => hpaying userId hpay⟩
    | absent | unsent => exact hplain [] fun y hy => absurd hy List.not_mem_nil
    | failed | full | reconnected =>
      refine hplain [_] ?_
      intro y hy
      rw [List.mem_singleton.mp hy]
      rfl
    | entered =>
      refine hplain [_, _, _] ?_
      intro y hy
      simp only [List.mem_cons, List.not_mem_nil, or_false] at hy
      rcases hy with rfl | rfl | rfl <;> rfl

/-! ### Steps -/

theorem seats_of_perform {id : Nat} {ans : Answer} {rest work : List Task} {x : Task} {msg : Option Msg}
    (h : Orderly r t id (x :: rest)) (hp : perform r g t id ans rest x = (t', work, msg)) :
    Sub t t' ∨ x.login ≠ none ∧ ∃ userId, Added r t t' userId := by
  obtain ⟨-, -, hpaying⟩ := h x rest rfl
  by_cases hx : x.login = none
  · exact .inl (sub_of_perform hx hp)
  · obtain ⟨-, new, -, hentry⟩ := entry_of_perform hx hp
    rcases seats_of_entry hentry hpaying with hs | ha
    · exact .inl hs
    · exact .inr ⟨hx, ha⟩

/-- A step takes users from the table, or brings one. -/
theorem seats_of_step {e : Event R} (he : Entering r t) (h : tableStep r g t e = some t') :
    Sub t t' ∨ ∃ userId, Added r t t' userId := by
  obtain ⟨msg, h⟩ := moved_of_tableStep h
  cases h with
  | create | login | receive | disconnect | play => exact .inl (kept_of_eq rfl rfl).sub
  | unknown | gone => exact .inl (Kept.refl t).sub
  | @serve userId socketfd cmd rest t₁ work _ _ hc =>
    have hkept := kept_command (r := r) (g := g) (t.take socketfd rest) userId cmd
    rw [hc] at hkept
    exact .inl hkept.sub
  | @stopRound t₁ work _ hs =>
    have hkept := kept_stop (r := r) (g := g) t
    rw [hs] at hkept
    exact .inl hkept.sub
  | @resume id ans x rest work t₁ msg hx hp =>
    have horderly := he id
    rw [hx] at horderly
    rcases seats_of_perform horderly hp with hs | ⟨-, ha⟩
    · exact .inl hs
    · exact .inr ha

/-- A login begins where none is under way. -/
theorem plain_of_idle (he : Entering r t) (hnone : t.entering = none) (id : Nat) :
    ∀ y ∈ t.threads id, y.login = none := by
  cases hx : t.threads id with
  | nil => exact fun y hy => absurd hy List.not_mem_nil
  | cons x rest =>
    obtain ⟨hlogin, hrest, -⟩ := he id x rest hx
    intro y hy
    rcases List.mem_cons.mp hy with rfl | hy
    · by_contra hy
      rw [hlogin hy] at hnone
      cases hnone
    · exact hrest y hy

theorem entering_of_step {e : Event R} (he : Entering r t) (h : tableStep r g t e = some t') : Entering r t' := by
  obtain ⟨msg, h⟩ := moved_of_tableStep h
  cases h with
  | unknown | gone => exact he
  | receive | play => exact he
  | create hnone =>
    refine entering_put ?_ (orderly_plain ?_)
    · exact fun id _ => orderly_plain (plain_of_idle he hnone id)
    · intro y hy
      simp only [List.mem_cons, List.not_mem_nil, or_false] at hy
      rcases hy with rfl | rfl <;> rfl
  | @login d hnone =>
    refine entering_put ?_ ?_
    · exact fun id _ => orderly_plain (plain_of_idle he hnone id)
    · rintro x rest hx
      cases hx
      exact ⟨fun _ => rfl, fun y hy => absurd hy List.not_mem_nil, nofun⟩
  | disconnect =>
    refine entering_put (fun id _ => he id) (orderly_plain ?_)
    intro y hy
    rw [List.mem_singleton.mp hy]
    rfl
  | @serve userId socketfd cmd rest t₁ work _ _ hc =>
    have hkept := kept_command (r := r) (g := g) (t.take socketfd rest) userId cmd
    have hsame := same_command (r := r) (g := g) (t.take socketfd rest) userId cmd
    have hexits := exits_command (r := r) (g := g) (t.take socketfd rest) userId cmd
    rw [hc] at hkept hsame hexits
    refine entering_put ?_ (orderly_plain fun y hy => login_of_exits (hexits y hy))
    intro id _
    rw [show (t₁.threads id) = t.threads id from congrFun hsame.threads id]
    exact (he id).sub hkept.sub hsame.entering
  | @stopRound t₁ work _ hs =>
    have hkept := kept_stop (r := r) (g := g) t
    have hsame := same_stop (r := r) (g := g) t
    have hexits := settling_stop (r := r) (g := g) (t := t)
    rw [hs] at hkept hsame hexits
    refine entering_put ?_ (orderly_plain fun y hy => login_of_exits (exits_of_settling (hexits y hy)))
    intro id _
    rw [show (t₁.threads id) = t.threads id from congrFun hsame.threads id]
    exact (he id).sub hkept.sub hsame.entering
  | @resume id ans x rest work t₁ msg hx hp =>
    have horderly := he id
    rw [hx] at horderly
    have hsame := sameQueue_perform hp
    refine entering_put ?_ (orderly_of_perform horderly hp)
    intro id' hid
    rw [hsame.threads]
    rcases seats_of_perform horderly hp with hs | ⟨hlogin, -⟩
    · exact (he id').sub hs hsame.entering
    · have hentering := (horderly x rest rfl).1 hlogin
      exact orderly_plain ((he id').other hentering hid)

structure Seated (r : Room) (t : Table R) : Prop where
  seating : Seating r t
  entering : Entering r t

theorem seated_initial (round : R) : Seated r (initial round) where
  seating := ⟨fun _ _ hu => (nomatch hu), fun _ _ _ _ hu => (nomatch hu), fun _ _ hu => (nomatch hu)⟩
  entering := fun _ _ _ hx => nomatch hx

theorem seated_of_step {e : Event R} (h : Seated r t) (hstep : tableStep r g t e = some t') : Seated r t' := by
  refine ⟨?_, entering_of_step h.entering hstep⟩
  rcases seats_of_step h.entering hstep with hs | ⟨userId, ha⟩
  · exact h.seating.sub hs
  · exact h.seating.added ha

theorem seated_of_run {round : R} {es : List (Event R)} (h : Lts.run (tableStep r g) (initial round) es = some t) :
    Seated r t :=
  Lts.run_invariant (fun _ _ _ => seated_of_step) h (seated_initial round)

/-- No user takes the seat of another. -/
theorem unmoved_of_step {e : Event R} (h : Seated r t) (hstep : tableStep r g t e = some t') {i : Nat} {u v : User}
    (hu : t.m_tableUserMap i = some u) (hv : t'.m_tableUserMap i = some v) :
    v.object = u.object ∧ v.m_userId = u.m_userId := by
  rcases seats_of_step h.entering hstep with hs | ⟨userId, -, -, seat, w, hseat, husers, -⟩
  · obtain ⟨u', hu', hobject, hid, -⟩ := hs.2 i v hv
    rw [hu, Option.some.injEq] at hu'
    subst hu'
    exact ⟨hobject, hid⟩
  · have hi : i ≠ seat := by
      rintro rfl
      rw [(autoSeat_some hseat).2] at hu
      cases hu
    rw [husers, Function.update_of_ne hi, hu, Option.some.injEq] at hv
    rw [hv]
    exact ⟨rfl, rfl⟩

/-! ### Where a user comes from, and where it goes -/

/-- The user of the seat, and its connection. -/
def Came (r : Room) (t : Table R) (e : Event R) (i : Nat) (v : User) : Prop :=
  (∃ u, t.m_tableUserMap i = some u ∧ v.object = u.object ∧ v.m_userId = u.m_userId ∧
    (v.m_socketfd = u.m_socketfd ∨ ∃ id ans d rest w, e = .resume id ans ∧ t.threads id = .checkDisconnect d :: rest ∧
      t.find r d.iUserId = some w ∧ w.object = u.object ∧ v.m_socketfd = d.socketfd)) ∨
  (t.m_tableUserMap i = none ∧ v.object = t.objects ∧ ∃ id ans x d rest, e = .resume id ans ∧
    t.threads id = x :: rest ∧ x.login = some d ∧ v.m_userId = d.iUserId ∧ v.m_socketfd = d.socketfd)

theorem came_kept {e : Event R} (h : Kept t t') {i : Nat} {v : User} (hv : t'.m_tableUserMap i = some v) :
    Came r t e i v := by
  obtain ⟨u, hu, hfixed⟩ := h.user hv
  obtain ⟨hobject, hid, -, hsocketfd, -⟩ := fixed_eq hfixed
  exact .inl ⟨u, hu, hobject, hid, .inl hsocketfd⟩

theorem came_entry {id : Nat} {ans : Answer} {x : Task} {rest new : List Task} (hx : t.threads id = x :: rest)
    (h : Entry r t id x t' new) {i : Nat} {v : User} (hv : t'.m_tableUserMap i = some v) :
    Came r t (.resume id ans) i v := by
  cases h with
  | next | toCharge | failed | absent | charge => exact came_kept (kept_of_eq rfl rfl) hv
  | full h => rcases h with ⟨-, -, -, -, -, -, rfl⟩ | ⟨-, rfl⟩ <;> exact came_kept (kept_of_eq rfl rfl) hv
  | @unsent d w hw | @reconnected d w hw =>
    obtain ⟨u, hu, rfl⟩ := Option.map_eq_some_iff.mp hv
    refine .inl ⟨u, hu, ?_⟩
    split
    · rename_i hobject
      exact ⟨rfl, rfl, .inr ⟨id, ans, d, rest, w, rfl, hx, hw, hobject.symm, rfl⟩⟩
    · exact ⟨rfl, rfl, .inl rfl⟩
  | @entered x d t₁ seat h hseat =>
    have hfree := (autoSeat_some hseat).2
    have hlogin : (t₁.m_tableUserMap = t.m_tableUserMap ∧ t₁.objects = t.objects) ∧
        ∃ d₀, x.login = some d₀ ∧ d.iUserId = d₀.iUserId ∧ d.socketfd = d₀.socketfd := by
      rcases h with ⟨d₀, iMoney, rfl, rfl, -, -, rfl⟩ | ⟨rfl, rfl⟩
      · exact ⟨⟨rfl, rfl⟩, d₀, rfl, rfl, rfl⟩
      · exact ⟨⟨rfl, rfl⟩, d, rfl, rfl, rfl⟩
    obtain ⟨⟨husers, hobjects⟩, d₀, hd₀, hid, hsocketfd⟩ := hlogin
    simp only [Table.addNewUser, Table.answer, husers, hobjects] at hv
    by_cases hi : i = seat
    · subst hi
      rw [Function.update_self, Option.some.injEq] at hv
      subst hv
      exact .inr ⟨hfree, rfl, id, ans, x, d₀, rest, rfl, hx, hd₀, hid, hsocketfd⟩
    · rw [Function.update_of_ne hi] at hv
      exact .inl ⟨v, hv, rfl, rfl, .inl rfl⟩

theorem came_of_moved {e : Event R} {msg : Option Msg} (h : Moved r g t e t' msg) {i : Nat} {v : User}
    (hv : t'.m_tableUserMap i = some v) : Came r t e i v := by
  cases h with
  | unknown | gone | receive | play | create | login | disconnect => exact came_kept (kept_of_eq rfl rfl) hv
  | @serve userId socketfd cmd rest t₁ work _ _ hc =>
    have hkept := kept_command (r := r) (g := g) (t.take socketfd rest) userId cmd
    rw [hc] at hkept
    exact came_kept (t := t) ⟨hkept.users, hkept.objects⟩ hv
  | @stopRound t₁ work _ hs =>
    have hkept := kept_stop (r := r) (g := g) t
    rw [hs] at hkept
    exact came_kept hkept hv
  | @resume id ans x rest work t₁ msg hx hp =>
    by_cases hlogin : x.login = none
    · by_cases hremoved : ∃ object asked, x = .removed object asked
      · obtain ⟨object, asked, rfl⟩ := hremoved
        cases hp
        exact .inl ⟨v, (Option.filter_eq_some_iff.mp hv).1, rfl, rfl, .inl rfl⟩
      · by_cases hreset : x = .reset
        · subst hreset
          cases hp
          cases hv
        · have hkept := kept_of_perform hlogin (fun object asked he => hremoved ⟨object, asked, he⟩) hreset hp
          exact came_kept ⟨hkept.users, hkept.objects⟩ hv
    · obtain ⟨-, new, -, hentry⟩ := entry_of_perform hlogin hp
      exact came_entry hx hentry hv

/-- Why a user is not at the table any more. -/
def Gone (t : Table R) (e : Event R) (object : Nat) : Prop :=
  ∃ id ans rest, e = .resume id ans ∧
    ((∃ asked, t.threads id = .removed object asked :: rest) ∨ t.threads id = .reset :: rest)

theorem stays_kept (h : Kept t t') {i : Nat} {u : User} (hu : t.m_tableUserMap i = some u) :
    ∃ v, t'.m_tableUserMap i = some v ∧ v.object = u.object ∧ v.m_userId = u.m_userId := by
  have hi := h.users i
  rw [hu, Option.map_some, Option.map_eq_some_iff] at hi
  obtain ⟨v, hv, hfixed⟩ := hi
  obtain ⟨hobject, hid, -⟩ := fixed_eq hfixed
  exact ⟨v, hv, hobject, hid⟩

theorem stays_entry {id : Nat} {x : Task} {new : List Task} (h : Entry r t id x t' new) {i : Nat} {u : User}
    (hu : t.m_tableUserMap i = some u) :
    ∃ v, t'.m_tableUserMap i = some v ∧ v.object = u.object ∧ v.m_userId = u.m_userId := by
  cases h with
  | next | toCharge | failed | absent | charge => exact stays_kept (kept_of_eq rfl rfl) hu
  | full h => rcases h with ⟨-, -, -, -, -, -, rfl⟩ | ⟨-, rfl⟩ <;> exact stays_kept (kept_of_eq rfl rfl) hu
  | unsent | reconnected =>
    refine ⟨_, Option.map_eq_some_iff.mpr ⟨u, hu, rfl⟩, ?_⟩
    split <;> exact ⟨rfl, rfl⟩
  | @entered x d t₁ seat h hseat =>
    have husers : t₁.m_tableUserMap = t.m_tableUserMap := by
      rcases h with ⟨-, -, -, -, -, -, rfl⟩ | ⟨-, rfl⟩ <;> rfl
    have hi : i ≠ seat := by
      rintro rfl
      rw [(autoSeat_some hseat).2] at hu
      cases hu
    refine ⟨u, ?_, rfl, rfl⟩
    simp only [Table.addNewUser, Table.answer, husers, Function.update_of_ne hi]
    exact hu

theorem stays_of_moved {e : Event R} {msg : Option Msg} (h : Moved r g t e t' msg) {i : Nat} {u : User}
    (hu : t.m_tableUserMap i = some u) :
    (∃ v, t'.m_tableUserMap i = some v ∧ v.object = u.object ∧ v.m_userId = u.m_userId) ∨ Gone t e u.object := by
  cases h with
  | unknown | gone | receive | play | create | login | disconnect => exact .inl ⟨u, hu, rfl, rfl⟩
  | @serve userId socketfd cmd rest t₁ work _ _ hc =>
    have hkept := kept_command (r := r) (g := g) (t.take socketfd rest) userId cmd
    rw [hc] at hkept
    exact .inl (stays_kept hkept hu)
  | @stopRound t₁ work _ hs =>
    have hkept := kept_stop (r := r) (g := g) t
    rw [hs] at hkept
    exact .inl (stays_kept hkept hu)
  | @resume id ans x rest work t₁ msg hx hp =>
    by_cases hlogin : x.login = none
    · by_cases hremoved : ∃ object asked, x = .removed object asked
      · obtain ⟨object, asked, rfl⟩ := hremoved
        by_cases hobject : object = u.object
        · subst hobject
          exact .inr ⟨id, ans, rest, rfl, .inl ⟨asked, hx⟩⟩
        · cases hp
          refine .inl ⟨u, Option.filter_eq_some_iff.mpr ⟨hu, ?_⟩, rfl, rfl⟩
          simpa using Ne.symm hobject
      · by_cases hreset : x = .reset
        · subst hreset
          exact .inr ⟨id, ans, rest, rfl, .inr hx⟩
        · have hkept := kept_of_perform hlogin (fun object asked he => hremoved ⟨object, asked, he⟩) hreset hp
          exact .inl (stays_kept hkept hu)
    · obtain ⟨-, new, -, hentry⟩ := entry_of_perform hlogin hp
      exact .inl (stays_entry hentry hu)

/-- Every user is at the seat of its record, no user is at two, and a seat that is taken is not given to another. -/
theorem seats_allocated (r : Room) (g : Game R) {round : R} {es : List (Event R)}
    (h : Lts.run (tableStep r g) (initial round) es = some t) :
    Seating r t ∧ ∀ e t', tableStep r g t e = some t' → ∀ i u v, t.m_tableUserMap i = some u →
      t'.m_tableUserMap i = some v → v.object = u.object ∧ v.m_userId = u.m_userId :=
  ⟨(seated_of_run h).seating, fun _ _ hstep _ _ _ hu hv => unmoved_of_step (seated_of_run h) hstep hu hv⟩

/-- A coin room and a battle room for two, and what the other services answer to a user with a right key, diamonds
and money. -/
def coinRoom : Room := ⟨7, 1, 100, false, 2, 0, 0, none⟩

def battleRoom : Room := ⟨7, 1, 100, true, 2, 0, 1, some fun iRoundNum => some (if iRoundNum ≤ 4 then 2 else 4)⟩

def idleGame : Game Unit := ⟨id, id⟩

def fine : Answer := ⟨10, some 0, false, some 100, true, false⟩

def guest (userId socketfd : Int) : Login := ⟨userId, socketfd, false, 0, 0, 0⟩

/-- The next calls of a coroutine return. -/
def calls (id n : Nat) : List (Event Unit) := List.replicate n (.resume id fine)

theorem seats_allocated_login :
    ∃ t, Lts.run (tableStep coinRoom idleGame) (initial ())
        (.login (guest 5 3) :: calls 0 3) = some t ∧
      t.m_tableUserMap 1 = some ⟨0, 5, 1, 3, 0, false, false⟩ ∧ Seating coinRoom t := by
  have hrun : Lts.run (tableStep coinRoom idleGame) (initial ())
      (.login (guest 5 3) :: calls 0 3) = some _ := rfl
  exact ⟨_, hrun, rfl, (seats_allocated coinRoom idleGame hrun).1⟩

end Hall
end Skynet
