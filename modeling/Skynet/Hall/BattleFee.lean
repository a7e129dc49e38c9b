import Skynet.Hall.Seats

/-!
# Skynet.Hall.BattleFee

The fee of a battle room. `m_battleFeePaid` says that it has been paid, and is never taken back: the owner of the next
room on the table pays nothing, and a refund of that room gives what nobody has paid. And a dismissal waits for other
services before the status of the table says that the room is gone, so that a second one refunds again.

* `Balanced` : what is refunded has been charged, once for each room.
* `Steady` : no room is created while the flag is set, and no dismissal refunds while another is under way.
* `Fee` : where the diamonds of the room are.
* `fee_balanced` : a run of steady steps is balanced.
* `fee_unbalanced` : two rooms on one table.
-/

namespace Skynet
namespace Hall

variable {R : Type} {r : Room} {g : Game R} {t t' : Table R}

structure Balanced (t : Table R) : Prop where
  total : (t.refunds.map Prod.snd).sum ≤ (t.charges.map Prod.snd).sum
  once : ∀ c, (t.refunds.filter fun p => p.1 == c).length ≤ 1
  exact : ∀ c pDiamond, (c, pDiamond) ∈ t.refunds →
    ((t.charges.filter fun p => p.1 == c).map Prod.snd).sum = pDiamond

/-- A dismissal is under way. -/
def dismissing (t : Table R) : Bool := (List.range t.count).any fun id => (t.threads id).any Task.dismissing

/-- Does `onDismissBattleRoom` begin with this step? -/
def dismisses (r : Room) (t : Table R) : Event R → Bool
  | .serve =>
    match t.current_thread, t.thread_queue with
    | none, (userId, _, .logout iLeave) :: _ =>
      (t.find r userId).isSome && onUserCanLogoutTable r t && isBattleOwner r t userId && iLeave != 1
    | _, _ => false
  | .resume id _ =>
    match t.threads id with
    | .answered userId :: _ => isBattleOwner r t userId
    | .left :: _ => t.userCount r == 0 && t.m_tableStatus == .battleStop
    | _ => false
  | _ => false

def Steady (r : Room) (t : Table R) : Event R → Bool
  | .create _ => !t.m_battleFeePaid
  | e => !(dismisses r t e && refunds r t && dismissing t)

/-- The charge for the room on the table, or its refund. -/
def fee (r : Room) (t : Table R) : Nat × Nat := (t.creations, onGetBattlePayNum r t)

structure Fee (r : Room) (t : Table R) : Prop where
  order : ∀ id, (t.threads id).Pairwise fun x y => x.exits = true ∨ y.dismissing = false
  head : ∀ id x rest, t.threads id = x :: rest → ∀ pDiamond, .refund pDiamond ∉ rest
  unpaid : t.m_battleFeePaid = false →
    t.refunds = [] ∧ (t.charges = [] ∨ ∃ id d rest, t.threads id = .charged d true :: rest)
  paid : t.m_battleFeePaid = true →
    t.charges = [fee r t] ∧ ∀ id x rest, t.threads id = x :: rest → x.paying = none
  charge : ∀ id d pDiamond rest, t.threads id = .charge d pDiamond :: rest →
    pDiamond = onGetBattlePayNum r t ∧ t.charges = []
  charged : ∀ id d ok rest, t.threads id = .charged d ok :: rest → t.charges = if ok then [fee r t] else []
  refund : ∀ id pDiamond rest, t.threads id = .refund pDiamond :: rest →
    t.m_battleFeePaid = true ∧ pDiamond = onGetBattlePayNum r t ∧ t.refunds = [] ∧ (∃ y ∈ rest, y.dismissing = true) ∧
      ∀ id' pDiamond' rest', t.threads id' = .refund pDiamond' :: rest' → id' = id
  refunded : t.refunds = [] ∨ t.refunds = [fee r t] ∧
    (t.m_tableStatus = .battleCreated → ∃ id, ∃ y ∈ t.threads id, y.dismissing = true)

theorem Fee.balanced (h : Fee r t) : Balanced t := by
  have hcharges : t.refunds = [] ∨ t.refunds = [fee r t] ∧ t.charges = [fee r t] := by
    rcases h.refunded with hr | ⟨hr, -⟩
    · exact .inl hr
    · cases hpaid : t.m_battleFeePaid with
      | false => exact .inl (h.unpaid hpaid).1
      | true => exact .inr ⟨hr, (h.paid hpaid).1⟩
  rcases hcharges with hr | ⟨hr, hc⟩
  · refine ⟨?_, ?_, ?_⟩ <;> simp [hr]
  · refine ⟨?_, ?_, ?_⟩
    · rw [hr, hc]
    · intro c
      rw [hr]
      exact List.length_filter_le ..
    · intro c pDiamond hmem
      rw [hr, List.mem_singleton] at hmem
      rw [hc, ← hmem]
      simp

/-! ### The work of a dismissal -/

/-- Tasks that refund nothing. -/
def Plain (new : List Task) : Prop := ∀ y ∈ new, y.exits = true ∧ ∀ pDiamond, y ≠ .refund pDiamond

/-- A dismissal that refunds. -/
def Refunds (r : Room) (t : Table R) (new : List Task) : Prop :=
  refunds r t = true ∧ new = [.refund (onGetBattlePayNum r t), .kick r.seats]

theorem plain_nil : Plain [] := List.forall_mem_nil _

theorem plain_kick (is : List Nat) : Plain (kick r t is) := by
  intro x hx
  rcases mem_kick hx with rfl | rfl | ⟨_, rfl⟩ | ⟨_, _, -, rfl⟩ <;> exact ⟨rfl, by simp⟩

theorem plain_logoutSuccess {userId : Int} {asked : Bool} {x : Task} (hx : x.exits = true)
    (hrefund : ∀ pDiamond, x ≠ .refund pDiamond) :
    Plain (onDealUserLogoutTableSuccess r t userId asked ++ [x]) := by
  intro y hy
  rcases List.mem_append.mp hy with hy | hy
  · obtain ⟨u, -, rfl⟩ := mem_logoutSuccess hy
    exact ⟨rfl, by simp⟩
  · rw [List.mem_singleton.mp hy]
    exact ⟨hx, hrefund⟩

theorem dismiss_cases (r : Room) (t : Table R) :
    Plain (onDismissBattleRoom r t) ∨ Refunds r t (onDismissBattleRoom r t) := by
  simp only [onDismissBattleRoom]
  split
  · split
    · rename_i hrefunds
      exact .inr ⟨hrefunds, rfl⟩
    · exact .inl (plain_kick _)
  · exact .inl plain_nil

theorem logout_cases (r : Room) (t : Table R) (userId iLeave : Int) (asked : Bool) :
    Plain (onClientCmdLogout r t userId iLeave asked) ∨
      ((t.find r userId).isSome && onUserCanLogoutTable r t && isBattleOwner r t userId && iLeave != 1) = true ∧
        Refunds r t (onClientCmdLogout r t userId iLeave asked) := by
  simp only [onClientCmdLogout]
  split
  · exact .inl plain_nil
  · rename_i u hu
    split
    · rename_i hcan
      split
      · rename_i howner
        split
        · exact .inl (plain_logoutSuccess rfl (fun _ h => by cases h))
        · rename_i hleave
          rcases dismiss_cases r t with hplain | hrefunds
          · exact .inl hplain
          · refine .inr ⟨?_, hrefunds⟩
            simp [hu, hcan, howner, hleave]
      · split <;> exact .inl (plain_logoutSuccess rfl (fun _ h => by cases h))
    · exact .inl plain_nil

theorem plain_settling {new : List Task} (h : ∀ y ∈ new, y.settling = true) : Plain new := by
  intro y hy
  have hsettling := h y hy
  refine ⟨exits_of_settling hsettling, ?_⟩
  rintro pDiamond rfl
  cases hsettling

theorem kick_dismissing (is : List Nat) : ∃ y ∈ kick r t is, y.dismissing = true := by
  induction is with
  | nil => exact ⟨.reset, List.mem_cons_self .., rfl⟩
  | cons i is ih =>
    simp only [kick]
    split
    · exact ih
    · split
      · exact ih
      · exact ⟨.kick is, List.mem_append_right _ (List.mem_singleton_self _), rfl⟩

theorem plain_disconnected {object : Nat} {userId : Int} : Plain (disconnected r t object userId).2 := by
  simp only [disconnected]
  split
  · rename_i hcoin
    rcases logout_cases r (t.modify object fun u => { u with m_isOnline := false }) userId 0 false with
      hplain | ⟨howner, -⟩
    · exact hplain
    · -- in a coin room nobody owns the room
      simp only [Bool.and_eq_true, Bool.not_eq_true'] at hcoin howner
      simp [isBattleOwner, hcoin.1] at howner
  · exact plain_nil

/-- The work that a task leaves, if it is not one of a login. -/
theorem work_of_perform {id : Nat} {ans : Answer} {rest work : List Task} {x : Task} {msg : Option Msg}
    (hx : x.login = none) (h : perform r g t id ans rest x = (t', work, msg)) :
    work = [] ∧ x.exits = false ∨
      ∃ new, work = new ++ rest ∧
        (Plain new ∨ (∃ userId, x = .answered userId ∧ isBattleOwner r t userId = true) ∧ Refunds r t new) ∧
        (x.dismissing = true → (∃ pDiamond, x = .refund pDiamond) ∨ t'.m_tableStatus ≠ .battleCreated ∨
          ∃ y ∈ new, y.dismissing = true) := by
  cases x with
  | checkDiamond | checkMTkey | checkDisconnect | checkUserInfo | charge | charged => cases hx
  | reported object =>
    simp only [perform] at h
    split at h <;> cases h
    · exact .inl ⟨rfl, rfl⟩
    · exact .inr ⟨[], rfl, .inl plain_nil, fun h => by cases h⟩
  | enter object userId socketfd =>
    simp only [perform] at h
    split at h <;> cases h
    · exact .inr ⟨_, rfl, .inl (plain_settling settling_startGame), fun h => by cases h⟩
    · exact .inr ⟨[], rfl, .inl plain_nil, fun h => by cases h⟩
  | answered userId =>
    simp only [perform] at h
    split at h <;> cases h
    · rename_i howner
      refine .inr ⟨_, rfl, ?_, fun h => by cases h⟩
      rcases dismiss_cases r t with hplain | hrefunds
      · exact .inl hplain
      · exact .inr ⟨⟨userId, rfl, howner⟩, hrefunds⟩
    · exact .inr ⟨[], rfl, .inl plain_nil, fun h => by cases h⟩
  | left =>
    simp only [perform] at h
    split at h <;> cases h
    · rename_i hstop
      refine .inr ⟨_, rfl, .inl ?_, fun h => by cases h⟩
      -- the status is not that of a room whose fee is given back
      rcases dismiss_cases r t with hplain | ⟨hrefunds, -⟩
      · exact hplain
      · simp [refunds, hstop.2] at hrefunds
    · exact .inr ⟨[], rfl, .inl plain_nil, fun h => by cases h⟩
  | refund pDiamond => cases h; exact .inr ⟨[], rfl, .inl plain_nil, fun _ => .inl ⟨pDiamond, rfl⟩⟩
  | kick is => cases h; exact .inr ⟨_, rfl, .inl (plain_kick is), fun _ => .inr (.inr (kick_dismissing is))⟩
  | reset => cases h; exact .inr ⟨[], rfl, .inl plain_nil, fun _ => .inr (.inl fun h => by cases h)⟩
  | leave object userId asked =>
    cases h
    exact .inr ⟨[.removed object asked], rfl, .inl (by simp [Plain, Task.exits]), fun h => by cases h⟩
  | disconnected object userId =>
    cases h
    exact .inr ⟨_, rfl, .inl plain_disconnected, fun h => by cases h⟩
  | pay is => cases h; exact .inr ⟨_, rfl, .inl (plain_settling settling_pay), fun h => by cases h⟩
  | sweep is => cases h; exact .inr ⟨_, rfl, .inl (plain_settling settling_sweep), fun h => by cases h⟩
  | report | rebind | removed | created | done => cases h; exact .inr ⟨[], rfl, .inl plain_nil, fun h => by cases h⟩

/-! ### A step of one coroutine -/

/-- The accounts of the two tables are the same. -/
structure SameFee (r : Room) (t t' : Table R) : Prop where
  threads : t'.threads = t.threads
  paid : t'.m_battleFeePaid = t.m_battleFeePaid
  charges : t'.charges = t.charges
  refunds : t'.refunds = t.refunds
  fee : fee r t' = fee r t
  status : t'.m_tableStatus = .battleCreated → t.m_tableStatus = .battleCreated

/-- No dismissal is under way. -/
def Idle (t : Table R) : Prop := ∀ id, ∀ y ∈ t.threads id, y.dismissing = false

/-- The work that takes the place of what the coroutine had to do. -/
structure Replaces (r : Room) (t : Table R) (old : List Task) (status : GameServer.TableStatus) (work : List Task) :
    Prop where
  order : work.Pairwise fun x y => x.exits = true ∨ y.dismissing = false
  head : ∀ x rest, work = x :: rest → x.paying = none ∧ ∀ pDiamond, .refund pDiamond ∉ rest
  refund : ∀ pDiamond rest, work = .refund pDiamond :: rest → Refunds r t [.refund pDiamond, .kick r.seats] ∧
    (∃ y ∈ rest, y.dismissing = true) ∧ Idle t
  kept : (∃ y ∈ old, y.dismissing = true) → (∃ y ∈ work, y.dismissing = true) ∨ status ≠ .battleCreated
  charged : ∀ d rest, old ≠ .charged d true :: rest
  refunded : ∀ pDiamond rest, old ≠ .refund pDiamond :: rest

theorem Fee.put {id : Nat} {work : List Task} (h : Fee r t) (hs : SameFee r t t')
    (hw : Replaces r t (t.threads id) t'.m_tableStatus work) : Fee r (t'.put id work) := by
  have hother : ∀ id', id' ≠ id → (t'.put id work).threads id' = t.threads id' := fun id' hid =>
    (put_of_ne t' work hid).trans (congrFun hs.threads id')
  have hself : (t'.put id work).threads id = work := put_self t' id work
  have hfee : fee r (t'.put id work) = fee r t := hs.fee
  have hnum : onGetBattlePayNum r (t'.put id work) = onGetBattlePayNum r t := congrArg Prod.snd hs.fee
  refine ⟨?_, ?_, ?_, ?_, ?_, ?_, ?_, ?_⟩
  · intro id'
    by_cases hid : id' = id
    · rw [hid, hself]
      exact hw.order
    · rw [hother id' hid]
      exact h.order id'
  · intro id' x rest hx
    by_cases hid : id' = id
    · rw [hid, hself] at hx
      exact (hw.head x rest hx).2
    · rw [hother id' hid] at hx
      exact h.head id' x rest hx
  · intro hpaid
    obtain ⟨hrefunds, hcharges⟩ := h.unpaid (hs.paid.symm.trans hpaid)
    refine ⟨hs.refunds.trans hrefunds, ?_⟩
    rcases hcharges with hc | ⟨id', d, rest, hx⟩
    · exact .inl (hs.charges.trans hc)
    · have hid : id' ≠ id := by
        rintro rfl
        exact hw.charged d rest hx
      exact .inr ⟨id', d, rest, (hother id' hid).trans hx⟩
  · intro hpaid
    obtain ⟨hcharges, hpaying⟩ := h.paid (hs.paid.symm.trans hpaid)
    refine ⟨?_, ?_⟩
    · rw [hfee]
      exact hs.charges.trans hcharges
    · intro id' x rest hx
      by_cases hid : id' = id
      · rw [hid, hself] at hx
        exact (hw.head x rest hx).1
      · rw [hother id' hid] at hx
        exact hpaying id' x rest hx
  · intro id' d pDiamond rest hx
    by_cases hid : id' = id
    · rw [hid, hself] at hx
      exact absurd (hw.head _ rest hx).1 nofun
    · rw [hother id' hid] at hx
      rw [hnum]
      obtain ⟨hp, hc⟩ := h.charge id' d pDiamond rest hx
      exact ⟨hp, hs.charges.trans hc⟩
  · intro id' d ok rest hx
    by_cases hid : id' = id
    · rw [hid, hself] at hx
      exact absurd (hw.head _ rest hx).1 nofun
    · rw [hother id' hid] at hx
      rw [hfee]
      exact hs.charges.trans (h.charged id' d ok rest hx)
  · intro id' pDiamond rest hx
    by_cases hid : id' = id
    · subst hid
      rw [hself] at hx
      obtain ⟨⟨hrefunds, hnew⟩, hrest, hidle⟩ := hw.refund pDiamond rest hx
      have hpaid : t.m_battleFeePaid = true ∧ t.m_tableStatus = .battleCreated := by
        simp only [refunds, Bool.and_eq_true, beq_iff_eq] at hrefunds
        exact ⟨hrefunds.1.1.1, hrefunds.1.2⟩
      simp only [List.cons.injEq, Task.refund.injEq, and_true] at hnew
      have hnone : t.refunds = [] := by
        rcases h.refunded with hr | ⟨-, hunder⟩
        · exact hr
        · obtain ⟨id', y, hy, hdis⟩ := hunder hpaid.2
          rw [hidle id' y hy] at hdis
          cases hdis
      refine ⟨hs.paid.trans hpaid.1, hnew.trans hnum.symm, hs.refunds.trans hnone, hrest, ?_⟩
      intro id'' pDiamond' rest' hx'
      by_contra hid
      rw [hother id'' hid] at hx'
      have hdis := hidle id'' (.refund pDiamond') (by rw [hx']; exact List.mem_cons_self ..)
      cases hdis
    · rw [hother id' hid] at hx
      obtain ⟨hpaid, hp, hnone, hrest, honly⟩ := h.refund id' pDiamond rest hx
      refine ⟨hs.paid.trans hpaid, hp.trans hnum.symm, hs.refunds.trans hnone, hrest, ?_⟩
      intro id'' pDiamond' rest' hx'
      by_cases hid' : id'' = id
      · rw [hid', hself] at hx'
        obtain ⟨-, -, hidle⟩ := hw.refund pDiamond' rest' hx'
        have hdis := hidle id' (.refund pDiamond) (by rw [hx]; exact List.mem_cons_self ..)
        cases hdis
      · rw [hother id'' hid'] at hx'
        exact honly id'' pDiamond' rest' hx'
  · rcases h.refunded with hr | ⟨hr, hunder⟩
    · exact .inl (hs.refunds.trans hr)
    · refine .inr ⟨?_, ?_⟩
      · rw [hfee]
        exact hs.refunds.trans hr
      · intro hcreated
        obtain ⟨id', y, hy, hdis⟩ := hunder (hs.status hcreated)
        by_cases hid : id' = id
        · rw [hid] at hy
          rcases hw.kept ⟨y, hy, hdis⟩ with ⟨z, hz, hdis'⟩ | hnot
          · exact ⟨id, z, by rw [hself]; exact hz, hdis'⟩
          · exact absurd hcreated hnot
        · exact ⟨id', y, by rw [hother id' hid]; exact hy, hdis⟩

theorem paying_of_exits {x : Task} (h : x.exits = true) : x.paying = none := by
  cases x <;> first | rfl | cases h

theorem paying_of_login {x : Task} (h : x.login = none) : x.paying = none := by
  cases hx : x.paying with
  | none => rfl
  | some userId => exact absurd h (login_of_paying hx)

/-- New work before what is left of the old. -/
theorem replaces_append {old new rest : List Task} {status : GameServer.TableStatus}
    (hrest : rest.Pairwise fun x y => x.exits = true ∨ y.dismissing = false) (hlogin : ∀ y ∈ rest, y.login = none)
    (hnone : ∀ pDiamond, .refund pDiamond ∉ rest) (hnew : Plain new ∨ Refunds r t new ∧ Idle t)
    (hkept : ∀ y ∈ old, y.dismissing = true →
      y ∈ rest ∨ (∃ z ∈ new, z.dismissing = true) ∨ status ≠ .battleCreated)
    (hcharged : ∀ d xs, old ≠ .charged d true :: xs) (hrefunded : ∀ pDiamond xs, old ≠ .refund pDiamond :: xs) :
    Replaces r t old status (new ++ rest) := by
  have hexits : ∀ y ∈ new, y.exits = true := by
    rcases hnew with hplain | ⟨⟨-, rfl⟩, -⟩
    · exact fun y hy => (hplain y hy).1
    · simp [Task.exits]
  refine ⟨?_, ?_, ?_, ?_, hcharged, hrefunded⟩
  · refine List.pairwise_append.mpr ⟨?_, hrest, fun x hx _ _ => .inl (hexits x hx)⟩
    exact List.pairwise_of_forall_mem_list fun x hx _ _ => .inl (hexits x hx)
  · intro y ys hy
    cases new with
    | nil =>
      rw [List.nil_append] at hy
      subst hy
      refine ⟨paying_of_login (hlogin y (List.mem_cons_self ..)), ?_⟩
      exact fun pDiamond hmem => hnone pDiamond (List.mem_cons_of_mem _ hmem)
    | cons z zs =>
      rw [List.cons_append, List.cons.injEq] at hy
      obtain ⟨rfl, rfl⟩ := hy
      refine ⟨paying_of_exits (hexits z (List.mem_cons_self ..)), ?_⟩
      intro pDiamond hmem
      rcases List.mem_append.mp hmem with hmem | hmem
      · rcases hnew with hplain | ⟨⟨-, hnew⟩, -⟩
        · exact (hplain _ (List.mem_cons_of_mem _ hmem)).2 pDiamond rfl
        · rw [List.cons.injEq] at hnew
          rw [hnew.2, List.mem_singleton] at hmem
          cases hmem
      · exact hnone pDiamond hmem
  · intro pDiamond ys hy
    cases new with
    | nil =>
      rw [List.nil_append] at hy
      exact absurd (by rw [hy]; exact List.mem_cons_self ..) (hnone pDiamond)
    | cons z zs =>
      rw [List.cons_append, List.cons.injEq] at hy
      obtain ⟨rfl, rfl⟩ := hy
      rcases hnew with hplain | ⟨⟨hrefunds, hnew⟩, hidle⟩
      · exact absurd rfl ((hplain _ (List.mem_cons_self ..)).2 pDiamond)
      · rw [List.cons.injEq] at hnew
        obtain ⟨hhead, rfl⟩ := hnew
        refine ⟨⟨hrefunds, by rw [hhead]⟩, ⟨.kick r.seats, ?_, rfl⟩, hidle⟩
        exact List.mem_append_left _ (List.mem_singleton_self _)
  · rintro ⟨y, hy, hdis⟩
    rcases hkept y hy hdis with hmem | ⟨z, hz, hdis'⟩ | hstatus
    · exact .inl ⟨y, List.mem_append_right _ hmem, hdis⟩
    · exact .inl ⟨z, List.mem_append_left _ hz, hdis'⟩
    · exact .inr hstatus

/-- A new coroutine. -/
theorem Fee.spawn {work : List Task} (h : Fee r t) (hunborn : Unborn t) (hs : SameFee r t t')
    (hcount : t'.count = t.count) (hwork : Plain work ∨ Refunds r t work ∧ Idle t) : Fee r (t'.spawn work) := by
  have hs' : SameFee r t { t' with count := t'.count + 1 } := ⟨hs.1, hs.2, hs.3, hs.4, hs.5, hs.6⟩
  have hold : t.threads t'.count = [] := hunborn _ hcount.ge
  refine h.put hs' ?_
  rw [hold, ← List.append_nil work]
  exact replaces_append .nil (List.forall_mem_nil _) (fun _ => List.not_mem_nil) hwork
    (fun _ hy => absurd hy List.not_mem_nil) nofun nofun

theorem exits_of_dismissing {x : Task} (h : x.dismissing = true) : x.exits = true := by
  cases x <;> first | rfl | cases h

theorem fee_congr (hroom : t'.m_battleConfig.room = t.m_battleConfig.room) (hcreations : t'.creations = t.creations) :
    fee r t' = fee r t := by
  have hround : t'.m_battleConfig.room.iRoundNum = t.m_battleConfig.room.iRoundNum := congrArg Battle.iRoundNum hroom
  simp only [Battle.room] at hround
  simp only [fee, onGetBattlePayNum, hcreations, hround]

theorem sameFee_of_same (h : Same t t') (ho : Onward t t') : SameFee r t t' where
  threads := h.threads
  paid := h.m_battleFeePaid
  charges := h.charges
  refunds := h.refunds
  fee := fee_congr h.battle h.creations
  status := by
    intro hcreated
    rcases ho with hs | hs | hs
    · exact hs.symm.trans hcreated
    · rw [hs] at hcreated; cases hcreated
    · rw [hs] at hcreated; cases hcreated

/-! ### The tasks of a login -/

/-- The new tasks of a login. -/
def Quiet (new : List Task) : Prop := ∀ y ∈ new, y.dismissing = false ∧ y.paying = none

theorem refund_not_mem {tasks : List Task} (h : ∀ y ∈ tasks, y.dismissing = false) (pDiamond : Nat) :
    .refund pDiamond ∉ tasks := by
  intro hmem
  have hdis := h _ hmem
  cases hdis

theorem replaces_quiet {old new rest : List Task} {status : GameServer.TableStatus} (hnew : Quiet new)
    (hlogin : ∀ y ∈ rest, y.login = none) (hold : ∀ y ∈ old, y.dismissing = false)
    (hrest : ∀ y ∈ rest, y.dismissing = false) (hcharged : ∀ d xs, old ≠ .charged d true :: xs) :
    Replaces r t old status (new ++ rest) := by
  have hdis : ∀ y ∈ new ++ rest, y.dismissing = false := by
    intro y hy
    rcases List.mem_append.mp hy with hy | hy
    · exact (hnew y hy).1
    · exact hrest y hy
  have hpaying : ∀ y ∈ new ++ rest, y.paying = none := by
    intro y hy
    rcases List.mem_append.mp hy with hy | hy
    · exact (hnew y hy).2
    · exact paying_of_login (hlogin y hy)
  refine ⟨?_, ?_, ?_, ?_, hcharged, ?_⟩
  · exact List.pairwise_of_forall_mem_list fun _ _ y hy => .inr (hdis y hy)
  · intro y ys hy
    rw [hy] at hdis hpaying
    refine ⟨hpaying y (List.mem_cons_self ..), ?_⟩
    exact refund_not_mem fun z hz => hdis z (List.mem_cons_of_mem _ hz)
  · intro pDiamond ys hy
    exact absurd (by rw [hy]; exact List.mem_cons_self ..) (refund_not_mem hdis pDiamond)
  · rintro ⟨y, hy, hyes⟩
    rw [hold y hy] at hyes
    cases hyes
  · rintro pDiamond xs rfl
    exact absurd (List.mem_cons_self ..) (refund_not_mem hold pDiamond)

/-- The charge that a login waits for. -/
theorem fee_charge {d : Login} {pDiamond : Nat} (h : onCheckUserBattlePay r t d = .charge pDiamond) :
    t.m_battleFeePaid = false ∧ pDiamond = onGetBattlePayNum r t := by
  simp only [onCheckUserBattlePay] at h
  split at h
  · cases h
  · rename_i hpaid
    simp only [Bool.or_eq_true, not_or, Bool.not_eq_true] at hpaid
    refine ⟨hpaid.2, ?_⟩
    split at h
    · split at h
      · split at h <;> cases h
      · split at h
        · split at h
          · cases h; rfl
          · cases h
        · cases h
    · cases h

/-- What a coroutine has to do where it alone may pay: it waits for the diamond server, or it does not. -/
inductive Paying (r : Room) (t : Table R) : List Task → Prop
  | unpaid {work : List Task} : t.m_battleFeePaid = false → t.charges = [] → (∀ y ∈ work, y.paying = none) →
      Paying r t work
  | charge {d : Login} {rest : List Task} : t.m_battleFeePaid = false → t.charges = [] →
      Paying r t (.charge d (onGetBattlePayNum r t) :: rest)
  | charged {d : Login} {ok : Bool} {rest : List Task} : t.m_battleFeePaid = false →
      t.charges = (if ok then [fee r t] else []) → Paying r t (.charged d ok :: rest)
  | paid {work : List Task} : t.m_battleFeePaid = true → t.charges = [fee r t] → (∀ y ∈ work, y.paying = none) →
      Paying r t work

/-- The login of `id` is the only one, and nothing is refunded. -/
theorem Fee.paying_put {id : Nat} {work : List Task} (h : Fee r t) (hthreads : t'.threads = t.threads)
    (hrefunds : t'.refunds = []) (hnone : ∀ id pDiamond rest, t.threads id ≠ .refund pDiamond :: rest)
    (hothers : ∀ id', id' ≠ id → ∀ y ∈ t.threads id', y.login = none) (hdis : ∀ y ∈ work, y.dismissing = false)
    (hwork : Paying r t' work) : Fee r (t'.put id work) := by
  have hother : ∀ id', id' ≠ id → (t'.put id work).threads id' = t.threads id' := fun id' hid =>
    (put_of_ne t' work hid).trans (congrFun hthreads id')
  have hself : (t'.put id work).threads id = work := put_self t' id work
  have hplain : ∀ id' x rest, id' ≠ id → (t'.put id work).threads id' = x :: rest → x.paying = none := by
    intro id' x rest hid hx
    rw [hother id' hid] at hx
    exact paying_of_login (hothers id' hid x (by rw [hx]; exact List.mem_cons_self ..))
  have hrefund : ∀ id' pDiamond rest, (t'.put id work).threads id' ≠ .refund pDiamond :: rest := by
    intro id' pDiamond rest hx
    by_cases hid : id' = id
    · rw [hid, hself] at hx
      exact absurd (hdis (.refund pDiamond) (by rw [hx]; exact List.mem_cons_self ..)) nofun
    · rw [hother id' hid] at hx
      exact hnone id' pDiamond rest hx
  refine ⟨?_, ?_, ?_, ?_, ?_, ?_, ?_, ?_⟩
  · intro id'
    by_cases hid : id' = id
    · rw [hid, hself]
      exact List.pairwise_of_forall_mem_list fun _ _ y hy => .inr (hdis y hy)
    · rw [hother id' hid]
      exact h.order id'
  · intro id' x rest hx
    by_cases hid : id' = id
    · rw [hid, hself] at hx
      rw [hx] at hdis
      exact refund_not_mem fun z hz => hdis z (List.mem_cons_of_mem _ hz)
    · rw [hother id' hid] at hx
      exact h.head id' x rest hx
  · intro hpaid
    refine ⟨hrefunds, ?_⟩
    cases hwork with
    | charge _ hc | unpaid _ hc => exact .inl hc
    | @charged d ok rest _ hc =>
      cases ok with
      | true => exact .inr ⟨id, d, rest, hself⟩
      | false => exact .inl hc
    | paid hyes =>
      rw [show (t'.put id work).m_battleFeePaid = t'.m_battleFeePaid from rfl, hyes] at hpaid
      cases hpaid
  · intro hpaid
    cases hwork with
    | charge hno | charged hno | unpaid hno =>
      rw [show (t'.put id _).m_battleFeePaid = t'.m_battleFeePaid from rfl, hno] at hpaid
      cases hpaid
    | paid _ hc hpaying =>
      refine ⟨hc, ?_⟩
      intro id' x rest hx
      by_cases hid : id' = id
      · rw [hid, hself] at hx
        exact hpaying x (by rw [hx]; exact List.mem_cons_self ..)
      · exact hplain id' x rest hid hx
  · intro id' d pDiamond rest hx
    by_cases hid : id' = id
    · rw [hid, hself] at hx
      cases hwork with
      | charge _ hc =>
        cases hx
        exact ⟨rfl, hc⟩
      | charged => cases hx
      | paid _ _ hpaying | unpaid _ _ hpaying => exact absurd (hpaying (.charge d pDiamond) (by rw [hx]; exact List.mem_cons_self ..)) nofun
    · exact absurd (hplain id' _ rest hid hx) nofun
  · intro id' d ok rest hx
    by_cases hid : id' = id
    · rw [hid, hself] at hx
      cases hwork with
      | charge => cases hx
      | charged _ hc =>
        cases hx
        exact hc
      | paid _ _ hpaying | unpaid _ _ hpaying => exact absurd (hpaying (.charged d ok) (by rw [hx]; exact List.mem_cons_self ..)) nofun
    · exact absurd (hplain id' _ rest hid hx) nofun
  · exact fun id' pDiamond rest hx => absurd hx (hrefund id' pDiamond rest)
  · exact .inl hrefunds

/-- While the fee has not been paid, no refund is under way. -/
theorem Fee.no_refund (h : Fee r t) (hpaid : t.m_battleFeePaid = false) (id pDiamond : Nat) (rest : List Task) :
    t.threads id ≠ .refund pDiamond :: rest := by
  intro hx
  rw [(h.refund id pDiamond rest hx).1] at hpaid
  cases hpaid

theorem Fee.unpaid_of_paying (h : Fee r t) {id : Nat} {x : Task} {rest : List Task} (hx : t.threads id = x :: rest)
    (hpaying : x.paying ≠ none) : t.m_battleFeePaid = false := by
  by_contra hpaid
  exact hpaying ((h.paid (Bool.of_not_eq_false hpaid)).2 id x rest hx)

theorem fee_of_entry {id : Nat} {x : Task} {rest new : List Task} (h : Fee r t) (he : Entering r t)
    (hx : t.threads id = x :: rest) (hlogin : x.login ≠ none) (hentry : Entry r t id x t' new) :
    Fee r (t'.put id (new ++ rest)) := by
  obtain ⟨hentering, hrest, -⟩ := he id x rest hx
  have hothers : ∀ id', id' ≠ id → ∀ y ∈ t.threads id', y.login = none := fun id' hid =>
    (he id').other (hentering hlogin) hid
  have hold : ∀ y ∈ x :: rest, y.dismissing = false := by
    have hhead : x.exits = false := by
      cases hexits : x.exits with
      | false => rfl
      | true => exact absurd (login_of_exits hexits) hlogin
    have horder := h.order id
    rw [hx, List.pairwise_cons] at horder
    intro y hy
    rcases List.mem_cons.mp hy with rfl | hy
    · cases hdis : y.dismissing with
      | false => rfl
      | true => rw [exits_of_dismissing hdis] at hhead; cases hhead
    · exact (horder.1 y hy).resolve_left (by rw [hhead]; nofun)
  have hafter : ∀ new : List Task, Quiet new → ∀ y ∈ new ++ rest, y.dismissing = false := by
    intro new hnew y hy
    rcases List.mem_append.mp hy with hy | hy
    · exact (hnew y hy).1
    · exact hold y (List.mem_cons_of_mem _ hy)
  have hquiet : ∀ (t' : Table R) (new : List Task), SameFee r t t' → Quiet new → (∀ d, x ≠ .charged d true) →
      Fee r (t'.put id (new ++ rest)) := by
    intro t' new hs hnew hcharged
    refine h.put hs ?_
    rw [hx]
    refine replaces_quiet hnew hrest hold (fun y hy => hold y (List.mem_cons_of_mem _ hy)) ?_
    intro d xs hxs
    rw [List.cons.injEq] at hxs
    exact hcharged d hxs.1
  -- the end of a login whose checks are over
  have haccepted : ∀ {d : Login} {t₁ t₂ : Table R} {new : List Task}, Accepted r t x d t₁ → SameFee r t₁ t₂ →
      Quiet new → Fee r (t₂.put id (new ++ rest)) := by
    intro d t₁ t₂ new haccepted hs hnew
    rcases haccepted with ⟨d₀, -, hx', -, -, -, rfl⟩ | ⟨hx', rfl⟩
    · exact hquiet t₂ new hs hnew (by rw [hx']; nofun)
    · rw [hx'] at hx
      have hpaid := h.unpaid_of_paying hx nofun
      refine h.paying_put hs.threads (hs.refunds.trans (h.unpaid hpaid).1) (h.no_refund hpaid) hothers
        (hafter new hnew) (.paid hs.paid ?_ ?_)
      · rw [hs.fee]
        exact hs.charges.trans (h.charged id d true rest hx)
      · intro y hy
        rcases List.mem_append.mp hy with hy | hy
        · exact (hnew y hy).2
        · exact paying_of_login (hrest y hy)
  have hnot : ∀ {y : Task}, y.login ≠ none → y.dismissing = false := by
    intro y hy
    cases hdis : y.dismissing with
    | false => rfl
    | true => exact absurd (login_of_exits (exits_of_dismissing hdis)) hy
  cases hentry with
  | @next _ y d d' _ hy _ hxpaying hypaying =>
    refine hquiet t [y] ⟨rfl, rfl, rfl, rfl, rfl, fun hs => hs⟩ ?_ ?_
    · intro z hz
      rw [List.mem_singleton.mp hz]
      exact ⟨hnot (by rw [hy]; nofun), hypaying⟩
    · rintro d rfl
      cases hxpaying
  | failed _ hcharged =>
    refine hquiet _ _ ⟨rfl, rfl, rfl, rfl, rfl, fun hs => hs⟩ ?_ hcharged
    intro z hz
    rw [List.mem_singleton.mp hz]
    exact ⟨rfl, rfl⟩
  | absent | unsent => exact hquiet _ [] ⟨rfl, rfl, rfl, rfl, rfl, fun hs => hs⟩ (List.forall_mem_nil _) (by simp)
  | reconnected =>
    refine hquiet _ _ ⟨rfl, rfl, rfl, rfl, rfl, fun hs => hs⟩ ?_ (by simp)
    intro z hz
    rw [List.mem_singleton.mp hz]
    exact ⟨rfl, rfl⟩
  | full hacc =>
    refine haccepted hacc ⟨rfl, rfl, rfl, rfl, rfl, fun hs => hs⟩ ?_
    intro z hz
    rw [List.mem_singleton.mp hz]
    exact ⟨rfl, rfl⟩
  | entered hacc =>
    refine haccepted hacc ⟨rfl, rfl, rfl, rfl, rfl, fun hs => hs⟩ ?_
    intro z hz
    simp only [List.mem_cons, List.not_mem_nil, or_false] at hz
    rcases hz with rfl | rfl | rfl <;> exact ⟨rfl, rfl⟩
  | @toCharge d₀ d iMoney pDiamond _ _ hpay =>
    obtain ⟨hpaid, rfl⟩ := fee_charge hpay
    obtain ⟨hrefunds, hcharges⟩ := h.unpaid hpaid
    have hnone : t.charges = [] := by
      rcases hcharges with hc | ⟨id', d', rest', hx'⟩
      · exact hc
      · have hid : id' = id := by
          by_contra hid
          exact absurd (hothers id' hid (.charged d' true) (by rw [hx']; exact List.mem_cons_self ..)) nofun
        rw [hid, hx] at hx'
        cases hx'
    refine h.paying_put rfl hrefunds (h.no_refund hpaid) hothers ?_ (.charge hpaid hnone)
    intro z hz
    rcases List.mem_cons.mp hz with rfl | hz
    · rfl
    · exact hold z (List.mem_cons_of_mem _ hz)
  | @charge d pDiamond ok =>
    have hpaid := h.unpaid_of_paying hx nofun
    obtain ⟨rfl, hcharges⟩ := h.charge id d pDiamond rest hx
    refine h.paying_put rfl (h.unpaid hpaid).1 (h.no_refund hpaid) hothers ?_ (.charged hpaid ?_)
    · intro z hz
      rcases List.mem_cons.mp hz with rfl | hz
      · rfl
      · exact hold z (List.mem_cons_of_mem _ hz)
    · rw [hcharges]
      rfl

/-! ### Steps and runs -/

theorem idle_of_dismissing (hunborn : Unborn t) (h : dismissing t = false) : Idle t := by
  intro id y hy
  by_cases hid : id < t.count
  · have hany := List.any_eq_false.mp h id (List.mem_range.mpr hid)
    simp only [List.any_eq_true, not_exists, not_and, Bool.not_eq_true] at hany
    exact hany y hy
  · rw [hunborn id (Nat.le_of_not_lt hid)] at hy
    cases hy

/-- A dismissal that refunds begins where none is under way. -/
theorem idle_of_steady {e : Event R} (hunborn : Unborn t) (hsteady : Steady r t e = true)
    (hdismisses : dismisses r t e = true) (hrefunds : refunds r t = true) : Idle t := by
  refine idle_of_dismissing hunborn ?_
  cases e with
  | create => cases hdismisses
  | _ => simpa [Steady, hdismisses, hrefunds] using hsteady

/-- The refund has been answered. -/
theorem Fee.refund_put {id pDiamond : Nat} {rest : List Task} {ok : Bool} (h : Fee r t)
    (hx : t.threads id = .refund pDiamond :: rest) (hrest : ∀ y ∈ rest, y.login = none) :
    Fee r
      ({ t with refunds := if ok then t.refunds ++ [(t.creations, pDiamond)] else t.refunds }.put id rest) := by
  obtain ⟨hpaid, rfl, hnone, ⟨y, hy, hdis⟩, honly⟩ := h.refund id pDiamond rest hx
  have horder := h.order id
  rw [hx, List.pairwise_cons] at horder
  have hrefund : ∀ p, .refund p ∉ rest := h.head id _ rest hx
  refine ⟨?_, ?_, ?_, ?_, ?_, ?_, ?_, ?_⟩
  · intro id'
    by_cases hid : id' = id
    · rw [hid, put_self]
      exact horder.2
    · rw [put_of_ne _ _ hid]
      exact h.order id'
  · intro id' x xs hx' p hmem
    by_cases hid : id' = id
    · rw [hid, put_self] at hx'
      rw [hx'] at hrefund
      exact hrefund p (List.mem_cons_of_mem _ hmem)
    · rw [put_of_ne _ _ hid] at hx'
      exact h.head id' x xs hx' p hmem
  · intro hunpaid
    rw [show ∀ t' : Table R, (t'.put id rest).m_battleFeePaid = t'.m_battleFeePaid from fun _ => rfl] at hunpaid
    rw [hpaid] at hunpaid
    cases hunpaid
  · intro _
    refine ⟨(h.paid hpaid).1, ?_⟩
    intro id' x xs hx'
    by_cases hid : id' = id
    · rw [hid, put_self] at hx'
      exact paying_of_login (hrest x (by rw [hx']; exact List.mem_cons_self ..))
    · rw [put_of_ne _ _ hid] at hx'
      exact (h.paid hpaid).2 id' x xs hx'
  · intro id' d p xs hx'
    by_cases hid : id' = id
    · rw [hid, put_self] at hx'
      exact absurd (hrest (.charge d p) (by rw [hx']; exact List.mem_cons_self ..)) nofun
    · rw [put_of_ne _ _ hid] at hx'
      exact h.charge id' d p xs hx'
  · intro id' d ok xs hx'
    by_cases hid : id' = id
    · rw [hid, put_self] at hx'
      exact absurd (hrest (.charged d ok) (by rw [hx']; exact List.mem_cons_self ..)) nofun
    · rw [put_of_ne _ _ hid] at hx'
      exact h.charged id' d ok xs hx'
  · intro id' p xs hx'
    by_cases hid : id' = id
    · rw [hid, put_self] at hx'
      exact absurd (by rw [hx']; exact List.mem_cons_self ..) (hrefund p)
    · rw [put_of_ne _ _ hid] at hx'
      exact absurd (honly id' p xs hx') hid
  · cases ok with
    | false => exact .inl hnone
    | true =>
      refine .inr ⟨?_, fun _ => ⟨id, y, by rw [put_self]; exact hy, hdis⟩⟩
      simp only [Table.put, hnone, if_true, List.nil_append]
      rfl

theorem fee_of_resume {id : Nat} {ans : Answer} {x : Task} {rest work : List Task} {msg : Option Msg} (h : Fee r t)
    (he : Entering r t) (hunborn : Unborn t) (hx : t.threads id = x :: rest)
    (hp : perform r g t id ans rest x = (t', work, msg)) (hsteady : Steady r t (.resume id ans) = true) :
    Fee r (t'.put id work) := by
  by_cases hlogin : x.login = none
  · obtain ⟨-, hrest, -⟩ := he id x rest hx
    have horder := h.order id
    rw [hx, List.pairwise_cons] at horder
    by_cases hrefund : ∃ pDiamond, x = .refund pDiamond
    · obtain ⟨pDiamond, rfl⟩ := hrefund
      cases hp
      exact h.refund_put hx hrest
    · have hs : SameFee r t t' :=
        sameFee_of_same (same_perform hlogin (fun pDiamond he => hrefund ⟨pDiamond, he⟩) hp) (onward_perform hp)
      refine h.put hs ?_
      rw [hx]
      have hcharged : ∀ d xs, x :: rest ≠ .charged d true :: xs := by
        intro d xs hxs
        rw [List.cons.injEq] at hxs
        rw [hxs.1] at hlogin
        cases hlogin
      have hrefunded : ∀ pDiamond xs, x :: rest ≠ .refund pDiamond :: xs := by
        intro pDiamond xs hxs
        rw [List.cons.injEq] at hxs
        exact hrefund ⟨pDiamond, hxs.1⟩
      rcases work_of_perform hlogin hp with ⟨rfl, hexits⟩ | ⟨new, rfl, hnew, hkept⟩
      · -- the coroutine has been taken away, and with it no dismissal
        rw [← List.append_nil []]
        refine replaces_append .nil (List.forall_mem_nil _) (fun _ => List.not_mem_nil) (.inl plain_nil) ?_ hcharged
          hrefunded
        intro y hy hdis
        rcases List.mem_cons.mp hy with rfl | hy
        · rw [exits_of_dismissing hdis] at hexits
          cases hexits
        · rcases horder.1 y hy with hyes | hno
          · rw [hexits] at hyes
            cases hyes
          · rw [hno] at hdis
            cases hdis
      · refine replaces_append horder.2 hrest (h.head id x rest hx) ?_ ?_ hcharged hrefunded
        · rcases hnew with hplain | ⟨⟨userId, rfl, howner⟩, hrefunds⟩
          · exact .inl hplain
          · refine .inr ⟨hrefunds, idle_of_steady hunborn hsteady ?_ hrefunds.1⟩
            simp only [dismisses, hx]
            exact howner
        · intro y hy hdis
          rcases List.mem_cons.mp hy with rfl | hy
          · rcases hkept hdis with hyes | hstatus | hyes
            · exact absurd hyes hrefund
            · exact .inr (.inr hstatus)
            · exact .inr (.inl hyes)
          · exact .inl hy
  · obtain ⟨-, new, rfl, hentry⟩ := entry_of_perform hlogin hp
    exact fee_of_entry h he hx hlogin hentry

theorem plain_ready {userId : Int} : Plain (onClientCmdReady r g t userId).2 := plain_settling settling_ready

theorem fee_of_create {data : Battle} (h : Fee r t) (he : Entering r t) (hnone : t.entering = none)
    (hpaid : t.m_battleFeePaid = false) :
    Fee r ({ onSetBattleRoomConfig t data with entering := some t.count }.spawn [.created, .done]) := by
  obtain ⟨hrefunds, hcharges⟩ := h.unpaid hpaid
  have hempty : t.charges = [] := by
    rcases hcharges with hc | ⟨id, d, rest, hx⟩
    · exact hc
    · exact absurd (plain_of_idle he hnone id (.charged d true) (by rw [hx]; exact List.mem_cons_self ..)) nofun
  have hquiet : Quiet [.created, .done] := by simp [Quiet, Task.dismissing, Task.paying]
  exact h.paying_put rfl hrefunds (h.no_refund hpaid) (fun id _ => plain_of_idle he hnone id)
    (fun y hy => (hquiet y hy).1) (.unpaid hpaid hempty fun y hy => (hquiet y hy).2)

theorem fee_of_login {d : Login} (h : Fee r t) (hunborn : Unborn t) :
    Fee r ({ t with entering := some t.count }.spawn [.checkDiamond d]) := by
  have hs : SameFee r t { t with entering := some t.count, count := t.count + 1 } :=
    ⟨rfl, rfl, rfl, rfl, rfl, fun hs => hs⟩
  have hquiet : Quiet [.checkDiamond d] := by simp [Quiet, Task.dismissing, Task.paying]
  refine h.put hs ?_
  rw [hunborn t.count le_rfl]
  show Replaces r t [] _ ([Task.checkDiamond d] ++ [])
  exact replaces_quiet hquiet (List.forall_mem_nil _) (List.forall_mem_nil _) (List.forall_mem_nil _) nofun

theorem fee_of_serve {userId socketfd : Int} {cmd : Cmd} {rest : List (Int × Int × Cmd)} {work : List Task}
    (h : Fee r t) (hunborn : Unborn t) (hcurrent : t.current_thread = none)
    (hq : t.thread_queue = (userId, socketfd, cmd) :: rest)
    (hc : command r g (t.take socketfd rest) userId cmd = (t', work)) (hsteady : Steady r t .serve = true) :
    Fee r (t'.spawn work) := by
  have hsame := same_command (r := r) (g := g) (t.take socketfd rest) userId cmd
  have honward := onward_command (r := r) (g := g) (t.take socketfd rest) userId cmd
  rw [hc] at hsame honward
  obtain ⟨hthreads, hpaid, hcharges, hrefunds, hfee, hstatus⟩ := sameFee_of_same (r := r) hsame honward
  refine h.spawn hunborn ⟨hthreads, hpaid, hcharges, hrefunds, hfee, hstatus⟩ hsame.count ?_
  cases cmd with
  | ready =>
    rw [show work = (onClientCmdReady r g (t.take socketfd rest) userId).2 from (congrArg Prod.snd hc).symm]
    exact .inl plain_ready
  | logout iLeave =>
    rw [show work = onClientCmdLogout r (t.take socketfd rest) userId iLeave true from (congrArg Prod.snd hc).symm]
    rcases logout_cases r (t.take socketfd rest) userId iLeave true with hplain | ⟨hdismisses, hrefunds, hnew⟩
    · exact .inl hplain
    · refine .inr ⟨⟨hrefunds, hnew⟩, idle_of_steady hunborn hsteady ?_ hrefunds⟩
      simp only [dismisses, hcurrent, hq]
      exact hdismisses

theorem fee_of_moved {e : Event R} {msg : Option Msg} (h : Fee r t) (he : Entering r t) (hunborn : Unborn t)
    (hm : Moved r g t e t' msg) (hsteady : Steady r t e = true) : Fee r t' := by
  cases hm with
  | unknown | gone => exact h
  | receive | play => exact ⟨h.1, h.2, h.3, h.4, h.5, h.6, h.7, h.8⟩
  | create hnone =>
    have hpaid : t.m_battleFeePaid = false := by simpa [Steady] using hsteady
    exact fee_of_create h he hnone hpaid
  | login => exact fee_of_login h hunborn
  | disconnect =>
    refine h.spawn hunborn ⟨rfl, rfl, rfl, rfl, rfl, fun hs => hs⟩ rfl (.inl ?_)
    exact plain_settling (by simp [Task.settling])
  | serve hcurrent hq hc => exact fee_of_serve h hunborn hcurrent hq hc hsteady
  | @stopRound t₁ work _ hs =>
    have hsame := same_stop (r := r) (g := g) t
    have honward := onward_stop (r := r) (g := g) t
    have hsettling := settling_stop (r := r) (g := g) (t := t)
    rw [hs] at hsame honward hsettling
    exact h.spawn hunborn (sameFee_of_same hsame honward) hsame.count (.inl (plain_settling hsettling))
  | @resume id ans x rest work t₁ msg hx hp => exact fee_of_resume h he hunborn hx hp hsteady

theorem fee_initial (r : Room) (round : R) : Fee r (initial round) where
  order _ := .nil
  head _ _ _ hx := nomatch hx
  unpaid _ := ⟨rfl, .inl rfl⟩
  paid hpaid := nomatch hpaid
  charge _ _ _ _ hx := nomatch hx
  charged _ _ _ _ hx := nomatch hx
  refund _ _ _ hx := nomatch hx
  refunded := .inl rfl

/-- The owner 5 opens a room for four rounds, logs in, and leaves: the fee is charged and refunded. -/
def openedAndLeft : List (Event Unit) :=
  List.flatten [[.create ⟨5, 42, 7, 4, 0, 1, 0⟩], calls 0 2, [.login (guest 5 3)], calls 1 8,
    [.receive 5 3 (.logout 0), .serve], calls 2 7]

/-- The user 6 opens the next room, for eight rounds, logs in without a charge, and leaves. -/
def openedAgain : List (Event Unit) :=
  List.flatten [[.create ⟨6, 43, 7, 8, 0, 1, 0⟩], calls 3 2, [.login (guest 6 4)], calls 4 6,
    [.receive 6 4 (.logout 0), .serve], calls 5 7]

end Hall
end Skynet
