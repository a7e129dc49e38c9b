import Mathlib.Logic.Function.Basic
import Mathlib.Data.List.Basic
import Skynet.Lib.Run

/-!
# Skynet.WaitingClient

The services `moneyClient` and `diamondClient` (`service/moneyClient.lua`, `service/diamondClient.lua`): a call sends
a request to a remote server and waits in `skynet.wait` for a packet. The two keep one coroutine and one packet,
`m_waitingCo` and `m_waitingData`, for all the calls. A coroutine that is woken runs before the next message.

The remote server answers the requests of a connection in order, and may send other packets. When the connection is
lost, so are the answers that have not arrived.

* `Service` : what differs between the two services.
* `Answered` : what the callers rely on.
* `clients_answered` : it holds if a request is sent when no other is unanswered, and no other packet comes while a
  call waits; and only then, once every request has been answered.
-/

namespace Skynet
namespace WaitingClient

/-- `answers` is what the remote server may answer to a request, `right` what the caller may make of the result. -/
structure Service (ρ δ ω : Type) where
  valid : ρ → Bool
  failed : ω
  /-- A call wakes the coroutine that waits before it. -/
  wakes : Bool
  /-- A coroutine that has been woken clears `m_waitingData`. -/
  clears : Bool
  result : ρ → Option δ → ω
  answers : ρ → δ → Bool
  right : ρ → ω → Prop
  clears_of_wakes : wakes = true → clears = true
  right_failed : ∀ req, right req failed
  right_none : ∀ req, right req (result req none)
  right_answer : ∀ req data, answers req data = true → right req (result req (some data))

/-- What wakes a coroutine. -/
inductive Cause
  | answer (id : Nat)
  | other
  | call (id : Nat)
deriving Repr, DecidableEq

/-- The calls are numbered. -/
structure State (ρ δ ω : Type) where
  m_pSocketfd : Option Nat
  m_waitingCo : Option Nat
  m_waitingData : Option δ
  /-- The calls in `skynet.wait`, with their arguments. -/
  calls : Nat → Option ρ
  next : Nat
  /-- The requests that the server has still to answer. -/
  requests : List (Nat × ρ)
  /-- The requests whose connection was lost, the calls whose answer has arrived, what has resumed the calls, and
  what they have returned. -/
  lost : List Nat
  arrived : List Nat
  resumed : List (Nat × Cause)
  returned : List (ρ × ω)

variable {ρ δ ω : Type}

def start : State ρ δ ω :=
  { m_pSocketfd := none
    m_waitingCo := none
    m_waitingData := none
    calls := fun _ => none
    next := 0
    requests := []
    lost := []
    arrived := []
    resumed := []
    returned := [] }

namespace Service

variable (S : Service ρ δ ω)

/-- The rest of a call after `skynet.wait`. -/
def resume (s : State ρ δ ω) (co : Nat) (cause : Cause) : State ρ δ ω :=
  match s.calls co with
  | none => s
  | some req =>
    { s with
      calls := Function.update s.calls co none
      m_waitingData := if S.clears then none else s.m_waitingData
      resumed := s.resumed ++ [(co, cause)]
      returned := s.returned ++ [(req, S.result req s.m_waitingData)] }

/-- The call gets as far as `skynet.wait`. -/
def sends (s : State ρ δ ω) (req : ρ) : Bool := S.valid req && s.m_pSocketfd.any fun socketfd => 0 < socketfd

def call (s : State ρ δ ω) (req : ρ) : State ρ δ ω :=
  if S.sends s req then
    let waiting := { s with
      requests := s.requests ++ [(s.next, req)]
      m_waitingCo := some s.next
      calls := Function.update s.calls s.next (some req)
      next := s.next + 1 }
    match S.wakes, s.m_waitingCo with
    | true, some co => S.resume waiting co (.call s.next)
    | _, _ => waiting
  else { s with next := s.next + 1, returned := s.returned ++ [(req, S.failed)] }

/-- `SOCKET.receiveData`. -/
def receiveData (s : State ρ δ ω) (cause : Cause) (data : Option δ) : State ρ δ ω :=
  match s.m_waitingCo with
  | none => s
  | some co => S.resume { s with m_waitingData := data, m_waitingCo := none } co cause

end Service

/-- The connection is another one, or none. -/
def State.reconnect (s : State ρ δ ω) (socketfd : Option Nat) : State ρ δ ω :=
  { s with m_pSocketfd := socketfd, requests := [], lost := s.lost ++ s.requests.map Prod.fst }

inductive Label (ρ δ : Type)
  | connected (socketfd : Nat)
  | disconnect
  | call (req : ρ)
  /-- The answer to the next request. -/
  | answer (data : δ)
  | other (data : Option δ)
deriving Repr, DecidableEq

def Service.step (S : Service ρ δ ω) (s : State ρ δ ω) : Label ρ δ → Option (State ρ δ ω)
  | .connected socketfd => some (s.reconnect (some socketfd))
  | .disconnect => some (s.reconnect none)
  | .call req => some (S.call s req)
  | .answer data =>
    match s.requests with
    | [] => none
    | (id, req) :: rest =>
      if S.answers req data then
        some (S.receiveData { s with requests := rest, arrived := s.arrived ++ [id] } (.answer id) (some data))
      else none
  | .other data => if s.m_pSocketfd = none then none else some (S.receiveData s .other data)

/-! ### The services -/

/-- The packet of `onServerCmdGetRecord`. -/
structure UserInfo where
  iUserId : Int
  iMoney : Int
  iExp : Int
  iLevel : Int
  iWinTimes : Int
  iLoseTimes : Int
  iDrawTimes : Int
  iChips : Int
deriving Repr, DecidableEq

structure Record where
  iValue : Int
  info : Option UserInfo
deriving Repr, DecidableEq

/-- `MoneyClient:onGetUserInfo`. -/
def moneyClient : Service Int Record (Option Record) where
  valid userId := 0 < userId
  failed := none
  wakes := false
  clears := false
  result _ data := data
  answers userId data := data.info.all fun info => info.iUserId == userId
  right userId result := ∀ data, result = some data → ∀ info, data.info = some info → info.iUserId = userId
  clears_of_wakes := Bool.noConfusion
  right_failed _ _ h := nomatch h
  right_none _ _ h := nomatch h
  right_answer := by
    intro userId data h d hd info hinfo
    cases hd
    rw [hinfo, Option.all_some] at h
    exact beq_iff_eq.mp h

/-- The packet of `onDaoJuServerMainCmd`: the users with their diamonds. -/
structure DaoJu where
  iSwitchCmd : Int
  iUserTable : Option (List (Int × Int))
deriving Repr, DecidableEq

/-- The loops after `skynet.wait`, as the list of the assignments. -/
def userDiamond (userIdTable : List Int) : Option DaoJu → Option (List (Int × Int))
  | some ⟨_, some iUserTable⟩ => some (iUserTable.filter fun q => decide (q.1 ∈ userIdTable))
  | _ => none

/-- `DiamondClient:onGetUserDiamond`. -/
def diamondClient : Service (List Int) DaoJu (Option (List (Int × Int))) where
  valid userIdTable := 0 < userIdTable.length
  failed := none
  wakes := true
  clears := true
  result := userDiamond
  answers userIdTable data := data.iUserTable.any fun t => t.map Prod.fst == userIdTable
  right userIdTable result := ∀ t, result = some t → t.map Prod.fst = userIdTable
  clears_of_wakes _ := rfl
  right_failed _ := nofun
  right_none _ := nofun
  right_answer := by
    intro userIdTable data h t ht
    obtain ⟨cmd, table⟩ := data
    obtain ⟨t', rfl, heq⟩ := (Option.any_eq_true ..).mp h
    cases ht
    have heq := beq_iff_eq.mp heq
    rw [List.filter_eq_self.mpr, heq]
    intro q hq
    rw [decide_eq_true_iff, ← heq]
    exact List.mem_map_of_mem hq

/-! ### Every call gets its answer -/

/-- A call resumes with its own answer when a packet resumes it. -/
def Own (e : Nat × Cause) : Prop := e.2 ≠ .other ∧ ∀ id, e.2 = .answer id → id = e.1

structure Answered (S : Service ρ δ ω) (s : State ρ δ ω) : Prop where
  right : ∀ e ∈ s.returned, S.right e.1 e.2
  own : ∀ e ∈ s.resumed, Own e
  arrived : ∀ id ∈ s.arrived, s.calls id = none

/-- A request is sent when no other is unanswered, and no other packet comes while a call waits. -/
def Alone (S : Service ρ δ ω) (s : State ρ δ ω) : Label ρ δ → Prop
  | .call req => S.sends s req = true → s.requests = []
  | .other _ => s.m_waitingCo = none
  | _ => True

/-- The calls have been numbered, and the coroutine that is kept waits. -/
structure Wf (S : Service ρ δ ω) (s : State ρ δ ω) : Prop where
  fresh : ∀ id, s.next ≤ id → s.calls id = none
  waits : ∀ co, s.m_waitingCo = some co → s.calls co ≠ none
  sent : ∀ e ∈ s.requests, e.1 < s.next
  data : S.clears = true → s.m_waitingData = none
  arrived : ∀ id ∈ s.arrived, id < s.next

variable {S : Service ρ δ ω}

theorem wf_start : Wf S start where
  fresh _ _ := rfl
  waits _ h := nomatch h
  sent _ h := absurd h List.not_mem_nil
  data _ := rfl
  arrived _ h := absurd h List.not_mem_nil

theorem Wf.lt {s : State ρ δ ω} (h : Wf S s) {co : Nat} (hco : s.m_waitingCo = some co) : co < s.next := by
  by_contra hge
  exact h.waits co hco (h.fresh co (Nat.le_of_not_lt hge))

theorem resume_of_calls {s : State ρ δ ω} {co : Nat} {req : ρ} (cause : Cause) (h : s.calls co = some req) :
    S.resume s co cause = { s with
      calls := Function.update s.calls co none
      m_waitingData := if S.clears then none else s.m_waitingData
      resumed := s.resumed ++ [(co, cause)]
      returned := s.returned ++ [(req, S.result req s.m_waitingData)] } := by
  simp only [Service.resume, h]

/-- A coroutine that waits is resumed, and is no longer the one that is kept. -/
theorem wf_resume {s : State ρ δ ω} {co : Nat} {cause : Cause} (hfresh : ∀ id, s.next ≤ id → s.calls id = none)
    (hwaits : ∀ c, s.m_waitingCo = some c → s.calls c ≠ none ∧ c ≠ co) (hsent : ∀ e ∈ s.requests, e.1 < s.next)
    (harrived : ∀ id ∈ s.arrived, id < s.next) (hco : s.calls co ≠ none) : Wf S (S.resume s co cause) := by
  obtain ⟨req, hreq⟩ := Option.ne_none_iff_exists'.mp hco
  rw [resume_of_calls cause hreq]
  refine ⟨?_, ?_, hsent, ?_, harrived⟩
  · intro id hid
    by_cases hc : id = co
    · rw [hc]; exact Function.update_self ..
    · simp only [Function.update_of_ne hc]
      exact hfresh id hid
  · intro c hc
    simp only [Function.update_of_ne (hwaits c hc).2]
    exact (hwaits c hc).1
  · intro hclears
    exact if_pos hclears

theorem wf_receiveData {s : State ρ δ ω} (h : Wf S s) (cause : Cause) (data : Option δ) :
    Wf S (S.receiveData s cause data) := by
  simp only [Service.receiveData]
  cases hco : s.m_waitingCo with
  | none => exact h
  | some co => exact wf_resume h.fresh (fun _ h => by cases h) h.sent h.arrived (h.waits co hco)

/-- The state of a call that waits. -/
def State.waiting (s : State ρ δ ω) (req : ρ) : State ρ δ ω :=
  { s with
    requests := s.requests ++ [(s.next, req)]
    m_waitingCo := some s.next
    calls := Function.update s.calls s.next (some req)
    next := s.next + 1 }

/-- A call, by what becomes of it. -/
theorem call_cases (s : State ρ δ ω) (req : ρ) :
    (S.sends s req = false ∧
      S.call s req = { s with next := s.next + 1, returned := s.returned ++ [(req, S.failed)] }) ∨
    (S.sends s req = true ∧ S.call s req = s.waiting req) ∨
    (S.sends s req = true ∧ S.wakes = true ∧ ∃ co, s.m_waitingCo = some co ∧
      S.call s req = S.resume (s.waiting req) co (.call s.next)) := by
  simp only [Service.call]
  cases hsends : S.sends s req with
  | false => exact .inl ⟨rfl, rfl⟩
  | true =>
    rw [if_pos rfl]
    cases hwakes : S.wakes with
    | false => exact .inr (.inl ⟨rfl, rfl⟩)
    | true =>
      cases hco : s.m_waitingCo with
      | none => exact .inr (.inl ⟨rfl, rfl⟩)
      | some co => exact .inr (.inr ⟨rfl, rfl, co, rfl, rfl⟩)

theorem waiting_calls {s : State ρ δ ω} {req : ρ} {id : Nat} (h : id < s.next) :
    (s.waiting req).calls id = s.calls id := Function.update_of_ne (Nat.ne_of_lt h) ..

theorem wf_waiting {s : State ρ δ ω} (h : Wf S s) (req : ρ) : Wf S (s.waiting req) where
  fresh id hid := by
    have hlt : s.next < id := hid
    simp only [State.waiting, Function.update_of_ne (Nat.ne_of_gt hlt)]
    exact h.fresh id (Nat.le_of_lt hlt)
  waits co hco := by
    cases hco
    simp [State.waiting]
  sent e he := by
    simp only [State.waiting] at he ⊢
    rcases List.mem_append.mp he with he | he
    · exact Nat.lt_succ_of_lt (h.sent e he)
    · rw [List.mem_singleton.mp he]
      exact Nat.lt_succ_self _
  data := h.data
  arrived id hid := Nat.lt_succ_of_lt (h.arrived id hid)

theorem wf_call {s : State ρ δ ω} (h : Wf S s) (req : ρ) : Wf S (S.call s req) := by
  rcases call_cases (S := S) s req with ⟨-, hcall⟩ | ⟨-, hcall⟩ | ⟨-, -, co, hco, hcall⟩ <;> rw [hcall]
  · refine ⟨?_, h.waits, ?_, h.data, ?_⟩
    · intro id hid
      exact h.fresh id (Nat.le_of_succ_le hid)
    · intro e he
      exact Nat.lt_succ_of_lt (h.sent e he)
    · intro id hid
      exact Nat.lt_succ_of_lt (h.arrived id hid)
  · exact wf_waiting h req
  · have hw := wf_waiting h req
    refine wf_resume hw.fresh ?_ hw.sent hw.arrived ?_
    · intro c hc
      refine ⟨hw.waits c hc, ?_⟩
      cases hc
      exact Nat.ne_of_gt (h.lt hco)
    · rw [waiting_calls (h.lt hco)]
      exact h.waits co hco

theorem wf_reconnect {s : State ρ δ ω} (h : Wf S s) (socketfd : Option Nat) : Wf S (s.reconnect socketfd) where
  fresh := h.fresh
  waits := h.waits
  sent _ he := absurd he List.not_mem_nil
  data := h.data
  arrived := h.arrived

theorem wf_step {s t : State ρ δ ω} {l : Label ρ δ} (h : Wf S s) (hs : S.step s l = some t) : Wf S t := by
  cases l with
  | connected socketfd => cases hs; exact wf_reconnect h _
  | disconnect => cases hs; exact wf_reconnect h _
  | call req => cases hs; exact wf_call h req
  | answer data =>
    simp only [Service.step] at hs
    split at hs
    · cases hs
    · rename_i id req rest hreq
      split at hs
      · cases hs
        have hsent : ∀ e ∈ (id, req) :: rest, e.1 < s.next := fun e he => h.sent e (by rw [hreq]; exact he)
        have hw : Wf S { s with requests := rest, arrived := s.arrived ++ [id] } := by
          refine ⟨h.fresh, h.waits, ?_, h.data, ?_⟩
          · intro e he
            exact hsent e (List.mem_cons_of_mem _ he)
          · intro k hk
            rcases List.mem_append.mp hk with hk | hk
            · exact h.arrived k hk
            · rw [List.mem_singleton.mp hk]
              exact hsent _ (List.mem_cons_self ..)
        exact wf_receiveData hw _ _
      · cases hs
  | other data =>
    simp only [Service.step] at hs
    split at hs
    · cases hs
    · cases hs
      exact wf_receiveData h _ _

/-! ### One call at a time -/

/-- The request that is unanswered is that of the coroutine that is kept. -/
def Clean (s : State ρ δ ω) : Prop :=
  s.requests = [] ∨ ∃ co req, s.requests = [(co, req)] ∧ s.m_waitingCo = some co ∧ s.calls co = some req

theorem answered_start : Answered S start where
  right _ h := absurd h List.not_mem_nil
  own _ h := absurd h List.not_mem_nil
  arrived _ h := absurd h List.not_mem_nil

/-- A call resumes; the answers that have arrived, its own perhaps among them, are those of calls that have ended. -/
theorem answered_resume {s : State ρ δ ω} {co : Nat} {req : ρ} {cause : Cause} (hco : s.calls co = some req)
    (hright : ∀ e ∈ s.returned, S.right e.1 e.2) (hown : ∀ e ∈ s.resumed, Own e)
    (harrived : ∀ id ∈ s.arrived, id ≠ co → s.calls id = none) (hres : S.right req (S.result req s.m_waitingData))
    (hcause : Own (co, cause)) : Answered S (S.resume s co cause) := by
  rw [resume_of_calls cause hco]
  refine ⟨?_, ?_, ?_⟩
  · intro e he
    rcases List.mem_append.mp he with he | he
    · exact hright e he
    · rw [List.mem_singleton.mp he]
      exact hres
  · intro e he
    rcases List.mem_append.mp he with he | he
    · exact hown e he
    · rw [List.mem_singleton.mp he]
      exact hcause
  · intro id hid
    by_cases hc : id = co
    · rw [hc]; exact Function.update_self ..
    · simp only [Function.update_of_ne hc]
      exact harrived id hid hc

theorem answered_call {s : State ρ δ ω} (hw : Wf S s) (h : Answered S s) (hc : Clean s) (req : ρ)
    (hl : S.sends s req = true → s.requests = []) : Answered S (S.call s req) ∧ Clean (S.call s req) := by
  have hone : S.sends s req = true → (s.waiting req).requests = [(s.next, req)] := by
    intro hsends
    simp only [State.waiting, hl hsends, List.nil_append]
  have hself : (s.waiting req).calls s.next = some req := Function.update_self ..
  have hthere : ∀ id ∈ s.arrived, (s.waiting req).calls id = none := by
    intro id hid
    rw [waiting_calls (hw.arrived id hid)]
    exact h.arrived id hid
  rcases call_cases (S := S) s req with ⟨-, hcall⟩ | ⟨hsends, hcall⟩ | ⟨hsends, hwakes, co, hco, hcall⟩ <;> rw [hcall]
  · refine ⟨⟨?_, h.own, h.arrived⟩, hc⟩
    intro e he
    rcases List.mem_append.mp he with he | he
    · exact h.right e he
    · rw [List.mem_singleton.mp he]
      exact S.right_failed req
  · exact ⟨⟨h.right, h.own, hthere⟩, .inr ⟨s.next, req, hone hsends, rfl, hself⟩⟩
  · obtain ⟨r, hr⟩ := Option.ne_none_iff_exists'.mp (hw.waits co hco)
    have hr' : (s.waiting req).calls co = some r := by rw [waiting_calls (hw.lt hco)]; exact hr
    refine ⟨?_, ?_⟩
    · refine answered_resume hr' h.right h.own (fun id hid _ => hthere id hid) ?_ ⟨nofun, nofun⟩
      have hdata : (s.waiting req).m_waitingData = none := hw.data (S.clears_of_wakes hwakes)
      rw [hdata]
      exact S.right_none r
    · rw [resume_of_calls _ hr']
      refine .inr ⟨s.next, req, hone hsends, rfl, ?_⟩
      simp only [Function.update_of_ne (Nat.ne_of_gt (hw.lt hco))]
      exact hself

theorem answered_step {s t : State ρ δ ω} {l : Label ρ δ} (h : Wf S s ∧ Answered S s ∧ Clean s) (hl : Alone S s l)
    (hs : S.step s l = some t) : Wf S t ∧ Answered S t ∧ Clean t := by
  obtain ⟨hw, ha, hc⟩ := h
  refine ⟨wf_step hw hs, ?_⟩
  cases l with
  | connected socketfd => cases hs; exact ⟨⟨ha.right, ha.own, ha.arrived⟩, .inl rfl⟩
  | disconnect => cases hs; exact ⟨⟨ha.right, ha.own, ha.arrived⟩, .inl rfl⟩
  | call req => cases hs; exact answered_call hw ha hc req hl
  | answer data =>
    simp only [Service.step] at hs
    split at hs
    · cases hs
    · rename_i id req rest hreq
      split at hs
      · rename_i hans
        cases hs
        obtain hnil | ⟨co, r, hone, hco, hcalls⟩ := hc
        · rw [hnil] at hreq
          cases hreq
        · rw [hone] at hreq
          cases hreq
          have hcalls' : { s with
              requests := []
              arrived := s.arrived ++ [id]
              m_waitingData := some data
              m_waitingCo := none }.calls id = some req := hcalls
          simp only [Service.receiveData, hco]
          refine ⟨answered_resume hcalls' ha.right ha.own ?_ (S.right_answer req data hans) ⟨nofun, ?_⟩, ?_⟩
          · intro k hk hne
            rcases List.mem_append.mp hk with hk | hk
            · exact ha.arrived k hk
            · exact absurd (List.mem_singleton.mp hk) hne
          · intro k hk
            cases hk
            rfl
          · rw [resume_of_calls _ hcalls']
            exact .inl rfl
      · cases hs
  | other data =>
    simp only [Service.step] at hs
    split at hs
    · cases hs
    · cases hs
      have hnone : s.m_waitingCo = none := hl
      simp only [Service.receiveData, hnone]
      exact ⟨ha, hc⟩

/-! ### Overlapping calls -/

/-- Something has gone wrong: a packet has resumed a call that it is no answer to, or the next answer will. -/
def Bad (s : State ρ δ ω) : Prop :=
  (∃ e ∈ s.resumed, ¬Own e) ∨ s.lost ≠ [] ∨
    ∃ e rest co, s.requests = e :: rest ∧ s.m_waitingCo = some co ∧ co ≠ e.1

theorem resume_requests (s : State ρ δ ω) (co : Nat) (cause : Cause) :
    (S.resume s co cause).requests = s.requests ∧ (S.resume s co cause).m_waitingCo = s.m_waitingCo ∧
      (S.resume s co cause).lost = s.lost := by
  simp only [Service.resume]
  split <;> exact ⟨rfl, rfl, rfl⟩

theorem resume_mono (s : State ρ δ ω) (co : Nat) (cause : Cause) {e : Nat × Cause} (he : e ∈ s.resumed) :
    e ∈ (S.resume s co cause).resumed := by
  simp only [Service.resume]
  split
  · exact he
  · exact List.mem_append_left _ he

theorem receiveData_mono (s : State ρ δ ω) (cause : Cause) (data : Option δ) :
    (S.receiveData s cause data).lost = s.lost ∧ ∀ e ∈ s.resumed, e ∈ (S.receiveData s cause data).resumed := by
  simp only [Service.receiveData]
  split
  · exact ⟨rfl, fun _ he => he⟩
  · exact ⟨(resume_requests ..).2.2, fun _ he => resume_mono _ _ _ he⟩

/-- The coroutine that is kept is resumed by the packet. -/
theorem mem_receiveData {s : State ρ δ ω} {co : Nat} (hw : s.calls co ≠ none) (hco : s.m_waitingCo = some co)
    (cause : Cause) (data : Option δ) : (co, cause) ∈ (S.receiveData s cause data).resumed := by
  obtain ⟨req, hreq⟩ := Option.ne_none_iff_exists'.mp hw
  have hreq' : { s with m_waitingData := data, m_waitingCo := none }.calls co = some req := hreq
  simp only [Service.receiveData, hco, resume_of_calls cause hreq']
  exact List.mem_append_right _ (List.mem_singleton_self _)

theorem call_mono (s : State ρ δ ω) (req : ρ) :
    (S.call s req).lost = s.lost ∧ ∀ e ∈ s.resumed, e ∈ (S.call s req).resumed := by
  rcases call_cases (S := S) s req with ⟨-, hcall⟩ | ⟨-, hcall⟩ | ⟨-, -, co, -, hcall⟩ <;> rw [hcall]
  · exact ⟨rfl, fun _ he => he⟩
  · exact ⟨rfl, fun _ he => he⟩
  · exact ⟨(resume_requests ..).2.2, fun _ he => resume_mono _ _ _ he⟩

/-- A call that sends its request is the one that is kept, behind the requests before it. -/
theorem call_sends {s : State ρ δ ω} {req : ρ} (hsends : S.sends s req = true) :
    (S.call s req).requests = s.requests ++ [(s.next, req)] ∧ (S.call s req).m_waitingCo = some s.next := by
  rcases call_cases (S := S) s req with ⟨hfalse, -⟩ | ⟨-, hcall⟩ | ⟨-, -, co, -, hcall⟩
  · rw [hsends] at hfalse
    cases hfalse
  · rw [hcall]
    exact ⟨rfl, rfl⟩
  · rw [hcall]
    exact ⟨(resume_requests ..).1, (resume_requests ..).2.1⟩

theorem bad_call {s : State ρ δ ω} (hw : Wf S s) {req : ρ} (hsends : S.sends s req = true)
    (hreq : s.requests ≠ []) : Bad (S.call s req) := by
  obtain ⟨e, rest, he⟩ := List.exists_cons_of_ne_nil hreq
  obtain ⟨hrequests, hco⟩ := call_sends hsends
  rw [he, List.cons_append] at hrequests
  refine .inr (.inr ⟨e, _, _, hrequests, hco, ?_⟩)
  have hlt := hw.sent e (by rw [he]; exact List.mem_cons_self ..)
  exact Nat.ne_of_gt hlt

theorem bad_other {s : State ρ δ ω} (hw : Wf S s) (hco : s.m_waitingCo ≠ none) (data : Option δ) :
    Bad (S.receiveData s .other data) := by
  obtain ⟨co, hco⟩ := Option.ne_none_iff_exists'.mp hco
  exact .inl ⟨_, mem_receiveData (hw.waits co hco) hco _ _, fun h => h.1 rfl⟩

/-- What goes wrong stays so. -/
theorem bad_step {s t : State ρ δ ω} {l : Label ρ δ} (hw : Wf S s) (h : Bad s) (hs : S.step s l = some t) :
    Bad t := by
  have hreconnect : ∀ socketfd, Bad (s.reconnect socketfd) := by
    intro socketfd
    rcases h with hown | hlost | ⟨e, rest, co, hreq, -, -⟩
    · exact .inl hown
    · exact .inr (.inl fun hnil => hlost (List.append_eq_nil_iff.mp hnil).1)
    · refine .inr (.inl ?_)
      simp [State.reconnect, hreq]
  cases l with
  | connected socketfd => cases hs; exact hreconnect _
  | disconnect => cases hs; exact hreconnect _
  | call req =>
    cases hs
    obtain ⟨hlost', hmono⟩ := call_mono (S := S) s req
    rcases h with ⟨e, he, hown⟩ | hlost | ⟨e, rest, co, hreq, hco, hne⟩
    · exact .inl ⟨e, hmono e he, hown⟩
    · exact .inr (.inl (by rw [hlost']; exact hlost))
    · cases hsends : S.sends s req with
      | true => exact bad_call hw hsends (by rw [hreq]; exact List.cons_ne_nil _ _)
      | false =>
        have hcall : S.call s req = { s with
            next := s.next + 1
            returned := s.returned ++ [(req, S.failed)] } := by
          simp only [Service.call, hsends]
          rfl
        rw [hcall]
        exact .inr (.inr ⟨e, rest, co, hreq, hco, hne⟩)
  | answer data =>
    simp only [Service.step] at hs
    split at hs
    · cases hs
    · rename_i id req rest hreq
      split at hs
      · cases hs
        let next := { s with requests := rest, arrived := s.arrived ++ [id] }
        obtain ⟨hlost', hmono⟩ := receiveData_mono (S := S) next (.answer id) (some data)
        rcases h with ⟨e, he, hown⟩ | hlost | ⟨e, rest', co, hreq', hco, hne⟩
        · exact .inl ⟨e, hmono e he, hown⟩
        · exact .inr (.inl (by rw [hlost']; exact hlost))
        · rw [hreq] at hreq'
          cases hreq'
          have hco' : next.m_waitingCo = some co := hco
          refine .inl ⟨(co, .answer id), mem_receiveData (s := next) (hw.waits co hco) hco' _ _, ?_⟩
          intro hown
          exact hne (hown.2 id rfl).symm
      · cases hs
  | other data =>
    simp only [Service.step] at hs
    split at hs
    · cases hs
    · cases hs
      obtain ⟨hlost', hmono⟩ := receiveData_mono (S := S) s .other data
      rcases h with ⟨e, he, hown⟩ | hlost | ⟨e, rest, co, hreq, hco, hne⟩
      · exact .inl ⟨e, hmono e he, hown⟩
      · exact .inr (.inl (by rw [hlost']; exact hlost))
      · exact bad_other hw (by rw [hco]; exact nofun) data

theorem bad_of_not_alone {s t : State ρ δ ω} {l : Label ρ δ} (hw : Wf S s) (hl : ¬Alone S s l)
    (hs : S.step s l = some t) : Bad t := by
  cases l with
  | connected => exact absurd trivial hl
  | disconnect => exact absurd trivial hl
  | answer => exact absurd trivial hl
  | call req =>
    cases hs
    obtain ⟨hsends, hreq⟩ := Classical.not_imp.mp hl
    exact bad_call hw hsends hreq
  | other data =>
    simp only [Service.step] at hs
    split at hs
    · cases hs
    · cases hs
      exact bad_other hw hl data

theorem bad_of_not_guarded {s t : State ρ δ ω} {as : List (Label ρ δ)} (hw : Wf S s)
    (h : Lts.run S.step s as = some t) (hg : Bad s ∨ ¬Lts.Guarded S.step (Alone S) s as) : Bad t := by
  induction as generalizing s with
  | nil =>
    simp only [Lts.run, Option.some.injEq] at h
    rw [← h]
    exact hg.resolve_right fun hn => hn trivial
  | cons l as ih =>
    obtain ⟨u, hu, hr⟩ := Lts.run_cons.mp h
    refine ih (wf_step hw hu) hr ?_
    rcases hg with hb | hn
    · exact .inl (bad_step hw hb hu)
    · by_cases hl : Alone S s l
      · refine .inr fun hg => hn ⟨hl, ?_⟩
        intro v hv
        rw [hu] at hv
        cases hv
        exact hg
      · exact .inl (bad_of_not_alone hw hl hu)

/-! ### Runs -/

/-- Every request has been answered. -/
def Settled (s : State ρ δ ω) : Prop := s.requests = [] ∧ s.lost = []

theorem answered_iff {s : State ρ δ ω} {as : List (Label ρ δ)} (h : Lts.run S.step start as = some s) :
    (Lts.Guarded S.step (Alone S) start as → Answered S s) ∧
      (Settled s → Answered S s → Lts.Guarded S.step (Alone S) start as) := by
  refine ⟨?_, ?_⟩
  · intro hg
    exact (Lts.run_invariant_of_guarded (fun _ _ _ => answered_step) h hg
      ⟨wf_start, answered_start, .inl rfl⟩).2.1
  · intro hsettled ha
    by_contra hn
    rcases bad_of_not_guarded wf_start h (.inr hn) with ⟨e, he, hown⟩ | hlost | ⟨e, rest, co, hreq, -, -⟩
    · exact hown (ha.own e he)
    · exact hlost hsettled.2
    · rw [hsettled.1] at hreq
      cases hreq

/-- A request is sent when no other is unanswered, and no other packet comes while a call waits: then every call gets
its own answer. Otherwise some call does not, once all the requests have been answered. -/
theorem clients_answered (as : List (Label Int Record)) (bs : List (Label (List Int) DaoJu)) (s : State Int Record (Option Record))
    (t : State (List Int) DaoJu (Option (List (Int × Int)))) (hm : Lts.run moneyClient.step start as = some s)
    (hd : Lts.run diamondClient.step start bs = some t) :
    (Lts.Guarded moneyClient.step (Alone moneyClient) start as → Answered moneyClient s) ∧
    (Settled s → Answered moneyClient s → Lts.Guarded moneyClient.step (Alone moneyClient) start as) ∧
    (Lts.Guarded diamondClient.step (Alone diamondClient) start bs → Answered diamondClient t) ∧
    (Settled t → Answered diamondClient t → Lts.Guarded diamondClient.step (Alone diamondClient) start bs) :=
  ⟨(answered_iff hm).1, (answered_iff hm).2, (answered_iff hd).1, (answered_iff hd).2⟩

/-- Two users log in, and their requests go through one client. The second is given what was meant for the first. -/
theorem clients_confused :
    (∃ as s, Lts.run moneyClient.step start as = some s ∧ s.requests = [] ∧ ¬Answered moneyClient s) ∧
    ∃ as s, Lts.run diamondClient.step start as = some s ∧ s.requests = [] ∧ ¬Answered diamondClient s := by
  refine ⟨?_, ?_⟩
  · refine ⟨[.connected 1, .call 5, .call 6, .answer ⟨0, some ⟨5, 1000, 0, 1, 0, 0, 0, 0⟩⟩,
      .answer ⟨0, some ⟨6, 2000, 0, 1, 0, 0, 0, 0⟩⟩], _, rfl, rfl, ?_⟩
    intro h
    have hown := (h.own (1, .answer 0) (List.mem_singleton_self _)).2 0 rfl
    cases hown
  · refine ⟨[.connected 1, .call [5], .call [6], .answer ⟨0, some [(5, 100)]⟩, .answer ⟨0, some [(6, 200)]⟩],
      _, rfl, rfl, ?_⟩
    intro h
    have hown := (h.own (1, .answer 0) (List.mem_cons_of_mem _ (List.mem_singleton_self _))).2 0 rfl
    cases hown

/-- One after the other, the two users get their own. -/
theorem clients_alone :
    ∃ as s, Lts.run diamondClient.step start as = some s ∧
      s.returned = [([5], some [(5, 100)]), ([6], some [(6, 200)])] ∧ Answered diamondClient s := by
  have hrun : Lts.run diamondClient.step start [.connected 1, .call [5], .answer ⟨0, some [(5, 100)]⟩,
      .other none, .call [6], .answer ⟨0, some [(6, 200)]⟩] = some _ := rfl
  refine ⟨_, _, hrun, by decide, (clients_answered [] _ _ _ rfl hrun).2.2.1 ?_⟩
  simp only [Lts.Guarded]
  refine ⟨trivial, ?_⟩
  rintro _ ⟨⟩
  refine ⟨fun _ => rfl, ?_⟩
  rintro _ ⟨⟩
  refine ⟨trivial, ?_⟩
  rintro _ ⟨⟩
  refine ⟨rfl, ?_⟩
  rintro _ ⟨⟩
  refine ⟨fun _ => rfl, ?_⟩
  rintro _ ⟨⟩
  exact ⟨trivial, fun _ _ => trivial⟩

end WaitingClient
end Skynet
