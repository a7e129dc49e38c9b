import Skynet.Snax.Msgserver

/-!
# Skynet.Snax.Responses

The responses that the server keeps (`u.response`), and what a step does to them.

* `Core` : the tables of the requests, without the connections.
* `step_turn` : what a step does to them, case by case.
* `retireLoop_spec` : which responses are dropped, and how the others are numbered afterwards.
-/

namespace Skynet
namespace Msgserver

variable {ι : Type*}

structure Core (ι : Type*) where
  response : Nat → List (Nat × Nat)
  index : Nat → Nat
  cells : Nat → Cell ι
  ncells : Nat
  tasks : List Task

def core (s : Server ι) : Core ι where
  response u := (s.users u).response
  index u := (s.users u).index
  cells := s.cells
  ncells := s.ncells
  tasks := s.tasks

namespace Core

def setCell (k : Core ι) (c : Nat) (cell : Cell ι) : Core ι := { k with cells := Function.update k.cells c cell }

def drop (k : Core ι) (u session : Nat) : Core ι :=
  { k with response := Function.update k.response u ((k.response u).filter fun p => p.1 ≠ session) }

def call (k : Core ι) (u session fd : Nat) : Core ι where
  response := Function.update k.response u ((session, k.ncells) :: (k.response u).filter fun p => p.1 ≠ session)
  index := k.index
  cells := Function.update k.cells k.ncells ⟨some fd, none, none, 0⟩
  ncells := k.ncells + 1
  tasks := k.tasks ++ [⟨u, k.ncells, session, fd⟩]

def retire (expired_number : Nat) (k : Core ι) (u : Nat) : Core ι :=
  if expired_number * 2 ≤ k.index u then
    let r := retireLoop expired_number (k.response u) k.cells 0
    { k with
      response := Function.update k.response u r.1
      index := Function.update k.index u (r.2.2 + 1)
      cells := r.2.1 }
  else k

def answer (expired_number : Nat) (k : Core ι) (u c : Nat) : Core ι :=
  retire expired_number
    ({ k with index := Function.update k.index u (k.index u + 1) }.setCell c { k.cells c with fd := none }) u

end Core

/-! ### The steps on the tables of the requests -/

section Projections

variable (env : Env ι) (s : Server ι)

theorem users_update {α : Type*} (f : User ι → α) (u : Nat) (user : User ι) :
    (fun v => f ((s.setUser u user).users v)) = Function.update (fun v => f (s.users v)) u (f user) := by
  funext v
  by_cases hv : v = u
  · subst hv
    simp only [Server.setUser, Function.update_self]
  · simp only [Server.setUser, Function.update_of_ne hv]

/-- A change of a user that keeps its responses. -/
theorem core_setUser {u : Nat} {user : User ι} (hresponse : user.response = (s.users u).response)
    (hindex : user.index = (s.users u).index) : core (s.setUser u user) = core s := by
  have hr := users_update s User.response u user
  have hi := users_update s User.index u user
  rw [hresponse, Function.update_eq_self u (fun v => (s.users v).response)] at hr
  rw [hindex, Function.update_eq_self u (fun v => (s.users v).index)] at hi
  simp only [core, hr, hi]
  rfl

theorem core_setResponse (u : Nat) (response : List (Nat × Nat)) :
    core (s.setResponse u response) = { core s with response := Function.update (core s).response u response } := by
  have hr := users_update s User.response u { s.users u with response := response }
  have hi := users_update s User.index u { s.users u with response := response }
  rw [Function.update_eq_self u (fun v => (s.users v).index)] at hi
  simp only [core, Server.setResponse, hr, hi]
  rfl

@[simp] theorem core_setCell (c : Nat) (cell : Cell ι) : core (s.setCell c cell) = (core s).setCell c cell := rfl

@[simp] theorem core_closeclient (fd : Nat) : core (closeclient s fd).1 = core s := by
  unfold closeclient
  split <;> rfl

theorem core_call (u fd session : Nat) (message : Bytes) :
    core (call s u fd session message).1 = (core s).call u session fd := by
  have h := core_setResponse (s.setCell s.ncells ⟨some fd, none, none, 0⟩) u
    ((session, s.ncells) :: (s.users u).response.filter fun p => p.1 ≠ session)
  simp only [call, Core.call]
  simp only [core, Core.mk.injEq] at h ⊢
  exact ⟨h.1, h.2.1, h.2.2.1, trivial, trivial⟩

theorem core_retire (u : Nat) : core (retireResponse env s u) = (core s).retire env.expired_number u := by
  unfold retireResponse Core.retire
  change core (if env.expired_number * 2 ≤ (s.users u).index then _ else s) =
    if env.expired_number * 2 ≤ (s.users u).index then _ else _
  split
  · simp only [core]
    have hr := users_update s User.response u { s.users u with
      response := (retireLoop env.expired_number (s.users u).response s.cells 0).1
      index := (retireLoop env.expired_number (s.users u).response s.cells 0).2.2 + 1 }
    have hi := users_update s User.index u { s.users u with
      response := (retireLoop env.expired_number (s.users u).response s.cells 0).1
      index := (retireLoop env.expired_number (s.users u).response s.cells 0).2.2 + 1 }
    rw [← hr, ← hi]
    rfl
  · rfl

theorem core_answer (u c : Nat) : core (answer env s u c).1 = (core s).answer env.expired_number u c := by
  have hr := users_update s User.response u { s.users u with index := (s.users u).index + 1 }
  have hi := users_update s User.index u { s.users u with index := (s.users u).index + 1 }
  rw [Function.update_eq_self u (fun v => (s.users v).response)] at hr
  simp only [answer, core_retire, core_setCell, Core.answer]
  congr 2
  simp only [core, hr, hi]
  rfl

end Projections

/-! ### What a step does to them -/

def sessionOf (msg : Bytes) : Nat := Endian.ofBe (msg.drop (msg.length - 4))

/-- A request that is known and comes again in another version. -/
def Core.again (k : Core ι) (c fd : Nat) (version : ι) (u : Nat) : Core ι :=
  k.setCell c { k.cells c with fd := some fd, version := some version, index := k.index u }

def Core.finish (k : Core ι) (i : Nat) : Core ι := { k with tasks := k.tasks.eraseIdx i }

/-- The cell of a task has its response. -/
def Core.ready (k : Core ι) (t : Task) (response : Bytes) (version : ι) : Core ι :=
  k.setCell t.cell { k.cells t.cell with response := some response, version := some version, index := k.index t.user }

inductive Turn (env : Env ι) (s : Server ι) : Event → Core ι → Prop
  | quiet {e : Event} : Turn env s e (core s)
  | conflict {fd u c : Nat} {msg : Bytes} : s.connection fd = some u →
      (s.users u).response.lookup (sessionOf msg) = some c → (s.cells c).version = some (s.users u).version →
      (s.cells c).response = none → Turn env s (.message fd msg) ((core s).drop u (sessionOf msg))
  | call {fd u : Nat} {msg : Bytes} : s.connection fd = some u → s.handshake fd = none →
      Turn env s (.message fd msg) ((core s).call u (sessionOf msg) fd)
  | again {fd u c : Nat} {msg : Bytes} : s.connection fd = some u → s.handshake fd = none →
      (s.users u).response.lookup (sessionOf msg) = some c → (s.cells c).version ≠ some (s.users u).version →
      (s.cells c).response = none → Turn env s (.message fd msg) ((core s).again c fd (s.users u).version u)
  | resend {fd u c : Nat} {msg data : Bytes} : s.connection fd = some u → s.handshake fd = none →
      (s.users u).response.lookup (sessionOf msg) = some c → (s.cells c).version ≠ some (s.users u).version →
      (s.cells c).response = some data →
      Turn env s (.message fd msg) (((core s).again c fd (s.users u).version u).answer env.expired_number u c)
  | failed {i : Nat} {t : Task} {ok : Bool} {result : Bytes} : s.tasks[i]? = some t →
      packed t.session ok result = none → Turn env s (.done i ok result) ((core s).finish i)
  | returned {i : Nat} {t : Task} {ok : Bool} {result data : Bytes} : s.tasks[i]? = some t →
      packed t.session ok result = some data → Turn env s (.done i ok result)
        ((((core s).finish i).ready t data (s.users t.user).version).answer env.expired_number t.user t.cell)

theorem core_login [Zero ι] (s : Server ι) (hnew : (s.users s.nusers).response = [] ∧ (s.users s.nusers).index = 0)
    (username secret : Bytes) : core (login s username secret) = core s := by
  unfold login
  split
  · rfl
  · exact core_setUser s hnew.1.symm hnew.2.symm

theorem core_logout (s : Server ι) (username : Bytes) : core (logout s username).1 = core s := by
  unfold logout
  split
  · rfl
  · dsimp only
    split
    · rfl
    · exact core_closeclient _ _

theorem core_connect (env : Env ι) (s : Server ι) (fd : Nat) (addr : Bytes) :
    core (connect env s fd addr).1 = core s := by
  unfold connect
  split <;> rfl

theorem core_disconnect (s : Server ι) (fd : Nat) : core (disconnect s fd).1 = core s := by
  unfold disconnect
  dsimp only
  split
  · rfl
  · exact core_setUser _ rfl rfl

theorem core_closeFd (s : Server ι) (fd : Nat) : core (closeFd s fd) = core s := by
  unfold closeFd
  split <;> rfl

theorem core_auth [LinearOrder ι] (env : Env ι) (s : Server ι) (fd : Nat) (addr message : Bytes) :
    core (auth env s fd addr message).1 = core s := by
  unfold auth
  split
  · exact core_closeclient _ _
  · exact core_setUser _ rfl rfl

theorem filter_filter_ne (l : List (Nat × Nat)) (session : Nat) :
    (l.filter fun p => p.1 ≠ session).filter (fun p => p.1 ≠ session) = l.filter fun p => p.1 ≠ session := by
  rw [List.filter_filter]
  exact List.filter_congr fun p _ => Bool.and_self _

theorem Core.drop_call (k : Core ι) (u session fd : Nat) :
    (k.drop u session).call u session fd = k.call u session fd := by
  simp only [Core.drop, Core.call, Function.update_self, Function.update_idem, filter_filter_ne]

theorem request_turn [DecidableEq ι] (env : Env ι) (s : Server ι) (fd : Nat) (msg : Bytes)
    (hshake : s.handshake fd = none) :
    Turn env s (.message fd msg) (core (request env s fd msg).1) := by
  unfold request
  cases hconn : s.connection fd with
  | none => exact .quiet
  | some u =>
    dsimp only
    split
    · rw [core_closeclient]
      exact .quiet
    · cases hlookup : (s.users u).response.lookup (Endian.ofBe (msg.drop (msg.length - 4))) with
      | none =>
        rw [core_call]
        exact .call hconn hshake
      | some c =>
        dsimp only
        split
        · rename_i hversion
          have hdrop := core_setResponse s u ((s.users u).response.filter fun p => p.1 ≠ sessionOf msg)
          split
          · rename_i hresponse
            rw [core_closeclient]
            exact hdrop ▸ .conflict hconn hlookup hversion hresponse
          · have hcall := Core.drop_call (core s) u (sessionOf msg) fd
            rw [← show core (s.setResponse u _) = (core s).drop u (sessionOf msg) from hdrop] at hcall
            rw [core_call]
            exact hcall ▸ .call hconn hshake
        · rename_i hversion
          split
          · rename_i hresponse
            exact .again hconn hshake hlookup hversion hresponse
          · rename_i hresponse
            obtain ⟨data, hdata⟩ := Option.ne_none_iff_exists'.mp hresponse
            rw [core_answer]
            exact .resend hconn hshake hlookup hversion hdata

theorem done_turn (env : Env ι) (s : Server ι) (i : Nat) (ok : Bool) (result : Bytes) :
    Turn env s (.done i ok result) (core (done env s i ok result).1) := by
  unfold done
  split
  · exact .quiet
  · rename_i t ht
    dsimp only
    split
    · rename_i hpacked
      split
      · rw [core_closeclient]
        exact .failed ht hpacked
      · exact .failed ht hpacked
    · rename_i hpacked
      rw [core_answer]
      exact .returned ht hpacked

theorem step_turn [LinearOrder ι] [Zero ι] (env : Env ι) (s : Server ι) (e : Event)
    (hnew : (s.users s.nusers).response = [] ∧ (s.users s.nusers).index = 0) :
    Turn env s e (core (step env s e).1) := by
  cases e with
  | connect fd addr =>
    rw [step, core_connect]
    exact .quiet
  | disconnect fd =>
    rw [step, core_disconnect]
    exact .quiet
  | closeFd fd =>
    simp only [step, core_closeFd]
    exact .quiet
  | message fd msg =>
    simp only [step]
    split
    · cases hshake : s.handshake fd with
      | some addr =>
        simp only [core_auth]
        exact .quiet
      | none => exact request_turn env s fd msg hshake
    · exact .quiet
  | done i ok result => exact done_turn env s i ok result
  | login username secret =>
    simp only [step, core_login s hnew]
    exact .quiet
  | logout username =>
    rw [step, core_logout]
    exact .quiet

/-! ### retire_response -/

/-- The response is complete, and too old to be kept. -/
def Expired (expired_number : Nat) (cells : Nat → Cell ι) (c : Nat) : Prop :=
  (cells c).fd = none ∧ (cells c).index < expired_number

instance (expired_number : Nat) (cells : Nat → Cell ι) (c : Nat) : Decidable (Expired expired_number cells c) :=
  inferInstanceAs (Decidable (_ ∧ _))

/-- A cell as it is renumbered. -/
def renumbered (expired_number : Nat) (cell : Cell ι) : Cell ι :=
  if cell.fd = none ∧ expired_number ≤ cell.index then { cell with index := cell.index - expired_number } else cell

structure Retired (expired_number : Nat) (l : List (Nat × Nat)) (cells : Nat → Cell ι) (max : Nat)
    (r : List (Nat × Nat) × (Nat → Cell ι) × Nat) : Prop where
  kept : r.1 = l.filter fun p => ¬ Expired expired_number cells p.2
  cell : ∀ c, r.2.1 c = if c ∈ l.map Prod.snd then renumbered expired_number (cells c) else cells c
  le : max ≤ r.2.2
  index_le : ∀ p ∈ r.1, (cells p.2).fd = none → (cells p.2).index - expired_number ≤ r.2.2
  attained : r.2.2 = max ∨ ∃ p ∈ r.1, (cells p.2).fd = none ∧ r.2.2 + expired_number = (cells p.2).index

theorem expired_congr {expired_number : Nat} {cells cells' : Nat → Cell ι} {l : List (Nat × Nat)}
    (h : ∀ p ∈ l, cells' p.2 = cells p.2) :
    (l.filter fun p => ¬ Expired expired_number cells' p.2) = l.filter fun p => ¬ Expired expired_number cells p.2 := by
  refine List.filter_congr fun p hp => decide_eq_decide.mpr ?_
  simp only [Expired, h p hp]

theorem retireLoop_spec (expired_number : Nat) {l : List (Nat × Nat)} (hnodup : (l.map Prod.snd).Nodup)
    (cells : Nat → Cell ι) (max : Nat) :
    Retired expired_number l cells max (retireLoop expired_number l cells max) := by
  induction l generalizing cells max with
  | nil => exact ⟨rfl, fun _ => rfl, Nat.le_refl _, fun p hp => absurd hp List.not_mem_nil, .inl rfl⟩
  | cons q rest ih =>
    obtain ⟨session, c⟩ := q
    rw [List.map_cons, List.nodup_cons] at hnodup
    obtain ⟨hc, hrest⟩ := hnodup
    have hother : ∀ p ∈ rest, p.2 ≠ c := by
      intro p hp heq
      exact hc (List.mem_map.mpr ⟨p, hp, heq⟩)
    rw [retireLoop]
    by_cases hfd : (cells c).fd = none
    · rw [if_pos hfd]
      by_cases hold : (cells c).index < expired_number
      · rw [if_pos hold]
        have h := ih hrest cells max
        refine ⟨?_, ?_, h.le, h.index_le, h.attained⟩
        · rw [h.kept, List.filter_cons_of_neg]
          simp [Expired, hfd, hold]
        · intro c'
          rw [h.cell, List.map_cons]
          by_cases hc' : c' = c
          · subst hc'
            rw [if_neg hc, if_pos (List.mem_cons_self ..), renumbered, if_neg (by omega)]
          · simp only [List.mem_cons, hc', false_or]
      · rw [if_neg hold]
        dsimp only
        have h := ih hrest (Function.update cells c { cells c with index := (cells c).index - expired_number })
          (Nat.max max ((cells c).index - expired_number))
        have hsame : ∀ p ∈ rest,
            Function.update cells c { cells c with index := (cells c).index - expired_number } p.2 = cells p.2 :=
          fun p hp => Function.update_of_ne (hother p hp) ..
        have hmem : ∀ p ∈ (retireLoop expired_number rest
            (Function.update cells c { cells c with index := (cells c).index - expired_number })
            (Nat.max max ((cells c).index - expired_number))).1, p ∈ rest := by
          intro p hp
          rw [h.kept] at hp
          exact List.mem_of_mem_filter hp
        have hmax := h.le
        have hle : max ≤ Nat.max max ((cells c).index - expired_number) := Nat.le_max_left ..
        have hle' : (cells c).index - expired_number ≤ Nat.max max ((cells c).index - expired_number) :=
          Nat.le_max_right ..
        refine ⟨?_, ?_, Nat.le_trans hle hmax, ?_, ?_⟩
        · rw [List.filter_cons_of_pos, ← expired_congr hsame, h.kept]
          simp [Expired, hold]
        · intro c'
          rw [h.cell, List.map_cons]
          by_cases hc' : c' = c
          · subst hc'
            rw [if_neg hc, if_pos (List.mem_cons_self ..), Function.update_self, renumbered, if_pos ⟨hfd, by omega⟩]
          · simp only [List.mem_cons, hc', false_or, Function.update_of_ne hc']
        · intro p hp hpfd
          rcases List.mem_cons.mp hp with rfl | hp
          · exact Nat.le_trans hle' hmax
          · have := h.index_le p hp
            rw [hsame p (hmem p hp)] at this
            exact this hpfd
        · obtain hstart | ⟨p, hp, hpfd, heq⟩ := h.attained
          · by_cases hlt : max ≤ (cells c).index - expired_number
            · refine .inr ⟨(session, c), List.mem_cons_self .., hfd, ?_⟩
              exact (congrArg (· + expired_number) (hstart.trans (Nat.max_eq_right hlt))).trans
                (Nat.sub_add_cancel (Nat.le_of_not_lt hold))
            · refine .inl (hstart.trans (Nat.max_eq_left (by omega)))
          · rw [hsame p (hmem p hp)] at hpfd heq
            exact .inr ⟨p, List.mem_cons_of_mem _ hp, hpfd, heq⟩
    · rw [if_neg hfd]
      dsimp only
      have h := ih hrest cells max
      refine ⟨?_, ?_, h.le, ?_, ?_⟩
      · rw [List.filter_cons_of_pos, ← h.kept]
        simp [Expired, hfd]
      · intro c'
        rw [h.cell, List.map_cons]
        by_cases hc' : c' = c
        · subst hc'
          rw [if_neg hc, if_pos (List.mem_cons_self ..), renumbered, if_neg (fun hr => hfd hr.1)]
        · simp only [List.mem_cons, hc', false_or]
      · intro p hp hpfd
        rcases List.mem_cons.mp hp with rfl | hp
        · exact absurd hpfd hfd
        · exact h.index_le p hp hpfd
      · obtain hstart | ⟨p, hp, hrest⟩ := h.attained
        · exact .inl hstart
        · exact .inr ⟨p, List.mem_cons_of_mem _ hp, hrest⟩

end Msgserver
end Skynet
