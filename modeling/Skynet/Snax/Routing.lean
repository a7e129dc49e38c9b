import Skynet.Snax.Logins

/-!
# Skynet.Snax.Routing

Who gets a response.

* `responses_routed` : a response is sent on a connection of the user whose request it answers, however requests,
  disconnections and new handshakes come in between.
-/

namespace Skynet
namespace Msgserver

variable {ι : Type*} {env : Env ι} {s : Server ι}

/-- The id of a new connection is not one that a response has still to be sent to. -/
def Fresh (s : Server ι) : Event → Prop
  | .connect fd _ => ∀ t ∈ s.tasks, (s.cells t.cell).fd ≠ some fd
  | _ => True

/-- Where the responses of the tasks will be sent. -/
structure Routed (s : Server ι) : Prop where
  task : ∀ t ∈ s.tasks, ∀ fd, (s.cells t.cell).fd = some fd → ∀ u, s.connection fd = some u → u = t.user
  handshake : ∀ t ∈ s.tasks, ∀ fd, (s.cells t.cell).fd = some fd → s.handshake fd = none

/-- Where the response of a task is sent after a step: where it was before, or on the connection that asked now. -/
theorem Turn.fd {e : Event} {k' : Core ι} (ht : Turn env s e k') (inv : Inv (core s)) :
    ∀ t ∈ k'.tasks, ∀ fd, (k'.cells t.cell).fd = some fd →
      (t ∈ s.tasks ∧ (s.cells t.cell).fd = some fd) ∨
        (s.connection fd = some t.user ∧ s.handshake fd = none ∧ ∃ msg, e = .message fd msg) := by
  have hretire : ∀ {k k' : Core ι} {n u : Nat}, Inv k → k' = k.retire n u →
      k'.tasks = k.tasks ∧ ∀ c, (k'.cells c).fd = (k.cells c).fd := by
    rintro k k' n u hinv rfl
    obtain ⟨-, heq⟩ | ⟨-, h⟩ := hinv.retire_cases n u
    · rw [heq]
      exact ⟨rfl, fun _ => rfl⟩
    · exact ⟨h.tasks, h.fd⟩
  intro t ht' fd hfd
  cases ht with
  | quiet => exact .inl ⟨ht', hfd⟩
  | conflict => exact .inl ⟨ht', hfd⟩
  | @call fd' u msg hconn hshake =>
    rcases List.mem_append.mp ht' with hold | hnew
    · refine .inl ⟨hold, ?_⟩
      have hne : t.cell ≠ s.ncells := Nat.ne_of_lt (inv.task_lt t hold)
      simp only [Core.call, core, Function.update_of_ne hne] at hfd
      exact hfd
    · rw [List.mem_singleton.mp hnew] at hfd ⊢
      simp only [Core.call, Function.update_self, Option.some.injEq] at hfd
      subst hfd
      exact .inr ⟨hconn, hshake, msg, rfl⟩
  | @again fd' u c msg hconn hshake hlookup =>
    by_cases hc : t.cell = c
    · subst hc
      simp only [Core.again, Core.setCell, Function.update_self, Option.some.injEq] at hfd
      obtain rfl := inv.task_user t ht' u _ (mem_of_lookup hlookup)
      subst hfd
      exact .inr ⟨hconn, hshake, msg, rfl⟩
    · simp only [Core.again, Core.setCell, Function.update_of_ne hc] at hfd
      exact .inl ⟨ht', hfd⟩
  | @resend fd' u c msg data hconn hshake hlookup hversion hresponse =>
    rw [Core.again_answer hresponse] at ht' hfd
    obtain ⟨htasks, hsame⟩ := hretire (inv.resend (s.users u).version hlookup hresponse) rfl
    rw [htasks] at ht'
    rw [hsame] at hfd
    by_cases hc : t.cell = c
    · simp only [Core.bump, hc, Function.update_self] at hfd
      cases hfd
    · simp only [Core.bump, Function.update_of_ne hc] at hfd
      exact .inl ⟨ht', hfd⟩
  | failed => exact .inl ⟨(List.eraseIdx_sublist ..).subset ht', hfd⟩
  | @returned i t' ok result data ht'' hpacked =>
    rw [Core.ready_answer] at ht' hfd
    obtain ⟨htasks, hsame⟩ := hretire (inv.returned ht'' data (s.users t'.user).version) rfl
    rw [htasks] at ht'
    rw [hsame] at hfd
    have hc := inv.other_task ht'' t ht'
    simp only [Core.bump, Core.finish, Function.update_of_ne hc] at hfd
    exact .inl ⟨(List.eraseIdx_sublist ..).subset ht', hfd⟩

section Connections

variable [LinearOrder ι] [Zero ι]

/-- A step makes a connection only of a handshake that was awaited. -/
theorem step_connection {e : Event} {fd u : Nat} (h : (step env s e).1.connection fd = some u) :
    s.connection fd = some u ∨ s.handshake fd ≠ none := by
  have hremove : ∀ fd', Function.update s.connection fd' none fd = some u → s.connection fd = some u := by
    intro fd' h
    by_cases hfd : fd = fd'
    · subst hfd
      rw [Function.update_self] at h
      cases h
    · rwa [Function.update_of_ne hfd] at h
  cases e with
  | connect fd' addr =>
    simp only [step, connect] at h
    split at h <;> exact .inl h
  | disconnect fd' =>
    simp only [step, disconnect] at h
    split at h
    · exact .inl h
    · exact .inl (hremove fd' h)
  | closeFd fd' =>
    simp only [step, closeFd] at h
    split at h <;> exact .inl h
  | message fd' msg =>
    simp only [step] at h
    split at h
    · split at h
      · rename_i addr hshake
        simp only [auth] at h
        split at h
        · exact .inl ((links_closeclient s fd').connection ▸ h)
        · by_cases hfd : fd = fd'
          · exact .inr (by rw [hfd, hshake]; exact Option.some_ne_none addr)
          · simp only [Function.update_of_ne hfd] at h
            exact .inl h
      · exact .inl ((request_links env s fd' msg).connection ▸ h)
    · exact .inl h
  | done i ok result => exact .inl ((done_links env s i ok result).connection ▸ h)
  | login username secret =>
    simp only [step, login] at h
    split at h <;> exact .inl h
  | logout username =>
    simp only [step, logout] at h
    split at h
    · exact .inl h
    · split at h
      · exact .inl h
      · rename_i fd' _
        exact .inl (hremove fd' h)

theorem step_handshake {e : Event} {fd : Nat} (h : (step env s e).1.handshake fd ≠ none) :
    s.handshake fd ≠ none ∨ ∃ addr, e = .connect fd addr := by
  have hremove : ∀ fd', Function.update s.handshake fd' none fd ≠ none → s.handshake fd ≠ none := by
    intro fd' h
    by_cases hfd : fd = fd'
    · subst hfd
      rw [Function.update_self] at h
      exact absurd rfl h
    · rwa [Function.update_of_ne hfd] at h
  cases e with
  | connect fd' addr =>
    simp only [step, connect] at h
    split at h
    · exact .inl h
    · by_cases hfd : fd = fd'
      · exact .inr ⟨addr, by rw [hfd]⟩
      · simp only [Function.update_of_ne hfd] at h
        exact .inl h
  | disconnect fd' =>
    simp only [step, disconnect] at h
    split at h <;> exact .inl (hremove fd' h)
  | closeFd fd' =>
    simp only [step, closeFd] at h
    split at h <;> exact .inl h
  | message fd' msg =>
    simp only [step] at h
    split at h
    · split at h
      · simp only [auth] at h
        split at h <;> exact .inl (hremove fd' h)
      · exact .inl ((request_links env s fd' msg).handshake ▸ h)
    · exact .inl h
  | done i ok result => exact .inl ((done_links env s i ok result).handshake ▸ h)
  | login username secret =>
    simp only [step, login] at h
    split at h <;> exact .inl h
  | logout username =>
    simp only [step, logout] at h
    split at h
    · exact .inl h
    · split at h
      · exact .inl h
      · rename_i fd' _
        have hsame :=
          (links_closeclient { s with user_online := Function.update s.user_online username none } fd').handshake
        simp only [hsame] at h
        exact .inl h

theorem Routed.step (hr : Routed s) {n : Nat} (hs : Sound n s) {e : Event} (hf : Fresh s e) :
    Routed (step env s e).1 := by
  have hturn := (step_turn env s e (hs.known.new _ (Nat.le_refl _))).fd hs.inv
  constructor
  · intro t ht fd hfd u hu
    rcases hturn t ht fd hfd with ⟨hold, hfd⟩ | ⟨hconn, hshake, -⟩
    · rcases step_connection hu with hu | hno
      · exact hr.task t hold fd hfd u hu
      · exact absurd (hr.handshake t hold fd hfd) hno
    · rcases step_connection hu with hu | hno
      · rw [hconn] at hu
        exact (Option.some.inj hu).symm
      · exact absurd hshake hno
  · intro t ht fd hfd
    by_contra hno
    rcases hturn t ht fd hfd with ⟨hold, hcell⟩ | ⟨hconn, hshake, msg, hmsg⟩
    · rcases step_handshake hno with hno | ⟨addr, rfl⟩
      · exact hno (hr.handshake t hold fd hcell)
      · exact hf t hold hcell
    · rcases step_handshake hno with hno | ⟨addr, rfl⟩
      · exact hno hshake
      · cases hmsg

theorem Routed.trace (hr : Routed s) (hn : 0 < env.expired_number) (hs : Sound env.expired_number s) {es : List Event}
    (hes : Transducer.Allowed (Msgserver.step env) Fresh s es) :
    Routed (Transducer.trace (Msgserver.step env) s es).1 := by
  induction es generalizing s with
  | nil => exact hr
  | cons e es ih => exact ih (hr.step hs hes.1) (hs.step hn e) hes.2

omit [LinearOrder ι] [Zero ι] in
theorem response_notMem_closeclient {fd fd' : Nat} {data : Bytes} : .response fd' data ∉ (closeclient s fd).2 := by
  unfold closeclient
  split
  · simp
  · simp

omit [LinearOrder ι] [Zero ι] in
theorem mem_answer {u c fd : Nat} {data : Bytes} (h : .response fd data ∈ (answer env s u c).2) :
    (s.cells c).fd = some fd ∧ (s.cells c).response = some data ∧ (s.connection fd).isSome = true := by
  unfold answer at h
  dsimp only at h
  split at h
  · rename_i fd' data' hfd hdata
    split at h
    · rename_i hconn
      obtain ⟨rfl, rfl⟩ : fd = fd' ∧ data = data' := by simpa using h
      exact ⟨hfd, hdata, hconn⟩
    · exact absurd h List.not_mem_nil
  · exact absurd h List.not_mem_nil

/-- A response is the one of a request of the user: of a task that returns, or one that was kept. -/
def ResponseOf (s : Server ι) (u : Nat) (data : Bytes) : Event → Prop
  | .done i ok result => ∃ t, s.tasks[i]? = some t ∧ t.user = u ∧ packed t.session ok result = some data
  | .message _ msg => ∃ c, (s.users u).response.lookup (sessionOf msg) = some c ∧ (s.cells c).response = some data
  | _ => False

omit [Zero ι] in
theorem request_response {fd fd' : Nat} {msg data : Bytes} (h : .response fd data ∈ (request env s fd' msg).2) :
    ∃ u, s.connection fd = some u ∧ ResponseOf s u data (.message fd' msg) := by
  unfold request at h
  split at h
  · exact absurd h List.not_mem_nil
  · rename_i u hconn
    split at h
    · exact absurd h response_notMem_closeclient
    · dsimp only at h
      split at h
      · simp [call] at h
      · rename_i c hlookup
        split at h
        · split at h
          · exact absurd h response_notMem_closeclient
          · simp [call] at h
        · split at h
          · exact absurd h List.not_mem_nil
          · obtain ⟨hfd, hdata, -⟩ := mem_answer h
            simp only [Server.setCell, Function.update_self, Option.some.injEq] at hfd hdata
            subst hfd
            exact ⟨u, hconn, c, hlookup, hdata⟩

omit [LinearOrder ι] [Zero ι] in
theorem done_response (hr : Routed s) {i fd : Nat} {ok : Bool} {result data : Bytes}
    (h : .response fd data ∈ (done env s i ok result).2) :
    ∃ u, s.connection fd = some u ∧ ResponseOf s u data (.done i ok result) := by
  unfold done at h
  split at h
  · exact absurd h List.not_mem_nil
  · rename_i t ht
    dsimp only at h
    split at h
    · split at h
      · exact absurd h response_notMem_closeclient
      · exact absurd h List.not_mem_nil
    · rename_i response hpacked
      obtain ⟨hfd, hdata, hconn⟩ := mem_answer h
      simp only [Server.setCell, Function.update_self, Option.some.injEq] at hfd hdata
      obtain ⟨u, hu⟩ := Option.isSome_iff_exists.mp hconn
      have heq := hr.task t (List.mem_of_getElem? ht) fd hfd u hu
      exact ⟨u, hu, t, ht, heq.symm, hdata ▸ hpacked⟩

omit [LinearOrder ι] in
theorem routed_init : Routed (init : Server ι) where
  task := fun _ h => absurd h List.not_mem_nil
  handshake := fun _ h => absurd h List.not_mem_nil

/-- In every run whose new connections have ids that no response is waiting for, a response is sent only on a connection
of the user whose request it answers. -/
theorem responses_routed (env : Env ι) (hn : 0 < env.expired_number) (es : List Event) (s : Server ι)
    (hs : s = (Transducer.trace (Msgserver.step env) init es).1)
    (hes : Transducer.Allowed (Msgserver.step env) Fresh init es)
    (e : Event) (fd : Nat) (data : Bytes) (h : .response fd data ∈ (Msgserver.step env s e).2) :
    ∃ u, s.connection fd = some u ∧ ResponseOf s u data e := by
  have hr : Routed s := hs ▸ routed_init.trace hn (sound_init hn) hes
  cases e with
  | connect fd' addr =>
    simp only [Msgserver.step, connect] at h
    split at h <;> simp at h
  | disconnect fd' =>
    simp only [Msgserver.step, disconnect] at h
    split at h <;> simp at h
  | closeFd fd' => exact absurd h List.not_mem_nil
  | message fd' msg =>
    simp only [Msgserver.step] at h
    split at h
    · split at h
      · simp only [auth] at h
        split at h
        · simp only [List.mem_cons, reduceCtorEq, false_or] at h
          exact absurd h response_notMem_closeclient
        · simp at h
      · exact request_response h
    · exact absurd h List.not_mem_nil
  | done i ok result => exact done_response hr h
  | login username secret => exact absurd h List.not_mem_nil
  | logout username =>
    simp only [Msgserver.step, logout] at h
    split at h
    · exact absurd h List.not_mem_nil
    · split at h
      · exact absurd h List.not_mem_nil
      · exact absurd h response_notMem_closeclient

end Connections

/-- The task returns after the client has asked again on its second connection. -/
def askedAgain : List Event := asked ++ reconnected ++ [.message 2 [104, 105, 0, 0, 0, 7]]

theorem responses_routed_reconnected : ∃ u,
    (Transducer.trace (step oneClient) init askedAgain).1.connection 2 = some u ∧
      ResponseOf (Transducer.trace (step oneClient) init askedAgain).1 u [0, 7, 111, 107, 1, 0, 0, 0, 7]
        (.done 0 true [111, 107]) := by
  refine responses_routed oneClient (by decide) askedAgain _ rfl ?_ (.done 0 true [111, 107]) 2 _
    (List.mem_singleton.mpr rfl)
  refine ⟨trivial, ?_, trivial, trivial, trivial, trivial, ?_, trivial, trivial, trivial⟩
  · intro t ht
    exact absurd ht List.not_mem_nil
  · intro t ht
    obtain rfl := List.mem_singleton.mp ht
    intro h
    cases h

end Msgserver
end Skynet
