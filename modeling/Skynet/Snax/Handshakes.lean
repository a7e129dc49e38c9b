import Skynet.Snax.Logins

/-!
# Skynet.Snax.Handshakes

Who may connect.

* `handshakes_grow` : the indexes that are accepted in one login grow, so no handshake is accepted twice.
-/

namespace Skynet
namespace Msgserver

variable {ι : Type*}

/-! ### Handshakes -/

theorem result_notMem_closeclient {s : Server ι} {fd fd' : Nat} {text : String} :
    .result fd' text ∉ (closeclient s fd).2 := by
  unfold closeclient
  split
  · simp
  · simp

theorem result_notMem_answer {env : Env ι} {s : Server ι} {u c fd' : Nat} {text : String} :
    .result fd' text ∉ (answer env s u c).2 := by
  unfold answer
  dsimp only
  split
  · split <;> simp
  · simp

theorem result_notMem_request [DecidableEq ι] {env : Env ι} {s : Server ι} {fd fd' : Nat} {msg : Bytes}
    {text : String} :
    .result fd' text ∉ (request env s fd msg).2 := by
  unfold request
  split
  · simp
  · split
    · exact result_notMem_closeclient
    · dsimp only
      split
      · simp [call]
      · split
        · split
          · exact result_notMem_closeclient
          · simp [call]
        · split
          · simp
          · exact result_notMem_answer

variable [LinearOrder ι] {env : Env ι} {s : Server ι}

/-- The event is a handshake that is accepted. -/
def Accepts (env : Env ι) (s : Server ι) (u : Nat) (idx : ι) : Event → Prop
  | .message fd msg => s.client fd = some true ∧ s.handshake fd ≠ none ∧ doAuth env s msg = .accepted u idx
  | _ => False

theorem auth_accepted {fd u : Nat} {idx : ι} {addr msg : Bytes} (h : doAuth env s msg = .accepted u idx) :
    auth env s fd addr msg = ({ s.setUser u { s.users u with version := idx, fd := some fd, ip := some addr } with
      connection := Function.update s.connection fd (some u)
      handshake := Function.update s.handshake fd none }, [.result fd "200 OK"]) := by
  rw [auth, h]

theorem doAuth_refused {msg : Bytes} {text : String} (h : doAuth env s msg = .refused text) : text ≠ "200 OK" := by
  unfold doAuth at h
  split at h
  · cases h
    decide
  · split at h
    · cases h
      decide
    · split at h
      · split at h
        · cases h
          decide
        · split at h
          · cases h
            decide
          · split at h
            · cases h
              decide
            · cases h
      · cases h
        decide

variable [Zero ι]

/-- A step that accepts no handshake leaves the versions as they are. -/
theorem step_version_same {u : Nat} (hu : u < s.nusers) {e : Event} (hno : ∀ idx, ¬ Accepts env s u idx e) :
    ((step env s e).1.users u).version = (s.users u).version := by
  cases e with
  | connect fd addr =>
    simp only [step, connect]
    split <;> rfl
  | disconnect fd =>
    simp only [step, disconnect]
    split
    · rfl
    · rename_i v _
      exact (links_setUser _ v { s.users v with fd := none } rfl rfl).version u
  | closeFd fd =>
    simp only [step, closeFd]
    split <;> rfl
  | message fd msg =>
    simp only [step]
    split
    · rename_i hclient
      split
      · rename_i addr hshake
        cases hauth : doAuth env s msg with
        | refused text =>
          rw [auth, hauth]
          exact (links_closeclient s fd).version u
        | accepted v idx =>
          have hv : u ≠ v := by
            rintro rfl
            exact hno idx ⟨hclient, by rw [hshake]; exact Option.some_ne_none addr, hauth⟩
          rw [auth_accepted hauth]
          simp only [Server.setUser, Function.update_of_ne hv]
      · exact (request_links env s fd msg).version u
    · rfl
  | done i ok result => exact (done_links env s i ok result).version u
  | login username secret =>
    simp only [step, login]
    split
    · rfl
    · simp only [Server.setUser, Function.update_of_ne (Nat.ne_of_lt hu)]
  | logout username =>
    simp only [step, logout]
    split
    · rfl
    · split
      · rfl
      · exact (links_closeclient _ _).version u

/-- One that accepts a handshake of a user sets its version to the index, which is larger. -/
theorem step_version_accepted {u : Nat} {idx : ι} {e : Event} (h : Accepts env s u idx e) :
    (s.users u).version < idx ∧ ((step env s e).1.users u).version = idx := by
  cases e with
  | message fd msg =>
    obtain ⟨hclient, hshake, hauth⟩ := h
    obtain ⟨-, -, -, -, -, -, -, hlt, -⟩ := doAuth_accepted hauth
    refine ⟨hlt, ?_⟩
    obtain ⟨addr, haddr⟩ := Option.ne_none_iff_exists'.mp hshake
    rw [step, if_pos hclient, haddr]
    simp only [auth_accepted hauth, Server.setUser, Function.update_self]
  | _ => exact h.elim

theorem step_version_le {u : Nat} (hu : u < s.nusers) (e : Event) :
    (s.users u).version ≤ ((step env s e).1.users u).version := by
  by_cases h : ∃ idx, Accepts env s u idx e
  · obtain ⟨idx, h⟩ := h
    obtain ⟨hlt, heq⟩ := step_version_accepted h
    rw [heq]
    exact le_of_lt hlt
  · rw [step_version_same hu fun idx ha => h ⟨idx, ha⟩]

theorem trace_version_le (hn : 0 < env.expired_number) (hs : Sound env.expired_number s) {u : Nat} (hu : u < s.nusers)
    (es : List Event) : (s.users u).version ≤ ((Transducer.trace (step env) s es).1.users u).version := by
  induction es generalizing s with
  | nil => exact le_refl _
  | cons e es ih =>
    have hle := (step_links env hs.known e).1
    exact le_trans (step_version_le hu e) (ih (hs.step hn e) (Nat.lt_of_lt_of_le hu hle))

/-- The answer "200 OK" is given to handshakes that are accepted only. -/
theorem accepts_of_output {fd fd' : Nat} {msg : Bytes} (h : .result fd' "200 OK" ∈ (step env s (.message fd msg)).2) :
    ∃ u idx, Accepts env s u idx (.message fd msg) := by
  simp only [step] at h
  split at h
  · rename_i hclient
    split at h
    · rename_i addr hshake
      cases hauth : doAuth env s msg with
      | refused text =>
        rw [auth, hauth] at h
        rcases List.mem_cons.mp h with heq | hclose
        · cases heq
          exact absurd rfl (doAuth_refused hauth)
        · exact absurd hclose result_notMem_closeclient
      | accepted u idx => exact ⟨u, idx, hclient, by rw [hshake]; exact Option.some_ne_none addr, hauth⟩
    · exact absurd h result_notMem_request
  · cases h

/-- The message is a handshake of a user that is online, with the right hash. -/
def Shakes (env : Env ι) (s : Server ι) (msg : Bytes) (u : Nat) (idx : ι) : Prop :=
  ∃ username index hmac v, matchAuth msg = some (username, index, hmac) ∧ s.user_online username = some u ∧
    env.tonumber index = some idx ∧ env.b64decode hmac = some v ∧
    env.hmac_hash (s.users u).secret (username ++ 58 :: index) = some v

/-- Two handshakes are answered with "200 OK" in one run. Each has the right hash for the secret of its login, and in
one login the index of the second is larger, so that no handshake is accepted twice. -/
theorem handshakes_grow (env : Env ι) (hn : 0 < env.expired_number) (es₁ es₂ : List Event) (s s' : Server ι)
    {fd fd' : Nat} {msg msg' : Bytes} (hs : s = (Transducer.trace (step env) init es₁).1)
    (h : .result fd "200 OK" ∈ (step env s (.message fd msg)).2)
    (hs' : s' = (Transducer.trace (step env) (step env s (.message fd msg)).1 es₂).1)
    (h' : .result fd' "200 OK" ∈ (step env s' (.message fd' msg')).2) :
    ∃ u idx u' idx', Shakes env s msg u idx ∧ Shakes env s' msg' u' idx' ∧ (u = u' → idx < idx') := by
  have hsound : Sound env.expired_number s := hs ▸ (sound_init hn).trace hn es₁
  obtain ⟨u, idx, haccepts⟩ := accepts_of_output h
  obtain ⟨u', idx', haccepts'⟩ := accepts_of_output h'
  obtain ⟨username, index, hmac, v, hmatch, honline, hidx, -, hv, hhash⟩ := doAuth_accepted haccepts.2.2
  obtain ⟨username', index', hmac', v', hmatch', honline', hidx', hlt, hv', hhash'⟩ := doAuth_accepted haccepts'.2.2
  refine ⟨u, idx, u', idx', ⟨username, index, hmac, v, hmatch, honline, hidx, hv, hhash⟩,
    ⟨username', index', hmac', v', hmatch', honline', hidx', hv', hhash'⟩, ?_⟩
  rintro rfl
  have hu := hsound.known.online _ _ honline
  have hversion := (step_version_accepted haccepts).2
  have hle := trace_version_le hn (hsound.step hn (.message fd msg))
    (Nat.lt_of_lt_of_le hu (step_links env hsound.known (.message fd msg)).1) es₂
  rw [hversion, ← hs'] at hle
  exact lt_of_le_of_lt hle hlt

theorem handshakes_grow_reconnected : ∃ u idx u' idx',
    Shakes oneClient (Transducer.trace (step oneClient) init (asked.take 2)).1 firstHandshake u idx ∧
      Shakes oneClient (Transducer.trace (step oneClient) init (asked ++ reconnected.take 3)).1 secondHandshake
        u' idx' ∧
      (u = u' → idx < idx') :=
  handshakes_grow oneClient (by decide) (asked.take 2) (asked.drop 3 ++ reconnected.take 3) _ _ rfl
    (show .result 1 "200 OK" ∈ (step oneClient _ (.message 1 firstHandshake)).2 from List.mem_singleton.mpr rfl) rfl
    (show .result 2 "200 OK" ∈ (step oneClient _ (.message 2 secondHandshake)).2 from List.mem_singleton.mpr rfl)

end Msgserver
end Skynet
