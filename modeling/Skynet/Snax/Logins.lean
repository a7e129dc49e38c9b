import Mathlib.Data.List.Perm.Subperm
import Skynet.Snax.Cache

/-!
# Skynet.Snax.Logins

Logins and connections, and what holds in every run.

* `Known` : there is every user that a login, a connection or a task is about.
* `Sound` : the invariant of the server.
* `cache_bounded` : it never keeps as many complete responses of a user as twice `expired_number`.
-/

namespace Skynet
namespace Msgserver

variable {ι : Type*} {k : Core ι}

/-! ### What the requests leave alone -/

/-- A request and the end of a task leave the connections and the logins as they are. -/
structure Links (s s' : Server ι) : Prop where
  nusers : s'.nusers = s.nusers
  user_online : s'.user_online = s.user_online
  connection : s'.connection = s.connection
  handshake : s'.handshake = s.handshake
  version : ∀ u, (s'.users u).version = (s.users u).version
  secret : ∀ u, (s'.users u).secret = (s.users u).secret

theorem Links.refl (s : Server ι) : Links s s := ⟨rfl, rfl, rfl, rfl, fun _ => rfl, fun _ => rfl⟩

theorem Links.trans {s₁ s₂ s₃ : Server ι} (h₁ : Links s₁ s₂) (h₂ : Links s₂ s₃) : Links s₁ s₃ :=
  ⟨h₂.nusers.trans h₁.nusers, h₂.user_online.trans h₁.user_online, h₂.connection.trans h₁.connection,
    h₂.handshake.trans h₁.handshake, fun u => (h₂.version u).trans (h₁.version u),
    fun u => (h₂.secret u).trans (h₁.secret u)⟩

theorem links_setUser (s : Server ι) (u : Nat) (user : User ι) (hversion : user.version = (s.users u).version)
    (hsecret : user.secret = (s.users u).secret) : Links s (s.setUser u user) := by
  refine ⟨rfl, rfl, rfl, rfl, fun v => ?_, fun v => ?_⟩
  · by_cases hv : v = u
    · subst hv
      simp only [Server.setUser, Function.update_self, hversion]
    · simp only [Server.setUser, Function.update_of_ne hv]
  · by_cases hv : v = u
    · subst hv
      simp only [Server.setUser, Function.update_self, hsecret]
    · simp only [Server.setUser, Function.update_of_ne hv]

theorem links_setCell (s : Server ι) (c : Nat) (cell : Cell ι) : Links s (s.setCell c cell) :=
  ⟨rfl, rfl, rfl, rfl, fun _ => rfl, fun _ => rfl⟩

theorem links_closeclient (s : Server ι) (fd : Nat) : Links s (closeclient s fd).1 := by
  unfold closeclient
  split
  · exact ⟨rfl, rfl, rfl, rfl, fun _ => rfl, fun _ => rfl⟩
  · exact .refl s

theorem links_call (s : Server ι) (u fd session : Nat) (message : Bytes) : Links s (call s u fd session message).1 := by
  have h := links_setUser (s.setCell s.ncells ⟨some fd, none, none, 0⟩) u
    { s.users u with response := (session, s.ncells) :: (s.users u).response.filter fun p => p.1 ≠ session } rfl rfl
  exact ⟨h.nusers, h.user_online, h.connection, h.handshake, h.version, h.secret⟩

theorem links_retire (env : Env ι) (s : Server ι) (u : Nat) : Links s (retireResponse env s u) := by
  unfold retireResponse
  split
  · have h := links_setUser s u { s.users u with
      response := (retireLoop env.expired_number (s.users u).response s.cells 0).1
      index := (retireLoop env.expired_number (s.users u).response s.cells 0).2.2 + 1 } rfl rfl
    exact ⟨h.nusers, h.user_online, h.connection, h.handshake, h.version, h.secret⟩
  · exact .refl s

theorem links_answer (env : Env ι) (s : Server ι) (u c : Nat) : Links s (answer env s u c).1 := by
  have h : Links s (s.setUser u { s.users u with index := (s.users u).index + 1 }) := links_setUser s _ _ rfl rfl
  exact (h.trans (links_setCell _ c { s.cells c with fd := none })).trans (links_retire env _ u)

theorem links_setResponse (s : Server ι) (u : Nat) (response : List (Nat × Nat)) : Links s (s.setResponse u response) :=
  links_setUser s _ _ rfl rfl

theorem request_links [DecidableEq ι] (env : Env ι) (s : Server ι) (fd : Nat) (msg : Bytes) :
    Links s (request env s fd msg).1 := by
  unfold request
  split
  · exact .refl s
  · split
    · exact links_closeclient s fd
    · dsimp only
      split
      · exact links_call ..
      · split
        · split
          · exact (links_setResponse s ..).trans (links_closeclient _ fd)
          · exact (links_setResponse s ..).trans (links_call ..)
        · split
          · exact links_setCell ..
          · exact (links_setCell ..).trans (links_answer ..)

theorem done_links (env : Env ι) (s : Server ι) (i : Nat) (ok : Bool) (result : Bytes) :
    Links s (done env s i ok result).1 := by
  have hfinish : ∀ tasks, Links s { s with tasks := tasks } := fun _ => ⟨rfl, rfl, rfl, rfl, fun _ => rfl, fun _ => rfl⟩
  unfold done
  split
  · exact .refl s
  · dsimp only
    split
    · split
      · exact (hfinish _).trans (links_closeclient ..)
      · exact hfinish _
    · exact ((hfinish _).trans (links_setCell ..)).trans (links_answer ..)

/-- Logins and connections are of users that there are; a user that there is not has no response. -/
structure Known (s : Server ι) : Prop where
  online : ∀ name u, s.user_online name = some u → u < s.nusers
  connection : ∀ fd u, s.connection fd = some u → u < s.nusers
  tasks : ∀ t ∈ s.tasks, t.user < s.nusers
  new : ∀ u, s.nusers ≤ u → (s.users u).response = [] ∧ (s.users u).index = 0

theorem known_init [Zero ι] : Known (init : Server ι) where
  online _ _ h := by cases h
  connection _ _ h := by cases h
  tasks _ h := absurd h List.not_mem_nil
  new _ _ := ⟨rfl, rfl⟩

/-- No more is there of the users from `m` on than before. -/
structure Beyond (m : Nat) (k k' : Core ι) : Prop where
  tasks : (∀ t ∈ k.tasks, t.user < m) → ∀ t ∈ k'.tasks, t.user < m
  response : ∀ u, m ≤ u → k'.response u = k.response u
  index : ∀ u, m ≤ u → k'.index u = k.index u

theorem beyond_drop (k : Core ι) {m u : Nat} (hu : u < m) (session : Nat) : Beyond m k (k.drop u session) :=
  ⟨fun h => h, fun v hv => Function.update_of_ne (by omega) .., fun _ _ => rfl⟩

theorem beyond_call (k : Core ι) {m u : Nat} (hu : u < m) (session fd : Nat) : Beyond m k (k.call u session fd) := by
  refine ⟨fun h t ht => ?_, fun v hv => Function.update_of_ne (by omega) .., fun _ _ => rfl⟩
  rcases List.mem_append.mp ht with ht | ht
  · exact h t ht
  · rw [List.mem_singleton.mp ht]
    exact hu

theorem Inv.beyond_retire (inv : Inv k) {m u : Nat} (hu : u < m) (n : Nat) : Beyond m k (k.retire n u) := by
  obtain ⟨-, heq⟩ | ⟨-, h⟩ := inv.retire_cases n u
  · rw [heq]
    exact ⟨fun h => h, fun _ _ => rfl, fun _ _ => rfl⟩
  · refine ⟨fun hk t ht => hk t (h.tasks ▸ ht), fun v hv => ?_, fun v hv => h.index v (by omega)⟩
    have hresponse : (k.retire n u).response v = k.response v := by
      unfold Core.retire
      split
      · exact Function.update_of_ne (by omega) ..
      · rfl
    exact hresponse

theorem Beyond.trans {m : Nat} {k₁ k₂ k₃ : Core ι} (h₁ : Beyond m k₁ k₂) (h₂ : Beyond m k₂ k₃) : Beyond m k₁ k₃ :=
  ⟨fun h => h₂.tasks (h₁.tasks h), fun u hu => (h₂.response u hu).trans (h₁.response u hu),
    fun u hu => (h₂.index u hu).trans (h₁.index u hu)⟩

theorem beyond_bump (k : Core ι) {m u : Nat} (hu : u < m) (c : Nat) (data : Bytes) (version : ι) :
    Beyond m k (k.bump u c data version) :=
  ⟨fun h => h, fun _ _ => rfl, fun v hv => Function.update_of_ne (by omega) ..⟩

theorem beyond_finish (k : Core ι) (m i : Nat) : Beyond m k (k.finish i) :=
  ⟨fun h t ht => h t ((List.eraseIdx_sublist ..).subset ht), fun _ _ => rfl, fun _ _ => rfl⟩

/-- A user gets another answer. -/
theorem Inv.bump_retire {n u c : Nat} {data : Bytes} {version : ι} (inv : Inv (k.bump u c data version)) (hn : 0 < n)
    (hb : Bounded n k) :
    Inv ((k.bump u c data version).retire n u) ∧ Bounded n ((k.bump u c data version).retire n u) := by
  refine ⟨inv.retire n u, inv.retire_bounded hn ?_ fun v hv => ?_⟩
  · have := hb u
    simp only [Core.bump, Function.update_self]
    omega
  · simp only [Core.bump, Function.update_of_ne hv]
    exact hb v

theorem Turn.inv [LinearOrder ι] {env : Env ι} {s : Server ι} {e : Event} {k' : Core ι} (ht : Turn env s e k')
    (hn : 0 < env.expired_number) (hk : Known s) (inv : Inv (core s)) (hb : Bounded env.expired_number (core s)) :
    Inv k' ∧ Bounded env.expired_number k' ∧ Beyond s.nusers (core s) k' := by
  cases ht with
  | quiet => exact ⟨inv, hb, fun h => h, fun _ _ => rfl, fun _ _ => rfl⟩
  | @conflict fd u c msg hconn =>
    exact ⟨inv.drop .., hb, beyond_drop _ (hk.connection fd u hconn) _⟩
  | @call fd u msg hconn =>
    exact ⟨inv.call .., hb, beyond_call _ (hk.connection fd u hconn) _ _⟩
  | @again fd u c msg hconn =>
    exact ⟨inv.again .., hb, fun h => h, fun _ _ => rfl, fun _ _ => rfl⟩
  | @resend fd u c msg data hconn hshake hlookup hversion hresponse =>
    have hu := hk.connection fd u hconn
    have hbump := inv.resend (s.users u).version hlookup hresponse
    obtain ⟨hinv, hbounded⟩ := hbump.bump_retire hn hb
    rw [Core.again_answer hresponse]
    exact ⟨hinv, hbounded, (beyond_bump _ hu ..).trans (hbump.beyond_retire hu _)⟩
  | @failed i t ok result ht =>
    exact ⟨inv.finish i, hb, beyond_finish ..⟩
  | @returned i t ok result data ht hpacked =>
    have hu := hk.tasks t (List.mem_of_getElem? ht)
    have hbump := inv.returned ht data (s.users t.user).version
    have hfinish : Bounded env.expired_number ((core s).finish i) := hb
    obtain ⟨hinv, hbounded⟩ := hbump.bump_retire hn hfinish
    rw [Core.ready_answer]
    exact ⟨hinv, hbounded, ((beyond_finish ..).trans (beyond_bump _ hu ..)).trans (hbump.beyond_retire hu _)⟩

theorem doAuth_accepted [LinearOrder ι] {env : Env ι} {s : Server ι} {message : Bytes} {u : Nat} {idx : ι}
    (h : doAuth env s message = .accepted u idx) :
    ∃ username index hmac v, matchAuth message = some (username, index, hmac) ∧
      s.user_online username = some u ∧ env.tonumber index = some idx ∧ (s.users u).version < idx ∧
      env.b64decode hmac = some v ∧ env.hmac_hash (s.users u).secret (username ++ 58 :: index) = some v := by
  unfold doAuth at h
  split at h
  · cases h
  · rename_i username index hmac hmatch
    split at h
    · cases h
    · rename_i u' honline
      split at h
      · rename_i idx' hmac' hidx hhmac
        split at h
        · cases h
        · rename_i hversion
          split at h
          · cases h
          · rename_i v hv
            split at h
            · cases h
            · rename_i heq
              cases h
              rw [not_not.mp heq] at hv
              exact ⟨username, index, hmac, hmac', hmatch, honline, hidx, lt_of_not_ge hversion, hhmac, hv⟩
      · cases h

theorem login_links [Zero ι] (s : Server ι) (hk : Known s) (username secret : Bytes) :
    s.nusers ≤ (login s username secret).nusers ∧
    (∀ name u, (login s username secret).user_online name = some u → u < (login s username secret).nusers) ∧
    (login s username secret).connection = s.connection ∧ (login s username secret).handshake = s.handshake := by
  unfold login
  split
  · exact ⟨Nat.le_refl _, hk.online, rfl, rfl⟩
  · refine ⟨Nat.le_succ _, fun name u h => ?_, rfl, rfl⟩
    dsimp only at h
    by_cases hname : name = username
    · subst hname
      rw [Function.update_self] at h
      cases h
      exact Nat.lt_succ_self _
    · rw [Function.update_of_ne hname] at h
      exact Nat.lt_succ_of_lt (hk.online name u h)

/-- How the logins and the connections grow. -/
theorem step_links [LinearOrder ι] [Zero ι] (env : Env ι) {s : Server ι} (hk : Known s) (e : Event) :
    s.nusers ≤ (step env s e).1.nusers ∧
    (∀ name u, (step env s e).1.user_online name = some u → u < (step env s e).1.nusers) ∧
    ∀ fd u, (step env s e).1.connection fd = some u → u < s.nusers := by
  have hsame : ∀ {s' : Server ι}, Links s s' → s.nusers ≤ s'.nusers ∧
    (∀ name u, s'.user_online name = some u → u < s'.nusers) ∧
      ∀ fd u, s'.connection fd = some u → u < s.nusers := by
    intro s' h
    rw [h.nusers, h.user_online, h.connection]
    exact ⟨Nat.le_refl _, hk.online, hk.connection⟩
  have hremove : ∀ fd fd' u, Function.update s.connection fd none fd' = some u → u < s.nusers := by
    intro fd fd' u h
    by_cases hfd : fd' = fd
    · subst hfd
      rw [Function.update_self] at h
      cases h
    · rw [Function.update_of_ne hfd] at h
      exact hk.connection fd' u h
  cases e with
  | connect fd addr =>
    simp only [step, connect]
    split
    · exact hsame (.refl s)
    · exact ⟨Nat.le_refl _, hk.online, hk.connection⟩
  | disconnect fd =>
    simp only [step, disconnect]
    split
    · exact ⟨Nat.le_refl _, hk.online, hk.connection⟩
    · exact ⟨Nat.le_refl _, hk.online, hremove fd⟩
  | closeFd fd =>
    simp only [step, closeFd]
    split
    · exact hsame (.refl s)
    · exact ⟨Nat.le_refl _, hk.online, hk.connection⟩
  | message fd msg =>
    simp only [step]
    split
    · split
      · simp only [auth]
        split
        · have h := links_closeclient s fd
          have := hsame h
          exact this
        · rename_i u idx haccepted
          refine ⟨Nat.le_refl _, hk.online, fun fd' v h => ?_⟩
          by_cases hfd : fd' = fd
          · subst hfd
            simp only [Function.update_self, Option.some.injEq] at h
            obtain ⟨username, -, -, -, -, honline, -⟩ := doAuth_accepted haccepted
            exact h ▸ hk.online username u honline
          · simp only [Function.update_of_ne hfd] at h
            exact hk.connection fd' v h
      · exact hsame (request_links env s fd msg)
    · exact hsame (.refl s)
  | done i ok result => exact hsame (done_links env s i ok result)
  | login username secret =>
    obtain ⟨h₁, h₂, h₃, -⟩ := login_links s hk username secret
    simp only [step]
    exact ⟨h₁, h₂, by rw [h₃]; exact hk.connection⟩
  | logout username =>
    simp only [step, logout]
    split
    · exact hsame (.refl s)
    · have honline : ∀ name u, Function.update s.user_online username none name = some u → u < s.nusers := by
        intro name u h
        by_cases hname : name = username
        · subst hname
          rw [Function.update_self] at h
          cases h
        · rw [Function.update_of_ne hname] at h
          exact hk.online name u h
      split
      · exact ⟨Nat.le_refl _, honline, hk.connection⟩
      · rename_i fd _
        have hclose := links_closeclient { s with user_online := Function.update s.user_online username none } fd
        rw [hclose.nusers, hclose.user_online]
        exact ⟨Nat.le_refl _, honline, hremove fd⟩

theorem Known.step [LinearOrder ι] [Zero ι] {env : Env ι} {s : Server ι} (hk : Known s) (hn : 0 < env.expired_number)
    (inv : Inv (core s)) (hb : Bounded env.expired_number (core s)) (e : Event) : Known (step env s e).1 := by
  obtain ⟨hle, honline, hconnection⟩ := step_links env hk e
  obtain ⟨-, -, hbeyond⟩ := (step_turn env s e (hk.new _ (Nat.le_refl _))).inv hn hk inv hb
  refine ⟨honline, fun fd u h => Nat.lt_of_lt_of_le (hconnection fd u h) hle, fun t ht => ?_, fun u hu => ?_⟩
  · exact Nat.lt_of_lt_of_le (hbeyond.tasks hk.tasks t ht) hle
  · have hresponse := hbeyond.response u (Nat.le_trans hle hu)
    have hindex := hbeyond.index u (Nat.le_trans hle hu)
    obtain ⟨hnil, hzero⟩ := hk.new u (Nat.le_trans hle hu)
    exact ⟨hresponse.trans hnil, hindex.trans hzero⟩

/-- What holds in every run. -/
structure Sound (n : Nat) (s : Server ι) : Prop where
  known : Known s
  inv : Inv (core s)
  bounded : Bounded n (core s)

theorem sound_init [Zero ι] (hn : 0 < n) : Sound n (init : Server ι) where
  known := known_init
  inv := {
    unique := fun _ _ _ _ _ h => absurd h List.not_mem_nil
    keys := fun _ => List.nodup_nil
    lt := fun _ _ _ h => absurd h List.not_mem_nil
    task_lt := fun _ h => absurd h List.not_mem_nil
    task_nodup := List.nodup_nil
    task_user := fun _ h => absurd h List.not_mem_nil
    waiting := fun _ h => absurd h List.not_mem_nil
    index_lt := fun _ _ _ h => absurd h List.not_mem_nil
    index_inj := fun _ _ _ _ _ h => absurd h List.not_mem_nil }
  bounded := fun _ => Nat.mul_pos hn (Nat.zero_lt_two)

theorem Sound.lookup {n : Nat} {s : Server ι} (h : Sound n s) {u q c : Nat} (hmem : (q, c) ∈ (s.users u).response) :
    (s.users u).response.lookup q = some c := by
  cases hlookup : (s.users u).response.lookup q with
  | none =>
    have hne := List.lookup_eq_none_iff.mp hlookup _ hmem
    simp at hne
  | some c' =>
    have heq := List.inj_on_of_nodup_map (h.inv.keys u) (mem_of_lookup hlookup) hmem rfl
    rw [(Prod.mk.inj heq).2]

variable [LinearOrder ι] [Zero ι] {env : Env ι} {s : Server ι}

theorem Sound.step (h : Sound env.expired_number s) (hn : 0 < env.expired_number) (e : Event) :
    Sound env.expired_number (step env s e).1 := by
  obtain ⟨hinv, hbounded, -⟩ := (step_turn env s e (h.known.new _ (Nat.le_refl _))).inv hn h.known h.inv h.bounded
  exact ⟨h.known.step hn h.inv h.bounded e, hinv, hbounded⟩

theorem Sound.trace (h : Sound env.expired_number s) (hn : 0 < env.expired_number) (es : List Event) :
    Sound env.expired_number (Transducer.trace (Msgserver.step env) s es).1 := by
  induction es generalizing s with
  | nil => exact h
  | cons e es ih => exact ih (h.step hn e)

/-- The complete responses that the server keeps for a user. -/
def completed (s : Server ι) (u : Nat) : List (Nat × Nat) :=
  (s.users u).response.filter fun p => (s.cells p.2).fd = none

/-- Whatever the clients do, a user has fewer complete responses than twice `expired_number`. -/
theorem cache_bounded (env : Env ι) (hn : 0 < env.expired_number) (es : List Event) (u : Nat) :
    (completed (Transducer.trace (step env) init es).1 u).length < 2 * env.expired_number := by
  have h := (sound_init hn).trace hn es
  obtain ⟨s, hs⟩ : ∃ s, s = (Transducer.trace (step env) init es).1 := ⟨_, rfl⟩
  rw [← hs] at h ⊢
  have hmem : ∀ p ∈ completed s u, p ∈ (s.users u).response ∧ (s.cells p.2).fd = none := fun p hp => by
    obtain ⟨hmem, hfd⟩ := List.mem_filter.mp hp
    exact ⟨hmem, of_decide_eq_true hfd⟩
  have hnodup : ((completed s u).map fun p => (s.cells p.2).index).Nodup := by
    have hkeys : ((completed s u).map Prod.fst).Nodup := (h.inv.keys u).sublist (List.filter_sublist.map _)
    refine (List.Nodup.of_map Prod.fst hkeys).map_on fun p hp p' hp' heq => ?_
    obtain ⟨hp, hfd⟩ := hmem p hp
    obtain ⟨hp', hfd'⟩ := hmem p' hp'
    have hcell := h.inv.index_inj u p.1 p'.1 p.2 p'.2 hp hp' hfd hfd' heq
    have hkey := (h.inv.unique u u p.1 p'.1 p.2 hp (hcell ▸ hp')).2
    exact Prod.ext hkey hcell
  have hsub : ((completed s u).map fun p => (s.cells p.2).index) ⊆ List.range ((core s).index u) := by
    intro i hi
    obtain ⟨p, hp, rfl⟩ := List.mem_map.mp hi
    obtain ⟨hp, hfd⟩ := hmem p hp
    exact List.mem_range.mpr (h.inv.index_lt u p.1 p.2 hp hfd)
  have hle := (hnodup.subperm hsub).length_le
  rw [List.length_map, List.length_range] at hle
  have := h.bounded u
  omega

/-! A client that comes back. -/

/-- The user "YQ==@Zw==#MQ==", and the hashes of its first two handshakes, encoded and as they are. -/
def clientName : Bytes := [89, 81, 61, 61, 64, 90, 119, 61, 61, 35, 77, 81, 61, 61]

def clientSecret : Bytes := [1, 2, 3, 4, 5, 6, 7, 8]

def firstHash : Bytes × Bytes :=
  ([88, 66, 104, 75, 47, 87, 120, 98, 83, 107, 65, 61], [92, 24, 74, 253, 108, 91, 74, 64])

def secondHash : Bytes × Bytes :=
  ([104, 75, 70, 104, 90, 78, 76, 112, 100, 119, 77, 61], [132, 161, 97, 100, 210, 233, 119, 3])

def oneClient : Env Int where
  tonumber
    | [c] => if 48 ≤ c ∧ c ≤ 57 then some (c.toNat - 48) else none
    | _ => none
  b64decode text := [firstHash, secondHash].lookup text
  hmac_hash secret text :=
    if secret = clientSecret then
      [(clientName ++ [58, 49], firstHash.2), (clientName ++ [58, 50], secondHash.2)].lookup text
    else none
  expired_number := 2
  maxclient := 8

def firstHandshake : Bytes := clientName ++ [58, 49, 58] ++ firstHash.1

def secondHandshake : Bytes := clientName ++ [58, 50, 58] ++ secondHash.1

/-- It sends a request with the session 7. -/
def asked : List Event :=
  [.login clientName clientSecret, .connect 1 [49], .message 1 firstHandshake, .message 1 [104, 105, 0, 0, 0, 7]]

/-- It loses its connection, and shakes hands on the next one. -/
def reconnected : List Event := [.disconnect 1, .closeFd 1, .connect 2 [50], .message 2 secondHandshake]

theorem cache_bounded_reconnected :
    (completed (Transducer.trace (step oneClient) init
      (asked ++ .done 0 true [111, 107] :: reconnected)).1 0).length < 4 :=
  cache_bounded oneClient (by decide) _ 0

end Msgserver
end Skynet
