import Skynet.Snax.Logins

/-!
# Skynet.Snax.Resend

A client that comes back gets the response that it has missed.

* `Kept` : a complete response, and how many younger ones there are at most.
* `response_resent` : a response is kept until there are `expired_number` younger ones. A client that comes back and
  asks again gets it, and its request is not handled again.
-/

namespace Skynet
namespace Msgserver

variable {ι : Type*} {k : Core ι}

/-- The response of a request is complete, and the user has got at most `a` others since. -/
structure Kept (k : Core ι) (u session c : Nat) (data : Bytes) (version : ι) (a : Nat) : Prop where
  mem : (session, c) ∈ k.response u
  fd : (k.cells c).fd = none
  response : (k.cells c).response = some data
  version : (k.cells c).version = some version
  age : k.index u ≤ (k.cells c).index + 1 + a

variable {n u u' session c a : Nat} {data : Bytes} {version : ι}

theorem Kept.retire (h : Kept k u session c data version a) (inv : Inv k) (ha : a < n) (u' : Nat) :
    Kept (k.retire n u') u session c data version a := by
  obtain ⟨-, heq⟩ | ⟨hfull, hr⟩ := inv.retire_cases n u'
  · rw [heq]
    exact h
  · have hage := h.age
    have hyoung : u = u' → ¬ Expired n k.cells c := by
      rintro rfl hexpired
      have := hexpired.2
      omega
    have hmem := hr.kept u session c h.mem hyoung
    refine ⟨hmem, (hr.fd c).trans h.fd, (hr.response c).trans h.response, (hr.version c).trans h.version, ?_⟩
    by_cases hu : u = u'
    · subst hu
      have hrenumbered := hr.renumbered session c hmem h.fd
      obtain hone | ⟨q, c', hc', hfd', hmax⟩ := hr.attained
      · omega
      · have := inv.index_lt u q c' hc' hfd'
        omega
    · rw [hr.index u hu, hr.other u session c hu h.mem]
      exact hage

theorem Kept.mono (h : Kept k u session c data version a) {b : Nat} (hab : a ≤ b) : Kept k u session c data version b :=
  ⟨h.mem, h.fd, h.response, h.version, by have := h.age; omega⟩

/-- Another response of the same user, or one of another user. -/
theorem Kept.bump (h : Kept k u session c data version a) {c' : Nat} (hc : c' ≠ c) (data' : Bytes) (version' : ι) :
    Kept (k.bump u' c' data' version') u session c data version (a + if u' = u then 1 else 0) := by
  have hcell : (k.bump u' c' data' version').cells c = k.cells c := Function.update_of_ne hc.symm ..
  refine ⟨h.mem, by rw [hcell, h.fd], by rw [hcell, h.response], by rw [hcell, h.version], ?_⟩
  have hage := h.age
  rw [hcell]
  simp only [Core.bump]
  by_cases hu : u = u'
  · subst hu
    rw [Function.update_self, if_pos rfl]
    omega
  · rw [Function.update_of_ne hu, if_neg (Ne.symm hu)]
    exact hage

/-- A step that leaves the cell and the index of the user as they are. -/
theorem Kept.congr {k' : Core ι} (h : Kept k u session c data version a) (hmem : (session, c) ∈ k'.response u)
    (hcell : k'.cells c = k.cells c) (hindex : k'.index u = k.index u) : Kept k' u session c data version a :=
  ⟨hmem, hcell ▸ h.fd, hcell ▸ h.response, hcell ▸ h.version, by rw [hcell, hindex]; exact h.age⟩

/-- The number of answers that a step gives to a user. -/
def answers [DecidableEq ι] (s : Server ι) (u : Nat) : Event → Nat
  | .done i ok result =>
    match s.tasks[i]? with
    | some t => if t.user = u ∧ (packed t.session ok result).isSome then 1 else 0
    | none => 0
  | .message fd msg =>
    if s.connection fd = some u then
      match (s.users u).response.lookup (sessionOf msg) with
      | some c => if (s.cells c).version ≠ some (s.users u).version ∧ (s.cells c).response.isSome then 1 else 0
      | none => 0
    else 0
  | _ => 0

/-- The event is no request of the user with this session. -/
def NotAsked (s : Server ι) (u session : Nat) : Event → Prop
  | .message fd msg => s.connection fd = some u → sessionOf msg ≠ session
  | _ => True

theorem Kept.turn [LinearOrder ι] {env : Env ι} {s : Server ι} {e : Event} {k' : Core ι}
    (h : Kept (core s) u session c data version a) (inv : Inv (core s)) (ht : Turn env s e k')
    (hasked : NotAsked s u session e) (ha : a + answers s u e < env.expired_number) :
    Kept k' u session c data version (a + answers s u e) := by
  have hdrop : ∀ v q, (v = u → q ≠ session) → (session, c) ∈ ((core s).drop v q).response u := by
    intro v q hq
    simp only [Core.drop]
    by_cases hv : u = v
    · subst hv
      rw [Function.update_self]
      exact List.mem_filter.mpr ⟨h.mem, decide_eq_true (Ne.symm (hq rfl))⟩
    · rw [Function.update_of_ne hv]
      exact h.mem
  cases ht with
  | quiet => exact h.mono (Nat.le_add_right ..)
  | @conflict fd v c' msg hconn hlookup hversion hresponse =>
    have hmem := hdrop v (sessionOf msg) (by rintro rfl; exact hasked hconn)
    have hkept : Kept ((core s).drop v (sessionOf msg)) u session c data version a := h.congr hmem rfl rfl
    exact hkept.mono (Nat.le_add_right ..)
  | @call fd v msg hconn hshake =>
    have hmem := hdrop v (sessionOf msg) (by rintro rfl; exact hasked hconn)
    have hkept : Kept ((core s).call v (sessionOf msg) fd) u session c data version a := by
      refine h.congr ?_ (Function.update_of_ne (Nat.ne_of_lt (inv.lt _ _ _ h.mem)) ..) rfl
      simp only [Core.drop, Core.call] at hmem ⊢
      by_cases hv : u = v
      · subst hv
        rw [Function.update_self] at hmem ⊢
        exact List.mem_cons_of_mem _ hmem
      · rw [Function.update_of_ne hv] at hmem ⊢
        exact hmem
    exact hkept.mono (Nat.le_add_right ..)
  | @again fd v c' msg hconn hshake hlookup hversion hresponse =>
    have hc : c ≠ c' := by
      rintro rfl
      have hdata := h.response
      simp only [core, hresponse] at hdata
      cases hdata
    have hkept : Kept ((core s).again c' fd (s.users v).version v) u session c data version a :=
      h.congr h.mem (Function.update_of_ne hc ..) rfl
    exact hkept.mono (Nat.le_add_right ..)
  | @resend fd v c' msg data' hconn hshake hlookup hversion hresponse =>
    have hmem : (sessionOf msg, c') ∈ (core s).response v := mem_of_lookup hlookup
    have hc : c' ≠ c := by
      rintro rfl
      obtain ⟨rfl, hsession⟩ := inv.unique _ _ _ _ _ hmem h.mem
      exact hasked hconn hsession
    have hanswers : answers s u (.message fd msg) = if v = u then 1 else 0 := by
      simp only [answers, hconn, Option.some.injEq]
      by_cases hv : v = u
      · subst hv
        rw [if_pos rfl, if_pos rfl, hlookup]
        exact if_pos ⟨hversion, by rw [hresponse]; rfl⟩
      · rw [if_neg hv, if_neg hv]
    rw [Core.again_answer hresponse, hanswers]
    rw [hanswers] at ha
    exact (h.bump hc data' _).retire (inv.resend _ hlookup hresponse) ha v
  | @failed i t ok result ht hpacked =>
    have hkept : Kept ((core s).finish i) u session c data version a := h.congr h.mem rfl rfl
    exact hkept.mono (Nat.le_add_right ..)
  | @returned i t ok result data' ht hpacked =>
    have hmem : t ∈ (core s).tasks := List.mem_of_getElem? ht
    have hc : t.cell ≠ c := by
      rintro rfl
      have hnone := (inv.waiting t hmem).1
      rw [h.response] at hnone
      cases hnone
    have hanswers : answers s u (.done i ok result) = if t.user = u then 1 else 0 := by
      simp only [answers, ht, hpacked, Option.isSome_some, and_true]
    have hfinish : Kept ((core s).finish i) u session c data version a := h.congr h.mem rfl rfl
    rw [Core.ready_answer, hanswers]
    rw [hanswers] at ha
    exact (hfinish.bump hc data' _).retire (inv.returned ht data' _) ha t.user

theorem core_returned (env : Env ι) {s : Server ι} {i : Nat} {t : Task} {ok : Bool} {result data : Bytes}
    (ht : s.tasks[i]? = some t) (hpacked : packed t.session ok result = some data) :
    core (done env s i ok result).1 =
      (((core s).finish i).bump t.user t.cell data (s.users t.user).version).retire env.expired_number t.user := by
  rw [← Core.ready_answer, done, ht]
  simp only [hpacked, core_answer]
  rfl

/-! ### Whole runs -/

variable [LinearOrder ι] [Zero ι] {env : Env ι} {s : Server ι}

/-- The number of answers that a user gets in a run. -/
def answersIn (env : Env ι) (u : Nat) : Server ι → List Event → Nat
  | _, [] => 0
  | s, e :: es => answers s u e + answersIn env u (step env s e).1 es

theorem Kept.trace {u session c a : Nat} {data : Bytes} {version : ι} (h : Kept (core s) u session c data version a)
    (hs : Sound env.expired_number s) (hn : 0 < env.expired_number) {es : List Event}
    (hes : Transducer.Allowed (Msgserver.step env) (fun s e => NotAsked s u session e) s es)
    (ha : a + answersIn env u s es < env.expired_number) :
    Kept (core (Transducer.trace (Msgserver.step env) s es).1) u session c data version (a + answersIn env u s es) := by
  induction es generalizing s a with
  | nil => exact h
  | cons e es ih =>
    rw [answersIn, ← Nat.add_assoc] at ha ⊢
    have ht := step_turn env s e (hs.known.new _ (Nat.le_refl _))
    exact ih (h.turn hs.inv ht hes.1 (by omega)) (hs.step hn e) hes.2 ha

/-- A request is answered from the responses: with what was packed, and without a call. -/
theorem Kept.resent {n u session c a fd : Nat} {data msg : Bytes} {version : ι}
    (h : Kept (core s) u session c data version a) (hs : Sound n s) (hclient : s.client fd = some true)
    (hshake : s.handshake fd = none) (hconn : s.connection fd = some u)
    (hlen : 4 ≤ msg.length) (hsession : sessionOf msg = session) (hversion : (s.users u).version ≠ version) :
    (step env s (.message fd msg)).2 = [.response fd data] := by
  have hlookup := hs.lookup h.mem
  have hresponse : (s.cells c).response = some data := h.response
  have hv : (s.cells c).version ≠ some (s.users u).version := by
    rw [show (s.cells c).version = some version from h.version]
    exact fun heq => hversion (Option.some.inj heq).symm
  rw [← hsession] at hlookup
  rw [step, if_pos hclient, hshake]
  simp only [request, hconn]
  rw [if_neg (by omega),
    show (s.users u).response.lookup (Endian.ofBe (msg.drop (msg.length - 4))) = some c from hlookup]
  dsimp only
  rw [if_neg hv, if_neg (by rw [hresponse]; exact Option.some_ne_none data)]
  simp only [answer, Server.setCell, Function.update_self, hresponse, hconn, Option.isSome_some, if_true]

end Msgserver
end Skynet
