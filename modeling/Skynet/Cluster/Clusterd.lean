import Mathlib.Data.List.Forall2
import Skynet.Cluster.Wire
import Skynet.Lib.Run

/-!
# Skynet.Cluster.Clusterd

`command.socket` of `clusterd.lua`: the requests of all peers, with the table `large_request` of those
that have not arrived as a whole.

* An event is a message of the gate, or the return of `skynet.rawcall` to a suspended request. What
  `command.socket` does between two yields is one step; a step that is not there is the abort of
  `skynet_malloc`.
* `Connection` : what one connection has sent, looked at alone.
* `requests_delivered` : if no two connections have an unfinished request of one session, and the table
  is not dropped while there are unfinished requests, then the requests of each connection are
  dispatched as they were sent.
-/

namespace Skynet
namespace Cluster

/-! ### The service -/

/-- A record of `large_request`: `addr`, and the values that `table.insert` put behind each other. -/
structure Req where
  addr : Option Addr
  items : List Part
deriving Repr, DecidableEq

/-- A request that is dispatched; a part without its request has no address. -/
structure Call where
  fd : Nat
  session : Nat
  addr : Option Addr
  msg : Bytes
deriving Repr, DecidableEq

/-- `large_request`, the requests suspended in `skynet.rawcall`, all that were dispatched so far, and what
was written to the sockets. -/
structure Clusterd where
  largeRequest : Nat → Option Req
  calls : List Call
  dispatched : List Call
  written : List (Nat × Bytes)

def Clusterd.init : Clusterd := { largeRequest := fun _ => none, calls := [], dispatched := [], written := [] }

/-- The messages of the gate that drop `large_request`. -/
inductive Notice where
  | close
  | error
  | warning
deriving Repr, DecidableEq

inductive Event where
  | data (fd : Nat) (msg : Bytes)
  | opened (fd : Nat)
  | notice (subcmd : Notice) (fd : Nat)
  | ret (i : Nat) (ok : Bool) (msg : Bytes)
deriving Repr, DecidableEq

/-- The answer to a name at address 0: an error of `skynet.unpack`, the packed address, or none. -/
inductive Query where
  | raised
  | found (packed : Bytes)
  | missing
deriving Repr, DecidableEq

def bytesOf (s : String) : Bytes := s.toUTF8.toList

def setRequest (t : Nat → Option Req) (session : Nat) (r : Option Req) : Nat → Option Req :=
  fun k => if k = session then r else t k

/-- A response is packed and written to the socket. -/
def respond (fd session : Nat) (ok : Bool) (msg : Bytes) (s : Clusterd) : Option Clusterd :=
  match lpackresponse session ok msg with
  | .error _ => none
  | .ok r => some { s with written := s.written ++ r.frames.map fun f => (fd, f) }

/-- A whole request: the query of a name, or the call of `skynet.rawcall`. -/
def dispatch (query : Bytes → Query) (c : Call) (s : Clusterd) : Option Clusterd :=
  if c.addr = some (.number 0) then
    let s := { s with dispatched := s.dispatched ++ [c] }
    match query c.msg with
    | .raised => some s
    | .found packed => respond c.fd c.session true packed s
    | .missing => respond c.fd c.session false (bytesOf "name not found") s
  else some { s with calls := s.calls ++ [c], dispatched := s.dispatched ++ [c] }

/-- A frame with the values `u`. -/
def onFrame (query : Bytes → Query) (fd : Nat) (u : Unpacked (Option Addr)) (s : Clusterd) : Option Clusterd :=
  if u.padding then
    let req := (s.largeRequest u.session).getD { addr := u.head, items := [] }
    some { s with largeRequest := setRequest s.largeRequest u.session (some { req with items := req.items ++ [u.msg] }) }
  else
    match s.largeRequest u.session with
    | some req =>
      let s := { s with largeRequest := setRequest s.largeRequest u.session none }
      match lconcat (req.items ++ [u.msg]) with
      | .error _ => none
      | .ok none => respond fd u.session false (bytesOf "Invalid large req") s
      | .ok (some msg) => dispatch query ⟨fd, u.session, req.addr, msg⟩ s
    | none =>
      match u.msg with
      | .data msg => dispatch query ⟨fd, u.session, u.head, msg⟩ s
      | .size _ => none

/-- `command.socket`; an error of `unpackrequest` ends it. -/
def step (query : Bytes → Query) (s : Clusterd) : Event → Option Clusterd
  | .data fd msg =>
    match lunpackrequest msg with
    | .error _ => some s
    | .ok u => onFrame query fd u s
  | .opened _ => some s
  | .notice _ _ => some { s with largeRequest := fun _ => none }
  | .ret i ok msg =>
    match s.calls[i]? with
    | none => none
    | some c => respond c.fd c.session ok msg { s with calls := s.calls.eraseIdx i }

/-! ### One connection alone -/

/-- The frames of an unfinished request of one session on a connection, and the requests before it. -/
structure Connection where
  pending : List (Unpacked (Option Addr))
  calls : List Call

def Connection.init : Connection := { pending := [], calls := [] }

/-- The request of the frames `us`, the last of which has no padding. -/
def assemble (fd session : Nat) (us : List (Unpacked (Option Addr))) : List Call :=
  match received us with
  | .ok (some msg) => [⟨fd, session, us.head?.bind Unpacked.head, msg⟩]
  | _ => []

def Connection.frame (fd session : Nat) (c : Connection) (u : Unpacked (Option Addr)) : Connection :=
  if u.session ≠ session then c
  else if u.padding then { c with pending := c.pending ++ [u] }
  else { pending := [], calls := c.calls ++ assemble fd session (c.pending ++ [u]) }

def Connection.event (fd session : Nat) (c : Connection) : Event → Connection
  | .data fd' msg =>
    match lunpackrequest msg with
    | .error _ => c
    | .ok u => if fd' = fd then c.frame fd session u else c
  | .notice .close fd' => if fd' = fd then { c with pending := [] } else c
  | .notice .error fd' => if fd' = fd then { c with pending := [] } else c
  | _ => c

/-- What the events have on a connection, for a session. -/
def connection (fd session : Nat) (es : List Event) : Connection :=
  es.foldl (Connection.event fd session) .init

/-- The connection has an unfinished request of the session. -/
def Unfinished (fd session : Nat) (es : List Event) : Prop := (connection fd session es).pending ≠ []

/-- The event `e` behind the events `es` meets no unfinished request of another connection in its session,
and drops no unfinished request of a connection that stays. -/
def Apart (es : List Event) : Event → Prop
  | .data fd msg => ∀ u, lunpackrequest msg = .ok u → ∀ fd', fd' ≠ fd → ¬Unfinished fd' u.session es
  | .notice .warning _ => ∀ fd session, ¬Unfinished fd session es
  | .notice _ fd => ∀ fd' session, fd' ≠ fd → ¬Unfinished fd' session es
  | _ => True

/-- Every event of the run is apart. -/
def Isolated (es : List Event) : Prop := ∀ pre e post, es = pre ++ e :: post → Apart pre e

/-! ### The shared table -/

theorem connection_snoc (fd session : Nat) (es : List Event) (e : Event) :
    connection fd session (es ++ [e]) = (connection fd session es).event fd session e := by
  rw [connection, List.foldl_append]; rfl

/-- The table has the unfinished requests of all connections, at most one for a session, and the
dispatched requests are those of the connections. -/
structure Simulates (es : List Event) (s : Clusterd) : Prop where
  unique : ∀ session fd fd', Unfinished fd session es → Unfinished fd' session es → fd = fd'
  free : ∀ session, (∀ fd, ¬Unfinished fd session es) → s.largeRequest session = none
  held : ∀ fd session, Unfinished fd session es → s.largeRequest session =
    some ⟨(connection fd session es).pending.head?.bind Unpacked.head, (connection fd session es).pending.map Unpacked.msg⟩
  dispatched : ∀ fd session, (s.dispatched.filter fun c => c.fd = fd ∧ c.session = session) = (connection fd session es).calls
  calls : ∀ c ∈ s.calls, c ∈ s.dispatched

theorem Simulates.init : Simulates [] .init where
  unique := fun _ _ _ h => absurd rfl h
  free := fun _ _ => rfl
  held := fun _ _ h => absurd rfl h
  dispatched := fun _ _ => rfl
  calls := nofun

/-- Writing a response changes nothing else. -/
theorem respond_some {fd session : Nat} {ok : Bool} {msg : Bytes} {s s' : Clusterd} (h : respond fd session ok msg s = some s') :
    ∃ r, lpackresponse session ok msg = .ok r ∧ s' = { s with written := s.written ++ r.frames.map fun f => (fd, f) } := by
  simp only [respond] at h
  split at h
  · cases h
  · rename_i r hr
    cases h
    exact ⟨r, hr, rfl⟩

/-- A dispatched request is added to the log, and to the suspended ones at most. -/
theorem dispatch_some {query : Bytes → Query} {c : Call} {s s' : Clusterd} (h : dispatch query c s = some s') :
    s'.largeRequest = s.largeRequest ∧ s'.dispatched = s.dispatched ++ [c] ∧
      (s'.calls = s.calls ∨ s'.calls = s.calls ++ [c]) := by
  simp only [dispatch] at h
  split at h
  · split at h
    · cases h; exact ⟨rfl, rfl, .inl rfl⟩
    · obtain ⟨r, -, rfl⟩ := respond_some h; exact ⟨rfl, rfl, .inl rfl⟩
    · obtain ⟨r, -, rfl⟩ := respond_some h; exact ⟨rfl, rfl, .inl rfl⟩
  · cases h; exact ⟨rfl, rfl, .inr rfl⟩

/-- An event that leaves every connection as it is. -/
theorem Simulates.of_eq {es : List Event} {e : Event} {s s' : Clusterd} (h : Simulates es s)
    (he : ∀ fd session, connection fd session (es ++ [e]) = connection fd session es)
    (hl : s'.largeRequest = s.largeRequest) (hd : s'.dispatched = s.dispatched) (hc : ∀ c ∈ s'.calls, c ∈ s.calls) :
    Simulates (es ++ [e]) s' := by
  have hu : ∀ fd session, Unfinished fd session (es ++ [e]) ↔ Unfinished fd session es := by
    intro fd session
    rw [Unfinished, he]; rfl
  refine ⟨?_, ?_, ?_, ?_, ?_⟩
  · intro session fd fd' h1 h2
    exact h.unique session fd fd' ((hu fd session).mp h1) ((hu fd' session).mp h2)
  · intro session hn
    rw [hl]
    exact h.free session fun fd hf => hn fd ((hu fd session).mpr hf)
  · intro fd session hf
    rw [hl, he]
    exact h.held fd session ((hu fd session).mp hf)
  · intro fd session
    rw [hd, he]
    exact h.dispatched fd session
  · intro c hmem
    rw [hd]
    exact h.calls c (hc c hmem)

/-- A frame changes its own connection only. -/
theorem connection_data {es : List Event} {fd : Nat} {msg : Bytes} {u : Unpacked (Option Addr)}
    (hu : lunpackrequest msg = .ok u) (fd' session : Nat) : connection fd' session (es ++ [Event.data fd msg]) =
      if fd = fd' then (connection fd' session es).frame fd' session u else connection fd' session es := by
  rw [connection_snoc]
  simp only [Connection.event, hu]

theorem connection_other {es : List Event} {fd : Nat} {msg : Bytes} {u : Unpacked (Option Addr)}
    (hu : lunpackrequest msg = .ok u) {fd' session : Nat} (hne : ¬(fd = fd' ∧ u.session = session)) :
    connection fd' session (es ++ [Event.data fd msg]) = connection fd' session es := by
  rw [connection_data hu]
  split
  · rename_i hfd
    rw [Connection.frame, if_pos (fun hs => hne ⟨hfd, hs⟩)]
  · rfl

section Step

variable {query : Bytes → Query} {es : List Event} {s s' : Clusterd}

/-- The record of the session in the table, before a frame of the connection. -/
theorem Simulates.record (h : Simulates es s) {fd session : Nat} (hapart : ∀ fd', fd' ≠ fd → ¬Unfinished fd' session es) :
    s.largeRequest session = if (connection fd session es).pending = [] then none else
      some ⟨(connection fd session es).pending.head?.bind Unpacked.head, (connection fd session es).pending.map Unpacked.msg⟩ := by
  split
  · rename_i hp
    apply h.free
    intro fd' hfd'
    by_cases hfd : fd' = fd
    · subst hfd; exact hfd' hp
    · exact hapart fd' hfd hfd'
  · rename_i hp
    exact h.held fd session hp

/-- A frame with the padding flag. -/
theorem Simulates.padding (h : Simulates es s) {fd : Nat} {msg : Bytes} {u : Unpacked (Option Addr)}
    (hu : lunpackrequest msg = .ok u) (hapart : ∀ fd', fd' ≠ fd → ¬Unfinished fd' u.session es) (hpad : u.padding = true)
    (hs : onFrame query fd u s = some s') : Simulates (es ++ [Event.data fd msg]) s' := by
  have hrec := h.record hapart
  have hown : connection fd u.session (es ++ [Event.data fd msg]) =
      { connection fd u.session es with pending := (connection fd u.session es).pending ++ [u] } := by
    rw [connection_data hu, if_pos rfl, Connection.frame, if_neg (by simp), if_pos hpad]
  have hun : ∀ fd' session, Unfinished fd' session (es ++ [Event.data fd msg]) →
      (fd = fd' ∧ u.session = session) ∨ Unfinished fd' session es := by
    intro fd' session hf
    by_cases hsame : fd = fd' ∧ u.session = session
    · exact .inl hsame
    · rw [Unfinished, connection_other hu hsame] at hf
      exact .inr hf
  simp only [onFrame, if_pos hpad, Option.some.injEq] at hs
  subst hs
  refine ⟨?_, ?_, ?_, ?_, h.calls⟩
  · intro session fd₁ fd₂ h1 h2
    rcases hun fd₁ session h1 with ⟨rfl, hs1⟩ | h1 <;> rcases hun fd₂ session h2 with ⟨rfl, hs2⟩ | h2
    · rfl
    · by_contra hne
      exact hapart fd₂ (fun he => hne he.symm) (hs1 ▸ h2)
    · by_contra hne
      exact hapart fd₁ hne (hs2 ▸ h1)
    · exact h.unique session fd₁ fd₂ h1 h2
  · intro session hfree
    have hne : session ≠ u.session := by
      rintro rfl
      apply hfree fd
      rw [Unfinished, hown]
      simp
    simp only [setRequest, if_neg hne]
    apply h.free
    intro fd' hf
    apply hfree fd'
    rwa [Unfinished, connection_other hu (fun he => hne he.2.symm)]
  · intro fd' session hf
    by_cases hsame : fd = fd' ∧ u.session = session
    · obtain ⟨rfl, rfl⟩ := hsame
      rw [hown]
      simp only [setRequest, if_true, hrec]
      by_cases hp : (connection fd u.session es).pending = []
      · rw [hp]; rfl
      · rw [if_neg hp, Option.getD_some]
        cases hpend : (connection fd u.session es).pending with
        | nil => exact absurd hpend hp
        | cons v vs => simp
    · have hold : Unfinished fd' session es := (hun fd' session hf).resolve_left hsame
      have hne : session ≠ u.session := by
        rintro rfl
        exact hapart fd' (fun he => hsame ⟨he.symm, rfl⟩) hold
      rw [connection_other hu hsame]
      simp only [setRequest, if_neg hne]
      exact h.held fd' session hold
  · intro fd' session
    by_cases hsame : fd = fd' ∧ u.session = session
    · obtain ⟨rfl, rfl⟩ := hsame
      rw [hown]
      exact h.dispatched fd u.session
    · rw [connection_other hu hsame]
      exact h.dispatched fd' session

theorem received_two {α : Type} (u v : Unpacked α) (us : List (Unpacked α)) :
    received (u :: v :: us) = lconcat ((u :: v :: us).map Unpacked.msg) := by
  obtain ⟨head, session, msg, padding⟩ := u
  cases msg <;> rfl

/-- The last frame takes the record out of the table, and what is assembled from it is dispatched. -/
theorem Simulates.onFrame_last (h : Simulates es s) {fd : Nat} {u : Unpacked (Option Addr)}
    (hapart : ∀ fd', fd' ≠ fd → ¬Unfinished fd' u.session es) (hpad : u.padding = false)
    (hs : onFrame query fd u s = some s') :
    (∀ session, s'.largeRequest session = if session = u.session then none else s.largeRequest session) ∧
      s'.dispatched = s.dispatched ++ assemble fd u.session ((connection fd u.session es).pending ++ [u]) ∧
      ∀ c ∈ s'.calls, c ∈ s.calls ∨ c ∈ assemble fd u.session ((connection fd u.session es).pending ++ [u]) := by
  have hrec := h.record hapart
  simp only [onFrame, hpad, Bool.false_eq_true, if_false] at hs
  cases hpend : (connection fd u.session es).pending with
  | nil =>
    rw [hpend, if_pos rfl] at hrec
    rw [hrec] at hs
    simp only at hs
    have hlarge : ∀ session, s.largeRequest session = if session = u.session then none else s.largeRequest session := by
      intro session
      split
      · rename_i he; rw [he, hrec]
      · rfl
    split at hs
    · rename_i msg hmsg
      obtain ⟨hl, hd, hc⟩ := dispatch_some hs
      have hasm : assemble fd u.session ([] ++ [u]) = [⟨fd, u.session, u.head, msg⟩] := by
        obtain ⟨head, session, m, padding⟩ := u
        simp only at hmsg
        subst hmsg
        rfl
      rw [hasm, hl]
      refine ⟨hlarge, hd, fun c hmem => ?_⟩
      rcases hc with hc | hc
      · exact .inl (hc ▸ hmem)
      · rw [hc, List.mem_append] at hmem
        exact hmem
    · cases hs
  | cons v vs =>
    rw [hpend, if_neg (by simp)] at hrec
    rw [hrec] at hs
    simp only at hs
    have hitems : (v :: vs).map Unpacked.msg ++ [u.msg] = (v :: vs ++ [u]).map Unpacked.msg := by
      rw [List.map_append]; rfl
    have hreceived : received (v :: vs ++ [u]) = lconcat ((v :: vs ++ [u]).map Unpacked.msg) := by
      cases vs with
      | nil => exact received_two v u []
      | cons w ws => exact received_two v w (ws ++ [u])
    rw [hitems, ← hreceived] at hs
    split at hs
    · cases hs
    · rename_i hrv
      obtain ⟨r, -, rfl⟩ := respond_some hs
      rw [assemble, hrv]
      exact ⟨fun session => rfl, (List.append_nil _).symm, fun c hc => .inl hc⟩
    · rename_i msg hrv
      obtain ⟨hl, hd, hc⟩ := dispatch_some hs
      have hasm : assemble fd u.session (v :: vs ++ [u]) = [⟨fd, u.session, v.head, msg⟩] := by
        rw [assemble, hrv]; rfl
      rw [hasm, hl]
      refine ⟨fun session => rfl, hd, fun c hmem => ?_⟩
      rcases hc with hc | hc
      · exact .inl (hc ▸ hmem)
      · rw [hc, List.mem_append] at hmem
        exact hmem

theorem assemble_filter (fd session : Nat) (us : List (Unpacked (Option Addr))) (fd' session' : Nat) :
    ((assemble fd session us).filter fun c => c.fd = fd' ∧ c.session = session') =
      if fd = fd' ∧ session = session' then assemble fd session us else [] := by
  unfold assemble
  split
  · simp only [List.filter_cons, List.filter_nil, decide_eq_true_eq]
  · simp

/-- A frame without the padding flag. -/
theorem Simulates.last (h : Simulates es s) {fd : Nat} {msg : Bytes} {u : Unpacked (Option Addr)}
    (hu : lunpackrequest msg = .ok u) (hapart : ∀ fd', fd' ≠ fd → ¬Unfinished fd' u.session es) (hpad : u.padding = false)
    (hs : onFrame query fd u s = some s') : Simulates (es ++ [Event.data fd msg]) s' := by
  obtain ⟨hlarge, hdisp, hcalls⟩ := h.onFrame_last hapart hpad hs
  have hown : connection fd u.session (es ++ [Event.data fd msg]) =
      ⟨[], (connection fd u.session es).calls ++ assemble fd u.session ((connection fd u.session es).pending ++ [u])⟩ := by
    rw [connection_data hu, if_pos rfl, Connection.frame, if_neg (by simp), if_neg (by rw [hpad]; simp)]
  have hun : ∀ fd' session, Unfinished fd' session (es ++ [Event.data fd msg]) →
      session ≠ u.session ∧ connection fd' session (es ++ [Event.data fd msg]) = connection fd' session es := by
    intro fd' session hf
    by_cases hsame : fd = fd' ∧ u.session = session
    · obtain ⟨rfl, rfl⟩ := hsame
      rw [Unfinished, hown] at hf
      exact absurd rfl hf
    · refine ⟨?_, connection_other hu hsame⟩
      rintro rfl
      rw [Unfinished, connection_other hu hsame] at hf
      exact hapart fd' (fun he => hsame ⟨he.symm, rfl⟩) hf
  refine ⟨?_, ?_, ?_, ?_, ?_⟩
  · intro session fd₁ fd₂ h1 h2
    have e1 := (hun fd₁ session h1).2
    have e2 := (hun fd₂ session h2).2
    rw [Unfinished, e1] at h1
    rw [Unfinished, e2] at h2
    exact h.unique session fd₁ fd₂ h1 h2
  · intro session hfree
    rw [hlarge]
    split
    · rfl
    · rename_i hne
      apply h.free
      intro fd' hf
      apply hfree fd'
      rwa [Unfinished, connection_other hu (fun he => hne he.2.symm)]
  · intro fd' session hf
    obtain ⟨hne, heq⟩ := hun fd' session hf
    rw [Unfinished, heq] at hf
    rw [hlarge, if_neg hne, heq]
    exact h.held fd' session hf
  · intro fd' session
    rw [hdisp, List.filter_append, h.dispatched, assemble_filter]
    by_cases hsame : fd = fd' ∧ u.session = session
    · obtain ⟨rfl, rfl⟩ := hsame
      rw [if_pos ⟨rfl, rfl⟩, hown]
    · rw [if_neg hsame, List.append_nil, connection_other hu hsame]
  · intro c hc
    rw [hdisp, List.mem_append]
    exact (hcalls c hc).imp_left (h.calls c)

theorem Simulates.step (h : Simulates es s) {e : Event} (hapart : Apart es e) (hs : step query s e = some s') :
    Simulates (es ++ [e]) s' := by
  cases e with
  | data fd msg =>
    simp only [Cluster.step] at hs
    split at hs
    · rename_i hu
      cases hs
      refine h.of_eq (fun fd' session => ?_) rfl rfl fun c hc => hc
      rw [connection_snoc]
      simp only [Connection.event, hu]
    · rename_i u hu
      cases hpad : u.padding with
      | true => exact h.padding hu (hapart u hu) hpad hs
      | false => exact h.last hu (hapart u hu) hpad hs
  | opened fd =>
    cases hs
    exact h.of_eq (fun fd' session => connection_snoc fd' session es _) rfl rfl fun c hc => hc
  | notice n fd =>
    cases hs
    have hcalls : ∀ fd' session,
        (connection fd' session (es ++ [Event.notice n fd])).calls = (connection fd' session es).calls := by
      intro fd' session
      rw [connection_snoc]
      cases n <;> simp only [Connection.event]
      · split <;> rfl
      · split <;> rfl
    have hnone : ∀ fd' session, ¬Unfinished fd' session (es ++ [Event.notice n fd]) := by
      intro fd' session hf
      rw [Unfinished, connection_snoc] at hf
      cases n with
      | warning => exact hapart fd' session hf
      | close =>
        simp only [Connection.event] at hf
        split at hf
        · exact hf rfl
        · rename_i hne; exact hapart fd' session (fun he => hne he.symm) hf
      | error =>
        simp only [Connection.event] at hf
        split at hf
        · exact hf rfl
        · rename_i hne; exact hapart fd' session (fun he => hne he.symm) hf
    refine ⟨fun session fd₁ fd₂ h1 => absurd h1 (hnone fd₁ session), fun session _ => rfl,
      fun fd' session hf => absurd hf (hnone fd' session), fun fd' session => ?_, h.calls⟩
    rw [hcalls]
    exact h.dispatched fd' session
  | ret i ok msg =>
    simp only [Cluster.step] at hs
    split at hs
    · cases hs
    · rename_i c hc
      obtain ⟨r, -, rfl⟩ := respond_some hs
      exact h.of_eq (fun fd' session => connection_snoc fd' session es _) rfl rfl fun c hc => List.mem_of_mem_eraseIdx hc

theorem Simulates.run (h : Simulates es s) {fs : List Event} (hapart : ∀ pre e post, fs = pre ++ e :: post → Apart (es ++ pre) e)
    (hs : Lts.run (Cluster.step query) s fs = some s') : Simulates (es ++ fs) s' := by
  induction fs generalizing es s with
  | nil =>
    cases hs
    rwa [List.append_nil]
  | cons e fs ih =>
    obtain ⟨t, ht, hr⟩ := Lts.run_cons.mp hs
    have hhead : Apart es e := by
      have := hapart [] e fs rfl
      rwa [List.append_nil] at this
    have := ih (h.step hhead ht) (fun pre e' post he => by
      have := hapart (e :: pre) e' post (by rw [he]; rfl)
      rwa [← List.singleton_append, ← List.append_assoc] at this) hr
    rwa [List.append_assoc] at this

end Step

/-! ### Requests of a peer -/

/-- A request that a peer sends. -/
structure Request where
  addr : Addr
  msg : Bytes

def Request.Ok (r : Request) : Prop := r.addr.Ok ∧ r.msg.length < 2 ^ 31

/-- The messages that the gate gets from the frames of a request. -/
def Request.bodies (session : Nat) (r : Request) : List Bytes :=
  match lpackrequest r.addr session (some r.msg) with
  | .ok (first, _, padding) => (first :: padding.getD []).filterMap unframe
  | .error _ => []

/-- The messages of a session on a connection. -/
def bodiesOn (fd session : Nat) (es : List Event) : List Bytes :=
  es.filterMap fun
    | .data fd' msg =>
      if fd' = fd ∧ (lunpackrequest msg).toOption.map Unpacked.session = some session then some msg else none
    | _ => none

/-- On a connection that stays open, the requests `rs` of a session have arrived as a whole, one behind the
other, and possibly a part of the next one. -/
structure Sent (fd session : Nat) (es : List Event) (rs : List Request) : Prop where
  range : 0 < session ∧ session < 2 ^ 31
  ok : ∀ r ∈ rs, r.Ok
  staysOpen : ∀ n, .notice n fd ∈ es → n = .warning
  bodies : ∃ (tail : List Bytes) (next : Request), next.Ok ∧ tail <+: next.bodies session ∧ tail ≠ next.bodies session ∧
    bodiesOn fd session es = rs.flatMap (Request.bodies session) ++ tail

def Connection.body (fd session : Nat) (c : Connection) (msg : Bytes) : Connection :=
  match lunpackrequest msg with
  | .error _ => c
  | .ok u => c.frame fd session u

theorem connection_bodies {fd session : Nat} {es : List Event} (hopen : ∀ n, .notice n fd ∈ es → n = .warning)
    (c : Connection) : es.foldl (Connection.event fd session) c = (bodiesOn fd session es).foldl (Connection.body fd session) c := by
  induction es generalizing c with
  | nil => rfl
  | cons e es ih =>
    have hcons : bodiesOn fd session (e :: es) = bodiesOn fd session [e] ++ bodiesOn fd session es :=
      List.filterMap_append (l := [e])
    rw [List.foldl_cons, ih fun n hn => hopen n (List.mem_cons_of_mem _ hn), hcons, List.foldl_append]
    congr 1
    cases e with
    | data fd' msg =>
      have hone : bodiesOn fd session [.data fd' msg] =
          if fd' = fd ∧ (lunpackrequest msg).toOption.map Unpacked.session = some session then [msg] else [] := by
        simp only [bodiesOn, List.filterMap_cons, List.filterMap_nil]
        by_cases h : fd' = fd ∧ (lunpackrequest msg).toOption.map Unpacked.session = some session
        · simp only [if_pos h]
        · simp only [if_neg h]
      rw [hone, Connection.event]
      cases hu : lunpackrequest msg with
      | error e => rw [if_neg (fun h => nomatch h.2)]; rfl
      | ok u =>
        have hopt : (Except.ok u : Except Fault _).toOption.map Unpacked.session = some u.session := rfl
        simp only [hopt, Option.some.injEq]
        by_cases hs : u.session = session
        · by_cases hfd : fd' = fd
          · rw [if_pos hfd, if_pos ⟨hfd, hs⟩, List.foldl_cons, List.foldl_nil, Connection.body, hu]
          · rw [if_neg hfd, if_neg (fun h => hfd h.1)]; rfl
        · have hno : ¬(fd' = fd ∧ u.session = session) := fun h => hs h.2
          rw [if_neg hno, List.foldl_nil]
          split
          · rw [Connection.frame, if_pos hs]
          · rfl
    | opened fd' => rfl
    | notice n fd' =>
      have hkeep : c.event fd session (.notice n fd') = c := by
        cases n with
        | warning => rfl
        | close =>
          rw [Connection.event, if_neg]
          rintro rfl
          exact Notice.noConfusion (hopen .close (List.mem_cons_self ..))
        | error =>
          rw [Connection.event, if_neg]
          rintro rfl
          exact Notice.noConfusion (hopen .error (List.mem_cons_self ..))
      rw [hkeep]; rfl
    | ret i ok msg => rfl

/-- Frames with the padding flag are collected. -/
theorem foldl_padding {fd session : Nat} {us : List (Unpacked (Option Addr))} (hsess : ∀ u ∈ us, u.session = session)
    (hpad : ∀ u ∈ us, u.padding = true) (c : Connection) :
    us.foldl (Connection.frame fd session) c = { c with pending := c.pending ++ us } := by
  induction us generalizing c with
  | nil => rw [List.foldl_nil, List.append_nil]
  | cons u us ih =>
    have hs := hsess u (List.mem_cons_self ..)
    have hp := hpad u (List.mem_cons_self ..)
    rw [List.foldl_cons, ih (fun v hv => hsess v (List.mem_cons_of_mem _ hv)) fun v hv => hpad v (List.mem_cons_of_mem _ hv),
      Connection.frame, if_neg (fun h => h hs), if_pos hp]
    simp only [List.append_assoc, List.singleton_append]

theorem foldl_body {fd session : Nat} {bs : List Bytes} {us : List (Unpacked (Option Addr))}
    (h : List.Forall₂ (fun b u => lunpackrequest b = .ok u) bs us) (c : Connection) :
    bs.foldl (Connection.body fd session) c = us.foldl (Connection.frame fd session) c := by
  induction h generalizing c with
  | nil => rfl
  | cons hu _ ih => rw [List.foldl_cons, List.foldl_cons, ih, Connection.body, hu]

/-- The messages of a request and the values of its frames. -/
theorem Request.unpacked {session : Nat} (hpos : 0 < session) (hs : session < 2 ^ 31) {r : Request} (hr : r.Ok) :
    ∃ init last, List.Forall₂ (fun b u => lunpackrequest b = .ok u) (r.bodies session) (init ++ [last]) ∧
      (∀ u ∈ init ++ [last], u.session = session) ∧ (∀ u ∈ init, u.padding = true) ∧ last.padding = false ∧
      received (init ++ [last]) = .ok (some r.msg) ∧ (init ++ [last]).head?.bind Unpacked.head = some r.addr := by
  obtain ⟨first, next, padding, us, hpack, hcarries, haddr⟩ := request_carried hr.1 hpos hs hr.2
  obtain ⟨init, last, rfl, hinit, hlast⟩ := hcarries.padding
  refine ⟨init, last, ?_, hcarries.session, hinit, hlast, hcarries.payload, haddr⟩
  have hbodies : ∀ {fs : List Bytes} {us : List (Unpacked (Option Addr))},
      List.Forall₂ (fun f u => (unframe f).bind (fun b => (lunpackrequest b).toOption) = some u) fs us →
      List.Forall₂ (fun b u => lunpackrequest b = .ok u) (fs.filterMap unframe) us := by
    intro fs us h
    induction h with
    | nil => exact .nil
    | cons hu _ ih =>
      obtain ⟨b, hb, hok⟩ := Option.bind_eq_some_iff.mp hu
      rw [List.filterMap_cons_some hb]
      refine .cons ?_ ih
      cases hun : lunpackrequest b with
      | error e => rw [hun] at hok; cases hok
      | ok v => rw [hun] at hok; cases hok; rfl
  simp only [Request.bodies, hpack]
  exact hbodies hcarries.unpacked

/-- A whole request is assembled. -/
theorem Request.foldl_bodies {fd session : Nat} (hpos : 0 < session) (hs : session < 2 ^ 31) {r : Request} (hr : r.Ok)
    {c : Connection} (hc : c.pending = []) : (r.bodies session).foldl (Connection.body fd session) c =
      { c with calls := c.calls ++ [⟨fd, session, some r.addr, r.msg⟩] } := by
  obtain ⟨init, last, hun, hsess, hinit, hlast, hrec, haddr⟩ := Request.unpacked hpos hs hr
  have hslast : last.session = session := hsess last (by simp)
  rw [foldl_body hun, List.foldl_append, foldl_padding (fun u hu => hsess u (List.mem_append_left _ hu)) hinit]
  simp only [List.foldl_cons, List.foldl_nil, hc, List.nil_append]
  rw [Connection.frame, if_neg (fun h => h hslast), if_neg (by rw [hlast]; simp), assemble, hrec, haddr]

/-- A part of a request does not complete it. -/
theorem Request.foldl_tail {fd session : Nat} (hpos : 0 < session) (hs : session < 2 ^ 31) {r : Request} (hr : r.Ok)
    {tail : List Bytes} (hpre : tail <+: r.bodies session) (hne : tail ≠ r.bodies session) (c : Connection) :
    (tail.foldl (Connection.body fd session) c).calls = c.calls := by
  obtain ⟨init, last, hun, hsess, hinit, -, -, -⟩ := Request.unpacked hpos hs hr
  have hlen : (r.bodies session).length = init.length + 1 := by rw [hun.length_eq, List.length_append]; rfl
  have hlt : tail.length < (r.bodies session).length :=
    Nat.lt_of_le_of_ne hpre.length_le fun he => hne (hpre.eq_of_length he)
  have htake := List.forall₂_take tail.length hun
  rw [← List.prefix_iff_eq_take.mp hpre, List.take_append_of_le_length (by omega)] at htake
  have hmem : ∀ u ∈ init.take tail.length, u ∈ init := fun u hu => List.mem_of_mem_take hu
  rw [foldl_body htake, foldl_padding (fun u hu => hsess u (List.mem_append_left _ (hmem u hu))) fun u hu => hinit u (hmem u hu)]

theorem Sent.foldl_requests {fd session : Nat} (hpos : 0 < session) (hs : session < 2 ^ 31) {rs : List Request}
    (hok : ∀ r ∈ rs, r.Ok) {c : Connection} (hc : c.pending = []) :
    (rs.flatMap (Request.bodies session)).foldl (Connection.body fd session) c =
      { c with calls := c.calls ++ rs.map fun r => ⟨fd, session, some r.addr, r.msg⟩ } := by
  induction rs generalizing c with
  | nil => rw [List.flatMap_nil, List.foldl_nil, List.map_nil, List.append_nil]
  | cons r rs ih =>
    rw [List.flatMap_cons, List.foldl_append, Request.foldl_bodies hpos hs (hok r (List.mem_cons_self ..)) hc,
      ih (fun x hx => hok x (List.mem_cons_of_mem _ hx)) (by exact hc)]
    simp only [List.map_cons, List.append_assoc, List.singleton_append]

/-- The requests of a connection alone. -/
theorem Sent.connection_calls {fd session : Nat} {es : List Event} {rs : List Request} (h : Sent fd session es rs) :
    (connection fd session es).calls = rs.map fun r => ⟨fd, session, some r.addr, r.msg⟩ := by
  obtain ⟨hpos, hs⟩ := h.range
  obtain ⟨tail, next, hnext, hpre, hne, hbodies⟩ := h.bodies
  rw [connection, connection_bodies h.staysOpen, hbodies, List.foldl_append, Request.foldl_tail hpos hs hnext hpre hne,
    Sent.foldl_requests hpos hs h.ok rfl]
  rfl

section OnePart

variable {msg : Bytes}

def onePart (msg : Bytes) : Request := { addr := .number 5, msg := msg }

def onePartFirst : Bytes := 1 :: (Endian.le 4 5 ++ (Endian.le 4 1 ++ Endian.le 4 MULTI_PART))

theorem onePart_ok (hlen : msg.length = MULTI_PART) : (onePart msg).Ok := by
  refine ⟨show 5 < 2 ^ 32 by omega, ?_⟩
  show msg.length < 2 ^ 31
  rw [hlen, MULTI_PART]
  omega

theorem onePart_bodies (hlen : msg.length = MULTI_PART) :
    (onePart msg).bodies 1 = [onePartFirst, partHead 1 false ++ msg] := by
  obtain ⟨f, hf, -, hun⟩ := packreq_multi 1 (onePart_ok hlen).1 (Nat.le_of_eq hlen.symm)
  rw [hlen] at hun
  have hfirst : unframe f = some onePartFirst := hun
  have hf' : packreq (.number 5) 1 msg = .ok (f, parts msg.length) := hf
  have hbody : (partHead 1 false ++ msg).length = MULTI_PART + 5 := by
    rw [List.length_append, hlen]; rfl
  obtain ⟨g, hg, -, hun'⟩ := frame_spec (show (partHead 1 false ++ msg).length + 2 ≤ TEMP_LENGTH by rw [hbody]; decide)
    hbody.symm
  have hparts : packreqMulti 1 msg = .ok [g] := by
    rw [packreqMulti, hlen, show parts MULTI_PART = 0 + 1 from rfl]
    simp only [packParts, hlen, Nat.lt_irrefl, if_false, decide_false]
    rw [List.take_of_length_le (Nat.le_of_eq hlen), hg]
    rfl
  have hpack : lpackrequest (.number 5) (1 : Nat) (some msg) = .ok (f, nextSession 1, some [g]) := by
    simp only [lpackrequest]
    rw [if_neg (by omega), Int.toNat_natCast, hf']
    simp only [bind, Except.bind, hparts]
    rw [if_pos (parts_ne_zero _)]
    rfl
  simp only [Request.bodies, onePart, hpack, Option.getD_some, List.filterMap_cons, hfirst, hun', List.filterMap_nil]

theorem onePart_first : lunpackrequest onePartFirst = .ok ⟨some (.number 5), 1, .size MULTI_PART, true⟩ :=
  unpackrequest_multi (show (Addr.number 5).Ok from show 5 < 2 ^ 32 by omega) (by omega) (show MULTI_PART < 2 ^ 32 by decide)

theorem onePart_last : lunpackrequest (partHead 1 false ++ msg) = .ok ⟨none, 1, .data msg, false⟩ := by
  have hpart := unpackrequest_part (show 1 < 2 ^ 32 by omega) false msg
  cases hun : lunpackrequest (partHead 1 false ++ msg) with
  | error e => rw [hun] at hpart; cases hpart
  | ok u => rw [hun] at hpart; exact congrArg Except.ok (Option.some.inj hpart)

/-- The frames of the request around the end of another connection. -/
def closedBetween (msg : Bytes) : List Event :=
  [.data 1 onePartFirst, .notice .close 2, .data 1 (partHead 1 false ++ msg)]

/-- The frames of the request without a disturbance. -/
def together (msg : Bytes) : List Event := [.data 1 onePartFirst, .data 1 (partHead 1 false ++ msg)]

theorem bodiesOn_together : bodiesOn 1 1 (together msg) = [onePartFirst, partHead 1 false ++ msg] := by
  simp only [bodiesOn, together, List.filterMap_cons, List.filterMap_nil, onePart_first, onePart_last]
  rfl

theorem bodiesOn_closedBetween : bodiesOn 1 1 (closedBetween msg) = [onePartFirst, partHead 1 false ++ msg] := by
  simp only [bodiesOn, closedBetween, List.filterMap_cons, List.filterMap_nil, onePart_first, onePart_last]
  rfl

theorem onePart_sent {es : List Event} (hlen : msg.length = MULTI_PART) (hopen : ∀ n, .notice n 1 ∈ es → n = .warning)
    (hes : bodiesOn 1 1 es = [onePartFirst, partHead 1 false ++ msg]) : Sent 1 1 es [onePart msg] where
  range := ⟨Nat.one_pos, by omega⟩
  ok := List.forall_mem_singleton.mpr (onePart_ok hlen)
  staysOpen := hopen
  bodies := by
    refine ⟨[], onePart msg, onePart_ok hlen, List.nil_prefix, by rw [onePart_bodies hlen]; simp, ?_⟩
    rw [List.flatMap_cons, List.flatMap_nil, List.append_nil, List.append_nil, onePart_bodies hlen, hes]

theorem run_closedBetween : Lts.run (step fun _ => .raised) .init (closedBetween msg) =
    some { Clusterd.init with calls := [⟨1, 1, none, msg⟩], dispatched := [⟨1, 1, none, msg⟩] } := by
  simp only [closedBetween, Lts.run, step, onePart_first, onePart_last, onFrame, Clusterd.init, dispatch]
  rfl

theorem run_together (hlen : msg.length = MULTI_PART) : ∃ s, Lts.run (step fun _ => .raised) .init (together msg) = some s := by
  have hconcat : lconcat [.size MULTI_PART, .data msg] = .ok (some msg) := by
    have hchunks := lconcat_chunks (show [msg].flatten.length < 2 ^ 31 by simp [hlen, MULTI_PART])
    simpa [hlen] using hchunks
  simp only [together, Lts.run, step, onePart_first, onePart_last, onFrame, Clusterd.init, setRequest, if_true,
    Option.getD_none, List.nil_append, Bool.false_eq_true, if_false, List.cons_append, hconcat, dispatch]
  exact ⟨_, rfl⟩

theorem together_isolated : Isolated (together msg) := by
  intro pre e post h
  have hnone : ∀ fd', fd' ≠ 1 → ∀ session, connection fd' session [.data 1 onePartFirst] = .init := by
    intro fd' hfd' session
    rw [connection, List.foldl_cons, List.foldl_nil, Connection.event, onePart_first]
    simp only
    rw [if_neg (fun he => hfd' he.symm)]
  rcases pre with _ | ⟨a, _ | ⟨b, pre⟩⟩
  · cases h
    exact fun _ _ fd' _ hu => hu rfl
  · cases h
    intro u _ fd' hfd' hu
    rw [Unfinished, hnone fd' hfd'] at hu
    exact hu rfl
  · simp [together] at h

end OnePart

end Cluster
end Skynet
