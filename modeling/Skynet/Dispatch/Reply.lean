import Skynet.Dispatch.Sound

/-!
# Skynet.Dispatch.Reply

Replies to requests. They are sent in five places: by `RETURN`, by a response closure, when a coroutine dies with an error,
and twice in `skynet.exit`.

* `Owed` : which coroutines and closures may still reply. No request has both.
* `Lawful` : the steps under which this is so. `suspend` and `skynet.exit` report an error for a coroutine that has a request,
  whether or not it has replied.
* `replied_once` : then a request has at most one reply, and exactly one if it was to get one.
-/

namespace Skynet
namespace Dispatch

/-- The requests that a reply has been sent to. -/
def Book.sent (b : Book) : List Nat := b.replies.map Prod.fst

/-- The requests that a response closure has been made for. -/
def Book.closures (b : Book) : List Nat := b.responses.map Response.request

/-- At most one reply to each request with a session, and exactly one where the handler has called `skynet.ret` or its response
closure or has died while the requester was there. -/
def Replied (b : Book) : Prop :=
  ∀ r a session, b.requests[r]? = some (a, session) → session ≠ 0 →
    b.sent.count r ≤ 1 ∧ (r ∈ b.demands → b.sent.count r = 1)

/-- The coroutine has a request with a session, its requester is there, and it has called `skynet.ret` or `skynet.response`. -/
def Book.taken (b : Book) (co : Nat) : Prop :=
  ∃ a session, b.sessionCoroutineAddress co = some a ∧ b.sessionCoroutineId co = some session ∧ session ≠ 0 ∧
    b.alive a = true ∧ b.sessionResponse co = true

/-- An error is raised only by a coroutine that has not replied and made no closure; `skynet.ret` is not called while a closure for the
request is open; when the service exits, no coroutine with a request has replied or made a closure, and no other one is
still to be resumed; an error message with session 0 comes from a service that has ended. -/
def Lawful (s : State) : Label → Prop
  | .op .raise => ∀ co, s.sched.control = .running co → ¬s.book.taken co
  | .op (.ret _) => ∀ co, s.sched.control = .running co → s.book.sessionCoroutineAddress co ≠ none →
      ∀ c ∈ s.book.responses, s.book.request co = some c.request → c.f ≠ .function
  | .op .exit => (s.sched.depth = 0 ∨ s.sched.errorQueue = []) ∧ ∀ co, ¬s.book.taken co
  | .message (.error source session _ _) => session = 0 → s.book.alive source = false
  | _ => True

/-! ### The invariant -/

/-- What is known of closures and replies. -/
structure Closures (b : Book) : Prop where
  request : ∀ c ∈ b.responses, b.requests[c.request]? = some (c.coAddress, c.coSession)
  single : b.closures.Nodup
  dead : ∀ a, b.deadService a = true → b.alive a = false
  once : b.sent.Nodup
  bound : ∀ r ∈ b.sent, r < b.requests.length
  unsent : ∀ c ∈ b.responses, c.f = .function → c.request ∉ b.sent
  settled : ∀ c ∈ b.responses, c.f ≠ .function → b.alive c.coAddress = true → c.request ∈ b.sent

/-- The coroutine has the request `r`, from `a` with the session `session`. -/
structure Handled (b : Book) (co a session r : Nat) : Prop where
  id : b.sessionCoroutineId co = some session
  request : b.request co = some r
  registered : b.requests[r]? = some (a, session)
  unanswered : b.sessionResponse co = false → ¬(r ∈ b.sent ∨ r ∈ b.closures)
  answered : b.sessionResponse co = true → b.alive a = true → r ∈ b.sent ∨ r ∈ b.closures

/-- What is known of coroutines that have a request. -/
structure Coroutines (b : Book) : Prop where
  handled : ∀ co a, b.sessionCoroutineAddress co = some a → ∃ session r, Handled b co a session r
  distinct : ∀ co co' r, b.sessionCoroutineAddress co ≠ none → b.sessionCoroutineAddress co' ≠ none →
    b.request co = some r → b.request co' = some r → co = co'

/-- Every request that was to get a reply has got one. -/
def Demanded (b : Book) : Prop :=
  ∀ r ∈ b.demands, ∃ a session, b.requests[r]? = some (a, session) ∧ (session ≠ 0 → r ∈ b.sent)

/-- A closure or the service has replied. -/
structure Settled (b : Book) : Prop extends Closures b where
  demanded : Demanded b

structure Owed (b : Book) : Prop extends Settled b, Coroutines b

theorem Settled.replied {b : Book} (h : Settled b) : Replied b := by
  intro r a session hr hs
  refine ⟨List.nodup_iff_count_le_one.mp h.once r, fun hd => ?_⟩
  obtain ⟨a', session', hr', hsent⟩ := h.demanded r hd
  rw [hr] at hr'
  cases hr'
  exact List.count_eq_one_of_mem h.once (hsent hs)

theorem owed_init : Owed init.book where
  request := nofun
  single := List.nodup_nil
  dead := nofun
  once := List.nodup_nil
  bound := nofun
  unsent := nofun
  settled := nofun
  demanded := nofun
  handled := nofun
  distinct := fun _ _ _ h => absurd rfl h

section Book

variable {b b' : Book} {co a r : Nat}

/-! ### Operations that change one field -/

theorem releaseWatching_eq (b : Book) (address : Option Nat) : ∃ w, b.releaseWatching address = { b with watchingService := w } := by
  simp only [Book.releaseWatching]
  split
  · exact ⟨_, rfl⟩
  · split
    · exact ⟨_, rfl⟩
    · exact ⟨_, rfl⟩

theorem demand_eq (b : Book) (dest : Nat) (r : Nat) :
    ∃ d, b.demand dest (some r) = { b with demands := d } ∧ ∀ x ∈ d, x ∈ b.demands ∨ (x = r ∧ b.alive dest = true) := by
  simp only [Book.demand]
  split
  · rename_i ha
    refine ⟨_, rfl, ?_⟩
    intro x hx
    rcases List.mem_append.mp hx with hx | hx
    · exact .inl hx
    · exact .inr ⟨List.mem_singleton.mp hx, ha⟩
  · exact ⟨_, rfl, fun x hx => .inl hx⟩

theorem send_eq (b : Book) (dest : Nat) (type : PType) (r : Nat) :
    ∃ l, b.send dest type (some r) = { b with replies := l } ∧
      l.map Prod.fst = b.sent ++ (if b.alive dest then [r] else []) := by
  simp only [Book.send]
  split
  · exact ⟨_, rfl, by rw [List.map_append]; rfl⟩
  · exact ⟨_, rfl, by rw [List.append_nil]; rfl⟩

/-! ### What an operation leaves -/

/-- What the coroutine `co` has is the same in `b'`, and `b'` is a later state. -/
structure Kept (b b' : Book) (co : Nat) : Prop where
  address : b'.sessionCoroutineAddress co = b.sessionCoroutineAddress co
  id : b'.sessionCoroutineId co = b.sessionCoroutineId co
  request : b'.request co = b.request co
  response : b'.sessionResponse co = b.sessionResponse co

/-- `b'` is a later state, where only the requests in `new` have been replied to or got a closure. -/
structure Later (b b' : Book) (new : Nat → Prop) : Prop where
  requests : b.requests <+: b'.requests
  alive : ∀ a, b'.alive a = true → b.alive a = true
  keeps : ∀ r, r ∈ b.sent ∨ r ∈ b.closures → r ∈ b'.sent ∨ r ∈ b'.closures
  adds : ∀ r, r ∈ b'.sent ∨ r ∈ b'.closures → r ∈ b.sent ∨ r ∈ b.closures ∨ new r

theorem Handled.later {session : Nat} {new : Nat → Prop} (h : Handled b co a session r) (hk : Kept b b' co)
    (hl : Later b b' new) (hnew : ¬new r) : Handled b' co a session r where
  id := hk.id.trans h.id
  request := hk.request.trans h.request
  registered := by
    obtain ⟨l, hl⟩ := hl.requests
    rw [← hl, List.getElem?_append_left (List.getElem?_eq_some_iff.mp h.registered).1]
    exact h.registered
  unanswered := by
    intro hr hmem
    rw [hk.response] at hr
    rcases hl.adds r hmem with hmem | hmem | hmem
    · exact h.unanswered hr (.inl hmem)
    · exact h.unanswered hr (.inr hmem)
    · exact hnew hmem
  answered := by
    intro hr ha
    rw [hk.response] at hr
    exact hl.keeps r (h.answered hr (hl.alive a ha))

/-- No coroutine changes. -/
theorem Coroutines.later {new : Nat → Prop} (h : Coroutines b) (hk : ∀ co, Kept b b' co) (hl : Later b b' new)
    (hnew : ∀ co a session r, b.sessionCoroutineAddress co = some a → Handled b co a session r → ¬new r) : Coroutines b' where
  handled := by
    intro co a ha
    rw [(hk co).address] at ha
    obtain ⟨session, r, hh⟩ := h.handled co a ha
    exact ⟨session, r, hh.later (hk co) hl (hnew co a session r ha hh)⟩
  distinct := by
    intro co co' r hco hco' hr hr'
    rw [(hk co).address] at hco
    rw [(hk co').address] at hco'
    rw [(hk co).request] at hr
    rw [(hk co').request] at hr'
    exact h.distinct co co' r hco hco' hr hr'

/-- One coroutine changes, and has the request that it has had or none. -/
theorem Coroutines.change {new : Nat → Prop} (h : Coroutines b) (hk : ∀ x, x ≠ co → Kept b b' x) (hl : Later b b' new)
    (hnew : ∀ r, new r → b.sessionCoroutineAddress co ≠ none ∧ b.request co = some r)
    (hco : b'.sessionCoroutineAddress co = none ∨
      ∃ a session r, b.sessionCoroutineAddress co = some a ∧ b'.sessionCoroutineAddress co = some a ∧
        b'.request co = b.request co ∧ Handled b' co a session r) :
    Coroutines b' where
  handled := by
    intro x a ha
    by_cases hx : x = co
    · subst hx
      rcases hco with hnone | ⟨a', session, r, -, hsame, -, hh⟩
      · rw [hnone] at ha
        cases ha
      · rw [hsame] at ha
        cases ha
        exact ⟨session, r, hh⟩
    · rw [(hk x hx).address] at ha
      obtain ⟨session, r, hh⟩ := h.handled x a ha
      refine ⟨session, r, hh.later (hk x hx) hl ?_⟩
      intro hn
      obtain ⟨hne, hreq⟩ := hnew r hn
      exact hx (h.distinct x co r (by rw [ha]; exact Option.some_ne_none _) hne hh.request hreq)
  distinct := by
    -- a coroutine that has a request now has had it before
    have hold : ∀ x, b'.sessionCoroutineAddress x ≠ none →
        b.sessionCoroutineAddress x ≠ none ∧ b'.request x = b.request x := by
      intro x hne
      by_cases hx : x = co
      · subst hx
        rcases hco with hnone | ⟨a, -, -, haddr, -, hreq, -⟩
        · exact absurd hnone hne
        · exact ⟨by rw [haddr]; exact Option.some_ne_none a, hreq⟩
      · exact ⟨by rwa [(hk x hx).address] at hne, (hk x hx).request⟩
    intro x y r hx hy hr hr'
    obtain ⟨hx, heq⟩ := hold x hx
    obtain ⟨hy, heq'⟩ := hold y hy
    exact h.distinct x y r hx hy (heq ▸ hr) (heq' ▸ hr')

/-- A reply is sent, if the requester is there. -/
theorem Settled.reply {session : Nat} (h : Settled b) (hr : b.requests[r]? = some (a, session))
    (hno : b.alive a = true → ¬(r ∈ b.sent ∨ r ∈ b.closures)) {l : List (Nat × PType)} {d : List Nat}
    (hl : l.map Prod.fst = b.sent ++ (if b.alive a then [r] else []))
    (hd : ∀ x ∈ d, x ∈ b.demands ∨ (x = r ∧ b.alive a = true)) : Settled { b with replies := l, demands := d } := by
  have hmem : ∀ x, x ∈ l.map Prod.fst ↔ x ∈ b.sent ∨ (x = r ∧ b.alive a = true) := by
    intro x
    rw [hl, List.mem_append]
    split
    · simp [*]
    · simp [*]
  refine ⟨⟨h.request, h.single, h.dead, ?_, ?_, ?_, ?_⟩, ?_⟩
  · simp only [Book.sent, hl]
    split
    · rename_i ha
      rw [List.nodup_append_comm, List.singleton_append, List.nodup_cons]
      exact ⟨fun hmem => hno ha (.inl hmem), h.once⟩
    · rw [List.append_nil]
      exact h.once
  · intro x hx
    rcases (hmem x).mp hx with hx | ⟨rfl, -⟩
    · exact h.bound x hx
    · exact (List.getElem?_eq_some_iff.mp hr).1
  · intro c hc hf hx
    rcases (hmem _).mp hx with hx | ⟨hx, ha⟩
    · exact h.unsent c hc hf hx
    · exact hno ha (.inr (hx ▸ List.mem_map_of_mem hc))
  · intro c hc hf ha
    exact (hmem _).mpr (.inl (h.settled c hc hf ha))
  · intro x hx
    rcases hd x hx with hx | ⟨rfl, ha⟩
    · obtain ⟨a', session', hreq, hsent⟩ := h.demanded x hx
      exact ⟨a', session', hreq, fun hs => (hmem x).mpr (.inl (hsent hs))⟩
    · exact ⟨a, session, hr, fun _ => (hmem x).mpr (.inr ⟨rfl, ha⟩)⟩

theorem Later.reply (hr : b'.requests = b.requests) (ha : b'.alive = b.alive) (hc : b'.closures = b.closures)
    (hl : b'.sent = b.sent ++ (if b.alive a then [r] else [])) : Later b b' (· = r) where
  requests := hr ▸ List.prefix_rfl
  alive := fun x hx => by rwa [ha] at hx
  keeps := by
    intro x hx
    rw [hl, hc, List.mem_append]
    exact hx.imp .inl id
  adds := by
    intro x hx
    rw [hl, hc, List.mem_append] at hx
    rcases hx with (hx | hx) | hx
    · exact .inl hx
    · split at hx
      · exact .inr (.inr (List.mem_singleton.mp hx))
      · cases hx
    · exact .inr (.inl hx)

theorem Later.closure (hr : b'.requests = b.requests) (ha : b'.alive = b.alive) (hc : b'.closures = b.closures ++ [r])
    (hl : b'.sent = b.sent) : Later b b' (· = r) where
  requests := hr ▸ List.prefix_rfl
  alive := fun x hx => by rwa [ha] at hx
  keeps := by
    intro x hx
    rw [hl, hc, List.mem_append]
    exact hx.imp id .inl
  adds := by
    intro x hx
    rw [hl, hc, List.mem_append, List.mem_singleton] at hx
    exact hx

/-- Neither a reply nor a closure. -/
theorem Later.quiet (hr : b'.requests = b.requests) (ha : b'.alive = b.alive) (hc : b'.closures = b.closures)
    (hl : b'.sent = b.sent) : Later b b' (fun _ => False) where
  requests := hr ▸ List.prefix_rfl
  alive := fun x hx => by rwa [ha] at hx
  keeps := fun x hx => by rwa [hl, hc]
  adds := fun x hx => by
    rw [hl, hc] at hx
    exact hx.imp id .inl

theorem Kept.refl (b : Book) (co : Nat) : Kept b b co := ⟨rfl, rfl, rfl, rfl⟩

/-! ### The commands of a coroutine -/

theorem Owed.returnCommand (h : Owed b) (hg : b.sessionCoroutineAddress co ≠ none → ∀ c ∈ b.responses,
    b.request co = some c.request → c.f ≠ .function) (fits : Bool) :
    Owed (b.returnCommand co fits).1 ∧ ∀ x, x ≠ co → Kept b (b.returnCommand co fits).1 x := by
  cases haddr : b.sessionCoroutineAddress co with
  | none =>
    simp only [Book.returnCommand, haddr]
    split
    · exact ⟨h, fun x _ => Kept.refl b x⟩
    · have hk : ∀ x, x ≠ co → Kept b { b with sessionResponse := Function.update b.sessionResponse co true } x :=
        fun x hx => ⟨rfl, rfl, rfl, Function.update_of_ne hx ..⟩
      exact ⟨{ h with
        toCoroutines := h.toCoroutines.change hk (Later.quiet rfl rfl rfl rfl) (fun _ hf => hf.elim) (.inl haddr) }, hk⟩
  | some a =>
    obtain ⟨session, r, hh⟩ := h.handled co a haddr
    obtain ⟨d, hd, hdmem⟩ := demand_eq b a r
    simp only [Book.returnCommand, haddr, hh.request, hd]
    split
    · -- refused: the reply that is demanded has been sent before
      rename_i hresp
      refine ⟨{ h with demanded := ?_, toCoroutines := ?_ }, fun x _ => ⟨rfl, rfl, rfl, rfl⟩⟩
      · intro x hx
        rcases hdmem x hx with hx | ⟨rfl, ha⟩
        · exact h.demanded x hx
        · refine ⟨a, session, hh.registered, fun _ => ?_⟩
          rcases hh.answered hresp ha with hsent | hclosure
          · exact hsent
          · obtain ⟨c, hc, rfl⟩ := List.mem_map.mp hclosure
            have hreg := h.request c hc
            rw [hh.registered] at hreg
            cases hreg
            exact h.settled c hc (hg (by rw [haddr]; exact Option.some_ne_none _) c hc hh.request) ha
      · exact ⟨fun x a hx => (h.handled x a hx).imp fun _ => Exists.imp fun _ hx => ⟨hx.id, hx.request, hx.registered,
          hx.unanswered, hx.answered⟩, h.distinct⟩
    · rename_i hresp
      have hno := hh.unanswered (Bool.not_eq_true _ ▸ hresp)
      -- whatever is sent, the coroutine has replied
      have hreply : ∀ l : List (Nat × PType), l.map Prod.fst = b.sent ++ (if b.alive a then [r] else []) →
          Owed { b with replies := l, demands := d, sessionResponse := Function.update b.sessionResponse co true } := by
        intro l hl
        have hs := h.toSettled.reply hh.registered (fun _ => hno) hl hdmem
        refine { toSettled := ⟨⟨hs.request, hs.single, hs.dead, hs.once, hs.bound, hs.unsent, hs.settled⟩, hs.demanded⟩, toCoroutines := ?_ }
        refine h.toCoroutines.change (fun x hx => ⟨rfl, rfl, rfl, Function.update_of_ne hx ..⟩)
          (Later.reply (a := a) (r := r) rfl rfl rfl hl) ?_ (.inr ⟨a, session, r, haddr, haddr, rfl, ?_⟩)
        · rintro x rfl
          exact ⟨by rw [haddr]; exact Option.some_ne_none _, hh.request⟩
        · refine ⟨hh.id, hh.request, hh.registered, ?_, ?_⟩
          · intro hfalse
            simp only [Function.update_self, reduceCtorEq] at hfalse
          · intro _ halive
            left
            simp only [Book.sent, hl]
            rw [if_pos halive]
            exact List.mem_append_right _ (List.mem_singleton_self r)
      have hk : ∀ x, x ≠ co → Kept b
          { b with demands := d, sessionResponse := Function.update b.sessionResponse co true } x :=
        fun x hx => ⟨rfl, rfl, rfl, Function.update_of_ne hx ..⟩
      split
      · rename_i hdead
        refine ⟨?_, hk⟩
        have hnot : b.alive a = false := h.dead a hdead
        exact hreply b.replies (by rw [hnot]; exact (List.append_nil _).symm)
      · generalize (if fits = true then PType.response else .error) = type
        obtain ⟨l, hsend, hl⟩ := send_eq
          { b with demands := d, sessionResponse := Function.update b.sessionResponse co true } a type r
        rw [hsend]
        refine ⟨hreply l hl, ?_⟩
        intro x hx
        exact ⟨rfl, rfl, rfl, Function.update_of_ne hx ..⟩

theorem Owed.crash (h : Owed b) (hg : ¬b.taken co) : Owed (b.crash co) ∧ ∀ x, x ≠ co → Kept b (b.crash co) x := by
  cases haddr : b.sessionCoroutineAddress co with
  | none =>
    have hsame : b.crash co = b := by
      simp only [Book.crash, haddr]
      split
      · rename_i hnone
        cases hnone
      · rfl
    rw [hsame]
    exact ⟨h, fun x _ => Kept.refl b x⟩
  | some a =>
    obtain ⟨session, r, hh⟩ := h.handled co a haddr
    obtain ⟨d, hd, hdmem⟩ := demand_eq b a r
    simp only [Book.crash, haddr, hh.id, hh.request, hd]
    have hcleared : ∀ {l : List (Nat × PType)} {x}, x ≠ co → Kept b (({ b with replies := l, demands := d } : Book).clear co) x :=
      fun hx => ⟨Function.update_of_ne hx .., Function.update_of_ne hx .., Function.update_of_ne hx .., rfl⟩
    split
    · rename_i hs
      obtain ⟨l, hsend, hl⟩ := send_eq { b with demands := d } a .error r
      rw [hsend]
      refine ⟨?_, fun x hx => hcleared hx⟩
      have hno (ha : b.alive a = true) : ¬(r ∈ b.sent ∨ r ∈ b.closures) :=
        hh.unanswered (Bool.eq_false_iff.mpr fun hresp => hg ⟨a, session, haddr, hh.id, hs, ha, hresp⟩)
      have hset := h.toSettled.reply hh.registered hno hl hdmem
      refine { toSettled := ⟨⟨hset.request, hset.single, hset.dead, hset.once, hset.bound, hset.unsent, hset.settled⟩,
        hset.demanded⟩, toCoroutines := ?_ }
      refine h.toCoroutines.change (fun x hx => hcleared hx) (Later.reply (a := a) (r := r) rfl rfl rfl hl) ?_
        (.inl (Function.update_self ..))
      rintro x rfl
      exact ⟨by rw [haddr]; exact Option.some_ne_none _, hh.request⟩
    · rename_i hs
      refine ⟨?_, fun x hx => hcleared hx⟩
      refine { h with demanded := ?_, toCoroutines := ?_ }
      · intro x hx
        rcases hdmem x hx with hx | ⟨rfl, -⟩
        · exact h.demanded x hx
        · exact ⟨a, session, hh.registered, fun hn => absurd hn hs⟩
      · exact h.toCoroutines.change (fun x hx => hcleared hx) (Later.quiet rfl rfl rfl rfl) (fun _ hf => hf.elim)
          (.inl (Function.update_self ..))

theorem Owed.responseCommand (h : Owed b) :
    Owed (b.responseCommand co).1 ∧ ∀ x, x ≠ co → Kept b (b.responseCommand co).1 x := by
  have hsame : Owed b ∧ ∀ x, x ≠ co → Kept b b x := ⟨h, fun x _ => Kept.refl b x⟩
  simp only [Book.responseCommand]
  split
  · exact hsame
  · rename_i hresp
    split
    · rename_i a session r haddr hid hreq
      split
      · exact hsame
      · rename_i ref hwatch
        obtain ⟨session', r', hh⟩ := h.handled co a haddr
        obtain rfl : session' = session := Option.some.inj (hh.id.symm.trans hid)
        obtain rfl : r' = r := Option.some.inj (hh.request.symm.trans hreq)
        have hno := hh.unanswered (Bool.not_eq_true _ ▸ hresp)
        have hk : ∀ x, x ≠ co → Kept b
            { b with responses := b.responses ++ [⟨a, session', .function, r'⟩],
                     watchingService := Function.update b.watchingService a (some (ref + 1)),
                     sessionResponse := Function.update b.sessionResponse co true,
                     unresponse := b.unresponse ++ [b.responses.length] } x :=
          fun x hx => ⟨rfl, rfl, rfl, Function.update_of_ne hx ..⟩
        refine ⟨⟨⟨⟨?_, ?_, h.dead, h.once, h.bound, ?_, ?_⟩, h.demanded⟩, ?_⟩, hk⟩
        · intro c hc
          rcases List.mem_append.mp hc with hc | hc
          · exact h.request c hc
          · obtain rfl := List.mem_singleton.mp hc
            exact hh.registered
        · simp only [Book.closures, List.map_append, List.map_cons, List.map_nil]
          rw [List.nodup_append_comm, List.singleton_append, List.nodup_cons]
          exact ⟨fun hmem => hno (.inr hmem), h.single⟩
        · intro c hc hf
          rcases List.mem_append.mp hc with hc | hc
          · exact h.unsent c hc hf
          · obtain rfl := List.mem_singleton.mp hc
            exact fun hmem => hno (.inl hmem)
        · intro c hc hf
          rcases List.mem_append.mp hc with hc | hc
          · exact h.settled c hc hf
          · obtain rfl := List.mem_singleton.mp hc
            exact absurd rfl hf
        · have hclosures : List.map Response.request (b.responses ++ [⟨a, session', .function, r'⟩]) = b.closures ++ [r'] := by
            rw [List.map_append]
            rfl
          refine h.toCoroutines.change hk (Later.closure (r := r') rfl rfl hclosures rfl) ?_
            (.inr ⟨a, session', r', haddr, haddr, rfl, ⟨hh.id, hh.request, hh.registered, ?_, ?_⟩⟩)
          · rintro x rfl
            exact ⟨by rw [haddr]; exact Option.some_ne_none _, hh.request⟩
          · intro hfalse
            simp only [Function.update_self, reduceCtorEq] at hfalse
          · intro _ _
            right
            simp only [Book.closures, List.map_append, List.map_cons, List.map_nil]
            exact List.mem_append_right _ (List.mem_singleton_self r')
    · exact hsame

theorem Owed.exitCommand (h : Owed b) (co : Nat) :
    Owed (b.exitCommand co) ∧ (b.exitCommand co).sessionCoroutineAddress co = none ∧
      (b.exitCommand co).sessionResponse co = false ∧ ∀ x, x ≠ co → Kept b (b.exitCommand co) x := by
  obtain ⟨w, hw⟩ := releaseWatching_eq b (b.sessionCoroutineAddress co)
  simp only [Book.exitCommand, hw]
  have hk : ∀ x, x ≠ co → Kept b
      { (({ b with watchingService := w } : Book).clear co) with
        sessionResponse := Function.update b.sessionResponse co false } x :=
    fun x hx => ⟨Function.update_of_ne hx .., Function.update_of_ne hx .., Function.update_of_ne hx ..,
      Function.update_of_ne hx ..⟩
  refine ⟨?_, Function.update_self .., Function.update_self .., hk⟩
  refine ⟨⟨⟨h.request, h.single, h.dead, h.once, h.bound, h.unsent, h.settled⟩, h.demanded⟩, ?_⟩
  exact h.toCoroutines.change hk (Later.quiet rfl rfl rfl rfl) (fun _ hf => hf.elim) (.inl (Function.update_self ..))

/-! ### Response closures -/

theorem closures_set {k : Nat} {c : Response} (hc : b.responses[k]? = some c) (f : Pack) :
    (b.responses.set k { c with f := f }).map Response.request = b.closures := by
  obtain ⟨hk, rfl⟩ := List.getElem?_eq_some_iff.mp hc
  rw [List.map_set]
  have hk' : k < (b.responses.map Response.request).length := by simpa using hk
  have hsame : Response.request { b.responses[k] with f := f } = (b.responses.map Response.request)[k] := by
    rw [List.getElem_map]
  rw [hsame, List.set_getElem_self]
  rfl

/-- The closures of other requests stay as they are. -/
theorem Closures.mem_set (h : Closures b) {k : Nat} {c : Response} (hc : b.responses[k]? = some c) {f : Pack} {x : Response}
    (hx : x ∈ b.responses.set k { c with f := f }) : x = { c with f := f } ∨ x ∈ b.responses ∧ x.request ≠ c.request := by
  obtain ⟨j, hj⟩ := List.mem_iff_getElem?.mp hx
  rw [List.getElem?_set] at hj
  split at hj
  · split at hj
    · exact .inl (Option.some.inj hj).symm
    · cases hj
  · rename_i hne
    refine .inr ⟨List.mem_of_getElem? hj, ?_⟩
    intro heq
    have hlt : k < b.closures.length := by
      rw [Book.closures, List.length_map]
      exact (List.getElem?_eq_some_iff.mp hc).1
    refine hne ((List.getElem?_inj hlt h.single).mp ?_)
    rw [Book.closures, List.getElem?_map, List.getElem?_map, hc, hj, Option.map_some, Option.map_some, heq]

/-- A closure is used or discarded. -/
theorem Settled.use (h : Settled b) {k : Nat} {c : Response} (hc : b.responses[k]? = some c) {f : Pack} (hf : f ≠ .function)
    {l : List (Nat × PType)} {d : List Nat}
    (hl : l.map Prod.fst = b.sent ∨
      c.f = .function ∧ l.map Prod.fst = b.sent ++ (if b.alive c.coAddress then [c.request] else []))
    (hd : ∀ x ∈ d, x ∈ b.demands ∨ (x = c.request ∧ b.alive c.coAddress = true))
    (hsent : b.alive c.coAddress = true → c.request ∈ l.map Prod.fst) :
    Settled { b with responses := b.responses.set k { c with f := f }, replies := l, demands := d } := by
  have hmem : c ∈ b.responses := List.mem_of_getElem? hc
  have hreg := h.request c hmem
  have hgrow : ∀ x ∈ b.sent, x ∈ l.map Prod.fst := by
    intro x hx
    rcases hl with hl | ⟨-, hl⟩
    · rwa [hl]
    · rw [hl]
      exact List.mem_append_left _ hx
  have hnew : ∀ x ∈ l.map Prod.fst, x ∈ b.sent ∨ x = c.request := by
    intro x hx
    rcases hl with hl | ⟨-, hl⟩
    · exact .inl (hl ▸ hx)
    · rw [hl, List.mem_append] at hx
      refine hx.imp id fun hx => ?_
      split at hx
      · exact List.mem_singleton.mp hx
      · cases hx
  refine ⟨⟨?_, ?_, h.dead, ?_, ?_, ?_, ?_⟩, ?_⟩
  · intro x hx
    rcases h.mem_set hc hx with rfl | ⟨hx, -⟩
    · exact hreg
    · exact h.request x hx
  · simp only [Book.closures, closures_set hc]
    exact h.single
  · simp only [Book.sent]
    rcases hl with hl | ⟨hcf, hl⟩
    · rw [hl]
      exact h.once
    · rw [hl]
      split
      · rw [List.nodup_append_comm, List.singleton_append, List.nodup_cons]
        exact ⟨h.unsent c hmem hcf, h.once⟩
      · rw [List.append_nil]
        exact h.once
  · intro x hx
    rcases hnew x hx with hx | rfl
    · exact h.bound x hx
    · exact (List.getElem?_eq_some_iff.mp hreg).1
  · intro x hx hxf hxs
    rcases h.mem_set hc hx with rfl | ⟨hx, hne⟩
    · exact hf hxf
    · rcases hnew _ hxs with hxs | heq
      · exact h.unsent x hx hxf hxs
      · exact hne heq
  · intro x hx hxf ha
    rcases h.mem_set hc hx with rfl | ⟨hx, -⟩
    · exact hsent ha
    · exact hgrow _ (h.settled x hx hxf ha)
  · intro x hx
    rcases hd x hx with hx | ⟨rfl, ha⟩
    · obtain ⟨a, session, hr, hs⟩ := h.demanded x hx
      exact ⟨a, session, hr, fun hn => hgrow x (hs hn)⟩
    · exact ⟨_, _, hreg, fun _ => hsent ha⟩

/-- What a response closure changes. -/
structure Used (b b' : Book) : Prop where
  settled : Settled b'
  kept : ∀ co, Kept b b' co
  later : Later b b' (fun _ => False)

theorem Used.owed (hu : Used b b') (h : Coroutines b) : Owed b' :=
  { toSettled := hu.settled, toCoroutines := h.later hu.kept hu.later fun _ _ _ _ _ _ => id }

theorem Settled.respond (h : Settled b) (k : Nat) (ok fits : Bool) : Used b (b.respond k ok fits) := by
  simp only [Book.respond]
  split
  · exact ⟨h, Kept.refl b, Later.quiet rfl rfl rfl rfl⟩
  · rename_i c hc
    obtain ⟨d, hd, hdmem⟩ := demand_eq b c.coAddress c.request
    have hmem : c ∈ b.responses := List.mem_of_getElem? hc
    rw [hd]
    split
    · rename_i hf
      refine ⟨⟨⟨h.request, h.single, h.dead, h.once, h.bound, h.unsent, h.settled⟩, ?_⟩, fun _ => ⟨rfl, rfl, rfl, rfl⟩,
        Later.quiet rfl rfl rfl rfl⟩
      intro x hx
      rcases hdmem x hx with hx | ⟨rfl, ha⟩
      · exact h.demanded x hx
      · exact ⟨_, _, h.request c hmem, fun _ => h.settled c hmem (by rw [hf]; exact nofun) ha⟩
    · rename_i hf
      refine ⟨h.use (f := .nil) hc nofun (.inl rfl) hdmem ?_, fun _ => ⟨rfl, rfl, rfl, rfl⟩,
        Later.quiet rfl rfl (closures_set hc .nil) rfl⟩
      exact h.settled c hmem (by rw [hf]; exact nofun)
    · rename_i hf
      -- the book before the closure ends, with the reply or without it
      obtain ⟨l, hl, hbook⟩ : ∃ l, l.map Prod.fst = b.sent ++ (if b.alive c.coAddress then [c.request] else []) ∧
          (if b.deadService c.coAddress = true then ({ b with demands := d } : Book)
            else Book.send { b with demands := d } c.coAddress (if ok = true ∧ fits = true then .response else .error)
              (some c.request)) = { b with replies := l, demands := d } := by
        by_cases hdead : b.deadService c.coAddress = true
        · refine ⟨b.replies, ?_, if_pos hdead⟩
          rw [h.dead _ hdead]
          exact (List.append_nil _).symm
        · obtain ⟨l, hsend, hl⟩ := send_eq { b with demands := d } c.coAddress
            (if ok = true ∧ fits = true then .response else .error) c.request
          exact ⟨l, hl, (if_neg hdead).trans hsend⟩
      rw [hbook]
      obtain ⟨w, hw⟩ := releaseWatching_eq { b with replies := l, demands := d } (some c.coAddress)
      simp only [Book.close, hw]
      have hs := h.use (f := .nil) hc nofun (.inr ⟨hf, hl⟩) hdmem fun ha => by
        rw [hl, if_pos ha]
        exact List.mem_append_right _ (List.mem_singleton_self _)
      refine ⟨⟨⟨hs.request, hs.single, hs.dead, hs.once, hs.bound, hs.unsent, hs.settled⟩, hs.demanded⟩,
        fun _ => ⟨rfl, rfl, rfl, rfl⟩, ⟨List.prefix_rfl, fun _ ha => ha, ?_, ?_⟩⟩
      · intro x hx
        simp only [Book.sent, Book.closures, closures_set hc, hl, List.mem_append]
        exact hx.imp .inl id
      · intro x hx
        simp only [Book.sent, Book.closures, closures_set hc, hl, List.mem_append] at hx
        rcases hx with (hx | hx) | hx
        · exact .inl hx
        · split at hx
          · obtain rfl := List.mem_singleton.mp hx
            exact .inr (.inl (List.mem_map_of_mem hmem))
          · cases hx
        · exact .inr (.inl hx)

theorem Settled.test (h : Settled b) (k : Nat) : Used b (b.test k) := by
  have hsame : Used b b := ⟨h, Kept.refl b, Later.quiet rfl rfl rfl rfl⟩
  simp only [Book.test]
  split
  · exact hsame
  · rename_i c hc
    split
    · rename_i hdead
      obtain ⟨w, hw⟩ := releaseWatching_eq b (some c.coAddress)
      simp only [Book.close, hw]
      have hnot : b.alive c.coAddress = false := h.dead _ hdead
      have hs := h.use (f := .false) (l := b.replies) (d := b.demands) hc nofun (.inl rfl) (fun _ hx => .inl hx) fun ha => by
        rw [hnot] at ha
        cases ha
      exact ⟨⟨⟨hs.request, hs.single, hs.dead, hs.once, hs.bound, hs.unsent, hs.settled⟩, hs.demanded⟩,
        fun _ => ⟨rfl, rfl, rfl, rfl⟩, Later.quiet rfl rfl (closures_set hc .false) rfl⟩
    · exact hsame

/-! ### Messages -/

/-- A coroutine that has no request gets one. -/
theorem Owed.register (h : Owed b) (hnone : b.sessionCoroutineAddress co = none) (hresp : b.sessionResponse co = false)
    (source session : Nat) : Owed ((b.start source session co).register source session co) ∧
      ∀ x, x ≠ co → Kept b ((b.start source session co).register source session co) x := by
  have hk : ∀ x, x ≠ co → Kept b ((b.start source session co).register source session co) x := by
    intro x hx
    refine ⟨Function.update_of_ne hx .., Function.update_of_ne hx .., ?_, rfl⟩
    exact (Function.update_of_ne hx ..).trans (Function.update_of_ne hx ..)
  have hl : Later b ((b.start source session co).register source session co) (fun _ => False) :=
    ⟨List.prefix_append .., fun _ ha => ha, fun _ hx => hx, fun _ hx => hx.imp id .inl⟩
  have hold {r : Nat} {q : Nat × Nat} (hr : b.requests[r]? = some q) : (b.requests ++ [(source, session)])[r]? = some q := by
    rw [List.getElem?_append_left (List.getElem?_eq_some_iff.mp hr).1]
    exact hr
  have haddr : ((b.start source session co).register source session co).sessionCoroutineAddress co = some source :=
    Function.update_self ..
  have hreq : ((b.start source session co).register source session co).request co = some b.requests.length :=
    Function.update_self ..
  have hnew : ¬(b.requests.length ∈ b.sent ∨ b.requests.length ∈ b.closures) := by
    rintro (hmem | hmem)
    · exact absurd (h.bound _ hmem) (Nat.lt_irrefl _)
    · obtain ⟨c, hc, heq⟩ := List.mem_map.mp hmem
      have := (List.getElem?_eq_some_iff.mp (h.request c hc)).1
      omega
  refine ⟨⟨⟨⟨?_, h.single, h.dead, h.once, ?_, h.unsent, h.settled⟩, ?_⟩, ⟨?_, ?_⟩⟩, hk⟩
  · intro c hc
    exact hold (h.request c hc)
  · intro r hr
    have := h.bound r hr
    simp only [Book.register, Book.start, List.length_append, List.length_singleton]
    omega
  · intro r hr
    obtain ⟨a, session', hreq, hsent⟩ := h.demanded r hr
    exact ⟨a, session', hold hreq, hsent⟩
  · intro x a ha
    by_cases hx : x = co
    · subst hx
      rw [haddr] at ha
      cases ha
      refine ⟨session, b.requests.length, Function.update_self .., hreq, ?_, fun _ => hnew, fun htrue => ?_⟩
      · exact List.getElem?_concat_length
      · exact absurd (hresp.symm.trans htrue) Bool.false_ne_true
    · rw [(hk x hx).address] at ha
      obtain ⟨session', r, hh⟩ := h.handled x a ha
      exact ⟨session', r, hh.later (hk x hx) hl id⟩
  · -- the number of the new request is no number of an old one
    have hlt : ∀ x r, x ≠ co → ((b.start source session co).register source session co).sessionCoroutineAddress x ≠ none →
        ((b.start source session co).register source session co).request x = some r → r < b.requests.length := by
      intro x r hx hne hr
      rw [(hk x hx).address] at hne
      rw [(hk x hx).request] at hr
      obtain ⟨a, ha⟩ := Option.ne_none_iff_exists'.mp hne
      obtain ⟨session', r', hh⟩ := h.handled x a ha
      obtain rfl : r' = r := Option.some.inj (hh.request.symm.trans hr)
      exact (List.getElem?_eq_some_iff.mp hh.registered).1
    intro x y r hx hy hr hr'
    by_cases hxc : x = co
    · by_cases hyc : y = co
      · rw [hxc, hyc]
      · have := hlt y r hyc hy hr'
        rw [hxc, hreq] at hr
        cases hr
        omega
    · by_cases hyc : y = co
      · have := hlt x r hxc hx hr
        rw [hyc, hreq] at hr'
        cases hr'
        omega
      · rw [(hk x hxc).address] at hx
        rw [(hk y hyc).address] at hy
        rw [(hk x hxc).request] at hr
        rw [(hk y hyc).request] at hr'
        exact h.distinct x y r hx hy hr hr'

/-- An error message is handled by a coroutine that has no request. -/
theorem Owed.errorMessage (h : Owed b) {source session : Nat} (hg : session = 0 → b.alive source = false) (co : Nat) :
    Owed ((if session = 0 then (b.start source session co).down source else b.start source session co).exitCommand co) ∧
      ((if session = 0 then (b.start source session co).down source
        else b.start source session co).exitCommand co).sessionCoroutineAddress co = none ∧
      ((if session = 0 then (b.start source session co).down source
        else b.start source session co).exitCommand co).sessionResponse co = false ∧
      ∀ x, x ≠ co →
        Kept b ((if session = 0 then (b.start source session co).down source else b.start source session co).exitCommand co) x := by
  obtain ⟨dead, hdead, hbook⟩ : ∃ dead, (∀ a, dead a = true → b.alive a = false) ∧
      (if session = 0 then (b.start source session co).down source else b.start source session co) =
        { b.start source session co with deadService := dead } := by
    by_cases hs : session = 0
    · rw [if_pos hs]
      simp only [Book.down]
      split
      · refine ⟨_, ?_, rfl⟩
        intro a ha
        by_cases hc : a = source
        · exact hc ▸ hg hs
        · rw [Function.update_of_ne hc] at ha
          exact h.dead a ha
      · exact ⟨b.deadService, h.dead, rfl⟩
    · exact ⟨b.deadService, h.dead, if_neg hs⟩
  rw [hbook]
  obtain ⟨w, hw⟩ := releaseWatching_eq { b.start source session co with deadService := dead }
    ((b.start source session co).sessionCoroutineAddress co)
  simp only [Book.exitCommand, hw]
  have hk : ∀ x, x ≠ co → Kept b
      { (({ b.start source session co with deadService := dead, watchingService := w } : Book).clear co) with
        sessionResponse := Function.update b.sessionResponse co false } x := by
    intro x hx
    refine ⟨?_, ?_, ?_, Function.update_of_ne hx ..⟩ <;>
      exact (Function.update_of_ne hx ..).trans (Function.update_of_ne hx ..)
  refine ⟨?_, Function.update_self .., Function.update_self .., hk⟩
  refine ⟨⟨⟨h.request, h.single, hdead, h.once, h.bound, h.unsent, h.settled⟩, h.demanded⟩, ?_⟩
  exact h.toCoroutines.change hk (Later.quiet rfl rfl rfl rfl) (fun _ hf => hf.elim) (.inl (Function.update_self ..))

/-- A message without a protocol: it is a request that gets an error. -/
theorem Owed.unknown (h : Owed b) (source session : Nat) (hasProto : Bool) :
    Owed (b.unknown source session hasProto) ∧ ∀ x, Kept b (b.unknown source session hasProto) x := by
  have hlong {r : Nat} {q : Nat × Nat} (hr : b.requests[r]? = some q) : r < b.requests.length :=
    (List.getElem?_eq_some_iff.mp hr).1
  have hold {r : Nat} {q : Nat × Nat} (hr : b.requests[r]? = some q) : (b.requests ++ [(source, session)])[r]? = some q := by
    rw [List.getElem?_append_left (hlong hr)]
    exact hr
  obtain ⟨l, hsend, hl⟩ : ∃ l : List (Nat × PType),
      b.unknown source session hasProto = { b with replies := l, requests := b.requests ++ [(source, session)] } ∧
        (l.map Prod.fst = b.sent ∨ l.map Prod.fst = b.sent ++ [b.requests.length]) := by
    simp only [Book.unknown]
    split
    · obtain ⟨l, hsend, hl⟩ := send_eq b source .error b.requests.length
      refine ⟨l, by rw [hsend], ?_⟩
      split at hl
      · exact .inr hl
      · exact .inl (hl.trans (List.append_nil _))
    · exact ⟨b.replies, rfl, .inl rfl⟩
  have hgrow : ∀ r ∈ b.sent, r ∈ l.map Prod.fst := by
    intro r hr
    rcases hl with hl | hl
    · rwa [hl]
    · rw [hl]
      exact List.mem_append_left _ hr
  have hnew : ∀ r ∈ l.map Prod.fst, r ∈ b.sent ∨ r = b.requests.length := by
    intro r hr
    rcases hl with hl | hl
    · exact .inl (hl ▸ hr)
    · rw [hl, List.mem_append, List.mem_singleton] at hr
      exact hr
  rw [hsend]
  refine ⟨⟨⟨⟨?_, h.single, h.dead, ?_, ?_, ?_, ?_⟩, ?_⟩, ?_⟩, fun _ => ⟨rfl, rfl, rfl, rfl⟩⟩
  · intro c hc
    exact hold (h.request c hc)
  · simp only [Book.sent]
    rcases hl with hl | hl
    · rw [hl]
      exact h.once
    · rw [hl, List.nodup_append_comm, List.singleton_append, List.nodup_cons]
      exact ⟨fun hmem => absurd (h.bound _ hmem) (Nat.lt_irrefl _), h.once⟩
  · intro r hr
    simp only [List.length_append, List.length_singleton]
    rcases hnew r hr with hr | rfl
    · have := h.bound r hr
      omega
    · omega
  · intro c hc hf hmem
    rcases hnew _ hmem with hmem | heq
    · exact h.unsent c hc hf hmem
    · have := hlong (h.request c hc)
      omega
  · intro c hc hf ha
    exact hgrow _ (h.settled c hc hf ha)
  · intro r hr
    obtain ⟨a, session', hreq, hs⟩ := h.demanded r hr
    exact ⟨a, session', hold hreq, fun hn => hgrow r (hs hn)⟩
  · refine h.toCoroutines.later (fun _ => ⟨rfl, rfl, rfl, rfl⟩) (show Later b _ (· = b.requests.length) from
      ⟨List.prefix_append .., fun _ ha => ha, fun r hr => hr.imp (hgrow r) id, ?_⟩) ?_
    · rintro r (hr | hr)
      · rcases hnew r hr with hr | hr
        · exact .inl hr
        · exact .inr (.inr hr)
      · exact .inr (.inl hr)
    · rintro co a session' r - hh rfl
      exact absurd (hlong hh.registered) (Nat.lt_irrefl _)

theorem alive_update {address x : Nat} (hx : Function.update b.alive address false x = true) : b.alive x = true := by
  by_cases hc : x = address
  · subst hc
    rw [Function.update_self] at hx
    cases hx
  · rwa [Function.update_of_ne hc] at hx

theorem Settled.die (h : Settled b) (address : Nat) : Settled { b with alive := Function.update b.alive address false } where
  request := h.request
  single := h.single
  dead := fun a ha => Bool.eq_false_iff.mpr fun htrue => by
    have hx := alive_update htrue
    rw [h.dead a ha] at hx
    cases hx
  once := h.once
  bound := h.bound
  unsent := h.unsent
  settled := fun c hc hf ha => h.settled c hc hf (alive_update ha)
  demanded := h.demanded

theorem Owed.die (h : Owed b) (address : Nat) : Owed { b with alive := Function.update b.alive address false } where
  toSettled := h.toSettled.die address
  toCoroutines := h.toCoroutines.later (fun _ => ⟨rfl, rfl, rfl, rfl⟩)
    (show Later b _ fun _ => False from ⟨List.prefix_rfl, fun _ ha => alive_update ha, fun _ hx => hx, fun _ hx => hx.imp id .inl⟩) fun _ _ _ _ _ _ => id

/-! ### The end of the service -/

/-- The requests of these coroutines are to be reported. -/
def Unreported (b : Book) (cos : List Nat) : Prop :=
  ∀ co ∈ cos, ∀ a, b.sessionCoroutineAddress co = some a → ∃ session r, b.sessionCoroutineId co = some session ∧
    b.request co = some r ∧ b.requests[r]? = some (a, session) ∧
    (b.alive a = true → session ≠ 0 → ¬(r ∈ b.sent ∨ r ∈ b.closures))

theorem Settled.report {cos : List Nat} (h : Settled b) (hu : Unreported b cos) (hn : cos.Nodup)
    (hd : ∀ co co' r, b.sessionCoroutineAddress co ≠ none → b.sessionCoroutineAddress co' ≠ none →
      b.request co = some r → b.request co' = some r → co = co') : Settled (cos.foldl Book.report b) := by
  induction cos generalizing b with
  | nil => exact h
  | cons co cos ih =>
    obtain ⟨hnot, hn⟩ := List.nodup_cons.mp hn
    have hsame (heq : b.report co = b) : Settled ((co :: cos).foldl Book.report b) := by
      rw [List.foldl_cons, heq]
      exact ih h (fun co' hco' => hu co' (List.mem_cons_of_mem _ hco')) hn hd
    cases haddr : b.sessionCoroutineAddress co with
    | none =>
      refine hsame ?_
      simp only [Book.report, haddr]
      split
      · rename_i hnone
        cases hnone
      · rfl
    | some a =>
      obtain ⟨session, r, hid, hreq, hreg, hno⟩ := hu co (List.mem_cons_self ..) a haddr
      by_cases hs : session = 0
      · refine hsame ?_
        simp only [Book.report, haddr, hid]
        exact if_neg (not_not.mpr hs)
      · obtain ⟨l, hsend, hl⟩ := send_eq b a .error r
        have heq : b.report co = { b with replies := l } := by
          simp only [Book.report, haddr, hid, hreq]
          rw [if_pos hs, hsend]
        rw [List.foldl_cons, heq]
        have hset := h.reply hreg (fun ha => hno ha hs) hl (d := b.demands) fun _ hx => .inl hx
        refine ih hset ?_ hn hd
        intro co' hco' a' ha'
        obtain ⟨session', r', hid', hreq', hreg', hno'⟩ := hu co' (List.mem_cons_of_mem _ hco') a' ha'
        refine ⟨session', r', hid', hreq', hreg', ?_⟩
        intro halive hs' hmem
        have hne : r' ≠ r := by
          rintro rfl
          have := hd co' co r' (by rw [ha']; exact Option.some_ne_none _) (by rw [haddr]; exact Option.some_ne_none _) hreq' hreq
          exact hnot (this ▸ hco')
        have hlater : Later b { b with replies := l } (· = r) := Later.reply (a := a) rfl rfl rfl hl
        rcases hlater.adds r' hmem with hmem | hmem | hmem
        · exact hno' halive hs' (.inl hmem)
        · exact hno' halive hs' (.inr hmem)
        · exact hne hmem

theorem Owed.exit (h : Owed b) (hg : ∀ co, ¬b.taken co) (n : Nat) : Settled (b.exit n) := by
  have hreport : Settled ((List.range n).foldl Book.report b) := by
    refine h.toSettled.report ?_ List.nodup_range h.distinct
    intro co _ a ha
    obtain ⟨session, r, hh⟩ := h.handled co a ha
    refine ⟨session, r, hh.id, hh.request, hh.registered, fun halive hs => hh.unanswered ?_⟩
    exact Bool.eq_false_iff.mpr fun hresp => hg co ⟨a, session, ha, hh.id, hs, halive, hresp⟩
  have hclose : ∀ (ks : List Nat) (c : Book), Settled c → Settled (ks.foldl (fun b k => b.respond k false true) c) := by
    intro ks
    induction ks with
    | nil => exact fun _ hc => hc
    | cons k ks ih => exact fun c hc => ih _ (hc.respond k false true).settled
  exact hclose _ _ hreport

end Book

/-! ### Runs -/

/-- Can be used for a new coroutine. -/
def Spare (s : Sched) (co : Nat) : Prop := s.point co = .pooled ∨ s.coroutines ≤ co

/-- A coroutine that can be used for a new one has no request and has not replied. -/
structure Live (s : State) : Prop where
  quit : s.sched.quit = false
  clean : ∀ co, Spare s.sched co → s.book.sessionCoroutineAddress co = none ∧ s.book.sessionResponse co = false
  owed : Owed s.book

/-- The service has exited, and resumes no coroutine. -/
structure Ended (s : State) : Prop where
  quit : s.sched.quit = true
  forkQueue : s.sched.forkQueue = []
  control : s.sched.control = .returned ∨ s.sched.control = .errors ∨ s.sched.control = .forks ∨ s.sched.control = .idle
  errorQueue : s.sched.errorQueue = [] ∨ s.sched.depth = 0 ∧ s.sched.control ≠ .errors
  settled : Settled s.book

theorem live_init : Live init := ⟨rfl, fun _ _ => ⟨rfl, rfl⟩, owed_init⟩

section Sched

variable {s s' : Sched} {co : Nat}

/-- No coroutine gets spare. -/
structure Tame (s s' : Sched) : Prop where
  quit : s'.quit = s.quit
  spare : ∀ x, Spare s' x → Spare s x

theorem Tame.of_update {p : Point} (hq : s'.quit = s.quit) (hc : s.coroutines ≤ s'.coroutines)
    (hp : s'.point = Function.update s.point co p) (hpool : p ≠ .pooled) : Tame s s' := by
  refine ⟨hq, ?_⟩
  rintro x (hx | hx)
  · rw [hp] at hx
    by_cases hxc : x = co
    · subst hxc
      rw [Function.update_self] at hx
      exact absurd hx hpool
    · rw [Function.update_of_ne hxc] at hx
      exact .inl hx
  · exact .inr (Nat.le_trans hc hx)

theorem Going.tame (h : Going s s') : Tame s s' := by
  refine ⟨h.quit, ?_⟩
  rintro x (hx | hx)
  · exact .inl ((h.ended x (by rw [hx]; rfl)).symm.trans hx)
  · exact .inr (h.coroutines ▸ hx)

/-- The coroutine that is created has been spare. -/
theorem Tame.create {p : Point} (hc : s.create co p = some s') (hp : p ≠ .pooled) : Tame s s' ∧ Spare s co := by
  simp only [Sched.create] at hc
  split at hc
  · rename_i hco
    cases hc
    exact ⟨Tame.of_update rfl (Nat.le_succ _) rfl hp, .inr (Nat.le_of_eq hco.symm)⟩
  · split at hc
    · rename_i hpool
      cases hc
      exact ⟨Tame.of_update rfl (Nat.le_refl _) rfl hp, .inl hpool⟩
    · cases hc

theorem Tame.trans {t : Sched} (h : Tame s s') (h' : Tame s' t) : Tame s t :=
  ⟨h'.quit.trans h.quit, fun x hx => h.spare x (h'.spare x hx)⟩

/-- Only the coroutine that ends gets spare. -/
theorem spare_exitCommand {x : Nat} (hx : Spare (s.exitCommand co) x) : x = co ∨ Spare s x := by
  by_cases hxc : x = co
  · exact .inl hxc
  · rcases hx with hx | hx
    · simp only [Sched.exitCommand, Function.update_of_ne hxc] at hx
      exact .inr (.inl hx)
    · exact .inr (.inr hx)

end Sched

section Step

variable {s s' : State}

theorem Live.step (h : Live s) (ht : Tame s.sched s'.sched) (ho : Owed s'.book)
    (hk : ∀ x, Spare s.sched x → Kept s.book s'.book x) : Live s' where
  quit := ht.quit.trans h.quit
  clean := by
    intro x hx
    have hkept := hk x (ht.spare x hx)
    obtain ⟨haddr, hresp⟩ := h.clean x (ht.spare x hx)
    exact ⟨hkept.address.trans haddr, hkept.response.trans hresp⟩
  owed := ho

/-- The book stays as it is. -/
theorem Live.sched (h : Live s) {sched : Sched} (ht : Tame s.sched sched) : Live { s with sched := sched } :=
  h.step ht h.owed fun x _ => Kept.refl s.book x

theorem live_perform {co : Nat} {o : Op} (h : Live s) (hsound : Sound s.sched) (hrun : s.sched.control = .running co)
    (hl : Lawful s (.op o)) (hp : perform s co o = some s') : Live s' ∨ Ended s' := by
  have hpoint := hsound.running co hrun
  have hlt := (hsound.unused hrun).2
  -- the running coroutine is not spare
  have hbusy : ∀ x, Spare s.sched x → x ≠ co := by
    rintro x hx rfl
    rcases hx with hx | hx
    · rw [hpoint] at hx
      cases hx
    · omega
  cases o with
  | call service => cases hp; exact .inl (h.sched (Going.tame (Going.of_update rfl rfl rfl rfl)))
  | sleep => cases hp; exact .inl (h.sched (Going.tame (Going.of_update rfl rfl rfl rfl)))
  | wait => cases hp; exact .inl (h.sched (Going.tame (Going.of_update rfl rfl rfl rfl)))
  | wakeup other => cases hp; exact .inl (h.sched (Going.wakeup _ other).tame)
  | fork new =>
    rw [perform, Option.map_eq_some_iff] at hp
    obtain ⟨sched, hf, rfl⟩ := hp
    rw [Sched.fork, Option.map_eq_some_iff] at hf
    obtain ⟨t, ht, rfl⟩ := hf
    exact .inl (h.sched ((Tame.create ht (fun h => by cases h)).1.trans (Going.tame (Going.of_eq rfl rfl rfl))))
  | timeout new =>
    rw [perform, Option.map_eq_some_iff] at hp
    obtain ⟨sched, hf, rfl⟩ := hp
    rw [Sched.timeout, Option.map_eq_some_iff] at hf
    obtain ⟨t, ht, rfl⟩ := hf
    exact .inl (h.sched ((Tame.create ht (fun h => by cases h)).1.trans (Going.tame (Going.of_eq rfl rfl rfl))))
  | ret fits =>
    simp only [perform, Option.some.injEq] at hp
    subst hp
    obtain ⟨ho, hk⟩ := h.owed.returnCommand (hl co hrun) fits
    exact .inl (h.step (Going.answered co _).tame ho fun x hx => hk x (hbusy x hx))
  | response =>
    simp only [perform, Option.some.injEq] at hp
    subst hp
    obtain ⟨ho, hk⟩ := h.owed.responseCommand
    exact .inl (h.step (Going.answered co _).tame ho fun x hx => hk x (hbusy x hx))
  | respond k ok fits =>
    cases hp
    have hu := h.owed.toSettled.respond k ok fits
    exact .inl (h.step (Going.tame (Going.of_eq rfl rfl rfl)) (hu.owed h.owed.toCoroutines) fun x _ => hu.kept x)
  | test k =>
    cases hp
    have hu := h.owed.toSettled.test k
    exact .inl (h.step (Going.tame (Going.of_eq rfl rfl rfl)) (hu.owed h.owed.toCoroutines) fun x _ => hu.kept x)
  | finish =>
    cases hp
    obtain ⟨ho, haddr, hresp, hk⟩ := h.owed.exitCommand co
    refine .inl ⟨h.quit, ?_, ho⟩
    intro x hx
    by_cases hxc : x = co
    · subst hxc
      exact ⟨haddr, hresp⟩
    · obtain ⟨haddr, hresp⟩ := h.clean x ((spare_exitCommand hx).resolve_left hxc)
      exact ⟨(hk x hxc).address.trans haddr, (hk x hxc).response.trans hresp⟩
  | raise =>
    cases hp
    obtain ⟨ho, hk⟩ := h.owed.crash (hl co hrun)
    exact .inl (h.step (Tame.of_update rfl (Nat.le_refl _) rfl (fun h => by cases h)) ho fun x hx => hk x (hbusy x hx))
  | exit =>
    cases hp
    obtain ⟨hqueue, hg⟩ := hl
    exact .inr ⟨rfl, rfl, .inl rfl, hqueue.symm.imp id fun hd => ⟨hd, fun h => by cases h⟩, h.owed.exit hg _⟩

theorem live_dispatch {m : Message} (h : Live s) (hsound : Sound s.sched) (hl : Lawful s (.message m)) (hd : dispatch s m = some s') :
    Live s' := by
  cases m with
  | response session =>
    simp only [dispatch] at hd
    split at hd
    · cases hd
      exact h.sched (Going.tame (Going.of_eq rfl rfl rfl))
    · cases hd
      exact h.sched (Going.tame (Going.of_eq rfl rfl rfl))
    · rw [Option.map_eq_some_iff] at hd
      obtain ⟨sched, hr, rfl⟩ := hd
      have hg := Going.resume hr
      exact h.sched (Going.tame ⟨hg.quit, hg.coroutines, hg.ended⟩)
  | request source session co unpacks =>
    simp only [dispatch] at hd
    split at hd
    · cases hd
    · rename_i sched hsched
      obtain ⟨htame, hspare⟩ := Tame.create hsched (fun h => by cases h)
      obtain ⟨haddr, hresp⟩ := h.clean co hspare
      obtain ⟨ho, hk⟩ := h.owed.register haddr hresp source session
      have hsched' := (hsound.create (by simp [Point.sleeps]) hsched)
      -- the coroutine is not spare any more
      have hbusy : ∀ x, Spare sched x → x ≠ co := by
        rintro x hx rfl
        rcases hx with hx | hx
        · rw [hsched'.2.2.1] at hx
          cases hx
        · exact absurd hx (Nat.not_le_of_lt hsched'.2.2.2.2.2.2)
      have hclean : ∀ t : Sched, Tame sched t →
          Live { sched := t, book := (s.book.start source session co).register source session co } := by
        intro t ht
        refine ⟨ht.quit.trans (htame.quit.trans h.quit), ?_, ho⟩
        intro x hx
        have hkept := hk x (hbusy x (ht.spare x hx))
        obtain ⟨haddr, hresp⟩ := h.clean x (htame.spare x (ht.spare x hx))
        exact ⟨hkept.address.trans haddr, hkept.response.trans hresp⟩
      split at hd
      · rw [Option.map_eq_some_iff] at hd
        obtain ⟨t, hr, rfl⟩ := hd
        exact hclean t (Going.resume hr).tame
      · cases hd
        exact hclean _ (Going.tame (Going.of_eq rfl rfl rfl))
  | error source session co order =>
    simp only [dispatch] at hd
    split at hd
    · cases hd
    · rename_i sched hsched
      rw [Option.map_eq_some_iff] at hd
      obtain ⟨t, ht, rfl⟩ := hd
      obtain ⟨queue, rfl⟩ := errorDispatch_eq ht
      obtain ⟨htame, -⟩ := Tame.create hsched (fun h => by cases h)
      obtain ⟨ho, haddr, hresp, hk⟩ := h.owed.errorMessage hl co
      refine ⟨htame.quit.trans h.quit, ?_, ho⟩
      intro x hx
      by_cases hxc : x = co
      · subst hxc
        exact ⟨haddr, hresp⟩
      · obtain ⟨haddr, hresp⟩ := h.clean x (htame.spare x ((spare_exitCommand hx).resolve_left hxc))
        exact ⟨(hk x hxc).address.trans haddr, (hk x hxc).response.trans hresp⟩
  | unknown source session hasProto =>
    cases hd
    obtain ⟨ho, hk⟩ := h.owed.unknown source session hasProto
    exact h.step (Going.tame (Going.of_eq rfl rfl rfl)) ho fun x _ => hk x

theorem live_step {a : Label} (h : Live s) (hsound : Sound s.sched) (hl : Lawful s a) (hs : step s a = some s') :
    Live s' ∨ Ended s' := by
  cases a with
  | die address =>
    cases hs
    exact .inl (h.step (Going.tame (Going.of_eq rfl rfl rfl)) (h.owed.die address) fun _ _ => ⟨rfl, rfl, rfl, rfl⟩)
  | message m =>
    simp only [step] at hs
    split at hs
    · exact .inl (live_dispatch h hsound hl hs)
    · cases hs
  | op o =>
    simp only [step] at hs
    split at hs
    · rename_i co hrun
      exact live_perform h hsound hrun hl hs
    · cases hs
  | wakeup next =>
    simp only [step] at hs
    split at hs
    · rw [Option.map_eq_some_iff] at hs
      obtain ⟨sched, hd, rfl⟩ := hs
      exact .inl (h.sched (Going.dispatchWakeup hd).tame)
    · cases hs
  | errors =>
    simp only [step] at hs
    split at hs
    · rw [Option.map_eq_some_iff] at hs
      obtain ⟨sched, hd, rfl⟩ := hs
      exact .inl (h.sched (Going.dispatchErrorQueue hd).tame)
    · cases hs
  | returned =>
    simp only [step] at hs
    split at hs
    · cases hs
      exact .inl (h.sched (Going.returned _).tame)
    · cases hs
  | forks next =>
    simp only [step] at hs
    split at hs
    · rw [Option.map_eq_some_iff] at hs
      obtain ⟨sched, hd, rfl⟩ := hs
      exact .inl (h.sched (Going.dispatchFork hd).tame)
    · cases hs

theorem ended_step {a : Label} (h : Ended s) (hs : step s a = some s') : Ended s' := by
  cases a with
  | die address =>
    cases hs
    exact ⟨h.quit, h.forkQueue, h.control, h.errorQueue, h.settled.die address⟩
  | message m =>
    simp only [step, h.quit] at hs
    split at hs
    · rename_i hc
      cases hc.2
    · cases hs
  | op o =>
    simp only [step] at hs
    split at hs
    · rename_i co hrun
      rcases h.control with hc | hc | hc | hc <;> · rw [hrun] at hc; cases hc
    · cases hs
  | wakeup next =>
    simp only [step] at hs
    split at hs
    · rename_i hrun
      rcases h.control with hc | hc | hc | hc <;> · rw [hrun] at hc; cases hc
    · cases hs
  | errors =>
    simp only [step] at hs
    split at hs
    · rename_i hcontrol
      have hqueue := h.errorQueue.resolve_right fun hc => hc.2 hcontrol
      simp only [Sched.dispatchErrorQueue, hqueue, Option.map_some, Option.some.injEq] at hs
      subst hs
      exact ⟨h.quit, h.forkQueue, .inl rfl, .inl rfl, h.settled⟩
    · cases hs
  | returned =>
    simp only [step] at hs
    split at hs
    · cases hs
      simp only [Sched.returned]
      split
      · rename_i hdepth
        exact ⟨h.quit, h.forkQueue, .inr (.inr (.inl rfl)), .inr ⟨hdepth, fun h => by cases h⟩, h.settled⟩
      · rename_i depth hdepth
        have hqueue := h.errorQueue.resolve_right fun hc => by
          rw [hdepth] at hc
          cases hc.1
        exact ⟨h.quit, h.forkQueue, .inr (.inl rfl), .inl hqueue, h.settled⟩
    · cases hs
  | forks next =>
    simp only [step] at hs
    split at hs
    · rename_i hcontrol
      cases next with
      | none =>
        simp only [Sched.dispatchFork, h.forkQueue, if_true, Option.map_some, Option.some.injEq] at hs
        subst hs
        exact ⟨h.quit, rfl, .inr (.inr (.inr rfl)), h.errorQueue.imp id fun hc => ⟨hc.1, fun h => by cases h⟩, h.settled⟩
      | some co =>
        simp only [Sched.dispatchFork, h.forkQueue, List.not_mem_nil, if_false, Option.map_none, reduceCtorEq] at hs
    · cases hs

end Step

/-- **One reply.** When no coroutine raises an error, exits or calls `skynet.ret` after it has replied or while its closure is open,
and no other one has replied when the service exits, at most one message is sent in reply to a request, and exactly one
if the request was to get one. -/
theorem replied_once (as : List Label) (s : State) (h : Lts.run step init as = some s)
    (hl : Lts.Guarded step Lawful init as) : Replied s.book := by
  have hinv : Sound s.sched ∧ (Live s ∨ Ended s) := by
    refine Lts.run_invariant_of_guarded (P := fun s => Sound s.sched ∧ (Live s ∨ Ended s)) ?_ h hl ⟨sound_init, .inl live_init⟩
    rintro s a s' ⟨hsound, hlive | hended⟩ hg hs
    · exact ⟨sound_step hsound hs, live_step hlive hsound hg hs⟩
    · exact ⟨sound_step hsound hs, .inr (ended_step hended hs)⟩
  exact hinv.2.elim (fun h => h.owed.toSettled.replied) fun h => h.settled.replied

/-! ### Examples -/

/-- A test for `Lawful`. -/
def clear (s : State) : Label → Bool
  | .op .raise => false
  | .op (.ret _) => s.book.responses.all fun c => c.f ≠ .function
  | .op .exit => false
  | .message (.error ..) => false
  | _ => true

theorem lawful_of_clear (s : State) (a : Label) (h : clear s a = true) : Lawful s a := by
  cases a with
  | op o =>
    cases o with
    | ret fits =>
      intro co _ _ c hc _
      exact of_decide_eq_true (List.all_eq_true.mp h c hc)
    | raise => cases h
    | exit => cases h
    | _ => trivial
  | message m =>
    cases m with
    | error => cases h
    | _ => trivial
  | _ => trivial

/-- The end of the handling of a message. -/
def ending : List Label := [.op .finish, .wakeup none, .errors, .returned, .forks none]

/-- A request is replied to when the next one is handled. -/
def later : List Label :=
  .message (.request 100 1 0 true) :: .op .response :: ending ++
    .message (.request 101 2 0 true) :: .op (.respond 0 true true) :: .op (.ret true) :: ending

theorem replied_once_later : ∃ s, Lts.run step init later = some s ∧ s.book.demands = [0, 1] ∧
    s.book.replies = [(0, .response), (1, .response)] ∧ Replied s.book := by
  obtain ⟨s, hrun, hguard, hs⟩ := Lts.of_check
    (p := fun s => s.book.demands == [0, 1] && s.book.replies == [(0, .response), (1, .response)]) lawful_of_clear
    (show Lts.check step clear (fun s => s.book.demands == [0, 1] && s.book.replies == [(0, .response), (1, .response)])
      init later = true by decide +kernel)
  obtain ⟨hd, hr⟩ := (Bool.and_eq_true ..).mp hs
  exact ⟨s, hrun, beq_iff_eq.mp hd, beq_iff_eq.mp hr, replied_once later s hrun hguard⟩

/-- A test for one demanded request, `(100, 1)`, that has not got one reply. -/
def unreplied (s : State) : Bool := s.book.requests == [(100, 1)] && s.book.demands.contains 0 && s.book.sent.count 0 != 1

theorem not_replied_of_unreplied {s : State} (h : unreplied s = true) : ¬Replied s.book := by
  simp only [unreplied, Bool.and_eq_true, beq_iff_eq, bne_iff_ne, List.contains_iff_mem] at h
  obtain ⟨⟨hr, hd⟩, hcount⟩ := h
  intro hreplied
  exact hcount ((hreplied 0 100 1 (by rw [hr]; rfl) nofun).2 hd)

/-- A request gets a response and an error: the handler raises an error after `skynet.ret`, or the service exits. A request gets no
reply: `skynet.ret` after `skynet.response` is an error in `suspend`, which reports nothing. -/
theorem replied_twice :
    (∃ s, Lts.run step init [.message (.request 100 1 0 true), .op (.ret true), .op .raise] = some s ∧ ¬Replied s.book) ∧
    (∃ s, Lts.run step init [.message (.request 100 1 0 true), .op (.ret true), .op .exit] = some s ∧ ¬Replied s.book) ∧
    ∃ s, Lts.run step init [.message (.request 100 1 0 true), .op .response, .op (.ret true)] = some s ∧
      ¬Replied s.book := by
  have htest : ∀ as : List Label, Lts.check step (fun _ _ => true) unreplied init as = true →
      ∃ s, Lts.run step init as = some s ∧ ¬Replied s.book := by
    intro as h
    obtain ⟨s, hrun, -, hs⟩ := Lts.of_check (G := fun _ _ => True) (fun _ _ _ => trivial) h
    exact ⟨s, hrun, not_replied_of_unreplied hs⟩
  exact ⟨htest _ (by decide +kernel), htest _ (by decide +kernel), htest _ (by decide +kernel)⟩

end Dispatch
end Skynet
