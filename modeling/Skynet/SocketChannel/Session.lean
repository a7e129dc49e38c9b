import Mathlib.Data.List.Basic
import Mathlib.Data.List.Nodup
import Skynet.Lib.Run
import Skynet.SocketChannel.Waiters

/-!
# Skynet.SocketChannel.Session

A channel in session mode (`lualib/socketchannel.lua` with a `response` in the descriptor): the response
function reads one response and returns its session, and `__thread` has the coroutine that waits for it.

A label is what one coroutine does between two yields, with the answers of the network: whether a write
succeeds, and what the response function returns. The coroutine that `connect_once` forks for the
connection `d` is the dispatcher `d`. `log` records the requests that were written and the responses that
were read, in their order; `heard` is what the log has for a request, without the tables of the channel.

* `Correct` : a request that waits is in `__thread` or has its reply, each reply is what was heard for the
  request, and there is one for each request.
* `session_correct` : so it is in every run.
-/

namespace Skynet
namespace SocketChannel
namespace Session

variable {S V : Type}

inductive Phase (V : Type)
  /-- Not forked. -/
  | absent
  /-- At the head of the loop. -/
  | looping
  /-- In the response function. -/
  | reading
  /-- In `close_channel_socket`, after the response function has failed. -/
  | closing (errmsg : Option V)
  | exited
deriving Repr, DecidableEq

inductive Event (S V : Type)
  /-- The request `num` was written to the connection `conn`. -/
  | request (num : Nat) (session : S) (conn : Nat)
  | response (session : S) (o : Outcome V)
deriving Repr, DecidableEq

structure Channel (S V : Type) where
  sock : Option Nat
  thread : List (S × Nat)
  dispatchers : Nat → Phase V
  /-- The coroutines whose write failed, in `close_channel_socket`. -/
  closing : List Nat
  waiters : Waiters V
  conns : Nat
  nums : Nat
  log : List (Event S V)

namespace Channel

def init : Channel S V :=
  { sock := none, thread := [], dispatchers := fun _ => .absent, closing := [], waiters := Waiters.init
    conns := 0, nums := 0, log := [] }

def setPhase (s : Channel S V) (d : Nat) (p : Phase V) : Channel S V :=
  { s with dispatchers := Function.update s.dispatchers d p }

def wakeupAll (s : Channel S V) (errmsg : Option V) : Channel S V :=
  { s with thread := [], waiters := s.waiters.failAll errmsg (s.thread.map Prod.snd) }

/-- `connect_once`, when the socket is open. -/
def connectOnce (s : Channel S V) : Channel S V :=
  { s.setPhase s.conns .looping with sock := some s.conns, conns := s.conns + 1 }

/-- The head of the loop of `dispatch_by_session`. -/
def dispatchBySession (s : Channel S V) (d : Nat) : Channel S V :=
  match s.sock with
  | some _ => s.setPhase d .reading
  | none => s.setPhase d .exited

/-- A request that was written to the connection `c`, with `push_response`. -/
def written (s : Channel S V) (c co : Nat) (session : S) : Channel S V :=
  { s with
    thread := (session, co) :: s.thread
    waiters := s.waiters.wait co s.nums
    nums := s.nums + 1
    log := s.log ++ [.request s.nums session c] }

variable [DecidableEq S]

/-- The body of the loop, when the response function has returned. -/
def responded (s : Channel S V) (session : S) (o : Outcome V) : Channel S V :=
  match s.thread.find? (fun p => p.1 = session) with
  | some (_, co) =>
    if o.padding ∧ o.resultOk then
      { s with waiters := s.waiters.append co o.resultData, log := s.log ++ [.response session o] }
    else
      { s with
        thread := s.thread.filter (fun p => p.1 ≠ session)
        waiters := s.waiters.settle co o.resultOk o.resultData
        log := s.log ++ [.response session o] }
  | none => { s with log := s.log ++ [.response session o] }

end Channel

inductive Label (S V : Type)
  /-- A socket is open, in `connect_once`. -/
  | connect
  /-- The first run of the coroutine that was forked. -/
  | start (d : Nat)
  /-- `channel:request` on an open socket, with its session if it has a response, and whether the write
  succeeds. -/
  | request (co : Nat) (session : Option S) (write : Bool)
  /-- The end of a request whose write failed, after `close_channel_socket`. -/
  | failed (co : Nat)
  /-- The response function ends. It fails if it raises an error or returns no session; `error none` is
  `socket_error` or no session. -/
  | finish (d : Nat) (r : Except (Option V) (S × Outcome V))
  /-- The dispatcher goes on after `close_channel_socket`. -/
  | closed (d : Nat)
  /-- `dispatch_wakeup` resumes a coroutine in `wait_for_response`. -/
  | resume (co : Nat)

open Channel

variable [DecidableEq S]

def step (s : Channel S V) : Label S V → Option (Channel S V)
  | .connect => if s.sock = none then some s.connectOnce else none
  | .start d =>
    match s.dispatchers d with
    | .looping => some (s.dispatchBySession d)
    | _ => none
  | .request co session write =>
    match s.sock with
    | some c =>
      if s.waiters.waiting co = none ∧ co ∉ s.closing then
        match write, session with
        | true, some session =>
          -- the sessions of the requests that wait are distinct
          if session ∈ s.thread.map Prod.fst then none else some (s.written c co session)
        | true, none => some s
        | false, _ => some { s with sock := none, closing := s.closing ++ [co] }
      else none
    | none => none
  | .failed co => if co ∈ s.closing then some (wakeupAll { s with closing := s.closing.erase co } none) else none
  | .finish d (.ok (session, o)) =>
    match s.dispatchers d with
    | .reading => some ((s.responded session o).dispatchBySession d)
    | _ => none
  | .finish d (.error errmsg) =>
    match s.dispatchers d with
    | .reading => some { s.setPhase d (.closing errmsg) with sock := none }
    | _ => none
  | .closed d =>
    match s.dispatchers d with
    | .closing errmsg => some ((s.wakeupAll errmsg).dispatchBySession d)
    | _ => none
  | .resume co =>
    match s.waiters.collect co with
    | some w => some { s with waiters := w }
    | none => none

/-! ### What was heard for a request -/

/-- The responses to a request since it was written, up to the last part. -/
structure Heard (S V : Type) where
  session : S
  conn : Nat
  parts : List (Outcome V)
  complete : Bool

/-- A part with more to come. -/
def more (o : Outcome V) : Bool := o.padding && o.resultOk

def hear (num : Nat) : Option (Heard S V) → Event S V → Option (Heard S V)
  | none, .request n session conn => if n = num then some ⟨session, conn, [], false⟩ else none
  | some h, .response session o =>
    if h.session = session ∧ h.complete = false then
      some { h with parts := h.parts ++ [o], complete := !more o }
    else some h
  | h, _ => h

def heard (log : List (Event S V)) (num : Nat) : Option (Heard S V) := log.foldl (hear num) none

/-- The data of a response: the value if it came in one part, else the values of all parts in their order. -/
def gather (os : List (Outcome V)) (o : Outcome V) : Option (Data V) :=
  if os = [] then o.resultData.map .one else some (.parts ((os ++ [o]).filterMap Outcome.resultData))

/-- All parts of the response to `num` were heard, the last one has `result_ok`, and `data` is what they hold. -/
def Answered (log : List (Event S V)) (num : Nat) (data : Option (Data V)) : Prop :=
  ∃ h os o, heard log num = some h ∧ h.complete = true ∧ h.parts = os ++ [o] ∧ (∀ o' ∈ os, more o' = true) ∧
    o.resultOk = true ∧ more o = false ∧ data = gather os o

/-- A `wakeup_all` is still to come. -/
def Channel.WakeupDue (s : Channel S V) : Prop := s.closing ≠ [] ∨ ∃ d errmsg, s.dispatchers d = .closing errmsg

def Phase.Live : Phase V → Prop
  | .absent => False
  | .exited => False
  | _ => True

/-- A request in `__thread`: no last part was heard, and it will be woken, by the dispatcher of its connection or
by a `wakeup_all`. -/
structure Channel.Awaits (s : Channel S V) (co num : Nat) : Prop where
  asleep : s.waiters.woken co = false ∧ s.waiters.result co = none
  heard : ∃ h, heard s.log num = some h ∧ h.complete = false ∧ (h.session, co) ∈ s.thread ∧
    (s.WakeupDue ∨ s.sock = some h.conn ∧ (s.dispatchers h.conn).Live)

structure Correct (s : Channel S V) : Prop where
  /-- A coroutine that waits is in `__thread`, or it is woken and has its result. -/
  waiting : ∀ co num, s.waiters.waiting co = some num →
    s.Awaits co num ∨ s.waiters.woken co = true ∧ s.waiters.result co ≠ none ∧ ∀ session, (session, co) ∉ s.thread
  returned : ∀ num data, (num, Reply.returned data) ∈ s.waiters.replies → Answered s.log num data
  /-- A request has one reply, and none while it waits. -/
  once : (s.waiters.replies.map Prod.fst).Nodup ∧
    ∀ co num, s.waiters.waiting co = some num → num ∉ s.waiters.replies.map Prod.fst
  clean : ∀ co, s.waiters.waiting co = none →
    (∀ session, (session, co) ∉ s.thread) ∧ s.waiters.result co = none ∧ s.waiters.resultData co = none

/-! ### The log -/

section Log

variable {log : List (Event S V)} {num : Nat} {h : Heard S V}

theorem heard_append (e : Event S V) : heard (log ++ [e]) num = hear num (heard log num) e := by
  rw [heard, List.foldl_append, heard]; rfl

theorem heard_request (hh : heard log num = some h) (n : Nat) (session : S) (c : Nat) :
    heard (log ++ [.request n session c]) num = some h := by
  rw [heard_append, hh]; rfl

/-- A response to another session, or after the last part. -/
theorem heard_response_other (hh : heard log num = some h) {session : S} (o : Outcome V)
    (hne : h.session = session → h.complete = true) : heard (log ++ [.response session o]) num = some h := by
  rw [heard_append, hh, hear, if_neg]
  rintro ⟨hs, hc⟩
  rw [hne hs] at hc
  cases hc

theorem heard_response_own (hh : heard log num = some h) (o : Outcome V) (hc : h.complete = false) :
    heard (log ++ [.response h.session o]) num = some { h with parts := h.parts ++ [o], complete := !more o } := by
  rw [heard_append, hh, hear, if_pos ⟨rfl, hc⟩]

/-- Nothing is heard of a request before it is written. -/
theorem heard_fresh (hh : heard log num = none) {e : Event S V} (he : ∀ session c, e ≠ .request num session c) :
    heard (log ++ [e]) num = none := by
  rw [heard_append, hh]
  cases e with
  | request n session c =>
    rw [hear, if_neg]
    rintro rfl
    exact he session c rfl
  | response session o => rfl

/-- An answer stays as it is. -/
theorem Answered.append {data : Option (Data V)} (ha : Answered log num data) (e : Event S V) :
    Answered (log ++ [e]) num data := by
  obtain ⟨h, os, o, hh, hc, hrest⟩ := ha
  refine ⟨h, os, o, ?_, hc, hrest⟩
  cases e with
  | request n session c => exact heard_request hh n session c
  | response session o => exact heard_response_other hh o fun _ => hc

end Log

/-! ### The invariant -/

/-- The entry of `__result_data` after the parts `os` with more to come. -/
def stored (os : List (Outcome V)) : Option (Data V) :=
  if os = [] then none else some (.parts (os.filterMap Outcome.resultData))

theorem filterMap_singleton_toList (o : Outcome V) : [o].filterMap Outcome.resultData = o.resultData.toList := by
  cases h : o.resultData with
  | none => rw [List.filterMap_cons_none h]; rfl
  | some v => rw [List.filterMap_cons_some h]; rfl

theorem stored_append (os : List (Outcome V)) (o : Outcome V) :
    some (Waiters.insertPart (stored os) o.resultData) = stored (os ++ [o]) := by
  have hne : os ++ [o] ≠ [] := List.concat_ne_nil o os
  rw [stored, stored, if_neg hne, List.filterMap_append, filterMap_singleton_toList]
  split
  · rename_i hnil
    rw [hnil]; rfl
  · rfl

/-- The last part joins those before it. -/
theorem stored_last (os : List (Outcome V)) (o : Outcome V) :
    (if true = true ∧ (stored os).isSome = true then some (Waiters.insertPart (stored os) o.resultData)
      else o.resultData.map .one) = gather os o := by
  have hne : os ++ [o] ≠ [] := List.concat_ne_nil o os
  rw [stored_append, gather, stored, stored, if_neg hne]
  by_cases hnil : os = []
  · rw [if_pos hnil, if_pos hnil]; rfl
  · rw [if_neg hnil, if_neg hnil]; rfl

/-- The parts of a request in `__thread`. -/
structure Partway (log : List (Event S V)) (num : Nat) (session : S) (data : Option (Data V)) (h : Heard S V) :
    Prop where
  heard : heard log num = some h
  session : h.session = session
  incomplete : h.complete = false
  more : ∀ o ∈ h.parts, more o = true
  data : data = stored h.parts

structure Ok (s : Channel S V) : Prop where
  keys : (s.thread.map Prod.fst).Nodup
  cos : (s.thread.map Prod.snd).Nodup
  threads : ∀ session co, (session, co) ∈ s.thread → ∃ num h, s.waiters.Pending co num ∧
    Partway s.log num session (s.waiters.resultData co) h ∧ (s.WakeupDue ∨ s.sock = some h.conn)
  woken : ∀ co num, s.waiters.waiting co = some num →
    (∃ session, (session, co) ∈ s.thread) ∨ s.waiters.woken co = true ∧ s.waiters.result co ≠ none
  fresh : ∀ num, s.nums ≤ num → heard s.log num = none
  absent : ∀ d, s.conns ≤ d → s.dispatchers d = .absent
  opened : ∀ c, s.sock = some c → (s.dispatchers c).Live
  sound : s.waiters.Sound (Answered s.log)
  once : s.waiters.Once s.nums

theorem ok_init : Ok (init : Channel S V) where
  keys := List.nodup_nil
  cos := List.nodup_nil
  threads := nofun
  woken := nofun
  fresh := fun _ _ => rfl
  absent := fun _ _ => rfl
  opened := nofun
  sound := Waiters.sound_init
  once := Waiters.once_init

section Ok

variable {s : Channel S V} {d : Nat}

omit [DecidableEq S] in
theorem setPhase_apply (s : Channel S V) (d : Nat) (p : Phase V) (d' : Nat) :
    (s.setPhase d p).dispatchers d' = if d' = d then p else s.dispatchers d' := Function.update_apply ..

/-- A dispatcher moves on. If it was in `close_channel_socket`, no request waits. -/
theorem Ok.setPhase (ok : Ok s) (hd : s.dispatchers d ≠ .absent) {p : Phase V} (hlive : s.sock ≠ none → p.Live)
    (hdue : (∀ errmsg, s.dispatchers d ≠ .closing errmsg) ∨ s.thread = []) : Ok (s.setPhase d p) := by
  refine ⟨ok.keys, ok.cos, ?_, ok.woken, ok.fresh, ?_, ?_, ok.sound, ok.once⟩
  · intro session co hm
    rcases hdue with hdue | hnil
    · obtain ⟨num, h, hp, hpart, hwake⟩ := ok.threads session co hm
      refine ⟨num, h, hp, hpart, hwake.imp_left ?_⟩
      rintro (hc | ⟨d', errmsg, hd'⟩)
      · exact .inl hc
      · refine .inr ⟨d', errmsg, ?_⟩
        rw [setPhase_apply, if_neg, hd']
        rintro rfl
        exact hdue errmsg hd'
    · rw [show (s.setPhase d p).thread = [] from hnil] at hm
      cases hm
  · intro d' hd'
    rw [setPhase_apply, if_neg]
    · exact ok.absent d' hd'
    · rintro rfl
      exact hd (ok.absent d' hd')
  · intro c hc
    rw [setPhase_apply]
    split
    · exact hlive (by rw [show s.sock = some c from hc]; nofun)
    · exact ok.opened c hc

theorem Ok.dispatchBySession (ok : Ok s) (hd : s.dispatchers d ≠ .absent)
    (hdue : (∀ errmsg, s.dispatchers d ≠ .closing errmsg) ∨ s.thread = []) : Ok (s.dispatchBySession d) := by
  simp only [Channel.dispatchBySession]
  split
  · exact ok.setPhase hd (fun _ => trivial) hdue
  · rename_i hsock
    exact ok.setPhase hd (fun h => absurd hsock h) hdue

/-- All requests in `__thread` are woken. -/
theorem Ok.wakeupAll (ok : Ok s) (closing : List Nat) (errmsg : Option V) :
    Ok (Channel.wakeupAll { s with closing := closing } errmsg) := by
  have hwaiting : ∀ co ∈ s.thread.map Prod.snd, s.waiters.waiting co ≠ none := by
    intro co hco
    obtain ⟨⟨session, co⟩, hm, rfl⟩ := List.mem_map.mp hco
    obtain ⟨num, h, hp, -⟩ := ok.threads session co hm
    rw [hp.waiting]
    nofun
  refine ⟨List.nodup_nil, List.nodup_nil, nofun, ?_, ok.fresh, ok.absent, ok.opened, ok.sound.failAll errmsg hwaiting,
    ok.once.congr (Waiters.failAll_waiting ..) (Waiters.failAll_replies ..)⟩
  intro co num hw
  refine .inr ?_
  have hold : s.waiters.waiting co = some num := by
    rw [← Waiters.failAll_waiting errmsg (s.thread.map Prod.snd)]; exact hw
  by_cases hmem : co ∈ s.thread.map Prod.snd
  · exact Waiters.failAll_woken errmsg hmem (hwaiting co hmem)
  · have hsame : s.waiters.SameAt (s.waiters.failAll errmsg (s.thread.map Prod.snd)) co := Waiters.failAll_same errmsg hmem
    rcases ok.woken co num hold with ⟨session, hm⟩ | hwoken
    · exact absurd (List.mem_map_of_mem hm) hmem
    · exact ⟨hsame.woken.trans hwoken.1, by
        rw [show (Channel.wakeupAll { s with closing := closing } errmsg).waiters.result co = _ from hsame.result]
        exact hwoken.2⟩

theorem Ok.connectOnce (ok : Ok s) (hsock : s.sock = none) : Ok s.connectOnce := by
  have hphase : ∀ d, s.connectOnce.dispatchers d = if d = s.conns then .looping else s.dispatchers d :=
    fun d => setPhase_apply ..
  refine ⟨ok.keys, ok.cos, ?_, ok.woken, ok.fresh, ?_, ?_, ok.sound, ok.once⟩
  · intro session co hm
    obtain ⟨num, h, hp, hpart, hwake⟩ := ok.threads session co hm
    refine ⟨num, h, hp, hpart, .inl ?_⟩
    rcases hwake with (hc | ⟨d, errmsg, hd⟩) | hopen
    · exact .inl hc
    · refine .inr ⟨d, errmsg, ?_⟩
      rw [hphase, if_neg, hd]
      rintro rfl
      rw [ok.absent _ (Nat.le_refl _)] at hd
      cases hd
    · rw [hsock] at hopen
      cases hopen
  · intro d hd
    have hlt : s.conns < d := hd
    rw [hphase, if_neg (Nat.ne_of_gt hlt)]
    exact ok.absent d (Nat.le_of_lt hlt)
  · intro c hc
    cases hc
    rw [hphase, if_pos rfl]
    trivial

/-- A request that is written to the open socket. -/
theorem Ok.written (ok : Ok s) {c co : Nat} {session : S} (hsock : s.sock = some c) (hco : s.waiters.waiting co = none)
    (hnew : session ∉ s.thread.map Prod.fst) : Ok (s.written c co session) := by
  have hidle := ok.sound.idle co hco
  have hne : ∀ session' co', (session', co') ∈ s.thread → co' ≠ co := by
    rintro session' co' hm rfl
    obtain ⟨num, h, hp, -⟩ := ok.threads session' _ hm
    rw [hp.waiting] at hco
    cases hco
  refine ⟨List.nodup_cons.mpr ⟨hnew, ok.keys⟩, ?_, ?_, ?_, ?_, ok.absent, ok.opened, ?_, ok.once.wait⟩
  · refine List.nodup_cons.mpr ⟨?_, ok.cos⟩
    intro hm
    obtain ⟨⟨session', co'⟩, hm, he⟩ := List.mem_map.mp hm
    exact hne session' co' hm he
  · intro session' co' hm
    rcases List.mem_cons.mp hm with he | hm
    · cases he
      refine ⟨s.nums, ⟨session, c, [], false⟩, ⟨Function.update_self .., hidle.1, hidle.2.1⟩, ?_, .inr hsock⟩
      refine ⟨?_, rfl, rfl, nofun, hidle.2.2⟩
      simp only [Channel.written, heard_append, ok.fresh s.nums (Nat.le_refl _), hear, if_pos]
    · obtain ⟨num, h, hp, hpart, hwake⟩ := ok.threads session' co' hm
      have hsame : s.waiters.SameAt (s.waiters.wait co s.nums) co' := Waiters.wait_same (hne session' co' hm)
      refine ⟨num, h, hsame.pending hp, ?_, hwake⟩
      exact ⟨heard_request hpart.heard .., hpart.session, hpart.incomplete, hpart.more, hsame.resultData.trans hpart.data⟩
  · intro co' num hw
    by_cases he : co' = co
    · subst he
      exact .inl ⟨session, List.mem_cons_self ..⟩
    · have hsame : s.waiters.SameAt (s.waiters.wait co s.nums) co' := Waiters.wait_same he
      rcases ok.woken co' num (hsame.waiting ▸ hw) with ⟨session', hm⟩ | hwoken
      · exact .inl ⟨session', List.mem_cons_of_mem _ hm⟩
      · exact .inr ⟨hsame.woken.trans hwoken.1, fun h => hwoken.2 (hsame.result ▸ h)⟩
  · intro num hn
    have hlt : s.nums < num := hn
    refine heard_fresh (ok.fresh num (Nat.le_of_lt hlt)) ?_
    intro session' c' he
    cases he
    exact Nat.lt_irrefl _ hlt
  · exact (ok.sound.wait hco).mono fun num data h => h.append _

/-- A coroutine takes its entries. -/
theorem Ok.resume (ok : Ok s) {co : Nat} {w : Waiters V} (hw : s.waiters.collect co = some w) :
    Ok { s with waiters := w } := by
  obtain ⟨num, hwait, hwoken, hnone, -, hsame, -⟩ := Waiters.collect_some hw
  refine ⟨ok.keys, ok.cos, ?_, ?_, ok.fresh, ok.absent, ok.opened, ok.sound.collect hw, ok.once.collect hw⟩
  · intro session co' hm
    obtain ⟨num', h, hp, hpart, hwake⟩ := ok.threads session co' hm
    have hne : co' ≠ co := by
      rintro rfl
      rw [hp.woken] at hwoken
      cases hwoken
    refine ⟨num', h, (hsame co' hne).pending hp, ?_, hwake⟩
    exact ⟨hpart.heard, hpart.session, hpart.incomplete, hpart.more, (hsame co' hne).resultData.trans hpart.data⟩
  · intro co' num' hw'
    have hne : co' ≠ co := by
      rintro rfl
      rw [hnone] at hw'
      cases hw'
    have hs := hsame co' hne
    rcases ok.woken co' num' (hs.waiting ▸ hw') with hm | h
    · exact .inl hm
    · exact .inr ⟨hs.woken.trans h.1, fun he => h.2 (hs.result ▸ he)⟩

/-- The log grows by a response; what else changes is about the request that it is for. -/
theorem Ok.response_other (ok : Ok s) {session : S} {o : Outcome V} {session' : S} {co' : Nat} {w : Waiters V}
    (hm : (session', co') ∈ s.thread) (hne : session' ≠ session) (hsame : s.waiters.SameAt w co') :
    ∃ num h, w.Pending co' num ∧ Partway (s.log ++ [.response session o]) num session' (w.resultData co') h ∧
      (s.WakeupDue ∨ s.sock = some h.conn) := by
  obtain ⟨num, h, hp, hpart, hwake⟩ := ok.threads session' co' hm
  refine ⟨num, h, hsame.pending hp, ?_, hwake⟩
  refine ⟨heard_response_other hpart.heard o ?_, hpart.session, hpart.incomplete, hpart.more,
    hsame.resultData.trans hpart.data⟩
  intro he
  exact absurd (hpart.session.symm.trans he) hne

theorem Ok.responded (ok : Ok s) (session : S) (o : Outcome V) : Ok (s.responded session o) := by
  have hfresh : ∀ num, s.nums ≤ num → heard (s.log ++ [.response session o]) num = none :=
    fun num hn => heard_fresh (ok.fresh num hn) nofun
  have hanswered : ∀ num data, Answered s.log num data → Answered (s.log ++ [.response session o]) num data :=
    fun _ _ h => h.append _
  simp only [Channel.responded]
  split
  · rename_i session' co hfind
    have hm : (session', co) ∈ s.thread := List.mem_of_find?_eq_some hfind
    obtain rfl : session' = session := by simpa using List.find?_some hfind
    have hother : ∀ session'' co', (session'', co') ∈ s.thread → co' ≠ co → session'' ≠ session' := by
      rintro session'' co' hm' hne rfl
      exact hne (Prod.mk.inj (List.inj_on_of_nodup_map ok.keys hm' hm rfl)).2
    have hsession : ∀ session'' co', (session'', co') ∈ s.thread → session'' ≠ session' → co' ≠ co := by
      rintro session'' co' hm' hne rfl
      exact hne (Prod.mk.inj (List.inj_on_of_nodup_map ok.cos hm' hm rfl)).1
    obtain ⟨num, h, hp, hpart, hwake⟩ := ok.threads session' co hm
    have hown := heard_response_own hpart.heard o hpart.incomplete
    rw [hpart.session] at hown
    split
    · rename_i hmore
      have hmore' : more o = true := by rw [more, hmore.1, hmore.2]; rfl
      refine ⟨ok.keys, ok.cos, ?_, ok.woken, hfresh, ok.absent, ok.opened, (ok.sound.mono hanswered).append hp _,
        ok.once.congr rfl rfl⟩
      intro session'' co' hm'
      by_cases he : co' = co
      · subst he
        obtain rfl : session'' = session' := (Prod.mk.inj (List.inj_on_of_nodup_map ok.cos hm' hm rfl)).1
        refine ⟨num, _, ⟨hp.waiting, hp.woken, hp.result⟩, ⟨hown, rfl, ?_, ?_, ?_⟩, hwake⟩
        · rw [hmore']; rfl
        · intro o' ho'
          rcases List.mem_append.mp ho' with ho' | ho'
          · exact hpart.more o' ho'
          · rw [List.mem_singleton.mp ho']; exact hmore'
        · rw [← stored_append, ← hpart.data]
          exact Function.update_self ..
      · exact ok.response_other hm' (hother _ _ hm' he) (Waiters.append_same _ he)
    · rename_i hmore
      have hmore' : more o = false := by
        rw [more, Bool.and_eq_false_iff]
        rw [not_and_or, Bool.not_eq_true, Bool.not_eq_true] at hmore
        exact hmore
      have hsub : (s.thread.filter fun p => p.1 ≠ session').Sublist s.thread := List.filter_sublist
      refine ⟨ok.keys.sublist (hsub.map _), ok.cos.sublist (hsub.map _), ?_, ?_, hfresh, ok.absent, ok.opened, ?_,
        ok.once.congr (Waiters.settle_waiting ..) (Waiters.settle_replies ..)⟩
      · intro session'' co' hm'
        obtain ⟨hm', hne⟩ := List.mem_filter.mp hm'
        have hne' : session'' ≠ session' := by simpa using hne
        exact ok.response_other hm' hne' (Waiters.settle_same _ _ (hsession _ _ hm' hne'))
      · intro co' num' hw
        by_cases he : co' = co
        · subst he
          exact .inr (Waiters.put_wakeup_woken _ _ (by rw [hp.waiting]; nofun))
        · have hsame : s.waiters.SameAt (s.waiters.settle co o.resultOk o.resultData) co' := Waiters.settle_same _ _ he
          rcases ok.woken co' num' (hsame.waiting ▸ hw) with ⟨session'', hm'⟩ | h
          · refine .inl ⟨session'', List.mem_filter.mpr ⟨hm', ?_⟩⟩
            simpa using hother _ _ hm' he
          · exact .inr ⟨hsame.woken.trans h.1, fun hr => h.2 (hsame.result ▸ hr)⟩
      · refine (ok.sound.mono hanswered).settle hp ?_
        intro hok
        refine ⟨_, h.parts, o, hown, ?_, rfl, hpart.more, hok, hmore', ?_⟩
        · rw [hmore']; rfl
        · rw [Waiters.settle_resultData, hok, hpart.data, stored_last]
  · rename_i hfind
    refine ⟨ok.keys, ok.cos, ?_, ok.woken, hfresh, ok.absent, ok.opened, ok.sound.mono hanswered, ok.once⟩
    intro session' co' hm
    refine ok.response_other hm ?_ Waiters.SameAt.refl
    rintro rfl
    simpa using List.find?_eq_none.mp hfind _ hm

end Ok

/-! ### Runs -/

theorem ok_step {s s' : Channel S V} {a : Label S V} (ok : Ok s) (h : step s a = some s') : Ok s' := by
  cases a with
  | connect =>
    simp only [step] at h
    split at h
    · rename_i hsock
      cases h
      exact ok.connectOnce hsock
    · cases h
  | start d =>
    simp only [step] at h
    split at h
    · rename_i hloop
      cases h
      exact ok.dispatchBySession (by rw [hloop]; nofun) (.inl (by rw [hloop]; nofun))
    · cases h
  | request co session write =>
    simp only [step] at h
    split at h
    · rename_i c hsock
      split at h
      · rename_i hco
        split at h
        · split at h
          · cases h
          · rename_i hnew
            cases h
            exact ok.written hsock hco.1 hnew
        · cases h; exact ok
        · cases h
          refine ⟨ok.keys, ok.cos, ?_, ok.woken, ok.fresh, ok.absent, nofun, ok.sound, ok.once⟩
          intro session co' hm
          obtain ⟨num, hh, hp, hpart, -⟩ := ok.threads session co' hm
          exact ⟨num, hh, hp, hpart, .inl (.inl (List.concat_ne_nil co s.closing))⟩
      · cases h
    · cases h
  | failed co =>
    simp only [step] at h
    split at h
    · cases h
      exact ok.wakeupAll _ none
    · cases h
  | finish d r =>
    cases r with
    | ok r =>
      obtain ⟨session, o⟩ := r
      simp only [step] at h
      split at h
      · rename_i hread
        cases h
        have hphase : (s.responded session o).dispatchers d = .reading := by
          rw [← hread]
          simp only [responded]
          split
          · split <;> rfl
          · rfl
        exact (ok.responded session o).dispatchBySession (by rw [hphase]; nofun) (.inl (by rw [hphase]; nofun))
      · cases h
    | error errmsg =>
      simp only [step] at h
      split at h
      · rename_i hread
        cases h
        have hd : s.dispatchers d ≠ .absent := by rw [hread]; nofun
        have hclosing := ok.setPhase (p := .closing errmsg) hd (fun _ => trivial) (.inl (by rw [hread]; nofun))
        refine ⟨ok.keys, ok.cos, ?_, ok.woken, ok.fresh, hclosing.absent, nofun, ok.sound, ok.once⟩
        intro session co hm
        obtain ⟨num, hh, hp, hpart, -⟩ := ok.threads session co hm
        exact ⟨num, hh, hp, hpart, .inl (.inr ⟨d, errmsg, Function.update_self ..⟩)⟩
      · cases h
  | closed d =>
    simp only [step] at h
    split at h
    · rename_i errmsg hclosing
      cases h
      refine (ok.wakeupAll s.closing errmsg).dispatchBySession ?_ (.inr rfl)
      rw [show (wakeupAll { s with closing := s.closing } errmsg).dispatchers d = _ from hclosing]
      nofun
    · cases h
  | resume co =>
    simp only [step] at h
    split at h
    · rename_i w hw
      cases h
      exact ok.resume hw
    · cases h

theorem Ok.correct {s : Channel S V} (ok : Ok s) : Correct s where
  waiting := by
    intro co num hw
    by_cases hm : ∃ session, (session, co) ∈ s.thread
    · obtain ⟨session, hm⟩ := hm
      obtain ⟨num', h, hp, hpart, hwake⟩ := ok.threads session co hm
      obtain rfl : num' = num := Option.some.inj (hp.waiting.symm.trans hw)
      refine .inl ⟨⟨hp.woken, hp.result⟩, h, hpart.heard, hpart.incomplete, hpart.session ▸ hm, ?_⟩
      rcases hwake with hdue | hopen
      · exact .inl hdue
      · exact .inr ⟨hopen, ok.opened _ hopen⟩
    · obtain ⟨h1, h2⟩ := (ok.woken co num hw).resolve_left hm
      exact .inr ⟨h1, h2, fun session hmem => hm ⟨session, hmem⟩⟩
  returned := ok.sound.replies
  once := ⟨ok.once.nodup, fun co num hw => (ok.once.waiting co num hw).2⟩
  clean := by
    intro co hw
    obtain ⟨-, h1, h2⟩ := ok.sound.idle co hw
    refine ⟨?_, h1, h2⟩
    intro session hm
    obtain ⟨num, h, hp, -⟩ := ok.threads session co hm
    rw [hp.waiting] at hw
    cases hw

/-- Every run: requests with any sessions that are distinct while they wait, responses in any order and in any
number of parts, failed writes, failed reads and reconnects. -/
theorem session_correct {s : Channel S V} {as : List (Label S V)} (hrun : Lts.run step init as = some s) : Correct s :=
  (Lts.run_invariant (fun _ _ _ ok h => ok_step ok h) hrun ok_init).correct

/-- Two requests whose parts come interleaved, and one that is dropped when the socket is closed. -/
def interleaved : List (Label Nat Nat) :=
  [.connect, .start 0, .request 7 (some 1) true, .request 8 (some 2) true, .request 9 (some 3) true,
    .finish 0 (.ok (2, ⟨true, some 20, true⟩)), .finish 0 (.ok (1, ⟨true, some 10, false⟩)),
    .finish 0 (.ok (2, ⟨true, some 21, false⟩)), .finish 0 (.error none), .resume 8, .closed 0, .resume 7, .resume 9]

theorem session_correct_interleaved : ∃ s, Lts.run step init interleaved = some s ∧
    s.waiters.replies = [(1, .returned (some (.parts [20, 21]))), (0, .returned (some (.one 10))), (2, .socketError)] ∧
    Correct s := by
  obtain ⟨s, hrun, hreplies⟩ : ∃ s, Lts.run step init interleaved = some s ∧
    s.waiters.replies = [(1, .returned (some (.parts [20, 21]))), (0, .returned (some (.one 10))), (2, .socketError)] :=
    ⟨_, rfl, rfl⟩
  exact ⟨s, hrun, hreplies, session_correct hrun⟩

end Session
end SocketChannel
end Skynet
