import Mathlib.Data.List.Basic
import Mathlib.Data.List.Infix
import Mathlib.Data.List.Nodup
import Skynet.Lib.Run
import Skynet.SocketChannel.Waiters

/-!
# Skynet.SocketChannel.Order

A channel in order mode (`lualib/socketchannel.lua` with no `response` in the descriptor): the requests
queue their response functions, and a dispatch coroutine calls them one after the other on the socket.

A label is what one coroutine does between two yields, with the answers of the network: whether a write
succeeds, and what a response function returns. The coroutine that `connect_once` forks for the
connection `d` is the dispatcher `d`. `writes` and `calls` record, for each connection, the requests that
were written to it for a response and the response functions that returned on it.

* `Correct` : one dispatcher takes responses, and each request that returns has what its own response
  function returned at its place on its own connection.
* `responses_in_order` : so it is in every run that connects only when nothing of an earlier connection is left.
* `dispatchers_collide` : a dispatcher that waits for a request outlives its connection.
-/

namespace Skynet
namespace SocketChannel

variable {V : Type}

namespace Order

/-- A request in `__request` and `__thread`. -/
structure Entry where
  co : Nat
  num : Nat
deriving Repr, DecidableEq

inductive Phase (V : Type)
  /-- Not forked. -/
  | absent
  /-- At the head of the loop. -/
  | looping
  /-- In the `skynet.wait` of `pop_response`. -/
  | parked (woken : Bool)
  /-- In a response function, which was called with the socket `so`. -/
  | running (e : Entry) (so : Option Nat)
  /-- In `close_channel_socket`, after the response function has failed. -/
  | closing (e : Entry) (errmsg : Option V)
  | exited
deriving Repr, DecidableEq

structure Channel (V : Type) where
  sock : Option Nat
  closed : Bool
  /-- `__request` with `__thread`; `none` is the close signal. -/
  request : List (Option Entry)
  waitResponse : Option Nat
  dispatchThread : Option Nat
  /-- The coroutine in the `skynet.wait` of `channel:connect`, and whether it is woken. -/
  connectingThread : Option Bool
  dispatchers : Nat → Phase V
  /-- The coroutines whose write failed, in `close_channel_socket`. -/
  closing : List Nat
  /-- The calls of `channel:close` in `close_channel_socket`, with the dispatch thread they found. -/
  signals : List Nat
  waiters : Waiters V
  conns : Nat
  nums : Nat
  writes : Nat → List Nat
  calls : Nat → List (Nat × Outcome V)

namespace Channel

def init : Channel V :=
  { sock := none, closed := false, request := [], waitResponse := none, dispatchThread := none
    connectingThread := none, dispatchers := fun _ => .absent, closing := [], signals := []
    waiters := Waiters.init, conns := 0, nums := 0, writes := fun _ => [], calls := fun _ => [] }

def setPhase (s : Channel V) (d : Nat) (p : Phase V) : Channel V :=
  { s with dispatchers := Function.update s.dispatchers d p }

/-- `skynet.wakeup` of a dispatcher. -/
def wakeupDispatcher (s : Channel V) (d : Nat) : Channel V :=
  match s.dispatchers d with
  | .parked _ => s.setPhase d (.parked true)
  | _ => s

def wakeupAll (s : Channel V) (errmsg : Option V) : Channel V :=
  { s with request := [], waiters := s.waiters.failAll errmsg ((s.request.filterMap id).map Entry.co) }

/-- `exit_thread`, and the end of the dispatcher. -/
def exitThread (s : Channel V) (d : Nat) : Channel V :=
  if s.dispatchThread = some d then
    { s.setPhase d .exited with dispatchThread := none, connectingThread := s.connectingThread.map fun _ => true }
  else s.setPhase d .exited

/-- `pop_response` in the dispatcher, up to the next yield. -/
def popResponse (s : Channel V) (d : Nat) : Channel V :=
  match s.request with
  | [] => { s.setPhase d (.parked false) with waitResponse := some d }
  | some e :: rest => { s.setPhase d (.running e s.sock) with request := rest }
  | none :: rest => (wakeupAll { s with request := rest } none).exitThread d

/-- `dispatch_by_order` from the head of its loop, up to the next yield. -/
def dispatchByOrder (s : Channel V) (d : Nat) : Channel V :=
  match s.sock with
  | some _ => s.popResponse d
  | none => s.exitThread d

/-- The dispatcher in `__wait_response` is woken. -/
def wakeupWaiter (s : Channel V) : Channel V :=
  match s.waitResponse with
  | some d => { s.wakeupDispatcher d with waitResponse := none }
  | none => s

def pushResponse (s : Channel V) (e : Option Entry) : Channel V :=
  wakeupWaiter { s with request := s.request ++ [e] }

/-- `connect_once`, when the socket is open. -/
def connectOnce (s : Channel V) : Channel V :=
  { s.setPhase s.conns .looping with
    sock := some s.conns, dispatchThread := some s.conns, conns := s.conns + 1 }

/-- A request that was written to the connection `c`. -/
def written (s : Channel V) (c co : Nat) : Channel V :=
  pushResponse
    { s with
      writes := Function.update s.writes c (s.writes c ++ [s.nums])
      waiters := s.waiters.wait co s.nums
      nums := s.nums + 1 } (some ⟨co, s.nums⟩)

/-- The result of the response function of `e`, on the connection `c`. -/
def settled (s : Channel V) (c : Nat) (e : Entry) (o : Outcome V) : Channel V :=
  { s with
    calls := Function.update s.calls c (s.calls c ++ [(e.num, o)])
    waiters :=
      if o.padding ∧ o.resultOk then s.waiters.append e.co o.resultData
      else s.waiters.settle e.co o.resultOk o.resultData }

/-- `channel:close`, up to its yield. -/
def close (s : Channel V) : Channel V :=
  if s.closed then s
  else { s with closed := true, sock := none, signals := s.signals ++ s.dispatchThread.toList }

/-- The close signal of `channel:close`, if the dispatch thread is still the same. -/
def signal (s : Channel V) (d : Nat) : Channel V :=
  if s.dispatchThread = some d then pushResponse { s with signals := s.signals.erase d } none
  else { s with signals := s.signals.erase d }

end Channel

inductive Label (V : Type)
  /-- A socket is open, in `connect_once`. -/
  | connect
  /-- The first run of the coroutine that was forked. -/
  | start (d : Nat)
  /-- `channel:request` on an open socket: with a response function or without one, and whether the
  write succeeds. -/
  | request (co : Nat) (response write : Bool)
  /-- The end of a request whose write failed, after `close_channel_socket`. -/
  | failed (co : Nat)
  /-- `dispatch_wakeup` resumes a dispatcher. -/
  | wake (d : Nat)
  /-- A response function ends; `error none` is `socket_error`. -/
  | finish (d : Nat) (o : Except (Option V) (Outcome V))
  /-- The dispatcher goes on after `close_channel_socket`. -/
  | closed (d : Nat)
  /-- `dispatch_wakeup` resumes a coroutine in `wait_for_response`. -/
  | resume (co : Nat)
  | changehost
  | close
  /-- The end of `channel:close`. -/
  | signal (d : Nat)
  /-- `channel:connect` on a closed channel. -/
  | reopen
  /-- `dispatch_wakeup` resumes the coroutine in `channel:connect`. -/
  | reopened

open Channel

def step (s : Channel V) : Label V → Option (Channel V)
  | .connect => if s.sock = none ∧ s.closed = false then some s.connectOnce else none
  | .start d =>
    match s.dispatchers d with
    | .looping => some (s.dispatchByOrder d)
    | _ => none
  | .request co response write =>
    match s.sock with
    | some c =>
      if s.waiters.waiting co = none ∧ co ∉ s.closing then
        match write, response with
        | true, true => some (s.written c co)
        | true, false => some { s with nums := s.nums + 1 }
        | false, _ => some { s with sock := none, closing := s.closing ++ [co], nums := s.nums + 1 }
      else none
    | none => none
  | .failed co => if co ∈ s.closing then some (wakeupAll { s with closing := s.closing.erase co } none) else none
  | .wake d =>
    match s.dispatchers d with
    | .parked true => some (s.popResponse d)
    | _ => none
  | .finish d (.ok o) =>
    match s.dispatchers d with
    -- a response function that is called with no socket has nothing to read, and fails
    | .running e (some c) => some (((s.settled c e o).setPhase d .looping).dispatchByOrder d)
    | _ => none
  | .finish d (.error errmsg) =>
    match s.dispatchers d with
    | .running e _ => some { s.setPhase d (.closing e errmsg) with sock := none }
    | _ => none
  | .closed d =>
    match s.dispatchers d with
    | .closing e errmsg =>
      let s' := { s.setPhase d .looping with waiters := s.waiters.fail errmsg e.co }
      some ((s'.wakeupAll errmsg).dispatchByOrder d)
    | _ => none
  | .resume co =>
    match s.waiters.collect co with
    | some w => some { s with waiters := w }
    | none => none
  | .changehost => if s.closed then some s else some { s with sock := none }
  | .close => some s.close
  | .signal d => if d ∈ s.signals then some (s.signal d) else none
  | .reopen =>
    if s.closed then
      match s.dispatchThread, s.connectingThread with
      | none, _ => some { s with closed := false }
      | some _, none => some { s with connectingThread := some false }
      | some _, some _ => none
    else none
  | .reopened =>
    match s.connectingThread with
    | some true => some { s with closed := false, connectingThread := none }
    | _ => none

/-! ### The claimed behaviour -/

/-- `num` returned `data`: at its place among the writes of its connection, its own response function returned it. -/
def Answered (s : Channel V) (num : Nat) (data : Option (Data V)) : Prop :=
  ∃ (c pos : Nat) (o : Outcome V), (s.writes c)[pos]? = some num ∧ (s.calls c)[pos]? = some (num, o) ∧ o.resultOk = true ∧
    data = o.resultData.map .one

/-- The dispatcher has a response function to call, or calls it. -/
def Phase.Taking (p : Phase V) : Prop := ∃ e so, p = .running e so

structure Correct (s : Channel V) : Prop where
  single : ∀ d d', (s.dispatchers d).Taking → (s.dispatchers d').Taking → d = d'
  answered : ∀ num data, (num, Reply.returned data) ∈ s.waiters.replies → Answered s num data

/-! ### The invariant -/

def Phase.Live : Phase V → Prop
  | .absent => False
  | .exited => False
  | _ => True

/-- The request that the dispatcher has taken. -/
def Phase.pending : Phase V → List Entry
  | .running e _ => [e]
  | .closing e _ => [e]
  | _ => []

/-- The last connection. -/
def Channel.cur (s : Channel V) : Nat := s.conns - 1

/-- The requests that were written and not yet answered, in their order. -/
def Channel.outstanding (s : Channel V) : List Entry :=
  (s.dispatchers s.cur).pending ++ s.request.filterMap id

/-- The requests of the last connection: those that were called and those that are outstanding. -/
def Channel.order (s : Channel V) : List Nat := (s.calls s.cur).map Prod.fst ++ s.outstanding.map Entry.num

/-- While the socket is open. -/
structure Opened (s : Channel V) (c : Nat) : Prop where
  last : c + 1 = s.conns
  closing : s.closing = []
  failing : ∀ d e errmsg, s.dispatchers d ≠ .closing e errmsg
  request : none ∉ s.request
  signals : ∀ d ∈ s.signals, d ≠ c
  thread : s.dispatchThread = some c
  order : s.order = s.writes c

structure Ok (s : Channel V) : Prop where
  live : ∀ d, (s.dispatchers d).Live → d + 1 = s.conns
  running : ∀ d e c, s.dispatchers d = .running e (some c) → c = d
  fresh : ∀ c, s.conns ≤ c → s.writes c = [] ∧ s.calls c = []
  threads : (∀ d ∈ s.signals, d < s.conns) ∧ ∀ d, s.dispatchThread = some d → d < s.conns
  opened : ∀ c, s.sock = some c → Opened s c
  order : s.order <+: s.writes s.cur
  pending : ∀ e ∈ s.outstanding, s.waiters.Pending e.co e.num ∧ s.waiters.resultData e.co = none
  nodup : (s.outstanding.map Entry.co).Nodup
  sound : s.waiters.Sound (Answered s)

theorem ok_init : Ok (init : Channel V) where
  live := nofun
  running := nofun
  fresh := fun _ _ => ⟨rfl, rfl⟩
  threads := ⟨nofun, nofun⟩
  opened := nofun
  order := List.nil_prefix
  pending := nofun
  nodup := List.nodup_nil
  sound := Waiters.sound_init

section Ok

variable {s s' : Channel V} {d : Nat}

theorem Ok.cur_eq (ok : Ok s) (hlive : (s.dispatchers d).Live) : s.cur = d := by
  have := ok.live d hlive
  simp only [Channel.cur]
  omega

theorem setPhase_apply (s : Channel V) (d : Nat) (p : Phase V) (d' : Nat) :
    (s.setPhase d p).dispatchers d' = if d' = d then p else s.dispatchers d' := Function.update_apply ..

/-- What does not touch the requests and the dispatchers. -/
theorem Ok.frame (ok : Ok s) (hdispatchers : s'.dispatchers = s.dispatchers) (hrequest : s'.request = s.request)
    (hconns : s'.conns = s.conns) (hwrites : s'.writes = s.writes) (hcalls : s'.calls = s.calls)
    (hwaiters : s'.waiters.Sound (Answered s)) (hsame : ∀ e ∈ s.outstanding, s.waiters.SameAt s'.waiters e.co)
    (hthreads : (∀ d ∈ s'.signals, d < s.conns) ∧ ∀ d, s'.dispatchThread = some d → d < s.conns)
    (hsock : ∀ c, s'.sock = some c → s.sock = some c ∧ s'.closing = s.closing ∧ s'.signals ⊆ s.signals ∧
      s'.dispatchThread = s.dispatchThread) : Ok s' := by
  have hcur : s'.cur = s.cur := by rw [Channel.cur, hconns, Channel.cur]
  have hout : s'.outstanding = s.outstanding := by
    rw [outstanding, hcur, hdispatchers, hrequest, outstanding]
  have horder : s'.order = s.order := by
    rw [Channel.order, hcur, hcalls, hout, Channel.order]
  refine ⟨?_, ?_, ?_, ?_, ?_, ?_, ?_, ?_, ?_⟩
  · rw [hdispatchers, hconns]; exact ok.live
  · rw [hdispatchers]; exact ok.running
  · rw [hconns, hwrites, hcalls]; exact ok.fresh
  · rw [hconns]; exact hthreads
  · intro c hc
    obtain ⟨hs, hclosing, hsignals, hthread⟩ := hsock c hc
    have op := ok.opened c hs
    refine ⟨?_, ?_, ?_, ?_, ?_, ?_, ?_⟩
    · rw [hconns]; exact op.last
    · rw [hclosing]; exact op.closing
    · rw [hdispatchers]; exact op.failing
    · rw [hrequest]; exact op.request
    · exact fun d hd => op.signals d (hsignals hd)
    · rw [hthread]; exact op.thread
    · rw [horder, hwrites]; exact op.order
  · rw [horder, hcur, hwrites]; exact ok.order
  · rw [hout]
    intro e he
    obtain ⟨hp, hd⟩ := ok.pending e he
    exact ⟨(hsame e he).pending hp, (hsame e he).resultData.trans hd⟩
  · rw [hout]; exact ok.nodup
  · refine hwaiters.mono ?_
    rintro num data ⟨c, pos, o, h⟩
    exact ⟨c, pos, o, by rw [hwrites, hcalls]; exact h⟩

/-- The dispatcher moves on; the requests it has and those in the queue are together the same as before. -/
theorem Ok.advance (ok : Ok s) (hlive : (s.dispatchers d).Live) (p : Phase V) (rest : List (Option Entry))
    (wait : Option Nat)
    (hpend : p.pending ++ rest.filterMap id = (s.dispatchers d).pending ++ s.request.filterMap id)
    (hrest : none ∉ s.request → none ∉ rest) (hrun : ∀ e c, p = .running e (some c) → s.sock = some c)
    (hclosing : ∀ e errmsg, p = .closing e errmsg → s.sock = none) :
    Ok { s.setPhase d p with request := rest, waitResponse := wait } := by
  have hcur := ok.cur_eq hlive
  have hout : Channel.outstanding { s.setPhase d p with request := rest, waitResponse := wait } = s.outstanding := by
    simp only [outstanding, hcur]
    rw [show Channel.cur { s.setPhase d p with request := rest, waitResponse := wait } = d from hcur, setPhase_apply,
      if_pos rfl]
    exact hpend
  have horder : Channel.order { s.setPhase d p with request := rest, waitResponse := wait } = s.order := by
    rw [Channel.order, hout]; rfl
  refine ⟨?_, ?_, ok.fresh, ok.threads, ?_, ?_, ?_, ?_, ok.sound.mono fun _ _ h => h⟩
  · intro d' h
    rw [setPhase_apply] at h
    split at h
    · rename_i he
      subst he
      exact ok.live d' hlive
    · exact ok.live d' h
  · intro d' e c h
    rw [setPhase_apply] at h
    split at h
    · rename_i he
      subst he
      have h1 := (ok.opened c (hrun e c h)).last
      have h2 := ok.live d' hlive
      omega
    · exact ok.running d' e c h
  · intro c hc
    have op := ok.opened c hc
    refine ⟨op.last, op.closing, ?_, hrest op.request, op.signals, op.thread, horder.trans op.order⟩
    intro d' e errmsg h
    rw [setPhase_apply] at h
    split at h
    · have hnone := hclosing e errmsg h
      rw [show s.sock = some c from hc] at hnone
      cases hnone
    · exact op.failing d' e errmsg h
  · rw [horder]; exact ok.order
  · rw [hout]; exact ok.pending
  · rw [hout]; exact ok.nodup

/-- Without a socket, the dispatcher ends. -/
theorem Ok.exitThread (ok : Ok s) (hlive : (s.dispatchers d).Live) (hpend : (s.dispatchers d).pending = [])
    (hsock : s.sock = none) : Ok (s.exitThread d) := by
  have hexit : Ok (s.setPhase d .exited) :=
    ok.advance hlive .exited s.request s.waitResponse (by rw [hpend]; rfl) id nofun nofun
  simp only [Channel.exitThread]
  split
  · refine hexit.frame rfl rfl rfl rfl rfl hexit.sound (fun _ _ => Waiters.SameAt.refl) ⟨ok.threads.1, nofun⟩ ?_
    intro c hc
    rw [show s.sock = some c from hc] at hsock
    cases hsock
  · exact hexit

/-- Without a socket, the requests in the queue are dropped. -/
theorem Ok.wakeupAll (ok : Ok s) (hsock : s.sock = none) (errmsg : Option V) : Ok (s.wakeupAll errmsg) := by
  have hout : (s.wakeupAll errmsg).outstanding = (s.dispatchers s.cur).pending := List.append_nil _
  have hsub : ∀ e ∈ (s.dispatchers s.cur).pending, e ∈ s.outstanding := fun e he => List.mem_append_left _ he
  have hnodup : (((s.dispatchers s.cur).pending).map Entry.co ++ (s.request.filterMap id).map Entry.co).Nodup := by
    rw [← List.map_append]; exact ok.nodup
  have hdisj := List.disjoint_of_nodup_append hnodup
  refine ⟨ok.live, ok.running, ok.fresh, ok.threads, ?_, ?_, ?_, ?_, ?_⟩
  · intro c hc
    rw [show s.sock = some c from hc] at hsock
    cases hsock
  · refine List.IsPrefix.trans ?_ ok.order
    rw [Channel.order, hout, Channel.order, outstanding, List.map_append, ← List.append_assoc]
    exact List.prefix_append ..
  · rw [hout]
    intro e he
    obtain ⟨hp, hd⟩ := ok.pending e (hsub e he)
    have hsame : s.waiters.SameAt (s.waiters.failAll errmsg ((s.request.filterMap id).map Entry.co)) e.co :=
      Waiters.failAll_same errmsg (hdisj (List.mem_map_of_mem he))
    exact ⟨hsame.pending hp, hsame.resultData.trans hd⟩
  · rw [hout]; exact (List.nodup_append.mp hnodup).1
  · refine ok.sound.failAll errmsg ?_
    intro co hco
    obtain ⟨e, he, rfl⟩ := List.mem_map.mp hco
    rw [(ok.pending e (List.mem_append_right _ he)).1.waiting]
    nofun

theorem Ok.popResponse (ok : Ok s) (hlive : (s.dispatchers d).Live) (hpend : (s.dispatchers d).pending = []) :
    Ok (s.popResponse d) := by
  simp only [Channel.popResponse]
  split
  · rename_i hreq
    have hpark := ok.advance hlive (.parked false) s.request (some d) (by rw [hpend]; rfl) id nofun nofun
    exact hpark
  · rename_i e rest hreq
    refine ok.advance hlive (.running e s.sock) rest s.waitResponse (by rw [hpend, hreq]; rfl) ?_ ?_ nofun
    · rw [hreq]
      exact fun h hm => h (List.mem_cons_of_mem _ hm)
    · intro e' c h
      exact (Phase.running.inj h).2
  · rename_i rest hreq
    -- the close signal is in the queue only while the channel has no socket
    have hsock : s.sock = none := by
      cases h : s.sock with
      | none => rfl
      | some c => exact absurd (hreq ▸ List.mem_cons_self ..) (ok.opened c h).request
    have hsame : s.setPhase d (s.dispatchers d) = s := by rw [Channel.setPhase, Function.update_eq_self]
    have hrest : Ok { s.setPhase d (s.dispatchers d) with request := rest } := by
      refine ok.advance hlive (s.dispatchers d) rest s.waitResponse (by rw [hreq]; rfl) ?_ ?_ ?_
      · rw [hreq]
        exact fun h hm => h (List.mem_cons_of_mem _ hm)
      · intro e c h
        rw [h] at hpend
        cases hpend
      · intro e errmsg h
        rw [h] at hpend
        cases hpend
    rw [hsame] at hrest
    exact (hrest.wakeupAll hsock none).exitThread hlive hpend hsock

theorem Ok.dispatchByOrder (ok : Ok s) (hloop : s.dispatchers d = .looping) : Ok (s.dispatchByOrder d) := by
  have hlive : (s.dispatchers d).Live := by rw [hloop]; trivial
  have hpend : (s.dispatchers d).pending = [] := by rw [hloop]; rfl
  simp only [Channel.dispatchByOrder]
  split
  · exact ok.popResponse hlive hpend
  · rename_i hsock
    exact ok.exitThread hlive hpend hsock

theorem Ok.wakeupWaiter (ok : Ok s) : Ok s.wakeupWaiter := by
  simp only [Channel.wakeupWaiter]
  split
  · rename_i d _
    simp only [Channel.wakeupDispatcher]
    split
    · rename_i woken hpark
      exact ok.advance (by rw [hpark]; trivial) (.parked true) s.request none (by rw [hpark]; rfl) id nofun nofun
    · exact ok.frame rfl rfl rfl rfl rfl ok.sound (fun _ _ => Waiters.SameAt.refl) ok.threads
        (fun c hc => ⟨hc, rfl, List.Subset.refl _, rfl⟩)
  · exact ok

/-- The close signal. -/
theorem Ok.pushSignal (ok : Ok s) (hsock : s.sock = none) : Ok (s.pushResponse none) := by
  have hout : Channel.outstanding { s with request := s.request ++ [none] } = s.outstanding := by
    simp only [outstanding, List.filterMap_append, List.filterMap_cons, id_eq, List.filterMap_nil, List.append_nil]
    rfl
  have hpush : Ok { s with request := s.request ++ [none] } := by
    refine ⟨ok.live, ok.running, ok.fresh, ok.threads, ?_, ?_, ?_, ?_, ok.sound⟩
    · intro c hc
      rw [show s.sock = some c from hc] at hsock
      cases hsock
    · rw [Channel.order, hout]; exact ok.order
    · rw [hout]; exact ok.pending
    · rw [hout]; exact ok.nodup
  exact hpush.wakeupWaiter

theorem getElem?_of_prefix {α : Type} {xs ys : List α} {i : Nat} {a : α} (h : xs <+: ys) (hi : xs[i]? = some a) :
    ys[i]? = some a := by
  obtain ⟨t, rfl⟩ := h
  rw [List.getElem?_append_left (List.getElem?_eq_some_iff.mp hi).1]
  exact hi

theorem answered_mono (hw : ∀ c, s.writes c <+: s'.writes c) (hc : ∀ c, s.calls c <+: s'.calls c) {num : Nat}
    {data : Option (Data V)} (h : Answered s num data) : Answered s' num data := by
  obtain ⟨c, pos, o, h1, h2, h3⟩ := h
  exact ⟨c, pos, o, getElem?_of_prefix (hw c) h1, getElem?_of_prefix (hc c) h2, h3⟩

theorem prefix_update {α : Type} (f : Nat → List α) (c : Nat) (x : α) (c' : Nat) :
    f c' <+: Function.update f c (f c ++ [x]) c' := by
  rw [Function.update_apply]
  split
  · rename_i he
    rw [he]
    exact List.prefix_append ..
  · exact List.prefix_refl _

/-- A request that is written to the open socket. -/
theorem Ok.written (ok : Ok s) {c co : Nat} (hsock : s.sock = some c) (hco : s.waiters.waiting co = none) :
    Ok (s.written c co) := by
  have op := ok.opened c hsock
  have hcur : s.cur = c := by
    have := op.last
    simp only [Channel.cur]; omega
  have hnew : ∀ e ∈ s.outstanding, e.co ≠ co := by
    rintro e he rfl
    rw [(ok.pending e he).1.waiting] at hco
    cases hco
  refine Ok.wakeupWaiter ?_
  generalize hs' : Channel.mk .. = s'
  have hout : s'.outstanding = s.outstanding ++ [⟨co, s.nums⟩] := by
    subst hs'
    simp only [outstanding, List.filterMap_append, List.filterMap_cons, id_eq, List.filterMap_nil, List.append_assoc]
    rfl
  have hwrites : s'.writes = Function.update s.writes c (s.writes c ++ [s.nums]) := by subst hs'; rfl
  have hcalls : s'.calls = s.calls := by subst hs'; rfl
  have hwaiters : s'.waiters = s.waiters.wait co s.nums := by subst hs'; rfl
  have hcur' : s'.cur = c := by subst hs'; exact hcur
  have horder : s'.order = s'.writes c := by
    rw [Channel.order, hout, hcalls, hcur', hwrites, Function.update_self, List.map_append, ← List.append_assoc,
      ← op.order, Channel.order, hcur]
    rfl
  refine ⟨?_, ?_, ?_, ?_, ?_, ?_, ?_, ?_, ?_⟩
  · subst hs'; exact ok.live
  · subst hs'; exact ok.running
  · intro c' hc'
    have hconns : s'.conns = s.conns := by subst hs'; rfl
    rw [hconns] at hc'
    have hne : c' ≠ c := by have := op.last; omega
    rw [hwrites, Function.update_of_ne hne, hcalls]
    exact ok.fresh c' hc'
  · subst hs'; exact ok.threads
  · intro c' hc'
    have he : c' = c := by
      have : s.sock = some c' := by subst hs'; exact hc'
      exact Option.some.inj (this.symm.trans hsock)
    subst he
    refine ⟨?_, ?_, ?_, ?_, ?_, ?_, horder⟩
    · subst hs'; exact op.last
    · subst hs'; exact op.closing
    · subst hs'; exact op.failing
    · subst hs'
      intro hm
      rw [List.mem_append, List.mem_singleton] at hm
      rcases hm with hm | hm
      · exact op.request hm
      · cases hm
    · subst hs'; exact op.signals
    · subst hs'; exact op.thread
  · rw [horder, hcur']
  · rw [hout, hwaiters]
    intro e he
    rw [List.mem_append, List.mem_singleton] at he
    rcases he with he | rfl
    · have hsame : s.waiters.SameAt (s.waiters.wait co s.nums) e.co := Waiters.wait_same (hnew e he)
      obtain ⟨hp, hd⟩ := ok.pending e he
      exact ⟨hsame.pending hp, hsame.resultData.trans hd⟩
    · obtain ⟨h1, h2, h3⟩ := ok.sound.idle co hco
      exact ⟨⟨Function.update_self .., h1, h2⟩, h3⟩
  · rw [hout, List.map_append]
    refine List.nodup_append.mpr ⟨ok.nodup, List.nodup_singleton _, ?_⟩
    intro a ha b hb
    obtain ⟨e, he, rfl⟩ := List.mem_map.mp ha
    rw [List.map_singleton, List.mem_singleton] at hb
    rw [hb]
    exact hnew e he
  · rw [hwaiters]
    refine (ok.sound.wait hco).mono ?_
    intro num data h
    refine answered_mono (fun c' => ?_) (fun c' => ?_) h
    · rw [hwrites]; exact prefix_update ..
    · rw [hcalls]

theorem Ok.outstanding_eq (ok : Ok s) (hlive : (s.dispatchers d).Live) :
    s.outstanding = (s.dispatchers d).pending ++ s.request.filterMap id := by
  rw [outstanding, ok.cur_eq hlive]

/-- A response function that returned. -/
theorem Ok.settled (ok : Ok s) {c : Nat} {e : Entry} (hrun : s.dispatchers d = .running e (some c)) (o : Outcome V) :
    Ok ((s.settled c e o).setPhase d .looping) := by
  have hlive : (s.dispatchers d).Live := by rw [hrun]; trivial
  obtain rfl := ok.running d e c hrun
  have hcur := ok.cur_eq hlive
  have hconns := ok.live c hlive
  have hout : s.outstanding = e :: s.request.filterMap id := by
    rw [ok.outstanding_eq hlive, hrun]; rfl
  have hout' : ((s.settled c e o).setPhase c .looping).outstanding = s.request.filterMap id := by
    rw [outstanding, show ((s.settled c e o).setPhase c .looping).cur = c from hcur, setPhase_apply, if_pos rfl]; rfl
  have horder : ((s.settled c e o).setPhase c .looping).order = s.order := by
    rw [Channel.order, hout', show ((s.settled c e o).setPhase c .looping).cur = c from hcur, Channel.order, hout, hcur]
    simp only [Channel.settled, Channel.setPhase, Function.update_self, List.map_append, List.map_cons, List.map_nil,
      List.append_assoc, List.singleton_append]
  have hpend := ok.pending e (by rw [hout]; exact List.mem_cons_self ..)
  have hnodup := ok.nodup
  rw [hout, List.map_cons, List.nodup_cons] at hnodup
  have hsame : ∀ co, co ≠ e.co → s.waiters.SameAt (s.settled c e o).waiters co := by
    intro co hne
    simp only [Channel.settled]
    split
    · exact Waiters.append_same _ hne
    · exact Waiters.settle_same _ _ hne
  have hmono : ∀ num data, Answered s num data → Answered ((s.settled c e o).setPhase c .looping) num data := by
    intro num data h
    refine answered_mono ?_ ?_ h
    · exact fun _ => List.prefix_refl _
    · exact fun c' => prefix_update ..
  refine ⟨?_, ?_, ?_, ok.threads, ?_, ?_, ?_, ?_, ?_⟩
  · intro d' h
    rw [setPhase_apply] at h
    split at h
    · rename_i he
      subst he
      exact hconns
    · exact ok.live d' h
  · intro d' e' c' h
    rw [setPhase_apply] at h
    split at h
    · cases h
    · exact ok.running d' e' c' h
  · intro c' hc'
    have hle : s.conns ≤ c' := hc'
    have hne : c' ≠ c := by omega
    exact ⟨(ok.fresh c' hc').1, by
      simp only [Channel.settled, Channel.setPhase, Function.update_of_ne hne]
      exact (ok.fresh c' hc').2⟩
  · intro c' hc'
    have op := ok.opened c' hc'
    refine ⟨op.last, op.closing, ?_, op.request, op.signals, op.thread, horder.trans op.order⟩
    intro d' e' errmsg h
    rw [setPhase_apply] at h
    split at h
    · cases h
    · exact op.failing d' e' errmsg h
  · rw [horder]; exact ok.order
  · rw [hout']
    intro e' he'
    have hne : e'.co ≠ e.co := fun h => hnodup.1 (h ▸ List.mem_map_of_mem he')
    obtain ⟨hp, hd⟩ := ok.pending e' (by rw [hout]; exact List.mem_cons_of_mem _ he')
    exact ⟨(hsame e'.co hne).pending hp, (hsame e'.co hne).resultData.trans hd⟩
  · rw [hout']; exact hnodup.2
  · -- the function is at the place of the request: before it stand the calls so far
    have hplace : Answered ((s.settled c e o).setPhase c .looping) e.num (o.resultData.map .one) ∨ o.resultOk = false := by
      cases hok : o.resultOk with
      | false => exact .inr rfl
      | true =>
        refine .inl ⟨c, (s.calls c).length, o, ?_, ?_, hok, rfl⟩
        · refine getElem?_of_prefix (hcur ▸ ok.order) ?_
          rw [Channel.order, hout, hcur, List.getElem?_append_right (Nat.le_of_eq (List.length_map ..)), List.length_map,
            Nat.sub_self]
          rfl
        · simp only [Channel.settled, Channel.setPhase, Function.update_self, List.getElem?_concat_length]
    have hsound := ok.sound.mono hmono
    change Waiters.Sound _ (s.settled c e o).waiters
    simp only [Channel.settled]
    split
    · exact hsound.append hpend.1 _
    · refine hsound.settle hpend.1 ?_
      intro hok
      rcases hplace with h | h
      · simpa [Waiters.settle, Waiters.put, hpend.2] using h
      · rw [h] at hok; cases hok

/-- The response function failed: its request and those in the queue are dropped. -/
theorem Ok.failed (ok : Ok s) {e : Entry} {errmsg : Option V} (hclosing : s.dispatchers d = .closing e errmsg) :
    Ok (Channel.wakeupAll { s.setPhase d .looping with waiters := s.waiters.fail errmsg e.co } errmsg) := by
  have hlive : (s.dispatchers d).Live := by rw [hclosing]; trivial
  have hsock : s.sock = none := by
    cases h : s.sock with
    | none => rfl
    | some c => exact absurd hclosing ((ok.opened c h).failing d e errmsg)
  have hout := ok.outstanding_eq hlive
  rw [hclosing] at hout
  have hwaiting : ∀ co ∈ s.outstanding.map Entry.co, s.waiters.waiting co ≠ none := by
    intro co hco
    obtain ⟨e', he', rfl⟩ := List.mem_map.mp hco
    rw [(ok.pending e' he').1.waiting]
    nofun
  have hsub : (s.request.filterMap id).map Entry.co ⊆ s.outstanding.map Entry.co := by
    rw [hout, List.map_append]
    exact List.subset_append_right ..
  generalize hs' : Channel.wakeupAll _ _ = s'
  have hout' : s'.outstanding = [] := by
    have hcur : s'.cur = d := by subst hs'; exact ok.cur_eq hlive
    have hphase : s'.dispatchers d = .looping := by subst hs'; exact Function.update_self ..
    have hreq : s'.request = [] := by subst hs'; rfl
    rw [outstanding, hcur, hphase, hreq]
    rfl
  refine ⟨?_, ?_, ?_, ?_, ?_, ?_, ?_, ?_, ?_⟩
  · subst hs'
    intro d' h
    simp only [Channel.wakeupAll, setPhase_apply] at h
    split at h
    · rename_i he
      subst he
      exact ok.live d' hlive
    · exact ok.live d' h
  · subst hs'
    intro d' e' c' h
    simp only [Channel.wakeupAll, setPhase_apply] at h
    split at h
    · cases h
    · exact ok.running d' e' c' h
  · subst hs'; exact ok.fresh
  · subst hs'; exact ok.threads
  · intro c hc
    have : s.sock = some c := by subst hs'; exact hc
    rw [hsock] at this
    cases this
  · rw [Channel.order, hout', List.map_nil, List.append_nil]
    subst hs'
    refine List.IsPrefix.trans ?_ ok.order
    exact List.prefix_append ..
  · rw [hout']; nofun
  · rw [hout']; exact List.nodup_nil
  · subst hs'
    refine Waiters.Sound.failAll ?_ errmsg ?_
    · exact (ok.sound.fail (hwaiting e.co (by rw [hout]; exact List.mem_cons_self ..)) errmsg)
    · intro co hco
      rw [Waiters.fail_waiting]
      exact hwaiting co (hsub hco)

/-- A new connection, when nothing of an earlier one is left. -/
theorem Ok.connectOnce (ok : Ok s) (hdead : ∀ d, ¬ (s.dispatchers d).Live) (hclosing : s.closing = [])
    (hrequest : s.request = []) : Ok s.connectOnce := by
  have hcur : s.connectOnce.cur = s.conns := Nat.add_sub_cancel ..
  have hphase : ∀ d, s.connectOnce.dispatchers d = if d = s.conns then .looping else s.dispatchers d :=
    fun d => setPhase_apply ..
  have hout : s.connectOnce.outstanding = [] := by
    rw [outstanding, hcur, hphase, if_pos rfl, show s.connectOnce.request = [] from hrequest]; rfl
  have hfresh := ok.fresh s.conns (Nat.le_refl _)
  have horder : s.connectOnce.order = s.connectOnce.writes s.conns := by
    rw [Channel.order, hout, hcur, show s.connectOnce.calls = s.calls from rfl, hfresh.2]
    exact hfresh.1.symm
  refine ⟨?_, ?_, ?_, ?_, ?_, ?_, ?_, ?_, ?_⟩
  · intro d h
    rw [hphase] at h
    split at h
    · rename_i he
      rw [he]; rfl
    · exact absurd h (hdead d)
  · intro d e c h
    rw [hphase] at h
    split at h
    · cases h
    · exact ok.running d e c h
  · intro c hc
    exact ok.fresh c (Nat.le_of_succ_le hc)
  · refine ⟨fun d hd => Nat.lt_succ_of_lt (ok.threads.1 d hd), ?_⟩
    intro d hd
    cases hd
    exact Nat.lt_succ_self _
  · intro c hc
    cases hc
    refine ⟨rfl, hclosing, ?_, ?_, ?_, rfl, horder⟩
    · intro d e errmsg h
      rw [hphase] at h
      split at h
      · cases h
      · exact hdead d (by rw [h]; trivial)
    · rw [show s.connectOnce.request = [] from hrequest]; exact List.not_mem_nil
    · exact fun d hd => Nat.ne_of_lt (ok.threads.1 d hd)
  · rw [horder, hcur]
  · rw [hout]; nofun
  · rw [hout]; exact List.nodup_nil
  · exact ok.sound.mono fun _ _ h => h

/-- The socket is closed, and what else does not touch the requests and the dispatchers. -/
theorem Ok.shut (ok : Ok s) (hdispatchers : s'.dispatchers = s.dispatchers) (hrequest : s'.request = s.request)
    (hconns : s'.conns = s.conns) (hwrites : s'.writes = s.writes) (hcalls : s'.calls = s.calls)
    (hwaiters : s'.waiters = s.waiters) (hsignals : ∀ d ∈ s'.signals, d < s.conns)
    (hthread : s'.dispatchThread = s.dispatchThread) (hsock : s'.sock = none) : Ok s' := by
  refine ok.frame hdispatchers hrequest hconns hwrites hcalls (hwaiters ▸ ok.sound) ?_ ⟨hsignals, ?_⟩ ?_
  · intro e _
    rw [hwaiters]
    exact Waiters.SameAt.refl
  · rw [hthread]; exact ok.threads.2
  · intro c hc
    rw [hsock] at hc
    cases hc

end Ok

/-! ### Runs -/

/-- A new connection is made when no dispatcher, no request in `close_channel_socket` and no request in
the queue is left of an earlier one. -/
def ConnectsClean (s : Channel V) : Label V → Prop
  | .connect => (∀ d, ¬ (s.dispatchers d).Live) ∧ s.closing = [] ∧ s.request = []
  | _ => True

theorem ok_step {s s' : Channel V} {a : Label V} (ok : Ok s) (hg : ConnectsClean s a) (h : step s a = some s') :
    Ok s' := by
  cases a with
  | connect =>
    simp only [step] at h
    split at h
    · cases h
      exact ok.connectOnce hg.1 hg.2.1 hg.2.2
    · cases h
  | start d =>
    simp only [step] at h
    split at h
    · rename_i hloop
      cases h
      exact ok.dispatchByOrder hloop
    · cases h
  | request co response write =>
    simp only [step] at h
    split at h
    · rename_i c hsock
      split at h
      · rename_i hco
        split at h
        · cases h
          exact ok.written hsock hco.1
        · cases h
          exact ok.frame rfl rfl rfl rfl rfl ok.sound (fun _ _ => Waiters.SameAt.refl) ok.threads
            (fun c hc => ⟨hc, rfl, List.Subset.refl _, rfl⟩)
        · cases h
          exact ok.shut rfl rfl rfl rfl rfl rfl ok.threads.1 rfl rfl
      · cases h
    · cases h
  | failed co =>
    simp only [step] at h
    split at h
    · rename_i hco
      cases h
      have hsock : s.sock = none := by
        cases hs : s.sock with
        | none => rfl
        | some c => rw [(ok.opened c hs).closing] at hco; cases hco
      have hclosing : Ok { s with closing := s.closing.erase co } :=
        ok.shut rfl rfl rfl rfl rfl rfl ok.threads.1 rfl hsock
      exact hclosing.wakeupAll hsock none
    · cases h
  | wake d =>
    simp only [step] at h
    split at h
    · rename_i hpark
      cases h
      exact ok.popResponse (by rw [hpark]; trivial) (by rw [hpark]; rfl)
    · cases h
  | finish d o =>
    cases o with
    | ok o =>
      simp only [step] at h
      split at h
      · rename_i e c hrun
        cases h
        exact (ok.settled hrun o).dispatchByOrder (Function.update_self ..)
      · cases h
    | error errmsg =>
      simp only [step] at h
      split at h
      · rename_i e so hrun
        cases h
        have hshut : Ok { s with sock := none } := ok.shut rfl rfl rfl rfl rfl rfl ok.threads.1 rfl rfl
        exact hshut.advance (by rw [hrun]; trivial) (.closing e errmsg) s.request s.waitResponse (by rw [hrun]; rfl) id
          nofun (fun _ _ _ => rfl)
      · cases h
  | closed d =>
    simp only [step] at h
    split at h
    · rename_i e errmsg hclosing
      cases h
      exact (ok.failed hclosing).dispatchByOrder (Function.update_self ..)
    · cases h
  | resume co =>
    simp only [step] at h
    split at h
    · rename_i w hw
      cases h
      refine ok.frame rfl rfl rfl rfl rfl (ok.sound.collect hw) ?_ ok.threads (fun c hc => ⟨hc, rfl, List.Subset.refl _, rfl⟩)
      obtain ⟨num, -, hwoken, -, -, hsame, -⟩ := Waiters.collect_some hw
      intro e he
      refine hsame e.co ?_
      rintro rfl
      rw [(ok.pending e he).1.woken] at hwoken
      cases hwoken
    · cases h
  | changehost =>
    simp only [step] at h
    split at h
    · cases h; exact ok
    · cases h
      exact ok.shut rfl rfl rfl rfl rfl rfl ok.threads.1 rfl rfl
  | close =>
    simp only [step] at h
    cases h
    simp only [Channel.close]
    split
    · exact ok
    · refine ok.shut rfl rfl rfl rfl rfl rfl ?_ rfl rfl
      intro d hd
      rw [List.mem_append, Option.mem_toList] at hd
      rcases hd with hd | hd
      · exact ok.threads.1 d hd
      · exact ok.threads.2 d hd
  | signal d =>
    simp only [step] at h
    split at h
    · rename_i hd
      cases h
      have hsub : s.signals.erase d ⊆ s.signals := List.erase_subset
      have hsignals : Ok { s with signals := s.signals.erase d } :=
        ok.frame rfl rfl rfl rfl rfl ok.sound (fun _ _ => Waiters.SameAt.refl)
          ⟨fun d' hd' => ok.threads.1 d' (hsub hd'), ok.threads.2⟩ (fun c hc => ⟨hc, rfl, hsub, rfl⟩)
      simp only [Channel.signal]
      split
      · rename_i hthread
        refine hsignals.pushSignal ?_
        cases hs : s.sock with
        | none => rfl
        | some c =>
          have op := ok.opened c hs
          rw [op.thread] at hthread
          exact absurd (Option.some.inj hthread).symm (op.signals d hd)
      · exact hsignals
    · cases h
  | reopen =>
    simp only [step] at h
    split at h
    · split at h
      · cases h
        exact ok.frame rfl rfl rfl rfl rfl ok.sound (fun _ _ => Waiters.SameAt.refl) ok.threads
          (fun c hc => ⟨hc, rfl, List.Subset.refl _, rfl⟩)
      · cases h
        exact ok.frame rfl rfl rfl rfl rfl ok.sound (fun _ _ => Waiters.SameAt.refl) ok.threads
          (fun c hc => ⟨hc, rfl, List.Subset.refl _, rfl⟩)
      · cases h
    · cases h
  | reopened =>
    simp only [step] at h
    split at h
    · cases h
      exact ok.frame rfl rfl rfl rfl rfl ok.sound (fun _ _ => Waiters.SameAt.refl) ok.threads
        (fun c hc => ⟨hc, rfl, List.Subset.refl _, rfl⟩)
    · cases h

theorem ok_run {s s' : Channel V} {as : List (Label V)} (ok : Ok s) (hg : Lts.Guarded step ConnectsClean s as)
    (h : Lts.run step s as = some s') : Ok s' :=
  Lts.run_invariant_of_guarded (fun _ _ _ ok hg h => ok_step ok hg h) h hg ok

theorem responses_in_order {s : Channel V} {as : List (Label V)} (hrun : Lts.run step init as = some s)
    (hconnects : Lts.Guarded step ConnectsClean init as) : Correct s := by
  have ok := ok_run ok_init hconnects hrun
  have hlive : ∀ d, (s.dispatchers d).Taking → d + 1 = s.conns := by
    rintro d ⟨e, so, h⟩
    exact ok.live d (by rw [h]; trivial)
  refine ⟨?_, ok.sound.replies⟩
  intro d d' h h'
  have h1 := hlive d h
  have h2 := hlive d' h'
  omega

/-- A request that is answered, and one whose response function fails. -/
def firstConnection : List (Label Nat) :=
  [.connect, .start 0, .request 7 true true, .wake 0, .finish 0 (.ok ⟨true, some 5, false⟩), .resume 7,
    .request 8 true true, .wake 0, .finish 0 (.error none), .closed 0, .resume 8]

/-- A request on the next connection. -/
def nextConnection : List (Label Nat) :=
  [.connect, .start 1, .request 7 true true, .wake 1, .finish 1 (.ok ⟨true, some 6, false⟩), .resume 7]

theorem connectsClean_cons {s : Channel V} {as : List (Label V)}
    (hs : (∀ d, ¬ (s.dispatchers d).Live) ∧ s.closing = [] ∧ s.request = []) (has : .connect ∉ as) :
    Lts.Guarded step ConnectsClean s (.connect :: as) := by
  refine ⟨hs, fun t _ => Lts.guarded_of_forall ?_ t⟩
  intro a ha s
  cases a with
  | connect => exact absurd ha has
  | _ => trivial

theorem firstConnection_closed {s : Channel Nat} (h : Lts.run step init firstConnection = some s) :
    (∀ d, ¬ (s.dispatchers d).Live) ∧ s.closing = [] ∧ s.request = [] := by
  cases h
  refine ⟨?_, rfl, rfl⟩
  intro d
  cases d with
  | zero => exact id
  | succ d => exact id

theorem responses_in_order_nextConnection : ∃ s, Lts.run step init (firstConnection ++ nextConnection) = some s ∧
    s.waiters.replies = [(0, .returned (some (.one 5))), (1, .socketError), (2, .returned (some (.one 6)))] ∧
    Correct s := by
  obtain ⟨s, hrun, hreplies⟩ : ∃ s, Lts.run step init (firstConnection ++ nextConnection) = some s ∧
    s.waiters.replies = [(0, .returned (some (.one 5))), (1, .socketError), (2, .returned (some (.one 6)))] :=
    ⟨_, rfl, rfl⟩
  refine ⟨s, hrun, hreplies, responses_in_order hrun ?_⟩
  refine Lts.guarded_append (connectsClean_cons ⟨fun _ => id, rfl, rfl⟩ (by simp)) ?_
  exact fun t ht => connectsClean_cons (firstConnection_closed ht) (by simp)

/-- The host is changed while the dispatcher waits for a request, then two requests are made. -/
def changedHost : List (Label Nat) :=
  [.connect, .start 0, .changehost, .connect, .request 7 true true, .wake 0, .start 1, .request 8 true true, .wake 1]

/-- The dispatchers of both connections take responses of the second one. -/
theorem dispatchers_collide : ∃ s, Lts.run step init changedHost = some s ∧
    s.dispatchers 0 = .running ⟨7, 0⟩ (some 1) ∧ s.dispatchers 1 = .running ⟨8, 1⟩ (some 1) ∧ ¬ Correct s := by
  obtain ⟨s, hrun, h0, h1⟩ : ∃ s, Lts.run step init changedHost = some s ∧
    s.dispatchers 0 = .running ⟨7, 0⟩ (some 1) ∧ s.dispatchers 1 = .running ⟨8, 1⟩ (some 1) := ⟨_, rfl, rfl, rfl⟩
  refine ⟨s, hrun, h0, h1, ?_⟩
  intro h
  have := h.single 0 1 ⟨_, _, h0⟩ ⟨_, _, h1⟩
  cases this

end Order
end SocketChannel
end Skynet
