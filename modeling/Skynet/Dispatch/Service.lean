import Mathlib.Data.List.Perm.Basic
import Mathlib.Data.List.Nodup
import Mathlib.Logic.Function.Basic
import Skynet.Lib.Run

/-!
# Skynet.Dispatch.Service

A service as `skynet.lua` runs it: `skynet.dispatch_message` with the coroutines that it starts and
resumes, and the tables that `suspend` keeps about them.

* Coroutines are numbers, and what their functions do is up to the labels: one `Op` is what the running
  coroutine does next. An error that a function catches itself is no step. `Point` says where each
  coroutine is suspended; what the library does at once when it goes on is part of `resume`.
* `suspend`, `dispatch_wakeup` and `dispatch_error_queue` call each other. `Control` says which of them comes next, and
  `depth` counts the calls of `suspend` below it that have still to look at the error queue. A raised
  error unwinds them all (`Control.forks`).
* `next` visits a table in any order, so a label says what it returns. Session numbers are not
  used twice.
* The state has two parts: `Sched` is about which coroutine goes on when, and `Book` about who is to get a reply. The other
  services are in `alive`; a message to one that is not there is not sent.

`skynet.wait` is called with no coroutine but the running one.
-/

namespace Skynet
namespace Dispatch

/-- A value of `session_id_coroutine`: a coroutine or `"BREAK"`. -/
inductive Entry where
  | co (co : Nat)
  | break
deriving DecidableEq, Repr

/-- Where a coroutine is. -/
inductive Point where
  /-- created for a request or by `skynet.fork`, and not started -/
  | new
  /-- created by `skynet.timeout`, and not started -/
  | timer (session : Nat)
  | running
  /-- in `yield_call`, `skynet.sleep` or `skynet.wait` -/
  | call (session : Nat)
  | sleep (session : Nat)
  | wait (session : Nat)
  /-- at a yield where `suspend` raised an error, or in `skynet.exit`: nothing resumes it -/
  | stuck
  /-- its function has returned, and it is in `coroutine_pool` -/
  | pooled
  /-- ended by an error, or not created yet -/
  | dead
deriving DecidableEq, Repr

/-- The function of the coroutine has ended. -/
def Point.ended : Point → Bool
  | .pooled => true
  | .dead => true
  | _ => false

/-- The upvalue `f` of a response closure. -/
inductive Pack where
  | function
  | false
  | nil
deriving DecidableEq, Repr

/-- The upvalues of the closure that `skynet.response` returns, and the request it belongs to. -/
structure Response where
  coAddress : Nat
  coSession : Nat
  f : Pack
  request : Nat
deriving DecidableEq, Repr

/-- What comes next. -/
inductive Control where
  /-- no message is handled -/
  | idle
  | running (co : Nat)
  /-- `dispatch_wakeup` and `dispatch_error_queue` at the end of `suspend` -/
  | wakeup
  | errors
  /-- the return of `suspend` -/
  | returned
  /-- the loop over `fork_queue` in `skynet.dispatch_message` -/
  | forks
deriving DecidableEq, Repr

/-- The type of a reply. -/
inductive PType where
  | response
  | error
deriving DecidableEq, Repr

/-- The tables about sleeping and resuming, the coroutines and the control. -/
structure Sched where
  session : Nat
  sessionIdCoroutine : Nat → Option Entry
  wakeupSession : List Nat
  sleepSession : Nat → Option Nat
  watchingSession : List (Nat × Nat)
  errorQueue : List Nat
  forkQueue : List Nat
  coroutines : Nat
  point : Nat → Point
  control : Control
  depth : Nat
  quit : Bool
  /-- How often a coroutine has gone to sleep, the sleep for which it is marked in `wakeup_session`, the sleeps for which
  `skynet.wakeup` has returned true, and those that `dispatch_wakeup` has ended, with the sleep marked. -/
  naps : Nat → Nat
  mark : Nat → Nat
  issued : List (Nat × Nat)
  woken : List (Nat × Nat × Nat)

/-- The tables about requests and replies. The closures are numbered by their place in `responses`, which is their key in
`unresponse`. -/
structure Book where
  sessionCoroutineId : Nat → Option Nat
  sessionCoroutineAddress : Nat → Option Nat
  sessionResponse : Nat → Bool
  unresponse : List Nat
  responses : List Response
  watchingService : Nat → Option Nat
  deadService : Nat → Bool
  alive : Nat → Bool
  /-- The requests so far, source and session, and the one that a coroutine handles. -/
  requests : List (Nat × Nat)
  request : Nat → Option Nat
  /-- The replies that have been sent, and the requests that were to get one: `skynet.ret` or the response closure has been
  called or the coroutine has died while the requester was there. -/
  replies : List (Nat × PType)
  demands : List Nat

structure State where
  sched : Sched
  book : Book

def init : State where
  sched :=
    { session := 0, sessionIdCoroutine := fun _ => none, wakeupSession := [], sleepSession := fun _ => none
      watchingSession := [], errorQueue := [], forkQueue := [], coroutines := 0, point := fun _ => .dead
      control := .idle, depth := 0, quit := false, naps := fun _ => 0, mark := fun _ => 0, issued := [], woken := [] }
  book :=
    { sessionCoroutineId := fun _ => none, sessionCoroutineAddress := fun _ => none, sessionResponse := fun _ => false
      unresponse := [], responses := [], watchingService := fun _ => none, deadService := fun _ => false
      alive := fun _ => true, requests := [], request := fun _ => none, replies := [], demands := [] }

/-! ### Replies -/

namespace Book

/-- `release_watching`. -/
def releaseWatching (b : Book) (address : Option Nat) : Book :=
  match address with
  | none => b
  | some a =>
    match b.watchingService a with
    | none => b
    | some ref => { b with watchingService := Function.update b.watchingService a (if 0 < ref - 1 then some (ref - 1) else none) }

/-- `c.send` with a reply to a request. -/
def send (b : Book) (dest : Nat) (type : PType) (request : Option Nat) : Book :=
  match request with
  | none => b
  | some r => if b.alive dest then { b with replies := b.replies ++ [(r, type)] } else b

/-- A request that is to get a reply now. -/
def demand (b : Book) (dest : Nat) (request : Option Nat) : Book :=
  match request with
  | none => b
  | some r => if b.alive dest then { b with demands := b.demands ++ [r] } else b

/-- The coroutine has no request any more. -/
def clear (b : Book) (co : Nat) : Book :=
  { b with sessionCoroutineId := Function.update b.sessionCoroutineId co none,
           sessionCoroutineAddress := Function.update b.sessionCoroutineAddress co none,
           request := Function.update b.request co none }

/-- The branch of `suspend` for a coroutine that has died with an error. -/
def crash (b : Book) (co : Nat) : Book :=
  match b.sessionCoroutineId co, b.sessionCoroutineAddress co with
  | some session, some addr =>
    let b := b.demand addr (b.request co)
    let b := if session ≠ 0 then b.send addr .error (b.request co) else b
    b.clear co
  | _, _ => b

/-- `RETURN`, and whether it is refused with an error. -/
def returnCommand (b : Book) (co : Nat) (fits : Bool) : Book × Bool :=
  match b.sessionCoroutineAddress co with
  | none =>
    if b.sessionResponse co then (b, true)
    else ({ b with sessionResponse := Function.update b.sessionResponse co true }, true)
  | some addr =>
    let b := b.demand addr (b.request co)
    if b.sessionResponse co then (b, true)
    else
      let b := { b with sessionResponse := Function.update b.sessionResponse co true }
      -- a package that is too large is not sent, and an error is reported instead
      if b.deadService addr then (b, false) else (b.send addr (if fits then .response else .error) (b.request co), false)

/-- `RESPONSE`, and whether it is refused with an error. -/
def responseCommand (b : Book) (co : Nat) : Book × Bool :=
  if b.sessionResponse co then (b, true)
  else
    match b.sessionCoroutineAddress co, b.sessionCoroutineId co, b.request co with
    | some addr, some session, some r =>
      match b.watchingService addr with
      | none => (b, true)
      | some ref =>
        ({ b with responses := b.responses ++ [⟨addr, session, .function, r⟩],
                  watchingService := Function.update b.watchingService addr (some (ref + 1)),
                  sessionResponse := Function.update b.sessionResponse co true,
                  unresponse := b.unresponse ++ [b.responses.length] }, false)
    | _, _, _ => (b, true)

/-- `EXIT`. -/
def exitCommand (b : Book) (co : Nat) : Book :=
  let b := (b.releaseWatching (b.sessionCoroutineAddress co)).clear co
  { b with sessionResponse := Function.update b.sessionResponse co false }

/-- The end of a response closure. -/
def close (b : Book) (k : Nat) (r : Response) (f : Pack) : Book :=
  let b := b.releaseWatching (some r.coAddress)
  { b with unresponse := b.unresponse.filter (· ≠ k), responses := b.responses.set k { r with f := f } }

/-- A response closure called with `ok`, which is not `"TEST"`. -/
def respond (b : Book) (k : Nat) (ok fits : Bool) : Book :=
  match b.responses[k]? with
  | none => b
  | some r =>
    let b := b.demand r.coAddress (some r.request)
    match r.f with
    | .nil => b
    | .false => { b with responses := b.responses.set k { r with f := .nil } }
    | .function =>
      let b := if b.deadService r.coAddress then b
        else b.send r.coAddress (if ok ∧ fits then .response else .error) (some r.request)
      b.close k r .nil

/-- A response closure called with `"TEST"`. -/
def test (b : Book) (k : Nat) : Book :=
  match b.responses[k]? with
  | none => b
  | some r => if b.deadService r.coAddress then b.close k r .false else b

/-- `skynet.exit`: an error for the request of a coroutine. -/
def report (b : Book) (co : Nat) : Book :=
  match b.sessionCoroutineId co, b.sessionCoroutineAddress co with
  | some session, some addr => if session ≠ 0 then b.send addr .error (b.request co) else b
  | _, _ => b

/-- The replies of `skynet.exit`, with `n` coroutines. -/
def exit (b : Book) (n : Nat) : Book :=
  let b := (List.range n).foldl report b
  b.unresponse.foldl (fun b k => b.respond k false true) b

/-- The part of `raw_dispatch_message` before a coroutine is resumed with a message. -/
def start (b : Book) (source session co : Nat) : Book :=
  { b with watchingService := Function.update b.watchingService source
             (some (match b.watchingService source with | some ref => ref + 1 | none => 1)),
           sessionCoroutineId := Function.update b.sessionCoroutineId co (some session),
           sessionCoroutineAddress := Function.update b.sessionCoroutineAddress co (some source),
           request := Function.update b.request co none }

/-- The message is a request. -/
def register (b : Book) (source session co : Nat) : Book :=
  { b with request := Function.update b.request co (some b.requests.length), requests := b.requests ++ [(source, session)] }

/-- `_error_dispatch` with session 0. -/
def down (b : Book) (errorSource : Nat) : Book :=
  if b.watchingService errorSource ≠ none then { b with deadService := Function.update b.deadService errorSource true } else b

/-- A message without a protocol. -/
def unknown (b : Book) (source session : Nat) (hasProto : Bool) : Book :=
  let b := if hasProto = false ∧ session ≠ 0 then b.send source .error (some b.requests.length) else b
  { b with requests := b.requests ++ [(source, session)] }

end Book

/-! ### Coroutines -/

namespace Sched

/-- A raised error unwinds the calls of `suspend`; `point` is where it leaves the coroutine. -/
def unwind (s : Sched) (co : Nat) (point : Point) : Sched :=
  { s with point := Function.update s.point co point, control := .forks, depth := 0 }

/-- The coroutine goes on after `RETURN` or `RESPONSE`, unless the command is refused. -/
def answered (s : Sched) (co : Nat) (refused : Bool) : Sched := if refused then s.unwind co .stuck else s

/-- `coroutine_resume`, and what the library does before the function of the coroutine goes on; `none` for a
coroutine that neither waits nor has to be started (there is no such call: `Sound.resumes`). -/
def resume (s : Sched) (co : Nat) : Option Sched :=
  let running := { s with control := .running co, point := Function.update s.point co .running }
  match s.point co with
  | .new => some running
  | .timer _ => some running
  | .call session => some { running with watchingSession := s.watchingSession.filter fun w => w.1 ≠ session }
  | .sleep _ => some { running with sleepSession := Function.update s.sleepSession co none }
  | .wait session =>
    some { running with sleepSession := Function.update s.sleepSession co none,
                        sessionIdCoroutine := Function.update s.sessionIdCoroutine session none }
  | _ => none

/-- `co_create`, with a coroutine from the pool or a new one. -/
def create (s : Sched) (co : Nat) (point : Point) : Option Sched :=
  if co = s.coroutines then
    some { s with coroutines := s.coroutines + 1, point := Function.update s.point co point }
  else if s.point co = .pooled then some { s with point := Function.update s.point co point }
  else none

/-- The running coroutine yields and can be resumed with a new session. -/
def yieldSession (s : Sched) (co : Nat) (point : Nat → Point) : Sched :=
  { s with session := s.session + 1,
           sessionIdCoroutine := Function.update s.sessionIdCoroutine (s.session + 1) (some (.co co)),
           point := Function.update s.point co (point (s.session + 1)), control := .wakeup }

/-- `yield_call` and `CALL`. -/
def call (s : Sched) (co service : Nat) : Sched :=
  { s.yieldSession co .call with watchingSession := (s.session + 1, service) :: s.watchingSession }

/-- `SLEEP`. -/
def nap (s : Sched) (co : Nat) (point : Nat → Point) : Sched :=
  { s.yieldSession co point with sleepSession := Function.update s.sleepSession co (some (s.session + 1)),
                                 naps := Function.update s.naps co (s.naps co + 1) }

/-- `skynet.wakeup`. -/
def wakeup (s : Sched) (co : Nat) : Sched :=
  if s.sleepSession co ≠ none ∧ co ∉ s.wakeupSession then
    { s with wakeupSession := co :: s.wakeupSession, mark := Function.update s.mark co (s.naps co),
             issued := s.issued ++ [(co, s.naps co)] }
  else s

/-- `skynet.fork`. -/
def fork (s : Sched) (co : Nat) : Option Sched :=
  (s.create co .new).map fun t => { t with forkQueue := t.forkQueue ++ [co] }

/-- `skynet.timeout`. -/
def timeout (s : Sched) (co : Nat) : Option Sched :=
  (s.create co (.timer (s.session + 1))).map fun t =>
    { t with session := s.session + 1,
             sessionIdCoroutine := Function.update t.sessionIdCoroutine (s.session + 1) (some (.co co)) }

/-- `EXIT`. -/
def exitCommand (s : Sched) (co : Nat) : Sched :=
  { s with point := Function.update s.point co .pooled, control := .wakeup }

/-- `skynet.exit`. -/
def exit (s : Sched) (co : Nat) : Sched :=
  { s with forkQueue := [], point := Function.update s.point co .stuck, control := .returned, quit := true }

/-- `_error_dispatch`; `none` if `order` is none of the orders of `pairs`. -/
def errorDispatch (s : Sched) (errorSource errorSession : Nat) (order : List Nat) : Option Sched :=
  if errorSession = 0 then
    if order.Perm ((s.watchingSession.filter fun w => w.2 = errorSource).map Prod.fst) then
      some { s with errorQueue := s.errorQueue ++ order }
    else none
  else if errorSession ∈ s.watchingSession.map Prod.fst then some { s with errorQueue := s.errorQueue ++ [errorSession] }
  else some s

end Sched

/-! ### Steps -/

/-- What the running coroutine does next. -/
inductive Op where
  | call (service : Nat)
  | sleep
  | wait
  | wakeup (co : Nat)
  | fork (co : Nat)
  | timeout (co : Nat)
  | ret (fits : Bool)
  | response
  | respond (k : Nat) (ok fits : Bool)
  | test (k : Nat)
  | finish
  | raise
  | exit
deriving DecidableEq, Repr

def perform (s : State) (co : Nat) : Op → Option State
  | .call service => some { s with sched := s.sched.call co service }
  | .sleep => some { s with sched := s.sched.nap co .sleep }
  | .wait => some { s with sched := s.sched.nap co .wait }
  | .wakeup other => some { s with sched := s.sched.wakeup other }
  | .fork new => (s.sched.fork new).map fun sched => { s with sched := sched }
  | .timeout new => (s.sched.timeout new).map fun sched => { s with sched := sched }
  | .ret fits =>
    let (book, refused) := s.book.returnCommand co fits
    some { sched := s.sched.answered co refused, book := book }
  | .response =>
    let (book, refused) := s.book.responseCommand co
    some { sched := s.sched.answered co refused, book := book }
  | .respond k ok fits => some { s with book := s.book.respond k ok fits }
  | .test k => some { s with book := s.book.test k }
  | .finish => some { sched := s.sched.exitCommand co, book := s.book.exitCommand co }
  | .raise => some { sched := s.sched.unwind co .dead, book := s.book.crash co }
  | .exit => some { sched := s.sched.exit co, book := s.book.exit s.sched.coroutines }

/-- A message for `raw_dispatch_message`. -/
inductive Message where
  | response (session : Nat)
  /-- `co` is the coroutine that is created, and `unpacks` whether `p.unpack` returns. -/
  | request (source session co : Nat) (unpacks : Bool)
  /-- An error message; `order` is the order in which `pairs` visits `watching_session`. -/
  | error (source session co : Nat) (order : List Nat)
  /-- A message without a protocol, or without a function in its protocol. -/
  | unknown (source session : Nat) (hasProto : Bool)
deriving DecidableEq, Repr

def dispatch (s : State) : Message → Option State
  | .response session =>
    match s.sched.sessionIdCoroutine session with
    | some .break =>
      let sched := { s.sched with sessionIdCoroutine := Function.update s.sched.sessionIdCoroutine session none }
      some { s with sched := { sched with control := .forks } }
    | none => some { s with sched := { s.sched with control := .forks } }
    | some (.co co) =>
      let sched := { s.sched with sessionIdCoroutine := Function.update s.sched.sessionIdCoroutine session none }
      (sched.resume co).map fun sched => { s with sched := sched }
  | .request source session co unpacks =>
    match s.sched.create co .new with
    | none => none
    | some sched =>
      let book := (s.book.start source session co).register source session co
      if unpacks then (sched.resume co).map fun sched => { sched := sched, book := book }
      else some { sched := { sched with control := .forks }, book := book }
  | .error source session co order =>
    match s.sched.create co .new with
    | none => none
    | some sched =>
      let book := s.book.start source session co
      let book := if session = 0 then book.down source else book
      (sched.errorDispatch source session order).map fun sched =>
        { sched := sched.exitCommand co, book := book.exitCommand co }
  | .unknown source session hasProto =>
    some { sched := { s.sched with control := .forks }, book := s.book.unknown source session hasProto }

inductive Label where
  /-- Another service ends. -/
  | die (address : Nat)
  | message (m : Message)
  | op (o : Op)
  /-- `dispatch_wakeup`, with the coroutine that `next(wakeup_session)` returns. -/
  | wakeup (co : Option Nat)
  /-- `dispatch_error_queue`. -/
  | errors
  /-- The return of a `suspend`. -/
  | returned
  /-- The head of the loop over `fork_queue`, with the coroutine that `next` returns. -/
  | forks (co : Option Nat)
deriving DecidableEq, Repr

namespace Sched

/-- `dispatch_wakeup`. -/
def dispatchWakeup (s : Sched) : Option Nat → Option Sched
  | none => if s.wakeupSession = [] then some { s with control := .errors } else none
  | some co =>
    if co ∈ s.wakeupSession then
      let s := { s with wakeupSession := s.wakeupSession.erase co }
      match s.sleepSession co with
      | none => some { s with control := .errors }
      | some session =>
        resume { s with sessionIdCoroutine := Function.update s.sessionIdCoroutine session (some .break),
                        woken := s.woken ++ [(co, s.mark co, s.naps co)], depth := s.depth + 1 } co
    else none

/-- `dispatch_error_queue`; resuming what is no coroutine is an error. -/
def dispatchErrorQueue (s : Sched) : Option Sched :=
  match s.errorQueue with
  | [] => some { s with control := .returned }
  | session :: rest =>
    let s' := { s with errorQueue := rest, sessionIdCoroutine := Function.update s.sessionIdCoroutine session none }
    match s.sessionIdCoroutine session with
    | some (.co co) => s'.resume co
    | _ => some { s' with control := .forks, depth := 0 }

/-- The return of a `suspend`: to the `dispatch_wakeup` of the next one, or to `skynet.dispatch_message`. -/
def returned (s : Sched) : Sched :=
  match s.depth with
  | 0 => { s with control := .forks }
  | depth + 1 => { s with control := .errors, depth := depth }

/-- The loop over `fork_queue`. -/
def dispatchFork (s : Sched) : Option Nat → Option Sched
  | none => if s.forkQueue = [] then some { s with control := .idle } else none
  | some co => if co ∈ s.forkQueue then resume { s with forkQueue := s.forkQueue.erase co } co else none

end Sched

def step (s : State) : Label → Option State
  | .die address => some { s with book := { s.book with alive := Function.update s.book.alive address false } }
  | .message m => if s.sched.control = .idle ∧ s.sched.quit = false then dispatch s m else none
  | .op o =>
    match s.sched.control with
    | .running co => perform s co o
    | _ => none
  | .wakeup co =>
    if s.sched.control = .wakeup then (s.sched.dispatchWakeup co).map fun sched => { s with sched := sched } else none
  | .errors =>
    if s.sched.control = .errors then s.sched.dispatchErrorQueue.map fun sched => { s with sched := sched } else none
  | .returned => if s.sched.control = .returned then some { s with sched := s.sched.returned } else none
  | .forks co =>
    if s.sched.control = .forks then (s.sched.dispatchFork co).map fun sched => { s with sched := sched } else none

end Dispatch
end Skynet
