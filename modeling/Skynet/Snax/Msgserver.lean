import Mathlib.Algebra.Order.Ring.Int
import Mathlib.Order.Basic
import Skynet.Lib.Endian
import Skynet.Lib.Transducer

/-!
# Skynet.Snax.Msgserver

The server of `snax/msgserver.lua` over `snax/gateserver.lua`: clients log in with an index that grows, send requests
with a session number, and can come back on a new connection and ask again.

* Tables that are shared (`u`, and `p` of a request) are entries of `users` and `cells`.
* `conf.request_handler` yields. A call of it is a task, and the event `done` is its return.
* `conf.disconnect_handler` may yield, so what gateserver does after it is an event of its own.
* `Env` has what the server is given: the conversions of `tonumber` and `crypt`, and the configuration.
* What is written to the log is not modelled.
-/

namespace Skynet
namespace Msgserver

abbrev Bytes := List UInt8

structure Env (ι : Type*) where
  tonumber : Bytes → Option ι
  b64decode : Bytes → Option Bytes
  hmac_hash : Bytes → Bytes → Option Bytes
  expired_number : Nat
  maxclient : Nat

/-- The table `p` of a request. The index is not read before it is set. -/
structure Cell (ι : Type*) where
  fd : Option Nat
  response : Option Bytes
  version : Option ι
  index : Nat

/-- The table `u`. Its responses are found by their sessions. -/
structure User (ι : Type*) where
  secret : Bytes
  version : ι
  index : Nat
  username : Bytes
  fd : Option Nat
  ip : Option Bytes
  response : List (Nat × Nat)

structure Task where
  user : Nat
  cell : Nat
  session : Nat
  fd : Nat
deriving Repr, DecidableEq

structure Server (ι : Type*) where
  users : Nat → User ι
  nusers : Nat
  cells : Nat → Cell ι
  ncells : Nat
  user_online : Bytes → Option Nat
  handshake : Nat → Option Bytes
  connection : Nat → Option Nat
  /-- `connection` of gateserver: false when the server has closed it. -/
  client : Nat → Option Bool
  client_number : Nat
  tasks : List Task

inductive Output where
  /-- The answer to a handshake. -/
  | result (fd : Nat) (text : String)
  | response (fd : Nat) (data : Bytes)
  | start (fd : Nat)
  | close (fd : Nat)
  /-- `conf.request_handler` -/
  | call (username message : Bytes)
  /-- `conf.disconnect_handler` -/
  | disconnected (username : Bytes)
deriving Repr, DecidableEq

inductive Event where
  | connect (fd : Nat) (addr : Bytes)
  | disconnect (fd : Nat)
  /-- What gateserver does after `disconnect`. -/
  | closeFd (fd : Nat)
  | message (fd : Nat) (msg : Bytes)
  /-- The task returns: whether there was no error, and its result. -/
  | done (task : Nat) (ok : Bool) (result : Bytes)
  | login (username secret : Bytes)
  | logout (username : Bytes)
deriving Repr, DecidableEq

section Model

variable {ι : Type*}

namespace Server

def setUser (s : Server ι) (u : Nat) (user : User ι) : Server ι := { s with users := Function.update s.users u user }

def setCell (s : Server ι) (c : Nat) (cell : Cell ι) : Server ι := { s with cells := Function.update s.cells c cell }

def setResponse (s : Server ι) (u : Nat) (response : List (Nat × Nat)) : Server ι :=
  s.setUser u { s.users u with response := response }

end Server

/-- `gateserver.closeclient` -/
def closeclient (s : Server ι) (fd : Nat) : Server ι × List Output :=
  if s.client fd = some true then ({ s with client := Function.update s.client fd (some false) }, [.close fd])
  else (s, [])

/-- `server.login` -/
def login [Zero ι] (s : Server ι) (username secret : Bytes) : Server ι :=
  match s.user_online username with
  | some _ => s
  | none =>
    { s.setUser s.nusers ⟨secret, 0, 0, username, none, none, []⟩ with
      nusers := s.nusers + 1
      user_online := Function.update s.user_online username (some s.nusers) }

/-- `server.logout` -/
def logout (s : Server ι) (username : Bytes) : Server ι × List Output :=
  match s.user_online username with
  | none => (s, [])
  | some u =>
    let s := { s with user_online := Function.update s.user_online username none }
    match (s.users u).fd with
    | none => (s, [])
    | some fd =>
      ({ (closeclient s fd).1 with connection := Function.update s.connection fd none }, (closeclient s fd).2)

/-- `MSG.open` and `handler.connect` -/
def connect (env : Env ι) (s : Server ι) (fd : Nat) (addr : Bytes) : Server ι × List Output :=
  if env.maxclient ≤ s.client_number then (s, [.close fd])
  else ({ s with
    client := Function.update s.client fd (some true)
    client_number := s.client_number + 1
    handshake := Function.update s.handshake fd (some addr) }, [.start fd])

/-- `handler.disconnect` -/
def disconnect (s : Server ι) (fd : Nat) : Server ι × List Output :=
  let s := { s with handshake := Function.update s.handshake fd none }
  match s.connection fd with
  | none => (s, [])
  | some u =>
    ({ s.setUser u { s.users u with fd := none } with connection := Function.update s.connection fd none },
      [.disconnected (s.users u).username])

/-- `close_fd` -/
def closeFd (s : Server ι) (fd : Nat) : Server ι :=
  match s.client fd with
  | none => s
  | some _ => { s with client := Function.update s.client fd none, client_number := s.client_number - 1 }

/-! ### Handshakes -/

/-- The match of "([^:]*):([^:]*):([^:]*)". -/
def matchAuth (message : Bytes) : Option (Bytes × Bytes × Bytes) :=
  match message.dropWhile (· ≠ 58) with
  | [] => none
  | _ :: rest =>
    match rest.dropWhile (· ≠ 58) with
    | [] => none
    | _ :: last => some (message.takeWhile (· ≠ 58), rest.takeWhile (· ≠ 58), last.takeWhile (· ≠ 58))

inductive Auth (ι : Type*) where
  | refused (text : String)
  | accepted (user : Nat) (idx : ι)
deriving Repr, DecidableEq

def doAuth [LinearOrder ι] (env : Env ι) (s : Server ι) (message : Bytes) : Auth ι :=
  match matchAuth message with
  | none => .refused "404 User Not Found"
  | some (username, index, hmac) =>
    match s.user_online username with
    | none => .refused "404 User Not Found"
    | some u =>
      match env.tonumber index, env.b64decode hmac with
      | some idx, some hmac =>
        if idx ≤ (s.users u).version then .refused "403 Index Expired"
        else
          match env.hmac_hash (s.users u).secret (username ++ 58 :: index) with
          | none => .refused "400 Bad Request"
          | some v => if v ≠ hmac then .refused "401 Unauthorized" else .accepted u idx
      | _, _ => .refused "400 Bad Request"

/-- `auth`, and the end of the handshake. -/
def auth [LinearOrder ι] (env : Env ι) (s : Server ι) (fd : Nat) (addr message : Bytes) : Server ι × List Output :=
  match doAuth env s message with
  | .refused text =>
    ({ (closeclient s fd).1 with handshake := Function.update s.handshake fd none },
      .result fd text :: (closeclient s fd).2)
  | .accepted u idx =>
    ({ s.setUser u { s.users u with version := idx, fd := some fd, ip := some addr } with
      connection := Function.update s.connection fd (some u)
      handshake := Function.update s.handshake fd none }, [.result fd "200 OK"])

/-! ### Requests -/

/-- The loop of `retire_response`: what stays of the responses, the cells, and the largest index. -/
def retireLoop (expired_number : Nat) :
    List (Nat × Nat) → (Nat → Cell ι) → Nat → List (Nat × Nat) × (Nat → Cell ι) × Nat
  | [], cells, max => ([], cells, max)
  | (k, p) :: rest, cells, max =>
    if (cells p).fd = none then
      if (cells p).index < expired_number then retireLoop expired_number rest cells max
      else
        let index := (cells p).index - expired_number
        let r := retireLoop expired_number rest (Function.update cells p { cells p with index := index })
          (Nat.max max index)
        ((k, p) :: r.1, r.2)
    else
      let r := retireLoop expired_number rest cells max
      ((k, p) :: r.1, r.2)

def retireResponse (env : Env ι) (s : Server ι) (u : Nat) : Server ι :=
  if env.expired_number * 2 ≤ (s.users u).index then
    let r := retireLoop env.expired_number (s.users u).response s.cells 0
    { s.setUser u { s.users u with response := r.1, index := r.2.2 + 1 } with cells := r.2.1 }
  else s

/-- The end of `do_request`, from `u.index = u.index + 1` on. -/
def answer (env : Env ι) (s : Server ι) (u c : Nat) : Server ι × List Output :=
  let p := s.cells c
  let s' := (s.setUser u { s.users u with index := (s.users u).index + 1 }).setCell c { p with fd := none }
  (retireResponse env s' u,
    match p.fd, p.response with
    | some fd, some data => if (s.connection fd).isSome then [.response fd data] else []
    | _, _ => [])

/-- The call of `conf.request_handler`. -/
def call (s : Server ι) (u fd session : Nat) (message : Bytes) : Server ι × List Output :=
  ({ (s.setCell s.ncells ⟨some fd, none, none, 0⟩).setResponse u
      ((session, s.ncells) :: (s.users u).response.filter fun p => p.1 ≠ session) with
    ncells := s.ncells + 1
    tasks := s.tasks ++ [⟨u, s.ncells, session, fd⟩] }, [.call (s.users u).username message])

/-- `do_request` up to where it yields, and what `request` does with its error. -/
def request [DecidableEq ι] (env : Env ι) (s : Server ι) (fd : Nat) (msg : Bytes) : Server ι × List Output :=
  match s.connection fd with
  | none => (s, [])
  | some u =>
    if msg.length < 4 then closeclient s fd
    else
      let session := Endian.ofBe (msg.drop (msg.length - 4))
      let message := msg.take (msg.length - 4)
      match (s.users u).response.lookup session with
      | none => call s u fd session message
      | some c =>
        let p := s.cells c
        if p.version = some (s.users u).version then
          let s := s.setResponse u ((s.users u).response.filter fun p => p.1 ≠ session)
          if p.response = none then closeclient s fd else call s u fd session message
        else
          let s := s.setCell c { p with fd := some fd, version := some (s.users u).version, index := (s.users u).index }
          if p.response = none then (s, []) else answer env s u c

/-- The response of a task, or nothing where it is too long. -/
def packed (session : Nat) (ok : Bool) (result : Bytes) : Option Bytes :=
  let result := if ok then result ++ 1 :: Endian.be 4 session else 0 :: Endian.be 4 session
  if result.length < 65536 then some (Endian.be 2 result.length ++ result) else none

/-- `do_request` from where `conf.request_handler` returns on. -/
def done (env : Env ι) (s : Server ι) (task : Nat) (ok : Bool) (result : Bytes) : Server ι × List Output :=
  match s.tasks[task]? with
  | none => (s, [])
  | some t =>
    let s := { s with tasks := s.tasks.eraseIdx task }
    match packed t.session ok result with
    | none => if (s.connection t.fd).isSome then closeclient s t.fd else (s, [])
    | some response =>
      let p := { s.cells t.cell with
        response := some response
        version := some (s.users t.user).version
        index := (s.users t.user).index }
      answer env (s.setCell t.cell p) t.user t.cell

def step [LinearOrder ι] [Zero ι] (env : Env ι) (s : Server ι) : Event → Server ι × List Output
  | .connect fd addr => connect env s fd addr
  | .disconnect fd => disconnect s fd
  | .closeFd fd => (closeFd s fd, [])
  | .message fd msg =>
    if s.client fd = some true then
      match s.handshake fd with
      | some addr => auth env s fd addr msg
      | none => request env s fd msg
    else (s, [])
  | .done task ok result => done env s task ok result
  | .login username secret => (login s username secret, [])
  | .logout username => logout s username

def init [Zero ι] : Server ι where
  users := fun _ => ⟨[], 0, 0, [], none, none, []⟩
  nusers := 0
  cells := fun _ => ⟨none, none, none, 0⟩
  ncells := 0
  user_online := fun _ => none
  handshake := fun _ => none
  connection := fun _ => none
  client := fun _ => none
  client_number := 0
  tasks := []

end Model

end Msgserver
end Skynet
