import Skynet.Gate.Framing
import Skynet.Lib.Decimal

/-!
# Skynet.Gate.Service

The messages of the gate (`service_gate.c`).

* `step` : a message of the socket server, of a client of the gate or of its owner, and what the gate does. There is no
  result where an assertion fails, a NULL pointer is followed or a block is read past its end.
* What the framework answers comes with the message: `name` is what `skynet_queryname` finds.
* A text is read up to its length; a text with a NUL in it is not modelled.
-/

namespace Skynet
namespace ServiceGate

open Seri (toInt32)
open Decimal (isSpace digit digits sign strtol)
open Skynet.Gate (Hashid Fault hashidInit hashidLookup hashidInsert hashidRemove hashidFull)

/-! ### strtoul -/

/-- The prefix `0x`, which may stand before digits of the base 16. -/
def skipPrefix : Bytes → Bytes
  | 48 :: x :: b :: s => if (x = 120 ∨ x = 88) ∧ digit b < 16 then b :: s else 48 :: x :: b :: s
  | s => s

/-- `strtoul` with the base 16, as a `uint32_t`. -/
def strtoul (s : Bytes) : Nat :=
  let (negative, s) := sign (s.dropWhile isSpace)
  let n := digits 16 (skipPrefix s)
  if n < 2 ^ 64 then (if negative then (2 ^ 64 - n) % 2 ^ 32 else n % 2 ^ 32) else 2 ^ 32 - 1

/-! ### Commands -/

inductive Command where
  | kick (uid : Int)
  | forward (id : Int) (agent client : Nat)
  | broker (name : Bytes)
  | start (uid : Int)
  | close
  /-- A text without a command in it, or a `forward` without all of its words. -/
  | ignored
  | unknown
deriving Repr, DecidableEq

/-- `memcmp(command, word, i) == 0`, where the word ends with a NUL. -/
def isWord (command word : Bytes) (i : Nat) : Bool := command.take i = (word ++ [0]).take i

/-- What is before the first blank, and what is behind it (`strsep`). -/
def strsep (s : Bytes) : Bytes × Option Bytes :=
  (s.takeWhile (· ≠ 32), match s.dropWhile (· ≠ 32) with | [] => none | _ :: rest => some rest)

/-- The words of a `forward`. The first character of the handles is not read, and there is none in an empty word. -/
def forwardCommand (parm : Bytes) : Option Command :=
  match strsep parm with
  | (_, none) => some .ignored
  | (idstr, some client) =>
    match strsep client with
    | (_, none) => some .ignored
    | (agent, some client) =>
      match client with
      | [] => none
      | _ :: handle =>
        -- behind an empty word is its NUL, and then the next word
        some (.forward (toInt32 (strtol idstr)) (strtoul (if agent = [] then client else agent.tail)) (strtoul handle))

/-- How `_ctrl` reads a text. -/
def command (msg : Bytes) : Option Command :=
  let i := (msg.takeWhile (· ≠ 32)).length
  let parm := (msg.drop i).dropWhile (· = 32)
  if msg = [] then some .ignored
  else if isWord msg (text "kick") i then some (.kick (toInt32 (strtol parm)))
  else if isWord msg (text "forward") i then forwardCommand parm
  else if isWord msg (text "broker") i then some (.broker parm)
  else if isWord msg (text "start") i then some (.start (toInt32 (strtol parm)))
  else if isWord msg (text "close") i then some .close
  else some .unknown

/-! ### The connections -/

/-- A connection as `gate_init` makes it, and as it is left behind. -/
def freeConnection : Connection := { id := -1, agent := 0, client := 0, remote_name := [], buffer := databufferInit }

def setConn (g : Gate) (i : Nat) (c : Connection) : Gate := { g with conn := Function.update g.conn i c }

/-- `hashid_lookup` with an `int`. No id of a chain is negative. -/
def lookup (g : Gate) (id : Int) : Option Int :=
  if id < 0 then some (-1) else (hashidLookup g.hash id.toNat).toOption

def report (g : Settings) (data : String) : List Output :=
  if g.watchdog = 0 then [] else [.send 0 g.watchdog PTYPE_TEXT (text data)]

/-- What `%s` prints. -/
def cstring (s : Bytes) : Bytes := s.takeWhile (· ≠ 0)

/-- The text "%d open %d %s:0". -/
def reportOpen (g : Settings) (id : Nat) (remote_name : Bytes) : List Output :=
  if g.watchdog = 0 then []
  else [.send 0 g.watchdog PTYPE_TEXT (text s!"{id} open {id} " ++ cstring remote_name ++ text ":0")]

/-! ### Messages -/

inductive Event where
  /-- SKYNET_SOCKET_TYPE_DATA -/
  | data (id : Nat) (buffer : Bytes)
  /-- SKYNET_SOCKET_TYPE_CONNECT -/
  | connect (id : Nat)
  /-- SKYNET_SOCKET_TYPE_CLOSE and SKYNET_SOCKET_TYPE_ERROR -/
  | closed (id : Nat)
  /-- SKYNET_SOCKET_TYPE_ACCEPT -/
  | accept (id ud : Nat) (remote_name : Bytes)
  /-- SKYNET_SOCKET_TYPE_WARNING -/
  | warning (id ud : Nat)
  /-- PTYPE_CLIENT -/
  | client (source : Nat) (msg : Bytes)
  /-- PTYPE_TEXT -/
  | ctrl (msg : Bytes) (name : Nat)
deriving Repr, DecidableEq

def execute (g : Gate) (name : Nat) : Command → Option (Gate × List Output)
  | .kick uid => (lookup g uid).map fun id => (g, if 0 ≤ id then [.socketClose uid] else [])
  | .forward id agent client => (lookup g id).map fun i =>
    (if 0 ≤ i then setConn g i.toNat { g.conn i.toNat with agent := agent, client := client } else g, [])
  | .broker _ => some ({ g with broker := name }, [])
  | .start uid => (lookup g uid).map fun id => (g, if 0 ≤ id then [.socketStart uid] else [])
  | .close => some (if 0 ≤ g.listen_id then ({ g with listen_id := -1 }, [.socketClose g.listen_id]) else (g, []))
  | .ignored => some (g, [])
  | .unknown => some (g, [.error .command])

/-- The id of a socket at the end of a message. -/
def uidOf (msg : Bytes) : Int := toInt32 (Endian.ofLe (msg.drop (msg.length - 4)))

def stepData (g : Gate) (id : Nat) (buffer : Bytes) : Option (Gate × List Output) :=
  (lookup g id).bind fun i =>
    if 0 ≤ i then (dispatchMessage g (g.conn i.toNat) id buffer).map fun r => (setConn g i.toNat r.1, r.2)
    else some (g, [.error (.drop id), .socketClose id])

def stepClosed (g : Gate) (id : Nat) : Option (Gate × List Output) :=
  (hashidRemove g.hash id).toOption.map fun r =>
    let g := { g with hash := r.2 }
    if 0 ≤ r.1 then (setConn g r.1.toNat freeConnection, report g.toSettings s!"{id} close") else (g, [])

def stepAccept (g : Gate) (id ud : Nat) (remote_name : Bytes) : Option (Gate × List Output) :=
  if g.listen_id = id then
    if hashidFull g.hash then some (g, [.socketClose ud])
    else (hashidInsert g.hash ud).toOption.map fun r =>
      let g := { g with hash := r.2 }
      let c := { g.conn r.1 with id := ud, remote_name := remote_name.take 31 }
      (setConn g r.1 c, reportOpen g.toSettings ud c.remote_name ++ [.error (.socketOpen ud)])
  else none

def stepClient (g : Gate) (source : Nat) (msg : Bytes) : Option (Gate × List Output) :=
  if msg.length ≤ 4 then some (g, [.error (.clientMessage source)])
  else (lookup g (uidOf msg)).map fun id =>
    (g, if 0 ≤ id then [.socketSend (uidOf msg) (msg.take (msg.length - 4))]
      else [.error (.clientId (uidOf msg) source)])

/-- `_cb` and `dispatch_socket_message` -/
def step (g : Gate) : Event → Option (Gate × List Output)
  | .data id buffer => stepData g id buffer
  | .connect id =>
    if (id : Int) = g.listen_id then some (g, [])
    else (lookup g id).map fun i => (g, if i < 0 then [.error (.unknown id), .socketClose id] else [])
  | .closed id => stepClosed g id
  | .accept id ud remote_name => stepAccept g id ud remote_name
  | .warning id ud => some (g, [.error (.sendBuffer id ud)])
  | .client source msg => stepClient g source msg
  | .ctrl msg name => (command msg).bind (execute g name)

/-- The end of `gate_init`, for the arguments it has read. -/
def gateInit (settings : Settings) (max : Nat) : Except Fault Gate := do
  let hash ← hashidInit max
  return { settings with hash := hash, conn := fun _ => freeConnection }

/-- `gate_release` -/
def gateRelease (g : Gate) : List Output :=
  ((List.range g.hash.cap).filterMap fun i => if 0 ≤ (g.conn i).id then some (.socketClose (g.conn i).id) else none) ++
    if 0 ≤ g.listen_id then [.socketClose g.listen_id] else []

end ServiceGate
end Skynet
