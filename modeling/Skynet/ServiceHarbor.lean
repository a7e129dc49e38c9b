import Mathlib.Algebra.Ring.Int.Defs
import Mathlib.Algebra.Ring.Nat
import Mathlib.Logic.Function.Basic
import Skynet.Lib.Run

/-!
# Skynet.ServiceHarbor

The outgoing side of `service_harbor.c`: messages to handles and to global names, updates of names, and
connections of other harbors.

* The queues of messages are lists. A name that is not in the hash map is one with value 0 and no queue,
  as `hash_insert` makes it.
* What the service sends is `out`, in order. The packages that other harbors send are left out, except
  for the byte of the handshake.
* `via` is the global name that a message was sent to, if it was; the code does not keep it.
-/

namespace Skynet
namespace ServiceHarbor

abbrev Bytes := List UInt8

abbrev Name := List UInt8

def HANDLE_MASK : Nat := 0xffffff
def HANDLE_REMOTE_SHIFT : Nat := 24
def REMOTE_MAX : Nat := 256
def HEADER_COOKIE_LENGTH : Nat := 12

/-- `struct remote_message_header`: the type is in the high 8 bits of `destination`. -/
structure Header where
  source : Nat
  destination : Nat
  session : Nat
deriving Repr, DecidableEq

structure HarborMsg where
  header : Header
  buffer : Bytes
  via : Option Name
deriving Repr, DecidableEq

structure Keyvalue where
  value : Nat
  queue : Option (List HarborMsg)
deriving Repr, DecidableEq

/-- `STATUS_HEADER` and `STATUS_CONTENT` do not differ for what is sent. -/
inductive Status where
  | wait
  | handshake
  | header
  | down
deriving Repr, DecidableEq

structure Slave where
  fd : Nat
  queue : Option (List HarborMsg)
  status : Status
deriving Repr, DecidableEq

inductive Output where
  /-- `send_remote` to a socket. -/
  | remote (fd : Nat) (m : HarborMsg)
  | handshake (fd id : Nat)
  /-- `skynet_send` to a service of this node. -/
  | send (source destination type session : Nat) (buffer : Bytes)
  /-- "Q name" to the slave service. -/
  | query (name : Name)
  /-- A message that is freed with a line in the log. -/
  | drop (m : HarborMsg)
deriving Repr, DecidableEq

structure Harbor where
  id : Nat
  slave : Nat
  map : Name → Keyvalue
  s : Nat → Slave
  out : List Output

/-- `harbor_create` and `harbor_init`. -/
def init (id slave : Nat) : Harbor where
  id := id
  slave := slave
  map := fun _ => { value := 0, queue := none }
  s := fun _ => { fd := 0, queue := none, status := .wait }
  out := []

def PTYPE_ERROR : Nat := 7

namespace Harbor

def emit (h : Harbor) (os : List Output) : Harbor := { h with out := h.out ++ os }

def setName (h : Harbor) (name : Name) (kv : Keyvalue) : Harbor := { h with map := Function.update h.map name kv }

def setSlave (h : Harbor) (id : Nat) (s : Slave) : Harbor := { h with s := Function.update h.s id s }

end Harbor

/-- `send_remote`; a message whose size is no `uint32_t` is not sent. -/
def sendRemote (fd : Nat) (m : HarborMsg) : Output :=
  if 0xffffffff < m.buffer.length + HEADER_COOKIE_LENGTH then .drop m else .remote fd m

/-- The handle of a name in the header of a message that waited for it. -/
def HarborMsg.setHandle (handle : Nat) (m : HarborMsg) : HarborMsg :=
  { m with header := { m.header with destination := m.header.destination ||| (handle &&& HANDLE_MASK) } }

/-- The messages of a queue for a service of this node. -/
def sendLocal (handle : Nat) (m : HarborMsg) : Output :=
  .send m.header.source handle (m.header.destination >>> HANDLE_REMOTE_SHIFT) m.header.session m.buffer

/-- `dispatch_name_queue`, for the messages `q` of a name bound to `handle`. -/
def dispatchNameQueue (handle : Nat) (q : List HarborMsg) (h : Harbor) : Harbor :=
  let harborId := handle >>> HANDLE_REMOTE_SHIFT
  let s := h.s harborId
  if s.fd = 0 then
    if s.status = .down then h.emit (q.map .drop)
    else
      let queue := s.queue.getD [] ++ q
      if harborId = h.slave >>> HANDLE_REMOTE_SHIFT then
        (h.setSlave harborId { s with queue := none }).emit (queue.map (sendLocal handle))
      else h.setSlave harborId { s with queue := some queue }
  else h.emit ((q.map (HarborMsg.setHandle handle)).map (sendRemote s.fd))

/-- `dispatch_queue`. -/
def dispatchQueue (id : Nat) (h : Harbor) : Harbor :=
  let s := h.s id
  match s.queue with
  | none => h
  | some q => (h.setSlave id { s with queue := none }).emit (q.map (sendRemote s.fd))

/-- `update_name`. -/
def updateName (name : Name) (handle : Nat) (h : Harbor) : Harbor :=
  let node := h.map name
  match node.queue with
  | none => h.setName name { node with value := handle }
  | some q => dispatchNameQueue handle q (h.setName name { value := handle, queue := none })

def remoteHeader (source destination type session : Nat) : Header where
  source := source
  destination := (type <<< HANDLE_REMOTE_SHIFT) ||| (destination &&& HANDLE_MASK)
  session := session

/-- `remote_send_handle`. -/
def remoteSendHandle (source destination type session : Nat) (msg : Bytes) (via : Option Name) (h : Harbor) : Harbor :=
  let harborId := destination >>> HANDLE_REMOTE_SHIFT
  let m : HarborMsg := ⟨remoteHeader source destination type session, msg, via⟩
  if harborId = h.id then h.emit [.send source destination type session msg]
  else
    let s := h.s harborId
    if s.fd = 0 ∨ s.status = .handshake then
      if s.status = .down then h.emit [.send destination source PTYPE_ERROR 0 [], .drop m]
      else h.setSlave harborId { s with queue := some (s.queue.getD [] ++ [m]) }
    else h.emit [sendRemote s.fd m]

/-- `remote_send_name`. -/
def remoteSendName (source : Nat) (name : Name) (type session : Nat) (msg : Bytes) (h : Harbor) : Harbor :=
  let node := h.map name
  if node.value = 0 then
    let m : HarborMsg := ⟨⟨source, type <<< HANDLE_REMOTE_SHIFT, session⟩, msg, some name⟩
    (h.setName name { node with queue := some (node.queue.getD [] ++ [m]) }).emit [.query name]
  else remoteSendHandle source node.value type session msg (some name) h

/-- The commands `S` (`accept` is false) and `A` of `harbor_command`. -/
def connect (accept : Bool) (fd id : Nat) (h : Harbor) : Harbor :=
  if fd = 0 ∨ id = 0 ∨ REMOTE_MAX ≤ id then h
  else if (h.s id).fd ≠ 0 then h
  else
    let h := (h.setSlave id { h.s id with fd := fd, status := if accept then .header else .handshake }).emit [.handshake fd h.id]
    if accept then dispatchQueue id h else h

/-- The slave of a socket, for `push_socket_data`. -/
def findFd (h : Harbor) (fd : Nat) : Option Nat :=
  ((List.range REMOTE_MAX).drop 1).find? fun i => (h.s i).fd = fd

/-- `close_harbor`; the messages of the queue are freed. -/
def closeHarbor (id : Nat) (h : Harbor) : Harbor :=
  h.setSlave id { h.s id with status := .down, queue := none }

/-- The case `STATUS_HANDSHAKE` of `push_socket_data`. -/
def shake (fd remote : Nat) (h : Harbor) : Option Harbor :=
  match findFd h fd with
  | none => none
  | some id =>
    if (h.s id).status ≠ .handshake then none
    else if remote ≠ id then some (closeHarbor id h)
    else some (dispatchQueue id (h.setSlave id { h.s id with status := .header }))

inductive Event where
  | sendName (source : Nat) (name : Name) (type session : Nat) (msg : Bytes)
  | sendHandle (source destination type session : Nat) (msg : Bytes)
  | update (name : Name) (handle : Nat)
  | connect (accept : Bool) (fd id : Nat)
  | shake (fd remote : Nat)
deriving Repr, DecidableEq

def step (h : Harbor) : Event → Option Harbor
  | .sendName source name type session msg => some (remoteSendName source name type session msg h)
  | .sendHandle source destination type session msg => some (remoteSendHandle source destination type session msg none h)
  | .update name handle => some (updateName name handle h)
  | .connect accept fd id => some (connect accept fd id h)
  | .shake fd remote => shake fd remote h

end ServiceHarbor
end Skynet
