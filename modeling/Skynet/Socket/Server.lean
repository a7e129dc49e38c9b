import Mathlib.Data.List.Basic
import Skynet.Lib.Run

/-!
# Skynet.Socket.Server

The write side of one TCP socket of `socket_server.c`: the high and low lists of write buffers,
`send_list_tcp`, `send_buffer`, `send_socket`, `close_socket` and the events that change the type
of the socket.

* A memory buffer is its address and its bytes. For plain memory the request's buffer is the
  memory itself; for a user object the interface gives the address of the bytes.
* What each `write` call returns is part of the label of a step.
* `wire`, `accepted` and `dropped` are ghosts: the bytes written to the fd, each with the number of
  its package; the packages the socket took, in request order; the write buffers freed by
  `force_close`. `sp_write` only turns the writable events on and off, and here they may come at
  any time.
-/

namespace Skynet
namespace Socket

inductive Priority where
  | high
  | low
deriving Repr, DecidableEq

inductive SocketType where
  | invalid
  | plisten
  | listen
  | connecting
  | connected
  | halfclose
  | paccept
  | bind
deriving Repr, DecidableEq

/-- What `write` returns: a count, or -1 with `errno` (EINTR, EAGAIN or EWOULDBLOCK, other). -/
inductive WriteRes where
  | ok (n : Nat)
  | intr
  | again
  | error
deriving Repr, DecidableEq

/-- A send request the socket took: `buffer` is `request->buffer`, and the `send_object` has the
bytes `data` at the address `base`. -/
structure Package where
  seq : Nat
  priority : Priority
  buffer : Nat
  base : Nat
  data : List UInt8
deriving Repr, DecidableEq

/-- The bytes of a package as they appear on the wire. -/
def Package.bytes (p : Package) : List (Nat × UInt8) := p.data.map fun b => (p.seq, b)

structure WriteBuffer where
  pkg : Package
  ptr : Nat
  sz : Nat
deriving Repr, DecidableEq

/-- A `wb_list`: the buffers from `head` on, and the number of the package `tail` points to. -/
structure WbList where
  nodes : List WriteBuffer
  tail : Option Nat
deriving Repr, DecidableEq

def WbList.clear : WbList := { nodes := [], tail := none }

structure Sock where
  type : SocketType
  high : WbList
  low : WbList
  wbSize : Int
  wire : List (Nat × UInt8)
  accepted : List Package
  dropped : List WriteBuffer
  aborted : Bool

/-- The socket as `new_fd` leaves it. -/
def newFd (type : SocketType) : Sock :=
  { type := type, high := .clear, low := .clear, wbSize := 0, wire := [], accepted := [], dropped := [],
    aborted := false }

/-- `force_close`: both lists are freed. -/
def forceClose (s : Sock) : Sock :=
  if s.type = .invalid then s
  else { s with
    type := .invalid, high := .clear, low := .clear
    dropped := s.dropped ++ s.high.nodes ++ s.low.nodes }

/-- The bytes put on the wire by `write(fd, ptr, sz)` when it returns `n`. -/
def written (wb : WriteBuffer) (n : Nat) : List (Nat × UInt8) :=
  (wb.pkg.bytes.drop (wb.ptr - wb.pkg.base)).take n

/-- What `send_list_tcp` leaves: `closed` when it returns `SOCKET_CLOSE`, and the outcomes of the
`write` calls it did not make. -/
structure SendList where
  closed : Bool
  list : WbList
  wbSize : Int
  wire : List (Nat × UInt8)
  rest : List WriteRes

/-- `send_list_tcp`, with the outcomes of its `write` calls; no result when there are fewer of them
than calls, or a count above the size. -/
def sendListTcp (wbSize : Int) (wire : List (Nat × UInt8)) (list : WbList) :
    List WriteRes → Option SendList
  | [] =>
    match list.nodes with
    | [] => some { closed := false, list := .clear, wbSize := wbSize, wire := wire, rest := [] }
    | _ :: _ => none
  | w :: ws =>
    match list.nodes with
    | [] => some { closed := false, list := .clear, wbSize := wbSize, wire := wire, rest := w :: ws }
    | tmp :: next =>
      match w with
      | .intr => sendListTcp wbSize wire list ws
      | .again => some { closed := false, list := list, wbSize := wbSize, wire := wire, rest := ws }
      | .error => some { closed := true, list := list, wbSize := wbSize, wire := wire, rest := ws }
      | .ok n =>
        if tmp.sz < n then none
        else if n ≠ tmp.sz then
          some { closed := false
                 list := { list with nodes := { tmp with ptr := tmp.ptr + n, sz := tmp.sz - n } :: next }
                 wbSize := wbSize - n, wire := wire ++ written tmp n, rest := ws }
        else sendListTcp (wbSize - n) (wire ++ written tmp n) { list with nodes := next } ws

/-- `list_uncomplete`. -/
def listUncomplete (l : WbList) : Bool :=
  match l.nodes with
  | [] => false
  | wb :: _ => decide (wb.ptr ≠ wb.pkg.buffer)

/-- `raise_uncomplete`: the head of the low list becomes the high list. -/
def raiseUncomplete (s : Sock) : Sock :=
  match s.low.nodes with
  | [] => { s with aborted := true }
  | tmp :: next =>
    let low : WbList := if next = [] then .clear else { s.low with nodes := next }
    -- assert(high->head == NULL)
    if s.high.nodes ≠ [] then { s with aborted := true }
    else { s with low := low, high := { nodes := [tmp], tail := some tmp.pkg.seq } }

/-- `send_buffer`: whether it returns `SOCKET_CLOSE`, and the socket. -/
def sendBuffer (s : Sock) (ws : List WriteRes) : Option (Bool × Sock) :=
  -- assert(!list_uncomplete(&s->low))
  if listUncomplete s.low then some (true, { s with aborted := true })
  else do
    let r ← sendListTcp s.wbSize s.wire s.high ws
    let s := { s with high := r.list, wbSize := r.wbSize, wire := r.wire }
    if r.closed then some (true, forceClose s)
    else if s.high.nodes = [] then
      if s.low.nodes ≠ [] then do
        let r ← sendListTcp s.wbSize s.wire s.low r.rest
        let s := { s with low := r.list, wbSize := r.wbSize, wire := r.wire }
        if r.closed then some (true, forceClose s)
        else if listUncomplete s.low then some (false, raiseUncomplete s)
        else some (false, s)
      else if s.type = .halfclose then some (true, forceClose s)
      else some (false, s)
    else some (false, s)

/-- `append_sendbuffer_`; no result when an assertion on the tail fails. -/
def appendSendbuffer (l : WbList) (p : Package) (n : Nat) : Option WbList :=
  let buf : WriteBuffer := { pkg := p, ptr := p.base + n, sz := p.data.length - n }
  match l.nodes.getLast? with
  | none => some { nodes := [buf], tail := some p.seq }
  | some last =>
    -- assert(s->tail != NULL); assert(s->tail->next == NULL)
    if l.tail = some last.pkg.seq then some { nodes := l.nodes ++ [buf], tail := some p.seq }
    else none

/-- `append_sendbuffer(ss, s, request, n)`. -/
def appendHigh (s : Sock) (p : Package) (n : Nat) : Sock :=
  match appendSendbuffer s.high p n with
  | none => { s with aborted := true }
  | some l => { s with high := l, wbSize := s.wbSize + (p.data.length - n : Nat) }

/-- `append_sendbuffer_low(ss, s, request)`. -/
def appendLow (s : Sock) (p : Package) : Sock :=
  match appendSendbuffer s.low p 0 with
  | none => { s with aborted := true }
  | some l => { s with low := l, wbSize := s.wbSize + (p.data.length : Nat) }

def sendBufferEmpty (s : Sock) : Bool := s.high.nodes.isEmpty && s.low.nodes.isEmpty

/-- A send request: what `send_object_init` makes of the buffer. -/
structure Request where
  priority : Priority
  buffer : Nat
  base : Nat
  data : List UInt8
deriving Repr, DecidableEq

/-- The package of a request, numbered in the order the socket takes them. -/
def Request.package (r : Request) (s : Sock) : Package :=
  { seq := s.accepted.length, priority := r.priority, buffer := r.buffer, base := r.base, data := r.data }

/-- `send_socket` for a TCP socket; `w` is what the direct `write` returns when there is one. -/
def sendSocket (s : Sock) (r : Request) (w : WriteRes) : Option Sock :=
  let p := r.package s
  let t := { s with accepted := s.accepted ++ [p] }
  if s.type = .invalid ∨ s.type = .halfclose ∨ s.type = .paccept then some s
  else if s.type = .plisten ∨ s.type = .listen then some s
  else if sendBufferEmpty s ∧ s.type = .connected then
    match w with
    | .error => some (forceClose s)
    | .intr | .again => if p.data.length = 0 then some t else some (appendHigh t p 0)
    | .ok n =>
      if p.data.length < n then none
      else
        let t := { t with wire := t.wire ++ p.bytes.take n }
        if n = p.data.length then some t else some (appendHigh t p n)
  else
    match r.priority with
    | .low => some (appendLow t p)
    | .high => some (appendHigh t p 0)

/-- `if (!send_buffer_empty(s)) send_buffer(ss, s, result)`. -/
def closeFlush (s : Sock) (ws : List WriteRes) : Option (Bool × Sock) :=
  if sendBufferEmpty s then some (false, s) else sendBuffer s ws

/-- `close_socket` for a socket that exists. -/
def closeSocket (s : Sock) (shutdown : Bool) (ws : List WriteRes) : Option Sock := do
  let (closed, s) ← closeFlush s ws
  if closed || s.aborted then some s
  else if shutdown || sendBufferEmpty s then some (forceClose s)
  else some { s with type := .halfclose }

inductive Label where
  | send (r : Request) (w : WriteRes)
  | writable (ws : List WriteRes)
  /-- `report_connect`, with or without a socket error. -/
  | connect (ok : Bool)
  /-- `start_socket`, with or without an error of `sp_add`. -/
  | start (ok : Bool)
  | close (shutdown : Bool) (ws : List WriteRes)
  /-- The peer closed, or `read` failed. -/
  | hangup

def step (s : Sock) (a : Label) : Option Sock :=
  if s.aborted then none
  else
    match a with
    | .send r w => sendSocket s r w
    | .writable ws =>
      if s.type = .invalid ∨ s.type = .connecting ∨ s.type = .listen then some s
      else (sendBuffer s ws).map Prod.snd
    | .connect ok =>
      if s.type ≠ .connecting then none
      else if ok then some { s with type := .connected } else some (forceClose s)
    | .start ok =>
      if s.type = .paccept then if ok then some { s with type := .connected } else some (forceClose s)
      else if s.type = .plisten then if ok then some { s with type := .listen } else some (forceClose s)
      else some s
    | .close shutdown ws => if s.type = .invalid then some s else closeSocket s shutdown ws
    | .hangup => some (forceClose s)

end Socket
end Skynet
