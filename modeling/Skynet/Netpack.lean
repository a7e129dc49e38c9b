import Mathlib.Algebra.Ring.Int.Defs
import Mathlib.Algebra.Ring.Nat
import Mathlib.Data.List.Basic
import Mathlib.Data.Int.Bitwise
import Skynet.Lib.Ring
import Skynet.Lib.Run

/-!
# Skynet.Netpack

`lua-netpack.c`: packages of a two-byte length and their bytes, put together from the data events
of any number of connections.

* A chain of the hash holds the records of packages that are not complete yet. The buffer of a
  record is the bytes written to it so far.
* A call on a queue takes the value at index 1 of the Lua stack, `nil` or the queue, and leaves the
  queue there.
* `Net` is the queue with its caller, which pops the queue whenever `filter` reports `more`;
  `stream` and `delivered` are ghosts: for each fd, the bytes that came since it was last closed
  and the packages delivered since then.
-/

namespace Skynet
namespace Netpack

abbrev Bytes := List UInt8

def QUEUESIZE : Nat := 1024
def HASHSIZE : Nat := 4096

structure Pack where
  id : Int
  buffer : Bytes
  size : Nat
deriving Repr, DecidableEq

structure Uncomplete where
  id : Int
  buffer : Bytes
  size : Nat
  read : Int
  header : Nat
deriving Repr, DecidableEq

/-- `struct queue`. A slot that was never written holds no package. -/
structure Queue where
  ring : RingBuf (Option Pack)
  hash : Nat → List Uncomplete

/-- `hash_fd`; the sum is taken as a `uint32_t`. -/
def hashFd (fd : Int) : Nat :=
  let a := fd >>> 24
  let b := fd >>> 12
  let c := fd
  ((a + b + c) % 2 ^ 32).toNat % HASHSIZE

/-- The first record of a chain with the given fd, and the chain without it. -/
def unlink (fd : Int) : List Uncomplete → Option (Uncomplete × List Uncomplete)
  | [] => none
  | uc :: next =>
    if uc.id = fd then some (uc, next)
    else
      match unlink fd next with
      | some (found, rest) => some (found, uc :: rest)
      | none => none

/-- `find_uncomplete(q, fd)`: the record is taken out of its chain. -/
def findUncomplete (q : Queue) (fd : Int) : Option (Uncomplete × Queue) :=
  match unlink fd (q.hash (hashFd fd)) with
  | some (uc, rest) => some (uc, { q with hash := Function.update q.hash (hashFd fd) rest })
  | none => none

def newQueue : Queue :=
  { ring := { cap := QUEUESIZE, head := 0, tail := 0, slots := fun _ => none }, hash := fun _ => [] }

/-- `get_queue`. -/
def getQueue (q : Option Queue) : Queue := q.getD newQueue

/-- `push_data`; a full ring gets `QUEUESIZE` slots more. (`tail -= cap` leaves 0: `tail` has just
reached `cap`.) -/
def pushData (q : Queue) (fd : Int) (buffer : Bytes) (size : Nat) : Queue :=
  { q with ring := q.ring.push (· + QUEUESIZE) (some { id := fd, buffer := buffer, size := size }) }

/-- Put a record at the front of its chain. -/
def link (q : Queue) (uc : Uncomplete) : Queue :=
  { q with hash := Function.update q.hash (hashFd uc.id) (uc :: q.hash (hashFd uc.id)) }

def readSize (b0 b1 : UInt8) : Nat := b0.toNat <<< 8 ||| b1.toNat

/-- A record with one byte of the header (`uc->read = -1`). -/
def headerRecord (fd : Int) (b : UInt8) : Uncomplete :=
  { id := fd, buffer := [], size := 0, read := -1, header := b.toNat }

/-- A record of a package of `size` bytes, of which `buffer` came. -/
def bodyRecord (fd : Int) (size : Nat) (buffer : Bytes) : Uncomplete :=
  { id := fd, buffer := buffer, size := size, read := buffer.length, header := 0 }

/-- `push_more`; a round takes at least the two bytes of a header. -/
def pushMore : Nat → Queue → Int → Bytes → Queue
  | fuel + 1, q, fd, b0 :: b1 :: buffer =>
    let packSize := readSize b0 b1
    if buffer.length < packSize then link q (bodyRecord fd packSize buffer)
    else
      let q := pushData q fd (buffer.take packSize) packSize
      let buffer := buffer.drop packSize
      if 0 < buffer.length then pushMore fuel q fd buffer else q
  | _, q, fd, [b] => link q (headerRecord fd b)
  | _, q, _, _ => q

/-- What `filter` returns besides the queue. -/
inductive FilterRes where
  | none
  | data (fd : Int) (msg : Bytes) (size : Nat)
  | more
deriving Repr, DecidableEq

/-- The branch of `filter_data_` with a record, once its size is known: `need` bytes are missing. -/
def fillUncomplete (q : Queue) (uc : Uncomplete) (buffer : Bytes) : Queue × FilterRes :=
  let need := uc.size - uc.read.toNat
  if buffer.length < need then
    (link q { uc with buffer := uc.buffer.take uc.read.toNat ++ buffer, read := uc.read + buffer.length }, .none)
  else
    let pack := uc.buffer.take uc.read.toNat ++ buffer.take need
    let buffer := buffer.drop need
    if buffer.length = 0 then (q, .data uc.id pack uc.size)
    else (pushMore buffer.length (pushData q uc.id pack uc.size) uc.id buffer, .more)

/-- The branch of `filter_data_` without a record. -/
def filterFresh (q : Option Queue) (fd : Int) : Bytes → Option (Option Queue × FilterRes)
  | [] => none
  | [b] => some (link (getQueue q) (headerRecord fd b), .none)
  | b0 :: b1 :: buffer =>
    let packSize := readSize b0 b1
    if buffer.length < packSize then some (link (getQueue q) (bodyRecord fd packSize buffer), .none)
    else if buffer.length = packSize then some (q, .data fd buffer packSize)
    else
      let q := pushData (getQueue q) fd (buffer.take packSize) packSize
      let buffer := buffer.drop packSize
      some (pushMore buffer.length q fd buffer, .more)

/-- `filter_data_`; no result when an assertion fails or a byte beyond the buffer is read. -/
def filterData (q : Option Queue) (fd : Int) (buffer : Bytes) : Option (Option Queue × FilterRes) :=
  match q.bind fun q => findUncomplete q fd with
  | some (uc, q) =>
    if uc.read < 0 then
      -- assert(uc->read == -1)
      if uc.read ≠ -1 then none
      else
        match buffer with
        | [] => none
        | b :: buffer =>
          let uc := { uc with size := b.toNat ||| uc.header <<< 8, buffer := [], read := 0 }
          let (q, res) := fillUncomplete q uc buffer
          some (some q, res)
    else
      let (q, res) := fillUncomplete q uc buffer
      some (some q, res)
  | none => filterFresh q fd buffer

/-- `close_uncomplete`. -/
def closeUncomplete (q : Option Queue) (fd : Int) : Option Queue :=
  match q with
  | none => none
  | some q =>
    match findUncomplete q fd with
    | some (_, q) => some q
    | none => some q

/-- `lpop`. -/
def pop (q : Queue) : Option (Option Pack × Queue) :=
  match q.ring.pop with
  | some (np, ring) => some (np, { q with ring := ring })
  | none => none

/-- The caller's loop after `more`: `pop` until it returns nothing, at most `fuel` times. -/
def drain : Nat → Queue → Queue × List (Option Pack)
  | 0, q => (q, [])
  | fuel + 1, q =>
    match pop q with
    | none => (q, [])
    | some (np, q) => ((drain fuel q).1, np :: (drain fuel q).2)

structure Net where
  q : Option Queue
  stream : Int → Bytes
  delivered : Int → List Bytes
  aborted : Bool

def init : Net := { q := none, stream := fun _ => [], delivered := fun _ => [], aborted := false }

/-- The first `size` bytes of the message are handed to the handler of `fd`. -/
def deliver (delivered : Int → List Bytes) (fd : Int) (msg : Bytes) (size : Nat) : Int → List Bytes :=
  Function.update delivered fd (delivered fd ++ [msg.take size])

def deliverAll (delivered : Int → List Bytes) : List (Option Pack) → (Int → List Bytes)
  | [] => delivered
  | some np :: ps => deliverAll (deliver delivered np.id np.buffer np.size) ps
  | none :: ps => deliverAll delivered ps

inductive Event where
  | data (fd : Int) (chunk : Bytes)
  /-- `SKYNET_SOCKET_TYPE_CLOSE` or `SKYNET_SOCKET_TYPE_ERROR`. -/
  | close (fd : Int)
deriving Repr, DecidableEq

/-- What the caller does with the result of `filter`. -/
def receive (n : Net) (q : Option Queue) : FilterRes → Net
  | .none => { n with q := q }
  | .data fd msg size => { n with q := q, delivered := deliver n.delivered fd msg size }
  | .more =>
    match q with
    | none => { n with q := q }
    | some q =>
      { n with q := some (drain q.ring.cap q).1, delivered := deliverAll n.delivered (drain q.ring.cap q).2 }

def step (n : Net) : Event → Option Net
  | .data fd chunk =>
    if n.aborted ∨ chunk = [] then none
    else
      let n := { n with stream := Function.update n.stream fd (n.stream fd ++ chunk) }
      match filterData n.q fd chunk with
      | none => some { n with aborted := true }
      | some (q, res) => some (receive n q res)
  | .close fd =>
    if n.aborted then none
    else some { n with
      q := closeUncomplete n.q fd
      stream := Function.update n.stream fd []
      delivered := Function.update n.delivered fd [] }

end Netpack
end Skynet
