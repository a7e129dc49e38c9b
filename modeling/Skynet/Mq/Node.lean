import Skynet.Lib.Ring
import Skynet.Lib.Run
import Skynet.Lib.Threads

/-!
# Skynet.Mq.Node

The message queues of a node (`skynet_mq.c`) and the threads that use them (`skynet_server.c`): workers that
dispatch, senders, and threads that launch or retire a service.

An operation (`Op`) is one step of a thread: a locked section, or an access to memory that is shared. A context and its
queue have one number. What a callback of a service does is done by other threads here.

The handle storage of `Skynet.Handle` is seen through its results: `skynet_handle_grab` and `skynet_handle_retire` find
a context that is registered and has the handle, or nothing. The overload warning of `skynet_mq_pop` is left out.

* `perform` : an operation, with the operations that follow it.
* `step` : a new thread, or the next operation of a thread.
-/

namespace Skynet
namespace Mq

/-- `struct skynet_message`. -/
structure Message where
  source : Nat
  session : Int
  data : Nat
  sz : Nat
deriving Repr, DecidableEq

/-- `struct message_queue`. -/
structure MessageQueue where
  handle : Nat
  ring : RingBuf Message
  release : Bool
  inGlobal : Bool

/-- `struct skynet_context`. It is `registered` while a slot of the handle storage points to it. -/
structure Context where
  handle : Nat
  ref : Nat
  registered : Bool

inductive Op
  /-- `skynet_globalmq_pop` of a worker that has no queue. -/
  | take
  /-- `skynet_handle_grab` in `skynet_context_message_dispatch`. -/
  | dispatch (q : Nat)
  /-- `skynet_mq_pop` in round `i` of `n`, and `skynet_mq_length` after it. -/
  | round (q ctx i n : Nat)
  | measure (q ctx i n : Nat) (msg : Message)
  /-- `dispatch_message`, or `skynet_free` where `ctx->cb` is NULL. -/
  | deliver (q ctx i n : Nat) (msg : Message)
  /-- `skynet_globalmq_pop` after the last round. -/
  | swap (q ctx : Nat)
  /-- `skynet_globalmq_push`. -/
  | link (q : Nat)
  /-- `skynet_mq_release`, and then `_drop_queue` with its `_release`. -/
  | mqRelease (q : Nat)
  | drop (q : Nat)
  | free (q : Nat)
  /-- `skynet_handle_grab` of a sender, and `skynet_mq_push` for each message. -/
  | grab (handle : Nat) (msgs : List Message)
  | push (ctx : Nat) (msgs : List Message)
  /-- `skynet_context_release`, and `skynet_mq_mark_release` in `delete_context`. -/
  | release (ctx : Nat)
  | mark (ctx : Nat)
  /-- The locked section of `skynet_handle_retire`. -/
  | retire (handle : Nat)
  /-- `skynet_context_new`: `skynet_handle_register`, `ctx->handle`, `skynet_mq_create`, and the init function. -/
  | register
  | store (ctx handle : Nat)
  | create (ctx handle : Nat)
  | init (ctx handle : Nat)
deriving Repr, DecidableEq

/-- What happens to a message that is taken out of a queue. -/
inductive Fate
  | dispatched (ctx : Nat) (msg : Message)
  | dropped (msg : Message)
deriving Repr, DecidableEq

structure Node where
  context : Nat → Option Context
  queue : Nat → Option MessageQueue
  /-- How many contexts have been created. -/
  contexts : Nat
  /-- `struct global_queue`, from its head. -/
  global : List Nat
  threads : List (List Op)
  /-- History: the handle that each context was given, the messages that each queue took, their fates, the source and
  the destination of the errors that were sent for it, and how often it was freed. -/
  handles : Nat → Nat
  accepted : Nat → List Message
  fates : Nat → List Fate
  errors : Nat → List (Nat × Nat)
  freed : Nat → Nat

/-- What the environment decides: the result of a search for a handle, the handle of a new context, whether the init
function returns 0, and the weight of the worker. -/
structure Choice where
  found : Option Nat
  handle : Nat
  ok : Bool
  weight : Int

def Node.setQueue (s : Node) (q : Nat) (mq : Option MessageQueue) : Node :=
  { s with queue := Function.update s.queue q mq }

def Node.setContext (s : Node) (c : Nat) (ctx : Option Context) : Node :=
  { s with context := Function.update s.context c ctx }

/-- A context is registered, with a handle. -/
def Node.registered (s : Node) (handle c : Nat) : Bool :=
  (s.context c).any fun ctx => ctx.registered && ctx.handle == handle

/-- A search of the handle storage may have this result. -/
def Node.finds (s : Node) (handle : Nat) : Option Nat → Bool
  | none => (List.range s.contexts).all fun c => !s.registered handle c
  | some c => s.registered handle c

/-- `skynet_context_grab`. -/
def Node.grab (s : Node) (c : Nat) : Node :=
  s.setContext c ((s.context c).map fun ctx => { ctx with ref := ctx.ref + 1 })

/-- `skynet_mq_create`. -/
def MessageQueue.create (handle : Nat) : MessageQueue where
  handle := handle
  ring := { cap := 64, head := 0, tail := 0, slots := fun _ => ⟨0, 0, 0, 0⟩ }
  release := false
  inGlobal := true

/-- `skynet_mq_length`. -/
def MessageQueue.length (mq : MessageQueue) : Nat :=
  if mq.ring.head ≤ mq.ring.tail then mq.ring.tail - mq.ring.head else mq.ring.tail + mq.ring.cap - mq.ring.head

def MessageQueue.push (mq : MessageQueue) (msg : Message) : MessageQueue :=
  { mq with ring := mq.ring.push (· * 2) msg, inGlobal := true }

/-- An operation, and what its thread does next. There is none where an assertion fails. -/
def perform (s : Node) (ch : Choice) : Op → Option (Node × List Op)
  | .take =>
    match s.global with
    | [] => some (s, [])
    | q :: global => some ({ s with global := global }, [.dispatch q])
  | .dispatch q =>
    match s.queue q with
    | none => none
    | some mq =>
      if s.finds mq.handle ch.found then
        match ch.found with
        | none => some (s, [.mqRelease q, .take])
        | some c => some (s.grab c, [.round q c 0 1])
      else none
  | .round q c i n =>
    match s.queue q with
    | none => none
    | some mq =>
      match mq.ring.pop with
      | none => some (s.setQueue q (some { mq with inGlobal := false }), [.release c, .take])
      | some (msg, ring) => some (s.setQueue q (some { mq with ring := ring }), [.measure q c i n msg])
  | .measure q c i n msg =>
    match s.queue q with
    | none => none
    | some mq => some (s, [.deliver q c i (if i = 0 ∧ 0 ≤ ch.weight then mq.length >>> ch.weight.toNat else n) msg])
  | .deliver q c i n msg =>
    some ({ s with fates := Function.update s.fates q (s.fates q ++ [Fate.dispatched c msg]) },
      if i + 1 < n then [.round q c (i + 1) n] else [.swap q c])
  | .swap q c =>
    -- `assert(q == ctx->queue)`
    if q = c then
      match s.global with
      | [] => some (s, [.release c, .dispatch q])
      | nq :: global => some ({ s with global := global }, [.link q, .release c, .dispatch nq])
    else none
  | .link q => some ({ s with global := s.global ++ [q] }, [])
  | .mqRelease q =>
    match s.queue q with
    | none => none
    | some mq => if mq.release then some (s, [.drop q]) else some ({ s with global := s.global ++ [q] }, [])
  | .drop q =>
    match s.queue q with
    | none => none
    | some mq =>
      match mq.ring.pop with
      | none => some (s.setQueue q (some { mq with inGlobal := false }), [.free q])
      | some (msg, ring) =>
        -- `assert(source)` of `drop_message`
        if mq.handle = 0 then none
        else some ({ s.setQueue q (some { mq with ring := ring }) with
          fates := Function.update s.fates q (s.fates q ++ [Fate.dropped msg])
          errors := Function.update s.errors q (s.errors q ++ [(mq.handle, msg.source)]) }, [.drop q])
  | .free q => some ({ s.setQueue q none with freed := Function.update s.freed q (s.freed q + 1) }, [])
  | .grab handle msgs =>
    if s.finds handle ch.found then
      match ch.found with
      | none => some (s, [])
      | some c => some (s.grab c, [.push c msgs])
    else none
  | .push c [] => some (s, [.release c])
  | .push c (msg :: msgs) =>
    match s.queue c with
    | none => none
    | some mq =>
      let s := { s.setQueue c (some (mq.push msg)) with
        accepted := Function.update s.accepted c (s.accepted c ++ [msg]) }
      if mq.inGlobal then some (s, [.push c msgs])
      else some ({ s with global := s.global ++ [c] }, [.push c msgs])
  | .release c =>
    match s.context c with
    | none => none
    | some ctx =>
      some (s.setContext c (some { ctx with ref := ctx.ref - 1 }), if ctx.ref - 1 = 0 then [.mark c] else [])
  | .mark c =>
    match s.queue c with
    | none => none
    | some mq =>
      -- `assert(q->release == 0)`
      if mq.release then none
      else
        let s := (s.setQueue c (some { mq with release := true })).setContext c none
        if mq.inGlobal then some (s, []) else some ({ s with global := s.global ++ [c] }, [])
  | .retire handle =>
    if s.finds handle ch.found then
      match ch.found with
      | none => some (s, [])
      | some c =>
        some (s.setContext c ((s.context c).map fun ctx => { ctx with registered := false }), [.release c])
    else none
  | .register =>
    some ({ s.setContext s.contexts (some ⟨0, 2, true⟩) with
      contexts := s.contexts + 1
      handles := Function.update s.handles s.contexts ch.handle },
      [.store s.contexts ch.handle])
  | .store c handle =>
    some (s.setContext c ((s.context c).map fun ctx => { ctx with handle := handle }), [.create c handle])
  | .create c handle => some (s.setQueue c (some (.create handle)), [.init c handle])
  | .init c handle =>
    some (s, if ch.ok then [.release c, .link c] else [.release c, .retire handle, .mqRelease c])

/-- What a new thread is for. -/
inductive Task
  | worker
  | sender (handle : Nat) (msgs : List Message)
  | killer (handle : Nat)
  | launcher
deriving Repr, DecidableEq

def Task.op : Task → Op
  | .worker => .take
  | .sender handle msgs => .grab handle msgs
  | .killer handle => .retire handle
  | .launcher => .register

inductive Label
  | spawn (task : Task)
  | run (i : Nat) (ch : Choice)

def step (s : Node) : Label → Option Node
  | .spawn task => some { s with threads := s.threads ++ [[task.op]] }
  | .run i ch =>
    match s.threads[i]? with
    | some (op :: rest) =>
      match perform s ch op with
      | some (s, new) => some { s with threads := s.threads.set i (new ++ rest) }
      | none => none
    | _ => none

/-- A node without services and threads. -/
def Node.start : Node where
  context := fun _ => none
  queue := fun _ => none
  contexts := 0
  global := []
  threads := []
  handles := fun _ => 0
  accepted := fun _ => []
  fates := fun _ => []
  errors := fun _ => []
  freed := fun _ => 0

end Mq
end Skynet
