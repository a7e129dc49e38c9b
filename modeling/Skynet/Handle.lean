import Mathlib.Data.Nat.Bitwise
import Mathlib.Logic.Function.Basic
import Mathlib.Tactic.Ring

/-!
# Skynet.Handle

The handle storage of `skynet_handle.c`: a table of `slot_size` (a power of two) context
pointers, a moving allocation index and the list of bound names.

A context is named by its address (`CtxId`). The storage does not hold handles: it reads them
out of the contexts with `skynet_context_handle`, so every operation takes that reading, `hd`,
as an argument. The locked section of each function is one function here.

`skynetHandleRegister` returns the fault that stops the process where an `assert` of the source
fails. Its outer `for (;;)` doubles the table at most once per possible size, so `registerLoop`
counts the rounds left; `Skynet.HandleSpec` shows that they are never used up.
-/

namespace Skynet
namespace Handle

/-- Address of a `struct skynet_context`. -/
abbrev CtxId := Nat

def handleMask : Nat := 0xffffff

def handleRemoteShift : Nat := 24

def defaultSlotSize : Nat := 4

/-- `struct handle_name`. -/
structure HandleName where
  name : List UInt8
  handle : Nat
deriving DecidableEq, Repr

/-- `struct handle_storage`. The slot array is read at indices below `slotSize` only. -/
structure HandleStorage where
  harbor : Nat
  handleIndex : Nat
  slotSize : Nat
  slot : Nat → Option CtxId
  name : List HandleName

/-- What stops `skynet_handle_register`. -/
inductive Fault where
  /-- `assert((s->slot_size*2 - 1) <= HANDLE_MASK)` -/
  | tableFull
  /-- `assert(new_slot[hash] == NULL)` -/
  | newSlotTaken
  /-- `skynet_context_handle(NULL)` -/
  | nullContext
  /-- the rounds of the outer loop are used up -/
  | rounds
deriving DecidableEq, Repr

def skynetHandleInit (harbor : Nat) : HandleStorage where
  harbor := (harbor &&& 0xff) <<< handleRemoteShift
  handleIndex := 1
  slotSize := defaultSlotSize
  slot := fun _ => none
  name := []

/-- The handle tried in round `i` of the search. -/
def candidate (s : HandleStorage) (i : Nat) : Nat := (i + s.handleIndex) &&& handleMask

/-- The inner loop: the first round whose slot is free. -/
def findFree (s : HandleStorage) : Option Nat :=
  (List.range s.slotSize).find? fun i => (s.slot (candidate s i &&& (s.slotSize - 1))).isNone

/-- The rehash loop after `n` of its rounds. -/
def rehash (hd : CtxId → Nat) (s : HandleStorage) : Nat → Except Fault (Nat → Option CtxId)
  | 0 => .ok fun _ => none
  | n + 1 =>
    match rehash hd s n with
    | .error e => .error e
    | .ok newSlot =>
      match s.slot n with
      | none => .error .nullContext
      | some ctx =>
        let hash := hd ctx &&& (s.slotSize * 2 - 1)
        if (newSlot hash).isSome then .error .newSlotTaken
        else .ok (Function.update newSlot hash (some ctx))

/-- The outer loop of `skynet_handle_register`, with the number of rounds left. -/
def registerLoop (hd : CtxId → Nat) (ctx : CtxId) :
    Nat → HandleStorage → Except Fault (HandleStorage × Nat)
  | 0, _ => .error .rounds
  | fuel + 1, s =>
    match findFree s with
    | some i =>
      let handle := candidate s i
      .ok ({ s with slot := Function.update s.slot (handle &&& (s.slotSize - 1)) (some ctx),
                    handleIndex := handle + 1 }, handle ||| s.harbor)
    | none =>
      if s.slotSize * 2 - 1 ≤ handleMask then
        match rehash hd s s.slotSize with
        | .error e => .error e
        | .ok newSlot => registerLoop hd ctx fuel { s with slot := newSlot, slotSize := s.slotSize * 2 }
      else .error .tableFull

def skynetHandleRegister (hd : CtxId → Nat) (s : HandleStorage) (ctx : CtxId) :
    Except Fault (HandleStorage × Nat) :=
  registerLoop hd ctx 25 s

/-- `skynet_handle_grab` without the reference it takes: the context found. -/
def skynetHandleGrab (hd : CtxId → Nat) (s : HandleStorage) (handle : Nat) : Option CtxId :=
  match s.slot (handle &&& (s.slotSize - 1)) with
  | some ctx => if hd ctx = handle then some ctx else none
  | none => none

/-- The locked section of `skynet_handle_retire`: the new storage and the context to release
(the function returns 1 exactly when there is one). -/
def skynetHandleRetire (hd : CtxId → Nat) (s : HandleStorage) (handle : Nat) :
    HandleStorage × Option CtxId :=
  let hash := handle &&& (s.slotSize - 1)
  match s.slot hash with
  | some ctx =>
    if hd ctx = handle then
      ({ s with slot := Function.update s.slot hash none,
                name := s.name.filter fun n => n.handle ≠ handle }, some ctx)
    else (s, none)
  | none => (s, none)

end Handle
end Skynet
