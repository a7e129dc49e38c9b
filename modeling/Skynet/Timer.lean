import Skynet.Lib.Run
import Mathlib.Logic.Function.Basic
import Mathlib.Data.Nat.Bitwise

/-!
# Skynet.Timer

The timer wheel of `skynet_timer.c`: 256 near lists, four levels of 64 lists, a 32-bit clock.

`ListRef` says which `struct link_list` of the wheel a pointer points to; a list holds its nodes
in link order. `placeOf` is the choice `add_node` makes; `shiftLoop` is the search of `timer_shift`
for the list to move down.

`System` runs one updating thread against any number of threads calling `timer_add`. `timer_update`
releases the lock while it dispatches a list, so it is cut there into locked sections, and a
`timer_add` can fall between any two of them.
-/

namespace Skynet
namespace Timers

def timeNearShift : Nat := 8
def timeNear : Nat := 1 <<< timeNearShift
def timeLevelShift : Nat := 6
def timeLevel : Nat := 1 <<< timeLevelShift
def timeNearMask : Nat := timeNear - 1
def timeLevelMask : Nat := timeLevel - 1

/-- `struct timer_event`. -/
structure TimerEvent where
  handle : Nat
  session : Int
deriving DecidableEq, Repr

/-- `struct timer_node` with the event stored behind it; `id` is its address. -/
structure TimerNode where
  id : Nat
  expire : Nat
  event : TimerEvent
deriving DecidableEq, Repr

/-- A pointer to one of the lists `near[idx]` and `t[level][idx]`. -/
inductive ListRef where
  | near (idx : Nat)
  | t (level idx : Nat)
deriving DecidableEq, Repr

/-- `struct timer`: the lists of the wheel and the 32-bit clock. -/
structure Timer where
  list : ListRef → List TimerNode
  time : Nat

def linkClear (T : Timer) (l : ListRef) : List TimerNode × Timer :=
  (T.list l, { T with list := Function.update T.list l [] })

def link (T : Timer) (l : ListRef) (node : TimerNode) : Timer :=
  { T with list := Function.update T.list l (T.list l ++ [node]) }

/-- The `for` loop of `add_node`, with the rounds left: the level whose lists cover `time`. -/
def levelLoop (time currentTime : Nat) : Nat → Nat → Nat → Nat
  | 0, i, _ => i
  | n + 1, i, mask =>
    if time ||| (mask - 1) = currentTime ||| (mask - 1) then i
    else levelLoop time currentTime n (i + 1) (mask <<< timeLevelShift)

/-- The list `add_node` links a node that expires at `time` to. -/
def placeOf (time currentTime : Nat) : ListRef :=
  if time ||| timeNearMask = currentTime ||| timeNearMask then .near (time &&& timeNearMask)
  else
    let i := levelLoop time currentTime 3 0 (timeNear <<< timeLevelShift)
    .t i ((time >>> (timeNearShift + i * timeLevelShift)) &&& timeLevelMask)

def addNode (T : Timer) (node : TimerNode) : Timer :=
  link T (placeOf node.expire T.time) node

/-- The locked section of `timer_add`; `id` is the address of the node. -/
def timerAdd (T : Timer) (id : Nat) (event : TimerEvent) (time : Nat) : Timer :=
  addNode T ⟨id, (time + T.time) % 2 ^ 32, event⟩

def moveList (T : Timer) (level idx : Nat) : Timer :=
  let (current, T) := linkClear T (.t level idx)
  current.foldl addNode T

/-- The `while` loop of `timer_shift`, with the rounds left: level and index of the list it
moves. -/
def shiftLoop (ct : Nat) : Nat → Nat → Nat → Nat → Option (Nat × Nat)
  | 0, _, _, _ => none
  | n + 1, i, mask, time =>
    if ct &&& (mask - 1) = 0 then
      let idx := time &&& timeLevelMask
      if idx ≠ 0 then some (i, idx)
      else shiftLoop ct n (i + 1) (mask <<< timeLevelShift) (time >>> timeLevelShift)
    else none

def timerShift (T : Timer) : Timer :=
  let ct := (T.time + 1) % 2 ^ 32
  let T := { T with time := ct }
  if ct = 0 then moveList T 3 0
  else
    match shiftLoop ct 4 0 timeNear (ct >>> timeNearShift) with
    | some (i, idx) => moveList T i idx
    | none => T

/-! ## The updating thread and the callers of `timer_add` -/

/-- Where `timer_update` is: not running, or dispatching a list with the lock released, in the
`timer_execute` before or after `timer_shift`. -/
inductive Pc where
  | idle
  | before (current : List TimerNode)
  | after (current : List TimerNode)
deriving DecidableEq, Repr

/-- What was asked of `timer_add`: the node, the clock, the number of shifts before and the delay. -/
structure Added where
  node : TimerNode
  time : Nat
  shifts : Nat
  delay : Nat
deriving DecidableEq, Repr

/-- One message pushed by `dispatch_list`: the node it comes from, the `timer_update` call it is
pushed in (calls are counted from 1) and the clock. -/
structure Dispatched where
  node : TimerNode
  call : Nat
  time : Nat
deriving DecidableEq, Repr

/-- The wheel, the updating thread, and the history: `calls` and `shifts` count the `timer_update`
calls begun and the `timer_shift`s done, `added` and `log` what was added and dispatched. -/
structure System where
  T : Timer
  pc : Pc
  calls : Nat
  shifts : Nat
  added : List Added
  log : List Dispatched

def System.init (time : Nat) : System where
  T := ⟨fun _ => [], time⟩
  pc := .idle
  calls := 0
  shifts := 0
  added := []
  log := []

/-- The near list `timer_execute` dispatches. -/
def executed (T : Timer) : ListRef := .near (T.time &&& timeNearMask)

/-- From the lock in `timer_execute` after the shift: unlink and dispatch the near list, or return. -/
def System.executeAfter (s : System) : System :=
  if s.T.list (executed s.T) ≠ [] then
    let (current, T) := linkClear s.T (executed s.T)
    { s with T := T, pc := .after current }
  else { s with pc := .idle }

/-- From the lock in `timer_execute` before the shift: the same, and then the shift. -/
def System.executeBefore (s : System) : System :=
  if s.T.list (executed s.T) ≠ [] then
    let (current, T) := linkClear s.T (executed s.T)
    { s with T := T, pc := .before current }
  else System.executeAfter { s with T := timerShift s.T, shifts := s.shifts + 1 }

inductive Step where
  /-- `timer_add` with a delay; `skynet_timeout` calls it for a positive `int` only -/
  | add (event : TimerEvent) (time : Nat)
  /-- the updating thread calls `timer_update` -/
  | update
  /-- `dispatch_list` pushes the message of its next node -/
  | dispatch
  /-- `dispatch_list` is done: lock again -/
  | relock

def System.step (s : System) : Step → Option System
  | .add event time =>
    if 1 ≤ time ∧ time < 2 ^ 31 then
      let id := s.added.length
      some { s with T := timerAdd s.T id event time,
                    added := s.added ++ [⟨⟨id, (time + s.T.time) % 2 ^ 32, event⟩, s.T.time, s.shifts, time⟩] }
    else none
  | .update =>
    match s.pc with
    | .idle => some (System.executeBefore { s with calls := s.calls + 1 })
    | _ => none
  | .dispatch =>
    match s.pc with
    | .before (n :: ns) => some { s with pc := .before ns, log := s.log ++ [⟨n, s.calls, s.T.time⟩] }
    | .after (n :: ns) => some { s with pc := .after ns, log := s.log ++ [⟨n, s.calls, s.T.time⟩] }
    | _ => none
  | .relock =>
    match s.pc with
    | .before [] => some s.executeBefore
    | .after [] => some s.executeAfter
    | _ => none

end Timers
end Skynet
