import Mathlib.Algebra.Ring.Int.Defs
import Mathlib.Algebra.Ring.Nat
import Mathlib.Logic.Function.Basic
import Mathlib.Data.List.Basic
import Skynet.Lib.Run

/-!
# Skynet.Socket.ReserveId

Socket ids: `reserve_id` in any number of threads, and the socket thread, which opens the sockets and
frees their slots. A step is one access to `alloc_id` or to the type of a slot.

* `alloc_id` is a 32 bit integer, here as a number below `2^32`; from `2^31` on it is negative.
* `new_fd` frees the slot when the socket cannot be added to the event pool, and `open_socket` and
  `add_udp_socket` free it once more after that.
* `seen` and `overtaken` are ghosts: the slots a call found in use, and whether another call has incremented
  `alloc_id` since the first increment of this one.

`ids_ok` says what holds of the ids in every run that meets `Guard`; `id_zero` is a run that returns 0.
-/

namespace Skynet
namespace Socket
namespace ReserveId

def MAX_SOCKET : Nat := 2 ^ 16

def HASH_ID (id : Nat) : Nat := id % MAX_SOCKET

/-- `SOCKET_TYPE_INVALID`, `SOCKET_TYPE_RESERVE` and the types of an open socket. -/
inductive SlotType where
  | invalid
  | reserve
  | used
deriving DecidableEq

structure Slot where
  type : SlotType
  id : Nat

inductive Pc where
  /-- in front of `ATOM_INC` -/
  | increment
  /-- in front of `ATOM_AND`: the id was negative -/
  | mask
  | test (id : Nat)
  /-- in front of `ATOM_CAS` -/
  | cas (id : Nat)
  /-- in front of `s->id = id` -/
  | store (id : Nat)
  /-- returned, and its request is on the way to the socket thread -/
  | given (id : Nat)
  | opened (id : Nat)
  /-- freed by `new_fd`, and about to be freed again -/
  | failing (id : Nat)
  | freed
  /-- returned -1 -/
  | none
deriving DecidableEq

/-- A call of `reserve_id`, and what became of its id. -/
structure Call where
  i : Nat
  seen : List Nat
  overtaken : Bool
  pc : Pc

structure State where
  alloc_id : Nat
  slot : Nat → Slot
  calls : List Call
  /-- the socket thread is between the two frees -/
  freeing : Bool
  /-- a failed assertion of `new_fd` -/
  fault : Bool

def State.call (s : State) (c : Nat) : Option Call := s.calls[c]?

/-- `socket_server_create`: the ids of the slots are not set. -/
def State.init (id : Nat → Nat) : State where
  alloc_id := 0
  slot k := ⟨.invalid, id k⟩
  calls := []
  freeing := false
  fault := false

inductive Label where
  | reserve
  | inc (c : Nat)
  | mask (c : Nat)
  | test (c : Nat)
  | cas (c : Nat)
  | store (c : Nat)
  /-- `new_fd` succeeds -/
  | new_fd (c : Nat)
  /-- `open_socket` fails before `new_fd` -/
  | openFails (c : Nat)
  /-- `sp_add` fails in `new_fd`; `again` for the callers that free the slot once more -/
  | addFails (c : Nat) (again : Bool)
  | freeAgain (c : Nat)
  /-- `force_close` -/
  | close (c : Nat)
deriving DecidableEq

def setSlot (k : Nat) (f : Slot → Slot) (s : State) : State := { s with slot := Function.update s.slot k (f (s.slot k)) }

def setType (id : Nat) (t : SlotType) (s : State) : State := setSlot (HASH_ID id) (fun x => { x with type := t }) s

def setPc (c : Nat) (pc : Pc) (s : State) : State := { s with calls := s.calls.modify c fun x => { x with pc := pc } }

/-- A call that has incremented `alloc_id` is overtaken by the call `c`. -/
def overtake (c : Nat) (s : State) : State :=
  { s with calls := s.calls.mapIdx fun d x =>
      if d = c ∨ (x.pc = .increment ∧ x.seen = []) then x else { x with overtaken := true } }

/-- The slot was in use; the loop goes on with `i`. -/
def saw (c id i : Nat) (s : State) : State :=
  { s with calls := s.calls.modify c fun x =>
      { x with i := i, seen := HASH_ID id :: x.seen, pc := if i = MAX_SOCKET then .none else .increment } }

def step (s : State) : Label → Option State
  | .reserve => some { s with calls := s.calls ++ [⟨0, [], false, .increment⟩] }
  | .inc c =>
    match s.call c with
    | some ⟨_, _, _, .increment⟩ =>
      let id := (s.alloc_id + 1) % 2 ^ 32
      some (setPc c (if id < 2 ^ 31 then .test id else .mask) (overtake c { s with alloc_id := id }))
    | _ => none
  | .mask c =>
    match s.call c with
    | some ⟨_, _, _, .mask⟩ =>
      let id := s.alloc_id % 2 ^ 31
      some (setPc c (.test id) { s with alloc_id := id })
    | _ => none
  | .test c =>
    match s.call c with
    | some ⟨i, _, _, .test id⟩ =>
      if (s.slot (HASH_ID id)).type = .invalid then some (setPc c (.cas id) s) else some (saw c id (i + 1) s)
    | _ => none
  | .cas c =>
    match s.call c with
    | some ⟨i, _, _, .cas id⟩ =>
      if (s.slot (HASH_ID id)).type = .invalid then some (setPc c (.store id) (setType id .reserve s))
      else some (saw c id i s) -- retry
    | _ => none
  | .store c =>
    match s.call c with
    | some ⟨_, _, _, .store id⟩ => some (setPc c (.given id) (setSlot (HASH_ID id) (fun x => { x with id := id }) s))
    | _ => none
  | .new_fd c =>
    match s.call c with
    | some ⟨_, _, _, .given id⟩ =>
      if s.freeing = true then none
      else if (s.slot (HASH_ID id)).type = .reserve then
        some (setPc c (.opened id) (setSlot (HASH_ID id) (fun _ => ⟨.used, id⟩) s))
      else some { s with fault := true }
    | _ => none
  | .openFails c =>
    match s.call c with
    | some ⟨_, _, _, .given id⟩ => if s.freeing = true then none else some (setPc c .freed (setType id .invalid s))
    | _ => none
  | .addFails c again =>
    match s.call c with
    | some ⟨_, _, _, .given id⟩ =>
      if s.freeing = true then none
      else if (s.slot (HASH_ID id)).type = .reserve then
        let s := setType id .invalid s
        if again then some (setPc c (.failing id) { s with freeing := true }) else some (setPc c .freed s)
      else some { s with fault := true }
    | _ => none
  | .freeAgain c =>
    match s.call c with
    | some ⟨_, _, _, .failing id⟩ => some (setPc c .freed (setType id .invalid { s with freeing := false }))
    | _ => none
  | .close c =>
    match s.call c with
    | some ⟨_, _, _, .opened id⟩ =>
      if s.freeing = true then none
      else if (s.slot (HASH_ID id)).type = .used ∧ (s.slot (HASH_ID id)).id = id then
        some (setPc c .freed (setType id .invalid s))
      else none
    | _ => none

/-! ### What the ids are for -/

/-- The id whose slot belongs to the call. -/
def Pc.inUse : Pc → Option Nat
  | .store id => some id
  | .given id => some id
  | .opened id => some id
  | _ => Option.none

structure Ok (s : State) : Prop where
  /-- `assert(s->type == SOCKET_TYPE_RESERVE)` -/
  fault : s.fault = false
  positive : ∀ c x id, s.call c = some x → x.pc = .given id ∨ x.pc = .opened id → 0 < id ∧ id < 2 ^ 31
  /-- the slot of an id belongs to no other call -/
  apart : ∀ c d x y id id', s.call c = some x → s.call d = some y → c ≠ d → x.pc.inUse = some id →
    y.pc.inUse = some id' → HASH_ID id ≠ HASH_ID id' ∧ id ≠ id'
  sockets : ∀ c x id k, s.call c = some x → x.pc = .given id ∨ x.pc = .opened id → (s.slot k).type = .used →
    k ≠ HASH_ID id → (s.slot k).id ≠ id
  slot : ∀ c x id, s.call c = some x → x.pc = .given id ∨ x.pc = .opened id →
    (s.slot (HASH_ID id)).type ≠ .invalid ∧ (s.slot (HASH_ID id)).id = id
  /-- a call that returned -1 found every slot in use -/
  full : ∀ c x, s.call c = some x → x.pc = .none → ∀ k < MAX_SOCKET, k ∈ x.seen

/-- Slot 0 is in use when 0 is the candidate; a call gives up only when no other one has incremented `alloc_id`
in the meantime; the second free finds the slot free. -/
def Guard (s : State) : Label → Prop
  | .cas c => ∀ x, s.call c = some x → x.pc = .cas 0 → (s.slot 0).type ≠ .invalid
  | .test c => ∀ x id, s.call c = some x → x.pc = .test id → (s.slot (HASH_ID id)).type ≠ .invalid → x.i + 1 = MAX_SOCKET →
      x.overtaken = false
  | .freeAgain c => ∀ x id, s.call c = some x → x.pc = .failing id → (s.slot (HASH_ID id)).type = .invalid
  | _ => True

/-! ### The invariant -/

/-- The call is in the loop. -/
def Pc.searching : Pc → Bool
  | .increment | .mask | .test _ | .cas _ => true
  | _ => false

structure CallOk (slot : Nat → Slot) (alloc_id : Nat) (x : Call) : Prop where
  candidate : ∀ id, x.pc = .test id ∨ x.pc = .cas id ∨ x.pc.inUse = some id → id < 2 ^ 31
  positive : ∀ id, x.pc.inUse = some id → 0 < id
  reserve : ∀ id, x.pc = .store id ∨ x.pc = .given id → (slot (HASH_ID id)).type = .reserve
  used : ∀ id, x.pc = .opened id → (slot (HASH_ID id)).type = .used
  stored : ∀ id, x.pc = .given id ∨ x.pc = .opened id → (slot (HASH_ID id)).id = id
  count : x.pc.searching = true → x.i ≤ x.seen.length ∧ x.i < MAX_SOCKET
  /-- a call that was not overtaken has seen the last slots, one after the other -/
  last : x.pc.searching = true → x.overtaken = false → ∀ (j k : Nat), x.seen[j]? = some k →
    k < MAX_SOCKET ∧ (k + j + if x.pc = .increment then 0 else 1) % MAX_SOCKET = alloc_id % MAX_SOCKET
  current : ∀ id, x.pc = .test id ∨ x.pc = .cas id → x.overtaken = false → HASH_ID id = alloc_id % MAX_SOCKET
  full : x.pc = .none → ∀ k < MAX_SOCKET, k ∈ x.seen

structure Inv (s : State) : Prop where
  fault : s.fault = false
  slots : ∀ k, (s.slot k).type = .used → HASH_ID (s.slot k).id = k
  calls : ∀ c x, s.call c = some x → CallOk s.slot s.alloc_id x
  apart : ∀ c d x y id id', s.call c = some x → s.call d = some y → c ≠ d → x.pc.inUse = some id →
    y.pc.inUse = some id' → HASH_ID id ≠ HASH_ID id'

variable {s s' : State} {c : Nat} {x x' : Call} {slot slot' : Nat → Slot} {alloc_id alloc_id' : Nat}

theorem CallOk.inUse_type (h : CallOk slot alloc_id x) {id : Nat} (hid : x.pc.inUse = some id) :
    (slot (HASH_ID id)).type ≠ .invalid := by
  cases hpc : x.pc with
  | store id' =>
    rw [hpc] at hid
    cases hid
    rw [h.reserve id (.inl hpc)]
    decide
  | given id' =>
    rw [hpc] at hid
    cases hid
    rw [h.reserve id (.inr hpc)]
    decide
  | opened id' =>
    rw [hpc] at hid
    cases hid
    rw [h.used id hpc]
    decide
  | _ =>
    rw [hpc] at hid
    cases hid

theorem CallOk.congr (h : CallOk slot alloc_id x) (hslot : ∀ id, x.pc.inUse = some id → slot' (HASH_ID id) = slot (HASH_ID id))
    (halloc : alloc_id' % MAX_SOCKET = alloc_id % MAX_SOCKET) : CallOk slot' alloc_id' x where
  candidate := h.candidate
  positive := h.positive
  reserve id hid := by
    rw [hslot id (by rcases hid with hid | hid <;> rw [hid] <;> rfl)]
    exact h.reserve id hid
  used id hid := by
    rw [hslot id (by rw [hid]; rfl)]
    exact h.used id hid
  stored id hid := by
    rw [hslot id (by rcases hid with hid | hid <;> rw [hid] <;> rfl)]
    exact h.stored id hid
  count := h.count
  last := by rw [halloc]; exact h.last
  current := by rw [halloc]; exact h.current
  full := h.full

/-- A step of the call `c`, which takes or keeps a slot, or none. -/
theorem Inv.step_of (hI : Inv s) (hc : s.call c = some x) (hfault : s'.fault = false)
    (hslots : ∀ k, (s'.slot k).type = .used → HASH_ID (s'.slot k).id = k)
    (hself : s'.call c = some x') (hx' : CallOk s'.slot s'.alloc_id x')
    (hothers : ∀ d y', d ≠ c → s'.call d = some y' →
      ∃ y, s.call d = some y ∧ y'.pc = y.pc ∧ CallOk s'.slot s'.alloc_id y')
    (htaken : ∀ id, x'.pc.inUse = some id → x.pc.inUse = some id ∨ (s.slot (HASH_ID id)).type = .invalid) : Inv s' := by
  have hpair : ∀ d y' id id', d ≠ c → s'.call d = some y' → x'.pc.inUse = some id → y'.pc.inUse = some id' →
      HASH_ID id ≠ HASH_ID id' := by
    intro d y' id id' hd hy' hid hid'
    obtain ⟨y, hy, hpc, _⟩ := hothers d y' hd hy'
    rw [hpc] at hid'
    rcases htaken id hid with hheld | hfree
    · exact hI.apart c d x y id id' hc hy (Ne.symm hd) hheld hid'
    · intro heq
      rw [heq] at hfree
      exact (hI.calls d y hy).inUse_type hid' hfree
  refine ⟨hfault, hslots, fun d y' hy' => ?_, fun d e y z id id' hy hz hne hid hid' => ?_⟩
  · by_cases hd : d = c
    · subst hd
      rw [hself] at hy'
      rw [← Option.some.inj hy']
      exact hx'
    · obtain ⟨_, _, _, hok⟩ := hothers d y' hd hy'
      exact hok
  · by_cases hd : d = c
    · subst hd
      rw [hself] at hy
      rw [← Option.some.inj hy] at hid
      exact hpair e z id id' (Ne.symm hne) hz hid hid'
    · by_cases he : e = c
      · subst he
        rw [hself] at hz
        rw [← Option.some.inj hz] at hid'
        exact (hpair d y id' id hd hy hid' hid).symm
      · obtain ⟨y₀, hy₀, hpc, _⟩ := hothers d y hd hy
        obtain ⟨z₀, hz₀, hpc', _⟩ := hothers e z he hz
        rw [hpc] at hid
        rw [hpc'] at hid'
        exact hI.apart d e y₀ z₀ id id' hy₀ hz₀ hne hid hid'

/-! ### Steps -/

theorem setPc_self (pc : Pc) (hc : s.call c = some x) : (setPc c pc s).call c = some { x with pc := pc } := by
  simp only [State.call, setPc, List.getElem?_modify, if_true]
  rw [show s.calls[c]? = some x from hc]
  rfl

theorem setPc_other (pc : Pc) {d : Nat} (hd : d ≠ c) : (setPc c pc s).call d = s.call d := by
  simp only [State.call, setPc, List.getElem?_modify, if_neg (Ne.symm hd), id_map']

theorem saw_self (id i : Nat) (hc : s.call c = some x) : (saw c id i s).call c =
    some { x with i := i, seen := HASH_ID id :: x.seen, pc := if i = MAX_SOCKET then .none else .increment } := by
  simp only [State.call, saw, List.getElem?_modify, if_true]
  rw [show s.calls[c]? = some x from hc]
  rfl

theorem saw_other (id i : Nat) {d : Nat} (hd : d ≠ c) : (saw c id i s).call d = s.call d := by
  simp only [State.call, saw, List.getElem?_modify, if_neg (Ne.symm hd), id_map']

theorem overtake_call (d : Nat) : (overtake c s).call d =
    (s.call d).map fun x => if d = c ∨ (x.pc = .increment ∧ x.seen = []) then x else { x with overtaken := true } := by
  simp only [State.call, overtake, List.getElem?_mapIdx]

theorem overtake_self (a : Nat) (hc : s.call c = some x) : (overtake c { s with alloc_id := a }).call c = some x := by
  rw [overtake_call, show State.call { s with alloc_id := a } c = some x from hc]
  simp only [true_or, if_true, Option.map_some]

theorem setSlot_self (k : Nat) (f : Slot → Slot) : (setSlot k f s).slot k = f (s.slot k) := Function.update_self ..

/-- A call that has given its slot back. -/
theorem CallOk.freed (hpc : x.pc = .freed ∨ ∃ id, x.pc = .failing id) : CallOk slot alloc_id x := by
  rcases hpc with hpc | ⟨id, hpc⟩
  all_goals
    constructor <;> intros <;> simp_all [Pc.inUse, Pc.searching]

/-- A step of the call `c` that touches the slot `k` only, which is its own or free. -/
theorem Inv.step_slot (hI : Inv s) (hc : s.call c = some x) (k : Nat) (hfault : s'.fault = false) (hself : s'.call c = some x')
    (hsame : ∀ d, d ≠ c → s'.call d = s.call d) (hslot : ∀ j, j ≠ k → s'.slot j = s.slot j)
    (hused : (s'.slot k).type = .used → HASH_ID (s'.slot k).id = k)
    (halloc : s'.alloc_id % MAX_SOCKET = s.alloc_id % MAX_SOCKET)
    (hown : (∃ id, x.pc.inUse = some id ∧ HASH_ID id = k) ∨ (s.slot k).type = .invalid)
    (hx' : CallOk s'.slot s'.alloc_id x')
    (htaken : ∀ id, x'.pc.inUse = some id → x.pc.inUse = some id ∨ (s.slot (HASH_ID id)).type = .invalid) : Inv s' := by
  refine hI.step_of hc hfault (fun j hj => ?_) hself hx' (fun d y hd hy => ?_) htaken
  · by_cases hjk : j = k
    · rw [hjk] at hj ⊢
      exact hused hj
    · rw [hslot j hjk] at hj ⊢
      exact hI.slots j hj
  · rw [hsame d hd] at hy
    refine ⟨y, hy, rfl, (hI.calls d y hy).congr (fun id hid => hslot _ fun hk => ?_) halloc⟩
    rcases hown with ⟨id', hid', hk'⟩ | hfree
    · exact hI.apart d c y x id id' hy hc hd hid hid' (hk.trans hk'.symm)
    · rw [← hk] at hfree
      exact (hI.calls d y hy).inUse_type hid hfree

theorem alloc_succ (a : Nat) : (a + 1) % 2 ^ 32 % MAX_SOCKET = (a + 1) % MAX_SOCKET :=
  Nat.mod_mod_of_dvd _ (by decide)

theorem alloc_mask (a : Nat) : a % 2 ^ 31 % MAX_SOCKET = a % MAX_SOCKET :=
  Nat.mod_mod_of_dvd _ (by decide)

theorem Inv.inc (hI : Inv s) (hc : s.call c = some x) (hpc : x.pc = .increment) :
    Inv (setPc c (if (s.alloc_id + 1) % 2 ^ 32 < 2 ^ 31 then .test ((s.alloc_id + 1) % 2 ^ 32) else .mask)
      (overtake c { s with alloc_id := (s.alloc_id + 1) % 2 ^ 32 })) := by
  have hok := hI.calls c x hc
  have hcount := hok.count (by rw [hpc]; rfl)
  -- the slots seen are one further back
  have hlast : x.overtaken = false → ∀ (j k : Nat), x.seen[j]? = some k →
      k < MAX_SOCKET ∧ (k + j + 1) % MAX_SOCKET = (s.alloc_id + 1) % 2 ^ 32 % MAX_SOCKET := by
    intro hfirst j k hk
    obtain ⟨hlt, heq⟩ := hok.last (by rw [hpc]; rfl) hfirst j k hk
    rw [if_pos hpc, Nat.add_zero] at heq
    refine ⟨hlt, ?_⟩
    rw [alloc_succ, Nat.add_mod, heq, ← Nat.add_mod]
  refine hI.step_of hc hI.fault hI.slots (setPc_self _ (overtake_self _ hc)) ?_ (fun d y' hd hy' => ?_) fun id hid => ?_
  · show CallOk s.slot ((s.alloc_id + 1) % 2 ^ 32) _
    split
    · rename_i hlt
      refine ⟨fun id hid => ?_, fun id hid => (by cases hid), fun id hid => (by rcases hid with hid | hid <;> cases hid),
        fun id hid => (by cases hid), fun id hid => (by rcases hid with hid | hid <;> cases hid), fun _ => hcount,
        fun _ hfirst j k hk => ?_, fun id hid _ => ?_, fun hnone => (by cases hnone)⟩
      · rcases hid with hid | hid | hid <;> cases hid
        exact hlt
      · exact hlast hfirst j k hk
      · rcases hid with hid | hid <;> cases hid
        rfl
    · refine ⟨fun id hid => (by rcases hid with hid | hid | hid <;> cases hid), fun id hid => (by cases hid),
        fun id hid => (by rcases hid with hid | hid <;> cases hid), fun id hid => (by cases hid),
        fun id hid => (by rcases hid with hid | hid <;> cases hid), fun _ => hcount, fun _ hfirst j k hk => hlast hfirst j k hk,
        fun id hid => (by rcases hid with hid | hid <;> cases hid), fun hnone => (by cases hnone)⟩
  · rw [setPc_other _ hd, overtake_call] at hy'
    obtain ⟨y, hy, rfl⟩ := Option.map_eq_some_iff.mp hy'
    have hy : s.call d = some y := hy
    have hoky := hI.calls d y hy
    simp only [hd, false_or]
    split
    · rename_i hstart
      refine ⟨y, hy, rfl, ?_⟩
      show CallOk s.slot ((s.alloc_id + 1) % 2 ^ 32) y
      refine ⟨hoky.candidate, hoky.positive, hoky.reserve, hoky.used, hoky.stored, hoky.count, fun _ _ j k hk => ?_,
        fun id hid => ?_, hoky.full⟩
      · rw [hstart.2] at hk
        cases hk
      · rw [hstart.1] at hid
        rcases hid with hid | hid <;> cases hid
    · refine ⟨y, hy, rfl, ?_⟩
      show CallOk s.slot ((s.alloc_id + 1) % 2 ^ 32) { y with overtaken := true }
      exact ⟨hoky.candidate, hoky.positive, hoky.reserve, hoky.used, hoky.stored, hoky.count, fun _ hfirst => (by cases hfirst),
        fun _ _ hfirst => (by cases hfirst), hoky.full⟩
  · simp only at hid
    split at hid <;> cases hid

/-- A step of the call `c` that touches no slot. -/
theorem Inv.step_same (hI : Inv s) (hc : s.call c = some x) (hfault : s'.fault = false) (hself : s'.call c = some x')
    (hsame : ∀ d, d ≠ c → s'.call d = s.call d) (hslot : s'.slot = s.slot)
    (halloc : s'.alloc_id % MAX_SOCKET = s.alloc_id % MAX_SOCKET) (hx' : CallOk s'.slot s'.alloc_id x')
    (htaken : x'.pc.inUse = none) : Inv s' := by
  refine hI.step_of hc hfault (by rw [hslot]; exact hI.slots) hself hx' (fun d y hd hy => ?_) fun id hid => ?_
  · rw [hsame d hd] at hy
    exact ⟨y, hy, rfl, (hI.calls d y hy).congr (fun _ _ => by rw [hslot]) halloc⟩
  · rw [htaken] at hid
    cases hid

theorem Inv.mask (hI : Inv s) (hc : s.call c = some x) (hpc : x.pc = .mask) :
    Inv (setPc c (.test (s.alloc_id % 2 ^ 31)) { s with alloc_id := s.alloc_id % 2 ^ 31 }) := by
  have hok := hI.calls c x hc
  have hcount := hok.count (by rw [hpc]; rfl)
  refine hI.step_same hc hI.fault (setPc_self _ hc) (fun d hd => setPc_other _ hd) rfl (alloc_mask _) ?_ rfl
  show CallOk s.slot (s.alloc_id % 2 ^ 31) _
  refine ⟨fun id hid => ?_, fun id hid => (by cases hid), fun id hid => (by rcases hid with hid | hid <;> cases hid),
    fun id hid => (by cases hid), fun id hid => (by rcases hid with hid | hid <;> cases hid), fun _ => hcount,
    fun _ hfirst j k hk => ?_, fun id hid _ => ?_, fun hnone => (by cases hnone)⟩
  · rcases hid with hid | hid | hid <;> cases hid
    exact Nat.mod_lt _ (by decide)
  · obtain ⟨hlt, heq⟩ := hok.last (by rw [hpc]; rfl) hfirst j k hk
    rw [hpc] at heq
    exact ⟨hlt, heq.trans (alloc_mask _).symm⟩
  · rcases hid with hid | hid <;> cases hid
    rfl

theorem Inv.found (hI : Inv s) {id : Nat} (hc : s.call c = some x) (hpc : x.pc = .test id) : Inv (setPc c (.cas id) s) := by
  have hok := hI.calls c x hc
  refine hI.step_same hc hI.fault (setPc_self _ hc) (fun d hd => setPc_other _ hd) rfl rfl ?_ rfl
  refine ⟨fun id' hid => ?_, fun id hid => (by cases hid), fun id hid => (by rcases hid with hid | hid <;> cases hid),
    fun id hid => (by cases hid), fun id hid => (by rcases hid with hid | hid <;> cases hid),
    fun _ => hok.count (by rw [hpc]; rfl), fun _ hfirst j k hk => ?_, fun id' hid hfirst => ?_, fun hnone => (by cases hnone)⟩
  · rcases hid with hid | hid | hid <;> cases hid
    exact hok.candidate id (.inl hpc)
  · have hlast := hok.last (by rw [hpc]; rfl) hfirst j k hk
    rw [hpc] at hlast
    exact hlast
  · rcases hid with hid | hid <;> cases hid
    exact hok.current id (.inl hpc) hfirst

/-- Slots that follow one another are all slots. -/
theorem all_seen {seen : List Nat} {a : Nat} (hlen : MAX_SOCKET ≤ seen.length)
    (h : ∀ (j k : Nat), seen[j]? = some k → k < MAX_SOCKET ∧ (k + j) % MAX_SOCKET = a % MAX_SOCKET) :
    ∀ k < MAX_SOCKET, k ∈ seen := by
  intro k hk
  have hj : (a % MAX_SOCKET + MAX_SOCKET - k) % MAX_SOCKET < seen.length := Nat.lt_of_lt_of_le (Nat.mod_lt _ (by decide)) hlen
  obtain ⟨hlt, heq⟩ := h _ _ (List.getElem?_eq_getElem hj)
  have hsame : seen[(a % MAX_SOCKET + MAX_SOCKET - k) % MAX_SOCKET] = k := by
    unfold MAX_SOCKET at hk hlt heq ⊢
    omega
  rw [← hsame]
  exact List.getElem_mem hj

/-- The slot was in use. -/
theorem Inv.saw (hI : Inv s) {id i : Nat} (hc : s.call c = some x) (hpc : x.pc = .test id ∨ x.pc = .cas id)
    (hi : i ≤ x.seen.length + 1) (hmax : i ≤ MAX_SOCKET) (hgive : i = MAX_SOCKET → x.overtaken = false) :
    Inv (saw c id i s) := by
  have hok := hI.calls c x hc
  have hsearching : x.pc.searching = true := by rcases hpc with hpc | hpc <;> rw [hpc] <;> rfl
  have hlast : x.overtaken = false → ∀ (j k : Nat), (HASH_ID id :: x.seen)[j]? = some k →
      k < MAX_SOCKET ∧ (k + j) % MAX_SOCKET = s.alloc_id % MAX_SOCKET := by
    intro hfirst j k hk
    cases j with
    | zero =>
      rw [List.getElem?_cons_zero] at hk
      rw [← Option.some.inj hk]
      refine ⟨Nat.mod_lt _ (by decide), ?_⟩
      rw [Nat.add_zero, hok.current id hpc hfirst, Nat.mod_mod]
    | succ j =>
      rw [List.getElem?_cons_succ] at hk
      obtain ⟨hlt, heq⟩ := hok.last hsearching hfirst j k hk
      rw [if_neg (by rcases hpc with hpc | hpc <;> rw [hpc] <;> intro h <;> cases h)] at heq
      exact ⟨hlt, heq⟩
  by_cases hi' : i = MAX_SOCKET
  · have hself := saw_self id i hc
    rw [if_pos hi'] at hself
    refine hI.step_same hc hI.fault hself (fun d hd => saw_other id i hd) rfl rfl ?_ rfl
    refine ⟨fun id hid => (by rcases hid with hid | hid | hid <;> cases hid), fun id hid => (by cases hid),
      fun id hid => (by rcases hid with hid | hid <;> cases hid), fun id hid => (by cases hid),
      fun id hid => (by rcases hid with hid | hid <;> cases hid), fun hs => (by cases hs), fun hs => (by cases hs),
      fun id hid => (by rcases hid with hid | hid <;> cases hid), fun _ => ?_⟩
    refine all_seen ?_ (hlast (hgive hi'))
    rw [List.length_cons, ← hi']
    exact hi
  · have hself := saw_self id i hc
    rw [if_neg hi'] at hself
    refine hI.step_same hc hI.fault hself (fun d hd => saw_other id i hd) rfl rfl ?_ rfl
    refine ⟨fun id hid => (by rcases hid with hid | hid | hid <;> cases hid), fun id hid => (by cases hid),
      fun id hid => (by rcases hid with hid | hid <;> cases hid), fun id hid => (by cases hid),
      fun id hid => (by rcases hid with hid | hid <;> cases hid), fun _ => ⟨?_, Nat.lt_of_le_of_ne hmax hi'⟩,
      fun _ hfirst j k hk => ?_, fun id hid => (by rcases hid with hid | hid <;> cases hid), fun hnone => (by cases hnone)⟩
    · rw [List.length_cons]
      exact hi
    · rw [if_pos rfl]
      exact hlast hfirst j k hk

theorem Inv.taken (hI : Inv s) {id : Nat} (hc : s.call c = some x) (hpc : x.pc = .cas id)
    (hfree : (s.slot (HASH_ID id)).type = .invalid) (hpos : 0 < id) : Inv (setPc c (.store id) (setType id .reserve s)) := by
  have hok := hI.calls c x hc
  have hslot : (setType id .reserve s).slot (HASH_ID id) = { s.slot (HASH_ID id) with type := .reserve } := setSlot_self ..
  refine hI.step_slot hc (HASH_ID id) hI.fault (setPc_self _ hc) (fun d hd => setPc_other _ hd)
    (fun j hj => Function.update_of_ne hj ..) (fun hused => ?_) rfl (.inr hfree) ?_ fun id' hid => ?_
  · have hused : ((setType id .reserve s).slot (HASH_ID id)).type = .used := hused
    rw [hslot] at hused
    cases hused
  · refine ⟨fun id' hid => ?_, fun id' hid => ?_, fun id' hid => ?_, fun id hid => (by cases hid),
      fun id hid => (by rcases hid with hid | hid <;> cases hid), fun hs => (by cases hs), fun hs => (by cases hs),
      fun id hid => (by rcases hid with hid | hid <;> cases hid), fun hnone => (by cases hnone)⟩
    · rcases hid with hid | hid | hid <;> cases hid
      exact hok.candidate id (.inr (.inl hpc))
    · cases hid
      exact hpos
    · rcases hid with hid | hid <;> cases hid
      show ((setType id .reserve s).slot (HASH_ID id)).type = .reserve
      rw [hslot]
  · cases hid
    exact .inr hfree

theorem Inv.store (hI : Inv s) {id : Nat} (hc : s.call c = some x) (hpc : x.pc = .store id) :
    Inv (setPc c (.given id) (setSlot (HASH_ID id) (fun y => { y with id := id }) s)) := by
  have hok := hI.calls c x hc
  have hinUse : x.pc.inUse = some id := by rw [hpc]; rfl
  have hslot : (setSlot (HASH_ID id) (fun y => { y with id := id }) s).slot (HASH_ID id) = ⟨.reserve, id⟩ := by
    rw [setSlot_self, hok.reserve id (.inl hpc)]
  refine hI.step_slot hc (HASH_ID id) hI.fault (setPc_self _ hc) (fun d hd => setPc_other _ hd)
    (fun j hj => Function.update_of_ne hj ..) (fun _ => ?_) rfl (.inl ⟨id, hinUse, rfl⟩) ?_ fun id' hid => ?_
  · exact congrArg (fun y => HASH_ID y.id) hslot
  · refine ⟨fun id' hid => ?_, fun id' hid => ?_, fun id' hid => ?_, fun id hid => (by cases hid), fun id' hid => ?_,
      fun hs => (by cases hs), fun hs => (by cases hs), fun id hid => (by rcases hid with hid | hid <;> cases hid),
      fun hnone => (by cases hnone)⟩
    · rcases hid with hid | hid | hid <;> cases hid
      exact hok.candidate id (.inr (.inr hinUse))
    · cases hid
      exact hok.positive id hinUse
    · rcases hid with hid | hid <;> cases hid
      exact congrArg Slot.type hslot
    · rcases hid with hid | hid <;> cases hid
      exact congrArg Slot.id hslot
  · cases hid
    exact .inl hinUse

theorem Inv.new_fd (hI : Inv s) {id : Nat} (hc : s.call c = some x) (hpc : x.pc = .given id) :
    Inv (setPc c (.opened id) (setSlot (HASH_ID id) (fun _ => ⟨.used, id⟩) s)) := by
  have hok := hI.calls c x hc
  have hinUse : x.pc.inUse = some id := by rw [hpc]; rfl
  have hslot : (setSlot (HASH_ID id) (fun _ => ⟨.used, id⟩) s).slot (HASH_ID id) = ⟨.used, id⟩ := setSlot_self ..
  refine hI.step_slot hc (HASH_ID id) hI.fault (setPc_self _ hc) (fun d hd => setPc_other _ hd)
    (fun j hj => Function.update_of_ne hj ..) (fun _ => ?_) rfl (.inl ⟨id, hinUse, rfl⟩) ?_ fun id' hid => ?_
  · exact congrArg (fun y => HASH_ID y.id) hslot
  · refine ⟨fun id' hid => ?_, fun id' hid => ?_, fun id hid => (by rcases hid with hid | hid <;> cases hid), fun id' hid => ?_,
      fun id' hid => ?_, fun hs => (by cases hs), fun hs => (by cases hs), fun id hid => (by rcases hid with hid | hid <;> cases hid),
      fun hnone => (by cases hnone)⟩
    · rcases hid with hid | hid | hid <;> cases hid
      exact hok.candidate id (.inr (.inr hinUse))
    · cases hid
      exact hok.positive id hinUse
    · cases hid
      exact congrArg Slot.type hslot
    · rcases hid with hid | hid <;> cases hid
      exact congrArg Slot.id hslot
  · cases hid
    exact .inl hinUse

/-- The slot of the call is freed, or is free. -/
theorem Inv.free (hI : Inv s) {id : Nat} {pc : Pc} {freeing : Bool} (hc : s.call c = some x)
    (hown : x.pc.inUse = some id ∨ (s.slot (HASH_ID id)).type = .invalid) (hpc : pc = .freed ∨ pc = .failing id) :
    Inv (setPc c pc (setType id .invalid { s with freeing := freeing })) := by
  have hslot : (setType id .invalid { s with freeing := freeing }).slot (HASH_ID id) = { s.slot (HASH_ID id) with type := .invalid } :=
    setSlot_self ..
  have hnone : pc.inUse = none := by rcases hpc with rfl | rfl <;> rfl
  refine hI.step_slot hc (HASH_ID id) hI.fault (setPc_self _ hc) (fun d hd => setPc_other _ hd)
    (fun j hj => Function.update_of_ne hj ..) (fun hused => ?_) rfl ?_ (CallOk.freed ?_) fun id' hid => ?_
  · have hused : ((setType id .invalid { s with freeing := freeing }).slot (HASH_ID id)).type = .used := hused
    rw [hslot] at hused
    cases hused
  · rcases hown with hown | hfree
    · exact .inl ⟨id, hown, rfl⟩
    · exact .inr hfree
  · rcases hpc with rfl | rfl
    · exact .inl rfl
    · exact .inr ⟨id, rfl⟩
  · rw [hnone] at hid
    cases hid

theorem step_inv {l : Label} (hI : Inv s) (hguard : Guard s l) (h : step s l = some s') : Inv s' := by
  cases l with
  | reserve =>
    simp only [step, Option.some.injEq] at h
    rw [← h]
    have hcall : ∀ d y, State.call { s with calls := s.calls ++ [⟨0, [], false, .increment⟩] } d = some y →
        s.call d = some y ∨ y = ⟨0, [], false, .increment⟩ := by
      intro d y hy
      simp only [State.call, List.getElem?_append] at hy
      split at hy
      · exact .inl hy
      · exact .inr (List.mem_singleton.mp (List.mem_of_getElem? hy))
    refine ⟨hI.fault, hI.slots, fun d y hy => ?_, fun d e y z id id' hy hz hne hid hid' => ?_⟩
    · rcases hcall d y hy with hy | rfl
      · exact hI.calls d y hy
      · refine ⟨fun id hid => (by rcases hid with hid | hid | hid <;> cases hid), fun id hid => (by cases hid),
          fun id hid => (by rcases hid with hid | hid <;> cases hid), fun id hid => (by cases hid),
          fun id hid => (by rcases hid with hid | hid <;> cases hid), fun _ => ⟨Nat.zero_le _, by decide⟩,
          fun _ _ j k hk => (by cases hk),
          fun id hid => (by rcases hid with hid | hid <;> cases hid), fun hnone => (by cases hnone)⟩
    · rcases hcall d y hy with hy | rfl
      · rcases hcall e z hz with hz | rfl
        · exact hI.apart d e y z id id' hy hz hne hid hid'
        · cases hid'
      · cases hid
  | inc c =>
    simp only [step] at h
    split at h
    · rename_i hc
      rw [← Option.some.inj h]
      exact hI.inc hc rfl
    · cases h
  | mask c =>
    simp only [step] at h
    split at h
    · rename_i hc
      rw [← Option.some.inj h]
      exact hI.mask hc rfl
    · cases h
  | test c =>
    simp only [step] at h
    split at h
    · rename_i i seen overtaken id hc
      split at h
      · rw [← Option.some.inj h]
        exact hI.found hc rfl
      · rename_i hused
        rw [← Option.some.inj h]
        obtain ⟨hlen, hlt⟩ := (hI.calls c _ hc).count rfl
        exact hI.saw hc (.inl rfl) (Nat.succ_le_succ hlen) hlt fun hmax => hguard _ id hc rfl hused hmax
    · cases h
  | cas c =>
    simp only [step] at h
    split at h
    · rename_i i seen overtaken id hc
      split at h
      · rename_i hfree
        rw [← Option.some.inj h]
        refine hI.taken hc rfl hfree (Nat.pos_of_ne_zero ?_)
        rintro rfl
        exact hguard _ hc rfl hfree
      · rw [← Option.some.inj h]
        obtain ⟨hlen, hlt⟩ := (hI.calls c _ hc).count rfl
        exact hI.saw hc (.inr rfl) (Nat.le_succ_of_le hlen) (Nat.le_of_lt hlt) fun hmax => absurd hmax (Nat.ne_of_lt hlt)
    · cases h
  | store c =>
    simp only [step] at h
    split at h
    · rename_i hc
      rw [← Option.some.inj h]
      exact hI.store hc rfl
    · cases h
  | new_fd c =>
    simp only [step] at h
    split at h
    · rename_i id hc
      split at h
      · cases h
      · rw [if_pos ((hI.calls c _ hc).reserve id (.inr rfl))] at h
        rw [← Option.some.inj h]
        exact hI.new_fd hc rfl
    · cases h
  | openFails c =>
    simp only [step] at h
    split at h
    · rename_i id hc
      split at h
      · cases h
      · rw [← Option.some.inj h]
        exact hI.free hc (.inl rfl) (.inl rfl)
    · cases h
  | addFails c again =>
    simp only [step] at h
    split at h
    · rename_i id hc
      split at h
      · cases h
      · rw [if_pos ((hI.calls c _ hc).reserve id (.inr rfl))] at h
        split at h
        · rw [← Option.some.inj h]
          have hfree : Inv (setPc c (.failing id) (setType id .invalid { s with freeing := true })) :=
            hI.free hc (.inl rfl) (.inr rfl)
          exact hfree
        · rw [← Option.some.inj h]
          exact hI.free hc (.inl rfl) (.inl rfl)
    · cases h
  | freeAgain c =>
    simp only [step] at h
    split at h
    · rename_i id hc
      rw [← Option.some.inj h]
      exact hI.free hc (.inr (hguard _ id hc rfl)) (.inl rfl)
    · cases h
  | close c =>
    simp only [step] at h
    split at h
    · rename_i id hc
      split at h
      · cases h
      · split at h
        · rw [← Option.some.inj h]
          exact hI.free hc (.inl rfl) (.inl rfl)
        · cases h
    · cases h

theorem init_inv (id : Nat → Nat) : Inv (.init id) :=
  ⟨rfl, fun k hk => (by cases hk), fun c x hc => (by cases hc), fun c d x y id id' hc => (by cases hc)⟩

theorem Inv.ok (hI : Inv s) : Ok s := by
  have hinUse : ∀ {x : Call} {id}, x.pc = .given id ∨ x.pc = .opened id → x.pc.inUse = some id := by
    rintro x id (hpc | hpc) <;> rw [hpc] <;> rfl
  refine ⟨hI.fault, fun c x id hc hpc => ?_, fun c d x y id id' hc hd hne hid hid' => ?_, fun c x id k hc hpc hused hk hid => ?_,
    fun c x id hc hpc => ?_, fun c x hc hpc => (hI.calls c x hc).full hpc⟩
  · have hok := hI.calls c x hc
    exact ⟨hok.positive id (hinUse hpc), hok.candidate id (.inr (.inr (hinUse hpc)))⟩
  · have hslots := hI.apart c d x y id id' hc hd hne hid hid'
    exact ⟨hslots, fun heq => hslots (congrArg HASH_ID heq)⟩
  · have hkey := hI.slots k hused
    rw [hid] at hkey
    exact hk hkey.symm
  · have hok := hI.calls c x hc
    exact ⟨hok.inUse_type (hinUse hpc), hok.stored id hpc⟩

/-- In every run whose steps meet the condition. -/
theorem ids_ok (id : Nat → Nat) {as : List Label} (h : Lts.run step (.init id) as = some s)
    (hguard : Lts.Guarded step Guard (.init id) as) : Ok s :=
  (Lts.run_invariant_of_guarded (fun _ _ _ hI hg hstep => step_inv hI hg hstep) h hguard (init_inv id)).ok

/-! ### Runs -/

/-- Two calls at once; the socket of the first is opened and closed, that of the second cannot be added, and its
slot is freed twice. -/
def twoCalls : List Label :=
  [.reserve, .reserve, .inc 0, .inc 1, .test 1, .test 0, .cas 0, .cas 1, .store 1, .store 0, .new_fd 0, .addFails 1 true,
    .freeAgain 1, .close 0]

/-- What `Guard` says, for a run without calls that give up. -/
def guardTest (s : State) : Label → Bool
  | .cas c => (s.call c).all fun x => x.pc ≠ .cas 0
  | .test c => (s.call c).all fun x => x.i + 1 ≠ MAX_SOCKET
  | .freeAgain c => (s.call c).all fun x =>
    match x.pc with
    | .failing id => (s.slot (HASH_ID id)).type = .invalid
    | _ => true
  | _ => true

theorem guard_of_test {l : Label} (h : guardTest s l = true) : Guard s l := by
  cases l with
  | cas c =>
    intro x hc hpc
    simp only [guardTest, hc, Option.all_some, hpc, ne_eq, not_true, decide_false] at h
    cases h
  | test c =>
    intro x id hc _ _ hmax
    simp only [guardTest, hc, Option.all_some, hmax, ne_eq, not_true, decide_false] at h
    cases h
  | freeAgain c =>
    intro x id hc hpc
    simpa only [guardTest, hc, Option.all_some, hpc, decide_eq_true_eq] using h
  | _ => trivial

theorem ids_ok_twoCalls : ∃ s, Lts.run step (.init id) twoCalls = some s ∧ s.alloc_id = 2 ∧ Ok s := by
  let p (s : State) : Bool := decide (s.alloc_id = 2)
  obtain ⟨s, hrun, hguard, hp⟩ := Lts.of_check (G := Guard) (p := p) (fun _ _ h => guard_of_test h)
    (show Lts.check step guardTest p (.init id) twoCalls = true by decide)
  exact ⟨s, hrun, of_decide_eq_true hp, ids_ok id hrun hguard⟩

/-- No slot is in use. -/
structure Idle (n : Nat) (s : State) : Prop where
  alloc_id : s.alloc_id = n
  free : ∀ k, (s.slot k).type = .invalid
  freeing : s.freeing = false

/-- A call whose candidate is free gets it. -/
theorem given_run {id : Nat} (hc : s.call c = some ⟨0, [], false, .test id⟩) (hfree : (s.slot (HASH_ID id)).type = .invalid) :
    ∃ s', Lts.run step s [.test c, .cas c, .store c] = some s' ∧ s'.alloc_id = s.alloc_id ∧ s'.freeing = s.freeing ∧
      s'.call c = some ⟨0, [], false, .given id⟩ ∧ ∀ k, k ≠ HASH_ID id → s'.slot k = s.slot k := by
  let s₂ := setPc c (.cas id) s
  let s₃ := setPc c (.store id) (setType id .reserve s₂)
  let s₄ := setPc c (.given id) (setSlot (HASH_ID id) (fun y => { y with id := id }) s₃)
  have hc₂ : s₂.call c = some ⟨0, [], false, .cas id⟩ := setPc_self _ hc
  have hc₃ : s₃.call c = some ⟨0, [], false, .store id⟩ := setPc_self _ (show (setType id .reserve s₂).call c = _ from hc₂)
  have hc₄ : s₄.call c = some ⟨0, [], false, .given id⟩ :=
    setPc_self _ (show (setSlot (HASH_ID id) (fun y => { y with id := id }) s₃).call c = _ from hc₃)
  have h₂ : step s (.test c) = some s₂ := by simp only [step, hc, hfree, if_true, s₂]
  have h₃ : step s₂ (.cas c) = some s₃ := by
    simp only [step, hc₂]
    exact if_pos hfree
  have h₄ : step s₃ (.store c) = some s₄ := by simp only [step, hc₃, s₄]
  refine ⟨s₄, Lts.run_cons.mpr ⟨s₂, h₂, Lts.run_cons.mpr ⟨s₃, h₃, Lts.run_cons.mpr ⟨s₄, h₄, rfl⟩⟩⟩, rfl, rfl, hc₄,
    fun k hk => ?_⟩
  exact (Function.update_of_ne hk ..).trans (Function.update_of_ne hk ..)

/-- A new call increments `alloc_id`. -/
theorem reserve_run {n : Nat} (hs : Idle n s) : ∃ s', Lts.run step s [.reserve, .inc s.calls.length] = some s' ∧
    Idle ((n + 1) % 2 ^ 32) s' ∧
    s'.call s.calls.length = some ⟨0, [], false, if (n + 1) % 2 ^ 32 < 2 ^ 31 then .test ((n + 1) % 2 ^ 32) else .mask⟩ := by
  let c := s.calls.length
  let s₁ : State := { s with calls := s.calls ++ [⟨0, [], false, .increment⟩] }
  let s₂ := setPc c (if (n + 1) % 2 ^ 32 < 2 ^ 31 then .test ((n + 1) % 2 ^ 32) else .mask)
    (overtake c { s₁ with alloc_id := (n + 1) % 2 ^ 32 })
  have hc₁ : s₁.call c = some ⟨0, [], false, .increment⟩ := List.getElem?_concat_length ..
  have h₂ : step s₁ (.inc c) = some s₂ := by
    simp only [step, hc₁]
    rw [show s₁.alloc_id = n from hs.alloc_id]
  refine ⟨s₂, Lts.run_cons.mpr ⟨s₁, rfl, Lts.run_cons.mpr ⟨s₂, h₂, rfl⟩⟩, ⟨rfl, hs.free, hs.freeing⟩, ?_⟩
  exact setPc_self _ (overtake_self _ hc₁)

/-- A connection that fails leaves the counter one further. -/
theorem idle_round {n : Nat} (hs : Idle n s) (hn : n + 1 < 2 ^ 31) : ∃ as s', Lts.run step s as = some s' ∧ Idle (n + 1) s' := by
  let c := s.calls.length
  have hid : (n + 1) % 2 ^ 32 = n + 1 := Nat.mod_eq_of_lt (by omega)
  obtain ⟨s₁, h₁, hs₁, hc₁⟩ := reserve_run hs
  rw [hid] at hs₁ hc₁
  rw [if_pos hn] at hc₁
  obtain ⟨s₂, h₂, halloc, hfreeing, hc₂, hslot⟩ := given_run hc₁ (hs₁.free _)
  have h₃ : step s₂ (.openFails c) = some (setPc c .freed (setType (n + 1) .invalid s₂)) := by
    simp only [step, c, hc₂, hfreeing, hs₁.freeing, Bool.false_eq_true, if_false]
  refine ⟨([.reserve, .inc c] : List Label) ++ (([.test c, .cas c, .store c] : List Label) ++ [Label.openFails c]),
    setPc c .freed (setType (n + 1) .invalid s₂),
    Lts.run_append.mpr ⟨s₁, h₁, Lts.run_append.mpr ⟨s₂, h₂, Lts.run_cons.mpr ⟨_, h₃, rfl⟩⟩⟩, halloc.trans hs₁.alloc_id,
    fun k => ?_, hfreeing.trans hs₁.freeing⟩
  by_cases hk : k = HASH_ID (n + 1)
  · subst hk
    have hself : (setType (n + 1) .invalid s₂).slot (HASH_ID (n + 1)) = { s₂.slot (HASH_ID (n + 1)) with type := .invalid } :=
      setSlot_self ..
    exact congrArg Slot.type hself
  · have hother : (setType (n + 1) .invalid s₂).slot k = s₁.slot k := (Function.update_of_ne hk ..).trans (hslot k hk)
    exact (congrArg Slot.type hother).trans (hs₁.free k)

theorem idle_run (id : Nat → Nat) (n : Nat) (hn : n < 2 ^ 31) : ∃ as s, Lts.run step (.init id) as = some s ∧ Idle n s := by
  induction n with
  | zero => exact ⟨[], .init id, rfl, rfl, fun _ => rfl, rfl⟩
  | succ n ih =>
    obtain ⟨as, s, hrun, hs⟩ := ih (by omega)
    obtain ⟨bs, s', hrun', hs'⟩ := idle_round hs hn
    exact ⟨as ++ bs, s', Lts.run_append.mpr ⟨s, hrun, hrun'⟩, hs'⟩

/-- The call after `2^31 - 1` connections that failed returns 0. -/
theorem id_zero : ¬ ∀ (id : Nat → Nat) (as : List Label) (s : State), Lts.run step (.init id) as = some s → Ok s := by
  intro hclaim
  obtain ⟨as, s, hrun, hs⟩ := idle_run (fun _ => 0) (2 ^ 31 - 1) (by decide)
  let c := s.calls.length
  obtain ⟨s₁, h₁, hs₁, hc₁⟩ := reserve_run hs
  have hmask : s₁.call c = some ⟨0, [], false, .mask⟩ := hc₁
  let s₂ := setPc c (.test 0) { s₁ with alloc_id := 0 }
  have h₂ : step s₁ (.mask c) = some s₂ := by
    have hwrap : (2 ^ 31 - 1 + 1) % 2 ^ 32 % 2 ^ 31 = 0 := by omega
    simp only [step, hmask, hs₁.alloc_id, hwrap, s₂]
  have hc₂ : s₂.call c = some ⟨0, [], false, .test 0⟩ :=
    setPc_self _ (show State.call { s₁ with alloc_id := 0 } c = _ from hmask)
  obtain ⟨s₃, h₃, _, _, hc₃, _⟩ := given_run hc₂ (hs₁.free _)
  have hrun₃ := Lts.run_append.mpr ⟨s, hrun, Lts.run_append.mpr ⟨s₁, h₁, Lts.run_cons.mpr ⟨s₂, h₂, h₃⟩⟩⟩
  exact absurd ((hclaim _ _ s₃ hrun₃).positive c _ 0 hc₃ (.inl rfl)).1 (Nat.lt_irrefl 0)

end ReserveId
end Socket
end Skynet
