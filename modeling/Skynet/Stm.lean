import Skynet.Lib.RefCount
import Skynet.Lib.Run
import Skynet.Lib.Threads

/-!
# Skynet.Stm

The shared object of `lua-stm.c`: a writer replaces the current copy, readers take the copy that is current
when they read. The writer and each reader are threads; a step is a section under the lock of the object, or
one atomic counter with what its thread does alone after it.

* The object and every copy count their references, here without a bound. An address is used again after it
  was freed.
* `copy` starts a reader: it takes a reference on the object (`lcopy`), which the reader gets later.
* A copy carries the number of its update. The code has no such numbers: it compares addresses. The
  numbers, and the record of what the reads returned, are there to say what a read must do.

`step_inv` keeps the counts and the numbers; `stm_safe` is what follows for every run.
-/

namespace Skynet
namespace Stm

open RefCount Threads

abbrev Msg := List UInt8
abbrev Addr := Nat

/-- What a `struct stm_copy` holds, and the number of its update. -/
structure Version where
  number : Nat
  msg : Msg
deriving DecidableEq, Repr

/-- `struct stm_object`. -/
structure Object where
  reference : Int
  copy : Option Addr

/-- Where the writer is: in `stm_update` before and after the lock, or behind `stm_release`. -/
inductive Writer where
  | idle
  | updating (copy : Addr)
  | releasing (oldcopy : Option Addr)
  | gone
deriving DecidableEq

/-- Where a reader is. `newest` is the number of the newest update when the copy was taken. -/
inductive Pc where
  /-- between `lcopy` and `lnewreader` -/
  | pending
  | idle
  /-- in `lread`, behind `stm_copy` -/
  | copied (copy : Option Addr) (newest : Option Nat)
  /-- in `lread`, in front of the call of the decoder -/
  | decoding (newest : Option Nat)
  /-- in `ldeletereader`, behind `stm_releasereader` -/
  | closing
  | gone
deriving DecidableEq

/-- `struct boxreader`; `last` is the number of the last update it decoded. -/
structure Reader where
  lastcopy : Option Addr
  last : Option Nat
  pc : Pc
deriving DecidableEq

/-- What an `lread` did: the version given to the decoder, or false. -/
structure Read where
  before : Option Nat
  newest : Option Nat
  outcome : Option Version

structure State where
  heap : Heap Version
  object : Option Object
  objectFreed : Nat
  /-- a failed assertion, or the object used after it was freed -/
  fault : Bool
  writer : Writer
  readers : List Reader
  /-- the messages of all updates -/
  written : List Msg
  /-- the number of the current update -/
  published : Nat
  log : List Read

/-- `stm_new`. -/
def State.init (msg : Msg) : State where
  heap := Heap.empty.alloc 0 ⟨0, msg⟩
  object := some ⟨1, some 0⟩
  objectFreed := 0
  fault := false
  writer := .idle
  readers := []
  written := [msg]
  published := 0
  log := []

inductive Label where
  /-- `stm_newcopy`, which gets the address `copy` -/
  | update (msg : Msg) (copy : Addr)
  | swap
  | releaseOld
  | release
  | copy
  | newreader (i : Nat)
  | grab (i : Nat)
  | compare (i : Nat)
  | decode (i : Nat)
  | releasereader (i : Nat)
  | releaselast (i : Nat)
deriving DecidableEq

def stm_releasecopy (copy : Option Addr) (heap : Heap Version) : Heap Version :=
  match copy with
  | none => heap
  | some a => heap.release a

/-- `stm_release`. -/
def stm_release (s : State) : State :=
  match s.object with
  | none => { s with fault := true }
  | some o =>
    if o.copy = none then { s with fault := true }
    else
      let s := { s with heap := stm_releasecopy o.copy s.heap, writer := .gone }
      if 0 < o.reference - 1 then { s with object := some ⟨o.reference - 1, none⟩ }
      else { s with object := none, objectFreed := s.objectFreed + 1 }

/-- `stm_grab`. -/
def stm_grab (s : State) : State :=
  match s.object with
  | none => { s with fault := true }
  | some o =>
    if 0 < o.reference then { s with object := some { o with reference := o.reference + 1 } } else { s with fault := true }

/-- `stm_releasereader`. -/
def stm_releasereader (s : State) : State :=
  match s.object with
  | none => { s with fault := true }
  | some o =>
    if o.reference - 1 = 0 then
      if o.copy = none then { s with object := none, objectFreed := s.objectFreed + 1 } else { s with fault := true }
    else { s with object := some { o with reference := o.reference - 1 } }

def setReader (i : Nat) (r : Reader) (s : State) : State := { s with readers := s.readers.set i r }

/-- `stm_copy` in `lread`, and what the writer had done by then. -/
def stm_copy (i : Nat) (r : Reader) (s : State) : State :=
  let newest := if s.writer = .gone then none else some s.published
  match s.object with
  | none => { s with fault := true }
  | some o =>
    let heap := match o.copy with
      | none => s.heap
      | some a => s.heap.grab a
    setReader i { r with pc := .copied o.copy newest } { s with heap := heap }

/-- The rest of `lread` up to the call of the decoder. -/
def compareCopy (i : Nat) (r : Reader) (copy : Option Addr) (newest : Option Nat) (s : State) : State :=
  if copy = r.lastcopy then
    setReader i { r with pc := .idle }
      { s with heap := stm_releasecopy copy s.heap, log := ⟨r.last, newest, none⟩ :: s.log }
  else
    let s := { s with heap := stm_releasecopy r.lastcopy s.heap }
    match copy with
    | some _ => setReader i { r with lastcopy := copy, pc := .decoding newest } s
    | none => setReader i { r with lastcopy := none, pc := .idle } { s with log := ⟨r.last, newest, none⟩ :: s.log }

/-- The decoder gets the message of the last copy. -/
def decode (i : Nat) (r : Reader) (newest : Option Nat) (s : State) : State :=
  match r.lastcopy.bind s.heap.val with
  | none => { s with fault := true }
  | some v => setReader i { r with last := some v.number, pc := .idle } { s with log := ⟨r.last, newest, some v⟩ :: s.log }

def step (s : State) : Label → Option State
  | .update msg copy =>
    if s.writer = .idle ∧ s.heap.cell copy = none then
      some { s with heap := s.heap.alloc copy ⟨s.written.length, msg⟩, writer := .updating copy, written := s.written ++ [msg] }
    else none
  | .swap =>
    match s.writer with
    | .updating copy =>
      match s.object with
      | none => some { s with fault := true }
      | some o => some { s with object := some { o with copy := some copy }, writer := .releasing o.copy, published := s.published + 1 }
    | _ => none
  | .releaseOld =>
    match s.writer with
    | .releasing oldcopy => some { s with heap := stm_releasecopy oldcopy s.heap, writer := .idle }
    | _ => none
  | .release => if s.writer = .idle then some (stm_release s) else none
  | .copy =>
    if s.writer = .idle then
      let s := stm_grab s
      some { s with readers := s.readers ++ [⟨none, none, .pending⟩] }
    else none
  | .newreader i =>
    match s.readers[i]? with
    | some r => if r.pc = .pending then some (setReader i { r with pc := .idle } s) else none
    | none => none
  | .grab i =>
    match s.readers[i]? with
    | some r => if r.pc = .idle then some (stm_copy i r s) else none
    | none => none
  | .compare i =>
    match s.readers[i]? with
    | some r =>
      match r.pc with
      | .copied copy newest => some (compareCopy i r copy newest s)
      | _ => none
    | none => none
  | .decode i =>
    match s.readers[i]? with
    | some r =>
      match r.pc with
      | .decoding newest => some (decode i r newest s)
      | _ => none
    | none => none
  | .releasereader i =>
    match s.readers[i]? with
    | some r => if r.pc = .idle then some (setReader i { r with pc := .closing } (stm_releasereader s)) else none
    | none => none
  | .releaselast i =>
    match s.readers[i]? with
    | some r =>
      if r.pc = .closing then
        some (setReader i { r with lastcopy := none, pc := .gone } { s with heap := stm_releasecopy r.lastcopy s.heap })
      else none
    | none => none

/-! ### Counting references -/

def holdsOpt (copy : Option Addr) (a : Addr) : Nat := if copy = some a then 1 else 0

def Writer.holds : Writer → Addr → Nat
  | .updating copy, a => holdsOpt (some copy) a
  | .releasing oldcopy, a => holdsOpt oldcopy a
  | _, _ => 0

/-- The copy between `stm_copy` and the comparison. -/
def Pc.copy : Pc → Option Addr
  | .copied copy _ => copy
  | _ => none

def Reader.holds (a : Addr) (r : Reader) : Nat := holdsOpt r.lastcopy a + holdsOpt r.pc.copy a

/-- The reader's reference on the object. -/
def Reader.grabs (r : Reader) : Nat :=
  match r.pc with
  | .closing => 0
  | .gone => 0
  | _ => 1

def State.current (s : State) : Option Addr := s.object.bind Object.copy

/-- The references on the copy at an address. -/
def State.holders (s : State) (a : Addr) : Nat :=
  holdsOpt s.current a + s.writer.holds a + sumOf (Reader.holds a) s.readers

/-- The references on the object. -/
def State.refs (s : State) : Nat := (if s.writer = .gone then 0 else 1) + sumOf Reader.grabs s.readers

/-! ### The invariant -/

/-- A read gives the newest version to the decoder when there is a writer and the decoder has not had this version
in an earlier read of the same reader. -/
def ReadOk (written : List Msg) (e : Read) : Prop :=
  match e.newest with
  | none => e.outcome = none
  | some n => (∀ m, e.before = some m → m ≤ n) ∧ (e.before = some n → e.outcome = none) ∧
      (e.before ≠ some n → ∃ msg, written[n]? = some msg ∧ e.outcome = some ⟨n, msg⟩)

structure ReaderInv (heap : Heap Version) (published : Nat) (writer : Writer) (r : Reader) : Prop where
  last : ∀ n, r.last = some n → n ≤ published
  lastcopy : ∀ a, r.lastcopy = some a → ∃ v, heap.val a = some v ∧
    ((∀ newest, r.pc ≠ .decoding newest) → r.last = some v.number)
  nocopy : r.lastcopy = none → r.last ≠ none → r.pc ≠ .closing → r.pc ≠ .gone → writer = .gone
  copied : ∀ a newest, r.pc = .copied (some a) newest → ∃ v, heap.val a = some v ∧ newest = some v.number ∧
    v.number ≤ published ∧ (∀ m, r.last = some m → m ≤ v.number) ∧ (r.lastcopy = none → r.last = none)
  copiedNone : ∀ newest, r.pc = .copied none newest → newest = none ∧ writer = .gone
  decoding : ∀ newest, r.pc = .decoding newest → ∃ a v, r.lastcopy = some a ∧ heap.val a = some v ∧ newest = some v.number ∧
    v.number ≤ published ∧ ∀ m, r.last = some m → m < v.number
  gone : r.pc = .gone → r.lastcopy = none

structure Inv (s : State) : Prop where
  fault : s.fault = false
  counted : Counted s.heap s.holders
  owned : Owned s.heap fun v => s.written[v.number]? = some v.msg
  object : ∀ o, s.object = some o → o.reference = s.refs ∧ 0 < s.refs ∧ (o.copy = none ↔ s.writer = .gone) ∧ s.objectFreed = 0
  noObject : s.object = none → s.refs = 0 ∧ s.objectFreed = 1
  current : ∀ a, s.current = some a → ∃ v, s.heap.val a = some v ∧ v.number = s.published
  updating : ∀ a, s.writer = .updating a → s.written.length = s.published + 2 ∧
    ∃ v, s.heap.val a = some v ∧ v.number = s.published + 1
  settled : (∀ a, s.writer ≠ .updating a) → s.written.length = s.published + 1
  readers : ∀ r ∈ s.readers, ReaderInv s.heap s.published s.writer r
  log : ∀ e ∈ s.log, ReadOk s.written e

/-! ### Copies -/

section Copies

variable {heap heap' : Heap Version} {holders holders' : Addr → Nat} {copy : Option Addr} {a b : Addr} {created : Version → Prop}

theorem holdsOpt_self (a : Addr) : holdsOpt (some a) a = 1 := if_pos rfl

theorem holdsOpt_of_ne (h : b ≠ a) : holdsOpt (some a) b = 0 := if_neg fun heq => h (Option.some.inj heq).symm

@[simp] theorem holdsOpt_none (a : Addr) : holdsOpt none a = 0 := rfl

theorem stm_releasecopy_counted (hc : Counted heap holders) (hat : ∀ b, holders' b + holdsOpt copy b = holders b) :
    Counted (stm_releasecopy copy heap) holders' := by
  cases copy with
  | none =>
    have heq : holders' = holders := funext hat
    rw [heq]
    exact hc
  | some a =>
    have ha := hat a
    rw [holdsOpt_self] at ha
    refine hc.release (by omega) ha fun b hb => ?_
    have := hat b
    rwa [holdsOpt_of_ne hb] at this

theorem stm_releasecopy_val (hc : Counted heap holders) (hat : ∀ b, holders' b + holdsOpt copy b = holders b) (hb : 0 < holders' b) :
    (stm_releasecopy copy heap).val b = heap.val b := by
  cases copy with
  | none => rfl
  | some a =>
    refine hc.val_release ?_
    by_cases hba : b = a
    · subst hba
      have := hat b
      rw [holdsOpt_self] at this
      exact .inr (by omega)
    · exact .inl hba

theorem stm_releasecopy_owned (ho : Owned heap created) : Owned (stm_releasecopy copy heap) created := by
  cases copy with
  | none => exact ho
  | some a => exact ho.release a

end Copies

variable {s s' : State} {i : Nat} {r r' : Reader} {heap' : Heap Version} {a : Addr}

theorem ReaderInv.mono {heap : Heap Version} {published published' : Nat} {writer writer' : Writer}
    (h : ReaderInv heap published writer r) (hval : ∀ b, 0 < r.holds b → heap'.val b = heap.val b) (hpub : published ≤ published')
    (hgone : writer = .gone → writer' = .gone) : ReaderInv heap' published' writer' r where
  last n hn := Nat.le_trans (h.last n hn) hpub
  lastcopy a ha := by
    obtain ⟨v, hv, hlast⟩ := h.lastcopy a ha
    exact ⟨v, by rw [hval a (by rw [Reader.holds, ha, holdsOpt_self]; omega)]; exact hv, hlast⟩
  nocopy hnone hlast hclosing hpc := hgone (h.nocopy hnone hlast hclosing hpc)
  copied a newest hpc := by
    obtain ⟨v, hv, hnewest, hle, hrest⟩ := h.copied a newest hpc
    have hheld : 0 < r.holds a := by rw [Reader.holds, hpc, Pc.copy, holdsOpt_self]; omega
    exact ⟨v, (hval a hheld).trans hv, hnewest, Nat.le_trans hle hpub, hrest⟩
  copiedNone newest hpc := ⟨(h.copiedNone newest hpc).1, hgone (h.copiedNone newest hpc).2⟩
  decoding newest hpc := by
    obtain ⟨a, v, ha, hv, hnewest, hle, hlt⟩ := h.decoding newest hpc
    exact ⟨a, v, ha, by rw [hval a (by rw [Reader.holds, ha, holdsOpt_self]; omega)]; exact hv, hnewest, Nat.le_trans hle hpub, hlt⟩
  gone := h.gone

theorem holds_le_holders (h : r ∈ s.readers) (b : Addr) : r.holds b ≤ s.holders b := by
  have := le_sumOf (Reader.holds b) h
  rw [State.holders]
  omega

/-- The holders after a step of one reader. -/
theorem holders_setReader (h : s.readers[i]? = some r) (r' : Reader) (b : Addr) :
    (setReader i r' s).holders b + r.holds b = s.holders b + r'.holds b := by
  have := sumOf_set (Reader.holds b) h r'
  simp only [State.holders, setReader, State.current]
  omega

theorem refs_setReader (h : s.readers[i]? = some r) (r' : Reader) : (setReader i r' s).refs + r.grabs = s.refs + r'.grabs := by
  have hsum := sumOf_set Reader.grabs h r'
  have hset : (setReader i r' s).refs = (if s.writer = .gone then 0 else 1) + sumOf Reader.grabs (s.readers.set i r') := rfl
  rw [hset, State.refs]
  omega

/-- A step of one reader that leaves the object and what others hold. -/
theorem Inv.set_reader (hinv : Inv s) (h : s.readers[i]? = some r) {log' : List Read}
    (hcounted : Counted heap' (setReader i r' s).holders) (howned : Owned heap' fun v => s.written[v.number]? = some v.msg)
    (hval : ∀ b, r.holds b < s.holders b → heap'.val b = s.heap.val b) (hgrabs : r'.grabs = r.grabs)
    (hreader : ReaderInv heap' s.published s.writer r') (hlog : ∀ e ∈ log', ReadOk s.written e) :
    Inv (setReader i r' { s with heap := heap', log := log' }) := by
  have hrefs : (setReader i r' s).refs = s.refs := by
    have := refs_setReader h r'
    omega
  have hcurrent : ∀ a, s.current = some a → heap'.val a = s.heap.val a := by
    intro a ha
    refine hval a ?_
    have := le_sumOf (Reader.holds a) (List.mem_of_getElem? h)
    rw [State.holders, ha, holdsOpt_self]
    omega
  have hupdating : ∀ a, s.writer = .updating a → heap'.val a = s.heap.val a := by
    intro a ha
    refine hval a ?_
    have := le_sumOf (Reader.holds a) (List.mem_of_getElem? h)
    rw [State.holders, ha, Writer.holds, holdsOpt_self]
    omega
  refine ⟨hinv.fault, hcounted, howned, fun o ho => ?_, fun ho => ?_, fun a ha => ?_, fun a ha => ?_, hinv.settled,
    fun q hq => ?_, hlog⟩
  · obtain ⟨href, hpos, hrest⟩ := hinv.object o ho
    exact ⟨href.trans (by rw [← hrefs]; rfl), by rw [← hrefs] at hpos; exact hpos, hrest⟩
  · obtain ⟨hzero, hfreed⟩ := hinv.noObject ho
    exact ⟨by rw [← hrefs] at hzero; exact hzero, hfreed⟩
  · obtain ⟨v, hv, hnum⟩ := hinv.current a ha
    exact ⟨v, (hcurrent a ha).trans hv, hnum⟩
  · obtain ⟨hlen, v, hv, hnum⟩ := hinv.updating a ha
    exact ⟨hlen, v, (hupdating a ha).trans hv, hnum⟩
  · rcases mem_set_cases h hq with rfl | ⟨hmem, hle⟩
    · exact hreader
    · refine (hinv.readers q hmem).mono (fun b hb => hval b ?_) (Nat.le_refl _) id
      have := hle (Reader.holds b)
      rw [State.holders]
      omega

theorem Inv.object_of_grabs (hinv : Inv s) (h : r ∈ s.readers) (hgrabs : 0 < r.grabs) : ∃ o, s.object = some o := by
  cases hobj : s.object with
  | some o => exact ⟨o, rfl⟩
  | none =>
    have hzero := (hinv.noObject hobj).1
    have hle := le_sumOf Reader.grabs h
    rw [State.refs] at hzero
    omega

theorem counted_setReader_same (hc : Counted s.heap s.holders) (h : s.readers[i]? = some r) (hholds : ∀ b, r'.holds b = r.holds b) :
    Counted s.heap (setReader i r' s).holders := by
  have heq : (setReader i r' s).holders = s.holders := by
    funext b
    have := holders_setReader h r' b
    rw [hholds] at this
    omega
  rw [heq]
  exact hc

theorem Inv.newreader (hinv : Inv s) (h : s.readers[i]? = some r) (hpc : r.pc = .pending) :
    Inv (setReader i { r with pc := .idle } s) := by
  have hold := hinv.readers r (List.mem_of_getElem? h)
  have hcopy : ∀ b, Reader.holds b { r with pc := .idle } = r.holds b := fun b => by rw [Reader.holds, Reader.holds, hpc]; rfl
  have hgrabs : Reader.grabs { r with pc := .idle } = r.grabs := by rw [Reader.grabs, Reader.grabs, hpc]
  refine hinv.set_reader h (counted_setReader_same hinv.counted h hcopy) hinv.owned (fun _ _ => rfl) hgrabs ?_ hinv.log
  refine ⟨hold.last, fun a ha => ?_, fun hnone hlast _ _ => ?_, fun a newest hn => (by cases hn), fun newest hn => (by cases hn),
    fun newest hn => (by cases hn), fun hn => (by cases hn)⟩
  · obtain ⟨v, hv, hlast⟩ := hold.lastcopy a ha
    exact ⟨v, hv, fun _ => hlast fun newest hn => by rw [hpc] at hn; cases hn⟩
  · exact hold.nocopy hnone hlast (by rw [hpc]; intro hn; cases hn) (by rw [hpc]; intro hn; cases hn)

theorem Inv.copyNewest (hinv : Inv s) {o : Object} (hobj : s.object = some o) (hcopy : o.copy = some a) :
    (if s.writer = .gone then none else some s.published) = some s.published := by
  rw [if_neg]
  intro hgone
  have hnone := (hinv.object o hobj).2.2.1.mpr hgone
  rw [hcopy] at hnone
  cases hnone

theorem stm_copy_eq {o : Object} (hobj : s.object = some o) :
    stm_copy i r s = setReader i { r with pc := .copied o.copy (if s.writer = .gone then none else some s.published) }
      { s with heap := match o.copy with | none => s.heap | some a => s.heap.grab a } := by
  simp only [stm_copy, hobj]

theorem Inv.stm_copy (hinv : Inv s) (h : s.readers[i]? = some r) (hpc : r.pc = .idle) : Inv (stm_copy i r s) := by
  have hmem := List.mem_of_getElem? h
  have hold := hinv.readers r hmem
  obtain ⟨o, hobj⟩ := hinv.object_of_grabs hmem (by rw [Reader.grabs, hpc]; exact Nat.one_pos)
  have hgrabs : ∀ copy newest, Reader.grabs { r with pc := .copied copy newest } = r.grabs := by
    intro copy newest
    rw [Reader.grabs, Reader.grabs, hpc]
  have hlast : ∀ a, r.lastcopy = some a → ∃ v, s.heap.val a = some v ∧ r.last = some v.number := by
    intro a ha
    obtain ⟨v, hv, hlast⟩ := hold.lastcopy a ha
    exact ⟨v, hv, hlast fun newest hn => by rw [hpc] at hn; cases hn⟩
  have hnocopy : r.lastcopy = none → r.last ≠ none → s.writer = .gone :=
    fun hnone hl => hold.nocopy hnone hl (by rw [hpc]; intro hn; cases hn) (by rw [hpc]; intro hn; cases hn)
  rw [stm_copy_eq hobj]
  cases hcopy : o.copy with
  | none =>
    have hgone := (hinv.object o hobj).2.2.1.mp hcopy
    rw [if_pos hgone]
    have hholds : ∀ b, Reader.holds b { r with pc := .copied none none } = r.holds b := fun b => by
      rw [Reader.holds, Reader.holds, hpc]; rfl
    refine hinv.set_reader h (counted_setReader_same hinv.counted h hholds) hinv.owned (fun _ _ => rfl) (hgrabs _ _) ?_ hinv.log
    refine ⟨hold.last, fun a ha => ?_, fun hnone hl _ _ => hnocopy hnone hl, fun a newest hn => (by cases hn), fun newest hn => ?_,
      fun newest hn => (by cases hn), fun hn => (by cases hn)⟩
    · obtain ⟨v, hv, hl⟩ := hlast a ha
      exact ⟨v, hv, fun _ => hl⟩
    · cases hn
      exact ⟨rfl, hgone⟩
  | some a =>
    rw [hinv.copyNewest hobj hcopy]
    have hcurrent : s.current = some a := by rw [State.current, hobj]; exact hcopy
    obtain ⟨v, hv, hnum⟩ := hinv.current a hcurrent
    have hholds : ∀ b, Reader.holds b { r with pc := .copied (some a) (some s.published) } = r.holds b + holdsOpt (some a) b :=
      fun b => by rw [Reader.holds, Reader.holds, hpc]; rfl
    have hat := fun b => holders_setReader h { r with pc := .copied (some a) (some s.published) } b
    refine hinv.set_reader h ?_ (hinv.owned.grab a) (fun b _ => val_grab s.heap a b) (hgrabs _ _) ?_ hinv.log
    · refine hinv.counted.grab (hinv.counted.of_val hv) ?_ fun b hb => ?_
      · have := hat a
        rw [hholds, holdsOpt_self] at this
        omega
      · have := hat b
        rw [hholds, holdsOpt_of_ne hb] at this
        omega
    · refine ⟨hold.last, fun b hb => ?_, fun hnone hl _ _ => hnocopy hnone hl, fun b newest hn => ?_, fun newest hn => (by cases hn),
        fun newest hn => (by cases hn), fun hn => (by cases hn)⟩
      · obtain ⟨u, hu, hl⟩ := hlast b hb
        exact ⟨u, by rw [val_grab]; exact hu, fun _ => hl⟩
      · cases hn
        refine ⟨v, by rw [val_grab]; exact hv, by rw [hnum], Nat.le_of_eq hnum, fun m hm => by rw [hnum]; exact hold.last m hm, ?_⟩
        intro hnone
        by_contra hl
        have hnone' := (hinv.object o hobj).2.2.1.mpr (hnocopy hnone hl)
        rw [hcopy] at hnone'
        cases hnone'

/-- The reader gives one reference back. -/
theorem holders_release (h : s.readers[i]? = some r) {copy : Option Addr}
    (hholds : ∀ b, r'.holds b + holdsOpt copy b = r.holds b) (b : Addr) :
    (setReader i r' s).holders b + holdsOpt copy b = s.holders b := by
  have hset := holders_setReader h r' b
  have := hholds b
  omega

/-- What others hold stays when the reader gives a reference back. -/
theorem val_others (hinv : Inv s) (h : s.readers[i]? = some r) {copy : Option Addr}
    (hholds : ∀ b, r'.holds b + holdsOpt copy b = r.holds b) {b : Addr} (hb : r.holds b < s.holders b ∨ 0 < r'.holds b) :
    (stm_releasecopy copy s.heap).val b = s.heap.val b := by
  refine stm_releasecopy_val hinv.counted (holders_release h hholds) ?_
  have hset := holders_setReader h r' b
  have hle := holds_le_holders (List.mem_of_getElem? h) b
  omega

theorem number_inj (hinv : Inv s) {a b : Addr} {u v : Version} (hu : s.heap.val a = some u) (hv : s.heap.val b = some v)
    (hnum : u.number = v.number) : a = b := by
  have hu' := (hinv.owned.place u).mpr (.inr ⟨a, hu⟩)
  have hv' := (hinv.owned.place v).mpr (.inr ⟨b, hv⟩)
  rw [hnum, hv'] at hu'
  have heq : u = v := by
    cases u
    cases v
    cases hnum
    cases hu'
    rfl
  rw [heq] at hu
  exact hinv.owned.inj a b v hu hv

theorem Inv.compareCopy (hinv : Inv s) (h : s.readers[i]? = some r) {copy : Option Addr} {newest : Option Nat}
    (hpc : r.pc = .copied copy newest) : Inv (compareCopy i r copy newest s) := by
  have hold := hinv.readers r (List.mem_of_getElem? h)
  have hnot : ∀ n, r.pc ≠ .decoding n := fun n hn => by rw [hpc] at hn; cases hn
  have hholds : ∀ b, r.holds b = holdsOpt r.lastcopy b + holdsOpt copy b := fun b => by rw [Reader.holds, hpc]; rfl
  have hgrabs : r.grabs = 1 := by rw [Reader.grabs, hpc]
  simp only [Stm.compareCopy]
  split
  · -- no update since the last read: the reference just taken is given back
    rename_i hsame
    have hback : ∀ b, Reader.holds b { r with pc := .idle } + holdsOpt copy b = r.holds b := fun b => by
      rw [hholds]
      simp only [Reader.holds, Pc.copy, holdsOpt_none]
      omega
    refine hinv.set_reader h (stm_releasecopy_counted hinv.counted (holders_release h hback)) (stm_releasecopy_owned hinv.owned)
      (fun b hb => val_others hinv h hback (.inl hb)) hgrabs.symm ?_ ?_
    · refine ⟨hold.last, fun a ha => ?_, fun hnone hl _ _ => ?_, fun a newest hn => (by cases hn), fun newest hn => (by cases hn),
        fun newest hn => (by cases hn), fun hn => (by cases hn)⟩
      · obtain ⟨v, hv, hlast⟩ := hold.lastcopy a ha
        refine ⟨v, ?_, fun _ => hlast hnot⟩
        rw [val_others hinv h hback (.inr ?_)]
        · exact hv
        · simp only [Reader.holds, show r.lastcopy = some a from ha, holdsOpt_self]
          omega
      · exact hold.nocopy hnone hl (by rw [hpc]; intro hn; cases hn) (by rw [hpc]; intro hn; cases hn)
    · intro e he
      rcases List.mem_cons.mp he with rfl | he
      · cases copy with
        | none => rw [ReadOk, (hold.copiedNone newest hpc).1]
        | some a =>
          obtain ⟨v, hv, hnewest, _, hle, _⟩ := hold.copied a newest hpc
          obtain ⟨u, hu, hlast⟩ := hold.lastcopy a hsame.symm
          rw [hv] at hu
          rw [ReadOk, hnewest, hlast hnot, Option.some.inj hu]
          refine ⟨fun m hm => Nat.le_of_eq (Option.some.inj hm).symm, fun _ => rfl, fun hne => absurd rfl hne⟩
      · exact hinv.log e he
  · rename_i hdiffer
    cases copy with
    | none =>
      obtain ⟨hnewest, hgone⟩ := hold.copiedNone newest hpc
      have hback : ∀ b, Reader.holds b { r with lastcopy := none, pc := .idle } + holdsOpt r.lastcopy b = r.holds b := fun b => by
        rw [hholds]
        simp only [Reader.holds, Pc.copy, holdsOpt_none]
        omega
      refine hinv.set_reader h (stm_releasecopy_counted hinv.counted (holders_release h hback)) (stm_releasecopy_owned hinv.owned)
        (fun b hb => val_others hinv h hback (.inl hb)) hgrabs.symm ?_ ?_
      · exact ⟨hold.last, fun a ha => (by cases ha), fun _ _ _ _ => hgone, fun a newest hn => (by cases hn),
          fun newest hn => (by cases hn), fun newest hn => (by cases hn), fun _ => rfl⟩
      · intro e he
        rcases List.mem_cons.mp he with rfl | he
        · rw [ReadOk, hnewest]
        · exact hinv.log e he
    | some c =>
      obtain ⟨v, hv, hnewest, hpub, hle, hfirst⟩ := hold.copied c newest hpc
      have hback : ∀ b, Reader.holds b { r with lastcopy := some c, pc := .decoding newest } + holdsOpt r.lastcopy b = r.holds b :=
        fun b => by
          rw [hholds]
          simp only [Reader.holds, Pc.copy, holdsOpt_none]
          omega
      refine hinv.set_reader h (stm_releasecopy_counted hinv.counted (holders_release h hback)) (stm_releasecopy_owned hinv.owned)
        (fun b hb => val_others hinv h hback (.inl hb)) hgrabs.symm ?_ hinv.log
      have hv' : (stm_releasecopy r.lastcopy s.heap).val c = some v := by
        rw [val_others hinv h hback (.inr ?_)]
        · exact hv
        · simp only [Reader.holds, holdsOpt_self]
          omega
      refine ⟨hold.last, fun a ha => ?_, fun hnone => (by cases hnone), fun a newest hn => (by cases hn), fun newest hn => (by cases hn),
        fun n hn => ?_, fun hn => (by cases hn)⟩
      · cases ha
        exact ⟨v, hv', fun hn => absurd rfl (hn newest)⟩
      · cases hn
        refine ⟨c, v, rfl, hv', hnewest, hpub, fun m hm => Nat.lt_of_le_of_ne (hle m hm) ?_⟩
        -- the same number would be the same copy
        intro hnum
        cases hlc : r.lastcopy with
        | none =>
          rw [hfirst hlc] at hm
          cases hm
        | some a =>
          obtain ⟨u, hu, hlast⟩ := hold.lastcopy a hlc
          have hun : u.number = m := Option.some.inj ((hlast hnot).symm.trans hm)
          rw [hlc, number_inj hinv hu hv (hun.trans hnum)] at hdiffer
          exact hdiffer rfl

theorem Inv.decode (hinv : Inv s) (h : s.readers[i]? = some r) {newest : Option Nat} (hpc : r.pc = .decoding newest) :
    Inv (decode i r newest s) := by
  have hold := hinv.readers r (List.mem_of_getElem? h)
  obtain ⟨a, v, ha, hv, hnewest, hpub, hlt⟩ := hold.decoding newest hpc
  have hbind : r.lastcopy.bind s.heap.val = some v := by rw [ha]; exact hv
  simp only [Stm.decode, hbind]
  have hholds : ∀ b, Reader.holds b { r with last := some v.number, pc := .idle } = r.holds b := fun b => by
    rw [Reader.holds, Reader.holds, hpc]; rfl
  have hgrabs : Reader.grabs { r with last := some v.number, pc := .idle } = r.grabs := by rw [Reader.grabs, Reader.grabs, hpc]
  refine hinv.set_reader h (counted_setReader_same hinv.counted h hholds) hinv.owned (fun _ _ => rfl) hgrabs ?_ ?_
  · refine ⟨fun n hn => ?_, fun b hb => ?_, fun hnone => ?_, fun a newest hn => (by cases hn), fun newest hn => (by cases hn),
      fun newest hn => (by cases hn), fun hn => (by cases hn)⟩
    · rw [← Option.some.inj hn]
      exact hpub
    · have hab : a = b := Option.some.inj (ha.symm.trans hb)
      exact ⟨v, by rw [← hab]; exact hv, fun _ => rfl⟩
    · cases ha.symm.trans hnone
  · intro e he
    rcases List.mem_cons.mp he with rfl | he
    · rw [ReadOk, hnewest]
      refine ⟨fun m hm => Nat.le_of_lt (hlt m hm), fun hm => absurd (hlt _ hm) (Nat.lt_irrefl _), fun _ => ?_⟩
      exact ⟨v.msg, (hinv.owned.place v).mpr (.inr ⟨a, hv⟩), rfl⟩
    · exact hinv.log e he

theorem Inv.releaselast (hinv : Inv s) (h : s.readers[i]? = some r) (hpc : r.pc = .closing) :
    Inv (setReader i { r with lastcopy := none, pc := .gone } { s with heap := stm_releasecopy r.lastcopy s.heap }) := by
  have hold := hinv.readers r (List.mem_of_getElem? h)
  have hback : ∀ b, Reader.holds b { r with lastcopy := none, pc := .gone } + holdsOpt r.lastcopy b = r.holds b := fun b => by
    rw [Reader.holds, Reader.holds, hpc]
    simp only [Pc.copy, holdsOpt_none]
    omega
  have hgrabs : r.grabs = 0 := by rw [Reader.grabs, hpc]
  refine hinv.set_reader h (stm_releasecopy_counted hinv.counted (holders_release h hback)) (stm_releasecopy_owned hinv.owned)
    (fun b hb => val_others hinv h hback (.inl hb)) hgrabs.symm ?_ hinv.log
  exact ⟨hold.last, fun a ha => (by cases ha), fun _ _ _ hgone => absurd rfl hgone, fun a newest hn => (by cases hn),
    fun newest hn => (by cases hn), fun newest hn => (by cases hn), fun _ => rfl⟩

theorem Inv.releasereader (hinv : Inv s) (h : s.readers[i]? = some r) (hpc : r.pc = .idle) :
    Inv (setReader i { r with pc := .closing } (stm_releasereader s)) := by
  have hmem := List.mem_of_getElem? h
  have hold := hinv.readers r hmem
  have hgrabs : r.grabs = 1 := by rw [Reader.grabs, hpc]
  obtain ⟨o, hobj⟩ := hinv.object_of_grabs hmem (by rw [hgrabs]; exact Nat.one_pos)
  obtain ⟨href, hpos, hcopy, hfreed⟩ := hinv.object o hobj
  have hholds : ∀ b, Reader.holds b { r with pc := .closing } = r.holds b := fun b => by rw [Reader.holds, Reader.holds, hpc]; rfl
  have hrefs : (setReader i { r with pc := .closing } s).refs + 1 = s.refs := by
    have := refs_setReader h { r with pc := .closing }
    rw [hgrabs] at this
    exact this
  have hreader : ReaderInv s.heap s.published s.writer { r with pc := .closing } := by
    refine ⟨hold.last, fun a ha => ?_, fun _ _ hclosing => absurd rfl hclosing, fun a newest hn => (by cases hn),
      fun newest hn => (by cases hn), fun newest hn => (by cases hn), fun hn => (by cases hn)⟩
    obtain ⟨v, hv, hlast⟩ := hold.lastcopy a ha
    exact ⟨v, hv, fun _ => hlast fun newest hn => by rw [hpc] at hn; cases hn⟩
  have hinv' : ∀ object' freed', object'.bind Object.copy = s.current →
      (∀ o', object' = some o' → o'.reference = ((setReader i { r with pc := .closing } s).refs : Int) ∧
        0 < (setReader i { r with pc := .closing } s).refs ∧ (o'.copy = none ↔ s.writer = .gone) ∧ freed' = 0) →
      (object' = none → (setReader i { r with pc := .closing } s).refs = 0 ∧ freed' = 1) →
      Inv (setReader i { r with pc := .closing } { s with object := object', objectFreed := freed' }) := by
    intro object' freed' hcurrent hsome hnone
    have hsame : (setReader i { r with pc := .closing } { s with object := object', objectFreed := freed' }).holders =
        (setReader i { r with pc := .closing } s).holders := by
      funext b
      simp only [State.holders, setReader, State.current, hcurrent]
    refine ⟨hinv.fault, ?_, hinv.owned, hsome, hnone, fun a ha => hinv.current a (hcurrent.symm.trans ha), hinv.updating, hinv.settled,
      fun q hq => ?_, hinv.log⟩
    · rw [hsame]
      exact counted_setReader_same hinv.counted h hholds
    · rcases mem_set_cases h hq with rfl | ⟨hq, _⟩
      · exact hreader
      · exact hinv.readers q hq
  have hcurrent : s.current = o.copy := by rw [State.current, hobj]; rfl
  simp only [stm_releasereader, hobj]
  split
  · -- the last reference: the writer is gone
    rename_i hlast
    have hone : s.refs = 1 := by omega
    have hgone : s.writer = .gone := by
      by_contra hwriter
      have hle := le_sumOf Reader.grabs hmem
      rw [State.refs, if_neg hwriter] at hone
      omega
    rw [if_pos (hcopy.mpr hgone)]
    refine hinv' none (s.objectFreed + 1) ?_ (fun o' ho' => (by cases ho')) fun _ => ⟨by omega, by omega⟩
    rw [hcurrent, hcopy.mpr hgone]
    rfl
  · have := hinv' (some { o with reference := o.reference - 1 }) s.objectFreed hcurrent.symm ?_ fun hn => (by cases hn)
    · exact this
    · intro o' ho'
      cases ho'
      refine ⟨?_, by omega, hcopy, hfreed⟩
      simp only [href]
      omega

/-! ### The writer -/

theorem Inv.val_reader (hinv : Inv s) (h : r ∈ s.readers) {b : Addr} (hb : 0 < r.holds b) : ∃ v, s.heap.val b = some v :=
  hinv.counted.val_isSome (Nat.lt_of_lt_of_le hb (holds_le_holders h b))

theorem Inv.update (hinv : Inv s) {copy : Addr} (hidle : s.writer = .idle) (hfree : s.heap.cell copy = none) (msg : Msg) :
    Inv { s with heap := s.heap.alloc copy ⟨s.written.length, msg⟩, writer := .updating copy, written := s.written ++ [msg] } := by
  have hlen := hinv.settled (fun a ha => by rw [hidle] at ha; cases ha)
  have hval : ∀ b u, s.heap.val b = some u → (s.heap.alloc copy ⟨s.written.length, msg⟩).val b = s.heap.val b := by
    intro b u hu
    rw [val_alloc, if_neg]
    rintro rfl
    rw [Heap.val, hfree] at hu
    cases hu
  have hgrow : ∀ (n : Nat) (m : Msg), s.written[n]? = some m → (s.written ++ [msg])[n]? = some m := by
    intro n m hn
    rw [List.getElem?_append_left (List.getElem?_eq_some_iff.mp hn).1]
    exact hn
  refine ⟨hinv.fault, ?_, ?_, fun o ho => ?_, fun ho => ?_, fun a ha => ?_, fun a ha => ?_, fun hnot => absurd rfl (hnot copy),
    fun q hq => ?_, fun e he => ?_⟩
  · refine hinv.counted.alloc hfree _ ?_ fun b hb => ?_
    · simp only [State.holders, hidle, Writer.holds, holdsOpt_self, State.current]
      omega
    · simp only [State.holders, hidle, Writer.holds, holdsOpt_of_ne hb, State.current]
  · refine hinv.owned.alloc hfree ?_ fun u => ?_
    · simp only [List.getElem?_eq_none (Nat.le_refl _)]
      intro hn
      cases hn
    · constructor
      · intro hu
        obtain ⟨number, m⟩ := u
        rw [List.getElem?_append] at hu
        split at hu
        · exact .inl hu
        · obtain ⟨hlt, hm⟩ := List.getElem?_eq_some_iff.mp hu
          simp only [List.length_singleton, List.getElem_singleton] at hlt hm
          refine .inr ?_
          rw [← hm]
          have hnumber : number = s.written.length := by
            have : ¬number < s.written.length := ‹_›
            omega
          rw [hnumber]
      · rintro (hu | rfl)
        · exact hgrow _ _ hu
        · exact List.getElem?_concat_length ..
  · obtain ⟨href, hpos, hcopy, hfreed⟩ := hinv.object o ho
    have hrefs : s.refs = 1 + sumOf Reader.grabs s.readers := by rw [State.refs, hidle]; rfl
    refine ⟨by rw [href, hrefs]; rfl, by rw [hrefs] at hpos; exact hpos, ?_, hfreed⟩
    rw [hcopy, hidle]
    exact ⟨fun hn => (by cases hn), fun hn => (by cases hn)⟩
  · have hzero := (hinv.noObject ho).1
    rw [State.refs, hidle] at hzero
    simp only [reduceCtorEq, if_false] at hzero
    omega
  · obtain ⟨v, hv, hnum⟩ := hinv.current a ha
    exact ⟨v, by rw [hval a v hv]; exact hv, hnum⟩
  · cases ha
    refine ⟨?_, ⟨s.written.length, msg⟩, by rw [val_alloc, if_pos rfl], hlen⟩
    rw [List.length_append, hlen]
    rfl
  · refine (hinv.readers q hq).mono (fun b hb => ?_) (Nat.le_refl _) fun hgone => ?_
    · obtain ⟨u, hu⟩ := hinv.val_reader hq hb
      exact hval b u hu
    · rw [hidle] at hgone
      cases hgone
  · have hok := hinv.log e he
    rw [ReadOk] at hok ⊢
    cases hnewest : e.newest with
    | none =>
      rw [hnewest] at hok
      exact hok
    | some n =>
      rw [hnewest] at hok
      refine ⟨hok.1, hok.2.1, fun hne => ?_⟩
      obtain ⟨m, hm, hout⟩ := hok.2.2 hne
      exact ⟨m, hgrow n m hm, hout⟩

theorem Inv.swap (hinv : Inv s) {copy : Addr} {o : Object} (hwriter : s.writer = .updating copy) (hobj : s.object = some o) :
    Inv { s with object := some { o with copy := some copy }, writer := .releasing o.copy, published := s.published + 1 } := by
  obtain ⟨hlen, v, hv, hnum⟩ := hinv.updating copy hwriter
  have hcurrent : s.current = o.copy := by rw [State.current, hobj]; rfl
  have hrefs : s.refs = 1 + sumOf Reader.grabs s.readers := by rw [State.refs, hwriter]; rfl
  refine ⟨hinv.fault, ?_, hinv.owned, fun o' ho' => ?_, fun hn => (by cases hn), fun a ha => ?_, fun a ha => (by cases ha), fun _ => hlen,
    fun q hq => ?_, hinv.log⟩
  · have hsame : ∀ b, s.holders b = holdsOpt o.copy b + holdsOpt (some copy) b + sumOf (Reader.holds b) s.readers := fun b => by
      rw [State.holders, hcurrent, hwriter]; rfl
    have heq : s.holders = fun b => holdsOpt (some copy) b + holdsOpt o.copy b + sumOf (Reader.holds b) s.readers := by
      funext b
      rw [hsame]
      omega
    have hc := hinv.counted
    rw [heq] at hc
    exact hc
  · cases ho'
    obtain ⟨href, hpos, _, hfreed⟩ := hinv.object o hobj
    refine ⟨by rw [hrefs] at href; exact href, by rw [hrefs] at hpos; exact hpos, ?_, hfreed⟩
    exact ⟨fun hn => (by cases hn), fun hn => (by cases hn)⟩
  · cases ha
    exact ⟨v, hv, hnum⟩
  · refine (hinv.readers q hq).mono (fun _ _ => rfl) (Nat.le_succ _) fun hgone => ?_
    rw [hwriter] at hgone
    cases hgone

theorem Inv.releaseOld (hinv : Inv s) {oldcopy : Option Addr} (hwriter : s.writer = .releasing oldcopy) :
    Inv { s with heap := stm_releasecopy oldcopy s.heap, writer := .idle } := by
  have hat : ∀ b, State.holders { s with heap := stm_releasecopy oldcopy s.heap, writer := .idle } b + holdsOpt oldcopy b = s.holders b :=
    fun b => by
      simp only [State.holders, hwriter, Writer.holds, State.current]
      omega
  have hval : ∀ b, 0 < State.holders { s with heap := stm_releasecopy oldcopy s.heap, writer := .idle } b →
      (stm_releasecopy oldcopy s.heap).val b = s.heap.val b := fun b hb => stm_releasecopy_val hinv.counted hat hb
  have hrefs : s.refs = 1 + sumOf Reader.grabs s.readers := by rw [State.refs, hwriter]; rfl
  refine ⟨hinv.fault, stm_releasecopy_counted hinv.counted hat, stm_releasecopy_owned hinv.owned, fun o ho => ?_, fun ho => ?_,
    fun a ha => ?_, fun a ha => (by cases ha), fun _ => hinv.settled fun a ha => (by rw [hwriter] at ha; cases ha),
    fun q hq => ?_, hinv.log⟩
  · obtain ⟨href, hpos, hcopy, hfreed⟩ := hinv.object o ho
    refine ⟨by rw [hrefs] at href; exact href, by rw [hrefs] at hpos; exact hpos, ?_, hfreed⟩
    rw [hcopy, hwriter]
    exact ⟨fun hn => (by cases hn), fun hn => (by cases hn)⟩
  · have hzero := (hinv.noObject ho).1
    omega
  · obtain ⟨v, hv, hnum⟩ := hinv.current a ha
    refine ⟨v, (hval a ?_).trans hv, hnum⟩
    have ha' : s.current = some a := ha
    have hone : holdsOpt s.current a = 1 := by rw [ha', holdsOpt_self]
    have hsum : holdsOpt s.current a ≤ State.holders { s with heap := stm_releasecopy oldcopy s.heap, writer := .idle } a :=
      Nat.le_trans (Nat.le_add_right ..) (Nat.le_add_right ..)
    omega
  · refine (hinv.readers q hq).mono (fun b hb => hval b ?_) (Nat.le_refl _) fun hgone => ?_
    · have hle : Reader.holds b q ≤ sumOf (Reader.holds b) s.readers := le_sumOf (Reader.holds b) hq
      exact Nat.lt_of_lt_of_le hb (Nat.le_trans hle (Nat.le_add_left ..))
    · rw [hwriter] at hgone
      cases hgone

/-- The writer has a reference to the object. -/
theorem Inv.idle_object (hinv : Inv s) (hidle : s.writer = .idle) :
    s.refs = 1 + sumOf Reader.grabs s.readers ∧ ∃ o, s.object = some o := by
  have hrefs : s.refs = 1 + sumOf Reader.grabs s.readers := by rw [State.refs, hidle]; rfl
  refine ⟨hrefs, ?_⟩
  cases hobj : s.object with
  | some o => exact ⟨o, rfl⟩
  | none =>
    have hzero := (hinv.noObject hobj).1
    omega

theorem Inv.release (hinv : Inv s) (hidle : s.writer = .idle) : Inv (stm_release s) := by
  obtain ⟨hrefs, o, hobj⟩ := hinv.idle_object hidle
  obtain ⟨href, hpos, hcopy, hfreed⟩ := hinv.object o hobj
  have hsome : o.copy ≠ none := fun hn => by
    rw [hcopy, hidle] at hn
    cases hn
  have hcurrent : s.current = o.copy := by rw [State.current, hobj]; rfl
  have hat : ∀ b, sumOf (Reader.holds b) s.readers + holdsOpt o.copy b = s.holders b := fun b => by
    rw [State.holders, hcurrent, hidle, Writer.holds]
    · omega
    · intro c hc
      cases hc
    · intro c hc
      cases hc
  have hlen := hinv.settled (fun a ha => by rw [hidle] at ha; cases ha)
  have hinv' : ∀ object' freed', object'.bind Object.copy = none →
      (∀ o', object' = some o' → o'.reference = (sumOf Reader.grabs s.readers : Int) ∧ 0 < sumOf Reader.grabs s.readers ∧
        o'.copy = none ∧ freed' = 0) →
      (object' = none → sumOf Reader.grabs s.readers = 0 ∧ freed' = 1) →
      Inv { s with heap := stm_releasecopy o.copy s.heap, writer := .gone, object := object', objectFreed := freed' } := by
    intro object' freed' hnocopy hobject hnone
    have hholders : State.holders { s with
        heap := stm_releasecopy o.copy s.heap, writer := .gone, object := object', objectFreed := freed' } =
        fun b => sumOf (Reader.holds b) s.readers := by
      funext b
      simp only [State.holders, State.current, hnocopy, holdsOpt_none, Writer.holds]
      omega
    have hrefs' : State.refs { s with
        heap := stm_releasecopy o.copy s.heap, writer := .gone, object := object', objectFreed := freed' } =
        sumOf Reader.grabs s.readers := by
      simp only [State.refs, if_true]
      omega
    refine ⟨hinv.fault, ?_, stm_releasecopy_owned hinv.owned, fun o' ho' => ?_, fun ho' => ?_, fun a ha => ?_,
      fun a ha => (by cases ha), fun _ => hlen, fun q hq => ?_, hinv.log⟩
    · rw [hholders]
      exact stm_releasecopy_counted hinv.counted hat
    · obtain ⟨href', hpos', hcopy', hfreed'⟩ := hobject o' ho'
      rw [hrefs']
      exact ⟨href', hpos', iff_of_true hcopy' rfl, hfreed'⟩
    · rw [hrefs']
      exact hnone ho'
    · cases hnocopy.symm.trans ha
    · refine (hinv.readers q hq).mono (fun b hb => stm_releasecopy_val hinv.counted hat ?_) (Nat.le_refl _) fun _ => rfl
      exact Nat.lt_of_lt_of_le hb (le_sumOf (Reader.holds b) hq)
  simp only [stm_release, hobj, if_neg hsome]
  split
  · refine hinv' (some ⟨o.reference - 1, none⟩) s.objectFreed rfl ?_ fun hn => (by cases hn)
    intro o' ho'
    cases ho'
    exact ⟨by simp only [href]; omega, by omega, rfl, hfreed⟩
  · exact hinv' none (s.objectFreed + 1) rfl (fun o' ho' => (by cases ho')) fun _ => ⟨by omega, by omega⟩

theorem Inv.copy (hinv : Inv s) (hidle : s.writer = .idle) :
    Inv { stm_grab s with readers := (stm_grab s).readers ++ [⟨none, none, .pending⟩] } := by
  obtain ⟨hrefs, o, hobj⟩ := hinv.idle_object hidle
  obtain ⟨href, hpos, hcopy, hfreed⟩ := hinv.object o hobj
  have hcurrent : s.current = o.copy := by rw [State.current, hobj]; rfl
  have hgrab : stm_grab s = { s with object := some { o with reference := o.reference + 1 } } := by
    simp only [stm_grab, hobj]
    rw [if_pos (by omega)]
  rw [hgrab]
  have hsame : State.holders { s with
      object := some { o with reference := o.reference + 1 }, readers := s.readers ++ [⟨none, none, .pending⟩] } = s.holders := by
    funext b
    have hnew : Reader.holds b ⟨none, none, .pending⟩ = 0 := rfl
    simp only [State.holders, State.current, hobj, sumOf_append, sumOf_cons, sumOf_nil, hnew]
    rfl
  have hrefs' : State.refs { s with
      object := some { o with reference := o.reference + 1 }, readers := s.readers ++ [⟨none, none, .pending⟩] } = s.refs + 1 := by
    have hnew : Reader.grabs ⟨none, none, .pending⟩ = 1 := rfl
    simp only [State.refs, sumOf_append, sumOf_cons, sumOf_nil, hnew]
    omega
  refine ⟨hinv.fault, by rw [hsame]; exact hinv.counted, hinv.owned, fun o' ho' => ?_, fun hn => (by cases hn), fun a ha => ?_,
    hinv.updating, hinv.settled, fun q hq => ?_, hinv.log⟩
  · cases ho'
    rw [hrefs']
    exact ⟨by simp only [href]; omega, Nat.succ_pos _, hcopy, hfreed⟩
  · exact hinv.current a (hcurrent.trans ha)
  · rcases List.mem_append.mp hq with hq | hq
    · exact hinv.readers q hq
    · rw [List.mem_singleton.mp hq]
      exact ⟨fun n hn => (by cases hn), fun a ha => (by cases ha), fun _ hl => absurd rfl hl, fun a newest hn => (by cases hn),
        fun newest hn => (by cases hn), fun newest hn => (by cases hn), fun hn => (by cases hn)⟩

theorem init_inv (msg : Msg) : Inv (State.init msg) := by
  have hval : ∀ b u, (State.init msg).heap.val b = some u → b = 0 ∧ u = ⟨0, msg⟩ := by
    intro b u hu
    simp only [State.init, val_alloc] at hu
    split at hu
    · exact ⟨‹_›, (Option.some.inj hu).symm⟩
    · cases hu
  refine ⟨rfl, ?_, ?_, fun o ho => ?_, fun hn => (by cases hn), fun a ha => ?_, fun a ha => (by cases ha), fun _ => rfl,
    fun r hr => (by cases hr), fun e he => (by cases he)⟩
  · have hempty : Counted (Heap.empty (α := Version)) fun _ => 0 :=
      ⟨rfl, fun a c hc => (by cases hc), fun a ha => absurd ha (Nat.lt_irrefl _)⟩
    refine hempty.alloc rfl _ rfl fun b hb => ?_
    simp only [State.holders, State.current, State.init, Option.bind_some, holdsOpt_of_ne hb]
    rfl
  · have hempty : Owned (Heap.empty (α := Version)) fun _ => False :=
      ⟨fun v => ⟨False.elim, fun hv => hv.elim (fun hv => (by cases hv)) fun ⟨_, hv⟩ => (by cases hv)⟩, List.nodup_nil,
        fun a v hv => (by cases hv), fun a b v hv => (by cases hv)⟩
    refine hempty.alloc rfl id fun u => ?_
    obtain ⟨number, m⟩ := u
    cases number with
    | zero => simp [State.init, eq_comm]
    | succ n => simp [State.init]
  · cases ho
    exact ⟨rfl, Nat.one_pos, ⟨fun hn => (by cases hn), fun hn => (by cases hn)⟩, rfl⟩
  · cases ha
    exact ⟨⟨0, msg⟩, by simp only [State.init, val_alloc, if_true], rfl⟩

theorem step_inv {l : Label} (hinv : Inv s) (h : step s l = some s') : Inv s' := by
  cases l with
  | update msg copy =>
    simp only [step] at h
    split at h
    · rename_i hg
      rw [← Option.some.inj h]
      exact hinv.update hg.1 hg.2 msg
    · cases h
  | swap =>
    simp only [step] at h
    split at h
    · rename_i copy hwriter
      cases hobj : s.object with
      | none =>
        have hzero := (hinv.noObject hobj).1
        rw [State.refs, hwriter] at hzero
        simp only [reduceCtorEq, if_false] at hzero
        omega
      | some o =>
        rw [hobj] at h
        rw [← Option.some.inj h]
        exact hinv.swap hwriter hobj
    · cases h
  | releaseOld =>
    simp only [step] at h
    split at h
    · rename_i oldcopy hwriter
      rw [← Option.some.inj h]
      exact hinv.releaseOld hwriter
    · cases h
  | release =>
    simp only [step] at h
    split at h
    · rename_i hidle
      rw [← Option.some.inj h]
      exact hinv.release hidle
    · cases h
  | copy =>
    simp only [step] at h
    split at h
    · rename_i hidle
      rw [← Option.some.inj h]
      exact hinv.copy hidle
    · cases h
  | newreader i =>
    simp only [step] at h
    split at h
    · rename_i r hr
      split at h
      · rw [← Option.some.inj h]
        exact hinv.newreader hr ‹_›
      · cases h
    · cases h
  | grab i =>
    simp only [step] at h
    split at h
    · rename_i r hr
      split at h
      · rw [← Option.some.inj h]
        exact hinv.stm_copy hr ‹_›
      · cases h
    · cases h
  | compare i =>
    simp only [step] at h
    split at h
    · rename_i r hr
      split at h
      · rename_i copy newest hpc
        rw [← Option.some.inj h]
        exact hinv.compareCopy hr hpc
      · cases h
    · cases h
  | decode i =>
    simp only [step] at h
    split at h
    · rename_i r hr
      split at h
      · rename_i newest hpc
        rw [← Option.some.inj h]
        exact hinv.decode hr hpc
      · cases h
    · cases h
  | releasereader i =>
    simp only [step] at h
    split at h
    · rename_i r hr
      split at h
      · rw [← Option.some.inj h]
        exact hinv.releasereader hr ‹_›
      · cases h
    · cases h
  | releaselast i =>
    simp only [step] at h
    split at h
    · rename_i r hr
      split at h
      · rw [← Option.some.inj h]
        exact hinv.releaselast hr ‹_›
      · cases h
    · cases h

/-! ### Every run -/

/-- How often the copy of an update was freed. -/
def State.freedCount (s : State) (n : Nat) : Nat := (s.heap.freed.map Version.number).count n

/-- The copy at an address was not freed. -/
def State.Alive (s : State) (a : Addr) : Prop := ∃ v, s.heap.val a = some v ∧ s.freedCount v.number = 0

structure Safe (s : State) : Prop where
  /-- no assertion fails, and nothing is used after it was freed -/
  fault : s.fault = false ∧ s.heap.fault = false
  current : ∀ a, s.current = some a → s.Alive a
  lastcopy : ∀ r ∈ s.readers, ∀ a, r.lastcopy = some a → s.Alive a
  copies : ∀ n < s.written.length, s.freedCount n ≤ 1 ∧
    (s.freedCount n = 0 ↔ ∃ a v, 0 < s.holders a ∧ s.heap.val a = some v ∧ v.number = n)
  copiesEnd : s.writer = .gone → (∀ r ∈ s.readers, r.pc = .gone) → ∀ n < s.written.length, s.freedCount n = 1
  object : s.objectFreed ≤ 1 ∧ (s.objectFreed = 1 ↔ s.writer = .gone ∧ ∀ r ∈ s.readers, r.pc = .closing ∨ r.pc = .gone)
  reads : ∀ e ∈ s.log, ReadOk s.written e

theorem Inv.freed_nodup (hinv : Inv s) : (s.heap.freed.map Version.number).Nodup := by
  refine hinv.owned.nodup.map_on fun u hu v hv hnum => ?_
  have hu' := (hinv.owned.place u).mpr (.inl hu)
  have hv' := (hinv.owned.place v).mpr (.inl hv)
  rw [hnum, hv'] at hu'
  cases u
  cases v
  cases hnum
  cases hu'
  rfl

theorem Inv.freedCount_eq_zero (hinv : Inv s) {n : Nat} (hn : n < s.written.length) :
    s.freedCount n = 0 ↔ ∃ a v, 0 < s.holders a ∧ s.heap.val a = some v ∧ v.number = n := by
  rw [State.freedCount, List.count_eq_zero]
  have hplace := hinv.owned.place ⟨n, s.written[n]⟩
  simp only [List.getElem?_eq_getElem hn, true_iff] at hplace
  constructor
  · intro hfreed
    rcases hplace with hmem | ⟨a, ha⟩
    · exact absurd (List.mem_map_of_mem hmem) hfreed
    · exact ⟨a, _, hinv.counted.of_val ha, ha, rfl⟩
  · rintro ⟨a, v, _, hv, rfl⟩ hmem
    obtain ⟨u, hu, hnum⟩ := List.mem_map.mp hmem
    have hu' := (hinv.owned.place u).mpr (.inl hu)
    have hv' := (hinv.owned.place v).mpr (.inr ⟨a, hv⟩)
    rw [hnum, hv'] at hu'
    have heq : u = v := by
      cases u
      cases v
      cases hnum
      cases hu'
      rfl
    rw [heq] at hu
    exact hinv.owned.apart a v hv hu

theorem Inv.alive (hinv : Inv s) (ha : 0 < s.holders a) : s.Alive a := by
  obtain ⟨v, hv⟩ := hinv.counted.val_isSome ha
  have hwritten := (hinv.owned.place v).mpr (.inr ⟨a, hv⟩)
  exact ⟨v, hv, (hinv.freedCount_eq_zero (List.getElem?_eq_some_iff.mp hwritten).1).mpr ⟨a, v, ha, hv, rfl⟩⟩

theorem refs_eq_zero : s.refs = 0 ↔ s.writer = .gone ∧ ∀ r ∈ s.readers, r.pc = .closing ∨ r.pc = .gone := by
  have hgrabs : ∀ r : Reader, r.grabs = 0 ↔ r.pc = .closing ∨ r.pc = .gone := by
    intro r
    rw [Reader.grabs]
    split <;> simp_all
  have hsum : sumOf Reader.grabs s.readers = 0 ↔ ∀ r ∈ s.readers, r.pc = .closing ∨ r.pc = .gone := by
    simp only [sumOf_eq_zero, hgrabs]
  rw [State.refs, Nat.add_eq_zero_iff, hsum]
  refine and_congr_left fun _ => ?_
  split <;> simp_all

theorem Inv.safe (hinv : Inv s) : Safe s := by
  have hnodup := hinv.freed_nodup
  refine ⟨⟨hinv.fault, hinv.counted.fault⟩, fun a ha => ?_, fun r hr a ha => ?_, fun n hn => ⟨?_, hinv.freedCount_eq_zero hn⟩,
    fun hwriter hreaders n hn => ?_, ?_, hinv.log⟩
  · refine hinv.alive ?_
    rw [State.holders, ha, holdsOpt_self]
    omega
  · refine hinv.alive (Nat.lt_of_lt_of_le ?_ (holds_le_holders hr a))
    rw [Reader.holds, ha, holdsOpt_self]
    omega
  · exact List.nodup_iff_count_le_one.mp hnodup n
  · have hle := List.nodup_iff_count_le_one.mp hnodup n
    have hzero : s.freedCount n ≠ 0 := by
      rw [Ne, hinv.freedCount_eq_zero hn]
      rintro ⟨a, v, ha, -, -⟩
      -- nobody is left to hold a copy
      have hcurrent : s.current = none := by
        cases hobj : s.object with
        | none => rw [State.current, hobj]; rfl
        | some o => rw [State.current, hobj]; exact (hinv.object o hobj).2.2.1.mpr hwriter
      have hsum : sumOf (Reader.holds a) s.readers = 0 := by
        refine sumOf_eq_zero.mpr fun r hr => ?_
        rw [Reader.holds, (hinv.readers r hr).gone (hreaders r hr), hreaders r hr]
        rfl
      rw [State.holders, hcurrent, hwriter, hsum] at ha
      exact absurd ha (Nat.lt_irrefl _)
    have hone : s.freedCount n ≤ 1 := hle
    omega
  · rw [← refs_eq_zero]
    cases hobj : s.object with
    | none =>
      obtain ⟨hzero, hfreed⟩ := hinv.noObject hobj
      exact ⟨Nat.le_of_eq hfreed, iff_of_true hfreed hzero⟩
    | some o =>
      obtain ⟨_, hpos, _, hfreed⟩ := hinv.object o hobj
      exact ⟨by omega, by omega⟩

/-- For every order of the steps of the writer and the readers. -/
theorem stm_safe (msg : Msg) {ls : List Label} (h : Lts.run step (.init msg) ls = some s) : Safe s :=
  (Lts.run_invariant (fun _ _ _ hinv hstep => step_inv hinv hstep) h (init_inv msg)).safe

/-- A reader reads twice, with an update in between and one while it reads; then both go. -/
def twoReads : List Label :=
  [.copy, .newreader 0, .grab 0, .compare 0, .decode 0, .update [2] 1, .swap, .grab 0, .releaseOld, .compare 0, .update [3] 0, .decode 0,
    .swap, .releaseOld, .release, .releasereader 0, .releaselast 0]

theorem stm_safe_twoReads : ∃ s, Lts.run step (.init [1]) twoReads = some s ∧
    s.log.map (fun e => e.outcome.map Version.msg) = [some [2], some [1]] ∧ s.objectFreed = 1 ∧ Safe s := by
  let p (s : State) : Bool := s.log.map (fun e => e.outcome.map Version.msg) = [some [2], some [1]] ∧ s.objectFreed = 1
  obtain ⟨s, hrun, _, hp⟩ := Lts.of_check (g := fun _ _ => true) (G := fun _ _ => True) (p := p) (fun _ _ _ => trivial)
    (show Lts.check step (fun _ _ => true) p (.init [1]) twoReads = true by decide)
  obtain ⟨hlog, hfreed⟩ := of_decide_eq_true hp
  exact ⟨s, hrun, hlog, hfreed, stm_safe [1] hrun⟩

end Stm
end Skynet
