import Skynet.Lib.Run
import Skynet.Lib.Threads

/-!
# Skynet.Rwlock

The read-write lock of `rwlock.h` with `__sync` operations, for any number of threads.

* A step is one access to `write` or `read`, and all threads see these accesses in one order.
* Between its calls a thread that has the lock for writing changes what the lock protects, by any function.

* `rwlock_excludes` : who writes is alone, the counters are exact, and some thread gets on as long as one is in a call
  or in a section.
* `rwlock_sections` : during the section of a thread nothing is changed by another one.
-/

namespace Skynet
namespace Rwlock

open Threads (sumOf sumOf_set sumOf_eq_zero le_sumOf)

inductive Pc where
  | idle
  /-- `while(lock->write)` -/
  | rwait
  | radd
  /-- `if (lock->write)` -/
  | rtest
  | rsub
  | reading
  /-- The first loop of `rwlock_wlock`. -/
  | wtry
  /-- The second one. -/
  | wdrain
  | writing
deriving Repr, DecidableEq

structure State (δ : Type*) where
  write : Int
  read : Int
  pc : List Pc
  data : δ

inductive Label (δ : Type*) where
  | rlock (i : Nat)
  | wlock (i : Nat)
  /-- The next access in `rwlock_rlock` or `rwlock_wlock`. -/
  | access (i : Nat)
  | runlock (i : Nat)
  | wunlock (i : Nat)
  | update (i : Nat) (f : δ → δ)

variable {δ : Type*}

def init (n : Nat) (data : δ) : State δ := { write := 0, read := 0, pc := List.replicate n .idle, data := data }

def State.move (s : State δ) (i : Nat) (pc : Pc) (write read : Int) : State δ :=
  { s with write := write, read := read, pc := s.pc.set i pc }

/-- One access of a call. A thread that has to wait stays where it is. -/
def access (s : State δ) (i : Nat) : Pc → Option (State δ)
  | .rwait => some (s.move i (if s.write ≠ 0 then .rwait else .radd) s.write s.read)
  | .radd => some (s.move i .rtest s.write (s.read + 1))
  | .rtest => some (s.move i (if s.write ≠ 0 then .rsub else .reading) s.write s.read)
  | .rsub => some (s.move i .rwait s.write (s.read - 1))
  | .wtry => some (s.move i (if s.write ≠ 0 then .wtry else .wdrain) 1 s.read)
  | .wdrain => some (s.move i (if s.read ≠ 0 then .wdrain else .writing) s.write s.read)
  | _ => none

def step (s : State δ) : Label δ → Option (State δ)
  | .rlock i => if s.pc[i]? = some .idle then some (s.move i .rwait s.write s.read) else none
  | .wlock i => if s.pc[i]? = some .idle then some (s.move i .wtry s.write s.read) else none
  | .access i => (s.pc[i]?).bind (access s i)
  | .runlock i => if s.pc[i]? = some .reading then some (s.move i .idle s.write (s.read - 1)) else none
  | .wunlock i => if s.pc[i]? = some .writing then some (s.move i .idle 0 s.read) else none
  | .update i f => if s.pc[i]? = some .writing then some { s with data := f s.data } else none

/-! ### The invariant -/

/-- The thread is counted in `read`. -/
def counted : Pc → Nat
  | .rtest | .rsub | .reading => 1
  | _ => 0

/-- The thread has set `write`. -/
def owns : Pc → Nat
  | .wdrain | .writing => 1
  | _ => 0

def reads : Pc → Nat
  | .reading => 1
  | _ => 0

def writes : Pc → Nat
  | .writing => 1
  | _ => 0

structure Inv (s : State δ) : Prop where
  read : s.read = sumOf counted s.pc
  write : s.write = sumOf owns s.pc
  one : s.write = 0 ∨ s.write = 1
  excludes : sumOf writes s.pc = 0 ∨ sumOf reads s.pc = 0

theorem sumOf_mono {f g : Pc → Nat} (h : ∀ a, f a ≤ g a) (as : List Pc) : sumOf f as ≤ sumOf g as := by
  induction as with
  | nil => exact Nat.le_refl _
  | cons a as ih =>
    have := h a
    simp only [Threads.sumOf_cons]
    omega

theorem reads_le : ∀ a, reads a ≤ counted a := by
  intro a
  cases a <;> decide

theorem writes_le : ∀ a, writes a ≤ owns a := by
  intro a
  cases a <;> decide

theorem inv_init (n : Nat) (data : δ) : Inv (init n data) := by
  have hzero : ∀ f : Pc → Nat, f .idle = 0 → sumOf f (List.replicate n .idle) = 0 := by
    intro f hf
    refine sumOf_eq_zero.mpr fun a ha => ?_
    rw [List.eq_of_mem_replicate ha, hf]
  refine ⟨?_, ?_, .inl rfl, .inl (hzero writes rfl)⟩
  · rw [init, hzero counted rfl]
    rfl
  · rw [init, hzero owns rfl]
    rfl

/-- A thread goes from `a` to `b`. -/
theorem Inv.move {s : State δ} (inv : Inv s) {i : Nat} {a b : Pc} (h : s.pc[i]? = some a) {write read : Int}
    (hread : read = s.read + counted b - counted a) (hwrite : write = s.write + owns b - owns a)
    (hone : write = 0 ∨ write = 1) (hreads : reads b ≤ reads a ∨ s.write = 0)
    (hwrites : writes b ≤ writes a ∨ s.read = 0) (halone : reads b = 0 ∨ writes b = 0) : Inv (s.move i b write read) :=
    by
  have hcounted := sumOf_set counted h b
  have howns := sumOf_set owns h b
  have hreads' := sumOf_set reads h b
  have hwrites' := sumOf_set writes h b
  have hle := sumOf_mono reads_le s.pc
  have hle' := sumOf_mono writes_le s.pc
  have := inv.read
  have := inv.write
  have := reads_le a
  have := writes_le a
  have := reads_le b
  have := writes_le b
  refine ⟨?_, ?_, hone, ?_⟩
  · simp only [State.move]
    omega
  · simp only [State.move]
    omega
  · simp only [State.move]
    have := inv.excludes
    have := le_sumOf writes (List.mem_of_getElem? h)
    have := le_sumOf reads (List.mem_of_getElem? h)
    omega

theorem Inv.access {s s' : State δ} (inv : Inv s) {i : Nat} {a : Pc} (h : s.pc[i]? = some a)
    (hstep : access s i a = some s') : Inv s' := by
  have hone := inv.one
  cases a with
  | rwait =>
    cases hstep
    split
    · exact inv.move h (by simp [counted]) (by simp [owns]) hone (.inl (by decide)) (.inl (by decide)) (.inl rfl)
    · exact inv.move h (by simp [counted]) (by simp [owns]) hone (.inl (by decide)) (.inl (by decide)) (.inl rfl)
  | radd =>
    cases hstep
    exact inv.move h (by simp [counted]) (by simp [owns]) hone (.inl (by decide)) (.inl (by decide)) (.inl rfl)
  | rtest =>
    cases hstep
    split
    · exact inv.move h (by simp [counted]) (by simp [owns]) hone (.inl (by decide)) (.inl (by decide)) (.inl rfl)
    · rename_i hfree
      exact inv.move h (by simp [counted]) (by simp [owns]) hone (.inr (not_not.mp hfree)) (.inl (by decide)) (.inr rfl)
  | rsub =>
    cases hstep
    exact inv.move h (by simp [counted]) (by simp [owns]) hone (.inl (by decide)) (.inl (by decide)) (.inl rfl)
  | wtry =>
    cases hstep
    split
    · have hw : s.write = 1 := by omega
      exact inv.move h (by simp [counted]) (by simp [owns, hw]) (.inr rfl) (.inl (by decide)) (.inl (by decide))
        (.inl rfl)
    · have hw : s.write = 0 := by omega
      exact inv.move h (by simp [counted]) (by simp [owns, hw]) (.inr rfl) (.inl (by decide)) (.inl (by decide))
        (.inl rfl)
  | wdrain =>
    cases hstep
    split
    · exact inv.move h (by simp [counted]) (by simp [owns]) hone (.inl (by decide)) (.inl (by decide)) (.inl rfl)
    · rename_i hfree
      exact inv.move h (by simp [counted]) (by simp [owns]) hone (.inl (by decide)) (.inr (not_not.mp hfree)) (.inl rfl)
  | idle => cases hstep
  | reading => cases hstep
  | writing => cases hstep

theorem step_inv {s s' : State δ} {l : Label δ} (inv : Inv s) (hstep : step s l = some s') : Inv s' := by
  have hone := inv.one
  cases l with
  | rlock i =>
    obtain ⟨h, hs⟩ := Option.ite_none_right_eq_some.mp hstep
    cases hs
    exact inv.move h (by simp [counted]) (by simp [owns]) hone (.inl (by decide)) (.inl (by decide)) (.inl rfl)
  | wlock i =>
    obtain ⟨h, hs⟩ := Option.ite_none_right_eq_some.mp hstep
    cases hs
    exact inv.move h (by simp [counted]) (by simp [owns]) hone (.inl (by decide)) (.inl (by decide)) (.inl rfl)
  | access i =>
    obtain ⟨a, h, hs⟩ := Option.bind_eq_some_iff.mp hstep
    exact inv.access h hs
  | runlock i =>
    obtain ⟨h, hs⟩ := Option.ite_none_right_eq_some.mp hstep
    cases hs
    exact inv.move h (by simp [counted]) (by simp [owns]) hone (.inl (by decide)) (.inl (by decide)) (.inl rfl)
  | wunlock i =>
    obtain ⟨h, hs⟩ := Option.ite_none_right_eq_some.mp hstep
    cases hs
    have hset := sumOf_set owns h .idle
    have hw := inv.write
    have howns : owns .idle = 0 ∧ owns .writing = 1 := ⟨rfl, rfl⟩
    exact inv.move h (by simp [counted]) (by omega) (.inl rfl) (.inl (by decide)) (.inl (by decide)) (.inl rfl)
  | update i f =>
    obtain ⟨h, hs⟩ := Option.ite_none_right_eq_some.mp hstep
    cases hs
    exact ⟨inv.read, inv.write, inv.one, inv.excludes⟩

theorem run_inv {n : Nat} {data : δ} {ls : List (Label δ)} {s : State δ}
    (h : Lts.run step (init n data) ls = some s) : Inv s :=
  Lts.run_invariant (fun _ _ _ inv hstep => step_inv inv hstep) h (inv_init n data)

/-! ### Who has the lock -/

/-- Two threads are counted apart. -/
theorem add_le_sumOf (f : Pc → Nat) {pc : List Pc} {i j : Nat} {a b : Pc} (hij : i ≠ j) (hi : pc[i]? = some a)
    (hj : pc[j]? = some b) : f a + f b ≤ sumOf f pc := by
  induction pc generalizing i j with
  | nil => cases hi
  | cons c pc ih =>
    rw [Threads.sumOf_cons]
    cases i with
    | zero =>
      cases j with
      | zero => exact absurd rfl hij
      | succ j =>
        cases hi
        rw [List.getElem?_cons_succ] at hj
        have := le_sumOf f (List.mem_of_getElem? hj)
        omega
    | succ i =>
      cases j with
      | zero =>
        cases hj
        rw [List.getElem?_cons_succ] at hi
        have := le_sumOf f (List.mem_of_getElem? hi)
        omega
      | succ j =>
        have := ih (fun h => hij (congrArg (· + 1) h)) hi hj
        omega

theorem exists_of_sumOf {f : Pc → Nat} {pc : List Pc} (h : sumOf f pc ≠ 0) : ∃ (i : Nat) (a : Pc), pc[i]? = some a ∧
    f a ≠ 0 := by
  by_contra hno
  refine h (sumOf_eq_zero.mpr fun a ha => ?_)
  by_contra hne
  obtain ⟨i, hi⟩ := List.mem_iff_getElem?.mp ha
  exact hno ⟨i, a, hi, hne⟩

theorem sumOf_le_length {f : Pc → Nat} (h : ∀ a, f a ≤ 1) (pc : List Pc) : sumOf f pc ≤ pc.length := by
  induction pc with
  | nil => exact Nat.le_refl _
  | cons a pc ih =>
    have := h a
    simp only [Threads.sumOf_cons, List.length_cons]
    omega

theorem Inv.writer_alone {s : State δ} (inv : Inv s) {i j : Nat} (hij : i ≠ j) (hi : s.pc[i]? = some .writing) :
    s.pc[j]? ≠ some .writing ∧ s.pc[j]? ≠ some .reading := by
  constructor
  · intro hj
    have hsum := add_le_sumOf owns hij hi hj
    have hw := inv.write
    have hone := inv.one
    have howns : owns .writing = 1 := rfl
    omega
  · intro hj
    have hreads := le_sumOf reads (List.mem_of_getElem? hj)
    have hwrites := le_sumOf writes (List.mem_of_getElem? hi)
    have hexcludes := inv.excludes
    have hr : reads .reading = 1 := rfl
    have hw : writes .writing = 1 := rfl
    omega

/-- A call that is begun, or the end of a section. -/
def Advances : Label δ → Prop
  | .access _ | .runlock _ | .wunlock _ => True
  | _ => False

/-- The thread can leave its place. -/
def Moves (s : State δ) : Prop := ∃ (l : Label δ) (s' : State δ), Advances l ∧ step s l = some s' ∧ s'.pc ≠ s.pc

theorem moves_of_set {s : State δ} {l : Label δ} {i : Nat} {a b : Pc} {write read : Int} (hl : Advances l)
    (h : s.pc[i]? = some a) (hab : b ≠ a) (hstep : step s l = some (s.move i b write read)) : Moves s := by
  refine ⟨l, _, hl, hstep, fun heq => hab ?_⟩
  have hset : (s.pc.set i b)[i]? = some b := List.getElem?_set_self (List.getElem?_eq_some_iff.mp h).1
  rw [show s.pc.set i b = s.pc from heq, h] at hset
  exact (Option.some.inj hset).symm

theorem step_access {s : State δ} {i : Nat} {a : Pc} (h : s.pc[i]? = some a) : step s (.access i) = access s i a := by
  rw [step, h]
  rfl

/-- A thread that is counted can go on: it has no loop to pass. -/
theorem moves_of_counted {s : State δ} {i : Nat} {a : Pc} (h : s.pc[i]? = some a) (ha : counted a ≠ 0) : Moves s := by
  cases a with
  | rtest =>
    refine moves_of_set (b := if s.write ≠ 0 then .rsub else .reading) (l := .access i) trivial h ?_ (step_access h)
    split <;> decide
  | rsub => exact moves_of_set (l := .access i) trivial h (by decide) (step_access h)
  | reading => exact moves_of_set (l := .runlock i) trivial h (b := .idle) (by decide) (if_pos h)
  | _ => exact absurd rfl ha

/-- So can the one that has set `write`, or one of the readers that it waits for. -/
theorem Inv.moves_of_owns {s : State δ} (inv : Inv s) {i : Nat} {a : Pc} (h : s.pc[i]? = some a) (ha : owns a ≠ 0) :
    Moves s := by
  cases a with
  | wdrain =>
    by_cases hread : s.read = 0
    · refine moves_of_set (b := if s.read ≠ 0 then .wdrain else .writing) (l := .access i) trivial h ?_ (step_access h)
      rw [if_neg (not_not.mpr hread)]
      decide
    · obtain ⟨j, b, hj, hb⟩ := @exists_of_sumOf counted s.pc (by have := inv.read; omega)
      exact moves_of_counted hj hb
  | writing => exact moves_of_set (l := .wunlock i) trivial h (b := .idle) (by decide) (if_pos h)
  | _ => exact absurd rfl ha

theorem Inv.moves {s : State δ} (inv : Inv s) {i : Nat} {a : Pc} (h : s.pc[i]? = some a) (ha : a ≠ .idle) :
    Moves s := by
  have howner : s.write ≠ 0 → Moves s := by
    intro hw
    obtain ⟨j, b, hj, hb⟩ := @exists_of_sumOf owns s.pc (by have := inv.write; omega)
    exact inv.moves_of_owns hj hb
  cases a with
  | idle => exact absurd rfl ha
  | rwait =>
    by_cases hw : s.write = 0
    · refine moves_of_set (b := if s.write ≠ 0 then .rwait else .radd) (l := .access i) trivial h ?_ (step_access h)
      rw [if_neg (not_not.mpr hw)]
      decide
    · exact howner hw
  | radd => exact moves_of_set (l := .access i) trivial h (by decide) (step_access h)
  | wtry =>
    by_cases hw : s.write = 0
    · refine moves_of_set (b := if s.write ≠ 0 then .wtry else .wdrain) (l := .access i) trivial h ?_ (step_access h)
      rw [if_neg (not_not.mpr hw)]
      decide
    · exact howner hw
  | wdrain => exact inv.moves_of_owns h (by decide)
  | writing => exact inv.moves_of_owns h (by decide)
  | rtest => exact moves_of_counted h (by decide)
  | rsub => exact moves_of_counted h (by decide)
  | reading => exact moves_of_counted h (by decide)

/-- What holds in every state of every run. -/
structure Excludes (s : State δ) : Prop where
  alone : ∀ i j : Nat, i ≠ j → s.pc[i]? = some .writing → s.pc[j]? ≠ some .writing ∧ s.pc[j]? ≠ some .reading
  counter : 0 ≤ s.read ∧ s.read ≤ s.pc.length
  free : (∀ a ∈ s.pc, a = .idle) → s.write = 0 ∧ s.read = 0
  moves : (∃ a ∈ s.pc, a ≠ .idle) → Moves s

theorem rwlock_excludes (n : Nat) (data : δ) (ls : List (Label δ)) (s : State δ)
    (h : Lts.run step (init n data) ls = some s) :
    Excludes s := by
  have inv := run_inv h
  constructor
  case alone => exact fun i j hij hi => inv.writer_alone hij hi
  case counter =>
    have := inv.read
    have := sumOf_le_length (f := counted) (fun a => by cases a <;> decide) s.pc
    omega
  case free =>
    intro hidle
    have hzero : ∀ f : Pc → Nat, f .idle = 0 → sumOf f s.pc = 0 := by
      intro f hf
      refine sumOf_eq_zero.mpr fun a ha => ?_
      rw [hidle a ha, hf]
    have hread := inv.read
    have hwrite := inv.write
    rw [hzero counted rfl] at hread
    rw [hzero owns rfl] at hwrite
    exact ⟨hwrite, hread⟩
  case moves =>
    rintro ⟨a, ha, hne⟩
    obtain ⟨i, hi⟩ := List.mem_iff_getElem?.mp ha
    exact inv.moves hi hne

/-! ### Sections -/

/-- The thread neither gives the lock back nor takes it again. -/
def Within (i : Nat) : Label δ → Prop
  | .runlock j | .wunlock j => j ≠ i
  | _ => True

/-- What a thread does to the data. -/
def updatesOf (i : Nat) : List (Label δ) → δ → δ
  | [], data => data
  | .update j f :: ls, data => if j = i then updatesOf i ls (f data) else updatesOf i ls data
  | _ :: ls, data => updatesOf i ls data

theorem move_getElem_of_ne (s : State δ) {i j : Nat} (h : j ≠ i) (b : Pc) (write read : Int) :
    (s.move j b write read).pc[i]? = s.pc[i]? := List.getElem?_set_ne h

/-- One step of any thread, while the thread `i` is in its section. -/
theorem Inv.step_within {s s' : State δ} (inv : Inv s) {i : Nat} {a : Pc} (h : s.pc[i]? = some a)
    (ha : a = .reading ∨ a = .writing) {l : Label δ} (hl : Within i l) (hstep : step s l = some s') :
    s'.pc[i]? = some a ∧ s'.data = updatesOf i [l] s.data := by
  have hother : ∀ (j : Nat) (b c : Pc) (write read : Int), s.pc[j]? = some b → b ≠ a →
      (s.move j c write read).pc[i]? = some a := by
    intro j b c write read hj hb
    rw [move_getElem_of_ne, h]
    rintro rfl
    rw [h] at hj
    exact hb (Option.some.inj hj).symm
  cases l with
  | rlock j =>
    obtain ⟨hj, hs⟩ := Option.ite_none_right_eq_some.mp hstep
    cases hs
    exact ⟨hother j _ _ _ _ hj (by rcases ha with rfl | rfl <;> decide), rfl⟩
  | wlock j =>
    obtain ⟨hj, hs⟩ := Option.ite_none_right_eq_some.mp hstep
    cases hs
    exact ⟨hother j _ _ _ _ hj (by rcases ha with rfl | rfl <;> decide), rfl⟩
  | access j =>
    obtain ⟨b, hj, hs⟩ := Option.bind_eq_some_iff.mp hstep
    have hmoved : b ≠ a ∧ ∃ c write read, s' = s.move j c write read := by
      rcases ha with rfl | rfl <;> cases b <;> cases hs <;> exact ⟨by decide, _, _, _, rfl⟩
    obtain ⟨hb, c, write, read, rfl⟩ := hmoved
    exact ⟨hother j b c write read hj hb, rfl⟩
  | runlock j =>
    obtain ⟨hj, hs⟩ := Option.ite_none_right_eq_some.mp hstep
    cases hs
    exact ⟨(move_getElem_of_ne s hl _ _ _).trans h, rfl⟩
  | wunlock j =>
    obtain ⟨hj, hs⟩ := Option.ite_none_right_eq_some.mp hstep
    cases hs
    exact ⟨(move_getElem_of_ne s hl _ _ _).trans h, rfl⟩
  | update j f =>
    obtain ⟨hj, hs⟩ := Option.ite_none_right_eq_some.mp hstep
    cases hs
    refine ⟨h, ?_⟩
    by_cases hji : j = i
    · simp only [updatesOf, hji, if_true]
    · have halone := inv.writer_alone hji hj
      rcases ha with rfl | rfl
      · exact absurd h halone.2
      · exact absurd h halone.1

theorem updatesOf_cons (i : Nat) (l : Label δ) (ls : List (Label δ)) (data : δ) :
    updatesOf i (l :: ls) data = updatesOf i ls (updatesOf i [l] data) := by
  cases l with
  | update j f =>
    simp only [updatesOf]
    split <;> rfl
  | _ => rfl

theorem Inv.run_within {s s' : State δ} (inv : Inv s) {i : Nat} {a : Pc} (h : s.pc[i]? = some a)
    (ha : a = .reading ∨ a = .writing) {ls : List (Label δ)} (hls : ∀ l ∈ ls, Within i l)
    (hrun : Lts.run step s ls = some s') : s'.data = updatesOf i ls s.data := by
  induction ls generalizing s with
  | nil =>
    cases hrun
    rfl
  | cons l ls ih =>
    obtain ⟨t, ht, hrest⟩ := Lts.run_cons.mp hrun
    obtain ⟨hpc, hdata⟩ := inv.step_within h ha (hls l (List.mem_cons_self ..)) ht
    rw [ih (step_inv inv ht) hpc (fun l hl => hls l (List.mem_cons_of_mem _ hl)) hrest, hdata, ← updatesOf_cons]

/-- A thread that reads changes nothing. -/
theorem Inv.run_reading {s s' : State δ} (inv : Inv s) {i : Nat} (h : s.pc[i]? = some .reading) {ls : List (Label δ)}
    (hls : ∀ l ∈ ls, Within i l) (hrun : Lts.run step s ls = some s') : s'.data = s.data := by
  induction ls generalizing s with
  | nil =>
    cases hrun
    rfl
  | cons l ls ih =>
    obtain ⟨t, ht, hrest⟩ := Lts.run_cons.mp hrun
    obtain ⟨hpc, hdata⟩ := inv.step_within h (.inl rfl) (hls l (List.mem_cons_self ..)) ht
    rw [ih (step_inv inv ht) hpc (fun l hl => hls l (List.mem_cons_of_mem _ hl)) hrest, hdata]
    cases l with
    | update j f =>
      obtain ⟨hj, -⟩ := Option.ite_none_right_eq_some.mp ht
      refine if_neg ?_
      rintro rfl
      rw [h] at hj
      cases hj
    | _ => rfl

/-- From the time that a thread has the lock for reading until it gives it back, the data stays as it is; from the time
that it has it for writing, the data is what the thread itself makes of it, whatever the other threads do. -/
theorem rwlock_sections (n : Nat) (data : δ) (ls ls' : List (Label δ)) (s s' : State δ) (i : Nat)
    (h : Lts.run step (init n data) ls = some s) (h' : Lts.run step s ls' = some s') (hwithin : ∀ l ∈ ls', Within i l) :
    (s.pc[i]? = some .reading → s'.data = s.data) ∧ (s.pc[i]? = some .writing → s'.data = updatesOf i ls' s.data) := by
  have inv := run_inv h
  exact ⟨fun hi => inv.run_reading hi hwithin h', fun hi => inv.run_within hi (.inr rfl) hwithin h'⟩

/-- The thread 1 writes. The thread 0 is counted before it sees that, the thread 2 has to wait. -/
def contended : List (Label Nat) :=
  [.rlock 0, .access 0, .wlock 1, .access 1, .access 0, .access 0, .access 1, .access 0, .access 1]

theorem rwlock_excludes_contended : ∃ s, Lts.run step (init 3 5) contended = some s ∧ s.pc = [.rwait, .writing, .idle] ∧
    Excludes s := by
  have hrun : ∃ s, Lts.run step (init 3 5) contended = some s ∧ s.pc = [.rwait, .writing, .idle] := ⟨_, rfl, rfl⟩
  obtain ⟨s, hs, hpc⟩ := hrun
  exact ⟨s, hs, hpc, rwlock_excludes 3 5 contended s hs⟩

theorem rwlock_sections_contended : ∃ s s', Lts.run step (init 3 5) contended = some s ∧
    Lts.run step s [.update 1 (· + 1), .wlock 2, .access 2, .update 1 (· * 2)] = some s' ∧ s'.data = 12 := by
  have hrun : ∃ s, Lts.run step (init 3 5) contended = some s ∧ ∃ s',
      Lts.run step s [.update 1 (· + 1), .wlock 2, .access 2, .update 1 (· * 2)] = some s' ∧
      s.pc[1]? = some .writing ∧ s.data = 5 := ⟨_, rfl, _, rfl, rfl, rfl⟩
  obtain ⟨s, hs, s', hs', hpc, hdata⟩ := hrun
  have hwithin : ∀ l ∈ ([.update 1 (· + 1), .wlock 2, .access 2, .update 1 (· * 2)] : List (Label Nat)), Within 1 l :=
    by
    intro l hl
    simp only [List.mem_cons, List.not_mem_nil, or_false] at hl
    rcases hl with rfl | rfl | rfl | rfl <;> trivial
  have hsection := (rwlock_sections 3 5 contended _ s s' 1 hs hs' hwithin).2 hpc
  exact ⟨s, s', hs, hs', by rw [hsection, hdata]; rfl⟩

end Rwlock
end Skynet
