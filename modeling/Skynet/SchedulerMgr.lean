import Mathlib.Logic.Function.Basic
import Skynet.Lib.Run

/-!
# Skynet.SchedulerMgr

The timers of a service, `schedulerMgr.lua` and `scheduler.lua`. A pass of `update` goes over the timer
table once for each `skynet.timeout` of 0.1 s, and asks for the next timeout at its end.

A step is one visit of a timer by the loop of `update`; the rest of the pass, and what a callback or
another coroutine of the service does while a callback runs, are further steps. `pairs` may visit the
timers in any order, and a timer that is added during a pass is visited in it or not. A callback ends, or
raises an error that ends the coroutine of the timeout.

What a timer did is kept in a `Record` that the code does not have: how often it was visited, how often
its callback was called, and how often at the time it was unregistered.

* `step_inv` : a timer fires when its visits are used up, and not after it was unregistered.
* `timers_iff` : every run; the clock stops exactly when a callback raises an error.
-/

namespace Skynet
namespace SchedulerMgr

/-- `scheduler`, without its callback and the arguments of it. -/
structure Scheduler where
  delay : Int
  intaval : Int
  times : Int
  ontimes : Int
  curIntaval : Int
  alive : Bool
deriving DecidableEq, Repr

/-- `updateSet`. -/
def updateSet (intaval times delay : Int) : Scheduler where
  delay := delay
  intaval := intaval
  times := times
  ontimes := 0
  curIntaval := intaval
  alive := true

def death (s : Scheduler) : Scheduler := { s with alive := false }

/-- `onTriggle`; the second part says that the callback is called. -/
def onTriggle (s : Scheduler) : Scheduler × Bool :=
  if s.alive then
    let s := { s with ontimes := s.ontimes + 1, curIntaval := s.intaval }
    (if s.times ≠ -1 ∧ s.times ≤ s.ontimes then death s else s, true)
  else (s, false)

def updateTime (dt : Int) (s : Scheduler) : Scheduler × Bool :=
  if !s.alive then (s, false)
  else if 0 < s.delay then ({ s with delay := s.delay - dt }, false)
  else
    let s := { s with curIntaval := s.curIntaval - dt }
    if s.curIntaval ≤ 0 then onTriggle s else (s, false)

/-- A `schedulerMgr`. `toPending` says whether the `skynet.timeout` of `self.to` is pending; `names` are the keys of
`m_schedulers`. -/
structure Manager where
  m_schedulers : Nat → Option Scheduler
  names : List Nat
  m_isRunTime : Bool
  m_pCurTimerId : Nat
  toPending : Bool

def m_curTimeUnit : Int := 100

/-- `ctor`. -/
def Manager.new : Manager where
  m_schedulers := fun _ => none
  names := []
  m_isRunTime := false
  m_pCurTimerId := 0
  toPending := false

/-- The loop of `gernerateUniqueId`, with as many rounds as there are timers, and one more. -/
def nextFree (m : Manager) : Nat → Nat → Option Nat
  | 0, _ => none
  | rounds + 1, id =>
    if (m.m_schedulers id).isSome then nextFree m rounds (if 0xffffffff ≤ id + 1 then 1 else id + 1) else some id

def gernerateUniqueId (m : Manager) : Option Nat := nextFree m (m.names.length + 1) (m.m_pCurTimerId + 1)

def isNeedTimer (m : Manager) : Bool := m.names.any fun name => ((m.m_schedulers name).map Scheduler.alive).getD false

def startRunTimer (m : Manager) : Manager := { m with m_isRunTime := true, toPending := true }

/-- `self.m_schedulers[name] = s`. -/
def put (m : Manager) (name : Nat) (s : Scheduler) : Manager :=
  { m with m_schedulers := Function.update m.m_schedulers name (some s)
           names := if (m.m_schedulers name).isSome then m.names else m.names ++ [name] }

/-- `register`, after its assertion. -/
def register (intaval times delay : Int) (m : Manager) : Option (Nat × Manager) := do
  let name ← gernerateUniqueId m
  let m := put { m with m_pCurTimerId := name } name (updateSet intaval times delay)
  some (name, if !m.m_isRunTime && isNeedTimer m then startRunTimer m else m)

def unregister (name : Nat) (m : Manager) : Manager :=
  match m.m_schedulers name with
  | some s => put m name (death s)
  | none => m

def destroySchedulers (ids : List Nat) (m : Manager) : Manager :=
  { m with m_schedulers := fun name => if name ∈ ids then none else m.m_schedulers name
           names := m.names.filter fun name => name ∉ ids }

/-- A pass of `update`: the timers that were there at its start and that it still has to visit, those it has
visited, `deathIds`, and whether a callback is running. -/
structure Pass where
  todo : List Nat
  visited : List Nat
  deathIds : List Nat
  running : Bool

/-- What a timer was registered for and what it did. `since` counts the passes up to the one in which it
was registered, `visits` the calls of `updateTime` that found it alive. -/
structure Record where
  intaval : Int
  times : Int
  delay : Int
  since : Nat
  visits : Nat
  fired : Nat
  /-- `fired`, when `unregister` was first called. -/
  unregistered : Option Nat
deriving DecidableEq, Repr

structure World where
  mgr : Manager
  pass : Option Pass
  record : Nat → Option Record
  /-- The passes that came to their end. -/
  ended : Nat

def World.init : World := ⟨Manager.new, none, fun _ => none, 0⟩

inductive Label where
  | register (intaval times delay : Int)
  | unregister (name : Nat)
  /-- the timeout: `update` begins -/
  | tick
  | visit (name : Nat)
  /-- the callback returns -/
  | returned
  /-- the callback raises an error -/
  | raised
  /-- `update` comes to its end -/
  | passEnds
deriving DecidableEq, Repr

/-- One call of `updateTime`, or the mark of a dead timer. -/
def visit (w : World) (p : Pass) (name : Nat) : Option World :=
  match w.mgr.m_schedulers name with
  | none => none
  | some s =>
    let p := { p with todo := p.todo.filter fun n => n ≠ name, visited := name :: p.visited }
    if s.alive then
      let (s, fires) := updateTime m_curTimeUnit s
      some { w with
        mgr := put w.mgr name s
        pass := some { p with running := fires }
        record := Function.update w.record name ((w.record name).map fun r =>
          { r with visits := r.visits + 1, fired := if fires then r.fired + 1 else r.fired }) }
    else some { w with pass := some { p with deathIds := p.deathIds ++ [name] } }

def step (w : World) : Label → Option World
  | .register intaval times delay =>
    if intaval % 100 = 0 ∧ delay % 100 = 0 then do
      let (name, mgr) ← register intaval times delay w.mgr
      let since := w.ended + if w.pass.isSome then 1 else 0
      some { w with mgr := mgr, record := Function.update w.record name (some ⟨intaval, times, delay, since, 0, 0, none⟩) }
    else some w
  | .unregister name =>
    some { w with mgr := unregister name w.mgr, record := Function.update w.record name ((w.record name).map fun r =>
      { r with unregistered := r.unregistered.or (some r.fired) }) }
  | .tick =>
    if w.mgr.toPending then
      let mgr := { w.mgr with toPending := false }
      some (if mgr.m_isRunTime then { w with mgr := mgr, pass := some ⟨mgr.names, [], [], false⟩ } else { w with mgr := mgr })
    else none
  | .visit name =>
    match w.pass with
    | some p => if p.running = false ∧ name ∉ p.visited then visit w p name else none
    | none => none
  | .returned =>
    match w.pass with
    | some p => if p.running then some { w with pass := some { p with running := false } } else none
    | none => none
  | .raised =>
    match w.pass with
    | some p => if p.running then some { w with pass := none } else none
    | none => none
  | .passEnds =>
    match w.pass with
    | some p =>
      if p.running = false ∧ p.todo = [] then
        some { w with mgr := startRunTimer (destroySchedulers p.deathIds w.mgr), pass := none, ended := w.ended + 1 }
      else none
    | none => none

/-! ### The timers -/

/-- Registered with `registerOnceNow` and the interval `100 * k`. -/
def OnceNow (k : Nat) (r : Record) : Prop := r.times = 1 ∧ r.delay = 0 ∧ r.intaval = 100 * k

/-- A timer that waits for the last of its `k` visits. -/
structure Waiting (k : Nat) (s : Scheduler) (r : Record) : Prop where
  delay : s.delay = 0
  times : s.times = 1
  ontimes : s.ontimes = 0
  left : s.curIntaval = 100 * (k - r.visits : Nat)
  visits : r.visits < k
  fired : r.fired = 0

/-- What is known of a timer and its record. -/
structure TimerInv (w : World) (name : Nat) (r : Record) : Prop where
  stopped : ∀ n, r.unregistered = some n → r.fired = n ∧ ∀ s, w.mgr.m_schedulers name = some s → s.alive = false
  waiting : ∀ k, 1 ≤ k → OnceNow k r → ∀ s, w.mgr.m_schedulers name = some s → s.alive = true → Waiting k s r ∧
    w.ended - r.since ≤ r.visits ∧ ∀ p, w.pass = some p → name ∈ p.todo ∨ w.ended + 1 - r.since ≤ r.visits
  done : ∀ k, 1 ≤ k → OnceNow k r → r.unregistered = none →
    (∀ s, w.mgr.m_schedulers name = some s → s.alive = false) → r.fired = 1 ∧ r.visits = k

structure Inv (w : World) : Prop where
  names : ∀ name, name ∈ w.mgr.names ↔ (w.mgr.m_schedulers name).isSome
  bound : ∀ name s, w.mgr.m_schedulers name = some s → name ≤ w.mgr.m_pCurTimerId
  recorded : ∀ name s, w.mgr.m_schedulers name = some s → (w.record name).isSome
  old : ∀ name r, w.record name = some r → name ≤ w.mgr.m_pCurTimerId
  busy : ∀ p, w.pass = some p → w.mgr.m_isRunTime = true ∧ w.mgr.toPending = false
  timer : ∀ name r, w.record name = some r → TimerInv w name r
  dying : ∀ p name, w.pass = some p → name ∈ p.deathIds → ∃ s, w.mgr.m_schedulers name = some s ∧ s.alive = false

theorem init_inv : Inv World.init where
  names := by simp [World.init, Manager.new]
  bound := by simp [World.init, Manager.new]
  recorded := by simp [World.init, Manager.new]
  old := by simp [World.init]
  busy := by simp [World.init]
  timer := by simp [World.init]
  dying := by simp [World.init]

section Steps

variable {w w' : World} {m : Manager} {name : Nat} {s : Scheduler}

theorem mem_names_put (h : ∀ n, n ∈ m.names ↔ (m.m_schedulers n).isSome) (n : Nat) :
    n ∈ (put m name s).names ↔ ((put m name s).m_schedulers n).isSome := by
  simp only [put]
  by_cases hn : n = name
  · subst hn
    rw [Function.update_self]
    split
    · rename_i hsome
      simp [h, hsome]
    · simp
  · rw [Function.update_of_ne hn]
    split
    · exact h n
    · simp [hn, h]

/-- The next number is free. -/
theorem Inv.fresh (inv : Inv w) : w.mgr.m_schedulers (w.mgr.m_pCurTimerId + 1) = none := by
  by_contra hne
  obtain ⟨s, hs⟩ := Option.ne_none_iff_exists'.mp hne
  exact Nat.not_succ_le_self _ (inv.bound _ s hs)

theorem Inv.gernerateUniqueId_eq (inv : Inv w) : gernerateUniqueId w.mgr = some (w.mgr.m_pCurTimerId + 1) := by
  rw [gernerateUniqueId, nextFree, inv.fresh]
  rfl

/-- What `register` does. -/
theorem Inv.register_eq (inv : Inv w) (intaval times delay : Int) :
    ∃ mgr, register intaval times delay w.mgr = some (w.mgr.m_pCurTimerId + 1, mgr) ∧
      mgr.m_schedulers = Function.update w.mgr.m_schedulers (w.mgr.m_pCurTimerId + 1) (some (updateSet intaval times delay)) ∧
      (∀ n, n ∈ mgr.names ↔ (mgr.m_schedulers n).isSome) ∧ mgr.m_pCurTimerId = w.mgr.m_pCurTimerId + 1 ∧
      mgr.m_isRunTime = true ∧ mgr.toPending = (!w.mgr.m_isRunTime || w.mgr.toPending) := by
  let name := w.mgr.m_pCurTimerId + 1
  let m := put { w.mgr with m_pCurTimerId := name } name (updateSet intaval times delay)
  have hnames : ∀ n, n ∈ m.names ↔ (m.m_schedulers n).isSome := mem_names_put inv.names
  have hat : m.m_schedulers name = some (updateSet intaval times delay) := Function.update_self ..
  have hneed : isNeedTimer m = true := by
    refine List.any_eq_true.mpr ⟨name, (hnames name).mpr (by rw [hat]; rfl), ?_⟩
    rw [hat]
    rfl
  have hreg : register intaval times delay w.mgr = some (name, if !m.m_isRunTime && isNeedTimer m then startRunTimer m else m) := by
    rw [register, inv.gernerateUniqueId_eq]
    rfl
  rw [hneed, Bool.and_true] at hreg
  refine ⟨_, hreg, ?_⟩
  have hrun : m.m_isRunTime = w.mgr.m_isRunTime := rfl
  have hto : m.toPending = w.mgr.toPending := rfl
  cases hr : w.mgr.m_isRunTime with
  | true =>
    rw [hrun, hr]
    exact ⟨rfl, hnames, rfl, hrun.trans hr, by rw [Bool.not_true, Bool.false_or]; exact hto⟩
  | false =>
    rw [hrun, hr]
    exact ⟨rfl, hnames, rfl, rfl, rfl⟩

/-- A step that leaves a timer and what the pass has to visit of it alone. -/
theorem TimerInv.congr {r : Record} (h : TimerInv w name r)
    (hs : w'.mgr.m_schedulers name = w.mgr.m_schedulers name) (he : w'.ended = w.ended)
    (hp : ∀ p', w'.pass = some p' → ∃ p, w.pass = some p ∧ (name ∈ p.todo → name ∈ p'.todo)) : TimerInv w' name r where
  stopped := by rw [hs]; exact h.stopped
  waiting k hk ho s hat halive := by
    rw [hs] at hat
    obtain ⟨hwait, hcount, htodo⟩ := h.waiting k hk ho s hat halive
    rw [he]
    refine ⟨hwait, hcount, fun p' hp' => ?_⟩
    obtain ⟨p, hpass, hmem⟩ := hp p' hp'
    exact (htodo p hpass).imp_left hmem
  done := by rw [hs]; exact h.done

/-- A new timer. -/
theorem timerInv_new {intaval times delay : Int}
    (hs : w.mgr.m_schedulers name = some (updateSet intaval times delay)) :
    TimerInv w name ⟨intaval, times, delay, w.ended + (if w.pass.isSome then 1 else 0), 0, 0, none⟩ where
  stopped n h := by cases h
  waiting k hk ho s hat _ := by
    rw [hs] at hat
    cases hat
    obtain ⟨htimes, hdelay, hintaval⟩ := ho
    simp only at htimes hdelay hintaval
    refine ⟨⟨hdelay, htimes, rfl, hintaval, hk, rfl⟩, by simp, fun p hp => .inr ?_⟩
    simp [hp]
  done k _ _ _ hdead := by cases hdead _ hs

theorem Inv.register (inv : Inv w) {intaval times delay : Int}
    (h : step w (.register intaval times delay) = some w') : Inv w' := by
  simp only [step] at h
  split at h
  · obtain ⟨mgr, hreg, hmgr, hnames, hid, hrun, hto⟩ := inv.register_eq intaval times delay
    rw [hreg] at h
    rw [← Option.some.inj h]
    refine ⟨hnames, fun n s hs => ?_, fun n s hs => ?_, fun n r hr => ?_, fun p hp => ?_, fun n r hr => ?_,
      fun p n hp hn => ?_⟩
    · simp only [hmgr] at hs
      simp only [hid]
      by_cases hn : n = w.mgr.m_pCurTimerId + 1
      · exact Nat.le_of_eq hn
      · rw [Function.update_of_ne hn] at hs
        exact Nat.le_succ_of_le (inv.bound n s hs)
    · simp only [hmgr] at hs
      by_cases hn : n = w.mgr.m_pCurTimerId + 1
      · simp only [hn, Function.update_self, Option.isSome_some]
      · rw [Function.update_of_ne hn] at hs
        simp only [Function.update_of_ne hn]
        exact inv.recorded n s hs
    · simp only [hid]
      by_cases hn : n = w.mgr.m_pCurTimerId + 1
      · exact Nat.le_of_eq hn
      · simp only [Function.update_of_ne hn] at hr
        exact Nat.le_succ_of_le (inv.old n r hr)
    · obtain ⟨hr, ht⟩ := inv.busy p hp
      exact ⟨hrun, by simp only [hto, hr, ht]; rfl⟩
    · by_cases hn : n = w.mgr.m_pCurTimerId + 1
      · subst hn
        simp only [Function.update_self, Option.some.injEq] at hr
        rw [← hr]
        exact timerInv_new (by simp only [hmgr, Function.update_self])
      · simp only [Function.update_of_ne hn] at hr
        exact (inv.timer n r hr).congr (by simp only [hmgr, Function.update_of_ne hn]) rfl fun p' hp' => ⟨p', hp', id⟩
    · obtain ⟨s, hs, hdead⟩ := inv.dying p n hp hn
      have hne : n ≠ w.mgr.m_pCurTimerId + 1 := Nat.ne_of_lt (Nat.lt_succ_of_le (inv.bound n s hs))
      exact ⟨s, by simp only [hmgr, Function.update_of_ne hne]; exact hs, hdead⟩
  · rw [← Option.some.inj h]
    exact inv

theorem Inv.unregister (inv : Inv w) (name : Nat) : Inv
    { w with mgr := unregister name w.mgr, record := Function.update w.record name ((w.record name).map fun r =>
      { r with unregistered := r.unregistered.or (some r.fired) }) } := by
  have hat : ∀ n s, (SchedulerMgr.unregister name w.mgr).m_schedulers n = some s →
      ∃ s₀, w.mgr.m_schedulers n = some s₀ ∧ ((n = name ∧ s = death s₀) ∨ (n ≠ name ∧ s = s₀)) := by
    intro n s hs
    simp only [SchedulerMgr.unregister] at hs
    cases hname : w.mgr.m_schedulers name with
    | none =>
      simp only [hname] at hs
      have hne : n ≠ name := by rintro rfl; rw [hname] at hs; cases hs
      exact ⟨s, hs, .inr ⟨hne, rfl⟩⟩
    | some s₀ =>
      simp only [hname, put] at hs
      by_cases hn : n = name
      · subst hn
        rw [Function.update_self] at hs
        exact ⟨s₀, hname, .inl ⟨rfl, (Option.some.inj hs).symm⟩⟩
      · rw [Function.update_of_ne hn] at hs
        exact ⟨s, hs, .inr ⟨hn, rfl⟩⟩
  have hsame : ∀ n, n ≠ name → (SchedulerMgr.unregister name w.mgr).m_schedulers n = w.mgr.m_schedulers n := by
    intro n hn
    simp only [SchedulerMgr.unregister]
    split
    · exact Function.update_of_ne hn ..
    · rfl
  have hnames : ∀ n, n ∈ (SchedulerMgr.unregister name w.mgr).names ↔
      ((SchedulerMgr.unregister name w.mgr).m_schedulers n).isSome := by
    simp only [SchedulerMgr.unregister]
    split
    · exact mem_names_put inv.names
    · exact inv.names
  have hrest : (SchedulerMgr.unregister name w.mgr).m_pCurTimerId = w.mgr.m_pCurTimerId ∧
      (SchedulerMgr.unregister name w.mgr).m_isRunTime = w.mgr.m_isRunTime ∧
      (SchedulerMgr.unregister name w.mgr).toPending = w.mgr.toPending := by
    simp only [SchedulerMgr.unregister]
    split <;> exact ⟨rfl, rfl, rfl⟩
  obtain ⟨hid, hrun, hto⟩ := hrest
  refine ⟨hnames, fun n s hs => ?_, fun n s hs => ?_, fun n r hr => ?_, fun p hp => ?_, fun n r hr => ?_,
    fun p n hp hn => ?_⟩
  · obtain ⟨s₀, hs₀, _⟩ := hat n s hs
    simp only [hid]
    exact inv.bound n s₀ hs₀
  · obtain ⟨s₀, hs₀, _⟩ := hat n s hs
    have hsome := inv.recorded n s₀ hs₀
    simp only [Function.update_apply]
    split
    · subst n
      rwa [Option.isSome_map]
    · exact hsome
  · simp only [hid]
    simp only [Function.update_apply] at hr
    split at hr
    · subst n
      obtain ⟨r₀, hr₀, _⟩ := Option.map_eq_some_iff.mp hr
      exact inv.old name r₀ hr₀
    · exact inv.old n r hr
  · simp only [hrun, hto]
    exact inv.busy p hp
  · by_cases hn : n = name
    · subst hn
      simp only [Function.update_self] at hr
      obtain ⟨r₀, hr₀, rfl⟩ := Option.map_eq_some_iff.mp hr
      have htimer := inv.timer n r₀ hr₀
      have hdead : ∀ s, (SchedulerMgr.unregister n w.mgr).m_schedulers n = some s → s.alive = false := by
        intro s hs
        obtain ⟨s₀, _, ⟨_, rfl⟩ | ⟨hne, _⟩⟩ := hat n s hs
        · rfl
        · exact absurd rfl hne
      refine ⟨fun k hk => ⟨?_, hdead⟩, fun k _ _ s hs halive => ?_, fun k _ _ hun => ?_⟩
      · cases hu : r₀.unregistered with
        | none =>
          rw [hu] at hk
          exact Option.some.inj hk
        | some k' =>
          rw [hu] at hk
          rw [← Option.some.inj hk]
          exact (htimer.stopped k' hu).1
      · rw [hdead s hs] at halive
        cases halive
      · simp only at hun
        cases hu : r₀.unregistered <;> simp [hu] at hun
    · simp only [Function.update_of_ne hn] at hr
      exact (inv.timer n r hr).congr (hsame n hn) rfl fun p' hp' => ⟨p', hp', id⟩
  · obtain ⟨s, hs, hdead⟩ := inv.dying p n hp hn
    by_cases hne : n = name
    · subst hne
      refine ⟨death s, ?_, rfl⟩
      simp only [SchedulerMgr.unregister, hs, put, Function.update_self]
    · exact ⟨s, by simp only [hsame n hne]; exact hs, hdead⟩

theorem Inv.tick (inv : Inv w) (h : step w .tick = some w') : Inv w' := by
  simp only [step] at h
  split at h
  · rename_i hto
    have hidle : ∀ p, w.pass ≠ some p := by
      intro p hp
      rw [(inv.busy p hp).2] at hto
      cases hto
    rw [← Option.some.inj h]
    split
    · rename_i hrun
      refine ⟨inv.names, inv.bound, inv.recorded, inv.old, fun p _ => ⟨hrun, rfl⟩, fun n r hr => ?_, fun p n hp hn => ?_⟩
      · obtain ⟨hstopped, hwaiting, hdone⟩ := inv.timer n r hr
        refine ⟨hstopped, fun k hk ho s hs halive => ?_, hdone⟩
        obtain ⟨hwait, hcount, _⟩ := hwaiting k hk ho s hs halive
        refine ⟨hwait, hcount, fun p hp => .inl ?_⟩
        rw [← Option.some.inj hp]
        exact (inv.names n).mpr (by rw [show w.mgr.m_schedulers n = _ from hs]; rfl)
      · rw [← Option.some.inj hp] at hn
        cases hn
    · exact ⟨inv.names, inv.bound, inv.recorded, inv.old, fun p hp => absurd hp (hidle p),
        fun n r hr => (inv.timer n r hr).congr rfl rfl fun p' hp' => ⟨p', hp', id⟩,
        fun p n hp _ => absurd hp (hidle p)⟩
  · cases h

/-- A visit of a timer that waits: it fires when this was the last visit, and is dead then. -/
theorem Waiting.visit {k : Nat} {r : Record} (h : Waiting k s r) (halive : s.alive = true) :
    (r.visits + 1 < k ∧ (updateTime m_curTimeUnit s).2 = false ∧ (updateTime m_curTimeUnit s).1.alive = true ∧
      Waiting k (updateTime m_curTimeUnit s).1 { r with visits := r.visits + 1 }) ∨
    (r.visits + 1 = k ∧ (updateTime m_curTimeUnit s).2 = true ∧ (updateTime m_curTimeUnit s).1.alive = false) := by
  obtain ⟨hdelay, htimes, hontimes, hleft, hvisits, hfired⟩ := h
  have hnot : ¬0 < s.delay := by rw [hdelay]; exact Int.lt_irrefl 0
  have hupdate : updateTime m_curTimeUnit s =
      if s.curIntaval - 100 ≤ 0 then onTriggle { s with curIntaval := s.curIntaval - 100 }
      else ({ s with curIntaval := s.curIntaval - 100 }, false) := by
    simp only [updateTime, halive, Bool.not_true, Bool.false_eq_true, if_false, if_neg hnot]
    rfl
  rcases Nat.lt_or_ge (r.visits + 1) k with hlt | hge
  · have hmore : ¬s.curIntaval - 100 ≤ 0 := by rw [hleft]; omega
    rw [hupdate, if_neg hmore]
    refine .inl ⟨hlt, rfl, halive, ⟨hdelay, htimes, hontimes, ?_, hlt, hfired⟩⟩
    simp only [hleft]
    omega
  · have hlast : s.curIntaval - 100 ≤ 0 := by rw [hleft]; omega
    have hend : s.times ≠ -1 ∧ s.times ≤ s.ontimes + 1 := by rw [htimes, hontimes]; decide
    rw [hupdate, if_pos hlast]
    refine .inr ⟨by omega, ?_⟩
    simp only [onTriggle, halive, if_true, if_pos hend, death]
    exact ⟨trivial, trivial⟩

theorem Inv.visit (inv : Inv w) {p : Pass} (hp : w.pass = some p) (h : visit w p name = some w') : Inv w' := by
  simp only [SchedulerMgr.visit] at h
  split at h
  · cases h
  · rename_i s hs
    split at h
    · rename_i halive
      rw [← Option.some.inj h]
      generalize hu : updateTime m_curTimeUnit s = u at *
      obtain ⟨s', fires⟩ := u
      simp only
      have hother : ∀ n, n ≠ name → (put w.mgr name s').m_schedulers n = w.mgr.m_schedulers n :=
        fun n hn => Function.update_of_ne hn ..
      have hself : (put w.mgr name s').m_schedulers name = some s' := Function.update_self ..
      refine ⟨mem_names_put inv.names, fun n t ht => ?_, fun n t ht => ?_, fun n r hr => ?_, fun q _ => inv.busy p hp,
        fun n r hr => ?_, fun q n hq hn => ?_⟩
      · by_cases hn : n = name
        · rw [hn]
          exact inv.bound name s hs
        · exact inv.bound n t ((hother n hn) ▸ ht)
      · simp only [Function.update_apply]
        split
        · rw [Option.isSome_map]
          exact inv.recorded name s hs
        · rename_i hn
          exact inv.recorded n t ((hother n hn) ▸ ht)
      · simp only [Function.update_apply] at hr
        split at hr
        · subst n
          exact inv.bound name s hs
        · exact inv.old n r hr
      · by_cases hn : n = name
        · subst hn
          simp only [Function.update_self] at hr
          obtain ⟨r₀, hr₀, rfl⟩ := Option.map_eq_some_iff.mp hr
          have htimer := inv.timer n r₀ hr₀
          have hun : r₀.unregistered = none := by
            cases hu' : r₀.unregistered with
            | none => rfl
            | some k =>
              have := (htimer.stopped k hu').2 s hs
              rw [halive] at this
              cases this
          refine ⟨fun k hk => ?_, fun k hk ho t ht hlive => ?_, fun k hk ho _ hdead => ?_⟩
          · simp only [hun] at hk
            cases hk
          · simp only [hself, Option.some.injEq] at ht
            subst ht
            obtain ⟨hwait, hcount, htodo⟩ := htimer.waiting k hk ho s hs halive
            have hvisit := hwait.visit halive
            rw [hu] at hvisit
            rcases hvisit with ⟨_, hfires, _, hw⟩ | ⟨_, _, hdead⟩
            · simp only at hfires
              subst hfires
              refine ⟨hw, by simp only; omega, fun q hq => .inr ?_⟩
              simp only
              omega
            · rw [hdead] at hlive
              cases hlive
          · obtain ⟨hwait, _, _⟩ := htimer.waiting k hk ho s hs halive
            have hvisit := hwait.visit halive
            rw [hu] at hvisit
            rcases hvisit with ⟨_, _, hlive, _⟩ | ⟨hlast, hfires, _⟩
            · rw [hdead s' hself] at hlive
              cases hlive
            · simp only at hfires
              simp only [hfires, if_true, hwait.fired]
              exact ⟨trivial, hlast⟩
        · simp only [Function.update_of_ne hn] at hr
          refine (inv.timer n r hr).congr (hother n hn) rfl fun q hq => ⟨p, hp, fun hmem => ?_⟩
          rw [← Option.some.inj hq]
          exact List.mem_filter.mpr ⟨hmem, decide_eq_true hn⟩
      · rw [← Option.some.inj hq] at hn
        obtain ⟨t, ht, hdead⟩ := inv.dying p n hp hn
        have hne : n ≠ name := by
          rintro rfl
          rw [hs, Option.some.injEq] at ht
          rw [← ht, halive] at hdead
          cases hdead
        exact ⟨t, by simp only [hother n hne]; exact ht, hdead⟩
    · rename_i hdead
      rw [← Option.some.inj h]
      refine ⟨inv.names, inv.bound, inv.recorded, inv.old, fun q _ => inv.busy p hp, fun n r hr => ?_, fun q n hq hn => ?_⟩
      · have htimer := inv.timer n r hr
        refine ⟨htimer.stopped, fun k hk ho t ht hlive => ?_, htimer.done⟩
        obtain ⟨hwait, hcount, htodo⟩ := htimer.waiting k hk ho t ht hlive
        refine ⟨hwait, hcount, fun q hq => ?_⟩
        have hne : n ≠ name := by
          rintro rfl
          rw [show w.mgr.m_schedulers n = some t from ht, Option.some.injEq] at hs
          rw [hs] at hlive
          exact hdead hlive
        rw [← Option.some.inj hq]
        exact (htodo p hp).imp_left fun hmem => List.mem_filter.mpr ⟨hmem, decide_eq_true hne⟩
      · rw [← Option.some.inj hq] at hn
        rcases List.mem_append.mp hn with hn | hn
        · exact inv.dying p n hp hn
        · rw [List.mem_singleton.mp hn]
          exact ⟨s, hs, by simpa using hdead⟩

theorem Inv.passEnds (inv : Inv w) {p : Pass} (hp : w.pass = some p) (htodo : p.todo = []) : Inv
    { w with mgr := startRunTimer (destroySchedulers p.deathIds w.mgr), pass := none, ended := w.ended + 1 } := by
  have hat : ∀ n s, (destroySchedulers p.deathIds w.mgr).m_schedulers n = some s → w.mgr.m_schedulers n = some s := by
    intro n s hs
    simp only [destroySchedulers] at hs
    split at hs
    · cases hs
    · exact hs
  refine ⟨fun n => ?_, fun n s hs => inv.bound n s (hat n s hs), fun n s hs => inv.recorded n s (hat n s hs), inv.old,
    fun q hq => (by cases hq), fun n r hr => ?_, fun q n hq => (by cases hq)⟩
  · simp only [startRunTimer, destroySchedulers, List.mem_filter, inv.names]
    by_cases hn : n ∈ p.deathIds <;> simp [hn]
  · have htimer := inv.timer n r hr
    refine ⟨fun k hk => ⟨(htimer.stopped k hk).1, fun s hs => (htimer.stopped k hk).2 s (hat n s hs)⟩,
      fun k hk ho s hs hlive => ?_, fun k hk ho hun hdead => htimer.done k hk ho hun fun s hs => ?_⟩
    · obtain ⟨hwait, _, hcount⟩ := htimer.waiting k hk ho s (hat n s hs) hlive
      refine ⟨hwait, ?_, fun q hq => (by cases hq)⟩
      rcases hcount p hp with hmem | hle
      · rw [htodo] at hmem
        cases hmem
      · exact hle
    · by_cases hn : n ∈ p.deathIds
      · obtain ⟨s', hs', hd⟩ := inv.dying p n hp hn
        rw [hs', Option.some.injEq] at hs
        rwa [← hs]
      · exact hdead s (by simp only [startRunTimer, destroySchedulers, if_neg hn]; exact hs)

theorem step_inv (w : World) (a : Label) (w' : World) (inv : Inv w) (h : step w a = some w') : Inv w' := by
  cases a with
  | register intaval times delay => exact inv.register h
  | unregister name =>
    rw [← Option.some.inj h]
    exact inv.unregister name
  | tick => exact inv.tick h
  | visit name =>
    simp only [step] at h
    split at h
    · rename_i p hp
      split at h
      · exact inv.visit hp h
      · cases h
    · cases h
  | returned =>
    simp only [step] at h
    split at h
    · rename_i p hp
      split at h
      · rw [← Option.some.inj h]
        exact ⟨inv.names, inv.bound, inv.recorded, inv.old, fun _ _ => inv.busy p hp,
          fun n r hr => (inv.timer n r hr).congr rfl rfl fun q hq => ⟨p, hp, by rw [← Option.some.inj hq]; exact id⟩,
          fun q n hq hn => inv.dying p n hp (by rw [← Option.some.inj hq] at hn; exact hn)⟩
      · cases h
    · cases h
  | raised =>
    simp only [step] at h
    split at h
    · rename_i p hp
      split at h
      · rw [← Option.some.inj h]
        exact ⟨inv.names, inv.bound, inv.recorded, inv.old, fun q hq => (by cases hq),
          fun n r hr => (inv.timer n r hr).congr rfl rfl fun q hq => (by cases hq), fun q n hq => (by cases hq)⟩
      · cases h
    · cases h
  | passEnds =>
    simp only [step] at h
    split at h
    · rename_i p hp
      split at h
      · rename_i hend
        rw [← Option.some.inj h]
        exact inv.passEnds hp hend.2
      · cases h
    · cases h

end Steps

/-! ### Every run -/

/-- `m_isRunTime` says that the timer is on: then a timeout is pending, or a pass is under way. -/
def Ticking (w : World) : Prop := w.mgr.m_isRunTime = true → w.mgr.toPending = true ∨ w.pass.isSome = true

/-- No timeout comes any more, and `register` does not ask for one. -/
def Stopped (w : World) : Prop := w.mgr.m_isRunTime = true ∧ w.mgr.toPending = false ∧ w.pass = none

/-- What the timers did: none fired after it was unregistered; one that was registered with `registerOnceNow` and
`100 * k`, and not unregistered, fired once if it had its `k` visits and not if it had fewer, and it had them
when `k` passes came to their end after it was registered. -/
def Fires (w : World) : Prop := ∀ name r, w.record name = some r →
  (∀ n, r.unregistered = some n → r.fired = n) ∧
  ∀ k, 1 ≤ k → OnceNow k r → r.unregistered = none →
    r.visits ≤ k ∧ r.fired = (if r.visits = k then 1 else 0) ∧ (k ≤ w.ended - r.since → r.fired = 1)

theorem Inv.fires {w : World} (inv : Inv w) : Fires w := by
  intro name r hr
  obtain ⟨hstopped, hwaiting, hdone⟩ := inv.timer name r hr
  refine ⟨fun n hn => (hstopped n hn).1, fun k hk ho hun => ?_⟩
  by_cases hlive : ∃ s, w.mgr.m_schedulers name = some s ∧ s.alive = true
  · obtain ⟨s, hs, halive⟩ := hlive
    obtain ⟨hwait, hcount, _⟩ := hwaiting k hk ho s hs halive
    have hlt := hwait.visits
    refine ⟨Nat.le_of_lt hlt, by rw [hwait.fired, if_neg (Nat.ne_of_lt hlt)], fun hle => ?_⟩
    omega
  · have hdead : ∀ s, w.mgr.m_schedulers name = some s → s.alive = false :=
      fun s hs => Bool.eq_false_iff.mpr fun halive => hlive ⟨s, hs, halive⟩
    obtain ⟨hfired, hvisits⟩ := hdone k hk ho hun hdead
    exact ⟨Nat.le_of_eq hvisits, by rw [hfired, if_pos hvisits], fun _ => hfired⟩

section Clock

variable {w w' : World}

theorem stopped_step (inv : Inv w) (a : Label) (hstop : Stopped w) (h : step w a = some w') : Stopped w' := by
  obtain ⟨hrun, hto, hpass⟩ := hstop
  cases a with
  | register intaval times delay =>
    simp only [step] at h
    split at h
    · obtain ⟨mgr, hreg, _, _, _, hrun', hto'⟩ := inv.register_eq intaval times delay
      rw [hreg] at h
      rw [← Option.some.inj h]
      exact ⟨hrun', by simp only [hto', hrun, hto]; rfl, hpass⟩
    · rw [← Option.some.inj h]
      exact ⟨hrun, hto, hpass⟩
  | unregister name =>
    rw [← Option.some.inj h]
    refine ⟨?_, ?_, hpass⟩
    · simp only [unregister]
      split <;> exact hrun
    · simp only [unregister]
      split <;> exact hto
  | tick =>
    simp only [step, hto] at h
    cases h
  | visit name => simp only [step, hpass] at h; cases h
  | returned => simp only [step, hpass] at h; cases h
  | raised => simp only [step, hpass] at h; cases h
  | passEnds => simp only [step, hpass] at h; cases h

/-- The error of a callback ends the pass before it asks for the next timeout. -/
theorem stopped_of_raised (inv : Inv w) (h : step w .raised = some w') : Stopped w' := by
  simp only [step] at h
  split at h
  · rename_i p hp
    obtain ⟨hrun, hto⟩ := inv.busy p hp
    split at h
    · rw [← Option.some.inj h]
      exact ⟨hrun, hto, rfl⟩
    · cases h
  · cases h

/-- Every other step keeps the clock going. -/
theorem ticking_step (inv : Inv w) (a : Label) (ha : a ≠ .raised) (htick : Ticking w) (h : step w a = some w') :
    Ticking w' := by
  cases a with
  | register intaval times delay =>
    simp only [step] at h
    split at h
    · obtain ⟨mgr, hreg, _, _, _, _, hto⟩ := inv.register_eq intaval times delay
      rw [hreg] at h
      rw [← Option.some.inj h]
      intro _
      simp only [hto]
      cases hrun : w.mgr.m_isRunTime with
      | true => exact htick hrun
      | false => exact .inl rfl
    · rw [← Option.some.inj h]
      exact htick
  | unregister name =>
    rw [← Option.some.inj h]
    intro hrun
    simp only [unregister] at hrun ⊢
    split at hrun <;> exact htick hrun
  | tick =>
    simp only [step] at h
    split at h
    · rw [← Option.some.inj h]
      split
      · intro _
        exact .inr rfl
      · rename_i hrun
        intro hrun'
        exact absurd hrun' hrun
    · cases h
  | visit name =>
    simp only [step] at h
    split at h
    · split at h
      · simp only [visit] at h
        split at h
        · cases h
        · split at h
          · rw [← Option.some.inj h]
            intro _
            exact .inr rfl
          · rw [← Option.some.inj h]
            intro _
            exact .inr rfl
      · cases h
    · cases h
  | returned =>
    simp only [step] at h
    split at h
    · split at h
      · rw [← Option.some.inj h]
        intro _
        exact .inr rfl
      · cases h
    · cases h
  | raised => exact absurd rfl ha
  | passEnds =>
    simp only [step] at h
    split at h
    · split at h
      · rw [← Option.some.inj h]
        intro _
        exact .inl rfl
      · cases h
    · cases h

end Clock

/-- **The timers of a service.** In every run, timers fire as they were registered and not after they were
unregistered; and the clock that makes them fire goes on if and only if no callback raised an error. -/
theorem timers_iff (as : List Label) (w : World) (h : Lts.run step World.init as = some w) :
    Fires w ∧ (Ticking w ↔ .raised ∉ as) := by
  have inv : Inv w := Lts.run_invariant step_inv h init_inv
  refine ⟨inv.fires, fun htick hmem => ?_, fun hnot => ?_⟩
  · obtain ⟨before, after, rfl⟩ := List.append_of_mem hmem
    obtain ⟨u, hu, hrest⟩ := Lts.run_append.mp h
    obtain ⟨v, hv, hafter⟩ := Lts.run_cons.mp hrest
    have invu : Inv u := Lts.run_invariant step_inv hu init_inv
    have hstop : Inv w ∧ Stopped w := by
      refine Lts.run_invariant (P := fun w => Inv w ∧ Stopped w) (fun x a y ⟨hi, hs⟩ hstep => ?_) hafter
        ⟨step_inv u _ v invu hv, stopped_of_raised invu hv⟩
      exact ⟨step_inv x a y hi hstep, stopped_step hi a hs hstep⟩
    obtain ⟨hrun, hto, hpass⟩ := hstop.2
    rcases htick hrun with hp | hp
    · rw [hto] at hp
      cases hp
    · rw [hpass] at hp
      cases hp
  · have hnone : ∀ a ∈ as, ∀ _ : World, a ≠ Label.raised := by
      intro a ha _ heq
      rw [heq] at ha
      exact hnot ha
    have hguard : Lts.Guarded step (fun _ a => a ≠ .raised) World.init as := Lts.guarded_of_forall hnone _
    have hboth : Inv w ∧ Ticking w := by
      refine Lts.run_invariant_of_guarded (P := fun w => Inv w ∧ Ticking w) (fun x a y ⟨hi, ht⟩ ha hstep => ?_) h hguard
        ⟨init_inv, fun hrun => by cases hrun⟩
      exact ⟨step_inv x a y hi hstep, ticking_step hi a ha ht hstep⟩
    exact hboth.2

/-- A timer of two passes that a callback of a timer of one pass does not see, and one that this callback adds. -/
def twoTimers : List Label :=
  [.register 100 1 0, .register 200 1 0, .tick, .visit 2, .visit 1, .register 100 1 0, .returned, .passEnds, .tick, .visit 1,
    .visit 3, .returned, .visit 2, .returned, .passEnds]

theorem timers_iff_twoTimers : ∃ w, Lts.run step World.init twoTimers = some w ∧ Fires w ∧ Ticking w := by
  obtain ⟨w, hw, _, _⟩ := Lts.of_check (g := fun _ _ => true) (G := fun _ _ => True) (p := fun _ => true) (fun _ _ _ => trivial)
    (show Lts.check step (fun _ _ => true) (fun _ => true) World.init twoTimers = true by decide +kernel)
  obtain ⟨hfires, htick⟩ := timers_iff twoTimers w hw
  exact ⟨w, hw, hfires, htick.mpr (by decide)⟩

/-- The error of the first timer stops the second one. -/
theorem error_stops_clock :
    ¬ ∀ (as : List Label) (w : World), Lts.run step World.init as = some w → Fires w ∧ Ticking w := by
  intro hclaim
  let as : List Label := [.register 100 1 0, .register 200 1 0, .tick, .visit 1, .raised]
  obtain ⟨w, hw, _, _⟩ := Lts.of_check (g := fun _ _ => true) (G := fun _ _ => True) (p := fun _ => true) (fun _ _ _ => trivial)
    (show Lts.check step (fun _ _ => true) (fun _ => true) World.init as = true by decide +kernel)
  exact (timers_iff as w hw).2.mp (hclaim as w hw).2 (by decide)

end SchedulerMgr
end Skynet
