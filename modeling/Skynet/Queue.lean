import Mathlib.Data.List.Nodup
import Skynet.Lib.Run
import Skynet.Scheduler

/-!
# Skynet.Queue

The critical section of `skynet.queue`: the closure that it returns, called by any coroutines of a
service.

* A body may yield anywhere; between two yields only one coroutine runs. So a step is what the closure
  does at a call up to the body or the yield of `skynet.wait`, what it does from the end of a body on,
  or what it does after `dispatch_wakeup`, and any coroutine that does not wait can take the next step.
* Only `xpcall_ret` marks a coroutine that waits on the queue.
* `Held` : the queue is free, held by a thread, or passed on to one that has not run yet.
* `queue_correct` : bodies of two threads never overlap, waiting calls start in the order of their
  arrival, and the queue goes on after an error as after a return.
-/

namespace Skynet
namespace Queue

/-- The upvalues of the closure and the sleeping coroutines, and beside them: how many bodies each thread
is in, whether `assert(ref == 0)` has failed, and the threads that had to wait and those of them that
went on, in their order. -/
structure State where
  currentThread : Option Nat
  ref : Int
  threadQueue : List Nat
  sched : Scheduler
  bodies : Nat → Nat
  failed : Bool
  arrived : List Nat
  resumed : List Nat

def init : State where
  currentThread := none
  ref := 0
  threadQueue := []
  sched := .init
  bodies := fun _ => 0
  failed := false
  arrived := []
  resumed := []

/-- The thread gets the queue, and its body starts. -/
def enter (t : Nat) (s : State) : State :=
  { s with
    currentThread := some t
    ref := s.ref + 1
    bodies := Function.update s.bodies t (s.bodies t + 1) }

/-- The closure, up to the body or the yield. -/
def call (t : Nat) (s : State) : State :=
  if s.currentThread ≠ none ∧ s.currentThread ≠ some t then
    { s with
      threadQueue := s.threadQueue ++ [t]
      sched := s.sched.wait t
      arrived := s.arrived ++ [t] }
  else enter t s

/-- The closure behind `skynet.wait`. -/
def resume (t : Nat) (s : State) : State :=
  if s.ref ≠ 0 then { s with failed := true } else enter t { s with resumed := s.resumed ++ [t] }

/-- `xpcall_ret`; the error of a body is raised again behind it. -/
def xpcallRet (t : Nat) (s : State) : State :=
  let s := { s with ref := s.ref - 1, bodies := Function.update s.bodies t (s.bodies t - 1) }
  if s.ref = 0 then
    match s.threadQueue with
    | [] => { s with currentThread := none }
    | n :: q => { s with currentThread := some n, threadQueue := q, sched := s.sched.wakeup n }
  else s

inductive Label where
  | call (t : Nat)
  | ret (t : Nat) (ok : Bool)
  | wakeup (t : Nat)
deriving Repr, DecidableEq

/-- A thread that waits makes no calls and ends no body. -/
def step (s : State) : Label → Option State
  | .call t => if s.sched.sleepSession t then none else some (call t s)
  | .ret t _ => if s.sched.sleepSession t ∨ s.bodies t = 0 then none else some (xpcallRet t s)
  | .wakeup t =>
    match s.sched.dispatchWakeup t with
    | none => none
    | some (resumed, sched) => if resumed then some (resume t { s with sched := sched }) else some { s with sched := sched }

/-! ### The invariant -/

/-- `w` are the threads that wait, in the order of their arrival. -/
structure Waits (s : State) (w : List Nat) : Prop where
  nodup : w.Nodup
  sleep : ∀ t, s.sched.sleepSession t = true ↔ t ∈ w
  order : s.arrived = s.resumed ++ w
  failed : s.failed = false

/-- Who has the queue. -/
inductive Held (s : State) : Prop
  | free (hcur : s.currentThread = none) (hqueue : s.threadQueue = []) (hw : Waits s []) (href : s.ref = 0)
      (hbodies : ∀ t, s.bodies t = 0) (hmark : ∀ t, s.sched.wakeupSession t = false)
  | held (t : Nat) (hcur : s.currentThread = some t) (hw : Waits s s.threadQueue) (ht : t ∉ s.threadQueue)
      (href : s.ref = s.bodies t) (hpos : 0 < s.bodies t) (hbodies : ∀ t', t' ≠ t → s.bodies t' = 0)
      (hmark : ∀ t, s.sched.wakeupSession t = false)
  | passed (t : Nat) (hcur : s.currentThread = some t) (hw : Waits s (t :: s.threadQueue)) (href : s.ref = 0)
      (hbodies : ∀ t, s.bodies t = 0) (hmark : ∀ t', s.sched.wakeupSession t' = true ↔ t' = t)

theorem held_init : Held init :=
  .free rfl rfl ⟨List.nodup_nil, fun _ => by simp [init, Scheduler.init], rfl, rfl⟩ rfl (fun _ => rfl) fun _ => rfl

theorem enter_bodies (t t' : Nat) (s : State) :
    (enter t s).bodies t' = if t' = t then s.bodies t + 1 else s.bodies t' := Function.update_apply ..

section Step

variable {s s' : State} {t : Nat}

/-- A free queue is taken. -/
theorem held_enter (hw : Waits s s.threadQueue) (ht : t ∉ s.threadQueue) (href : s.ref = 0) (hbodies : ∀ t, s.bodies t = 0)
    (hmark : ∀ t, s.sched.wakeupSession t = false) : Held (enter t s) := by
  refine .held t rfl ⟨hw.nodup, hw.sleep, hw.order, hw.failed⟩ ht ?_ ?_ ?_ hmark
  · show s.ref + 1 = _
    rw [enter_bodies, if_pos rfl, href, hbodies]; rfl
  · rw [enter_bodies, if_pos rfl]; exact Nat.succ_pos _
  · intro t' hne
    rw [enter_bodies, if_neg hne, hbodies]

/-- A call that has to wait comes last. -/
theorem Waits.call {w : List Nat} (hw : Waits s w) (hsleep : s.sched.sleepSession t = false) :
    Waits { s with threadQueue := s.threadQueue ++ [t], sched := s.sched.wait t, arrived := s.arrived ++ [t] } (w ++ [t]) where
  nodup := by
    rw [List.nodup_append_comm, List.singleton_append, List.nodup_cons]
    refine ⟨fun hmem => ?_, hw.nodup⟩
    rw [(hw.sleep t).mpr hmem] at hsleep
    cases hsleep
  sleep := by
    intro t'
    rw [Scheduler.wait_sleepSession, List.mem_append, List.mem_singleton]
    split
    · rename_i he; exact ⟨fun _ => .inr he, fun _ => rfl⟩
    · rename_i hne
      rw [hw.sleep]
      exact ⟨.inl, fun h => h.resolve_right hne⟩
  order := by rw [hw.order, List.append_assoc]
  failed := hw.failed

theorem held_call (h : Held s) (hsleep : s.sched.sleepSession t = false) : Held (call t s) := by
  cases h with
  | free hcur hqueue hw href hbodies hmark =>
    rw [call, if_neg (fun h => h.1 hcur)]
    exact held_enter (hqueue ▸ hw) (by rw [hqueue]; exact List.not_mem_nil) href hbodies hmark
  | held c hcur hw hc href hpos hbodies hmark =>
    by_cases he : c = t
    · subst he
      rw [call, if_neg (fun h => h.2 hcur)]
      refine .held c rfl ⟨hw.nodup, hw.sleep, hw.order, hw.failed⟩ hc ?_ ?_ ?_ hmark
      · show s.ref + 1 = _
        rw [enter_bodies, if_pos rfl, href]; rfl
      · rw [enter_bodies, if_pos rfl]; exact Nat.succ_pos _
      · intro t' hne
        rw [enter_bodies, if_neg hne, hbodies t' hne]
    · have hwait : s.currentThread ≠ none ∧ s.currentThread ≠ some t := by simp [hcur, he]
      rw [call, if_pos hwait]
      refine .held c hcur (hw.call hsleep) ?_ href hpos hbodies hmark
      rw [List.mem_append, List.mem_singleton]
      exact fun h => h.elim hc he
  | passed c hcur hw href hbodies hmark =>
    have he : c ≠ t := by
      rintro rfl
      rw [(hw.sleep c).mpr (List.mem_cons_self ..)] at hsleep
      cases hsleep
    have hwait : s.currentThread ≠ none ∧ s.currentThread ≠ some t := by simp [hcur, he]
    rw [call, if_pos hwait]
    exact .passed c hcur (hw.call hsleep) href hbodies hmark

/-- Only the thread that holds the queue is in a body. -/
theorem Held.holder (h : Held s) (hpos : 0 < s.bodies t) : s.currentThread = some t ∧ Waits s s.threadQueue ∧
    t ∉ s.threadQueue ∧ s.ref = s.bodies t ∧ (∀ t', t' ≠ t → s.bodies t' = 0) ∧ ∀ t, s.sched.wakeupSession t = false := by
  cases h with
  | free hcur hqueue hw href hbodies hmark => rw [hbodies] at hpos; cases hpos
  | passed c hcur hw href hbodies hmark => rw [hbodies] at hpos; cases hpos
  | held c hcur hw hc href hpos' hbodies hmark =>
    have he : t = c := by
      by_contra hne
      rw [hbodies t hne] at hpos
      cases hpos
    subst he
    exact ⟨hcur, hw, hc, href, hbodies, hmark⟩

theorem xpcallRet_inner (href : s.ref = s.bodies t) (h : 1 < s.bodies t) : xpcallRet t s =
    { s with ref := s.ref - 1, bodies := Function.update s.bodies t (s.bodies t - 1) } := by
  simp only [xpcallRet]
  rw [if_neg (by omega)]

/-- The end of the outermost body: the queue goes to the first thread that waits, or is free. -/
theorem xpcallRet_outer (href : s.ref = s.bodies t) (h : s.bodies t = 1) : xpcallRet t s =
    match s.threadQueue with
    | [] => { s with ref := 0, bodies := Function.update s.bodies t 0, currentThread := none }
    | n :: q => { s with
        ref := 0
        bodies := Function.update s.bodies t 0
        currentThread := some n
        threadQueue := q
        sched := s.sched.wakeup n } := by
  have href0 : s.ref - 1 = 0 := by omega
  simp only [xpcallRet, href0, h, if_true]

theorem held_ret (h : Held s) (hpos : 0 < s.bodies t) : Held (xpcallRet t s) := by
  obtain ⟨hcur, hw, hc, href, hbodies, hmark⟩ := h.holder hpos
  by_cases houter : s.bodies t = 1
  · have hzero : ∀ t', Function.update s.bodies t 0 t' = 0 := by
      intro t'
      rw [Function.update_apply]
      split
      · rfl
      · rename_i hne; exact hbodies t' hne
    rw [xpcallRet_outer href houter]
    split
    · rename_i hqueue
      rw [hqueue] at hw
      exact .free rfl hqueue ⟨hw.nodup, hw.sleep, hw.order, hw.failed⟩ rfl hzero hmark
    · rename_i n q hqueue
      rw [hqueue] at hw
      have hsleep : s.sched.sleepSession n = true := (hw.sleep n).mpr (List.mem_cons_self ..)
      refine .passed n rfl ⟨hw.nodup, ?_, hw.order, hw.failed⟩ rfl hzero ?_
      · intro t'
        rw [Scheduler.wakeup_sleepSession]
        exact hw.sleep t'
      · intro t'
        rw [Scheduler.wakeup_wakeupSession t' hsleep (hmark n)]
        split
        · rename_i he; exact ⟨fun _ => he, fun _ => rfl⟩
        · rename_i hne
          rw [hmark]
          exact ⟨nofun, fun he => absurd he hne⟩
  · have hinner : 1 < s.bodies t := by omega
    rw [xpcallRet_inner href hinner]
    refine .held t hcur ⟨hw.nodup, hw.sleep, hw.order, hw.failed⟩ hc ?_ ?_ ?_ hmark
    · show s.ref - 1 = ((Function.update s.bodies t (s.bodies t - 1) t : Nat) : Int)
      rw [Function.update_self, href]
      omega
    · show 0 < Function.update s.bodies t (s.bodies t - 1) t
      rw [Function.update_self]
      omega
    · intro t' hne
      show Function.update s.bodies t (s.bodies t - 1) t' = 0
      rw [Function.update_of_ne hne, hbodies t' hne]

/-- A marked thread has the queue passed on to it, and no body runs. -/
theorem Held.marked (h : Held s) (hmark : s.sched.wakeupSession t = true) : s.currentThread = some t ∧
    Waits s (t :: s.threadQueue) ∧ s.ref = 0 ∧ (∀ t, s.bodies t = 0) ∧ ∀ t', s.sched.wakeupSession t' = true ↔ t' = t := by
  cases h with
  | free hcur hqueue hw href hbodies hmark' => rw [hmark'] at hmark; cases hmark
  | held c hcur hw hc href hpos hbodies hmark' => rw [hmark'] at hmark; cases hmark
  | passed c hcur hw href hbodies hmark' =>
    obtain rfl := (hmark' t).mp hmark
    exact ⟨hcur, hw, href, hbodies, hmark'⟩

theorem held_wakeup (h : Held s) {r : Bool} {sched : Scheduler} (hd : s.sched.dispatchWakeup t = some (r, sched)) :
    r = true ∧ Held (resume t { s with sched := sched }) := by
  obtain ⟨hmark, hr, hsleep, hwake⟩ := Scheduler.dispatchWakeup_some hd
  obtain ⟨hcur, hw, href, hbodies, honly⟩ := h.marked hmark
  obtain ⟨hnot, hnodup⟩ := List.nodup_cons.mp hw.nodup
  refine ⟨hr.trans ((hw.sleep t).mpr (List.mem_cons_self ..)), ?_⟩
  rw [resume, if_neg (fun hne => hne href)]
  refine held_enter ⟨hnodup, ?_, ?_, hw.failed⟩ hnot href hbodies ?_
  · intro t'
    rw [hsleep]
    split
    · rename_i he
      rw [he]
      exact ⟨nofun, fun hmem => absurd hmem hnot⟩
    · rename_i hne
      rw [hw.sleep, List.mem_cons]
      exact ⟨fun h => h.resolve_left hne, .inr⟩
  · show s.arrived = s.resumed ++ [t] ++ s.threadQueue
    rw [hw.order, List.append_assoc]; rfl
  · intro t'
    rw [hwake]
    split
    · rfl
    · rename_i hne
      exact Bool.eq_false_iff.mpr fun hm => hne ((honly t').mp hm)

theorem held_step (h : Held s) {a : Label} (hs : step s a = some s') : Held s' := by
  cases a with
  | call t =>
    simp only [step] at hs
    split at hs
    · cases hs
    · rename_i hsleep
      cases hs
      exact held_call h (Bool.eq_false_iff.mpr hsleep)
  | ret t ok =>
    simp only [step] at hs
    split at hs
    · cases hs
    · rename_i hne
      cases hs
      exact held_ret h (Nat.pos_of_ne_zero fun h0 => hne (.inr h0))
  | wakeup t =>
    simp only [step] at hs
    split at hs
    · cases hs
    · rename_i r sched hd
      obtain ⟨rfl, hheld⟩ := held_wakeup h hd
      cases hs
      exact hheld

theorem held_run {as : List Label} (h : Lts.run step init as = some s) : Held s :=
  Lts.run_invariant (fun _ _ _ hinv hs => held_step hinv hs) h held_init

end Step

/-! ### The critical section -/

/-- What holds in every state:
* no two threads are in bodies, and a call by the thread in a body runs at once;
* the threads that had to wait are those that went on and behind them those that wait, in one order;
* a call that starts at once, and is no recursive one, finds nobody waiting;
* the end of an outermost body, by an error or not, frees the queue or marks the first waiting thread,
  which is not marked yet;
* a marked thread goes on when it is resumed, and `assert(ref == 0)` holds;
* while a thread waits, some thread is in a body or marked. -/
structure Correct (s : State) : Prop where
  exclusive : ∀ t t', 0 < s.bodies t → 0 < s.bodies t' → t = t'
  recursive : ∀ t, 0 < s.bodies t → step s (.call t) = some (enter t s)
  order : ∃ w : List Nat, s.arrived = s.resumed ++ w ∧ w.Nodup ∧ (∀ t, s.sched.sleepSession t = true ↔ t ∈ w) ∧
    (w = s.threadQueue ∨ ∃ n, s.currentThread = some n ∧ s.sched.wakeupSession n = true ∧ w = n :: s.threadQueue)
  direct : ∀ t s', step s (.call t) = some s' → 0 < s'.bodies t → 0 < s.bodies t ∨ ∀ t', s.sched.sleepSession t' = false
  released : ∀ t ok s', s.bodies t = 1 → step s (.ret t ok) = some s' →
    s'.currentThread = s.threadQueue.head? ∧ s'.threadQueue = s.threadQueue.tail ∧ (∀ t, s'.bodies t = 0) ∧
      ∀ n, s.threadQueue.head? = some n → s.sched.wakeupSession n = false ∧ s'.sched.wakeupSession n = true
  resumes : ∀ n, s.sched.wakeupSession n = true →
    ∃ s', step s (.wakeup n) = some s' ∧ s'.bodies n = 1 ∧ s'.resumed = s.resumed ++ [n] ∧ s'.sched.wakeupSession n = false
  assertion : s.failed = false
  served : ∀ t, s.sched.sleepSession t = true → ∃ c, 0 < s.bodies c ∨ s.sched.wakeupSession c = true

section Correct

variable {s : State}

theorem Held.waits (h : Held s) : ∃ w, Waits s w ∧
    (w = s.threadQueue ∨ ∃ n, s.currentThread = some n ∧ s.sched.wakeupSession n = true ∧ w = n :: s.threadQueue) := by
  cases h with
  | free hcur hqueue hw href hbodies hmark => exact ⟨[], hw, .inl hqueue.symm⟩
  | held c hcur hw hc href hpos hbodies hmark => exact ⟨_, hw, .inl rfl⟩
  | passed c hcur hw href hbodies hmark => exact ⟨_, hw, .inr ⟨c, hcur, (hmark c).mpr rfl, rfl⟩⟩

theorem Held.direct (h : Held s) {t : Nat} {s' : State} (hs : step s (.call t) = some s') (hpos : 0 < s'.bodies t) :
    0 < s.bodies t ∨ ∀ t', s.sched.sleepSession t' = false := by
  simp only [step] at hs
  split at hs
  · cases hs
  · cases hs
    cases h with
    | free hcur hqueue hw href hbodies hmark =>
      exact .inr fun t' => Bool.eq_false_iff.mpr fun hs => List.not_mem_nil ((hw.sleep t').mp hs)
    | held c hcur hw hc href hpos' hbodies hmark =>
      by_cases he : c = t
      · exact .inl (he ▸ hpos')
      · rw [call, if_pos (by simp [hcur, he])] at hpos
        exact .inl hpos
    | passed c hcur hw href hbodies hmark =>
      by_cases he : c = t
      · rename_i hsleep
        exact absurd ((hw.sleep t).mpr (he ▸ List.mem_cons_self ..)) hsleep
      · rw [call, if_pos (by simp [hcur, he])] at hpos
        exact .inl hpos

theorem Held.released (h : Held s) {t : Nat} {ok : Bool} {s' : State} (hone : s.bodies t = 1)
    (hs : step s (.ret t ok) = some s') : s'.currentThread = s.threadQueue.head? ∧ s'.threadQueue = s.threadQueue.tail ∧
      (∀ t, s'.bodies t = 0) ∧
      ∀ n, s.threadQueue.head? = some n → s.sched.wakeupSession n = false ∧ s'.sched.wakeupSession n = true := by
  obtain ⟨hcur, hw, hc, href, hbodies, hmark⟩ := h.holder (show 0 < s.bodies t by omega)
  have hzero : ∀ t', Function.update s.bodies t 0 t' = 0 := by
    intro t'
    rw [Function.update_apply]
    split
    · rfl
    · rename_i hne; exact hbodies t' hne
  simp only [step] at hs
  split at hs
  · cases hs
  · cases hs
    rw [xpcallRet_outer href hone]
    cases hqueue : s.threadQueue with
    | nil => exact ⟨rfl, rfl, hzero, nofun⟩
    | cons n q =>
      refine ⟨rfl, rfl, hzero, ?_⟩
      intro m hm
      cases hm
      rw [hqueue] at hw
      have hsleep := (hw.sleep n).mpr (List.mem_cons_self ..)
      refine ⟨hmark n, ?_⟩
      show (s.sched.wakeup n).wakeupSession n = true
      rw [Scheduler.wakeup_wakeupSession n hsleep (hmark n), if_pos rfl]

theorem Held.resumes (h : Held s) {n : Nat} (hmark : s.sched.wakeupSession n = true) : ∃ s', step s (.wakeup n) = some s' ∧
    s'.bodies n = 1 ∧ s'.resumed = s.resumed ++ [n] ∧ s'.sched.wakeupSession n = false := by
  obtain ⟨hcur, hw, href, hbodies, -⟩ := h.marked hmark
  have hsleep := (hw.sleep n).mpr (List.mem_cons_self ..)
  obtain ⟨sched, hd⟩ : ∃ sched, s.sched.dispatchWakeup n = some (true, sched) := by
    rw [Scheduler.dispatchWakeup, if_pos hmark, hsleep]
    exact ⟨_, rfl⟩
  obtain ⟨-, -, -, hwake⟩ := Scheduler.dispatchWakeup_some hd
  refine ⟨resume n { s with sched := sched }, by simp only [step, hd, if_true], ?_⟩
  rw [resume, if_neg (fun hne => hne href)]
  refine ⟨?_, rfl, ?_⟩
  · rw [enter_bodies, if_pos rfl, hbodies]
  · show sched.wakeupSession n = false
    rw [hwake, if_pos rfl]

theorem Held.correct (h : Held s) : Correct s where
  exclusive := by
    intro t t' hpos hpos'
    by_contra hne
    obtain ⟨-, -, -, -, hbodies, -⟩ := h.holder hpos
    rw [hbodies t' fun he => hne he.symm] at hpos'
    cases hpos'
  recursive := by
    intro t hpos
    obtain ⟨hcur, hw, hc, -, -, -⟩ := h.holder hpos
    have hsleep : ¬s.sched.sleepSession t = true := fun hs => hc ((hw.sleep t).mp hs)
    rw [step, if_neg hsleep, call, if_neg (fun hne => hne.2 hcur)]
  order := by
    obtain ⟨w, hw, hwhere⟩ := h.waits
    exact ⟨w, hw.order, hw.nodup, hw.sleep, hwhere⟩
  direct := fun _ _ hs hpos => h.direct hs hpos
  released := fun _ _ _ hone hs => h.released hone hs
  resumes := fun _ hmark => h.resumes hmark
  assertion := by
    obtain ⟨w, hw, -⟩ := h.waits
    exact hw.failed
  served := by
    intro t hsleep
    cases h with
    | free hcur hqueue hw href hbodies hmark => exact absurd ((hw.sleep t).mp hsleep) List.not_mem_nil
    | held c hcur hw hc href hpos hbodies hmark => exact ⟨c, .inl hpos⟩
    | passed c hcur hw href hbodies hmark => exact ⟨c, .inr ((hmark c).mpr rfl)⟩

end Correct

theorem queue_correct {as : List Label} {s : State} (h : Lts.run step init as = some s) : Correct s :=
  (held_run h).correct

/-- Two threads wait behind a recursive body that ends with an error; the first of them goes on. -/
def twoWaiting : List Label := [.call 1, .call 2, .call 1, .call 3, .ret 1 false, .ret 1 false, .wakeup 2]

theorem queue_correct_twoWaiting : ∃ s, Lts.run step init twoWaiting = some s ∧ Correct s := by
  obtain ⟨s, hs⟩ : ∃ s, Lts.run step init twoWaiting = some s := ⟨_, rfl⟩
  exact ⟨s, hs, queue_correct hs⟩

end Queue
end Skynet
