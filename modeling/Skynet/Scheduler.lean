import Mathlib.Logic.Function.Basic

/-!
# Skynet.Scheduler

The coroutines of a service that sleep, as `skynet.lua` keeps them: `skynet.wait` puts the running
coroutine into `sleep_session`, `skynet.wakeup` marks a sleeping one in `wakeup_session`, and
`dispatch_wakeup` resumes one that is marked.

Coroutines are numbers. Only coroutines in `skynet.wait` are recorded here, as sleeping and as marked.
-/

namespace Skynet

structure Scheduler where
  sleepSession : Nat → Bool
  wakeupSession : Nat → Bool

namespace Scheduler

def init : Scheduler := { sleepSession := fun _ => false, wakeupSession := fun _ => false }

/-- `skynet.wait`, up to its yield. -/
def wait (s : Scheduler) (co : Nat) : Scheduler := { s with sleepSession := Function.update s.sleepSession co true }

/-- `skynet.wakeup`. -/
def wakeup (s : Scheduler) (co : Nat) : Scheduler :=
  if s.sleepSession co ∧ s.wakeupSession co = false then
    { s with wakeupSession := Function.update s.wakeupSession co true }
  else s

/-- `dispatch_wakeup` with the marked coroutine `co`, and the end of its `skynet.wait`: whether it is
resumed. -/
def dispatchWakeup (s : Scheduler) (co : Nat) : Option (Bool × Scheduler) :=
  if s.wakeupSession co then
    some (s.sleepSession co,
      { sleepSession := Function.update s.sleepSession co false
        wakeupSession := Function.update s.wakeupSession co false })
  else none

section Lemmas

variable (s : Scheduler) (co co' : Nat)

theorem wait_sleepSession : (s.wait co).sleepSession co' = if co' = co then true else s.sleepSession co' :=
  Function.update_apply ..

@[simp] theorem wakeup_sleepSession : (s.wakeup co).sleepSession = s.sleepSession := by
  unfold wakeup
  split <;> rfl

variable {s co}

/-- A coroutine that sleeps and is not marked yet gets marked, and no other. -/
theorem wakeup_wakeupSession (hs : s.sleepSession co = true) (hw : s.wakeupSession co = false) :
    (s.wakeup co).wakeupSession co' = if co' = co then true else s.wakeupSession co' := by
  rw [wakeup, if_pos ⟨hs, hw⟩]
  exact Function.update_apply ..

theorem dispatchWakeup_some {r : Bool} {s' : Scheduler} (h : s.dispatchWakeup co = some (r, s')) :
    s.wakeupSession co = true ∧ r = s.sleepSession co ∧
      (∀ co', s'.sleepSession co' = if co' = co then false else s.sleepSession co') ∧
      ∀ co', s'.wakeupSession co' = if co' = co then false else s.wakeupSession co' := by
  simp only [dispatchWakeup] at h
  split at h
  · rename_i hw
    cases h
    exact ⟨hw, rfl, fun co' => Function.update_apply .., fun co' => Function.update_apply ..⟩
  · cases h

end Lemmas

end Scheduler
end Skynet
