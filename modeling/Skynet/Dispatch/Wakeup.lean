import Skynet.Dispatch.Sound

/-!
# Skynet.Dispatch.Wakeup

What becomes of a wake-up. Each `suspend` ends with `dispatch_wakeup`, which resumes one marked coroutine, whose
next yield leads to the next `suspend`: so the marks are worked off as long as nothing breaks this chain.

* `Prompt` : when no message is handled, every coroutine for which `skynet.wakeup` returned true has gone on.
* `Right` : a wake-up has ended the sleep for which it was issued.
* `Cuts` : the steps that break the chain.
* `wakeups_kept` : both hold in every run in which these steps are taken with no mark pending only.
-/

namespace Skynet
namespace Dispatch

/-- The coroutine is in its `n`-th sleep. -/
def Asleep (s : Sched) (co n : Nat) : Prop := (∃ session, (s.point co).sleeps session) ∧ s.naps co = n

def Prompt (s : Sched) : Prop := s.control = .idle → ∀ e ∈ s.issued, ¬Asleep s e.1 e.2

/-- The sleep that was marked is the one that has ended. -/
def Right (s : Sched) : Prop := ∀ w ∈ s.woken, w.2.1 = w.2.2

/-- An error is raised in a coroutine or in `suspend`, or the service exits. -/
def Cuts (s : State) : Label → Prop
  | .op .raise => True
  | .op .exit => True
  | .op (.ret fits) => ∃ co, s.sched.control = .running co ∧ (s.book.returnCommand co fits).2 = true
  | .op .response => ∃ co, s.sched.control = .running co ∧ (s.book.responseCommand co).2 = true
  | .errors => ∃ session rest, s.sched.errorQueue = session :: rest ∧
      ∀ co, s.sched.sessionIdCoroutine session ≠ some (.co co)
  | _ => False

/-- No mark is pending where the chain is broken. -/
def Unbroken (s : State) (a : Label) : Prop := Cuts s a → s.sched.wakeupSession = []

/-- `suspend` has still to run, or a coroutine does. -/
def Control.active : Control → Bool
  | .running _ => true
  | .wakeup => true
  | _ => false

/-- Marks are on coroutines that sleep, for that sleep, and only where `dispatch_wakeup` is still to come. -/
structure Marked (s : Sched) : Prop where
  nodup : s.wakeupSession.Nodup
  sleeps : ∀ co ∈ s.wakeupSession, s.sleepSession co ≠ none ∧ s.mark co = s.naps co
  active : s.control.active = false → s.wakeupSession = []
  issued : ∀ e ∈ s.issued, e.2 ≤ s.naps e.1 ∧ (s.naps e.1 = e.2 → s.sleepSession e.1 ≠ none → e.1 ∈ s.wakeupSession)
  right : Right s

theorem marked_init : Marked init.sched where
  nodup := List.nodup_nil
  sleeps := fun _ h => (nomatch h)
  active := fun _ => rfl
  issued := fun _ h => (nomatch h)
  right := fun _ h => (nomatch h)

section Sched

variable {s s' : Sched} {co : Nat}

/-- The marks, the sleeping coroutines and the history are the same. -/
structure SameMarks (s s' : Sched) : Prop where
  wakeup : s'.wakeupSession = s.wakeupSession
  sleep : s'.sleepSession = s.sleepSession
  naps : s'.naps = s.naps
  mark : s'.mark = s.mark
  issued : s'.issued = s.issued
  woken : s'.woken = s.woken

theorem Marked.same (h : Marked s) (hs : SameMarks s s') (hactive : s'.control.active = false → s.wakeupSession = []) :
    Marked s' where
  nodup := by rw [hs.wakeup]; exact h.nodup
  sleeps := by rw [hs.wakeup, hs.sleep, hs.mark, hs.naps]; exact h.sleeps
  active := by rw [hs.wakeup]; exact hactive
  issued := by rw [hs.issued, hs.naps, hs.sleep, hs.wakeup]; exact h.issued
  right := by rw [Right, hs.woken]; exact h.right

/-- The mark of the coroutine has been taken off, and it is about to be resumed. -/
structure Unmarked (s : Sched) (co : Nat) : Prop where
  nodup : s.wakeupSession.Nodup
  sleeps : ∀ co ∈ s.wakeupSession, s.sleepSession co ≠ none ∧ s.mark co = s.naps co
  issued : ∀ e ∈ s.issued, e.2 ≤ s.naps e.1 ∧
    (s.naps e.1 = e.2 → s.sleepSession e.1 ≠ none → e.1 = co ∨ e.1 ∈ s.wakeupSession)
  right : Right s
  off : co ∉ s.wakeupSession
  asleep : s.sleepSession co ≠ none → ∃ session, (s.point co).sleeps session

theorem Unmarked.resume (h : Unmarked s co) (hr : s.resume co = some s') : Marked s' := by
  have hawake : ∀ t : Sched, SameMarks { s with sleepSession := Function.update s.sleepSession co none } t →
      t.control = .running co → Marked t := by
    intro t hs hrun
    refine ⟨by rw [hs.wakeup]; exact h.nodup, ?_, by rw [hrun]; exact nofun, ?_, by rw [Right, hs.woken]; exact h.right⟩
    · intro co' hmem
      rw [hs.wakeup] at hmem
      have hne : co' ≠ co := by
        rintro rfl
        exact h.off hmem
      rw [hs.sleep, hs.mark, hs.naps]
      simp only [Function.update_of_ne hne]
      exact h.sleeps co' hmem
    · intro e he
      rw [hs.issued] at he
      rw [hs.naps, hs.sleep, hs.wakeup]
      refine ⟨(h.issued e he).1, ?_⟩
      intro hnaps hsleep
      by_cases hc : e.1 = co
      · simp only [hc, Function.update_self, ne_eq, not_true_eq_false] at hsleep
      · simp only [Function.update_of_ne hc] at hsleep
        exact ((h.issued e he).2 hnaps hsleep).resolve_left hc
  -- where the entry in `sleep_session` is kept, there is none
  have hkept (hp : ∀ session, ¬(s.point co).sleeps session) : Function.update s.sleepSession co none = s.sleepSession := by
    refine Function.update_eq_self_iff.mpr (by_contra fun hne => ?_)
    obtain ⟨session, hs⟩ := h.asleep (Ne.symm hne)
    exact hp session hs
  simp only [Sched.resume] at hr
  split at hr <;> cases hr
  · rename_i hp
    exact hawake _ ⟨rfl, (hkept (by simp [hp, Point.sleeps])).symm, rfl, rfl, rfl, rfl⟩ rfl
  · rename_i hp
    exact hawake _ ⟨rfl, (hkept (by simp [hp, Point.sleeps])).symm, rfl, rfl, rfl, rfl⟩ rfl
  · rename_i hp
    exact hawake _ ⟨rfl, (hkept (by simp [hp, Point.sleeps])).symm, rfl, rfl, rfl, rfl⟩ rfl
  · exact hawake _ ⟨rfl, rfl, rfl, rfl, rfl, rfl⟩ rfl
  · exact hawake _ ⟨rfl, rfl, rfl, rfl, rfl, rfl⟩ rfl

/-- Where no mark is pending, any coroutine is resumed. -/
theorem Marked.resume (h : Marked s) (hl : Linked s) (hnone : s.wakeupSession = []) {t : Sched}
    (hr : t.resume co = some s') (ht : SameMarks s t) (hpoint : t.point co = s.point co) : Marked s' := by
  refine Unmarked.resume (s := t) ⟨?_, ?_, ?_, ?_, ?_, ?_⟩ hr
  · rw [ht.wakeup]
    exact h.nodup
  · rw [ht.wakeup, ht.sleep, ht.mark, ht.naps]
    exact h.sleeps
  · rw [ht.issued, ht.naps, ht.sleep, ht.wakeup]
    exact fun e he => ⟨(h.issued e he).1, fun hn hs => .inr ((h.issued e he).2 hn hs)⟩
  · rw [Right, ht.woken]
    exact h.right
  · rw [ht.wakeup, hnone]
    exact List.not_mem_nil
  · rw [ht.sleep, hpoint]
    intro hne
    obtain ⟨session, hs⟩ := Option.ne_none_iff_exists'.mp hne
    exact ⟨session, (hl.sleep co session).mp hs⟩

theorem create_same {p : Point} (hc : s.create co p = some s') : SameMarks s s' ∧ s'.control = s.control := by
  simp only [Sched.create] at hc
  split at hc
  · cases hc
    exact ⟨⟨rfl, rfl, rfl, rfl, rfl, rfl⟩, rfl⟩
  · split at hc
    · cases hc
      exact ⟨⟨rfl, rfl, rfl, rfl, rfl, rfl⟩, rfl⟩
    · cases hc

/-- The running coroutine goes to sleep: another sleep than any that was marked. -/
theorem Marked.nap (h : Marked s) (hsound : Sound s) (hrun : s.control = .running co) (point : Nat → Point) :
    Marked (s.nap co point) := by
  have hawake := (hsound.unused hrun).1.noSleep
  have hunmarked : co ∉ s.wakeupSession := fun hmem => (h.sleeps co hmem).1 hawake
  refine ⟨h.nodup, ?_, nofun, ?_, h.right⟩
  · intro co' hmem
    have hne : co' ≠ co := by
      rintro rfl
      exact hunmarked hmem
    simp only [Sched.nap, Function.update_of_ne hne]
    exact h.sleeps co' hmem
  · intro e he
    obtain ⟨hle, hmarked⟩ := h.issued e he
    simp only [Sched.nap]
    by_cases hc : e.1 = co
    · rw [← hc, Function.update_self]
      exact ⟨by omega, fun hn => by omega⟩
    · rw [Function.update_of_ne hc, Function.update_of_ne hc]
      exact ⟨hle, hmarked⟩

theorem Marked.wakeup (h : Marked s) (hactive : s.control.active = true) (co : Nat) : Marked (s.wakeup co) := by
  simp only [Sched.wakeup]
  split
  · rename_i hsleeps
    refine ⟨List.nodup_cons.mpr ⟨hsleeps.2, h.nodup⟩, ?_, by rw [hactive]; exact (fun h => by cases h), ?_, h.right⟩
    · intro co' hmem
      simp only
      rcases List.mem_cons.mp hmem with rfl | hmem
      · exact ⟨hsleeps.1, Function.update_self ..⟩
      · by_cases hc : co' = co
        · rw [hc] at hmem
          exact absurd hmem hsleeps.2
        · rw [Function.update_of_ne hc]
          exact h.sleeps co' hmem
    · intro e he
      rcases List.mem_append.mp he with he | he
      · exact ⟨(h.issued e he).1, fun hn hs => List.mem_cons_of_mem _ ((h.issued e he).2 hn hs)⟩
      · obtain rfl := List.mem_singleton.mp he
        exact ⟨Nat.le_refl _, fun _ _ => List.mem_cons_self ..⟩
  · exact h

theorem Marked.dispatchWakeup (h : Marked s) (hsound : Sound s) {next : Option Nat} (hd : s.dispatchWakeup next = some s') :
    Marked s' := by
  cases next with
  | none =>
    simp only [Sched.dispatchWakeup] at hd
    split at hd
    · rename_i hnone
      cases hd
      exact h.same ⟨rfl, rfl, rfl, rfl, rfl, rfl⟩ fun _ => hnone
    · cases hd
  | some co =>
    simp only [Sched.dispatchWakeup] at hd
    split at hd
    · rename_i hmem
      obtain ⟨hsleep, hmark⟩ := h.sleeps co hmem
      split at hd
      · rename_i hnone
        exact absurd hnone hsleep
      · rename_i session hsession
        refine Unmarked.resume ⟨h.nodup.erase co, ?_, ?_, ?_, h.nodup.not_mem_erase, ?_⟩ hd
        · exact fun co' hmem' => h.sleeps co' (List.mem_of_mem_erase hmem')
        · intro e he
          refine ⟨(h.issued e he).1, fun hn hs => ?_⟩
          by_cases hc : e.1 = co
          · exact .inl hc
          · exact .inr ((List.mem_erase_of_ne hc).mpr ((h.issued e he).2 hn hs))
        · intro w hw
          rcases List.mem_append.mp hw with hw | hw
          · exact h.right w hw
          · obtain rfl := List.mem_singleton.mp hw
            exact hmark
        · exact fun _ => ⟨session, (hsound.sleep co session).mp hsession⟩
    · cases hd

end Sched

section Step

variable {s s' : State}

/-- A step that leaves the marks alone. -/
theorem marked_perform {co : Nat} {o : Op} (h : Marked s.sched) (hsound : Sound s.sched)
    (hrun : s.sched.control = .running co) (hu : Unbroken s (.op o)) (hp : perform s co o = some s') : Marked s'.sched := by
  have hactive : s.sched.control.active = true := by rw [hrun]; rfl
  have hinactive : ∀ {p : Prop}, s.sched.control.active = false → p := by
    intro p hn
    rw [hactive] at hn
    cases hn
  have hanswered : ∀ refused, (refused = true → s.sched.wakeupSession = []) → Marked (s.sched.answered co refused) := by
    intro refused hnone
    simp only [Sched.answered]
    split
    · rename_i hr
      exact h.same ⟨rfl, rfl, rfl, rfl, rfl, rfl⟩ fun _ => hnone hr
    · exact h
  cases o with
  | call service => cases hp; exact h.same ⟨rfl, rfl, rfl, rfl, rfl, rfl⟩ (fun h => by cases h)
  | sleep => cases hp; exact h.nap hsound hrun _
  | wait => cases hp; exact h.nap hsound hrun _
  | wakeup other => cases hp; exact h.wakeup hactive other
  | fork new =>
    rw [perform, Option.map_eq_some_iff] at hp
    obtain ⟨sched, hf, rfl⟩ := hp
    rw [Sched.fork, Option.map_eq_some_iff] at hf
    obtain ⟨t, ht, rfl⟩ := hf
    obtain ⟨hsame, hcontrol⟩ := create_same ht
    refine h.same ⟨hsame.wakeup, hsame.sleep, hsame.naps, hsame.mark, hsame.issued, hsame.woken⟩ ?_
    simp only [hcontrol]
    exact fun hn => hinactive hn
  | timeout new =>
    rw [perform, Option.map_eq_some_iff] at hp
    obtain ⟨sched, hf, rfl⟩ := hp
    rw [Sched.timeout, Option.map_eq_some_iff] at hf
    obtain ⟨t, ht, rfl⟩ := hf
    obtain ⟨hsame, hcontrol⟩ := create_same ht
    refine h.same ⟨hsame.wakeup, hsame.sleep, hsame.naps, hsame.mark, hsame.issued, hsame.woken⟩ ?_
    simp only [hcontrol]
    exact fun hn => hinactive hn
  | ret fits =>
    simp only [perform, Option.some.injEq] at hp
    subst hp
    exact hanswered _ fun hr => hu ⟨co, hrun, hr⟩
  | response =>
    simp only [perform, Option.some.injEq] at hp
    subst hp
    exact hanswered _ fun hr => hu ⟨co, hrun, hr⟩
  | respond k ok fits => cases hp; exact h
  | test k => cases hp; exact h
  | finish => cases hp; exact h.same ⟨rfl, rfl, rfl, rfl, rfl, rfl⟩ (fun h => by cases h)
  | raise => cases hp; exact h.same ⟨rfl, rfl, rfl, rfl, rfl, rfl⟩ fun _ => hu trivial
  | exit => cases hp; exact h.same ⟨rfl, rfl, rfl, rfl, rfl, rfl⟩ fun _ => hu trivial

theorem marked_dispatch {m : Message} (h : Marked s.sched) (hsound : Sound s.sched) (hnone : s.sched.wakeupSession = [])
    (hd : dispatch s m = some s') : Marked s'.sched := by
  cases m with
  | response session =>
    simp only [dispatch] at hd
    split at hd
    · cases hd
      exact h.same ⟨rfl, rfl, rfl, rfl, rfl, rfl⟩ fun _ => hnone
    · cases hd
      exact h.same ⟨rfl, rfl, rfl, rfl, rfl, rfl⟩ fun _ => hnone
    · rw [Option.map_eq_some_iff] at hd
      obtain ⟨sched, hr, rfl⟩ := hd
      exact h.resume hsound.toLinked hnone hr ⟨rfl, rfl, rfl, rfl, rfl, rfl⟩ rfl
  | request source session co unpacks =>
    simp only [dispatch] at hd
    split at hd
    · cases hd
    · rename_i sched hsched
      obtain ⟨hsame, -⟩ := create_same hsched
      have hl := (hsound.create (by simp [Point.sleeps]) hsched).1.toLinked
      have hm : Marked sched := h.same hsame fun _ => hnone
      have hnone' : sched.wakeupSession = [] := hsame.wakeup.trans hnone
      split at hd
      · rw [Option.map_eq_some_iff] at hd
        obtain ⟨t, hr, rfl⟩ := hd
        exact hm.resume hl hnone' hr ⟨rfl, rfl, rfl, rfl, rfl, rfl⟩ rfl
      · cases hd
        exact hm.same ⟨rfl, rfl, rfl, rfl, rfl, rfl⟩ fun _ => hnone'
  | error source session co order =>
    simp only [dispatch] at hd
    split at hd
    · cases hd
    · rename_i sched hsched
      rw [Option.map_eq_some_iff] at hd
      obtain ⟨t, ht, rfl⟩ := hd
      obtain ⟨queue, rfl⟩ := errorDispatch_eq ht
      obtain ⟨hsame, -⟩ := create_same hsched
      exact h.same ⟨hsame.wakeup, hsame.sleep, hsame.naps, hsame.mark, hsame.issued, hsame.woken⟩ (fun h => by cases h)
  | unknown source session hasProto => cases hd; exact h.same ⟨rfl, rfl, rfl, rfl, rfl, rfl⟩ fun _ => hnone

theorem marked_step {a : Label} (h : Marked s.sched) (hsound : Sound s.sched) (hu : Unbroken s a) (hs : step s a = some s') :
    Marked s'.sched := by
  have hnone : ∀ control, s.sched.control = control → control.active = false → s.sched.wakeupSession = [] := by
    rintro _ rfl hn
    exact h.active hn
  cases a with
  | die address => cases hs; exact h
  | message m =>
    simp only [step] at hs
    split at hs
    · rename_i hidle
      exact marked_dispatch h hsound (hnone _ hidle.1 rfl) hs
    · cases hs
  | op o =>
    simp only [step] at hs
    split at hs
    · rename_i co hrun
      exact marked_perform h hsound hrun hu hs
    · cases hs
  | wakeup next =>
    simp only [step] at hs
    split at hs
    · rw [Option.map_eq_some_iff] at hs
      obtain ⟨sched, hd, rfl⟩ := hs
      exact h.dispatchWakeup hsound hd
    · cases hs
  | errors =>
    simp only [step] at hs
    split at hs
    · rename_i hcontrol
      rw [Option.map_eq_some_iff] at hs
      obtain ⟨sched, hd, rfl⟩ := hs
      have hnone' := hnone _ hcontrol rfl
      simp only [Sched.dispatchErrorQueue] at hd
      split at hd
      · cases hd
        exact h.same ⟨rfl, rfl, rfl, rfl, rfl, rfl⟩ fun _ => hnone'
      · split at hd
        · exact h.resume hsound.toLinked hnone' hd ⟨rfl, rfl, rfl, rfl, rfl, rfl⟩ rfl
        · cases hd
          exact h.same ⟨rfl, rfl, rfl, rfl, rfl, rfl⟩ fun _ => hnone'
    · cases hs
  | returned =>
    simp only [step] at hs
    split at hs
    · rename_i hcontrol
      cases hs
      simp only [Sched.returned]
      split
      · exact h.same ⟨rfl, rfl, rfl, rfl, rfl, rfl⟩ fun _ => hnone _ hcontrol rfl
      · exact h.same ⟨rfl, rfl, rfl, rfl, rfl, rfl⟩ fun _ => hnone _ hcontrol rfl
    · cases hs
  | forks next =>
    simp only [step] at hs
    split at hs
    · rename_i hcontrol
      rw [Option.map_eq_some_iff] at hs
      obtain ⟨sched, hd, rfl⟩ := hs
      have hnone' := hnone _ hcontrol rfl
      cases next with
      | none =>
        simp only [Sched.dispatchFork] at hd
        split at hd
        · cases hd
          exact h.same ⟨rfl, rfl, rfl, rfl, rfl, rfl⟩ fun _ => hnone'
        · cases hd
      | some co =>
        simp only [Sched.dispatchFork] at hd
        split at hd
        · exact h.resume hsound.toLinked hnone' hd ⟨rfl, rfl, rfl, rfl, rfl, rfl⟩ rfl
        · cases hd
    · cases hs

end Step

theorem Marked.prompt {s : Sched} (h : Marked s) (hl : Linked s) : Prompt s := by
  intro hidle e he hasleep
  obtain ⟨⟨session, hsleeps⟩, hnaps⟩ := hasleep
  have hmem := (h.issued e he).2 hnaps (by rw [(hl.sleep e.1 session).mpr hsleeps]; exact Option.some_ne_none _)
  rw [h.active (by rw [hidle]; rfl)] at hmem
  cases hmem

/-- **Wake-ups.** When no error is raised and the service does not exit while a wake-up is pending, every coroutine for which
`skynet.wakeup` returned true has gone on from that sleep when the message has been handled, and no
wake-up ends another sleep. -/
theorem wakeups_kept (as : List Label) (s : State) (h : Lts.run step init as = some s)
    (hu : Lts.Guarded step Unbroken init as) : Prompt s.sched ∧ Right s.sched := by
  have hinv : Sound s.sched ∧ Marked s.sched :=
    Lts.run_invariant_of_guarded (P := fun s => Sound s.sched ∧ Marked s.sched)
      (fun _ _ _ hinv hg hs => ⟨sound_step hinv.1 hs, marked_step hinv.2 hinv.1 hg hs⟩) h hu ⟨sound_init, marked_init⟩
  exact ⟨hinv.2.prompt hinv.1.toLinked, hinv.2.right⟩

/-! ### Runs -/

/-- Coroutine 0 sleeps, and coroutine 1 wakes it up. -/
def wakingUp : List Label :=
  [.message (.request 100 1 0 true), .op .sleep, .wakeup none, .errors, .returned, .forks none,
    .message (.request 100 2 1 true), .op (.wakeup 0)]

/-- A test for `Unbroken`. -/
def whole (s : State) : Label → Bool
  | .op .raise => false
  | .op .exit => false
  | .op (.ret _) => false
  | .op .response => false
  | .errors => s.sched.errorQueue.isEmpty
  | _ => true

theorem unbroken_of_whole (s : State) (a : Label) (h : whole s a = true) : Unbroken s a := by
  intro hc
  cases a with
  | op o =>
    cases o with
    | ret fits => cases h
    | response => cases h
    | raise => cases h
    | exit => cases h
    | _ => cases hc
  | errors =>
    obtain ⟨session, rest, hqueue, -⟩ := hc
    simp only [whole, hqueue] at h
    cases h
  | _ => cases hc

/-- The sleeper goes on, and both end. -/
theorem wakeups_kept_finish :
    ∃ s, Lts.run step init (wakingUp ++ ([.op .finish, .wakeup (some 0), .op .finish, .wakeup none, .errors, .returned,
        .errors, .returned, .forks none] : List Label)) = some s ∧
      s.sched.woken = [(0, 1, 1)] ∧ Prompt s.sched ∧ Right s.sched := by
  obtain ⟨s, hrun, hguard, hs⟩ := Lts.of_check (p := fun s => s.sched.woken == [(0, 1, 1)]) unbroken_of_whole
    (show Lts.check step whole (fun s => s.sched.woken == [(0, 1, 1)]) init (wakingUp ++ ([.op .finish, .wakeup (some 0),
      .op .finish, .wakeup none, .errors, .returned, .errors, .returned, .forks none] : List Label)) = true by decide +kernel)
  exact ⟨s, hrun, beq_iff_eq.mp hs, wakeups_kept _ s hrun hguard⟩

/-- Coroutine 1 dies with an error: the sleeper is not resumed with this message. When it has been resumed by its timer and
sleeps again, the wake-up ends that sleep. -/
theorem wakeup_lost :
    (∃ as s, Lts.run step init as = some s ∧ ¬Prompt s.sched) ∧ ∃ as s, Lts.run step init as = some s ∧ ¬Right s.sched := by
  refine ⟨⟨wakingUp ++ ([.op .raise, .forks none] : List Label), ?_⟩,
    ⟨wakingUp ++ ([.op .raise, .forks none, .message (.response 1), .op .sleep, .wakeup (some 0)] : List Label), ?_⟩⟩
  · obtain ⟨s, hrun, -, hs⟩ := Lts.of_check (g := fun _ _ => true) (G := fun _ _ => True) (fun _ _ _ => trivial)
      (show Lts.check step (fun _ _ => true)
        (fun s => s.sched.control == .idle && s.sched.issued == [(0, 1)] && s.sched.point 0 == .sleep 1 && s.sched.naps 0 == 1)
        init (wakingUp ++ ([.op .raise, .forks none] : List Label)) = true by decide +kernel)
    simp only [Bool.and_eq_true, beq_iff_eq] at hs
    obtain ⟨⟨⟨hidle, hissued⟩, hpoint⟩, hnaps⟩ := hs
    refine ⟨s, hrun, fun hprompt => ?_⟩
    exact hprompt hidle (0, 1) (by rw [hissued]; exact List.mem_singleton_self _) ⟨⟨1, .inl hpoint⟩, hnaps⟩
  · obtain ⟨s, hrun, -, hs⟩ := Lts.of_check (g := fun _ _ => true) (G := fun _ _ => True) (fun _ _ _ => trivial)
      (show Lts.check step (fun _ _ => true) (fun s => s.sched.woken == [(0, 1, 2)]) init
        (wakingUp ++ ([.op .raise, .forks none, .message (.response 1), .op .sleep, .wakeup (some 0)] : List Label)) =
          true by decide +kernel)
    refine ⟨s, hrun, fun hright => ?_⟩
    have := hright (0, 1, 2) (by rw [beq_iff_eq.mp hs]; exact List.mem_singleton_self _)
    cases this

end Dispatch
end Skynet
