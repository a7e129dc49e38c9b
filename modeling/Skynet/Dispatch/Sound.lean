import Skynet.Dispatch.Service

/-!
# Skynet.Dispatch.Sound

What the tables say of a coroutine agrees with where it is. So every coroutine that is resumed waits or has to be
started.

* `Ready` : nothing refers to the coroutine any more, and it is about to be resumed.
* `Ready.resume` : it is resumed.
* `sound_step` : every step keeps `Sound`.
* `Going` : no coroutine ends, and none is created.
-/

namespace Skynet
namespace Dispatch

namespace Point

/-- Waits for a response or an event in this session. -/
def waits (p : Point) (session : Nat) : Prop :=
  p = .call session ∨ p = .sleep session ∨ p = .wait session ∨ p = .timer session

/-- Asleep in this session. -/
def sleeps (p : Point) (session : Nat) : Prop := p = .sleep session ∨ p = .wait session

theorem sleeps.waits {p : Point} {session : Nat} (h : p.sleeps session) : p.waits session :=
  h.elim (fun h => .inr (.inl h)) fun h => .inr (.inr (.inl h))

theorem waits.inj {p : Point} {x y : Nat} (hx : p.waits x) (hy : p.waits y) : x = y := by
  rcases hx with rfl | rfl | rfl | rfl <;> simpa [Point.waits] using hy

theorem sleeps.inj {p : Point} {x y : Nat} (hx : p.sleeps x) (hy : p.sleeps y) : x = y := hx.waits.inj hy.waits

/-- Waits, or has to be started. -/
def resumable (p : Point) : Prop := p = .new ∨ ∃ session, p.waits session

end Point

/-- What refers to coroutines: the tables and the points agree. -/
structure Linked (s : Sched) : Prop where
  entry : ∀ session co, s.sessionIdCoroutine session = some (.co co) → (s.point co).waits session
  fork : ∀ co ∈ s.forkQueue, s.point co = .new
  nodup : s.forkQueue.Nodup
  sleep : ∀ co session, s.sleepSession co = some session ↔ (s.point co).sleeps session
  fresh : ∀ co, s.coroutines ≤ co → s.point co = .dead

structure Sound (s : Sched) : Prop extends Linked s where
  running : ∀ co, s.control = .running co → s.point co = .running

/-- The coroutine is about to be resumed. -/
structure Ready (s : Sched) (co : Nat) : Prop extends Linked s where
  resumable : (s.point co).resumable
  noEntry : ∀ session, s.sessionIdCoroutine session ≠ some (.co co)
  noFork : co ∉ s.forkQueue

theorem sound_init : Sound init.sched where
  entry := fun _ _ h => (nomatch h)
  fork := fun _ h => (nomatch h)
  nodup := List.nodup_nil
  sleep := fun _ _ => ⟨fun h => (nomatch h), fun h => h.elim (fun h => (nomatch h)) fun h => (nomatch h)⟩
  fresh := fun _ _ => rfl
  running := fun _ h => (nomatch h)

section Sched

variable {s s' : Sched} {co : Nat}

/-- Nothing refers to a coroutine that neither waits nor has to be started. -/
structure Unused (s : Sched) (co : Nat) : Prop where
  noEntry : ∀ session, s.sessionIdCoroutine session ≠ some (.co co)
  noFork : co ∉ s.forkQueue
  noSleep : s.sleepSession co = none

theorem Linked.unused (h : Linked s) (hp : ¬(s.point co).resumable) : Unused s co where
  noEntry := fun session hs => hp (.inr ⟨session, h.entry session co hs⟩)
  noFork := fun hmem => hp (.inl (h.fork co hmem))
  noSleep := by
    by_contra hne
    obtain ⟨session, hs⟩ := Option.ne_none_iff_exists'.mp hne
    exact hp (.inr ⟨session, ((h.sleep co session).mp hs).waits⟩)

/-- A coroutine that nothing refers to goes to a point where it does not sleep. -/
theorem Linked.move (h : Linked s) (hu : Unused s co) (hco : co < s.coroutines) {p : Point}
    (hp : ∀ session, ¬p.sleeps session) : Linked { s with point := Function.update s.point co p } where
  entry := by
    intro session co' hs
    have hne : co' ≠ co := by
      rintro rfl
      exact hu.noEntry session hs
    simpa only [Function.update_of_ne hne] using h.entry session co' hs
  fork := by
    intro co' hmem
    have hne : co' ≠ co := by
      rintro rfl
      exact hu.noFork hmem
    simpa only [Function.update_of_ne hne] using h.fork co' hmem
  nodup := h.nodup
  sleep := by
    intro co' session
    by_cases hc : co' = co
    · subst hc
      simp only [Function.update_self, hu.noSleep, reduceCtorEq, false_iff]
      exact hp session
    · simpa only [Function.update_of_ne hc] using h.sleep co' session
  fresh := by
    intro co' hge
    have hne : co' ≠ co := by
      rintro rfl
      exact absurd hge (Nat.not_le_of_lt hco)
    simpa only [Function.update_of_ne hne] using h.fresh co' hge

theorem running_not_sleeps (session : Nat) : ¬Point.running.sleeps session := by simp [Point.sleeps]

theorem Linked.lt (h : Linked s) (hp : s.point co ≠ .dead) : co < s.coroutines := by
  by_contra hge
  exact hp (h.fresh co (by omega))

/-- The coroutine goes on. -/
theorem Ready.resume (h : Ready s co) : ∃ s', s.resume co = some s' ∧ Sound s' := by
  have hlt : co < s.coroutines := by
    refine h.lt ?_
    intro hp
    have := h.resumable
    rw [hp] at this
    simp [Point.resumable, Point.waits] at this
  -- where it slept, its entry in `sleep_session` goes
  have hsleep : Linked { s with sleepSession := Function.update s.sleepSession co none,
                                point := Function.update s.point co .running } := by
    refine ⟨?_, ?_, h.nodup, ?_, ?_⟩
    · intro session co' hs
      have hne : co' ≠ co := by
        rintro rfl
        exact h.noEntry session hs
      simpa only [Function.update_of_ne hne] using h.entry session co' hs
    · intro co' hmem
      have hne : co' ≠ co := by
        rintro rfl
        exact h.noFork hmem
      simpa only [Function.update_of_ne hne] using h.fork co' hmem
    · intro co' session
      by_cases hc : co' = co
      · subst hc
        simp only [Function.update_self, reduceCtorEq, false_iff]
        exact running_not_sleeps session
      · simpa only [Function.update_of_ne hc] using h.sleep co' session
    · intro co' hge
      have hne : co' ≠ co := by
        rintro rfl
        exact absurd hge (Nat.not_le_of_lt hlt)
      simpa only [Function.update_of_ne hne] using h.fresh co' hge
  have hawake (hp : ∀ session, ¬(s.point co).sleeps session) : s.sleepSession co = none := by
    by_contra hne
    obtain ⟨session, hs⟩ := Option.ne_none_iff_exists'.mp hne
    exact hp session ((h.sleep co session).mp hs)
  have hrun : ∀ co', Control.running co = .running co' → Function.update s.point co .running co' = .running := by
    rintro _ ⟨⟩
    exact Function.update_self ..
  have hmove (hp : ∀ session, ¬(s.point co).sleeps session) :
      Linked { s with point := Function.update s.point co .running } :=
    h.toLinked.move ⟨h.noEntry, h.noFork, hawake hp⟩ hlt running_not_sleeps
  rcases h.resumable with hp | ⟨session, hp | hp | hp | hp⟩
  · have hl := hmove (by simp [hp, Point.sleeps])
    refine ⟨_, by rw [Sched.resume, hp], ?_⟩
    exact ⟨⟨hl.entry, hl.fork, hl.nodup, hl.sleep, hl.fresh⟩, hrun⟩
  · have hl := hmove (by simp [hp, Point.sleeps])
    refine ⟨_, by rw [Sched.resume, hp], ?_⟩
    exact ⟨⟨hl.entry, hl.fork, hl.nodup, hl.sleep, hl.fresh⟩, hrun⟩
  · refine ⟨_, by rw [Sched.resume, hp], ?_⟩
    exact ⟨⟨hsleep.entry, hsleep.fork, hsleep.nodup, hsleep.sleep, hsleep.fresh⟩, hrun⟩
  · refine ⟨_, by rw [Sched.resume, hp], ?_⟩
    refine ⟨⟨?_, hsleep.fork, hsleep.nodup, hsleep.sleep, hsleep.fresh⟩, hrun⟩
    intro session' co' hs
    by_cases hc : session' = session
    · subst hc
      simp only [Function.update_self, reduceCtorEq] at hs
    · simp only [Function.update_of_ne hc] at hs
      exact hsleep.entry session' co' hs
  · have hl := hmove (by simp [hp, Point.sleeps])
    refine ⟨_, by rw [Sched.resume, hp], ?_⟩
    exact ⟨⟨hl.entry, hl.fork, hl.nodup, hl.sleep, hl.fresh⟩, hrun⟩

/-- A coroutine whose entry has been taken out. -/
theorem Sound.ready (h : Sound s) {session : Nat} (hs : s.sessionIdCoroutine session = some (.co co)) {e : Option Entry}
    (he : ∀ co, e ≠ some (.co co)) :
    Ready { s with sessionIdCoroutine := Function.update s.sessionIdCoroutine session e } co where
  entry := by
    intro session' co' hs'
    by_cases hc : session' = session
    · subst hc
      simp only [Function.update_self] at hs'
      exact absurd hs' (he co')
    · simp only [Function.update_of_ne hc] at hs'
      exact h.entry session' co' hs'
  fork := h.fork
  nodup := h.nodup
  sleep := h.sleep
  fresh := h.fresh
  resumable := .inr ⟨session, h.entry session co hs⟩
  noEntry := by
    intro session' hs'
    by_cases hc : session' = session
    · subst hc
      simp only [Function.update_self] at hs'
      exact he co hs'
    · simp only [Function.update_of_ne hc] at hs'
      exact hc ((h.entry session' co hs').inj (h.entry session co hs))
  noFork := by
    intro hmem
    have hnew := h.fork co hmem
    have hwait := h.entry session co hs
    rw [hnew] at hwait
    simp [Point.waits] at hwait

/-- An entry goes, or is no coroutine any more. -/
theorem Sound.dropEntry (h : Sound s) (session : Nat) {e : Option Entry} (he : ∀ co, e ≠ some (.co co)) {control : Control}
    (hc : ∀ co, control = .running co → s.point co = .running) :
    Sound { s with sessionIdCoroutine := Function.update s.sessionIdCoroutine session e, control := control } where
  entry := by
    intro session' co' hs'
    by_cases hc : session' = session
    · subst hc
      simp only [Function.update_self] at hs'
      exact absurd hs' (he co')
    · simp only [Function.update_of_ne hc] at hs'
      exact h.entry session' co' hs'
  fork := h.fork
  nodup := h.nodup
  sleep := h.sleep
  fresh := h.fresh
  running := hc

/-- The running coroutine is moved. -/
theorem Sound.unused (h : Sound s) (hrun : s.control = .running co) : Unused s co ∧ co < s.coroutines := by
  have hp := h.running co hrun
  exact ⟨h.toLinked.unused (by rw [hp]; simp [Point.resumable, Point.waits]), h.toLinked.lt (by rw [hp]; exact nofun)⟩

theorem Sound.unwind (h : Sound s) (hrun : s.control = .running co) {p : Point} (hp : p = .stuck ∨ p = .dead) :
    Sound (s.unwind co p) := by
  obtain ⟨hu, hlt⟩ := h.unused hrun
  have hl := h.toLinked.move hu hlt (p := p) (by rcases hp with rfl | rfl <;> simp [Point.sleeps])
  exact ⟨⟨hl.entry, hl.fork, hl.nodup, hl.sleep, hl.fresh⟩, fun _ hc => (nomatch hc)⟩

theorem Sound.answered (h : Sound s) (hrun : s.control = .running co) (refused : Bool) : Sound (s.answered co refused) := by
  simp only [Sched.answered]
  split
  · exact h.unwind hrun (.inl rfl)
  · exact h

theorem Sound.exitCommand (h : Sound s) (hrun : s.control = .running co) : Sound (s.exitCommand co) := by
  obtain ⟨hu, hlt⟩ := h.unused hrun
  have hl := h.toLinked.move hu hlt (p := .pooled) (by simp [Point.sleeps])
  exact ⟨⟨hl.entry, hl.fork, hl.nodup, hl.sleep, hl.fresh⟩, fun _ hc => (nomatch hc)⟩

theorem Sound.exit (h : Sound s) (hrun : s.control = .running co) : Sound (s.exit co) := by
  obtain ⟨hu, hlt⟩ := h.unused hrun
  have hl := h.toLinked.move hu hlt (p := .stuck) (by simp [Point.sleeps])
  exact ⟨⟨hl.entry, fun _ hmem => (nomatch hmem), List.nodup_nil, hl.sleep, hl.fresh⟩, fun _ hc => (nomatch hc)⟩

/-- The running coroutine yields with a session that brings it back. -/
theorem Sound.yieldSession (h : Sound s) (hrun : s.control = .running co) {point : Nat → Point}
    (hwaits : ∀ session, (point session).waits session) (hsleeps : ∀ x y, ¬(point x).sleeps y) :
    Sound (s.yieldSession co point) := by
  obtain ⟨hu, hlt⟩ := h.unused hrun
  have hl := h.toLinked.move hu hlt (p := point (s.session + 1)) (hsleeps _)
  refine ⟨⟨?_, hl.fork, hl.nodup, hl.sleep, hl.fresh⟩, fun _ hc => (nomatch hc)⟩
  intro session co' hs
  simp only [Sched.yieldSession] at hs ⊢
  by_cases hc : session = s.session + 1
  · subst hc
    simp only [Function.update_self, Option.some.injEq, Entry.co.injEq] at hs
    subst hs
    simpa only [Function.update_self] using hwaits _
  · simp only [Function.update_of_ne hc] at hs
    exact hl.entry session co' hs

theorem Sound.nap (h : Sound s) (hrun : s.control = .running co) {point : Nat → Point}
    (hsleeps : ∀ x y, (point x).sleeps y ↔ x = y) : Sound (s.nap co point) := by
  obtain ⟨hu, hlt⟩ := h.unused hrun
  refine ⟨⟨?_, ?_, h.nodup, ?_, ?_⟩, fun _ hc => (nomatch hc)⟩
  · intro session co' hs
    simp only [Sched.nap, Sched.yieldSession] at hs ⊢
    by_cases hc : session = s.session + 1
    · subst hc
      simp only [Function.update_self, Option.some.injEq, Entry.co.injEq] at hs
      subst hs
      rw [Function.update_self]
      exact ((hsleeps _ _).mpr rfl).waits
    · simp only [Function.update_of_ne hc] at hs
      have hne : co' ≠ co := by
        rintro rfl
        exact hu.noEntry session hs
      rw [Function.update_of_ne hne]
      exact h.entry session co' hs
  · intro co' hmem
    have hne : co' ≠ co := by
      rintro rfl
      exact hu.noFork hmem
    simp only [Sched.nap, Sched.yieldSession, Function.update_of_ne hne]
    exact h.fork co' hmem
  · intro co' session
    simp only [Sched.nap, Sched.yieldSession]
    by_cases hc : co' = co
    · subst hc
      simp only [Function.update_self, Option.some.injEq, hsleeps]
    · simp only [Function.update_of_ne hc]
      exact h.sleep co' session
  · intro co' hge
    have hne : co' ≠ co := by
      rintro rfl
      exact absurd hge (Nat.not_le_of_lt hlt)
    simp only [Sched.nap, Sched.yieldSession, Function.update_of_ne hne]
    exact h.fresh co' hge

/-- A coroutine is created: one that nothing refers to. -/
theorem Sound.create (h : Sound s) {p : Point} (hp : ∀ session, ¬p.sleeps session) (hc : s.create co p = some s') :
    Sound s' ∧ Unused s' co ∧ s'.point co = p ∧ s'.sessionIdCoroutine = s.sessionIdCoroutine ∧
      s'.forkQueue = s.forkQueue ∧ s'.control = s.control ∧ co < s'.coroutines := by
  have hcases : (co = s.coroutines ∧ s' = { s with coroutines := s.coroutines + 1, point := Function.update s.point co p }) ∨
      (s.point co = .pooled ∧ s' = { s with point := Function.update s.point co p }) := by
    simp only [Sched.create] at hc
    split at hc
    · rename_i hco
      exact .inl ⟨hco, (Option.some.inj hc).symm⟩
    · split at hc
      · rename_i hpool
        exact .inr ⟨hpool, (Option.some.inj hc).symm⟩
      · cases hc
  have hunused : Unused s co := by
    refine h.toLinked.unused ?_
    rcases hcases with ⟨hco, -⟩ | ⟨hpool, -⟩
    · rw [h.fresh co (by omega)]
      simp [Point.resumable, Point.waits]
    · rw [hpool]
      simp [Point.resumable, Point.waits]
  have hnotrunning : ∀ co', s.control = .running co' → co' ≠ co := by
    rintro co' hrun rfl
    have hp := h.running co' hrun
    rcases hcases with ⟨hco, -⟩ | ⟨hpool, -⟩
    · rw [h.fresh co' (by omega)] at hp
      cases hp
    · rw [hpool] at hp
      cases hp
  -- one more coroutine, at the end of the table
  have hgrow : Linked { s with coroutines := max s.coroutines (co + 1) } :=
    ⟨h.entry, h.fork, h.nodup, h.sleep, fun co' hge => h.fresh co' (by simp only at hge; omega)⟩
  have hl := hgrow.move ⟨hunused.noEntry, hunused.noFork, hunused.noSleep⟩ (by simp only; omega) hp
  have hrun : ∀ co', s.control = .running co' → Function.update s.point co p co' = .running := by
    intro co' hrun
    rw [Function.update_of_ne (hnotrunning co' hrun)]
    exact h.running co' hrun
  rcases hcases with ⟨hco, rfl⟩ | ⟨hpool, rfl⟩
  · refine ⟨⟨⟨hl.entry, hl.fork, hl.nodup, hl.sleep, ?_⟩, hrun⟩, ⟨hunused.noEntry, hunused.noFork, hunused.noSleep⟩,
      Function.update_self .., rfl, rfl, rfl, by simp only; omega⟩
    intro co' hge
    exact hl.fresh co' (by simp only at hge ⊢; omega)
  · have hlt := h.toLinked.lt (by rw [hpool]; exact nofun)
    refine ⟨⟨⟨hl.entry, hl.fork, hl.nodup, hl.sleep, ?_⟩, hrun⟩, ⟨hunused.noEntry, hunused.noFork, hunused.noSleep⟩,
      Function.update_self .., rfl, rfl, rfl, hlt⟩
    intro co' hge
    exact hl.fresh co' (by simp only at hge ⊢; omega)

theorem Sound.forked (h : Sound s) (hf : s.fork co = some s') : Sound s' := by
  rw [Sched.fork, Option.map_eq_some_iff] at hf
  obtain ⟨t, ht, rfl⟩ := hf
  obtain ⟨hsound, hu, hnew, -, -, -, -⟩ := h.create (by simp [Point.sleeps]) ht
  refine ⟨⟨hsound.entry, ?_, ?_, hsound.sleep, hsound.fresh⟩, hsound.running⟩
  · intro co' hmem
    rcases List.mem_append.mp hmem with hmem | hmem
    · exact hsound.fork co' hmem
    · obtain rfl := List.mem_singleton.mp hmem
      exact hnew
  · rw [List.nodup_append_comm, List.singleton_append, List.nodup_cons]
    exact ⟨hu.noFork, hsound.nodup⟩

theorem Sound.timeout (h : Sound s) (hf : s.timeout co = some s') : Sound s' := by
  rw [Sched.timeout, Option.map_eq_some_iff] at hf
  obtain ⟨t, ht, rfl⟩ := hf
  obtain ⟨hsound, -, hnew, -, -, -, -⟩ := h.create (by simp [Point.sleeps]) ht
  refine ⟨⟨?_, hsound.fork, hsound.nodup, hsound.sleep, hsound.fresh⟩, hsound.running⟩
  intro session co' hs
  by_cases hc : session = s.session + 1
  · subst hc
    simp only [Function.update_self, Option.some.injEq, Entry.co.injEq] at hs
    subst hs
    exact .inr (.inr (.inr hnew))
  · simp only [Function.update_of_ne hc] at hs
    exact hsound.entry session co' hs

/-- A coroutine that has just been created is resumed. -/
theorem Sound.started (h : Sound s) (hc : s.create co .new = some s') :
    ∃ s'', s'.resume co = some s'' ∧ Sound s'' := by
  obtain ⟨hsound, hu, hnew, -, -, -, -⟩ := h.create (by simp [Point.sleeps]) hc
  have hready : Ready s' co := { hsound with resumable := .inl hnew, noEntry := hu.noEntry, noFork := hu.noFork }
  exact hready.resume

/-- Only the error queue changes. -/
theorem errorDispatch_eq {source session : Nat} {order : List Nat} (hd : s.errorDispatch source session order = some s') :
    ∃ queue, s' = { s with errorQueue := queue } := by
  simp only [Sched.errorDispatch] at hd
  split at hd
  · split at hd
    · cases hd
      exact ⟨_, rfl⟩
    · cases hd
  · split at hd
    · cases hd
      exact ⟨_, rfl⟩
    · cases hd
      exact ⟨_, rfl⟩

/-- The coroutine of an error message has ended. -/
theorem Sound.reported (h : Sound s) (hc : s.create co .new = some s') {queue : List Nat} :
    Sound (Sched.exitCommand { s' with errorQueue := queue } co) := by
  obtain ⟨hsound, hu, -, -, -, -, hlt⟩ := h.create (by simp [Point.sleeps]) hc
  have hl := hsound.toLinked.move hu hlt (p := .pooled) (by simp [Point.sleeps])
  exact ⟨⟨hl.entry, hl.fork, hl.nodup, hl.sleep, hl.fresh⟩, fun _ hc => (nomatch hc)⟩

/-- What a successful `dispatch_wakeup` has resumed. -/
theorem Sound.dispatchWakeup (h : Sound s) {next : Option Nat} (hd : s.dispatchWakeup next = some s') : Sound s' := by
  cases next with
  | none =>
    simp only [Sched.dispatchWakeup] at hd
    split at hd
    · cases hd
      exact ⟨⟨h.entry, h.fork, h.nodup, h.sleep, h.fresh⟩, fun _ hc => (nomatch hc)⟩
    · cases hd
  | some co =>
    simp only [Sched.dispatchWakeup] at hd
    split at hd
    · split at hd
      · cases hd
        exact ⟨⟨h.entry, h.fork, h.nodup, h.sleep, h.fresh⟩, fun _ hc => (nomatch hc)⟩
      · rename_i session hsession
        have hsleeps := (h.sleep co session).mp hsession
        have hready : Ready { s with wakeupSession := s.wakeupSession.erase co,
                                     sessionIdCoroutine := Function.update s.sessionIdCoroutine session (some .break),
                                     woken := s.woken ++ [(co, s.mark co, s.naps co)], depth := s.depth + 1 } co := by
          refine ⟨⟨?_, h.fork, h.nodup, h.sleep, h.fresh⟩, .inr ⟨session, hsleeps.waits⟩, ?_, ?_⟩
          · intro session' co' hs
            by_cases hc : session' = session
            · subst hc
              simp only [Function.update_self, Option.some.injEq, reduceCtorEq] at hs
            · simp only [Function.update_of_ne hc] at hs
              exact h.entry session' co' hs
          · intro session' hs
            by_cases hc : session' = session
            · subst hc
              simp only [Function.update_self, Option.some.injEq, reduceCtorEq] at hs
            · simp only [Function.update_of_ne hc] at hs
              exact hc ((h.entry session' co hs).inj hsleeps.waits)
          · intro hmem
            have hnew := h.fork co hmem
            rw [hnew] at hsleeps
            simp [Point.sleeps] at hsleeps
        obtain ⟨t, ht, hsound⟩ := hready.resume
        rw [ht] at hd
        cases hd
        exact hsound
    · cases hd

theorem Sound.dispatchErrorQueue (h : Sound s) (hd : s.dispatchErrorQueue = some s') : Sound s' := by
  simp only [Sched.dispatchErrorQueue] at hd
  split at hd
  · cases hd
    exact ⟨⟨h.entry, h.fork, h.nodup, h.sleep, h.fresh⟩, fun _ hc => (nomatch hc)⟩
  · rename_i session rest _
    split at hd
    · rename_i co hco
      have hr := h.ready hco (e := none) (fun _ => nofun)
      have hready : Ready { s with errorQueue := rest,
                                   sessionIdCoroutine := Function.update s.sessionIdCoroutine session none } co :=
        ⟨⟨hr.entry, hr.fork, hr.nodup, hr.sleep, hr.fresh⟩, hr.resumable, hr.noEntry, hr.noFork⟩
      obtain ⟨t, ht, hsound⟩ := hready.resume
      rw [ht] at hd
      cases hd
      exact hsound
    · cases hd
      have hl := h.dropEntry session (e := none) (fun _ => nofun) (fun _ (hc : Control.forks = .running _) => (nomatch hc))
      exact ⟨⟨hl.entry, hl.fork, hl.nodup, hl.sleep, hl.fresh⟩, hl.running⟩

theorem Sound.returned (h : Sound s) : Sound s.returned := by
  simp only [Sched.returned]
  split
  · exact ⟨⟨h.entry, h.fork, h.nodup, h.sleep, h.fresh⟩, fun _ hc => (nomatch hc)⟩
  · exact ⟨⟨h.entry, h.fork, h.nodup, h.sleep, h.fresh⟩, fun _ hc => (nomatch hc)⟩

theorem Sound.dispatchFork (h : Sound s) {next : Option Nat} (hd : s.dispatchFork next = some s') : Sound s' := by
  cases next with
  | none =>
    simp only [Sched.dispatchFork] at hd
    split at hd
    · cases hd
      exact ⟨⟨h.entry, h.fork, h.nodup, h.sleep, h.fresh⟩, fun _ hc => (nomatch hc)⟩
    · cases hd
  | some co =>
    simp only [Sched.dispatchFork] at hd
    split at hd
    · rename_i hmem
      have hnew := h.fork co hmem
      have hready : Ready { s with forkQueue := s.forkQueue.erase co } co := by
        refine ⟨⟨h.entry, ?_, h.nodup.erase co, h.sleep, h.fresh⟩, .inl hnew, ?_, h.nodup.not_mem_erase⟩
        · exact fun co' hmem' => h.fork co' (List.mem_of_mem_erase hmem')
        · intro session hs
          have := h.entry session co hs
          rw [hnew] at this
          simp [Point.waits] at this
      obtain ⟨t, ht, hsound⟩ := hready.resume
      rw [ht] at hd
      cases hd
      exact hsound
    · cases hd

theorem Sound.wakeup (h : Sound s) (co : Nat) : Sound (s.wakeup co) := by
  simp only [Sched.wakeup]
  split
  · exact ⟨⟨h.entry, h.fork, h.nodup, h.sleep, h.fresh⟩, h.running⟩
  · exact h

/-! ### Ends -/

/-- No coroutine ends, and none is created. -/
structure Going (s s' : Sched) : Prop where
  quit : s'.quit = s.quit
  coroutines : s'.coroutines = s.coroutines
  ended : ∀ x, (s'.point x).ended = true → s'.point x = s.point x

theorem Going.of_eq (hq : s'.quit = s.quit) (hc : s'.coroutines = s.coroutines) (hp : s'.point = s.point) : Going s s' :=
  ⟨hq, hc, fun x _ => by rw [hp]⟩

theorem Going.of_update {p : Point} (hq : s'.quit = s.quit) (hc : s'.coroutines = s.coroutines)
    (hp : s'.point = Function.update s.point co p) (he : p.ended = false) : Going s s' := by
  refine ⟨hq, hc, ?_⟩
  intro x hx
  rw [hp] at hx ⊢
  by_cases hxc : x = co
  · subst hxc
    rw [Function.update_self, he] at hx
    cases hx
  · rw [Function.update_of_ne hxc]

theorem Going.resume (hr : s.resume co = some s') : Going s s' := by
  simp only [Sched.resume] at hr
  split at hr
  · cases hr
    exact Going.of_update rfl rfl rfl rfl
  · cases hr
    exact Going.of_update rfl rfl rfl rfl
  · cases hr
    exact Going.of_update rfl rfl rfl rfl
  · cases hr
    exact Going.of_update rfl rfl rfl rfl
  · cases hr
    exact Going.of_update rfl rfl rfl rfl
  · cases hr

theorem Going.answered (co : Nat) (refused : Bool) : Going s (s.answered co refused) := by
  simp only [Sched.answered]
  split
  · exact Going.of_update rfl rfl rfl rfl
  · exact Going.of_eq rfl rfl rfl

theorem Going.wakeup (s : Sched) (co : Nat) : Going s (s.wakeup co) := by
  simp only [Sched.wakeup]
  split
  · exact Going.of_eq rfl rfl rfl
  · exact Going.of_eq rfl rfl rfl

theorem Going.dispatchWakeup {next : Option Nat} (hd : s.dispatchWakeup next = some s') : Going s s' := by
  cases next with
  | none =>
    simp only [Sched.dispatchWakeup] at hd
    split at hd
    · cases hd
      exact Going.of_eq rfl rfl rfl
    · cases hd
  | some co =>
    simp only [Sched.dispatchWakeup] at hd
    split at hd
    · split at hd
      · cases hd
        exact Going.of_eq rfl rfl rfl
      · have hg := Going.resume hd
        exact ⟨hg.quit, hg.coroutines, hg.ended⟩
    · cases hd

theorem Going.dispatchErrorQueue (hd : s.dispatchErrorQueue = some s') : Going s s' := by
  simp only [Sched.dispatchErrorQueue] at hd
  split at hd
  · cases hd
    exact Going.of_eq rfl rfl rfl
  · split at hd
    · have hg := Going.resume hd
      exact ⟨hg.quit, hg.coroutines, hg.ended⟩
    · cases hd
      exact Going.of_eq rfl rfl rfl

theorem Going.returned (s : Sched) : Going s s.returned := by
  simp only [Sched.returned]
  split
  · exact Going.of_eq rfl rfl rfl
  · exact Going.of_eq rfl rfl rfl

theorem Going.dispatchFork {next : Option Nat} (hd : s.dispatchFork next = some s') : Going s s' := by
  cases next with
  | none =>
    simp only [Sched.dispatchFork] at hd
    split at hd
    · cases hd
      exact Going.of_eq rfl rfl rfl
    · cases hd
  | some co =>
    simp only [Sched.dispatchFork] at hd
    split at hd
    · have hg := Going.resume hd
      exact ⟨hg.quit, hg.coroutines, hg.ended⟩
    · cases hd

end Sched

section Step

variable {s s' : State}

theorem sound_perform {co : Nat} {o : Op} (h : Sound s.sched) (hrun : s.sched.control = .running co)
    (hp : perform s co o = some s') : Sound s'.sched := by
  cases o with
  | call service =>
    cases hp
    have hy := h.yieldSession hrun (fun _ => .inl rfl) (by simp [Point.sleeps])
    exact ⟨⟨hy.entry, hy.fork, hy.nodup, hy.sleep, hy.fresh⟩, hy.running⟩
  | sleep =>
    cases hp
    exact h.nap hrun (by simp [Point.sleeps])
  | wait =>
    cases hp
    exact h.nap hrun (by simp [Point.sleeps])
  | wakeup other =>
    cases hp
    exact h.wakeup other
  | fork new =>
    rw [perform, Option.map_eq_some_iff] at hp
    obtain ⟨sched, hf, rfl⟩ := hp
    exact h.forked hf
  | timeout new =>
    rw [perform, Option.map_eq_some_iff] at hp
    obtain ⟨sched, hf, rfl⟩ := hp
    exact h.timeout hf
  | ret fits =>
    simp only [perform, Option.some.injEq] at hp
    subst hp
    exact h.answered hrun _
  | response =>
    simp only [perform, Option.some.injEq] at hp
    subst hp
    exact h.answered hrun _
  | respond k ok fits => cases hp; exact h
  | test k => cases hp; exact h
  | finish => cases hp; exact h.exitCommand hrun
  | raise => cases hp; exact h.unwind hrun (.inr rfl)
  | exit => cases hp; exact h.exit hrun

theorem sound_dispatch {m : Message} (h : Sound s.sched) (hd : dispatch s m = some s') : Sound s'.sched := by
  cases m with
  | response session =>
    simp only [dispatch] at hd
    split at hd
    · cases hd
      exact h.dropEntry session (e := none) (fun _ => nofun) fun _ hc => (nomatch hc)
    · cases hd
      exact ⟨⟨h.entry, h.fork, h.nodup, h.sleep, h.fresh⟩, fun _ hc => (nomatch hc)⟩
    · rename_i co hco
      obtain ⟨t, ht, hsound⟩ := (h.ready hco (e := none) (fun _ => nofun)).resume
      rw [ht] at hd
      cases hd
      exact hsound
  | request source session co unpacks =>
    simp only [dispatch] at hd
    split at hd
    · cases hd
    · rename_i sched hsched
      split at hd
      · obtain ⟨t, ht, hsound⟩ := h.started hsched
        rw [ht] at hd
        cases hd
        exact hsound
      · cases hd
        have hc := (h.create (by simp [Point.sleeps]) hsched).1
        exact ⟨⟨hc.entry, hc.fork, hc.nodup, hc.sleep, hc.fresh⟩, fun _ hc => (nomatch hc)⟩
  | error source session co order =>
    simp only [dispatch] at hd
    split at hd
    · cases hd
    · rename_i sched hsched
      rw [Option.map_eq_some_iff] at hd
      obtain ⟨t, ht, rfl⟩ := hd
      obtain ⟨queue, rfl⟩ := errorDispatch_eq ht
      exact h.reported hsched
  | unknown source session hasProto =>
    cases hd
    exact ⟨⟨h.entry, h.fork, h.nodup, h.sleep, h.fresh⟩, fun _ hc => (nomatch hc)⟩

theorem sound_step {a : Label} (h : Sound s.sched) (hs : step s a = some s') : Sound s'.sched := by
  cases a with
  | die address => cases hs; exact h
  | message m =>
    simp only [step] at hs
    split at hs
    · exact sound_dispatch h hs
    · cases hs
  | op o =>
    simp only [step] at hs
    split at hs
    · rename_i co hrun
      exact sound_perform h hrun hs
    · cases hs
  | wakeup next =>
    simp only [step] at hs
    split at hs
    · rw [Option.map_eq_some_iff] at hs
      obtain ⟨sched, hd, rfl⟩ := hs
      exact h.dispatchWakeup hd
    · cases hs
  | errors =>
    simp only [step] at hs
    split at hs
    · rw [Option.map_eq_some_iff] at hs
      obtain ⟨sched, hd, rfl⟩ := hs
      exact h.dispatchErrorQueue hd
    · cases hs
  | returned =>
    simp only [step] at hs
    split at hs
    · cases hs
      exact h.returned
    · cases hs
  | forks next =>
    simp only [step] at hs
    split at hs
    · rw [Option.map_eq_some_iff] at hs
      obtain ⟨sched, hd, rfl⟩ := hs
      exact h.dispatchFork hd
    · cases hs

end Step

end Dispatch
end Skynet
