import Skynet.HandleRegistry

/-!
# Skynet.Launch

Concurrent launches. `skynet_context_new` writes `ctx->handle = 0`, registers the context under
the write lock and stores the returned handle in a second, unlocked step. A doubling between the
two reads the 0 and files the context under slot 0.

* `launch_race` : two interleaved launches after which a launched service cannot be grabbed, and
  two others that fail `assert(new_slot[hash] == NULL)`.
* `launch_safe` : neither happens in a run in which every doubling finds the handles of
  the contexts between their two steps to have zeros in all the bits it reads.
-/

namespace Skynet
namespace Handle

/-- How far the launch of a context has come. -/
inductive Phase where
  | idle
  /-- registered; the handle is still in a local variable of the launcher -/
  | registered (handle : Nat)
  /-- the handle is stored in the context -/
  | launched (handle : Nat)
deriving DecidableEq, Repr

structure Launches where
  store : HandleStorage
  /-- `ctx->handle` of every context. -/
  handle : CtxId → Nat
  phase : CtxId → Phase
  /-- `skynet_handle_retire` has taken the context out of the table since its registration. -/
  retired : CtxId → Bool
  /-- `assert(new_slot[hash] == NULL)` has failed. -/
  failed : Bool

inductive LaunchStep where
  /-- `ctx->handle = 0; skynet_handle_register(ctx)` -/
  | register (ctx : CtxId)
  /-- `ctx->handle = ` the returned handle -/
  | store (ctx : CtxId)
  | retire (handle : Nat)

def Launches.init (harbor : Nat) : Launches where
  store := skynetHandleInit harbor
  handle := fun _ => 0
  phase := fun _ => .idle
  retired := fun _ => false
  failed := false

/-- An address is free for a new context when no launch uses it. -/
def Launches.free (s : Launches) (ctx : CtxId) : Bool :=
  match s.phase ctx with
  | .idle => true
  | .registered _ => false
  | .launched _ => s.retired ctx

def Launches.step (s : Launches) (a : LaunchStep) : Option Launches :=
  if s.failed then none else
  match a with
  | .register ctx =>
    if s.free ctx then
      match skynetHandleRegister (Function.update s.handle ctx 0) s.store ctx with
      | .ok (store, handle) =>
        some { s with store := store, handle := Function.update s.handle ctx 0,
                      phase := Function.update s.phase ctx (.registered handle),
                      retired := Function.update s.retired ctx false }
      | .error .newSlotTaken => some { s with failed := true }
      | .error _ => none
    else none
  | .store ctx =>
    match s.phase ctx with
    | .registered handle =>
      some { s with handle := Function.update s.handle ctx handle,
                    phase := Function.update s.phase ctx (.launched handle) }
    | _ => none
  | .retire handle =>
    match skynetHandleRetire s.handle s.store handle with
    | (store, some ctx) => some { s with store := store, retired := Function.update s.retired ctx true }
    | (store, none) => some { s with store := store }

/-- What a launch promises: the rehash assertion has not failed, and every service whose launch is
done and that is not retired is found under its handle. -/
def Launches.Good (s : Launches) : Prop :=
  s.failed = false ∧ ∀ c handle, s.phase c = .launched handle → s.retired c = false →
    skynetHandleGrab s.handle s.store handle = some c

/-- The condition on a registration: if it has to double the table, each context between its two
steps has a handle whose low bits, at the doubled size, are all 0. -/
def Launches.Calm (s : Launches) : LaunchStep → Prop
  | .register _ => findFree s.store = none → ∀ d handle, s.phase d = .registered handle →
      s.retired d = false → handle &&& (s.store.slotSize * 2 - 1) = 0
  | _ => True

/-- The handle a launch was given. -/
def Phase.own : Phase → Nat
  | .idle => 0
  | .registered handle => handle
  | .launched handle => handle

/-- What `ctx->handle` holds in each phase of a launch. -/
def Phase.Holds : Phase → Nat → Prop
  | .idle, _ => True
  | .registered _, v => v = 0
  | .launched handle, v => v = handle

structure Launches.Inv (s : Launches) : Prop where
  ok : s.failed = false
  placed : Placed (fun c => (s.phase c).own) s.store
  holds : ∀ c, (s.phase c).Holds (s.handle c)
  inTable : ∀ c, InTable s.store c ↔ s.phase c ≠ .idle ∧ s.retired c = false

theorem Launches.init_inv (harbor : Nat) : (Launches.init harbor).Inv where
  ok := rfl
  placed := skynetHandleInit_placed _ harbor
  holds := fun _ => trivial
  inTable := fun c => iff_of_false (not_inTable_init harbor c) (fun h => h.1 rfl)

/-- In a calm registration the handles read by a doubling agree with the launches' own. -/
theorem Launches.Inv.register {s : Launches} (inv : s.Inv) {ctx : CtxId} (hfree : s.free ctx = true)
    (hcalm : s.Calm (.register ctx)) :
    skynetHandleRegister (Function.update s.handle ctx 0) s.store ctx = .error .tableFull ∨
      ∃ store handle, skynetHandleRegister (Function.update s.handle ctx 0) s.store ctx =
          .ok (store, handle) ∧ Registered (fun c => (s.phase c).own) s.store store ctx handle := by
  have hctx : ¬ InTable s.store ctx := by
    rw [inv.inTable]
    rintro ⟨hi, hr⟩
    simp only [Launches.free] at hfree
    split at hfree
    · exact hi ‹_›
    · cases hfree
    · rw [hr] at hfree; cases hfree
  refine register_spec inv.placed hctx fun hff c hc => ?_
  have hne : c ≠ ctx := by rintro rfl; exact hctx hc
  obtain ⟨hi, hr⟩ := (inv.inTable c).mp hc
  have hold := inv.holds c
  rw [Function.update_of_ne hne]
  cases hp : s.phase c with
  | idle => exact absurd hp hi
  | registered handle =>
    rw [hp] at hold
    rw [show s.handle c = 0 from hold, Nat.zero_and]
    exact (hcalm hff c handle hp hr).symm
  | launched handle =>
    rw [hp] at hold
    rw [show s.handle c = handle from hold]; rfl

theorem Launches.step_inv (s : Launches) (a : LaunchStep) (s' : Launches) (inv : s.Inv)
    (hcalm : s.Calm a) (h : s.step a = some s') : s'.Inv := by
  simp only [Launches.step, inv.ok] at h
  cases a with
  | register ctx =>
    simp only [Bool.false_eq_true, if_false] at h
    split at h
    · rename_i hfree
      rcases inv.register hfree hcalm with hf | ⟨store, handle, hr, r⟩
      · rw [hf] at h; cases h
      · rw [hr] at h; cases h
        refine ⟨rfl, ?_, fun c => ?_, fun c => ?_⟩
        · refine r.placed.congr fun c _ => ?_
          by_cases hc : c = ctx
          · subst hc; simp [Phase.own]
          · simp [Function.update_of_ne hc]
        · by_cases hc : c = ctx
          · subst hc; simp [Phase.Holds]
          · simp only [Function.update_of_ne hc]; exact inv.holds c
        · rw [r.inTable, inv.inTable]
          by_cases hc : c = ctx
          · subst hc; simp
          · simp [hc]
    · cases h
  | store ctx =>
    simp only [Bool.false_eq_true, if_false] at h
    split at h
    · rename_i handle hp
      cases h
      refine ⟨rfl, ?_, fun c => ?_, fun c => ?_⟩
      · refine inv.placed.congr fun c _ => ?_
        by_cases hc : c = ctx
        · subst hc; simp [Phase.own, hp]
        · simp [Function.update_of_ne hc]
      · by_cases hc : c = ctx
        · subst hc; simp [Phase.Holds]
        · simp only [Function.update_of_ne hc]; exact inv.holds c
      · rw [inv.inTable]
        by_cases hc : c = ctx
        · subst hc; simp [hp]
        · simp [hc]
    · cases h
  | retire handle =>
    simp only [Bool.false_eq_true, if_false] at h
    obtain ⟨hp, hin⟩ := retire_spec s.handle inv.placed handle
    rw [← retire_snd] at hin
    split at h
    · rename_i store ctx he
      cases h
      rw [he] at hp hin
      refine ⟨rfl, hp, inv.holds, fun c => ?_⟩
      rw [hin, inv.inTable]
      by_cases hc : c = ctx
      · subst hc; simp
      · simp [hc, Ne.symm hc]
    · rename_i store he
      cases h
      rw [he] at hp hin
      exact ⟨rfl, hp, inv.holds, fun c => by rw [hin, inv.inTable]; simp⟩

theorem Launches.Inv.good {s : Launches} (inv : s.Inv) : s.Good := by
  refine ⟨inv.ok, fun c handle hp hr => ?_⟩
  have hold : s.handle c = handle := by have := inv.holds c; rw [hp] at this; exact this
  have hin : InTable s.store c := (inv.inTable c).mpr ⟨by simp [hp], hr⟩
  exact (grab_spec inv.placed fun _ => by rw [hold, hp]; rfl).mpr ⟨hin, hold⟩

/-- In every run whose registrations are all calm, every state reached is good. -/
theorem launch_safe (harbor : Nat) (as : List LaunchStep) (s : Launches)
    (h : Lts.run Launches.step (Launches.init harbor) as = some s)
    (hcalm : Lts.Guarded Launches.step Launches.Calm (Launches.init harbor) as) : s.Good :=
  (Lts.run_invariant_of_guarded Launches.step_inv h hcalm (Launches.init_inv harbor)).good

/-! ## Launches one after the other -/

/-- No launch is between its two steps. -/
def Launches.Settled (s : Launches) : Prop := ∀ c handle, s.phase c ≠ .registered handle

def sequential (cs : List CtxId) : List LaunchStep := cs.flatMap fun c => [.register c, .store c]

theorem Launches.settled_launch {s t u : Launches} {c : CtxId} (hs : s.Settled)
    (ht : s.step (.register c) = some t) (hu : t.step (.store c) = some u) : u.Settled := by
  have hphase : ∀ d, d ≠ c → t.phase d = s.phase d := by
    intro d hd
    simp only [Launches.step] at ht
    repeat' split at ht
    all_goals cases ht <;> simp [Function.update_of_ne hd]
  intro d handle
  simp only [Launches.step] at hu
  repeat' split at hu
  all_goals cases hu
  by_cases hd : d = c
  · subst hd; simp
  · simp only [Function.update_of_ne hd, hphase d hd]; exact hs d handle

/-- Launches that are not interleaved are calm, however often they double the table. -/
theorem sequential_calm (cs : List CtxId) (s : Launches) (hs : s.Settled) :
    Lts.Guarded Launches.step Launches.Calm s (sequential cs) := by
  induction cs generalizing s with
  | nil => trivial
  | cons c cs ih =>
    refine ⟨fun _ d handle hp _ => absurd hp (hs d handle), fun t ht => ⟨trivial, fun u hu => ?_⟩⟩
    exact ih u (Launches.settled_launch hs ht hu)

/-- Five launches in a row, the last of which doubles the table. -/
theorem launch_safe_sequential :
    ∃ s, Lts.run Launches.step (Launches.init 1) (sequential [1, 2, 3, 4, 5]) = some s ∧
      s.store.slotSize = 8 ∧ s.Good := by
  obtain ⟨s, hs⟩ := Option.isSome_iff_exists.mp
    (show (Lts.run Launches.step (Launches.init 1) (sequential [1, 2, 3, 4, 5])).isSome = true
      by decide)
  have hsz : (Lts.run Launches.step (Launches.init 1) (sequential [1, 2, 3, 4, 5])).map
      (·.store.slotSize) = some 8 := by decide
  rw [hs, Option.map_some, Option.some.injEq] at hsz
  exact ⟨s, hs, hsz, launch_safe 1 _ s hs (sequential_calm _ _ fun _ _ h => by cases h)⟩

/-! ## The race -/

/-- The fifth registration doubles the table between the two steps of the fourth launch. -/
def lostLaunch : List LaunchStep :=
  sequential [1, 2, 3] ++ ([.register 4, .register 5, .store 4, .store 5] : List LaunchStep)

/-- The fifth registration doubles the table between the two steps of two launches. -/
def abortedLaunch : List LaunchStep := sequential [1, 2] ++ ([.register 3, .register 4, .register 5] : List LaunchStep)

/-- Not every run is good: after `lostLaunch` the fourth service, launched under 0x1000004 and not
retired, is not found under that handle; `abortedLaunch` fails the rehash assertion. -/
theorem launch_race :
    ¬ (∀ as s, Lts.run Launches.step (Launches.init 1) as = some s → s.Good) ∧
    (Lts.run Launches.step (Launches.init 1) lostLaunch).map
        (fun s => (s.phase 4, s.retired 4, skynetHandleGrab s.handle s.store 0x1000004)) =
      some (.launched 0x1000004, false, none) ∧
    (Lts.run Launches.step (Launches.init 1) abortedLaunch).map (·.failed) = some true := by
  have hlost : (Lts.run Launches.step (Launches.init 1) lostLaunch).map
        (fun s => (s.phase 4, s.retired 4, skynetHandleGrab s.handle s.store 0x1000004)) =
      some (.launched 0x1000004, false, none) := by decide
  refine ⟨fun hall => ?_, hlost, by decide⟩
  obtain ⟨s, hs, he⟩ := Option.map_eq_some_iff.mp hlost
  simp only [Prod.mk.injEq] at he
  have := (hall lostLaunch s hs).2 4 0x1000004 he.1 he.2.1
  rw [he.2.2] at this; cases this

end Handle
end Skynet
