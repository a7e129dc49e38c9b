import Skynet.Lib.Run
import Skynet.HandleSpec

/-!
# Skynet.HandleRegistry

The handle storage as a registry: sequences of `skynet_handle_register` (the returned handle
stored in the context before the next operation), `skynet_handle_retire` and
`skynet_handle_grab` from `skynet_handle_init`.

The abstract registry is the partial map `live` from contexts to the handles they were given. It
is kept beside the table and never read by it; `registry_faithful` says that the table answers
as the map does, through every wrap of the allocation index and every doubling.
-/

namespace Skynet
namespace Handle

structure Registry where
  store : HandleStorage
  /-- `ctx->handle` of every context. -/
  handle : CtxId → Nat
  /-- The abstract registry: the handle of each context registered and not retired since. -/
  live : CtxId → Option Nat

inductive Op where
  | register (ctx : CtxId)
  | retire (handle : Nat)
  | grab (handle : Nat)

def Registry.init (harbor : Nat) : Registry where
  store := skynetHandleInit harbor
  handle := fun _ => 0
  live := fun _ => none

/-- One operation. A context is registered right after it was allocated, so never while it is
live; a failed assertion ends the run. -/
def Registry.step (s : Registry) : Op → Option Registry
  | .register ctx =>
    if s.live ctx = none then
      match skynetHandleRegister (Function.update s.handle ctx 0) s.store ctx with
      | .ok (store, handle) =>
        some { store := store, handle := Function.update s.handle ctx handle,
               live := Function.update s.live ctx (some handle) }
      | .error _ => none
    else none
  | .retire handle =>
    some { s with store := (skynetHandleRetire s.handle s.store handle).1,
                  live := fun c => if s.live c = some handle then none else s.live c }
  | .grab _ => some s

/-- The table holds exactly the live contexts, each with its handle stored and in its slot. -/
structure Registry.Inv (s : Registry) : Prop where
  placed : Placed s.handle s.store
  inTable : ∀ c, InTable s.store c ↔ s.live c ≠ none
  stored : ∀ c h, s.live c = some h → s.handle c = h

theorem skynetHandleInit_placed (own : CtxId → Nat) (harbor : Nat) :
    Placed own (skynetHandleInit harbor) :=
  ⟨⟨2, by decide, rfl⟩, ⟨_, rfl⟩, fun i c h => by cases h⟩

theorem not_inTable_init (harbor : Nat) (c : CtxId) : ¬ InTable (skynetHandleInit harbor) c := by
  rintro ⟨_, h⟩; cases h

theorem Registry.init_inv (harbor : Nat) : (Registry.init harbor).Inv where
  placed := skynetHandleInit_placed _ harbor
  inTable := fun c => iff_of_false (not_inTable_init harbor c) (fun h => h rfl)
  stored := fun c h hc => by cases hc

/-- `Placed` reads the handles of the contexts in the table only. -/
theorem Placed.congr {own own' : CtxId → Nat} {s : HandleStorage} (p : Placed own s)
    (h : ∀ c, InTable s c → own' c = own c) : Placed own' s :=
  ⟨p.size, p.harbor, fun i c hi => by rw [h c ⟨i, hi⟩]; exact p.slot_own i c hi⟩

theorem Registry.Inv.register {s : Registry} (inv : s.Inv) {ctx : CtxId} (hl : s.live ctx = none) :
    skynetHandleRegister (Function.update s.handle ctx 0) s.store ctx = .error .tableFull ∨
      ∃ store handle, skynetHandleRegister (Function.update s.handle ctx 0) s.store ctx =
          .ok (store, handle) ∧ Registered s.handle s.store store ctx handle := by
  have hctx : ¬ InTable s.store ctx := fun h => (inv.inTable ctx).mp h hl
  refine register_spec inv.placed hctx fun _ c hc => ?_
  have hne : c ≠ ctx := by rintro rfl; exact hctx hc
  rw [Function.update_of_ne hne]

theorem Registry.Inv.grab_iff {s : Registry} (inv : s.Inv) (h : Nat) (c : CtxId) :
    skynetHandleGrab s.handle s.store h = some c ↔ s.live c = some h := by
  rw [grab_spec inv.placed fun _ => rfl, inv.inTable]
  constructor
  · rintro ⟨hl, he⟩
    obtain ⟨h', hh⟩ := Option.ne_none_iff_exists'.mp hl
    rw [hh, ← he, inv.stored c h' hh]
  · intro hl; exact ⟨by simp [hl], inv.stored c h hl⟩

theorem Registry.step_inv (s : Registry) (op : Op) (s' : Registry) (inv : s.Inv)
    (h : s.step op = some s') : s'.Inv := by
  cases op with
  | register ctx =>
    simp only [Registry.step] at h
    split at h
    · rename_i hl
      rcases inv.register hl with hf | ⟨store, handle, hr, r⟩
      · rw [hf] at h; cases h
      · rw [hr] at h; cases h
        refine ⟨r.placed, fun c => ?_, fun c h' hc => ?_⟩
        · rw [r.inTable, inv.inTable]
          by_cases hcc : c = ctx
          · subst hcc; simp
          · simp [hcc]
        · by_cases hcc : c = ctx
          · subst hcc; simpa using hc
          · simp only [Function.update_of_ne hcc] at hc ⊢; exact inv.stored c h' hc
    · cases h
  | retire handle =>
    simp only [Registry.step, Option.some.injEq] at h
    subst h
    obtain ⟨hp, hin⟩ := retire_spec s.handle inv.placed handle
    refine ⟨hp, fun c => ?_, fun c h' hc => ?_⟩
    · rw [hin, inv.inTable, ne_eq (skynetHandleGrab s.handle s.store handle), inv.grab_iff]
      by_cases hc : s.live c = some handle <;> simp [hc]
    · simp only at hc
      split at hc
      · cases hc
      · exact inv.stored c h' hc
  | grab _ => cases h; exact inv

/-- **The handle storage is a faithful registry.** After every sequence of operations: no two live
contexts have one handle; each live context holds its handle and sits in the slot of its low
bits; registering one more context never fails the rehash assertion; `skynet_handle_grab`
answers exactly the live context of a handle; `skynet_handle_retire` releases and removes
exactly that context. -/
theorem registry_faithful (harbor : Nat) (ops : List Op) (s : Registry)
    (h : Lts.run Registry.step (Registry.init harbor) ops = some s) :
    (∀ c d handle, s.live c = some handle → s.live d = some handle → c = d) ∧
    (∀ c handle, s.live c = some handle → s.handle c = handle ∧
      s.store.slot (handle &&& (s.store.slotSize - 1)) = some c) ∧
    (∀ ctx, s.live ctx = none →
      skynetHandleRegister (Function.update s.handle ctx 0) s.store ctx ≠ .error .newSlotTaken) ∧
    (∀ handle c, skynetHandleGrab s.handle s.store handle = some c ↔ s.live c = some handle) ∧
    (∀ handle, (∀ c, (skynetHandleRetire s.handle s.store handle).2 = some c ↔ s.live c = some handle) ∧
      ∀ c, InTable (skynetHandleRetire s.handle s.store handle).1 c ↔
        InTable s.store c ∧ s.live c ≠ some handle) := by
  have inv : s.Inv := Lts.run_invariant Registry.step_inv h (Registry.init_inv harbor)
  have hslot : ∀ c handle, s.live c = some handle →
      s.store.slot (handle &&& (s.store.slotSize - 1)) = some c := by
    intro c handle hc
    obtain ⟨i, hi⟩ := (inv.inTable c).mpr (by simp [hc])
    have := inv.placed.slot_own i c hi
    rw [inv.stored c handle hc] at this
    rwa [this] at hi
  refine ⟨?_, fun c handle hc => ⟨inv.stored c handle hc, hslot c handle hc⟩, ?_, inv.grab_iff, ?_⟩
  · intro c d handle hc hd
    exact Option.some.inj ((hslot c handle hc).symm.trans (hslot d handle hd))
  · intro ctx hl
    rcases inv.register hl with hf | ⟨store, handle, hr, _⟩
    · rw [hf]; simp
    · rw [hr]; simp
  · intro handle
    obtain ⟨_, hin⟩ := retire_spec s.handle inv.placed handle
    refine ⟨fun c => by rw [retire_snd]; exact inv.grab_iff handle c, fun c => ?_⟩
    rw [hin, ne_eq (skynetHandleGrab s.handle s.store handle), inv.grab_iff]

/-- Five registrations, the last of which doubles the table, a retirement and a grab. -/
def doubledOps : List Op :=
  [.register 10, .register 11, .register 12, .register 13, .register 14, .retire 0x1000002,
    .grab 0x1000004]

theorem registry_faithful_doubled :
    ∃ s, Lts.run Registry.step (Registry.init 1) doubledOps = some s ∧
      s.live 13 = some 0x1000004 ∧ skynetHandleGrab s.handle s.store 0x1000004 = some 13 := by
  obtain ⟨s, hs⟩ := Option.isSome_iff_exists.mp
    (show (Lts.run Registry.step (Registry.init 1) doubledOps).isSome = true by decide)
  have hl : (Lts.run Registry.step (Registry.init 1) doubledOps).map (·.live 13) =
      some (some 0x1000004) := by decide
  rw [hs, Option.map_some, Option.some.injEq] at hl
  exact ⟨s, hs, hl, ((registry_faithful 1 doubledOps s hs).2.2.2.1 0x1000004 13).mpr hl⟩

end Handle
end Skynet
