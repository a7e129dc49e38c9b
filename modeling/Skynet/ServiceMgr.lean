import Mathlib.Logic.Function.Basic
import Mathlib.Data.List.Basic
import Skynet.Lib.Run

/-!
# Skynet.ServiceMgr

The service `service_mgr` (`service/service_mgr.lua`), which launches a unique service once and gives its handle
to every `LAUNCH` and `QUERY` of its name. A request runs in a coroutine of its own; it yields in the launch
function and in `skynet.wait`. `service` is the table of the source: nothing, a table of waiting coroutines, a
handle, or the text of an error.

The launch function is `skynet.newservice`, `snax.rawnewservice` or, for a global name on a node that is not
standalone, a `skynet.call` to `SERVICE`. It ends with a handle, with an error, or with nil: `SERVICE` answers
`nil, err` to a failed command, and the launcher answers nil for a service that exits while it starts.

* `Unique` : one run of the launch function for a key, and its outcome for every request that has ended.
* `service_unique` : so it is in every run where the launch function does not return nil.
* `launched_again` : when it returns nil, the next request runs it again.
-/

namespace Skynet
namespace ServiceMgr

/-- How the launch function ends, and how a command does. Errors are without the position `error` adds. -/
inductive Outcome
  | returned (handle : Option Nat)
  | raised (err : String)
deriving Repr, DecidableEq

inductive Func
  | newservice (realname : String) (args : List String)
  | rawnewservice (args : List String)
  | call (cmd : String) (globalName : String) (args : List String)
deriving Repr, DecidableEq

inductive Record
  /-- The table of the waiting coroutines, with its field `launch`. -/
  | querying (cos : List Nat) (launch : Bool)
  | handle (h : Nat)
  | failed (err : String)
deriving Repr, DecidableEq

/-- Where a coroutine has yielded. -/
inductive Call
  | running (key : String) (func : Func)
  | waiting (key : String) (woken : Bool)
deriving Repr, DecidableEq

def Call.key : Call → String
  | .running key _ => key
  | .waiting key _ => key

structure State where
  service : String → Option Record
  calls : Nat → Option Call
  /-- How often the launch function of a key was started, and how it has ended. -/
  launches : String → Nat
  outcomes : String → List Outcome
  /-- How the requests of a key have ended. -/
  replies : String → List (Nat × Outcome)

def init : State :=
  { service := fun _ => none
    calls := fun _ => none
    launches := fun _ => 0
    outcomes := fun _ => []
    replies := fun _ => [] }

/-- A command ends, and its coroutine with it. -/
def State.reply (s : State) (co : Nat) (key : String) (r : Outcome) : State :=
  { s with
    calls := Function.update s.calls co none
    replies := Function.update s.replies key (s.replies key ++ [(co, r)]) }

def wakeup (calls : Nat → Option Call) (cos : List Nat) : Nat → Option Call := fun co =>
  match calls co with
  | some (.waiting key woken) => some (.waiting key (woken || decide (co ∈ cos)))
  | c => c

/-- `request` after `pcall`: the outcome becomes the record, and the coroutines in the table wake up. -/
def request (s : State) (co : Nat) (key : String) (r : Outcome) : State :=
  let s := { s with outcomes := Function.update s.outcomes key (s.outcomes key ++ [r]) }
  match s.service key with
  | some (.querying cos _) =>
    let record := match r with
      | .returned (some h) => some (.handle h)
      | .returned none => none
      | .raised err => some (.failed err)
    { s with service := Function.update s.service key record, calls := wakeup s.calls cos }.reply co key r
  | _ => s.reply co key (.raised "assertion failed!")

/-- `waitfor` once the record is a table: start the launch function, or wait. -/
def launchOrWait (s : State) (co : Nat) (key : String) (func : Option Func) (cos : List Nat) (launch : Bool) :
    State :=
  match launch, func with
  | false, some f =>
    { s with
      service := Function.update s.service key (some (.querying cos true))
      calls := Function.update s.calls co (some (.running key f))
      launches := Function.update s.launches key (s.launches key + 1) }
  | launch, _ =>
    { s with
      service := Function.update s.service key (some (.querying (cos ++ [co]) launch))
      calls := Function.update s.calls co (some (.waiting key false)) }

def waitfor (s : State) (co : Nat) (key : String) (func : Option Func) : State :=
  match s.service key with
  | some (.handle h) => s.reply co key (.returned (some h))
  | some (.failed err) => s.reply co key (.raised err)
  | none => launchOrWait s co key func [] false
  | some (.querying cos launch) => launchOrWait s co key func cos launch

/-- `waitfor` after `skynet.wait`. -/
def waited (s : State) (co : Nat) (key : String) : State :=
  match s.service key with
  | some (.handle h) => s.reply co key (.returned (some h))
  | some (.failed err) => s.reply co key (.raised err)
  | _ => s.reply co key (.raised "assertion failed!")

/-! ### Commands -/

def readName (serviceName : String) : String :=
  match serviceName.toList with
  | '@' :: cs => String.ofList cs
  | _ => serviceName

inductive Command
  | launch | query | glaunch | gquery
deriving Repr, DecidableEq

/-- The key of a service: that of a snax service has its name too. `none` is an error. -/
def keyOf (serviceName realname : String) (args : List String) : Option String :=
  match realname == "snaxd", args with
  | true, subname :: _ => some (serviceName ++ "." ++ subname)
  | true, [] => none
  | false, _ => some serviceName

/-- `cmd.LAUNCH` and `cmd.QUERY`: the key and the launch function that they give to `waitfor`. -/
def cmdLaunch (serviceName : String) (args : List String) : Option (String × Option Func) :=
  let realname := readName serviceName
  (keyOf serviceName realname args).map fun key =>
    (key, some (if realname = "snaxd" then .rawnewservice args else .newservice realname args))

def cmdQuery (serviceName : String) (args : List String) : Option (String × Option Func) :=
  (keyOf serviceName (readName serviceName) args).map fun key => (key, none)

def waitforRemote (cmd name : String) (args : List String) : Option (String × Option Func) :=
  let globalName := "@" ++ name
  (keyOf globalName name args).map fun key => (key, some (.call cmd globalName args))

/-- `GLAUNCH` and `GQUERY` are those of `register_global` on a standalone node, else of `register_local`. -/
def Command.target (standalone : Bool) (name : String) (args : List String) :
    Command → Option (String × Option Func)
  | .launch => cmdLaunch name args
  | .query => cmdQuery name args
  | .glaunch => if standalone then cmdLaunch ("@" ++ name) args else waitforRemote "LAUNCH" name args
  | .gquery => if standalone then cmdQuery ("@" ++ name) args else waitforRemote "QUERY" name args

inductive Label
  /-- A message arrives, and its command runs in the coroutine `co`. -/
  | command (co : Nat) (cmd : Command) (name : String) (args : List String)
  /-- The launch function that `co` runs ends. -/
  | ended (co : Nat) (r : Outcome)
  /-- `co` resumes from `skynet.wait`, after a `skynet.wakeup`. -/
  | resumed (co : Nat)
deriving Repr, DecidableEq

def step (standalone : Bool) (s : State) : Label → Option State
  | .command co cmd name args =>
    match s.calls co with
    | none =>
      match cmd.target standalone name args with
      | some (key, func) => some (waitfor s co key func)
      -- the error is answered, and the record of no key is touched
      | none => some s
    | some _ => none
  | .ended co r =>
    match s.calls co with
    | some (.running key _) => some (request s co key r)
    | _ => none
  | .resumed co =>
    match s.calls co with
    | some (.waiting key true) => some (waited s co key)
    | _ => none

/-! ### One launch for each key -/

/-- One run of the launch function for `key`. Every request that has ended did so with its outcome, which is no
nil, and once it has ended no request still waits to be woken. -/
structure Unique (s : State) (key : String) : Prop where
  launched : s.launches key ≤ 1
  replied : ∀ co r, (co, r) ∈ s.replies key → s.outcomes key = [r] ∧ r ≠ .returned none
  woken : ∀ co w, s.outcomes key ≠ [] → s.calls co = some (.waiting key w) → w = true

/-- No request of a key yet. -/
structure Absent (s : State) (key : String) : Prop where
  launches : s.launches key = 0
  outcomes : s.outcomes key = []
  replies : s.replies key = []
  calls : ∀ co c, s.calls co = some c → c.key ≠ key

/-- The record of a key is a table: its launch function runs when `launch` is set, and the other requests are in
the table. -/
structure Pending (s : State) (key : String) (cos : List Nat) (launch : Bool) : Prop where
  launches : s.launches key = if launch then 1 else 0
  outcomes : s.outcomes key = []
  replies : s.replies key = []
  running : ∀ co f, s.calls co = some (.running key f) → launch = true
  one : ∀ co f co' f', s.calls co = some (.running key f) → s.calls co' = some (.running key f') → co = co'
  waiting : ∀ co w, s.calls co = some (.waiting key w) → co ∈ cos ∧ w = false
  listed : ∀ co ∈ cos, ∃ w, s.calls co = some (.waiting key w)

/-- The launch function of a key has ended with `r`. -/
structure Settled (s : State) (key : String) (r : Outcome) : Prop where
  launches : s.launches key = 1
  outcomes : s.outcomes key = [r]
  replies : ∀ co r', (co, r') ∈ s.replies key → r' = r
  running : ∀ co f, s.calls co ≠ some (.running key f)
  woken : ∀ co w, s.calls co = some (.waiting key w) → w = true

def KeyOk (s : State) (key : String) : Prop :=
  match s.service key with
  | none => Absent s key
  | some (.querying cos launch) => Pending s key cos launch
  | some (.handle h) => Settled s key (.returned (some h))
  | some (.failed err) => Settled s key (.raised err)

def Ok (s : State) : Prop := ∀ key, KeyOk s key

theorem KeyOk.absent {s : State} {key : String} (ok : KeyOk s key) (h : s.service key = none) : Absent s key := by
  simpa [KeyOk, h] using ok

theorem KeyOk.pending {s : State} {key : String} {cos : List Nat} {launch : Bool} (ok : KeyOk s key)
    (h : s.service key = some (.querying cos launch)) : Pending s key cos launch := by
  simpa [KeyOk, h] using ok

theorem KeyOk.handle {s : State} {key : String} {n : Nat} (ok : KeyOk s key)
    (h : s.service key = some (.handle n)) : Settled s key (.returned (some n)) := by
  simpa [KeyOk, h] using ok

theorem KeyOk.failed {s : State} {key err : String} (ok : KeyOk s key)
    (h : s.service key = some (.failed err)) : Settled s key (.raised err) := by
  simpa [KeyOk, h] using ok

theorem Settled.unique {s : State} {key : String} {r : Outcome} (st : Settled s key r)
    (hr : r ≠ .returned none) : Unique s key := by
  refine ⟨Nat.le_of_eq st.launches, ?_, fun co w _ hw => st.woken co w hw⟩
  intro co r' hm
  rw [st.replies co r' hm]
  exact ⟨st.outcomes, hr⟩

theorem KeyOk.unique {s : State} {key : String} (ok : KeyOk s key) : Unique s key := by
  cases hs : s.service key with
  | none =>
    have h := ok.absent hs
    refine ⟨by rw [h.launches]; exact Nat.zero_le 1, ?_, fun _ _ hne _ => absurd h.outcomes hne⟩
    intro co r hm
    rw [h.replies] at hm
    cases hm
  | some record =>
    cases record with
    | querying cos launch =>
      have h := ok.pending hs
      refine ⟨?_, ?_, fun _ _ hne _ => absurd h.outcomes hne⟩
      · rw [h.launches]
        cases launch
        · exact Nat.zero_le 1
        · exact Nat.le_refl 1
      · intro co r hm
        rw [h.replies] at hm
        cases hm
    | handle n => exact (ok.handle hs).unique nofun
    | failed err => exact (ok.failed hs).unique nofun

/-- A key whose record, runs, replies and calls are as before. -/
theorem KeyOk.frame {s t : State} {key : String} (ok : KeyOk s key) (hservice : t.service key = s.service key)
    (hlaunches : t.launches key = s.launches key) (houtcomes : t.outcomes key = s.outcomes key)
    (hreplies : t.replies key = s.replies key)
    (hcalls : ∀ co c, c.key = key → (t.calls co = some c ↔ s.calls co = some c)) : KeyOk t key := by
  have hsettled : ∀ r, Settled s key r → Settled t key r := by
    intro r st
    refine ⟨by rw [hlaunches, st.launches], by rw [houtcomes, st.outcomes], ?_, ?_, ?_⟩
    · rw [hreplies]
      exact st.replies
    · intro co f hc
      exact st.running co f ((hcalls co _ rfl).mp hc)
    · intro co w hc
      exact st.woken co w ((hcalls co _ rfl).mp hc)
  unfold KeyOk at ok ⊢
  rw [hservice]
  split
  · rename_i hs
    rw [hs] at ok
    refine ⟨by rw [hlaunches, ok.launches], by rw [houtcomes, ok.outcomes], by rw [hreplies, ok.replies], ?_⟩
    intro co c hc hk
    exact ok.calls co c ((hcalls co c hk).mp hc) hk
  · rename_i cos launch hs
    rw [hs] at ok
    refine ⟨by rw [hlaunches, ok.launches], by rw [houtcomes, ok.outcomes], by rw [hreplies, ok.replies], ?_, ?_, ?_, ?_⟩
    · intro co f hc
      exact ok.running co f ((hcalls co _ rfl).mp hc)
    · intro co f co' f' hc hc'
      exact ok.one co f co' f' ((hcalls co _ rfl).mp hc) ((hcalls co' _ rfl).mp hc')
    · intro co w hc
      exact ok.waiting co w ((hcalls co _ rfl).mp hc)
    · intro co hco
      obtain ⟨w, hw⟩ := ok.listed co hco
      exact ⟨w, (hcalls co _ rfl).mpr hw⟩
  · rename_i n hs
    rw [hs] at ok
    exact hsettled _ ok
  · rename_i err hs
    rw [hs] at ok
    exact hsettled _ ok

/-! ### Steps -/

/-- A reply with the outcome of the key. -/
theorem Settled.reply {s : State} {key : String} {r : Outcome} (st : Settled s key r) (co : Nat) :
    Settled (s.reply co key r) key r := by
  refine ⟨st.launches, st.outcomes, ?_, ?_, ?_⟩
  · intro co' r' hm
    simp only [State.reply, Function.update_self, List.mem_append, List.mem_singleton, Prod.mk.injEq] at hm
    obtain hm | ⟨-, hr⟩ := hm
    · exact st.replies co' r' hm
    · exact hr
  · intro co' f hc
    simp only [State.reply, Function.update_apply] at hc
    split at hc
    · cases hc
    · exact st.running co' f hc
  · intro co' w hc
    simp only [State.reply, Function.update_apply] at hc
    split at hc
    · cases hc
    · exact st.woken co' w hc

/-- A coroutine that runs no request of another key. -/
def Of (s : State) (key : String) (co : Nat) : Prop := ∀ c, s.calls co = some c → c.key = key

/-- The calls of the other keys, when `co` ends or goes on with a call of `key`. -/
theorem Of.update_iff {s : State} {key key' : String} {co co' : Nat} {c : Call} {d : Option Call}
    (hco : Of s key co) (hd : ∀ c, d = some c → c.key = key) (hne : key' ≠ key) (hc : c.key = key') :
    Function.update s.calls co d co' = some c ↔ s.calls co' = some c := by
  rw [Function.update_apply]
  split
  · rename_i e
    subst e
    constructor
    · intro h
      exact absurd (hc.symm.trans (hd c h)) hne
    · intro h
      exact absurd (hc.symm.trans (hco c h)) hne
  · rfl

/-- A reply for one key leaves the others. -/
theorem KeyOk.reply_frame {s : State} {key key' : String} {co : Nat} (ok : KeyOk s key') (hne : key' ≠ key)
    (hco : Of s key co) (r : Outcome) : KeyOk (s.reply co key r) key' := by
  refine ok.frame rfl rfl rfl ?_ ?_
  · simp [State.reply, hne]
  · intro co' c hc
    exact hco.update_iff nofun hne hc

theorem Ok.reply {s : State} {key : String} {r : Outcome} {co : Nat} (ok : Ok s) (hco : Of s key co)
    (hr : (∃ h, s.service key = some (.handle h) ∧ r = .returned (some h)) ∨
      ∃ err, s.service key = some (.failed err) ∧ r = .raised err) : Ok (s.reply co key r) := by
  intro key'
  by_cases hk : key' = key
  · subst hk
    obtain ⟨h, hs, rfl⟩ | ⟨err, hs, rfl⟩ := hr
    · have hst := (ok key').handle hs
      unfold KeyOk
      rw [show (s.reply co key' (.returned (some h))).service key' = s.service key' from rfl, hs]
      exact hst.reply co
    · have hst := (ok key').failed hs
      unfold KeyOk
      rw [show (s.reply co key' (.raised err)).service key' = s.service key' from rfl, hs]
      exact hst.reply co
  · exact (ok key').reply_frame hk hco r

/-- A key with no request is like one whose table is empty. -/
theorem Absent.pending {s : State} {key : String} (h : Absent s key) : Pending s key [] false := by
  refine ⟨h.launches, h.outcomes, h.replies, ?_, ?_, ?_, nofun⟩
  · intro co f hc
    exact absurd rfl (h.calls co _ hc)
  · intro co f co' f' hc
    exact absurd rfl (h.calls co _ hc)
  · intro co w hc
    exact absurd rfl (h.calls co _ hc)

/-- A coroutine with no call is in no table. -/
theorem Pending.ne_of_mem {s : State} {co co' : Nat} {key : String} {cos : List Nat} {launch : Bool}
    (hp : Pending s key cos launch) (hco : s.calls co = none) (hm : co' ∈ cos) : co' ≠ co := by
  rintro rfl
  obtain ⟨w, hw⟩ := hp.listed co' hm
  rw [hco] at hw
  cases hw

theorem Pending.launch {s : State} {co : Nat} {key : String} {cos : List Nat} (hp : Pending s key cos false)
    (hco : s.calls co = none) (f : Func) (service : String → Option Record) :
    Pending { s with
      service := service
      calls := Function.update s.calls co (some (.running key f))
      launches := Function.update s.launches key (s.launches key + 1) } key cos true := by
  have hnone : ∀ co' f', s.calls co' ≠ some (.running key f') := by
    intro co' f' hc
    cases hp.running co' f' hc
  have hone : ∀ co' f', Function.update s.calls co (some (.running key f)) co' = some (.running key f') →
      co' = co := by
    intro co' f' hc
    rw [Function.update_apply] at hc
    split at hc
    · assumption
    · exact absurd hc (hnone co' f')
  refine ⟨by simp [hp.launches], hp.outcomes, hp.replies, fun _ _ _ => rfl, ?_, ?_, ?_⟩
  · intro co₁ f₁ co₂ f₂ h₁ h₂
    exact (hone co₁ f₁ h₁).trans (hone co₂ f₂ h₂).symm
  · intro co' w hc
    simp only [Function.update_apply] at hc
    split at hc
    · cases hc
    · exact hp.waiting co' w hc
  · intro co' hm
    simp only [Function.update_of_ne (hp.ne_of_mem hco hm)]
    exact hp.listed co' hm

theorem Pending.wait {s : State} {co : Nat} {key : String} {cos : List Nat} {launch : Bool}
    (hp : Pending s key cos launch) (hco : s.calls co = none) (service : String → Option Record) :
    Pending { s with
      service := service
      calls := Function.update s.calls co (some (.waiting key false)) } key (cos ++ [co]) launch := by
  have hrun : ∀ co' f, Function.update s.calls co (some (.waiting key false)) co' = some (.running key f) →
      s.calls co' = some (.running key f) := by
    intro co' f hc
    rw [Function.update_apply] at hc
    split at hc
    · cases hc
    · exact hc
  refine ⟨hp.launches, hp.outcomes, hp.replies, ?_, ?_, ?_, ?_⟩
  · intro co' f hc
    exact hp.running co' f (hrun co' f hc)
  · intro co₁ f₁ co₂ f₂ h₁ h₂
    exact hp.one co₁ f₁ co₂ f₂ (hrun co₁ f₁ h₁) (hrun co₂ f₂ h₂)
  · intro co' w hc
    simp only [Function.update_apply] at hc
    split at hc
    · rename_i e
      cases hc
      exact ⟨by simp [e], rfl⟩
    · obtain ⟨hm, hw⟩ := hp.waiting co' w hc
      exact ⟨List.mem_append_left _ hm, hw⟩
  · intro co' hm
    obtain hm | hm := List.mem_append.mp hm
    · simp only [Function.update_of_ne (hp.ne_of_mem hco hm)]
      exact hp.listed co' hm
    · rw [List.mem_singleton.mp hm]
      exact ⟨false, Function.update_self ..⟩

theorem Ok.launchOrWait {s : State} {co : Nat} {key : String} {cos : List Nat} {launch : Bool} (ok : Ok s)
    (func : Option Func) (hp : Pending s key cos launch) (hco : s.calls co = none) :
    Ok (launchOrWait s co key func cos launch) := by
  intro key'
  have hof : Of s key co := by
    intro c hc
    rw [hco] at hc
    cases hc
  unfold ServiceMgr.launchOrWait
  split
  · rename_i f
    by_cases hk : key' = key
    · subst hk
      unfold KeyOk
      simp only [Function.update_self]
      exact hp.launch hco f _
    · refine (ok key').frame ?_ ?_ rfl rfl ?_
      · simp [hk]
      · simp [hk]
      · intro co' c hc
        refine hof.update_iff ?_ hk hc
        rintro _ ⟨⟩
        rfl
  · by_cases hk : key' = key
    · subst hk
      unfold KeyOk
      simp only [Function.update_self]
      exact hp.wait hco _
    · refine (ok key').frame ?_ rfl rfl rfl ?_
      · simp [hk]
      · intro co' c hc
        refine hof.update_iff ?_ hk hc
        rintro _ ⟨⟩
        rfl

theorem Ok.waitfor {s : State} {co : Nat} (ok : Ok s) (key : String) (func : Option Func)
    (hco : s.calls co = none) : Ok (waitfor s co key func) := by
  have hof : Of s key co := by
    intro c hc
    rw [hco] at hc
    cases hc
  unfold ServiceMgr.waitfor
  split
  · rename_i h hs
    exact ok.reply hof (.inl ⟨h, hs, rfl⟩)
  · rename_i err hs
    exact ok.reply hof (.inr ⟨err, hs, rfl⟩)
  · rename_i hs
    exact ok.launchOrWait func ((ok key).absent hs).pending hco
  · rename_i cos launch hs
    exact ok.launchOrWait func ((ok key).pending hs) hco

/-- A launch function runs only while the record of its key is a table. -/
theorem Ok.querying_of_running {s : State} {co : Nat} {key : String} {f : Func} (ok : Ok s)
    (hco : s.calls co = some (.running key f)) :
    ∃ cos, s.service key = some (.querying cos true) ∧ Pending s key cos true := by
  cases hs : s.service key with
  | none => exact absurd rfl (((ok key).absent hs).calls co _ hco)
  | some record =>
    cases record with
    | querying cos launch =>
      have hp := (ok key).pending hs
      have hl : launch = true := hp.running co f hco
      subst hl
      exact ⟨cos, rfl, hp⟩
    | handle n => exact absurd hco (((ok key).handle hs).running co f)
    | failed err => exact absurd hco (((ok key).failed hs).running co f)

theorem wakeup_running {calls : Nat → Option Call} {cos : List Nat} {co : Nat} {key : String} {f : Func} :
    wakeup calls cos co = some (.running key f) ↔ calls co = some (.running key f) := by
  unfold wakeup
  split
  · rename_i hc
    simp [hc]
  · rfl

theorem wakeup_waiting {calls : Nat → Option Call} {cos : List Nat} {co : Nat} {key : String} {w : Bool} :
    wakeup calls cos co = some (.waiting key w) ↔
      ∃ w', calls co = some (.waiting key w') ∧ (w' || decide (co ∈ cos)) = w := by
  unfold wakeup
  split
  · rename_i key' w' hc
    simp only [hc, Option.some.injEq, Call.waiting.injEq]
    constructor
    · rintro ⟨rfl, rfl⟩
      exact ⟨w', ⟨rfl, rfl⟩, rfl⟩
    · rintro ⟨_, ⟨rfl, rfl⟩, rfl⟩
      exact ⟨rfl, rfl⟩
  · rename_i hne
    constructor
    · intro h
      exact absurd h (hne key w)
    · rintro ⟨w', h, -⟩
      exact absurd h (hne key w')

/-- What waits for another key is not in the table. -/
theorem Pending.wakeup_iff {s : State} {key : String} {cos : List Nat} {launch : Bool}
    (hp : Pending s key cos launch) {co : Nat} {c : Call} (hc : c.key ≠ key) :
    wakeup s.calls cos co = some c ↔ s.calls co = some c := by
  cases c with
  | running key' f => exact wakeup_running
  | waiting key' w =>
    have hnot : ∀ w', s.calls co = some (.waiting key' w') → co ∉ cos := by
      intro w' hw hm
      obtain ⟨w₁, h₁⟩ := hp.listed co hm
      rw [hw] at h₁
      cases h₁
      exact hc rfl
    rw [wakeup_waiting]
    constructor
    · rintro ⟨w', hw, rfl⟩
      simpa [hnot w' hw] using hw
    · intro hw
      exact ⟨w, hw, by simp [hnot w hw]⟩

/-- The launch function ends with a handle or an error, which becomes the record. -/
theorem Pending.settled {s : State} {co : Nat} {key : String} {f : Func} {cos : List Nat}
    (hp : Pending s key cos true) (hco : s.calls co = some (.running key f)) (r : Outcome)
    (service : String → Option Record) :
    Settled (State.reply { s with
      service := service
      calls := wakeup s.calls cos
      outcomes := Function.update s.outcomes key (s.outcomes key ++ [r]) } co key r) key r := by
  refine ⟨hp.launches, by simp [State.reply, hp.outcomes], ?_, ?_, ?_⟩
  · intro co' r' hm
    simp only [State.reply, hp.replies, Function.update_self, List.nil_append, List.mem_singleton,
      Prod.mk.injEq] at hm
    exact hm.2
  · intro co' f' hc
    simp only [State.reply, Function.update_apply] at hc
    split at hc
    · cases hc
    · rename_i hne
      exact hne (hp.one co' f' co f (wakeup_running.mp hc) hco)
  · intro co' w hc
    simp only [State.reply, Function.update_apply] at hc
    split at hc
    · cases hc
    · obtain ⟨w', hw, rfl⟩ := wakeup_waiting.mp hc
      simp [(hp.waiting co' w' hw).1]

theorem Ok.request {s : State} {co : Nat} {key : String} {f : Func} (ok : Ok s)
    (hco : s.calls co = some (.running key f)) {r : Outcome} (hr : r ≠ .returned none) :
    Ok (request s co key r) := by
  obtain ⟨cos, hs, hp⟩ := ok.querying_of_running hco
  intro key'
  unfold ServiceMgr.request
  simp only [hs]
  by_cases hk : key' = key
  · subst hk
    have hst := hp.settled hco r
    cases r with
    | returned handle =>
      cases handle with
      | none => exact absurd rfl hr
      | some n =>
        unfold KeyOk
        simp only [State.reply, Function.update_self]
        exact hst _
    | raised err =>
      unfold KeyOk
      simp only [State.reply, Function.update_self]
      exact hst _
  · have hcalls : ∀ co' c, c.key = key' → (wakeup s.calls cos co' = some c ↔ s.calls co' = some c) := by
      intro co' c hc
      exact hp.wakeup_iff (by rw [hc]; exact hk)
    refine KeyOk.reply_frame ?_ hk ?_ r
    · refine (ok key').frame ?_ rfl ?_ rfl hcalls
      · simp [hk]
      · simp [hk]
    · intro c hc
      have hrun : wakeup s.calls cos co = some (.running key f) := wakeup_running.mpr hco
      cases hrun.symm.trans hc
      rfl

theorem Ok.waited {s : State} {co : Nat} {key : String} (ok : Ok s)
    (hco : s.calls co = some (.waiting key true)) : Ok (waited s co key) := by
  have hof : Of s key co := by
    intro c hc
    rw [hco] at hc
    cases hc
    rfl
  cases hs : s.service key with
  | none => exact absurd rfl (((ok key).absent hs).calls co _ hco)
  | some record =>
    cases record with
    | querying cos launch => cases (((ok key).pending hs).waiting co true hco).2
    | handle n =>
      simp only [ServiceMgr.waited, hs]
      exact ok.reply hof (.inl ⟨n, hs, rfl⟩)
    | failed err =>
      simp only [ServiceMgr.waited, hs]
      exact ok.reply hof (.inr ⟨err, hs, rfl⟩)

theorem Ok.init : Ok init := by
  intro key
  exact ⟨rfl, rfl, rfl, nofun⟩

/-- The launch function does not return nil. -/
def Handled (_ : State) (l : Label) : Prop := ∀ co, l ≠ .ended co (.returned none)

theorem Ok.step {standalone : Bool} {s t : State} {l : Label} (ok : Ok s) (hg : Handled s l)
    (h : step standalone s l = some t) : Ok t := by
  cases l with
  | command co cmd name args =>
    simp only [ServiceMgr.step] at h
    split at h
    · rename_i hco
      split at h
      · rename_i key func _
        cases h
        exact ok.waitfor key func hco
      · cases h
        exact ok
    · cases h
  | ended co r =>
    simp only [ServiceMgr.step] at h
    split at h
    · rename_i key f hco
      cases h
      refine ok.request hco ?_
      rintro rfl
      exact hg co rfl
    · cases h
  | resumed co =>
    simp only [ServiceMgr.step] at h
    split at h
    · rename_i key hco
      cases h
      exact ok.waited hco
    · cases h

/-- In every run where the launch function does not return nil, it runs at most once for a key, every request of
the key ends with its outcome, and none is left waiting. -/
theorem service_unique {standalone : Bool} {ls : List Label} {s : State}
    (h : Lts.run (step standalone) init ls = some s) (hg : Lts.Guarded (step standalone) Handled init ls)
    (key : String) : Unique s key := by
  have ok : Ok s := Lts.run_invariant_of_guarded (P := Ok) (fun _ _ _ ok hg h => ok.step hg h) h hg Ok.init
  exact (ok key).unique

theorem service_unique_queried :
    ∃ s, Lts.run (step false) init
        [.command 1 .gquery "db" [], .command 2 .glaunch "db" [], .ended 1 (.returned (some 7)), .resumed 2] =
        some s ∧ s.replies "@db" = [(1, .returned (some 7)), (2, .returned (some 7))] ∧ Unique s "@db" := by
  obtain ⟨s, hrun, hr⟩ : ∃ s, Lts.run (step false) init
      [.command 1 .gquery "db" [], .command 2 .glaunch "db" [], .ended 1 (.returned (some 7)), .resumed 2] =
      some s ∧ s.replies "@db" = [(1, .returned (some 7)), (2, .returned (some 7))] := ⟨_, rfl, rfl⟩
  refine ⟨s, hrun, hr, service_unique hrun (Lts.guarded_of_forall ?_ init) "@db"⟩
  intro l hl t co hne
  subst hne
  simp at hl

/-- On a node that is not standalone `SERVICE` has failed to launch `db`: the request of `GLAUNCH` ends with nil,
and the next one calls `SERVICE` again. -/
theorem launched_again :
    ¬ ∀ (standalone : Bool) (ls : List Label) (s : State),
      Lts.run (step standalone) init ls = some s → ∀ key, Unique s key := by
  intro h
  obtain ⟨s, hrun, hl⟩ : ∃ s, Lts.run (step false) init
      [.command 1 .glaunch "db" [], .ended 1 (.returned none), .command 2 .glaunch "db" []] = some s ∧
      s.launches "@db" = 2 := ⟨_, rfl, rfl⟩
  have hu := (h false _ s hrun "@db").launched
  rw [hl] at hu
  exact absurd hu (by decide)

end ServiceMgr
end Skynet
