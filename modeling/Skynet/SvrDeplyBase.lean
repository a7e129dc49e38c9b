import Mathlib.Data.List.Count
import Mathlib.Data.List.Perm.Basic
import Mathlib.Logic.Function.Basic
import Skynet.Lib.Run

/-!
# Skynet.SvrDeplyBase

One configuration key of `logic/common/svrDeplyBase.lua`, polled by any number of game servers. Each redis command is
a step, and so is the query of MySQL. Redis holds a counter and a hash for the key; no key expires here, so `Expire`
is a step that changes nothing, and the counter is absent when the period begins.

* `redisGetKeyConfig` : what a poll reads back from the reply of `HGETALL`.
* `redisGetKeyConfig_fields` : a hash that was written by `redisSetKeyConfig` is never read back.
* `config_synchronised` : one process reads MySQL, as long as no poll finds the success flag set.
-/

namespace Skynet
namespace SvrDeplyBase

def DEPREDIS_SYN_SUCCESS_FLAG : Nat := 1000000

/-- `argst`, as `onMysqlGetKeyConfig` fills it. -/
structure Argst where
  json : String
  cur : Int
deriving Repr, DecidableEq

/-- What `proceRedis` returns. `RET_REDIS_NULLPTR` is for a process without redis. -/
inductive Ret
  | success (json : String) (cur : Option Int)
  | accessMysql
  | waitSyn
deriving Repr, DecidableEq

/-! ### The hash -/

/-- One field of `HMSET`. -/
def hset (h : List (String × String)) (field value : String) : List (String × String) :=
  if h.any fun p => p.1 == field then h.map fun p => if p.1 = field then (field, value) else p
  else h ++ [(field, value)]

def hmset (h : List (String × String)) (a : Argst) : List (String × String) :=
  hset (hset h "v" a.json) "time" (toString a.cur)

/-- The flat reply of `HGETALL`. -/
def hgetall (h : List (String × String)) : List String := h.flatMap fun p => [p.1, p.2]

/-- The loop of `redisGetKeyConfig`: `jsonstr` and `time`. -/
def scan : List String → Option String → Option String → Option String × Option String
  | name :: value :: rest, jsonstr, time =>
    scan rest (if name = "v" then some value else jsonstr) (if name = "time" then some value else time)
  | _, jsonstr, time => (jsonstr, time)

/-- The test of the source is `not jsonstr or not not time`. -/
def redisGetKeyConfig (mconfig : List String) : Option (String × Option Int) :=
  if mconfig = [] then none
  else
    match scan mconfig none none with
    | (some jsonstr, none) => some (jsonstr, none)
    | _ => none

/-- The hash that `redisSetKeyConfig` leaves. -/
def Argst.fields (a : Argst) : List (String × String) := [("v", a.json), ("time", toString a.cur)]

theorem hmset_nil (a : Argst) : hmset [] a = a.fields := by
  simp [hmset, hset, Argst.fields]

theorem hmset_fields (a b : Argst) : hmset b.fields a = a.fields := by
  simp [hmset, hset, Argst.fields]

theorem redisGetKeyConfig_fields (a : Argst) : redisGetKeyConfig (hgetall a.fields) = none := by
  simp [redisGetKeyConfig, hgetall, Argst.fields, scan]

/-! ### The processes -/

/-- The command that a poll sends next. -/
inductive Phase
  | idle
  /-- `HGetAll`, in `redisGetKeyConfig`. -/
  | getConfig
  /-- `Del` and `Incr`, when there is no configuration to read. -/
  | del
  | incr
  /-- `Expire`, before `RET_REDIS_ACCESS_MYSQL`. -/
  | expire
  | mysql
  /-- `HMSet`, `IncrBy` and `Expire`, in `redisSetKeyConfig`. -/
  | setConfig (a : Argst)
  | setFlag (a : Argst)
  | expireFlag (a : Argst)
deriving Repr, DecidableEq

/-- `version` is the entry of `m_keyUpdateList`. `after` is the configuration that had been written when the poll
began. -/
structure Proc where
  phase : Phase
  version : Option Int
  after : Option Argst
deriving Repr, DecidableEq

structure State where
  /-- `deply_access_count_` and `deply_config_`. -/
  access : Option Nat
  config : List (String × String)
  procs : Nat → Proc
  /-- The last configuration for which `redisSetKeyConfig` has returned. -/
  written : Option Argst
  /-- The counts that the polls have found, the polls that redis has sent to MySQL, the queries of MySQL, and for
  each call of `proceRedis` the configuration written before the poll and the result. -/
  counts : List Nat
  elected : List Nat
  reads : List Nat
  returned : List (Option Argst × Ret)

def State.set (s : State) (p : Nat) (proc : Proc) : State := { s with procs := Function.update s.procs p proc }

def State.goto (s : State) (p : Nat) (phase : Phase) : State := s.set p { s.procs p with phase := phase }

/-- The rest of `checkNewConfig`, for a key that has a configuration. -/
def State.update (s : State) (p : Nat) (cur : Option Int) : State :=
  s.set p { s.procs p with
    phase := .idle
    version := if cur = (s.procs p).version then (s.procs p).version else cur }

/-- `proceRedis` returns. -/
def State.ret (s : State) (p : Nat) (r : Ret) : State :=
  { s with returned := s.returned ++ [((s.procs p).after, r)] }

def State.elect (s : State) (p : Nat) : State := { s with elected := s.elected ++ [p] }

/-- `checkNewConfig`, to the answer of `Incr` in `redisCanIAccessMysql`. -/
def poll (s : State) (p : Nat) : State :=
  let deply_access_count := s.access.getD 0 + 1
  let s := { s with
    access := some deply_access_count
    counts := s.counts ++ [deply_access_count] }.set p { s.procs p with after := s.written }
  if deply_access_count > 1 then
    if deply_access_count < DEPREDIS_SYN_SUCCESS_FLAG then s.ret p .waitSyn else s.goto p .getConfig
  else (s.elect p).goto p .expire

/-- The answer to the command that the process waits for. -/
def resume (s : State) (p : Nat) : Option State :=
  match (s.procs p).phase with
  | .idle => none
  | .mysql => none
  | .getConfig =>
    match redisGetKeyConfig (hgetall s.config) with
    | some (json, cur) => some ((s.ret p (.success json cur)).update p cur)
    | none => some ((s.elect p).goto p .del)
  | .del => some ({ s with access := none }.goto p .incr)
  | .incr => some ({ s with access := some (s.access.getD 0 + 1) }.goto p .expire)
  | .expire => some ((s.ret p .accessMysql).goto p .mysql)
  | .setConfig a => some ({ s with config := hmset s.config a }.goto p (.setFlag a))
  | .setFlag a =>
    some ({ s with access := some (s.access.getD 0 + DEPREDIS_SYN_SUCCESS_FLAG) }.goto p (.expireFlag a))
  | .expireFlag a => some ({ s with written := some a }.update p (some a.cur))

/-- The answer of `getSvrDeply`. -/
def onMysqlGetKeyConfig (s : State) (p : Nat) : Option Argst → State
  | none => { s with reads := s.reads ++ [p] }.goto p .idle
  | some a => { s with reads := s.reads ++ [p] }.goto p (.setConfig a)

inductive Label
  | poll (p : Nat)
  | resume (p : Nat)
  | mysql (p : Nat) (row : Option Argst)
deriving Repr, DecidableEq

def step (s : State) : Label → Option State
  | .poll p => if (s.procs p).phase = .idle then some (poll s p) else none
  | .resume p => resume s p
  | .mysql p row => if (s.procs p).phase = .mysql then some (onMysqlGetKeyConfig s p row) else none

/-- A period begins. `old` is the configuration of an earlier one. -/
def start (old : Option Argst) (version : Nat → Option Int) : State :=
  { access := none
    config := (old.map Argst.fields).getD []
    procs := fun p => ⟨.idle, version p, none⟩
    written := none
    counts := []
    elected := []
    reads := []
    returned := [] }

/-! ### One reader -/

/-- One process reads MySQL at most, and a poll that begins when the configuration has been written gets it. -/
def Synchronised (s : State) : Prop :=
  (∀ p ∈ s.reads, ∀ q ∈ s.reads, p = q) ∧
    ∀ e ∈ s.returned, ∀ a, e.1 = some a → e.2 = .success a.json (some a.cur)

/-- The poll does not find the success flag. -/
def Unflagged (s : State) : Label → Prop
  | .poll _ => s.access.getD 0 + 1 < DEPREDIS_SYN_SUCCESS_FLAG
  | _ => True

/-- How far the process is that redis has sent to MySQL. -/
def Stage (s : State) (p : Nat) : Phase → Prop
  | .idle =>
    s.reads.length ≤ 1 ∧ (s.access = none → s.reads = []) ∧
      (s.written ≠ none → DEPREDIS_SYN_SUCCESS_FLAG ≤ s.access.getD 0)
  | .expire => s.access ≠ none ∧ s.reads = [] ∧ s.written = none ∧ (s.procs p).after = none
  | .mysql => s.access ≠ none ∧ s.reads = [] ∧ s.written = none
  | .setConfig _ => s.access ≠ none ∧ s.reads.length ≤ 1 ∧ s.written = none
  | .setFlag _ => s.access ≠ none ∧ s.reads.length ≤ 1 ∧ s.written = none
  | .expireFlag _ =>
    s.access ≠ none ∧ s.reads.length ≤ 1 ∧ s.written = none ∧ DEPREDIS_SYN_SUCCESS_FLAG ≤ s.access.getD 0
  | _ => False

structure Inv (s : State) (p : Nat) : Prop where
  others : ∀ q, q ≠ p → (s.procs q).phase = .idle
  stage : Stage s p (s.procs p).phase
  counted : s.access ≠ some 0
  waited : ∀ e ∈ s.returned, e.1 = none

theorem Inv.reads_le {s : State} {p : Nat} (h : Inv s p) : s.reads.length ≤ 1 := by
  have hstage := h.stage
  cases hp : (s.procs p).phase <;> rw [hp] at hstage <;> simp only [Stage] at hstage
  case idle => exact hstage.1
  case expire => rw [hstage.2.1]; exact Nat.zero_le 1
  case mysql => rw [hstage.2.1]; exact Nat.zero_le 1
  case setConfig => exact hstage.2.1
  case setFlag => exact hstage.2.1
  case expireFlag => exact hstage.2.1

theorem Inv.synchronised {s : State} {p : Nat} (h : Inv s p) : Synchronised s := by
  refine ⟨?_, ?_⟩
  · intro p hp q hq
    obtain ⟨r, hr⟩ := List.length_eq_one_iff.mp
      (Nat.le_antisymm h.reads_le (List.length_pos_of_mem hp))
    rw [hr, List.mem_singleton] at hp hq
    rw [hp, hq]
  · intro e he a ha
    rw [h.waited e he] at ha
    cases ha

/-- Nothing has been written while the count is below the flag. -/
theorem Inv.unwritten {s : State} {p : Nat} (h : Inv s p) (hlt : s.access.getD 0 + 1 < DEPREDIS_SYN_SUCCESS_FLAG) :
    s.written = none := by
  have hstage := h.stage
  cases hp : (s.procs p).phase <;> rw [hp] at hstage <;> simp only [Stage] at hstage
  case idle =>
    by_contra hw
    have hle := hstage.2.2 hw
    omega
  case expire => exact hstage.2.2.1
  case mysql => exact hstage.2.2
  case setConfig => exact hstage.2.2
  case setFlag => exact hstage.2.2
  case expireFlag => exact hstage.2.2.1

theorem Inv.idle_of_none {s : State} {p : Nat} (h : Inv s p) (ha : s.access = none) :
    s.reads = [] ∧ ∀ q, (s.procs q).phase = .idle := by
  have hstage := h.stage
  cases hp : (s.procs p).phase <;> rw [hp] at hstage <;> simp only [Stage] at hstage
  case idle =>
    refine ⟨hstage.2.1 ha, ?_⟩
    intro q
    by_cases hq : q = p
    · rw [hq, hp]
    · exact h.others q hq
  all_goals exact absurd ha hstage.1

/-- The process whose phase is not idle is the one that leads. -/
theorem Inv.leads {s : State} {p q : Nat} (h : Inv s p) (hq : (s.procs q).phase ≠ .idle) : q = p := by
  by_contra hne
  exact hq (h.others q hne)

theorem inv_poll {s : State} {p q : Nat} (h : Inv s p) (hq : (s.procs q).phase = .idle)
    (hlt : s.access.getD 0 + 1 < DEPREDIS_SYN_SUCCESS_FLAG) : ∃ r, Inv (poll s q) r := by
  have hw := h.unwritten hlt
  cases ha : s.access with
  | none =>
    obtain ⟨hreads, hidle⟩ := h.idle_of_none ha
    refine ⟨q, ?_, ?_, ?_, ?_⟩
    · intro r hr
      simp [poll, ha, State.elect, State.goto, State.set, hr, hidle]
    · simp [poll, ha, State.elect, State.goto, State.set, Stage, hreads, hw]
    · simp [poll, ha, State.elect, State.goto, State.set]
    · simpa [poll, ha, State.elect, State.goto, State.set] using h.waited
  | some n =>
    have hn : n ≠ 0 := by rintro rfl; exact h.counted ha
    rw [ha, Option.getD_some] at hlt
    have hpoll : poll s q = ({ s with
        access := some (n + 1)
        counts := s.counts ++ [n + 1] }.set q { s.procs q with after := s.written }).ret q .waitSyn := by
      rw [poll, ha, Option.getD_some]
      simp only [if_pos (show n + 1 > 1 by omega), if_pos hlt]
    have hphase : ∀ r, ((poll s q).procs r).phase = (s.procs r).phase := by
      intro r
      rw [hpoll]
      simp only [State.ret, State.set]
      by_cases hr : r = q
      · rw [hr, Function.update_self]
      · rw [Function.update_of_ne hr]
    refine ⟨p, ?_, ?_, ?_, ?_⟩
    · intro r hr
      rw [hphase]
      exact h.others r hr
    · have hstage := h.stage
      rw [hphase]
      cases hp : (s.procs p).phase <;> rw [hp] at hstage <;> simp only [Stage, ha] at hstage ⊢ <;> rw [hpoll]
      case idle => exact ⟨hstage.1, nofun, fun hne => absurd hw hne⟩
      case expire =>
        refine ⟨nofun, hstage.2.1, hw, ?_⟩
        have hpq : p ≠ q := by rintro rfl; rw [hp] at hq; cases hq
        simp only [State.ret, State.set, Function.update_of_ne hpq]
        exact hstage.2.2.2
      case mysql => exact ⟨nofun, hstage.2.1, hw⟩
      case setConfig => exact ⟨nofun, hstage.2.1, hw⟩
      case setFlag => exact ⟨nofun, hstage.2.1, hw⟩
      case expireFlag => exact ⟨nofun, hstage.2.1, hw, Nat.le_succ_of_le hstage.2.2.2⟩
    · rw [hpoll]
      simp [State.ret, State.set]
    · rw [hpoll]
      intro e he
      rcases List.mem_append.mp he with he | he
      · exact h.waited e he
      · rw [List.mem_singleton.mp he]
        simp [State.set, hw]

/-- A step of the process that leads: its next phase, and the rest. -/
theorem inv_goto {s t : State} {p : Nat} (h : Inv s p) (hothers : ∀ q, q ≠ p → t.procs q = s.procs q)
    (hstage : Stage t p (t.procs p).phase) (hcounted : t.access ≠ some 0) (hwaited : ∀ e ∈ t.returned, e.1 = none) :
    Inv t p where
  others q hq := by rw [hothers q hq]; exact h.others q hq
  stage := hstage
  counted := hcounted
  waited := hwaited

theorem inv_resume {s t : State} {p q : Nat} (h : Inv s p) (hs : resume s q = some t) : Inv t p := by
  have hqp : q = p := by
    apply h.leads
    intro hq
    rw [resume, hq] at hs
    cases hs
  subst hqp
  have hstage := h.stage
  unfold resume at hs
  cases hp : (s.procs q).phase <;> rw [hp] at hstage hs <;> simp only [Stage] at hstage
  case idle => cases hs
  case mysql => cases hs
  case expire =>
    cases hs
    refine inv_goto h ?_ ?_ h.counted ?_
    · intro r hr
      simp [State.goto, State.set, State.ret, hr]
    · simp only [State.goto, State.set, State.ret, Function.update_self]
      exact ⟨hstage.1, hstage.2.1, hstage.2.2.1⟩
    · intro e he
      rcases List.mem_append.mp he with he | he
      · exact h.waited e he
      · rw [List.mem_singleton.mp he]
        exact hstage.2.2.2
  case setConfig a =>
    cases hs
    refine inv_goto h ?_ ?_ h.counted h.waited
    · intro r hr
      simp [State.goto, State.set, hr]
    · simp only [State.goto, State.set, Function.update_self]
      exact hstage
  case setFlag a =>
    cases hs
    refine inv_goto h ?_ ?_ ?_ h.waited
    · intro r hr
      simp [State.goto, State.set, hr]
    · simp only [State.goto, State.set, Function.update_self]
      exact ⟨nofun, hstage.2.1, hstage.2.2, Nat.le_add_left ..⟩
    · simp [State.goto, State.set, DEPREDIS_SYN_SUCCESS_FLAG]
  case expireFlag a =>
    cases hs
    refine inv_goto h ?_ ?_ h.counted h.waited
    · intro r hr
      simp [State.update, State.set, hr]
    · simp only [State.update, State.set, Function.update_self]
      exact ⟨hstage.2.1, fun ha => absurd ha hstage.1, fun _ => hstage.2.2.2⟩

theorem inv_mysql {s : State} {p q : Nat} (h : Inv s p) (hq : (s.procs q).phase = .mysql) (row : Option Argst) :
    Inv (onMysqlGetKeyConfig s q row) p := by
  have hqp : q = p := h.leads (by rw [hq]; exact nofun)
  subst hqp
  have hstage := h.stage
  rw [hq] at hstage
  simp only [Stage] at hstage
  cases row with
  | none =>
    refine inv_goto h ?_ ?_ h.counted h.waited
    · intro r hr
      simp [onMysqlGetKeyConfig, State.goto, State.set, hr]
    · simp [onMysqlGetKeyConfig, State.goto, State.set, Stage, hstage]
  | some a =>
    refine inv_goto h ?_ ?_ h.counted h.waited
    · intro r hr
      simp [onMysqlGetKeyConfig, State.goto, State.set, hr]
    · simp [onMysqlGetKeyConfig, State.goto, State.set, Stage, hstage]

theorem inv_step {s t : State} {l : Label} (h : ∃ p, Inv s p) (hl : Unflagged s l) (hs : step s l = some t) :
    ∃ p, Inv t p := by
  obtain ⟨p, h⟩ := h
  cases l with
  | poll q =>
    simp only [step] at hs
    split at hs
    · rename_i hq
      cases hs
      exact inv_poll h hq hl
    · cases hs
  | resume q => exact ⟨p, inv_resume h hs⟩
  | mysql q row =>
    simp only [step] at hs
    split at hs
    · rename_i hq
      cases hs
      exact ⟨p, inv_mysql h hq row⟩
    · cases hs

theorem inv_start (old : Option Argst) (version : Nat → Option Int) : Inv (start old version) 0 where
  others _ _ := rfl
  stage := ⟨Nat.zero_le 1, fun _ => rfl, fun h => absurd rfl h⟩
  counted := nofun
  waited := nofun

/-! ### A poll that finds the flag -/

/-- Redis has sent the poll to MySQL, and it has not asked yet. -/
def Phase.pending : Phase → Nat
  | .expire | .del | .incr | .mysql => 1
  | _ => 0

structure Elections (s : State) : Prop where
  counted : ∀ p, s.elected.count p = s.reads.count p + (s.procs p).phase.pending
  begun : ∀ p, (s.procs p).phase ≠ .idle → s.elected ≠ []
  access : s.access ≠ none → s.elected ≠ []
  flagged : ∀ n ∈ s.counts, DEPREDIS_SYN_SUCCESS_FLAG ≤ n →
    2 ≤ s.elected.length ∨ ∃ p, (s.procs p).phase = .getConfig
  config : s.config = [] ∨ ∃ a : Argst, s.config = a.fields

theorem phase_goto (s : State) (p q : Nat) (phase : Phase) :
    ((s.goto p phase).procs q).phase = if q = p then phase else (s.procs q).phase := by
  by_cases hq : q = p
  · rw [hq, if_pos rfl]
    simp [State.goto, State.set]
  · rw [if_neg hq]
    simp [State.goto, State.set, hq]

theorem phase_update (s : State) (p q : Nat) (cur : Option Int) :
    ((s.update p cur).procs q).phase = if q = p then .idle else (s.procs q).phase := by
  by_cases hq : q = p
  · rw [hq, if_pos rfl]
    simp [State.update, State.set]
  · rw [if_neg hq]
    simp [State.update, State.set, hq]

theorem config_unread {s : State} (h : Elections s) : redisGetKeyConfig (hgetall s.config) = none := by
  rcases h.config with hc | ⟨a, hc⟩
  · rw [hc]; rfl
  · rw [hc]; exact redisGetKeyConfig_fields a

theorem config_hmset {s : State} (h : Elections s) (a : Argst) : hmset s.config a = a.fields := by
  rcases h.config with hc | ⟨b, hc⟩
  · rw [hc]; exact hmset_nil a
  · rw [hc]; exact hmset_fields a b

/-- A step of a process that neither elects nor reads: it stays as pending as it was. -/
theorem elections_goto {s t : State} {p : Nat} {phase : Phase} (h : Elections s)
    (hphase : ∀ q, (t.procs q).phase = if q = p then phase else (s.procs q).phase)
    (hpending : phase.pending = (s.procs p).phase.pending) (hp : (s.procs p).phase ≠ .idle)
    (hget : (s.procs p).phase ≠ .getConfig) (helected : t.elected = s.elected) (hreads : t.reads = s.reads)
    (hcounts : t.counts = s.counts) (hconfig : t.config = s.config ∨ ∃ a : Argst, t.config = a.fields) :
    Elections t where
  counted q := by
    rw [helected, hreads, hphase, h.counted]
    by_cases hq : q = p
    · rw [if_pos hq, hq, hpending]
    · rw [if_neg hq]
  begun _ _ := by rw [helected]; exact h.begun p hp
  access _ := by rw [helected]; exact h.begun p hp
  flagged n hn hle := by
    rw [hcounts] at hn
    rw [helected]
    refine (h.flagged n hn hle).imp_right ?_
    rintro ⟨q, hq⟩
    refine ⟨q, ?_⟩
    rw [hphase, if_neg, hq]
    rintro rfl
    exact hget hq
  config := by
    rcases hconfig with hc | hc
    · rw [hc]; exact h.config
    · exact .inr hc

theorem elections_poll {s : State} {p : Nat} (h : Elections s) (hp : (s.procs p).phase = .idle) :
    Elections (poll s p) := by
  have hset : ∀ q, (Function.update s.procs p { s.procs p with after := s.written } q).phase = (s.procs q).phase := by
    intro q
    by_cases hq : q = p
    · rw [hq, Function.update_self]
    · rw [Function.update_of_ne hq]
  have hone : s.access.getD 0 + 1 > 1 → s.elected ≠ [] := by
    intro hgt
    apply h.access
    intro hnone
    rw [hnone, Option.getD_none] at hgt
    omega
  simp only [poll]
  split
  · rename_i hgt
    split
    · rename_i hlt
      refine ⟨?_, ?_, fun _ => hone hgt, ?_, h.config⟩
      · intro q
        simp only [State.ret, State.set, hset]
        exact h.counted q
      · intro q _
        exact hone hgt
      · intro n hn hle
        simp only [State.ret, State.set, hset]
        rcases List.mem_append.mp hn with hn | hn
        · exact h.flagged n hn hle
        · rw [List.mem_singleton.mp hn] at hle
          omega
    · refine ⟨?_, fun q _ => hone hgt, fun _ => hone hgt, ?_, h.config⟩
      · intro q
        rw [phase_goto]
        simp only [State.goto, State.set, hset]
        rw [h.counted]
        by_cases hq : q = p
        · rw [if_pos hq, hq, hp]; rfl
        · rw [if_neg hq]
      · intro n _ _
        exact .inr ⟨p, by rw [phase_goto, if_pos rfl]⟩
  · rename_i hle
    have hnone : DEPREDIS_SYN_SUCCESS_FLAG > 1 := by decide
    refine ⟨?_, ?_, ?_, ?_, h.config⟩
    · intro q
      rw [phase_goto]
      simp only [State.goto, State.set, State.elect, hset, List.count_append, h.counted]
      by_cases hq : q = p
      · rw [if_pos hq, hq, hp, List.count_singleton_self]; rfl
      · rw [if_neg hq, List.count_singleton, if_neg]
        · omega
        · exact fun he => hq (beq_iff_eq.mp he).symm
    · intro q _
      simp [State.goto, State.set, State.elect]
    · intro _
      simp [State.goto, State.set, State.elect]
    · intro n hn hflag
      rcases List.mem_append.mp hn with hn | hn
      · rcases h.flagged n hn hflag with htwo | ⟨q, hq⟩
        · refine .inl ?_
          simp only [State.goto, State.set, State.elect, List.length_append]
          omega
        · refine .inr ⟨q, ?_⟩
          rw [phase_goto, if_neg]
          · simp only [State.elect, State.set, hset]
            exact hq
          · rintro rfl
            rw [hp] at hq
            cases hq
      · rw [List.mem_singleton.mp hn] at hflag
        omega

theorem elections_resume {s t : State} {p : Nat} (h : Elections s) (hs : resume s p = some t) : Elections t := by
  unfold resume at hs
  cases hp : (s.procs p).phase <;> rw [hp] at hs
  case idle => cases hs
  case mysql => cases hs
  case getConfig =>
    rw [config_unread h] at hs
    cases hs
    have hne : s.elected ≠ [] := h.begun p (by rw [hp]; exact nofun)
    have hpos : 0 < s.elected.length := List.length_pos_of_ne_nil hne
    refine ⟨?_, ?_, ?_, ?_, h.config⟩
    · intro q
      rw [phase_goto]
      simp only [State.goto, State.set, State.elect, List.count_append, h.counted]
      by_cases hq : q = p
      · rw [if_pos hq, hq, hp, List.count_singleton_self]; rfl
      · rw [if_neg hq, List.count_singleton, if_neg]
        · omega
        · exact fun he => hq (beq_iff_eq.mp he).symm
    · intro q _
      simp [State.goto, State.set, State.elect]
    · intro _
      simp [State.goto, State.set, State.elect]
    · intro n _ _
      refine .inl ?_
      simp only [State.goto, State.set, State.elect, List.length_append, List.length_singleton]
      omega
  case del =>
    cases hs
    exact elections_goto h (fun q => phase_goto _ p q .incr) (by rw [hp]; rfl) (by rw [hp]; exact nofun)
      (by rw [hp]; exact nofun) rfl rfl rfl (.inl rfl)
  case incr =>
    cases hs
    exact elections_goto h (fun q => phase_goto _ p q .expire) (by rw [hp]; rfl) (by rw [hp]; exact nofun)
      (by rw [hp]; exact nofun) rfl rfl rfl (.inl rfl)
  case expire =>
    cases hs
    exact elections_goto h (fun q => phase_goto _ p q .mysql) (by rw [hp]; rfl) (by rw [hp]; exact nofun)
      (by rw [hp]; exact nofun) rfl rfl rfl (.inl rfl)
  case setConfig a =>
    cases hs
    exact elections_goto h (fun q => phase_goto _ p q (.setFlag a)) (by rw [hp]; rfl) (by rw [hp]; exact nofun)
      (by rw [hp]; exact nofun) rfl rfl rfl (.inr ⟨a, config_hmset h a⟩)
  case setFlag a =>
    cases hs
    exact elections_goto h (fun q => phase_goto _ p q (.expireFlag a)) (by rw [hp]; rfl) (by rw [hp]; exact nofun)
      (by rw [hp]; exact nofun) rfl rfl rfl (.inl rfl)
  case expireFlag a =>
    cases hs
    exact elections_goto h (fun q => phase_update _ p q (some a.cur)) (by rw [hp]; rfl) (by rw [hp]; exact nofun)
      (by rw [hp]; exact nofun) rfl rfl rfl (.inl rfl)

theorem elections_mysql {s : State} {p : Nat} (h : Elections s) (hp : (s.procs p).phase = .mysql)
    (row : Option Argst) : Elections (onMysqlGetKeyConfig s p row) := by
  have hrow : ∀ phase : Phase, phase.pending = 0 →
      Elections ({ s with reads := s.reads ++ [p] }.goto p phase) := by
    intro phase hpending
    refine ⟨?_, fun q _ => h.begun p (by rw [hp]; exact nofun), h.access, ?_, h.config⟩
    · intro q
      rw [phase_goto]
      simp only [State.goto, State.set, List.count_append, h.counted]
      by_cases hq : q = p
      · rw [if_pos hq, hq, hp, List.count_singleton_self, hpending]; rfl
      · rw [if_neg hq, List.count_singleton, if_neg]
        · omega
        · exact fun he => hq (beq_iff_eq.mp he).symm
    · intro n hn hle
      refine (h.flagged n hn hle).imp_right ?_
      rintro ⟨q, hq⟩
      refine ⟨q, ?_⟩
      rw [phase_goto, if_neg, hq]
      rintro rfl
      rw [hp] at hq
      cases hq
  cases row with
  | none => exact hrow .idle rfl
  | some a => exact hrow (.setConfig a) rfl

theorem elections_step {s t : State} {l : Label} (h : Elections s) (hs : step s l = some t) : Elections t := by
  cases l with
  | poll p =>
    simp only [step] at hs
    split at hs
    · rename_i hp
      cases hs
      exact elections_poll h hp
    · cases hs
  | resume p => exact elections_resume h hs
  | mysql p row =>
    simp only [step] at hs
    split at hs
    · rename_i hp
      cases hs
      exact elections_mysql h hp row
    · cases hs

theorem elections_start (old : Option Argst) (version : Nat → Option Int) : Elections (start old version) where
  counted _ := rfl
  begun _ hp := absurd rfl hp
  access h := absurd rfl h
  flagged _ hn := absurd hn List.not_mem_nil
  config := by
    cases old with
    | none => exact .inl rfl
    | some a => exact .inr ⟨a, rfl⟩

def Idle (s : State) : Prop := ∀ p, (s.procs p).phase = .idle

/-- When every poll has ended, a poll that found the flag has read MySQL after another one. -/
theorem Elections.counts_lt {s : State} (h : Elections s) (hidle : Idle s) (hs : s.reads.length ≤ 1) :
    ∀ n ∈ s.counts, n < DEPREDIS_SYN_SUCCESS_FLAG := by
  intro n hn
  by_contra hge
  have hperm : s.elected.Perm s.reads := by
    rw [List.perm_iff_count]
    intro p
    rw [h.counted, hidle]
    rfl
  rcases h.flagged n hn (Nat.le_of_not_lt hge) with htwo | ⟨p, hp⟩
  · rw [hperm.length_eq] at htwo
    omega
  · rw [hidle p] at hp
    cases hp

/-! ### Runs -/

/-- The count that a step finds, if it begins a poll. -/
def found (s : State) : Label → List Nat
  | .poll _ => [s.access.getD 0 + 1]
  | _ => []

theorem counts_step {s t : State} {l : Label} (hs : step s l = some t) : t.counts = s.counts ++ found s l := by
  cases l with
  | poll p =>
    simp only [step] at hs
    split at hs
    · cases hs
      simp only [poll, found]
      split
      · split <;> rfl
      · rfl
    · cases hs
  | resume p =>
    simp only [step, resume] at hs
    simp only [found, List.append_nil]
    split at hs
    · cases hs
    · cases hs
    · split at hs <;> cases hs <;> rfl
    all_goals cases hs; rfl
  | mysql p row =>
    simp only [step] at hs
    simp only [found, List.append_nil]
    split at hs
    · cases hs
      cases row <;> rfl
    · cases hs

theorem guarded_iff {s t : State} {as : List Label} (h : Lts.run step s as = some t) :
    (∀ n ∈ t.counts, n < DEPREDIS_SYN_SUCCESS_FLAG) ↔
      (∀ n ∈ s.counts, n < DEPREDIS_SYN_SUCCESS_FLAG) ∧ Lts.Guarded step Unflagged s as := by
  induction as generalizing s with
  | nil =>
    simp only [Lts.run, Option.some.injEq] at h
    rw [h]
    exact (and_iff_left trivial).symm
  | cons l as ih =>
    obtain ⟨u, hu, hr⟩ := Lts.run_cons.mp h
    have hguard : Lts.Guarded step Unflagged s (l :: as) ↔ Unflagged s l ∧ Lts.Guarded step Unflagged u as := by
      refine and_congr_right fun _ => ⟨fun hg => hg u hu, ?_⟩
      intro hg v hv
      rw [hu] at hv
      cases hv
      exact hg
    have hfound : (∀ n ∈ found s l, n < DEPREDIS_SYN_SUCCESS_FLAG) ↔ Unflagged s l := by
      cases l <;> simp [found, Unflagged]
    rw [ih hr, hguard, counts_step hu, List.forall_mem_append, hfound, and_assoc]

/-- As long as no poll finds the success flag set, one process reads MySQL and the others wait for it. A poll that
finds the flag reads MySQL once more, before it ends. -/
theorem config_synchronised {old : Option Argst} {version : Nat → Option Int} {s : State} {as : List Label}
    (h : Lts.run step (start old version) as = some s) :
    (Lts.Guarded step Unflagged (start old version) as → Synchronised s) ∧
      (Idle s → s.reads.length ≤ 1 → Lts.Guarded step Unflagged (start old version) as) := by
  refine ⟨?_, ?_⟩
  · intro hg
    obtain ⟨p, hp⟩ := Lts.run_invariant_of_guarded (fun _ _ _ => inv_step) h hg ⟨0, inv_start old version⟩
    exact hp.synchronised
  · intro hidle hs
    have he := Lts.run_invariant (fun _ _ _ he => elections_step he) h (elections_start old version)
    exact ((guarded_iff h).mp (he.counts_lt hidle hs)).2

/-- Two servers: the second polls when the first has written the configuration, and reads MySQL itself. -/
theorem config_fallback : ∃ as s, Lts.run step (start none fun _ => none) as = some s ∧ ¬Synchronised s := by
  have hcheck : Lts.check step (fun _ _ => true) (fun s => decide (s.reads = [0, 1])) (start none fun _ => none)
      [.poll 0, .resume 0, .mysql 0 (some ⟨"{}", 7⟩), .resume 0, .resume 0, .resume 0,
        .poll 1, .resume 1, .resume 1, .resume 1, .resume 1, .mysql 1 (some ⟨"{}", 7⟩)] = true := by
    decide +kernel
  obtain ⟨s, hrun, -, hreads⟩ := Lts.of_check (G := fun _ _ => True) (fun _ _ _ => trivial) hcheck
  refine ⟨_, s, hrun, ?_⟩
  intro hs
  have hreads := of_decide_eq_true hreads
  have hone : (0 : Nat) = 1 := hs.1 0 (by simp [hreads]) 1 (by simp [hreads])
  cases hone

/-- The first server writes the configuration while the second waits for it. -/
theorem config_waited :
    ∃ as s, Lts.run step (start none fun _ => none) as = some s ∧ s.written = some ⟨"{}", 7⟩ ∧ Synchronised s := by
  have hcheck : Lts.check step (fun s l => match l with
        | .poll _ => decide (s.access.getD 0 + 1 < DEPREDIS_SYN_SUCCESS_FLAG)
        | _ => true)
      (fun s => decide (s.written = some ⟨"{}", 7⟩)) (start none fun _ => none)
      [.poll 0, .resume 0, .mysql 0 (some ⟨"{}", 7⟩), .poll 1, .resume 0, .resume 0, .resume 0] = true := by
    decide +kernel
  obtain ⟨s, hrun, hguard, hw⟩ := Lts.of_check (G := Unflagged) (fun s l hl => by
    cases l with
    | poll p => simpa [Unflagged] using hl
    | resume p => trivial
    | mysql p row => trivial) hcheck
  exact ⟨_, s, hrun, of_decide_eq_true hw, (config_synchronised hrun).1 hguard⟩

end SvrDeplyBase
end Skynet
