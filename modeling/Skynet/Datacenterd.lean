import Mathlib.Logic.Function.Basic
import Mathlib.Data.List.Basic
import Mathlib.Data.List.Nodup
import Skynet.Lib.Run

/-!
# Skynet.Datacenterd

The service `datacenterd` (`service/datacenterd.lua`): a tree of Lua tables that `UPDATE` writes and `QUERY`
reads along a path of keys, and a tree of wait queues for the `WAIT` commands whose path has no value yet.

A key is a Lua value that is no table (a table in a message is a new object, and the same key as no other).
`none` is an error. `waiting t path` has the `WAIT` commands in the queue of a path.

* `Claimed` : no `WAIT` is pending on a path with a value, and each is answered with the value of its path.
* `Kept` : the same, but a `WAIT` is answered with an error when its path becomes a branch.
* `waits_answered` : so it is in every run whose updates do not reach a pending `WAIT` from above, or with nil from below.
* `branch_not_awaited` : a pending `WAIT` whose path becomes a branch gets an error.
-/

namespace Skynet
namespace Datacenterd

/-- A value that is no table, and not nil. -/
inductive Atom
  | boolean (b : Bool)
  | string (s : String)
  /-- Numbers, functions and light userdata. -/
  | other (n : Nat)
deriving Repr, DecidableEq

inductive Value
  | nil
  | atom (a : Atom)
  | table (t : Atom → Value)

abbrev Table := Atom → Value

def Value.truthy : Value → Bool
  | .nil => false
  | .atom (.boolean b) => b
  | _ => true

def Value.isNil : Value → Bool
  | .nil => true
  | _ => false

/-- The key that a value is. -/
def Value.key : Value → Option Atom
  | .atom a => some a
  | _ => none

/-- The names in the metatable of strings. -/
def stringNames : List String :=
  ["byte", "char", "dump", "find", "format", "gmatch", "gsub", "len", "lower", "match", "pack", "packsize", "rep",
    "reverse", "sub", "unpack", "upper"]

/-- `v[k]`. A string has the functions of its library. -/
def index : Value → Atom → Option Value
  | .table t, k => some (t k)
  | .atom (.string _), .string name => some (if name ∈ stringNames then .atom (.other 0) else .nil)
  | .atom (.string _), _ => some .nil
  | _, _ => none

def query : Value → List Atom → Option Value
  | db, [] => some db
  | db, k :: ks =>
    match index db k with
    | some d => query d ks
    | none => none

/-- `command.QUERY`. -/
def commandQuery (database : Table) : List Atom → Option Value
  | [] => some .nil
  | k :: ks => if (database k).truthy then query (database k) ks else some .nil

/-- `update`, with the value before. -/
def update : Table → List Atom → Value → Option (Value × Table)
  | _, [], _ => none
  | db, [k], v => some (db k, Function.update db k v)
  | db, k :: ks, v =>
    match db k with
    | .nil => (update (fun _ => .nil) ks v).map fun r => (r.1, Function.update db k (.table r.2))
    | .table t => (update t ks v).map fun r => (r.1, Function.update db k (.table r.2))
    | .atom _ => none

/-! ### Wait queues -/

/-- An entry of `wait_queue`: a queue of `WAIT` commands, or a branch. -/
inductive Node
  | nil
  | queue (rs : List Nat)
  | branch (t : Atom → Node)

abbrev Nodes := Atom → Node

def waitfor : Nodes → List Atom → Nat → Option Nodes
  | _, [], _ => none
  | t, [k], r =>
    match t k with
    | .nil => some (Function.update t k (.queue [r]))
    | .queue rs => some (Function.update t k (.queue (rs ++ [r])))
    | .branch _ => none
  | t, k :: ks, r =>
    match t k with
    | .nil => (waitfor (fun _ => .nil) ks r).map fun b => Function.update t k (.branch b)
    | .branch b => (waitfor b ks r).map fun b => Function.update t k (.branch b)
    | .queue _ => none

/-- What `wakeup` has found: a queue to answer with the value, or one to answer with an error. -/
inductive Woken
  | nothing
  | values (rs : List Nat)
  | errors (rs : List Nat)
deriving Repr, DecidableEq

/-- `wakeup` with the keys of an update and its value, which is the last argument. -/
def wakeup : Nodes → List (Option Atom) → Nodes × Woken
  | t, some k :: rest =>
    match t k with
    | .nil => (t, .nothing)
    | .queue rs => (Function.update t k .nil, if rest.length = 1 then .values rs else .errors rs)
    | .branch b => (Function.update t k (.branch (wakeup b rest).1), (wakeup b rest).2)
  | t, _ => (t, .nothing)

/-- The `WAIT` commands in the queue of a path. -/
def waiting : Nodes → List Atom → List Nat
  | _, [] => []
  | t, [k] =>
    match t k with
    | .queue rs => rs
    | _ => []
  | t, k :: ks =>
    match t k with
    | .branch b => waiting b ks
    | _ => []

/-! ### Commands -/

inductive Reply
  | value (v : Value)
  | error

/-- The answer to a `WAIT` that was pending, with what its path has when it is answered. -/
structure Answer where
  id : Nat
  reply : Reply
  held : Option Value

structure State where
  database : Table
  waitQueue : Nodes
  waits : Nat
  path : Nat → List Atom
  answers : List Answer

def init : State :=
  { database := fun _ => .nil, waitQueue := fun _ => .nil, waits := 0, path := fun _ => [], answers := [] }

/-- The answers of an update that has left the database `db`. -/
def answer (s : State) (db : Table) (reply : Reply) (rs : List Nat) : List Answer :=
  rs.map fun r => ⟨r, reply, query (.table db) (s.path r)⟩

/-- `command.UPDATE`; an error leaves the service as it is. -/
def commandUpdate (s : State) (path : List Atom) (v : Value) : State :=
  match update s.database path v with
  | none => s
  | some (ret, db) =>
    if ret.truthy ∨ v.isNil then { s with database := db }
    else
      let (t, woken) := wakeup s.waitQueue (path.map some ++ [v.key])
      let s' := { s with database := db, waitQueue := t }
      match woken with
      | .nothing => s'
      | .values rs => { s' with answers := s.answers ++ answer s db (.value v) rs }
      | .errors rs => { s' with answers := s.answers ++ answer s db .error rs }

/-- `WAIT`. It is pending if there is no value and no error. -/
def commandWait (s : State) (path : List Atom) : State :=
  match commandQuery s.database path with
  | none => s
  | some d =>
    if d.truthy then s
    else
      match waitfor s.waitQueue path s.waits with
      | none => s
      | some t => { s with waitQueue := t, waits := s.waits + 1, path := Function.update s.path s.waits path }

inductive Label
  | update (path : List Atom) (v : Value)
  | query (path : List Atom)
  | wait (path : List Atom)

def step (s : State) : Label → Option State
  | .update path v => some (commandUpdate s path v)
  | .query _ => some s
  | .wait path => some (commandWait s path)

/-! ### The claimed behaviour -/

/-- No pending `WAIT` has a path that `QUERY` answers. -/
def NoneMissed (s : State) : Prop :=
  ∀ path d, waiting s.waitQueue path ≠ [] → commandQuery s.database path = some d → d.truthy = false

/-- No `WAIT` is answered twice, and none that is pending is answered. -/
structure Once (s : State) : Prop where
  answers : (s.answers.map Answer.id).Nodup
  pending : ∀ path, ∀ r ∈ waiting s.waitQueue path, r ∉ s.answers.map Answer.id

/-- An answer with the value of the path. -/
def Answer.Valued (a : Answer) : Prop := ∃ v, a.reply = .value v ∧ a.held = some v

/-- An error, when the path has become a branch. -/
def Answer.Branched (a : Answer) : Prop := a.reply = .error ∧ ∃ t, a.held = some (.table t)

structure Claimed (s : State) : Prop where
  missed : NoneMissed s
  once : Once s
  valued : ∀ a ∈ s.answers, a.Valued

structure Kept (s : State) : Prop where
  missed : NoneMissed s
  once : Once s
  valued : ∀ a ∈ s.answers, a.Valued ∨ a.Branched

/-! ### The tree of wait queues -/

/-- The queue of an entry. -/
def Node.rs : Node → List Nat
  | .queue rs => rs
  | _ => []

/-- The entries below an entry. -/
def Node.children : Node → Nodes
  | .branch b => b
  | _ => fun _ => .nil

theorem waiting_empty (path : List Atom) : waiting (fun _ => .nil) path = [] := by
  cases path with
  | nil => rfl
  | cons k ks => cases ks <;> rfl

theorem waiting_single (t : Nodes) (k : Atom) : waiting t [k] = (t k).rs := by
  simp only [waiting]
  cases t k <;> rfl

theorem waiting_cons (t : Nodes) (k : Atom) {ks : List Atom} (h : ks ≠ []) :
    waiting t (k :: ks) = waiting (t k).children ks := by
  cases ks with
  | nil => exact absurd rfl h
  | cons k' ks =>
    simp only [waiting]
    cases t k with
    | nil => exact (waiting_empty _).symm
    | queue rs => exact (waiting_empty _).symm
    | branch b => rfl

/-- A path has a queue only where the entry of its first key says so. -/
theorem waiting_congr {t t' : Nodes} {k : Atom} (h : t' k = t k) (ks : List Atom) :
    waiting t' (k :: ks) = waiting t (k :: ks) := by
  cases ks with
  | nil => rw [waiting_single, waiting_single, h]
  | cons k' ks =>
    have hne : k' :: ks ≠ [] := nofun
    rw [waiting_cons t' k hne, waiting_cons t k hne, h]

theorem waitfor_single {t t' : Nodes} {k : Atom} {r : Nat} (h : waitfor t [k] r = some t') :
    t' = Function.update t k (.queue ((t k).rs ++ [r])) ∧ (t k).children = fun _ => .nil := by
  simp only [waitfor] at h
  split at h
  · rename_i hk
    cases h
    rw [hk]
    exact ⟨rfl, rfl⟩
  · rename_i rs hk
    cases h
    rw [hk]
    exact ⟨rfl, rfl⟩
  · cases h

theorem waitfor_cons {t t' : Nodes} {k : Atom} {ks : List Atom} {r : Nat} (hne : ks ≠ [])
    (h : waitfor t (k :: ks) r = some t') :
    ∃ b, waitfor (t k).children ks r = some b ∧ t' = Function.update t k (.branch b) ∧ (t k).rs = [] := by
  cases ks with
  | nil => exact absurd rfl hne
  | cons k' ks =>
    simp only [waitfor] at h
    cases hk : t k with
    | nil =>
      rw [hk] at h
      obtain ⟨b, hb, rfl⟩ := Option.map_eq_some_iff.mp h
      exact ⟨b, hb, rfl, rfl⟩
    | queue rs => rw [hk] at h; cases h
    | branch b₀ =>
      rw [hk] at h
      obtain ⟨b, hb, rfl⟩ := Option.map_eq_some_iff.mp h
      exact ⟨b, hb, rfl, rfl⟩

theorem waiting_waitfor {t t' : Nodes} {path : List Atom} {r : Nat} (h : waitfor t path r = some t') (p : List Atom) :
    waiting t' p = if p = path then waiting t p ++ [r] else waiting t p := by
  induction path generalizing t t' p with
  | nil => cases h
  | cons k ks ih =>
    cases p with
    | nil => rw [if_neg (by nofun)]; rfl
    | cons k' ps =>
      by_cases hk : k' = k
      · subst hk
        by_cases hks : ks = []
        · subst hks
          obtain ⟨rfl, hchildren⟩ := waitfor_single h
          cases ps with
          | nil => rw [if_pos rfl, waiting_single, waiting_single, Function.update_self]; rfl
          | cons k'' ps =>
            have hne : k'' :: ps ≠ [] := nofun
            rw [if_neg (by simp), waiting_cons _ _ hne, waiting_cons _ _ hne, Function.update_self, hchildren]
            rfl
        · obtain ⟨b, hb, rfl, hrs⟩ := waitfor_cons hks h
          by_cases hps : ps = []
          · subst hps
            rw [if_neg (by simpa using hks), waiting_single, waiting_single, Function.update_self, hrs]
            rfl
          · rw [waiting_cons _ _ hps, waiting_cons _ _ hps, Function.update_self]
            change waiting b ps = _
            rw [ih hb ps]
            simp only [List.cons.injEq, true_and]
      · have hupdate : t' k' = t k' := by
          by_cases hks : ks = []
          · subst hks
            rw [(waitfor_single h).1, Function.update_of_ne hk]
          · obtain ⟨b, -, rfl, -⟩ := waitfor_cons hks h
            rw [Function.update_of_ne hk]
        rw [if_neg fun he => hk (List.cons.inj he).1]
        exact waiting_congr hupdate ps

theorem waiting_branch {t : Nodes} {k : Atom} {b : Nodes} (h : t k = .branch b) (p : List Atom) :
    waiting t (k :: p) = waiting b p := by
  cases p with
  | nil => rw [waiting_single, h]; rfl
  | cons k' p =>
    have hne : k' :: p ≠ [] := nofun
    rw [waiting_cons t k hne, h]
    rfl

/-- A path along the arguments of `wakeup` is empty, or starts with the first key. -/
theorem along_cons {k : Option Atom} {args rest : List (Option Atom)} {p : List Atom}
    (h : k :: args = p.map some ++ rest) : p = [] ∨ ∃ k' p', k = some k' ∧ p = k' :: p' ∧ args = p'.map some ++ rest := by
  cases p with
  | nil => exact .inl rfl
  | cons k' p =>
    obtain ⟨hk, hargs⟩ := List.cons.inj h
    exact .inr ⟨k', p, hk, rfl, hargs⟩

/-- What `wakeup` does: it finds no queue along the keys, or takes the only one there is. -/
theorem wakeup_spec (t : Nodes) (args : List (Option Atom)) :
    ((∀ p rest, args = p.map some ++ rest → waiting t p = []) ∧ (wakeup t args).2 = .nothing ∧
      ∀ p, waiting (wakeup t args).1 p = waiting t p) ∨
    ∃ p rest, args = p.map some ++ rest ∧
      (wakeup t args).2 = (if rest.length = 1 then .values (waiting t p) else .errors (waiting t p)) ∧
      (∀ p', waiting (wakeup t args).1 p' = if p' = p then [] else waiting t p') ∧
      ∀ p' rest', args = p'.map some ++ rest' → p' ≠ p → waiting t p' = [] := by
  induction args generalizing t with
  | nil =>
    refine .inl ⟨?_, rfl, fun _ => rfl⟩
    intro p rest h
    rw [List.map_eq_nil_iff.mp (List.append_eq_nil_iff.mp h.symm).1]
    rfl
  | cons k args ih =>
    cases k with
    | none =>
      refine .inl ⟨?_, rfl, fun _ => rfl⟩
      intro p rest h
      rcases along_cons h with rfl | ⟨k', p', hk, -⟩
      · rfl
      · cases hk
    | some k =>
      simp only [wakeup]
      cases hk : t k with
      | nil =>
        refine .inl ⟨?_, rfl, fun _ => rfl⟩
        intro p rest h
        rcases along_cons h with rfl | ⟨k', p', hk', rfl, -⟩
        · rfl
        · cases hk'
          rw [waiting_congr (t := fun _ => .nil) hk p']
          exact waiting_empty _
      | queue rs =>
        have hqueue : waiting t [k] = rs := by rw [waiting_single, hk]; rfl
        have hbelow : ∀ p, p ≠ [] → waiting t (k :: p) = [] := by
          intro p hp
          rw [waiting_cons t k hp, hk]
          exact waiting_empty _
        refine .inr ⟨[k], args, rfl, by rw [hqueue], ?_, ?_⟩
        · intro p
          cases p with
          | nil => rw [if_neg (by nofun)]; rfl
          | cons k' p =>
            by_cases he : k' = k
            · subst he
              have hnone : waiting (Function.update t k' .nil) (k' :: p) = [] := by
                rw [waiting_congr (t := fun _ => .nil) (Function.update_self ..) p]
                exact waiting_empty _
              rw [hnone]
              split
              · rfl
              · rename_i hp
                rw [hbelow p (by simpa using hp)]
            · rw [if_neg fun h => he (List.cons.inj h).1]
              exact waiting_congr (Function.update_of_ne he ..) p
        · intro p rest h hne
          rcases along_cons h with rfl | ⟨k', p', hk', rfl, -⟩
          · rfl
          · cases hk'
            exact hbelow p' (by simpa using hne)
      | branch b =>
        have hbranch := waiting_branch hk
        have hafter : ∀ b' k' p, waiting (Function.update t k (.branch b')) (k' :: p) =
            if k' = k then waiting b' p else waiting t (k' :: p) := by
          intro b' k' p
          split
          · rename_i he
            subst he
            exact waiting_branch (Function.update_self ..) p
          · rename_i he
            exact waiting_congr (Function.update_of_ne he ..) p
        rcases ih b with ⟨hnone, hwoken, hsame⟩ | ⟨p, rest, hargs, hwoken, hsame, hother⟩
        · refine .inl ⟨?_, hwoken, ?_⟩
          · intro p rest h
            rcases along_cons h with rfl | ⟨k', p', hk', rfl, hargs⟩
            · rfl
            · cases hk'
              rw [hbranch]
              exact hnone p' rest hargs
          · intro p
            cases p with
            | nil => rfl
            | cons k' p =>
              rw [hafter]
              split
              · rename_i he
                rw [he, hbranch, hsame]
              · rfl
        · refine .inr ⟨k :: p, rest, by rw [hargs]; rfl, by rw [hbranch]; exact hwoken, ?_, ?_⟩
          · intro p'
            cases p' with
            | nil => rw [if_neg (by nofun)]; rfl
            | cons k' p' =>
              rw [hafter]
              by_cases he : k' = k
              · rw [if_pos he, he, hsame, hbranch]
                simp only [List.cons.injEq, true_and]
              · rw [if_neg he, if_neg fun h => he (List.cons.inj h).1]
          · intro p' rest' h hne
            rcases along_cons h with rfl | ⟨k', p'', hk', rfl, hargs'⟩
            · rfl
            · cases hk'
              rw [hbranch]
              exact hother p'' rest' hargs' fun he => hne (by rw [he])

/-! ### The tree of values -/

theorem query_table (t : Table) (k : Atom) (ks : List Atom) : query (.table t) (k :: ks) = query (t k) ks := rfl

/-- The table below a key, which is made if it is not there. -/
theorem update_cons {db db' : Table} {k : Atom} {ks : List Atom} {v ret : Value} (hne : ks ≠ [])
    (h : update db (k :: ks) v = some (ret, db')) :
    ∃ t t', (db k = .nil ∧ t = (fun _ => .nil) ∨ db k = .table t) ∧ update t ks v = some (ret, t') ∧
      db' = Function.update db k (.table t') := by
  cases ks with
  | nil => exact absurd rfl hne
  | cons k' ks =>
    simp only [update] at h
    cases hk : db k with
    | nil =>
      rw [hk] at h
      obtain ⟨⟨ret', t'⟩, ht', he⟩ := Option.map_eq_some_iff.mp h
      cases he
      exact ⟨_, t', .inl ⟨rfl, rfl⟩, ht', rfl⟩
    | table t =>
      rw [hk] at h
      obtain ⟨⟨ret', t'⟩, ht', he⟩ := Option.map_eq_some_iff.mp h
      cases he
      exact ⟨t, t', .inr rfl, ht', rfl⟩
    | atom a => rw [hk] at h; cases h

theorem query_update_self (db : Table) (k : Atom) (v : Value) (ks : List Atom) :
    query (.table (Function.update db k v)) (k :: ks) = query v ks := by
  rw [query_table, Function.update_self]

theorem query_update_of_ne (db : Table) {k k' : Atom} (v : Value) (ks : List Atom) (h : k' ≠ k) :
    query (.table (Function.update db k v)) (k' :: ks) = query (.table db) (k' :: ks) := by
  rw [query_table, query_table, Function.update_of_ne h]

section Update

variable {db db' : Table} {u : List Atom} {v ret : Value}

/-- At the path of the update and below it stands the value. -/
theorem query_update (h : update db u v = some (ret, db')) (r : List Atom) :
    query (.table db') (u ++ r) = query v r := by
  induction u generalizing db db' with
  | nil => cases h
  | cons k ks ih =>
    by_cases hks : ks = []
    · subst hks
      cases h
      exact query_update_self db k v r
    · obtain ⟨t, t', -, ht, rfl⟩ := update_cons hks h
      rw [List.cons_append, query_update_self]
      exact ih ht

/-- Above the path of the update stand tables. -/
theorem query_update_above {p : List Atom} {k : Atom} {r : List Atom} (h : update db (p ++ k :: r) v = some (ret, db')) :
    ∃ t, query (.table db') p = some (.table t) := by
  induction p generalizing db db' with
  | nil => exact ⟨db', rfl⟩
  | cons k' p ih =>
    have hne : p ++ k :: r ≠ [] := List.append_ne_nil_of_right_ne_nil _ (by nofun)
    obtain ⟨t, t', -, ht, rfl⟩ := update_cons hne h
    rw [query_update_self]
    exact ih ht

/-- Elsewhere nothing new is found. -/
theorem query_update_elsewhere (h : update db u v = some (ret, db')) {p : List Atom} {d : Value}
    (hq : query (.table db') p = some d) (hd : d.truthy = true) :
    (∃ r, p = u ++ r) ∨ (∃ k r, u = p ++ k :: r) ∨ query (.table db) p = some d := by
  induction u generalizing db db' p with
  | nil => cases h
  | cons k ks ih =>
    cases p with
    | nil => exact .inr (.inl ⟨k, ks, rfl⟩)
    | cons k' ps =>
      by_cases hk : k' = k
      · subst hk
        by_cases hks : ks = []
        · subst hks
          exact .inl ⟨ps, rfl⟩
        · obtain ⟨t, t', hbelow, ht, rfl⟩ := update_cons hks h
          rw [query_update_self] at hq
          rcases ih ht hq with ⟨r, rfl⟩ | ⟨k, r, rfl⟩ | hold
          · exact .inl ⟨r, rfl⟩
          · exact .inr (.inl ⟨k, r, rfl⟩)
          · rcases hbelow with ⟨hnil, rfl⟩ | htable
            · -- the table was made for the update, and was empty
              cases ps with
              | nil =>
                obtain ⟨k, r, rfl⟩ := List.exists_cons_of_ne_nil hks
                exact .inr (.inl ⟨k, r, rfl⟩)
              | cons k₂ ps =>
                cases ps with
                | nil => cases hold; cases hd
                | cons k₃ ps => cases hold
            · refine .inr (.inr ?_)
              rw [query_table, htable]
              exact hold
      · have hsame : query (.table db') (k' :: ps) = query (.table db) (k' :: ps) := by
          by_cases hks : ks = []
          · subst hks
            cases h
            exact query_update_of_ne db v ps hk
          · obtain ⟨t, t', -, -, rfl⟩ := update_cons hks h
            exact query_update_of_ne db _ ps hk
        rw [hsame] at hq
        exact .inr (.inr hq)

theorem update_empty (h : update (fun _ => .nil) u v = some (ret, db')) : ret = .nil := by
  induction u generalizing db' with
  | nil => cases h
  | cons k ks ih =>
    by_cases hks : ks = []
    · subst hks
      cases h
      rfl
    · obtain ⟨t, t', hbelow, ht, -⟩ := update_cons hks h
      rcases hbelow with ⟨-, rfl⟩ | htable
      · exact ih ht
      · cases htable

/-- A value before the update: the path had it. -/
theorem query_of_ret (h : update db u v = some (ret, db')) (hret : ret.truthy = true) :
    query (.table db) u = some ret ∧ ∀ p k r, u = p ++ k :: r → ∃ t, query (.table db) p = some (.table t) := by
  induction u generalizing db db' with
  | nil => cases h
  | cons k ks ih =>
    by_cases hks : ks = []
    · subst hks
      cases h
      refine ⟨rfl, ?_⟩
      intro p k' r he
      cases p with
      | nil => exact ⟨db, rfl⟩
      | cons k₂ p =>
        have := (List.cons.inj he).2
        exact absurd this.symm (List.append_ne_nil_of_right_ne_nil _ (by nofun))
    · obtain ⟨t, t', hbelow, ht, -⟩ := update_cons hks h
      rcases hbelow with ⟨-, rfl⟩ | htable
      · rw [update_empty ht] at hret
        cases hret
      · obtain ⟨h1, h2⟩ := ih ht
        refine ⟨?_, ?_⟩
        · rw [query_table, htable]
          exact h1
        · intro p k' r he
          cases p with
          | nil => exact ⟨db, rfl⟩
          | cons k₂ p =>
            obtain ⟨rfl, he'⟩ := List.cons.inj he
            rw [query_table, htable]
            exact h2 p k' r he'

end Update

/-- `QUERY` finds a value where the tables have it. -/
theorem commandQuery_truthy {db : Table} {p : List Atom} {d : Value} (hp : p ≠ []) (hd : d.truthy = true) :
    commandQuery db p = some d ↔ query (.table db) p = some d := by
  cases p with
  | nil => exact absurd rfl hp
  | cons k ks =>
    rw [query_table, commandQuery]
    split
    · rfl
    · rename_i hfalse
      constructor
      · intro h
        cases h
        cases hd
      · intro h
        cases hk : db k with
        | table t => rw [hk] at hfalse; exact absurd rfl hfalse
        | nil =>
          rw [hk] at h
          cases ks with
          | nil => cases h; cases hd
          | cons k' ks => cases h
        | atom a =>
          rw [hk] at h hfalse
          cases a with
          | boolean b =>
            cases ks with
            | nil => cases h; exact absurd hd hfalse
            | cons k' ks => cases h
          | string x => exact absurd rfl hfalse
          | other n => exact absurd rfl hfalse

/-! ### Runs -/

/-- An update that succeeds meets no pending `WAIT` below its path that its value answers or is the key of, and with
nil it meets none above its path. -/
def Clear (s : State) : Label → Prop
  | .update u v => ∀ ret db, update s.database u v = some (ret, db) →
    (∀ r, r ≠ [] → waiting s.waitQueue (u ++ r) ≠ [] →
      (∀ d, query v r = some d → d.truthy = false) ∧ r ≠ v.key.toList) ∧
    (v.isNil = true → ∀ p k r, u = p ++ k :: r → waiting s.waitQueue p = [])
  | _ => True

structure Ok (s : State) : Prop where
  missed : ∀ p d, waiting s.waitQueue p ≠ [] → query (.table s.database) p = some d → d.truthy = false
  placed : ∀ p, ∀ r ∈ waiting s.waitQueue p, r < s.waits ∧ s.path r = p
  nodup : ∀ p, (waiting s.waitQueue p).Nodup
  answered : ∀ r ∈ s.answers.map Answer.id, r < s.waits
  once : Once s
  valued : ∀ a ∈ s.answers, a.Valued ∨ a.Branched

theorem ok_init : Ok init where
  missed := fun p _ h => absurd (waiting_empty p) h
  placed := fun p r h => absurd (waiting_empty p ▸ h) List.not_mem_nil
  nodup := fun p => by rw [show waiting init.waitQueue p = [] from waiting_empty p]; exact List.nodup_nil
  answered := nofun
  once := ⟨List.nodup_nil, fun _ _ _ => List.not_mem_nil⟩
  valued := nofun

section Ok

variable {s : State}

theorem Ok.kept (ok : Ok s) : Kept s := by
  refine ⟨?_, ok.once, ok.valued⟩
  intro p d hp hq
  cases hd : d.truthy with
  | false => rfl
  | true =>
    have hne : p ≠ [] := by
      rintro rfl
      exact hp rfl
    exact hd.symm.trans (ok.missed p d hp ((commandQuery_truthy hne hd).mp hq))

theorem Ok.wait (ok : Ok s) (path : List Atom) : Ok (commandWait s path) := by
  simp only [commandWait]
  split
  · exact ok
  · rename_i d hquery
    split
    · exact ok
    · rename_i hd
      split
      · exact ok
      · rename_i t ht
        have hwaiting := waiting_waitfor ht
        have hpath : path ≠ [] := by
          rintro rfl
          cases ht
        have hold : ∀ r, r < s.waits → Function.update s.path s.waits path r = s.path r :=
          fun r hr => Function.update_of_ne (Nat.ne_of_lt hr) ..
        refine ⟨?_, ?_, ?_, fun r hr => Nat.lt_succ_of_lt (ok.answered r hr), ⟨ok.once.answers, ?_⟩, ok.valued⟩
        · intro p d' hp hq
          by_cases he : p = path
          · subst he
            cases hd' : d'.truthy with
            | false => rfl
            | true =>
              have := (commandQuery_truthy hpath hd').mpr hq
              rw [hquery] at this
              cases this
              exact absurd hd' hd
          · simp only [hwaiting, if_neg he] at hp
            exact ok.missed p d' hp hq
        · intro p r hr
          simp only [hwaiting] at hr
          split at hr
          · rename_i he
            rw [List.mem_append, List.mem_singleton] at hr
            rcases hr with hr | rfl
            · obtain ⟨h1, h2⟩ := ok.placed p r hr
              exact ⟨Nat.lt_succ_of_lt h1, (hold r h1).trans h2⟩
            · exact ⟨Nat.lt_succ_self _, (Function.update_self ..).trans he.symm⟩
          · obtain ⟨h1, h2⟩ := ok.placed p r hr
            exact ⟨Nat.lt_succ_of_lt h1, (hold r h1).trans h2⟩
        · intro p
          simp only [hwaiting]
          split
          · refine List.nodup_append.mpr ⟨ok.nodup p, List.nodup_singleton _, ?_⟩
            rintro a ha b hb rfl
            rw [List.mem_singleton] at hb
            exact Nat.lt_irrefl _ (hb ▸ (ok.placed p a ha).1)
          · exact ok.nodup p
        · intro p r hr
          simp only [hwaiting] at hr
          split at hr
          · rw [List.mem_append, List.mem_singleton] at hr
            rcases hr with hr | rfl
            · exact ok.once.pending p r hr
            · exact fun hm => Nat.lt_irrefl _ (ok.answered _ hm)
          · exact ok.once.pending p r hr

/-- An update leaves nothing that is waited for at its path and above it: the queues `t` are those of before without
these. -/
theorem Ok.missed_update (ok : Ok s) {u : List Atom} {v ret : Value} {db : Table} {t : Nodes}
    (h : update s.database u v = some (ret, db)) (hclear : Clear s (.update u v))
    (hsub : ∀ p, waiting t p ≠ [] → waiting s.waitQueue p ≠ [])
    (hself : v.truthy = true → waiting t u = []) (habove : ∀ p k r, u = p ++ k :: r → waiting t p = []) :
    ∀ p d, waiting t p ≠ [] → query (.table db) p = some d → d.truthy = false := by
  intro p d hp hq
  cases hd : d.truthy with
  | false => rfl
  | true =>
    rcases query_update_elsewhere h hq hd with ⟨r, rfl⟩ | ⟨k, r, hu⟩ | hold
    · rw [query_update h] at hq
      by_cases hr : r = []
      · subst hr
        cases hq
        rw [List.append_nil] at hp
        exact absurd (hself hd) hp
      · have := ((hclear ret db h).1 r hr (hsub _ hp)).1 d hq
        exact hd.symm.trans this
    · exact absurd (habove p k r hu) hp
    · exact hd.symm.trans (ok.missed p d (hsub p hp) hold)

/-- The queue of the path `p` is answered. -/
theorem Ok.answer (ok : Ok s) {db : Table} {t : Nodes} {p : List Atom} {reply : Reply}
    (hmissed : ∀ p d, waiting t p ≠ [] → query (.table db) p = some d → d.truthy = false)
    (hwaiting : ∀ p', waiting t p' = if p' = p then [] else waiting s.waitQueue p')
    (hreply : ∀ r ∈ waiting s.waitQueue p,
      Answer.Valued ⟨r, reply, query (.table db) (s.path r)⟩ ∨ Answer.Branched ⟨r, reply, query (.table db) (s.path r)⟩) :
    Ok { s with database := db, waitQueue := t
                answers := s.answers ++ Datacenterd.answer s db reply (waiting s.waitQueue p) } := by
  have hids : (Datacenterd.answer s db reply (waiting s.waitQueue p)).map Answer.id = waiting s.waitQueue p := by
    rw [Datacenterd.answer, List.map_map]
    exact List.map_id _
  have hsub : ∀ p' r, r ∈ waiting t p' → p' ≠ p ∧ r ∈ waiting s.waitQueue p' := by
    intro p' r hr
    rw [hwaiting] at hr
    split at hr
    · cases hr
    · rename_i hne
      exact ⟨hne, hr⟩
  refine ⟨hmissed, fun p' r hr => ok.placed p' r (hsub p' r hr).2, ?_, ?_, ⟨?_, ?_⟩, ?_⟩
  · intro p'
    simp only [hwaiting]
    split
    · exact List.nodup_nil
    · exact ok.nodup p'
  · intro r hr
    simp only [List.map_append, hids, List.mem_append] at hr
    rcases hr with hr | hr
    · exact ok.answered r hr
    · exact (ok.placed p r hr).1
  · simp only [List.map_append, hids]
    refine List.nodup_append.mpr ⟨ok.once.answers, ok.nodup p, ?_⟩
    rintro a ha b hb rfl
    exact ok.once.pending p a hb ha
  · intro p' r hr
    obtain ⟨hne, hr⟩ := hsub p' r hr
    simp only [List.map_append, hids, List.mem_append]
    rintro (hm | hm)
    · exact ok.once.pending p' r hr hm
    · exact hne ((ok.placed p' r hr).2.symm.trans (ok.placed p r hm).2)
  · intro a ha
    rcases List.mem_append.mp ha with ha | ha
    · exact ok.valued a ha
    · obtain ⟨r, hr, rfl⟩ := List.mem_map.mp ha
      exact hreply r hr

/-- Only the database changes, or queues that are empty. -/
theorem Ok.unanswered (ok : Ok s) {db : Table} {t : Nodes}
    (hmissed : ∀ p d, waiting t p ≠ [] → query (.table db) p = some d → d.truthy = false)
    (hwaiting : ∀ p, waiting t p = waiting s.waitQueue p) : Ok { s with database := db, waitQueue := t } := by
  refine ⟨hmissed, ?_, ?_, ok.answered, ⟨ok.once.answers, ?_⟩, ok.valued⟩
  · intro p
    simp only [hwaiting]
    exact ok.placed p
  · intro p
    simp only [hwaiting]
    exact ok.nodup p
  · intro p
    simp only [hwaiting]
    exact ok.once.pending p

/-- The paths along the arguments of `wakeup`: the path of the update, one with its value as the last key, and those
above. -/
theorem along_update {u p : List Atom} {x : Option Atom} {rest : List (Option Atom)}
    (h : u.map some ++ [x] = p.map some ++ rest) :
    rest = [x] ∧ p = u ∨ (rest = [] ∧ ∃ a, x = some a ∧ p = u ++ [a]) ∨ rest.length ≠ 1 ∧ ∃ k r, u = p ++ k :: r := by
  induction u generalizing p with
  | nil =>
    rcases along_cons h with rfl | ⟨a, p', hx, rfl, hnil⟩
    · exact .inl ⟨h.symm, rfl⟩
    · obtain ⟨hp, hrest⟩ := List.append_eq_nil_iff.mp hnil.symm
      rw [List.map_eq_nil_iff.mp hp]
      exact .inr (.inl ⟨hrest, a, hx, rfl⟩)
  | cons k us ih =>
    rcases along_cons h with rfl | ⟨a, p', hk, rfl, hargs⟩
    · refine .inr (.inr ⟨?_, k, us, rfl⟩)
      have hrest : rest = some k :: (us.map some ++ [x]) := h.symm
      rw [hrest, List.length_cons, List.length_append]
      exact fun hlen => absurd (Nat.succ.inj hlen) (Nat.succ_ne_zero _)
    · cases hk
      rcases ih hargs with ⟨h1, rfl⟩ | ⟨h1, b, hb, rfl⟩ | ⟨h1, k', r, rfl⟩
      · exact .inl ⟨h1, rfl⟩
      · exact .inr (.inl ⟨h1, b, hb, rfl⟩)
      · exact .inr (.inr ⟨h1, k', r, rfl⟩)

theorem Ok.update (ok : Ok s) {u : List Atom} {v : Value} (hclear : Clear s (.update u v)) : Ok (commandUpdate s u v) := by
  simp only [commandUpdate]
  split
  · exact ok
  · rename_i ret db hupdate
    split
    · rename_i hearly
      refine ok.unanswered (ok.missed_update hupdate hclear (fun _ h => h) ?_ ?_) (fun _ => rfl)
      · intro hv
        rcases hearly with hret | hnil
        · by_contra hne
          rw [ok.missed u ret hne (query_of_ret hupdate hret).1] at hret
          cases hret
        · cases v with
          | nil => cases hv
          | atom a => cases hnil
          | table t => cases hnil
      · intro p k r hu
        rcases hearly with hret | hnil
        · obtain ⟨t, ht⟩ := (query_of_ret hupdate hret).2 p k r hu
          by_contra hne
          cases ok.missed p _ hne ht
        · exact (hclear ret db hupdate).2 hnil p k r hu
    · have hargs : ∀ p k r, u = p ++ k :: r → u.map some ++ [v.key] = p.map some ++ ((k :: r).map some ++ [v.key]) := by
        intro p k r hu
        rw [hu, List.map_append, List.append_assoc]
      rcases wakeup_spec s.waitQueue (u.map some ++ [v.key]) with
        ⟨hnone, hwoken, hsame⟩ | ⟨p, rest, hp, hwoken, hsame, hother⟩
      · rw [hwoken]
        refine ok.unanswered (ok.missed_update hupdate hclear ?_ ?_ ?_) hsame
        · intro p
          rw [hsame]
          exact id
        · intro _
          rw [hsame]
          exact hnone u [v.key] rfl
        · intro p k r hu
          rw [hsame]
          exact hnone p _ (hargs p k r hu)
      · have hmissed := ok.missed_update hupdate hclear (t := (wakeup s.waitQueue (u.map some ++ [v.key])).1) ?_ ?_ ?_
        · rw [hwoken]
          rcases along_update hp with ⟨rfl, rfl⟩ | ⟨rfl, a, ha, rfl⟩ | ⟨hrest, k, r, rfl⟩
          · have hlen : [v.key].length = 1 := rfl
            rw [if_pos hlen]
            refine ok.answer hmissed hsame ?_
            intro r hr
            refine .inl ⟨v, rfl, ?_⟩
            simp only [(ok.placed p r hr).2]
            rw [← List.append_nil p]
            exact query_update hupdate []
          · rw [if_neg (by nofun)]
            refine ok.answer hmissed hsame ?_
            intro r hr
            have hne : waiting s.waitQueue (u ++ [a]) ≠ [] := List.ne_nil_of_mem hr
            have := ((hclear ret db hupdate).1 [a] (by nofun) hne).2
            rw [ha] at this
            exact absurd rfl this
          · rw [if_neg hrest]
            refine ok.answer hmissed hsame ?_
            intro r' hr
            refine .inr ⟨rfl, ?_⟩
            simp only [(ok.placed p r' hr).2]
            exact query_update_above hupdate
        · intro p' hp'
          rw [hsame] at hp'
          split at hp'
          · exact absurd rfl hp'
          · exact hp'
        · intro _
          rw [hsame]
          split
          · rfl
          · rename_i hne
            exact hother u [v.key] rfl hne
        · intro p' k r hu
          rw [hsame]
          split
          · rfl
          · rename_i hne
            exact hother p' _ (hargs p' k r hu) hne

end Ok

theorem ok_step {s s' : State} {l : Label} (ok : Ok s) (hclear : Clear s l) (h : step s l = some s') : Ok s' := by
  cases l with
  | update path v => cases h; exact ok.update hclear
  | query path => cases h; exact ok
  | wait path => cases h; exact ok.wait path

theorem waits_answered {s : State} {ls : List Label} (hrun : Lts.run step init ls = some s)
    (hclear : Lts.Guarded step Clear init ls) : Kept s :=
  (Lts.run_invariant_of_guarded (fun _ _ _ ok hclear h => ok_step ok hclear h) hrun hclear ok_init).kept

theorem clear_of_unawaited {s : State} {u : List Atom} {v : Value} (hv : v.isNil = false)
    (h : ∀ r, r ≠ [] → waiting s.waitQueue (u ++ r) = []) : Clear s (.update u v) := by
  intro ret db _
  refine ⟨fun r hr hne => absurd (h r hr) hne, ?_⟩
  intro hnil
  rw [hv] at hnil
  cases hnil

/-- A `WAIT` that is answered with its value, and one whose path becomes a branch. -/
def waited : List Label :=
  [.wait [.string "hello"], .update [.string "hello"] (.atom (.string "world")), .wait [.string "key"],
    .update [.string "key", .string "foobar"] (.atom (.string "bingo"))]

theorem waits_answered_waited : ∃ s, Lts.run step init waited = some s ∧ s.answers.map Answer.id = [0, 1] ∧ Kept s := by
  obtain ⟨s, hrun, hids⟩ : ∃ s, Lts.run step init waited = some s ∧ s.answers.map Answer.id = [0, 1] := ⟨_, rfl, rfl⟩
  refine ⟨s, hrun, hids, waits_answered hrun ?_⟩
  refine ⟨trivial, ?_⟩
  rintro _ ⟨⟩
  refine ⟨clear_of_unawaited rfl ?_, ?_⟩
  · intro r hr
    exact (waiting_cons _ _ hr).trans (waiting_empty r)
  rintro _ ⟨⟩
  refine ⟨trivial, ?_⟩
  rintro _ ⟨⟩
  refine ⟨clear_of_unawaited rfl ?_, fun _ _ => trivial⟩
  intro r hr
  exact (waiting_cons _ _ (by nofun)).trans (waiting_empty _)

/-- The `WAIT` of `key` is pending, and the update sets `key.foobar`. -/
theorem branch_not_awaited : ∃ s, Lts.run step init
    [.wait [.string "key"], .update [.string "key", .string "foobar"] (.atom (.string "bingo"))] = some s ∧
    s.answers.map Answer.reply = [.error] ∧ ¬ Claimed s := by
  obtain ⟨s, hrun, hreply⟩ : ∃ s, Lts.run step init
    [.wait [.string "key"], .update [.string "key", .string "foobar"] (.atom (.string "bingo"))] = some s ∧
    s.answers.map Answer.reply = [.error] := ⟨_, rfl, rfl⟩
  refine ⟨s, hrun, hreply, ?_⟩
  intro h
  obtain ⟨a, hmem, ha⟩ := List.mem_map.mp (hreply ▸ List.mem_singleton.mpr rfl : Reply.error ∈ s.answers.map Answer.reply)
  obtain ⟨v, hv, -⟩ := h.valued a hmem
  rw [ha] at hv
  cases hv

end Datacenterd
end Skynet
