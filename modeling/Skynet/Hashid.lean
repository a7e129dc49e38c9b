import Mathlib.Algebra.Ring.Int.Defs
import Mathlib.Algebra.Ring.Nat
import Mathlib.Data.List.Nodup
import Mathlib.Data.List.Perm.Subperm
import Skynet.Lib.Linked
import Skynet.Lib.Run

/-!
# Skynet.Hashid

The table of `hashid.h`, in which the gate has the connection of each socket: ids are kept in an array of `cap`
nodes, found by probing from the id, and the nodes in use are linked by the lower bits of their ids.

* A pointer to a node is its index. Ids are not negative; -1 is the id of a node that is free.
* `Fault.overflow` : a sum or a product of `int`s is no `int`, which has no meaning in C.

* `Faithful` : the table is a map from the ids that are present to different indices.
* `table_faithful` : it is so in every run without an insertion that probes past the largest `int`.
* `hashidInsert_overflow_iff` : the other insertions overflow.
-/

namespace Skynet
namespace Gate

@[ext]
structure HashidNode where
  id : Int
  next : Option Nat
deriving Repr, DecidableEq

structure Hashid where
  hashmod : Nat
  cap : Nat
  count : Int
  id : Nat → HashidNode
  hash : Nat → Option Nat

inductive Fault where
  | overflow
  | assertion
  /-- A loop along a chain does not end. -/
  | endless
deriving Repr, DecidableEq

/-- A node as `hashid_init` makes it and `hashid_remove` leaves it. -/
def freeNode : HashidNode := { id := -1, next := none }

/-- The loop that doubles `hashcap`. -/
def hashcapLoop (max : Nat) : Nat → Nat → Except Fault Nat
  | 0, _ => .error .endless
  | fuel + 1, hashcap =>
    if hashcap < max then
      if hashcap * 2 < 2 ^ 31 then hashcapLoop max fuel (hashcap * 2) else .error .overflow
    else .ok hashcap

def hashidInit (max : Nat) : Except Fault Hashid := do
  let hashcap ← hashcapLoop max 32 16
  return { hashmod := hashcap - 1, cap := max, count := 0, id := fun _ => freeNode, hash := fun _ => none }

def lookupLoop (hi : Hashid) (id : Nat) : Nat → Option Nat → Except Fault Int
  | 0, _ => .error .endless
  | _ + 1, none => .ok (-1)
  | fuel + 1, some c => if (hi.id c).id = id then .ok c else lookupLoop hi id fuel (hi.id c).next

def hashidLookup (hi : Hashid) (id : Nat) : Except Fault Int :=
  lookupLoop hi id (hi.cap + 1) (hi.hash (id &&& hi.hashmod))

def setNode (c : Nat) (node : HashidNode) (hi : Hashid) : Hashid := { hi with id := Function.update hi.id c node }

/-- The end of `hashid_remove`, behind the label `_clear`. -/
def clear (c : Nat) (hi : Hashid) : Int × Hashid := (c, { setNode c freeNode hi with count := hi.count - 1 })

def removeLoop (hi : Hashid) (id : Nat) : Nat → Nat → Except Fault (Int × Hashid)
  | 0, _ => .error .endless
  | fuel + 1, c =>
    match (hi.id c).next with
    | none => .ok (-1, hi)
    | some temp =>
      if (hi.id temp).id = id then .ok (clear temp (setNode c { hi.id c with next := (hi.id temp).next } hi))
      else removeLoop hi id fuel temp

/-- The index and the table afterwards. -/
def hashidRemove (hi : Hashid) (id : Nat) : Except Fault (Int × Hashid) :=
  let h := id &&& hi.hashmod
  match hi.hash h with
  | none => .ok (-1, hi)
  | some c =>
    if (hi.id c).id = id then .ok (clear c { hi with hash := Function.update hi.hash h (hi.id c).next })
    else removeLoop hi id (hi.cap + 1) c

/-- The search of `hashid_insert` from `i` on, with `left` passes to go. -/
def findFree (hi : Hashid) (id : Nat) : Nat → Nat → Except Fault (Option Nat)
  | 0, _ => .ok none
  | left + 1, i =>
    if i + id < 2 ^ 31 then
      let index := (i + id) % hi.cap
      if (hi.id index).id = -1 then .ok (some index) else findFree hi id left (i + 1)
    else .error .overflow

def hashidInsert (hi : Hashid) (id : Nat) : Except Fault (Nat × Hashid) := do
  match ← findFree hi id hi.cap 0 with
  | none => .error .assertion
  | some c =>
    if (hi.id c).next = none then
      let h := id &&& hi.hashmod
      let next :=
        match hi.hash h with
        | some first => some first
        | none => (hi.id c).next
      .ok (c, { setNode c { id := id, next := next } hi with
        count := hi.count + 1
        hash := Function.update hi.hash h (some c) })
    else .error .assertion

def hashidFull (hi : Hashid) : Bool := hi.count = hi.cap

/-! ### Runs -/

/-- A table and what it was given: the ids that are present, with the index that `hashid_insert` returned. -/
structure Table where
  hi : Hashid
  given : List (Nat × Nat)
  fault : Option Fault

inductive Label where
  | insert (id : Nat)
  | remove (id : Nat)
  | lookup (id : Nat)
deriving Repr, DecidableEq

/-- The result of a call; after a fault there is no other step. -/
def Table.result {α : Type} (t : Table) (next : α → Table) : Except Fault α → Table
  | .ok a => next a
  | .error e => { t with fault := some e }

/-- One call, with an id of 31 bits. Only ids that are not present are inserted, and only in a table that is not
full. -/
def step (t : Table) (l : Label) : Option Table :=
  if t.fault ≠ none then none
  else
    match l with
    | .insert id =>
      if id < 2 ^ 31 ∧ t.given.lookup id = none ∧ hashidFull t.hi = false then
        some (t.result (fun r => { t with hi := r.2, given := (id, r.1) :: t.given }) (hashidInsert t.hi id))
      else none
    | .remove id =>
      if id < 2 ^ 31 then
        some (t.result (fun r => { t with hi := r.2, given := t.given.filter fun p => p.1 ≠ id }) (hashidRemove t.hi id))
      else none
    | .lookup id => if id < 2 ^ 31 then some (t.result (fun _ => t) (hashidLookup t.hi id)) else none

/-- Probing meets a free node before it leaves the `int`s. -/
def Probes (hi : Hashid) (id : Nat) : Prop := ∃ i < hi.cap, i + id < 2 ^ 31 ∧ (hi.id ((i + id) % hi.cap)).id = -1

def Guard (t : Table) : Label → Prop
  | .insert id => Probes t.hi id
  | _ => True

instance (hi : Hashid) (id : Nat) : Decidable (Probes hi id) :=
  inferInstanceAs (Decidable (∃ i < hi.cap, i + id < 2 ^ 31 ∧ (hi.id ((i + id) % hi.cap)).id = -1))

instance (t : Table) (l : Label) : Decidable (Guard t l) :=
  match l with
  | .insert id => inferInstanceAs (Decidable (Probes t.hi id))
  | .remove _ => .isTrue trivial
  | .lookup _ => .isTrue trivial

/-- What is returned for an id. -/
def answer (given : List (Nat × Nat)) (id : Nat) : Int :=
  match given.lookup id with
  | some c => c
  | none => -1

/-- The table is a map from the ids that are present to different indices of the array. -/
structure Faithful (hi : Hashid) (given : List (Nat × Nat)) : Prop where
  lookup : ∀ id, hashidLookup hi id = .ok (answer given id)
  remove : ∀ id, ∃ hi', hashidRemove hi id = .ok (answer given id, hi')
  lt : ∀ p ∈ given, p.2 < hi.cap
  ids : (given.map Prod.fst).Nodup
  indices : (given.map Prod.snd).Nodup
  count : hi.count = given.length

/-! ### The invariant -/

/-- The chains `b` of the table, and the nodes that are given. -/
structure Inv (hi : Hashid) (given : List (Nat × Nat)) (b : Nat → List Nat) : Prop where
  linked : ∀ h, Linked (fun c => (hi.id c).next) (hi.hash h) (b h)
  nodup : ∀ h, (b h).Nodup
  mem : ∀ h c, c ∈ b h ↔ ∃ id, (id, c) ∈ given ∧ id &&& hi.hashmod = h
  node : ∀ id c, (id, c) ∈ given → (hi.id c).id = id
  free : ∀ c < hi.cap, (∀ id, (id, c) ∉ given) → hi.id c = freeNode
  lt : ∀ p ∈ given, p.2 < hi.cap
  ids : (given.map Prod.fst).Nodup
  count : hi.count = given.length

variable {hi hi' : Hashid} {given : List (Nat × Nat)} {b : Nat → List Nat} {id c : Nat}

/-- An index belongs to one id: the one in its node. -/
theorem Inv.id_eq (inv : Inv hi given b) {id' : Nat} (h : (id, c) ∈ given) (h' : (id', c) ∈ given) : id = id' :=
  Int.ofNat.inj ((inv.node id c h).symm.trans (inv.node id' c h'))

theorem Inv.index_eq (inv : Inv hi given b) {c' : Nat} (h : (id, c) ∈ given) (h' : (id, c') ∈ given) : c = c' := by
  have := List.inj_on_of_nodup_map inv.ids h h' rfl
  exact (Prod.mk.inj this).2

theorem Inv.indices (inv : Inv hi given b) : (given.map Prod.snd).Nodup := by
  refine (List.Nodup.of_map Prod.fst inv.ids).map_on fun p hp q hq heq => ?_
  obtain ⟨id, c⟩ := p
  obtain ⟨id', c'⟩ := q
  cases heq
  rw [inv.id_eq hp hq]

theorem Inv.given_length_le (inv : Inv hi given b) : given.length ≤ hi.cap := by
  have hsub : given.map Prod.snd ⊆ List.range hi.cap := by
    intro c hc
    obtain ⟨p, hp, rfl⟩ := List.mem_map.mp hc
    exact List.mem_range.mpr (inv.lt p hp)
  have hle := (inv.indices.subperm hsub).length_le
  rwa [List.length_map, List.length_range] at hle

/-- A chain is no longer than the array. -/
theorem Inv.chain_length_le (inv : Inv hi given b) (h : Nat) : (b h).length ≤ hi.cap := by
  have hsub : b h ⊆ given.map Prod.snd := by
    intro c hc
    obtain ⟨id, hmem, -⟩ := (inv.mem h c).mp hc
    exact List.mem_map.mpr ⟨(id, c), hmem, rfl⟩
  have hle := ((inv.nodup h).subperm hsub).length_le
  rw [List.length_map] at hle
  exact Nat.le_trans hle inv.given_length_le

theorem mem_of_lookup (h : given.lookup id = some c) : (id, c) ∈ given := by
  obtain ⟨l₁, l₂, rfl, -⟩ := List.lookup_eq_some_iff.mp h
  exact List.mem_append_right _ (List.mem_cons_self ..)

theorem notMem_of_lookup (h : given.lookup id = none) (c : Nat) : (id, c) ∉ given := by
  intro hc
  have := List.lookup_eq_none_iff.mp h _ hc
  simp at this

/-- The chain of an id has a node with it exactly where it was put. -/
theorem Inv.find (inv : Inv hi given b) (id : Nat) :
    (b (id &&& hi.hashmod)).find? (fun c => (hi.id c).id = id) = given.lookup id := by
  have hnode : ∀ c ∈ b (id &&& hi.hashmod), (hi.id c).id = id → (id, c) ∈ given := by
    intro c hc hid
    obtain ⟨id', hmem, -⟩ := (inv.mem _ c).mp hc
    rw [inv.node id' c hmem] at hid
    rwa [← Int.ofNat.inj hid]
  cases hlookup : given.lookup id with
  | none =>
    rw [List.find?_eq_none]
    intro c hc hid
    exact notMem_of_lookup hlookup c (hnode c hc (of_decide_eq_true hid))
  | some c =>
    have hmem := mem_of_lookup hlookup
    have hc : c ∈ b (id &&& hi.hashmod) := (inv.mem _ c).mpr ⟨id, hmem, rfl⟩
    cases hfind : (b (id &&& hi.hashmod)).find? (fun c => (hi.id c).id = id) with
    | none => exact absurd (decide_eq_true (inv.node id c hmem)) (List.find?_eq_none.mp hfind c hc)
    | some c' =>
      have hc' := hnode c' (List.mem_of_find?_eq_some hfind) 
        (of_decide_eq_true (List.find?_some (p := fun c => decide ((hi.id c).id = id)) hfind))
      rw [inv.index_eq hc' hmem]

/-! ### hashid_lookup -/

theorem lookupLoop_eq {fuel : Nat} {o : Option Nat} {cs : List Nat} (h : Linked (fun c => (hi.id c).next) o cs)
    (hfuel : cs.length < fuel) : lookupLoop hi id fuel o =
      .ok (match cs.find? (fun c => (hi.id c).id = id) with | some c => c | none => -1) := by
  induction fuel generalizing o cs with
  | zero => omega
  | succ fuel ih =>
    cases cs with
    | nil =>
      rw [show o = none from h]
      rfl
    | cons c cs =>
      obtain ⟨rfl, hrest⟩ := h
      rw [lookupLoop, List.find?_cons]
      by_cases hid : (hi.id c).id = id
      · simp only [hid, if_true, decide_true]
      · rw [if_neg hid, decide_eq_false hid]
        exact ih hrest (by rw [List.length_cons] at hfuel; omega)

theorem Inv.lookup_eq (inv : Inv hi given b) (id : Nat) : hashidLookup hi id = .ok (answer given id) := by
  have hle := inv.chain_length_le (id &&& hi.hashmod)
  rw [hashidLookup, lookupLoop_eq (inv.linked _) (by omega), inv.find]
  rfl

/-! ### hashid_remove -/

/-- The node `t` of the chain `cs` of `h` is taken out of the table. -/
structure Removed (hi hi' : Hashid) (h t : Nat) (cs : List Nat) : Prop where
  linked : Linked (fun c => (hi'.id c).next) (hi'.hash h) (cs.erase t)
  hash : ∀ h', h' ≠ h → hi'.hash h' = hi.hash h'
  next : ∀ c, c ∉ cs → (hi'.id c).next = (hi.id c).next
  id : ∀ c, c ≠ t → (hi'.id c).id = (hi.id c).id
  cleared : hi'.id t = freeNode
  hashmod : hi'.hashmod = hi.hashmod
  cap : hi'.cap = hi.cap
  count : hi'.count = hi.count - 1

theorem clear_id_of_ne (t : Nat) {c' : Nat} (h : c' ≠ t) : (clear t hi).2.id c' = hi.id c' :=
  Function.update_of_ne h _ _

/-- The first node of a chain. -/
theorem removed_first {h t : Nat} {post : List Nat} (hl : Linked (fun c => (hi.id c).next) (hi.hash h) (t :: post))
    (hnodup : (t :: post).Nodup) :
    Removed hi (clear t { hi with hash := Function.update hi.hash h (hi.id t).next }).2 h t (t :: post) where
  linked := by
    have hhash : (clear t { hi with hash := Function.update hi.hash h (hi.id t).next }).2.hash h = (hi.id t).next :=
      Function.update_self ..
    rw [List.erase_cons_head, hhash]
    refine Linked.congr (fun c hc => ?_) hl.2
    rw [clear_id_of_ne]
    rintro rfl
    exact (List.nodup_cons.mp hnodup).1 hc
  hash h' hne := Function.update_of_ne hne _ _
  next c hc := by rw [clear_id_of_ne t fun heq => hc (heq ▸ List.mem_cons_self ..)]
  id c hc := by rw [clear_id_of_ne t hc]
  cleared := Function.update_self ..
  hashmod := rfl
  cap := rfl
  count := rfl

/-- A node that is behind another one. -/
theorem removed_next {h p t : Nat} {pre post : List Nat}
    (hl : Linked (fun c => (hi.id c).next) (hi.hash h) (pre ++ p :: t :: post)) (hnodup : (pre ++ p :: t :: post).Nodup) :
    Removed hi (clear t (setNode p { hi.id p with next := (hi.id t).next } hi)).2 h t (pre ++ p :: t :: post) := by
  have hp : p ≠ t := by
    rintro rfl
    exact (List.nodup_cons.mp (List.nodup_append.mp hnodup).2.1).1 (List.mem_cons_self ..)
  have ht : t ∉ pre := fun hmem =>
    (List.nodup_append.mp hnodup).2.2 t hmem t (List.mem_cons_of_mem p (List.mem_cons_self ..)) rfl
  have herase : (pre ++ p :: t :: post).erase t = pre ++ p :: post := by
    rw [List.erase_append_right _ ht, List.erase_cons_tail (by simpa using hp), List.erase_cons_head]
  have hset : ∀ c, ((setNode p { hi.id p with next := (hi.id t).next } hi).id c).next =
      Function.update (fun c => (hi.id c).next) p (hi.id t).next c := by
    intro c
    by_cases hc : c = p
    · subst hc
      simp only [setNode, Function.update_self]
    · simp only [setNode, Function.update_of_ne hc]
  refine ⟨?_, fun _ _ => rfl, ?_, ?_, Function.update_self .., rfl, rfl, rfl⟩
  · rw [herase]
    refine Linked.congr (fun c hc => ?_) (Linked.unlink hnodup hl)
    rw [clear_id_of_ne, hset]
    rintro rfl
    rw [← herase] at hc
    exact ((List.Nodup.mem_erase_iff hnodup).mp hc).1 rfl
  · intro c hc
    rw [clear_id_of_ne, hset, Function.update_of_ne]
    · rintro rfl
      exact hc (List.mem_append_right _ (List.mem_cons_self ..))
    · rintro rfl
      exact hc (List.mem_append_right _ (List.mem_cons_of_mem _ (List.mem_cons_self ..)))
  · intro c hc
    rw [clear_id_of_ne t hc]
    by_cases hcp : c = p
    · subst hcp
      simp only [setNode, Function.update_self]
    · simp only [setNode, Function.update_of_ne hcp]

theorem removeLoop_spec {fuel : Nat} {cs : List Nat} (h : Linked (fun c => (hi.id c).next) (hi.id c).next cs)
    (hfuel : cs.length < fuel) :
    (cs.find? (fun c => (hi.id c).id = id) = none ∧ removeLoop hi id fuel c = .ok (-1, hi)) ∨
    ∃ pre p t post, c :: cs = pre ++ p :: t :: post ∧ cs.find? (fun c => (hi.id c).id = id) = some t ∧
      removeLoop hi id fuel c = .ok (clear t (setNode p { hi.id p with next := (hi.id t).next } hi)) := by
  induction fuel generalizing c cs with
  | zero => omega
  | succ fuel ih =>
    cases cs with
    | nil => exact .inl ⟨rfl, by rw [removeLoop, show (hi.id c).next = none from h]⟩
    | cons t cs =>
      obtain ⟨hnext, hrest⟩ := h
      rw [removeLoop, hnext, List.find?_cons]
      by_cases hid : (hi.id t).id = id
      · exact .inr ⟨[], c, t, cs, rfl, by rw [decide_eq_true hid], if_pos hid⟩
      · rw [decide_eq_false hid]
        dsimp only
        rw [if_neg hid]
        obtain hnone | ⟨pre, p, t', post, hcs, hfind, hloop⟩ := ih hrest (by rw [List.length_cons] at hfuel; omega)
        · exact .inl hnone
        · exact .inr ⟨c :: pre, p, t', post, by rw [hcs]; rfl, hfind, hloop⟩

theorem Inv.remove_spec (inv : Inv hi given b) (id : Nat) :
    (given.lookup id = none ∧ hashidRemove hi id = .ok (-1, hi)) ∨
    ∃ t hi', given.lookup id = some t ∧ hashidRemove hi id = .ok ((t : Int), hi') ∧
      Removed hi hi' (id &&& hi.hashmod) t (b (id &&& hi.hashmod)) := by
  have hle := inv.chain_length_le (id &&& hi.hashmod)
  have hl := inv.linked (id &&& hi.hashmod)
  have hnodup := inv.nodup (id &&& hi.hashmod)
  rw [← inv.find id, hashidRemove]
  cases hb : b (id &&& hi.hashmod) with
  | nil =>
    rw [hb] at hl
    rw [show hi.hash _ = none from hl]
    exact .inl ⟨rfl, rfl⟩
  | cons c cs =>
    rw [hb] at hl hnodup hle
    have hhash : hi.hash (id &&& hi.hashmod) = some c := hl.1
    rw [hhash, List.find?_cons]
    dsimp only
    by_cases hid : (hi.id c).id = id
    · rw [if_pos hid, decide_eq_true hid]
      exact .inr ⟨c, _, rfl, rfl, removed_first hl hnodup⟩
    · rw [if_neg hid, decide_eq_false hid]
      obtain hnone | ⟨pre, p, t, post, hcs, hfind, hloop⟩ :=
        removeLoop_spec hl.2 (show cs.length < hi.cap + 1 by rw [List.length_cons] at hle; omega)
      · exact .inl hnone
      · rw [hcs] at hl hnodup
        refine .inr ⟨t, _, hfind, hloop, ?_⟩
        rw [hcs]
        exact removed_next hl hnodup

/-- What is taken out of the table, and what stays. -/
theorem Inv.removed (inv : Inv hi given b) {t : Nat} (ht : (id, t) ∈ given)
    (hr : Removed hi hi' (id &&& hi.hashmod) t (b (id &&& hi.hashmod))) :
    Inv hi' (given.filter fun p => p.1 ≠ id)
      (Function.update b (id &&& hi.hashmod) ((b (id &&& hi.hashmod)).erase t)) := by
  have hfilter : ∀ id' c, (id', c) ∈ given.filter (fun p => p.1 ≠ id) ↔ (id', c) ∈ given ∧ id' ≠ id := by
    intro id' c
    rw [List.mem_filter, decide_eq_true_iff]
  have hne : ∀ id' c, (id', c) ∈ given → (id' ≠ id ↔ c ≠ t) := by
    intro id' c hmem
    refine not_congr ⟨?_, ?_⟩
    · rintro rfl
      exact inv.index_eq hmem ht
    · rintro rfl
      exact inv.id_eq hmem ht
  -- chains are disjoint, as a node has one id
  have hother : ∀ h, h ≠ id &&& hi.hashmod → ∀ c ∈ b h, c ∉ b (id &&& hi.hashmod) := by
    intro h hh c hc hc'
    obtain ⟨id₁, h₁, rfl⟩ := (inv.mem h c).mp hc
    obtain ⟨id₂, h₂, heq⟩ := (inv.mem _ c).mp hc'
    rw [inv.id_eq h₁ h₂] at hh
    exact hh heq
  constructor
  case linked =>
    intro h
    by_cases hh : h = id &&& hi.hashmod
    · rw [hh, Function.update_self]
      exact hr.linked
    · rw [Function.update_of_ne hh, hr.hash h hh]
      exact (inv.linked h).congr fun c hc => hr.next c (hother h hh c hc)
  case nodup =>
    intro h
    by_cases hh : h = id &&& hi.hashmod
    · rw [hh, Function.update_self]
      exact (inv.nodup _).erase t
    · rw [Function.update_of_ne hh]
      exact inv.nodup h
  case mem =>
    intro h c
    rw [hr.hashmod]
    by_cases hh : h = id &&& hi.hashmod
    · rw [hh, Function.update_self, (inv.nodup _).mem_erase_iff, inv.mem]
      constructor
      · rintro ⟨hct, id', hmem, heq⟩
        exact ⟨id', (hfilter id' c).mpr ⟨hmem, (hne id' c hmem).mpr hct⟩, heq⟩
      · rintro ⟨id', hmem, heq⟩
        obtain ⟨hmem, hid⟩ := (hfilter id' c).mp hmem
        exact ⟨(hne id' c hmem).mp hid, id', hmem, heq⟩
    · rw [Function.update_of_ne hh, inv.mem]
      refine exists_congr fun id' => ?_
      rw [hfilter]
      refine ⟨fun ⟨hmem, heq⟩ => ⟨⟨hmem, ?_⟩, heq⟩, fun ⟨⟨hmem, _⟩, heq⟩ => ⟨hmem, heq⟩⟩
      rintro rfl
      exact hh heq.symm
  case node =>
    intro id' c hmem
    obtain ⟨hmem, hid⟩ := (hfilter id' c).mp hmem
    rw [hr.id c ((hne id' c hmem).mp hid)]
    exact inv.node id' c hmem
  case free =>
    intro c hc hnot
    by_cases hct : c = t
    · rw [hct]
      exact hr.cleared
    · have hgiven : ∀ id', (id', c) ∉ given := fun id' hmem =>
        hnot id' ((hfilter id' c).mpr ⟨hmem, (hne id' c hmem).mpr hct⟩)
      have hfree := inv.free c (hr.cap ▸ hc) hgiven
      have hchain : c ∉ b (id &&& hi.hashmod) := by
        intro hmem
        obtain ⟨id', hmem, -⟩ := (inv.mem _ c).mp hmem
        exact hgiven id' hmem
      rw [← hfree]
      exact HashidNode.ext (hr.id c hct) (hr.next c hchain)
  case lt => exact fun p hp => hr.cap ▸ inv.lt p (List.mem_of_mem_filter hp)
  case ids => exact inv.ids.sublist (List.filter_sublist.map _)
  case count =>
    have hcount : (given.filter fun p => p.1 ≠ id).length + 1 = given.length := by
      have hgiven := List.Nodup.of_map Prod.fst inv.ids
      have herase : given.filter (fun p => p.1 ≠ id) = given.erase (id, t) := by
        rw [hgiven.erase_eq_filter]
        refine List.filter_congr fun p hp => ?_
        obtain ⟨id', c⟩ := p
        by_cases hid : id' = id
        · rw [hid] at hp ⊢
          simp [inv.index_eq hp ht]
        · simp [hid]
      rw [herase, List.length_erase_of_mem ht]
      have := List.length_pos_of_mem ht
      omega
    rw [hr.count, inv.count]
    omega

/-! ### hashid_insert -/

/-- A free node that probing meets. -/
theorem findFree_some {left i : Nat} (h : ∃ j, i ≤ j ∧ j < i + left ∧ j + id < 2 ^ 31 ∧ (hi.id ((j + id) % hi.cap)).id = -1) :
    ∃ k, findFree hi id left i = .ok (some ((k + id) % hi.cap)) ∧ (hi.id ((k + id) % hi.cap)).id = -1 := by
  induction left generalizing i with
  | zero =>
    obtain ⟨j, hj, hj', -⟩ := h
    omega
  | succ left ih =>
    obtain ⟨j, hj, hj', hint, hfree⟩ := h
    rw [findFree, if_pos (by omega)]
    by_cases hi' : (hi.id ((i + id) % hi.cap)).id = -1
    · exact ⟨i, if_pos hi', hi'⟩
    · rw [if_neg hi']
      refine ih ⟨j, ?_, by omega, hint, hfree⟩
      have : j ≠ i := by
        rintro rfl
        exact hi' hfree
      omega

/-- All that probing meets as long as it stays in the `int`s is in use. -/
theorem findFree_overflow {left i : Nat} (hused : ∀ j, i ≤ j → j < i + left → j + id < 2 ^ 31 → (hi.id ((j + id) % hi.cap)).id ≠ -1)
    (h : ∃ j, i ≤ j ∧ j < i + left ∧ (hi.id ((j + id) % hi.cap)).id = -1) :
    findFree hi id left i = .error .overflow := by
  induction left generalizing i with
  | zero =>
    obtain ⟨j, hj, hj', -⟩ := h
    omega
  | succ left ih =>
    rw [findFree]
    split
    · rename_i hint
      have hi' := hused i (Nat.le_refl i) (by omega) hint
      rw [if_neg hi']
      obtain ⟨j, hj, hj', hfree⟩ := h
      refine ih (fun j hj hj' => hused j (by omega) (by omega)) ⟨j, ?_, by omega, hfree⟩
      have : j ≠ i := by
        rintro rfl
        exact hi' hfree
      omega
    · rfl

/-- The table with the node `c` for `id`, in front of its chain. -/
def inserted (hi : Hashid) (id c : Nat) : Hashid :=
  { setNode c { id := id, next := hi.hash (id &&& hi.hashmod) } hi with
    count := hi.count + 1
    hash := Function.update hi.hash (id &&& hi.hashmod) (some c) }

theorem hashidInsert_eq (hfind : findFree hi id hi.cap 0 = .ok (some c)) (hfree : hi.id c = freeNode) :
    hashidInsert hi id = .ok (c, inserted hi id c) := by
  rw [hashidInsert, hfind]
  simp only [bind, Except.bind, hfree, freeNode, if_true, inserted]
  cases hi.hash (id &&& hi.hashmod) <;> rfl

theorem Inv.inserted (inv : Inv hi given b) (hlookup : given.lookup id = none) (hc : c < hi.cap)
    (hfree : ∀ id', (id', c) ∉ given) :
    Inv (inserted hi id c) ((id, c) :: given) (Function.update b (id &&& hi.hashmod) (c :: b (id &&& hi.hashmod))) := by
  have hchain : ∀ h, c ∉ b h := by
    intro h hmem
    obtain ⟨id', hmem, -⟩ := (inv.mem h c).mp hmem
    exact hfree id' hmem
  have hnext : (fun n => ((Gate.inserted hi id c).id n).next) =
      Function.update (fun n => (hi.id n).next) c (hi.hash (id &&& hi.hashmod)) := by
    funext n
    by_cases hn : n = c
    · rw [hn]
      simp only [Gate.inserted, setNode, Function.update_self]
    · simp only [Gate.inserted, setNode, Function.update_of_ne hn]
  have hnode : ∀ n, n ≠ c → (Gate.inserted hi id c).id n = hi.id n := fun n hn => Function.update_of_ne hn _ _
  constructor
  case linked =>
    intro h
    rw [hnext]
    simp only [Gate.inserted]
    by_cases hh : h = id &&& hi.hashmod
    · rw [hh, Function.update_self, Function.update_self]
      exact (inv.linked _).push (hchain _)
    · rw [Function.update_of_ne hh, Function.update_of_ne hh]
      exact (inv.linked h).update (hchain h) _
  case nodup =>
    intro h
    by_cases hh : h = id &&& hi.hashmod
    · rw [hh, Function.update_self]
      exact List.nodup_cons.mpr ⟨hchain _, inv.nodup _⟩
    · rw [Function.update_of_ne hh]
      exact inv.nodup h
  case mem =>
    intro h n
    simp only [Gate.inserted, setNode, List.mem_cons, Prod.mk.injEq]
    by_cases hh : h = id &&& hi.hashmod
    · rw [hh, Function.update_self, List.mem_cons, inv.mem]
      constructor
      · rintro (rfl | ⟨id', hmem, heq⟩)
        · exact ⟨id, .inl ⟨rfl, rfl⟩, rfl⟩
        · exact ⟨id', .inr hmem, heq⟩
      · rintro ⟨id', ⟨rfl, rfl⟩ | hmem, heq⟩
        · exact .inl rfl
        · exact .inr ⟨id', hmem, heq⟩
    · rw [Function.update_of_ne hh, inv.mem]
      refine exists_congr fun id' => and_congr_left fun heq => ?_
      constructor
      · exact .inr
      · rintro (⟨rfl, -⟩ | hmem)
        · exact absurd heq.symm hh
        · exact hmem
  case node =>
    intro id' n hmem
    rcases List.mem_cons.mp hmem with heq | hold
    · cases heq
      simp only [Gate.inserted, setNode, Function.update_self]
    · rw [hnode n]
      · exact inv.node id' n hold
      · rintro rfl
        exact hfree id' hold
  case free =>
    intro n hn hnot
    have hne : n ≠ c := by
      rintro rfl
      exact hnot id (List.mem_cons_self ..)
    rw [hnode n hne]
    exact inv.free n hn fun id' hmem => hnot id' (List.mem_cons_of_mem _ hmem)
  case lt =>
    intro p hp
    rcases List.mem_cons.mp hp with rfl | hp
    · exact hc
    · exact inv.lt p hp
  case ids =>
    refine List.nodup_cons.mpr ⟨fun hmem => ?_, inv.ids⟩
    obtain ⟨⟨id', n⟩, hp, rfl⟩ := List.mem_map.mp hmem
    exact notMem_of_lookup hlookup n hp
  case count =>
    simp only [Gate.inserted, List.length_cons]
    rw [inv.count]
    push_cast
    rfl

/-- A node that is not in use has never been touched since it became free. -/
theorem Inv.freeNode_of_id (inv : Inv hi given b) (hc : c < hi.cap) (hid : (hi.id c).id = -1) :
    (∀ id, (id, c) ∉ given) ∧ hi.id c = freeNode := by
  have hgiven : ∀ id, (id, c) ∉ given := by
    intro id hmem
    have := inv.node id c hmem
    omega
  exact ⟨hgiven, inv.free c hc hgiven⟩

theorem Inv.insert_spec (inv : Inv hi given b) (hlookup : given.lookup id = none) (hp : Probes hi id) :
    ∃ c hi' b', hashidInsert hi id = .ok (c, hi') ∧ Inv hi' ((id, c) :: given) b' := by
  obtain ⟨i, hicap, hint, hfree⟩ := hp
  have hmeets : ∃ j, 0 ≤ j ∧ j < 0 + hi.cap ∧ j + id < 2 ^ 31 ∧ (hi.id ((j + id) % hi.cap)).id = -1 :=
    ⟨i, Nat.zero_le i, by omega, hint, hfree⟩
  obtain ⟨k, hfind, hid⟩ := findFree_some hmeets
  have hc : (k + id) % hi.cap < hi.cap := Nat.mod_lt _ (by omega)
  obtain ⟨hgiven, hnode⟩ := inv.freeNode_of_id hc hid
  exact ⟨_, _, _, hashidInsert_eq hfind hnode, inv.inserted hlookup hc hgiven⟩

/-- A table that is not full has a free node. -/
theorem Inv.exists_free (inv : Inv hi given b) (hfull : hashidFull hi = false) : ∃ c < hi.cap, ∀ id, (id, c) ∉ given := by
  by_contra hno
  have hsub : List.range hi.cap ⊆ given.map Prod.snd := by
    intro c hc
    by_contra hnot
    exact hno ⟨c, List.mem_range.mp hc, fun id hmem => hnot (List.mem_map.mpr ⟨(id, c), hmem, rfl⟩)⟩
  have hle := (List.nodup_range.subperm hsub).length_le
  rw [List.length_range, List.length_map] at hle
  have hge := inv.given_length_le
  have hcount := inv.count
  exact of_decide_eq_false hfull (by omega)

/-- Probing passes every node. -/
theorem exists_probe {cap c : Nat} (hc : c < cap) (id : Nat) : ∃ i < cap, (i + id) % cap = c := by
  have hr : id % cap < cap := Nat.mod_lt _ (by omega)
  refine ⟨(c + (cap - id % cap)) % cap, Nat.mod_lt _ (by omega), ?_⟩
  have hsum : c + (cap - id % cap) + id = c + cap * (id / cap + 1) := by
    have := Nat.div_add_mod id cap
    rw [Nat.mul_succ]
    omega
  rw [Nat.mod_add_mod, hsum, Nat.add_mul_mod_self_left, Nat.mod_eq_of_lt hc]

/-- An insertion fails in no other way than by a sum that is no `int`, and only then. -/
theorem Inv.insert_overflow (inv : Inv hi given b) (hfull : hashidFull hi = false) (hp : ¬ Probes hi id) :
    hashidInsert hi id = .error .overflow := by
  obtain ⟨c, hc, hgiven⟩ := inv.exists_free hfull
  obtain ⟨i, hicap, hprobe⟩ := exists_probe hc id
  have hid : (hi.id ((i + id) % hi.cap)).id = -1 := by rw [hprobe, inv.free c hc hgiven]; rfl
  have hfind : findFree hi id hi.cap 0 = .error .overflow := by
    refine findFree_overflow (fun j _ hj hint hfree => hp ⟨j, by omega, hint, hfree⟩) ⟨i, Nat.zero_le i, by omega, hid⟩
  rw [hashidInsert, hfind]
  rfl

theorem Inv.insert_overflow_iff (inv : Inv hi given b) (hlookup : given.lookup id = none) (hfull : hashidFull hi = false) :
    hashidInsert hi id = .error .overflow ↔ ¬ Probes hi id := by
  refine ⟨fun h hp => ?_, inv.insert_overflow hfull⟩
  obtain ⟨c, hi', b', hinsert, -⟩ := inv.insert_spec hlookup hp
  rw [hinsert] at h
  cases h

/-! ### Whole runs -/

theorem Inv.faithful (inv : Inv hi given b) : Faithful hi given where
  lookup := inv.lookup_eq
  remove id := by
    obtain ⟨hlookup, hremove⟩ | ⟨t, hi', hlookup, hremove, -⟩ := inv.remove_spec id
    · exact ⟨hi, by rw [hremove, answer, hlookup]⟩
    · exact ⟨hi', by rw [hremove, answer, hlookup]⟩
  lt := inv.lt
  ids := inv.ids
  indices := inv.indices
  count := inv.count

/-- What every step that meets the condition keeps. -/
def Sound (t : Table) : Prop := t.fault = none ∧ ∃ b, Inv t.hi t.given b

theorem step_sound {t t' : Table} {l : Label} (hs : Sound t) (hg : Guard t l) (h : step t l = some t') : Sound t' := by
  obtain ⟨hfault, b, inv⟩ := hs
  unfold step at h
  rw [if_neg (not_not.mpr hfault)] at h
  cases l with
  | insert id =>
    simp only at h
    split at h
    · rename_i hok
      obtain ⟨c, hi', b', hinsert, inv'⟩ := inv.insert_spec hok.2.1 hg
      rw [hinsert] at h
      cases h
      exact ⟨hfault, b', inv'⟩
    · cases h
  | remove id =>
    simp only at h
    split at h
    · obtain ⟨hlookup, hremove⟩ | ⟨n, hi', hlookup, hremove, hr⟩ := inv.remove_spec id
      · rw [hremove] at h
        cases h
        refine ⟨hfault, b, ?_⟩
        have hsame : t.given.filter (fun p => p.1 ≠ id) = t.given := by
          rw [List.filter_eq_self]
          rintro ⟨id', c⟩ hp
          refine decide_eq_true ?_
          rintro rfl
          exact notMem_of_lookup hlookup c hp
        simp only [hsame]
        exact inv
      · rw [hremove] at h
        cases h
        exact ⟨hfault, _, inv.removed (mem_of_lookup hlookup) hr⟩
    · cases h
  | lookup id =>
    simp only at h
    split at h
    · rw [inv.lookup_eq] at h
      cases h
      exact ⟨hfault, b, inv⟩
    · cases h

theorem hashcapLoop_spec {max fuel k hashcap : Nat} (hcap : hashcap = 2 ^ k) (hk : k ≤ 30) (hfuel : 30 < fuel + k) :
    (max ≤ 2 ^ 30 → ∃ hashcap', hashcapLoop max fuel hashcap = .ok hashcap') ∧
    (2 ^ 30 < max → hashcapLoop max fuel hashcap = .error .overflow) := by
  induction fuel generalizing k hashcap with
  | zero => omega
  | succ fuel ih =>
    have hpow : hashcap ≤ 2 ^ 30 := hcap ▸ Nat.pow_le_pow_right (by decide) hk
    have hdouble : hashcap * 2 = 2 ^ (k + 1) := by rw [hcap, Nat.pow_succ]
    rw [hashcapLoop]
    by_cases hlt : hashcap < max
    · rw [if_pos hlt]
      by_cases hint : hashcap * 2 < 2 ^ 31
      · rw [if_pos hint]
        rw [hdouble] at hint
        have hk' := (Nat.pow_lt_pow_iff_right (by decide)).mp hint
        exact ih hdouble (by omega) (by omega)
      · rw [if_neg hint]
        exact ⟨fun hmax => absurd hlt (by omega), fun _ => rfl⟩
    · rw [if_neg hlt]
      exact ⟨fun _ => ⟨_, rfl⟩, fun hmax => absurd hmax (by omega)⟩

theorem hashidInit_inv {max : Nat} (h : hashidInit max = .ok hi) : Inv hi [] fun _ => [] := by
  rw [hashidInit] at h
  cases hcap : hashcapLoop max 32 16 with
  | error e =>
    rw [hcap] at h
    cases h
  | ok hashcap =>
    rw [hcap] at h
    cases h
    exact ⟨fun _ => rfl, fun _ => List.nodup_nil, fun _ _ => ⟨nofun, nofun⟩, nofun, fun _ _ _ => rfl, nofun,
      List.nodup_nil, rfl⟩

theorem hashidInit_ok {max : Nat} (hmax : max ≤ 2 ^ 30) : ∃ hi, hashidInit max = .ok hi := by
  obtain ⟨hashcap, hcap⟩ := (hashcapLoop_spec (show 16 = 2 ^ 4 by decide) (by decide) (show 30 < 32 + 4 by decide)).1 hmax
  exact ⟨_, by rw [hashidInit, hcap]; rfl⟩

/-- A table for more than `2 ^ 30` ids is never there. -/
theorem hashidInit_overflow {max : Nat} (hmax : 2 ^ 30 < max) : hashidInit max = .error .overflow := by
  have hcap := (hashcapLoop_spec (show 16 = 2 ^ 4 by decide) (by decide) (show 30 < 32 + 4 by decide)).2 hmax
  rw [hashidInit, hcap]
  rfl

def start (hi : Hashid) : Table := { hi := hi, given := [], fault := none }

/-- In every run whose insertions probe within the `int`s, no assertion fails and every chain ends, and the table is a
map from the ids that are present to different indices. -/
theorem table_faithful {max : Nat} (hmax : max ≤ 2 ^ 30) : ∃ hi, hashidInit max = .ok hi ∧
    ∀ (ls : List Label) (t : Table), Lts.run step (start hi) ls = some t → Lts.Guarded step Guard (start hi) ls →
      t.fault = none ∧ Faithful t.hi t.given := by
  obtain ⟨hi, hinit⟩ := hashidInit_ok hmax
  refine ⟨hi, hinit, fun ls t hrun hguard => ?_⟩
  have hstart : Sound (start hi) := ⟨rfl, _, hashidInit_inv hinit⟩
  obtain ⟨hfault, b, inv⟩ := Lts.run_invariant_of_guarded (fun _ _ _ => step_sound) hrun hguard hstart
  exact ⟨hfault, inv.faithful⟩

/-- Three nodes. The id 4 has to probe past the id 1, and takes the node of the id 2, which was removed. -/
def threeNodes : List Label := [.insert 1, .insert 2, .lookup 4, .insert 16, .remove 2, .insert 4]

theorem table_faithful_threeNodes : ∃ hi t, hashidInit 3 = .ok hi ∧ Lts.run step (start hi) threeNodes = some t ∧
    t.given = [(4, 2), (16, 0), (1, 1)] ∧ hashidLookup t.hi 4 = .ok 2 ∧ hashidLookup t.hi 2 = .ok (-1) := by
  obtain ⟨hi, hinit, hfaithful⟩ := table_faithful (show 3 ≤ 2 ^ 30 by decide)
  have hhi : hi = ⟨15, 3, 0, fun _ => freeNode, fun _ => none⟩ := (Except.ok.inj hinit).symm
  obtain ⟨t, hrun, hguard, hgiven⟩ := Lts.of_check (fun _ _ => of_decide_eq_true)
    (show Lts.check step (fun t l => decide (Guard t l)) (fun t => decide (t.given = [(4, 2), (16, 0), (1, 1)])) (start hi)
      threeNodes = true by rw [hhi]; decide)
  have hgiven := of_decide_eq_true hgiven
  have h := (hfaithful threeNodes t hrun hguard).2
  exact ⟨hi, t, hinit, hrun, hgiven, by rw [h.lookup, hgiven]; rfl, by rw [h.lookup, hgiven]; rfl⟩

/-- The largest id meets a node that is taken, and the next sum is no `int`. -/
theorem probing_overflows : ¬ ∀ (max : Nat) (hi : Hashid) (ls : List Label) (t : Table), hashidInit max = .ok hi →
    Lts.run step (start hi) ls = some t → t.fault = none ∧ Faithful t.hi t.given := by
  intro h
  have hrun : ∃ t, Lts.run step (start ⟨15, 3, 0, fun _ => freeNode, fun _ => none⟩) [.insert 1, .insert 0x7fffffff] = some t ∧
      t.fault = some .overflow := ⟨_, rfl, rfl⟩
  obtain ⟨t, hrun, hfault⟩ := hrun
  have := (h 3 _ _ t rfl hrun).1
  rw [hfault] at this
  cases this

end Gate
end Skynet
