import Mathlib.Data.List.Basic
import Skynet.Lib.Run
import Skynet.Multicast.Multicastd

/-!
# Skynet.Multicast.Membership

The `multicastd` of several nodes. Messages between two nodes come in the order in which they were sent;
`SUB` of a channel of another node looks up the address of its owner and calls it, and both may yield.

* `Reaches` : a node with a group is known to the owner, when nothing is in flight between the two.
* `subscribed_known` : so it is in every run in which no group is left while a `SUBR` of its node is in flight.
* `subscriber_forgotten` : a `USUBR` that overtakes the reply of a `SUBR` hides the node from the owner.
-/

namespace Skynet
namespace Multicast

open Multicastd

inductive Msg
  | del (c : Nat)
  | delr (c : Nat)
  | subr (source c : Nat)
  | usubr (c : Nat)
  /-- The reply to `SUBR`, for the `SUB` of `source`. -/
  | reply (source c : Nat) (gone : Bool)
deriving Repr, DecidableEq

structure Net where
  node : Nat → Multicastd
  /-- The calls of `SUB` that look up the owner, with their sources and channels. -/
  looking : Nat → List (Nat × Nat)
  queue : Nat → Nat → List Msg
  deleted : Nat → Bool

namespace Net

def init : Net := { node := Multicastd.init, looking := fun _ => [], queue := fun _ _ => [], deleted := fun _ => false }

def setNode (s : Net) (n : Nat) (m : Multicastd) : Net := { s with node := Function.update s.node n m }

def setQueue (s : Net) (a b : Nat) (ms : List Msg) : Net :=
  { s with queue := fun x y => if x = a ∧ y = b then ms else s.queue x y }

def send (s : Net) (a b : Nat) (m : Msg) : Net := s.setQueue a b (s.queue a b ++ [m])

/-- `DEL` on the node `n`. -/
def del (s : Net) (n c : Nat) : Net :=
  if owner c ≠ n then s.send n (owner c) (.del c)
  else
    let (remote, m) := (s.node n).del c
    remote.foldl (fun s r => s.send n r (.delr c))
      { s.setNode n m with deleted := Function.update s.deleted c true }

/-- `USUB` on the node `n`. -/
def usub (s : Net) (n source c : Nat) : Net :=
  match (s.node n).usub source c with
  | some (true, m) => (s.setNode n m).send n (owner c) (.usubr c)
  | some (false, m) => s.setNode n m
  | none => s

/-- A message from `a` at the node `b`. -/
def handle (s : Net) (a b : Nat) : Msg → Net
  | .del c => s.del b c
  | .delr c => s.setNode b ((s.node b).delr c)
  | .subr source c =>
    match (s.node b).subr a c with
    | some (gone, m) => (s.setNode b m).send b a (.reply source c gone)
    | none => s
  | .usubr c =>
    match (s.node b).usubr a c with
    | some m => s.setNode b m
    | none => s
  | .reply source c gone => s.setNode b ((s.node b).subReplied source c gone)

end Net

inductive Label
  | new (n : Nat)
  /-- `SUB` of the service `source`, up to its first yield. -/
  | sub (n source c : Nat)
  /-- `SUB` has the address of the owner, and calls it. -/
  | call (n source c : Nat)
  | usub (n source c : Nat)
  | del (n c : Nat)
  /-- The first message from `a` to `b` is handled. -/
  | deliver (a b : Nat)
deriving Repr, DecidableEq

def step (s : Net) : Label → Option Net
  | .new n =>
    -- a harbor is one byte
    if n < 256 then
      match (s.node n).new with
      | some (_, m) => some (s.setNode n m)
      | none => none
    else none
  | .sub n source c =>
    if (s.node n).subCalls c then
      some { s with looking := Function.update s.looking n (s.looking n ++ [(source, c)]) }
    else some (s.setNode n ((s.node n).subscribe source c))
  | .call n source c =>
    if (source, c) ∈ s.looking n then
      some (Net.send { s with looking := Function.update s.looking n ((s.looking n).erase (source, c)) } n (owner c)
        (.subr source c))
    else none
  | .usub n source c => some (s.usub n source c)
  | .del n c => some (s.del n c)
  | .deliver a b =>
    match s.queue a b with
    | m :: ms => some ((s.setQueue a b ms).handle a b m)
    | [] => none

/-! ### The claimed behaviour -/

/-- What a message to the owner of `c` will make of its entry for the sender. -/
def Msg.up (c : Nat) : Msg → Option Bool
  | .subr _ c' => if c' = c then some true else none
  | .usubr c' => if c' = c then some false else none
  | _ => none

/-- The result of `SUBR` in a reply for `c`. -/
def Msg.down (c : Nat) : Msg → Option Bool
  | .reply _ c' gone => if c' = c then some gone else none
  | _ => none

namespace Net

variable (s : Net) (c r : Nat)

/-- `SUBR` and `USUBR` of `r` for `c` in flight. -/
def ups : List Bool := (s.queue r (owner c)).filterMap (Msg.up c)

/-- Replies to `SUBR` of `r` for `c` in flight. -/
def downs : List Bool := (s.queue (owner c) r).filterMap (Msg.down c)

def grouped : Bool := ((s.node r).channel c).isSome

def created : Bool := ((s.node (owner c)).channel c).isSome

/-- A publish on the owner goes to `r`. -/
def known : Bool := r ∈ ((s.node (owner c)).channelRemote c).getD []

end Net

/-- With nothing in flight between the two, the owner of `c` publishes to each node that has a group. -/
def Reaches (s : Net) : Prop :=
  ∀ c r, r ≠ owner c → s.deleted c = false → s.ups c r = [] → s.downs c r = [] →
    (∃ source group, (s.node r).channel c = some group ∧ source ∈ group) → s.known c r = true

/-! ### The entry of a node and what is in flight -/

/-- The owner has the channel (`e`), the node has a group (`l`), the owner knows the node (`f`), and what is in
flight: if the node has a group or will have one, the owner will know it. -/
structure Agree (e l f : Bool) (up down : List Bool) : Prop where
  nothing : e = false → l = false ∧ false ∉ down
  agree : l = true ∨ true ∈ up ∨ false ∈ down → up.getLast?.getD f = true

section Agree

variable {e l f : Bool} {up down : List Bool}

theorem Agree.call (h : Agree e l f up down) : Agree e l f (up ++ [true]) down :=
  ⟨h.nothing, fun _ => by rw [List.getLast?_concat]; rfl⟩

theorem getLast?_cons_getD (b : Bool) (f : Bool) : (b :: up).getLast?.getD f = up.getLast?.getD b := by
  cases up with
  | nil => rfl
  | cons a up => rw [List.getLast?_cons_cons, List.getLast?_cons]; rfl

theorem Agree.subr (h : Agree true l f (true :: up) down) : Agree true l true up (down ++ [false]) := by
  refine ⟨nofun, fun _ => ?_⟩
  rw [← getLast?_cons_getD true f]
  exact h.agree (.inr (.inl (List.mem_cons_self ..)))

theorem Agree.subr_gone (h : Agree false l f (true :: up) down) : Agree false l f up (down ++ [true]) := by
  obtain ⟨hl, hdown⟩ := h.nothing rfl
  have hdown' : false ∉ down ++ [true] := by
    rw [List.mem_append, List.mem_singleton]
    rintro (hm | hm)
    · exact hdown hm
    · cases hm
  refine ⟨fun _ => ⟨hl, hdown'⟩, ?_⟩
  rintro (hl' | hup | hm)
  · rw [hl] at hl'; cases hl'
  · have := h.agree (.inr (.inl (List.mem_cons_self ..)))
    cases up with
    | nil => cases hup
    | cons b up => rwa [List.getLast?_cons_cons] at this
  · exact absurd hm hdown'

theorem Agree.usubr (h : Agree e l f (false :: up) down) : Agree e l false up down := by
  refine ⟨h.nothing, fun hany => ?_⟩
  rw [← getLast?_cons_getD false f]
  refine h.agree ?_
  rcases hany with hl | hup | hdown
  · exact .inl hl
  · exact .inr (.inl (List.mem_cons_of_mem _ hup))
  · exact .inr (.inr hdown)

theorem Agree.reply {gone : Bool} (h : Agree e l f up (gone :: down)) : Agree e (l || !gone) f up down := by
  refine ⟨fun he => ?_, fun hany => h.agree ?_⟩
  · obtain ⟨hl, hdown⟩ := h.nothing he
    cases gone with
    | false => exact absurd (List.mem_cons_self ..) hdown
    | true => exact ⟨by rw [hl]; rfl, fun hm => hdown (List.mem_cons_of_mem _ hm)⟩
  · rcases hany with hl | hup | hdown
    · rw [Bool.or_eq_true] at hl
      rcases hl with hl | hg
      · exact .inl hl
      · cases gone with
        | false => exact .inr (.inr (List.mem_cons_self ..))
        | true => cases hg
    · exact .inr (.inl hup)
    · exact .inr (.inr (List.mem_cons_of_mem _ hdown))

/-- The group is left, and no `SUBR` is in flight. -/
theorem agree_left (hup : true ∉ up) (hdown : false ∉ down) :
    Agree e false f (up ++ [false]) down := by
  refine ⟨fun he => ⟨rfl, hdown⟩, ?_⟩
  rintro (hl | hm | hm)
  · cases hl
  · rw [List.mem_append, List.mem_singleton] at hm
    rcases hm with hm | hm
    · exact absurd hm hup
    · cases hm
  · exact absurd hm hdown

theorem Agree.delr (h : Agree e l f up down) : Agree e false f up down := by
  refine ⟨fun he => ⟨rfl, (h.nothing he).2⟩, ?_⟩
  rintro (hl | hm)
  · cases hl
  · exact h.agree (.inr hm)

theorem Agree.new (h : Agree e l f up down) : Agree true l f up down := ⟨nofun, h.agree⟩

end Agree

/-! ### The invariant -/

/-- Where a message goes, and what is known when it is in flight. -/
def Msg.Routed (s : Net) (a b : Nat) : Msg → Prop
  | .del _ => True
  | .delr c => s.deleted c = true
  | .subr _ c => b = owner c ∧ a ≠ owner c
  | .usubr c => b = owner c ∧ a ≠ owner c
  | .reply _ c _ => a = owner c ∧ b ≠ owner c

def AgreeAt (s : Net) (c r : Nat) : Prop :=
  Agree (s.created c) (s.grouped c r) (s.known c r) (s.ups c r) (s.downs c r)

/-- The ids of the nodes, and where calls and messages go. -/
structure Static (s : Net) : Prop where
  harbor : ∀ n, (s.node n).harborId = n
  own : ∀ n, n < 256 → owner (s.node n).channelId = n
  looking : ∀ n source c, (source, c) ∈ s.looking n → n ≠ owner c
  routed : ∀ a b, ∀ m ∈ s.queue a b, m.Routed s a b

structure Ok (s : Net) : Prop extends Static s where
  agree : ∀ c r, r ≠ owner c → s.deleted c = false → AgreeAt s c r

section Ok

variable {s s' : Net} {a b c r n : Nat} {m : Msg} {ms : List Msg}

theorem setNode_apply (s : Net) (n : Nat) (d : Multicastd) (n' : Nat) :
    (s.setNode n d).node n' = if n' = n then d else s.node n' := Function.update_apply ..

theorem filterMap_singleton_toList (f : Msg → Option Bool) (m : Msg) : [m].filterMap f = (f m).toList := by
  cases h : f m with
  | none => rw [List.filterMap_cons_none h]; rfl
  | some b => rw [List.filterMap_cons_some h]; rfl

theorem send_ups (s : Net) (a b c r : Nat) (m : Msg) :
    (s.send a b m).ups c r = s.ups c r ++ if r = a ∧ owner c = b then (m.up c).toList else [] := by
  simp only [Net.ups, Net.send, Net.setQueue]
  split
  · rename_i h
    rw [List.filterMap_append, filterMap_singleton_toList, h.1, h.2]
  · rw [List.append_nil]

theorem send_downs (s : Net) (a b c r : Nat) (m : Msg) :
    (s.send a b m).downs c r = s.downs c r ++ if owner c = a ∧ r = b then (m.down c).toList else [] := by
  simp only [Net.downs, Net.send, Net.setQueue]
  split
  · rename_i h
    rw [List.filterMap_append, filterMap_singleton_toList, h.1, h.2]
  · rw [List.append_nil]

theorem pop_ups (hq : s.queue a b = m :: ms) (c r : Nat) :
    s.ups c r = (if r = a ∧ owner c = b then (m.up c).toList else []) ++ (s.setQueue a b ms).ups c r := by
  simp only [Net.ups, Net.setQueue]
  split
  · rename_i h
    rw [h.1, h.2, hq, ← filterMap_singleton_toList, ← List.filterMap_append, List.singleton_append]
  · rfl

theorem pop_downs (hq : s.queue a b = m :: ms) (c r : Nat) :
    s.downs c r = (if owner c = a ∧ r = b then (m.down c).toList else []) ++ (s.setQueue a b ms).downs c r := by
  simp only [Net.downs, Net.setQueue]
  split
  · rename_i h
    rw [h.1, h.2, hq, ← filterMap_singleton_toList, ← List.filterMap_append, List.singleton_append]
  · rfl

theorem mem_pop (hq : s.queue a b = m :: ms) {x y : Nat} {m' : Msg} (hm : m' ∈ (s.setQueue a b ms).queue x y) :
    m' ∈ s.queue x y := by
  simp only [Net.setQueue] at hm
  split at hm
  · rename_i h
    rw [h.1, h.2, hq]
    exact List.mem_cons_of_mem _ hm
  · exact hm

theorem mem_send {x y : Nat} {m' : Msg} (hm : m' ∈ (s.send a b m).queue x y) :
    m' ∈ s.queue x y ∨ x = a ∧ y = b ∧ m' = m := by
  simp only [Net.send, Net.setQueue] at hm
  split at hm
  · rename_i h
    rw [List.mem_append, List.mem_singleton] at hm
    rcases hm with hm | hm
    · rw [h.1, h.2]; exact .inl hm
    · exact .inr ⟨h.1, h.2, hm⟩
  · exact .inl hm

theorem Static.pop (h : Static s) (hq : s.queue a b = m :: ms) : Static (s.setQueue a b ms) :=
  ⟨h.harbor, h.own, h.looking, fun x y m' hm => h.routed x y m' (mem_pop hq hm)⟩

theorem Static.send (h : Static s) (hrouted : m.Routed s a b) : Static (s.send a b m) := by
  refine ⟨h.harbor, h.own, h.looking, ?_⟩
  intro x y m' hm
  rcases mem_send hm with hm | ⟨rfl, rfl, rfl⟩
  · exact h.routed x y m' hm
  · exact hrouted

/-- What a node keeps: its harbor, and the owner of its ids. -/
structure Keeps (d d' : Multicastd) : Prop where
  harbor : d'.harborId = d.harborId
  id : owner d'.channelId = owner d.channelId

theorem Static.setNode (h : Static s) {d : Multicastd} (hkeeps : Keeps (s.node n) d) : Static (s.setNode n d) := by
  refine ⟨?_, ?_, h.looking, h.routed⟩
  · intro n'
    rw [setNode_apply]
    split
    · rename_i he
      rw [he, hkeeps.harbor]; exact h.harbor n
    · exact h.harbor n'
  · intro n' hn'
    rw [setNode_apply]
    split
    · rename_i he
      subst he
      rw [hkeeps.id]; exact h.own n' hn'
    · exact h.own n' hn'

/-- Messages that say nothing about the groups come and go. -/
theorem Ok.pop (ok : Ok s) (hq : s.queue a b = m :: ms) (hup : ∀ c, m.up c = none) (hdown : ∀ c, m.down c = none) :
    Ok (s.setQueue a b ms) := by
  refine ⟨ok.toStatic.pop hq, ?_⟩
  intro c r hne hdel
  have h := ok.agree c r hne hdel
  rw [AgreeAt, pop_ups hq, pop_downs hq, hup, hdown, Option.toList_none, ite_self, ite_self] at h
  exact h

theorem Ok.send (ok : Ok s) (hrouted : m.Routed s a b) (hup : ∀ c, m.up c = none) (hdown : ∀ c, m.down c = none) :
    Ok (s.send a b m) := by
  refine ⟨ok.toStatic.send hrouted, ?_⟩
  intro c r hne hdel
  have h := ok.agree c r hne hdel
  rw [AgreeAt, send_ups, send_downs, hup, hdown, Option.toList_none, ite_self, ite_self, List.append_nil, List.append_nil]
  exact h

theorem setNode_created (s : Net) (n : Nat) (d : Multicastd) (c : Nat) :
    (s.setNode n d).created c = if owner c = n then (d.channel c).isSome else s.created c := by
  rw [Net.created, setNode_apply]
  split <;> rfl

theorem setNode_grouped (s : Net) (n : Nat) (d : Multicastd) (c r : Nat) :
    (s.setNode n d).grouped c r = if r = n then (d.channel c).isSome else s.grouped c r := by
  rw [Net.grouped, setNode_apply]
  split <;> rfl

theorem setNode_known (s : Net) (n : Nat) (d : Multicastd) (c r : Nat) :
    (s.setNode n d).known c r = if owner c = n then decide (r ∈ (d.channelRemote c).getD []) else s.known c r := by
  rw [Net.known, setNode_apply]
  split <;> rfl

theorem created_ite (s : Net) (n c : Nat) :
    (if owner c = n then ((s.node n).channel c).isSome else s.created c) = s.created c := by
  split
  · rename_i he
    rw [Net.created, he]
  · rfl

theorem grouped_ite (s : Net) (n c r : Nat) :
    (if r = n then ((s.node n).channel c).isSome else s.grouped c r) = s.grouped c r := by
  split
  · rename_i he
    rw [Net.grouped, he]
  · rfl

theorem known_ite (s : Net) (n c r : Nat) :
    (if owner c = n then decide (r ∈ ((s.node n).channelRemote c).getD []) else s.known c r) = s.known c r := by
  split
  · rename_i he
    rw [Net.known, he]
  · rfl

/-- A node that keeps which groups it has, and what is remote. -/
theorem Ok.setNode_same (ok : Ok s) {d : Multicastd} (hkeeps : Keeps (s.node n) d)
    (hchannel : ∀ c, s.deleted c = false → (d.channel c).isSome = ((s.node n).channel c).isSome)
    (hremote : ∀ c, s.deleted c = false → d.channelRemote c = (s.node n).channelRemote c) : Ok (s.setNode n d) := by
  refine ⟨ok.toStatic.setNode hkeeps, ?_⟩
  intro c r hne hdel
  have h := ok.agree c r hne hdel
  rw [AgreeAt, setNode_created, setNode_grouped, setNode_known, hchannel c hdel, hremote c hdel, created_ite, grouped_ite,
    known_ite]
  exact h

/-! ### Commands -/

theorem put_isSome (d : Multicastd) (c : Nat) (group : Option (List Nat)) (k : Option Int) (c' : Nat) :
    ((d.put c group k).channel c').isSome = if c' = c then group.isSome else (d.channel c').isSome := by
  simp only [Multicastd.put, Function.update_apply]
  split <;> rfl

theorem subscribe_isSome (d : Multicastd) (source c c' : Nat) :
    ((d.subscribe source c).channel c').isSome = (d.channel c').isSome := by
  simp only [Multicastd.subscribe]
  split
  · rename_i group hg
    split
    · rfl
    · rw [put_isSome]
      split
      · rename_i he
        rw [he, hg]; rfl
      · rfl
  · rfl

theorem subscribe_remote (d : Multicastd) (source c : Nat) :
    (d.subscribe source c).channelRemote = d.channelRemote ∧ Keeps d (d.subscribe source c) := by
  simp only [Multicastd.subscribe]
  split
  · split
    · exact ⟨rfl, rfl, rfl⟩
    · exact ⟨rfl, rfl, rfl⟩
  · exact ⟨rfl, rfl, rfl⟩

theorem Ok.subscribe (ok : Ok s) (n source c : Nat) : Ok (s.setNode n ((s.node n).subscribe source c)) := by
  obtain ⟨hremote, hkeeps⟩ := subscribe_remote (s.node n) source c
  exact ok.setNode_same hkeeps (fun c' _ => subscribe_isSome ..) (fun c' _ => by rw [hremote])

theorem owner_nextid (id : Nat) : owner (nextid id) = owner id := by
  simp only [owner, nextid]
  omega

theorem owner_nextFree {channel : Nat → Option (List Nat)} {fuel id id' : Nat}
    (h : nextFree channel fuel id = some id') : owner id' = owner id := by
  induction fuel generalizing id with
  | zero => cases h
  | succ fuel ih =>
    simp only [nextFree] at h
    split at h
    · exact (ih h).trans (owner_nextid id)
    · cases h; rfl

theorem Ok.new (ok : Ok s) (hn : n < 256) {id : Nat} {d : Multicastd} (hnew : (s.node n).new = some (id, d)) :
    Ok (s.setNode n d) := by
  simp only [Multicastd.new] at hnew
  split at hnew
  · rename_i id' hfree
    cases hnew
    have hid : owner id = n := (owner_nextFree hfree).trans (ok.own n hn)
    refine ⟨ok.toStatic.setNode ⟨rfl, (owner_nextid id).trans (owner_nextFree hfree)⟩, ?_⟩
    intro c r hne hdel
    have h := ok.agree c r hne hdel
    rw [AgreeAt, setNode_created, setNode_grouped, setNode_known, put_isSome,
      show ((s.node n).put id (some []) (some 0)).channelRemote c = (s.node n).channelRemote c from rfl, known_ite]
    by_cases hc : c = id
    · have hr : r ≠ n := by rw [hc, hid] at hne; exact hne
      rw [if_pos hc, if_pos (hc ▸ hid), if_neg hr]
      exact h.new
    · rw [if_neg hc, created_ite, grouped_ite]
      exact h
  · cases hnew

/-- A group that is deleted by its owner. -/
theorem Ok.delr (ok : Ok s) (hdel : s.deleted c = true) (n : Nat) : Ok (s.setNode n ((s.node n).delr c)) := by
  refine ok.setNode_same ⟨rfl, rfl⟩ ?_ (fun _ _ => rfl)
  intro c' hdel'
  rw [Multicastd.delr, put_isSome, if_neg]
  rintro rfl
  rw [hdel] at hdel'
  cases hdel'

theorem Ok.deleted (ok : Ok s) (c : Nat) : Ok { s with deleted := Function.update s.deleted c true } := by
  have hdel : ∀ c', Function.update s.deleted c true c' = false → s.deleted c' = false := by
    intro c' h
    rw [Function.update_apply] at h
    split at h
    · cases h
    · exact h
  refine ⟨⟨ok.harbor, ok.own, ok.looking, ?_⟩, fun c' r hne h => ok.agree c' r hne (hdel c' h)⟩
  intro a b m hm
  have h := ok.routed a b m hm
  cases m with
  | delr c' =>
    change Function.update s.deleted c true c' = true
    rw [Function.update_apply]
    split
    · rfl
    · exact h
  | del c' => exact h
  | subr source c' => exact h
  | usubr c' => exact h
  | reply source c' gone => exact h

theorem Ok.sendDelr (ok : Ok s) (hdel : s.deleted c = true) (n : Nat) (remote : List Nat) :
    Ok (remote.foldl (fun s r => s.send n r (.delr c)) s) := by
  induction remote generalizing s with
  | nil => exact ok
  | cons r remote ih => exact ih (ok.send hdel (fun _ => rfl) (fun _ => rfl)) hdel

theorem Ok.del (ok : Ok s) (n c : Nat) : Ok (s.del n c) := by
  simp only [Net.del]
  split
  · exact ok.send trivial (fun _ => rfl) (fun _ => rfl)
  · have hdel : Function.update s.deleted c true c = true := Function.update_self ..
    have hnode : Ok { s.setNode n ((s.node n).del c).2 with deleted := Function.update s.deleted c true } := by
      have hkeeps : Keeps (s.node n) ((s.node n).del c).2 := ⟨rfl, rfl⟩
      have hne : ∀ c', Function.update s.deleted c true c' = false → c' ≠ c := by
        rintro c' h rfl
        rw [hdel] at h
        cases h
      refine (ok.deleted c).setNode_same hkeeps ?_ ?_
      · intro c' h
        have := hne c' h
        simp only [Multicastd.del, put_isSome, if_neg this]
      · intro c' h
        exact Function.update_of_ne (hne c' h) ..
    exact hnode.sendDelr hdel n _

theorem up_subr (source c c' : Nat) : (Msg.subr source c).up c' = if c = c' then some true else none := rfl

theorem up_usubr (c c' : Nat) : (Msg.usubr c).up c' = if c = c' then some false else none := rfl

theorem down_reply (source c : Nat) (gone : Bool) (c' : Nat) :
    (Msg.reply source c gone).down c' = if c = c' then some gone else none := rfl

/-- `SUBR` is sent. -/
theorem Ok.call (ok : Ok s) (n source c : Nat) (hne : n ≠ owner c) : Ok (s.send n (owner c) (.subr source c)) := by
  refine ⟨ok.toStatic.send ⟨rfl, hne⟩, ?_⟩
  intro c' r hr hdel
  have h := ok.agree c' r hr hdel
  rw [AgreeAt, send_ups, send_downs, show (Msg.subr source c).down c' = none from rfl, Option.toList_none, ite_self,
    List.append_nil, up_subr]
  split
  · split
    · exact h.call
    · rw [Option.toList_none, List.append_nil]
      exact h
  · rw [List.append_nil]
    exact h

/-- What `SUBR` does at the owner. -/
theorem subr_owner {d : Multicastd} {node : Nat} (hnode : node ≠ d.harborId) (howner : owner c = d.harborId) :
    d.subr node c = some (!(d.channel c).isSome,
      if (d.channel c).isSome then
        { d with channelRemote := Function.update d.channelRemote c (some (((d.channelRemote c).getD []).insert node)) }
      else d) := by
  simp only [Multicastd.subr]
  cases d.channel c with
  | none => rfl
  | some group => rw [if_pos ⟨hnode, howner⟩]; rfl

/-- `SUBR` at the owner. -/
theorem Ok.subr (ok : Ok s) {source : Nat} (hq : s.queue a b = .subr source c :: ms) :
    Ok ((s.setQueue a b ms).handle a b (.subr source c)) := by
  obtain ⟨rfl, ha⟩ := ok.routed a b _ (hq ▸ List.mem_cons_self ..)
  have hnode : a ≠ (s.node (owner c)).harborId := by rw [ok.harbor]; exact ha
  have hstatic := ok.toStatic.pop hq
  generalize hs₁ : s.setQueue a (owner c) ms = s₁ at hstatic
  have hups : ∀ c' r, s.ups c' r = (if r = a ∧ c = c' then [true] else []) ++ s₁.ups c' r := by
    intro c' r
    rw [pop_ups hq, hs₁, up_subr]
    by_cases hc : c = c'
    · subst hc; simp
    · simp [hc]
  have hdowns : ∀ c' r, s.downs c' r = s₁.downs c' r := by
    intro c' r
    rw [pop_downs hq c' r, hs₁, show (Msg.subr source c).down c' = none from rfl, Option.toList_none, ite_self]; rfl
  have hnode₁ : s₁.node = s.node := by rw [← hs₁]; rfl
  have hdel₁ : s₁.deleted = s.deleted := by rw [← hs₁]; rfl
  rw [Net.handle, hnode₁, subr_owner hnode (ok.harbor _).symm]
  simp only
  refine ⟨(hstatic.setNode ?_).send ⟨rfl, ha⟩, ?_⟩
  · rw [hnode₁]
    split
    · exact ⟨rfl, rfl⟩
    · exact ⟨rfl, rfl⟩
  · intro c' r hne hdel
    have h := ok.agree c' r hne (hdel₁ ▸ hdel)
    rw [AgreeAt, hups, hdowns] at h
    rw [AgreeAt, send_ups, send_downs, show (Msg.reply source c _).up c' = none from rfl, Option.toList_none, ite_self,
      List.append_nil, down_reply]
    change Agree ((s₁.setNode (owner c) _).created c') ((s₁.setNode (owner c) _).grouped c' r)
      ((s₁.setNode (owner c) _).known c' r) (s₁.ups c' r) _
    have hcreated : s₁.created c' = s.created c' := by rw [Net.created, hnode₁, Net.created]
    have hgrouped : s₁.grouped c' r = s.grouped c' r := by rw [Net.grouped, hnode₁, Net.grouped]
    have hknown : s₁.known c' r = s.known c' r := by rw [Net.known, hnode₁, Net.known]
    cases hch : ((s.node (owner c)).channel c).isSome with
    | false =>
      -- there is no such channel: nothing changes but the messages
      have hsame : s₁.setNode (owner c) (s.node (owner c)) = s₁ := by
        rw [Net.setNode, ← hnode₁, Function.update_eq_self]
      rw [if_neg (by nofun), hsame, hcreated, hgrouped, hknown]
      by_cases hrc : r = a ∧ c = c'
      · obtain ⟨rfl, rfl⟩ := hrc
        have hnone : s.created c = false := hch
        rw [if_pos ⟨rfl, rfl⟩, hnone] at h
        rw [if_pos ⟨rfl, rfl⟩, if_pos rfl, hnone]
        exact h.subr_gone
      · rw [if_neg hrc] at h
        have hdown : (if owner c' = owner c ∧ r = a then (if c = c' then some (!false) else none).toList else []) = [] := by
          split
          · rename_i h1
            rw [if_neg fun h2 => hrc ⟨h1.2, h2⟩]; rfl
          · rfl
        rw [hdown, List.append_nil]
        exact h
    | true =>
      rw [if_pos rfl]
      generalize hd : Multicastd.mk _ _ _ _ _ = d
      have hchannel : d.channel = (s.node (owner c)).channel := by rw [← hd]
      have hremote : d.channelRemote = Function.update (s.node (owner c)).channelRemote c
        (some ((((s.node (owner c)).channelRemote c).getD []).insert a)) := by rw [← hd]
      have hcreated' : (s₁.setNode (owner c) d).created c' = s.created c' := by
        rw [setNode_created, hcreated, hchannel]; exact created_ite s (owner c) c'
      have hgrouped' : (s₁.setNode (owner c) d).grouped c' r = s.grouped c' r := by
        rw [setNode_grouped, hgrouped, hchannel]; exact grouped_ite s (owner c) c' r
      have hknown' : (s₁.setNode (owner c) d).known c' r = if r = a ∧ c = c' then true else s.known c' r := by
        rw [setNode_known, hknown, hremote]
        by_cases hc : c = c'
        · subst hc
          rw [if_pos rfl, Function.update_self, Option.getD_some]
          by_cases hr : r = a
          · rw [if_pos ⟨hr, rfl⟩]; exact decide_eq_true (List.mem_insert_iff.mpr (.inl hr))
          · rw [if_neg fun h => hr h.1]
            exact decide_eq_decide.mpr
              ⟨fun h => (List.mem_insert_iff.mp h).resolve_left hr, fun h => List.mem_insert_iff.mpr (.inr h)⟩
        · have hrc : ¬ (r = a ∧ c = c') := fun h => hc h.2
          rw [Function.update_of_ne fun h => hc h.symm, if_neg hrc]
          exact known_ite s (owner c) c' r
      rw [hcreated', hgrouped', hknown']
      by_cases hrc : r = a ∧ c = c'
      · obtain ⟨rfl, rfl⟩ := hrc
        have hsome : s.created c = true := hch
        rw [if_pos ⟨rfl, rfl⟩, hsome] at h
        rw [if_pos ⟨rfl, rfl⟩, if_pos ⟨rfl, rfl⟩, if_pos rfl, hsome]
        exact h.subr
      · rw [if_neg hrc] at h
        have hdown : (if owner c' = owner c ∧ r = a then (if c = c' then some (!true) else none).toList else []) = [] := by
          split
          · rename_i h1
            rw [if_neg fun h2 => hrc ⟨h1.2, h2⟩]; rfl
          · rfl
        rw [if_neg hrc, hdown, List.append_nil]
        exact h

/-- `USUBR` at the owner. -/
theorem Ok.usubr (ok : Ok s) (hq : s.queue a b = .usubr c :: ms) :
    Ok ((s.setQueue a b ms).handle a b (.usubr c)) := by
  obtain ⟨rfl, ha⟩ := ok.routed a b _ (hq ▸ List.mem_cons_self ..)
  have hnode : a ≠ (s.node (owner c)).harborId := by rw [ok.harbor]; exact ha
  have hstatic := ok.toStatic.pop hq
  generalize hs₁ : s.setQueue a (owner c) ms = s₁ at hstatic
  have hups : ∀ c' r, s.ups c' r = (if r = a ∧ c = c' then [false] else []) ++ s₁.ups c' r := by
    intro c' r
    rw [pop_ups hq, hs₁, up_usubr]
    by_cases hc : c = c'
    · subst hc; simp
    · simp [hc]
  have hdowns : ∀ c' r, s.downs c' r = s₁.downs c' r := by
    intro c' r
    rw [pop_downs hq c' r, hs₁, show (Msg.usubr c).down c' = none from rfl, Option.toList_none, ite_self]; rfl
  have hnode₁ : s₁.node = s.node := by rw [← hs₁]; rfl
  have hdel₁ : s₁.deleted = s.deleted := by rw [← hs₁]; rfl
  -- the entry of the sender is gone, whether it was there or not
  have hagree : ∀ c' r, r ≠ owner c' → s₁.deleted c' = false →
      Agree (s.created c') (s.grouped c' r) (if r = a ∧ c = c' then false else s.known c' r) (s₁.ups c' r)
        (s₁.downs c' r) := by
    intro c' r hne hdel
    have h := ok.agree c' r hne (hdel₁ ▸ hdel)
    rw [AgreeAt, hups, hdowns] at h
    by_cases hrc : r = a ∧ c = c'
    · rw [if_pos hrc] at h ⊢
      exact h.usubr
    · rw [if_neg hrc] at h ⊢
      exact h
  have hcreated : ∀ c', s₁.created c' = s.created c' := fun c' => by rw [Net.created, hnode₁, Net.created]
  have hgrouped : ∀ c' r, s₁.grouped c' r = s.grouped c' r := fun c' r => by rw [Net.grouped, hnode₁, Net.grouped]
  have hknown : ∀ c' r, s₁.known c' r = s.known c' r := fun c' r => by rw [Net.known, hnode₁, Net.known]
  rw [Net.handle, hnode₁, Multicastd.usubr, if_neg hnode]
  cases hremote : (s.node (owner c)).channelRemote c with
  | none =>
    refine ⟨hstatic, fun c' r hne hdel => ?_⟩
    have hsame : (if r = a ∧ c = c' then false else s.known c' r) = s.known c' r := by
      split
      · rename_i hrc
        rw [Net.known, ← hrc.2, hremote]; rfl
      · rfl
    rw [AgreeAt, hcreated, hgrouped, hknown, ← hsame]
    exact hagree c' r hne hdel
  | some group =>
    simp only
    generalize hd : Multicastd.mk _ _ _ _ _ = d
    have hchannel : d.channel = (s.node (owner c)).channel := by rw [← hd]
    have hremote' : d.channelRemote = Function.update (s.node (owner c)).channelRemote c
      (some (group.filter (· ≠ a))) := by rw [← hd]
    have hkeeps : Keeps (s₁.node (owner c)) d := by rw [hnode₁, ← hd]; exact ⟨rfl, rfl⟩
    refine ⟨hstatic.setNode hkeeps, fun c' r hne hdel => ?_⟩
    have hcreated' : (s₁.setNode (owner c) d).created c' = s.created c' := by
      rw [setNode_created, hcreated, hchannel]; exact created_ite s (owner c) c'
    have hgrouped' : (s₁.setNode (owner c) d).grouped c' r = s.grouped c' r := by
      rw [setNode_grouped, hgrouped, hchannel]; exact grouped_ite s (owner c) c' r
    have hknown' : (s₁.setNode (owner c) d).known c' r = if r = a ∧ c = c' then false else s.known c' r := by
      rw [setNode_known, hknown, hremote']
      by_cases hc : c = c'
      · subst hc
        rw [if_pos rfl, Function.update_self, Option.getD_some]
        by_cases hr : r = a
        · rw [if_pos ⟨hr, rfl⟩]; exact decide_eq_false fun hm => by simpa [hr] using List.mem_filter.mp hm
        · rw [if_neg fun h => hr h.1, Net.known, hremote, Option.getD_some]
          exact decide_eq_decide.mpr
            ⟨fun h => (List.mem_filter.mp h).1, fun h => List.mem_filter.mpr ⟨h, by simpa using hr⟩⟩
      · have hrc : ¬ (r = a ∧ c = c') := fun h => hc h.2
        rw [Function.update_of_ne fun h => hc h.symm, if_neg hrc]
        exact known_ite s (owner c) c' r
    rw [AgreeAt, hcreated', hgrouped', hknown']
    exact hagree c' r hne hdel

theorem subReplied_isSome (d : Multicastd) (source c : Nat) (gone : Bool) (c' : Nat) :
    ((d.subReplied source c gone).channel c').isSome = ((d.channel c').isSome || (decide (c = c') && !gone)) := by
  simp only [Multicastd.subReplied]
  cases gone with
  | true => rw [if_pos rfl, Bool.not_true, Bool.and_false, Bool.or_false]
  | false =>
    rw [if_neg (by intro h; cases h), Bool.not_false, Bool.and_true]
    split
    · rename_i hnone
      rw [subscribe_isSome, put_isSome]
      by_cases hc : c = c'
      · rw [if_pos hc.symm, decide_eq_true hc, Bool.or_true]; rfl
      · rw [if_neg fun h => hc h.symm, decide_eq_false hc, Bool.or_false]
    · rename_i group hsome
      rw [subscribe_isSome]
      by_cases hc : c = c'
      · rw [← hc, hsome]; rfl
      · rw [decide_eq_false hc, Bool.or_false]

theorem subReplied_keeps (d : Multicastd) (source c : Nat) (gone : Bool) :
    (d.subReplied source c gone).channelRemote = d.channelRemote ∧ Keeps d (d.subReplied source c gone) := by
  simp only [Multicastd.subReplied]
  split
  · exact ⟨rfl, rfl, rfl⟩
  · split
    · obtain ⟨h1, h2⟩ := subscribe_remote (d.put c (some []) (some 0)) source c
      exact ⟨h1, h2.harbor, h2.id⟩
    · exact subscribe_remote d source c

/-- The reply to `SUBR`. -/
theorem Ok.reply (ok : Ok s) {source : Nat} {gone : Bool} (hq : s.queue a b = .reply source c gone :: ms) :
    Ok ((s.setQueue a b ms).handle a b (.reply source c gone)) := by
  obtain ⟨rfl, hb⟩ := ok.routed a b _ (hq ▸ List.mem_cons_self ..)
  have hstatic := ok.toStatic.pop hq
  generalize hs₁ : s.setQueue (owner c) b ms = s₁ at hstatic
  have hups : ∀ c' r, s.ups c' r = s₁.ups c' r := by
    intro c' r
    rw [pop_ups hq c' r, hs₁, show (Msg.reply source c gone).up c' = none from rfl, Option.toList_none, ite_self]; rfl
  have hdowns : ∀ c' r, s.downs c' r = (if r = b ∧ c = c' then [gone] else []) ++ s₁.downs c' r := by
    intro c' r
    rw [pop_downs hq, hs₁, down_reply]
    by_cases hc : c = c'
    · subst hc; simp
    · simp [hc]
  have hnode₁ : s₁.node = s.node := by rw [← hs₁]; rfl
  have hdel₁ : s₁.deleted = s.deleted := by rw [← hs₁]; rfl
  obtain ⟨hremote, hkeeps⟩ := subReplied_keeps (s.node b) source c gone
  have hchannel := subReplied_isSome (s.node b) source c gone
  rw [Net.handle, hnode₁]
  generalize (s.node b).subReplied source c gone = d at *
  refine ⟨hstatic.setNode (by rw [hnode₁]; exact hkeeps), fun c' r hne hdel => ?_⟩
  have h := ok.agree c' r hne (hdel₁ ▸ hdel)
  rw [AgreeAt, hups, hdowns] at h
  have hcreated : (s₁.setNode b d).created c' = s.created c' := by
    rw [setNode_created, Net.created, hnode₁]
    split
    · rename_i he
      have hc : c ≠ c' := by
        rintro rfl
        exact hb he.symm
      rw [hchannel, decide_eq_false hc, Bool.false_and, Bool.or_false, ← he, Net.created]
    · rfl
  have hknown : (s₁.setNode b d).known c' r = s.known c' r := by
    rw [setNode_known, hremote, show s₁.known c' r = s.known c' r by rw [Net.known, hnode₁, Net.known]]
    exact known_ite s b c' r
  have hgrouped : (s₁.setNode b d).grouped c' r = (s.grouped c' r || (decide (r = b ∧ c = c') && !gone)) := by
    rw [setNode_grouped]
    split
    · rename_i he
      rw [hchannel, he, Net.grouped]
      simp
    · rename_i he
      rw [Net.grouped, hnode₁, Net.grouped]
      simp [he]
  change Agree ((s₁.setNode b d).created c') ((s₁.setNode b d).grouped c' r) ((s₁.setNode b d).known c' r)
    (s₁.ups c' r) (s₁.downs c' r)
  rw [hcreated, hgrouped, hknown]
  by_cases hrc : r = b ∧ c = c'
  · rw [if_pos hrc] at h
    rw [decide_eq_true hrc, Bool.true_and]
    exact h.reply
  · rw [if_neg hrc] at h
    rw [decide_eq_false hrc, Bool.false_and, Bool.or_false]
    exact h

/-- What `USUB` does: it leaves the group to nobody, or keeps it. -/
theorem usub_cases {d d' : Multicastd} {source : Nat} {left : Bool} (h : d.usub source c = some (left, d')) :
    left = true ∧ d.lastOf source c = true ∧ owner c ≠ d.harborId ∧ d' = d.put c none none ∨
    left = false ∧ (∀ c', (d'.channel c').isSome = (d.channel c').isSome) ∧ d'.channelRemote = d.channelRemote ∧
      Keeps d d' := by
  simp only [Multicastd.usub] at h
  split at h
  · rename_i group hg
    split at h
    · rename_i hmem
      split at h
      · rename_i hlast
        cases h
        refine .inl ⟨rfl, ?_, hlast.2, rfl⟩
        have hone : d.channelN c = some 1 := by
          cases hn : d.channelN c with
          | none => rw [hn] at hlast; cases hlast.1
          | some n =>
            rw [hn, Option.map_some, Option.some.injEq] at hlast
            rw [show n = 1 by omega]
        simp only [Multicastd.lastOf, hg]
        exact decide_eq_true ⟨hmem, hone⟩
      · cases h
        refine .inr ⟨rfl, ?_, rfl, rfl, rfl⟩
        intro c'
        rw [put_isSome]
        split
        · rename_i he
          rw [he, hg]; rfl
        · rfl
    · cases h
      exact .inr ⟨rfl, fun _ => rfl, rfl, rfl, rfl⟩
  · cases h

theorem Ok.usub (ok : Ok s) {source : Nat}
    (hleft : (s.node n).lastOf source c = true → owner c ≠ n → true ∉ s.ups c n ∧ false ∉ s.downs c n) :
    Ok (s.usub n source c) := by
  simp only [Net.usub]
  split
  · rename_i d hd
    rcases usub_cases hd with ⟨-, hlast, hne, rfl⟩ | ⟨hfalse, -⟩
    · rw [ok.harbor] at hne
      obtain ⟨hup, hdown⟩ := hleft hlast hne
      have hstatic : Static (s.setNode n ((s.node n).put c none none)) := ok.toStatic.setNode ⟨rfl, rfl⟩
      refine ⟨hstatic.send ⟨rfl, fun h => hne h.symm⟩, fun c' r hr hdel => ?_⟩
      have h := ok.agree c' r hr hdel
      rw [AgreeAt, send_ups, send_downs, up_usubr, show (Msg.usubr c).down c' = none from rfl, Option.toList_none,
        ite_self, List.append_nil]
      have hknown : (s.setNode n ((s.node n).put c none none)).known c' r = s.known c' r := by
        rw [setNode_known]
        exact known_ite s n c' r
      have hcreated : (s.setNode n ((s.node n).put c none none)).created c' = s.created c' := by
        rw [setNode_created, put_isSome]
        by_cases hc : c' = c
        · rw [if_neg (by rw [hc]; exact hne)]
        · rw [if_neg hc]; exact created_ite s n c'
      change Agree ((s.setNode n ((s.node n).put c none none)).created c')
        ((s.setNode n ((s.node n).put c none none)).grouped c' r)
        ((s.setNode n ((s.node n).put c none none)).known c' r) (s.ups c' r ++ _) (s.downs c' r)
      rw [hcreated, hknown, setNode_grouped, put_isSome]
      by_cases hrc : r = n ∧ c = c'
      · obtain ⟨rfl, rfl⟩ := hrc
        rw [if_pos rfl, if_pos rfl, if_pos ⟨rfl, rfl⟩, if_pos rfl]
        exact agree_left hup hdown
      · have hgrouped : (if r = n then (if c' = c then (none : Option (List Nat)).isSome else ((s.node n).channel c').isSome)
            else s.grouped c' r) = s.grouped c' r := by
          split
          · rename_i he
            rw [if_neg fun hc => hrc ⟨he, hc.symm⟩, he, Net.grouped]
          · rfl
        have hups : (if r = n ∧ owner c' = owner c then (if c = c' then some false else none).toList else []) = [] := by
          split
          · rename_i h1
            rw [if_neg fun hc => hrc ⟨h1.1, hc⟩]; rfl
          · rfl
        rw [hgrouped, hups, List.append_nil]
        exact h
    · cases hfalse
  · rename_i d hd
    rcases usub_cases hd with ⟨htrue, -⟩ | ⟨-, hchannel, hremote, hkeeps⟩
    · cases htrue
    · exact ok.setNode_same hkeeps (fun c' _ => hchannel c') (fun c' _ => by rw [hremote])
  · exact ok

end Ok

/-! ### Runs -/

theorem ok_init : Ok Net.init where
  harbor := fun _ => rfl
  own := fun n hn => Nat.mod_eq_of_lt hn
  looking := nofun
  routed := nofun
  agree := fun c r _ _ => ⟨fun _ => ⟨rfl, List.not_mem_nil⟩, by
    rintro (h | h | h)
    · cases h
    · cases h
    · cases h⟩

/-- The last subscriber of a channel of another node leaves when no `SUBR` of its node for this channel is in
flight, nor the reply to one. -/
def LeavesSettled (s : Net) : Label → Prop
  | .usub n source c => (s.node n).lastOf source c = true → owner c ≠ n → true ∉ s.ups c n ∧ false ∉ s.downs c n
  | _ => True

theorem ok_step {s s' : Net} {l : Label} (ok : Ok s) (hg : LeavesSettled s l) (h : step s l = some s') : Ok s' := by
  cases l with
  | new n =>
    simp only [step] at h
    split at h
    · rename_i hn
      split at h
      · rename_i id d hnew
        cases h
        exact ok.new hn hnew
      · cases h
    · cases h
  | sub n source c =>
    simp only [step] at h
    split at h
    · rename_i hcalls
      cases h
      refine ⟨⟨ok.harbor, ok.own, ?_, ok.routed⟩, ok.agree⟩
      intro n' source' c' hm
      simp only [Function.update_apply] at hm
      split at hm
      · rename_i he
        rw [List.mem_append, List.mem_singleton] at hm
        rcases hm with hm | hm
        · rw [he]
          exact ok.looking n source' c' hm
        · cases hm
          rw [Multicastd.subCalls, decide_eq_true_eq, ok.harbor] at hcalls
          rw [he]
          exact fun h => hcalls.1 h.symm
      · exact ok.looking n' source' c' hm
    · cases h
      exact ok.subscribe n source c
  | call n source c =>
    simp only [step] at h
    split at h
    · rename_i hm
      cases h
      have hlook : Ok { s with looking := Function.update s.looking n ((s.looking n).erase (source, c)) } := by
        refine ⟨⟨ok.harbor, ok.own, ?_, ok.routed⟩, ok.agree⟩
        intro n' source' c' hm'
        simp only [Function.update_apply] at hm'
        split at hm'
        · rename_i he
          rw [he]
          exact ok.looking n source' c' (List.mem_of_mem_erase hm')
        · exact ok.looking n' source' c' hm'
      exact hlook.call n source c (ok.looking n source c hm)
    · cases h
  | usub n source c =>
    cases h
    exact ok.usub hg
  | del n c =>
    cases h
    exact ok.del n c
  | deliver a b =>
    simp only [step] at h
    split at h
    · rename_i m ms hq
      cases h
      cases m with
      | del c => exact (ok.pop hq (fun _ => rfl) (fun _ => rfl)).del b c
      | delr c =>
        have hdel : (Msg.delr c).Routed s a b := ok.routed a b _ (hq ▸ List.mem_cons_self ..)
        exact (ok.pop hq (fun _ => rfl) (fun _ => rfl)).delr hdel b
      | subr source c => exact ok.subr hq
      | usubr c => exact ok.usubr hq
      | reply source c gone => exact ok.reply hq
    · cases h

theorem subscribed_known {s : Net} {ls : List Label} (hrun : Lts.run step Net.init ls = some s)
    (hleaves : Lts.Guarded step LeavesSettled Net.init ls) : Reaches s := by
  have ok := Lts.run_invariant_of_guarded (fun _ _ _ ok hg h => ok_step ok hg h) hrun hleaves ok_init
  rintro c r hne hdel hups hdowns ⟨source, group, hgroup, -⟩
  have h := ok.agree c r hne hdel
  rw [AgreeAt, hups, hdowns] at h
  refine h.agree (.inl ?_)
  rw [Net.grouped, hgroup]
  rfl

/-- On the node 2 the service 7 subscribes to a channel of the node 1, leaves it, and then 8 subscribes. -/
def oneByOne : List Label :=
  ([.new 1, .sub 2 7 1, .call 2 7 1, .deliver 2 1, .deliver 1 2] : List Label) ++
  ([.usub 2 7 1, .deliver 2 1, .sub 2 8 1, .call 2 8 1, .deliver 2 1, .deliver 1 2] : List Label)

theorem subscribed_known_oneByOne : ∃ s, Lts.run step Net.init oneByOne = some s ∧
    (s.node 2).channel 1 = some [8] ∧ s.ups 1 2 = [] ∧ s.downs 1 2 = [] ∧ Reaches s := by
  obtain ⟨s, hrun, hgroup, hups, hdowns⟩ : ∃ s, Lts.run step Net.init oneByOne = some s ∧
    (s.node 2).channel 1 = some [8] ∧ s.ups 1 2 = [] ∧ s.downs 1 2 = [] := ⟨_, rfl, rfl, rfl, rfl⟩
  refine ⟨s, hrun, hgroup, hups, hdowns, subscribed_known hrun ?_⟩
  refine Lts.guarded_append (Lts.guarded_of_forall ?_ _) ?_
  · simp [LeavesSettled]
  · intro t ht
    cases ht
    refine ⟨fun _ _ => ⟨List.not_mem_nil, List.not_mem_nil⟩, fun t _ => Lts.guarded_of_forall ?_ t⟩
    simp [LeavesSettled]

/-- The services 7 and 8 of the node 2 subscribe together, and 7 leaves between the two replies. -/
def overlapping : List Label :=
  [.new 1, .sub 2 7 1, .sub 2 8 1, .call 2 7 1, .call 2 8 1, .deliver 2 1, .deliver 1 2, .usub 2 7 1, .deliver 2 1,
    .deliver 2 1, .deliver 1 2]

theorem subscriber_forgotten : ∃ s, Lts.run step Net.init overlapping = some s ∧
    (s.node 2).channel 1 = some [8] ∧ (s.node 1).channelRemote 1 = some [] ∧ ¬ Reaches s := by
  obtain ⟨s, hrun, hgroup, hremote, hdel, hups, hdowns⟩ : ∃ s, Lts.run step Net.init overlapping = some s ∧
    (s.node 2).channel 1 = some [8] ∧ (s.node 1).channelRemote 1 = some [] ∧ s.deleted 1 = false ∧
    s.ups 1 2 = [] ∧ s.downs 1 2 = [] := ⟨_, rfl, rfl, rfl, rfl, rfl, rfl⟩
  refine ⟨s, hrun, hgroup, hremote, ?_⟩
  intro h
  have hknown := h 1 2 (by decide) hdel hups hdowns ⟨8, [8], hgroup, List.mem_singleton.mpr rfl⟩
  rw [Net.known, show owner 1 = 1 from rfl, hremote] at hknown
  cases hknown

end Multicast
end Skynet
