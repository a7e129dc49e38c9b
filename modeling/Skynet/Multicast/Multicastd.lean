import Mathlib.Algebra.Ring.Int.Defs
import Mathlib.Algebra.Ring.Nat
import Mathlib.Logic.Function.Basic
import Mathlib.Data.List.Basic
import Mathlib.Data.List.Nodup

/-!
# Skynet.Multicast.Multicastd

The tables of a `multicastd` (`service/multicastd.lua`) and its commands. A channel is a number whose low
byte is the harbor of its owner; `channel` has the subscribers of each channel, `channel_n` counts them,
and `channel_remote` has the nodes that subscribe to a channel of this node.

A command that yields is cut at its yields: `SUB` of a channel of another node asks whether the group is
there (`subCalls`), and goes on with the reply of the owner (`subReplied`). `none` is an error.

* `Counted` : `channel_n` has the number of subscribers of every channel.
-/

namespace Skynet
namespace Multicast

structure Multicastd where
  harborId : Nat
  channel : Nat → Option (List Nat)
  channelN : Nat → Option Int
  channelRemote : Nat → Option (List Nat)
  channelId : Nat

namespace Multicastd

def init (harborId : Nat) : Multicastd :=
  { harborId, channel := fun _ => none, channelN := fun _ => none, channelRemote := fun _ => none
    channelId := harborId }

/-- The node that owns the channel `c`. -/
def owner (c : Nat) : Nat := c % 256

/-- `mc.nextid`. -/
def nextid (id : Nat) : Nat := (id + 256) % 2 ^ 32

/-- The loop of `NEW`: the ids come again after `2 ^ 24` rounds. -/
def nextFree (channel : Nat → Option (List Nat)) : Nat → Nat → Option Nat
  | 0, _ => none
  | fuel + 1, id => if (channel id).isSome then nextFree channel fuel (nextid id) else some id

def put (m : Multicastd) (c : Nat) (group : Option (List Nat)) (n : Option Int) : Multicastd :=
  { m with channel := Function.update m.channel c group, channelN := Function.update m.channelN c n }

/-- `NEW`; `none` if the loop does not end. -/
def new (m : Multicastd) : Option (Nat × Multicastd) :=
  match nextFree m.channel (2 ^ 24) m.channelId with
  | some id => some (id, { m.put id (some []) (some 0) with channelId := nextid id })
  | none => none

def delr (m : Multicastd) (c : Nat) : Multicastd := m.put c none none

/-- `DEL` on the node of the channel, with the nodes that `DELR` goes to. -/
def del (m : Multicastd) (c : Nat) : List Nat × Multicastd :=
  ((m.channelRemote c).getD [], { m.put c none none with channelRemote := Function.update m.channelRemote c none })

/-- `SUBR`, with what it returns: whether there is no such channel. -/
def subr (m : Multicastd) (node c : Nat) : Option (Bool × Multicastd) :=
  match m.channel c with
  | none => some (true, m)
  | some _ =>
    if node ≠ m.harborId ∧ owner c = m.harborId then
      let group := (m.channelRemote c).getD []
      some (false, { m with channelRemote := Function.update m.channelRemote c (some (group.insert node)) })
    else none

/-- `SUB` calls the owner of the channel first. -/
def subCalls (m : Multicastd) (c : Nat) : Bool := owner c ≠ m.harborId ∧ m.channel c = none

/-- The end of `SUB`. -/
def subscribe (m : Multicastd) (source c : Nat) : Multicastd :=
  match m.channel c with
  | some group =>
    if source ∈ group then m else m.put c (some (group ++ [source])) ((m.channelN c).map (· + 1))
  | none => m

/-- `SUB`, when the owner has replied. -/
def subReplied (m : Multicastd) (source c : Nat) (gone : Bool) : Multicastd :=
  if gone then m
  else
    match m.channel c with
    | none => (m.put c (some []) (some 0)).subscribe source c
    | some _ => m.subscribe source c

def usubr (m : Multicastd) (node c : Nat) : Option Multicastd :=
  if node = m.harborId then none
  else
    match m.channelRemote c with
    | some group =>
      some { m with channelRemote := Function.update m.channelRemote c (some (group.filter (· ≠ node))) }
    | none => none

/-- The group of `c` has one subscriber, and it is `source`. -/
def lastOf (m : Multicastd) (source c : Nat) : Bool :=
  match m.channel c with
  | some group => source ∈ group ∧ m.channelN c = some 1
  | none => false

/-- `USUB`, with whether `USUBR` goes to the owner. -/
def usub (m : Multicastd) (source c : Nat) : Option (Bool × Multicastd) :=
  match m.channel c with
  | some group =>
    if source ∈ group then
      let n := (m.channelN c).map (· - 1)
      if n = some 0 ∧ owner c ≠ m.harborId then some (true, m.put c none none)
      else some (false, m.put c (some (group.erase source)) n)
    else some (false, m)
  | none => none

/-! ### Counts -/

/-- The channel `c` has a count if it is there, and it is the number of its subscribers. -/
def CountedAt (m : Multicastd) (c : Nat) : Prop :=
  match m.channel c with
  | some group => group.Nodup ∧ m.channelN c = some (group.length : Int)
  | none => m.channelN c = none

def Counted (m : Multicastd) : Prop := ∀ c, m.CountedAt c

section Counted

variable {m m' : Multicastd} {c : Nat}

theorem counted_init (harborId : Nat) : (init harborId).Counted := fun _ => rfl

theorem Counted.count (h : m.Counted) {group : List Nat} (hg : m.channel c = some group) :
    group.Nodup ∧ m.channelN c = some (group.length : Int) := by
  have := h c
  rw [CountedAt, hg] at this
  exact this

theorem Counted.congr (h : m.Counted) (hchannel : m'.channel = m.channel) (hn : m'.channelN = m.channelN) :
    m'.Counted := by
  intro c
  rw [CountedAt, hchannel, hn]
  exact h c

theorem counted_of_none (hg : m.channel c = none) (hn : m.channelN c = none) : m.CountedAt c := by
  rw [CountedAt, hg]; exact hn

theorem counted_of_some {group : List Nat} (hg : m.channel c = some group) (hnodup : group.Nodup)
    (hn : m.channelN c = some (group.length : Int)) : m.CountedAt c := by
  rw [CountedAt, hg]; exact ⟨hnodup, hn⟩

/-- A command that writes the entries of `c`. -/
theorem Counted.put (h : m.Counted) {group : Option (List Nat)} {n : Option Int} (hc : (m.put c group n).CountedAt c) :
    (m.put c group n).Counted := by
  intro c'
  by_cases he : c' = c
  · rw [he]; exact hc
  · have := h c'
    simp only [CountedAt, Multicastd.put, Function.update_of_ne he] at this ⊢
    exact this

@[simp] theorem put_channel (group : Option (List Nat)) (n : Option Int) : (m.put c group n).channel c = group :=
  Function.update_self ..

@[simp] theorem put_channelN (group : Option (List Nat)) (n : Option Int) : (m.put c group n).channelN c = n :=
  Function.update_self ..

theorem Counted.new (h : m.Counted) {id : Nat} (hnew : m.new = some (id, m')) : m'.Counted := by
  simp only [Multicastd.new] at hnew
  split at hnew
  · cases hnew
    have hput : (m.put id (some []) (some 0)).Counted :=
      h.put (counted_of_some (put_channel ..) List.nodup_nil (put_channelN ..))
    exact hput.congr rfl rfl
  · cases hnew

theorem Counted.delr (h : m.Counted) (c : Nat) : (m.delr c).Counted :=
  h.put (counted_of_none (put_channel ..) (put_channelN ..))

theorem Counted.del (h : m.Counted) (c : Nat) : (m.del c).2.Counted := (h.delr c).congr rfl rfl

theorem Counted.subr (h : m.Counted) {node : Nat} {r : Bool} (hs : m.subr node c = some (r, m')) : m'.Counted := by
  simp only [Multicastd.subr] at hs
  split at hs
  · cases hs; exact h
  · split at hs
    · cases hs; exact h.congr rfl rfl
    · cases hs

theorem Counted.subscribe (h : m.Counted) (source c : Nat) : (m.subscribe source c).Counted := by
  simp only [Multicastd.subscribe]
  split
  · rename_i group hg
    obtain ⟨hnodup, hn⟩ := h.count hg
    split
    · exact h
    · rename_i hmem
      refine h.put (counted_of_some (put_channel ..) ?_ ?_)
      · refine List.nodup_append.mpr ⟨hnodup, List.nodup_singleton _, ?_⟩
        rintro a ha b hb rfl
        rw [List.mem_singleton] at hb
        exact hmem (hb ▸ ha)
      · rw [put_channelN, hn, List.length_append]; rfl
  · exact h

theorem Counted.subReplied (h : m.Counted) (source c : Nat) (gone : Bool) : (m.subReplied source c gone).Counted := by
  simp only [Multicastd.subReplied]
  split
  · exact h
  · split
    · have hput : (m.put c (some []) (some 0)).Counted :=
        h.put (counted_of_some (put_channel ..) List.nodup_nil (put_channelN ..))
      exact hput.subscribe source c
    · exact h.subscribe source c

theorem Counted.usubr (h : m.Counted) {node : Nat} (hs : m.usubr node c = some m') : m'.Counted := by
  simp only [Multicastd.usubr] at hs
  split at hs
  · cases hs
  · split at hs
    · cases hs; exact h.congr rfl rfl
    · cases hs

theorem Counted.usub (h : m.Counted) {source : Nat} {r : Bool} (hs : m.usub source c = some (r, m')) : m'.Counted := by
  simp only [Multicastd.usub] at hs
  split at hs
  · rename_i group hg
    obtain ⟨hnodup, hn⟩ := h.count hg
    split at hs
    · rename_i hmem
      split at hs
      · cases hs
        exact h.delr c
      · cases hs
        refine h.put (counted_of_some (put_channel ..) (hnodup.erase source) ?_)
        have hpos : 0 < group.length := List.length_pos_of_mem hmem
        rw [put_channelN, hn, List.length_erase_of_mem hmem, Option.map_some, Int.natCast_sub hpos]
        rfl
    · cases hs; exact h
  · cases hs

end Counted

end Multicastd
end Multicast
end Skynet
