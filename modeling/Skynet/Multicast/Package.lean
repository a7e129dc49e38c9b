import Mathlib.Data.List.Basic
import Mathlib.Data.List.Nodup
import Skynet.Lib.Run
import Skynet.Multicast.Multicastd

/-!
# Skynet.Multicast.Package

The packages that a `multicastd` publishes to the services of its node (`publish` of
`service/multicastd.lua`, with `bind` and `close` of `lualib-src/lua-multicast.c`). A package is bound with
the number of its subscribers, each of them gets the pointer and closes it once, and the last close frees it.

`publish` sends to the remote nodes first, and may yield there; the group is read after that.

* `PackageOk` : the count of a package is the number of subscribers that still hold it.
* `package_freed_once` : so it is in every run, and `channel_n` counts every group.
-/

namespace Skynet
namespace Multicast

open Multicastd

/-- A `struct mc_package`, with what has been done with it. The reference is an `int`; a node has at most `2 ^ 24`
services, so that it does not overflow. -/
structure Package where
  channel : Nat
  reference : Int
  /-- What `mc.bind` set. -/
  bound : Option Int
  /-- The services that it was sent to. -/
  deliveries : List Nat
  /-- Those of them that have not closed it. -/
  holders : List Nat
  freed : Nat
deriving Repr, DecidableEq

namespace Package

/-- `mc.pack` and `mc.packremote`. -/
def pack (c : Nat) : Package :=
  { channel := c, reference := 0, bound := none, deliveries := [], holders := [], freed := 0 }

/-- `mc.bind`. -/
def bind (p : Package) (ref : Int) : Option Package :=
  if p.reference ≠ 0 then none else some { p with reference := ref, bound := some ref }

/-- `mc.close`. -/
def close (p : Package) : Package :=
  let ref := p.reference - 1
  { p with reference := ref, freed := if ref ≤ 0 then p.freed + 1 else p.freed }

/-- A service that received the package closes it. -/
def closeBy (p : Package) (k : Nat) : Package := close { p with holders := p.holders.erase k }

end Package

/-- The local part of `publish`. -/
def publishLocal (m : Multicastd) (p : Package) : Option Package :=
  match m.channel p.channel with
  | none => (p.bind 1).map Package.close
  | some [] => (p.bind 1).map Package.close
  | some (k :: ks) =>
    match m.channelN p.channel with
    | some n => (p.bind n).map fun p => { p with deliveries := k :: ks, holders := k :: ks }
    | none => none

local instance lawfulBEqPair : LawfulBEq (Nat × Nat) := inferInstance

structure Daemon where
  tables : Multicastd
  /-- The calls of `SUB` that look up or call the owner, with their sources and channels. -/
  calling : List (Nat × Nat)
  package : Nat → Package
  packages : Nat
  /-- The packages that `publish` sends to the remote nodes. -/
  publishing : List Nat

namespace Daemon

def init (harborId : Nat) : Daemon :=
  { tables := Multicastd.init harborId, calling := [], package := fun _ => Package.pack 0, packages := 0
    publishing := [] }

/-- `publish`, up to the local part. -/
def publish (s : Daemon) (c : Nat) : Daemon :=
  { s with
    package := Function.update s.package s.packages (Package.pack c)
    packages := s.packages + 1
    publishing := s.publishing ++ [s.packages] }

end Daemon

namespace Daemon

inductive Label
  | new
  | del (c : Nat)
  | delr (c : Nat)
  | sub (source c : Nat)
  /-- `SUB` goes on with the reply of the owner. -/
  | reply (source c : Nat) (gone : Bool)
  | subr (node c : Nat)
  | usub (source c : Nat)
  | usubr (node c : Nat)
  /-- `PUB` of a service of this node. -/
  | pub (c : Nat)
  /-- A message that the owner of `c` has published to this node. -/
  | remote (c : Nat)
  /-- The local part of `publish`. -/
  | deliver (p : Nat)
  /-- `publish` fails while it sends to the remote nodes. -/
  | abort (p : Nat)
  /-- The service `k` closes a package that it has received. -/
  | close (p k : Nat)
deriving Repr, DecidableEq

def step (s : Daemon) : Label → Option Daemon
  | .new =>
    match s.tables.new with
    | some (_, m) => some { s with tables := m }
    | none => none
  | .del c => if owner c = s.tables.harborId then some { s with tables := (s.tables.del c).2 } else some s
  | .delr c => some { s with tables := s.tables.delr c }
  | .sub source c =>
    if s.tables.subCalls c then some { s with calling := s.calling ++ [(source, c)] }
    else some { s with tables := s.tables.subscribe source c }
  | .reply source c gone =>
    if (source, c) ∈ s.calling then
      some { s with tables := s.tables.subReplied source c gone, calling := s.calling.erase (source, c) }
    else none
  | .subr node c =>
    match s.tables.subr node c with
    | some (_, m) => some { s with tables := m }
    | none => some s
  | .usub source c =>
    match s.tables.usub source c with
    | some (_, m) => some { s with tables := m }
    | none => some s
  | .usubr node c =>
    match s.tables.usubr node c with
    | some m => some { s with tables := m }
    | none => some s
  -- of a channel of another node, the data goes to the owner and the package is not bound
  | .pub c => if owner c = s.tables.harborId then some (s.publish c) else some s
  | .remote c => some (s.publish c)
  | .deliver p =>
    if p ∈ s.publishing then
      let s' := { s with publishing := s.publishing.erase p }
      match publishLocal s.tables (s.package p) with
      | some pack => some { s' with package := Function.update s.package p pack }
      | none => some s'
    else none
  | .abort p => if p ∈ s.publishing then some { s with publishing := s.publishing.erase p } else none
  | .close p k =>
    if k ∈ (s.package p).holders then
      some { s with package := Function.update s.package p ((s.package p).closeBy k) }
    else none

end Daemon

/-! ### The claimed behaviour -/

/-- A package that is not bound was sent to nobody. A bound one without a subscriber was bound with 1 and is freed.
Another one was bound with the number of its deliveries, counts those that hold it, and is freed when nobody does. -/
structure PackageOk (p : Package) : Prop where
  unbound : p.bound = none → p.deliveries = [] ∧ p.holders = [] ∧ p.freed = 0 ∧ p.reference = 0
  nobody : ∀ n, p.bound = some n → p.deliveries = [] → n = 1 ∧ p.holders = [] ∧ p.freed = 1
  delivered : ∀ n, p.bound = some n → p.deliveries ≠ [] → n = p.deliveries.length ∧ p.deliveries.Nodup ∧
    p.holders.Sublist p.deliveries ∧ p.reference = p.holders.length ∧ p.freed = if p.holders = [] then 1 else 0

structure Daemon.Correct (s : Daemon) : Prop where
  counted : s.tables.Counted
  packages : ∀ p, PackageOk (s.package p)
  /-- The local part of `publish` does not fail. -/
  binds : ∀ p ∈ s.publishing, (publishLocal s.tables (s.package p)).isSome

theorem packageOk_pack (c : Nat) : PackageOk (Package.pack c) := ⟨fun _ => ⟨rfl, rfl, rfl, rfl⟩, nofun, nofun⟩

theorem bind_of_unbound {p : Package} (h : PackageOk p) (hnew : p.bound = none) (ref : Int) :
    p.bind ref = some { p with reference := ref, bound := some ref } := by
  rw [Package.bind, if_neg]
  exact fun hne => hne (h.unbound hnew).2.2.2

/-- A package without a subscriber. -/
theorem packageOk_nobody {p : Package} (h : PackageOk p) (hnew : p.bound = none) :
    ∃ p', (p.bind 1).map Package.close = some p' ∧ PackageOk p' := by
  obtain ⟨hdel, hhold, hfreed, -⟩ := h.unbound hnew
  refine ⟨_, by rw [bind_of_unbound h hnew]; rfl, ?_⟩
  refine ⟨nofun, ?_, ?_⟩
  · intro n hn _
    cases hn
    refine ⟨rfl, hhold, ?_⟩
    simp only [Package.close, hfreed]
    rfl
  · intro n _ hne
    exact absurd hdel hne

/-- A package that is bound with the number of the subscribers. -/
theorem packageOk_bind {p : Package} {ks : List Nat} (hne : ks ≠ []) (hnodup : ks.Nodup) (h : PackageOk p)
    (hnew : p.bound = none) :
    ∃ p', (p.bind ks.length).map (fun p => { p with deliveries := ks, holders := ks }) = some p' ∧ PackageOk p' := by
  obtain ⟨-, -, hfreed, -⟩ := h.unbound hnew
  refine ⟨_, by rw [bind_of_unbound h hnew]; rfl, ?_⟩
  refine ⟨nofun, fun _ _ hnil => absurd hnil hne, ?_⟩
  intro n hn _
  cases hn
  refine ⟨rfl, hnodup, List.Sublist.refl _, rfl, ?_⟩
  rw [if_neg hne]
  exact hfreed

theorem packageOk_publishLocal {m : Multicastd} {p : Package} (hcount : m.Counted) (h : PackageOk p)
    (hnew : p.bound = none) : ∃ p', publishLocal m p = some p' ∧ PackageOk p' := by
  simp only [publishLocal]
  split
  · exact packageOk_nobody h hnew
  · exact packageOk_nobody h hnew
  · rename_i k ks hgroup
    obtain ⟨hnodup, hn⟩ := hcount.count hgroup
    rw [hn]
    have hne : k :: ks ≠ [] := nofun
    exact packageOk_bind hne hnodup h hnew

/-- A subscriber closes the package. -/
theorem PackageOk.closeBy {p : Package} (h : PackageOk p) {k : Nat} (hk : k ∈ p.holders) : PackageOk (p.closeBy k) := by
  have hbound : ∃ n, p.bound = some n := by
    cases hb : p.bound with
    | none =>
      rw [(h.unbound hb).2.1] at hk
      cases hk
    | some n => exact ⟨n, rfl⟩
  obtain ⟨n, hn⟩ := hbound
  have hne : p.deliveries ≠ [] := by
    intro hnil
    rw [(h.nobody n hn hnil).2.1] at hk
    cases hk
  obtain ⟨hcount, hnodup, hsub, href, hfreed⟩ := h.delivered n hn hne
  have hpos : 0 < p.holders.length := List.length_pos_of_mem hk
  have hlen : (p.holders.erase k).length = p.holders.length - 1 := List.length_erase_of_mem hk
  refine ⟨fun hb => ?_, fun _ _ hnil => absurd hnil hne, ?_⟩
  · rw [show (p.closeBy k).bound = p.bound from rfl, hn] at hb
    cases hb
  · intro n' hn' _
    obtain rfl : n = n' := Option.some.inj (hn.symm.trans hn')
    refine ⟨hcount, hnodup, List.erase_sublist.trans hsub, ?_, ?_⟩
    · simp only [Package.closeBy, Package.close, href, hlen]
      omega
    · have hzero : p.freed = 0 := by
        rw [hfreed, if_neg (List.ne_nil_of_mem hk)]
      have hlast : p.reference - 1 ≤ 0 ↔ p.holders.erase k = [] := by
        rw [← List.length_eq_zero_iff, hlen, href]
        omega
      simp only [Package.closeBy, Package.close, hzero, hlast]

/-! ### Runs -/

/-- What `publish` still has to bind is not bound. -/
structure Daemon.Ok (s : Daemon) : Prop where
  counted : s.tables.Counted
  packages : ∀ p, PackageOk (s.package p)
  fresh : ∀ p ∈ s.publishing, p < s.packages ∧ (s.package p).bound = none
  nodup : s.publishing.Nodup

namespace Daemon

theorem Ok.setTables {s : Daemon} (ok : Ok s) {m : Multicastd} (hm : m.Counted) (calling : List (Nat × Nat)) :
    Ok { s with tables := m, calling := calling } := ⟨hm, ok.packages, ok.fresh, ok.nodup⟩

theorem Ok.publish {s : Daemon} (ok : Ok s) (c : Nat) : Ok (s.publish c) := by
  have hpackage : ∀ p, (s.publish c).package p = if p = s.packages then Package.pack c else s.package p :=
    fun p => Function.update_apply ..
  refine ⟨ok.counted, ?_, ?_, ?_⟩
  · intro p
    rw [hpackage]
    split
    · exact packageOk_pack c
    · exact ok.packages p
  · intro p hp
    rw [hpackage]
    rcases List.mem_append.mp hp with hp | hp
    · obtain ⟨hlt, hbound⟩ := ok.fresh p hp
      rw [if_neg (Nat.ne_of_lt hlt)]
      exact ⟨Nat.lt_succ_of_lt hlt, hbound⟩
    · rw [List.mem_singleton] at hp
      subst hp
      rw [if_pos rfl]
      exact ⟨Nat.lt_succ_self _, rfl⟩
  · refine List.nodup_append.mpr ⟨ok.nodup, List.nodup_singleton _, ?_⟩
    rintro a ha b hb rfl
    rw [List.mem_singleton] at hb
    exact Nat.lt_irrefl _ (hb ▸ (ok.fresh a ha).1)

theorem Ok.finish {s : Daemon} (ok : Ok s) (p : Nat) : Ok { s with publishing := s.publishing.erase p } :=
  ⟨ok.counted, ok.packages, fun q hq => ok.fresh q (List.mem_of_mem_erase hq), ok.nodup.erase p⟩

theorem ok_step {s s' : Daemon} {l : Label} (ok : Ok s) (h : step s l = some s') : Ok s' := by
  cases l with
  | new =>
    simp only [step] at h
    split at h
    · rename_i id m hnew
      cases h
      exact ok.setTables (ok.counted.new hnew) s.calling
    · cases h
  | del c =>
    simp only [step] at h
    split at h
    · cases h
      exact ok.setTables (ok.counted.del c) s.calling
    · cases h; exact ok
  | delr c =>
    cases h
    exact ok.setTables (ok.counted.delr c) s.calling
  | sub source c =>
    simp only [step] at h
    split at h
    · cases h
      exact ok.setTables ok.counted _
    · cases h
      exact ok.setTables (ok.counted.subscribe source c) s.calling
  | reply source c gone =>
    simp only [step] at h
    split at h
    · cases h
      exact ok.setTables (ok.counted.subReplied source c gone) _
    · cases h
  | subr node c =>
    simp only [step] at h
    split at h
    · rename_i r m hsubr
      cases h
      exact ok.setTables (ok.counted.subr hsubr) s.calling
    · cases h; exact ok
  | usub source c =>
    simp only [step] at h
    split at h
    · rename_i r m husub
      cases h
      exact ok.setTables (ok.counted.usub husub) s.calling
    · cases h; exact ok
  | usubr node c =>
    simp only [step] at h
    split at h
    · rename_i m husubr
      cases h
      exact ok.setTables (ok.counted.usubr husubr) s.calling
    · cases h; exact ok
  | pub c =>
    simp only [step] at h
    split at h
    · cases h; exact ok.publish c
    · cases h; exact ok
  | remote c =>
    cases h
    exact ok.publish c
  | deliver p =>
    simp only [step] at h
    split at h
    · rename_i hp
      obtain ⟨-, hbound⟩ := ok.fresh p hp
      obtain ⟨pack, hpack, hok⟩ := packageOk_publishLocal ok.counted (ok.packages p) hbound
      rw [hpack] at h
      cases h
      have hpackage : ∀ q, Function.update s.package p pack q = if q = p then pack else s.package q :=
        fun q => Function.update_apply ..
      refine ⟨ok.counted, ?_, ?_, ok.nodup.erase p⟩
      · intro q
        simp only [hpackage]
        split
        · exact hok
        · exact ok.packages q
      · intro q hq
        simp only [hpackage]
        have hne : q ≠ p := ((List.Nodup.mem_erase_iff ok.nodup).mp hq).1
        rw [if_neg hne]
        exact ok.fresh q (List.mem_of_mem_erase hq)
    · cases h
  | abort p =>
    simp only [step] at h
    split at h
    · cases h
      exact ok.finish p
    · cases h
  | close p k =>
    simp only [step] at h
    split at h
    · rename_i hk
      cases h
      have hpackage : ∀ q, Function.update s.package p ((s.package p).closeBy k) q =
          if q = p then (s.package p).closeBy k else s.package q := fun q => Function.update_apply ..
      refine ⟨ok.counted, ?_, ?_, ok.nodup⟩
      · intro q
        simp only [hpackage]
        split
        · exact (ok.packages p).closeBy hk
        · exact ok.packages q
      · intro q hq
        simp only [hpackage]
        split
        · rename_i he
          subst he
          exact ok.fresh q hq
        · exact ok.fresh q hq
    · cases h

theorem package_freed_once {harborId : Nat} {s : Daemon} {ls : List Label}
    (hrun : Lts.run step (init harborId) ls = some s) : Correct s := by
  have hinit : Ok (init harborId) := ⟨counted_init harborId, fun _ => packageOk_pack 0, nofun, List.nodup_nil⟩
  have ok := Lts.run_invariant (fun _ _ _ ok h => ok_step ok h) hrun hinit
  refine ⟨ok.counted, ok.packages, ?_⟩
  intro p hp
  obtain ⟨pack, hpack, -⟩ := packageOk_publishLocal ok.counted (ok.packages p) (ok.fresh p hp).2
  rw [hpack]
  rfl

/-- Two services subscribe, a package is published, one of them leaves, and both close the package. -/
def published : List Label :=
  [.new, .sub 7 1, .sub 8 1, .pub 1, .deliver 0, .usub 7 1, .close 0 8, .close 0 7]

theorem package_freed_once_published : ∃ s, Lts.run step (init 1) published = some s ∧
    (s.package 0).bound = some 2 ∧ (s.package 0).freed = 1 ∧ Correct s := by
  obtain ⟨s, hrun, hbound, hfreed⟩ : ∃ s, Lts.run step (init 1) published = some s ∧
    (s.package 0).bound = some 2 ∧ (s.package 0).freed = 1 := ⟨_, rfl, rfl, rfl⟩
  exact ⟨s, hrun, hbound, hfreed, package_freed_once hrun⟩

end Daemon

end Multicast
end Skynet
