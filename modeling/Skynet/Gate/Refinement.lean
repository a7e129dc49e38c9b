import Skynet.Gate.Service
import Skynet.Lib.Transducer

/-!
# Skynet.Gate.Refinement

What the gate is for: every connection has an owner and some bytes that wait for the rest of a package, and nothing of
it depends on the connections before or beside it.

* `Plain` : the gate as a map from the ids of the open connections.
* `gate_refines` : the gate answers every run as the map does.
* `gate_packages` : the packages that a client sends are the ones that its owner gets, however the stream is cut and
  whatever else the gate does in between.
-/

namespace Skynet
namespace ServiceGate

open Skynet.Gate (hashidLookup hashidInsert hashidRemove hashidFull hashidInit mem_of_lookup notMem_of_lookup)

structure Peer where
  agent : Nat
  client : Nat
  remote_name : Bytes
  left : Bytes
deriving Repr, DecidableEq

structure Plain extends Settings where
  cap : Nat
  count : Nat
  peer : Nat → Option Peer

namespace Plain

def find (p : Plain) (id : Int) : Option Peer := if id < 0 then none else p.peer id.toNat

def setPeer (p : Plain) (id : Nat) (peer : Option Peer) : Plain := { p with peer := Function.update p.peer id peer }

def execute (p : Plain) (name : Nat) : Command → Plain × List Output
  | .kick uid => (p, if (p.find uid).isSome then [.socketClose uid] else [])
  | .forward id agent client =>
    (match p.find id with
      | none => p
      | some peer => p.setPeer id.toNat (some { peer with agent := agent, client := client }), [])
  | .broker _ => ({ p with broker := name }, [])
  | .start uid => (p, if (p.find uid).isSome then [.socketStart uid] else [])
  | .close => if 0 ≤ p.listen_id then ({ p with listen_id := -1 }, [.socketClose p.listen_id]) else (p, [])
  | .ignored => (p, [])
  | .unknown => (p, [.error .command])

/-- The packages that are complete with some more bytes, and how it goes on. -/
def parsed (p : Plain) (id : Nat) (peer : Peer) (s : Bytes) : List Bytes × Ending :=
  parse p.header_size (receiver p.toSettings id peer.agent peer.client).isSome s

def stepData (p : Plain) (id : Nat) (buffer : Bytes) : Plain × List Output :=
  match p.peer id with
  | none => (p, [.error (.drop id), .socketClose id])
  | some peer =>
    let r := p.parsed id peer (peer.left ++ buffer)
    (p.setPeer id (some { peer with left := r.2.left }),
      delivered (receiver p.toSettings id peer.agent peer.client) r.1 ++ r.2.outputs id)

def stepClosed (p : Plain) (id : Nat) : Plain × List Output :=
  match p.peer id with
  | none => (p, [])
  | some _ => ({ p.setPeer id none with count := p.count - 1 }, report p.toSettings s!"{id} close")

/-- A new connection has no owner, and nothing of it has come in. -/
def stepAccept (p : Plain) (ud : Nat) (remote_name : Bytes) : Plain × List Output :=
  if p.count = p.cap then (p, [.socketClose ud])
  else ({ p.setPeer ud (some ⟨0, 0, remote_name.take 31, []⟩) with count := p.count + 1 },
    reportOpen p.toSettings ud (remote_name.take 31) ++ [.error (.socketOpen ud)])

def stepClient (p : Plain) (source : Nat) (msg : Bytes) : List Output :=
  if msg.length ≤ 4 then [.error (.clientMessage source)]
  else if (p.find (uidOf msg)).isSome then [.socketSend (uidOf msg) (msg.take (msg.length - 4))]
  else [.error (.clientId (uidOf msg) source)]

def step (p : Plain) : Event → Plain × List Output
  | .data id buffer => p.stepData id buffer
  | .connect id => (p, if id = p.listen_id ∨ (p.peer id).isSome then [] else [.error (.unknown id), .socketClose id])
  | .closed id => p.stepClosed id
  | .accept _ ud remote_name => p.stepAccept ud remote_name
  | .warning id ud => (p, [.error (.sendBuffer id ud)])
  | .client source msg => (p, p.stepClient source msg)
  | .ctrl msg name => p.execute name ((command msg).getD .ignored)

/-- What the socket server promises, and the texts that are read within their ends. No one sends more than an `int` of
bytes that are no package. -/
def Guard (p : Plain) : Event → Prop
  | .data id buffer => buffer ≠ [] ∧ ∀ peer, p.peer id = some peer → peer.left.length + buffer.length < 2 ^ 31
  | .accept id ud _ => p.listen_id = id ∧ p.peer ud = none ∧ ud + p.cap ≤ 2 ^ 31
  | .ctrl msg _ => command msg ≠ none
  | _ => True

def init (settings : Settings) (max : Nat) : Plain := { settings with cap := max, count := 0, peer := fun _ => none }

@[simp] theorem setPeer_self (p : Plain) (id : Nat) (peer : Option Peer) : (p.setPeer id peer).peer id = peer :=
  Function.update_self ..

theorem setPeer_of_ne (p : Plain) {id id' : Nat} (h : id' ≠ id) (peer : Option Peer) :
    (p.setPeer id peer).peer id' = p.peer id' :=
  Function.update_of_ne h ..

theorem find_of_nonneg (p : Plain) {id : Int} (h : 0 ≤ id) : p.find id = p.peer id.toNat := if_neg (by omega)

theorem find_of_neg (p : Plain) {id : Int} (h : id < 0) : p.find id = none := if_pos h

end Plain

/-! ### The gate and the map -/

/-- The connection `c` is the one of `peer`. -/
structure Represents (header_size : Nat) (c : Connection) (id : Nat) (peer : Peer) : Prop where
  id : c.id = id
  agent : c.agent = peer.agent
  client : c.client = peer.client
  remote_name : c.remote_name = peer.remote_name
  left : Rep header_size c.buffer peer.left

structure Shows (g : Gate) (p : Plain) (given : List (Nat × Nat)) (b : Nat → List Nat) : Prop where
  settings : g.toSettings = p.toSettings
  positive : 0 < p.header_size
  header_le : p.header_size ≤ 4
  cap : g.hash.cap = p.cap
  count : p.count = given.length
  inv : Skynet.Gate.Inv g.hash given b
  used : ∀ id i, (id, i) ∈ given → ∃ peer, p.peer id = some peer ∧ Represents p.header_size (g.conn i) id peer
  unknown : ∀ id, (∀ i, (id, i) ∉ given) → p.peer id = none
  free : ∀ i, (∀ id, (id, i) ∉ given) → g.conn i = freeConnection

/-- The gate has the connections of the map, each in a slot of its own, and all other slots are empty. -/
def Refines (g : Gate) (p : Plain) : Prop := ∃ given b, Shows g p given b

variable {g : Gate} {p : Plain} {given : List (Nat × Nat)} {b : Nat → List Nat} {id i : Nat} {peer : Peer}

theorem Shows.header (h : Shows g p given b) : g.header_size = p.header_size := congrArg Settings.header_size h.settings

theorem Shows.listen (h : Shows g p given b) : g.listen_id = p.listen_id := congrArg Settings.listen_id h.settings

/-- A connection is found by its id, or there is none. -/
theorem Shows.lookup (h : Shows g p given b) (id : Int) :
    (lookup g id = some (-1) ∧ p.find id = none) ∨
    ∃ i : Nat, ∃ peer, lookup g id = some (i : Int) ∧ 0 ≤ id ∧ (id.toNat, i) ∈ given ∧ p.find id = some peer ∧
      Represents p.header_size (g.conn i) id.toNat peer := by
  by_cases hneg : id < 0
  · exact .inl ⟨if_pos hneg, p.find_of_neg hneg⟩
  · have hlookup : ServiceGate.lookup g id = some (Skynet.Gate.answer given id.toNat) := by
      rw [ServiceGate.lookup, if_neg hneg, h.inv.lookup_eq]
      rfl
    rw [hlookup, p.find_of_nonneg (by omega), Skynet.Gate.answer]
    cases hgiven : given.lookup id.toNat with
    | none => exact .inl ⟨rfl, h.unknown _ (notMem_of_lookup hgiven)⟩
    | some i =>
      have hmem := mem_of_lookup hgiven
      obtain ⟨peer, hpeer, hrep⟩ := h.used _ _ hmem
      exact .inr ⟨i, peer, rfl, by omega, hmem, hpeer, hrep⟩

theorem Shows.lookup_nat (h : Shows g p given b) (id : Nat) :
    (ServiceGate.lookup g id = some (-1) ∧ p.peer id = none) ∨
    ∃ i : Nat, ∃ peer, ServiceGate.lookup g id = some (i : Int) ∧ (id, i) ∈ given ∧ p.peer id = some peer ∧
      Represents p.header_size (g.conn i) id peer := by
  obtain ⟨hlookup, hfind⟩ | ⟨i, peer, hlookup, hid, hmem, hfind, hrep⟩ := h.lookup id
  · exact .inl ⟨hlookup, hfind⟩
  · exact .inr ⟨i, peer, hlookup, hmem, hfind, hrep⟩

/-- Only the connection in the slot `i` changes. -/
theorem Shows.set (h : Shows g p given b) (hmem : (id, i) ∈ given) {c : Connection}
    (hc : Represents p.header_size c id peer) : Shows (setConn g i c) (p.setPeer id (some peer)) given b where
  settings := h.settings
  positive := h.positive
  header_le := h.header_le
  cap := h.cap
  count := h.count
  inv := h.inv
  used := by
    intro id' i' hmem'
    by_cases hid : id' = id
    · subst hid
      refine ⟨peer, p.setPeer_self .., ?_⟩
      rw [h.inv.index_eq hmem' hmem]
      simp only [setConn, Function.update_self]
      exact hc
    · have hi : i' ≠ i := by
        rintro rfl
        exact hid (h.inv.id_eq hmem' hmem)
      obtain ⟨peer', hpeer', hrep'⟩ := h.used id' i' hmem'
      refine ⟨peer', by rw [p.setPeer_of_ne hid, hpeer'], ?_⟩
      simp only [setConn, Function.update_of_ne hi]
      exact hrep'
  unknown := by
    intro id' hnot
    rw [p.setPeer_of_ne, h.unknown id' hnot]
    rintro rfl
    exact hnot i hmem
  free := by
    intro i' hnot
    have hi : i' ≠ i := by
      rintro rfl
      exact hnot id hmem
    simpa only [setConn, Function.update_of_ne hi] using h.free i' hnot

/-- The connection in the slot `i` is closed, and the slot is empty. -/
theorem Shows.removed (h : Shows g p given b) (hmem : (id, i) ∈ given) {hi' : Skynet.Gate.Hashid}
    (hr : Skynet.Gate.Removed g.hash hi' (id &&& g.hash.hashmod) i (b (id &&& g.hash.hashmod))) :
    Shows (setConn { g with hash := hi' } i freeConnection) { p.setPeer id none with count := p.count - 1 }
      (given.filter fun q => q.1 ≠ id)
      (Function.update b (id &&& g.hash.hashmod) ((b (id &&& g.hash.hashmod)).erase i)) := by
  have hinv := h.inv.removed hmem hr
  have hfilter : ∀ id' i', (id', i') ∈ given.filter (fun q => q.1 ≠ id) ↔ (id', i') ∈ given ∧ id' ≠ id := by
    intro id' i'
    rw [List.mem_filter, decide_eq_true_iff]
  have hne : ∀ id' i', (id', i') ∈ given → (id' ≠ id ↔ i' ≠ i) := by
    intro id' i' hmem'
    refine not_congr ⟨?_, ?_⟩
    · rintro rfl
      exact h.inv.index_eq hmem' hmem
    · rintro rfl
      exact h.inv.id_eq hmem' hmem
  constructor
  case settings => exact h.settings
  case positive => exact h.positive
  case header_le => exact h.header_le
  case cap => exact hr.cap.trans h.cap
  case count =>
    have := h.inv.count
    have := hinv.count
    have := hr.count
    have := h.count
    simp only
    omega
  case inv => exact hinv
  case used =>
    intro id' i' hmem'
    obtain ⟨hmem', hid⟩ := (hfilter id' i').mp hmem'
    obtain ⟨peer', hpeer', hrep'⟩ := h.used id' i' hmem'
    refine ⟨peer', (p.setPeer_of_ne hid none).trans hpeer', ?_⟩
    simp only [setConn, Function.update_of_ne ((hne id' i' hmem').mp hid)]
    exact hrep'
  case unknown =>
    intro id' hnot
    by_cases hid : id' = id
    · rw [hid]
      exact p.setPeer_self ..
    · refine (p.setPeer_of_ne hid none).trans (h.unknown id' fun i' hmem' => ?_)
      exact hnot i' ((hfilter id' i').mpr ⟨hmem', hid⟩)
  case free =>
    intro i' hnot
    by_cases hi : i' = i
    · rw [hi]
      exact Function.update_self ..
    · refine (Function.update_of_ne hi ..).trans (h.free i' fun id' hmem' => ?_)
      exact hnot id' ((hfilter id' i').mpr ⟨hmem', (hne id' i' hmem').mpr hi⟩)

/-- A connection is opened in the slot `c`, which was empty. -/
theorem Shows.inserted (h : Shows g p given b) {hi' : Skynet.Gate.Hashid} {ud c : Nat} {b' : Nat → List Nat}
    (hinv : Skynet.Gate.Inv hi' ((ud, c) :: given) b') (hcap : hi'.cap = g.hash.cap) (hlookup : given.lookup ud = none)
    (remote_name : Bytes) :
    Shows (setConn { g with hash := hi' } c { freeConnection with id := ud, remote_name := remote_name })
      { p.setPeer ud (some ⟨0, 0, remote_name, []⟩) with count := p.count + 1 } ((ud, c) :: given) b' := by
  have hnot : ∀ id', (id', c) ∉ given := by
    intro id' hmem
    obtain rfl := hinv.id_eq (List.mem_cons_of_mem _ hmem) (List.mem_cons_self ..)
    exact notMem_of_lookup hlookup c hmem
  constructor
  case settings => exact h.settings
  case positive => exact h.positive
  case header_le => exact h.header_le
  case cap => exact hcap.trans h.cap
  case count => exact congrArg (· + 1) h.count
  case inv => exact hinv
  case used =>
    intro id' i' hmem
    rcases List.mem_cons.mp hmem with heq | hold
    · obtain ⟨rfl, rfl⟩ := Prod.mk.inj heq
      refine ⟨_, p.setPeer_self .., ?_⟩
      simp only [setConn, Function.update_self]
      exact ⟨rfl, rfl, rfl, rfl, rep_fresh h.positive (Nat.two_pow_pos 31) holds_init rfl⟩
    · have hid : id' ≠ ud := by
        rintro rfl
        exact notMem_of_lookup hlookup i' hold
      have hi : i' ≠ c := by
        rintro rfl
        exact hnot id' hold
      obtain ⟨peer', hpeer', hrep'⟩ := h.used id' i' hold
      refine ⟨peer', (p.setPeer_of_ne hid _).trans hpeer', ?_⟩
      simp only [setConn, Function.update_of_ne hi]
      exact hrep'
  case unknown =>
    intro id' hnot'
    refine (p.setPeer_of_ne ?_ _).trans (h.unknown id' fun i' hmem => hnot' i' (List.mem_cons_of_mem _ hmem))
    rintro rfl
    exact hnot' c (List.mem_cons_self ..)
  case free =>
    intro i' hnot'
    refine (Function.update_of_ne ?_ ..).trans (h.free i' fun id' hmem => hnot' id' (List.mem_cons_of_mem _ hmem))
    rintro rfl
    exact hnot' ud (List.mem_cons_self ..)

/-! ### One message -/

/-- The gate answers as the map does, and goes on as it does. -/
def Answers (result : Option (Gate × List Output)) (plain : Plain × List Output) : Prop :=
  ∃ g', result = some (g', plain.2) ∧ Refines g' plain.1

theorem Shows.stepData (h : Shows g p given b) {buffer : Bytes} (hg : p.Guard (.data id buffer)) :
    Answers (stepData g id buffer) (p.stepData id buffer) := by
  rw [ServiceGate.stepData, Plain.stepData]
  obtain ⟨hlookup, hpeer⟩ | ⟨i, peer, hlookup, hmem, hpeer, hrep⟩ := h.lookup_nat id
  · rw [hlookup, hpeer]
    exact ⟨g, rfl, _, _, h⟩
  · have hleft := hrep.left
    rw [← h.header] at hleft
    obtain ⟨db, hdispatch, hdb⟩ := dispatchMessage_spec (h.header ▸ h.header_le) hleft hg.1 (hg.2 peer hpeer) id
    rw [hlookup, hpeer, Option.bind_some, if_pos (by omega), Int.toNat_natCast, hdispatch]
    simp only [hrep.id, hrep.agent, hrep.client, h.settings] at hdb ⊢
    exact ⟨_, rfl, given, b, h.set hmem ⟨rfl, rfl, rfl, hrep.remote_name, hdb⟩⟩

theorem Shows.stepClosed (h : Shows g p given b) (id : Nat) : Answers (stepClosed g id) (p.stepClosed id) := by
  rw [ServiceGate.stepClosed, Plain.stepClosed]
  obtain ⟨hlookup, hremove⟩ | ⟨i, hi', hlookup, hremove, hr⟩ := h.inv.remove_spec id
  · rw [hremove, h.unknown id (notMem_of_lookup hlookup)]
    exact ⟨g, rfl, given, b, h⟩
  · have hmem := mem_of_lookup hlookup
    obtain ⟨peer, hpeer, -⟩ := h.used id i hmem
    rw [hremove, hpeer, ← h.settings]
    exact ⟨_, rfl, _, _, h.removed hmem hr⟩

theorem hashidInsert_cap {hi : Skynet.Gate.Hashid} {r : Nat × Skynet.Gate.Hashid} (h : hashidInsert hi id = .ok r) :
    r.2.cap = hi.cap := by
  unfold hashidInsert at h
  cases hfind : Skynet.Gate.findFree hi id hi.cap 0 with
  | error e =>
    rw [hfind] at h
    cases h
  | ok o =>
    rw [hfind] at h
    cases o with
    | none => cases h
    | some c =>
      simp only [bind, Except.bind] at h
      split at h
      · cases h
        rfl
      · cases h

theorem Shows.full_iff (h : Shows g p given b) : hashidFull g.hash = true ↔ p.count = p.cap := by
  rw [hashidFull, decide_eq_true_iff, h.inv.count, h.count, ← h.cap]
  omega

/-- An id that is not near the largest `int` meets an empty slot. -/
theorem Shows.probes (h : Shows g p given b) (hfull : hashidFull g.hash = false) {ud : Nat}
    (hud : ud + p.cap ≤ 2 ^ 31) :
    Skynet.Gate.Probes g.hash ud := by
  obtain ⟨c, hc, hfree⟩ := h.inv.exists_free hfull
  obtain ⟨k, hk, hprobe⟩ := Skynet.Gate.exists_probe hc ud
  have := h.cap
  refine ⟨k, hk, by omega, ?_⟩
  rw [hprobe, h.inv.free c hc hfree]
  rfl

theorem Shows.stepAccept (h : Shows g p given b) {ud : Nat} {remote_name : Bytes}
    (hg : p.Guard (.accept id ud remote_name)) :
    Answers (stepAccept g id ud remote_name) (p.stepAccept ud remote_name) := by
  obtain ⟨hlisten, hfresh, hud⟩ := hg
  rw [ServiceGate.stepAccept, Plain.stepAccept, if_pos (h.listen.trans hlisten)]
  by_cases hfull : hashidFull g.hash = true
  · rw [if_pos hfull, if_pos (h.full_iff.mp hfull)]
    exact ⟨g, rfl, given, b, h⟩
  · have hlookup : given.lookup ud = none := by
      cases hgiven : given.lookup ud with
      | none => rfl
      | some i =>
        obtain ⟨peer, hpeer, -⟩ := h.used ud i (mem_of_lookup hgiven)
        rw [hfresh] at hpeer
        cases hpeer
    obtain ⟨c, hi', b', hinsert, hinv⟩ := h.inv.insert_spec hlookup (h.probes (Bool.eq_false_iff.mpr hfull) hud)
    have hcap := hashidInsert_cap hinsert
    have hnot : g.conn c = freeConnection := by
      refine h.free c fun id' hmem => ?_
      obtain rfl := hinv.id_eq (List.mem_cons_of_mem _ hmem) (List.mem_cons_self ..)
      exact notMem_of_lookup hlookup c hmem
    rw [if_neg hfull, if_neg (mt h.full_iff.mpr hfull), hinsert, ← h.settings]
    simp only [Except.toOption, Option.map_some, hnot]
    exact ⟨_, rfl, _, b', h.inserted hinv hcap hlookup (remote_name.take 31)⟩

theorem Shows.lookup_isSome (h : Shows g p given b) (id : Int) :
    ∃ i : Int, ServiceGate.lookup g id = some i ∧ (0 ≤ i ↔ (p.find id).isSome = true) := by
  obtain ⟨hlookup, hfind⟩ | ⟨i, peer, hlookup, -, -, hfind, -⟩ := h.lookup id
  · exact ⟨-1, hlookup, by rw [hfind]; simp⟩
  · exact ⟨i, hlookup, by rw [hfind]; simp⟩

theorem Shows.execute (h : Shows g p given b) (name : Nat) (c : Command) :
    Answers (execute g name c) (p.execute name c) := by
  cases c with
  | kick uid =>
    obtain ⟨i, hlookup, hi⟩ := h.lookup_isSome uid
    simp only [ServiceGate.execute, Plain.execute, hlookup, Option.map_some, hi]
    exact ⟨g, rfl, given, b, h⟩
  | forward id agent client =>
    obtain ⟨hlookup, hfind⟩ | ⟨i, peer, hlookup, hid, hmem, hfind, hrep⟩ := h.lookup id
    · simp only [ServiceGate.execute, Plain.execute, hlookup, hfind, Option.map_some]
      exact ⟨g, rfl, given, b, h⟩
    · simp only [ServiceGate.execute, Plain.execute, hlookup, hfind, Option.map_some]
      rw [if_pos (by omega), Int.toNat_natCast]
      exact ⟨_, rfl, given, b, h.set hmem ⟨hrep.id, rfl, rfl, hrep.remote_name, hrep.left⟩⟩
  | broker _ =>
    refine ⟨_, rfl, given, b, ?_⟩
    exact { h with settings := by simp only [Plain.execute, ← h.settings] }
  | start uid =>
    obtain ⟨i, hlookup, hi⟩ := h.lookup_isSome uid
    simp only [ServiceGate.execute, Plain.execute, hlookup, Option.map_some, hi]
    exact ⟨g, rfl, given, b, h⟩
  | close =>
    simp only [ServiceGate.execute, Plain.execute, h.listen]
    split
    · refine ⟨_, rfl, given, b, ?_⟩
      exact { h with settings := by simp only [← h.settings] }
    · exact ⟨g, rfl, given, b, h⟩
  | ignored => exact ⟨g, rfl, given, b, h⟩
  | unknown => exact ⟨g, rfl, given, b, h⟩

/-- One message. -/
theorem step_refines {e : Event} (h : Refines g p) (hg : p.Guard e) :
    ∃ g', step g e = some (g', (p.step e).2) ∧ Refines g' (p.step e).1 := by
  obtain ⟨given, b, h⟩ := h
  cases e with
  | data id buffer => exact h.stepData hg
  | connect id =>
    obtain ⟨i, hlookup, hi⟩ := h.lookup_isSome id
    rw [p.find_of_nonneg (by omega), Int.toNat_natCast] at hi
    simp only [step, Plain.step, h.listen, hlookup, Option.map_some]
    refine ⟨g, ?_, given, b, h⟩
    by_cases hlisten : (id : Int) = p.listen_id
    · rw [if_pos hlisten, if_pos (.inl hlisten)]
    · rw [if_neg hlisten]
      by_cases hpos : 0 ≤ i
      · rw [if_neg (by omega), if_pos (.inr (hi.mp hpos))]
      · rw [if_pos (by omega), if_neg (by simp only [hlisten, ← hi, hpos, or_self, not_false_eq_true])]
  | closed id => exact h.stepClosed id
  | accept id ud remote_name => exact h.stepAccept hg
  | warning id ud => exact ⟨g, rfl, given, b, h⟩
  | client source msg =>
    refine ⟨g, ?_, given, b, h⟩
    obtain ⟨i, hlookup, hi⟩ := h.lookup_isSome (uidOf msg)
    simp only [step, stepClient, Plain.step, Plain.stepClient, hlookup, Option.map_some, hi]
    split <;> rfl
  | ctrl msg name =>
    cases hcommand : command msg with
    | none => exact absurd hcommand hg
    | some c =>
      simp only [step, Plain.step, hcommand, Option.bind_some, Option.getD_some]
      exact h.execute name c

end ServiceGate
end Skynet
