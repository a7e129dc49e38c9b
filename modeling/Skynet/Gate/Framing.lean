import Skynet.Hashid
import Skynet.Gate.Databuffer

/-!
# Skynet.Gate.Framing

How the gate cuts the stream of a connection into packages (`dispatch_message` and `_forward` of `service_gate.c`).

* `parse` : the packages of a stream, and how it goes on. A package that nobody receives loses its header only.
* `dispatchMessage_spec` : what the gate forwards is what `parse` makes of the bytes that are left and the new ones.
* `parse_append` : nothing depends on where the stream is cut.
* `parse_frames` : packages that are sent with their lengths in front come out.
-/

namespace Skynet
namespace ServiceGate

open Gate (Hashid)

def PTYPE_TEXT : Nat := 0
def PTYPE_CLIENT : Nat := 3
def PTYPE_TAG_DONTCOPY : Nat := 0x10000

/-- The texts of `skynet_error`. -/
inductive GateError where
  /-- "Recv socket message > 16M" -/
  | tooLong
  /-- "Drop unknown connection %d message" -/
  | drop (id : Nat)
  /-- "Close unknown connection %d" -/
  | unknown (id : Nat)
  /-- "socket open: %x" -/
  | socketOpen (id : Nat)
  /-- "fd (%d) send buffer (%d)K" -/
  | sendBuffer (id ud : Nat)
  /-- "Invalid client message from %x" -/
  | clientMessage (source : Nat)
  /-- "Invalid client id %d from %x" -/
  | clientId (uid : Int) (source : Nat)
  /-- "[gate] Unkown command : %s" -/
  | command
deriving Repr, DecidableEq

inductive Output where
  | send (source destination type : Nat) (data : Bytes)
  | socketClose (id : Int)
  | socketStart (id : Int)
  | socketSend (id : Int) (data : Bytes)
  | error (e : GateError)
deriving Repr, DecidableEq

structure Connection where
  id : Int
  agent : Nat
  client : Nat
  remote_name : Bytes
  buffer : Databuffer
deriving Repr, DecidableEq

/-- The fields of `struct gate` that are about no connection. -/
structure Settings where
  listen_id : Int
  watchdog : Nat
  broker : Nat
  client_tag : Nat
  header_size : Nat
deriving Repr, DecidableEq

structure Gate extends Settings where
  hash : Hashid
  conn : Nat → Connection

def text (s : String) : Bytes := s.toUTF8.toList

/-- `_forward` -/
def forward (g : Gate) (c : Connection) (size : Int) : Option (Connection × List Output) :=
  if g.broker ≠ 0 then
    (databufferRead c.buffer size).map fun r =>
      ({ c with buffer := r.2 }, [.send 0 g.broker (g.client_tag ||| PTYPE_TAG_DONTCOPY) r.1])
  else if c.agent ≠ 0 then
    (databufferRead c.buffer size).map fun r =>
      ({ c with buffer := r.2 }, [.send c.client c.agent (g.client_tag ||| PTYPE_TAG_DONTCOPY) r.1])
  else if g.watchdog ≠ 0 then
    (databufferRead c.buffer size).map fun r =>
      ({ c with buffer := r.2 },
        [.send 0 g.watchdog (PTYPE_TEXT ||| PTYPE_TAG_DONTCOPY) (text s!"{c.id} data " ++ r.1)])
  else some (c, [])

/-- The loop of `dispatch_message`. -/
def dispatchLoop (g : Gate) (id : Nat) : Nat → Connection → Option (Connection × List Output)
  | 0, _ => none
  | fuel + 1, c =>
    (databufferReadheader c.buffer g.header_size).bind fun r =>
      let c := { c with buffer := r.2 }
      if r.1 < 0 then some (c, [])
      else if 0 < r.1 then
        if 0x1000000 ≤ r.1 then
          some ({ c with buffer := databufferClear c.buffer }, [.socketClose id, .error .tooLong])
        else
          (forward g c r.1).bind fun f =>
            (dispatchLoop g id fuel { f.1 with buffer := databufferReset f.1.buffer }).map fun l => (l.1, f.2 ++ l.2)
      else dispatchLoop g id fuel c

/-- Each turn takes bytes out of the buffer or is the first one of a pending package. -/
def dispatchMessage (g : Gate) (c : Connection) (id : Nat) (data : Bytes) : Option (Connection × List Output) :=
  let buffer := databufferPush c.buffer data
  dispatchLoop g id (buffer.size.toNat + g.header_size + 1) { c with buffer := buffer }

/-! ### The packages of a stream -/

inductive Ending where
  | waiting (left : Bytes)
  /-- The gate has dropped what was left. -/
  | closed
deriving Repr, DecidableEq

def Ending.left : Ending → Bytes
  | .waiting left => left
  | .closed => []

def Ending.outputs (id : Nat) : Ending → List Output
  | .waiting _ => []
  | .closed => [.socketClose id, .error .tooLong]

/-- A length of `2 ^ 31` or more is negative as an `int`, and the stream waits for ever. -/
def parse (header_size : Nat) (received : Bool) (s : Bytes) : List Bytes × Ending :=
  if 0 < header_size ∧ header_size ≤ s.length then
    let n := Endian.ofBe (s.take header_size)
    let body := s.drop header_size
    if n = 0 then parse header_size received body
    else if 2 ^ 31 ≤ n ∨ body.length < n then ([], .waiting s)
    else if 0x1000000 ≤ n then ([], .closed)
    else if received then
      let r := parse header_size received (body.drop n)
      (body.take n :: r.1, r.2)
    else parse header_size received body
  else ([], .waiting s)
termination_by s.length
decreasing_by all_goals simp only [List.length_drop]; omega

/-- Who receives the packages of a connection, and in what message. -/
def receiver (g : Settings) (id : Int) (agent client : Nat) : Option (Bytes → Output) :=
  if g.broker ≠ 0 then some (.send 0 g.broker (g.client_tag ||| PTYPE_TAG_DONTCOPY))
  else if agent ≠ 0 then some (.send client agent (g.client_tag ||| PTYPE_TAG_DONTCOPY))
  else if g.watchdog ≠ 0 then
    some fun data => .send 0 g.watchdog (PTYPE_TEXT ||| PTYPE_TAG_DONTCOPY) (text s!"{id} data " ++ data)
  else none

theorem forward_eq (g : Gate) (c : Connection) (size : Int) : forward g c size =
    match receiver g.toSettings c.id c.agent c.client with
    | none => some (c, [])
    | some f => (databufferRead c.buffer size).map fun r => ({ c with buffer := r.2 }, [f r.1]) := by
  unfold forward receiver
  split
  · rfl
  · split
    · rfl
    · split <;> rfl

def delivered (receiver : Option (Bytes → Output)) (packages : List Bytes) : List Output :=
  match receiver with
  | none => []
  | some f => packages.map f

@[simp] theorem delivered_nil (receiver : Option (Bytes → Output)) : delivered receiver [] = [] := by
  cases receiver <;> rfl

theorem delivered_append (receiver : Option (Bytes → Output)) (ps qs : List Bytes) :
    delivered receiver (ps ++ qs) = delivered receiver ps ++ delivered receiver qs := by
  cases receiver with
  | none => rfl
  | some f => exact List.map_append

/-! ### A header -/

theorem ofBe_lt {plen : Bytes} (h : plen.length ≤ 4) : Endian.ofBe plen < 2 ^ 32 := by
  have hlt := Endian.ofLe_lt plen.reverse
  rw [List.length_reverse] at hlt
  have hpow : 256 ^ plen.length ≤ 256 ^ 4 := Nat.pow_le_pow_right (by omega) h
  exact Nat.lt_of_lt_of_le hlt hpow

theorem headerOf_of_lt {plen : Bytes} (h : Endian.ofBe plen < 2 ^ 31) : headerOf plen = Endian.ofBe plen :=
  Seri.toInt32_of_lt h

theorem headerOf_neg {plen : Bytes} (hlen : plen.length ≤ 4) (h : 2 ^ 31 ≤ Endian.ofBe plen) : headerOf plen < 0 := by
  have hlt := ofBe_lt hlen
  rw [headerOf, Seri.toInt32, Int.bmod_def]
  omega

variable {header_size : Nat} {db : Databuffer} {left : Bytes}

theorem Rep.readheader_short (h : Rep header_size db left) (hlt : left.length < header_size) :
    databufferReadheader db header_size = some (-1, db) := by
  have hheader : db.header = 0 := by
    by_contra hne
    have := (h.pending hne).1
    omega
  have hsize := (h.fresh hheader).size
  rw [databufferReadheader, if_pos hheader, if_pos (by omega)]

/-- The header is read at once, or it has been read before. -/
theorem Rep.readheader (h : Rep header_size db left) (hle : header_size ≤ left.length) : ∃ db',
    databufferReadheader db header_size =
      some (if ((left.drop header_size).length : Int) < headerOf (left.take header_size) then -1
        else headerOf (left.take header_size), db') ∧
    Holds db' (left.drop header_size) ∧ db'.header = headerOf (left.take header_size) := by
  by_cases hheader : db.header = 0
  · have hdb := h.fresh hheader
    obtain ⟨db', hread, hholds, -⟩ := holds_read hdb h.small h.positive hle
    have hsize := hdb.size
    refine ⟨{ db' with header := headerOf (left.take header_size) }, ?_, ⟨hholds.unread, hholds.size⟩, by simp only⟩
    rw [databufferReadheader, if_pos hheader, if_neg (by omega), hread]
    simp only [Option.bind_some, hholds.size]
    by_cases hlt : ((left.drop header_size).length : Int) < headerOf (left.take header_size)
    · rw [if_pos hlt, if_pos hlt]
    · rw [if_neg hlt, if_neg hlt]
  · obtain ⟨-, hpending, hholds⟩ := h.pending hheader
    refine ⟨db, ?_, hholds, hpending⟩
    rw [databufferReadheader, if_neg hheader]
    simp only [hholds.size, hpending]
    split <;> rfl

theorem rep_fresh {s : Bytes} (hpos : 0 < header_size) (hs : s.length < 2 ^ 31) (h : Holds db s)
    (hheader : db.header = 0) :
    Rep header_size db s :=
  ⟨hpos, hs, fun _ => h, fun hne => absurd hheader hne⟩

theorem Holds.reset {s : Bytes} (h : Holds db s) : Holds (databufferReset db) s := ⟨h.unread, h.size⟩

theorem rep_push {data : Bytes} (h : Rep header_size db left) (hdata : data ≠ [])
    (hs : left.length + data.length < 2 ^ 31) :
    Rep header_size (databufferPush db data) (left ++ data) where
  positive := h.positive
  small := by rwa [List.length_append]
  fresh hheader := holds_push (h.fresh hheader) hdata hs
  pending hheader := by
    obtain ⟨hle, hpending, hholds⟩ := h.pending hheader
    refine ⟨by rw [List.length_append]; omega, ?_, ?_⟩
    · rw [List.take_append_of_le_length hle]
      exact hpending
    · rw [List.drop_append_of_le_length hle]
      exact holds_push hholds hdata (by rw [List.length_drop]; omega)

/-! ### The turns of the loop -/

section Turns

variable {received : Bool} {s : Bytes} {n : Nat}

theorem parse_short (h : ¬ (0 < header_size ∧ header_size ≤ s.length)) :
    parse header_size received s = ([], .waiting s) := by
  rw [parse, if_neg h]

theorem parse_empty (h : 0 < header_size ∧ header_size ≤ s.length) (hn : Endian.ofBe (s.take header_size) = 0) :
    parse header_size received s = parse header_size received (s.drop header_size) := by
  rw [parse, if_pos h]
  simp only [hn, if_true]

theorem parse_wait (h : 0 < header_size ∧ header_size ≤ s.length) (hn : Endian.ofBe (s.take header_size) = n)
    (hpos : 0 < n) (hwait : 2 ^ 31 ≤ n ∨ (s.drop header_size).length < n) :
    parse header_size received s = ([], .waiting s) := by
  rw [parse, if_pos h]
  simp only [hn]
  rw [if_neg (by omega), if_pos hwait]

theorem parse_long (h : 0 < header_size ∧ header_size ≤ s.length) (hn : Endian.ofBe (s.take header_size) = n)
    (hlong : 0x1000000 ≤ n) (hwait : ¬ (2 ^ 31 ≤ n ∨ (s.drop header_size).length < n)) :
    parse header_size received s = ([], .closed) := by
  rw [parse, if_pos h]
  simp only [hn]
  rw [if_neg (by omega), if_neg hwait, if_pos hlong]

theorem parse_package (h : 0 < header_size ∧ header_size ≤ s.length) (hn : Endian.ofBe (s.take header_size) = n)
    (hpos : 0 < n) (hle : n ≤ (s.drop header_size).length) (hsmall : n < 0x1000000) :
    parse header_size true s = ((s.drop header_size).take n :: (parse header_size true ((s.drop header_size).drop n)).1,
      (parse header_size true ((s.drop header_size).drop n)).2) := by
  rw [parse, if_pos h]
  simp only [hn]
  rw [if_neg (by omega), if_neg (by omega), if_neg (by omega), if_pos trivial]

/-- The bytes of a package that nobody receives are taken for the next header. -/
theorem parse_unreceived (h : 0 < header_size ∧ header_size ≤ s.length) (hn : Endian.ofBe (s.take header_size) = n)
    (hpos : 0 < n) (hle : n ≤ (s.drop header_size).length) (hsmall : n < 0x1000000) :
    parse header_size false s = parse header_size false (s.drop header_size) := by
  rw [parse, if_pos h]
  simp only [hn]
  rw [if_neg (by omega), if_neg (by omega), if_neg (by omega), if_neg (by decide)]

variable {g : Gate} {id fuel : Nat} {c : Connection} {h : Int}

theorem dispatchLoop_neg (hread : databufferReadheader c.buffer g.header_size = some (h, db)) (hneg : h < 0) :
    dispatchLoop g id (fuel + 1) c = some ({ c with buffer := db }, []) := by
  rw [dispatchLoop, hread, Option.bind_some]
  exact if_pos hneg

theorem dispatchLoop_zero (hread : databufferReadheader c.buffer g.header_size = some (0, db)) :
    dispatchLoop g id (fuel + 1) c = dispatchLoop g id fuel { c with buffer := db } := by
  rw [dispatchLoop, hread, Option.bind_some]
  rfl

theorem dispatchLoop_long (hread : databufferReadheader c.buffer g.header_size = some (h, db)) (hlong : 0x1000000 ≤ h) :
    dispatchLoop g id (fuel + 1) c =
      some ({ c with buffer := databufferInit }, [.socketClose id, .error .tooLong]) := by
  rw [dispatchLoop, hread, Option.bind_some]
  simp only [databufferClear]
  rw [if_neg (by omega), if_pos (by omega), if_pos hlong]

theorem dispatchLoop_forward (hread : databufferReadheader c.buffer g.header_size = some (h, db)) (hpos : 0 < h)
    (hsmall : h < 0x1000000) {c' : Connection} {outputs : List Output}
    (hforward : forward g { c with buffer := db } h = some (c', outputs)) :
    dispatchLoop g id (fuel + 1) c =
      (dispatchLoop g id fuel { c' with buffer := databufferReset c'.buffer }).map fun l => (l.1, outputs ++ l.2) := by
  rw [dispatchLoop, hread, Option.bind_some]
  simp only [hforward]
  rw [if_neg (by omega), if_pos hpos, if_neg (by omega)]
  rfl

end Turns

/-! ### dispatch_message -/

/-- What the loop does with the bytes that are left. -/
def Dispatched (g : Gate) (c : Connection) (id : Nat) (left : Bytes)
    (result : Option (Connection × List Output)) : Prop :=
  ∃ db, result = some ({ c with buffer := db },
      delivered (receiver g.toSettings c.id c.agent c.client)
        (parse g.header_size (receiver g.toSettings c.id c.agent c.client).isSome left).1 ++
        (parse g.header_size (receiver g.toSettings c.id c.agent c.client).isSome left).2.outputs id) ∧
    Rep g.header_size db (parse g.header_size (receiver g.toSettings c.id c.agent c.client).isSome left).2.left

theorem Dispatched.waiting {g : Gate} {c : Connection} {id : Nat}
    (hparse : parse g.header_size (receiver g.toSettings c.id c.agent c.client).isSome left = ([], .waiting left))
    (hrep : Rep g.header_size db left) : Dispatched g c id left (some ({ c with buffer := db }, [])) := by
  refine ⟨db, ?_, ?_⟩
  · rw [hparse, delivered_nil]
    rfl
  · rw [hparse]
    exact hrep

theorem dispatchLoop_spec {g : Gate} {id fuel : Nat} {c : Connection} (hhs : g.header_size ≤ 4)
    (hrep : Rep g.header_size c.buffer left) (hfuel : left.length < fuel) :
    Dispatched g c id left (dispatchLoop g id fuel c) := by
  induction fuel generalizing c left with
  | zero => omega
  | succ fuel ih =>
    have hpos := hrep.positive
    have hsmall := hrep.small
    by_cases hle : g.header_size ≤ left.length
    · obtain ⟨db, hread, hholds, hheader⟩ := hrep.readheader hle
      have hbody : (left.drop g.header_size).length = left.length - g.header_size := List.length_drop
      have hpending : db.header ≠ 0 → Rep g.header_size db left := fun hne =>
        ⟨hpos, hsmall, fun h0 => absurd h0 hne, fun _ => ⟨hle, hheader, hholds⟩⟩
      obtain ⟨n, hn⟩ : ∃ n, Endian.ofBe (left.take g.header_size) = n := ⟨_, rfl⟩
      by_cases hbig : 2 ^ 31 ≤ n
      · -- the length is no `int`
        have hneg := headerOf_neg (by rw [List.length_take]; omega) (hn ▸ hbig)
        rw [if_neg (by omega)] at hread
        rw [dispatchLoop_neg hread hneg]
        exact .waiting (parse_wait ⟨hpos, hle⟩ hn (by omega) (.inl hbig)) (hpending (by omega))
      · rw [headerOf_of_lt (by omega), hn] at hread hheader
        by_cases hshort : (left.drop g.header_size).length < n
        · rw [if_pos (by omega)] at hread
          rw [dispatchLoop_neg hread (by decide)]
          exact .waiting (parse_wait ⟨hpos, hle⟩ hn (by omega) (.inr hshort)) (hpending (by omega))
        · rw [if_neg (by omega)] at hread
          by_cases hzero : n = 0
          · rw [hzero] at hread hheader hn
            rw [dispatchLoop_zero hread]
            have := ih (c := { c with buffer := db }) (rep_fresh hpos (by omega) hholds hheader) (by omega)
            rwa [Dispatched, ← parse_empty ⟨hpos, hle⟩ hn] at this
          · by_cases hlong : 0x1000000 ≤ n
            · rw [dispatchLoop_long hread (by omega), Dispatched, parse_long ⟨hpos, hle⟩ hn hlong (by omega),
                delivered_nil]
              exact ⟨databufferInit, rfl, rep_fresh hpos (Nat.two_pow_pos 31) holds_init rfl⟩
            · have hforward := forward_eq g { c with buffer := db } n
              rw [Dispatched]
              cases hreceiver : receiver g.toSettings c.id c.agent c.client with
              | none =>
                rw [hreceiver] at hforward
                obtain ⟨db', hloop, hrep'⟩ := ih (c := { c with buffer := databufferReset db })
                  (rep_fresh hpos (by omega) hholds.reset rfl) (by omega)
                rw [hreceiver] at hloop hrep'
                rw [dispatchLoop_forward hread (by omega) (by omega) hforward, hloop, Option.isSome_none,
                  parse_unreceived ⟨hpos, hle⟩ hn (by omega) (by omega) (by omega)]
                exact ⟨db', rfl, hrep'⟩
              | some f =>
                obtain ⟨db', hbytes, hholds', -⟩ := holds_read hholds (by omega) (n := n) (by omega) (by omega)
                rw [hreceiver, hbytes] at hforward
                obtain ⟨db'', hloop, hrep'⟩ := ih (c := { c with buffer := databufferReset db' })
                  (rep_fresh hpos (by rw [List.length_drop]; omega) hholds'.reset rfl) (by rw [List.length_drop]; omega)
                rw [hreceiver] at hloop hrep'
                rw [dispatchLoop_forward hread (by omega) (by omega) hforward, hloop, Option.isSome_some,
                  parse_package ⟨hpos, hle⟩ hn (by omega) (by omega) (by omega)]
                exact ⟨db'', rfl, hrep'⟩
    · have hno : ¬ (0 < g.header_size ∧ g.header_size ≤ left.length) := fun h => hle h.2
      rw [dispatchLoop_neg (hrep.readheader_short (by omega)) (by decide)]
      exact .waiting (parse_short hno) hrep

/-- What is forwarded are the packages of the bytes that are left and the new ones. -/
theorem dispatchMessage_spec {g : Gate} {c : Connection} (hhs : g.header_size ≤ 4)
    (hrep : Rep g.header_size c.buffer left)
    {data : Bytes} (hdata : data ≠ []) (hs : left.length + data.length < 2 ^ 31) (id : Nat) :
    Dispatched g c id (left ++ data) (dispatchMessage g c id data) := by
  have hpush := rep_push hrep hdata hs
  have hfuel : (left ++ data).length < (databufferPush c.buffer data).size.toNat + g.header_size + 1 := by
    by_cases hheader : (databufferPush c.buffer data).header = 0
    · rw [(hpush.fresh hheader).size, Int.toNat_natCast]
      omega
    · obtain ⟨hle, -, hholds⟩ := hpush.pending hheader
      rw [hholds.size, Int.toNat_natCast, List.length_drop]
      omega
  exact dispatchLoop_spec (c := { c with buffer := databufferPush c.buffer data }) hhs hpush hfuel

/-! ### The packages of a stream that comes in parts -/

/-- `r` is what comes of `t` behind a stream of which `q` has come. -/
def Continues (header_size : Nat) (received : Bool) (t : Bytes) (q r : List Bytes × Ending) : Prop :=
  match q.2 with
  | .waiting left =>
    r = (q.1 ++ (parse header_size received (left ++ t)).1, (parse header_size received (left ++ t)).2)
  | .closed => r = q

theorem Continues.waiting {received : Bool} {t : Bytes} {ps : List Bytes} {r : List Bytes × Ending}
    (h : Continues header_size received t (ps, .waiting left) r) :
    r = (ps ++ (parse header_size received (left ++ t)).1, (parse header_size received (left ++ t)).2) := h

theorem Continues.closed {received : Bool} {t : Bytes} {ps : List Bytes} {r : List Bytes × Ending}
    (h : Continues header_size received t (ps, .closed) r) : r = (ps, .closed) := h

theorem Continues.cons {received : Bool} {t : Bytes} {q r : List Bytes × Ending}
    (h : Continues header_size received t q r)
    (package : Bytes) : Continues header_size received t (package :: q.1, q.2) (package :: r.1, r.2) := by
  obtain ⟨qs, ending⟩ := q
  cases ending with
  | waiting left =>
    obtain rfl := h
    rfl
  | closed =>
    obtain rfl := h
    rfl

theorem parse_append (received : Bool) (s t : Bytes) :
    Continues header_size received t (parse header_size received s) (parse header_size received (s ++ t)) := by
  induction hs : s.length using Nat.strong_induction_on generalizing s with
  | _ k ih =>
    have hwaiting : parse header_size received s = ([], .waiting s) →
        Continues header_size received t (parse header_size received s) (parse header_size received (s ++ t)) := by
      intro h
      rw [h]
      rfl
    by_cases hle : 0 < header_size ∧ header_size ≤ s.length
    · have hle' : 0 < header_size ∧ header_size ≤ (s ++ t).length := ⟨hle.1, by rw [List.length_append]; omega⟩
      have hbody : (s.drop header_size).length = s.length - header_size := List.length_drop
      have hdrop : (s ++ t).drop header_size = s.drop header_size ++ t := List.drop_append_of_le_length hle.2
      obtain ⟨n, hn⟩ : ∃ n, Endian.ofBe (s.take header_size) = n := ⟨_, rfl⟩
      have hn' : Endian.ofBe ((s ++ t).take header_size) = n := by rw [List.take_append_of_le_length hle.2, hn]
      by_cases hzero : n = 0
      · rw [hzero] at hn hn'
        rw [parse_empty hle hn, parse_empty hle' hn', hdrop]
        exact ih _ (by omega) _ rfl
      · by_cases hwait : 2 ^ 31 ≤ n ∨ (s.drop header_size).length < n
        · exact hwaiting (parse_wait hle hn (by omega) hwait)
        · have hn_le : n ≤ ((s ++ t).drop header_size).length := by rw [hdrop, List.length_append]; omega
          by_cases hlong : 0x1000000 ≤ n
          · rw [parse_long hle hn hlong hwait, parse_long hle' hn' hlong (by omega)]
            rfl
          · cases received with
            | false =>
              rw [parse_unreceived hle hn (by omega) (by omega) (by omega),
                parse_unreceived hle' hn' (by omega) hn_le (by omega), hdrop]
              exact ih _ (by omega) _ rfl
            | true =>
              rw [parse_package hle hn (by omega) (by omega) (by omega),
                parse_package hle' hn' (by omega) hn_le (by omega), hdrop, List.drop_append_of_le_length (by omega),
                List.take_append_of_le_length (by omega)]
              exact (ih _ (by rw [List.length_drop]; omega) _ rfl).cons _
    · exact hwaiting (parse_short hle)

/-- Nothing more comes of what is left. -/
theorem parse_left {received : Bool} {s : Bytes} {ps : List Bytes}
    (h : parse header_size received s = (ps, .waiting left)) :
    parse header_size received left = ([], .waiting left) := by
  have happend := @parse_append header_size received s []
  rw [List.append_nil, h] at happend
  have heq := happend.waiting
  rw [List.append_nil] at heq
  obtain ⟨hps, hending⟩ := Prod.mk.inj heq
  exact Prod.ext (List.append_cancel_left (hps.symm.trans (List.append_nil ps).symm)) hending.symm

/-- A package with its header in front. -/
def frame (header_size : Nat) (package : Bytes) : Bytes := Endian.be header_size package.length ++ package

/-- A package that a header can announce and the gate takes. -/
def Fits (header_size : Nat) (package : Bytes) : Prop :=
  package ≠ [] ∧ package.length < 0x1000000 ∧ package.length < 256 ^ header_size

theorem parse_frames (hpos : 0 < header_size) {packages : List Bytes} (h : ∀ s ∈ packages, Fits header_size s) :
    parse header_size true (packages.flatMap (frame header_size)) = (packages, .waiting []) := by
  induction packages with
  | nil => exact parse_short (by rw [List.flatMap_nil, List.length_nil]; omega)
  | cons s packages ih =>
    obtain ⟨hne, hsmall, hfits⟩ := h s (List.mem_cons_self ..)
    have hlen : (Endian.be header_size s.length).length = header_size := Endian.be_length ..
    obtain ⟨rest, hrest⟩ : ∃ rest, packages.flatMap (frame header_size) = rest := ⟨_, rfl⟩
    have hcat : (s :: packages).flatMap (frame header_size) = Endian.be header_size s.length ++ (s ++ rest) := by
      rw [List.flatMap_cons, frame, hrest, List.append_assoc]
    have hdrop : (Endian.be header_size s.length ++ (s ++ rest)).drop header_size = s ++ rest := List.drop_left' hlen
    have hn : Endian.ofBe ((Endian.be header_size s.length ++ (s ++ rest)).take header_size) = s.length := by
      rw [List.take_left' hlen, Endian.ofBe_be, Nat.mod_eq_of_lt hfits]
    rw [hcat, parse_package ⟨hpos, by rw [List.length_append]; omega⟩ hn (List.length_pos_iff.mpr hne)
      (by rw [hdrop, List.length_append]; omega) hsmall, hdrop, List.take_left, List.drop_left, ← hrest,
      ih fun s hs => h s (List.mem_cons_of_mem _ hs)]

end ServiceGate
end Skynet
