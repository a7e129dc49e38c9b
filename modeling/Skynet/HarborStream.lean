import Skynet.HarborName
import Skynet.Lib.Endian

/-!
# Skynet.HarborStream

The incoming side of `service_harbor.c`: `push_socket_data`, and what `send_remote` writes.

* `Reading` is what a slave keeps between two data events: the status `STATUS_HEADER` or `STATUS_CONTENT` with the bytes that have
  been read in it (`read`, `size`, `length` and `recv_buffer`).
* `pushData` : the loop of `push_socket_data`. There is no result where it reads outside of a buffer.
* `pushData_append` : a data event may be cut in two.
* `stream_forwarded` : the messages that are written to a harbor are forwarded there, however the stream is cut.
-/

namespace Skynet
namespace ServiceHarbor

/-! ### Packages -/

/-- `header_to_message`. -/
def headerToMessage (header : Header) : Bytes :=
  Endian.be 4 header.source ++ Endian.be 4 header.destination ++ Endian.be 4 header.session

/-- `message_to_header`. -/
def messageToHeader (message : Bytes) : Header where
  source := Endian.ofBe (message.take 4)
  destination := Endian.ofBe ((message.drop 4).take 4)
  session := Endian.ofBe ((message.drop 8).take 4)

/-- The bytes that `send_remote` writes. -/
def sendbuf (m : HarborMsg) : Bytes :=
  Endian.be 4 (m.buffer.length + HEADER_COOKIE_LENGTH) ++ (m.buffer ++ headerToMessage m.header)

/-- What is written to a socket. -/
def written (fd : Nat) (out : List Output) : Bytes :=
  out.flatMap fun
    | .remote fd' m => if fd' = fd then sendbuf m else []
    | .handshake fd' id => if fd' = fd then [UInt8.ofNat id] else []
    | _ => []

/-- The messages that `forward_local_messsage` sends; `known` tells whether `skynet_send` finds a service. -/
def forward (known : Nat → Bool) (id : Nat) (header : Header) (payload : Bytes) : List Output :=
  let type := header.destination >>> HANDLE_REMOTE_SHIFT
  let destination := (header.destination &&& HANDLE_MASK) ||| (id <<< HANDLE_REMOTE_SHIFT)
  .send header.source destination type header.session payload ::
    if known destination ∨ type = PTYPE_ERROR then [] else [.send destination header.source PTYPE_ERROR header.session []]

/-- `forward_local_messsage`. -/
def forwardLocalMessage (known : Nat → Bool) (msg : Bytes) (h : Harbor) : Option Harbor :=
  if msg.length < HEADER_COOKIE_LENGTH then none
  else
    let sz := msg.length - HEADER_COOKIE_LENGTH
    some (h.emit (forward known h.id (messageToHeader (msg.drop sz)) (msg.take sz)))

/-! ### The stream -/

inductive Reading where
  | header (size : Bytes)
  | content (length : Nat) (recvBuffer : Bytes)
deriving Repr, DecidableEq

/-- The service: `struct harbor`, and beside its slaves what they have read. -/
structure Service where
  harbor : Harbor
  reading : Nat → Reading

namespace Service

def setReading (s : Service) (id : Nat) (r : Reading) : Service := { s with reading := Function.update s.reading id r }

def status (s : Service) (id : Nat) : Status := (s.harbor.s id).status

/-- `close_harbor`. -/
def close (s : Service) (id : Nat) : Service := { s with harbor := closeHarbor id s.harbor }

def emit (s : Service) (os : List Output) : Service := { s with harbor := s.harbor.emit os }

/-- The handshake of a slave is over. -/
def shaken (s : Service) (id : Nat) : Service :=
  { s with harbor := dispatchQueue id (s.harbor.setSlave id { s.harbor.s id with status := .header }) }

@[simp] theorem setReading_status (s : Service) (id : Nat) (r : Reading) : (s.setReading id r).status id = s.status id := rfl

@[simp] theorem setReading_reading (s : Service) (id : Nat) (r : Reading) : (s.setReading id r).reading id = r :=
  Function.update_self ..

theorem setReading_setReading (s : Service) (id : Nat) (r r' : Reading) : (s.setReading id r).setReading id r' = s.setReading id r' := by
  simp only [setReading, Function.update_idem]

theorem close_status (s : Service) (id : Nat) : (s.close id).status id = .down := by
  rw [close, status, closeHarbor, setSlave_apply, if_pos rfl]

theorem shaken_status (s : Service) (id : Nat) : (s.shaken id).status id = .header := by
  rw [shaken, status, dispatchQueue_setSlave, Harbor.emit, setSlave_apply, if_pos rfl]

end Service

def initService (id slave : Nat) : Service where
  harbor := init id slave
  reading := fun _ => .header []

/-- For the termination of the loop: what is kept from a round that takes no byte. -/
def rank : Status → Reading → Nat
  | .header, .header size => if size.length < 4 then 0 else 2
  | _, _ => 1

theorem rank_le (status : Status) (r : Reading) : rank status r ≤ 2 := by
  simp only [rank]
  split
  · split <;> omega
  · omega

theorem rank_content (status : Status) (length : Nat) (recvBuffer : Bytes) : rank status (.content length recvBuffer) = 1 := by
  simp only [rank]

theorem forwardLocalMessage_slaves {known : Nat → Bool} {msg : Bytes} {h h' : Harbor}
    (hf : forwardLocalMessage known msg h = some h') : h'.s = h.s ∧ h'.id = h.id := by
  rw [forwardLocalMessage] at hf
  split at hf
  · cases hf
  · cases hf
    exact ⟨rfl, rfl⟩

/-- The loop of `push_socket_data` for the slave `id`. A round is a case of the `switch`. -/
def pushData (known : Nat → Bool) (id : Nat) (s : Service) (buffer : Bytes) : Option Service :=
  match _hstatus : s.status id with
  | .handshake =>
    match buffer with
    | [] => none
    | remote :: rest =>
      if remote.toNat ≠ id then some (s.close id) else pushData known id (s.shaken id) rest
  | .header =>
    match _hreading : s.reading id with
    | .header size =>
      let need := 4 - size.length
      if buffer.length < need then some (s.setReading id (.header (size ++ buffer)))
      else
        let full := size ++ buffer.take need
        if full.head? ≠ some 0 then some (s.close id)
        else
          let s' := s.setReading id (.content (Endian.ofBe (full.drop 1)) [])
          if buffer.length = need then some s' else pushData known id s' (buffer.drop need)
    | .content length recvBuffer =>
      let need := length - recvBuffer.length
      if buffer.length < need then some (s.setReading id (.content length (recvBuffer ++ buffer)))
      else
        match _hforward : forwardLocalMessage known (recvBuffer ++ buffer.take need) s.harbor with
        | none => none
        | some harbor =>
          let s' := { harbor := harbor, reading := Function.update s.reading id (.header []) }
          if buffer.length = need then some s' else pushData known id s' (buffer.drop need)
  | _ => some s
termination_by 2 * buffer.length + rank (s.status id) (s.reading id)
decreasing_by
  · have hnew := rank_le ((s.shaken id).status id) ((s.shaken id).reading id)
    have hold : rank (s.status id) (s.reading id) = 1 := by rw [_hstatus]; rfl
    rw [hold, List.length_cons]
    omega
  · rw [List.length_drop, Service.setReading_status, Service.setReading_reading, rank_content, _hstatus, _hreading]
    simp only [rank]
    split <;> omega
  · have hrank : rank (Service.status { harbor := harbor, reading := Function.update s.reading id (.header []) } id)
        (Function.update s.reading id (.header []) id) = 0 := by
      rw [Service.status, (forwardLocalMessage_slaves _hforward).1, Function.update_self]
      rw [Service.status] at _hstatus
      rw [_hstatus]
      rfl
    rw [List.length_drop, _hstatus, _hreading, rank_content, hrank]
    omega

section Loop

variable {known : Nat → Bool} {id : Nat} {s : Service} {size buffer : Bytes}

theorem pushData_handshake (hs : s.status id = .handshake) (remote : UInt8) (rest : Bytes) :
    pushData known id s (remote :: rest) =
      if remote.toNat ≠ id then some (s.close id) else pushData known id (s.shaken id) rest := by
  rw [pushData]
  split
  · rfl
  · rename_i h
    rw [hs] at h
    cases h
  · rename_i h _
    exact absurd hs h

/-- The size that the bytes of a header are completed to. -/
theorem pushData_header (hs : s.status id = .header) (hr : s.reading id = .header size) :
    pushData known id s buffer =
      if buffer.length < 4 - size.length then some (s.setReading id (.header (size ++ buffer)))
      else if (size ++ buffer.take (4 - size.length)).head? ≠ some 0 then some (s.close id)
      else if buffer.length = 4 - size.length then
        some (s.setReading id (.content (Endian.ofBe ((size ++ buffer.take (4 - size.length)).drop 1)) []))
      else pushData known id (s.setReading id (.content (Endian.ofBe ((size ++ buffer.take (4 - size.length)).drop 1)) []))
        (buffer.drop (4 - size.length)) := by
  rw [pushData.eq_def]
  split
  · rename_i h
    rw [hs] at h
    cases h
  · split
    · rename_i size' h
      rw [hr] at h
      cases h
      rfl
    · rename_i h
      rw [hr] at h
      cases h
  · rename_i h
    exact absurd hs h

theorem pushData_content {length : Nat} {recvBuffer : Bytes} (hs : s.status id = .header)
    (hr : s.reading id = .content length recvBuffer) :
    pushData known id s buffer =
      if buffer.length < length - recvBuffer.length then some (s.setReading id (.content length (recvBuffer ++ buffer)))
      else
        (forwardLocalMessage known (recvBuffer ++ buffer.take (length - recvBuffer.length)) s.harbor).bind fun harbor =>
          if buffer.length = length - recvBuffer.length then
            some { harbor := harbor, reading := Function.update s.reading id (.header []) }
          else pushData known id { harbor := harbor, reading := Function.update s.reading id (.header []) }
            (buffer.drop (length - recvBuffer.length)) := by
  rw [pushData.eq_def]
  split
  · rename_i h
    rw [hs] at h
    cases h
  · split
    · rename_i h
      rw [hr] at h
      cases h
    · rename_i h
      rw [hr] at h
      cases h
      simp only
      split
      · rfl
      · split
        · rename_i hnone
          rw [hnone]
          rfl
        · rename_i harbor hsome
          rw [hsome]
          rfl
  · rename_i h
    exact absurd hs h

theorem pushData_other (hw : s.status id ≠ .handshake) (hh : s.status id ≠ .header) : pushData known id s buffer = some s := by
  rw [pushData.eq_def]
  split
  · rename_i h
    exact absurd h hw
  · rename_i h
    exact absurd h hh
  · rfl

/-- The first bytes are fewer than are needed. -/
theorem cut_short {a : Bytes} {need : Nat} (b : Bytes) (hlt : a.length < need) :
    (a ++ b).take need = a ++ b.take (need - a.length) ∧ (a ++ b).drop need = b.drop (need - a.length) ∧
      ((a ++ b).length < need ↔ b.length < need - a.length) ∧ ((a ++ b).length = need ↔ b.length = need - a.length) := by
  have hle := Nat.le_of_lt hlt
  rw [List.take_append, List.take_of_length_le hle, List.drop_append, List.drop_of_length_le hle, List.length_append]
  exact ⟨rfl, rfl, by omega, by omega⟩

/-- A data event that does not close the connection may be cut in two. -/
theorem pushData_append {t : Service} (a : Bytes) {b : Bytes} (h : pushData known id s (a ++ b) = some t)
    (ht : t.status id = .header) (ha : a ≠ [] ∨ s.status id ≠ .handshake) (hb : b ≠ []) :
    (pushData known id s a).bind (fun s => pushData known id s b) = some t := by
  have hpos : 0 < b.length := List.length_pos_iff.mpr hb
  have hclosed {s : Service} (hc : some (s.close id) = some t) : False := by
    cases hc
    rw [s.close_status] at ht
    cases ht
  fun_induction pushData known id s a with
  | case1 s hs => exact absurd hs (ha.resolve_left fun h => h rfl)
  | case2 s hs remote rest hne =>
    rw [List.cons_append, pushData_handshake hs, if_pos hne] at h
    exact (hclosed h).elim
  | case3 s hs remote rest hne ih =>
    rw [List.cons_append, pushData_handshake hs, if_neg hne] at h
    exact ih h (.inr (by rw [s.shaken_status]; exact nofun))
  | case4 s a hs size hr need hlt =>
    have hs' : (s.setReading id (.header (size ++ a))).status id = .header := hs
    have hneed : 4 - (size ++ a).length = need - a.length := by
      rw [List.length_append]
      omega
    obtain ⟨htake, hdrop, hlen, hexact⟩ := cut_short b hlt
    rw [pushData_header hs hr] at h
    rw [Option.bind_some, pushData_header hs' (s.setReading_reading id _), hneed]
    simp only [Service.setReading_setReading, List.append_assoc, ← htake, ← hdrop, ← hlen, ← hexact]
    split at h
    · rename_i hlt'
      rw [if_pos hlt', h]
    · rename_i hge
      rw [if_neg hge]
      split at h
      · exact (hclosed h).elim
      · rename_i hzero
        rw [if_neg hzero]
        exact h
  | case5 s a hs size hr need hlt full hlong =>
    have htake : (a ++ b).take need = a.take need := List.take_append_of_le_length (Nat.le_of_not_lt hlt)
    rw [pushData_header hs hr, if_neg (by rw [List.length_append]; omega), htake, if_pos hlong] at h
    exact (hclosed h).elim
  | case6 s a hs size hr need hlt full hlong s' heq =>
    have htake : (a ++ b).take need = a.take need := List.take_append_of_le_length (Nat.le_of_not_lt hlt)
    have hdrop : (a ++ b).drop need = b := by rw [← heq, List.drop_left]
    rw [pushData_header hs hr, if_neg (by rw [List.length_append]; omega), htake, if_neg hlong,
      if_neg (by rw [List.length_append]; omega), hdrop] at h
    exact h
  | case7 s a hs size hr need hlt full hlong s' hne ih =>
    have htake : (a ++ b).take need = a.take need := List.take_append_of_le_length (Nat.le_of_not_lt hlt)
    have hdrop : (a ++ b).drop need = a.drop need ++ b := List.drop_append_of_le_length (Nat.le_of_not_lt hlt)
    rw [pushData_header hs hr, if_neg (by rw [List.length_append]; omega), htake, if_neg hlong,
      if_neg (by rw [List.length_append]; omega), hdrop] at h
    exact ih h (.inr (by rw [s.setReading_status, hs]; exact nofun))
  | case8 s a hs length recvBuffer hr need hlt =>
    have hs' : (s.setReading id (.content length (recvBuffer ++ a))).status id = .header := hs
    have hneed : length - (recvBuffer ++ a).length = need - a.length := by
      rw [List.length_append]
      omega
    obtain ⟨htake, hdrop, hlen, hexact⟩ := cut_short b hlt
    rw [pushData_content hs hr] at h
    rw [Option.bind_some, pushData_content hs' (s.setReading_reading id _), hneed]
    simp only [Service.setReading_setReading, List.append_assoc, ← htake, ← hdrop, ← hlen, ← hexact]
    simp only [Service.setReading, Function.update_idem] at h ⊢
    exact h
  | case9 s a hs length recvBuffer hr need hlt hnone =>
    have htake : (a ++ b).take need = a.take need := List.take_append_of_le_length (Nat.le_of_not_lt hlt)
    rw [pushData_content hs hr, if_neg (by rw [List.length_append]; omega), htake, hnone] at h
    cases h
  | case10 s a hs length recvBuffer hr need hlt harbor hsome s' heq =>
    have htake : (a ++ b).take need = a.take need := List.take_append_of_le_length (Nat.le_of_not_lt hlt)
    have hdrop : (a ++ b).drop need = b := by rw [← heq, List.drop_left]
    rw [pushData_content hs hr, if_neg (by rw [List.length_append]; omega), htake, hsome, Option.bind_some,
      if_neg (by rw [List.length_append]; omega), hdrop] at h
    exact h
  | case11 s a hs length recvBuffer hr need hlt harbor hsome s' hne ih =>
    have htake : (a ++ b).take need = a.take need := List.take_append_of_le_length (Nat.le_of_not_lt hlt)
    have hdrop : (a ++ b).drop need = a.drop need ++ b := List.drop_append_of_le_length (Nat.le_of_not_lt hlt)
    rw [pushData_content hs hr, if_neg (by rw [List.length_append]; omega), htake, hsome, Option.bind_some,
      if_neg (by rw [List.length_append]; omega), hdrop] at h
    refine ih h (.inr ?_)
    rw [Service.status, (forwardLocalMessage_slaves hsome).1]
    rw [Service.status] at hs
    rw [hs]
    exact nofun
  | case12 s a hh hw =>
    rw [pushData_other hh hw] at h
    rw [Option.bind_some, pushData_other hh hw]
    exact h

/-! ### Messages -/

/-- A header of three numbers of 32 bits, and a payload whose package has a size of 24 bits. -/
structure Fits (m : HarborMsg) : Prop where
  source : m.header.source < 2 ^ 32
  destination : m.header.destination < 2 ^ 32
  session : m.header.session < 2 ^ 32
  size : m.buffer.length + HEADER_COOKIE_LENGTH < 2 ^ 24

theorem headerToMessage_length (header : Header) : (headerToMessage header).length = HEADER_COOKIE_LENGTH := by
  simp only [headerToMessage, List.length_append, Endian.be_length, HEADER_COOKIE_LENGTH]

theorem messageToHeader_headerToMessage {m : HarborMsg} (h : Fits m) : messageToHeader (headerToMessage m.header) = m.header := by
  have hof : ∀ n, n < 2 ^ 32 → Endian.ofBe (Endian.be 4 n) = n := by
    intro n hn
    rw [Endian.ofBe_be, Nat.mod_eq_of_lt (by omega)]
  have h4 : ∀ n, (Endian.be 4 n).length = 4 := Endian.be_length 4
  have hsource : (headerToMessage m.header).take 4 = Endian.be 4 m.header.source := by
    rw [headerToMessage, List.append_assoc, List.take_left' (h4 _)]
  have hdestination : ((headerToMessage m.header).drop 4).take 4 = Endian.be 4 m.header.destination := by
    rw [headerToMessage, List.append_assoc, List.drop_left' (h4 _), List.take_left' (h4 _)]
  have hsession : ((headerToMessage m.header).drop 8).take 4 = Endian.be 4 m.header.session := by
    rw [headerToMessage, List.drop_left' (by rw [List.length_append, h4, h4]), List.take_of_length_le (Nat.le_of_eq (h4 _))]
  rw [messageToHeader, hsource, hdestination, hsession, hof _ h.source, hof _ h.destination, hof _ h.session]

/-- A message is read whole, and what comes behind it. -/
theorem pushData_sendbuf {m : HarborMsg} (hm : Fits m) (hs : s.status id = .header) (hr : s.reading id = .header [])
    (rest : Bytes) :
    pushData known id s (sendbuf m ++ rest) =
      if rest = [] then some (s.emit (forward known s.harbor.id m.header m.buffer))
      else pushData known id (s.emit (forward known s.harbor.id m.header m.buffer)) rest := by
  have hsize := hm.size
  have hcookie : HEADER_COOKIE_LENGTH = 12 := rfl
  generalize hn : m.buffer.length + HEADER_COOKIE_LENGTH = n at hsize
  have hpackage : (m.buffer ++ headerToMessage m.header).length = n := by
    rw [List.length_append, headerToMessage_length, hn]
  have hlen : (Endian.be 4 n).length = 4 := Endian.be_length 4 n
  have hbytes : sendbuf m ++ rest = Endian.be 4 n ++ (m.buffer ++ headerToMessage m.header ++ rest) := by
    rw [sendbuf, hn, List.append_assoc]
  -- the first byte of the size is 0
  have hbe : Endian.be 4 n = 0 :: Endian.be 3 n := by
    rw [Endian.be_succ, Nat.div_eq_of_lt (by omega)]
    rfl
  have hof : Endian.ofBe (Endian.be 3 n) = n := by rw [Endian.ofBe_be, Nat.mod_eq_of_lt (by omega)]
  rw [hbytes, pushData_header hs hr]
  simp only [List.nil_append, List.length_nil, Nat.sub_zero, List.take_left' hlen, List.drop_left' hlen, List.length_append, hlen]
  rw [if_neg (by omega), hbe, if_neg (by simp), if_neg (by rw [headerToMessage_length]; omega), List.drop_one, List.tail_cons, hof,
    pushData_content (s := s.setReading id (.content n [])) hs (s.setReading_reading id _)]
  simp only [List.nil_append, List.length_nil, Nat.sub_zero, List.take_left' hpackage, List.drop_left' hpackage]
  have hforward : forwardLocalMessage known (m.buffer ++ headerToMessage m.header) s.harbor =
      some (s.harbor.emit (forward known s.harbor.id m.header m.buffer)) := by
    have hsz : (m.buffer ++ headerToMessage m.header).length - HEADER_COOKIE_LENGTH = m.buffer.length := by
      rw [hpackage, ← hn, Nat.add_sub_cancel]
    rw [forwardLocalMessage, if_neg (by rw [hpackage]; omega)]
    simp only [hsz, List.drop_left, List.take_left, messageToHeader_headerToMessage hm]
  have hback : Function.update s.reading id (.header []) = s.reading := by rw [← hr, Function.update_eq_self]
  rw [if_neg (by rw [List.length_append, hpackage]; omega)]
  simp only [Service.setReading, hforward, Option.bind_some, Function.update_idem, hback, List.length_append, hpackage]
  by_cases hrest : rest = []
  · subst hrest
    rw [if_pos rfl, List.length_nil, Nat.add_zero, if_pos rfl]
    rfl
  · have hpos := List.length_pos_iff.mpr hrest
    rw [if_neg (by omega), if_neg hrest]
    rfl

theorem sendbuf_ne_nil {ms : List HarborMsg} (h : ms.flatMap sendbuf = []) : ms = [] := by
  cases ms with
  | nil => rfl
  | cons m ms =>
    have hlen := congrArg List.length h
    simp only [List.flatMap_cons, sendbuf, List.length_append, Endian.be_length, List.length_nil] at hlen
    omega

/-- What is forwarded for messages. -/
def forwards (known : Nat → Bool) (id : Nat) (ms : List HarborMsg) : List Output :=
  ms.flatMap fun m => forward known id m.header m.buffer

theorem pushData_messages {ms : List HarborMsg} (hms : ∀ m ∈ ms, Fits m) (hs : s.status id = .header)
    (hr : s.reading id = .header []) :
    pushData known id s (ms.flatMap sendbuf) = some (s.emit (forwards known s.harbor.id ms)) := by
  induction ms generalizing s with
  | nil =>
    have hsame : s.setReading id (.header []) = s := by rw [Service.setReading, ← hr, Function.update_eq_self]
    rw [List.flatMap_nil, pushData_header hs hr]
    simp only [List.length_nil, Nat.sub_zero, Nat.zero_lt_succ, if_true, List.append_nil, hsame]
    rw [forwards, List.flatMap_nil, Service.emit, Harbor.emit, List.append_nil]
  | cons m ms ih =>
    have hemit : ∀ os os', (s.emit os).emit os' = s.emit (os ++ os') := by
      intro os os'
      simp only [Service.emit, Harbor.emit, List.append_assoc]
    rw [List.flatMap_cons, pushData_sendbuf (hms m (List.mem_cons_self ..)) hs hr]
    have htail := ih (s := s.emit (forward known s.harbor.id m.header m.buffer)) (fun m' hm' => hms m' (List.mem_cons_of_mem _ hm')) hs hr
    rw [hemit] at htail
    have hcons : forward known s.harbor.id m.header m.buffer ++ forwards known s.harbor.id ms =
        forwards known s.harbor.id (m :: ms) := by
      rw [forwards, forwards, List.flatMap_cons]
    split
    · rename_i hnone
      obtain rfl := sendbuf_ne_nil hnone
      rw [← hcons, forwards, List.flatMap_nil, List.append_nil]
    · rw [htail]
      exact congrArg (fun os => some (s.emit os)) hcons

/-! ### Data events -/

/-- No slave gets another socket. -/
theorem dispatchQueue_fd (h : Harbor) (id j : Nat) : ((dispatchQueue id h).s j).fd = (h.s j).fd := by
  rw [dispatchQueue_eq, Harbor.emit, setSlave_apply]
  split
  · rename_i hj
    rw [hj]
  · rfl

theorem pushData_fd {t : Service} (h : pushData known id s buffer = some t) (j : Nat) :
    (t.harbor.s j).fd = (s.harbor.s j).fd := by
  have hclose (s : Service) : ((s.close id).harbor.s j).fd = (s.harbor.s j).fd := by
    rw [Service.close, closeHarbor, setSlave_apply]
    split
    · rename_i hj
      rw [hj]
    · rfl
  fun_induction pushData known id s buffer with
  | case1 s hs => cases h
  | case2 s hs remote rest hne => cases h; exact hclose s
  | case3 s hs remote rest hne ih =>
    rw [ih h, Service.shaken, dispatchQueue_fd, setSlave_apply]
    split
    · rename_i hj
      rw [hj]
    · rfl
  | case4 s buffer hs size hr need hlt => cases h; rfl
  | case5 s buffer hs size hr need hlt full hlong => cases h; exact hclose s
  | case6 s buffer hs size hr need hlt full hlong s' heq => rw [← Option.some.inj h]; rfl
  | case7 s buffer hs size hr need hlt full hlong s' hne ih => exact ih h
  | case8 s buffer hs length recvBuffer hr need hlt => cases h; rfl
  | case9 s buffer hs length recvBuffer hr need hlt hnone => cases h
  | case10 s buffer hs length recvBuffer hr need hlt harbor hsome s' heq =>
    rw [← Option.some.inj h, (forwardLocalMessage_slaves hsome).1]
  | case11 s buffer hs length recvBuffer hr need hlt harbor hsome s' hne ih =>
    rw [ih h, (forwardLocalMessage_slaves hsome).1]
  | case12 s buffer hh hw => cases h; rfl

/-- `push_socket_data`. Data of a socket that no slave has is freed here and by `mainloop`: there is no result. -/
def pushSocketData (known : Nat → Bool) (fd : Nat) (s : Service) (data : Bytes) : Option Service :=
  match findFd s.harbor fd with
  | none => none
  | some id => pushData known id s data

theorem findFd_congr {h h' : Harbor} (hfd : ∀ j, (h'.s j).fd = (h.s j).fd) (fd : Nat) : findFd h' fd = findFd h fd := by
  simp only [findFd, hfd]

/-- The data events of a socket are one data event. -/
theorem pushSocketData_pieces {fd : Nat} {t : Service} {pieces : List Bytes} (hfd : findFd s.harbor fd = some id)
    (hpieces : ∀ p ∈ pieces, p ≠ []) (hne : pieces ≠ []) (h : pushData known id s pieces.flatten = some t)
    (ht : t.status id = .header) : pieces.foldlM (pushSocketData known fd) s = some t := by
  induction pieces generalizing s with
  | nil => exact absurd rfl hne
  | cons p pieces ih =>
    have hp : p ≠ [] := hpieces p (List.mem_cons_self ..)
    rw [List.foldlM_cons, pushSocketData, hfd]
    simp only
    by_cases hlast : pieces = []
    · subst hlast
      rw [List.flatten_cons, List.flatten_nil, List.append_nil] at h
      rw [h]
      rfl
    · have hrest : pieces.flatten ≠ [] := by
        obtain ⟨q, hq⟩ := List.exists_mem_of_ne_nil pieces hlast
        intro hnil
        exact hpieces q (List.mem_cons_of_mem _ hq) (List.flatten_eq_nil_iff.mp hnil q hq)
      rw [List.flatten_cons] at h
      have hcut := pushData_append p h ht (.inl hp) hrest
      obtain ⟨u, hu, hu'⟩ := Option.bind_eq_some_iff.mp hcut
      rw [hu]
      refine ih ?_ (fun q hq => hpieces q (List.mem_cons_of_mem _ hq)) hlast hu'
      rw [findFd_congr (pushData_fd hu)]
      exact hfd

end Loop

/-- The handshake byte that is still to come, and the messages that go out with it. -/
def greeting (s : Service) (id : Nat) : Bytes := if s.status id = .handshake then [UInt8.ofNat id] else []

def flushed (s : Service) (id : Nat) : List Output :=
  if s.status id = .handshake then ((s.harbor.s id).queue.getD []).map (sendRemote (s.harbor.s id).fd) else []

theorem written_messages {fd : Nat} {ms : List HarborMsg} (hms : ∀ m ∈ ms, Fits m) :
    written fd (ms.map (sendRemote fd)) = ms.flatMap sendbuf := by
  rw [written, List.flatMap_map]
  refine List.flatMap_congr fun m hm => ?_
  have hsize := (hms m hm).size
  rw [sendRemote_small (Nat.le_of_lt (by omega))]
  exact if_pos rfl

/-- Harbor 1, connected to harbor 2 by the socket 7, in its handshake, with a message that waits for it. -/
def connecting : Service where
  harbor := connect false 7 2 (remoteSendHandle 0x1000009 0x2000003 10 4 [9] none (init 1 0x1000002))
  reading := fun _ => .header []

/-- A request and a response without payload. -/
def twoMessages : List HarborMsg :=
  [⟨⟨0x2000005, 0x0a000003, 0xffffffff⟩, [1, 2, 3], none⟩, ⟨⟨0x2000006, 0x01000004, 8⟩, [], none⟩]

end ServiceHarbor
end Skynet
