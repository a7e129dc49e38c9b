import Skynet.Lib.Endian
import Skynet.ProtobufBynine

/-!
# Skynet.SocketManager

The packet cipher of `socketManager.lua`. The body of a packet goes through a byte map on its way out
and through the inverse map on its way in; the code byte of the header makes the sum of the code and
of the body a multiple of 256.

`receive` tests `not socketManager.decrypt(packet)`, but `decrypt` returns the sum, and in Lua only
`nil` and `false` are false: 0 is the sum of an intact packet and no number takes the branch. Lua's
bound on the values of one call (1,000,000) is above what the length field of a packet allows.

* `recv_send`, `send_recv` : the maps are inverse to each other.
* `decrypt_encrypt` : the round trip, for every packet that the writers make (`unsent_of_written`).
* `receive_hands` : what `receive` hands over.
* `receive_checked_iff` : the buffers for which the check does what it is there for.
-/

namespace Skynet
namespace SocketManager

open Lua ProtobufBynine

def sendmap : List UInt8 :=
  [0x70, 0x2F, 0x40, 0x5F, 0x44, 0x8E, 0x6E, 0x45, 0x7E, 0xAB, 0x2C, 0x1F, 0xB4, 0xAC, 0x9D, 0x91,
   0x0D, 0x36, 0x9B, 0x0B, 0xD4, 0xC4, 0x39, 0x74, 0xBF, 0x23, 0x16, 0x14, 0x06, 0xEB, 0x04, 0x3E,
   0x12, 0x5C, 0x8B, 0xBC, 0x61, 0x63, 0xF6, 0xA5, 0xE1, 0x65, 0xD8, 0xF5, 0x5A, 0x07, 0xF0, 0x13,
   0xF2, 0x20, 0x6B, 0x4A, 0x24, 0x59, 0x89, 0x64, 0xD7, 0x42, 0x6A, 0x5E, 0x3D, 0x0A, 0x77, 0xE0,
   0x80, 0x27, 0xB8, 0xC5, 0x8C, 0x0E, 0xFA, 0x8A, 0xD5, 0x29, 0x56, 0x57, 0x6C, 0x53, 0x67, 0x41,
   0xE8, 0x00, 0x1A, 0xCE, 0x86, 0x83, 0xB0, 0x22, 0x28, 0x4D, 0x3F, 0x26, 0x46, 0x4F, 0x6F, 0x2B,
   0x72, 0x3A, 0xF1, 0x8D, 0x97, 0x95, 0x49, 0x84, 0xE5, 0xE3, 0x79, 0x8F, 0x51, 0x10, 0xA8, 0x82,
   0xC6, 0xDD, 0xFF, 0xFC, 0xE4, 0xCF, 0xB3, 0x09, 0x5D, 0xEA, 0x9C, 0x34, 0xF9, 0x17, 0x9F, 0xDA,
   0x87, 0xF8, 0x15, 0x05, 0x3C, 0xD3, 0xA4, 0x85, 0x2E, 0xFB, 0xEE, 0x47, 0x3B, 0xEF, 0x37, 0x7F,
   0x93, 0xAF, 0x69, 0x0C, 0x71, 0x31, 0xDE, 0x21, 0x75, 0xA0, 0xAA, 0xBA, 0x7C, 0x38, 0x02, 0xB7,
   0x81, 0x01, 0xFD, 0xE7, 0x1D, 0xCC, 0xCD, 0xBD, 0x1B, 0x7A, 0x2A, 0xAD, 0x66, 0xBE, 0x55, 0x33,
   0x03, 0xDB, 0x88, 0xB2, 0x1E, 0x4E, 0xB9, 0xE6, 0xC2, 0xF7, 0xCB, 0x7D, 0xC9, 0x62, 0xC3, 0xA6,
   0xDC, 0xA7, 0x50, 0xB5, 0x4B, 0x94, 0xC0, 0x92, 0x4C, 0x11, 0x5B, 0x78, 0xD9, 0xB1, 0xED, 0x19,
   0xE9, 0xA1, 0x1C, 0xB6, 0x32, 0x99, 0xA3, 0x76, 0x9E, 0x7B, 0x6D, 0x9A, 0x30, 0xD6, 0xA9, 0x25,
   0xC7, 0xAE, 0x96, 0x35, 0xD0, 0xBB, 0xD2, 0xC8, 0xA2, 0x08, 0xF3, 0xD1, 0x73, 0xF4, 0x48, 0x2D,
   0x90, 0xCA, 0xE2, 0x58, 0xC1, 0x18, 0x52, 0xFE, 0xDF, 0x68, 0x98, 0x54, 0xEC, 0x60, 0x43, 0x0F]

def recvmap : List UInt8 :=
  [0x51, 0xA1, 0x9E, 0xB0, 0x1E, 0x83, 0x1C, 0x2D, 0xE9, 0x77, 0x3D, 0x13, 0x93, 0x10, 0x45, 0xFF,
   0x6D, 0xC9, 0x20, 0x2F, 0x1B, 0x82, 0x1A, 0x7D, 0xF5, 0xCF, 0x52, 0xA8, 0xD2, 0xA4, 0xB4, 0x0B,
   0x31, 0x97, 0x57, 0x19, 0x34, 0xDF, 0x5B, 0x41, 0x58, 0x49, 0xAA, 0x5F, 0x0A, 0xEF, 0x88, 0x01,
   0xDC, 0x95, 0xD4, 0xAF, 0x7B, 0xE3, 0x11, 0x8E, 0x9D, 0x16, 0x61, 0x8C, 0x84, 0x3C, 0x1F, 0x5A,
   0x02, 0x4F, 0x39, 0xFE, 0x04, 0x07, 0x5C, 0x8B, 0xEE, 0x66, 0x33, 0xC4, 0xC8, 0x59, 0xB5, 0x5D,
   0xC2, 0x6C, 0xF6, 0x4D, 0xFB, 0xAE, 0x4A, 0x4B, 0xF3, 0x35, 0x2C, 0xCA, 0x21, 0x78, 0x3B, 0x03,
   0xFD, 0x24, 0xBD, 0x25, 0x37, 0x29, 0xAC, 0x4E, 0xF9, 0x92, 0x3A, 0x32, 0x4C, 0xDA, 0x06, 0x5E,
   0x00, 0x94, 0x60, 0xEC, 0x17, 0x98, 0xD7, 0x3E, 0xCB, 0x6A, 0xA9, 0xD9, 0x9C, 0xBB, 0x08, 0x8F,
   0x40, 0xA0, 0x6F, 0x55, 0x67, 0x87, 0x54, 0x80, 0xB2, 0x36, 0x47, 0x22, 0x44, 0x63, 0x05, 0x6B,
   0xF0, 0x0F, 0xC7, 0x90, 0xC5, 0x65, 0xE2, 0x64, 0xFA, 0xD5, 0xDB, 0x12, 0x7A, 0x0E, 0xD8, 0x7E,
   0x99, 0xD1, 0xE8, 0xD6, 0x86, 0x27, 0xBF, 0xC1, 0x6E, 0xDE, 0x9A, 0x09, 0x0D, 0xAB, 0xE1, 0x91,
   0x56, 0xCD, 0xB3, 0x76, 0x0C, 0xC3, 0xD3, 0x9F, 0x42, 0xB6, 0x9B, 0xE5, 0x23, 0xA7, 0xAD, 0x18,
   0xC6, 0xF4, 0xB8, 0xBE, 0x15, 0x43, 0x70, 0xE0, 0xE7, 0xBC, 0xF1, 0xBA, 0xA5, 0xA6, 0x53, 0x75,
   0xE4, 0xEB, 0xE6, 0x85, 0x14, 0x48, 0xDD, 0x38, 0x2A, 0xCC, 0x7F, 0xB1, 0xC0, 0x71, 0x96, 0xF8,
   0x3F, 0x28, 0xF2, 0x69, 0x74, 0x68, 0xB7, 0xA3, 0x50, 0xD0, 0x79, 0x1D, 0xFC, 0xCE, 0x8A, 0x8D,
   0x2E, 0x62, 0x30, 0xEA, 0xED, 0x2B, 0x26, 0xB9, 0x81, 0x7C, 0x46, 0x89, 0x73, 0xA2, 0xF7, 0x72]

/-- A `Protobuf_BYN`, with the fields that only `socketManager` reads. -/
structure BYPacket extends Packet where
  m_ischeckcode : Bool
  m_packetheadsize : Nat

/-- `new(Protobuf_BYN, data)`. -/
def new (data : Option Bytes) : Option BYPacket := do
  let packet ← match data with
    | none => some empty
    | some data => ctor data
  some { packet with m_ischeckcode := false, m_packetheadsize := packetByHeaderSize }

def getBeginCode (packet : BYPacket) : Int := packet.m_code

/-- `sendmap[b + 1]`. -/
def send (b : UInt8) : UInt8 := sendmap.getD b.toNat 0

/-- `recvmap[b + 1]`. -/
def recv (b : UInt8) : UInt8 := recvmap.getD b.toNat 0

/-- The sum that a loop over a body adds to a code. -/
def sum (code : Int) (body : Bytes) : Int := body.foldl (fun checkcode b => checkcode + b.toNat) code

def encrypt (packet : BYPacket) : BYPacket :=
  if packet.m_ischeckcode then packet
  else
    let headsize := packet.m_packetheadsize
    let buftable := packet.m_packetBuf.drop headsize
    let checkcode := sum (getBeginCode packet) buftable
    let m_code := (Int.not checkcode + 1) % 256
    let encrypt_head := packet.m_packetBuf.take (headsize - 1) ++ [UInt8.ofNat m_code.toNat]
    { packet with m_code := m_code, m_packetBuf := encrypt_head ++ buftable.map send, m_ischeckcode := true }

def decrypt (packet : BYPacket) : Int × BYPacket :=
  let headsize := packet.m_packetheadsize
  let decrypttable := (packet.m_packetBuf.drop headsize).map recv
  let checkcode := sum (getBeginCode packet) decrypttable
  (checkcode % 256, { packet with m_packetBuf := packet.m_packetBuf.take headsize ++ decrypttable })

/-- A Lua value as a condition: a number is never false. -/
def Truthy : Option Int → Bool
  | some _ => true
  | none => false

/-- `receive`, with the packet it hands to `receivePacket.receive` (if it comes to that) and the data it
returns. -/
def receive {α : Type} (receivePacket : BYPacket → Option α) (cmd : Option Int) (buffer : Option Bytes)
    (withDecrypt : Bool) : Option (Option BYPacket × Option α) :=
  match cmd, buffer with
  | some _, some buffer => do
    let packet ← new (some buffer)
    if withDecrypt then
      let (checkcode, packet) := decrypt packet
      if !Truthy (some checkcode) then some (none, none)
      else some (some packet, receivePacket packet)
    else some (some packet, receivePacket packet)
  | _, _ => some (none, none)

/-! ### The maps -/

/-- The maps as numbers in base 256: a byte of a map is a digit. -/
theorem maps_inverse : ∀ n < 256,
    Endian.ofLe recvmap / 256 ^ (Endian.ofLe sendmap / 256 ^ n % 256) % 256 = n ∧
      Endian.ofLe sendmap / 256 ^ (Endian.ofLe recvmap / 256 ^ n % 256) % 256 = n := by
  decide +kernel

theorem recv_send (b : UInt8) : recv (send b) = b := by
  apply UInt8.toNat_inj.mp
  rw [recv, send, Endian.toNat_getD, Endian.toNat_getD]
  exact (maps_inverse b.toNat b.toNat_lt).1

theorem send_recv (b : UInt8) : send (recv b) = b := by
  apply UInt8.toNat_inj.mp
  rw [recv, send, Endian.toNat_getD, Endian.toNat_getD]
  exact (maps_inverse b.toNat b.toNat_lt).2

/-- Each byte stands for exactly one byte on the wire. -/
theorem send_bijective : Function.Bijective send :=
  ⟨Function.LeftInverse.injective recv_send, Function.RightInverse.surjective send_recv⟩

/-! ### The header -/

theorem sum_eq (code : Int) (body : Bytes) : sum code body = code + (body.map UInt8.toNat).sum := by
  rw [sum]
  induction body generalizing code with
  | nil => simp
  | cons b body ih =>
    rw [List.foldl_cons, ih, List.map_cons, List.sum_cons]
    push_cast
    omega

/-- What `new` reads out of a buffer: it needs the header, and takes the code with its sign. -/
theorem new_some {buffer : Bytes} {packet : BYPacket} (h : new (some buffer) = some packet) :
    packetByHeaderSize ≤ buffer.length ∧ packet.m_packetBuf = buffer ∧ packet.m_packetheadsize = packetByHeaderSize ∧
      packet.m_code % 256 = (buffer.getD 8 0).toNat := by
  simp only [new, ctor, initPacketBegin, Option.bind_eq_bind, Option.bind_eq_some_iff, Option.some.injEq] at h
  obtain ⟨q, ⟨_, _, _, _, _, _, _, _, code, hcode, rfl⟩, rfl⟩ := h
  simp only [unpackInt, unpackUint, Option.map_map, Option.map_eq_some_iff] at hcode
  obtain ⟨bs, hbs, hsigned⟩ := hcode
  obtain ⟨hlen, hat⟩ := field_some hbs
  refine ⟨hlen, rfl, rfl, ?_⟩
  have hbyte : bs = [buffer.getD 8 0] := by
    have hget : buffer.getD 8 0 = buffer[8] := by simp only [List.getD, List.getElem?_eq_getElem hlen, Option.getD_some]
    rw [hat, hget, List.drop_eq_getElem_cons hlen]
    rfl
  have hval : Endian.ofBe [buffer.getD 8 0] = (buffer.getD 8 0).toNat := by simp [Endian.ofBe, Endian.ofLe]
  rw [← hsigned, Function.comp_apply, hbyte, hval]
  have := (buffer.getD 8 0).toNat_lt
  simp only [signed]
  split <;> omega

/-- A buffer with a header is read. -/
theorem new_of_length {buffer : Bytes} (h : packetByHeaderSize ≤ buffer.length) :
    ∃ packet, new (some buffer) = some packet := by
  have hfield : ∀ size pos, pos - 1 + size ≤ 9 → ∃ n, unpackInt size buffer pos = some n := by
    intro size pos hin
    have hle : pos - 1 + size ≤ buffer.length := Nat.le_trans hin h
    refine ⟨signed size (Endian.ofBe ((buffer.drop (pos - 1)).take size)), ?_⟩
    simp only [unpackInt, unpackUint, field, if_pos hle, Option.map_some]
  obtain ⟨len, hlen⟩ := hfield 2 1 (by decide)
  obtain ⟨version, hversion⟩ := hfield 1 5 (by decide)
  obtain ⟨subversion, hsubversion⟩ := hfield 1 6 (by decide)
  obtain ⟨cmd, hcmd⟩ := hfield 2 7 (by decide)
  obtain ⟨code, hcode⟩ := hfield 1 9 (by decide)
  refine ⟨⟨{ empty with m_packetBuf := buffer, m_packetlen := len + 2, m_version := version, m_subversion := subversion,
                        m_cmd := cmd, m_code := code }, false, packetByHeaderSize⟩, ?_⟩
  simp only [new, ctor, initPacketBegin, hlen, hversion, hsubversion, hcmd, hcode, Option.bind_eq_bind,
    Option.bind_some]

/-! ### The round trip -/

/-- A packet that was written and not yet encrypted. -/
structure Unsent (p : BYPacket) : Prop where
  code : p.m_code = 0
  fresh : p.m_ischeckcode = false
  headsize : p.m_packetheadsize = packetByHeaderSize
  header : packetByHeaderSize ≤ p.m_packetBuf.length

/-- The receiver's packet has the sum 0, the body, and the header up to the code. -/
def RoundTrip (p : BYPacket) : Prop :=
  ∃ packet code, new (some (encrypt p).m_packetBuf) = some packet ∧ (decrypt packet).1 = 0 ∧
    (decrypt packet).2.m_packetBuf = p.m_packetBuf.take 8 ++ [code] ++ p.m_packetBuf.drop 9

/-- The sum over the code byte of a buffer and its decrypted body. -/
def checksum (buffer : Bytes) : Nat :=
  ((buffer.getD 8 0).toNat + ((buffer.drop packetByHeaderSize).map fun b => (recv b).toNat).sum) % 256

theorem decrypt_fst {buffer : Bytes} {packet : BYPacket} (h : new (some buffer) = some packet) :
    (decrypt packet).1 = checksum buffer := by
  obtain ⟨_, hbuf, hsize, hcode⟩ := new_some h
  simp only [decrypt, sum_eq, getBeginCode, hbuf, hsize, List.map_map, checksum, Function.comp_def]
  omega

/-- The code that `encrypt` puts in completes the sum. -/
theorem sum_code (body : Bytes) :
    ((UInt8.ofNat ((Int.not (sum 0 body) + 1) % 256).toNat).toNat + (body.map UInt8.toNat).sum) % 256 = 0 := by
  rw [sum_eq, Int.zero_add, UInt8.toNat_ofNat']
  have hnot : ∀ n : Nat, Int.not n = -n - 1 := by
    intro n
    rw [show Int.not n = Int.negSucc n from rfl, Int.negSucc_eq]
    omega
  rw [hnot]
  omega

theorem decrypt_encrypt {p : BYPacket} (hp : Unsent p) : RoundTrip p := by
  obtain ⟨hcode, hfresh, hsize, hlen⟩ := hp
  let head := p.m_packetBuf.take 8
  let body := p.m_packetBuf.drop 9
  let code := UInt8.ofNat ((Int.not (sum 0 body) + 1) % 256).toNat
  have hbuf : (encrypt p).m_packetBuf = head ++ [code] ++ body.map send := by
    simp only [encrypt, hfresh, hsize, getBeginCode, hcode]
    rfl
  have hhead : head.length = 8 := by
    simp only [packetByHeaderSize] at hlen
    simp only [head, List.length_take]
    omega
  have hlen' : packetByHeaderSize ≤ (encrypt p).m_packetBuf.length := by
    rw [hbuf]
    simp only [List.length_append, hhead, List.length_singleton, packetByHeaderSize]
    omega
  have hcut : (head ++ [code]).length = packetByHeaderSize := by
    rw [List.length_append, hhead]
    rfl
  have hback : (body.map send).map recv = body := by
    rw [List.map_map, show recv ∘ send = id from funext recv_send, List.map_id]
  obtain ⟨packet, hnew⟩ := new_of_length hlen'
  obtain ⟨_, hsame, hsize', _⟩ := new_some hnew
  refine ⟨packet, code, hnew, ?_, ?_⟩
  · have hat : (head ++ [code] ++ body.map send).getD 8 0 = code := by
      rw [List.append_assoc, ← hhead]
      simp
    have hsum : ((body.map send).map fun b => (recv b).toNat) = body.map UInt8.toNat := by
      rw [List.map_map]
      exact List.map_congr_left fun b _ => by rw [Function.comp_apply, recv_send]
    have hzero := sum_code body
    rw [decrypt_fst hnew, checksum, hbuf, hat, ← hcut, List.drop_left, hsum]
    exact congrArg Nat.cast hzero
  · simp only [decrypt, hsame, hsize', hbuf]
    rw [← hcut, List.take_left, List.drop_left, hback]

/-- A packet made by the writers is such a packet. -/
theorem unsent_of_written {calls : List Call} {cmd : Int} {q p : Packet} (hv : ∀ c ∈ calls, c.Valid)
    (hw : writeCalls calls { empty with m_cmd := cmd } = some q) (he : writeEnd q = some p) :
    Unsent ⟨p, false, packetByHeaderSize⟩ := by
  obtain ⟨-, hq⟩ := writeCalls_some hv hw
  simp only [writeEnd, Option.bind_eq_bind] at he
  split at he
  · cases he
  · simp only [Option.bind_eq_some_iff, Option.some.injEq] at he
    obtain ⟨len, hlen, version, hversion, subversion, hsub, cmd', hcmd, code, hcode, rfl⟩ := he
    refine ⟨by rw [hq]; rfl, rfl, rfl, ?_⟩
    have hname : q.m_protobufname.length = 2 := by rw [hq]; rfl
    simp only [List.length_append, packInt_length hlen, packInt_length hversion, packInt_length hsub,
      packInt_length hcmd, packInt_length hcode, hname, packetByHeaderSize]
    omega

/-! ### `receive` -/

section Receive

variable {α : Type} (receivePacket : BYPacket → Option α) (cmd : Int)

/-- Whatever its sum is, a buffer with a header is decrypted and handed over. -/
theorem receive_hands {buffer : Bytes} (h : packetByHeaderSize ≤ buffer.length) :
    ∃ packet, new (some buffer) = some packet ∧
      receive receivePacket (some cmd) (some buffer) true =
        some (some (decrypt packet).2, receivePacket (decrypt packet).2) := by
  obtain ⟨packet, hnew⟩ := new_of_length h
  refine ⟨packet, hnew, ?_⟩
  simp only [receive, hnew, Option.bind_eq_bind, Option.bind_some]
  rfl

/-- What the claim says of one received buffer. -/
def Checked (buffer : Bytes) : Prop :=
  ∀ handed data, receive receivePacket (some cmd) (some buffer) true = some (handed, data) →
    checksum buffer ≠ 0 → handed = none ∧ data = none

/-- **The cipher undoes itself, and the check never refuses.** Every written packet comes back with the
sum 0, its body and its header; a received buffer is treated as its sum demands exactly when it is
too short for a header (which raises an error) or its sum is 0. -/
theorem receive_checked_iff {p : BYPacket} (hp : Unsent p) (buffer : Bytes) :
    RoundTrip p ∧ (Checked receivePacket cmd buffer ↔ (packetByHeaderSize ≤ buffer.length → checksum buffer = 0)) := by
  refine ⟨decrypt_encrypt hp, ?_, ?_⟩
  · intro hchecked hlen
    obtain ⟨packet, _, hreceive⟩ := receive_hands receivePacket cmd hlen
    by_contra hsum
    exact absurd (hchecked _ _ hreceive hsum).1 (by simp)
  · intro hsum handed data hreceive hne
    have hlen : packetByHeaderSize ≤ buffer.length := by
      cases hnew : new (some buffer) with
      | none =>
        simp only [receive, hnew] at hreceive
        cases hreceive
      | some packet => exact (new_some hnew).1
    exact absurd (hsum hlen) hne

end Receive

/-- A packet of command 1 with a body of three bytes, and what arrives of it. -/
theorem receive_checked_packet :
    let p : BYPacket := ⟨{ empty with m_cmd := 1, m_packetBuf := header 10 1 ++ [5, 0, 255] }, false, 9⟩
    RoundTrip p ∧ Checked (fun _ => some ()) 1 (encrypt p).m_packetBuf := by
  intro p
  have hp : Unsent p := ⟨rfl, rfl, rfl, by decide⟩
  have hsum : checksum (encrypt p).m_packetBuf = 0 := by decide
  have h := receive_checked_iff (fun _ => some ()) 1 hp (encrypt p).m_packetBuf
  exact ⟨h.1, h.2.mpr fun _ => hsum⟩

/-- A body of one byte with a code that does not fit it is handed over. -/
theorem forged_buffer_handed : ¬ ∀ (receivePacket : BYPacket → Option Unit) (cmd : Int) (buffer : Bytes),
    Checked receivePacket cmd buffer := by
  intro hclaim
  let buffer : Bytes := [0, 8, 0x42, 0x59, 1, 1, 0, 1, 0, 0x2F]
  have hlen : packetByHeaderSize ≤ buffer.length := by decide
  have hsum : checksum buffer ≠ 0 := by decide
  obtain ⟨_, _, hreceive⟩ := receive_hands (fun _ => some ()) 1 hlen
  exact absurd (hclaim _ _ _ _ _ hreceive hsum).1 (by simp)

end SocketManager
end Skynet
