import Skynet.Lib.Endian

/-!
# Skynet.Cluster.Wire

The packages of `lua-cluster.c` between two nodes, and their reassembly.

* A frame is built in a buffer of `TEMP_LENGTH` bytes behind its length in two bytes; a larger frame
  is `Fault.overrun`, and a length of more than two bytes fails the assertion of `fill_header`.
* `Carries` : frames that bring a payload to the other side, in their order.
* `cluster_roundtrip` : requests and responses of every size come back from their frames.
-/

namespace Skynet
namespace Cluster

abbrev Bytes := List UInt8

def TEMP_LENGTH : Nat := 0x8200
def MULTI_PART : Nat := 0x8000

/-- The errors that `lua-cluster.c` raises, with the data of their messages. -/
inductive LuaError where
  /-- "Invalid request message" -/
  | noMessage
  /-- "Invalid request session %d" -/
  | badSession (session : Int)
  /-- "name is too long %s" -/
  | badName (name : Bytes)
  /-- "Invalid cluster message (size=%d)" -/
  | badSize (sz : Nat)
  /-- "Invalid cluster message size %d (multi req must be 13)" -/
  | badMulti (sz : Nat)
  /-- "Invalid cluster multi part message" -/
  | badPart
  /-- "Invalid req package type %d" -/
  | badType (type : UInt8)
deriving Repr, DecidableEq

inductive Fault where
  | luaError (e : LuaError)
  | assertion
  | overrun
  /-- `skynet_malloc` of a size below 0. -/
  | malloc
deriving Repr, DecidableEq

/-- The address of a request: a handle, or a name. -/
inductive Addr where
  | number (n : Nat)
  | name (s : Bytes)
deriving Repr, DecidableEq

/-! ### Packing -/

def fillHeader (sz : Nat) : Except Fault Bytes :=
  if sz < 0x10000 then .ok [UInt8.ofNat (sz / 256), UInt8.ofNat sz] else .error .assertion

/-- A frame in the temporary buffer: the length and the bytes behind it. -/
def frame (sz : Nat) (bs : Bytes) : Except Fault Bytes := do
  let h ← fillHeader sz
  if TEMP_LENGTH < h.length + bs.length then .error .overrun else .ok (h ++ bs)

def parts (sz : Nat) : Nat := (sz - 1) / MULTI_PART + 1

def packreqNumber (addr session : Nat) (msg : Bytes) : Except Fault (Bytes × Nat) :=
  if msg.length < MULTI_PART then do
    let f ← frame (msg.length + 9) (0 :: (Endian.le 4 addr ++ Endian.le 4 session ++ msg))
    .ok (f, 0)
  else do
    let f ← frame 13 (1 :: (Endian.le 4 addr ++ Endian.le 4 session ++ Endian.le 4 msg.length))
    .ok (f, parts msg.length)

def packreqString (name : Bytes) (session : Nat) (msg : Bytes) : Except Fault (Bytes × Nat) :=
  if name.length < 1 ∨ 255 < name.length then .error (.luaError (.badName name))
  else if msg.length < MULTI_PART then do
    let f ← frame (msg.length + 6 + name.length)
      (0x80 :: UInt8.ofNat name.length :: (name ++ Endian.le 4 session ++ msg))
    .ok (f, 0)
  else do
    let f ← frame (10 + name.length)
      (0x81 :: UInt8.ofNat name.length :: (name ++ Endian.le 4 session ++ Endian.le 4 msg.length))
    .ok (f, parts msg.length)

/-- The first frame by the type of the address, and the number of parts that follow. -/
def packreq : Addr → Nat → Bytes → Except Fault (Bytes × Nat)
  | .number n, session, msg => packreqNumber n session msg
  | .name s, session, msg => packreqString s session msg

/-- The loop over the parts of a message, of requests and of responses; `head` are the five bytes before
the data, for a part with more to come and for the last one. -/
def packParts (head : Bool → Bytes) : Nat → Bytes → Except Fault (List Bytes)
  | 0, _ => .ok []
  | part + 1, msg => do
    let s := if MULTI_PART < msg.length then MULTI_PART else msg.length
    let f ← frame (s + 5) (head (MULTI_PART < msg.length) ++ msg.take s)
    let fs ← packParts head part (msg.drop s)
    .ok (f :: fs)

def partHead (session : Nat) (more : Bool) : Bytes := (if more then 2 else 3) :: Endian.le 4 session

def packreqMulti (session : Nat) (msg : Bytes) : Except Fault (List Bytes) :=
  packParts (partHead session) (parts msg.length) msg

/-- `++session` of an `int` that wraps around. -/
def nextSession (session : Int) : Int := if (session + 1).bmod 0x100000000 < 0 then 1 else session + 1

/-- `packrequest`: the first frame, the next session and the padding. -/
def lpackrequest (addr : Addr) (session : Int) (msg : Option Bytes) :
    Except Fault (Bytes × Int × Option (List Bytes)) :=
  match msg with
  | none => .error (.luaError .noMessage)
  | some msg =>
    if session ≤ 0 then .error (.luaError (.badSession session))
    else do
      let (f, multipak) ← packreq addr session.toNat msg
      if multipak ≠ 0 then do
        let padding ← packreqMulti session.toNat msg
        .ok (f, nextSession session, some padding)
      else .ok (f, nextSession session, none)

/-- A response: one frame, or a table of them. -/
inductive Response where
  | string (f : Bytes)
  | table (fs : List Bytes)
deriving Repr, DecidableEq

def responseHead (session : Nat) (more : Bool) : Bytes := Endian.le 4 session ++ [if more then 3 else 4]

/-- `packresponse`. -/
def lpackresponse (session : Nat) (ok : Bool) (msg : Bytes) : Except Fault Response :=
  if ok ∧ MULTI_PART < msg.length then do
    let f ← frame 9 (Endian.le 4 session ++ 2 :: Endian.le 4 msg.length)
    let fs ← packParts (responseHead session) (parts msg.length) msg
    .ok (.table (f :: fs))
  else do
    let msg := if MULTI_PART < msg.length then msg.take MULTI_PART else msg
    let f ← frame (msg.length + 5) (Endian.le 4 session ++ (if ok then 1 else 0) :: msg)
    .ok (.string f)

/-! ### Unpacking -/

/-- What a frame has for the message: the size of a message in parts, or data. -/
inductive Part where
  | size (n : Nat)
  | data (s : Bytes)
deriving Repr, DecidableEq

/-- The values that `unpackrequest` and `unpackresponse` return: the address (none in a part) or the
flag `ok`, the session, the message and the flag `padding`. -/
structure Unpacked (α : Type) where
  head : α
  session : Nat
  msg : Part
  padding : Bool
deriving Repr, DecidableEq

def unpackUint32 (buf : Bytes) (offset : Nat) : Nat := Endian.ofLe ((buf.drop offset).take 4)

def unpackreqNumber (buf : Bytes) : Except Fault (Unpacked (Option Addr)) :=
  if buf.length < 9 then .error (.luaError (.badSize buf.length))
  else .ok ⟨some (.number (unpackUint32 buf 1)), unpackUint32 buf 5, .data (buf.drop 9), false⟩

def unpackmreqNumber (buf : Bytes) : Except Fault (Unpacked (Option Addr)) :=
  if buf.length ≠ 13 then .error (.luaError (.badMulti buf.length))
  else .ok ⟨some (.number (unpackUint32 buf 1)), unpackUint32 buf 5, .size (unpackUint32 buf 9), true⟩

def unpackmreqPart (buf : Bytes) : Except Fault (Unpacked (Option Addr)) :=
  if buf.length < 5 then .error (.luaError .badPart)
  else .ok ⟨none, unpackUint32 buf 1, .data (buf.drop 5), buf.headD 0 = 2⟩

def unpackreqString (buf : Bytes) : Except Fault (Unpacked (Option Addr)) :=
  let namesz := (buf.getD 1 0).toNat
  if buf.length < 2 then .error (.luaError (.badSize buf.length))
  else if buf.length < namesz + 6 then .error (.luaError (.badSize buf.length))
  else .ok ⟨some (.name ((buf.drop 2).take namesz)), unpackUint32 buf (namesz + 2), .data (buf.drop (2 + namesz + 4)), false⟩

def unpackmreqString (buf : Bytes) : Except Fault (Unpacked (Option Addr)) :=
  let namesz := (buf.getD 1 0).toNat
  if buf.length < 2 then .error (.luaError (.badSize buf.length))
  else if buf.length < namesz + 10 then .error (.luaError (.badSize buf.length))
  else .ok ⟨some (.name ((buf.drop 2).take namesz)), unpackUint32 buf (namesz + 2), .size (unpackUint32 buf (namesz + 6)), true⟩

/-- `unpackrequest`; the string of Lua ends with a 0 behind its last byte. -/
def lunpackrequest (msg : Bytes) : Except Fault (Unpacked (Option Addr)) :=
  match msg.headD 0 with
  | 0 => unpackreqNumber msg
  | 1 => unpackmreqNumber msg
  | 2 => unpackmreqPart msg
  | 3 => unpackmreqPart msg
  | 0x80 => unpackreqString msg
  | 0x81 => unpackmreqString msg
  | t => .error (.luaError (.badType t))

/-- `unpackresponse`; no values for a package that is wrong. -/
def lunpackresponse (buf : Bytes) : Option (Unpacked Bool) :=
  if buf.length < 5 then none
  else
    let session := unpackUint32 buf 0
    match buf.getD 4 0 with
    | 0 => some ⟨false, session, .data (buf.drop 5), false⟩
    | 1 => some ⟨true, session, .data (buf.drop 5), false⟩
    | 4 => some ⟨true, session, .data (buf.drop 5), false⟩
    | 2 => if buf.length ≠ 9 then none else some ⟨true, session, .size (unpackUint32 buf 5), true⟩
    | 3 => some ⟨true, session, .data (buf.drop 5), true⟩
    | _ => none

/-- The loop of `lconcat` over the strings of the table. -/
def concatLoop (sz : Nat) : Bytes → List Part → Option Bytes
  | buff, .data s :: items => if sz < s.length + buff.length then none else concatLoop sz (buff ++ s) items
  | buff, _ => if buff.length ≠ sz then none else some buff

/-- `concat`, on the values of the table from index 1 on; `sz` is an `int`. -/
def lconcat : List Part → Except Fault (Option Bytes)
  | .size n :: items =>
    let sz := (n : Int).bmod 0x100000000
    if sz < 0 then .error .malloc else .ok (concatLoop sz.toNat [] items)
  | _ => .ok none

/-! ### Frames on the wire -/

/-- The bytes that a reader of the two-byte length gets from a frame. -/
def unframe : Bytes → Option Bytes
  | hi :: lo :: bs => if hi.toNat * 256 + lo.toNat = bs.length then some bs else none
  | _ => none

/-- What the receiver makes of the values of a message's frames: the data of the only one, or the
concatenation. -/
def received {α : Type} : List (Unpacked α) → Except Fault (Option Bytes)
  | [⟨_, _, .data s, _⟩] => .ok (some s)
  | us => lconcat (us.map Unpacked.msg)

/-- Each frame is in the buffer and has its length, and is unpacked to the values of `us`, of the
session, with the padding flag on all but the last. -/
structure Frames {α : Type} (unpack : Bytes → Option (Unpacked α)) (session : Nat) (frames : List Bytes)
    (us : List (Unpacked α)) : Prop where
  fits : ∀ f ∈ frames, f.length ≤ TEMP_LENGTH
  unpacked : List.Forall₂ (fun f u => (unframe f).bind unpack = some u) frames us
  session : ∀ u ∈ us, u.session = session
  padding : ∃ init last, us = init ++ [last] ∧ (∀ u ∈ init, u.padding = true) ∧ last.padding = false

/-- Frames that give a payload back. -/
structure Carries {α : Type} (unpack : Bytes → Option (Unpacked α)) (session : Nat) (msg : Bytes) (frames : List Bytes)
    (us : List (Unpacked α)) : Prop extends Frames unpack session frames us where
  payload : received us = .ok (some msg)

section Frames

variable {α : Type} {unpack : Bytes → Option (Unpacked α)} {session : Nat} {f : Bytes} {u : Unpacked α}

theorem Frames.single (hfits : f.length ≤ TEMP_LENGTH) (hun : (unframe f).bind unpack = some u)
    (hsess : u.session = session) (hpad : u.padding = false) : Frames unpack session [f] [u] where
  fits := List.forall_mem_singleton.mpr hfits
  unpacked := .cons hun .nil
  session := List.forall_mem_singleton.mpr hsess
  padding := ⟨[], u, rfl, nofun, hpad⟩

theorem Frames.cons {fs : List Bytes} {us : List (Unpacked α)} (h : Frames unpack session fs us)
    (hfits : f.length ≤ TEMP_LENGTH) (hun : (unframe f).bind unpack = some u) (hsess : u.session = session)
    (hpad : u.padding = true) : Frames unpack session (f :: fs) (u :: us) where
  fits := List.forall_mem_cons.mpr ⟨hfits, h.fits⟩
  unpacked := .cons hun h.unpacked
  session := List.forall_mem_cons.mpr ⟨hsess, h.session⟩
  padding := by
    obtain ⟨init, last, rfl, hinit, hlast⟩ := h.padding
    exact ⟨u :: init, last, rfl, List.forall_mem_cons.mpr ⟨hpad, hinit⟩, hlast⟩

end Frames

theorem frame_spec {bs : Bytes} (h : bs.length + 2 ≤ TEMP_LENGTH) {sz : Nat} (hsz : sz = bs.length) :
    ∃ f, frame sz bs = .ok f ∧ f.length ≤ TEMP_LENGTH ∧ unframe f = some bs := by
  have hT : TEMP_LENGTH = 0x8200 := rfl
  subst hsz
  refine ⟨UInt8.ofNat (bs.length / 256) :: UInt8.ofNat bs.length :: bs, ?_, ?_, ?_⟩
  · rw [frame, fillHeader, if_pos (by omega)]
    simp only [bind, Except.bind, List.length_cons, List.length_nil]
    rw [if_neg (by omega)]
    rfl
  · simp only [List.length_cons]
    omega
  · have hhi : (UInt8.ofNat (bs.length / 256)).toNat = bs.length / 256 := by
      rw [UInt8.toNat_ofNat', Nat.mod_eq_of_lt (by omega)]
    have hlo : (UInt8.ofNat bs.length).toNat = bs.length % 256 := UInt8.toNat_ofNat'
    rw [unframe, hhi, hlo, if_pos (by omega)]

theorem parts_ne_zero (sz : Nat) : parts sz ≠ 0 := Nat.succ_ne_zero _

theorem unpackUint32_le {buf a b : Bytes} {n off : Nat} (hbuf : buf = a ++ (Endian.le 4 n ++ b)) (hoff : off = a.length)
    (hn : n < 2 ^ 32) : unpackUint32 buf off = n := by
  subst hbuf hoff
  rw [unpackUint32, List.drop_left, List.take_append_of_le_length (by rw [Endian.le_length]),
    List.take_of_length_le (by rw [Endian.le_length]), Endian.ofLe_le_of_lt (by omega)]

/-- The frames of the parts: each part behind the five bytes of `head`, all but the last full. -/
theorem packParts_spec {α : Type} {unpack : Bytes → Option (Unpacked α)} {head : Bool → Bytes} {session : Nat} {x : α}
    (hlen : ∀ more, (head more).length = 5)
    (hunpack : ∀ more s, unpack (head more ++ s) = some ⟨x, session, .data s, more⟩) {msg : Bytes} (hpos : 0 < msg.length) :
    ∃ fs us, ∃ chunks : List Bytes, packParts head (parts msg.length) msg = .ok fs ∧ Frames unpack session fs us ∧
      (∀ u ∈ us, u.head = x) ∧ us.map Unpacked.msg = chunks.map Part.data ∧ chunks.flatten = msg := by
  have hM : MULTI_PART = 0x8000 := rfl
  have hT : TEMP_LENGTH = 0x8200 := rfl
  generalize hk : parts msg.length = k
  induction k generalizing msg with
  | zero => exact absurd hk (Nat.succ_ne_zero _)
  | succ k ih =>
    rw [parts, hM] at hk
    by_cases hmore : MULTI_PART < msg.length
    · have htake : (msg.take MULTI_PART).length = MULTI_PART := by rw [List.length_take]; omega
      have hbody : (head true ++ msg.take MULTI_PART).length = MULTI_PART + 5 := by
        rw [List.length_append, hlen, htake]; omega
      obtain ⟨f, hf, hfits, hun⟩ := frame_spec (by omega) hbody.symm
      have hdrop : (msg.drop MULTI_PART).length = msg.length - MULTI_PART := List.length_drop
      have hpos' : 0 < (msg.drop MULTI_PART).length := by omega
      obtain ⟨fs, us, chunks, hfs, hframes, hhead, hmap, hflat⟩ := ih hpos' (by rw [parts, hdrop, hM]; omega)
      refine ⟨f :: fs, ⟨x, session, .data (msg.take MULTI_PART), true⟩ :: us, msg.take MULTI_PART :: chunks,
        ?_, ?_, List.forall_mem_cons.mpr ⟨rfl, hhead⟩, ?_, ?_⟩
      · simp only [packParts, if_pos hmore, decide_eq_true hmore, hf, hfs, bind, Except.bind]
      · exact hframes.cons hfits (by rw [hun, Option.bind_some, hunpack]) rfl rfl
      · rw [List.map_cons, hmap]; rfl
      · rw [List.flatten_cons, hflat, List.take_append_drop]
    · have hk0 : k = 0 := by omega
      subst hk0
      have hbody : (head false ++ msg).length = msg.length + 5 := by
        rw [List.length_append, hlen]; omega
      obtain ⟨f, hf, hfits, hun⟩ := frame_spec (by omega) hbody.symm
      refine ⟨[f], [⟨x, session, .data msg, false⟩], [msg], ?_, ?_, List.forall_mem_singleton.mpr rfl, rfl, ?_⟩
      · simp only [packParts, if_neg hmore, decide_eq_false hmore, List.take_length, hf, bind, Except.bind]
      · exact Frames.single hfits (by rw [hun, Option.bind_some, hunpack]) rfl rfl
      · rw [List.flatten_cons, List.flatten_nil, List.append_nil]

theorem concatLoop_chunks (chunks : List Bytes) (buff : Bytes) :
    concatLoop (buff ++ chunks.flatten).length buff (chunks.map Part.data) = some (buff ++ chunks.flatten) := by
  induction chunks generalizing buff with
  | nil => simp only [List.map_nil, concatLoop, List.flatten_nil, List.append_nil, ne_eq, not_true_eq_false, if_false]
  | cons c chunks ih =>
    have hlen : ¬(buff ++ (c :: chunks).flatten).length < c.length + buff.length := by
      simp only [List.flatten_cons, List.length_append]
      omega
    rw [List.map_cons, concatLoop, if_neg hlen, List.flatten_cons, ← List.append_assoc, ih]

theorem lconcat_chunks {chunks : List Bytes} (h : chunks.flatten.length < 2 ^ 31) :
    lconcat (.size chunks.flatten.length :: chunks.map Part.data) = .ok (some chunks.flatten) := by
  have hsz : ((chunks.flatten.length : Nat) : Int).bmod 0x100000000 = chunks.flatten.length := by
    rw [Int.bmod_eq_of_le] <;> omega
  have hloop := concatLoop_chunks chunks []
  rw [List.nil_append] at hloop
  have hneg : ¬((chunks.flatten.length : Nat) : Int) < 0 := by omega
  unfold lconcat
  simp only [hsz, if_neg hneg, Int.toNat_natCast, hloop]

/-! ### Round trips -/

section RoundTrip

variable {session : Nat} {msg : Bytes}

/-- A message in parts behind the frame with its size. -/
theorem carries_parts {α : Type} {unpack : Bytes → Option (Unpacked α)} {head : Bool → Bytes} {x : α}
    (hlen : ∀ more, (head more).length = 5)
    (hunpack : ∀ more s, unpack (head more ++ s) = some ⟨x, session, .data s, more⟩) (hpos : 0 < msg.length)
    (hmsg : msg.length < 2 ^ 31) {f : Bytes} (hfits : f.length ≤ TEMP_LENGTH) {y : α}
    (hun : (unframe f).bind unpack = some ⟨y, session, .size msg.length, true⟩) :
    ∃ fs us, packParts head (parts msg.length) msg = .ok fs ∧
      Carries unpack session msg (f :: fs) (⟨y, session, .size msg.length, true⟩ :: us) ∧ ∀ u ∈ us, u.head = x := by
  obtain ⟨fs, us, chunks, hfs, hframes, hhead, hmap, hflat⟩ := packParts_spec hlen hunpack hpos
  refine ⟨fs, us, hfs, ⟨hframes.cons hfits hun rfl rfl, ?_⟩, hhead⟩
  obtain ⟨init, last, rfl, -, -⟩ := hframes.padding
  have hrec : received (⟨y, session, .size msg.length, true⟩ :: (init ++ [last])) =
      lconcat (.size msg.length :: (init ++ [last]).map Unpacked.msg) := by
    cases init <;> rfl
  rw [hrec, hmap, ← hflat, lconcat_chunks (by rw [hflat]; exact hmsg)]

/-- The parts of a request. -/
theorem unpackrequest_part (hs : session < 2 ^ 32) (more : Bool) (s : Bytes) :
    (lunpackrequest (partHead session more ++ s)).toOption = some ⟨none, session, .data s, more⟩ := by
  have hsess : unpackUint32 (partHead session more ++ s) 1 = session :=
    unpackUint32_le (a := [if more then 2 else 3]) rfl rfl hs
  have hdrop : (partHead session more ++ s).drop 5 = s := by
    rw [List.drop_append_of_le_length] <;> simp [partHead]
  have hlen : ¬(partHead session more ++ s).length < 5 := by simp [partHead]
  cases more with
  | true =>
    have : lunpackrequest (partHead session true ++ s) = unpackmreqPart (partHead session true ++ s) := rfl
    rw [this, unpackmreqPart, if_neg hlen, hsess, hdrop]
    rfl
  | false =>
    have : lunpackrequest (partHead session false ++ s) = unpackmreqPart (partHead session false ++ s) := rfl
    rw [this, unpackmreqPart, if_neg hlen, hsess, hdrop]
    rfl

/-- The addresses that a request can have. -/
def Addr.Ok : Addr → Prop
  | .number n => n < 2 ^ 32
  | .name s => 1 ≤ s.length ∧ s.length ≤ 255

/-- The bytes of the address in the first frame, behind the type. -/
def Addr.bytes : Addr → Bytes
  | .number n => Endian.le 4 n
  | .name s => UInt8.ofNat s.length :: s

/-- The type of the first frame. -/
def Addr.type : Addr → Bool → UInt8
  | .number _, multi => if multi then 1 else 0
  | .name _, multi => if multi then 0x81 else 0x80

theorem Addr.bytes_length {addr : Addr} (h : addr.Ok) : addr.bytes.length ≤ 256 := by
  cases addr with
  | number n => simp only [Addr.bytes, Endian.le_length]; omega
  | name s => have := h.2; simp only [Addr.bytes, List.length_cons]; omega

theorem packreq_single (session : Nat) {addr : Addr} (h : addr.Ok) (hsz : msg.length < MULTI_PART) :
    ∃ f, packreq addr session msg = .ok (f, 0) ∧ f.length ≤ TEMP_LENGTH ∧
      unframe f = some (addr.type false :: (addr.bytes ++ (Endian.le 4 session ++ msg))) := by
  have hM : MULTI_PART = 0x8000 := rfl
  have hT : TEMP_LENGTH = 0x8200 := rfl
  have hbytes := addr.bytes_length h
  have hlen : (addr.type false :: (addr.bytes ++ (Endian.le 4 session ++ msg))).length =
      addr.bytes.length + msg.length + 5 := by
    simp only [List.length_cons, List.length_append, Endian.le_length]; omega
  obtain ⟨f, hf, hfits, hun⟩ := frame_spec (by omega) hlen.symm
  refine ⟨f, ?_, hfits, hun⟩
  cases addr with
  | number n =>
    have hsum : (Endian.le 4 n).length + msg.length + 5 = msg.length + 9 := by rw [Endian.le_length]; omega
    simp only [Addr.bytes, Addr.type, hsum, Bool.false_eq_true, if_false] at hf
    rw [packreq, packreqNumber, if_pos hsz, List.append_assoc, hf]
    rfl
  | name s =>
    have hsum : (UInt8.ofNat s.length :: s).length + msg.length + 5 = msg.length + 6 + s.length := by
      rw [List.length_cons]; omega
    have hname : ¬(s.length < 1 ∨ 255 < s.length) := by have := h.1; have := h.2; omega
    simp only [Addr.bytes, Addr.type, hsum, List.cons_append, Bool.false_eq_true, if_false] at hf
    rw [packreq, packreqString, if_neg hname, if_pos hsz, List.append_assoc, hf]
    rfl

theorem packreq_multi (session : Nat) {addr : Addr} (h : addr.Ok) (hsz : MULTI_PART ≤ msg.length) :
    ∃ f, packreq addr session msg = .ok (f, parts msg.length) ∧ f.length ≤ TEMP_LENGTH ∧
      unframe f = some (addr.type true :: (addr.bytes ++ (Endian.le 4 session ++ Endian.le 4 msg.length))) := by
  have hT : TEMP_LENGTH = 0x8200 := rfl
  have hbytes := addr.bytes_length h
  have hlen : (addr.type true :: (addr.bytes ++ (Endian.le 4 session ++ Endian.le 4 msg.length))).length =
      addr.bytes.length + 9 := by
    simp only [List.length_cons, List.length_append, Endian.le_length]
  obtain ⟨f, hf, hfits, hun⟩ := frame_spec (by omega) hlen.symm
  refine ⟨f, ?_, hfits, hun⟩
  cases addr with
  | number n =>
    simp only [Addr.bytes, Addr.type, Endian.le_length, if_true] at hf
    rw [packreq, packreqNumber, if_neg (Nat.not_lt.mpr hsz), List.append_assoc, hf]
    rfl
  | name s =>
    have hsum : (UInt8.ofNat s.length :: s).length + 9 = 10 + s.length := by rw [List.length_cons]; omega
    have hname : ¬(s.length < 1 ∨ 255 < s.length) := by have := h.1; have := h.2; omega
    simp only [Addr.bytes, Addr.type, hsum, List.cons_append, if_true] at hf
    rw [packreq, packreqString, if_neg hname, if_neg (Nat.not_lt.mpr hsz), List.append_assoc, hf]
    rfl

theorem drop_of_eq {buf a b : Bytes} {k : Nat} (hbuf : buf = a ++ b) (hk : k = a.length) : buf.drop k = b := by
  rw [hbuf, hk, List.drop_left]

theorem name_length {s : Bytes} (h : (Addr.name s).Ok) : (UInt8.ofNat s.length).toNat = s.length := by
  rw [UInt8.toNat_ofNat', Nat.mod_eq_of_lt (by have := h.2; omega)]

/-- The first frame of a small request gives the request back. -/
theorem unpackrequest_single {addr : Addr} (h : addr.Ok) (hs : session < 2 ^ 32) (msg : Bytes) :
    lunpackrequest (addr.type false :: (addr.bytes ++ (Endian.le 4 session ++ msg))) =
      .ok ⟨some addr, session, .data msg, false⟩ := by
  generalize hbuf : addr.type false :: (addr.bytes ++ (Endian.le 4 session ++ msg)) = buf
  have hlen : buf.length = addr.bytes.length + msg.length + 5 := by
    rw [← hbuf]
    simp only [List.length_cons, List.length_append, Endian.le_length]; omega
  cases addr with
  | number n =>
    have hun : lunpackrequest buf = unpackreqNumber buf := by rw [← hbuf]; rfl
    rw [Addr.bytes, Endian.le_length] at hlen
    have haddr : unpackUint32 buf 1 = n := unpackUint32_le hbuf.symm (a := [0]) rfl h
    have hsess : unpackUint32 buf 5 = session := by
      apply unpackUint32_le hbuf.symm (a := 0 :: Endian.le 4 n) _ hs
      rw [List.length_cons, Endian.le_length]
    have hdrop : buf.drop 9 = msg := by
      apply drop_of_eq (a := 0 :: (Endian.le 4 n ++ Endian.le 4 session))
      · rw [← hbuf, Addr.bytes, List.cons_append, List.append_assoc]; rfl
      · simp only [List.length_cons, List.length_append, Endian.le_length]
    rw [hun, unpackreqNumber, if_neg (by omega), haddr, hsess, hdrop]
  | name s =>
    have hun : lunpackrequest buf = unpackreqString buf := by rw [← hbuf]; rfl
    have hn := name_length h
    rw [Addr.bytes, List.length_cons] at hlen
    have hname : (buf.getD 1 0).toNat = s.length := by rw [← hbuf, ← hn]; rfl
    have htake : (buf.drop 2).take s.length = s := by
      have : buf.drop 2 = s ++ (Endian.le 4 session ++ msg) := by rw [← hbuf]; rfl
      rw [this, List.take_left]
    have hsess : unpackUint32 buf (s.length + 2) = session :=
      unpackUint32_le hbuf.symm (a := 0x80 :: UInt8.ofNat s.length :: s) rfl hs
    have hdrop : buf.drop (2 + s.length + 4) = msg := by
      apply drop_of_eq (a := 0x80 :: UInt8.ofNat s.length :: (s ++ Endian.le 4 session))
      · rw [← hbuf, List.cons_append, List.cons_append, List.append_assoc]; rfl
      · simp only [List.length_cons, List.length_append, Endian.le_length]; omega
    simp only [hun, unpackreqString, hname]
    rw [if_neg (by omega), if_neg (by omega), htake, hsess, hdrop]

/-- The first frame of a large request gives its address and its size. -/
theorem unpackrequest_multi {addr : Addr} (h : addr.Ok) (hs : session < 2 ^ 32) {n : Nat} (hn : n < 2 ^ 32) :
    lunpackrequest (addr.type true :: (addr.bytes ++ (Endian.le 4 session ++ Endian.le 4 n))) =
      .ok ⟨some addr, session, .size n, true⟩ := by
  generalize hbuf : addr.type true :: (addr.bytes ++ (Endian.le 4 session ++ Endian.le 4 n)) = buf
  have hlen : buf.length = addr.bytes.length + 9 := by
    rw [← hbuf]
    simp only [List.length_cons, List.length_append, Endian.le_length]
  have hend : Endian.le 4 n = Endian.le 4 n ++ [] := (List.append_nil _).symm
  rw [hend] at hbuf
  cases addr with
  | number m =>
    have hun : lunpackrequest buf = unpackmreqNumber buf := by rw [← hbuf]; rfl
    rw [Addr.bytes, Endian.le_length] at hlen
    have haddr : unpackUint32 buf 1 = m := unpackUint32_le hbuf.symm (a := [1]) rfl h
    have hsess : unpackUint32 buf 5 = session := by
      apply unpackUint32_le hbuf.symm (a := 1 :: Endian.le 4 m) _ hs
      rw [List.length_cons, Endian.le_length]
    have hsize : unpackUint32 buf 9 = n := by
      apply unpackUint32_le (a := 1 :: (Endian.le 4 m ++ Endian.le 4 session)) (b := []) _ _ hn
      · rw [← hbuf, Addr.bytes, List.cons_append, List.append_assoc]; rfl
      · simp only [List.length_cons, List.length_append, Endian.le_length]
    rw [hun, unpackmreqNumber, if_neg (by omega), haddr, hsess, hsize]
  | name s =>
    have hun : lunpackrequest buf = unpackmreqString buf := by rw [← hbuf]; rfl
    have hn' := name_length h
    rw [Addr.bytes, List.length_cons] at hlen
    have hname : (buf.getD 1 0).toNat = s.length := by rw [← hbuf, ← hn']; rfl
    have htake : (buf.drop 2).take s.length = s := by
      have : buf.drop 2 = s ++ (Endian.le 4 session ++ (Endian.le 4 n ++ [])) := by rw [← hbuf]; rfl
      rw [this, List.take_left]
    have hsess : unpackUint32 buf (s.length + 2) = session :=
      unpackUint32_le hbuf.symm (a := 0x81 :: UInt8.ofNat s.length :: s) rfl hs
    have hsize : unpackUint32 buf (s.length + 6) = n := by
      apply unpackUint32_le (a := 0x81 :: UInt8.ofNat s.length :: (s ++ Endian.le 4 session)) (b := []) _ _ hn
      · rw [← hbuf, List.cons_append, List.cons_append, List.append_assoc]; rfl
      · simp only [List.length_cons, List.length_append, Endian.le_length]
    simp only [hun, unpackmreqString, hname]
    rw [if_neg (by omega), if_neg (by omega), htake, hsess, hsize]

theorem request_carried {addr : Addr} (h : addr.Ok) (hpos : 0 < session) (hs : session < 2 ^ 31)
    (hmsg : msg.length < 2 ^ 31) :
    ∃ first next padding us, lpackrequest addr session (some msg) = .ok (first, next, padding) ∧
      Carries (fun b => (lunpackrequest b).toOption) session msg (first :: padding.getD []) us ∧
      us.head?.bind Unpacked.head = some addr := by
  have hM : MULTI_PART = 0x8000 := rfl
  have hsess : ¬(session : Int) ≤ 0 := by omega
  by_cases hsz : msg.length < MULTI_PART
  · obtain ⟨f, hf, hfits, hun⟩ := packreq_single session h hsz
    refine ⟨f, nextSession session, none, [⟨some addr, session, .data msg, false⟩], ?_, ⟨Frames.single hfits ?_ rfl rfl, rfl⟩, rfl⟩
    · simp only [lpackrequest]
      rw [if_neg hsess, Int.toNat_natCast, hf]
      rfl
    · rw [hun, Option.bind_some, unpackrequest_single h (by omega)]
      rfl
  · obtain ⟨f, hf, hfits, hun⟩ := packreq_multi session h (Nat.not_lt.mp hsz)
    have hfirst : (unframe f).bind (fun b => (lunpackrequest b).toOption) = some ⟨some addr, session, .size msg.length, true⟩ := by
      rw [hun, Option.bind_some, unpackrequest_multi h (by omega) (by omega)]
      rfl
    have hhead : ∀ more, (partHead session more).length = 5 := fun more => by simp [partHead]
    obtain ⟨fs, us, hfs, hcarries, -⟩ := carries_parts hhead (unpackrequest_part (by omega)) (by omega) hmsg hfits hfirst
    refine ⟨f, nextSession session, some fs, _, ?_, hcarries, rfl⟩
    simp only [lpackrequest]
    rw [if_neg hsess, Int.toNat_natCast, hf]
    simp only [bind, Except.bind, packreqMulti, hfs]
    rw [if_pos (parts_ne_zero _)]

/-! ### Responses -/

/-- A frame of a response: the session, the type and the bytes behind it. -/
theorem unpackresponse_eq (hs : session < 2 ^ 32) (t : UInt8) (s : Bytes) :
    lunpackresponse (Endian.le 4 session ++ t :: s) =
      match t with
      | 0 => some ⟨false, session, .data s, false⟩
      | 1 => some ⟨true, session, .data s, false⟩
      | 4 => some ⟨true, session, .data s, false⟩
      | 2 => if s.length ≠ 4 then none else some ⟨true, session, .size (unpackUint32 s 0), true⟩
      | 3 => some ⟨true, session, .data s, true⟩
      | _ => none := by
  generalize hbuf : Endian.le 4 session ++ t :: s = buf
  have hlen : buf.length = s.length + 5 := by
    rw [← hbuf]
    simp only [List.length_append, List.length_cons, Endian.le_length]; omega
  have hsess : unpackUint32 buf 0 = session := unpackUint32_le hbuf.symm (a := []) rfl hs
  have hdrop : buf.drop 5 = s := by
    apply drop_of_eq (a := Endian.le 4 session ++ [t])
    · rw [← hbuf, List.append_assoc]; rfl
    · simp only [List.length_append, List.length_cons, List.length_nil, Endian.le_length]
  have htype : buf.getD 4 0 = t := by rw [← hbuf]; rfl
  have hsize : unpackUint32 buf 5 = unpackUint32 s 0 := by rw [unpackUint32, unpackUint32, hdrop, List.drop_zero]
  have h9 : (s.length + 5 ≠ 9) = (s.length ≠ 4) := by
    apply propext
    omega
  simp only [lunpackresponse, hsess, hdrop, htype, hsize, hlen, h9]
  rw [if_neg (by omega)]

theorem unpackresponse_part (hs : session < 2 ^ 32) (more : Bool) (s : Bytes) :
    lunpackresponse (responseHead session more ++ s) = some ⟨true, session, .data s, more⟩ := by
  rw [responseHead, List.append_assoc]
  cases more with
  | true => exact unpackresponse_eq hs 3 s
  | false => exact unpackresponse_eq hs 4 s

/-- A response in one frame. -/
theorem response_frame (hs : session < 2 ^ 32) (ok : Bool) (hmsg : msg.length ≤ MULTI_PART) :
    ∃ f, frame (msg.length + 5) (Endian.le 4 session ++ (if ok then 1 else 0) :: msg) = .ok f ∧
      Carries lunpackresponse session msg [f] [⟨ok, session, .data msg, false⟩] := by
  have hM : MULTI_PART = 0x8000 := rfl
  have hT : TEMP_LENGTH = 0x8200 := rfl
  have hlen : (Endian.le 4 session ++ (if ok then 1 else 0) :: msg).length = msg.length + 5 := by
    simp only [List.length_append, List.length_cons, Endian.le_length]; omega
  obtain ⟨f, hf, hfits, hun⟩ := frame_spec (by omega) hlen.symm
  refine ⟨f, hf, Frames.single hfits ?_ rfl rfl, rfl⟩
  rw [hun, Option.bind_some, unpackresponse_eq hs]
  cases ok <;> rfl

/-- The frames of a response. -/
def Response.frames : Response → List Bytes
  | .string f => [f]
  | .table fs => fs

theorem response_carried (hs : session < 2 ^ 32) (hmsg : msg.length < 2 ^ 31) :
    ∃ r us, lpackresponse session true msg = .ok r ∧ Carries lunpackresponse session msg r.frames us ∧
      ∀ u ∈ us, u.head = true := by
  have hT : TEMP_LENGTH = 0x8200 := rfl
  by_cases hsz : MULTI_PART < msg.length
  · have hlen : (Endian.le 4 session ++ 2 :: Endian.le 4 msg.length).length = 9 := by
      simp only [List.length_append, List.length_cons, Endian.le_length]
    obtain ⟨f, hf, hfits, hun⟩ := frame_spec (by omega) hlen.symm
    have hsize : unpackUint32 (Endian.le 4 msg.length) 0 = msg.length :=
      unpackUint32_le (List.append_nil _).symm (a := []) rfl (by omega)
    have hfirst : (unframe f).bind lunpackresponse = some ⟨true, session, .size msg.length, true⟩ := by
      rw [hun, Option.bind_some, unpackresponse_eq hs]
      simp only [Endian.le_length, hsize]
      rfl
    have hhead : ∀ more, (responseHead session more).length = 5 := fun more => by simp [responseHead]
    obtain ⟨fs, us, hfs, hcarries, hok⟩ := carries_parts hhead (unpackresponse_part hs) (by omega) hmsg hfits hfirst
    refine ⟨.table (f :: fs), _, ?_, hcarries, List.forall_mem_cons.mpr ⟨rfl, hok⟩⟩
    rw [lpackresponse, if_pos ⟨rfl, hsz⟩, hf, hfs]
    rfl
  · obtain ⟨f, hf, hcarries⟩ := response_frame hs true (Nat.not_lt.mp hsz)
    refine ⟨.string f, _, ?_, hcarries, List.forall_mem_singleton.mpr rfl⟩
    rw [lpackresponse, if_neg (fun h => hsz h.2)]
    simp only [if_neg hsz, if_true] at hf ⊢
    rw [hf]
    rfl

theorem error_carried (hs : session < 2 ^ 32) (msg : Bytes) :
    ∃ f, lpackresponse session false msg = .ok (.string f) ∧
      Carries lunpackresponse session (msg.take MULTI_PART) [f] [⟨false, session, .data (msg.take MULTI_PART), false⟩] := by
  have htake : (if MULTI_PART < msg.length then msg.take MULTI_PART else msg) = msg.take MULTI_PART := by
    split
    · rfl
    · rename_i hsz
      exact (List.take_of_length_le (Nat.not_lt.mp hsz)).symm
  obtain ⟨f, hf, hcarries⟩ := response_frame hs false (List.length_take_le MULTI_PART msg)
  refine ⟨f, ?_, hcarries⟩
  rw [lpackresponse, if_neg (fun h => Bool.false_ne_true h.1)]
  simp only [htake, hf, bind, Except.bind]

end RoundTrip

theorem cluster_roundtrip {session : Nat} (hpos : 0 < session) (hs : session < 2 ^ 31) {msg : Bytes}
    (hmsg : msg.length < 2 ^ 31) :
    (∀ addr : Addr, addr.Ok → ∃ first next padding us, lpackrequest addr session (some msg) = .ok (first, next, padding) ∧
      Carries (fun b => (lunpackrequest b).toOption) session msg (first :: padding.getD []) us ∧
      us.head?.bind Unpacked.head = some addr) ∧
    (∃ r us, lpackresponse session true msg = .ok r ∧ Carries lunpackresponse session msg r.frames us ∧
      ∀ u ∈ us, u.head = true) ∧
    (∃ f, lpackresponse session false msg = .ok (.string f) ∧
      Carries lunpackresponse session (msg.take 0x8000) [f] [⟨false, session, .data (msg.take 0x8000), false⟩]) :=
  ⟨fun _ h => request_carried h hpos hs hmsg, response_carried (by omega) hmsg, error_carried (by omega) msg⟩

theorem cluster_roundtrip_hello :
    (∀ addr : Addr, addr.Ok → ∃ first next padding us, lpackrequest addr (7 : Nat) (some [104, 105]) = .ok (first, next, padding) ∧
      Carries (fun b => (lunpackrequest b).toOption) 7 [104, 105] (first :: padding.getD []) us ∧
      us.head?.bind Unpacked.head = some addr) ∧
    (∃ r us, lpackresponse 7 true [104, 105] = .ok r ∧ Carries lunpackresponse 7 [104, 105] r.frames us ∧
      ∀ u ∈ us, u.head = true) ∧
    (∃ f, lpackresponse 7 false [104, 105] = .ok (.string f) ∧
      Carries lunpackresponse 7 ([104, 105].take 0x8000) [f] [⟨false, 7, .data ([104, 105].take 0x8000), false⟩]) :=
  cluster_roundtrip (Nat.succ_pos 6) (by omega) (by simp)

end Cluster
end Skynet
