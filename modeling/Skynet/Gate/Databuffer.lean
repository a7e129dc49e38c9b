import Skynet.Lib.Chunks
import Skynet.Lib.Endian
import Skynet.Seri.Block

/-!
# Skynet.Gate.Databuffer

The buffer of a connection of the gate (`databuffer.h`).

* A message has the bytes of its block; the pool that the messages are taken from is not modelled.
* There is no result where an assertion fails, a NULL pointer is followed or a block is read past its end.

* `Holds` : what a buffer has to do with the bytes that have not been read.
-/

namespace Skynet
namespace ServiceGate

open Seri (toInt32)
open Chunks (blockAt blockAt_eq)

abbrev Bytes := List UInt8

structure Message where
  buffer : Bytes
  size : Int
deriving Repr, DecidableEq

/-- `struct databuffer`, with the list from `head` on. -/
structure Databuffer where
  header : Int
  offset : Int
  size : Int
  messages : List Message
deriving Repr, DecidableEq

def databufferInit : Databuffer := ⟨0, 0, 0, []⟩

/-- The loop of `databuffer_read`. -/
def readLoop : List Message → Int → Int → Bytes → Option (Bytes × Int × List Message)
  | [], _, _, _ => none
  | current :: rest, offset, sz, buffer =>
    let bsz := current.size - offset
    if sz < bsz then (blockAt current.buffer offset sz).map fun s => (buffer ++ s, offset + sz, current :: rest)
    else if bsz = sz then (blockAt current.buffer offset sz).map fun s => (buffer ++ s, 0, rest)
    else (blockAt current.buffer offset bsz).bind fun s => readLoop rest 0 (sz - bsz) (buffer ++ s)

def databufferRead (db : Databuffer) (sz : Int) : Option (Bytes × Databuffer) :=
  if db.size < sz then none
  else (readLoop db.messages db.offset sz []).map fun r =>
    (r.1, { db with size := toInt32 (db.size - sz), offset := r.2.1, messages := r.2.2 })

def databufferPush (db : Databuffer) (data : Bytes) : Databuffer :=
  { db with messages := db.messages ++ [⟨data, toInt32 data.length⟩], size := toInt32 (db.size + toInt32 data.length) }

/-- The length that the bytes of a header stand for, as an `int`. -/
def headerOf (plen : Bytes) : Int := toInt32 (Endian.ofBe plen)

def databufferReadheader (db : Databuffer) (header_size : Nat) : Option (Int × Databuffer) :=
  let wait (db : Databuffer) := some (if db.size < db.header then (-1, db) else (db.header, db))
  if db.header = 0 then
    if db.size < header_size then some (-1, db)
    else (databufferRead db header_size).bind fun r => wait { r.2 with header := headerOf r.1 }
  else wait db

def databufferReset (db : Databuffer) : Databuffer := { db with header := 0 }

/-- `databuffer_clear` leaves no message. -/
def databufferClear (_ : Databuffer) : Databuffer := databufferInit

/-! ### The bytes that are not read -/

structure Holds (db : Databuffer) (s : Bytes) : Prop where
  unread : Chunks.Unread Message.buffer Message.size db.messages db.offset s
  size : db.size = s.length

theorem holds_init : Holds databufferInit [] := ⟨.nil, rfl⟩

theorem holds_push {db : Databuffer} {s data : Bytes} (h : Holds db s) (hdata : data ≠ [])
    (hs : s.length + data.length < 2 ^ 31) : Holds (databufferPush db data) (s ++ data) := by
  have hsz : toInt32 data.length = data.length := Seri.toInt32_of_lt (by omega)
  have hsize : toInt32 (db.size + data.length) = (s ++ data).length := by
    rw [h.size, List.length_append, ← Int.natCast_add, Seri.toInt32_of_lt hs]
  simp only [databufferPush, hsz, hsize]
  exact ⟨h.unread.push rfl hdata, rfl⟩

theorem readLoop_unread {messages : List Message} {o : Int} {s : Bytes}
    (h : Chunks.Unread Message.buffer Message.size messages o s) {n : Nat} (hpos : 0 < n) (hn : n ≤ s.length)
    (buffer : Bytes) :
    ∃ o' messages', readLoop messages o n buffer = some (buffer ++ s.take n, o', messages') ∧
      Chunks.Unread Message.buffer Message.size messages' o' (s.drop n) := by
  induction h generalizing n buffer with
  | nil => exact absurd hn (Nat.not_le_of_lt hpos)
  | @cons message rest o s hsize ho hrest ih =>
    have hbytes : message.size - o = (message.buffer.length - o : Nat) := by omega
    have hlen : (message.buffer.drop o).length = message.buffer.length - o := List.length_drop
    have hread : ∀ m : Nat, m ≤ message.buffer.length - o →
        blockAt message.buffer o m = some ((message.buffer.drop o).take m) :=
      fun m hm => blockAt_eq (by omega)
    rw [List.length_append, hlen] at hn
    simp only [readLoop, hbytes]
    split
    · rw [hread n (by omega), Option.map_some, List.take_append_of_le_length (by omega)]
      refine ⟨o + n, message :: rest, rfl, ?_⟩
      have := Chunks.Unread.skip hsize hrest (show o + n < message.buffer.length by omega)
      rwa [Int.natCast_add] at this
    · split
      · have heq : n = (message.buffer.drop o).length := by omega
        rw [hread n (by omega), Option.map_some, heq, List.take_left, List.drop_left, List.take_length]
        exact ⟨0, rest, rfl, hrest⟩
      · have hsub : (n : Int) - (message.buffer.length - o : Nat) = (n - (message.buffer.length - o) : Nat) := by omega
        obtain ⟨o', messages', hloop, hleft⟩ := ih (n := n - (message.buffer.length - o)) (by omega) (by omega)
          (buffer ++ message.buffer.drop o)
        refine ⟨o', messages', ?_, ?_⟩
        · have hfull : ∀ m, message.buffer.length - o ≤ m → (message.buffer.drop o).take m = message.buffer.drop o :=
            fun m hm => List.take_of_length_le (by omega)
          rw [hread _ (Nat.le_refl _), Option.bind_some, hfull _ (Nat.le_refl _), hsub, hloop, List.append_assoc,
            List.take_append, hlen, hfull n (by omega)]
        · rw [List.drop_append, hlen, List.drop_of_length_le (by omega), List.nil_append]
          exact hleft

theorem holds_read {db : Databuffer} {s : Bytes} (h : Holds db s) (hs : s.length < 2 ^ 31) {n : Nat} (hpos : 0 < n)
    (hn : n ≤ s.length) :
    ∃ db', databufferRead db n = some (s.take n, db') ∧ Holds db' (s.drop n) ∧ db'.header = db.header := by
  obtain ⟨o', messages', hloop, hleft⟩ := readLoop_unread h.unread hpos hn []
  have hsize : toInt32 (db.size - n) = (s.drop n).length := by
    rw [h.size, List.length_drop, ← Int.natCast_sub hn, Seri.toInt32_of_lt (by omega)]
  rw [databufferRead, if_neg (by rw [h.size]; omega), hloop, Option.map_some]
  exact ⟨_, rfl, ⟨hleft, hsize⟩, rfl⟩

/-- The beginning of a package: the bytes of its header, or the header and some bytes behind it. The left bytes are the
ones of the package, with its header. -/
structure Rep (header_size : Nat) (db : Databuffer) (left : Bytes) : Prop where
  positive : 0 < header_size
  small : left.length < 2 ^ 31
  fresh : db.header = 0 → Holds db left
  pending : db.header ≠ 0 →
    header_size ≤ left.length ∧ db.header = headerOf (left.take header_size) ∧ Holds db (left.drop header_size)

end ServiceGate
end Skynet
