import Mathlib.Data.List.Infix
import Mathlib.Data.List.Range
import Skynet.Lib.Chunks
import Skynet.Seri.Block

/-!
# Skynet.Socket.Buffer

The read buffer of a socket in `lua-socket.c`: a list of chunks, with an offset into the first one.

A node has the bytes of its chunk; the free nodes of the pool are not modelled. What comes from Lua as an integer, and
what is a `size_t`, is taken as an `int` where the code stores it in one. There is no result where the code reads
outside of a chunk or of the separator, or follows a NULL pointer.

* `Plain` : the operations on the unread bytes.
* `Holds` : what a buffer has to do with the unread bytes.
* `calls_plain` : while all sizes are an `int`, the operations have the results that they have on the unread bytes.
-/

namespace Skynet
namespace SocketBuffer

open Seri (toInt32)
open Chunks (blockAt blockAt_eq)

abbrev Bytes := List UInt8

/-! ### The buffer -/

structure Node where
  msg : Bytes
  sz : Int
deriving Repr, DecidableEq

/-- `struct socket_buffer`, with the list from `head` on. -/
structure Buffer where
  size : Int
  offset : Int
  nodes : List Node
deriving Repr, DecidableEq

/-- `lnewbuffer`. -/
def lnewbuffer : Buffer := ⟨0, 0, []⟩

/-- The answer is the size of the buffer. -/
def lpushbuffer (sb : Buffer) (msg : Bytes) : Int × Buffer :=
  let sz := toInt32 msg.length
  let size := toInt32 (sb.size + sz)
  (size, { sb with nodes := sb.nodes ++ [⟨msg, sz⟩], size := size })

/-- The loop of `pop_lstring`: the string, and the buffer from the node at hand on. -/
def popLoop (skip : Int) : List Node → Int → Int → Bytes → Option (Bytes × Int × List Node)
  -- the assertion fails
  | [], _, _, _ => none
  | current :: rest, offset, sz, b =>
    let bytes := current.sz - offset
    if sz ≤ bytes then
      (if skip < sz then blockAt current.msg offset (sz - skip) else some []).bind fun s =>
        if bytes = sz then some (b ++ s, 0, rest) else some (b ++ s, offset + sz, current :: rest)
    else
      let real_sz := sz - skip
      (if 0 < real_sz then blockAt current.msg offset (if real_sz < bytes then real_sz else bytes) else some []).bind
        fun s =>
        if sz - bytes = 0 then some (b ++ s, 0, rest) else popLoop skip rest 0 (sz - bytes) (b ++ s)

/-- `pop_lstring`. The size is for the caller to change. -/
def pop_lstring (sb : Buffer) (sz skip : Int) : Option (Bytes × Buffer) :=
  match sb.nodes with
  | [] => none
  | current :: rest =>
    if sz < current.sz - sb.offset then
      (blockAt current.msg sb.offset (sz - skip)).map fun s => (s, { sb with offset := sb.offset + sz })
    else if sz = current.sz - sb.offset then
      (blockAt current.msg sb.offset (sz - skip)).map fun s => (s, { sb with offset := 0, nodes := rest })
    else
      (popLoop skip (current :: rest) sb.offset sz []).map fun r => (r.1, { sb with offset := r.2.1, nodes := r.2.2 })

/-- `sz` is an integer of Lua. The answer is the string or `nil`, and the size. -/
def lpopbuffer (sb : Buffer) (sz : Int) : Option ((Option Bytes × Int) × Buffer) :=
  let sz := toInt32 sz
  if sb.size < sz ∨ sz = 0 then some ((none, sb.size), sb)
  else
    (pop_lstring sb sz 0).map fun r =>
      let sb := { r.2 with size := toInt32 (r.2.size - sz) }
      ((some r.1, sb.size), sb)

/-- All nodes are back in the pool; `return_free_node` sets the offset to 0. -/
def lclearbuffer (sb : Buffer) : Buffer := ⟨0, if sb.nodes = [] then sb.offset else 0, []⟩

/-- The loop of `lreadall`. -/
def readallLoop : List Node → Int → Bytes → Option Bytes
  | [], _, b => some b
  | current :: rest, offset, b =>
    (blockAt current.msg offset (current.sz - offset)).bind fun s => readallLoop rest 0 (b ++ s)

def lreadall (sb : Buffer) : Option (Bytes × Buffer) :=
  (readallLoop sb.nodes sb.offset []).map fun s => (s, lclearbuffer sb)

/-- Whether the bytes are the same. -/
def memcmp (a : Bytes) (i : Int) (b : Bytes) (j n : Int) : Option Bool :=
  (blockAt a i n).bind fun x => (blockAt b j n).map fun y => x == y

/-- `check_sep`, from a node on. What is left of the separator begins at `j`. -/
def check_sep (sep : Bytes) : List Node → Int → Int → Int → Option Bool
  | [], _, _, _ => none
  | node :: next, start, j, seplen =>
    let sz := node.sz - start
    if seplen ≤ sz then memcmp node.msg start sep j seplen
    else
      (if 0 < sz then memcmp node.msg start sep j sz else some true).bind fun same =>
        if same then check_sep sep next 0 (j + sz) (seplen - sz) else some false

/-- The loop of `lreadline`, with the rounds that are left. The answer is where the separator begins. -/
def searchLoop (sep : Bytes) (seplen : Int) : Nat → Nat → List Node → Int → Int → Option (Option Nat)
  | 0, _, _, _, _ => some none
  | rounds + 1, i, current, start, bytes =>
    (check_sep sep current start 0 seplen).bind fun found =>
      if found then some (some i)
      else if bytes - 1 = 0 then
        match current.tail with
        | [] => some none
        | node :: next => searchLoop sep seplen rounds (i + 1) (node :: next) 0 node.sz
      else searchLoop sep seplen rounds (i + 1) current (start + 1) (bytes - 1)

inductive Line where
  /-- There is no result. -/
  | none
  | found
  | line (s : Bytes)
deriving Repr, DecidableEq

/-- `check` if the second argument is not the pool. The length of the separator is a `size_t`, and so is the sum of it
and `i`. -/
def lreadline (sb : Buffer) (check : Bool) (sep : Bytes) : Option (Line × Buffer) :=
  match sb.nodes with
  | [] => some (.none, sb)
  | current :: rest =>
    let seplen := toInt32 sep.length
    let rounds := (sb.size - seplen + 1).toNat
    match searchLoop sep seplen rounds 0 (current :: rest) sb.offset (current.sz - sb.offset) with
    | none => none
    | some none => some (.none, sb)
    | some (some i) =>
      if check then some (.found, sb)
      else
        let sz := toInt32 (i + sep.length)
        (pop_lstring sb sz seplen).map fun r => (.line r.1, { r.2 with size := toInt32 (r.2.size - sz) })

/-! ### The plain bytes -/

namespace Plain

/-- Where the separator occurs first. -/
def first (sep s : Bytes) : Option Nat :=
  (List.range' 0 (s.length + 1 - sep.length)).find? fun i => (s.drop i).take sep.length == sep

def pop (s : Bytes) (n : Nat) : Option Bytes × Bytes :=
  if s.length < n ∨ n = 0 then (none, s) else (some (s.take n), s.drop n)

def readline (s : Bytes) (check : Bool) (sep : Bytes) : Line × Bytes :=
  match if s = [] then none else first sep s with
  | none => (.none, s)
  | some i => if check then (.found, s) else (.line (s.take i), s.drop (i + sep.length))

end Plain

/-! ### Runs -/

inductive Op where
  | push (msg : Bytes)
  | pop (n : Nat)
  | readline (check : Bool) (sep : Bytes)
  | readall
  | clear
deriving Repr, DecidableEq

inductive Result where
  | size (n : Int)
  /-- A string or `nil`, and the size. -/
  | popped (s : Option Bytes) (n : Int)
  | line (l : Line)
  | all (s : Bytes)
  | cleared
deriving Repr, DecidableEq

def call (sb : Buffer) : Op → Option (Result × Buffer)
  | .push msg => some (.size (lpushbuffer sb msg).1, (lpushbuffer sb msg).2)
  | .pop n => (lpopbuffer sb n).map fun r => (.popped r.1.1 r.1.2, r.2)
  | .readline check sep => (lreadline sb check sep).map fun r => (.line r.1, r.2)
  | .readall => (lreadall sb).map fun r => (.all r.1, r.2)
  | .clear => some (.cleared, lclearbuffer sb)

def calls (sb : Buffer) : List Op → Option (List Result × Buffer)
  | [] => some ([], sb)
  | op :: ops => (call sb op).bind fun r => (calls r.2 ops).map fun rs => (r.1 :: rs.1, rs.2)

/-- The operation on the unread bytes. -/
def plain (s : Bytes) : Op → Result × Bytes
  | .push msg => (.size (s ++ msg).length, s ++ msg)
  | .pop n => (.popped (Plain.pop s n).1 (Plain.pop s n).2.length, (Plain.pop s n).2)
  | .readline check sep => (.line (Plain.readline s check sep).1, (Plain.readline s check sep).2)
  | .readall => (.all s, [])
  | .clear => (.cleared, [])

def plains (s : Bytes) : List Op → List Result × Bytes
  | [] => ([], s)
  | op :: ops => ((plain s op).1 :: (plains (plain s op).2 ops).1, (plains (plain s op).2 ops).2)

/-- The sizes are an `int`. A chunk is not empty. -/
def Sized (s : Bytes) : Op → Prop
  | .push msg => msg ≠ [] ∧ (s ++ msg).length < 2 ^ 31
  | .pop n => n < 2 ^ 31
  | .readline _ sep => sep.length < 2 ^ 31
  | .readall => True
  | .clear => True

instance (s : Bytes) : DecidablePred (Sized s)
  | .push _ => inferInstanceAs (Decidable (_ ∧ _))
  | .pop _ => inferInstanceAs (Decidable (_ < _))
  | .readline _ _ => inferInstanceAs (Decidable (_ < _))
  | .readall => isTrue trivial
  | .clear => isTrue trivial

def AllSized (s : Bytes) : List Op → Prop
  | [] => True
  | op :: ops => Sized s op ∧ AllSized (plain s op).2 ops

instance decidableAllSized : (s : Bytes) → (ops : List Op) → Decidable (AllSized s ops)
  | _, [] => isTrue trivial
  | s, op :: ops => @instDecidableAnd _ _ (inferInstance : Decidable (Sized s op))
    (decidableAllSized (plain s op).2 ops)

/-! ### The unread bytes of a buffer -/

abbrev Unread : List Node → Int → Bytes → Prop := Chunks.Unread Node.msg Node.sz

/-! ### The operations -/

theorem popLoop_unread {nodes : List Node} {o : Int} {s : Bytes} (h : Unread nodes o s) (skip : Nat) {n : Nat}
    (hpos : 0 < n) (hn : n ≤ s.length) (b : Bytes) :
    ∃ o' nodes', popLoop skip nodes o n b = some (b ++ s.take (n - skip), o', nodes') ∧
      Unread nodes' o' (s.drop n) := by
  induction h generalizing n b with
  | nil => exact absurd hn (Nat.not_le_of_lt hpos)
  | @cons node next o s hsize ho hnext ih =>
    obtain ⟨msg, sz⟩ := node
    obtain rfl : sz = msg.length := hsize
    simp only at ho hn ⊢
    have hbytes : (msg.length : Int) - o = (msg.length - o : Nat) := by omega
    have hlen : (msg.drop o).length = msg.length - o := List.length_drop
    have hread : ∀ m : Nat, m ≤ msg.length - o → blockAt msg o m = some ((msg.drop o).take m) :=
      fun m hm => blockAt_eq (by omega)
    simp only [popLoop, hbytes]
    by_cases hle : n ≤ msg.length - o
    · have htake : (msg.drop o ++ s).take (n - skip) = (msg.drop o).take (n - skip) :=
        List.take_append_of_le_length (by omega)
      have hs : (if (skip : Int) < n then blockAt msg o (n - skip) else some []) =
          some ((msg.drop o ++ s).take (n - skip)) := by
        rw [htake]
        split
        · rw [← hread (n - skip) (by omega)]
          congr 1
          omega
        · rw [show n - skip = 0 by omega, List.take_zero]
      rw [if_pos (by omega), hs]
      rw [Option.bind_some]
      by_cases heq : msg.length - o = n
      · refine ⟨0, next, if_pos (by omega), ?_⟩
        rw [← heq, ← hlen, List.drop_left]
        exact hnext
      · refine ⟨(o + n : Nat), ⟨msg, msg.length⟩ :: next, ?_, ?_⟩
        · rw [if_neg (by omega), Int.natCast_add]
        · exact Chunks.Unread.skip rfl hnext (by simp only; omega)
    · have hs : (if 0 < (n : Int) - skip then
            blockAt msg o (if (n : Int) - skip < (msg.length - o : Nat) then n - skip else (msg.length - o : Nat))
          else some []) = some ((msg.drop o).take (n - skip)) := by
        split
        · split
          · rw [← hread (n - skip) (by omega)]
            congr 1
            omega
          · rw [hread _ (Nat.le_refl _), ← hlen, List.take_length, List.take_of_length_le (by omega)]
        · rw [show n - skip = 0 by omega, List.take_zero]
      have hsub : (n : Int) - (msg.length - o : Nat) = (n - (msg.length - o) : Nat) := by omega
      rw [List.length_append, hlen] at hn
      obtain ⟨o', nodes', hloop, hrest⟩ := ih (n := n - (msg.length - o)) (by omega) (by omega)
        (b ++ (msg.drop o).take (n - skip))
      refine ⟨o', nodes', ?_, ?_⟩
      · rw [if_neg (by omega), hs]
        rw [Option.bind_some]
        rw [if_neg (by omega), hsub, hloop, List.append_assoc, List.take_append, hlen]
        congr 5
        omega
      · rw [List.drop_append, hlen, List.drop_of_length_le (by omega), List.nil_append]
        exact hrest

theorem pop_lstring_unread {sb : Buffer} {s : Bytes} (h : Unread sb.nodes sb.offset s) {n skip : Nat} (hne : s ≠ [])
    (hn : n ≤ s.length) (hskip : skip ≤ n) :
    ∃ sb', pop_lstring sb n skip = some (s.take (n - skip), sb') ∧ Unread sb'.nodes sb'.offset (s.drop n) ∧
      sb'.size = sb.size := by
  obtain ⟨size, offset, nodes⟩ := sb
  simp only at h
  have hloop := fun hpos => popLoop_unread h skip (n := n) hpos hn []
  cases h with
  | nil => exact absurd rfl hne
  | @cons node next o s hsize ho hnext =>
    obtain ⟨msg, sz⟩ := node
    obtain rfl : sz = msg.length := hsize
    simp only at ho hn ⊢
    have hlen : (msg.drop o).length = msg.length - o := List.length_drop
    have hread : n ≤ msg.length - o → blockAt msg o ((n : Int) - skip) = some ((msg.drop o ++ s).take (n - skip)) := by
      intro hle
      rw [List.take_append_of_le_length (by omega), ← blockAt_eq (by omega)]
      congr 1
      omega
    simp only [pop_lstring]
    split
    · rw [hread (by omega)]
      refine ⟨_, rfl, ?_, rfl⟩
      exact Chunks.Unread.skip rfl hnext (by simp only; omega)
    · split
      · rename_i heq
        rw [hread (by omega)]
        refine ⟨_, rfl, ?_, rfl⟩
        rw [show n = (msg.drop o).length by omega, List.drop_left]
        exact hnext
      · obtain ⟨o', nodes', hloop, hrest⟩ := hloop (by omega)
        rw [hloop, List.nil_append]
        exact ⟨_, rfl, hrest, rfl⟩

theorem readallLoop_unread {nodes : List Node} {o : Int} {s : Bytes} (h : Unread nodes o s) (b : Bytes) :
    readallLoop nodes o b = some (b ++ s) := by
  induction h generalizing b with
  | nil => rw [readallLoop, List.append_nil]
  | @cons node next o s hsize ho _ ih =>
    obtain ⟨msg, sz⟩ := node
    obtain rfl : sz = msg.length := hsize
    simp only at ho ⊢
    have hread : blockAt msg o ((msg.length : Int) - o) = some (msg.drop o) := by
      rw [show (msg.length : Int) - o = (msg.length - o : Nat) by omega, blockAt_eq (by omega),
        List.take_of_length_le (Nat.le_of_eq List.length_drop)]
    simp only [readallLoop, hread, Option.bind_some]
    rw [ih, List.append_assoc]

/-! ### The search -/

theorem memcmp_eq {a b : Bytes} {i j n : Nat} (ha : i + n ≤ a.length) (hb : j + n ≤ b.length) :
    memcmp a i b j n = some ((a.drop i).take n == (b.drop j).take n) := by
  rw [memcmp, blockAt_eq ha, blockAt_eq hb, Option.bind_some, Option.map_some]

theorem take_beq_append {x y s t : Bytes} (h : x.length = y.length) : (x ++ s == y ++ t) = ((x == y) && (s == t)) := by
  rw [Bool.eq_iff_iff, Bool.and_eq_true, beq_iff_eq, beq_iff_eq, beq_iff_eq]
  exact ⟨fun heq => List.append_inj heq h, fun heq => by rw [heq.1, heq.2]⟩

/-- The comparison goes over the ends of chunks. -/
theorem check_sep_unread {nodes : List Node} {o : Int} {s : Bytes} (h : Unread nodes o s) (hne : nodes ≠ [])
    {sep : Bytes}
    {j k : Nat} (hsep : j + k = sep.length) (hk : k ≤ s.length) :
    check_sep sep nodes o j k = some (s.take k == sep.drop j) := by
  induction h generalizing j k with
  | nil => exact absurd rfl hne
  | @cons node next o s hsize ho hnext ih =>
    obtain ⟨msg, sz⟩ := node
    obtain rfl : sz = msg.length := hsize
    simp only at ho hk ⊢
    have hbytes : (msg.length : Int) - o = (msg.length - o : Nat) := by omega
    have hlen : (msg.drop o).length = msg.length - o := List.length_drop
    simp only [check_sep, hbytes]
    split
    · have hall : (sep.drop j).take k = sep.drop j := List.take_of_length_le (by rw [List.length_drop]; omega)
      rw [memcmp_eq (by omega) (by omega), hall, List.take_append_of_le_length (by omega)]
    · have hcut : (sep.drop j).take (msg.length - o) ++ sep.drop (j + (msg.length - o)) = sep.drop j := by
        rw [← List.drop_drop, List.take_append_drop]
      have hsame : ((msg.drop o).take (msg.length - o)).length = ((sep.drop j).take (msg.length - o)).length := by
        rw [List.length_take, List.length_take, List.length_drop, List.length_drop]
        omega
      have htake : (msg.drop o ++ s).take k = (msg.drop o).take (msg.length - o) ++ s.take (k - (msg.length - o)) := by
        have hfull : ∀ m, msg.length - o ≤ m → (msg.drop o).take m = msg.drop o :=
          fun m hm => List.take_of_length_le (by omega)
        rw [List.take_append, hlen, hfull k (by omega), hfull _ (Nat.le_refl _)]
      have hlong : k - (msg.length - o) ≤ s.length := by
        rw [List.length_append] at hk
        omega
      have hcmp : ((msg.drop o ++ s).take k == sep.drop j) =
          (((msg.drop o).take (msg.length - o) == (sep.drop j).take (msg.length - o)) &&
            (s.take (k - (msg.length - o)) == sep.drop (j + (msg.length - o)))) := by
        rw [htake, ← take_beq_append hsame, hcut]
      rw [if_pos (by omega), memcmp_eq (by omega) (by omega), Option.bind_some, hcmp]
      cases hx : (msg.drop o).take (msg.length - o) == (sep.drop j).take (msg.length - o) with
      | false => rfl
      | true =>
        have hnext' : next ≠ [] := by
          rintro rfl
          obtain ⟨-, rfl⟩ := hnext.nodes_nil
          rw [List.length_nil] at hlong
          omega
        have hrest := ih hnext' (j := j + (msg.length - o)) (k := k - (msg.length - o)) (by omega) hlong
        rw [if_pos rfl, Bool.true_and, ← hrest]
        congr 1
        omega

/-- The rounds look at the bytes from `i` on, the first one of which is at hand. -/
theorem searchLoop_unread {sep t : Bytes} (hsep : sep ≠ []) {rounds i : Nat}
    (hrounds : i + rounds + sep.length ≤ t.length + 1)
    {node : Node} {next : List Node} {o : Int} (h : Unread (node :: next) o (t.drop i)) :
    searchLoop sep sep.length rounds i (node :: next) o (node.sz - o) =
      some ((List.range' i rounds).find? fun m => (t.drop m).take sep.length == sep) := by
  have hpos := List.length_pos_iff.mpr hsep
  induction rounds generalizing i node next o with
  | zero => rfl
  | succ rounds ih =>
    have hcheck : check_sep sep (node :: next) o 0 sep.length = some ((t.drop i).take sep.length == sep.drop 0) :=
      check_sep_unread h (List.cons_ne_nil _ _) (Nat.zero_add sep.length) (by rw [List.length_drop]; omega)
    rw [searchLoop, List.range'_succ, List.find?_cons, hcheck, Option.bind_some, List.drop_zero]
    cases hfound : (t.drop i).take sep.length == sep with
    | true => rfl
    | false =>
      rw [if_neg Bool.false_ne_true]
      have hadv := h.advance
      rw [List.drop_drop] at hadv
      obtain ⟨hlast, hnext⟩ | ⟨hlast, hnext⟩ := hadv
      · rw [if_pos hlast]
        cases next with
        | nil =>
          have hend := congrArg List.length hnext.nodes_nil.2
          rw [List.length_drop, List.length_nil] at hend
          have hzero : rounds = 0 := by omega
          rw [hzero]
          rfl
        | cons node' next =>
          have := ih (by omega) hnext
          rw [Int.sub_zero] at this
          exact this
      · rw [if_neg hlast, ← ih (by omega) hnext]
        congr 1
        omega

/-! ### Each operation -/

/-- The buffer holds the unread bytes, and its size is their number. -/
structure Holds (sb : Buffer) (s : Bytes) : Prop where
  unread : Unread sb.nodes sb.offset s
  size : sb.size = s.length

theorem Holds.small {sb : Buffer} {s : Bytes} (h : Holds sb s) (hs : s.length < 2 ^ 31) :
    toInt32 sb.size = sb.size := by
  rw [h.size, Seri.toInt32_of_lt hs]

theorem holds_new : Holds lnewbuffer [] := ⟨.nil, rfl⟩

theorem holds_push {sb : Buffer} {s msg : Bytes} (h : Holds sb s) (hmsg : msg ≠ []) (hs : (s ++ msg).length < 2 ^ 31) :
    (lpushbuffer sb msg).1 = (s ++ msg).length ∧ Holds (lpushbuffer sb msg).2 (s ++ msg) := by
  have hlen : (s ++ msg).length = s.length + msg.length := List.length_append
  have hsz : toInt32 msg.length = msg.length := Seri.toInt32_of_lt (by omega)
  have hsize : toInt32 (sb.size + msg.length) = (s ++ msg).length := by
    rw [h.size, hlen, ← Int.natCast_add, Seri.toInt32_of_lt (by omega)]
  simp only [lpushbuffer, hsz, hsize, true_and]
  exact ⟨h.unread.push rfl hmsg, rfl⟩

theorem toInt32_sub {s : Bytes} {n : Nat} (hs : s.length < 2 ^ 31) (hn : n ≤ s.length) :
    toInt32 ((s.length : Int) - n) = (s.drop n).length := by
  rw [List.length_drop, ← Int.natCast_sub hn, Seri.toInt32_of_lt (by omega)]

/-- `pop_lstring`, with the size that the caller takes off. -/
theorem holds_pop_lstring {sb : Buffer} {s : Bytes} (h : Holds sb s) (hs : s.length < 2 ^ 31) {n skip : Nat}
    (hne : s ≠ []) (hn : n ≤ s.length) (hskip : skip ≤ n) :
    ∃ sb', pop_lstring sb n skip = some (s.take (n - skip), sb') ∧ sb'.size = s.length ∧
      Holds { sb' with size := toInt32 (sb'.size - n) } (s.drop n) := by
  obtain ⟨sb', hpop, hunread, hsize⟩ := pop_lstring_unread h.unread hne hn hskip
  refine ⟨sb', hpop, hsize.trans h.size, hunread, ?_⟩
  rw [hsize, h.size, toInt32_sub hs hn]

theorem holds_pop {sb : Buffer} {s : Bytes} (h : Holds sb s) (hs : s.length < 2 ^ 31) {n : Nat} (hn : n < 2 ^ 31) :
    ∃ sb', lpopbuffer sb n = some (((Plain.pop s n).1, ((Plain.pop s n).2.length : Int)), sb') ∧
      Holds sb' (Plain.pop s n).2 := by
  have hsz : toInt32 n = n := Seri.toInt32_of_lt hn
  simp only [lpopbuffer, hsz, Plain.pop, h.size]
  by_cases hnil : s.length < n ∨ n = 0
  · rw [if_pos (by omega), if_pos hnil]
    exact ⟨sb, rfl, h⟩
  · rw [if_neg (by omega), if_neg hnil]
    have hne : s ≠ [] := by
      rintro rfl
      rw [List.length_nil] at hnil
      omega
    obtain ⟨sb', hpop, hsize, hrest⟩ := holds_pop_lstring h hs hne (by omega) (Nat.zero_le n)
    have hpop' : pop_lstring sb n 0 = some (s.take n, sb') := hpop
    rw [hpop', Option.map_some]
    have hsize' : toInt32 (sb'.size - n) = (s.drop n).length := hrest.size
    exact ⟨_, by rw [hsize'], hrest⟩

theorem holds_clear {sb : Buffer} {s : Bytes} (h : Holds sb s) : Holds (lclearbuffer sb) [] := by
  obtain ⟨size, offset, nodes⟩ := sb
  refine ⟨?_, rfl⟩
  cases nodes with
  | nil =>
    obtain rfl : offset = 0 := h.unread.nodes_nil.1
    exact .nil
  | cons node next => exact .nil

theorem holds_readall {sb : Buffer} {s : Bytes} (h : Holds sb s) :
    ∃ sb', lreadall sb = some (s, sb') ∧ Holds sb' [] := by
  refine ⟨_, ?_, holds_clear h⟩
  rw [lreadall, readallLoop_unread h.unread, List.nil_append, Option.map_some]

/-- Where `lreadline` finds the separator. -/
theorem search_eq {node : Node} {next : List Node} {o : Int} {s : Bytes} (h : Unread (node :: next) o s) (sep : Bytes) :
    searchLoop sep sep.length ((s.length : Int) - sep.length + 1).toNat 0 (node :: next) o (node.sz - o) =
      some (Plain.first sep s) := by
  have hpos := h.length_pos
  have hrounds : ((s.length : Int) - sep.length + 1).toNat = s.length + 1 - sep.length := by omega
  rw [hrounds, Plain.first]
  by_cases hsep : sep = []
  · -- the empty separator is found at once
    obtain ⟨n, hn⟩ : ∃ n, s.length + 1 - sep.length = n + 1 :=
      ⟨s.length - sep.length, by rw [hsep, List.length_nil]; omega⟩
    have hcheck : check_sep sep (node :: next) o 0 sep.length = some (s.take sep.length == sep.drop 0) :=
      check_sep_unread h (List.cons_ne_nil _ _) (Nat.zero_add sep.length) (by rw [hsep]; exact Nat.zero_le _)
    rw [hn, searchLoop, hcheck, List.range'_succ, List.find?_cons, hsep]
    rfl
  · by_cases hlong : sep.length ≤ s.length + 1
    · exact searchLoop_unread hsep (by omega) h
    · rw [show s.length + 1 - sep.length = 0 by omega]
      rfl

theorem first_le {sep s : Bytes} {i : Nat} (h : Plain.first sep s = some i) : i + sep.length ≤ s.length := by
  have hmem := List.mem_of_find?_eq_some h
  rw [List.mem_range'_1] at hmem
  omega

theorem holds_readline {sb : Buffer} {s : Bytes} (h : Holds sb s) (hs : s.length < 2 ^ 31) (check : Bool) {sep : Bytes}
    (hsep : sep.length < 2 ^ 31) :
    ∃ sb', lreadline sb check sep = some ((Plain.readline s check sep).1, sb') ∧
      Holds sb' (Plain.readline s check sep).2 := by
  have hseplen : toInt32 sep.length = sep.length := Seri.toInt32_of_lt hsep
  cases hnodes : sb.nodes with
  | nil =>
    have hunread := h.unread
    rw [hnodes] at hunread
    obtain ⟨-, rfl⟩ := hunread.nodes_nil
    exact ⟨sb, by simp [lreadline, hnodes, Plain.readline], h⟩
  | cons node next =>
    have hunread := h.unread
    rw [hnodes] at hunread
    have hne := List.length_pos_iff.mp hunread.length_pos
    have hsearch := search_eq hunread sep
    simp only [lreadline, hnodes, hseplen, h.size, hsearch, Plain.readline, if_neg hne]
    cases hfirst : Plain.first sep s with
    | none => exact ⟨sb, rfl, h⟩
    | some i =>
      have hle := first_le hfirst
      have hsz : toInt32 ((i : Int) + sep.length) = (i + sep.length : Nat) := by
        rw [← Int.natCast_add, Seri.toInt32_of_lt (by omega)]
      cases check with
      | true => exact ⟨sb, rfl, h⟩
      | false =>
        obtain ⟨sb', hpop, hsize, hrest⟩ := holds_pop_lstring h hs hne hle (Nat.le_add_left ..)
        rw [Nat.add_sub_cancel] at hpop
        simp only [hsz, hpop, Option.map_some, Bool.false_eq_true, if_false]
        exact ⟨_, rfl, hrest⟩

/-! ### Runs -/

theorem holds_call {sb : Buffer} {s : Bytes} (h : Holds sb s) (hs : s.length < 2 ^ 31) {op : Op} (hop : Sized s op) :
    ∃ sb', call sb op = some ((plain s op).1, sb') ∧ Holds sb' (plain s op).2 ∧ (plain s op).2.length < 2 ^ 31 := by
  cases op with
  | push msg =>
    obtain ⟨hres, hrest⟩ := holds_push h hop.1 hop.2
    exact ⟨_, by rw [call, hres, plain], hrest, hop.2⟩
  | pop n =>
    obtain ⟨sb', hpop, hrest⟩ := holds_pop h hs hop
    refine ⟨sb', by rw [call, hpop, Option.map_some, plain], hrest, ?_⟩
    simp only [plain, Plain.pop]
    split
    · exact hs
    · rw [List.length_drop]
      omega
  | readline check sep =>
    obtain ⟨sb', hline, hrest⟩ := holds_readline h hs check hop
    refine ⟨sb', by rw [call, hline, Option.map_some, plain], hrest, ?_⟩
    simp only [plain, Plain.readline]
    split
    · exact hs
    · split
      · exact hs
      · rw [List.length_drop]
        omega
  | readall =>
    obtain ⟨sb', hall, hrest⟩ := holds_readall h
    exact ⟨sb', by rw [call, hall, Option.map_some, plain], hrest, by simp [plain]⟩
  | clear => exact ⟨_, rfl, holds_clear h, by simp [plain]⟩

theorem holds_calls (ops : List Op) {sb : Buffer} {s : Bytes} (h : Holds sb s) (hs : s.length < 2 ^ 31)
    (hops : AllSized s ops) : ∃ sb', calls sb ops = some ((plains s ops).1, sb') ∧ Holds sb' (plains s ops).2 := by
  induction ops generalizing sb s with
  | nil => exact ⟨sb, rfl, h⟩
  | cons op ops ih =>
    obtain ⟨hop, hops⟩ := hops
    obtain ⟨sb₁, hcall, h₁, hs₁⟩ := holds_call h hs hop
    obtain ⟨sb₂, hcalls, h₂⟩ := ih h₁ hs₁ hops
    exact ⟨sb₂, by rw [calls, hcall, Option.bind_some, hcalls, Option.map_some, plains], h₂⟩

/-- A new buffer has the results that the operations have on the unread bytes. -/
theorem calls_plain (ops : List Op) (hops : AllSized [] ops) :
    ∃ sb, calls lnewbuffer ops = some ((plains [] ops).1, sb) ∧ Holds sb (plains [] ops).2 :=
  holds_calls ops holds_new (by decide) hops

/-- The separator 1, 2 begins in one chunk and ends in the next one. -/
theorem calls_plain_split : ∃ sb, calls lnewbuffer [.push [7, 1], .push [2, 8], .readline false [1, 2], .pop 1] =
    some ([.size 2, .size 4, .line (.line [7]), .popped (some [8]) 0], sb) ∧ Holds sb [] :=
  calls_plain [.push [7, 1], .push [2, 8], .readline false [1, 2], .pop 1] (by decide)

end SocketBuffer
end Skynet
