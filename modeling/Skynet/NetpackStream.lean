import Mathlib.Data.List.Nodup
import Mathlib.Data.List.Infix
import Skynet.Netpack

/-!
# Skynet.NetpackStream

The stream of a connection and what the queue makes of it.

* `parse`  : the packages of a byte stream, and the bytes after the last complete one.
* `Rep`    : a record, or none, stands for the bytes of a package that is not complete.
* `netpack_stream` : whatever the chunks and their order, each fd gets the packages of its stream.
-/

namespace Skynet
namespace Netpack

/-- The packages of a byte stream, and the bytes after the last complete one. -/
def parse (s : Bytes) : List Bytes × Bytes :=
  match s with
  | b0 :: b1 :: rest =>
    if rest.length < readSize b0 b1 then ([], b0 :: b1 :: rest)
    else
      let r := parse (rest.drop (readSize b0 b1))
      (rest.take (readSize b0 b1) :: r.1, r.2)
  | s => ([], s)
termination_by s.length
decreasing_by simp only [List.length_cons, List.length_drop]; omega

theorem parse_nil : parse [] = ([], []) := by rw [parse]; simp

theorem parse_single (b : UInt8) : parse [b] = ([], [b]) := by rw [parse]; simp

theorem parse_short {b0 b1 : UInt8} {rest : Bytes} (h : rest.length < readSize b0 b1) :
    parse (b0 :: b1 :: rest) = ([], b0 :: b1 :: rest) := by
  rw [parse, if_pos h]

theorem parse_pack {b0 b1 : UInt8} {rest : Bytes} (h : ¬rest.length < readSize b0 b1) :
    parse (b0 :: b1 :: rest) = (rest.take (readSize b0 b1) :: (parse (rest.drop (readSize b0 b1))).1,
      (parse (rest.drop (readSize b0 b1))).2) := by
  rw [parse, if_neg h]

/-- More bytes: the parse goes on from what was left. -/
theorem parse_append (a b : Bytes) :
    parse (a ++ b) = ((parse a).1 ++ (parse ((parse a).2 ++ b)).1, (parse ((parse a).2 ++ b)).2) := by
  induction a using parse.induct with
  | case1 b0 b1 rest h => rw [parse_short h]; rfl
  | case2 b0 b1 rest h ih =>
    have h' : ¬(rest ++ b).length < readSize b0 b1 := by rw [List.length_append]; omega
    rw [List.cons_append, List.cons_append, parse_pack h', parse_pack h,
      List.take_append_of_le_length (by omega), List.drop_append_of_le_length (by omega), ih]
    rfl
  | case3 s hs =>
    have hparse : parse s = ([], s) := by rw [parse]; exact hs
    rw [hparse]; rfl

/-! ### The chains -/

/-- The record of `fd`. -/
def record (q : Queue) (fd : Int) : Option Uncomplete := (q.hash (hashFd fd)).find? (·.id = fd)

/-- Each record is in the chain of its fd, and no fd has two. -/
structure ChainOk (q : Queue) : Prop where
  chain : ∀ h, ∀ uc ∈ q.hash h, hashFd uc.id = h
  nodup : ∀ h, ((q.hash h).map Uncomplete.id).Nodup

theorem unlink_spec (fd : Int) (l : List Uncomplete) (h : (l.map Uncomplete.id).Nodup) :
    unlink fd l = (l.find? (·.id = fd)).map fun uc => (uc, l.filter (·.id ≠ fd)) := by
  induction l with
  | nil => rfl
  | cons uc l ih =>
    rw [List.map_cons, List.nodup_cons] at h
    simp only [unlink]
    by_cases hid : uc.id = fd
    · have hall : l.filter (·.id ≠ fd) = l := by
        rw [List.filter_eq_self]
        intro x hx
        rw [decide_eq_true_iff]
        rintro rfl
        exact h.1 (by rw [hid]; exact List.mem_map_of_mem hx)
      rw [if_pos hid, List.find?_cons_of_pos (by simpa using hid), List.filter_cons_of_neg (by simpa using hid), hall]
      rfl
    · rw [if_neg hid, List.find?_cons_of_neg (by simpa using hid), List.filter_cons_of_pos (by simpa using hid), ih h.2]
      cases l.find? (·.id = fd) with
      | none => rfl
      | some found => rfl

theorem find?_filter_ne {fd fd' : Int} (hne : fd' ≠ fd) (l : List Uncomplete) :
    (l.filter (·.id ≠ fd)).find? (·.id = fd') = l.find? (·.id = fd') := by
  rw [List.find?_filter]
  congr 1
  funext uc
  by_cases h : uc.id = fd'
  · simp [h, hne]
  · simp [h]

/-- The queue without the record of `fd`. -/
def erase (q : Queue) (fd : Int) : Queue :=
  { q with hash := Function.update q.hash (hashFd fd) ((q.hash (hashFd fd)).filter (·.id ≠ fd)) }

theorem findUncomplete_spec {q : Queue} (h : ChainOk q) (fd : Int) :
    findUncomplete q fd = (record q fd).map fun uc => (uc, erase q fd) := by
  rw [findUncomplete, unlink_spec fd _ (h.nodup _)]
  unfold record
  cases (q.hash (hashFd fd)).find? (·.id = fd) with
  | none => rfl
  | some uc => rfl

theorem record_id {q : Queue} {fd : Int} {uc : Uncomplete} (h : record q fd = some uc) : uc.id = fd := by
  simpa using List.find?_some h

theorem erase_chainOk {q : Queue} (h : ChainOk q) (fd : Int) : ChainOk (erase q fd) := by
  constructor
  · intro k uc huc
    simp only [erase, Function.update_apply] at huc
    split at huc
    · rename_i hk
      rw [h.chain _ uc (List.mem_of_mem_filter huc), hk]
    · exact h.chain k uc huc
  · intro k
    simp only [erase, Function.update_apply]
    split
    · exact (h.nodup _).sublist (List.filter_sublist.map _)
    · exact h.nodup k

theorem record_erase (q : Queue) (fd fd' : Int) :
    record (erase q fd) fd' = if fd' = fd then none else record q fd' := by
  split
  · rename_i heq
    subst heq
    simp only [record, erase, Function.update_self, List.find?_filter]
    rw [List.find?_eq_none]
    intro uc _
    simp
  · rename_i hne
    simp only [record, erase, Function.update_apply]
    split
    · rename_i hk
      rw [find?_filter_ne hne, hk]
    · rfl

theorem link_chainOk {q : Queue} (h : ChainOk q) {uc : Uncomplete} (hnone : record q uc.id = none) :
    ChainOk (link q uc) := by
  constructor
  · intro k x hx
    simp only [link, Function.update_apply] at hx
    split at hx
    · rename_i hk
      rcases List.mem_cons.mp hx with rfl | hx
      · exact hk.symm
      · rw [h.chain _ x hx, hk]
    · exact h.chain k x hx
  · intro k
    simp only [link, Function.update_apply]
    split
    · rw [List.map_cons, List.nodup_cons]
      refine ⟨?_, h.nodup _⟩
      intro hmem
      obtain ⟨x, hx, hid⟩ := List.mem_map.mp hmem
      rw [record, List.find?_eq_none] at hnone
      exact hnone x hx (by simpa using hid)
    · exact h.nodup k

theorem record_link (q : Queue) (uc : Uncomplete) (fd : Int) :
    record (link q uc) fd = if fd = uc.id then some uc else record q fd := by
  split
  · rename_i heq
    subst heq
    simp [record, link]
  · rename_i hne
    simp only [record, link, Function.update_apply]
    split
    · rename_i hk
      rw [List.find?_cons_of_neg (by simpa using fun h => hne h.symm), hk]
    · rfl

/-! ### Records and the bytes they stand for -/

/-- No record stands for no bytes; a record for the first byte of a header, or for a header and the
bytes of the body that came. -/
def Rep : Option Uncomplete → Bytes → Prop
  | none, r => r = []
  | some uc, r =>
    (uc.read = -1 ∧ ∃ b, uc.header = b.toNat ∧ r = [b]) ∨
    (∃ b0 b1, uc.size = readSize b0 b1 ∧ uc.read = uc.buffer.length ∧ uc.buffer.length < uc.size ∧
      r = b0 :: b1 :: uc.buffer)

/-- `fd` is left with the bytes `r`, and nothing else changes in the chains. -/
structure Left (q : Queue) (fd : Int) (r : Bytes) (q' : Queue) : Prop where
  ok : ChainOk q'
  rep : Rep (record q' fd) r
  other : ∀ fd', fd' ≠ fd → record q' fd' = record q fd'

theorem left_link {q : Queue} (uc : Uncomplete) (h : ChainOk q) (hnone : record q uc.id = none) {r : Bytes}
    (hrep : Rep (some uc) r) : Left q uc.id r (link q uc) where
  ok := link_chainOk h hnone
  rep := by rw [record_link, if_pos rfl]; exact hrep
  other := by intro fd' hne; rw [record_link, if_neg hne]

theorem left_self {q : Queue} (h : ChainOk q) {fd : Int} (hnone : record q fd = none) : Left q fd [] q where
  ok := h
  rep := by rw [hnone]; rfl
  other := fun _ _ => rfl

theorem Left.of_hash {q₀ q q' : Queue} {fd : Int} {r : Bytes} (h : Left q fd r q') (hq : q.hash = q₀.hash) :
    Left q₀ fd r q' where
  ok := h.ok
  rep := h.rep
  other := by intro fd' hne; rw [h.other fd' hne, record, hq]; rfl

/-- A package of the connection `fd`, as it stands in the ring. -/
def packOf (fd : Int) (p : Bytes) : Option Pack := some { id := fd, buffer := p, size := p.length }

theorem pushData_holds {q : Queue} {xs : List (Option Pack)} (h : RingBuf.Holds q.ring xs) (fd : Int)
    {p : Bytes} {n : Nat} (hn : n = p.length) :
    RingBuf.Holds (pushData q fd p n).ring (xs ++ [packOf fd p]) := by
  subst hn
  exact RingBuf.push_holds (· + QUEUESIZE) h (Nat.lt_add_of_pos_right (by decide)) _

theorem pushData_chainOk {q : Queue} (h : ChainOk q) (fd : Int) (p : Bytes) (n : Nat) :
    ChainOk (pushData q fd p n) := ⟨h.chain, h.nodup⟩

/-- `push_more`: the packages of the bytes are pushed, and what is left gets a record. -/
theorem pushMore_spec (fuel : Nat) {q : Queue} {fd : Int} (buffer : Bytes) {xs : List (Option Pack)}
    (hfuel : buffer.length ≤ fuel) (hok : ChainOk q) (hnone : record q fd = none)
    (hring : RingBuf.Holds q.ring xs) :
    Left q fd (parse buffer).2 (pushMore fuel q fd buffer) ∧
    RingBuf.Holds (pushMore fuel q fd buffer).ring (xs ++ (parse buffer).1.map (packOf fd)) := by
  induction fuel generalizing q buffer xs with
  | zero =>
    have hnil : buffer = [] := List.eq_nil_of_length_eq_zero (by omega)
    subst hnil
    simp only [pushMore, parse_nil, List.map_nil, List.append_nil]
    exact ⟨left_self hok hnone, hring⟩
  | succ fuel ih =>
    match buffer, hfuel with
    | [], _ =>
      simp only [pushMore, parse_nil, List.map_nil, List.append_nil]
      exact ⟨left_self hok hnone, hring⟩
    | [b], _ =>
      simp only [pushMore, parse_single, List.map_nil, List.append_nil]
      exact ⟨left_link (headerRecord fd b) hok hnone (.inl ⟨rfl, b, rfl, rfl⟩), hring⟩
    | b0 :: b1 :: buffer, hfuel =>
      simp only [pushMore]
      split
      · rename_i hshort
        rw [parse_short hshort, List.map_nil, List.append_nil]
        exact ⟨left_link (bodyRecord fd (readSize b0 b1) buffer) hok hnone
          (.inr ⟨b0, b1, rfl, rfl, hshort, rfl⟩), hring⟩
      · rename_i hlong
        have hlen : readSize b0 b1 = (buffer.take (readSize b0 b1)).length := by
          rw [List.length_take]; omega
        have hring' := pushData_holds hring fd hlen
        have hok' := pushData_chainOk hok fd (buffer.take (readSize b0 b1)) (readSize b0 b1)
        rw [parse_pack hlong]
        split
        · obtain ⟨hleft, hholds⟩ := ih (buffer.drop (readSize b0 b1))
            (by rw [List.length_drop]; simp only [List.length_cons] at hfuel; omega) hok' hnone hring'
          refine ⟨hleft.of_hash rfl, ?_⟩
          rw [List.map_cons]
          rwa [List.append_assoc] at hholds
        · rename_i hempty
          have hnil : buffer.drop (readSize b0 b1) = [] := List.eq_nil_of_length_eq_zero (by omega)
          rw [hnil, parse_nil]
          exact ⟨(left_self hok' hnone).of_hash rfl, hring'⟩

/-- The packages `ps` of `fd` come out of `filter`, as its result or by way of the ring. -/
def Emits (fd : Int) (ps : List Bytes) (q : Queue) : FilterRes → Prop
  | .none => ps = [] ∧ RingBuf.Holds q.ring []
  | .data fd' msg size => fd' = fd ∧ ps = [msg.take size] ∧ RingBuf.Holds q.ring []
  | .more => RingBuf.Holds q.ring (ps.map (packOf fd))

/-- A chunk for a record whose header is known. -/
theorem fillUncomplete_spec {q : Queue} (uc : Uncomplete) (chunk : Bytes) {b0 b1 : UInt8} (hok : ChainOk q)
    (hnone : record q uc.id = none) (hring : RingBuf.Holds q.ring []) (hsize : uc.size = readSize b0 b1)
    (hread : uc.read = uc.buffer.length) (hle : uc.buffer.length ≤ uc.size) :
    Left q uc.id (parse (b0 :: b1 :: (uc.buffer ++ chunk))).2 (fillUncomplete q uc chunk).1 ∧
    Emits uc.id (parse (b0 :: b1 :: (uc.buffer ++ chunk))).1 (fillUncomplete q uc chunk).1
      (fillUncomplete q uc chunk).2 := by
  have htoNat : uc.read.toNat = uc.buffer.length := by rw [hread]; rfl
  simp only [fillUncomplete, htoNat, List.take_length]
  split
  · rename_i hshort
    have hp : (uc.buffer ++ chunk).length < readSize b0 b1 := by rw [List.length_append]; omega
    rw [parse_short hp]
    refine ⟨left_link { uc with buffer := uc.buffer ++ chunk, read := uc.read + chunk.length } hok hnone
      (.inr ⟨b0, b1, hsize, ?_, ?_, rfl⟩), rfl, hring⟩
    · simp only [List.length_append, hread]; push_cast; rfl
    · simp only [hsize]; exact hp
  · rename_i hlong
    have hp : ¬(uc.buffer ++ chunk).length < readSize b0 b1 := by rw [List.length_append]; omega
    have htake : (uc.buffer ++ chunk).take (readSize b0 b1) = uc.buffer ++ chunk.take (uc.size - uc.buffer.length) := by
      rw [List.take_append, List.take_of_length_le (by omega), hsize]
    have hdrop : (uc.buffer ++ chunk).drop (readSize b0 b1) = chunk.drop (uc.size - uc.buffer.length) := by
      rw [List.drop_append, List.drop_of_length_le (by omega), List.nil_append, hsize]
    have hlen : uc.size = (uc.buffer ++ chunk.take (uc.size - uc.buffer.length)).length := by
      rw [List.length_append, List.length_take]; omega
    rw [parse_pack hp, htake, hdrop]
    split
    · rename_i hall
      have hnil : chunk.drop (uc.size - uc.buffer.length) = [] := List.eq_nil_of_length_eq_zero hall
      rw [hnil, parse_nil]
      refine ⟨left_self hok hnone, rfl, ?_, hring⟩
      rw [List.take_of_length_le (Nat.le_of_eq hlen.symm)]
    · have hring' := pushData_holds hring uc.id hlen
      obtain ⟨hleft, hholds⟩ := pushMore_spec (chunk.drop (uc.size - uc.buffer.length)).length
        (chunk.drop (uc.size - uc.buffer.length)) (Nat.le_refl _)
        (pushData_chainOk hok uc.id _ _) hnone hring'
      exact ⟨hleft.of_hash rfl, hholds⟩

/-- A chunk for a connection without a record. -/
theorem filterFresh_spec {q : Option Queue} {fd : Int} {chunk : Bytes} (hchunk : chunk ≠ [])
    (hok : ChainOk (getQueue q)) (hnone : record (getQueue q) fd = none)
    (hring : RingBuf.Holds (getQueue q).ring []) :
    ∃ q' res, filterFresh q fd chunk = some (q', res) ∧
      Left (getQueue q) fd (parse chunk).2 (getQueue q') ∧ Emits fd (parse chunk).1 (getQueue q') res ∧
      (res = .more → q' ≠ none) := by
  match chunk, hchunk with
  | [b], _ =>
    refine ⟨_, _, rfl, ?_, ?_, nofun⟩
    · rw [parse_single]
      exact left_link (headerRecord fd b) hok hnone (.inl ⟨rfl, b, rfl, rfl⟩)
    · rw [parse_single]
      exact ⟨rfl, hring⟩
  | b0 :: b1 :: buffer, _ =>
    simp only [filterFresh]
    split
    · rename_i hshort
      refine ⟨_, _, rfl, ?_, ?_, nofun⟩
      · rw [parse_short hshort]
        exact left_link (bodyRecord fd (readSize b0 b1) buffer) hok hnone
          (.inr ⟨b0, b1, rfl, rfl, hshort, rfl⟩)
      · rw [parse_short hshort]
        exact ⟨rfl, hring⟩
    rename_i hlong
    split
    · rename_i hone
      have hnil : buffer.drop (readSize b0 b1) = [] := by rw [← hone]; simp
      refine ⟨_, _, rfl, ?_, ?_, nofun⟩
      · rw [parse_pack hlong, hnil, parse_nil]
        exact left_self hok hnone
      · rw [parse_pack hlong, hnil, parse_nil]
        exact ⟨rfl, rfl, hring⟩
    · have hlen : readSize b0 b1 = (buffer.take (readSize b0 b1)).length := by
        rw [List.length_take]; omega
      have hring' := pushData_holds hring fd hlen
      obtain ⟨hleft, hholds⟩ := pushMore_spec (buffer.drop (readSize b0 b1)).length
        (buffer.drop (readSize b0 b1)) (Nat.le_refl _) (pushData_chainOk hok fd _ _) hnone hring'
      rw [parse_pack hlong]
      exact ⟨_, _, rfl, hleft.of_hash rfl, hholds, nofun⟩

theorem Left.of_erase {q q' : Queue} {fd : Int} {r : Bytes} (h : Left (erase q fd) fd r q') : Left q fd r q' where
  ok := h.ok
  rep := h.rep
  other := by intro fd' hne; rw [h.other fd' hne, record_erase, if_neg hne]

/-- `filter_data_`: what is left of the connection's bytes and the chunk are parsed on. -/
theorem filterData_spec {q : Option Queue} {fd : Int} {chunk r : Bytes} (hchunk : chunk ≠ [])
    (hok : ChainOk (getQueue q)) (hrep : Rep (record (getQueue q) fd) r)
    (hring : RingBuf.Holds (getQueue q).ring []) :
    ∃ q' res, filterData q fd chunk = some (q', res) ∧
      Left (getQueue q) fd (parse (r ++ chunk)).2 (getQueue q') ∧
      Emits fd (parse (r ++ chunk)).1 (getQueue q') res ∧ (res = .more → q' ≠ none) := by
  cases hrec : record (getQueue q) fd with
  | none =>
    have hfind : (q.bind fun q => findUncomplete q fd) = none := by
      cases q with
      | none => rfl
      | some q =>
        rw [Option.bind_some, findUncomplete_spec (q := q) hok, show record q fd = none from hrec]; rfl
    rw [hrec] at hrep
    cases hrep
    rw [filterData, hfind]
    exact filterFresh_spec hchunk hok hrec hring
  | some uc =>
    cases q with
    | none => cases hrec
    | some q =>
      change ChainOk q at hok
      change record q fd = some uc at hrec
      change RingBuf.Holds q.ring [] at hring
      change Rep (record q fd) r at hrep
      have hid := record_id hrec
      subst hid
      have hfind : ((some q).bind fun q => findUncomplete q uc.id) = some (uc, erase q uc.id) := by
        rw [Option.bind_some, findUncomplete_spec hok, hrec]; rfl
      have hnone : record (erase q uc.id) uc.id = none := by rw [record_erase, if_pos rfl]
      rw [hrec] at hrep
      simp only [filterData, hfind]
      rcases hrep with ⟨hread, b0, hheader, rfl⟩ | ⟨b0, b1, hsize, hread, hlt, rfl⟩
      -- the record holds the first byte of a header: the chunk brings the second one
      · rw [if_pos (by rw [hread]; decide), if_neg (by rw [hread]; decide)]
        match chunk, hchunk with
        | b1 :: chunk, _ =>
          have hsz : b1.toNat ||| uc.header <<< 8 = readSize b0 b1 := by
            rw [hheader, readSize, Nat.or_comm]
          obtain ⟨hleft, hemit⟩ := fillUncomplete_spec
            { uc with size := b1.toNat ||| uc.header <<< 8, buffer := [], read := 0 } chunk
            (erase_chainOk hok uc.id) hnone hring hsz rfl (Nat.zero_le _)
          exact ⟨_, _, rfl, hleft.of_erase, hemit, fun _ => nofun⟩
      · rw [if_neg (by rw [hread]; omega)]
        obtain ⟨hleft, hemit⟩ := fillUncomplete_spec uc chunk (erase_chainOk hok uc.id) hnone hring hsize
          hread (Nat.le_of_lt hlt)
        exact ⟨_, _, rfl, hleft.of_erase, hemit, fun _ => nofun⟩

/-! ### The caller -/

theorem drain_spec (fuel : Nat) {q : Queue} {xs : List (Option Pack)} (h : RingBuf.Holds q.ring xs)
    (hfuel : xs.length ≤ fuel) :
    (drain fuel q).2 = xs ∧ (drain fuel q).1.hash = q.hash ∧ RingBuf.Holds (drain fuel q).1.ring [] := by
  induction fuel generalizing q xs with
  | zero =>
    have hnil : xs = [] := List.eq_nil_of_length_eq_zero (by omega)
    subst hnil
    exact ⟨rfl, rfl, h⟩
  | succ fuel ih =>
    cases xs with
    | nil =>
      have hpop : pop q = none := by rw [pop, RingBuf.pop_none h]
      rw [drain, hpop]
      exact ⟨rfl, rfl, h⟩
    | cons x xs =>
      obtain ⟨ring, hring, -, hholds⟩ := RingBuf.pop_holds h
      have hpop : pop q = some (x, { q with ring := ring }) := by rw [pop, hring]
      simp only [drain, hpop]
      obtain ⟨h1, h2, h3⟩ := ih (q := { q with ring := ring }) hholds (by simpa using hfuel)
      exact ⟨by rw [h1], h2, h3⟩

theorem deliverAll_spec (d : Int → List Bytes) (fd : Int) (ps : List Bytes) :
    deliverAll d (ps.map (packOf fd)) = Function.update d fd (d fd ++ ps) := by
  induction ps generalizing d with
  | nil => simp [deliverAll]
  | cons p ps ih =>
    simp only [List.map_cons, packOf, deliverAll]
    rw [ih, deliver, List.take_length]
    simp

theorem record_congr {q q' : Queue} (h : q.hash = q'.hash) (fd : Int) : record q fd = record q' fd := by
  rw [record, h]; rfl

/-- The state of the queue and its caller between events. -/
structure Inv (n : Net) : Prop where
  alive : n.aborted = false
  ok : ChainOk (getQueue n.q)
  empty : RingBuf.Holds (getQueue n.q).ring []
  rep : ∀ fd, Rep (record (getQueue n.q) fd) (parse (n.stream fd)).2
  delivered : ∀ fd, n.delivered fd = (parse (n.stream fd)).1

theorem newQueue_ok : ChainOk newQueue := ⟨by simp [newQueue], by simp [newQueue]⟩

theorem init_inv : Inv init where
  alive := rfl
  ok := newQueue_ok
  empty := RingBuf.empty_holds (by decide) _
  rep := by intro fd; rw [init, parse_nil]; rfl
  delivered := by intro fd; rw [init, parse_nil]

/-- A data event. -/
theorem data_inv {n n' : Net} {fd : Int} {chunk : Bytes} (h : Inv n) (hs : step n (.data fd chunk) = some n') :
    Inv n' := by
  simp only [step] at hs
  split at hs
  · cases hs
  rename_i hg
  have hchunk : chunk ≠ [] := fun h' => hg (.inr h')
  obtain ⟨q', res, hf, hleft, hemit, hmore⟩ := filterData_spec hchunk h.ok (h.rep fd) h.empty
  rw [hf] at hs
  cases hs
  have hparse := parse_append (n.stream fd) chunk
  have hrep : ∀ fd', Rep (record (getQueue q') fd')
      (parse (Function.update n.stream fd (n.stream fd ++ chunk) fd')).2 := by
    intro fd'
    by_cases hfd : fd' = fd
    · subst hfd
      rw [Function.update_self, hparse]
      exact hleft.rep
    · rw [Function.update_of_ne hfd, hleft.other fd' hfd]
      exact h.rep fd'
  have hdel : ∀ fd', Function.update n.delivered fd
      (n.delivered fd ++ (parse ((parse (n.stream fd)).2 ++ chunk)).1) fd' =
        (parse (Function.update n.stream fd (n.stream fd ++ chunk) fd')).1 := by
    intro fd'
    by_cases hfd : fd' = fd
    · subst hfd
      rw [Function.update_self, Function.update_self, hparse, h.delivered]
    · rw [Function.update_of_ne hfd, Function.update_of_ne hfd, h.delivered]
  cases res with
  | none =>
    obtain ⟨hps, hring⟩ := hemit
    refine ⟨h.alive, hleft.ok, hring, hrep, fun fd' => ?_⟩
    have := hdel fd'
    rwa [hps, List.append_nil, Function.update_eq_self] at this
  | data fd' msg size =>
    obtain ⟨rfl, hps, hring⟩ := hemit
    refine ⟨h.alive, hleft.ok, hring, hrep, fun fd' => ?_⟩
    have := hdel fd'
    rwa [hps] at this
  | more =>
    obtain ⟨q, rfl⟩ := Option.ne_none_iff_exists'.mp (hmore rfl)
    obtain ⟨h1, h2, h3⟩ := drain_spec q.ring.cap hemit (Nat.le_of_lt hemit.length_lt)
    refine ⟨h.alive, ?_, h3, ?_, fun fd' => ?_⟩
    · exact ⟨fun k uc huc => hleft.ok.chain k uc (by rw [← show _ = _ from h2]; exact huc),
        fun k => by have := hleft.ok.nodup k; rwa [← show _ = _ from h2] at this⟩
    · intro fd'
      have := hrep fd'
      rwa [← record_congr h2] at this
    · change deliverAll n.delivered (drain q.ring.cap q).2 fd' = _
      rw [show (drain q.ring.cap q).2 = _ from h1, deliverAll_spec]
      exact hdel fd'

/-- `close_uncomplete` takes the record of `fd` out of the chains, and nothing else. -/
theorem closeUncomplete_spec {q : Option Queue} (h : ChainOk (getQueue q)) (fd : Int) :
    getQueue (closeUncomplete q fd) = erase (getQueue q) fd := by
  -- without a record of `fd` there is nothing to take out
  have hself : ∀ q : Queue, record q fd = none → q = erase q fd := by
    intro q hnone
    rw [record, List.find?_eq_none] at hnone
    have hall : (q.hash (hashFd fd)).filter (·.id ≠ fd) = q.hash (hashFd fd) := by
      rw [List.filter_eq_self]
      intro uc huc
      simpa using hnone uc huc
    rw [erase, hall, Function.update_eq_self]
  cases q with
  | none => exact hself newQueue rfl
  | some q =>
    change ChainOk q at h
    simp only [closeUncomplete, findUncomplete_spec h]
    cases hrec : record q fd with
    | none => exact hself q hrec
    | some uc => rfl

/-- A close or an error of a connection. -/
theorem close_inv {n n' : Net} {fd : Int} (h : Inv n) (hs : step n (.close fd) = some n') : Inv n' := by
  simp only [step] at hs
  split at hs
  · cases hs
  cases hs
  have hq := closeUncomplete_spec h.ok fd
  refine ⟨h.alive, ?_, ?_, fun fd' => ?_, fun fd' => ?_⟩
  · simp only [hq]; exact erase_chainOk h.ok fd
  · simp only [hq]; exact h.empty
  · simp only [hq, record_erase]
    by_cases hfd : fd' = fd
    · subst hfd
      rw [if_pos rfl, Function.update_self, parse_nil]; rfl
    · rw [if_neg hfd, Function.update_of_ne hfd]; exact h.rep fd'
  · by_cases hfd : fd' = fd
    · subst hfd
      simp only [Function.update_self, parse_nil]
    · simp only [Function.update_of_ne hfd]; exact h.delivered fd'

theorem step_inv {n n' : Net} {a : Event} (h : Inv n) (hs : step n a = some n') : Inv n' := by
  cases a with
  | data fd chunk => exact data_inv h hs
  | close fd => exact close_inv h hs

/-- All the records of a queue. -/
def records (q : Queue) : List Uncomplete := (List.range HASHSIZE).flatMap q.hash

theorem filter_of_chain {q : Queue} (h : ChainOk q) (fd : Int) {k : Nat} (hk : k ≠ hashFd fd) :
    (q.hash k).filter (·.id = fd) = [] := by
  rw [List.filter_eq_nil_iff]
  intro uc huc
  rw [decide_eq_true_iff]
  rintro rfl
  exact hk (h.chain k uc huc).symm

theorem length_filter_of_nodup {l : List Uncomplete} (h : (l.map Uncomplete.id).Nodup) (fd : Int) :
    (l.filter (·.id = fd)).length ≤ 1 := by
  induction l with
  | nil => simp
  | cons uc l ih =>
    rw [List.map_cons, List.nodup_cons] at h
    by_cases hid : uc.id = fd
    · have hnil : l.filter (·.id = fd) = [] := by
        rw [List.filter_eq_nil_iff]
        intro x hx hxd
        rw [decide_eq_true_iff] at hxd
        exact h.1 (by rw [hid, ← hxd]; exact List.mem_map_of_mem hx)
      rw [List.filter_cons_of_pos (by simpa using hid), hnil]; rfl
    · rw [List.filter_cons_of_neg (by simpa using hid)]; exact ih h.2

/-- An fd has at most one record. -/
theorem records_unique {q : Queue} (h : ChainOk q) (fd : Int) :
    ((records q).filter (·.id = fd)).length ≤ 1 := by
  have hsum : ∀ ks : List Nat, ks.Nodup → ((ks.flatMap q.hash).filter (·.id = fd)).length ≤ 1 ∧
      (hashFd fd ∉ ks → (ks.flatMap q.hash).filter (·.id = fd) = []) := by
    intro ks
    induction ks with
    | nil => simp
    | cons k ks ih =>
      intro hnd
      rw [List.nodup_cons] at hnd
      obtain ⟨ih1, ih2⟩ := ih hnd.2
      rw [List.flatMap_cons, List.filter_append]
      by_cases hk : k = hashFd fd
      · rw [ih2 (by rw [← hk]; exact hnd.1), List.append_nil]
        exact ⟨length_filter_of_nodup (h.nodup k) fd, fun hn => absurd (hk ▸ List.mem_cons_self ..) hn⟩
      · rw [filter_of_chain h fd hk, List.nil_append]
        exact ⟨ih1, fun hn => ih2 fun hm => hn (List.mem_cons_of_mem _ hm)⟩
  exact (hsum _ List.nodup_range).1

/-- After any run of data and close events: no assertion has failed; the packages delivered to each
fd since it was last closed are those of the bytes that came for it since; no fd has two records;
and closing an fd takes out its own record only. -/
theorem netpack_stream {as : List Event} {n : Net} (h : Lts.run step init as = some n) :
    n.aborted = false ∧
    (∀ fd, n.delivered fd = (parse (n.stream fd)).1) ∧
    (∀ fd, ((records (getQueue n.q)).filter (·.id = fd)).length ≤ 1) ∧
    ∀ fd n', step n (.close fd) = some n' →
      record (getQueue n'.q) fd = none ∧
      ∀ fd', fd' ≠ fd → record (getQueue n'.q) fd' = record (getQueue n.q) fd' ∧
        n'.stream fd' = n.stream fd' ∧ n'.delivered fd' = n.delivered fd' := by
  have hI : Inv n := Lts.run_invariant (fun _ _ _ => step_inv) h init_inv
  refine ⟨hI.alive, hI.delivered, records_unique hI.ok, ?_⟩
  intro fd n' hs
  simp only [step] at hs
  split at hs
  · cases hs
  cases hs
  have hq := closeUncomplete_spec hI.ok fd
  simp only [hq, record_erase]
  refine ⟨if_pos trivial, fun fd' hne => ⟨if_neg hne, ?_, ?_⟩⟩
  · exact Function.update_of_ne hne _ _
  · exact Function.update_of_ne hne _ _

/-- Two connections, one with a header cut in two, the other with two packages in one chunk. -/
def twoStreams : List Event :=
  [.data 1 [0], .data 4097 [0, 1, 9, 0, 0, 0], .data 1 [2, 7], .data 4097 [1, 5], .data 1 [8], .close 4097]

theorem netpack_stream_two :
    (Lts.run step init twoStreams).map (fun n => n.delivered 1) = some [[7, 8]] ∧
    ∀ n, Lts.run step init twoStreams = some n → ∀ fd, n.delivered fd = (parse (n.stream fd)).1 :=
  ⟨by decide, fun _ hn => (netpack_stream hn).2.1⟩

end Netpack
end Skynet
