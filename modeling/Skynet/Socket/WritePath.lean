import Mathlib.Data.List.Perm.Basic
import Mathlib.Algebra.BigOperators.Group.List.Basic
import Mathlib.Tactic.Abel
import Skynet.Lib.Blocks
import Skynet.Socket.Server

/-!
# Skynet.Socket.WritePath

What a TCP socket puts on the wire, for every order of requests and events.

* `Core`           : the write buffers hold exactly what is not on the wire yet, and only the first
  of them may be partly written.
* `Inv`            : besides, the low list holds no partly written buffer.
* `tcp_write_path` : the wire is cut from a sequence of whole packages that keeps the request order
  of each priority; `wb_size` is what is queued; a package that has begun is completed before
  another begins.
-/

namespace Skynet
namespace Socket

/-! ### Write buffers -/

namespace WriteBuffer

/-- The bytes of the package that are on the wire. -/
def sent (wb : WriteBuffer) : List (Nat × UInt8) := wb.pkg.bytes.take (wb.ptr - wb.pkg.base)

def Ok (wb : WriteBuffer) : Prop :=
  wb.pkg.base ≤ wb.ptr ∧ wb.ptr - wb.pkg.base + wb.sz = wb.pkg.data.length

def Fresh (wb : WriteBuffer) : Prop := wb.ptr = wb.pkg.base ∧ wb.sz = wb.pkg.data.length

theorem Fresh.ok {wb : WriteBuffer} (h : wb.Fresh) : wb.Ok :=
  ⟨Nat.le_of_eq h.1.symm, by rw [h.1, h.2]; omega⟩

theorem Fresh.sent_eq {wb : WriteBuffer} (h : wb.Fresh) : wb.sent = [] := by
  rw [sent, h.1, Nat.sub_self, List.take_zero]

theorem Ok.fresh {wb : WriteBuffer} (h : wb.Ok) (hptr : wb.ptr = wb.pkg.base) : wb.Fresh :=
  ⟨hptr, by have := h.2; omega⟩

end WriteBuffer

theorem Package.bytes_length (p : Package) : p.bytes.length = p.data.length := by simp [Package.bytes]

theorem sent_append_written {wb : WriteBuffer} (n : Nat) (h : wb.Ok) :
    wb.sent ++ written wb n = ({ wb with ptr := wb.ptr + n, sz := wb.sz - n } : WriteBuffer).sent := by
  have hptr : wb.ptr + n - wb.pkg.base = wb.ptr - wb.pkg.base + n := by have := h.1; omega
  simp only [WriteBuffer.sent, written, hptr, List.take_add]

theorem sent_append_all {wb : WriteBuffer} (h : wb.Ok) : wb.sent ++ written wb wb.sz = wb.pkg.bytes := by
  have hlen : wb.pkg.bytes.length ≤ wb.ptr + wb.sz - wb.pkg.base := by
    rw [Package.bytes_length]; have := h.1; have := h.2; omega
  rw [sent_append_written wb.sz h, WriteBuffer.sent, List.take_of_length_le hlen]

theorem flatMap_sent_of_fresh {L : List WriteBuffer} (h : ∀ wb ∈ L, wb.Fresh) :
    L.flatMap WriteBuffer.sent = [] := by
  rw [List.flatMap_eq_nil_iff]
  exact fun wb hwb => (h wb hwb).sent_eq

/-- Only the first buffer may be partly written. -/
def HeadOnly : List WriteBuffer → Prop
  | [] => True
  | wb :: L => wb.Ok ∧ ∀ x ∈ L, x.Fresh

namespace HeadOnly

theorem of_fresh {L : List WriteBuffer} (h : ∀ x ∈ L, x.Fresh) : HeadOnly L := by
  cases L with
  | nil => trivial
  | cons wb L => exact ⟨(h wb (List.mem_cons_self ..)).ok, fun x hx => h x (List.mem_cons_of_mem _ hx)⟩

theorem append {L M : List WriteBuffer} (hL : HeadOnly L) (hM : ∀ x ∈ M, x.Fresh) : HeadOnly (L ++ M) := by
  cases L with
  | nil => exact of_fresh hM
  | cons wb L =>
    refine ⟨hL.1, fun x hx => ?_⟩
    rcases List.mem_append.mp hx with hx | hx
    · exact hL.2 x hx
    · exact hM x hx

theorem left {L M : List WriteBuffer} (h : HeadOnly (L ++ M)) : HeadOnly L := by
  cases L with
  | nil => trivial
  | cons wb L => exact ⟨h.1, fun x hx => h.2 x (List.mem_append_left _ hx)⟩

theorem ok {L : List WriteBuffer} (h : HeadOnly L) : ∀ x ∈ L, x.Ok := by
  cases L with
  | nil => simp
  | cons wb L =>
    intro x hx
    rcases List.mem_cons.mp hx with rfl | hx
    · exact h.1
    · exact (h.2 x hx).ok

end HeadOnly

/-- The bytes still to be written from a list of buffers. -/
def queued (L : List WriteBuffer) : Nat := (L.map WriteBuffer.sz).sum

theorem queued_append (L M : List WriteBuffer) : queued (L ++ M) = queued L + queued M := by
  simp [queued]

theorem queued_cons (wb : WriteBuffer) (L : List WriteBuffer) : queued (wb :: L) = wb.sz + queued L := by
  simp [queued]

/-- `tail` points to the last buffer. -/
def TailOk (l : WbList) : Prop := l.tail = l.nodes.getLast?.map fun wb => wb.pkg.seq

theorem TailOk.clear : TailOk .clear := rfl

/-! ### `send_list_tcp` -/

/-- From the buffers `L`, the packages `fin` are sent to the end and `r` is left. -/
structure Sends (wbSize : Int) (wire : List (Nat × UInt8)) (L : List WriteBuffer) (fin : List Package)
    (r : SendList) : Prop where
  pkgs : L.map WriteBuffer.pkg = fin ++ r.list.nodes.map WriteBuffer.pkg
  out : ∀ A, wire = A ++ L.flatMap WriteBuffer.sent →
    r.wire = A ++ fin.flatMap Package.bytes ++ r.list.nodes.flatMap WriteBuffer.sent
  size : r.wbSize + queued L = wbSize + queued r.list.nodes
  mono : wire <+: r.wire
  head : HeadOnly r.list.nodes
  tail : TailOk r.list

theorem Sends.mem {wbSize : Int} {wire : List (Nat × UInt8)} {L : List WriteBuffer} {fin : List Package}
    {r : SendList} (h : Sends wbSize wire L fin r) {wb : WriteBuffer} (hwb : wb ∈ r.list.nodes) :
    ∃ wb' ∈ L, wb'.pkg = wb.pkg := by
  have hmem : wb.pkg ∈ L.map WriteBuffer.pkg := by
    rw [h.pkgs]; exact List.mem_append_right _ (List.mem_map_of_mem hwb)
  exact List.mem_map.mp hmem

/-- The calls that leave the buffers as they are. -/
theorem Sends.same {wbSize : Int} {wire : List (Nat × UInt8)} (list : WbList) (c : Bool) (ws : List WriteRes)
    (hhead : HeadOnly list.nodes) (htail : TailOk list) :
    Sends wbSize wire list.nodes [] ⟨c, list, wbSize, wire, ws⟩ :=
  ⟨by simp, by simp, rfl, List.prefix_refl _, hhead, htail⟩

theorem sendListTcp_spec {wbSize : Int} {wire : List (Nat × UInt8)} {list : WbList} {ws : List WriteRes}
    {r : SendList} (h : sendListTcp wbSize wire list ws = some r) (hhead : HeadOnly list.nodes)
    (htail : list.nodes ≠ [] → TailOk list) :
    ∃ fin, Sends wbSize wire list.nodes fin r := by
  induction ws generalizing wbSize wire list with
  | nil =>
    simp only [sendListTcp] at h
    split at h
    · rename_i hnil
      cases h
      exact ⟨[], by rw [hnil]; exact .same .clear _ _ trivial .clear⟩
    · cases h
  | cons w ws ih =>
    simp only [sendListTcp] at h
    split at h
    · rename_i hnil
      cases h
      exact ⟨[], by rw [hnil]; exact .same .clear _ _ trivial .clear⟩
    rename_i tmp next hcons
    have hne : list.nodes ≠ [] := by rw [hcons]; exact List.cons_ne_nil _ _
    obtain ⟨htmp, hnext⟩ : tmp.Ok ∧ ∀ x ∈ next, x.Fresh := by rw [hcons] at hhead; exact hhead
    have htl : next ≠ [] → list.tail = next.getLast?.map fun wb => wb.pkg.seq := by
      intro hn
      have := htail hne
      rw [TailOk, hcons] at this
      rw [this, List.getLast?_cons_of_ne_nil hn]
    cases w with
    | intr =>
      simp only at h
      exact ih h hhead htail
    | again =>
      cases h
      exact ⟨[], .same _ _ _ hhead (htail hne)⟩
    | error =>
      cases h
      exact ⟨[], .same _ _ _ hhead (htail hne)⟩
    | ok n =>
      simp only at h
      split at h
      · cases h
      rename_i hle
      split at h
      -- the buffer is written in part: it stays at the head
      · cases h
        rename_i hne'
        refine ⟨[], by simp [hcons], ?_, ?_, List.prefix_append .., ⟨?_, hnext⟩, ?_⟩
        · intro A hA
          rw [hcons, List.flatMap_cons, flatMap_sent_of_fresh hnext, List.append_nil] at hA
          simp only [List.flatMap_cons, List.flatMap_nil, flatMap_sent_of_fresh hnext, List.append_nil]
          rw [hA, List.append_assoc, sent_append_written n htmp]
        · rw [hcons, queued_cons, queued_cons]; push_cast; omega
        · have := htmp.1; have := htmp.2
          exact ⟨by simp only; omega, by simp only; omega⟩
        · rw [TailOk]
          simp only
          by_cases hn : next = []
          · subst hn
            have := htail hne
            rw [TailOk, hcons] at this
            simpa using this
          · rw [htl hn, List.getLast?_cons_of_ne_nil hn]
      -- the buffer is written to its end, and the loop goes on
      · rename_i heq
        have hn : n = tmp.sz := by simpa using heq
        subst hn
        have htail' : next ≠ [] → TailOk { list with nodes := next } := fun hn => htl hn
        obtain ⟨fin, hS⟩ := ih h (show HeadOnly ({ list with nodes := next } : WbList).nodes from .of_fresh hnext) htail'
        refine ⟨tmp.pkg :: fin, ?_, ?_, ?_, (List.prefix_append ..).trans hS.mono, hS.head, hS.tail⟩
        · rw [hcons, List.map_cons, List.cons_append, hS.pkgs]
        · intro A hA
          rw [hcons, List.flatMap_cons] at hA
          rw [hS.out (A ++ tmp.pkg.bytes)]
          · rw [List.flatMap_cons, List.append_assoc A]
          · rw [hA, flatMap_sent_of_fresh hnext, List.append_nil, List.append_nil, List.append_assoc,
              sent_append_all htmp]
        · have := hS.size
          rw [hcons, queued_cons]; push_cast; simp only at this; omega

/-! ### The invariant -/

/-- The write buffers of the socket, in the order they are to be written. -/
def queue (s : Sock) : List WriteBuffer := s.dropped ++ s.high.nodes ++ s.low.nodes

/-- The buffers hold what is not on the wire, and only the first one may be partly written. -/
structure Core (s : Sock) : Prop where
  alive : s.aborted = false
  seqs : s.accepted.map Package.seq = List.range s.accepted.length
  plain : ∀ wb ∈ queue s, wb.pkg.base = wb.pkg.buffer
  tailHigh : TailOk s.high
  tailLow : TailOk s.low
  head : HeadOnly (queue s)
  lowPriority : ∀ wb ∈ s.low.nodes, wb.pkg.priority = .low
  size : s.type ≠ .invalid → s.wbSize = queued (s.high.nodes ++ s.low.nodes)
  closed : s.type = .invalid → s.high = .clear ∧ s.low = .clear
  live : s.type ≠ .invalid → s.dropped = []
  order : ∃ fin : List Package,
    s.wire = fin.flatMap Package.bytes ++ (queue s).flatMap WriteBuffer.sent ∧
    ∀ pr, (fin ++ (queue s).map WriteBuffer.pkg).filter (·.priority = pr) =
      s.accepted.filter (·.priority = pr)

/-- Besides, the low list holds no partly written buffer. -/
structure Inv (s : Sock) : Prop extends Core s where
  freshLow : ∀ wb ∈ s.low.nodes, wb.Fresh

theorem newFd_inv (t : SocketType) : Inv (newFd t) where
  alive := rfl
  seqs := rfl
  plain := by simp [queue, newFd, WbList.clear]
  tailHigh := rfl
  tailLow := rfl
  head := trivial
  lowPriority := by simp [newFd, WbList.clear]
  size := fun _ => rfl
  closed := fun _ => ⟨rfl, rfl⟩
  live := fun _ => rfl
  order := ⟨[], rfl, fun _ => rfl⟩
  freshLow := by simp [newFd, WbList.clear]

theorem forceClose_wire (s : Sock) : (forceClose s).wire = s.wire := by
  unfold forceClose; split <;> rfl

theorem forceClose_inv {s : Sock} (h : Core s) : Inv (forceClose s) := by
  unfold forceClose
  split
  · rename_i hinv
    have hlow : s.low.nodes = [] := by rw [(h.closed hinv).2]; rfl
    exact { h with freshLow := by simp [hlow] }
  · have hq : queue { s with type := .invalid, high := .clear, low := .clear, dropped := s.dropped ++ s.high.nodes ++ s.low.nodes } = queue s := by
      simp [queue, WbList.clear]
    exact {
      alive := h.alive
      seqs := h.seqs
      plain := by rw [hq]; exact h.plain
      tailHigh := .clear
      tailLow := .clear
      head := by rw [hq]; exact h.head
      lowPriority := by simp [WbList.clear]
      size := fun hne => absurd rfl hne
      closed := fun _ => ⟨rfl, rfl⟩
      live := fun hne => absurd rfl hne
      order := by rw [hq]; exact h.order
      freshLow := by simp [WbList.clear] }

theorem queue_live {s : Sock} (h : Core s) (hlive : s.type ≠ .invalid) :
    queue s = s.high.nodes ++ s.low.nodes := by
  rw [queue, h.live hlive, List.nil_append]

/-- Sending from the high list. -/
theorem sendHigh_inv {s : Sock} {ws : List WriteRes} {r : SendList} (h : Inv s) (hlive : s.type ≠ .invalid)
    (hr : sendListTcp s.wbSize s.wire s.high ws = some r) :
    Inv { s with high := r.list, wbSize := r.wbSize, wire := r.wire } ∧ s.wire <+: r.wire := by
  have hq := queue_live h.toCore hlive
  have hq' : queue { s with high := r.list, wbSize := r.wbSize, wire := r.wire } = r.list.nodes ++ s.low.nodes := by
    simp only [queue, h.live hlive, List.nil_append]
  have hhead := h.head
  rw [hq] at hhead
  obtain ⟨fin, hS⟩ := sendListTcp_spec hr hhead.left (fun _ => h.tailHigh)
  obtain ⟨done, hwire, hord⟩ := h.order
  rw [hq] at hwire hord
  have hlow := flatMap_sent_of_fresh h.freshLow
  rw [List.flatMap_append, hlow, List.append_nil] at hwire
  refine ⟨?_, hS.mono⟩
  exact {
    alive := h.alive
    seqs := h.seqs
    plain := by
      rw [hq']
      intro wb hwb
      rcases List.mem_append.mp hwb with hwb | hwb
      · obtain ⟨wb', hwb', hpkg⟩ := hS.mem hwb
        rw [← hpkg]
        exact h.plain wb' (by rw [hq]; exact List.mem_append_left _ hwb')
      · exact h.plain wb (by rw [hq]; exact List.mem_append_right _ hwb)
    tailHigh := hS.tail
    tailLow := h.tailLow
    head := by rw [hq']; exact hS.head.append h.freshLow
    lowPriority := h.lowPriority
    size := by
      intro _
      have h1 := h.size hlive
      have h2 := hS.size
      rw [queued_append] at h1 ⊢
      simp only; omega
    closed := fun hinv => absurd hinv hlive
    live := h.live
    order := by
      refine ⟨done ++ fin, ?_, ?_⟩
      · rw [hq']
        simp only [List.flatMap_append, hlow, List.append_nil]
        exact hS.out _ hwire
      · intro pr
        rw [hq', ← hord pr, List.map_append, List.map_append, hS.pkgs]
        simp only [List.append_assoc]
    freshLow := h.freshLow }

/-- Sending from the low list, when the high list is empty: its head may be left partly written. -/
theorem sendLow_core {s : Sock} {ws : List WriteRes} {r : SendList} (h : Inv s) (hlive : s.type ≠ .invalid)
    (hhigh : s.high.nodes = []) (hr : sendListTcp s.wbSize s.wire s.low ws = some r) :
    Core { s with low := r.list, wbSize := r.wbSize, wire := r.wire } ∧ s.wire <+: r.wire := by
  have hq : queue s = s.low.nodes := by rw [queue_live h.toCore hlive, hhigh, List.nil_append]
  have hq' : queue { s with low := r.list, wbSize := r.wbSize, wire := r.wire } = r.list.nodes := by
    simp only [queue, h.live hlive, hhigh, List.nil_append]
  obtain ⟨fin, hS⟩ := sendListTcp_spec hr (.of_fresh h.freshLow) (fun _ => h.tailLow)
  obtain ⟨done, hwire, hord⟩ := h.order
  rw [hq] at hwire hord
  refine ⟨?_, hS.mono⟩
  exact {
    alive := h.alive
    seqs := h.seqs
    plain := by
      rw [hq']
      intro wb hwb
      obtain ⟨wb', hwb', hpkg⟩ := hS.mem hwb
      rw [← hpkg]
      exact h.plain wb' (by rw [hq]; exact hwb')
    tailHigh := h.tailHigh
    tailLow := hS.tail
    head := by rw [hq']; exact hS.head
    lowPriority := by
      intro wb hwb
      obtain ⟨wb', hwb', hpkg⟩ := hS.mem hwb
      rw [← hpkg]
      exact h.lowPriority wb' hwb'
    size := by
      intro _
      have h1 := h.size hlive
      have h2 := hS.size
      rw [hhigh, List.nil_append] at h1 ⊢
      simp only; omega
    closed := fun hinv => absurd hinv hlive
    live := h.live
    order := by
      refine ⟨done ++ fin, ?_, ?_⟩
      · rw [hq', List.flatMap_append]
        exact hS.out _ hwire
      · intro pr
        rw [hq', ← hord pr, hS.pkgs]
        simp only [List.append_assoc] }

/-- `raise_uncomplete` takes a partly written head out of the low list. -/
theorem raiseUncomplete_inv {s : Sock} (h : Core s) (hlive : s.type ≠ .invalid) (hhigh : s.high.nodes = [])
    (hlow : s.low.nodes ≠ []) : Inv (raiseUncomplete s) := by
  cases hn : s.low.nodes with
  | nil => exact absurd hn hlow
  | cons tmp next =>
    have hlow' : ∃ l : WbList, raiseUncomplete s = { s with low := l, high := { nodes := [tmp], tail := some tmp.pkg.seq } } ∧
        l.nodes = next ∧ TailOk l := by
      have htail := h.tailLow
      rw [TailOk, hn] at htail
      simp only [raiseUncomplete, hn, hhigh]
      by_cases hnext : next = []
      · exact ⟨.clear, by simp [hnext], by rw [hnext]; rfl, .clear⟩
      · refine ⟨{ s.low with nodes := next }, by simp [hnext], rfl, ?_⟩
        rw [TailOk, htail, List.getLast?_cons_of_ne_nil hnext]
    obtain ⟨l, hs, hl, htl⟩ := hlow'
    rw [hs]
    have hq : queue s = tmp :: next := by rw [queue_live h hlive, hhigh, hn]; rfl
    have hq' : queue { s with low := l, high := { nodes := [tmp], tail := some tmp.pkg.seq } } = tmp :: next := by
      simp only [queue, h.live hlive, hl]; rfl
    have hhead := h.head
    rw [hq] at hhead
    exact {
      alive := h.alive
      seqs := h.seqs
      plain := by rw [hq', ← hq]; exact h.plain
      tailHigh := rfl
      tailLow := htl
      head := by rw [hq']; exact hhead
      lowPriority := fun wb hwb => h.lowPriority wb (by rw [hn, ← hl]; exact List.mem_cons_of_mem _ hwb)
      size := by
        intro _
        have h1 := h.size hlive
        rw [hhigh, hn, List.nil_append] at h1
        simp only [hl]
        exact h1
      closed := fun hinv => absurd hinv hlive
      live := h.live
      order := by rw [hq', ← hq]; exact h.order
      freshLow := by rw [hl]; exact hhead.2 }

theorem listUncomplete_nil {l : WbList} (h : l.nodes = []) : listUncomplete l = false := by
  unfold listUncomplete; rw [h]

theorem listUncomplete_eq_false {s : Sock} (h : Inv s) : listUncomplete s.low = false := by
  unfold listUncomplete
  split
  · rfl
  · rename_i wb L hn
    have hwb : wb ∈ s.low.nodes := by rw [hn]; exact List.mem_cons_self ..
    rw [decide_eq_false_iff_not, not_not, (h.freshLow wb hwb).1]
    exact h.plain wb (List.mem_append_right _ hwb)

/-- The head of a low list that is complete is not partly written. -/
theorem fresh_of_complete {s : Sock} (h : Core s) (hlive : s.type ≠ .invalid) (hhigh : s.high.nodes = [])
    (hc : listUncomplete s.low = false) : ∀ wb ∈ s.low.nodes, wb.Fresh := by
  have hq : queue s = s.low.nodes := by rw [queue_live h hlive, hhigh, List.nil_append]
  have hhead := h.head
  have hplain := h.plain
  rw [hq] at hhead hplain
  unfold listUncomplete at hc
  split at hc
  · rename_i hn
    simp [hn]
  · rename_i wb L hn
    rw [hn] at hhead hplain ⊢
    rw [decide_eq_false_iff_not, not_not] at hc
    intro x hx
    rcases List.mem_cons.mp hx with rfl | hx
    · exact hhead.1.fresh (hc.trans (hplain x (List.mem_cons_self ..)).symm)
    · exact hhead.2 x hx

theorem raiseUncomplete_frame (s : Sock) :
    (raiseUncomplete s).wire = s.wire ∧ (raiseUncomplete s).type = s.type := by
  unfold raiseUncomplete
  split
  · exact ⟨rfl, rfl⟩
  · simp only
    split <;> exact ⟨rfl, rfl⟩

/-- `send_buffer`: it closes the socket only when it says so. -/
theorem sendBuffer_inv {s s' : Sock} {ws : List WriteRes} {c : Bool} (h : Inv s) (hlive : s.type ≠ .invalid)
    (hs : sendBuffer s ws = some (c, s')) :
    Inv s' ∧ s.wire <+: s'.wire ∧ (c = false → s'.type ≠ .invalid) := by
  simp only [sendBuffer, listUncomplete_eq_false h, Bool.false_eq_true, if_false] at hs
  rw [Option.bind_eq_bind, Option.bind_eq_some_iff] at hs
  obtain ⟨r, hr, hs⟩ := hs
  obtain ⟨h1, hw1⟩ := sendHigh_inv h hlive hr
  split at hs
  · cases hs
    exact ⟨forceClose_inv h1.toCore, by rw [forceClose_wire]; exact hw1, nofun⟩
  split at hs
  · rename_i hhigh
    split at hs
    · rw [Option.bind_eq_some_iff] at hs
      obtain ⟨r', hr', hs⟩ := hs
      obtain ⟨h2, hw2⟩ := sendLow_core h1 hlive hhigh hr'
      have hw2 := hw1.trans hw2
      split at hs
      · cases hs
        exact ⟨forceClose_inv h2, by rw [forceClose_wire]; exact hw2, nofun⟩
      split at hs
      · rename_i hunc
        cases hs
        refine ⟨?_, by rw [(raiseUncomplete_frame _).1]; exact hw2,
          fun _ => by rw [(raiseUncomplete_frame _).2]; exact hlive⟩
        apply raiseUncomplete_inv h2 hlive hhigh
        intro hnil
        rw [listUncomplete_nil hnil] at hunc
        cases hunc
      · rename_i hunc
        cases hs
        exact ⟨{ h2 with freshLow := fresh_of_complete h2 hlive hhigh (by simpa using hunc) }, hw2,
          fun _ => hlive⟩
    · split at hs
      · cases hs
        exact ⟨forceClose_inv h1.toCore, by rw [forceClose_wire]; exact hw1, nofun⟩
      · cases hs
        exact ⟨h1, hw1, fun _ => hlive⟩
  · cases hs
    exact ⟨h1, hw1, fun _ => hlive⟩

/-! ### Requests -/

theorem appendSendbuffer_ok {l : WbList} (h : TailOk l) (p : Package) (n : Nat) :
    appendSendbuffer l p n = some
      { nodes := l.nodes ++ [{ pkg := p, ptr := p.base + n, sz := p.data.length - n }], tail := some p.seq } := by
  unfold appendSendbuffer
  rw [TailOk] at h
  split
  · rename_i hn
    rw [List.getLast?_eq_none_iff.mp hn]; rfl
  · rename_i last hn
    rw [if_pos (by rw [h, hn]; rfl)]

theorem tailOk_append (L : List WriteBuffer) (wb : WriteBuffer) :
    TailOk { nodes := L ++ [wb], tail := some wb.pkg.seq } := by
  simp [TailOk]

theorem seqs_snoc {s : Sock} (h : Core s) (r : Request) :
    (s.accepted ++ [r.package s]).map Package.seq = List.range (s.accepted ++ [r.package s]).length := by
  simp only [List.map_append, h.seqs, List.length_append, List.length_singleton, List.range_succ]
  rfl

/-- Appending to the high list the part of a package that is not on the wire. Either none of it is,
or nothing else is queued; and a package of low priority comes here only when nothing is queued. -/
theorem appendHigh_inv {s : Sock} (h : Inv s) (hlive : s.type ≠ .invalid) {r : Request} {n : Nat}
    (hplain : r.base = r.buffer) (hn : n ≤ r.data.length)
    (hdirect : (n = 0 ∧ r.priority = .high) ∨ (s.high.nodes = [] ∧ s.low.nodes = [])) :
    Inv (appendHigh { s with
      accepted := s.accepted ++ [r.package s], wire := s.wire ++ (r.package s).bytes.take n } (r.package s) n) := by
  have hq := queue_live h.toCore hlive
  have hdrop := h.live hlive
  have hhead := h.head
  obtain ⟨done, hwire, hord⟩ := h.order
  rw [hq] at hhead hwire hord
  have hlow := flatMap_sent_of_fresh h.freshLow
  rw [appendHigh, appendSendbuffer_ok h.tailHigh]
  simp only
  have hbufOk : WriteBuffer.Ok { pkg := r.package s, ptr := (r.package s).base + n, sz := (r.package s).data.length - n } := by
    have : (r.package s).data.length = r.data.length := rfl
    exact ⟨by simp only; omega, by simp only; omega⟩
  have hsent : WriteBuffer.sent { pkg := r.package s, ptr := (r.package s).base + n, sz := (r.package s).data.length - n }
      = (r.package s).bytes.take n := by
    simp only [WriteBuffer.sent, Nat.add_sub_cancel_left]
  exact {
    alive := h.alive
    seqs := seqs_snoc h.toCore r
    plain := by
      intro wb hwb
      simp only [queue, hdrop, List.nil_append, List.append_assoc] at hwb
      rcases List.mem_append.mp hwb with hwb | hwb
      · exact h.plain wb (by rw [hq]; exact List.mem_append_left _ hwb)
      · rcases List.mem_cons.mp hwb with rfl | hwb
        · exact hplain
        · exact h.plain wb (by rw [hq]; exact List.mem_append_right _ hwb)
    tailHigh := tailOk_append _ _
    tailLow := h.tailLow
    head := by
      simp only [queue, hdrop, List.nil_append]
      rcases hdirect with ⟨rfl, -⟩ | ⟨hhigh, hlow'⟩
      · rw [List.append_assoc]
        apply hhead.left.append
        intro x hx
        rcases List.mem_cons.mp hx with rfl | hx
        · exact hbufOk.fresh rfl
        · exact h.freshLow x hx
      · rw [hhigh, hlow']
        exact ⟨hbufOk, by simp⟩
    lowPriority := h.lowPriority
    size := by
      intro _
      have h1 := h.size hlive
      simp only [queued_append, queued_cons] at h1 ⊢
      simp only [queued, List.map_nil, List.sum_nil] at h1 ⊢
      push_cast at h1 ⊢
      omega
    closed := fun hinv => absurd hinv hlive
    live := h.live
    order := by
      refine ⟨done, ?_, ?_⟩
      · simp only [queue, hdrop, List.nil_append, List.flatMap_append, List.flatMap_cons, List.flatMap_nil,
          List.append_nil, hsent, hlow] at hwire ⊢
        rw [hwire, List.append_assoc]
      · intro pr
        simp only [queue, hdrop, List.nil_append, List.map_append, List.map_cons, List.map_nil]
        rw [List.filter_append s.accepted, ← hord pr]
        rcases hdirect with ⟨-, hp⟩ | ⟨hhigh, hlow'⟩
        -- the packages behind it are of low priority
        · have hl : pr = .high → (s.low.nodes.map WriteBuffer.pkg).filter (·.priority = pr) = [] := by
            rintro rfl
            rw [List.filter_eq_nil_iff]
            intro p hp'
            obtain ⟨wb, hwb, rfl⟩ := List.mem_map.mp hp'
            rw [h.lowPriority wb hwb]
            decide
          simp only [List.map_append, List.filter_append]
          cases pr with
          | high => rw [hl rfl]; simp
          | low =>
            have : [r.package s].filter (fun p => p.priority = .low) = [] := by
              simp [Request.package, hp]
            rw [this]; simp
        · simp only [hhigh, hlow', List.map_nil, List.append_nil, List.nil_append, List.filter_append]
    freshLow := h.freshLow }

/-- Appending a package to the low list. -/
theorem appendLow_inv {s : Sock} (h : Inv s) (hlive : s.type ≠ .invalid) {r : Request}
    (hplain : r.base = r.buffer) (hp : r.priority = .low) :
    Inv (appendLow { s with accepted := s.accepted ++ [r.package s] } (r.package s)) := by
  have hq := queue_live h.toCore hlive
  have hdrop := h.live hlive
  have hhead := h.head
  obtain ⟨done, hwire, hord⟩ := h.order
  rw [hq] at hhead hwire hord
  rw [appendLow, appendSendbuffer_ok h.tailLow]
  simp only
  have hfresh : WriteBuffer.Fresh { pkg := r.package s, ptr := (r.package s).base + 0, sz := (r.package s).data.length - 0 } :=
    ⟨rfl, rfl⟩
  exact {
    alive := h.alive
    seqs := seqs_snoc h.toCore r
    plain := by
      intro wb hwb
      simp only [queue, hdrop, List.nil_append] at hwb
      rw [← List.append_assoc] at hwb
      rcases List.mem_append.mp hwb with hwb | hwb
      · exact h.plain wb (by rw [hq]; exact hwb)
      · rw [List.mem_singleton.mp hwb]; exact hplain
    tailHigh := h.tailHigh
    tailLow := tailOk_append _ _
    head := by
      simp only [queue, hdrop, List.nil_append]
      rw [← List.append_assoc]
      apply hhead.append
      intro x hx
      rw [List.mem_singleton.mp hx]; exact hfresh
    lowPriority := by
      intro wb hwb
      rcases List.mem_append.mp hwb with hwb | hwb
      · exact h.lowPriority wb hwb
      · rw [List.mem_singleton.mp hwb]; exact hp
    size := by
      intro _
      have h1 := h.size hlive
      simp only [queued_append, queued_cons] at h1 ⊢
      simp only [queued, List.map_nil, List.sum_nil] at h1 ⊢
      push_cast at h1 ⊢
      omega
    closed := fun hinv => absurd hinv hlive
    live := h.live
    order := by
      refine ⟨done, ?_, ?_⟩
      · simp only [queue, hdrop, List.nil_append, List.flatMap_append, List.flatMap_cons, List.flatMap_nil,
          List.append_nil, hfresh.sent_eq] at hwire ⊢
        exact hwire
      · intro pr
        simp only [queue, hdrop, List.nil_append]
        rw [List.filter_append s.accepted, ← hord pr, ← List.append_assoc s.high.nodes, List.map_append,
          ← List.append_assoc, List.filter_append]
        rfl
    freshLow := by
      intro wb hwb
      rcases List.mem_append.mp hwb with hwb | hwb
      · exact h.freshLow wb hwb
      · rw [List.mem_singleton.mp hwb]; exact hfresh }

/-- A package written in one direct call. -/
theorem direct_inv {s : Sock} (h : Inv s) (hlive : s.type ≠ .invalid) (r : Request)
    (hempty : s.high.nodes = [] ∧ s.low.nodes = []) :
    Inv { s with accepted := s.accepted ++ [r.package s], wire := s.wire ++ (r.package s).bytes } := by
  have hq : queue s = [] := by rw [queue_live h.toCore hlive, hempty.1, hempty.2]; rfl
  obtain ⟨done, hwire, hord⟩ := h.order
  rw [hq] at hwire hord
  have hq' : queue { s with accepted := s.accepted ++ [r.package s], wire := s.wire ++ (r.package s).bytes } = [] := hq
  exact { h with
    seqs := seqs_snoc h.toCore r
    order := by
      refine ⟨done ++ [r.package s], ?_, ?_⟩
      · rw [hq', hwire]; simp
      · intro pr
        rw [hq', List.filter_append s.accepted, ← hord pr]; simp }

theorem sendBufferEmpty_iff {s : Sock} : sendBufferEmpty s = true ↔ s.high.nodes = [] ∧ s.low.nodes = [] := by
  simp [sendBufferEmpty]

theorem appendHigh_wire (s : Sock) (p : Package) (n : Nat) : (appendHigh s p n).wire = s.wire := by
  unfold appendHigh; split <;> rfl

theorem appendLow_wire (s : Sock) (p : Package) : (appendLow s p).wire = s.wire := by
  unfold appendLow; split <;> rfl

/-- The part of a package that a direct call did not write, if there is any, is queued. -/
theorem direct_rest_inv {s s' : Sock} (h : Inv s) (hlive : s.type ≠ .invalid) {r : Request} {n : Nat}
    (hplain : r.base = r.buffer) (hn : n ≤ r.data.length) (hempty : s.high.nodes = [] ∧ s.low.nodes = [])
    (hs : (if n = (r.package s).data.length then
        some { s with accepted := s.accepted ++ [r.package s], wire := s.wire ++ (r.package s).bytes.take n }
      else some (appendHigh { s with
        accepted := s.accepted ++ [r.package s], wire := s.wire ++ (r.package s).bytes.take n }
          (r.package s) n)) = some s') : Inv s' ∧ s.wire <+: s'.wire := by
  split at hs
  · rename_i hall
    cases hs
    rw [List.take_of_length_le (by rw [Package.bytes_length, hall])]
    exact ⟨direct_inv h hlive r hempty, List.prefix_append ..⟩
  · cases hs
    refine ⟨appendHigh_inv h hlive hplain hn (.inr hempty), ?_⟩
    rw [appendHigh_wire]
    exact List.prefix_append ..

/-- `send_socket`. -/
theorem sendSocket_inv {s s' : Sock} {r : Request} {w : WriteRes} (h : Inv s) (hplain : r.base = r.buffer)
    (hs : sendSocket s r w = some s') : Inv s' ∧ s.wire <+: s'.wire := by
  -- a call that writes nothing is one that writes the first 0 bytes
  have hzero : { s with accepted := s.accepted ++ [r.package s] } =
      { s with accepted := s.accepted ++ [r.package s], wire := s.wire ++ (r.package s).bytes.take 0 } := by
    simp
  simp only [sendSocket] at hs
  split at hs
  · cases hs; exact ⟨h, List.prefix_refl _⟩
  rename_i hty
  have hlive : s.type ≠ .invalid := fun h' => hty (.inl h')
  split at hs
  · cases hs; exact ⟨h, List.prefix_refl _⟩
  split at hs
  · rename_i hdirect
    have hempty := sendBufferEmpty_iff.mp hdirect.1
    cases w with
    | error =>
      cases hs
      exact ⟨forceClose_inv h.toCore, by rw [forceClose_wire]⟩
    | intr =>
      simp only [hzero, eq_comm (a := (r.package s).data.length)] at hs
      exact direct_rest_inv h hlive hplain (Nat.zero_le _) hempty hs
    | again =>
      simp only [hzero, eq_comm (a := (r.package s).data.length)] at hs
      exact direct_rest_inv h hlive hplain (Nat.zero_le _) hempty hs
    | ok n =>
      simp only at hs
      split at hs
      · cases hs
      rename_i hle
      exact direct_rest_inv h hlive hplain (Nat.le_of_not_lt hle) hempty hs
  · split at hs
    · rename_i hp
      cases hs
      exact ⟨appendLow_inv h hlive hplain hp, by rw [appendLow_wire]⟩
    · rename_i hp
      cases hs
      rw [hzero]
      refine ⟨appendHigh_inv h hlive hplain (Nat.zero_le _) (.inl ⟨rfl, hp⟩), ?_⟩
      rw [appendHigh_wire]
      exact List.prefix_append ..

/-- A change of the type of a socket that stays open. -/
theorem setType_inv {s : Sock} (h : Inv s) {t : SocketType} (hlive : s.type ≠ .invalid) (ht : t ≠ .invalid) :
    Inv { s with type := t } :=
  { h with size := fun _ => h.size hlive, closed := fun h' => absurd h' ht, live := fun _ => h.live hlive }

/-- `close_socket`. -/
theorem closeSocket_inv {s s' : Sock} {shutdown : Bool} {ws : List WriteRes} (h : Inv s)
    (hlive : s.type ≠ .invalid) (hs : closeSocket s shutdown ws = some s') : Inv s' ∧ s.wire <+: s'.wire := by
  unfold closeSocket at hs
  rw [Option.bind_eq_bind, Option.bind_eq_some_iff] at hs
  obtain ⟨⟨c, t⟩, ht, hs⟩ := hs
  obtain ⟨hI, hw, hl⟩ : Inv t ∧ s.wire <+: t.wire ∧ (c = false → t.type ≠ .invalid) := by
    unfold closeFlush at ht
    split at ht
    · cases ht
      exact ⟨h, List.prefix_refl _, fun _ => hlive⟩
    · exact sendBuffer_inv h hlive ht
  simp only at hs
  split at hs
  · cases hs; exact ⟨hI, hw⟩
  rename_i hc
  split at hs
  · cases hs; exact ⟨forceClose_inv hI.toCore, by rw [forceClose_wire]; exact hw⟩
  · cases hs
    exact ⟨setType_inv hI (hl (by revert hc; cases c <;> simp)) (by decide), hw⟩

/-- The requests of plain memory buffers. -/
def Label.Plain : Label → Prop
  | .send r _ => r.base = r.buffer
  | _ => True

theorem step_inv {s s' : Sock} {a : Label} (h : Inv s) (ha : a.Plain) (hs : step s a = some s') :
    Inv s' ∧ s.wire <+: s'.wire := by
  have hclose : Inv (forceClose s) ∧ s.wire <+: (forceClose s).wire :=
    ⟨forceClose_inv h.toCore, by rw [forceClose_wire]⟩
  have hsame : Inv s ∧ s.wire <+: s.wire := ⟨h, List.prefix_refl _⟩
  have htype : ∀ {t : SocketType}, s.type ≠ .invalid → t ≠ .invalid →
      Inv { s with type := t } ∧ s.wire <+: s.wire := fun hl ht => ⟨setType_inv h hl ht, List.prefix_refl _⟩
  unfold step at hs
  rw [if_neg (by rw [h.alive]; decide)] at hs
  cases a with
  | send r w => exact sendSocket_inv h ha hs
  | writable ws =>
    simp only at hs
    split at hs
    · cases hs; exact hsame
    · rename_i hty
      obtain ⟨⟨c, t⟩, ht, rfl⟩ := Option.map_eq_some_iff.mp hs
      obtain ⟨hI, hw, -⟩ := sendBuffer_inv h (fun h' => hty (.inl h')) ht
      exact ⟨hI, hw⟩
  | connect ok =>
    simp only at hs
    split at hs
    · cases hs
    · rename_i hty
      rw [not_not] at hty
      split at hs
      · cases hs; exact htype (by rw [hty]; decide) (by decide)
      · cases hs; exact hclose
  | start ok =>
    simp only at hs
    split at hs
    · rename_i hty
      split at hs
      · cases hs; exact htype (by rw [hty]; decide) (by decide)
      · cases hs; exact hclose
    split at hs
    · rename_i hty
      split at hs
      · cases hs; exact htype (by rw [hty]; decide) (by decide)
      · cases hs; exact hclose
    · cases hs; exact hsame
  | close shutdown ws =>
    simp only at hs
    split at hs
    · cases hs; exact hsame
    · rename_i hty
      exact closeSocket_inv h hty hs
  | hangup => cases hs; exact hclose

/-! ### Whole runs -/

theorem run_inv {s s' : Sock} {as : List Label} (hs : Inv s) (hplain : ∀ a ∈ as, a.Plain)
    (h : Lts.run step s as = some s') : Inv s' ∧ s.wire <+: s'.wire := by
  induction as generalizing s with
  | nil => cases h; exact ⟨hs, List.prefix_refl _⟩
  | cons a as ih =>
    obtain ⟨t, ht, hr⟩ := Lts.run_cons.mp h
    obtain ⟨hI, hw⟩ := step_inv hs (hplain a (List.mem_cons_self ..)) ht
    obtain ⟨hI', hw'⟩ := ih hI (fun b hb => hplain b (List.mem_cons_of_mem _ hb)) hr
    exact ⟨hI', hw.trans hw'⟩

/-- A sequence that agrees with another on each priority holds the same packages. -/
theorem perm_of_filters {P Q : List Package}
    (h : ∀ pr, P.filter (·.priority = pr) = Q.filter (·.priority = pr)) : P.Perm Q := by
  have hnot : (fun p : Package => !decide (p.priority = .high)) = fun p => decide (p.priority = .low) := by
    funext p; cases p.priority <;> rfl
  have hP := List.filter_append_perm (fun p : Package => decide (p.priority = .high)) P
  have hQ := List.filter_append_perm (fun p : Package => decide (p.priority = .high)) Q
  rw [hnot, h .high, h .low] at hP
  rw [hnot] at hQ
  exact hP.symm.trans hQ

theorem sent_isHead (L : List WriteBuffer) (h : HeadOnly L) :
    L.flatMap WriteBuffer.sent <+: (L.map WriteBuffer.pkg).flatMap Package.bytes := by
  cases L with
  | nil => exact List.prefix_refl _
  | cons wb L =>
    rw [List.flatMap_cons, flatMap_sent_of_fresh h.2, List.append_nil, List.map_cons, List.flatMap_cons]
    exact (List.take_prefix ..).trans (List.prefix_append ..)

theorem Core.wire_prefix {s : Sock} (h : Core s) : ∃ P : List Package,
    (∀ pr, P.filter (·.priority = pr) = s.accepted.filter (·.priority = pr)) ∧
    s.wire <+: P.flatMap Package.bytes := by
  obtain ⟨fin, hwire, hord⟩ := h.order
  refine ⟨fin ++ (queue s).map WriteBuffer.pkg, hord, ?_⟩
  rw [hwire, List.flatMap_append]
  exact List.prefix_append_right_inj _ |>.mpr (sent_isHead _ h.head)

/-- All the bytes of the packages taken. -/
def total (P : List Package) : Nat := (P.map fun p => p.data.length).sum

theorem length_bytes (P : List Package) : (P.flatMap Package.bytes).length = total P := by
  induction P with
  | nil => rfl
  | cons p P ih => simp [total, List.flatMap_cons, Package.bytes_length]

theorem length_sent (L : List WriteBuffer) (h : ∀ wb ∈ L, wb.Ok) :
    (L.flatMap WriteBuffer.sent).length + queued L = total (L.map WriteBuffer.pkg) := by
  induction L with
  | nil => rfl
  | cons wb L ih =>
    have h1 := ih fun x hx => h x (List.mem_cons_of_mem _ hx)
    have hwb := h wb (List.mem_cons_self ..)
    have hlen : wb.sent.length = wb.ptr - wb.pkg.base := by
      have := hwb.2
      rw [WriteBuffer.sent, List.length_take, Package.bytes_length]; omega
    have h2 := hwb.2
    rw [List.flatMap_cons, List.length_append, queued_cons, hlen]
    simp only [total, List.map_cons, List.sum_cons] at h1 ⊢
    omega

/-- What is not on the wire yet is queued. -/
theorem Core.length_wire {s : Sock} (h : Core s) : s.wire.length + queued (queue s) = total s.accepted := by
  obtain ⟨fin, hwire, hord⟩ := h.order
  have hperm := perm_of_filters hord
  have htot : total (fin ++ (queue s).map WriteBuffer.pkg) = total s.accepted :=
    (hperm.map _).sum_eq
  have hsent := length_sent _ h.head.ok
  rw [hwire, List.length_append, length_bytes, ← htot]
  simp only [total, List.map_append, List.sum_append] at hsent ⊢
  omega

/-- In every state of a TCP socket that is sent plain memory buffers: no assertion has failed; the
wire is cut from a sequence of whole packages, each package taken once, in request order within
each priority; `wb_size` counts the bytes queued, which are those not on the wire; and from there
on, a package that is on the wire in part is completed before one that has not begun begins. -/
theorem tcp_write_path {t : SocketType} {as : List Label} {s : Sock} (hplain : ∀ a ∈ as, a.Plain)
    (h : Lts.run step (newFd t) as = some s) :
    s.aborted = false ∧ (s.accepted.map Package.seq).Nodup ∧
    (∃ P : List Package, P.Perm s.accepted ∧
      (∀ pr, P.filter (·.priority = pr) = s.accepted.filter (·.priority = pr)) ∧
      s.wire <+: P.flatMap Package.bytes) ∧
    (s.type ≠ .invalid → s.wbSize = queued (s.high.nodes ++ s.low.nodes) ∧
      s.wire.length + queued (s.high.nodes ++ s.low.nodes) = total s.accepted) ∧
    ∀ bs s', (∀ a ∈ bs, a.Plain) → Lts.run step s bs = some s' →
      ∀ p ∈ s'.accepted, ∀ q ∈ s'.accepted,
        0 < Blocks.count s.wire p.seq → Blocks.count s.wire q.seq = 0 → 0 < Blocks.count s'.wire q.seq →
        Blocks.count s'.wire p.seq = p.data.length := by
  obtain ⟨hI, -⟩ := run_inv (newFd_inv t) hplain h
  refine ⟨hI.alive, by rw [hI.seqs]; exact List.nodup_range, ?_, ?_, ?_⟩
  · obtain ⟨P, hord, hpre⟩ := hI.wire_prefix
    exact ⟨P, perm_of_filters hord, hord, hpre⟩
  · intro hlive
    refine ⟨hI.size hlive, ?_⟩
    rw [← queue_live hI.toCore hlive]
    exact hI.length_wire
  · intro bs s' hplain' h' p hp q hq hpos hq0 hq'
    obtain ⟨hI', hw⟩ := run_inv hI hplain' h'
    obtain ⟨P, hord, hpre⟩ := hI'.wire_prefix
    have hperm := perm_of_filters hord
    have hnd : (P.map Package.seq).Nodup := by
      rw [(hperm.map _).nodup_iff, hI'.seqs]; exact List.nodup_range
    rw [← p.bytes_length]
    have htag : ∀ b : Package, ∀ x ∈ b.bytes, x.1 = b.seq := by
      intro b x hx
      obtain ⟨_, _, rfl⟩ := List.mem_map.mp hx
      rfl
    exact Blocks.prefix_completes htag hnd hw hpre (hperm.mem_iff.mpr hp) (hperm.mem_iff.mpr hq) hpos hq0 hq'

/-- Two packages sent while connecting, the low one first: it is written in part and raised, and a
high one sent then waits for the rest of it. -/
def raisedRun : List Label :=
  [.send { priority := .low, buffer := 1, base := 1, data := [1, 2] } .again, .connect true, .writable [.ok 1],
   .send { priority := .high, buffer := 2, base := 2, data := [3] } .again, .writable [.intr, .ok 1, .ok 0],
   .writable [.again], .writable [.ok 1]]

theorem tcp_write_path_raised :
    (Lts.run step (newFd .connecting) raisedRun).map (fun s => s.wire) = some [(0, 1), (0, 2), (1, 3)] ∧
    ∀ s, Lts.run step (newFd .connecting) raisedRun = some s →
      s.aborted = false ∧ ∃ P : List Package, P.Perm s.accepted ∧ s.wire <+: P.flatMap Package.bytes := by
  refine ⟨by decide, fun s hs => ?_⟩
  have hplain : ∀ a ∈ raisedRun, a.Plain := by
    intro a ha
    simp only [raisedRun, List.mem_cons, List.not_mem_nil, or_false] at ha
    rcases ha with rfl | rfl | rfl | rfl | rfl | rfl | rfl <;> simp [Label.Plain]
  obtain ⟨ha, -, ⟨P, hperm, -, hpre⟩, -⟩ := tcp_write_path (t := .connecting) hplain hs
  exact ⟨ha, P, hperm, hpre⟩

end Socket
end Skynet
