import Skynet.Socket.WritePath

/-!
# Skynet.Socket.Close

Graceful close: `close_socket` without shutdown, and what comes after it.

* `Event` : what happens to a TCP socket. A send request has plain memory, as no caller registers an
  interface for user objects.
* `Event.fails` : a write or read error, a peer close or a shutdown request, with which the socket may
  be closed before its lists are empty.
* `graceful_close` : after the request nothing is accepted; without a failure the socket is closed when
  its lists are empty, with every byte accepted on the wire, and each event that writes brings it nearer.
-/

namespace Skynet
namespace Socket

inductive Event where
  | send (priority : Priority) (buffer : Nat) (data : List UInt8) (w : WriteRes)
  | writable (ws : List WriteRes)
  | connect (ok : Bool)
  | start (ok : Bool)
  | close (shutdown : Bool) (ws : List WriteRes)
  | hangup

def Event.label : Event → Label
  | .send priority buffer data w => .send { priority := priority, buffer := buffer, base := buffer, data := data } w
  | .writable ws => .writable ws
  | .connect ok => .connect ok
  | .start ok => .start ok
  | .close shutdown ws => .close shutdown ws
  | .hangup => .hangup

def event (s : Sock) (e : Event) : Option Sock := step s e.label

/-- A `write` call of `send_buffer` fails. -/
def writeFails (s : Sock) (ws : List WriteRes) : Bool :=
  match sendListTcp s.wbSize s.wire s.high ws with
  | none => false
  | some r =>
    if r.list.nodes = [] then
      r.closed || match sendListTcp r.wbSize r.wire s.low r.rest with
        | none => false
        | some r' => r'.closed
    else r.closed

/-- An error, a peer close or a shutdown request. -/
def Event.fails (s : Sock) : Event → Bool
  | .writable ws => writeFails s ws
  | .close shutdown ws => shutdown || writeFails s ws
  | .hangup => true
  | _ => false

/-- A writable event in which the first `write` that is not interrupted takes a byte, or all of an empty
buffer; or one with nothing left to write. -/
def Event.progress (s : Sock) : Event → Bool
  | .writable ws =>
    decide (s.type ≠ .invalid) &&
      match s.high.nodes ++ s.low.nodes, ws.dropWhile (· = .intr) with
      | [], _ => true
      | wb :: _, .ok n :: _ => decide (0 < n ∨ wb.sz = 0)
      | _ :: _, _ => false
  | _ => false

theorem Event.plain (e : Event) : e.label.Plain := by
  cases e with
  | send priority buffer data w => exact rfl
  | _ => trivial

theorem event_inv {s s' : Sock} {e : Event} (h : Inv s) (hs : event s e = some s') : Inv s' :=
  (step_inv h e.plain hs).1

/-! ### `send_buffer` -/

section SendBuffer

variable {s s' : Sock} {ws : List WriteRes} {c : Bool}

/-- The socket after `send_list_tcp` on its high, and on its low list. -/
def sentHigh (s : Sock) (r : SendList) : Sock := { s with high := r.list, wbSize := r.wbSize, wire := r.wire }

def sentLow (s : Sock) (r r' : SendList) : Sock :=
  { s with high := r.list, low := r'.list, wbSize := r'.wbSize, wire := r'.wire }

/-- What `send_buffer` does. -/
theorem sendBuffer_cases (hI : Inv s) (h : sendBuffer s ws = some (c, s')) :
    ∃ r, sendListTcp s.wbSize s.wire s.high ws = some r ∧
      (r.closed = true ∧ c = true ∧ s' = forceClose (sentHigh s r) ∨
       r.closed = false ∧ r.list.nodes ≠ [] ∧ c = false ∧ s' = sentHigh s r ∨
       r.closed = false ∧ r.list.nodes = [] ∧ s.low.nodes = [] ∧ s.type = .halfclose ∧ c = true ∧
         s' = forceClose (sentHigh s r) ∨
       r.closed = false ∧ r.list.nodes = [] ∧ s.low.nodes = [] ∧ s.type ≠ .halfclose ∧ c = false ∧ s' = sentHigh s r ∨
       r.closed = false ∧ r.list.nodes = [] ∧ s.low.nodes ≠ [] ∧ ∃ r', sendListTcp r.wbSize r.wire s.low r.rest = some r' ∧
         (r'.closed = true ∧ c = true ∧ s' = forceClose (sentLow s r r') ∨
          r'.closed = false ∧ c = false ∧ (s' = raiseUncomplete (sentLow s r r') ∨ s' = sentLow s r r'))) := by
  simp only [sendBuffer, listUncomplete_eq_false hI, Bool.false_eq_true, if_false] at h
  rw [Option.bind_eq_bind, Option.bind_eq_some_iff] at h
  obtain ⟨r, hr, h⟩ := h
  refine ⟨r, hr, ?_⟩
  split at h
  · rename_i hclosed
    cases h
    exact .inl ⟨hclosed, rfl, rfl⟩
  rename_i hclosed
  have hclosed : r.closed = false := by simpa using hclosed
  refine .inr ?_
  split at h
  · rename_i hhigh
    refine .inr ?_
    split at h
    · rename_i hlow
      rw [Option.bind_eq_some_iff] at h
      obtain ⟨r', hr', h⟩ := h
      refine .inr (.inr ⟨hclosed, hhigh, hlow, r', hr', ?_⟩)
      split at h
      · rename_i hclosed'
        cases h
        exact .inl ⟨hclosed', rfl, rfl⟩
      · rename_i hclosed'
        have hclosed' : r'.closed = false := by simpa using hclosed'
        refine .inr ?_
        split at h
        · cases h
          exact ⟨hclosed', rfl, .inl rfl⟩
        · cases h
          exact ⟨hclosed', rfl, .inr rfl⟩
    · rename_i hlow
      have hlow : s.low.nodes = [] := not_not.mp hlow
      split at h
      · rename_i htype
        cases h
        exact .inl ⟨hclosed, hhigh, hlow, htype, rfl, rfl⟩
      · rename_i htype
        cases h
        exact .inr (.inl ⟨hclosed, hhigh, hlow, htype, rfl, rfl⟩)
  · rename_i hhigh
    cases h
    exact .inl ⟨hclosed, hhigh, rfl, rfl⟩

end SendBuffer

/-! ### What is left to write -/

def lists (s : Sock) : List WriteBuffer := s.high.nodes ++ s.low.nodes

/-- The bytes and the buffers left. -/
def work (L : List WriteBuffer) : Nat := queued L + L.length

theorem work_cons (wb : WriteBuffer) (L : List WriteBuffer) : work (wb :: L) = wb.sz + 1 + work L := by
  simp only [work, queued_cons, List.length_cons]
  omega

theorem work_append (L M : List WriteBuffer) : work (L ++ M) = work L + work M := by
  simp only [work, queued_append, List.length_append]
  omega

theorem work_pos {L : List WriteBuffer} (h : L ≠ []) : 0 < work L := by
  have := List.length_pos_of_ne_nil h
  rw [work]
  omega

section SendList

variable {wbSize : Int} {wire : List (Nat × UInt8)} {list : WbList} {ws : List WriteRes} {r : SendList}

theorem sendListTcp_nil (h : sendListTcp wbSize wire list ws = some r) (hnil : list.nodes = []) :
    r.closed = false ∧ r.list.nodes = [] ∧ r.rest = ws := by
  cases ws <;> simp only [sendListTcp, hnil, Option.some.injEq] at h <;> rw [← h] <;> exact ⟨rfl, rfl, rfl⟩

theorem sendListTcp_work (h : sendListTcp wbSize wire list ws = some r) : work r.list.nodes ≤ work list.nodes := by
  induction ws generalizing wbSize wire list with
  | nil =>
    simp only [sendListTcp] at h
    split at h
    · cases h
      exact Nat.zero_le _
    · cases h
  | cons w ws ih =>
    simp only [sendListTcp] at h
    split at h
    · cases h
      exact Nat.zero_le _
    rename_i tmp next hcons
    cases w with
    | intr => exact ih h
    | again =>
      cases h
      exact Nat.le_refl _
    | error =>
      cases h
      exact Nat.le_refl _
    | ok n =>
      simp only at h
      split at h
      · cases h
      split at h
      · cases h
        simp only [hcons, work_cons]
        omega
      · have hnext := ih h
        rw [hcons, work_cons]
        simp only at hnext
        omega

/-- A first `write` that takes a byte, or all of an empty buffer, leaves less to write. -/
theorem sendListTcp_progress (h : sendListTcp wbSize wire list ws = some r) {wb : WriteBuffer} {next : List WriteBuffer}
    (hcons : list.nodes = wb :: next) {n : Nat} {ws' : List WriteRes} (hw : ws.dropWhile (· = .intr) = .ok n :: ws')
    (hn : 0 < n ∨ wb.sz = 0) : work r.list.nodes < work list.nodes := by
  induction ws with
  | nil => cases hw
  | cons w ws ih =>
    simp only [sendListTcp, hcons] at h
    cases w with
    | intr => exact ih h (by rwa [List.dropWhile_cons_of_pos (by rfl)] at hw)
    | again => cases (List.dropWhile_cons_of_neg (l := ws) (p := fun x => decide (x = WriteRes.intr)) (by decide)).symm.trans hw
    | error => cases (List.dropWhile_cons_of_neg (l := ws) (p := fun x => decide (x = WriteRes.intr)) (by decide)).symm.trans hw
    | ok m =>
      rw [List.dropWhile_cons_of_neg (by simp)] at hw
      cases hw
      simp only at h
      split at h
      · cases h
      rename_i hle
      rw [hcons, work_cons]
      split at h
      · cases h
        simp only [work_cons]
        omega
      · have hnext := sendListTcp_work h
        simp only at hnext
        omega

end SendList

/-! ### After the request -/

variable {s s' : Sock} {ws : List WriteRes} {c : Bool}

theorem forceClose_type (s : Sock) : (forceClose s).type = .invalid := by
  unfold forceClose
  split
  · assumption
  · rfl

theorem forceClose_accepted (s : Sock) : (forceClose s).accepted = s.accepted := by
  unfold forceClose
  split <;> rfl

theorem forceClose_dropped (hhigh : s.high.nodes = []) (hlow : s.low.nodes = []) : (forceClose s).dropped = s.dropped := by
  unfold forceClose
  split
  · rfl
  · simp only [hhigh, hlow, List.append_nil]

theorem raiseUncomplete_rest (s : Sock) :
    (raiseUncomplete s).type = s.type ∧ (raiseUncomplete s).accepted = s.accepted ∧ (raiseUncomplete s).dropped = s.dropped := by
  unfold raiseUncomplete
  split
  · exact ⟨rfl, rfl, rfl⟩
  · simp only
    split <;> exact ⟨rfl, rfl, rfl⟩

theorem raiseUncomplete_lists (hhigh : s.high.nodes = []) : lists (raiseUncomplete s) = lists s := by
  unfold raiseUncomplete
  split
  · rfl
  · rename_i tmp next hlow
    rw [if_neg (not_not.mpr hhigh)]
    simp only [lists, hhigh, hlow]
    split
    · rename_i hnext
      rw [hnext]
      rfl
    · rfl

theorem sendBuffer_rest (hI : Inv s) (h : sendBuffer s ws = some (c, s')) :
    s'.accepted = s.accepted ∧ (c = true → s'.type = .invalid) ∧ (c = false → s'.type = s.type) ∧
      (writeFails s ws = false → s'.dropped = s.dropped) := by
  obtain ⟨r, hr, h⟩ := sendBuffer_cases hI h
  rcases h with ⟨hclosed, rfl, rfl⟩ | ⟨_, _, rfl, rfl⟩ | ⟨_, hhigh, hlow, _, rfl, rfl⟩ | ⟨_, _, _, _, rfl, rfl⟩ |
    ⟨hclosed, hhigh, hlow, r', hr', h⟩
  · refine ⟨forceClose_accepted _, fun _ => forceClose_type _, fun hc => (by cases hc), fun hw => ?_⟩
    rw [writeFails, hr] at hw
    simp only [hclosed, Bool.true_or, ite_self] at hw
    cases hw
  · exact ⟨rfl, fun hc => (by cases hc), fun _ => rfl, fun _ => rfl⟩
  · exact ⟨forceClose_accepted _, fun _ => forceClose_type _, fun hc => (by cases hc), fun _ => forceClose_dropped hhigh hlow⟩
  · exact ⟨rfl, fun hc => (by cases hc), fun _ => rfl, fun _ => rfl⟩
  · rcases h with ⟨hclosed', rfl, rfl⟩ | ⟨_, rfl, rfl | rfl⟩
    · refine ⟨forceClose_accepted _, fun _ => forceClose_type _, fun hc => (by cases hc), fun hw => ?_⟩
      rw [writeFails, hr] at hw
      simp only [if_pos hhigh, hr', hclosed', Bool.or_true] at hw
      cases hw
    · obtain ⟨htype, haccepted, hdropped⟩ := raiseUncomplete_rest (sentLow s r r')
      exact ⟨haccepted, fun hc => (by cases hc), fun _ => htype, fun _ => hdropped⟩
    · exact ⟨rfl, fun hc => (by cases hc), fun _ => rfl, fun _ => rfl⟩

/-- The events it takes at most until the socket is closed. -/
def left (s : Sock) : Nat := if s.type = .invalid then 0 else work (lists s) + 1

theorem left_invalid (h : s.type = .invalid) : left s = 0 := if_pos h

theorem left_live (h : s.type ≠ .invalid) : left s = work (lists s) + 1 := if_neg h

theorem sendBuffer_left (hI : Inv s) (hhalf : s.type = .halfclose) (h : sendBuffer s ws = some (c, s')) :
    left s' ≤ left s ∧ ((Event.writable ws).progress s = true → left s' < left s) := by
  have hlive : s.type ≠ .invalid := by rw [hhalf]; decide
  have hleft := left_live hlive
  have hclosed : s'.type = .invalid → left s' ≤ left s ∧ ((Event.writable ws).progress s = true → left s' < left s) := by
    intro hinvalid
    rw [left_invalid hinvalid]
    omega
  -- the first buffer is at the head of the list that is sent from first
  have hprogress : ∀ {wb rest}, lists s = wb :: rest → (Event.writable ws).progress s = true →
      ∃ n ws', ws.dropWhile (· = .intr) = .ok n :: ws' ∧ (0 < n ∨ wb.sz = 0) := by
    intro wb rest hcons hp
    simp only [Event.progress, Bool.and_eq_true] at hp
    obtain ⟨-, hp⟩ := hp
    rw [show s.high.nodes ++ s.low.nodes = wb :: rest from hcons] at hp
    split at hp
    · rename_i hnil
      cases hnil
    · rename_i heq hw
      cases heq
      exact ⟨_, _, hw, of_decide_eq_true hp⟩
    · cases hp
  obtain ⟨r, hr, h⟩ := sendBuffer_cases hI h
  have hwork := sendListTcp_work hr
  rcases h with ⟨_, rfl, rfl⟩ | ⟨_, hhigh, rfl, rfl⟩ | ⟨_, _, _, _, rfl, rfl⟩ | ⟨_, _, _, htype, rfl, rfl⟩ |
    ⟨_, hhigh, hlow, r', hr', h⟩
  · exact hclosed (forceClose_type _)
  · have hlists : lists (sentHigh s r) = r.list.nodes ++ s.low.nodes := rfl
    rw [left_live (show (sentHigh s r).type ≠ .invalid from hlive), hlists, hleft, lists, work_append, work_append]
    refine ⟨by omega, fun hp => ?_⟩
    cases hnodes : s.high.nodes with
    | nil => exact absurd (sendListTcp_nil hr hnodes).2.1 hhigh
    | cons wb next =>
      obtain ⟨n, ws', hw, hn⟩ := hprogress (by rw [lists, hnodes]; rfl) hp
      have := sendListTcp_progress hr hnodes hw hn
      rw [hnodes] at this
      omega
  · exact hclosed (forceClose_type _)
  · exact absurd hhalf htype
  · have hwork' := sendListTcp_work hr'
    rw [hhigh] at hwork
    have hlists : lists (sentLow s r r') = r'.list.nodes := by simp only [lists, sentLow, hhigh, List.nil_append]
    have hdone : s'.type ≠ .invalid → lists s' = r'.list.nodes →
        left s' ≤ left s ∧ ((Event.writable ws).progress s = true → left s' < left s) := by
      intro hlive' hlists'
      rw [left_live hlive', hlists', hleft, lists, work_append]
      refine ⟨by omega, fun hp => ?_⟩
      by_cases hnodes : s.high.nodes = []
      · obtain ⟨_, _, hrest⟩ := sendListTcp_nil hr hnodes
        cases hlowNodes : s.low.nodes with
        | nil => exact absurd hlowNodes hlow
        | cons wb next =>
          obtain ⟨n, ws', hw, hn⟩ := hprogress (by rw [lists, hnodes, hlowNodes]; rfl) hp
          have := sendListTcp_progress hr' hlowNodes (by rw [hrest]; exact hw) hn
          rw [hlowNodes] at this
          omega
      · have := work_pos hnodes
        omega
    rcases h with ⟨_, rfl, rfl⟩ | ⟨_, rfl, rfl | rfl⟩
    · exact hclosed (forceClose_type _)
    · refine hdone ?_ ((raiseUncomplete_lists hhigh).trans hlists)
      rw [(raiseUncomplete_rest _).1]
      exact hlive
    · exact hdone hlive hlists

/-- A socket that was asked to close when it had accepted `A`. -/
structure Closing (A : List Package) (s : Sock) : Prop where
  inv : Inv s
  type : s.type = .halfclose ∨ s.type = .invalid
  accepted : s.accepted = A

theorem closeFlush_rest (hI : Inv s) (h : closeFlush s ws = some (c, s')) :
    s'.accepted = s.accepted ∧ (c = true → s'.type = .invalid) ∧ (c = false → s'.type = s.type) ∧
      (writeFails s ws = false → s'.dropped = s.dropped) := by
  unfold closeFlush at h
  split at h
  · cases h
    exact ⟨rfl, fun hc => (by cases hc), fun _ => rfl, fun _ => rfl⟩
  · exact sendBuffer_rest hI h

theorem closeFlush_inv (hI : Inv s) (hlive : s.type ≠ .invalid) (h : closeFlush s ws = some (c, s')) : Inv s' := by
  unfold closeFlush at h
  split at h
  · cases h
    exact hI
  · exact (sendBuffer_inv hI hlive h).1

/-- What `close_socket` does with a socket that exists. -/
theorem closeSocket_cases {shutdown : Bool} (hI : Inv s) (hlive : s.type ≠ .invalid) (h : closeSocket s shutdown ws = some s') :
    ∃ c t, closeFlush s ws = some (c, t) ∧
      (c = true ∧ s' = t ∨
       c = false ∧ (shutdown = true ∨ lists t = []) ∧ s' = forceClose t ∨
       c = false ∧ s' = { t with type := .halfclose }) := by
  unfold closeSocket at h
  rw [Option.bind_eq_bind, Option.bind_eq_some_iff] at h
  obtain ⟨⟨c, t⟩, ht, h⟩ := h
  have halive := (closeFlush_inv hI hlive ht).alive
  refine ⟨c, t, ht, ?_⟩
  simp only at h
  split at h
  · rename_i hc
    rw [halive, Bool.or_false] at hc
    cases h
    exact .inl ⟨hc, rfl⟩
  · rename_i hc
    have hc : c = false := by simpa [halive] using hc
    split at h
    · rename_i hdone
      cases h
      refine .inr (.inl ⟨hc, ?_, rfl⟩)
      rcases Bool.or_eq_true_iff.mp hdone with hdone | hdone
      · exact .inl hdone
      · obtain ⟨hhigh, hlow⟩ := sendBufferEmpty_iff.mp hdone
        exact .inr (by rw [lists, hhigh, hlow]; rfl)
    · cases h
      exact .inr (.inr ⟨hc, rfl⟩)

theorem closeSocket_closing {shutdown : Bool} (hI : Inv s) (hlive : s.type ≠ .invalid) (h : closeSocket s shutdown ws = some s') :
    Closing s.accepted s' ∧ (shutdown = false → writeFails s ws = false → s'.dropped = s.dropped) := by
  have hI' := (closeSocket_inv hI hlive h).1
  obtain ⟨c, t, ht, h⟩ := closeSocket_cases hI hlive h
  obtain ⟨haccepted, hclosed, _, hdropped⟩ := closeFlush_rest hI ht
  rcases h with ⟨hc, rfl⟩ | ⟨_, hwhy, rfl⟩ | ⟨_, rfl⟩
  · exact ⟨⟨hI', .inr (hclosed hc), haccepted⟩, fun _ => hdropped⟩
  · refine ⟨⟨hI', .inr (forceClose_type t), (forceClose_accepted t).trans haccepted⟩, fun hshutdown hw => ?_⟩
    have hempty : lists t = [] := hwhy.resolve_left (by rw [hshutdown]; decide)
    obtain ⟨hhigh, hlow⟩ := List.append_eq_nil_iff.mp hempty
    rw [forceClose_dropped hhigh hlow, hdropped hw]
  · exact ⟨⟨hI', .inl rfl, haccepted⟩, fun _ => hdropped⟩

theorem closeFlush_left (hI : Inv s) (hhalf : s.type = .halfclose) (h : closeFlush s ws = some (c, s')) : left s' ≤ left s := by
  unfold closeFlush at h
  split at h
  · cases h
    exact Nat.le_refl _
  · exact (sendBuffer_left hI hhalf h).1

theorem closeSocket_left {shutdown : Bool} (hI : Inv s) (hhalf : s.type = .halfclose) (h : closeSocket s shutdown ws = some s') :
    left s' ≤ left s := by
  have hlive : s.type ≠ .invalid := by rw [hhalf]; decide
  obtain ⟨c, t, ht, h⟩ := closeSocket_cases hI hlive h
  have hflush := closeFlush_left hI hhalf ht
  rcases h with ⟨_, rfl⟩ | ⟨_, _, rfl⟩ | ⟨hc, rfl⟩
  · exact hflush
  · rw [left_invalid (forceClose_type t)]
    exact Nat.zero_le _
  · have htype : t.type = .halfclose := ((closeFlush_rest hI ht).2.2.1 hc).trans hhalf
    have hsame : ({ t with type := .halfclose } : Sock) = t := by rw [← htype]
    rw [hsame]
    exact hflush

/-- One event of a closing socket: it accepts nothing, drops no buffer without a failure, and an event that
writes leaves less to do. -/
theorem event_closing {A : List Package} {e : Event} (hC : Closing A s) (h : event s e = some s') :
    Closing A s' ∧ (e.fails s = false → s'.dropped = s.dropped) ∧ left s' ≤ left s ∧
      (e.progress s = true → left s' < left s) := by
  have hI := hC.inv
  have hsame : ∀ {t}, some s = some t → e.progress s = false →
      Closing A t ∧ (e.fails s = false → t.dropped = s.dropped) ∧ left t ≤ left s ∧
        (e.progress s = true → left t < left s) := by
    intro t ht hp
    cases ht
    exact ⟨hC, fun _ => rfl, Nat.le_refl _, fun hp' => by rw [hp] at hp'; cases hp'⟩
  have hI' := event_inv hI h
  unfold event step at h
  rw [if_neg (by rw [hI.alive]; decide)] at h
  cases e with
  | send priority buffer data w =>
    refine hsame ?_ rfl
    simp only [Event.label, sendSocket] at h
    rcases hC.type with htype | htype <;> simpa only [htype, reduceCtorEq, or_true, true_or, false_or, or_false, if_true] using h
  | writable ws =>
    simp only [Event.label] at h
    rcases hC.type with htype | htype
    · rw [if_neg (by rw [htype]; decide)] at h
      obtain ⟨⟨c, t⟩, ht, rfl⟩ := Option.map_eq_some_iff.mp h
      obtain ⟨haccepted, hclosed, hopen, hdropped⟩ := sendBuffer_rest hI ht
      obtain ⟨hle, hlt⟩ := sendBuffer_left hI htype ht
      refine ⟨⟨hI', ?_, haccepted.trans hC.accepted⟩, hdropped, hle, hlt⟩
      cases c with
      | true => exact .inr (hclosed rfl)
      | false => exact .inl ((hopen rfl).trans htype)
    · rw [if_pos (.inl htype)] at h
      refine hsame h ?_
      simp only [Event.progress, htype, ne_eq, not_true, decide_false, Bool.false_and]
  | connect ok =>
    simp only [Event.label] at h
    rw [if_pos (by rcases hC.type with htype | htype <;> rw [htype] <;> decide)] at h
    cases h
  | start ok =>
    refine hsame ?_ rfl
    simp only [Event.label] at h
    rcases hC.type with htype | htype <;> simpa only [htype, reduceCtorEq, if_false] using h
  | close shutdown ws =>
    simp only [Event.label] at h
    rcases hC.type with htype | htype
    · have hlive : s.type ≠ .invalid := by rw [htype]; decide
      rw [if_neg hlive] at h
      obtain ⟨hclosing, hdropped⟩ := closeSocket_closing hI hlive h
      rw [hC.accepted] at hclosing
      refine ⟨hclosing, fun hfails => ?_, closeSocket_left hI htype h, fun hp => by cases hp⟩
      obtain ⟨hshutdown, hw⟩ := Bool.or_eq_false_iff.mp hfails
      exact hdropped hshutdown hw
    · rw [if_pos htype] at h
      exact hsame h rfl
  | hangup =>
    simp only [Event.label, Option.some.injEq] at h
    rw [← h] at hI' ⊢
    refine ⟨⟨hI', .inr (forceClose_type s), (forceClose_accepted s).trans hC.accepted⟩, fun hfails => (by cases hfails), ?_,
      fun hp => (by cases hp)⟩
    rw [left_invalid (forceClose_type s)]
    exact Nat.zero_le _

/-! ### The whole life of a socket -/

theorem queue_closed (hI : Inv s) (htype : s.type = .invalid) (hdropped : s.dropped = []) : queue s = [] := by
  obtain ⟨hhigh, hlow⟩ := hI.closed htype
  rw [queue, hdropped, hhigh, hlow]
  rfl

/-- A socket with any past is asked to close without shutdown. -/
theorem graceful_close {t : SocketType} {before after : List Event} {s s₁ s' : Sock} {ws : List WriteRes}
    (hbefore : Lts.run event (newFd t) before = some s) (hlive : s.type ≠ .invalid) (hclose : event s (.close false ws) = some s₁)
    (hafter : Lts.run event s₁ after = some s') :
    s'.accepted = s.accepted ∧
    ∃ P : List Package, (∀ pr, P.filter (·.priority = pr) = s.accepted.filter (·.priority = pr)) ∧
      s'.wire <+: P.flatMap Package.bytes ∧
      (Lts.Guarded event (fun s e => e.fails s = false) s (.close false ws :: after) →
        (s'.type = .invalid → s'.dropped = [] ∧ s'.wire = P.flatMap Package.bytes) ∧
        (s'.type ≠ .invalid → Lts.count event (fun s e => e.progress s) s₁ after ≤ work (lists s₁))) := by
  have hI : Inv s := Lts.run_invariant (fun _ _ _ hI hstep => event_inv hI hstep) hbefore (newFd_inv t)
  have hclose' : closeSocket s false ws = some s₁ := by
    unfold event step at hclose
    rw [if_neg (by rw [hI.alive]; decide)] at hclose
    simpa only [Event.label, if_neg hlive] using hclose
  obtain ⟨hC, hdropped⟩ := closeSocket_closing hI hlive hclose'
  have hC' : Closing s.accepted s' :=
    Lts.run_invariant (fun _ _ _ hC hstep => (event_closing hC hstep).1) hafter hC
  have hleft : Lts.count event (fun s e => e.progress s) s₁ after + left s' ≤ left s₁ :=
    Lts.count_le (fun _ _ _ hC hstep => ⟨(event_closing hC hstep).1, (event_closing hC hstep).2.2⟩) hafter hC
  obtain ⟨fin, hwire, hord⟩ := hC'.inv.order
  refine ⟨hC'.accepted, fin ++ (queue s').map WriteBuffer.pkg, fun pr => (hord pr).trans (by rw [hC'.accepted]), ?_,
    fun hguard => ⟨fun htype => ?_, fun hlive' => ?_⟩⟩
  · rw [hwire, List.flatMap_append]
    exact (List.prefix_append_right_inj _).mpr (sent_isHead _ hC'.inv.head)
  · have hfirst : s₁.dropped = [] := by rw [hdropped rfl hguard.1, hI.live hlive]
    have hnone : Closing s.accepted s' ∧ s'.dropped = [] := by
      refine Lts.run_invariant_of_guarded (P := fun s' => Closing s.accepted s' ∧ s'.dropped = []) ?_ hafter (hguard.2 s₁ hclose)
        ⟨hC, hfirst⟩
      rintro u e u' ⟨hu, hempty⟩ hfails hstep
      obtain ⟨hu', hsame, _⟩ := event_closing hu hstep
      exact ⟨hu', (hsame hfails).trans hempty⟩
    refine ⟨hnone.2, ?_⟩
    rw [hwire, queue_closed hC'.inv htype hnone.2]
    simp only [List.map_nil, List.flatMap_nil, List.append_nil]
  · rw [left_live hlive'] at hleft
    have hle : left s₁ ≤ work (lists s₁) + 1 := by
      unfold left
      split <;> omega
    omega

/-- While it connects the socket takes a low package and a high one. -/
def taken : List Event := [.send .low 1 [1] .again, .send .high 2 [2] .again, .connect true]

/-- After the request it refuses a package, and the two buffers are written. -/
def drained : List Event := [.send .high 3 [3] .again, .writable [.ok 1, .ok 1], .writable []]

theorem drained_run : ∃ s s₁ s', Lts.run event (newFd .connecting) taken = some s ∧ s.type ≠ .invalid ∧
    event s (.close false [.again]) = some s₁ ∧ Lts.run event s₁ drained = some s' ∧
    Lts.Guarded event (fun s e => e.fails s = false) s (.close false [.again] :: drained) ∧ s'.type = .invalid ∧
    s'.wire = [(1, 2), (0, 1)] ∧ s.accepted.flatMap Package.bytes = [(0, 1), (1, 2)] := by
  obtain ⟨s, hs⟩ : ∃ s, Lts.run event (newFd .connecting) taken = some s := ⟨_, rfl⟩
  have hcheck : Lts.check event (fun s e => !e.fails s) (fun s' => decide (s'.type = .invalid ∧ s'.wire = [(1, 2), (0, 1)])) s
      (.close false [.again] :: drained) = true := by
    rw [← Option.some.inj hs]
    decide
  obtain ⟨s', hrun, hguard, hp⟩ := Lts.of_check (G := fun s e => e.fails s = false) (fun s e he => by simpa using he) hcheck
  obtain ⟨s₁, hclose, hafter⟩ := Lts.run_cons.mp hrun
  obtain ⟨htype, hwire⟩ := of_decide_eq_true hp
  refine ⟨s, s₁, s', hs, ?_, hclose, hafter, hguard, htype, hwire, ?_⟩
  · rw [← Option.some.inj hs]
    decide
  · rw [← Option.some.inj hs]
    decide

theorem graceful_close_drained : ∃ s s₁ s', event s (.close false [.again]) = some s₁ ∧ Lts.run event s₁ drained = some s' ∧
    s'.accepted = s.accepted ∧ s'.dropped = [] := by
  obtain ⟨s, s₁, s', hbefore, hlive, hclose, hafter, hguard, htype, _, _⟩ := drained_run
  obtain ⟨haccepted, P, _, _, hdone⟩ := graceful_close hbefore hlive hclose hafter
  exact ⟨s, s₁, s', hclose, hafter, haccepted, ((hdone hguard).1 htype).1⟩

/-- The high package goes out before the low one, which was accepted first. -/
theorem high_overtakes_low : ¬ ∀ (t : SocketType) (before after : List Event) (s s₁ s' : Sock) (ws : List WriteRes),
    Lts.run event (newFd t) before = some s → s.type ≠ .invalid → event s (.close false ws) = some s₁ →
      Lts.run event s₁ after = some s' → Lts.Guarded event (fun s e => e.fails s = false) s (.close false ws :: after) →
        s'.type = .invalid → s'.wire = s.accepted.flatMap Package.bytes := by
  intro hclaim
  obtain ⟨s, s₁, s', hbefore, hlive, hclose, hafter, hguard, htype, hwire, haccepted⟩ := drained_run
  have heq := hclaim _ _ _ s s₁ s' _ hbefore hlive hclose hafter hguard htype
  rw [hwire, haccepted] at heq
  exact absurd heq (by decide)

end Socket
end Skynet
