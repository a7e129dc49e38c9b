import Skynet.Socket.WritePath

/-!
# Skynet.Socket.Uncomplete

Which packages `list_uncomplete` takes for partly written ones, with plain memory and user objects mixed.

* `Request.appendsLow` : the request comes to the low list.
* `Settled` : the low list holds fresh packages whose bytes are at the address of the request's buffer.
* `low_uncomplete_written` : when no other package comes to the low list, the assertion of `send_buffer` holds in every
  state, and only a package with bytes on the wire is raised.
-/

namespace Skynet
namespace Socket

/-- `send_socket` appends the request to the low list. -/
def Request.appendsLow (r : Request) (s : Sock) : Prop :=
  ¬ (s.type = .invalid ∨ s.type = .halfclose ∨ s.type = .paccept) ∧ ¬ (s.type = .plisten ∨ s.type = .listen) ∧
    ¬ (sendBufferEmpty s ∧ s.type = .connected) ∧ r.priority = .low

instance (r : Request) (s : Sock) : Decidable (r.appendsLow s) := inferInstanceAs (Decidable (_ ∧ _ ∧ _ ∧ _))

/-- The bytes of a request for the low list are at the address of its buffer. -/
def Label.Direct (s : Sock) : Label → Prop
  | .send r _ => r.appendsLow s → r.base = r.buffer
  | _ => True

/-- The high list may hold any packages, of which only the first may be partly written. -/
structure Settled (s : Sock) : Prop where
  alive : s.aborted = false
  tailHigh : TailOk s.high
  tailLow : TailOk s.low
  head : HeadOnly s.high.nodes
  freshLow : ∀ wb ∈ s.low.nodes, wb.Fresh
  direct : ∀ wb ∈ s.low.nodes, wb.pkg.base = wb.pkg.buffer

theorem newFd_settled (t : SocketType) : Settled (newFd t) :=
  ⟨rfl, rfl, rfl, trivial, by simp [newFd, WbList.clear], by simp [newFd, WbList.clear]⟩

theorem forceClose_settled {s : Sock} (h : s.aborted = false) (hs : s.type = .invalid → Settled s) :
    Settled (forceClose s) := by
  unfold forceClose
  split
  · rename_i hinv
    exact hs hinv
  · exact ⟨h, .clear, .clear, trivial, by simp [WbList.clear], by simp [WbList.clear]⟩

theorem Settled.forceClose {s : Sock} (h : Settled s) : Settled (forceClose s) :=
  forceClose_settled h.alive fun _ => h

theorem Settled.setType {s : Sock} (h : Settled s) (t : SocketType) : Settled { s with type := t } :=
  { h with }

/-! ### The low list -/

/-- A complete head has not been begun. -/
theorem complete_fresh {l : WbList} (hhead : HeadOnly l.nodes) (hdirect : ∀ wb ∈ l.nodes, wb.pkg.base = wb.pkg.buffer)
    (hc : listUncomplete l = false) : ∀ wb ∈ l.nodes, wb.Fresh := by
  unfold listUncomplete at hc
  split at hc
  · rename_i hn
    simp [hn]
  · rename_i wb L hn
    rw [hn] at hhead hdirect ⊢
    rw [decide_eq_false_iff_not, not_not] at hc
    intro x hx
    rcases List.mem_cons.mp hx with rfl | hx
    · exact hhead.1.fresh (hc.trans (hdirect x (List.mem_cons_self ..)).symm)
    · exact hhead.2 x hx

/-- Fresh packages at the addresses of their buffers are complete. -/
theorem fresh_complete {l : WbList} (hfresh : ∀ wb ∈ l.nodes, wb.Fresh)
    (hdirect : ∀ wb ∈ l.nodes, wb.pkg.base = wb.pkg.buffer) : listUncomplete l = false := by
  unfold listUncomplete
  split
  · rfl
  · rename_i wb L hn
    have hwb : wb ∈ l.nodes := by rw [hn]; exact List.mem_cons_self ..
    rw [decide_eq_false_iff_not, not_not, (hfresh wb hwb).1]
    exact hdirect wb hwb

/-- What is left of the low list keeps the addresses. -/
theorem Settled.direct_of_sends {s : Sock} (h : Settled s) {wbSize : Int} {wire : List (Nat × UInt8)}
    {fin : List Package} {r : SendList} (hS : Sends wbSize wire s.low.nodes fin r) :
    ∀ wb ∈ r.list.nodes, wb.pkg.base = wb.pkg.buffer := by
  intro wb hwb
  obtain ⟨wb', hwb', hpkg⟩ := hS.mem hwb
  rw [← hpkg]
  exact h.direct wb' hwb'

theorem raiseUncomplete_settled {s : Sock} (h : s.aborted = false) (hhigh : s.high.nodes = []) (htail : TailOk s.low)
    (hhead : HeadOnly s.low.nodes) (hdirect : ∀ wb ∈ s.low.nodes, wb.pkg.base = wb.pkg.buffer) (hne : s.low.nodes ≠ []) :
    Settled (raiseUncomplete s) := by
  cases hn : s.low.nodes with
  | nil => exact absurd hn hne
  | cons tmp next =>
    rw [hn] at hhead hdirect
    rw [TailOk, hn] at htail
    have hone : HeadOnly [tmp] := ⟨hhead.1, by simp⟩
    have hnext : ∀ wb ∈ next, wb.pkg.base = wb.pkg.buffer := fun wb hwb => hdirect wb (List.mem_cons_of_mem _ hwb)
    simp only [raiseUncomplete, hn, hhigh, ne_eq, not_true_eq_false, if_false]
    split
    · exact ⟨h, rfl, .clear, hone, by simp [WbList.clear], by simp [WbList.clear]⟩
    · rename_i hcons
      refine ⟨h, rfl, ?_, hone, hhead.2, hnext⟩
      rw [TailOk, htail, List.getLast?_cons_of_ne_nil hcons]

/-! ### The steps -/

theorem sendBuffer_settled {s s' : Sock} {ws : List WriteRes} {c : Bool} (h : Settled s)
    (hlive : s.type ≠ .invalid) (hs : sendBuffer s ws = some (c, s')) : Settled s' := by
  simp only [sendBuffer, fresh_complete h.freshLow h.direct, Bool.false_eq_true, if_false] at hs
  rw [Option.bind_eq_bind, Option.bind_eq_some_iff] at hs
  obtain ⟨r, hr, hs⟩ := hs
  obtain ⟨fin, hS⟩ := sendListTcp_spec hr h.head fun _ => h.tailHigh
  have h1 : Settled { s with high := r.list, wbSize := r.wbSize, wire := r.wire } :=
    { h with tailHigh := hS.tail, head := hS.head }
  split at hs
  · cases hs
    exact h1.forceClose
  split at hs
  · rename_i hhigh
    split at hs
    · rw [Option.bind_eq_some_iff] at hs
      obtain ⟨r', hr', hs⟩ := hs
      obtain ⟨fin', hS'⟩ := sendListTcp_spec hr' (.of_fresh h1.freshLow) fun _ => h1.tailLow
      have hdirect := h1.direct_of_sends hS'
      split at hs
      · cases hs
        exact forceClose_settled h.alive fun hinv => absurd hinv hlive
      split at hs
      · rename_i hunc
        cases hs
        refine raiseUncomplete_settled h.alive hhigh hS'.tail hS'.head hdirect ?_
        intro hnil
        rw [listUncomplete_nil hnil] at hunc
        cases hunc
      · rename_i hunc
        cases hs
        exact { h1 with
          tailLow := hS'.tail
          freshLow := complete_fresh hS'.head hdirect (by simpa using hunc)
          direct := hdirect }
    · split at hs
      · cases hs
        exact h1.forceClose
      · cases hs
        exact h1
  · cases hs
    exact h1

theorem appendHigh_settled {s : Sock} (h : Settled s) (p : Package) {n : Nat} (hn : n ≤ p.data.length)
    (hfirst : n = 0 ∨ s.high.nodes = []) : Settled (appendHigh s p n) := by
  rw [appendHigh, appendSendbuffer_ok h.tailHigh]
  have hok : WriteBuffer.Ok { pkg := p, ptr := p.base + n, sz := p.data.length - n } :=
    ⟨by simp only; omega, by simp only; omega⟩
  refine { h with tailHigh := tailOk_append _ _, head := ?_ }
  simp only
  rcases hfirst with rfl | hnil
  · apply h.head.append
    intro x hx
    rw [List.mem_singleton.mp hx]
    exact hok.fresh rfl
  · rw [hnil]
    exact ⟨hok, by simp⟩

theorem appendLow_settled {s : Sock} (h : Settled s) (p : Package) (hp : p.base = p.buffer) :
    Settled (appendLow s p) := by
  rw [appendLow, appendSendbuffer_ok h.tailLow]
  refine { h with tailLow := tailOk_append _ _, freshLow := ?_, direct := ?_ }
  · intro wb hwb
    rcases List.mem_append.mp hwb with hwb | hwb
    · exact h.freshLow wb hwb
    · rw [List.mem_singleton.mp hwb]; exact ⟨rfl, rfl⟩
  · intro wb hwb
    rcases List.mem_append.mp hwb with hwb | hwb
    · exact h.direct wb hwb
    · rw [List.mem_singleton.mp hwb]; exact hp

theorem sendSocket_settled {s s' : Sock} {r : Request} {w : WriteRes} (h : Settled s)
    (hdirect : r.appendsLow s → r.base = r.buffer) (hs : sendSocket s r w = some s') : Settled s' := by
  have htake : ∀ wire, Settled { s with accepted := s.accepted ++ [r.package s], wire := wire } := fun _ => { h with }
  have hdata : (r.package s).data = r.data := rfl
  simp only [sendSocket] at hs
  split at hs
  · cases hs; exact h
  rename_i hclosed
  split at hs
  · cases hs; exact h
  rename_i hlisten
  split at hs
  · rename_i hempty
    have hhigh := (sendBufferEmpty_iff.mp hempty.1).1
    have hrest : ∀ (wire : List (Nat × UInt8)) (n : Nat), n ≤ r.data.length → Settled (appendHigh
        { s with accepted := s.accepted ++ [r.package s], wire := wire } (r.package s) n) :=
      fun wire n hn => appendHigh_settled (htake wire) _ hn (.inr hhigh)
    cases w with
    | error => cases hs; exact h.forceClose
    | intr | again =>
      simp only at hs
      split at hs
      · cases hs; exact htake _
      · cases hs; exact hrest _ 0 (Nat.zero_le _)
    | ok n =>
      simp only at hs
      split at hs
      · cases hs
      rename_i hle
      split at hs
      · cases hs; exact htake _
      · cases hs; exact hrest _ n (by rw [hdata] at hle; omega)
  · rename_i hqueued
    split at hs
    · rename_i hlow
      cases hs
      exact appendLow_settled (htake _) _ (hdirect ⟨hclosed, hlisten, hqueued, hlow⟩)
    · cases hs
      exact appendHigh_settled (htake _) _ (Nat.zero_le _) (.inl rfl)

theorem closeSocket_settled {s s' : Sock} {shutdown : Bool} {ws : List WriteRes} (h : Settled s)
    (hlive : s.type ≠ .invalid) (hs : closeSocket s shutdown ws = some s') : Settled s' := by
  unfold closeSocket at hs
  rw [Option.bind_eq_bind, Option.bind_eq_some_iff] at hs
  obtain ⟨⟨c, t⟩, ht, hs⟩ := hs
  have hflush : Settled t := by
    unfold closeFlush at ht
    split at ht
    · cases ht; exact h
    · exact sendBuffer_settled h hlive ht
  simp only at hs
  split at hs
  · cases hs; exact hflush
  split at hs
  · cases hs; exact hflush.forceClose
  · cases hs; exact hflush.setType _

theorem step_settled {s s' : Sock} {a : Label} (h : Settled s) (ha : a.Direct s) (hs : step s a = some s') :
    Settled s' := by
  unfold step at hs
  rw [if_neg (by rw [h.alive]; decide)] at hs
  -- a request to start or to connect sets the type or closes the socket
  have hset : ∀ {t : SocketType} {ok : Bool},
      (if ok then some { s with type := t } else some (forceClose s)) = some s' → Settled s' := by
    intro t ok hs
    split at hs
    · cases hs; exact h.setType t
    · cases hs; exact h.forceClose
  cases a with
  | send r w => exact sendSocket_settled h ha hs
  | writable ws =>
    simp only at hs
    split at hs
    · cases hs; exact h
    · rename_i hty
      obtain ⟨⟨c, t⟩, ht, rfl⟩ := Option.map_eq_some_iff.mp hs
      exact sendBuffer_settled h (fun hinv => hty (.inl hinv)) ht
  | connect ok =>
    simp only at hs
    split at hs
    · cases hs
    · exact hset hs
  | start ok =>
    simp only at hs
    split at hs
    · exact hset hs
    split at hs
    · exact hset hs
    · cases hs; exact h
  | close shutdown ws =>
    simp only at hs
    split at hs
    · cases hs; exact h
    · rename_i hty
      exact closeSocket_settled h hty hs
  | hangup => cases hs; exact h.forceClose

/-! ### Whole runs -/

/-- The assertion at the start of `send_buffer` holds, and a package that step 3 of `send_buffer` takes for a partly
written one has bytes on the wire. -/
structure Recorded (s : Sock) : Prop where
  alive : s.aborted = false
  start : listUncomplete s.low = false
  written : ∀ ws r r', sendListTcp s.wbSize s.wire s.high ws = some r →
    sendListTcp r.wbSize r.wire s.low r.rest = some r' → listUncomplete r'.list = true →
    ∃ wb, r'.list.nodes.head? = some wb ∧ 0 < Blocks.count r'.wire wb.pkg.seq

theorem Settled.recorded {s : Sock} (h : Settled s) : Recorded s := by
  refine ⟨h.alive, fresh_complete h.freshLow h.direct, ?_⟩
  intro ws r r' _ hr' hunc
  obtain ⟨fin, hS⟩ := sendListTcp_spec hr' (.of_fresh h.freshLow) fun _ => h.tailLow
  have hwire := hS.out r.wire (by rw [flatMap_sent_of_fresh h.freshLow, List.append_nil])
  have hdirect := h.direct_of_sends hS
  have hhead := hS.head
  unfold listUncomplete at hunc
  split at hunc
  · cases hunc
  rename_i wb L hn
  rw [hn] at hhead hwire hdirect
  have hne : wb.ptr ≠ wb.pkg.base := by
    rw [hdirect wb (List.mem_cons_self ..)]
    exact of_decide_eq_true hunc
  refine ⟨wb, by rw [hn]; rfl, ?_⟩
  -- the bytes in front of `ptr` are on the wire
  have hsent : Blocks.count wb.sent wb.pkg.seq = wb.sent.length := by
    apply Blocks.count_eq_length
    intro x hx
    obtain ⟨b, -, rfl⟩ := List.mem_map.mp (List.mem_of_mem_take hx)
    rfl
  have hlen : 0 < wb.sent.length := by
    have h1 := hhead.1.1
    have h2 := hhead.1.2
    rw [WriteBuffer.sent, List.length_take, Package.bytes_length]
    omega
  rw [hwire, List.flatMap_cons, Blocks.count_append, Blocks.count_append (wb.sent), hsent]
  omega

/-- In every run in which the requests for the low list have their bytes at the address of the buffer. -/
theorem low_uncomplete_written {t : SocketType} {as : List Label} {s : Sock}
    (hdirect : Lts.Guarded step (fun s a => a.Direct s) (newFd t) as) (h : Lts.run step (newFd t) as = some s) :
    Recorded s :=
  (Lts.run_invariant_of_guarded (fun _ _ _ hI hG hs => step_settled hI hG hs) h hdirect (newFd_settled t)).recorded

/-- A user object of low priority, with its bytes at another address than the object, sent while connecting: nothing of
it is written, and the first writable event takes it for a partly written one. -/
def objectRun : List Label :=
  [.send { priority := .low, buffer := 1, base := 9, data := [1, 2] } .again, .connect true, .writable [.again]]

theorem object_aborts :
    (∃ s, Lts.run step (newFd .connecting) (objectRun.take 2) = some s ∧ listUncomplete s.low = true ∧ s.wire = []) ∧
    ∃ s, Lts.run step (newFd .connecting) objectRun = some s ∧ s.aborted = true ∧ s.wire = [] :=
  ⟨⟨_, rfl, rfl, rfl⟩, _, rfl, rfl, rfl⟩

/-- A high object and a low plain package, each written in parts. -/
def mixedRun : List Label :=
  [.send { priority := .high, buffer := 1, base := 9, data := [1, 2] } .again,
   .send { priority := .low, buffer := 2, base := 2, data := [3, 4] } .again, .connect true,
   .writable [.ok 1], .writable [.ok 1, .ok 1]]

theorem low_uncomplete_mixed :
    (Lts.run step (newFd .connecting) mixedRun).map (fun s => s.wire) = some [(0, 1), (0, 2), (1, 3)] ∧
    ∀ s, Lts.run step (newFd .connecting) mixedRun = some s → Recorded s := by
  refine ⟨by decide, fun s hs => ?_⟩
  have hdirect : ∀ a ∈ mixedRun, ∀ s, a.Direct s := by
    intro a ha s
    simp only [mixedRun, List.mem_cons, List.not_mem_nil, or_false] at ha
    rcases ha with rfl | rfl | rfl | rfl | rfl <;> simp [Label.Direct, Request.appendsLow]
  exact low_uncomplete_written (Lts.guarded_of_forall hdirect _) hs

end Socket
end Skynet
