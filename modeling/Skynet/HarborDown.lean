import Skynet.HarborStream

/-!
# Skynet.HarborDown

Messages to a harbor whose connection has been closed.

* `lost` holds the harbors whose socket was reported closed. The code does not keep them: `mainloop` only tells the slave service.
* `Inv` : the socket of a slave is never taken back, so a slave without a socket has never been connected.
* `reported_iff` : a run reports its dead harbors just when it does not use them any more.
-/

namespace Skynet
namespace ServiceHarbor

def PTYPE_TEXT : Nat := 0

/-- `sprintf` with `%d`. -/
def decimal (n : Nat) : Bytes := (Nat.toDigits 10 n).map fun c => UInt8.ofNat c.toNat

/-- `report_harbor_down`: "D id" to the slave service. -/
def reportHarborDown (id : Nat) (h : Harbor) : Harbor :=
  h.emit [.send 0 h.slave PTYPE_TEXT 0 (UInt8.ofNat 68 :: UInt8.ofNat 32 :: decimal id)]

/-- What `mainloop` is called with. -/
inductive Message where
  | sendName (source : Nat) (name : Name) (type session : Nat) (msg : Bytes)
  | sendHandle (source destination type session : Nat) (msg : Bytes)
  | update (name : Name) (handle : Nat)
  | connect (accept : Bool) (fd id : Nat)
  | data (fd : Nat) (buffer : Bytes)
  /-- `SKYNET_SOCKET_TYPE_CLOSE` and `SKYNET_SOCKET_TYPE_ERROR`. -/
  | closed (fd : Nat)
deriving Repr, DecidableEq

structure Watched where
  service : Service
  lost : Nat → Bool

namespace Watched

def harbor (w : Watched) : Harbor := w.service.harbor

def slave (w : Watched) (id : Nat) : Slave := w.harbor.s id

def setHarbor (w : Watched) (h : Harbor) : Watched := { w with service := { w.service with harbor := h } }

/-- The connection of a harbor has been closed, by `close_harbor` or by its peer. -/
def Closed (w : Watched) (id : Nat) : Prop := (w.slave id).status = .down ∨ w.lost id = true

instance (w : Watched) (id : Nat) : Decidable (w.Closed id) := inferInstanceAs (Decidable (_ ∨ _))

end Watched

def start (id slave : Nat) : Watched where
  service := initService id slave
  lost := fun _ => false

/-- The test of the commands `S` and `A`. -/
def Installs (h : Harbor) (fd id : Nat) : Prop := ¬ (fd = 0 ∨ id = 0 ∨ REMOTE_MAX ≤ id) ∧ (h.s id).fd = 0

instance (h : Harbor) (fd id : Nat) : Decidable (Installs h fd id) := inferInstanceAs (Decidable (_ ∧ _))

/-- `mainloop`. -/
def mainloop (known : Nat → Bool) (w : Watched) : Message → Option Watched
  | .sendName source name type session msg => some (w.setHarbor (remoteSendName source name type session msg w.harbor))
  | .sendHandle source destination type session msg =>
    some (w.setHarbor (remoteSendHandle source destination type session msg none w.harbor))
  | .update name handle => some (w.setHarbor (updateName name handle w.harbor))
  | .connect accept fd id =>
    let lost := if Installs w.harbor fd id then Function.update w.lost id false else w.lost
    some { w.setHarbor (connect accept fd id w.harbor) with lost := lost }
  | .data fd buffer => (pushSocketData known fd w.service buffer).map fun s => { w with service := s }
  | .closed fd =>
    match findFd w.harbor fd with
    | none => some w
    | some id =>
      let lost := if fd = 0 then w.lost else Function.update w.lost id true
      some { w.setHarbor (reportHarborDown id w.harbor) with lost := lost }

/-! ### Reports -/

/-- The source and the handle of each message that gets its handle here. -/
def addressed (w : Watched) : Message → List (Nat × Nat)
  | .sendHandle source destination _ _ _ => [(source, destination)]
  | .sendName source name _ _ _ => if (w.harbor.map name).value = 0 then [] else [(source, (w.harbor.map name).value)]
  | .update name handle => ((w.harbor.map name).queue.getD []).map fun m => (m.header.source, handle)
  | _ => []

/-- Another harbor whose connection is closed. -/
def Dead (w : Watched) (id : Nat) : Prop := id ≠ w.harbor.id ∧ w.Closed id

instance (w : Watched) (id : Nat) : Decidable (Dead w id) := inferInstanceAs (Decidable (_ ∧ _))

/-- An error goes to the source of a message, and nothing to a socket. -/
def Answered (w w' : Watched) (source destination : Nat) : Prop :=
  ∃ out, w'.harbor.out = w.harbor.out ++ out ∧ .send destination source PTYPE_ERROR 0 [] ∈ out ∧ ∀ fd m, .remote fd m ∉ out

/-- Messages to a dead harbor are answered with an error, and a new connection for it is installed. -/
structure Reported (w : Watched) (m : Message) (w' : Watched) : Prop where
  answered : ∀ p ∈ addressed w m, Dead w (p.2 >>> HANDLE_REMOTE_SHIFT) → Answered w w' p.1 p.2
  installed : ∀ accept fd id, m = .connect accept fd id → fd ≠ 0 → Dead w id → (w'.slave id).fd = fd ∧ ¬ w'.Closed id

/-- No message to a dead harbor, and no connection for it. -/
structure Unused (w : Watched) (m : Message) : Prop where
  addressed : ∀ p ∈ addressed w m, ¬ Dead w (p.2 >>> HANDLE_REMOTE_SHIFT)
  connect : ∀ accept fd id, m = .connect accept fd id → fd ≠ 0 → ¬ Dead w id

/-! ### Sockets are kept -/

/-- The slaves have the sockets and the status that they had. -/
def Kept (h h' : Harbor) : Prop := ∀ j, (h'.s j).fd = (h.s j).fd ∧ (h'.s j).status = (h.s j).status

theorem kept_queue (h : Harbor) (id : Nat) (q : Option (List HarborMsg)) : Kept h (h.setSlave id { h.s id with queue := q }) := by
  intro j
  rw [setSlave_apply]
  split
  · rename_i hj
    rw [hj]
    exact ⟨rfl, rfl⟩
  · exact ⟨rfl, rfl⟩

theorem kept_remoteSendHandle (source destination type session : Nat) (msg : Bytes) (via : Option Name) (h : Harbor) :
    Kept h (remoteSendHandle source destination type session msg via h) := by
  simp only [remoteSendHandle]
  split
  · exact fun j => ⟨rfl, rfl⟩
  · split
    · split
      · exact fun j => ⟨rfl, rfl⟩
      · exact kept_queue h _ _
    · exact fun j => ⟨rfl, rfl⟩

theorem kept_remoteSendName (source : Nat) (name : Name) (type session : Nat) (msg : Bytes) (h : Harbor) :
    Kept h (remoteSendName source name type session msg h) := by
  simp only [remoteSendName]
  split
  · exact fun j => ⟨rfl, rfl⟩
  · exact kept_remoteSendHandle _ _ _ _ _ _ h

theorem kept_dispatchNameQueue (handle : Nat) (q : List HarborMsg) (h : Harbor) : Kept h (dispatchNameQueue handle q h) := by
  simp only [dispatchNameQueue]
  split
  · split
    · exact fun j => ⟨rfl, rfl⟩
    · split
      · exact kept_queue h _ none
      · exact kept_queue h _ _
  · exact fun j => ⟨rfl, rfl⟩

theorem kept_updateName (name : Name) (handle : Nat) (h : Harbor) : Kept h (updateName name handle h) := by
  simp only [updateName]
  split
  · exact fun j => ⟨rfl, rfl⟩
  · exact kept_dispatchNameQueue handle _ (h.setName name _)

/-- A slave that waits for its connection reads nothing. -/
theorem pushData_wait {known : Nat → Bool} {id j : Nat} {s t : Service} {buffer : Bytes}
    (h : pushData known id s buffer = some t) (hj : s.status j = .wait) : t.status j = .wait := by
  have hset (s : Service) (x : Slave) (hs : s.status id ≠ .wait) (hj : s.status j = .wait) :
      ((s.harbor.setSlave id x).s j).status = .wait := by
    rw [setSlave_apply, if_neg]
    · exact hj
    · rintro rfl
      exact hs hj
  fun_induction pushData known id s buffer with
  | case1 s hs => cases h
  | case2 s hs remote rest hne => cases h; exact hset s _ (by rw [hs]; intro h; cases h) hj
  | case3 s hs remote rest hne ih =>
    refine ih h ?_
    rw [Service.shaken, dispatchQueue_setSlave]
    exact hset s _ (by rw [hs]; intro h; cases h) hj
  | case4 s buffer hs size hr need hlt => cases h; exact hj
  | case5 s buffer hs size hr need hlt full hlong => cases h; exact hset s _ (by rw [hs]; intro h; cases h) hj
  | case6 s buffer hs size hr need hlt full hlong s' heq => rw [← Option.some.inj h]; exact hj
  | case7 s buffer hs size hr need hlt full hlong s' hne ih => exact ih h hj
  | case8 s buffer hs length recvBuffer hr need hlt => cases h; exact hj
  | case9 s buffer hs length recvBuffer hr need hlt hnone => cases h
  | case10 s buffer hs length recvBuffer hr need hlt harbor hsome s' heq =>
    rw [← Option.some.inj h, Service.status, (forwardLocalMessage_slaves hsome).1]
    exact hj
  | case11 s buffer hs length recvBuffer hr need hlt harbor hsome s' hne ih =>
    refine ih h ?_
    rw [Service.status, (forwardLocalMessage_slaves hsome).1]
    exact hj
  | case12 s buffer hh hw => cases h; exact hj

/-- A slave without a socket has never been connected. -/
def Inv (w : Watched) : Prop := ∀ id, (w.slave id).fd = 0 → (w.slave id).status = .wait ∧ w.lost id = false

theorem inv_start (id slave : Nat) : Inv (start id slave) := fun _ _ => ⟨rfl, rfl⟩

theorem Inv.fd_ne_zero {w : Watched} (inv : Inv w) {id : Nat} (h : w.Closed id) : (w.slave id).fd ≠ 0 := by
  intro hfd
  obtain ⟨hwait, hlost⟩ := inv id hfd
  rcases h with hdown | hgone
  · rw [hwait] at hdown
    cases hdown
  · rw [hlost] at hgone
    cases hgone

theorem Inv.kept {w : Watched} (inv : Inv w) {h : Harbor} (hk : Kept w.harbor h) : Inv (w.setHarbor h) := by
  intro id hfd
  obtain ⟨hsame, hstatus⟩ := hk id
  obtain ⟨hwait, hlost⟩ := inv id (hsame.symm.trans hfd)
  exact ⟨hstatus.trans hwait, hlost⟩

theorem connect_refused {accept : Bool} {fd id : Nat} {h : Harbor} (hno : ¬ Installs h fd id) : connect accept fd id h = h := by
  rw [connect]
  split
  · rfl
  · rename_i hvalid
    rw [if_pos fun hfd => hno ⟨hvalid, hfd⟩]

theorem connect_other {accept : Bool} {fd id j : Nat} {h : Harbor} (hne : j ≠ id) : (connect accept fd id h).s j = h.s j := by
  by_cases hi : Installs h fd id
  · rw [connect, if_neg hi.1, if_neg (not_not.mpr hi.2)]
    cases accept with
    | false => exact Function.update_of_ne hne _ _
    | true =>
      simp only [if_true, dispatchQueue_eq, Harbor.emit, setSlave_apply, if_neg hne]
  · rw [connect_refused hi]

theorem connect_fd {accept : Bool} {fd id : Nat} {h : Harbor} (hi : Installs h fd id) :
    ((connect accept fd id h).s id).fd = fd := by
  rw [connect, if_neg hi.1, if_neg (not_not.mpr hi.2)]
  cases accept with
  | false => simp only [Bool.false_eq_true, if_false, Harbor.emit, setSlave_apply, if_true]
  | true => simp only [if_true, dispatchQueue_fd, Harbor.emit, setSlave_apply]

theorem Inv.step {known : Nat → Bool} {w w' : Watched} {m : Message} (inv : Inv w) (h : mainloop known w m = some w') : Inv w' := by
  cases m with
  | sendName source name type session msg => cases h; exact inv.kept (kept_remoteSendName _ _ _ _ _ _)
  | sendHandle source destination type session msg => cases h; exact inv.kept (kept_remoteSendHandle _ _ _ _ _ _ _)
  | update name handle => cases h; exact inv.kept (kept_updateName _ _ _)
  | connect accept fd id =>
    cases h
    intro j hfd
    by_cases hi : Installs w.harbor fd id
    · have hne : j ≠ id := by
        rintro rfl
        exact hi.1 (.inl ((connect_fd hi).symm.trans hfd))
      have hslave : (connect accept fd id w.harbor).s j = w.slave j := connect_other hne
      obtain ⟨hwait, hlost⟩ := inv j (by rw [← hslave]; exact hfd)
      refine ⟨(congrArg Slave.status hslave).trans hwait, ?_⟩
      rw [if_pos hi]
      exact (Function.update_of_ne hne _ _).trans hlost
    · have hslave : (connect accept fd id w.harbor).s j = w.slave j := congrArg (fun h => h.s j) (connect_refused hi)
      obtain ⟨hwait, hlost⟩ := inv j (by rw [← hslave]; exact hfd)
      refine ⟨(congrArg Slave.status hslave).trans hwait, ?_⟩
      rw [if_neg hi]
      exact hlost
  | data fd buffer =>
    obtain ⟨s, hs, rfl⟩ := Option.map_eq_some_iff.mp h
    rw [pushSocketData] at hs
    split at hs
    · cases hs
    · rename_i id hid
      intro j hfd
      obtain ⟨hwait, hlost⟩ := inv j ((pushData_fd hs j).symm.trans hfd)
      exact ⟨pushData_wait hs hwait, hlost⟩
  | closed fd =>
    rw [mainloop] at h
    split at h
    · cases h
      exact inv
    · rename_i id hid
      cases h
      intro j hfd
      obtain ⟨hwait, hlost⟩ := inv j hfd
      refine ⟨hwait, ?_⟩
      have hsocket : (w.harbor.s id).fd = fd := by simpa using List.find?_some hid
      by_cases hzero : fd = 0
      · rw [if_pos hzero]
        exact hlost
      · have hne : j ≠ id := by
          rintro rfl
          exact hzero (hsocket.symm.trans hfd)
        rw [if_neg hzero]
        exact (Function.update_of_ne hne _ _).trans hlost

/-! ### Messages to a dead harbor -/

/-- No service of this node gets a message. -/
def Silent (h h' : Harbor) : Prop :=
  ∃ out, h'.out = h.out ++ out ∧ ∀ source destination type session msg, .send source destination type session msg ∉ out

theorem Silent.not_answered {w w' : Watched} (hs : Silent w.harbor w'.harbor) (source destination : Nat) :
    ¬ Answered w w' source destination := by
  rintro ⟨out, hout, hmem, -⟩
  obtain ⟨out', hout', hno⟩ := hs
  have heq : out = out' := List.append_cancel_left (hout.symm.trans hout')
  rw [heq] at hmem
  exact hno _ _ _ _ _ hmem

theorem sendRemote_ne_send (fd : Nat) (m : HarborMsg) (source destination type session : Nat) (msg : Bytes) :
    sendRemote fd m ≠ .send source destination type session msg := by
  rw [sendRemote]
  split <;> (intro h; cases h)

section Silent

variable {h : Harbor} {source type session : Nat} {msg : Bytes}

theorem silent_remoteSendHandle {destination : Nat} (via : Option Name) (hid : destination >>> HANDLE_REMOTE_SHIFT ≠ h.id)
    (hfd : (h.s (destination >>> HANDLE_REMOTE_SHIFT)).fd ≠ 0) :
    Silent h (remoteSendHandle source destination type session msg via h) := by
  simp only [remoteSendHandle]
  rw [if_neg hid]
  split
  · rename_i hqueue
    have hhandshake := hqueue.resolve_left hfd
    rw [if_neg (by rw [hhandshake]; intro h; cases h)]
    exact ⟨[], (List.append_nil _).symm, fun _ _ _ _ _ => List.not_mem_nil⟩
  · refine ⟨_, rfl, fun _ _ _ _ _ hmem => ?_⟩
    exact sendRemote_ne_send _ _ _ _ _ _ _ (List.mem_singleton.mp hmem).symm

theorem silent_remoteSendName {name : Name} (hid : (h.map name).value >>> HANDLE_REMOTE_SHIFT ≠ h.id)
    (hfd : (h.s ((h.map name).value >>> HANDLE_REMOTE_SHIFT)).fd ≠ 0) (hvalue : (h.map name).value ≠ 0) :
    Silent h (remoteSendName source name type session msg h) := by
  simp only [remoteSendName]
  rw [if_neg hvalue]
  exact silent_remoteSendHandle _ hid hfd

theorem silent_dispatchNameQueue {handle : Nat} (q : List HarborMsg) (hfd : (h.s (handle >>> HANDLE_REMOTE_SHIFT)).fd ≠ 0) :
    Silent h (dispatchNameQueue handle q h) := by
  simp only [dispatchNameQueue]
  rw [if_neg hfd]
  refine ⟨_, rfl, fun _ _ _ _ _ hmem => ?_⟩
  obtain ⟨m, -, hm⟩ := List.mem_map.mp hmem
  exact sendRemote_ne_send _ _ _ _ _ _ _ hm

theorem silent_updateName {name : Name} {handle : Nat} (hfd : (h.s (handle >>> HANDLE_REMOTE_SHIFT)).fd ≠ 0) :
    Silent h (updateName name handle h) := by
  simp only [updateName]
  split
  · exact ⟨[], (List.append_nil _).symm, fun _ _ _ _ _ => List.not_mem_nil⟩
  · exact silent_dispatchNameQueue (h := h.setName name _) _ hfd

end Silent

section Reports

variable {known : Nat → Bool} {w w' : Watched} {m : Message}

/-- A message to a dead harbor is written to its socket, or it waits in the queue of a handshake that is not continued. -/
theorem Inv.not_answered (inv : Inv w) (h : mainloop known w m = some w') {p : Nat × Nat} (hp : p ∈ addressed w m)
    (hdead : Dead w (p.2 >>> HANDLE_REMOTE_SHIFT)) : ¬ Answered w w' p.1 p.2 := by
  have hfd := inv.fd_ne_zero hdead.2
  have hid := hdead.1
  refine Silent.not_answered ?_ _ _
  cases m with
  | sendHandle source destination type session msg =>
    cases h
    obtain rfl := List.mem_singleton.mp hp
    exact silent_remoteSendHandle none hid hfd
  | sendName source name type session msg =>
    cases h
    rw [addressed] at hp
    split at hp
    · cases hp
    · rename_i hvalue
      obtain rfl := List.mem_singleton.mp hp
      exact silent_remoteSendName hid hfd hvalue
  | update name handle =>
    cases h
    obtain ⟨m, -, rfl⟩ := List.mem_map.mp hp
    exact silent_updateName hfd
  | connect accept fd id => cases hp
  | data fd buffer => cases hp
  | closed fd => cases hp

/-- The commands `S` and `A` are refused for a dead harbor: it has a socket. -/
theorem Inv.refused (inv : Inv w) {accept : Bool} {fd id : Nat} (h : mainloop known w (.connect accept fd id) = some w')
    (hdead : Dead w id) : w' = w := by
  have hno : ¬ Installs w.harbor fd id := fun hi => inv.fd_ne_zero hdead.2 hi.2
  rw [mainloop, connect_refused hno, if_neg hno] at h
  exact (Option.some.inj h).symm

theorem Inv.mainloop_reported (inv : Inv w) (h : mainloop known w m = some w') : Reported w m w' ↔ Unused w m := by
  constructor
  · intro hr
    refine ⟨fun p hp hdead => inv.not_answered h hp hdead (hr.answered p hp hdead), ?_⟩
    rintro accept fd id rfl hfd hdead
    have hopen := (hr.installed accept fd id rfl hfd hdead).2
    rw [inv.refused h hdead] at hopen
    exact hopen hdead.2
  · intro hu
    exact ⟨fun p hp hdead => absurd hdead (hu.addressed p hp),
      fun accept fd id hm hfd hdead => absurd hdead (hu.connect accept fd id hm hfd)⟩

end Reports

/-- Every step of a run reports its dead harbors. -/
def Reports (known : Nat → Bool) (w : Watched) (ms : List Message) : Prop :=
  Lts.Guarded (mainloop known) (fun w m => ∀ w', mainloop known w m = some w' → Reported w m w') w ms

theorem Inv.reports_iff {known : Nat → Bool} {w : Watched} (inv : Inv w) (ms : List Message) :
    Reports known w ms ↔ Lts.Guarded (mainloop known) (fun w m => ∀ w', mainloop known w m = some w' → Unused w m) w ms := by
  induction ms generalizing w with
  | nil => exact Iff.rfl
  | cons m ms ih =>
    refine and_congr ?_ ?_
    · exact forall_congr' fun w' => imp_congr_right fun h => inv.mainloop_reported h
    · exact forall_congr' fun w' => imp_congr_right fun h => ih (inv.step h)

/-- **Dead harbors.** A run reports them just when no message goes to a handle of a dead harbor and no connection comes for one:
the branch that answers needs a slave that is down and has no socket, and there is none. -/
theorem reported_iff (known : Nat → Bool) (id slave : Nat) (ms : List Message) :
    Reports known (start id slave) ms ↔
      Lts.Guarded (mainloop known) (fun w m => ∀ w', mainloop known w m = some w' → Unused w m) (start id slave) ms :=
  (inv_start id slave).reports_iff ms

/-- Harbor 2 is connected by the socket 7. -/
def connected : Watched where
  service := { initService 1 0x1000002 with harbor := connect true 7 2 (init 1 0x1000002) }
  lost := fun _ => false

/-- Its package is too long: `close_harbor`. -/
def overlong : Watched := { connected with service := connected.service.close 2 }

theorem overlong_step : mainloop (fun _ => true) connected (.data 7 [1, 0, 0, 0]) = some overlong := by
  have hfd : findFd connected.service.harbor 7 = some 2 := by decide
  have hpush : pushData (fun _ => true) 2 connected.service [1, 0, 0, 0] = some (connected.service.close 2) := by
    rw [pushData_header rfl rfl]
    rfl
  rw [mainloop, pushSocketData, hfd]
  simp only [hpush, Option.map_some]
  rfl

/-- A message to a handle of harbor 2 after its package that is too long, and a new socket for harbor 2 after the close event of the
old one. -/
theorem dead_harbor_unreported :
    ¬ Reports (fun _ => true) (start 1 0x1000002)
        [.connect true 7 2, .data 7 [1, 0, 0, 0], .sendHandle 0x1000009 0x2000003 10 4 [9]] ∧
      ¬ Reports (fun _ => true) (start 1 0x1000002) [.connect true 7 2, .closed 7, .connect true 8 2] := by
  have hfirst : mainloop (fun _ => true) (start 1 0x1000002) (.connect true 7 2) = some connected := by
    have hlost : Function.update (start 1 0x1000002).lost 2 false = fun _ => false := Function.update_eq_self 2 _
    rw [mainloop, if_pos (by decide), hlost]
    rfl
  have inv := (inv_start 1 0x1000002).step hfirst
  constructor
  · intro h
    have inv' := inv.step overlong_step
    have hsend := ((h.2 _ hfirst).2 _ overlong_step).1 _ rfl
    have hmem : (0x1000009, 0x2000003) ∈ addressed overlong (.sendHandle 0x1000009 0x2000003 10 4 [9]) := List.mem_singleton.mpr rfl
    have hdead : Dead overlong 2 := by decide
    have hstep : mainloop (fun _ => true) overlong (.sendHandle 0x1000009 0x2000003 10 4 [9]) = some _ := rfl
    exact inv'.not_answered hstep hmem hdead (hsend.answered _ hmem hdead)
  · intro h
    have hconnect := ((h.2 _ hfirst).2 _ rfl).1 _ rfl
    have hopen := (hconnect.installed true 8 2 rfl (by decide) (by decide)).2
    exact hopen (by decide)

end ServiceHarbor
end Skynet
