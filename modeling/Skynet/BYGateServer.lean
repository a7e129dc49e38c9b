import Skynet.Lua.StringPack
import Skynet.Queue

/-!
# Skynet.BYGateServer

The packets of a connection of `bygateserver.lua`. A data event is handled by a coroutine of its own, which
calls `unpack_package` through the queue `s.cs` of the connection.

* `round` : one round of the loop in `unpack_package`, up to the call of `handler.message` or an exit.
* `step` : a data event, the return of `handler.message` (which may have yielded), or a coroutine that goes
  on after it has waited for the queue.
* `gate_framing` : what is delivered of a stream, and when that is every frame that has a command.
-/

namespace Skynet
namespace BYGateServer

open Lua

/-- How a round of the loop ends: with a call of `handler.message(fd, cmd, data)`, `buffer` being what is left,
or with the function, by a return or by an error. -/
inductive Round where
  | message (cmd : Nat) (data buffer : Bytes)
  | exit (ok : Bool)
deriving DecidableEq

def round (buffer : Bytes) : Round :=
  if buffer.length < 2 then .exit true
  else
    match unpackUint 2 buffer 1 with
    | none => .exit false
    | some packLen =>
      if buffer.length < packLen + 2 then .exit true
      else
        let data := sub buffer 1 (packLen + 2)
        match unpackUint 2 data 7 with
        | none => .exit false
        | some cmd => .message cmd data (buffer.drop (packLen + 2))

/-- A connection: the buffer and the queue, the data that each coroutine brings, and how many there have been.
Beside it: the calls of `handler.message`, and all the data received. -/
structure State where
  buffer : Bytes
  cs : Queue.State
  infos : Nat → Bytes
  coroutines : Nat
  messages : List (Nat × Bytes)
  stream : Bytes

def init : State where
  buffer := []
  cs := Queue.init
  infos := fun _ => []
  coroutines := 0
  messages := []
  stream := []

/-- The loop of `unpack_package` in coroutine `t`, up to the next call of `handler.message` or the exit. -/
def advance (t : Nat) (s : State) : State :=
  match round s.buffer with
  | .message cmd data buffer => { s with buffer := buffer, messages := s.messages ++ [(cmd, data)] }
  | .exit _ => { s with cs := Queue.xpcallRet t s.cs }

/-- `unpack_package`. -/
def start (t : Nat) (s : State) : State := advance t { s with buffer := s.buffer ++ s.infos t }

inductive Label where
  | data (info : Bytes)
  /-- `handler.message` returns in coroutine `t`. -/
  | returned (t : Nat)
  | wakeup (t : Nat)
deriving DecidableEq

def step (s : State) : Label → Option State
  | .data info =>
    let t := s.coroutines
    match Queue.step s.cs (.call t) with
    | none => none
    | some cs =>
      let s := { s with cs := cs, infos := Function.update s.infos t info, coroutines := t + 1,
                        stream := s.stream ++ info }
      some (if 0 < cs.bodies t then start t s else s)
  | .returned t =>
    if s.cs.bodies t = 0 then none
    else if s.buffer.length < 2 then some { s with cs := Queue.xpcallRet t s.cs }
    else some (advance t s)
  | .wakeup t =>
    match Queue.step s.cs (.wakeup t) with
    | none => none
    | some cs =>
      let s := { s with cs := cs }
      some (if 0 < cs.bodies t then start t s else s)

/-! ### Frames -/

/-- The complete frames of a stream, each with its length field. -/
def frames (s : Bytes) : List Bytes :=
  match unpackUint 2 s 1 with
  | none => []
  | some len => if h : s.length < len + 2 then [] else s.take (len + 2) :: frames (s.drop (len + 2))
termination_by s.length
decreasing_by rw [List.length_drop]; omega

/-- A frame has a command if its length field is at least 6. -/
def HasCommand (data : Bytes) : Prop := 6 + 2 ≤ data.length

instance (data : Bytes) : Decidable (HasCommand data) := inferInstanceAs (Decidable (_ ≤ _))

/-- The command at the bytes 7 and 8. -/
def command (data : Bytes) : Nat := Endian.ofBe ((data.drop 6).take 2)

/-- The call of `handler.message` for a frame. -/
def call (data : Bytes) : Nat × Bytes := (command data, data)

/-- No frame with a command comes behind one without. -/
def InOrder (s : Bytes) : Prop := (frames s).Pairwise fun a b => HasCommand b → HasCommand a

/-- No coroutine handles data or waits to. -/
def Quiet (s : State) : Prop := ∀ t, s.cs.bodies t = 0 ∧ s.cs.sched.sleepSession t = false

section Frames

variable {s data rest : Bytes} {len : Nat}

theorem unpackUint_some {size pos : Nat} {n : Nat} (h : unpackUint size s pos = some n) :
    pos - 1 + size ≤ s.length ∧ n = Endian.ofBe ((s.drop (pos - 1)).take size) := by
  rw [unpackUint, Option.map_eq_some_iff] at h
  obtain ⟨bs, hbs, rfl⟩ := h
  obtain ⟨hle, rfl⟩ := field_some hbs
  exact ⟨hle, rfl⟩

theorem unpackUint_none {size pos : Nat} : unpackUint size s pos = none ↔ s.length < pos - 1 + size := by
  rw [unpackUint, Option.map_eq_none_iff, field]
  split <;> simp only [reduceCtorEq, true_iff, false_iff] <;> omega

/-- The length field of a longer stream. -/
theorem unpackUint_append (h : unpackUint 2 s 1 = some len) (rest : Bytes) : unpackUint 2 (s ++ rest) 1 = some len := by
  obtain ⟨hle, hlen⟩ := unpackUint_some h
  cases hr : unpackUint 2 (s ++ rest) 1 with
  | none =>
    rw [unpackUint_none, List.length_append] at hr
    omega
  | some n =>
    obtain ⟨-, hn⟩ := unpackUint_some hr
    rw [hn, hlen]
    simp only [Nat.sub_self, List.drop_zero]
    rw [List.take_append_of_le_length (by omega)]

/-- A frame: its length field and as many bytes. -/
def IsFrame (data : Bytes) : Prop := ∃ len, unpackUint 2 data 1 = some len ∧ data.length = len + 2

theorem frames_cons (h : IsFrame data) (rest : Bytes) : frames (data ++ rest) = data :: frames rest := by
  obtain ⟨len, hlen, hsize⟩ := h
  rw [frames, unpackUint_append hlen rest]
  simp only
  rw [dif_neg (by rw [List.length_append]; omega), ← hsize, List.take_left, List.drop_left]

theorem frames_flatten {ds : List Bytes} (h : ∀ d ∈ ds, IsFrame d) (rest : Bytes) :
    frames (ds.flatten ++ rest) = ds ++ frames rest := by
  induction ds with
  | nil => rfl
  | cons d ds ih =>
    obtain ⟨hd, hds⟩ := List.forall_mem_cons.mp h
    rw [List.flatten_cons, List.append_assoc, frames_cons hd, ih hds, List.cons_append]

/-- A round with a message takes a frame off the buffer. -/
theorem round_message {buffer buffer' : Bytes} {cmd : Nat} (h : round buffer = .message cmd data buffer') :
    buffer = data ++ buffer' ∧ IsFrame data ∧ HasCommand data ∧ cmd = command data := by
  simp only [round] at h
  split at h
  · cases h
  · split at h
    · cases h
    · rename_i packLen hlen
      split at h
      · cases h
      · rename_i hfull
        split at h
        · cases h
        · rename_i c hcmd
          cases h
          have hsub : sub buffer 1 (packLen + 2) = buffer.take (packLen + 2) := by
            rw [sub, Nat.sub_self, List.drop_zero]
          have hsize : (buffer.take (packLen + 2)).length = packLen + 2 := by
            rw [List.length_take]
            omega
          obtain ⟨hle, hc⟩ := unpackUint_some hcmd
          rw [hsub] at hle hc ⊢
          refine ⟨(List.take_append_drop ..).symm, ⟨packLen, ?_, hsize⟩, hle, hc⟩
          cases hr : unpackUint 2 (buffer.take (packLen + 2)) 1 with
          | none =>
            rw [unpackUint_none, hsize] at hr
            omega
          | some n =>
            rw [← List.take_append_drop (packLen + 2) buffer, unpackUint_append hr] at hlen
            exact hlen

/-- Where a round ends the function, no frame with a command comes next. -/
theorem round_exit {buffer : Bytes} {ok : Bool} (h : round buffer = .exit ok) :
    frames buffer = [] ∨ ∃ d ds, frames buffer = d :: ds ∧ ¬HasCommand d := by
  simp only [round] at h
  split at h
  · rename_i hshort
    refine .inl ?_
    rw [frames, unpackUint_none.mpr (by omega)]
  · split at h
    · rename_i hlen
      refine .inl ?_
      rw [frames, hlen]
    · rename_i packLen hlen
      split at h
      · rename_i hpart
        refine .inl ?_
        rw [frames, hlen]
        simp only
        rw [dif_pos hpart]
      · rename_i hfull
        split at h
        · rename_i hcmd
          rw [unpackUint_none, sub, Nat.sub_self, List.drop_zero] at hcmd
          refine .inr ⟨buffer.take (packLen + 2), frames (buffer.drop (packLen + 2)), ?_, ?_⟩
          · rw [frames, hlen]
            simp only
            rw [dif_neg hfull]
          · rw [HasCommand]
            omega
        · cases h

end Frames

/-! ### The invariant -/

/-- The coroutines that wait for the queue, in their order. -/
def waiting (cs : Queue.State) : List Nat := cs.arrived.drop cs.resumed.length

theorem waiting_eq {cs : Queue.State} {w : List Nat} (h : Queue.Waits cs w) : waiting cs = w := by
  rw [waiting, h.order, List.drop_left]

/-- The stream is what has been delivered, the buffer and the data of the coroutines that wait. -/
structure Sound (s : State) : Prop where
  held : Queue.Held s.cs
  waits : Queue.Waits s.cs (waiting s.cs)
  fresh : ∀ t, s.coroutines ≤ t → s.cs.sched.sleepSession t = false ∧ s.cs.bodies t = 0
  single : ∀ t, s.cs.bodies t ≤ 1
  stream : s.stream = (s.messages.map Prod.snd).flatten ++ s.buffer ++ (waiting s.cs).flatMap s.infos
  messages : ∀ m ∈ s.messages, IsFrame m.2 ∧ HasCommand m.2 ∧ m.1 = command m.2

/-- When no body runs, a round has ended on the buffer. -/
structure Inv (s : State) : Prop extends Sound s where
  done : (∀ t, s.cs.bodies t = 0) → ∃ ok, round s.buffer = .exit ok

theorem inv_init : Inv init where
  held := Queue.held_init
  waits := ⟨List.nodup_nil, fun _ => ⟨fun h => (nomatch h), fun h => (nomatch h)⟩, rfl, rfl⟩
  fresh := fun _ _ => ⟨rfl, rfl⟩
  single := fun _ => Nat.zero_le _
  stream := rfl
  messages := fun _ h => (nomatch h)
  done := fun _ => ⟨true, rfl⟩

section Step

variable {s s' : State} {t : Nat}

/-- The end of the body. -/
theorem Sound.exit (h : Sound s) (ht : 0 < s.cs.bodies t) {ok : Bool} (hround : round s.buffer = .exit ok) :
    Inv { s with cs := Queue.xpcallRet t s.cs } := by
  have hone : s.cs.bodies t = 1 := Nat.le_antisymm (h.single t) ht
  obtain ⟨-, hw, -, href, hothers, -⟩ := h.held.holder ht
  have hheld := Queue.held_ret h.held ht
  have hzero : ∀ u, Function.update s.cs.bodies t 0 u = 0 := by
    intro u
    rw [Function.update_apply]
    split
    · rfl
    · rename_i hne
      exact hothers u hne
  have hret := Queue.xpcallRet_outer href hone
  have hwaits := h.waits
  rw [hret] at hheld ⊢
  split
  · rename_i hqueue
    refine ⟨⟨by simpa only [hqueue] using hheld, ⟨hwaits.nodup, hwaits.sleep, hwaits.order, hwaits.failed⟩, ?_, ?_,
      h.stream, h.messages⟩, ?_⟩
    · exact fun u hu => ⟨(h.fresh u hu).1, hzero u⟩
    · exact fun u => le_of_eq_of_le (hzero u) (Nat.zero_le 1)
    · exact fun _ => ⟨ok, hround⟩
  · rename_i n q hqueue
    refine ⟨⟨by simpa only [hqueue] using hheld, ⟨hwaits.nodup, ?_, hwaits.order, hwaits.failed⟩, ?_, ?_,
      h.stream, h.messages⟩, ?_⟩
    · intro u
      rw [Scheduler.wakeup_sleepSession]
      exact hwaits.sleep u
    · intro u hu
      rw [Scheduler.wakeup_sleepSession]
      exact ⟨(h.fresh u hu).1, hzero u⟩
    · exact fun u => le_of_eq_of_le (hzero u) (Nat.zero_le 1)
    · exact fun _ => ⟨ok, hround⟩

/-- The body of `t` goes on with its loop. -/
theorem Sound.advance (h : Sound s) (ht : 0 < s.cs.bodies t) : Inv (advance t s) := by
  simp only [BYGateServer.advance]
  split
  · rename_i cmd data buffer hround
    obtain ⟨hbuffer, hframe, hcommand, hcmd⟩ := round_message hround
    refine ⟨⟨h.held, h.waits, h.fresh, h.single, ?_, ?_⟩, ?_⟩
    · rw [h.stream, hbuffer]
      simp only [List.map_append, List.map_cons, List.map_nil, List.flatten_append, List.flatten_cons, List.flatten_nil,
        List.append_nil, List.append_assoc]
    · intro m hm
      rcases List.mem_append.mp hm with hm | hm
      · exact h.messages m hm
      · obtain rfl := List.mem_singleton.mp hm
        exact ⟨hframe, hcommand, hcmd⟩
    · intro hzero
      exact absurd (hzero t) (Nat.pos_iff_ne_zero.mp ht)
  · rename_i ok hround
    exact h.exit ht hround

/-- A new coroutine gets a free queue, or waits behind the others. -/
theorem call_cases {cs : Queue.State} (h : Queue.Held cs) (hsleep : cs.sched.sleepSession t = false)
    (hbodies : cs.bodies t = 0) :
    (Queue.call t cs = Queue.enter t cs ∧ waiting cs = [] ∧ ∀ u, cs.bodies u = 0) ∨
      (Queue.call t cs = { cs with threadQueue := cs.threadQueue ++ [t], sched := cs.sched.wait t,
                                   arrived := cs.arrived ++ [t] } ∧ Queue.Waits cs (waiting cs)) := by
  cases h with
  | free hcur _ hw _ hzero _ =>
    rw [Queue.call, if_neg (fun h => h.1 hcur)]
    exact .inl ⟨rfl, waiting_eq hw, hzero⟩
  | held c hcur hw _ _ hpos _ _ =>
    have hne : c ≠ t := by
      rintro rfl
      omega
    rw [Queue.call, if_pos (by simp [hcur, hne])]
    exact .inr ⟨rfl, by rwa [waiting_eq hw]⟩
  | passed c hcur hw _ _ _ =>
    have hne : c ≠ t := by
      rintro rfl
      rw [(hw.sleep c).mpr (List.mem_cons_self ..)] at hsleep
      cases hsleep
    rw [Queue.call, if_pos (by simp [hcur, hne])]
    exact .inr ⟨rfl, by rwa [waiting_eq hw]⟩

/-- The first coroutine that waits gets the queue. -/
theorem wakeup_cases {cs cs' : Queue.State} (h : Queue.Held cs) (hs : Queue.step cs (.wakeup t) = some cs') :
    Queue.Held cs' ∧ (∀ u, cs.bodies u = 0) ∧ waiting cs = t :: waiting cs' ∧ Queue.Waits cs' (waiting cs') ∧
      (∀ u, cs'.bodies u = if u = t then 1 else 0) ∧
      ∀ u, cs'.sched.sleepSession u = if u = t then false else cs.sched.sleepSession u := by
  simp only [Queue.step] at hs
  split at hs
  · cases hs
  · rename_i r sched hd
    obtain ⟨rfl, hheld⟩ := Queue.held_wakeup h hd
    obtain ⟨hmark, -, hsleep, -⟩ := Scheduler.dispatchWakeup_some hd
    obtain ⟨-, hw, href, hzero, -⟩ := h.marked hmark
    have hnot := (List.nodup_cons.mp hw.nodup).1
    cases hs
    rw [Queue.resume, if_neg (fun hne => hne href)] at hheld ⊢
    have hw' : Queue.Waits (Queue.enter t { cs with sched := sched, resumed := cs.resumed ++ [t] }) cs.threadQueue := by
      refine ⟨(List.nodup_cons.mp hw.nodup).2, ?_, ?_, hw.failed⟩
      · intro u
        show sched.sleepSession u = true ↔ _
        rw [hsleep]
        split
        · rename_i he
          rw [he]
          exact ⟨(fun h => by cases h), fun hmem => absurd hmem hnot⟩
        · rename_i hne
          rw [hw.sleep, List.mem_cons]
          exact ⟨fun h => h.resolve_left hne, .inr⟩
      · show cs.arrived = cs.resumed ++ [t] ++ cs.threadQueue
        rw [hw.order, List.append_assoc, List.singleton_append]
    refine ⟨hheld, hzero, ?_, ?_, ?_, hsleep⟩
    · rw [waiting_eq hw, waiting_eq hw']
    · rwa [waiting_eq hw']
    · intro u
      rw [Queue.enter_bodies]
      simp only [hzero]

/-- The data of coroutines that wait already are kept when another one comes. -/
theorem infos_kept (h : Sound s) (info : Bytes) :
    (waiting s.cs).flatMap (Function.update s.infos s.coroutines info) = (waiting s.cs).flatMap s.infos := by
  refine List.flatMap_congr ?_
  intro u hu
  refine Function.update_of_ne ?_ ..
  rintro rfl
  rw [← h.waits.sleep, (h.fresh s.coroutines (Nat.le_refl _)).1] at hu
  cases hu

theorem inv_data (inv : Inv s) {info : Bytes} (hs : step s (.data info) = some s') : Inv s' := by
  obtain ⟨hsleep, hbodies⟩ := inv.fresh s.coroutines (Nat.le_refl _)
  have hcall := Queue.held_call inv.held hsleep
  simp only [step, Queue.step, hsleep, Bool.false_eq_true, if_false, Option.some.injEq] at hs
  rcases call_cases inv.held hsleep hbodies with ⟨heq, hnone, hzero⟩ | ⟨heq, hw⟩
  · rw [heq] at hcall hs
    have hone : ∀ u, (Queue.enter s.coroutines s.cs).bodies u = if u = s.coroutines then 1 else 0 := by
      intro u
      rw [Queue.enter_bodies]
      simp only [hzero]
    rw [if_pos (by rw [hone, if_pos rfl]; decide)] at hs
    rw [← hs, start]
    refine Sound.advance ⟨hcall, ?_, ?_, ?_, ?_, inv.messages⟩ (by rw [hone, if_pos rfl]; decide)
    · exact ⟨inv.waits.nodup, inv.waits.sleep, inv.waits.order, inv.waits.failed⟩
    · intro u hu
      rw [hone, if_neg (by simp only at hu; omega)]
      exact ⟨(inv.fresh u (by simp only at hu; omega)).1, rfl⟩
    · intro u
      rw [hone]
      split <;> decide
    · have hstream := inv.stream
      have hnone' : waiting (Queue.enter s.coroutines s.cs) = [] := hnone
      simp only [hnone, List.flatMap_nil, List.append_nil] at hstream
      simp only [hnone', List.flatMap_nil, List.append_nil, Function.update_self, hstream, List.append_assoc]
  · rw [heq] at hcall hs
    rw [if_neg (by simp only [hbodies]; decide)] at hs
    have hw' := hw.call hsleep
    have hwait := waiting_eq hw'
    rw [← hs]
    refine ⟨⟨hcall, ?_, ?_, inv.single, ?_, inv.messages⟩, inv.done⟩
    · rwa [hwait]
    · intro u hu
      simp only at hu
      obtain ⟨hu', hzero⟩ := inv.fresh u (by omega)
      rw [Scheduler.wait_sleepSession, if_neg (by omega)]
      exact ⟨hu', hzero⟩
    · simp only [hwait, List.flatMap_append, infos_kept inv.toSound, List.flatMap_cons, List.flatMap_nil, List.append_nil,
        Function.update_self, inv.stream, List.append_assoc]

/-- A coroutine that has waited adds its data to the buffer. -/
theorem Sound.woken (h : Sound s) {cs : Queue.State} (hs : Queue.step s.cs (.wakeup t) = some cs) :
    Sound { s with cs := cs, buffer := s.buffer ++ s.infos t } ∧ cs.bodies t = 1 ∧ waiting s.cs = t :: waiting cs := by
  obtain ⟨hheld, -, hwaiting, hw, hone, hsleep⟩ := wakeup_cases h.held hs
  refine ⟨⟨hheld, hw, ?_, ?_, ?_, h.messages⟩, by rw [hone, if_pos rfl], hwaiting⟩
  · intro u hu
    have hmem : t ∈ waiting s.cs := by rw [hwaiting]; exact List.mem_cons_self ..
    have hne : u ≠ t := by
      rintro rfl
      rw [← h.waits.sleep, (h.fresh u hu).1] at hmem
      cases hmem
    rw [hsleep, hone, if_neg hne, if_neg hne]
    exact ⟨(h.fresh u hu).1, rfl⟩
  · intro u
    rw [hone]
    split <;> decide
  · have hstream := h.stream
    rw [hwaiting, List.flatMap_cons] at hstream
    simp only [hstream, List.append_assoc]

theorem step_wakeup (h : Sound s) {cs : Queue.State} (hs : Queue.step s.cs (.wakeup t) = some cs) :
    step s (.wakeup t) = some (advance t { s with cs := cs, buffer := s.buffer ++ s.infos t }) := by
  simp only [step, hs, (h.woken hs).2.1, Nat.zero_lt_one, if_true, start]

theorem inv_step (inv : Inv s) {a : Label} (hs : step s a = some s') : Inv s' := by
  cases a with
  | data info => exact inv_data inv hs
  | returned t =>
    simp only [step] at hs
    split at hs
    · cases hs
    · rename_i hbody
      split at hs
      · rename_i hshort
        cases hs
        exact inv.toSound.exit (Nat.pos_of_ne_zero hbody) (by rw [round, if_pos hshort])
      · cases hs
        exact inv.toSound.advance (Nat.pos_of_ne_zero hbody)
  | wakeup t =>
    simp only [step] at hs
    split at hs
    · cases hs
    · rename_i cs hcs
      have hstep := step_wakeup inv.toSound hcs
      obtain ⟨hsound, hone, -⟩ := inv.toSound.woken hcs
      simp only [step, hcs] at hstep
      rw [hstep] at hs
      cases hs
      exact hsound.advance (by rw [hone]; decide)

end Step

/-! ### Every packet is handled -/

/-- What is left to do: bytes, coroutines that wait, and a body that runs. -/
def remaining (s : State) : Nat :=
  s.buffer.length + ((waiting s.cs).flatMap s.infos).length + 2 * (waiting s.cs).length + s.cs.ref.toNat

section Progress

variable {s s' : State} {t : Nat}

theorem waiting_xpcallRet (cs : Queue.State) : waiting (Queue.xpcallRet t cs) = waiting cs := by
  simp only [Queue.xpcallRet]
  split
  · split <;> rfl
  · rfl

theorem ref_xpcallRet (cs : Queue.State) : (Queue.xpcallRet t cs).ref = cs.ref - 1 := by
  simp only [Queue.xpcallRet]
  split
  · split <;> rfl
  · rfl

theorem Sound.ref_eq (h : Sound s) (ht : 0 < s.cs.bodies t) : s.cs.ref = 1 := by
  obtain ⟨-, -, -, href, -, -⟩ := h.held.holder ht
  have := h.single t
  omega

theorem Sound.remaining_exit (h : Sound s) (ht : 0 < s.cs.bodies t) :
    remaining { s with cs := Queue.xpcallRet t s.cs } < remaining s := by
  simp only [remaining, waiting_xpcallRet, ref_xpcallRet, h.ref_eq ht]
  exact Nat.lt_succ_self _

theorem Sound.remaining_advance (h : Sound s) (ht : 0 < s.cs.bodies t) : remaining (BYGateServer.advance t s) < remaining s := by
  simp only [BYGateServer.advance]
  split
  · rename_i cmd data buffer hround
    obtain ⟨hbuffer, -, hcommand, -⟩ := round_message hround
    rw [HasCommand] at hcommand
    simp only [remaining, hbuffer, List.length_append]
    omega
  · exact h.remaining_exit ht

theorem Quiet.waiting (inv : Inv s) (h : Quiet s) : waiting s.cs = [] := by
  rw [List.eq_nil_iff_forall_not_mem]
  intro u hu
  rw [← inv.waits.sleep, (h u).2] at hu
  cases hu

/-- The steps in which no data comes. -/
def Label.handles : Label → Bool
  | .data _ => false
  | _ => true

/-- Where a body runs or a coroutine waits, a call of `handler.message` can return or a coroutine can go on, and less
is left to do. -/
theorem Inv.progress (inv : Inv s) (h : ¬Quiet s) :
    ∃ a s', a.handles = true ∧ step s a = some s' ∧ remaining s' < remaining s := by
  by_cases hbody : ∃ t, 0 < s.cs.bodies t
  · obtain ⟨t, ht⟩ := hbody
    have hne : ¬s.cs.bodies t = 0 := Nat.pos_iff_ne_zero.mp ht
    by_cases hshort : s.buffer.length < 2
    · exact ⟨.returned t, _, rfl, by rw [step, if_neg hne, if_pos hshort], inv.toSound.remaining_exit ht⟩
    · exact ⟨.returned t, _, rfl, by rw [step, if_neg hne, if_neg hshort], inv.toSound.remaining_advance ht⟩
  · have hzero : ∀ t, s.cs.bodies t = 0 := fun t => Nat.eq_zero_of_not_pos fun ht => hbody ⟨t, ht⟩
    obtain ⟨t, ht⟩ : ∃ t, s.cs.sched.sleepSession t = true := by
      by_contra hnone
      exact h fun t => ⟨hzero t, Bool.eq_false_iff.mpr fun ht => hnone ⟨t, ht⟩⟩
    cases hheld : inv.held with
    | free _ _ hw _ _ _ => exact absurd ((hw.sleep t).mp ht) List.not_mem_nil
    | held c _ _ _ _ hpos _ _ => exact absurd hpos (by rw [hzero]; decide)
    | passed c _ _ href _ hmark =>
      obtain ⟨cs, hcs, -⟩ := inv.held.resumes ((hmark c).mpr rfl)
      obtain ⟨hsound, hone, hwaiting⟩ := inv.toSound.woken hcs
      refine ⟨.wakeup c, _, rfl, step_wakeup inv.toSound hcs, ?_⟩
      have hlt := hsound.remaining_advance (t := c) (by rw [hone]; decide)
      have href' : cs.ref = 1 := hsound.ref_eq (t := c) (by rw [hone]; decide)
      simp only [remaining, hwaiting, href, href', List.flatMap_cons, List.length_append, List.length_cons,
        Int.toNat_zero, Int.toNat_one] at hlt ⊢
      omega

/-- When no more data comes, everything is handled in the end. -/
theorem Inv.drains (inv : Inv s) :
    ∃ as s', (∀ a ∈ as, a.handles = true) ∧ Lts.run step s as = some s' ∧ Quiet s' := by
  induction hn : remaining s using Nat.strong_induction_on generalizing s with
  | h n ih =>
    by_cases hq : Quiet s
    · exact ⟨[], s, List.forall_mem_nil _, rfl, hq⟩
    · obtain ⟨a, s', ha, hs, hlt⟩ := inv.progress hq
      obtain ⟨as, t, has, hrun, ht⟩ := ih _ (hn ▸ hlt) (inv_step inv hs) rfl
      exact ⟨a :: as, t, List.forall_mem_cons.mpr ⟨ha, has⟩, Lts.run_cons.mpr ⟨s', hs, hrun⟩, ht⟩

end Progress

/-! ### Delivery -/

theorem takeWhile_eq_filter {α : Type} {p : α → Bool} {l : List α} :
    l.takeWhile p = l.filter p ↔ l.Pairwise fun a b => p b = true → p a = true := by
  induction l with
  | nil => simp
  | cons a l ih =>
    rw [List.pairwise_cons]
    by_cases ha : p a = true
    · simp [ha, ih]
    · simp only [List.takeWhile_cons, List.filter_cons, ha, Bool.false_eq_true, if_false, imp_false]
      constructor
      · intro h
        have hnone := List.filter_eq_nil_iff.mp h.symm
        exact ⟨hnone, List.pairwise_iff_forall_sublist.mpr fun hsub hb => absurd hb (hnone _ (hsub.subset (by simp)))⟩
      · intro h
        exact (List.filter_eq_nil_iff.mpr h.1).symm

theorem Inv.delivered {s : State} (inv : Inv s) (hq : Quiet s) :
    s.messages = ((frames s.stream).takeWhile fun d => HasCommand d).map call := by
  have hcalls : s.messages = (s.messages.map Prod.snd).map call := by
    rw [List.map_map]
    conv_lhs => rw [← List.map_id s.messages]
    refine List.map_congr_left ?_
    intro m hm
    obtain ⟨-, -, hcmd⟩ := inv.messages m hm
    exact Prod.ext hcmd rfl
  have hframes : frames s.stream = s.messages.map Prod.snd ++ frames s.buffer := by
    rw [inv.stream, hq.waiting inv, List.flatMap_nil, List.append_nil]
    refine frames_flatten ?_ _
    intro d hd
    obtain ⟨m, hm, rfl⟩ := List.mem_map.mp hd
    exact (inv.messages m hm).1
  have hall : ∀ d ∈ s.messages.map Prod.snd, decide (HasCommand d) = true := by
    intro d hd
    obtain ⟨m, hm, rfl⟩ := List.mem_map.mp hd
    exact decide_eq_true (inv.messages m hm).2.1
  have hrest : (frames s.buffer).takeWhile (fun d => HasCommand d) = [] := by
    obtain ⟨ok, hround⟩ := inv.done fun t => (hq t).1
    rcases round_exit hround with hnone | ⟨d, ds, hd, hcommand⟩
    · rw [hnone]
      rfl
    · rw [hd, List.takeWhile_cons_of_neg (by simpa using hcommand)]
  rw [hframes, List.takeWhile_append_of_pos hall, hrest, List.append_nil]
  exact hcalls

/-- **Framing.** When the data that has come is handled (and it is, in the end), the calls of `handler.message` are those for
the frames before the first one without a command: they depend on the bytes only. They are the calls for all
frames with a command exactly if no such frame comes behind one without. -/
theorem gate_framing (as : List Label) (s : State) (h : Lts.run step init as = some s) :
    (∃ bs t, (∀ b ∈ bs, b.handles = true) ∧ Lts.run step s bs = some t ∧ Quiet t) ∧
    (Quiet s →
      s.messages = ((frames s.stream).takeWhile fun d => HasCommand d).map call ∧
      (s.messages = ((frames s.stream).filter fun d => HasCommand d).map call ↔ InOrder s.stream)) := by
  have inv : Inv s := Lts.run_invariant (fun _ _ _ hinv hs => inv_step hinv hs) h inv_init
  refine ⟨inv.drains, ?_⟩
  intro hq
  refine ⟨inv.delivered hq, ?_⟩
  have hinj : Function.Injective call := fun _ _ h => congrArg Prod.snd h
  rw [inv.delivered hq, (List.map_injective_iff.mpr hinj).eq_iff, takeWhile_eq_filter]
  simp only [InOrder, decide_eq_true_eq]

/-- A test for `Quiet` in a state that is reached. -/
def quiet (s : State) : Bool :=
  (List.range s.coroutines).all fun t => s.cs.bodies t == 0 && !s.cs.sched.sleepSession t

theorem quiet_of_run {as : List Label} {s : State} (h : Lts.run step init as = some s) (hq : quiet s = true) : Quiet s := by
  have inv : Inv s := Lts.run_invariant (fun _ _ _ hinv hs => inv_step hinv hs) h inv_init
  intro t
  rcases Nat.lt_or_ge t s.coroutines with hlt | hge
  · have := List.all_eq_true.mp hq t (List.mem_range.mpr hlt)
    simpa using this
  · exact ⟨(inv.fresh t hge).2, (inv.fresh t hge).1⟩

/-- A packet without fields, with command 257. -/
def emptyPacket : Bytes := [0, 6, 0x42, 0x59, 1, 1, 1, 1]

/-- Two packets in pieces: while the handler works on the first, more data comes and waits. -/
theorem gate_framing_pieces :
    ∃ s, Lts.run step init [.data [0, 6, 0x42], .data ([0x59, 1, 1, 1, 1] ++ [0, 6, 0x42, 0x59]), .data [1, 1, 1, 1],
        .returned 1, .wakeup 2, .returned 2] = some s ∧
      s.messages = [(257, emptyPacket), (257, emptyPacket)] := by
  obtain ⟨s, hrun, -, hs⟩ := Lts.of_check (g := fun _ _ => true) (G := fun _ _ => True) (fun _ _ _ => trivial)
    (show Lts.check step (fun _ _ => true) (fun s => quiet s && s.stream == emptyPacket ++ emptyPacket) init
      [.data [0, 6, 0x42], .data ([0x59, 1, 1, 1, 1] ++ [0, 6, 0x42, 0x59]), .data [1, 1, 1, 1],
        .returned 1, .wakeup 2, .returned 2] = true by decide +kernel)
  simp only [Bool.and_eq_true, beq_iff_eq] at hs
  refine ⟨s, hrun, ?_⟩
  rw [((gate_framing _ s hrun).2 (quiet_of_run hrun hs.1)).1, hs.2]
  decide +kernel

/-- A frame with the length field 0, and a packet behind it that is not delivered. -/
theorem gate_wedged :
    ∃ as s, Lts.run step init as = some s ∧ Quiet s ∧ s.messages = [] ∧
      ((frames s.stream).filter fun d => HasCommand d) = [emptyPacket] := by
  refine ⟨[.data [0, 0], .data emptyPacket], ?_⟩
  obtain ⟨s, hrun, -, hs⟩ := Lts.of_check (g := fun _ _ => true) (G := fun _ _ => True) (fun _ _ _ => trivial)
    (show Lts.check step (fun _ _ => true)
      (fun s => quiet s && s.messages == [] && ((frames s.stream).filter fun d => HasCommand d) == [emptyPacket]) init
      [.data [0, 0], .data emptyPacket] = true by decide +kernel)
  simp only [Bool.and_eq_true, beq_iff_eq] at hs
  exact ⟨s, hrun, quiet_of_run hrun hs.1.1, hs.1.2, hs.2⟩

end BYGateServer
end Skynet
