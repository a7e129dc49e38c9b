import Skynet.Sproto.PackSpec

/-!
# Skynet.Sproto.PackBound

How many bytes `sproto_pack` takes, and where it writes, on every source. `write_ff` reads up to seven bytes behind the
source where the last, shorter group is the 256th of a run; here these have some value, so that there is a result always.

* `sprotoPackIn`, `lpack` : the functions.
* `Bounded` : the invariant of the rounds. A run pays two bytes, and it is full or ends at a group with a zero.
* `pack_bounded` : what `lpack` reserves is enough.
-/

namespace Skynet
namespace Sproto

/-- A source, and the seven bytes of memory behind it. -/
structure Source where
  bytes : Bytes
  behind : Bytes
  behind_length : behind.length = 7

/-- The source pointer of the round at offset `i`. -/
def packSrcIn (s : Source) (i : Nat) : Option Bytes :=
  if 0 < i + 8 - s.bytes.length then do
    let head ← readBytes (s.bytes.drop i) (8 - (i + 8 - s.bytes.length))
    some (head ++ List.replicate (i + 8 - s.bytes.length) 0)
  else some (s.bytes.drop i ++ s.behind)

/-- The round of the loop of `sproto_pack` at offset `i`. -/
def packRoundIn (s : Source) (i : Nat) (v : PackVars) : Option PackVars := do
  let src ← packSrcIn s i
  let (n, mem) ← packSeg src v.size v.bufsz v.ffN v.mem
  let w := { v with bufsz := v.bufsz - n, mem := mem }
  if n = 10 then
    some { w with ffSrcstart := src, ffDesstart := w.size, ffN := 1, size := w.size + n }
  else if n = 8 ∧ 0 < w.ffN then
    if w.ffN + 1 = 256 then do
      let w ← flushFf w (256 * 8)
      some { w with ffN := 0, size := w.size + n }
    else some { w with ffN := w.ffN + 1, size := w.size + n }
  else if 0 < w.ffN then do
    let w ← flushFf w (w.ffN * 8)
    some { w with ffN := 0, size := w.size + n }
  else some { w with size := w.size + n }

def packRoundsIn (s : Source) (v : PackVars) : Nat → Option PackVars
  | 0 => some v
  | m + 1 => (packRoundsIn s v m).bind (packRoundIn s (8 * m))

/-- The write after the loop. -/
def packEndIn (s : Source) (v : PackVars) : Option PackVars :=
  if v.ffN = 1 then flushFf v 8
  else if 1 < v.ffN then flushFf v (s.bytes.length - ((s.bytes ++ s.behind).length - v.ffSrcstart.length))
  else some v

def sprotoPackIn (s : Source) (mem : Nat → UInt8) (bufsz : Int) : Option (Nat × (Nat → UInt8)) := do
  let v ← packRoundsIn s (packInit mem bufsz) ((s.bytes.length + 7) / 8)
  let v ← packEndIn s v
  some (v.size, v.mem)

/-! ### `lpack` -/

def ENCODE_MAXSIZE : Nat := 0x1000000

/-- The loop of `expand_buffer`, with the rounds left. -/
def expandLoop (nsz : Nat) : Nat → Nat → Nat
  | 0, osz => osz
  | n + 1, osz => if osz * 2 < nsz then expandLoop nsz n (osz * 2) else osz * 2

inductive LpackError where
  /-- "object is too large (>%d)" -/
  | tooLarge
  /-- "packing error, return size = %d" -/
  | packing (bytes : Nat)
  | beyond
deriving Repr, DecidableEq

/-- The size of the new output. -/
def expandBuffer (osz nsz : Nat) : Except LpackError Nat :=
  let osz := expandLoop nsz nsz osz
  if ENCODE_MAXSIZE < osz then .error .tooLarge else .ok osz

/-- `lpack`, with an output of `osz` bytes: the string, and the size of the output that is kept. -/
def lpack (s : Source) (mem : Nat → UInt8) (osz : Nat) : Except LpackError (Bytes × Nat) := do
  let maxsz := packBound s.bytes.length
  let osz ← if osz < maxsz then expandBuffer osz maxsz else .ok osz
  match sprotoPackIn s mem maxsz with
  | none => .error .beyond
  | some (bytes, mem) => if maxsz < bytes then .error (.packing bytes) else .ok (Mem.slice mem 0 bytes, osz)

/-! ### What is written -/

/-- The bytes from `limit` on are as before. -/
def Frame (limit : Int) (mem mem' : Nat → UInt8) : Prop := ∀ j : Nat, limit ≤ j → mem' j = mem j

theorem Frame.refl (limit : Int) (mem : Nat → UInt8) : Frame limit mem mem := fun _ _ => rfl

theorem Frame.trans {limit : Int} {mem mem' mem'' : Nat → UInt8} (h : Frame limit mem mem')
    (h' : Frame limit mem' mem'') : Frame limit mem mem'' :=
  fun j hj => (h' j hj).trans (h j hj)

theorem frame_blit {limit : Int} {a : Nat} {bs : Bytes} (mem : Nat → UInt8) (h : (a : Int) + bs.length ≤ limit) :
    Frame limit mem (Mem.blit mem a bs) :=
  fun _ hj => Mem.blit_of_ge (by omega)

theorem frame_segLoop (bs : Bytes) (i : Nat) (v : SegVars) :
    Frame (v.buffer + v.sz) v.mem (segLoop i bs v).mem := by
  induction bs generalizing i v with
  | nil => exact .refl _ _
  | cons b bs ih =>
    refine Frame.trans ?_ (fun j hj => ih (i + 1) (segByte v i b) j ?_)
    · simp only [segByte]
      split
      · split
        · exact frame_blit _ (by simp only [List.length_singleton]; omega)
        · exact .refl _ _
      · exact .refl _ _
    · simp only [segByte]
      split
      · split
        · simp only; omega
        · exact hj
      · exact hj

theorem frame_packSeg {src : Bytes} {buffer n k : Nat} {sz : Int} {mem mem' : Nat → UInt8}
    (h : packSeg src buffer sz n mem = some (k, mem')) : Frame (buffer + sz) mem mem' := by
  simp only [packSeg, Option.bind_eq_bind, Option.bind_eq_some_iff] at h
  obtain ⟨bs, -, h⟩ := h
  have hloop := frame_segLoop bs 0 { header := 0, notzero := 0, buffer := buffer + 1, sz := sz - 1, mem := mem }
  simp only [show ((buffer + 1 : Nat) : Int) + (sz - 1) = buffer + sz by omega] at hloop
  generalize segLoop 0 bs { header := 0, notzero := 0, buffer := buffer + 1, sz := sz - 1, mem := mem } = w at h hloop
  generalize hnotzero : (if (w.notzero = 7 ∨ w.notzero = 6) ∧ 0 < n then 8 else w.notzero) = notzero at h
  split at h
  · split at h <;> cases h <;> exact hloop
  · split at h <;> cases h
    · exact hloop.trans (frame_blit _ (by simp only [List.length_singleton]; omega))
    · exact hloop

/-- A run that is written back takes two bytes and whole groups. -/
theorem flushFf_frame {v : PackVars} {n : Nat} (limit : Int) (hn : n ≤ v.ffSrcstart.length)
    (hlimit : 0 ≤ v.bufsz → (v.ffDesstart : Int) + 2 + (n + 7) / 8 * 8 ≤ limit) :
    ∃ mem, flushFf v n = some { v with mem := mem } ∧ Frame limit v.mem mem := by
  by_cases hroom : 0 ≤ v.bufsz
  · refine ⟨_, flushFf_spec hroom hn, frame_blit _ ?_⟩
    have := hlimit hroom
    simp only [run_packed_length, List.length_append, List.length_take, List.length_replicate]
    omega
  · exact ⟨v.mem, by rw [flushFf, if_neg hroom], .refl _ _⟩

/-! ### The rounds -/

/-- After `m` rounds `ffN` groups wait in an open run, for which `2 + 8 * ffN` bytes are counted already; `full` runs of
256 groups were written. -/
structure Bounded (s : Source) (bufsz : Int) (mem : Nat → UInt8) (m full : Nat) (v : PackVars) : Prop where
  runLe : v.ffN ≤ m
  runLt : v.ffN < 256
  src : 0 < v.ffN → 8 * m ≤ s.bytes.length + 7 ∧ (8 * m ≤ s.bytes.length ∨ 1 < v.ffN →
    v.ffSrcstart = (s.bytes ++ s.behind).drop (8 * (m - v.ffN))) ∧ 8 ≤ v.ffSrcstart.length
  des : 0 < v.ffN → v.ffDesstart + 2 + 8 * v.ffN = v.size
  room : v.bufsz = bufsz - v.size
  fullLe : 256 * full + v.ffN ≤ m
  bound : 8 * m ≤ s.bytes.length → v.size ≤ 8 * m + 2 * full + if 0 < v.ffN then 2 else 0
  fits : v.size ≤ packBound s.bytes.length
  frame : Frame bufsz mem v.mem

section Round

variable {s : Source} {bufsz : Int} {mem : Nat → UInt8} {m full : Nat} {v : PackVars}

theorem packSrcIn_spec (hm : 8 * m < s.bytes.length) :
    ∃ src, packSrcIn s (8 * m) = some src ∧ readBytes src 8 = some (group s.bytes m) ∧ 8 ≤ src.length ∧
      (8 * m + 8 ≤ s.bytes.length → src = (s.bytes ++ s.behind).drop (8 * m)) := by
  have hbehind := s.behind_length
  simp only [packSrcIn]
  split
  · rename_i hpad
    have hread : readBytes (s.bytes.drop (8 * m)) (8 - (8 * m + 8 - s.bytes.length)) = some (s.bytes.drop (8 * m)) := by
      rw [readBytes, if_pos (by simp; omega), List.take_of_length_le (by simp; omega)]
    refine ⟨_, by rw [hread]; rfl, ?_, ?_, by omega⟩
    · rw [group_of_cut hm (by omega), readBytes, if_pos (by simp; omega), List.take_of_length_le (by simp; omega)]
    · simp only [List.length_append, List.length_drop, List.length_replicate]
      omega
  · rename_i hpad
    have hdrop : s.bytes.drop (8 * m) ++ s.behind = (s.bytes ++ s.behind).drop (8 * m) := by
      rw [List.drop_append_of_le_length (by omega)]
    refine ⟨_, rfl, ?_, ?_, fun _ => hdrop⟩
    · rw [readBytes, if_pos (by simp; omega), List.take_append_of_le_length (by simp; omega), group,
        pad8_drop_take (by omega)]
    · simp only [List.length_append, List.length_drop]
      omega

/-- The credit of a round: what it takes, with what a run has paid, is within what is reserved. -/
theorem Bounded.fits_step (h : Bounded s bufsz mem m full v) (hm : 8 * m < s.bytes.length) :
    v.size + segCost v.ffN (nonzero (group s.bytes m)) ≤ packBound s.bytes.length := by
  have hb := h.bound (by omega)
  have hf := h.fullLe
  obtain ⟨h8, hle⟩ := nonzero_group_le hm
  unfold segCost packBound
  by_cases hj : Joins v.ffN (nonzero (group s.bytes m))
  · rw [if_pos hj]
    unfold Joins at hj
    split at hb
    · rw [if_pos (by assumption)]
      omega
    · rw [if_neg (by assumption)]
      omega
  · rw [if_neg hj]
    split at hb <;> omega

theorem packRoundIn_bounded (h : Bounded s bufsz mem m full v) (hm : 8 * m < s.bytes.length) :
    ∃ v' full', packRoundIn s (8 * m) v = some v' ∧ Bounded s bufsz mem (m + 1) full' v' := by
  have hbehind := s.behind_length
  obtain ⟨src, hsrc, hread, hlen, hdrop⟩ := packSrcIn_spec hm
  obtain ⟨mem', hseg, -, -⟩ := packSeg_spec hread v.size v.bufsz v.ffN v.mem
  have hframe : Frame bufsz mem mem' := by
    have hseg' := frame_packSeg hseg
    rw [h.room] at hseg'
    exact h.frame.trans fun j hj => hseg' j (by omega)
  have hfits := h.fits_step hm
  have hrunLe := h.runLe
  have hrunLt := h.runLt
  have hroom := h.room
  have hfullLe := h.fullLe
  have hbound := h.bound (by omega)
  obtain ⟨hnz, hnzle⟩ := nonzero_group_le hm
  simp only [packRoundIn, hsrc, hseg, Option.bind_eq_bind, Option.bind_some]
  by_cases hj : Joins v.ffN (nonzero (group s.bytes m))
  · by_cases hn : v.ffN = 0
    · -- a run begins
      have hcost : segCost v.ffN (nonzero (group s.bytes m)) = 10 := by
        rw [segCost, if_pos hj, hn]
        rfl
      rw [hcost] at hfits ⊢
      rw [if_pos rfl]
      have height : nonzero (group s.bytes m) = 8 := by
        unfold Joins at hj
        omega
      rw [hn, if_neg (Nat.lt_irrefl 0)] at hbound
      refine ⟨_, full, rfl, ⟨by simp only; omega, by simp only; omega, fun _ => ⟨by omega, ?_, hlen⟩, fun _ => rfl,
        by simp only; omega, by simp only; omega, ?_, hfits, hframe⟩⟩
      · rintro (hle | hlt)
        · exact hdrop (by omega)
        · exact absurd hlt (by simp only; omega)
      · intro _
        simp only [Nat.zero_lt_one, if_true]
        omega
    · have hpos : 0 < v.ffN := Nat.pos_of_ne_zero hn
      have hcost : segCost v.ffN (nonzero (group s.bytes m)) = 8 := by rw [segCost, if_pos hj, if_pos hpos]
      obtain ⟨hle7, hstart, hlen8⟩ := h.src hpos
      have hstart' := hstart (.inl (by omega))
      have hdes := h.des hpos
      rw [hcost] at hfits ⊢
      rw [if_neg (by decide), if_pos ⟨rfl, hpos⟩]
      rw [if_pos hpos] at hbound
      by_cases h256 : v.ffN + 1 = 256
      · -- the run is full
        rw [if_pos h256]
        obtain ⟨mem'', hflush, hflushed⟩ := flushFf_frame (v := { v with bufsz := v.bufsz - (8 : Nat), mem := mem' })
          (n := 256 * 8) bufsz
          (by simp only [hstart', List.length_drop, List.length_append]; omega) (by simp only; omega)
        rw [hflush]
        refine ⟨_, full + 1, rfl, ⟨Nat.zero_le _, by simp only; omega, (fun h => by cases h), (fun h => by cases h), by simp only; omega,
          by simp only; omega, ?_, hfits, hframe.trans hflushed⟩⟩
        intro _
        simp only [Nat.lt_irrefl, if_false]
        omega
      · rw [if_neg h256]
        refine ⟨_, full, rfl, ⟨by simp only; omega, by simp only; omega, fun _ => ⟨by omega, fun _ => ?_, hlen8⟩,
          fun _ => by simp only; omega, by simp only; omega, by simp only; omega, ?_, hfits, hframe⟩⟩
        · simp only [hstart', Nat.add_sub_add_right]
        · intro _
          simp only [Nat.succ_pos, if_true]
          omega
  · have hcost : segCost v.ffN (nonzero (group s.bytes m)) = nonzero (group s.bytes m) + 1 := by rw [segCost, if_neg hj]
    have hnz' : nonzero (group s.bytes m) ≤ 7 ∧ (0 < v.ffN → nonzero (group s.bytes m) ≤ 5) := by
      unfold Joins at hj
      omega
    rw [hcost] at hfits ⊢
    rw [if_neg (by omega), if_neg (by omega)]
    by_cases hpos : 0 < v.ffN
    · -- a group with zeros ends the run
      obtain ⟨hle7, hstart, hlen8⟩ := h.src hpos
      have hstart' := hstart (.inl (by omega))
      have hdes := h.des hpos
      rw [if_pos hpos] at hbound ⊢
      obtain ⟨mem'', hflush, hflushed⟩ := flushFf_frame
        (v := { v with bufsz := v.bufsz - (nonzero (group s.bytes m) + 1 : Nat), mem := mem' })
        (n := v.ffN * 8) bufsz
        (by simp only [hstart', List.length_drop, List.length_append]; omega) (by simp only; omega)
      rw [hflush]
      refine ⟨_, full, rfl, ⟨Nat.zero_le _, by simp only; omega, (fun h => by cases h), (fun h => by cases h), by simp only; omega,
        by simp only; omega, ?_, hfits, hframe.trans hflushed⟩⟩
      intro _
      simp only [Nat.lt_irrefl, if_false]
      omega
    · rw [if_neg hpos] at hbound ⊢
      refine ⟨_, full, rfl, ⟨by simp only; omega, hrunLt, fun h => absurd h hpos, fun h => absurd h hpos,
        by simp only; omega, by simp only; omega, ?_, hfits, hframe⟩⟩
      intro _
      simp only [if_neg hpos]
      omega

theorem packRoundsIn_bounded (s : Source) (bufsz : Int) (mem : Nat → UInt8) (m : Nat) (hm : 8 * m ≤ s.bytes.length + 7) :
    ∃ v full, packRoundsIn s (packInit mem bufsz) m = some v ∧ Bounded s bufsz mem m full v := by
  induction m with
  | zero =>
    exact ⟨_, 0, rfl, ⟨Nat.le_refl _, by simp only [packInit]; omega, nofun, nofun, by simp [packInit], Nat.le_refl _,
      fun _ => Nat.zero_le _, Nat.zero_le _, .refl _ _⟩⟩
  | succ m ih =>
    obtain ⟨v, full, hv, h⟩ := ih (by omega)
    obtain ⟨v', full', hround, h'⟩ := packRoundIn_bounded h (by omega)
    exact ⟨v', full', by rw [packRoundsIn, hv, Option.bind_some, hround], h'⟩

/-- The run that is open at the end has its room. -/
theorem packEndIn_bounded (h : Bounded s bufsz mem ((s.bytes.length + 7) / 8) full v) :
    ∃ mem', packEndIn s v = some { v with mem := mem' } ∧ Frame bufsz v.mem mem' := by
  have hbehind := s.behind_length
  have hroom := h.room
  have hrunLe := h.runLe
  simp only [packEndIn]
  split
  · rename_i hone
    obtain ⟨-, -, hlen⟩ := h.src (by omega)
    have hdes := h.des (by omega)
    exact flushFf_frame bufsz hlen (by omega)
  · split
    · rename_i hlt
      obtain ⟨hle7, hstart, -⟩ := h.src (by omega)
      have hstart' := hstart (.inr hlt)
      have hdes := h.des (by omega)
      have hstartlen : v.ffSrcstart.length = s.bytes.length + 7 - 8 * ((s.bytes.length + 7) / 8 - v.ffN) := by
        rw [hstart', List.length_drop, List.length_append, hbehind]
      refine flushFf_frame bufsz ?_ ?_
      · rw [List.length_append, hbehind, hstartlen]
        omega
      · rw [List.length_append, hbehind, hstartlen]
        omega
    · exact ⟨v.mem, rfl, .refl _ _⟩

end Round

/-- Whatever the output has room for, packing takes at most what `lpack` reserves, and writes inside of the output. -/
theorem sprotoPackIn_bounded (s : Source) (mem : Nat → UInt8) (bufsz : Int) :
    ∃ size mem', sprotoPackIn s mem bufsz = some (size, mem') ∧ size ≤ packBound s.bytes.length ∧
      Frame bufsz mem mem' := by
  obtain ⟨v, full, hv, h⟩ := packRoundsIn_bounded s bufsz mem ((s.bytes.length + 7) / 8) (by omega)
  obtain ⟨mem', hend, hframe⟩ := packEndIn_bounded h
  refine ⟨v.size, mem', ?_, h.fits, h.frame.trans hframe⟩
  simp only [sprotoPackIn, hv, hend, Option.bind_eq_bind, Option.bind_some]

/-! ### Where nothing behind the source is read -/

theorem readBytes_of_prefix {src src' bs : Bytes} {n : Nat} (hp : src <+: src') (h : readBytes src n = some bs) :
    readBytes src' n = some bs := by
  obtain ⟨tail, rfl⟩ := hp
  simp only [readBytes] at h ⊢
  split at h
  · rename_i hn
    rw [if_pos (by simp only [List.length_append]; omega), List.take_append_of_le_length hn]
    exact h
  · cases h

theorem packSeg_of_prefix {src src' : Bytes} {buffer n : Nat} {sz : Int} {mem : Nat → UInt8} {r : Nat × (Nat → UInt8)}
    (hp : src <+: src') (h : packSeg src buffer sz n mem = some r) : packSeg src' buffer sz n mem = some r := by
  simp only [packSeg, Option.bind_eq_bind, Option.bind_eq_some_iff] at h ⊢
  obtain ⟨bs, hbs, h⟩ := h
  exact ⟨bs, readBytes_of_prefix hp hbs, h⟩

theorem flushFf_start {v w : PackVars} {n : Nat} {start : Bytes} (hp : v.ffSrcstart <+: start)
    (h : flushFf v n = some w) :
    flushFf { v with ffSrcstart := start } n = some { w with ffSrcstart := start } ∧ w.ffSrcstart = v.ffSrcstart := by
  by_cases hroom : 0 ≤ v.bufsz
  · simp only [flushFf, if_pos hroom, writeFf, Option.bind_eq_bind, Option.bind_eq_some_iff] at h ⊢
    obtain ⟨mem, ⟨bs, hbs, hmem⟩, hw⟩ := h
    cases hw
    exact ⟨⟨mem, ⟨bs, readBytes_of_prefix hp hbs, hmem⟩, rfl⟩, rfl⟩
  · simp only [flushFf, if_neg hroom, Option.some.injEq] at h ⊢
    subst h
    exact ⟨rfl, rfl⟩

/-- The variables of both, after `m` rounds: they differ in where the memory of the source ends. -/
structure Ahead (s : Source) (m : Nat) (v v' : PackVars) : Prop where
  same : v' = { v with ffSrcstart := v'.ffSrcstart }
  start : v.ffSrcstart <+: v'.ffSrcstart
  length : 1 < v.ffN ∨ 0 < v.ffN ∧ 8 * m ≤ s.bytes.length → v'.ffSrcstart.length = v.ffSrcstart.length + 7

theorem packSrcIn_of_packSrc {s : Source} {i : Nat} {src : Bytes} (h : packSrc s.bytes i = some src) :
    ∃ src', packSrcIn s i = some src' ∧ src <+: src' ∧ (i + 8 ≤ s.bytes.length → src'.length = src.length + 7) := by
  simp only [packSrc] at h
  simp only [packSrcIn]
  split at h
  · rename_i hpad
    rw [if_pos hpad, h]
    exact ⟨src, rfl, List.prefix_refl _, by omega⟩
  · rename_i hpad
    cases h
    rw [if_neg hpad]
    refine ⟨_, rfl, List.prefix_append .., fun _ => ?_⟩
    rw [List.length_append, s.behind_length]

theorem packRoundIn_of_packRound {s : Source} {m : Nat} {v v' w : PackVars} (ha : Ahead s m v v')
    (hm : 8 * m < s.bytes.length) (h : packRound s.bytes (8 * m) v = some w) :
    ∃ w', packRoundIn s (8 * m) v' = some w' ∧ Ahead s (m + 1) w w' := by
  obtain ⟨hsame, hstart, hlength⟩ := ha
  simp only [packRound, Option.bind_eq_bind, Option.bind_eq_some_iff] at h
  obtain ⟨src, hsrc, ⟨n, mem⟩, hseg, h⟩ := h
  obtain ⟨src', hsrc', hprefix, hlen⟩ := packSrcIn_of_packSrc hsrc
  generalize v'.ffSrcstart = start at hsame hstart hlength
  subst hsame
  simp only [packRoundIn, hsrc', packSeg_of_prefix hprefix hseg, Option.bind_eq_bind, Option.bind_some]
  simp only at h
  split at h
  · rename_i h10
    cases h
    rw [if_pos h10]
    exact ⟨_, rfl, rfl, hprefix, fun hr => hlen (by simp only at hr; omega)⟩
  · rename_i h10
    rw [if_neg h10]
    split at h
    · rename_i hjoin
      rw [if_pos hjoin]
      split at h
      · rename_i h256
        rw [if_pos h256]
        obtain ⟨u, hu, hw⟩ := Option.bind_eq_some_iff.mp h
        cases hw
        obtain ⟨hflush, hu⟩ := flushFf_start (v := { v with bufsz := v.bufsz - n, mem := mem }) hstart hu
        rw [hflush]
        exact ⟨_, rfl, rfl, by simp only [hu]; exact hstart, by simp⟩
      · rename_i h256
        cases h
        rw [if_neg h256]
        exact ⟨_, rfl, rfl, hstart, fun _ => hlength (by omega)⟩
    · rename_i hjoin
      rw [if_neg hjoin]
      split at h
      · rename_i hpos
        rw [if_pos hpos]
        obtain ⟨u, hu, hw⟩ := Option.bind_eq_some_iff.mp h
        cases hw
        obtain ⟨hflush, hu⟩ := flushFf_start (v := { v with bufsz := v.bufsz - n, mem := mem }) hstart hu
        rw [hflush]
        exact ⟨_, rfl, rfl, by simp only [hu]; exact hstart, by simp⟩
      · rename_i hpos
        cases h
        rw [if_neg hpos]
        exact ⟨_, rfl, rfl, hstart, fun hr => hlength (by simp only at hr; omega)⟩

/-- Where `sproto_pack` reads no byte behind the source, these bytes do not matter. -/
theorem sprotoPackIn_of_sprotoPack {s : Source} {mem : Nat → UInt8} {bufsz : Int} {r : Nat × (Nat → UInt8)}
    (h : sprotoPack s.bytes mem bufsz = some r) : sprotoPackIn s mem bufsz = some r := by
  have hrounds : ∀ m v, 8 * m ≤ s.bytes.length + 7 → packRounds s.bytes (packInit mem bufsz) m = some v →
      ∃ v', packRoundsIn s (packInit mem bufsz) m = some v' ∧ Ahead s m v v' := by
    intro m
    induction m with
    | zero =>
      intro v _ hv
      cases hv
      exact ⟨_, rfl, rfl, List.prefix_refl _, by simp [packInit]⟩
    | succ m ih =>
      intro v hm hv
      obtain ⟨u, hu, hround⟩ := Option.bind_eq_some_iff.mp hv
      obtain ⟨u', hu', ha⟩ := ih u (by omega) hu
      obtain ⟨v', hv', ha'⟩ := packRoundIn_of_packRound ha (by omega) hround
      exact ⟨v', by rw [packRoundsIn, hu', Option.bind_some, hv'], ha'⟩
  simp only [sprotoPack, Option.bind_eq_bind, Option.bind_eq_some_iff] at h
  obtain ⟨v, hv, w, hend, hr⟩ := h
  obtain ⟨v', hv', hsame, hstart, hlength⟩ := hrounds _ v (by omega) hv
  generalize v'.ffSrcstart = start at hsame hstart hlength
  subst hsame
  simp only [sprotoPackIn, hv', Option.bind_eq_bind, Option.bind_some]
  simp only [packEnd] at hend
  simp only [packEndIn]
  split at hend
  · rename_i hone
    rw [if_pos hone, (flushFf_start hstart hend).1]
    exact hr
  · rename_i hone
    rw [if_neg hone]
    split at hend
    · rename_i hlt
      have hoffset : (s.bytes ++ s.behind).length - start.length = s.bytes.length - v.ffSrcstart.length := by
        rw [hlength (.inl hlt), List.length_append, s.behind_length]
        omega
      rw [if_pos hlt, hoffset, (flushFf_start hstart hend).1]
      exact hr
    · rename_i hlt
      cases hend
      rw [if_neg hlt]
      exact hr

end Sproto
end Skynet
