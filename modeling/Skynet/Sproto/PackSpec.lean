import Skynet.Sproto.Segment

/-!
# Skynet.Sproto.PackSpec

What the rounds of `sproto_pack` write, and when packing and unpacking gives the source back.

* `openRun s m`     : the number of groups in the FF run that is open after `m` groups of `s`.
* `PartialCloses s` : the last group of `s` is shorter than 8 bytes and is the 256th of its run.
* `pack_roundtrip_iff` : exactly then packing reads beyond the source; otherwise unpacking the
  packed bytes gives the source, padded to whole groups.
-/

namespace Skynet
namespace Sproto

def nonzero (bs : Bytes) : Nat := bs.countP (· ≠ 0)

/-- A group with `nz` non-zero bytes opens a run, or joins an open run of `r` groups. -/
def Joins (r nz : Nat) : Prop := nz = 8 ∨ (0 < r ∧ 6 ≤ nz)

instance (r nz : Nat) : Decidable (Joins r nz) := by unfold Joins; infer_instance

/-- The run that is open after a group with `nz` non-zero bytes, from an open run of `r` groups. -/
def runStep (r nz : Nat) : Nat := if Joins r nz then (if r + 1 = 256 then 0 else r + 1) else 0

def openRun (s : Bytes) : Nat → Nat
  | 0 => 0
  | m + 1 => runStep (openRun s m) (nonzero ((s.drop (8 * m)).take 8))

/-- The last group is partial and is the 256th of an FF run. -/
def PartialCloses (s : Bytes) : Prop :=
  s.length % 8 ≠ 0 ∧ openRun s (s.length / 8) = 255 ∧ 6 ≤ nonzero (s.drop (8 * (s.length / 8)))

instance (s : Bytes) : Decidable (PartialCloses s) := by unfold PartialCloses; infer_instance

/-- The source padded with zero bytes to a multiple of 8. -/
def pad8 (s : Bytes) : Bytes := s ++ List.replicate ((s.length + 7) / 8 * 8 - s.length) 0

/-! ### `pack_seg` -/

theorem segLoop_spec (bs : Bytes) (i : Nat) (v : SegVars) :
    (segLoop i bs v).header = v.header ||| Segment.header i bs ∧
    (segLoop i bs v).notzero = v.notzero + nonzero bs ∧
    (∀ j, j < v.buffer → (segLoop i bs v).mem j = v.mem j) ∧
    ((nonzero bs : Int) ≤ v.sz →
      (segLoop i bs v).mem = Mem.blit v.mem v.buffer (bs.filter (· ≠ 0))) := by
  induction bs generalizing i v with
  | nil => simp [segLoop, Segment.header, nonzero, Mem.blit_nil]
  | cons b bs ih =>
    obtain ⟨hh, hn, hlow, hmem⟩ := ih (i + 1) (segByte v i b)
    simp only [segLoop]
    by_cases hb : b = 0
    · have hv : segByte v i b = v := by simp [segByte, hb]
      rw [hv] at hh hn hlow hmem ⊢
      have hnz : nonzero (b :: bs) = nonzero bs := by simp [nonzero, hb]
      have hhd : Segment.header i (b :: bs) = Segment.header (i + 1) bs := by simp [Segment.header, hb]
      have hf : (b :: bs).filter (· ≠ 0) = bs.filter (· ≠ 0) := by simp [hb]
      rw [hnz, hhd, hf]
      exact ⟨hh, hn, hlow, hmem⟩
    · have hnz : nonzero (b :: bs) = nonzero bs + 1 := by simp [nonzero, hb]
      have hhd : Segment.header i (b :: bs) = 1 <<< i ||| Segment.header (i + 1) bs := by
        simp [Segment.header, hb]
      have hf : (b :: bs).filter (· ≠ 0) = b :: bs.filter (· ≠ 0) := by simp [hb]
      rw [hnz, hhd, hf]
      by_cases hsz : 0 < v.sz
      · have hv : segByte v i b = { v with
            notzero := v.notzero + 1, header := v.header ||| 1 <<< i,
            mem := Mem.blit v.mem v.buffer [b], buffer := v.buffer + 1, sz := v.sz - 1 } := by
          simp [segByte, hb, hsz]
        rw [hv] at hh hn hlow hmem ⊢
        refine ⟨by rw [hh, Nat.or_assoc], by rw [hn]; simp only; omega, ?_, ?_⟩
        · intro j hj
          rw [hlow j (by simp only; omega)]
          exact Mem.blit_of_lt hj
        · intro hfit
          rw [hmem (by simp only; push_cast at hfit; omega)]
          exact Mem.blit_append v.mem v.buffer [b] _
      · have hv : segByte v i b = { v with notzero := v.notzero + 1, header := v.header ||| 1 <<< i } := by
          simp [segByte, hb, hsz]
        rw [hv] at hh hn hlow hmem ⊢
        refine ⟨by rw [hh, Nat.or_assoc], by rw [hn]; simp only; omega, hlow, ?_⟩
        intro hfit
        push_cast at hfit
        omega

theorem nonzero_le (bs : Bytes) : nonzero bs ≤ bs.length := List.countP_le_length

theorem nonzero_eq_filter (bs : Bytes) : (bs.filter (· ≠ 0)).length = nonzero bs :=
  List.countP_eq_length_filter.symm

theorem zero_mem_of_nonzero {bs : Bytes} (h : nonzero bs < bs.length) : 0 ∈ bs := by
  by_contra h0
  have : nonzero bs = bs.length := List.countP_eq_length.mpr fun b hb => by
    rw [decide_eq_true_iff]
    rintro rfl
    exact h0 hb
  omega

/-- The bytes `pack_seg` accounts for, for a group of `nz` non-zero bytes. -/
def segCost (n nz : Nat) : Nat := if Joins n nz then (if 0 < n then 8 else 10) else nz + 1

theorem packSeg_spec {src bs : Bytes} (hsrc : readBytes src 8 = some bs) (buffer : Nat) (sz : Int)
    (n : Nat) (mem : Nat → UInt8) :
    ∃ m, packSeg src buffer sz n mem = some (segCost n (nonzero bs), m) ∧
      (∀ j, j < buffer → m j = mem j) ∧
      (¬Joins n (nonzero bs) → nonzero bs + 1 ≤ sz →
        Mem.slice m buffer (nonzero bs + 1) = (Segment.sparse bs).packed) := by
  have hlen : bs.length = 8 := by
    simp only [readBytes] at hsrc
    split at hsrc
    · cases hsrc; simp; omega
    · cases hsrc
  obtain ⟨hh, hn, hlow, hmem⟩ := segLoop_spec bs 0 { header := 0, notzero := 0, buffer := buffer + 1, sz := sz - 1, mem := mem }
  simp only [Nat.zero_or, Nat.zero_add] at hh hn
  have hle := nonzero_le bs
  simp only [packSeg, hsrc, hn, hh, Option.bind_eq_bind, Option.bind_some]
  have hlow' : ∀ j, j < buffer →
      (segLoop 0 bs { header := 0, notzero := 0, buffer := buffer + 1, sz := sz - 1, mem := mem }).mem j = mem j :=
    fun j hj => hlow j (by simp only; omega)
  by_cases hj : Joins n (nonzero bs)
  · have h8 : (if (nonzero bs = 7 ∨ nonzero bs = 6) ∧ 0 < n then 8 else nonzero bs) = 8 := by
      unfold Joins at hj
      split <;> omega
    rw [h8, if_pos rfl, segCost, if_pos hj]
    split
    · exact ⟨_, rfl, hlow', fun h => absurd hj h⟩
    · exact ⟨_, rfl, hlow', fun h => absurd hj h⟩
  · have hne : (if (nonzero bs = 7 ∨ nonzero bs = 6) ∧ 0 < n then 8 else nonzero bs) = nonzero bs := by
      unfold Joins at hj
      rw [if_neg]
      omega
    have hne8 : nonzero bs ≠ 8 := fun h => hj (.inl h)
    rw [hne, if_neg hne8, segCost, if_neg hj]
    split
    · refine ⟨_, rfl, ?_, ?_⟩
      · intro j hj
        rw [Mem.blit_of_lt hj, hlow' j hj]
      · intro _ hfit
        rw [hmem (by simp only; omega), Mem.slice_succ, Mem.blit_of_mem (Nat.le_refl _) (by simp),
          Mem.slice_blit_above (by simp), ← nonzero_eq_filter bs, Mem.slice_blit]
        simp [Segment.packed]
    · refine ⟨_, rfl, hlow', ?_⟩
      intro _ hfit
      omega

/-! ### The rounds of `sproto_pack` -/

/-- The state after `m` rounds: the segments `gs` are written, and the last `ffN` groups wait in an
open run, for which `2 + 8 * ffN` bytes are reserved. `full` counts the runs of 256 groups. -/
structure PackInv (s : Bytes) (bufsz : Int) (m : Nat) (gs : List Segment) (full : Nat) (v : PackVars) :
    Prop where
  ok : ∀ g ∈ gs, g.Ok
  run : v.ffN = openRun (pad8 s) m
  runLe : v.ffN ≤ m
  runLt : v.ffN < 256
  raw : gs.flatMap Segment.raw = (pad8 s).take (8 * (m - v.ffN))
  src : 0 < v.ffN → v.ffSrcstart = s.drop (8 * (m - v.ffN))
  des : 0 < v.ffN → v.ffDesstart = (gs.flatMap Segment.packed).length
  size : v.size = (gs.flatMap Segment.packed).length + if 0 < v.ffN then 2 + 8 * v.ffN else 0
  mem : Mem.slice v.mem 0 (gs.flatMap Segment.packed).length = gs.flatMap Segment.packed
  room : v.bufsz = bufsz - v.size
  fullLe : 256 * full + v.ffN ≤ m
  bound : 8 * m ≤ s.length → v.size ≤ 8 * m + 2 * full + if 0 < v.ffN then 2 else 0
  fits : v.size ≤ packBound s.length

theorem pad8_length (s : Bytes) : (pad8 s).length = (s.length + 7) / 8 * 8 := by
  simp only [pad8, List.length_append, List.length_replicate]; omega

theorem pad8_drop_take {s : Bytes} {i n : Nat} (h : i + n ≤ s.length) :
    ((pad8 s).drop i).take n = (s.drop i).take n := by
  rw [pad8, List.drop_append_of_le_length (by omega), List.take_append_of_le_length (by simp; omega)]

/-- The source of a round: its first 8 bytes are the group of the padded source, and unless the
group is partial it points into the source. -/
theorem packSrc_spec {s : Bytes} {m : Nat} (hm : 8 * m < s.length) :
    ∃ src, packSrc s (8 * m) = some src ∧ readBytes src 8 = some (((pad8 s).drop (8 * m)).take 8) ∧
      (8 * m + 8 ≤ s.length → src = s.drop (8 * m)) := by
  simp only [packSrc]
  split
  · rename_i hpad
    have hread : readBytes (s.drop (8 * m)) (8 - (8 * m + 8 - s.length)) = some (s.drop (8 * m)) := by
      rw [readBytes, if_pos (by simp; omega), List.take_of_length_le (by simp; omega)]
    have hpadlen : (s.length + 7) / 8 * 8 - s.length = 8 * m + 8 - s.length := by omega
    refine ⟨_, by rw [hread]; rfl, ?_, by omega⟩
    rw [readBytes, if_pos (by simp; omega), pad8, List.drop_append_of_le_length (by omega), hpadlen]
  · rename_i hpad
    refine ⟨_, rfl, ?_, fun _ => rfl⟩
    rw [readBytes, if_pos (by simp; omega), pad8_drop_take (by omega)]

/-- The memory after an open run is written back: one more segment. -/
theorem flushFf_spec {v : PackVars} {n : Nat} (hroom : 0 ≤ v.bufsz) (hn : n ≤ v.ffSrcstart.length) :
    flushFf v n = some { v with
      mem := Mem.blit v.mem v.ffDesstart
        (Segment.run (v.ffSrcstart.take n ++ List.replicate ((n + 7) / 8 * 8 - n) 0)).packed } := by
  have hlen : (v.ffSrcstart.take n ++ List.replicate ((n + 7) / 8 * 8 - n) (0 : UInt8)).length / 8
      = (n + 7) / 8 * 8 / 8 := by
    simp only [List.length_append, List.length_take, List.length_replicate]
    congr 1
    omega
  simp only [flushFf, if_pos hroom, writeFf, readBytes, if_pos hn, Option.bind_eq_bind, Option.bind_some,
    Segment.packed, hlen, List.cons_append]

/-- Reading beyond the source is what a write back of too many bytes does. -/
theorem flushFf_beyond {v : PackVars} {n : Nat} (hroom : 0 ≤ v.bufsz) (hn : v.ffSrcstart.length < n) :
    flushFf v n = none := by
  simp only [flushFf, if_pos hroom, writeFf, readBytes, if_neg (Nat.not_le.mpr hn), Option.bind_eq_bind,
    Option.bind_none]

/-- The group of round `m`. -/
def group (s : Bytes) (m : Nat) : Bytes := ((pad8 s).drop (8 * m)).take 8

theorem group_length {s : Bytes} {m : Nat} (hm : 8 * m < s.length) : (group s m).length = 8 := by
  simp only [group, List.length_take, List.length_drop, pad8_length]; omega

theorem group_of_cut {s : Bytes} {m : Nat} (hm : 8 * m < s.length) (hp : s.length < 8 * m + 8) :
    group s m = s.drop (8 * m) ++ List.replicate (8 * m + 8 - s.length) 0 := by
  have hpadlen : (s.length + 7) / 8 * 8 - s.length = 8 * m + 8 - s.length := by omega
  rw [group, pad8, List.drop_append_of_le_length (by omega), hpadlen, List.take_of_length_le]
  simp only [List.length_append, List.length_drop, List.length_replicate]; omega

theorem nonzero_group_cut {s : Bytes} {m : Nat} (hm : 8 * m < s.length) (hp : s.length < 8 * m + 8) :
    nonzero (group s m) = nonzero (s.drop (8 * m)) := by
  rw [group_of_cut hm hp, nonzero, List.countP_append, List.countP_replicate]
  simp [nonzero]

theorem nonzero_group_le {s : Bytes} {m : Nat} (hm : 8 * m < s.length) :
    nonzero (group s m) ≤ 8 ∧ nonzero (group s m) ≤ s.length - 8 * m := by
  have h8 := nonzero_le (group s m)
  rw [group_length hm] at h8
  refine ⟨h8, ?_⟩
  by_cases hp : s.length < 8 * m + 8
  · rw [nonzero_group_cut hm hp]
    simpa using nonzero_le (s.drop (8 * m))
  · omega

theorem take_group {s : Bytes} (m : Nat) :
    (pad8 s).take (8 * (m + 1)) = (pad8 s).take (8 * m) ++ group s m := by
  rw [show 8 * (m + 1) = 8 * m + 8 by omega, List.take_add]; rfl

section Round

variable {s : Bytes} {bufsz : Int} {m full : Nat} {gs : List Segment} {v : PackVars}

/-- A round ends with the output inside what `lpack` reserves. -/
theorem PackInv.fits_step (h : PackInv s bufsz m gs full v) (hm : 8 * m < s.length) :
    v.size + segCost v.ffN (nonzero (group s m)) ≤ packBound s.length := by
  have hb := h.bound (by omega)
  have hf := h.fullLe
  obtain ⟨h8, hle⟩ := nonzero_group_le hm
  unfold segCost packBound
  by_cases hj : Joins v.ffN (nonzero (group s m))
  · rw [if_pos hj]
    unfold Joins at hj
    split at hb
    · rw [if_pos (by assumption)]; omega
    · rw [if_neg (by assumption)]; omega
  · rw [if_neg hj]
    split at hb <;> omega

theorem packRound_step (h : PackInv s bufsz m gs full v) (hm : 8 * m < s.length) :
    ∃ src mem, packSrc s (8 * m) = some src ∧
      packSeg src v.size v.bufsz v.ffN v.mem = some (segCost v.ffN (nonzero (group s m)), mem) ∧
      (8 * m + 8 ≤ s.length → src = s.drop (8 * m)) ∧
      (∀ j, j < v.size → mem j = v.mem j) ∧
      (¬Joins v.ffN (nonzero (group s m)) → packBound s.length ≤ bufsz →
        Mem.slice mem v.size (nonzero (group s m) + 1) = (Segment.sparse (group s m)).packed) := by
  obtain ⟨src, hsrc, hread, hfull⟩ := packSrc_spec hm
  obtain ⟨mem, hseg, hlow, hput⟩ := packSeg_spec hread v.size v.bufsz v.ffN v.mem
  refine ⟨src, mem, hsrc, hseg, hfull, hlow, ?_⟩
  intro hj hb
  have hfits := h.fits_step hm
  rw [segCost, if_neg hj] at hfits
  have hroom := h.room
  exact hput hj (by change ((nonzero (group s m) : Nat) : Int) + 1 ≤ v.bufsz; omega)

/-- A group of 8 non-zero bytes opens a run. -/
theorem packRound_open (h : PackInv s bufsz m gs full v) (hm : 8 * m < s.length) (hn : v.ffN = 0)
    (hj : Joins v.ffN (nonzero (group s m))) :
    ∃ v', packRound s (8 * m) v = some v' ∧ PackInv s bufsz (m + 1) gs full v' := by
  obtain ⟨src, mem, hsrc, hseg, hfull, hlow, -⟩ := packRound_step h hm
  have h8 : nonzero (group s m) = 8 := by unfold Joins at hj; omega
  have hle := (nonzero_group_le hm).2
  have hcost : segCost v.ffN (nonzero (group s m)) = 10 := by rw [segCost, if_pos hj, if_neg (by omega)]
  have hfits := h.fits_step hm
  rw [hcost] at hseg hfits
  have hsize : v.size = (gs.flatMap Segment.packed).length := by rw [h.size, if_neg (by omega)]; rfl
  have hb := h.bound (by omega)
  have hf := h.fullLe
  rw [if_neg (by omega)] at hb
  refine ⟨_, by
    simp only [packRound, hsrc, hseg, Option.bind_eq_bind, Option.bind_some, if_true]; rfl, ?_⟩
  constructor
  · exact h.ok
  · change 1 = runStep (openRun (pad8 s) m) (nonzero (group s m))
    rw [← h.run, runStep, if_pos hj, hn]; rfl
  · change 1 ≤ m + 1; omega
  · change 1 < 256; omega
  · change _ = (pad8 s).take (8 * (m + 1 - 1))
    rw [h.raw, hn]; rfl
  · intro _; exact hfull (by omega)
  · intro _; exact hsize
  · simp only [Nat.zero_lt_one, if_true]; omega
  · exact (Mem.slice_congr fun j _ hj => hlow j (by omega)).trans h.mem
  · simp only [h.room]; push_cast; omega
  · change 256 * full + 1 ≤ m + 1; omega
  · intro _; simp only [Nat.zero_lt_one, if_true]; omega
  · exact hfits

/-- A group joins an open run that it does not fill. -/
theorem packRound_join (h : PackInv s bufsz m gs full v) (hm : 8 * m < s.length) (hn : 0 < v.ffN)
    (hj : Joins v.ffN (nonzero (group s m))) (hne : v.ffN + 1 ≠ 256) :
    ∃ v', packRound s (8 * m) v = some v' ∧ PackInv s bufsz (m + 1) gs full v' := by
  obtain ⟨src, mem, hsrc, hseg, -, hlow, -⟩ := packRound_step h hm
  have hcost : segCost v.ffN (nonzero (group s m)) = 8 := by rw [segCost, if_pos hj, if_pos hn]
  have hfits := h.fits_step hm
  rw [hcost] at hseg hfits
  have hlt := h.runLt
  have hf := h.fullLe
  have hsize : v.size = (gs.flatMap Segment.packed).length + (2 + 8 * v.ffN) := by rw [h.size, if_pos hn]
  have hsub : m + 1 - (v.ffN + 1) = m - v.ffN := by omega
  refine ⟨_, by
    simp only [packRound, hsrc, hseg, Option.bind_eq_bind, Option.bind_some, hn, hne]
    rw [if_neg (by decide), if_pos ⟨trivial, trivial⟩]; rfl, ?_⟩
  constructor
  · exact h.ok
  · change v.ffN + 1 = runStep (openRun (pad8 s) m) (nonzero (group s m))
    rw [← h.run, runStep, if_pos hj, if_neg hne]
  · change v.ffN + 1 ≤ m + 1; omega
  · change v.ffN + 1 < 256; omega
  · change _ = (pad8 s).take (8 * (m + 1 - (v.ffN + 1)))
    rw [hsub, h.raw]
  · intro _
    change _ = s.drop (8 * (m + 1 - (v.ffN + 1)))
    rw [hsub, h.src hn]
  · intro _; exact h.des hn
  · simp only [Nat.zero_lt_succ, if_true]; omega
  · exact (Mem.slice_congr fun j _ hj => hlow j (by omega)).trans h.mem
  · simp only [h.room]; push_cast; omega
  · change 256 * full + (v.ffN + 1) ≤ m + 1; omega
  · intro hm'
    have hb := h.bound (by omega)
    rw [if_pos hn] at hb
    simp only [Nat.zero_lt_succ, if_true]; omega
  · exact hfits

theorem take_run {c r : Nat} (h : 8 * (c + r) ≤ s.length) :
    (pad8 s).take (8 * c) ++ (s.drop (8 * c)).take (8 * r) = (pad8 s).take (8 * (c + r)) := by
  rw [Nat.mul_add, List.take_add, pad8_drop_take (by omega)]

theorem run_packed_length (bs : Bytes) : (Segment.run bs).packed.length = bs.length + 2 := by
  simp [Segment.packed]

theorem sparse_packed_length (bs : Bytes) : (Segment.sparse bs).packed.length = nonzero bs + 1 := by
  simp only [Segment.packed, List.length_cons, nonzero_eq_filter]

theorem flatMap_snoc (f : Segment → Bytes) (g : Segment) :
    (gs ++ [g]).flatMap f = gs.flatMap f ++ f g := by simp

/-- A full run of groups in the source, as the segment written for it. -/
theorem flushFf_run (h : PackInv s bufsz m gs full v) (hn : 0 < v.ffN) {r : Nat} (mem : Nat → UInt8)
    {room : Int} (hroom : 0 ≤ room) (hr : 8 * (m - v.ffN + r) ≤ s.length) :
    flushFf { v with bufsz := room, mem := mem } (8 * r) = some { v with
      bufsz := room
      mem := Mem.blit mem (gs.flatMap Segment.packed).length
        (Segment.run ((s.drop (8 * (m - v.ffN))).take (8 * r))).packed } := by
  have hlen : 8 * r ≤ v.ffSrcstart.length := by rw [h.src hn, List.length_drop]; omega
  have hal : (8 * r + 7) / 8 * 8 - 8 * r = 0 := by omega
  rw [flushFf_spec (v := { v with bufsz := room, mem := mem }) hroom hlen]
  simp only [h.src hn, h.des hn, hal, List.replicate_zero, List.append_nil]

/-- The group that fills an open run: the run is written from the source, where all its bytes are. -/
theorem packRound_close (h : PackInv s bufsz m gs full v) (hbuf : packBound s.length ≤ bufsz)
    (hm : 8 * m + 8 ≤ s.length) (hj : Joins v.ffN (nonzero (group s m))) (hn : v.ffN + 1 = 256) :
    ∃ v' gs', packRound s (8 * m) v = some v' ∧ PackInv s bufsz (m + 1) gs' (full + 1) v' := by
  obtain ⟨src, mem, hsrc, hseg, -, hlow, -⟩ := packRound_step h (by omega)
  have hpos : 0 < v.ffN := by omega
  have hcost : segCost v.ffN (nonzero (group s m)) = 8 := by rw [segCost, if_pos hj, if_pos hpos]
  have hfits := h.fits_step (by omega)
  rw [hcost] at hseg hfits
  have hf := h.fullLe
  have hroom : 0 ≤ v.bufsz - (8 : Nat) := by rw [h.room]; push_cast; omega
  have hflush := flushFf_run h hpos (r := 256) mem hroom (by omega)
  have hsub : m - v.ffN + 256 = m + 1 := by omega
  have hsize : v.size = (gs.flatMap Segment.packed).length + (2 + 8 * v.ffN) := by rw [h.size, if_pos hpos]
  have hlen : ((s.drop (8 * (m - v.ffN))).take (8 * 256)).length = 2048 := by
    rw [List.length_take, List.length_drop]; omega
  refine ⟨_, gs ++ [Segment.run ((s.drop (8 * (m - v.ffN))).take (8 * 256))], by
    simp only [packRound, hsrc, hseg, Option.bind_eq_bind, Option.bind_some, hpos, hn]
    rw [if_neg (by decide), if_pos ⟨trivial, trivial⟩, if_pos trivial]
    rw [show 256 * 8 = 8 * 256 from rfl, hflush]; rfl, ?_⟩
  constructor
  · intro g hg
    rcases List.mem_append.mp hg with hg | hg
    · exact h.ok g hg
    · rw [List.mem_singleton.mp hg]
      exact ⟨255, by omega, hlen⟩
  · change 0 = runStep (openRun (pad8 s) m) (nonzero (group s m))
    rw [← h.run, runStep, if_pos hj, if_pos hn]
  · change 0 ≤ m + 1; omega
  · change 0 < 256; omega
  · change _ = (pad8 s).take (8 * (m + 1 - 0))
    rw [flatMap_snoc, h.raw, Nat.sub_zero, ← hsub]
    exact take_run (by omega)
  · intro h0; exact absurd h0 (Nat.lt_irrefl 0)
  · intro h0; exact absurd h0 (Nat.lt_irrefl 0)
  · rw [flatMap_snoc, List.length_append, run_packed_length, hlen, if_neg (Nat.lt_irrefl 0)]
    simp only; omega
  · rw [flatMap_snoc, List.length_append, Mem.slice_blit_append,
      (Mem.slice_congr fun j _ hj => hlow j (by omega)).trans h.mem]
  · simp only [h.room]; push_cast; omega
  · change 256 * (full + 1) + 0 ≤ m + 1; omega
  · intro hm'
    have hb := h.bound (by omega)
    rw [if_pos hpos] at hb
    rw [if_neg (Nat.lt_irrefl 0)]; simp only; omega
  · exact hfits

/-- The partial group that fills an open run: the run is written from the source all the same, and
the read goes beyond it. -/
theorem packRound_beyond (h : PackInv s bufsz m gs full v) (hbuf : packBound s.length ≤ bufsz)
    (hm : 8 * m < s.length) (hp : s.length < 8 * m + 8) (hj : Joins v.ffN (nonzero (group s m)))
    (hn : v.ffN + 1 = 256) : packRound s (8 * m) v = none := by
  obtain ⟨src, mem, hsrc, hseg, -, -, -⟩ := packRound_step h hm
  have hpos : 0 < v.ffN := by omega
  have hcost : segCost v.ffN (nonzero (group s m)) = 8 := by rw [segCost, if_pos hj, if_pos hpos]
  have hfits := h.fits_step hm
  rw [hcost] at hseg hfits
  have hf := h.fullLe
  have hroom : 0 ≤ v.bufsz - (8 : Nat) := by rw [h.room]; push_cast; omega
  simp only [packRound, hsrc, hseg, Option.bind_eq_bind, Option.bind_some, hpos, hn]
  rw [if_neg (by decide), if_pos ⟨trivial, trivial⟩, if_pos trivial, flushFf_beyond hroom]
  · rfl
  · simp only [h.src hpos, List.length_drop]; omega

/-- A group with few non-zero bytes ends an open run. -/
theorem packRound_end (h : PackInv s bufsz m gs full v) (hbuf : packBound s.length ≤ bufsz)
    (hm : 8 * m < s.length) (hj : ¬Joins v.ffN (nonzero (group s m))) (hn : 0 < v.ffN) :
    ∃ v' gs', packRound s (8 * m) v = some v' ∧ PackInv s bufsz (m + 1) gs' full v' := by
  obtain ⟨src, mem, hsrc, hseg, -, hlow, hput⟩ := packRound_step h hm
  have hle := (nonzero_group_le hm).1
  have hnz : nonzero (group s m) ≤ 5 := by unfold Joins at hj; omega
  have hcost : segCost v.ffN (nonzero (group s m)) = nonzero (group s m) + 1 := by rw [segCost, if_neg hj]
  have hfits := h.fits_step hm
  rw [hcost] at hseg hfits
  have hf := h.fullLe
  have hlt := h.runLt
  have hroom : 0 ≤ v.bufsz - ((nonzero (group s m) + 1 : Nat) : Int) := by rw [h.room]; push_cast; omega
  have hflush := flushFf_run h hn (r := v.ffN) mem hroom (by omega)
  have hsub : m - v.ffN + v.ffN = m := by omega
  have hlen : ((s.drop (8 * (m - v.ffN))).take (8 * v.ffN)).length = 8 * v.ffN := by
    rw [List.length_take, List.length_drop]; omega
  have hsize : v.size = (gs.flatMap Segment.packed).length
      + (Segment.run ((s.drop (8 * (m - v.ffN))).take (8 * v.ffN))).packed.length := by
    rw [h.size, if_pos hn, run_packed_length, hlen]; omega
  refine ⟨_, gs ++ [Segment.run ((s.drop (8 * (m - v.ffN))).take (8 * v.ffN))] ++ [Segment.sparse (group s m)], by
    simp only [packRound, hsrc, hseg, Option.bind_eq_bind, Option.bind_some]
    rw [if_neg (by omega), if_neg (by omega), if_pos hn, Nat.mul_comm v.ffN 8, hflush]; rfl, ?_⟩
  constructor
  · intro g hg
    rcases List.mem_append.mp hg with hg | hg
    · rcases List.mem_append.mp hg with hg | hg
      · exact h.ok g hg
      · rw [List.mem_singleton.mp hg]
        exact ⟨v.ffN - 1, by omega, by rw [hlen]; omega⟩
    · rw [List.mem_singleton.mp hg]
      exact ⟨group_length hm, zero_mem_of_nonzero (by rw [group_length hm]; omega)⟩
  · change 0 = runStep (openRun (pad8 s) m) (nonzero (group s m))
    rw [← h.run, runStep, if_neg hj]
  · change 0 ≤ m + 1; omega
  · change 0 < 256; omega
  · change _ = (pad8 s).take (8 * (m + 1 - 0))
    rw [flatMap_snoc, flatMap_snoc, h.raw, Nat.sub_zero, take_group]
    congr 1
    have := take_run (s := s) (c := m - v.ffN) (r := v.ffN) (by omega)
    rwa [hsub] at this
  · intro h0; exact absurd h0 (Nat.lt_irrefl 0)
  · intro h0; exact absurd h0 (Nat.lt_irrefl 0)
  · rw [flatMap_snoc, flatMap_snoc, List.length_append, List.length_append, sparse_packed_length,
      ← hsize, if_neg (Nat.lt_irrefl 0)]
    rfl
  · rw [flatMap_snoc, flatMap_snoc, List.length_append, Mem.slice_add, List.length_append, Nat.zero_add,
      Mem.slice_blit_append, Mem.slice_blit_above (Nat.le_refl _), ← hsize, sparse_packed_length,
      hput hj hbuf, (Mem.slice_congr fun j _ hj => hlow j (by omega)).trans h.mem]
  · simp only [h.room]; push_cast; omega
  · change 256 * full + 0 ≤ m + 1; omega
  · intro hm'
    have hb := h.bound (by omega)
    rw [if_pos hn] at hb
    rw [if_neg (Nat.lt_irrefl 0)]; simp only; omega
  · exact hfits

/-- A group with a zero byte, and no run open. -/
theorem packRound_sparse (h : PackInv s bufsz m gs full v) (hbuf : packBound s.length ≤ bufsz)
    (hm : 8 * m < s.length) (hj : ¬Joins v.ffN (nonzero (group s m))) (hn : v.ffN = 0) :
    ∃ v' gs', packRound s (8 * m) v = some v' ∧ PackInv s bufsz (m + 1) gs' full v' := by
  obtain ⟨src, mem, hsrc, hseg, -, hlow, hput⟩ := packRound_step h hm
  have hle := (nonzero_group_le hm).1
  have hnz : nonzero (group s m) < 8 := by unfold Joins at hj; omega
  have hcost : segCost v.ffN (nonzero (group s m)) = nonzero (group s m) + 1 := by rw [segCost, if_neg hj]
  have hfits := h.fits_step hm
  rw [hcost] at hseg hfits
  have hf := h.fullLe
  have hsize : v.size = (gs.flatMap Segment.packed).length := by rw [h.size, if_neg (by omega)]; rfl
  refine ⟨_, gs ++ [Segment.sparse (group s m)], by
    simp only [packRound, hsrc, hseg, Option.bind_eq_bind, Option.bind_some]
    rw [if_neg (by omega), if_neg (by omega), if_neg (by omega)], ?_⟩
  constructor
  · intro g hg
    rcases List.mem_append.mp hg with hg | hg
    · exact h.ok g hg
    · rw [List.mem_singleton.mp hg]
      exact ⟨group_length hm, zero_mem_of_nonzero (by rw [group_length hm]; omega)⟩
  · change v.ffN = runStep (openRun (pad8 s) m) (nonzero (group s m))
    rw [← h.run, runStep, if_neg hj, hn]
  · change v.ffN ≤ m + 1; omega
  · exact h.runLt
  · rw [flatMap_snoc, h.raw]
    simp only [hn, Nat.sub_zero]
    exact (take_group m).symm
  · intro h0; exact absurd h0 (by simp only; omega)
  · intro h0; exact absurd h0 (by simp only; omega)
  · rw [flatMap_snoc, List.length_append, sparse_packed_length, if_neg (by simp only; omega)]
    simp only; omega
  · rw [flatMap_snoc, List.length_append, Mem.slice_add, Nat.zero_add, ← hsize, sparse_packed_length,
      hput hj hbuf, hsize, (Mem.slice_congr fun j _ hj => hlow j (by omega)).trans h.mem]
  · simp only [h.room]; push_cast; omega
  · change 256 * full + v.ffN ≤ m + 1; omega
  · intro hm'
    have hb := h.bound (by omega)
    simp only [hn, Nat.lt_irrefl, if_false] at hb ⊢; omega
  · exact hfits

/-- One round of `sproto_pack`. -/
theorem packRound_inv (h : PackInv s bufsz m gs full v) (hbuf : packBound s.length ≤ bufsz)
    (hm : 8 * m < s.length)
    (hc : s.length < 8 * m + 8 → ¬(v.ffN = 255 ∧ 6 ≤ nonzero (group s m))) :
    ∃ v' gs' full', packRound s (8 * m) v = some v' ∧ PackInv s bufsz (m + 1) gs' full' v' := by
  by_cases hj : Joins v.ffN (nonzero (group s m))
  · rcases Nat.eq_zero_or_pos v.ffN with hn | hn
    · obtain ⟨v', hv, hI⟩ := packRound_open h hm hn hj
      exact ⟨v', gs, full, hv, hI⟩
    by_cases h256 : v.ffN + 1 = 256
    · have hm' : 8 * m + 8 ≤ s.length := by
        by_contra hp
        apply hc (by omega)
        unfold Joins at hj
        omega
      obtain ⟨v', gs', hv, hI⟩ := packRound_close h hbuf hm' hj h256
      exact ⟨v', gs', full + 1, hv, hI⟩
    · obtain ⟨v', hv, hI⟩ := packRound_join h hm hn hj h256
      exact ⟨v', gs, full, hv, hI⟩
  · rcases Nat.eq_zero_or_pos v.ffN with hn | hn
    · obtain ⟨v', gs', hv, hI⟩ := packRound_sparse h hbuf hm hj hn
      exact ⟨v', gs', full, hv, hI⟩
    · obtain ⟨v', gs', hv, hI⟩ := packRound_end h hbuf hm hj hn
      exact ⟨v', gs', full, hv, hI⟩

end Round

/-! ### The whole loop -/

section Whole

variable {s : Bytes} {bufsz : Int} {mem : Nat → UInt8}

/-- The variables of `sproto_pack` before the loop. -/
def packInit (mem : Nat → UInt8) (bufsz : Int) : PackVars :=
  { ffSrcstart := [], ffDesstart := 0, ffN := 0, size := 0, bufsz := bufsz, mem := mem }

theorem packInit_inv : PackInv s bufsz 0 [] 0 (packInit mem bufsz) := by
  constructor <;> simp [packInit, openRun, packBound]

/-- The rounds over whole groups keep the invariant. -/
theorem packRounds_inv (mem : Nat → UInt8) (hbuf : packBound s.length ≤ bufsz) (m : Nat) (hm : 8 * m ≤ s.length) :
    ∃ v gs full, packRounds s (packInit mem bufsz) m = some v ∧ PackInv s bufsz m gs full v := by
  induction m with
  | zero => exact ⟨_, [], 0, rfl, packInit_inv⟩
  | succ m ih =>
    obtain ⟨v, gs, full, hv, hI⟩ := ih (by omega)
    obtain ⟨v', gs', full', hv', hI'⟩ := packRound_inv hI hbuf (by omega) (fun hp => absurd hp (by omega))
    exact ⟨v', gs', full', by rw [packRounds, hv, Option.bind_some, hv'], hI'⟩

theorem openRun_pad8 (m : Nat) (hm : 8 * m ≤ s.length) : openRun (pad8 s) m = openRun s m := by
  induction m with
  | zero => rfl
  | succ m ih =>
    simp only [openRun]
    rw [ih (by omega), pad8_drop_take (by omega)]

/-- The rounds of a source whose partial group does not fill a run. -/
theorem packRounds_all (mem : Nat → UInt8) (hbuf : packBound s.length ≤ bufsz) (hc : ¬PartialCloses s) :
    ∃ v gs full, packRounds s (packInit mem bufsz) ((s.length + 7) / 8) = some v ∧
      PackInv s bufsz ((s.length + 7) / 8) gs full v := by
  obtain ⟨v, gs, full, hv, hI⟩ := packRounds_inv mem hbuf (s.length / 8) (by omega)
  by_cases hp : s.length % 8 = 0
  · rw [show (s.length + 7) / 8 = s.length / 8 by omega]
    exact ⟨v, gs, full, hv, hI⟩
  · have hlt : 8 * (s.length / 8) < s.length := by omega
    rw [show (s.length + 7) / 8 = s.length / 8 + 1 by omega]
    obtain ⟨v', gs', full', hv', hI'⟩ := packRound_inv hI hbuf hlt (by
      rintro hpart ⟨h255, h6⟩
      rw [hI.run, openRun_pad8 _ (by omega)] at h255
      rw [nonzero_group_cut hlt hpart] at h6
      exact hc ⟨hp, h255, h6⟩)
    exact ⟨v', gs', full', by rw [packRounds, hv, Option.bind_some, hv'], hI'⟩

/-- A run of one group at the end: the group is a whole one, as it has 8 non-zero bytes. -/
theorem whole_of_run_one (h : openRun (pad8 s) ((s.length + 7) / 8) = 1) :
    8 * ((s.length + 7) / 8) = s.length := by
  by_cases h0 : (s.length + 7) / 8 = 0
  · rw [h0] at h; cases h
  obtain ⟨m, hm⟩ := Nat.exists_eq_succ_of_ne_zero h0
  have hlt : 8 * m < s.length := by omega
  rw [hm] at h
  change runStep (openRun (pad8 s) m) (nonzero (group s m)) = 1 at h
  unfold runStep at h
  split at h
  · rename_i hj
    have hle := nonzero_group_le hlt
    unfold Joins at hj
    split at h <;> omega
  · cases h

theorem pad8_drop {c : Nat} (hc : 8 * c ≤ s.length) :
    (pad8 s).drop (8 * c) =
      s.drop (8 * c) ++ List.replicate (((s.drop (8 * c)).length + 7) / 8 * 8 - (s.drop (8 * c)).length) 0 := by
  have hlen : (s.length + 7) / 8 * 8 - s.length
      = ((s.drop (8 * c)).length + 7) / 8 * 8 - (s.drop (8 * c)).length := by
    rw [List.length_drop]; omega
  rw [pad8, List.drop_append_of_le_length hc, hlen]

/-- The run that is still open is written up to the end of the source, padded to whole groups. -/
theorem packEnd_spec (hbuf : packBound s.length ≤ bufsz) {gs : List Segment} {full : Nat} {v : PackVars}
    (h : PackInv s bufsz ((s.length + 7) / 8) gs full v) :
    ∃ (v' : PackVars) (gs' : List Segment), packEnd s v = some v' ∧ (∀ g ∈ gs', g.Ok) ∧
      gs'.flatMap Segment.raw = pad8 s ∧ Mem.slice v'.mem 0 v'.size = gs'.flatMap Segment.packed := by
  have hfits := h.fits
  have hlt := h.runLt
  have hle := h.runLe
  rcases Nat.eq_zero_or_pos v.ffN with hn | hn
  · have hsize : v.size = (gs.flatMap Segment.packed).length := by rw [h.size, if_neg (by omega)]; rfl
    refine ⟨v, gs, by rw [packEnd, if_neg (by omega), if_neg (by omega)], h.ok, ?_, by rw [hsize, h.mem]⟩
    rw [h.raw, hn, List.take_of_length_le]
    rw [pad8_length]; omega
  -- the two calls after the loop agree: a run of one group is 8 bytes from the end of the source
  · have hcs : 8 * ((s.length + 7) / 8 - v.ffN) ≤ s.length := by omega
    have hend : packEnd s v = flushFf v v.ffSrcstart.length := by
      have hlen : v.ffSrcstart.length = s.length - 8 * ((s.length + 7) / 8 - v.ffN) := by
        rw [h.src hn, List.length_drop]
      unfold packEnd
      by_cases h1 : v.ffN = 1
      · have hw := whole_of_run_one (h.run.symm.trans h1)
        rw [if_pos h1]
        congr 1
        omega
      · rw [if_neg h1, if_pos (by omega)]
        congr 1
        omega
    have hroom : 0 ≤ v.bufsz := by rw [h.room]; omega
    rw [flushFf_spec hroom (Nat.le_refl _), List.take_length, h.src hn, h.des hn, ← pad8_drop hcs] at hend
    have hlen : ((pad8 s).drop (8 * ((s.length + 7) / 8 - v.ffN))).length = 8 * v.ffN := by
      rw [List.length_drop, pad8_length]; omega
    refine ⟨_, gs ++ [Segment.run ((pad8 s).drop (8 * ((s.length + 7) / 8 - v.ffN)))], hend, ?_, ?_, ?_⟩
    · intro g hg
      rcases List.mem_append.mp hg with hg | hg
      · exact h.ok g hg
      · rw [List.mem_singleton.mp hg]
        exact ⟨v.ffN - 1, by omega, by rw [hlen]; omega⟩
    · rw [flatMap_snoc, h.raw]
      exact List.take_append_drop _ _
    · have hsize : v.size = (gs.flatMap Segment.packed).length
          + (Segment.run ((pad8 s).drop (8 * ((s.length + 7) / 8 - v.ffN)))).packed.length := by
        rw [h.size, if_pos hn, run_packed_length, hlen]; omega
      rw [flatMap_snoc, hsize, Mem.slice_blit_append, h.mem]

/-- The partial group that fills a run makes `sproto_pack` read beyond the source. -/
theorem sprotoPack_beyond (hbuf : packBound s.length ≤ bufsz) (hc : PartialCloses s) :
    sprotoPack s mem bufsz = none := by
  obtain ⟨hp, h255, h6⟩ := hc
  have hlt : 8 * (s.length / 8) < s.length := by omega
  obtain ⟨v, gs, full, hv, hI⟩ := packRounds_inv mem hbuf (s.length / 8) (by omega)
  have hffN : v.ffN = 255 := by rw [hI.run, openRun_pad8 _ (by omega), h255]
  have hround : packRound s (8 * (s.length / 8)) v = none := by
    apply packRound_beyond hI hbuf hlt (by omega)
    · rw [nonzero_group_cut hlt (by omega), hffN]
      exact .inr ⟨by omega, h6⟩
    · omega
  have hall : packRounds s (packInit mem bufsz) ((s.length + 7) / 8) = none := by
    rw [show (s.length + 7) / 8 = s.length / 8 + 1 by omega, packRounds, hv, Option.bind_some, hround]
  unfold packInit at hall
  rw [sprotoPack, hall]; rfl

/-- Packing `s` into a buffer of `bufsz` bytes reads only `s`, and unpacking the packed bytes
reports the size of the padded source and gives it back in every buffer that can hold it. -/
def RoundTrips (s : Bytes) (mem : Nat → UInt8) (bufsz : Int) : Prop :=
  ∃ n m, sprotoPack s mem bufsz = some (n, m) ∧ ∀ out osz, ∃ o,
    sprotoUnpack (Mem.slice m 0 n) out osz = .ok ((pad8 s).length, o) ∧
    (((pad8 s).length : Int) ≤ osz → Mem.slice o 0 (pad8 s).length = pad8 s)

/-- With the output `lpack` reserves, packing and unpacking gives the padded source back exactly
when the last group is not the partial 256th one of an FF run. -/
theorem pack_roundtrip_iff (s : Bytes) (mem : Nat → UInt8) (bufsz : Int)
    (hbuf : packBound s.length ≤ bufsz) : RoundTrips s mem bufsz ↔ ¬PartialCloses s := by
  constructor
  · rintro ⟨n, m, hpack, -⟩ hc
    rw [sprotoPack_beyond hbuf hc] at hpack
    cases hpack
  · intro hc
    obtain ⟨v, gs, full, hv, hI⟩ := packRounds_all mem hbuf hc
    obtain ⟨v', gs', hend, hok, hraw, hmem⟩ := packEnd_spec hbuf hI
    refine ⟨v'.size, v'.mem, ?_, ?_⟩
    · unfold packInit at hv
      rw [sprotoPack, hv, Option.bind_eq_bind, Option.bind_some, hend]; rfl
    · intro out osz
      obtain ⟨o, ho, hout⟩ := unpack_segments hok out osz
      rw [hraw] at ho hout
      exact ⟨o, by rw [hmem, ho], hout⟩

/-- A partial group packed on its own. -/
theorem pack_roundtrip_partial : packBound 3 ≤ 64 ∧ RoundTrips [0, 7, 1] (fun _ => 0) 64 :=
  ⟨by decide, (pack_roundtrip_iff _ _ _ (by decide)).mpr (by decide)⟩

theorem openRun_ones (m : Nat) (hm : m ≤ 255) : openRun (List.replicate 2047 1) m = m := by
  induction m with
  | zero => rfl
  | succ m ih =>
    have hmin : min 8 (2047 - 8 * m) = 8 := by omega
    simp only [openRun, ih (by omega), List.drop_replicate, List.take_replicate, hmin]
    rw [runStep, if_pos (.inl (by decide)), if_neg (by omega)]

/-- 255 whole groups and one of 7 bytes, none of them 0: `write_ff` reads 2048 bytes of 2047. -/
theorem pack_beyond_source : ¬RoundTrips (List.replicate 2047 1) (fun _ => 0) (packBound 2047) := by
  rintro ⟨n, m, hpack, -⟩
  have hc : PartialCloses (List.replicate 2047 1) := by
    refine ⟨by rw [List.length_replicate]; decide, ?_, ?_⟩
    · rw [List.length_replicate]; exact openRun_ones 255 (Nat.le_refl _)
    · rw [List.length_replicate, List.drop_replicate]; decide
  rw [sprotoPack_beyond (by rw [List.length_replicate]) hc] at hpack
  cases hpack

end Whole

end Sproto
end Skynet
